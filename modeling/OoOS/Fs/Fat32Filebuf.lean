import OoOS.Libk.Arith

/-!
# Reads of a FAT32 file

The length that `xsgetn` misses wraps around.  It reads all that is left of the file
then, and takes the characters from the put cursor.
-/

namespace OoOS.Fs.Fat32

open Libk

/-- The addresses of the buffer and of the get area, the size and the capacity of the
buffer, and which clusters can be read. -/
structure Filebuf where
  beg : Nat
  size : Nat
  capacity : Nat
  gptr : Nat
  egptr : Nat
  blockSize : Nat
  myClusters : List Bool
  nextClusterIdx : Nat

namespace Filebuf

variable (buf : Filebuf) (moved n : Nat)

def unreadSize : Nat :=
  if buf.nextClusterIdx < buf.myClusters.length then
    (buf.myClusters.length - (buf.nextClusterIdx + 1)) * buf.blockSize + 1
  else 0

/-- The clusters that the loop of `read_dev` reads, which starts with the first one. -/
def loaded (s : Nat) : Nat :=
  ((buf.myClusters.take
    (min s (buf.myClusters.length - buf.nextClusterIdx))).takeWhile id).length

/-- `moved` is the address that the allocator gives to a buffer that grows. -/
def readDev : Nat × Filebuf :=
  let s := divRoundUp n buf.blockSize
  let beg := if s * buf.blockSize = 0 then buf.beg else moved
  let capacity := buf.capacity + s * buf.blockSize
  (min (buf.loaded s * buf.blockSize) n, { buf with
    beg, capacity
    gptr := beg + buf.size
    egptr := beg + capacity
    nextClusterIdx := buf.nextClusterIdx + buf.loaded s })

/-- The number of characters, and the buffer they are copied from. -/
def xsgetn : Nat × Filebuf :=
  let l := min n (wsub buf.egptr buf.gptr)
  if l < n then
    let read := buf.readDev moved (min (wsub l n) buf.unreadSize)
    (wadd l read.1, read.2)
  else (l, buf)

def unread : Nat := buf.myClusters.length - buf.nextClusterIdx

/-- The characters that are left of the file, up to the first cluster that cannot be read.
Of the last cluster only one character counts. -/
def left : Nat :=
  let readable := ((buf.myClusters.take buf.unread).takeWhile id).length
  if readable < buf.unread then readable * buf.blockSize else buf.unreadSize

/-- The get area ends with the buffer, which stays below the end of the memory with all
that is left of the file. -/
structure WellFormed : Prop where
  begins : buf.beg ≤ buf.gptr
  ordered : buf.gptr ≤ buf.egptr
  ends : buf.egptr = buf.beg + buf.capacity
  addressed : buf.egptr < 2 ^ 64
  blocks : 0 < buf.blockSize
  grows : buf.capacity + buf.unread * buf.blockSize < 2 ^ 64

variable {buf n}

end Filebuf

end OoOS.Fs.Fat32
