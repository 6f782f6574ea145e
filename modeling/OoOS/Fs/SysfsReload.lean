import OoOS.Fs.SysfsExtents
import OoOS.Libk.Arith

/-!
# Contents of sysfs objects

Each object has a buffer in memory.  `sync` puts its blocks in the data file, at
the places the extent tree gives, and opening the object afresh reads them back.
-/

namespace OoOS.Fs.Sysfs

open List Function Libk

/-- Bytes in memory or in the data file.  Growing either does not clear the new
part, so its bytes are unknown. -/
abbrev Bytes := List (Option UInt8)

def unknown (count : Nat) : Bytes := List.replicate count none

def patch (buffer : Bytes) (pos : Nat) (bytes : Bytes) : Bytes :=
  buffer.take pos ++ bytes ++ buffer.drop (pos + bytes.length)

structure Object where
  rootDepth : Nat := 0
  root : Extent := {}
  sizeBytes : Nat := 0
  total : Nat := 0
  buffer : Bytes := []
  cur : Nat := 0
  dirtyBlocks : List (Nat × Nat) := []
  isDirty : Bool := false

structure Store (Ino : Type) where
  branches : List Branch
  data : List Bytes
  objects : Ino → Object

def turn (entries : List Extent) (idx pos incr : Nat) : Nat :=
  let e := entries.getD pos {}
  if idx < e.ordinal ∨ e.start = 0 then pos - incr else pos + incr

/-- `__find_from`: in a branch it starts at entry 3 with increments 2 and 1. -/
def findFrom (branches : List Branch) (idx : Nat) : Nat → Nat → Option Extent
  | 0, _ => none
  | fuel + 1, number =>
    (getBranch branches number).bind fun b =>
      let e := b.entries.getD (turn b.entries idx (turn b.entries idx 3 2) 1) {}
      if b.depth = 0 then some e else findFrom branches idx fuel e.start

def Object.extentAt (o : Object) (branches : List Branch) (i : Nat) : Option Extent :=
  if o.total ≤ i then none
  else if o.rootDepth = 0 then some o.root
  else findFrom branches i (o.rootDepth + 1) o.root.start

def actualBlock (e : Extent) (ordinal : Nat) : Nat :=
  (((e.start : Int) + ordinal - e.ordinal) % 2 ^ 32).toNat

def writeData (data : List Bytes) (block : Nat) (bytes : Bytes) : Option (List Bytes) :=
  if block = 0 ∨ data.length < block then none
  else some (data.set (block - 1) (patch (data.getD (block - 1) []) 0 bytes))

/-- The loop of `write_dev`: what it wrote before it threw stays written. -/
def Object.writeDev (o : Object) (branches : List Branch) :
    List Nat → List Bytes → List Bytes × Bool
  | [], data => (data, true)
  | i :: rest, data =>
    match (o.extentAt branches i).bind fun e =>
        writeData data (actualBlock e i) ((o.buffer.drop (1024 * i)).take 1024) with
    | none => (data, false)
    | some data => o.writeDev branches rest data

namespace Store

variable {Ino : Type} [DecidableEq Ino] (crc : Nat → List Extent → Nat) (s : Store Ino) (ino : Ino)

def put (o : Object) : Store Ino := { s with objects := update s.objects ino o }

def tree : ExtentTree :=
  let o := s.objects ino
  ⟨s.branches, s.data.length, o.rootDepth, o.root, o.total⟩

def sync : Store Ino :=
  let o := s.objects ino
  if o.isDirty then
    let (data, done) := o.writeDev s.branches
      (o.dirtyBlocks.flatMap fun (start, stop) => List.range' start (stop - start))
      s.data
    if done then
      { s.put ino { o with dirtyBlocks := [], isDirty := false } with data := data }
    else { s with data := data }
  else s

/-- `sysfs_vnode::on_overflow`.  When the tree cannot take the new extent, only
the data file has grown. -/
def onOverflow (n : Nat) : Store Ino × Nat :=
  let o := s.objects ino
  let target := o.sizeBytes + n
  let grown := { o with sizeBytes := target, buffer := o.buffer ++ unknown n }
  if target < o.total * 1024 then (s.put ino grown, n)
  else
    let excess := max 1 (target - o.total * 1024)
    let added := divRoundUp (excess % 2 ^ 16) 1024
    let data := s.data ++ List.replicate added (unknown 1024)
    match (s.tree ino).push crc added with
    | none => ({ s with data := data }, 0)
    | some t =>
      ({ s.put ino { grown with
         rootDepth := t.rootDepth, root := t.root, total := t.total } with
          branches := t.branches, data := data }, n)

/-- The end of `xsputn`: `count` bytes are put at the position, which was
`start` when the call began. -/
def append (start count : Nat) (bytes : List UInt8) : Store Ino :=
  let o := s.objects ino
  let cur := o.cur + count
  s.put ino { o with
    buffer := patch o.buffer o.cur ((bytes.take count).map some)
    cur := cur
    dirtyBlocks := o.dirtyBlocks ++ [(start / 1024, cur / 1024 + 1)]
    sizeBytes := max o.sizeBytes cur
    isDirty := true }

def xsputn (bytes : List UInt8) : Store Ino :=
  let o := s.objects ino
  let room := min bytes.length (o.buffer.length - o.cur)
  let (after, more) :=
    if room < bytes.length then s.onOverflow crc ino (bytes.length - room)
    else (s, 0)
  if room + more = 0 then after else after.append ino o.cur (room + more) bytes

end Store

/-- `sysfs::read_data` to the sector with the number of the block in the data
file. -/
def readSector (data : List Bytes) (buffer : Bytes) (actual : Nat) : Option Bytes :=
  if actual = 0 ∨ data.length < actual ∨ buffer.length < 1024 * (actual + 1) then
    none
  else some (patch buffer (1024 * actual) (data.getD (actual - 1) []))

def Object.readExtent (o : Object) (branches : List Branch) (data : List Bytes)
    (buffer : Bytes) (i : Nat) : Option Bytes :=
  (o.extentAt branches i).bind fun e =>
    (List.range' e.start e.length).foldlM (readSector data) buffer

/-- The constructor of `sysfs_vnode`, with `init`: the buffer of the new node, or
none where it throws or writes outside the buffer. -/
def Store.reload {Ino : Type} (s : Store Ino) (ino : Ino) : Option Bytes :=
  (s.tree ino).reopen.bind fun ext =>
    (List.range ext).foldlM
      ({ s.objects ino with total := ext }.readExtent s.branches s.data)
      (unknown (ext * 1024))

inductive Event (Ino : Type) where
  | write (ino : Ino) (bytes : List UInt8)
  | sync (ino : Ino)

namespace Store

variable {Ino : Type} [DecidableEq Ino] (crc : Nat → List Extent → Nat)

def step (s : Store Ino) : Event Ino → Store Ino
  | .write ino bytes => s.xsputn crc ino bytes
  | .sync ino => s.sync ino

def run (s : Store Ino) (events : List (Event Ino)) : Store Ino := events.foldl (step crc) s

def start (branches : List Branch) (data : List Bytes) : Store Ino := ⟨branches, data, fun _ => {}⟩

variable {s : Store Ino} {ino other : Ino}

def Empty (ino : Ino) (event : Event Ino) : Prop := ∀ bytes, event = .write ino bytes → bytes = []

end Store

end OoOS.Fs.Sysfs
