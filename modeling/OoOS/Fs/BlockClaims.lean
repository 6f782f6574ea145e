import OoOS.Fs.ExtentRoom
import OoOS.Fs.LegacyMap
import OoOS.Util.Bitmap
import OoOS.Util.BitmapScan

/-!
# Claiming blocks for an inode

`claim_blocks` on the groups, the free counts and the inode that asks.  The bits
are set and the block is appended before it is pushed to the tree of the inode,
and nothing is taken back.
-/

namespace OoOS.Fs.BlockClaims

open Lib Libk Util ExtVnode

structure Group where
  bitmap : Bitmap
  free : Nat

/-- The volume and the requestor: `count` is `blocks_count_lo` and
`blocks_count_hi`. -/
structure Volume where
  groups : List Group
  unallocated : Nat
  count : Nat × Nat
  useExtents : Bool
  node : ExtVnode

/-- What does not change in a call: the sizes, the disk, the memory behind a
bitmap, and whether the writes to the disk succeed. -/
structure Env where
  blockSize : Nat
  blocksPerGroup : Nat
  disk : Nat → Option Memory
  csum : Memory → Nat
  behind : Nat → BitVec 64
  persistInode : Bool
  persistSb : Bool
  persistGroup : Bool

/-- How a call that returns has ended. -/
inductive Outcome where
  | nothing
  | outOfSpace
  | notSaved
  | pushFailed
  | claimed (metadata : Nat)

/-- The sum of a `dword` of the two halves; 16 bits of each are kept. -/
def addBlocks (k : Nat) (count : Nat × Nat) : Nat × Nat :=
  let blcnt := (count.1 % 2 ^ 16 + 2 ^ 16 * count.2 + k) % 2 ^ 32
  (blcnt % 2 ^ 16, blcnt / 2 ^ 16)

/-- `alter_available_blocks` by `-howMany`, which is cut to an `int`, for a group
whose bitmap has changed. -/
def Volume.alter (v : Volume) (howMany i : Nat) (bitmap : Bitmap → Bitmap) : Volume :=
  let diff := (-(howMany : Int)).bmod (2 ^ 32)
  { v with
    groups := v.groups.modify i fun group =>
      { bitmap := bitmap group.bitmap, free := ((group.free + diff) % 2 ^ 32).toNat }
    unallocated := ((v.unallocated + diff) % 2 ^ 64).toNat }

def Volume.marked (v : Volume) (howMany i avail : Nat) : Volume :=
  v.alter howMany i fun bitmap => bitmapSetChainBits bitmap avail howMany

/-- The volume when the block has been appended, before it is pushed. -/
def Volume.handed (v : Volume) (howMany i avail : Nat) (blk : DiskBlock) : Volume :=
  { v.marked howMany i avail with
    node := { v.node with blockData := v.node.blockData.emplaceBack blk, claimed := 0 } }

section

variable (env : Env)

/-- The first group with a free block, and the bit that is found in it (`none` for
-1, if there is none after all). -/
def findFree : List Group → Nat → Option (Nat × Option Nat)
  | [], _ => none
  | group :: rest, i =>
    if group.free ≠ 0 then some (i, bitmapScanSingleZero 0 group.bitmap) else findFree rest (i + 1)

/-- `claim_metadata_block` on the volume: the number of the block. -/
def claimOne (v : Volume) : Option (Nat × Volume) :=
  (findFree v.groups 0).map fun (i, avail) =>
    (((i * env.blocksPerGroup + (avail.map Int.ofNat).getD (-1) : Int) % 2 ^ 64).toNat,
      { v.alter 1 i (bitmapSetBit · avail) with count := addBlocks 1 v.count })

def claimMany : Nat → Volume → Option Volume
  | 0, v => some v
  | k + 1, v => (claimMany k v).bind fun v => (claimOne env v).map Prod.snd

/-- What the tree sees of the volume. -/
def Volume.fs (v : Volume) : ExtFs where
  blockSize := env.blockSize
  disk := env.disk
  fresh := fun k => ((claimMany env k v).bind (claimOne env)).map Prod.fst
  persistInode := env.persistInode
  csum := env.csum

/-- The volume after a push, with the metadata blocks that were claimed for it. -/
def Volume.after (v : Volume) (pushed : ExtVnode) : Volume :=
  { (claimMany env pushed.claimed v).getD v with node := pushed }

variable (howMany : Nat)

/-- The first group with so many free blocks whose bitmap has a place for them;
`none` if a search does not end: it goes on for ever once a round does not move. -/
def findRun : List Group → Nat → Option (Option (Nat × Nat))
  | [], _ => some none
  | group :: rest, i =>
    if howMany ≤ group.free then
      match bitmapScanChainZeroes (group.bitmap.length + 1) group.bitmap env.behind howMany with
      | none => none
      | some (some avail) => some (some (i, avail))
      | some none => findRun rest (i + 1)
    else findRun rest (i + 1)

def pushExtent (v : Volume) (blk : DiskBlock) : Result Bool :=
  if v.useExtents then v.node.pushExtentExt4 (v.fs env) blk
  else v.node.pushExtentLegacy (v.fs env) blk

/-- `claim_blocks`; `none` if it does not return. -/
def claimBlocks (v : Volume) : Option (Outcome × Volume) :=
  if howMany = 0 then some (.nothing, v)
  else
    match findRun env howMany v.groups 0 with
    | none => none
    | some none => some (.outOfSpace, v)
    | some (some (i, avail)) =>
      if env.persistSb then
        let blk : DiskBlock := ⟨(i * env.blocksPerGroup + avail) % 2 ^ 64, howMany⟩
        let handed := v.handed howMany i avail blk
        match pushExtent env handed blk with
        | .returned true pushed =>
          let after := handed.after env pushed
          some (if env.persistGroup then .claimed pushed.claimed else .notSaved,
            { after with count := addBlocks howMany after.count })
        | .returned false pushed => some (.pushFailed, handed.after env pushed)
        | _ => none
      else some (.notSaved, v.marked howMany i avail)

def total (count : Nat × Nat) : Nat := count.1 + 2 ^ 32 * count.2

/-- The call returns; if it does so without blocks, nothing has changed, and
otherwise the count has grown by the blocks. -/
def Right (v : Volume) : Prop :=
  match claimBlocks env howMany v with
  | none => False
  | some (.outOfSpace, after) => after = v
  | some (.pushFailed, after) => after = v
  | some (.claimed metadata, after) => total after.count = total v.count + howMany + metadata
  | some _ => True

/-- The count stays in the lower 16 bits, or what is cut off above them is made
up for by the carry. -/
def CountFits (count : Nat × Nat) (k : Nat) : Prop :=
  count.1 + k < 2 ^ 16 ∨ count.2 < count.1 / 2 ^ 16 ∧
    (count.1 % 2 ^ 16 + k) / 2 ^ 16 + count.1 / 2 ^ 16 = (2 ^ 16 - count.1 / 2 ^ 16) * 2 ^ 16

/-- The search ends; if it finds a place and the superblock is written, the tree
has room and the count can grow. -/
def Fits (v : Volume) : Prop :=
  howMany ≠ 0 → ∃ run, findRun env howMany v.groups 0 = some run ∧
    (run.isSome → env.persistSb = true → v.node.HasRoom ∧
      (env.persistGroup = true → CountFits v.count howMany))

end

section

variable {count : Nat × Nat} {k : Nat}

end

section

variable {v : Volume} {howMany i avail : Nat} {blk : DiskBlock}

end

def plainEnv : Env := ⟨1024, 8192, fun _ => none, fun _ => 0, fun _ => 0, true, true, true⟩

end OoOS.Fs.BlockClaims
