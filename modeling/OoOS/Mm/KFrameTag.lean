import OoOS.Lib.Memory
import OoOS.Mm.Layout

/-!
# Stage 2: the kernel heap

`kframe_tag` divides the regions it gets from stage 1 into blocks, each behind its
`block_tag`, a header of 64 bytes in byte memory.  `none` and `endless` stand for a
call that never returns.
-/

namespace OoOS.Mm

open Lib Libk

def blockMagic : Nat := 0xB1600FBA615F

def btOffset : Nat := 64

def minBlockSize : Nat := 256

def maxBlockSize : Nat := 2 ^ 23

def maxBlockIndex : Nat := 23

def regionCap : Nat := 5

/-- `block_tag`; pointers are addresses and 0 is the null pointer. -/
structure BlockTag where
  magic : Nat := blockMagic
  blockSize : Nat
  heldSize : Nat
  leftSplit : Nat
  rightSplit : Nat
  previous : Nat
  next : Nat
  index : Int
  alignBytes : Nat
  deriving DecidableEq, Repr

def calculateBlockIndex (size : Nat) : Nat :=
  if size < minBlockSize then 0
  else if size > maxBlockSize then maxBlockIndex
  else Nat.log2 size + 1 - 8

/-- `add_align_size`; the result is cut to 32 bits. -/
def addAlignSize (tag align : Nat) : Nat :=
  if align > 1 then
    wsub (upToNearest (wadd tag btOffset) align) (wadd tag btOffset) % 2 ^ 32
  else 0

namespace BlockTag

def allocatedSize (tag : BlockTag) : Nat := wsub tag.blockSize btOffset

def availableSize (tag : BlockTag) : Nat :=
  wsub tag.allocatedSize (wadd tag.heldSize tag.alignBytes)

def actualStart (tag : BlockTag) (addr : Nat) : Nat := wadd addr (btOffset + tag.alignBytes)

def isFree (tag : BlockTag) : Bool := decide (tag.index ≥ 0) && decide (tag.heldSize = 0)

def isSplit (tag : BlockTag) : Bool := decide (tag.leftSplit ≠ 0) || decide (tag.rightSplit ≠ 0)

/-- Every field is in the range of its type. -/
structure InRange (tag : BlockTag) : Prop where
  magic : tag.magic < 2 ^ 64
  blockSize : tag.blockSize < 2 ^ 64
  heldSize : tag.heldSize < 2 ^ 64
  leftSplit : tag.leftSplit < 2 ^ 64
  rightSplit : tag.rightSplit < 2 ^ 64
  previous : tag.previous < 2 ^ 64
  next : tag.next < 2 ^ 64
  index : -2 ^ 31 ≤ tag.index ∧ tag.index < 2 ^ 31
  alignBytes : tag.alignBytes < 2 ^ 32

end BlockTag

def encodeInt (value : Int) : Nat := (value % 2 ^ 32).toNat

def decodeInt (bits : Nat) : Int :=
  if bits < 2 ^ 31 then bits else (bits : Int) - 2 ^ 32

def readTag (memory : Memory) (addr : Nat) : BlockTag where
  magic := readLE memory addr 8
  blockSize := readLE memory (addr + 8) 8
  heldSize := readLE memory (addr + 16) 8
  leftSplit := readLE memory (addr + 24) 8
  rightSplit := readLE memory (addr + 32) 8
  previous := readLE memory (addr + 40) 8
  next := readLE memory (addr + 48) 8
  index := decodeInt (readLE memory (addr + 56) 4)
  alignBytes := readLE memory (addr + 60) 4

def writeTag (memory : Memory) (addr : Nat) (tag : BlockTag) : Memory :=
  let memory := writeLE memory addr 8 tag.magic
  let memory := writeLE memory (addr + 8) 8 tag.blockSize
  let memory := writeLE memory (addr + 16) 8 tag.heldSize
  let memory := writeLE memory (addr + 24) 8 tag.leftSplit
  let memory := writeLE memory (addr + 32) 8 tag.rightSplit
  let memory := writeLE memory (addr + 40) 8 tag.previous
  let memory := writeLE memory (addr + 48) 8 tag.next
  let memory := writeLE memory (addr + 56) 4 (encodeInt tag.index)
  writeLE memory (addr + 60) 4 tag.alignBytes

structure KFrameTag where
  memory : Memory
  completeRegions : Nat → Nat
  availableBlocks : Nat → Nat

/-- More rounds than there are addresses to visit. -/
@[irreducible]
def linkFuel : Nat := 2 ^ 64

namespace KFrameTag

def tag (frame : KFrameTag) (addr : Nat) : BlockTag := readTag frame.memory addr

def setTag (frame : KFrameTag) (addr : Nat) (tag : BlockTag) : KFrameTag :=
  { frame with memory := writeTag frame.memory addr tag }

def modifyTag (frame : KFrameTag) (addr : Nat) (change : BlockTag → BlockTag) : KFrameTag :=
  frame.setTag addr (change (frame.tag addr))

/-- `available_blocks[idx]`; `idx = -1` reads the last four entries of
`complete_regions`. -/
def availableAt (frame : KFrameTag) : Int → Nat
  | .ofNat idx => frame.availableBlocks idx
  | .negSucc 0 =>
    frame.completeRegions 20 + 2 ^ 16 * frame.completeRegions 21 +
      2 ^ 32 * frame.completeRegions 22 + 2 ^ 48 * frame.completeRegions 23
  | .negSucc _ => 0

def setAvailable (frame : KFrameTag) (idx : Int) (blk : Nat) : KFrameTag :=
  match idx with
  | .ofNat idx =>
    { frame with
      availableBlocks := fun i =>
        if i = idx then blk else frame.availableBlocks i }
  | .negSucc 0 =>
    { frame with
      completeRegions := fun i =>
        if 20 ≤ i ∧ i < 24 then blk / 2 ^ (16 * (i - 20)) % 2 ^ 16
        else frame.completeRegions i }
  | .negSucc _ => frame

def setComplete (frame : KFrameTag) (idx count : Nat) : KFrameTag :=
  { frame with
    completeRegions := fun i =>
      if i = idx then count % 2 ^ 16 else frame.completeRegions i }

def insertBlock (frame : KFrameTag) (blk : Nat) (idx : Int) : KFrameTag :=
  let index : Int :=
    if idx < 0 then calculateBlockIndex (frame.tag blk).blockSize else idx
  let frame := frame.modifyTag blk (fun tag => { tag with index := index })
  if (frame.tag blk).previous ≠ 0 ∨ (frame.tag blk).next ≠ 0 then frame
  else
    let head := frame.availableAt index
    let frame :=
      if head ≠ 0 ∧ blk ≠ head then
        (frame.modifyTag head (fun tag => { tag with previous := blk })).modifyTag
          blk (fun tag => { tag with next := head })
      else frame
    frame.setAvailable index blk

def removeBlock (frame : KFrameTag) (blk : Nat) : KFrameTag :=
  let index := (frame.tag blk).index
  let frame :=
    if frame.availableAt index = blk then
      frame.setAvailable index (frame.tag blk).next
    else if (frame.tag blk).previous ≠ 0 then
      frame.modifyTag (frame.tag blk).previous
        (fun tag => { tag with next := (frame.tag blk).next })
    else frame
  let frame :=
    if (frame.tag blk).next ≠ 0 then
      frame.modifyTag (frame.tag blk).next
        (fun tag => { tag with previous := (frame.tag blk).previous })
    else frame
  frame.modifyTag blk
    (fun tag => { tag with next := 0, previous := 0, index := -1 })

/-- `block_tag::split`: the address of the new tag, which gets what the block
does not hold. -/
def split (frame : KFrameTag) (addr : Nat) : Nat × KFrameTag :=
  let this := frame.tag addr
  let that := wadd (this.actualStart addr) this.heldSize
  let size := this.availableSize
  let frame := frame.setTag that
    { blockSize := size, heldSize := 0, leftSplit := addr
      rightSplit := this.rightSplit, previous := 0, next := 0, index := -1
      alignBytes := 0 }
  let frame :=
    if this.rightSplit ≠ 0 then
      frame.modifyTag this.rightSplit
        (fun tag => { tag with leftSplit := that })
    else frame
  (that, frame.modifyTag addr (fun tag =>
    { tag with
      rightSplit := that
      blockSize := wsub tag.blockSize size }))

/-- `if(tag->available_size() >= min_block_size + bt_offset)
insert_block(tag->split(), -1)`. -/
def splitRemainder (frame : KFrameTag) (tag : Nat) : KFrameTag :=
  if (frame.tag tag).availableSize ≥ minBlockSize + btOffset then
    (frame.split tag).2.insertBlock (frame.split tag).1 (-1)
  else frame

def meltLeft (frame : KFrameTag) (tag : Nat) : KFrameTag :=
  let this := frame.tag tag
  let left := this.leftSplit
  let frame := frame.modifyTag left (fun leftTag =>
    { leftTag with
      blockSize := wadd leftTag.blockSize this.blockSize
      rightSplit := this.rightSplit })
  let frame :=
    if this.rightSplit ≠ 0 then
      frame.modifyTag this.rightSplit
        (fun rightTag => { rightTag with leftSplit := left })
    else frame
  frame.removeBlock tag

def meltRight (frame : KFrameTag) (tag : Nat) : KFrameTag :=
  let right := (frame.tag tag).rightSplit
  let frame := frame.removeBlock right
  let rightTag := frame.tag right
  let frame := frame.modifyTag tag (fun this =>
    { this with
      blockSize := wadd this.blockSize rightTag.blockSize
      rightSplit := rightTag.rightSplit })
  if rightTag.rightSplit ≠ 0 then
    frame.modifyTag rightTag.rightSplit
      (fun further => { further with leftSplit := tag })
  else frame

def meltLeftAll : (fuel : Nat) → KFrameTag → Nat → Option (Nat × KFrameTag)
  | 0, _, _ => none
  | fuel + 1, frame, tag =>
    let left := (frame.tag tag).leftSplit
    if left ≠ 0 ∧ (frame.tag left).isFree then
      meltLeftAll fuel (frame.meltLeft tag) left
    else some (tag, frame)

def meltRightAll : (fuel : Nat) → KFrameTag → Nat → Option KFrameTag
  | 0, _, _ => none
  | fuel + 1, frame, tag =>
    let right := (frame.tag tag).rightSplit
    if right ≠ 0 ∧ (frame.tag right).isFree then
      meltRightAll fuel (frame.meltRight tag) tag
    else some frame

/-- The loop of `find_tag`: step back one byte at a time until the magic
number is found, at most `align` times unless `align` is 0. -/
def findTagFrom (memory : Memory) (align : Nat) : (tag round : Nat) → Nat
  | 0, _ => 0
  | tag + 1, round =>
    if readLE memory (tag + 1) 8 ≠ blockMagic ∧ (align = 0 ∨ round < align) then
      findTagFrom memory align tag (round + 1)
    else tag + 1

def findTag (frame : KFrameTag) (ptr align : Nat) : Nat :=
  if ptr = 0 then 0
  else
    let tag := findTagFrom frame.memory align (wsub ptr btOffset) 0
    let tag :=
      if tag ≠ 0 ∧ (frame.tag tag).magic ≠ blockMagic then pageAligned ptr
      else tag
    if tag ≠ 0 ∧ (frame.tag tag).magic = blockMagic then tag else 0

/-- The self-link and magic-number repairs that `get_for_allocation` makes on
every tag it looks at. -/
def repairTag (frame : KFrameTag) (tag : Nat) : KFrameTag :=
  let frame :=
    if tag = (frame.tag tag).next then
      frame.modifyTag tag (fun this => { this with next := 0 })
    else frame
  let frame :=
    if tag = (frame.tag tag).previous then
      frame.modifyTag tag (fun this => { this with previous := 0 })
    else frame
  if (frame.tag tag).magic ≠ blockMagic then
    frame.modifyTag tag (fun this => { this with magic := blockMagic })
  else frame

inductive Fit where
  | found (tag : Nat) (frame : KFrameTag)
  | missing (frame : KFrameTag)
  | endless

/-- The loop of `get_for_allocation` over `available_blocks[idx]`: take the
first block with room. -/
def findFit (idx size align : Nat) : (fuel : Nat) → KFrameTag → Nat → Fit
  | 0, _, _ => .endless
  | fuel + 1, frame, tag =>
    if tag = 0 then .missing frame
    else
      let frame := frame.repairTag tag
      let alignAdd := addAlignSize tag align
      if (frame.tag tag).availableSize ≥ wadd size alignAdd then
        let frame := (frame.removeBlock tag).modifyTag tag (fun this =>
          { this with heldSize := size, alignBytes := alignAdd })
        if (frame.tag tag).leftSplit = 0 ∧ (frame.tag tag).rightSplit = 0 then
          .found tag (frame.setComplete idx
            (frame.completeRegions idx + (2 ^ 16 - 1)))
        else .found tag frame
      else findFit idx size align fuel frame (frame.tag tag).next

end KFrameTag

structure Region where
  start : Nat
  size : Nat
  deriving DecidableEq, Repr

structure Heap where
  frame : KFrameTag
  regions : List Region

namespace Heap

def actualSize (size align : Nat) : Nat := wadd (max (wadd size btOffset) align) align

/-- `kframe_tag::create_tag`, where `region` is the address that stage 1
returns.  The tag lies 64 bytes below the region. -/
def createTag (heap : Heap) (size align region : Nat) : Nat × Heap :=
  let allocated := wsub region btOffset
  let blockSize := regionSizeFor (actualSize size align)
  (allocated,
    { frame := heap.frame.setTag allocated
        { blockSize := blockSize, heldSize := size, leftSplit := 0
          rightSplit := 0, previous := 0, next := 0, index := -1
          alignBytes := addAlignSize allocated align }
      regions := heap.regions ++ [⟨region, blockSize⟩] })

/-- `kframe_tag::get_for_allocation`; `region` is what stage 1 returns if the
free list has no block. -/
def getForAllocation (heap : Heap) (size align region : Nat) : Option (Nat × Heap) :=
  let size := max size 16
  let idx := calculateBlockIndex size
  match KFrameTag.findFit idx size align linkFuel heap.frame
      (heap.frame.availableBlocks idx) with
  | .endless => none
  | .found tag frame => some (tag, { heap with frame := frame.splitRemainder tag })
  | .missing frame =>
    let created := createTag { heap with frame := frame } size align region
    if created.1 = 0 then some (0, { heap with frame := frame })
    else
      some (created.1,
        { created.2 with
          frame := created.2.frame.splitRemainder created.1 })

/-- `kernel_memory_mgr::deallocate_block`, as far as the heap sees it: the
region above the tag goes back to stage 1. -/
def deallocateBlock (heap : Heap) (tag : Nat) : Heap :=
  { heap with
    regions := heap.regions.filter
      (fun region => region.start ≠ pageAligned (wadd tag btOffset)) }

def releaseBlock (heap : Heap) (tag : Nat) : Option Heap :=
  if (heap.frame.tag tag).isFree then some heap
  else
    let frame := heap.frame.modifyTag tag
      (fun this => { this with heldSize := 0, alignBytes := 0 })
    match KFrameTag.meltLeftAll linkFuel frame tag with
    | none => none
    | some (tag, frame) =>
      match KFrameTag.meltRightAll linkFuel frame tag with
      | none => none
      | some frame =>
        let this := frame.tag tag
        let idx := calculateBlockIndex this.allocatedSize
        if this.isSplit ∨ frame.completeRegions idx < regionCap then
          let frame :=
            if this.isSplit then frame
            else frame.setComplete idx (frame.completeRegions idx + 1)
          some { heap with frame := frame.insertBlock tag idx }
        else some (deallocateBlock { heap with frame := frame } tag)

def allocate (heap : Heap) (size align region : Nat) : Option (Nat × Heap) :=
  if size = 0 then some (0, heap)
  else
    match heap.getForAllocation size align region with
    | none => none
    | some (tag, heap) =>
      if tag = 0 then some (0, heap)
      else some ((heap.frame.tag tag).actualStart tag, heap)

def deallocate (heap : Heap) (ptr align : Nat) : Option Heap :=
  if ptr = 0 then some heap
  else
    let tag := heap.frame.findTag ptr align
    if tag = 0 then some heap else heap.releaseBlock tag

def copyBytes (memory : Memory) (target source count : Nat) : Memory :=
  fun x =>
    if target ≤ x ∧ x < target + count then memory (source + (x - target))
    else memory x

def reallocate (heap : Heap) (ptr size align region : Nat) : Option (Nat × Heap) :=
  let tag := heap.frame.findTag ptr align
  if tag = 0 then heap.allocate size align region
  else if size = 0 then (heap.deallocate ptr align).map (fun heap => (0, heap))
  else
    let alignAdd := addAlignSize tag align
    if (heap.frame.tag tag).allocatedSize ≥ wadd size alignAdd then
      let frame := heap.frame.modifyTag tag (fun this =>
        { this with alignBytes := alignAdd, heldSize := size })
      some ((frame.tag tag).actualStart tag, { heap with frame := frame })
    else
      match heap.allocate size align region with
      | none => none
      | some (result, heap) =>
        let count := min size (heap.frame.tag tag).heldSize
        let heap :=
          if result = 0 then heap
          else
            { heap with
              frame.memory :=
                copyBytes heap.frame.memory result ptr count }
        (heap.deallocate ptr align).map (fun heap => (result, heap))

end Heap

end OoOS.Mm
