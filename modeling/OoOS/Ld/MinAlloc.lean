import Mathlib.Data.List.Basic
import Mathlib.Tactic.Ring

/-!
# The allocator of the dynamic linker

Tags are found by their addresses; 0 is the null pointer, and numbers do not
wrap.  A function gives nothing when it would use what is not there.
-/

namespace OoOS.Ld.MinAlloc

def minBlockSize : Nat := 16

def maxBlockSize : Nat := 32

def maxBlockIndex : Nat := 5

def pageSize : Nat := 4096

def tagSize : Nat := 64

structure BlockTag where
  index : Int
  blockSize : Nat
  heldSize : Nat
  leftSplit : Nat := 0
  rightSplit : Nat := 0
  previous : Nat := 0
  next : Nat := 0
  alignBytes : Nat := 0

structure Heap where
  tags : Nat → Option BlockTag
  availableBlocks : List Nat
  brk : Nat

def allocInit (brk : Nat) : Heap := ⟨fun _ => none, List.replicate (5 - 4) 0, brk⟩

def calculateBlockIndex (size : Nat) : Nat :=
  if size < minBlockSize then 0
  else if maxBlockSize < size then maxBlockIndex
  else Nat.log2 size + 1 - 4

/-- `get_align` of the tag at an address: an aligned start is moved as well. -/
def getAlign (addr al : Nat) : Nat :=
  if 1 < al then al - (addr + tagSize) % al else 0

namespace BlockTag

def availableSize (tag : BlockTag) : Nat :=
  tag.blockSize - tagSize - (tag.heldSize + tag.alignBytes)

def actualStart (tag : BlockTag) (addr : Nat) : Nat := addr + tagSize + tag.alignBytes

end BlockTag

namespace Heap

def modify (heap : Heap) (addr : Nat) (change : BlockTag → BlockTag) : Option Heap := do
  let tag ← heap.tags addr
  return { heap with tags := Function.update heap.tags addr (some (change tag)) }

def modifyIf (heap : Heap) (addr : Nat) (change : BlockTag → BlockTag) : Option Heap :=
  if addr = 0 then some heap else heap.modify addr change

/-- `insert_at`; without an index the size of the block decides. -/
def insertAt (heap : Heap) (addr : Nat) (given : Option Nat) : Option Heap := do
  let tag ← heap.tags addr
  let index := given.getD (calculateBlockIndex tag.blockSize)
  let head ← heap.availableBlocks[index]?
  let heap ← heap.modify addr fun tag =>
    { tag with index := index, next := if head = 0 then tag.next else head }
  let heap ← heap.modifyIf head fun tag => { tag with previous := addr }
  return { heap with availableBlocks := heap.availableBlocks.set index addr }

def remove (heap : Heap) (addr : Nat) : Option Heap := do
  let tag ← heap.tags addr
  let index ← tag.index.toNat?
  let head ← heap.availableBlocks[index]?
  let heap := if head = addr then
    { heap with availableBlocks := heap.availableBlocks.set index tag.next } else heap
  let heap ← heap.modifyIf tag.previous fun other => { other with next := tag.next }
  let heap ← heap.modifyIf tag.next fun other => { other with previous := tag.previous }
  heap.modify addr fun tag => { tag with next := 0, previous := 0, index := -1 }

def split (heap : Heap) (addr : Nat) : Option (Nat × Heap) := do
  let tag ← heap.tags addr
  let that := tag.actualStart addr + tag.heldSize
  let new : BlockTag :=
    { index := -1, blockSize := tag.availableSize, heldSize := 0, leftSplit := addr,
      rightSplit := tag.rightSplit }
  let heap := { heap with tags := Function.update heap.tags that (some new) }
  let heap ← heap.modifyIf tag.rightSplit fun other => { other with leftSplit := that }
  let heap ← heap.modify addr fun tag =>
    { tag with rightSplit := that, blockSize := tag.blockSize - new.blockSize }
  return (that, heap)

def splitRest (heap : Heap) (addr : Nat) : Option Heap := do
  let tag ← heap.tags addr
  if minBlockSize + tagSize ≤ tag.availableSize then
    let (that, heap) ← heap.split addr
    heap.insertAt that none
  else return heap

def absorbRight (heap : Heap) (addr : Nat) : Option (Bool × Heap) := do
  let tag ← heap.tags addr
  if tag.rightSplit = 0 then return (false, heap)
  let that ← heap.tags tag.rightSplit
  if that.index < 0 then return (false, heap)
  let heap ← heap.remove tag.rightSplit
  let heap ← heap.modify addr fun tag =>
    { tag with blockSize := tag.blockSize + that.blockSize, rightSplit := that.rightSplit }
  let heap ← heap.modifyIf that.rightSplit fun other => { other with leftSplit := addr }
  return (true, heap)

/-- `melt_left`, for a free neighbour: it stays on its list and `this`, which is
on none, is removed. -/
def meltLeft (heap : Heap) (addr : Nat) : Option (Nat × Heap) := do
  let tag ← heap.tags addr
  let heap ← heap.modify tag.leftSplit fun that =>
    { that with blockSize := that.blockSize + tag.blockSize, rightSplit := tag.rightSplit }
  let heap ← heap.modifyIf tag.rightSplit fun other => { other with leftSplit := tag.leftSplit }
  let heap ← heap.remove addr
  return (tag.leftSplit, heap)

def meltAll (heap : Heap) (addr : Nat) : Nat → Option (Nat × Heap)
  | 0 => none
  | fuel + 1 => do
    let tag ← heap.tags addr
    if tag.leftSplit = 0 then return (addr, heap)
    let that ← heap.tags tag.leftSplit
    if that.index < 0 then return (addr, heap)
    let (addr, heap) ← heap.meltLeft addr
    heap.meltAll addr fuel

def absorbAll (heap : Heap) (addr : Nat) : Nat → Option Heap
  | 0 => none
  | fuel + 1 => do
    let (again, heap) ← heap.absorbRight addr
    if again then heap.absorbAll addr fuel else return heap

def replaceTag (heap : Heap) (fuel addr : Nat) : Option Heap := do
  let (addr, heap) ← heap.meltAll addr fuel
  let heap ← heap.absorbAll addr fuel
  let heap ← heap.modify addr fun tag => { tag with heldSize := 0, alignBytes := 0 }
  let tag ← heap.tags addr
  heap.insertAt addr (some (calculateBlockIndex tag.availableSize))

def createTag (heap : Heap) (size align : Nat) : Option (Nat × Heap) := do
  let actual := max (size + tagSize) align + align
  let pages := (actual + pageSize - 1) / pageSize
  let tag : BlockTag :=
    { index := -1, blockSize := pages * pageSize, heldSize := size,
      alignBytes := getAlign heap.brk align }
  let addr := heap.brk
  let heap ← splitRest
    { heap with tags := Function.update heap.tags addr (some tag), brk := addr + pages * pageSize }
    addr
  return (addr, heap)

def fitting (heap : Heap) (size al : Nat) : Nat → Nat → Option Nat
  | 0, _ => none
  | fuel + 1, addr =>
    if addr = 0 then some 0
    else do
      let tag ← heap.tags addr
      if size + getAlign addr al ≤ tag.availableSize then return addr
      heap.fitting size al fuel tag.next

def findTag (heap : Heap) (fuel size al : Nat) : Option (Nat × Heap) := do
  let head ← heap.availableBlocks[calculateBlockIndex size]?
  let addr ← heap.fitting size al fuel head
  if addr = 0 then return (0, heap)
  let heap ← heap.remove addr
  let heap ← heap.modify addr fun tag =>
    { tag with heldSize := size, alignBytes := getAlign addr al }
  let heap ← heap.splitRest addr
  return (addr, heap)

def allocate (heap : Heap) (fuel count al : Nat) : Option (Nat × Heap) := do
  if count = 0 then return (0, heap)
  let (found, heap) ← heap.findTag fuel count al
  let (addr, heap) ← if found = 0 then heap.createTag count al else some (found, heap)
  let tag ← heap.tags addr
  return (tag.actualStart addr, heap)

/-- `locate_tag`: the nearest tag at or before the place of an unaligned one. -/
def locateTag (heap : Heap) (ptr align : Nat) : Option Nat :=
  ((List.range (max align 8)).map (ptr - tagSize - ·)).find? fun addr => (heap.tags addr).isSome

def deallocate (heap : Heap) (fuel ptr al : Nat) : Option Heap :=
  match heap.locateTag ptr al with
  | none => some heap
  | some addr => heap.replaceTag fuel addr

def Linked (heap : Heap) : Nat → List Nat → Prop
  | head, [] => head = 0
  | head, addr :: rest => head = addr ∧ ∃ tag, heap.tags addr = some tag ∧ heap.Linked tag.next rest

end Heap

structure Block where
  ptr : Nat
  count : Nat
  al : Nat

structure State where
  heap : Heap
  live : List Block

inductive Call
  | allocate (count al : Nat)
  | deallocate (place : Nat)

def State.step (fuel : Nat) (state : State) : Call → Option State
  | .allocate count al => do
    let (ptr, heap) ← state.heap.allocate fuel count al
    return ⟨heap, if ptr = 0 then state.live else ⟨ptr, count, al⟩ :: state.live⟩
  | .deallocate place =>
    match state.live[place]? with
    | none => some state
    | some block => do
      let heap ← state.heap.deallocate fuel block.ptr block.al
      return ⟨heap, state.live.eraseIdx place⟩

structure State.Right (state : State) : Prop where
  lists : ∀ (index : Nat) (head : Nat), state.heap.availableBlocks[index]? = some head →
    ∃ chain, state.heap.Linked head chain ∧ chain.Nodup ∧
      ∀ addr, addr ∈ chain ↔ ∃ tag, state.heap.tags addr = some tag ∧ tag.index = index
  listed : ∀ addr tag, state.heap.tags addr = some tag →
    tag.index < state.heap.availableBlocks.length
  held : ∀ block ∈ state.live, ∃ addr tag, state.heap.tags addr = some tag ∧
    tag.index = -1 ∧ tag.actualStart addr = block.ptr
  apart : state.live.Pairwise fun block other =>
    block.ptr + block.count ≤ other.ptr ∨ other.ptr + other.count ≤ block.ptr
  aligned : ∀ block ∈ state.live, block.al = 0 ∨ block.al ∣ block.ptr

/-- The calls come to an end inside the array, and leave the heap right. -/
def Safe (brk : Nat) (calls : List Call) : Prop :=
  ∃ fuel state, calls.foldlM (State.step fuel) ⟨allocInit brk, []⟩ = some state ∧ state.Right

lemma calculateBlockIndex_pos {size : Nat} (big : minBlockSize ≤ size) :
    0 < calculateBlockIndex size := by
  unfold calculateBlockIndex maxBlockIndex
  unfold minBlockSize at big ⊢
  have log : 4 ≤ Nat.log2 size := (Nat.le_log2 (by omega)).mpr big
  split
  · omega
  · split <;> omega

open Heap

section

variable {heap : Heap} {addr : Nat} {tag : BlockTag} (single : heap.availableBlocks.length = 1)
  (tagged : heap.tags addr = some tag)

include single tagged

lemma insertAt_eq_none (big : minBlockSize ≤ tag.blockSize) : heap.insertAt addr none = none := by
  have ho : heap.availableBlocks[calculateBlockIndex tag.blockSize]? = none :=
    List.getElem?_eq_none (by have := calculateBlockIndex_pos big; omega)
  simp [insertAt, tagged, ho]

lemma splitRest_eq_none
    (unsplit : tag.rightSplit = 0) (enough : minBlockSize + tagSize ≤ tag.availableSize) :
    heap.splitRest addr = none := by
  have hb : addr ≠ tag.actualStart addr + tag.heldSize := by
    unfold BlockTag.actualStart tagSize
    omega
  have cut : ∃ rest new, heap.split addr = some (tag.actualStart addr + tag.heldSize, rest) ∧
      rest.availableBlocks = heap.availableBlocks ∧
      rest.tags (tag.actualStart addr + tag.heldSize) = some new ∧
      new.blockSize = tag.availableSize := by
    simp [split, modifyIf, Heap.modify, tagged, unsplit, Function.update_of_ne hb,
      Function.update_of_ne hb.symm]
  obtain ⟨rest, new, hc, hsl, hn, _⟩ := cut
  have hr := insertAt_eq_none (hsl ▸ single) hn (by omega)
  simp [splitRest, tagged, enough, hc, hr]

end

lemma createTag_eq_none (brk : Nat) {size : Nat} (small : size < minBlockSize) (al : Nat) :
    (allocInit brk).createTag size al = none := by
  have hm : getAlign (allocInit brk).brk al ≤ al := by
    unfold getAlign
    split <;> omega
  rw [createTag, splitRest_eq_none rfl (Function.update_self ..) rfl]
  · rfl
  simp only [BlockTag.availableSize, pageSize, tagSize, minBlockSize] at *
  omega

/-- The first allocation uses a list that is not there. -/
lemma allocate_eq_none (brk fuel al : Nat) {count : Nat} (nonzero : count ≠ 0) :
    (allocInit brk).allocate fuel count al = none := by
  by_cases hs : count < minBlockSize
  · cases fuel with
    | zero => simp [allocate, findTag, fitting, nonzero]
    | succ fuel =>
      have he : (allocInit brk).findTag (fuel + 1) count al = some (0, allocInit brk) := by
        simp [findTag, fitting, calculateBlockIndex, hs, allocInit]
      simp [allocate, nonzero, he, createTag_eq_none brk hs al]
  have ho : (allocInit brk).availableBlocks[calculateBlockIndex count]? = none :=
    List.getElem?_eq_none (calculateBlockIndex_pos (Nat.le_of_not_lt hs))
  simp [allocate, findTag, nonzero, ho]

lemma allocInit_right (brk : Nat) : State.Right ⟨allocInit brk, []⟩ where
  lists index head isHead := by
    refine ⟨[], ?_, List.nodup_nil, fun addr => by simp [allocInit]⟩
    exact List.eq_of_mem_replicate (List.mem_of_getElem? isHead)
  listed addr tag isTag := by cases isTag
  held block isLive := by cases isLive
  apart := .nil
  aligned block isLive := by cases isLive

/-- Every allocation, be it the first, uses an element outside the array.  Addresses and
sizes are numbers without a bound. -/
theorem safe_iff (brk : Nat) (calls : List Call) :
    Safe brk calls ↔ ∀ count al, .allocate count al ∈ calls → count = 0 := by
  constructor
  · rintro ⟨fuel, _, hr, _⟩
    induction calls with
    | nil => simp
    | cons call calls ih =>
      rw [List.foldlM_cons] at hr
      cases call with
      | deallocate place => simpa using ih hr
      | allocate count al =>
        by_cases none : count = 0
        · subst none
          rintro other more (_ | ⟨_, member⟩)
          · rfl
          · exact ih hr other more member
        · simp [State.step, allocate_eq_none brk fuel al none] at hr
  intro idle
  refine ⟨0, ⟨allocInit brk, []⟩, ?_, allocInit_right brk⟩
  induction calls with
  | nil => rfl
  | cons call calls ih =>
    rw [List.foldlM_cons]
    cases call with
    | deallocate place => exact ih fun count al member => idle count al (.tail _ member)
    | allocate count al =>
      cases idle count al (.head _)
      exact ih fun count al member => idle count al (.tail _ member)

theorem not_safe_allocate_one : ¬ Safe 4096 [.allocate 1 0] := by
  rintro ⟨_, _, hr, _⟩
  simp [State.step, allocate_eq_none] at hr

end OoOS.Ld.MinAlloc
