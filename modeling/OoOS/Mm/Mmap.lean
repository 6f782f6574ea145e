import OoOS.Mm.Frames

/-!
# `mmap_add` and `mmap_remove`

A block that is added lies at the address that is returned.  The loop that is to
remove it looks for blocks that begin below that address.
-/

namespace OoOS.Mm

open Libk FrameManager

structure MappedFrame where
  manager : FrameManager
  pml4 : Nat
  extent : Nat
  mappedMax : Nat

namespace MappedFrame

variable (frame : MappedFrame)

def usrBlocks : List BlockDescriptor := (frame.manager.frame frame.pml4).usrBlocks

/-- Where `mmap_add` puts a block: without an address, at the extent. -/
def place (addr : Nat) : Nat :=
  if pageAligned addr = 0 then frame.extent else pageAligned addr

def mmapAdd (addr len : Nat) (write exec : Bool) (outcome : Outcome) :
    Option (Option Nat × MappedFrame) :=
  let addr := frame.place addr
  match frame.manager.addBlock frame.pml4 len addr pageSize write exec false outcome with
  | none => none
  | some (false, manager) => some (none, { frame with manager := manager })
  | some (true, manager) =>
    let top := wadd addr (alignedSize addr len)
    some (some addr,
      { frame with
        manager := manager
        mappedMax := max frame.mappedMax top
        extent := max frame.extent top })

/-- The loop of `mmap_remove` at a block.  The last element of a full vector is
not erased, and the loop ends. -/
def removeFrom (pml4 addr capacity : Nat) :
    List BlockDescriptor → List BlockDescriptor → FrameManager → List BlockDescriptor × FrameManager
  | kept, [], manager => (kept, manager)
  | kept, blk :: rest, manager =>
    if blk.virtualStart < addr ∧ addr < wadd blk.virtualStart blk.size then
      if capacity ≤ kept.length + 1 then (kept ++ blk :: rest, manager.releaseBlock pml4 blk)
      else removeFrom pml4 addr capacity kept rest (manager.releaseBlock pml4 blk)
    else removeFrom pml4 addr capacity (kept ++ [blk]) rest manager

/-- `mmap_remove`; the length is clipped and then not used. -/
def mmapRemove (addr capacity : Nat) : MappedFrame :=
  if frame.mappedMax < addr then frame
  else
    let (kept, manager) := removeFrom frame.pml4 addr capacity [] frame.usrBlocks frame.manager
    { frame with
      manager := manager.setFrame frame.pml4
        { manager.frame frame.pml4 with usrBlocks := kept } }

/-- A block that is added is removed again, and no other one. -/
def Undone (addr len : Nat) (write exec : Bool) (outcome : Outcome) (capacity : Nat) : Prop :=
  ∀ start added, frame.mmapAdd addr len write exec outcome = some (some start, added) →
    let removed := added.mmapRemove start capacity
    removed.usrBlocks = frame.usrBlocks ∧ ∀ page, start ≤ page → page < start + len →
      (removed.manager.memory.leaf removed.pml4 page).present = false

/-- There is no block to be had, no page table for it, or nothing to be mapped. -/
def NoBlock (addr len : Nat) (outcome : Outcome) : Prop :=
  outcome.phys = 0 ∨ outcome.tables ≠ none ∨
    divRoundUp (alignedSize (frame.place addr) len) pageSize = 0 ∨
    trunc (if frame.place addr = 0 then outcome.phys else frame.place addr) pageSize = 0

lemma count_removeFrom {pml4 addr capacity : Nat} {blk : BlockDescriptor}
    (before : addr ≤ blk.virtualStart) (rest : List BlockDescriptor) :
    ∀ kept manager, (removeFrom pml4 addr capacity kept rest manager).1.count blk =
      kept.count blk + rest.count blk := by
  induction rest with
  | nil => exact fun _ _ => rfl
  | cons other rest ih =>
    intro kept manager
    rw [removeFrom]
    split
    case isTrue hit =>
      have hne : other ≠ blk := by
        rintro rfl
        omega
      split
      · exact List.count_append
      · rw [ih, List.count_cons_of_ne hne]
    case isFalse =>
      rw [ih, List.count_append, List.count_singleton, List.count_cons, add_assoc,
        add_comm (List.count blk rest)]

variable {frame}

lemma count_mmapRemove {addr : Nat} {blk : BlockDescriptor} (before : addr ≤ blk.virtualStart)
    (capacity : Nat) : (frame.mmapRemove addr capacity).usrBlocks.count blk =
      frame.usrBlocks.count blk := by
  rw [mmapRemove]
  split
  · rfl
  · have hc := @count_removeFrom frame.pml4 addr capacity blk before frame.usrBlocks []
      frame.manager
    simpa [usrBlocks, setFrame] using hc

section

variable {addr len : Nat} {write exec : Bool} {outcome : Outcome}
  (fresh : outcome.phys ∉ frame.manager.memory.allocated)

include fresh

lemma mmapAdd_of_noBlock (noBlock : frame.NoBlock addr len outcome) :
    ∃ next, frame.mmapAdd addr len write exec outcome = some (none, next) := by
  rw [NoBlock] at noBlock
  have ha : ∃ memory, frame.manager.memory.allocateUserBlock frame.pml4 len (frame.place addr)
      pageSize write exec outcome = some (0, memory) := by
    rw [UserMemory.allocateUserBlock, if_neg fresh, Nat.max_self]
    by_cases h0 : outcome.phys = 0
    · exact ⟨_, if_pos h0⟩
    rw [if_neg h0]
    generalize (if frame.place addr = 0 then outcome.phys else frame.place addr) =
      target at noBlock ⊢
    by_cases ht : outcome.tables = none
    · rw [if_pos (by tauto)]
      exact ⟨_, rfl⟩
    · simp only [if_neg ht]
      split <;> exact ⟨_, rfl⟩
  obtain ⟨memory, ha⟩ := ha
  simp only [mmapAdd, addBlock, ha, Bool.false_eq_true, false_and, if_false, if_true]
  exact ⟨_, rfl⟩

lemma mmapAdd_of_block (hasBlock : ¬ frame.NoBlock addr len outcome) :
    ∃ added blk, frame.mmapAdd addr len write exec outcome = some (some (frame.place addr), added) ∧
      blk.virtualStart = frame.place addr ∧ added.usrBlocks = frame.usrBlocks ++ [blk] := by
  simp only [NoBlock, not_or, not_not] at hasBlock
  obtain ⟨h0, ht, hp, hz⟩ := hasBlock
  simp only [mmapAdd, addBlock, UserMemory.allocateUserBlock, if_neg fresh, Nat.max_self,
    h0, ht, hp, hz, or_self, Bool.false_eq_true, false_and, if_false, if_true]
  refine ⟨_, ⟨outcome.phys, frame.place addr, len, pageSize, write, exec⟩, rfl, rfl, ?_⟩
  simp [usrBlocks, pushUsr, setFrame]

theorem undone_iff (capacity : Nat) :
    frame.Undone addr len write exec outcome capacity ↔ frame.NoBlock addr len outcome := by
  constructor
  · intro hu
    by_contra hn
    obtain ⟨added, blk, ha, hv, hb⟩ := @mmapAdd_of_block frame addr len write exec outcome fresh hn
    have hs := (hu _ added ha).1
    have hc := @count_mmapRemove added _ blk (le_of_eq hv.symm) capacity
    rw [hs, hb, List.count_append, List.count_singleton_self] at hc
    omega
  · intro hn start added ha
    obtain ⟨next, hx⟩ := @mmapAdd_of_noBlock frame addr len write exec outcome fresh hn
    rw [hx] at ha
    cases ha

end

def fresh : MappedFrame := ⟨.empty, 4096, 8192, 8192⟩

theorem undone_exhausted : fresh.Undone 8192 4096 true false {} 4 :=
  (undone_iff (by decide) 4).mpr (.inl rfl)

/-- One page, added to a frame without blocks, is still there. -/
theorem not_undone_page : ¬ fresh.Undone 8192 4096 true false { phys := 65536 } 4 := by
  intro h
  exact absurd (h 8192 _ rfl).1 (by decide)

end MappedFrame

end OoOS.Mm
