import OoOS.Mm.Extents

/-!
# Calls to the kernel heap

`kframe_tag::allocate` with the stage 1 below it when there is no memory left,
and the search for the header of a block.
-/

namespace OoOS.Mm

open Lib Libk KFrameTag

structure KernelHeap where
  heap : Heap
  mgr : KernelMemoryMgr
  remainingMemory : Nat

namespace KernelHeap

def search (s : KernelHeap) (size align : Nat) : Fit :=
  findFit (calculateBlockIndex (max size 16)) (max size 16) align linkFuel s.heap.frame
    (s.heap.frame.availableBlocks (calculateBlockIndex (max size 16)))

/-- `kframe_tag::allocate`; stage 1 is asked if no block of the list fits. -/
def allocate (s : KernelHeap) (size align : Nat) : Option (Nat × KernelHeap) := do
  if size = 0 then return (0, s)
  let (region, mgr) ← match s.search size align with
    | .missing _ =>
      (s.mgr.allocateKernelBlock (Heap.actualSize (max size 16) align)).map fun (tag, mgr) =>
        (wadd tag btOffset, mgr)
    | _ => some (0, s.mgr)
  let (tag, heap) ← s.heap.getForAllocation size align region
  if tag = 0 then return (0, { s with heap, mgr })
  let block := heap.frame.tag tag
  return (block.actualStart tag, ⟨heap, mgr, wsub s.remainingMemory block.blockSize⟩)

/-- Stage 1 has no region for the request, and no block of the free list fits. -/
structure Exhausted (s : KernelHeap) (size align : Nat) : Prop where
  stage1 : ∃ mgr, s.mgr.findAndClaim (Heap.actualSize (max size 16) align) = some (0, mgr)
  listed : ∃ frame, s.search size align = .missing frame

/-- A null pointer is returned, no tag is put on a region, and the lists and
counters are as they were. -/
def Reports (s : KernelHeap) (size align : Nat) : Prop :=
  ∃ after, s.allocate size align = some (0, after) ∧ after.heap.regions = s.heap.regions ∧
    after.heap.frame.availableBlocks = s.heap.frame.availableBlocks ∧
    after.heap.frame.completeRegions = s.heap.frame.completeRegions ∧
    after.remainingMemory = s.remainingMemory ∧ after.mgr.watermark = s.mgr.watermark

variable {s : KernelHeap} {size align : Nat}

lemma Exhausted.getForAllocation (exhausted : s.Exhausted size align) : ∃ after,
    s.heap.getForAllocation size align 0 = some (2 ^ 64 - 64, after) ∧
      after.regions ≠ s.heap.regions := by
  obtain ⟨frame, hf⟩ := exhausted.listed
  unfold search at hf
  simp only [Heap.getForAllocation, hf]
  exact ⟨_, rfl, by simp [Heap.createTag]⟩

/-- Exhaustion is reported only to a request for no bytes. -/
theorem reports_iff_zero (s : KernelHeap) (size align : Nat) (exhausted : s.Exhausted size align) :
    s.Reports size align ↔ size = 0 := by
  constructor
  · rintro ⟨after, ha, hr, -⟩
    by_contra hz
    obtain ⟨frame, hf⟩ := exhausted.listed
    obtain ⟨mgr, hm⟩ := exhausted.stage1
    obtain ⟨heap, hg, hne⟩ := exhausted.getForAllocation
    have hw : wadd (wsub 0 btOffset) btOffset = 0 := by decide
    simp only [allocate, hz, hf, KernelMemoryMgr.allocateKernelBlock, hm] at ha
    obtain ⟨-, rfl⟩ : _ ∧ _ := by simpa [hw, hg] using ha
    exact hne hr
  rintro rfl
  exact ⟨s, by simp [allocate], rfl, rfl, rfl, rfl, rfl⟩

def bare : KernelHeap := ⟨⟨⟨fun _ => 0, fun _ => 0, fun _ => 0⟩, []⟩, ⟨fun _ _ => ⟨0⟩, 0, 0, 0⟩, 0⟩

lemma bare_exhausted (size : Nat) (small : size ≤ 16) : bare.Exhausted size 0 := by
  have hs := Nat.max_eq_right small
  constructor
  · have hc : (bare.mgr.findAndClaim (Heap.actualSize 16 0)).map Prod.fst = some 0 := by
      decide +kernel
    obtain ⟨⟨start, mgr⟩, hf, rfl⟩ := Option.map_eq_some_iff.mp hc
    exact ⟨mgr, by rw [hs]; exact hf⟩
  obtain ⟨n, hn⟩ : ∃ n, linkFuel = n + 1 := ⟨2 ^ 64 - 1, by unfold linkFuel; rfl⟩
  exact ⟨bare.heap.frame, by rw [search, hn]; rfl⟩

theorem reports_iff_zero_bare : bare.Exhausted 0 0 ∧ bare.Reports 0 0 :=
  ⟨bare_exhausted 0 (by decide), (reports_iff_zero bare 0 0 (bare_exhausted 0 (by decide))).mpr rfl⟩

/-- Sixteen bytes: a tag is written 64 bytes below address 0. -/
theorem not_reports_sixteen : bare.Exhausted 16 0 ∧ ¬ bare.Reports 16 0 := by
  refine ⟨bare_exhausted 16 le_rfl, ?_⟩
  rintro ⟨after, ha, hr, -⟩
  have hc : (bare.allocate 16 0).map (fun r => r.2.heap.regions.length) = some 1 := by
    decide +kernel
  rw [ha, Option.map_some, hr] at hc
  cases hc

end KernelHeap

/-- The header of a block in use: the magic number and the size of the gap. -/
def Live (memory : Memory) (tag align : Nat) : Prop :=
  (readTag memory tag).magic = blockMagic ∧ (readTag memory tag).alignBytes = addAlignSize tag align

namespace Heap

/-- `find_tag` finds the tag that a pointer comes from, whatever the owner of
the block has written into it. -/
def FindsTag (heap : Heap) (size align region : Nat) : Prop :=
  ∀ tag after memory, heap.getForAllocation size align region = some (tag, after) → tag ≠ 0 →
    tag < (after.frame.tag tag).actualStart tag →
    (∀ x, x < (after.frame.tag tag).actualStart tag ∨
      (after.frame.tag tag).actualStart tag + size ≤ x → memory x = after.frame.memory x) →
    Live memory tag align →
    findTag { after.frame with memory } ((after.frame.tag tag).actualStart tag) align = tag

/-- The magic number is not read anywhere between a header and its block. -/
def GapClear (heap : Heap) (size align region : Nat) : Prop :=
  ∀ tag after, heap.getForAllocation size align region = some (tag, after) → tag ≠ 0 →
    tag < (after.frame.tag tag).actualStart tag → Live after.frame.memory tag align →
    ∀ i, 0 < i → i ≤ addAlignSize tag align → readLE after.frame.memory (tag + i) 8 ≠ blockMagic

end Heap

variable {memory : Memory} {tag align : Nat}

lemma addAlignSize_le (tag align : Nat) : addAlignSize tag align ≤ align := by
  unfold addAlignSize
  split
  · have hx := wadd_lt tag btOffset
    have hb := divRoundUp_bounds (wadd tag btOffset) (show 0 < align by omega)
    rw [mul_comm] at hb
    unfold upToNearest wsub
    split <;> omega
  · omega

/-- The walk back stops at the first magic number. -/
lemma findTagFrom_eq (magic : readLE memory tag 8 = blockMagic) (nonzero : tag ≠ 0) (k round : Nat)
    (rounds : align = 0 ∨ round + k ≤ align) :
    ∃ j ≤ k, findTagFrom memory align (tag + k) round = tag + j ∧
      readLE memory (tag + j) 8 = blockMagic ∧
      ∀ i, j < i → i ≤ k → readLE memory (tag + i) 8 ≠ blockMagic := by
  induction k generalizing round with
  | zero =>
    obtain ⟨n, rfl⟩ := Nat.exists_eq_succ_of_ne_zero nonzero
    refine ⟨0, le_rfl, ?_, magic, fun i hi hj => by omega⟩
    rw [add_zero, findTagFrom, if_neg fun h => h.1 magic]
  | succ k ih =>
    rw [← add_assoc, findTagFrom]
    by_cases hk : readLE memory (tag + k + 1) 8 = blockMagic
    · rw [if_neg fun h => h.1 hk]
      exact ⟨k + 1, le_rfl, rfl, hk, fun i hi hj => by omega⟩
    rw [if_pos ⟨hk, by omega⟩]
    obtain ⟨j, hj, hf, hmj, hc⟩ := ih (round + 1) (by omega)
    refine ⟨j, by omega, hf, hmj, fun i hi hle => ?_⟩
    by_cases he : i = k + 1
    · exact he ▸ hk
    · exact hc i hi (by omega)

/-- The tag is found if there is none in the gap. -/
lemma findTag_eq_iff {frame : KFrameTag} (live : Live frame.memory tag align) (nonzero : tag ≠ 0)
    {ptr : Nat} (isPtr : ptr = tag + 64 + addAlignSize tag align) (small : ptr < 2 ^ 64) :
    findTag frame ptr align = tag ↔
      ∀ i, 0 < i → i ≤ addAlignSize tag align → readLE frame.memory (tag + i) 8 ≠ blockMagic := by
  have ha := addAlignSize_le tag align
  obtain ⟨j, hj, hf, hmj, hc⟩ := findTagFrom_eq live.1 nonzero (addAlignSize tag align) 0
    (show align = 0 ∨ _ from .inr (by omega))
  have hr : findTag frame ptr align = tag + j := by
    have hn : ptr ≠ 0 := by omega
    have hw : wsub ptr btOffset = tag + addAlignSize tag align := by
      unfold wsub btOffset
      omega
    simp [findTag, hn, hw, hf, KFrameTag.tag, readTag, hmj, nonzero]
  constructor
  · intro he i hi
    exact hc i (by omega)
  intro hno
  by_contra hne
  exact hno j (by omega) hj hmj

lemma actualStart_eq {block : BlockTag} (small : block.alignBytes < 2 ^ 32)
    (above : tag < block.actualStart tag) : block.actualStart tag = tag + 64 + block.alignBytes ∧
      block.actualStart tag < 2 ^ 64 := by
  unfold BlockTag.actualStart wadd btOffset at above ⊢
  omega

/-- A header is found exactly if no copy of the magic number is left behind it. -/
theorem findsTag_iff_gapClear (heap : Heap) (size align region : Nat) :
    heap.FindsTag size align region ↔ heap.GapClear size align region := by
  constructor
  · intro finds tag after got isTag below live
    obtain ⟨starts, word⟩ := actualStart_eq (readLE_lt _ _ 4) below
    exact (findTag_eq_iff live isTag (starts.trans (by rw [← live.2]; rfl)) word).mp
      (finds tag after after.frame.memory got isTag below (fun _ _ => rfl) live)
  intro gap tag after memory got isTag below kept live
  obtain ⟨starts, word⟩ := actualStart_eq (readLE_lt _ _ 4) below
  -- the owner writes neither into the header nor into the gap
  have agrees : ∀ addr width, addr + width ≤ (after.frame.tag tag).actualStart tag →
      readLE memory addr width = readLE after.frame.memory addr width :=
    fun addr width inside => readLE_congr fun x _ _ => kept x (.inl (by omega))
  have alive : Live after.frame.memory tag align :=
    ⟨(agrees tag 8 (by omega)).symm.trans live.1,
      (agrees (tag + 60) 4 (by omega)).symm.trans live.2⟩
  have place := starts.trans (congrArg (tag + 64 + ·) alive.2)
  refine (@findTag_eq_iff tag align { after.frame with memory } live isTag _ place word).mpr
    fun i pos inside => ?_
  rw [agrees (tag + i) 8 (by omega)]
  exact gap tag after got isTag below alive i pos inside

def staleHeap : Heap :=
  let block : BlockTag :=
    { blockSize := 512, heldSize := 0, leftSplit := 0x800, rightSplit := 0, previous := 0, next := 0
      index := 0, alignBytes := 0 }
  ⟨⟨writeLE (writeTag (fun _ => 0) 0x1000 block) 0x1040 8 blockMagic, fun _ => 0,
    fun i => if i = 0 then 0x1000 else 0⟩, []⟩

theorem not_findsTag_stale : ¬ staleHeap.FindsTag 16 128 0 := by
  intro h
  have hc : (staleHeap.getForAllocation 16 128 0).map (fun r => (r.1,
      (r.2.frame.tag r.1).actualStart r.1, (r.2.frame.tag r.1).magic,
      (r.2.frame.tag r.1).alignBytes,
      findTag r.2.frame ((r.2.frame.tag r.1).actualStart r.1) 128)) =
      some (0x1000, 0x1080, blockMagic, 64, 0x1040) := by
    decide +kernel
  obtain ⟨⟨tag, after⟩, hg, hv⟩ := Option.map_eq_some_iff.mp hc
  obtain ⟨rfl, hp, hm, ha, hf⟩ : _ ∧ _ ∧ _ ∧ _ ∧ _ := by simpa using hv
  have := h _ after after.frame.memory hg (by decide) (by rw [hp]; decide) (fun _ _ => rfl)
    ⟨hm, ha.trans (by decide)⟩
  rw [hf] at this
  cases this

end OoOS.Mm
