import OoOS.Mm.FirstFit
import OoOS.Mm.KFrameTag
import OoOS.Mm.Stage1Run

/-!
# Extents handed out by stage 1

Kernel blocks, DMA blocks and page tables all take their memory from
`__find_and_claim`.  A kernel block is handed out 64 bytes below its region.
-/

namespace OoOS.Mm

open List Lib Libk KernelMemoryMgr

namespace KernelMemoryMgr

def allocateKernelBlock (mgr : KernelMemoryMgr) (size : Nat) : Option (Nat × KernelMemoryMgr) :=
  match mgr.findAndClaim size with
  | none => none
  | some (claimed, mgr) =>
    let result := wsub claimed btOffset
    some (result, { mgr with watermark := max result mgr.watermark })

/-- `allocate_dma`; the pages of the claimed region are identity-mapped, so
the address returned is the physical one. -/
def allocateDma (mgr : KernelMemoryMgr) (size : Nat) : Option (Nat × KernelMemoryMgr) :=
  match mgr.findAndClaim size with
  | none => none
  | some (phys, mgr) =>
    if phys ≠ 0 then
      some (phys, { mgr with watermark := max phys mgr.watermark })
    else some (0, mgr)

def ptSize : Nat := 8 * pageTableLength

def ptRegionSize : Nat := regionSizeFor (upToNearest (ptSize + btOffset) pageSize * 8)

def ptIndex : Nat := calculateBlockIndex (ptSize + btOffset)

def findPtTag : (fuel : Nat) → KFrameTag → Nat → KFrameTag.Fit
  | 0, _, _ => .endless
  | fuel + 1, frame, tag =>
    if tag = 0 then .missing frame
    else
      let frame := frame.modifyTag tag (fun this =>
        { this with alignBytes := addAlignSize tag pageSize })
      if (frame.tag tag).availableSize ≥ ptSize then
        let frame := frame.removeBlock tag
        let frame :=
          if (frame.tag tag).leftSplit = 0 ∧ (frame.tag tag).rightSplit = 0 then
            frame.setComplete ptIndex
              (frame.completeRegions ptIndex + (2 ^ 16 - 1))
          else frame
        .found tag (frame.modifyTag tag
          (fun this => { this with heldSize := ptSize }))
      else
        findPtTag fuel
          (frame.modifyTag tag (fun this => { this with alignBytes := 0 }))
          (frame.tag tag).next

/-- The rest of `allocate_pt` once it has a tag: clear the table and put what
is left of the block into the free lists. -/
def finishPt (frame : KFrameTag) (tag : Nat) : Nat × KFrameTag :=
  let result := (frame.tag tag).actualStart tag
  let frame :=
    { frame with
      memory := fun x =>
        if result ≤ x ∧ x < result + pageSize then 0 else frame.memory x }
  (result, frame.splitRemainder tag)

/-- `allocate_pt`: the table's address, and the region if a new one was
claimed for it. -/
def allocatePt (mgr : KernelMemoryMgr) (frame : KFrameTag) :
    Option (Nat × Option Nat × KernelMemoryMgr × KFrameTag) :=
  match findPtTag linkFuel frame (frame.availableBlocks ptIndex) with
  | .endless => none
  | .found tag frame => some ((finishPt frame tag).1, none, mgr, (finishPt frame tag).2)
  | .missing frame =>
    match mgr.findAndClaim ptRegionSize with
    | none => none
    | some (allocated, mgr) =>
      if allocated = 0 then some (0, none, mgr, frame)
      else
        let frame := frame.setTag allocated
          { blockSize := ptRegionSize, heldSize := ptSize, leftSplit := 0
            rightSplit := 0, previous := 0, next := 0, index := -1
            alignBytes := addAlignSize allocated pageSize }
        some ((finishPt frame allocated).1, some allocated,
          { mgr with watermark := max allocated mgr.watermark },
          (finishPt frame allocated).2)

end KernelMemoryMgr

inductive ExtentKind where
  | kernel | dma | pageTable
  deriving DecidableEq, Repr

structure Extent where
  kind : ExtentKind
  claim : Claim
  deriving DecidableEq, Repr

def ExtentKind.shift : ExtentKind → Nat
  | .kernel => btOffset
  | .dma => 0
  | .pageTable => 0

def Extent.Contains (extent : Extent) (addr : Nat) : Prop :=
  extent.claim.start - extent.kind.shift ≤ addr ∧ addr + extent.kind.shift <
      extent.claim.start + regionSizeFor extent.claim.size

instance Extent.decidableContains (extent : Extent) (addr : Nat) :
    Decidable (extent.Contains addr) :=
  inferInstanceAs (Decidable (_ ∧ _))

def Extent.Apart (left right : Extent) : Prop := ∀ addr, left.Contains addr → ¬ right.Contains addr

structure ExtentState where
  mgr : KernelMemoryMgr
  frame : KFrameTag
  owned : List Extent

/-- The calls, and moves of the watermark by anything else that runs in
between. -/
inductive ExtentOp where
  | kernelBlock (size : Nat)
  | dma (size : Nat)
  | pageTable
  | setWatermark (addr : Nat)
  deriving DecidableEq, Repr

/-- Only calls that succeed are steps.  A failed `allocate_kernel_block`
returns the address 64 bytes below 0. -/
def ExtentState.step (state : ExtentState) : ExtentOp → Option ExtentState
  | .kernelBlock size =>
    if size < 2 ^ 64 then
      match state.mgr.allocateKernelBlock size with
      | none => none
      | some (result, mgr) =>
        if result = wsub 0 btOffset then none
        else
          some
            { state with
              mgr := mgr
              owned := state.owned ++
                [⟨.kernel, ⟨wadd result btOffset, size⟩⟩] }
    else none
  | .dma size =>
    if size < 2 ^ 64 then
      match state.mgr.allocateDma size with
      | none => none
      | some (result, mgr) =>
        if result = 0 then none
        else
          some
            { state with
              mgr := mgr
              owned := state.owned ++ [⟨.dma, ⟨result, size⟩⟩] }
    else none
  | .pageTable =>
    match state.mgr.allocatePt state.frame with
    | none => none
    | some (result, backing, mgr, frame) =>
      if result = 0 then none
      else
        match backing with
        | none => some { state with mgr := mgr, frame := frame }
        | some region =>
          some
            { mgr := mgr
              frame := frame
              owned := state.owned ++ [⟨.pageTable,
                  ⟨region, KernelMemoryMgr.ptRegionSize⟩⟩] }
  | .setWatermark addr => some { state with mgr.watermark := addr % 2 ^ 64 }

/-- No new kernel region begins where an unshifted region ends, and no new
unshifted region ends where a kernel region begins. -/
def Extent.NoSeam (left right : Extent) : Prop :=
  (left.kind = .kernel → right.kind ≠ .kernel →
      right.claim.start + regionSizeFor right.claim.size ≠ left.claim.start) ∧
    (right.kind = .kernel → left.kind ≠ .kernel →
      left.claim.start + regionSizeFor left.claim.size ≠ right.claim.start)

/-- The region that the next claim of the size gets, read off the table,
meets none of the regions handed out at such a seam. -/
def ExtentState.SeamFree (state : ExtentState) (kind : ExtentKind) (size : Nat) : Prop :=
  ∀ start, state.mgr.FirstFit size start →
    ∀ extent ∈ state.owned, extent.NoSeam ⟨kind, ⟨start, size⟩⟩

def ExtentState.Guard (state : ExtentState) : ExtentOp → Prop
  | .kernelBlock size => state.SeamFree .kernel size
  | .dma size => state.SeamFree .dma size
  | .pageTable =>
    (∃ frame, KernelMemoryMgr.findPtTag linkFuel state.frame
      (state.frame.availableBlocks KernelMemoryMgr.ptIndex) = .missing frame) →
      state.SeamFree .pageTable KernelMemoryMgr.ptRegionSize
  | .setWatermark _ => True

lemma Claim.Placed.multiple {claim : Claim} (placed : claim.Placed) (pos : 0 < claim.start) :
    claim.start % 16384 = 0 ∧ regionSizeFor claim.size % 16384 = 0 ∧
      0 < regionSizeFor claim.size := by
  cases placed with
  | @block base size idx hs aligned word small sizeMatches =>
    have parts : idx.offset % 16384 = 0 ∧ idx.size.bytes % 16384 = 0 ∧ 0 < idx.size.bytes := by
      cases idx <;> decide
    simp only [regionSizeFor_of_small small, sizeMatches]
    simp only [regionSize] at aligned
    omega
  | @regions start size aligned large fits =>
    have hps : 0 < start := pos
    have count := numRegions_pos large
    simp only [regionSizeFor_of_large large (by omega)]
    simp only [regionSize] at aligned count ⊢
    omega

variable {left right : Extent}

lemma Claim.ordered_of_disjoint {first second : Claim} (firstSize : 0 < regionSizeFor first.size)
    (secondSize : 0 < regionSizeFor second.size)
    (disjoint : ∀ addr, first.Contains addr → ¬ second.Contains addr) :
    first.start + regionSizeFor first.size ≤ second.start ∨
      second.start + regionSizeFor second.size ≤ first.start := by
  have atMax := disjoint (max first.start second.start)
  simp only [Claim.Contains] at atMax
  omega

private lemma Extent.shift_of_ne {kind : ExtentKind} (other : kind ≠ .kernel) :
    kind.shift = 0 := by
  cases kind with
  | kernel => exact absurd rfl other
  | dma => rfl
  | pageTable => rfl

open Extent

/-- Extents overlap only at a seam. -/
lemma Extent.apart_iff_noSeam (leftPlaced : left.claim.Placed) (leftPos : 0 < left.claim.start)
    (rightPlaced : right.claim.Placed) (rightPos : 0 < right.claim.start)
    (disjoint : ∀ addr, left.claim.Contains addr → ¬ right.claim.Contains addr) :
    left.Apart right ↔ left.NoSeam right := by
  obtain ⟨_, _, hlsi⟩ := leftPlaced.multiple leftPos
  obtain ⟨_, _, hrsi⟩ := rightPlaced.multiple rightPos
  have ho := Claim.ordered_of_disjoint hlsi hrsi disjoint
  have hks : ExtentKind.kernel.shift = 64 := rfl
  simp only [Extent.Apart, Extent.NoSeam, Extent.Contains]
  by_cases hlk : left.kind = .kernel
  · by_cases hrk : right.kind = .kernel
    · rw [hlk, hrk, hks]
      constructor
      · intro _
        exact ⟨fun _ other => absurd rfl other, fun _ other => absurd rfl other⟩
      omega
    rw [hlk, hks, shift_of_ne hrk]
    constructor
    · intro apart
      refine ⟨fun _ _ seam => ?_, fun hk => absurd hk hrk⟩
      exact apart (left.claim.start - 64) (by omega) (by omega)
    intro hh addr hil hir
    have hns := hh.1 rfl hrk
    omega
  by_cases hrk : right.kind = .kernel
  · rw [hrk, hks, shift_of_ne hlk]
    constructor
    · intro apart
      refine ⟨fun hk => absurd hk hlk, fun _ _ seam => ?_⟩
      exact apart (right.claim.start - 64) (by omega) (by omega)
    intro hh addr hil hir
    have hns := hh.2 rfl hlk
    omega
  rw [shift_of_ne hlk, shift_of_ne hrk]
  constructor
  · intro _
    exact ⟨fun hk => absurd hk hlk, fun hk => absurd hk hrk⟩
  omega

def ExtentState.Consistent (start : StartUp) (state : ExtentState) : Prop :=
  Stage1.Consistent start ⟨state.mgr, state.owned.map Extent.claim⟩

def StartUp.extents (start : StartUp) (frame : KFrameTag) : ExtentState :=
  { mgr := start.mgr, frame := frame, owned := [] }

variable {start : StartUp} {state next : ExtentState}

structure ExtentState.Handed (start : StartUp) (state : ExtentState)
    (kind : ExtentKind) (size : Nat) (next : ExtentState) : Prop where
  consistent : next.Consistent start
  owned : ∃ claimed, state.mgr.FirstFit size claimed ∧
    next.owned = state.owned ++ [⟨kind, ⟨claimed, size⟩⟩]

lemma ExtentState.handed_of_claimed {kind : ExtentKind}
    {size claimed mark : Nat} {mgr : KernelMemoryMgr} {frame : KFrameTag}
    (consistent : state.Consistent start) (word : size < 2 ^ 64)
    (done : state.mgr.findAndClaim size = some (claimed, mgr))
    (nonzero : claimed ≠ 0) (markWord : mark < 2 ^ 64) :
    state.Handed start kind size
      { mgr := { mgr with watermark := mark }
        frame := frame
        owned := state.owned ++ [⟨kind, ⟨claimed, size⟩⟩] } := by
  have taken : Stage1.step ⟨state.mgr, state.owned.map claim⟩ (.claim size) =
        some ⟨mgr, state.owned.map claim ++ [⟨claimed, size⟩]⟩ := by
    simp only [Stage1.step, if_pos word, done, if_neg nonzero]
  have hcc := Stage1.Consistent.claim consistent taken
  refine ⟨?_, claimed, ?_, rfl⟩
  · have moved := hcc.setWatermark markWord
    simpa [ExtentState.Consistent] using moved
  rcases findAndClaim_firstFit consistent.watermark_lt done with fit | ⟨zero, _⟩
  · exact fit
  · exact absurd zero nonzero

lemma ExtentState.Consistent.withFrame (consistent : state.Consistent start) (frame : KFrameTag) :
    ExtentState.Consistent start { state with frame := frame } :=
  consistent

open ExtentState

section

variable (consistent : state.Consistent start)

include consistent

private lemma ExtentState.claimed_lt {size : Nat} {outcome : Nat × KernelMemoryMgr}
    (returned : state.mgr.findAndClaim size = some outcome) :
    outcome.1 < 2 ^ 64 ∧ outcome.2.watermark < 2 ^ 64 :=
  ⟨findAndClaim_lt consistent.watermark_lt consistent.firstUsed returned,
    findAndClaim_watermark_lt consistent.watermark_lt consistent.firstUsed returned⟩

private lemma ExtentState.step_kernelBlock {size : Nat}
    (taken : state.step (.kernelBlock size) = some next) :
    state.Handed start .kernel size next := by
  simp only [step] at taken
  split at taken
  case isFalse => cases taken
  rename_i word
  simp only [allocateKernelBlock] at taken
  cases returned : state.mgr.findAndClaim size with
  | none => simp [returned] at taken
  | some outcome =>
    obtain ⟨claimed, mgr⟩ := outcome
    simp only [returned] at taken
    split at taken
    · cases taken
    rename_i succeeded
    cases taken
    have nonzero : claimed ≠ 0 := by
      rintro rfl
      exact succeeded rfl
    obtain ⟨claimWord, markWord⟩ := claimed_lt consistent returned
    have unshifted : wadd (wsub claimed btOffset) btOffset = claimed := by
      simp only [wadd, wsub, btOffset]
      omega
    rw [unshifted]
    exact handed_of_claimed consistent word returned nonzero
      (Nat.max_lt.mpr ⟨wsub_lt _ _, markWord⟩)

private lemma ExtentState.step_dma {size : Nat}
    (taken : state.step (.dma size) = some next) : state.Handed start .dma size next := by
  simp only [step] at taken
  split at taken
  case isFalse => cases taken
  rename_i word
  simp only [allocateDma] at taken
  cases returned : state.mgr.findAndClaim size with
  | none => simp [returned] at taken
  | some outcome =>
    obtain ⟨claimed, mgr⟩ := outcome
    by_cases zero : claimed = 0
    · simp [returned, zero] at taken
    simp only [returned, ne_eq, zero, not_false_eq_true, ↓reduceIte, Option.some.injEq] at taken
    cases taken
    exact handed_of_claimed consistent word returned zero
      (Nat.max_lt.mpr (claimed_lt consistent returned))

private lemma ExtentState.step_pageTable
    (taken : state.step .pageTable = some next) :
    (next.Consistent start ∧ next.owned = state.owned ∧ state.Guard .pageTable) ∨
      (state.Handed start .pageTable ptRegionSize next ∧ (state.Guard .pageTable ↔
          state.SeamFree .pageTable ptRegionSize)) := by
  simp only [step, allocatePt] at taken
  cases searched : findPtTag linkFuel state.frame
      (state.frame.availableBlocks ptIndex) with
  | endless => simp [searched] at taken
  | found tag frame =>
    left
    simp only [searched] at taken
    generalize finishPt frame tag = finished at taken
    split at taken
    · cases taken
    cases taken
    refine ⟨consistent.withFrame finished.2, rfl, ?_⟩
    rintro ⟨frame, missing⟩
    rw [searched] at missing
    cases missing
  | missing frame =>
    right
    simp only [searched] at taken
    cases returned : state.mgr.findAndClaim ptRegionSize with
    | none => simp [returned] at taken
    | some outcome =>
      obtain ⟨claimed, mgr⟩ := outcome
      by_cases zero : claimed = 0
      · simp [returned, zero] at taken
      simp only [returned, zero, ↓reduceIte] at taken
      split at taken
      · cases taken
      cases taken
      refine ⟨?_, fun guard => guard ⟨frame, searched⟩, fun seamFree _ => seamFree⟩
      exact handed_of_claimed consistent (by decide) returned zero
        (Nat.max_lt.mpr (claimed_lt consistent returned))

end

section

variable {op : ExtentOp} (consistent : state.Consistent start) (taken : state.step op = some next)

include consistent taken

lemma ExtentState.step_cases : (next.Consistent start ∧ next.owned = state.owned ∧ state.Guard op) ∨
    ∃ kind size, state.Handed start kind size next ∧
      (state.Guard op ↔ state.SeamFree kind size) := by
  cases op with
  | kernelBlock size => exact .inr ⟨.kernel, size, step_kernelBlock consistent taken, Iff.rfl⟩
  | dma size => exact .inr ⟨.dma, size, step_dma consistent taken, Iff.rfl⟩
  | pageTable =>
    rcases step_pageTable consistent taken with
      hu | hh
    · exact .inl hu
    · exact .inr ⟨.pageTable, _, hh⟩
  | setWatermark _ =>
    left
    cases taken
    exact ⟨Stage1.Consistent.setWatermark consistent (Nat.mod_lt _ (by decide)), rfl, trivial⟩

lemma ExtentState.step_apart_iff : next.Consistent start ∧ (next.owned.Pairwise Extent.Apart ↔
    state.owned.Pairwise Extent.Apart ∧ state.Guard op) := by
  rcases step_cases consistent taken with
    ⟨hnc, same, guard⟩ | ⟨kind, size, hh, guardIff⟩
  · rw [same]
    exact ⟨hnc, fun apart => ⟨apart, guard⟩, And.left⟩
  obtain ⟨hnc, claimed, fit, owned⟩ := hh
  refine ⟨hnc, ?_⟩
  have hsf : state.SeamFree kind size ↔
      ∀ extent ∈ state.owned, extent.NoSeam ⟨kind, ⟨claimed, size⟩⟩ := by
    constructor
    · intro free
      exact free claimed fit
    intro hns start hof
    rw [KernelMemoryMgr.FirstFit.unique hof fit]
    exact hns
  have hai : ∀ extent ∈ state.owned, (extent.Apart ⟨kind, ⟨claimed, size⟩⟩ ↔
        extent.NoSeam ⟨kind, ⟨claimed, size⟩⟩) := by
    intro extent mem
    have hp := hnc.placed
    have hba := hnc.owns.apart
    simp only [owned, map_append, map_cons, map_nil] at hp hba
    have hoc : extent.claim ∈ state.owned.map claim := mem_map_of_mem mem
    have hop := hp extent.claim (mem_append_left _ hoc)
    have hnp := hp ⟨claimed, size⟩ (mem_append_right _ mem_cons_self)
    have hd := (pairwise_append.mp hba).2.2 extent.claim hoc ⟨claimed, size⟩ mem_cons_self
    exact apart_iff_noSeam hop.1 hop.2 hnp.1
      hnp.2 (fun _ => Claim.not_contains_of_disjoint hd)
  rw [owned, guardIff, hsf, pairwise_append]
  constructor
  · rintro ⟨old, _, hac⟩
    exact ⟨old, fun extent mem => (hai extent mem).mp (hac extent mem _ mem_cons_self)⟩
  rintro ⟨old, hns⟩
  refine ⟨old, pairwise_singleton _ _, ?_⟩
  intro extent mem _ isNew
  rw [mem_singleton.mp isNew]
  exact (hai extent mem).mpr (hns extent mem)

end

lemma ExtentState.run_apart_iff (ops : List ExtentOp) :
    ∀ {state final : ExtentState}, state.Consistent start →
      run step state ops = some final → (final.owned.Pairwise Extent.Apart ↔
        state.owned.Pairwise Extent.Apart ∧ Guarded step ExtentState.Guard state ops) := by
  induction ops with
  | nil =>
    intro state final _ reached
    have same : state = final := Option.some.inj reached
    simp [same, Guarded]
  | cons _ _ ih =>
    intro state final hc reached
    obtain ⟨_, taken, remaining⟩ := run_cons_eq_some_iff.mp reached
    obtain ⟨hnc, hsi⟩ := step_apart_iff hc taken
    rw [ih hnc remaining, hsi, Guarded, and_assoc]
    simp [taken, Option.some.injEq, forall_eq']

/-- The extents are disjoint exactly when no kernel block's region begins where a
DMA or page-table region ends. -/
theorem extents_disjoint_iff (start : StartUp) (frame : KFrameTag) (ops : List ExtentOp)
    (final : ExtentState) (reached : run ExtentState.step (start.extents frame) ops = some final) :
    final.owned.Pairwise Extent.Apart ↔
      Guarded ExtentState.step ExtentState.Guard (start.extents frame) ops := by
  have hin : (start.extents frame).Consistent start := start.consistent
  have hor := run_apart_iff ops hin reached
  simpa [StartUp.extents] using hor

def emptyFrame : KFrameTag where
  memory := fun _ => 0
  completeRegions := fun _ => 0
  availableBlocks := fun _ => 0

theorem extents_disjoint_iff_dma_pageTable :
    ∃ final, run ExtentState.step (gigabyteStartUp.extents emptyFrame)
          [.dma 4096, .pageTable] = some final ∧ final.owned.length = 2 ∧
        final.owned.Pairwise Extent.Apart := by
  have owned : (run step (gigabyteStartUp.extents emptyFrame)
          [.dma 4096, .pageTable]).map owned = some [⟨.dma, ⟨0x200000, 4096⟩⟩,
          ⟨.pageTable, ⟨0x210000, 0x10000⟩⟩] := by
    decide +kernel
  obtain ⟨final, ran, owned⟩ := Option.map_eq_some_iff.mp owned
  refine ⟨final, ran, congrArg List.length owned, ?_⟩
  have first : (step (gigabyteStartUp.extents emptyFrame) (.dma 4096)).map ExtentState.owned =
      some [⟨.dma, ⟨0x200000, 4096⟩⟩] := by
    decide +kernel
  apply (extents_disjoint_iff gigabyteStartUp emptyFrame _ final ran).mpr
  refine ⟨fun _ _ extent isOwned => absurd isOwned List.not_mem_nil, fun next stepped => ?_⟩
  rw [stepped, Option.map_some, Option.some_inj] at first
  refine ⟨fun _ _ _ extent isOwned => ?_, fun _ _ => trivial⟩
  rw [first, List.mem_singleton] at isOwned
  subst isOwned
  exact ⟨nofun, nofun⟩

/-- A kernel block allocated after a DMA block of one page begins inside the
DMA block. -/
theorem extents_overlap_dma_kernelBlock :
    ∃ final, run ExtentState.step (gigabyteStartUp.extents emptyFrame)
          [.dma 4096, .kernelBlock 4096] = some final ∧ ¬ final.owned.Pairwise Extent.Apart := by
  have hc : (run step (gigabyteStartUp.extents emptyFrame)
          [.dma 4096, .kernelBlock 4096]).map owned =
        some [⟨.dma, ⟨0x200000, 4096⟩⟩, ⟨.kernel, ⟨0x204000, 4096⟩⟩] := by
    decide +kernel
  obtain ⟨final, hr, owned⟩ := Option.map_eq_some_iff.mp hc
  refine ⟨final, hr, ?_⟩
  rw [owned]
  intro apart
  have ha := (pairwise_cons.mp apart).1 _ mem_cons_self
  exact ha 0x203FC0 (by decide +kernel) (by decide +kernel)

end OoOS.Mm
