import OoOS.Mm.Boot

/-!
# Claims after start-up

Every block claimed after start-up lies in the tracked memory and outside the
marked regions, and every other block of a tracked region is returned by some run.
-/

namespace OoOS.Mm

open List Lib Libk KernelMemoryMgr Nat MemoryMap

def LowMark (mark : Nat) : Prop := mark + 2 ^ 30 ≤ 2 ^ 62 ∨ mark = 2 ^ 64 - 64

lemma LowMark.rounded {mark : Nat} (low : LowMark mark) :
    mark < 2 ^ 64 ∧ upToNearest mark regionSize + 2 ^ 30 ≤ 2 ^ 62 := by
  rcases low with _ | top
  · have hb := divRoundUp_bounds mark (show 0 < regionSize by decide)
    have fits : divRoundUp mark regionSize * regionSize < 2 ^ 64 := by
      simp only [regionSize] at hb ⊢
      omega
    rw [upToNearest_eq_of_fits fits]
    simp only [regionSize] at hb ⊢
    omega
  subst top
  decide

variable {mgr : KernelMemoryMgr} {mark size start : Nat}

lemma upToNearest_aligned (mark : Nat) : upToNearest mark regionSize % regionSize = 0 :=
  upToNearest_mod_eq_zero (by decide)

private lemma tracked_region_end {num addr : Nat} (aligned : addr % regionSize = 0)
    (small : addr < 2 ^ 62) (tracked : gbOf addr < num) : addr + regionSize ≤ num * gigabyte := by
  simp only [gbOf, gigabyte] at tracked ⊢
  simp only [regionSize] at aligned ⊢
  omega

section

variable (few : mgr.numStatusBytes ≤ 2 ^ 22) (low : LowMark mark)

include few low

lemma scanAddr_below (round : Nat) :
    (∀ earlier ≤ round, mgr.Tracked (scanAddr mark earlier)) → scanAddr mark round =
          upToNearest mark regionSize + round * regionSize ∧ scanAddr mark round + regionSize ≤
          mgr.numStatusBytes * gigabyte := by
  obtain ⟨_, _⟩ := low.rounded
  have ha := upToNearest_aligned mark
  induction round with
  | zero =>
    intro ht
    have here := ht 0 (le_refl 0)
    have value : scanAddr mark 0 = upToNearest mark regionSize + 0 * regionSize := by
      apply mod_eq_of_lt
      omega
    refine ⟨value, ?_⟩
    rw [value] at here ⊢
    exact tracked_region_end ha (by omega) here
  | succ round ih =>
    intro ht
    obtain ⟨hp, previousEnd⟩ := ih (fun earlier _ => ht earlier (by omega))
    have here := ht (round + 1) le_rfl
    have value : scanAddr mark (round + 1) =
        upToNearest mark regionSize + (round + 1) * regionSize := by
      rw [scanAddr_succ, succ_mul, ← add_assoc, ← hp]
      apply wadd_of_lt
      simp only [gigabyte] at previousEnd
      omega
    refine ⟨value, ?_⟩
    have hna : scanAddr mark (round + 1) % regionSize = 0 := by
      rw [value, add_mul_mod_self_right]
      exact ha
    apply tracked_region_end hna _ here
    rw [value, succ_mul, ← add_assoc, ← hp]
    simp only [gigabyte] at previousEnd
    omega

/-- A block that fits ends in the tracked memory. -/
lemma KernelMemoryMgr.FirstFitFrom.end_le (fit : mgr.FirstFitFrom mark size start) :
    start + regionSizeFor size ≤ mgr.numStatusBytes * gigabyte := by
  obtain ⟨round, hf, rfl⟩ := fit
  have room := hf.room
  by_cases large : size > BlockSize.S256.bytes
  · rw [fitsAt_of_large large] at room
    rw [fitStart, if_pos large]
    have pos := numRegions_pos large
    have hta : ∀ earlier ≤ round + (divRoundUp size regionSize - 1),
        mgr.Tracked (scanAddr mark earlier) := by
      intro earlier _
      rcases lt_or_ge earlier round with hb | _
      · exact hf.tracked earlier (by omega)
      have free := room (earlier - round) (by omega)
      rw [regionFree_scanAddr] at free
      have same : round + (earlier - round) = earlier := by omega
      rw [same] at free
      exact free.1
    obtain ⟨first, _⟩ := scanAddr_below few low round hf.tracked
    obtain ⟨last, hle⟩ := scanAddr_below few low _ hta
    have total : scanAddr mark round + divRoundUp size regionSize * regionSize ≤
          mgr.numStatusBytes * gigabyte := by
      rw [last] at hle
      generalize divRoundUp size regionSize = count at pos hle ⊢
      obtain ⟨previous, rfl⟩ : ∃ previous, count = previous + 1 := ⟨count - 1, by omega⟩
      rw [Nat.add_sub_cancel, add_mul] at hle
      rw [succ_mul]
      omega
    have fits : divRoundUp size regionSize * regionSize < 2 ^ 64 := by
      simp only [gigabyte] at total
      omega
    rw [regionSizeFor_of_large large fits]
    exact total
  have small : size ≤ BlockSize.S256.bytes := by omega
  rw [fitsAt_of_small large] at room
  obtain ⟨hsi, hse, _⟩ := claimIdx_spec room.2 (nearest_ne_S512 small)
  rw [fitStart, if_neg large, regionSizeFor_of_small small]
  generalize claimIdx (mgr.status (scanAddr mark round)) (nearest size) = idx at hsi hse ⊢
  have hin : idx.offset + idx.size.bytes ≤ regionSize := by cases idx <;> decide
  obtain ⟨_, _⟩ := scanAddr_below few low round hf.tracked
  rw [← hse]
  omega

end

variable {map : MemoryMap} {image : KernelImage} {state next : Stage1}

/-- The table is exact, the watermark is low, and every live claim ends within
the tracked memory. -/
structure BootInvariant (map : MemoryMap) (image : KernelImage)
    (state : Stage1) : Prop where
  consistent : state.Consistent (initStartUp map image)
  low : LowMark state.mgr.watermark
  below : ∀ claim ∈ state.live, claim.start + regionSizeFor claim.size ≤ map.trackedEnd

section

variable (invariant : BootInvariant map image state)

include invariant

lemma BootInvariant.numStatusBytes : state.mgr.numStatusBytes = map.numStatusBytes :=
  invariant.consistent.sameTable.1.trans (initInstance_fields map image).1

lemma BootInvariant.few : state.mgr.numStatusBytes ≤ 2 ^ 22 := by
  rw [invariant.numStatusBytes]
  exact map.numStatusBytes_le

lemma BootInvariant.resetMark_low : LowMark state.mgr.resetMark := by
  have heap := (heapBegin_bounds map image).2
  have few := invariant.few
  have hb : state.mgr.kernelHeapBegin = heapBegin map image :=
    invariant.consistent.sameTable.2.trans (initInstance_fields map image).2.1
  left
  rw [resetMark, hb, wadd_of_lt (by omega)]
  omega

end

lemma bootInvariant_start (map : MemoryMap) (image : KernelImage) :
    BootInvariant map image (initStartUp map image).stage1 where
  consistent := (initStartUp map image).consistent
  low := by
    have heap := (heapBegin_bounds map image).2
    have mark := (initInstance_fields map image).2.2
    left
    simp only [StartUp.stage1, initStartUp, mark]
    omega
  below := by simp [StartUp.stage1]

lemma BootInvariant.claim (invariant : BootInvariant map image state)
    (taken : state.step (.claim size) = some next) : BootInvariant map image next := by
  have hnc := invariant.consistent.claim taken
  have word := invariant.consistent.watermark_lt
  simp only [Stage1.step] at taken
  split at taken
  case isFalse => cases taken
  split at taken
  · cases taken
  rename_i addr mgr returned
  obtain ⟨_, hw, _⟩ := findAndClaim_cases word invariant.consistent.firstUsed returned
  have low : LowMark mgr.watermark := by
    rcases hw with same | reset
    · rw [same]
      exact invariant.low
    rw [reset]
    exact invariant.resetMark_low
  by_cases zero : addr = 0
  · rw [if_pos zero] at taken
    cases taken
    exact ⟨hnc, low, invariant.below⟩
  rw [if_neg zero] at taken
  cases taken
  refine ⟨hnc, low, ?_⟩
  intro claim mem
  rcases mem_append.mp mem with old | new
  · exact invariant.below claim old
  rw [mem_singleton.mp new, trackedEnd, ← invariant.numStatusBytes]
  rcases findAndClaim_firstFit word returned with
    (fit | ⟨_, _, fit⟩) | ⟨hz, _⟩
  · exact fit.end_le invariant.few invariant.low
  · exact fit.end_le invariant.few invariant.resetMark_low
  · exact absurd hz zero

lemma BootInvariant.step {op : Stage1Op} (invariant : BootInvariant map image state)
    (guard : CallerMark state op) (taken : state.step op = some next) :
    BootInvariant map image next := by
  cases op with
  | claim size => exact invariant.claim taken
  | release _ size =>
    have hnc := invariant.consistent.release taken
    simp only [Stage1.step] at taken
    split at taken
    · cases taken
    rename_i claim found
    split at taken
    case isFalse => cases taken
    cases taken
    obtain ⟨_, watermark⟩ := state.mgr.releaseRegion_frame size claim.start
    refine ⟨hnc, ?_, ?_⟩
    · simp only [watermark]
      exact invariant.low
    intro other remaining
    exact invariant.below other (mem_of_mem_eraseIdx remaining)
  | setWatermark addr =>
    cases taken
    have low : LowMark addr := by
      rcases guard with htr | top
      · have few := invariant.few
        simp only [gigabyte] at htr
        left
        omega
      right
      rw [top]
      decide
    have small := mod_eq_of_lt low.rounded.1
    refine ⟨invariant.consistent.setWatermark (mod_lt _ (by decide)), ?_, invariant.below⟩
    simp only [small]
    exact low

lemma BootInvariant.run {ops : List Stage1Op} {final : Stage1}
    (guarded : Guarded Stage1.step CallerMark (initStartUp map image).stage1 ops)
    (reached : run Stage1.step (initStartUp map image).stage1 ops = some final) :
    BootInvariant map image final :=
  run_invariant (fun _ _ _ holds guard taken => BootInvariant.step holds guard taken)
    ops (bootInvariant_start map image) guarded reached

lemma BootInvariant.not_marked (invariant : BootInvariant map image state)
    {claim : Claim} (mem : claim ∈ state.live) {addr : Nat} (inside : claim.Contains addr) :
    addr < map.trackedEnd ∧ ¬ Marked map image addr := by
  have ht := lt_of_lt_of_le inside.2 (invariant.below claim mem)
  have small : addr < 2 ^ 62 := by
    have few := map.numStatusBytes_le
    simp only [trackedEnd, gigabyte] at ht
    omega
  refine ⟨ht, ?_⟩
  rw [← bitOf_mem_usedBits_iff map image small]
  exact Set.disjoint_left.mp (invariant.consistent.owns.fresh claim mem) ⟨addr, inside, rfl⟩

lemma Claim.Placed.exists_block {claim : Claim} (placed : claim.Placed) (pos : 0 < claim.start) :
    ∃ base, ∃ idx : BlockIdx, base % regionSize = 0 ∧ idx ≠ .ALL ∧
      ∀ addr, base + idx.offset ≤ addr → addr < base + idx.offset + idx.size.bytes →
        claim.Contains addr := by
  cases placed with
  | @block base size idx single aligned word small sizeMatches =>
    refine ⟨base, idx, aligned, single, ?_⟩
    intro addr lower upper
    simp only [Claim.Contains, regionSizeFor_of_small small, sizeMatches]
    exact ⟨lower, upper⟩
  | @regions start size aligned large fits =>
    have hps : 0 < start := pos
    refine ⟨start, .I7, aligned, by decide, ?_⟩
    have count := numRegions_pos large
    have hab : BlockIdx.I7.offset = 0 := BlockIdx.offset_values.1
    have part : BlockIdx.I7.size.bytes ≤ regionSize := by decide
    have hw := Nat.le_mul_of_pos_left regionSize count
    simp only [Claim.Contains, regionSizeFor_of_large large (by omega)]
    omega

lemma reserved_of_conditions (tracked : EntriesTracked map image) (marked : EntriesMarked map image)
    (backed : BlocksBacked map image) : ReservedNeverHandedOut map image := by
  refine ⟨(initTouched_lt_iff map image).mpr tracked, ?_⟩
  intro _ _ hg hr claim mem
  have hin := BootInvariant.run hg hr
  constructor
  · intro addr hins entry inMap hu hie
    obtain ⟨below, hnm⟩ := hin.not_marked mem hins
    exact hnm (marked entry inMap hu addr below hie)
  obtain ⟨hp, positive⟩ := hin.consistent.placed claim mem
  obtain ⟨base, idx, ha, hs, hc⟩ := hp.exists_block positive
  have first : claim.Contains (base + idx.offset) := by
    apply hc _ le_rfl
    have size : 0 < idx.size.bytes := by cases idx <;> decide
    omega
  obtain ⟨below, hnm⟩ := hin.not_marked mem first
  have hsr : (base + idx.offset) / regionSize = base / regionSize := by
    have ho : idx.offset < regionSize := by cases idx <;> decide
    simp only [regionSize] at ha ho ⊢
    omega
  rw [Marked_of_sameRegion map image hsr] at hnm
  obtain ⟨addr, hib, hie⟩ := backed base (by omega) ha hnm idx hs
  exact ⟨addr, hc addr hib.1 hib.2, hie⟩

variable {idx : BlockIdx}

lemma hasSize_of_clear {status : StatusByte} (single : idx ≠ .ALL)
    (clear : status.used idx.bit = false) : status.hasSize idx.size = true := by
  have free := (StatusByte.hasFree_iff status single).mpr clear
  cases idx
  case ALL => exact absurd rfl single
  case I6 =>
    simp only [BlockIdx.size, StatusByte.hasSize, Bool.or_eq_true]
    exact .inr free
  case I7 =>
    simp only [BlockIdx.size, StatusByte.hasSize, Bool.or_eq_true]
    exact .inl free
  all_goals exact free

lemma nearest_bytes (idx : BlockIdx) (single : idx ≠ .ALL) :
    nearest idx.size.bytes = idx.size ∧ idx.size.bytes ≤ BlockSize.S256.bytes := by
  cases idx
  case ALL => exact absurd rfl single
  all_goals decide

lemma BlockIdx.bit_injective {left right : BlockIdx} (leftSingle : left ≠ .ALL)
    (rightSingle : right ≠ .ALL) (same : left.bit = right.bit) : left = right := by
  revert leftSingle rightSingle same
  cases left <;> cases right <;> decide

structure Target (map : MemoryMap) (image : KernelImage) where
  round : Nat
  idx : BlockIdx
  single : idx ≠ .ALL
  tracked : heapRegions map image * regionSize + round * regionSize < map.trackedEnd

namespace Target

variable (target : Target map image)

def regionAt (map : MemoryMap) (image : KernelImage) (round : Nat) : Nat :=
  heapRegions map image * regionSize + round * regionSize

def base : Nat := regionAt map image target.round

def claim : Claim := ⟨target.base + target.idx.offset, target.idx.size.bytes⟩

def bitAt (map : MemoryMap) (image : KernelImage) (round slot : Nat) : StatusBit :=
  ⟨gbOf (regionAt map image round), sbOf (regionAt map image round), slot⟩

noncomputable def freeBlocks (state : Stage1) : Finset (Nat × Nat) :=
  letI := Classical.decPred (fun place : Nat × Nat =>
    bitAt map image place.1 place.2 ∉ state.mgr.usedBits)
  (Finset.range (target.round + 1) ×ˢ Finset.range 8).filter
    (fun place => bitAt map image place.1 place.2 ∉ state.mgr.usedBits)

variable {round slot : Nat}

lemma mem_freeBlocks :
    (round, slot) ∈ target.freeBlocks state ↔ (round ≤ target.round ∧ slot < 8) ∧
        bitAt map image round slot ∉ state.mgr.usedBits := by
  simp [freeBlocks, Finset.mem_filter, Finset.mem_product, Nat.lt_succ_iff]

structure Pending (state : Stage1) : Prop where
  invariant : BootInvariant map image state
  watermark : state.mgr.watermark = heapBegin map image
  clear : bitAt map image target.round target.idx.bit ∉ state.mgr.usedBits

lemma upToNearest_heapBegin :
    upToNearest (heapBegin map image) regionSize = heapRegions map image * regionSize := by
  have heap := (heapBegin_bounds map image).2
  have hr := (heapRegions_bounds map image).2.2
  apply upToNearest_eq_of_fits
  simp only [heapRegions, regionSize] at hr ⊢
  omega

lemma scanAddr_eq (bound : round ≤ target.round) :
    scanAddr (heapBegin map image) round = regionAt map image round ∧
      regionAt map image round < map.trackedEnd := by
  have few := map.numStatusBytes_le
  have ht := target.tracked
  have ho := mul_le_mul_right regionSize bound
  have below : regionAt map image round < map.trackedEnd := by
    rw [regionAt]
    omega
  refine ⟨?_, below⟩
  rw [scanAddr, upToNearest_heapBegin, ← regionAt]
  apply mod_eq_of_lt
  simp only [trackedEnd, gigabyte] at below
  omega

lemma regionAt_aligned (round : Nat) : regionAt map image round % regionSize = 0 := by
  rw [regionAt, ← add_mul]
  exact mul_mod_left _ _

lemma regionAt_tracked (invariant : BootInvariant map image state)
    (bound : round ≤ target.round) : state.mgr.Tracked (scanAddr (heapBegin map image) round) := by
  obtain ⟨same, below⟩ := target.scanAddr_eq bound
  rw [same, KernelMemoryMgr.Tracked, invariant.numStatusBytes]
  simp only [trackedEnd, gigabyte] at below
  simp only [gbOf, gigabyte]
  omega

lemma Pending.firstFit (pending : target.Pending state) :
    ∃ addr after, state.mgr.searchOnce target.idx.size.bytes = some (some (addr, after)) ∧
      ∃ round ≤ target.round, state.mgr.SizeFits target.idx.size (regionAt map image round) ∧
        addr = regionAt map image round + (claimIdx (state.mgr.status (regionAt map image round))
            target.idx.size).offset := by
  obtain ⟨hse, _⟩ := nearest_bytes target.idx target.single
  have word := pending.invariant.consistent.watermark_lt
  have few := pending.invariant.few
  have hnl : ¬ target.idx.size.bytes > BlockSize.S256.bytes := by omega
  have hfe : state.mgr.FitsAt target.idx.size.bytes = state.mgr.SizeFits target.idx.size := by
    rw [fitsAt_of_small hnl, hse]
  obtain ⟨hat, _⟩ := target.scanAddr_eq le_rfl
  have room : state.mgr.SizeFits target.idx.size (scanAddr (heapBegin map image) target.round) := by
    refine ⟨target.regionAt_tracked pending.invariant le_rfl, ?_⟩
    rw [hat]
    apply hasSize_of_clear target.single
    by_contra used
    exact pending.clear ⟨target.idx.bit_lt, (Bool.not_eq_false _).mp used⟩
  have hs := searchOnce_ne_none state.mgr (by omega) word target.idx.size.bytes
  match ho : state.mgr.searchOnce target.idx.size.bytes with
  | none => exact absurd ho hs
  | some none =>
    have hnr := searchOnce_noRound word ho
    rw [pending.watermark, hfe] at hnr
    exact absurd room
      (hnr target.round (fun _ bound => target.regionAt_tracked pending.invariant bound))
  | some (some (addr, after)) =>
    obtain ⟨round, hf, position⟩ := searchOnce_firstFit word ho
    rw [pending.watermark, hfe] at hf
    have bound : round ≤ target.round := by
      by_contra later
      exact hf.full target.round (by omega) room
    obtain ⟨same, _⟩ := target.scanAddr_eq bound
    refine ⟨addr, after, rfl, round, bound, ?_, ?_⟩
    · rw [← same]
      exact hf.room
    · rw [position, pending.watermark, fitStart, if_neg hnl, hse, same]

lemma bitAt_eq_iff (bound : round ≤ target.round) :
    bitAt map image round slot = bitAt map image target.round target.idx.bit ↔
      round = target.round ∧ slot = target.idx.bit := by
  have few := map.numStatusBytes_le
  obtain ⟨_, below⟩ := target.scanAddr_eq bound
  obtain ⟨_, htb⟩ := target.scanAddr_eq le_rfl
  simp only [trackedEnd, gigabyte] at below htb
  constructor
  · intro same
    simp only [bitAt, StatusBit.mk.injEq] at same
    obtain ⟨hsg, hss, hssl⟩ := same
    refine ⟨?_, hssl⟩
    have hsr := (statusIndex_eq_iff (by omega)).mp ⟨hsg, hss⟩
    have small : regionAt map image target.round / regionSize < 2 ^ 41 := by
      simp only [regionSize]
      omega
    rw [mod_eq_of_lt small] at hsr
    simp only [regionAt, ← add_mul] at hsr
    rw [Nat.mul_div_cancel _ (by decide), Nat.mul_div_cancel _ (by decide)] at hsr
    omega
  rintro ⟨rfl, rfl⟩
  rfl

/-- A claim gets the block or another one before it. -/
lemma Pending.step (pending : target.Pending state) :
    ∃ next, state.step (.claim target.idx.size.bytes) = some next ∧ (target.claim ∈ next.live ∨
        (target.Pending next ∧
          (target.freeBlocks next).card < (target.freeBlocks state).card)) := by
  obtain ⟨addr, after, hs, round, bound, fits, position⟩ := Pending.firstFit target pending
  obtain ⟨hse, small⟩ := nearest_bytes target.idx target.single
  have word := pending.invariant.consistent.watermark_lt
  obtain ⟨claimed, _, watermark⟩ := searchOnce_claimed word pending.invariant.consistent.firstUsed
    hs
  have done : state.mgr.findAndClaim target.idx.size.bytes = some (addr, after) := by
    rw [findAndClaim, findAndClaimWithin, hs]
  have hn : addr ≠ 0 := pos_iff_ne_zero.mp claimed.positive
  have hsw : target.idx.size.bytes < 2 ^ 64 := by
    have bytes : BlockSize.S256.bytes < 2 ^ 64 := by decide
    omega
  have taken : state.step (.claim target.idx.size.bytes) =
      some ⟨after, state.live ++ [⟨addr, target.idx.size.bytes⟩]⟩ := by
    simp only [Stage1.step, if_pos hsw, done, if_neg hn]
  refine ⟨_, taken, ?_⟩
  obtain ⟨hh, his, _⟩ := claimIdx_spec fits.2 (hse ▸ nearest_ne_S512 small)
  generalize claimIdx (state.mgr.status (regionAt map image round)) target.idx.size = idx
    at position hh his
  have bits : Claim.bits ⟨addr, target.idx.size.bytes⟩ = {bitAt map image round idx.bit} := by
    rw [position]
    exact Claim.bits_block hh (regionAt_aligned round) small (hse.trans his.symm)
  have hma := claimed.marked
  rw [bits] at hma
  by_cases found : round = target.round ∧ idx.bit = target.idx.bit
  · left
    have hsi := BlockIdx.bit_injective hh target.single found.2
    apply mem_append_right
    rw [mem_singleton, claim, base, position, found.1, hsi]
  right
  have other : bitAt map image target.round target.idx.bit ≠ bitAt map image round idx.bit :=
    fun same => found ((target.bitAt_eq_iff bound).mp same.symm)
  refine ⟨⟨pending.invariant.claim taken, watermark.trans pending.watermark, ?_⟩, ?_⟩
  · simp only [hma, Set.mem_union, Set.mem_singleton_iff, not_or]
    exact ⟨pending.clear, other⟩
  apply Finset.card_lt_card
  rw [Finset.ssubset_iff_of_subset]
  · refine ⟨(round, idx.bit), ?_, ?_⟩
    · rw [mem_freeBlocks]
      refine ⟨⟨bound, idx.bit_lt⟩, ?_⟩
      have hu := claimed.unmarked
      rw [bits, Set.disjoint_singleton_left] at hu
      exact hu
    rw [mem_freeBlocks]
    rintro ⟨_, hsf⟩
    simp only [hma] at hsf
    exact hsf (.inr rfl)
  rintro ⟨_, _⟩ mem
  rw [mem_freeBlocks] at mem ⊢
  refine ⟨mem.1, fun inUse => mem.2 ?_⟩
  simp only [hma]
  exact .inl inUse

lemma Pending.claimed (count : Nat) :
    ∀ {state : Stage1}, target.Pending state → (target.freeBlocks state).card ≤ count →
      ∃ (ops : List Stage1Op) (final : Stage1), Guarded Stage1.step CallerMark state ops ∧
        run Stage1.step state ops = some final ∧ target.claim ∈ final.live := by
  induction count with
  | zero =>
    intro state pending hb
    obtain ⟨next, taken, found | ⟨_, fewer⟩⟩ := Pending.step target pending
    · exact ⟨[.claim target.idx.size.bytes], next,
        ⟨trivial, fun _ _ => trivial⟩, by simp [run, taken], found⟩
    · omega
  | succ count ih =>
    intro state pending hb
    obtain ⟨next, taken, found | ⟨hnp, fewer⟩⟩ := Pending.step target pending
    · exact ⟨[.claim target.idx.size.bytes], next,
        ⟨trivial, fun _ _ => trivial⟩, by simp [run, taken], found⟩
    obtain ⟨ops, final, hg, hr, mem⟩ := ih hnp (by omega)
    refine ⟨.claim target.idx.size.bytes :: ops, final, ⟨trivial, ?_⟩, ?_, mem⟩
    · intro _ hot
      rw [taken] at hot
      cases hot
      exact hg
    · exact run_cons_eq_some_iff.mpr ⟨next, taken, hr⟩

end Target

/-- Some run claims any block that is not marked. -/
lemma exists_run_claiming {base : Nat} (tracked : base < map.trackedEnd)
    (aligned : base % regionSize = 0) (notMarked : ¬ Marked map image base) (single : idx ≠ .ALL) :
    ∃ (ops : List Stage1Op) (final : Stage1),
      Guarded Stage1.step CallerMark (initStartUp map image).stage1 ops ∧
      run Stage1.step (initStartUp map image).stage1 ops = some final ∧
      ⟨base + idx.offset, idx.size.bytes⟩ ∈ final.live := by
  have few := map.numStatusBytes_le
  have small : base < 2 ^ 62 := by
    simp only [trackedEnd, gigabyte] at tracked
    omega
  have hah : heapRegions map image * regionSize ≤ base := by
    by_contra below
    exact notMarked (.inl (by omega))
  have hp : heapRegions map image * regionSize +
      (base / regionSize - heapRegions map image) * regionSize = base := by
    simp only [regionSize] at hah aligned ⊢
    omega
  let target : Target map image :=
    { round := base / regionSize - heapRegions map image
      idx := idx
      single := single
      tracked := by rw [hp]; exact tracked }
  have hsb : target.base = base := hp
  have hpe : target.Pending (initStartUp map image).stage1 := by
    refine ⟨bootInvariant_start map image, (initInstance_fields map image).2.2, ?_⟩
    intro inUse
    have size : 0 < idx.size.bytes := by cases idx <;> decide
    have hin : base + idx.offset ≤ base + idx.offset ∧
        base + idx.offset < base + idx.offset + idx.size.bytes := by
      omega
    obtain ⟨hsr, hssl⟩ := (mem_block_iff single aligned).mp hin
    obtain ⟨hsg, hss⟩ := statusIndex_eq_of_region hsr
    have hh : bitOf (base + idx.offset) = Target.bitAt map image target.round idx.bit := by
      simp only [bitOf, hsg, hss, hssl, Target.bitAt]
      rw [← hsb, Target.base]
    apply notMarked
    rw [← Marked_of_sameRegion map image hsr, ← bitOf_mem_usedBits_iff map image (by
        simp only [regionSize] at hsr
        omega), hh]
    exact inUse
  obtain ⟨ops, final, hg, hr, mem⟩ := Target.Pending.claimed target _ hpe le_rfl
  refine ⟨ops, final, hg, hr, ?_⟩
  rw [← hsb]
  exact mem

/-- No claim touches reserved memory exactly when all is tracked, no unavailable
entry spills and every block left unmarked touches the map. -/
theorem reserved_never_handed_out_iff (map : MemoryMap) (image : KernelImage) :
    ReservedNeverHandedOut map image ↔ EntriesTracked map image ∧ EntriesMarked map image ∧
        BlocksBacked map image := by
  constructor
  · rintro ⟨touched, claims⟩
    refine ⟨(initTouched_lt_iff map image).mp touched, ?_, ?_⟩
    · intro entry inMap busy addr tracked inEntry
      by_contra unmarked
      obtain ⟨idx, single, slot⟩ := exists_idx_of_slot (slotOf_lt addr)
      have aligned : (addr - addr % regionSize) % regionSize = 0 := by
        simp only [regionSize]
        omega
      have region : addr / regionSize = (addr - addr % regionSize) / regionSize := by
        simp only [regionSize]
        omega
      have inBlock := (mem_block_iff single aligned).mpr ⟨region, slot.symm⟩
      rw [Marked_of_sameRegion map image region] at unmarked
      obtain ⟨ops, final, guarded, ran, member⟩ := exists_run_claiming (by omega) aligned unmarked
        single
      obtain ⟨sized, small⟩ := nearest_bytes idx single
      apply (claims ops final guarded ran _ member).1 addr _ entry inMap busy inEntry
      simp only [Claim.Contains, regionSizeFor_of_small small, sized]
      exact inBlock
    intro _ tracked aligned unmarked idx single
    obtain ⟨ops, final, guarded, ran, member⟩ := exists_run_claiming tracked aligned unmarked single
    obtain ⟨addr, inside, inEntry⟩ := (claims ops final guarded ran _ member).2
    obtain ⟨sized, small⟩ := nearest_bytes idx single
    simp only [Claim.Contains, regionSizeFor_of_small small, sized] at inside
    exact ⟨addr, inside, inEntry⟩
  rintro ⟨tracked, marked, backed⟩
  exact reserved_of_conditions tracked marked backed

/-- Just under 1 GB of available memory with 2 MB of firmware memory at 17 MB,
in the middle of a region. -/
def firmwareMap : MemoryMap where
  totalMemory := 261632 * 4096
  entries :=
    [⟨0, 4352, .AVAILABLE, by decide, by decide, by decide⟩,
      ⟨0x1100000, 512, .RESERVED, by decide, by decide, by decide⟩,
      ⟨0x1300000, 257280, .AVAILABLE, by decide, by decide, by decide⟩]
  total_eq := by decide
  total_le := by decide

def smallImage : KernelImage where
  imageEnd := 0x400000
  end_aligned := by decide
  end_lt := by decide

/-- A claim of 12 MB gets the second half of the firmware memory. -/
theorem reserved_handed_out_firmwareMap : ¬ ReservedNeverHandedOut firmwareMap smallImage := by
  rintro ⟨_, hc⟩
  have hco : (run Stage1.step (initStartUp firmwareMap smallImage).stage1
          [.claim 0xC00000]).map Stage1.live = some [⟨0x1200000, 0xC00000⟩] := by
    decide +kernel
  obtain ⟨final, hr, live⟩ := Option.map_eq_some_iff.mp hco
  have member : (⟨0x1200000, 0xC00000⟩ : Claim) ∈ final.live := by
    rw [live]
    exact mem_singleton.mpr rfl
  have hg : Guarded Stage1.step CallerMark
      (initStartUp firmwareMap smallImage).stage1 [.claim 0xC00000] := ⟨trivial, fun _ _ => trivial⟩
  exact (hc _ final hg hr _ member).1 0x1200000 (by decide) _
    (mem_cons_of_mem _ mem_cons_self) (by decide) (by decide)

end OoOS.Mm
