import OoOS.Mm.Stage1Search

/-!
# Stage 1 claims the first fit

A search visits the regions from the watermark upwards.  `FirstFit` says, in
terms of the table before the call, at which address it stops.
-/

namespace OoOS.Mm

open Libk

def scanAddr (watermark round : Nat) : Nat :=
  (upToNearest watermark regionSize + round * regionSize) % 2 ^ 64

namespace KernelMemoryMgr

def Tracked (mgr : KernelMemoryMgr) (addr : Nat) : Prop := gbOf addr < mgr.numStatusBytes

def RunFits (mgr : KernelMemoryMgr) (numRegions region : Nat) : Prop :=
  ∀ offset < numRegions, mgr.RegionFree (region + offset * regionSize)

def SizeFits (mgr : KernelMemoryMgr) (blockSize : BlockSize) (region : Nat) : Prop :=
  mgr.Tracked region ∧ (mgr.status region).hasSize blockSize = true

def FitsAt (mgr : KernelMemoryMgr) (size region : Nat) : Prop :=
  if size > BlockSize.S256.bytes then
    mgr.RunFits (divRoundUp size regionSize) region
  else mgr.SizeFits (nearest size) region

def fitStart (mgr : KernelMemoryMgr) (size region : Nat) : Nat :=
  if size > BlockSize.S256.bytes then region
  else region + (claimIdx (mgr.status region) (nearest size)).offset

structure FirstRound (mgr : KernelMemoryMgr) (watermark : Nat)
    (fits : Nat → Prop) (round : Nat) : Prop where
  tracked : ∀ earlier ≤ round, mgr.Tracked (scanAddr watermark earlier)
  full : ∀ earlier < round, ¬ fits (scanAddr watermark earlier)
  room : fits (scanAddr watermark round)

def NoRound (mgr : KernelMemoryMgr) (watermark : Nat) (fits : Nat → Prop) : Prop :=
  ∀ round, (∀ earlier ≤ round, mgr.Tracked (scanAddr watermark earlier)) →
    ¬ fits (scanAddr watermark round)

def FirstFitFrom (mgr : KernelMemoryMgr) (watermark size start : Nat) : Prop :=
  ∃ round, mgr.FirstRound watermark (mgr.FitsAt size) round ∧
    start = mgr.fitStart size (scanAddr watermark round)

def FirstFit (mgr : KernelMemoryMgr) (size start : Nat) : Prop :=
  mgr.FirstFitFrom mgr.watermark size start ∨ (mgr.NoRound mgr.watermark (mgr.FitsAt size) ∧
      mgr.watermark > mgr.resetMark ∧
      mgr.FirstFitFrom mgr.resetMark size start)

variable {mgr after : KernelMemoryMgr} {watermark size start : Nat}

lemma scanAddr_zero (word : watermark < 2 ^ 64) :
    scanAddr watermark 0 = upToNearest watermark regionSize := by
  have small : upToNearest watermark regionSize < 2 ^ 64 := upToNearest_lt word
  rw [scanAddr, zero_mul, add_zero, Nat.mod_eq_of_lt small]

lemma scanAddr_succ (watermark round : Nat) :
    scanAddr watermark (round + 1) = wadd (scanAddr watermark round) regionSize := by
  simp only [scanAddr, wadd, regionSize]
  omega

lemma regionFree_scanAddr (watermark round offset : Nat) :
    mgr.RegionFree (scanAddr watermark round + offset * regionSize) ↔
      mgr.RegionFree (scanAddr watermark (round + offset)) := by
  have same : (scanAddr watermark round + offset * regionSize) % 2 ^ 64 =
      scanAddr watermark (round + offset) := by
    simp only [scanAddr, regionSize]
    omega
  rw [← same, regionFree_mod]

variable {fits : Nat → Prop} {second first : Nat}

lemma FirstRound.unique
    (left : mgr.FirstRound watermark fits first) (right : mgr.FirstRound watermark fits second) :
    first = second := by
  rcases Nat.lt_trichotomy first second with hb | same | later
  · exact absurd left.room (right.full first hb)
  · exact same
  · exact absurd right.room (left.full second later)

lemma FirstRound.not_noRound {round : Nat}
    (first : mgr.FirstRound watermark fits round) : ¬ mgr.NoRound watermark fits :=
  fun none => none round first.tracked first.room

lemma FirstFitFrom.unique (left : mgr.FirstFitFrom watermark size first)
    (right : mgr.FirstFitFrom watermark size second) : first = second := by
  obtain ⟨_, hlf, hls⟩ := left
  obtain ⟨_, hrf, hrs⟩ := right
  rw [hls, hrs, hlf.unique hrf]

lemma FirstFit.unique
    (left : mgr.FirstFit size first) (right : mgr.FirstFit size second) : first = second := by
  rcases left with left | ⟨hln, _, left⟩
  · rcases right with right | ⟨hrn, _, _⟩
    · exact left.unique right
    obtain ⟨round, hf, _⟩ := left
    exact absurd hrn hf.not_noRound
  rcases right with right | ⟨_, _, right⟩
  · obtain ⟨round, hf, _⟩ := right
    exact absurd hln hf.not_noRound
  · exact left.unique right

def ScanOutcome (mgr : KernelMemoryMgr) (watermark : Nat)
    (fits : Nat → Prop) : Scan → Prop
  | .found first _ => ∃ round, first = scanAddr watermark round ∧
    mgr.FirstRound watermark fits round
  | .exhausted => mgr.NoRound watermark fits
  | .endless => True

lemma findSize_outcome {blockSize : BlockSize} (fuel : Nat) :
    ∀ {round : Nat}, (∀ earlier < round, mgr.Tracked (scanAddr watermark earlier)) →
      (∀ earlier < round, ¬ mgr.SizeFits blockSize (scanAddr watermark earlier)) →
      mgr.ScanOutcome watermark (mgr.SizeFits blockSize)
        (mgr.findSize blockSize fuel (scanAddr watermark round)) := by
  induction fuel with
  | zero =>
    intro round _ _
    trivial
  | succ fuel ih =>
    intro round tracked full
    rw [findSize]
    by_cases here : gbOf (scanAddr watermark round) < mgr.numStatusBytes
    · have hth : ∀ earlier < round + 1, mgr.Tracked (scanAddr watermark earlier) := by
        intro earlier bound
        rcases Nat.lt_succ_iff_lt_or_eq.mp bound with hb | same
        · exact tracked earlier hb
        rw [same]
        exact here
      rw [if_pos here]
      by_cases room : (mgr.status (scanAddr watermark round)).hasSize blockSize = true
      · rw [if_pos room]
        exact ⟨round, rfl, ⟨fun earlier bound => hth earlier (by omega), full, ⟨here, room⟩⟩⟩
      rw [if_neg room, ← scanAddr_succ]
      apply ih hth
      intro earlier bound
      rcases Nat.lt_succ_iff_lt_or_eq.mp bound with hb | same
      · exact full earlier hb
      rw [same]
      exact fun fits => room fits.2
    rw [if_neg here]
    intro later hr fits
    rcases lt_or_ge later round with hb | hal
    · exact full later hb fits
    · exact here (hr round hal)

lemma findRun_outcome {numRegions : Nat} (fuel : Nat) :
    ∀ {round first remaining : Nat}, 0 < remaining →
      remaining ≤ numRegions → round = first + (numRegions - remaining) →
      (∀ earlier < round, mgr.Tracked (scanAddr watermark earlier)) → (∀ earlier < first,
        ¬ mgr.RunFits numRegions (scanAddr watermark earlier)) →
      (∀ counted, first ≤ counted → counted < round → mgr.RegionFree (scanAddr watermark counted)) →
      mgr.ScanOutcome watermark (mgr.RunFits numRegions)
        (mgr.findRun numRegions fuel (scanAddr watermark round)
          (scanAddr watermark first) remaining) := by
  induction fuel with
  | zero =>
    intro round first remaining _ _ _ _ _ _
    trivial
  | succ fuel ih =>
    intro round first remaining positive _ _ tracked full counted
    rw [findRun]
    by_cases hh : gbOf (scanAddr watermark round) < mgr.numStatusBytes ∧ remaining > 0
    · have hth : ∀ earlier < round + 1, mgr.Tracked (scanAddr watermark earlier) := by
        intro earlier bound
        rcases Nat.lt_succ_iff_lt_or_eq.mp bound with hbe | same
        · exact tracked earlier hbe
        rw [same]
        exact hh.1
      rw [if_pos hh]
      by_cases free : (mgr.status (scanAddr watermark round)).allFree = true
      · have hch : ∀ later, first ≤ later → later < round + 1 →
            mgr.RegionFree (scanAddr watermark later) := by
          intro later lower upper
          rcases Nat.lt_succ_iff_lt_or_eq.mp upper with hbe | same
          · exact counted later lower hbe
          rw [same]
          exact ⟨hh.1, free⟩
        rw [if_pos free]
        by_cases hc : remaining - 1 = 0
        · rw [if_pos hc]
          refine ⟨first, rfl, ⟨?_, full, ?_⟩⟩
          · intro earlier bound
            exact hth earlier (by omega)
          intro _ bound
          rw [regionFree_scanAddr]
          exact hch _ (by omega) (by omega)
        rw [if_neg hc, ← scanAddr_succ]
        exact ih (by omega) (by omega) (by omega) hth full hch
      rw [if_neg free, ← scanAddr_succ]
      apply ih (by omega) le_rfl (by omega) hth
      · -- Every window that starts up to here contains this region.
        intro earlier bound fits
        rcases lt_or_ge earlier first with hbe | hal
        · exact full earlier hbe fits
        have hiw := fits (round - earlier) (by omega)
        rw [regionFree_scanAddr] at hiw
        have hsr : earlier + (round - earlier) = round := by omega
        rw [hsr] at hiw
        exact free hiw.2
      intro later lower upper
      omega
    · rw [if_neg hh]
      intro later hr fits
      have hu : ¬ mgr.Tracked (scanAddr watermark round) := fun hth => hh ⟨hth, positive⟩
      rcases lt_or_ge later first with hbe | hal
      · exact full later hbe fits
      rcases lt_or_ge round later with hb | _
      · exact hu (hr round (by omega))
      have hiw := fits (round - later) (by omega)
      rw [regionFree_scanAddr] at hiw
      have hsr : later + (round - later) = round := by omega
      rw [hsr] at hiw
      exact hu hiw.1

private lemma findSize_outcome_start (blockSize : BlockSize) (word : watermark < 2 ^ 64) :
    mgr.ScanOutcome watermark (mgr.SizeFits blockSize) (mgr.findSize blockSize scanFuel
        (upToNearest watermark regionSize)) := by
  rw [← scanAddr_zero word]
  apply findSize_outcome
  · intro earlier bound
    omega
  intro earlier bound
  omega

private lemma findRun_outcome_start {numRegions : Nat}
    (word : watermark < 2 ^ 64) (positive : 0 < numRegions) :
    mgr.ScanOutcome watermark (mgr.RunFits numRegions)
      (mgr.findRun numRegions scanFuel (upToNearest watermark regionSize)
        (upToNearest watermark regionSize) numRegions) := by
  rw [← scanAddr_zero word]
  apply findRun_outcome scanFuel positive le_rfl (by omega)
  · intro earlier bound
    omega
  · intro earlier bound
    omega
  intro _ _ _
  omega

lemma numRegions_pos (large : size > BlockSize.S256.bytes) : 0 < divRoundUp size regionSize :=
  divRoundUp_pos (by omega) (by decide)

lemma fitsAt_of_large (large : size > BlockSize.S256.bytes) :
    mgr.FitsAt size = mgr.RunFits (divRoundUp size regionSize) := by
  funext region
  rw [FitsAt, if_pos large]

lemma fitsAt_of_small (small : ¬ size > BlockSize.S256.bytes) :
    mgr.FitsAt size = mgr.SizeFits (nearest size) := by
  funext region
  rw [FitsAt, if_neg small]

lemma FirstFitFrom.of_setWatermark {mark : Nat}
    (fit : FirstFitFrom { mgr with watermark := mark } watermark size
      start) :
    mgr.FirstFitFrom watermark size start := by
  obtain ⟨round, ⟨ht, full, room⟩, position⟩ := fit
  exact ⟨round, ⟨ht, full, room⟩, position⟩

/-- What a search returns is the first fit from the watermark on, or there is none. -/
def SearchOutcome (mgr : KernelMemoryMgr) (size : Nat) :
    Option (Option (Nat × KernelMemoryMgr)) → Prop
  | none => True
  | some none => mgr.NoRound mgr.watermark (mgr.FitsAt size)
  | some (some claimed) => mgr.FirstFitFrom mgr.watermark size claimed.1

variable (word : mgr.watermark < 2 ^ 64)

include word

lemma searchOnce_outcome : mgr.SearchOutcome size (mgr.searchOnce size) := by
  rw [searchOnce]
  by_cases large : size > BlockSize.S256.bytes
  · have scanned : mgr.ScanOutcome mgr.watermark _ _ :=
      findRun_outcome_start word (numRegions_pos large)
    simp only [if_pos large]
    generalize mgr.findRun (divRoundUp size regionSize) scanFuel
      (upToNearest mgr.watermark regionSize) (upToNearest mgr.watermark regionSize)
      (divRoundUp size regionSize) = scan at scanned ⊢
    rw [← fitsAt_of_large large] at scanned
    cases scan with
    | endless => trivial
    | exhausted => exact scanned
    | found result last =>
      obtain ⟨round, position, fits⟩ := scanned
      simp only
      split
      · trivial
      refine ⟨round, fits, ?_⟩
      rw [fitStart, if_pos large]
      exact position
  have scanned : mgr.ScanOutcome mgr.watermark _ _ := findSize_outcome_start (nearest size) word
  simp only [if_neg large]
  generalize mgr.findSize (nearest size) scanFuel
    (upToNearest mgr.watermark regionSize) = scan at scanned ⊢
  cases scan with
  | endless => trivial
  | exhausted =>
    rw [← fitsAt_of_small large] at scanned
    exact scanned
  | found region last =>
    obtain ⟨round, position, fits⟩ := scanned
    have small : size ≤ BlockSize.S256.bytes := by omega
    have claimed := (claimIdx_spec (position ▸ fits.room.2) (nearest_ne_S512 small)).1
    have isWord : region < 2 ^ 64 := by
      rw [position]
      exact Nat.mod_lt _ (by decide)
    have aligned : region % regionSize = 0 := by
      have base : upToNearest mgr.watermark regionSize % regionSize = 0 :=
        upToNearest_mod_eq_zero (by decide)
      rw [position, scanAddr]
      simp only [regionSize] at base ⊢
      omega
    refine ⟨round, ?_, ?_⟩
    · rw [fitsAt_of_small large]
      exact fits
    rw [fitStart, if_neg large, ← position, ← blockOffset_eq _ claimed aligned isWord]
    rfl

/-- A search is first-fit from the watermark on. -/
lemma searchOnce_firstFit (found : mgr.searchOnce size = some (some (start, after))) :
    mgr.FirstFitFrom mgr.watermark size start := by
  have outcome : mgr.SearchOutcome size _ := searchOnce_outcome word
  rwa [found] at outcome

lemma searchOnce_noRound (exhausted : mgr.searchOnce size = some none) :
    mgr.NoRound mgr.watermark (mgr.FitsAt size) := by
  have outcome : mgr.SearchOutcome size _ := searchOnce_outcome word
  rwa [exhausted] at outcome

lemma findAndClaim_firstFit (done : mgr.findAndClaim size = some (start, after)) :
    mgr.FirstFit size start ∨ (start = 0 ∧ mgr.NoRound mgr.watermark (mgr.FitsAt size) ∧
      (mgr.watermark > mgr.resetMark → mgr.NoRound mgr.resetMark (mgr.FitsAt size))) := by
  rw [findAndClaim, findAndClaimWithin] at done
  split at done
  · cases done
  · rename_i claimed hs
    cases done
    exact .inl (.inl (searchOnce_firstFit word hs))
  rename_i exhausted
  have none := searchOnce_noRound word exhausted
  split at done
  · rename_i above
    rw [findAndClaimWithin] at done
    split at done
    · cases done
    · rename_i claimed hs
      cases done
      have fit := searchOnce_firstFit (wadd_lt _ _) hs
      exact .inl (.inr ⟨none, above, fit.of_setWatermark⟩)
    rename_i missed
    simp only [resetMark_setWatermark, gt_iff_lt, lt_irrefl, ↓reduceIte] at done
    cases done
    exact .inr ⟨rfl, none, fun _ => searchOnce_noRound (wadd_lt _ _) missed⟩
  rename_i low
  cases done
  exact .inr ⟨rfl, none, fun above => absurd above low⟩

end KernelMemoryMgr

end OoOS.Mm
