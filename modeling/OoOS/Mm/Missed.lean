import OoOS.Mm.BootRun

/-!
# What a search misses

The regions that `__find_and_claim` looks at, before and after it resets the
watermark, against those that start-up left to the heap.
-/

namespace OoOS.Mm

open Lib Libk KernelMemoryMgr

/-- A claim of the size can be placed at a tracked region from an address on. -/
def Available (map : MemoryMap) (mgr : KernelMemoryMgr) (size lowest : Nat) : Prop :=
  ∃ region, region % regionSize = 0 ∧ lowest ≤ region ∧ region < map.trackedEnd ∧
    mgr.FitsAt size region

/-- `__find_and_claim` returns, and 0 only if nothing is available behind the
kernel. -/
def FindsMemory (map : MemoryMap) (image : KernelImage) (mgr : KernelMemoryMgr) (size : Nat) :
    Prop :=
  ∃ start after, mgr.findAndClaim size = some (start, after) ∧
    (start = 0 → ¬ Available map mgr size (heapRegions map image * regionSize))

def KernelMemoryMgr.searchStart (mgr : KernelMemoryMgr) : Nat :=
  let first := upToNearest mgr.watermark regionSize
  if mgr.watermark > mgr.resetMark then min first (upToNearest mgr.resetMark regionSize) else first

variable {map : MemoryMap} {image : KernelImage} {state : Stage1} {mark size : Nat}

lemma BootInvariant.noRound_iff (booted : BootInvariant map image state) (low : LowMark mark) :
    state.mgr.NoRound mark (state.mgr.FitsAt size) ↔
      ¬ Available map state.mgr size (upToNearest mark regionSize) := by
  have ha := upToNearest_aligned mark
  have few := booted.few
  constructor
  · rintro none ⟨region, hr, hle, hlt, hf⟩
    rw [MemoryMap.trackedEnd, ← booted.numStatusBytes] at hlt
    obtain ⟨round, rfl⟩ : ∃ round, region = upToNearest mark regionSize + round * regionSize := by
      refine ⟨(region - upToNearest mark regionSize) / regionSize, ?_⟩
      unfold regionSize at *
      omega
    have hs : ∀ earlier ≤ round, scanAddr mark earlier =
        upToNearest mark regionSize + earlier * regionSize := by
      intro earlier he
      have := Nat.mul_le_mul_right regionSize he
      unfold gigabyte at hlt
      exact Nat.mod_eq_of_lt (by omega)
    refine none round (fun earlier he => ?_) (hs round (le_refl _) ▸ hf)
    have := Nat.mul_le_mul_right regionSize he
    rw [KernelMemoryMgr.Tracked, hs earlier he]
    unfold gbOf gigabyte at *
    omega
  intro hn round ht hf
  obtain ⟨hs, hb⟩ := scanAddr_below few low round ht
  refine hn ⟨_, ?_, ?_, ?_, hf⟩
  · rw [hs, Nat.add_mul_mod_self_right, ha]
  · omega
  rw [MemoryMap.trackedEnd, ← booted.numStatusBytes]
  unfold regionSize at hb
  omega

lemma available_min (map : MemoryMap) (mgr : KernelMemoryMgr) (size first second : Nat) :
    Available map mgr size (min first second) ↔
      Available map mgr size first ∨ Available map mgr size second := by
  constructor
  · rintro ⟨region, hr, hle, hlt, hf⟩
    rcases Nat.le_total first second with ho | ho
    · exact .inl ⟨region, hr, by omega, hlt, hf⟩
    · exact .inr ⟨region, hr, by omega, hlt, hf⟩
  rintro (⟨region, hr, hle, hlt, hf⟩ | ⟨region, hr, hle, hlt, hf⟩) <;>
    exact ⟨region, hr, by omega, hlt, hf⟩

lemma KernelMemoryMgr.FirstFitFrom.ne_zero {mgr : KernelMemoryMgr} {start : Nat}
    (fit : mgr.FirstFitFrom mark size start) (used : regionBits 0 ⊆ mgr.usedBits) : start ≠ 0 := by
  rintro rfl
  obtain ⟨round, hr, hs⟩ := fit
  have room := hr.room
  by_cases hl : size > BlockSize.S256.bytes
  · rw [fitStart, if_pos hl] at hs
    rw [← hs, fitsAt_of_large hl] at room
    exact not_regionFree_zero used (room 0 (numRegions_pos hl))
  rw [fitStart, if_neg hl] at hs
  obtain ⟨hz, -⟩ := Nat.add_eq_zero_iff.mp hs.symm
  rw [hz, fitsAt_of_small hl, SizeFits, status_eq_all used] at room
  cases hn : nearest size <;> rw [hn] at room <;> exact absurd room.2 (by decide)

/-- A claim fails exactly without a block from the mark on. -/
lemma BootInvariant.findAndClaim_eq_zero_iff (booted : BootInvariant map image state) {start : Nat}
    {after : KernelMemoryMgr} (claimed : state.mgr.findAndClaim size = some (start, after)) :
    start = 0 ↔ ¬ Available map state.mgr size state.mgr.searchStart := by
  have hw := booted.consistent.watermark_lt
  have hs : ¬ Available map state.mgr size state.mgr.searchStart ↔
      state.mgr.NoRound state.mgr.watermark (state.mgr.FitsAt size) ∧
      (state.mgr.watermark > state.mgr.resetMark →
        state.mgr.NoRound state.mgr.resetMark (state.mgr.FitsAt size)) := by
    rw [booted.noRound_iff booted.low, booted.noRound_iff booted.resetMark_low, searchStart]
    split
    · rw [available_min]
      tauto
    · tauto
  rw [hs]
  rcases findAndClaim_firstFit hw claimed with (fit | ⟨_, above, fit⟩) | ⟨rfl, none⟩
  · have hz := fit.ne_zero booted.consistent.firstUsed
    obtain ⟨_, hf, _⟩ := fit
    exact iff_of_false hz fun none => hf.not_noRound none.1
  · have hz := fit.ne_zero booted.consistent.firstUsed
    obtain ⟨_, hf, _⟩ := fit
    exact iff_of_false hz fun none => hf.not_noRound (none.2 above)
  · exact iff_of_true rfl none

/-- Exactly when a search that fails has missed nothing. -/
theorem findsMemory_iff (map : MemoryMap) (image : KernelImage) (ops : List Stage1Op)
    (final : Stage1) (guarded : Guarded Stage1.step CallerMark (initStartUp map image).stage1 ops)
    (ran : run Stage1.step (initStartUp map image).stage1 ops = some final) (size : Nat) :
    FindsMemory map image final.mgr size ↔
      (Available map final.mgr size (heapRegions map image * regionSize) →
        Available map final.mgr size final.mgr.searchStart) := by
  have h := BootInvariant.run guarded ran
  have few := h.few
  obtain ⟨start, after, hf⟩ := final.mgr.findAndClaim_returns (by omega)
    h.consistent.watermark_lt size
  constructor
  · rintro ⟨other, _, hf', hn⟩ ha
    by_contra hno
    exact hn ((h.findAndClaim_eq_zero_iff hf').mpr hno) ha
  intro ha
  refine ⟨start, after, hf, fun hz hav => ?_⟩
  exact (h.findAndClaim_eq_zero_iff hf).mp hz (ha hav)

/-- One gigabyte of memory without its first page, and a kernel behind which two
whole regions of it are left. -/
def fullMap : MemoryMap where
  totalMemory := 0x3FFFF000
  entries := [⟨0x1000, 0x3FFFF, .AVAILABLE, by decide, by decide, by decide⟩]
  total_eq := by decide
  total_le := by decide

def largeImage : KernelImage where
  imageEnd := 0x3FBFF000
  end_aligned := by decide
  end_lt := by decide

/-- 256 pages of the first region and the whole second one are claimed; the 256
pages are released, and the watermark is put on them. -/
def missingRun : List Stage1Op :=
  [.claim 0x100000, .setWatermark 0x3FCFFFC0, .claim 0x200000, .setWatermark 0x3FDFFFC0,
    .release 0 0x100000, .setWatermark 0x3FD00000]

instance decidableCallerMark (state : Stage1) : (op : Stage1Op) → Decidable (CallerMark state op)
  | .setWatermark _ => inferInstanceAs (Decidable (_ ∨ _))
  | .claim _ => .isTrue trivial
  | .release _ _ => .isTrue trivial

/-- While the watermark is not moved the search begins at the heap. -/
theorem findsMemory_iff_twoClaims : ∃ final,
    run Stage1.step (initStartUp fullMap largeImage).stage1 [.claim 0x100000, .claim 0x200000] =
        some final ∧ FindsMemory fullMap largeImage final.mgr 0x100000 := by
  have begins : (run Stage1.step (initStartUp fullMap largeImage).stage1
      [.claim 0x100000, .claim 0x200000]).map (fun s => s.mgr.searchStart) =
        some (heapRegions fullMap largeImage * regionSize) := by
    decide +kernel
  obtain ⟨final, ran, begins⟩ := Option.map_eq_some_iff.mp begins
  refine ⟨final, ran, (findsMemory_iff fullMap largeImage _ final (by decide +kernel) ran _).mpr ?_⟩
  rw [begins]
  exact id

theorem not_findsMemory_released : ∃ final,
    Guarded Stage1.step CallerMark (initStartUp fullMap largeImage).stage1 missingRun ∧
      run Stage1.step (initStartUp fullMap largeImage).stage1 missingRun = some final ∧
      ¬ FindsMemory fullMap largeImage final.mgr 0x100000 := by
  have hc : (run Stage1.step (initStartUp fullMap largeImage).stage1 missingRun).map
      (fun s => ((s.mgr.findAndClaim 0x100000).map Prod.fst, s.mgr.numStatusBytes,
        (s.mgr.status 0x3FC00000).hasSize .S256)) = some (some 0, 1, true) := by
    decide +kernel
  obtain ⟨final, hr, hf⟩ := Option.map_eq_some_iff.mp hc
  obtain ⟨hz, hn, hs⟩ : _ ∧ _ ∧ _ := by simpa using hf
  refine ⟨final, by decide +kernel, hr, ?_⟩
  rintro ⟨start, after, hf, hno⟩
  rw [hf] at hz
  refine hno (by simpa using hz) ⟨0x3FC00000, by decide, by decide +kernel, by decide +kernel, ?_⟩
  rw [fitsAt_of_small (by decide)]
  exact ⟨by rw [KernelMemoryMgr.Tracked, hn]; decide, hs⟩

end OoOS.Mm
