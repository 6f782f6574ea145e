import Mathlib.Order.CompletePartialOrder
import OoOS.Mm.Stage1

/-!
# What `__find_and_claim` finds

One call either fails and leaves the table as it was, or marks bits that nobody
had marked.  It returns on every table of fewer than `2 ^ 32` gigabytes.
-/

namespace OoOS.Mm

open Libk

namespace KernelMemoryMgr

variable {mgr after : KernelMemoryMgr}

lemma gbOf_mod (addr : Nat) : gbOf (addr % 2 ^ 64) = gbOf addr := by
  unfold gbOf gigabyte
  omega

lemma sbOf_mod (addr : Nat) : sbOf (addr % 2 ^ 64) = sbOf addr := by
  unfold sbOf regionSize
  omega

lemma status_mod (mgr : KernelMemoryMgr) (addr : Nat) :
    mgr.status (addr % 2 ^ 64) = mgr.status addr := by
  simp only [status, gbOf_mod, sbOf_mod]

def RegionFree (mgr : KernelMemoryMgr) (addr : Nat) : Prop :=
  gbOf addr < mgr.numStatusBytes ∧ (mgr.status addr).allFree = true

lemma regionFree_mod (addr : Nat) : mgr.RegionFree (addr % 2 ^ 64) ↔ mgr.RegionFree addr := by
  simp only [RegionFree, gbOf_mod, status_mod]

variable {numRegions first last : Nat}

lemma findRun_found (fuel : Nat) :
    ∀ {addr result remaining : Nat}, addr < 2 ^ 64 → result < 2 ^ 64 → result % regionSize = 0 →
      addr % regionSize = 0 → remaining ≤ numRegions →
      addr = (result + (numRegions - remaining) * regionSize) % 2 ^ 64 →
      (∀ offset < numRegions - remaining, mgr.RegionFree (result + offset * regionSize)) →
      mgr.findRun numRegions fuel addr result remaining = .found first last →
      first < 2 ^ 64 ∧ first % regionSize = 0 ∧ 0 < numRegions ∧
        last = (first + (numRegions - 1) * regionSize) % 2 ^ 64 ∧ ∀ offset < numRegions,
          mgr.RegionFree (first + offset * regionSize) := by
  induction fuel with
  | zero =>
    intro addr result remaining _ _ _ _ _ _ _ found
    cases found
  | succ fuel ih =>
    intro addr result remaining _ hrw hra haa _ position counted found
    have hnw := wadd_lt addr regionSize
    have hna : wadd addr regionSize % regionSize = 0 := by
      unfold wadd
      unfold regionSize at haa ⊢
      omega
    rw [findRun] at found
    split at found
    case isFalse => cases found
    rename_i tracked
    split at found
    · rename_i free
      have counted' : ∀ offset < numRegions - (remaining - 1),
          mgr.RegionFree (result + offset * regionSize) := by
        intro offset bound
        by_cases old : offset < numRegions - remaining
        · exact counted offset old
        have hl : offset = numRegions - remaining := by omega
        rw [hl, ← regionFree_mod, ← position]
        exact ⟨tracked.1, free⟩
      split at found
      · rename_i complete
        have one : remaining = 1 := by omega
        cases found
        subst one
        exact ⟨hrw, hra, by omega, position, fun offset bound => counted' offset (by omega)⟩
      refine ih hnw hrw hra hna (by omega) ?_ counted' found
      have one : numRegions - (remaining - 1) = numRegions - remaining + 1 := by omega
      rw [one, position]
      unfold wadd regionSize
      omega
    refine ih hnw hnw hna hna le_rfl ?_ ?_ found
    · rw [Nat.sub_self, zero_mul, add_zero]
      exact (Nat.mod_eq_of_lt hnw).symm
    omega

variable {blockSize : BlockSize}

lemma findSize_found {region : Nat} (fuel : Nat) :
    ∀ {addr : Nat}, addr < 2 ^ 64 → addr % regionSize = 0 →
      mgr.findSize blockSize fuel addr = .found region last →
      region < 2 ^ 64 ∧ region % regionSize = 0 ∧ gbOf region < mgr.numStatusBytes ∧
        (mgr.status region).hasSize blockSize = true := by
  induction fuel with
  | zero =>
    intro addr _ _ found
    cases found
  | succ fuel ih =>
    intro addr word aligned found
    rw [findSize] at found
    split at found
    case isFalse => cases found
    rename_i tracked
    split at found
    · rename_i free
      cases found
      exact ⟨word, aligned, tracked, free⟩
    refine ih (wadd_lt _ _) ?_ found
    unfold wadd
    unfold regionSize at aligned ⊢
    omega

lemma claimRun_endless (top : last + regionSize = 2 ^ 64) (fuel : Nat) :
    ∀ {mgr : KernelMemoryMgr} {addr : Nat}, addr < 2 ^ 64 →
      addr % regionSize = 0 → claimRun fuel mgr addr last = none := by
  induction fuel with
  | zero =>
    intro mgr addr _ _
    rfl
  | succ fuel ih =>
    intro mgr addr _ aligned
    have below : addr ≤ last := by
      unfold regionSize at top aligned
      omega
    rw [claimRun, if_pos below]
    refine ih (wadd_lt _ _) ?_
    unfold wadd
    unfold regionSize at aligned ⊢
    omega

lemma claimRun_eq_some (lastAligned : last % regionSize = 0) (lastWord : last < 2 ^ 64)
    (fuel : Nat) :
    ∀ {mgr : KernelMemoryMgr} {addr : Nat}, addr ≤ last →
      addr % regionSize = 0 → claimRun fuel mgr addr last = some after →
      last + regionSize < 2 ^ 64 ∧ after = updateRegions (·.setUsed .ALL)
          ((last - addr) / regionSize + 1) mgr addr := by
  induction fuel with
  | zero =>
    intro mgr addr _ _ marked
    cases marked
  | succ fuel ih =>
    intro mgr addr below aligned marked
    by_cases top : last + regionSize = 2 ^ 64
    · rw [claimRun_endless top _ (by omega) aligned] at marked
      cases marked
    have room : last + regionSize < 2 ^ 64 := by
      unfold regionSize at top lastAligned ⊢
      omega
    have next : wadd addr regionSize = addr + regionSize := wadd_of_lt (by omega)
    rw [claimRun, if_pos below, next] at marked
    by_cases done : addr = last
    · subst done
      cases fuel with
      | zero => cases marked
      | succ fuel =>
        have past : ¬ addr + regionSize ≤ addr := by
          unfold regionSize
          omega
        rw [claimRun, if_neg past] at marked
        cases marked
        refine ⟨room, ?_⟩
        simp [updateRegions]
    have hnb : addr + regionSize ≤ last := by
      unfold regionSize at aligned lastAligned ⊢
      omega
    have hna : (addr + regionSize) % regionSize = 0 := by simpa using aligned
    obtain ⟨_, result⟩ := ih hnb hna marked
    have count : (last - addr) / regionSize + 1 =
        ((last - (addr + regionSize)) / regionSize + 1) + 1 := by
      unfold regionSize at hnb ⊢
      omega
    refine ⟨room, ?_⟩
    rw [count, updateRegions, next, result]

end KernelMemoryMgr

structure Claimed (mgr : KernelMemoryMgr) (claim : Claim)
    (after : KernelMemoryMgr) : Prop where
  placed : claim.Placed
  positive : 0 < claim.start
  unmarked : Disjoint claim.bits mgr.usedBits
  tracked : ∀ bit ∈ claim.bits, bit.gb < mgr.numStatusBytes
  marked : after.usedBits = mgr.usedBits ∪ claim.bits

def SameTable (mgr after : KernelMemoryMgr) : Prop :=
  after.numStatusBytes = mgr.numStatusBytes ∧ after.kernelHeapBegin = mgr.kernelHeapBegin

namespace KernelMemoryMgr

variable {mgr after : KernelMemoryMgr} {size start : Nat}

lemma updateRegions_frame (change : StatusByte → StatusByte) (count : Nat) :
    ∀ (mgr : KernelMemoryMgr) (addr : Nat), SameTable mgr (updateRegions change count mgr addr) ∧
        (updateRegions change count mgr addr).watermark = mgr.watermark := by
  induction count with
  | zero =>
    intro mgr addr
    exact ⟨⟨rfl, rfl⟩, rfl⟩
  | succ count ih =>
    intro mgr addr
    exact ih (mgr.updateStatus addr change) (wadd addr regionSize)

lemma regionFree_disjoint {addr : Nat} (free : mgr.RegionFree addr) :
    Disjoint (regionBits addr) mgr.usedBits := by
  rw [Set.disjoint_left]
  rintro ⟨gb, sb, slot⟩ ⟨small, gbEq, sbEq⟩ ⟨_, inUse⟩
  have clear := (StatusByte.allFree_iff _).mp free.2 slot small
  subst gbEq sbEq
  exact Bool.false_ne_true (clear.symm.trans inUse)

lemma not_regionFree_zero (firstUsed : regionBits 0 ⊆ mgr.usedBits) : ¬ mgr.RegionFree 0 := by
  intro free
  have mem : (⟨gbOf 0, sbOf 0, 0⟩ : StatusBit) ∈ regionBits 0 := ⟨by decide, rfl, rfl⟩
  exact Set.disjoint_left.mp (regionFree_disjoint free) mem (firstUsed mem)

lemma claimIdx_spec {status : StatusByte} {blockSize : BlockSize}
    (free : status.hasSize blockSize = true) (part : blockSize ≠ .S512) :
    claimIdx status blockSize ≠ .ALL ∧ (claimIdx status blockSize).size = blockSize ∧
      status.hasFree (claimIdx status blockSize) = true := by
  cases blockSize
  case S512 => exact absurd rfl part
  case S04 =>
    simp only [StatusByte.hasSize, Bool.or_eq_true] at free
    simp only [claimIdx]
    split
    · rename_i free7
      exact ⟨by decide, rfl, free7⟩
    rename_i taken7
    exact ⟨by decide, rfl, free.resolve_left taken7⟩
  all_goals exact ⟨by simp [claimIdx], rfl, free⟩

lemma run_fits {first numRegions : Nat} (firstUsed : regionBits 0 ⊆ mgr.usedBits)
    (aligned : first % regionSize = 0) (word : first < 2 ^ 64)
    (free : ∀ offset < numRegions, mgr.RegionFree (first + offset * regionSize)) :
    first + numRegions * regionSize ≤ 2 ^ 64 := by
  by_contra htf
  have bound : (2 ^ 64 - first) / regionSize < numRegions := by
    unfold regionSize at htf ⊢
    omega
  have hw : first + (2 ^ 64 - first) / regionSize * regionSize = 2 ^ 64 := by
    unfold regionSize at aligned ⊢
    omega
  have hft := free _ bound
  rw [hw, ← regionFree_mod, Nat.mod_self] at hft
  exact not_regionFree_zero firstUsed hft

private lemma claimed_of_run {numRegions first last : Nat}
    (firstUsed : regionBits 0 ⊆ mgr.usedBits) (large : size > BlockSize.S256.bytes)
    (count : numRegions = divRoundUp size regionSize) (word : first < 2 ^ 64)
    (aligned : first % regionSize = 0) (someRegion : 0 < numRegions)
    (lastEq : last = (first + (numRegions - 1) * regionSize) % 2 ^ 64)
    (free : ∀ offset < numRegions, mgr.RegionFree (first + offset * regionSize))
    (marked : claimRun scanFuel mgr first last = some after) :
    Claimed mgr ⟨first, size⟩ after ∧ SameTable mgr after ∧ after.watermark = mgr.watermark := by
  have fits := run_fits firstUsed aligned word free
  have positive : 0 < first := by
    rcases Nat.eq_zero_or_pos first with zero | positive
    · have freeThere := free 0 someRegion
      rw [zero, zero_mul] at freeThere
      exact absurd freeThere (not_regionFree_zero firstUsed)
    · exact positive
  have lastValue : last = first + (numRegions - 1) * regionSize := by
    rw [lastEq]
    apply Nat.mod_eq_of_lt
    unfold regionSize at fits ⊢
    omega
  obtain ⟨_, result⟩ := claimRun_eq_some (by rw [lastValue]; unfold regionSize at aligned ⊢; omega)
    (by rw [lastEq]; exact Nat.mod_lt _ (by decide)) scanFuel (by omega) aligned marked
  have counted : (last - first) / regionSize + 1 = numRegions := by
    rw [lastValue]
    unfold regionSize
    omega
  rw [counted] at result
  have claimFits : divRoundUp size regionSize * regionSize < 2 ^ 64 := by
    rw [← count]
    omega
  have bits := Claim.bits_regions aligned large claimFits
  rw [← count] at bits
  refine ⟨⟨?_, positive, ?_, ?_, ?_⟩, ?_, ?_⟩
  · exact .regions aligned large (count ▸ fits)
  · rw [bits, Set.disjoint_left]
    rintro bit ⟨offset, bound, member⟩
    exact Set.disjoint_left.mp (regionFree_disjoint (free offset bound)) member
  · rw [bits]
    rintro bit ⟨offset, bound, member⟩
    rw [member.2.1]
    exact (free offset bound).1
  · rw [result, usedBits_updateRegions_setUsed, bits]
  · rw [result]
    exact (updateRegions_frame _ _ _ _).1
  rw [result]
  exact (updateRegions_frame _ _ _ _).2

private lemma claimed_of_block {region : Nat} (firstUsed : regionBits 0 ⊆ mgr.usedBits)
    (small : size ≤ BlockSize.S256.bytes) (word : region < 2 ^ 64)
    (aligned : region % regionSize = 0) (tracked : gbOf region < mgr.numStatusBytes)
    (free : (mgr.status region).hasSize (nearest size) = true)
    (claimed : mgr.claimRegion region
      (claimIdx (mgr.status region) (nearest size)) = (start, after)) :
    Claimed mgr ⟨start, size⟩ after ∧ SameTable mgr after ∧ after.watermark = mgr.watermark := by
  obtain ⟨single, sizeEq, idxFree⟩ := claimIdx_spec free (nearest_ne_S512 small)
  generalize claimIdx (mgr.status region) (nearest size) = idx at single sizeEq idxFree claimed
  obtain ⟨rfl, rfl⟩ := Prod.mk.inj claimed
  rw [blockOffset_eq idx single aligned word]
  have bits := Claim.bits_block single aligned small sizeEq.symm
  have clear := (StatusByte.hasFree_iff _ single).mp idxFree
  have unmarked : Disjoint ({⟨gbOf region, sbOf region, idx.bit⟩} : Set StatusBit)
      mgr.usedBits := by
    rw [Set.disjoint_singleton_left]
    rintro ⟨_, inUse⟩
    exact Bool.false_ne_true (clear.symm.trans inUse)
  refine ⟨⟨?_, ?_, ?_, ?_, ?_⟩, ⟨rfl, rfl⟩, rfl⟩
  · exact .block single aligned word small sizeEq.symm
  · rcases Nat.eq_zero_or_pos region with zero | positive
    · have member : (⟨gbOf region, sbOf region, idx.bit⟩ : StatusBit) ∈
          regionBits 0 := ⟨idx.bit_lt, by rw [zero], by rw [zero]⟩
      exact absurd (firstUsed member) (Set.disjoint_singleton_left.mp unmarked)
    · exact Nat.add_pos_left positive _
  · rw [bits]
    exact unmarked
  · rw [bits]
    rintro bit rfl
    exact tracked
  rw [bits]
  exact usedBits_setUsed mgr region single

lemma searchOnce_claimed (word : mgr.watermark < 2 ^ 64) (firstUsed : regionBits 0 ⊆ mgr.usedBits)
    (found : mgr.searchOnce size = some (some (start, after))) :
    Claimed mgr ⟨start, size⟩ after ∧ SameTable mgr after ∧ after.watermark = mgr.watermark := by
  have haw : upToNearest mgr.watermark regionSize < 2 ^ 64 := upToNearest_lt word
  have haa : upToNearest mgr.watermark regionSize % regionSize = 0 :=
    upToNearest_mod_eq_zero (by decide)
  unfold searchOnce at found
  simp only at found
  split at found
  · rename_i large
    split at found
    · cases found
    · cases found
    rename_i result last hs
    obtain ⟨hfw, hfa, hsr, hle, free⟩ := findRun_found scanFuel haw haw haa haa le_rfl (by
          rw [Nat.sub_self, zero_mul, add_zero]
          exact (Nat.mod_eq_of_lt haw).symm)
        (fun _ _ => by omega) hs
    split at found
    · cases found
    rename_i marked hme
    cases found
    exact claimed_of_run firstUsed large rfl hfw hfa hsr hle free hme
  split at found
  · cases found
  · cases found
  rename_i region last hs
  obtain ⟨hrw, hra, ht, free⟩ := findSize_found scanFuel haw haa hs
  exact claimed_of_block firstUsed (by omega) hrw hra ht free
    (Option.some.inj (Option.some.inj found))

private lemma findAndClaimWithin_cases (firstUsed : regionBits 0 ⊆ mgr.usedBits) (calls : Nat) :
    ∀ {current : KernelMemoryMgr}, SameTable mgr current → current.watermark < 2 ^ 64 →
      current.statusBytes = mgr.statusBytes →
      findAndClaimWithin calls current size = some (start, after) → SameTable mgr after ∧
        (after.watermark = current.watermark ∨ after.watermark = mgr.resetMark) ∧
        ((start = 0 ∧ after.statusBytes = mgr.statusBytes) ∨ Claimed mgr ⟨start, size⟩ after) := by
  induction calls with
  | zero =>
    intro current _ _ _ result
    cases result
  | succ calls ih =>
    intro current sameTable currentWord sameBytes result
    have sameBits : current.usedBits = mgr.usedBits := by simp [usedBits, sameBytes]
    rw [findAndClaimWithin] at result
    split at result
    · cases result
    · rename_i claimed searched
      cases result
      obtain ⟨claim, table, watermark⟩ :=
        searchOnce_claimed currentWord (sameBits ▸ firstUsed) searched
      refine ⟨⟨table.1.trans sameTable.1, table.2.trans sameTable.2⟩, .inl watermark, .inr ?_⟩
      exact ⟨claim.placed, claim.positive, sameBits ▸ claim.unmarked,
        fun bit member => sameTable.1 ▸ claim.tracked bit member, sameBits ▸ claim.marked⟩
    split at result
    · obtain ⟨table, watermark, outcome⟩ := ih (by exact sameTable) (wadd_lt _ _)
          (by exact sameBytes) result
      refine ⟨table, .inr ?_, outcome⟩
      rcases watermark with same | reset
      · simp [same, resetMark, sameTable.1, sameTable.2]
      · exact reset
    cases result
    exact ⟨sameTable, .inl rfl, .inl ⟨rfl, sameBytes⟩⟩

section

variable (word : mgr.watermark < 2 ^ 64)

include word

section

variable (firstUsed : regionBits 0 ⊆ mgr.usedBits)

include firstUsed

section

variable (done : mgr.findAndClaim size = some (start, after))

include done

lemma findAndClaim_cases :
    SameTable mgr after ∧ (after.watermark = mgr.watermark ∨ after.watermark = mgr.resetMark) ∧
      ((start = 0 ∧ after.statusBytes = mgr.statusBytes) ∨ Claimed mgr ⟨start, size⟩ after) :=
  findAndClaimWithin_cases firstUsed 2 ⟨rfl, rfl⟩ word rfl done

lemma findAndClaim_watermark_lt : after.watermark < 2 ^ 64 := by
  obtain ⟨_, same | reset, _⟩ := findAndClaim_cases word firstUsed done
  · rw [same]
    exact word
  rw [reset]
  exact wadd_lt _ _

lemma findAndClaim_lt : start < 2 ^ 64 := by
  obtain ⟨_, _, ⟨zero, _⟩ | hc⟩ := findAndClaim_cases word firstUsed done
  · omega
  have bound := hc.placed.end_le hc.positive
  have size := hc.placed.size_pos hc.positive
  simp only at bound size
  omega

end

end

end

section

variable (few : mgr.numStatusBytes < 2 ^ 32)

include few

private lemma next_region {addr : Nat}
    (tracked : gbOf addr < mgr.numStatusBytes) :
    wadd addr regionSize / regionSize % 2 ^ 41 = addr / regionSize % 2 ^ 41 + 1 := by
  unfold gbOf gigabyte at tracked
  unfold wadd regionSize
  omega

lemma findRun_ne_endless {numRegions : Nat} (fuel : Nat) :
    ∀ {addr result remaining : Nat}, 2 ^ 41 ≤ fuel + addr / regionSize % 2 ^ 41 →
      mgr.findRun numRegions fuel addr result remaining ≠ .endless := by
  induction fuel with
  | zero =>
    omega
  | succ fuel ih =>
    intro addr result remaining he
    rw [findRun]
    split
    case isFalse => simp
    rename_i tracked
    have ha := next_region few tracked.1
    split
    · split
      · simp
      · exact ih (by omega)
    · exact ih (by omega)

lemma findSize_ne_endless {blockSize : BlockSize} (fuel : Nat) :
    ∀ {addr : Nat}, 2 ^ 41 ≤ fuel + addr / regionSize % 2 ^ 41 →
      mgr.findSize blockSize fuel addr ≠ .endless := by
  induction fuel with
  | zero =>
    omega
  | succ fuel ih =>
    intro addr he
    rw [findSize]
    split
    case isFalse => simp
    rename_i tracked
    have ha := next_region few tracked
    split
    · simp
    · exact ih (by omega)

end

lemma claimRun_returns {last : Nat} (room : last + regionSize < 2 ^ 64) (fuel : Nat) :
    ∀ (mgr : KernelMemoryMgr) {addr : Nat}, last < addr + fuel * regionSize →
      claimRun (fuel + 1) mgr addr last ≠ none := by
  induction fuel with
  | zero =>
    intro mgr addr _
    have hb : ¬ addr ≤ last := by omega
    rw [claimRun, if_neg hb]
    simp
  | succ fuel ih =>
    intro mgr addr he
    rw [claimRun]
    split
    · rename_i below
      apply ih
      rw [wadd_of_lt (by omega)]
      unfold regionSize at he ⊢
      omega
    · simp

/-- The search ends. -/
lemma searchOnce_ne_none (mgr : KernelMemoryMgr) (few : mgr.numStatusBytes < 2 ^ 32)
    (word : mgr.watermark < 2 ^ 64) (size : Nat) : mgr.searchOnce size ≠ none := by
  have haw : upToNearest mgr.watermark regionSize < 2 ^ 64 := upToNearest_lt word
  have haa : upToNearest mgr.watermark regionSize % regionSize = 0 :=
    upToNearest_mod_eq_zero (by decide)
  have he : 2 ^ 41 ≤ scanFuel + upToNearest mgr.watermark regionSize / regionSize % 2 ^ 41 := by
    unfold scanFuel
    omega
  unfold searchOnce
  simp only
  split
  · split
    · rename_i endless
      exact absurd endless (findRun_ne_endless few scanFuel he)
    · simp
    rename_i result last scanned
    obtain ⟨_, _, hsr, hle, free⟩ := findRun_found scanFuel haw haw haa haa le_rfl (by
          rw [Nat.sub_self, zero_mul, add_zero]
          exact (Nat.mod_eq_of_lt haw).symm)
        (fun _ _ => by omega) scanned
    have hlt : gbOf last < mgr.numStatusBytes := by
      rw [hle, gbOf_mod]
      exact (free _ (Nat.sub_one_lt_of_lt hsr)).1
    have room : last + regionSize < 2 ^ 64 := by
      unfold gbOf gigabyte at hlt
      unfold regionSize
      omega
    have her : last < result + (2 ^ 44 - 1) * regionSize := by
      unfold regionSize at room ⊢
      omega
    have hr : claimRun scanFuel mgr result last ≠ none := by
      unfold scanFuel
      exact claimRun_returns room (2 ^ 44 - 1) mgr her
    split
    · rename_i never
      exact absurd never hr
    · simp
  split
  · rename_i endless
    exact absurd endless (findSize_ne_endless few scanFuel he)
  · simp
  · simp

/-- `__find_and_claim` returns whenever the table has fewer than `2 ^ 32` entries. -/
lemma findAndClaim_returns (few : mgr.numStatusBytes < 2 ^ 32) (word : mgr.watermark < 2 ^ 64)
    (size : Nat) : ∃ start after, mgr.findAndClaim size = some (start, after) := by
  have first := searchOnce_ne_none mgr few word size
  unfold findAndClaim
  rw [findAndClaimWithin]
  split
  · rename_i never
    exact absurd never first
  · rename_i claimed _
    exact ⟨claimed.1, claimed.2, rfl⟩
  split
  · have second : ∀ reset < 2 ^ 64, searchOnce { mgr with watermark := reset } size ≠ none :=
      fun reset resetWord => searchOnce_ne_none { mgr with watermark := reset } few resetWord size
    rw [findAndClaimWithin]
    split
    · rename_i never
      exact absurd never (second _ (wadd_lt _ _))
    · rename_i claimed _
      exact ⟨claimed.1, claimed.2, rfl⟩
    simp only [resetMark_setWatermark, gt_iff_lt, lt_irrefl, ↓reduceIte]
    exact ⟨0, _, rfl⟩
  · exact ⟨0, mgr, rfl⟩

end KernelMemoryMgr

end OoOS.Mm
