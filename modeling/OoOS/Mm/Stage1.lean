import Mathlib.Data.Set.Lattice
import OoOS.Mm.Layout

/-!
# Stage 1: the region bitmap

`kernel_memory_mgr` keeps one status byte per 512-page region.  Addresses
advance modulo `2 ^ 64`; a scan that is not over after `2 ^ 44` rounds never ends.
-/

namespace OoOS.Mm

open Libk Set BlockSize

structure KernelMemoryMgr where
  statusBytes : Nat → Nat → StatusByte
  numStatusBytes : Nat
  kernelHeapBegin : Nat
  watermark : Nat

inductive Scan where
  | found (first last : Nat)
  | exhausted
  | endless
  deriving DecidableEq, Repr

@[irreducible]
def scanFuel : Nat := 2 ^ 44

namespace KernelMemoryMgr

def status (mgr : KernelMemoryMgr) (addr : Nat) : StatusByte :=
  mgr.statusBytes (gbOf addr) (sbOf addr)

def updateStatus (mgr : KernelMemoryMgr) (addr : Nat)
    (change : StatusByte → StatusByte) : KernelMemoryMgr :=
  { mgr with
    statusBytes := fun gb sb =>
      if gb = gbOf addr ∧ sb = sbOf addr then change (mgr.statusBytes gb sb)
      else mgr.statusBytes gb sb }

/-- The loop `for(i = 0; i < n; i++, addr += region_size)` over status
bytes. -/
def updateRegions (change : StatusByte → StatusByte) : Nat → KernelMemoryMgr → Nat → KernelMemoryMgr
  | 0, mgr, _ => mgr
  | count + 1, mgr, addr =>
    updateRegions change count (mgr.updateStatus addr change)
      (wadd addr regionSize)

def markUsed (mgr : KernelMemoryMgr) (start numRegions : Nat) : KernelMemoryMgr :=
  updateRegions (·.setUsed .ALL) numRegions mgr start

def claimRegion (mgr : KernelMemoryMgr) (addr : Nat) (idx : BlockIdx) : Nat × KernelMemoryMgr :=
  (blockOffset addr idx, mgr.updateStatus addr (·.setUsed idx))

/-- The first loop of `__find_and_claim`: look for `numRegions` free regions
in a row. -/
def findRun (mgr : KernelMemoryMgr) (numRegions : Nat) : (fuel addr result remaining : Nat) → Scan
  | 0, _, _, _ => .endless
  | fuel + 1, addr, result, remaining =>
    if gbOf addr < mgr.numStatusBytes ∧ remaining > 0 then
      if (mgr.status addr).allFree then
        if remaining - 1 = 0 then .found result addr
        else
          findRun mgr numRegions fuel (wadd addr regionSize) result
            (remaining - 1)
      else
        findRun mgr numRegions fuel (wadd addr regionSize)
          (wadd addr regionSize) numRegions
    else .exhausted

/-- `for(i = result; i <= addr; i += region_size) __status(i).set_used(ALL)`;
`none` when the loop never ends. -/
def claimRun : (fuel : Nat) → KernelMemoryMgr → (addr last : Nat) → Option KernelMemoryMgr
  | 0, _, _, _ => none
  | fuel + 1, mgr, addr, last =>
    if addr ≤ last then
      claimRun fuel (mgr.updateStatus addr (·.setUsed .ALL))
        (wadd addr regionSize) last
    else some mgr

/-- The second loop of `__find_and_claim`: look for a region with a free block
of the size. -/
def findSize (mgr : KernelMemoryMgr) (blockSize : BlockSize) : (fuel addr : Nat) → Scan
  | 0, _ => .endless
  | fuel + 1, addr =>
    if gbOf addr < mgr.numStatusBytes then
      if (mgr.status addr).hasSize blockSize then .found addr addr
      else findSize mgr blockSize fuel (wadd addr regionSize)
    else .exhausted

def claimIdx (status : StatusByte) : BlockSize → BlockIdx
  | .S04 => if status.hasFree .I7 then .I7 else .I6
  | .S08 => .I5
  | .S16 => .I4
  | .S32 => .I3
  | .S64 => .I2
  | .S128 => .I1
  | _ => .I0

/-- One search of `__find_and_claim` from the watermark: `none` when it never
ends, `some none` when the end of the table is reached. -/
def searchOnce (mgr : KernelMemoryMgr) (size : Nat) : Option (Option (Nat × KernelMemoryMgr)) :=
  let addr := upToNearest mgr.watermark regionSize
  if size > BlockSize.S256.bytes then
    let numRegions := divRoundUp size regionSize
    match mgr.findRun numRegions scanFuel addr addr numRegions with
    | .endless => none
    | .exhausted => some none
    | .found result last =>
      match claimRun scanFuel mgr result last with
      | none => none
      | some marked => some (some (result, marked))
  else
    match mgr.findSize (nearest size) scanFuel addr with
    | .endless => none
    | .exhausted => some none
    | .found region _ =>
      some (some (mgr.claimRegion region
        (claimIdx (mgr.status region) (nearest size))))

def resetMark (mgr : KernelMemoryMgr) : Nat := wadd mgr.kernelHeapBegin mgr.numStatusBytes

@[simp]
lemma resetMark_setWatermark (mgr : KernelMemoryMgr) (mark : Nat) :
    resetMark { mgr with watermark := mark } = mgr.resetMark :=
  rfl

/-- `__find_and_claim` with a bound on the nesting of its calls to itself. -/
def findAndClaimWithin : (calls : Nat) → KernelMemoryMgr → Nat → Option (Nat × KernelMemoryMgr)
  | 0, _, _ => none
  | calls + 1, mgr, size =>
    match mgr.searchOnce size with
    | none => none
    | some (some claimed) => some claimed
    | some none =>
      if mgr.watermark > mgr.resetMark then
        findAndClaimWithin calls { mgr with watermark := mgr.resetMark }
          size
      else some (0, mgr)

/-- `__find_and_claim`: 0 when nothing is free, `none` when the call never
returns. -/
def findAndClaim (mgr : KernelMemoryMgr) (size : Nat) : Option (Nat × KernelMemoryMgr) :=
  findAndClaimWithin 2 mgr size

def releaseIdx (start : Nat) : BlockSize → BlockIdx
  | .S256 => .I0
  | .S128 => .I1
  | .S64 => .I2
  | .S32 => .I3
  | .S16 => .I4
  | .S08 => .I5
  | _ => if start % regionSize = 0 then .I7 else .I6

def releaseRegion (mgr : KernelMemoryMgr) (size start : Nat) : KernelMemoryMgr :=
  if size > BlockSize.S256.bytes then
    updateRegions (·.setFree .ALL) (divRoundUp size regionSize) mgr start
  else
    mgr.updateStatus start (·.setFree (releaseIdx start (nearest size)))

def usedBits (mgr : KernelMemoryMgr) : Set StatusBit :=
  {bit | bit.slot < 8 ∧ (mgr.statusBytes bit.gb bit.sb).used bit.slot = true}

end KernelMemoryMgr

/-- A claim as its caller sees it: the address returned and the size asked. -/
structure Claim where
  start : Nat
  size : Nat
  deriving DecidableEq, Repr

def Claim.Contains (claim : Claim) (addr : Nat) : Prop :=
  claim.start ≤ addr ∧ addr < claim.start + regionSizeFor claim.size

instance Claim.decidableContains (claim : Claim) (addr : Nat) : Decidable (claim.Contains addr) :=
  inferInstanceAs (Decidable (_ ∧ _))

def Claim.bits (claim : Claim) : Set StatusBit :=
  {bit | ∃ addr, claim.Contains addr ∧ bitOf addr = bit}

def regionBits (addr : Nat) : Set StatusBit :=
  {bit | bit.slot < 8 ∧ bit.gb = gbOf addr ∧ bit.sb = sbOf addr}

def runBits (addr count : Nat) : Set StatusBit :=
  {bit | ∃ offset < count, bit ∈ regionBits (addr + offset * regionSize)}

lemma regionBits_wadd (addr offset : Nat) :
    regionBits (wadd addr regionSize + offset * regionSize) =
      regionBits (addr + (offset + 1) * regionSize) := by
  have hsg : gbOf (wadd addr regionSize + offset * regionSize) =
      gbOf (addr + (offset + 1) * regionSize) := by
    unfold gbOf wadd gigabyte regionSize
    omega
  have hss : sbOf (wadd addr regionSize + offset * regionSize) =
      sbOf (addr + (offset + 1) * regionSize) := by
    unfold sbOf wadd regionSize
    omega
  simp [regionBits, hsg, hss]

lemma runBits_zero (addr : Nat) : runBits addr 0 = ∅ := by
  ext bit
  simp [runBits]

lemma runBits_succ (addr count : Nat) :
    runBits addr (count + 1) = regionBits addr ∪ runBits (wadd addr regionSize) count := by
  ext bit
  simp only [runBits, regionBits_wadd, mem_ofPred_eq, mem_union]
  constructor
  · rintro ⟨offset, bound, mem⟩
    cases offset with
    | zero => exact .inl (by simpa using mem)
    | succ offset => exact .inr ⟨offset, by omega, mem⟩
  rintro (mem | ⟨offset, bound, mem⟩)
  · exact ⟨0, by omega, by simpa using mem⟩
  · exact ⟨offset + 1, by omega, mem⟩

namespace KernelMemoryMgr

variable (mgr : KernelMemoryMgr) (addr : Nat) {idx : BlockIdx}

lemma usedBits_setUsed (single : idx ≠ .ALL) :
    (mgr.updateStatus addr (·.setUsed idx)).usedBits =
      mgr.usedBits ∪ {⟨gbOf addr, sbOf addr, idx.bit⟩} := by
  ext ⟨gb, sb, slot⟩
  simp only [usedBits, updateStatus, mem_ofPred_eq, mem_union, mem_singleton_iff,
    StatusBit.mk.injEq]
  have bound := idx.bit_lt
  by_cases small : slot < 8
  · split
    · rw [StatusByte.used_setUsed _ single small]
      simp_all
    · simp_all
  have other : slot ≠ idx.bit := by omega
  simp [small, other]

lemma usedBits_setFree (single : idx ≠ .ALL) :
    (mgr.updateStatus addr (·.setFree idx)).usedBits =
      mgr.usedBits \ {⟨gbOf addr, sbOf addr, idx.bit⟩} := by
  ext ⟨gb, sb, slot⟩
  simp only [usedBits, updateStatus, mem_ofPred_eq, mem_sdiff, mem_singleton_iff,
    StatusBit.mk.injEq]
  by_cases small : slot < 8
  · split
    · rw [StatusByte.used_setFree _ single small]
      simp_all
    · simp_all
  · simp [small]

lemma usedBits_setUsed_all :
    (mgr.updateStatus addr (·.setUsed .ALL)).usedBits = mgr.usedBits ∪ regionBits addr := by
  ext ⟨gb, sb, slot⟩
  simp only [usedBits, updateStatus, regionBits, mem_ofPred_eq, mem_union]
  by_cases small : slot < 8
  · split
    · rw [StatusByte.used_setUsed_all _ small]
      simp_all
    · simp_all
  · simp [small]

lemma usedBits_setFree_all :
    (mgr.updateStatus addr (·.setFree .ALL)).usedBits = mgr.usedBits \ regionBits addr := by
  ext ⟨gb, sb, slot⟩
  simp only [usedBits, updateStatus, regionBits, mem_ofPred_eq, mem_sdiff]
  by_cases small : slot < 8
  · split
    · rw [StatusByte.used_setFree_all _ small]
      simp_all
    · simp_all
  · simp [small]

lemma usedBits_updateRegions_setUsed (count : Nat) : ∀ (mgr : KernelMemoryMgr) (addr : Nat),
    (updateRegions (·.setUsed .ALL) count mgr addr).usedBits =
      mgr.usedBits ∪ runBits addr count := by
  induction count with
  | zero =>
    simp [updateRegions, runBits_zero]
  | succ count ih =>
    intro mgr addr
    rw [updateRegions, ih, usedBits_setUsed_all, runBits_succ, union_assoc]

lemma usedBits_updateRegions_setFree (count : Nat) : ∀ (mgr : KernelMemoryMgr) (addr : Nat),
    (updateRegions (·.setFree .ALL) count mgr addr).usedBits =
      mgr.usedBits \ runBits addr count := by
  induction count with
  | zero =>
    simp [updateRegions, runBits_zero]
  | succ count ih =>
    intro mgr addr
    rw [updateRegions, ih, usedBits_setFree_all, runBits_succ, sdiff_sdiff]

end KernelMemoryMgr

/-- Where a claim can lie: one block of a region, or whole regions in a
row. -/
inductive Claim.Placed : Claim → Prop where
  | block {base size : Nat} {idx : BlockIdx}
      (single : idx ≠ .ALL)
      (aligned : base % regionSize = 0)
      (word : base < 2 ^ 64)
      (small : size ≤ BlockSize.S256.bytes)
      (sizeMatches : nearest size = idx.size) :
      Claim.Placed ⟨base + idx.offset, size⟩
  | regions {start size : Nat}
      (aligned : start % regionSize = 0)
      (large : size > BlockSize.S256.bytes)
      (fits : start + divRoundUp size regionSize * regionSize ≤ 2 ^ 64) :
      Claim.Placed ⟨start, size⟩

variable {base start size : Nat} {idx : BlockIdx}

lemma regionSizeFor_of_small (small : size ≤ BlockSize.S256.bytes) :
    regionSizeFor size = (nearest size).bytes := by
  have hnl : ¬ size > BlockSize.S512.bytes := by
    have ho : BlockSize.S256.bytes ≤ BlockSize.S512.bytes := by decide
    omega
  simp [regionSizeFor, hnl]

lemma regionSizeFor_of_large (large : size > BlockSize.S256.bytes)
    (fits : divRoundUp size regionSize * regionSize < 2 ^ 64) :
    regionSizeFor size = divRoundUp size regionSize * regionSize := by
  unfold regionSizeFor
  split
  · exact upToNearest_eq_of_fits fits
  rename_i bounded
  have whole : nearest size = .S512 := by
    simp only [bytes, pageSize] at large
    simp only [nearest, bytes, pageSize]
    grind
  have one : divRoundUp size regionSize = 1 := by
    simp only [bytes, pageSize] at large bounded
    unfold divRoundUp regionSize
    split <;> omega
  rw [whole, one]
  rfl

lemma regionSizeFor_eq_zero_of_wraps (word : size < 2 ^ 64)
    (wraps : ¬ divRoundUp size regionSize * regionSize < 2 ^ 64) : regionSizeFor size = 0 := by
  have hb : size ≤ divRoundUp size regionSize * regionSize ∧
      divRoundUp size regionSize * regionSize < size + regionSize :=
    divRoundUp_bounds size (by decide)
  have large : size > BlockSize.S512.bytes := by
    have value : BlockSize.S512.bytes = 2097152 := rfl
    unfold regionSize at hb wraps
    omega
  have he : divRoundUp size regionSize * regionSize = 2 ^ 64 := by
    unfold regionSize at hb wraps ⊢
    omega
  have hnm : size % regionSize ≠ 0 := by
    intro hm
    have hq : divRoundUp size regionSize = size / regionSize := by simp [divRoundUp, hm]
    rw [hq] at wraps
    unfold regionSize at wraps
    omega
  simp only [regionSizeFor, large, ↓reduceIte, upToNearest, hnm]
  rw [Nat.mul_comm, he]
  exact Nat.mod_self _

lemma bitOf_block (notAll : idx ≠ .ALL) (aligned : base % regionSize = 0) :
    bitOf (base + idx.offset) = ⟨gbOf base, sbOf base, idx.bit⟩ := by
  have hp : 0 < idx.size.bytes := by cases idx <;> decide
  obtain ⟨hsr, hssl⟩ := (mem_block_iff notAll aligned).mp ⟨le_refl _, Nat.lt_add_of_pos_right hp⟩
  obtain ⟨hsg, hss⟩ := statusIndex_eq_of_region hsr
  simp [bitOf, hsg, hss, hssl]

lemma Claim.bits_block (single : idx ≠ .ALL) (aligned : base % regionSize = 0)
    (small : size ≤ BlockSize.S256.bytes) (sizeMatches : nearest size = idx.size) :
    Claim.bits ⟨base + idx.offset, size⟩ = {⟨gbOf base, sbOf base, idx.bit⟩} := by
  ext bit
  simp only [Claim.bits, Claim.Contains, mem_ofPred_eq,
    regionSizeFor_of_small small, sizeMatches, mem_singleton_iff]
  constructor
  · rintro ⟨_, hin, rfl⟩
    obtain ⟨hsr, hssl⟩ := (mem_block_iff single aligned).mp hin
    obtain ⟨hsg, hss⟩ := statusIndex_eq_of_region hsr
    simp [bitOf, hsg, hss, hssl]
  rintro rfl
  have hp : 0 < idx.size.bytes := by cases idx <;> decide
  exact ⟨base + idx.offset, by omega, bitOf_block single aligned⟩

lemma exists_idx_of_slot {slot : Nat} (small : slot < 8) :
    ∃ idx : BlockIdx, idx ≠ .ALL ∧ idx.bit = slot := by
  have table : ∀ position : Fin 8, ∃ idx : BlockIdx, idx ≠ .ALL ∧ idx.bit = position := by
    intro position
    match position with
    | 0 => exact ⟨.I0, by decide, rfl⟩
    | 1 => exact ⟨.I1, by decide, rfl⟩
    | 2 => exact ⟨.I2, by decide, rfl⟩
    | 3 => exact ⟨.I3, by decide, rfl⟩
    | 4 => exact ⟨.I4, by decide, rfl⟩
    | 5 => exact ⟨.I5, by decide, rfl⟩
    | 6 => exact ⟨.I6, by decide, rfl⟩
    | 7 => exact ⟨.I7, by decide, rfl⟩
  exact table ⟨slot, small⟩

lemma exists_bitOf_eq (aligned : base % regionSize = 0) {bit : StatusBit}
    (mem : bit ∈ regionBits base)
    : ∃ addr, base ≤ addr ∧ addr < base + regionSize ∧ bitOf addr = bit := by
  obtain ⟨small, gbEq, sbEq⟩ := mem
  obtain ⟨idx, hs, bitEq⟩ := exists_idx_of_slot small
  have fits : idx.offset < regionSize := by cases idx <;> decide
  refine ⟨base + idx.offset, by omega, by omega, ?_⟩
  rw [bitOf_block hs aligned, bitEq, ← gbEq, ← sbEq]

lemma Claim.bits_regions (aligned : start % regionSize = 0) (large : size > BlockSize.S256.bytes)
    (fits : divRoundUp size regionSize * regionSize < 2 ^ 64) :
    Claim.bits ⟨start, size⟩ = runBits start (divRoundUp size regionSize) := by
  ext bit
  simp only [Claim.bits, Claim.Contains, runBits, mem_ofPred_eq, regionSizeFor_of_large large fits]
  constructor
  · rintro ⟨addr, hin, rfl⟩
    refine ⟨(addr - start) / regionSize, ?_, slotOf_lt addr, ?_⟩
    · unfold regionSize at hin ⊢
      omega
    apply statusIndex_eq_of_region
    unfold regionSize at aligned ⊢
    omega
  rintro ⟨offset, bound, mem⟩
  have hsa : (start + offset * regionSize) % regionSize = 0 := by
    unfold regionSize at aligned ⊢
    omega
  obtain ⟨addr, lower, upper, tracked⟩ := exists_bitOf_eq hsa mem
  refine ⟨addr, ?_, tracked⟩
  unfold regionSize at lower upper bound ⊢
  omega

variable {claim : Claim}

lemma Claim.Placed.end_le (placed : claim.Placed) (pos : 0 < claim.start) :
    claim.start + regionSizeFor claim.size ≤ 2 ^ 64 := by
  cases placed with
  | @block base size idx hs aligned word small sizeMatches =>
    have fits : idx.offset + idx.size.bytes ≤ regionSize := by cases idx <;> decide
    simp only [regionSizeFor_of_small small, sizeMatches]
    unfold regionSize at fits aligned
    omega
  | @regions start size aligned large fits =>
    have hps : 0 < start := pos
    simp only [regionSizeFor_of_large large (by omega)]
    exact fits

lemma Claim.Placed.size_pos (placed : claim.Placed) (pos : 0 < claim.start) :
    0 < regionSizeFor claim.size := by
  cases placed with
  | @block base size idx single aligned word small sizeMatches =>
    simp only [regionSizeFor_of_small small]
    exact bytes_nearest_pos size
  | @regions start size aligned large fits =>
    have hps : 0 < start := pos
    have count : 0 < divRoundUp size regionSize := divRoundUp_pos (by omega) (by decide)
    simp only [regionSizeFor_of_large large (by omega)]
    exact Nat.mul_pos count (by decide)

variable {released : Nat}

lemma nearest_ne_S512 (small : size ≤ BlockSize.S256.bytes) : nearest size ≠ .S512 := by
  simp only [bytes, pageSize] at small
  simp only [nearest, bytes, pageSize]
  grind

lemma BlockSize.bytes_injective {left right : BlockSize}
    (same : left.bytes = right.bytes) : left = right := by
  revert same
  cases left <;> cases right <;> decide

lemma BlockSize.bytes_lt_regionSize {blockSize : BlockSize}
    (part : blockSize ≠ .S512) : blockSize.bytes < regionSize := by
  cases blockSize
  case S512 => exact absurd rfl part
  all_goals decide

lemma regionSizeFor_cases (word : size < 2 ^ 64) :
    (size ≤ BlockSize.S256.bytes ∧ 0 < regionSizeFor size ∧ regionSizeFor size < regionSize) ∨
      (size > BlockSize.S256.bytes ∧ (regionSizeFor size = 0 ∨
          regionSizeFor size = divRoundUp size regionSize * regionSize)) := by
  by_cases small : size ≤ BlockSize.S256.bytes
  · left
    rw [regionSizeFor_of_small small]
    exact ⟨small, bytes_nearest_pos size, bytes_lt_regionSize (nearest_ne_S512 small)⟩
  right
  refine ⟨by omega, ?_⟩
  by_cases fits : divRoundUp size regionSize * regionSize < 2 ^ 64
  · exact .inr (regionSizeFor_of_large (by omega) fits)
  · exact .inl (regionSizeFor_eq_zero_of_wraps word fits)

open KernelMemoryMgr

lemma releaseIdx_eq (single : idx ≠ .ALL) (aligned : base % regionSize = 0) :
    releaseIdx (base + idx.offset) idx.size = idx := by
  obtain ⟨at7, at6, -⟩ := BlockIdx.offset_values
  cases idx
  case ALL => exact absurd rfl single
  case I6 =>
    have hin : (base + BlockIdx.I6.offset) % regionSize ≠ 0 := by
      unfold regionSize at aligned ⊢
      omega
    simp [releaseIdx, BlockIdx.size, hin]
  case I7 => simp [releaseIdx, BlockIdx.size, at7, aligned]
  all_goals rfl

/-- A release clears the bits of the claim. -/
lemma usedBits_releaseRegion (placed : claim.Placed) (word : released < 2 ^ 64)
    (sameClass : regionSizeFor released = regionSizeFor claim.size) (pos : 0 < claim.start)
    (mgr : KernelMemoryMgr) :
    (mgr.releaseRegion released claim.start).usedBits = mgr.usedBits \ claim.bits := by
  cases placed with
  | @block base size idx single aligned baseWord small sizeMatches =>
    have hcs := regionSizeFor_of_small small
    have part := bytes_lt_regionSize (nearest_ne_S512 small)
    have hps := bytes_nearest_pos size
    simp only [hcs] at sameClass
    rcases regionSizeFor_cases word with
      ⟨hrs, -, -⟩ | ⟨-, zero | whole⟩
    · rw [regionSizeFor_of_small hrs] at sameClass
      have hss : nearest released = idx.size := by
        rw [← sizeMatches]
        exact bytes_injective sameClass
      have hnl : ¬ released > BlockSize.S256.bytes := by omega
      obtain ⟨hsg, hssb, -⟩ := StatusBit.mk.inj (bitOf_block single aligned)
      rw [releaseRegion, if_neg hnl, hss]
      simp only [releaseIdx_eq single aligned]
      rw [usedBits_setFree _ _ single, hsg, hssb, Claim.bits_block single aligned small sizeMatches]
    · omega
    rw [whole] at sameClass
    unfold regionSize at sameClass part
    omega
  | @regions start size aligned large fits =>
    have hpst : 0 < start := pos
    have hcf : divRoundUp size regionSize * regionSize < 2 ^ 64 := by omega
    have hcs := regionSizeFor_of_large large hcf
    have hpc : 0 < divRoundUp size regionSize := divRoundUp_pos (by omega) (by decide)
    simp only [hcs] at sameClass
    have hh : divRoundUp released regionSize = divRoundUp size regionSize ∧
        released > BlockSize.S256.bytes := by
      rcases regionSizeFor_cases word with
        ⟨-, -, below⟩ | ⟨hrl, zero | whole⟩
      · unfold regionSize at *
        omega
      · unfold regionSize at *
        omega
      refine ⟨?_, hrl⟩
      rw [whole] at sameClass
      exact Nat.eq_of_mul_eq_mul_right (by decide) sameClass
    rw [releaseRegion, if_pos hh.2, hh.1,
      usedBits_updateRegions_setFree, Claim.bits_regions aligned large hcf]

end OoOS.Mm
