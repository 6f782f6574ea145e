import OoOS.Lib.Machine
import OoOS.Lib.Ownership
import OoOS.Mm.Stage1Search

/-!
# Runs of stage 1

Claims and releases in any order, with the watermark moved freely in between:
over every run the status bytes are exactly the start-up bits together with
the bits of the live claims.
-/

namespace OoOS.Mm

open Lib Libk KernelMemoryMgr

structure Stage1 where
  mgr : KernelMemoryMgr
  live : List Claim

/-- What the callers of stage 1 do: claim, release one of their claims, and
move the watermark. -/
inductive Stage1Op where
  | claim (size : Nat)
  | release (position size : Nat)
  | setWatermark (addr : Nat)
  deriving DecidableEq, Repr

/-- A release must name a live claim and a size of its size class; sizes are
words. -/
def Stage1.step (state : Stage1) : Stage1Op → Option Stage1
  | .claim size =>
    if size < 2 ^ 64 then
      match state.mgr.findAndClaim size with
      | none => none
      | some (start, mgr) =>
        if start = 0 then some { state with mgr := mgr }
        else some { mgr := mgr, live := state.live ++ [⟨start, size⟩] }
    else none
  | .release position size =>
    match state.live[position]? with
    | none => none
    | some claim =>
      if size < 2 ^ 64 ∧ regionSizeFor size = regionSizeFor claim.size then
        some
          { mgr := state.mgr.releaseRegion size claim.start
            live := state.live.eraseIdx position }
      else none
  | .setWatermark addr => some { state with mgr.watermark := addr % 2 ^ 64 }

/-- The state `init_instance` leaves: nothing claimed, and the region at
address 0 marked used. -/
structure StartUp where
  mgr : KernelMemoryMgr
  watermark_lt : mgr.watermark < 2 ^ 64
  firstRegion_used : mgr.status 0 = ⟨BlockIdx.ALL.mask⟩

def StartUp.stage1 (start : StartUp) : Stage1 := { mgr := start.mgr, live := [] }

structure Stage1.Consistent (start : StartUp) (state : Stage1) : Prop where
  watermark_lt : state.mgr.watermark < 2 ^ 64
  sameTable : SameTable start.mgr state.mgr
  owns : Owns Claim.bits start.mgr.usedBits state.mgr.usedBits state.live
  placed : ∀ claim ∈ state.live, claim.Placed ∧ 0 < claim.start

variable {start : StartUp} {state next : Stage1}

lemma StartUp.regionBits_subset (start : StartUp) : regionBits 0 ⊆ start.mgr.usedBits := by
  rintro ⟨gb, sb, _⟩ ⟨small, gbEq, sbEq⟩
  refine ⟨small, ?_⟩
  have inUse := start.firstRegion_used
  subst gbEq sbEq
  rw [status] at inUse
  simp only [inUse, StatusByte.used]
  exact BlockIdx.mask_all_getLsbD small

lemma Stage1.Consistent.firstUsed (consistent : state.Consistent start) :
    regionBits 0 ⊆ state.mgr.usedBits :=
  start.regionBits_subset.trans consistent.owns.reserved_subset

lemma StartUp.consistent (start : StartUp) : start.stage1.Consistent start where
  watermark_lt := start.watermark_lt
  sameTable := ⟨rfl, rfl⟩
  owns := Owns.empty
  placed := by simp [StartUp.stage1]

lemma Stage1.Consistent.claim (consistent : state.Consistent start)
    {size : Nat} (taken : state.step (.claim size) = some next) : next.Consistent start := by
  simp only [Stage1.step] at taken
  split at taken
  case isFalse => cases taken
  split at taken
  · cases taken
  rename_i addr mgr done
  obtain ⟨table, _, outcome⟩ := findAndClaim_cases consistent.watermark_lt consistent.firstUsed done
  have word := findAndClaim_watermark_lt consistent.watermark_lt consistent.firstUsed done
  have hst : SameTable start.mgr mgr :=
    ⟨table.1.trans consistent.sameTable.1, table.2.trans consistent.sameTable.2⟩
  rcases outcome with ⟨rfl, hsby⟩ | hcl
  · rw [if_pos rfl] at taken
    cases taken
    have hsb : mgr.usedBits = state.mgr.usedBits := by simp [usedBits, hsby]
    exact ⟨word, hst, hsb ▸ consistent.owns, consistent.placed⟩
  have pos : addr ≠ 0 := Nat.pos_iff_ne_zero.mp hcl.positive
  rw [if_neg pos] at taken
  cases taken
  refine ⟨word, hst, ?_, ?_⟩
  · rw [hcl.marked]
    exact consistent.owns.acquire hcl.unmarked
  intro claim mem
  rcases List.mem_append.mp mem with old | new
  · exact consistent.placed claim old
  rw [List.mem_singleton.mp new]
  exact ⟨hcl.placed, hcl.positive⟩

lemma KernelMemoryMgr.releaseRegion_frame (mgr : KernelMemoryMgr) (size start : Nat) :
    SameTable mgr (mgr.releaseRegion size start) ∧
      (mgr.releaseRegion size start).watermark = mgr.watermark := by
  unfold releaseRegion
  split
  · exact updateRegions_frame _ _ _ _
  · exact ⟨⟨rfl, rfl⟩, rfl⟩

section

variable (consistent : state.Consistent start)

include consistent

lemma Stage1.Consistent.release {position size : Nat}
    (taken : state.step (.release position size) = some next) : next.Consistent start := by
  simp only [Stage1.step] at taken
  split at taken
  · cases taken
  rename_i claim found
  split at taken
  case isFalse => cases taken
  rename_i sameClass
  cases taken
  have mem := List.mem_of_getElem? found
  obtain ⟨hp, positive⟩ := consistent.placed claim mem
  obtain ⟨table, watermark⟩ := state.mgr.releaseRegion_frame size claim.start
  refine ⟨?_, ?_, ?_, ?_⟩
  · exact watermark ▸ consistent.watermark_lt
  · exact ⟨table.1.trans consistent.sameTable.1, table.2.trans consistent.sameTable.2⟩
  · rw [usedBits_releaseRegion hp sameClass.1 sameClass.2 positive]
    exact consistent.owns.release found
  intro other remaining
  exact consistent.placed other (List.mem_of_mem_eraseIdx remaining)

lemma Stage1.Consistent.setWatermark {mark : Nat} (word : mark < 2 ^ 64) :
    Stage1.Consistent start { state with mgr.watermark := mark } :=
  ⟨word, consistent.sameTable, consistent.owns, consistent.placed⟩

lemma Stage1.Consistent.step {op : Stage1Op}
    (taken : state.step op = some next) : next.Consistent start := by
  cases op with
  | claim size => exact consistent.claim taken
  | release _ size => exact consistent.release taken
  | setWatermark _ =>
    cases taken
    exact consistent.setWatermark (Nat.mod_lt _ (by decide))

end

lemma Stage1.Consistent.run {ops : List Stage1Op} {final : Stage1}
    (reached : run Stage1.step start.stage1 ops = some final) : final.Consistent start :=
  run_invariant_of_step (fun _ _ _ holds taken => holds.step taken) start.consistent reached

lemma Claim.not_contains_of_disjoint {left right : Claim} {addr : Nat}
    (disjoint : Disjoint left.bits right.bits) (inLeft : left.Contains addr) :
    ¬ right.Contains addr :=
  fun hir => Set.disjoint_left.mp disjoint ⟨addr, inLeft, rfl⟩ ⟨addr, hir, rfl⟩

/-- The live claims are disjoint from each other and from what start-up marked,
and the status bytes are the bits of both. -/
theorem stage1_table_exact (start : StartUp) (ops : List Stage1Op) (final : Stage1)
    (reached : run Stage1.step start.stage1 ops = some final) :
    final.live.Pairwise (fun left right => ∀ addr, left.Contains addr → ¬ right.Contains addr) ∧
      (∀ claim ∈ final.live, ∀ addr, claim.Contains addr →
        addr < 2 ^ 64 ∧ bitOf addr ∉ start.mgr.usedBits) ∧
      final.mgr.usedBits = start.mgr.usedBits ∪ {bit | ∃ claim ∈ final.live, bit ∈ claim.bits} ∧
      (∀ claim ∈ final.live, ∀ size < 2 ^ 64,
        regionSizeFor size = regionSizeFor claim.size → claim.bits ⊆ final.mgr.usedBits ∧
          (final.mgr.releaseRegion size claim.start).usedBits = final.mgr.usedBits \ claim.bits) ∧
      (∀ size < 2 ^ 64, ∀ addr after, final.mgr.findAndClaim size = some (addr, after) → addr ≠ 0 →
        Disjoint (Claim.bits ⟨addr, size⟩) final.mgr.usedBits ∧ after.usedBits =
            final.mgr.usedBits ∪ Claim.bits ⟨addr, size⟩) := by
  have hc := Stage1.Consistent.run reached
  refine ⟨?_, ?_, hc.owns.exact, ?_, ?_⟩
  · exact hc.owns.apart.imp (fun hd addr => Claim.not_contains_of_disjoint hd)
  · intro claim member addr hin
    obtain ⟨hp, positive⟩ := hc.placed claim member
    refine ⟨lt_of_lt_of_le hin.2 (hp.end_le positive), ?_⟩
    exact Set.disjoint_left.mp (hc.owns.fresh claim member) ⟨addr, hin, rfl⟩
  · intro claim member size word hsc
    obtain ⟨hp, positive⟩ := hc.placed claim member
    exact ⟨hc.owns.cells_subset member, usedBits_releaseRegion hp word hsc positive final.mgr⟩
  intro size _ addr after returned hn
  obtain ⟨_, _, ⟨zero, _⟩ | hcl⟩ := findAndClaim_cases hc.watermark_lt hc.firstUsed returned
  · exact absurd zero hn
  · exact ⟨hcl.unmarked, hcl.marked⟩

def gigabyteStartUp : StartUp where
  mgr :=
    { statusBytes := fun gb sb =>
        if gb = 0 ∧ sb = 0 then ⟨BlockIdx.ALL.mask⟩ else ⟨0⟩
      numStatusBytes := 1
      kernelHeapBegin := 0x200000
      watermark := 0x200000 }
  watermark_lt := by decide
  firstRegion_used := rfl

/-- Both four-page blocks of a region, two whole regions, and a release. -/
theorem stage1_table_exact_gigabyte : ∃ final, run Stage1.step gigabyteStartUp.stage1
        [.claim 16000, .claim 5000, .claim 0x300000, .release 0 1] = some final ∧
    final.live = [⟨0x204000, 5000⟩, ⟨0x400000, 0x300000⟩] ∧ final.mgr.usedBits =
      gigabyteStartUp.mgr.usedBits ∪ {bit | ∃ claim ∈ final.live, bit ∈ claim.bits} := by
  have hc : (run Stage1.step gigabyteStartUp.stage1
          [.claim 16000, .claim 5000, .claim 0x300000, .release 0 1]).map
        Stage1.live = some [⟨0x204000, 5000⟩, ⟨0x400000, 0x300000⟩] := by
    decide +kernel
  obtain ⟨final, hr, live⟩ := Option.map_eq_some_iff.mp hc
  exact ⟨final, hr, live, (stage1_table_exact gigabyteStartUp _ final hr).2.2.1⟩

end OoOS.Mm
