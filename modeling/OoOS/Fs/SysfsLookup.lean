import OoOS.Fs.SysfsReload

/-!
# Lookups in extent trees

`__find_from` halves its step from the middle of a branch and does not compare again
when the step is used up.
-/

namespace OoOS.Fs.Sysfs

abbrev Extent.Behind (idx : Nat) (e : Extent) : Prop := idx < e.ordinal ∨ e.start = 0

namespace Branch

variable (b : Branch) (idx : Nat)

def entry (pos : Nat) : Extent := b.entries.getD pos {}

/-- Where `__find_from` ends in one branch. -/
def findPos : Nat := turn b.entries idx (turn b.entries idx 3 2) 1

/-- The first `n` of the seven entries are used, in the order of their ordinals. -/
structure Filled (depth lo n : Nat) : Prop where
  depth : b.depth = depth
  few : 0 < n ∧ n ≤ 7
  first : (b.entry 0).ordinal = lo
  linked : ∀ i < n, (b.entry i).start ≠ 0
  free : ∀ i ≤ 7, n ≤ i → b.entry i = {}
  sorted : ∀ j < n, ∀ i < j, (b.entry i).ordinal < (b.entry j).ordinal

/-- The ordinal at which an entry ends. -/
def limit (n hi i : Nat) : Nat := if i + 1 < n then (b.entry (i + 1)).ordinal else hi

/-- The entry is the last that is not behind the block. -/
def Holds (k : Nat) : Prop :=
  k < 7 ∧ ¬ (b.entry k).Behind idx ∧ (b.entry (k + 1)).Behind idx

end Branch

variable (branches : List Branch) (idx : Nat)

/-- The search for a block of the tree below the extent. -/
def findBelow (depth : Nat) (e : Extent) : Option Extent :=
  if depth = 0 then some e else findFrom branches idx (depth + 1) e.start

/-- The tree below an extent holds the blocks up to `hi`. -/
def WellFormed : (depth : Nat) → (e : Extent) → (hi : Nat) → Prop
  | 0, e, hi => e.ordinal + e.length = hi
  | depth + 1, e, hi => ∃ b n, getBranch branches e.start = some b ∧ b.Filled depth e.ordinal n ∧
    ∀ i < n, WellFormed depth (b.entry i) (b.limit n hi i)

/-- On the way to the block, the entries that hold it stand at even positions. -/
def EvenPath : (depth : Nat) → (e : Extent) → Prop
  | 0, _ => True
  | depth + 1, e => ∃ b k, getBranch branches e.start = some b ∧ b.Holds idx k ∧ k % 2 = 0 ∧
    EvenPath depth (b.entry k)

variable {branches idx} {b : Branch} {depth lo hi n k : Nat} {e : Extent}

namespace Branch.Filled

variable (filled : b.Filled depth lo n)

include filled

variable {pos : Nat}

lemma behind_mono {i : Nat} (le : i ≤ pos) (inNode : pos ≤ 7) (behind : (b.entry i).Behind idx) :
    (b.entry pos).Behind idx := by
  by_cases hn : pos < n
  · have hs := behind.resolve_right (filled.linked i (by omega))
    rcases eq_or_lt_of_le le with rfl | hlt
    · exact behind
    · exact .inl (hs.trans (filled.sorted pos hn i hlt))
  · rw [filled.free pos inNode (by omega)]
    exact .inr rfl

lemma behind_iff (holds : b.Holds idx k) (inNode : pos ≤ 7) :
    (b.entry pos).Behind idx ↔ k < pos := by
  constructor
  · intro hb
    by_contra hn
    exact holds.2.1 (filled.behind_mono (by omega) (by have := holds.1; omega) hb)
  · exact fun hlt => filled.behind_mono hlt inNode holds.2.2

lemma holds_unique {other : Nat} (holds : b.Holds idx k) (otherHolds : b.Holds idx other) :
    k = other := by
  have hlt := (filled.behind_iff holds otherHolds.1).mp otherHolds.2.2
  have hle := mt (filled.behind_iff holds (le_of_lt otherHolds.1)).mpr otherHolds.2.1
  omega

lemma lt_of_holds (holds : b.Holds idx k) : k < n := by
  by_contra hn
  exact holds.2.1 (.inr (by rw [filled.free k (le_of_lt holds.1) (by omega)]))

lemma turn_eq (holds : b.Holds idx k) (inNode : pos ≤ 7) (incr : Nat) :
    turn b.entries idx pos incr = if k < pos then pos - incr else pos + incr :=
  ite_congr (propext (filled.behind_iff holds inNode)) (fun _ => rfl) (fun _ => rfl)

lemma findPos_eq (holds : b.Holds idx k) : b.findPos idx = k + k % 2 := by
  have hl := holds.1
  rw [findPos, filled.turn_eq holds (show 3 ≤ 7 by decide)]
  split
  all_goals
    rw [filled.turn_eq holds (by decide)]
    split <;> omega

lemma exists_holds (lower : lo ≤ idx) : ∃ k, b.Holds idx k := by
  have few := filled.few
  have last : (b.entry n).Behind idx := .inr (by rw [filled.free n few.2 (le_refl n)])
  have hb : ∃ pos, (b.entry pos).Behind idx := ⟨n, last⟩
  have hn := Nat.find_min' hb last
  have h0 : ¬ (b.entry 0).Behind idx := by
    rw [Extent.Behind, filled.first, not_or]
    exact ⟨not_lt.mpr lower, filled.linked 0 few.1⟩
  obtain ⟨k, hk⟩ : ∃ k, Nat.find hb = k + 1 := Nat.exists_eq_succ_of_ne_zero fun hz =>
    h0 (hz ▸ Nat.find_spec hb)
  exact ⟨k, by omega, Nat.find_min hb (by omega), hk ▸ Nat.find_spec hb⟩

end Branch.Filled

open Branch

lemma findBelow_succ (isBranch : getBranch branches e.start = some b) (isDepth : b.depth = depth) :
    findBelow branches idx (depth + 1) e =
      findBelow branches idx depth (b.entry (b.findPos idx)) := by
  subst isDepth
  rw [findBelow, if_neg (Nat.succ_ne_zero _), findFrom, isBranch]
  rfl

/-- A search for a block before the tree ends at its first extent. -/
lemma WellFormed.findBelow_before (wf : WellFormed branches depth e hi)
    (isBefore : idx < e.ordinal) :
    ∃ found, findBelow branches idx depth e = some found ∧ idx < found.ordinal := by
  induction depth generalizing e hi with
  | zero => exact ⟨e, rfl, isBefore⟩
  | succ depth ih =>
    obtain ⟨b, n, hb, hf, below⟩ := wf
    have hall (pos : Nat) (hp : pos ≤ 7) : (b.entry pos).Behind idx :=
      hf.behind_mono (Nat.zero_le pos) hp (.inl (hf.first ▸ isBefore))
    have hpos : b.findPos idx = 0 := by
      have first : turn b.entries idx 3 2 = 1 := if_pos (hall 3 (by decide))
      rw [findPos, first]
      exact if_pos (hall 1 (by decide))
    rw [findBelow_succ hb hf.depth, hpos]
    exact ih (below 0 hf.few.1) (hf.first ▸ isBefore)

/-- The search finds the block on paths of even positions. -/
lemma WellFormed.findBelow_iff (wf : WellFormed branches depth e hi) (lower : e.ordinal ≤ idx)
    (upper : idx < hi) : (∃ found, findBelow branches idx depth e = some found ∧
        found.ordinal ≤ idx ∧ idx < found.ordinal + found.length) ↔
          EvenPath branches idx depth e := by
  induction depth generalizing e hi with
  | zero => simp_all [findBelow, EvenPath, WellFormed]
  | succ depth ih =>
    obtain ⟨b, n, hb, hf, below⟩ := wf
    obtain ⟨k, hk⟩ := hf.exists_holds lower
    have hkn := hf.lt_of_holds hk
    have path : EvenPath branches idx (depth + 1) e ↔
        k % 2 = 0 ∧ EvenPath branches idx depth (b.entry k) := by
      constructor
      · rintro ⟨_, _, hs, ho, even, hp⟩
        obtain rfl := Option.some.inj (hb.symm.trans hs)
        obtain rfl := hf.holds_unique hk ho
        exact ⟨even, hp⟩
      · exact fun hp => ⟨b, k, hb, hk, hp⟩
    rw [findBelow_succ hb hf.depth, hf.findPos_eq hk, path]
    rcases Nat.mod_two_eq_zero_or_one k with even | odd
    · have hl : idx < b.limit n hi k := by
        rw [limit]
        split
        · rename_i hn
          exact hk.2.2.resolve_right (hf.linked _ hn)
        · exact upper
      rw [even, Nat.add_zero, ih (below k hkn) (not_lt.mp (not_or.mp hk.2.1).1) hl]
      simp
    rw [odd]
    refine iff_of_false ?_ (by simp)
    rintro ⟨found, hfi, ho, hlt⟩
    by_cases hn : k + 1 < n
    · obtain ⟨_, hs, hb⟩ := (below (k + 1) hn).findBelow_before
        (hk.2.2.resolve_right (hf.linked _ hn))
      obtain rfl := Option.some.inj (hfi.symm.trans hs)
      omega
    rw [hf.free _ hk.1 (by omega)] at hfi
    cases depth with
    | zero =>
      cases hfi
      cases hlt
    | succ => cases hfi

/-- The search reaches no entry at an odd position. -/
theorem extentAt_iff (o : Object) (wf : WellFormed branches o.rootDepth o.root o.total)
    (lower : o.root.ordinal ≤ idx) (upper : idx < o.total) :
    (∃ e, o.extentAt branches idx = some e ∧
        e.ordinal ≤ idx ∧ idx < e.ordinal + e.length) ↔
      EvenPath branches idx o.rootDepth o.root := by
  rw [Object.extentAt, if_neg (not_le.mpr upper)]
  exact wf.findBelow_iff lower upper

/-- The third of three blocks. -/
theorem extentAt_iff_third : ∃ e,
      ({ rootDepth := 1, root := ⟨0, 3, 1⟩, total := 3 } : Object).extentAt
        [{ entries := ⟨0, 1, 1⟩ :: ⟨1, 1, 2⟩ :: ⟨2, 1, 3⟩ :: unused 4 }] 2 = some e ∧
          e.ordinal ≤ 2 ∧ 2 < e.ordinal + e.length := by
  refine (extentAt_iff _ ?_ (by decide) (by decide)).mpr ?_
  · refine ⟨_, 3, rfl, ⟨rfl, by decide, rfl, by decide, by decide, by decide⟩, ?_⟩
    intro i inUse
    match i with
    | 0 | 1 | 2 => rfl
  · exact ⟨_, 2, rfl, ⟨by decide, by decide, by decide⟩, rfl, trivial⟩

/-- The second of two blocks: the search ends behind them. -/
theorem extentAt_second : ({ rootDepth := 1, root := ⟨0, 2, 1⟩, total := 2 } : Object).extentAt
    [{ entries := ⟨0, 1, 1⟩ :: ⟨1, 1, 2⟩ :: unused 5 }] 1 = some {} := by
  decide

end OoOS.Fs.Sysfs
