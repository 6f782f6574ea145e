import Mathlib.Tactic.Common

/-!
# Words made of halves

A word is a pair of halves, the low one first, down to bytes.  An operation on
one bit goes down to the byte that holds the bit; what it returns is whether that
byte, as a whole, was not zero.
-/

namespace OoOS.Lib

structure Half (α : Type) where
  lo : α
  hi : α
  deriving DecidableEq

namespace Half

variable {α : Type}

def update (width : Nat) (inner : α → Int → Bool × α) (word : Half α) (i : Int) : Bool × Half α :=
  if (width : Int) ≤ i then
    ((inner word.hi (i.tmod width)).1, { word with hi := (inner word.hi (i.tmod width)).2 })
  else
    ((inner word.lo (i.tmod width)).1, { word with lo := (inner word.lo (i.tmod width)).2 })

def bit (width : Nat) (view : α → Nat → Bool) (word : Half α) (n : Nat) : Bool :=
  if n < width then view word.lo n else view word.hi (n - width)

end Half

/-- An operation changes one bit, and returns whether a bit of the same byte was
set before. -/
structure Updates {α : Type} (width : Nat) (view : α → Nat → Bool)
    (change : Bool → Bool) (update : α → Int → Bool × α) : Prop where
  bit : ∀ word i n, i < width → n < width → view (update word (i : Nat)).2 n =
      if n = i then change (view word n) else view word n
  result : ∀ word i, i < width → ((update word (i : Nat)).1 = true ↔
      ∃ n < width, n / 8 = i / 8 ∧ view word n = true)

variable {α : Type} {width : Nat} {view : α → Nat → Bool}
  {change : Bool → Bool} {update : α → Int → Bool × α}

lemma Half.update_low (word : Half α) {i : Nat} (low : i < width) : word.update width update i =
      ((update word.lo i).1, { word with lo := (update word.lo i).2 }) := by
  have below : ¬ (width : Int) ≤ (i : Int) := by omega
  have same : (i : Int).tmod width = i := by rw [← Int.ofNat_tmod, Nat.mod_eq_of_lt low]
  unfold Half.update
  rw [if_neg below, same]

lemma Half.update_high (word : Half α) {i : Nat} (high : width ≤ i) (bound : i < 2 * width) :
    word.update width update i = ((update word.hi (i - width : Nat)).1,
        { word with hi := (update word.hi (i - width : Nat)).2 }) := by
  have above : (width : Int) ≤ (i : Int) := by omega
  have rest : (i : Int).tmod width = (i - width : Nat) := by
    rw [← Int.ofNat_tmod, Nat.mod_eq_sub_mod high, Nat.mod_eq_of_lt (by omega)]
  unfold Half.update
  rw [if_pos above, rest]

/-- An access of double width is two of its halves. -/
lemma Updates.half (updates : Updates width view change update) (bytes : 8 ∣ width) :
    Updates (2 * width) (Half.bit width view) change (Half.update width update) := by
  obtain ⟨count, rfl⟩ := bytes
  constructor
  · intro word i n hib _
    by_cases low : i < 8 * count
    · rw [Half.update_low word low]
      unfold Half.bit
      by_cases nLow : n < 8 * count
      · rw [if_pos nLow, if_pos nLow]
        exact updates.bit word.lo i n low nLow
      · rw [if_neg nLow, if_neg nLow, if_neg (by omega)]
    rw [Half.update_high word (by omega) hib]
    unfold Half.bit
    by_cases nLow : n < 8 * count
    · rw [if_pos nLow, if_pos nLow, if_neg (by omega)]
    have hs : n - 8 * count = i - 8 * count ↔ n = i := by omega
    rw [if_neg nLow, if_neg nLow]
    rw [updates.bit word.hi _ _ (by omega) (by omega)]
    simp [hs]
  intro word i hib
  by_cases low : i < 8 * count
  · rw [Half.update_low word low]
    rw [updates.result word.lo i low]
    constructor
    · rintro ⟨n, bound, hsb, isSet⟩
      refine ⟨n, by omega, hsb, ?_⟩
      unfold Half.bit
      rw [if_pos bound]
      exact isSet
    rintro ⟨n, bound, hsb, isSet⟩
    have nLow : n < 8 * count := by omega
    unfold Half.bit at isSet
    rw [if_pos nLow] at isSet
    exact ⟨n, nLow, hsb, isSet⟩
  rw [Half.update_high word (by omega) hib]
  rw [updates.result word.hi _ (by omega)]
  constructor
  · rintro ⟨n, bound, hsb, isSet⟩
    refine ⟨n + 8 * count, by omega, by omega, ?_⟩
    unfold Half.bit
    rw [if_neg (by omega), Nat.add_sub_cancel]
    exact isSet
  rintro ⟨n, bound, hsb, isSet⟩
  have nHigh : ¬ n < 8 * count := by omega
  unfold Half.bit at isSet
  rw [if_neg nHigh] at isSet
  exact ⟨n - 8 * count, by omega, by omega, isSet⟩

end OoOS.Lib
