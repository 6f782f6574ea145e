import Mathlib.Data.List.Basic
import Mathlib.Data.Nat.ModEq

/-!
# Lists in a ring of cells

A list lies in a ring of cells from some place on, each value one cell after
the other, modulo the size of the ring.
-/

namespace OoOS.Lib

open List Nat

universe u

variable {α : Type u} {cells other : Nat → Option α} {size start : Nat} {list : List α}

def InRing (cells : Nat → Option α) (size start : Nat) (list : List α) : Prop :=
  ∀ i, (bound : i < list.length) → cells ((start + i) % size) = some (list[i])

lemma inRing_nil (cells : Nat → Option α) (size start : Nat) : InRing cells size start [] :=
  fun _ bound => absurd bound (not_lt_zero _)

section

variable (inRing : InRing cells size start list)

include inRing

lemma InRing.relocate {otherSize otherStart : Nat}
    (same : ∀ i < list.length, other ((otherStart + i) % otherSize) = cells ((start + i) % size)) :
    InRing other otherSize otherStart list := by
  intro i bound
  rw [same i bound]
  exact inRing i bound

lemma InRing.concat {value : α} (atEnd : cells ((start + list.length) % size) = some value) :
    InRing cells size start (list ++ [value]) := by
  intro i bound
  rw [length_append, length_singleton] at bound
  rcases Nat.lt_succ_iff_lt_or_eq.mp bound with below | rfl
  · rw [getElem_append_left]
    exact inRing i below
  rw [getElem_concat_length rfl]
  exact atEnd

lemma InRing.drop (count : Nat) : InRing cells size ((start + count) % size) (list.drop count) := by
  intro i bound
  rw [length_drop] at bound
  have hp : ((start + count) % size + i) % size = (start + (count + i)) % size := by
    rw [mod_add_mod, add_assoc]
  rw [hp, getElem_drop]
  exact inRing (count + i) (by omega)

end

lemma InRing.head {value : α} {rest : List α} (inRing : InRing cells size start (value :: rest)) :
    cells (start % size) = some value :=
  inRing 0 (zero_lt_succ _)

lemma ring_injective {i j : Nat} (first : i < size) (second : j < size)
    (same : (start + i) % size = (start + j) % size) : i = j := by
  have hc := Nat.ModEq.add_left_cancel' start same
  rwa [Nat.ModEq, mod_eq_of_lt first, mod_eq_of_lt second] at hc

lemma ring_cases {i : Nat} (startBound : start < size) (bound : i ≤ size) :
    start + i < size ∧ (start + i) % size = start + i ∨
      size ≤ start + i ∧ (start + i) % size + size = start + i := by
  rcases lt_or_ge (start + i) size with below | hnb
  · exact .inl ⟨below, mod_eq_of_lt below⟩
  have isMod : (start + i) % size = start + i - size := by
    rw [mod_eq_sub_mod hnb]
    exact mod_eq_of_lt (by omega)
  exact .inr ⟨hnb, by omega⟩

end OoOS.Lib
