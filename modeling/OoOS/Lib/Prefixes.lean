import Mathlib.Data.List.Induction

/-!
# Properties of all prefixes of a history

A property of histories holds for every prefix of one if it holds at the start
and each further event keeps it just where a condition on that event is met.
-/

namespace OoOS.Lib

universe u

/-- An invariant of all prefixes, one event at a time. -/
lemma forall_prefix_iff {Event : Type u} {holds : List Event → Prop}
    {guard : List Event → Event → Prop} {events : List Event}
    (step_iff : ∀ made event, made ++ [event] <+: events → holds made →
      (holds (made ++ [event]) ↔ guard made event)) :
    (∀ made, made <+: events → holds made) ↔ holds [] ∧
        ∀ made event, made ++ [event] <+: events → guard made event := by
  have shorter : ∀ made event, made ++ [event] <+: events → made <+: events :=
    fun made event starts => (List.prefix_append made [event]).trans starts
  constructor
  · intro always
    refine ⟨always [] List.nil_prefix, fun made event starts => ?_⟩
    exact (step_iff made event starts (always made (shorter made event starts))).mp
      (always _ starts)
  rintro ⟨start, guards⟩ made
  induction made using List.reverseRecOn with
  | nil => exact fun _ => start
  | append_singleton made event ih =>
    intro starts
    exact (step_iff made event starts (ih (shorter made event starts))).mpr
      (guards made event starts)

/-- The only event of a history of one. -/
lemma concat_prefix_singleton {Event : Type u} {made : List Event} {event only : Event}
    (starts : made ++ [event] <+: [only]) : made = [] ∧ event = only := by
  have short := starts.length_le
  rw [List.length_append, List.length_singleton, List.length_singleton] at short
  have isNil : made = [] := List.eq_nil_of_length_eq_zero (by omega)
  rw [isNil, List.nil_append, List.cons_prefix_cons] at starts
  exact ⟨isNil, starts.1⟩

end OoOS.Lib
