import Mathlib.Tactic.Common

/-!
# Runs of a deterministic machine

A machine is a partial step function: `step state op` is `none` when the
operation cannot be taken.  Facts about one step become facts about every state
a run reaches.
-/

namespace OoOS.Lib

universe u v

variable {State : Type u} {Op : Type v}

/-- Apply the operations in order; `none` as soon as one cannot be taken. -/
def run (step : State → Op → Option State) : State → List Op → Option State
  | state, [] => some state
  | state, op :: rest =>
    match step state op with
    | none => none
    | some next => run step next rest

/-- Every step of the run is taken in a state that meets `guard`. -/
def Guarded (step : State → Op → Option State)
    (guard : State → Op → Prop) : State → List Op → Prop
  | _, [] => True
  | state, op :: rest =>
    guard state op ∧ ∀ next, step state op = some next → Guarded step guard next rest

instance decidableGuarded (step : State → Op → Option State)
    (guard : State → Op → Prop) [∀ state op, Decidable (guard state op)] :
    (state : State) → (ops : List Op) → Decidable (Guarded step guard state ops)
  | _, [] => isTrue trivial
  | state, op :: rest =>
    match taken : step state op with
    | none => decidable_of_iff (guard state op) (by simp [Guarded, taken])
    | some next =>
      have := decidableGuarded step guard next rest
      decidable_of_iff
        (guard state op ∧ Guarded step guard next rest)
        (by simp [Guarded, taken])

variable {step : State → Op → Option State}

lemma run_cons_eq_some_iff {state final : State} {op : Op} {rest : List Op} :
    run step state (op :: rest) = some final ↔ ∃ next, step state op = some next ∧
        run step next rest = some final := by
  cases taken : step state op with
  | none => simp [run, taken]
  | some next => simp [run, taken]

variable {invariant : State → Prop}

/-- An invariant that every guarded step preserves holds at the end of every
guarded run. -/
lemma run_invariant {guard : State → Op → Prop}
    (preserves : ∀ state op next, invariant state → guard state op →
      step state op = some next → invariant next) :
    ∀ (ops : List Op) {state final : State}, invariant state → Guarded step guard state ops →
        run step state ops = some final → invariant final
  | [], state, final, holds, _, reached => Option.some.inj reached ▸ holds
  | op :: rest, state, final, holds, guarded, reached => by
    obtain ⟨next, taken, remaining⟩ := run_cons_eq_some_iff.mp reached
    exact run_invariant preserves rest (preserves state op next holds guarded.1 taken)
      (guarded.2 next taken) remaining

lemma run_invariant_of_step
    (preserves : ∀ state op next, invariant state → step state op = some next → invariant next)
    {ops : List Op} {state final : State} (holds : invariant state)
    (reached : run step state ops = some final) : invariant final := by
  induction ops generalizing state with
  | nil => exact Option.some.inj reached ▸ holds
  | cons op _ ih =>
    obtain ⟨next, taken, remaining⟩ := run_cons_eq_some_iff.mp reached
    exact ih (preserves state op next holds taken) remaining

end OoOS.Lib
