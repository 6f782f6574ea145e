import Mathlib.Logic.Relation

/-!
# Loops

A loop as a partial function: `next` is `none` in a state that leaves it.
-/

namespace OoOS.Lib

open Relation

universe u

variable {σ : Type u} {next : σ → Option σ} {ok : σ → Prop} {s : σ}

/-- The states in which the loop is tested; `none` if it is not left in time. -/
def trace (next : σ → Option σ) : (fuel : Nat) → σ → Option (List σ)
  | 0, _ => none
  | fuel + 1, s =>
    match next s with
    | none => some [s]
    | some t => (trace next fuel t).map (s :: ·)

/-- The loop is left, and `ok` holds in every state up to there. -/
def Completes (next : σ → Option σ) (ok : σ → Prop) (s : σ) : Prop :=
  ∃ fuel states, trace next fuel s = some states ∧ ∀ t ∈ states, ok t

def Follows (next : σ → Option σ) : σ → σ → Prop := ReflTransGen fun s t => next s = some t

lemma completes_of_none (stops : next s = none) (okHere : ok s) : Completes next ok s :=
  ⟨1, [s], by simp [trace, stops], by simpa using okHere⟩

variable {t : σ}

lemma completes_some_iff (stepped : next s = some t) :
    Completes next ok s ↔ ok s ∧ Completes next ok t := by
  constructor
  · rintro ⟨fuel, states, ht, hall⟩
    cases fuel with
    | zero => cases ht
    | succ fuel =>
      simp only [trace, stepped, Option.map_eq_some_iff] at ht
      obtain ⟨rest, hr, rfl⟩ := ht
      exact ⟨hall s (.head _), fuel, rest, hr, fun a ha => hall a (.tail _ ha)⟩
  rintro ⟨hs, fuel, states, ht, hall⟩
  refine ⟨fuel + 1, s :: states, by simp [trace, stepped, ht], fun a ha => ?_⟩
  rcases List.mem_cons.mp ha with rfl | ha
  · exact hs
  · exact hall a ha

lemma Completes.here (completes : Completes next ok s) : ok s := by
  cases hn : next s with
  | none =>
    obtain ⟨fuel, states, ht, hall⟩ := completes
    cases fuel with
    | zero => cases ht
    | succ fuel =>
      simp only [trace, hn, Option.some.injEq] at ht
      exact hall s (by simp [← ht])
  | some t => exact ((completes_some_iff hn).mp completes).1

lemma Completes.follows (completes : Completes next ok s) (follows : Follows next s t) :
    Completes next ok t := by
  induction follows with
  | refl => exact completes
  | tail _ hn ih => exact ((completes_some_iff hn).mp ih).2

lemma not_completes_of_stays (stays : next s = some s) : ¬ Completes next ok s := by
  have hn : ∀ fuel, trace next fuel s = none := by
    intro fuel
    induction fuel with
    | zero => rfl
    | succ fuel ih => simp [trace, stays, ih]
  rintro ⟨fuel, states, ht, -⟩
  simp [hn] at ht

/-- If every round keeps an invariant, and stays or makes a measure smaller, the loop ends
exactly when no round stays. -/
lemma completes_iff (inv : σ → Prop) (left : σ → Nat) (start : inv s)
    (round : ∀ s t, inv s → next s = some t → inv t ∧ (t = s ∨ left t < left s)) :
    Completes next ok s ↔ ∀ t, Follows next s t → ok t ∧ next t ≠ some t := by
  constructor
  · intro completes t reached
    have rest := completes.follows reached
    exact ⟨rest.here, fun stays => not_completes_of_stays stays rest⟩
  intro moves
  induction equality : left s using Nat.strongRecOn generalizing s with
  | _ _ ih =>
    have here := moves s .refl
    cases step : next s with
    | none => exact completes_of_none step here.1
    | some t =>
      obtain ⟨kept, smaller⟩ := round s t start step
      have smaller := smaller.resolve_left fun same => here.2 (same ▸ step)
      refine (completes_some_iff step).mpr ⟨here.1, ?_⟩
      exact ih _ (equality ▸ smaller) kept
        (fun a reached => moves a (.head step reached)) rfl

lemma Follows.invariant {inv : σ → Prop} (follows : Follows next s t)
    (keeps : ∀ s t, inv s → next s = some t → inv t) (start : inv s) : inv t := by
  induction follows with
  | refl => exact start
  | tail _ hn ih => exact keeps _ _ ih hn

end OoOS.Lib
