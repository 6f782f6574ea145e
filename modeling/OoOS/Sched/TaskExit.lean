import Mathlib.Logic.Function.Basic
import Mathlib.Logic.Relation
import Mathlib.Tactic.SplitIfs

/-!
# The exit of a task

`set_exit` climbs from the task to its parent, the parent of that, and so on.
-/

namespace OoOS.Sched.TaskExit

open Function

/-- `notifTarget` is what is at the target, if there is one. -/
structure Task where
  parentPid : Int := 0
  shouldNotify : Bool := false
  block : Bool := false
  notifTarget : Option Int := none
  lastNotified : Option Nat := none
  childTasks : List Nat := []
  childCapacity : Nat := 0
  numChildProcs : Nat := 0
  rax : Nat := 0

/-- `vector::erase` does nothing for the last element of a full vector. -/
def Task.removeChild (p : Task) (that : Nat) : Task :=
  if that ∉ p.childTasks ∨ p.childTasks.idxOf that + 1 = p.childCapacity then p
  else { p with childTasks := p.childTasks.erase that }

/-- What is done to each task that is passed; `interrupted` is what `interrupt_wait` says. -/
def Task.pass (p : Task) (interrupted : Bool) (this : Nat) (n : Int) : Task :=
  let waits := p.shouldNotify && p.block && interrupted
  let p := { p with
      block := p.block && !waits
      notifTarget := if waits then p.notifTarget.map fun _ => n else p.notifTarget
      lastNotified := some this }
  { p.removeChild this with rax := this }

variable (interruptWait : Nat → Bool) (this : Nat) (n : Int)

def climb : (fuel : Nat) → (tl : Nat → Option Task) → (c : Task) → Option (Nat → Option Task)
  | 0, _, _ => none
  | fuel + 1, tl, c =>
    if 0 < c.parentPid then
      match tl c.parentPid.toNat with
      | none => some tl
      | some p =>
        let p := p.pass (interruptWait c.parentPid.toNat) this n
        climb fuel (update tl c.parentPid.toNat (some p)) p
    else some tl

def Parent (tl : Nat → Option Task) (pid parent : Nat) : Prop :=
  ∃ task, tl pid = some task ∧ task.parentPid = parent ∧ 0 < parent ∧ (tl parent).isSome

/-- Only ancestors that wait learn of the exit, and the task is no child any more. -/
structure Exits (tl after : Nat → Option Task) : Prop where
  frame : ∀ pid p q, pid ≠ this → tl pid = some p → after pid = some q →
    q.rax = p.rax ∧ q.notifTarget = p.notifTarget ∨ Relation.TransGen (Parent tl) this pid ∧
      p.shouldNotify ∧ p.block ∧ q.rax = this ∧ q.notifTarget = p.notifTarget.map fun _ => n
  removed : ∀ parent q, Parent tl this parent → after parent = some q → this ∉ q.childTasks
  counted : ∀ pid q, after pid = some q → q.numChildProcs = q.childTasks.length

structure Tree (tl : Nat → Option Task) : Prop where
  counted : ∀ pid p, tl pid = some p → p.numChildProcs = p.childTasks.length
  listed : ∀ pid parent p, Parent tl pid parent → tl parent = some p → pid ∈ p.childTasks

/-- The task is still listed as a child, or is still counted as one. -/
def Stale (this : Nat) (p : Task) : Prop :=
  p.childTasks.length ≤ p.numChildProcs ∧
    (this ∈ p.childTasks ∨ p.childTasks.length < p.numChildProcs)

variable {interruptWait this n} {tl after : Nat → Option Task}

lemma Stale.removeChild {p : Task} (stale : Stale this p) : Stale this (p.removeChild this) := by
  rw [Task.removeChild]
  split_ifs with hr
  · exact stale
  rw [not_or, not_not] at hr
  have hl := List.length_erase_of_mem hr.1
  have hp := List.length_pos_of_mem hr.1
  obtain ⟨hle, -⟩ := stale
  exact ⟨by simp only; omega, .inr (by simp only; omega)⟩

lemma Stale.pass {p : Task} (stale : Stale this p) (interrupted : Bool) :
    Stale this (p.pass interrupted this n) :=
  Stale.removeChild (p := { p with block := _, notifTarget := _, lastNotified := _ }) stale

/-- A stale parent stays stale. -/
lemma Stale.climb {fuel pid : Nat} {c : Task}
    (climbed : climb interruptWait this n fuel tl c = some after)
    (stale : ∃ p, tl pid = some p ∧ Stale this p) : ∃ q, after pid = some q ∧ Stale this q := by
  induction fuel generalizing tl c with
  | zero => cases climbed
  | succ fuel ih =>
    rw [TaskExit.climb] at climbed
    split at climbed
    · split at climbed
      · exact Option.some.inj climbed ▸ stale
      rename_i p hp
      refine ih climbed ?_
      obtain ⟨q, hq, hs⟩ := stale
      by_cases he : pid = c.parentPid.toNat
      · subst he
        obtain rfl := Option.some.inj (hp.symm.trans hq)
        rw [update_self]
        exact ⟨_, rfl, hs.pass _⟩
      · exact ⟨q, by rw [update_of_ne he, hq], hs⟩
    · exact Option.some.inj climbed ▸ stale

/-- The saved registers of every ancestor are changed, and the parent's count of
its children is not. -/
theorem exits_iff {task : Task} (tree : Tree tl) (running : tl this = some task) :
    (∃ fuel after, climb interruptWait this n fuel tl task = some after ∧ Exits this n tl after) ↔
      ¬ ∃ parent, Parent tl this parent := by
  constructor
  · rintro ⟨fuel, after, hc, he⟩ ⟨parent, hp⟩
    obtain ⟨p, hpa⟩ := Option.isSome_iff_exists.mp hp.choose_spec.2.2.2
    have hn := tree.counted parent p hpa
    obtain ⟨q, hq, -, hl | hl⟩ := Stale.climb hc
      ⟨p, hpa, Nat.le_of_eq hn.symm, .inl (tree.listed this parent p hp hpa)⟩
    · exact he.removed parent q hp hq hl
    · exact Nat.ne_of_lt hl (he.counted parent q hq).symm
  intro hn
  refine ⟨1, tl, ?_, ?_, fun parent q hp => absurd ⟨parent, hp⟩ hn, tree.counted⟩
  · rw [climb]
    split_ifs with hp
    · cases hpa : tl task.parentPid.toNat with
      | none => rfl
      | some p =>
        refine absurd ⟨task.parentPid.toNat, task, running, by omega, by omega, ?_⟩ hn
        rw [hpa]
        rfl
    · rfl
  · rintro pid p q - hp hq
    cases hp.symm.trans hq
    exact .inl ⟨rfl, rfl⟩

/-- A parent that does not wait, and its only child. -/
def family : Nat → Option Task
  | 1 => some { childTasks := [2], childCapacity := 4, numChildProcs := 1 }
  | 2 => some { parentPid := 1 }
  | _ => none

theorem not_exits_child : ¬ ∃ fuel after, climb (fun _ => false) 2 0 fuel family
      { parentPid := 1 } = some after ∧ Exits 2 0 family after := by
  rintro ⟨fuel, after, hc, he⟩
  have hs : ∃ p, family 1 = some p ∧ Stale 2 p := ⟨_, rfl, Nat.le_refl _, .inl (.head _)⟩
  obtain ⟨q, hq, -, hl | hl⟩ := Stale.climb hc hs
  · exact he.removed 1 q ⟨_, rfl, rfl, by decide, rfl⟩ hq hl
  · exact Nat.ne_of_lt hl (he.counted 1 q hq).symm

/-- The parent of this family has a child and no parent itself. -/
theorem exits_iff_parent : ∃ task fuel after, family 1 = some task ∧
    climb (fun _ => false) 1 0 fuel family task = some after ∧ Exits 1 0 family after := by
  have edge : ∀ pid parent, Parent family pid parent → pid = 2 ∧ parent = 1 := by
    rintro pid parent ⟨task, here, same, positive, -⟩
    simp only [family] at here
    split at here <;> cases here
    · exact absurd same (by simp; omega)
    · exact ⟨rfl, by simp at same; omega⟩
  have tree : Tree family := by
    constructor
    · intro pid p here
      simp only [family] at here
      split at here <;> cases here <;> rfl
    · intro pid parent p child here
      obtain ⟨rfl, rfl⟩ := edge pid parent child
      cases here
      exact .head _
  obtain ⟨fuel, after, ended⟩ := (exits_iff tree rfl).mpr fun ⟨parent, child⟩ =>
    absurd (edge 1 parent child).1 (by decide)
  exact ⟨_, fuel, after, rfl, ended⟩

end OoOS.Sched.TaskExit
