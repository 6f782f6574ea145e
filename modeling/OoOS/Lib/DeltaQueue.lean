import Mathlib.Algebra.BigOperators.Group.List.Basic
import Mathlib.Tactic.Ring

/-!
# Delta queues

A queue in which every element carries the difference between its deadline and
the deadline in front of it.  The deadlines are the running sums of the
differences.
-/

namespace OoOS.Lib.DeltaQueue

open List

universe u

variable {α : Type u} (delta : α → Nat)

def deadlines (start : Nat) : List α → List (α × Nat)
  | [] => []
  | first :: rest => (first, start + delta first) :: deadlines (start + delta first) rest

def total (elements : List α) : Nat := (elements.map delta).sum

variable {delta} {other : α → Nat} {start : Nat} {elements rest : List α}

lemma total_cons (first : α) (rest : List α) :
    total delta (first :: rest) = delta first + total delta rest := by
  rw [total, map_cons, sum_cons, total]

lemma total_append (front rest : List α) :
    total delta (front ++ rest) = total delta front + total delta rest := by
  rw [total, map_append, sum_append, total, total]

lemma total_congr (same : ∀ element ∈ elements, delta element = other element) :
    total delta elements = total other elements := by
  rw [total, total, map_congr_left same]

lemma deadlines_append (front rest : List α) :
    ∀ start, deadlines delta start (front ++ rest) = deadlines delta start front ++
        deadlines delta (start + total delta front) rest := by
  induction front with
  | nil =>
    intro start
    rfl
  | cons _ front ih =>
    intro start
    rw [cons_append, deadlines, ih, deadlines, total_cons, cons_append, Nat.add_assoc]

lemma deadlines_congr (elements : List α)
    (same : ∀ element ∈ elements, delta element = other element) :
    ∀ start, deadlines delta start elements = deadlines other start elements := by
  induction elements with
  | nil =>
    intro start
    rfl
  | cons first _ ih =>
    intro start
    rw [deadlines, deadlines, same first mem_cons_self, ih (forall_mem_cons.mp same).2]

variable {entry : α × Nat}

lemma start_le_of_mem_deadlines (elements : List α) :
    ∀ start, entry ∈ deadlines delta start elements → start ≤ entry.2 := by
  induction elements with
  | nil =>
    intro start mem
    cases mem
  | cons _ _ ih =>
    intro start mem
    rcases mem_cons.mp mem with here | hb
    · rw [here]
      exact Nat.le_add_right _ _
    have bound := ih _ hb
    omega

lemma mem_of_mem_deadlines (elements : List α) :
    ∀ start, entry ∈ deadlines delta start elements → entry.1 ∈ elements := by
  induction elements with
  | nil =>
    intro start mem
    cases mem
  | cons _ _ ih =>
    intro start mem
    rcases mem_cons.mp mem with here | hb
    · rw [here]
      exact mem_cons_self
    · exact mem_cons_of_mem _ (ih _ hb)

lemma deadlines_succ (elements : List α) :
    ∀ start, deadlines delta (start + 1) elements = (deadlines delta start elements).map
        fun entry => (entry.1, entry.2 + 1) := by
  induction elements with
  | nil =>
    intro start
    rfl
  | cons first _ ih =>
    intro start
    rw [deadlines, deadlines, map_cons, Nat.add_right_comm start, ih]

lemma deadlines_tick (start : Nat) {first : α} (ticked : other first + 1 = delta first)
    (same : ∀ element ∈ rest, delta element = other element) :
    deadlines delta start (first :: rest) = (deadlines other start (first :: rest)).map
        fun entry => (entry.1, entry.2 + 1) := by
  rw [deadlines, deadlines, map_cons, ← deadlines_succ, deadlines_congr rest same, ← ticked,
    Nat.add_assoc]

lemma deadlines_remove {first second : α} (front : List α)
    (sameFront : ∀ element ∈ front, other element = delta element)
    (added : other second = delta second + delta first)
    (sameRest : ∀ element ∈ rest, other element = delta element) (start : Nat) :
    deadlines other start (front ++ second :: rest) = deadlines delta start front ++
        deadlines delta (start + total delta front + delta first) (second :: rest) := by
  rw [deadlines_append, deadlines_congr front sameFront,
    total_congr sameFront, deadlines, deadlines, added, deadlines_congr rest sameRest]
  have hr : start + total delta front + (delta second + delta first) =
      start + total delta front + delta first + delta second := by omega
  rw [hr]

lemma deadlines_dropWhile (elements : List α) :
    deadlines delta 0 (elements.dropWhile fun element => delta element = 0) =
      (deadlines delta 0 elements).dropWhile fun entry => entry.2 = 0 := by
  induction elements with
  | nil => rfl
  | cons first _ ih =>
    by_cases due : delta first = 0
    · rw [dropWhile_cons_of_pos (by simpa using due), deadlines,
        dropWhile_cons_of_pos (by simpa using due), due]
      exact ih
    rw [dropWhile_cons_of_neg (by simpa using due), deadlines,
      dropWhile_cons_of_neg (by simpa using due)]

lemma due_congr (elements : List α) (same : ∀ element ∈ elements, delta element = other element) :
    (elements.takeWhile fun element => delta element = 0) =
        (elements.takeWhile fun element => other element = 0) ∧
      (elements.dropWhile fun element => delta element = 0) =
        (elements.dropWhile fun element => other element = 0) := by
  induction elements with
  | nil => exact ⟨rfl, rfl⟩
  | cons first _ ih =>
    obtain ⟨taken, hdr⟩ := ih (forall_mem_cons.mp same).2
    have here := same first mem_cons_self
    simp [takeWhile_cons, dropWhile_cons, here, taken, hdr, and_self]

lemma mem_takeWhile_of_due {element : α} (elements : List α)
    (due : (element, 0) ∈ deadlines delta 0 elements) :
    element ∈ elements.takeWhile fun element => delta element = 0 := by
  induction elements with
  | nil => cases due
  | cons first rest ih =>
    have hfd : delta first = 0 := by
      rcases mem_cons.mp due with here | hb
      · have same := congrArg Prod.snd here
        omega
      have bound := start_le_of_mem_deadlines rest _ hb
      omega
    rw [takeWhile_cons_of_pos (by simpa using hfd)]
    rcases mem_cons.mp due with here | hb
    · rw [(Prod.mk.inj here).1]
      exact mem_cons_self
    rw [hfd] at hb
    exact mem_cons_of_mem _ (ih hb)

end OoOS.Lib.DeltaQueue
