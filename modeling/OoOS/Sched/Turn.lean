import OoOS.Sched.SelectNext

/-!
# One turn of a queue

The loop of `select_next` on one queue takes the first task from the cursor on
that does not block, if there is one.
-/

namespace OoOS.Sched.Scheduler

open List Libk

def cursorAt (queue : ResettableQueue KThread) (next : Nat) : ResettableQueue KThread :=
  { queue with next := next }

def cyclic (queue : ResettableQueue KThread) : List KThread :=
  queue.slots.drop queue.next ++ queue.slots.take queue.next

def firstRunnable (tasks : Tasks) (queue : ResettableQueue KThread) : Option KThread :=
  (cyclic queue).find? fun kthread => !tasks.isBlocking kthread

def firstPosition (tasks : Tasks) (queue : ResettableQueue KThread) : Option Nat :=
  let runnable := fun kthread => !tasks.isBlocking kthread
  match (queue.slots.drop queue.next).findIdx? runnable with
  | some ahead => some (queue.next + ahead)
  | none => (queue.slots.take queue.next).findIdx? runnable

variable {tasks : Tasks} {queue : ResettableQueue KThread} {entry : Nat} {kthread : KThread}

lemma mem_cyclic : kthread ∈ cyclic queue ↔ kthread ∈ queue.slots := by
  rw [cyclic, mem_append, Or.comm, ← mem_append, take_append_drop]

lemma sound_cursorAt (sound : queue.Sound) {next : Nat}
    (within : next ≤ queue.slots.length) : (cursorAt queue next).Sound :=
  ⟨by rw [← sound.stop_eq] at within; exact within, sound.stop_eq⟩

lemma turn_inside (sound : queue.Sound) {next : Nat} (inside : next < queue.slots.length)
    (fuel : Nat) :
    turn tasks entry (fuel + 1) (cursorAt queue next) =
      if tasks.isBlocking queue.slots[next] ∧ entry ≠ next + 1 then
        turn tasks entry fuel (cursorAt queue (next + 1))
      else some (queue.slots[next], cursorAt queue (next + 1)) := by
  have here := sound_cursorAt sound (le_of_lt inside)
  have hp : (cursorAt queue next).pending = queue.slots[next] :: queue.slots.drop (next + 1) := by
    exact drop_eq_getElem_cons inside
  have hne : (cursorAt queue next).atEnd = false := by
    rw [← Bool.not_eq_true, here.atEnd_iff, hp]
    exact cons_ne_nil _ _
  rw [turn]
  simp only [hne, Bool.false_eq_true, if_false, here.pop_eq hp]
  rfl

lemma turn_restart (sound : queue.Sound) (nonempty : queue.slots ≠ []) (fuel : Nat) :
    turn tasks entry (fuel + 1) (cursorAt queue queue.slots.length) =
      turn tasks entry (fuel + 1) (cursorAt queue 0) := by
  have atEnd : (cursorAt queue queue.slots.length).atEnd = true := by
    rw [(sound_cursorAt sound (le_refl _)).atEnd_iff]
    exact drop_length
  have hne : (cursorAt queue 0).atEnd = false := by
    rw [← Bool.not_eq_true, (sound_cursorAt sound (Nat.zero_le _)).atEnd_iff]
    exact nonempty
  simp only [turn, atEnd, hne]
  rfl

lemma turn_passes (tasks : Tasks) (entry : Nat) (sound : queue.Sound) (count : Nat) :
    ∀ (next fuel : Nat), next + count ≤ queue.slots.length →
      (∀ i (inside : i < queue.slots.length), next ≤ i → i < next + count →
        tasks.isBlocking queue.slots[i] = true) → (entry ≤ next ∨ next + count < entry) →
      turn tasks entry (fuel + count) (cursorAt queue next) =
        turn tasks entry fuel (cursorAt queue (next + count)) := by
  induction count with
  | zero =>
    intro next fuel _ _ _
    rfl
  | succ count ih =>
    intro next fuel _ hb _
    rw [← Nat.add_assoc, turn_inside sound (by omega),
      if_pos ⟨hb next (by omega) (le_refl _) (by omega), by omega⟩,
      ih (next + 1) fuel (by omega) (fun i inside _ _ => hb i inside (by omega) (by omega))
        (by omega)]
    congr 2
    omega

lemma turn_takes (tasks : Tasks) (entry next found : Nat) (sound : queue.Sound)
    (inside : found < queue.slots.length) (behind : next ≤ found)
    (blocking : ∀ i (inside : i < queue.slots.length), next ≤ i → i < found →
      tasks.isBlocking queue.slots[i] = true) (runnable :
      tasks.isBlocking queue.slots[found] = false)
    (away : entry ≤ next ∨ found < entry) {fuel : Nat} (enough : found - next < fuel) :
    turn tasks entry fuel (cursorAt queue next) =
      some (queue.slots[found], cursorAt queue (found + 1)) := by
  obtain ⟨fuel, rfl⟩ := Nat.exists_eq_add_of_lt enough
  rw [Nat.add_assoc, Nat.add_comm]
  rw [turn_passes tasks entry sound (found - next) next (fuel + 1) (by omega)
    (fun i hw lower _ => blocking i hw lower (by omega)) (by omega)]
  have hr : next + (found - next) = found := by omega
  rw [hr, turn_inside sound, if_neg]
  rw [runnable]
  simp

lemma turn_wraps (tasks : Tasks) (sound : queue.Sound) (nonempty : queue.slots ≠ [])
    (blocking : ∀ kthread ∈ queue.slots.drop queue.next, tasks.isBlocking kthread = true)
    {fuel : Nat}
    (enough : queue.slots.length - queue.next < fuel) : turn tasks queue.next fuel queue =
      turn tasks queue.next (fuel - (queue.slots.length - queue.next)) (cursorAt queue 0) := by
  obtain ⟨fuel, rfl⟩ := Nat.exists_eq_add_of_lt enough
  rw [Nat.add_assoc, Nat.add_sub_cancel_left, Nat.add_comm]
  have bound := sound.next_le
  rw [sound.stop_eq] at bound
  have hp := turn_passes tasks queue.next sound
    (queue.slots.length - queue.next) queue.next (fuel + 1) (by omega) (by
      intro i _ _ _
      apply blocking
      rw [mem_iff_getElem]
      refine ⟨i - queue.next, by rw [length_drop]; omega, ?_⟩
      rw [getElem_drop]
      congr 1
      omega)
    (.inl (le_refl _))
  have atEnd : queue.next + (queue.slots.length - queue.next) = queue.slots.length := by omega
  rw [atEnd, turn_restart sound nonempty] at hp
  exact hp

/-- The turn ends at the first thread that can run. -/
lemma turn_found (sound : queue.Sound) (first : firstRunnable tasks queue = some kthread) :
    ∃ pos < queue.slots.length, firstPosition tasks queue = some pos ∧
      queue.slots[pos]? = some kthread ∧ ∀ fuel, 2 * queue.slots.length + 1 ≤ fuel →
        turn tasks queue.next fuel queue = some (kthread, cursorAt queue (pos + 1)) := by
  rw [firstRunnable, cyclic, find?_append] at first
  cases hbe : (queue.slots.drop queue.next).find? fun kthread => !tasks.isBlocking kthread with
  | some other =>
    rw [hbe] at first
    obtain rfl : other = kthread := Option.some.inj first
    obtain ⟨hr, i, hin, ho, before⟩ := find?_eq_some_iff_getElem.mp hbe
    have hpo : (queue.slots.drop queue.next).findIdx?
        (fun kthread => !tasks.isBlocking kthread) = some i :=
      findIdx?_eq_some_iff_getElem.mpr ⟨hin, by rw [ho]; exact hr,
          fun j lower => by simpa using before j lower⟩
    rw [length_drop] at hin
    rw [getElem_drop] at ho
    refine ⟨queue.next + i, by omega, by rw [firstPosition, hpo],
      by rw [getElem?_eq_getElem (by omega), ho], ?_⟩
    intro fuel he
    have taken := turn_takes tasks queue.next queue.next (queue.next + i) sound (by omega)
      (by omega)
      (by
        intro j hwi lower upper
        have hp := before (j - queue.next) (by omega)
        simpa [Nat.add_sub_cancel' lower] using hp)
      (by rw [ho]; simpa using hr) (.inl (le_refl _))
      (by omega : _ < fuel)
    rw [ho] at taken
    exact taken
  | none =>
    rw [hbe, Option.none_or] at first
    obtain ⟨hr, i, hin, ht, before⟩ := find?_eq_some_iff_getElem.mp first
    have hpo : (queue.slots.take queue.next).findIdx?
        (fun kthread => !tasks.isBlocking kthread) = some i :=
      findIdx?_eq_some_iff_getElem.mpr ⟨hin, by rw [ht]; exact hr,
          fun j lower => by simpa using before j lower⟩
    have hnb : (queue.slots.drop queue.next).findIdx?
        (fun kthread => !tasks.isBlocking kthread) = none :=
      findIdx?_eq_none_iff.mpr fun other mem => by
        have hp := find?_eq_none.mp hbe other mem
        simpa using hp
    rw [length_take] at hin
    rw [getElem_take] at ht
    have hn : queue.slots ≠ [] := by
      intro isNil
      rw [isNil, length_nil] at hin
      omega
    refine ⟨i, by omega, by rw [firstPosition, hnb]; exact hpo,
      by rw [getElem?_eq_getElem (by omega), ht], ?_⟩
    intro fuel he
    have hb : ∀ other ∈ queue.slots.drop queue.next, tasks.isBlocking other = true := by
      intro other mem
      have hp := find?_eq_none.mp hbe other mem
      simpa using hp
    have hw := turn_wraps tasks sound hn hb (by omega : _ < fuel)
    have taken := turn_takes tasks queue.next 0 i sound (by omega) (Nat.zero_le _) (by
        intro j hwi _ upper
        have hp := before j upper
        simpa using hp)
      (by rw [ht]; simpa using hr) (.inr (by omega))
      (by omega : _ < fuel - (queue.slots.length - queue.next))
    rw [ht] at taken
    exact hw.trans taken

section

variable (nonempty : queue.slots ≠ [])
    (blocking : ∀ kthread ∈ queue.slots, tasks.isBlocking kthread = true)

include nonempty blocking

/-- Nobody can run: a blocked thread is taken. -/
lemma turn_blocked (sound : queue.Sound) (moved : queue.next ≠ 0) :
    ∃ kthread, tasks.isBlocking kthread = true ∧ ∀ fuel, 2 * queue.slots.length + 1 ≤ fuel →
        turn tasks queue.next fuel queue = some (kthread, queue) := by
  have bound := sound.next_le
  rw [sound.stop_eq] at bound
  have hin : queue.next - 1 < queue.slots.length := by omega
  refine ⟨queue.slots[queue.next - 1], blocking _ (getElem_mem hin), ?_⟩
  intro fuel _
  have hw := turn_wraps tasks sound nonempty (fun other mem => blocking other (mem_of_mem_drop mem))
    (by omega : _ < fuel)
  obtain ⟨more, hmore⟩ := Nat.exists_eq_add_of_lt
    (by omega : queue.next - 1 < fuel - (queue.slots.length - queue.next))
  have hp := turn_passes tasks queue.next sound (queue.next - 1) 0 (more + 1) (by omega)
    (fun i hwi _ _ => blocking _ (getElem_mem hwi)) (by omega)
  have back : queue.next - 1 + 1 = queue.next := by omega
  rw [hmore, Nat.add_assoc, Nat.add_comm] at hw
  rw [Nat.zero_add, turn_inside sound hin, back, if_neg (by simp)] at hp
  exact hw.trans hp

lemma turn_endless (sound : queue.Sound) (fuel : Nat) :
    ∀ next ≤ queue.slots.length, turn tasks 0 fuel (cursorAt queue next) = none := by
  induction fuel with
  | zero =>
    intro next _
    rfl
  | succ fuel ih =>
    have round : ∀ next < queue.slots.length,
        turn tasks 0 (fuel + 1) (cursorAt queue next) = none := by
      intro next hin
      rw [turn_inside sound hin, if_pos ⟨blocking _ (getElem_mem hin), by omega⟩]
      exact ih (next + 1) hin
    intro next _
    by_cases hin : next < queue.slots.length
    · exact round next hin
    have atEnd : next = queue.slots.length := by omega
    rw [atEnd, turn_restart sound nonempty]
    exact round 0 (length_pos_iff.mpr nonempty)

end

lemma turn_mono {result : KThread × ResettableQueue KThread} (more fuel : Nat) :
    ∀ queue : ResettableQueue KThread, turn tasks entry fuel queue = some result →
      turn tasks entry (fuel + more) queue = some result := by
  induction fuel with
  | zero =>
    intro queue returned
    cases returned
  | succ fuel ih =>
    intro queue returned
    rw [Nat.add_right_comm]
    simp only [turn] at returned ⊢
    split
    · rename_i noPop
      rw [noPop] at returned
      cases returned
    rename_i popped isPopped
    simp only [isPopped] at returned
    split
    · rename_i goesOn
      rw [if_pos goesOn] at returned
      exact ih _ returned
    rename_i stops
    rw [if_neg stops] at returned
    exact returned

end OoOS.Sched.Scheduler
