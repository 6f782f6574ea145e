import OoOS.Lib.DeltaQueue
import OoOS.Sched.Sleepers

/-!
# Waking all threads of a task

`scheduler::interrupt_wait` of a task erases from both lists while it goes
through them.
-/

namespace OoOS.Sched

open List Lib Libk

/-- The loop over `__non_timed_sleepers`, behind the threads that it has passed.
Erasing moves the next thread to the place that is passed then.  The last thread
of a full vector is not erased, and that of another one leaves the iterator
behind the end. -/
def interruptUntimed (task capacity : Nat) :
    List KThread → List KThread → Tasks → Bool → Option (List KThread × Tasks × Bool)
  | passed, [], tasks, result => some (passed, tasks, result)
  | passed, [last], tasks, result =>
    if last.task ≠ task then some (passed ++ [last], tasks, result)
    else if capacity ≤ passed.length + 1 then
      some (passed ++ [last], tasks.clearBlocking last, true)
    else none
  | passed, kthread :: next :: rest, tasks, result =>
    if kthread.task ≠ task then
      interruptUntimed task capacity (passed ++ [kthread]) (next :: rest) tasks result
    else interruptUntimed task capacity (passed ++ [next]) rest (tasks.clearBlocking kthread) true

/-- `scheduler::interrupt_wait` of a task, with both lists. -/
def interruptBoth (sleepers : Sleepers) (untimed : List KThread) (task capacity : Nat) :
    Option (Bool × Sleepers × List KThread) := do
  let (result, sleepers) ← sleepers.interruptTask task
  let (untimed, tasks, result) ← interruptUntimed task capacity [] untimed sleepers.tasks result
  some (result, { sleepers with tasks := tasks }, untimed)

abbrev Sleepers.timed (sleepers : Sleepers) : List KThread :=
  sleepers.queue.slots.take sleepers.queue.stop

def Sleepers.waitTimes (sleepers : Sleepers) : List (KThread × Nat) :=
  DeltaQueue.deadlines sleepers.tasks.getWaitDelta 0 sleepers.waiting

/-- The threads of the task are gone, in the timed list those that can be
interrupted, and the others wait as they did. -/
def WakesTask (sleepers : Sleepers) (untimed : List KThread) (task capacity : Nat) : Prop :=
  ∃ result after rest, interruptBoth sleepers untimed task capacity = some (result, after, rest) ∧
    rest = untimed.filter (·.task ≠ task) ∧
    after.waitTimes = sleepers.waitTimes.filter
      (fun entry => ¬ (entry.1.task = task ∧ sleepers.tasks.isInterruptible entry.1)) ∧
    (result = true ↔ rest.length < untimed.length ∨
      after.waitTimes.length < sleepers.waitTimes.length)

/-- Every thread of the task is followed by one of another task. -/
def Followed (task : Nat) : List KThread → Prop
  | [] => True
  | [last] => last.task ≠ task
  | kthread :: next :: rest =>
    if kthread.task ≠ task then Followed task (next :: rest)
    else next.task ≠ task ∧ Followed task rest

variable {task capacity : Nat} {untimed : List KThread}

lemma interruptUntimed_of_followed (passed : List KThread) (tasks : Tasks) (result : Bool)
    (followed : Followed task untimed) :
    interruptUntimed task capacity passed untimed tasks result =
      some (passed ++ untimed.filter (·.task ≠ task),
        (untimed.filter (·.task = task)).foldl Tasks.clearBlocking tasks,
        result || untimed.any (·.task = task)) := by
  fun_induction interruptUntimed task capacity passed untimed tasks result with
  | case1 => simp
  | case2 _ _ _ _ h => simp [h]
  | case3 _ _ _ _ h => exact absurd followed h
  | case4 _ _ _ _ h => exact absurd followed h
  | case5 _ _ _ _ _ _ h ih =>
    rw [Followed, if_pos h] at followed
    rw [ih followed]
    simp [h]
  | case6 _ _ _ _ _ _ h ih =>
    rw [Followed, if_neg h] at followed
    rw [ih followed.2]
    simp [not_not.mp h, followed.1]

/-- Unless it is followed, a thread of the task is left. -/
lemma mem_of_not_followed {passed out : List KThread} {tasks after : Tasks} {result found : Bool}
    (ran : interruptUntimed task capacity passed untimed tasks result = some (out, after, found)) :
    (∀ kthread ∈ passed, kthread ∈ out) ∧
      (¬ Followed task untimed → ∃ kthread ∈ out, kthread.task = task) := by
  fun_induction interruptUntimed task capacity passed untimed tasks result with
  | case1 =>
    cases ran
    exact ⟨fun _ hk => hk, fun hn => absurd trivial hn⟩
  | case2 _ _ _ _ h =>
    cases ran
    exact ⟨fun _ hk => mem_append_left _ hk, fun hn => absurd h hn⟩
  | case3 _ last _ _ h =>
    cases ran
    exact ⟨fun _ hk => mem_append_left _ hk, fun _ => ⟨last, by simp, not_not.mp h⟩⟩
  | case4 => cases ran
  | case5 _ _ _ _ _ _ h ih =>
    obtain ⟨hk, hn⟩ := ih ran
    rw [Followed, if_pos h]
    exact ⟨(forall_mem_append.mp hk).1, hn⟩
  | case6 _ _ next _ _ _ h ih =>
    obtain ⟨hk, hn⟩ := ih ran
    rw [Followed, if_neg h]
    refine ⟨(forall_mem_append.mp hk).1, fun hf => ?_⟩
    by_cases hx : next.task = task
    · exact ⟨next, hk next (by simp), hx⟩
    · exact hn fun hr => hf ⟨hx, hr⟩

lemma getWaitDelta_foldl (cleared : List KThread) (kthread : KThread) :
    ∀ tasks : Tasks, (cleared.foldl Tasks.clearBlocking tasks).getWaitDelta kthread =
      if ∃ other ∈ cleared, other.Clears kthread then 0 else tasks.getWaitDelta kthread := by
  induction cleared with
  | nil => exact fun _ => rfl
  | cons first rest ih =>
    intro tasks
    rw [foldl_cons, ih, Tasks.getWaitDelta_clearBlocking]
    by_cases hr : ∃ other ∈ rest, other.Clears kthread
    · rw [if_pos hr, if_pos (hr.imp fun _ h => ⟨mem_cons_of_mem _ h.1, h.2⟩)]
    · rw [if_neg hr]
      simp [exists_or, or_and_right, mem_cons, hr]

/-- What the loops need of the lists, and of the waits of the timed one. -/
structure Wakeable (sleepers : Sleepers) (untimed : List KThread) (task : Nat) : Prop where
  parked : ∀ kthread ∈ sleepers.timed, kthread.task = task →
    sleepers.tasks.isInterruptible kthread = false
  followed : Followed task untimed
  told : (∃ kthread ∈ sleepers.timed, kthread.task = task) →
    ∃ kthread ∈ untimed, kthread.task = task
  waits : ∀ kthread ∈ sleepers.waiting, (∃ other ∈ untimed, other.task = task ∧
    other.Clears kthread) → sleepers.tasks.getWaitDelta kthread = 0

variable {sleepers : Sleepers}

lemma eq_of_deadlines {delta other : KThread → Nat} (list : List KThread) :
    ∀ start, DeltaQueue.deadlines delta start list = DeltaQueue.deadlines other start list →
      ∀ kthread ∈ list, delta kthread = other kthread := by
  induction list with
  | nil => exact fun _ _ _ hk => (nomatch hk)
  | cons first rest ih =>
    intro start he kthread hk
    obtain ⟨hh, ht⟩ := cons.inj he
    have hf := Nat.add_left_cancel (Prod.mk.inj hh).2
    rw [hf] at ht
    rcases mem_cons.mp hk with rfl | hk
    · exact hf
    · exact ih _ ht kthread hk

lemma interruptTask_eq (asleep : ∀ kthread ∈ sleepers.timed, kthread.task = task →
      sleepers.tasks.isInterruptible kthread = false) :
    sleepers.interruptTask task = some (sleepers.timed.any (·.task = task), sleepers) := by
  rw [Sleepers.interruptTask, if_neg]
  · congr 2
    rw [Bool.eq_iff_iff]
    simp
  · simp only [any_eq_true, mem_filter, decide_eq_true_eq, not_exists, not_and, and_imp]
    intro kthread hk ht
    rw [asleep kthread hk ht]
    exact Bool.false_ne_true

lemma interruptBoth_eq
    (kept : sleepers.interruptTask task = some (sleepers.timed.any (·.task = task), sleepers))
    (followed : Followed task untimed) : interruptBoth sleepers untimed task capacity =
      some (sleepers.timed.any (·.task = task) || untimed.any (·.task = task),
        ⟨sleepers.queue, (untimed.filter (·.task = task)).foldl Tasks.clearBlocking sleepers.tasks⟩,
        untimed.filter (·.task ≠ task)) := by
  simp only [interruptBoth, kept, Option.bind_eq_bind, Option.bind_some,
    interruptUntimed_of_followed [] _ _ followed]
  rfl

lemma filter_waitTimes (asleep : ∀ kthread ∈ sleepers.timed, kthread.task = task →
      sleepers.tasks.isInterruptible kthread = false) :
    sleepers.waitTimes.filter (fun entry =>
      ¬ (entry.1.task = task ∧ sleepers.tasks.isInterruptible entry.1)) = sleepers.waitTimes := by
  refine filter_eq_self.mpr fun entry hm => ?_
  have hw := DeltaQueue.mem_of_mem_deadlines _ _ hm
  simpa [imp_iff_not_or] using asleep entry.1 (mem_of_mem_drop hw)

/-- The wait times stay exactly if no wait that is not over is cleared. -/
lemma waitTimes_cleared_iff (untimed : List KThread) : Sleepers.waitTimes ⟨sleepers.queue,
    (untimed.filter (·.task = task)).foldl Tasks.clearBlocking sleepers.tasks⟩ =
    sleepers.waitTimes ↔ ∀ kthread ∈ sleepers.waiting, (∃ other ∈ untimed, other.task = task ∧
      other.Clears kthread) → sleepers.tasks.getWaitDelta kthread = 0 := by
  have hc (kthread : KThread) : (∃ other ∈ untimed.filter (·.task = task), other.Clears kthread) ↔
      ∃ other ∈ untimed, other.task = task ∧ other.Clears kthread := by
    simp [and_assoc]
  constructor
  · intro he kthread hk h
    have hd := eq_of_deadlines _ 0 he kthread hk
    rw [getWaitDelta_foldl, if_pos ((hc kthread).mpr h)] at hd
    exact hd.symm
  · intro hw
    refine DeltaQueue.deadlines_congr _ (fun kthread hk => ?_) 0
    rw [getWaitDelta_foldl]
    split
    case isTrue h => exact (hw kthread hk ((hc kthread).mp h)).symm
    case isFalse => rfl

theorem wakesTask_iff (sleepers : Sleepers) (untimed : List KThread) (task capacity : Nat) :
    WakesTask sleepers untimed task capacity ↔ Wakeable sleepers untimed task := by
  by_cases parked : ∀ kthread ∈ sleepers.timed, kthread.task = task →
      sleepers.tasks.isInterruptible kthread = false
  swap
  · refine ⟨?_, fun wakes => absurd wakes.parked parked⟩
    rintro ⟨_, _, _, result, -⟩
    have refused : sleepers.interruptTask task = none := by
      push Not at parked
      obtain ⟨kthread, isIn, same, interrupted⟩ := parked
      rw [Sleepers.interruptTask, if_pos]
      simp only [any_eq_true, mem_filter, decide_eq_true_eq]
      exact ⟨kthread, ⟨isIn, same⟩, by simpa using interrupted⟩
    rw [interruptBoth, refused] at result
    cases result
  have interrupted := interruptTask_eq parked
  by_cases followed : Followed task untimed
  swap
  · refine ⟨?_, fun wakes => absurd wakes.followed followed⟩
    rintro ⟨_, _, rest, result, told, -⟩
    simp only [interruptBoth, interrupted, Option.bind_eq_bind, Option.bind_some,
      Option.bind_eq_some_iff] at result
    obtain ⟨⟨out, tasks, found⟩, ran, result⟩ := result
    cases result
    obtain ⟨kthread, isIn, same⟩ := (mem_of_not_followed ran).2 followed
    rw [show out = _ from told] at isIn
    exact absurd same (by simpa using (mem_filter.mp isIn).2)
  have shorter : (untimed.filter (·.task ≠ task)).length < untimed.length ↔
      ∃ kthread ∈ untimed, kthread.task = task := by
    rw [length_filter_lt_length_iff_exists]
    simp
  have both := @interruptBoth_eq task capacity untimed sleepers interrupted followed
  constructor
  · rintro ⟨_, _, _, result, -, waits, told⟩
    rw [both] at result
    cases result
    rw [filter_waitTimes parked] at waits
    refine ⟨parked, followed, fun ⟨kthread, isIn, same⟩ => ?_, (waitTimes_cleared_iff untimed).mp
      waits⟩
    have someTimed : sleepers.timed.any (·.task = task) = true :=
      any_eq_true.mpr ⟨kthread, isIn, decide_eq_true same⟩
    rw [waits, someTimed, shorter] at told
    exact (told.mp rfl).resolve_right (lt_irrefl _)
  · intro wakes
    have waits := (waitTimes_cleared_iff untimed).mpr wakes.waits
    refine ⟨_, _, _, both, rfl, waits.trans (filter_waitTimes parked).symm, ?_⟩
    rw [waits, shorter, Bool.or_eq_true, any_eq_true, any_eq_true]
    simp only [decide_eq_true_eq, lt_irrefl, or_false]
    exact ⟨fun result => result.elim wakes.told id, .inr⟩

/-- The second of two adjacent threads of the task is passed over. -/
theorem not_wakesTask_adjacent :
    ¬ WakesTask {} [⟨1, none⟩, ⟨1, some 2⟩, ⟨3, none⟩] 1 4 := by
  rintro ⟨_, _, rest, h, hr, -⟩
  cases h
  exact absurd hr (by decide)

end OoOS.Sched
