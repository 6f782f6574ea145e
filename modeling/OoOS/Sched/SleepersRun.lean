import Mathlib.Data.List.TakeWhile
import OoOS.Lib.DeltaQueue
import OoOS.Sched.Sleepers

/-!
# When sleeping threads wake up

As long as every new sleeper goes to the end of the delta queue, each thread is
woken by the tick of its deadline.
-/

namespace OoOS.Sched.Sleepers

open List Option Libk Lib DeltaQueue Tasks Sleepers DynamicQueue

def deadlines (sleepers : Sleepers) : List (KThread × Nat) :=
  DeltaQueue.deadlines sleepers.tasks.getWaitDelta 0 sleepers.queue.pending

/-- The sleepers are in a timed wait, none of them is cleared with one in front
of it, and the first one still has to wait. -/
structure Consistent (sleepers : Sleepers) : Prop where
  sound : sleepers.queue.Sound
  blocking : ∀ kthread ∈ sleepers.queue.pending, sleepers.tasks.isBlocking kthread = true
  timed : ∀ kthread ∈ sleepers.queue.pending, sleepers.tasks.Timed kthread
  present : ∀ kthread ∈ sleepers.queue.pending, kthread.task ≠ 0
  apart : sleepers.queue.pending.Pairwise
    fun first second => ¬ first.Clears second
  positive : ∀ first rest, sleepers.queue.pending = first :: rest →
    0 < sleepers.tasks.getWaitDelta first
  bounded : DeltaQueue.total sleepers.tasks.getWaitDelta
    sleepers.queue.pending < 2 ^ 64

/-- A new sleeper waits at least as long as all others, the slots of a task have
nothing to interrupt, and a tick that wakes all finds nothing behind the queue. -/
def Guard (sleepers : Sleepers) : Call → Prop
  | .setWaitTimed kthread time _ =>
    sleepers.tasks.isBlocking kthread = false → kthread.task ≠ 0 ∧ 0 < time ∧ time < 2 ^ 64 ∧
      sleepers.cumulativeRemainingTicks ≤ time ∧
      (kthread.thread = none → ∀ other ∈ sleepers.waiting, other.task ≠ kthread.task)
  | .interruptWait _ => True
  | .interruptTask task =>
    ∀ kthread ∈ sleepers.queue.slots, kthread.task = task →
      sleepers.tasks.isInterruptible kthread = false
  | .onTick totalTasks taskLockFlag behind =>
    totalTasks ≠ 0 ∧ taskLockFlag = false ∧ (sleepers.cumulativeRemainingTicks = 1 →
        behind.task = 0 ∨ (sleepers.tasks.getWaitDelta behind ≠ 0 ∧
            ∀ kthread ∈ sleepers.waiting, ¬ kthread.Clears behind))

def Guarded : List Call → Sleepers → Prop
  | [], _ => True
  | call :: calls, sleepers =>
    sleepers.Guard call ∧ ∀ after, sleepers.step call = some after → Guarded calls after

variable {tasks : Tasks} {kthread : KThread}

lemma clears_self (kthread : KThread) : kthread.Clears kthread := Or.inl rfl

section

variable (cleared : List KThread)

lemma foldl_clearBlocking_of_apart :
    ∀ tasks : Tasks, (∀ other ∈ cleared, ¬ other.Clears kthread) →
      (cleared.foldl clearBlocking tasks).getWaitDelta kthread = tasks.getWaitDelta kthread ∧
        (cleared.foldl clearBlocking tasks).isBlocking kthread = tasks.isBlocking kthread := by
  induction cleared with
  | nil =>
    intro tasks _
    exact ⟨rfl, rfl⟩
  | cons first _ ih =>
    intro tasks apart
    have hnf := apart first mem_cons_self
    have keeps := ih (tasks.clearBlocking first) (forall_mem_cons.mp apart).2
    rw [getWaitDelta_clearBlocking, if_neg hnf, isBlocking_clearBlocking, if_neg hnf] at keeps
    exact keeps

lemma foldl_clearBlocking_timed : ∀ tasks : Tasks, tasks.Timed kthread →
    (cleared.foldl clearBlocking tasks).Timed kthread := by
  induction cleared with
  | nil =>
    intro tasks timed
    exact timed
  | cons first _ ih =>
    intro tasks timed
    exact ih _ (timed.clearBlocking first)

lemma foldl_clearBlocking_stays :
    ∀ tasks : Tasks, tasks.isBlocking kthread = false →
      (cleared.foldl clearBlocking tasks).isBlocking kthread = false := by
  induction cleared with
  | nil =>
    intro tasks clear
    exact clear
  | cons _ _ ih =>
    intro tasks clear
    apply ih
    rw [isBlocking_clearBlocking, clear, ite_self]

lemma foldl_clearBlocking_of_mem : ∀ tasks : Tasks, kthread ∈ cleared →
    (cleared.foldl clearBlocking tasks).isBlocking kthread = false := by
  induction cleared with
  | nil =>
    intro tasks mem
    cases mem
  | cons _ rest ih =>
    intro tasks mem
    rcases mem_cons.mp mem with rfl | hb
    · refine foldl_clearBlocking_stays rest (tasks.clearBlocking kthread) ?_
      rw [isBlocking_clearBlocking, if_pos (clears_self kthread)]
    · exact ih _ hb

end

variable {sleepers : Sleepers}

lemma Consistent.waiting_eq (consistent : sleepers.Consistent) :
    sleepers.waiting = sleepers.queue.pending := by
  rw [waiting, consistent.sound.stop_eq, take_length]
  rfl

lemma Consistent.not_overrun (consistent : sleepers.Consistent) :
    ¬ sleepers.queue.stop < sleepers.queue.next :=
  Nat.not_lt_of_le consistent.sound.next_le

lemma foldl_wadd_eq {delta : KThread → Nat} (kthreads : List KThread) :
    ∀ start, start + total delta kthreads < 2 ^ 64 →
      kthreads.foldl (fun result kthread => wadd result (delta kthread)) start =
        start + total delta kthreads := by
  induction kthreads with
  | nil =>
    intro start _
    rfl
  | cons first _ ih =>
    intro start bounded
    rw [total_cons] at bounded ⊢
    have sum : wadd start (delta first) = start + delta first := by
      rw [wadd, Nat.mod_eq_of_lt (by omega), add_comm]
    rw [foldl_cons, sum, ih _ (by omega), add_assoc]

lemma Consistent.cumulative_eq (consistent : sleepers.Consistent) :
    sleepers.cumulativeRemainingTicks = total sleepers.tasks.getWaitDelta
        sleepers.queue.pending := by
  rw [cumulativeRemainingTicks, consistent.waiting_eq,
    foldl_wadd_eq _ 0 (by have := consistent.bounded; omega), zero_add]

lemma Consistent.cells (consistent : sleepers.Consistent) :
    sleepers.queue.pending.Pairwise fun first second => first.cell ≠ second.cell :=
  consistent.apart.imp fun apart same => apart (.inl same.symm)

/-- A sleeper is put in at its time. -/
lemma Consistent.setWaitTimed (consistent : sleepers.Consistent) {time : Nat}
    {canInterrupt : Bool} (guard : sleepers.Guard (.setWaitTimed kthread time canInterrupt))
    (awake : sleepers.tasks.isBlocking kthread = false) :
    ∃ after, sleepers.setWaitTimed kthread time canInterrupt = some (true, after) ∧
      after.Consistent ∧ after.deadlines = sleepers.deadlines ++ [(kthread, time)] := by
  obtain ⟨hpr, pos, small, hla, alone⟩ := guard awake
  rw [consistent.cumulative_eq] at hla
  rw [consistent.waiting_eq] at alone
  have hoc : ∀ other ∈ sleepers.queue.pending, other.cell ≠ kthread.cell := by
    intro other mem same
    have hbl := consistent.blocking other mem
    rw [isBlocking_congr _ same, awake] at hbl
    cases hbl
  have hnc : ∀ other ∈ sleepers.queue.pending, ¬ other.Clears kthread := by
    intro other mem hcl
    rcases hcl with hsc | htc
    · exact hoc other mem hsc.symm
    rcases kthread with ⟨_, _ | thread⟩
    · exact alone rfl other mem (Sum.inl.inj htc).symm
    · cases htc
  -- The new control data, and that nothing changes for the others.
  generalize isTasks : (sleepers.tasks.setBlocking kthread
    canInterrupt).setWaitDelta kthread (time - total
      sleepers.tasks.getWaitDelta sleepers.queue.pending) = tasks
  have hsd : ∀ other ∈ sleepers.queue.pending,
      tasks.getWaitDelta other = sleepers.tasks.getWaitDelta other := by
    intro other mem
    rw [← isTasks, getWaitDelta_setWaitDelta, if_neg (hoc other mem), getWaitDelta_setBlocking]
  have hod : tasks.getWaitDelta kthread = time - total
      sleepers.tasks.getWaitDelta sleepers.queue.pending := by
    rw [← isTasks, getWaitDelta_setWaitDelta, if_pos rfl]
  have hst := total_congr hsd
  refine ⟨⟨sleepers.queue.push kthread, tasks⟩, ?_, ?_, ?_⟩
  · have ht : (Sleepers.mk sleepers.queue (sleepers.tasks.setBlocking
        kthread canInterrupt)).cumulativeRemainingTicks =
          total sleepers.tasks.getWaitDelta sleepers.queue.pending := by
      rw [← consistent.cumulative_eq]
      simp [cumulativeRemainingTicks, waiting, getWaitDelta_setBlocking]
    have hd : wsub time (total sleepers.tasks.getWaitDelta sleepers.queue.pending) =
          time - total sleepers.tasks.getWaitDelta sleepers.queue.pending := by
      rw [wsub]
      omega
    rw [Sleepers.setWaitTimed, if_neg (by rw [awake]; simp), setWaitTime,
      if_neg consistent.not_overrun]
    simp [ht, if_neg (Nat.not_lt_of_le hla), hd, isTasks]
  · have hpe := consistent.sound.pending_push kthread
    refine ⟨consistent.sound.push kthread, ?_, ?_, ?_, ?_, ?_, ?_⟩
    · intro other mem
      rw [hpe, mem_append, mem_singleton] at mem
      rw [← isTasks, isBlocking_setWaitDelta, isBlocking_setBlocking]
      rcases mem with hbe | rfl
      · rw [if_neg (hoc other hbe)]
        exact consistent.blocking other hbe
      · rw [if_pos rfl]
    · intro other mem
      rw [hpe, mem_append, mem_singleton] at mem
      rw [← isTasks]
      rcases mem with hbe | rfl
      · exact (consistent.timed other hbe).setWait _ _ _
      · exact timed_setWait_self _ _ _ _
    · intro other mem
      rw [hpe, mem_append, mem_singleton] at mem
      rcases mem with hbe | rfl
      · exact consistent.present other hbe
      · exact hpr
    · rw [hpe, pairwise_append]
      refine ⟨consistent.apart, pairwise_singleton _ _, ?_⟩
      intro other mem _ hl
      rw [mem_singleton] at hl
      rw [hl]
      exact hnc other mem
    · intro first _ hp
      rw [hpe] at hp
      cases hb : sleepers.queue.pending with
      | nil =>
        rw [hb] at hp hod
        cases hp
        rw [hod]
        exact pos
      | cons _ tail =>
        rw [hb] at hp hsd
        cases hp
        rw [hsd first mem_cons_self]
        exact consistent.positive first tail hb
    · simp only [hpe, total_append, hst, total_cons, hod]
      have none : total tasks.getWaitDelta [] = 0 := rfl
      omega
  · simp only [deadlines, consistent.sound.pending_push,
      deadlines_append, hst, DeltaQueue.deadlines, hod, deadlines_congr _ hsd]
    congr 3
    omega

def Removes (before after : List (KThread × Nat)) (waiting : KThread) : Prop :=
  after = before ∨ ∃ front entry rest, before = front ++ entry :: rest ∧
    entry.1 = waiting ∧ after = front ++ rest

variable {front rest : List KThread} {waiting : KThread}

/-- Control data in which the time that a sleeper has left went to the next
one. -/
structure HandsOn (sleepers : Sleepers) (front : List KThread)
    (waiting : KThread) (rest : List KThread) (tasks : Tasks) : Prop where
  sameFront : ∀ other ∈ front, tasks.getWaitDelta other = sleepers.tasks.getWaitDelta other
  sameBlock : ∀ other, tasks.isBlocking other = sleepers.tasks.isBlocking other
  keepsTimed : ∀ other, sleepers.tasks.Timed other → tasks.Timed other
  added : ∀ first others, rest = first :: others →
    tasks.getWaitDelta first = sleepers.tasks.getWaitDelta first +
        sleepers.tasks.getWaitDelta waiting ∧
      ∀ other ∈ others, tasks.getWaitDelta other = sleepers.tasks.getWaitDelta other

lemma HandsOn.cleared (handsOn : HandsOn sleepers front waiting rest tasks)
    (onlyOwn : ∀ other, other ∈ front ∨ other ∈ rest → ¬ waiting.Clears other) :
    (∀ other ∈ front, (tasks.clearBlocking waiting).getWaitDelta other =
      sleepers.tasks.getWaitDelta other) ∧
    ∀ first others, rest = first :: others → (tasks.clearBlocking waiting).getWaitDelta first =
          sleepers.tasks.getWaitDelta first + sleepers.tasks.getWaitDelta waiting ∧
        ∀ other ∈ others, (tasks.clearBlocking waiting).getWaitDelta other =
          sleepers.tasks.getWaitDelta other := by
  have delta : ∀ other, other ∈ front ∨ other ∈ rest →
      (tasks.clearBlocking waiting).getWaitDelta other = tasks.getWaitDelta other := by
    intro other ho
    rw [getWaitDelta_clearBlocking, if_neg (onlyOwn other ho)]
  refine ⟨?_, ?_⟩
  · intro other ho
    rw [delta other (.inl ho), handsOn.sameFront other ho]
  intro first others hr
  obtain ⟨sum, hso⟩ := handsOn.added first others hr
  rw [hr] at delta
  refine ⟨?_, ?_⟩
  · rw [delta first (.inr mem_cons_self), sum]
  intro other ho
  rw [delta other (.inr (mem_cons_of_mem _ ho)), hso other ho]

section

variable (consistent : sleepers.Consistent)

include consistent

section

variable (isPending : sleepers.queue.pending = front ++ waiting :: rest)

include isPending

lemma Consistent.onlyOwn (interruptible : sleepers.tasks.isInterruptible waiting = true)
    {other : KThread} (isOther : other ∈ front ∨ other ∈ rest) : ¬ waiting.Clears other := by
  intro hcl
  have mem : waiting ∈ sleepers.queue.pending := by
    rw [isPending]
    simp
  have ht := (consistent.timed waiting mem).thread_eq_none (consistent.blocking waiting mem)
    interruptible
  have hoc : waiting.cell = .inl waiting.task := by rw [KThread.cell, ht]
  have cells := consistent.cells
  rw [isPending, pairwise_append, pairwise_cons] at cells
  have hsc : other.cell = waiting.cell := by
    rcases hcl with same | task
    · exact same
    · rw [task, hoc]
  rcases isOther with hb | hbe
  · exact cells.2.2 other hb waiting mem_cons_self hsc
  · exact cells.2.1.1 other hbe hsc.symm

lemma Consistent.erased : (sleepers.queue.eraseOne (sleepers.queue.next + front.length)).Sound ∧
    (sleepers.queue.eraseOne (sleepers.queue.next + front.length)).pending = front ++ rest := by
  have hin : front.length < sleepers.queue.pending.length := by
    rw [isPending, length_append, length_cons]
    omega
  obtain ⟨hsa, hpa⟩ := consistent.sound.eraseOne hin
  rw [isPending, eraseIdx_append_of_length_le le_rfl, Nat.sub_self, eraseIdx_cons_zero] at hpa
  exact ⟨hsa, hpa⟩

section

variable (onlyOwn : ∀ other, other ∈ front ∨ other ∈ rest → ¬ waiting.Clears other)

include onlyOwn

section

variable (handed : HandsOn sleepers front waiting rest tasks)

include handed

lemma Consistent.handsOn :
    (Sleepers.mk (sleepers.queue.eraseOne (sleepers.queue.next + front.length))
      (tasks.clearBlocking waiting)).Consistent := by
  have apart := consistent.apart
  have pos := consistent.positive
  have hb := consistent.bounded
  rw [isPending, pairwise_append, pairwise_cons] at apart
  rw [isPending, total_append, total_cons] at hb
  rw [isPending] at pos
  obtain ⟨hsa, hpa⟩ := consistent.erased isPending
  obtain ⟨hfd, restDelta⟩ := handed.cleared onlyOwn
  have hop : ∀ other ∈ front ++ rest, other ∈ sleepers.queue.pending := by
    intro other ho
    rw [isPending, mem_append, mem_cons]
    rcases mem_append.mp ho with hbe | hh
    · exact .inl hbe
    · exact .inr (.inr hh)
  refine ⟨hsa, ?_, ?_, ?_, ?_, ?_, ?_⟩
  · intro other ho
    simp only [hpa] at ho
    rw [isBlocking_clearBlocking, if_neg (onlyOwn other (mem_append.mp ho)), handed.sameBlock]
    exact consistent.blocking other (hop other ho)
  · intro other ho
    simp only [hpa] at ho
    exact (handed.keepsTimed other (consistent.timed other (hop other ho))).clearBlocking waiting
  · intro other ho
    simp only [hpa] at ho
    exact consistent.present other (hop other ho)
  · rw [hpa, pairwise_append]
    exact ⟨apart.1, apart.2.1.2, fun first hf second hs =>
      apart.2.2 first hf second (mem_cons_of_mem _ hs)⟩
  · intro first others hf
    simp only [hpa] at hf
    cases front with
    | nil =>
      rw [(restDelta first others hf).1]
      have hl := pos waiting rest rfl
      omega
    | cons _ _ =>
      cases hf
      rw [hfd first mem_cons_self]
      exact pos first _ rfl
  simp only [hpa, total_append, total_congr hfd]
  cases rest with
  | nil =>
    have none : total (tasks.clearBlocking waiting).getWaitDelta [] = 0 := rfl
    omega
  | cons first others =>
    obtain ⟨sum, hso⟩ := restDelta first others rfl
    rw [total_cons, sum, total_congr hso]
    rw [total_cons] at hb
    omega

lemma Consistent.handsOn_removes : Removes sleepers.deadlines (Sleepers.mk (sleepers.queue.eraseOne
    (sleepers.queue.next + front.length)) (tasks.clearBlocking waiting)).deadlines waiting := by
  obtain ⟨_, hpa⟩ := consistent.erased isPending
  obtain ⟨hfd, restDelta⟩ := handed.cleared onlyOwn
  right
  simp only [deadlines, hpa, isPending, deadlines_append front (waiting :: rest)]
  refine ⟨_, _, _, rfl, rfl, ?_⟩
  cases rest with
  | nil =>
    rw [deadlines_append, DeltaQueue.deadlines, DeltaQueue.deadlines, deadlines_congr front hfd]
  | cons first others =>
    obtain ⟨sum, hso⟩ := restDelta first others rfl
    exact deadlines_remove front hfd sum hso 0

end

end

end

lemma Consistent.handsOn_addWaitTicks {first : KThread}
    {others : List KThread}
    (isPending : sleepers.queue.pending = front ++ waiting :: first :: others) :
    HandsOn sleepers front waiting (first :: others) (sleepers.tasks.addWaitTicks first
        (sleepers.tasks.getWaitDelta waiting)) := by
  have cells := consistent.cells
  have hb := consistent.bounded
  rw [isPending, pairwise_append, pairwise_cons] at cells
  rw [isPending, total_append, total_cons, total_cons] at hb
  refine ⟨?_, ?_, ?_, ?_⟩
  · intro other ho
    rw [addWaitTicks, getWaitDelta_putWaitDelta, if_neg]
    exact cells.2.2 other ho first (mem_cons_of_mem _ mem_cons_self)
  · intro other
    rw [addWaitTicks, isBlocking_putWaitDelta]
  · intro other timed
    exact timed.putWaitDelta _ _
  intro _ _ hr
  cases hr
  constructor
  · rw [addWaitTicks, getWaitDelta_putWaitDelta, if_pos rfl,
      wadd, Nat.mod_eq_of_lt (by omega), add_comm]
  intro other ho
  rw [addWaitTicks, getWaitDelta_putWaitDelta, if_neg]
  exact fun hsc => (pairwise_cons.mp cells.2.1.2).1 other ho hsc.symm

lemma Consistent.interruptAt (isPending : sleepers.queue.pending = front ++ waiting :: rest)
    (interruptible : sleepers.tasks.isInterruptible waiting = true) :
    ∃ after, sleepers.interruptAt (sleepers.queue.next + front.length) waiting = (true, after) ∧
      after.Consistent ∧ Removes sleepers.deadlines after.deadlines waiting := by
  have same := consistent.sound.stop_eq
  have length := congrArg length isPending
  rw [pending, length_drop, length_append, length_cons] at length
  have hws : sleepers.queue.next + front.length < sleepers.queue.stop := by omega
  have next : (sleepers.queue.slots.take sleepers.queue.stop)[
      sleepers.queue.next + front.length + 1]? = rest.head? := by
    have slot := congrArg (fun elements => elements[front.length + 1]?) isPending
    simp only [pending, getElem?_drop] at slot
    rw [same, take_length, add_assoc, slot, getElem?_append_right (by omega)]
    simp [head?_eq_getElem?]
  have hoo : ∀ other, other ∈ front ∨ other ∈ rest → ¬ waiting.Clears other :=
    fun other => consistent.onlyOwn isPending interruptible
  rw [Sleepers.interruptAt, if_neg (by simp [hws, interruptible])]
  simp only [next]
  cases rest with
  | nil =>
    have hho : HandsOn sleepers front waiting [] sleepers.tasks := by
      refine ⟨fun _ _ => rfl, fun _ => rfl, fun _ timed => timed, ?_⟩
      intro _ _ isNil
      cases isNil
    exact ⟨_, rfl, consistent.handsOn isPending hoo hho, consistent.handsOn_removes isPending hoo
      hho⟩
  | cons _ _ =>
    have hho := consistent.handsOn_addWaitTicks isPending
    exact ⟨_, rfl, consistent.handsOn isPending hoo hho, consistent.handsOn_removes isPending hoo
      hho⟩

lemma Consistent.interruptWait (waiting : KThread) :
    ∃ result after, sleepers.interruptWait waiting = some (result, after) ∧ after.Consistent ∧
      Removes sleepers.deadlines after.deadlines waiting := by
  rw [Sleepers.interruptWait, if_neg consistent.not_overrun, consistent.waiting_eq]
  cases found : sleepers.queue.pending.idxOf? waiting with
  | none => exact ⟨false, sleepers, rfl, consistent, .inl rfl⟩
  | some offset =>
    rw [idxOf?, findIdx?_eq_some_iff_getElem] at found
    obtain ⟨hins, hw, _⟩ := found
    have here : sleepers.queue.pending[offset] = waiting := by simpa using hw
    have hp : sleepers.queue.pending = sleepers.queue.pending.take offset ++
          waiting :: sleepers.queue.pending.drop (offset + 1) := by
      rw [← here, ← drop_eq_getElem_cons, take_append_drop]
    have hf : (sleepers.queue.pending.take offset).length = offset := by
      rw [length_take]
      omega
    cases hin : sleepers.tasks.isInterruptible waiting with
    | false =>
      refine ⟨false, sleepers, ?_, consistent, .inl rfl⟩
      simp [Sleepers.interruptAt, hin, Bool.false_eq_true, and_false, not_false_eq_true]
    | true =>
      obtain ⟨after, hh, kept, hr⟩ := consistent.interruptAt hp hin
      rw [hf] at hh
      exact ⟨true, after, congrArg some hh, kept, hr⟩

end

/-- The loop wakes those that are due. -/
lemma wake_eq (behind : KThread) (slot : Nat) (pending : List KThread) :
    ∀ (sleepers : Sleepers) (fuel : Nat), sleepers.queue.Sound →
      sleepers.queue.pending = pending → pending.length < fuel → slot ≤ sleepers.queue.next →
      sleepers.queue.slots[slot]?.getD behind = pending.head?.getD behind →
      (∀ kthread ∈ pending, kthread.task ≠ 0) →
      pending.Pairwise (fun first second => ¬ first.Clears second) →
      ((∀ kthread ∈ pending, sleepers.tasks.getWaitDelta kthread = 0) → behind.task = 0 ∨
          (sleepers.tasks.getWaitDelta behind ≠ 0 ∧ ∀ kthread ∈ pending, ¬ kthread.Clears behind)) →
      ∃ queue, wake behind slot fuel sleepers = some ⟨queue, (pending.takeWhile fun kthread =>
            sleepers.tasks.getWaitDelta kthread = 0).foldl clearBlocking sleepers.tasks⟩ ∧
        queue.Sound ∧ queue.pending = pending.dropWhile fun kthread =>
          sleepers.tasks.getWaitDelta kthread = 0 := by
  induction pending with
  | nil =>
    intro sleepers fuel sound hp he _ hf _ _ quiet
    obtain ⟨fuel, rfl⟩ : ∃ less, fuel = less + 1 := ⟨fuel - 1, by omega⟩
    refine ⟨sleepers.queue, ?_, sound, hp⟩
    have stops : ¬ (behind.task ≠ 0 ∧ sleepers.tasks.getWaitDelta behind = 0) := by
      intro hgo
      rcases quiet (fun _ mem => by cases mem) with null | waits
      · exact hgo.1 null
      · exact waits.1 hgo.2
    rw [wake]
    simp [hf, head?_nil, getD_none, if_neg stops, takeWhile_nil, foldl_nil]
  | cons first rest ih =>
    intro sleepers fuel sound hp he _ hf hpr apart quiet
    obtain ⟨fuel, rfl⟩ : ∃ less, fuel = less + 1 := ⟨fuel - 1, by omega⟩
    rw [pairwise_cons] at apart
    have hin := pending_lt hp
    by_cases due : sleepers.tasks.getWaitDelta first = 0
    · have hgo : first.task ≠ 0 ∧ sleepers.tasks.getWaitDelta first = 0 :=
        ⟨hpr first mem_cons_self, due⟩
      have hrp := pending_popped hp
      -- The state after one round.
      generalize isSlots : sleepers.queue.slots.set slot ((mk { sleepers.queue with
          next := sleepers.queue.next + 1 }
          (sleepers.tasks.clearBlocking first)).nextSlot behind) = slots
      have hsl : slots.length = sleepers.queue.slots.length := by rw [← isSlots, length_set]
      have hr : slots.drop (sleepers.queue.next + 1) = rest := by
        rw [← isSlots, drop_set_of_lt (by omega)]
        exact hrp
      have hsd : ∀ kthread ∈ rest, (sleepers.tasks.clearBlocking first).getWaitDelta kthread =
            sleepers.tasks.getWaitDelta kthread := by
        intro kthread mem
        rw [getWaitDelta_clearBlocking, if_neg (apart.1 kthread mem)]
      obtain ⟨queue, woken, hsa, hpa⟩ :=
        ih (mk { sleepers.queue with
              slots := slots, next := sleepers.queue.next + 1 }
            (sleepers.tasks.clearBlocking first)) fuel
          (by
            have same := sound.stop_eq
            refine ⟨?_, ?_⟩
            · simp only
              omega
            simp only
            omega)
          hr (by rw [length_cons] at he; omega)
          (by simp only; omega)
          (by
            have hn : slots[slot]? = some ((mk
                { sleepers.queue with next := sleepers.queue.next + 1 }
                (sleepers.tasks.clearBlocking first)).nextSlot behind) := by
              rw [← isSlots, getElem?_set_self (by omega)]
            simp only [hn, getD_some, nextSlot]
            rw [← head?_drop]
            exact congrArg (fun rest => rest.head?.getD behind) hrp)
          (forall_mem_cons.mp hpr).2
          apart.2
          (by
            intro hh
            have every : ∀ kthread ∈ first :: rest, sleepers.tasks.getWaitDelta kthread = 0 := by
              intro kthread mem
              rcases mem_cons.mp mem with rfl | hb
              · exact due
              rw [← hsd kthread hb]
              exact hh kthread hb
            rcases quiet every with null | ⟨waits, keeps⟩
            · exact .inl null
            refine .inr ⟨?_, (forall_mem_cons.mp keeps).2⟩
            simp only [getWaitDelta_clearBlocking, if_neg (keeps first mem_cons_self)]
            exact waits)
      obtain ⟨hst, hsdr⟩ := due_congr rest hsd
      rw [takeWhile_cons_of_pos (by simpa using due), dropWhile_cons_of_pos (by simpa using due)]
      refine ⟨queue, ?_, hsa, ?_⟩
      · rw [wake]
        simp only [hf, head?_cons, getD_some, if_pos hgo, sound.pop_eq hp, isSlots, foldl_cons]
        rw [woken, hst]
      · rw [hpa, hsdr]
    · have stops : ¬ (first.task ≠ 0 ∧ sleepers.tasks.getWaitDelta first = 0) := fun hgo =>
        due hgo.2
      refine ⟨sleepers.queue, ?_, sound, ?_⟩
      · rw [wake, takeWhile_cons_of_neg (by simpa using due)]
        simp [hf, head?_cons, getD_some, if_neg stops, foldl_nil]
      rw [dropWhile_cons_of_neg (by simpa using due)]
      exact hp

def ticked (before : List (KThread × Nat)) : List (KThread × Nat) :=
  (before.map fun entry => (entry.1, entry.2 - 1)).dropWhile
    fun entry => entry.2 = 0

variable {first : KThread}

structure Ticking (sleepers : Sleepers) (first : KThread) (rest : List KThread)
    (tasks : Tasks) : Prop where
  firstDelta : tasks.getWaitDelta first + 1 = sleepers.tasks.getWaitDelta first
  restDelta : ∀ kthread ∈ rest, sleepers.tasks.getWaitDelta kthread = tasks.getWaitDelta kthread
  otherDelta : ∀ kthread, kthread.cell ≠ first.cell →
    tasks.getWaitDelta kthread = sleepers.tasks.getWaitDelta kthread
  sameBlock : ∀ kthread, tasks.isBlocking kthread = sleepers.tasks.isBlocking kthread
  keepsTimed : ∀ kthread, sleepers.tasks.Timed kthread → tasks.Timed kthread

lemma Consistent.ticking (consistent : sleepers.Consistent)
    (isPending : sleepers.queue.pending = first :: rest)
    : Ticking sleepers first rest (sleepers.tasks.waitTick first) := by
  have pos := consistent.positive first rest isPending
  have hb := consistent.bounded
  have cells := consistent.cells
  rw [isPending] at hb cells
  rw [total_cons] at hb
  have hod : ∀ kthread, kthread.cell ≠ first.cell →
      (sleepers.tasks.waitTick first).getWaitDelta kthread =
        sleepers.tasks.getWaitDelta kthread := by
    intro kthread otherCell
    rw [waitTick, getWaitDelta_putWaitDelta, if_neg otherCell]
  refine ⟨?_, ?_, hod, ?_, ?_⟩
  · rw [waitTick, getWaitDelta_putWaitDelta, if_pos rfl, wsub]
    omega
  · intro kthread mem
    rw [hod kthread fun same => (pairwise_cons.mp cells).1 kthread mem same.symm]
  · intro kthread
    rw [waitTick, isBlocking_putWaitDelta]
  intro kthread timed
  exact timed.putWaitDelta _ _

lemma Ticking.total_eq_one (ticking : Ticking sleepers first rest tasks)
    (allDue : ∀ kthread ∈ first :: rest, tasks.getWaitDelta kthread = 0) :
    total sleepers.tasks.getWaitDelta (first :: rest) = 1 := by
  have hrt : total sleepers.tasks.getWaitDelta rest = 0 := by
    rw [total_congr ticking.restDelta, total, sum_eq_zero]
    intro _ mem
    obtain ⟨kthread, hth, rfl⟩ := mem_map.mp mem
    exact allDue kthread (mem_cons_of_mem _ hth)
  have hfdu := allDue first mem_cons_self
  have hfd := ticking.firstDelta
  rw [total_cons]
  omega

variable {queue : ResettableQueue KThread} {wakees waits : List KThread}

lemma waits_keep (isSplit : wakees ++ waits = first :: rest)
    (apart : (first :: rest).Pairwise fun former hl => ¬ former.Clears hl) (mem : kthread ∈ waits) :
    (wakees.foldl clearBlocking tasks).getWaitDelta kthread = tasks.getWaitDelta kthread ∧
      (wakees.foldl clearBlocking tasks).isBlocking kthread = tasks.isBlocking kthread := by
  rw [← isSplit, pairwise_append] at apart
  apply foldl_clearBlocking_of_apart
  intro other ho
  exact apart.2.2 other ho kthread mem

section

variable (isPending : sleepers.queue.pending = first :: rest)
    (ticking : Ticking sleepers first rest tasks)

include isPending ticking

section

variable (consistent : sleepers.Consistent) (stepped : wakees ++ waits = first :: rest)
  (isWaiting : (first :: rest).dropWhile (fun kthread => tasks.getWaitDelta kthread = 0) = waits)
  (pendingAfter : queue.pending = waits)

include consistent stepped isWaiting pendingAfter

lemma Consistent.woken (sound : queue.Sound) :
    (Sleepers.mk queue (wakees.foldl clearBlocking tasks)).Consistent := by
  have hb := consistent.bounded
  have apart := consistent.apart
  have hfd := ticking.firstDelta
  rw [isPending] at hb apart
  rw [total_cons] at hb
  have keeps : ∀ kthread ∈ waits, (wakees.foldl clearBlocking tasks).getWaitDelta kthread =
          tasks.getWaitDelta kthread ∧ (wakees.foldl clearBlocking tasks).isBlocking kthread =
          tasks.isBlocking kthread := fun _ mem => waits_keep stepped apart mem
  have hop : ∀ kthread ∈ waits, kthread ∈ sleepers.queue.pending := by
    intro kthread mem
    rw [isPending, ← stepped]
    exact mem_append_right _ mem
  have hst : total tasks.getWaitDelta (first :: rest) < 2 ^ 64 := by
    rw [total_cons, ← total_congr ticking.restDelta]
    omega
  rw [← stepped, pairwise_append] at apart
  refine ⟨sound, ?_, ?_, ?_, ?_, ?_, ?_⟩
  · intro kthread mem
    simp only [pendingAfter] at mem
    rw [(keeps kthread mem).2, ticking.sameBlock]
    exact consistent.blocking kthread (hop kthread mem)
  · intro kthread mem
    simp only [pendingAfter] at mem
    apply foldl_clearBlocking_timed
    exact ticking.keepsTimed kthread (consistent.timed kthread (hop kthread mem))
  · intro kthread mem
    simp only [pendingAfter] at mem
    exact consistent.present kthread (hop kthread mem)
  · rw [pendingAfter]
    exact apart.2.1
  · intro head tail hh
    simp only [pendingAfter] at hh
    have hnd := head_dropWhile_not (fun kthread => decide (tasks.getWaitDelta kthread = 0))
      (by rw [isWaiting, hh]; exact cons_ne_nil head tail)
    simp only [isWaiting, hh, head_cons] at hnd
    rw [(keeps head (by rw [hh]; exact mem_cons_self)).1]
    have hn := of_decide_eq_false hnd
    omega
  simp only [pendingAfter, total_congr fun kthread mem => (keeps kthread mem).1]
  rw [← stepped, total_append] at hst
  omega

lemma Consistent.woken_deadlines :
    (Sleepers.mk queue (wakees.foldl clearBlocking tasks)).deadlines =
        ticked sleepers.deadlines := by
  have apart := consistent.apart
  rw [isPending] at apart
  have hsh := deadlines_tick 0 ticking.firstDelta ticking.restDelta
  simp only [deadlines, pendingAfter, isPending, ticked, hsh, deadlines_congr waits
      fun kthread mem => (waits_keep stepped apart mem).1]
  rw [← isWaiting, deadlines_dropWhile, List.map_map]
  congr 1
  exact (map_id _).symm

end

lemma Ticking.mem_wakees
    (isWoken : (first :: rest).takeWhile (fun kthread => tasks.getWaitDelta kthread = 0) = wakees)
    (mem : (kthread, 1) ∈ sleepers.deadlines) : kthread ∈ wakees := by
  have hs := deadlines_tick 0 ticking.firstDelta ticking.restDelta
  rw [deadlines, isPending, hs, List.mem_map] at mem
  obtain ⟨⟨_, left⟩, he, same⟩ := mem
  obtain ⟨rfl, isOne⟩ := Prod.mk.inj same
  obtain rfl : left = 0 := by
    omega
  have due := mem_takeWhile_of_due _ he
  rw [isWoken] at due
  exact due

end

lemma Consistent.onTick (consistent : sleepers.Consistent) {totalTasks : Nat} {taskLockFlag : Bool}
    {behind : KThread} (guard : sleepers.Guard (.onTick totalTasks taskLockFlag behind)) :
    ∃ after, sleepers.onTick totalTasks taskLockFlag behind = some after ∧ after.Consistent ∧
      after.deadlines = ticked sleepers.deadlines ∧ ∀ kthread, (kthread, 1) ∈ sleepers.deadlines →
        after.tasks.isBlocking kthread = false := by
  obtain ⟨hr, hu, quiet⟩ := guard
  rw [consistent.waiting_eq, consistent.cumulative_eq] at quiet
  rw [Sleepers.onTick, if_neg (by simp [hr, hu])]
  cases hp : sleepers.queue.pending with
  | nil =>
    have atEnd := consistent.sound.atEnd_iff.mpr hp
    refine ⟨sleepers, ?_, consistent, ?_, ?_⟩
    · simp [tickWait, atEnd, Bool.or_true]
    · rw [deadlines, hp]
      rfl
    intro kthread mem
    rw [deadlines, hp] at mem
    cases mem
  | cons first rest =>
    have apart := consistent.apart
    rw [hp] at quiet apart
    have hin := pending_lt hp
    have hac : sleepers.queue.slots[sleepers.queue.next]? = some first := by
      rw [← head?_drop]
      exact congrArg head? hp
    have hh : sleepers.queue.atEnd = false := by
      rw [← Bool.not_eq_true, consistent.sound.atEnd_iff, hp]
      exact cons_ne_nil _ _
    have hne : sleepers.queue.empty = false := by
      rw [← Bool.not_eq_true, consistent.sound.empty_iff]
      intro isNil
      rw [isNil] at hin
      exact Nat.not_lt_zero _ hin
    have ht := consistent.ticking hp
    have hti : sleepers.tickWait behind = ⟨sleepers.queue, sleepers.tasks.waitTick first⟩ := by
      rw [tickWait, if_neg (by simp [hh, hne])]
      simp [nextSlot, hac, getD_some]
    generalize sleepers.tasks.waitTick first = tasks at ht hti
    have hqa : (∀ kthread ∈ first :: rest, tasks.getWaitDelta kthread = 0) →
        behind.task = 0 ∨ (tasks.getWaitDelta behind ≠ 0 ∧
          ∀ kthread ∈ first :: rest, ¬ kthread.Clears behind) := by
      intro hadu
      rcases quiet (ht.total_eq_one hadu) with
        null | ⟨waits, keeps⟩
      · exact .inl null
      refine .inr ⟨?_, keeps⟩
      rw [ht.otherDelta behind fun same => keeps first mem_cons_self (.inl same)]
      exact waits
    obtain ⟨queue, woken, hsa, hpa⟩ := wake_eq behind
      sleepers.queue.next (first :: rest) ⟨sleepers.queue, tasks⟩
      (sleepers.queue.slots.length + 1) consistent.sound hp (by
        have length := congrArg length hp
        rw [pending, length_drop] at length
        omega)
      (le_refl _) (by simp [hac, head?_cons])
      (by rw [← hp]; exact consistent.present) apart hqa
    have hs := takeWhile_append_dropWhile
      (p := fun kthread => decide (tasks.getWaitDelta kthread = 0)) (l := first :: rest)
    refine ⟨⟨queue, _⟩, ?_, consistent.woken hp ht hs rfl hpa hsa, consistent.woken_deadlines hp ht
      hs rfl hpa, ?_⟩
    · simp only [hti, hh, Bool.false_eq_true, if_false]
      exact woken
    intro kthread mem
    exact foldl_clearBlocking_of_mem _ tasks (ht.mem_wakees hp rfl mem)

/-- A tick brings each deadline nearer by one. -/
lemma Consistent.step (consistent : sleepers.Consistent) {call : Call}
    (guard : sleepers.Guard call) :
    ∃ after, sleepers.step call = some after ∧ after.Consistent ∧
      ∀ kthread left, (kthread, left) ∈ sleepers.deadlines → call ≠ .interruptWait kthread →
        if call.isTick then if left = 1 then after.tasks.isBlocking kthread = false
          else (kthread, left - 1) ∈ after.deadlines else (kthread, left) ∈ after.deadlines := by
  cases call with
  | setWaitTimed other _ _ =>
    cases awake : sleepers.tasks.isBlocking other with
    | true =>
      refine ⟨sleepers, ?_, consistent, fun _ _ mem _ => mem⟩
      rw [Sleepers.step, Sleepers.setWaitTimed, if_pos awake]
      rfl
    | false =>
      obtain ⟨after, done, kept, added⟩ := consistent.setWaitTimed guard awake
      refine ⟨after, ?_, kept, ?_⟩
      · rw [Sleepers.step, done]
        rfl
      intro kthread left mem _
      rw [added]
      exact mem_append_left _ mem
  | interruptWait waiting =>
    obtain ⟨_, after, done, kept, hre⟩ := consistent.interruptWait waiting
    refine ⟨after, ?_, kept, ?_⟩
    · rw [Sleepers.step, done]
      rfl
    intro kthread left mem hu
    change (kthread, left) ∈ after.deadlines
    rcases hre with same | ⟨_, entry, rest, split, hw, less⟩
    · rw [same]
      exact mem
    rw [split, mem_append, mem_cons] at mem
    rw [less, mem_append]
    rcases mem with hbe | rfl | hb
    · exact .inl hbe
    · exact absurd (congrArg Call.interruptWait hw.symm) hu
    · exact .inr hb
  | interruptTask task =>
    refine ⟨sleepers, ?_, consistent, fun _ _ mem _ => mem⟩
    have hnf : ((sleepers.queue.slots.take sleepers.queue.stop).filter
        fun kthread => kthread.task = task).any sleepers.tasks.isInterruptible = false := by
      rw [List.any_eq_false]
      intro kthread mem
      rw [mem_filter] at mem
      rw [guard kthread (mem_of_mem_take mem.1) (of_decide_eq_true mem.2)]
      simp
    rw [Sleepers.step, interruptTask, if_neg (by simp [hnf])]
    rfl
  | onTick _ _ hb =>
    obtain ⟨after, done, kept, ht, woken⟩ := consistent.onTick guard
    refine ⟨after, done, kept, ?_⟩
    intro kthread left mem _
    change if left = 1 then after.tasks.isBlocking kthread = false
      else (kthread, left - 1) ∈ after.deadlines
    split
    · rename_i last
      rw [last] at mem
      exact woken kthread mem
    have hlp : 0 < left := by
      cases hp : sleepers.queue.pending with
      | nil =>
        rw [deadlines, hp] at mem
        cases mem
      | cons first rest =>
        have hl := consistent.positive first rest hp
        rw [deadlines, hp, DeltaQueue.deadlines, mem_cons] at mem
        rcases mem with here | hbf
        · have same := congrArg Prod.snd here
          omega
        have bound := start_le_of_mem_deadlines rest _ hbf
        omega
    rw [ht, ticked]
    have hs : (kthread, left - 1) ∈ sleepers.deadlines.map fun entry => (entry.1, entry.2 - 1) :=
      List.mem_map.mpr ⟨(kthread, left), mem, rfl⟩
    rw [← takeWhile_append_dropWhile (p := fun entry : KThread × Nat => entry.2 = 0)
      (l := sleepers.deadlines.map fun entry => (entry.1, entry.2 - 1)), mem_append] at hs
    rcases hs with due | waits
    · have isDue := mem_takeWhile_imp due
      simp only [decide_eq_true_eq] at isDue
      omega
    · exact waits

lemma Consistent.run (calls : List Call) :
    ∀ sleepers : Sleepers, sleepers.Consistent → Guarded calls sleepers →
      ∃ after, run calls sleepers = some after ∧ after.Consistent := by
  induction calls with
  | nil =>
    intro sleepers hc _
    exact ⟨sleepers, rfl, hc⟩
  | cons _ calls ih =>
    intro sleepers hc hg
    obtain ⟨next, hs, kept, _⟩ := hc.step hg.1
    obtain ⟨after, done, hca⟩ := ih next kept (hg.2 next hs)
    refine ⟨after, ?_, hca⟩
    rw [Sleepers.run, foldlM_cons, hs]
    exact done

lemma Consistent.run_deadline (later : List Call) :
    ∀ (sleepers after : Sleepers) (left : Nat), sleepers.Consistent →
      Guarded later sleepers → (kthread, left) ∈ sleepers.deadlines →
      Call.interruptWait kthread ∉ later → later.countP Call.isTick < left →
      Sleepers.run later sleepers = some after →
      (kthread, left - later.countP Call.isTick) ∈ after.deadlines := by
  induction later with
  | nil =>
    intro sleepers after left _ _ mem _ _ done
    cases done
    exact mem
  | cons call later ih =>
    intro sleepers after left hc hg mem hu early done
    obtain ⟨next, hs, kept, moves⟩ := hc.step hg.1
    rw [Sleepers.run, foldlM_cons, hs] at done
    rw [mem_cons, not_or] at hu
    have moved := moves kthread left mem (Ne.symm hu.1)
    rw [countP_cons] at early ⊢
    cases ht : call.isTick with
    | false =>
      simp only [ht, Bool.false_eq_true, if_false] at moved early ⊢
      exact ih next after left kept (hg.2 next hs) moved hu.2 early done
    | true =>
      simp only [ht, if_true] at moved early ⊢
      rw [if_neg (by omega)] at moved
      have rest := ih next after (left - 1) kept (hg.2 next hs) moved hu.2 (by omega) done
      have same : left - 1 - later.countP Call.isTick =
          left - (later.countP Call.isTick + 1) := by omega
      rw [same] at rest
      exact rest

lemma Guarded.append {after : Sleepers} (calls later : List Call) :
    ∀ sleepers : Sleepers, Guarded (calls ++ later) sleepers →
      run calls sleepers = some after → Guarded calls sleepers ∧ Guarded later after := by
  induction calls with
  | nil =>
    intro sleepers hg returned
    cases returned
    exact ⟨trivial, hg⟩
  | cons call calls ih =>
    intro sleepers hg returned
    rw [run, foldlM_cons] at returned
    cases hs : sleepers.step call with
    | none =>
      rw [hs] at returned
      cases returned
    | some next =>
      rw [hs] at returned
      have rest := ih next (hg.2 next hs) returned
      refine ⟨⟨hg.1, ?_⟩, rest.2⟩
      intro _ ho
      rw [hs] at ho
      cases ho
      exact rest.1

lemma run_append (calls later : List Call) : run (calls ++ later) sleepers =
    (run calls sleepers).bind (run later) := by
  rw [run, foldlM_append]
  rfl

def idle (tasks : Tasks) : Sleepers := { tasks := tasks }

lemma idle_consistent (tasks : Tasks) : (idle tasks).Consistent where
  sound := ⟨le_rfl, rfl⟩
  blocking := fun _ mem => by cases mem
  timed := fun _ mem => by cases mem
  present := fun _ mem => by cases mem
  apart := List.Pairwise.nil
  positive := fun _ _ hp => by cases hp
  bounded := Nat.two_pow_pos 64

/-- A thread that sleeps for `time` ticks and is not interrupted is blocked until
the last of them, and not after it. -/
theorem wakes_on_time {tasks : Tasks} {calls later : List Call} {kthread : KThread} {time : Nat}
    {canInterrupt : Bool} {before : Sleepers}
    (guarded : Guarded (calls ++ .setWaitTimed kthread time canInterrupt :: later) (idle tasks))
    (reached : run calls (idle tasks) = some before)
    (awake : before.tasks.isBlocking kthread = false)
    (undisturbed : Call.interruptWait kthread ∉ later) :
    ∃ after, run (calls ++ .setWaitTimed kthread time canInterrupt :: later)
        (idle tasks) = some after ∧ (later.countP Call.isTick < time →
        after.tasks.isBlocking kthread = true ∧
          (kthread, time - later.countP Call.isTick) ∈ after.deadlines) ∧
      (∀ earlier last, later = earlier ++ [last] → last.isTick = true →
        later.countP Call.isTick = time → after.tasks.isBlocking kthread = false) := by
  obtain ⟨callsOk, restOk⟩ := guarded.append _ _ _ reached
  obtain ⟨_, same, steady⟩ := Consistent.run calls _ (idle_consistent tasks) callsOk
  rw [reached] at same
  cases same
  obtain ⟨asleep, returned, kept, added⟩ := steady.setWaitTimed restOk.1 awake
  have slept : before.step (.setWaitTimed kthread time canInterrupt) = some asleep := by
    rw [step, returned]
    rfl
  have laterOk := restOk.2 asleep slept
  have member : (kthread, time) ∈ asleep.deadlines := by
    rw [added]
    exact mem_append_right _ mem_cons_self
  obtain ⟨after, ranLater, settled⟩ := Consistent.run later asleep kept laterOk
  refine ⟨after, ?_, ?_, ?_⟩
  · rw [run_append, reached, bind_some, run, foldlM_cons, slept]
    exact ranLater
  · intro early
    have still := Consistent.run_deadline later asleep after time kept laterOk member undisturbed
      early ranLater
    exact ⟨settled.blocking kthread (mem_of_mem_deadlines _ _ still), still⟩
  rintro earlier last rfl isTick onTime
  rw [run_append] at ranLater
  obtain ⟨almost, ranEarly, ranLast⟩ := bind_eq_some_iff.mp ranLater
  obtain ⟨earlyOk, lastOk⟩ := laterOk.append _ _ _ ranEarly
  rw [countP_append, countP_singleton, if_pos isTick] at onTime
  have alone : Call.interruptWait kthread ∉ earlier := fun isIn =>
    undisturbed (mem_append_left _ isIn)
  have still := Consistent.run_deadline earlier asleep almost time kept earlyOk member alone
    (by omega) ranEarly
  obtain ⟨_, same, almostOk⟩ := Consistent.run earlier asleep kept earlyOk
  rw [ranEarly] at same
  cases same
  obtain ⟨final, stepped, _, moves⟩ := almostOk.step lastOk.1
  have isFinal : final = after := by
    rw [run, foldlM_cons, stepped] at ranLast
    exact some.inj ranLast
  have notCut : last ≠ Call.interruptWait kthread := by
    intro equal
    rw [equal] at isTick
    cases isTick
  have woken := moves kthread _ still notCut
  rw [if_pos isTick, if_pos (by omega), isFinal] at woken
  exact woken

/-- The second of two sleepers wakes with the second tick. -/
theorem wakes_on_time_twoSleepers :
    ∃ after, run [.setWaitTimed ⟨1, none⟩ 1 true, .setWaitTimed ⟨2, none⟩ 2 true,
        .onTick 2 false ⟨0, none⟩, .onTick 2 false ⟨0, none⟩] (idle {}) = some after ∧
      after.tasks.isBlocking ⟨2, none⟩ = false := by
  have guarded : Guarded ([.setWaitTimed ⟨1, none⟩ 1 true] ++ .setWaitTimed ⟨2, none⟩ 2 true ::
      [.onTick 2 false ⟨0, none⟩, .onTick 2 false ⟨0, none⟩]) (idle {}) := by
    refine ⟨fun _ => ⟨by decide, by decide, by decide, by decide, nofun⟩, ?_⟩
    intro first stepped
    cases stepped
    refine ⟨fun _ => ⟨by decide, by decide, by decide, by decide, by decide⟩, fun _ _ => ?_⟩
    exact ⟨⟨by decide, rfl, fun _ => .inl rfl⟩, fun _ _ =>
      ⟨⟨by decide, rfl, fun _ => .inl rfl⟩, fun _ _ => trivial⟩⟩
  obtain ⟨after, ran, _, wakes⟩ := wakes_on_time guarded rfl rfl (by decide)
  exact ⟨after, ran, wakes [_] _ rfl rfl rfl⟩

/-- A sleeper that has to go in front of another one breaks the queue: neither
of the two wakes up. -/
theorem sleeps_on_insertedInFront :
    (run (.setWaitTimed ⟨1, none⟩ 10 true :: .setWaitTimed ⟨2, none⟩ 5 true ::
        List.replicate 10 (.onTick 2 false ⟨0, none⟩)) (idle {})).map
      (fun after => (after.tasks.isBlocking ⟨1, none⟩,
        after.tasks.isBlocking ⟨2, none⟩)) = some (true, true) := by
  decide

end OoOS.Sched.Sleepers
