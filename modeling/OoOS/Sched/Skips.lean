import Mathlib.Algebra.BigOperators.Group.Finset.Piecewise
import OoOS.Sched.SelectNext

/-!
# The rounds for skipped tasks

The loop of the code skips the front task of the level of the selection, once
for every lower level, and not the front tasks of those levels.
-/

namespace OoOS.Sched.Scheduler

open List Option Function

open Libk

def Untrimmed (sched : Scheduler) : Prop := ∀ level < levels, (sched.queues level).Untrimmed

def skipsOf (sched : Scheduler) (task : Nat) : Nat := (sched.tasks.taskCtl task).skips

def frontTask (sched : Scheduler) (level : Nat) : Option Nat :=
  (sched.queues level).next?.map KThread.task

def lengthAt (sched : Scheduler) (level : Nat) : Nat := (sched.queues level).slots.length

def occurrences (sched : Scheduler) (kthread : KThread) : Nat :=
  ∑ level ∈ Finset.range levels, (sched.queues level).slots.count kthread

variable {queue : ResettableQueue KThread} {task : Nat}

variable {sched : Scheduler} {source target level : Nat} {kthread : KThread}

lemma skips_setSkips (tasks : Tasks) (task skips other : Nat) :
    ((tasks.setSkips task skips).taskCtl other).skips =
      if other = task then skips % 128 else (tasks.taskCtl other).skips := by
  by_cases same : other = task
  · rw [if_pos same, same]
    simp [Tasks.setSkips, Tasks.setTask]
  rw [if_neg same]
  simp [Tasks.setSkips, Tasks.setTask, update_of_ne same]

lemma onSkipped_queues (sched : Scheduler) (level : Nat) :
    (sched.onSkipped level).queues = sched.queues := by
  rw [onSkipped]
  split <;> rfl

lemma skipsOf_onSkipped (sched : Scheduler) (level task : Nat) :
    (sched.onSkipped level).skipsOf task = if sched.frontTask level = some task then
        (sched.skipsOf task + 1) % 128 else sched.skipsOf task := by
  rw [onSkipped, frontTask]
  cases hf : (sched.queues level).next? with
  | none => simp
  | some kthread =>
    simp only [skipsOf, skips_setSkips, map_some, some.injEq]
    by_cases same : task = kthread.task
    · rw [if_pos same, if_pos same.symm, same]
    · rw [if_neg same, if_neg (Ne.symm same)]

lemma onSkipped_none (noFront : sched.frontTask level = none) : sched.onSkipped level = sched := by
  rw [frontTask, map_eq_none_iff] at noFront
  rw [onSkipped, noFront]

lemma onSkipped_congr {left right : Nat} (same : sched.frontTask left = sched.frontTask right) :
    sched.onSkipped left = sched.onSkipped right := by
  rw [frontTask, frontTask] at same
  rw [onSkipped, onSkipped]
  cases hl : (sched.queues left).next? with
  | none =>
    rw [hl, map_none, eq_comm, map_eq_none_iff] at same
    rw [same]
  | some _ =>
    rw [hl, map_some, eq_comm, map_eq_some_iff] at same
    obtain ⟨_, hr, hst⟩ := same
    rw [hr]
    simp [hst]

lemma skipFlag_eq_true_iff :
    sched.skipFlag level = true ↔ ∃ task, sched.frontTask level = some task ∧
        skipsThreshold < sched.skipsOf task := by
  rw [skipFlag, frontTask]
  cases hf : (sched.queues level).next? with
  | none => simp
  | some _ => simp [skipsOf]

lemma frontTask_congr {left right : Scheduler} (same : left.queues = right.queues) (level : Nat) :
    left.frontTask level = right.frontTask level := by
  rw [frontTask, frontTask, same]

lemma skipRound_unflagged (unflagged : (sched.onSkipped source).skipFlag source = false) :
    sched.skipRound source target = sched.onSkipped source := by
  rw [skipRound, unflagged]
  rfl

section

variable (isFront : (sched.queues source).next? = some kthread)

include isFront

lemma transferNext_other (other : source ≠ target) : sched.transferNext source target =
    (sched.setQueue target ((sched.queues target).push kthread)).setQueue
      source (sched.queues source).eraseNext := by
  rw [transferNext, isFront]
  simp [setQueue, update_of_ne other]

lemma transferNext_self : sched.transferNext source source = sched.setQueue source
    ((sched.queues source).push kthread).eraseNext := by
  rw [transferNext, isFront]
  simp [setQueue, update_self, update_idem]

end

lemma queues_transferNext_of_ne (notSource : level ≠ source) (notTarget : level ≠ target) :
    (sched.transferNext source target).queues level = sched.queues level := by
  rw [transferNext]
  split
  · rfl
  · simp [setQueue, update_of_ne notSource, update_of_ne notTarget]

lemma queues_skipRound_flagged (target : Nat)
    (flagged : (sched.onSkipped source).skipFlag source = true) :
    (sched.skipRound source target).queues = (sched.transferNext source target).queues := by
  have moved : ((sched.onSkipped source).transferNext source target).queues =
      (sched.transferNext source target).queues := by
    simp only [transferNext, onSkipped_queues]
    split
    · exact onSkipped_queues sched source
    · simp [setQueue, onSkipped_queues]
  simp only [skipRound, flagged, if_true]
  split <;> exact moved

lemma next?_of_flagged (flagged : (sched.onSkipped source).skipFlag source = true) :
    ∃ kthread, (sched.queues source).next? = some kthread := by
  obtain ⟨_, hf, _⟩ := skipFlag_eq_true_iff.mp flagged
  rw [frontTask, onSkipped_queues, map_eq_some_iff] at hf
  obtain ⟨kthread, hf, _⟩ := hf
  exact ⟨kthread, hf⟩

lemma occurrences_setQueue
    (same : ∀ kthread, queue.slots.count kthread = (sched.queues level).slots.count kthread)
    (kthread : KThread) :
    (sched.setQueue level queue).occurrences kthread = sched.occurrences kthread := by
  refine Finset.sum_congr rfl fun other _ => ?_
  by_cases here : other = level
  · rw [here]
    simp [Scheduler.setQueue, update_self, same]
  · simp [Scheduler.setQueue, update_of_ne here]

section

variable (untrimmed : sched.Untrimmed)

include untrimmed

lemma Untrimmed.pending_of_next? (within : level < levels)
    (front : (sched.queues level).next? = some kthread) :
    ∃ rest, (sched.queues level).pending = kthread :: rest := by
  rw [(untrimmed level within).sound.next?_eq, head?_eq_some_iff] at front
  exact front

lemma Untrimmed.setQueue (here : queue.Untrimmed) : (sched.setQueue level queue).Untrimmed := by
  intro other hw
  by_cases same : other = level
  · rw [same]
    simpa only [Scheduler.setQueue, update_self] using here
  · simpa only [Scheduler.setQueue, update_of_ne same] using untrimmed other hw

lemma Untrimmed.transferNext (inSource : source < levels)
    (inTarget : target < levels) : (sched.transferNext source target).Untrimmed := by
  cases hf : (sched.queues source).next? with
  | none =>
    rw [Scheduler.transferNext, hf]
    exact untrimmed
  | some kthread =>
    obtain ⟨_, hp⟩ := untrimmed.pending_of_next? inSource hf
    have hpu := (untrimmed target inTarget).push kthread
    by_cases same : source = target
    · subst same
      rw [transferNext_self hf]
      have hpe := (untrimmed source inSource).pending_push kthread
      rw [hp, cons_append] at hpe
      exact untrimmed.setQueue (hpu.eraseNext hpe)
    rw [transferNext_other hf same]
    exact (untrimmed.setQueue hpu).setQueue ((untrimmed source inSource).eraseNext hp)

section

variable (isFront : (sched.queues source).next? = some kthread)

include isFront

lemma lengthAt_transferNext_source (target : Nat) (inSource : source < levels)
    (other : source ≠ target) :
    (sched.transferNext source target).lengthAt source + 1 = sched.lengthAt source := by
  obtain ⟨_, hp⟩ := untrimmed.pending_of_next? inSource isFront
  rw [transferNext_other isFront other]
  simp only [lengthAt, setQueue, update_self]
  exact (untrimmed source inSource).length_eraseNext hp

lemma lengthAt_transferNext_target (target : Nat) (inTarget : target < levels)
    (other : source ≠ target) :
    (sched.transferNext source target).lengthAt target = sched.lengthAt target + 1 := by
  rw [transferNext_other isFront other]
  simp [lengthAt, setQueue, update_of_ne (Ne.symm other), update_self,
    (untrimmed target inTarget).slots_push,
    length_append]

lemma lengthAt_transferNext_self (inSource : source < levels) :
    (sched.transferNext source source).lengthAt source = sched.lengthAt source := by
  obtain ⟨_, hp⟩ := untrimmed.pending_of_next? inSource isFront
  have here := untrimmed source inSource
  have hpe := here.pending_push kthread
  rw [hp, cons_append] at hpe
  have hs := (here.push kthread).length_eraseNext hpe
  rw [here.slots_push, length_append, length_singleton] at hs
  rw [transferNext_self isFront]
  simp only [lengthAt, setQueue, update_self]
  omega

end

lemma skipsOf_skipRound_self (inSource : source < levels)
    (flagged : (sched.onSkipped source).skipFlag source = true)
    (isFront : sched.frontTask source = some task) :
    (sched.skipRound source source).skipsOf task = 0 := by
  rw [frontTask, map_eq_some_iff] at isFront
  obtain ⟨kthread, isFront, rfl⟩ := isFront
  obtain ⟨_, hp⟩ := untrimmed.pending_of_next? inSource isFront
  have here := untrimmed source inSource
  have hpe := here.pending_push kthread
  rw [hp, cons_append] at hpe
  have hsf : ((sched.onSkipped source).queues source).next? = some kthread := by
    rw [onSkipped_queues]
    exact isFront
  have he := (here.push kthread).eraseNext hpe
  have hb : (((sched.queues source).push kthread).eraseNext).back? = some kthread := by
    have last := (here.push kthread).pending_eraseNext hpe
    have hl : ((sched.queues source).push kthread).eraseNext.slots.getLast? = some kthread := by
      have hd := congrArg getLast? last
      rw [DynamicQueue.pending, getLast?_drop, getLast?_concat] at hd
      split at hd
      · cases hd
      · exact hd
    rw [DynamicQueue.back?, he.sound.stop_eq, ← getLast?_eq_getElem?]
    exact hl
  simp [skipRound, flagged, transferNext_self hsf, setQueue, update_self, onSkipped_queues, hb,
    skipsOf,
    skips_setSkips]

lemma Untrimmed.onSkipped : (sched.onSkipped level).Untrimmed := by
  intro other hw
  rw [onSkipped_queues]
  exact untrimmed other hw

lemma Untrimmed.skipRound (inSource : source < levels)
    (inTarget : target < levels) : (sched.skipRound source target).Untrimmed := by
  cases flag : (sched.onSkipped source).skipFlag source with
  | false =>
    rw [skipRound_unflagged flag]
    exact untrimmed.onSkipped
  | true =>
    intro level hw
    rw [queues_skipRound_flagged _ flag]
    exact untrimmed.transferNext inSource inTarget level hw

variable (inSource : source < levels) (inTarget : target < levels) (other : KThread)

include inSource inTarget other

/-- A transfer keeps how often a thread is queued. -/
lemma occurrences_transferNext :
    (sched.transferNext source target).occurrences other = sched.occurrences other := by
  cases hf : (sched.queues source).next? with
  | none => rw [Scheduler.transferNext, hf]
  | some kthread =>
    obtain ⟨_, hp⟩ := untrimmed.pending_of_next? inSource hf
    have he := (untrimmed source inSource).perm_eraseNext hp
    by_cases same : source = target
    · subst same
      have hpe := (untrimmed source inSource).pending_push kthread
      rw [hp, cons_append] at hpe
      have ha := (untrimmed source inSource).push kthread
        |>.perm_eraseNext hpe
      rw [transferNext_self hf]
      refine occurrences_setQueue (fun counted => ?_) other
      have count := ha.count_eq counted
      rw [(untrimmed source inSource).slots_push, count_append, count_cons,
        count_singleton] at count
      omega
    rw [transferNext_other hf same]
    -- Both sides are equal once the moved task is added where it is
    -- missing.
    have hb : ∀ level ∈ Finset.range levels, (((sched.setQueue target ((sched.queues target).push
          kthread)).setQueue source (sched.queues source).eraseNext).queues
            level).slots.count other + (if level = source then [kthread].count other else 0) =
          (sched.queues level).slots.count other +
            (if level = target then [kthread].count other else 0) := by
      intro level _
      by_cases hs : level = source
      · have count := he.count_eq other
        rw [count_cons] at count
        rw [if_pos hs, if_neg (by rw [hs]; exact same), hs, count_singleton]
        simp only [setQueue, update_self]
        omega
      rw [if_neg hs]
      by_cases ht : level = target
      · rw [if_pos ht, ht]
        simp [setQueue, update_of_ne (Ne.symm same), update_self,
          (untrimmed target inTarget).slots_push,
          count_append]
      rw [if_neg ht]
      simp [setQueue, update_of_ne hs, update_of_ne ht]
    have sums := Finset.sum_congr rfl hb
    rw [Finset.sum_add_distrib, Finset.sum_add_distrib, Finset.sum_ite_eq', Finset.sum_ite_eq',
      if_pos (Finset.mem_range.mpr inSource), if_pos (Finset.mem_range.mpr inTarget)] at sums
    exact Nat.add_right_cancel sums

lemma occurrences_skipRound :
    (sched.skipRound source target).occurrences other = sched.occurrences other := by
  cases flag : (sched.onSkipped source).skipFlag source with
  | false => rw [skipRound_unflagged flag, occurrences, onSkipped_queues, occurrences]
  | true =>
    rw [occurrences, queues_skipRound_flagged _ flag, ← occurrences]
    exact occurrences_transferNext untrimmed inSource inTarget other

end

def skipOnly (source : Nat → Nat) : (count : Nat) → Scheduler → Scheduler
  | 0, sched => sched
  | level + 1, sched => skipOnly source level (sched.onSkipped (source level))

def NoFlags (source : Nat → Nat) : (count : Nat) → Scheduler → Prop
  | 0, _ => True
  | level + 1, sched =>
    (sched.onSkipped (source level)).skipFlag (source level) = false ∧
      NoFlags source level (sched.onSkipped (source level))

def skipCount (sched : Scheduler) (source : Nat → Nat) (count task : Nat) : Nat :=
  (List.range count).countP fun level => sched.frontTask (source level) = some task

def counterAfter (rounds skips : Nat) : Nat :=
  if rounds = 0 then skips else (skips + rounds) % 128

variable {source : Nat → Nat} (count : Nat)

lemma skipRounds_of_noFlags : ∀ sched : Scheduler, NoFlags source count sched →
    sched.skipRounds source count = sched.skipOnly source count := by
  induction count with
  | zero =>
    intro sched _
    rfl
  | succ count ih =>
    intro sched hnf
    rw [skipRounds, skipOnly, skipRound_unflagged hnf.1]
    exact ih _ hnf.2

lemma queues_skipOnly (source : Nat → Nat) (count : Nat) :
    ∀ sched : Scheduler, (sched.skipOnly source count).queues = sched.queues := by
  induction count with
  | zero =>
    intro sched
    rfl
  | succ count ih =>
    intro sched
    rw [skipOnly, ih, onSkipped_queues]

lemma skipCount_congr {left right : Scheduler}
    (same : left.queues = right.queues) (source : Nat → Nat) (count task : Nat) :
    left.skipCount source count task = right.skipCount source count task := by
  simp [skipCount, frontTask_congr same]

lemma skipCount_succ (sched : Scheduler) (source : Nat → Nat) (count task : Nat) :
    sched.skipCount source (count + 1) task = sched.skipCount source count task +
        if sched.frontTask (source count) = some task then 1 else 0 := by
  rw [skipCount, range_succ, countP_append, countP_singleton, skipCount]
  simp [decide_eq_true_eq]

lemma skipCount_le (sched : Scheduler) (source : Nat → Nat)
    (count task : Nat) : sched.skipCount source count task ≤ count := by
  have bound := countP_le_length (l := range count)
    (p := fun level => decide (sched.frontTask (source level) = some task))
  rw [length_range] at bound
  exact bound

lemma skipsOf_skipOnly (source : Nat → Nat) (task count : Nat) :
    ∀ sched : Scheduler, (sched.skipOnly source count).skipsOf task =
        counterAfter (sched.skipCount source count task) (sched.skipsOf task) := by
  induction count with
  | zero =>
    intro sched
    rfl
  | succ count ih =>
    intro sched
    rw [skipOnly, ih, skipsOf_onSkipped, skipCount_succ,
      skipCount_congr (onSkipped_queues sched (source count))]
    by_cases hif : sched.frontTask (source count) = some task
    · simp only [if_pos hif, counterAfter]
      split
      · rename_i none
        simp [none]
      rw [if_neg (by omega)]
      omega
    · simp [if_neg hif]

lemma skipCount_eq_zero_of_noFlags :
    ∀ sched : Scheduler, NoFlags source count sched →
      skipsThreshold < (sched.skipsOf task + 1) % 128 → sched.skipCount source count task = 0 := by
  induction count with
  | zero =>
    intro sched _ _
    rfl
  | succ count ih =>
    intro sched hnfl hto
    have hnf : sched.frontTask (source count) ≠ some task := by
      intro hif
      have hf : (sched.onSkipped (source count)).skipFlag (source count) = true := by
        rw [skipFlag_eq_true_iff]
        refine ⟨task, ?_, ?_⟩
        · rw [frontTask_congr (onSkipped_queues sched (source count))]
          exact hif
        rw [skipsOf_onSkipped, if_pos hif]
        exact hto
      cases hnfl.1.symm.trans hf
    have hss : (sched.onSkipped (source count)).skipsOf task = sched.skipsOf task := by
      rw [skipsOf_onSkipped, if_neg hnf]
    have rest := ih _ hnfl.2 (by rw [hss]; exact hto)
    rw [skipCount_congr (onSkipped_queues sched (source count))] at rest
    rw [skipCount_succ, rest, if_neg hnf]

lemma skips_le_of_noFlags :
    ∀ sched : Scheduler, NoFlags (fun _ => level) count sched → sched.frontTask level = some task →
      ∀ rounds, 0 < rounds → rounds ≤ count →
        (sched.skipsOf task + rounds) % 128 ≤ skipsThreshold := by
  induction count with
  | zero =>
    omega
  | succ count ih =>
    intro sched hnf hif rounds positive hw
    have hsf : (sched.onSkipped level).frontTask level = some task := by
      rw [frontTask_congr (onSkipped_queues sched level)]
      exact hif
    have hc : (sched.onSkipped level).skipsOf task = (sched.skipsOf task + 1) % 128 := by
      rw [skipsOf_onSkipped, if_pos hif]
    by_cases hs : rounds = 1
    · have hu := hnf.1
      rw [← Bool.not_eq_true, skipFlag_eq_true_iff] at hu
      rw [hs, ← hc]
      by_contra hto
      exact hu ⟨task, hsf, Nat.lt_of_not_le hto⟩
    have low := ih _ hnf.2 hsf (rounds - 1) (by omega) (by omega)
    rw [hc] at low
    omega

lemma occurrences_skipRounds {other : KThread} (inside : ∀ level < count, source level < levels) :
    ∀ sched : Scheduler, sched.Untrimmed → count < levels →
      (sched.skipRounds source count).occurrences other = sched.occurrences other := by
  induction count with
  | zero =>
    intro sched _ _
    rfl
  | succ count ih =>
    intro sched hu hw
    have his := inside count (Nat.lt_succ_self _)
    rw [skipRounds, ih (fun level _ => inside level (by omega)) _
        (hu.skipRound his hw) (by omega), occurrences_skipRound hu his hw]

/-- A flag makes the queue of its level shorter. -/
lemma noFlags_or_shorter : ∀ sched : Scheduler, sched.Untrimmed → count < levels →
    NoFlags (fun level => level) count sched ∨ ∃ level < count,
        (sched.skipRounds (fun level => level) count).lengthAt level < sched.lengthAt level := by
  induction count with
  | zero =>
    intro sched _ _
    exact .inl trivial
  | succ count ih =>
    intro sched hu hw
    have lower := ih (sched.skipRound count (count + 1)) (hu.skipRound (by omega) hw) (by omega)
    cases flag : (sched.onSkipped count).skipFlag count with
    | false =>
      have hsl : ∀ level, (sched.onSkipped count).lengthAt level = sched.lengthAt level := by
        intro level
        rw [lengthAt, onSkipped_queues, lengthAt]
      rw [skipRound_unflagged flag] at lower
      rw [skipRounds, skipRound_unflagged flag]
      rcases lower with hnf | ⟨level, below, hs⟩
      · exact .inl ⟨flag, hnf⟩
      rw [hsl] at hs
      exact .inr ⟨level, by omega, hs⟩
    | true =>
      obtain ⟨_, hf⟩ := next?_of_flagged flag
      have hsq := queues_skipRound_flagged (count + 1) flag
      have lost := lengthAt_transferNext_source hu hf (count + 1) (by omega)
        (ne_of_lt (Nat.lt_succ_self count))
      rw [lengthAt, ← hsq] at lost
      right
      rw [skipRounds]
      -- The lowest level that moves its task gets none in return.
      rcases lower with hnf | ⟨level, below, hs⟩
      · refine ⟨count, Nat.lt_succ_self _, ?_⟩
        rw [skipRounds_of_noFlags _ _ hnf, lengthAt, queues_skipOnly]
        omega
      refine ⟨level, by omega, Nat.lt_of_lt_of_eq hs ?_⟩
      rw [lengthAt, hsq, queues_transferNext_of_ne (by omega) (by omega), lengthAt]

/-- A level that is not skipped does not lose a task. -/
lemma lengthAt_le_skipRounds {other : Nat}
    (apart : ∀ lower < count, source lower < levels ∧ other ≠ source lower) :
    ∀ sched : Scheduler, sched.Untrimmed → count < levels → sched.lengthAt other ≤
        (sched.skipRounds source count).lengthAt other := by
  induction count with
  | zero =>
    intro sched _ _
    exact le_refl _
  | succ count ih =>
    intro sched hu hw
    obtain ⟨his, hns⟩ := apart count (Nat.lt_succ_self _)
    refine le_trans ?_ (ih (fun lower _ => apart lower (by omega))
      (sched.skipRound (source count) (count + 1)) (hu.skipRound his hw) (by omega))
    cases flag : (sched.onSkipped (source count)).skipFlag (source count) with
    | false => rw [skipRound_unflagged flag, lengthAt, lengthAt, onSkipped_queues]
    | true =>
      rw [lengthAt, lengthAt, queues_skipRound_flagged _ flag]
      by_cases ht : other = count + 1
      · obtain ⟨_, hf⟩ := next?_of_flagged flag
        have hg := lengthAt_transferNext_target hu hf (count + 1) hw (by omega)
        rw [lengthAt, lengthAt] at hg
        rw [ht]
        omega
      · rw [queues_transferNext_of_ne hns ht]

lemma noFlags_or_source_shorter (inSource : level < levels) :
    ∀ sched : Scheduler, sched.Untrimmed → count < level → NoFlags (fun _ => level) count sched ∨
        (sched.skipRounds (fun _ => level) count).lengthAt level < sched.lengthAt level := by
  induction count with
  | zero =>
    intro sched _ _
    exact .inl trivial
  | succ count ih =>
    intro sched hu _
    have lower := ih (sched.skipRound level (count + 1)) (hu.skipRound inSource (by omega))
      (by omega)
    cases flag : (sched.onSkipped level).skipFlag level with
    | false =>
      rw [skipRound_unflagged flag] at lower
      rw [skipRounds, skipRound_unflagged flag]
      rcases lower with hnf | hs
      · exact .inl ⟨flag, hnf⟩
      rw [lengthAt, lengthAt, onSkipped_queues] at hs
      exact .inr hs
    | true =>
      obtain ⟨_, hf⟩ := next?_of_flagged flag
      have lost := lengthAt_transferNext_source hu hf (count + 1) inSource (by omega)
      rw [lengthAt, ← queues_skipRound_flagged _ flag, ← lengthAt] at lost
      rw [skipRounds]
      rcases lower with hnf | hs
      · rw [skipRounds_of_noFlags _ _ hnf, lengthAt, queues_skipOnly, ← lengthAt]
        omega
      · omega

/-- The level that is skipped gets no task from the rounds. -/
lemma lengthAt_skipRounds_source_le (within : level < levels) (untrimmed : sched.Untrimmed) :
    (sched.skipRounds (fun _ => level) level).lengthAt level ≤ sched.lengthAt level := by
  cases level with
  | zero => exact le_refl _
  | succ below =>
    rw [skipRounds]
    have around : (sched.skipRound (below + 1) (below + 1)).lengthAt (below + 1) =
        sched.lengthAt (below + 1) := by
      cases flag : (sched.onSkipped (below + 1)).skipFlag (below + 1) with
      | false => rw [skipRound_unflagged flag, lengthAt, lengthAt, onSkipped_queues]
      | true =>
        obtain ⟨_, hf⟩ := next?_of_flagged flag
        rw [lengthAt, queues_skipRound_flagged _ flag, ← lengthAt]
        exact lengthAt_transferNext_self untrimmed hf within
    rw [← around]
    rcases noFlags_or_source_shorter below within _ (untrimmed.skipRound within within)
      (Nat.lt_succ_self _) with
      unflagged | shorter
    · rw [skipRounds_of_noFlags _ _ unflagged, lengthAt, queues_skipOnly, ← lengthAt]
    · exact shorter.le

end OoOS.Sched.Scheduler
