import OoOS.Sched.Selection
import OoOS.Sched.Skips

/-!
# The documented scheduling rules

By the rules in front of `task_pl_queue` a task goes down one level only from above its base
value, and the front task of every lower level is skipped.  This is `select_next` with another
end.
-/

namespace OoOS.Sched.Scheduler

open List Function Nat Option

open Libk

/-- `select_next` up to the selection; `finish` is what is done with the task. -/
def selectWith (finish : Nat → KThread → Scheduler → Option Scheduler) (fuel : Nat) :
    (count : Nat) → Scheduler → Option (Option KThread × Scheduler)
  | 0, sched => some (none, sched)
  | level + 1, sched =>
    let queue := sched.queues level
    if queue.empty then selectWith finish fuel level sched
    else
      match turn sched.tasks queue.next fuel queue with
      | none => none
      | some (result, turned) =>
        let sched := sched.setQueue level turned
        if sched.tasks.isBlocking result then
          selectWith finish fuel level sched
        else (finish level result sched).map fun after => (some result, after)

/-- Rules 2 to 4: the counter starts again (of a system task too, which the rules leave
open), and a task that is above its base value, but not on the system level, goes to the back
of the level below. -/
def documentedTake (level : Nat) (kthread : KThread) (sched : Scheduler) : Scheduler :=
  let taken := { sched with tasks := sched.tasks.setSkips kthread.task 0 }
  if (sched.tasks.taskCtl kthread.task).prioBase.index < level ∧
      level ≠ PriorityVal.PVSYS.index then
    (taken.setQueue level (taken.queues level).unpop).transferNext level (level - 1)
  else taken

/-- A selection by the documented rules: each lower level has its own front
task skipped, from the highest one down. -/
def documentedNext (fuel : Nat) (sched : Scheduler) : Option (Option KThread × Scheduler) :=
  if sched.totalTasks = 0 then some (none, sched)
  else sched.selectWith (fun level kthread sched =>
    some ((sched.documentedTake level kthread).skipRounds (fun lower => lower) level)) fuel levels

/-- The task that the rules choose, with its level and its place there. -/
structure Selects (sched : Scheduler) (count level pos : Nat)
    (kthread : KThread) : Prop where
  inside : level < count
  first : firstPosition sched.tasks (sched.queues level) = some pos
  here : (sched.queues level).slots[pos]? = some kthread
  highest : ∀ higher < count, level < higher → sched.AllBlocking higher

def Demotes (sched : Scheduler) (level : Nat) (kthread : KThread) : Prop :=
  (sched.tasks.taskCtl kthread.task).prioBase.index ≠ level ∧ level ≠ PriorityVal.PVSYS.index

instance (sched : Scheduler) (level : Nat) (kthread : KThread) :
    Decidable (sched.Demotes level kthread) :=
  inferInstanceAs (Decidable (_ ∧ _))

/-- The task in front of a level once the selected task is taken: behind it at
its own level, and possibly itself on the level below. -/
def frontAfter (sched : Scheduler) (level pos : Nat) (kthread : KThread) (lower : Nat) :
    Option Nat :=
  let front :=
    if lower = level then (sched.queues level).slots[pos + 1]?
    else if lower + 1 = level ∧ sched.Demotes level kthread then
      ((sched.queues lower).pending ++ [kthread]).head?
    else (sched.queues lower).pending.head?
  front.map KThread.task

def skipsAfter (sched : Scheduler) (kthread : KThread) (task : Nat) : Nat :=
  if task = kthread.task then 0 else sched.skipsOf task

/-- The task is not below its base value (on the system level it may be).  Besides, it is at
the lowest level; or nothing is left in front; or the same task is in front of all levels and
not skipped too often. -/
def SkipsAgree (sched : Scheduler) : Prop :=
  ∀ level pos kthread, sched.Selects levels level pos kthread →
    ((sched.tasks.taskCtl kthread.task).prioBase.index ≤ level ∨
      level = PriorityVal.PVSYS.index) ∧
    (level = 0 ∨
      (∀ lower ≤ level, sched.frontAfter level pos kthread lower = none) ∨
      ∃ task, (∀ lower ≤ level, sched.frontAfter level pos kthread lower = some task) ∧
        ∀ rounds, 0 < rounds → rounds ≤ level →
          (sched.skipsAfter kthread task + rounds) % 128 ≤ skipsThreshold)

/-- The condition of `SkipsAgree` in the state after the task is taken. -/
def RoundsAgree (sched : Scheduler) (level : Nat) : Prop :=
  level = 0 ∨ (∀ lower ≤ level, sched.frontTask lower = none) ∨
    ∃ task, (∀ lower ≤ level, sched.frontTask lower = some task) ∧
      ∀ rounds, 0 < rounds → rounds ≤ level → (sched.skipsOf task + rounds) % 128 ≤ skipsThreshold

variable {sched : Scheduler} {level : Nat}

lemma skipRounds_none {source : Nat → Nat} (count : Nat)
    (noFront : ∀ lower < count, sched.frontTask (source lower) = none) :
    sched.skipRounds source count = sched := by
  induction count with
  | zero => rfl
  | succ count ih =>
    have none := noFront count (lt_succ_self _)
    have hu : (sched.onSkipped (source count)).skipFlag (source count) = false := by
      rw [onSkipped_none none, ← Bool.not_eq_true, skipFlag_eq_true_iff]
      rintro ⟨_, hf, _⟩
      cases none.symm.trans hf
    rw [skipRounds, skipRound_unflagged hu, onSkipped_none none]
    exact ih fun lower _ => noFront lower (by omega)

lemma skipRounds_sameTask {task : Nat} (count : Nat) :
    ∀ sched : Scheduler, sched.frontTask level = some task →
      (∀ lower < count, sched.frontTask lower = some task) →
      (∀ rounds, 0 < rounds → rounds ≤ count →
        (sched.skipsOf task + rounds) % 128 ≤ skipsThreshold) →
      sched.skipRounds (fun _ => level) count = sched.skipRounds (fun lower => lower) count := by
  induction count with
  | zero =>
    intro sched _ _ _
    rfl
  | succ count ih =>
    intro sched hal below low
    have here := below count (lt_succ_self _)
    have hss := onSkipped_congr (hal.trans here.symm)
    have hc : (sched.onSkipped count).skipsOf task = (sched.skipsOf task + 1) % 128 := by
      rw [skipsOf_onSkipped, if_pos here]
    have keeps := frontTask_congr (onSkipped_queues sched count)
    have hu : ∀ source, sched.frontTask source = some task →
        (sched.onSkipped count).skipFlag source = false := by
      intro source hf
      rw [← Bool.not_eq_true, skipFlag_eq_true_iff]
      rintro ⟨_, ho, hto⟩
      rw [keeps, hf] at ho
      cases ho
      have ha := low 1 (by omega) (by omega)
      rw [hc] at hto
      exact absurd hto (Nat.not_lt_of_le ha)
    have hsr : sched.skipRound level (count + 1) = sched.onSkipped count := by
      rw [skipRound_unflagged (by rw [hss]; exact hu level hal), hss]
    rw [skipRounds, skipRounds, hsr, skipRound_unflagged (hu count here)]
    apply ih
    · rw [keeps]
      exact hal
    · intro lower _
      rw [keeps]
      exact below lower (by omega)
    intro rounds _ _
    have ha := low (rounds + 1) (by omega) (by omega)
    omega

section

variable (untrimmed : sched.Untrimmed)

include untrimmed

lemma noFlags_of_agree (within : level < levels)
    (agree : sched.skipRounds (fun _ => level) level = sched.skipRounds (fun lower => lower) level)
    : NoFlags (fun lower => lower) level sched := by
  rcases noFlags_or_shorter level sched untrimmed within with
    hnf | ⟨lower, below, shorter⟩
  · exact hnf
  have kept := lengthAt_le_skipRounds level (fun _ _ => ⟨within, Nat.ne_of_lt below⟩) sched
    untrimmed within
  rw [agree] at kept
  omega

/-- Rounds on one level agree with those on all if no flag is set. -/
lemma noFlags_source_of_agree {below : Nat} (within : below + 1 < levels)
    (agree : sched.skipRounds (fun _ => below + 1) (below + 1) =
      sched.skipRounds (fun lower => lower) (below + 1)) :
    NoFlags (fun _ => below + 1) (below + 1) sched := by
  have hd := noFlags_of_agree untrimmed within agree
  have final := skipRounds_of_noFlags _ _ hd
  have hsl : (sched.skipRounds (fun _ => below + 1)
      (below + 1)).lengthAt (below + 1) = sched.lengthAt (below + 1) := by
    rw [agree, final, lengthAt, queues_skipOnly, ← lengthAt]
  rw [skipRounds] at hsl
  have rest := noFlags_or_source_shorter below within (sched.skipRound (below + 1) (below + 1))
    (untrimmed.skipRound within within) (lt_succ_self _)
  cases flag : (sched.onSkipped (below + 1)).skipFlag (below + 1) with
  | false =>
    rw [skipRound_unflagged flag] at rest hsl
    rcases rest with hnf | hs
    · exact ⟨flag, hnf⟩
    rw [hsl, lengthAt, lengthAt, onSkipped_queues] at hs
    exact absurd hs (lt_irrefl _)
  | true =>
    -- The task went around its own level: its counter tells.
    obtain ⟨kthread, hf⟩ := next?_of_flagged flag
    have hal := lengthAt_transferNext_self untrimmed hf within
    rw [lengthAt, ← queues_skipRound_flagged _ flag, ← lengthAt] at hal
    rw [hal, hsl] at rest
    have hnf := rest.resolve_right (lt_irrefl _)
    have hif : sched.frontTask (below + 1) = some kthread.task := by
      rw [frontTask, hf]
      rfl
    have hr := skipsOf_skipRound_self untrimmed within flag hif
    have hto : skipsThreshold < (sched.skipsOf kthread.task + 1) % 128 := by
      obtain ⟨task, ht, often⟩ := skipFlag_eq_true_iff.mp flag
      rw [frontTask_congr (onSkipped_queues sched _), hif] at ht
      cases ht
      rw [skipsOf_onSkipped, if_pos hif] at often
      exact often
    have hc := congrArg (fun final => final.skipsOf kthread.task) agree
    rw [final, skipsOf_skipOnly, skipCount_eq_zero_of_noFlags _ _ hd hto, skipRounds,
      skipRounds_of_noFlags _ _ hnf, skipsOf_skipOnly, hr] at hc
    have hfr := skipCount_le
      (sched.skipRound (below + 1) (below + 1)) (fun _ => below + 1) below kthread.task
    simp only [counterAfter, if_true, skipsThreshold, levels] at *
    split at hc <;> omega

/-- After a task is taken, both kinds of rounds do the same in exactly these
states. -/
lemma skipRounds_agree_iff (within : level < levels) :
    sched.skipRounds (fun _ => level) level = sched.skipRounds (fun lower => lower) level ↔
      sched.RoundsAgree level := by
  constructor
  · intro agree
    cases level with
    | zero => exact .inl rfl
    | succ below =>
      right
      have hd := noFlags_of_agree untrimmed within agree
      have code := noFlags_source_of_agree untrimmed within agree
      have hc : ∀ task, (sched.skipRounds (fun _ => below + 1) (below + 1)).skipsOf task =
            (sched.skipRounds (fun lower => lower) (below + 1)).skipsOf task := by
        intro task
        rw [agree]
      simp only [skipRounds_of_noFlags _ _ code, skipRounds_of_noFlags _ _ hd, skipsOf_skipOnly]
        at hc
      cases hf : sched.frontTask (below + 1) with
      | none =>
        left
        intro lower hl
        by_contra hnn
        obtain ⟨task, ht⟩ := ne_none_iff_exists'.mp hnn
        have hb : lower < below + 1 := by
          by_contra hnb
          obtain rfl : lower = below + 1 := by omega
          exact hnn hf
        have never : sched.skipCount (fun _ => below + 1) (below + 1) task = 0 := by
          rw [skipCount, countP_eq_zero]
          simp [hf]
        have once : 0 < sched.skipCount (fun lower => lower) (below + 1)
            task := by
          rw [skipCount, countP_pos_iff]
          exact ⟨lower, mem_range.mpr hb, by simpa using ht⟩
        have few := skipCount_le sched (fun lower => lower) (below + 1) task
        have hs := hc task
        rw [never] at hs
        simp only [counterAfter, if_true, levels] at hs within
        rw [if_neg (by omega)] at hs
        omega
      | some task =>
        right
        have ha : sched.skipCount (fun _ => below + 1) (below + 1) task = below + 1 := by
          have all := countP_eq_length (l := range (below + 1)) (p := fun _ => decide
              (sched.frontTask (below + 1) = some task))
          rw [length_range] at all
          exact all.mpr fun round _ => by simpa using hf
        have few := skipCount_le sched (fun lower => lower) (below + 1) task
        have hs := hc task
        have full : sched.skipCount (fun lower => lower) (below + 1) task = below + 1 := by
          simp only [counterAfter, levels] at hs within
          rw [if_neg (by omega)] at hs
          split at hs <;> omega
        refine ⟨task, ?_, skips_le_of_noFlags _ _ code hf⟩
        intro lower hl
        by_cases top : lower = below + 1
        · rw [top]
          exact hf
        have all := countP_eq_length (l := range (below + 1)) (p := fun lower => decide
            (sched.frontTask lower = some task))
        rw [length_range] at all
        have here := all.mp full lower (mem_range.mpr (by omega))
        simpa using here
  · intro hco
    rcases hco with hlo | hnf | ⟨task, hf, low⟩
    · rw [hlo]
      rfl
    · rw [skipRounds_none level fun _ _ => hnf level (le_refl _),
        skipRounds_none level fun lower below => hnf lower (le_of_lt below)]
    exact skipRounds_sameTask level sched (hf level (le_refl _))
      (fun lower below => hf lower (le_of_lt below)) low

end

variable {taken : Scheduler} {count pos : Nat} {kthread : KThread}

lemma untrimmed_cursorAt {queue : ResettableQueue KThread} (untrimmed : queue.Untrimmed)
    {next : Nat} (within : next ≤ queue.slots.length) : (cursorAt queue next).Untrimmed :=
  ⟨sound_cursorAt untrimmed.sound within, untrimmed.noTrim⟩

lemma frontTask_eq (untrimmed : sched.Untrimmed) (within : level < levels) :
    sched.frontTask level = (sched.queues level).pending.head?.map KThread.task := by
  rw [frontTask, (untrimmed level within).sound.next?_eq]

lemma unpop_cursorAt (queue : ResettableQueue KThread) (pos : Nat) :
    (cursorAt queue (pos + 1)).unpop = { cursorAt queue pos with opCnt := 0 } := by
  exact if_pos (succ_pos pos)

/-- The state from which a task is moved down: its counter starts again and the cursor is
on it. -/
def lowering (sched : Scheduler) (level : Nat) (kthread : KThread) : Scheduler :=
  { sched with
    queues := update sched.queues level (sched.queues level).unpop
    tasks := sched.tasks.setSkips kthread.task 0 }

lemma take_of_demotes {below : Nat} (demotes : sched.Demotes (below + 1) kthread) :
    sched.take (below + 1) kthread =
      some ((sched.lowering (below + 1) kthread).transferNext (below + 1) below) := by
  simp only [take, setSkips_prioBase]
  exact if_pos demotes

lemma take_of_not_demotes (stays : ¬ sched.Demotes level kthread) : sched.take level kthread =
      some { sched with tasks := sched.tasks.setSkips kthread.task 0 } := by
  simp only [take, setSkips_prioBase]
  exact if_neg stays

lemma exists_below_of_demotes (demotes : sched.Demotes level kthread)
    (took : sched.take level kthread = some taken) : ∃ below, level = below + 1 := by
  cases level with
  | zero =>
    have fails := take_eq_none_iff.mpr ⟨rfl, mt index_eq_zero_iff.mpr demotes.1⟩
    cases took.symm.trans fails
  | succ below => exact ⟨below, rfl⟩

/-- The state in which a task has been selected: the cursor is behind it. -/
def selectedAt (sched : Scheduler) (level pos : Nat) : Scheduler :=
  sched.setQueue level (cursorAt (sched.queues level) (pos + 1))

section

variable (isUntrimmed : sched.Untrimmed) (within : level < levels)
  (higher : (sched.queues level).slots[pos]? = some kthread)

include isUntrimmed within higher

lemma untrimmed_selectedAt : (sched.selectedAt level pos).Untrimmed := by
  have inQueue := (List.getElem?_eq_some_iff.mp higher).1
  exact isUntrimmed.setQueue (untrimmed_cursorAt (isUntrimmed level within) (succ_le_of_lt inQueue))

lemma lowering_selectedAt : ((sched.selectedAt level pos).lowering level kthread).Untrimmed ∧
    (((sched.selectedAt level pos).lowering level kthread).queues level).pending =
      kthread :: (sched.queues level).slots.drop (pos + 1) ∧
    (((sched.selectedAt level pos).lowering level kthread).queues level).next? = some kthread ∧
    ((sched.selectedAt level pos).lowering level kthread).lengthAt level =
      sched.lengthAt level := by
  obtain ⟨inQueue, here⟩ := List.getElem?_eq_some_iff.mp higher
  have unpopped : ((sched.selectedAt level pos).lowering level kthread).queues level =
      { cursorAt (sched.queues level) pos with opCnt := 0 } := by
    simp only [lowering, selectedAt, setQueue, update_self, unpop_cursorAt]
  have untrimmed : ({ cursorAt (sched.queues level) pos with
      opCnt := 0 } : ResettableQueue KThread).Untrimmed :=
    ⟨⟨(untrimmed_cursorAt (isUntrimmed _ within) (le_of_lt inQueue)).sound.next_le,
      (isUntrimmed _ within).sound.stop_eq⟩, (isUntrimmed _ within).noTrim⟩
  have pending : ({ cursorAt (sched.queues level) pos with
      opCnt := 0 } : ResettableQueue KThread).pending =
        kthread :: (sched.queues level).slots.drop (pos + 1) := by
    rw [← here]
    exact drop_eq_getElem_cons inQueue
  refine ⟨?_, ?_, ?_, ?_⟩
  · exact (untrimmed_selectedAt isUntrimmed within higher).setQueue (by
      simpa only [selectedAt, setQueue, update_self, unpop_cursorAt] using untrimmed)
  · rw [unpopped, pending]
  · rw [unpopped, untrimmed.sound.next?_eq, pending]
    rfl
  · rw [lengthAt, unpopped]
    rfl

lemma taken_fronts (isTaken : (sched.selectedAt level pos).take level kthread = some taken) :
    taken.Untrimmed ∧ (∀ lower ≤ level, taken.frontTask lower =
        sched.frontAfter level pos kthread lower) ∧
      ∀ task, taken.skipsOf task = sched.skipsAfter kthread task := by
  have htu := untrimmed_selectedAt isUntrimmed within higher
  have hc : ∀ task, ((sched.tasks.setSkips kthread.task 0).taskCtl task).skips =
        sched.skipsAfter kthread task := fun task =>
    skips_setSkips sched.tasks kthread.task 0 task
  by_cases hd : (sched.selectedAt level pos).Demotes level kthread
  · obtain ⟨below, rfl⟩ := exists_below_of_demotes hd isTaken
    rw [take_of_demotes hd] at isTaken
    obtain rfl := some.inj isTaken
    obtain ⟨hbu, hp, hf, -⟩ := lowering_selectedAt isUntrimmed within higher
    have hao : ∀ lower ≠ below + 1, ((sched.selectedAt (below + 1) pos).lowering (below + 1)
        kthread).queues lower = sched.queues lower := by
      intro lower other
      simp only [lowering, selectedAt, setQueue, update_of_ne other]
    have other : below + 1 ≠ below := by omega
    have after := hbu.transferNext within (show below < levels by omega)
    refine ⟨after, ?_, ?_⟩
    · intro lower hl
      rw [frontTask_eq after (by omega), frontAfter, transferNext_other hf other]
      by_cases top : lower = below + 1
      · rw [if_pos top, top]
        simp [setQueue, update_self, (hbu _ within).pending_eraseNext hp, head?_drop]
      rw [if_neg top]
      by_cases next : lower = below
      · rw [if_pos ⟨by omega, hd⟩, next]
        simp [setQueue, update_self, hao below (Ne.symm other),
          (isUntrimmed below (by omega)).pending_push]
      rw [if_neg (by omega)]
      simp [setQueue, update_of_ne top, update_of_ne next, hao lower top]
    intro task
    rw [transferNext_other hf other, ← hc]
    rfl
  · rw [take_of_not_demotes hd] at isTaken
    obtain rfl := some.inj isTaken
    refine ⟨htu, ?_, hc⟩
    intro lower hl
    have same := frontTask_eq htu (show lower < levels by omega)
    rw [frontAfter]
    by_cases top : lower = level
    · rw [if_pos top]
      subst top
      refine same.trans ?_
      simp only [selectedAt, setQueue, update_self]
      rw [DynamicQueue.pending, head?_drop]
      rfl
    rw [if_neg top, if_neg fun both => hd both.2]
    refine same.trans ?_
    simp [selectedAt, setQueue, update_of_ne top]

end

lemma occurrences_take (untrimmed : sched.Untrimmed)
    (within : level < levels) (isTaken : sched.take level kthread = some taken) (other : KThread) :
    taken.occurrences other = sched.occurrences other := by
  by_cases hd : sched.Demotes level kthread
  · obtain ⟨below, rfl⟩ := exists_below_of_demotes hd isTaken
    rw [take_of_demotes hd] at isTaken
    obtain rfl := some.inj isTaken
    have hun : (sched.lowering (below + 1) kthread).Untrimmed :=
      untrimmed.setQueue (untrimmed _ within).unpop
    refine (occurrences_transferNext hun within (show below < levels by omega) other).trans ?_
    refine occurrences_setQueue (fun counted => ?_) other
    rw [DynamicQueue.slots_unpop]
  rw [take_of_not_demotes hd] at isTaken
  obtain rfl := some.inj isTaken
  rfl

lemma Selects.unique {otherLevel otherPos : Nat} {other : KThread}
    (left : sched.Selects count level pos kthread)
    (right : sched.Selects count otherLevel otherPos other) :
    level = otherLevel ∧ pos = otherPos ∧ kthread = other := by
  have hnb : ∀ {level pos kthread},
      sched.Selects count level pos kthread → ¬ sched.AllBlocking level := by
    intro level pos kthread hs blocking
    have first := hs.first
    rw [firstPosition] at first
    have hn : ∀ part : List KThread, (∀ kthread ∈ part, kthread ∈ (sched.queues level).slots) →
        part.findIdx? (fun kthread => !sched.tasks.isBlocking kthread) = none := by
      intro part hp
      rw [findIdx?_eq_none_iff]
      intro kthread mem
      rw [blocking kthread (hp kthread mem)]
      rfl
    simp only [hn _ fun _ mem => mem_of_mem_drop mem, hn _ fun _ mem =>
      mem_of_mem_take mem] at first
    cases first
  obtain rfl : level = otherLevel := by
    rcases lt_trichotomy level otherLevel with lower | same | hh
    · exact absurd (left.highest _ right.inside lower) (hnb right)
    · exact same
    · exact absurd (right.highest _ left.inside hh) (hnb left)
  obtain rfl : pos = otherPos := some.inj (left.first.symm.trans right.first)
  exact ⟨rfl, rfl, some.inj (left.here.symm.trans right.here)⟩

lemma selectBelow_eq_selectWith (fuel count : Nat) :
    ∀ sched : Scheduler, sched.selectBelow fuel count = sched.selectWith
        (fun level kthread sched => (sched.take level kthread).map fun taken =>
          taken.skipRounds (fun _ => level) level) fuel count := by
  induction count with
  | zero =>
    intro sched
    rfl
  | succ count ih =>
    intro sched
    simp only [selectBelow, selectWith, ih]
    cases turn sched.tasks (sched.queues count).next fuel (sched.queues count) with
    | none => rfl
    | some found =>
      dsimp only
      cases (sched.setQueue count found.2).take count found.1 <;> rfl

lemma setQueue_self (sched : Scheduler) (level : Nat) :
    sched.setQueue level (sched.queues level) = sched := by
  rw [setQueue, update_eq_self]

/-- What is selected does not depend on the last loop. -/
lemma selectWith_some {finish : Nat → KThread → Scheduler → Option Scheduler} {fuel : Nat}
    {after : Scheduler} (count : Nat) (sound : ∀ level < count, (sched.queues level).Sound)
    (selected : sched.selectWith finish fuel count = some (some kthread, after)) :
    ∃ level pos, sched.Selects count level pos kthread ∧
      ∀ other, sched.selectWith other fuel count =
        (other level kthread (sched.selectedAt level pos)).map fun after =>
          (some kthread, after) := by
  induction count with
  | zero => cases selected
  | succ count ih =>
    have hsh := sound count (lt_succ_self _)
    have lower := ih fun level _ => sound level (by omega)
    -- A level that is passed over leaves the scheduler as it was.
    have hp (hb : sched.AllBlocking count) (same : ∀ other,
          sched.selectWith other fuel (count + 1) = sched.selectWith other fuel count) :
        ∃ level pos, sched.Selects (count + 1) level pos kthread ∧
          ∀ other, sched.selectWith other fuel (count + 1) =
            (other level kthread (sched.selectedAt level pos)).map fun after =>
              (some kthread, after) := by
      rw [same] at selected
      obtain ⟨level, pos, hse, every⟩ := lower selected
      refine ⟨level, pos, ⟨by have := hse.inside; omega, hse.first, hse.here,
        blocking_below_succ hb hse.highest⟩, ?_⟩
      intro other
      rw [same]
      exact every other
    by_cases he : (sched.queues count).slots = []
    · refine hp ?_ ?_
      · rw [AllBlocking, he]
        intro kthread mem
        cases mem
      intro other
      rw [selectWith, if_pos (hsh.empty_iff.mpr he)]
    have hne := hsh.empty_eq_false he
    cases ht : turn sched.tasks (sched.queues count).next fuel (sched.queues count) with
    | none =>
      rw [selectWith] at selected
      simp only [hne, ht] at selected
      cases selected
    | some _ =>
      have hal := turn_mono (2 * (sched.queues count).slots.length + 1) fuel _ ht
      cases first : firstRunnable sched.tasks (sched.queues count) with
      | some found =>
        obtain ⟨pos, _, hf, hh, finds⟩ := turn_found hsh first
        rw [finds _ (by omega)] at hal
        cases hal
        have hr : (sched.selectedAt count pos).tasks.isBlocking found = false :=
          (firstRunnable_spec first).1
        have every : ∀ other, sched.selectWith other fuel (count + 1) =
            (other count found (sched.selectedAt count pos)).map fun after =>
              (some found, after) := by
          intro other
          rw [selectedAt] at hr ⊢
          rw [selectWith]
          simp [hne, ht, hr]
        rw [every, map_eq_some_iff] at selected
        obtain ⟨_, -, same⟩ := selected
        cases same
        exact ⟨count, pos, ⟨lt_succ_self _, hf, hh, fun _ _ _ => by omega⟩, every⟩
      | none =>
        have hb := firstRunnable_eq_none_iff.mp first
        have moved : (sched.queues count).next ≠ 0 := by
          intro hast
          have hen := turn_endless he hb hsh fuel (sched.queues count).next hsh.next_le_length
          rw [hast] at ht
          cases hen.symm.trans ht
        obtain ⟨_, hbl, turns⟩ := turn_blocked he hb hsh moved
        rw [turns _ (by omega)] at hal
        cases hal
        refine hp hb fun other => ?_
        rw [selectWith]
        simp [hne, ht, setQueue_self, hbl, Bool.false_eq_true]

/-- At or above its base value, or on the system level, the task moves as documented. -/
lemma documentedTake_eq (notBelow : (sched.tasks.taskCtl kthread.task).prioBase.index ≤ level ∨
      level = PriorityVal.PVSYS.index) (took : sched.take level kthread = some taken) :
    sched.documentedTake level kthread = taken := by
  by_cases hd : sched.Demotes level kthread
  · have above := lt_of_le_of_ne (notBelow.resolve_right hd.2) hd.1
    obtain ⟨below, rfl⟩ := exists_below_of_demotes hd took
    rw [take_of_demotes hd] at took
    exact (if_pos ⟨above, hd.2⟩).trans (some.inj took)
  · rw [take_of_not_demotes hd] at took
    exact (if_neg fun both => hd ⟨both.1.ne, both.2⟩).trans (some.inj took)

/-- A task below its base value is moved all the same, and its level is shorter then than by
the rules. -/
lemma skipRounds_ne_of_below (untrimmed : sched.Untrimmed)
    (selects : sched.Selects levels level pos kthread)
    (below : level < (sched.tasks.taskCtl kthread.task).prioBase.index)
    (noSystem : level ≠ PriorityVal.PVSYS.index)
    (took : (sched.selectedAt level pos).take level kthread = some taken) :
    ((sched.selectedAt level pos).documentedTake level kthread).skipRounds
      (fun lower => lower) level ≠ taken.skipRounds (fun _ => level) level := by
  have hw := selects.inside
  have htu := (taken_fronts untrimmed hw selects.here took).1
  have hd : (sched.selectedAt level pos).Demotes level kthread := ⟨below.ne', noSystem⟩
  have stays : (sched.selectedAt level pos).documentedTake level kthread =
      { sched.selectedAt level pos with
        tasks := (sched.selectedAt level pos).tasks.setSkips kthread.task 0 } :=
    if_neg fun both => absurd both.1 (Nat.not_lt.mpr below.le)
  have ruled := @lengthAt_le_skipRounds (fun lower => lower) level level
    (fun lower hl => ⟨by omega, by omega⟩) _
    (show ((sched.selectedAt level pos).documentedTake level kthread).Untrimmed by
      rw [stays]
      exact untrimmed_selectedAt untrimmed hw selects.here) hw
  have coded := lengthAt_skipRounds_source_le hw htu
  have kept : ((sched.selectedAt level pos).documentedTake level kthread).lengthAt level =
      sched.lengthAt level := by
    rw [stays]
    simp [lengthAt, selectedAt, setQueue, cursorAt]
  obtain ⟨lower, rfl⟩ := exists_below_of_demotes hd took
  rw [take_of_demotes hd] at took
  obtain rfl := some.inj took
  obtain ⟨hbu, -, hf, sameLength⟩ := lowering_selectedAt untrimmed hw selects.here
  have lost := lengthAt_transferNext_source hbu hf lower hw (by omega)
  intro same
  rw [same, kept] at ruled
  omega

/-- In the state before the selection and in the one after the task is taken, the same tasks
are in front. -/
lemma roundsAgree_iff (selects : sched.Selects levels level pos kthread)
    (fronts : ∀ lower ≤ level, taken.frontTask lower = sched.frontAfter level pos kthread lower)
    (skips : ∀ task, taken.skipsOf task = sched.skipsAfter kthread task) :
    sched.SkipsAgree ↔ ((sched.tasks.taskCtl kthread.task).prioBase.index ≤ level ∨
      level = PriorityVal.PVSYS.index) ∧ taken.RoundsAgree level := by
  have same : taken.RoundsAgree level ↔ level = 0 ∨
      (∀ lower ≤ level, sched.frontAfter level pos kthread lower = none) ∨
      ∃ task, (∀ lower ≤ level, sched.frontAfter level pos kthread lower = some task) ∧
        ∀ rounds, 0 < rounds → rounds ≤ level →
          (sched.skipsAfter kthread task + rounds) % 128 ≤ skipsThreshold := by
    simp only [RoundsAgree, skips]
    refine or_congr_right (or_congr ?_ (exists_congr fun task => and_congr_left' ?_))
    · exact forall₂_congr fun lower hl => by rw [fronts lower hl]
    · exact forall₂_congr fun lower hl => by rw [fronts lower hl]
  rw [same]
  constructor
  · exact fun agree => agree level pos kthread selects
  intro agree _ _ _ other
  obtain ⟨rfl, rfl, rfl⟩ := selects.unique other
  exact agree

/-- A selection that returns a task does what the documented rules say exactly
in these states; it never loses a task or adds one. -/
theorem selectNext_documented_iff {sched after : Scheduler} (untrimmed : sched.Untrimmed)
    {fuel : Nat} {kthread : KThread} (selected : sched.selectNext fuel = some (some kthread, after))
    :
    (sched.documentedNext fuel = some (some kthread, after) ↔ sched.SkipsAgree) ∧
      ∀ other, after.occurrences other = sched.occurrences other := by
  have registered : sched.totalTasks ≠ 0 := by
    intro none
    rw [selectNext, if_pos none] at selected
    cases selected
  rw [selectNext, if_neg registered, selectBelow_eq_selectWith] at selected
  obtain ⟨level, pos, hse, finished⟩ :=
    selectWith_some levels (fun level below => (untrimmed level below).sound) selected
  rw [finished, Option.map_map, map_eq_some_iff] at selected
  obtain ⟨taken, ht, same⟩ := selected
  obtain rfl : taken.skipRounds (fun _ => level) level = after := (Prod.mk.inj same).2
  have hw := hse.inside
  obtain ⟨htu, hf, hc⟩ := taken_fronts untrimmed hw hse.here ht
  constructor
  · rw [documentedNext, if_neg registered, finished, roundsAgree_iff hse hf hc,
      ← skipRounds_agree_iff htu hw, Option.map_some, some.injEq, Prod.mk.injEq,
      and_iff_right rfl]
    by_cases notBelow : (sched.tasks.taskCtl kthread.task).prioBase.index ≤ level ∨
        level = PriorityVal.PVSYS.index
    · rw [@documentedTake_eq (sched.selectedAt level pos) _ _ _ notBelow ht,
        and_iff_right notBelow]
      exact eq_comm
    · obtain ⟨below, noSystem⟩ := not_or.mp notBelow
      refine iff_of_false ?_ fun agree => notBelow agree.1
      exact skipRounds_ne_of_below untrimmed hse (Nat.lt_of_not_le below) noSystem ht
  intro other
  rw [occurrences_skipRounds level (fun _ _ => hw) taken htu hw]
  have moved := untrimmed_selectedAt untrimmed hw hse.here
  refine (occurrences_take moved hw ht other).trans ?_
  exact @occurrences_setQueue (cursorAt (sched.queues level) (pos + 1)) _ _ (fun _ => rfl) other

/-- The second level and the lowest one. -/
def twoLevels (second lowest : ResettableQueue KThread) : Scheduler where
  queues := fun level => if level = 1 then second else if level = 0 then lowest else {}
  totalTasks := second.slots.length + lowest.slots.length

lemma twoLevels_untrimmed {second lowest : ResettableQueue KThread} (secondUntrimmed :
      second.Untrimmed) (lowestUntrimmed : lowest.Untrimmed) :
    (twoLevels second lowest).Untrimmed := by
  intro level _
  simp only [twoLevels]
  split
  · exact secondUntrimmed
  split
  · exact lowestUntrimmed
  · exact ⟨⟨zero_le _, rfl⟩, rfl⟩

/-- The last task of the second level, with nothing pending on the lowest one. -/
def lastPending : Scheduler :=
  twoLevels { slots := [⟨1, none⟩, ⟨3, none⟩], next := 1, stop := 2 }
    { slots := [⟨2, none⟩], next := 1, stop := 1 }

lemma lastPending_skipsAgree : lastPending.SkipsAgree := by
  have selects : lastPending.Selects levels 1 1 ⟨3, none⟩ := by
    refine ⟨by decide, by decide, by decide, fun higher _ above kthread member => ?_⟩
    simp [lastPending, twoLevels, above.ne', (lt_trans zero_lt_one above).ne'] at member
  intro level pos kthread other
  obtain ⟨rfl, rfl, rfl⟩ := selects.unique other
  exact ⟨.inl (by decide), .inr (.inl (by decide))⟩

theorem selectNext_documented_iff_lastPending :
    ∃ after, lastPending.selectNext 3 = some (some ⟨3, none⟩, after) ∧
      lastPending.documentedNext 3 = some (some ⟨3, none⟩, after) := by
  obtain ⟨after, selected⟩ : ∃ after,
      lastPending.selectNext 3 = some (some ⟨3, none⟩, after) := ⟨_, rfl⟩
  have untrimmed : lastPending.Untrimmed :=
    twoLevels_untrimmed ⟨⟨by decide, rfl⟩, rfl⟩ ⟨⟨by decide, rfl⟩, rfl⟩
  exact ⟨after, selected,
    (selectNext_documented_iff untrimmed selected).1.mpr lastPending_skipsAgree⟩

/-- One task on each level. -/
def oneEach : Scheduler :=
  twoLevels { slots := [⟨1, none⟩], stop := 1 } { slots := [⟨2, none⟩], stop := 1 }

/-- A task on the lowest level is passed over, and its counter stays. -/
theorem selectNext_undocumented_lowest :
    (oneEach.selectNext 3).map (fun result => (result.1, result.2.skipsOf 2)) =
      some (some ⟨1, none⟩, 0) ∧ (oneEach.documentedNext 3).map
        (fun result => (result.1, result.2.skipsOf 2)) = some (some ⟨1, none⟩, 1) := by
  decide

end OoOS.Sched.Scheduler
