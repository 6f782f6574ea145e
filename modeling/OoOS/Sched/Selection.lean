import Mathlib.Algebra.BigOperators.Group.Finset.Basic
import OoOS.Sched.Turn

/-!
# What `select_next` returns

`select_next` returns a task that does not block from the highest level that has
one, provided that it returns at all.
-/

namespace OoOS.Sched.Scheduler

open List Libk

variable {sched : Scheduler}

def AllBlocking (sched : Scheduler) (level : Nat) : Prop :=
  ∀ kthread ∈ (sched.queues level).slots, sched.tasks.isBlocking kthread = true

instance (sched : Scheduler) (level : Nat) : Decidable (sched.AllBlocking level) :=
  inferInstanceAs (Decidable (∀ _ ∈ _, _))

/-- A task that does not block from the highest level that has one, and null only
if there is none. -/
def ChoosesBelow (sched : Scheduler) (count : Nat) : Option KThread → Prop
  | none => ∀ level < count, sched.AllBlocking level
  | some kthread =>
    sched.tasks.isBlocking kthread = false ∧ ∃ level < count, kthread ∈ (sched.queues level).slots ∧
        ∀ higher < count, level < higher → sched.AllBlocking higher

/-- The cursor of a level that is turned in vain is not at its start, and a
task taken at the lowest level has the lowest priority. -/
structure TurnsBelow (sched : Scheduler) (count : Nat) : Prop where
  moved : ∀ level < count, (∀ higher < count, level ≤ higher → sched.AllBlocking higher) →
    (sched.queues level).slots ≠ [] → (sched.queues level).next ≠ 0
  lowest : ∀ kthread, 0 < count → (∀ higher < count, 0 < higher → sched.AllBlocking higher) →
    firstRunnable sched.tasks (sched.queues 0) = some kthread →
    (sched.tasks.taskCtl kthread.task).prioBase = .PVLOW

structure SameBelow (count : Nat) (left right : Scheduler) : Prop where
  tasks : left.tasks = right.tasks
  queues : ∀ level < count, left.queues level = right.queues level

lemma sameBelow_setQueue (sched : Scheduler) (count : Nat) (queue : ResettableQueue KThread) :
    SameBelow count sched (sched.setQueue count queue) where
  tasks := rfl
  queues := by
    intro level _
    have other : level ≠ count := by omega
    simp [setQueue, Function.update_of_ne other]

lemma SameBelow.symm {count : Nat} {left right : Scheduler}
    (same : SameBelow count left right) : SameBelow count right left :=
  ⟨same.tasks.symm, fun level below => (same.queues level below).symm⟩

variable {target : Option KThread}

variable {count level : Nat} {left right : Scheduler}

section

variable (same : SameBelow count left right)

include same

lemma SameBelow.allBlocking
    (below : level < count) (blocking : left.AllBlocking level) : right.AllBlocking level := by
  rw [AllBlocking, ← same.tasks, ← same.queues level below]
  exact blocking

lemma SameBelow.choosesBelow
    (chooses : left.ChoosesBelow count target) : right.ChoosesBelow count target := by
  cases target with
  | none =>
    intro level below
    exact same.allBlocking below (chooses level below)
  | some _ =>
    obtain ⟨hr, level, below, mem, hh⟩ := chooses
    rw [same.tasks] at hr
    rw [same.queues level below] at mem
    refine ⟨hr, level, below, mem, ?_⟩
    intro higher hin above
    exact same.allBlocking hin (hh higher hin above)

lemma SameBelow.turnsBelow (turns : left.TurnsBelow count) : right.TurnsBelow count where
  moved := by
    intro level below hhb
    rw [← same.queues level below]
    apply turns.moved level below
    intro higher hin above
    exact same.symm.allBlocking hin (hhb higher hin above)
  lowest := by
    intro kthread positive hhb
    rw [← same.queues 0 positive, ← same.tasks]
    apply turns.lowest kthread positive
    intro higher hin above
    exact same.symm.allBlocking hin (hhb higher hin above)

end

lemma firstRunnable_eq_none_iff :
    firstRunnable sched.tasks (sched.queues level) = none ↔ sched.AllBlocking level := by
  simp [firstRunnable, find?_eq_none, mem_cyclic, AllBlocking]

variable {kthread : KThread}

lemma firstRunnable_spec (first : firstRunnable sched.tasks (sched.queues level) = some kthread) :
    sched.tasks.isBlocking kthread = false ∧ kthread ∈ (sched.queues level).slots := by
  have hr := find?_some first
  exact ⟨by simpa using hr, mem_cyclic.mp (mem_of_find?_eq_some first)⟩

section

variable (blocking : sched.AllBlocking count)

include blocking

lemma ChoosesBelow.succ
    (chooses : sched.ChoosesBelow count target) : sched.ChoosesBelow (count + 1) target := by
  cases target with
  | none =>
    intro level below
    rcases Nat.lt_succ_iff_lt_or_eq.mp below with lower | same
    · exact chooses level lower
    rw [same]
    exact blocking
  | some _ =>
    obtain ⟨hr, level, below, mem, hh⟩ := chooses
    refine ⟨hr, level, by omega, mem, ?_⟩
    intro higher hin above
    rcases Nat.lt_succ_iff_lt_or_eq.mp hin with lower | same
    · exact hh higher lower above
    rw [same]
    exact blocking

lemma blocking_below_succ {above : Nat → Prop}
    (higherBlock : ∀ higher < count, above higher → sched.AllBlocking higher) :
    ∀ higher < count + 1, above higher → sched.AllBlocking higher := by
  intro higher hin ha
  rcases Nat.lt_succ_iff_lt_or_eq.mp hin with lower | same
  · exact higherBlock higher lower ha
  rw [same]
  exact blocking

lemma TurnsBelow.of_succ (turns : sched.TurnsBelow (count + 1)) : sched.TurnsBelow count where
  moved := fun level _ hhb => turns.moved level (by omega) (blocking_below_succ blocking hhb)
  lowest := fun kthread _ hhb => turns.lowest kthread (by omega) (blocking_below_succ blocking hhb)

lemma TurnsBelow.succ (turns : sched.TurnsBelow count)
    (moved : (sched.queues count).slots ≠ [] → (sched.queues count).next ≠ 0) :
    sched.TurnsBelow (count + 1) where
  moved := by
    intro level below hhb nonempty
    rcases Nat.lt_succ_iff_lt_or_eq.mp below with lower | same
    · exact turns.moved level lower (fun higher hin => hhb higher (by omega)) nonempty
    rw [same] at nonempty ⊢
    exact moved nonempty
  lowest := by
    intro kthread _ hhb first
    by_cases pos : 0 < count
    · exact turns.lowest kthread pos (fun higher hin => hhb higher (by omega)) first
    obtain rfl : count = 0 := by omega
    rw [firstRunnable_eq_none_iff.mpr blocking] at first
    cases first

end

lemma turnsBelow_of_runnable (first : firstRunnable sched.tasks (sched.queues count) = some kthread)
    (lowest : count = 0 → (sched.tasks.taskCtl kthread.task).prioBase = .PVLOW) :
    sched.TurnsBelow (count + 1) where
  moved := by
    intro _ _ hhb
    have hb := hhb count (by omega) (by omega)
    rw [firstRunnable_eq_none_iff.mpr hb] at first
    cases first
  lowest := by
    intro _ _ hhb hof
    by_cases pos : 0 < count
    · have hb := hhb count (by omega) pos
      rw [firstRunnable_eq_none_iff.mpr hb] at first
      cases first
    obtain rfl : count = 0 := by omega
    rw [first] at hof
    cases hof
    exact lowest rfl

lemma setSkips_prioBase (tasks : Tasks) (task other skips : Nat) :
    ((tasks.setSkips task skips).taskCtl other).prioBase = (tasks.taskCtl other).prioBase := by
  by_cases same : other = task
  · rw [same]
    simp [Tasks.setSkips, Tasks.setTask]
  · simp [Tasks.setSkips, Tasks.setTask, Function.update_of_ne same]

lemma index_eq_zero_iff {priority : PriorityVal} : priority.index = 0 ↔ priority = .PVLOW := by
  cases priority <;> decide

lemma take_eq_none_iff : sched.take level kthread = none ↔ level = 0 ∧
    (sched.tasks.taskCtl kthread.task).prioBase ≠ .PVLOW := by
  cases level with
  | zero =>
    simp only [take, setSkips_prioBase, Ne, index_eq_zero_iff]
    by_cases own : (sched.tasks.taskCtl kthread.task).prioBase = .PVLOW
    · simp [own]
    · simp [own, PriorityVal.index]
  | succ _ =>
    simp only [take]
    split <;> simp

/-- The selection returns if the queues turn. -/
lemma selectBelow_returns (count : Nat) :
    ∀ sched : Scheduler, (∀ level < count, (sched.queues level).Sound) → sched.TurnsBelow count →
      ∃ target, sched.ChoosesBelow count target ∧ ∃ bound, ∀ fuel, bound ≤ fuel →
          ∃ after, sched.selectBelow fuel count = some (target, after) := by
  induction count with
  | zero =>
    intro sched _ _
    refine ⟨none, fun level below => absurd below (Nat.not_lt_zero _), 0, ?_⟩
    intro fuel _
    exact ⟨sched, rfl⟩
  | succ count ih =>
    intro sched sound turns
    have hsh := sound count (Nat.lt_succ_self _)
    cases first : firstRunnable sched.tasks (sched.queues count) with
    | some kthread =>
      obtain ⟨hr, mem⟩ := firstRunnable_spec first
      obtain ⟨pos, _, _, _, turned⟩ := turn_found hsh first
      have hne := hsh.empty_eq_false (ne_nil_of_mem mem)
      obtain ⟨taken, hta⟩ : ∃ taken, (sched.setQueue count
          (cursorAt (sched.queues count) (pos + 1))).take count kthread = some taken := by
        rw [← Option.ne_none_iff_exists', Ne, take_eq_none_iff]
        intro fails
        obtain rfl := fails.1
        exact fails.2 (turns.lowest kthread (by omega) (fun higher hin above => by omega) first)
      refine ⟨some kthread, ⟨hr, count, by omega, mem, ?_⟩,
        2 * (sched.queues count).slots.length + 1, ?_⟩
      · intro higher hin above
        omega
      intro fuel he
      refine ⟨taken.skipRounds (fun _ => count) count, ?_⟩
      have hst : (sched.setQueue count (cursorAt
          (sched.queues count) (pos + 1))).tasks.isBlocking kthread = false := hr
      rw [selectBelow]
      simp only [hne, turned fuel he, hst, hta]
      rfl
    | none =>
      have hb := firstRunnable_eq_none_iff.mp first
      have lower := turns.of_succ hb
      by_cases hem : (sched.queues count).slots = []
      · obtain ⟨target, hc, bound, hre⟩ := ih sched (fun level below => sound level (by omega))
          lower
        refine ⟨target, hc.succ hb, bound, ?_⟩
        intro fuel he
        obtain ⟨after, returned⟩ := hre fuel he
        refine ⟨after, ?_⟩
        rw [selectBelow, if_pos (hsh.empty_iff.mpr hem)]
        exact returned
      have moved := turns.moved count (by omega) (fun higher hin above => by
          obtain rfl : higher = count := by omega
          exact hb) hem
      obtain ⟨result, hrb, turned⟩ := turn_blocked hem hb hsh moved
      have same := sameBelow_setQueue sched count (sched.queues count)
      obtain ⟨target, hc, bound, hre⟩ := ih (sched.setQueue count (sched.queues count))
        (fun level below => by
          rw [← same.queues level below]
          exact sound level (by omega))
        (same.turnsBelow lower)
      refine ⟨target, (same.symm.choosesBelow hc).succ hb,
        max bound (2 * (sched.queues count).slots.length + 1), ?_⟩
      intro fuel he
      obtain ⟨after, returned⟩ := hre fuel (by omega)
      refine ⟨after, ?_⟩
      have hne := hsh.empty_eq_false hem
      have hsb : (sched.setQueue count (sched.queues count)).tasks.isBlocking result = true := hrb
      rw [selectBelow]
      simp only [hne, turned fuel (by omega), hsb, Bool.false_eq_true, if_false, if_true]
      exact returned

/-- It returns only then. -/
lemma turnsBelow_of_selectBelow {fuel : Nat} (count : Nat) :
    ∀ (sched : Scheduler) {target : Option KThread} {after : Scheduler},
      (∀ level < count, (sched.queues level).Sound) →
      sched.selectBelow fuel count = some (target, after) → sched.TurnsBelow count := by
  induction count with
  | zero =>
    intro sched target after _ _
    exact ⟨fun level below => absurd below (Nat.not_lt_zero _),
      fun kthread positive => absurd positive (lt_irrefl _)⟩
  | succ count ih =>
    intro sched target after sound done
    have hsh := sound count (Nat.lt_succ_self _)
    rw [selectBelow] at done
    by_cases he : (sched.queues count).slots = []
    · simp only [hsh.empty_iff.mpr he, if_true] at done
      have lower := ih sched (fun level below => sound level (by omega)) done
      refine lower.succ ?_ (absurd he)
      rw [AllBlocking, he]
      intro kthread mem
      cases mem
    have hne := hsh.empty_eq_false he
    simp only [hne, Bool.false_eq_true, if_false] at done
    split at done
    · cases done
    rename_i result turned ht
    have hal := turn_mono (2 * (sched.queues count).slots.length + 1) fuel _ ht
    cases first : firstRunnable sched.tasks (sched.queues count) with
    | some kthread =>
      obtain ⟨pos, _, _, _, finds⟩ := turn_found hsh first
      rw [finds _ (by omega)] at hal
      cases hal
      have hr : (sched.setQueue count (cursorAt
          (sched.queues count) (pos + 1))).tasks.isBlocking result =
            false := (firstRunnable_spec first).1
      rw [hr] at done
      simp only [Bool.false_eq_true, if_false] at done
      split at done
      · cases done
      rename_i taken isTaken
      apply turnsBelow_of_runnable first
      intro hl
      by_contra htl
      cases isTaken.symm.trans (take_eq_none_iff.mpr ⟨hl, htl⟩)
    | none =>
      have hb := firstRunnable_eq_none_iff.mp first
      by_cases hh : (sched.queues count).next = 0
      · have hen := turn_endless he hb hsh fuel (sched.queues count).next hsh.next_le_length
        rw [hh] at ht
        cases hen.symm.trans ht
      obtain ⟨_, hbl, turns⟩ := turn_blocked he hb hsh hh
      rw [turns _ (by omega)] at hal
      cases hal
      have hsb : (sched.setQueue count (sched.queues count)).tasks.isBlocking result = true := hbl
      rw [hsb] at done
      have same := sameBelow_setQueue sched count (sched.queues count)
      have lower := ih _ (fun level below => by
          rw [← same.queues level below]
          exact sound level (by omega)) done
      exact (same.symm.turnsBelow lower).succ hb (fun _ => hh)

def registered (sched : Scheduler) : Nat :=
  ∑ level ∈ Finset.range levels, (sched.queues level).slots.length

/-- Every level can be turned, and no task is below its own level. -/
theorem selectNext_chooses_iff (sched : Scheduler)
    (sound : ∀ level < levels, (sched.queues level).Sound)
    (counted : sched.totalTasks = sched.registered) :
    (∃ fuel target after, sched.selectNext fuel = some (target, after) ∧
        sched.ChoosesBelow levels target) ↔ sched.TurnsBelow levels := by
  by_cases hnt : sched.totalTasks = 0
  · have hae : ∀ level < levels, (sched.queues level).slots = [] := by
      intro level below
      rw [counted, registered, Finset.sum_eq_zero_iff] at hnt
      exact length_eq_zero_iff.mp (hnt level (Finset.mem_range.mpr below))
    have hnb : ∀ level < levels, sched.AllBlocking level := by
      intro level below kthread member
      rw [hae level below] at member
      cases member
    constructor
    · intro _
      refine ⟨fun level below _ hn => absurd (hae level below) hn, ?_⟩
      intro kthread _ _ first
      rw [firstRunnable_eq_none_iff.mpr (hnb 0 (by decide))] at first
      cases first
    intro _
    exact ⟨0, none, sched, by rw [selectNext, if_pos hnt], hnb⟩
  simp only [selectNext, if_neg hnt]
  constructor
  · intro hc
    obtain ⟨fuel, target, after, done, _⟩ := hc
    exact turnsBelow_of_selectBelow levels sched sound done
  intro turns
  obtain ⟨target, hc, bound, hre⟩ := selectBelow_returns levels sched sound turns
  obtain ⟨after, done⟩ := hre bound (le_refl _)
  exact ⟨bound, target, after, done, hc⟩

def blockedAbove : Scheduler where
  queues := fun level =>
    if level = 3 then { slots := [⟨1, none⟩], next := 1, stop := 1 }
    else if level = 1 then { slots := [⟨2, none⟩], next := 0, stop := 1 }
    else {}
  tasks :=
    { taskCtl := fun task =>
        if task = 1 then { block := true, prioBase := .PVEXTRA } else {} }
  totalTasks := 2

theorem selectNext_chooses_iff_blockedAbove :
    ∃ fuel target after, blockedAbove.selectNext fuel = some (target, after) ∧
        blockedAbove.ChoosesBelow levels target := by
  refine (selectNext_chooses_iff blockedAbove (by decide) (by decide)).mpr ?_
  refine ⟨by decide, ?_⟩
  intro _ _ _ first
  cases first

/-- One registered task, which blocks: the cursor is at the start of its queue,
and `select_next` does not return. -/
def oneBlocked : Scheduler where
  queues := fun level =>
    if level = 1 then { slots := [⟨1, none⟩], next := 0, stop := 1 } else {}
  tasks := { taskCtl := fun task => if task = 1 then { block := true } else {} }
  totalTasks := 1

theorem selectNext_endless_oneBlocked :
    ¬ ∃ fuel target after, oneBlocked.selectNext fuel = some (target, after) := by
  intro hr
  obtain ⟨fuel, target, after, returned⟩ := hr
  have turns := turnsBelow_of_selectBelow levels oneBlocked (by decide) returned
  exact turns.moved 1 (by decide) (by decide) (cons_ne_nil _ _) rfl

end OoOS.Sched.Scheduler
