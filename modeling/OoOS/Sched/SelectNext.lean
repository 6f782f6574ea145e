import OoOS.Libk.DynamicQueue
import OoOS.Sched.KThread

/-!
# Choosing the next task

`scheduler::select_next` turns each queue once around its cursor until a task
that does not block comes up.  A queue of blocking tasks with its cursor at the
start is turned for ever.
-/

namespace OoOS.Sched

open Libk

/-- The queues of the priority levels, by index; `total_tasks` counts the
registered tasks. -/
structure Scheduler where
  queues : Nat → ResettableQueue KThread := fun _ => {}
  tasks : Tasks := {}
  totalTasks : Nat := 0

def skipsThreshold : Nat := 5

namespace Scheduler

def levels : Nat := 5

def setQueue (sched : Scheduler) (level : Nat) (queue : ResettableQueue KThread) : Scheduler :=
  { sched with queues := Function.update sched.queues level queue }

/-- The loop of `select_next` on one queue, as far as the fuel goes; `entry` is
the cursor at its start. -/
def turn (tasks : Tasks) (entry : Nat) : (fuel : Nat) →
    ResettableQueue KThread → Option (KThread × ResettableQueue KThread)
  | 0, _ => none
  | fuel + 1, queue =>
    let queue := if queue.atEnd then queue.restart else queue
    match queue.pop with
    | none => none
    | some (result, queue) =>
      if tasks.isBlocking result ∧ entry ≠ queue.next then
        turn tasks entry fuel queue
      else some (result, queue)

def transferNext (sched : Scheduler) (source target : Nat) : Scheduler :=
  match (sched.queues source).next? with
  | none => sched
  | some kthread =>
    let pushed := sched.setQueue target ((sched.queues target).push kthread)
    pushed.setQueue source (pushed.queues source).eraseNext

def onSkipped (sched : Scheduler) (level : Nat) : Scheduler :=
  match (sched.queues level).next? with
  | none => sched
  | some kthread =>
    { sched with
      tasks := sched.tasks.setSkips kthread.task
        ((sched.tasks.taskCtl kthread.task).skips + 1) }

def skipFlag (sched : Scheduler) (level : Nat) : Bool :=
  match (sched.queues level).next? with
  | none => false
  | some kthread => skipsThreshold < (sched.tasks.taskCtl kthread.task).skips

/-- The front task of `source` is skipped, and moves to `target` when that was
once too often. -/
def skipRound (sched : Scheduler) (source target : Nat) : Scheduler :=
  let skipped := sched.onSkipped source
  if skipped.skipFlag source then
    let moved := skipped.transferNext source target
    match (moved.queues target).back? with
    | none => moved
    | some kthread =>
      { moved with tasks := moved.tasks.setSkips kthread.task 0 }
  else skipped

/-- The rounds for the levels below `count`, from the highest one down; `source`
says which queue is skipped at a level. -/
def skipRounds (source : Nat → Nat) : (count : Nat) → Scheduler → Scheduler
  | 0, sched => sched
  | level + 1, sched => skipRounds source level (sched.skipRound (source level) (level + 1))

/-- The task is taken: its counter starts again, and it goes down one level if it
is above its own. -/
def take (sched : Scheduler) (level : Nat) (kthread : KThread) : Option Scheduler :=
  let taken := { sched with tasks := sched.tasks.setSkips kthread.task 0 }
  if (taken.tasks.taskCtl kthread.task).prioBase.index ≠ level ∧
      level ≠ PriorityVal.PVSYS.index then
    match level with
    | 0 => none
    | below + 1 =>
      some ((taken.setQueue level (taken.queues level).unpop).transferNext
        level below)
  else some taken

def selectBelow (fuel : Nat) : (count : Nat) → Scheduler → Option (Option KThread × Scheduler)
  | 0, sched => some (none, sched)
  | level + 1, sched =>
    let queue := sched.queues level
    if queue.empty then selectBelow fuel level sched
    else
      match turn sched.tasks queue.next fuel queue with
      | none => none
      | some (result, turned) =>
        let sched := sched.setQueue level turned
        if sched.tasks.isBlocking result then
          selectBelow fuel level sched
        else
          match sched.take level result with
          | none => none
          | some taken =>
            -- Every round is about the queue the task was taken from.
            some (some result, taken.skipRounds (fun _ => level) level)

/-- `scheduler::select_next`; `none` if the fuel is not enough or a queue that is
not there is used. -/
def selectNext (fuel : Nat) (sched : Scheduler) : Option (Option KThread × Scheduler) :=
  if sched.totalTasks = 0 then some (none, sched)
  else sched.selectBelow fuel levels

end Scheduler

end OoOS.Sched
