import OoOS.Libk.DynamicQueue
import OoOS.Sched.KThread

/-!
# Sleeping threads

The threads in a timed wait are in `__sleepers`, each with the difference
between its remaining time and that of the thread in front of it.  `behind` is
what lies behind the last element, which is read too.
-/

namespace OoOS.Sched

open Libk

structure Sleepers where
  queue : ResettableQueue KThread := { trimStale := true }
  tasks : Tasks := {}

namespace Sleepers

def waiting (sleepers : Sleepers) : List KThread :=
  (sleepers.queue.slots.take sleepers.queue.stop).drop sleepers.queue.next

def nextSlot (sleepers : Sleepers) (behind : KThread) : KThread :=
  sleepers.queue.slots[sleepers.queue.next]?.getD behind

def cumulativeRemainingTicks (sleepers : Sleepers) : Nat :=
  sleepers.waiting.foldl
    (fun result kthread => wadd result (sleepers.tasks.getWaitDelta kthread)) 0

def tickWait (sleepers : Sleepers) (behind : KThread) : Sleepers :=
  if sleepers.queue.empty || sleepers.queue.atEnd then sleepers
  else { sleepers with
    tasks := sleepers.tasks.waitTick (sleepers.nextSlot behind) }

def interruptAt (sleepers : Sleepers) (pos : Nat) (kthread : KThread) : Bool × Sleepers :=
  if ¬ (pos < sleepers.queue.stop ∧ sleepers.tasks.isInterruptible kthread) then (false, sleepers)
  else
    let tasks :=
      match (sleepers.queue.slots.take sleepers.queue.stop)[pos + 1]? with
      | some subs => sleepers.tasks.addWaitTicks subs
          (sleepers.tasks.getWaitDelta kthread)
      | none => sleepers.tasks
    (true,
      { queue := sleepers.queue.eraseOne pos
        tasks := tasks.clearBlocking kthread })

/-- The loop of `__set_wait_time`: where to insert, as an offset from
`current()`, and what is left of the time there. -/
def insertionPoint (tasks : Tasks) (time : Nat) :
    (cumulative : Nat) → List KThread → Option (Nat × Nat)
  | _, [] => none
  | cumulative, kthread :: rest =>
    let cwait := tasks.getWaitDelta kthread
    if time < wadd cwait cumulative then
      some (0, wsub time cumulative)
    else
      (insertionPoint tasks time (wadd cumulative cwait) rest).map
        fun point => (point.1 + 1, point.2)

/-- `__set_wait_time`; the loops do not end if the cursor is behind the end of
the queue. -/
def setWaitTime (sleepers : Sleepers) (kthread : KThread) (time : Nat)
    (canInterrupt : Bool) : Option (Bool × Sleepers) :=
  if sleepers.queue.stop < sleepers.queue.next then none
  else
    let tasks := sleepers.tasks.setBlocking kthread canInterrupt
    let total := { sleepers with tasks := tasks }.cumulativeRemainingTicks
    let point :=
      if time < total then insertionPoint tasks time 0 sleepers.waiting
      else none
    match point with
    | some (offset, ticks) =>
      let pos := sleepers.queue.next + offset
      let queue := sleepers.queue.insert .construct pos kthread 1
      some (pos ≠ queue.stop, { queue := queue, tasks := tasks.setWaitDelta kthread ticks })
    | none => some (true,
        { queue := sleepers.queue.push kthread
          tasks := tasks.setWaitDelta kthread (wsub time total) })

def setWaitTimed (sleepers : Sleepers) (kthread : KThread) (time : Nat)
    (canInterrupt : Bool) : Option (Bool × Sleepers) :=
  if sleepers.tasks.isBlocking kthread then some (false, sleepers)
  else sleepers.setWaitTime kthread time canInterrupt

def interruptWait (sleepers : Sleepers) (waiting : KThread) : Option (Bool × Sleepers) :=
  if sleepers.queue.stop < sleepers.queue.next then none
  else
    match sleepers.waiting.idxOf? waiting with
    | some offset => some (sleepers.interruptAt (sleepers.queue.next + offset) waiting)
    | none => some (false, sleepers)

/-- `scheduler::interrupt_wait` of a task.  The loop goes through all slots,
and its iterator is not valid any more once a thread was erased. -/
def interruptTask (sleepers : Sleepers) (task : Nat) : Option (Bool × Sleepers) :=
  let found := (sleepers.queue.slots.take sleepers.queue.stop).filter
    fun kthread => kthread.task = task
  if found.any sleepers.tasks.isInterruptible then none
  else some (!found.isEmpty, sleepers)

/-- The loop of `on_tick`: `slot` is the one that `front_sleeper` refers to,
and `pop` throws if there is no element. -/
def wake (behind : KThread) (slot : Nat) : (fuel : Nat) → Sleepers → Option Sleepers
  | 0, _ => none
  | fuel + 1, sleepers =>
    let frontSleeper := sleepers.queue.slots[slot]?.getD behind
    if frontSleeper.task ≠ 0 ∧ sleepers.tasks.getWaitDelta frontSleeper = 0 then
      match sleepers.queue.pop with
      | none => none
      | some (wakee, queue) =>
        let popped : Sleepers := { queue := queue, tasks := sleepers.tasks.clearBlocking wakee }
        wake behind slot fuel
          { popped with
            queue := { queue with
              slots := queue.slots.set slot (popped.nextSlot behind) } }
    else some sleepers

def onTick (sleepers : Sleepers) (totalTasks : Nat) (taskLockFlag : Bool)
    (behind : KThread) : Option Sleepers :=
  if totalTasks = 0 ∨ taskLockFlag then some sleepers
  else
    let ticked := sleepers.tickWait behind
    if ticked.queue.atEnd then some ticked
    else wake behind ticked.queue.next (ticked.queue.slots.length + 1) ticked

inductive Call where
  | setWaitTimed (kthread : KThread) (time : Nat) (canInterrupt : Bool)
  | interruptWait (waiting : KThread)
  | interruptTask (task : Nat)
  | onTick (totalTasks : Nat) (taskLockFlag : Bool) (behind : KThread)
  deriving DecidableEq, Repr

def step (sleepers : Sleepers) : Call → Option Sleepers
  | .setWaitTimed kthread time canInterrupt =>
    (sleepers.setWaitTimed kthread time canInterrupt).map Prod.snd
  | .interruptWait waiting => (sleepers.interruptWait waiting).map Prod.snd
  | .interruptTask task => (sleepers.interruptTask task).map Prod.snd
  | .onTick totalTasks taskLockFlag behind => sleepers.onTick totalTasks taskLockFlag behind

def run (calls : List Call) (sleepers : Sleepers) : Option Sleepers := calls.foldlM step sleepers

def Call.isTick : Call → Bool
  | .onTick .. => true
  | _ => false

end Sleepers

end OoOS.Sched
