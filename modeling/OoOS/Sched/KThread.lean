import OoOS.Libk.Arith

/-!
# Tasks and threads as the scheduler sees them

`kthread_ptr` names a task and, if it has one, a thread of it.  The control data
is the thread's if there is one, and otherwise the task's.
-/

namespace OoOS.Sched

open Libk Function

inductive PriorityVal where
  | PVLOW | PVNORM | PVHIGH | PVEXTRA | PVSYS
  deriving DecidableEq, Repr

def PriorityVal.index : PriorityVal → Nat
  | PVLOW => 0
  | PVNORM => 1
  | PVHIGH => 2
  | PVEXTRA => 3
  | PVSYS => 4

/-- The part of `tctl_t` that the scheduler uses; `skips` has seven bits. -/
structure TaskCtl where
  block : Bool := false
  canInterrupt : Bool := false
  prioBase : PriorityVal := .PVNORM
  skips : Nat := 0
  waitTicksDelta : Nat := 0
  deriving DecidableEq, Repr

structure ThreadCtl where
  park : Bool := false
  nonTimedPark : Bool := false
  waitTimeDelta : Nat := 0
  deriving DecidableEq, Repr

/-- `kthread_ptr`, with the thread `none` for a null pointer. -/
structure KThread where
  task : Nat
  thread : Option Nat := none
  deriving DecidableEq, Repr

structure Tasks where
  taskCtl : Nat → TaskCtl := fun _ => {}
  threadCtl : Nat → ThreadCtl := fun _ => {}

namespace Tasks

variable (tasks : Tasks)

def setTask (task : Nat) (ctl : TaskCtl) : Tasks :=
  { tasks with taskCtl := Function.update tasks.taskCtl task ctl }

def setThread (thread : Nat) (ctl : ThreadCtl) : Tasks :=
  { tasks with threadCtl := Function.update tasks.threadCtl thread ctl }

def isInterruptible (kthread : KThread) : Bool :=
  match kthread.thread with
  | some thread =>
    if (tasks.threadCtl thread).park then
      (tasks.threadCtl thread).nonTimedPark
    else (tasks.taskCtl kthread.task).block &&
      (tasks.taskCtl kthread.task).canInterrupt
  | none => (tasks.taskCtl kthread.task).block &&
      (tasks.taskCtl kthread.task).canInterrupt

def isBlocking (kthread : KThread) : Bool :=
  match kthread.thread with
  | some thread => (tasks.threadCtl thread).park
  | none => (tasks.taskCtl kthread.task).block

def getWaitDelta (kthread : KThread) : Nat :=
  match kthread.thread with
  | some thread => (tasks.threadCtl thread).waitTimeDelta
  | none => (tasks.taskCtl kthread.task).waitTicksDelta

def putWaitDelta (kthread : KThread) (ticks : Nat) : Tasks :=
  match kthread.thread with
  | some thread => tasks.setThread thread
      { tasks.threadCtl thread with waitTimeDelta := ticks }
  | none => tasks.setTask kthread.task
      { tasks.taskCtl kthread.task with waitTicksDelta := ticks }

def addWaitTicks (kthread : KThread) (ticks : Nat) : Tasks :=
  tasks.putWaitDelta kthread (wadd (tasks.getWaitDelta kthread) ticks)

def waitTick (kthread : KThread) : Tasks :=
  tasks.putWaitDelta kthread (wsub (tasks.getWaitDelta kthread) 1)

def setBlocking (kthread : KThread) (canInterrupt : Bool) : Tasks :=
  match kthread.thread with
  | some thread => tasks.setThread thread
      { tasks.threadCtl thread with
        park := true, nonTimedPark := canInterrupt }
  | none => tasks.setTask kthread.task
      { tasks.taskCtl kthread.task with
        block := true, canInterrupt := canInterrupt }

/-- `clear_blocking`: also the task of a thread is unblocked. -/
def clearBlocking (kthread : KThread) : Tasks :=
  let cleared := tasks.setTask kthread.task
    { tasks.taskCtl kthread.task with
      block := false, waitTicksDelta := 0, canInterrupt := false }
  match kthread.thread with
  | some thread => cleared.setThread thread
      { park := false, waitTimeDelta := 0, nonTimedPark := false }
  | none => cleared

/-- `set_wait_delta`: a timed wait of a thread is not a park that can be
interrupted. -/
def setWaitDelta (kthread : KThread) (ticks : Nat) : Tasks :=
  match kthread.thread with
  | some thread => tasks.setThread thread
      { tasks.threadCtl thread with
        waitTimeDelta := ticks, nonTimedPark := false }
  | none => tasks.putWaitDelta kthread ticks

def setSkips (task : Nat) (skips : Nat) : Tasks :=
  tasks.setTask task { tasks.taskCtl task with skips := skips % 128 }

end Tasks

def KThread.cell (kthread : KThread) : Nat ⊕ Nat :=
  match kthread.thread with
  | some thread => .inr thread
  | none => .inl kthread.task

/-- `clear_blocking` of one thread changes the control data of the other. -/
def KThread.Clears (kthread other : KThread) : Prop :=
  other.cell = kthread.cell ∨ other.cell = .inl kthread.task

instance (kthread other : KThread) : Decidable (kthread.Clears other) :=
  inferInstanceAs (Decidable (_ ∨ _))

namespace Tasks

variable (tasks : Tasks) (kthread other : KThread)

open KThread

lemma isBlocking_congr {kthread other : KThread} (same : other.cell = kthread.cell) :
    tasks.isBlocking other = tasks.isBlocking kthread := by
  rcases kthread with ⟨_, _ | _⟩ <;>
    rcases other with ⟨_, _ | _⟩ <;>
    simp_all [cell, isBlocking]

lemma getWaitDelta_putWaitDelta (ticks : Nat) :
    (tasks.putWaitDelta kthread ticks).getWaitDelta other = if other.cell = kthread.cell then ticks
      else tasks.getWaitDelta other := by
  rcases kthread with ⟨_, _ | _⟩ <;>
    rcases other with ⟨_, _ | _⟩ <;>
    simp only [putWaitDelta, getWaitDelta, setTask, setThread, cell,
      update_apply, Sum.inl.injEq, Sum.inr.injEq, reduceCtorEq, if_false] <;>
    split <;> rfl

lemma isBlocking_putWaitDelta (ticks : Nat) :
    (tasks.putWaitDelta kthread ticks).isBlocking other = tasks.isBlocking other := by
  rcases kthread with ⟨_, _ | _⟩ <;>
    rcases other with ⟨_, _ | _⟩ <;>
    simp only [putWaitDelta, isBlocking, setTask, setThread, update_apply] <;>
    split <;> simp_all

lemma getWaitDelta_setBlocking (canInterrupt : Bool) :
    (tasks.setBlocking kthread canInterrupt).getWaitDelta other = tasks.getWaitDelta other := by
  rcases kthread with ⟨_, _ | _⟩ <;>
    rcases other with ⟨_, _ | _⟩ <;>
    simp only [setBlocking, getWaitDelta, setTask, setThread, update_apply] <;>
    split <;> simp_all

lemma isBlocking_setBlocking (canInterrupt : Bool) :
    (tasks.setBlocking kthread canInterrupt).isBlocking other =
      if other.cell = kthread.cell then true else tasks.isBlocking other := by
  rcases kthread with ⟨_, _ | _⟩ <;>
    rcases other with ⟨_, _ | _⟩ <;>
    simp only [setBlocking, isBlocking, setTask, setThread, cell,
      update_apply, Sum.inl.injEq, Sum.inr.injEq, reduceCtorEq, if_false] <;>
    split <;> rfl

lemma getWaitDelta_setWaitDelta (ticks : Nat) :
    (tasks.setWaitDelta kthread ticks).getWaitDelta other = if other.cell = kthread.cell then ticks
      else tasks.getWaitDelta other := by
  rcases kthread with ⟨task, _ | _⟩
  · exact tasks.getWaitDelta_putWaitDelta ⟨task, none⟩ other ticks
  rcases other with ⟨_, _ | _⟩
  · rfl
  simp only [setWaitDelta, getWaitDelta, setThread, cell, update_apply, Sum.inr.injEq]
  split <;> rfl

lemma isBlocking_setWaitDelta (ticks : Nat) :
    (tasks.setWaitDelta kthread ticks).isBlocking other = tasks.isBlocking other := by
  rcases kthread with ⟨task, _ | _⟩
  · exact tasks.isBlocking_putWaitDelta ⟨task, none⟩ other ticks
  rcases other with ⟨_, _ | _⟩
  · rfl
  simp only [setWaitDelta, isBlocking, setThread, update_apply]
  split <;> simp_all

lemma getWaitDelta_clearBlocking : (tasks.clearBlocking kthread).getWaitDelta other =
    if kthread.Clears other then 0 else tasks.getWaitDelta other := by
  rcases kthread with ⟨_, _ | _⟩ <;>
    rcases other with ⟨_, _ | _⟩ <;>
    simp only [clearBlocking, getWaitDelta, setTask, setThread, cell,
      KThread.Clears, update_apply, Sum.inl.injEq, Sum.inr.injEq,
      reduceCtorEq, or_false, false_or, or_self, if_false] <;>
    split <;> rfl

lemma isBlocking_clearBlocking : (tasks.clearBlocking kthread).isBlocking other =
    if kthread.Clears other then false else tasks.isBlocking other := by
  rcases kthread with ⟨_, _ | _⟩ <;>
    rcases other with ⟨_, _ | _⟩ <;>
    simp only [clearBlocking, isBlocking, setTask, setThread, cell,
      KThread.Clears, update_apply, Sum.inl.injEq, Sum.inr.injEq,
      reduceCtorEq, or_false, false_or, or_self, if_false] <;>
    split <;> rfl

/-- A thread whose wait is timed is not in a park that can be interrupted. -/
def Timed (tasks : Tasks) (kthread : KThread) : Prop :=
  ∀ thread, kthread.thread = some thread → (tasks.threadCtl thread).nonTimedPark = false

variable {tasks other}

section

variable (timed : tasks.Timed other)

include timed

lemma Timed.putWaitDelta (kthread : KThread)
    (ticks : Nat) : (tasks.putWaitDelta kthread ticks).Timed other := by
  intro thread ht
  have hb := timed thread ht
  rcases kthread with ⟨_, _ | _⟩
  · exact hb
  simp only [Tasks.putWaitDelta, setThread, update_apply]
  split
  · rename_i same
    rw [same] at hb
    exact hb
  · exact hb

lemma Timed.clearBlocking (kthread : KThread) : (tasks.clearBlocking kthread).Timed other := by
  intro thread ht
  have hb := timed thread ht
  rcases kthread with ⟨_, _ | _⟩
  · exact hb
  simp only [Tasks.clearBlocking, setThread, update_apply]
  split
  · rfl
  · exact hb

lemma Timed.setWait (kthread : KThread) (canInterrupt : Bool) (ticks : Nat) :
    ((tasks.setBlocking kthread canInterrupt).setWaitDelta kthread ticks).Timed other := by
  intro thread ht
  have hb := timed thread ht
  rcases kthread with ⟨_, _ | _⟩
  · exact hb
  simp only [setBlocking, setWaitDelta, setThread, update_apply]
  split
  · rfl
  · exact hb

end

lemma timed_setWait_self (tasks : Tasks) (kthread : KThread) (canInterrupt : Bool) (ticks : Nat) :
    ((tasks.setBlocking kthread canInterrupt).setWaitDelta kthread ticks).Timed kthread := by
  intro _ ht
  rcases kthread with ⟨_, _ | _⟩
  · cases ht
  cases ht
  simp [setBlocking, setWaitDelta, setThread]

lemma Timed.thread_eq_none (timed : tasks.Timed other) (blocking : tasks.isBlocking other = true)
    (interruptible : tasks.isInterruptible other = true) : other.thread = none := by
  rcases other with ⟨_, _ | thread⟩
  · rfl
  have hnp := timed thread rfl
  simp only [isBlocking] at blocking
  simp only [isInterruptible, blocking, if_true, hnp] at interruptible
  cases interruptible

end Tasks

end OoOS.Sched
