import Mathlib.Data.List.Nodup
import Mathlib.Tactic.Ring
import OoOS.Lib.LittleEndian

/-!
# Signals

The sets of signals are 64-bit words, kept as nested little-endian halves.
-/

namespace OoOS.Sched.Signals

open Lib

abbrev U8 := BitVec 8

abbrev Le16 := Half U8

abbrev Le32 := Half Le16

abbrev Le64 := Half Le32

inductive BitOp where
  | bts
  | btr
  | btc
  deriving DecidableEq

def BitOp.store : BitOp → U8 → U8 → U8
  | .bts, full, bit => full ||| bit
  | .btr, full, bit => full &&& ~~~bit
  | .btc, full, bit => full ^^^ bit

def BitOp.change : BitOp → Bool → Bool
  | .bts, _ => true
  | .btr, _ => false
  | .btc, isSet => !isSet

def shiftedOne (i : Int) : U8 := ((1#32) <<< (i % 32).toNat).setWidth 8

/-- `bts`, `btr` and `btc` of a byte; the result is the old byte as a Boolean. -/
def U8.update (op : BitOp) (full : U8) (i : Int) : Bool × U8 :=
  (full ≠ 0, op.store full (shiftedOne i))

def Le16.update (op : BitOp) : Le16 → Int → Bool × Le16 := Half.update 8 (U8.update op)

def Le32.update (op : BitOp) : Le32 → Int → Bool × Le32 := Half.update 16 (Le16.update op)

def Le64.update (op : BitOp) : Le64 → Int → Bool × Le64 := Half.update 32 (Le32.update op)

def Le16.value (word : Le16) : BitVec 16 := word.hi ++ word.lo

def Le32.value (word : Le32) : BitVec 32 := Le16.value word.hi ++ Le16.value word.lo

def Le64.value (word : Le64) : BitVec 64 := Le32.value word.hi ++ Le32.value word.lo

def Le16.ofValue (value : BitVec 16) : Le16 := ⟨value.extractLsb' 0 8, value.extractLsb' 8 8⟩

def Le32.ofValue (value : BitVec 32) : Le32 :=
  ⟨Le16.ofValue (value.extractLsb' 0 16), Le16.ofValue (value.extractLsb' 16 16)⟩

def Le64.ofValue (value : BitVec 64) : Le64 :=
  ⟨Le32.ofValue (value.extractLsb' 0 32), Le32.ofValue (value.extractLsb' 32 32)⟩

def ffsl (value : BitVec 64) : Nat :=
  match (List.range 64).find? fun n => value.getLsbD n with
  | some n => n + 1
  | none => 0

def numSignals : Nat := 64

structure SavedRegs where
  rax : Nat
  rcx : Nat
  rdi : Nat
  rsi : Nat
  r11 : Nat
  rsp : Nat
  rip : Nat
  others : Nat

structure ThreadContext where
  savedRegs : SavedRegs
  fxsv : Nat
  threadPtr : Nat

/-- A task with its `task_signal_info_t`; a handler is its address. -/
structure SignalTask where
  parentPid : Int
  childTasks : List Nat
  killed : Bool
  context : ThreadContext
  stack : Nat → Nat
  sigretThread : Nat
  blockedSignals : Le64
  pendingSignals : Le64
  sigretFxsave : Nat
  signalHandlers : Fin numSignals → Nat
  sigretFrame : SavedRegs
  activeSignal : Fin numSignals

/-- What signals need of the rest of the kernel: the switch to the main thread
and the addresses of `signal_exit` and `sigtramp_enter`. -/
structure SignalEnv where
  switchToMain : ThreadContext → ThreadContext
  signalExit : Nat
  sigtrampEnter : Nat

/-- The entry of the handler array that an `int` stands for, if there is one. -/
def slot (sig : Int) : Option (Fin numSignals) :=
  if inside : 0 ≤ sig ∧ sig.toNat < numSignals then
    some ⟨sig.toNat, inside.2⟩
  else none

def ignoredMask : BitVec 64 :=
  [18, 19, 20, 21, 25, 32, 33, 34, 35, 36, 37].foldl
    (fun mask n => mask ||| (1#64 <<< n)) 0

/-- `ignored_mask & BIT(sig)`: the shifted one is an `int`. -/
def inIgnoredMask (sig : Int) : Bool :=
  ignoredMask &&& ((1#32) <<< (sig % 32).toNat).signExtend 64 ≠ 0

namespace SignalTask

variable (env : SignalEnv) (task : SignalTask)

def stackPush (value : Nat) : SignalTask :=
  let rsp := (task.context.savedRegs.rsp + (2 ^ 64 - 8)) % 2 ^ 64
  { task with
    context := { task.context with
      savedRegs := { task.context.savedRegs with rsp := rsp } }
    stack := fun address =>
      if address = rsp then value else task.stack address }

def saveState : SignalTask :=
  { task with
    sigretThread := task.context.threadPtr
    sigretFrame := task.context.savedRegs
    sigretFxsave := task.context.fxsv
    context := env.switchToMain task.context }

def activate (signal : Fin numSignals) : SignalTask :=
  let handler := task.signalHandlers signal
  stackPush
    { task with
      activeSignal := signal
      context := { task.context with
        savedRegs := { task.context.savedRegs with
          rdi := signal
          rsi := if handler = 0 then env.signalExit else handler
          rip := env.sigtrampEnter } }
      signalHandlers := fun other =>
        if other = signal then 0 else task.signalHandlers other }
    task.sigretFrame.rip

/-- A signal that is dropped: it is in the mask and has no handler. -/
def ignores (signal : Fin numSignals) : Bool :=
  inIgnoredMask (signal : Nat) && task.signalHandlers signal = 0

def setSignal (sig : Int) (saveFirst : Bool) : Option SignalTask :=
  (slot sig).map fun signal =>
    if task.ignores signal then
      { task with
        pendingSignals := (Le64.update .btr task.pendingSignals sig).2 }
    else if saveFirst then (task.saveState env).activate env signal
    else task.activate env signal

def endSignal : SignalTask :=
  stackPush (stackPush
    { task with
      context := { task.context with
        savedRegs := { task.sigretFrame with
          rsp := task.context.savedRegs.rsp
          rip := task.context.savedRegs.rip }
        fxsv := task.sigretFxsave }
      activeSignal := ⟨0, by decide⟩ } task.sigretFrame.r11)
    task.sigretFrame.rcx

def deliver (sig : Int) : Option SignalTask :=
  (slot sig).bind fun signal =>
    setSignal env
      { task with
        killed := task.killed || task.signalHandlers signal = 0
        pendingSignals := (Le64.update .bts task.pendingSignals sig).2 }
      sig true

/-- `kill_one`; the flag says whether delivery was started. -/
def killOne (sig : Int) (force : Bool) : Option (Bool × SignalTask) :=
  if force then (task.deliver env sig).map fun after => (true, after)
  else
    let tested := Le64.update .btc task.blockedSignals sig
    let changed := { task with blockedSignals := tested.2 }
    if tested.1 then some (false, changed)
    else (changed.deliver env sig).map fun after => (true, after)

/-- The first half of `syscall_sigret`: the active signal is ended, if its test
finds it pending. -/
def endedSignal : Option SignalTask :=
  let tested := Le64.update .btr task.pendingSignals (task.activeSignal : Nat)
  if tested.1 then some (endSignal { task with pendingSignals := tested.2 })
  else none

end SignalTask

structure System where
  pids : List Nat
  nodup : pids.Nodup
  task : Nat → SignalTask
  active : Nat

inductive SigprocmaskAction where
  | sigBlock
  | sigUnblock
  | sigSetmask
  | other
  deriving DecidableEq

inductive OldMask where
  | null
  | unmapped
  | mapped
  deriving DecidableEq

inductive SignalCall where
  | sigprocmask (how : SigprocmaskAction) (set : Option Le64)
      (oset : OldMask)
  | kill (pid : Int) (sig : Nat)
  | raise (sig : Int)
  | signal (sig : Int) (handler : Nat)
  | sigret

def ePerm : Int := 1

def eSrch : Int := 3

def eFault : Int := 14

def eInval : Int := 22

namespace System

variable (env : SignalEnv) (system : System)

def setTask (pid : Nat) (after : SignalTask) : System :=
  { system with
    task := fun other => if other = pid then after else system.task other }

/-- `check_kill`, to a given depth of the tree of child tasks. -/
def checkKillTo (system : System) : Nat → Nat → Nat → Bool
  | 0, _, _ => false
  | depth + 1, caller, target =>
    (system.task target).parentPid = (caller : Int) ||
      (system.task caller).childTasks.any fun child => checkKillTo system depth child target

/-- `check_kill`: no path of child tasks is longer than there are tasks. -/
def checkKill (target : Nat) : Bool := system.checkKillTo system.pids.length system.active target

def killAt (pid : Nat) (sig : Int) : Option System :=
  ((system.task pid).killOne env sig false).map fun result => system.setTask pid result.2

def killEach (sig : Int) : List Nat → System → Option System
  | [], system => some system
  | pid :: rest, system => (system.killAt env pid sig).bind (killEach sig rest)

def syscallKill (pid : Int) (sig : Nat) : Option (Int × System) :=
  if numSignals < sig then some (-eInval, system)
  else if pid < 0 then
    (killEach env sig (system.pids.filter system.checkKill) system).map
      fun after => (0, after)
  else if pid.toNat ∉ system.pids then some (-eSrch, system)
  else if ¬ system.checkKill pid.toNat then some (-ePerm, system)
  else if sig ≠ 0 then
    (system.killAt env pid.toNat sig).map fun after => (0, after)
  else some (0, system)

/-- `syscall_raise`: the comparison is one of signed numbers. -/
def syscallRaise (sig : Int) : Option (Int × System) :=
  if (numSignals : Int) < sig then some (-eInval, system)
  else (system.killAt env system.active sig).map fun after => (0, after)

/-- `syscall_signal`, which does not test the number. -/
def syscallSignal (sig : Int) (handler : Nat) : Option (Int × System) :=
  let task := system.task system.active
  (slot sig).map fun signal =>
    (task.signalHandlers signal, system.setTask system.active
        { task with
          signalHandlers := fun other =>
            if other = signal then handler else task.signalHandlers other })

def syscallSigret : Option (Int × System) :=
  match (system.task system.active).endedSignal with
  | none => some (-eInval, let task := system.task system.active
      system.setTask system.active
        { task with
          pendingSignals :=
            (Le64.update .btr task.pendingSignals
              (task.activeSignal : Nat)).2 })
  | some ended =>
    if ended.pendingSignals.value ≠ 0 then
      (ended.setSignal env (ffsl ended.pendingSignals.value) false).map
        fun after =>
          (after.context.savedRegs.rax, system.setTask system.active after)
    else
      some (ended.context.savedRegs.rax,
        system.setTask system.active { ended with sigretThread := 0 })

def newMask (how : SigprocmaskAction) (old set : Le64) : Option Le64 :=
  match how with
  | .sigBlock => some (Le64.ofValue (old.value ||| set.value))
  | .sigUnblock => some (Le64.ofValue (old.value &&& ~~~set.value))
  | .sigSetmask => some set
  | .other => none

/-- `syscall_sigprocmask`; the copy of the old mask in the memory of the caller
is left out. -/
def syscallSigprocmask (how : SigprocmaskAction) (set : Option Le64) (oset : OldMask) :
    Int × System :=
  let task := system.task system.active
  match set with
  | none => (-eFault, system)
  | some set =>
    if oset = .unmapped then (-eFault, system)
    else
      match newMask how task.blockedSignals set with
      | none => (-eInval, system)
      | some mask =>
        (0, system.setTask system.active
          { task with blockedSignals := mask })

def call : SignalCall → Option (Int × System)
  | .sigprocmask how set oset => some (system.syscallSigprocmask how set oset)
  | .kill pid sig => system.syscallKill env pid sig
  | .raise sig => system.syscallRaise env sig
  | .signal sig handler => system.syscallSignal sig handler
  | .sigret => system.syscallSigret env

/-- The states in which the calls of a sequence are made; it ends where an access
falls outside the handler array. -/
def trace (env : SignalEnv) : System → List SignalCall → List (System × SignalCall)
  | _, [] => []
  | system, next :: calls =>
    (system, next) ::
      match system.call env next with
      | none => []
      | some result => trace env result.2 calls

end System

end OoOS.Sched.Signals
