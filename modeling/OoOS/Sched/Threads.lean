import OoOS.Lib.Prefixes
import OoOS.Sched.TlsRun

/-!
# The threads of a process

A new thread takes the memory of the thread that was given back last, with the
stack size it asks for, and its stack pointer stands as far above its stack's
base as that of its creator.  Addresses are numbers without a bound; those of threads are
below the end of the frame, so none wraps while that end is an address.
-/

namespace OoOS.Sched.Threads

open List Lib Lib.Layout Sched.Tls TlsState Function

inductive ThreadState
  | stopped
  | running
  | terminated
  deriving DecidableEq

/-- The control data in a thread's record, and the stack pointer that it was made
with. -/
structure Control where
  threadId : Nat
  state : ThreadState
  detached : Bool
  initialRsp : Option Int

/-- The control data of a thread is found by the address of its record. -/
structure Process where
  frame : TlsState
  control : Nat → Control
  notifyThreads : List (List Nat)

def start (program : Program) (memory : Memory) (index : Nat → Nat)
    (attached : List (Nat × Bool)) : Process where
  frame := (loaded program memory index attached).tlinit program
  control := fun _ => ⟨0, .running, false, none⟩
  notifyThreads := [[]]

def nextSelf (s : TlsState) : Nat :=
  match s.inactiveThreads.getLast? with
  | some old => old.self
  | none => s.blockEnd

def nextStackBase (program : Program) (s : TlsState) : Nat :=
  match s.inactiveThreads.getLast? with
  | some old => old.stackBase
  | none => s.stackBegin program

namespace Process

variable (program : Program) (p : Process)

def live (id : Nat) : Option Thread := p.frame.threadPtrs[id]?.join

def setControl (self : Nat) (control : Control) : Process :=
  { p with control := Function.update p.control self control }

def newRsp (creator : Thread) (rsp stackBase : Nat) : Int :=
  stackBase + ((rsp : Int) - creator.stackBase)

def threadInit (creator : Thread) (rsp : Nat) (copyAllRegs : Bool)
    (stackTargetSize : Nat) (startDetached : Bool) : Process where
  frame := p.frame.threadInit program creator copyAllRegs stackTargetSize
  control := Function.update p.control (nextSelf p.frame)
    { threadId := p.frame.assignedThreadId
      state := .stopped
      detached := startDetached
      initialRsp :=
        some (newRsp creator rsp (nextStackBase program p.frame)) }
  notifyThreads :=
    if p.frame.assignedThreadId < p.frame.threadPtrs.length then
      p.notifyThreads.set p.frame.assignedThreadId []
    else p.notifyThreads ++ [[]]

def startThread (self : Nat) (lowered : Int) (state : ThreadState) : Process :=
  p.setControl self
    { p.control self with
      state := state
      initialRsp := (p.control self).initialRsp.map (fun rsp => rsp - lowered) }

def threadFork (creator : Thread) (rsp : Nat) : Process :=
  (p.threadInit program creator rsp true 0 false).startThread
    (nextSelf p.frame) 0 .running

/-- The new thread stays stopped if its stack pointer is not mapped. -/
def threadAdd (creator : Thread) (rsp stackTargetSize : Nat) (startDetached mapped : Bool) :
    Process :=
  (p.threadInit program creator rsp false (max 4096 stackTargetSize)
    startDetached).startThread (nextSelf p.frame) 8
    (if mapped then .running else .stopped)

/-- A thread ends; if it is detached or another one waits for it, its number and
its memory are given back. -/
def threadExit (id : Nat) : Process :=
  match p.live id with
  | none => p
  | some thread =>
    let ended := p.setControl thread.self
      { p.control thread.self with state := .terminated }
    if (p.control thread.self).detached ∨ p.notifyThreads.getD id [] ≠ [] then
      { ended with
        frame := p.frame.retire id thread
        notifyThreads := p.notifyThreads.set id [] }
    else ended

def threadJoin (current : Thread) (id : Nat) : Process :=
  match p.live id with
  | none => p
  | some thread =>
    if (p.control thread.self).state = .terminated then
      { p with frame := p.frame.retire id thread }
    else
      { p with
        notifyThreads := p.notifyThreads.set id
          (p.notifyThreads.getD id [] ++ [current.self]) }

def threadDetach (id : Nat) : Process :=
  match p.live id with
  | none => p
  | some thread =>
    if (p.control thread.self).state = .running then
      p.setControl thread.self
        { p.control thread.self with detached := true }
    else p

end Process

inductive Call
  | threadAdd (stackTargetSize : Nat) (startDetached mapped : Bool)
  | threadFork
  | threadExit
  | threadJoin (id : Nat)
  | threadDetach (id : Nat)
  | grow (amount : Nat)

structure Event where
  current : Nat
  rsp : Nat
  call : Call

namespace Process

variable (program : Program)

def caller (p : Process) (event : Event) : Option Thread :=
  match p.live event.current with
  | none => none
  | some thread =>
    if (p.control thread.self).state = .running then some thread else none

def step (p : Process) (event : Event) : Process :=
  match p.caller event with
  | none => p
  | some thread =>
    match event.call with
    | .threadAdd stackTargetSize startDetached mapped =>
      p.threadAdd program thread event.rsp stackTargetSize startDetached
        mapped
    | .threadFork => p.threadFork program thread event.rsp
    | .threadExit => p.threadExit (p.control thread.self).threadId
    | .threadJoin id => p.threadJoin thread id
    | .threadDetach id => p.threadDetach id
    | .grow amount => { p with frame := p.frame.shiftExtent amount }

def run (p : Process) (events : List Event) : Process := events.foldl (step program) p

end Process

inductive Region
  | block
  | record
  | stack
  deriving DecidableEq

/-- The addresses of a part; a null `tls_start` says that there is no block. -/
def Region.Covers (program : Program) (thread : Thread) (x : Nat) : Region → Prop
  | .block => thread.tlsStart ≠ 0 ∧ thread.tlsStart ≤ x ∧ x < thread.self
  | .record => thread.self ≤ x ∧ x < thread.self + program.threadSize
  | .stack => thread.stackBase ≤ x ∧ x < thread.stackBase + thread.stackSize

/-- Live threads have their own numbers, memory and stack pointers, all in the frame,
and the next one takes nobody's number. -/
structure Separate (program : Program) (p : Process) : Prop where
  ids : ∀ id thread, p.live id = some thread → (p.control thread.self).threadId = id
  unused : p.live p.frame.assignedThreadId = none
  inside : ∀ id thread region x, p.live id = some thread → Region.Covers program thread x region →
    x < p.frame.extent
  apart : ∀ id other thread otherThread region otherRegion,
    p.live id = some thread → p.live other = some otherThread →
    (id, region) ≠ (other, otherRegion) →
    ∀ x, Region.Covers program thread x region → ¬ Region.Covers program otherThread x otherRegion
  rsp : ∀ id thread rsp, p.live id = some thread → (p.control thread.self).initialRsp = some rsp →
    (thread.stackBase : Int) ≤ rsp ∧ rsp < (thread.stackBase : Int) + thread.stackSize

/-- A thread that takes the memory of another one gets no larger stack. -/
def StackFits (p : Process) (event : Event) : Prop :=
  ∀ thread old, p.caller event = some thread → p.frame.inactiveThreads.getLast? = some old →
    match event.call with
    | .threadAdd stackTargetSize _ _ => max 4096 stackTargetSize ≤ old.stackSize
    | .threadFork => thread.stackSize ≤ old.stackSize
    | _ => True

/-- The creator stands no higher in its stack than the new stack is large. -/
def RspFits (p : Process) (event : Event) : Prop :=
  ∀ thread, p.caller event = some thread → match event.call with
    | .threadAdd stackTargetSize _ _ =>
      thread.stackBase + 8 ≤ event.rsp ∧ event.rsp < thread.stackBase + max 4096 stackTargetSize + 8
    | .threadFork => thread.stackBase ≤ event.rsp ∧ event.rsp < thread.stackBase + thread.stackSize
    | _ => True

/-- Memory in order, with the numbers of the live threads in their records. -/
structure Consistent (program : Program) (p : Process) : Prop where
  sane : ∃ user master starts, Sane program p.frame user master starts
  assigned : p.frame.nextAssignedThreadId ≤ p.frame.threadPtrs.length
  unused : p.frame.nextAssignedThreadId ≠ 0 → p.live p.frame.nextAssignedThreadId = none
  ids : ∀ id thread, p.live id = some thread → (p.control thread.self).threadId = id
  noBlock : p.frame.template.tlsMaster = none →
    (∀ id thread, p.live id = some thread → thread.tlsStart = 0) ∧
      ∀ thread ∈ p.frame.inactiveThreads, thread.tlsStart = 0

def RspInside (p : Process) : Prop :=
  ∀ id thread rsp, p.live id = some thread → (p.control thread.self).initialRsp = some rsp →
    (thread.stackBase : Int) ≤ rsp ∧ rsp < (thread.stackBase : Int) + thread.stackSize

variable {program : Program} {p : Process} {id : Nat} {thread : Thread}

lemma Process.live_eq_some :
    p.live id = some thread ↔ p.frame.threadPtrs[id]? = some (some thread) := by
  exact Option.join_eq_some_iff

open Process

lemma covers_user {user : Nat → User} {master : Nat} {starts : List Nat}
    (sane : Sane program p.frame user master starts) (isLive : p.live id = some thread)
    (noBlock : p.frame.template.tlsMaster = none → thread.tlsStart = 0)
    {region : Region} {x : Nat} (covers : region.Covers program thread x) :
    user x = .thread thread.self
      (match region with
        | .stack => .stack
        | _ => .block) := by
  have hp := sane.placed id thread (live_eq_some.mp isLive)
  cases region with
  | block =>
    obtain ⟨hnn, low, high⟩ := covers
    have hs := (hp.start (fun hn => hnn (noBlock hn))).1
    exact hp.block x (by omega) (by omega)
  | record =>
    obtain ⟨low, high⟩ := covers
    exact hp.block x (by omega) high
  | stack => exact hp.stack x covers.1 covers.2

variable {other : Nat}

lemma Consistent.apart (consistent : Consistent program p) {otherThread : Thread}
    {region otherRegion : Region} (isLive : p.live id = some thread)
    (isOther : p.live other = some otherThread) (distinct : (id, region) ≠ (other, otherRegion))
    {x : Nat} (covers : region.Covers program thread x) :
    ¬ otherRegion.Covers program otherThread x := by
  intro hoc
  obtain ⟨user, _, _, sane⟩ := consistent.sane
  have hu := covers_user sane isLive (fun hn => (consistent.noBlock hn).1 id thread isLive) covers
  rw [covers_user sane isOther (fun hn => (consistent.noBlock hn).1 other otherThread isOther)
    hoc, User.thread.injEq] at hu
  have hsi := sane.distinct other id otherThread thread
    (live_eq_some.mp isOther) (live_eq_some.mp isLive) hu.1
  rw [hsi, isLive] at isOther
  cases isOther
  -- only the block and the record of one thread have the same user
  cases region with
  | block =>
    cases otherRegion with
    | block => exact distinct (by rw [hsi])
    | record => exact absurd covers.2.2 (Nat.not_lt_of_le hoc.1)
    | stack => cases hu.2
  | record =>
    cases otherRegion with
    | block => exact absurd hoc.2.2 (Nat.not_lt_of_le covers.1)
    | record => exact distinct (by rw [hsi])
    | stack => cases hu.2
  | stack =>
    cases otherRegion with
    | block => cases hu.2
    | record => cases hu.2
    | stack => exact distinct (by rw [hsi])

lemma Consistent.inside (consistent : Consistent program p) (live : p.live id = some thread)
    {region : Region} {x : Nat} (covered : region.Covers program thread x) :
    x < p.frame.extent := by
  obtain ⟨user, _, _, sane⟩ := consistent.sane
  by_contra behind
  have used := covers_user sane live (fun hn => (consistent.noBlock hn).1 id thread live) covered
  rw [sane.behind x (Nat.le_of_not_lt behind)] at used
  cases used

lemma Consistent.separate_iff (consistent : Consistent program p) :
    Separate program p ↔ RspInside p := by
  refine ⟨fun hs => hs.rsp, ?_⟩
  intro hin
  refine ⟨consistent.ids, ?_, fun _ _ _ _ hl covered => consistent.inside hl covered, ?_, hin⟩
  · unfold assignedThreadId
    split
    · rename_i notZero
      exact consistent.unused notZero
    unfold live
    rw [getElem?_eq_none le_rfl]
    rfl
  intro _ _ _ _ _ _ hl ho distinct x hco
  exact consistent.apart hl ho distinct hco

lemma threadInit_thread (program : Program) (s : TlsState)
    (creator : Thread) (copyAllRegs : Bool) (stackTargetSize : Nat) :
    ∃ thread : Thread, thread.self = nextSelf s ∧ thread.stackBase = nextStackBase program s ∧
      thread.stackSize = stackTarget creator copyAllRegs stackTargetSize ∧
      thread.tlsStart = s.nextTlsStart ∧
      (s.threadInit program creator copyAllRegs stackTargetSize).threadPtrs =
        (s.setThread s.assignedThreadId (some thread)).threadPtrs ∧
      (s.threadInit program creator copyAllRegs
        stackTargetSize).inactiveThreads = s.inactiveThreads.dropLast := by
  unfold TlsState.threadInit nextSelf nextStackBase nextTlsStart
  cases hl : s.inactiveThreads.getLast? with
  | some old =>
    exact ⟨s.newThread old.tlsStart old.self old.stackBase
      (stackTarget creator copyAllRegs stackTargetSize), rfl, rfl, rfl, rfl, rfl, rfl⟩
  | none =>
    have isNil := getLast?_eq_none_iff.mp hl
    refine ⟨s.newThread s.blockStart s.blockEnd (s.stackBegin program)
      (stackTarget creator copyAllRegs stackTargetSize), rfl, rfl, rfl, rfl, ?_, ?_⟩
    · dsimp only [makeThread, setThread, newThread, reserveStack, reserveThread]
      rw [shiftExtent_threadPtrs, shiftExtent_threadPtrs, shiftExtent_template,
        shiftExtent_template]
    dsimp only [makeThread, setThread, reserveStack, reserveThread]
    rw [shiftExtent_inactiveThreads, shiftExtent_inactiveThreads, isNil]
    rfl

structure Made (program : Program) (p after : Process) (stackSize : Nat)
    (thread : Thread) : Prop where
  isLive : after.live p.frame.assignedThreadId = some thread
  isSelf : thread.self = nextSelf p.frame
  isBase : thread.stackBase = nextStackBase program p.frame
  isSize : thread.stackSize = stackSize
  others : ∀ id, id ≠ p.frame.assignedThreadId → after.live id = p.live id
  distinct : ∀ id other, id ≠ p.frame.assignedThreadId →
    p.live id = some other → other.self ≠ nextSelf p.frame

variable {creator : Thread} {copyAllRegs : Bool} {stackTargetSize self : Nat}

section

variable (consistent : Consistent program p)

include consistent

section

variable (isFound : ∀ old, p.frame.inactiveThreads.getLast? = some old →
      stackTarget creator copyAllRegs stackTargetSize ≤ old.stackSize)

include isFound

lemma Consistent.saneInit : ∃ user master starts, Sane program
    (p.frame.threadInit program creator copyAllRegs stackTargetSize) user master starts := by
  obtain ⟨user, master, starts, sane⟩ := consistent.sane
  have hin := assignedThreadId_le consistent.assigned
  cases hl : p.frame.inactiveThreads.getLast? with
  | none =>
    obtain ⟨user', hs⟩ := sane.threadInitNew hin hl
    exact ⟨user', master, starts, hs⟩
  | some old => exact ⟨user, master, starts, sane.threadInitAgain hin hl (isFound old hl)⟩

lemma Consistent.made (rsp : Nat) (startDetached : Bool) :
    ∃ thread, Made program p (p.threadInit program creator rsp copyAllRegs stackTargetSize
        startDetached) (stackTarget creator copyAllRegs stackTargetSize) thread ∧
      thread.tlsStart = p.frame.nextTlsStart := by
  obtain ⟨thread, hse, hb, hsi, hs, ht, _⟩ :=
    threadInit_thread program p.frame creator copyAllRegs stackTargetSize
  obtain ⟨_, _, _, sane⟩ := consistent.saneInit isFound
  have hin := assignedThreadId_le consistent.assigned
  have hl : ∀ id, (p.threadInit program creator rsp copyAllRegs
      stackTargetSize startDetached).live id =
      if id = p.frame.assignedThreadId then some thread else p.live id := by
    intro id
    unfold live Process.threadInit
    rw [ht, setThread_getElem? hin]
    split <;> rfl
  have hli : (p.threadInit program creator rsp copyAllRegs
      stackTargetSize startDetached).live p.frame.assignedThreadId = some thread := by
    rw [hl, if_pos rfl]
  refine ⟨thread, ⟨hli, hse, hb, hsi, ?_, ?_⟩, hs⟩
  · intro id hnn
    rw [hl, if_neg hnn]
  intro id other hnn ho hss
  have isOld : (p.threadInit program creator rsp copyAllRegs
      stackTargetSize startDetached).live id = some other := by
    rw [hl, if_neg hnn]
    exact ho
  exact hnn (sane.distinct id p.frame.assignedThreadId other thread
    (live_eq_some.mp isOld) (live_eq_some.mp hli) (by rw [hss, hse]))

/-- A new thread gets memory of its own. -/
lemma Consistent.threadInit (rsp : Nat) (startDetached : Bool) :
    Consistent program (p.threadInit program creator rsp copyAllRegs stackTargetSize
        startDetached) := by
  obtain ⟨_, made, hs⟩ := consistent.made isFound rsp startDetached
  obtain ⟨same, next, _⟩ := threadInit_threads program p.frame creator copyAllRegs stackTargetSize
  obtain ⟨_, _, _, _, _, _, hin⟩ :=
    threadInit_thread program p.frame creator copyAllRegs stackTargetSize
  have hns : p.frame.template.tlsMaster = none → p.frame.nextTlsStart = 0 := by
    intro hnm
    unfold nextTlsStart
    split
    · rename_i old hl
      exact (consistent.noBlock hnm).2 old (mem_of_getLast? hl)
    unfold blockStart
    rw [hnm]
  refine ⟨consistent.saneInit isFound, ?_, ?_, ?_, ?_⟩
  · show (p.frame.threadInit program creator copyAllRegs stackTargetSize).nextAssignedThreadId ≤ _
    rw [next]
    exact Nat.zero_le _
  · intro hnz
    exact absurd next hnz
  · intro id other ho
    by_cases isNew : id = p.frame.assignedThreadId
    · rw [isNew, made.isLive] at ho
      cases ho
      unfold Process.threadInit
      dsimp only
      rw [made.isSelf, update_self, isNew]
    rw [made.others id isNew] at ho
    unfold Process.threadInit
    dsimp only
    rw [update_of_ne (made.distinct id other isNew ho)]
    exact consistent.ids id other ho
  intro hnm
  have hnm : p.frame.template.tlsMaster = none := by
    rw [← same.template]
    exact hnm
  refine ⟨?_, ?_⟩
  · intro id other ho
    by_cases isNew : id = p.frame.assignedThreadId
    · rw [isNew, made.isLive] at ho
      cases ho
      rw [hs]
      exact hns hnm
    rw [made.others id isNew] at ho
    exact (consistent.noBlock hnm).1 id other ho
  intro other hina
  apply (consistent.noBlock hnm).2 other
  exact dropLast_subset _ (hin ▸ hina)

end

lemma Consistent.setControl {control : Control}
    (sameId : control.threadId = (p.control self).threadId) :
    Consistent program (p.setControl self control) := by
  refine { consistent with ids := ?_ }
  intro id thread hl
  have isId := consistent.ids id thread hl
  unfold Process.setControl
  dsimp only
  by_cases hs : thread.self = self
  · rw [hs, update_self, sameId, ← hs]
    exact isId
  rw [update_of_ne hs]
  exact isId

lemma Consistent.retire (isLive : p.live id = some thread) (notifyThreads : List (List Nat)) :
    Consistent program
      { p with
        frame := p.frame.retire id thread
        notifyThreads := notifyThreads } := by
  obtain ⟨user, master, starts, sane⟩ := consistent.sane
  have ht := live_eq_some.mp isLive
  have hin := (List.getElem?_eq_some_iff.mp ht).1
  have older : ∀ other found, (p.frame.threadPtrs.set id none)[other]?.join = some found →
      p.live other = some found := by
    intro other found hf
    rw [getElem?_set] at hf
    by_cases same : id = other
    · rw [if_pos same, if_pos hin] at hf
      cases hf
    rw [if_neg same] at hf
    exact hf
  refine ⟨⟨user, master, starts, sane.retire ht⟩, ?_, ?_, ?_, ?_⟩
  · show id ≤ (p.frame.threadPtrs.set id none).length
    rw [length_set]
    exact le_of_lt hin
  · intro _
    show (p.frame.threadPtrs.set id none)[id]?.join = none
    rw [getElem?_set_self hin]
    rfl
  · intro other found hf
    exact consistent.ids other found (older other found hf)
  intro hnm
  obtain ⟨hls, his⟩ := consistent.noBlock hnm
  refine ⟨?_, ?_⟩
  · intro other found hf
    exact hls other found (older other found hf)
  intro other hina
  rcases mem_append.mp hina with isOld | isNew
  · exact his other isOld
  rw [mem_singleton.mp isNew]
  exact hls id thread isLive

end

lemma RspInside.mono {after : Process} (inside : RspInside p)
    (older : ∀ id thread, after.live id = some thread → p.live id = some thread)
    (same : ∀ self, (after.control self).initialRsp = (p.control self).initialRsp) :
    RspInside after := by
  intro id thread rsp hl isRsp
  rw [same] at isRsp
  exact inside id thread rsp (older id thread hl) isRsp

lemma Process.setControl_initialRsp (p : Process) (self : Nat) (control : Control)
    (sameRsp : control.initialRsp = (p.control self).initialRsp) (other : Nat) :
    ((p.setControl self control).control other).initialRsp = (p.control other).initialRsp := by
  unfold setControl
  dsimp only
  by_cases hs : other = self
  · rw [hs, update_self, sameRsp]
  · rw [update_of_ne hs]

lemma Consistent.rspInside_start_iff (consistent : Consistent program p)
    (fits : ∀ old, p.frame.inactiveThreads.getLast? = some old →
      stackTarget creator copyAllRegs stackTargetSize ≤ old.stackSize) (inside : RspInside p)
    (rsp : Nat) (startDetached : Bool) (lowered : Nat) (state : ThreadState) :
    RspInside ((p.threadInit program creator rsp copyAllRegs stackTargetSize
        startDetached).startThread (nextSelf p.frame) lowered state) ↔
      creator.stackBase + lowered ≤ rsp ∧ rsp < creator.stackBase +
          stackTarget creator copyAllRegs stackTargetSize + lowered := by
  obtain ⟨thread, made, _⟩ := consistent.made fits rsp startDetached
  generalize isAfter : (p.threadInit program creator rsp copyAllRegs
    stackTargetSize startDetached).startThread (nextSelf p.frame) lowered state = after
  have hsl : ∀ id, after.live id = (p.threadInit program creator rsp
      copyAllRegs stackTargetSize startDetached).live id := by
    intro id
    rw [← isAfter]
    rfl
  have hnr : (after.control (nextSelf p.frame)).initialRsp =
      some ((thread.stackBase : Int) + ((rsp : Int) - creator.stackBase) - lowered) := by
    rw [← isAfter, made.isBase]
    unfold startThread Process.setControl Process.threadInit
    dsimp only
    rw [update_self, update_self]
    rfl
  have hor : ∀ self, self ≠ nextSelf p.frame →
      (after.control self).initialRsp = (p.control self).initialRsp := by
    intro self hnn
    rw [← isAfter]
    unfold startThread Process.setControl Process.threadInit
    dsimp only
    rw [update_of_ne hnn, update_of_ne hnn]
  have isNew : after.live p.frame.assignedThreadId = some thread := by
    rw [hsl]
    exact made.isLive
  have hs := made.isSize
  refine ⟨?_, ?_⟩
  · intro hai
    have hb := hai p.frame.assignedThreadId thread _ isNew (by rw [made.isSelf]; exact hnr)
    omega
  rintro ⟨_, _⟩ id other otherRsp ho isRsp
  rw [hsl] at ho
  by_cases isId : id = p.frame.assignedThreadId
  · rw [isId, made.isLive] at ho
    cases ho
    rw [made.isSelf, hnr] at isRsp
    cases isRsp
    omega
  rw [made.others id isId] at ho
  rw [hor other.self (made.distinct id other isId ho)] at isRsp
  exact inside id other otherRsp ho isRsp

lemma Consistent.threadExit (consistent : Consistent program p) (id : Nat) :
    Consistent program (p.threadExit id) := by
  unfold Process.threadExit
  cases hl : p.live id with
  | none => exact consistent
  | some thread =>
    have ended : Consistent program (p.setControl thread.self
        { p.control thread.self with state := .terminated }) := consistent.setControl rfl
    dsimp only
    split
    · exact ended.retire hl _
    · exact ended

lemma retire_live {s : TlsState} {gone : Thread}
    (live : (s.retire id gone).threadPtrs[other]?.join = some thread) :
    s.threadPtrs[other]?.join = some thread := by
  dsimp only [retire] at live
  rw [getElem?_set] at live
  split at live
  · split at live <;> cases live
  · exact live

lemma Process.threadExit_live
    (isLive : (p.threadExit id).live other = some thread) : p.live other = some thread := by
  unfold threadExit at isLive
  split at isLive
  · exact isLive
  split at isLive
  · exact retire_live isLive
  · exact isLive

lemma Process.threadExit_initialRsp (id self : Nat) :
    ((p.threadExit id).control self).initialRsp = (p.control self).initialRsp := by
  unfold threadExit
  split
  · rfl
  rename_i thread _
  have same := setControl_initialRsp p thread.self
    { p.control thread.self with state := .terminated } rfl self
  split <;> exact same

lemma Consistent.threadJoin (consistent : Consistent program p) (current : Thread) (id : Nat) :
    Consistent program (p.threadJoin current id) := by
  unfold Process.threadJoin
  cases hl : p.live id with
  | none => exact consistent
  | some _ =>
    dsimp only
    split
    · exact consistent.retire hl _
    · exact { consistent with }

lemma Process.threadJoin_live {current : Thread}
    (isLive : (p.threadJoin current id).live other = some thread) : p.live other = some thread := by
  unfold threadJoin at isLive
  split at isLive
  · exact isLive
  split at isLive
  · exact retire_live isLive
  · exact isLive

lemma Process.threadJoin_control (current : Thread) (id : Nat) :
    (p.threadJoin current id).control = p.control := by
  unfold threadJoin
  split
  · rfl
  · split <;> rfl

lemma Consistent.threadDetach (consistent : Consistent program p) (id : Nat) :
    Consistent program (p.threadDetach id) := by
  unfold Process.threadDetach
  split
  · exact consistent
  split
  · exact consistent.setControl rfl
  · exact consistent

lemma Process.threadDetach_initialRsp (id self : Nat) :
    ((p.threadDetach id).control self).initialRsp = (p.control self).initialRsp := by
  unfold threadDetach
  split
  · rfl
  split
  · rename_i thread _ _
    exact setControl_initialRsp p thread.self
      { p.control thread.self with detached := true } rfl self
  · rfl

lemma Process.threadDetach_live (id other : Nat) :
    (p.threadDetach id).live other = p.live other := by
  unfold threadDetach
  split
  · rfl
  · split <;> rfl

lemma Consistent.grow (consistent : Consistent program p) (amount : Nat) :
    Consistent program { p with frame := p.frame.shiftExtent amount } := by
  obtain ⟨user, master, starts, sane⟩ := consistent.sane
  have hsl : ∀ id, live { p with frame := p.frame.shiftExtent amount } id = p.live id := by
    intro id
    unfold live
    rw [shiftExtent_threadPtrs]
  refine ⟨⟨user, master, starts, sane.shiftExtent amount⟩, ?_, ?_, ?_, ?_⟩
  · dsimp only
    rw [shiftExtent_nextAssignedThreadId, shiftExtent_threadPtrs]
    exact consistent.assigned
  · dsimp only
    rw [shiftExtent_nextAssignedThreadId, hsl]
    exact consistent.unused
  · intro id thread isLive
    rw [hsl] at isLive
    exact consistent.ids id thread isLive
  rw [shiftExtent_template, shiftExtent_inactiveThreads]
  intro hnm
  refine ⟨?_, (consistent.noBlock hnm).2⟩
  intro id thread isLive
  rw [hsl] at isLive
  exact (consistent.noBlock hnm).1 id thread isLive

variable {event : Event}

lemma StackFits.target (fits : StackFits p event) (isCaller : p.caller event = some thread) :
    (∀ stackTargetSize startDetached mapped,
      event.call = .threadAdd stackTargetSize startDetached mapped →
      ∀ old, p.frame.inactiveThreads.getLast? = some old →
        stackTarget thread false (max 4096 stackTargetSize) ≤ old.stackSize) ∧
    (event.call = .threadFork → ∀ old, p.frame.inactiveThreads.getLast? = some old →
        stackTarget thread true 0 ≤ old.stackSize) := by
  refine ⟨?_, ?_⟩
  · intro stackTargetSize startDetached mapped isAdd old hl
    have fit := fits thread old isCaller hl
    rw [isAdd] at fit
    exact fit
  intro hf old hl
  have fit := fits thread old isCaller hl
  rw [hf] at fit
  exact fit

lemma Consistent.step (consistent : Consistent program p)
    (fits : StackFits p event) : Consistent program (p.step program event) := by
  unfold Process.step
  cases hca : p.caller event with
  | none => exact consistent
  | some thread =>
    obtain ⟨haf, hff⟩ := fits.target hca
    cases hh : event.call with
    | threadAdd stackTargetSize startDetached mapped =>
      have made := consistent.threadInit (haf stackTargetSize startDetached mapped hh) event.rsp
        startDetached
      exact made.setControl rfl
    | threadFork =>
      have made := consistent.threadInit (hff hh) event.rsp false
      exact made.setControl rfl
    | threadExit => exact consistent.threadExit _
    | threadJoin id => exact consistent.threadJoin thread id
    | threadDetach id => exact consistent.threadDetach id
    | grow amount => exact consistent.grow amount

/-- A call keeps the stack pointers inside exactly if it fits. -/
lemma Consistent.rspInside_step_iff (consistent : Consistent program p)
    (fits : StackFits p event) (inside : RspInside p) :
    RspInside (p.step program event) ↔ RspFits p event := by
  unfold Process.step RspFits
  cases hca : p.caller event with
  | none => exact ⟨fun _ thread ht => (nomatch ht), fun _ => inside⟩
  | some thread =>
    obtain ⟨haf, hff⟩ := fits.target hca
    cases hh : event.call with
    | threadAdd stackTargetSize startDetached mapped =>
      have hs := consistent.rspInside_start_iff
        (haf stackTargetSize startDetached mapped hh) inside event.rsp startDetached 8
        (if mapped then ThreadState.running else ThreadState.stopped)
      refine hs.trans ⟨?_, fun fit => fit thread rfl⟩
      intro fit other ho
      cases ho
      exact fit
    | threadFork =>
      have hs := consistent.rspInside_start_iff (hff hh) inside event.rsp false 0 .running
      refine hs.trans ⟨?_, fun fit => fit thread rfl⟩
      intro fit other ho
      cases ho
      exact fit
    | threadExit =>
      refine ⟨fun _ _ _ => trivial, fun _ => ?_⟩
      exact inside.mono (fun _ _ => threadExit_live) (threadExit_initialRsp _)
    | threadJoin id =>
      refine ⟨fun _ _ _ => trivial, fun _ => ?_⟩
      apply inside.mono (fun _ _ => threadJoin_live)
      intro _
      rw [threadJoin_control]
    | threadDetach id =>
      refine ⟨fun _ _ _ => trivial, fun _ => ?_⟩
      refine inside.mono ?_ (threadDetach_initialRsp id)
      intro other found isLive
      rw [threadDetach_live] at isLive
      exact isLive
    | grow _ =>
      refine ⟨fun _ _ _ => trivial, fun _ => ?_⟩
      refine inside.mono ?_ (fun _ => rfl)
      intro other found isLive
      unfold live at isLive
      rw [shiftExtent_threadPtrs] at isLive
      exact isLive

lemma tlsAssemble_inactiveThreads (program : Program) (s : TlsState) :
    (s.tlsAssemble program).inactiveThreads = s.inactiveThreads := by
  unfold tlsAssemble
  split
  · rfl
  · exact shiftExtent_inactiveThreads _

section

variable (program) (memory : Memory) (index : Nat → Nat) (attached : List (Nat × Bool))

lemma live_start (id : Nat) :
    (start program memory index attached).live id = if id = 0 then some
          (((loaded program memory index attached).tlsAssemble program).newThread
            ((loaded program memory index attached).tlsAssemble program).blockStart
            ((loaded program memory index attached).tlsAssemble
              program).blockEnd program.allocatedStack program.stackAllocatedSize) else none := by
  obtain ⟨_, _, ready⟩ := (unassembled_loaded program memory index attached).tlsAssemble
  have ht := initThread0_threadPtrs program ready.noThreads
  unfold live start tlinit
  rw [ht]
  cases id <;> rfl

lemma consistent_start : Consistent program (start program memory index attached) := by
  have hf := Tls.Consistent.tlinit program memory index attached
  have hl := live_start program memory index attached
  refine ⟨hf.sane, hf.assigned, ?_, ?_, ?_⟩
  · intro _
    rw [hl]
    exact if_neg Nat.one_ne_zero
  · intro id thread found
    rw [hl] at found
    split at found
    · rename_i isZero
      exact isZero.symm
    · cases found
  intro hnm
  refine ⟨?_, ?_⟩
  · intro id thread found
    rw [hl] at found
    split at found
    · cases found
      have hnt : ((loaded program memory index
          attached).tlsAssemble program).template.tlsMaster = none := by
        rw [← shiftExtent_template]
        exact hnm
      unfold newThread blockStart
      rw [hnt]
    · cases found
  intro thread hin
  have isNil : (start program memory index attached).frame.inactiveThreads = [] := by
    have hu := unassembled_loaded program memory index attached
    rw [← hu.noInactive, ← tlsAssemble_inactiveThreads program
      (loaded program memory index attached)]
    exact shiftExtent_inactiveThreads _
  rw [isNil] at hin
  cases hin

lemma rspInside_start : RspInside (start program memory index attached) := by
  intro _ _ _ _ isRsp
  cases isRsp

end

lemma Process.run_concat (made : List Event) (event : Event) :
    p.run program (made ++ [event]) = (p.run program made).step program event := by
  unfold run
  rw [foldl_append]
  rfl

lemma Consistent.run (consistent : Consistent program p) {events : List Event}
    (fits : ∀ made event, made ++ [event] <+: events → StackFits (p.run program made) event) :
    Consistent program (p.run program events) := by
  induction events using reverseRecOn with
  | nil => exact consistent
  | append_singleton made event ih =>
    rw [run_concat]
    apply Consistent.step
    · apply ih
      intro earlier next hp
      exact fits earlier next (hp.trans (prefix_append made [event]))
    · exact fits made event (prefix_refl _)

/-- Threads are separate just if every thread is made by one that stands no higher
in its stack than the new stack is large. -/
theorem separate_iff_rspFits (program : Program) (memory : Memory) (index : Nat → Nat)
    (attached : List (Nat × Bool)) (events : List Event)
    (stackFits : ∀ made event, made ++ [event] <+: events →
      StackFits ((start program memory index attached).run program made) event) :
    (∀ made, made <+: events → Separate program
          ((start program memory index attached).run program made)) ↔
      ∀ made event, made ++ [event] <+: events →
        RspFits ((start program memory index attached).run program made) event := by
  have hf := consistent_start program memory index attached
  have hfi := rspInside_start program memory index attached
  generalize start program memory index attached = first at *
  have hc : ∀ made, made <+: events → Consistent program (first.run program made) := by
    intro made hp
    apply hf.run
    intro earlier event he
    exact stackFits earlier event (he.trans hp)
  refine Iff.trans (forall₂_congr fun made hp => (hc made hp).separate_iff) ?_
  refine (OoOS.Lib.forall_prefix_iff fun made event hp hin => ?_).trans (and_iff_right hfi)
  have hb := (prefix_append made [event]).trans hp
  rw [run_concat]
  exact (hc made hb).rspInside_step_iff (stackFits made event hp) hin

def plainProgram : Program where
  modules := fun _ => ⟨[], 2, 1, rfl⟩
  localSoMap := []
  program := none
  threadSize := 448
  threadPositive := by decide
  threadRecord := fun _ _ => 0
  firstPage := 5
  allocatedStack := 4096
  stackAllocatedSize := 16384
  stackBelow := by decide

def plainStart : Process := start plainProgram (fun _ => 0) (fun _ => 0) []

theorem separate_iff_rspFits_oneThread : Separate plainProgram (plainStart.run plainProgram
    [⟨0, 12288, .threadAdd 16384 false true⟩]) := by
  refine (separate_iff_rspFits plainProgram (fun _ => 0) (fun _ => 0) []
    [⟨0, 12288, .threadAdd 16384 false true⟩] ?_).mpr ?_ _ (prefix_refl _)
  · intro made event starts
    obtain ⟨rfl, rfl⟩ := concat_prefix_singleton starts
    intro thread _ _ exits
    cases exits
  intro made event starts
  obtain ⟨rfl, rfl⟩ := concat_prefix_singleton starts
  intro thread current
  cases current
  decide

def smallStack : Process := plainStart.run plainProgram [⟨0, 20000, .threadAdd 4096 false true⟩]

/-- A thread with four pages of stack takes the memory of one that had one page. -/
def largerStack : Process :=
  plainStart.run plainProgram
    [⟨0, 8000, .threadAdd 4096 true true⟩, ⟨0, 8000, .threadAdd 4096 true true⟩,
      ⟨1, 30000, .threadExit⟩,
      ⟨0, 8000, .threadAdd 16384 true true⟩]

lemma smallStack_live : smallStack.live 1 = some ⟨24576, 0, 28672, 4096, []⟩ ∧
    (smallStack.control 24576).initialRsp = some 44568 := by
  exact ⟨rfl, by decide +kernel⟩

lemma largerStack_live : largerStack.live 1 = some ⟨24576, 0, 28672, 16384, []⟩ ∧
    largerStack.live 2 = some ⟨32768, 0, 36864, 4096, []⟩ := by
  exact ⟨rfl, rfl⟩

/-- The stack pointer of the one lies beyond its stack, the stack of the other
contains the record of a live thread. -/
theorem not_separate_smallStack_largerStack :
    ¬ Separate plainProgram smallStack ∧ ¬ Separate plainProgram largerStack := by
  refine ⟨?_, ?_⟩
  · intro hs
    have hin := hs.rsp 1 _ 44568 smallStack_live.1 smallStack_live.2
    exact absurd hin.2 (by decide)
  intro hs
  exact hs.apart 1 2 _ _ .stack .record largerStack_live.1
    largerStack_live.2 (by decide) 32768 ⟨by decide, by decide⟩ ⟨by decide, by decide⟩

end OoOS.Sched.Threads
