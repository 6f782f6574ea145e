import OoOS.Lib.Layout

/-!
# Thread-local storage

The images of the modules are copied into a template; every thread gets a copy of
it, with its record behind it.  Modules that are attached later get their blocks
on first use.  Addresses are numbers without a bound.
-/

namespace OoOS.Sched.Tls

open Lib Lib.Layout

structure TlsModule where
  image : List UInt8
  align : Nat
  power : ∃ exponent, align = 2 ^ exponent

structure Program where
  modules : Nat → TlsModule
  localSoMap : List Nat
  program : Option Nat
  /-- The size of a thread record, and the bytes that one at a given address is
  created with. -/
  threadSize : Nat
  threadPositive : 0 < threadSize
  threadRecord : Nat → Nat → UInt8
  firstPage : Nat
  allocatedStack : Nat
  stackAllocatedSize : Nat
  stackBelow : allocatedStack + stackAllocatedSize ≤ 4096 * firstPage

structure Thread where
  self : Nat
  tlsStart : Nat
  stackBase : Nat
  stackSize : Nat
  dtv : List (Option Nat)

/-- The template and the offsets of its blocks from its end; `assembled` are the
modules of the blocks, the topmost first. -/
structure Template where
  tlsMaster : Option Nat
  tlsSize : Nat
  tlsAlign : Nat
  baseOffsets : List Nat
  assembled : List Nat

structure TlsState where
  extent : Nat
  memory : Memory
  template : Template
  attachedSoHandles : List Nat
  tlsModules : List Nat
  moduleTlsIndex : Nat → Nat
  threadPtrs : List (Option Thread)
  inactiveThreads : List Thread
  nextAssignedThreadId : Nat

variable (program : Program)

namespace Program

def image (handle : Nat) : List UInt8 := (program.modules handle).image

def moduleTlsSize (handle : Nat) : Nat := (program.image handle).length

def moduleTlsAlign (handle : Nat) : Nat := (program.modules handle).align

lemma moduleTlsAlign_pos (handle : Nat) : 0 < program.moduleTlsAlign handle := by
  obtain ⟨exponent, power⟩ := (program.modules handle).power
  unfold moduleTlsAlign
  rw [power]
  exact Nat.two_pow_pos exponent

def programWithTls : List Nat :=
  program.program.toList.filter (fun handle => program.image handle ≠ [])

end Program

namespace TlsState

variable (s : TlsState)

def alignedSize (start requested : Nat) : Nat := alignUp 4096 (start + requested) - trunc 4096 start

/-- Only an eighth of the new memory is zeroed: `array_zero` of 64-bit integers is a
`memset` of one byte for each. -/
def shiftExtent (amount : Nat) : TlsState :=
  if amount = 0 then s
  else
    { s with
      extent := s.extent + alignedSize s.extent amount
      memory := store s.memory s.extent
        (List.replicate (alignedSize s.extent amount / 8) 0) }

def modulesWithTls : List Nat := program.localSoMap ++ s.attachedSoHandles ++ program.programWithTls

/-- A module that is attached is numbered by the length of `tlsModules`, unless
it is part of the start. -/
def attachObject (handle : Nat) (isInit : Bool) : TlsState :=
  if program.image handle ≠ [] ∧ isInit = false then
    { s with
      attachedSoHandles := s.attachedSoHandles ++ [handle]
      moduleTlsIndex := Function.update s.moduleTlsIndex handle s.tlsModules.length
      tlsModules := s.tlsModules ++ [handle] }
  else { s with attachedSoHandles := s.attachedSoHandles ++ [handle] }

def numbered : Nat → List Nat → (Nat → Nat) → Nat → Nat
  | _, [], index => index
  | midx, handle :: rest, index => numbered (midx + 1) rest (Function.update index handle midx)

def endVirtual (blocks : List Nat) : Nat :=
  alignUp 16
    (blocks.foldl (fun cursor handle =>
      alignUp (program.moduleTlsAlign handle) cursor + program.moduleTlsSize handle) s.extent)

def subBlockStarts (blocks : List Nat) : List Nat :=
  place program.moduleTlsSize program.moduleTlsAlign
    (s.endVirtual program blocks) blocks.reverse

def assembleBlocks (front : Nat) (blocks : List Nat) : Template :=
  let tlsAlign := program.moduleTlsAlign front
  let tlsMaster := alignUp tlsAlign s.extent
  { tlsMaster := some tlsMaster
    tlsSize := s.endVirtual program blocks - tlsMaster
    tlsAlign := tlsAlign
    baseOffsets := 0 :: (s.subBlockStarts program blocks).map
      (fun start => s.endVirtual program blocks - start)
    assembled := blocks.reverse }

/-- Build the template; the last module gets the number 1. -/
def tlsAssemble : TlsState :=
  match s.modulesWithTls program with
  | [] => s
  | front :: rest =>
    let blocks := front :: rest
    let grown := s.shiftExtent (s.endVirtual program blocks - s.extent)
    { grown with
      memory := storeAll program.image grown.memory blocks.reverse
        (s.subBlockStarts program blocks)
      template := s.assembleBlocks program front blocks
      tlsModules := s.tlsModules ++ blocks.reverse
      moduleTlsIndex := numbered 1 blocks.reverse s.moduleTlsIndex }

def instantiate (baseOffsets : List Nat) (self : Nat) : List (Option Nat) :=
  match baseOffsets with
  | [] => []
  | _ :: offsets => none :: offsets.map (fun offset => some (self - offset))

def blockStart : Nat :=
  match s.template.tlsMaster with
  | some _ => alignUp s.template.tlsAlign s.extent
  | none => 0

def blockEnd : Nat :=
  alignUp 16
    (match s.template.tlsMaster with
      | some _ => s.blockStart + s.template.tlsSize
      | none => s.extent)

def copyTemplate (target : Nat) : Memory :=
  match s.template.tlsMaster with
  | some tlsMaster => copy s.memory target tlsMaster s.template.tlsSize
  | none => s.memory

def writeRecord (memory : Memory) (self : Nat) : Memory :=
  store memory self
    ((List.range program.threadSize).map (program.threadRecord self))

def copyStack (memory : Memory) (target : Nat) (source : Option Thread) : Memory :=
  match source with
  | some thread => copy memory target thread.stackBase thread.stackSize
  | none => memory

def setThread (id : Nat) (thread : Option Thread) : TlsState :=
  { s with
    threadPtrs :=
      if id < s.threadPtrs.length then s.threadPtrs.set id thread
      else s.threadPtrs ++ [thread] }

def newThread (blockStart blockEnd stackBase stackSize : Nat) : Thread where
  self := blockEnd
  tlsStart := blockStart
  stackBase := stackBase
  stackSize := stackSize
  dtv := instantiate s.template.baseOffsets blockEnd

def makeThread (id blockStart blockEnd stackBase stackSize : Nat)
    (source : Option Thread) : TlsState :=
  { s with
    memory :=
      copyStack
        (writeRecord program (s.copyTemplate blockStart) blockEnd) stackBase
        source }.setThread id
    (some (s.newThread blockStart blockEnd stackBase stackSize))

def reserveThread : TlsState := s.shiftExtent (s.blockEnd + program.threadSize - s.extent)

def initThread0 : TlsState :=
  { (s.reserveThread program).makeThread program 0 s.blockStart s.blockEnd
      program.allocatedStack program.stackAllocatedSize none with
    nextAssignedThreadId := 1 }

def stackBegin : Nat := alignUp 4096 (s.reserveThread program).extent

def reserveStack (stackSize : Nat) : TlsState :=
  (s.reserveThread program).shiftExtent
    (s.stackBegin program + stackSize - (s.reserveThread program).extent)

def assignedThreadId : Nat :=
  if s.nextAssignedThreadId ≠ 0 then s.nextAssignedThreadId
  else s.threadPtrs.length

def stackTarget (templateThread : Thread) (copyAllRegs : Bool) (stackTargetSize : Nat) : Nat :=
  if copyAllRegs then templateThread.stackSize else stackTargetSize

/-- A new thread takes the memory of the thread that was retired last, or new
memory. -/
def threadInit (templateThread : Thread) (copyAllRegs : Bool) (stackTargetSize : Nat) : TlsState :=
  let stackSize := stackTarget templateThread copyAllRegs stackTargetSize
  let source := if copyAllRegs then some templateThread else none
  match s.inactiveThreads.getLast? with
  | none =>
    { (s.reserveStack program stackSize).makeThread program
        s.assignedThreadId s.blockStart s.blockEnd (s.stackBegin program)
        stackSize source with
      nextAssignedThreadId := 0 }
  | some old =>
    { s.makeThread program s.assignedThreadId old.tlsStart old.self
        old.stackBase stackSize source with
      inactiveThreads := s.inactiveThreads.dropLast
      nextAssignedThreadId := 0 }

def retire (id : Nat) (thread : Thread) : TlsState :=
  { s with
    threadPtrs := s.threadPtrs.set id none
    inactiveThreads := s.inactiveThreads ++ [thread]
    nextAssignedThreadId := id }

def extendedDtv (thread : Thread) (modIdx : Nat) : List (Option Nat) :=
  thread.dtv ++ List.replicate (modIdx + 1 - thread.dtv.length) none

/-- The block that a thread gets for a module that was attached late. -/
def lateTarget (handle : Nat) : Nat := alignUp (program.moduleTlsAlign handle) s.extent

def lateMemory (handle : Nat) : TlsState :=
  let grown := s.shiftExtent
    (s.lateTarget program handle + program.moduleTlsSize handle - s.extent)
  { grown with
    memory := store grown.memory (s.lateTarget program handle)
      (program.image handle) }

/-- The address of a byte of a module's block for a thread; `none` is an
exception or a read behind `tlsModules`. -/
def tlsGet (id modIdx offs : Nat) : Option (Nat × TlsState) :=
  if modIdx ≤ s.tlsModules.length ∧ modIdx ≠ 0 then
    match s.threadPtrs[id]?.join with
    | none => none
    | some thread =>
      let dtv := extendedDtv thread modIdx
      match dtv[modIdx]?.join with
      | some base => some (base + offs, s.setThread id (some { thread with dtv := dtv }))
      | none =>
        match s.tlsModules[modIdx]? with
        | none => none
        | some handle =>
          some (s.lateTarget program handle + offs, (s.lateMemory program handle).setThread id
              (some { thread with
                dtv := dtv.set modIdx
                  (some (s.lateTarget program handle)) }))
  else none

/-- The task before its thread-local storage is assembled: memory and numbers
are as they were found, and some objects are attached. -/
def loaded (memory : Memory) (index : Nat → Nat) (attached : List (Nat × Bool)) : TlsState :=
  attached.foldl (fun s object => s.attachObject program object.1 object.2)
    { extent := 4096 * program.firstPage
      memory := memory
      template :=
        { tlsMaster := none
          tlsSize := 0
          tlsAlign := 0
          baseOffsets := []
          assembled := [] }
      attachedSoHandles := []
      tlsModules := []
      moduleTlsIndex := index
      threadPtrs := []
      inactiveThreads := []
      nextAssignedThreadId := 0 }

def tlinit : TlsState := (s.tlsAssemble program).initThread0 program

/-- What happens in a task, and what another task does to a shared object. -/
inductive Operation
  | attachObject (handle : Nat) (isInit : Bool)
  | renumber (handle number : Nat)
  | threadInit (caller : Nat) (copyAllRegs : Bool) (stackTargetSize : Nat)
  | retire (id : Nat)
  | grow (amount : Nat)
  | tlsGet (id modIdx offs : Nat)

def othersLive (id : Nat) : Bool := (s.threadPtrs.set id none).any Option.isSome

def step (s : TlsState) : Operation → TlsState
  | .attachObject handle isInit => s.attachObject program handle isInit
  | .renumber handle number =>
    if handle ∈ program.localSoMap ∨ program.program = some handle then s
    else
      { s with
        moduleTlsIndex := Function.update s.moduleTlsIndex handle number }
  | .threadInit caller copyAllRegs stackTargetSize =>
    match s.threadPtrs[caller]?.join with
    | none => s
    | some thread => s.threadInit program thread copyAllRegs stackTargetSize
  | .retire id =>
    match s.threadPtrs[id]?.join with
    | none => s
    | some thread => if s.othersLive id then s.retire id thread else s
  | .grow amount => s.shiftExtent amount
  | .tlsGet id modIdx offs =>
    match s.tlsGet program id modIdx offs with
    | none => s
    | some (_, after) => after

def run (s : TlsState) (operations : List Operation) : TlsState := operations.foldl (step program) s

end TlsState

end OoOS.Sched.Tls
