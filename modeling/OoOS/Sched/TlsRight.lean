import OoOS.Lib.Prefixes
import OoOS.Sched.TlsRun

/-!
# The thread-local storage of the right module

Numbers below `baseOffsets.length` stand for the blocks of the template, counted
from 1; higher ones are positions in `tlsModules`, counted from 0.  Addresses are
numbers without a bound; all of them are below the end of the frame, so none wraps while
that end is an address.
-/

namespace OoOS.Sched.Tls

open List Lib Lib.Layout TlsState Function

variable (program : Program)

def TlsState.blockModule (s : TlsState) (number : Nat) : Option Nat :=
  if number = 0 then none
  else if number < s.template.baseOffsets.length then
    s.template.assembled[number - 1]?
  else s.tlsModules[number]?

/-- A block of a thread is that of a module: it is inside the frame, it has the
module's alignment and bytes, and no other block of a live thread overlaps it. -/
structure OwnBlock (s : TlsState) (id number base handle : Nat) : Prop where
  own : s.blockModule number = some handle
  inside : ∀ x, base ≤ x → x < base + program.moduleTlsSize handle → x < s.extent
  aligned : program.moduleTlsAlign handle ∣ base
  holds : Holds s.memory base (program.image handle)
  apart : ∀ (otherId : Nat) (thread : Thread) (other otherBase otherHandle : Nat),
    s.threadPtrs[otherId]? = some (some thread) →
    thread.dtv[other]? = some (some otherBase) →
    s.blockModule other = some otherHandle →
    (otherId, other) ≠ (id, number) →
    ∀ x, base ≤ x → x < base + program.moduleTlsSize handle →
      ¬ (otherBase ≤ x ∧ x < otherBase + program.moduleTlsSize otherHandle)

/-- Every live thread that asks for a byte of a module gets an address in its
own block of that module. -/
def Right (s : TlsState) : Prop :=
  ∀ (id : Nat) (thread : Thread), s.threadPtrs[id]? = some (some thread) →
    ∀ handle ∈ s.modulesWithTls program, program.image handle ≠ [] → ∃ base after,
        (∀ offs < program.moduleTlsSize handle, s.tlsGet program id (s.moduleTlsIndex handle) offs =
            some (base + offs, after)) ∧
        OwnBlock program after id (s.moduleTlsIndex handle) base handle

def TlsState.distance (s : TlsState) (tlsStart : Nat) : Nat :=
  tlsStart - s.template.tlsMaster.getD 0

/-- A number of the template stands for a module whose alignment fits the
blocks of all threads. -/
def FitsTemplate (s : TlsState) (number handle : Nat) : Prop :=
  s.template.assembled[number - 1]? = some handle ∧
    ∀ (id : Nat) (thread : Thread), s.threadPtrs[id]? = some (some thread) →
      program.moduleTlsAlign handle ∣ s.distance thread.tlsStart

structure Numbers (s : TlsState) (number handle : Nat) : Prop where
  notZero : number ≠ 0
  template : number < s.template.baseOffsets.length → FitsTemplate program s number handle
  late : s.template.baseOffsets.length ≤ number → s.tlsModules[number]? = some handle

/-- The numbers of attached objects are right, and the block of a new thread is at
a distance that the alignments divide. -/
def Fits (s : TlsState) : TlsState.Operation → Prop
  | .attachObject handle isInit =>
    program.image handle ≠ [] → if isInit then Numbers program s (s.moduleTlsIndex handle) handle
      else s.tlsModules.length ≠ 0 ∧ (s.tlsModules.length < s.template.baseOffsets.length →
          FitsTemplate program s s.tlsModules.length handle)
  | .renumber handle number =>
    handle ∉ program.localSoMap → program.program ≠ some handle →
      handle ∈ s.modulesWithTls program → program.image handle ≠ [] →
      Numbers program s number handle
  | .threadInit caller _ _ =>
    (∃ thread, s.threadPtrs[caller]? = some (some thread)) →
      ∀ handle ∈ s.modulesWithTls program, program.image handle ≠ [] →
        s.moduleTlsIndex handle < s.template.baseOffsets.length →
        program.moduleTlsAlign handle ∣ s.distance s.nextTlsStart
  | _ => True

def AllNumbers (s : TlsState) : Prop :=
  ∀ handle ∈ s.modulesWithTls program, program.image handle ≠ [] →
    Numbers program s (s.moduleTlsIndex handle) handle

variable {program} {s : TlsState} {user : Nat → User} {master : Nat} {starts : List Nat}

namespace Sane

variable {id number base handle : Nat} {thread : Thread} (sane : Sane program s user master starts)

include sane

variable (isThread : s.Live id thread)

include isThread

section

variable (isBelow : thread.dtv[number]? = some (some base))

include isBelow

end

end Sane

variable {t : TlsState} {number handle : Nat}

lemma Numbers.congr (numbers : Numbers program s number handle)
    (sameTemplate : t.template = s.template)
    (moreModules : s.tlsModules[number]? = some handle → t.tlsModules[number]? = some handle)
    (fewerThreads : number < s.template.baseOffsets.length → ∀ (id : Nat) (thread : Thread),
      t.Live id thread →
      program.moduleTlsAlign handle ∣ s.distance thread.tlsStart) :
    Numbers program t number handle where
  notZero := numbers.notZero
  template := by
    intro below
    rw [sameTemplate] at below
    refine ⟨?_, ?_⟩
    · rw [sameTemplate]
      exact (numbers.template below).1
    intro id thread ht
    unfold distance
    rw [sameTemplate]
    exact fewerThreads below id thread ht
  late := by
    intro hl
    rw [sameTemplate] at hl
    exact moreModules (numbers.late hl)

variable {thread : Thread} {id : Nat}

lemma threads_of_set (inside : id ≤ s.threadPtrs.length) {new : Thread}
    (isSet : t.threadPtrs = (s.setThread id (some new)).threadPtrs) {other : Nat}
    (isThread : t.Live other thread) : (other = id ∧ thread = new) ∨ s.Live other thread := by
  rw [Live, isSet, setThread_getElem? inside] at isThread
  by_cases same : other = id
  · rw [if_pos same] at isThread
    cases isThread
    exact .inl ⟨same, rfl⟩
  rw [if_neg same] at isThread
  exact .inr isThread

lemma Numbers.tlsGet (numbers : Numbers program s number handle)
    {modIdx offs address : Nat} {after : TlsState}
    (isSome : s.tlsGet program id modIdx offs = some (address, after)) :
    Numbers program after number handle := by
  obtain ⟨same, _, thread, _, ht, hss, hth, _⟩ := tlsGet_threads isSome
  have hin := le_of_lt (List.getElem?_eq_some_iff.mp ht).1
  apply numbers.congr same.template
  · rw [same.tlsModules]
    exact fun found => found
  intro below other otherThread ho
  have hd := (numbers.template below).2
  rcases threads_of_set hin hth ho with ⟨_, isNew⟩ | isOld
  · rw [isNew, hss]
    exact hd id thread ht
  · exact hd other otherThread isOld

lemma SameModules.initThread0 (program : Program) (s : TlsState) :
    SameModules s (s.initThread0 program) :=
  ⟨shiftExtent_template _, shiftExtent_attachedSoHandles _,
    shiftExtent_tlsModules _, shiftExtent_moduleTlsIndex _⟩

section

variable (all : AllNumbers program s)

include all

lemma AllNumbers.congr (same : SameModules s t) (threads : ∀ handle ∈ s.modulesWithTls program,
    program.image handle ≠ [] → s.moduleTlsIndex handle < s.template.baseOffsets.length →
    ∀ (id : Nat) (thread : Thread), t.Live id thread →
    program.moduleTlsAlign handle ∣ s.distance thread.tlsStart) : AllNumbers program t := by
  intro handle isModule hne
  rw [same.modulesWithTls] at isModule
  rw [same.moduleTlsIndex]
  apply (all handle isModule hne).congr same.template
  · rw [same.tlsModules]
    exact fun found => found
  · exact threads handle isModule hne

end

lemma TlsState.run_concat (made : List Operation) (operation : Operation) :
    s.run program (made ++ [operation]) = (s.run program made).step program operation := by
  unfold run
  rw [foldl_append]
  rfl

lemma Consistent.run (consistent : Consistent program s) {operations : List TlsState.Operation}
    (stacksFit : ∀ made operation, made ++ [operation] <+: operations →
      StackFits (s.run program made) operation) :
    Consistent program (s.run program operations) := by
  induction operations using reverseRecOn with
  | nil => exact consistent
  | append_singleton made operation ih =>
    rw [run_concat]
    apply Consistent.step
    · apply ih
      intro earlier next hp
      exact stacksFit earlier next (hp.trans (prefix_append made [operation]))
    · exact stacksFit made operation (prefix_refl _)

/-- A shared object with eight bytes and a program whose sixteen bytes are to
lie at a multiple of 8192. -/
def farPrograms : Program where
  modules := fun handle =>
    if handle = 0 then ⟨List.replicate 8 1, 1, 0, rfl⟩
    else ⟨List.replicate 16 2, 8192, 13, rfl⟩
  localSoMap := [0]
  program := some 1
  threadSize := 512
  threadPositive := by decide
  threadRecord := fun _ _ => 0
  firstPage := 2
  allocatedStack := 0
  stackAllocatedSize := 4096
  stackBelow := by decide

/-- The blocks of the template lie above one another, each at a multiple of its
alignment, and the offsets are those of the modules in the order of their numbers. -/
theorem tlsAssemble_layout {program : Program} {s : TlsState}
    (nonempty : s.modulesWithTls program ≠ []) :
    let after := s.tlsAssemble program
    let blocks := (s.modulesWithTls program).reverse
    let starts := s.subBlockStarts program (s.modulesWithTls program)
    let top := s.endVirtual program (s.modulesWithTls program)
    after.tlsModules = s.tlsModules ++ blocks ∧ starts.length = blocks.length ∧
      after.template.baseOffsets = 0 :: starts.map (top - ·) ∧
      top ≤ after.extent ∧
      ∃ master, after.template.tlsMaster = some master ∧ ∀ (i : Nat) handle start,
        blocks[i]? = some handle → starts[i]? = some start →
        program.moduleTlsAlign handle ∣ start ∧ master ≤ start ∧
        start + program.moduleTlsSize handle ≤ top ∧ ∀ (j : Nat) other below, i < j →
          blocks[j]? = some other → starts[j]? = some below →
          below + program.moduleTlsSize other ≤ start := by
  obtain ⟨front, rest, hb⟩ := exists_cons_of_ne_nil nonempty
  have hs := stacked_subBlockStarts program s front rest
  rw [tlsAssemble, hb]
  have grown := le_shiftExtent s (s.endVirtual program (front :: rest) - s.extent)
  refine ⟨rfl, hs.length, rfl, by dsimp only; omega, _, rfl, ?_⟩
  intro i handle start hh hst
  obtain ⟨hd, hm, ht⟩ := hs.block hh hst
  exact ⟨hd, hm, ht, fun j other below hij ho hos => hs.apart hij hst ho hos⟩

theorem tlsAssemble_layout_far :
    ((loaded farPrograms (fun _ => 0) (fun _ => 0) []).tlsAssemble
      farPrograms).template.baseOffsets = [0, 16, 24] :=
  (tlsAssemble_layout (by decide)).2.2.1.trans (by decide)

end OoOS.Sched.Tls
