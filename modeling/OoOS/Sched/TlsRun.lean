import Mathlib.Data.List.Nodup
import OoOS.Sched.TlsPlaced

/-!
# Runs of thread-local storage

Everything that happens in a task keeps its memory in order, as long as a thread
that takes the memory of a retired one does not get a larger stack.
-/

namespace OoOS.Sched.Tls

open List Option Lib Lib.Layout TlsState Nat

variable {program : Program} {s : TlsState} {user : Nat → User} {master : Nat} {starts : List Nat}

namespace TlsState

variable (amount : Nat)

@[simp]
lemma shiftExtent_template : (s.shiftExtent amount).template = s.template := by
  rw [shiftExtent_eq]

@[simp]
lemma shiftExtent_threadPtrs : (s.shiftExtent amount).threadPtrs = s.threadPtrs := by
  rw [shiftExtent_eq]

@[simp]
lemma shiftExtent_inactiveThreads :
    (s.shiftExtent amount).inactiveThreads = s.inactiveThreads := by
  rw [shiftExtent_eq]

@[simp]
lemma shiftExtent_tlsModules : (s.shiftExtent amount).tlsModules = s.tlsModules := by
  rw [shiftExtent_eq]

@[simp]
lemma shiftExtent_moduleTlsIndex : (s.shiftExtent amount).moduleTlsIndex = s.moduleTlsIndex := by
  rw [shiftExtent_eq]

@[simp]
lemma shiftExtent_attachedSoHandles :
    (s.shiftExtent amount).attachedSoHandles = s.attachedSoHandles := by
  rw [shiftExtent_eq]

@[simp]
lemma shiftExtent_nextAssignedThreadId :
    (s.shiftExtent amount).nextAssignedThreadId = s.nextAssignedThreadId := by
  rw [shiftExtent_eq]

end TlsState

section

variable (sane : Sane program s user master starts)

include sane

lemma Sane.withModules (handles : List Nat) {modules : List Nat}
    (isPrefix : s.tlsModules <+: modules) (index : Nat → Nat) (next : Nat) :
    Sane program
      { s with
        attachedSoHandles := handles
        tlsModules := modules
        moduleTlsIndex := index
        nextAssignedThreadId := next } user master starts := by
  refine sane.congr rfl rfl rfl sane.page le_rfl ?_ sane.behind
    (fun _ _ => rfl) (fun _ _ => rfl)
  intro _ _ found
  obtain ⟨_, ha⟩ := isPrefix
  rw [← ha, getElem?_append_left (List.getElem?_eq_some_iff.mp found).1]
  exact found

lemma Sane.withNext (next : Nat) :
    Sane program { s with nextAssignedThreadId := next } user master starts :=
  sane.withModules s.attachedSoHandles (prefix_refl _) s.moduleTlsIndex
    next

lemma Sane.newBlock : s.blockEnd + program.threadSize ≤ (s.reserveThread program).extent ∧
    ∀ x, s.blockEnd ≤ x + s.template.tlsSize → user x = .none := by
  have above := (sane.shaped.newBlock sane.page sane.below).1
  refine ⟨?_, ?_⟩
  · have grows := le_shiftExtent s (s.blockEnd + program.threadSize - s.extent)
    unfold reserveThread
    omega
  intro x _
  exact sane.behind x (by omega)

end

lemma Sane.initThread0 (sane : Sane program s user master starts)
    (below : program.allocatedStack + program.stackAllocatedSize ≤ s.extent)
    (unused : ∀ x, program.allocatedStack ≤ x →
      x < program.allocatedStack + program.stackAllocatedSize → user x = .none) :
    ∃ user', Sane program (s.initThread0 program) user' master starts := by
  obtain ⟨above, hs⟩ := sane.shaped.newBlock sane.page sane.below
  obtain ⟨hin, hbu⟩ := sane.newBlock
  have grows := le_shiftExtent s (s.blockEnd + program.threadSize - s.extent)
  have hr : Sane program (s.reserveThread program) user master starts := sane.shiftExtent _
  have hst : (s.reserveThread program).template = s.template := shiftExtent_template _
  have made : ∃ user', Sane program
      ((s.reserveThread program).makeThread program 0 s.blockStart s.blockEnd
        program.allocatedStack program.stackAllocatedSize none) user' master
      starts := by
    apply hr.makeNewThread
    · rw [hst]
      exact hs
    · exact hin
    · rw [hst]
      intro x low _
      exact hbu x low
    · unfold reserveThread
      omega
    · rw [hst]
      intro x low high
      exact ⟨unused x low high, .inl (by omega)⟩
    · intro _ ho
      cases ho
    · exact zero_le _
  obtain ⟨user', hsa⟩ := made
  exact ⟨user', hsa.withNext 1⟩

variable {templateThread : Thread} {copyAllRegs : Bool} {stackTargetSize : Nat}

lemma TlsState.source_smaller (other : Thread)
    (isSource : (if copyAllRegs then some templateThread else none) = some other) :
    other.stackSize ≤ stackTarget templateThread copyAllRegs stackTargetSize := by
  cases copyAllRegs with
  | false => cases isSource
  | true =>
    cases isSource
    exact le_rfl

lemma Sane.threadInitNew (sane : Sane program s user master starts)
    (inside : s.assignedThreadId ≤ s.threadPtrs.length)
    (noInactive : s.inactiveThreads.getLast? = none) :
    ∃ user', Sane program (s.threadInit program templateThread copyAllRegs stackTargetSize) user'
      master starts := by
  obtain ⟨above, hs⟩ := sane.shaped.newBlock sane.page sane.below
  obtain ⟨_, hbu⟩ := sane.newBlock
  have hr : Sane program (s.reserveThread program) user master starts := sane.shiftExtent _
  have hb : s.stackBegin program = (s.reserveThread program).extent := alignUp_of_dvd hr.page
  have grows := le_shiftExtent (s.reserveThread program) (s.stackBegin program +
      stackTarget templateThread copyAllRegs stackTargetSize -
      (s.reserveThread program).extent)
  have hws : Sane program (s.reserveStack program
        (stackTarget templateThread copyAllRegs stackTargetSize))
      user master starts := hr.shiftExtent _
  have hst : (s.reserveStack program (stackTarget templateThread copyAllRegs
        stackTargetSize)).template = s.template := by
    unfold reserveStack reserveThread
    rw [shiftExtent_template, shiftExtent_template]
  have hh : (s.reserveStack program (stackTarget templateThread copyAllRegs
        stackTargetSize)).threadPtrs = s.threadPtrs := by
    unfold reserveStack reserveThread
    rw [shiftExtent_threadPtrs, shiftExtent_threadPtrs]
  have made : ∃ user', Sane program ((s.reserveStack program (stackTarget templateThread copyAllRegs
          stackTargetSize)).makeThread program s.assignedThreadId s.blockStart
        s.blockEnd (s.stackBegin program)
        (stackTarget templateThread copyAllRegs stackTargetSize)
        (if copyAllRegs then some templateThread else none)) user' master
      starts := by
    apply hws.makeNewThread
    · rw [hst]
      exact hs
    · unfold reserveStack
      omega
    · rw [hst]
      intro x low _
      exact hbu x low
    · unfold reserveStack
      omega
    · intro x low _
      exact ⟨hr.behind x (by omega), .inr (by omega)⟩
    · exact source_smaller
    rw [hh]
    exact inside
  obtain ⟨user', hsa⟩ := made
  refine ⟨user', ?_⟩
  simp only [threadInit, noInactive]
  exact hsa.withNext 0

lemma Sane.takeInactive (sane : Sane program s user master starts)
    {old : Thread} (isLast : s.inactiveThreads.getLast? = some old) :
    Sane program { s with inactiveThreads := s.inactiveThreads.dropLast } user
      master starts ∧
    Placed program s user master old ∧
    old.self ∉ s.inactiveThreads.dropLast.map Thread.self ∧
    ∀ (id : Nat) (thread : Thread),
      s.Live id thread → thread.self ≠ old.self := by
  have split : s.inactiveThreads = s.inactiveThreads.dropLast ++ [old] := by
    obtain ⟨_, hap⟩ := getLast?_eq_some_iff.mp isLast
    rw [hap, dropLast_concat]
  have nodup := sane.inactiveNodup
  rw [split, map_append, nodup_append] at nodup
  have hm := mem_of_getLast? isLast
  refine ⟨?_, sane.inactive old hm, ?_, ?_⟩
  · exact
      { sane with
        placed := fun id thread ht => (sane.placed id thread ht).congr rfl (fun _ _ _ => rfl)
        filled := fun id thread ht =>
          (sane.filled id thread ht).congr
            (sane.placed id thread ht) sane.shaped rfl
            (fun _ _ found => found) (fun _ _ _ => ⟨rfl, rfl⟩)
        inactive := fun thread hin =>
          (sane.inactive thread (dropLast_subset _ hin)).congr
            rfl (fun _ _ _ => rfl)
        inactiveNodup := nodup.1
        apart := fun id thread ht hin =>
          sane.apart id thread ht (by
            rw [split, map_append]
            exact mem_append_left _ hin) }
  · intro again
    exact nodup.2.2 old.self again old.self mem_cons_self rfl
  intro id thread ht same
  apply sane.apart id thread ht
  rw [same]
  exact mem_map_of_mem hm

lemma Sane.threadInitAgain (sane : Sane program s user master starts)
    (inside : s.assignedThreadId ≤ s.threadPtrs.length) {old : Thread}
    (isLast : s.inactiveThreads.getLast? = some old)
    (smaller : stackTarget templateThread copyAllRegs stackTargetSize ≤ old.stackSize) :
    Sane program (s.threadInit program templateThread copyAllRegs stackTargetSize) user
      master starts := by
  obtain ⟨taken, hp, hni, hnl⟩ := sane.takeInactive isLast
  have hnp : Placed program { s with inactiveThreads := s.inactiveThreads.dropLast } user master
      ⟨old.self, old.tlsStart, old.stackBase,
        stackTarget templateThread copyAllRegs stackTargetSize,
        instantiate s.template.baseOffsets old.self⟩ :=
    { start := hp.start
      block := hp.block
      stack := fun x low high =>
        hp.stack x low (lt_of_lt_of_le high (by dsimp only; omega)) }
  have made := taken.makeThread hnp source_smaller inside hnl hni
  simp only [threadInit, isLast]
  exact made.withNext 0

variable {thread : Thread} {number id : Nat}

/-- A thread that ends leaves its memory behind. -/
lemma Sane.retire (sane : Sane program s user master starts) (isThread : s.Live id thread) :
    Sane program (s.retire id thread) user master starts := by
  have hl : ∀ (other : Nat) (found : Thread),
      (s.threadPtrs.set id none)[other]? = some (some found) →
      other ≠ id ∧ s.Live other found := by
    intro other found hfo
    rw [getElem?_set] at hfo
    by_cases same : id = other
    · rw [if_pos same] at hfo
      split at hfo <;> cases hfo
    rw [if_neg same] at hfo
    exact ⟨fun equal => same equal.symm, hfo⟩
  refine { sane with
    placed := ?placed, filled := ?filled, inactive := ?inactive, distinct := ?distinct
    inactiveNodup := ?inactiveNodup, apart := ?apart }
  case placed =>
      intro other found hfo
      have isOld := (hl other found hfo).2
      exact (sane.placed other found isOld).congr rfl (fun _ _ _ => rfl)
  case filled =>
      intro other found hfo
      have isOld := (hl other found hfo).2
      exact (sane.filled other found isOld).congr (sane.placed other found isOld) sane.shaped rfl
        (fun _ _ found => found) (fun _ _ _ => ⟨rfl, rfl⟩)
  case inactive =>
      intro other hin
      rcases mem_append.mp hin with isOld | hla
      · exact (sane.inactive other isOld).congr rfl (fun _ _ _ => rfl)
      rw [mem_singleton.mp hla]
      exact (sane.placed id thread isThread).congr rfl (fun _ _ _ => rfl)
  case distinct =>
      intro first second firstThread secondThread hf hs
      exact sane.distinct first second firstThread secondThread (hl first firstThread hf).2
        (hl second secondThread hs).2
  case inactiveNodup =>
      have hni := sane.apart id thread isThread
      show ((s.inactiveThreads ++ [thread]).map Thread.self).Nodup
      rw [map_append, nodup_append]
      refine ⟨sane.inactiveNodup, nodup_singleton _, ?_⟩
      intro self isOld _ hla same
      rw [map_singleton, mem_singleton] at hla
      rw [same, hla] at isOld
      exact hni isOld
  case apart =>
      intro other found hfo hin
      obtain ⟨hns, isOld⟩ := hl other found hfo
      rw [show (s.retire id thread).inactiveThreads =
        s.inactiveThreads ++ [thread] from rfl, map_append,
        mem_append, map_singleton, mem_singleton] at hin
      rcases hin with hm | hss
      · exact sane.apart other found isOld hm
      · exact hns (sane.distinct other id found thread isOld isThread hss)

variable {modIdx base : Nat}

lemma TlsState.extendedDtv_getElem? :
    (extendedDtv thread modIdx)[number]? = some (some base) ↔
      thread.dtv[number]? = some (some base) := by
  unfold extendedDtv
  by_cases hin : number < thread.dtv.length
  · rw [getElem?_append_left hin]
  rw [getElem?_append_right (by omega), getElem?_replicate, getElem?_eq_none (by omega)]
  split
  · simp [some.injEq, reduceCtorEq]
  · exact Iff.rfl

lemma Filled.extend (filled : Filled program s user master starts thread) (modIdx : Nat) :
    Filled program s user master starts
      { thread with dtv := extendedDtv thread modIdx } where
  first := by
    intro number below
    have first := filled.first number below
    have hin : number < thread.dtv.length := by
      by_contra ho
      rw [getElem?_eq_none (by omega), eq_comm, getElem?_eq_none_iff, instantiate_length] at first
      omega
    rw [extendedDtv, getElem?_append_left hin]
    exact first
  copies := filled.copies
  late := by
    intro number base hl hb
    exact filled.late number base hl (extendedDtv_getElem?.mp hb)

lemma Filled.dtv_block (filled : Filled program s user master starts thread)
    (shaped : Shaped program s.template master starts) (notZero : number ≠ 0)
    (below : number < s.template.baseOffsets.length) :
    ∃ handle start, s.template.assembled[number - 1]? = some handle ∧
      starts[number - 1]? = some start ∧ thread.dtv[number]? = some
        (some (thread.self - (master + s.template.tlsSize - start))) := by
  obtain ⟨handle, start, hm, hs⟩ := shaped.block notZero below
  refine ⟨handle, start, hm, hs, ?_⟩
  have found := (shaped.instantiate hm hs thread.self).2
  rw [Nat.sub_add_cancel (pos_of_ne_zero notZero)] at found
  rw [filled.first number below]
  exact found

lemma Filled.addLate {target handle : Nat} (filled : Filled program s user master starts thread)
    (isLate : s.template.baseOffsets.length ≤ number)
    (block : LateBlock program s user thread.self number target handle) :
    Filled program s user master starts
      { thread with
        dtv := (extendedDtv thread number).set number (some target) }
    where
  first := by
    intro other below
    rw [getElem?_set_ne (by omega)]
    exact (filled.extend number).first other below
  copies := filled.copies
  late := by
    intro other base hol hb
    by_cases same : number = other
    · rw [← same, getElem?_set_self'] at hb
      have ht : base = target := by
        cases found : (extendedDtv thread number)[number]? with
        | none =>
          rw [found] at hb
          cases hb
        | some _ =>
          rw [found] at hb
          cases hb
          rfl
      rw [ht, ← same]
      exact ⟨handle, block⟩
    rw [getElem?_set_ne same] at hb
    exact filled.late other base hol (extendedDtv_getElem?.mp hb)

namespace TlsState

lemma tlsGet_eq_some {offs address : Nat} {after : TlsState}
    (isSome : s.tlsGet program id modIdx offs = some (address, after)) :
    modIdx ≠ 0 ∧ ∃ thread, s.Live id thread ∧
      ((∃ base, thread.dtv[modIdx]? = some (some base) ∧ address = base + offs ∧
        after = s.setThread id
            (some { thread with dtv := extendedDtv thread modIdx })) ∨
        ((∀ base, thread.dtv[modIdx]? ≠ some (some base)) ∧
          ∃ handle, s.tlsModules[modIdx]? = some handle ∧
          address = s.lateTarget program handle + offs ∧
          after = (s.lateMemory program handle).setThread id
            (some { thread with
              dtv := (extendedDtv thread modIdx).set modIdx
                (some (s.lateTarget program handle)) }))) := by
  unfold tlsGet at isSome
  split at isSome
  · rename_i inside
    refine ⟨inside.2, ?_⟩
    cases ht : s.threadPtrs[id]?.join with
    | none =>
      rw [ht] at isSome
      cases isSome
    | some thread =>
      rw [ht] at isSome
      refine ⟨thread, join_eq_some_iff.mp ht, ?_⟩
      dsimp only at isSome
      cases hb : (extendedDtv thread modIdx)[modIdx]?.join with
      | some base =>
        rw [hb] at isSome
        cases isSome
        have found := join_eq_some_iff.mp hb
        exact .inl ⟨base, extendedDtv_getElem?.mp found, rfl, rfl⟩
      | none =>
        rw [hb] at isSome
        cases hm : s.tlsModules[modIdx]? with
        | none =>
          rw [hm] at isSome
          cases isSome
        | some handle =>
          rw [hm] at isSome
          cases isSome
          refine .inr ⟨?_, handle, rfl, rfl, rfl⟩
          intro base found
          have he : (extendedDtv thread modIdx)[modIdx]? = some (some base) :=
            extendedDtv_getElem?.mpr found
          rw [← join_eq_some_iff, hb] at he
          cases he
  · cases isSome

end TlsState

lemma Sane.lateMemory (sane : Sane program s user master starts) (handle : Nat) :
    Sane program (s.lateMemory program handle) user master starts ∧
    s.lateTarget program handle + program.moduleTlsSize handle ≤
      (s.lateMemory program handle).extent ∧
    ∀ x, s.lateTarget program handle ≤ x → user x = .none := by
  have above := le_alignUp (program.moduleTlsAlign handle) s.extent
  have grows := le_shiftExtent s
    (s.lateTarget program handle + program.moduleTlsSize handle - s.extent)
  have hu : ∀ x, s.lateTarget program handle ≤ x → user x = .none :=
    fun x low => sane.behind x (le_trans above low)
  refine ⟨?_, ?_, hu⟩
  · apply (sane.shiftExtent _).write
    intro x inUse
    apply store_outside
    by_contra hin
    have hn := hu x (by omega)
    rcases inUse with ht | ⟨_, _, _, _, hus⟩
    · rw [hn] at ht
      cases ht
    rw [hn] at hus
    cases hus
  unfold TlsState.lateMemory
  dsimp only
  omega

lemma Sane.tlsGet (sane : Sane program s user master starts) {offs address : Nat}
    {after : TlsState} (isSome : s.tlsGet program id modIdx offs = some (address, after)) :
    ∃ user', Sane program after user' master starts := by
  obtain ⟨hnz, thread, ht, hk | isNew⟩ := tlsGet_eq_some isSome
  all_goals
    have hin := le_of_lt (List.getElem?_eq_some_iff.mp ht).1
  · obtain ⟨_, _, _, ha⟩ := hk
    have hp := sane.placed id thread ht
    rw [ha]
    refine ⟨user, sane.setThread hin { hp with } ((sane.filled id thread ht).extend modIdx)
        ?_ (sane.apart id thread ht)⟩
    intro other otherThread ho same
    exact sane.distinct other id otherThread thread ho ht same
  obtain ⟨hn, handle, isModule, _, ha⟩ := isNew
  obtain ⟨grown, fits, hu⟩ := sane.lateMemory handle
  have hst : (s.lateMemory program handle).threadPtrs = s.threadPtrs := shiftExtent_threadPtrs _
  have hl : s.template.baseOffsets.length ≤ modIdx := by
    by_contra below
    obtain ⟨_, _, _, _, found⟩ := (sane.filled id thread ht).dtv_block sane.shaped hnz (by omega)
    exact hn _ found
  have hm := grown.mark fits (fun x low _ => hu x low) (.thread thread.self (.late modIdx))
  rw [Live, ← hst] at ht
  rw [← hst] at hin
  have hp := hm.placed id thread ht
  have block : LateBlock program (s.lateMemory program handle)
      (Tls.mark user (s.lateTarget program handle)
        (s.lateTarget program handle + program.moduleTlsSize handle)
        (.thread thread.self (.late modIdx)))
      thread.self modIdx (s.lateTarget program handle) handle :=
    { isModule := (congrArg (fun modules => modules[modIdx]?)
        (shiftExtent_tlsModules _)).trans isModule
      aligned := dvd_alignUp (program.moduleTlsAlign_pos handle) _
      holds := holds_store _ _ _
      range := fun x low high => mark_inside low high }
  have hln : (s.lateMemory program handle).template.baseOffsets.length ≤ modIdx :=
    (congrArg (fun template => template.baseOffsets.length) (shiftExtent_template _)).trans_le hl
  rw [ha]
  refine ⟨_, hm.setThread hin { hp with } ((hm.filled id thread ht).addLate hln block)
    ?_ (hm.apart id thread ht)⟩
  intro other otherThread ho same
  exact hm.distinct other id otherThread thread ho ht same

structure Unassembled (program : Program) (s : TlsState) : Prop where
  extent : s.extent = 4096 * program.firstPage
  noMaster : s.template.tlsMaster = none
  noSize : s.template.tlsSize = 0
  noOffsets : s.template.baseOffsets = []
  noModules : s.template.assembled = []
  noThreads : s.threadPtrs = []
  noInactive : s.inactiveThreads = []

lemma Unassembled.attachObject (unassembled : Unassembled program s) (handle : Nat)
    (isInit : Bool) : Unassembled program (s.attachObject program handle isInit) := by
  unfold TlsState.attachObject
  split
  all_goals
    exact { unassembled with }

lemma unassembled_loaded (program : Program) (memory : Memory)
    (index : Nat → Nat) (attached : List (Nat × Bool)) :
    Unassembled program (loaded program memory index attached) := by
  unfold loaded
  generalize hf : (mk _ _ _ _ _ _ _ _ _) = first
  have hu : Unassembled program first := by
    rw [← hf]
    exact ⟨rfl, rfl, rfl, rfl, rfl, rfl, rfl⟩
  clear hf
  induction attached generalizing first with
  | nil => exact hu
  | cons object attached ih => exact ih _ (hu.attachObject object.1 object.2)

structure Ready (program : Program) (s : TlsState) (master : Nat)
    (starts : List Nat) : Prop where
  sane : ∃ user, Sane program s user master starts ∧ ∀ x < 4096 * program.firstPage, user x = .none
  grown : 4096 * program.firstPage ≤ s.extent
  noThreads : s.threadPtrs = []

lemma sane_of_no_threads (shaped : Shaped program s.template master starts)
    (page : 4096 ∣ s.extent) (below : master + s.template.tlsSize ≤ s.extent)
    (images : ∀ (i handle start : Nat),
      s.template.assembled[i]? = some handle → starts[i]? = some start →
      Holds s.memory start (program.image handle))
    (known : s.template.assembled.length ≤ s.tlsModules.length)
    (noThreads : s.threadPtrs = []) (noInactive : s.inactiveThreads = []) :
    Sane program s (mark (fun _ => .none) master (master + s.template.tlsSize) .template)
      master starts := by
  have none : ∀ (id : Nat) (thread : Thread), ¬ s.Live id thread := by
    intro id thread found
    rw [Live, noThreads] at found
    cases found
  exact
    { shaped := shaped
      page := page
      behind := fun x _ => mark_outside (.inr (by omega))
      below := below
      template := fun x low high => mark_inside low high
      images := images
      known := known
      placed := fun id thread found => absurd found (none id thread)
      filled := fun id thread found => absurd found (none id thread)
      inactive := by
        rw [noInactive]
        exact fun thread hm => absurd hm not_mem_nil
      distinct := fun id _ thread _ found => absurd found (none id thread)
      inactiveNodup := by
        rw [noInactive]
        exact nodup_nil
      apart := fun id thread found => absurd found (none id thread) }

lemma stacked_subBlockStarts (program : Program) (s : TlsState) (front : Nat) (rest : List Nat) :
    Stacked program.moduleTlsSize program.moduleTlsAlign
      (alignUp (program.moduleTlsAlign front) s.extent)
      (s.endVirtual program (front :: rest)) (front :: rest).reverse
      (s.subBlockStarts program (front :: rest)) := by
  apply stacked_place
  · intro block _
    exact program.moduleTlsAlign_pos block
  rw [reverse_cons, pile_alignUp _ _ (program.moduleTlsAlign_pos front),
    ← reverse_cons, ← foldl_eq_pile]
  exact le_alignUp 16 _

lemma shape_assembleBlocks (program : Program) (page : 4096 ∣ s.extent)
    (front : Nat) (rest : List Nat) :
    Shape program (s.assembleBlocks program front (front :: rest))
      (alignUp (program.moduleTlsAlign front) s.extent)
      (s.subBlockStarts program (front :: rest)) := by
  obtain ⟨exponent, power⟩ := (program.modules front).power
  have hp : program.moduleTlsAlign front = 2 ^ exponent := power
  have hs := stacked_subBlockStarts program s front rest
  have low := hs.bottom_le
  have pages : 2 ^ 12 ∣ alignUp (program.moduleTlsAlign front) s.extent := by
    rw [hp]
    exact pow_dvd_alignUp_pow page
  have isEnd : alignUp (program.moduleTlsAlign front) s.extent +
      (s.assembleBlocks program front (front :: rest)).tlsSize =
        s.endVirtual program (front :: rest) := by
    unfold assembleBlocks
    dsimp only
    omega
  exact
    { masterAligned := pages
      sizeAligned := dvd_sub (dvd_alignUp (by decide) _) ((by decide : 16 ∣ 2 ^ 12).trans pages)
      power := ⟨exponent, hp⟩
      isMaster := rfl
      stacked := by
        rw [isEnd]
        exact hs
      offsets := by
        rw [isEnd]
        rfl }

lemma Unassembled.tlsAssemble (unassembled : Unassembled program s) :
    ∃ master starts, Ready program (s.tlsAssemble program) master starts := by
  have page : 4096 ∣ s.extent := by
    rw [unassembled.extent]
    exact dvd_mul_right 4096 _
  unfold TlsState.tlsAssemble
  split
  · refine ⟨0, [], ⟨_, sane_of_no_threads ?_ page ?_ ?_ ?_
      unassembled.noThreads unassembled.noInactive, ?_⟩, ?_, unassembled.noThreads⟩
    · exact .missing unassembled.noMaster unassembled.noSize unassembled.noOffsets
        unassembled.noModules rfl rfl
    · rw [unassembled.noSize]
      exact zero_le _
    · intro i handle start isModule
      rw [unassembled.noModules] at isModule
      cases isModule
    · rw [unassembled.noModules]
      exact zero_le _
    · intro x _
      rw [unassembled.noSize]
      exact mark_outside (.inr (zero_le x))
    · exact le_of_eq unassembled.extent.symm
  rename_i front rest _
  have shape := shape_assembleBlocks program page front rest
  have hs := stacked_subBlockStarts program s front rest
  have low := hs.bottom_le
  have above := le_alignUp (program.moduleTlsAlign front) s.extent
  have grows := le_shiftExtent s (s.endVirtual program (front :: rest) - s.extent)
  refine ⟨_, _, ⟨_, sane_of_no_threads (.filled shape)
    (dvd_shiftExtent page _) ?_ ?_ ?_ ?_ ?_, ?_⟩, ?_, ?_⟩
  · unfold assembleBlocks
    dsimp only
    omega
  · intro i handle start isModule hst
    exact holds_storeAll hs isModule hst
  · show (front :: rest).reverse.length ≤ (s.tlsModules ++ (front :: rest).reverse).length
    rw [length_append]
    exact le_add_left _ _
  · exact (shiftExtent_threadPtrs _).trans unassembled.noThreads
  · exact (shiftExtent_inactiveThreads _).trans unassembled.noInactive
  · intro x below
    rw [← unassembled.extent] at below
    exact mark_outside (.inl (by omega))
  · rw [← unassembled.extent]
    dsimp only
    omega
  · exact (shiftExtent_threadPtrs _).trans unassembled.noThreads

/-- A thread that takes the memory of a retired one gets a stack that is not
larger than the old one. -/
def StackFits (s : TlsState) : TlsState.Operation → Prop
  | .threadInit caller copyAllRegs stackTargetSize =>
    ∀ (thread old : Thread), s.threadPtrs[caller]? = some (some thread) →
      s.inactiveThreads.getLast? = some old →
      TlsState.stackTarget thread copyAllRegs stackTargetSize ≤ old.stackSize
  | _ => True

structure Consistent (program : Program) (s : TlsState) : Prop where
  sane : ∃ user master starts, Sane program s user master starts
  assigned : s.nextAssignedThreadId ≤ s.threadPtrs.length
  lives : ∃ (id : Nat) (thread : Thread), s.threadPtrs[id]? = some (some thread)

structure SameModules (s t : TlsState) : Prop where
  template : t.template = s.template
  attachedSoHandles : t.attachedSoHandles = s.attachedSoHandles
  tlsModules : t.tlsModules = s.tlsModules
  moduleTlsIndex : t.moduleTlsIndex = s.moduleTlsIndex

lemma SameModules.modulesWithTls {t : TlsState} (same : SameModules s t) :
    t.modulesWithTls program = s.modulesWithTls program := by
  unfold TlsState.modulesWithTls
  rw [same.attachedSoHandles]

lemma SameModules.shiftExtent (amount : Nat) : SameModules s (s.shiftExtent amount) :=
  ⟨shiftExtent_template amount, shiftExtent_attachedSoHandles amount, shiftExtent_tlsModules amount,
    shiftExtent_moduleTlsIndex amount⟩

namespace TlsState

lemma setThread_length (id : Nat) (thread : Option Thread) :
    s.threadPtrs.length ≤ (s.setThread id thread).threadPtrs.length := by
  unfold setThread
  split
  · rw [length_set]
  rw [length_append]
  exact le_add_right _ _

lemma assignedThreadId_le (assigned : s.nextAssignedThreadId ≤ s.threadPtrs.length) :
    s.assignedThreadId ≤ s.threadPtrs.length := by
  unfold assignedThreadId
  split
  · exact assigned
  · exact le_rfl

def nextTlsStart (s : TlsState) : Nat :=
  match s.inactiveThreads.getLast? with
  | some old => old.tlsStart
  | none => s.blockStart

lemma threadInit_threads (program : Program) (s : TlsState) (templateThread : Thread)
    (copyAllRegs : Bool) (stackTargetSize : Nat) :
    SameModules s (s.threadInit program templateThread copyAllRegs stackTargetSize) ∧
    (s.threadInit program templateThread copyAllRegs stackTargetSize).nextAssignedThreadId = 0 ∧
    ∃ thread : Thread, thread.tlsStart = s.nextTlsStart ∧
      (s.threadInit program templateThread copyAllRegs stackTargetSize).threadPtrs =
        (s.setThread s.assignedThreadId (some thread)).threadPtrs := by
  unfold threadInit nextTlsStart
  cases s.inactiveThreads.getLast? with
  | some old =>
    exact ⟨⟨rfl, rfl, rfl, rfl⟩, rfl, s.newThread old.tlsStart old.self old.stackBase
        (stackTarget templateThread copyAllRegs stackTargetSize), rfl, rfl⟩
  | none =>
    unfold reserveStack reserveThread
    refine ⟨⟨?_, ?_, ?_, ?_⟩, rfl, s.newThread s.blockStart s.blockEnd (s.stackBegin program)
        (stackTarget templateThread copyAllRegs stackTargetSize), rfl, ?_⟩
    · exact (shiftExtent_template _).trans (shiftExtent_template _)
    · exact (shiftExtent_attachedSoHandles _).trans (shiftExtent_attachedSoHandles _)
    · exact (shiftExtent_tlsModules _).trans (shiftExtent_tlsModules _)
    · exact (shiftExtent_moduleTlsIndex _).trans (shiftExtent_moduleTlsIndex _)
    dsimp only [makeThread, setThread, newThread]
    rw [shiftExtent_threadPtrs, shiftExtent_threadPtrs, shiftExtent_template, shiftExtent_template]

lemma tlsGet_threads {offs address : Nat} {after : TlsState}
    (isSome : s.tlsGet program id modIdx offs = some (address, after)) :
    SameModules s after ∧ after.nextAssignedThreadId = s.nextAssignedThreadId ∧
    ∃ thread new : Thread, s.Live id thread ∧ new.tlsStart = thread.tlsStart ∧
      after.threadPtrs = (s.setThread id (some new)).threadPtrs ∧
      ∃ base, new.dtv[modIdx]? = some (some base) ∧ address = base + offs := by
  obtain ⟨_, thread, ht, hk | isNew⟩ := tlsGet_eq_some isSome
  · obtain ⟨base, hb, ha, haf⟩ := hk
    rw [haf]
    exact ⟨⟨rfl, rfl, rfl, rfl⟩, rfl, thread,
      { thread with dtv := extendedDtv thread modIdx }, ht, rfl, rfl,
      base, extendedDtv_getElem?.mpr hb, ha⟩
  obtain ⟨hn, handle, hm, ha, haf⟩ := isNew
  rw [haf]
  refine ⟨⟨shiftExtent_template _, shiftExtent_attachedSoHandles _,
    shiftExtent_tlsModules _, shiftExtent_moduleTlsIndex _⟩,
    shiftExtent_nextAssignedThreadId _, thread,
    { thread with
      dtv := (extendedDtv thread modIdx).set modIdx
        (some (s.lateTarget program handle)) }, ht, rfl, ?_,
    s.lateTarget program handle, ?_, ha⟩
  · dsimp only [setThread, lateMemory]
    rw [shiftExtent_threadPtrs]
  apply getElem?_set_self
  unfold extendedDtv
  rw [length_append, length_replicate]
  omega

end TlsState

lemma lives_setThread (inside : id ≤ s.threadPtrs.length) (thread : Thread)
    {t : TlsState} (isSet : t.threadPtrs = (s.setThread id (some thread)).threadPtrs) :
    t.Live id thread := by
  rw [Live, isSet, setThread_getElem? inside, if_pos rfl]

lemma TlsState.initThread0_threadPtrs (program : Program) (noThreads : s.threadPtrs = []) :
    (s.initThread0 program).threadPtrs =
      [some (s.newThread s.blockStart s.blockEnd program.allocatedStack
        program.stackAllocatedSize)] := by
  dsimp only [initThread0, makeThread, setThread, newThread, reserveThread]
  rw [shiftExtent_threadPtrs, shiftExtent_template, noThreads]
  rfl

lemma Consistent.tlinit (program : Program) (memory : Memory)
    (index : Nat → Nat) (attached : List (Nat × Bool)) :
    Consistent program ((loaded program memory index attached).tlinit program) := by
  obtain ⟨master, starts, ready⟩ := (unassembled_loaded program memory index attached).tlsAssemble
  obtain ⟨_, sane, hu⟩ := ready.sane
  have hsb := program.stackBelow
  have grown := ready.grown
  obtain ⟨user', hs⟩ := sane.initThread0 (by omega) (fun x _ _ => hu x (by omega))
  have ht := initThread0_threadPtrs program ready.noThreads
  have hf := congrArg (fun entries => entries[0]?) ht
  refine ⟨⟨user', master, starts, hs⟩, ?_, 0, _, hf⟩
  unfold TlsState.tlinit
  rw [ht]
  exact le_refl 1

/-- Each operation keeps the blocks apart. -/
lemma Consistent.step (consistent : Consistent program s) (operation : TlsState.Operation)
    (fits : StackFits s operation) : Consistent program (s.step program operation) := by
  obtain ⟨user, master, starts, sane⟩ := consistent.sane
  obtain ⟨someId, someThread, hst⟩ := consistent.lives
  cases operation with
  | attachObject handle _ =>
    dsimp only [TlsState.step]
    unfold attachObject
    split
    · exact ⟨⟨user, master, starts, sane.withModules _
        (prefix_append _ _) _ _⟩, consistent.assigned, consistent.lives⟩
    · exact ⟨⟨user, master, starts, sane.withModules _ (prefix_refl _) _ _⟩, consistent.assigned,
        consistent.lives⟩
  | renumber handle _ =>
    dsimp only [TlsState.step]
    split
    · exact consistent
    · exact ⟨⟨user, master, starts, sane.withModules _ (prefix_refl _) _ _⟩, consistent.assigned,
        consistent.lives⟩
  | threadInit caller copyAllRegs stackTargetSize =>
    dsimp only [TlsState.step]
    cases hca : s.threadPtrs[caller]?.join with
    | none => exact consistent
    | some templateThread =>
      have hl := join_eq_some_iff.mp hca
      have hin := assignedThreadId_le consistent.assigned
      obtain ⟨_, next, thread, _, hth⟩ := threadInit_threads program s templateThread
          copyAllRegs stackTargetSize
      refine ⟨?_, by dsimp only; rw [next]; exact zero_le _, s.assignedThreadId, thread,
        lives_setThread hin thread hth⟩
      cases hla : s.inactiveThreads.getLast? with
      | none =>
        obtain ⟨user', hsa⟩ := sane.threadInitNew hin hla
        exact ⟨user', master, starts, hsa⟩
      | some old =>
        exact ⟨user, master, starts, sane.threadInitAgain hin hla (fits templateThread old hl hla)⟩
  | retire id =>
    dsimp only [TlsState.step]
    cases ht : s.threadPtrs[id]?.join with
    | none => exact consistent
    | some thread =>
      have hl := join_eq_some_iff.mp ht
      dsimp only
      split
      · rename_i othersLive
        have bound : id < s.threadPtrs.length := (List.getElem?_eq_some_iff.mp hl).1
        refine ⟨⟨user, master, starts, sane.retire hl⟩, ?_, ?_⟩
        · show id ≤ (s.threadPtrs.set id none).length
          rw [length_set]
          omega
        obtain ⟨_, hm, hs⟩ := any_eq_true.mp othersLive
        obtain ⟨other, found⟩ := mem_iff_getElem?.mp hm
        obtain ⟨survivor, hsu⟩ := isSome_iff_exists.mp hs
        rw [hsu] at found
        exact ⟨other, survivor, found⟩
      · exact consistent
  | grow amount =>
    refine ⟨⟨user, master, starts, sane.shiftExtent amount⟩, ?_, someId, someThread, ?_⟩
    · dsimp only [TlsState.step]
      rw [shiftExtent_nextAssignedThreadId, shiftExtent_threadPtrs]
      exact consistent.assigned
    dsimp only [TlsState.step]
    rw [shiftExtent_threadPtrs]
    exact hst
  | tlsGet id modIdx offs =>
    dsimp only [TlsState.step]
    cases hs : s.tlsGet program id modIdx offs with
    | none => exact consistent
    | some result =>
      obtain ⟨user', hsa⟩ := sane.tlsGet hs
      obtain ⟨_, next, thread, new, ht, _, hth, _⟩ := tlsGet_threads hs
      have hin := le_of_lt (List.getElem?_eq_some_iff.mp ht).1
      refine ⟨⟨user', master, starts, hsa⟩, ?_, id, new, lives_setThread hin new hth⟩
      rw [next, hth]
      exact le_trans consistent.assigned (setThread_length id _)

end OoOS.Sched.Tls
