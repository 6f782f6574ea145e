import OoOS.Sched.Tls

/-!
# Where thread-local storage lies

Every address of the frame has at most one user: the template, or a thread with
its block, its stack or a block that it got late.
-/

namespace OoOS.Sched.Tls

open List Lib Lib.Layout TlsState

namespace TlsState

abbrev Live (s : TlsState) (id : Nat) (thread : Thread) : Prop :=
  s.threadPtrs[id]? = some (some thread)

variable {s : TlsState}

lemma le_shiftExtent (s : TlsState) (amount : Nat) :
    s.extent + amount ≤ (s.shiftExtent amount).extent := by
  have up := le_alignUp 4096 (s.extent + amount)
  have down := trunc_le 4096 s.extent
  unfold shiftExtent
  split
  · omega
  · simp only [alignedSize]
    omega

section

variable (aligned : 4096 ∣ s.extent) (amount : Nat)
include aligned

lemma shiftExtent_extent : (s.shiftExtent amount).extent = alignUp 4096 (s.extent + amount) := by
  have same : trunc 4096 s.extent = s.extent := by
    have low := le_trunc aligned (le_refl s.extent)
    have high := trunc_le 4096 s.extent
    omega
  have up := le_alignUp 4096 (s.extent + amount)
  unfold shiftExtent
  by_cases hz : amount = 0
  · rw [if_pos hz, hz, Nat.add_zero, alignUp_of_dvd aligned]
  rw [if_neg hz]
  dsimp only
  rw [alignedSize, same]
  omega

lemma dvd_shiftExtent : 4096 ∣ (s.shiftExtent amount).extent := by
  rw [shiftExtent_extent aligned]
  exact dvd_alignUp (by decide) _

end

lemma shiftExtent_memory {amount x : Nat} (below : x < s.extent) :
    (s.shiftExtent amount).memory x = s.memory x := by
  unfold shiftExtent
  split
  · rfl
  · exact store_outside (.inl below)

lemma shiftExtent_eq (amount : Nat) : s.shiftExtent amount =
      { s with
        extent := (s.shiftExtent amount).extent
        memory := (s.shiftExtent amount).memory } := by
  unfold shiftExtent
  split <;> rfl

lemma setThread_getElem? {id : Nat} (inside : id ≤ s.threadPtrs.length)
    (thread : Option Thread) (other : Nat) :
    (s.setThread id thread).threadPtrs[other]? =
      if other = id then some thread else s.threadPtrs[other]? := by
  unfold setThread
  by_cases below : id < s.threadPtrs.length
  · rw [if_pos below, getElem?_set]
    by_cases same : id = other
    · rw [if_pos same, if_pos below, if_pos same.symm]
    · rw [if_neg same, if_neg (fun equal => same equal.symm)]
  have hl : id = s.threadPtrs.length := by omega
  rw [if_neg below, getElem?_append, hl]
  by_cases same : other = s.threadPtrs.length
  · rw [if_pos same, if_neg (by omega), same, Nat.sub_self]
    rfl
  split
  · rfl
  · rw [getElem?_eq_none (by simp only [length_singleton]; omega), getElem?_eq_none (by omega)]

end TlsState

inductive Use
  | block
  | stack
  | late (number : Nat)

/-- Who uses an address: nobody's thread-local storage, the template, or the
thread with its record at an address. -/
inductive User
  | none
  | template
  | thread (self : Nat) (use : Use)

def mark (user : Nat → User) (low high : Nat) (new : User) : Nat → User :=
  fun x => if low ≤ x ∧ x < high then new else user x

variable {user : Nat → User} {low high x : Nat} {new : User}

lemma mark_inside (above : low ≤ x) (below : x < high) : mark user low high new x = new := by
  unfold mark
  rw [if_pos ⟨above, below⟩]

lemma mark_outside (outside : x < low ∨ high ≤ x) : mark user low high new x = user x := by
  unfold mark
  rw [if_neg (by omega)]

lemma mark_used (unused : ∀ x, low ≤ x → x < high → user x = .none) (used : user x ≠ .none) :
    mark user low high new x = user x := by
  apply mark_outside
  by_contra hin
  exact used (unused x (by omega) (by omega))

variable (program : Program)

structure Shape (template : Template) (master : Nat) (starts : List Nat) : Prop where
  masterAligned : 4096 ∣ master
  sizeAligned : 16 ∣ template.tlsSize
  power : ∃ exponent, template.tlsAlign = 2 ^ exponent
  isMaster : template.tlsMaster = some master
  stacked : Stacked program.moduleTlsSize program.moduleTlsAlign master
    (master + template.tlsSize) template.assembled starts
  offsets : template.baseOffsets = 0 :: starts.map (fun start => master + template.tlsSize - start)

inductive Shaped (template : Template) (master : Nat) (starts : List Nat) : Prop
  | missing (noMaster : template.tlsMaster = none)
      (noSize : template.tlsSize = 0) (noOffsets : template.baseOffsets = [])
      (noModules : template.assembled = []) (isZero : master = 0)
      (noStarts : starts = [])
  | filled (shape : Shape program template master starts)

structure Placed (s : TlsState) (user : Nat → User) (master : Nat)
    (thread : Thread) : Prop where
  start : s.template.tlsMaster ≠ none → thread.self = thread.tlsStart + s.template.tlsSize ∧
      master ≤ thread.tlsStart
  block : ∀ x, thread.self ≤ x + s.template.tlsSize → x < thread.self + program.threadSize →
    user x = .thread thread.self .block
  stack : ∀ x, thread.stackBase ≤ x → x < thread.stackBase + thread.stackSize →
    user x = .thread thread.self .stack

structure LateBlock (s : TlsState) (user : Nat → User)
    (record number base handle : Nat) : Prop where
  isModule : s.tlsModules[number]? = some handle
  aligned : program.moduleTlsAlign handle ∣ base
  holds : Holds s.memory base (program.image handle)
  range : ∀ x, base ≤ x → x < base + program.moduleTlsSize handle →
    user x = .thread record (.late number)

/-- The blocks of a live thread hold the images of their modules. -/
structure Filled (s : TlsState) (user : Nat → User) (master : Nat)
    (starts : List Nat) (thread : Thread) : Prop where
  first : ∀ number < s.template.baseOffsets.length, thread.dtv[number]? =
      (TlsState.instantiate s.template.baseOffsets thread.self)[number]?
  copies : ∀ (i handle start : Nat), s.template.assembled[i]? = some handle →
    starts[i]? = some start →
    Holds s.memory (thread.tlsStart + (start - master)) (program.image handle)
  late : ∀ number base, s.template.baseOffsets.length ≤ number →
    thread.dtv[number]? = some (some base) →
    ∃ handle, LateBlock program s user thread.self number base handle

structure Sane (s : TlsState) (user : Nat → User) (master : Nat)
    (starts : List Nat) : Prop where
  shaped : Shaped program s.template master starts
  page : 4096 ∣ s.extent
  behind : ∀ x, s.extent ≤ x → user x = .none
  below : master + s.template.tlsSize ≤ s.extent
  template : ∀ x, master ≤ x → x < master + s.template.tlsSize → user x = .template
  images : ∀ (i handle start : Nat), s.template.assembled[i]? = some handle →
    starts[i]? = some start →
    Holds s.memory start (program.image handle)
  known : s.template.assembled.length ≤ s.tlsModules.length
  placed : ∀ (id : Nat) (thread : Thread), s.threadPtrs[id]? = some (some thread) →
    Placed program s user master thread
  filled : ∀ (id : Nat) (thread : Thread), s.threadPtrs[id]? = some (some thread) →
    Filled program s user master starts thread
  inactive : ∀ thread ∈ s.inactiveThreads, Placed program s user master thread
  distinct : ∀ (id other : Nat) (thread otherThread : Thread),
    s.threadPtrs[id]? = some (some thread) →
    s.threadPtrs[other]? = some (some otherThread) →
    thread.self = otherThread.self → id = other
  inactiveNodup : (s.inactiveThreads.map Thread.self).Nodup
  apart : ∀ (id : Nat) (thread : Thread), s.threadPtrs[id]? = some (some thread) →
    thread.self ∉ s.inactiveThreads.map Thread.self

variable {program} {s : TlsState} {master : Nat} {starts : List Nat}

namespace Shaped

variable {template : Template}

section

variable (sane : Shaped program template master starts)

include sane

lemma stacked : Stacked program.moduleTlsSize program.moduleTlsAlign master
    (master + template.tlsSize) template.assembled starts := by
  cases sane with
  | missing _ _ _ noModules _ hns =>
    rw [noModules, hns]
    exact .nil (Nat.le_add_right master _)
  | filled shape => exact shape.stacked

end

lemma instantiate (shaped : Shaped program template master starts) {i handle start : Nat}
    (isModule : template.assembled[i]? = some handle) (isStart : starts[i]? = some start)
    (self : Nat) :
    i + 1 < template.baseOffsets.length ∧ (instantiate template.baseOffsets self)[i + 1]? =
      some (some (self - (master + template.tlsSize - start))) := by
  cases shaped with
  | missing _ _ _ noModules _ _ =>
    rw [noModules] at isModule
    cases isModule
  | filled shape =>
    have hin : i < starts.length := (List.getElem?_eq_some_iff.mp isStart).1
    rw [shape.offsets]
    refine ⟨?_, ?_⟩
    · rw [length_cons, length_map]
      omega
    rw [TlsState.instantiate, getElem?_cons_succ, getElem?_map, getElem?_map, isStart]
    rfl

section

variable (sane : Shaped program template master starts)

include sane

lemma block {number : Nat} (notZero : number ≠ 0) (below : number < template.baseOffsets.length) :
    ∃ handle start, template.assembled[number - 1]? = some handle ∧
      starts[number - 1]? = some start := by
  cases sane with
  | missing _ _ noOffsets _ _ _ =>
    rw [noOffsets] at below
    cases below
  | filled shape =>
    rw [shape.offsets, length_cons, length_map] at below
    have hsl := shape.stacked.length
    exact ⟨template.assembled[number - 1], starts[number - 1], getElem?_eq_getElem (by omega),
      getElem?_eq_getElem (by omega)⟩

lemma master_ne_none {i handle : Nat}
    (isModule : template.assembled[i]? = some handle) : template.tlsMaster = some master := by
  cases sane with
  | missing _ _ _ noModules _ _ =>
    rw [noModules] at isModule
    cases isModule
  | filled shape => exact shape.isMaster

end

lemma newBlock (shaped : Shaped program s.template master starts) (page : 4096 ∣ s.extent)
    (below : master + s.template.tlsSize ≤ s.extent) :
    s.extent + s.template.tlsSize ≤ s.blockEnd ∧ (s.template.tlsMaster ≠ none →
      s.blockEnd = s.blockStart + s.template.tlsSize ∧ master ≤ s.blockStart) := by
  cases shaped with
  | missing hnm noSize _ _ _ _ =>
    refine ⟨?_, fun hso => absurd hnm hso⟩
    simp only [blockEnd, hnm, noSize]
    exact le_alignUp 16 s.extent
  | filled shape =>
    obtain ⟨_, power⟩ := shape.power
    have start : s.blockStart = alignUp s.template.tlsAlign s.extent := by
      simp [blockStart, shape.isMaster]
    have above := le_alignUp s.template.tlsAlign s.extent
    have pages : 2 ^ 12 ∣ s.blockStart := by
      rw [start, power]
      exact pow_dvd_alignUp_pow page
    have hs := Nat.dvd_add ((by decide : 16 ∣ 2 ^ 12).trans pages) shape.sizeAligned
    have isEnd : s.blockEnd = s.blockStart + s.template.tlsSize := by
      simp only [blockEnd, shape.isMaster]
      exact alignUp_of_dvd hs
    refine ⟨?_, fun _ => ⟨isEnd, ?_⟩⟩
    · omega
    · omega

end Shaped

variable {t : TlsState} {other : Nat → User} {thread : Thread}

section

variable (placed : Placed program s user master thread)

include placed

lemma Placed.congr (sameTemplate : t.template = s.template)
    (keeps : ∀ x use, user x = .thread thread.self use → other x = user x) :
    Placed program t other master thread where
  start := by
    rw [sameTemplate]
    exact placed.start
  block := by
    intro x low high
    rw [sameTemplate] at low
    have hb := placed.block x low high
    rw [keeps x .block hb]
    exact hb
  stack := by
    intro x low high
    have hs := placed.stack x low high
    rw [keeps x .stack hs]
    exact hs

lemma Placed.copyRange (shaped : Shaped program s.template master starts) {i handle start : Nat}
    (isModule : s.template.assembled[i]? = some handle) (isStart : starts[i]? = some start) :
    thread.self - (master + s.template.tlsSize - start) = thread.tlsStart + (start - master) ∧
    ∀ x, thread.tlsStart + (start - master) ≤ x →
      x < thread.tlsStart + (start - master) + program.moduleTlsSize handle →
      thread.tlsStart ≤ x ∧ x < thread.self ∧ user x = .thread thread.self .block := by
  have hso : s.template.tlsMaster ≠ none := by
    rw [shaped.master_ne_none isModule]
    exact Option.some_ne_none master
  obtain ⟨_, _⟩ := placed.start hso
  obtain ⟨_, _, _⟩ := shaped.stacked.block isModule isStart
  refine ⟨by omega, ?_⟩
  intro x from_ to_
  exact ⟨by omega, by omega, placed.block x (by omega) (by omega)⟩

end

lemma Filled.congr (filled : Filled program s user master starts thread)
    (placed : Placed program s user master thread)
    (shaped : Shaped program s.template master starts) (sameTemplate : t.template = s.template)
    (moreModules : ∀ (number handle : Nat), s.tlsModules[number]? = some handle →
      t.tlsModules[number]? = some handle)
    (keeps : ∀ x use, user x = .thread thread.self use → other x = user x ∧ t.memory x =
      s.memory x) :
    Filled program t other master starts thread where
  first := by
    rw [sameTemplate]
    exact filled.first
  copies := by
    intro i handle start isModule hs
    rw [sameTemplate] at isModule
    apply (filled.copies i handle start isModule hs).congr
    intro x low high
    have range := (placed.copyRange shaped isModule hs).2 x low high
    exact (keeps x .block range.2.2).2
  late := by
    intro number base hl hb
    rw [sameTemplate] at hl
    obtain ⟨handle, block⟩ := filled.late number base hl hb
    refine ⟨handle, moreModules number handle block.isModule, block.aligned, ?_, ?_⟩
    · apply block.holds.congr
      intro x low high
      exact (keeps x _ (block.range x low high)).2
    intro x low high
    rw [(keeps x _ (block.range x low high)).1]
    exact block.range x low high

namespace Sane

lemma congr (sane : Sane program s user master starts)
    (sameTemplate : t.template = s.template) (sameThreads : t.threadPtrs = s.threadPtrs)
    (sameInactive : t.inactiveThreads = s.inactiveThreads) (page : 4096 ∣ t.extent)
    (grows : s.extent ≤ t.extent)
    (moreModules : ∀ (number handle : Nat), s.tlsModules[number]? = some handle →
      t.tlsModules[number]? = some handle) (behind : ∀ x, t.extent ≤ x → other x = .none)
    (keepsUsers : ∀ x, user x ≠ .none → other x = user x)
    (keepsBytes : ∀ x, user x = .template ∨
      (∃ (id : Nat) (thread : Thread) (use : Use), s.Live id thread ∧
        user x = .thread thread.self use) → t.memory x = s.memory x) :
    Sane program t other master starts where
  shaped := by
    rw [sameTemplate]
    exact sane.shaped
  page := page
  behind := behind
  below := by
    rw [sameTemplate]
    exact le_trans sane.below grows
  template := by
    intro x low high
    rw [sameTemplate] at high
    have hte := sane.template x low high
    rw [keepsUsers x (by rw [hte]; exact User.noConfusion), hte]
  images := by
    intro i handle start isModule hs
    rw [sameTemplate] at isModule
    obtain ⟨_, low, high⟩ := sane.shaped.stacked.block isModule hs
    apply (sane.images i handle start isModule hs).congr
    intro x from_ to_
    have fits : start + (program.image handle).length ≤ master + s.template.tlsSize := high
    exact keepsBytes x (.inl (sane.template x (by omega) (by omega)))
  known := by
    rw [sameTemplate]
    by_contra hsh
    have hin : t.tlsModules.length < s.tlsModules.length := lt_of_lt_of_le (by omega) sane.known
    have found := moreModules t.tlsModules.length _ (getElem?_eq_getElem hin)
    rw [getElem?_eq_none le_rfl] at found
    cases found
  placed := by
    intro id thread ht
    rw [sameThreads] at ht
    apply (sane.placed id thread ht).congr sameTemplate
    intro x use hu
    exact keepsUsers x (by rw [hu]; exact User.noConfusion)
  filled := by
    intro id thread ht
    rw [sameThreads] at ht
    apply (sane.filled id thread ht).congr (sane.placed id thread ht) sane.shaped sameTemplate
      moreModules
    intro x use hu
    exact ⟨keepsUsers x (by rw [hu]; exact User.noConfusion),
      keepsBytes x (.inr ⟨id, thread, use, ht, hu⟩)⟩
  inactive := by
    intro thread hina
    rw [sameInactive] at hina
    apply (sane.inactive thread hina).congr sameTemplate
    intro x use hu
    exact keepsUsers x (by rw [hu]; exact User.noConfusion)
  distinct := by
    rw [sameThreads]
    exact sane.distinct
  inactiveNodup := by
    rw [sameInactive]
    exact sane.inactiveNodup
  apart := by
    rw [sameThreads, sameInactive]
    exact sane.apart

section

variable (sane : Sane program s user master starts)

include sane

lemma shiftExtent (amount : Nat) : Sane program (s.shiftExtent amount) user master starts := by
  have grows := le_shiftExtent s amount
  have same := shiftExtent_eq (s := s) amount
  have bytes : ∀ x, user x ≠ .none → (s.shiftExtent amount).memory x = s.memory x := by
    intro x used
    apply shiftExtent_memory
    by_contra above
    exact used (sane.behind x (by omega))
  refine sane.congr ?_ ?_ ?_ (dvd_shiftExtent sane.page amount)
    (by omega) ?_ ?_ (fun _ _ => rfl) ?_
  · rw [same]
  · rw [same]
  · rw [same]
  · rw [same]
    exact fun _ _ found => found
  · intro x above
    exact sane.behind x (by omega)
  rintro x (ht | ⟨_, _, _, _, hu⟩)
  · exact bytes x (by rw [ht]; exact User.noConfusion)
  · exact bytes x (by rw [hu]; exact User.noConfusion)

lemma mark (inside : high ≤ s.extent)
    (unused : ∀ x, low ≤ x → x < high → user x = .none) (new : User) :
    Sane program s (Tls.mark user low high new) master starts := by
  refine sane.congr rfl rfl rfl sane.page le_rfl
    (fun _ _ found => found) ?_ ?_ (fun _ _ => rfl)
  · intro x above
    rw [mark_outside (.inr (by omega))]
    exact sane.behind x above
  intro x used
  exact mark_used unused used

lemma write (memory : Memory)
    (keeps : ∀ x, user x = .template ∨
      (∃ (id : Nat) (thread : Thread) (use : Use), s.Live id thread ∧
        user x = .thread thread.self use) → memory x = s.memory x) :
    Sane program { s with memory := memory } user master starts :=
  sane.congr rfl rfl rfl sane.page le_rfl (fun _ _ found => found)
    sane.behind (fun _ _ => rfl) keeps

end

lemma setThread (sane : Sane program s user master starts) {id : Nat}
    (inside : id ≤ s.threadPtrs.length) (placed : Placed program s user master thread)
    (filled : Filled program s user master starts thread)
    (isNew : ∀ (other : Nat) (otherThread : Thread),
      s.Live other otherThread → otherThread.self = thread.self → other = id)
    (notInactive : thread.self ∉ s.inactiveThreads.map Thread.self) :
    Sane program (s.setThread id (some thread)) user master starts := by
  have hl : ∀ (other : Nat) (found : Thread),
      (s.setThread id (some thread)).threadPtrs[other]? = some (some found) →
      (other = id ∧ found = thread) ∨ (other ≠ id ∧ s.Live other found) := by
    intro other found hfo
    rw [setThread_getElem? inside] at hfo
    by_cases same : other = id
    · rw [if_pos same] at hfo
      cases hfo
      exact .inl ⟨same, rfl⟩
    rw [if_neg same] at hfo
    exact .inr ⟨same, hfo⟩
  refine { sane with
    placed := ?placed, filled := ?filled, inactive := ?inactive, distinct := ?distinct
    apart := ?apart }
  case inactive =>
      intro other hina
      exact (sane.inactive other hina).congr rfl (fun _ _ _ => rfl)
  case placed =>
      intro other found hfo
      rcases hl other found hfo with ⟨_, ht⟩ | ⟨_, isOld⟩
      · rw [ht]
        exact placed.congr rfl (fun _ _ _ => rfl)
      · exact (sane.placed other found isOld).congr rfl (fun _ _ _ => rfl)
  case filled =>
      intro other found hfo
      rcases hl other found hfo with ⟨_, ht⟩ | ⟨_, isOld⟩
      · rw [ht]
        exact filled.congr placed sane.shaped rfl (fun _ _ found => found) (fun _ _ _ => ⟨rfl, rfl⟩)
      exact (sane.filled other found isOld).congr (sane.placed other found isOld) sane.shaped rfl
        (fun _ _ found => found) (fun _ _ _ => ⟨rfl, rfl⟩)
  case distinct =>
      intro first second firstThread secondThread hf hs hss
      rcases hl first firstThread hf with
        ⟨hfi, ht⟩ | ⟨hnf, firstOld⟩
      · rcases hl second secondThread hs with
          ⟨hsi, _⟩ | ⟨hns, secondOld⟩
        · rw [hfi, hsi]
        rw [ht] at hss
        exact absurd (isNew second secondThread secondOld hss.symm) hns
      rcases hl second secondThread hs with
        ⟨_, ht⟩ | ⟨_, secondOld⟩
      · rw [ht] at hss
        exact absurd (isNew first firstThread firstOld hss) hnf
      · exact sane.distinct first second firstThread secondThread firstOld secondOld hss
  case apart =>
      intro other found hfo
      rcases hl other found hfo with ⟨_, ht⟩ | ⟨_, isOld⟩
      · rw [ht]
        exact notInactive
      · exact sane.apart other found isOld

end Sane

namespace TlsState

lemma instantiate_length (baseOffsets : List Nat) (self : Nat) :
    (instantiate baseOffsets self).length = baseOffsets.length := by
  cases baseOffsets with
  | nil => rfl
  | cons _ _ => rw [instantiate, length_cons, length_map, length_cons]

variable {start self stackBase : Nat} {source : Option Thread}

lemma copyTemplate_outside
    (outside : s.template.tlsMaster ≠ none → x < start ∨ start + s.template.tlsSize ≤ x) :
    s.copyTemplate start x = s.memory x := by
  unfold copyTemplate
  cases hm : s.template.tlsMaster with
  | none => rfl
  | some tlsMaster =>
    apply copy_outside
    apply outside
    rw [hm]
    exact Option.some_ne_none tlsMaster

variable {memory : Memory}

lemma writeRecord_outside (outside : x < self ∨ self + program.threadSize ≤ x) :
    writeRecord program memory self x = memory x := by
  apply store_outside
  rw [length_map, length_range]
  exact outside

lemma copyStack_outside
    (outside : ∀ thread, source = some thread → x < stackBase ∨ stackBase + thread.stackSize ≤ x) :
    copyStack memory stackBase source x = memory x := by
  cases source with
  | none => rfl
  | some thread => exact copy_outside (outside thread rfl)

end TlsState

variable {source : Option Thread} {start id self stackBase stackSize : Nat}
  (sane : Sane program s user master starts)

include sane

lemma Sane.copies (placed : Placed program s user master thread)
    (smaller : ∀ other, source = some other → other.stackSize ≤ thread.stackSize) {i handle : Nat}
    (isModule : s.template.assembled[i]? = some handle) (isStart : starts[i]? = some start) :
    Holds (copyStack (writeRecord program (s.copyTemplate thread.tlsStart)
          thread.self) thread.stackBase source)
      (thread.tlsStart + (start - master)) (program.image handle) := by
  have hma := sane.shaped.master_ne_none isModule
  obtain ⟨_, low, high⟩ := sane.shaped.stacked.block isModule isStart
  have hc : Holds (s.copyTemplate thread.tlsStart)
      (thread.tlsStart + (start - master)) (program.image handle) := by
    simp only [copyTemplate, hma]
    exact (sane.images i handle start isModule isStart).copy low high
  apply hc.congr
  intro x from_ to_
  obtain ⟨_, below, hbl⟩ := (placed.copyRange sane.shaped isModule isStart).2 x from_ to_
  rw [copyStack_outside, writeRecord_outside (.inl below)]
  intro other ho
  have hnl := smaller other ho
  by_contra hin
  have hst := placed.stack x (by omega) (by omega)
  rw [hbl] at hst
  cases hst

lemma Sane.makeThread (placed : Placed program s user master ⟨self, start, stackBase, stackSize,
        instantiate s.template.baseOffsets self⟩)
    (smaller : ∀ other, source = some other → other.stackSize ≤ stackSize)
    (inside : id ≤ s.threadPtrs.length)
    (notLive : ∀ (other : Nat) (thread : Thread), s.Live other thread → thread.self ≠ self)
    (notInactive : self ∉ s.inactiveThreads.map Thread.self) :
    Sane program (s.makeThread program id start self stackBase stackSize source)
      user master starts := by
  have own : ∀ x, copyStack
      (writeRecord program (s.copyTemplate start) self) stackBase
        source x ≠ s.memory x → ∃ use, user x = .thread self use := by
    intro x hc
    by_contra hno
    apply hc
    rw [copyStack_outside, writeRecord_outside, copyTemplate_outside]
    · intro hso
      have hse : self = start + s.template.tlsSize := (placed.start hso).1
      by_contra hwi
      exact hno ⟨.block, placed.block x (by dsimp only; omega) (by dsimp only; omega)⟩
    · by_contra hwi
      exact hno ⟨.block, placed.block x (by dsimp only; omega) (by dsimp only; omega)⟩
    intro other ho
    have hh := smaller other ho
    by_contra hwi
    exact hno ⟨.stack, placed.stack x (by dsimp only; omega) (by dsimp only; omega)⟩
  have hw := sane.write (copyStack
      (writeRecord program (s.copyTemplate start) self) stackBase source) (by
      intro x inUse
      by_contra hc
      obtain ⟨use, isOwn⟩ := own x hc
      rcases inUse with hte | ⟨other, thread, _, ht, hu⟩
      · rw [hte] at isOwn
        cases isOwn
      rw [hu] at isOwn
      cases isOwn
      exact notLive other thread ht rfl)
  apply hw.setThread inside (placed.congr rfl (fun _ _ _ => rfl)) ?_
    (fun other thread ht same => absurd same (notLive other thread ht)) notInactive
  exact
    { first := fun _ _ => rfl
      copies := fun i _ start hm hst => sane.copies placed smaller hm hst
      late := by
        intro _ _ hl isBase
        rw [getElem?_eq_none (by rw [instantiate_length]; exact hl)] at isBase
        cases isBase }

lemma Sane.makeNewThread
    (isStart : s.template.tlsMaster ≠ none → self = start + s.template.tlsSize ∧ master ≤ start)
    (blockInside : self + program.threadSize ≤ s.extent)
    (blockUnused : ∀ x, self ≤ x + s.template.tlsSize → x < self + program.threadSize → user x =
      .none)
    (stackInside : stackBase + stackSize ≤ s.extent)
    (stackUnused : ∀ x, stackBase ≤ x → x < stackBase + stackSize → user x = .none ∧
        (x + s.template.tlsSize < self ∨ self + program.threadSize ≤ x))
    (smaller : ∀ other, source = some other → other.stackSize ≤ stackSize)
    (inside : id ≤ s.threadPtrs.length) :
    ∃ user', Sane program (s.makeThread program id start self stackBase stackSize source) user'
      master starts := by
  have hno : ∀ thread : Thread, Placed program s user master thread → thread.self ≠ self := by
    intro thread hpl same
    have hu := hpl.block thread.self (by omega) (by have pos := program.threadPositive; omega)
    have pos := program.threadPositive
    rw [blockUnused thread.self (by omega) (by omega)] at hu
    cases hu
  have hbm : Sane program s (Tls.mark user (self - s.template.tlsSize) (self + program.threadSize)
          (.thread self .block)) master starts := sane.mark blockInside
      (fun x low high => blockUnused x (by omega) high) _
  have hsma := hbm.mark stackInside (by
      intro x low high
      obtain ⟨hun, ho⟩ := stackUnused x low high
      rw [mark_outside (by omega)]
      exact hun)
    (.thread self .stack)
  refine ⟨_, hsma.makeThread ?_ smaller inside ?_ ?_⟩
  · constructor
    · exact isStart
    · intro x low high
      dsimp only at low high ⊢
      rw [mark_outside, mark_inside (by omega) high]
      by_contra hw
      have ho := (stackUnused x (by omega) (by omega)).2
      omega
    intro x low high
    exact mark_inside low high
  · intro other thread ht
    exact hno thread (sane.placed other thread ht)
  intro hh
  obtain ⟨thread, hm, same⟩ := mem_map.mp hh
  exact hno thread (sane.inactive thread hm) same

end OoOS.Sched.Tls
