import Mathlib.Data.Nat.Bits
import OoOS.Sched.Signals

/-!
# Blocked and pending signals

`kill_one` tests the mask with an operation that complements the bit it tests and
answers for the whole byte; `sigret` takes the one-based position of the lowest
pending bit for a signal number.
-/

namespace OoOS.Sched.Signals

open List Option Lib Le64 BitVec BitOp SignalTask

def Le64.bit : Le64 → Nat → Bool :=
  Half.bit 32 (Half.bit 16 (Half.bit 8 fun (full : U8) n => full.getLsbD n))

variable {n : Nat}

lemma getLsbD_shiftedOne {i : Nat} (iBound : i < 8) (nBound : n < 8) :
    (shiftedOne i).getLsbD n = decide (n = i) :=
  (show ∀ i < 8, ∀ n < 8, (shiftedOne (i : Nat)).getLsbD n = decide (n = i) by decide) i iBound n
    nBound

lemma getLsbD_store (op : BitOp) (full : U8) {i : Nat} (iBound : i < 8) (nBound : n < 8) :
    (op.store full (shiftedOne i)).getLsbD n =
      if n = i then op.change (full.getLsbD n) else full.getLsbD n := by
  have one := getLsbD_shiftedOne iBound nBound
  cases op with
  | bts =>
    unfold store change
    rw [getLsbD_or, one]
    by_cases same : n = i <;> simp [same]
  | btr =>
    unfold store change
    rw [getLsbD_and, getLsbD_not, one]
    by_cases same : n = i <;> simp [same, nBound]
  | btc =>
    unfold store change
    rw [getLsbD_xor, one]
    by_cases same : n = i <;> simp [same]

lemma ne_zero_iff_getLsbD {width : Nat} (value : BitVec width) :
    value ≠ 0 ↔ ∃ n, value.getLsbD n = true := by
  constructor
  · intro hnz
    by_contra hac
    apply hnz
    apply eq_of_getLsbD_eq
    intro n _
    by_contra hd
    apply hac
    exact ⟨n, by simpa using hd⟩
  rintro ⟨n, isSet⟩ hz
  rw [hz] at isSet
  simp at isSet

lemma updates_u8 (op : BitOp) :
    Updates 8 (fun (full : U8) n => full.getLsbD n) op.change (U8.update op) := by
  constructor
  · intro full i n hib hnb
    exact getLsbD_store op full hib hnb
  intro full i hib
  unfold U8.update
  rw [decide_eq_true_iff, ne_zero_iff_getLsbD]
  constructor
  · rintro ⟨n, isSet⟩
    have bound : n < 8 := lt_of_getLsbD isSet
    exact ⟨n, bound, by omega, isSet⟩
  rintro ⟨n, _, _, isSet⟩
  exact ⟨n, isSet⟩

lemma updates_le64 (op : BitOp) : Updates 64 bit op.change (update op) :=
  (((updates_u8 op).half (by decide)).half (by decide)).half (by decide)

lemma Le16.getLsbD_value (word : Le16) (n : Nat) :
    (Le16.value word).getLsbD n = Half.bit 8 (fun (full : U8) n => full.getLsbD n) word n := by
  exact getLsbD_append

lemma Le32.getLsbD_value (word : Le32) (n : Nat) : (Le32.value word).getLsbD n =
    Half.bit 16 (Half.bit 8 fun (full : U8) n => full.getLsbD n) word n := by
  unfold Le32.value Half.bit
  rw [getLsbD_append, Le16.getLsbD_value, Le16.getLsbD_value]
  rfl

lemma Le64.getLsbD_value (word : Le64) (n : Nat) : (value word).getLsbD n = word.bit n := by
  unfold value bit Half.bit
  rw [getLsbD_append, Le32.getLsbD_value, Le32.getLsbD_value]
  rfl

lemma Le64.bit_lt {word : Le64} (isSet : word.bit n = true) : n < 64 := by
  rw [← getLsbD_value] at isSet
  exact lt_of_getLsbD isSet

lemma Le64.value_ne_zero_iff (word : Le64) : value word ≠ 0 ↔ ∃ n, word.bit n = true := by
  rw [ne_zero_iff_getLsbD]
  simp [getLsbD_value]

def IsLowest (bits : Nat → Bool) (n : Nat) : Prop := bits n = true ∧ ∀ k < n, bits k = false

lemma ffsl_value {word : Le64} (lowest : IsLowest word.bit n) :
    ffsl (value word) = n + 1 := by
  have bound := bit_lt lowest.1
  have found : (range 64).find? (fun k => (value word).getLsbD k) = some n := by
    rw [find?_range_eq_some]
    simp only [getLsbD_value]
    refine ⟨lowest.1, mem_range.mpr bound, ?_⟩
    intro k below
    rw [lowest.2 k below]
    rfl
  unfold ffsl
  rw [found]

lemma exists_isLowest {bits : Nat → Bool} (isSet : bits n = true) :
    ∃ k, IsLowest bits k := by
  have some_ : ∃ k, bits k = true := ⟨n, isSet⟩
  refine ⟨Nat.find some_, Nat.find_spec some_, ?_⟩
  intro k below
  simpa using Nat.find_min some_ below

variable {signal : Nat}

lemma slot_of_lt (bound : signal < numSignals) : slot (signal : Nat) = some ⟨signal, bound⟩ := by
  unfold slot
  rw [dif_pos ⟨by omega, by simpa using bound⟩]
  rfl

namespace SignalTask

variable {env : SignalEnv} (task : SignalTask) {sig : Int} {after : SignalTask}

lemma blockedSignals_setSignal {saveFirst : Bool}
    (set : task.setSignal env sig saveFirst = some after) :
    after.blockedSignals = task.blockedSignals := by
  obtain ⟨_, _, rfl⟩ := map_eq_some_iff.mp set
  split
  · rfl
  split <;> rfl

lemma blockedSignals_deliver
    (delivered : task.deliver env sig = some after) :
    after.blockedSignals = task.blockedSignals := by
  obtain ⟨_, _, set⟩ := bind_eq_some_iff.mp delivered
  have kept := blockedSignals_setSignal _ set
  exact kept

lemma deliver_isSome (env : SignalEnv) (bound : signal < numSignals) :
    (task.deliver env (signal : Nat)).isSome := by
  unfold deliver setSignal
  rw [slot_of_lt bound]
  rfl

lemma killOne_spec (env : SignalEnv) (bound : signal < numSignals) :
    ∃ result, task.killOne env (signal : Nat) false = some result ∧ result.2.blockedSignals =
        (update .btc task.blockedSignals (signal : Nat)).2 ∧ (result.1 = true ↔
        (update .btc task.blockedSignals (signal : Nat)).1 = false) := by
  unfold killOne
  dsimp only
  cases tested : (update .btc task.blockedSignals (signal : Nat)).1 with
  | true =>
    exact ⟨_, rfl, rfl, by simp⟩
  | false =>
    obtain ⟨_, delivered⟩ := isSome_iff_exists.mp (deliver_isSome { task with
          blockedSignals :=
            (update .btc task.blockedSignals (signal : Nat)).2 }
        env bound)
    rw [delivered]
    exact ⟨_, rfl, blockedSignals_deliver _ delivered, by simp⟩

def oddTimes (signals : List (Fin numSignals)) (n : Nat) : Bool :=
  (signals.countP fun signal => n = signal.val).bodd

/-- The task after unforced signals, one after the other. -/
def kills (env : SignalEnv) (signals : List (Fin numSignals)) : Option SignalTask :=
  signals.foldlM (fun task signal => (task.killOne env (signal.val : Nat) false).map Prod.snd) task

lemma bit_kills (env : SignalEnv) (signals : List (Fin numSignals)) :
    ∃ after, task.kills env signals = some after ∧ ∀ n < numSignals,
      after.blockedSignals.bit n = (task.blockedSignals.bit n ^^ oddTimes signals n) := by
  induction signals generalizing task with
  | nil => exact ⟨task, rfl, fun _ _ => by simp [oddTimes]⟩
  | cons signal signals ih =>
    obtain ⟨result, hk, hm, _⟩ := task.killOne_spec env signal.isLt
    obtain ⟨after, ran, hb⟩ := ih result.2
    refine ⟨after, ?_, fun n hn => ?_⟩
    · rw [kills, foldlM_cons, hk]
      exact ran
    rw [hb n hn, hm, (updates_le64 .btc).bit _ _ n signal.isLt hn, oddTimes, oddTimes, countP_cons]
    by_cases hs : n = signal.val
    · simp [hs, change]
    · simp [hs]

/-- Every signal complements its bit of the mask: the next one is delivered just
if in its byte the signals blocked at first are those sent an odd number of
times. -/
theorem kills_starts_iff (env : SignalEnv) (task : SignalTask)
    (signals : List (Fin numSignals)) (signal : Fin numSignals) :
    ∃ after result, task.kills env signals = some after ∧
      after.killOne env (signal.val : Nat) false = some result ∧ (result.1 = true ↔
        ∀ n, n / 8 = signal.val / 8 → task.blockedSignals.bit n = oddTimes signals n) := by
  obtain ⟨after, ran, hb⟩ := task.bit_kills env signals
  obtain ⟨result, hk, _, hs⟩ := after.killOne_spec env signal.isLt
  refine ⟨after, result, ran, hk, hs.trans ?_⟩
  have small : signal.val < 64 := signal.isLt
  rw [← Bool.not_eq_true, (updates_le64 .btc).result _ _ small]
  push Not
  refine forall_congr' fun n => ⟨fun hc hn => ?_, fun hc hlt hn => ?_⟩
  · have hlt : n < 64 := by omega
    rw [← bne_eq_false_iff_eq, ← Bool.not_eq_true]
    exact fun hx => hc hlt hn ((hb n hlt).trans hx)
  · rw [hb n hlt, hc hn, Bool.xor_self]
    exact Bool.false_ne_true

lemma update_btc_ne (mask : Le64) (bound : signal < numSignals) :
    (update .btc mask (signal : Nat)).2 ≠ mask := by
  intro same
  have hf := (updates_le64 .btc).bit mask signal signal bound bound
  rw [same, if_pos rfl] at hf
  cases isSet : mask.bit signal <;> rw [isSet] at hf <;> cases hf

def others (n : Nat) : Bool := task.pendingSignals.bit n && n ≠ task.activeSignal.val

lemma endedSignal_spec :
    ((∃ ended, task.endedSignal = some ended) ↔ ∃ n, n / 8 = task.activeSignal.val / 8 ∧
        task.pendingSignals.bit n = true) ∧
    ∀ ended, task.endedSignal = some ended → (∀ n, ended.pendingSignals.bit n = task.others n) ∧
        ended.signalHandlers = task.signalHandlers := by
  have reset := updates_le64 .btr
  have bound := task.activeSignal.isLt
  have byte := reset.result task.pendingSignals task.activeSignal.val bound
  constructor
  · unfold endedSignal
    dsimp only
    constructor
    · rintro ⟨ended, he⟩
      split at he
      · rename_i tested
        obtain ⟨n, _, hsb, isSet⟩ := byte.mp tested
        exact ⟨n, hsb, isSet⟩
      · cases he
    rintro ⟨n, hsb, isSet⟩
    rw [if_pos (byte.mpr ⟨n, bit_lt isSet, hsb, isSet⟩)]
    exact ⟨_, rfl⟩
  intro ended he
  unfold endedSignal at he
  dsimp only at he
  split at he
  · cases he
    refine ⟨?_, rfl⟩
    intro n
    change bit (update .btr task.pendingSignals (task.activeSignal : Nat)).2 n = _
    unfold others
    by_cases hnb : n < 64
    · rw [reset.bit _ _ _ bound hnb]
      by_cases same : n = task.activeSignal.val <;>
        simp [same, change]
    have ho (word : Le64) : word.bit n = false := by
      by_contra isSet
      exact hnb (bit_lt (by simpa using isSet))
    rw [ho, ho]
    rfl
  · cases he

/-- What `sigret` activates next is pending, or is dropped as ignored. -/
def NextPending (task : SignalTask) : Prop :=
  ∀ ended, task.endedSignal = some ended → ended.pendingSignals.value ≠ 0 →
    (∀ signal, slot (ffsl ended.pendingSignals.value : Nat) = some signal →
      ended.ignores signal = false) →
    ended.pendingSignals.bit (ffsl ended.pendingSignals.value) = true

/-- The lowest of the other pending signals is followed by a pending one, or by
one that is ignored. -/
def NextAdjacent (task : SignalTask) : Prop :=
  (∃ n, n / 8 = task.activeSignal.val / 8 ∧ task.pendingSignals.bit n = true) →
  ∀ n, IsLowest task.others n → task.others (n + 1) = true ∨
      ∃ signal : Fin numSignals, signal.val = n + 1 ∧ task.ignores signal = true

/-- The next signal is found exactly if it is adjacent. -/
lemma nextPending_iff : task.NextPending ↔ task.NextAdjacent := by
  obtain ⟨ends, keeps⟩ := task.endedSignal_spec
  constructor
  · intro hpe hbs n lowest
    obtain ⟨ended, he⟩ := ends.mpr hbs
    obtain ⟨bits, handlers⟩ := keeps ended he
    have hsb : ended.pendingSignals.bit = task.others := funext bits
    have first := ffsl_value (by rw [hsb]; exact lowest)
    have hnz : ended.pendingSignals.value ≠ 0 :=
      (value_ne_zero_iff _).mpr ⟨n, by rw [hsb]; exact lowest.1⟩
    have ha := hpe ended he hnz
    rw [first, hsb] at ha
    by_contra hne
    apply hne
    left
    apply ha
    intro signal hs
    by_contra hig
    apply hne
    right
    refine ⟨signal, ?_, ?_⟩
    · unfold slot at hs
      split at hs
      · cases hs
        exact Int.toNat_natCast (n + 1)
      · cases hs
    unfold ignores at hig ⊢
    rw [handlers] at hig
    simpa using hig
  intro hh ended he hnz hni
  obtain ⟨bits, handlers⟩ := keeps ended he
  have hsb : ended.pendingSignals.bit = task.others := funext bits
  obtain ⟨k, isSet⟩ := (value_ne_zero_iff _).mp hnz
  obtain ⟨n, lowest⟩ := exists_isLowest isSet
  rw [ffsl_value lowest] at hni ⊢
  rw [hsb] at lowest ⊢
  rcases hh (ends.mp ⟨ended, he⟩) n lowest with
    hp | ⟨signal, hn, hig⟩
  · exact hp
  have hs : slot (n + 1 : Nat) = some signal := by
    rw [← hn]
    exact slot_of_lt signal.isLt
  have hd := hni signal hs
  unfold ignores at hd hig
  rw [handlers, hig] at hd
  cases hd

end SignalTask

def SignalCall.number : SignalCall → Option Int
  | .kill _ sig => some sig
  | .raise sig => some sig
  | _ => none

def SignalCall.accepted : SignalCall → Option Int
  | .kill _ sig => if numSignals < sig then none else some sig
  | .raise sig => if (numSignals : Int) < sig then none else some sig
  | .signal sig _ => some sig
  | _ => none

/-- The number of a call is below the length of the handler array. -/
def SignalCall.InRange : SignalCall → Prop
  | .kill _ sig => sig ≠ numSignals
  | .raise sig => 0 ≤ sig ∧ sig ≠ numSignals
  | .signal sig _ => 0 ≤ sig ∧ sig < numSignals
  | _ => True

lemma SignalCall.accepted_inside_iff (call : SignalCall) :
    (∀ sig, call.accepted = some sig → 0 ≤ sig ∧ sig < numSignals) ↔ call.InRange := by
  cases call with
  | sigprocmask _ _ _ => simp [accepted, InRange]
  | kill _ sig =>
    simp only [accepted, InRange]
    by_cases hr : numSignals < sig
    · simp [hr]
      omega
    simp only [if_neg hr, some.injEq, forall_eq']
    omega
  | raise sig =>
    simp only [accepted, InRange]
    by_cases hr : (numSignals : Int) < sig
    · simp only [if_pos hr, reduceCtorEq, false_implies, implies_true, true_iff]
      omega
    simp only [if_neg hr, some.injEq, forall_eq']
    omega
  | signal sig _ => simp [accepted, InRange]
  | sigret => simp [accepted, InRange]

namespace System

variable (env : SignalEnv) (system : System)

def targets : SignalCall → List Nat
  | .kill pid sig =>
    if numSignals < sig then []
    else if pid < 0 then system.pids.filter system.checkKill
    else if pid.toNat ∉ system.pids then []
    else if ¬ system.checkKill pid.toNat then []
    else if sig ≠ 0 then [pid.toNat]
    else []
  | .raise sig =>
    if (numSignals : Int) < sig then [] else [system.active]
  | _ => []

lemma nodup_targets (call : SignalCall) : (system.targets call).Nodup := by
  unfold targets
  cases call with
  | kill _ sig =>
    repeat' split
    all_goals first
      | exact nodup_nil
      | exact system.nodup.filter _
      | exact nodup_singleton _
  | raise sig =>
    dsimp only
    split
    · exact nodup_nil
    · exact nodup_singleton _
  | sigprocmask _ _ _ => exact nodup_nil
  | signal sig _ => exact nodup_nil
  | sigret => exact nodup_nil

lemma killEach_singleton (sig : Int) (pid : Nat) :
    killEach env sig [pid] system = system.killAt env pid sig := by
  unfold killEach
  cases system.killAt env pid sig with
  | none => rfl
  | some _ => rfl

variable {call : SignalCall}

lemma call_eq_killEach {sig : Int} (sends : call.number = some sig) :
    ∃ code, system.call env call = (killEach env sig (system.targets call) system).map
        fun after => (code, after) := by
  cases call with
  | kill _ signal =>
    cases sends
    unfold System.call syscallKill targets
    dsimp only
    repeat' split
    · exact ⟨_, rfl⟩
    · exact ⟨_, rfl⟩
    · exact ⟨_, rfl⟩
    · exact ⟨_, rfl⟩
    · rw [killEach_singleton]
      exact ⟨_, rfl⟩
    · exact ⟨_, rfl⟩
  | raise signal =>
    cases sends
    unfold System.call syscallRaise targets
    dsimp only
    split
    · exact ⟨_, rfl⟩
    rw [killEach_singleton]
    exact ⟨_, rfl⟩
  | sigprocmask _ _ _ => cases sends
  | signal signal _ => cases sends
  | sigret => cases sends

lemma killEach_spec (bound : signal < numSignals) {pids : List Nat} (nodup : pids.Nodup) :
    ∃ after, killEach env (signal : Nat) pids system = some after ∧
      ∀ pid, (after.task pid).blockedSignals = if pid ∈ pids then
          (update .btc (system.task pid).blockedSignals (signal : Nat)).2
        else (system.task pid).blockedSignals := by
  induction pids generalizing system with
  | nil => exact ⟨system, rfl, fun pid => by simp⟩
  | cons first _ ih =>
    obtain ⟨hnl, hrn⟩ := nodup_cons.mp nodup
    obtain ⟨result, hk, mask, _⟩ := (system.task first).killOne_spec env bound
    obtain ⟨after, hkr, masks⟩ := ih (system.setTask first result.2) hrn
    refine ⟨after, ?_, ?_⟩
    · unfold killEach killAt
      rw [hk]
      exact hkr
    intro pid
    rw [masks]
    by_cases hf : pid = first
    · subst hf
      rw [if_neg hnl, if_pos mem_cons_self]
      unfold setTask
      dsimp only
      rw [if_pos rfl]
      exact mask
    have hst : (system.setTask first result.2).task pid = system.task pid := if_neg hf
    rw [hst]
    simp [mem_cons, hf, false_or]

structure Obeys (call : SignalCall) : Prop where
  indexed : ∀ sig, call.accepted = some sig → 0 ≤ sig ∧ sig < numSignals
  maskKept : (∀ how set oset, call ≠ .sigprocmask how set oset) →
    ∀ result, system.call env call = some result → ∀ pid,
      (result.2.task pid).blockedSignals = (system.task pid).blockedSignals
  delivered : ∀ sig, call.number = some sig → ∀ target ∈ system.targets call, ∀ result,
      (system.task target).killOne env sig false = some result →
      (result.1 = true ↔ (system.task target).blockedSignals.bit sig.toNat = false)
  nextPending : call = .sigret → (system.task system.active).NextPending

/-- The number is in the array, no task gets a signal, and `sigret` finds adjacent
pending signals. -/
structure Fits (call : SignalCall) : Prop where
  inRange : call.InRange
  noTarget : system.targets call = []
  adjacent : call = .sigret → (system.task system.active).NextAdjacent

variable {env system}

/-- A call that obeys has no target. -/
lemma Obeys.noTarget (obeys : Obeys env system call) : system.targets call = [] := by
  by_contra hre
  obtain ⟨target, ht⟩ := exists_mem_of_ne_nil _ hre
  have sends : ∃ sig, call.number = some sig ∧ call.accepted = some sig := by
    cases call with
    | kill _ sig =>
      refine ⟨sig, rfl, if_neg ?_⟩
      intro hr
      rw [targets, if_pos hr] at ht
      cases ht
    | raise sig =>
      refine ⟨sig, rfl, if_neg ?_⟩
      intro hr
      rw [targets, if_pos hr] at ht
      cases ht
    | sigprocmask how set oset => cases ht
    | signal sig _ => cases ht
    | sigret => cases ht
  obtain ⟨sig, hn, ha⟩ := sends
  obtain ⟨hno, bound⟩ := obeys.indexed sig ha
  obtain ⟨signal, rfl⟩ := Int.eq_ofNat_of_zero_le hno
  have hin : signal < numSignals := by omega
  obtain ⟨_, hc⟩ := call_eq_killEach env system hn
  obtain ⟨_, hk, masks⟩ := killEach_spec env system hin (system.nodup_targets call)
  rw [hk] at hc
  have hnm (how : SigprocmaskAction) (set : Option Le64)
      (oset : OldMask) : call ≠ .sigprocmask how set oset := by
    rintro rfl
    cases hn
  have kept := obeys.maskKept hnm _ hc target
  have hf := masks target
  rw [if_pos ht] at hf
  exact update_btc_ne _ hin (hf.symm.trans kept)

/-- Only `sigprocmask` changes the mask. -/
lemma Fits.maskKept (fits : Fits system call)
    (notMask : ∀ how set oset, call ≠ .sigprocmask how set oset)
    {result : Int × System} (isCall : system.call env call = some result) (pid : Nat) :
    (result.2.task pid).blockedSignals = (system.task pid).blockedSignals := by
  have setTask_kept {after : SignalTask} (same : after.blockedSignals =
        (system.task system.active).blockedSignals) :
      ((system.setTask system.active after).task pid).blockedSignals =
        (system.task pid).blockedSignals := by
    unfold setTask
    dsimp only
    split
    · rename_i isActive
      rw [isActive]
      exact same
    · rfl
  have hu {sig : Int} (isNumber : call.number = some sig) : result.2 = system := by
    obtain ⟨_, hak⟩ := call_eq_killEach env system isNumber
    rw [hak, fits.noTarget] at isCall
    cases isCall
    rfl
  cases call with
  | kill pid sig => rw [hu rfl]
  | raise sig => rw [hu rfl]
  | sigprocmask how set oset => exact absurd rfl (notMask how set oset)
  | signal sig _ =>
    obtain ⟨signal, _, rfl⟩ := map_eq_some_iff.mp isCall
    exact setTask_kept rfl
  | sigret =>
    have step : system.syscallSigret env = some result := isCall
    unfold syscallSigret at step
    cases ends : (system.task system.active).endedSignal with
    | none =>
      rw [ends] at step
      cases step
      exact setTask_kept rfl
    | some ended =>
      rw [ends] at step
      have same : ended.blockedSignals = (system.task system.active).blockedSignals := by
        unfold endedSignal at ends
        dsimp only at ends
        split at ends
        · cases ends
          rfl
        · cases ends
      dsimp only at step
      split at step
      · obtain ⟨after, set, rfl⟩ := map_eq_some_iff.mp step
        exact setTask_kept ((blockedSignals_setSignal _ set).trans same)
      cases step
      exact setTask_kept same

lemma obeys_iff_fits (call : SignalCall) : Obeys env system call ↔ Fits system call := by
  constructor
  · intro obeys
    constructor
    · exact call.accepted_inside_iff.mp obeys.indexed
    · exact obeys.noTarget
    intro hs
    exact (nextPending_iff _).mp (obeys.nextPending hs)
  intro fits
  constructor
  · exact call.accepted_inside_iff.mpr fits.inRange
  · intro hnm _ hc pid
    exact fits.maskKept hnm hc pid
  · intro _ _ _ ht
    rw [fits.noTarget] at ht
    cases ht
  intro hs
  exact (nextPending_iff _).mpr (fits.adjacent hs)

end System

/-- The calls of a sequence all do as expected exactly if each of them fits the
state in which it is made. -/
theorem signals_iff (env : SignalEnv) (system : System) (calls : List SignalCall) :
    (∀ step ∈ system.trace env calls, step.1.Obeys env step.2) ↔
      ∀ step ∈ system.trace env calls, step.1.Fits step.2 := by
  constructor
  · intro obeys step hs
    exact (System.obeys_iff_fits step.2).mp (obeys step hs)
  intro hf step hs
  exact (System.obeys_iff_fits step.2).mpr (hf step hs)

def zeroRegs : SavedRegs := ⟨0, 0, 0, 0, 0, 0, 0, 0⟩

def plainEnv : SignalEnv := ⟨id, 1, 2⟩

/-- A task with handlers for all signals, given its mask, its pending signals
and its active signal. -/
def taskWith (blocked pending : BitVec 64) (active : Fin 64) : SignalTask where
  parentPid := -1
  childTasks := []
  killed := false
  context := ⟨zeroRegs, 0, 0⟩
  stack := fun _ => 0
  sigretThread := 0
  blockedSignals := Le64.ofValue blocked
  pendingSignals := Le64.ofValue pending
  sigretFxsave := 0
  signalHandlers := fun _ => 100
  sigretFrame := zeroRegs
  activeSignal := active

def oneTask (task : SignalTask) : System where
  pids := [1]
  nodup := nodup_singleton 1
  task := fun _ => task
  active := 1

/-- A signal blocks itself, one is held back for another, one is activated that is
not pending, and 64 is accepted. -/
theorem not_obeys_signals : ¬ (oneTask (taskWith 0 0 0)).Obeys plainEnv (.raise 10) ∧
    ((oneTask (taskWith 0 0 0)).call plainEnv (.raise 10)).map (fun result =>
          (Le64.value (result.2.task 1).blockedSignals).getLsbD 10) =
      some true ∧ ((taskWith (1#64 <<< 9) 0 0).killOne plainEnv 10 false).map Prod.fst =
      some false ∧ ¬ (taskWith 0 ((1#64 <<< 5) ||| (1#64 <<< 7)) 5).NextPending ∧
    ((oneTask (taskWith 0 ((1#64 <<< 5) ||| (1#64 <<< 7)) 5)).call plainEnv
        .sigret).map (fun result => (result.2.task 1).activeSignal.val) =
      some 8 ∧ (SignalCall.kill 1 64).accepted = some 64 := by
  refine ⟨?_, by decide, by decide, ?_, by decide, by decide⟩
  · intro obeys
    have hr := obeys.noTarget
    cases hr
  rw [nextPending_iff]
  intro ha
  have hl : IsLowest (taskWith 0 ((1#64 <<< 5) ||| (1#64 <<< 7)) 5).others 7 := by
    constructor <;> decide
  rcases ha ⟨5, by decide, by decide⟩ 7 hl with
    isPending | ⟨signal, isNext, ignored⟩
  · exact absurd isPending (by decide)
  have he : signal = ⟨8, by decide⟩ := Fin.ext isNext
  rw [he] at ignored
  exact absurd ignored (by decide)

end OoOS.Sched.Signals
