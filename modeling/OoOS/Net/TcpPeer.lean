import Mathlib.Data.List.Forall2
import OoOS.Net.TcpPort

/-!
# Segments of the peer and of others

`next_receive_sequence` is never advanced once a connection is open: the first
segment with data is acknowledged with its own sequence number, and all later
ones are dropped.
-/

namespace OoOS.Net

open List Option Lib Libk

variable {env : TcpEnv} {h next : TcpPortHandler} {p : Packet} {outcome : TcpOutcome} {s : Nat}

lemma foldl_setFlag_outside {x : Nat} (outside : x ≠ 47) (flags : List TcpFlag) (bytes : Memory) :
    flags.foldl setFlag bytes x = bytes x := by
  induction flags generalizing bytes with
  | nil => rfl
  | cons _ flags ih =>
    rw [foldl_cons, ih]
    exact writeByte_outside outside

lemma ackNumber_fillHeader (p : Packet) (key optionSize window : Nat) :
    ackNumber (fillHeader h p key optionSize window).bytes =
      h.connectionInfo.nextReceiveSequence % 2 ^ 32 := by
  rw [ackNumber, fillHeader]
  dsimp only
  rw [← readBE32_same]
  apply readBE32_congr
  intro x _ _
  rw [writeBE16_outside (by omega), writeBE32_outside (by omega),
    writeBE16_outside (by omega), writeBE32_outside (by omega),
    writeByte_outside (by omega), writeBE16_outside (by omega)]

lemma txFlags_sent (env : TcpEnv) (h : TcpPortHandler) (flags : List TcpFlag) :
    ∃ sent, (txFlags env h flags).2.2 = [sent] ∧ ackNumber sent.bytes =
        h.connectionInfo.nextReceiveSequence % 2 ^ 32 := by
  let created := createPacket env h 0 0 16384
  let finished : Packet :=
    { created.1 with
      bytes := computeTcpChecksum (flags.foldl setFlag created.1.bytes) }
  refine ⟨ipv4Transmit env.config finished, ?_, ?_⟩
  · rw [txFlags, txSendNext]
    dsimp only [SequenceMap.put]
    rw [if_pos rfl]
  have isAck : ackNumber (ipv4Transmit env.config finished).bytes = ackNumber created.1.bytes := by
    apply readBE32_congr
    intro x _ _
    rw [ipv4Transmit_outside env.config _ (by omega)]
    dsimp only [finished, computeTcpChecksum]
    rw [writeBE16_outside (by omega), foldl_setFlag_outside (by omega)]
  rw [isAck]
  exact ackNumber_fillHeader _ _ _ _

/-- A segment does not come from the address and port of the connection. -/
def Stranger (h : TcpPortHandler) (p : Packet) : Prop :=
  sourceAddr p.bytes ≠ h.connectionInfo.remoteHost ∨
    sourcePort p.bytes ≠ h.connectionInfo.remotePort

/-- A segment changes nothing of the connection, and nothing is sent. -/
def Unaffected (env : TcpEnv) (h : TcpPortHandler) (p : Packet) : Prop :=
  ∃ result next, rxProcess env h p = some (result, next, []) ∧
    next.connectionState = h.connectionState ∧
    next.connectionInfo = h.connectionInfo ∧
    next.sendPackets = h.sendPackets ∧
    next.receivePackets = h.receivePackets ∧
    next.received = h.received

/-- The segments that get through in `SYN_RECEIVED`. -/
structure Intrudes (h : TcpPortHandler) (p : Packet) : Prop where
  state : h.connectionState = .synReceived
  notFinish : hasFlag p.bytes .finish = false
  sequence : sequenceNumber p.bytes = h.connectionInfo.nextReceiveSequence
  kind : hasFlag p.bytes .reset = true ∨ hasFlag p.bytes .ack = true ∧ hasFlag p.bytes .syn = true ∧
      (ackNumber p.bytes ≠ h.connectionInfo.nextSendSequence ∨
        h.connectionInfo.initialReceiveSequence = 0 ∨
        sequenceNumber p.bytes = h.connectionInfo.currentReceiveSequence)

lemma srcChk_stranger (stranger : Stranger h p) :
    srcChk p.bytes h.connectionInfo.remoteHost h.connectionInfo.remotePort = false := by
  rw [srcChk, Bool.and_eq_false_iff, decide_eq_false_iff_not, decide_eq_false_iff_not]
  exact stranger.imp Ne.symm Ne.symm

lemma peerChk_stranger (stranger : Stranger h p) : peerChk p.bytes h.connectionInfo = false := by
  rw [peerChk, srcChk_stranger stranger, Bool.false_and, Bool.false_and]

lemma not_unaffected_of_sent {outcome : Option TcpOutcome} (isOutcome : rxProcess env h p = outcome)
    (sends : ∀ result, outcome = some result → result.2.2 ≠ []) : ¬ Unaffected env h p := by
  rintro ⟨result, _, hp, _⟩
  rw [isOutcome] at hp
  exact sends _ hp rfl

lemma unaffected_of_same {result : Int} (processed : rxProcess env h p = some (result, h, [])) :
    Unaffected env h p :=
  ⟨result, h, processed, rfl, rfl, rfl, rfl, rfl⟩

lemma rxEstablished_sends : ∀ result, rxEstablished env h p = some result → result.2.2 ≠ [] := by
  intro result he
  obtain ⟨committed, _, rfl⟩ := map_eq_some_iff.mp he
  obtain ⟨_, hs, _⟩ := txFlags_sent env committed [.ack, .syn]
  dsimp only
  split
  · rw [hs]
    exact cons_ne_nil _ _
  rw [hs]
  exact cons_ne_nil _ _

/-- A wrong number in a handshake is answered. -/
lemma rxEstablish_sends (notIdle : ackNumber p.bytes ≠ h.connectionInfo.nextSendSequence ∨
      h.connectionInfo.initialReceiveSequence = 0 ∨
      sequenceNumber p.bytes = h.connectionInfo.currentReceiveSequence)
    (isAck : hasFlag p.bytes .ack = true) :
    ∀ result, rxEstablish env h p = some result → result.2.2 ≠ [] := by
  intro result he
  by_cases hn : h.connectionInfo.nextSendSequence = ackNumber p.bytes
  · have hp : (decide (h.connectionInfo.initialReceiveSequence = 0) || seqChk p.bytes
          (firstReceived h.connectionInfo p).currentReceiveSequence) =
        true := by
      by_cases hf : h.connectionInfo.initialReceiveSequence = 0
      · rw [decide_eq_true hf, Bool.true_or]
      have hc : sequenceNumber p.bytes = h.connectionInfo.currentReceiveSequence :=
        (notIdle.resolve_left fun hnn => hnn hn.symm).resolve_left hf
      rw [firstReceived, if_neg hf, seqChk, decide_eq_true hc.symm, Bool.or_true]
    rw [rxEstablish, ackChk, if_pos (decide_eq_true hn)] at he
    dsimp only at he
    rw [if_pos isAck, if_pos hp] at he
    exact rxEstablished_sends _ he
  rw [rxEstablish, ackChk, if_neg fun ackOk => hn (of_decide_eq_true ackOk)] at he
  obtain rfl := some_inj.mp he
  exact cons_ne_nil _ _

lemma rxEstablish_idle (isNext : ackNumber p.bytes = h.connectionInfo.nextSendSequence)
    (notFirst : h.connectionInfo.initialReceiveSequence ≠ 0) (isAck : hasFlag p.bytes .ack = true)
    (notCurrent : sequenceNumber p.bytes ≠ h.connectionInfo.currentReceiveSequence) :
    rxEstablish env h p = some (0, h, []) := by
  have ackOk : ackChk p.bytes h.connectionInfo.nextSendSequence = true := decide_eq_true isNext.symm
  have hns : ¬ (false || seqChk p.bytes h.connectionInfo.currentReceiveSequence) = true := by
    exact fun isSeq => notCurrent (of_decide_eq_true isSeq).symm
  rw [rxEstablish, if_pos ackOk, firstReceived, if_neg notFirst]
  dsimp only
  rw [decide_eq_false notFirst, if_pos isAck, if_neg hns]

section

variable (state : h.connectionState = .synReceived)

include state

lemma rxProcess_synReceived (stranger : Stranger h p) :
    rxProcess env h p = if hasFlag p.bytes .finish then some (-eProto, h, [])
      else if seqChk p.bytes h.connectionInfo.nextReceiveSequence then
        if hasFlag p.bytes .reset then some (0, rxReset h, [])
        else if hasFlag p.bytes .ack && hasFlag p.bytes .syn then rxEstablish env h p
        else some (-eProto, h, []) else some (0, h, []) := by
  rw [rxProcess, peerChk_stranger stranger, if_neg (by rw [state]; decide)]
  dsimp only
  rw [if_neg Bool.false_ne_true, state]

lemma unaffected_synchronize_iff (finish : hasFlag p.bytes .finish = false)
    (sequence : sequenceNumber p.bytes = h.connectionInfo.nextReceiveSequence)
    (reset : hasFlag p.bytes .reset = false)
    (isProcess : rxProcess env h p = if hasFlag p.bytes .ack && hasFlag p.bytes .syn then
        rxEstablish env h p else some (-eProto, h, [])) : Unaffected env h p ↔ ¬ Intrudes h p := by
  cases han : hasFlag p.bytes .ack && hasFlag p.bytes .syn with
  | true =>
    obtain ⟨isAck, isSyn⟩ := Bool.and_eq_true_iff.mp han
    rw [han, if_pos rfl] at isProcess
    by_cases hni : ackNumber p.bytes ≠ h.connectionInfo.nextSendSequence ∨
        h.connectionInfo.initialReceiveSequence = 0 ∨
        sequenceNumber p.bytes = h.connectionInfo.currentReceiveSequence
    · have ha := not_unaffected_of_sent isProcess (rxEstablish_sends hni isAck)
      exact ⟨fun hu => absurd hu ha, fun hh =>
        absurd ⟨state, finish, sequence, .inr ⟨isAck, isSyn, hni⟩⟩ hh⟩
    have idle : rxEstablish env h p = some (0, h, []) := by
      rw [not_or, not_or, not_not] at hni
      exact rxEstablish_idle hni.1 hni.2.1 isAck hni.2.2
    refine ⟨fun _ hin => ?_, fun _ => unaffected_of_same (isProcess.trans idle)⟩
    rcases hin.kind with hr | ⟨_, _, active⟩
    · exact Bool.false_ne_true (reset.symm.trans hr)
    · exact hni active
  | false =>
    rw [han, if_neg Bool.false_ne_true] at isProcess
    refine ⟨fun _ hin => ?_, fun _ => unaffected_of_same isProcess⟩
    rcases hin.kind with hr | ⟨isAck, isSyn, _⟩
    · exact Bool.false_ne_true (reset.symm.trans hr)
    rw [isAck, isSyn] at han
    cases han

/-- In a handshake a stranger must not fit in. -/
lemma unaffected_synReceived_iff (stranger : Stranger h p) :
    Unaffected env h p ↔ ¬ Intrudes h p := by
  have hp : rxProcess env h p = _ := rxProcess_synReceived state stranger
  cases hf : hasFlag p.bytes .finish with
  | true =>
    rw [hf, if_pos rfl] at hp
    refine ⟨fun _ hin => ?_, fun _ => unaffected_of_same hp⟩
    exact Bool.false_ne_true (hin.notFinish.symm.trans hf)
  | false =>
    rw [hf, if_neg Bool.false_ne_true] at hp
    by_cases hse : sequenceNumber p.bytes = h.connectionInfo.nextReceiveSequence
    · rw [seqChk, if_pos (decide_eq_true hse.symm)] at hp
      cases reset : hasFlag p.bytes .reset with
      | true =>
        rw [reset, if_pos rfl] at hp
        refine ⟨fun hu => ?_, fun hni => absurd ⟨state, hf, hse, .inl reset⟩ hni⟩
        obtain ⟨_, _, hpr, hss, _⟩ := hu
        rw [hp, some_inj, Prod.mk.injEq, Prod.mk.injEq] at hpr
        rw [← hpr.2.1, state] at hss
        cases hss
      | false =>
        rw [reset, if_neg Bool.false_ne_true] at hp
        exact unaffected_synchronize_iff state hf hse reset hp
    rw [seqChk, if_neg fun isSeq => hse (of_decide_eq_true isSeq).symm] at hp
    exact ⟨fun _ hin => hse hin.sequence, fun _ => unaffected_of_same hp⟩

end

lemma rxProcess_notPeer (notListen : h.connectionState ≠ .listen)
    (notReceived : h.connectionState ≠ .synReceived) (stranger : Stranger h p) :
    ∃ result, rxProcess env h p = some (result, h, []) := by
  rw [rxProcess, peerChk_stranger stranger]
  dsimp only
  rw [if_neg Bool.false_ne_true]
  split
  · exact ⟨_, rfl⟩
  split
  case h_1 state => exact absurd state notListen
  case h_3 state => exact absurd state notReceived
  case h_2 =>
    rw [srcChk_stranger stranger, Bool.false_and]
    split <;> exact ⟨_, rfl⟩
  all_goals exact ⟨_, rfl⟩

/-- A segment of a stranger is without effect if and only if it does not get
through in `SYN_RECEIVED`. -/
theorem unaffected_iff (env : TcpEnv) (h : TcpPortHandler) (p : Packet)
    (notListen : h.connectionState ≠ .listen) (stranger : Stranger h p) :
    Unaffected env h p ↔ ¬ Intrudes h p := by
  by_cases state : h.connectionState = .synReceived
  · exact unaffected_synReceived_iff state stranger
  have hpr : ∃ result, rxProcess env h p = some (result, h, []) :=
    rxProcess_notPeer notListen state stranger
  obtain ⟨result, hp⟩ := hpr
  exact ⟨fun _ hin => state hin.state, fun _ => unaffected_of_same hp⟩

/-- A reset of a stranger in `ESTABLISHED`. -/
theorem unaffected_iff_established : Unaffected ⟨⟨64, 64⟩, fun _ => 0, 0, 0⟩
      ⟨0, 80, .established, { remoteHost := 1 }, fun _ => none, fun _ => none, [1, 2], []⟩
        ⟨fun x => if x = 47 then 32 else 0, 54⟩ :=
  (unaffected_iff _ _ _ (by decide) (.inl (by decide))).mpr
    fun intrudes => absurd intrudes.state (by decide)

/-- A reset of a stranger in `SYN_RECEIVED`: the host with the address 1 is the
peer, the segment is from address 0. -/
theorem not_unaffected_reset : ¬ Unaffected ⟨⟨64, 64⟩, fun _ => 0, 0, 0⟩
      ⟨0, 80, .synReceived, { remoteHost := 1 }, fun _ => none, fun _ => none,
        [], []⟩ ⟨fun x => if x = 47 then 32 else 0, 54⟩ := by
  rw [unaffected_synReceived_iff rfl (Or.inl (by decide)), not_not]
  exact ⟨rfl, by decide, by decide, Or.inl (by decide)⟩

def wirePayload (p : Packet) : List UInt8 :=
  (List.range (14 + totalLength p.bytes - payloadStart p.bytes)).map fun i =>
    p.bytes (payloadStart p.bytes + i)

structure DataSegment (h : TcpPortHandler) (s : Nat) (p : Packet) : Prop where
  source : srcChk p.bytes h.connectionInfo.remoteHost
    h.connectionInfo.remotePort = true
  sequence : sequenceNumber p.bytes = s
  ack : ackNumber p.bytes = h.connectionInfo.nextSendSequence ∨
    ackNumber p.bytes = h.connectionInfo.lastSendSequence
  push : hasFlag p.bytes .push = true
  notFinish : hasFlag p.bytes .finish = false
  carries : 0 < (wirePayload p).length

/-- Consecutive segments, each with the acknowledgement that is right when it
arrives. -/
def InOrder : TcpPortHandler → Nat → List (TcpEnv × Packet) → Prop
  | _, _, [] => True
  | h, s, (env, p) :: rest =>
    DataSegment h s p ∧ ∀ outcome, rxProcess env h p = some outcome →
      InOrder outcome.2.1 ((s + (wirePayload p).length) % 2 ^ 32) rest

def rxRun : TcpPortHandler → List (TcpEnv × Packet) → Option (TcpPortHandler × List (List Packet))
  | h, [] => some (h, [])
  | h, (env, p) :: rest =>
    (rxProcess env h p).bind fun outcome =>
      (rxRun outcome.2.1 rest).map fun last => (last.1, outcome.2.2 :: last.2)

def nextExpected : Nat → List (TcpEnv × Packet) → List Nat
  | _, [] => []
  | s, (_, p) :: rest =>
    (s + (wirePayload p).length) % 2 ^ 32 ::
      nextExpected ((s + (wirePayload p).length) % 2 ^ 32) rest

/-- The payloads are appended to what was received, and every acknowledgement
carries the next byte expected. -/
def Delivers (h : TcpPortHandler) (s : Nat)
    (segments : List (TcpEnv × Packet)) : Prop :=
  ∃ final sent, rxRun h segments = some (final, sent) ∧ final.received =
      h.received ++ segments.flatMap (fun segment => wirePayload segment.2) ∧
    List.Forall₂ (fun packets next =>
      ∀ ack ∈ packets, ackNumber ack.bytes = next) sent
      (nextExpected s segments)

lemma rxPush_info (pushed : rxPush h p = some next) :
    next.connectionInfo = h.connectionInfo := by
  rw [rxPush] at pushed
  split at pushed
  · cases pushed
  obtain rfl := some_inj.mp pushed
  rfl

lemma rxCommitLoop_next (fuel : Nat) : ∀ {h next : TcpPortHandler},
    rxCommitLoop fuel h = some next → next.connectionInfo.nextReceiveSequence =
      h.connectionInfo.nextReceiveSequence := by
  induction fuel with
  | zero =>
    intro h next hc
    cases hc
  | succ fuel ih =>
    intro h next hc
    rw [rxCommitLoop] at hc
    split at hc
    · obtain rfl := some_inj.mp hc
      rfl
    obtain ⟨pushed, hp, rest⟩ := bind_eq_some_iff.mp hc
    have hsi : pushed.connectionInfo = h.connectionInfo := by
      split at hp
      · exact rxPush_info hp
      obtain rfl := some_inj.mp hp
      rfl
    rw [ih rest, ← hsi]

lemma rxCommit_next (committed : rxCommit h = some next) :
    next.connectionInfo.nextReceiveSequence = h.connectionInfo.nextReceiveSequence := by
  rw [rxCommit] at committed
  split at committed
  · obtain rfl := some_inj.mp committed
    rfl
  · exact rxCommitLoop_next _ committed

lemma startCommit_next (h : TcpPortHandler) (key : Nat) :
    (startCommit h key).connectionInfo.nextReceiveSequence =
      h.connectionInfo.nextReceiveSequence := by
  rw [startCommit]
  split <;> rfl

lemma rxAcceptPayload_sent (push : hasFlag p.bytes .push = true)
    (accepted : rxAcceptPayload env h p = some outcome) :
    ∃ sent, outcome.2.2 = [sent] ∧ ackNumber sent.bytes =
      h.connectionInfo.nextReceiveSequence % 2 ^ 32 := by
  have hns : ¬ isSimpleAck p.bytes = true := by
    rw [isSimpleAck, push, Bool.or_true, Bool.true_or]
    simp
  rw [rxAcceptPayload, if_neg hns] at accepted
  split at accepted
  · obtain ⟨committed, hc, rfl⟩ := map_eq_some_iff.mp accepted
    have hsn : committed.connectionInfo.nextReceiveSequence =
        h.connectionInfo.nextReceiveSequence := by
      have hs := startCommit_next (rxAddPacket h p) (sequenceNumber p.bytes)
      split at hc
      · exact (rxCommit_next hc).trans hs
      rw [← some_inj.mp hc]
      exact hs
    rw [← hsn]
    exact txFlags_sent env committed [.ack]
  obtain rfl := some_inj.mp accepted
  exact txFlags_sent env h [.ack]

lemma peerChk_data
    (isNext : h.connectionInfo.nextReceiveSequence = s) (segment : DataSegment h s p) :
    peerChk p.bytes h.connectionInfo = true := by
  have isSeq : seqChk p.bytes h.connectionInfo.nextReceiveSequence = true :=
    decide_eq_true (isNext.trans segment.sequence.symm)
  have isAck : (ackChk p.bytes h.connectionInfo.nextSendSequence ||
      ackChk p.bytes h.connectionInfo.lastSendSequence) = true := by
    rw [Bool.or_eq_true, ackChk, ackChk, decide_eq_true_iff, decide_eq_true_iff]
    exact segment.ack.imp Eq.symm Eq.symm
  rw [peerChk, segment.source, isAck, isSeq]
  rfl

lemma rxProcess_established (established : h.connectionState = .established)
    (isPeer : peerChk p.bytes h.connectionInfo = true) : let windowed : TcpPortHandler :=
      { h with
        connectionInfo :=
          { h.connectionInfo with peerWindowSize := windowSize p.bytes } }
    rxProcess env h p = if hasFlag p.bytes .finish then rxBeginClose env windowed p
      else rxAcceptPayload env windowed p := by
  have hnc : ¬ h.connectionState = .closed := by
    rw [established]
    exact nofun
  rw [rxProcess, if_neg hnc, isPeer]
  dsimp only
  rw [if_pos rfl]
  rw [established]
  rw [if_pos rfl]

lemma rxProcess_data (established : h.connectionState = .established)
    (isNext : h.connectionInfo.nextReceiveSequence = s) (segment : DataSegment h s p)
    (processed : rxProcess env h p = some outcome) :
    ∃ sent, outcome.2.2 = [sent] ∧ ackNumber sent.bytes = s % 2 ^ 32 := by
  rw [rxProcess_established established (peerChk_data isNext segment), segment.notFinish,
    if_neg Bool.false_ne_true] at processed
  obtain ⟨sent, hse, isAck⟩ := rxAcceptPayload_sent segment.push processed
  rw [isNext] at isAck
  exact ⟨sent, hse, isAck⟩

lemma length_wirePayload_le (p : Packet) : (wirePayload p).length ≤ 65549 := by
  have hl := readBE16_lt p.bytes 16
  rw [wirePayload, length_map, length_range, totalLength]
  omega

lemma not_delivers_cons {segment : TcpEnv × Packet}
    {rest : List (TcpEnv × Packet)} (established : h.connectionState = .established)
    (isNext : h.connectionInfo.nextReceiveSequence = s) (first : DataSegment h s segment.2) :
    ¬ Delivers h s (segment :: rest) := by
  rintro ⟨_, _, isRun, _, acks⟩
  obtain ⟨_, p⟩ := segment
  obtain ⟨_, hp, hre⟩ := bind_eq_some_iff.mp isRun
  obtain ⟨_, _, hl⟩ := map_eq_some_iff.mp hre
  obtain ⟨ack, hs, isAck⟩ := rxProcess_data established isNext first hp
  obtain ⟨_, rfl⟩ := Prod.mk.inj hl
  have he := (forall₂_cons.mp acks).1 ack (by rw [hs]; exact mem_singleton_self ack)
  have hc := first.carries
  have length := length_wirePayload_le p
  dsimp only at hc
  omega

/-- Segments of the peer are delivered in order if and only if there are
none. -/
theorem delivers_iff (h : TcpPortHandler) (s : Nat) (segments : List (TcpEnv × Packet))
    (established : h.connectionState = .established)
    (isNext : h.connectionInfo.nextReceiveSequence = s) (inOrder : InOrder h s segments) :
    Delivers h s segments ↔ segments = [] := by
  constructor
  · intro hd
    cases segments with
    | nil => rfl
    | cons _ _ => exact absurd hd (not_delivers_cons established isNext inOrder.1)
  rintro rfl
  exact ⟨h, [], rfl, (append_nil _).symm, List.Forall₂.nil⟩

def quietEnv : TcpEnv :=
  ⟨⟨64, 64⟩, fun _ => 0, 0, 0⟩

def connected : TcpPortHandler :=
  ⟨0, 80, .established, {}, fun _ => none, fun _ => none, [], []⟩

/-- A segment of one byte of payload. -/
def pushOne : Packet :=
  ⟨fun x => if x = 17 then 41 else if x = 46 then 5 else if x = 47 then 16 else 0, 55⟩

theorem delivers_iff_pushOne : InOrder connected 0 [(quietEnv, pushOne)] ∧
    ¬ Delivers connected 0 [(quietEnv, pushOne)] := by
  have inOrder : InOrder connected 0 [(quietEnv, pushOne)] :=
    ⟨⟨by decide, by decide, .inl (by decide), by decide, by decide, by decide⟩, fun _ _ => trivial⟩
  exact ⟨inOrder, fun delivers => List.cons_ne_nil _ _
    ((delivers_iff _ 0 _ rfl rfl inOrder).mp delivers)⟩

/-- A segment of 20 bytes of payload at the sequence number 0. -/
theorem not_delivers_oneSegment :
    ¬ Delivers ⟨0, 80, .established, {}, fun _ => none, fun _ => none, [], []⟩ 0
      [(⟨⟨64, 64⟩, fun _ => 0, 0, 0⟩, ⟨fun x => if x = 17 then 60 else if x = 46 then 5
          else if x = 47 then 16 else 0, 74⟩)] := by
  apply not_delivers_cons rfl rfl
  exact ⟨by decide, by decide, Or.inl (by decide), by decide, by decide, by decide⟩

/-- A segment of a stranger outside of `LISTEN` and `SYN_RECEIVED` can be left out
of a run. -/
theorem rxRun_stranger {mid : TcpPortHandler} {sent : List (List Packet)}
    (before after : List (TcpEnv × Packet)) (reaches : rxRun h before = some (mid, sent))
    (notListen : mid.connectionState ≠ .listen) (notReceived : mid.connectionState ≠ .synReceived)
    (stranger : Stranger mid p) :
    (rxRun h (before ++ (env, p) :: after)).map (fun last => (last.1, last.2.flatten)) =
      (rxRun h (before ++ after)).map fun last => (last.1, last.2.flatten) := by
  induction before generalizing h sent with
  | nil =>
    cases reaches
    obtain ⟨_, hp⟩ : ∃ result, rxProcess env mid p = some (result, mid, []) :=
      rxProcess_notPeer notListen notReceived stranger
    simp [rxRun, hp, Function.comp_def]
  | cons segment before ih =>
    obtain ⟨outcome, hp, hr⟩ := bind_eq_some_iff.mp reaches
    obtain ⟨_, hl, hs⟩ := map_eq_some_iff.mp hr
    cases hs
    -- What the first segment has made the handler send is in front of both runs.
    have hi := congrArg (Option.map fun last => (last.1, outcome.2.2 ++ last.2)) (ih hl)
    simpa [rxRun, hp, Function.comp_def] using hi

/-- The stranger comes after a segment of the peer. -/
theorem rxRun_stranger_established : ∃ mid sent,
    rxRun connected [(quietEnv, pushOne)] = some (mid, sent) ∧
    mid.connectionState = .established ∧
    (rxRun connected [(quietEnv, pushOne), (quietEnv, ⟨fun _ => 1, 54⟩)]).map
      (fun last => (last.1, last.2.flatten)) = some (mid, sent.flatten) := by
  refine ⟨_, _, rfl, rfl, ?_⟩
  apply rxRun_stranger [(_, pushOne)] [] rfl
  · exact TcpConnectionState.noConfusion
  · exact TcpConnectionState.noConfusion
  · exact .inl (by decide)

end OoOS.Net
