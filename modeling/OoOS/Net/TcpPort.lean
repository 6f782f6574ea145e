import OoOS.Libk.Arith
import OoOS.Net.Ipv4

/-!
# TCP

The fields of `tcp_header` are read from the bytes of a packet.  The bit fields
of `tcp_fields_word` start at the low bits of their bytes, so `data_offset` is
the lower half of its byte.

The handler of a port has one connection.  What the environment decides in a call
is given to it.  A call that throws, loops or copies a range with its end before
its start does not return.
-/

namespace OoOS.Net

open Lib Libk

def readBE32 (memory : Memory) (addr : Nat) : Nat :=
  readBE16 memory addr * 65536 + readBE16 memory (addr + 2)

def writeBE32 (memory : Memory) (addr value : Nat) : Memory :=
  writeBE16 (writeBE16 memory addr (value / 65536)) (addr + 2) value

def sourceAddr (bytes : Memory) : Nat := readBE32 bytes 26

def sourcePort (bytes : Memory) : Nat := readBE16 bytes 34

def sequenceNumber (bytes : Memory) : Nat := readBE32 bytes 38

def ackNumber (bytes : Memory) : Nat := readBE32 bytes 42

def dataOffset (bytes : Memory) : Nat := (bytes 46).toNat % 16

def windowSize (bytes : Memory) : Nat := readBE16 bytes 48

inductive TcpFlag where
  | ack | push | reset | syn | finish
  deriving DecidableEq

def TcpFlag.bit : TcpFlag → Nat
  | .ack => 3
  | .push => 4
  | .reset => 5
  | .syn => 6
  | .finish => 7

def hasFlag (bytes : Memory) (flag : TcpFlag) : Bool := (bytes 47).toNat.testBit flag.bit

def setFlag (bytes : Memory) (flag : TcpFlag) : Memory :=
  writeByte bytes 47 (UInt8.ofNat ((bytes 47).toNat ||| 2 ^ flag.bit))

def payloadStart (bytes : Memory) : Nat := 34 + dataOffset bytes * 4

def payloadEnd (bytes : Memory) : Nat := totalLength bytes

def hasData (bytes : Memory) : Bool := payloadEnd bytes ≠ payloadStart bytes

def segmentLen (bytes : Memory) : Nat := max 1 (totalLength bytes - (dataOffset bytes * 4 + 34))

def isSimpleAck (bytes : Memory) : Bool :=
  hasFlag bytes .ack &&
    !(hasFlag bytes .finish || hasFlag bytes .push || hasFlag bytes .syn) &&
    !hasData bytes

/-- The length that the checksum functions work with, a difference of words. -/
def tcpLength (bytes : Memory) : Nat := wsub (totalLength bytes) (ihl bytes * 4)

def tcpSum (bytes : Memory) : Nat :=
  addressSum bytes + protocol bytes + tcpLength bytes +
    (if tcpLength bytes % 2 ≠ 0 then (bytes (payloadEnd bytes - 1)).toNat
      else 0) +
    wordSum bytes 34 (tcpLength bytes / 2)

/-- `compute_tcp_checksum`; the field is not cleared before. -/
def computeTcpChecksum (bytes : Memory) : Memory := writeBE16 bytes 50 (foldCsum (tcpSum bytes))

def verifyTcpChecksum (bytes : Memory) : Bool := foldCsum (tcpSum bytes) = 0

variable {memory : Memory} {addr value : Nat}

lemma readBE32_congr {other : Memory} (same : ∀ x, addr ≤ x → x < addr + 4 → memory x = other x) :
    readBE32 memory addr = readBE32 other addr := by
  have first : readBE16 memory addr = readBE16 other addr :=
    readBE16_congr (same _ (by omega) (by omega)) (same _ (by omega) (by omega))
  have second : readBE16 memory (addr + 2) = readBE16 other (addr + 2) :=
    readBE16_congr (same _ (by omega) (by omega)) (same _ (by omega) (by omega))
  rw [readBE32, readBE32, first, second]

lemma writeBE32_outside {x : Nat} (outside : x < addr ∨ addr + 4 ≤ x) :
    writeBE32 memory addr value x = memory x := by
  rw [writeBE32, writeBE16_outside (by omega), writeBE16_outside (by omega)]

lemma readBE32_same : readBE32 (writeBE32 memory addr value) addr = value % 2 ^ 32 := by
  rw [readBE32, writeBE32, readBE16_disjoint (by omega),
    readBE16_same, readBE16_same]
  omega

lemma writeByte_outside {x : Nat} {byte : UInt8} (outside : x ≠ addr) :
    writeByte memory addr byte x = memory x :=
  if_neg outside

inductive TcpConnectionState where
  | listen | synSent | synReceived | established | finWait1 | finWait2
  | closeWait | closing | lastAck | timeWait | closed
  deriving DecidableEq

inductive TcpConnectionType where
  | passive | active
  deriving DecidableEq

structure TcpConnectionInfo where
  remoteHost : Nat := 0
  remotePort : Nat := 0
  localConnectionType : TcpConnectionType := .passive
  remoteConnectionType : TcpConnectionType := .passive
  initialSendSequence : Nat := 0
  lastSendSequence : Nat := 0
  currentSendSequence : Nat := 0
  nextSendSequence : Nat := 0
  initialReceiveSequence : Nat := 0
  currentReceiveSequence : Nat := 0
  nextReceiveSequence : Nat := 0
  receiveCommitSequence : Nat := 0
  peerWindowSize : Nat := 0
  deriving DecidableEq

abbrev SequenceMap := Nat → Option Packet

/-- `received` is what `rx_push` has appended, `pending` what is still to be sent. -/
structure TcpPortHandler where
  leasedAddr : Nat
  localPort : Nat
  connectionState : TcpConnectionState
  connectionInfo : TcpConnectionInfo
  sendPackets : SequenceMap
  receivePackets : SequenceMap
  received : List UInt8
  pending : List UInt8

/-- `raw` is what a new packet finds in the fields that no constructor sets, and
behind itself. -/
structure TcpEnv where
  config : Ipv4Config
  raw : Memory
  isn : Nat
  transmitResult : Int

def eNotConn : Int := 128

def eProto : Int := 71

namespace SequenceMap

def emplace (map : SequenceMap) (key : Nat) (p : Packet) : SequenceMap :=
  fun other =>
    if other = key then some ((map key).getD p) else map other

def put (map : SequenceMap) (key : Nat) (p : Packet) : SequenceMap :=
  fun other => if other = key then some p else map other

end SequenceMap

def srcChk (bytes : Memory) (addr port : Nat) : Bool :=
  addr = sourceAddr bytes && port = sourcePort bytes

def seqChk (bytes : Memory) (seq : Nat) : Bool := seq = sequenceNumber bytes

def ackChk (bytes : Memory) (ack : Nat) : Bool := ack = ackNumber bytes

def peerChk (bytes : Memory) (info : TcpConnectionInfo) : Bool :=
  srcChk bytes info.remoteHost info.remotePort &&
    (ackChk bytes info.nextSendSequence ||
      ackChk bytes info.lastSendSequence) &&
    seqChk bytes info.nextReceiveSequence

def newPacket (raw : Memory) (size : Nat) : Packet where
  bytes x :=
    if x = 12 then 8
    else if x = 13 then 0
    else if x = 14 then 0x45
    else if x = 15 then 0
    else if 18 ≤ x ∧ x < 22 then 0
    else if x = 23 then 6
    else if 34 ≤ x ∧ x < size then 0
    else raw x
  size := size

def paddedOptionSize (optionSize : Nat) : Nat :=
  if optionSize ≠ 0 then upToNearest (optionSize + 1) 4 else 0

/-- The options that `create_packet` fills in: a zero at the end, and ones from
the end of the given options on. -/
def padOptions (bytes : Memory) (optionSize : Nat) : Memory :=
  let padded := paddedOptionSize optionSize
  if padded ≠ 0 then fun x =>
    if 54 + optionSize ≤ x ∧ x < 54 + padded - 1 then 1
    else if x = 54 + padded - 1 then 0
    else bytes x
  else bytes

def fillHeader (h : TcpPortHandler) (p : Packet) (key optionSize window : Nat) : Packet :=
  let info := h.connectionInfo
  let bytes := padOptions p.bytes optionSize
  let bytes := writeBE16 bytes 16 p.size
  let bytes := writeBE32 bytes 38 key
  let bytes := writeBE32 bytes 42 info.nextReceiveSequence
  let bytes := writeBE16 bytes 48 window
  let offset := (20 + paddedOptionSize optionSize) / 4 % 16
  let bytes := writeByte bytes 46
    (UInt8.ofNat ((bytes 46).toNat / 16 * 16 + offset))
  let bytes := writeBE32 bytes 26 h.leasedAddr
  let bytes := writeBE16 bytes 34 h.localPort
  let bytes := writeBE32 bytes 30 info.remoteHost
  let bytes := writeBE16 bytes 36 info.remotePort
  { p with bytes := bytes }

def createPacket (env : TcpEnv) (h : TcpPortHandler)
    (payloadSize optionSize window : Nat) : Packet × TcpPortHandler :=
  let key := h.connectionInfo.nextSendSequence
  let size := 54 + paddedOptionSize optionSize + payloadSize
  let p := (h.sendPackets key).getD (newPacket env.raw size)
  let filled := fillHeader h p key optionSize window
  (filled,
    { h with
      sendPackets := h.sendPackets.put key filled
      connectionInfo :=
        { h.connectionInfo with
          currentSendSequence := key
          nextSendSequence := (key + segmentLen filled.bytes) % 2 ^ 32 } })

/-- What a call returns: the result, the handler and the packets that were
handed to the IPv4 layer. -/
abbrev TcpOutcome := Int × TcpPortHandler × List Packet

/-- `tx_send_next`; the IPv4 layer writes into the packet of the map. -/
def txSendNext (env : TcpEnv) (h : TcpPortHandler) : TcpOutcome :=
  let key := h.connectionInfo.currentSendSequence
  match h.sendPackets key with
  | none => (-eNotConn, h, [])
  | some p =>
    let sent := ipv4Transmit env.config p
    (env.transmitResult,
      { h with
        sendPackets := h.sendPackets.put key sent
        connectionInfo :=
          { h.connectionInfo with lastSendSequence := key } },
      [sent])

/-- A packet without payload and options: create it, set flags, give it its
checksum and send it. -/
def txFlags (env : TcpEnv) (h : TcpPortHandler) (flags : List TcpFlag) : TcpOutcome :=
  let created := createPacket env h 0 0 16384
  let key := created.2.connectionInfo.currentSendSequence
  let bytes := computeTcpChecksum (flags.foldl setFlag created.1.bytes)
  txSendNext env
    { created.2 with
      sendPackets :=
        created.2.sendPackets.put key { created.1 with bytes := bytes } }

def txAck (env : TcpEnv) (h : TcpPortHandler) : TcpOutcome := txFlags env h [.ack]

def txReset (env : TcpEnv) (h : TcpPortHandler) (useSeq : Nat) : TcpOutcome :=
  let info := h.connectionInfo
  let key := info.nextSendSequence
  let p := (h.sendPackets key).getD (newPacket env.raw 54)
  let bytes := writeBE16 p.bytes 16 p.size
  let bytes := writeBE32 bytes 38 useSeq
  let bytes := writeBE16 bytes 48 16384
  let bytes := writeByte bytes 46
    (UInt8.ofNat ((bytes 46).toNat / 16 * 16 + 5))
  let bytes := writeBE32 bytes 26 h.leasedAddr
  let bytes := writeBE16 bytes 34 h.localPort
  let bytes := writeBE32 bytes 30 info.remoteHost
  let bytes := writeBE16 bytes 36 info.remotePort
  let sent := ipv4Transmit env.config { p with bytes := bytes }
  (env.transmitResult, { h with sendPackets := h.sendPackets.put key sent }, [sent])

def txSimultaneousClose (env : TcpEnv) (h : TcpPortHandler) : TcpOutcome :=
  let acked := txAck env h
  if acked.1 ≠ 0 then acked
  else (0, { acked.2.1 with connectionState := .closing }, acked.2.2)

def txSendData (env : TcpEnv) (h : TcpPortHandler) : TcpOutcome :=
  if h.pending = [] then (0, h, [])
  else
    let toSend := min h.pending.length h.connectionInfo.peerWindowSize
    let created := createPacket env h toSend 0 16384
    let key := created.2.connectionInfo.currentSendSequence
    let start := payloadStart created.1.bytes
    let written : Memory := fun x =>
      if start ≤ x ∧ x < start + toSend then
        h.pending.getD (x - start) 0
      else created.1.bytes x
    let bytes := computeTcpChecksum (setFlag (setFlag written .ack) .push)
    txSendNext env
      { created.2 with
        pending := h.pending.drop toSend
        sendPackets :=
          created.2.sendPackets.put key { created.1 with bytes := bytes } }

def computeFollowingSequence (h : TcpPortHandler) (from_ : Nat) : Option Nat :=
  (h.sendPackets from_).map fun p => (from_ + segmentLen p.bytes) % 2 ^ 32

def rxAddPacket (h : TcpPortHandler) (p : Packet) : TcpPortHandler :=
  { h with
    receivePackets := h.receivePackets.emplace (sequenceNumber p.bytes) p }

def rxPush (h : TcpPortHandler) (p : Packet) : Option TcpPortHandler :=
  let start := payloadStart p.bytes
  let stop := payloadEnd p.bytes
  if stop < start then none
  else some { h with
    received := h.received ++
      (List.range (stop - start)).map fun i => p.bytes (start + i) }

def rxCommitLoop : Nat → TcpPortHandler → Option TcpPortHandler
  | 0, _ => none
  | fuel + 1, h =>
    let commit := h.connectionInfo.receiveCommitSequence
    match h.receivePackets commit with
    | none => some h
    | some p =>
      (if hasData p.bytes then rxPush h p else some h).bind fun pushed =>
        rxCommitLoop fuel
          { pushed with
            connectionInfo :=
              { pushed.connectionInfo with
                receiveCommitSequence :=
                  (commit + segmentLen p.bytes) % 2 ^ 32 } }

/-- `rx_commit`: after `2 ^ 32` rounds without an end the loop is endless. -/
def rxCommit (h : TcpPortHandler) : Option TcpPortHandler :=
  if h.connectionInfo.receiveCommitSequence = 0 then some h
  else rxCommitLoop (2 ^ 32 + 1) h

/-- The first packet with data is the first one to commit; 0 stands for no
packet. -/
def startCommit (h : TcpPortHandler) (key : Nat) : TcpPortHandler :=
  if h.connectionInfo.receiveCommitSequence = 0 then
    { h with
      connectionInfo := { h.connectionInfo with receiveCommitSequence := key } }
  else h

def rxAcceptPayload (env : TcpEnv) (h : TcpPortHandler) (p : Packet) : Option TcpOutcome :=
  if isSimpleAck p.bytes then
    (computeFollowingSequence h h.connectionInfo.lastSendSequence).map
      fun last => txSendData env
        { h with
          connectionInfo := { h.connectionInfo with lastSendSequence := last } }
  else if hasData p.bytes then
    let added := rxAddPacket h p
    let key := sequenceNumber p.bytes
    let started := startCommit added key
    let pushes := ((added.receivePackets key).map fun q => hasFlag q.bytes .push).getD false
    (if pushes then rxCommit started else some started).map (txAck env)
  else some (txAck env h)

def rxBeginClose (env : TcpEnv) (h : TcpPortHandler) (p : Packet) : Option TcpOutcome :=
  rxAcceptPayload env { h with connectionState := .closeWait } p

def rxReset (h : TcpPortHandler) : TcpPortHandler :=
  { h with
    connectionState := .listen
    connectionInfo :=
      { remoteHost := h.connectionInfo.remoteHost
        remotePort := h.connectionInfo.remotePort
        localConnectionType := h.connectionInfo.localConnectionType
        remoteConnectionType := h.connectionInfo.remoteConnectionType }
    sendPackets := fun _ => none
    receivePackets := fun _ => none
    received := []
    pending := [] }

def close (h : TcpPortHandler) : TcpPortHandler :=
  { h with
    connectionState := .closed
    connectionInfo := {}
    sendPackets := fun _ => none
    receivePackets := fun _ => none
    received := []
    pending := [] }

def openConnection (env : TcpEnv) (h : TcpPortHandler) (peer port : Nat)
    (localType remoteType : TcpConnectionType) : TcpPortHandler :=
  { h with
    connectionInfo :=
      { remoteHost := peer
        remotePort := port
        localConnectionType := localType
        remoteConnectionType := remoteType
        initialSendSequence := env.isn
        currentSendSequence := env.isn
        nextSendSequence := env.isn } }

def rxInitial (env : TcpEnv) (h : TcpPortHandler) (p : Packet) : TcpOutcome :=
  let seq := sequenceNumber p.bytes
  let windowed : TcpConnectionInfo := { h.connectionInfo with peerWindowSize := windowSize p.bytes }
  let noted : TcpPortHandler :=
    if hasData p.bytes then
      let added := rxAddPacket h p
      let length := ((added.receivePackets seq).map fun q => segmentLen q.bytes).getD 1
      { added with
        connectionInfo :=
          { windowed with
            initialReceiveSequence := seq
            currentReceiveSequence := seq
            receiveCommitSequence := seq
            nextReceiveSequence := (seq + length) % 2 ^ 32 } }
    else
      { h with
        connectionInfo :=
          { windowed with
            initialReceiveSequence := seq
            currentReceiveSequence := seq
            nextReceiveSequence := (seq + 1) % 2 ^ 32 } }
  let acked := txFlags env noted [.ack, .syn]
  if acked.1 ≠ 0 then acked
  else (0, { acked.2.1 with connectionState := .synReceived }, acked.2.2)

/-- The first received packet sets the receive sequences; this is the case when
the local host opened the connection. -/
def firstReceived (info : TcpConnectionInfo) (p : Packet) : TcpConnectionInfo :=
  if info.initialReceiveSequence = 0 then
    { info with
      initialReceiveSequence := sequenceNumber p.bytes
      currentReceiveSequence := sequenceNumber p.bytes
      nextReceiveSequence := sequenceNumber p.bytes
      peerWindowSize := windowSize p.bytes }
  else info

def rxEstablished (env : TcpEnv) (h : TcpPortHandler) (p : Packet) : Option TcpOutcome :=
  let info := h.connectionInfo
  let advanced : TcpPortHandler :=
    { h with
      connectionInfo :=
        { info with
          currentReceiveSequence := info.nextReceiveSequence
          nextReceiveSequence :=
            (info.nextReceiveSequence + segmentLen p.bytes) % 2 ^ 32 } }
  let added := if hasData p.bytes then rxAddPacket advanced p else advanced
  (rxCommit added).map fun committed =>
    let acked := txFlags env committed [.ack, .syn]
    if acked.1 ≠ 0 then acked
    else (0, { acked.2.1 with connectionState := .established }, acked.2.2)

def rxEstablish (env : TcpEnv) (h : TcpPortHandler) (p : Packet) : Option TcpOutcome :=
  if ackChk p.bytes h.connectionInfo.nextSendSequence then
    let isFirst : Bool := h.connectionInfo.initialReceiveSequence = 0
    let info := firstReceived h.connectionInfo p
    let expected :=
      if hasFlag p.bytes .ack then info.currentReceiveSequence
      else info.nextReceiveSequence
    if isFirst || seqChk p.bytes expected then
      rxEstablished env { h with connectionInfo := info } p
    else some (0, { h with connectionInfo := info }, [])
  else some (txReset env h (ackNumber p.bytes))

def rxProcess (env : TcpEnv) (h : TcpPortHandler) (p : Packet) : Option TcpOutcome :=
  if h.connectionState = .closed then some (-eNotConn, h, [])
  else
    let isPeer := peerChk p.bytes h.connectionInfo
    let h : TcpPortHandler :=
      if isPeer then
        { h with
          connectionInfo :=
            { h.connectionInfo with peerWindowSize := windowSize p.bytes } }
      else h
    match h.connectionState with
    | .listen =>
      if hasFlag p.bytes .syn && !hasFlag p.bytes .ack then
        if hasFlag p.bytes .finish || hasFlag p.bytes .reset then
          some (-eProto, h, [])
        else
          some (rxInitial env
            (openConnection env h (sourceAddr p.bytes) (sourcePort p.bytes)
              .passive .active) p)
      else some (0, h, [])
    | .synSent =>
      if hasFlag p.bytes .finish || hasFlag p.bytes .reset then
        some (-eProto, h, [])
      else if srcChk p.bytes h.connectionInfo.remoteHost
          h.connectionInfo.remotePort && hasFlag p.bytes .syn then
        let typed : TcpPortHandler :=
          { h with
            connectionInfo :=
              { h.connectionInfo with remoteConnectionType := .passive } }
        if hasFlag p.bytes .ack then rxEstablish env typed p
        else some (rxInitial env typed p)
      else some (0, h, [])
    | .synReceived =>
      if hasFlag p.bytes .finish then some (-eProto, h, [])
      else if seqChk p.bytes h.connectionInfo.nextReceiveSequence then
        if hasFlag p.bytes .reset then some (0, rxReset h, [])
        else if hasFlag p.bytes .ack && hasFlag p.bytes .syn then
          rxEstablish env h p
        else some (-eProto, h, [])
      else some (0, h, [])
    | .established =>
      if isPeer then
        if hasFlag p.bytes .finish then rxBeginClose env h p
        else rxAcceptPayload env h p
      else some (0, h, [])
    | .finWait1 =>
      if isPeer then
        if hasFlag p.bytes .finish then some (txSimultaneousClose env h)
        else rxAcceptPayload env { h with connectionState := .finWait2 } p
      else some (0, h, [])
    | .finWait2 =>
      if isPeer then
        if hasFlag p.bytes .finish then
          some (0, { h with connectionState := .timeWait }, [])
        else rxAcceptPayload env h p
      else some (0, h, [])
    | .closing =>
      if isPeer then some (0, { h with connectionState := .timeWait }, [])
      else some (0, h, [])
    | .lastAck =>
      if isPeer then some (0, close h, []) else some (0, h, [])
    | .closeWait => some (0, h, [])
    | .timeWait => some (0, h, [])
    | .closed => some (-eNotConn, h, [])

end OoOS.Net
