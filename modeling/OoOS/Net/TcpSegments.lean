import OoOS.Net.TcpPort

/-!
# TCP segments on their way out

`create_packet` stores the size of the whole frame in `total_length`; the IPv4
layer then stores 14 bytes less, and the receiver computes with that.
-/

namespace OoOS.Net

open Lib Libk

/-- The frame of a packet whose memory has been filled with options, flags and
payload, with its checksum. -/
def segmentFrame (config : Ipv4Config) (p : Packet) (filled : Memory) : Packet :=
  ipv4Transmit config { p with bytes := computeTcpChecksum filled }

/-- A segment survives the send path: the receiver's check passes, and the
payload it finds is the one that was written. -/
structure SegmentSurvives (config : Ipv4Config) (p : Packet)
    (filled : Memory) (length : Nat) : Prop where
  verifies : verifyTcpChecksum (segmentFrame config p filled).bytes = true
  start : payloadStart (segmentFrame config p filled).bytes = payloadStart p.bytes
  stop : payloadEnd (segmentFrame config p filled).bytes = payloadStart p.bytes + length
  sender : segmentLen p.bytes = max 1 length
  receiver : segmentLen (segmentFrame config p filled).bytes = max 1 length

variable {config : Ipv4Config} {p : Packet} {filled : Memory}

lemma totalLength_ipv4Transmit (config : Ipv4Config) (p : Packet) :
    totalLength (ipv4Transmit config p).bytes = (p.size - 14) % 65536 := by
  rw [totalLength, ipv4Transmit, computeIpv4Csum]
  rw [readBE16_disjoint (by omega),
    readBE16_disjoint (by omega), readBE16_same]

/-- The length is cut to 16 bits. -/
lemma totalLength_fillHeader (h : TcpPortHandler) (p : Packet) (key optionSize window : Nat) :
    totalLength (fillHeader h p key optionSize window).bytes = p.size % 65536 := by
  have hf : totalLength (fillHeader h p key optionSize window).bytes =
      totalLength (writeBE16 (padOptions p.bytes optionSize) 16 p.size) := by
    rw [totalLength, totalLength, fillHeader]
    dsimp only
    apply readBE16_congr <;> rw [writeBE16_outside (by omega), writeBE32_outside (by omega),
      writeBE16_outside (by omega), writeBE32_outside (by omega),
      writeByte_outside (by omega), writeBE16_outside (by omega),
      writeBE32_outside (by omega), writeBE32_outside (by omega)]
  rw [hf]
  exact readBE16_same

lemma payloadStart_le (bytes : Memory) : payloadStart bytes ≤ 94 := by
  rw [payloadStart, dataOffset]
  omega

lemma segmentLen_eq (bytes : Memory) :
    segmentLen bytes = max 1 (totalLength bytes - payloadStart bytes) := by
  rw [segmentLen, payloadStart, Nat.add_comm]

lemma not_segmentSurvives_of_totalLength (isTotal : totalLength p.bytes = p.size % 65536)
    (length : Nat) : ¬ SegmentSurvives config p filled length := by
  intro hsu
  have stop := hsu.stop
  have hs := hsu.sender
  have ham := payloadStart_le p.bytes
  have hal : 34 ≤ payloadStart p.bytes := Nat.le_add_right _ _
  rw [payloadEnd, segmentFrame, totalLength_ipv4Transmit] at stop
  rw [segmentLen_eq, isTotal] at hs
  dsimp only at stop
  omega

/-- The byte that the sums add for an odd length of the frame. -/
def tcpOddByte (bytes : Memory) (stop : Nat) : Nat :=
  if stop % 2 ≠ 0 then (bytes (stop - 1)).toNat else 0

lemma tcpSum_eq {bytes : Memory} {total : Nat} (isTotal : totalLength bytes = total)
    (isIhl : ihl bytes = 5) (enough : 20 ≤ total) (small : total < 65536) :
    tcpSum bytes = addressSum bytes + protocol bytes + (total - 20) +
      tcpOddByte bytes total + wordSum bytes 34 ((total - 20) / 2) := by
  have hl : tcpLength bytes =
    total - 20 := by rw [tcpLength, isTotal, isIhl, wsub_of_le enough (by omega)]
  rw [tcpSum, hl, payloadEnd, isTotal, tcpOddByte]
  rcases Nat.mod_two_eq_zero_or_one total with _ | isOdd
  · rw [if_neg (by omega), if_neg (by omega)]
  · rw [if_pos (by omega), if_pos (by omega)]

lemma tcpOddByte_lt (bytes : Memory) (stop : Nat) : tcpOddByte bytes stop < 256 := by
  rw [tcpOddByte]
  split
  · exact (bytes _).toNat_lt
  · decide

lemma ihl_ipv4Transmit (config : Ipv4Config) (p : Packet) :
    ihl (ipv4Transmit config p).bytes = ihl p.bytes := by
  rw [ipv4Transmit, computeIpv4Csum]
  dsimp only [ihl]
  rw [writeBE16_outside (by omega), writeBE16_outside (by omega),
    writeBE16_outside (by omega), writeByte_outside (by omega)]

lemma tcpSum_segmentFrame (isIhl : ihl filled = 5) (cleared : writeBE16 filled 50 0 = filled)
    (enough : 54 ≤ p.size) (small : p.size < 65536) :
    tcpSum (segmentFrame config p filled).bytes =
      addressSum filled + protocol filled + (p.size - 34) +
        tcpOddByte (computeTcpChecksum filled) (p.size - 14) +
        wordSum filled 34 ((p.size - 34) / 2) + foldCsum (tcpSum filled) := by
  have ht : totalLength (segmentFrame config p filled).bytes = p.size - 14 := by
    rw [segmentFrame, totalLength_ipv4Transmit]
    exact Nat.mod_eq_of_lt (lt_of_le_of_lt (Nat.sub_le _ _) small)
  have hsi : ihl (segmentFrame config p filled).bytes = 5 := by
    rw [segmentFrame, ihl_ipv4Transmit, ← isIhl]
    dsimp only [ihl, computeTcpChecksum]
    rw [writeBE16_outside (by omega)]
  have same : ∀ x, 26 ≤ x → (segmentFrame config p filled).bytes x = computeTcpChecksum filled x :=
    fun x behind => ipv4Transmit_outside config _ (.inr behind)
  have ha : addressSum (segmentFrame config p filled).bytes = addressSum filled := by
    apply addressSum_congr
    intro x lower _
    rw [same x lower, computeTcpChecksum, writeBE16_outside (by omega)]
  have hp : protocol (segmentFrame config p filled).bytes = protocol filled := by
    rw [segmentFrame, protocol_ipv4Transmit]
    dsimp only [protocol, computeTcpChecksum]
    rw [writeBE16_outside (by omega)]
  have odd : tcpOddByte (segmentFrame config p filled).bytes (p.size - 14) =
      tcpOddByte (computeTcpChecksum filled) (p.size - 14) := by
    rw [tcpOddByte, tcpOddByte, same _ (by omega)]
  have words : wordSum (segmentFrame config p filled).bytes 34 ((p.size - 34) / 2) =
      wordSum filled 34 ((p.size - 34) / 2) + foldCsum (tcpSum filled) := by
    have hw : wordSum (segmentFrame config p filled).bytes 34 ((p.size - 34) / 2) =
        wordSum (writeBE16 filled (34 + 2 * 8) (foldCsum (tcpSum filled))) 34 ((p.size - 34) / 2) :=
      wordSum_congr fun x lower _ => same x (by omega)
    have hcs : foldCsum (tcpSum filled) < 65536 := by
      rw [foldCsum]
      omega
    rw [hw, wordSum_writeBE16 (by omega) hcs, cleared]
  have hl : p.size - 14 - 20 = p.size - 34 := by omega
  rw [tcpSum_eq ht hsi (by omega) (by omega), ha, hp, odd, hl, words]
  omega

/-- The receiver's check passes if and only if the 14 bytes behind the packet
in the memory of the sender make up for the two lengths. -/
theorem verifyTcpChecksum_segmentFrame_iff (isTotal : totalLength filled = p.size)
    (isIhl : ihl filled = 5)
    (cleared : writeBE16 filled 50 0 = filled) (enough : 54 ≤ p.size) (small : p.size < 65536) :
    verifyTcpChecksum (segmentFrame config p filled).bytes = true ↔ (14 + tcpOddByte filled p.size +
          wordSum filled (34 + 2 * ((p.size - 34) / 2)) 7) % 65535 =
        tcpOddByte (computeTcpChecksum filled) (p.size - 14) % 65535 := by
  have ha := addressSum_le filled
  have hp : protocol filled < 256 := (filled 23).toNat_lt
  have words := wordSum_le filled 34 ((p.size - 34) / 2)
  have hb := wordSum_le filled (34 + 2 * ((p.size - 34) / 2)) 7
  have odd := tcpOddByte_lt filled p.size
  have hso := tcpOddByte_lt (computeTcpChecksum filled) (p.size - 14)
  have hc : (p.size - 20) / 2 = (p.size - 34) / 2 + 7 := by omega
  have isSum := tcpSum_eq isTotal isIhl (by omega) small
  rw [hc, wordSum_add] at isSum
  rw [verifyTcpChecksum, decide_eq_true_iff, tcpSum_segmentFrame isIhl cleared enough small,
    foldCsum_add_iff (by omega) (by omega), isSum]
  omega

theorem verifyTcpChecksum_segmentFrame_iff_zeros : ¬ verifyTcpChecksum (segmentFrame ⟨64, 64⟩
    ⟨fun _ => 0, 54⟩ fun x => if x = 14 then 69 else if x = 17 then 54 else 0).bytes = true := by
  rw [verifyTcpChecksum_segmentFrame_iff (by decide) (by decide)
    (by funext x; simp [writeBE16]; grind) (by decide) (by decide)]
  decide

/-- No segment survives the send path: whatever the state of the connection and
whatever is written into the packet. -/
theorem segmentSurvives_iff (env : TcpEnv) (h : TcpPortHandler)
    (config : Ipv4Config) (payload : List UInt8) (optionSize window : Nat) (filled : Memory) :
    SegmentSurvives config (createPacket env h payload.length optionSize window).1 filled
        payload.length ↔ False := by
  rw [iff_false]
  apply not_segmentSurvives_of_totalLength
  exact totalLength_fillHeader h _ _ _ _

/-- A segment with the two bytes of payload 104 and 105: the receiver takes the
payload to end twelve bytes before its start. -/
theorem not_segmentSurvives_twoBytes : ¬ SegmentSurvives ⟨64, 64⟩
      (createPacket ⟨⟨64, 64⟩, fun _ => 0, 0, 0⟩
        ⟨1, 80, .established, { remoteHost := 2 }, fun _ => none, fun _ => none,
          [], []⟩ 2 0 16384).1
      (fun x => if x = 54 then 104 else if x = 55 then 105 else
        (createPacket ⟨⟨64, 64⟩, fun _ => 0, 0, 0⟩
          ⟨1, 80, .established, { remoteHost := 2 }, fun _ => none,
            fun _ => none, [], []⟩ 2 0 16384).1.bytes x) 2 := by
  intro hs
  exact absurd hs.stop (by decide +kernel)

end OoOS.Net
