import OoOS.Net.Ipv4

/-!
# UDP datagrams on their way out

Of a datagram of odd length the code adds the byte at `udp_length - 1` from the
start of the whole frame, as the lower byte of a word.
-/

namespace OoOS.Net

open Lib

def udpLength (bytes : Memory) : Nat := readBE16 bytes 38

def udpCsum (bytes : Memory) : Nat := readBE16 bytes 40

def udpOddByte (bytes : Memory) : Nat :=
  if udpLength bytes % 2 ≠ 0 then (bytes (udpLength bytes - 1)).toNat else 0

def udpSum (bytes : Memory) : Nat :=
  addressSum bytes + protocol bytes + udpLength bytes + udpOddByte bytes +
    wordSum bytes 34 (udpLength bytes / 2)

def computeUdpCsum (bytes : Memory) : Memory :=
  let cleared := writeBE16 bytes 40 0
  writeBE16 cleared 40 (foldCsum (udpSum cleared))

def verifyUdpCsum (bytes : Memory) : Bool := foldCsum (udpSum bytes) = 0

def udpTransmit (config : Ipv4Config) (p : Packet) : Packet :=
  ipv4Transmit config
    { p with bytes := computeUdpCsum (writeBE16 p.bytes 38 (p.size - 34)) }

def paddedFrom (bytes : Memory) (stop : Nat) : Memory := fun x =>
  if x < stop then bytes x else 0

/-- RFC 768: the pseudo header, the UDP header with an empty checksum field and
the payload, padded with zero to an even length. -/
def rfc768Sum (bytes : Memory) (length : Nat) : Nat :=
  addressSum bytes + protocol bytes + length +
    wordSum (paddedFrom (writeBE16 bytes 40 0) (34 + length)) 34
      ((length + 1) / 2)

def rfc768 (bytes : Memory) (length : Nat) : Nat := 65535 - onesSum (rfc768Sum bytes length)

/-- RFC 768: a computed checksum of zero is transmitted as all ones. -/
def rfc768Transmitted (bytes : Memory) (length : Nat) : Nat :=
  if rfc768 bytes length = 0 then 65535 else rfc768 bytes length

structure UdpSent (sent : Packet) (checksum : Nat) : Prop where
  ipv4 : verifyIpv4Csum sent.bytes = true
  udp : verifyUdpCsum sent.bytes = true
  rfc : udpCsum sent.bytes = checksum

def staged (p : Packet) : Memory := writeBE16 (writeBE16 p.bytes 38 (p.size - 34)) 40 0

/-- The documented frame of a datagram: its own checksum, the time to live, the
total length and the checksum of the IPv4 header. -/
def documentedFrame (config : Ipv4Config) (p : Packet) : Memory :=
  let summed := writeBE16 (staged p) 40 (rfc768 (staged p) (p.size - 34))
  let lived := writeByte summed 22 (timeToLive config p.bytes)
  let sized := writeBE16 (writeBE16 lived 16 (p.size - 14)) 24 0
  writeBE16 sized 24 (65535 - onesSum (wordSum sized 14 10))

/-- For an odd length: the last byte and the one that the code takes for it are
zero. -/
structure ZeroOddByte (config : Ipv4Config) (p : Packet) : Prop where
  last : p.bytes (p.size - 1) = 0
  taken : staged p (p.size - 35) = 0
  kept : documentedFrame config p (p.size - 35) = 0

variable {config : Ipv4Config} {p : Packet}

lemma udpLength_congr {first second : Memory} (same : ∀ x, 34 ≤ x → x < 40 → first x = second x) :
    udpLength first = udpLength second :=
  readBE16_congr (same _ (by omega) (by omega)) (same _ (by omega) (by omega))

lemma udpLength_staged (small : p.size ≤ 65549) : udpLength (staged p) = p.size - 34 := by
  rw [udpLength, staged, readBE16_disjoint (by omega), readBE16_same]
  exact Nat.mod_eq_of_lt (by omega)

lemma protocol_lt (bytes : Memory) : protocol bytes < 256 := (bytes 23).toNat_lt

def evenSum (p : Packet) : Nat :=
  addressSum (staged p) + protocol (staged p) + (p.size - 34) +
    wordSum (staged p) 34 ((p.size - 34) / 2)

lemma evenSum_pos (enough : 42 ≤ p.size) : 0 < evenSum p := by
  rw [evenSum]
  omega

lemma evenSum_le (small : p.size ≤ 65549) : evenSum p < 2 ^ 31 := by
  have ha := addressSum_le (staged p)
  have hb := protocol_lt (staged p)
  have words := wordSum_le (staged p) 34 ((p.size - 34) / 2)
  rw [evenSum]
  omega

lemma udpSum_staged (small : p.size ≤ 65549) :
    udpSum (staged p) = evenSum p + udpOddByte (staged p) := by
  rw [udpSum, udpLength_staged small, evenSum]
  omega

lemma udpOddByte_le (bytes : Memory) : udpOddByte bytes < 256 := by
  rw [udpOddByte]
  split
  · exact (bytes _).toNat_lt
  · decide

def storedCsum (p : Packet) : Nat := foldCsum (udpSum (staged p))

lemma storedCsum_lt (p : Packet) : storedCsum p < 65536 := by
  rw [storedCsum, foldCsum]
  omega

lemma storedCsum_ne (enough : 42 ≤ p.size) (small : p.size ≤ 65549) : storedCsum p ≠ 65535 := by
  have hes := evenSum_le small
  have hb := udpOddByte_le (staged p)
  have pos := onesSum_pos (Nat.add_pos_left (evenSum_pos enough) (udpOddByte (staged p)))
  rw [storedCsum, udpSum_staged small, foldCsum_eq (by omega)]
  omega

lemma udpTransmit_bytes : udpTransmit config p = ipv4Transmit config
      { p with bytes := writeBE16 (staged p) 40 (storedCsum p) } :=
  rfl

lemma udpTransmit_behind {x : Nat} (behind : 26 ≤ x) (outside : x < 40 ∨ 42 ≤ x) :
    (udpTransmit config p).bytes x = staged p x := by
  rw [udpTransmit_bytes, ipv4Transmit_outside config _ (.inr behind)]
  exact writeBE16_outside outside

lemma udpCsum_udpTransmit : udpCsum (udpTransmit config p).bytes = storedCsum p := by
  have hc : udpCsum (udpTransmit config p).bytes =
      udpCsum (writeBE16 (staged p) 40 (storedCsum p)) :=
    readBE16_congr (ipv4Transmit_outside config _ (by omega))
      (ipv4Transmit_outside config _ (by omega))
  rw [hc, udpCsum, readBE16_same]
  exact Nat.mod_eq_of_lt (storedCsum_lt p)

lemma addressSum_udpTransmit : addressSum (udpTransmit config p).bytes = addressSum (staged p) :=
  addressSum_congr fun _ lower _ => udpTransmit_behind lower (by omega)

lemma protocol_udpTransmit : protocol (udpTransmit config p).bytes = protocol (staged p) := by
  rw [udpTransmit_bytes, protocol_ipv4Transmit]
  dsimp only [protocol]
  rw [writeBE16_outside (by omega)]

lemma udpLength_udpTransmit : udpLength (udpTransmit config p).bytes = udpLength (staged p) :=
  udpLength_congr fun _ _ _ => udpTransmit_behind (by omega) (by omega)

lemma wordSum_udpTransmit (enough : 42 ≤ p.size) :
    wordSum (udpTransmit config p).bytes 34 ((p.size - 34) / 2) =
      wordSum (staged p) 34 ((p.size - 34) / 2) + storedCsum p := by
  have hf : wordSum (udpTransmit config p).bytes 34 ((p.size - 34) / 2) =
      wordSum (writeBE16 (staged p) (34 + 2 * 3) (storedCsum p)) 34 ((p.size - 34) / 2) :=
    wordSum_congr fun x _ _ => ipv4Transmit_outside config _ (.inr (by omega))
  rw [hf, wordSum_writeBE16 (by omega) (storedCsum_lt p), staged, writeBE16_twice]

lemma udpSum_udpTransmit (enough : 42 ≤ p.size) (small : p.size ≤ 65549) :
    udpSum (udpTransmit config p).bytes =
      evenSum p + udpOddByte (udpTransmit config p).bytes + storedCsum p := by
  rw [udpSum, addressSum_udpTransmit, protocol_udpTransmit,
    udpLength_udpTransmit, udpLength_staged small, wordSum_udpTransmit enough, evenSum]
  omega

/-- The receiver's check passes if and only if the byte taken for an odd length
is the one that was taken for the checksum. -/
lemma verifyUdpCsum_iff (enough : 42 ≤ p.size) (small : p.size ≤ 65549) :
    verifyUdpCsum (udpTransmit config p).bytes = true ↔
      udpOddByte (udpTransmit config p).bytes = udpOddByte (staged p) := by
  have pos := evenSum_pos enough
  have hes := evenSum_le small
  have hsb := udpOddByte_le (udpTransmit config p).bytes
  have hh := udpOddByte_le (staged p)
  rw [verifyUdpCsum, decide_eq_true_iff, udpSum_udpTransmit enough small,
    storedCsum, udpSum_staged small, foldCsum_add_iff (by omega) (by omega)]
  constructor
  · intro _
    omega
  intro same
  rw [same]
  exact ⟨by omega, rfl⟩

/-- The documented sum has the last byte of an odd length as an upper byte. -/
def lastByte (p : Packet) : Nat :=
  if p.size % 2 ≠ 0 then (p.bytes (p.size - 1)).toNat * 256 else 0

lemma rfc768Sum_staged (enough : 42 ≤ p.size) :
    rfc768Sum (staged p) (p.size - 34) = evenSum p + lastByte p := by
  have hs : writeBE16 (staged p) 40 0 = staged p := writeBE16_twice _ 40 0 0
  have hst : 34 + (p.size - 34) = p.size := by omega
  have hin : wordSum (paddedFrom (staged p) p.size) 34
        ((p.size - 34) / 2) = wordSum (staged p) 34 ((p.size - 34) / 2) :=
    wordSum_congr fun x _ _ => if_pos (by omega)
  rw [rfc768Sum, hs, hst, evenSum, lastByte]
  split
  case isTrue isOdd =>
    have hl : staged p (p.size - 1) = p.bytes (p.size - 1) := by
      rw [staged, writeBE16_outside (by omega), writeBE16_outside (by omega)]
    have hp : 34 + 2 * ((p.size - 34) / 2) = p.size - 1 := by omega
    have hc : (p.size - 34 + 1) / 2 = (p.size - 34) / 2 + 1 := by omega
    have first : paddedFrom (staged p) p.size (p.size - 1) = p.bytes (p.size - 1) := by
      rw [paddedFrom, if_pos (by omega), hl]
    have second : paddedFrom (staged p) p.size (p.size - 1 + 1) = 0 := if_neg (by omega)
    rw [hc, wordSum_add, hin, hp, wordSum, wordSum, readBE16, first, second]
    simp only [UInt8.toNat_zero]
    omega
  case isFalse isEven =>
    have hc : (p.size - 34 + 1) / 2 = (p.size - 34) / 2 := by omega
    rw [hc, hin, Nat.add_zero]

lemma rfc768_udpTransmit :
    rfc768 (udpTransmit config p).bytes (p.size - 34) = rfc768 (staged p) (p.size - 34) := by
  have hw : wordSum (paddedFrom
        (writeBE16 (udpTransmit config p).bytes 40 0) (34 + (p.size - 34))) 34
        ((p.size - 34 + 1) / 2) =
      wordSum (paddedFrom (writeBE16 (staged p) 40 0) (34 + (p.size - 34))) 34
        ((p.size - 34 + 1) / 2) := by
    apply wordSum_congr
    intro x _ _
    rw [paddedFrom, paddedFrom]
    split
    · rw [writeBE16, writeBE16]
      split
      · rfl
      split
      · rfl
      · exact udpTransmit_behind (by omega) (by omega)
    · rfl
  rw [rfc768, rfc768, rfc768Sum, rfc768Sum, addressSum_udpTransmit, protocol_udpTransmit, hw]

/-- The byte taken for an odd length must be the last one with the weight of an
upper byte. -/
lemma storedCsum_eq_iff (enough : 42 ≤ p.size) (small : p.size ≤ 65549) :
    storedCsum p = rfc768 (staged p) (p.size - 34) ↔ udpOddByte (staged p) = lastByte p := by
  have pos := evenSum_pos enough
  have hes := evenSum_le small
  have hsb := udpOddByte_le (staged p)
  have hls : lastByte p ≤ 65280 := by
    have hb := (p.bytes (p.size - 1)).toNat_lt
    rw [lastByte]
    split
    · omega
    · exact Nat.zero_le _
  have hst := onesSum_le (evenSum p + udpOddByte (staged p))
  have hd := onesSum_le (evenSum p + lastByte p)
  have hss := onesSum_eq_iff (Nat.add_pos_left pos (udpOddByte (staged p)))
    (Nat.add_pos_left pos (lastByte p))
  rw [storedCsum, udpSum_staged small, foldCsum_eq (by omega), rfc768, rfc768Sum_staged enough]
  constructor
  · intro same
    omega
  intro same
  rw [same]

lemma udpOddByte_eq {bytes : Memory} (enough : 42 ≤ p.size)
    (isLength : udpLength bytes = p.size - 34) :
    udpOddByte bytes = if p.size % 2 ≠ 0 then (bytes (p.size - 35)).toNat else 0 := by
  have hp : p.size - 34 - 1 = p.size - 35 := by omega
  rw [udpOddByte, isLength, hp]
  rcases Nat.mod_two_eq_zero_or_one p.size with _ | isOdd
  · rw [if_neg (by omega), if_neg (by omega)]
  · rw [if_pos (by omega), if_pos (by omega)]

lemma udpOddByte_eq_lastByte_iff (enough : 42 ≤ p.size) (small : p.size ≤ 65549) :
    udpOddByte (staged p) = lastByte p ↔ p.size % 2 = 0 ∨
        p.bytes (p.size - 1) = 0 ∧ staged p (p.size - 35) = 0 := by
  have ht := (staged p (p.size - 35)).toNat_lt
  rw [udpOddByte_eq enough (udpLength_staged small), lastByte,
    ← UInt8.toNat_inj, ← UInt8.toNat_inj, UInt8.toNat_zero]
  rcases Nat.mod_two_eq_zero_or_one p.size with hev | isOdd
  · rw [if_neg (by omega), if_neg (by omega)]
    exact ⟨fun _ => .inl hev, fun _ => rfl⟩
  rw [if_pos (by omega), if_pos (by omega)]
  omega

/-- With the right checksum the frame is as documented. -/
lemma udpTransmit_documented (same : storedCsum p = rfc768 (staged p) (p.size - 34)) :
    (udpTransmit config p).bytes = documentedFrame config p := by
  have ht : timeToLive config (writeBE16 (staged p) 40 (storedCsum p)) =
      timeToLive config p.bytes := by
    have hw : protocolType (writeBE16 (staged p) 40 (storedCsum p)) = protocolType p.bytes := by
      rw [protocolType, protocolType, readBE16_disjoint (by omega),
        staged, readBE16_disjoint (by omega), readBE16_disjoint (by omega)]
    rw [timeToLive, timeToLive, hw]
  rw [udpTransmit_bytes, ipv4Transmit, documentedFrame]
  rw [ht, computeIpv4Csum, same, foldCsum_eq]
  apply lt_of_le_of_lt (wordSum_le _ _ _)
  decide

/-- When a datagram passes both checks and has the documented checksum. -/
theorem udpSent_iff (config : Ipv4Config) (p : Packet) (enough : 42 ≤ p.size)
    (small : p.size ≤ 65549) :
    (UdpSent (udpTransmit config p) (rfc768 (udpTransmit config p).bytes (p.size - 34)) ↔
      p.size % 2 = 0 ∨ ZeroOddByte config p) ∧ (UdpSent (udpTransmit config p)
        (rfc768Transmitted (udpTransmit config p).bytes (p.size - 34)) ↔
      (p.size % 2 = 0 ∨ ZeroOddByte config p) ∧ rfc768 (staged p) (p.size - 34) ≠ 0) := by
  have ipv4 : verifyIpv4Csum (udpTransmit config p).bytes = true :=
    verifyIpv4Csum_ipv4Transmit config _
  have hstb := udpOddByte_eq enough (udpLength_staged small)
  have hsle : udpLength (udpTransmit config p).bytes = p.size - 34 :=
    udpLength_udpTransmit.trans (udpLength_staged small)
  have hsby := udpOddByte_eq enough hsle
  have hc : UdpSent (udpTransmit config p) (rfc768 (udpTransmit config p).bytes (p.size - 34)) ↔
      p.size % 2 = 0 ∨ ZeroOddByte config p := by
    rw [rfc768_udpTransmit]
    constructor
    · rintro ⟨_, udp, rfc⟩
      rw [udpCsum_udpTransmit] at rfc
      have hsb := (verifyUdpCsum_iff enough small).mp udp
      have hsl := (storedCsum_eq_iff enough small).mp rfc
      rcases (udpOddByte_eq_lastByte_iff enough small).mp hsl with
        he | ⟨isLast, isTaken⟩
      · exact Or.inl he
      rcases Nat.mod_two_eq_zero_or_one p.size with he | _
      · exact Or.inl he
      refine Or.inr ⟨isLast, isTaken, ?_⟩
      rw [hstb, hsby, if_pos (by omega), if_pos (by omega), UInt8.toNat_inj] at hsb
      rw [← udpTransmit_documented rfc, hsb, isTaken]
    intro hco
    have hsl : udpOddByte (staged p) = lastByte p :=
      (udpOddByte_eq_lastByte_iff enough small).mpr (hco.imp_right fun zero =>
        ⟨zero.last, zero.taken⟩)
    have rfc := (storedCsum_eq_iff enough small).mpr hsl
    refine ⟨ipv4, ?_, udpCsum_udpTransmit.trans rfc⟩
    apply (verifyUdpCsum_iff enough small).mpr
    rw [hstb, hsby]
    rcases hco with he | zero
    · rw [if_neg (by omega), if_neg (by omega)]
    · rw [udpTransmit_documented rfc, zero.kept, zero.taken]
  refine ⟨hc, ?_⟩
  rw [← hc, rfc768Transmitted, rfc768_udpTransmit]
  split
  case isTrue isZero =>
    constructor
    · intro sent
      have ho := sent.rfc
      rw [udpCsum_udpTransmit] at ho
      exact absurd ho (storedCsum_ne enough small)
    intro sent
    exact absurd isZero sent.2
  case isFalse notZero => exact ⟨fun sent => ⟨sent, notZero⟩, fun sent => sent.1⟩

/-- Four bytes of payload. -/
theorem udpSent_iff_fourBytes : UdpSent (udpTransmit ⟨64, 64⟩ ⟨fun x => UInt8.ofNat x, 46⟩)
    (rfc768 (udpTransmit ⟨64, 64⟩ ⟨fun x => UInt8.ofNat x, 46⟩).bytes 12) :=
  (udpSent_iff ⟨64, 64⟩ ⟨fun x => UInt8.ofNat x, 46⟩ (by decide) (by decide)).1.mpr (Or.inl rfl)

/-- A payload of 33 zero bytes: the byte taken for the odd length is the upper
one of the checksum itself. -/
theorem not_udpSent_oddPayload : ¬ ∃ checksum, UdpSent (udpTransmit ⟨64, 64⟩
    ⟨fun x => if x = 23 then 17 else 0, 75⟩) checksum := by
  rintro ⟨checksum, sent⟩
  exact absurd sent.udp (by decide +kernel)

end OoOS.Net
