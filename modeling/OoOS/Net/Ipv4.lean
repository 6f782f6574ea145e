import OoOS.Lib.OnesComplement

/-!
# Packets and the IPv4 header

A packet is the memory at its `packet_data` and its `packet_size`.  The Ethernet
header takes 14 bytes, the IPv4 header without options the 20 bytes behind it.
-/

namespace OoOS.Net

open Lib

structure Packet where
  bytes : Memory
  size : Nat

structure Ipv4Config where
  timeToLiveDefault : UInt8
  timeToLiveTcpDefault : UInt8

def protocolType (bytes : Memory) : Nat := readBE16 bytes 12

def ihl (bytes : Memory) : Nat := (bytes 14).toNat % 16

def totalLength (bytes : Memory) : Nat := readBE16 bytes 16

def protocol (bytes : Memory) : Nat := (bytes 23).toNat

def addressSum (bytes : Memory) : Nat :=
  readBE16 bytes 26 + readBE16 bytes 28 + readBE16 bytes 30 + readBE16 bytes 32

/-- The end of all the checksum functions: the 32-bit sum is folded twice, and
the lower half of the result is complemented. -/
def foldCsum (intermediate : Nat) : Nat := 65535 - foldSum (foldSum (intermediate % 2 ^ 32)) % 65536

def computeIpv4Csum (bytes : Memory) : Memory :=
  let cleared := writeBE16 bytes 24 0
  writeBE16 cleared 24 (foldCsum (wordSum cleared 14 10))

def verifyIpv4Csum (bytes : Memory) : Bool := foldCsum (wordSum bytes 14 10) = 0

/-- The time to live that `protocol_ipv4::transmit` chooses; it compares the
type of the Ethernet header with the number of TCP. -/
def timeToLive (config : Ipv4Config) (bytes : Memory) : UInt8 :=
  if protocolType bytes = 6 then config.timeToLiveTcpDefault
  else config.timeToLiveDefault

def ipv4Transmit (config : Ipv4Config) (p : Packet) : Packet :=
  let lived := writeByte p.bytes 22 (timeToLive config p.bytes)
  let sized := writeBE16 lived 16 (p.size - 14)
  { p with bytes := computeIpv4Csum sized }

variable {sum : Nat}

lemma foldCsum_eq (small : sum < 2 ^ 32) : foldCsum sum = 65535 - onesSum sum := by
  have ham := onesSum_le sum
  rw [foldCsum, Nat.mod_eq_of_lt small, foldSum_foldSum small, Nat.mod_eq_of_lt (by omega)]

lemma foldCsum_eq_zero_iff (small : sum < 2 ^ 32) :
    foldCsum sum = 0 ↔ onesSum sum = 65535 := by
  have ham := onesSum_le sum
  rw [foldCsum_eq small]
  omega

lemma writeBE16_twice (bytes : Memory) (addr first second : Nat) :
    writeBE16 (writeBE16 bytes addr first) addr second = writeBE16 bytes addr second := by
  funext x
  rw [writeBE16, writeBE16, writeBE16]
  split
  · rfl
  split <;> rfl

lemma ipv4Transmit_outside (config : Ipv4Config) (p : Packet) {x : Nat}
    (outside : x < 14 ∨ 26 ≤ x) : (ipv4Transmit config p).bytes x = p.bytes x := by
  rw [ipv4Transmit, computeIpv4Csum]
  dsimp only
  rw [writeBE16_outside (by omega), writeBE16_outside (by omega),
    writeBE16_outside (by omega), writeByte, if_neg (by omega)]

lemma protocol_ipv4Transmit (config : Ipv4Config) (p : Packet) :
    protocol (ipv4Transmit config p).bytes = protocol p.bytes := by
  rw [ipv4Transmit, computeIpv4Csum]
  dsimp only [protocol]
  rw [writeBE16_outside (by omega), writeBE16_outside (by omega),
    writeBE16_outside (by omega), writeByte, if_neg (by omega)]

lemma addressSum_congr {first second : Memory}
    (same : ∀ x, 26 ≤ x → x < 34 → first x = second x) : addressSum first = addressSum second := by
  have hw : ∀ place, 26 ≤ place → place + 1 < 34 → readBE16 first place = readBE16 second place :=
    fun place lower upper => readBE16_congr (same _ lower (by omega)) (same _ (by omega) upper)
  rw [addressSum, addressSum, hw 26 (by omega) (by omega),
    hw 28 (by omega) (by omega), hw 30 (by omega) (by omega), hw 32 (by omega) (by omega)]

lemma addressSum_le (bytes : Memory) : addressSum bytes ≤ 4 * 65535 := by
  have first := readBE16_lt bytes 26
  have second := readBE16_lt bytes 28
  have third := readBE16_lt bytes 30
  have hf := readBE16_lt bytes 32
  rw [addressSum]
  omega

lemma foldCsum_add_iff {other : Nat} (small : sum < 2 ^ 32) (otherSmall : other + 65535 < 2 ^ 32) :
    foldCsum (other + foldCsum sum) = 0 ↔ 0 < other + foldCsum sum ∧
      other % 65535 = sum % 65535 := by
  have hc := foldCsum_eq small
  have hts : other + foldCsum sum < 2 ^ 32 := by omega
  rw [foldCsum_eq_zero_iff hts, hc]
  exact onesSum_complement_iff

/-- What is computed is accepted. -/
lemma verifyIpv4Csum_computeIpv4Csum (bytes : Memory) :
    verifyIpv4Csum (computeIpv4Csum bytes) = true := by
  have ham := wordSum_le (writeBE16 bytes 24 0) 14 10
  have isSum : wordSum (computeIpv4Csum bytes) 14 10 = wordSum (writeBE16 bytes 24 0) 14 10 +
        foldCsum (wordSum (writeBE16 bytes 24 0) 14 10) := by
    have hf : computeIpv4Csum bytes = writeBE16 bytes (14 + 2 * 5)
          (foldCsum (wordSum (writeBE16 bytes 24 0) 14 10)) := writeBE16_twice bytes 24 0 _
    rw [hf]
    apply wordSum_writeBE16 (by decide)
    rw [foldCsum]
    omega
  apply decide_eq_true
  rw [isSum, foldCsum_add_iff (by omega) (by omega)]
  refine ⟨?_, rfl⟩
  rcases Nat.eq_zero_or_pos (wordSum (writeBE16 bytes 24 0) 14 10) with
    hz | pos
  · rw [hz]
    decide
  · exact Nat.add_pos_left pos _

lemma verifyIpv4Csum_ipv4Transmit (config : Ipv4Config) (p : Packet) :
    verifyIpv4Csum (ipv4Transmit config p).bytes = true :=
  verifyIpv4Csum_computeIpv4Csum _

lemma mod_of_verifyIpv4Csum {bytes : Memory} (verified : verifyIpv4Csum bytes = true) :
    wordSum bytes 14 10 % 65535 = 0 := by
  have hs := wordSum_le bytes 14 10
  rw [← onesSum_mod, (foldCsum_eq_zero_iff (by omega)).mp (of_decide_eq_true verified)]

/-- Two folds keep the sum, and only the two zeros of a word pass for each other. -/
theorem ipv4Csum_detects (bytes : Memory) : verifyIpv4Csum (computeIpv4Csum bytes) = true ∧
      (let sum := wordSum bytes 14 10
       foldSum (foldSum sum) < 65536 ∧ foldSum (foldSum sum) % 65535 = sum % 65535 ∧
        (foldSum (foldSum sum) = 0 ↔ sum = 0)) ∧
      ∀ i < 10, ∀ value < 65536, verifyIpv4Csum bytes = true →
        verifyIpv4Csum (writeBE16 bytes (14 + 2 * i) value) = true →
        value ≠ readBE16 bytes (14 + 2 * i) → value = 0 ∧ readBE16 bytes (14 + 2 * i) = 65535 ∨
          value = 65535 ∧ readBE16 bytes (14 + 2 * i) = 0 := by
  refine ⟨verifyIpv4Csum_computeIpv4Csum bytes, ?_, ?_⟩
  · have hs := wordSum_le bytes 14 10
    have hl := onesSum_le (wordSum bytes 14 10)
    dsimp only
    rw [foldSum_foldSum (by omega)]
    refine ⟨by omega, onesSum_mod _, ?_⟩
    rw [onesSum]
    split <;> omega
  intro i hi value hv before after hne
  have hr := readBE16_lt bytes (14 + 2 * i)
  have old := mod_of_verifyIpv4Csum before
  have new := mod_of_verifyIpv4Csum after
  rw [← writeBE16_read bytes (14 + 2 * i), wordSum_writeBE16 hi hr] at old
  rw [wordSum_writeBE16 hi hv] at new
  omega

theorem ipv4Csum_detects_full :
    ¬ verifyIpv4Csum (writeBE16 (writeBE16 (fun _ => 0) 14 65535) 16 1) = true := by
  intro hv
  have both := (ipv4Csum_detects _).2.2 1 (by decide) 1 (by decide) (by decide) hv (by decide)
  revert both
  decide

end OoOS.Net
