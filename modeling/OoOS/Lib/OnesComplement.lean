import OoOS.Lib.Memory

/-!
# One's complement sums of big-endian words

Sums of 16-bit words are kept in 32 bits and folded: the upper half is added to
the lower one.
-/

namespace OoOS.Lib

def readBE16 (memory : Memory) (addr : Nat) : Nat :=
  (memory addr).toNat * 256 + (memory (addr + 1)).toNat

def writeBE16 (memory : Memory) (addr value : Nat) : Memory := fun x =>
  if x = addr then UInt8.ofNat (value / 256)
  else if x = addr + 1 then UInt8.ofNat value
  else memory x

def writeByte (memory : Memory) (addr : Nat) (value : UInt8) : Memory :=
  fun x => if x = addr then value else memory x

section

variable {memory other : Memory} {addr value : Nat}

lemma readBE16_lt (memory : Memory) (addr : Nat) : readBE16 memory addr < 65536 := by
  have first := (memory addr).toNat_lt
  have second := (memory (addr + 1)).toNat_lt
  rw [readBE16]
  omega

lemma readBE16_congr (first : memory addr = other addr)
    (second : memory (addr + 1) = other (addr + 1)) :
    readBE16 memory addr = readBE16 other addr := by
  rw [readBE16, readBE16, first, second]

lemma writeBE16_outside {x : Nat} (outside : x < addr ∨ addr + 2 ≤ x) :
    writeBE16 memory addr value x = memory x := by
  rw [writeBE16, if_neg (by omega), if_neg (by omega)]

open Nat

lemma readBE16_same : readBE16 (writeBE16 memory addr value) addr = value % 65536 := by
  have first : writeBE16 memory addr value addr = UInt8.ofNat (value / 256) := if_pos rfl
  have second : writeBE16 memory addr value (addr + 1) = UInt8.ofNat value := by
    rw [writeBE16, if_neg (succ_ne_self addr), if_pos rfl]
  rw [readBE16, first, second, UInt8.toNat_ofNat', UInt8.toNat_ofNat']
  omega

lemma readBE16_disjoint {place : Nat} (apart : place + 2 ≤ addr ∨ addr + 2 ≤ place) :
    readBE16 (writeBE16 memory addr value) place = readBE16 memory place := by
  apply readBE16_congr
  · exact writeBE16_outside (by omega)
  · exact writeBE16_outside (by omega)

lemma writeBE16_read (memory : Memory) (addr : Nat) :
    writeBE16 memory addr (readBE16 memory addr) = memory := by
  have first := (memory addr).toNat_lt
  have second := (memory (addr + 1)).toNat_lt
  funext x
  rw [writeBE16, readBE16]
  split
  · subst x
    apply UInt8.toNat_inj.mp
    rw [UInt8.toNat_ofNat']
    omega
  split
  · subst x
    apply UInt8.toNat_inj.mp
    rw [UInt8.toNat_ofNat']
    omega
  · rfl

end

def wordSum (memory : Memory) : (addr count : Nat) → Nat
  | _, 0 => 0
  | addr, count + 1 => readBE16 memory addr + wordSum memory (addr + 2) count

variable {memory other : Memory} {addr count : Nat}

lemma wordSum_le (memory : Memory) (addr count : Nat) :
    wordSum memory addr count ≤ 65535 * count := by
  induction count generalizing addr with
  | zero => exact le_refl _
  | succ count ih =>
    have head := readBE16_lt memory addr
    have tail := ih (addr + 2)
    rw [wordSum]
    omega

lemma wordSum_congr (same : ∀ x, addr ≤ x → x < addr + 2 * count → memory x = other x) :
    wordSum memory addr count = wordSum other addr count := by
  induction count generalizing addr with
  | zero => rfl
  | succ count ih =>
    have head := readBE16_congr (same addr (by omega) (by omega))
      (same (addr + 1) (by omega) (by omega))
    have tail : wordSum memory (addr + 2) count = wordSum other (addr + 2) count :=
      ih fun x _ _ => same x (by omega) (by omega)
    rw [wordSum, wordSum, head, tail]

lemma wordSum_add (memory : Memory) (addr first second : Nat) :
    wordSum memory addr (first + second) = wordSum memory addr first +
        wordSum memory (addr + 2 * first) second := by
  induction first generalizing addr with
  | zero => rw [zero_add, mul_zero, add_zero, wordSum, zero_add]
  | succ first ih =>
    have hr : first + 1 + second = first + second + 1 := by omega
    have hs : addr + 2 + 2 * first = addr + 2 * (first + 1) := by omega
    rw [hr, wordSum, wordSum, ih, hs, add_assoc]

/-- Writing a word adds it to the sum without it. -/
lemma wordSum_writeBE16 {index value : Nat} (inside : index < count) (small : value < 65536) :
    wordSum (writeBE16 memory (addr + 2 * index) value) addr count =
      wordSum (writeBE16 memory (addr + 2 * index) 0) addr count + value := by
  obtain ⟨rest, rfl⟩ : ∃ rest, count = index + (rest + 1) := ⟨count - index - 1, by omega⟩
  have hb : wordSum (writeBE16 memory (addr + 2 * index) value) addr index =
      wordSum (writeBE16 memory (addr + 2 * index) 0) addr index := by
    apply wordSum_congr
    intro x lower upper
    rw [writeBE16_outside (.inl upper), writeBE16_outside (.inl upper)]
  have hbe : wordSum (writeBE16 memory (addr + 2 * index) value) (addr + 2 * index + 2) rest =
      wordSum (writeBE16 memory (addr + 2 * index) 0) (addr + 2 * index + 2) rest := by
    apply wordSum_congr
    intro x lower upper
    rw [writeBE16_outside (.inr lower), writeBE16_outside (.inr lower)]
  rw [wordSum_add _, wordSum_add _ addr index (rest + 1),
    wordSum, wordSum, hb, hbe, readBE16_same,
    readBE16_same, Nat.mod_eq_of_lt small, Nat.zero_mod]
  omega

def foldSum (sum : Nat) : Nat := sum / 65536 % 65536 + sum % 65536

/-- The value of a sum in one's complement: zero for no summands, otherwise
from 1 to 65535. -/
def onesSum (sum : Nat) : Nat := if sum = 0 then 0 else (sum - 1) % 65535 + 1

lemma onesSum_le (sum : Nat) : onesSum sum ≤ 65535 := by
  rw [onesSum]
  split
  · exact Nat.zero_le _
  · omega

variable {sum : Nat}

lemma onesSum_pos (pos : 0 < sum) : 0 < onesSum sum := by
  rw [onesSum, if_neg (ne_of_gt pos)]
  exact Nat.succ_pos _

lemma onesSum_mod (sum : Nat) : onesSum sum % 65535 = sum % 65535 := by
  rw [onesSum]
  split
  case isTrue isZero => rw [isZero]
  case isFalse notZero => omega

lemma onesSum_eq_iff {first second : Nat} (firstPositive : 0 < first)
    (secondPositive : 0 < second) :
    onesSum first = onesSum second ↔ first % 65535 = second % 65535 := by
  rw [onesSum, onesSum, if_neg (ne_of_gt firstPositive), if_neg (ne_of_gt secondPositive)]
  omega

lemma onesSum_foldSum (small : sum < 2 ^ 32) : onesSum (foldSum sum) = onesSum sum := by
  have hh : sum / 65536 % 65536 = sum / 65536 := Nat.mod_eq_of_lt (by omega)
  rw [foldSum, hh, onesSum, onesSum]
  split
  case isTrue isZero => rw [if_pos (by omega)]
  case isFalse notZero =>
    rw [if_neg (by omega)]
    omega

/-- Two folds of a sum of 32 bits give its value in one's complement. -/
lemma foldSum_foldSum (small : sum < 2 ^ 32) : foldSum (foldSum sum) = onesSum sum := by
  have once : foldSum sum ≤ 131070 := by
    rw [foldSum]
    omega
  rw [← onesSum_foldSum small]
  generalize foldSum sum = hf at *
  rw [foldSum, onesSum]
  split
  case isTrue isZero => rw [isZero]
  case isFalse notZero =>
    rcases lt_or_ge hf 65536 with below | _
    · have hh := Nat.div_eq_of_lt below
      omega
    omega

/-- The complement of one sum makes another sum full if and only if the two
agree modulo 65535. -/
lemma onesSum_complement_iff {other : Nat} :
    onesSum (other + (65535 - onesSum sum)) = 65535 ↔ 0 < other + (65535 - onesSum sum) ∧
        other % 65535 = sum % 65535 := by
  have ham := onesSum_le sum
  have hsm := onesSum_mod sum
  rw [onesSum]
  split <;> omega

end OoOS.Lib
