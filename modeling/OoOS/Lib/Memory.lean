import Mathlib.Tactic.Ring

/-!
# Byte memory with little-endian words

Memory is a function from addresses to bytes.  A word of any width is read and
written at any address; a write changes the bytes of its own range and no
others.
-/

namespace OoOS.Lib

abbrev Memory := Nat → UInt8

def readLE (memory : Memory) : (addr width : Nat) → Nat
  | _, 0 => 0
  | addr, width + 1 => (memory addr).toNat + 256 * readLE memory (addr + 1) width

def writeLE (memory : Memory) (addr width value : Nat) : Memory :=
  fun x =>
    if addr ≤ x ∧ x < addr + width then
      UInt8.ofNat (value / 256 ^ (x - addr))
    else memory x

variable {memory other : Memory} {addr width value : Nat}

lemma readLE_lt (memory : Memory) (addr width : Nat) :
    readLE memory addr width < 256 ^ width := by
  induction width generalizing addr with
  | zero => simp [readLE]
  | succ width ih =>
    have tail := ih (addr + 1)
    have byte := (memory addr).toNat_lt
    rw [readLE, Nat.pow_succ]
    omega

lemma readLE_zero (addr width : Nat) : readLE (fun _ => 0) addr width = 0 := by
  induction width generalizing addr with
  | zero => rfl
  | succ width ih =>
    rw [readLE, ih]
    rfl

lemma readLE_congr (same : ∀ x, addr ≤ x → x < addr + width → memory x = other x) :
    readLE memory addr width = readLE other addr width := by
  induction width generalizing addr with
  | zero => rfl
  | succ width ih =>
    have head : memory addr = other addr := same addr (by omega) (by omega)
    have tail : readLE memory (addr + 1) width = readLE other (addr + 1) width := ih
        (fun x _ _ => same x (by omega) (by omega))
    rw [readLE, readLE, head, tail]

lemma writeLE_outside {x : Nat} (outside : x < addr ∨ addr + width ≤ x) :
    writeLE memory addr width value x = memory x := by
  have hni : ¬ (addr ≤ x ∧ x < addr + width) := by omega
  rw [writeLE, if_neg hni]

lemma readLE_disjoint {from_ count : Nat} (apart : from_ + count ≤ addr ∨ addr + width ≤ from_) :
    readLE (writeLE memory addr width value) from_ count = readLE memory from_ count :=
  readLE_congr (fun x _ _ => writeLE_outside (by omega))

private lemma readLE_of_bytes
    (bytes : ∀ offset < width, memory (addr + offset) = UInt8.ofNat (value / 256 ^ offset)) :
    readLE memory addr width = value % 256 ^ width := by
  induction width generalizing addr value with
  | zero => simp [readLE, Nat.mod_one]
  | succ width ih =>
    have head : memory addr = UInt8.ofNat value := by simpa using bytes 0 (by omega)
    have tail : readLE memory (addr + 1) width = value / 256 % 256 ^ width := by
      apply ih
      intro offset _
      have byte := bytes (offset + 1) (by omega)
      rw [Nat.pow_succ, Nat.mul_comm, ← Nat.div_div_eq_div_mul] at byte
      have sameAddr : addr + 1 + offset = addr + (offset + 1) := by omega
      rw [sameAddr]
      exact byte
    have low : (UInt8.ofNat value).toNat = value % 256 := by simp
    rw [readLE, head, tail, low, Nat.pow_succ, Nat.mul_comm (256 ^ width), Nat.mod_mul]

lemma readLE_same :
    readLE (writeLE memory addr width value) addr width = value % 256 ^ width := by
  apply readLE_of_bytes
  intro offset _
  have hin : addr ≤ addr + offset ∧ addr + offset < addr + width := by omega
  have hd : addr + offset - addr = offset := by omega
  rw [writeLE, if_pos hin, hd]

end OoOS.Lib
