import OoOS.Libk.Arith

/-!
# Layout of a tracked region

One status byte describes one region of 512 pages; each bit stands for one block
of the region, or for all of it when the whole byte is set.
-/

namespace OoOS.Mm

open Libk

def pageSize : Nat := 4096

def pageTableLength : Nat := 512

def regionSize : Nat := 2097152

def gigabyte : Nat := 1073741824

def pageAligned (addr : Nat) : Nat := addr - addr % pageSize

def nextPageAligned (addr : Nat) : Nat :=
  if addr % pageSize ≠ 0 then pageAligned (wadd addr pageSize) else addr

inductive BlockIdx where
  | I0 | I1 | I2 | I3 | I4 | I5 | I6 | I7 | ALL
  deriving DecidableEq, Repr

def BlockIdx.mask : BlockIdx → BitVec 8
  | .I0 => 0x01
  | .I1 => 0x02
  | .I2 => 0x04
  | .I3 => 0x08
  | .I4 => 0x10
  | .I5 => 0x20
  | .I6 => 0x40
  | .I7 => 0x80
  | .ALL => 0xFF

inductive BlockSize where
  | S512 | S256 | S128 | S64 | S32 | S16 | S08 | S04
  deriving DecidableEq, Repr

def BlockSize.bytes : BlockSize → Nat
  | .S512 => 512 * pageSize
  | .S256 => 256 * pageSize
  | .S128 => 128 * pageSize
  | .S64 => 64 * pageSize
  | .S32 => 32 * pageSize
  | .S16 => 16 * pageSize
  | .S08 => 8 * pageSize
  | .S04 => 4 * pageSize

structure StatusByte where
  theByte : BitVec 8
  deriving DecidableEq, Repr

namespace StatusByte

def has (status : StatusByte) (mask : BitVec 8) : Bool := (status.theByte &&& mask) == 0

def allFree (status : StatusByte) : Bool := status.theByte == 0

def hasFree (status : StatusByte) (idx : BlockIdx) : Bool := status.has idx.mask

def setUsed (status : StatusByte) (idx : BlockIdx) : StatusByte := ⟨status.theByte ||| idx.mask⟩

def setFree (status : StatusByte) (idx : BlockIdx) : StatusByte := ⟨status.theByte &&& ~~~idx.mask⟩

def hasSize (status : StatusByte) : BlockSize → Bool
  | .S04 => status.has BlockIdx.I7.mask || status.has BlockIdx.I6.mask
  | .S08 => status.has BlockIdx.I5.mask
  | .S16 => status.has BlockIdx.I4.mask
  | .S32 => status.has BlockIdx.I3.mask
  | .S64 => status.has BlockIdx.I2.mask
  | .S128 => status.has BlockIdx.I1.mask
  | .S256 => status.has BlockIdx.I0.mask
  | .S512 => status.has BlockIdx.ALL.mask

def used (status : StatusByte) (slot : Nat) : Bool := status.theByte.getLsbD slot

end StatusByte

/-- `status_byte::gb_of`; the quotient is returned as an `unsigned int`. -/
def gbOf (addr : Nat) : Nat := addr / gigabyte % 2 ^ 32

def sbOf (addr : Nat) : Nat := addr / regionSize % 512

def clzb (byte : BitVec 8) : Nat := 7 - Nat.log2 byte.toNat

def rampShift (base shift : Nat) : Nat :=
  if shift ≠ 0 then base * 2 ^ (shift - 1) else 0

def blockOffset (addr : Nat) (idx : BlockIdx) : Nat :=
  wadd addr (rampShift BlockSize.S04.bytes (clzb idx.mask))

def nearest (size : Nat) : BlockSize :=
  if size ≤ BlockSize.S04.bytes then .S04
  else if size ≤ BlockSize.S08.bytes then .S08
  else if size ≤ BlockSize.S16.bytes then .S16
  else if size ≤ BlockSize.S32.bytes then .S32
  else if size ≤ BlockSize.S64.bytes then .S64
  else if size ≤ BlockSize.S128.bytes then .S128
  else if size ≤ BlockSize.S256.bytes then .S256
  else .S512

def regionSizeFor (size : Nat) : Nat :=
  if size > BlockSize.S512.bytes then upToNearest size regionSize
  else (nearest size).bytes

def slotOf (addr : Nat) : Nat :=
  if addr % regionSize < 4 * pageSize then 7
  else if addr % regionSize < 8 * pageSize then 6
  else if addr % regionSize < 16 * pageSize then 5
  else if addr % regionSize < 32 * pageSize then 4
  else if addr % regionSize < 64 * pageSize then 3
  else if addr % regionSize < 128 * pageSize then 2
  else if addr % regionSize < 256 * pageSize then 1
  else 0

structure StatusBit where
  gb : Nat
  sb : Nat
  slot : Nat
  deriving DecidableEq, Repr

def bitOf (addr : Nat) : StatusBit := ⟨gbOf addr, sbOf addr, slotOf addr⟩

def BlockIdx.bit : BlockIdx → Nat
  | .I0 => 0
  | .I1 => 1
  | .I2 => 2
  | .I3 => 3
  | .I4 => 4
  | .I5 => 5
  | .I6 => 6
  | .I7 => 7
  | .ALL => 0

def BlockIdx.size : BlockIdx → BlockSize
  | .I0 => .S256
  | .I1 => .S128
  | .I2 => .S64
  | .I3 => .S32
  | .I4 => .S16
  | .I5 => .S08
  | .I6 => .S04
  | .I7 => .S04
  | .ALL => .S512

lemma slotOf_lt (addr : Nat) : slotOf addr < 8 := by
  unfold slotOf
  repeat' split
  all_goals decide

variable {idx : BlockIdx} {slot : Nat}

lemma BlockIdx.mask_getLsbD (single : idx ≠ .ALL) (small : slot < 8) :
    idx.mask.getLsbD slot = decide (slot = idx.bit) := by
  have table : ∀ position : Fin 8,
      idx.mask.getLsbD position = decide ((position : Nat) = idx.bit) := by
    cases idx
    case ALL => exact absurd rfl single
    all_goals decide
  exact table ⟨slot, small⟩

lemma BlockIdx.mask_all_getLsbD (small : slot < 8) : BlockIdx.ALL.mask.getLsbD slot = true := by
  have table : ∀ position : Fin 8, BlockIdx.ALL.mask.getLsbD position = true := by decide
  exact table ⟨slot, small⟩

variable (status : StatusByte)

open StatusByte

open BlockIdx

lemma StatusByte.used_setUsed (single : idx ≠ .ALL) (small : slot < 8) :
    (status.setUsed idx).used slot = (status.used slot || decide (slot = idx.bit)) := by
  simp [used, setUsed, mask_getLsbD single small]

lemma StatusByte.used_setUsed_all (small : slot < 8) :
    (status.setUsed .ALL).used slot = true := by
  simp [used, setUsed, mask_all_getLsbD small]

lemma StatusByte.used_setFree (single : idx ≠ .ALL) (small : slot < 8) :
    (status.setFree idx).used slot = (status.used slot && !decide (slot = idx.bit)) := by
  have hmb := mask_getLsbD single small
  simp only [used, setFree, BitVec.getLsbD_and,
    BitVec.getLsbD_not, small, hmb, decide_true, Bool.true_and]

lemma StatusByte.used_setFree_all (small : slot < 8) :
    (status.setFree .ALL).used slot = false := by
  have hmb := mask_all_getLsbD small
  simp [used, setFree, BitVec.getLsbD_and, BitVec.getLsbD_not, hmb, Bool.not_true, Bool.and_false]

lemma BlockIdx.bit_lt (idx : BlockIdx) : idx.bit < 8 := by cases idx <;> decide

lemma StatusByte.hasFree_iff (single : idx ≠ .ALL) :
    status.hasFree idx = true ↔ status.used idx.bit = false := by
  have table : ∀ byte : BitVec 8, ((byte &&& idx.mask) == 0) = !byte.getLsbD idx.bit := by
    cases idx
    case ALL => exact absurd rfl single
    all_goals decide
  have value := table status.theByte
  simp only [hasFree, has, used, value]
  simp

lemma StatusByte.allFree_iff :
    status.allFree = true ↔ ∀ slot < 8, status.used slot = false := by
  simp only [allFree, used, beq_iff_eq]
  constructor
  · intro zero slot small
    simp [zero]
  intro clear
  apply BitVec.eq_of_getLsbD_eq
  intro slot small
  simp [clear slot small]

def BlockIdx.offset (idx : BlockIdx) : Nat := rampShift BlockSize.S04.bytes (clzb idx.mask)

lemma BlockIdx.offset_values : BlockIdx.I7.offset = 0 ∧ BlockIdx.I6.offset = 16384 ∧
    BlockIdx.I5.offset = 32768 ∧ BlockIdx.I4.offset = 65536 ∧
    BlockIdx.I3.offset = 131072 ∧ BlockIdx.I2.offset = 262144 ∧
    BlockIdx.I1.offset = 524288 ∧ BlockIdx.I0.offset = 1048576 := by
  decide

variable {addr : Nat}

lemma blockOffset_eq (idx : BlockIdx) (single : idx ≠ .ALL) (aligned : addr % regionSize = 0)
    (word : addr < 2 ^ 64) : blockOffset addr idx = addr + idx.offset := by
  apply wadd_of_lt
  have values := offset_values
  unfold offset at values
  unfold regionSize at aligned
  cases idx
  case ALL => exact absurd rfl single
  all_goals omega

lemma slotOf_eq_bit_iff (single : idx ≠ .ALL) :
    slotOf addr = idx.bit ↔ idx.offset ≤ addr % regionSize ∧
        addr % regionSize < idx.offset + idx.size.bytes := by
  obtain ⟨at7, at6, at5, at4, at3, at2, at1, at0⟩ := offset_values
  have bound : addr % regionSize < 2097152 := Nat.mod_lt _ (by decide)
  unfold slotOf
  cases idx
  case ALL => exact absurd rfl single
  all_goals
    simp only [size, BlockSize.bytes, bit, pageSize, at7, at6, at5, at4, at3, at2, at1, at0]
    grind

lemma mem_block_iff {base : Nat} (single : idx ≠ .ALL) (aligned : base % regionSize = 0) :
    (base + idx.offset ≤ addr ∧ addr < base + idx.offset + idx.size.bytes) ↔
      addr / regionSize = base / regionSize ∧ slotOf addr = idx.bit := by
  have fits : idx.offset + idx.size.bytes ≤ regionSize := by cases idx <;> decide
  rw [slotOf_eq_bit_iff single]
  unfold regionSize at *
  omega

lemma statusIndex_eq_of_region {left right : Nat} (same : left / regionSize = right / regionSize)
    : gbOf left = gbOf right ∧ sbOf left = sbOf right := by
  unfold gbOf sbOf gigabyte
  unfold regionSize at same ⊢
  omega

lemma bytes_nearest_pos (size : Nat) : 0 < (nearest size).bytes := by
  cases nearest size <;> decide

end OoOS.Mm
