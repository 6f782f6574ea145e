import OoOS.Lib.Memory

/-!
# Blocks stacked downwards

Blocks of given sizes and alignments are placed one below the other, from a top
address down.
-/

namespace OoOS.Lib.Layout

open List Nat

def trunc (align address : Nat) : Nat :=
  if 1 < align then address - address % align else address

def alignUp (align address : Nat) : Nat :=
  if 1 < align ∧ address % align ≠ 0 then trunc align (address + align)
  else address

variable {align address bound : Nat}

lemma trunc_le (align address : Nat) : trunc align address ≤ address := by
  unfold trunc
  split
  · exact sub_le _ _
  · exact le_rfl

lemma dvd_trunc (pos : 0 < align) (address : Nat) : align ∣ trunc align address := by
  unfold trunc
  split
  · exact dvd_sub_mod address
  have isOne : align = 1 := by omega
  rw [isOne]
  exact one_dvd _

lemma le_trunc (isMultiple : align ∣ bound) (le : bound ≤ address) :
    bound ≤ trunc align address := by
  unfold trunc
  split
  · obtain ⟨count, rfl⟩ := isMultiple
    have hq : count ≤ address / align := (le_div_iff_mul_le (by omega)).mpr
        (by rw [mul_comm]; exact le)
    have split := div_add_mod address align
    have hs := mul_le_mul_left align hq
    omega
  · exact le

lemma le_alignUp (align address : Nat) : address ≤ alignUp align address := by
  unfold alignUp
  split
  · rename_i rounds
    have below := mod_lt (address + align) (by omega : 0 < align)
    unfold trunc
    rw [if_pos rounds.1]
    omega
  · exact le_rfl

lemma dvd_alignUp (pos : 0 < align) (address : Nat) : align ∣ alignUp align address := by
  unfold alignUp
  split
  · exact dvd_trunc pos _
  rename_i exact_
  by_cases isOne : align = 1
  · rw [isOne]
    exact one_dvd _
  apply dvd_of_mod_eq_zero
  by_contra hnz
  exact exact_ ⟨by omega, hnz⟩

lemma alignUp_of_dvd (isMultiple : align ∣ address) : alignUp align address = address := by
  unfold alignUp
  rw [if_neg]
  intro hr
  exact hr.2 (mod_eq_zero_of_dvd isMultiple)

lemma pow_dvd_alignUp_pow {low high : Nat} (isMultiple : 2 ^ low ∣ address) :
    2 ^ low ∣ alignUp (2 ^ high) address := by
  by_cases le : high ≤ low
  · rw [alignUp_of_dvd ((pow_dvd_pow 2 le).trans isMultiple)]
    exact isMultiple
  · exact (pow_dvd_pow 2 (by omega)).trans (dvd_alignUp (Nat.two_pow_pos high) address)

section

variable {β : Type} (size align : β → Nat)

/-- Where blocks end that are piled up from a bottom address; the last block of
the list is the lowest one. -/
def pile (bottom : Nat) : List β → Nat
  | [] => bottom
  | block :: lower => alignUp (align block) (pile bottom lower) + size block

def place : Nat → List β → List Nat
  | _, [] => []
  | top, block :: lower =>
    trunc (align block) (top - size block) ::
      place (trunc (align block) (top - size block)) lower

inductive Stacked (bottom : Nat) : Nat → List β → List Nat → Prop
  | nil {top : Nat} (above : bottom ≤ top) : Stacked bottom top [] []
  | cons {top : Nat} {block : β} {lower : List β} {start : Nat}
      {starts : List Nat} (fits : start + size block ≤ top)
      (aligned : align block ∣ start)
      (below : Stacked bottom start lower starts) :
      Stacked bottom top (block :: lower) (start :: starts)

variable {size align} {bottom top : Nat} {blocks : List β} {starts : List Nat}

lemma pile_append_singleton (blocks : List β) (lowest : β) :
    pile size align bottom (blocks ++ [lowest]) =
      pile size align (alignUp (align lowest) bottom + size lowest) blocks := by
  induction blocks with
  | nil => rfl
  | cons block _ ih => rw [cons_append, pile, pile, ih]

lemma foldl_eq_pile (bottom : Nat) (blocks : List β) :
    blocks.foldl (fun cursor block => alignUp (align block) cursor + size block) bottom =
      pile size align bottom blocks.reverse := by
  induction blocks generalizing bottom with
  | nil => rfl
  | cons block _ ih => rw [foldl_cons, reverse_cons, pile_append_singleton, ih]

lemma pile_alignUp (blocks : List β) (lowest : β) (pos : 0 < align lowest) :
    pile size align (alignUp (align lowest) bottom) (blocks ++ [lowest]) =
      pile size align bottom (blocks ++ [lowest]) := by
  rw [pile_append_singleton, pile_append_singleton, alignUp_of_dvd (dvd_alignUp pos bottom)]

lemma stacked_place (pos : ∀ block ∈ blocks, 0 < align block)
    (enough : pile size align bottom blocks ≤ top) :
    Stacked size align bottom top blocks (place size align top blocks) := by
  induction blocks generalizing top with
  | nil => exact .nil enough
  | cons block lower ih =>
    rw [pile] at enough
    have hp := pos block mem_cons_self
    have above : alignUp (align block) (pile size align bottom lower) ≤
        trunc (align block) (top - size block) := le_trunc (dvd_alignUp hp _) (by omega)
    have low := le_alignUp (align block) (pile size align bottom lower)
    have down := trunc_le (align block) (top - size block)
    refine .cons ?_ (dvd_trunc hp _) ?_
    · omega
    apply ih
    · exact (forall_mem_cons.mp pos).2
    · omega

section

variable (stacked : Stacked size align bottom top blocks starts)

include stacked

lemma Stacked.length : starts.length = blocks.length := by
  induction stacked with
  | nil _ => rfl
  | cons _ _ _ ih => rw [length_cons, length_cons, ih]

lemma Stacked.bottom_le : bottom ≤ top := by
  induction stacked with
  | nil above => exact above
  | cons _ _ _ _ => omega

lemma Stacked.block {i : Nat} {block : β}
    {start : Nat} (isBlock : blocks[i]? = some block) (isStart : starts[i]? = some start) :
    align block ∣ start ∧ bottom ≤ start ∧ start + size block ≤ top := by
  induction stacked generalizing i with
  | nil _ => cases isBlock
  | cons fits aligned below ih =>
    cases i with
    | zero =>
      cases isBlock
      cases isStart
      exact ⟨aligned, below.bottom_le, fits⟩
    | succ i =>
      obtain ⟨ha, low, _⟩ := ih (i := i) isBlock isStart
      exact ⟨ha, low, by omega⟩

lemma Stacked.apart {i j : Nat} (before : i < j) {other : β} {start otherStart : Nat}
    (isStart : starts[i]? = some start) (isOther : blocks[j]? = some other)
    (isOtherStart : starts[j]? = some otherStart) : otherStart + size other ≤ start := by
  induction stacked generalizing i j with
  | nil _ => cases isOther
  | cons _ _ below ih =>
    cases j with
    | zero => cases before
    | succ j =>
      cases i with
      | zero =>
        cases isStart
        exact (below.block (i := j) isOther isOtherStart).2.2
      | succ i =>
        exact ih (i := i) (j := j) (lt_of_succ_lt_succ before) isStart isOther isOtherStart

end

end

def Holds (memory : Memory) (address : Nat) (bytes : List UInt8) : Prop :=
  ∀ i < bytes.length, memory (address + i) = bytes.getD i 0

def store (memory : Memory) (address : Nat) (bytes : List UInt8) : Memory :=
  fun x =>
    if address ≤ x ∧ x < address + bytes.length then
      bytes.getD (x - address) 0
    else memory x

def copy (memory : Memory) (target source length : Nat) : Memory :=
  fun x =>
    if target ≤ x ∧ x < target + length then memory (source + (x - target))
    else memory x

variable {memory other : Memory} {bytes : List UInt8}

lemma Holds.congr (holds : Holds memory address bytes)
    (same : ∀ x, address ≤ x → x < address + bytes.length → other x = memory x) :
    Holds other address bytes := by
  intro i below
  rw [same (address + i) (by omega) (by omega)]
  exact holds i below

lemma holds_store (memory : Memory) (address : Nat) (bytes : List UInt8) :
    Holds (store memory address bytes) address bytes := by
  intro i _
  unfold store
  rw [if_pos ⟨by omega, by omega⟩, Nat.add_sub_cancel_left]

lemma store_outside {x : Nat} (outside : x < address ∨ address + bytes.length ≤ x) :
    store memory address bytes x = memory x := by
  unfold store
  rw [if_neg (by omega)]

lemma copy_outside {target source length x : Nat} (outside : x < target ∨ target + length ≤ x) :
    copy memory target source length x = memory x := by
  unfold copy
  rw [if_neg (by omega)]

lemma Holds.copy {target source length : Nat} (holds : Holds memory address bytes)
    (low : source ≤ address) (high : address + bytes.length ≤ source + length) :
    Holds (copy memory target source length) (target + (address - source)) bytes := by
  intro i below
  unfold Layout.copy
  rw [if_pos ⟨by omega, by omega⟩]
  have same : source + (target + (address - source) + i - target) = address + i := by omega
  rw [same]
  exact holds i below

variable {β : Type} {image : β → List UInt8} {align : β → Nat}
  {bottom top : Nat} {blocks : List β} {starts : List Nat}

def storeAll (image : β → List UInt8) (memory : Memory) : List β → List Nat → Memory
  | block :: blocks, start :: starts =>
    storeAll image (store memory start (image block)) blocks starts
  | _, _ => memory

lemma storeAll_outside
    (stacked : Stacked (fun block => (image block).length) align bottom top blocks starts) {x : Nat}
    (outside : x < bottom ∨ top ≤ x) : storeAll image memory blocks starts x = memory x := by
  induction stacked generalizing memory with
  | nil _ => rfl
  | cons _ _ below ih =>
    have low := below.bottom_le
    rw [storeAll, ih (by omega), store_outside (by omega)]

lemma holds_storeAll
    (stacked : Stacked (fun block => (image block).length) align bottom top blocks starts) {i : Nat}
    {block : β} {start : Nat} (isBlock : blocks[i]? = some block)
    (isStart : starts[i]? = some start) :
    Holds (storeAll image memory blocks starts) start (image block) := by
  induction stacked generalizing memory i with
  | nil _ => cases isBlock
  | cons _ _ below ih =>
    cases i with
    | zero =>
      cases isBlock
      cases isStart
      apply (holds_store memory _ _).congr
      intro x low _
      exact storeAll_outside below (.inr low)
    | succ i =>
      exact ih (i := i) isBlock isStart

end OoOS.Lib.Layout
