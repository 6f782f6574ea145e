import Mathlib.Data.List.Basic

/-!
# Insertion into and erasure from a `std::vector`

`__dynamic_buffer` on its slots: every copy is one into slots, and one that goes
over their end has no meaning.
-/

namespace OoOS.Libk

open List Option

universe u

/-- `__buf_ptrs`: all slots of the buffer, and the distance from `__begin` to
`__end`. -/
structure BufPtrs (α : Type u) where
  slots : List α := []
  size : Nat := 0

namespace BufPtrs

variable {α : Type u}

/-- A copy to a position; `none` if there are not as many slots. -/
def write (slots : List α) (pos : Nat) (values : List α) : Option (List α) :=
  if pos + values.length ≤ slots.length then
    some (slots.take pos ++ values ++ slots.drop (pos + values.length))
  else none

section

variable (buffer : BufPtrs α)

def capacity : Nat := buffer.slots.length

def elements : List α := buffer.slots.take buffer.size

def setc (pos : Nat) : BufPtrs α :=
  if pos ≤ buffer.capacity then { buffer with size := pos } else buffer

def advance (n : Nat) : BufPtrs α :=
  if buffer.size + n ≤ buffer.capacity then buffer.setc (buffer.size + n)
  else buffer.setc buffer.capacity

variable [Inhabited α]

def growBuffer (added : Nat) : BufPtrs α :=
  let target := max (2 * buffer.capacity) (buffer.capacity + added)
  { buffer with slots := buffer.slots ++ replicate (target - buffer.capacity) default }

/-- `__insert_elements` at an offset: the offset of the first new element unless
null is returned, and the buffer. -/
def insertElements (offs : Nat) (values : List α) : Option (Option Nat × BufPtrs α) :=
  if buffer.capacity ≤ offs then some (none, buffer)
  else if offs + values.length < buffer.capacity then
    if offs < buffer.size then do
      let slots ← write buffer.slots offs values
      let slots ← write slots (offs + values.length) (buffer.elements.drop offs)
      some (some offs, ({ buffer with slots := slots }).advance values.length)
    else do
      let slots ← write buffer.slots offs values
      some (some offs, ({ buffer with slots := slots }).setc (offs + values.length))
  else do
    -- `__capacity() + __needed(pos + range_size)` slots, without those of the suffix
    let nwdat := replicate (offs + values.length) default
    let nwdat ←
      if offs < buffer.size then do
        let nwdat ← write nwdat 0 (buffer.elements.take offs)
        write nwdat (offs + values.length) (buffer.elements.drop offs)
      else write nwdat 0 buffer.elements
    let slots ← write nwdat offs values
    some (some offs, ({ slots := slots } : BufPtrs α).setc (buffer.size + values.length))

def emplaceAtEnd (value : α) : Option (Option Nat × BufPtrs α) := do
  let grown := if buffer.size = buffer.capacity then buffer.growBuffer 1 else buffer
  let slots ← write grown.slots grown.size [value]
  some (some grown.size, ({ grown with slots := slots }).advance 1)

/-- `__emplace_element`; `__end` of the new buffer stays at its start. -/
def emplaceElement (offs : Nat) (value : α) : Option (Option Nat × BufPtrs α) :=
  if buffer.capacity ≤ offs then buffer.emplaceAtEnd value
  else do
    let targetCap := if buffer.size < buffer.capacity then buffer.capacity else buffer.capacity + 1
    let nwdat ← write (replicate targetCap default) offs [value]
    let nwdat ← write nwdat 0 (buffer.elements.take offs)
    let nwdat ← write nwdat (offs + 1) (buffer.elements.drop offs)
    some (some offs, { slots := nwdat })

def eraseAtEnd (howMany : Nat) : Option (Option Nat × BufPtrs α) :=
  if buffer.size ≤ howMany then some (some 0, { slots := replicate buffer.capacity default })
  else do
    let size := buffer.size - howMany
    let slots ← write buffer.slots size (replicate howMany default)
    some (some size, { slots := slots, size := size })

def eraseRange (start stop : Nat) : Option (Option Nat × BufPtrs α) :=
  if buffer.capacity ≤ start ∨ buffer.capacity ≤ stop ∨ stop < start then some (none, buffer)
  else
    let rem := buffer.size - stop
    if rem = 0 then buffer.eraseAtEnd (stop - start)
    else do
      let temp := buffer.elements.drop stop
      let slots ← write buffer.slots start (replicate (buffer.size - start) default)
      let slots ← write slots start temp
      some (some start, ({ buffer with slots := slots }).setc (start + rem))

def erase (pos : Nat) : Option (Option Nat × BufPtrs α) := buffer.eraseRange pos (pos + 1)

end

inductive Insertion (α : Type u) where
  | range (values : List α)
  | emplace (value : α)

def Insertion.values : Insertion α → List α
  | .range values => values
  | .emplace value => [value]

variable {slots values : List α} {pos : Nat} {buffer : BufPtrs α} {offs : Nat}

lemma exists_write (fits : pos + values.length ≤ slots.length) :
    ∃ out, write slots pos values = some out ∧ out.length = slots.length ∧
      out.take (pos + values.length) = slots.take pos ++ values ∧
        out.take pos = slots.take pos := by
  refine ⟨_, if_pos fits, ?_, ?_, ?_⟩
  · simp only [length_append, length_take, length_drop]
    omega
  · rw [take_left']
    simp only [length_append, length_take]
    omega
  rw [append_assoc, take_left']
  rw [length_take]
  omega

lemma write_eq_none (tooLong : slots.length < pos + values.length) :
    write slots pos values = none :=
  if_neg (by omega)

lemma setc_eq (inside : pos ≤ buffer.capacity) : buffer.setc pos = { buffer with size := pos } :=
  if_pos inside

lemma advance_eq (fits : buffer.size + pos ≤ buffer.capacity) :
    buffer.advance pos = { buffer with size := buffer.size + pos } := by
  rw [advance, if_pos fits, setc_eq fits]

lemma length_elements (valid : buffer.size ≤ buffer.capacity) :
    buffer.elements.length = buffer.size := by
  rw [elements, length_take]
  exact Nat.min_eq_left valid

lemma take_elements (inside : offs ≤ buffer.size) :
    buffer.elements.take offs = buffer.slots.take offs := by
  rw [elements, take_take, Nat.min_eq_left inside]

lemma length_suffix (valid : buffer.size ≤ buffer.capacity) :
    (buffer.elements.drop offs).length = buffer.size - offs := by
  rw [length_drop, length_elements valid]

variable [Inhabited α]

def Insertion.run (buffer : BufPtrs α) (offs : Nat) : Insertion α → Option (Option Nat × BufPtrs α)
  | .range values => buffer.insertElements offs values
  | .emplace value => buffer.emplaceElement offs value

/-- The new elements are between those before and those from the offset on. -/
def Inserts (buffer : BufPtrs α) (offs : Nat) (insertion : Insertion α) : Prop :=
  ∃ result after, insertion.run buffer offs = some (result, after) ∧
    after.elements = buffer.elements.take offs ++ insertion.values ++ buffer.elements.drop offs ∧
    after.size = buffer.size + insertion.values.length

/-- A range at the end of a vector that is not full, or one for which there are
slots; a single element at the end of a full vector. -/
def Fits (buffer : BufPtrs α) (offs : Nat) : Insertion α → Prop
  | .range values => offs = buffer.size ∧ buffer.size < buffer.capacity ∨
      offs < buffer.size ∧ buffer.size + values.length ≤ buffer.capacity
  | .emplace _ => buffer.capacity ≤ offs

section

variable (valid : buffer.size ≤ buffer.capacity) (inside : offs < buffer.size)

include valid inside

/-- The suffix is moved over the end of the buffer, of the old or of the new
one. -/
lemma insertElements_eq_none (full : buffer.capacity < buffer.size + values.length) :
    buffer.insertElements offs values = none := by
  have hcap : buffer.slots.length = buffer.capacity := rfl
  have hd := @length_suffix α buffer offs valid
  rw [insertElements, if_neg (by omega)]
  by_cases hr : offs + values.length < buffer.capacity
  · obtain ⟨first, hf, hl, -⟩ := @exists_write α buffer.slots values offs (by omega)
    have hs : write first (offs + values.length) (buffer.elements.drop offs) = none :=
      write_eq_none (by omega)
    simp [hr, inside, hf, hs]
  have ht : (buffer.elements.take offs).length = offs := by
    rw [length_take, length_elements valid]
    omega
  obtain ⟨first, hf, hl, -⟩ := @exists_write α (replicate (offs + values.length) default)
    (buffer.elements.take offs) 0 (by rw [ht, length_replicate]; omega)
  rw [length_replicate] at hl
  have hs : write first (offs + values.length) (buffer.elements.drop offs) = none :=
    write_eq_none (by omega)
  simp [hr, inside, hf, hs]

lemma inserts_before (positive : 0 < values.length)
    (fits : buffer.size + values.length ≤ buffer.capacity) :
    Inserts buffer offs (.range values) := by
  have hcap : buffer.slots.length = buffer.capacity := rfl
  have hd := @length_suffix α buffer offs valid
  obtain ⟨first, hf, hl, ht, -⟩ := @exists_write α buffer.slots values offs (by omega)
  obtain ⟨second, hs, hm, hu, -⟩ := @exists_write α first (buffer.elements.drop offs)
    (offs + values.length) (by omega)
  refine ⟨some offs, ⟨second, buffer.size + values.length⟩, ?_, ?_, rfl⟩
  · rw [Insertion.run, insertElements, if_neg (by omega), if_pos (by omega), if_pos inside, hf]
    simp only [bind_eq_bind, bind_some, hs]
    rw [advance_eq (show buffer.size + values.length ≤ second.length by omega)]
  have he : buffer.size + values.length =
      offs + values.length + (buffer.elements.drop offs).length := by
    omega
  rw [elements, he, hu, ht, take_elements (Nat.le_of_lt inside)]
  rfl

end

lemma inserts_at_end (room : buffer.size < buffer.capacity) :
    Inserts buffer buffer.size (.range values) := by
  have hcap : buffer.slots.length = buffer.capacity := rfl
  have hl := length_elements (Nat.le_of_lt room)
  have hc (out : List α) (ho : out.take (buffer.size + values.length) =
      buffer.elements ++ values) : (BufPtrs.mk out (buffer.size + values.length)).elements =
        buffer.elements.take buffer.size ++ values ++ buffer.elements.drop buffer.size := by
    rw [take_of_length_le (Nat.le_of_eq hl), drop_of_length_le (Nat.le_of_eq hl), append_nil]
    exact ho
  by_cases hr : buffer.size + values.length < buffer.capacity
  · obtain ⟨first, hf, hm, ht, -⟩ := @exists_write α buffer.slots values buffer.size (by omega)
    refine ⟨some buffer.size, ⟨first, buffer.size + values.length⟩, ?_, hc first ht, rfl⟩
    rw [Insertion.run, insertElements, if_neg (by omega), if_pos hr, if_neg (by omega), hf]
    simp only [bind_eq_bind, bind_some]
    rw [setc_eq (show buffer.size + values.length ≤ first.length by omega)]
  obtain ⟨first, hf, hm, ht, -⟩ := @exists_write α
    (replicate (buffer.size + values.length) default) buffer.elements 0
    (by rw [hl, length_replicate]; omega)
  rw [length_replicate] at hm
  obtain ⟨second, hs, hn, hu, -⟩ := @exists_write α first values buffer.size (by omega)
  refine ⟨some buffer.size, ⟨second, buffer.size + values.length⟩, ?_, hc second ?_, rfl⟩
  · rw [Insertion.run, insertElements, if_neg (by omega), if_neg hr, if_neg (by omega), hf]
    simp only [bind_eq_bind, bind_some, hs]
    rw [setc_eq (show buffer.size + values.length ≤ second.length by omega)]
  rw [hu]
  rw [hl, Nat.zero_add] at ht
  rw [ht, take_zero, nil_append]

/-- A full buffer grows for the value. -/
lemma inserts_emplaceAtEnd (full : buffer.size = buffer.capacity) (value : α) :
    Inserts buffer buffer.size (.emplace value) := by
  have hcap : buffer.slots.length = buffer.capacity := rfl
  have hl := length_elements (Nat.le_of_eq full)
  obtain ⟨first, hf, hm, ht, -⟩ := @exists_write α (buffer.growBuffer 1).slots [value] buffer.size
    (by simp only [growBuffer, length_append, length_replicate, length_singleton]; omega)
  have hg : buffer.size + 1 ≤ first.length := by
    rw [hm]
    simp only [growBuffer, length_append, length_replicate]
    omega
  refine ⟨some buffer.size, ⟨first, buffer.size + 1⟩, ?_, ?_, rfl⟩
  · rw [Insertion.run, emplaceElement, if_pos (by omega), emplaceAtEnd, if_pos full]
    simp only [bind_eq_bind, show (buffer.growBuffer 1).size = buffer.size from rfl, hf, bind_some]
    rw [advance_eq (show buffer.size + 1 ≤ first.length from hg)]
  rw [take_of_length_le (Nat.le_of_eq hl), drop_of_length_le (Nat.le_of_eq hl), append_nil]
  refine ht.trans ?_
  rw [growBuffer, take_append_of_le_length (Nat.le_of_eq full)]
  rfl

/-- A new vector from `__emplace_element` is empty. -/
lemma size_emplaceElement {value : α} {result : Option Nat × BufPtrs α}
    (inside : offs < buffer.capacity) (done : buffer.emplaceElement offs value = some result) :
    result.2.size = 0 := by
  rw [emplaceElement, if_neg (by omega)] at done
  simp only [bind_eq_bind, bind_eq_some_iff] at done
  obtain ⟨_, _, _, _, _, _, done⟩ := done
  cases done
  rfl

/-- An insertion puts the elements where they belong exactly when there is room
for the whole of it, or it goes to the end. -/
theorem inserts_iff_fits {buffer : BufPtrs α} {offs : Nat} (insertion : Insertion α)
    (valid : buffer.size ≤ buffer.capacity) (inside : offs ≤ buffer.size)
    (nonempty : insertion.values ≠ []) :
    Inserts buffer offs insertion ↔ Fits buffer offs insertion := by
  cases insertion with
  | range values =>
    have hp : 0 < values.length := length_pos_iff.mpr nonempty
    constructor
    · rintro ⟨result, after, h, _, hs⟩
      simp only [Insertion.run, Insertion.values] at h hs
      by_contra hf
      simp only [Fits, not_or, not_and, Nat.not_lt, Nat.not_le] at hf
      rcases Nat.lt_or_eq_of_le inside with hlt | rfl
      · rw [insertElements_eq_none valid hlt (hf.2 hlt)] at h
        cases h
      · rw [insertElements, if_pos (hf.1 rfl)] at h
        cases h
        omega
    · rintro (⟨rfl, h⟩ | ⟨hlt, h⟩)
      · exact inserts_at_end h
      · exact inserts_before valid hlt hp h
  | emplace value =>
    constructor
    · rintro ⟨result, after, h, _, hs⟩
      by_contra hf
      have hz : after.size = 0 := size_emplaceElement (Nat.lt_of_not_le hf) h
      rw [hz] at hs
      exact absurd hs (by simp [Insertion.values])
    · intro h
      have he : offs = buffer.size := Nat.le_antisymm inside (Nat.le_trans valid h)
      subst he
      exact inserts_emplaceAtEnd (Nat.le_antisymm valid h) value

theorem inserts_oneSlot : Inserts (BufPtrs.mk [7, 0] 1) 0 (.range [5]) :=
  (inserts_iff_fits (.range [5]) (by decide) (by decide) (by decide)).mpr
    (.inr ⟨by decide, by decide⟩)

/-- Nothing is appended at the end of a full vector. -/
theorem not_inserts_full : ¬ Inserts (BufPtrs.mk [7] 1) 1 (.range [5]) := by
  rintro ⟨_, _, h, _, hs⟩
  cases h
  cases hs

/-- The elements from `i` to `j` are gone, and the iterator is at `i`. -/
def Erases (buffer : BufPtrs α) (i j : Nat) : Prop :=
  ∃ result after, buffer.eraseRange i j = some (result, after) ∧
    after.elements = buffer.elements.take i ++ buffer.elements.drop j ∧
    after.size = buffer.size - (j - i) ∧ result.getD after.size = i

section

variable {i j : Nat} (valid : buffer.size ≤ buffer.capacity) (le : i ≤ j)

include valid le

lemma erases_suffix (isEnd : j = buffer.size) (room : j < buffer.capacity) : Erases buffer i j := by
  have hcap : buffer.slots.length = buffer.capacity := rfl
  have hl := length_elements valid
  have hd : buffer.elements.drop j = [] := drop_of_length_le (by omega)
  rw [Erases, eraseRange, if_neg (by omega), if_pos (by omega), eraseAtEnd, hd, append_nil]
  by_cases h0 : buffer.size ≤ j - i
  · rw [if_pos h0]
    refine ⟨_, _, rfl, ?_, ?_, ?_⟩
    · rw [elements, take_zero, show i = 0 by omega, take_zero]
    · exact (Nat.sub_eq_zero_of_le h0).symm
    · exact (by omega : 0 = i)
  rw [if_neg h0]
  obtain ⟨first, hf, -, -, ht⟩ := @exists_write α buffer.slots (replicate (j - i) default)
    (buffer.size - (j - i)) (by rw [length_replicate]; omega)
  simp only [hf, bind_eq_bind, bind_some]
  have he : buffer.size - (j - i) = i := by omega
  rw [he] at ht ⊢
  refine ⟨_, _, rfl, ?_, rfl, rfl⟩
  rw [take_elements (by omega)]
  exact ht

lemma erases_inside (inside : j < buffer.size) : Erases buffer i j := by
  have hcap : buffer.slots.length = buffer.capacity := rfl
  have hd := @length_suffix α buffer j valid
  obtain ⟨first, hf, hm, -, ht⟩ := @exists_write α buffer.slots
    (replicate (buffer.size - i) default) i (by rw [length_replicate]; omega)
  obtain ⟨second, hs, hn, hu, -⟩ := @exists_write α first (buffer.elements.drop j) i (by omega)
  refine ⟨some i, ⟨second, i + (buffer.size - j)⟩, ?_, ?_, (by omega :
    i + (buffer.size - j) = buffer.size - (j - i)), rfl⟩
  · rw [eraseRange, if_neg (by omega), if_neg (by omega)]
    simp only [hf, hs, bind_eq_bind, bind_some]
    rw [setc_eq (show i + (buffer.size - j) ≤ second.length by omega)]
  rw [elements, ← hd, hu, ht, take_elements (by omega)]

end

/-- An erasure is right exactly when it is empty or does not go up to the end of
a full vector. -/
theorem erases_iff {buffer : BufPtrs α} {i j : Nat} (valid : buffer.size ≤ buffer.capacity)
    (le : i ≤ j) (inside : j ≤ buffer.size) :
    Erases buffer i j ↔ i = j ∨ j < buffer.capacity := by
  by_cases hc : j < buffer.capacity
  · rcases Nat.lt_or_eq_of_le inside with hlt | rfl
    · exact iff_of_true (erases_inside valid le hlt) (.inr hc)
    · exact iff_of_true (erases_suffix valid le rfl hc) (.inr hc)
  rw [Erases, eraseRange, if_pos (by omega)]
  constructor
  · rintro ⟨_, _, h, _, hs, _⟩
    cases h
    omega
  · rintro (rfl | h)
    · refine ⟨_, _, rfl, (take_append_drop _ _).symm, by simp, ?_⟩
      exact (by omega : buffer.size = i)
    · exact absurd h hc

theorem erases_first : Erases (BufPtrs.mk [7, 5] 2) 0 1 :=
  (erases_iff (by decide) (by decide) (by decide)).mpr (.inr (by decide))

/-- The last element of a full vector is not erased. -/
theorem not_erases_last : ¬ Erases (BufPtrs.mk [7, 5] 2) 1 2 := by
  rintro ⟨_, _, h, _, hs, _⟩
  cases h
  cases hs

end BufPtrs

end OoOS.Libk
