import Mathlib.Tactic.Common

/-!
# `__dynamic_buffer`, the storage of `std::vector`

The elements of a vector and the capacity of its buffer.  A write past the
buffer has no meaning here.
-/

namespace OoOS.Libk

universe u

structure DynamicBuffer (α : Type u) where
  items : List α := []
  cap : Nat := 0
  deriving DecidableEq, Repr

namespace DynamicBuffer

variable {α : Type u}

def size (buffer : DynamicBuffer α) : Nat := buffer.items.length

def growBuffer (buffer : DynamicBuffer α) (added : Nat) : DynamicBuffer α :=
  if added = 0 then buffer
  else { buffer with cap := max (2 * buffer.cap) (buffer.cap + added) }

def reserve (buffer : DynamicBuffer α) (count : Nat) : DynamicBuffer α :=
  if buffer.cap < count then buffer.growBuffer (count - buffer.cap)
  else buffer

def emplaceBack (buffer : DynamicBuffer α) (value : α) : DynamicBuffer α :=
  let grown :=
    if buffer.size = buffer.cap then buffer.growBuffer 1 else buffer
  { grown with items := grown.items ++ [value] }

/-- `vector::insert` of one element; slots that were never written hold `default`. -/
def insert [Inhabited α] (buffer : DynamicBuffer α) (offs : Nat) (value : α) :
    Option (DynamicBuffer α × Option Nat) :=
  if buffer.cap ≤ offs then some (buffer, none)
  else if offs + 1 < buffer.cap then
    if offs < buffer.size then
      if buffer.size < buffer.cap then
        some ({ buffer with items := buffer.items.insertIdx offs value }, some offs)
      else none
    else
      some
        ({ buffer with
            items := buffer.items ++
              List.replicate (offs - buffer.size) default ++ [value] },
          some offs)
  else if offs < buffer.size then none
  else
    some
      ({ buffer with
          items := buffer.items ++
            [if offs = buffer.size then value else default] },
        some offs)

variable [Inhabited α] {buffer : DynamicBuffer α} {offs : Nat} {value : α}

lemma insert_of_cap_le (full : buffer.cap ≤ offs) :
    buffer.insert offs value = some (buffer, none) := by
  rw [insert, if_pos full]

lemma insert_at_end (atEnd : offs = buffer.size) (room : buffer.size < buffer.cap) :
    buffer.insert offs value =
      some ({ buffer with items := buffer.items ++ [value] }, some offs) := by
  rw [insert, if_neg (by omega)]
  by_cases more : offs + 1 < buffer.cap
  · rw [if_pos more, if_neg (by omega), atEnd, Nat.sub_self]
    simp
  · rw [if_neg more, if_neg (by omega), if_pos atEnd]

omit [Inhabited α] in
lemma reserve_items (buffer : DynamicBuffer α) (count : Nat) :
    (buffer.reserve count).items = buffer.items := by
  simp only [reserve, growBuffer]
  split
  · split <;> rfl
  · rfl

omit [Inhabited α] in
lemma le_cap_reserve (buffer : DynamicBuffer α) (count : Nat) :
    count ≤ (buffer.reserve count).cap := by
  simp only [reserve, growBuffer]
  split
  · split
    · omega
    simp only
    omega
  · omega

end DynamicBuffer

end OoOS.Libk
