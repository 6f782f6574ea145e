import Mathlib.Data.List.Perm.Basic
import Mathlib.Data.Nat.Count
import OoOS.Lib.Memory

/-!
# `__dynamic_queue`

A queue over a buffer that keeps the elements already taken until it is trimmed.
`resettable_queue` and the stream buffers of pipes are such queues.  Allocation always
succeeds here.
-/

namespace OoOS.Libk

open List Lib

universe u

/-- What lies in the buffer from `__begin` on, the offsets of `__next` and `__end`, and
what is left of the buffer behind `__end`.  `opCnt` counts the pushes since the last trim,
and `trimStale` says whether `on_modify_queue` trims. -/
structure DynamicQueue (α : Type u) where
  slots : List α := []
  next : Nat := 0
  stop : Nat := 0
  capRem : Nat := 0
  opCnt : Nat := 0
  staleOpThresh : Nat := 3
  staleSizeThresh : Nat := 16
  trimStale : Bool := false

abbrev ResettableQueue (α : Type u) : Type u := DynamicQueue α

/-- What `fill_n` leaves of so many copies in a new buffer. -/
structure ArrayFill (α : Type u) where
  fill : α → Nat → List α
  length_fill : ∀ value n, (fill value n).length = n

namespace ArrayFill

/-- `array_fill` constructs the copies. -/
def construct {α : Type u} : ArrayFill α := ⟨fun value n => replicate n value, by simp⟩

/-- `array_fill` of an integer is a `memset` of one byte for each copy. -/
def memset (size : Nat) (raw : Memory) : ArrayFill Nat where
  fill value n := (range n).map fun i =>
    readLE (fun x => if x < n then UInt8.ofNat value else raw x) (size * i) size
  length_fill := by simp

example : (memset 8 fun _ => 0).fill 1 2 = [257, 0] := by decide

end ArrayFill

namespace DynamicQueue

variable {α : Type u}

def qmax (queue : DynamicQueue α) : Nat := queue.stop + queue.capRem

def empty (queue : DynamicQueue α) : Bool := queue.stop = 0

def atEnd (queue : DynamicQueue α) : Bool := queue.stop = queue.next

def restart (queue : DynamicQueue α) : DynamicQueue α := { queue with next := 0 }

def next? (queue : DynamicQueue α) : Option α :=
  if queue.next < queue.stop then queue.slots[queue.next]? else none

def back? (queue : DynamicQueue α) : Option α := queue.slots[queue.stop - 1]?

def pop (queue : DynamicQueue α) : Option (α × DynamicQueue α) :=
  match queue.next? with
  | none => none
  | some value => some (value, { queue with next := queue.next + 1 })

def unpop (queue : DynamicQueue α) : DynamicQueue α :=
  if 0 < queue.next then
    { queue with next := queue.next - 1, opCnt := 0 }
  else queue

def isStale (queue : DynamicQueue α) : Bool :=
  queue.staleOpThresh < queue.opCnt ∧ queue.staleSizeThresh < queue.next

/-- The new buffer is as large as the old one. -/
def eraseBeforeNext (queue : DynamicQueue α) : DynamicQueue α :=
  { queue with
    slots := (queue.slots.take queue.stop).drop queue.next
    next := 0
    stop := queue.stop - queue.next
    capRem := queue.capRem + queue.next
    opCnt := 0 }

def trims (queue : DynamicQueue α) : Bool := queue.trimStale && queue.isStale

def onModifyQueue (queue : DynamicQueue α) : DynamicQueue α :=
  if queue.trims then queue.eraseBeforeNext else queue

/-- The elements are behind the others, and `on_modify_queue` is still to be called.  A
buffer that is too small grows by what is missing. -/
def append (queue : DynamicQueue α) (values : List α) : DynamicQueue α :=
  { queue with
    slots := queue.slots.take queue.stop ++ (values ++ queue.slots.drop
      (queue.stop + values.length))
    stop := queue.stop + values.length
    capRem := queue.capRem - values.length
    opCnt := (queue.opCnt + 1) % 2 ^ 32 }

/-- `__push_elements` of a range, which does nothing if the range is empty. -/
def pushElements (queue : DynamicQueue α) (values : List α) : DynamicQueue α :=
  if values = [] then queue else (queue.append values).onModifyQueue

def push (queue : DynamicQueue α) (value : α) : DynamicQueue α :=
  (queue.append [value]).onModifyQueue

def qrem (queue : DynamicQueue α) : Nat := queue.stop - queue.next

def popElements (queue : DynamicQueue α) (count : Nat) : List α × DynamicQueue α :=
  if count = 0 then ([], queue)
  else ((queue.slots.drop queue.next).take (min queue.qrem count),
    { queue with next := queue.next + min queue.qrem count, opCnt := 0 }.onModifyQueue)

def reset (queue : DynamicQueue α) : DynamicQueue α :=
  { queue with slots := [], next := 0, stop := 0, capRem := 0, opCnt := 0 }

/-- `__erase_one` at an offset from `__begin`; a queue of one element loses it
whatever the offset in the buffer is. -/
def eraseOne (queue : DynamicQueue α) (pos : Nat) : DynamicQueue α :=
  if queue.qmax ≤ pos then queue
  else if queue.stop = 1 then queue.reset
  else if queue.stop ≤ pos then queue
  else
    { queue with
      slots := (queue.slots.take queue.stop).eraseIdx pos
      next := if pos < queue.next then queue.next - 1 else queue.next
      stop := queue.stop - 1
      opCnt := 0 }

/-- `__erase_elements` at an offset up to `__end`: how many it erased, and the queue. -/
def eraseElements (queue : DynamicQueue α) (pos n : Nat) : Nat × DynamicQueue α :=
  let n := if queue.stop < pos + n then queue.stop - pos else n
  if queue.qmax ≤ pos then (0, queue)
  else if pos = 0 ∧ queue.stop ≤ n then (queue.stop, queue.reset)
  else
    (n, { queue with
        slots := queue.slots.take pos ++ (queue.slots.take queue.stop).drop (pos + n)
        next := if pos < queue.next then queue.next - min queue.next n else queue.next
        stop := queue.stop - n
        opCnt := 0 })

/-- `transfer` of one element erases it at `__next`. -/
def eraseNext (queue : DynamicQueue α) : DynamicQueue α := (queue.eraseElements queue.next 1).2

/-- `__insert` at an offset from `__begin`.  The offsets for `__next` and `__end` go to
each other's pointer. -/
def insert (fill : ArrayFill α) (queue : DynamicQueue α) (pos : Nat) (value : α) (howMany : Nat) :
    DynamicQueue α :=
  if queue.qmax ≤ pos ∨ howMany = 0 then queue
  else
    let copies := if howMany = 1 then [value] else fill.fill value howMany
    let stop := if pos < queue.next then queue.next + howMany else queue.next
    { queue with
      slots := queue.slots.take pos ++ (copies ++ (queue.slots.take queue.stop).drop pos)
      next := if pos < queue.stop then queue.stop + howMany else pos
      stop := stop
      capRem := queue.qmax + howMany - stop
      opCnt := 0 }

/-- The cursor is within the queue, and no slot behind the queue was ever used. -/
structure Sound (queue : DynamicQueue α) : Prop where
  next_le : queue.next ≤ queue.stop
  stop_eq : queue.stop = queue.slots.length

instance (queue : DynamicQueue α) : Decidable queue.Sound :=
  decidable_of_iff
    (queue.next ≤ queue.stop ∧ queue.stop = queue.slots.length)
    ⟨fun both => ⟨both.1, both.2⟩, fun sound => ⟨sound.next_le, sound.stop_eq⟩⟩

def pending (queue : DynamicQueue α) : List α := queue.slots.drop queue.next

variable {queue : DynamicQueue α}

section

variable (sound : queue.Sound)

include sound

lemma Sound.next_le_length : queue.next ≤ queue.slots.length := by
  rw [← sound.stop_eq]
  exact sound.next_le

lemma Sound.length_pending : queue.pending.length = queue.qrem := by
  rw [pending, length_drop, ← sound.stop_eq, qrem]

lemma Sound.atEnd_iff : queue.atEnd = true ↔ queue.pending = [] := by
  have inside := sound.next_le
  have same := sound.stop_eq
  simp only [atEnd, pending, decide_eq_true_eq, drop_eq_nil_iff]
  omega

lemma Sound.empty_iff : queue.empty = true ↔ queue.slots = [] := by
  simp [empty, decide_eq_true_eq, sound.stop_eq, length_eq_zero_iff]

lemma Sound.empty_eq_false (nonempty : queue.slots ≠ []) : queue.empty = false := by
  rw [← Bool.not_eq_true, sound.empty_iff]
  exact nonempty

lemma Sound.next?_eq : queue.next? = queue.pending.head? := by
  have same := sound.stop_eq
  rw [pending, head?_drop, next?]
  by_cases inside : queue.next < queue.stop
  · rw [if_pos inside]
  · rw [if_neg inside, getElem?_eq_none (by omega)]

lemma Sound.onModifyQueue : queue.onModifyQueue.Sound := by
  have same := sound.stop_eq
  rw [DynamicQueue.onModifyQueue]
  split
  · refine ⟨Nat.zero_le _, ?_⟩
    simp only [eraseBeforeNext, length_drop, length_take]
    omega
  · exact sound

/-- A trim loses nothing that is still to be taken. -/
lemma Sound.pending_onModifyQueue : queue.onModifyQueue.pending = queue.pending := by
  rw [DynamicQueue.onModifyQueue]
  split
  · simp [pending, eraseBeforeNext, sound.stop_eq, take_length]
  · rfl

lemma Sound.slots_append (values : List α) :
    (queue.append values).slots = queue.slots ++ values := by
  simp only [append, sound.stop_eq, take_length]
  rw [drop_eq_nil_of_le (Nat.le_add_right _ _), append_nil]

lemma Sound.append (values : List α) : (queue.append values).Sound := by
  have inside := sound.next_le
  refine ⟨?_, ?_⟩
  · simp only [DynamicQueue.append]
    omega
  · rw [sound.slots_append, length_append, ← sound.stop_eq]
    rfl

lemma Sound.pending_append (values : List α) :
    (queue.append values).pending = queue.pending ++ values := by
  rw [pending, sound.slots_append]
  exact drop_append_of_le_length sound.next_le_length

lemma Sound.push (value : α) : (queue.push value).Sound :=
  (sound.append [value]).onModifyQueue

lemma Sound.pending_push (value : α) : (queue.push value).pending = queue.pending ++ [value] := by
  rw [DynamicQueue.push, (sound.append [value]).pending_onModifyQueue, sound.pending_append]

lemma Sound.pushElements (values : List α) : (queue.pushElements values).Sound := by
  rw [DynamicQueue.pushElements]
  split
  · exact sound
  · exact (sound.append values).onModifyQueue

lemma Sound.pending_pushElements (values : List α) :
    (queue.pushElements values).pending = queue.pending ++ values := by
  rw [DynamicQueue.pushElements]
  split
  · rename_i none
    rw [none, append_nil]
  · rw [(sound.append values).pending_onModifyQueue, sound.pending_append]

lemma Sound.popped (count : Nat) :
    { queue with next := queue.next + min queue.qrem count, opCnt := 0 }.Sound := by
  have inside := sound.next_le
  refine ⟨?_, sound.stop_eq⟩
  simp only [qrem]
  omega

lemma Sound.popElements (count : Nat) : (queue.popElements count).2.Sound := by
  rw [DynamicQueue.popElements]
  split
  · exact sound
  · exact (sound.popped count).onModifyQueue

/-- A read takes the first of the elements that are left. -/
lemma Sound.popElements_eq (count : Nat) : (queue.popElements count).1 = queue.pending.take count ∧
    (queue.popElements count).2.pending = queue.pending.drop count := by
  have length := sound.length_pending
  rw [DynamicQueue.popElements]
  split
  · rename_i none
    simp [none]
  refine ⟨?_, ?_⟩
  · show queue.pending.take (min queue.qrem count) = _
    rw [← length, Nat.min_comm, ← take_eq_take_min]
  · rw [(sound.popped count).pending_onModifyQueue]
    show queue.slots.drop (queue.next + min queue.qrem count) = _
    rw [← drop_drop, ← length, Nat.min_comm]
    exact drop_eq_drop_min.symm

/-- Erasing a pending element keeps the others. -/
lemma Sound.eraseOne {offset : Nat} (isPending : offset < queue.pending.length) :
    (queue.eraseOne (queue.next + offset)).Sound ∧ (queue.eraseOne (queue.next + offset)).pending =
        queue.pending.eraseIdx offset := by
  have same := sound.stop_eq
  rw [pending, length_drop] at isPending
  rw [DynamicQueue.eraseOne, qmax, if_neg (by omega)]
  split
  · rename_i single
    refine ⟨⟨Nat.le_refl _, rfl⟩, ?_⟩
    have first : queue.next = 0 := by omega
    have only : offset = 0 := by omega
    obtain ⟨_, oneSlot⟩ := length_eq_one_iff.mp (same.symm.trans single)
    rw [pending, pending, oneSlot, first, only]
    rfl
  rw [if_neg (by omega)]
  have behind : ¬ queue.next + offset < queue.next := by omega
  refine ⟨⟨?_, ?_⟩, ?_⟩
  · simp only [if_neg behind]
    omega
  · simp only [same, take_length]
    rw [length_eraseIdx_of_lt (by omega)]
  have taken : (queue.slots.take queue.next).length = queue.next := by
    rw [length_take]
    omega
  have split := eraseIdx_append_of_length_le
    (Nat.le_trans (Nat.le_of_eq taken) (Nat.le_add_right _ offset)) (queue.slots.drop queue.next)
  rw [take_append_drop, taken, Nat.add_sub_cancel_left] at split
  simp only [pending, if_neg behind, same, take_length, split]
  rw [drop_append_of_le_length (Nat.le_of_eq taken.symm),
    drop_eq_nil_of_le (Nat.le_of_eq taken), nil_append]

end

variable {value : α} {rest : List α}

section

variable (front : queue.pending = value :: rest)

include front

lemma Sound.pop_eq (sound : queue.Sound) :
    queue.pop = some (value, { queue with next := queue.next + 1 }) := by
  rw [pop, sound.next?_eq, front]
  rfl

lemma pending_lt : queue.next < queue.slots.length := by
  by_contra outside
  rw [pending, drop_eq_nil_of_le (Nat.le_of_not_lt outside)] at front
  cases front

lemma pending_popped :
    ({ queue with next := queue.next + 1 } : DynamicQueue α).pending = rest := by
  have tail : queue.slots.drop (queue.next + 1) = queue.pending.tail := by rw [pending, tail_drop]
  rw [front] at tail
  exact tail

end

structure Untrimmed (queue : DynamicQueue α) : Prop where
  sound : queue.Sound
  noTrim : queue.trimStale = false

lemma slots_unpop (queue : DynamicQueue α) : queue.unpop.slots = queue.slots := by
  rw [unpop]
  split <;> rfl

section

variable (untrimmed : queue.Untrimmed)

include untrimmed

lemma Untrimmed.push_eq (value : α) : queue.push value = queue.append [value] := by
  have noTrim : ¬ (queue.append [value]).trims = true := by
    simp [trims, append, untrimmed.noTrim]
  rw [push, onModifyQueue, if_neg noTrim]

lemma Untrimmed.push (value : α) : (queue.push value).Untrimmed := by
  rw [untrimmed.push_eq]
  exact ⟨untrimmed.sound.append [value], untrimmed.noTrim⟩

lemma Untrimmed.slots_push (value : α) : (queue.push value).slots = queue.slots ++ [value] := by
  rw [untrimmed.push_eq, untrimmed.sound.slots_append]

lemma Untrimmed.pending_push (value : α) :
    (queue.push value).pending = queue.pending ++ [value] :=
  untrimmed.sound.pending_push value

lemma Untrimmed.unpop : queue.unpop.Untrimmed := by
  have inside := untrimmed.sound.next_le
  have same := untrimmed.sound.stop_eq
  rw [DynamicQueue.unpop]
  split
  · exact ⟨⟨by simp only; omega, same⟩, untrimmed.noTrim⟩
  · exact untrimmed

variable (front : queue.pending = value :: rest)

include front

/-- One element is erased, or the queue is reset because it was the only one. -/
lemma Untrimmed.eraseNext_cases :
    queue.next = 0 ∧ queue.slots.length = 1 ∧ queue.eraseNext = queue.reset ∨
      queue.eraseNext =
        { queue with
          slots := queue.slots.eraseIdx queue.next
          stop := queue.stop - 1
          opCnt := 0 } := by
  have same := untrimmed.sound.stop_eq
  have inside := pending_lt front
  have one : ¬ queue.stop < queue.next + 1 := by omega
  rw [eraseNext, eraseElements, if_neg one, qmax, if_neg (by omega)]
  split
  · rename_i only
    exact .inl ⟨only.1, by omega, rfl⟩
  · simp [same, take_length, eraseIdx_eq_take_drop_succ]

lemma Untrimmed.slots_eraseNext :
    queue.eraseNext.slots = queue.slots.eraseIdx queue.next := by
  rcases untrimmed.eraseNext_cases front with ⟨first, single, isReset⟩ | erased
  · obtain ⟨_, oneSlot⟩ := length_eq_one_iff.mp single
    rw [isReset, first, oneSlot]
    rfl
  · rw [erased]

lemma Untrimmed.next_eraseNext : queue.eraseNext.next = queue.next := by
  rcases untrimmed.eraseNext_cases front with ⟨first, -, isReset⟩ | erased
  · rw [isReset, first]
    rfl
  · rw [erased]

lemma Untrimmed.eraseNext : queue.eraseNext.Untrimmed := by
  have inside := pending_lt front
  have same := untrimmed.sound.stop_eq
  rcases untrimmed.eraseNext_cases front with ⟨-, -, isReset⟩ | erased
  · rw [isReset]
    exact ⟨⟨Nat.le_refl _, rfl⟩, untrimmed.noTrim⟩
  · rw [erased]
    refine ⟨⟨?_, ?_⟩, untrimmed.noTrim⟩
    · simp only
      omega
    · simp only [length_eraseIdx_of_lt inside, same]

lemma Untrimmed.length_eraseNext : queue.eraseNext.slots.length + 1 = queue.slots.length := by
  have inside := pending_lt front
  rw [untrimmed.slots_eraseNext front, length_eraseIdx_of_lt inside]
  omega

lemma Untrimmed.perm_eraseNext : (value :: queue.eraseNext.slots).Perm queue.slots := by
  have inside := pending_lt front
  have split := drop_eq_getElem_cons inside
  rw [← pending, front] at split
  rw [untrimmed.slots_eraseNext front, (cons.inj split).1]
  exact getElem_cons_eraseIdx_perm inside

lemma Untrimmed.pending_eraseNext : queue.eraseNext.pending = rest := by
  have inside := pending_lt front
  have popped := pending_popped front
  rw [pending, untrimmed.next_eraseNext front, untrimmed.slots_eraseNext front,
    eraseIdx_eq_take_drop_succ, drop_append, drop_take]
  simpa [Nat.min_eq_left (Nat.le_of_lt inside), pending] using popped

end

/-- The copies are in front of the element that was at the position, and both
cursors stay at their elements. -/
def Inserted (fill : ArrayFill α) (queue : DynamicQueue α) (pos : Nat) (value : α)
    (howMany : Nat) : Prop :=
  let after := queue.insert fill pos value howMany
  after.slots.take after.stop = queue.slots.take pos ++
      (replicate howMany value ++ (queue.slots.take queue.stop).drop pos) ∧
    after.stop = queue.stop + howMany ∧
    after.next = if pos < queue.next then queue.next + howMany else queue.next

/-- An insertion is right only into a queue of which all elements were taken, and if
`fill_n` writes the copies. -/
theorem inserted_iff {fill : ArrayFill α} {pos howMany : Nat}
    (allocated : queue.stop ≤ queue.slots.length) (inQueue : pos < queue.stop) :
    queue.Inserted fill pos value howMany ↔ howMany = 0 ∨ queue.next = queue.stop ∧
      (howMany = 1 ∨ fill.fill value howMany = replicate howMany value) := by
  have before : (queue.slots.take pos).length = pos := length_take_of_le (by omega)
  have behind : ((queue.slots.take queue.stop).drop pos).length = queue.stop - pos := by
    rw [length_drop, length_take_of_le allocated]
  have inBuffer : ¬ queue.qmax ≤ pos := by
    rw [qmax]
    omega
  rw [Inserted, insert]
  by_cases none : howMany = 0
  · have whole : queue.slots.take pos ++ (queue.slots.take queue.stop).drop pos =
        queue.slots.take queue.stop := by
      nth_rewrite 1 [← Nat.min_eq_left (Nat.le_of_lt inQueue)]
      rw [← take_take, take_append_drop]
    simp [none, whole]
  rw [if_neg (not_or.mpr ⟨inBuffer, none⟩), if_pos inQueue, or_iff_right none]
  dsimp only
  have length : (if howMany = 1 then [value] else fill.fill value howMany).length = howMany := by
    split
    · rename_i one
      rw [one, length_singleton]
    · exact fill.length_fill value howMany
  have copies : (if howMany = 1 then [value] else fill.fill value howMany) =
      replicate howMany value ↔
        howMany = 1 ∨ fill.fill value howMany = replicate howMany value := by
    by_cases one : howMany = 1 <;> simp [one]
  rw [← copies]
  generalize (if howMany = 1 then [value] else fill.fill value howMany) = written at length ⊢
  have full (taken : queue.next = queue.stop) : take
      (if pos < queue.next then queue.next + howMany else queue.next)
      (queue.slots.take pos ++ (written ++ (queue.slots.take queue.stop).drop pos)) =
        queue.slots.take pos ++ (written ++ (queue.slots.take queue.stop).drop pos) := by
    rw [taken, if_pos inQueue, take_of_length_le]
    simp only [length_append, length, before, behind]
    omega
  constructor
  · rintro ⟨elements, isStop, -⟩
    have taken : queue.next = queue.stop := by split at isStop <;> omega
    rw [full taken, append_cancel_left_eq] at elements
    exact ⟨taken, append_inj_left elements (by rw [length, length_replicate])⟩
  · rintro ⟨taken, same⟩
    rw [full taken, same, taken, if_pos inQueue]
    exact ⟨rfl, rfl, rfl⟩

theorem inserted_taken :
    ({ slots := [1, 2], next := 2, stop := 2 } : ResettableQueue Nat).Inserted .construct 0 3 2 :=
  (inserted_iff (by decide) (by decide)).mpr (.inr ⟨rfl, .inr rfl⟩)

/-- The new element goes in front of the only one, and none is left to take. -/
theorem not_inserted_pending :
    ¬ ({ slots := [1], stop := 1 } : ResettableQueue Nat).Inserted .construct 0 2 1 := by
  rintro ⟨-, isStop, -⟩
  exact absurd isStop (by decide)

/-- The other elements stay in order, and `__next` stays behind as many of them as
were in front of it. -/
def Erased (queue : DynamicQueue α) (pos n : Nat) : Prop :=
  let after := (queue.eraseElements pos n).2
  after.slots.take after.stop =
      queue.slots.take pos ++ (queue.slots.take queue.stop).drop (pos + n) ∧
    after.next = Nat.count (fun i => i < pos ∨ pos + n ≤ i) queue.next

lemma count_outside (pos n c : Nat) :
    Nat.count (fun i => i < pos ∨ pos + n ≤ i) c = min c pos + (c - (pos + n)) := by
  induction c with
  | zero => simp
  | succ c ih =>
    rw [Nat.count_succ, ih]
    split <;> omega

theorem erased_iff {pos n : Nat} (allocated : queue.stop ≤ queue.slots.length)
    (inside : queue.next ≤ queue.stop) (inQueue : pos < queue.stop) : queue.Erased pos n ↔
      pos = 0 ∨ queue.next ≤ pos ∨ min (pos + n) queue.stop ≤ queue.next := by
  have number : (if queue.stop < pos + n then queue.stop - pos else n) =
      min n (queue.stop - pos) := by
    split <;> omega
  have length := length_take_of_le allocated
  rw [Erased, eraseElements, qmax, if_neg (by omega), number, count_outside]
  split
  · rename_i all
    rw [drop_eq_nil_of_le (by omega)]
    simp only [reset, all.1, take_nil, take_zero, nil_append, true_and, true_or, iff_true]
    omega
  dsimp only
  rw [and_iff_right]
  · split <;> omega
  have same : (queue.slots.take queue.stop).drop (pos + min n (queue.stop - pos)) =
      (queue.slots.take queue.stop).drop (pos + n) := by
    rcases le_total n (queue.stop - pos) with few | many
    · rw [min_eq_left few]
    · rw [drop_eq_nil_of_le (by omega), drop_eq_nil_of_le (by omega)]
  rw [same, take_of_length_le]
  rw [length_append, length_take, length_drop]
  omega

theorem erased_taken : ({ slots := [1, 2, 3], next := 2, stop := 3 } :
      ResettableQueue Nat).Erased 0 1 :=
  (erased_iff (by decide) (by decide) (by decide)).mpr (.inl rfl)

/-- Erasing the second and the third of four elements after two were taken: the
first one, which was taken, is pending again. -/
theorem not_erased_across : ¬ ({ slots := [1, 2, 3, 4], next := 2, stop := 4 } :
      ResettableQueue Nat).Erased 1 2 := by
  rintro ⟨-, isNext⟩
  exact absurd isNext (by decide)

end DynamicQueue

end OoOS.Libk
