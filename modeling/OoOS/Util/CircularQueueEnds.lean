import OoOS.Libk.Arith
import OoOS.Util.CircularQueueRun

/-!
# Both ends of a `circular_queue`

`get` takes many elements at once, `back` and the iterator of `emplace` refer to
the newest one.
-/

namespace OoOS.Util.CircularBuffer

open List Lib Libk Nat CircularBuffer Option

universe u

variable {α : Type u} {kind : ElementType} {buffer : CircularBuffer α} {list : List α}

def copyFrom (buffer : CircularBuffer α) (start count : Nat) : Option (List (Option α)) :=
  if start + count ≤ buffer.rmax then
    some ((range count).map fun i => buffer.cells (start + i))
  else none

/-- `__sink` into `k` contiguous elements: what is copied to them, the number that
is returned, and the queue. -/
def sink (kind : ElementType) (buffer : CircularBuffer α) (k : Nat) :
    Option (List (Option α) × Nat × CircularBuffer α) := do
  let n := min k buffer.length
  let copied ←
    if buffer.back < buffer.curr then do
      let backPart := buffer.rmax - buffer.curr
      let back ← buffer.copyFrom buffer.curr backPart
      let front ← buffer.copyFrom 0 (wsub n backPart)
      some (back ++ front)
    else buffer.copyFrom buffer.curr n
  some (copied, n, buffer.advPopBy kind n)

/-- The elements that as many single pops give, and the queue they leave. -/
def Sinks (kind : ElementType) (buffer : CircularBuffer α) (list : List α) (k : Nat) : Prop :=
  buffer.sink kind k = some ((list.take k).map some, min k list.length,
    CircularBuffer.advPop^[min k list.length] buffer)

lemma copyFrom_eq {cells : Nat → Option α} {size start p skip count : Nat}
    (inRing : InRing cells size start list) (enough : skip + count ≤ list.length)
    (steps : ∀ i < count, (start + (skip + i)) % size = p + i) :
    (range count).map (fun i => cells (p + i)) = ((list.drop skip).take count).map some := by
  refine ext_getElem (by simp; omega) fun i h1 h2 => ?_
  have hi : i < count := by simpa using h1
  simp only [getElem_map, getElem_range, getElem_take, getElem_drop]
  rw [← steps i hi]
  exact inRing (skip + i) (by omega)

lemma Holds.advPop_iterate (holds : buffer.Holds kind list) {n : Nat} (enough : n ≤ list.length) :
    CircularBuffer.advPop^[n] buffer = { buffer with curr := (buffer.curr + n) % buffer.rmax } := by
  induction n with
  | zero => simp [mod_eq_of_lt holds.currBound]
  | succ n ih =>
    have hd := holds.drop (le_of_succ_le enough)
    have hne := ne_of_gt (zero_lt_of_lt holds.currBound)
    have hnb : (buffer.curr + n) % buffer.rmax ≠ buffer.back := by
      intro hs
      have hl := hd.length_eq
      rw [length, posOf, if_pos (by rw [hs]; exact Int.sub_self _), length_drop] at hl
      omega
    rw [Function.iterate_succ_apply', ih (by omega), CircularBuffer.advPop, if_pos ⟨hne, hnb⟩,
      advPtr_eq hd.currBound]
    simp [add_assoc]

lemma Holds.advPopBy_eq (holds : buffer.Holds kind list) {n : Nat} (enough : n ≤ list.length) :
    buffer.advPopBy kind n = CircularBuffer.advPop^[n] buffer := by
  have hp := zero_lt_of_lt holds.currBound
  rw [advPopBy, holds.length_eq]
  dsimp only
  rw [if_neg (not_lt.mpr enough)]
  by_cases h1 : n = 1
  · rw [if_pos h1, h1]
    rfl
  rw [if_neg h1, if_pos (show buffer.capacity ≠ 0 from ne_of_gt hp)]
  split
  · rfl
  rw [holds.advPop_iterate enough, advPtrBy_eq hp]

/-- A bulk extraction is right exactly when the queue is not wrapped or all
elements up to the end of the buffer are taken. -/
theorem sinks_iff (represents : buffer.Represents kind list) (small : buffer.rmax < 2 ^ 64)
    (k : Nat) :
    buffer.Sinks kind list k ↔
      buffer.curr ≤ buffer.back ∨ buffer.rmax - buffer.curr ≤ min k list.length := by
  rcases represents with ⟨rfl, rfl⟩ | hh
  · simp [Sinks, sink, copyFrom, length, posOf, advPopBy, capacity]
  have hc := hh.currBound
  have hf := hh.few
  have hb := ring_cases hc (le_of_lt hf)
  rw [← hh.isBack] at hb
  have ht : list.take k = list.take (min k list.length) := by
    rw [take_eq_take_iff]
    omega
  rw [Sinks, sink, hh.length_eq, hh.advPopBy_eq (min_le_right _ _), ht]
  have hl : min k list.length ≤ list.length := min_le_right _ _
  generalize min k list.length = n at *
  by_cases hw : buffer.back < buffer.curr
  · rw [if_pos hw]
    dsimp only
    rw [copyFrom, if_pos (by omega)]
    by_cases hp : buffer.rmax - buffer.curr ≤ n
    · have hs : wsub n (buffer.rmax - buffer.curr) = n - (buffer.rmax - buffer.curr) := by
        unfold wsub
        omega
      rw [hs, copyFrom, if_pos (by omega)]
      have h1 := @copyFrom_eq α list _ _ _ buffer.curr 0 (buffer.rmax - buffer.curr) hh.inRing
        (by omega) fun i hi => by rw [zero_add, mod_eq_of_lt (by omega)]
      have h2 := @copyFrom_eq α list _ _ _ 0 (buffer.rmax - buffer.curr)
        (n - (buffer.rmax - buffer.curr)) hh.inRing (by omega) fun i hi => by
          rw [show buffer.curr + (buffer.rmax - buffer.curr + i) = i + buffer.rmax by omega,
            add_mod_right, mod_eq_of_lt (by omega), zero_add]
      refine iff_of_true ?_ (.inr hp)
      simp only [bind_eq_bind, bind_some]
      rw [h1, h2, drop_zero, ← map_append, ← take_add, Nat.add_sub_cancel' hp]
    · -- the part behind the wrap has a negative length
      refine iff_of_false ?_ (by omega)
      cases hq : buffer.copyFrom 0 (wsub n (buffer.rmax - buffer.curr)) with
      | none => simp
      | some front =>
        simp only [bind_eq_bind, bind_some]
        intro he
        have hlen := congrArg (fun out => out.map fun out => out.1.length) he
        simp at hlen
        omega
  · rw [if_neg hw, copyFrom, if_pos (by omega)]
    have h1 := @copyFrom_eq α list _ _ _ buffer.curr 0 n hh.inRing (by omega) fun i hi => by
      rw [zero_add, mod_eq_of_lt (by omega)]
    refine iff_of_true ?_ (.inl (by omega))
    simp only [bind_eq_bind, bind_some]
    rw [h1, drop_zero]

def bytes : ElementType := ⟨1, true, Nat.one_pos⟩

def wrapped : CircularBuffer Nat where
  allocated := true
  room := 4
  held := 4
  cells := fun i => [some 3, none, some 1, some 2][i]?.join
  curr := 2
  back := 1
  rmax := 4

lemma wrapped_holds : wrapped.Holds bytes [1, 2, 3] where
  isAllocated := rfl
  currBound := by decide
  few := by decide
  isBack := rfl
  inRing := by
    intro i hi
    have hc : i = 0 ∨ i = 1 ∨ i = 2 := by
      simp only [length_cons, length_nil] at hi
      omega
    rcases hc with rfl | rfl | rfl <;> rfl
  fits := by decide
  room := by decide

theorem sinks_whole : wrapped.Sinks bytes [1, 2, 3] 3 :=
  (sinks_iff (.inr wrapped_holds) (by decide) 3).mpr (.inr (by decide))

/-- One element is asked for, and more are copied. -/
theorem not_sinks_one : wrapped.Holds bytes [1, 2, 3] ∧ ¬ wrapped.Sinks bytes [1, 2, 3] 1 := by
  refine ⟨wrapped_holds, fun h => ?_⟩
  have hn : wrapped.sink bytes 1 = none := by
    simp [sink, copyFrom, wrapped, wsub, length, posOf, capacity]
  rw [Sinks, hn] at h
  cases h

/-- Where `__peek_back` reads: the pointer before `__back`, but not before
`__curr`. -/
def backPos (buffer : CircularBuffer α) : Nat :=
  if buffer.back < buffer.curr + 1 then buffer.curr else buffer.back - 1

def peekBack (buffer : CircularBuffer α) : Option α := buffer.cells buffer.backPos

def moves (kind : ElementType) (buffer : CircularBuffer α) : Bool :=
  if buffer.back + 1 = buffer.rmax ∧ buffer.curr = 0 then
    !(kind.triviallyDestructible && decide (buffer.rmax * 2 ≤ buffer.room))
  else decide (buffer.back + 1 = buffer.curr)

/-- `emplace`, with the place its iterator has in the buffer, if it is one of it. -/
def emplace (kind : ElementType) (buffer : CircularBuffer α) (value : α) (extra : Nat) :
    Option (Option Nat × CircularBuffer α) :=
  ((buffer.createIfEmpty kind 4 extra).store kind value).map fun stored =>
    (if stored.moves kind then none else some stored.back, stored.advPush kind extra)

/-- `back` is the element behind those of the list. -/
def Newest (next : CircularBuffer α) (list : List α) (value : α) : Prop :=
  next.backPos = (next.curr + list.length) % next.rmax ∧ next.peekBack = some value

def PushReaches (kind : ElementType) (buffer : CircularBuffer α) (list : List α) (value : α)
    (extra : Nat) : Prop :=
  ∃ next, buffer.push kind value extra = some next ∧ next.Newest list value

def EmplaceReaches (kind : ElementType) (buffer : CircularBuffer α) (list : List α) (value : α)
    (extra : Nat) : Prop :=
  ∃ iterator next, buffer.emplace kind value extra = some (iterator, next) ∧
    next.Newest list value ∧ iterator = some next.backPos

/-- The new element is copied when the buffer grows in place of its block. -/
def Copied (kind : ElementType) (buffer : CircularBuffer α) : Prop :=
  kind.triviallyDestructible = false ∨ buffer.rmax * 2 ≤ buffer.room ∨
    buffer.rmax * kind.size ≤ min buffer.held (buffer.rmax * 2)

/-- The write cursor does not come to the start of the buffer and is not behind
it, unless the element is the only one. -/
def Ahead (buffer : CircularBuffer α) (list : List α) : Prop :=
  list = [] ∨ buffer.curr + list.length + 1 < buffer.rmax

lemma push_eq (value : α) (extra : Nat) :
    buffer.push kind value extra = (buffer.emplace kind value extra).map Prod.snd := by
  rw [push, emplace, Option.map_map]
  rfl

section

variable {stored : CircularBuffer α} {value : α} (extra : Nat)
  (isBack : stored.back = (stored.curr + list.length) % stored.rmax)
  (written : stored.cells stored.back = some value)

include isBack

lemma newest_backPos (room : list.length < stored.rmax) (stays : stored.moves kind = false)
    (newest : (stored.advPush kind extra).Newest list value) :
    (stored.advPush kind extra).backPos = stored.back := by
  rw [newest.1, isBack, advPush]
  rw [moves] at stays
  split at stays
  case isTrue hd =>
    rw [if_pos hd, hd.2, zero_add, mod_eq_of_lt room]
    dsimp only [expandDirect, capacity]
    rw [zero_add, mod_eq_of_lt (by omega)]
  case isFalse hd => rw [if_neg hd, if_neg (of_decide_eq_false stays)]

include written

/-- A push that copies the elements to a larger block. -/
lemma newest_direct (atStart : stored.curr = 0) (oneLeft : list.length + 1 = stored.rmax)
    (allocated : stored.allocated = true) :
    (stored.advPush kind extra).Newest list value ↔ stored.Copied kind := by
  rw [atStart, zero_add, mod_eq_of_lt (by omega)] at isBack
  have hs : stored.advPush kind extra = stored.expandDirect kind extra := if_pos ⟨by omega, atStart⟩
  have hp : (stored.expandDirect kind extra).backPos = stored.back := by
    dsimp only [backPos, expandDirect, capacity]
    rw [if_neg (by omega)]
    omega
  have hm : list.length % (stored.rmax * 2) = stored.back := by
    rw [mod_eq_of_lt (by omega), isBack]
  have hmin : ¬ stored.rmax * 2 < stored.rmax := by omega
  rw [hs, Newest, peekBack, hp]
  dsimp only [expandDirect, capacity]
  rw [zero_add, hm, resize, if_neg (by simp [allocated]), Copied]
  cases ht : kind.triviallyDestructible with
  | false => simp [hmin, written, show stored.back < stored.rmax by omega]
  | true =>
    rw [alignedReallocate]
    rcases lt_or_ge stored.room (stored.rmax * 2) with hr | hr
    · have he : stored.back + 1 = stored.rmax := by omega
      simp [not_le.mpr hr, he, written]
    · simp [hr, written]

/-- A push that moves the wrapped part. -/
lemma newest_splice (moved : stored.curr ≠ 0) (inside : stored.curr < stored.rmax)
    (oneLeft : list.length + 1 = stored.rmax) : (stored.advPush kind extra).Newest list value := by
  have hk : stored.back + 1 = stored.curr := by
    rcases ring_cases inside (show list.length ≤ stored.rmax by omega) with h | h <;> omega
  have hs : stored.advPush kind extra = stored.expandSplice kind extra := by
    rw [advPush, if_neg fun h => moved h.2, if_pos hk]
  have hp : (stored.expandSplice kind extra).backPos = list.length := by
    dsimp only [backPos, expandSplice]
    rw [if_neg (by omega)]
    omega
  rw [hs, Newest, peekBack, hp]
  dsimp only [expandSplice, capacity]
  rw [zero_add, mod_eq_of_lt (by omega), if_neg (by omega), if_pos (by omega)]
  refine ⟨rfl, ?_⟩
  rw [← written]
  congr 1
  omega

section

variable (inside : stored.curr < stored.rmax)

include inside

lemma newest_advance (room : list.length + 1 < stored.rmax) :
    (stored.advPush kind extra).Newest list value ↔ stored.Ahead list := by
  have hs : stored.advPush kind extra =
      { stored with back := (stored.back + 1) % stored.rmax } := by
    rw [advPush, if_neg, if_neg]
    · rfl
    all_goals
      rcases ring_cases inside (show list.length ≤ stored.rmax by omega) with h | h <;> omega
  have hnx : (stored.back + 1) % stored.rmax = (stored.curr + (list.length + 1)) % stored.rmax := by
    rw [isBack, mod_add_mod, add_assoc]
  have hlen := length_eq_zero_iff (l := list)
  rw [hs, Newest, peekBack, Ahead]
  dsimp only [backPos]
  rw [hnx, ← hlen, ← isBack, and_iff_left_of_imp (fun h => by rwa [h])]
  rcases ring_cases inside (show list.length ≤ stored.rmax by omega) with h | h <;>
  rcases ring_cases inside (show list.length + 1 ≤ stored.rmax by omega) with h' | h' <;>
  split <;> omega

section

variable (room : list.length < stored.rmax) (allocated : stored.allocated = true)

include room allocated

lemma newest_iff : (stored.advPush kind extra).Newest list value ↔
    if list.length + 1 = stored.rmax then stored.curr ≠ 0 ∨ stored.Copied kind
    else stored.Ahead list := by
  split
  case isTrue hn =>
    by_cases h0 : stored.curr = 0
    · simp [newest_direct extra isBack written h0 hn allocated, h0]
    · simp [newest_splice extra isBack written h0 inside hn, h0]
  case isFalse hn => exact newest_advance extra isBack written inside (by omega)

lemma emplaced_iff : ((stored.advPush kind extra).Newest list value ∧ stored.moves kind = false) ↔
    if list.length + 1 = stored.rmax then
      stored.curr = 0 ∧ kind.triviallyDestructible = true ∧ stored.rmax * 2 ≤ stored.room
    else stored.Ahead list := by
  rw [newest_iff extra isBack written inside room allocated, moves]
  have hring := ring_cases inside (le_of_lt room)
  split
  case isTrue hn =>
    by_cases h0 : stored.curr = 0
    · rw [if_pos ⟨by omega, h0⟩, Copied]
      simp only [h0, Bool.not_eq_false', Bool.and_eq_true, decide_eq_true_iff]
      tauto
    · simp [h0, show stored.back + 1 = stored.curr by omega]
  case isFalse hn =>
    rw [if_neg (by omega), decide_eq_false (by omega)]
    exact and_iff_left rfl

end

end

end

lemma Represents.emplace_eq (represents : buffer.Represents kind list) (value : α) (extra : Nat) :
    ∃ cells : Nat → Option α,
      let stored := { buffer.createIfEmpty kind 4 extra with cells := cells }
      cells stored.back = some value ∧ buffer.emplace kind value extra =
        some (if stored.moves kind then none else some stored.back, stored.advPush kind extra) := by
  obtain ⟨stored, hs, -⟩ := (represents.createIfEmpty extra).store value
  have he := hs
  rw [store] at hs
  split at hs
  case isTrue =>
    cases hs
    refine ⟨_, ?_, by rw [emplace, he, map_some]⟩
    exact if_pos rfl
  case isFalse => cases hs

/-- The iterator is one of the buffer unless the elements get another block. -/
theorem reaches_iff (represents : buffer.Represents kind list) (value : α) (extra : Nat) :
    let created := buffer.createIfEmpty kind 4 extra
    (buffer.PushReaches kind list value extra ↔
        if list.length + 1 = created.rmax then created.curr ≠ 0 ∨ created.Copied kind
        else created.Ahead list) ∧
      (buffer.EmplaceReaches kind list value extra ↔
        if list.length + 1 = created.rmax then
          created.curr = 0 ∧ kind.triviallyDestructible = true ∧ created.rmax * 2 ≤ created.room
        else created.Ahead list) := by
  have hh := represents.createIfEmpty extra
  obtain ⟨cells, hv, he⟩ := represents.emplace_eq value extra
  generalize buffer.createIfEmpty kind 4 extra = created at hh hv he ⊢
  constructor
  · have hp : buffer.PushReaches kind list value extra ↔
        (advPush kind { created with cells := cells } extra).Newest list value := by
      simp [PushReaches, push_eq, he]
    rw [hp]
    exact newest_iff extra hh.isBack hv hh.currBound hh.few hh.isAllocated
  · have hd : (advPush kind { created with cells := cells } extra).Newest list value ∧
        moves kind { created with cells := cells } = false ↔ _ :=
      emplaced_iff extra hh.isBack hv hh.currBound hh.few hh.isAllocated
    refine Iff.trans ?_ hd
    simp only [EmplaceReaches, he, some.injEq, Prod.mk.injEq]
    constructor
    · rintro ⟨_, _, ⟨rfl, rfl⟩, hn, hi⟩
      refine ⟨hn, ?_⟩
      by_contra hne
      rw [if_pos (Bool.of_not_eq_false hne)] at hi
      cases hi
    · rintro ⟨hn, hmv⟩
      have hbp : backPos _ = created.back :=
        @newest_backPos α kind list { created with cells := cells } value extra hh.isBack hh.few hmv
          hn
      refine ⟨_, _, ⟨rfl, rfl⟩, hn, ?_⟩
      rw [hbp, hmv, if_neg Bool.false_ne_true]

/-- One element is in a ring of four slots. -/
def oneOfFour : CircularBuffer Nat where
  allocated := true
  room := 4
  held := 4
  cells := fun i => if i = 0 then some 5 else none
  curr := 0
  back := 1
  rmax := 4

theorem reaches_second : oneOfFour.PushReaches bytes [5] 7 0 ∧
    oneOfFour.EmplaceReaches bytes [5] 7 0 := by
  have holds : oneOfFour.Holds bytes [5] := by
    refine ⟨rfl, by decide, by decide, rfl, ?_, by decide, by decide⟩
    intro i inList
    obtain rfl : i = 0 := by simpa using inList
    rfl
  exact ⟨(reaches_iff (.inr holds) 7 0).1.mpr (.inr (by decide)),
    (reaches_iff (.inr holds) 7 0).2.mpr (.inr (by decide))⟩

/-- The write cursor is behind the read cursor: `back` is the oldest element. -/
theorem not_reaches_wrapped : wrapped.advPop.Holds bytes [2, 3] ∧
    ¬ wrapped.advPop.PushReaches bytes [2, 3] 4 0 := by
  refine ⟨wrapped_holds.advPop, ?_⟩
  rintro ⟨next, hn, hb, -⟩
  cases hn
  exact absurd hb (by decide)

end OoOS.Util.CircularBuffer
