import OoOS.Lib.Ring
import OoOS.Util.CircularQueue

/-!
# `circular_queue` as a list

The elements lie in the ring of the cells, from the read to the write cursor.
Every call does to them what it would do to a list.
-/

namespace OoOS.Util

open List Lib Nat CircularBuffer

universe u

variable {α : Type u}

def fifoCall (list : List α) : QueueCall α → Option α × List α
  | .push value _ => (none, list ++ [value])
  | .pop => (list.head?, list.tail)
  | .bump n => (none, list.drop n)

namespace CircularBuffer

/-- What can be seen of a queue is what can be seen of a list. -/
structure Observes (buffer : CircularBuffer α) (list : List α) : Prop where
  size : buffer.length = list.length
  empty : buffer.empty = list.isEmpty
  front : ∀ head, list.head? = some head → buffer.front = some head
  visits : buffer.iterate = some (list.map some)

/-- A queue behaves as a list does in a sequence of calls; `pop` is for a queue
that is not empty. -/
def Refines (kind : ElementType) : CircularBuffer α → List α → List (QueueCall α) → Prop
  | buffer, list, [] => buffer.Observes list
  | buffer, list, call :: calls =>
    buffer.Observes list ∧ ((call = .pop → list ≠ []) →
      ∃ next, buffer.call kind call = some ((fifoCall list call).1, next) ∧
        Refines kind next (fifoCall list call).2 calls)

/-- An allocated queue has the elements of a list in its ring. -/
structure Holds (kind : ElementType) (buffer : CircularBuffer α)
    (list : List α) : Prop where
  isAllocated : buffer.allocated = true
  currBound : buffer.curr < buffer.rmax
  few : list.length < buffer.rmax
  isBack : buffer.back = (buffer.curr + list.length) % buffer.rmax
  inRing : InRing buffer.cells buffer.rmax buffer.curr list
  fits : buffer.rmax * kind.size ≤ buffer.held
  room : buffer.held ≤ buffer.room

/-- A queue that is not allocated yet has no elements. -/
def Represents (kind : ElementType) (buffer : CircularBuffer α)
    (list : List α) : Prop :=
  buffer = {} ∧ list = [] ∨ buffer.Holds kind list

variable {kind : ElementType} {buffer : CircularBuffer α} {list : List α}

lemma Holds.length_eq (holds : buffer.Holds kind list) : buffer.length = list.length := by
  have few := holds.few
  have hb := holds.isBack
  rw [length, posOf]
  dsimp only [capacity]
  split
  case isTrue same =>
    have hc : (buffer.curr + 0) % buffer.rmax = (buffer.curr + list.length) % buffer.rmax := by
      rw [← hb, add_zero, mod_eq_of_lt holds.currBound]
      omega
    exact ring_injective (zero_lt_of_lt few) few hc
  case isFalse notSame =>
    have hl : ((list.length : Int) % buffer.rmax) = list.length :=
      Int.emod_eq_of_lt (by omega) (by omega)
    rcases ring_cases holds.currBound (le_of_lt few) with
      ⟨_, isMod⟩ | ⟨_, isMod⟩
    · have isSum : (buffer.rmax : Int) + (buffer.back - buffer.curr) =
          buffer.rmax + list.length := by omega
      rw [isSum, Int.add_emod_left, hl]
      exact Int.toNat_natCast _
    have isSum : (buffer.rmax : Int) + (buffer.back - buffer.curr) = list.length := by omega
    rw [isSum, hl]
    exact Int.toNat_natCast _

lemma advPtr_eq {p : Nat} (bound : p < buffer.rmax) : buffer.advPtr p = (p + 1) % buffer.rmax := by
  rw [advPtr]
  split
  case isTrue below => rw [mod_eq_of_lt below]
  case isFalse notBelow =>
    have isEnd : p + 1 = buffer.rmax := by omega
    rw [isEnd, mod_self]

lemma next_eq {pos : Nat} (bound : pos < buffer.rmax) (notBack : pos ≠ buffer.back) :
    buffer.next pos = (pos + 1) % buffer.rmax := by
  have hnz := ne_of_gt (zero_lt_of_lt bound)
  rw [next, if_pos ⟨hnz, notBack⟩]
  exact advPtr_eq bound

lemma visit_eq (list : List α) : ∀ (fuel pos : Nat),
    pos < buffer.rmax → list.length < buffer.rmax → list.length < fuel →
    buffer.back = (pos + list.length) % buffer.rmax → InRing buffer.cells buffer.rmax pos list →
    buffer.visit fuel pos = some (list.map some) := by
  induction list with
  | nil =>
    intro fuel pos bound _ he isBack _
    obtain ⟨fuel, rfl⟩ := exists_eq_succ_of_ne_zero (ne_of_gt he)
    have isPos : pos = buffer.back := by rw [isBack, length_nil, add_zero, mod_eq_of_lt bound]
    rw [visit, if_pos isPos, map_nil]
  | cons _ rest ih =>
    intro fuel pos bound few he isBack inRing
    rw [length_cons] at few he isBack
    obtain ⟨fuel, rfl⟩ := exists_eq_succ_of_ne_zero (ne_of_gt (zero_lt_of_lt he))
    have hnb : pos ≠ buffer.back := by
      intro same
      have hcu : (pos + 0) % buffer.rmax = (pos + (rest.length + 1)) % buffer.rmax := by
        rw [← isBack, add_zero, mod_eq_of_lt bound, ← same]
      have hz := ring_injective (zero_lt_of_lt few) few hcu
      omega
    have hc := inRing.head
    rw [mod_eq_of_lt bound] at hc
    have hr := ih fuel ((pos + 1) % buffer.rmax)
      (mod_lt _ (zero_lt_of_lt bound)) (by omega) (by omega)
      (by rw [isBack, mod_add_mod, add_assoc, add_comm 1]) (inRing.drop 1)
    rw [visit, if_neg hnb, next_eq bound hnb, hr, hc]
    rfl

lemma Holds.observes (holds : buffer.Holds kind list) : buffer.Observes list where
  size := holds.length_eq
  empty := by
    rw [empty, holds.length_eq]
    cases list <;> rfl
  front := by
    intro head hhe
    cases list with
    | nil => cases hhe
    | cons value rest =>
      have hc := holds.inRing.head
      rw [mod_eq_of_lt holds.currBound] at hc
      rw [front, peek, hc]
      exact hhe
  visits := visit_eq list _ _ holds.currBound holds.few
    (lt_succ_of_lt holds.few) holds.isBack holds.inRing

lemma Represents.observes (represents : buffer.Represents kind list) : buffer.Observes list := by
  rcases represents with ⟨rfl, rfl⟩ | holds
  · exact ⟨rfl, rfl, fun _ hh => (nomatch hh), rfl⟩
  · exact holds.observes

section

variable (holds : buffer.Holds kind list)

include holds

lemma Holds.drop {count : Nat} (atMost : count ≤ list.length) : Holds kind
      { buffer with curr := (buffer.curr + count) % buffer.rmax }
      (list.drop count) where
  isAllocated := holds.isAllocated
  currBound := mod_lt _ (zero_lt_of_lt holds.currBound)
  few := by
    rw [length_drop]
    exact lt_of_le_of_lt (sub_le _ _) holds.few
  isBack := by
    have isSum : buffer.curr + count + (list.length - count) = buffer.curr + list.length := by omega
    rw [length_drop, mod_add_mod, isSum, holds.isBack]
  inRing := holds.inRing.drop count
  fits := holds.fits
  room := holds.room

lemma Holds.advPop : buffer.advPop.Holds kind (list.drop 1) := by
  have hcb := holds.currBound
  have hnz := ne_of_gt (zero_lt_of_lt hcb)
  rw [CircularBuffer.advPop]
  cases list with
  | nil =>
    have hb := holds.isBack
    rw [length_nil, add_zero, mod_eq_of_lt hcb] at hb
    rw [if_neg fun some => some.2 hb.symm]
    exact holds
  | cons _ _ =>
    have hnb : buffer.curr ≠ buffer.back := by
      intro same
      have hl := holds.length_eq
      rw [length, posOf, ← same, if_pos (Int.sub_self _)] at hl
      exact absurd hl.symm (succ_ne_zero _)
    rw [if_pos ⟨hnz, hnb⟩, advPtr_eq hcb]
    exact holds.drop (succ_le_succ (zero_le _))

lemma Holds.advPops (count : Nat) :
    (CircularBuffer.advPop^[count] buffer).Holds kind (list.drop count) := by
  induction count with
  | zero => exact holds
  | succ count ih =>
    rw [Function.iterate_succ_apply', ← drop_drop]
    exact ih.advPop

end

variable {n : Nat}

lemma advPtrBy_eq {p : Nat} (positive : 0 < buffer.rmax) :
    buffer.advPtrBy p n = (p + n) % buffer.rmax := by
  have bound := mod_lt (p + n) positive
  rw [advPtrBy, pclamp, if_neg (not_lt_zero _), capacity, if_neg (lt_asymm bound)]

lemma Holds.bump (holds : buffer.Holds kind list) (n : Nat) :
    (buffer.bump kind n).Holds kind (list.drop n) := by
  have pos := zero_lt_of_lt holds.currBound
  have hnz : buffer.capacity ≠ 0 := ne_of_gt pos
  have hl := holds.length_eq
  rw [CircularBuffer.bump, advPopBy]
  split
  case isTrue isOne =>
    rw [isOne]
    exact holds.advPop
  case isFalse =>
    obtain ⟨count, hc, ham, same⟩ : ∃ count,
      (if buffer.length < n then buffer.length else n) = count ∧
        count ≤ list.length ∧ list.drop count = list.drop n := by
      rcases lt_or_ge buffer.length n with many | hnm
      · refine ⟨list.length, ?_, le_rfl, ?_⟩
        · rw [if_pos many, hl]
        · rw [drop_length, drop_eq_nil_of_le (by omega)]
      · exact ⟨n, if_neg (not_lt.mpr hnm), by omega, rfl⟩
    dsimp only
    rw [hc, ← same]
    split
    case isTrue => exact holds.advPops count
    case isFalse =>
      rw [advPtrBy_eq pos]
      exact holds.drop ham

lemma holds_create (positive : 0 < n) (extra : Nat) :
    (create kind n extra : CircularBuffer α).Holds kind [] := by
  rw [create, if_neg (ne_of_gt positive)]
  refine ⟨rfl, positive, positive, ?_, inRing_nil _ _ _, le_rfl, le_add_right _ _⟩
  exact (zero_mod _).symm

lemma Represents.createIfEmpty (represents : buffer.Represents kind list) (extra : Nat) :
    (buffer.createIfEmpty kind 4 extra).Holds kind list := by
  rw [CircularBuffer.createIfEmpty]
  rcases represents with ⟨rfl, rfl⟩ | holds
  · rw [if_neg (Bool.false_ne_true)]
    exact holds_create (by decide) extra
  rw [if_pos holds.isAllocated]
  exact holds

lemma resize_direct (good : kind.triviallyDestructible = false ∨ kind.size = 1)
    (isAllocated : buffer.allocated = true) (fits : buffer.rmax * kind.size ≤ buffer.held)
    (extra : Nat) : let resized := buffer.resize kind buffer.rmax (buffer.rmax * 2) extra
    resized.allocated = true ∧ buffer.rmax * 2 * kind.size ≤ resized.held ∧
      resized.held ≤ resized.room ∧
      ∀ i < buffer.rmax, resized.cells i = buffer.cells i := by
  have hne : ¬ buffer.allocated = false := by
    rw [isAllocated]
    exact Bool.true_eq_false.mp
  rw [resize, if_neg hne]
  split
  case isTrue =>
    refine ⟨isAllocated, le_rfl, le_add_right _ _, ?_⟩
    intro i bound
    have hin : i < if buffer.rmax * 2 < buffer.rmax then buffer.rmax * 2
        else buffer.rmax := by
      rw [if_neg (by omega)]
      exact bound
    exact if_pos hin
  case isFalse trivially =>
    have isOne := good.resolve_left trivially
    rw [isOne, mul_one] at fits
    rw [alignedReallocate, isOne, mul_one]
    split
    case isTrue he => exact ⟨isAllocated, le_rfl, he, fun _ _ => rfl⟩
    case isFalse =>
      refine ⟨isAllocated, le_rfl, le_add_right _ _, ?_⟩
      intro i bound
      have hin : (i + 1) * 1 ≤ min buffer.held (buffer.rmax * 2) := by omega
      exact if_pos hin

/-- The cells once the element is stored and the cursor is not moved yet. -/
structure Stored (kind : ElementType) (buffer : CircularBuffer α)
    (list : List α) : Prop where
  isAllocated : buffer.allocated = true
  currBound : buffer.curr < buffer.rmax
  backBound : buffer.back < buffer.rmax
  isBack : (buffer.back + 1) % buffer.rmax = (buffer.curr + list.length) % buffer.rmax
  positive : 0 < list.length
  few : list.length ≤ buffer.rmax
  inRing : InRing buffer.cells buffer.rmax buffer.curr list
  fits : buffer.rmax * kind.size ≤ buffer.held
  room : buffer.held ≤ buffer.room

lemma Holds.store (holds : buffer.Holds kind list) (value : α) :
    ∃ stored, buffer.store kind value = some stored ∧ stored.Stored kind (list ++ [value]) := by
  have pos := zero_lt_of_lt holds.currBound
  have hb := holds.isBack
  have hbb : buffer.back < buffer.rmax := by
    rw [hb]
    exact mod_lt _ pos
  have hin : (buffer.back + 1) * kind.size ≤ buffer.room :=
    calc (buffer.back + 1) * kind.size
        ≤ buffer.rmax * kind.size := mul_le_mul_right _ hbb
      _ ≤ buffer.held := holds.fits
      _ ≤ buffer.room := holds.room
  refine ⟨_, if_pos hin, holds.isAllocated, holds.currBound, hbb, ?_, ?_, ?_, ?_, holds.fits,
    holds.room⟩
  · dsimp only
    rw [hb, mod_add_mod, length_append, length_singleton, add_assoc]
  · exact length_pos_of_ne_nil (append_ne_nil_of_right_ne_nil _ (cons_ne_nil _ _))
  · rw [length_append, length_singleton]
    exact holds.few
  apply InRing.concat
  · apply holds.inRing.relocate
    intro i bound
    have hnb : (buffer.curr + i) % buffer.rmax ≠ buffer.back := by
      intro same
      rw [hb] at same
      have hl := ring_injective (lt_trans bound holds.few) holds.few same
      omega
    exact if_neg hnb
  · exact if_pos hb.symm

section

variable (good : kind.triviallyDestructible = false ∨ kind.size = 1)

include good in
lemma Stored.advPush (stored : buffer.Stored kind list) (extra : Nat) :
    (buffer.advPush kind extra).Holds kind list := by
  obtain ⟨ha, currBound, _, isBack, _, few, hir, fits, room⟩ := stored
  have cases := ring_cases currBound few
  rw [CircularBuffer.advPush]
  split
  case isTrue atEnd =>
    obtain ⟨isEnd, isBase⟩ := atEnd
    obtain ⟨hna, hh, hnr, hsc⟩ := resize_direct good ha fits extra
    rw [isEnd, mod_self] at isBack
    have hf : list.length = buffer.rmax := by omega
    refine ⟨hna, ?_, ?_, ?_, ?_, hh, hnr⟩
    · dsimp only [expandDirect, capacity]
      omega
    · dsimp only [expandDirect, capacity]
      omega
    · dsimp only [expandDirect, capacity]
      rw [hf, zero_add, mod_eq_of_lt (by omega)]
    apply hir.relocate
    intro i bound
    dsimp only [expandDirect, capacity]
    rw [isBase, zero_add, mod_eq_of_lt (by omega : i < buffer.rmax),
      mod_eq_of_lt (by omega : i < buffer.rmax * 2)]
    exact hsc i (by omega)
  case isFalse notDirect =>
    split
    case isTrue isCurr =>
      rw [isCurr, mod_eq_of_lt currBound] at isBack
      have hf : list.length = buffer.rmax := by omega
      refine ⟨rfl, ?_, ?_, ?_, ?_, le_refl _, le_add_right _ _⟩
      · dsimp only [expandSplice, capacity]
        omega
      · dsimp only [expandSplice, capacity]
        omega
      · dsimp only [expandSplice, capacity]
        rw [isCurr, hf, zero_add, mod_eq_of_lt (by omega)]
        omega
      apply hir.relocate
      intro i bound
      have hp := ring_cases currBound (by omega : i ≤ buffer.rmax)
      dsimp only [expandSplice, capacity]
      rw [zero_add, mod_eq_of_lt (by omega : i < buffer.rmax * 2)]
      rcases hp with ⟨below, isMod⟩ | ⟨hnb, isMod⟩
      · rw [if_pos (by omega), isMod]
      rw [if_neg (by omega), if_pos (by omega)]
      congr 1
      omega
    case isFalse notSplice =>
      have hnf : list.length ≠ buffer.rmax := by
        intro hf
        rw [hf, add_mod_right, mod_eq_of_lt currBound] at isBack
        rcases lt_or_ge (buffer.back + 1) buffer.rmax with below | hnb
        · rw [mod_eq_of_lt below] at isBack
          exact notSplice isBack
        have isEnd : buffer.back + 1 = buffer.rmax := by omega
        rw [isEnd, mod_self] at isBack
        exact notDirect ⟨isEnd, isBack.symm⟩
      exact ⟨ha, currBound, lt_of_le_of_ne few hnf, isBack, hir, fits, room⟩

include good in
lemma Represents.push (represents : buffer.Represents kind list) (value : α) (extra : Nat) :
    ∃ next, buffer.push kind value extra = some next ∧ next.Holds kind (list ++ [value]) := by
  obtain ⟨stored, hs, kept⟩ := (represents.createIfEmpty extra).store value
  refine ⟨stored.advPush kind extra, ?_, kept.advPush good extra⟩
  rw [CircularBuffer.push, hs]
  rfl

end

lemma Represents.pop (represents : buffer.Represents kind list) (notNil : list ≠ []) :
    ∃ next, buffer.pop = (list.head?, next) ∧ next.Represents kind list.tail := by
  rcases represents with ⟨_, isNil⟩ | holds
  · exact absurd isNil notNil
  refine ⟨buffer.advPop, ?_, .inr ?_⟩
  · cases list with
    | nil => exact absurd rfl notNil
    | cons _ _ =>
      have hc := holds.inRing.head
      rw [mod_eq_of_lt holds.currBound] at hc
      rw [pop, hc]
      rfl
  rw [← drop_one]
  exact holds.advPop

lemma Represents.bump (represents : buffer.Represents kind list) (n : Nat) :
    (buffer.bump kind n).Represents kind (list.drop n) := by
  rcases represents with ⟨rfl, rfl⟩ | holds
  · apply Or.inl
    refine ⟨?_, drop_nil⟩
    rw [bump, advPopBy]
    split
    case isTrue => rfl
    case isFalse => rfl
  · exact .inr (holds.bump n)

lemma Represents.refines (good : kind.triviallyDestructible = false ∨ kind.size = 1)
    (calls : List (QueueCall α)) :
    ∀ (buffer : CircularBuffer α) (list : List α),
      buffer.Represents kind list → Refines kind buffer list calls := by
  induction calls with
  | nil => exact fun _ _ hr => hr.observes
  | cons call calls ih =>
    intro buffer list hr
    refine ⟨hr.observes, fun ha => ?_⟩
    cases call with
    | push value extra =>
      obtain ⟨next, hpu, kept⟩ := hr.push good value extra
      refine ⟨next, ?_, ih next _ (.inr kept)⟩
      rw [call, hpu]
      rfl
    | pop =>
      obtain ⟨next, hp, kept⟩ := hr.pop (ha rfl)
      exact ⟨next, congrArg some hp, ih next _ kept⟩
    | bump n => exact ⟨_, rfl, ih _ _ (hr.bump n)⟩

/-- A queue that is filled from its start, in a block without further bytes. -/
structure Filling (kind : ElementType) (n k : Nat)
    (buffer : CircularBuffer α) : Prop where
  isAllocated : buffer.allocated = true
  room : buffer.room = n * kind.size
  curr : buffer.curr = 0
  back : buffer.back = k
  rmax : buffer.rmax = n

lemma createIfEmpty_allocated (isAllocated : buffer.allocated = true)
    (n extra : Nat) : buffer.createIfEmpty kind n extra = buffer :=
  if_pos isAllocated

lemma filling_create (positive : 0 < n) :
    Filling kind n 0 (create kind n 0 : CircularBuffer α) := by
  rw [create, if_neg (ne_of_gt positive)]
  exact ⟨rfl, rfl, rfl, rfl, rfl⟩

lemma construct_cases (kind : ElementType) (capacity : Option Nat) (extra : Nat) :
    (construct kind capacity extra : CircularBuffer α) = {} ∨
      ∃ n, 0 < n ∧ (construct kind capacity extra : CircularBuffer α) = create kind n extra := by
  cases capacity with
  | none => exact .inl rfl
  | some n =>
    rcases Nat.eq_zero_or_pos n with hz | pos
    · exact .inl (if_pos hz)
    · exact .inr ⟨n, pos, rfl⟩

variable {k : Nat}

lemma Filling.store (filling : Filling kind n k (buffer.createIfEmpty kind 4 0))
    (below : k < n) (value : α) :
    ∃ stored, Filling kind n k stored ∧
      buffer.push kind value 0 = some (stored.advPush kind 0) := by
  have hin : ((buffer.createIfEmpty kind 4 0).back + 1) * kind.size ≤
      (buffer.createIfEmpty kind 4 0).room := by
    rw [filling.back, filling.room]
    exact mul_le_mul_right _ below
  refine ⟨{ buffer.createIfEmpty kind 4 0 with
    cells := fun i =>
      if i = (buffer.createIfEmpty kind 4 0).back then some value
      else (buffer.createIfEmpty kind 4 0).cells i },
    { filling with }, ?_⟩
  rw [push, CircularBuffer.store, if_pos hin]
  rfl

lemma Filling.advPush (filling : Filling kind n k buffer)
    (below : k + 1 < n) : Filling kind n (k + 1) (buffer.advPush kind 0) := by
  obtain ⟨ha, room, curr, rfl, rfl⟩ := filling
  have hne : ¬ (buffer.back + 1 = buffer.rmax ∧ buffer.curr = 0) := fun atEnd =>
    Nat.ne_of_lt below atEnd.1
  have hnc : buffer.back + 1 ≠ buffer.curr := by
    rw [curr]
    exact succ_ne_zero _
  rw [CircularBuffer.advPush, if_neg hne, if_neg hnc]
  exact ⟨ha, room, curr, mod_eq_of_lt below, rfl⟩

lemma Filling.expandDirect (filling : Filling kind n k buffer)
    (trivially : kind.triviallyDestructible = true) (large : kind.size ≠ 1) (isEnd : k + 1 = n) :
    (buffer.advPush kind 0).allocated = true ∧ (buffer.advPush kind 0).room = n * kind.size ∧
      (buffer.advPush kind 0).back = n := by
  obtain ⟨ha, room, curr, rfl, rfl⟩ := filling
  have pos := kind.positive
  have he : buffer.capacity * 2 ≤ buffer.room := by
    rw [room]
    exact mul_le_mul_left _ (by omega)
  rw [CircularBuffer.advPush, if_pos ⟨isEnd, curr⟩, CircularBuffer.expandDirect, resize, ha,
    trivially,
    if_neg Bool.true_eq_false.mp, if_neg Bool.true_eq_false.mp, alignedReallocate, if_pos he]
  exact ⟨ha, room, rfl⟩

/-- The push that finds the buffer full loses elements. -/
lemma Filling.not_refines (trivially : kind.triviallyDestructible = true) (large : kind.size ≠ 1)
    (value : α) (missing : Nat) :
    ∀ (k : Nat) (buffer : CircularBuffer α) (list : List α), k + missing + 1 = n →
      Filling kind n k (buffer.createIfEmpty kind 4 0) → ¬ Refines kind buffer list
        (replicate (missing + 2) (.push value 0)) := by
  induction missing with
  | zero =>
    intro k buffer list hl hf hre
    obtain ⟨next, hpu, hr⟩ := hre.2 (fun isPop => nomatch isPop)
    obtain ⟨stored, kept, hpus⟩ := hf.store (by omega) value
    obtain ⟨hal, hro, isBack⟩ := kept.expandDirect trivially large hl
    rw [call, hpus] at hpu
    obtain rfl : stored.advPush kind 0 = next := by
      rw [Option.map_some, Option.some_inj, Prod.mk.injEq] at hpu
      exact hpu.2
    obtain ⟨_, hlp, _⟩ := hr.2 (fun isPop => nomatch isPop)
    have ho : ¬ ((stored.advPush kind 0).back + 1) * kind.size ≤ (stored.advPush kind 0).room := by
      rw [isBack, hro, add_mul]
      have pos := kind.positive
      omega
    rw [call, push, createIfEmpty_allocated hal, CircularBuffer.store, if_neg ho] at hlp
    cases hlp
  | succ missing ih =>
    intro k buffer list hl hf hre
    obtain ⟨next, hpu, hr⟩ := hre.2 (fun isPop => nomatch isPop)
    obtain ⟨stored, kept, hpus⟩ := hf.store (by omega) value
    have ha := kept.advPush (by omega)
    rw [call, hpus] at hpu
    obtain rfl : stored.advPush kind 0 = next := by
      rw [Option.map_some, Option.some_inj, Prod.mk.injEq] at hpu
      exact hpu.2
    apply ih (k + 1) (stored.advPush kind 0) _ (by omega) _ hr
    rw [createIfEmpty_allocated ha.isAllocated]
    exact ha

/-- A queue of a type behaves as a list in all runs if and only if the type is
not trivially destructible or has one byte. -/
theorem refines_iff [Inhabited α] (kind : ElementType) (capacity : Option Nat) :
    (∀ (extra : Nat) (calls : List (QueueCall α)),
        Refines kind (construct kind capacity extra) [] calls) ↔
      kind.triviallyDestructible = false ∨ kind.size = 1 := by
  constructor
  · intro hr
    by_contra notGood
    rw [not_or, Bool.not_eq_false] at notGood
    obtain ⟨n, pos, hf⟩ : ∃ n, 0 < n ∧ Filling kind n 0
        ((construct kind capacity 0 : CircularBuffer α).createIfEmpty kind 4 0) := by
      rcases construct_cases kind capacity 0 with isNew | ⟨n, pos, isNew⟩
      · rw [isNew]
        exact ⟨4, by decide, filling_create (by decide)⟩
      have hf : Filling kind n 0
          (create kind n 0 : CircularBuffer α) := filling_create pos
      rw [isNew, createIfEmpty_allocated hf.isAllocated]
      exact ⟨n, pos, hf⟩
    exact hf.not_refines notGood.1 notGood.2 default (n - 1) 0 _ [] (by omega) (hr 0 _)
  intro good extra calls
  apply Represents.refines good
  rcases construct_cases kind capacity extra with
    isNew | ⟨n, pos, isNew⟩
  · exact Or.inl ⟨isNew, rfl⟩
  rw [isNew]
  exact Or.inr (holds_create pos extra)

/-- A queue of commands of the keyboard (16 bytes each) cannot take five
elements. -/
theorem not_refines_command :
    ¬ Refines ⟨16, true, by decide⟩ (construct ⟨16, true, by decide⟩ none 0)
      [] (List.replicate 5 (QueueCall.push true 0)) :=
  Filling.not_refines rfl (by decide) true 3 0 _ [] rfl
    (filling_create (n := 4) (by decide))

end CircularBuffer

end OoOS.Util
