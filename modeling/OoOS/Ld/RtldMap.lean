import Mathlib.Data.List.TakeWhile
import Mathlib.Tactic.Ring
import OoOS.Lib.BucketChain

/-!
# The set of loaded objects of the dynamic linker

The nodes of `rtld_map` hang on one chain.  A node is put into the bucket of its
handle; `dlmap` then has the kernel write another handle into the node, and
lookups go by that.
-/

namespace OoOS.Ld

open List Function

open Lib.BucketChain

def elf64GnuHash (bytes : List Nat) : Nat :=
  (bytes.takeWhile (· ≠ 0)).foldl
    (fun hash byte => (hash + byte + hash * 2 ^ 5) % 2 ^ 32) 5381

def handleBytes (handle : Nat) : List Nat := (List.range 8).map fun i => handle / 256 ^ i % 256

def bucketCount : Nat := 256

def bucketIndex (handle : Nat) : Nat := elf64GnuHash (handleBytes handle) % bucketCount

inductive Link where
  | root
  | node (number : Nat)
  deriving DecidableEq

structure RtldMap where
  elementCount : Nat
  handle : Nat → Nat
  next : Link → Option Nat
  buckets : Nat → Option Link
  afterRootIdx : Nat

namespace RtldMap

def initial : RtldMap where
  elementCount := 0
  handle := fun _ => 0
  next := fun _ => none
  buckets := fun _ => none
  afterRootIdx := 0

variable (map : RtldMap)

/-- The loop of `find_before`; no chain is longer than there are nodes. -/
def findFrom (map : RtldMap) (handle : Nat) : Nat → Link → Option Link
  | 0, _ => none
  | steps + 1, prev =>
    match map.next prev with
    | none => none
    | some number =>
      if bucketIndex (map.handle number) = bucketIndex handle then
        if handle = map.handle number then some prev
        else findFrom map handle steps (.node number)
      else none

def findBefore (handle : Nat) : Option Link :=
  (map.buckets (bucketIndex handle)).bind
    (map.findFrom handle (map.elementCount + 1))

def insertAt (index number : Nat) : RtldMap :=
  match map.buckets index with
  | some prev =>
    { map with
      next := update
        (update map.next (.node number) (map.next prev)) prev
        (some number) }
  | none =>
    { map with
      next := update
        (update map.next (.node number) (map.next .root)) .root
        (some number)
      buckets := update
        (if (map.next .root).isSome then
          update map.buckets map.afterRootIdx
            (some (.node number))
        else map.buckets) index (some .root)
      afterRootIdx := index }

def addNode (handle : Nat) : RtldMap :=
  { insertAt
      { map with
        handle := update map.handle map.elementCount handle }
      (bucketIndex handle) map.elementCount with
    elementCount := map.elementCount + 1 }

/-- `add`: the number of the new node, unless the handle is found. -/
def add (handle : Nat) : Option Nat × RtldMap :=
  if (map.findBefore handle).isSome then (none, map)
  else (some map.elementCount, map.addNode handle)

/-- `dlmap`: the kernel fills the node from the object it is given, if that is a
shared object and not the program. -/
def dlmap (object : Option Nat) (number : Nat) : RtldMap :=
  match object with
  | none => map
  | some handle => { map with handle := update map.handle number handle }

end RtldMap

structure Entry where
  bucket : Nat
  handle : Nat
  deriving DecidableEq

/-- A new node comes first in its bucket, and a new bucket first of all. -/
def insertEntry (entry : Entry) (entries : List Entry) : List Entry :=
  if entries.any fun other => other.bucket = entry.bucket then
    entries.takeWhile (fun other => other.bucket ≠ entry.bucket) ++
      entry :: entries.dropWhile fun other => other.bucket ≠ entry.bucket
  else entry :: entries

/-- What a lookup reads: from the first node of the bucket, as long as the
handles that are written there belong to the bucket. -/
def finds (entries : List Entry) (handle : Nat) : Bool :=
  ((entries.dropWhile fun entry => entry.bucket ≠ bucketIndex handle).takeWhile
    fun entry => bucketIndex entry.handle = bucketIndex handle).any
      fun entry => entry.handle = handle

namespace RtldMap

structure Chained (map : RtldMap) (chain : List Nat) (made : Nat → Nat) : Prop where
  linked : Linked Link.node map.next .root chain
  nodup : chain.Nodup
  bound : ∀ number ∈ chain, number < map.elementCount
  length : chain.length = map.elementCount
  buckets : ∀ index, map.buckets index =
    before Link.node (fun number => decide (made number = index)) .root chain
  afterRoot : ∀ first rest, chain = first :: rest → map.afterRootIdx = made first

def entries (map : RtldMap) (made : Nat → Nat) (chain : List Nat) : List Entry :=
  chain.map fun number => ⟨made number, map.handle number⟩

lemma chained_initial (made : Nat → Nat) : Chained initial [] made := by
  constructor
  · rfl
  · exact nodup_nil
  · intro _ hn
    cases hn
  · rfl
  · intro _
    rfl
  intro _ _ split
  cases split

lemma findFrom_isSome (map : RtldMap) (handle : Nat) (numbers : List Nat) :
    ∀ (steps : Nat) (prev : Link), numbers.length < steps → Linked Link.node map.next prev numbers →
      (map.findFrom handle steps prev).isSome = (numbers.takeWhile fun number =>
          decide (bucketIndex (map.handle number) = bucketIndex handle)).any
          fun number => decide (map.handle number = handle) := by
  induction numbers with
  | nil =>
    intro steps prev he linked
    cases steps with
    | zero => rfl
    | succ steps =>
      have isEnd : map.next prev = none := linked
      unfold findFrom
      rw [isEnd]
      rfl
  | cons number _ ih =>
    intro steps prev he linked
    cases steps with
    | zero => cases he
    | succ steps =>
      unfold findFrom
      rw [linked.1]
      dsimp only
      by_cases hsb : bucketIndex (map.handle number) = bucketIndex handle
      · rw [if_pos hsb, takeWhile_cons_of_pos (by simpa using hsb), any_cons]
        by_cases hh : handle = map.handle number
        · rw [if_pos hh]
          simp [hh]
        rw [if_neg hh, ih steps (.node number) (Nat.lt_of_succ_lt_succ he) linked.2,
          decide_eq_false (Ne.symm hh), Bool.false_or]
      rw [if_neg hsb, takeWhile_cons_of_neg (by simpa using hsb)]
      rfl

variable {chain : List Nat} {made : Nat → Nat}
variable {map : RtldMap}

section

variable (chained : Chained map chain made)

include chained

lemma Chained.findBefore_isSome (handle : Nat)
    : (map.findBefore handle).isSome = finds (map.entries made chain) handle := by
  unfold findBefore finds entries
  rw [chained.buckets, dropWhile_map, takeWhile_map, any_map]
  cases hb : before Link.node (fun number => decide (made number = bucketIndex handle)) .root
      chain with
  | none =>
    have ho := (before_eq_none_iff chain _).mp hb
    have hd : chain.dropWhile ((fun entry : Entry => decide (entry.bucket ≠ bucketIndex handle)) ∘
          fun number => ⟨made number, map.handle number⟩) = [] := by
      rw [dropWhile_eq_nil_iff]
      intro number hn
      simpa using ho number hn
    rw [hd]
    rfl
  | some prev =>
    obtain ⟨front, first, rest, rfl, hf, hnf, hp⟩ := (before_eq_some_iff chain _).mp hb
    obtain ⟨_, linked⟩ := (linked_append front (first :: rest) _).mp chained.linked
    rw [hp] at linked
    have hd : (front ++ first :: rest).dropWhile
        ((fun entry : Entry => decide (entry.bucket ≠ bucketIndex handle)) ∘
          fun number => ⟨made number, map.handle number⟩) = first :: rest := by
      rw [dropWhile_append_of_pos, dropWhile_cons_of_neg]
      · simpa using hf
      intro number hn
      simpa using hnf number hn
    rw [hd]
    have he : (first :: rest).length < map.elementCount + 1 := by
      rw [← chained.length, length_append]
      omega
    exact findFrom_isSome map handle (first :: rest) _ prev he linked

lemma Chained.distinct : (Link.root :: chain.map Link.node).Nodup := by
  rw [nodup_cons]
  constructor
  · intro hn
    obtain ⟨_, _, hr⟩ := mem_map.mp hn
    cases hr
  · exact chained.nodup.map fun _ _ same => Link.node.inj same

lemma Chained.fresh :
    map.elementCount ∉ chain ∧ Link.node map.elementCount ∉ Link.root :: chain.map Link.node := by
  have notIn : map.elementCount ∉ chain := fun isOld => absurd (chained.bound _ isOld) (lt_irrefl _)
  refine ⟨notIn, ?_⟩
  intro hl
  rcases mem_cons.mp hl with hr | hn
  · cases hr
  obtain ⟨_, isOld, same⟩ := mem_map.mp hn
  cases same
  exact notIn isOld

end

def remade (map : RtldMap) (made : Nat → Nat) (handle : Nat) : Nat → Nat :=
  update made map.elementCount (bucketIndex handle)

lemma remade_old {number : Nat} (handle : Nat) (new : map.elementCount ∉ chain)
    (mem : number ∈ chain) : map.remade made handle number = made number := by
  have other : number ≠ map.elementCount := by
    rintro rfl
    exact new mem
  exact update_of_ne other _ _

lemma Chained.before_remade (chained : Chained map chain made) (handle index : Nat) (link : Link) :
    before Link.node (fun number => decide (map.remade made handle number = index)) link chain =
      before Link.node (fun number => decide (made number = index)) link chain := by
  apply before_congr
  intro _ ho
  rw [remade_old handle chained.fresh.1 ho]

/-- A node in a bucket in use goes in front of its first. -/
lemma Chained.addNode_existing {front rest : List Nat} {first handle : Nat}
    (chained : Chained map (front ++ first :: rest) made)
    (isFirst : made first = bucketIndex handle)
    (notFront : ∀ number ∈ front, made number ≠ bucketIndex handle) :
    Chained (map.addNode handle) (front ++ map.elementCount :: first :: rest)
      (map.remade made handle) := by
  have fresh := chained.fresh
  have hb : map.buckets (bucketIndex handle) = some (lastLink Link.node .root front) := by
    rw [chained.buckets, before_eq_some_iff]
    exact ⟨front, first, rest, rfl, decide_eq_true isFirst,
      fun number hn => decide_eq_false (notFront number hn), rfl⟩
  have isAdd : map.addNode handle =
      { elementCount := map.elementCount + 1
        handle := update map.handle map.elementCount handle
        next := update
          (update map.next (.node map.elementCount) (map.next (lastLink Link.node .root front)))
          (lastLink Link.node .root front) (some map.elementCount)
        buckets := map.buckets
        afterRootIdx := map.afterRootIdx } := by
    simp [addNode, insertAt, hb]
  have ofNew : map.remade made handle map.elementCount = bucketIndex handle := update_self _ _ _
  have hof : map.remade made handle first = bucketIndex handle := by
    rw [remade_old handle fresh.1 (mem_append_right _ mem_cons_self), isFirst]
  rw [isAdd]
  constructor
  · exact linked_insert front (first :: rest) chained.linked chained.distinct fresh.2
  · have nodup := chained.nodup
    rw [nodup_middle, nodup_cons]
    exact ⟨fresh.1, nodup⟩
  · intro number hn
    rcases mem_append.mp hn with hif | hbe
    · exact Nat.lt_succ_of_lt (chained.bound number (mem_append_left _ hif))
    rcases mem_cons.mp hbe with rfl | isOld
    · exact Nat.lt_succ_self _
    · exact Nat.lt_succ_of_lt (chained.bound number (mem_append_right _ isOld))
  · have length := chained.length
    simp only [length_append, length_cons] at length ⊢
    omega
  · intro index
    rw [before_insert front rest (by rw [ofNew, hof]), chained.before_remade handle]
    exact chained.buckets index
  intro _ _ split
  cases front with
  | nil =>
    cases split
    rw [ofNew, ← isFirst]
    exact chained.afterRoot first rest rfl
  | cons other front =>
    rw [← (cons.inj split).1, remade_old handle fresh.1 mem_cons_self]
    exact chained.afterRoot other _ rfl

/-- A node in a new bucket goes to the front. -/
lemma Chained.addNode_first {handle : Nat} (chained : Chained map chain made)
    (notIn : ∀ number ∈ chain, made number ≠ bucketIndex handle) :
    Chained (map.addNode handle) (map.elementCount :: chain) (map.remade made handle) := by
  have fresh := chained.fresh
  have hnb : map.buckets (bucketIndex handle) = none := by
    rw [chained.buckets, before_eq_none_iff]
    exact fun number hn => decide_eq_false (notIn number hn)
  have ofNew : map.remade made handle map.elementCount = bucketIndex handle := update_self _ _ _
  have isAdd : map.addNode handle =
      { elementCount := map.elementCount + 1
        handle := update map.handle map.elementCount handle
        next := update
          (update map.next (.node map.elementCount) (map.next .root)) .root (some map.elementCount)
        buckets := update
          (if (map.next .root).isSome then
            update map.buckets map.afterRootIdx
              (some (.node map.elementCount))
          else map.buckets) (bucketIndex handle) (some .root)
        afterRootIdx := bucketIndex handle } := by
    simp [addNode, insertAt, hnb]
  rw [isAdd]
  constructor
  · exact linked_insert [] chain chained.linked chained.distinct fresh.2
  · exact nodup_cons.mpr ⟨fresh.1, chained.nodup⟩
  · intro number hn
    rcases mem_cons.mp hn with rfl | isOld
    · exact Nat.lt_succ_self _
    · exact Nat.lt_succ_of_lt (chained.bound number isOld)
  · rw [length_cons, chained.length]
  · intro index
    rw [← ofNew]
    refine before_push (next_of_linked chained.linked) (fun first rest hs => ?_) ?_
    · rw [remade_old handle fresh.1 (hs ▸ mem_cons_self)]
      exact chained.afterRoot first rest hs
    · rw [chained.before_remade]
      exact chained.buckets index
  intro _ _ split
  cases split
  exact ofNew.symm

lemma Chained.dlmap (chained : Chained map chain made) (object : Option Nat)
    (number : Nat) : Chained (map.dlmap object number) chain made := by
  cases object with
  | none => exact chained
  | some _ => exact { chained with }

lemma handle_dlmap_addNode (map : RtldMap) (object : Option Nat) (handle number : Nat) :
    ((map.addNode handle).dlmap object map.elementCount).handle number =
      if number = map.elementCount then object.getD handle else map.handle number := by
  have added : (map.addNode handle).handle = update map.handle map.elementCount handle := by
    unfold addNode insertAt
    split <;> rfl
  cases object with
  | none =>
    change (map.addNode handle).handle number = _
    rw [added, update_apply]
    rfl
  | some parent =>
    change update (map.addNode handle).handle map.elementCount parent number = _
    rw [added, update_apply]
    by_cases isNew : number = map.elementCount
    · rw [if_pos isNew, if_pos isNew]
      rfl
    · rw [if_neg isNew, if_neg isNew, update_of_ne isNew]

lemma entries_old (object : Option Nat)
    (handle : Nat) {numbers : List Nat} (old : map.elementCount ∉ numbers) :
    ((map.addNode handle).dlmap object map.elementCount).entries (map.remade made handle) numbers =
      map.entries made numbers := by
  apply map_congr_left
  intro number hn
  have other : number ≠ map.elementCount := by
    rintro rfl
    exact old hn
  rw [handle_dlmap_addNode, if_neg other, remade_old handle old hn]

lemma entries_append (first rest : List Nat) :
    map.entries made (first ++ rest) = map.entries made first ++ map.entries made rest :=
  map_append

lemma Chained.open_ (chained : Chained map chain made) (object : Option Nat) (handle : Nat) :
    ∃ after, Chained ((map.addNode handle).dlmap object map.elementCount)
        after (map.remade made handle) ∧
      ((map.addNode handle).dlmap object map.elementCount).entries (map.remade made handle) after =
        insertEntry ⟨bucketIndex handle, object.getD handle⟩ (map.entries made chain) := by
  have hen (numbers : List Nat) : ((map.addNode handle).dlmap object map.elementCount).entries
          (map.remade made handle) (map.elementCount :: numbers) =
        ⟨bucketIndex handle, object.getD handle⟩ ::
          ((map.addNode handle).dlmap object map.elementCount).entries
            (map.remade made handle) numbers := by
    unfold entries
    rw [map_cons, handle_dlmap_addNode, if_pos rfl]
    unfold remade
    rw [update_self]
  cases hb : before Link.node (fun number => decide (made number = bucketIndex handle)) .root
      chain with
  | none =>
    have ho : ∀ number ∈ chain, made number ≠ bucketIndex handle := fun number hn =>
        of_decide_eq_false ((before_eq_none_iff chain _).mp hb number hn)
    refine ⟨map.elementCount :: chain, (chained.addNode_first ho).dlmap _ _, ?_⟩
    rw [hen, entries_old object handle chained.fresh.1]
    unfold insertEntry
    rw [if_neg]
    intro ht
    obtain ⟨entry, he, hsb⟩ := any_eq_true.mp ht
    obtain ⟨number, hn, rfl⟩ := mem_map.mp he
    exact ho number hn (of_decide_eq_true hsb)
  | some _ =>
    obtain ⟨front, first, rest, rfl, hf, hnf, _⟩ := (before_eq_some_iff chain _).mp hb
    have hfb := of_decide_eq_true hf
    have hh : ∀ number ∈ front, made number ≠ bucketIndex handle := fun number hn =>
      of_decide_eq_false (hnf number hn)
    have fresh := chained.fresh.1
    refine ⟨front ++ map.elementCount :: first :: rest, (chained.addNode_existing hfb hh).dlmap _ _,
      ?_⟩
    have hfp : ∀ entry ∈ map.entries made front,
        decide (entry.bucket ≠ bucketIndex handle) = true := by
      intro entry he
      obtain ⟨number, hn, rfl⟩ := mem_map.mp he
      exact decide_eq_true (hh number hn)
    have takes : (map.entries made (first :: rest)).takeWhile
        (fun entry => decide (entry.bucket ≠ bucketIndex handle)) = [] :=
      takeWhile_cons_of_neg (by simpa using hfb)
    have drops : (map.entries made (first :: rest)).dropWhile
        (fun entry => decide (entry.bucket ≠ bucketIndex handle)) =
          map.entries made (first :: rest) := dropWhile_cons_of_neg (by simpa using hfb)
    have ht : (map.entries made (front ++ first :: rest)).any
        (fun other => other.bucket = bucketIndex handle) = true := by
      rw [any_eq_true]
      refine ⟨⟨made first, map.handle first⟩, ?_, decide_eq_true hfb⟩
      exact mem_map.mpr ⟨first, mem_append_right _ mem_cons_self, rfl⟩
    unfold insertEntry
    rw [if_pos ht, entries_append, entries_append, takeWhile_append_of_pos hfp,
      dropWhile_append_of_pos hfp, takes, drops, append_nil]
    rw [hen, entries_old object handle (fun isOld => fresh (mem_append_left _ isOld)),
      entries_old object handle (fun isOld => fresh (mem_append_right _ isOld))]

end RtldMap

end OoOS.Ld
