import Mathlib.Data.List.Perm.Subperm
import OoOS.Libk.HashTableRun

/-!
# Copies and moves of a hash table

A move takes the pointer to the buckets, and one of them still holds the address
of the root inside the table that was moved from.
-/

namespace OoOS.Libk

open List Function

open Lib Lib.BucketChain

universe u v

namespace HashStore

variable {K : Type u} {V : Type v}

section

variable (store : HashStore V)

def reset (table : Nat) : HashStore V :=
  ((store.setNext (.root table) none).setTable table
    { store.tables table with
      afterRootIdx := 0
      elementCount := 0
      bucketCount := 1
      myBuckets := .singularity table }).setBucket (.singularity table) 0 none

/-- `__init_buckets`; it does not set the number of buckets. -/
def initBuckets (table n : Nat) : HashStore V :=
  if n < 2 then
    (store.setTable table
      { store.tables table with myBuckets := .singularity table }).setBucket
        (.singularity table) 0 none
  else
    let (buckets, allocated) := store.allocateBuckets n
    allocated.setTable table { store.tables table with myBuckets := buckets }

def clear (table : Nat) : HashStore V :=
  let members := store.tables table
  let cleared := (store.setNext (.root table) none).setTable table
    { members with afterRootIdx := 0, elementCount := 0 }
  { cleared with
    buckets := update store.buckets members.myBuckets fun idx =>
      if idx < members.bucketCount then none
      else store.buckets members.myBuckets idx }

def moveBase (table that : Nat) : HashStore V :=
  let moved := (store.setNext (.root table)
    (store.next (.root that))).setTable table
      { store.tables table with
        elementCount := (store.tables that).elementCount
        bucketCount := (store.tables that).bucketCount
        afterRootIdx := (store.tables that).afterRootIdx
        myBuckets := (store.tables that).myBuckets }
  moved.reset that

def distance : (fuel : Nat) → Option Nat → Option Nat
  | _, none => some 0
  | 0, some _ => none
  | fuel + 1, some p => (distance fuel (store.next (.node p))).map (· + 1)

end

section

variable [DecidableEq K] (hash : K → Nat) (keyOf : V → K)

/-- The loop of `__insert` of a range: `left` elements are still to be
inserted. -/
def insertLoop (table : Nat) : (left : Nat) → Option Nat → HashStore V → Option (HashStore V)
  | 0, _, store => some store
  | _ + 1, none, _ => none
  | left + 1, some p, store =>
    let (n, created) := store.createNode (store.value p)
    match created.insertNode hash keyOf table n (left + 1) with
    | none => none
    | some (_, inserted) => insertLoop table left (inserted.next (.node p)) inserted

def insertRange (store : HashStore V) (table : Nat) (first : Option Nat) : Option (HashStore V) :=
  match store.distance store.nodeCt first with
  | none => none
  | some n => insertLoop hash keyOf table n first store

inductive Transfer where
  | copyConstruct
  | moveConstruct
  | copyAssign
  | moveAssign
  deriving DecidableEq, Repr

/-- The constructors and assignments of `__hashtable`; `none` if one does not
return. -/
def transfer (store : HashStore V) (table that : Nat) : Transfer → Option (HashStore V)
  | .copyConstruct =>
    let constructed := store.newTable table (store.tables that).elementCount
    constructed.insertRange hash keyOf table
      (constructed.next (.root that))
  | .moveConstruct =>
    let moved := ((store.setNext (.root table)
      (store.next (.root that))).setTable table
        { elementCount := (store.tables that).elementCount
          bucketCount := (store.tables that).bucketCount
          afterRootIdx := (store.tables that).afterRootIdx
          myBuckets := (store.tables that).myBuckets }).setBucket
            (.singularity table) 0 none
    some (moved.reset that)
  | .copyAssign =>
    let cleared := store.clear table
    cleared.insertRange hash keyOf table (cleared.next (.root that))
  | .moveAssign =>
    let moved := (store.clear table).moveBase table that
    some ((moved.reset that).initBuckets that 2)

end

variable {hash : K → Nat} {keyOf : V → K} {store : HashStore V} {table that total : Nat}
  {chain copied : List Nat}

variable {link : HashLink} {n added : Nat}

lemma wellFormed_nil (isEnd : store.next (.root table) = none)
    (count : (store.tables table).elementCount = 0) (pos : 0 < (store.tables table).bucketCount)
    (slots : ∀ idx < (store.tables table).bucketCount,
      store.buckets (store.tables table).myBuckets idx = none) (own : store.OwnBuckets table) :
    store.WellFormed hash keyOf table [] := by
  refine ⟨isEnd, nodup_nil, count, pos, contiguous_nil, slots, ?_, ?_, own⟩
  · intro _ _ isNil
    cases isNil
  intro n mem
  cases mem

lemma wellFormed_reset (store : HashStore V) (table : Nat) :
    (store.reset table).WellFormed hash keyOf table [] := by
  apply wellFormed_nil
  · simp [reset, setBucket, setTable, setNext]
  · simp [reset, setBucket, setTable]
  · simp [reset, setBucket, setTable]
  · intro idx below
    simp only [reset, setBucket, setTable, update_self] at below ⊢
    obtain rfl : idx = 0 := by omega
    rw [update_self]
  left
  simp [reset, setBucket, setTable]

lemma WellFormed.clear (wf : store.WellFormed hash keyOf table chain) :
    (store.clear table).WellFormed hash keyOf table [] := by
  apply wellFormed_nil
  · simp [HashStore.clear, setTable, setNext]
  · simp [HashStore.clear, setTable]
  · simp only [HashStore.clear, setTable, update_self]
    exact wf.positive
  · intro _ below
    simp only [HashStore.clear, setTable, update_self] at below ⊢
    rw [if_pos below]
  simp only [OwnBuckets, HashStore.clear, setTable, setNext, update_self]
  exact wf.own

structure Apart (store : HashStore V) (table that : Nat)
    (copied chain : List Nat) : Prop where
  different : table ≠ that
  nodes : copied.Disjoint chain
  buckets : (store.tables table).myBuckets ≠ (store.tables that).myBuckets

structure Copying (hash : K → Nat) (keyOf : V → K) (store : HashStore V)
    (table that : Nat) (copied chain : List Nat) : Prop where
  mine : store.WellFormed hash keyOf table copied
  theirs : store.WellFormed hash keyOf that chain
  apart : store.Apart table that copied chain
  maxLoad : 0 < (store.tables table).maxLoadNum ∧ 0 < (store.tables table).maxLoadDen

lemma WellFormed.myBuckets_ne (wf : store.WellFormed hash keyOf table chain) (size : Nat)
    : (store.tables table).myBuckets ≠ .array store.arrayCt size := by
  intro same
  rcases wf.own with hs | ⟨id, _, ha, hin, _⟩
  · rw [hs.1] at same
    cases same
  rw [ha] at same
  cases same
  exact Nat.lt_irrefl _ hin

lemma HashLink.root_ne_root (ne : table ≠ that) : HashLink.root that ≠ .root table := by
  intro same
  cases same
  exact ne rfl

lemma ne_root_of_mem (ne : table ≠ that)
    (mem : link ∈ HashLink.root that :: chain.map HashLink.node) : link ≠ .root table := by
  rintro rfl
  rcases mem_cons.mp mem with hr | hn
  · exact HashLink.root_ne_root ne hr.symm
  obtain ⟨n, _, same⟩ := mem_map.mp hn
  exact HashLink.node_ne_root n table same

lemma ne_node_of_mem (notIn : n ∉ chain)
    (mem : link ∈ HashLink.root that :: chain.map HashLink.node) : link ≠ .node n := by
  rintro rfl
  rcases mem_cons.mp mem with hr | hn
  · exact HashLink.node_ne_root n that hr
  obtain ⟨_, hic, same⟩ := mem_map.mp hn
  cases same
  exact notIn hic

lemma Copying.createNode (copying : store.Copying hash keyOf table that copied chain) (val : V) :
    (store.createNode val).2.Copying hash keyOf table that copied chain :=
  ⟨copying.mine.createNode val, copying.theirs.createNode val,
    { copying.apart with }, copying.maxLoad⟩

lemma Copying.runRehash (copying : store.Copying hash keyOf table that [] chain)
    (targetCount : Nat) :
    ∃ after, store.runRehash hash keyOf table targetCount = some after ∧
      after.Copying hash keyOf table that [] chain ∧
      after.value = store.value ∧ after.nodeCt = store.nodeCt ∧
      after.tables table = { store.tables table with
        afterRootIdx := 0
        bucketCount := max 2 targetCount
        myBuckets := .array store.arrayCt (max 2 targetCount) } := by
  obtain ⟨after, hr, kept, hsv, hsc⟩ := copying.mine.runRehash_nil targetCount
  have ha : store.runRehash hash keyOf table targetCount = some _ :=
    runRehash_none targetCount copying.mine.path
  rw [hr] at ha
  obtain rfl := Option.some.inj ha
  have ht : ∀ members, update store.tables table members that = store.tables that := fun members =>
    update_of_ne (Ne.symm copying.apart.different) _ _
  have hnn := copying.theirs.myBuckets_ne (max 2 targetCount)
  refine ⟨_, hr, ⟨kept, ?_, ⟨copying.apart.different,
    disjoint_nil_left _, ?_⟩, ?_⟩, hsv, hsc, update_self _ _ _⟩
  · refine copying.theirs.frame ?_ (fun _ _ => rfl) (ht _) ?_ (Nat.le_refl _) (Nat.le_succ _)
    · intro _ mem
      exact (update_of_ne (ne_root_of_mem copying.apart.different mem) _ _).symm
    · exact update_of_ne hnn _ _
  · simp only [update_self, ht]
    exact Ne.symm hnn
  simp only [update_self]
  exact copying.maxLoad

lemma WellFormed.prev_mem (wf : store.WellFormed hash keyOf table chain) {idx : Nat}
    (inside : idx < (store.tables table).bucketCount) {prev : HashLink}
    (isPrev : store.buckets (store.tables table).myBuckets idx = some prev) :
    prev ∈ HashLink.root table :: chain.map HashLink.node := by
  rw [wf.buckets idx inside, before_eq_some_iff] at isPrev
  obtain ⟨front, n, _, rfl, _, _, rfl⟩ := isPrev
  have mem := lastLink_mem HashLink.node front (HashLink.root table)
  rw [map_append, ← cons_append]
  exact mem_append_left _ mem

/-- The source keeps its chain. -/
lemma Copying.insertedAt_theirs
    (copying : store.Copying hash keyOf table that copied chain) (notIn : n ∉ chain) :
    (store.insertedAt table (store.bucketOf hash keyOf table n)
      n).WellFormed hash keyOf that chain := by
  have ne := copying.apart.different
  have ht : ∀ members, update store.tables table members that = store.tables that := fun members =>
    update_of_ne (Ne.symm ne) _ _
  have hin := copying.mine.bucketOf_lt n
  cases slot : store.buckets (store.tables table).myBuckets (store.bucketOf hash keyOf table n) with
  | none =>
    rw [insertedAt_none slot]
    refine copying.theirs.frame ?_ (fun _ _ => rfl) (ht _) ?_ (Nat.le_refl _) (Nat.le_refl _)
    · intro link mem
      dsimp only
      rw [update_of_ne (ne_root_of_mem ne mem), update_of_ne (ne_node_of_mem notIn mem)]
    · exact update_of_ne (Ne.symm copying.apart.buckets) _ _
  | some prev =>
    have hmi := copying.mine.prev_mem hin slot
    rw [insertedAt_some slot]
    refine copying.theirs.frame ?_ (fun _ _ => rfl) (ht _) rfl (Nat.le_refl _) (Nat.le_refl _)
    intro link mem
    have hnp : link ≠ prev := by
      rintro rfl
      rcases mem_cons.mp hmi with rfl | hn
      · exact ne_root_of_mem ne mem rfl
      obtain ⟨m, hic, rfl⟩ := mem_map.mp hn
      exact ne_node_of_mem (copying.apart.nodes hic) mem rfl
    dsimp only
    rw [update_of_ne hnp, update_of_ne (ne_node_of_mem notIn mem)]

lemma insertedAt_members (store : HashStore V) (table idx n : Nat) :
    (∀ other, other ≠ table → (store.insertedAt table idx n).tables other = store.tables other) ∧
    ((store.insertedAt table idx n).tables table).maxLoadNum = (store.tables table).maxLoadNum ∧
    ((store.insertedAt table idx n).tables table).maxLoadDen = (store.tables table).maxLoadDen := by
  cases slot : store.buckets (store.tables table).myBuckets idx with
  | none =>
    rw [insertedAt_none slot]
    refine ⟨fun other ho => update_of_ne ho _ _, ?_, ?_⟩
    · simp [update_self]
    · simp [update_self]
  | some _ =>
    rw [insertedAt_some slot]
    refine ⟨fun other ho => update_of_ne ho _ _, ?_, ?_⟩
    · simp [update_self]
    · simp [update_self]

lemma Copying.insertedAt (copying : store.Copying hash keyOf table that copied chain)
    (isNew : n ∉ copied) (notIn : n ∉ chain) (allocated : n < store.nodeCt)
    (newKey : ∀ other ∈ copied, keyOf (store.value other) ≠ keyOf (store.value n)) :
    ∃ longer, longer.Perm (n :: copied) ∧
      (store.insertedAt table (store.bucketOf hash keyOf table n) n).Copying
        hash keyOf table that longer chain := by
  obtain ⟨longer, perm, inserted⟩ := copying.mine.insertedAt isNew allocated newKey
  have hr := store.relinks_insertedAt table (store.bucketOf hash keyOf table n) n
  obtain ⟨ho, num, den⟩ := store.insertedAt_members table (store.bucketOf hash keyOf table n) n
  refine ⟨longer, perm, inserted, copying.insertedAt_theirs notIn,
    ⟨copying.apart.different, ?_, ?_⟩, ?_⟩
  · intro m hil hich
    rcases mem_cons.mp (perm.subset hil) with rfl | hic
    · exact notIn hich
    · exact copying.apart.nodes hic hich
  · rw [hr.myBuckets, ho that (Ne.symm copying.apart.different)]
    exact copying.apart.buckets
  rw [num, den]
  exact copying.maxLoad

def Fits (store : HashStore V) (table total : Nat) : Prop :=
  2 ≤ (store.tables table).bucketCount ∧ total * (store.tables table).maxLoadDen <
      (store.tables table).maxLoadNum * (store.tables table).bucketCount

lemma needRehash_eq_false_iff (isTotal : (store.tables table).elementCount + added = total) :
    store.needRehash table added = false ↔ store.Fits table total := by
  simp only [needRehash, Bool.or_eq_false_iff, decide_eq_false_iff_not, Nat.not_lt, Nat.not_le,
    isTotal, Fits]

lemma lt_nextBucketCt {num bucketCount : Nat} (numPos : 0 < num)
    (pos : 0 < bucketCount) (total den : Nat) :
    total * den < num * (max 5 bucketCount *
      (1 + (total * den + num * bucketCount - 1) / (num * bucketCount))) := by
  have hlp := Nat.mul_pos numPos pos
  generalize isLimit : num * bucketCount = limit at hlp ⊢
  generalize hl : total * den = load
  have hr := Nat.lt_div_mul_add (a := load + limit - 1) hlp
  have hal : limit * (1 + (load + limit - 1) / limit) ≤
      num * (max 5 bucketCount * (1 + (load + limit - 1) / limit)) := by
    rw [← Nat.mul_assoc, ← isLimit]
    exact Nat.mul_le_mul_right _ (Nat.mul_le_mul_left _ (Nat.le_max_right _ _))
  rw [Nat.mul_add, Nat.mul_one, Nat.mul_comm] at hal
  omega

lemma Copying.rehashed (copying : store.Copying hash keyOf table that copied chain)
    (isTotal : (store.tables table).elementCount + added = total)
    (ready : copied = [] ∨ store.Fits table total) :
    ∃ after, (if store.needRehash table added then
        store.runRehash hash keyOf table (store.nextBucketCt table added)
      else some store) = some after ∧ after.Copying hash keyOf table that copied chain ∧
      after.value = store.value ∧ after.nodeCt = store.nodeCt ∧ after.Fits table total := by
  by_cases hn : store.needRehash table added = true
  · have hnf : ¬ store.Fits table total := by
      rw [← needRehash_eq_false_iff isTotal, hn]
      exact Bool.true_eq_false.mp
    obtain rfl : copied = [] := ready.resolve_right hnf
    obtain ⟨after, ha, kept, values, hsc, members⟩ :=
      copying.runRehash (store.nextBucketCt table added)
    refine ⟨after, ?_, kept, values, hsc, ?_⟩
    · rw [if_pos hn, ha]
    have he := lt_nextBucketCt copying.maxLoad.1 copying.mine.positive total
      (store.tables table).maxLoadDen
    rw [Fits, members]
    dsimp only [nextBucketCt]
    rw [isTotal]
    refine ⟨Nat.le_max_left _ _, Nat.lt_of_lt_of_le he ?_⟩
    exact Nat.mul_le_mul_left _ (Nat.le_max_right _ _)
  refine ⟨store, if_neg hn, copying, rfl, rfl, ?_⟩
  rw [← needRehash_eq_false_iff isTotal]
  exact Bool.eq_false_iff.mpr hn

lemma Fits.insertedAt {idx : Nat} (fits : store.Fits table total) :
    (store.insertedAt table idx n).Fits table total := by
  obtain ⟨_, num, den⟩ := store.insertedAt_members table idx n
  rw [Fits, num, den, (store.relinks_insertedAt table idx n).bucketCount]
  exact fits

lemma WellFormed.length_le (wf : store.WellFormed hash keyOf table chain) :
    chain.length ≤ store.nodeCt := by
  have hir : chain ⊆ List.range store.nodeCt := fun n mem => mem_range.mpr (wf.allocated n mem)
  have hb := (subperm_of_subset wf.nodup hir).length_le
  rwa [length_range] at hb

variable [DecidableEq K]

lemma Copying.insertNode (copying : store.Copying hash keyOf table that copied chain)
    {val : V} (newKey : ∀ n ∈ copied, keyOf (store.value n) ≠ keyOf val)
    (isTotal : (store.tables table).elementCount + added = chain.length)
    (ready : copied = [] ∨ store.Fits table chain.length) :
    ∃ result after longer, (store.createNode val).2.insertNode hash keyOf table store.nodeCt
        added = some (result, after) ∧ after.Copying hash keyOf table that longer chain ∧
      (longer.map after.value).Perm (val :: copied.map store.value) ∧
      (∀ n ∈ chain, after.value n = store.value n) ∧ after.Fits table chain.length := by
  have hcr := copying.createNode val
  have isVal : (store.createNode val).2.value store.nodeCt = val := update_self _ _ _
  have older : ∀ n, n < store.nodeCt →
      (store.createNode val).2.value n = store.value n := fun n below =>
    update_of_ne (Nat.ne_of_lt below) _ _
  have ha : store.find hash keyOf table (keyOf val) = some none := by
    rw [copying.mine.find_eq, Option.some.injEq, find?_eq_none]
    intro n mem same
    exact newKey n mem (of_decide_eq_true same).symm
  have hrc : copied = [] ∨ (store.createNode val).2.Fits table chain.length := ready
  obtain ⟨rehashed, hre, kept, values, hsc, fits⟩ := hcr.rehashed isTotal hrc
  have isNew : store.nodeCt ∉ copied := fun mem => Nat.lt_irrefl _ (copying.mine.allocated _ mem)
  have notIn : store.nodeCt ∉ chain := fun mem => Nat.lt_irrefl _ (copying.theirs.allocated _ mem)
  have hdk : ∀ other ∈ copied, keyOf (rehashed.value other) ≠
      keyOf (rehashed.value store.nodeCt) := by
    intro other mem
    rw [values, isVal, older other (copying.mine.allocated other mem)]
    exact newKey other mem
  obtain ⟨longer, perm, inserted⟩ :=
    kept.insertedAt isNew notIn (by rw [hsc]; exact Nat.lt_succ_self _) hdk
  have hr := rehashed.relinks_insertedAt table
    (rehashed.bucketOf hash keyOf table store.nodeCt) store.nodeCt
  refine ⟨(store.nodeCt, true), _, longer, ?_, inserted, ?_, ?_, fits.insertedAt⟩
  · rw [HashStore.insertNode, isVal, copying.mine.find_createNode, ha]
    simp only [insertHashed, hre, kept.mine.range_eq]
    rw [HashStore.insertedAt, bucketOf, hashCode, hashCode, values]
  · rw [hr.value, values]
    refine (perm.map _).trans ?_
    rw [map_cons, isVal, createNode_values copying.mine]
  intro n mem
  rw [hr.value, values, older n (copying.theirs.allocated n mem)]

/-- The loop copies the rest of the chain. -/
lemma Copying.insertLoop (rest : List Nat) :
    ∀ (front : List Nat) (store : HashStore V) (copied : List Nat), chain = front ++ rest →
      store.Copying hash keyOf table that copied chain →
      (copied.map store.value).Perm (front.map store.value) →
      (copied = [] ∨ store.Fits table chain.length) → ∃ after final,
        HashStore.insertLoop hash keyOf table rest.length rest.head? store = some after ∧
        after.WellFormed hash keyOf table final ∧
        (final.map after.value).Perm (chain.map store.value) := by
  induction rest with
  | nil =>
    intro front store copied hch hc perm _
    rw [append_nil] at hch
    subst hch
    exact ⟨store, copied, rfl, hc.mine, perm⟩
  | cons p rest ih =>
    intro front store copied hch hc perm ready
    have total : (store.tables table).elementCount + (rest.length + 1) = chain.length := by
      have hsl := perm.length_eq
      rw [length_map, length_map] at hsl
      rw [hc.mine.count, hsl, hch, length_append, length_cons]
    have hnk : ∀ n ∈ copied, keyOf (store.value n) ≠ keyOf (store.value p) := by
      intro n mem same
      have hif := perm.subset (mem_map_of_mem mem)
      obtain ⟨m, hf, hsv⟩ := mem_map.mp hif
      have keys := hc.theirs.keys
      rw [hch, map_append, map_cons] at keys
      have apart := disjoint_of_nodup_append keys
      apply apart (mem_map_of_mem hf)
      rw [hsv, same]
      exact mem_cons_self
    obtain ⟨_, after, longer, hin, kept, hlp, values, fits⟩ := hc.insertNode hnk total ready
    have path := kept.theirs.path
    rw [hch, linked_append] at path
    have hn := next_of_linked path.2.2
    have hf : chain = (front ++ [p]) ++ rest := by
      rw [hch, append_assoc]
      rfl
    have hsf : ∀ n ∈ front ++ [p], after.value n = store.value n := fun n mem =>
      values n (by rw [hf]; exact mem_append_left _ mem)
    have hnp : (longer.map after.value).Perm ((front ++ [p]).map after.value) := by
      rw [map_congr_left hsf, map_append]
      refine hlp.trans ((perm.cons _).trans ?_)
      exact (perm_append_singleton _ _).symm
    obtain ⟨last, final, done, wf, hfp⟩ := ih (front ++ [p]) after longer hf kept hnp (.inr fits)
    refine ⟨last, final, ?_, wf, ?_⟩
    · have hno : (store.createNode (store.value p)).1 = store.nodeCt := rfl
      simp only [length_cons, head?_cons, HashStore.insertLoop, hno, hin, hn]
      exact done
    rw [← map_congr_left values]
    exact hfp

lemma distance_eq (rest : List Nat) : ∀ (fuel : Nat) (link : HashLink),
    Linked HashLink.node store.next link rest → rest.length ≤ fuel →
    store.distance fuel (store.next link) = some rest.length := by
  induction rest with
  | nil =>
    intro fuel link path _
    have isEnd : store.next link = none := path
    rw [isEnd, distance]
    rfl
  | cons _ rest ih =>
    intro fuel link path he
    obtain ⟨fuel, rfl⟩ : ∃ less, fuel = less + 1 :=
      ⟨fuel - 1, by simp only [length_cons] at he; omega⟩
    rw [path.1, distance, ih fuel _ path.2 (Nat.le_of_succ_le_succ he)]
    rfl

lemma Copying.insertRange (copying : store.Copying hash keyOf table that [] chain) :
    ∃ after final, store.insertRange hash keyOf table (store.next (.root that)) = some after ∧
      after.WellFormed hash keyOf table final ∧
      (final.map after.value).Perm (chain.map store.value) := by
  obtain ⟨after, final, done, wf, perm⟩ :=
    Copying.insertLoop chain [] store [] rfl copying (List.Perm.refl _) (.inl rfl)
  refine ⟨after, final, ?_, wf, perm⟩
  rw [HashStore.insertRange, distance_eq chain _ _ copying.theirs.path
    copying.theirs.length_le, next_of_linked copying.theirs.path]
  exact done

end HashStore

end OoOS.Libk
