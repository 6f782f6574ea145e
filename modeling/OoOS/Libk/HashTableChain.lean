import OoOS.Lib.BucketChain
import OoOS.Libk.HashTable

/-!
# Well-formed hash tables

The chain of a well-formed table has every element once, those of a bucket next
to each other, and each bucket slot leads to the first of them.
-/

namespace OoOS.Libk

open List Option Function HashLink

open Lib Lib.BucketChain

universe u v

lemma HashLink.node_ne_root (n table : Nat) : node n ≠ .root table := by
  intro same
  cases same

namespace HashStore

variable {K : Type u} {V : Type v} (hash : K → Nat) (keyOf : V → K)

def bucketOf (store : HashStore V) (table n : Nat) : Nat :=
  store.hashCode hash keyOf n % (store.tables table).bucketCount

/-- The slots are the table's own: the one in it, or those of an allocated
array that is long enough. -/
def OwnBuckets (store : HashStore V) (table : Nat) : Prop :=
  (store.tables table).myBuckets = .singularity table ∧ (store.tables table).bucketCount = 1 ∨
    ∃ id size, (store.tables table).myBuckets = .array id size ∧
      id < store.arrayCt ∧ (store.tables table).bucketCount ≤ size

structure WellFormed (store : HashStore V) (table : Nat)
    (chain : List Nat) : Prop where
  path : Linked HashLink.node store.next (.root table) chain
  keys : (chain.map fun n => keyOf (store.value n)).Nodup
  count : (store.tables table).elementCount = chain.length
  positive : 0 < (store.tables table).bucketCount
  contiguous : Contiguous (chain.map (store.bucketOf hash keyOf table))
  buckets : ∀ idx < (store.tables table).bucketCount,
    store.buckets (store.tables table).myBuckets idx = before HashLink.node
        (fun n => decide (store.bucketOf hash keyOf table n = idx))
        (.root table) chain
  afterRoot : ∀ first rest, chain = first :: rest → (store.tables table).afterRootIdx =
      store.bucketOf hash keyOf table first
  allocated : ∀ n ∈ chain, n < store.nodeCt
  own : store.OwnBuckets table

variable {hash keyOf} {store : HashStore V} {table : Nat} {chain : List Nat}

section

section

variable (wf : store.WellFormed hash keyOf table chain)

include wf

lemma WellFormed.nodup : chain.Nodup :=
  List.Nodup.of_map _ wf.keys

lemma WellFormed.links :
    (root table :: chain.map node).Nodup := by
  rw [nodup_cons]
  refine ⟨?_, wf.nodup.map fun _ _ same => ?_⟩
  · intro mem
    obtain ⟨n, _, hr⟩ := mem_map.mp mem
    cases hr
  cases same
  rfl

lemma WellFormed.range_eq (code : Nat) :
    store.range table code = some (code % (store.tables table).bucketCount) :=
  if_neg (Nat.ne_of_gt wf.positive)

lemma WellFormed.bucketOf_lt (n : Nat) :
    store.bucketOf hash keyOf table n < (store.tables table).bucketCount :=
  Nat.mod_lt _ wf.positive

end

variable {hit : Nat → Bool}

lemma scanBucket_eq {bucketCount idx : Nat} (rest : List Nat) :
    ∀ (link : HashLink) (fuel : Nat), Linked node store.next link rest → rest.length < fuel →
      store.scanBucket hash keyOf bucketCount idx hit fuel (some link) =
        some (before node hit link (rest.takeWhile fun n =>
          decide (store.hashCode hash keyOf n % bucketCount = idx))) := by
  induction rest with
  | nil =>
    intro link fuel path he
    obtain ⟨fuel, rfl⟩ : ∃ less, fuel = less + 1 := ⟨fuel - 1, by omega⟩
    have isEnd : store.next link = none := path
    simp only [scanBucket, advanceChain, isEnd]
    rfl
  | cons first rest ih =>
    intro link fuel path he
    obtain ⟨fuel, rfl⟩ : ∃ less, fuel = less + 1 := ⟨fuel - 1, by omega⟩
    rw [length_cons] at he
    simp only [scanBucket, advanceChain, path.1]
    by_cases hib : store.hashCode hash keyOf first % bucketCount = idx
    · rw [if_neg (by simp [hib]), takeWhile_cons_of_pos (by simpa using hib), before]
      cases isHit : hit first with
      | true => rfl
      | false =>
        exact ih _ fuel path.2 (by omega)
    rw [if_pos (Ne.symm hib), takeWhile_cons_of_neg (by simpa using hib)]
    rfl

lemma WellFormed.scan_eq (wf : store.WellFormed hash keyOf table chain) {code : Nat}
    (sameBucket : ∀ n ∈ chain, hit n = true → store.bucketOf hash keyOf table n =
        code % (store.tables table).bucketCount) :
    store.scan hash keyOf table code hit = some (before node hit (.root table) chain) := by
  have hin : code % (store.tables table).bucketCount <
      (store.tables table).bucketCount := Nat.mod_lt _ wf.positive
  rw [scan, wf.range_eq]
  simp only [wf.buckets _ hin]
  generalize isIdx : code % (store.tables table).bucketCount = idx at *
  cases hb : before node (fun n => decide (store.bucketOf hash keyOf table n = idx))
      (.root table) chain with
  | none =>
    -- The bucket is empty, and nothing can be hit.
    have noHit : before node hit (.root table) chain = none := by
      rw [before_eq_none_iff] at hb ⊢
      intro n mem
      have other := of_decide_eq_false (hb n mem)
      cases isHit : hit n with
      | false => rfl
      | true => exact absurd (sameBucket n mem isHit) other
    rw [noHit, scanBucket]
    rfl
  | some prev =>
    obtain ⟨_, rest, hc, hp, isRun⟩ := before_bucket wf.contiguous sameBucket hb
    have tail := wf.path
    rw [hc, linked_append, hp] at tail
    have he : rest.length < (store.tables table).elementCount + 1 := by
      rw [wf.count, hc, length_append]
      omega
    rw [scanBucket_eq rest prev _ tail.2 he]
    exact congrArg some isRun

lemma WellFormed.getBefore_eq (wf : store.WellFormed hash keyOf table chain) (n : Nat) :
    store.getBefore hash keyOf table n = some (before node (fun p => decide (n = p))
        (.root table) chain) := by
  apply wf.scan_eq
  intro p _ isHit
  rw [← of_decide_eq_true isHit]
  rfl

variable [DecidableEq K]

lemma WellFormed.findBefore_eq (wf : store.WellFormed hash keyOf table chain) (what : K) :
    store.findBefore hash keyOf table what = some (before node
        (fun n => decide (what = keyOf (store.value n))) (.root table) chain) := by
  apply wf.scan_eq
  intro n _ isHit
  rw [bucketOf, hashCode, ← of_decide_eq_true isHit]

lemma next_before {link : HashLink} (isPath : Linked node store.next link chain) :
    store.advanceChain (before node hit link chain) = chain.find? hit := by
  induction chain generalizing link with
  | nil => rfl
  | cons first _ ih =>
    rw [before, find?_cons]
    cases isHit : hit first with
    | true => exact isPath.1
    | false => exact ih isPath.2

lemma WellFormed.find_eq (wf : store.WellFormed hash keyOf table chain) (what : K) :
    store.find hash keyOf table what = some (chain.find? fun n =>
        decide (what = keyOf (store.value n))) := by
  rw [find, wf.findBefore_eq, map_some, next_before wf.path]

end

structure Relinks (store after : HashStore V) (table : Nat) : Prop where
  value : after.value = store.value
  bucketCount : (after.tables table).bucketCount = (store.tables table).bucketCount
  myBuckets : (after.tables table).myBuckets = (store.tables table).myBuckets
  nodeCt : after.nodeCt = store.nodeCt
  arrayCt : after.arrayCt = store.arrayCt

variable {after : HashStore V}

lemma Relinks.bucketOf (relinks : store.Relinks after table) (n : Nat) :
    after.bucketOf hash keyOf table n = store.bucketOf hash keyOf table n := by
  rw [HashStore.bucketOf, HashStore.bucketOf, hashCode, hashCode, relinks.value,
    relinks.bucketCount]

lemma Relinks.wellFormed {changed : List Nat} (relinks : store.Relinks after table)
    (wf : store.WellFormed hash keyOf table chain)
    (path : Linked node after.next (.root table) changed)
    (keys : (changed.map fun n => keyOf (store.value n)).Nodup)
    (count : (after.tables table).elementCount = changed.length)
    (contiguous : Contiguous (changed.map (store.bucketOf hash keyOf table)))
    (buckets : ∀ idx < (store.tables table).bucketCount,
      after.buckets (store.tables table).myBuckets idx = before node
          (fun n => decide (store.bucketOf hash keyOf table n = idx))
          (.root table) changed)
    (afterRoot : ∀ first rest, changed = first :: rest → (after.tables table).afterRootIdx =
        store.bucketOf hash keyOf table first) (allocated : ∀ n ∈ changed, n < store.nodeCt) :
    after.WellFormed hash keyOf table changed where
  path := path
  keys := by
    rw [relinks.value]
    exact keys
  count := count
  positive := by
    rw [relinks.bucketCount]
    exact wf.positive
  contiguous := by
    rw [map_congr_left fun n _ => relinks.bucketOf n]
    exact contiguous
  buckets := by
    simp only [relinks.bucketOf, relinks.bucketCount, relinks.myBuckets]
    exact buckets
  afterRoot := by
    intro first rest hc
    rw [relinks.bucketOf]
    exact afterRoot first rest hc
  allocated := by
    rw [relinks.nodeCt]
    exact allocated
  own := by
    rw [OwnBuckets, relinks.bucketCount, relinks.myBuckets, relinks.arrayCt]
    exact wf.own

variable {prev : HashLink} {longer : List Nat}

section

def insertedAt (store : HashStore V) (table idx n : Nat) : HashStore V :=
  let inserted := store.insertAt table (store.tables table).myBuckets idx n
  inserted.setTable table
    { inserted.tables table with
      elementCount := (inserted.tables table).elementCount + 1 }

lemma insertedAt_some {idx n : Nat}
    (isPrev : store.buckets (store.tables table).myBuckets idx = some prev) :
    store.insertedAt table idx n =
      { store with
        next := update
          (update store.next (.node n) (store.next prev)) prev
            (some n)
        tables := update store.tables table
          { store.tables table with
            elementCount := (store.tables table).elementCount + 1 } } := by
  simp [insertedAt, insertAt, isPrev, setNext, setTable]

lemma insertedAt_none {idx n : Nat}
    (isEmpty : store.buckets (store.tables table).myBuckets idx = none) :
    store.insertedAt table idx n =
      { store with
        next := update
          (update store.next (.node n) (store.next (.root table))) (.root table) (some n)
        buckets := update store.buckets
          (store.tables table).myBuckets
            (update (if (store.next (.root table)).isSome then
                update
                  (store.buckets (store.tables table).myBuckets)
                  (store.tables table).afterRootIdx (some (.node n))
              else store.buckets (store.tables table).myBuckets)
              idx (some (.root table)))
        tables := update store.tables table
          { store.tables table with
            afterRootIdx := idx
            elementCount := (store.tables table).elementCount + 1 } } := by
  simp only [insertedAt, insertAt, isEmpty]
  split <;> simp only [setNext, setTable, setBucket, update_self, update_idem]

lemma relinks_insertedAt (store : HashStore V) (table idx n : Nat) :
    store.Relinks (store.insertedAt table idx n) table := by
  cases slot : store.buckets (store.tables table).myBuckets idx with
  | none =>
    rw [insertedAt_none slot]
    exact ⟨rfl, by simp [update_self], by simp [update_self], rfl, rfl⟩
  | some _ =>
    rw [insertedAt_some slot]
    exact ⟨rfl, by simp [update_self], by simp [update_self], rfl, rfl⟩

variable {n : Nat}

lemma node_not_mem_links (isNew : n ∉ chain) : node n ∉ root table :: chain.map node := by
  intro mem
  rcases mem_cons.mp mem with hr | hic
  · cases hr
  obtain ⟨_, hic, same⟩ := mem_map.mp hic
  cases same
  exact isNew hic

section

variable (wf : store.WellFormed hash keyOf table chain)

include wf

lemma WellFormed.keys_of_perm
    (newKey : ∀ other ∈ chain, keyOf (store.value other) ≠ keyOf (store.value n))
    (perm : longer.Perm (n :: chain)) : (longer.map fun n => keyOf (store.value n)).Nodup := by
  rw [(perm.map _).nodup_iff, map_cons, nodup_cons]
  refine ⟨?_, wf.keys⟩
  intro mem
  obtain ⟨other, hic, same⟩ := mem_map.mp mem
  exact newKey other hic same

lemma WellFormed.allocated_of_perm (allocated : n < store.nodeCt)
    (perm : longer.Perm (n :: chain)) :
    ∀ other ∈ longer, other < store.nodeCt := by
  intro other mem
  rcases mem_cons.mp (perm.subset mem) with rfl | hic
  · exact allocated
  · exact wf.allocated other hic

/-- A node goes behind the head of its bucket. -/
lemma WellFormed.insertedAt_used (isNew : n ∉ chain) (allocated : n < store.nodeCt)
    (newKey : ∀ other ∈ chain, keyOf (store.value other) ≠ keyOf (store.value n))
    (isBefore : before node (fun other => decide (store.bucketOf hash keyOf table other =
        store.bucketOf hash keyOf table n)) (.root table) chain = some prev) :
    ∃ longer, longer.Perm (n :: chain) ∧ (store.insertedAt table (store.bucketOf hash keyOf table n)
        n).WellFormed hash keyOf table longer := by
  have slots := wf.buckets _ (wf.bucketOf_lt n)
  have hr := store.relinks_insertedAt table (store.bucketOf hash keyOf table n) n
  have fresh : node n ∉ root table :: chain.map node := node_not_mem_links isNew
  rw [isBefore] at slots
  obtain ⟨front, first, rest, hch, hf, _, hp⟩ := (before_eq_some_iff chain _).mp isBefore
  have hsb := of_decide_eq_true hf
  have perm : (front ++ n :: first :: rest).Perm (n :: chain) := by
    rw [hch]
    exact perm_middle
  refine ⟨front ++ n :: first :: rest, perm, ?_⟩
  rw [insertedAt_some slots] at hr ⊢
  have path := linked_insert front (first :: rest) (hch ▸ wf.path) (hch ▸ wf.links) (hch ▸ fresh)
  rw [hp] at path
  refine hr.wellFormed wf path (wf.keys_of_perm newKey perm) ?_ ?_ ?_ ?_
    (wf.allocated_of_perm allocated perm)
  · simp [update_self, perm.length_eq, length_cons, wf.count]
  · have hc := wf.contiguous
    rw [hch, map_append, map_cons, hsb] at hc
    rw [map_append, map_cons, map_cons, hsb]
    exact hc.double
  · intro idx below
    rw [before_insert front rest (by rw [hsb]), ← hch]
    exact wf.buckets idx below
  simp only [update_self]
  intro head _ hh
  cases front with
  | nil =>
    cases hh
    rw [wf.afterRoot first rest hch, hsb]
  | cons other _ =>
    cases hh
    exact wf.afterRoot head _ hch

lemma WellFormed.insertedAt_empty (isNew : n ∉ chain) (allocated : n < store.nodeCt)
    (newKey : ∀ other ∈ chain, keyOf (store.value other) ≠ keyOf (store.value n))
    (isBefore : before node (fun other => decide (store.bucketOf hash keyOf table other =
        store.bucketOf hash keyOf table n)) (.root table) chain = none) :
    (store.insertedAt table (store.bucketOf hash keyOf table n)
      n).WellFormed hash keyOf table (n :: chain) := by
  have slots := wf.buckets _ (wf.bucketOf_lt n)
  have hr := store.relinks_insertedAt table (store.bucketOf hash keyOf table n) n
  rw [isBefore] at slots
  have hnh := (before_eq_none_iff chain _).mp isBefore
  rw [insertedAt_none slots] at hr ⊢
  have hp := linked_insert [] chain wf.path wf.links (node_not_mem_links isNew)
  refine hr.wellFormed wf hp (wf.keys_of_perm newKey (List.Perm.refl _)) ?_ ?_ ?_ ?_
    (wf.allocated_of_perm allocated (List.Perm.refl _))
  · simp [update_self, length_cons, wf.count]
  · rw [map_cons]
    refine wf.contiguous.cons_of_not_mem ?_
    intro mem
    obtain ⟨other, hic, same⟩ := mem_map.mp mem
    exact of_decide_eq_false (hnh other hic) same
  · intro _ below
    simp only [update_self]
    exact before_push (next_of_linked wf.path) wf.afterRoot (wf.buckets _ below)
  simp only [update_self]
  intro _ _ hh
  cases hh
  rfl

end

lemma WellFormed.insertedAt (wf : store.WellFormed hash keyOf table chain)
    (isNew : n ∉ chain) (allocated : n < store.nodeCt)
    (newKey : ∀ other ∈ chain, keyOf (store.value other) ≠ keyOf (store.value n)) :
    ∃ longer, longer.Perm (n :: chain) ∧ (store.insertedAt table (store.bucketOf hash keyOf table n)
        n).WellFormed hash keyOf table longer := by
  cases hb : before node (fun other => decide (store.bucketOf hash keyOf table other =
        store.bucketOf hash keyOf table n)) (.root table) chain with
  | some _ => exact wf.insertedAt_used isNew allocated newKey hb
  | none => exact ⟨n :: chain, List.Perm.refl _, wf.insertedAt_empty isNew allocated newKey hb⟩

end

variable {front rest : List Nat} {n : Nat}

/-- What `__erase_node` does to the slots of the table and to the bucket
behind the root. -/
def erasedSlots (hash : K → Nat) (keyOf : V → K) (store : HashStore V) (table idx : Nat)
    (prev : HashLink) (nNext : Option Nat) : (Nat → Option HashLink) × Nat :=
  let members := store.tables table
  let slots := store.buckets members.myBuckets
  match nNext with
  | none =>
    if some prev = slots idx then
      (update slots idx none, members.afterRootIdx)
    else (slots, members.afterRootIdx)
  | some m =>
    let subsIdx := store.bucketOf hash keyOf table m
    if idx = subsIdx then (slots, members.afterRootIdx)
    else if some prev = slots idx then
      (update (update slots subsIdx (some prev)) idx none,
        if idx = members.afterRootIdx then subsIdx
        else members.afterRootIdx)
    else (update slots subsIdx (some prev), members.afterRootIdx)

lemma eraseNode_eq (store : HashStore V) (table idx : Nat) (prev : HashLink) (n : Nat) :
    store.eraseNode hash keyOf table idx prev n = (store.next (.node n),
        { store with
          next := update store.next prev (store.next (.node n))
          buckets := update store.buckets
            (store.tables table).myBuckets
            (store.erasedSlots hash keyOf table idx prev (store.next (.node n))).1
          tables := update store.tables table
            { store.tables table with
              afterRootIdx := (store.erasedSlots hash keyOf table idx prev (store.next (.node n))).2
              elementCount :=
                (store.tables table).elementCount - 1 } }) := by
  cases hn : store.next (.node n) with
  | none =>
    by_cases hf : some prev = store.buckets (store.tables table).myBuckets idx
    · simp [eraseNode, hn, hf, removeFirstAt, erasedSlots, setBucket, setNext, setTable]
    · simp [eraseNode, hn, hf, erasedSlots, setNext, setTable]
  | some m =>
    by_cases hf : some prev = store.buckets (store.tables table).myBuckets idx
    · by_cases hsb : idx = store.bucketOf hash keyOf table m
      · simp [eraseNode, hn, hf, removeFirstAt, erasedSlots, setNext, setTable, bucketOf, hsb]
      by_cases hr : idx = (store.tables table).afterRootIdx
      · subst hr
        rw [bucketOf] at hsb
        simp [eraseNode, hn, hf, removeFirstAt, erasedSlots,
          setBucket, setNext, setTable, bucketOf, hsb]
      rw [bucketOf] at hsb
      simp [eraseNode, hn, hf, removeFirstAt, erasedSlots,
        setBucket, setNext, setTable, bucketOf, hsb, hr]
    by_cases hsb : idx = store.bucketOf hash keyOf table m
    · subst hsb
      rw [bucketOf] at hf
      simp [eraseNode, hn, hf, erasedSlots, setNext, setTable, bucketOf]
    rw [bucketOf] at hsb
    simp [eraseNode, hn, hf, erasedSlots, setBucket, setNext, setTable, bucketOf, hsb]

def SlotsFit (hash : K → Nat) (keyOf : V → K) (store : HashStore V) (table : Nat) (chain : List Nat)
    (slots : (Nat → Option HashLink) × Nat) : Prop :=
  (∀ idx < (store.tables table).bucketCount, slots.1 idx = before HashLink.node
      (fun n => decide (store.bucketOf hash keyOf table n = idx))
      (.root table) chain) ∧
  ∀ first others, chain = first :: others → slots.2 = store.bucketOf hash keyOf table first

lemma WellFormed.isFirst_iff (wf : store.WellFormed hash keyOf table (front ++ n :: rest)) :
    some (lastLink node (.root table) front) = store.buckets (store.tables table).myBuckets
          (store.bucketOf hash keyOf table n) ↔ before node (fun m => decide
        (store.bucketOf hash keyOf table m =
          store.bucketOf hash keyOf table n)) (.root table) front = none := by
  have links := wf.links
  rw [map_append, ← cons_append] at links
  have hfl := (nodup_append.mp links).1
  rw [wf.buckets _ (wf.bucketOf_lt n), before_append]
  cases hif : before node (fun m => decide (store.bucketOf hash keyOf table m =
        store.bucketOf hash keyOf table n)) (.root table) front with
  | none => simp [before]
  | some _ =>
    have ne := before_ne_lastLink front _ hfl hif
    simp [Ne.symm ne]

lemma WellFormed.afterRootIdx_front {first : Nat} {others : List Nat}
    (wf : store.WellFormed hash keyOf table ((first :: others) ++ n :: rest)) :
    (store.tables table).afterRootIdx = store.bucketOf hash keyOf table first :=
  wf.afterRoot first (others ++ n :: rest) rfl

lemma WellFormed.erasedSlots_last (wf : store.WellFormed hash keyOf table (front ++ [n])) :
    store.SlotsFit hash keyOf table front (store.erasedSlots hash keyOf table
        (store.bucketOf hash keyOf table n) (lastLink node (.root table) front) none) := by
  have test := wf.isFirst_iff
  refine ⟨?_, ?_⟩
  · intro idx below
    have old := wf.buckets idx below
    simp only [HashStore.erasedSlots]
    by_cases hsi : store.bucketOf hash keyOf table n = idx
    · subst hsi
      split
      · rename_i hf
        dsimp only
        rw [update_self, test.mp hf]
      rename_i notFirst
      obtain ⟨_, hif⟩ := ne_none_iff_exists'.mp (mt test.mpr notFirst)
      dsimp only
      rw [old, before_append_of_some hif, hif]
    have kept : store.buckets (store.tables table).myBuckets idx =
        before node (fun n => decide (store.bucketOf hash keyOf table n = idx))
          (.root table) front := by
      rw [old, before_remove_other front [] (by simpa using hsi)
        (fun _ mem => by cases mem), append_nil]
    split
    · dsimp only
      rw [update_of_ne (Ne.symm hsi), kept]
    · exact kept
  intro _ _ hfr
  subst hfr
  simp only [HashStore.erasedSlots]
  split <;> exact wf.afterRootIdx_front

section

variable {m : Nat}

section

variable (wf : store.WellFormed hash keyOf table (front ++ n :: m :: rest))

include wf

lemma WellFormed.erasedSlots_same
    (sameBucket : store.bucketOf hash keyOf table n = store.bucketOf hash keyOf table m) :
    store.SlotsFit hash keyOf table (front ++ m :: rest)
      (store.buckets (store.tables table).myBuckets, (store.tables table).afterRootIdx) := by
  refine ⟨?_, ?_⟩
  · intro idx below
    simp only
    rw [wf.buckets idx below, before_insert front rest (by rw [sameBucket])]
  intro _ _ hc
  cases front with
  | nil =>
    cases hc
    rw [wf.afterRoot n (m :: rest) rfl, sameBucket]
  | cons _ _ =>
    cases hc
    exact wf.afterRootIdx_front

lemma WellFormed.slots_kept {idx : Nat} (below : idx < (store.tables table).bucketCount)
    (notHere : store.bucketOf hash keyOf table n ≠ idx)
    (notNext : store.bucketOf hash keyOf table m ≠ idx) :
    store.buckets (store.tables table).myBuckets idx = before node (fun n => decide
        (store.bucketOf hash keyOf table n = idx)) (.root table) (front ++ m :: rest) := by
  rw [wf.buckets idx below, before_remove_other front (m :: rest) (by simpa using notHere)
    (fun _ hf => by
        cases hf
        simpa using notNext)]

section

variable (otherBucket : store.bucketOf hash keyOf table n ≠ store.bucketOf hash keyOf table m)

include otherBucket

lemma WellFormed.next_slot : before node (fun p => decide (store.bucketOf hash keyOf table p =
    store.bucketOf hash keyOf table m)) (.root table)
    (front ++ m :: rest) = some (lastLink node (.root table) front) := by
  have hc := wf.contiguous
  rw [map_append, map_cons, map_cons] at hc
  have hnf := hc.not_mem_front (Ne.symm otherBucket)
  have hnb : before node (fun p => decide (store.bucketOf hash keyOf table p =
        store.bucketOf hash keyOf table m)) (.root table) front = none := by
    rw [before_eq_none_iff]
    intro p mem
    rw [decide_eq_false_iff_not]
    intro same
    exact hnf (mem_map.mpr ⟨p, mem, same⟩)
  rw [before_append, hnb, before, if_pos (decide_eq_true rfl)]
  rfl

lemma WellFormed.erasedSlots_only
    (noneInFront : before node (fun m => decide (store.bucketOf hash keyOf table m =
        store.bucketOf hash keyOf table n)) (.root table) front = none) :
    store.SlotsFit hash keyOf table (front ++ m :: rest) (update
        (update (store.buckets (store.tables table).myBuckets) (store.bucketOf hash keyOf table m)
          (some (lastLink node (.root table) front)))
        (store.bucketOf hash keyOf table n) none, if store.bucketOf hash keyOf table n =
          (store.tables table).afterRootIdx then store.bucketOf hash keyOf table m
        else (store.tables table).afterRootIdx) := by
  have hc := wf.contiguous
  rw [map_append, map_cons, map_cons] at hc
  have hnb := hc.not_mem_of_ne (Ne.symm otherBucket)
  refine ⟨?_, ?_⟩
  · intro idx below
    simp only
    by_cases hsi : store.bucketOf hash keyOf table n = idx
    · subst hsi
      rw [update_self, eq_comm, before_append, noneInFront, none_or, before_eq_none_iff]
      intro p mem
      rw [decide_eq_false_iff_not]
      intro same
      apply hnb
      exact mem_map.mpr ⟨p, mem, same⟩
    rw [update_of_ne (Ne.symm hsi)]
    by_cases hni : store.bucketOf hash keyOf table m = idx
    · subst hni
      rw [update_self, wf.next_slot otherBucket]
    rw [update_of_ne (Ne.symm hni)]
    exact wf.slots_kept below hsi hni
  intro first _ hch
  cases front with
  | nil =>
    cases hch
    rw [if_pos (wf.afterRoot n (m :: rest) rfl).symm]
  | cons _ _ =>
    cases hch
    have hrb := wf.afterRootIdx_front
    rw [if_neg, hrb]
    rw [hrb]
    intro same
    rw [before_eq_none_iff] at noneInFront
    have other := noneInFront first mem_cons_self
    exact of_decide_eq_false other same.symm

lemma WellFormed.erasedSlots_later
    (inFront : before node (fun m => decide (store.bucketOf hash keyOf table m =
        store.bucketOf hash keyOf table n)) (.root table) front = some prev) :
    store.SlotsFit hash keyOf table (front ++ m :: rest)
      (update (store.buckets (store.tables table).myBuckets)
        (store.bucketOf hash keyOf table m) (some (lastLink node (.root table) front)),
        (store.tables table).afterRootIdx) := by
  refine ⟨?_, ?_⟩
  · intro idx below
    simp only
    by_cases hni : store.bucketOf hash keyOf table m = idx
    · subst hni
      rw [update_self, wf.next_slot otherBucket]
    rw [update_of_ne (Ne.symm hni)]
    by_cases hsi : store.bucketOf hash keyOf table n = idx
    · subst hsi
      rw [wf.buckets _ below, before_append_of_some inFront, before_append_of_some inFront]
    · exact wf.slots_kept below hsi hni
  intro _ _ hc
  cases front with
  | nil => cases inFront
  | cons _ _ =>
    cases hc
    exact wf.afterRootIdx_front

end

end

end

variable (wf : store.WellFormed hash keyOf table (front ++ n :: rest))

include wf

lemma WellFormed.erasedSlots :
    store.SlotsFit hash keyOf table (front ++ rest) (store.erasedSlots hash keyOf table
        (store.bucketOf hash keyOf table n) (lastLink node (.root table) front) rest.head?) := by
  cases rest with
  | nil =>
    rw [append_nil]
    exact wf.erasedSlots_last
  | cons m rest =>
    simp only [head?_cons, HashStore.erasedSlots]
    by_cases hsb : store.bucketOf hash keyOf table n = store.bucketOf hash keyOf table m
    · rw [if_pos hsb]
      exact wf.erasedSlots_same hsb
    rw [if_neg hsb]
    split
    · rename_i hf
      exact wf.erasedSlots_only hsb (wf.isFirst_iff.mp hf)
    rename_i notFirst
    obtain ⟨_, hif⟩ := ne_none_iff_exists'.mp (mt wf.isFirst_iff.mpr notFirst)
    exact wf.erasedSlots_later hsb hif

/-- Erasing unlinks the node and repairs the buckets. -/
lemma WellFormed.eraseNode : (store.eraseNode hash keyOf table (store.bucketOf hash keyOf table n)
      (lastLink node (.root table) front) n).1 = rest.head? ∧
    (store.eraseNode hash keyOf table (store.bucketOf hash keyOf table n)
      (lastLink node (.root table) front) n).2.WellFormed hash keyOf table (front ++ rest) := by
  have tail := ((linked_append front (n :: rest) _).mp wf.path).2
  have hn := next_of_linked tail.2
  have hs : (front ++ rest).Sublist (front ++ n :: rest) :=
    (sublist_cons_self n rest).append_left front
  obtain ⟨slots, rootIdx⟩ := wf.erasedSlots
  have hp := linked_remove wf.path wf.links
  rw [eraseNode_eq, hn]
  rw [hn] at hp
  refine ⟨rfl, ?_⟩
  have hr : store.Relinks { store with
        next := update store.next (lastLink node (.root table) front) rest.head?
        buckets := update store.buckets (store.tables table).myBuckets
          (store.erasedSlots hash keyOf table (store.bucketOf hash keyOf table n)
            (lastLink node (.root table) front) rest.head?).1
        tables := update store.tables table { store.tables table with
            afterRootIdx := (store.erasedSlots hash keyOf table (store.bucketOf hash keyOf table n)
              (lastLink node (.root table) front) rest.head?).2
            elementCount := (store.tables table).elementCount - 1 } }
      table :=
    ⟨rfl, by simp [update_self], by simp [update_self], rfl, rfl⟩
  refine hr.wellFormed wf hp (wf.keys.sublist (hs.map _)) ?_
    (wf.contiguous.sublist (hs.map _)) ?_ ?_ (fun m mem => wf.allocated m (hs.subset mem))
  · simp only [update_self, wf.count, length_append, length_cons]
    omega
  · intro idx below
    simp only [update_self]
    exact slots idx below
  simp only [update_self]
  exact rootIdx

end HashStore

end OoOS.Libk
