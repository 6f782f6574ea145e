import OoOS.Libk.HashTableChain

/-!
# New tables, new nodes and rehashing

A rehash follows the link of the node that it has just put into its new
bucket.  The first node is put in front of nothing, so it is the only one that
is kept.
-/

namespace OoOS.Libk

open List Function HashStore

open Lib Lib.BucketChain

universe u v

namespace HashStore

variable {K : Type u} {V : Type v} {hash : K → Nat} {keyOf : V → K}
  {store : HashStore V} {table : Nat} {chain : List Nat}

section

variable (wf : store.WellFormed hash keyOf table chain)

include wf

/-- Only the table's own nodes and buckets matter. -/
lemma WellFormed.frame {after : HashStore V} {otherKey : V → K}
    (next : ∀ link ∈ HashLink.root table :: chain.map HashLink.node,
      store.next link = after.next link)
    (key : ∀ n ∈ chain, otherKey (after.value n) = keyOf (store.value n))
    (tables : after.tables table = store.tables table)
    (buckets : after.buckets (store.tables table).myBuckets =
      store.buckets (store.tables table).myBuckets) (nodeCt : store.nodeCt ≤ after.nodeCt)
    (arrayCt : store.arrayCt ≤ after.arrayCt) : after.WellFormed hash otherKey table chain := by
  have hbo : ∀ n ∈ chain, after.bucketOf hash otherKey table n =
      store.bucketOf hash keyOf table n := by
    intro n mem
    rw [bucketOf, bucketOf, hashCode, hashCode, tables, key n mem]
  refine ⟨linked_congr chain _ next wf.path, ?_, ?_, ?_, ?_, ?_, ?_, ?_, ?_⟩
  · rw [map_congr_left key]
    exact wf.keys
  · rw [tables]
    exact wf.count
  · rw [tables]
    exact wf.positive
  · rw [map_congr_left hbo]
    exact wf.contiguous
  · intro idx below
    rw [tables] at below ⊢
    rw [buckets, wf.buckets idx below]
    apply before_congr
    intro n mem
    rw [hbo n mem]
  · intro first rest hc
    rw [tables, hbo first (by rw [hc]; exact mem_cons_self)]
    exact wf.afterRoot first rest hc
  · intro n mem
    exact Nat.lt_of_lt_of_le (wf.allocated n mem) nodeCt
  rw [OwnBuckets, tables]
  rcases wf.own with hs | ⟨id, size, ha, _, fits⟩
  · exact .inl hs
  · exact .inr ⟨id, size, ha, by omega, fits⟩

lemma WellFormed.createNode (val : V) :
    (store.createNode val).2.WellFormed hash keyOf table chain := by
  refine wf.frame (fun _ _ => rfl) ?_ rfl rfl (Nat.le_succ _) (Nat.le_refl _)
  intro n mem
  have other := Nat.ne_of_lt (wf.allocated n mem)
  exact congrArg keyOf (update_of_ne other _ _)

lemma createNode_values (val : V) :
    chain.map (store.createNode val).2.value = chain.map store.value := by
  apply map_congr_left
  intro n mem
  have other := Nat.ne_of_lt (wf.allocated n mem)
  exact update_of_ne other _ _

end

lemma wellFormed_newTable (store : HashStore V) (table : Nat) {ct : Nat} (pos : 0 < ct) :
    (store.newTable table ct).WellFormed hash keyOf table [] := by
  rw [newTable]
  split
  · rename_i single
    have isOne : ct = 1 := by omega
    refine ⟨?_, nodup_nil, ?_, ?_, contiguous_nil, ?_, ?_, ?_, ?_⟩
    · simp [Linked, setNext, setBucket, setTable]
    · simp [setTable]
    · simp only [setTable, update_self]
      exact pos
    · intro idx below
      simp only [setTable, update_self] at below ⊢
      obtain rfl : idx = 0 := by omega
      simp [setBucket, before]
    · intro first rest isNil
      cases isNil
    · intro n mem
      cases mem
    left
    constructor
    · simp [setTable, update_self]
    simp only [setTable, update_self]
    exact isOne
  refine ⟨?_, nodup_nil, ?_, ?_, contiguous_nil, ?_, ?_, ?_, ?_⟩
  · simp [Linked, setNext, allocateBuckets, setTable]
  · simp [setTable]
  · simp only [setTable, update_self]
    exact pos
  · intro idx below
    simp [setTable, allocateBuckets, before]
  · intro first rest isNil
    cases isNil
  · intro n mem
    cases mem
  right
  simp only [setTable, update_self, allocateBuckets]
  exact ⟨_, _, rfl, Nat.lt_succ_self _, Nat.le_refl _⟩

variable (targetCount : Nat)

lemma targetCount_eq :
    (if targetCount < 2 then 2 else targetCount) = max 2 targetCount := by
  split <;> omega

lemma runRehash_none (isEmpty : store.next (.root table) = none) :
    store.runRehash hash keyOf table targetCount = some
        { store with
          next := update store.next (.root table) none
          buckets := update store.buckets
            (.array store.arrayCt (max 2 targetCount)) fun _ => none
          tables := update store.tables table
            { store.tables table with
              afterRootIdx := 0
              bucketCount := max 2 targetCount
              myBuckets := .array store.arrayCt (max 2 targetCount) }
          arrayCt := store.arrayCt + 1 } := by
  simp only [runRehash, targetCount_eq, isEmpty, rehashLoop, allocateBuckets, setTable, setNext,
    update_self, update_idem]

variable {first : Nat}

lemma runRehash_some (isFirst : store.next (.root table) = some first) :
    store.runRehash hash keyOf table targetCount = some
        { store with
          next := update
            (update (update store.next (.root table) none) (.node first) none) (.root table)
              (some first)
          buckets := update store.buckets
            (.array store.arrayCt (max 2 targetCount))
            (update (fun _ => none) (store.hashCode hash keyOf first % max 2 targetCount)
              (some (.root table)))
          tables := update store.tables table
            { store.tables table with
              afterRootIdx := store.hashCode hash keyOf first % max 2 targetCount
              bucketCount := max 2 targetCount
              myBuckets := .array store.arrayCt (max 2 targetCount) }
          arrayCt := store.arrayCt + 1 } := by
  simp only [runRehash, targetCount_eq]
  simp [isFirst, rehashLoop, insertAt, allocateBuckets, setTable, setNext,
    setBucket, HashLink.node_ne_root first, hashCode]

lemma linked_rehashed (first : Nat) :
    Linked HashLink.node (update (update (update store.next (.root table) none)
        (.node first) none) (.root table) (some first)) (.root table) [first] := by
  refine ⟨update_self _ _ _, ?_⟩
  rw [Linked, update_of_ne (HashLink.node_ne_root first table), update_self]

lemma WellFormed.runRehash_nil (wf : store.WellFormed hash keyOf table []) :
    ∃ after, store.runRehash hash keyOf table targetCount = some after ∧
      after.WellFormed hash keyOf table [] ∧
      after.value = store.value ∧ after.nodeCt = store.nodeCt := by
  refine ⟨_, runRehash_none targetCount wf.path, ?_, rfl, rfl⟩
  refine ⟨update_self _ _ _, nodup_nil, ?_, ?_,
    contiguous_nil, ?_, ?_, ?_, .inr ⟨store.arrayCt, max 2 targetCount, ?_, Nat.lt_succ_self _, ?_⟩⟩
  · simp only [update_self]
    exact wf.count
  · simp only [update_self]
    omega
  · intro _ _
    simp only [update_self]
    rfl
  · intro _ _ isNil
    cases isNil
  · intro n mem
    cases mem
  · simp [update_self]
  simp only [update_self]
  exact Nat.le_refl _

lemma WellFormed.runRehash_single (wf : store.WellFormed hash keyOf table [first]) :
    ∃ after, store.runRehash hash keyOf table targetCount = some after ∧
      after.WellFormed hash keyOf table [first] ∧
      after.value = store.value ∧ after.nodeCt = store.nodeCt := by
  refine ⟨_, runRehash_some targetCount wf.path.1, ?_, rfl, rfl⟩
  refine ⟨linked_rehashed first, wf.keys, ?_, ?_,
    contiguous_nil.cons_of_not_mem not_mem_nil, ?_, ?_,
    wf.allocated, .inr ⟨store.arrayCt, max 2 targetCount, ?_, Nat.lt_succ_self _, ?_⟩⟩
  · simp only [update_self]
    exact wf.count
  · simp only [update_self]
    omega
  · intro idx _
    simp only [update_self, before]
    by_cases here : store.hashCode hash keyOf first % max 2 targetCount = idx
    · subst here
      simp [bucketOf, hashCode]
    rw [update_of_ne (Ne.symm here), if_neg]
    simpa [bucketOf, hashCode] using here
  · intro _ _ hh
    cases hh
    simp only [update_self, bucketOf]
    rfl
  · simp [update_self]
  simp only [update_self]
  exact Nat.le_refl _

lemma insertedAt_first {idx n : Nat}
    (slot : store.buckets (store.tables table).myBuckets idx = none ∨
      store.buckets (store.tables table).myBuckets idx = some (.root table)) :
    (store.insertedAt table idx n).next = update (update store.next (.node n)
          (store.next (.root table))) (.root table) (some n) ∧
      ((store.insertedAt table idx n).tables table).elementCount =
        (store.tables table).elementCount + 1 := by
  rcases slot with he | hr
  · rw [insertedAt_none he]
    exact ⟨rfl, by simp [update_self]⟩
  rw [insertedAt_some hr]
  exact ⟨rfl, by simp [update_self]⟩

lemma exists_runRehash_some (hash : K → Nat) (keyOf : V → K) (targetCount : Nat)
    (isFirst : store.next (.root table) = some first) :
    ∃ after, store.runRehash hash keyOf table targetCount = some after ∧
      Linked HashLink.node after.next (.root table) [first] ∧
      (∀ idx, after.buckets (after.tables table).myBuckets idx = none ∨
        after.buckets (after.tables table).myBuckets idx = some (.root table)) ∧
      (after.tables table).bucketCount ≠ 0 ∧ (after.tables table).elementCount =
        (store.tables table).elementCount := by
  refine ⟨_, runRehash_some targetCount isFirst, linked_rehashed first, ?_, ?_, ?_⟩
  · intro idx
    simp only [update_self]
    by_cases here : idx = store.hashCode hash keyOf first % max 2 targetCount
    · right
      rw [here, update_self]
    left
    rw [update_of_ne here]
  · simp only [update_self]
    omega
  · simp [update_self]

variable (wf : store.WellFormed hash keyOf table chain)

include wf

lemma WellFormed.runRehash_few (few : (store.tables table).elementCount ≤ 1) :
    ∃ after, store.runRehash hash keyOf table targetCount = some after ∧
      after.WellFormed hash keyOf table chain ∧
      after.value = store.value ∧ after.nodeCt = store.nodeCt := by
  rw [wf.count] at few
  rcases chain with _ | ⟨_, _ | ⟨_, _⟩⟩
  · exact wf.runRehash_nil targetCount
  · exact wf.runRehash_single targetCount
  simp only [length_cons] at few
  omega

/-- An insertion whose rehash has one element at most. -/
lemma WellFormed.insertHashed {n added : Nat} (isNew : n ∉ chain) (allocated : n < store.nodeCt)
    (newKey : ∀ other ∈ chain, keyOf (store.value other) ≠ keyOf (store.value n))
    (fewIfRehash : store.needRehash table added = true → (store.tables table).elementCount ≤ 1) :
    ∃ after longer, store.insertHashed hash keyOf table (store.hashCode hash keyOf n) n
        added = some after ∧ after.WellFormed hash keyOf table longer ∧
      longer.Perm (n :: chain) ∧ after.value = store.value := by
  have hr : ∃ rehashed, (if store.needRehash table added then
        store.runRehash hash keyOf table (store.nextBucketCt table added)
      else some store) = some rehashed ∧
      rehashed.WellFormed hash keyOf table chain ∧
      rehashed.value = store.value ∧ rehashed.nodeCt = store.nodeCt := by
    by_cases hn : store.needRehash table added = true
    · rw [if_pos hn]
      exact wf.runRehash_few _ (fewIfRehash hn)
    rw [if_neg hn]
    exact ⟨store, rfl, wf, rfl, rfl⟩
  obtain ⟨rehashed, hre, kept, values, hsc⟩ := hr
  obtain ⟨longer, perm, inserted⟩ := kept.insertedAt isNew
    (by rw [hsc]; exact allocated) (by rw [values]; exact newKey)
  refine ⟨_, longer, ?_, inserted, perm, ?_⟩
  · simp only [HashStore.insertHashed, hre, kept.range_eq]
    rw [HashStore.insertedAt, bucketOf, hashCode, hashCode, values]
  · rw [(rehashed.relinks_insertedAt table _ n).value, values]

end HashStore

end OoOS.Libk
