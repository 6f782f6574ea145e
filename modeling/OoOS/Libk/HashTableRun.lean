import OoOS.Libk.HashTableRehash

/-!
# Runs on a hash table

As long as no insertion rehashes a table of two or more elements, a table is a
finite map: it has the elements that were inserted and not erased since.  A
rehash keeps at most one element.
-/

namespace OoOS.Libk

open List Function HashStore HashLink

open Lib Lib.BucketChain

universe u v

namespace HashStore

variable {K : Type u} {V : Type v} {hash : K → Nat} {keyOf : V → K} {store after : HashStore V}
  {table n : Nat} {chain : List Nat} {val : V} {result : Nat × Bool}

lemma WellFormed.eraseBehind {front rest : List Nat}
    (wf : store.WellFormed hash keyOf table (front ++ n :: rest)) :
    ∃ after, store.eraseBehind hash keyOf table
        (some (lastLink node (.root table) front)) = some (1, after) ∧
      after.WellFormed hash keyOf table (front ++ rest) ∧ after.value = store.value := by
  have tail := ((linked_append front (n :: rest) _).mp wf.path).2
  have hn : store.advanceChain
      (some (lastLink node (.root table) front)) = some n := tail.1
  refine ⟨_, ?_, wf.eraseNode.2, ?_⟩
  · simp only [HashStore.eraseBehind, hn, wf.range_eq]
    rfl
  · rw [eraseNode_eq]

def limits (store : HashStore V) (table : Nat) : Nat × Nat × Nat :=
  let members := store.tables table
  (members.bucketCount, members.maxLoadNum, members.maxLoadDen)

lemma limits_insertedAt (store : HashStore V) (table idx n : Nat) :
    (store.insertedAt table idx n).limits table = store.limits table := by
  unfold limits
  cases slot : store.buckets (store.tables table).myBuckets idx with
  | none =>
    rw [insertedAt_none slot]
    simp [update_self]
  | some _ =>
    rw [insertedAt_some slot]
    simp [update_self]

variable [DecidableEq K]

def insertValue (keyOf : V → K) (contents : List V) (val : V) : List V :=
  if contents.any fun other => keyOf val = keyOf other then contents
  else val :: contents

def eraseValue (keyOf : V → K) (contents : List V) (what : K) : List V :=
  contents.filter fun other => what ≠ keyOf other

lemma perm_insertValue {left right : List V} (perm : left.Perm right) (val : V) :
    (insertValue keyOf left val).Perm (insertValue keyOf right val) := by
  rw [insertValue, insertValue, perm.any_eq]
  split
  · exact perm
  · exact perm.cons val

lemma find?_perm {left right : List V} (perm : left.Perm right)
    (keys : (left.map keyOf).Nodup) (what : K) :
    left.find? (fun val => what = keyOf val) = right.find? fun val => what = keyOf val := by
  cases found : right.find? (fun val => decide (what = keyOf val)) with
  | none =>
    rw [find?_eq_none] at found ⊢
    intro val mem
    exact found val (perm.subset mem)
  | some val =>
    have isKey : what = keyOf val := by simpa using find?_some found
    have mem := perm.symm.subset (mem_of_find?_eq_some found)
    cases other : left.find? (fun val => decide (what = keyOf val)) with
    | none =>
      rw [find?_eq_none] at other
      exact absurd (decide_eq_true isKey) (other val mem)
    | some another =>
      have hsk : what = keyOf another := by simpa using find?_some other
      have hil := mem_of_find?_eq_some other
      exact congrArg some (inj_on_of_nodup_map keys hil mem (hsk.symm.trans isKey))

lemma WellFormed.eraseValue_eq {front rest : List Nat}
    (wf : store.WellFormed hash keyOf table (front ++ n :: rest)) :
    eraseValue keyOf ((front ++ n :: rest).map store.value) (keyOf (store.value n)) =
      (front ++ rest).map store.value := by
  have keys := wf.keys
  rw [map_append, map_cons] at keys
  have ne : ∀ other, other ∈ front ∨ other ∈ rest →
      keyOf (store.value n) ≠ keyOf (store.value other) := by
    intro other ho same
    rw [(perm_middle).nodup_iff, nodup_cons, ← map_append] at keys
    exact keys.1 (mem_map.mpr ⟨other, mem_append.mpr ho, same.symm⟩)
  rw [eraseValue, filter_map, filter_append, filter_cons, filter_eq_self.mpr, filter_eq_self.mpr]
  · simp
  · intro other mem
    simpa using ne other (.inr mem)
  intro other mem
  simpa using ne other (.inl mem)

section

variable (wf : store.WellFormed hash keyOf table chain)

include wf

lemma WellFormed.find_value (what : K) :
    ∃ found, store.find hash keyOf table what = some found ∧ found.map store.value =
        (chain.map store.value).find? fun val => what = keyOf val := by
  refine ⟨_, wf.find_eq what, ?_⟩
  rw [find?_map]
  rfl

lemma WellFormed.find_of_perm
    {contents : List V} (perm : (chain.map store.value).Perm contents) (what : K) :
    ∃ found, store.find hash keyOf table what = some found ∧
      found.map store.value = contents.find? fun val => what = keyOf val := by
  obtain ⟨found, hf, value⟩ := wf.find_value what
  refine ⟨found, hf, ?_⟩
  rw [value]
  apply find?_perm perm
  rw [map_map]
  exact wf.keys

lemma WellFormed.find_createNode (val : V) (what : K) :
    (store.createNode val).2.find hash keyOf table what = store.find hash keyOf table what := by
  have hsb : before node
      (fun n => decide (what = keyOf ((store.createNode val).2.value n)))
      (.root table) chain = before node
        (fun n => decide (what = keyOf (store.value n))) (.root table)
        chain := by
    apply before_congr
    intro n mem
    have other := Nat.ne_of_lt (wf.allocated n mem)
    have hsv : (store.createNode val).2.value n = store.value n := update_of_ne other _ _
    rw [hsv]
  rw [find, find, (wf.createNode val).findBefore_eq, wf.findBefore_eq, hsb]
  rfl

lemma WellFormed.insert (val : V)
    (fewIfRehash : store.find hash keyOf table (keyOf val) = some none →
      store.needRehash table 1 = true → (store.tables table).elementCount ≤ 1) :
    ∃ result after changed, store.insert hash keyOf table val = some (result, after) ∧
      after.WellFormed hash keyOf table changed ∧ (changed.map after.value).Perm
        (insertValue keyOf (chain.map store.value) val) := by
  have hc := wf.createNode val
  have values := createNode_values wf val
  have isVal : (store.createNode val).2.value store.nodeCt = val := update_self _ _ _
  have found := wf.find_eq (keyOf val)
  have hak : ((chain.map store.value).any fun other =>
      keyOf val = keyOf other) = (chain.find? fun n =>
        decide (keyOf val = keyOf (store.value n))).isSome := by
    rw [any_map, isSome_find?]
    rfl
  have hn : (store.createNode val).1 = store.nodeCt := rfl
  rw [HashStore.insert]
  dsimp only
  rw [insertNode, hn, isVal, wf.find_createNode, insertValue, hak]
  cases hp : chain.find? fun n => decide (keyOf val = keyOf (store.value n)) with
  | some p =>
    rw [hp] at found
    rw [found]
    refine ⟨_, _, chain, rfl, hc, ?_⟩
    rw [values]
    exact List.Perm.refl _
  | none =>
    rw [hp] at found
    have hnk : ∀ other ∈ chain, keyOf ((store.createNode val).2.value other) ≠
          keyOf ((store.createNode val).2.value store.nodeCt) := by
      intro other mem same
      have older := Nat.ne_of_lt (wf.allocated other mem)
      have hsv : (store.createNode val).2.value other = store.value other := update_of_ne older _ _
      rw [isVal, hsv] at same
      exact find?_eq_none.mp hp other mem (decide_eq_true same.symm)
    have isNew : store.nodeCt ∉ chain := fun mem => Nat.lt_irrefl _ (wf.allocated _ mem)
    obtain ⟨after, longer, inserted, kept, perm, hsva⟩ :=
      hc.insertHashed isNew (Nat.lt_succ_self _) hnk (fewIfRehash found)
    refine ⟨(store.nodeCt, true), after, longer, ?_, kept, ?_⟩
    · rw [found]
      simp [inserted]
    rw [hsva]
    simp only [Option.isSome_none, Bool.false_eq_true, if_false]
    refine (perm.map _).trans ?_
    rw [map_cons, isVal, values]

lemma WellFormed.eraseKey (what : K) :
    ∃ erased after changed, store.eraseKey hash keyOf table what = some (erased, after) ∧
      after.WellFormed hash keyOf table changed ∧ changed.map after.value =
        eraseValue keyOf (chain.map store.value) what := by
  rw [HashStore.eraseKey, wf.findBefore_eq]
  cases hb : before node
      (fun n => decide (what = keyOf (store.value n))) (.root table) chain with
  | none =>
    refine ⟨0, store, chain, rfl, wf, ?_⟩
    rw [eraseValue, eq_comm, filter_eq_self]
    intro _ mem
    obtain ⟨n, hic, rfl⟩ := mem_map.mp mem
    have other := (before_eq_none_iff chain _).mp hb n hic
    simpa using of_decide_eq_false other
  | some _ =>
    obtain ⟨front, n, rest, rfl, isKey, _, rfl⟩ := (before_eq_some_iff chain _).mp hb
    obtain ⟨after, erased, kept, values⟩ := wf.eraseBehind
    refine ⟨1, after, front ++ rest, erased, kept, ?_⟩
    rw [values, of_decide_eq_true isKey, wf.eraseValue_eq]

lemma WellFormed.eraseIterator (mem : n ∈ chain) :
    ∃ after changed, store.eraseIterator hash keyOf table n = some after ∧
      after.WellFormed hash keyOf table changed ∧
      changed.map after.value = eraseValue keyOf (chain.map store.value)
        (keyOf (store.value n)) := by
  rw [HashStore.eraseIterator, wf.getBefore_eq]
  cases hb : before node (fun p => decide (n = p)) (.root table) chain with
  | none =>
    have other := (before_eq_none_iff chain _).mp hb n mem
    exact absurd rfl (of_decide_eq_false other)
  | some _ =>
    obtain ⟨front, p, rest, rfl, hn, _, rfl⟩ := (before_eq_some_iff chain _).mp hb
    obtain rfl := of_decide_eq_true hn
    obtain ⟨after, erased, kept, values⟩ := wf.eraseBehind
    refine ⟨after, front ++ rest, ?_, kept, ?_⟩
    · simp [erased]
    · rw [values, wf.eraseValue_eq]

lemma WellFormed.limits_insert
    (noRehash : store.find hash keyOf table (keyOf val) = some none → store.needRehash table 1 =
      false)
    (inserted : store.insert hash keyOf table val = some (result, after)) :
    after.limits table = store.limits table := by
  have isVal : (store.createNode val).2.value (store.createNode val).1 = val := update_self _ _ _
  unfold HashStore.insert insertNode at inserted
  dsimp only at inserted
  rw [isVal, wf.find_createNode] at inserted
  split at inserted
  · cases inserted
  · cases inserted
    rfl
  rename_i isFound
  split at inserted
  · cases inserted
  rename_i hh
  cases inserted
  unfold HashStore.insertHashed at hh
  have hsn : (store.createNode val).2.needRehash table 1 = false := noRehash isFound
  simp only [hsn, Bool.false_eq_true, if_false] at hh
  split at hh
  · cases hh
  rename_i idx _
  cases hh
  exact limits_insertedAt (store.createNode val).2 table idx _

end

lemma limits_eraseKey {what : K} {erased : Nat}
    (done : store.eraseKey hash keyOf table what = some (erased, after)) :
    after.limits table = store.limits table := by
  unfold eraseKey eraseBehind at done
  split at done
  · cases done
  split at done
  · split at done
    · cases done
    cases done
    rw [eraseNode_eq]
    unfold limits
    simp [update_self]
  cases done
  rfl

/-- A call that changes a table; an iterator is known by the key of its
element. -/
inductive Call (K : Type u) (V : Type v) where
  | insert (val : V)
  | eraseKey (what : K)
  | eraseIterator (what : K)

def step (hash : K → Nat) (keyOf : V → K) (table : Nat)
    (store : HashStore V) : Call K V → Option (HashStore V)
  | .insert val => (store.insert hash keyOf table val).map Prod.snd
  | .eraseKey what => (store.eraseKey hash keyOf table what).map Prod.snd
  | .eraseIterator what =>
    match store.find hash keyOf table what with
    | some (some n) => store.eraseIterator hash keyOf table n
    | _ => none

/-- A rehash is triggered for a table of at most one element only, and an
iterator is at an element. -/
def Guard (hash : K → Nat) (keyOf : V → K) (table : Nat)
    (store : HashStore V) : Call K V → Prop
  | .insert val =>
    store.find hash keyOf table (keyOf val) = some none → store.needRehash table 1 = true →
        (store.tables table).elementCount ≤ 1
  | .eraseKey _ => True
  | .eraseIterator what => store.find hash keyOf table what ≠ some none

def Guarded (hash : K → Nat) (keyOf : V → K) (table : Nat) : List (Call K V) → HashStore V → Prop
  | [], _ => True
  | call :: calls, store =>
    store.Guard hash keyOf table call ∧ ∀ after, store.step hash keyOf table call = some after →
        Guarded hash keyOf table calls after

/-- The elements after a call: those inserted and not erased since. -/
def contentsAfter (keyOf : V → K) (contents : List V) : Call K V → List V
  | .insert val => insertValue keyOf contents val
  | .eraseKey what => eraseValue keyOf contents what
  | .eraseIterator what => eraseValue keyOf contents what

/-- Each guarded call is the one on the contents. -/
lemma WellFormed.step (wf : store.WellFormed hash keyOf table chain) {call : Call K V}
    (guard : store.Guard hash keyOf table call) :
    ∃ after changed, store.step hash keyOf table call = some after ∧
      after.WellFormed hash keyOf table changed ∧ (changed.map after.value).Perm
        (contentsAfter keyOf (chain.map store.value) call) := by
  cases call with
  | insert val =>
    obtain ⟨_, after, changed, hin, kept, perm⟩ := wf.insert val guard
    refine ⟨after, changed, ?_, kept, perm⟩
    rw [HashStore.step, hin]
    rfl
  | eraseKey what =>
    obtain ⟨erased, after, changed, done, kept, values⟩ := wf.eraseKey what
    refine ⟨after, changed, ?_, kept, ?_⟩
    · rw [HashStore.step, done]
      rfl
    rw [values]
    exact List.Perm.refl _
  | eraseIterator what =>
    have found := wf.find_eq what
    cases hf : chain.find? fun n => decide (what = keyOf (store.value n)) with
    | none =>
      rw [hf] at found
      exact absurd found guard
    | some n =>
      rw [hf] at found
      obtain ⟨after, changed, erased, kept, values⟩ := wf.eraseIterator (mem_of_find?_eq_some hf)
      have isKey := find?_some hf
      refine ⟨after, changed, ?_, kept, ?_⟩
      · rw [HashStore.step, found]
        exact erased
      · rw [values, contentsAfter, of_decide_eq_true isKey]

lemma perm_contentsAfter {left right : List V} (perm : left.Perm right) (call : Call K V) :
    (contentsAfter keyOf left call).Perm (contentsAfter keyOf right call) := by
  cases call with
  | insert val => exact perm_insertValue perm val
  | eraseKey what => exact perm.filter _
  | eraseIterator what => exact perm.filter _

lemma WellFormed.run (calls : List (Call K V)) :
    ∀ (store : HashStore V) (chain : List Nat) (contents : List V),
      store.WellFormed hash keyOf table chain → (chain.map store.value).Perm contents →
      Guarded hash keyOf table calls store → ∃ after changed,
        calls.foldlM (HashStore.step hash keyOf table) store = some after ∧
        after.WellFormed hash keyOf table changed ∧ (changed.map after.value).Perm
          (calls.foldl (contentsAfter keyOf) contents) := by
  induction calls with
  | nil =>
    intro store chain contents wf perm _
    exact ⟨store, chain, rfl, wf, perm⟩
  | cons call calls ih =>
    intro store chain contents wf perm hg
    obtain ⟨next, changed, hs, kept, hsp⟩ := wf.step hg.1
    obtain ⟨after, final, done, hfk, hfp⟩ :=
      ih next changed _ kept (hsp.trans (perm_contentsAfter perm call)) (hg.2 next hs)
    refine ⟨after, final, ?_, hfk, hfp⟩
    rw [foldlM_cons, hs]
    exact done

/-- A table with at least two buckets is a finite map as long as no rehash is
triggered for two or more elements. -/
theorem run_finiteMap (hash : K → Nat) (keyOf : V → K)
    (store : HashStore V) (table : Nat) {ct : Nat} (atLeastTwo : 2 ≤ ct) (calls : List (Call K V))
    (guarded : Guarded hash keyOf table calls (store.newTable table ct)) :
    ∃ after chain, calls.foldlM (HashStore.step hash keyOf table)
        (store.newTable table ct) = some after ∧ after.WellFormed hash keyOf table chain ∧
      (chain.map after.value).Perm (calls.foldl (contentsAfter keyOf) []) ∧
      (after.tables table).elementCount = (calls.foldl (contentsAfter keyOf) []).length ∧
      ∀ what, ∃ found, after.find hash keyOf table what = some found ∧ found.map after.value =
          (calls.foldl (contentsAfter keyOf) []).find? fun val => what = keyOf val := by
  obtain ⟨after, chain, done, wellFormed, perm⟩ :=
    WellFormed.run calls _ [] [] (wellFormed_newTable store table
      (by omega)) (List.Perm.refl _) guarded
  refine ⟨after, chain, done, wellFormed, perm, ?_, wellFormed.find_of_perm perm⟩
  rw [wellFormed.count, ← perm.length_eq, length_map]

theorem run_finiteMap_twoCalls : ∃ after : HashStore Nat, [Call.insert 7, Call.eraseKey 7].foldlM
        (HashStore.step (fun key : Nat => key) (fun val => val) 0)
        (HashStore.newTable ⟨fun _ => none, fun _ => 0, fun _ _ => none,
          fun _ => { myBuckets := .singularity 0 }, 0, 0⟩ 0 8) =
        some after ∧
      (after.tables 0).elementCount = 0 := by
  have hg : Guarded (fun key : Nat => key) (fun val : Nat => val) 0 [Call.insert 7, Call.eraseKey 7]
      (newTable ⟨fun _ => none, fun _ => 0, fun _ _ => none,
        fun _ => { myBuckets := .singularity 0 }, 0, 0⟩ 0 8) :=
    ⟨fun _ _ => by decide, fun _ _ => ⟨trivial, fun _ _ => trivial⟩⟩
  obtain ⟨after, _, done, _, _, count, _⟩ :=
    run_finiteMap (fun key : Nat => key) (fun val : Nat => val) _ 0 (by decide) _ hg
  exact ⟨after, done, count.trans (by decide)⟩

/-- The table is well formed after a rehash, has the same elements and finds
the same. -/
def RehashKeeps (hash : K → Nat) (keyOf : V → K) (store : HashStore V)
    (table targetCount : Nat) (chain : List Nat) : Prop :=
  ∃ after changed, store.runRehash hash keyOf table targetCount = some after ∧
    after.WellFormed hash keyOf table changed ∧
    changed.Perm chain ∧ after.value = store.value ∧
    ∀ what, after.find hash keyOf table what = store.find hash keyOf table what

/-- The table is well formed after an insertion and has the new element and
the ones it had. -/
def InsertKeeps (hash : K → Nat) (keyOf : V → K) (store : HashStore V)
    (table : Nat) (val : V) (chain : List Nat) : Prop :=
  ∃ result after changed, store.insert hash keyOf table val = some (result, after) ∧
    after.WellFormed hash keyOf table changed ∧
    (changed.map after.value).Perm (val :: chain.map store.value)

section

variable (wf : store.WellFormed hash keyOf table chain)

include wf

lemma WellFormed.rehashKeeps (targetCount : Nat) (few : (store.tables table).elementCount ≤ 1) :
    store.RehashKeeps hash keyOf table targetCount chain := by
  obtain ⟨after, hr, kept, hsv, _⟩ := wf.runRehash_few targetCount few
  refine ⟨after, chain, hr, kept, List.Perm.refl _, hsv, ?_⟩
  intro _
  rw [kept.find_eq, wf.find_eq, hsv]

lemma WellFormed.insertKeeps (absent : store.find hash keyOf table (keyOf val) = some none)
    (few : (store.tables table).elementCount ≤ 1) :
    store.InsertKeeps hash keyOf table val chain := by
  obtain ⟨result, after, changed, hin, kept, perm⟩ := wf.insert val fun _ _ => few
  refine ⟨result, after, changed, hin, kept, ?_⟩
  rw [insertValue, if_neg] at perm
  · exact perm
  rw [wf.find_eq, Option.some.injEq, find?_eq_none] at absent
  rw [any_map, any_eq_true]
  rintro ⟨n, mem, isKey⟩
  exact absent n mem isKey

end

lemma linked_insert_of_rehash {first : Nat} {rest : List Nat}
    (wf : store.WellFormed hash keyOf table (first :: rest))
    (absent : store.find hash keyOf table (keyOf val) = some none)
    (rehashes : store.needRehash table 1 = true)
    (inserted : store.insert hash keyOf table val = some (result, after)) :
    Linked node after.next (.root table) [store.nodeCt, first] ∧
      (after.tables table).elementCount = rest.length + 2 := by
  have hc := wf.createNode val
  have isVal : (store.createNode val).2.value store.nodeCt = val := update_self _ _ _
  have hno : (store.createNode val).1 = store.nodeCt := rfl
  have hne : (store.createNode val).2.needRehash table 1 = true := rehashes
  obtain ⟨rehashed, hre, path, slots, pos, count⟩ := exists_runRehash_some hash keyOf
      ((store.createNode val).2.nextBucketCt table 1) hc.path.1
  rw [insert] at inserted
  dsimp only at inserted
  rw [insertNode, hno, isVal, wf.find_createNode, absent] at inserted
  simp only [insertHashed, hne, if_true, hre, range,
    if_neg pos, Option.some.injEq, Prod.mk.injEq] at inserted
  obtain ⟨_, rfl⟩ := inserted
  obtain ⟨hn, hco⟩ := rehashed.insertedAt_first
    (n := store.nodeCt) (slots ((store.createNode val).2.hashCode hash keyOf
      store.nodeCt % (rehashed.tables table).bucketCount))
  refine ⟨?_, ?_⟩
  · have older := wf.allocated first mem_cons_self
    have ne : node first ≠ .node store.nodeCt := by
      intro same
      cases same
      exact Nat.lt_irrefl _ older
    have hl : rehashed.next (.node first) = none := path.2
    change Linked node (rehashed.insertedAt table _ store.nodeCt).next _ _
    rw [hn]
    refine ⟨update_self _ _ _, ?_, ?_⟩
    · rw [update_of_ne (node_ne_root _ table), update_self]
      exact path.1
    rw [Linked, update_of_ne (node_ne_root first table), update_of_ne ne]
    exact hl
  change ((rehashed.insertedAt table _ store.nodeCt).tables table).elementCount = _
  rw [hco, count]
  exact congrArg (· + 1) hc.count

/-- A rehash keeps the elements of exactly those tables that have at most one,
and so does an insertion that triggers it. -/
theorem rehashKeeps_iff (wellFormed : store.WellFormed hash keyOf table chain) :
    (∀ targetCount, store.RehashKeeps hash keyOf table targetCount chain ↔
        (store.tables table).elementCount ≤ 1) ∧
    ∀ val, store.find hash keyOf table (keyOf val) = some none → store.needRehash table 1 = true →
      (store.InsertKeeps hash keyOf table val chain ↔ (store.tables table).elementCount ≤ 1) := by
  constructor
  · intro targetCount
    refine ⟨?_, wellFormed.rehashKeeps targetCount⟩
    rintro ⟨after, changed, rehashed, kept, perm, _⟩
    rw [wellFormed.count]
    cases chain with
    | nil => exact Nat.zero_le _
    | cons first rest =>
      rw [runRehash_some targetCount wellFormed.path.1] at rehashed
      obtain rfl := Option.some.inj rehashed
      have hs := linked_unique _ _ _ (linked_rehashed first) kept.path
      rw [← perm.length_eq, ← hs]
      exact Nat.le_refl 1
  intro val ha hr
  refine ⟨?_, wellFormed.insertKeeps ha⟩
  rintro ⟨_, after, changed, inserted, kept, perm⟩
  rw [wellFormed.count]
  cases chain with
  | nil => exact Nat.zero_le _
  | cons first rest =>
    obtain ⟨path, count⟩ := linked_insert_of_rehash wellFormed ha hr inserted
    have hp := linked_unique _ _ _ path kept.path
    rw [kept.count, ← hp] at count
    simp only [length_cons, length_nil] at count ⊢
    omega

/-- A store whose only table has eight buckets. -/
def eightBuckets (table : Nat) : HashStore Nat :=
  newTable ⟨fun _ => none, fun _ => 0, fun _ _ => none,
    fun _ => { myBuckets := .singularity 0 }, 0, 0⟩ table 8

theorem rehashKeeps_iff_oneKey : ∃ (store : HashStore Nat) (chain : List Nat),
    (eightBuckets 0).step (fun key : Nat => key) (fun val => val) 0 (.insert 5) = some store ∧
      chain.length = 1 ∧ store.RehashKeeps (fun key : Nat => key) (fun val => val) 0 16 chain := by
  have guarded : (eightBuckets 0).Guard (fun key : Nat => key) (fun val => val) 0 (.insert 5) :=
    fun _ _ => by decide
  obtain ⟨store, chain, inserted, wellFormed, perm⟩ :=
    (wellFormed_newTable _ 0 (by decide)).step guarded
  have one : chain.length = 1 := by
    simpa [contentsAfter, insertValue] using perm.length_eq
  exact ⟨store, chain, inserted, one, ((rehashKeeps_iff wellFormed).1 16).mpr
    (Nat.le_of_eq (wellFormed.count.trans one))⟩

/-- Two keys in a table of eight buckets that is rehashed to sixteen: the
second one in the chain is lost. -/
theorem rehash_loses_element : ∃ store after : HashStore Nat, [Call.insert 1, Call.insert 2].foldlM
        (HashStore.step (fun key : Nat => key) (fun val => val) 0)
        (HashStore.newTable ⟨fun _ => none, fun _ => 0, fun _ _ => none,
          fun _ => { myBuckets := .singularity 0 }, 0, 0⟩ 0 8) =
        some store ∧
      store.runRehash (fun key : Nat => key) (fun val => val) 0 16 = some after ∧
      store.find (fun key : Nat => key) (fun val => val) 0 1 = some (some 0) ∧
      after.find (fun key : Nat => key) (fun val => val) 0 1 = some none ∧
      (after.tables 0).elementCount = 2 :=
  ⟨_, _, rfl, rfl, by decide, by decide, by decide⟩

end HashStore

end OoOS.Libk
