import OoOS.Libk.HashTableTransfer

/-!
# Tables obtained by copies and moves

A copy serves the elements of the table it is a copy of, unless that one is
empty and the copy is constructed: it has no buckets then.  A move serves
nothing but empty tables.
-/

namespace OoOS.Libk

open List Function Option HashStore

open Lib Lib.BucketChain

universe u v

namespace HashStore

variable {K : Type u} {V : Type v} {hash : K → Nat} {keyOf : V → K}
  {store : HashStore V} {table that : Nat} {chain copied : List Nat}

lemma copying_newTable (wf : store.WellFormed hash keyOf that chain)
    (ne : table ≠ that) {ct : Nat} (pos : 0 < ct) :
    (store.newTable table ct).Copying hash keyOf table that [] chain := by
  have mine : (store.newTable table ct).WellFormed hash keyOf table [] :=
    wellFormed_newTable store table pos
  have hnr : ∀ link ∈ HashLink.root that :: chain.map HashLink.node, store.next link =
        update store.next (.root table) none link := by
    intro link mem
    exact (update_of_ne (ne_root_of_mem ne mem) _ _).symm
  have hnn := wf.myBuckets_ne ct
  have hnm : (store.tables that).myBuckets ≠ .singularity table := by
    intro same
    rcases wf.own with hs | ⟨id, _, ha, _⟩
    · rw [hs.1] at same
      cases same
      exact ne rfl
    rw [ha] at same
    cases same
  refine ⟨mine, ?_, ⟨ne, disjoint_nil_left _, ?_⟩, ?_⟩
  · rw [newTable]
    split
    · exact wf.frame hnr (fun _ _ => rfl) (update_of_ne (Ne.symm ne) _ _)
        (update_of_ne hnm _ _) (Nat.le_refl _) (Nat.le_refl _)
    exact wf.frame hnr (fun _ _ => rfl) (update_of_ne (Ne.symm ne) _ _)
      (update_of_ne hnn _ _) (Nat.le_refl _) (Nat.le_succ _)
  · rw [newTable]
    split
    · simp only [setTable, setBucket, setNext, update_self, update_of_ne (Ne.symm ne)]
      exact Ne.symm hnm
    simp only [setTable, allocateBuckets, setNext, update_self, update_of_ne (Ne.symm ne)]
    exact Ne.symm hnn
  rw [newTable]
  split <;> simp [setTable]

lemma Copying.clear (copying : store.Copying hash keyOf table that copied chain) :
    (store.clear table).Copying hash keyOf table that [] chain := by
  have ne := copying.apart.different
  have ht : ∀ members, update store.tables table members that = store.tables that := fun members =>
    update_of_ne (Ne.symm ne) _ _
  refine ⟨copying.mine.clear, ?_, ⟨ne, disjoint_nil_left _, ?_⟩, ?_⟩
  · refine copying.theirs.frame ?_ (fun _ _ => rfl) (ht _) ?_ (Nat.le_refl _) (Nat.le_refl _)
    · intro _ mem
      exact (update_of_ne (ne_root_of_mem ne mem) _ _).symm
    · exact update_of_ne (Ne.symm copying.apart.buckets) _ _
  · simp only [HashStore.clear, setTable, setNext, update_self, ht]
    exact copying.apart.buckets
  simp only [HashStore.clear, setTable, update_self]
  exact copying.maxLoad

lemma newTable_value (store : HashStore V) (table ct : Nat) :
    (store.newTable table ct).value = store.value := by
  rw [newTable]
  split <;> rfl

lemma WellFormed.eq_nil_iff (wf : store.WellFormed hash keyOf table chain) :
    (store.tables table).elementCount = 0 ↔ chain = [] := by
  rw [wf.count, length_eq_zero_iff]

structure MovedTo (store after : HashStore V) (table that : Nat) : Prop where
  next : after.next (.root table) = store.next (.root that)
  value : after.value = store.value
  elementCount : (after.tables table).elementCount = (store.tables that).elementCount
  bucketCount : (after.tables table).bucketCount = (store.tables that).bucketCount
  afterRootIdx : (after.tables table).afterRootIdx = (store.tables that).afterRootIdx
  myBuckets : (after.tables table).myBuckets = (store.tables that).myBuckets
  slots : ∀ idx, after.buckets (store.tables that).myBuckets idx =
      store.buckets (store.tables that).myBuckets idx ∨
    after.buckets (store.tables that).myBuckets idx = none
  arrayCt : store.arrayCt ≤ after.arrayCt

/-- A move keeps a table that has no elements and no slot inside it, and no
other. -/
lemma MovedTo.wellFormed_iff {after : HashStore V} (isMoved : store.MovedTo after table that)
    (ne : table ≠ that) (wf : store.WellFormed hash keyOf that chain) :
    (∃ copied, after.WellFormed hash keyOf table copied ∧
      (copied.map after.value).Perm (chain.map store.value)) ↔
      (store.tables that).elementCount = 0 ∧ (store.tables that).myBuckets ≠ .singularity that := by
  constructor
  · rintro ⟨copied, hk, _⟩
    refine ⟨?_, ?_⟩
    · rw [wf.eq_nil_iff]
      cases chain with
      | nil => rfl
      | cons first _ =>
        -- The slot of the first node holds the root that was moved from.
        exfalso
        have hf := isMoved.next.trans wf.path.1
        obtain ⟨others, rfl⟩ : ∃ others, copied = first :: others := by
          rw [next_of_linked hk.path] at hf
          cases copied with
          | nil => cases hf
          | cons _ others => exact ⟨others, by rw [some.inj hf]⟩
        have hsb : after.bucketOf hash keyOf table first =
          store.bucketOf hash keyOf that first := by
          rw [bucketOf, bucketOf, hashCode, hashCode, isMoved.value, isMoved.bucketCount]
        have hin := wf.bucketOf_lt first
        have mine := hk.buckets _ (hk.bucketOf_lt first)
        have ht := wf.buckets _ hin
        rw [before, if_pos (decide_eq_true rfl)] at mine ht
        rw [isMoved.myBuckets, hsb] at mine
        rcases isMoved.slots (store.bucketOf hash keyOf that first) with
          same | hc
        · rw [same, ht] at mine
          cases mine
          exact ne rfl
        rw [hc] at mine
        cases mine
    intro hs
    rcases hk.own with own | ⟨id, size, ha, _⟩
    · rw [isMoved.myBuckets, hs] at own
      cases own.1
      exact ne rfl
    rw [isMoved.myBuckets, hs] at ha
    cases ha
  · rintro ⟨he, hns⟩
    obtain rfl := wf.eq_nil_iff.mp he
    refine ⟨[], wellFormed_nil ?_ ?_ ?_ ?_ ?_, List.Perm.refl _⟩
    · exact isMoved.next.trans wf.path
    · exact isMoved.elementCount.trans he
    · rw [isMoved.bucketCount]
      exact wf.positive
    · intro idx below
      rw [isMoved.bucketCount] at below
      rw [isMoved.myBuckets]
      rcases isMoved.slots idx with same | hc
      · exact same.trans (wf.buckets idx below)
      · exact hc
    right
    obtain ⟨id, size, ha, hin, fits⟩ := wf.own.resolve_left fun hs => hns hs.1
    refine ⟨id, size, isMoved.myBuckets.trans ha, Nat.lt_of_lt_of_le hin isMoved.arrayCt, ?_⟩
    rw [isMoved.bucketCount]
    exact fits

def ClearsSlots (store after : HashStore V) : Prop :=
  ∀ buckets slot, after.buckets buckets slot = store.buckets buckets slot ∨
      after.buckets buckets slot = none

lemma ClearsSlots.trans {middle after : HashStore V} (left : store.ClearsSlots middle)
    (right : middle.ClearsSlots after) : store.ClearsSlots after := by
  intro buckets slot
  rcases right buckets slot with same | hc
  · rw [same]
    exact left buckets slot
  · exact .inr hc

variable (store)

lemma clearsSlots_setBucket (buckets : BucketsPtr)
    (idx : Nat) : store.ClearsSlots (store.setBucket buckets idx none) := by
  intro other slot
  by_cases ho : other = buckets
  · subst ho
    by_cases here : slot = idx
    · subst here
      simp [setBucket, update_self]
    simp [setBucket, update_self, update_of_ne here]
  simp [setBucket, update_of_ne ho]

lemma clearsSlots_reset (table : Nat) :
    store.ClearsSlots (store.reset table) :=
  clearsSlots_setBucket _ _ _

lemma clearsSlots_clear (table : Nat) :
    store.ClearsSlots (store.clear table) := by
  intro other _
  by_cases ho : other = (store.tables table).myBuckets
  · subst ho
    simp only [clear, update_self]
    split
    · exact .inr rfl
    · exact .inl rfl
  simp [clear, update_of_ne ho]

lemma clearsSlots_initBuckets (table : Nat) :
    store.ClearsSlots (store.initBuckets table 2) := by
  intro other _
  by_cases ho : other = .array store.arrayCt 2
  · subst ho
    simp [initBuckets, setTable, allocateBuckets]
  simp [initBuckets, setTable, allocateBuckets, ho]

lemma wellFormed_initBuckets (table : Nat) :
    ((store.reset table).initBuckets table 2).WellFormed hash keyOf table [] := by
  have hr : (store.reset table).WellFormed hash keyOf table [] := wellFormed_reset store table
  apply wellFormed_nil
  · exact hr.path
  · simp [initBuckets, setTable, allocateBuckets, reset, setBucket]
  · simp [initBuckets, setTable, allocateBuckets, reset, setBucket]
  · intro _ _
    simp [initBuckets, setTable, allocateBuckets]
  right
  refine ⟨(store.reset table).arrayCt, 2, ?_, ?_, ?_⟩
  · simp [initBuckets, setTable, allocateBuckets]
  · simp [initBuckets, setTable, allocateBuckets]
  · simp [initBuckets, setTable, allocateBuckets, reset, setBucket]

lemma movedTo_moveAssign (ne : table ≠ that) :
    store.MovedTo ((((store.clear table).moveBase table that).reset
      that).initBuckets that 2) table that := by
  have hnt := Ne.symm ne
  refine ⟨?_, rfl, ?_, ?_, ?_, ?_, ?slots, ?_⟩
  case slots =>
    intro slot
    have hc := clearsSlots_clear store table
    have moved : (store.clear table).ClearsSlots ((store.clear table).moveBase table that) :=
      clearsSlots_reset _ that
    have reset := clearsSlots_reset ((store.clear table).moveBase table that) that
    exact ((hc.trans moved).trans reset).trans (clearsSlots_initBuckets _ that) _ slot
  all_goals simp [initBuckets, allocateBuckets, moveBase, clear, reset,
    setBucket, setTable, setNext, ne, hnt]

variable {store} [DecidableEq K]

/-- The table is well formed and finds the elements, and it goes on to do so in
further calls. -/
def Serves (hash : K → Nat) (keyOf : V → K) (store : HashStore V)
    (table : Nat) (contents : List V) : Prop :=
  ∀ calls, Guarded hash keyOf table calls store → ∃ after chain,
      calls.foldlM (HashStore.step hash keyOf table) store = some after ∧
      after.WellFormed hash keyOf table chain ∧
      (chain.map after.value).Perm
        (calls.foldl (contentsAfter keyOf) contents) ∧
      ∀ what, ∃ found, after.find hash keyOf table what = some found ∧ found.map after.value =
          (calls.foldl (contentsAfter keyOf) contents).find?
            fun val => what = keyOf val

lemma serves_iff {contents : List V} :
    store.Serves hash keyOf table contents ↔ ∃ chain, store.WellFormed hash keyOf table chain ∧
        (chain.map store.value).Perm contents := by
  constructor
  · intro hs
    obtain ⟨after, chain, done, wf, perm, _⟩ := hs [] trivial
    obtain rfl := some.inj done
    exact ⟨chain, wf, perm⟩
  rintro ⟨chain, wf, perm⟩ calls hg
  obtain ⟨after, changed, done, kept, hkp⟩ := WellFormed.run calls store chain contents wf perm hg
  exact ⟨after, changed, done, kept, hkp, kept.find_of_perm hkp⟩

/-- The table is new, or it is one that shares nothing with the other, or the
other itself. -/
def Ready (hash : K → Nat) (keyOf : V → K) (store : HashStore V)
    (table that : Nat) (chain : List Nat) : Transfer → Prop
  | .copyConstruct | .moveConstruct => table ≠ that
  | .copyAssign | .moveAssign =>
    ∃ others, store.WellFormed hash keyOf table others ∧ (0 < (store.tables table).maxLoadNum ∧
        0 < (store.tables table).maxLoadDen) ∧
      (table ≠ that → store.Apart table that others chain)

/-- The table obtained has the elements and goes on to serve, and a table that
was moved from is empty and well formed. -/
def Obtains (hash : K → Nat) (keyOf : V → K) (store : HashStore V)
    (table that : Nat) (chain : List Nat) (op : Transfer) : Prop :=
  ∃ after, store.transfer hash keyOf table that op = some after ∧
    after.Serves hash keyOf table (chain.map store.value) ∧
    (op = .moveConstruct ∨ op = .moveAssign → after.WellFormed hash keyOf that [])

/-- A copy is constructed of a table that has elements, no table is assigned to
itself, and one that is moved is empty. -/
def Transferable (store : HashStore V) (table that : Nat) : Transfer → Prop
  | .copyConstruct => (store.tables that).elementCount ≠ 0
  | .moveConstruct =>
    (store.tables that).elementCount = 0 ∧ (store.tables that).myBuckets ≠ .singularity that
  | .copyAssign => (store.tables that).elementCount = 0 ∨ table ≠ that
  | .moveAssign =>
    (store.tables that).elementCount = 0 ∧
      (table = that ∨ (store.tables that).myBuckets ≠ .singularity that)

lemma insertRange_none (store : HashStore V) (table : Nat) :
    store.insertRange hash keyOf table none = some store := by
  rw [insertRange]
  cases store.nodeCt <;> rfl

section

variable (wf : store.WellFormed hash keyOf that chain)

include wf

lemma copyConstruct_iff (ne : table ≠ that) :
    store.Obtains hash keyOf table that chain .copyConstruct ↔
      (store.tables that).elementCount ≠ 0 := by
  constructor
  · -- The copy of an empty table has no bucket.
    rintro ⟨after, done, hs, _⟩ hem
    obtain rfl := wf.eq_nil_iff.mp hem
    have isEnd : (store.newTable table 0).next (.root that) = none := by
      have hsr : (store.newTable table 0).next (.root that) = store.next (.root that) :=
        update_of_ne (HashLink.root_ne_root ne) _ _
      rw [hsr]
      exact wf.path
    simp only [transfer, hem, isEnd, insertRange_none] at done
    obtain rfl := some.inj done
    obtain ⟨_, kept, _⟩ := serves_iff.mp hs
    have pos := kept.positive
    simp [newTable, setTable] at pos
  intro he
  obtain ⟨after, final, done, kept, perm⟩ := (copying_newTable wf ne
      (Nat.pos_of_ne_zero he)).insertRange
  rw [newTable_value] at perm
  refine ⟨after, done, serves_iff.mpr ⟨final, kept, perm⟩, ?_⟩
  rintro (hm | hm)
  · cases hm
  · cases hm

/-- A copy to itself loses the elements. -/
lemma copyAssign_iff (ready : store.Ready hash keyOf table that chain .copyAssign) :
    store.Obtains hash keyOf table that chain .copyAssign ↔
      (store.tables that).elementCount = 0 ∨ table ≠ that := by
  obtain ⟨others, mine, hml, apart⟩ := ready
  have hnm : Transfer.copyAssign = .moveConstruct ∨ Transfer.copyAssign = .moveAssign → False := by
    rintro (hm | hm)
    · cases hm
    · cases hm
  by_cases same : table = that
  · subst same
    have isEnd : (store.clear table).next (.root table) = none := update_self _ _ _
    have done : store.transfer hash keyOf table table .copyAssign = some (store.clear table) := by
      simp [transfer, isEnd, insertRange_none]
    rw [wf.eq_nil_iff]
    constructor
    · rintro ⟨after, ha, hs, _⟩
      rw [done] at ha
      obtain rfl := some.inj ha
      obtain ⟨_, kept, perm⟩ := serves_iff.mp hs
      obtain rfl := linked_unique _ _ _ wf.clear.path kept.path
      rw [map_nil, nil_perm, map_eq_nil_iff] at perm
      exact .inl perm
    intro isNil
    obtain rfl := isNil.resolve_right fun hns => hns rfl
    exact ⟨_, done, serves_iff.mpr ⟨[], wf.clear, List.Perm.refl _⟩, fun hm => (hnm hm).elim⟩
  refine ⟨fun _ => .inr same, fun _ => ?_⟩
  have hc : store.Copying hash keyOf table that others chain := ⟨mine, wf, apart same, hml⟩
  obtain ⟨after, final, done, kept, perm⟩ := hc.clear.insertRange
  exact ⟨after, done, serves_iff.mpr ⟨final, kept, perm⟩, fun hm => (hnm hm).elim⟩

end

lemma moveConstruct_iff (wf : store.WellFormed hash keyOf that chain) (ne : table ≠ that) :
    store.Obtains hash keyOf table that chain .moveConstruct ↔
      (store.tables that).elementCount = 0 ∧ (store.tables that).myBuckets ≠ .singularity that := by
  have moved : ∀ after, store.transfer hash keyOf table that .moveConstruct = some after →
        store.MovedTo after table that := by
    rintro after done
    obtain rfl := some.inj done
    refine ⟨?_, rfl, ?_, ?_, ?_, ?_, fun idx => ?_, Nat.le_refl _⟩
    iterate 5 simp [reset, setBucket, setTable, setNext, ne]
    have hc := clearsSlots_setBucket ((store.setNext (.root table)
      (store.next (.root that))).setTable table
        { elementCount := (store.tables that).elementCount
          bucketCount := (store.tables that).bucketCount
          afterRootIdx := (store.tables that).afterRootIdx
          myBuckets := (store.tables that).myBuckets }) (.singularity table) 0
    exact hc.trans (clearsSlots_reset _ that) _ idx
  constructor
  · rintro ⟨after, done, hs, _⟩
    exact ((moved after done).wellFormed_iff ne wf).mp (serves_iff.mp hs)
  intro ht
  refine ⟨_, rfl, serves_iff.mpr ?_, fun _ => wellFormed_reset _ _⟩
  exact ((moved _ rfl).wellFormed_iff ne wf).mpr ht

/-- A move is right only of an empty table. -/
lemma moveAssign_iff (wf : store.WellFormed hash keyOf that chain)
    (ready : store.Ready hash keyOf table that chain .moveAssign) :
    store.Obtains hash keyOf table that chain .moveAssign ↔ (store.tables that).elementCount = 0 ∧
        (table = that ∨ (store.tables that).myBuckets ≠ .singularity that) := by
  by_cases same : table = that
  · subst same
    have he : ∀ after, store.transfer hash keyOf table table .moveAssign = some after →
          after.WellFormed hash keyOf table [] := by
      rintro after done
      obtain rfl := some.inj done
      exact wellFormed_initBuckets _ table
    rw [wf.eq_nil_iff]
    constructor
    · rintro ⟨after, done, hs, _⟩
      obtain ⟨copied, kept, perm⟩ := serves_iff.mp hs
      obtain rfl := linked_unique _ _ _ (he after done).path kept.path
      rw [map_nil, nil_perm, map_eq_nil_iff] at perm
      exact ⟨perm, .inl rfl⟩
    rintro ⟨rfl, _⟩
    exact ⟨_, rfl, serves_iff.mpr ⟨[], he _ rfl, List.Perm.refl _⟩, fun _ => he _ rfl⟩
  have moved : ∀ after, store.transfer hash keyOf table that .moveAssign = some after →
        store.MovedTo after table that := by
    rintro after done
    obtain rfl := some.inj done
    exact movedTo_moveAssign store same
  rw [or_iff_right same]
  constructor
  · rintro ⟨after, done, hs, _⟩
    exact ((moved after done).wellFormed_iff same wf).mp (serves_iff.mp hs)
  intro ht
  refine ⟨_, rfl, serves_iff.mpr ?_, fun _ => wellFormed_initBuckets _ _⟩
  exact ((moved _ rfl).wellFormed_iff same wf).mpr ht

/-- A table obtained from another one serves its elements exactly if the other
one can be copied or moved. -/
theorem obtains_iff (op : Transfer) (wellFormed : store.WellFormed hash keyOf that chain)
    (ready : store.Ready hash keyOf table that chain op) :
    store.Obtains hash keyOf table that chain op ↔ store.Transferable table that op := by
  cases op with
  | copyConstruct => exact copyConstruct_iff wellFormed ready
  | moveConstruct => exact moveConstruct_iff wellFormed ready
  | copyAssign => exact copyAssign_iff wellFormed ready
  | moveAssign => exact moveAssign_iff wellFormed ready

theorem obtains_iff_copyOfTwo : ∃ (store : HashStore Nat) (chain : List Nat),
    [Call.insert 5, Call.insert 13].foldlM
        (HashStore.step (fun key : Nat => key) (fun val => val) 1) (eightBuckets 1) = some store ∧
      chain.length = 2 ∧
      store.Obtains (fun key : Nat => key) (fun val => val) 0 1 chain .copyConstruct := by
  have guarded : Guarded (fun key : Nat => key) (fun val : Nat => val) 1
      [Call.insert 5, Call.insert 13] (eightBuckets 1) := by
    refine ⟨fun _ _ => by decide, fun after inserted => ⟨?_, fun _ _ => trivial⟩⟩
    obtain rfl := some.inj inserted
    exact fun _ _ => by decide
  obtain ⟨store, chain, run, wellFormed, perm⟩ := WellFormed.run _ _ [] []
    (wellFormed_newTable _ 1 (by decide)) (List.Perm.refl _) guarded
  have two : chain.length = 2 := by
    simpa [contentsAfter, insertValue] using perm.length_eq
  refine ⟨store, chain, run, two,
    (obtains_iff .copyConstruct wellFormed (show (0 : Nat) ≠ 1 by decide)).mpr ?_⟩
  rw [Transferable, wellFormed.count, two]
  decide

/-- The key is not found after a move, and a lookup in the copy of an empty table
does not return. -/
theorem transfer_loses_lookups : (∃ store after : HashStore Nat,
      HashStore.step (fun key : Nat => key) (fun val => val) 1
        (HashStore.newTable ⟨fun _ => none, fun _ => 0, fun _ _ => none,
          fun _ => { myBuckets := .singularity 0 }, 0, 0⟩ 1 8)
        (.insert 5) = some store ∧
      store.transfer (fun key : Nat => key) (fun val => val) 0 1
        .moveConstruct = some after ∧
      store.find (fun key : Nat => key) (fun val => val) 1 5 = some (some 0) ∧
      after.find (fun key : Nat => key) (fun val => val) 0 5 = some none) ∧
    ∃ after : HashStore Nat, (newTable ⟨fun _ => none, fun _ => 0, fun _ _ => none,
          fun _ => { myBuckets := .singularity 0 }, 0, 0⟩ 1 8).transfer
        (fun key : Nat => key) (fun val => val) 0 1 .copyConstruct = some after ∧
      after.find (fun key : Nat => key) (fun val => val) 0 5 = none :=
  ⟨⟨_, _, rfl, rfl, by decide, by decide⟩, _, rfl, by decide⟩

end HashStore

end OoOS.Libk
