import Mathlib.Data.Finset.Card
import OoOS.Lib.BucketChain

/-!
# The hash table of sysfs

Buckets and entries of `sysfs_hash_table` lie in one buffer.  Entries have
numbers from 1 on, and 0 means that there is none.  A loop gives nothing if it
has not ended after `fuel` rounds.
-/

namespace OoOS.Fs.SysfsTable

open List Function Relation Lib.BucketChain

/-- The places that hold the number of an entry: `.entry n` is
`entries()[n - 1].next_in_chain`. -/
inductive Link where
  | bucket (index : Nat)
  | entry (n : Nat)
deriving DecidableEq

structure HashTable (V : Type) where
  numBuckets : Nat
  links : Link → Nat
  objectIndex : Nat → Nat
  numEntries : Nat
  data : Nat → V

variable {K V : Type} [DecidableEq K] (hash : K → Nat) (keyOf : V → K)

namespace HashTable

/-- `entries()[prev - 1].next_in_chain`; the last bucket lies in front of the entries. -/
def linkAt (table : HashTable V) (prev : Nat) : Link :=
  if prev = 0 then .bucket (table.numBuckets - 1) else .entry prev

/-- The loop of `add_entry`, which goes on with `entries()[prev]`. -/
def walk (table : HashTable V) : Nat → Nat → Option Nat
  | 0, _ => none
  | fuel + 1, prev =>
    if table.links (table.linkAt prev) = 0 then some prev
    else table.walk fuel (table.links (.entry (prev + 1)))

def push (table : HashTable V) (objectIndex : Nat) : HashTable V :=
  { table with
    links := update table.links (.entry (table.numEntries + 1)) 0
    objectIndex := update table.objectIndex (table.numEntries + 1) (objectIndex + 1) }

def hang (table : HashTable V) (link : Link) : HashTable V :=
  { table with
    links := update table.links link (table.numEntries + 1)
    numEntries := table.numEntries + 1 }

def place (table : HashTable V) (fuel bucket : Nat) : Option Link :=
  if table.links (.bucket bucket) = 0 then some (.bucket bucket)
  else (table.walk fuel (table.links (.bucket bucket))).map table.linkAt

def addEntry (table : HashTable V) (fuel objectHash objectIndex : Nat) : Option (HashTable V) :=
  ((table.push objectIndex).place fuel (objectHash % table.numBuckets)).map
    (table.push objectIndex).hang

def keyAt (table : HashTable V) (n : Nat) : K := keyOf (table.data (table.objectIndex n - 1))

/-- The loop of `find_value_index` from an entry on; 0 is `nxobj`. -/
def findFrom (table : HashTable V) (key : K) : Nat → Nat → Option Nat
  | 0, _ => none
  | fuel + 1, n =>
    if n = 0 then some 0
    else if table.keyAt keyOf n = key then some (table.objectIndex n)
    else if table.numEntries < table.links (.entry n) then none
    else table.findFrom key fuel (table.links (.entry n))

def findValueIndex (table : HashTable V) (fuel : Nat) (key : K) : Option Nat :=
  table.findFrom keyOf key fuel (table.links (.bucket (hash key % table.numBuckets)))

end HashTable

inductive Op (K V : Type) where
  | add (value : V)
  | find (key : K)

def Op.values : Op K V → List V
  | .add value => [value]
  | .find _ => []

def Op.key : Op K V → K
  | .add value => keyOf value
  | .find key => key

/-- `add` and `find`: both make an entry for a key that is not there. -/
def step (table : HashTable V) (fuel : Nat) (op : Op K V) : Option (HashTable V) := do
  let existing ← table.findValueIndex hash keyOf fuel (op.key keyOf)
  if existing ≠ 0 then return table
  (table.addEntry fuel (hash (op.key keyOf)) table.numEntries).map fun after => match op with
    | .add value => { after with data := update after.data table.numEntries value }
    | .find _ => after

variable (table : HashTable V) (added : List V)

def next (link : Link) : Option Nat :=
  if table.links link = 0 then none else some (table.links link)

def InBucket (bucket n : Nat) : Prop :=
  (0 < n ∧ n ≤ table.numEntries) ∧ hash (table.keyAt keyOf n) % table.numBuckets = bucket

def Chain (bucket : Nat) (chain : List Nat) : Prop :=
  Linked .entry (next table) (.bucket bucket) chain ∧ chain.Nodup ∧
    ∀ n, n ∈ chain ↔ InBucket hash keyOf table bucket n

structure Right : Prop where
  size : table.numEntries = (added.map keyOf).toFinset.card
  found : ∀ key, ∃ fuel n, table.findValueIndex hash keyOf fuel key = some n ∧
    (n ≠ 0 ↔ key ∈ added.map keyOf) ∧
    (n ≠ 0 → added.find? (keyOf · = key) = some (table.data (n - 1)))
  chains : ∀ bucket < table.numBuckets, ∃ chain, Chain hash keyOf table bucket chain

def Correct (table : HashTable V) (added : List V) : List (Op K V) → Prop
  | [] => Right hash keyOf table added
  | op :: ops => Right hash keyOf table added ∧ ∃ fuel after,
      step hash keyOf table fuel op = some after ∧ Correct after (added ++ op.values) ops

/-- From an entry to the successor of its neighbour in the array. -/
def Hop (table : HashTable V) (n m : Nat) : Prop :=
  table.links (table.linkAt n) ≠ 0 ∧ m = table.links (.entry (n + 1))

/-- The entry of a bucket that has no successor is reached by hops. -/
def Reaches (bucket : Nat) : Prop :=
  ∃ last, InBucket hash keyOf table bucket last ∧ table.links (.entry last) = 0 ∧
    ReflTransGen (Hop (table.push table.numEntries)) (table.links (.bucket bucket)) last

def Fits : Op K V → Prop
  | .find key => key ∈ added.map keyOf
  | .add value => keyOf value ∈ added.map keyOf ∨
      table.links (.bucket (hash (keyOf value) % table.numBuckets)) = 0 ∨
      Reaches hash keyOf table (hash (keyOf value) % table.numBuckets)

def Fitting (table : HashTable V) (added : List V) : List (Op K V) → Prop
  | [] => True
  | op :: ops => Fits hash keyOf table added op ∧ ∃ fuel after,
      step hash keyOf table fuel op = some after ∧ Fitting after (added ++ op.values) ops

structure Sound : Prop where
  objectIndex : ∀ n, 0 < n → n ≤ table.numEntries → table.objectIndex n = n
  first : ∀ i < table.numEntries, added.find? (keyOf · = keyOf (table.data i)) = some (table.data i)
  inj : ∀ i < table.numEntries, ∀ j < table.numEntries,
    keyOf (table.data i) = keyOf (table.data j) → i = j
  complete : ∀ value ∈ added, ∃ i < table.numEntries, keyOf (table.data i) = keyOf value
  chains : ∀ bucket < table.numBuckets, ∃ chain, Chain hash keyOf table bucket chain

open HashTable

variable {hash keyOf table added} {key : K} {chain : List Nat} {link : Link} {n : Nat}

lemma next_eq_none : next table link = none ↔ table.links link = 0 := by simp [next]

lemma next_eq_some : next table link = some n ↔ table.links link = n ∧ n ≠ 0 := by
  unfold next
  split <;> grind

lemma findFrom_cases (bounded : ∀ n ∈ chain, n ≤ table.numEntries) (fuel : Nat) :
    ∀ link, Linked .entry (next table) link chain →
      table.findFrom keyOf key fuel (table.links link) =
          some (((chain.find? (table.keyAt keyOf · = key)).map table.objectIndex).getD 0) ∨
        table.findFrom keyOf key fuel (table.links link) = none ∧ fuel ≤ chain.length := by
  induction chain generalizing fuel with
  | nil =>
    intro link linked
    cases fuel with
    | zero => exact .inr ⟨rfl, le_refl _⟩
    | succ fuel => simp [findFrom, next_eq_none.mp linked]
  | cons n rest ih =>
    intro link linked
    cases fuel with
    | zero => exact .inr ⟨rfl, Nat.zero_le _⟩
    | succ fuel =>
      obtain ⟨isEntry, h0⟩ := next_eq_some.mp linked.1
      have within : table.links (.entry n) ≤ table.numEntries := by
        cases rest with
        | nil => simp [next_eq_none.mp linked.2]
        | cons m rest => exact (next_eq_some.mp linked.2.1).1 ▸ bounded m (by simp)
      by_cases isKey : table.keyAt keyOf n = key
      · simp [findFrom, isEntry, h0, isKey]
      have := ih (forall_mem_cons.mp bounded).2 fuel _ linked.2
      simpa [findFrom, isEntry, h0, isKey, Nat.not_lt.mpr within] using this

namespace Sound

variable (sound : Sound hash keyOf table added)

include sound

lemma find_cases (buckets : 0 < table.numBuckets) (key : K) :
    ∃ n, (key ∉ added.map keyOf ∧ n = 0 ∨
        0 < n ∧ n ≤ table.numEntries ∧ keyOf (table.data (n - 1)) = key) ∧
      ∃ bound, ∀ fuel, table.findValueIndex hash keyOf fuel key = some n ∨
        table.findValueIndex hash keyOf fuel key = none ∧ fuel ≤ bound := by
  obtain ⟨chain, linked, -, members⟩ := sound.chains _ (Nat.mod_lt (hash key) buckets)
  refine ⟨_, ?_, chain.length,
    fun fuel => findFrom_cases (fun n isIn => ((members n).mp isIn).1.2) fuel _ linked⟩
  cases first : chain.find? (table.keyAt keyOf · = key) with
  | some n =>
    have range := ((members n).mp (mem_of_find?_eq_some first)).1
    have isKey : table.keyAt keyOf n = key := by simpa using find?_some first
    rw [keyAt, sound.objectIndex n range.1 range.2] at isKey
    simpa [sound.objectIndex n range.1 range.2] using .inr ⟨range.1, range.2, isKey⟩
  | none =>
    refine .inl ⟨fun known => ?_, rfl⟩
    obtain ⟨value, isIn, rfl⟩ := mem_map.mp known
    obtain ⟨i, below, isKey⟩ := sound.complete value isIn
    have object := sound.objectIndex (i + 1) (by omega) below
    have inChain : i + 1 ∈ chain :=
      (members _).mpr ⟨⟨by omega, below⟩, by simp [keyAt, object, isKey]⟩
    simpa [keyAt, object, isKey] using find?_eq_none.mp first _ inChain

lemma mem_keys {i : Nat} (inside : i < table.numEntries) :
    keyOf (table.data i) ∈ added.map keyOf :=
  mem_map_of_mem (mem_of_find?_eq_some (sound.first i inside))

lemma right (buckets : 0 < table.numBuckets) :
    Right hash keyOf table added where
  chains := sound.chains
  size := by
    have keys : (added.map keyOf).toFinset =
        (Finset.range table.numEntries).image fun i => keyOf (table.data i) := by
      ext key
      simp only [mem_toFinset, Finset.mem_image, Finset.mem_range]
      constructor
      · intro known
        obtain ⟨value, isIn, rfl⟩ := mem_map.mp known
        exact sound.complete value isIn
      rintro ⟨i, below, rfl⟩
      exact sound.mem_keys below
    rw [keys, Finset.card_image_of_injOn fun i below j hj => sound.inj i (by simpa using below) j
      (by simpa using hj), Finset.card_range]
  found := by
    intro key
    obtain ⟨n, node, bound, finds⟩ := sound.find_cases buckets key
    refine ⟨bound + 1, n, (finds _).resolve_right (by omega), ?_⟩
    rcases node with ⟨new, rfl⟩ | ⟨h0, _, rfl⟩
    · simpa using new
    have below : n - 1 < table.numEntries := by omega
    exact ⟨iff_of_true (by omega) (sound.mem_keys below), fun _ => sound.first _ below⟩

end Sound

variable {bucket fuel last x : Nat}

@[simp]
lemma links_push_bucket (table : HashTable V) (bucket : Nat) :
    (table.push table.numEntries).links (.bucket bucket) = table.links (.bucket bucket) := by
  simp [push]

lemma links_push_entry (inside : n ≤ table.numEntries) :
    (table.push table.numEntries).links (.entry n) = table.links (.entry n) := by
  simp [push, show n ≠ table.numEntries + 1 by omega]

lemma walk_cases (hops : ReflTransGen (Hop table) x last)
    (ends : table.links (table.linkAt last) = 0)
    : ∃ bound, ∀ fuel, table.walk fuel x = some last ∨ table.walk fuel x = none ∧ fuel ≤ bound := by
  induction hops using ReflTransGen.head_induction_on with
  | refl =>
    refine ⟨0, fun fuel => ?_⟩
    cases fuel <;> simp [walk, ends]
  | head hop _ ih =>
    obtain ⟨bound, walks⟩ := ih
    refine ⟨bound + 1, fun fuel => ?_⟩
    cases fuel with
    | zero => exact .inr ⟨rfl, Nat.zero_le _⟩
    | succ fuel => simpa [walk, hop.1, ← hop.2] using walks fuel

lemma hops_of_walk (walked : table.walk fuel x = some last) :
    ReflTransGen (Hop table) x last ∧ table.links (table.linkAt last) = 0 := by
  induction fuel generalizing x with
  | zero => cases walked
  | succ fuel ih =>
    rw [walk] at walked
    split at walked
    · obtain rfl := Option.some.inj walked
      exact ⟨.refl, by assumption⟩
    obtain ⟨hops, ends⟩ := ih walked
    exact ⟨.head ⟨by assumption, rfl⟩ hops, ends⟩

lemma lastLink_of_end : ∀ {link}, Linked .entry (next table) link chain → n ∈ chain →
    table.links (.entry n) = 0 → lastLink .entry link chain = .entry n := by
  induction chain with
  | nil => nofun
  | cons _ rest ih =>
    intro link linked isIn ends
    rcases mem_cons.mp isIn with rfl | isIn
    · cases rest with
      | nil => rfl
      | cons m rest =>
        exact absurd ends ((next_eq_some.mp linked.2.1).1 ▸ (next_eq_some.mp linked.2.1).2)
    · exact ih linked.2 isIn ends

omit [DecidableEq K] in
lemma place_of_mem (isChain : Chain hash keyOf table bucket chain)
    (placed : (table.push table.numEntries).place fuel bucket = some link)
    (mem : link ∈ .bucket bucket :: chain.map .entry) :
    table.links (.bucket bucket) = 0 ∨ Reaches hash keyOf table bucket := by
  by_cases h0 : table.links (.bucket bucket) = 0
  · exact .inl h0
  rw [place, links_push_bucket, if_neg h0, Option.map_eq_some_iff] at placed
  obtain ⟨_, walked, rfl⟩ := placed
  obtain ⟨hops, ends⟩ := hops_of_walk walked
  rcases mem_cons.mp mem with isLink | isLink
  · rw [isLink, links_push_bucket] at ends
    exact absurd ends h0
  obtain ⟨n, isIn, isLink⟩ := mem_map.mp isLink
  have range := (isChain.2.2 n).mp isIn
  rw [← isLink, links_push_entry range.1.2] at ends
  unfold linkAt at isLink
  split at isLink <;> cases isLink
  exact .inr ⟨_, range, ends, hops⟩

omit [DecidableEq K] in
lemma place_cases (isChain : Chain hash keyOf table bucket chain)
    (fits : table.links (.bucket bucket) = 0 ∨ Reaches hash keyOf table bucket) :
    ∃ bound, ∀ fuel, (table.push table.numEntries).place fuel bucket =
        some (lastLink .entry (.bucket bucket) chain) ∨
      (table.push table.numEntries).place fuel bucket = none ∧ fuel ≤ bound := by
  by_cases h0 : table.links (.bucket bucket) = 0
  · have : chain = [] := by
      cases chain with
      | nil => rfl
      | cons n _ =>
        exact absurd h0 ((next_eq_some.mp isChain.1.1).1 ▸ (next_eq_some.mp isChain.1.1).2)
    refine ⟨0, fun fuel => .inl ?_⟩
    rw [place, links_push_bucket, if_pos h0, this, lastLink]
  obtain ⟨last, range, ends, hops⟩ := fits.resolve_left h0
  have entry : (table.push table.numEntries).linkAt last = .entry last :=
    if_neg (Nat.pos_iff_ne_zero.mp range.1.1)
  obtain ⟨bound, walks⟩ := walk_cases hops (by rw [entry, links_push_entry range.1.2, ends])
  refine ⟨bound, fun fuel => ?_⟩
  rw [place, links_push_bucket, if_neg h0, lastLink_of_end isChain.1 ((isChain.2.2 last).mpr range)
    ends]
  rcases walks fuel with h | ⟨h, few⟩
  · exact .inl (by rw [h, Option.map_some, entry])
  · exact .inr ⟨by rw [h, Option.map_none], few⟩

def grown (table : HashTable V) (value : V) (link : Link) : HashTable V :=
  { (table.push table.numEntries).hang link with
    data := update table.data table.numEntries value }

variable {value : V}

lemma next_grown (table : HashTable V) (value : V) (link : Link) :
    next (grown table value link) = update (update (next table)
      (.entry (table.numEntries + 1)) none) link (some (table.numEntries + 1)) := by
  funext other
  simp only [next, grown, hang, push, update_apply]
  grind

lemma inBucket_grown (sound : Sound hash keyOf table added) :
    InBucket hash keyOf (grown table value link) bucket n ↔ InBucket hash keyOf table bucket n ∨
        n = table.numEntries + 1 ∧ hash (keyOf value) % table.numBuckets = bucket := by
  have object := sound.objectIndex n
  simp only [InBucket, keyAt, grown, hang, push, update_apply]
  grind

omit [DecidableEq K] in
lemma nodup_links (isChain : Chain hash keyOf table bucket chain) :
    (.bucket bucket :: chain.map Link.entry).Nodup :=
  nodup_cons.mpr ⟨by simp, isChain.2.1.map fun _ _ => Link.entry.inj⟩

omit [DecidableEq K] in
lemma entry_notMem (isChain : Chain hash keyOf table bucket chain) :
    .entry (table.numEntries + 1) ∉ .bucket bucket :: chain.map Link.entry := by
  intro isIn
  have := ((isChain.2.2 (table.numEntries + 1)).mp (by simpa using isIn)).1.2
  omega

omit [DecidableEq K] in
lemma linked_grown (isChain : Chain hash keyOf table bucket chain)
    (notIn : link ∉ .bucket bucket :: chain.map Link.entry) :
    Linked .entry (next (grown table value link)) (.bucket bucket) chain := by
  refine linked_congr chain _ (fun used isUsed => ?_) isChain.1
  have apart : used ≠ link := fun same => notIn (same ▸ isUsed)
  have notNew : used ≠ .entry (table.numEntries + 1) := fun same =>
    entry_notMem isChain (same ▸ isUsed)
  rw [next_grown, update_of_ne apart, update_of_ne notNew]

variable {op : Op K V} {ops : List (Op K V)} {after : HashTable V}

section

variable (sound : Sound hash keyOf table added)

include sound

section

variable (isChain : Chain hash keyOf table (hash (keyOf value) % table.numBuckets) chain)

include isChain

section

variable (isLast : lastLink .entry (.bucket (hash (keyOf value) % table.numBuckets)) chain = link)

include isLast

/-- The other chains stay, and this one gets longer. -/
lemma Sound.chains_grown (below : bucket < table.numBuckets) :
    ∃ chain', Chain hash keyOf (grown table value link) bucket chain' := by
  by_cases same : hash (keyOf value) % table.numBuckets = bucket
  · subst same
    have linked := linked_insert chain [] (by simpa using isChain.1)
      (by simpa using nodup_links isChain)
      (by simpa using entry_notMem isChain)
    have isNext := ((linked_append chain [] _).mp (by simpa using isChain.1)).2
    rw [isNext, isLast] at linked
    refine ⟨chain ++ [table.numEntries + 1], by rwa [next_grown], ?_, fun n => ?_⟩
    · refine nodup_append.mpr ⟨isChain.2.1, nodup_singleton _, fun a isIn b below => ?_⟩
      have := ((isChain.2.2 a).mp isIn).1.2
      rw [mem_singleton.mp below]
      omega
    · rw [inBucket_grown sound, mem_append, isChain.2.2, mem_singleton, and_iff_left rfl]
  have last := lastLink_mem Link.entry chain (.bucket (hash (keyOf value) % table.numBuckets))
  rw [isLast] at last
  obtain ⟨others, linked⟩ := sound.chains bucket below
  refine ⟨others, linked_grown linked fun isUsed => ?_, linked.2.1, fun n => ?_⟩
  · rcases mem_cons.mp last with rfl | last
    · exact same (by simpa using isUsed)
    obtain ⟨n, isIn, rfl⟩ := mem_map.mp last
    exact same (((isChain.2.2 n).mp isIn).2.symm.trans
      ((linked.2.2 n).mp (by simpa using isUsed)).2)
  rw [inBucket_grown sound, linked.2.2]
  exact ⟨.inl, fun sound => sound.resolve_right fun sound => same sound.2⟩

lemma Sound.grown (new : keyOf value ∉ added.map keyOf) :
    Sound hash keyOf (grown table value link) (added ++ [value]) := by
  have differs : ∀ i < table.numEntries, keyOf (table.data i) ≠ keyOf value :=
    fun i below same => new (same ▸ sound.mem_keys below)
  have notFound : added.find? (keyOf · = keyOf value) = none :=
    find?_eq_none.mpr fun other isIn => by
      simpa using fun same : keyOf other = keyOf value => new (same ▸ mem_map_of_mem isIn)
  refine ⟨?_, ?_, ?_, ?_, fun bucket => sound.chains_grown isChain isLast⟩ <;>
    simp only [SysfsTable.grown, hang, push, update_apply]
  · intro n h0 _
    have := sound.objectIndex n h0
    grind
  · intro i below
    rw [find?_append]
    split
    · simp [notFound]
    rw [sound.first i (by omega)]
    rfl
  · intro i below j _
    have := sound.inj i
    grind
  · intro other isIn
    rcases mem_append.mp isIn with isIn | isIn
    · obtain ⟨i, below, same⟩ := sound.complete other isIn
      exact ⟨i, by omega, by rw [if_neg (by omega), same]⟩
    · exact ⟨table.numEntries, by omega, by rw [if_pos rfl, mem_singleton.mp isIn]⟩

end

lemma mem_of_right (buckets : 0 < table.numBuckets)
    (right : Right hash keyOf (grown table value link) (added ++ [value])) :
    link ∈ .bucket (hash (keyOf value) % table.numBuckets) :: chain.map Link.entry := by
  by_contra notIn
  obtain ⟨chain', linked, -, members⟩ := right.chains _ (Nat.mod_lt (hash (keyOf value)) buckets)
  obtain rfl := linked_unique _ _ _ (linked_grown isChain notIn) linked
  have isIn := (members (table.numEntries + 1)).mpr ((inBucket_grown sound).mpr (.inr ⟨rfl, rfl⟩))
  exact entry_notMem isChain (mem_cons_of_mem _ (mem_map_of_mem isIn))

end

lemma Sound.append_known
    (isKnown : op.key keyOf ∈ added.map keyOf) : Sound hash keyOf table (added ++ op.values) := by
  cases op with
  | find key => simpa [Op.values] using sound
  | add value =>
    refine ⟨sound.objectIndex, fun i below => ?_, sound.inj, fun other isIn => ?_, sound.chains⟩
    · rw [find?_append, sound.first i below, Option.some_or]
    rcases mem_append.mp isIn with isIn | isIn
    · exact sound.complete other isIn
    obtain ⟨known, mem, same⟩ : ∃ known ∈ added, keyOf known = keyOf value := mem_map.mp isKnown
    rw [mem_singleton.mp isIn, ← same]
    exact sound.complete known mem

section

variable (buckets : 0 < table.numBuckets)

include buckets

lemma step_cases (op : Op K V) :
    ∃ bound, ∀ fuel, step hash keyOf table fuel op = none ∧ fuel ≤ bound ∨
      step hash keyOf table fuel op = if op.key keyOf ∈ added.map keyOf then some table else
        ((table.push table.numEntries).place fuel
          (hash (op.key keyOf) % table.numBuckets)).map fun link => match op with
            | .add value => grown table value link
            | .find _ => (table.push table.numEntries).hang link := by
  obtain ⟨n, node, bound, finds⟩ := sound.find_cases buckets (op.key keyOf)
  refine ⟨bound, fun fuel => ?_⟩
  rcases finds fuel with finds | ⟨finds, few⟩
  · refine .inr ?_
    rcases node with ⟨isKey, rfl⟩ | ⟨h0, few, isKey⟩
    · rw [if_neg isKey]
      simp only [step, finds, addEntry, Option.map_map]
      cases op <;> rfl
    have : op.key keyOf ∈ added.map keyOf := isKey ▸ sound.mem_keys (by omega)
    simp [step, finds, this, Nat.pos_iff_ne_zero.mp h0]
  · exact .inl ⟨by simp [step, finds], few⟩

lemma fits_of_right (stepped : step hash keyOf table fuel op = some after)
    (right : Right hash keyOf after (added ++ op.values)) : Fits hash keyOf table added op := by
  obtain ⟨_, result⟩ := step_cases sound buckets op
  by_cases known : op.key keyOf ∈ added.map keyOf
  · cases op with
    | add value => exact .inl known
    | find key => exact known
  rcases result fuel with ⟨stuck, -⟩ | result
  · cases stuck.symm.trans stepped
  rw [stepped, if_neg known, eq_comm, Option.map_eq_some_iff] at result
  obtain ⟨_, placed, rfl⟩ := result
  cases op with
  | add value =>
    obtain ⟨_, chain⟩ := sound.chains _ (Nat.mod_lt (hash (keyOf value)) buckets)
    exact .inr (place_of_mem chain placed (mem_of_right sound chain buckets right))
  | find key =>
    have hsize := right.size
    rw [show added ++ (Op.find key : Op K V).values = added from append_nil _,
      ← (sound.right buckets).size] at hsize
    exact absurd hsize (Nat.succ_ne_self _)

lemma sound_of_fits (fits : Fits hash keyOf table added op) :
    ∃ bound, ∀ fuel, step hash keyOf table fuel op = none ∧ fuel ≤ bound ∨
      ∃ after, step hash keyOf table fuel op = some after ∧
        after.numBuckets = table.numBuckets ∧ Sound hash keyOf after (added ++ op.values) := by
  obtain ⟨bound, steps⟩ := step_cases sound buckets op
  by_cases known : op.key keyOf ∈ added.map keyOf
  · refine ⟨bound, fun fuel => (steps fuel).imp_right fun steps =>
      ⟨table, ?_, rfl, sound.append_known known⟩⟩
    rw [steps, if_pos known]
  cases op with
  | find key => exact absurd fits known
  | add value =>
    obtain ⟨_, chain⟩ := sound.chains _ (Nat.mod_lt (hash (keyOf value)) buckets)
    obtain ⟨bound', places⟩ := place_cases chain (fits.resolve_left known)
    refine ⟨max bound bound', fun fuel => ?_⟩
    rcases steps fuel with ⟨stuck, few⟩ | steps
    · exact .inl ⟨stuck, by omega⟩
    rw [steps, if_neg known]
    rcases places fuel with places | ⟨places, few⟩
    · exact .inr ⟨_, congrArg _ places, rfl, sound.grown chain rfl known⟩
    · exact .inl ⟨congrArg _ places, by omega⟩

end

end

/-- The values lie in the table in the order of a list, one for each key. -/
structure Stores (hash : K → Nat) (keyOf : V → K) (table : HashTable V) (values : List V) :
    Prop where
  objectIndex : ∀ n, 0 < n → n ≤ table.numEntries → table.objectIndex n = n
  data : (range table.numEntries).map table.data = values
  nodup : (values.map keyOf).Nodup
  chains : ∀ bucket < table.numBuckets, ∃ chain, Chain hash keyOf table bucket chain

namespace Stores

variable {values : List V} (stores : Stores hash keyOf table values)

include stores

omit [DecidableEq K] in
lemma getElem?_eq {i : Nat} (stored : i < table.numEntries) : values[i]? = some (table.data i) := by
  rw [← stores.data, getElem?_map, getElem?_range stored]
  rfl

omit [DecidableEq K] in
lemma length_eq : values.length = table.numEntries := by
  rw [← stores.data, length_map, length_range]

omit [DecidableEq K] in
lemma eq_of_keyOf_eq {i j : Nat} (first : i < table.numEntries) (second : j < table.numEntries)
    (same : keyOf (table.data i) = keyOf (table.data j)) : i = j := by
  have keys {n : Nat} (stored : n < table.numEntries) :
      (values.map keyOf)[n]? = some (keyOf (table.data n)) := by
    rw [getElem?_map, stores.getElem?_eq stored]
    rfl
  refine (getElem?_inj ?_ stores.nodup).mp ?_
  · rw [length_map, stores.length_eq]
    exact first
  · rw [keys first, keys second, same]

/-- The first value of a key is the one that lies in the table. -/
lemma findIdx?_eq {i : Nat} (stored : i < table.numEntries) :
    values.findIdx? (keyOf · = keyOf (table.data i)) = some i := by
  have value {n : Nat} (short : n < values.length) : values[n] = table.data n :=
    Option.some.inj (by
      rw [← getElem?_eq_getElem short, stores.getElem?_eq (stores.length_eq ▸ short)])
  have inside : i < values.length := stores.length_eq ▸ stored
  refine findIdx?_eq_some_iff_getElem.mpr ⟨inside, by simp [value inside], fun j before => ?_⟩
  have earlier : j < values.length := by omega
  simp only [value earlier, decide_eq_true_eq]
  intro same
  have := stores.eq_of_keyOf_eq (stores.length_eq ▸ earlier) stored same
  omega

lemma sound : Sound hash keyOf table values where
  objectIndex := stores.objectIndex
  first := by
    intro i stored
    rw [find?_eq_bind_findIdx?_getElem?, stores.findIdx?_eq stored]
    exact stores.getElem?_eq stored
  inj := fun i first j second => stores.eq_of_keyOf_eq first second
  complete := by
    intro value listed
    obtain ⟨i, short, rfl⟩ := mem_iff_getElem.mp listed
    have stored : i < table.numEntries := stores.length_eq ▸ short
    refine ⟨i, stored, congrArg keyOf (Option.some.inj ?_)⟩
    rw [← stores.getElem?_eq stored, getElem?_eq_getElem short]
  chains := stores.chains

/-- Both numbers are those of the values from 1 on; 0 is that there is none. -/
lemma findValueIndex_eq (buckets : 0 < table.numBuckets) (key : K) :
    ∃ bound, ∀ fuel, table.findValueIndex hash keyOf fuel key =
        some (((values.findIdx? (keyOf · = key)).map (· + 1)).getD 0) ∨
      table.findValueIndex hash keyOf fuel key = none ∧ fuel ≤ bound := by
  obtain ⟨n, number, bound, found⟩ := stores.sound.find_cases buckets key
  refine ⟨bound, ?_⟩
  have number_eq : ((values.findIdx? (keyOf · = key)).map (· + 1)).getD 0 = n := by
    rcases number with ⟨unknown, rfl⟩ | ⟨positive, inside, rfl⟩
    · have none : values.findIdx? (keyOf · = key) = none := by
        rw [findIdx?_eq_none_iff]
        intro value listed
        exact decide_eq_false fun same => unknown (same ▸ mem_map_of_mem listed)
      rw [none]
      rfl
    rw [stores.findIdx?_eq (by omega)]
    exact Nat.sub_add_cancel positive
  rw [number_eq]
  exact found

lemma append (new : keyOf value ∉ values.map keyOf)
    (isChain : Chain hash keyOf table (hash (keyOf value) % table.numBuckets) chain) :
    Stores hash keyOf (grown table value
      (lastLink .entry (.bucket (hash (keyOf value) % table.numBuckets)) chain))
      (values ++ [value]) := by
  have sound := stores.sound.grown isChain rfl new
  refine ⟨sound.objectIndex, ?_, ?_, sound.chains⟩
  · simp only [grown, hang, push, range_succ, map_append, map_cons, map_nil,
      update_self]
    congr 1
    rw [← stores.data]
    refine map_congr_left fun i listed => update_of_ne ?_ _ _
    exact (mem_range.mp listed).ne
  · rw [map_append, nodup_append]
    refine ⟨stores.nodup, by simp, fun old listed key isNew same => new ?_⟩
    rw [mem_singleton.mp isNew] at same
    exact same ▸ listed

/-- A new value that finds its chain is stored behind the others. -/
lemma add (buckets : 0 < table.numBuckets) (new : keyOf value ∉ values.map keyOf)
    (fits : Fits hash keyOf table values (.add value)) :
    ∃ after, after.numBuckets = table.numBuckets ∧ Stores hash keyOf after (values ++ [value]) ∧
      ∃ bound, ∀ fuel, step hash keyOf table fuel (.add value) = some after ∨
        step hash keyOf table fuel (.add value) = none ∧ fuel ≤ bound := by
  obtain ⟨chain, chain'⟩ := stores.chains _ (Nat.mod_lt (hash (keyOf value)) buckets)
  obtain ⟨searched, steps⟩ := step_cases stores.sound buckets (.add value)
  obtain ⟨walked, places⟩ := place_cases chain' (fits.resolve_left new)
  refine ⟨grown table value _, rfl, stores.append new chain', max searched walked, fun fuel => ?_⟩
  rcases steps fuel with ⟨stopped, short⟩ | stepped
  · exact .inr ⟨stopped, by omega⟩
  rw [stepped, if_neg (show (Op.add value).key keyOf ∉ _ from new)]
  rcases places fuel with placed | ⟨stopped, short⟩
  · exact .inl (congrArg _ placed)
  · exact .inr ⟨congrArg _ stopped, by omega⟩

/-- Values that find their chains are stored in their order. -/
lemma addAll (buckets : 0 < table.numBuckets) {more : List V}
    (distinct : ((values ++ more).map keyOf).Nodup)
    (fits : Fitting hash keyOf table values (more.map .add)) :
    ∃ after, Stores hash keyOf after (values ++ more) ∧ after.numBuckets = table.numBuckets ∧
      ∃ bound, ∀ fuel, bound < fuel →
        more.foldlM (fun table value => step hash keyOf table fuel (.add value)) table =
          some after := by
  induction more generalizing table values with
  | nil => exact ⟨table, by simpa using stores, rfl, 0, fun _ _ => rfl⟩
  | cons value more ih =>
    obtain ⟨fits, fuel, next, stepped, later⟩ := fits
    have new : keyOf value ∉ values.map keyOf := by
      rw [map_append, map_cons] at distinct
      exact fun known => (nodup_append.mp distinct).2.2 _ known _ mem_cons_self rfl
    obtain ⟨after, sameBuckets, storesAfter, bound, steps⟩ := stores.add buckets new fits
    obtain rfl : next = after := by
      rcases steps fuel with done | ⟨stopped, -⟩
      · exact Option.some.inj (stepped.symm.trans done)
      · cases stepped.symm.trans stopped
    obtain ⟨final, storesFinal, finalBuckets, finalBound, run⟩ :=
      ih storesAfter (sameBuckets ▸ buckets)
        (by rwa [append_assoc, singleton_append]) later
    rw [append_assoc, singleton_append] at storesFinal
    refine ⟨final, storesFinal, finalBuckets.trans sameBuckets, max bound finalBound,
      fun fuel enough => ?_⟩
    rw [foldlM_cons, (steps fuel).resolve_right (by omega)]
    exact run fuel (by omega)

end Stores

omit [DecidableEq K] in
lemma stores_nil (none : table.numEntries = 0)
    (empty : ∀ bucket < table.numBuckets, table.links (.bucket bucket) = 0) :
    Stores hash keyOf table [] := by
  refine ⟨by omega, by rw [none]; rfl, nodup_nil, fun bucket inside => ⟨[], ?_, nodup_nil, ?_⟩⟩
  · exact next_eq_none.mpr (empty bucket inside)
  simp only [InBucket, not_mem_nil, false_iff]
  omega

lemma Correct.right (correct : Correct hash keyOf table added ops) :
    Right hash keyOf table added := by
  cases ops with
  | nil => exact correct
  | cons _ ops => exact correct.1

lemma correct_iff_of_sound (sound : Sound hash keyOf table added) (buckets : 0 < table.numBuckets) :
    Correct hash keyOf table added ops ↔ Fitting hash keyOf table added ops := by
  induction ops generalizing table added with
  | nil => exact iff_of_true (sound.right buckets) trivial
  | cons op ops ih =>
    have next : ∀ {fuel after}, Fits hash keyOf table added op →
        step hash keyOf table fuel op = some after →
        after.numBuckets = table.numBuckets ∧ Sound hash keyOf after (added ++ op.values) := by
      intro fuel after fits stepped
      obtain ⟨_, result⟩ := sound_of_fits sound buckets fits
      rcases result fuel with ⟨stuck, -⟩ | ⟨_, result, same, sound'⟩
      · cases stuck.symm.trans stepped
      obtain rfl := Option.some.inj (stepped.symm.trans result)
      exact ⟨same, sound'⟩
    constructor
    · rintro ⟨-, fuel, after, stepped, later⟩
      have fits := fits_of_right sound buckets stepped later.right
      have kept := next fits stepped
      exact ⟨fits, fuel, after, stepped, (ih kept.2 (kept.1 ▸ buckets)).mp later⟩
    rintro ⟨fits, fuel, after, stepped, later⟩
    have kept := next fits stepped
    exact ⟨sound.right buckets, fuel, after, stepped, (ih kept.2 (kept.1 ▸ buckets)).mpr later⟩

theorem table_correct_iff (hash : K → Nat) (keyOf : V → K) (table : HashTable V)
    (buckets : 0 < table.numBuckets) (noEntries : table.numEntries = 0) (ops : List (Op K V)) :
    Correct hash keyOf table [] ops ↔
      (∀ bucket < table.numBuckets, table.links (.bucket bucket) = 0) ∧
        Fitting hash keyOf table [] ops := by
  constructor
  · intro h
    have h0 : ∀ bucket < table.numBuckets, table.links (.bucket bucket) = 0 := by
      intro bucket below
      obtain ⟨chain, linked, -, members⟩ := h.right.chains bucket below
      cases chain with
      | nil => exact next_eq_none.mp linked
      | cons n _ =>
        have := ((members n).mp mem_cons_self).1
        omega
    exact ⟨h0, (correct_iff_of_sound (stores_nil noEntries h0).sound buckets).mp h⟩
  rintro ⟨h0, fits⟩
  exact (correct_iff_of_sound (stores_nil noEntries h0).sound buckets).mpr fits

def twoBuckets : HashTable Nat := ⟨2, fun _ => 0, fun _ => 0, 0, fun _ => 0⟩

/-- A key in each of two buckets, and a lookup. -/
theorem table_correct_iff_twoKeys : 0 < twoBuckets.numBuckets ∧ twoBuckets.numEntries = 0 ∧
    Correct id id twoBuckets [] [.add 1, .add 2, .find 1] := by
  refine ⟨by decide, rfl, (table_correct_iff id id twoBuckets (by decide) rfl _).mpr
    ⟨fun _ _ => rfl, ?_⟩⟩
  exact ⟨.inr (.inl rfl), 1, _, rfl, .inr (.inl rfl), 1, _, rfl, .head _, 2, _, rfl, trivial⟩

/-- Three keys in the first of two buckets: the third is put into the second bucket. -/
theorem not_correct_threeKeys :
    ¬ Correct (fun _ => 0) id twoBuckets [] [.add 1, .add 2, .add 3] := by
  rintro ⟨-, f₁, t₁, h₁, -, f₂, t₂, h₂, -, f₃, t₃, h₃, right⟩
  -- Each call returns once it has fuel enough for the search.
  rcases f₁ with _ | f₁
  · cases h₁
  obtain rfl := Option.some.inj h₁
  rcases f₂ with _ | _ | f₂
  · cases h₂
  · cases h₂
  obtain rfl := Option.some.inj h₂
  rcases f₃ with _ | _ | _ | f₃
  · cases h₃
  · cases h₃
  · cases h₃
  obtain rfl := Option.some.inj h₃
  obtain ⟨chain, linked, -, members⟩ := right.chains 0 (by decide)
  obtain rfl : chain = [1, 2] := linked_unique _ _ _ linked ⟨rfl, rfl, rfl⟩
  exact absurd ((members 3).mpr ⟨by decide, rfl⟩) (by decide)

end OoOS.Fs.SysfsTable
