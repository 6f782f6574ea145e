import Mathlib.Tactic.Common

/-!
# `__hashtable`

All nodes of a table are on one chain.  A bucket slot holds the address of the
node base in front of its first node.  Loads are exact here.
-/

namespace OoOS.Libk

universe u v

inductive HashLink where
  | root (table : Nat)
  | node (id : Nat)
  deriving DecidableEq, Repr

inductive BucketsPtr where
  | singularity (table : Nat)
  | array (id size : Nat)
  deriving DecidableEq, Repr

/-- The members of `__hashtable_base` apart from the root and the slot in the
table; the maximal load is a fraction. -/
structure HashTable where
  elementCount : Nat := 0
  bucketCount : Nat := 1
  afterRootIdx : Nat := 0
  myBuckets : BucketsPtr
  maxLoadNum : Nat := 1
  maxLoadDen : Nat := 1

/-- The memory that tables use; `nodeCt` and `arrayCt` are the next addresses
of the allocators. -/
structure HashStore (V : Type v) where
  next : HashLink → Option Nat
  value : Nat → V
  buckets : BucketsPtr → Nat → Option HashLink
  tables : Nat → HashTable
  nodeCt : Nat
  arrayCt : Nat

namespace HashStore

variable {K : Type u} {V : Type v} [DecidableEq K] (store : HashStore V)

def setTable (table : Nat) (members : HashTable) : HashStore V :=
  { store with tables := Function.update store.tables table members }

def setNext (link : HashLink) (next : Option Nat) : HashStore V :=
  { store with next := Function.update store.next link next }

def setBucket (buckets : BucketsPtr) (idx : Nat) (link : Option HashLink) : HashStore V :=
  { store with
    buckets := Function.update store.buckets buckets
      (Function.update (store.buckets buckets) idx link) }

def advanceChain : Option HashLink → Option Nat
  | none => none
  | some link => store.next link

def allocateBuckets (count : Nat) : BucketsPtr × HashStore V :=
  (.array store.arrayCt count,
    { store with
      buckets := Function.update store.buckets
        (.array store.arrayCt count) fun _ => none
      arrayCt := store.arrayCt + 1 })

def createNode (val : V) : Nat × HashStore V :=
  (store.nodeCt,
    { store with
      value := Function.update store.value store.nodeCt val
      nodeCt := store.nodeCt + 1 })

def needRehash (table added : Nat) : Bool :=
  let members := store.tables table
  members.bucketCount < 2 ||
    members.maxLoadNum * members.bucketCount ≤ (members.elementCount + added) * members.maxLoadDen

def nextBucketCt (table added : Nat) : Nat :=
  let members := store.tables table
  let limit := members.maxLoadNum * members.bucketCount
  let load := (members.elementCount + added) * members.maxLoadDen
  max 5 members.bucketCount * (1 + (load + limit - 1) / limit)

def insertAt (table : Nat) (buckets : BucketsPtr) (idx n : Nat) : HashStore V :=
  match store.buckets buckets idx with
  | some prev => (store.setNext (.node n) (store.next prev)).setNext prev (some n)
  | none =>
    let first := store.next (.root table)
    let linked := (store.setNext (.node n) first).setNext (.root table) (some n)
    let repointed :=
      if first.isSome then
        linked.setBucket buckets (store.tables table).afterRootIdx
          (some (.node n))
      else linked
    (repointed.setTable table
      { store.tables table with afterRootIdx := idx }).setBucket buckets idx
        (some (.root table))

def removeFirstAt (table idx : Nat) (nNext : Option Nat) (nextBucket : Nat) : HashStore V :=
  let members := store.tables table
  if nNext.isNone then store.setBucket members.myBuckets idx none
  else if idx ≠ nextBucket then
    let moved := (store.setBucket members.myBuckets nextBucket
      (store.buckets members.myBuckets idx)).setBucket members.myBuckets idx
        none
    if idx = members.afterRootIdx then
      moved.setTable table { members with afterRootIdx := nextBucket }
    else moved
  else store

variable (hash : K → Nat) (keyOf : V → K) (store : HashStore V)

def hashCode (n : Nat) : Nat := hash (keyOf (store.value n))

def range (table code : Nat) : Option Nat :=
  if (store.tables table).bucketCount = 0 then none
  else some (code % (store.tables table).bucketCount)

/-- The loop of `__find_before` and `__get_before`: the link in front of the
node looked for, if it is in the bucket. -/
def scanBucket (bucketCount idx : Nat) (hit : Nat → Bool) : (fuel : Nat) →
    Option HashLink → Option (Option HashLink)
  | 0, _ => none
  | fuel + 1, prev =>
    match store.advanceChain prev with
    | none => some none
    | some n =>
      if idx ≠ store.hashCode hash keyOf n % bucketCount then some none
      else if hit n then some prev
      else scanBucket bucketCount idx hit fuel (some (.node n))

def scan (table code : Nat) (hit : Nat → Bool) : Option (Option HashLink) :=
  match store.range table code with
  | none => none
  | some idx =>
    let members := store.tables table
    store.scanBucket hash keyOf members.bucketCount idx hit
      (members.elementCount + 1) (store.buckets members.myBuckets idx)

def findBefore (table : Nat) (what : K) : Option (Option HashLink) :=
  store.scan hash keyOf table (hash what)
    fun n => what = keyOf (store.value n)

def getBefore (table n : Nat) : Option (Option HashLink) :=
  store.scan hash keyOf table (store.hashCode hash keyOf n) fun p => n = p

def find (table : Nat) (what : K) : Option (Option Nat) :=
  (store.findBefore hash keyOf table what).map store.advanceChain

variable (hash : K → Nat) (keyOf : V → K)

/-- The loop of `__run_rehash`.  The node that was just inserted has a new
successor, and the loop goes on with that one. -/
def rehashLoop (table : Nat) (nbkts : BucketsPtr) (targetCount : Nat) :
    (fuel : Nat) → Option Nat → HashStore V → Option (HashStore V)
  | _, none, store => some store
  | 0, some _, _ => none
  | fuel + 1, some p, store =>
    let inserted := store.insertAt table nbkts
      (store.hashCode hash keyOf p % targetCount) p
    rehashLoop table nbkts targetCount fuel (inserted.next (.node p))
      inserted

def runRehash (store : HashStore V) (table targetCount : Nat) : Option (HashStore V) :=
  let targetCount := if targetCount < 2 then 2 else targetCount
  let (nbkts, allocated) := store.allocateBuckets targetCount
  let orig := store.next (.root table)
  let cleared := (allocated.setTable table
    { store.tables table with afterRootIdx := 0 }).setNext (.root table) none
  match rehashLoop hash keyOf table nbkts targetCount
      ((store.tables table).elementCount + 1) orig cleared with
  | none => none
  | some relinked => some (relinked.setTable table
      { relinked.tables table with
        myBuckets := nbkts, bucketCount := targetCount })

def insertHashed (store : HashStore V) (table code n added : Nat) : Option (HashStore V) :=
  let rehashed :=
    if store.needRehash table added then
      store.runRehash hash keyOf table (store.nextBucketCt table added)
    else some store
  match rehashed with
  | none => none
  | some rehashed =>
    match rehashed.range table code with
    | none => none
    | some idx =>
      let inserted := rehashed.insertAt table (rehashed.tables table).myBuckets idx n
      some (inserted.setTable table
        { inserted.tables table with
          elementCount := (inserted.tables table).elementCount + 1 })

def insertNode (store : HashStore V) (table n added : Nat) : Option ((Nat × Bool) × HashStore V) :=
  match store.find hash keyOf table (keyOf (store.value n)) with
  | none => none
  | some (some p) => some ((p, false), store)
  | some none =>
    match store.insertHashed hash keyOf table
        (store.hashCode hash keyOf n) n added with
    | none => none
    | some inserted => some ((n, true), inserted)

def insert (store : HashStore V) (table : Nat) (val : V) : Option ((Nat × Bool) × HashStore V) :=
  let (n, created) := store.createNode val
  created.insertNode hash keyOf table n 1

def eraseNode (store : HashStore V) (table idx : Nat) (prev : HashLink)
    (n : Nat) : Option Nat × HashStore V :=
  let members := store.tables table
  let nNext := store.next (.node n)
  let indexOf := fun m => store.hashCode hash keyOf m % members.bucketCount
  let repointed :=
    if some prev = store.buckets members.myBuckets idx then
      store.removeFirstAt table idx nNext ((nNext.map indexOf).getD 0)
    else
      match nNext with
      | none => store
      | some m =>
        if idx ≠ indexOf m then
          store.setBucket members.myBuckets (indexOf m) (some prev)
        else store
  let unlinked := repointed.setNext prev nNext
  (nNext, unlinked.setTable table
    { unlinked.tables table with
      elementCount := (unlinked.tables table).elementCount - 1 })

def eraseBehind (store : HashStore V) (table : Nat)
    (prev : Option HashLink) : Option (Nat × HashStore V) :=
  match prev, store.advanceChain prev with
  | some link, some n =>
    match store.range table (store.hashCode hash keyOf n) with
    | none => none
    | some idx => some (1, (store.eraseNode hash keyOf table idx link n).2)
  | _, _ => some (0, store)

def eraseKey (store : HashStore V) (table : Nat) (what : K) : Option (Nat × HashStore V) :=
  match store.findBefore hash keyOf table what with
  | none => none
  | some prev => store.eraseBehind hash keyOf table prev

def eraseIterator (store : HashStore V) (table n : Nat) : Option (HashStore V) :=
  match store.getBefore hash keyOf table n with
  | none => none
  | some prev =>
    match store.eraseBehind hash keyOf table prev with
    | some (1, erased) => some erased
    | _ => none

def newTable (store : HashStore V) (table ct : Nat) : HashStore V :=
  let cleared := store.setNext (.root table) none
  if ct < 2 then
    (cleared.setBucket (.singularity table) 0 none).setTable table
      { bucketCount := ct, myBuckets := .singularity table }
  else
    let (buckets, allocated) := cleared.allocateBuckets ct
    allocated.setTable table { bucketCount := ct, myBuckets := buckets }

end HashStore

end OoOS.Libk
