import Mathlib.Data.List.Induction
import Mathlib.Tactic.Ring

/-!
# Extent trees of sysfs

A branch has seven entries, which are extents or numbers of other branches.  A
tree grows at its root.
-/

namespace OoOS.Fs.Sysfs

open List Option Nat

structure Extent where
  ordinal : Nat := 0
  length : Nat := 0
  start : Nat := 0
  deriving DecidableEq

def unused (count : Nat) : List Extent := List.replicate count {}

structure Branch where
  depth : Nat := 0
  entries : List Extent := unused 7
  checksum : Nat := 0
  deriving DecidableEq

/-- The branches of the extents file, the blocks of the data file, and the root in
the inode. -/
structure ExtentTree where
  branches : List Branch
  blocks : Nat
  rootDepth : Nat := 0
  root : Extent := {}
  total : Nat := 0

section

variable (crc : Nat → List Extent → Nat)

def Branch.stamp (b : Branch) : Branch := { b with checksum := crc b.depth b.entries }

def Branch.set (b : Branch) (i : Nat) (e : Extent) : Branch :=
  { b with entries := b.entries.set i e }

def getBranch (branches : List Branch) : Nat → Option Branch
  | 0 => none
  | n + 1 => branches[n]?

def putBranch (branches : List Branch) (number : Nat) (b : Branch) : List Branch :=
  branches.set (number - 1) b

/-- `sysfs::next_available_extent_entry`: it throws, finds none, or gives a
branch and a position in it. -/
def nextAvailable (branches : List Branch) : Nat → Nat → Option (Option (Nat × Nat))
  | 0, _ => none
  | fuel + 1, number =>
    match getBranch branches number with
    | none => none
    | some b =>
      match b.entries.findIdx? (·.start = 0) with
      | none => some none
      | some i =>
        if b.depth = 0 ∨ i = 0 then some (some (number, i))
        else
          match nextAvailable branches fuel (b.entries.getD (i - 1) {}).start with
          | none => none
          | some none => some (some (number, i))
          | found => found

def extendToLeaf (ordinal : Nat) : Nat → List Branch → Nat → Option (List Branch × Nat)
  | 0, _, _ => none
  | fuel + 1, branches, number =>
    match getBranch branches number with
    | none => none
    | some b =>
      if b.depth = 0 then some (branches, number)
      else
        let next := branches.length + 1
        let added := Branch.stamp crc { depth := b.depth - 1 }
        extendToLeaf ordinal fuel
          (putBranch (branches ++ [added]) number (b.set 0 ⟨ordinal, 0, next⟩))
          next

namespace ExtentTree

variable (t : ExtentTree)

def overflowRoot : ExtentTree :=
  { t with
    branches := t.branches ++ [Branch.stamp crc
        { depth := t.rootDepth, entries := t.root :: unused 6 }]
    rootDepth := t.rootDepth + 1
    root := { t.root with start := t.branches.length + 1 } }

/-- `__next_leaf_branch`, with `__stored_leaf_index`.  The extents file grows by
zeros. -/
def nextLeafBranch : Option (ExtentTree × Nat × Nat) :=
  match nextAvailable t.branches (t.rootDepth + 1) t.root.start with
  | none => none
  | some (some (number, i)) =>
    match getBranch t.branches number with
    | none => none
    | some b =>
      if b.depth = 0 then some (t, number, i)
      else
        (extendToLeaf crc t.total (t.rootDepth + 1) t.branches
          (b.entries.getD i {}).start).map fun (branches, leaf) =>
            ({ t with branches := branches }, leaf, 0)
  | some none =>
    let deeper := t.overflowRoot crc
    let added := deeper.branches.length + 1
    let branches := deeper.branches ++ [{}]
    match getBranch branches deeper.root.start with
    | none => none
    | some root =>
      (extendToLeaf crc t.total (deeper.rootDepth + 1)
        (putBranch branches deeper.root.start
          ((root.set 1 ⟨t.total, 0, added⟩).stamp crc)) added).map
            fun (branches, leaf) => ({ deeper with branches := branches }, leaf, 0)

def place (number i : Nat) (e : Extent) : Option ExtentTree :=
  (getBranch t.branches number).map fun b =>
    { t with branches := putBranch t.branches number ((b.set i e).stamp crc) }

/-- `sysfs_extent_tree::push`; the data file grows. -/
def push (n : Nat) : Option ExtentTree :=
  let e : Extent := ⟨t.total, n, t.blocks + 1⟩
  let grown := { t with blocks := t.blocks + n }
  (if t.rootDepth = 0 then
      let deeper := grown.overflowRoot crc
      deeper.place crc deeper.root.start 0 e
    else
      (grown.nextLeafBranch crc).bind fun (tree, number, i) => tree.place crc number i e).map
    fun tree => { tree with total := t.total + n }

def pushAll (ns : List Nat) : Option ExtentTree := ns.foldlM (fun tree n => tree.push crc n) t

end ExtentTree

end

def sumOver (read : Extent → Option Nat) : List Extent → Option Nat
  | [] => some 0
  | e :: rest => (read e).bind fun n => (sumOver read rest).map (n + ·)

def totalExtents (branches : List Branch) : Nat → Nat → Option Nat
  | 0, _ => none
  | fuel + 1, number =>
    match getBranch branches number with
    | none => none
    | some b =>
      if b.depth = 0 then some (b.entries.map Extent.length).sum
      else sumOver (fun e => totalExtents branches fuel e.start) b.entries

namespace ExtentTree

variable (t : ExtentTree)

def reopen : Option Nat :=
  if t.rootDepth = 0 then some t.root.length
  else totalExtents t.branches (t.rootDepth + 1) t.root.start

end ExtentTree

def leaves (branches : List Branch) : Nat → Nat → List Extent
  | 0, _ => []
  | fuel + 1, number =>
    match getBranch branches number with
    | none => []
    | some b =>
      let used := b.entries.filter (·.start ≠ 0)
      if b.depth = 0 then used
      else used.flatMap fun e => leaves branches fuel e.start

/-- The extents that are pushed when the object has `ordinal` blocks and the
data file has `blocks`. -/
def extentsOf (ordinal blocks : Nat) : List Nat → List Extent
  | [] => []
  | n :: ns => ⟨ordinal, n, blocks + 1⟩ :: extentsOf (ordinal + n) (blocks + n) ns

def fresh (branches : List Branch) (blocks : Nat) : ExtentTree :=
  { branches := branches, blocks := blocks }

/-- The checksums are right, the leaves are the extents, and the object can be
opened again. -/
structure ExtentTree.Holds (crc : Nat → List Extent → Nat) (blocks : Nat)
    (ns : List Nat) (t : ExtentTree) : Prop where
  checksums : ∀ b ∈ t.branches, b.checksum = crc b.depth b.entries
  inOrder : leaves t.branches (t.rootDepth + 1) t.root.start = extentsOf 0 blocks ns
  opens : t.reopen = some ns.sum

variable {crc : Nat → List Extent → Nat} {branches : List Branch} {blocks : Nat}

def flat (crc : Nat → List Extent → Nat) (branches : List Branch)
    (blocks : Nat) (ns : List Nat) : ExtentTree where
  branches := branches ++ [Branch.stamp crc
    { entries := extentsOf 0 blocks ns ++ unused (7 - ns.length) }]
  blocks := blocks + ns.sum
  rootDepth := 1
  root := ⟨0, 0, branches.length + 1⟩
  total := ns.sum

variable (ns : List Nat) (n : Nat)

lemma length_extentsOf :
    ∀ ordinal blocks, (extentsOf ordinal blocks ns).length = ns.length := by
  induction ns with
  | nil => intro ordinal blocks; rfl
  | cons n ns ih => intro ordinal blocks; simp [extentsOf, ih]

lemma extentsOf_concat :
    ∀ ordinal blocks, extentsOf ordinal blocks (ns ++ [n]) = extentsOf ordinal blocks ns ++
        [⟨ordinal + ns.sum, n, blocks + ns.sum + 1⟩] := by
  induction ns with
  | nil => intro ordinal blocks; simp [extentsOf]
  | cons _ ns ih =>
    simp [extentsOf, ih, add_assoc]

lemma start_ne_zero_of_mem {ns : List Nat} :
    ∀ {ordinal blocks : Nat} {e : Extent}, e ∈ extentsOf ordinal blocks ns → e.start ≠ 0 := by
  induction ns with
  | nil => intro ordinal blocks e mem; cases mem
  | cons n ns ih =>
    intro ordinal blocks e mem
    rcases mem_cons.mp mem with rfl | later
    · exact succ_ne_zero _
    · exact ih later

lemma sum_length_extentsOf :
    ∀ ordinal blocks, ((extentsOf ordinal blocks ns).map Extent.length).sum = ns.sum := by
  induction ns with
  | nil => intro ordinal blocks; rfl
  | cons n ns ih => intro ordinal blocks; simp [extentsOf, ih]

lemma getBranch_append (branches added : List Branch) (i : Nat) :
    getBranch (branches ++ added) (branches.length + i + 1) = added[i]? := by
  rw [getBranch, getElem?_append_right (le_add_right _ _), Nat.add_sub_cancel_left]

lemma putBranch_append (branches added : List Branch) (i : Nat) (b : Branch) :
    putBranch (branches ++ added) (branches.length + i + 1) b = branches ++ added.set i b := by
  simp [putBranch]

@[simp] lemma getBranch_last (branches : List Branch) (b : Branch) :
    getBranch (branches ++ [b]) (branches.length + 1) = some b :=
  getBranch_append branches [b] 0

@[simp] lemma putBranch_last (branches : List Branch) (b c : Branch) :
    putBranch (branches ++ [b]) (branches.length + 1) c = branches ++ [c] :=
  putBranch_append branches [b] 0 c

variable {b : Branch}

lemma nextAvailable_leaf {number : Nat}
    (present : getBranch branches number = some b) (isLeaf : b.depth = 0) (fuel : Nat) :
    nextAvailable branches (fuel + 1) number =
      some ((b.entries.findIdx? (·.start = 0)).map (number, ·)) := by
  rw [nextAvailable, present]
  cases found : b.entries.findIdx? (·.start = 0) <;> simp [found, isLeaf]

open ExtentTree

lemma push_fresh :
    (fresh branches blocks).push crc n = some (flat crc branches blocks [n]) := by
  simp [push, fresh, overflowRoot, place, flat, Branch.stamp, Branch.set, extentsOf, unused]

lemma findIdx?_unused (ordinal : Nat) {free : Nat} (some_free : 0 < free) :
    (extentsOf ordinal blocks ns ++ unused free).findIdx? (·.start = 0) = some ns.length := by
  have used : (extentsOf ordinal blocks ns).findIdx? (·.start = 0) = none := by
    rw [findIdx?_eq_none_iff]
    intro e mem
    simpa using start_ne_zero_of_mem mem
  obtain ⟨free, rfl⟩ := exists_eq_succ_of_ne_zero some_free.ne'
  simp [findIdx?_append, used, unused, replicate_succ, findIdx?_cons, length_extentsOf]

lemma available_flat :
    nextAvailable (flat crc branches blocks ns).branches 2 (branches.length + 1) = some
        (((extentsOf 0 blocks ns ++ unused (7 - ns.length)).findIdx?
          (·.start = 0)).map (branches.length + 1, ·)) :=
  nextAvailable_leaf (b := Branch.stamp crc
    { entries := extentsOf 0 blocks ns ++ unused (7 - ns.length) })
    (getBranch_last _ _) rfl 1

lemma push_leaf {t : ExtentTree} {number i : Nat} (deep : t.rootDepth ≠ 0)
    (found : nextAvailable t.branches (t.rootDepth + 1) t.root.start = some (some (number, i)))
    (present : getBranch t.branches number = some b) (isLeaf : b.depth = 0) :
    t.push crc n = some
      { t with
        branches := putBranch t.branches number
          ((b.set i ⟨t.total, n, t.blocks + 1⟩).stamp crc)
        blocks := t.blocks + n
        total := t.total + n } := by
  simp [push, if_neg deep, nextLeafBranch, found, present, isLeaf, bind_some, place, map_some]

lemma push_flat (few : ns.length < 7) :
    (flat crc branches blocks ns).push crc n = some (flat crc branches blocks (ns ++ [n])) := by
  have found : (extentsOf 0 blocks ns ++ unused (7 - ns.length)).findIdx?
      (·.start = 0) = some ns.length := findIdx?_unused ns 0 (Nat.sub_pos_of_lt few)
  have he : (extentsOf 0 blocks ns ++ unused (7 - ns.length)).set ns.length
        ⟨ns.sum, n, blocks + ns.sum + 1⟩ =
      extentsOf 0 blocks (ns ++ [n]) ++ unused (7 - (ns ++ [n]).length) := by
    have size := length_extentsOf ns 0 blocks
    have more : 7 - ns.length = 7 - (ns.length + 1) + 1 := by omega
    rw [extentsOf_concat, length_append, length_singleton, more,
      unused, replicate_succ, set_append_right _ _ size.le, size, Nat.sub_self]
    simp [unused]
  have ha : nextAvailable (flat crc branches blocks ns).branches 2 (branches.length + 1) =
        some (some (branches.length + 1, ns.length)) := by
    rw [available_flat, found, map_some]
  rw [push_leaf n one_ne_zero ha (getBranch_last _ _) rfl]
  simp only [flat, putBranch_last, Branch.set, Branch.stamp, he]
  simp [add_assoc]

lemma pushAll_few {ns : List Nat} (some_pushed : ns ≠ []) (few : ns.length ≤ 7) :
    (fresh branches blocks).pushAll crc ns = some (flat crc branches blocks ns) := by
  induction ns using reverseRecOn with
  | nil => exact absurd rfl some_pushed
  | append_singleton ns n ih =>
    rw [pushAll, foldlM_append]
    by_cases empty : ns = []
    · subst empty
      simp [push_fresh]
    rw [length_append, length_singleton] at few
    have hb := ih empty (by omega)
    rw [pushAll] at hb
    rw [hb]
    simp [push_flat ns n (by omega)]

/-- Up to seven blocks are held by one branch. -/
lemma holds_flat {ns : List Nat} (right : ∀ b ∈ branches, b.checksum = crc b.depth b.entries) :
    (flat crc branches blocks ns).Holds crc blocks ns := by
  refine ⟨?_, ?_, ?_⟩
  · intro b mem
    rcases mem_append.mp mem with old | new
    · exact right b old
    rw [mem_singleton.mp new]
    rfl
  · have used : (extentsOf 0 blocks ns).filter (·.start ≠ 0) = extentsOf 0 blocks ns := by
      rw [filter_eq_self]
      intro e mem
      simpa using start_ne_zero_of_mem mem
    have free : (unused (7 - ns.length)).filter (·.start ≠ 0) = [] := by simp [unused]
    simp only [leaves, flat, getBranch_last, Branch.stamp, if_true,
      filter_append, used, free, append_nil]
  have free : ((unused (7 - ns.length)).map Extent.length).sum = 0 := by simp [unused]
  simp only [reopen, totalExtents, flat, getBranch_last,
    Branch.stamp, if_true, map_append, sum_append_nat,
    sum_length_extentsOf, free, one_ne_zero, if_false, add_zero]

variable {t : ExtentTree}

structure TwoLeaves (t : ExtentTree) (e f : Extent) (rest : List Extent)
    (root leaf : Branch) : Prop where
  deep : t.rootDepth ≠ 0
  isRoot : getBranch t.branches t.root.start = some root
  inner : root.depth ≠ 0
  entries : root.entries = e :: f :: {} :: rest
  first : e.start ≠ 0
  second : f.start ≠ 0
  isLeaf : getBranch t.branches f.start = some leaf
  outer : leaf.depth = 0

variable {e f : Extent} {rest : List Extent} {root leaf : Branch}

lemma sumOver_eq_none {read : Extent → Option Nat} {entries : List Extent} {throws : Extent}
    (mem : throws ∈ entries) (throwing : read throws = none) : sumOver read entries = none := by
  induction entries with
  | nil => cases mem
  | cons e entries ih =>
    rcases mem_cons.mp mem with rfl | later
    · rw [sumOver, throwing, bind_none]
    rw [sumOver, ih later]
    cases read e <;> rfl

lemma TwoLeaves.reopen (two : TwoLeaves t e f rest root leaf) : t.reopen = none := by
  have hu : totalExtents t.branches t.rootDepth 0 = none := by cases t.rootDepth <;> rfl
  rw [ExtentTree.reopen, if_neg two.deep, totalExtents, two.isRoot]
  simp only [if_neg two.inner, two.entries]
  exact sumOver_eq_none (show ({} : Extent) ∈ _ by simp) hu

lemma getBranch_putBranch_of_ne {number other : Nat}
    (differs : number ≠ other) (pos : number ≠ 0) :
    getBranch (putBranch branches number b) other = getBranch branches other := by
  cases other with
  | zero => rfl
  | succ other =>
    exact getElem?_set_ne (by omega)

lemma TwoLeaves.available (two : TwoLeaves t e f rest root leaf) :
    nextAvailable t.branches (t.rootDepth + 1) t.root.start =
      some (some ((leaf.entries.findIdx? (·.start = 0)).elim (t.root.start, 2) (f.start, ·))) := by
  obtain ⟨_, hd⟩ := exists_eq_succ_of_ne_zero two.deep
  have hp : root.entries.findIdx? (·.start = 0) = some 2 := by
    simp [two.entries, findIdx?_cons, two.first, two.second]
  have second : root.entries.getD (2 - 1) {} = f := by
    rw [two.entries]
    rfl
  rw [nextAvailable, two.isRoot, hd]
  simp only [hp, two.inner, second, nextAvailable_leaf two.isLeaf two.outer]
  cases leaf.entries.findIdx? (·.start = 0) <;> simp

/-- Two leaves stay two leaves. -/
lemma TwoLeaves.push (two : TwoLeaves t e f rest root leaf) (n : Nat) :
    t.push crc n = none ∨ ∃ after leaf, t.push crc n = some after ∧
        TwoLeaves after e f rest root leaf := by
  have ha := two.available
  cases found : leaf.entries.findIdx? (·.start = 0) with
  | none =>
    left
    rw [found, elim_none] at ha
    have entry : (root.entries.getD 2 {}).start = 0 := by
      rw [two.entries]
      rfl
    simp only [ExtentTree.push, if_neg two.deep, nextLeafBranch,
      ha, two.isRoot, if_neg two.inner, entry]
    rfl
  | some i =>
    right
    rw [found, elim_some] at ha
    rw [push_leaf n two.deep ha two.isLeaf two.outer]
    have apart : f.start ≠ t.root.start := by
      intro same
      have equal := two.isLeaf
      rw [same, two.isRoot] at equal
      exact two.inner (some.inj equal ▸ two.outer)
    refine ⟨_, (leaf.set i ⟨t.total, n, t.blocks + 1⟩).stamp crc, rfl, two.deep,
      ?_, two.inner, two.entries, two.first, two.second, ?_, two.outer⟩
    · exact (getBranch_putBranch_of_ne apart two.second).trans two.isRoot
    obtain ⟨_, hn⟩ := exists_eq_succ_of_ne_zero two.second
    have hp := two.isLeaf
    rw [hn, getBranch] at hp
    have bound := (List.getElem?_eq_some_iff.mp hp).1
    simp [hn, getBranch, putBranch, bound, Branch.set, Branch.stamp]

lemma TwoLeaves.pushAll (ns : List Nat) :
    ∀ {t : ExtentTree} {leaf : Branch}, TwoLeaves t e f rest root leaf →
      ∀ after, t.pushAll crc ns = some after → after.reopen = none := by
  induction ns with
  | nil =>
    intro t leaf two after done
    rw [← some.inj (show some t = some after from done)]
    exact two.reopen
  | cons n ns ih =>
    intro t leaf two after done
    rw [ExtentTree.pushAll, foldlM_cons] at done
    rcases two.push n with ht | ⟨_, leaf, hp, still⟩
    · rw [ht] at done
      cases done
    rw [hp] at done
    exact ih still after done

lemma nextLeafBranch_overflow
    (found : nextAvailable t.branches (t.rootDepth + 1) t.root.start = some none) :
    t.nextLeafBranch crc = some
      ({ t with
          branches := t.branches ++ [((Branch.stamp crc ⟨t.rootDepth, t.root :: unused 6, 0⟩).set 1
              ⟨t.total, 0, t.branches.length + 2⟩).stamp crc, {}]
          rootDepth := t.rootDepth + 1
          root := { t.root with start := t.branches.length + 1 } },
        t.branches.length + 2, 0) := by
  have hr := fun added => getBranch_append t.branches added 0
  have put := fun added => putBranch_append t.branches added 0
  have hl := fun added => getBranch_append t.branches added 1
  simp [nextLeafBranch, found, overflowRoot, append_assoc, cons_append,
    nil_append, length_append, length_cons, length_nil, zero_add, add_assoc, reduceAdd, hr, put,
    set_cons_zero, extendToLeaf, hl, map_some]

lemma push_overflow (deep : t.rootDepth ≠ 0) (linked : t.root.start ≠ 0)
    (found : nextAvailable t.branches (t.rootDepth + 1) t.root.start = some none) (n : Nat) :
    ∃ after root leaf, t.push crc n = some after ∧ TwoLeaves after t.root
      ⟨t.total, 0, t.branches.length + 2⟩ (unused 4) root leaf := by
  have next : nextLeafBranch crc { t with blocks := t.blocks + n } =
    _ := nextLeafBranch_overflow found
  have hr := fun added => getBranch_append t.branches added 0
  have hl := fun added => getBranch_append t.branches added 1
  have put := fun added => putBranch_append t.branches added 1
  simp only [push, if_neg deep, next, bind_some,
    place, hl, put, getElem?_cons_succ, getElem?_cons_zero, map_some]
  refine ⟨_, _, _, rfl, succ_ne_zero _, hr _, deep, rfl, linked, succ_ne_zero _, hl _, rfl⟩

lemma pushAll_append (crc : Nat → List Extent → Nat) (t : ExtentTree) (ns later : List Nat) :
    t.pushAll crc (ns ++ later) = (t.pushAll crc ns).bind fun tree => tree.pushAll crc later := by
  simp only [pushAll, foldlM_append]
  rfl

lemma available_full (crc : Nat → List Extent → Nat) (branches : List Branch)
    (blocks : Nat) {ns : List Nat} (full : ns.length = 7) :
    nextAvailable (flat crc branches blocks ns).branches 2 (branches.length + 1) = some none := by
  have used : (extentsOf 0 blocks ns ++ unused (7 - ns.length)).findIdx? (·.start = 0) = none := by
    rw [full, findIdx?_eq_none_iff]
    intro e mem
    rw [Nat.sub_self, unused, replicate_zero, append_nil] at mem
    simpa using start_ne_zero_of_mem mem
  rw [available_flat, used, map_none]

/-- Extents that are pushed to a new inode make a tree as it should be if and
only if there are at most seven of them. -/
theorem pushAll_holds_iff (crc : Nat → List Extent → Nat) (branches : List Branch) (blocks : Nat)
    (right : ∀ b ∈ branches, b.checksum = crc b.depth b.entries) (ns : List Nat) :
    (∃ t, (fresh branches blocks).pushAll crc ns = some t ∧
        t.Holds crc blocks ns) ↔ ns.length ≤ 7 := by
  constructor
  · rintro ⟨t, pushed, holds⟩
    by_contra many
    have size : (ns.take 7).length = 7 := by
      rw [length_take]
      omega
    obtain ⟨n, rest, later⟩ : ∃ n rest, ns.drop 7 = n :: rest :=
      exists_cons_of_ne_nil fun none_left => by
        rw [drop_eq_nil_iff] at none_left
        exact many none_left
    obtain ⟨_, _, _, hei, two⟩ := push_overflow one_ne_zero (succ_ne_zero _)
        (available_full crc branches blocks size) n
    have first : (fresh branches blocks).pushAll crc (ns.take 7) =
        some (flat crc branches blocks (ns.take 7)) :=
      pushAll_few (ne_nil_of_length_pos (by omega)) size.le
    rw [← take_append_drop 7 ns, later, pushAll_append, first,
      bind_some, pushAll, foldlM_cons, hei] at pushed
    have opens := holds.opens
    rw [two.pushAll rest t pushed] at opens
    cases opens
  intro few
  by_cases empty : ns = []
  · subst empty
    exact ⟨_, rfl, right, rfl, rfl⟩
  · exact ⟨_, pushAll_few empty few, holds_flat right⟩

theorem pushAll_holds_iff_two : ∃ t, (fresh [] 0).pushAll (fun depth _ => depth) [3, 2] = some t ∧
    t.Holds (fun depth _ => depth) 0 [3, 2] :=
  (pushAll_holds_iff _ [] 0 (by simp) [3, 2]).mpr (by decide)

/-- The object with eight extents of one block cannot be opened again, and the
fifteenth push throws. -/
theorem not_holds_eight : ((fresh [] 0).pushAll (fun depth _ => depth) (List.replicate 8 1)).map
    ExtentTree.reopen = some none ∧ ((fresh [] 0).pushAll (fun depth _ => depth)
    (List.replicate 15 1)).isNone := by
  decide

end OoOS.Fs.Sysfs
