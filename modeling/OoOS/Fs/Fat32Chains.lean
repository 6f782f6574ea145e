import Mathlib.Data.List.Nodup
import Mathlib.Data.List.Perm.Subperm
import OoOS.Lib.Prefixes
import OoOS.Libk.Arith

/-!
# Cluster chains of a FAT32 volume

`claim_cluster` links a new cluster by or-ing its number into the entry of the
last one, which holds an end-of-chain value already.
-/

namespace OoOS.Fs.Fat32

open List Option Libk

def clusterMask : Nat := 0x0FFFFFFF

def clusterPres : Nat := 0xF0000000

/-- `fat32_cluster_eof`: values from here on end a chain. -/
def clusterEof : Nat := 0x0FFFFFF8

abbrev Table := List Nat

def freeCluster (table : Table) : Option Nat :=
  (List.range table.length).find? fun i => 3 ≤ i ∧ table.getD i 0 &&& clusterMask = 0

def claimed (table : Table) (lastSect i : Nat) : Table :=
  (if 2 < lastSect then
      table.modify lastSect (· ||| (i &&& clusterMask))
    else table).modify i (· ||| clusterEof)

/-- `claim_cluster`: no cluster where the source returns zero. -/
def claimCluster (table : Table) (lastSect : Nat) : Option (Nat × Table) :=
  (freeCluster table).map fun i => (i, claimed table lastSect i)

/-- The loop in the constructors of the nodes.  It has no result if it leaves
the table or takes more rounds than `fuel`. -/
def clustersOf (table : Table) : Nat → Nat → Option (List Nat)
  | 0, _ => none
  | fuel + 1, cl =>
    match table[cl]? with
    | none => none
    | some entry =>
      if entry &&& clusterMask < clusterEof then
        (clustersOf table fuel (entry &&& clusterMask)).map (cl :: ·)
      else some [cl]

def releaseClustersFrom : Nat → Table → Nat → Option Table
  | 0, _, _ => none
  | fuel + 1, table, start =>
    match table[start]? with
    | none => none
    | some entry =>
      let released := table.modify start (· &&& clusterPres)
      if entry &&& clusterMask < clusterEof then
        releaseClustersFrom fuel released (entry &&& clusterMask)
      else some released

def claimNext : Nat → Table → List Nat → Table × List Nat
  | 0, table, clusters => (table, clusters)
  | count + 1, table, clusters =>
    match claimCluster table (clusters.getLastD 0) with
    | none => (table, clusters)
    | some (cl, table) => claimNext count table (clusters ++ [cl])

/-- A node: its first cluster is in its directory entry, its clusters are in
`__my_clusters` or `__my_covered_clusters`. -/
structure Node where
  directory : Bool
  start : Nat
  clusters : List Nat
  deriving DecidableEq

structure Volume where
  table : Table
  nodes : List Node

/-- The constructors of the two kinds of nodes; that of a file masks the number
it is given. -/
def construct (table : Table) (directory : Bool) (cl : Nat) : Option Node :=
  let first := if directory then cl else cl &&& clusterMask
  (clustersOf table table.length first).map (Node.mk directory cl)

inductive Event
  | create (directory : Bool)
  | growFile (index n : Nat)
  | expandDir (index : Nat)
  | delete (index : Nat)

namespace Volume

variable (bs : Nat) (v : Volume)

def grow (index : Nat) (node : Node) (count : Nat) : Volume where
  table := (claimNext count v.table node.clusters).1
  nodes := v.nodes.set index
    { node with clusters := (claimNext count v.table node.clusters).2 }

/-- `mkfilenode` or `mkdirnode`, `on_overflow`, `__expand_dir`, and the release
of a chain; `bs` is the size of a cluster. -/
def step : Event → Option Volume
  | .create directory =>
    match claimCluster v.table 0 with
    | none => some v
    | some (cl, table) => (construct table directory cl).map fun node => ⟨table, v.nodes ++ [node]⟩
  | .growFile index n =>
    match v.nodes[index]? with
    | none => some v
    | some node =>
      if node.directory then some v
      else some (v.grow index node (divRoundUp n bs))
  | .expandDir index =>
    match v.nodes[index]? with
    | none => some v
    | some node => if node.directory then some (v.grow index node 1) else some v
  | .delete index =>
    match v.nodes[index]? with
    | none => some v
    | some node =>
      (releaseClustersFrom v.table.length v.table node.start).map fun table =>
        ⟨table, v.nodes.eraseIdx index⟩

def run (events : List Event) : Option Volume :=
  events.foldlM (fun next event => next.step bs event) v

/-- The walk that a mount makes from the first cluster of a node gives its
clusters, and no two nodes share one. -/
structure Right : Prop where
  small : v.table.length ≤ clusterEof
  chains : ∀ node ∈ v.nodes, clustersOf v.table v.table.length node.start = some node.clusters
  data : ∀ node ∈ v.nodes, ∀ cl ∈ node.clusters, 2 ≤ cl
  apart : v.nodes.Pairwise fun one other => ∀ cl ∈ one.clusters, cl ∉ other.clusters

/-- A file is to grow by a cluster or more, or a directory grows, and some cluster
is free. -/
def Appends : Event → Prop
  | .growFile index n =>
    divRoundUp n bs ≠ 0 ∧ freeCluster v.table ≠ none ∧
      ∃ node, v.nodes[index]? = some node ∧ node.directory = false
  | .expandDir index =>
    freeCluster v.table ≠ none ∧ ∃ node, v.nodes[index]? = some node ∧ node.directory = true
  | .create _ | .delete _ => False

end Volume

lemma and_clusterMask (value : Nat) : value &&& clusterMask = value % 2 ^ 28 :=
  Nat.and_two_pow_sub_one_eq_mod value 28

lemma le_or_and_clusterMask {value : Nat} (other : Nat) (ends : clusterEof ≤ value &&& clusterMask)
    : clusterEof ≤ (value ||| other) &&& clusterMask := by
  rw [and_clusterMask, Nat.or_mod_two_pow]
  rw [and_clusterMask] at ends
  exact le_trans ends Nat.left_le_or

lemma clusterEof_le_claimed (value : Nat) :
    clusterEof ≤ (value ||| clusterEof) &&& clusterMask := by
  rw [and_clusterMask, Nat.or_mod_two_pow]
  exact Nat.right_le_or

def Chain (table : Table) : List Nat → Prop
  | [] => False
  | [cl] => ∃ entry, table[cl]? = some entry ∧ clusterEof ≤ entry &&& clusterMask
  | cl :: next :: rest =>
    (∃ entry, table[cl]? = some entry ∧ entry &&& clusterMask = next ∧
      next < clusterEof) ∧ Chain table (next :: rest)

variable {table : Table} {cl i : Nat} {clusters : List Nat}

lemma chain_of_clustersOf :
    ∀ {fuel cl : Nat} {clusters : List Nat}, clustersOf table fuel cl = some clusters →
      Chain table clusters ∧ ∃ rest, clusters = cl :: rest := by
  intro fuel
  induction fuel with
  | zero => intro cl clusters found; cases found
  | succ fuel ih =>
    intro cl clusters found
    simp only [clustersOf] at found
    split at found
    · cases found
    rename_i entry present
    split at found
    · rename_i continues
      obtain ⟨later, walked, rfl⟩ := map_eq_some_iff.mp found
      obtain ⟨chain, rest, rfl⟩ := ih walked
      exact ⟨⟨⟨entry, present, rfl, continues⟩, chain⟩, _, rfl⟩
    rename_i ends
    cases found
    exact ⟨⟨entry, present, not_lt.mp ends⟩, [], rfl⟩

variable {rest : List Nat}

lemma clustersOf_of_chain : ∀ {fuel cl : Nat}, Chain table (cl :: rest) → rest.length < fuel →
    clustersOf table fuel cl = some (cl :: rest) := by
  induction rest with
  | nil =>
    intro fuel cl chain enough
    obtain ⟨fuel, rfl⟩ := Nat.exists_eq_succ_of_ne_zero enough.ne_bot
    obtain ⟨entry, held, ends⟩ := chain
    simp [clustersOf, held, not_lt.mpr ends]
  | cons _ rest ih =>
    intro fuel cl chain enough
    obtain ⟨fuel, rfl⟩ := Nat.exists_eq_succ_of_ne_zero (Nat.ne_zero_of_lt enough)
    obtain ⟨⟨entry, held, rfl, goesOn⟩, chain⟩ := chain
    have walked := ih chain (Nat.lt_of_succ_lt_succ enough)
    simp [clustersOf, held, goesOn, walked, map_some]

lemma Chain.unique {one other : List Nat}
    (chain : Chain table (cl :: one)) (second : Chain table (cl :: other)) : one = other := by
  have first := clustersOf_of_chain chain (show one.length < one.length + other.length + 1 by omega)
  rw [clustersOf_of_chain second (by omega)] at first
  simpa using first.symm

lemma Chain.tail {before : List Nat}
    (chain : Chain table (before ++ cl :: rest)) : Chain table (cl :: rest) := by
  induction before with
  | nil => exact chain
  | cons _ before ih =>
    cases before with
    | nil => exact chain.2
    | cons _ before => exact ih chain.2

section

variable (chain : Chain table clusters)

include chain

lemma Chain.nodup : clusters.Nodup := by
  induction clusters with
  | nil => exact nodup_nil
  | cons cl rest ih =>
    refine nodup_cons.mpr ⟨fun again => ?_, ?_⟩
    · -- the chain would go on from its second visit as from its first
      obtain ⟨before, after, rfl⟩ := append_of_mem again
      have later := Chain.tail (show Chain table ((cl :: before) ++ cl :: after) from chain)
      have same := chain.unique later
      have lengths := congrArg length same
      simp only [length_append, length_cons] at lengths
      omega
    cases rest with
    | nil => exact nodup_nil
    | cons _ rest => exact ih chain.2

lemma Chain.present (mem : cl ∈ clusters) :
    ∃ entry, table[cl]? = some entry ∧ (clusterEof ≤ entry &&& clusterMask ∨
        entry &&& clusterMask ∈ clusters) := by
  obtain ⟨before, after, rfl⟩ := append_of_mem mem
  have rest := chain.tail
  cases after with
  | nil =>
    obtain ⟨entry, held, ends⟩ := rest
    exact ⟨entry, held, .inl ends⟩
  | cons _ after =>
    obtain ⟨⟨entry, held, rfl, -⟩, -⟩ := rest
    exact ⟨entry, held, .inr (by simp)⟩

lemma Chain.length_le : clusters.length ≤ table.length := by
  have inTable : clusters ⊆ range table.length := by
    intro _ mem
    obtain ⟨entry, held, -⟩ := chain.present mem
    exact mem_range.mpr (List.getElem?_eq_some_iff.mp held).1
  simpa using (subperm_of_subset chain.nodup inTable).length_le

end

lemma clustersOf_eq_some_iff : clustersOf table table.length cl = some clusters ↔
    Chain table clusters ∧ ∃ rest, clusters = cl :: rest := by
  refine ⟨chain_of_clustersOf, fun ⟨chain, rest, shape⟩ => ?_⟩
  subst shape
  exact clustersOf_of_chain chain chain.length_le

variable {other : Table}

lemma Chain.congr (chain : Chain table clusters)
    (same : ∀ cl ∈ clusters, ∀ entry, table[cl]? = some entry → ∃ value, other[cl]? = some value ∧
        (value &&& clusterMask = entry &&& clusterMask ∨ clusterEof ≤ entry &&& clusterMask ∧
            clusterEof ≤ value &&& clusterMask)) : Chain other clusters := by
  induction clusters with
  | nil => exact chain
  | cons cl rest ih =>
    cases rest with
    | nil =>
      obtain ⟨entry, held, ends⟩ := chain
      obtain ⟨value, found, agree⟩ := same cl (by simp) entry held
      refine ⟨value, found, ?_⟩
      rcases agree with equal | ⟨-, ends⟩
      · rwa [equal]
      · exact ends
    | cons _ rest =>
      obtain ⟨⟨entry, held, masked, goesOn⟩, chain⟩ := chain
      obtain ⟨value, found, agree⟩ := same cl (by simp) entry held
      have equal : value &&& clusterMask = entry &&& clusterMask := by
        rcases agree with equal | ⟨ends, -⟩
        · exact equal
        · omega
      refine ⟨⟨value, found, equal.trans masked, goesOn⟩, ?_⟩
      exact ih chain (forall_mem_cons.mp same).2

lemma Chain.congr_of_eq (chain : Chain table clusters)
    (same : ∀ cl ∈ clusters, other[cl]? = table[cl]?) : Chain other clusters :=
  chain.congr fun cl mem entry held => ⟨entry, (same cl mem).trans held, .inl rfl⟩

lemma freeCluster_eq_some (found : freeCluster table = some i) :
    3 ≤ i ∧ i < table.length ∧ ∃ entry, table[i]? = some entry ∧ entry &&& clusterMask = 0 := by
  have mem := mem_range.mp (mem_of_find?_eq_some found)
  have free := find?_some found
  simp only [decide_eq_true_eq] at free
  have held := getElem?_eq_getElem mem
  refine ⟨free.1, mem, table[i], held, ?_⟩
  simpa [List.getD, held] using free.2

lemma freeCluster_not_mem (found : freeCluster table = some i) (chain : Chain table clusters)
    (isData : ∀ cl ∈ clusters, 2 ≤ cl) : i ∉ clusters := by
  intro mem
  obtain ⟨-, -, entry, held, free⟩ := freeCluster_eq_some found
  obtain ⟨value, same, taken⟩ := chain.present mem
  obtain rfl : value = entry := some.inj (same.symm.trans held)
  rw [free] at taken
  rcases taken with ends | next
  · exact absurd ends (by decide)
  · exact absurd (isData 0 next) (by decide)

lemma getElem?_claimed_self (lastSect : Nat) (bound : i < table.length) :
    ∃ value, (claimed table lastSect i)[i]? = some (value ||| clusterEof) := by
  unfold claimed
  split <;> simpa [bound] using ⟨_, rfl⟩

variable {lastSect : Nat}

lemma getElem?_claimed_of_ne
    (differs : cl ≠ i) (before : cl ≠ lastSect) : (claimed table lastSect i)[cl]? = table[cl]? := by
  unfold claimed
  split <;> simp [differs.symm, before.symm]

lemma getElem?_claimed_lastSect {entry : Nat}
    (differs : lastSect ≠ i) (present : table[lastSect]? = some entry) :
    (claimed table lastSect i)[lastSect]? = some entry ∨ (claimed table lastSect i)[lastSect]? =
        some (entry ||| (i &&& clusterMask)) := by
  unfold claimed
  split
  · right; simp [differs.symm, present]
  · left; simp [differs.symm, present]

@[simp] lemma length_claimed (table : Table) (lastSect i : Nat) :
    (claimed table lastSect i).length = table.length := by
  unfold claimed
  split <;> simp

lemma chain_claimed_self (lastSect : Nat)
    (bound : i < table.length) : Chain (claimed table lastSect i) [i] := by
  obtain ⟨value, held⟩ := getElem?_claimed_self lastSect bound
  exact ⟨_, held, clusterEof_le_claimed value⟩

lemma Chain.claimed (chain : Chain table clusters) (outside : i ∉ clusters)
    (last : lastSect ∈ clusters → clusters.getLast? = some lastSect) :
    Chain (claimed table lastSect i) clusters := by
  apply chain.congr
  intro cl mem entry present
  have apart : cl ≠ i := fun equal => outside (equal ▸ mem)
  by_cases isLast : cl = lastSect
  · subst isLast
    have ends : clusterEof ≤ entry &&& clusterMask := by
      obtain ⟨before, rfl⟩ := getLast?_eq_some_iff.mp (last mem)
      obtain ⟨value, found, ends⟩ := chain.tail
      rw [found] at present
      rwa [← some.inj present]
    rcases getElem?_claimed_lastSect apart present with same | linked
    · exact ⟨entry, same, .inl rfl⟩
    · exact ⟨_, linked, .inr ⟨ends, le_or_and_clusterMask _ ends⟩⟩
  · exact ⟨entry, (getElem?_claimed_of_ne apart isLast).trans present, .inl rfl⟩

lemma claimNext_of_none (full : freeCluster table = none)
    (count : Nat) (clusters : List Nat) : claimNext count table clusters = (table, clusters) := by
  cases count with
  | zero => rfl
  | succ count => simp [claimNext, claimCluster, full]

lemma claimNext_succ_of_some (found : freeCluster table = some i) (count : Nat)
    (clusters : List Nat) :
    claimNext (count + 1) table clusters = claimNext count (claimed table (clusters.getLastD 0) i)
        (clusters ++ [i]) := by
  simp [claimNext, claimCluster, found]

lemma length_le_claimNext (count : Nat) : ∀ (table : Table) (clusters : List Nat),
    clusters.length ≤ (claimNext count table clusters).2.length := by
  induction count with
  | zero => intro table clusters; exact le_rfl
  | succ count ih =>
    intro table clusters
    cases found : freeCluster table with
    | none => rw [claimNext_of_none found]
    | some i =>
      rw [claimNext_succ_of_some found]
      refine le_trans ?_ (ih _ _)
      simp

lemma claimNext_ne {count : Nat} (clusters : List Nat) (some_asked : count ≠ 0)
    (free : freeCluster table ≠ none) : (claimNext count table clusters).2 ≠ clusters := by
  intro same
  obtain ⟨count, rfl⟩ := Nat.exists_eq_succ_of_ne_zero some_asked
  obtain ⟨i, found⟩ := ne_none_iff_exists'.mp free
  rw [claimNext_succ_of_some found] at same
  have grows := length_le_claimNext count (claimed table (clusters.getLastD 0) i) (clusters ++ [i])
  rw [same, length_append, length_singleton] at grows
  omega

lemma Chain.claimNext {chain : List Nat} (isPath : Chain table chain)
    (isData : ∀ cl ∈ chain, 2 ≤ cl)
    (last : clusters.getLastD 0 ∈ chain → chain.getLast? = some (clusters.getLastD 0)) (count : Nat)
    : Chain (claimNext count table clusters).1 chain := by
  induction count generalizing table clusters with
  | zero => exact isPath
  | succ count ih =>
    cases found : freeCluster table with
    | none => rwa [claimNext_of_none found]
    | some i =>
      have outside := freeCluster_not_mem found isPath isData
      rw [claimNext_succ_of_some found]
      apply ih (isPath.claimed outside last)
      -- the next claim goes after the new cluster, which is in no chain
      intro mem
      rw [getLastD_concat] at mem
      exact absurd mem outside

/-- The release walks a chain to its end. -/
lemma releaseClustersFrom_chain :
    ∀ {table : Table} {fuel cl : Nat}, Chain table (cl :: rest) → rest.length < fuel →
      ∃ released, releaseClustersFrom fuel table cl = some released ∧
        released.length = table.length ∧
        ∀ other, released[other]? = if other ∈ cl :: rest then table[other]?.map (· &&& clusterPres)
          else table[other]? := by
  induction rest with
  | nil =>
    intro table fuel cl chain enough
    obtain ⟨fuel, rfl⟩ := Nat.exists_eq_succ_of_ne_zero (Nat.ne_zero_of_lt enough)
    obtain ⟨entry, held, ends⟩ := chain
    refine ⟨table.modify cl (· &&& clusterPres), ?_, length_modify .., ?_⟩
    · simp [releaseClustersFrom, held, not_lt.mpr ends]
    intro other
    by_cases equal : cl = other
    · simp [equal]
    · rw [getElem?_modify_ne _ _ equal, if_neg (by simp [Ne.symm equal])]
  | cons _ rest ih =>
    intro table fuel cl chain enough
    obtain ⟨fuel, rfl⟩ := Nat.exists_eq_succ_of_ne_zero (Nat.ne_zero_of_lt enough)
    have once := (nodup_cons.mp chain.nodup).1
    obtain ⟨⟨entry, held, rfl, goesOn⟩, chain⟩ := chain
    -- the rest of the chain does not see that the first entry is cleared
    have later : Chain (table.modify cl (· &&& clusterPres)) ((entry &&& clusterMask) :: rest) :=
      chain.congr_of_eq fun other mem => getElem?_modify_ne _ _ fun equal => once (equal ▸ mem)
    obtain ⟨released, done, len, reads⟩ := ih later (Nat.lt_of_succ_lt_succ enough)
    refine ⟨released, ?_, ?_, fun other => ?_⟩
    · simpa only [releaseClustersFrom, held, goesOn, if_true] using done
    · rw [len, length_modify]
    rw [reads]
    by_cases equal : cl = other
    · subst equal
      rw [if_neg once, if_pos mem_cons_self, getElem?_modify_eq]
      rfl
    · rw [getElem?_modify_ne _ _ equal]
      simp only [mem_cons, Ne.symm equal, false_or]

/-- The clusters of the chain are freed with their upper four bits kept, and nothing else. -/
theorem releaseClustersFrom_frees (chain : Chain table (cl :: rest)) :
    ∃ released, releaseClustersFrom table.length table cl = some released ∧
      released.length = table.length ∧ ∀ other, released[other]? =
        if other ∈ cl :: rest then table[other]?.map (· &&& clusterPres) else table[other]? :=
  releaseClustersFrom_chain chain chain.length_le

theorem releaseClustersFrom_frees_two : Chain [0, 0, 0x50000003, 0xFFFFFFFF] [2, 3] ∧
    ∃ released, releaseClustersFrom 4 [0, 0, 0x50000003, 0xFFFFFFFF] 2 = some released ∧
      released[2]? = some 0x50000000 := by
  have chain : Chain [0, 0, 0x50000003, 0xFFFFFFFF] [2, 3] :=
    ⟨⟨_, rfl, rfl, by decide⟩, _, rfl, by decide⟩
  obtain ⟨released, done, -, entries⟩ := releaseClustersFrom_frees chain
  exact ⟨chain, released, done, entries 2⟩

namespace Volume

variable {bs index count : Nat} {v : Volume} {node : Node}

lemma Right.chain (right : v.Right) (mem : node ∈ v.nodes) :
    Chain v.table node.clusters ∧ ∃ rest, node.clusters = node.start :: rest :=
  clustersOf_eq_some_iff.mp (right.chains node mem)

lemma grow_eq_self (present : v.nodes[index]? = some node)
    (idle : count = 0 ∨ freeCluster v.table = none) : v.grow index node count = v := by
  have same : claimNext count v.table node.clusters = (v.table, node.clusters) := by
    rcases idle with rfl | full
    · rfl
    · exact claimNext_of_none full _ _
  obtain ⟨bound, rfl⟩ := List.getElem?_eq_some_iff.mp present
  simp only [grow, same]
  exact congrArg (Volume.mk v.table) (set_getElem_self bound)

section

variable (right : v.Right)

include right

lemma Right.not_right_grow (present : v.nodes[index]? = some node) (asked : count ≠ 0)
    (free : freeCluster v.table ≠ none) : ¬ (v.grow index node count).Right := by
  intro grown
  have mem := mem_of_getElem? present
  obtain ⟨chain, rest, shape⟩ := right.chain mem
  have kept : Chain (claimNext count v.table node.clusters).1 node.clusters := by
    refine chain.claimNext (right.data node mem) (fun _ => ?_) count
    rw [shape]
    simp [getLast?_eq_getLast_of_ne_nil]
  have before := clustersOf_eq_some_iff.mpr ⟨kept, rest, shape⟩
  have member : { node with clusters := (claimNext count v.table node.clusters).2 } ∈
        (v.grow index node count).nodes := mem_set (List.getElem?_eq_some_iff.mp present).1 _
  have after := grown.chains _ member
  rw [show (v.grow index node count).table =
    (claimNext count v.table node.clusters).1 from rfl, before] at after
  exact claimNext_ne node.clusters asked free (some.inj after).symm

/-- Creating a node keeps the chains right. -/
lemma Right.create (directory : Bool) :
    ∃ next, v.step bs (.create directory) = some next ∧ next.Right := by
  cases found : freeCluster v.table with
  | none =>
    refine ⟨v, ?_, right⟩
    simp [step, claimCluster, found]
  | some i =>
    obtain ⟨-, bound, -⟩ := freeCluster_eq_some found
    have masked : i &&& clusterMask = i := by
      have small := right.small
      rw [and_clusterMask]
      apply Nat.mod_eq_of_lt
      unfold clusterEof at small
      omega
    have self := chain_claimed_self 0 bound
    have walked := clustersOf_eq_some_iff.mpr ⟨self, [], rfl⟩
    have built : construct (claimed v.table 0 i) directory i = some ⟨directory, i, [i]⟩ := by
      simp only [construct, masked, ite_self, walked, map_some]
    have fresh : ∀ node ∈ v.nodes, i ∉ node.clusters := fun node mem =>
      freeCluster_not_mem found (right.chain mem).1 (right.data node mem)
    refine ⟨⟨claimed v.table 0 i, v.nodes ++ [⟨directory, i, [i]⟩]⟩, ?_, ?_⟩
    · simp [step, claimCluster, found, built]
    refine ⟨?_, ?_, ?_, ?_⟩
    · rw [length_claimed]; exact right.small
    · intro node mem
      rcases mem_append.mp mem with old | new
      · obtain ⟨chain, shape⟩ := right.chain old
        refine clustersOf_eq_some_iff.mpr ⟨?_, shape⟩
        apply chain.claimed (fresh node old)
        intro zero
        exact absurd (right.data node old 0 zero) (by decide)
      rw [mem_singleton.mp new]
      exact walked
    · intro node mem cl inside
      rcases mem_append.mp mem with old | new
      · exact right.data node old cl inside
      rw [mem_singleton.mp new] at inside
      have := (freeCluster_eq_some found).1
      rw [mem_singleton.mp inside]
      omega
    rw [pairwise_append]
    refine ⟨right.apart, pairwise_singleton _ _, ?_⟩
    intro one old _ new cl inside
    rw [mem_singleton.mp new, mem_singleton]
    rintro rfl
    exact fresh one old inside

/-- Deleting one frees its chain and nothing else. -/
lemma Right.delete (index : Nat) : ∃ next, v.step bs (.delete index) = some next ∧ next.Right := by
  cases held : v.nodes[index]? with
  | none =>
    refine ⟨v, ?_, right⟩
    simp [step, held]
  | some node =>
    obtain ⟨bound, equal⟩ := List.getElem?_eq_some_iff.mp held
    obtain ⟨chain, rest, shape⟩ := right.chain (mem_of_getElem? held)
    have enough : rest.length < v.table.length := by
      have := chain.length_le
      rw [shape, length_cons] at this
      omega
    rw [shape] at chain
    obtain ⟨released, done, len, reads⟩ := releaseClustersFrom_chain chain enough
    refine ⟨⟨released, v.nodes.eraseIdx index⟩, ?_, ?_⟩
    · simp [step, held, done, map_some]
    have fewer := eraseIdx_sublist v.nodes index
    have apart : ∀ other ∈ v.nodes.eraseIdx index, ∀ cl ∈ other.clusters, cl ∉ node.clusters := by
      have apart := right.apart
      rw [← take_append_drop index v.nodes, drop_eq_getElem_cons bound, equal, pairwise_append,
        pairwise_cons] at apart
      obtain ⟨-, ⟨after, -⟩, before⟩ := apart
      intro other remaining cl inside
      rw [eraseIdx_eq_take_drop_succ] at remaining
      rcases mem_append.mp remaining with first | second
      · exact before other first node (mem_cons_self ..) cl inside
      · exact fun shared => after other second cl shared inside
    refine ⟨?_, ?_, ?_, ?_⟩
    · rw [len]; exact right.small
    · intro other remaining
      obtain ⟨path, tail⟩ := right.chain (fewer.subset remaining)
      refine clustersOf_eq_some_iff.mpr ⟨?_, tail⟩
      apply path.congr_of_eq
      intro cl inside
      rw [reads, if_neg]
      rw [← shape]
      exact apart other remaining cl inside
    · exact fun other remaining => right.data other (fewer.subset remaining)
    · exact right.apart.sublist fewer

/-- An event keeps the chains right if and only if it appends no cluster. -/
lemma Right.step_iff (event : Event) :
    (∃ next, v.step bs event = some next ∧ next.Right) ↔ ¬ v.Appends bs event := by
  cases event with
  | create directory => exact iff_of_true (right.create directory) id
  | delete index => exact iff_of_true (right.delete index) id
  | growFile index n =>
    cases held : v.nodes[index]? with
    | none => simp [step, Appends, held, right]
    | some node =>
      by_cases isDir : node.directory
      · simp [step, Appends, held, isDir, right]
      by_cases idle : divRoundUp n bs = 0 ∨ freeCluster v.table = none
      · have same := grow_eq_self held idle
        simp only [step, held, isDir, same]
        refine iff_of_true ⟨v, rfl, right⟩ ?_
        rintro ⟨asked, free, -⟩
        exact idle.elim asked free
      rw [not_or] at idle
      have wrong := right.not_right_grow held idle.1 idle.2
      simp [step, Appends, held, isDir, idle, wrong]
  | expandDir index =>
    cases held : v.nodes[index]? with
    | none => simp [step, Appends, held, right]
    | some node =>
      by_cases isDir : node.directory
      · by_cases full : freeCluster v.table = none
        · have same : v.grow index node 1 = v := grow_eq_self held (.inr full)
          simp [step, Appends, held, isDir, same, full, right]
        have wrong := right.not_right_grow held one_ne_zero full
        simp [step, Appends, held, isDir, full, wrong]
      · simp [step, Appends, held, isDir, right]

end

lemma run_concat (made : List Event) (event : Event) :
    v.run bs (made ++ [event]) = (v.run bs made).bind fun next => next.step bs event := by
  simp only [run, foldlM_append, foldlM_cons, foldlM_nil, bind_pure]
  rfl

/-- Over any run the chains in the table are those of the nodes if and only if
no event of the run appends a cluster to a node. -/
theorem right_iff_not_appends (bs : Nat) (v : Volume) (right : v.Right) (events : List Event) :
    (∀ made, made <+: events → ∃ next, v.run bs made = some next ∧ next.Right) ↔
      ∀ made event, made ++ [event] <+: events →
        ∀ next, v.run bs made = some next → ¬ next.Appends bs event := by
  refine (OoOS.Lib.forall_prefix_iff ?_).trans (and_iff_right ⟨v, rfl, right⟩)
  rintro made event - ⟨before, ran, kept⟩
  rw [run_concat, ran, bind_some, kept.step_iff event]
  exact ⟨fun never next same => some.inj same ▸ never, fun never => never before rfl⟩

def blank : Volume where
  table := [0x0FFFFFF8, 0x0FFFFFFF, 0x0FFFFFF8, 0, 0, 0, 0]
  nodes := [⟨true, 2, [2]⟩]

lemma right_blank : blank.Right := by
  refine ⟨by decide, ?_, ?_, pairwise_singleton _ _⟩
  · intro node mem
    rw [mem_singleton.mp mem]
    rfl
  intro node mem
  rw [mem_singleton.mp mem]
  decide

theorem right_iff_not_appends_smallFiles : blank.Right ∧ ∃ next,
    blank.run 512 [.create false, .create true, .delete 1, .create false] = some next ∧
      next.Right := by
  refine ⟨right_blank, (right_iff_not_appends 512 blank right_blank _).mpr ?_ _ prefix_rfl⟩
  intro made _ reached next _
  have member := reached.subset (mem_append_right made (mem_cons_self ..))
  simp only [mem_cons, not_mem_nil, or_false] at member
  rcases member with rfl | rfl | rfl | rfl <;> exact id

/-- A new file grows to two clusters: the table still has its first one only. -/
theorem not_right_grownFile :
    blank.Right ∧ ∃ next, blank.run 512 [.create false, .growFile 1 512] = some next ∧
        next.nodes[1]?.map Node.clusters = some [3, 4] ∧
        clustersOf next.table next.table.length 3 = some [3] ∧ ¬ next.Right := by
  refine ⟨right_blank, _, rfl, rfl, rfl, fun right => ?_⟩
  have walked := right.chains ⟨false, 3, [3, 4]⟩ (by decide)
  exact absurd walked (by decide)

end Volume

end OoOS.Fs.Fat32
