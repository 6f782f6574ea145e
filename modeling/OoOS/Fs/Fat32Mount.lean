import OoOS.Fs.Fat32Chains
import OoOS.Fs.Fat32Entries

/-!
# Mounting a FAT32 volume

`fat32::init` reads the root directory and, through its entries, all others.  The
nodes are in two sets of the whole file system that are ordered by name only.
-/

namespace OoOS.Fs.Fat32

open List Option Entry

/-- A volume: its allocation table, the directory entries in each cluster, and
the cluster of the root directory. -/
structure Disk where
  table : Table
  contents : Nat → List Entry
  rootClNum : Nat
  small : table.length ≤ clusterEof

/-- A node with what is below it.  The set of tnodes of a directory is a table
by name. -/
inductive Tree
  | file (start : Nat)
  | directory (start : Nat) (tnodes : Name → Option Tree)

abbrev Tnodes := Name → Option Tree

def emplace (tnodes : Tnodes) (name : Name) (tree : Tree) : Tnodes :=
  if (tnodes name).isSome then tnodes
  else Function.update tnodes name (some tree)

structure Nodes where
  files : List Name
  directories : List Name

/-- What `parse_dir_data` comes to: it goes on for ever or leaves the table, it
returns false, or it returns true. -/
inductive Outcome
  | stuck
  | failed
  | done (nodes : Nodes) (tnodes : Tnodes)

section

variable (disk : Disk)

def Disk.walk (cl : Nat) : Option (List Nat) := clustersOf disk.table disk.table.length cl

/-- `__add_parsed_entry`.  `emplace` builds the node before it looks for one of
the same name, and a failure throws up to the root. -/
def addParsedEntry (parse : Nodes → List Nat → Outcome) (nodes : Nodes)
    (tnodes : Tnodes) (e : Entry) : Outcome :=
  if e.isDirectory then
    match disk.walk e.startOf with
    | none => .stuck
    | some clusters =>
      if e.parsedName ∈ nodes.directories then .failed
      else
        match parse
          ⟨nodes.files, nodes.directories ++ [e.parsedName]⟩ clusters with
        | .done nodes sub => .done nodes (emplace tnodes e.parsedName (.directory e.startOf sub))
        | outcome => outcome
  else
    match disk.walk (e.startOf &&& clusterMask) with
    | none => .stuck
    | some _ =>
      if e.parsedName ∈ nodes.files then .failed
      else
        .done ⟨nodes.files ++ [e.parsedName], nodes.directories⟩
          (emplace tnodes e.parsedName (.file e.startOf))

def parseEntries (parse : Nodes → List Nat → Outcome) : List Entry → Nodes → Tnodes → Outcome
  | [], nodes, tnodes => .done nodes tnodes
  | e :: rest, nodes, tnodes =>
    if e.isParsed then
      match addParsedEntry disk parse nodes tnodes e with
      | .done nodes tnodes => parseEntries parse rest nodes tnodes
      | outcome => outcome
    else parseEntries parse rest nodes tnodes

def parseDirData : Nat → Nodes → List Nat → Outcome
  | 0, _, _ => .stuck
  | fuel + 1, nodes, clusters =>
    parseEntries disk (parseDirData fuel) (clusters.flatMap disk.contents)
      nodes fun _ => none

/-- `fat32::init`.  A path of directories that is longer than the table goes
through one of them twice, and has no end. -/
def Disk.init : Outcome :=
  match disk.walk disk.rootClNum with
  | none => .stuck
  | some clusters => parseDirData disk disk.table.length ⟨[], [[]]⟩ clusters

def Disk.Mounts (tree : Tnodes) : Prop := ∃ nodes, disk.init = .done nodes tree

end

variable (disk : Disk)

def Disk.entriesOf (cl : Nat) : Option (List Entry) :=
  (disk.walk cl).map fun clusters => clusters.flatMap disk.contents

def childOf (read : Nat → Option Tnodes) (e : Entry) : Option Tree :=
  if e.isDirectory then (read e.startOf).map (Tree.directory e.startOf)
  else (disk.walk e.startOf).map fun _ => Tree.file e.startOf

def childrenOf (read : Nat → Option Tnodes) : List Entry → Option (List (Name × Tree))
  | [] => some []
  | e :: rest =>
    match childOf disk read e, childrenOf read rest with
    | some child, some later => some ((e.shortName, child) :: later)
    | _, _ => none

/-- The tree below a directory: chains end, names are legal and occur once, and
the nesting ends. -/
def Disk.treeOf : Nat → Nat → Option Tnodes
  | 0, _ => none
  | fuel + 1, cl =>
    match disk.entriesOf cl with
    | none => none
    | some entries =>
      let live := entries.filter Entry.isLive
      if (∀ e ∈ live, e.Legal) ∧ (live.map Entry.shortName).Nodup then
        (childrenOf disk (Disk.treeOf fuel) live).map fun children name =>
          children.lookup name
      else none

def Disk.listing : Nat → Nat → List Entry
  | 0, _ => []
  | fuel + 1, cl =>
    ((disk.entriesOf cl).getD []).flatMap fun e =>
      e :: if e.isLive && e.isDirectory then Disk.listing fuel e.startOf else []

def fileNames (entries : List Entry) : List Name :=
  (entries.filter fun e => e.isLive && !e.isDirectory).map Entry.shortName

def directoryNames (entries : List Entry) : List Name :=
  (entries.filter fun e => e.isLive && e.isDirectory).map Entry.shortName

/-- The driver takes the entry for what it is, deleted or live. -/
structure Entry.Plain (e : Entry) : Prop where
  deleted : e.ordinal = 0xE5 → e.isLongname ∨ e.startOf = 0
  marker : e.isLive → e.ordinal ≠ 0xE8
  padded : e.isLive → e.Padded

/-- All entries are plain and no two files and no two directories of the volume
have the same name. -/
structure Disk.Plain (disk : Disk) : Prop where
  entries : ∀ e ∈ disk.listing disk.table.length disk.rootClNum, e.Plain
  files : (fileNames (disk.listing disk.table.length disk.rootClNum)).Nodup
  directories : (directoryNames (disk.listing disk.table.length disk.rootClNum)).Nodup

structure Nodes.Fresh (nodes : Nodes) (entries : List Entry) : Prop where
  files : (nodes.files ++ fileNames entries).Nodup
  directories : (nodes.directories ++ directoryNames entries).Nodup

instance (nodes : Nodes) (entries : List Entry) : Decidable (nodes.Fresh entries) :=
  decidable_of_iff (_ ∧ _)
    ⟨fun both => ⟨both.1, both.2⟩, fun fresh => ⟨fresh.files, fresh.directories⟩⟩

def Nodes.after (nodes : Nodes) (entries : List Entry) : Nodes :=
  ⟨nodes.files ++ fileNames entries, nodes.directories ++ directoryNames entries⟩

lemma Nodes.after_append (nodes : Nodes) (one other : List Entry) :
    nodes.after (one ++ other) = (nodes.after one).after other := by
  simp [after, fileNames, directoryNames]

lemma Nodes.fresh_append_iff (nodes : Nodes) (one other : List Entry) :
    nodes.Fresh (one ++ other) ↔ nodes.Fresh one ∧ (nodes.after one).Fresh other := by
  constructor
  · rintro ⟨files, directories⟩
    simp only [fileNames, directoryNames, filter_append, map_append,
      ← append_assoc] at files directories
    exact ⟨⟨files.of_append_left, directories.of_append_left⟩, files, directories⟩
  rintro ⟨-, files, directories⟩
  constructor
  · simpa [after, fileNames] using files
  · simpa [after, directoryNames] using directories

variable {entries : List Entry} {children : List (Name × Tree)} {fuel : Nat} {nodes : Nodes}

lemma Nodes.Fresh.fresh_nil (fresh : nodes.Fresh entries) : (nodes.after entries).Fresh [] := by
  constructor
  · simpa [after, fileNames] using fresh.files
  · simpa [after, directoryNames] using fresh.directories

lemma nodup_append_singleton_iff {names : List Name} {name : Name}
    (nodup : names.Nodup) : (names ++ [name]).Nodup ↔ name ∉ names := by
  simp [nodup_append, nodup, forall_mem_ne']

section

variable {e : Entry} (used : nodes.Fresh []) (live : e.isLive)

include used live

lemma Nodes.fresh_file_iff (file : e.isDirectory = false) :
    nodes.Fresh [e] ↔ e.shortName ∉ nodes.files := by
  have nodup := used.files
  rw [show fileNames [] = [] from rfl, append_nil] at nodup
  rw [← nodup_append_singleton_iff nodup]
  have hf : fileNames [e] = [e.shortName] := by simp [fileNames, live, file]
  have hnd : directoryNames [e] = directoryNames [] := by simp [directoryNames, file]
  constructor
  · intro fresh
    exact hf ▸ fresh.files
  intro ha
  exact ⟨hf ▸ ha, hnd ▸ used.directories⟩

lemma Nodes.fresh_directory_iff (directory : e.isDirectory = true) :
    nodes.Fresh [e] ↔ e.shortName ∉ nodes.directories := by
  have nodup := used.directories
  rw [show directoryNames [] = [] from rfl, append_nil] at nodup
  rw [← nodup_append_singleton_iff nodup]
  have hdi : directoryNames [e] = [e.shortName] := by simp [directoryNames, live, directory]
  have hnf : fileNames [e] = fileNames [] := by simp [fileNames, directory]
  constructor
  · intro fresh
    exact hdi ▸ fresh.directories
  intro ha
  exact ⟨hnf ▸ used.files, hdi ▸ ha⟩

end

variable {read : Nat → Option Tnodes} {made : Entry → Name × Tree → Prop}
variable {e : Entry}

lemma Entry.Plain.isParsed_eq (plain : e.Plain) : e.isParsed = e.isLive := by
  rw [Bool.eq_iff_iff]
  constructor
  · intro hp
    obtain ⟨-, used, hr, named, hs⟩ := isParsed_iff.mp hp
    refine isLive_iff.mpr ⟨used, fun hd => ?_, hr, named, hs⟩
    exact (plain.deleted hd).elim hr hs
  intro live
  obtain ⟨used, -, rest⟩ := isLive_iff.mp live
  exact isParsed_iff.mpr ⟨plain.marker live, used, rest⟩

lemma lookup_cons_eq (child : Name × Tree) (children : List (Name × Tree)) (name : Name) :
    (child :: children).lookup name = (if name = child.1 then some child.2 else none).or
        (children.lookup name) := by
  rw [lookup_cons]
  by_cases same : name = child.1
  · simp [same]
  · simp [beq_eq_false_iff_ne.mpr same, if_neg same, none_or]

lemma emplace_apply (tnodes : Tnodes) (name other : Name) (tree : Tree) :
    emplace tnodes name tree other =
      (tnodes other).or (if other = name then some tree else none) := by
  unfold emplace
  by_cases same : other = name
  · subst same
    cases found : tnodes other <;> simp [found]
  · split <;> simp [same, Function.update_of_ne]

variable {disk}

lemma childrenOf_cons {rest : List Entry}
    (isChildren : childrenOf disk read (e :: rest) = some children) :
    ∃ child others, childOf disk read e = some child ∧ childrenOf disk read rest = some others ∧
      children = (e.shortName, child) :: others := by
  rw [childrenOf] at isChildren
  split at isChildren
  · rename_i child others isChild areOthers
    exact ⟨child, others, isChild, areOthers, (some.inj isChildren).symm⟩
  · cases isChildren

open Disk

variable {cl : Nat} {tree : Tnodes}

lemma Disk.treeOf_succ (isTree : disk.treeOf (fuel + 1) cl = some tree) :
    ∃ entries children, disk.entriesOf cl = some entries ∧
      (∀ e ∈ entries.filter isLive, e.Legal) ∧
      ((entries.filter isLive).map shortName).Nodup ∧
      childrenOf disk (disk.treeOf fuel) (entries.filter isLive) =
        some children ∧ tree = fun name => children.lookup name := by
  rw [treeOf] at isTree
  split at isTree
  · cases isTree
  rename_i entries isEntries
  dsimp only at isTree
  split_ifs at isTree with wf
  obtain ⟨children, hc, rfl⟩ := map_eq_some_iff.mp isTree
  exact ⟨entries, children, isEntries, wf.1, wf.2, hc, rfl⟩

lemma Disk.walk_of_treeOf
    (isTree : disk.treeOf fuel cl = some tree) : ∃ clusters, disk.walk cl = some clusters := by
  cases fuel with
  | zero => cases isTree
  | succ fuel =>
    obtain ⟨entries, -, he, -⟩ := treeOf_succ isTree
    obtain ⟨clusters, hw, -⟩ := map_eq_some_iff.mp he
    exact ⟨clusters, hw⟩

def Disk.visited (disk : Disk) (fuel : Nat) (e : Entry) : List Entry :=
  e :: if e.isLive && e.isDirectory then disk.listing fuel e.startOf else []

lemma Disk.mask_eq {clusters : List Nat}
    (walked : disk.walk cl = some clusters) : cl &&& clusterMask = cl := by
  obtain ⟨chain, _, rfl⟩ := clustersOf_eq_some_iff.mp walked
  obtain ⟨_, hp, -⟩ := chain.present mem_cons_self
  have bound := (List.getElem?_eq_some_iff.mp hp).1
  have small := disk.small
  rw [and_clusterMask]
  apply Nat.mod_eq_of_lt
  unfold clusterEof at small
  omega

def Disk.Reads (disk : Disk) (fuel cl : Nat) (tree : Tnodes) : Prop :=
  ∀ clusters nodes, disk.walk cl = some clusters → nodes.Fresh [] →
    parseDirData disk fuel nodes clusters = if nodes.Fresh (disk.listing fuel cl) then
        .done (nodes.after (disk.listing fuel cl)) tree
      else .failed

variable {tnodes : Tnodes}

lemma addParsedEntry_eq {child : Tree}
    (plain : e.Plain) (live : e.isLive) (legal : e.Legal) (used : nodes.Fresh [])
    (isChild : childOf disk (disk.treeOf fuel) e = some child)
    (below : ∀ tree, disk.treeOf fuel e.startOf = some tree →
      e.isDirectory → disk.Reads fuel e.startOf tree) :
    addParsedEntry disk (parseDirData disk fuel) nodes tnodes e =
      if nodes.Fresh (disk.visited fuel e) then
        .done (nodes.after (disk.visited fuel e)) (emplace tnodes e.shortName child)
      else .failed := by
  have name := parsedName_eq_shortName legal (plain.padded live)
  unfold addParsedEntry
  cases kind : e.isDirectory with
  | false =>
    rw [childOf, if_neg (by simp [kind])] at isChild
    obtain ⟨clusters, hw, rfl⟩ := map_eq_some_iff.mp isChild
    have one : disk.visited fuel e = [e] := by simp [visited, kind]
    rw [one]
    simp only [mask_eq hw, hw, name, Bool.false_eq_true, if_false,
      Nodes.fresh_file_iff used live kind, ite_not]
    simp [Nodes.after, fileNames, directoryNames, live, kind]
  | true =>
    rw [childOf, if_pos kind] at isChild
    obtain ⟨tree, ht, rfl⟩ := map_eq_some_iff.mp isChild
    obtain ⟨clusters, hw⟩ := walk_of_treeOf ht
    have split : disk.visited fuel e = [e] ++ disk.listing fuel e.startOf := by
      simp [visited, kind, live]
    have own : nodes.after [e] = ⟨nodes.files, nodes.directories ++ [e.shortName]⟩ := by
      simp [Nodes.after, fileNames, directoryNames, live, kind]
    simp only [split, Nodes.fresh_append_iff, Nodes.after_append, hw, name, if_true, ← own]
    by_cases fresh : nodes.Fresh [e]
    · have ha := (Nodes.fresh_directory_iff used live kind).mp fresh
      rw [if_neg ha, below tree ht kind clusters _ hw fresh.fresh_nil]
      simp only [fresh, true_and]
      split_ifs <;> rfl
    have mem := fun ha => fresh ((Nodes.fresh_directory_iff used live kind).mpr ha)
    rw [if_pos (not_not.mp mem), if_neg (fun both => fresh both.1)]

/-- The parser of a directory against the tree on the disk. -/
lemma parseEntries_eq (below : ∀ cl tree, disk.treeOf fuel cl = some tree →
      (∀ e ∈ disk.listing fuel cl, e.Plain) → disk.Reads fuel cl tree) :
    ∀ (entries : List Entry) (children : List (Name × Tree)) (nodes : Nodes) (tnodes : Tnodes),
      childrenOf disk (disk.treeOf fuel) (entries.filter isLive) = some children →
      (∀ e ∈ entries.flatMap (disk.visited fuel), e.Plain) →
      (∀ e ∈ entries.filter isLive, e.Legal) → nodes.Fresh [] →
      parseEntries disk (parseDirData disk fuel) entries nodes tnodes =
        if nodes.Fresh (entries.flatMap (disk.visited fuel)) then
          .done (nodes.after (entries.flatMap (disk.visited fuel)))
            fun name => (tnodes name).or (children.lookup name) else .failed := by
  intro entries
  induction entries with
  | nil =>
    intro children nodes tnodes hc _ _ used
    cases hc
    simp [parseEntries, used, Nodes.after, fileNames, directoryNames]
  | cons e rest ih =>
    intro children nodes tnodes hc plain legal used
    rw [flatMap_cons] at plain ⊢
    simp only [Nodes.fresh_append_iff, Nodes.after_append]
    have own : e.Plain := plain e (by simp [visited])
    have later : ∀ e ∈ rest.flatMap (disk.visited fuel), e.Plain :=
      (forall_mem_append.mp plain).2
    rw [parseEntries, own.isParsed_eq]
    cases live : e.isLive with
    | false =>
      have one : disk.visited fuel e = [e] := by simp [visited, live]
      have same : nodes.after [e] = nodes := by simp [Nodes.after, fileNames, directoryNames, live]
      have fresh : nodes.Fresh [e] := by
        constructor
        · simpa [fileNames, live] using used.files
        · simpa [directoryNames, live] using used.directories
      rw [filter_cons_of_neg (by simp [live])] at hc legal
      rw [one, same, if_neg (by simp), ih children nodes tnodes hc later legal used]
      simp [fresh, true_and]
    | true =>
      rw [filter_cons_of_pos live] at hc legal
      obtain ⟨_, others, hch, hao, rfl⟩ := childrenOf_cons hc
      have step : addParsedEntry disk (parseDirData disk fuel) nodes tnodes e =
          _ := addParsedEntry_eq own live (legal e mem_cons_self) used
        hch fun tree ht kind => below _ tree ht fun other mem =>
          plain other (by simp [visited, live, kind, mem])
      rw [if_pos rfl, step]
      by_cases fresh : nodes.Fresh (disk.visited fuel e)
      · simp only [fresh, if_true, true_and]
        rw [ih others _ _ hao later (forall_mem_cons.mp legal).2 fresh.fresh_nil]
        simp [emplace_apply, Option.or_assoc, lookup_cons_eq]
      · simp [fresh, false_and]

lemma Disk.reads_of_plain : ∀ cl tree, disk.treeOf fuel cl = some tree →
    (∀ e ∈ disk.listing fuel cl, e.Plain) → disk.Reads fuel cl tree := by
  induction fuel with
  | zero => intro cl tree ht; cases ht
  | succ fuel ih =>
    intro cl tree ht plain clusters nodes hw used
    obtain ⟨_, children, he, legal, -, hc, rfl⟩ := treeOf_succ ht
    obtain ⟨same, hwa, rfl⟩ := map_eq_some_iff.mp he
    obtain rfl : same = clusters := some.inj (hwa.symm.trans hw)
    have hl : disk.listing (fuel + 1) cl =
        (same.flatMap disk.contents).flatMap (disk.visited fuel) := by
      rw [listing, he]
      rfl
    rw [hl] at plain ⊢
    rw [parseDirData, parseEntries_eq ih _ children nodes _ hc plain legal used]
    simp

lemma lookup_isSome_iff {name : Name} :
    (children.lookup name).isSome ↔ name ∈ children.map Prod.fst := by
  induction children with
  | nil => simp
  | cons child children ih =>
    by_cases same : name = child.1
    · simp [same]
    · simp [same, false_or]

lemma lookup_of_mem {child : Name × Tree} (nodup : (children.map Prod.fst).Nodup)
    (mem : child ∈ children) : children.lookup child.1 = some child.2 := by
  induction children with
  | nil => cases mem
  | cons first children ih =>
    rw [map_cons, nodup_cons] at nodup
    rw [lookup_cons_eq]
    rcases mem_cons.mp mem with rfl | later
    · simp
    have hd : child.1 ≠ first.1 := fun same => nodup.1 (same ▸ mem_map_of_mem later)
    rw [if_neg hd, none_or]
    exact ih nodup.2 later

section

variable (all : List.Forall₂ made entries children)

include all

lemma forall₂_mem (mem : e ∈ entries) : ∃ child ∈ children, made e child := by
  induction all with
  | nil => cases mem
  | cons first _ ih =>
    rcases mem_cons.mp mem with rfl | later
    · exact ⟨_, mem_cons_self, first⟩
    obtain ⟨child, hc, hma⟩ := ih later
    exact ⟨child, mem_cons_of_mem _ hc, hma⟩

lemma forall₂_names {name : Entry → Name} (named : ∀ e child, made e child → child.1 = name e)
    : children.map Prod.fst = entries.map name := by
  induction all with
  | nil => rfl
  | cons first _ ih => rw [map_cons, map_cons, named _ _ first, ih]

end

lemma forall₂_childrenOf : ∀ {children}, childrenOf disk read entries = some children →
    List.Forall₂ (fun e child => child.1 = e.shortName ∧
      childOf disk read e = some child.2) entries children := by
  induction entries with
  | nil => intro children hc; cases hc; exact .nil
  | cons e _ ih =>
    intro children hc
    obtain ⟨child, _, hch, hao, rfl⟩ := childrenOf_cons hc
    exact .cons ⟨rfl, hch⟩ (ih hao)

def Made (disk : Disk) (parse : Nodes → List Nat → Outcome) (e : Entry) (child : Name × Tree) :
    Prop :=
  child.1 = e.parsedName ∧ (e.isDirectory →
    ∃ clusters nodes after sub, disk.walk e.startOf = some clusters ∧
      parse nodes clusters = .done after sub ∧
      child.2 = .directory e.startOf sub)

variable {parse : Nodes → List Nat → Outcome}

lemma addParsedEntry_done {after : Nodes}
    (done : addParsedEntry disk parse nodes tnodes e = .done after tree) :
    ∃ child, Made disk parse e (e.parsedName, child) ∧
      tree = emplace tnodes e.parsedName child := by
  unfold addParsedEntry at done
  cases kind : e.isDirectory with
  | false =>
    simp only [kind, Bool.false_eq_true, if_false] at done
    split at done
    · cases done
    split_ifs at done
    cases done
    refine ⟨_, ⟨rfl, fun hd => ?_⟩, rfl⟩
    rw [kind] at hd
    cases hd
  | true =>
    simp only [kind, if_true] at done
    split at done
    · cases done
    rename_i clusters hw
    split_ifs at done
    split at done
    · rename_i hp
      cases done
      exact ⟨_, ⟨rfl, fun _ => ⟨clusters, _, _, _, hw, hp, rfl⟩⟩, rfl⟩
    rename_i notDone
    exact absurd done (notDone _ _)

lemma parseEntries_done :
    ∀ {entries : List Entry} {nodes after : Nodes} {tnodes tree : Tnodes},
      parseEntries disk parse entries nodes tnodes = .done after tree →
      ∃ children, List.Forall₂ (Made disk parse) (entries.filter isParsed) children ∧
        tree = fun name => (tnodes name).or (children.lookup name) := by
  intro entries
  induction entries with
  | nil =>
    intro nodes after tnodes tree done
    cases done
    exact ⟨[], .nil, by simp⟩
  | cons e _ ih =>
    intro nodes after tnodes tree done
    rw [parseEntries] at done
    cases hp : e.isParsed with
    | false =>
      rw [if_neg (by simp [hp])] at done
      rw [filter_cons_of_neg (by simp [hp])]
      exact ih done
    | true =>
      rw [if_pos hp] at done
      rw [filter_cons_of_pos hp]
      split at done
      · rename_i added
        obtain ⟨child, made, rfl⟩ := addParsedEntry_done added
        obtain ⟨others, ham, rfl⟩ := ih done
        refine ⟨(e.parsedName, child) :: others, .cons made ham, ?_⟩
        funext name
        rw [emplace_apply, Option.or_assoc, lookup_cons_eq]
      rename_i notDone
      exact absurd done (notDone _ _)

lemma plain_of_names (legal : ∀ e ∈ entries.filter isLive, e.Legal)
    (sameNames : ∀ name, name ∈ (entries.filter isParsed).map parsedName ↔
        name ∈ (entries.filter isLive).map shortName) : ∀ e ∈ entries, e.Plain := by
  have hlo : ∀ e ∈ entries, e.isLive → e.Legal := fun e mem live =>
    legal e (mem_filter.mpr ⟨mem, live⟩)
  have hod : ∀ e ∈ entries, e.isParsed →
      ∃ other ∈ entries, other.isLive ∧ other.shortName = e.parsedName := by
    intro e mem hp
    have named := (sameNames _).mp (mem_map_of_mem (mem_filter.mpr ⟨mem, hp⟩))
    obtain ⟨other, ho, same⟩ := mem_map.mp named
    obtain ⟨he, live⟩ := mem_filter.mp ho
    exact ⟨other, he, live, same⟩
  have hma : ∀ e ∈ entries, e.isLive → e.ordinal ≠ 0xE8 := by
    intro e mem live hmar
    have named := (sameNames _).mpr (mem_map_of_mem (mem_filter.mpr ⟨mem, live⟩))
    obtain ⟨other, ho, same⟩ := mem_map.mp named
    obtain ⟨he, hp⟩ := mem_filter.mp ho
    obtain ⟨hu, used, rest⟩ := isParsed_iff.mp hp
    have hs : other.ordinal ≠ space := by
      by_cases hd : other.ordinal = 0xE5
      · rw [hd]; decide
      · exact (hlo other he (isLive_iff.mpr ⟨used, hd, rest⟩)).2.2
    have heads := congrArg head? same
    rw [head?_parsedName hs used, head?_shortName (hlo e mem live).2.2] at heads
    exact hu ((some.inj heads).trans hmar)
  intro e mem
  refine ⟨fun hd => ?_, hma e mem, fun live => ?_⟩
  · by_contra hh
    rw [not_or] at hh
    have hp : e.isParsed := by
      refine isParsed_iff.mpr ⟨?_, ?_, hh.1, ?_, hh.2⟩
      · rw [hd]; decide
      · rw [hd]; decide
      · rw [hd]; decide
    obtain ⟨other, he, live, same⟩ := hod e mem hp
    have heads := congrArg head? same
    rw [head?_shortName (hlo other he live).2.2, head?_parsedName (by rw [hd]; decide)
        (by rw [hd]; decide)] at heads
    exact (isLive_iff.mp live).2.1 ((some.inj heads).trans hd)
  by_contra hun
  obtain ⟨used, -, rest⟩ := isLive_iff.mp live
  obtain ⟨other, he, hol, same⟩ := hod e mem (isParsed_iff.mpr ⟨hma e mem live, used, rest⟩)
  exact parsedName_ne_shortName (hlo e mem live) (hlo other he hol) hun same.symm

/-- A mount that ends has seen plain entries only. -/
lemma Disk.plain_of_done : ∀ {cl : Nat} {clusters : List Nat} {nodes after : Nodes} {tree : Tnodes},
    disk.treeOf fuel cl = some tree → disk.walk cl = some clusters →
    parseDirData disk fuel nodes clusters = .done after tree →
    ∀ e ∈ disk.listing fuel cl, e.Plain := by
  induction fuel with
  | zero => intro cl clusters nodes after tree ht; cases ht
  | succ fuel ih =>
    intro cl clusters nodes after tree ht hwa done
    obtain ⟨entries, children, he, legal, hu, hch, rfl⟩ := treeOf_succ ht
    have hw : clusters.flatMap disk.contents = entries := by
      rw [entriesOf, hwa] at he
      exact some.inj he
    rw [parseDirData, hw] at done
    obtain ⟨read, ham, same⟩ := parseEntries_done done
    have hod := forall₂_childrenOf hch
    have hrn := forall₂_names ham fun _ _ made => made.1
    have hdn := forall₂_names hod fun _ _ made => made.1
    have hl : ∀ name, children.lookup name = read.lookup name := fun name => congrFun same name
    have plain := plain_of_names legal fun name => by
      rw [← hrn, ← hdn, ← lookup_isSome_iff, ← lookup_isSome_iff, hl]
    have hpl := filter_congr fun e mem => (plain e mem).isParsed_eq
    have hsn : read.map Prod.fst = children.map Prod.fst := by
      rw [hrn, hdn, hpl]
      apply map_congr_left
      intro e mem
      exact parsedName_eq_shortName (legal e mem)
        ((plain e (mem_filter.mp mem).1).padded (mem_filter.mp mem).2)
    have once : (children.map Prod.fst).Nodup := hdn ▸ hu
    intro e mem
    rw [listing, he, getD_some, mem_flatMap] at mem
    obtain ⟨parent, hp, hin⟩ := mem
    rcases mem_cons.mp hin with rfl | below
    · exact plain e hp
    -- both tables have the directory under its name
    split_ifs at below with isSub
    · rw [Bool.and_eq_true] at isSub
      have hli := mem_filter.mpr ⟨hp, isSub.1⟩
      obtain ⟨child, hic, named, hc⟩ := forall₂_mem hod hli
      obtain ⟨made, hir, hh, hma⟩ := forall₂_mem ham (hpl ▸ hli)
      obtain ⟨_, _, _, sub, hsw, hsd, hsu⟩ := hma isSub.2
      have hna : made.1 = child.1 := by
        rw [hh, named, parsedName_eq_shortName (legal parent hli)
          ((plain parent hp).padded isSub.1)]
      have found := lookup_of_mem (hsn ▸ once) hir
      rw [hna, ← hl, lookup_of_mem once hic, hsu] at found
      rw [childOf, if_pos isSub.2, some.inj found] at hc
      obtain ⟨subTree, hst, equal⟩ := map_eq_some_iff.mp hc
      obtain rfl : subTree = sub := by injection equal
      exact ih hst hsw hsd e below
    · cases below

lemma Disk.legal_of_treeOf : ∀ {cl : Nat} {tree : Tnodes}, disk.treeOf fuel cl = some tree →
    ∀ e ∈ disk.listing fuel cl, e.isLive → e.Legal := by
  induction fuel with
  | zero => intro cl tree ht; cases ht
  | succ fuel ih =>
    intro cl tree ht e mem live
    obtain ⟨entries, _, he, legal, -, hc, -⟩ := treeOf_succ ht
    rw [listing, he, getD_some, mem_flatMap] at mem
    obtain ⟨_, hp, hin⟩ := mem
    rcases mem_cons.mp hin with rfl | below
    · exact legal e (mem_filter.mpr ⟨hp, live⟩)
    split_ifs at below with isSub
    · rw [Bool.and_eq_true] at isSub
      obtain ⟨_, -, -, hch⟩ := forall₂_mem (forall₂_childrenOf hc) (mem_filter.mpr ⟨hp, isSub.1⟩)
      rw [childOf, if_pos isSub.2] at hch
      obtain ⟨_, hst, -⟩ := map_eq_some_iff.mp hch
      exact ih hst e below live
    · cases below

/-- A volume is mounted with its tree if and only if all its entries are plain and
no name occurs twice on the whole volume. -/
theorem mounts_iff_plain (disk : Disk) (tree : Tnodes)
    (onDisk : disk.treeOf disk.table.length disk.rootClNum = some tree) :
    disk.Mounts tree ↔ disk.Plain := by
  obtain ⟨clusters, hw⟩ := walk_of_treeOf onDisk
  have start : Nodes.Fresh ⟨[], [[]]⟩ [] := by constructor <;> simp [fileNames, directoryNames]
  have hin : disk.init = parseDirData disk disk.table.length ⟨[], [[]]⟩ clusters := by
    simp [init, hw]
  unfold Disk.Mounts
  rw [hin]
  constructor
  · rintro ⟨_, done⟩
    have hp := plain_of_done onDisk hw done
    rw [reads_of_plain _ _ onDisk hp clusters _ hw start] at done
    split_ifs at done with fresh
    exact ⟨hp, by simpa using fresh.files, fresh.directories.of_append_right⟩
  intro hp
  rw [reads_of_plain _ _ onDisk hp.entries clusters _ hw start]
  refine ⟨_, if_pos ⟨by simpa using hp.files, ?_⟩⟩
  -- no directory below the root has its empty name
  refine nodup_cons.mpr ⟨fun he => ?_, hp.directories⟩
  obtain ⟨e, member, hem⟩ := mem_map.mp he
  obtain ⟨hl, kind⟩ := mem_filter.mp member
  have live : e.isLive := (Bool.and_eq_true _ _ ▸ kind).1
  have head := head?_shortName (legal_of_treeOf onDisk e hl live).2.2
  rw [hem] at head
  cases head

def lettered (letter attributes : UInt8) (cl : UInt16) : Entry :=
  ⟨letter :: List.replicate 10 space, attributes, 0, cl, rfl⟩

def nested (letter : UInt8) : Disk where
  table := [0x0FFFFFF8, 0x0FFFFFFF, 0x0FFFFFF8, 0x0FFFFFF8, 0x0FFFFFF8, 0x0FFFFFF8]
  contents
    | 2 => [lettered 0x41 0x20 3, lettered 0x44 0x10 4]
    | 4 => [lettered letter 0x20 5]
    | _ => []
  rootClNum := 2
  small := by decide

theorem mounts_iff_plain_nested :
    ∃ tree, (nested 0x42).treeOf 6 2 = some tree ∧ (nested 0x42).Mounts tree := by
  obtain ⟨tree, hod⟩ := isSome_iff_exists.mp (show ((nested 0x42).treeOf 6 2).isSome from rfl)
  refine ⟨tree, hod, (mounts_iff_plain (nested 0x42) tree hod).mpr ?_⟩
  refine ⟨?_, by decide, by decide⟩
  intro e member
  have listed : e ∈ [lettered 0x41 0x20 3, lettered 0x44 0x10 4, lettered 0x42 0x20 5] := member
  simp only [mem_cons, not_mem_nil, or_false] at listed
  have hp : ∀ letter attributes cl, (lettered letter attributes cl).Padded :=
    fun _ _ _ _ _ member => (mem_replicate.mp member).2
  rcases listed with rfl | rfl | rfl <;>
    exact ⟨by decide, by decide, fun _ => hp _ _ _⟩

/-- A file in a directory has the name of a file in the root directory: the
volume is not mounted at all. -/
theorem not_mounts_sameName : ((nested 0x41).treeOf 6 2).isSome ∧ (nested 0x41).init = .failed :=
  ⟨rfl, rfl⟩

end OoOS.Fs.Fat32
