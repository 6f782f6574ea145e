import Mathlib.Data.List.Perm.Subperm
import OoOS.Libk.Split

/-!
# Symbolic links of an ext volume

`find_r`, `__resolve_link_r` and `resolve_symlink` over the nodes that are in
memory, with the set of the links that a lookup has followed.
-/

namespace OoOS.Fs.Symlinks

open List Libk

abbrev Name := List Char

/-- A node, with the entries that a directory has on the disk.  A link has no text if
it cannot be read. -/
inductive Node where
  | file
  | directory (entries : List (Name × Nat))
  | link (text : Option Name)

/-- The nodes, the directories whose entries are in `directory_tnodes` and those that
`on_open` can read. -/
structure Graph where
  root : Nat
  nodes : List Node
  opened : Nat → Bool
  readable : Nat → Bool

inductive LinkError where
  | circularLink
  | readFailed
  | badSymlink
  | emptyPath
  | brokenLink
  | notADirectory
  deriving DecidableEq

abbrev Found := Except LinkError (Option Nat) × List Nat

namespace Graph

variable (g : Graph)

def node (id : Nat) : Node := g.nodes.getD id .file

def entry (dir : Nat) (name : Name) : Option Nat :=
  match g.node dir with
  | .directory entries => entries.lookup name
  | _ => none

def isDirectory (id : Nat) : Bool :=
  match g.node id with
  | .directory _ => true
  | _ => false

def pathspec (text : Name) : List Name := (split '/' text).filter (· ≠ [])

/-- Where `__resolve_link_r` starts.  `strncmp` of `char_traits.hpp` also compares the
character after the separator, so only the link to the root itself counts as absolute. -/
def start (dir : Nat) (text : Name) : Nat := if text = ['/'] then g.root else dir

def resolveSymlink (find : Nat → Name → List Nat → Option Found) :
    Nat → List Name → List Nat → Option Found
  | _, [], checked => some (.error .emptyPath, checked)
  | dir, [last], checked => find dir last checked
  | dir, name :: next :: rest, checked =>
    (find dir name checked).bind fun
      | (.ok (some id), checked) =>
        if g.isDirectory id then resolveSymlink find id (next :: rest) checked
        else some (.error .notADirectory, checked)
      | (.ok none, checked) => some (.error .brokenLink, checked)
      | (.error error, checked) => some (.error error, checked)

/-- `find_r` with `__resolve_link_r`; `none` if it does not return in time. -/
def findR : (fuel : Nat) → Nat → Name → List Nat → Option Found
  | 0, _, _, _ => none
  | fuel + 1, dir, name, checked =>
    match if g.opened dir then g.entry dir name else none with
    | none => some (.ok none, checked)
    | some id =>
      match g.node id with
      | .link text =>
        if id ∈ checked then some (.error .circularLink, checked)
        else
          match text with
          | none => some (.error .readFailed, id :: checked)
          | some text =>
            (g.resolveSymlink (findR fuel) (g.start dir text) (pathspec text) (id :: checked)).map
              fun
                | (.ok none, checked) => (.error .badSymlink, checked)
                | found => found
      | _ => some (.ok (some id), checked)

/-- The graph after a successful `on_open` of a directory. -/
def onOpen (dir : Nat) : Graph := { g with opened := fun id => g.opened id || id == dir }

def find (fuel dir : Nat) (name : Name) : Option Found :=
  if g.opened dir || g.readable dir then (g.onOpen dir).findR fuel dir name []
  else some (.ok none, [])

end Graph

variable {find : Nat → Name → List Nat → Option Found}

variable {g : Graph} {checked : List Nat}

def Fresh (g : Graph) (checked : List Nat) : Prop :=
  checked.Nodup ∧ ∀ id ∈ checked, id < g.nodes.length

def Ends (g : Graph) (checked : List Nat) (result : Option Found) : Prop :=
  ∃ found, result = some found ∧ Fresh g found.2 ∧ checked.length ≤ found.2.length

lemma Fresh.length_le (fresh : Fresh g checked) : checked.length ≤ g.nodes.length := by
  have hs : checked ⊆ range g.nodes.length := fun id hi => mem_range.mpr (fresh.2 id hi)
  simpa using (subperm_of_subset fresh.1 hs).length_le

lemma lt_length_of_link {id : Nat} {text : Option Name} (isLink : g.node id = .link text) :
    id < g.nodes.length := by
  by_contra hn
  simp [Graph.node, getElem?_eq_none (Nat.le_of_not_lt hn)] at isLink

lemma resolveSymlink_ends {least : Nat}
    (ends : ∀ dir name checked, Fresh g checked → least ≤ checked.length →
      Ends g checked (find dir name checked)) (path : List Name) :
    ∀ dir checked, Fresh g checked → least ≤ checked.length →
      Ends g checked (g.resolveSymlink find dir path checked) := by
  induction path with
  | nil => exact fun _ _ hc _ => ⟨_, rfl, hc, Nat.le_refl _⟩
  | cons name rest ih =>
    intro dir checked hc hl
    have he := ends dir name checked hc hl
    cases rest with
    | nil => exact he
    | cons next rest =>
      obtain ⟨⟨result, after⟩, hr, ha, hle⟩ := he
      rw [Graph.resolveSymlink, hr, Option.bind_some]
      match result with
      | .error _ => exact ⟨_, rfl, ha, hle⟩
      | .ok none => exact ⟨_, rfl, ha, hle⟩
      | .ok (some id) =>
        dsimp only
        split
        · obtain ⟨found, hs, hn, hm⟩ := ih id after ha (by dsimp only at hle; omega)
          exact ⟨found, hs, hn, by dsimp only at hle; omega⟩
        · exact ⟨_, rfl, ha, hle⟩

/-- Each link is followed once at most. -/
lemma findR_ends (fuel : Nat) : ∀ dir name checked, Fresh g checked →
    g.nodes.length + 1 ≤ fuel + checked.length →
      Ends g checked (g.findR fuel dir name checked) := by
  induction fuel with
  | zero =>
    intro dir name checked hc hl
    have := hc.length_le
    omega
  | succ fuel ih =>
    intro dir name checked hc hl
    rw [Graph.findR]
    split
    · exact ⟨_, rfl, hc, Nat.le_refl _⟩
    next id _ =>
      split
      next text hn =>
        split
        · exact ⟨_, rfl, hc, Nat.le_refl _⟩
        next hi =>
          have hc' : Fresh g (id :: checked) :=
            ⟨nodup_cons.mpr ⟨hi, hc.1⟩, forall_mem_cons.mpr ⟨lt_length_of_link hn, hc.2⟩⟩
          cases text with
          | none => exact ⟨_, rfl, hc', by simp⟩
          | some text =>
            have hf : ∀ dir name c, Fresh g c → checked.length + 1 ≤ c.length →
                Ends g c (g.findR fuel dir name c) :=
              fun dir name c hc hl => ih dir name c hc (by omega)
            obtain ⟨⟨result, after⟩, hr, ha, hle⟩ := resolveSymlink_ends hf (Graph.pathspec text)
              (g.start dir text) (id :: checked) hc' (by simp)
            rw [length_cons] at hle
            dsimp only
            rw [hr]
            match result with
            | .error _ => exact ⟨_, rfl, ha, by dsimp only at hle ⊢; omega⟩
            | .ok none => exact ⟨_, rfl, ha, by dsimp only at hle ⊢; omega⟩
            | .ok (some _) => exact ⟨_, rfl, ha, by dsimp only at hle ⊢; omega⟩
      · exact ⟨_, rfl, hc, Nat.le_refl _⟩

theorem find_ends (g : Graph) (dir : Nat) (name : Name) :
    ∃ fuel found, g.find fuel dir name = some found ∧ found.2.Nodup := by
  unfold Graph.find
  split
  · obtain ⟨found, ends, fresh, -⟩ := findR_ends (g.nodes.length + 1) dir name []
      (show Fresh (g.onOpen dir) [] from ⟨nodup_nil, by simp⟩) (Nat.le_refl _)
    exact ⟨_, found, ends, fresh.1⟩
  · exact ⟨0, _, rfl, nodup_nil⟩

/-- The node a path leads to, the links followed and the directories looked in, where the
text of a link is read from the directory that `start` gives. -/
inductive Resolves (g : Graph) (start : Nat → Name → Nat) :
    Nat → List Name → Nat → List Nat → List Nat → Prop
  | done (dir : Nat) : Resolves g start dir [] dir [] []
  | node {dir id target : Nat} {name : Name} {rest : List Name} {links dirs : List Nat}
    (entry : g.entry dir name = some id) (noLink : ∀ text, g.node id ≠ .link text)
    (resolved : Resolves g start id rest target links dirs) :
    Resolves g start dir (name :: rest) target links (dir :: dirs)
  | link {dir id middle target : Nat} {name text : Name} {rest : List Name}
    {links dirs links' dirs' : List Nat} (entry : g.entry dir name = some id)
    (isLink : g.node id = .link (some text)) (nonempty : text ≠ [])
    (followed : Resolves g start (start dir text) (Graph.pathspec text) middle links dirs)
    (resolved : Resolves g start middle rest target links' dirs') :
    Resolves g start dir (name :: rest) target (id :: links ++ links') (dir :: dirs ++ dirs')

/-- Where the text of a link is to be read from: an absolute one from the root. -/
def Graph.origin (g : Graph) (dir : Nat) (text : Name) : Nat :=
  if text.head? = some '/' then g.root else dir

def Pointed (g : Graph) (id : Nat) : Prop :=
  ∀ text, g.node id = .link (some text) → Graph.pathspec text ≠ []

def Right (g : Graph) (dir : Nat) (name : Name) : Prop :=
  ∀ target links dirs, Resolves g g.origin dir [name] target links dirs →
    ∃ fuel checked, g.find fuel dir name = some (.ok (some target), checked)

lemma isDirectory_of_entry {dir id : Nat} {name : Name} (hasEntry : g.entry dir name = some id) :
    g.isDirectory dir = true := by
  unfold Graph.entry at hasEntry
  unfold Graph.isDirectory
  split at hasEntry
  · rfl
  · cases hasEntry

variable {path : List Name} {start : Nat → Name → Nat}

lemma Resolves.isDirectory {dir target : Nat} {links dirs : List Nat}
    (resolves : Resolves g start dir path target links dirs) (nonempty : path ≠ []) :
    g.isDirectory dir = true := by
  cases resolves with
  | done => exact absurd rfl nonempty
  | node he => exact isDirectory_of_entry he
  | link he => exact isDirectory_of_entry he

variable {dir id found : Nat} {name text : Name} {after : List Nat}

lemma findR_node_iff (hasEntry : g.entry dir name = some id)
    (noLink : ∀ text, g.node id ≠ .link text)
    (fuel : Nat) : g.findR (fuel + 1) dir name checked = some (.ok (some found), after) ↔
      g.opened dir = true ∧ found = id ∧ after = checked := by
  rw [Graph.findR, hasEntry]
  cases ho : g.opened dir with
  | false => simp
  | true =>
    cases hk : g.node id with
    | link text => exact absurd hk (noLink text)
    | file => simp [eq_comm]
    | directory _ => simp [eq_comm]

lemma findR_link_iff (hasEntry : g.entry dir name = some id)
    (isLink : g.node id = .link (some text))
    (fuel : Nat) : g.findR (fuel + 1) dir name checked = some (.ok (some found), after) ↔
      g.opened dir = true ∧ id ∉ checked ∧ g.resolveSymlink (g.findR fuel) (g.start dir text)
        (Graph.pathspec text) (id :: checked) = some (.ok (some found), after) := by
  rw [Graph.findR, hasEntry]
  cases ho : g.opened dir with
  | false => simp
  | true =>
    simp only [if_true, isLink]
    split
    next hi => simp [hi]
    next hi =>
      simp only [true_and, hi, not_false_eq_true, Option.map_eq_some_iff]
      constructor
      · rintro ⟨⟨result, c⟩, hr, hm⟩
        match result with
        | .error _ => cases hm
        | .ok none => cases hm
        | .ok (some _) => exact hr.trans (congrArg some hm)
      · exact fun hr => ⟨_, hr, rfl⟩

def Walks (g : Graph) (find : Nat → Name → List Nat → Option Found) (dir : Nat)
    (path : List Name) (checked : List Nat) (found : Nat) (after : List Nat) : Prop :=
  if path = [] then found = dir ∧ after = checked
  else g.resolveSymlink find dir path checked = some (.ok (some found), after)

lemma resolveSymlink_iff :
    g.resolveSymlink find dir path checked = some (.ok (some found), after) ↔
      path ≠ [] ∧ Walks g find dir path checked found after := by
  cases path <;> simp [Walks, Graph.resolveSymlink]

lemma walks_cons_iff {rest : List Name} :
    Walks g find dir (name :: rest) checked found after ↔
      ∃ middle c, find dir name checked = some (.ok (some middle), c) ∧
        (rest ≠ [] → g.isDirectory middle = true) ∧ Walks g find middle rest c found after := by
  cases rest with
  | nil =>
    constructor
    · exact fun h => ⟨found, after, h, by simp, rfl, rfl⟩
    rintro ⟨_, _, h, -, rfl, rfl⟩
    exact h
  | cons next rest =>
    simp only [Graph.resolveSymlink, Walks, reduceCtorEq, if_false, ne_eq, not_false_eq_true,
      forall_const]
    constructor
    · intro h
      obtain ⟨⟨result, c⟩, hf, hr⟩ := Option.bind_eq_some_iff.mp h
      match result with
      | .error _ => cases hr
      | .ok none => cases hr
      | .ok (some middle) =>
        dsimp only at hr
        split at hr
        next hd => exact ⟨middle, c, hf, hd, hr⟩
        next => cases hr
    rintro ⟨middle, c, hf, hd, hr⟩
    simp [hf, hd, hr]

variable {target : Nat} {links dirs : List Nat}

/-- A path without a repeated link is resolved by the loop. -/
lemma Resolves.walks (resolves : Resolves g g.start dir path target links dirs) :
    ∀ checked, (links.reverse ++ checked).Nodup → (∀ id ∈ links, Pointed g id) →
    (∀ dir ∈ dirs, g.opened dir = true) → ∃ least, ∀ fuel ≥ least,
      Walks g (g.findR fuel) dir path checked target (links.reverse ++ checked) := by
  induction resolves with
  | done => exact fun _ _ _ _ => ⟨0, fun _ _ => ⟨rfl, rfl⟩⟩
  | node entry noLink resolved ih =>
    intro checked unused pointed opened
    obtain ⟨firstOpened, restOpened⟩ := forall_mem_cons.mp opened
    obtain ⟨least, walked⟩ := ih checked unused pointed restOpened
    refine ⟨least + 1, fun fuel enough => walks_cons_iff.mpr ?_⟩
    obtain ⟨fuel, rfl⟩ := Nat.exists_eq_add_of_le' (Nat.le_trans (Nat.le_add_left 1 least) enough)
    exact ⟨_, _, (findR_node_iff entry noLink fuel).mpr ⟨firstOpened, rfl, rfl⟩,
      resolved.isDirectory, walked _ (by omega)⟩
  | @link dir id middle target name text rest links dirs links' dirs' entry isLink nonempty
      followed resolved followedHypothesis restHypothesis =>
    intro checked unused pointed opened
    obtain ⟨firstOpened, opened⟩ := forall_mem_cons.mp opened
    obtain ⟨firstPointed, pointed⟩ := forall_mem_cons.mp pointed
    have opened := forall_mem_append.mp opened
    have pointed := forall_mem_append.mp pointed
    have order : (id :: links ++ links').reverse ++ checked =
        links'.reverse ++ (links.reverse ++ id :: checked) := by
      simp
    rw [order] at unused ⊢
    have unused' := (nodup_append.mp unused).2.1
    obtain ⟨least, walked⟩ := followedHypothesis (id :: checked) unused' pointed.1 opened.1
    obtain ⟨least', walked'⟩ := restHypothesis _ unused pointed.2 opened.2
    refine ⟨least + least' + 1, fun fuel enough => walks_cons_iff.mpr ?_⟩
    obtain ⟨fuel, rfl⟩ := Nat.exists_eq_add_of_le' (Nat.le_trans (Nat.le_add_left 1 _) enough)
    refine ⟨middle, _, (findR_link_iff entry isLink fuel).mpr ⟨firstOpened, ?_, ?_⟩,
      resolved.isDirectory, walked' _ (by omega)⟩
    · exact (nodup_cons.mp (nodup_append.mp unused').2.1).1
    · exact resolveSymlink_iff.mpr ⟨firstPointed text isLink, walked fuel (by omega)⟩

/-- The links that a walk has followed, in the order of the set. -/
def Followed (g : Graph) (dir : Nat) (path : List Name) (checked : List Nat) (found : Nat)
    (after : List Nat) : Prop :=
  ∃ links dirs, Resolves g g.start dir path found links dirs ∧ after = links.reverse ++ checked ∧
    after.Nodup ∧ (∀ id ∈ links, Pointed g id) ∧ ∀ dir ∈ dirs, g.opened dir = true

/-- What a lookup follows does not depend on which directories are opened. -/
lemma Resolves.mono {other : Graph} (resolves : Resolves g start dir path target links dirs)
    (sameNodes : other.nodes = g.nodes) : Resolves other start dir path target links dirs := by
  have sameNode : other.node = g.node := by
    funext id
    rw [Graph.node, Graph.node, sameNodes]
  have sameEntry : other.entry = g.entry := by
    funext dir name
    rw [Graph.entry, Graph.entry, sameNode]
  induction resolves with
  | done => exact .done _
  | node entry noLink _ ih =>
    exact .node (by rw [sameEntry, entry]) (by rwa [sameNode]) ih
  | link entry isLink nonempty _ _ followed resolved =>
    exact .link (by rw [sameEntry, entry]) (by rw [sameNode, isLink]) nonempty followed resolved

end OoOS.Fs.Symlinks
