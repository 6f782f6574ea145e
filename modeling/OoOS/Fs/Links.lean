import Mathlib.Logic.Function.Basic

/-!
# Links in a ramfs

An entry (tnode) points at a vnode, which records the addresses of its entries.
`xunlink` uses an entry that was destroyed, and a new hard link is moved after
its address was recorded.
-/

namespace OoOS.Fs.Links

inductive Fault
  | destroyedTnode
  | nullVnode
  | destroyedVnode
  | endless
  deriving DecidableEq

/-- Entries are in the sets of directories; temporary ones are on the stack. -/
inductive Address
  | heap (n : Nat)
  | stack (n : Nat)
  deriving DecidableEq

structure Tnode where
  node : Option Nat
  name : String

/-- The entries of a directory by their names; the order of the set is left
open. -/
inductive Body
  | file
  | directory (entries : List (String × Nat))

structure Vnode where
  body : Body
  name : String
  refs : List Address

/-- Nodes and entries that are not destroyed; `vnodeCt` and `tnodeCt` are the
next addresses. -/
structure Ramfs where
  vnodes : Nat → Option Vnode
  vnodeCt : Nat
  tnodes : Nat → Option Tnode
  tnodeCt : Nat

def start : Ramfs where
  vnodes := Function.update (fun _ => none) 0 (some ⟨.directory [], "", []⟩)
  vnodeCt := 1
  tnodes := fun _ => none
  tnodeCt := 0

inductive Reply
  | returned (value : Bool)
  | threw (what : String)
  deriving DecidableEq

namespace Ramfs

variable (s : Ramfs)

def entries (dir : Nat) : Option (List (String × Nat)) :=
  match s.vnodes dir with
  | some ⟨.directory entries, _, _⟩ => some entries
  | _ => none

def find (dir : Nat) (name : String) : Option Nat :=
  (s.entries dir).bind fun entries => entries.lookup name

def setEntries (dir : Nat) (entries : List (String × Nat)) : Ramfs :=
  { s with
    vnodes := Function.update s.vnodes dir
      ((s.vnodes dir).map fun vnode =>
        { vnode with body := .directory entries }) }

def addReference (node : Nat) (ref : Address) : Ramfs :=
  { s with
    vnodes := Function.update s.vnodes node
      ((s.vnodes node).map fun vnode =>
        { vnode with refs :=
            if ref ∈ vnode.refs then vnode.refs else ref :: vnode.refs }) }

def readTnode (tnode : Nat) : Except Fault Tnode :=
  match s.tnodes tnode with
  | none => .error .destroyedTnode
  | some found => .ok found

def readVnode (node : Option Nat) : Except Fault (Nat × Vnode) :=
  match node with
  | none => .error .nullVnode
  | some id =>
    match s.vnodes id with
    | none => .error .destroyedVnode
    | some vnode => .ok (id, vnode)

def vnodeName (node : Nat) : String :=
  match s.vnodes node with
  | none => ""
  | some vnode => vnode.name

def makeNode (body : Body) (name : String) : Ramfs :=
  { s with
    vnodes := Function.update s.vnodes s.vnodeCt (some ⟨body, name, []⟩)
    vnodeCt := s.vnodeCt + 1 }

/-- An entry that was constructed in the set of a directory stays there if its
name is new. -/
def emplace (dir : Nat) (tnode : Tnode) : Bool × Ramfs :=
  match s.find dir tnode.name with
  | some _ => (false, { s with tnodeCt := s.tnodeCt + 1 })
  | none =>
    (true,
      { s.setEntries dir
          ((s.entries dir).getD [] ++ [(tnode.name, s.tnodeCt)]) with
        tnodes := Function.update s.tnodes s.tnodeCt (some tnode)
        tnodeCt := s.tnodeCt + 1 })

def add (dir node : Nat) : Ramfs :=
  ((s.addReference node (.heap s.tnodeCt)).emplace dir
    ⟨some node, s.vnodeName node⟩).2

def openFile (path : String) (parent : Nat) (name : String) (create : Bool) :
    Except Fault (Reply × Ramfs) :=
  match s.find parent name with
  | some node => do
      let tnode ← s.readTnode node
      let found ← s.readVnode tnode.node
      match found.2.body with
      | .directory _ => .ok (.threw ("[FS] path " ++ path ++ " exists and is a directory"), s)
      | .file => .ok (.returned true, s)
  | none =>
    if create then
      .ok (.returned true, (s.makeNode .file name).add parent s.vnodeCt)
    else .ok (.threw ("[FS] file not found: " ++ path), s)

def openDirectory (path : String) (parent : Nat) (name : String)
    (create : Bool) : Except Fault (Reply × Ramfs) :=
  match s.find parent name with
  | some node => do
      let tnode ← s.readTnode node
      let found ← s.readVnode tnode.node
      match found.2.body with
      | .directory _ => .ok (.returned true, s)
      | .file => .ok (.threw ("[FS] path " ++ path ++ " exists and is a file"), s)
  | none =>
    if create then
      .ok (.returned true, (s.makeNode (.directory []) name).add parent s.vnodeCt)
    else
      .ok (.threw ("[FS] path " ++ path ++ " does not exist (use open_directory(\"" ++ path ++
        "\", true) to create it)"), s)

/-- `mklink`: the constructor records the address of the temporary entry. -/
def mklink (original : Tnode) (name : String) (slot : Nat) : Tnode × Ramfs :=
  (⟨original.node, name⟩, match original.node with
    | none => s
    | some node => s.addReference node (.stack slot))

/-- `ramfs_directory_vnode::link`: the temporary entry is moved into the set,
which records nothing. -/
def directoryLink (dir original : Nat) (name : String) (slot : Nat) :
    Except Fault (Bool × Ramfs) := do
  let tnode ← s.readTnode original
  let made := s.mklink tnode name slot
  .ok (made.2.emplace dir made.1)

/-- `xlink`; `slot` is the place of the temporary entry on the stack. -/
def xlink (ogparent : Nat) (ogname : String) (tgparent : Nat)
    (tgname : String) (slot : Nat) : Except Fault (Reply × Ramfs) :=
  match s.find ogparent ogname with
  | none => .ok (.threw ("[FS] path does not exist: " ++ s.vnodeName ogparent ++ "/" ++ ogname), s)
  | some node =>
    match s.find tgparent tgname with
    | some _ =>
      .ok (.threw ("[FS] target " ++ s.vnodeName tgparent ++ "/" ++ tgname ++ " already exists"), s)
    | none => do
        let linked ← s.directoryLink tgparent node tgname slot
        if linked.1 then .ok (.returned true, linked.2)
        else
          .ok (.threw ("[FS] failed to create link: " ++
            s.vnodeName tgparent ++ "/" ++ tgname), linked.2)

def directoryUnlink (dir : Nat) (what : String) : Bool × Ramfs :=
  match s.find dir what with
  | none => (false, s)
  | some tnode =>
    (true,
      { s.setEntries dir
          (((s.entries dir).getD []).filter fun entry => entry.1 ≠ what) with
        tnodes := Function.update s.tnodes tnode none })

def rmReference (node : Nat) (vnode : Vnode) (tnode : Nat) : Except Fault Ramfs :=
  if .heap tnode ∈ vnode.refs then do
    let entry ← s.readTnode tnode
    .ok
      { s with
        vnodes := Function.update s.vnodes node
          (some { vnode with
            refs := vnode.refs.filter fun ref => ref ≠ .heap tnode })
        tnodes := Function.update s.tnodes tnode
          (some { entry with node := none }) }
  else .ok s

/-- `dlfilenode` and `dldirnode`, which only takes an empty directory. -/
def deleteNode (node : Nat) (vnode : Vnode) : Reply × Ramfs :=
  match vnode.body with
  | .file => (.returned true, { s with vnodes := Function.update s.vnodes node none })
  | .directory [] => (.returned true, { s with vnodes := Function.update s.vnodes node none })
  | .directory _ =>
    (.threw ("[FS/RAMFS] cannot delete directory " ++ vnode.name ++ " because it is not empty"), s)

def xunlinkEntry (parent : Nat) (what : String) (node : Nat) : Except Fault (Reply × Ramfs) :=
  let unlinked := s.directoryUnlink parent what
  if unlinked.1 then do
    let tnode ← unlinked.2.readTnode node
    let target ← unlinked.2.readVnode tnode.node
    let removed ← unlinked.2.rmReference target.1 target.2 node
    let tnode ← removed.readTnode node
    let target ← removed.readVnode tnode.node
    if target.2.refs = [] then .ok (removed.deleteNode target.1 target.2)
    else .ok (.returned true, removed)
  else .ok (.returned false, unlinked.2)

def soleDirectory (node : Nat) : Except Fault (Option (List String)) := do
  let tnode ← s.readTnode node
  match tnode.node with
  | none => .ok none
  | some id =>
    let target ← s.readVnode (some id)
    match target.2.body with
    | .file => .ok none
    | .directory entries =>
      if target.2.refs.length < 2 then .ok (some (entries.map Prod.fst))
      else .ok none

def unlinkAll
    (unlink : Ramfs → Nat → String → Except Fault (Reply × Ramfs))
    (node : Nat) : List String → Ramfs → Except Fault (Reply × Ramfs)
  | [], s => .ok (.returned true, s)
  | name :: names, s => do
      let tnode ← s.readTnode node
      let target ← s.readVnode tnode.node
      let unlinked ← unlink s target.1 name
      match unlinked.1 with
      | .threw what => .ok (.threw what, unlinked.2)
      | .returned _ => unlinkAll unlink node names unlinked.2

def xunlink : (fuel : Nat) → Ramfs → Nat → String → Bool → Bool → Except Fault (Reply × Ramfs)
  | 0, _, _, _, _, _ => .error .endless
  | fuel + 1, s, parent, what, ignoreNonexistent, dirRecurse =>
    match s.find parent what with
    | none =>
      if ignoreNonexistent then .ok (.returned false, s)
      else
        .ok (.threw ("[FS] cannot unlink " ++ what ++ " because it does not exist"), s)
    | some node => do
        match ← s.soleDirectory node with
        | none => s.xunlinkEntry parent what node
        | some names =>
          if names ≠ [] ∧ dirRecurse = false then
            .ok (.threw ("[FS] folder " ++ what ++
              " cannot be deleted because it is not empty (call with " ++
              "dir_recurse = true to remove it anyway)"), s)
          else if dirRecurse then do
            let cleared ← unlinkAll (fun s dir name => xunlink fuel s dir name true true)
              node names s
            match cleared.1 with
            | .threw what => .ok (.threw what, cleared.2)
            | .returned _ => cleared.2.xunlinkEntry parent what node
          else s.xunlinkEntry parent what node

end Ramfs

inductive Call
  | openFile (path : String) (parent : Nat) (name : String) (create : Bool)
  | openDirectory (path : String) (parent : Nat) (name : String)
      (create : Bool)
  | link (ogparent : Nat) (ogname : String) (tgparent : Nat)
      (tgname : String) (slot : Nat)
  | unlink (parent : Nat) (what : String) (ignoreNonexistent dirRecurse : Bool)

namespace Ramfs

def isDirectory (s : Ramfs) (node : Nat) : Prop := (s.entries node).isSome

instance (s : Ramfs) (node : Nat) : Decidable (s.isDirectory node) :=
  inferInstanceAs (Decidable ((s.entries node).isSome = true))

/-- Calls are made with directories that exist; an exception leaves the state
as it is when it is thrown. -/
def step (s : Ramfs) : Call → Except Fault Ramfs
  | .openFile path parent name create =>
    if s.isDirectory parent then
      (s.openFile path parent name create).map Prod.snd
    else .ok s
  | .openDirectory path parent name create =>
    if s.isDirectory parent then
      (s.openDirectory path parent name create).map Prod.snd
    else .ok s
  | .link ogparent ogname tgparent tgname slot =>
    if s.isDirectory ogparent ∧ s.isDirectory tgparent then
      (s.xlink ogparent ogname tgparent tgname slot).map Prod.snd
    else .ok s
  | .unlink parent what ignoreNonexistent dirRecurse =>
    if s.isDirectory parent then
      (xunlink (s.vnodeCt + 1) s parent what ignoreNonexistent
        dirRecurse).map Prod.snd
    else .ok s

def run (s : Ramfs) (calls : List Call) : Except Fault Ramfs := calls.foldlM step s

end Ramfs

def HasEntry (s : Ramfs) (dir : Nat) (name : String) (tnode : Nat) : Prop :=
  ∃ entries, s.entries dir = some entries ∧ (name, tnode) ∈ entries

def PointsAt (s : Ramfs) (tnode node : Nat) : Prop :=
  (∃ dir name, HasEntry s dir name tnode) ∧
    ∃ entry, s.tnodes tnode = some entry ∧ entry.node = some node

/-- The references of a node are the entries that point at it, and a node
exists, the root directory apart, as long as there is one. -/
structure Counted (s : Ramfs) : Prop where
  refs : ∀ node vnode, s.vnodes node = some vnode → ∀ address, address ∈ vnode.refs ↔
      ∃ tnode, address = .heap tnode ∧ PointsAt s tnode node
  deleted : ∀ node, node < s.vnodeCt → node ≠ 0 →
    ((s.vnodes node).isSome ↔ ∃ tnode, PointsAt s tnode node)

/-- A directory with entries and fewer than two references, which is not to be
removed with all that is in it. -/
def Blocked (s : Ramfs) (tnode : Nat) (dirRecurse : Bool) : Prop :=
  ∃ names, s.soleDirectory tnode = .ok (some names) ∧ names ≠ [] ∧ dirRecurse = false

/-- No call makes a hard link or gets as far as removing an entry. -/
def Harmless (s : Ramfs) : Call → Prop
  | .openFile _ _ _ _ => True
  | .openDirectory _ _ _ _ => True
  | .link ogparent ogname tgparent tgname _ =>
    s.isDirectory ogparent → s.isDirectory tgparent →
      s.find ogparent ogname = none ∨ (s.find tgparent tgname).isSome
  | .unlink parent what _ dirRecurse =>
    ∀ tnode, s.find parent what = some tnode → Blocked s tnode dirRecurse

end OoOS.Fs.Links
