import OoOS.Libk.Split

/-!
# Paths across mount points

`get_parent` walks the components of a path up to the last one.  At a mount
point it hands the rest to the file system that is mounted there.
-/

namespace OoOS.Fs.Path

open List Libk

abbrev Name := List Char

/-- A mount has the root directory of the file system that is mounted. -/
inductive Vnode
  | file
  | directory (entries : List (Name × Vnode))
  | mount (root : List (Name × Vnode))

abbrev Entries := List (Name × Vnode)

def find (entries : Entries) (name : Name) : Option Vnode := entries.lookup name

/-- The names from the root of the tree to an entry.  The root directory of a
mounted file system has the place of its mount point. -/
abbrev Place := List Name

inductive ErrorType
  | outOfRange
  | invalidArgument
  | logicError
  | runtimeError
  | permissionError
  deriving DecidableEq

structure Error where
  type : ErrorType
  what : String
  deriving DecidableEq

/-- What `get_parent` returns; `created` are the directories made on the way. -/
inductive Target
  | directory (entries : Entries) (place : Place) (created : List Place)
      (name : Name)
  | mount (root : Entries) (place : Place) (path : List Char)

def missing (component : Name) : Error :=
  ⟨.outOfRange, "[FS] path " ++ String.ofList component ++
    " does not exist (use open_directory(\".../" ++
    String.ofList component ++ "\", true) to create it)"⟩

def walkParent (create : Bool) (start : Entries) (place : Place)
    (created : List Place) (component : Name) :
    List Name → Except Error Target
  | [] => .ok (.directory start place created component)
  | next :: rest =>
    if component = [] then
      walkParent create start place created next rest
    else
      match find start component with
      | none =>
        if create then
          walkParent create [] (place ++ [component])
            (created ++ [place ++ [component]]) next rest
        else
          .error (missing component)
      | some (.mount root) =>
        .ok (.mount root (place ++ [component])
          (join '/' (component :: next :: rest)))
      | some (.directory entries) =>
        walkParent create entries (place ++ [component]) created next rest
      | some .file =>
        .error ⟨.invalidArgument, "[FS] path is invalid because entry " ++
          String.ofList component ++ " is not a directory"⟩

def getParent (create : Bool) (start : Entries) (place : Place)
    (path : List Char) : Except Error Target :=
  let pathspec := split '/' path
  walkParent create start place []
    (pathspec.head (split_ne_nil '/' path)) pathspec.tail

lemma sizeOf_lt_of_find {entries : Entries} {name : Name} {node : Vnode}
    (found : find entries name = some node) : sizeOf node < sizeOf entries := by
  obtain ⟨key, isMem⟩ : ∃ key, (key, node) ∈ entries := by
    obtain ⟨_, _, he, _⟩ := lookup_eq_some_iff.mp found
    exact ⟨_, he ▸ mem_append_right _ mem_cons_self⟩
  have hs := sizeOf_lt_of_mem isMem
  rw [Prod.mk.sizeOf_spec] at hs
  omega

variable {start : Entries} {place : Place} {component : Name} {rest : List Name}
variable {path : List Char} {create : Bool} {created : List Place}

/-- A mounted tree is smaller, so that the walk ends. -/
lemma walkParent_sizeOf {root : Entries} {mountPlace : Place}
    (isMount : walkParent create start place created component rest =
      .ok (.mount root mountPlace path))
    : sizeOf root < sizeOf start := by
  induction rest generalizing start place created component with
  | nil => cases isMount
  | cons _ rest ih =>
    unfold walkParent at isMount
    split at isMount
    · exact ih isMount
    split at isMount
    · split at isMount
      · have hs := ih isMount
        have hl : sizeOf ([] : Entries) ≤ sizeOf start := by
          cases start with
          | nil => exact Nat.le_refl _
          | cons _ start =>
            rw [nil.sizeOf_spec, cons.sizeOf_spec]
            omega
        omega
      · cases isMount
    · rename_i found
      cases isMount
      have hs := sizeOf_lt_of_find found
      rw [Vnode.mount.sizeOf_spec] at hs
      omega
    · rename_i found
      have hs := sizeOf_lt_of_find found
      rw [Vnode.directory.sizeOf_spec] at hs
      have hsm := ih isMount
      omega
    · cases isMount

structure Spot where
  entries : Entries
  place : Place
  created : List Place
  name : Name

def resolve (create : Bool) (start : Entries) (place : Place) (path : List Char) :
    Except Error Spot :=
  match _isTarget : getParent create start place path with
  | .error error => .error error
  | .ok (.directory entries parent created name) => .ok ⟨entries, parent, created, name⟩
  | .ok (.mount root mountPlace rem) => resolve create root mountPlace rem
termination_by sizeOf start
decreasing_by exact walkParent_sizeOf _isTarget

/-- What file systems and vnodes answer about opening and making files. -/
structure Answers where
  onOpen : Place → Bool
  permissionError : Place → Option String
  mkfilenode : Place → Bool
  mkdirnode : Place → Bool

inductive Node
  | entry (place : Place)
  | root (place : Place)
  deriving DecidableEq

/-- The place that an operation looked up, the nodes that it made and what it
returned (`none` for a null pointer) or threw. -/
structure Reply where
  place : Place
  created : List Place
  result : Except Error (Option Node)

section

variable (answers : Answers) (path : List Char)

def Spot.target (spot : Spot) : Place := spot.place ++ [spot.name]

def openedFile (place : Place) : Except Error (Option Node) :=
  if answers.onOpen place then
    match answers.permissionError place with
    | none => .ok (some (.entry place))
    | some what => .error ⟨.permissionError, what⟩
  else .ok none

def openFileAt (create : Bool) (spot : Spot) : Reply :=
  match find spot.entries spot.name with
  | some .file => ⟨spot.target, spot.created, openedFile answers spot.target⟩
  | some _ =>
    ⟨spot.target, spot.created, .error ⟨.logicError,
      "[FS] path " ++ String.ofList path ++ " exists and is a directory"⟩⟩
  | none =>
    if create then
      if answers.mkfilenode spot.target then
        ⟨spot.target, spot.created ++ [spot.target], openedFile answers spot.target⟩
      else
        ⟨spot.target, spot.created, .error ⟨.runtimeError,
          "[FS] failed to create file: " ++ String.ofList path⟩⟩
    else
      ⟨spot.target, spot.created,
        .error ⟨.outOfRange, "[FS] file not found: " ++ String.ofList path⟩⟩

def getFileAt (spot : Spot) : Reply :=
  match find spot.entries spot.name with
  | some .file =>
    ⟨spot.target, spot.created, .ok (if answers.onOpen spot.target then some (.entry spot.target)
        else none)⟩
  | some _ => ⟨spot.target, spot.created, .ok none⟩
  | none =>
    ⟨spot.target, spot.created,
      .error ⟨.runtimeError, "[FS] file not found: " ++ String.ofList path⟩⟩

def openDirectoryAt (create : Bool) (spot : Spot) : Reply :=
  match find spot.entries spot.name with
  | some .file =>
    ⟨spot.target, spot.created, .error ⟨.invalidArgument,
      "[FS] path " ++ String.ofList path ++ " exists and is a file"⟩⟩
  | some _ => ⟨spot.target, spot.created, .ok (some (.entry spot.target))⟩
  | none =>
    if create then
      if answers.mkdirnode spot.target then
        ⟨spot.target, spot.created ++ [spot.target], .ok (some (.entry spot.target))⟩
      else
        ⟨spot.target, spot.created, .error ⟨.runtimeError,
          "[FS] failed to create " ++ String.ofList path⟩⟩
    else
      ⟨spot.target, spot.created, .error ⟨.outOfRange, "[FS] path " ++ String.ofList path ++
        " does not exist (use open_directory(\"" ++ String.ofList path ++
        "\", true) to create it)"⟩⟩

variable (tree : Entries)

def openFile (create : Bool) : Except Error Reply :=
  (resolve create tree [] path).map (openFileAt answers path create)

def getFile : Except Error Reply := (resolve false tree [] path).map (getFileAt answers path)

def openDirectory (create : Bool) : Except Error Reply :=
  if path = [] ∨ path = ['/'] then .ok ⟨[], [], .ok (some (.root []))⟩
  else (resolve create tree [] path).map (openDirectoryAt answers path create)

end

variable {target : Target}

/-- The components from the root, going on at a mount point from the root of the
mounted file system. -/
def walk (start : Entries) (place : Place) (component : Name) : List Name → Option Spot
  | [] => some ⟨start, place, [], component⟩
  | next :: rest =>
    if component = [] then walk start place next rest
    else
      match find start component with
      | some (.directory entries) => walk entries (place ++ [component]) next rest
      | some (.mount root) => walk root (place ++ [component]) next rest
      | _ => none

def walkPath (tree : Entries) (path : List Char) : Option Spot :=
  let pathspec := split '/' path
  walk tree [] (pathspec.head (split_ne_nil '/' path)) pathspec.tail

/-- At a mount point, the walk is in the root of the mounted file system. -/
def Reply.enter (reply : Reply) (spot : Spot) : Reply :=
  match find spot.entries spot.name, reply.result with
  | some (.mount _), .ok (some (.entry place)) => { reply with result := .ok (some (.root place)) }
  | _, _ => reply

def crosses (start : Entries) (component : Name) : List Name → Bool
  | [] => false
  | next :: rest =>
    if component = [] then crosses start next rest
    else
      match find start component with
      | some (.directory entries) => crosses entries next rest
      | some (.mount _) => true
      | _ => false

def crossesMount (tree : Entries) (path : List Char) : Bool :=
  let pathspec := split '/' path
  crosses tree (pathspec.head (split_ne_nil '/' path)) pathspec.tail

def Spot.isMount (spot : Spot) : Bool :=
  match find spot.entries spot.name with
  | some (.mount _) => true
  | _ => false

def countNamed (components : List Name) : Nat := components.countP (· ≠ [])

lemma countNamed_cons (component : Name) (rest : List Name) :
    countNamed (component :: rest) = countNamed rest + if component = [] then 0 else 1 := by
  unfold countNamed
  by_cases he : component = []
  · simp [he]
  · simp [he]

structure Pieces (components : List Name) : Prop where
  notNil : components ≠ []
  named : components.getLast notNil ≠ []
  whole : ∀ component ∈ components, '/' ∉ component

lemma Pieces.tail {next : Name} (pieces : Pieces (component :: next :: rest)) :
    Pieces (next :: rest) := by
  refine ⟨cons_ne_nil next rest, ?_, ?_⟩
  · have named := pieces.named
    rw [getLast_cons] at named
    exact named
  exact (forall_mem_cons.mp pieces.whole).2

/-- The loop of `get_parent` returns a place as deep as the components that it
used. -/
inductive Reaches (depth : Nat) (components : List Name) : Target → Prop
  | directory (entries : Entries) (place : Place) (created : List Place)
      (name : Name) (named : name ≠ [])
      (isDepth : place.length + 1 = depth + countNamed components) :
      Reaches depth components (.directory entries place created name)
  | mount (root : Entries) (place : Place) (rem : List Name)
      (pieces : Pieces rem)
      (isDepth : place.length + countNamed rem = depth + countNamed components + 1) :
      Reaches depth components (.mount root place (join '/' rem))

/-- The parent is reached along the components. -/
lemma walkParent_reaches (pieces : Pieces (component :: rest))
    (isTarget : walkParent create start place created component rest = .ok target) :
    Reaches place.length (component :: rest) target := by
  induction rest generalizing start place created component with
  | nil =>
    cases isTarget
    have named := pieces.named
    rw [getLast_singleton] at named
    refine .directory start place created component named ?_
    rw [countNamed_cons, if_neg named]
    rfl
  | cons next rest ih =>
    -- one component further, in a directory that is one level deeper
    have hd {entries : Entries} {made : List Place}
        (named : component ≠ []) (hn : walkParent create entries (place ++ [component]) made next
          rest = .ok target) : Reaches place.length (component :: next :: rest) target := by
      have hr := ih pieces.tail hn
      rw [length_append, length_singleton] at hr
      cases hr with
      | directory entries inner created name hnam hde =>
        apply Reaches.directory entries inner created name hnam
        rw [countNamed_cons, if_neg named]
        omega
      | mount root inner rem remPieces hde =>
        apply Reaches.mount root inner rem remPieces
        rw [countNamed_cons, if_neg named]
        omega
    unfold walkParent at isTarget
    split at isTarget
    · rename_i isEmpty
      have hr := ih pieces.tail isTarget
      have hsc : countNamed (component :: next :: rest) = countNamed (next :: rest) := by
        rw [countNamed_cons, if_pos isEmpty]
        rfl
      cases hr with
      | directory entries inner created name hnam hde =>
        apply Reaches.directory entries inner created name hnam
        rw [hsc]
        exact hde
      | mount root inner rem remPieces hde =>
        apply Reaches.mount root inner rem remPieces
        rw [hsc]
        exact hde
    rename_i named
    split at isTarget
    · split at isTarget
      · exact hd named isTarget
      · cases isTarget
    · cases isTarget
      apply Reaches.mount _ _ _ pieces
      rw [length_append, length_singleton]
      omega
    · exact hd named isTarget
    · cases isTarget

lemma head_cons_tail_split (path : List Char) :
    (split '/' path).head (split_ne_nil '/' path) :: (split '/' path).tail = split '/' path :=
  cons_head_tail (split_ne_nil '/' path)

lemma getParent_reaches
    (pieces : Pieces (split '/' path)) (isTarget : getParent create start place path = .ok target) :
    Reaches place.length (split '/' path) target := by
  rw [← head_cons_tail_split] at pieces
  have hr := walkParent_reaches pieces isTarget
  rw [head_cons_tail_split] at hr
  exact hr

variable {spot : Spot}

lemma resolve_depth
    (pieces : Pieces (split '/' path)) (isSpot : resolve create start place path = .ok spot) :
    place.length + countNamed (split '/' path) ≤ spot.place.length + 1 := by
  induction start, place, path using resolve.induct create with
  | case1 start place path _ he =>
    rw [resolve, he] at isSpot
    cases isSpot
  | case2 start place path _ _ _ _ ht =>
    rw [resolve, ht] at isSpot
    cases isSpot
    cases getParent_reaches pieces ht with
    | directory _ _ _ _ _ hde => exact Nat.le_of_eq hde.symm
  | case3 start place path _ _ _ ht ih =>
    rw [resolve, ht] at isSpot
    cases getParent_reaches pieces ht with
    | mount _ _ _ remPieces hde =>
      have hs := split_join remPieces.notNil remPieces.named remPieces.whole
      rw [hs] at ih
      have hd := ih remPieces isSpot
      omega

lemma walkParent_of_walk (create : Bool) (walked : walk start place component rest = some spot)
    (noMount : crosses start component rest = false) :
    walkParent create start place [] component rest =
      .ok (.directory spot.entries spot.place [] spot.name) ∧ spot.created = [] := by
  induction rest generalizing start place component with
  | nil =>
    cases walked
    exact ⟨rfl, rfl⟩
  | cons _ rest ih =>
    unfold walk at walked
    unfold crosses at noMount
    unfold walkParent
    by_cases he : component = []
    · rw [if_pos he] at walked noMount ⊢
      exact ih walked noMount
    rw [if_neg he] at walked noMount ⊢
    cases found : find start component with
    | none =>
      rw [found] at walked
      cases walked
    | some node =>
      rw [found] at walked noMount
      cases node with
      | file => cases walked
      | directory entries => exact ih walked noMount
      | mount _ => cases noMount

lemma walkParent_of_crosses (create : Bool) (place : Place)
    (crossing : crosses start component rest = true) :
    ∃ root mountPlace path, walkParent create start place [] component rest =
        .ok (.mount root mountPlace path) := by
  induction rest generalizing start place component with
  | nil => cases crossing
  | cons _ rest ih =>
    unfold crosses at crossing
    unfold walkParent
    by_cases he : component = []
    · rw [if_pos he] at crossing ⊢
      exact ih place crossing
    rw [if_neg he] at crossing ⊢
    cases found : find start component with
    | none =>
      rw [found] at crossing
      cases crossing
    | some node =>
      rw [found] at crossing
      cases node with
      | file => cases crossing
      | directory _ => exact ih _ crossing
      | mount root => exact ⟨_, _, _, rfl⟩

/-- Each named component goes down by one. -/
lemma walk_depth (named : spot.name ≠ []) (walked : walk start place component rest = some spot) :
    spot.place.length + 1 = place.length + countNamed (component :: rest) ∧ spot.name =
        (component :: rest).getLast (cons_ne_nil component rest) := by
  induction rest generalizing start place component with
  | nil =>
    cases walked
    refine ⟨?_, rfl⟩
    rw [countNamed_cons, if_neg named]
    rfl
  | cons next rest ih =>
    rw [countNamed_cons, getLast_cons]
    unfold walk at walked
    split at walked
    · rename_i isEmpty
      rw [if_pos isEmpty]
      exact ih walked
    rename_i isNamed
    rw [if_neg isNamed]
    have hd {entries : Entries}
        (hn : walk entries (place ++ [component]) next rest = some spot) : spot.place.length + 1 =
          place.length + (countNamed (next :: rest) + 1) ∧ spot.name =
          (next :: rest).getLast (cons_ne_nil next rest) := by
      have isEnd := ih hn
      rw [length_append, length_singleton] at isEnd
      exact ⟨by omega, isEnd.2⟩
    split at walked
    · exact hd walked
    · exact hd walked
    · cases walked

variable {tree : Entries}

lemma resolve_of_not_crossesMount (walked : walkPath tree path = some spot)
    (noMount : crossesMount tree path = false) : resolve create tree [] path = .ok spot := by
  have ht := walkParent_of_walk create walked noMount
  have hp : getParent create tree [] path =
      .ok (.directory spot.entries spot.place [] spot.name) := ht.1
  rw [resolve, hp, ← ht.2]

lemma depth_lt_of_crossesMount {looked : Spot}
    (walked : walkPath tree path = some spot) (named : spot.name ≠ [])
    (crossing : crossesMount tree path = true) (isSpot : resolve create tree [] path = .ok looked) :
    spot.target.length < looked.target.length := by
  have isEnd := walk_depth named walked
  simp only [head_cons_tail_split] at isEnd
  have hpi : Pieces (split '/' path) := by
    refine ⟨split_ne_nil '/' path, ?_, fun _ => not_mem_of_mem_split⟩
    rw [← isEnd.2]
    exact named
  obtain ⟨root, mountPlace, rem, ht⟩ := walkParent_of_crosses create [] crossing
  have hp : getParent create tree [] path = .ok (.mount root mountPlace rem) := ht
  rw [resolve, hp] at isSpot
  cases getParent_reaches hpi hp with
  | mount _ _ _ remPieces hde =>
    have hs := split_join remPieces.notNil remPieces.named remPieces.whole
    have hd := resolve_depth (hs.symm ▸ remPieces) isSpot
    rw [hs] at hd
    unfold Spot.target
    rw [length_append, length_append, length_singleton, length_singleton]
    omega

section

variable (answers : Answers) (create : Bool)

open Reply

lemma enter_place (reply : Reply) : (reply.enter spot).place = reply.place := by
  unfold enter
  split
  · rfl
  · rfl

lemma openFileAt_place (spot : Spot) :
    (openFileAt answers path create spot).place = spot.target := by
  unfold openFileAt
  split
  · rfl
  · rfl
  split
  · split
    · rfl
    · rfl
  · rfl

lemma getFileAt_place (spot : Spot) : (getFileAt answers path spot).place = spot.target := by
  unfold getFileAt
  split
  · rfl
  · rfl
  · rfl

lemma openDirectoryAt_place (spot : Spot) :
    (openDirectoryAt answers path create spot).place = spot.target := by
  unfold openDirectoryAt
  split
  · rfl
  · rfl
  split
  · split
    · rfl
    · rfl
  · rfl

lemma enter_openFileAt :
    (openFileAt answers path create spot).enter spot = openFileAt answers path create spot := by
  unfold enter
  split
  · rename_i isMount isOk
    unfold openFileAt at isOk
    rw [isMount] at isOk
    cases isOk
  · rfl

lemma enter_getFileAt :
    (getFileAt answers path spot).enter spot = getFileAt answers path spot := by
  unfold enter
  split
  · rename_i isMount isOk
    unfold getFileAt at isOk
    rw [isMount] at isOk
    cases isOk
  · rfl

/-- The vnode of a mount point is not the root that is mounted there. -/
lemma openDirectoryAt_eq_enter_iff : openDirectoryAt answers path create spot =
    (openDirectoryAt answers path create spot).enter spot ↔ spot.isMount = false := by
  cases found : find spot.entries spot.name with
  | none => simp [enter, Spot.isMount, found]
  | some node =>
    cases node with
    | file => simp [enter, Spot.isMount, found]
    | directory entries => simp [enter, Spot.isMount, found]
    | mount _ => simp [enter, Spot.isMount, openDirectoryAt, found]

end

/-- An operation answers as at the end of the walk just if the path crosses no
mount point. -/
lemma map_resolve_eq_iff {act : Spot → Reply}
    (actPlace : ∀ looked, (act looked).place = looked.target)
    (walked : walkPath tree path = some spot) (named : spot.name ≠ []) :
    (resolve create tree [] path).map act = .ok ((act spot).enter spot) ↔
      crossesMount tree path = false ∧ act spot = (act spot).enter spot := by
  cases hc : crossesMount tree path with
  | false =>
    rw [resolve_of_not_crossesMount walked hc]
    constructor
    · intro same
      exact ⟨rfl, Except.ok.inj same⟩
    intro same
    exact congrArg Except.ok same.2
  | true =>
    refine ⟨fun same => ?_, fun same => absurd same.1 (by decide)⟩
    cases hs : resolve create tree [] path with
    | error error =>
      rw [hs] at same
      cases same
    | ok looked =>
      rw [hs] at same
      have hd := depth_lt_of_crossesMount walked named hc hs
      have hsp := congrArg Reply.place (Except.ok.inj same)
      rw [enter_place, actPlace, actPlace] at hsp
      rw [hsp] at hd
      exact absurd hd (Nat.lt_irrefl _)

/-- `open_file` and `get_file` work on the right node just if no component before
the last one is a mount point, and `open_directory` just if none is at all. -/
theorem operations_eq_walk_iff (answers : Answers) (tree : Entries) (path : List Char)
    (create : Bool) (spot : Spot) (walked : walkPath tree path = some spot) (named : spot.name ≠ [])
    :
    (openFile answers path tree create = .ok ((openFileAt answers path create spot).enter spot) ↔
      crossesMount tree path = false) ∧ (getFile answers path tree =
        .ok ((getFileAt answers path spot).enter spot) ↔ crossesMount tree path = false) ∧
    (openDirectory answers path tree create =
        .ok ((openDirectoryAt answers path create spot).enter spot) ↔
      crossesMount tree path = false ∧ spot.isMount = false) := by
  refine ⟨?_, ?_, ?_⟩
  · unfold openFile
    rw [map_resolve_eq_iff (openFileAt_place answers create) walked named,
      enter_openFileAt, and_iff_left rfl]
  · unfold getFile
    rw [map_resolve_eq_iff (getFileAt_place answers) walked named, enter_getFileAt,
      and_iff_left rfl]
  have hnr : ¬ (path = [] ∨ path = ['/']) := by
    rintro (isRoot | isRoot)
    · rw [isRoot] at walked
      cases walked
      exact named rfl
    rw [isRoot] at walked
    cases walked
    exact named rfl
  unfold openDirectory
  rw [if_neg hnr, map_resolve_eq_iff (openDirectoryAt_place answers create) walked named,
    openDirectoryAt_eq_enter_iff]

def anyAnswers : Answers := ⟨fun _ => true, fun _ => none, fun _ => true, fun _ => true⟩

def mountTree : Entries := [(['d'], .directory [(['a'], .file)]), (['m'], .mount [(['a'], .file)])]

theorem operations_eq_walk_iff_directory : openFile anyAnswers ['d', '/', 'a'] mountTree false =
    .ok ⟨[['d'], ['a']], [], .ok (some (.entry [['d'], ['a']]))⟩ :=
  (operations_eq_walk_iff anyAnswers mountTree ['d', '/', 'a'] false
    ⟨[(['a'], .file)], [['d']], [], ['a']⟩ rfl (by decide)).1.mpr rfl

lemma mountTree_resolve : resolve false mountTree [] ['m', '/', 'a'] = .error (missing ['m']) ∧
    resolve true mountTree [] ['m', '/', 'a'] = .ok ⟨[], [['m'], ['m']], [[['m'], ['m']]], ['a']⟩ ∧
    resolve false mountTree [] ['m'] = .ok ⟨mountTree, [], [], ['m']⟩ := by
  refine ⟨?_, ?_, ?_⟩
  · have him : resolve false [(['a'], .file)] [['m']] ['m', '/', 'a'] = .error (missing ['m']) := by
      rw [resolve]
      rfl
    rw [resolve]
    exact him
  · have him : resolve true [(['a'], .file)] [['m']] ['m', '/', 'a'] =
        .ok ⟨[], [['m'], ['m']], [[['m'], ['m']]], ['a']⟩ := by
      rw [resolve]
      rfl
    rw [resolve]
    exact him
  rw [resolve]
  rfl

/-- The mounted file `a` is not found, and with `create` it is made elsewhere. -/
theorem mountTree_operations : openFile anyAnswers ['m', '/', 'a'] mountTree false ≠
      .ok ⟨[['m'], ['a']], [], .ok (some (.entry [['m'], ['a']]))⟩ ∧
    openFile anyAnswers ['m', '/', 'a'] mountTree true =
      .ok ⟨[['m'], ['m'], ['a']], [[['m'], ['m']], [['m'], ['m'], ['a']]],
        .ok (some (.entry [['m'], ['m'], ['a']]))⟩ ∧ getFile anyAnswers ['m', '/', 'a'] mountTree ≠
      .ok ⟨[['m'], ['a']], [], .ok (some (.entry [['m'], ['a']]))⟩ ∧
    openDirectory anyAnswers ['m'] mountTree false ≠
      .ok ⟨[['m']], [], .ok (some (.root [['m']]))⟩ := by
  unfold openFile getFile openDirectory
  rw [mountTree_resolve.1, mountTree_resolve.2.1, mountTree_resolve.2.2]
  refine ⟨fun same => ?_, rfl, fun same => ?_, fun same => ?_⟩
  · cases same
  · cases same
  · cases same

end OoOS.Fs.Path
