import OoOS.Lib.RedBlack

/-!
# `__rb_tree`

The nodes hang on a trunk: its parent is the root, its left and right are the
first and the last node.  A null pointer that is followed gives `none`.
-/

namespace OoOS.Libk

open Lib.RedBlack

universe u

abbrev NodeColor := Color

abbrev NodeDirection := Side

inductive TreeLink where
  | trunk
  | node (id : Nat)
  deriving DecidableEq, Repr

/-- The memory of a tree; `next` is the left or the right of a node, and
`nodeCt` the next address of the allocator. -/
structure TreeStore (T : Type u) where
  color : TreeLink → NodeColor
  parent : TreeLink → Option TreeLink
  next : TreeLink → NodeDirection → Option TreeLink
  value : Nat → T
  count : Nat
  nodeCt : Nat

namespace TreeStore

variable {T : Type u} (store : TreeStore T)

def setColor (link : TreeLink) (color : NodeColor) : TreeStore T :=
  { store with color := Function.update store.color link color }

def setParent (link : TreeLink) (parent : Option TreeLink) : TreeStore T :=
  { store with parent := Function.update store.parent link parent }

def setNext (link : TreeLink) (dir : NodeDirection) (next : Option TreeLink) : TreeStore T :=
  { store with
    next := Function.update store.next link
      (Function.update (store.next link) dir next) }

def setParentOf (link : Option TreeLink) (parent : Option TreeLink) : TreeStore T :=
  match link with
  | none => store
  | some link => store.setParent link parent

def setColorOf (link : Option TreeLink) (color : NodeColor) : TreeStore T :=
  match link with
  | none => store
  | some link => store.setColor link color

def root : Option TreeLink := store.parent .trunk

def isBlack (link : Option TreeLink) : Bool :=
  match link with
  | none => true
  | some link => store.color link = .black

def descend (dir : NodeDirection) : (fuel : Nat) → TreeLink → Option TreeLink
  | 0, _ => none
  | fuel + 1, x =>
    match store.next x dir with
    | none => some x
    | some below => descend dir fuel below

def minNode (x : TreeLink) : Option TreeLink := store.descend .left (store.nodeCt + 1) x

def maxNode (x : TreeLink) : Option TreeLink := store.descend .right (store.nodeCt + 1) x

/-- The loop of `__increment_node` and `__decrement_node` that goes up from a
side. -/
def ascend (dir : NodeDirection) : (fuel : Nat) → TreeLink → Option (TreeLink × TreeLink)
  | 0, _ => none
  | fuel + 1, x =>
    match store.parent x with
    | none => none
    | some y =>
      if store.next y dir = some x then ascend dir fuel y
      else some (x, y)

def incrementNode (x : TreeLink) : Option TreeLink :=
  match store.next x .right with
  | some below => store.minNode below
  | none =>
    match store.ascend .right (store.nodeCt + 1) x with
    | none => none
    | some (x, y) => if store.next x .right ≠ some y then some y else some x

def decrementNode (x : TreeLink) : Option TreeLink :=
  if store.color x = .red ∧ store.parent x = none then none
  else if store.color x = .red ∧ (store.parent x).bind store.parent = some x then
    store.next x .right
  else
    match store.next x .left with
    | some below => store.maxNode below
    | none => (store.ascend .left (store.nodeCt + 1) x).map Prod.snd

def relink (store : TreeStore T) (x y : TreeLink) (dir : NodeDirection) : Option (TreeStore T) :=
  if store.root = some x then some (store.setParent .trunk (some y))
  else
    match store.parent x with
    | none => none
    | some p =>
      if store.next p dir = some x then
        some (store.setNext p dir (some y))
      else some (store.setNext p dir.opposite (some y))

def rotate (store : TreeStore T) (x : TreeLink) (dir : NodeDirection) : Option (TreeStore T) :=
  let odir := dir.opposite
  match store.next x odir with
  | none => none
  | some y =>
    let n := store.next y dir
    let moved := (store.setNext x odir n).setParentOf n (some x)
    match (moved.setParent y (moved.parent x)).relink x y dir with
    | none => none
    | some moved => some ((moved.setNext y dir (some x)).setParent x (some y))

def insertionRebalance (store : TreeStore T) (x : TreeLink) : Option (TreeLink × TreeStore T) :=
  match store.parent x with
  | none => none
  | some p =>
    match store.parent p with
    | none => none
    | some w =>
      let isLeft := store.next w .left = some p
      let y := if isLeft then store.next w .right else store.next w .left
      let z := if isLeft then store.next p .right else store.next p .left
      if store.isBlack y then
        let dir := if isLeft then Side.right else .left
        let rotated :=
          if some x = z then
            (store.rotate p dir.opposite).map fun rotated => (p, rotated)
          else some (x, store)
        match rotated with
        | none => none
        | some (x, rotated) =>
          match rotated.parent x with
          | none => none
          | some p =>
            let painted := (rotated.setColor p .black).setColor w .red
            (painted.rotate w dir).map fun rotated => (x, rotated)
      else
        let uncle := y.getD .trunk
        some (w, ((store.setColor p .black).setColor uncle
          .black).setColor w .red)

def rebalanceLoop : (fuel : Nat) → TreeLink → TreeStore T → Option (TreeStore T)
  | 0, _, _ => none
  | fuel + 1, x, store =>
    if store.root = some x then some store
    else
      match store.parent x with
      | none => none
      | some p =>
        if store.color p = .red then
          match store.insertionRebalance x with
          | none => none
          | some (x, rebalanced) => rebalanceLoop fuel x rebalanced
        else some store

def blackenRoot (store : TreeStore T) : Option (TreeStore T) :=
  store.root.map fun root => store.setColor root .black

def linkNode (store : TreeStore T) (dir : NodeDirection) (x p : TreeLink) : TreeStore T :=
  let fresh := (((store.setParent x (some p)).setNext x .left none).setNext x
    .right none).setColor x .red
  if p = .trunk then
    ((fresh.setNext p .left (some x)).setNext p .right (some x)).setParent p
      (some x)
  else
    let linked := fresh.setNext p dir (some x)
    if linked.next .trunk dir = some p then
      linked.setNext .trunk dir (some x)
    else linked

def insertAndRebalance (store : TreeStore T) (dir : NodeDirection)
    (x p : TreeLink) : Option (TreeStore T) :=
  match rebalanceLoop (store.nodeCt + 1) x (store.linkNode dir x p) with
  | none => none
  | some rebalanced => rebalanced.blackenRoot

variable (lt : T → T → Bool)

/-- The loop of `__pos_for_unique`: the last node and whether the value comes
before it. -/
def posLoop (store : TreeStore T) (u : T) : (fuel : Nat) →
    Option TreeLink → TreeLink → Bool → Option (TreeLink × Bool)
  | _, none, y, comp => some (y, comp)
  | fuel + 1, some (.node id), _, _ =>
    let comp := lt u (store.value id)
    posLoop store u fuel
      (store.next (.node id) (if comp then .left else .right)) (.node id)
      comp
  | _, _, _, _ => none

/-- `__compare_r`; there is no value in the trunk. -/
def compareR (store : TreeStore T) (p : TreeLink) (u : T) : Option Bool :=
  match p with
  | .trunk => none
  | .node id => some (lt (store.value id) u)

/-- `__pos_for_unique`: the parent of a new node, or the node that is there
already. -/
def posForUnique (store : TreeStore T) (u : T) : Option (TreeLink ⊕ TreeLink) :=
  match posLoop lt store u (store.nodeCt + 1) store.root .trunk true with
  | none => none
  | some (y, comp) =>
    if comp ∧ store.next .trunk .left = some y then some (.inl y)
    else
      match if comp then store.decrementNode y else some y with
      | none => none
      | some j =>
        match compareR lt store j u with
        | none => none
        | some true => some (.inl y)
        | some false => some (.inr j)

/-- `__insert_unique_hint_pos` without a hint. -/
def insertUniqueHintPos (store : TreeStore T) (u : T) : Option (TreeLink ⊕ TreeLink) :=
  if 0 < store.count then
    match store.next .trunk .right with
    | none => none
    | some rightmost =>
      match compareR lt store rightmost u with
      | none => none
      | some true => some (.inl rightmost)
      | some false => posForUnique lt store u
  else posForUnique lt store u

def constructNode (store : TreeStore T) (u : T) : Nat × TreeStore T :=
  (store.nodeCt,
    { store with
      value := Function.update store.value store.nodeCt u
      color := Function.update store.color (.node store.nodeCt) .red
      nodeCt := store.nodeCt + 1 })

def insertNode (store : TreeStore T) (p : TreeLink) (l : Nat) : Option (TreeStore T) :=
  let left :=
    match p with
    | .trunk => true
    | .node id => lt (store.value l) (store.value id)
  (store.insertAndRebalance (if left then .left else .right) (.node l)
    p).map fun inserted => { inserted with count := inserted.count + 1 }

def insertUnique (store : TreeStore T) (u : T) : Option ((TreeLink × Bool) × TreeStore T) :=
  match insertUniqueHintPos lt store u with
  | none => none
  | some (.inr found) => some ((found, false), store)
  | some (.inl p) =>
    let (l, constructed) := store.constructNode u
    (insertNode lt constructed p l).map fun inserted => ((.node l, true), inserted)

/-- `__emplace_unique`: the node is constructed first. -/
def emplaceUnique (store : TreeStore T) (u : T) : Option ((TreeLink × Bool) × TreeStore T) :=
  let (l, constructed) := store.constructNode u
  match posForUnique lt constructed u with
  | none => none
  | some (.inr found) => some ((found, false), constructed)
  | some (.inl p) => (insertNode lt constructed p l).map fun inserted => ((.node l, true), inserted)

def newTree (store : TreeStore T) : TreeStore T :=
  { (((store.setColor .trunk .red).setParent .trunk none).setNext .trunk .left
      (some .trunk)).setNext .trunk .right (some .trunk) with
    count := 0 }

/-- `__fix_double_black`: whether the loop ends, the node that lacks a black
one and its parent. -/
def fixDoubleBlack (store : TreeStore T) (x : Option TreeLink) (xParent : TreeLink)
    (dir : NodeDirection) : Option (Bool × Option TreeLink × Option TreeLink × TreeStore T) :=
  let odir := dir.opposite
  match store.next xParent dir with
  | none => none
  | some w =>
    let repainted :=
      if store.color w = .red then
        let painted := (store.setColor w .black).setColor xParent .red
        -- The node itself is rotated, not its parent.
        match x with
        | none => none
        | some x => painted.rotate x odir
      else some store
    match repainted with
    | none => none
    | some store =>
      match store.next xParent dir with
      | none => none
      | some w =>
        if store.isBlack (store.next w .left) ∧ store.isBlack (store.next w .right) then
          some (false, some xParent, store.parent xParent, store.setColor w .red)
        else
          let turned :=
            if store.isBlack (store.next w dir) then
              match store.next w odir with
              | none => none
              | some near =>
                ((store.setColor near .black).setColor w .red).rotate
                  w dir
            else some store
          match turned with
          | none => none
          | some store =>
            match store.next xParent dir with
            | none => none
            | some w =>
              let painted :=
                (store.setColor w (store.color xParent)).setColor
                  xParent .black
              match painted.next w dir with
              | none => some (false, x, some xParent, painted)
              | some far =>
                ((painted.setColor far .black).rotate xParent
                  odir).map fun rotated => (true, x, some xParent, rotated)

def fixLoop : (fuel : Nat) → Option TreeLink → Option TreeLink → TreeStore T → Option (TreeStore T)
  | 0, _, _, _ => none
  | fuel + 1, x, xParent, store =>
    if x ≠ store.root ∧ store.isBlack x then
      match xParent with
      | none => none
      | some above =>
        let dir :=
          if x = store.next above .left then Side.right else .left
        match store.fixDoubleBlack x above dir with
        | none => none
        | some (true, _, _, fixed) => some fixed
        | some (false, x, xParent, fixed) =>
          fixLoop fuel x xParent (fixed.setColorOf x .black)
    else some store

/-- What `__rebalance_for_erase` does with a node that takes the place of
`z`. -/
def replaceBy (store : TreeStore T) (z y : TreeLink)
    (x : Option TreeLink) : Option (Option TreeLink × TreeStore T) :=
  match store.next z .left, store.next z .right, store.parent y, store.parent z with
  | some left, some right, some yParent, some zParent =>
    let store := (store.setParent left (some y)).setNext y .left (some left)
    let (xParent, store) :=
      if y ≠ right then
        let store := store.setParentOf x (some yParent)
        (yParent, ((store.setNext yParent .left x).setNext y .right
          (some right)).setParent right (some y))
      else (y, store)
    let store :=
      if store.root = some z then store.setParent .trunk (some y)
      else if store.next zParent .left = some z then
        store.setNext zParent .left (some y)
      else store.setNext zParent .right (some y)
    let store := store.setParent y (some zParent)
    let yColor := store.color y
    some (some xParent, (store.setColor y (store.color z)).setColor z yColor)
  | _, _, _, _ => none

def unlink (store : TreeStore T) (z : TreeLink) (x : Option TreeLink) : Option (TreeStore T) :=
  if store.root = some z then some (store.setParent .trunk x)
  else
    match store.parent z with
    | none => none
    | some p =>
      if store.next p .left = some z then some (store.setNext p .left x)
      else some (store.setNext p .right x)

def moveLeftmost (store : TreeStore T) (z : TreeLink) (x : Option TreeLink) :
    Option (TreeStore T) :=
  if store.next .trunk .left = some z then
    match store.next z .right, x with
    | none, _ => some (store.setNext .trunk .left (store.parent z))
    | some _, none => none
    | some _, some x => (store.minNode x).map fun first =>
      store.setNext .trunk .left (some first)
  else some store

def moveRightmost (store : TreeStore T) (z : TreeLink) : Option (TreeStore T) :=
  if store.next .trunk .right = some z then
    if (store.next z .left).isSome then
      some (store.setNext .trunk .right (store.parent z))
    else (store.maxNode z).map fun last =>
      store.setNext .trunk .right (some last)
  else some store

def takeOut (store : TreeStore T) (z : TreeLink) (x : Option TreeLink) :
    Option (Option TreeLink × TreeStore T) :=
  let xParent := store.parent z
  (((store.unlink z x).bind fun unlinked =>
    unlinked.moveLeftmost z x).bind fun moved =>
      moved.moveRightmost z).map fun moved => (xParent, moved)

def movesUp (store : TreeStore T) (y : TreeLink) : Option (Option TreeLink) :=
  match store.next y .left, store.next y .right with
  | none, right => some right
  | some left, none => some (some left)
  | some _, some right => (store.minNode right).map fun first => store.next first .right

/-- `__rebalance_for_erase`: the node that is to be destroyed, which is always
`z`. -/
def rebalanceForErase (store : TreeStore T) (z : TreeLink) : Option (TreeLink × TreeStore T) :=
  let y := z
  (store.movesUp y).bind fun x =>
    (if y ≠ z then store.replaceBy z y x else store.takeOut z x).bind
      fun unlinked =>
        (if unlinked.2.color y ≠ .red then
          fixLoop (store.nodeCt + 1) x unlinked.1 unlinked.2
        else some unlinked.2).bind fun fixed => fixed.blackenRoot.map fun blackened =>
          (y, blackened)

def eraseNode (store : TreeStore T) (n : TreeLink) : Option (TreeLink × TreeStore T) :=
  (store.rebalanceForErase n).bind fun rebalanced =>
    (rebalanced.2.incrementNode rebalanced.1).map fun result =>
      (result, { rebalanced.2 with count := rebalanced.2.count - 1 })

end TreeStore

end OoOS.Libk
