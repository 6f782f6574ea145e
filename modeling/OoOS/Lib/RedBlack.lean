import Mathlib.Data.List.Nodup
import Mathlib.Tactic.Ring

/-!
# Red-black trees

Trees whose nodes are red or black, and trees with a hole, given by the frames
around it, the innermost one first.
-/

namespace OoOS.Lib.RedBlack

open List

universe u

inductive Color where
  | red
  | black
  deriving DecidableEq, Repr

def Color.weight : Color → Nat
  | .red => 0
  | .black => 1

inductive Side where
  | left
  | right
  deriving DecidableEq, Repr

def Side.opposite : Side → Side
  | .left => .right
  | .right => .left

@[simp]
lemma Side.opposite_opposite (side : Side) : side.opposite.opposite = side := by
  cases side <;> rfl

lemma Side.opposite_ne (side : Side) : side.opposite ≠ side := by
  cases side with
  | left =>
    intro same
    cases same
  | right =>
    intro same
    cases same

variable {side : Side}

lemma Side.eq_opposite_of_ne {other : Side} (ne : other ≠ side) : other = side.opposite := by
  cases side with
  | left =>
    cases other with
    | left => exact absurd rfl ne
    | right => rfl
  | right =>
    cases other with
    | left => rfl
    | right => exact absurd rfl ne

inductive ColorTree (α : Type u) where
  | nil
  | node (color : Color) (left : ColorTree α) (label : α) (right : ColorTree α)
  deriving Repr

variable {α : Type u}

namespace ColorTree

def join (side : Side) (color : Color) (label : α) (inner outer : ColorTree α) : ColorTree α :=
  match side with
  | .left => node color inner label outer
  | .right => node color outer label inner

def rootColor : ColorTree α → Color
  | nil => .black
  | node color _ _ _ => color

def paint (color : Color) : ColorTree α → ColorTree α
  | nil => nil
  | node _ left label right => node color left label right

def labels : ColorTree α → List α
  | nil => []
  | node _ left label right => left.labels ++ label :: right.labels

/-- There are `height` black nodes on every way down. -/
def Height : ColorTree α → Nat → Prop
  | nil, height => height = 0
  | node color left _ right, height =>
    ∃ below, left.Height below ∧ right.Height below ∧ height = below + color.weight

def Balanced (tree : ColorTree α) : Prop := ∃ height, tree.Height height

def RedRule : ColorTree α → Prop
  | nil => True
  | node color left _ right =>
    (color = .red → left.rootColor = .black ∧ right.rootColor = .black) ∧ left.RedRule ∧
      right.RedRule

section

variable {side : Side} {color : Color} {label : α} {inner outer : ColorTree α}

@[simp]
lemma rootColor_join : (join side color label inner outer).rootColor = color := by
  cases side <;> rfl

lemma height_join {height : Nat} : (join side color label inner outer).Height height ↔
    ∃ below, inner.Height below ∧ outer.Height below ∧ height = below + color.weight := by
  cases side with
  | left => exact Iff.rfl
  | right =>
    exact exists_congr fun below => and_left_comm

lemma redRule_join : (join side color label inner outer).RedRule ↔
    (color = .red → inner.rootColor = .black ∧ outer.rootColor = .black) ∧
      inner.RedRule ∧ outer.RedRule := by
  cases side with
  | left => exact Iff.rfl
  | right =>
    rw [join, RedRule, and_comm (a := outer.rootColor = .black), and_comm (a := outer.RedRule)]

lemma mem_labels_join {other : α} : other ∈ (join side color label inner outer).labels ↔
    other = label ∨ other ∈ inner.labels ∨ other ∈ outer.labels := by
  cases side with
  | left =>
    rw [join, labels, mem_append, mem_cons]
    exact or_left_comm
  | right =>
    rw [join, labels, mem_append, mem_cons, or_left_comm,
      or_comm (a := other ∈ outer.labels)]

lemma perm_labels_join :
    (join side color label inner outer).labels.Perm (label :: (inner.labels ++ outer.labels)) := by
  cases side with
  | left => exact perm_middle
  | right => exact perm_middle.trans (perm_append_comm.cons _)

lemma paint_join (next : Color) :
    (join side color label inner outer).paint next = join side next label inner outer := by
  cases side <;> rfl

lemma exists_join (side : Side) {tree : ColorTree α} (notNil : tree ≠ nil) :
    ∃ color label inner outer, tree = join side color label inner outer := by
  cases tree with
  | nil => exact absurd rfl notNil
  | node color left label right =>
    cases side with
    | left => exact ⟨color, label, left, right, rfl⟩
    | right => exact ⟨color, label, right, left, rfl⟩

lemma join_opposite :
    join side.opposite color label inner outer = join side color label outer inner := by
  cases side <;> rfl

lemma join_inj {next : Color} {other : α} {first second : ColorTree α}
    (same : join side color label inner outer = join side next other first second) :
    color = next ∧ label = other ∧ inner = first ∧ outer = second := by
  cases side with
  | left =>
    cases same
    exact ⟨rfl, rfl, rfl, rfl⟩
  | right =>
    cases same
    exact ⟨rfl, rfl, rfl, rfl⟩

end

lemma labels_paint (color : Color) (tree : ColorTree α) :
    (tree.paint color).labels = tree.labels := by
  cases tree <;> rfl

variable {tree : ColorTree α}

lemma Height.unique {height other : Nat}
    (isHeight : tree.Height height) (isOther : tree.Height other) : height = other := by
  induction tree generalizing height other with
  | nil => exact isHeight.trans isOther.symm
  | node _ _ _ _ ih _ =>
    obtain ⟨_, hb, _, rfl⟩ := isHeight
    obtain ⟨_, hob, _, rfl⟩ := isOther
    rw [ih hb hob]

lemma Height.two_pow_le {height : Nat} (isHeight : tree.Height height) :
    2 ^ height ≤ tree.labels.length + 1 := by
  induction tree generalizing height with
  | nil =>
    subst isHeight
    exact Nat.le_refl 1
  | node color _ _ _ hl hr =>
    obtain ⟨below, left, right, rfl⟩ := isHeight
    have hb := hl left
    have ho := hr right
    have hc : 2 ^ (below + color.weight) ≤ 2 * 2 ^ below := by
      cases color with
      | red => exact Nat.le_mul_of_pos_left _ Nat.two_pos
      | black => exact Nat.le_of_eq (Nat.pow_succ' ..)
    simp only [labels, length_append, length_cons]
    omega

lemma labels_rotate (side : Side) (color other : Color) (label second : α)
    (near middle far : ColorTree α) :
    (join side.opposite color label (join side other second middle far) near).labels =
      (join side other second (join side.opposite color label middle near) far).labels := by
  cases side <;> simp [join, Side.opposite, labels]

def child (side : Side) : ColorTree α → ColorTree α
  | nil => nil
  | node _ left _ right =>
    match side with
    | .left => left
    | .right => right

/-- The root goes down on a side, and the child on the other side comes up; a
leaf cannot. -/
def turn (side : Side) : ColorTree α → Option (ColorTree α)
  | nil => none
  | node color left label right =>
    match (node color left label right).child side.opposite with
    | nil => none
    | node other inner second outer =>
      some (join side other second
        (join side color label
          ((node color left label right).child side)
          ((node other inner second outer).child side))
        ((node other inner second outer).child side.opposite))

@[simp]
lemma child_join (side : Side) (color : Color) (label : α) (inner outer : ColorTree α) :
    (join side color label inner outer).child side = inner := by
  cases side <;> rfl

@[simp]
lemma child_opposite_join (side : Side) (color : Color) (label : α) (inner outer : ColorTree α) :
    (join side color label inner outer).child side.opposite = outer := by
  cases side <;> rfl

lemma Balanced.child (balanced : tree.Balanced) (side : Side) : (tree.child side).Balanced := by
  cases tree with
  | nil => exact ⟨0, rfl⟩
  | node _ left _ right =>
    obtain ⟨_, below, hl, hr, _⟩ := balanced
    cases side with
    | left => exact ⟨below, hl⟩
    | right => exact ⟨below, hr⟩

variable {color : Color}

lemma balanced_join {label : α} {inner outer : ColorTree α} :
    (join side color label inner outer).Balanced ↔
      ∃ below, inner.Height below ∧ outer.Height below := by
  constructor
  · intro hb
    obtain ⟨_, hh⟩ := hb
    obtain ⟨below, hin, ho, _⟩ := height_join.mp hh
    exact ⟨below, hin, ho⟩
  intro hb
  obtain ⟨below, hin, ho⟩ := hb
  exact ⟨_, height_join.mpr ⟨below, hin, ho, rfl⟩⟩

lemma balanced_paint : (tree.paint color).Balanced ↔ tree.Balanced := by
  cases tree with
  | nil => exact Iff.rfl
  | node other left label right =>
    have hp : ∀ color : Color, (join .left color label left right).Balanced ↔
          ∃ below, left.Height below ∧ right.Height below := fun _ =>
      balanced_join
    exact (hp color).trans (hp other).symm

lemma turn_eq_some {turned : ColorTree α} (isTurned : tree.turn side = some turned) :
    ∃ color other label second near mid far,
      tree = join side color label near (join side other second mid far) ∧ turned =
        join side other second (join side color label near mid) far := by
  cases tree with
  | nil => cases isTurned
  | node color left label right =>
    rw [turn] at isTurned
    cases hc : (node color left label right).child side.opposite with
    | nil =>
      rw [hc] at isTurned
      cases isTurned
    | node other inner second outer =>
      rw [hc] at isTurned
      obtain rfl := Option.some.inj isTurned
      cases side with
      | left =>
        obtain rfl : right = _ := hc
        exact ⟨color, other, label, second, left, inner, outer, rfl, rfl⟩
      | right =>
        obtain rfl : left = _ := hc
        exact ⟨color, other, label, second, right, outer, inner, rfl, rfl⟩

lemma turn_eq_none {label : α} {inner outer : ColorTree α}
    (notTurned : (join side color label inner outer).turn side = none) : outer = nil := by
  cases outer with
  | nil => rfl
  | node _ left _ right =>
    cases side <;> cases notTurned

lemma paint_paint (color next : Color) (tree : ColorTree α) :
    (tree.paint color).paint next = tree.paint next := by
  cases tree <;> rfl

lemma paint_rootColor (tree : ColorTree α) : tree.paint tree.rootColor = tree := by
  cases tree <;> rfl

lemma RedRule.paint_black (redRule : tree.RedRule) : (tree.paint .black).RedRule := by
  cases tree with
  | nil => exact trivial
  | node _ _ _ _ =>
    refine ⟨fun isRed => ?_, redRule.2⟩
    cases isRed

lemma RedRule.paint_red (redRule : tree.RedRule)
    (blackChildren : ∀ side, (tree.child side).rootColor = .black) : (tree.paint .red).RedRule := by
  cases tree with
  | nil => exact trivial
  | node _ left _ right => exact ⟨fun _ => ⟨blackChildren .left, blackChildren .right⟩, redRule.2⟩

lemma Height.paint_red {height : Nat} (isHeight : tree.Height (height + 1))
    (isBlack : tree.rootColor = .black) : (tree.paint .red).Height height := by
  cases tree with
  | nil => exact absurd isHeight (Nat.succ_ne_zero height)
  | node color _ _ _ =>
    obtain rfl : color = .black := isBlack
    obtain ⟨below, hl, hr, same⟩ := isHeight
    obtain rfl : height = below := Nat.succ.inj same
    exact ⟨height, hl, hr, rfl⟩

lemma Height.paint {height : Nat} (next : Color)
    (isHeight : tree.Height height) : ∃ other, (tree.paint next).Height other := by
  cases tree with
  | nil => exact ⟨height, isHeight⟩
  | node _ _ _ _ =>
    obtain ⟨below, hl, hr, _⟩ := isHeight
    exact ⟨below + next.weight, below, hl, hr, rfl⟩

end ColorTree

open ColorTree

/-- A node around a hole, which is on one of its sides. -/
structure Frame (α : Type u) where
  side : Side
  color : Color
  label : α
  sibling : ColorTree α

def Frame.fill (frame : Frame α) (tree : ColorTree α) : ColorTree α :=
  join frame.side frame.color frame.label tree frame.sibling

def plug : List (Frame α) → ColorTree α → ColorTree α
  | [], tree => tree
  | frame :: path, tree => plug path (frame.fill tree)

def labelsBefore : List (Frame α) → List α
  | [] => []
  | frame :: path =>
    match frame.side with
    | .left => labelsBefore path
    | .right => labelsBefore path ++ (frame.sibling.labels ++ [frame.label])

def labelsAfter : List (Frame α) → List α
  | [] => []
  | frame :: path =>
    match frame.side with
    | .left => frame.label :: (frame.sibling.labels ++ labelsAfter path)
    | .right => labelsAfter path

def frameLabels : List (Frame α) → List α
  | [] => []
  | frame :: path => frame.label :: (frame.sibling.labels ++ frameLabels path)

def PathHeight : List (Frame α) → Nat → Nat → Prop
  | [], below, height => height = below
  | frame :: path, below, height =>
    frame.sibling.Height below ∧ PathHeight path (below + frame.color.weight) height

/-- A filling with a root of some color that keeps the rule gives a tree that
does. -/
def PathRedRule : List (Frame α) → Color → Prop
  | [], _ => True
  | frame :: path, color =>
    (frame.color = .red → color = .black ∧ frame.sibling.rootColor = .black) ∧
    frame.sibling.RedRule ∧ PathRedRule path frame.color

variable (path : List (Frame α))

lemma labels_plug :
    ∀ tree, (plug path tree).labels = labelsBefore path ++ (tree.labels ++ labelsAfter path) := by
  induction path with
  | nil =>
    simp [plug, labelsBefore, labelsAfter]
  | cons frame path ih =>
    intro tree
    rw [plug, ih, Frame.fill, labelsBefore, labelsAfter]
    cases hs : frame.side with
    | left => simp [join, labels]
    | right => simp [join, labels]

/-- The labels on the way, on either side of it. -/
lemma perm_frameLabels :
    (labelsBefore path ++ labelsAfter path).Perm (frameLabels path) := by
  induction path with
  | nil => exact List.Perm.refl _
  | cons frame path ih =>
    rw [labelsBefore, labelsAfter, frameLabels]
    cases hs : frame.side with
    | left =>
      refine perm_middle.trans (List.Perm.cons _ ?_)
      refine ((perm_append_comm_assoc _ _ _)).trans ?_
      exact ih.append_left _
    | right =>
      have hr : (labelsBefore path ++ (frame.sibling.labels ++ [frame.label]) ++
            labelsAfter path).Perm (frame.label :: (frame.sibling.labels ++
            (labelsBefore path ++ labelsAfter path))) := by
        rw [append_assoc, append_assoc, singleton_append]
        refine (perm_append_comm_assoc _ _ _).trans ?_
        refine (List.Perm.append_left _ perm_middle).trans ?_
        exact perm_middle
      exact hr.trans ((ih.append_left _).cons _)

lemma perm_labels_plug (tree : ColorTree α) :
    (plug path tree).labels.Perm (tree.labels ++ frameLabels path) := by
  rw [labels_plug]
  refine (perm_append_comm_assoc _ _ _).trans ?_
  exact (perm_frameLabels path).append_left _

lemma height_plug :
    ∀ (tree : ColorTree α) (height : Nat), (plug path tree).Height height ↔
      ∃ below, tree.Height below ∧ PathHeight path below height := by
  induction path with
  | nil =>
    simp [plug, PathHeight]
  | cons _ path ih =>
    intro tree height
    rw [plug, ih]
    simp only [Frame.fill, height_join, PathHeight]
    constructor
    · rintro ⟨_, ⟨below, inner, hs, rfl⟩, hp⟩
      exact ⟨below, inner, hs, hp⟩
    rintro ⟨below, inner, hs, hp⟩
    exact ⟨_, ⟨below, inner, hs, rfl⟩, hp⟩

lemma ColorTree.Balanced.of_plug {path : List (Frame α)} {tree : ColorTree α}
    (balanced : (plug path tree).Balanced) : tree.Balanced := by
  obtain ⟨_, hh⟩ := balanced
  obtain ⟨below, hbe, _⟩ := (height_plug _ _ _).mp hh
  exact ⟨below, hbe⟩

lemma redRule_plug :
    ∀ tree, (plug path tree).RedRule ↔ tree.RedRule ∧ PathRedRule path tree.rootColor := by
  induction path with
  | nil =>
    simp [plug, PathRedRule]
  | cons _ path ih =>
    intro tree
    rw [plug, ih, Frame.fill, redRule_join, rootColor_join, PathRedRule]
    constructor
    · rintro ⟨⟨hwr, inner, hs⟩, hp⟩
      exact ⟨inner, hwr, hs, hp⟩
    rintro ⟨inner, hwr, hs, hp⟩
    exact ⟨⟨hwr, inner, hs⟩, hp⟩

lemma label_mem_frameLabels {path : List (Frame α)} {frame : Frame α}
    (mem : frame ∈ path) : frame.label ∈ frameLabels path := by
  induction path with
  | nil => cases mem
  | cons _ path ih =>
    rcases mem_cons.mp mem with rfl | mem
    · exact mem_cons_self
    · exact mem_cons_of_mem _ (mem_append_right _ (ih mem))

lemma rootColor_plug :
    ∀ (tree : ColorTree α) (frame : Frame α), path.getLast? = some frame →
      (plug path tree).rootColor = frame.color := by
  induction path with
  | nil =>
    intro tree frame hl
    cases hl
  | cons _ path ih =>
    intro tree frame hl
    cases path with
    | nil =>
      cases hl
      exact rootColor_join
    | cons _ path =>
      exact ih _ frame hl

lemma length_le_frameLabels :
    path.length ≤ (frameLabels path).length := by
  induction path with
  | nil => exact Nat.le_refl _
  | cons _ path _ =>
    rw [frameLabels, length_cons, length_cons, length_append]
    omega

end OoOS.Lib.RedBlack
