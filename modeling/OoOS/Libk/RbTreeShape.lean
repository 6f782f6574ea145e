import OoOS.Libk.RbTree

/-!
# Trees in memory

`Hangs` relates the links of a store to a tree with a hole and its filling.  A
rotation of the filling in memory is one of the tree.
-/

namespace OoOS.Libk

open Lib.RedBlack Lib.RedBlack.ColorTree

universe u

namespace TreeStore

variable {T : Type u} {store : TreeStore T}

section

variable (store) (link other : TreeLink) (dir side : NodeDirection) (value : Option TreeLink)
  (child : Option TreeLink)

@[simp]
lemma next_setNext :
    (store.setNext link dir value).next other side = if other = link ∧ side = dir then value
      else store.next other side := by
  by_cases hsl : other = link
  · subst hsl
    by_cases hss : side = dir
    · subst hss
      simp [setNext]
    · simp [setNext, hss]
  · simp [setNext, hsl]

@[simp]
lemma parent_setParent : (store.setParent link value).parent other =
    if other = link then value else store.parent other := by
  by_cases hsl : other = link
  · subst hsl
    simp [setParent]
  · simp [setParent, hsl]

@[simp]
lemma color_setColor (value : NodeColor) : (store.setColor link value).color other =
    if other = link then value else store.color other := by
  by_cases hsl : other = link
  · subst hsl
    simp [setColor]
  · simp [setColor, hsl]

@[simp]
lemma parent_setNext :
    (store.setNext link dir value).parent = store.parent := rfl

@[simp]
lemma color_setNext :
    (store.setNext link dir value).color = store.color := rfl

@[simp]
lemma next_setParent :
    (store.setParent link value).next = store.next := rfl

@[simp]
lemma color_setParent :
    (store.setParent link value).color = store.color := rfl

@[simp]
lemma next_setColor (value : NodeColor) : (store.setColor link value).next = store.next := rfl

@[simp]
lemma parent_setColor (value : NodeColor) :
    (store.setColor link value).parent = store.parent := rfl

@[simp]
lemma parent_setParentOf (value : Option TreeLink) :
    (store.setParentOf child value).parent other =
      if child = some other then value else store.parent other := by
  cases child with
  | none => simp [setParentOf]
  | some child => simp [setParentOf, eq_comm]

@[simp]
lemma next_setParentOf (value : Option TreeLink) :
    (store.setParentOf child value).next = store.next := by
  cases child <;> rfl

@[simp]
lemma color_setParentOf (value : Option TreeLink) :
    (store.setParentOf child value).color = store.color := by
  cases child <;> rfl

end

def rootLink : ColorTree Nat → Option TreeLink
  | nil => none
  | node _ _ id _ => some (.node id)

def Shape (store : TreeStore T) : ColorTree Nat → TreeLink → Prop
  | nil, _ => True
  | node color left id right, parent =>
    store.color (.node id) = color ∧
    store.parent (.node id) = some parent ∧
    store.next (.node id) .left = rootLink left ∧
    store.next (.node id) .right = rootLink right ∧
    Shape store left (.node id) ∧ Shape store right (.node id)

variable {color : Color} {id x y : Nat} {inner outer tree : ColorTree Nat} {after : TreeStore T}
  {side : Side}

@[simp]
lemma rootLink_join : rootLink (join side color id inner outer) = some (.node id) := by
  cases side <;> rfl

open List

lemma rootLink_mem (isRoot : rootLink tree = some (.node id)) : id ∈ tree.labels := by
  cases tree with
  | nil => cases isRoot
  | node _ _ _ _ =>
    cases isRoot
    exact mem_append_right _ mem_cons_self

lemma rootLink_ne_trunk (tree : ColorTree Nat) : rootLink tree ≠ some .trunk := by
  intro ht
  cases tree <;> cases ht

lemma shape_join {parent : TreeLink} :
    store.Shape (join side color id inner outer) parent ↔ store.color (.node id) = color ∧
      store.parent (.node id) = some parent ∧ store.next (.node id) side = rootLink inner ∧
      store.next (.node id) side.opposite = rootLink outer ∧
      store.Shape inner (.node id) ∧ store.Shape outer (.node id) := by
  cases side with
  | left => exact Iff.rfl
  | right =>
    constructor
    · rintro ⟨hc, hp, hl, hr, left, right⟩
      exact ⟨hc, hp, hr, hl, right, left⟩
    rintro ⟨hc, hp, hr, hl, right, left⟩
    exact ⟨hc, hp, hl, hr, left, right⟩

structure Agree (store after : TreeStore T) (ids : List Nat) : Prop where
  color : ∀ id ∈ ids, after.color (.node id) = store.color (.node id)
  next : ∀ id ∈ ids, after.next (.node id) = store.next (.node id)
  parent : ∀ id ∈ ids, after.parent (.node id) = store.parent (.node id)

lemma Agree.subset {ids fewer : List Nat}
    (agree : store.Agree after ids) (isSubset : fewer ⊆ ids) : store.Agree after fewer :=
  ⟨fun id mem => agree.color id (isSubset mem), fun id mem => agree.next id (isSubset mem),
    fun id mem => agree.parent id (isSubset mem)⟩

lemma Shape.congr : ∀ {parent : TreeLink}, store.Agree after tree.labels →
    store.Shape tree parent → after.Shape tree parent := by
  induction tree with
  | nil =>
    intro parent _ _
    trivial
  | node color left id right hlh hrh =>
    intro parent agree shape
    obtain ⟨hc, hp, hl, hr, hil, hir⟩ := shape
    have here : id ∈ (node color left id right).labels := mem_append_right _ mem_cons_self
    refine ⟨(agree.color id here).trans hc, (agree.parent id here).trans hp, ?_, ?_, ?_, ?_⟩
    · rw [agree.next id here, hl]
    · rw [agree.next id here, hr]
    · exact hlh (agree.subset fun other mem => mem_append_left _ mem) hil
    exact hrh (agree.subset fun other mem => mem_append_right _ (mem_cons_of_mem _ mem)) hir

lemma Shape.move {parent next : TreeLink} (nodup : tree.labels.Nodup)
    (shape : store.Shape tree parent)
    (sameColor : ∀ id ∈ tree.labels, after.color (.node id) = store.color (.node id))
    (sameNext : ∀ id ∈ tree.labels, after.next (.node id) = store.next (.node id))
    (sameParent : ∀ id ∈ tree.labels, rootLink tree ≠ some (.node id) →
      after.parent (.node id) = store.parent (.node id))
    (rootParent : ∀ id, rootLink tree = some (.node id) → after.parent (.node id) = some next) :
    after.Shape tree next := by
  cases tree with
  | nil => trivial
  | node color left id right =>
    rw [labels] at nodup sameColor sameNext sameParent
    obtain ⟨hc, hp, hl, hr, hil, hir⟩ := shape
    have here : id ∈ left.labels ++ id :: right.labels := mem_append_right _ mem_cons_self
    rw [perm_middle.nodup_iff, nodup_cons] at nodup
    have agree : store.Agree after (left.labels ++ right.labels) := by
      have hin : ∀ other ∈ left.labels ++ right.labels,
          other ∈ left.labels ++ id :: right.labels := fun other mem =>
        perm_middle.symm.subset (mem_cons_of_mem _ mem)
      refine ⟨fun other mem => sameColor other (hin other mem),
        fun other mem => sameNext other (hin other mem), ?_⟩
      intro other mem
      apply sameParent other (hin other mem)
      intro hro
      cases hro
      exact nodup.1 mem
    refine ⟨(sameColor id here).trans hc, rootParent id rfl, ?_, ?_, ?_, ?_⟩
    · rw [sameNext id here, hl]
    · rw [sameNext id here, hr]
    · exact hil.congr (agree.subset fun other mem => mem_append_left _ mem)
    · exact hir.congr (agree.subset fun other mem => mem_append_right _ mem)

def holeParent : List (Frame Nat) → TreeLink
  | [] => .trunk
  | frame :: _ => .node frame.label

def PathShape (store : TreeStore T) : List (Frame Nat) → Option TreeLink → Prop
  | [], link => store.root = link
  | frame :: path, link =>
    store.color (.node frame.label) = frame.color ∧
    store.parent (.node frame.label) = some (holeParent path) ∧
    store.next (.node frame.label) frame.side = link ∧
    store.next (.node frame.label) frame.side.opposite = rootLink frame.sibling ∧
    store.Shape frame.sibling (.node frame.label) ∧
    PathShape store path (some (.node frame.label))

variable {path : List (Frame Nat)}

lemma PathShape.congr {link : Option TreeLink}
    (agree : store.Agree after (frameLabels path)) (sameRoot : after.root = store.root)
    (shape : store.PathShape path link) : after.PathShape path link := by
  induction path generalizing link with
  | nil => exact sameRoot.trans shape
  | cons frame path ih =>
    obtain ⟨hc, hp, hl, hs, hsi, above⟩ := shape
    have here : frame.label ∈ frameLabels (frame :: path) := mem_cons_self
    refine ⟨(agree.color _ here).trans hc, (agree.parent _ here).trans hp, ?_, ?_, ?_, ?_⟩
    · rw [agree.next _ here, hl]
    · rw [agree.next _ here, hs]
    · exact hsi.congr (agree.subset fun other mem => mem_cons_of_mem _ (mem_append_left _ mem))
    · exact ih (agree.subset fun other mem => mem_cons_of_mem _ (mem_append_right _ mem)) above

structure Hangs (store : TreeStore T) (path : List (Frame Nat))
    (tree : ColorTree Nat) : Prop where
  above : store.PathShape path (rootLink tree)
  below : store.Shape tree (holeParent path)
  nodup : (tree.labels ++ frameLabels path).Nodup

lemma Hangs.congr (hangs : store.Hangs path tree)
    (agree : store.Agree after (tree.labels ++ frameLabels path))
    (sameRoot : after.root = store.root) : after.Hangs path tree :=
  ⟨hangs.above.congr (agree.subset fun _ mem =>
      mem_append_right _ mem) sameRoot,
    hangs.below.congr (agree.subset fun _ mem => mem_append_left _ mem), hangs.nodup⟩

lemma hangs_cons {frame : Frame Nat} :
    store.Hangs (frame :: path) tree ↔ store.Hangs path (frame.fill tree) := by
  have perm : (tree.labels ++ frameLabels (frame :: path)).Perm
      ((frame.fill tree).labels ++ frameLabels path) := by
    rw [frameLabels, Frame.fill]
    have hf := perm_labels_plug [frame] tree
    rw [plug, plug, frameLabels, frameLabels, append_nil, Frame.fill] at hf
    refine List.Perm.trans ?_ (hf.append_right _).symm
    rw [append_assoc, cons_append]
  constructor
  · rintro ⟨above, below, nodup⟩
    obtain ⟨hc, hp, hl, hs, hsi, above⟩ := above
    refine ⟨?_, ?_, (perm.nodup_iff).mp nodup⟩
    · rw [Frame.fill, rootLink_join]
      exact above
    · exact shape_join.mpr ⟨hc, hp, hl, hs, below, hsi⟩
  rintro ⟨above, below, nodup⟩
  obtain ⟨hc, hp, hl, hs, below, hsi⟩ := shape_join.mp below
  rw [Frame.fill, rootLink_join] at above
  exact ⟨⟨hc, hp, hl, hs, hsi, above⟩, below, (perm.nodup_iff).mpr nodup⟩

lemma hangs_plug : store.Hangs path tree ↔ store.Hangs [] (plug path tree) := by
  induction path generalizing tree with
  | nil => exact Iff.rfl
  | cons _ path ih => rw [hangs_cons, ih, plug]

structure SameRest (store after : TreeStore T) : Prop where
  value : after.value = store.value
  count : after.count = store.count
  nodeCt : after.nodeCt = store.nodeCt
  trunkNext : after.next .trunk = store.next .trunk

lemma SameRest.trans {middle : TreeStore T}
    (left : store.SameRest middle) (right : middle.SameRest after) : store.SameRest after :=
  ⟨right.value.trans left.value, right.count.trans left.count,
    right.nodeCt.trans left.nodeCt, right.trunkNext.trans left.trunkNext⟩

lemma sameRest_setColor (store : TreeStore T) (link : TreeLink)
    (color : NodeColor) : store.SameRest (store.setColor link color) :=
  ⟨rfl, rfl, rfl, rfl⟩

section

variable (hangs : store.Hangs path (join side color id inner outer))

include hangs

lemma Hangs.paint (next : Color) :
    (store.setColor (.node id) next).Hangs path (join side next id inner outer) := by
  obtain ⟨above, below, nodup⟩ := hangs
  obtain ⟨_, hpa, hin, ho, hii, hio⟩ := shape_join.mp below
  have perm : ((join side color id inner outer).labels ++
      frameLabels path).Perm (id :: (inner.labels ++ (outer.labels ++ frameLabels path))) := by
    refine (perm_labels_join.append_right _).trans ?_
    rw [cons_append, append_assoc]
  have notIn := (nodup_cons.mp (perm.nodup_iff.mp nodup)).1
  have agree : store.Agree (store.setColor (.node id) next)
      (inner.labels ++ (outer.labels ++ frameLabels path)) := by
    refine ⟨?_, fun _ _ => rfl, fun _ _ => rfl⟩
    intro other mem
    have ne : other ≠ id := by
      rintro rfl
      exact notIn mem
    simp [ne]
  refine ⟨?_, ?_, ?_⟩
  · rw [rootLink_join] at above ⊢
    exact above.congr (agree.subset fun other mem =>
      mem_append_right _ (mem_append_right _ mem)) rfl
  · refine shape_join.mpr ⟨by simp, hpa, hin, ho, ?_, ?_⟩
    · exact hii.congr (agree.subset fun other mem => mem_append_left _ mem)
    exact hio.congr (agree.subset fun other mem => mem_append_right _ (mem_append_left _ mem))
  have hp : (join side color id inner outer).paint next =
      join side next id inner outer := paint_join next
  rw [← hp, labels_paint]
  exact nodup

lemma Hangs.paint_outer {other : Nat} (isRoot : rootLink outer = some (.node other))
    (next : Color) :
    (store.setColor (.node other) next).Hangs path
      (join side color id inner (outer.paint next)) := by
  cases outer with
  | nil => cases isRoot
  | node outerColor left _ right =>
    cases isRoot
    rw [← join_opposite] at hangs ⊢
    have hin : store.Hangs (⟨side.opposite, color, id, inner⟩ :: path)
        (join .left outerColor other left right) := hangs_cons.mpr hangs
    exact hangs_cons.mp (hin.paint next)

end

lemma root_of_pathShape : ∀ {link : Option TreeLink}, path ≠ [] → store.PathShape path link →
    ∃ id ∈ frameLabels path, store.root = some (.node id) := by
  induction path with
  | nil =>
    intro link hnn _
    exact absurd rfl hnn
  | cons frame path ih =>
    intro link _ shape
    obtain ⟨_, _, _, _, _, above⟩ := shape
    by_cases isNil : path = []
    · subst isNil
      exact ⟨frame.label, mem_cons_self, above⟩
    obtain ⟨id, mem, hr⟩ := ih isNil above
    exact ⟨id, mem_cons_of_mem _ (mem_append_right _ mem), hr⟩

structure Turned (store after : TreeStore T) (path : List (Frame Nat))
    (dir : Side) (x y : Nat) (mid : Option TreeLink) : Prop where
  nextX : after.next (.node x) dir.opposite = mid
  sameX : after.next (.node x) dir = store.next (.node x) dir
  nextY : after.next (.node y) dir = some (.node x)
  sameY : after.next (.node y) dir.opposite = store.next (.node y) dir.opposite
  parentX : after.parent (.node x) = some (.node y)
  parentY : after.parent (.node y) = some (holeParent path)
  parentMid : ∀ id, mid = some (.node id) → after.parent (.node id) = some (.node x)
  hole : ∀ frame rest, path = frame :: rest →
    after.next (.node frame.label) frame.side = some (.node y) ∧
    after.next (.node frame.label) frame.side.opposite =
      store.next (.node frame.label) frame.side.opposite
  root : after.root = if path = [] then some (.node y) else store.root
  next : ∀ id, id ≠ x → id ≠ y → holeParent path ≠ .node id →
    after.next (.node id) = store.next (.node id)
  parent : ∀ id, id ≠ x → id ≠ y → mid ≠ some (.node id) →
    after.parent (.node id) = store.parent (.node id)
  color : after.color = store.color
  rest : store.SameRest after

def setHole (store : TreeStore T) (path : List (Frame Nat)) (link : Option TreeLink) :
    TreeStore T :=
  match path with
  | [] => store.setParent .trunk link
  | frame :: _ => store.setNext (.node frame.label) frame.side link

section

variable (path) (store) (link : Option TreeLink)

lemma next_setHole (elsewhere : holeParent path ≠ .node id) :
    (store.setHole path link).next (.node id) = store.next (.node id) := by
  cases path with
  | nil => rfl
  | cons _ path => exact Function.update_of_ne (Ne.symm elsewhere) _ _

lemma next_setHole_trunk : (store.setHole path link).next .trunk = store.next .trunk := by
  cases path with
  | nil => rfl
  | cons _ path =>
    funext side
    simp [setHole]

lemma parent_setHole (id : Nat) :
    (store.setHole path link).parent (.node id) = store.parent (.node id) := by
  cases path with
  | nil => simp [setHole]
  | cons _ path => rfl

lemma color_setHole : (store.setHole path link).color = store.color := by
  cases path <;> rfl

lemma root_setHole : (store.setHole path link).root = if path = [] then link else store.root := by
  cases path with
  | nil => simp [setHole, root]
  | cons _ path => rfl

lemma value_setHole : (store.setHole path link).value = store.value ∧
    (store.setHole path link).count = store.count ∧
    (store.setHole path link).nodeCt = store.nodeCt := by
  cases path <;> exact ⟨rfl, rfl, rfl⟩

end

variable {dir : Side} {mid : Option TreeLink}

lemma value_setParentOf (store : TreeStore T) (child value : Option TreeLink) :
    (store.setParentOf child value).value = store.value ∧
    (store.setParentOf child value).count = store.count ∧
    (store.setParentOf child value).nodeCt = store.nodeCt := by
  cases child <;> exact ⟨rfl, rfl, rfl⟩

lemma holeParent_ne (notIn : id ∉ frameLabels path) : holeParent path ≠ .node id := by
  cases path with
  | nil =>
    intro same
    cases same
  | cons _ path =>
    intro same
    cases same
    exact notIn mem_cons_self

lemma relink_eq (y : TreeLink) (dir : Side) (above : store.PathShape path (some (.node x)))
    (parentX : store.parent (.node x) = some (holeParent path)) (notIn : x ∉ frameLabels path) :
    store.relink (.node x) y dir = some (store.setHole path (some y)) := by
  cases path with
  | nil =>
    have hr : store.root = some (.node x) := above
    rw [relink, if_pos hr]
    rfl
  | cons frame path =>
    obtain ⟨id, mem, hr⟩ := root_of_pathShape (cons_ne_nil _ _) above
    have hnr : store.root ≠ some (.node x) := by
      rw [hr]
      rintro same
      cases same
      exact notIn mem
    have hp : store.parent (.node x) = some (.node frame.label) := parentX
    obtain ⟨_, _, hl, hs, _, _⟩ := above
    have hns : rootLink frame.sibling ≠ some (.node x) := by
      intro hr
      exact notIn (mem_cons_of_mem _ (mem_append_left _ (rootLink_mem hr)))
    rw [relink, if_neg hnr]
    simp only [hp]
    by_cases here : dir = frame.side
    · subst here
      rw [if_pos hl]
      rfl
    have ho := Side.eq_opposite_of_ne here
    subst ho
    rw [hs, if_neg hns, Side.opposite_opposite]
    rfl

lemma exists_turned (ne : x ≠ y) (above : store.PathShape path (some (.node x)))
    (nextX : store.next (.node x) dir.opposite = some (.node y))
    (nextY : store.next (.node y) dir = mid)
    (parentX : store.parent (.node x) = some (holeParent path)) (notTrunk : mid ≠ some .trunk)
    (notX : mid ≠ some (.node x)) (notY : mid ≠ some (.node y)) (xNotIn : x ∉ frameLabels path)
    (notAbove : y ∉ frameLabels path) (midApart : ∀ id ∈ frameLabels path, mid ≠ some (.node id)) :
    ∃ after, store.rotate (.node x) dir = some after ∧ store.Turned after path dir x y mid := by
  have moved : (((store.setNext (.node x) dir.opposite mid).setParentOf mid
      (some (.node x))).setParent (.node y)
        (some (holeParent path))).PathShape path (some (.node x)) := by
    refine above.congr ⟨?_, ?_, ?_⟩ ?_
    · intro id _
      simp
    · intro id mem
      have notX : id ≠ x := fun same => xNotIn (same ▸ mem)
      funext side
      simp [notX]
    · intro id mem
      have notY : id ≠ y := fun same => notAbove (same ▸ mem)
      simp [notY, midApart id mem]
    · simp [root, notTrunk]
  have hp : ((store.setNext (.node x) dir.opposite mid).setParentOf mid
      (some (.node x))).parent (.node x) = some (holeParent path) := by
    simp [notX, parentX]
  rw [rotate]
  simp only [nextX, nextY, hp]
  rw [relink_eq (.node y) dir moved (by simp [ne, notX, parentX]) xNotIn]
  refine ⟨_, rfl, ?_⟩
  have hno := dir.opposite_ne
  have isDir := Ne.symm hno
  have different' := Ne.symm ne
  have hxe := holeParent_ne xNotIn
  have hye := holeParent_ne notAbove
  refine ⟨?_, ?_, ?_, ?_, ?_, ?_, ?_, ?_, ?_, ?_, ?_, ?_, ?_⟩
  · simp [next_setHole _ _ _ hxe, ne]
  · simp [next_setHole _ _ _ hxe, ne, isDir]
  · simp
  · simp [next_setHole _ _ _ hye, hno, different']
  · simp
  · simp [parent_setHole, different']
  · intro id isMid
    have notX : id ≠ x := by
      rintro rfl
      exact notX isMid
    have notY : id ≠ y := by
      rintro rfl
      exact notY isMid
    simp [parent_setHole, notX, notY, isMid]
  · intro frame _ hpa
    subst hpa
    have notX : frame.label ≠ x := fun same => xNotIn (same ▸ mem_cons_self)
    have notY : frame.label ≠ y := fun same => notAbove (same ▸ mem_cons_self)
    simp [setHole, notX, notY, Side.opposite_ne]
  · refine (root_setHole _ path (some (.node y))).trans ?_
    simp [root, notTrunk]
  · intro id notX notY he
    funext side
    simp [next_setHole _ _ _ he, notX, notY]
  · intro id notX notY hnm
    simp [parent_setHole, notX, notY, hnm]
  · simp [color_setHole]
  obtain ⟨hhv, hhc, holeNodeCt⟩ := value_setHole
    (((store.setNext (.node x) dir.opposite mid).setParentOf mid
      (some (.node x))).setParent (.node y) (some (holeParent path))) path (some (.node y))
  obtain ⟨value, count, nodeCt⟩ := value_setParentOf
    (store.setNext (.node x) dir.opposite mid) mid (some (.node x))
  refine ⟨hhv.trans value, hhc.trans count, holeNodeCt.trans nodeCt, ?_⟩
  funext side
  simp [next_setHole_trunk]

section

variable (turned : store.Turned after path dir x y mid)

include turned

lemma Turned.agree {ids : List Nat} (notX : x ∉ ids) (notY : y ∉ ids)
    (notMid : ∀ id ∈ ids, mid ≠ some (.node id)) (notHole : ∀ id ∈ ids, holeParent path ≠ .node id)
    : store.Agree after ids := by
  have other : ∀ id ∈ ids, id ≠ x ∧ id ≠ y := by
    intro id mem
    constructor
    · rintro rfl
      exact notX mem
    rintro rfl
    exact notY mem
  refine ⟨?_, ?_, ?_⟩
  · intro id _
    rw [turned.color]
  · intro id mem
    exact turned.next id (other id mem).1 (other id mem).2 (notHole id mem)
  intro id mem
  exact turned.parent id (other id mem).1 (other id mem).2 (notMid id mem)

lemma Turned.pathShape (above : store.PathShape path (some (.node x)))
    (nodup : (frameLabels path).Nodup) (xNotIn : x ∉ frameLabels path)
    (notAbove : y ∉ frameLabels path) (midApart : ∀ id ∈ frameLabels path, mid ≠ some (.node id)) :
    after.PathShape path (some (.node y)) := by
  cases path with
  | nil => exact turned.root
  | cons frame path =>
    obtain ⟨hc, hp, _, hs, hsi, above⟩ := above
    obtain ⟨here, there⟩ := turned.hole frame path rfl
    rw [frameLabels, nodup_cons] at nodup
    rw [frameLabels, mem_cons, not_or] at xNotIn notAbove
    have agree : store.Agree after (frame.sibling.labels ++ frameLabels path) := by
      refine turned.agree xNotIn.2 notAbove.2 ?_ ?_
      · exact (forall_mem_cons.mp midApart).2
      intro id mem same
      cases same
      exact nodup.1 mem
    refine ⟨?_, ?_, here, there.trans hs, ?_, ?_⟩
    · rw [turned.color, hc]
    · rw [turned.parent frame.label (Ne.symm xNotIn.1) (Ne.symm notAbove.1)
        (midApart _ mem_cons_self), hp]
    · exact hsi.congr (agree.subset fun id mem => mem_append_left _ mem)
    refine above.congr (agree.subset fun id mem => mem_append_right _ mem) ?_
    rw [turned.root, if_neg (cons_ne_nil _ _)]

end

/-- A rotation of the links is one of the tree. -/
lemma Hangs.rotate {other : Color} {near mid far : ColorTree Nat}
    (hangs : store.Hangs path (join dir.opposite color x (join dir other y mid far) near)) :
    ∃ after, store.rotate (.node x) dir = some after ∧ after.Hangs path
        (join dir other y (join dir.opposite color x mid near) far) ∧
      after.color = store.color ∧ store.SameRest after ∧
      ∀ id, id ∉ (join dir.opposite color x (join dir other y mid far)
          near).labels → id ∉ frameLabels path → after.next (.node id) = store.next (.node id) ∧
        after.parent (.node id) = store.parent (.node id) := by
  obtain ⟨above, below, nodup⟩ := hangs
  rw [rootLink_join] at above
  obtain ⟨hcx, hpx, nextX, hn, inY, hin⟩ := shape_join.mp below
  obtain ⟨hcy, _, nextY, isFar, inMid, inFar⟩ := shape_join.mp inY
  rw [Side.opposite_opposite] at hn
  rw [rootLink_join] at nextX
  have perm : ((join dir.opposite color x (join dir other y mid far)
      near).labels ++ frameLabels path).Perm
        (x :: y :: (mid.labels ++ (far.labels ++ (near.labels ++ frameLabels path)))) := by
    refine (perm_labels_join.append_right _).trans ?_
    rw [cons_append, append_assoc]
    refine List.Perm.cons _ ?_
    refine (perm_labels_join.append_right _).trans ?_
    rw [cons_append, append_assoc]
  have hdi := perm.nodup_iff.mp nodup
  simp only [nodup_cons, mem_cons, mem_append, not_or,
    nodup_append, mem_append] at hdi
  obtain ⟨⟨ne, xMid, xFar, xNear, xPath⟩, ⟨yMid, yFar, yNear, yPath⟩,
    hmn, ⟨hfn, ⟨hnn, hpn, nearPath⟩, farOthers⟩, midOthers⟩ := hdi
  have hmr : ∀ id, id ∉ mid.labels → rootLink mid ≠ some (.node id) := fun id notIn hro =>
    notIn (rootLink_mem hro)
  have hmni : ∀ id ∈ frameLabels path, rootLink mid ≠ some (.node id) := fun id mem =>
    hmr id fun inMid => midOthers id inMid id (.inr (.inr mem)) rfl
  have hip : ∀ id, id ∉ frameLabels path → holeParent path ≠ .node id := fun id => holeParent_ne
  obtain ⟨after, hr, turned⟩ := exists_turned ne above nextX
    nextY hpx (rootLink_ne_trunk mid) (hmr x xMid) (hmr y yMid) xPath yPath hmni
  have hfa : store.Agree after far.labels := by
    refine turned.agree xFar yFar ?_ ?_
    · intro id mem
      exact hmr id fun inMid => midOthers id inMid id (.inl mem) rfl
    intro id mem
    exact hip id fun hp => farOthers id mem id (.inr hp) rfl
  have hna : store.Agree after near.labels := by
    refine turned.agree xNear yNear ?_ ?_
    · intro id mem
      exact hmr id fun inMid => midOthers id inMid id (.inr (.inl mem)) rfl
    intro id mem
    exact hip id fun hp => nearPath id mem id hp rfl
  have other : ∀ id ∈ mid.labels, id ≠ x ∧ id ≠ y := by
    intro id mem
    constructor
    · rintro rfl
      exact xMid mem
    rintro rfl
    exact yMid mem
  have hmm : after.Shape mid (.node x) := by
    refine inMid.move hmn ?_ ?_ ?_ turned.parentMid
    · intro id _
      rw [turned.color]
    · intro id mem
      exact turned.next id (other id mem).1 (other id mem).2 (hip id fun hp =>
          midOthers id mem id (.inr (.inr hp)) rfl)
    intro id mem hnr
    exact turned.parent id (other id mem).1 (other id mem).2 hnr
  refine ⟨after, hr, ⟨?_, ?_, ?_⟩, turned.color, turned.rest, ?_⟩
  · rw [rootLink_join]
    exact turned.pathShape above hpn xPath yPath hmni
  · refine shape_join.mpr ⟨?_, turned.parentY, ?_, ?_, ?_, ?_⟩
    · rw [turned.color, hcy]
    · rw [turned.nextY, rootLink_join]
    · rw [turned.sameY, isFar]
    · refine shape_join.mpr ⟨?_, turned.parentX, turned.nextX, ?_, hmm, ?_⟩
      · rw [turned.color, hcx]
      · rw [Side.opposite_opposite, turned.sameX, hn]
      · exact hin.congr hna
    · exact inFar.congr hfa
  · rw [← labels_rotate]
    exact nodup
  intro id notIn hnp
  rw [mem_labels_join, not_or, not_or, mem_labels_join, not_or, not_or] at notIn
  obtain ⟨notX, ⟨notY, hnm, _⟩, _⟩ := notIn
  exact ⟨turned.next id notX notY (hip id hnp), turned.parent id notX notY (hmr id hnm)⟩

end TreeStore

end OoOS.Libk
