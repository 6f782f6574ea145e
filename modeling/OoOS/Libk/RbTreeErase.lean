import OoOS.Libk.RbTreeFix
import OoOS.Libk.RbTreeInsert

/-!
# The loop of an erasure in memory

The loop of `__rebalance_for_erase` does in memory what `fixTree` does to a
tree, and it does not touch the nodes of another tree.
-/

namespace OoOS.Libk

open Lib.RedBlack Lib.RedBlack.ColorTree List.Subset Side

universe u

namespace TreeStore

variable {T : Type u} {store : TreeStore T} {side : Side}

section

variable {x : Option TreeLink} {p w far near : TreeLink} {dir : Side}

variable {turned rotated : TreeStore T}

section

variable (isSibling : store.next p dir = some w)

include isSibling

lemma fixDoubleBlack_red {above : TreeLink} (isRed : store.color w = .red)
    (isTurned : ((store.setColor w .black).setColor p .red).rotate above dir.opposite = some turned)
    (turnedNext : turned.next p dir = some w)
    (blackChildren : ∀ side, turned.isBlack (turned.next w side) = true) :
    store.fixDoubleBlack (some above) p dir =
      some (false, some p, turned.parent p, turned.setColor w .red) := by
  simp [fixDoubleBlack, isSibling, isRed, isTurned, turnedNext, blackChildren]

lemma fixDoubleBlack_red_none (isRed : store.color w = .red)
    (notTurned : ∀ above, x = some above → ((store.setColor w .black).setColor p .red).rotate above
        dir.opposite = none) : store.fixDoubleBlack x p dir = none := by
  cases x with
  | none => simp [fixDoubleBlack, isSibling, isRed]
  | some above => simp [fixDoubleBlack, isSibling, isRed, notTurned above rfl]

lemma fixDoubleBlack_black (isBlack : store.color w = .black)
    (blackChildren : ∀ side, store.isBlack (store.next w side) = true) :
    store.fixDoubleBlack x p dir = some (false, some p, store.parent p, store.setColor w .red) := by
  simp [fixDoubleBlack, isSibling, isBlack, blackChildren]

end

lemma not_both_black (isFar : store.next w side = some far)
    (isRed : store.isBlack (some far) = false) :
    ¬ (store.isBlack (store.next w .left) = true ∧ store.isBlack (store.next w .right) = true) := by
  rw [← isFar] at isRed
  cases side <;> simp [isRed]

lemma fixDoubleBlack_far (isNext : store.next p dir = some w) (isBlack : store.color w = .black)
    (isFar : store.next w dir = some far) (farRed : store.isBlack (some far) = false)
    (isRotated : (((store.setColor w (store.color p)).setColor p
      .black).setColor far .black).rotate p dir.opposite = some rotated) :
    store.fixDoubleBlack x p dir = some (true, x, some p, rotated) := by
  have hnb := not_both_black isFar farRed
  simp only [fixDoubleBlack, isNext, isBlack, reduceCtorEq, if_false, if_neg hnb]
  simp [isNext, isFar, farRed, isRotated]

lemma fixDoubleBlack_near {second : TreeLink}
    (isNext : store.next p dir = some w) (isBlack : store.color w = .black)
    (farBlack : store.isBlack (store.next w dir) = true)
    (isNear : store.next w dir.opposite = some near) (nearRed : store.isBlack (some near) = false)
    (isTurned : ((store.setColor near .black).setColor w .red).rotate w dir = some turned)
    (turnedNext : turned.next p dir = some second) (isFar : turned.next second dir = some far)
    (isRotated : (((turned.setColor second (turned.color p)).setColor p
      .black).setColor far .black).rotate p dir.opposite = some rotated) :
    store.fixDoubleBlack x p dir = some (true, x, some p, rotated) := by
  have hnb := not_both_black isNear nearRed
  simp only [fixDoubleBlack, isNext, isBlack, reduceCtorEq, if_false, if_neg hnb]
  simp [farBlack, isNear, isTurned, turnedNext, isFar, isRotated]

end

variable {tree : ColorTree Nat}

structure Within (store after : TreeStore T) (ids : List Nat) : Prop where
  rest : store.SameRest after
  next : ∀ id, id ∉ ids → after.next (.node id) = store.next (.node id)
  parent : ∀ id, id ∉ ids → after.parent (.node id) = store.parent (.node id)

lemma Within.trans {middle after : TreeStore T} {ids fewer : List Nat}
    (left : store.Within middle ids) (right : middle.Within after fewer)
    (isSubset : fewer ⊆ ids) : store.Within after ids :=
  ⟨left.rest.trans right.rest, fun id notIn => (right.next id fun mem =>
      notIn (isSubset mem)).trans (left.next id notIn),
    fun id notIn => (right.parent id fun mem => notIn (isSubset mem)).trans (left.parent id notIn)⟩

lemma within_setColor (store : TreeStore T) (link : TreeLink)
    (color : NodeColor) (ids : List Nat) : store.Within (store.setColor link color) ids :=
  ⟨store.sameRest_setColor link color, fun _ _ => rfl, fun _ _ => rfl⟩

lemma Hangs.rotate_within {path : List (Frame Nat)} {dir : Side} {color other : Color} {x y : Nat}
    {near mid far : ColorTree Nat}
    (hangs : store.Hangs path (join dir color x near (join dir other y mid far))) :
    ∃ after, store.rotate (.node x) dir = some after ∧ after.Hangs path
        (join dir other y (join dir color x near mid) far) ∧
      store.Within after ((join dir color x near
        (join dir other y mid far)).labels ++ frameLabels path) := by
  rw [← join_opposite] at hangs
  obtain ⟨after, hr, hha, _, rest, he⟩ := hangs.rotate
  rw [join_opposite] at hha he
  refine ⟨after, hr, hha, rest, ?_, ?_⟩
  · intro id notIn
    rw [List.mem_append, not_or] at notIn
    exact (he id notIn.1 notIn.2).1
  intro id notIn
  rw [List.mem_append, not_or] at notIn
  exact (he id notIn.1 notIn.2).2

section

variable {parent : TreeLink} {id : Nat} (isSibling : store.Shape tree parent)
  (isRoot : rootLink tree = some (.node id))

include isSibling isRoot

lemma Shape.isBlack_next (side : Side) :
    store.isBlack (store.next (.node id) side) = decide ((tree.child side).rootColor = .black) := by
  cases tree with
  | nil => cases isRoot
  | node _ left _ right =>
    cases isRoot
    obtain ⟨_, _, hl, hri, hil, hir⟩ := isSibling
    cases side with
    | left =>
      rw [hl]
      exact isBlack_rootLink hil
    | right =>
      rw [hri]
      exact isBlack_rootLink hir

lemma Shape.color_root : store.color (.node id) = tree.rootColor := by
  cases tree with
  | nil => cases isRoot
  | node color _ _ _ =>
    cases isRoot
    exact isSibling.1

end

lemma exists_rootLink (notNil : tree ≠ nil) : ∃ id, rootLink tree = some (.node id) := by
  cases tree with
  | nil => exact absurd rfl notNil
  | node _ _ label _ => exact ⟨label, rfl⟩

lemma rootLink_paint (color : Color) (tree : ColorTree Nat) :
    rootLink (tree.paint color) = rootLink tree := by
  cases tree <;> rfl

variable {frame : Frame Nat} {path : List (Frame Nat)} {s : Nat}

/-- A round goes on at the parent of the frame, with `raised` in its place. -/
abbrev FixesTo (store : TreeStore T) (tree : ColorTree Nat) (frame : Frame Nat)
    (path : List (Frame Nat)) (raised : ColorTree Nat) : Prop :=
  ∃ after, store.fixDoubleBlack (rootLink tree) (.node frame.label) frame.side.opposite =
      some (false, some (.node frame.label), some (holeParent path), after) ∧
    (after.setColor (.node frame.label) .black).Hangs path raised ∧
    store.Within (after.setColor (.node frame.label) .black)
      (tree.labels ++ frameLabels (frame :: path))

variable {color : Color}

lemma hangs_other {label : Nat} {sibling : ColorTree Nat} :
    store.Hangs (⟨side, color, label, sibling⟩ :: path) tree ↔
      store.Hangs (⟨side.opposite, color, label, tree⟩ :: path) sibling := by
  rw [hangs_cons, hangs_cons, Frame.fill, Frame.fill, join_opposite]

section

variable (hangs : store.Hangs (frame :: path) tree)

include hangs

section

variable (isRoot : rootLink frame.sibling = some (.node s))

include isRoot

lemma Hangs.next_sibling : store.next (.node frame.label) frame.side.opposite = some (.node s) :=
  hangs.above.2.2.2.1.trans isRoot

lemma Hangs.paint_around (color next : Color) :
    ((store.setColor (.node s) color).setColor (.node frame.label) next).Hangs
      (⟨frame.side, next, frame.label, frame.sibling.paint color⟩ :: path) tree := by
  have hf := hangs_cons.mp hangs
  exact hangs_cons.mpr ((hf.paint_outer isRoot color).paint next)

end

/-- A red sibling is turned up. -/
lemma Hangs.fix_red {turned : ColorTree Nat}
    (isRed : frame.sibling.rootColor = .red) (redRule : frame.sibling.RedRule)
    (isTurned : tree.turn frame.side = some turned) :
    store.FixesTo tree frame path (join frame.side .black frame.label turned frame.sibling) := by
  obtain ⟨s, isRoot⟩ : ∃ s, rootLink frame.sibling = some (.node s) := by
    refine exists_rootLink ?_
    intro isNil
    rw [isNil] at isRed
    cases isRed
  obtain ⟨_, _, x, y, _, _, _, rfl, rfl⟩ := turn_eq_some isTurned
  have ha := hangs.paint_around isRoot .black .red
  obtain ⟨after, hr, hha, hw⟩ := ha.rotate_within
  have hpa : rootLink (frame.sibling.paint .black) = some (.node s) := by
    rw [rootLink_paint, isRoot]
  have hc : ∀ side, after.isBlack (after.next (.node s) side) = true := by
    intro side
    rw [hha.sibling_shape.isBlack_next hpa, decide_eq_true_eq]
    cases hs : frame.sibling with
    | nil =>
      rw [hs] at isRed
      cases isRed
    | node _ left label right =>
      rw [hs] at isRed redRule
      cases side with
      | left => exact (redRule.1 isRed).1
      | right => exact (redRule.1 isRed).2
  have hpar : after.parent (.node frame.label) = some (holeParent path) := hha.above.2.1
  refine ⟨after.setColor (.node s) .red, ?_, ?_, ?_⟩
  · rw [rootLink_join, ← hpar]
    refine fixDoubleBlack_red (hangs.next_sibling isRoot) ?_ ?_ (hha.next_sibling hpa) hc
    · rw [hangs.sibling_shape.color_root isRoot, isRed]
    rw [opposite_opposite]
    exact hr
  · have hp := hangs_cons.mp (hha.paint_around hpa .red .black)
    simp only [Frame.fill, paint_paint] at hp
    rw [← isRed, paint_rootColor] at hp
    rw [isRed] at hp
    exact hp
  rw [frameLabels, labels_paint] at hw
  have hp := ((store.within_setColor (.node s) .black _).trans
    (within_setColor _ (.node frame.label) .red _)
    (refl _)).trans hw (refl _)
  exact (hp.trans (within_setColor _ (.node s) .red _) (refl _)).trans
      (within_setColor _ (.node frame.label) .black _) (refl _)

lemma Hangs.fix_red_none (isRed : frame.sibling.rootColor = .red)
    (notTurned : tree.turn frame.side = none) :
    store.fixDoubleBlack (rootLink tree) (.node frame.label) frame.side.opposite = none := by
  obtain ⟨s, isRoot⟩ : ∃ s, rootLink frame.sibling = some (.node s) := by
    refine exists_rootLink ?_
    intro isNil
    rw [isNil] at isRed
    cases isRed
  have hsr : store.color (.node s) = .red := by rw [hangs.sibling_shape.color_root isRoot, isRed]
  refine fixDoubleBlack_red_none (hangs.next_sibling isRoot) hsr ?_
  intro _ ha
  by_cases isNil : tree = nil
  · rw [isNil] at ha
    cases ha
  obtain ⟨color, label, _, _, rfl⟩ := exists_join frame.side isNil
  obtain rfl := turn_eq_none notTurned
  rw [rootLink_join] at ha
  cases ha
  have hn : store.next (.node label) frame.side.opposite = none :=
    (shape_join.mp hangs.below).2.2.2.1
  rw [opposite_opposite, TreeStore.rotate]
  simp [hn]

lemma Hangs.fix_black (notNil : frame.sibling ≠ nil) (isBlack : frame.sibling.rootColor = .black)
    (blackChildren : ∀ side, (frame.sibling.child side).rootColor = .black) :
    store.FixesTo tree frame path
      (join frame.side .black frame.label tree (frame.sibling.paint .red)) := by
  obtain ⟨s, isRoot⟩ := exists_rootLink notNil
  have hp : store.parent (.node frame.label) = some (holeParent path) := hangs.above.2.1
  refine ⟨store.setColor (.node s) .red, ?_, hangs_cons.mp (hangs.paint_around isRoot .red .black),
    (store.within_setColor _ _ _).trans (within_setColor _ _ _ _) (refl _)⟩
  rw [← hp]
  refine fixDoubleBlack_black (hangs.next_sibling isRoot) ?_ ?_
  · rw [hangs.sibling_shape.color_root isRoot, isBlack]
  intro side
  rw [hangs.sibling_shape.isBlack_next isRoot, blackChildren, decide_eq_true rfl]

lemma Hangs.finish_far {near far : ColorTree Nat} {f : Nat}
    (isSibling : frame.sibling = join frame.side color s near far)
    (isFar : rootLink far = some (.node f)) :
    ∃ rotated, (((store.setColor (.node s)
        (store.color (.node frame.label))).setColor (.node frame.label)
          .black).setColor (.node f) .black).rotate (.node frame.label) frame.side = some rotated ∧
      rotated.Hangs path (join frame.side frame.color s
        (join frame.side .black frame.label tree near) (far.paint .black)) ∧
      store.Within rotated (tree.labels ++ frameLabels (frame :: path)) := by
  have hro : rootLink frame.sibling = some (.node s) := by rw [isSibling, rootLink_join]
  have hc : store.color (.node frame.label) = frame.color := hangs.above.1
  have ha := hangs.paint_around hro frame.color .black
  rw [isSibling, paint_join, hangs_other] at ha
  have hp := hangs_cons.mp (ha.paint_outer isFar .black)
  rw [Frame.fill, join_opposite] at hp
  obtain ⟨rotated, hr, hhr, hw⟩ := hp.rotate_within
  rw [hc]
  refine ⟨rotated, hr, hhr, ?_⟩
  refine (((store.within_setColor _ _ _).trans (within_setColor _ _ _ _)
    (refl _)).trans (within_setColor _ _ _ _) (refl _)).trans hw ?_
  intro _ mem
  simp only [frameLabels, isSibling, List.mem_append, List.mem_cons, mem_labels_join,
    labels_paint] at mem ⊢
  tauto

lemma Hangs.finish_near {far inner outer : ColorTree Nat} {m : Nat}
    (isSibling : frame.sibling = join frame.side color s (join frame.side .red m inner outer) far) :
    ∃ turned, ((store.setColor (.node m) .black).setColor (.node s)
        .red).rotate (.node s) frame.side.opposite = some turned ∧
      turned.Hangs (⟨frame.side, frame.color, frame.label,
        join frame.side .black m inner (join frame.side .red s outer far)⟩ :: path) tree ∧
      store.Within turned (tree.labels ++ frameLabels (frame :: path)) := by
  have other := hangs_other.mp hangs
  rw [isSibling, ← join_opposite] at other
  have hp := (other.paint_outer rootLink_join .black).paint .red
  have hsw : join frame.side .black m inner outer =
      join frame.side.opposite .black m outer inner := join_opposite.symm
  rw [paint_join, hsw, join_opposite, ← join_opposite] at hp
  obtain ⟨turned, ht, hht, hw⟩ := hp.rotate_within
  rw [join_opposite, join_opposite] at hht
  refine ⟨turned, ht, hangs_other.mpr hht, ?_⟩
  refine ((store.within_setColor _ _ _).trans (within_setColor _ _ _ _) (refl _)).trans hw ?_
  intro _ mem
  simp only [frameLabels, isSibling, List.mem_append, List.mem_cons, mem_labels_join] at mem ⊢
  tauto

/-- A black sibling with a red child ends the loop. -/
lemma Hangs.fix_finish (isBlack : frame.sibling.rootColor = .black)
    (child : (frame.sibling.child side).rootColor = .red) :
    ∃ after, store.fixDoubleBlack (rootLink tree) (.node frame.label)
        frame.side.opposite = some (true, rootLink tree, some (.node frame.label), after) ∧
      after.Hangs path (finishTree frame tree) ∧
      store.Within after (tree.labels ++ frameLabels (frame :: path)) := by
  have hnn : ∀ {other : ColorTree Nat}, other.rootColor = .red → other ≠ nil := by
    intro other isRed isNil
    rw [isNil] at isRed
    cases isRed
  have hn : frame.sibling ≠ nil := by
    intro isNil
    rw [isNil] at child
    cases child
  obtain ⟨color, s, near, far, hs⟩ := exists_join frame.side hn
  have hro : rootLink frame.sibling = some (.node s) := by rw [hs, rootLink_join]
  have hsb : store.color (.node s) = .black := by rw [hangs.sibling_shape.color_root hro, isBlack]
  have shape := hangs.sibling_shape
  rw [hs] at shape
  obtain ⟨_, _, hnne, hnf, hin, inFar⟩ := shape_join.mp shape
  have hcf := isBlack_rootLink inFar
  cases hfc : far.rootColor with
  | red =>
    obtain ⟨f, isFar⟩ := exists_rootLink (hnn hfc)
    obtain ⟨rotated, hr, hhr, hw⟩ := hangs.finish_far hs isFar
    rw [isFar, hfc] at hcf
    refine ⟨rotated, ?_, ?_, hw⟩
    · refine fixDoubleBlack_far (hangs.next_sibling hro) hsb (hnf.trans isFar) hcf ?_
      rw [opposite_opposite]
      exact hr
    rw [finishTree_far hs hfc]
    exact hhr
  | black =>
    have hnr : near.rootColor = .red := by
      rw [hs] at child
      by_cases hsi : side = frame.side
      · rw [hsi, child_join] at child
        exact child
      rw [eq_opposite_of_ne hsi, child_opposite_join, hfc] at child
      cases child
    have hcn := isBlack_rootLink hin
    obtain ⟨_, m, _, _, rfl⟩ := exists_join frame.side (hnn hnr)
    rw [rootColor_join] at hnr
    subst hnr
    rw [rootLink_join, rootColor_join] at hcn
    rw [hfc] at hcf
    obtain ⟨_, ht, hht, hwt⟩ := hangs.finish_near hs
    obtain ⟨rotated, hr, hhr, hw⟩ := hht.finish_far rfl rootLink_join
    have hts := shape_join.mp hht.sibling_shape
    refine ⟨rotated, ?_, ?_, ?_⟩
    · refine fixDoubleBlack_near (hangs.next_sibling hro) hsb
        (hnf ▸ hcf) ?_ hcn ht (hht.next_sibling rootLink_join) (hts.2.2.2.1.trans rootLink_join) ?_
      · rw [opposite_opposite, hnne, rootLink_join]
      rw [opposite_opposite]
      exact hr
    · rw [finishTree_near hs hfc rfl]
      simp only [paint_join] at hhr
      exact hhr
    refine hwt.trans hw ?_
    intro _ mem
    simp only [frameLabels, hs, List.mem_append, List.mem_cons, mem_labels_join] at mem ⊢
    tauto

variable {fuel : Nat} {fixed : TreeStore T}

lemma Hangs.goes_on (isBlack : tree.rootColor = .black)
    : rootLink tree ≠ store.root ∧ store.isBlack (rootLink tree) = true := by
  constructor
  · intro same
    obtain ⟨id, mem, isRoot⟩ := root_of_pathShape (List.cons_ne_nil _ _) hangs.above
    rw [isRoot] at same
    exact hangs.root_ne same isRoot
  · rw [isBlack_rootLink hangs.below, isBlack, decide_eq_true rfl]

lemma Hangs.loop_dir (notNil : frame.sibling ≠ nil) :
    (if rootLink tree = store.next (.node frame.label) .left then right
      else .left) = frame.side.opposite := by
  obtain ⟨s, hr⟩ := exists_rootLink notNil
  have hs := hangs.next_sibling hr
  have ht : store.next (.node frame.label) frame.side = rootLink tree := hangs.above.2.2.1
  cases hsi : frame.side with
  | left =>
    rw [hsi] at ht
    rw [ht, if_pos rfl]
    rfl
  | right =>
    rw [hsi, opposite] at hs
    rw [hs, if_neg]
    · rfl
    intro same
    have hit := rootLink_mem same
    refine (List.nodup_append.mp hangs.nodup).2.2 s hit s ?_ rfl
    exact List.mem_cons_of_mem _ (List.mem_append_left _ (rootLink_mem hr))

section

variable (isBlack : tree.rootColor = .black)

include isBlack

lemma Hangs.fixLoop_none (notFixed : frame.sibling ≠ nil → store.fixDoubleBlack (rootLink tree)
      (.node frame.label) frame.side.opposite = none) :
    fixLoop fuel (rootLink tree) (some (.node frame.label)) store = none := by
  cases fuel with
  | zero => rfl
  | succ fuel =>
    rw [fixLoop, if_pos (hangs.goes_on isBlack)]
    by_cases isNil : frame.sibling = nil
    · -- The loop takes the hole itself for the sibling if both are empty.
      have hs : store.next (.node frame.label) frame.side.opposite =
          rootLink frame.sibling := hangs.above.2.2.2.1
      have ht : store.next (.node frame.label) frame.side = rootLink tree := hangs.above.2.2.1
      rw [isNil, rootLink] at hs
      have hn : ∀ dir : Side, dir = (if rootLink tree = store.next (.node frame.label) .left
            then right else .left) → store.next (.node frame.label) dir = none := by
        intro dir isDir
        cases hsi : frame.side with
        | left =>
          rw [hsi] at ht hs
          rw [ht, if_pos rfl] at isDir
          rw [isDir]
          exact hs
        | right =>
          rw [hsi] at ht hs
          rw [opposite] at hs
          rw [hs] at isDir
          by_cases hl : rootLink tree = none
          · rw [if_pos hl] at isDir
            rw [isDir, ht, hl]
          rw [if_neg hl] at isDir
          rw [isDir, hs]
      have hf : ∀ dir : Side, store.next (.node frame.label) dir = none →
          store.fixDoubleBlack (rootLink tree) (.node frame.label) dir = none := by
        intro dir hn
        simp [fixDoubleBlack, hn]
      simp [hf _ (hn _ rfl)]
    · simp [hangs.loop_dir isNil, notFixed isNil]

lemma Hangs.fixLoop_true {x above : Option TreeLink} (notNil : frame.sibling ≠ nil)
    (isFixed : store.fixDoubleBlack (rootLink tree) (.node frame.label)
      frame.side.opposite = some (true, x, above, fixed)) :
    fixLoop (fuel + 1) (rootLink tree) (some (.node frame.label)) store = some fixed := by
  rw [fixLoop, if_pos (hangs.goes_on isBlack)]
  simp [hangs.loop_dir notNil, isFixed]

lemma Hangs.fixLoop_false {x : TreeLink} {above : Option TreeLink} (notNil : frame.sibling ≠ nil)
    (isFixed : store.fixDoubleBlack (rootLink tree) (.node frame.label)
      frame.side.opposite = some (false, some x, above, fixed)) :
    fixLoop (fuel + 1) (rootLink tree) (some (.node frame.label)) store =
      fixLoop fuel (some x) above (fixed.setColor x .black) := by
  rw [fixLoop, if_pos (hangs.goes_on isBlack)]
  simp only [hangs.loop_dir notNil, isFixed]
  rfl

end

end

/-- What the loop leaves in memory is a tree: it links only some nodes in
another way. -/
def Leaves (store : TreeStore T) (ids : List Nat)
    (loop : Option (TreeStore T)) (fixed : Option (ColorTree Nat)) : Prop :=
  (fixed = none → loop = none) ∧ ∀ result, fixed = some result →
    ∃ after, loop = some after ∧ after.Hangs [] result ∧ store.Within after ids

lemma leaves_some {after : TreeStore T} {ids : List Nat}
    {result : ColorTree Nat} (hangs : after.Hangs [] result) (within : store.Within after ids) :
    store.Leaves ids (some after) (some result) := by
  constructor
  · intro hn
    cases hn
  intro _ ho
  obtain rfl := Option.some.inj ho
  exact ⟨after, rfl, hangs, within⟩

lemma leaves_none (store : TreeStore T) (ids : List Nat) : store.Leaves ids none none := by
  constructor
  · intro _
    rfl
  intro _ hr
  cases hr

lemma Within.leaves {middle : TreeStore T} {ids fewer : List Nat} {loop : Option (TreeStore T)}
    {fixed : Option (ColorTree Nat)} (within : store.Within middle ids)
    (leaves : middle.Leaves fewer loop fixed) (isSubset : fewer ⊆ ids) :
    store.Leaves ids loop fixed := by
  refine ⟨leaves.1, ?_⟩
  intro result hr
  obtain ⟨after, hlo, hangs, hwa⟩ := leaves.2 result hr
  exact ⟨after, hlo, hangs, within.trans hwa isSubset⟩

lemma within_refl (store : TreeStore T) (ids : List Nat) : store.Within store ids :=
  ⟨⟨rfl, rfl, rfl, rfl⟩, fun _ _ => rfl, fun _ _ => rfl⟩

/-- The loop does what `fixTree` does to the tree. -/
lemma fixLoop_leaves (path : List (Frame Nat)) :
    ∀ (store : TreeStore T) (tree : ColorTree Nat) (fuel : Nat),
      store.Hangs path tree → path.length < fuel → (∀ frame ∈ path, frame.sibling.RedRule) →
      store.Leaves (tree.labels ++ frameLabels path)
        (fixLoop fuel (rootLink tree) (some (holeParent path)) store) (fixTree path tree) := by
  induction path with
  | nil =>
    intro store tree fuel hangs he _
    obtain ⟨fuel, rfl⟩ : ∃ less, fuel = less + 1 := ⟨fuel - 1, by omega⟩
    have hr := hangs.above
    rw [fixLoop, if_neg (fun hgo => hgo.1 hr.symm), fixTree]
    exact leaves_some hangs (store.within_refl _)
  | cons frame path ih =>
    intro store tree fuel hangs he rules
    obtain ⟨fuel, rfl⟩ : ∃ less, fuel = less + 1 := ⟨fuel - 1, by omega⟩
    have her : path.length < fuel := by
      rw [List.length_cons] at he
      omega
    have hpr : ∀ other ∈ path, other.sibling.RedRule :=
      (List.forall_mem_cons.mp rules).2
    cases htc : tree.rootColor with
    | red =>
      have hnb : store.isBlack (rootLink tree) = false := by
        rw [isBlack_rootLink hangs.below, htc]
        rfl
      rw [fixTree, htc, if_pos rfl, fixLoop, if_neg]
      · exact leaves_some (hangs_plug.mp hangs) (store.within_refl _)
      intro hgo
      rw [hnb] at hgo
      cases hgo.2
    | black =>
      by_cases isNil : frame.sibling = nil
      · have hn : fixTree (frame :: path) tree = none := by
          rw [fixTree, htc, isNil]
          rfl
        rw [hn, holeParent, hangs.fixLoop_none htc (fun hnn => absurd isNil hnn)]
        exact store.leaves_none _
      have hgo : ∀ {raised : ColorTree Nat}, store.FixesTo tree frame path raised →
          rootLink raised = some (.node frame.label) → raised.labels ++ frameLabels path ⊆
            tree.labels ++ frameLabels (frame :: path) →
          store.Leaves (tree.labels ++ frameLabels (frame :: path))
            (fixLoop (fuel + 1) (rootLink tree) (some (holeParent (frame :: path))) store)
            (fixTree path raised) := by
        rintro raised ⟨after, hf, hrh, hw⟩ hr hs
        rw [holeParent, hangs.fixLoop_false htc isNil hf, ← hr]
        exact hw.leaves (ih _ raised fuel hrh her hpr) hs
      cases hsc : frame.sibling.rootColor with
      | red =>
        rw [fixTree_red htc hsc]
        cases ht : tree.turn frame.side with
        | none =>
          rw [holeParent, hangs.fixLoop_none htc (fun _ => hangs.fix_red_none hsc ht)]
          exact store.leaves_none _
        | some _ =>
          refine hgo (hangs.fix_red hsc (rules frame List.mem_cons_self) ht) rootLink_join ?_
          obtain ⟨_, other, x, y, _, _, _, rfl, rfl⟩ := turn_eq_some ht
          intro id mem
          simp only [frameLabels, List.mem_append, List.mem_cons, mem_labels_join] at mem ⊢
          tauto
      | black =>
        by_cases hch : ∀ side, (frame.sibling.child side).rootColor = .black
        · rw [fixTree_black htc isNil hsc hch]
          refine hgo (hangs.fix_black isNil hsc hch) rootLink_join ?_
          intro id mem
          simp only [frameLabels, List.mem_append, List.mem_cons, mem_labels_join,
            labels_paint] at mem ⊢
          tauto
        obtain ⟨side, child⟩ := exists_red_child hch
        obtain ⟨after, hf, hfi, hw⟩ := hangs.fix_finish hsc child
        rw [fixTree_finish htc hsc child, holeParent, hangs.fixLoop_true htc isNil hf]
        exact leaves_some (hangs_plug.mp hfi) hw

end TreeStore

end OoOS.Libk
