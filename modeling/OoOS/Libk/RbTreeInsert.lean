import OoOS.Libk.RbTreeShape

/-!
# Rebalancing after an insertion

The loop goes up with a red node whose parent may be red, two frames at a time,
until the parent is black or a rotation has made it so.
-/

namespace OoOS.Libk

open Lib.RedBlack Lib.RedBlack.ColorTree Side

universe u

namespace TreeStore

variable {T : Type u} {store : TreeStore T} {frame above : Frame Nat} {path : List (Frame Nat)}
  {tree : ColorTree Nat} {x : Nat}

structure Around (store : TreeStore T) (frame above : Frame Nat) (x : Nat) : Prop where
  parent : store.parent (.node x) = some (.node frame.label)
  grandparent : store.parent (.node frame.label) = some (.node above.label)
  side : store.next (.node above.label) .left = some (.node frame.label) ↔ above.side = .left
  uncle : store.next (.node above.label) above.side.opposite = rootLink above.sibling
  here : store.next (.node frame.label) frame.side = some (.node x)
  inner : store.next (.node frame.label) frame.side.opposite ≠ some (.node x)

open List

lemma Hangs.around (hangs : store.Hangs (frame :: above :: path) tree)
    (isRoot : rootLink tree = some (.node x)) : store.Around frame above x := by
  obtain ⟨⟨_, hg, here, hs, _, _, _, hf, uncle, _, _⟩, below, nodup⟩ := hangs
  have hit := rootLink_mem isRoot
  have hp : store.parent (.node x) = some (.node frame.label) := by
    cases tree with
    | nil => cases isRoot
    | node _ _ label _ =>
      cases isRoot
      exact below.2.1
  rw [nodup_append, frameLabels, frameLabels, nodup_cons, nodup_append] at nodup
  obtain ⟨_, ⟨hfni, _, _, _⟩, apart⟩ := nodup
  refine ⟨hp, hg, ?_, uncle, here.trans isRoot, ?_⟩
  · constructor
    · intro hl
      by_contra hnl
      have hr := eq_opposite_of_ne hnl
      rw [hr, opposite, opposite, hl] at uncle
      apply hfni
      have mem := rootLink_mem uncle.symm
      exact mem_append_right _ (mem_cons_of_mem _ (mem_append_left _ mem))
    intro hl
    rw [hl] at hf
    exact hf
  rw [hs]
  intro same
  have mem := rootLink_mem same
  exact apart x hit x (mem_cons_of_mem _ (mem_append_left _ mem)) rfl

section

variable (around : store.Around frame above x)

include around

lemma Around.insertionRebalance_red {uncle : TreeLink}
    (isUncle : rootLink above.sibling = some uncle) (isRed : store.color uncle = .red) :
    store.insertionRebalance (.node x) = some (.node above.label,
      ((store.setColor (.node frame.label)
        .black).setColor uncle .black).setColor (.node above.label) .red) := by
  have hul := around.uncle
  rw [isUncle] at hul
  have hnb : store.isBlack (some uncle) = false := by simp [isBlack, isRed]
  rw [insertionRebalance]
  simp only [around.parent, around.grandparent, around.side]
  cases hh : above.side with
  | left =>
    rw [hh] at hul
    simp only [opposite] at hul
    simp [hul, hnb, Bool.false_eq_true, Option.getD_some]
  | right =>
    rw [hh] at hul
    simp only [opposite] at hul
    simp [reduceCtorEq, hul, hnb, Bool.false_eq_true, Option.getD_some]

section

variable (isBlack : store.isBlack (rootLink above.sibling) = true)

include isBlack

lemma Around.insertionRebalance_outer (sameSide : frame.side = above.side)
    {rotated : TreeStore T} (isRotated : ((store.setColor (.node frame.label) .black).setColor
      (.node above.label) .red).rotate (.node above.label) above.side.opposite = some rotated) :
    store.insertionRebalance (.node x) = some (.node x, rotated) := by
  have uncle := around.uncle
  have inner := around.inner
  rw [sameSide] at inner
  rw [insertionRebalance]
  simp only [around.parent, around.grandparent, around.side]
  cases hh : above.side with
  | left =>
    rw [hh] at uncle inner isRotated
    simp only [opposite] at uncle inner isRotated
    simp [uncle, isBlack, if_neg (Ne.symm inner), around.parent, isRotated, Option.map_some]
  | right =>
    rw [hh] at uncle inner isRotated
    simp only [opposite] at uncle inner isRotated
    simp [reduceCtorEq, uncle, isBlack, if_neg (Ne.symm inner), around.parent, isRotated,
      Option.map_some]

lemma Around.insertionRebalance_inner (otherSide : frame.side = above.side.opposite)
    {turned rotated : TreeStore T}
    (isTurned : store.rotate (.node frame.label) above.side = some turned)
    (isParent : turned.parent (.node frame.label) = some (.node x))
    (isRotated : ((turned.setColor (.node x) .black).setColor
      (.node above.label) .red).rotate (.node above.label) above.side.opposite = some rotated) :
    store.insertionRebalance (.node x) = some (.node frame.label, rotated) := by
  have uncle := around.uncle
  have here := around.here
  rw [otherSide] at here
  rw [insertionRebalance]
  simp only [around.parent, around.grandparent, around.side]
  cases hasi : above.side with
  | left =>
    rw [hasi] at uncle here isTurned isRotated
    simp only [opposite] at uncle here isRotated
    simp [uncle, isBlack, here, opposite, isTurned, Option.map_some, isParent, isRotated]
  | right =>
    rw [hasi] at uncle here isTurned isRotated
    simp only [opposite] at uncle here isRotated
    simp [reduceCtorEq, uncle, isBlack, here, opposite, isTurned, Option.map_some, isParent,
      isRotated]

end

end

lemma isBlack_rootLink {parent : TreeLink} {uncle : ColorTree Nat}
    (shape : store.Shape uncle parent)
    : store.isBlack (rootLink uncle) = decide (uncle.rootColor = .black) := by
  cases uncle with
  | nil => rfl
  | node _ _ _ _ =>
    rw [rootLink, isBlack, shape.1]
    rfl

lemma Hangs.sibling_shape (hangs : store.Hangs (frame :: path) tree) :
    store.Shape frame.sibling (.node frame.label) :=
  hangs.above.2.2.2.2.1

variable {color : Color}

/-- The last rotation makes the black node the root in place of its parent. -/
lemma Hangs.lift {y : Nat} {near far : ColorTree Nat}
    (hangs : store.Hangs (above :: path) (join above.side color y near far)) :
    ∃ after, ((store.setColor (.node y) .black).setColor (.node above.label) .red).rotate
        (.node above.label) above.side.opposite = some after ∧
      after.Hangs path (join above.side.opposite .black y
        (join above.side .red above.label far above.sibling) near) ∧ store.SameRest after := by
  have hp := (hangs_cons.mp (hangs.paint .black)).paint .red
  rw [← opposite_opposite above.side] at hp
  nth_rewrite 2 [join_opposite] at hp
  obtain ⟨after, hr, hha, _, rest, _⟩ := hp.rotate
  rw [opposite_opposite] at hha
  refine ⟨after, hr, hha, ?_⟩
  exact ((store.sameRest_setColor _ _).trans (sameRest_setColor _ _ _)).trans rest

section

variable (isHeight : store.Hangs (frame :: above :: path) tree)

include isHeight

lemma Hangs.rebalance_red
    (isRoot : rootLink tree = some (.node x)) (isRed : above.sibling.rootColor = .red) :
    ∃ after, store.insertionRebalance (.node x) = some (.node above.label, after) ∧
      after.Hangs path (join above.side .red above.label
        (join frame.side .black frame.label tree frame.sibling) (above.sibling.paint .black)) ∧
      store.SameRest after := by
  have ha := isHeight.around isRoot
  have hf := hangs_cons.mp isHeight
  have hus := hf.sibling_shape
  obtain ⟨uncle, hu⟩ : ∃ uncle, rootLink above.sibling = some (.node uncle) := by
    cases hs : above.sibling with
    | nil =>
      rw [hs] at isRed
      cases isRed
    | node color _ label _ => exact ⟨label, rfl⟩
  have hur : store.color (.node uncle) = .red := by
    have black := isBlack_rootLink hus
    rw [hu, isRed] at black
    simp only [isBlack, reduceCtorEq, decide_false, decide_eq_false_iff_not] at black
    cases hc : store.color (.node uncle) with
    | red => rfl
    | black => exact absurd hc black
  have hp := hangs_cons.mp (Hangs.paint hf .black)
  refine ⟨_, ha.insertionRebalance_red hu hur, (hp.paint_outer hu .black).paint .red, ?_⟩
  exact ((store.sameRest_setColor _ _).trans (sameRest_setColor _ _ _)).trans
    (sameRest_setColor _ _ _)

lemma Hangs.rebalance_outer
    (isRoot : rootLink tree = some (.node x)) (isBlack : above.sibling.rootColor = .black)
    (sameSide : frame.side = above.side) :
    ∃ after, store.insertionRebalance (.node x) = some (.node x, after) ∧
      after.Hangs path (join above.side.opposite .black frame.label
        (join above.side .red above.label frame.sibling above.sibling) tree) ∧
      store.SameRest after := by
  have ha := isHeight.around isRoot
  have hf := hangs_cons.mp isHeight
  have hub := isBlack_rootLink hf.sibling_shape
  rw [isBlack, decide_eq_true rfl] at hub
  rw [Frame.fill, sameSide] at hf
  obtain ⟨after, hro, hha, rest⟩ := hf.lift
  exact ⟨after, ha.insertionRebalance_outer hub sameSide hro, hha, rest⟩

end

lemma Hangs.rebalance_inner {mid far : ColorTree Nat}
    (hangs : store.Hangs (frame :: above :: path) (join above.side color x mid far))
    (isBlack : above.sibling.rootColor = .black) (otherSide : frame.side = above.side.opposite) :
    ∃ after, store.insertionRebalance (.node x) = some (.node frame.label, after) ∧
      after.Hangs path (join above.side.opposite .black x
        (join above.side .red above.label far above.sibling)
        (join above.side.opposite frame.color frame.label mid frame.sibling)) ∧
      store.SameRest after := by
  have ha := hangs.around rootLink_join
  have hf := hangs_cons.mp hangs
  have hub := isBlack_rootLink hf.sibling_shape
  rw [isBlack, decide_eq_true rfl] at hub
  rw [Frame.fill, otherSide] at hf
  obtain ⟨turned, ht, hht, _, htr, _⟩ := hf.rotate
  have hp : turned.parent (.node frame.label) = some (.node x) := by
    obtain ⟨_, _, _, _, inner, _⟩ := shape_join.mp hht.below
    exact (shape_join.mp inner).2.1
  obtain ⟨after, hr, hha, rest⟩ := hht.lift
  exact ⟨after, ha.insertionRebalance_inner hub otherSide ht hp hr, hha, htr.trans rest⟩

/-- The rules hold but between the node and its parent, and the root is black if
it is another node. -/
structure Rising (store : TreeStore T) (path : List (Frame Nat))
    (tree : ColorTree Nat) (x height : Nat) : Prop where
  hangs : store.Hangs path tree
  isRoot : rootLink tree = some (.node x)
  isRed : tree.rootColor = .red
  redRule : tree.RedRule
  pathRule : PathRedRule path .black
  rootBlack : ∀ frame, path.getLast? = some frame → frame.color = .black
  height : (plug path tree).Height height

structure Settled (store : TreeStore T) (tree : ColorTree Nat)
    (labels : List Nat) (height : Nat) : Prop where
  hangs : store.Hangs [] tree
  labels : tree.labels = labels
  redRule : tree.RedRule
  height : tree.Height height

variable {parent : TreeLink}

lemma rebalanceLoop_of_black (fuel : Nat)
    (isParent : store.parent (.node x) = some parent) (isBlack : store.color parent = .black) :
    rebalanceLoop (fuel + 1) (.node x) store = some store := by
  rw [rebalanceLoop]
  split
  · rfl
  · simp [isParent, isBlack, reduceCtorEq]

lemma rebalanceLoop_succ {next : TreeLink} {after : TreeStore T} (fuel : Nat)
    (notRoot : store.root ≠ some (.node x)) (isParent : store.parent (.node x) = some parent)
    (isRed : store.color parent = .red)
    (rebalanced : store.insertionRebalance (.node x) = some (next, after))
    : rebalanceLoop (fuel + 1) (.node x) store = rebalanceLoop fuel next after := by
  rw [rebalanceLoop, if_neg notRoot]
  simp [isParent, isRed, rebalanced]

lemma Hangs.root_ne (hangs : store.Hangs (frame :: path) tree)
    (isRoot : rootLink tree = some (.node x)) : store.root ≠ some (.node x) := by
  obtain ⟨id, mem, isId⟩ := root_of_pathShape (List.cons_ne_nil _ _) hangs.above
  rw [isId]
  rintro same
  cases same
  exact (List.nodup_append.mp hangs.nodup).2.2 x (rootLink_mem isRoot) x mem rfl

lemma Shape.parent_root (shape : store.Shape tree parent)
    (isRoot : rootLink tree = some (.node x)) : store.parent (.node x) = some parent := by
  cases tree with
  | nil => cases isRoot
  | node _ _ _ _ =>
    cases isRoot
    exact shape.2.1

variable {height : Nat}

lemma Rising.black_top
    (rising : store.Rising (frame :: above :: path) tree x height) (frameRed : frame.color = .red) :
    above.color = .black ∧ frame.sibling.rootColor = .black ∧
      frame.sibling.RedRule ∧ above.sibling.RedRule ∧ PathRedRule path .black ∧
      ∃ below, tree.Height below ∧ frame.sibling.Height below ∧
        above.sibling.Height below ∧ PathHeight path (below + 1) height := by
  obtain ⟨hsb, hsr, har, haru, pathRule⟩ := rising.pathRule
  have hab : above.color = .black := by
    cases hc : above.color with
    | black => rfl
    | red =>
      have him := (har hc).1
      rw [frameRed] at him
      cases him
  rw [hab] at pathRule
  obtain ⟨below, hh, hsh, hah, hph⟩ := (height_plug _ _ _).mp rising.height
  rw [frameRed] at hah hph
  rw [hab] at hph
  exact ⟨hab, (hsb frameRed).2, hsr, haru, pathRule, below, hh, hsh, hah, hph⟩

lemma settled_plug {top : ColorTree Nat} {labels : List Nat} {below : Nat}
    (hangs : store.Hangs path top) (isLabels : (plug path top).labels = labels)
    (redRule : top.RedRule)
    (isBlack : top.rootColor = .black) (pathRule : PathRedRule path .black)
    (isHeight : top.Height below)
    (pathHeight : PathHeight path below height) : store.Settled (plug path top) labels height := by
  refine ⟨hangs_plug.mp hangs, isLabels, ?_, ?_⟩
  · rw [redRule_plug, isBlack]
    exact ⟨redRule, pathRule⟩
  rw [height_plug]
  exact ⟨below, isHeight, pathHeight⟩

lemma Rising.settled (rising : store.Rising path tree x height)
    (blackParent : ∀ frame rest, path = frame :: rest → frame.color = .black) :
    store.Settled (plug path tree) (plug path tree).labels height := by
  refine ⟨hangs_plug.mp rising.hangs, rfl, ?_, rising.height⟩
  rw [redRule_plug, rising.isRed]
  refine ⟨rising.redRule, ?_⟩
  cases path with
  | nil => trivial
  | cons frame path =>
    obtain ⟨_, hsr, hpr⟩ := rising.pathRule
    refine ⟨?_, hsr, hpr⟩
    rw [blackParent frame path rfl]
    intro isRed
    cases isRed

section

variable (rising : store.Rising (frame :: above :: path) tree x height)
    (frameRed : frame.color = .red)

include rising frameRed

/-- With a red uncle it rises by two. -/
lemma Rising.step_red (uncleRed : above.sibling.rootColor = .red) :
    ∃ after next, store.insertionRebalance (.node x) = some (.node above.label, after) ∧
      after.Rising path next above.label height ∧ (plug path next).labels =
        (plug (frame :: above :: path) tree).labels ∧ store.SameRest after := by
  obtain ⟨_, _, hsr, har, hpr, below, hh, hsh, hah, hph⟩ := rising.black_top frameRed
  obtain ⟨after, hre, hangs, rest⟩ := rising.hangs.rebalance_red rising.isRoot uncleRed
  refine ⟨after, _, hre, ⟨hangs, rootLink_join, rootColor_join, ?_, hpr, ?_, ?_⟩, ?_, rest⟩
  · refine redRule_join.mpr ⟨fun _ => ⟨rootColor_join, ?_⟩,
      redRule_join.mpr ⟨fun isRed => ?_, rising.redRule, hsr⟩, har.paint_black⟩
    · cases hs : above.sibling with
      | nil => rfl
      | node color left label right => rfl
    · cases isRed
  · intro _ hl
    apply rising.rootBlack
    cases path with
    | nil => cases hl
    | cons _ path =>
      exact hl
  · refine (height_plug _ _ _).mpr ⟨below + 1, height_join.mpr
      ⟨below + 1, height_join.mpr ⟨below, hh, hsh, rfl⟩, ?_, rfl⟩, hph⟩
    cases hs : above.sibling with
    | nil =>
      rw [hs] at uncleRed
      cases uncleRed
    | node color left label right =>
      rw [hs] at uncleRed hah
      cases uncleRed
      obtain ⟨under, hle, hri, hb⟩ := hah
      rw [hb]
      exact ⟨under, hle, hri, rfl⟩
  simp only [labels_plug, plug, Frame.fill]
  cases above.side with
  | left =>
    cases frame.side <;> simp [join, labels, labels_paint]
  | right =>
    cases frame.side <;> simp [join, labels, labels_paint]

/-- With a black uncle it is settled by turns. -/
lemma Rising.step_black (uncleBlack : above.sibling.rootColor = .black) :
    ∃ after next top result, store.insertionRebalance (.node x) = some (.node next, after) ∧
      after.parent (.node next) = some top ∧ after.color top = .black ∧
      after.Settled result (plug (frame :: above :: path) tree).labels height ∧
      store.SameRest after := by
  obtain ⟨_, hsb, hsr, har, hpr, below, hh, hsh, hah, hph⟩ := rising.black_top frameRed
  by_cases hss : frame.side = above.side
  · obtain ⟨after, hre, hangs, rest⟩ := rising.hangs.rebalance_outer rising.isRoot uncleBlack hss
    obtain ⟨hb, _, _, _, _, hit⟩ := shape_join.mp hangs.below
    refine ⟨after, x, .node frame.label, _, hre, hit.parent_root rising.isRoot, hb,
      settled_plug hangs ?_ ?_ rootColor_join hpr ?_ hph, rest⟩
    · simp only [labels_plug, plug, Frame.fill, hss]
      cases above.side <;> simp [join, labels, opposite]
    · refine redRule_join.mpr ⟨fun isRed => ?_, redRule_join.mpr
        ⟨fun _ => ⟨hsb, uncleBlack⟩, hsr, har⟩, rising.redRule⟩
      cases isRed
    · exact height_join.mpr ⟨below, height_join.mpr ⟨below, hsh, hah, rfl⟩, hh, rfl⟩
  have hos := eq_opposite_of_ne hss
  have hnn : tree ≠ .nil := by
    rintro rfl
    cases rising.isRed
  obtain ⟨color, label, _, _, ht⟩ := exists_join above.side hnn
  have hro := rising.isRoot
  have isRed := rising.isRed
  have hrr := rising.redRule
  have hangs := rising.hangs
  rw [ht, rootLink_join] at hro
  cases hro
  rw [ht, rootColor_join] at isRed
  subst isRed
  rw [ht] at hrr hh hangs
  obtain ⟨hcb, hmr, hfru⟩ := redRule_join.mp hrr
  obtain ⟨under, hmh, hfh, hbe⟩ := height_join.mp hh
  obtain rfl : below = under := hbe
  obtain ⟨hmb, hfb⟩ := hcb rfl
  obtain ⟨after, hre, hangs, rest⟩ := hangs.rebalance_inner uncleBlack hos
  obtain ⟨hb, _, _, _, _, hif⟩ := shape_join.mp hangs.below
  refine ⟨after, frame.label, .node x, _, hre, (shape_join.mp hif).2.1, hb,
    settled_plug hangs ?_ ?_ rootColor_join hpr ?_ hph, rest⟩
  · simp only [labels_plug, plug, Frame.fill, hos, ht]
    cases above.side <;> simp [join, labels, opposite]
  · refine redRule_join.mpr
      ⟨fun isRed => ?_, redRule_join.mpr ⟨fun _ => ⟨hfb, uncleBlack⟩, hfru, har⟩,
      redRule_join.mpr ⟨fun _ => ⟨hmb, hsb⟩, hmr, hsr⟩⟩
    cases isRed
  refine height_join.mpr ⟨below, height_join.mpr ⟨below, hfh, hah, rfl⟩,
    height_join.mpr ⟨below, hmh, hsh, ?_⟩, rfl⟩
  rw [frameRed]
  rfl

end

/-- The loop settles a rising red node. -/
lemma Rising.rebalanceLoop (fuel : Nat) :
    ∀ (store : TreeStore T) (path : List (Frame Nat)) (tree : ColorTree Nat) (x height : Nat),
      store.Rising path tree x height → path.length < fuel → ∃ after result,
        TreeStore.rebalanceLoop fuel (.node x) store = some after ∧
        after.Settled result (plug path tree).labels height ∧ store.SameRest after := by
  induction fuel with
  | zero =>
    intro store path tree x height _ he
    exact absurd he (Nat.not_lt_zero _)
  | succ fuel ih =>
    intro store path tree x height hr he
    have refl : store.SameRest store := ⟨rfl, rfl, rfl, rfl⟩
    rcases path with _ | ⟨frame, path⟩
    · refine ⟨store, _, ?_, hr.settled ?_, refl⟩
      · have hro := hr.hangs.above.trans hr.isRoot
        rw [TreeStore.rebalanceLoop, if_pos hro]
      intro frame rest isNil
      cases isNil
    have hp := hr.hangs.below.parent_root hr.isRoot
    have hc := hr.hangs.above.1
    have hnr := hr.hangs.root_ne hr.isRoot
    cases hfc : frame.color with
    | black =>
      rw [hfc] at hc
      refine ⟨store, _, rebalanceLoop_of_black fuel hp hc, hr.settled ?_, refl⟩
      intro _ rest hpa
      cases hpa
      exact hfc
    | red =>
      rw [hfc] at hc
      rcases path with _ | ⟨above, path⟩
      · have hb := hr.rootBlack frame rfl
        rw [hfc] at hb
        cases hb
      simp only [List.length_cons] at he
      cases huc : above.sibling.rootColor with
      | red =>
        obtain ⟨after, next, hre, rises, hsl, rest⟩ := hr.step_red hfc huc
        obtain ⟨final, result, done, hs, hfr⟩ := ih after path next above.label height rises
          (by omega)
        refine ⟨final, result, ?_, ?_, rest.trans hfr⟩
        · rw [rebalanceLoop_succ fuel hnr hp hc hre, done]
        rw [← hsl]
        exact hs
      | black =>
        obtain ⟨after, next, _, result, hre, isTop, htb, hs, rest⟩ := hr.step_black hfc huc
        obtain ⟨less, rfl⟩ : ∃ less, fuel = less + 1 := ⟨fuel - 1, by omega⟩
        refine ⟨after, result, ?_, hs, rest⟩
        rw [rebalanceLoop_succ _ hnr hp hc hre, rebalanceLoop_of_black _ isTop htb]

end TreeStore

end OoOS.Libk
