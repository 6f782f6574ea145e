import OoOS.Libk.RbTreeErase
import OoOS.Libk.RbTreeRun

/-!
# Erasures

`__rebalance_for_erase` always takes the node itself out of the tree, and it does
not set the parent of the child that moves up.  So an erasure is correct only for
a leaf on the left of its parent.
-/

namespace OoOS.Libk

open List Lib.RedBlack Lib.RedBlack.ColorTree Option TreeStore

universe u

namespace TreeStore

variable {T : Type u} {store : TreeStore T} {lt : T → T → Bool} {path : List (Frame Nat)}
  {tree left right other : ColorTree Nat} {color : Color} {z : Nat} {parent : TreeLink}

lemma Shape.unique (shape : store.Shape tree parent)
    (isOther : store.Shape other parent) (sameRoot : rootLink tree = rootLink other) :
    tree = other := by
  induction tree generalizing other parent with
  | nil =>
    cases other with
    | nil => rfl
    | node _ _ _ _ => cases sameRoot
  | node _ _ _ _ hlh hrh =>
    cases other with
    | nil => cases sameRoot
    | node _ _ _ _ =>
      cases sameRoot
      obtain ⟨hc, _, hl, hr, hil, hir⟩ := shape
      obtain ⟨hoic, _, hoil, hoir, hh, hior⟩ := isOther
      rw [← hc, hoic, hlh hil hh (hl.symm.trans hoil), hrh hir hior (hr.symm.trans hoir)]

lemma Hangs.unique (hangs : store.Hangs [] tree) (isOther : store.Hangs [] other) : tree = other :=
  hangs.below.unique isOther.below (hangs.above.symm.trans isOther.above)

lemma Shape.links (shape : store.Shape tree parent) :
    ∀ id ∈ tree.labels, (∀ side child, store.next (.node id) side = some (.node child) →
        child ∈ tree.labels) ∧ ∃ above, store.parent (.node id) = some above ∧
        (above = parent ∨ ∃ other ∈ tree.labels, above = .node other) := by
  induction tree generalizing parent with
  | nil =>
    intro id mem
    cases mem
  | node color left label right hlh hrh =>
    obtain ⟨_, hp, hl, hr, hil, hir⟩ := shape
    have here : label ∈ (node color left label right).labels :=
      mem_append_right _ mem_cons_self
    have hfl : ∀ {id}, id ∈ left.labels → id ∈ (node color left label right).labels := fun mem =>
      mem_append_left _ mem
    have hfr : ∀ {id}, id ∈ right.labels → id ∈ (node color left label right).labels := fun mem =>
      mem_append_right _ (mem_cons_of_mem _ mem)
    intro id mem
    rcases mem_append.mp mem with mem | mem
    · obtain ⟨links, above, ha, hin⟩ := hlh hil id mem
      refine ⟨fun side child hc => hfl (links side child hc), above, ha, .inr ?_⟩
      rcases hin with rfl | ⟨other, ho, rfl⟩
      · exact ⟨label, here, rfl⟩
      · exact ⟨other, hfl ho, rfl⟩
    rcases mem_cons.mp mem with rfl | mem
    · refine ⟨?_, parent, hp, .inl rfl⟩
      intro side child hc
      cases side with
      | left => exact hfl (rootLink_mem (hl.symm.trans hc))
      | right => exact hfr (rootLink_mem (hr.symm.trans hc))
    obtain ⟨links, above, ha, hin⟩ := hrh hir id mem
    refine ⟨fun side child hc => hfr (links side child hc), above, ha, .inr ?_⟩
    rcases hin with rfl | ⟨other, ho, rfl⟩
    · exact ⟨label, here, rfl⟩
    · exact ⟨other, hfr ho, rfl⟩

lemma eq_nil_or_red (isHeight : tree.Height 0) : tree = .nil ∨ tree.rootColor = .red := by
  cases tree with
  | nil => exact .inl rfl
  | node color _ _ _ =>
    obtain ⟨below, _, _, isSum⟩ := isHeight
    cases color with
    | red => exact .inr rfl
    | black => exact absurd isSum.symm (Nat.succ_ne_zero below)

lemma Shape.descend_left {first : TreeLink} {fuel : Nat} {id : Nat}
    (shape : store.Shape tree parent) (balanced : tree.Balanced)
    (isRoot : rootLink tree = some (.node id))
    (isFirst : store.descend .left fuel (.node id) = some first) :
    ∃ m color right above, first = .node m ∧ store.Shape (node color nil m right) above ∧
      (node color nil m right).Balanced := by
  induction tree generalizing parent fuel id with
  | nil => cases isRoot
  | node color left label right hlh _ =>
    cases isRoot
    cases fuel with
    | zero => cases isFirst
    | succ fuel =>
      have hl := shape.2.2.1
      rw [descend, hl] at isFirst
      cases left with
      | nil =>
        cases isFirst
        exact ⟨label, color, right, parent, rfl, shape, balanced⟩
      | node _ _ _ above => exact hlh shape.2.2.2.2.1 (balanced.child .left) rfl isFirst

/-- What is done to take a node out, but for the trunk's links to the first and
the last node. -/
structure TakenOut (store moved : TreeStore T) (path : List (Frame Nat))
    (x : Option TreeLink) : Prop where
  color : moved.color = store.color
  parent : ∀ id, moved.parent (.node id) = store.parent (.node id)
  next : ∀ id, moved.next (.node id) = (store.setHole path x).next (.node id)
  root : moved.root = (store.setHole path x).root
  value : moved.value = store.value
  count : moved.count = store.count
  nodeCt : moved.nodeCt = store.nodeCt

lemma takenOut_setHole (store : TreeStore T) (path : List (Frame Nat))
    (x : Option TreeLink) : store.TakenOut (store.setHole path x) path x :=
  have rest := store.value_setHole path x
  ⟨store.color_setHole path x, store.parent_setHole path x, fun _ => rfl, rfl, rest.1, rest.2.1,
    rest.2.2⟩

variable {moved after unlinked : TreeStore T} {x : Option TreeLink} {link y : TreeLink}

lemma TakenOut.setNext_trunk (takenOut : store.TakenOut moved path x) (side : Side)
    (link : Option TreeLink) : store.TakenOut (moved.setNext .trunk side link) path x := by
  refine { takenOut with next := ?_ }
  intro id
  rw [← takenOut.next]
  funext other
  simp

lemma TakenOut.next_of_notMem (takenOut : store.TakenOut moved path x) {id : Nat}
    (notIn : id ∉ frameLabels path) : moved.next (.node id) = store.next (.node id) := by
  rw [takenOut.next, next_setHole _ _ _ (holeParent_ne notIn)]

lemma TakenOut.hangs (takenOut : store.TakenOut moved path none)
    (hangs : store.Hangs path (node color left z right)) : moved.Hangs path nil := by
  have nodup := (nodup_append.mp hangs.nodup).2.1
  refine ⟨?_, trivial, nodup⟩
  have above := hangs.above
  cases path with
  | nil =>
    rw [PathShape, takenOut.root, root_setHole, if_pos rfl]
    rfl
  | cons frame path =>
    obtain ⟨hc, hp, _, hs, hsi, above⟩ := above
    rw [frameLabels, nodup_cons] at nodup
    have agree : store.Agree moved (frame.sibling.labels ++ frameLabels path) := by
      refine ⟨fun id _ => by rw [takenOut.color], ?_, fun id _ => takenOut.parent id⟩
      intro id mem
      rw [takenOut.next, next_setHole]
      intro same
      cases same
      exact nodup.1 mem
    have hn : ∀ side, moved.next (.node frame.label) side = if side = frame.side then none
        else store.next (.node frame.label) side := by
      rw [takenOut.next]
      simp [setHole]
    refine ⟨?_, ?_, ?_, ?_, ?_, ?_⟩
    · rw [takenOut.color, hc]
    · rw [takenOut.parent, hp]
    · rw [hn, if_pos rfl]
      rfl
    · rw [hn, if_neg frame.side.opposite_ne, hs]
    · exact hsi.congr (agree.subset fun id mem => mem_append_left _ mem)
    refine above.congr (agree.subset fun id mem => mem_append_right _ mem) ?_
    rw [takenOut.root, root_setHole, if_neg (cons_ne_nil _ _)]

lemma Hangs.unlink_eq (hangs : store.Hangs path (node color left z right)) (x : Option TreeLink) :
    store.unlink (.node z) x = some (store.setHole path x) := by
  have hp : store.parent (.node z) = some (holeParent path) := hangs.below.2.1
  cases path with
  | nil =>
    have hr : store.root = some (.node z) := hangs.above
    rw [unlink, if_pos hr]
    rfl
  | cons frame path =>
    have hl : store.next (.node frame.label) frame.side = some (.node z) := hangs.above.2.2.1
    have hs : store.next (.node frame.label) frame.side.opposite =
        rootLink frame.sibling := hangs.above.2.2.2.1
    rw [unlink, if_neg (hangs.root_ne rfl), hp, holeParent, setHole]
    dsimp only
    cases hsi : frame.side with
    | left =>
      rw [hsi] at hl
      rw [if_pos hl]
    | right =>
      rw [hsi, Side.opposite] at hs
      rw [if_neg]
      rw [hs]
      intro hr
      refine (nodup_append.mp hangs.nodup).2.2 z
        (mem_append_right _ mem_cons_self) z ?_ rfl
      exact mem_cons_of_mem _ (mem_append_left _ (rootLink_mem hr))

lemma TakenOut.moveLeftmost {y : Option TreeLink} (takenOut : store.TakenOut unlinked path x)
    (isMoved : unlinked.moveLeftmost link y = some moved) : store.TakenOut moved path x := by
  unfold TreeStore.moveLeftmost at isMoved
  split at isMoved
  · split at isMoved
    · obtain rfl := some.inj isMoved
      exact takenOut.setNext_trunk _ _
    · cases isMoved
    obtain ⟨_, _, rfl⟩ := map_eq_some_iff.mp isMoved
    exact takenOut.setNext_trunk _ _
  obtain rfl := some.inj isMoved
  exact takenOut

lemma TakenOut.moveRightmost (takenOut : store.TakenOut unlinked path x)
    (isMoved : unlinked.moveRightmost link = some moved) : store.TakenOut moved path x := by
  unfold TreeStore.moveRightmost at isMoved
  split at isMoved
  · split at isMoved
    · obtain rfl := some.inj isMoved
      exact takenOut.setNext_trunk _ _
    obtain ⟨_, _, rfl⟩ := map_eq_some_iff.mp isMoved
    exact takenOut.setNext_trunk _ _
  obtain rfl := some.inj isMoved
  exact takenOut

lemma Hangs.takeOut (hangs : store.Hangs path (node color left z right))
    {xParent : Option TreeLink} (done : store.takeOut (.node z) x = some (xParent, moved)) :
    xParent = some (holeParent path) ∧ store.TakenOut moved path x := by
  have hp : store.parent (.node z) = some (holeParent path) := hangs.below.2.1
  rw [TreeStore.takeOut, hangs.unlink_eq, hp] at done
  obtain ⟨_, hl, same⟩ := map_eq_some_iff.mp done
  obtain ⟨rfl, rfl⟩ := Prod.mk.inj same
  obtain ⟨_, hf, hl⟩ := bind_eq_some_iff.mp hl
  exact ⟨rfl, ((store.takenOut_setHole path x).moveLeftmost hf).moveRightmost hl⟩

lemma Hangs.movesUp (hangs : store.Hangs path (node color left z right))
    (balanced : (node color left z right).Balanced) (movesUp : store.movesUp (.node z) = some x) :
    x = none ∨ ∃ k, x = some k ∧ store.color k = .red := by
  obtain ⟨_, _, hl, hr, hil, hir⟩ := hangs.below
  obtain ⟨_, below, hlh, hrh, _⟩ := balanced
  have hot : ∀ {tree : ColorTree Nat} {parent : TreeLink},
      store.Shape tree parent → tree.Height 0 → rootLink tree = x →
      x = none ∨ ∃ k, x = some k ∧ store.color k = .red := by
    intro tree parent shape hh hro
    rcases eq_nil_or_red hh with rfl | isRed
    · exact .inl hro.symm
    cases tree with
    | nil => exact .inl hro.symm
    | node color left label right => exact .inr ⟨.node label, hro.symm, shape.1.trans isRed⟩
  unfold TreeStore.movesUp at movesUp
  rw [hl, hr] at movesUp
  cases left with
  | nil =>
    obtain rfl : below = 0 := hlh
    exact hot hir hrh (some.inj movesUp)
  | node _ _ label _ =>
    cases right with
    | nil =>
      obtain rfl : below = 0 := hrh
      exact hot hil hlh (some.inj movesUp)
    | node _ _ _ _ =>
      obtain ⟨_, hf, hn⟩ := map_eq_some_iff.mp movesUp
      obtain ⟨m, color, _, _, rfl, shape, lowest⟩ := hir.descend_left ⟨below, hrh⟩ rfl hf
      obtain ⟨_, lowestBelow, hz, hbh, _⟩ := lowest
      obtain rfl : lowestBelow = 0 := hz
      obtain ⟨_, _, _, hbe, _, hib⟩ := shape
      exact hot hib hbh (hbe.symm.trans hn)

lemma Hangs.rebalanceForErase (hangs : store.Hangs path (node color left z right))
    (done : store.rebalanceForErase (.node z) = some (y, after)) :
    ∃ x moved fixed, store.movesUp (.node z) = some x ∧
      store.takeOut (.node z) x = some (some (holeParent path), moved) ∧
      store.TakenOut moved path x ∧ (if color ≠ .red then
        fixLoop (store.nodeCt + 1) x (some (holeParent path)) moved else some moved) = some fixed ∧
      fixed.blackenRoot = some after ∧ y = .node z := by
  have hc : store.color (.node z) = color := hangs.below.1
  obtain ⟨x, hmu, done⟩ := bind_eq_some_iff.mp done
  rw [if_neg (fun ne => ne rfl)] at done
  obtain ⟨⟨_, moved⟩, hm, done⟩ := bind_eq_some_iff.mp done
  obtain ⟨fixed, hf, done⟩ := bind_eq_some_iff.mp done
  obtain ⟨_, hb, same⟩ := map_eq_some_iff.mp done
  obtain ⟨rfl, rfl⟩ := Prod.mk.inj same
  obtain ⟨rfl, hto⟩ := hangs.takeOut hm
  rw [hto.color, hc] at hf
  exact ⟨x, moved, fixed, hmu, hm, hto, hf, hb, rfl⟩

lemma blackenRoot_eq (isBlackened : store.blackenRoot = some after) :
    after.next = store.next ∧ after.parent = store.parent ∧ after.root ≠ none := by
  obtain ⟨root, hr, rfl⟩ := map_eq_some_iff.mp isBlackened
  refine ⟨rfl, rfl, ?_⟩
  intro hn
  have same : store.root = none := hn
  rw [hr] at same
  cases same

lemma Hangs.rebalanceForErase_keeps (hangs : store.Hangs path (node color left z right))
    (balanced : (node color left z right).Balanced) (rules : ∀ frame ∈ path, frame.sibling.RedRule)
    (enough : path.length ≤ store.nodeCt)
    (returned : store.rebalanceForErase (.node z) = some (y, after)) :
    y = .node z ∧ after.root ≠ none ∧ ∀ id, id ∉ frameLabels path →
      after.next (.node id) = store.next (.node id) ∧
      after.parent (.node id) = store.parent (.node id) := by
  obtain ⟨x, moved, fixed, hmu, _, hto, hf, hbl, rfl⟩ := hangs.rebalanceForErase returned
  obtain ⟨hsn, hsp, hro⟩ := blackenRoot_eq hbl
  have hw : moved.Within fixed (frameLabels path) := by
    by_cases isRed : color = .red
    · rw [if_neg (fun hnr => hnr isRed)] at hf
      obtain rfl := some.inj hf
      exact moved.within_refl _
    rw [if_pos isRed] at hf
    rcases hangs.movesUp balanced hmu with rfl | ⟨k, rfl, kRed⟩
    · have hl := fixLoop_leaves path moved nil (store.nodeCt + 1)
        (hto.hangs hangs) (Nat.lt_succ_of_le enough) rules
      rw [rootLink, hf] at hl
      cases ht : fixTree path nil with
      | none => cases hl.1 ht
      | some result =>
        obtain ⟨after, ha, _, hw⟩ := hl.2 result ht
        obtain rfl := some.inj ha
        exact hw
    have hnb : ¬ (some k ≠ moved.root ∧ moved.isBlack (some k) = true) := by
      intro hgo
      have hb := of_decide_eq_true hgo.2
      rw [hto.color, kRed] at hb
      cases hb
    rw [fixLoop, if_neg hnb] at hf
    obtain rfl := some.inj hf
    exact moved.within_refl _
  refine ⟨rfl, hro, ?_⟩
  intro id notIn
  constructor
  · rw [hsn, hw.next id notIn, hto.next_of_notMem notIn]
  · rw [hsp, hw.parent id notIn, hto.parent]

lemma incrementNode_leaf {p : TreeLink} (isLeaf : store.next (.node z) .right = none)
    (isParent : store.parent (.node z) = some p) (notChild : store.next p .right ≠ some (.node z)) :
    store.incrementNode (.node z) = some p := by
  have ha : store.ascend .right (store.nodeCt + 1) (.node z) = some (.node z, p) := by
    rw [ascend, isParent]
    simp [if_neg notChild]
  simp [incrementNode, isLeaf, ha]

/-- The erasure of a node leaves a search tree without the node, and returns
the node that follows. -/
def Erases (lt : T → T → Bool) (store : TreeStore T) (tree : ColorTree Nat) (z : Nat) : Prop :=
  ∃ result after changed, store.eraseNode (.node z) = some (result, after) ∧
    Valid lt after changed ∧ changed.labels = tree.labels.erase z ∧
    after.value = store.value ∧
    ∀ before rest, tree.labels = before ++ z :: rest → result = firstLink rest

/-- A leaf on the left of its parent, if it is red or the loop can repair the
tree without it. -/
def Erasable (tree : ColorTree Nat) (z : Nat) : Prop :=
  ∃ frame path color, tree = plug (frame :: path) (node color nil z nil) ∧
    frame.side = .left ∧ (color = .red ∨ Fixable (frame :: path))

section

variable (valid : Valid lt store (plug path (node color left z right)))

include valid

lemma Valid.hangs_position : store.Hangs path (node color left z right) :=
  hangs_plug.mpr valid.hangs

lemma Valid.balanced_position : (node color left z right).Balanced :=
  Balanced.of_plug valid.height

lemma Valid.pathRedRule_position : PathRedRule path color :=
  ((redRule_plug path _).mp valid.redRule).2

lemma Valid.length_position : path.length ≤ store.nodeCt := by
  have perm := perm_labels_plug path (node color left z right)
  calc path.length ≤ (frameLabels path).length := length_le_frameLabels path
    _ ≤ ((node color left z right).labels ++ frameLabels path).length := by
        rw [length_append]
        exact Nat.le_add_left _ _
    _ = (plug path (node color left z right)).labels.length := perm.length_eq.symm
    _ ≤ store.nodeCt := valid.length_le

end

lemma sibling_redRule :
    ∀ {color : Color}, PathRedRule path color → ∀ frame ∈ path, frame.sibling.RedRule := by
  induction path with
  | nil =>
    intro color _ frame mem
    cases mem
  | cons _ path ih =>
    intro color hpr frame mem
    rcases mem_cons.mp mem with rfl | mem
    · exact hpr.2.1
    · exact ih hpr.2.2 frame mem

lemma Hangs.blackenRoot (hangs : store.Hangs [] tree)
    (isBlackened : store.blackenRoot = some after) : after.Hangs [] (tree.paint .black) := by
  have hr := hangs.above
  obtain ⟨root, hro, rfl⟩ := map_eq_some_iff.mp isBlackened
  cases tree with
  | nil =>
    rw [hr] at hro
    cases hro
  | node color left label right =>
    rw [hr] at hro
    cases hro
    have hin : store.Hangs [] (join .left color label left right) := hangs
    exact hin.paint .black

lemma labels_plug_leaf (path : List (Frame Nat)) (color : Color) (z : Nat) :
    (plug path (node color nil z nil)).labels = labelsBefore path ++ z :: labelsAfter path := by
  rw [labels_plug]
  rfl

variable {frame : Frame Nat}

lemma Valid.leaf_side (valid : Valid lt store (plug (frame :: path) (node color nil z nil)))
    (isResult : ∀ before rest, (plug (frame :: path) (node color nil z nil)).labels =
        before ++ z :: rest → .node frame.label = firstLink rest) : frame.side = .left := by
  have nodup := (nodup_append.mp valid.hangs.nodup).1
  cases hs : frame.side with
  | left => rfl
  | right =>
    have hf := isResult _ _ (labels_plug_leaf (frame :: path) color z)
    have hia := firstLink_eq_node hf.symm
    rw [labels_plug_leaf] at nodup
    refine absurd rfl ((nodup_append.mp nodup).2.2 frame.label ?_
      frame.label (mem_cons_of_mem _ hia))
    rw [labelsBefore, hs]
    simp

lemma Valid.leaf_fixable {changed : ColorTree Nat}
    (valid : Valid lt store (plug path (node .black nil z nil)))
    (done : store.rebalanceForErase (.node z) = some (y, after))
    (hangsAfter : after.Hangs [] changed) (balanced : changed.Balanced) : Fixable path := by
  have hangs := valid.hangs_position
  have hpr := valid.pathRedRule_position
  obtain ⟨_, _, hle, hr, _, _⟩ := hangs.below
  obtain ⟨x, moved, _, hmu, _, hto, hf, hbl, _⟩ := hangs.rebalanceForErase done
  obtain rfl : x = none := by
    unfold movesUp at hmu
    rw [hle, hr] at hmu
    exact (some.inj hmu).symm
  rw [if_pos (by decide)] at hf
  have hl := fixLoop_leaves path moved nil (store.nodeCt + 1)
    (hto.hangs hangs) (Nat.lt_succ_of_le valid.length_position) (sibling_redRule hpr)
  rw [rootLink, hf] at hl
  by_contra hnf
  cases ht : fixTree path nil with
  | none => cases hl.1 ht
  | some result =>
    obtain ⟨_, hs, hhf, _⟩ := hl.2 result ht
    obtain rfl := some.inj hs
    obtain ⟨height, hh⟩ := valid.height
    obtain ⟨below, ⟨_, hz, _, rfl⟩, hph⟩ := (height_plug _ _ _).mp hh
    obtain rfl := hz
    refine fixTree_not_fixable path nil result 0 height hnf rfl rfl hph hpr ?_ ht ?_
    · intro frame hla
      rw [← rootColor_plug path _ frame hla]
      exact valid.rootBlack
    rw [← balanced_paint, (hhf.blackenRoot hbl).unique hangsAfter]
    exact balanced

/-- No other node is erased rightly. -/
lemma Valid.erases_only (valid : Valid lt store (plug path (node color left z right)))
    (erases : Erases lt store (plug path (node color left z right)) z) :
    Erasable (plug path (node color left z right)) z := by
  obtain ⟨_, _, changed, hret, hva, hc, _, hr⟩ := erases
  have hangs := valid.hangs_position
  have nodup := (nodup_append.mp valid.hangs.nodup).1
  have perm := perm_labels_plug path (node color left z right)
  have gone : z ∉ changed.labels := by
    rw [hc]
    exact nodup.not_mem_erase
  have stays : ∀ {id}, id ≠ z → id ∈ (node color left z right).labels ++ frameLabels path →
      id ∈ changed.labels := by
    intro id ne mem
    rw [hc]
    exact (mem_erase_of_ne ne).mpr (perm.symm.subset mem)
  obtain ⟨⟨y, rebalanced⟩, hre, hret⟩ := bind_eq_some_iff.mp hret
  obtain ⟨following, hfo, same⟩ := map_eq_some_iff.mp hret
  obtain ⟨rfl, rfl⟩ := Prod.mk.inj same
  obtain ⟨rfl, hro, keeps⟩ := hangs.rebalanceForErase_keeps
    valid.balanced_position (sibling_redRule valid.pathRedRule_position) valid.length_position hre
  have hha : rebalanced.Hangs [] changed :=
    hva.hangs.congr ⟨fun _ _ => rfl, fun _ _ => rfl, fun _ _ => rfl⟩ rfl
  have links := hha.below.links
  have apart := (nodup_append.mp hangs.nodup).2.2
  have zIn : z ∈ (node color left z right).labels := mem_append_right _ mem_cons_self
  have hdi := (nodup_append.mp hangs.nodup).1
  rw [labels, perm_middle.nodup_iff, nodup_cons] at hdi
  -- A child of the node would keep it as its parent.
  have hnc : ∀ {child : ColorTree Nat}, store.Shape child (.node z) →
      child.labels ⊆ left.labels ++ right.labels → child = .nil := by
    intro child shape hs
    cases child with
    | nil => rfl
    | node _ inner k outer =>
      have kIn := hs (mem_append_right inner.labels
        (mem_cons_self (a := k) (l := outer.labels)))
      have hkb : k ∈ (node color left z right).labels :=
        perm_middle.symm.subset (mem_cons_of_mem _ kIn)
      have ne : k ≠ z := by
        intro same
        exact hdi.1 (same ▸ kIn)
      obtain ⟨_, above, ha, hin⟩ := links k (stays ne (mem_append_left _ hkb))
      rw [(keeps k fun mem => apart k hkb k mem rfl).2, shape.2.1] at ha
      obtain rfl := some.inj ha
      rcases hin with ht | ⟨_, ho, same⟩
      · cases ht
      cases same
      exact absurd ho gone
  obtain rfl := hnc hangs.below.2.2.2.2.1 (subset_append_left _ _)
  obtain rfl := hnc hangs.below.2.2.2.2.2 (subset_append_right _ _)
  have hkl := keeps z fun mem => apart z zIn z mem rfl
  cases path with
  | nil =>
    have isNil : changed.labels = [] := by
      rw [hc]
      simp [plug, labels]
    cases changed with
    | nil => exact absurd hha.above hro
    | node _ _ _ _ => simp [labels] at isNil
  | cons frame path =>
    have here : frame.label ∈ frameLabels (frame :: path) := mem_cons_self
    have hl : rebalanced.next (.node z) .right = none := by
      rw [hkl.1]
      exact hangs.below.2.2.2.1
    have hp : rebalanced.parent (.node z) = some (.node frame.label) := hkl.2.trans hangs.below.2.1
    have hf : following = .node frame.label := by
      rw [incrementNode_leaf hl hp] at hfo
      · exact (some.inj hfo).symm
      intro hch
      refine gone ((links frame.label (stays ?_ (mem_append_right _ here))).1 .right z hch)
      intro same
      exact apart z zIn frame.label here same.symm
    subst hf
    refine ⟨frame, path, color, rfl, valid.leaf_side hr, ?_⟩
    cases color with
    | red => exact .inl rfl
    | black => exact .inr (valid.leaf_fixable hre hha hva.height)

lemma pathRedRule_black (pathRule : PathRedRule path color) :
    PathRedRule path .black := by
  cases path with
  | nil => trivial
  | cons _ path => exact ⟨fun isRed => ⟨rfl, (pathRule.1 isRed).2⟩, pathRule.2⟩

lemma Valid.leaf_fixed (valid : Valid lt store (plug path (node color nil z nil)))
    (takenOut : store.TakenOut moved path none) (fixable : color = .red ∨ Fixable path) :
    ∃ fixed result, (if color ≠ .red then
        fixLoop (store.nodeCt + 1) none (some (holeParent path)) moved
      else some moved) = some fixed ∧
      fixed.Hangs [] result ∧ moved.Within fixed (frameLabels path) ∧
      result.RedRule ∧ result.Balanced ∧ result.labels = labelsBefore path ++ labelsAfter path := by
  have hpr := pathRedRule_black valid.pathRedRule_position
  have hangs := takenOut.hangs valid.hangs_position
  obtain ⟨height, hh⟩ := valid.height
  obtain ⟨_, ⟨_, hz, _, rfl⟩, hph⟩ := (height_plug _ _ _).mp hh
  obtain rfl := hz
  cases color with
  | red =>
    refine ⟨moved, plug path nil, rfl, hangs_plug.mp hangs,
      moved.within_refl _, (redRule_plug _ _).mpr ⟨trivial, hpr⟩,
      ⟨height, (height_plug _ _ _).mpr ⟨0, rfl, hph⟩⟩, ?_⟩
    rw [labels_plug]
    rfl
  | black =>
    have hf : Fixable path := by
      rcases fixable with isRed | hf
      · cases isRed
      · exact hf
    obtain ⟨result, ht, hrr, hb, hla⟩ :=
      fixTree_fixable path nil 0 height hf trivial rfl rfl hph hpr
    have hl := fixLoop_leaves path moved nil (store.nodeCt + 1) hangs
      (Nat.lt_succ_of_le valid.length_position) (sibling_redRule hpr)
    obtain ⟨fixed, hfix, hhf, hw⟩ := hl.2 result ht
    refine ⟨fixed, result, hfix, hhf, hw, hrr, hb, ?_⟩
    rw [hla, labels_plug]
    rfl

section

variable (valid : Valid lt store (plug (frame :: path) (node color nil z nil)))

include valid

lemma Valid.takeOut_leaf (isLeft : frame.side = .left) :
    ∃ moved, store.takeOut (.node z) none = some (some (.node frame.label), moved) ∧
      store.TakenOut moved (frame :: path) none ∧ moved.next .trunk .left = some (firstLink
        (labelsBefore (frame :: path) ++ labelsAfter (frame :: path))) ∧
      moved.next .trunk .right = some (lastLink
        (labelsBefore (frame :: path) ++ labelsAfter (frame :: path))) := by
  have hangs := valid.hangs_position
  have hp : store.parent (.node z) = some (.node frame.label) := hangs.below.2.1
  have hle : store.next (.node z) .right = none := hangs.below.2.2.2.1
  have nodup := (nodup_append.mp valid.hangs.nodup).1
  have hl := valid.leftmost
  have hr := valid.rightmost
  have ha : labelsAfter (frame :: path) = frame.label ::
      (frame.sibling.labels ++ labelsAfter path) := by
    rw [labelsAfter, isLeft]
  rw [labels_plug_leaf] at nodup hl hr
  generalize labelsBefore (frame :: path) = before at *
  generalize isBehind : labelsAfter (frame :: path) = behind at *
  have hnn : behind ≠ [] := by
    rw [ha]
    exact cons_ne_nil _ _
  have hu := store.takenOut_setHole (frame :: path) none
  have trunk := store.next_setHole_trunk (frame :: path) none
  have hln : (store.setHole (frame :: path) none).next (.node z) .right = none := by
    rw [next_setHole]
    · exact hle
    refine holeParent_ne fun mem => ?_
    exact (nodup_append.mp hangs.nodup).2.2 z
      (mem_append_right _ mem_cons_self) z mem rfl
  obtain ⟨first, hf, hfo, hfl, hfr⟩ : ∃ first,
      (store.setHole (frame :: path) none).moveLeftmost (.node z) none = some first ∧
      store.TakenOut first (frame :: path) none ∧
      first.next .trunk .left = some (firstLink (before ++ behind)) ∧
      first.next .trunk .right = store.next .trunk .right := by
    unfold moveLeftmost
    rw [hln, hu.parent, hp, trunk, hl, firstLink_append, firstLink_append]
    by_cases isNil : before = []
    · refine ⟨_, if_pos (by rw [if_pos isNil]; rfl), hu.setNext_trunk _ _, ?_, ?_⟩
      · rw [if_pos isNil, ha]
        simp [firstLink]
      · simp [trunk]
    have hnf : some (firstLink before) ≠ some (.node z) := by
      intro same
      exact (nodup_append.mp nodup).2.2 z
        (firstLink_eq_node (some.inj same)) z mem_cons_self rfl
    rw [if_neg isNil, if_neg isNil, if_neg hnf]
    refine ⟨_, rfl, hu, ?_, ?_⟩
    · rw [trunk, hl, firstLink_append, if_neg isNil]
    · rw [trunk]
  have hsl : lastLink (before ++ z :: behind) = lastLink (before ++ behind) := by
    rw [lastLink_append, if_neg (cons_ne_nil _ _), lastLink_append,
      if_neg hnn, ← singleton_append, lastLink_append, if_neg hnn]
  have hla : first.moveRightmost (.node z) = some first := by
    unfold moveRightmost
    rw [hfr, hr, hsl, lastLink_append, if_neg hnn, if_neg]
    intro same
    have hib := lastLink_eq_node (some.inj same)
    exact (nodup_cons.mp (nodup_append.mp nodup).2.1).1 hib
  refine ⟨first, ?_, hfo, hfl, ?_⟩
  · rw [takeOut, hangs.unlink_eq, bind_some, hf, bind_some, hla, hp]
    rfl
  · rw [hfr, hr, hsl]

/-- A leaf on the left that can be fixed is erased. -/
lemma Valid.erases_leaf (isLeft : frame.side = .left)
    (fixable : color = .red ∨ Fixable (frame :: path)) :
    Erases lt store (plug (frame :: path) (node color nil z nil)) z := by
  have hangs := valid.hangs_position
  have nodup := (nodup_append.mp valid.hangs.nodup).1
  have hl := labels_plug_leaf (frame :: path) color z
  have hnip : z ∉ frameLabels (frame :: path) := fun mem =>
    (nodup_append.mp hangs.nodup).2.2 z (mem_append_right _ mem_cons_self) z mem rfl
  obtain ⟨hco, hp, hnl, hnr, _, _⟩ := hangs.below
  have hmu : store.movesUp (.node z) = some none := by
    unfold movesUp
    rw [hnl, hnr]
    rfl
  obtain ⟨_, hmo, hto, hlef, rightmost⟩ := valid.takeOut_leaf isLeft
  obtain ⟨fixed, result, hfix, hhf, hw, hrr, hba, resultLabels⟩ := valid.leaf_fixed hto fixable
  rw [hl] at nodup
  rw [perm_middle.nodup_iff, nodup_cons] at nodup
  have he : result.labels = (plug (frame :: path) (node color nil z nil)).labels.erase z := by
    rw [hl, resultLabels, erase_append_right _ fun mem =>
      nodup.1 (mem_append_left _ mem), erase_cons_head]
  have hfi : frame.label ∈ result.labels := by
    rw [resultLabels]
    exact (perm_frameLabels _).symm.subset mem_cons_self
  obtain ⟨root, isRoot⟩ : ∃ root, fixed.root = some root := by
    have above := hhf.above
    cases result with
    | nil => cases hfi
    | node _ _ label _ => exact ⟨.node label, above⟩
  have hb : fixed.blackenRoot = some (fixed.setColor root .black) := by
    rw [blackenRoot, isRoot]
    rfl
  have hpa := hhf.blackenRoot hb
  have hr : store.rebalanceForErase (.node z) = some (.node z, fixed.setColor root .black) := by
    unfold rebalanceForErase
    dsimp only
    rw [hmu, bind_some, if_neg (fun ne => ne rfl), hmo, bind_some, hto.color, hco]
    rw [holeParent] at hfix
    rw [hfix, bind_some, hb]
    rfl
  have hfo : (fixed.setColor root .black).incrementNode (.node z) = some (.node frame.label) := by
    refine incrementNode_leaf ?_ ?_ ?_
    · rw [next_setColor, hw.next z hnip, hto.next_of_notMem hnip]
      exact hnr
    · rw [parent_setColor, hw.parent z hnip, hto.parent]
      exact hp
    intro hch
    have hin := (hhf.below.links frame.label hfi).1 .right z hch
    rw [resultLabels] at hin
    exact nodup.1 hin
  have hcou : { fixed.setColor root .black with
      count := (fixed.setColor root .black).count - 1 }.Hangs [] (result.paint .black) :=
    hpa.congr ⟨fun _ _ => rfl, fun _ _ => rfl, fun _ _ => rfl⟩ rfl
  have hs : result.labels.Sublist (plug (frame :: path) (node color nil z nil)).labels := by
    rw [he]
    exact erase_sublist
  refine ⟨.node frame.label, _, result.paint .black, ?_,
    ⟨⟨hcou, ?_, hrr.paint_black, balanced_paint.mpr hba, ?_, ?_, ?_, ?_⟩, ?_⟩, ?_, ?_, ?_⟩
  · unfold eraseNode
    rw [hr, bind_some, hfo]
    rfl
  · cases result <;> rfl
  · rw [labels_paint, resultLabels, ← hlef, ← hw.rest.trunkNext]
    rfl
  · rw [labels_paint, resultLabels, ← rightmost, ← hw.rest.trunkNext]
    rfl
  · have hsc := hw.rest.count.trans hto.count
    have hc : (fixed.setColor root .black).count = store.count := hsc
    rw [labels_paint, he, hc, valid.count, length_erase_of_mem]
    rw [hl]
    exact mem_append_right _ mem_cons_self
  · intro id mem
    rw [labels_paint] at mem
    have hsnc : (fixed.setColor root .black).nodeCt = store.nodeCt :=
      hw.rest.nodeCt.trans hto.nodeCt
    rw [hsnc]
    exact valid.allocated id (hs.subset mem)
  · have hsv : (fixed.setColor root .black).value = store.value := hw.rest.value.trans hto.value
    rw [labels_paint, hsv]
    exact valid.sorted.sublist hs
  · rw [labels_paint, he]
  · exact hw.rest.value.trans hto.value
  intro _ rest isSplit
  rw [hl] at isSplit
  have same := (append_cons_inj_of_notMem (fun mem => nodup.1 (mem_append_left _ mem))
    (fun mem => nodup.1 (mem_append_right _ mem))).mp isSplit
  rw [← same.2.2, labelsAfter, isLeft]
  rfl

end

lemma exists_plug (tree : ColorTree Nat) :
    ∀ around : List (Frame Nat), z ∈ tree.labels → ∃ path color left right,
        plug around tree = plug path (node color left z right) := by
  induction tree with
  | nil =>
    intro around mem
    cases mem
  | node color left label right hlh hrh =>
    intro around mem
    rcases mem_append.mp mem with mem | mem
    · exact hlh (⟨.left, color, label, right⟩ :: around) mem
    rcases mem_cons.mp mem with rfl | mem
    · exact ⟨around, color, left, right, rfl⟩
    · exact hrh (⟨.right, color, label, left⟩ :: around) mem

/-- An erasure is correct exactly for the leaves that can be erased. -/
theorem eraseNode_iff (valid : Valid lt store tree) (member : z ∈ tree.labels) :
    Erases lt store tree z ↔ Erasable tree z := by
  constructor
  · intro her
    obtain ⟨path, color, left, right, hp⟩ := exists_plug tree [] member
    obtain rfl : tree = plug path (node color left z right) := hp
    exact valid.erases_only her
  intro he
  obtain ⟨_, path, color, rfl, hl, hf⟩ := he
  exact valid.erases_leaf hl hf

theorem eraseNode_iff_redLeaf : ∃ (store : TreeStore Nat) (tree : ColorTree Nat) (z : Nat),
    Valid (fun left right => decide (left < right)) store tree ∧ z ∈ tree.labels ∧
    Erases (fun left right => decide (left < right)) store tree z := by
  let store : TreeStore Nat :=
    { color := fun link => if link = .node 1 then .red else .black
      parent := fun link =>
        match link with
        | .trunk => some (.node 0)
        | .node 0 => some .trunk
        | .node _ => some (.node 0)
      next := fun link side =>
        match link, side with
        | .trunk, .left => some (.node 1)
        | .trunk, .right => some (.node 0)
        | .node 0, .left => some (.node 1)
        | .node _, _ => none
      value := fun id => if id = 0 then 2 else 1
      count := 2
      nodeCt := 2 }
  have valid : Valid (fun left right => decide (left < right)) store
      (node .black (node .red nil 1 nil) 0 nil) := by
    refine ⟨⟨⟨rfl, ?_, by decide⟩, rfl, ?_, ⟨1, ?_⟩, rfl, rfl, rfl, ?_⟩, ?_⟩
    · exact ⟨rfl, rfl, rfl, rfl, ⟨rfl, rfl, rfl, rfl, trivial, trivial⟩, trivial⟩
    · exact ⟨fun isRed => (nomatch isRed), ⟨fun _ => ⟨rfl, rfl⟩, trivial, trivial⟩, trivial⟩
    · exact ⟨0, ⟨0, rfl, rfl, rfl⟩, rfl, rfl⟩
    · decide
    · decide
  refine ⟨store, _, 1, valid, by decide, (eraseNode_iff valid (by decide)).mpr ?_⟩
  exact ⟨⟨.left, .black, 0, nil⟩, [], .red, rfl, rfl, Or.inl rfl⟩

/-- The root with its two children: the link to the root is lost. -/
theorem not_erases_root : ∃ (after : TreeStore Nat) (tree : ColorTree Nat) (z : Nat),
    [Insertion.insertUnique 2, .insertUnique 1, .insertUnique 3].foldlM
      (TreeStore.insertOne fun left right : Nat => decide (left < right))
      (TreeStore.newTree ⟨fun _ => .red, fun _ => none, fun _ _ => none,
        fun _ => 0, 0, 0⟩) = some after ∧
    Valid (fun left right => decide (left < right)) after tree ∧ z ∈ tree.labels ∧
    ¬ Erases (fun left right => decide (left < right)) after tree z := by
  let empty : TreeStore Nat := ⟨fun _ => .red, fun _ => none, fun _ _ => none, fun _ => 0, 0, 0⟩
  obtain ⟨after, tree, returned, valid, _⟩ := @Valid.insertions Nat
    (fun left right => decide (left < right)) inferInstance
    [Insertion.insertUnique 2, .insertUnique 1, .insertUnique 3]
    empty.newTree nil [] (valid_newTree _ empty) (List.Perm.refl _)
  have hr : after.root = some (.node 0) := by
    have hc : ([Insertion.insertUnique 2, .insertUnique 1,
        .insertUnique 3].foldlM (insertOne fun left right : Nat =>
          decide (left < right)) empty.newTree).bind root = some (.node 0) := by decide
    rw [returned] at hc
    exact hc
  have hn : after.eraseNode (.node 0) = none := by
    have hc : (([Insertion.insertUnique 2, .insertUnique 1,
        .insertUnique 3].foldlM (insertOne fun left right : Nat =>
          decide (left < right)) empty.newTree).bind
            fun after => after.eraseNode (.node 0)).isNone = true := by
      decide
    rw [returned] at hc
    exact isNone_iff_eq_none.mp hc
  refine ⟨after, tree, 0, returned, valid, ?_, ?_⟩
  · have above : after.root = rootLink tree := valid.hangs.above
    exact rootLink_mem (above.symm.trans hr)
  intro he
  obtain ⟨_, _, _, erased, _⟩ := he
  rw [hn] at erased
  cases erased

end TreeStore

end OoOS.Libk
