import OoOS.Libk.RbTree

/-!
# The loop of an erasure on trees

Below a red sibling the loop of `__rebalance_for_erase` rotates the node that
lacks a black one, not its parent, and it paints the parent black before it asks
whether to go on.
-/

namespace OoOS.Libk

open Lib.RedBlack Lib.RedBlack.ColorTree Nat

universe u

variable {α : Type u}

def finishTree (frame : Frame α) (tree : ColorTree α) : ColorTree α :=
  let near := frame.sibling.child frame.side
  let far := frame.sibling.child frame.side.opposite
  match frame.sibling, near with
  | nil, _ => frame.fill tree
  | node _ _ label _, nil =>
    join frame.side frame.color label
      (join frame.side .black frame.label tree nil) (far.paint .black)
  | node _ _ label _, node color left second right =>
    if far.rootColor = .red then
      join frame.side frame.color label
        (join frame.side .black frame.label tree near) (far.paint .black)
    else
      join frame.side frame.color second
        (join frame.side .black frame.label tree
          ((node color left second right).child frame.side))
        (join frame.side .black label
          ((node color left second right).child frame.side.opposite) far)

/-- What the loop makes of a tree with a filling that lacks a black node; `none`
if it does not return. -/
def fixTree : List (Frame α) → ColorTree α → Option (ColorTree α)
  | [], tree => some tree
  | frame :: path, tree =>
    if tree.rootColor = .red then some (plug (frame :: path) tree)
    else
      match frame.sibling with
      | nil => none
      | node color left label right =>
        if color = .red then
          match tree.turn frame.side with
          | none => none
          | some turned =>
            fixTree path (join frame.side .black frame.label turned
              (node color left label right))
        else if left.rootColor = .black ∧ right.rootColor = .black then
          fixTree path (join frame.side .black frame.label tree
            (node .red left label right))
        else some (plug path (finishTree frame tree))

/-- The frames that the loop can repair: every sibling is black, and there is a
red child of one before a red frame comes. -/
def Fixable : List (Frame α) → Prop
  | [] => True
  | frame :: path =>
    frame.sibling.rootColor = .black ∧ (((frame.sibling.child .left).rootColor = .red ∨
          (frame.sibling.child .right).rootColor = .red) ∨
        frame.color = .black ∧ Fixable path)

variable {frame : Frame α} {path : List (Frame α)}
  {tree near far : ColorTree α} {label : α} {color : Color}

section

variable (isBlack : tree.rootColor = .black)

include isBlack

lemma fixTree_red (isRed : frame.sibling.rootColor = .red) :
    fixTree (frame :: path) tree = (tree.turn frame.side).bind fun turned => fixTree path
        (join frame.side .black frame.label turned frame.sibling) := by
  rw [fixTree, isBlack, if_neg (by decide)]
  cases hs : frame.sibling with
  | nil =>
    rw [hs] at isRed
    cases isRed
  | node color _ label _ =>
    rw [hs] at isRed
    obtain rfl : color = .red := isRed
    cases tree.turn frame.side with
    | none => rfl
    | some turned => rfl

lemma fixTree_black (notNil : frame.sibling ≠ nil) (siblingBlack : frame.sibling.rootColor = .black)
    (blackChildren : ∀ side, (frame.sibling.child side).rootColor = .black) :
    fixTree (frame :: path) tree = fixTree path (join frame.side .black frame.label tree
        (frame.sibling.paint .red)) := by
  rw [fixTree, isBlack, if_neg (by decide)]
  cases hs : frame.sibling with
  | nil => exact absurd hs notNil
  | node color left label right =>
    rw [hs] at siblingBlack blackChildren
    obtain rfl : color = .black := siblingBlack
    have hbb : left.rootColor = .black ∧ right.rootColor = .black :=
      ⟨blackChildren .left, blackChildren .right⟩
    simp only [reduceCtorEq, if_false, if_pos hbb]
    rfl

lemma fixTree_finish (siblingBlack : frame.sibling.rootColor = .black)
    {side : Side} (child : (frame.sibling.child side).rootColor = .red) :
    fixTree (frame :: path) tree = some (plug path (finishTree frame tree)) := by
  rw [fixTree, isBlack, if_neg (by decide)]
  cases hs : frame.sibling with
  | nil =>
    rw [hs] at child
    cases child
  | node color left _ right =>
    rw [hs] at siblingBlack child
    obtain rfl : color = .black := siblingBlack
    have hnb : ¬ (left.rootColor = .black ∧ right.rootColor = .black) := by
      intro both
      cases side with
      | left =>
        have isRed : left.rootColor = .red := child
        rw [both.1] at isRed
        cases isRed
      | right =>
        have isRed : right.rootColor = .red := child
        rw [both.2] at isRed
        cases isRed
    simp [reduceCtorEq, if_neg hnb]

end

section

variable (isSibling : frame.sibling = join frame.side color label near far)

include isSibling

lemma finishTree_far (isRed : far.rootColor = .red) :
    finishTree frame tree = join frame.side frame.color label
      (join frame.side .black frame.label tree near) (far.paint .black) := by
  obtain ⟨side, _, _, sibling⟩ := frame
  dsimp only at isSibling
  subst isSibling
  cases side with
  | left =>
    cases near with
    | nil => rfl
    | node _ _ _ _ => exact if_pos isRed
  | right =>
    cases near with
    | nil => rfl
    | node _ _ _ _ => exact if_pos isRed

lemma finishTree_near {second : α} {inner outer : ColorTree α} {nearColor : Color}
    (isBlack : far.rootColor = .black)
    (isNear : near = join frame.side nearColor second inner outer) :
    finishTree frame tree = join frame.side frame.color second
      (join frame.side .black frame.label tree inner) (join frame.side .black label outer far) := by
  have hnr : far.rootColor ≠ .red := by
    rw [isBlack]
    decide
  obtain ⟨side, _, _, sibling⟩ := frame
  dsimp only at isSibling isNear
  subst isSibling isNear
  cases side <;> exact if_neg hnr

end

variable {height total : Nat} {side : Side} {sibling : ColorTree α}

lemma finishTree_eq (isSibling : frame.sibling.Height height)
    (siblingBlack : frame.sibling.rootColor = .black) (redRule : frame.sibling.RedRule)
    (child : (frame.sibling.child side).rootColor = .red) (tree : ColorTree α) :
    ∃ below top inner outer, finishTree frame tree = join frame.side frame.color top
        (join frame.side .black frame.label tree inner) outer ∧
      height = below + 1 ∧ inner.Height below ∧ outer.Height height ∧
      inner.RedRule ∧ outer.RedRule ∧ outer.rootColor = .black ∧
      (finishTree frame tree).labels = (frame.fill tree).labels := by
  have hnn : ∀ {tree : ColorTree α}, tree.rootColor = .red → tree ≠ nil := by
    intro tree isRed isNil
    rw [isNil] at isRed
    cases isRed
  have hn : frame.sibling ≠ nil := by
    intro isNil
    rw [isNil] at child
    cases child
  obtain ⟨color, label, near, far, hj⟩ := exists_join frame.side hn
  rw [hj] at isSibling redRule
  rw [hj, rootColor_join] at siblingBlack
  subst siblingBlack
  obtain ⟨below, hne, isFar, rfl⟩ := height_join.mp isSibling
  obtain ⟨_, hh, hfr⟩ := redRule_join.mp redRule
  cases hfc : far.rootColor with
  | red =>
    obtain ⟨_, last, first, second, rfl⟩ := exists_join frame.side (hnn hfc)
    rw [rootColor_join] at hfc
    subst hfc
    obtain ⟨_, hf, hse, rfl⟩ := height_join.mp isFar
    have hpr := hfr.paint_black
    rw [paint_join] at hpr
    refine ⟨_, label, near, join frame.side .black last first second, ?_,
      rfl, hne, height_join.mpr ⟨_, hf, hse, rfl⟩, hh, hpr, rootColor_join, ?_⟩
    · rw [finishTree_far hj rootColor_join, paint_join]
    rw [finishTree_far hj rootColor_join, paint_join, Frame.fill, hj]
    cases frame.side <;> simp [join, labels]
  | black =>
    have hnr : near.rootColor = .red := by
      rw [hj] at child
      by_cases hsi : side = frame.side
      · rw [hsi, child_join] at child
        exact child
      rw [Side.eq_opposite_of_ne hsi, child_opposite_join, hfc] at child
      cases child
    obtain ⟨_, second, inner, outer, rfl⟩ := exists_join frame.side (hnn hnr)
    rw [rootColor_join] at hnr
    subst hnr
    obtain ⟨_, hin, ho, rfl⟩ := height_join.mp hne
    obtain ⟨_, hir, hor⟩ := redRule_join.mp hh
    refine ⟨_, second, inner, join frame.side .black label outer far,
      finishTree_near hj hfc rfl, rfl, hin, height_join.mpr ⟨_, ho, isFar, rfl⟩, hir,
      redRule_join.mpr ⟨fun isRed => ?_, hor, hfr⟩, rootColor_join, ?_⟩
    · cases isRed
    rw [finishTree_near hj hfc rfl, Frame.fill, hj]
    cases frame.side <;> simp [join, labels]

lemma exists_red_child (notBlack : ¬ ∀ side, (tree.child side).rootColor = .black) :
    ∃ side, (tree.child side).rootColor = .red := by
  obtain ⟨side, hnb⟩ := not_forall.mp notBlack
  refine ⟨side, ?_⟩
  cases hc : (tree.child side).rootColor with
  | red => rfl
  | black => exact absurd hc hnb

/-- A fixable path gets its heights back. -/
lemma fixTree_fixable (path : List (Frame α)) :
    ∀ (tree : ColorTree α) (below height : Nat), Fixable path →
      tree.RedRule → tree.rootColor = .black → tree.Height below →
      PathHeight path (below + 1) height → PathRedRule path .black →
      ∃ result, fixTree path tree = some result ∧ result.RedRule ∧
        result.Balanced ∧ result.labels = (plug path tree).labels := by
  induction path with
  | nil =>
    intro tree below height _ hrru _ hh _ _
    exact ⟨tree, rfl, hrru, ⟨below, hh⟩, rfl⟩
  | cons frame path ih =>
    intro tree below height hfi hrru isBlack hh hph pathRule
    obtain ⟨hsb, hfi⟩ := hfi
    obtain ⟨hsh, hph⟩ := hph
    obtain ⟨_, hsr, pathRule⟩ := pathRule
    by_cases hch : ∀ side, (frame.sibling.child side).rootColor = .black
    · have hgo : frame.color = .black ∧ Fixable path := by
        rcases hfi with (isRed | isRed) | hgo
        · rw [hch] at isRed
          cases isRed
        · rw [hch] at isRed
          cases isRed
        · exact hgo
      obtain ⟨hfb, hfi⟩ := hgo
      rw [hfb] at hph pathRule
      have hnn : frame.sibling ≠ nil := by
        intro isNil
        rw [isNil] at hsh
        exact absurd hsh (succ_ne_zero _)
      rw [fixTree_black isBlack hnn hsb hch]
      obtain ⟨result, hr, hrr, hb, hsl⟩ := ih (join frame.side .black frame.label tree
            (frame.sibling.paint .red)) (below + 1) height hfi
          (redRule_join.mpr ⟨fun isRed => (nomatch isRed), hrru, hsr.paint_red hch⟩)
          rootColor_join (height_join.mpr ⟨below, hh, hsh.paint_red hsb, rfl⟩) hph pathRule
      refine ⟨result, hr, hrr, hb, ?_⟩
      rw [hsl, plug, labels_plug, labels_plug, Frame.fill, hfb]
      cases frame.side <;> simp only [join, labels, labels_paint]
    obtain ⟨side, child⟩ := exists_red_child hch
    rw [fixTree_finish isBlack hsb child]
    obtain ⟨same, _, _, _, hf, hs, hin, ho, hir, hor, hob, hsl⟩ :=
      finishTree_eq hsh hsb hsr child tree
    obtain rfl : below = same := succ.inj hs
    refine ⟨_, rfl, (redRule_plug _ _).mpr ⟨?_, ?_⟩,
      ⟨height, (height_plug _ _ _).mpr ⟨_, ?_, hph⟩⟩, ?_⟩
    · rw [hf]
      refine redRule_join.mpr ⟨fun _ => ⟨rootColor_join, hob⟩,
        redRule_join.mpr ⟨fun isRed => ?_, hrru, hir⟩, hor⟩
      cases isRed
    · rw [hf, rootColor_join]
      exact pathRule
    · rw [hf]
      exact height_join.mpr ⟨below + 1, height_join.mpr ⟨below, hh, hin, rfl⟩, ho, rfl⟩
    · rw [labels_plug, hsl, plug, labels_plug]

variable {result : ColorTree α}

lemma fixTree_cons
    (isBlack : tree.rootColor = .black) (isResult : fixTree (frame :: path) tree = some result) :
    (frame.sibling.rootColor = .red ∧ ∃ turned, tree.turn frame.side = some turned ∧
      fixTree path (join frame.side .black frame.label turned frame.sibling) = some result) ∨
    frame.sibling.rootColor = .black ∧ ((fixTree path (join frame.side .black frame.label tree
          (frame.sibling.paint .red)) = some result ∧ frame.sibling ≠ nil ∧
        ∀ side, (frame.sibling.child side).rootColor = .black) ∨
      ∃ side, (frame.sibling.child side).rootColor = .red ∧
        result = plug path (finishTree frame tree)) := by
  cases hsc : frame.sibling.rootColor with
  | red =>
    rw [fixTree_red isBlack hsc] at isResult
    obtain ⟨turned, ht, isResult⟩ := Option.bind_eq_some_iff.mp isResult
    exact .inl ⟨rfl, turned, ht, isResult⟩
  | black =>
    refine .inr ⟨rfl, ?_⟩
    by_cases hch : ∀ side, (frame.sibling.child side).rootColor = .black
    · have hnn : frame.sibling ≠ nil := by
        intro isNil
        rw [fixTree, isBlack, isNil] at isResult
        cases isResult
      rw [fixTree_black isBlack hnn hsc hch] at isResult
      exact .inl ⟨isResult, hnn, hch⟩
    obtain ⟨side, child⟩ := exists_red_child hch
    rw [fixTree_finish isBlack hsc child] at isResult
    exact .inr ⟨side, child, (Option.some.inj isResult).symm⟩

/-- The trees out of balance that the loop carries up, near the root or too deep
to reach. -/
inductive Off : Nat → ColorTree α → Prop
  | one {side : Side} {label : α} {inner outer : ColorTree α} {height : Nat} :
      inner.Height (height + 1) → inner.rootColor = .black →
      outer.Height height →
      Off (height + 2) (join side .black label inner outer)
  | two {side other : Side} {label top : α}
      {inner outer sibling : ColorTree α} {height total : Nat} :
      inner.Height (height + 1) → outer.Height height →
      sibling.Height (height + 1) → height + 2 ≤ total →
      Off total (join other .black top
        (join side .black label inner outer) sibling)
  | turned {side : Side} {color : Color} {label top : α}
      {inner outer sibling : ColorTree α} {first second third total : Nat} :
      inner.Height first → outer.Height second → first ≠ second →
      sibling.Height third → third ≠ second →
      Off total (join side .black top
        (join side color label inner outer) sibling)
  | deep {tree : ColorTree α} {total : Nat} (side other : Side) :
      ¬ ((tree.child side).child other).Balanced →
      tree.rootColor = .black → Off total tree

lemma not_balanced_join {inner outer : ColorTree α}
    {first second : Nat} (isInner : inner.Height first) (isOuter : outer.Height second)
    (ne : first ≠ second) : ¬ (join side color label inner outer).Balanced := by
  intro hb
  obtain ⟨_, hf, hs⟩ := balanced_join.mp hb
  exact ne ((isInner.unique hf).trans (hs.unique isOuter))

lemma not_balanced_of_child (side : Side) (notBalanced : ¬ (tree.child side).Balanced) :
    ¬ tree.Balanced :=
  fun hb => notBalanced (hb.child side)

section

variable (off : Off total tree)

include off

lemma Off.rootColor : tree.rootColor = .black := by
  cases off with
  | one _ _ _ => exact rootColor_join
  | two _ _ _ _ => exact rootColor_join
  | turned _ _ _ _ _ => exact rootColor_join
  | deep _ _ _ hb => exact hb

lemma Off.child_or :
    (∃ side, ¬ (tree.child side).Balanced) ∨ ∃ side label inner outer height, total = height + 2 ∧
        tree = join side .black label inner outer ∧
        inner.Height (height + 1) ∧ inner.rootColor = .black ∧ outer.Height height := by
  cases off with
  | one hin hb ho => exact .inr ⟨_, _, _, _, _, rfl, rfl, hin, hb, ho⟩
  | @two side other _ _ _ _ _ _ _ hin ho _ _ =>
    refine .inl ⟨other, ?_⟩
    rw [child_join]
    exact not_balanced_join hin ho (succ_ne_self _)
  | @turned side _ _ _ _ _ _ _ _ _ _ hin ho different _ _ =>
    refine .inl ⟨side, ?_⟩
    rw [child_join]
    exact not_balanced_join hin ho different
  | deep _ _ hnb _ => exact .inl ⟨_, not_balanced_of_child _ hnb⟩

lemma Off.not_balanced : ¬ tree.Balanced := by
  rcases off.child_or with
    ⟨side, notBalanced⟩ | ⟨side, label, inner, outer, height, _, rfl, hin, _, isOuter⟩
  · exact not_balanced_of_child _ notBalanced
  · exact not_balanced_join hin isOuter (succ_ne_self _)

end

lemma Off.raise (off : Off (total + 1) tree)
    (isSibling : sibling.Height total) (larger : total + 1 ≤ height) (side : Side) (label : α) :
    Off height (join side .black label tree sibling) := by
  rcases off.child_or with
    ⟨other, notBalanced⟩ | ⟨other, second, inner, outer, below, ht, rfl, hin, _, isOuter⟩
  · refine Off.deep side other ?_ rootColor_join
    rw [child_join]
    exact notBalanced
  obtain rfl : total = below + 1 := succ.inj ht
  exact Off.two hin isOuter isSibling larger

lemma off_of_turned {other : Color} {second top : α} {mid : ColorTree α}
    (notBalanced : ¬ (join side color label near mid).Balanced ∨ ¬ far.Balanced) :
    Off total (join side .black top (join side other second (join side color label near mid) far)
      sibling) := by
  rcases notBalanced with notBalanced | notBalanced
  · refine Off.deep side side ?_ rootColor_join
    rw [child_join, child_join]
    exact notBalanced
  refine Off.deep side side.opposite ?_ rootColor_join
  rw [child_join, child_opposite_join]
  exact notBalanced

variable {turned : ColorTree α}

lemma off_of_turn {third : Nat} (isHeight : tree.Height height)
    (isBlack : tree.rootColor = .black) (isSibling : sibling.Height third) (larger : height ≤ third)
    (isTurned : tree.turn side = some turned) (total : Nat) (top : α) :
    Off total (join side .black top turned sibling) := by
  obtain ⟨_, other, _, _, _, _, _, rfl, rfl⟩ := turn_eq_some isTurned
  rw [rootColor_join] at isBlack
  subst isBlack
  obtain ⟨_, hn, ho, rfl⟩ := height_join.mp isHeight
  obtain ⟨_, isMid, isFar, rfl⟩ := height_join.mp ho
  cases other with
  | black => exact off_of_turned (.inl (not_balanced_join hn isMid (succ_ne_self _)))
  | red =>
    refine Off.turned (height_join.mpr ⟨_, hn, isMid, rfl⟩) isFar (succ_ne_self _) isSibling ?_
    have hw : Color.weight .red = 0 ∧ Color.weight .black = 1 := ⟨rfl, rfl⟩
    omega

/-- A turn does not even the heights. -/
lemma Off.turn (off : Off total tree)
    (isSibling : sibling.Height total) (isTurned : tree.turn side = some turned) (height : Nat)
    (top : α) : Off height (join side .black top turned sibling) := by
  obtain ⟨color, other, label, second, near, mid, far, htr, rfl⟩ := turn_eq_some isTurned
  have hno : ¬ near.Balanced → Off height (join side .black top
        (join side other second (join side color label near mid) far) sibling) := by
    intro hnb
    refine off_of_turned (.inl (not_balanced_of_child side ?_))
    rw [child_join]
    exact hnb
  cases off with
  | @one first root inner outer below hin isBlack ho =>
    by_cases hsi : first = side
    · subst hsi
      obtain ⟨rfl, rfl, rfl, rfl⟩ := join_inj htr
      obtain ⟨lower, isMid, isFar, rfl⟩ := height_join.mp ho
      refine off_of_turned (.inl (not_balanced_join hin isMid ?_))
      omega
    obtain rfl := Side.eq_opposite_of_ne hsi
    rw [join_opposite] at htr
    obtain ⟨rfl, rfl, rfl, rfl⟩ := join_inj htr
    rw [rootColor_join] at isBlack
    subst isBlack
    obtain ⟨lower, isMid, isFar, same⟩ := height_join.mp hin
    obtain rfl : below = lower := succ.inj same
    exact Off.turned (height_join.mpr ⟨_, ho, isMid, rfl⟩) isFar (succ_ne_self _) isSibling
      (by omega)
  | @two first outermost root above inner outer beside below _ hin ho hb hla =>
      by_cases hsi : outermost = side
      · subst hsi
        obtain ⟨rfl, rfl, rfl, rfl⟩ := join_inj htr
        exact hno (not_balanced_join hin ho (succ_ne_self _))
      obtain rfl := Side.eq_opposite_of_ne hsi
      rw [join_opposite] at htr
      obtain ⟨rfl, rfl, rfl, hn⟩ := join_inj htr
      by_cases his : first = side
      · subst his
        obtain ⟨rfl, rfl, rfl, rfl⟩ := join_inj hn
        exact Off.turned (height_join.mpr ⟨_, hb, hin, rfl⟩)
          ho (by have : Color.weight .black = 1 := rfl; omega) isSibling (by omega)
      obtain rfl := Side.eq_opposite_of_ne his
      rw [join_opposite] at hn
      obtain ⟨rfl, rfl, rfl, rfl⟩ := join_inj hn
      exact off_of_turned (.inl (not_balanced_join hb ho (succ_ne_self _)))
  | @turned first middle root above inner outer beside _ _ _ _ hin ho different hb hd =>
      by_cases hsi : first = side
      · subst hsi
        obtain ⟨rfl, rfl, rfl, rfl⟩ := join_inj htr
        exact hno (not_balanced_join hin ho different)
      obtain rfl := Side.eq_opposite_of_ne hsi
      rw [join_opposite] at htr
      obtain ⟨rfl, rfl, rfl, hn⟩ := join_inj htr
      rw [join_opposite] at hn
      obtain ⟨rfl, rfl, rfl, rfl⟩ := join_inj hn
      exact off_of_turned (.inl (not_balanced_join hb ho hd))
  | deep first lower hnb _ =>
    subst htr
    by_cases hsi : first = side
    · subst hsi
      rw [child_join] at hnb
      exact hno (not_balanced_of_child _ hnb)
    obtain rfl := Side.eq_opposite_of_ne hsi
    rw [child_opposite_join] at hnb
    by_cases hl : lower = side
    · subst hl
      rw [child_join] at hnb
      refine off_of_turned (.inl (not_balanced_of_child lower.opposite ?_))
      rw [child_opposite_join]
      exact hnb
    obtain rfl := Side.eq_opposite_of_ne hl
    rw [child_opposite_join] at hnb
    exact off_of_turned (.inr hnb)

lemma exists_height_succ (isHeight : tree.Height height)
    (notNil : tree ≠ nil) (isBlack : tree.rootColor = .black) : ∃ below, height = below + 1 := by
  cases tree with
  | nil => exact absurd rfl notNil
  | node color _ _ _ =>
    obtain rfl : color = .black := isBlack
    obtain ⟨below, _, _, rfl⟩ := isHeight
    exact ⟨below, rfl⟩

lemma finishTree_not_balanced
    (isSibling : frame.sibling.Height height) (siblingBlack : frame.sibling.rootColor = .black)
    (redRule : frame.sibling.RedRule) (child : (frame.sibling.child side).rootColor = .red)
    (notLower : ∀ below, tree.Height below → height ≠ below + 1) :
    ¬ (finishTree frame tree).Balanced := by
  obtain ⟨below, _, _, _, hf, hsa, hin, _⟩ := finishTree_eq isSibling siblingBlack redRule child
    tree
  rw [hf]
  refine not_balanced_of_child frame.side ?_
  rw [child_join]
  intro hb
  obtain ⟨_, ht, ho⟩ := balanced_join.mp hb
  obtain rfl := hin.unique ho
  exact notLower below ht hsa

lemma fixTree_off (path : List (Frame α)) :
    ∀ (tree result : ColorTree α) (total height : Nat) (color : Color),
      Off total tree → PathHeight path total height →
      PathRedRule path color → fixTree path tree = some result → ¬ result.Balanced := by
  induction path with
  | nil =>
    intro tree result total height color off _ _ hr
    obtain rfl : tree = result := Option.some.inj hr
    exact off.not_balanced
  | cons _ path ih =>
    intro tree result total height color off hph hpr hr
    obtain ⟨hsh, hph⟩ := hph
    obtain ⟨_, hsr, hpr⟩ := hpr
    rcases fixTree_cons off.rootColor hr with
      ⟨isRed, turned, ht, hr⟩ | ⟨hsb, ⟨hr, hnn, _⟩ | ⟨side, child, rfl⟩⟩
    · exact ih _ _ _ _ _ (off.turn hsh ht _ _) hph hpr hr
    · obtain ⟨below, rfl⟩ := exists_height_succ hsh hnn hsb
      exact ih _ _ _ _ _ (off.raise (hsh.paint_red hsb) (le_add_right _ _) _ _) hph hpr hr
    intro hb
    refine finishTree_not_balanced hsh hsb hsr child ?_ (Balanced.of_plug hb)
    intro below hbe
    exact absurd ⟨below, hbe⟩ off.not_balanced

lemma fixTree_even {below : Nat} (isHeight : tree.Height (below + 1))
    (isBlack : tree.rootColor = .black)
    (frameBlack : frame.color = .black) (pathHeight : PathHeight (frame :: path) (below + 1) height)
    (pathRule : PathRedRule (frame :: path) color)
    (isResult : fixTree (frame :: path) tree = some result) :
    ¬ result.Balanced := by
  obtain ⟨hsh, pathHeight⟩ := pathHeight
  obtain ⟨_, hsr, pathRule⟩ := pathRule
  rcases fixTree_cons isBlack isResult with
    ⟨isRed, turned, ht, isResult⟩ | ⟨hsb, ⟨isResult, _, _⟩ | ⟨side, child, rfl⟩⟩
  · exact fixTree_off path _ _ _ _ _ (off_of_turn isHeight isBlack hsh (Nat.le_refl _) ht _ _)
      pathHeight pathRule isResult
  · rw [frameBlack] at pathHeight
    exact fixTree_off path _ _ _ _ _ (Off.one isHeight isBlack (hsh.paint_red hsb)) pathHeight
      pathRule isResult
  intro hba
  refine finishTree_not_balanced hsh hsb hsr child ?_ (Balanced.of_plug hba)
  intro same hs
  rw [isHeight.unique hs]
  exact (succ_ne_self same).symm

lemma fixTree_not_fixable (path : List (Frame α)) :
    ∀ (tree result : ColorTree α) (below height : Nat), ¬ Fixable path →
      tree.rootColor = .black → tree.Height below →
      PathHeight path (below + 1) height → PathRedRule path .black →
      (∀ frame, path.getLast? = some frame → frame.color = .black) →
      fixTree path tree = some result → ¬ result.Balanced := by
  induction path with
  | nil =>
    intro tree result below height hnf
    exact absurd trivial hnf
  | cons frame path ih =>
    intro tree result below height hnf hb hh hph pathRule hlb hr
    obtain ⟨hsh, hph⟩ := hph
    obtain ⟨_, _, pathRule⟩ := pathRule
    rcases fixTree_cons hb hr with
      ⟨isRed, turned, ht, hr⟩ | ⟨hsb, ⟨hr, hnn, children⟩ | ⟨side, child, rfl⟩⟩
    · exact fixTree_off path _ _ _ _ _ (off_of_turn hh hb hsh (le_succ _) ht _ _) hph pathRule hr
    · have hra : (join frame.side .black frame.label tree
          (frame.sibling.paint .red)).Height (below + 1) := height_join.mpr ⟨below, hh,
          hsh.paint_red hsb, rfl⟩
      cases hfc : frame.color with
      | black =>
        rw [hfc] at hph pathRule
        refine ih _ _ _ _ ?_ rootColor_join hra hph pathRule ?_ hr
        · intro hf
          exact hnf ⟨hsb, .inr ⟨hfc, hf⟩⟩
        intro last hl
        refine hlb last ?_
        rw [List.getLast?_cons, hl]
        rfl
      | red =>
        rw [hfc] at hph pathRule
        cases path with
        | nil =>
          have hb := hlb frame rfl
          rw [hfc] at hb
          cases hb
        | cons above path =>
          have hab : above.color = .black := by
            cases hc : above.color with
            | black => rfl
            | red => cases (pathRule.1 hc).1
          exact fixTree_even hra rootColor_join hab hph pathRule hr
    refine absurd ⟨hsb, .inl ?_⟩ hnf
    cases side with
    | left => exact .inl child
    | right => exact .inr child

end OoOS.Libk
