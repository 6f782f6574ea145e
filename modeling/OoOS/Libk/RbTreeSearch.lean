import OoOS.Libk.RbTreeInsert

/-!
# Searching for the place of a new node

A search ends at a hole.  The values in front of it are not behind the value
that is searched for, the values behind it are.
-/

namespace OoOS.Libk

open Lib.RedBlack Lib.RedBlack.ColorTree List

universe u

namespace TreeStore

variable {T : Type u} {store : TreeStore T} {lt : T → T → Bool} {u : T}
  {path : List (Frame Nat)} {tree : ColorTree Nat}

/-- The side of its parent that a hole is on; the trunk has it on the left. -/
def holeSide : List (Frame Nat) → Side
  | [] => .left
  | frame :: _ => frame.side

def Follows (lt : T → T → Bool) (store : TreeStore T) (u : T)
    (path : List (Frame Nat)) : Prop :=
  ∀ frame ∈ path, frame.side = if lt u (store.value frame.label) then .left else .right

/-- The loop goes down to the gap. -/
lemma posLoop_eq (tree : ColorTree Nat) :
    ∀ (path : List (Frame Nat)) (fuel : Nat), store.Hangs path tree → Follows lt store u path →
      tree.labels.length ≤ fuel → ∃ longer, plug longer nil = plug path tree ∧
        Follows lt store u longer ∧ posLoop lt store u fuel (rootLink tree) (holeParent path)
            (decide (holeSide path = .left)) =
          some (holeParent longer, decide (holeSide longer = .left)) := by
  induction tree with
  | nil =>
    intro path fuel _ hf _
    refine ⟨path, rfl, hf, ?_⟩
    rw [rootLink, posLoop]
  | node color left id right hlh hrh =>
    intro path fuel hangs hf he
    obtain ⟨_, _, hl, hr, _, _⟩ := hangs.below
    rw [labels, length_append, length_cons] at he
    obtain ⟨fuel, rfl⟩ : ∃ less, fuel = less + 1 := ⟨fuel - 1, by omega⟩
    cases comp : lt u (store.value id) with
    | true =>
      have inner : store.Hangs (⟨.left, color, id, right⟩ :: path) left := hangs_cons.mpr hangs
      have hfi : Follows lt store u (⟨.left, color, id, right⟩ :: path) :=
        forall_mem_cons.mpr ⟨by simp [comp], hf⟩
      obtain ⟨longer, hp, hfl, found⟩ := hlh _ fuel inner hfi (by omega)
      refine ⟨longer, hp, hfl, ?_⟩
      rw [← found, rootLink, posLoop, comp, if_pos rfl, hl]
      rfl
    | false =>
      have inner : store.Hangs (⟨.right, color, id, left⟩ :: path) right := hangs_cons.mpr hangs
      have hfi : Follows lt store u (⟨.right, color, id, left⟩ :: path) :=
        forall_mem_cons.mpr ⟨by simp [comp], hf⟩
      obtain ⟨longer, hp, hfl, found⟩ := hrh _ fuel inner hfi (by omega)
      refine ⟨longer, hp, hfl, ?_⟩
      rw [← found, rootLink, posLoop, comp, if_neg Bool.false_ne_true, hr]
      rfl

/-- The step at a red node is one to a black one. -/
lemma Shape.isSome_posLoop {parent y : TreeLink} {comp : Bool} {height fuel : Nat}
    (shape : store.Shape tree parent) (redRule : tree.RedRule) (isHeight : tree.Height height)
    (enough : 2 * height + 1 ≤ fuel + tree.rootColor.weight) :
    (posLoop lt store u fuel (rootLink tree) y comp).isSome := by
  induction tree generalizing parent y comp height fuel with
  | nil =>
    rw [rootLink, posLoop]
    rfl
  | node color left id right hlh hrh =>
    obtain ⟨_, _, hl, hri, hsl, hsr⟩ := shape
    obtain ⟨hcr, hrl, hrr⟩ := redRule
    obtain ⟨below, hbl, hbr, rfl⟩ := isHeight
    change 2 * (below + color.weight) + 1 ≤ fuel + color.weight at enough
    obtain ⟨fuel, rfl⟩ : ∃ less, fuel = less + 1 := ⟨fuel - 1, by omega⟩
    have hw : 1 ≤ color.weight + left.rootColor.weight ∧
        1 ≤ color.weight + right.rootColor.weight := by
      cases color with
      | red =>
        rw [(hcr rfl).1, (hcr rfl).2]
        decide
      | black => exact ⟨Nat.le_add_right 1 _, Nat.le_add_right 1 _⟩
    rw [rootLink, posLoop]
    cases lt u (store.value id) with
    | true =>
      rw [if_pos rfl, hl]
      exact hlh hsl hrl hbl (by omega)
    | false =>
      rw [if_neg Bool.false_ne_true, hri]
      exact hrh hsr hrr hbr (by omega)

variable [order : IsStrictOrder T fun left right => lt left right = true]

/-- The gap separates the smaller values from the others. -/
lemma Follows.values (follows : Follows lt store u path)
    (sorted : (labelsBefore path ++ labelsAfter path).Pairwise
      fun left right => lt (store.value left) (store.value right) = true) :
    (∀ id ∈ labelsBefore path, lt u (store.value id) = false) ∧
      ∀ id ∈ labelsAfter path, lt u (store.value id) = true := by
  induction path with
  | nil =>
    constructor
    · intro id mem
      cases mem
    intro id mem
    cases mem
  | cons frame path ih =>
    have here := follows frame mem_cons_self
    have hfr : Follows lt store u path := (forall_mem_cons.mp follows).2
    rw [labelsBefore, labelsAfter] at sorted ⊢
    cases hsi : frame.side with
    | left =>
      rw [hsi] at sorted here
      have hb : lt u (store.value frame.label) = true := by
        cases comp : lt u (store.value frame.label) with
        | true => rfl
        | false =>
          rw [comp] at here
          cases here
      have parts := pairwise_append.mp sorted
      have hbe := pairwise_cons.mp parts.2.1
      have hs : (labelsBefore path ++ labelsAfter path).Sublist
          (labelsBefore path ++ (frame.label :: (frame.sibling.labels ++ labelsAfter path))) :=
        ((sublist_append_right _ _).cons _).append_left _
      obtain ⟨hnb, ha⟩ := ih hfr (sorted.sublist hs)
      refine ⟨hnb, ?_⟩
      intro id mem
      rcases mem_cons.mp mem with rfl | mem
      · exact hb
      · exact order.trans _ _ _ hb (hbe.1 id mem)
    | right =>
      rw [hsi] at sorted here
      have hnh : lt u (store.value frame.label) = false := by
        cases comp : lt u (store.value frame.label) with
        | true =>
          rw [comp] at here
          cases here
        | false => rfl
      have front := (pairwise_append.mp sorted).1
      have parts := pairwise_append.mp front
      have hsib := pairwise_append.mp parts.2.1
      have hs : (labelsBefore path ++ labelsAfter path).Sublist
          (labelsBefore path ++ (frame.sibling.labels ++ [frame.label]) ++ labelsAfter path) :=
        (sublist_append_left _ _).append_right _
      obtain ⟨hnb, ha⟩ := ih hfr (sorted.sublist hs)
      refine ⟨?_, ha⟩
      intro id mem
      rcases mem_append.mp mem with mem | mem
      · exact hnb id mem
      rcases mem_append.mp mem with mem | mem
      · by_contra hb
        rw [Bool.not_eq_false] at hb
        have hfu := order.trans _ _ _ hb (hsib.2.2 id mem _ mem_cons_self)
        rw [hnh] at hfu
        cases hfu
      obtain rfl := mem_singleton.mp mem
      exact hnh

lemma before_of_last {last : Nat} (sorted : (labelsBefore path).Pairwise
      fun left right => lt (store.value left) (store.value right) = true)
    (isLast : (labelsBefore path).getLast? = some last) (isBefore : lt (store.value last) u = true)
    : ∀ id ∈ labelsBefore path, lt (store.value id) u = true := by
  obtain ⟨_, hf⟩ := getLast?_eq_some_iff.mp isLast
  rw [hf] at sorted ⊢
  intro id mem
  rcases mem_append.mp mem with mem | mem
  · exact order.trans _ _ _ ((pairwise_append.mp sorted).2.2 id mem last mem_cons_self) isBefore
  obtain rfl := mem_singleton.mp mem
  exact isBefore

/-- The way up leads to the node before the gap. -/
lemma ascend_eq (path : List (Frame Nat)) :
    ∀ (x fuel last : Nat), store.PathShape path (some (.node x)) →
      store.parent (.node x) = some (holeParent path) →
      x ∉ frameLabels path → (frameLabels path).Nodup → (labelsBefore path).getLast? = some last →
      path.length ≤ fuel → (store.ascend .left fuel (.node x)).map Prod.snd =
        some (.node last) := by
  induction path with
  | nil =>
    intro x fuel last _ _ _ _ hl _
    cases hl
  | cons frame path ih =>
    intro x fuel last shape hp notIn nodup hl he
    obtain ⟨_, hpa, hli, hs, _, above⟩ := shape
    obtain ⟨fuel, rfl⟩ : ∃ less, fuel = less + 1 :=
      ⟨fuel - 1, by simp only [length_cons] at he; omega⟩
    have ha : store.parent (.node x) = some (.node frame.label) := hp
    rw [frameLabels, nodup_cons] at nodup
    rw [ascend]
    simp only [ha]
    rw [labelsBefore] at hl
    cases hsi : frame.side with
    | left =>
      rw [hsi] at hli hl
      rw [if_pos hli]
      refine ih frame.label fuel last above hpa ?_ (nodup_append.mp nodup.2).2.1 hl ?_
      · exact fun mem => nodup.1 (mem_append_right _ mem)
      simp only [length_cons] at he
      omega
    | right =>
      rw [hsi] at hs hl
      rw [Side.opposite] at hs
      have hns : rootLink frame.sibling ≠ some (.node x) := by
        intro hr
        exact notIn (mem_cons_of_mem _ (mem_append_left _ (rootLink_mem hr)))
      rw [hs, if_neg hns, Option.map_some]
      rw [← append_assoc, getLast?_concat] at hl
      rw [Option.some.inj hl]

lemma decrementNode_eq {frame : Frame Nat} {last : Nat} (hangs : store.Hangs (frame :: path) nil)
    (isLeft : frame.side = .left) (rootBlack : path = [] → frame.color = .black)
    (isLast : (labelsBefore path).getLast? = some last) (enough : path.length ≤ store.nodeCt + 1) :
    store.decrementNode (.node frame.label) = some (.node last) := by
  obtain ⟨hc, hp, hli, _, _, above⟩ := hangs.above
  have nodup := hangs.nodup
  rw [labels, nil_append, frameLabels, nodup_cons] at nodup
  have notIn : frame.label ∉ frameLabels path := fun mem => nodup.1 (mem_append_right _ mem)
  have hnt : ¬ (store.color (.node frame.label) = .red ∧
      (store.parent (.node frame.label)).bind store.parent = some (.node frame.label)) := by
    rintro ⟨isRed, hhe⟩
    rw [hp, Option.bind_some] at hhe
    cases path with
    | nil =>
      rw [hc, rootBlack rfl] at isRed
      cases isRed
    | cons next rest =>
      have ha : store.parent (.node next.label) = some (holeParent rest) := above.2.1
      rw [holeParent, ha] at hhe
      apply holeParent_ne _ (Option.some.inj hhe)
      intro mem
      exact notIn (mem_cons_of_mem _ (mem_append_right _ mem))
  have hn : store.next (.node frame.label) .left = none := by
    rw [isLeft] at hli
    exact hli
  rw [decrementNode, if_neg, if_neg hnt]
  · simp only [hn]
    exact ascend_eq path frame.label _ last above hp notIn (nodup_append.mp nodup.2).2.1 isLast
      enough
  rw [hp]
  rintro ⟨_, hn⟩
  cases hn

end TreeStore

end OoOS.Libk
