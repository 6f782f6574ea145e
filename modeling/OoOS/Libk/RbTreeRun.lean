import Mathlib.Data.List.Perm.Subperm
import OoOS.Libk.RbTreeSearch

/-!
# Runs of insertions

Every unique insertion keeps a red-black tree with the links of the trunk to
its root, its first and its last node.
-/

namespace OoOS.Libk

open Lib.RedBlack Lib.RedBlack.ColorTree List TreeStore Function

universe u

namespace TreeStore

variable {T : Type u} {store : TreeStore T} {lt : T → T → Bool} {u : T}
  {path : List (Frame Nat)} {tree : ColorTree Nat}

def firstLink (ids : List Nat) : TreeLink := (ids.head?.map TreeLink.node).getD .trunk

def lastLink (ids : List Nat) : TreeLink := (ids.getLast?.map TreeLink.node).getD .trunk

structure RedBlackTree (store : TreeStore T) (tree : ColorTree Nat) : Prop where
  hangs : store.Hangs [] tree
  rootBlack : tree.rootColor = .black
  redRule : tree.RedRule
  height : ∃ height, tree.Height height
  leftmost : store.next .trunk .left = some (firstLink tree.labels)
  rightmost : store.next .trunk .right = some (lastLink tree.labels)
  count : store.count = tree.labels.length
  allocated : ∀ id ∈ tree.labels, id < store.nodeCt

structure Valid (lt : T → T → Bool) (store : TreeStore T)
    (tree : ColorTree Nat) : Prop extends store.RedBlackTree tree where
  sorted : tree.labels.Pairwise
    fun left right => lt (store.value left) (store.value right) = true

lemma firstLink_append (left right : List Nat) :
    firstLink (left ++ right) = if left = [] then firstLink right else firstLink left := by
  cases left <;> rfl

lemma lastLink_append (left right : List Nat) :
    lastLink (left ++ right) = if right = [] then lastLink left else lastLink right := by
  cases right with
  | nil => simp
  | cons _ _ => simp [lastLink, getLast?_append, getLast?_cons]

variable {ids : List Nat} {id : Nat}

lemma firstLink_eq_node (isFirst : firstLink ids = .node id) : id ∈ ids := by
  cases ids with
  | nil => cases isFirst
  | cons _ _ =>
    cases isFirst
    exact mem_cons_self

lemma lastLink_eq_node (isLast : lastLink ids = .node id) : id ∈ ids := by
  rw [lastLink] at isLast
  cases hs : ids.getLast? with
  | none =>
    rw [hs] at isLast
    cases isLast
  | some _ =>
    rw [hs] at isLast
    cases isLast
    exact mem_of_getLast? hs

lemma linkNode_node (store : TreeStore T) (dir : Side) (l p : Nat) :
    store.linkNode dir (.node l) (.node p) =
      (((((store.setParent (.node l) (some (.node p))).setNext (.node l) .left
        none).setNext (.node l) .right none).setColor (.node l)
          .red).setNext (.node p) dir (some (.node l))).setNext .trunk dir
            (if store.next .trunk dir = some (.node p) then some (.node l)
              else store.next .trunk dir) := by
  have hu : ∀ link : TreeStore T, link.setNext .trunk dir (link.next .trunk dir) = link := by
    simp [setNext]
  rw [linkNode]
  simp only [reduceCtorEq, if_false]
  split
  · rename_i isLink
    simp only [next_setNext, next_setColor, next_setParent, reduceCtorEq,
      false_and, if_false] at isLink
    rw [if_pos isLink]
  rename_i notLink
  simp only [next_setNext, next_setColor, next_setParent, reduceCtorEq,
    false_and, if_false] at notLink
  rw [if_neg notLink]
  have kept := hu (((((store.setParent (.node l)
    (some (.node p))).setNext (.node l) .left none).setNext (.node l)
      .right none).setColor (.node l) .red).setNext (.node p) dir (some (.node l)))
  exact kept.symm

variable {l : Nat}

lemma Hangs.linkNode (hangs : store.Hangs path nil) (notIn : l ∉ frameLabels path) :
    (store.linkNode (holeSide path) (.node l) (holeParent path)).Hangs path
      (node .red nil l nil) := by
  obtain ⟨above, _, nodup⟩ := hangs
  have hd := nodup_cons.mpr ⟨notIn, nodup⟩
  cases path with
  | nil =>
    refine ⟨?_, ?_, hd⟩
    · simp [PathShape, root, linkNode, holeParent, rootLink]
    · simp [Shape, linkNode, holeParent, rootLink]
  | cons frame path =>
    obtain ⟨hc, hp, _, hs, hsi, above⟩ := above
    rw [frameLabels, mem_cons, not_or] at notIn
    rw [labels, nil_append, frameLabels, nodup_cons] at nodup
    have hnh := Ne.symm notIn.1
    have agree : store.Agree (store.linkNode frame.side (.node l)
        (.node frame.label)) (frame.sibling.labels ++ frameLabels path) := by
      have other : ∀ id ∈ frame.sibling.labels ++ frameLabels path, id ≠ l ∧ id ≠ frame.label := by
        intro id mem
        constructor
        · rintro rfl
          exact notIn.2 mem
        rintro rfl
        exact nodup.1 mem
      rw [linkNode_node]
      refine ⟨?_, ?_, ?_⟩
      · intro id mem
        simp [(other id mem).1]
      · intro id mem
        funext side
        simp [(other id mem).1, (other id mem).2]
      intro id mem
      simp [(other id mem).1]
    refine ⟨⟨?_, ?_, ?_, ?_, ?_, ?_⟩, ?_, hd⟩
    · simp [holeSide, holeParent, linkNode_node, hnh, hc]
    · simp [holeSide, holeParent, linkNode_node, hnh, hp]
    · simp [holeSide, holeParent, linkNode_node, rootLink]
    · simp [holeSide, holeParent, linkNode_node, hnh, frame.side.opposite_ne, hs]
    · exact hsi.congr (agree.subset fun id mem => mem_append_left _ mem)
    · refine above.congr (agree.subset fun id mem => mem_append_right _ mem) ?_
      simp [holeSide, holeParent, linkNode_node, root]
    · simp [Shape, holeSide, holeParent, linkNode_node, rootLink, notIn.1]

/-- The trunk keeps the first and the last node. -/
lemma linkNode_trunk (nodup : (labelsBefore path ++ labelsAfter path).Nodup)
    (leftmost : store.next .trunk .left = some (firstLink (labelsBefore path ++ labelsAfter path)))
    (rightmost : store.next .trunk .right =
      some (lastLink (labelsBefore path ++ labelsAfter path))) :
    (store.linkNode (holeSide path) (.node l) (holeParent path)).next .trunk
        .left = some (firstLink (labelsBefore path ++ l :: labelsAfter path)) ∧
    (store.linkNode (holeSide path) (.node l) (holeParent path)).next .trunk
        .right = some (lastLink (labelsBefore path ++ l :: labelsAfter path)) := by
  cases path with
  | nil => simp [linkNode, holeParent, labelsBefore, labelsAfter, firstLink, lastLink]
  | cons frame path =>
    rw [holeSide, holeParent, linkNode_node]
    rw [labelsBefore, labelsAfter] at nodup leftmost rightmost ⊢
    cases hs : frame.side with
    | left =>
      rw [hs] at nodup leftmost rightmost
      rw [firstLink_append] at leftmost ⊢
      rw [lastLink_append, if_neg (cons_ne_nil _ _)] at rightmost ⊢
      constructor
      · simp only [next_setNext, and_self, if_true, leftmost]
        by_cases isNil : labelsBefore path = []
        · simp [isNil, firstLink]
        have hnh : firstLink (labelsBefore path) ≠ .node frame.label := by
          intro same
          have mem := firstLink_eq_node same
          exact (nodup_append.mp nodup).2.2 _ mem _ mem_cons_self rfl
        simp [isNil, hnh]
      have last : lastLink (l :: frame.label :: (frame.sibling.labels ++ labelsAfter path)) =
          lastLink (frame.label :: (frame.sibling.labels ++ labelsAfter path)) :=
        lastLink_append [l] (frame.label :: (frame.sibling.labels ++ labelsAfter path))
      simp [rightmost, last]
    | right =>
      rw [hs] at nodup leftmost rightmost
      have hnn : labelsBefore path ++ (frame.sibling.labels ++ [frame.label]) ≠ [] := by simp
      rw [firstLink_append, if_neg hnn] at leftmost ⊢
      rw [lastLink_append] at rightmost ⊢
      constructor
      · simp [leftmost]
      simp only [next_setNext, and_self, if_true, rightmost]
      by_cases isNil : labelsAfter path = []
      · simp [isNil, lastLink]
      have hnh : lastLink (labelsAfter path) ≠ .node frame.label := by
        intro same
        have mem := lastLink_eq_node same
        refine (nodup_append.mp nodup).2.2 frame.label ?_ _ mem rfl
        simp
      have last : lastLink (l :: labelsAfter path) = lastLink (labelsAfter path) := by
        rw [← singleton_append, lastLink_append, if_neg isNil]
      simp [isNil, hnh, last]

lemma linkNode_rest (store : TreeStore T) (dir : Side) (x p : TreeLink) :
    (store.linkNode dir x p).value = store.value ∧ (store.linkNode dir x p).count = store.count ∧
    (store.linkNode dir x p).nodeCt = store.nodeCt := by
  rw [linkNode]
  split
  · exact ⟨rfl, rfl, rfl⟩
  dsimp only
  split <;> exact ⟨rfl, rfl, rfl⟩

lemma Settled.blackenRoot {height : Nat} (settled : store.Settled tree ids height)
    (notNil : ids ≠ []) :
    ∃ after, store.blackenRoot = some after ∧
      after.Hangs [] (tree.paint .black) ∧ store.SameRest after := by
  cases tree with
  | nil => exact absurd settled.labels.symm notNil
  | node color left label right =>
    have hr := settled.hangs.above
    have hangs : store.Hangs [] (join .left color label left right) := settled.hangs
    have hp := hangs.paint .black
    refine ⟨store.setColor (.node label) .black, ?_, hp, store.sameRest_setColor _ _⟩
    rw [blackenRoot, hr]
    rfl

section

variable (valid : store.RedBlackTree tree)

include valid

lemma RedBlackTree.length_le : tree.labels.length ≤ store.nodeCt := by
  have nodup := (nodup_append.mp valid.hangs.nodup).1
  have hir : tree.labels ⊆ range store.nodeCt := fun id mem =>
    mem_range.mpr (valid.allocated id mem)
  have hb := (subperm_of_subset nodup hir).length_le
  rwa [length_range] at hb

lemma RedBlackTree.length_path_le (isPlug : plug path nil = tree) : path.length ≤ store.nodeCt := by
  have perm := perm_labels_plug path (nil : ColorTree Nat)
  rw [isPlug, labels, nil_append] at perm
  calc path.length ≤ (frameLabels path).length := length_le_frameLabels path
    _ = tree.labels.length := perm.length_eq.symm
    _ ≤ store.nodeCt := valid.length_le

/-- A node hung into a gap gives a red-black tree. -/
lemma RedBlackTree.insertAndRebalance (isPlug : plug path nil = tree) (notIn : l ∉ tree.labels) :
    ∃ after result, store.insertAndRebalance (holeSide path) (.node l) (holeParent path) =
        some after ∧ after.Hangs [] result ∧ result.rootColor = .black ∧
      result.RedRule ∧ (∃ height, result.Height height) ∧
      result.labels = labelsBefore path ++ l :: labelsAfter path ∧
      after.next .trunk .left = some (firstLink result.labels) ∧
      after.next .trunk .right = some (lastLink result.labels) ∧
      after.value = store.value ∧ after.count = store.count ∧ after.nodeCt = store.nodeCt := by
  have hl : tree.labels = labelsBefore path ++ labelsAfter path := by
    rw [← isPlug, labels_plug]
    rfl
  have hangs : store.Hangs path nil := by
    rw [hangs_plug, isPlug]
    exact valid.hangs
  have perm := perm_labels_plug path (nil : ColorTree Nat)
  rw [isPlug, labels, nil_append] at perm
  have hnip : l ∉ frameLabels path := fun mem => notIn (perm.symm.subset mem)
  have nodup := (nodup_append.mp valid.hangs.nodup).1
  rw [hl] at nodup
  obtain ⟨height, hh⟩ := valid.height
  have hrr := valid.redRule
  have hle := valid.leftmost
  have hr := valid.rightmost
  rw [hl] at hle hr
  rw [← isPlug] at hh hrr
  obtain ⟨first, last⟩ := linkNode_trunk (l := l) nodup hle hr
  have hri : (store.linkNode (holeSide path) (.node l)
      (holeParent path)).Rising path (node .red nil l nil) l height := by
    refine ⟨hangs.linkNode hnip, rfl, rfl, ?_, ((redRule_plug path nil).mp hrr).2, ?_, ?_⟩
    · exact ⟨fun _ => ⟨rfl, rfl⟩, trivial, trivial⟩
    · intro frame hla
      rw [← rootColor_plug path nil frame hla, isPlug]
      exact valid.rootBlack
    rw [height_plug] at hh ⊢
    obtain ⟨below, hb, hph⟩ := hh
    exact ⟨below, ⟨0, rfl, rfl, hb⟩, hph⟩
  obtain ⟨_, settledTree, done, hs, rest⟩ :=
    Rising.rebalanceLoop (store.nodeCt + 1) _ path _ l height hri
      (Nat.lt_succ_of_le (valid.length_path_le isPlug))
  have hrl : settledTree.labels = labelsBefore path ++ l :: labelsAfter path := by
    rw [hs.labels, labels_plug]
    rfl
  obtain ⟨after, ha, hpa, hpr⟩ := hs.blackenRoot (by
    rw [← hs.labels, hrl]
    simp)
  obtain ⟨value, count, nodeCt⟩ := store.linkNode_rest (holeSide path) (.node l) (holeParent path)
  have har := rest.trans hpr
  obtain ⟨other, hoh⟩ := hs.height.paint .black
  refine ⟨after, settledTree.paint .black, ?_, hpa, ?_,
    hs.redRule.paint_black, ⟨other, hoh⟩, ?_, ?_, ?_,
    har.value.trans value, har.count.trans count, har.nodeCt.trans nodeCt⟩
  · rw [TreeStore.insertAndRebalance, done]
    exact ha
  · cases settledTree <;> rfl
  · rw [labels_paint, hrl]
  · rw [labels_paint, hrl, har.trunkNext, first]
  · rw [labels_paint, hrl, har.trunkNext, last]

end

/-- A value belongs at a hole: it is behind what is in front of the hole. -/
structure Belongs (lt : T → T → Bool) (store : TreeStore T)
    (tree : ColorTree Nat) (u : T) (path : List (Frame Nat)) : Prop where
  isPlug : plug path nil = tree
  follows : Follows lt store u path
  before : ∀ id ∈ labelsBefore path, lt (store.value id) u = true

def Equivalent (lt : T → T → Bool) (store : TreeStore T)
    (tree : ColorTree Nat) (u : T) (id : Nat) : Prop :=
  id ∈ tree.labels ∧ lt (store.value id) u = false ∧ lt u (store.value id) = false

lemma Valid.pairwise (valid : Valid lt store tree) (isPlug : plug path nil = tree) :
    (labelsBefore path ++ labelsAfter path).Pairwise
      fun left right => lt (store.value left) (store.value right) = true := by
  have hs := valid.sorted
  rw [← isPlug, labels_plug] at hs
  exact hs

lemma Valid.exists_follows (valid : Valid lt store tree) (u : T) :
    ∃ path, plug path nil = tree ∧ Follows lt store u path ∧
      posLoop lt store u (store.nodeCt + 1) (rootLink tree) .trunk true =
        some (holeParent path, decide (holeSide path = .left)) :=
  posLoop_eq tree [] (store.nodeCt + 1) valid.hangs
    (fun _ mem => absurd mem not_mem_nil)
    (Nat.le_succ_of_le valid.length_le)

lemma Follows.insertNode_eq (follows : Follows lt store (store.value l) path) :
    insertNode lt store (holeParent path) l = (store.insertAndRebalance (holeSide path) (.node l)
        (holeParent path)).map fun inserted =>
          { inserted with count := inserted.count + 1 } := by
  cases path with
  | nil => rfl
  | cons frame path =>
    rw [holeSide, follows frame mem_cons_self]
    rfl

lemma Valid.constructNode (valid : Valid lt store tree) (u : T) :
    Valid lt (store.constructNode u).2 tree := by
  have other : ∀ id ∈ tree.labels, id ≠ store.nodeCt := fun id mem =>
    Nat.ne_of_lt (valid.allocated id mem)
  have hh : (store.constructNode u).2.Hangs [] tree := by
    refine valid.hangs.congr ⟨?_, fun _ _ => rfl, fun _ _ => rfl⟩ rfl
    intro id mem
    rw [frameLabels, append_nil] at mem
    refine update_of_ne ?_ _ _
    intro same
    cases same
    exact other _ mem rfl
  refine ⟨{ valid with hangs := hh, allocated := ?_ }, ?_⟩
  · intro id mem
    exact Nat.lt_succ_of_lt (valid.allocated id mem)
  refine valid.sorted.imp_of_mem ?_
  intro left right hil hir before
  have hsl : (store.constructNode u).2.value left =
      store.value left := update_of_ne (other left hil) _ _
  have hsr : (store.constructNode u).2.value right =
      store.value right := update_of_ne (other right hir) _ _
  rw [hsl, hsr]
  exact before

lemma constructNode_values (valid : Valid lt store tree) (u : T)
    (mem : id ∈ tree.labels) : (store.constructNode u).2.value id = store.value id :=
  update_of_ne (Nat.ne_of_lt (valid.allocated id mem)) _ _

lemma Belongs.constructNode (valid : Valid lt store tree) (belongs : Belongs lt store tree u path)
    : Belongs lt (store.constructNode u).2 tree u path := by
  have perm := perm_labels_plug path (nil : ColorTree Nat)
  rw [belongs.isPlug, labels, nil_append] at perm
  have hif : ∀ id ∈ frameLabels path, (store.constructNode u).2.value id = store.value id :=
    fun id mem => constructNode_values valid u (perm.symm.subset mem)
  refine ⟨belongs.isPlug, ?_, ?_⟩
  · intro frame mem
    rw [hif frame.label (label_mem_frameLabels mem)]
    exact belongs.follows frame mem
  intro id mem
  rw [hif id ((perm_frameLabels path).subset (mem_append_left _ mem))]
  exact belongs.before id mem

inductive Insertion (T : Type u) where
  | insertUnique (u : T)
  | emplaceUnique (u : T)

def Insertion.key : Insertion T → T
  | insertUnique u => u
  | emplaceUnique u => u

def insertOne (lt : T → T → Bool) (store : TreeStore T) : Insertion T → Option (TreeStore T)
  | .insertUnique u => (insertUnique lt store u).map Prod.snd
  | .emplaceUnique u => (emplaceUnique lt store u).map Prod.snd

def keysAfter (lt : T → T → Bool) (keys : List T) (u : T) : List T :=
  if keys.any fun key => !lt key u && !lt u key then keys else u :: keys

lemma keysAfter_of_equivalent (equivalent : Equivalent lt store tree u id) :
    keysAfter lt (tree.labels.map store.value) u = tree.labels.map store.value := by
  rw [keysAfter, if_pos]
  rw [any_map, any_eq_true]
  exact ⟨id, equivalent.1, by simp [equivalent.2.1, equivalent.2.2]⟩

lemma keysAfter_perm {left right : List T} (perm : left.Perm right)
    (u : T) : (keysAfter lt left u).Perm (keysAfter lt right u) := by
  rw [keysAfter, keysAfter, perm.any_eq]
  split
  · exact perm
  · exact perm.cons u

lemma valid_newTree (lt : T → T → Bool) (store : TreeStore T) : Valid lt store.newTree nil := by
  refine ⟨⟨⟨?_, trivial, nodup_nil⟩, rfl, trivial, ⟨0, rfl⟩, ?_, ?_, rfl, ?_⟩, List.Pairwise.nil⟩
  · simp [PathShape, root, newTree, rootLink]
  · simp [newTree, firstLink, labels]
  · simp [newTree, lastLink, labels]
  intro _ mem
  cases mem

variable [order : IsStrictOrder T fun left right => lt left right = true]

lemma Valid.compare_last (valid : Valid lt store tree) {last : Nat} (isPlug : plug path nil = tree)
    (follows : Follows lt store u path) (isLast : (labelsBefore path).getLast? = some last) :
    lt (store.value last) u = true ∧ Belongs lt store tree u path ∨
      lt (store.value last) u = false ∧ Equivalent lt store tree u last := by
  have hs := valid.pairwise isPlug
  have hib := mem_of_getLast? isLast
  cases comp : lt (store.value last) u with
  | true =>
    left
    refine ⟨rfl, isPlug, follows, ?_⟩
    exact before_of_last (pairwise_append.mp hs).1 isLast comp
  | false =>
    right
    refine ⟨rfl, ?_, comp, (follows.values hs).1 last hib⟩
    rw [← isPlug, labels_plug]
    exact mem_append_left _ hib

/-- The search finds the gap or an equivalent node. -/
lemma Valid.posForUnique_eq (valid : Valid lt store tree) (u : T) :
    (∃ path, Belongs lt store tree u path ∧
      posForUnique lt store u = some (.inl (holeParent path))) ∨
    ∃ id, Equivalent lt store tree u id ∧ posForUnique lt store u = some (.inr (.node id)) := by
  have hr := valid.hangs.above
  obtain ⟨path, hp, hfo, isPos⟩ := valid.exists_follows u
  rw [← hr] at isPos
  have hla : tree.labels = labelsBefore path ++ labelsAfter path := by
    rw [← hp, labels_plug]
    rfl
  have nodup := (nodup_append.mp valid.hangs.nodup).1
  have hl := valid.leftmost
  rw [hla] at nodup hl
  have hangs : store.Hangs path nil := by
    rw [hangs_plug, hp]
    exact valid.hangs
  rw [posForUnique, isPos]
  cases path with
  | nil =>
    left
    refine ⟨[], ⟨hp, hfo, ?_⟩, ?_⟩
    · intro id mem
      cases mem
    have ht : store.next .trunk .left = some .trunk := hl
    simp [holeSide, holeParent, ht]
  | cons frame path =>
    cases hs : frame.side with
    | left =>
      have hbe : labelsBefore (frame :: path) = labelsBefore path := by rw [labelsBefore, hs]
      have ha : labelsAfter (frame :: path) = frame.label ::
          (frame.sibling.labels ++ labelsAfter path) := by
        rw [labelsAfter, hs]
      rw [hbe, ha] at nodup hl
      rw [firstLink_append] at hl
      cases hlas : (labelsBefore path).getLast? with
      | none =>
        rw [getLast?_eq_none_iff] at hlas
        left
        refine ⟨frame :: path, ⟨hp, hfo, ?_⟩, ?_⟩
        · rw [hbe, hlas]
          intro id mem
          cases mem
        rw [hlas, if_pos rfl] at hl
        have hf : store.next .trunk .left = some (.node frame.label) := hl
        simp [holeSide, holeParent, hs, hf]
      | some last =>
        have hnn : labelsBefore path ≠ [] := by
          intro isNil
          rw [isNil] at hlas
          cases hlas
        rw [if_neg hnn] at hl
        have hnf : firstLink (labelsBefore path) ≠ .node frame.label := by
          intro same
          exact (nodup_append.mp nodup).2.2 _ (firstLink_eq_node same) _ mem_cons_self rfl
        have hrb : path = [] → frame.color = .black := by
          rintro rfl
          exact absurd rfl hnn
        have hd := decrementNode_eq hangs hs hrb
          hlas (Nat.le_succ_of_le (Nat.le_of_succ_le (valid.length_path_le hp)))
        rw [← hbe] at hlas
        simp only [holeSide, holeParent, hs, hl, decide_true,
          Option.some.injEq, hnf, and_false, if_false, if_true, hd, compareR]
        rcases valid.compare_last hp hfo hlas with
          ⟨comp, hb⟩ | ⟨comp, equivalent⟩
        · left
          refine ⟨frame :: path, hb, ?_⟩
          rw [comp]
        right
        refine ⟨last, equivalent, ?_⟩
        rw [comp]
    | right =>
      have hlas : (labelsBefore (frame :: path)).getLast? = some frame.label := by
        rw [labelsBefore, hs]
        simp
      simp only [holeSide, holeParent, hs, reduceCtorEq,
        decide_false, Bool.false_eq_true, false_and, if_false, compareR]
      rcases valid.compare_last hp hfo hlas with
        ⟨comp, hb⟩ | ⟨comp, equivalent⟩
      · left
        refine ⟨frame :: path, hb, ?_⟩
        rw [comp]
      right
      refine ⟨frame.label, equivalent, ?_⟩
      rw [comp]

lemma Valid.insertUniqueHintPos_eq (valid : Valid lt store tree) (u : T) :
    (∃ path, Belongs lt store tree u path ∧
      insertUniqueHintPos lt store u = some (.inl (holeParent path))) ∨
    ∃ id, Equivalent lt store tree u id ∧
      insertUniqueHintPos lt store u = some (.inr (.node id)) := by
  rw [insertUniqueHintPos]
  by_cases he : tree.labels = []
  · have none : ¬ 0 < store.count := by
      rw [valid.count, he]
      exact Nat.lt_irrefl 0
    rw [if_neg none]
    exact valid.posForUnique_eq u
  have some : 0 < store.count := by
    rw [valid.count]
    exact length_pos_iff.mpr he
  obtain ⟨last, hla⟩ : ∃ last, tree.labels.getLast? = .some last :=
    ⟨_, getLast?_eq_some_getLast he⟩
  have hr := valid.rightmost
  rw [lastLink, hla] at hr
  have hri : store.next .trunk .right = .some (.node last) := hr
  rw [if_pos some]
  simp only [hri, compareR]
  cases comp : lt (store.value last) u with
  | false =>
    exact valid.posForUnique_eq u
  | true =>
    left
    obtain ⟨path, hp, hfo, _⟩ := valid.exists_follows u
    have hl : tree.labels = labelsBefore path ++ labelsAfter path := by
      rw [← hp, labels_plug]
      rfl
    have hs := valid.pairwise hp
    have hb := (hfo.values hs).2
    -- Nothing is behind the last node, so nothing is behind the hole.
    have isNil : labelsAfter path = [] := by
      by_contra hnn
      have hia : last ∈ labelsAfter path := by
        rw [hl] at hla
        rw [getLast?_append_of_ne_nil _ hnn] at hla
        exact mem_of_getLast? hla
      exact order.irrefl _ (order.trans _ _ _ comp (hb last hia))
    rw [isNil, append_nil] at hl hs
    rw [hl] at hla
    refine ⟨path, ⟨hp, hfo, before_of_last hs hla comp⟩, ?_⟩
    cases path with
    | nil => cases hla
    | cons frame path =>
      cases hsi : frame.side with
      | left =>
        rw [labelsAfter, hsi] at isNil
        cases isNil
      | right =>
        rw [labelsBefore, hsi] at hla
        simp only [← append_assoc, getLast?_concat, Option.some.injEq] at hla
        simp [holeParent, hla]

lemma Valid.insertNode (valid : Valid lt store tree)
    (belongs : Belongs lt store tree (store.value l) path)
    (notIn : l ∉ tree.labels) (allocated : l < store.nodeCt) :
    ∃ after result, insertNode lt store (holeParent path) l = some after ∧ Valid lt after result ∧
      (result.labels.map after.value).Perm (store.value l :: tree.labels.map store.value) := by
  have hl : tree.labels = labelsBefore path ++ labelsAfter path := by
    rw [← belongs.isPlug, labels_plug]
    rfl
  have hs := valid.pairwise belongs.isPlug
  have hbe := (belongs.follows.values hs).2
  obtain ⟨after, result, inserted, hangs, hrb, hrr, height,
    hrl, hle, hr, value, count, nodeCt⟩ := valid.insertAndRebalance belongs.isPlug notIn
  have hc : { after with count := after.count + 1 }.Hangs [] result :=
    hangs.congr ⟨fun _ _ => rfl, fun _ _ => rfl, fun _ _ => rfl⟩ rfl
  refine ⟨{ after with count := after.count + 1 }, result, ?_,
    ⟨⟨hc, hrb, hrr, height, hle, hr, ?_, ?_⟩, ?_⟩, ?_⟩
  · rw [belongs.follows.insertNode_eq, inserted]
    rfl
  · rw [hrl, count, valid.count, hl]
    simp only [length_append, length_cons]
    omega
  · intro _ mem
    rw [nodeCt]
    rw [hrl] at mem
    rcases mem_append.mp mem with mem | mem
    · apply valid.allocated
      rw [hl]
      exact mem_append_left _ mem
    rcases mem_cons.mp mem with rfl | mem
    · exact allocated
    apply valid.allocated
    rw [hl]
    exact mem_append_right _ mem
  · rw [hrl]
    rw [value]
    obtain ⟨hbs, haso, hac⟩ := pairwise_append.mp hs
    refine pairwise_append.mpr ⟨hbs, pairwise_cons.mpr ⟨hbe, haso⟩, ?_⟩
    intro left hib right hir
    rcases mem_cons.mp hir with rfl | hia
    · exact belongs.before left hib
    · exact hac left hib right hia
  rw [hrl, hl]
  rw [value, map_append, map_cons, map_append]
  exact perm_middle

lemma keysAfter_of_belongs (valid : Valid lt store tree) (belongs : Belongs lt store tree u path)
    : keysAfter lt (tree.labels.map store.value) u = u :: tree.labels.map store.value := by
  have hbe := (belongs.follows.values (valid.pairwise belongs.isPlug)).2
  rw [keysAfter, if_neg]
  rw [any_map, any_eq_true]
  rintro ⟨id, mem, he⟩
  rw [← belongs.isPlug, labels_plug] at mem
  rcases mem_append.mp mem with hib | hia
  · simp [belongs.before id hib] at he
  simp [hbe id hia] at he

lemma Valid.insertConstructed (valid : Valid lt store tree)
    (belongs : Belongs lt (store.constructNode u).2 tree u path) :
    ∃ after result, TreeStore.insertNode lt (store.constructNode u).2 (holeParent path)
        store.nodeCt = some after ∧ Valid lt after result ∧ (result.labels.map after.value).Perm
        (u :: tree.labels.map store.value) := by
  have hv : (store.constructNode u).2.value store.nodeCt = u := update_self _ _ _
  have notIn : store.nodeCt ∉ tree.labels := fun mem => Nat.lt_irrefl _ (valid.allocated _ mem)
  obtain ⟨after, result, hin, kept, perm⟩ := (valid.constructNode u).insertNode (l := store.nodeCt)
      (by rw [hv]; exact belongs) notIn (Nat.lt_succ_self _)
  refine ⟨after, result, hin, kept, ?_⟩
  rw [hv, map_congr_left fun _ mem => constructNode_values valid u mem] at perm
  exact perm

lemma Valid.insertOne (valid : Valid lt store tree) (insertion : Insertion T) :
    ∃ after result, insertOne lt store insertion = some after ∧ Valid lt after result ∧
      (result.labels.map after.value).Perm
        (keysAfter lt (tree.labels.map store.value) insertion.key) := by
  cases insertion with
  | insertUnique u =>
    rw [TreeStore.insertOne, insertUnique]
    rcases valid.insertUniqueHintPos_eq u with
      ⟨path, hb, isPos⟩ | ⟨id, he, isPos⟩
    · obtain ⟨after, result, inserted, kept, perm⟩ :=
        valid.insertConstructed (Belongs.constructNode valid hb)
      refine ⟨after, result, ?_, kept, ?_⟩
      · have hn : (store.constructNode u).1 = store.nodeCt := rfl
        simp [isPos, hn, inserted, Option.map_some]
      rw [Insertion.key, keysAfter_of_belongs valid hb]
      exact perm
    refine ⟨store, tree, ?_, valid, ?_⟩
    · simp [isPos, Option.map_some]
    · rw [Insertion.key, keysAfter_of_equivalent he]
  | emplaceUnique u =>
    have hc := valid.constructNode u
    have values := map_congr_left fun id mem => constructNode_values valid u mem
    rw [TreeStore.insertOne, emplaceUnique]
    rcases hc.posForUnique_eq u with
      ⟨path, hb, isPos⟩ | ⟨id, he, isPos⟩
    · obtain ⟨after, result, inserted, kept, perm⟩ := valid.insertConstructed hb
      refine ⟨after, result, ?_, kept, ?_⟩
      · have hn : (store.constructNode u).1 = store.nodeCt := rfl
        simp [isPos, hn, inserted, Option.map_some]
      rw [Insertion.key, ← values, keysAfter_of_belongs hc hb, values]
      exact perm
    refine ⟨(store.constructNode u).2, tree, ?_, hc, ?_⟩
    · simp [isPos, Option.map_some]
    · rw [Insertion.key, ← values, keysAfter_of_equivalent he]

lemma Valid.insertions (insertions : List (Insertion T)) :
    ∀ (store : TreeStore T) (tree : ColorTree Nat) (keys : List T),
      Valid lt store tree → (tree.labels.map store.value).Perm keys → ∃ after result,
        insertions.foldlM (TreeStore.insertOne lt) store = some after ∧ Valid lt after result ∧
        (result.labels.map after.value).Perm (insertions.foldl (fun keys insertion =>
            keysAfter lt keys insertion.key) keys) := by
  induction insertions with
  | nil =>
    intro store tree keys valid perm
    exact ⟨store, tree, rfl, valid, perm⟩
  | cons insertion insertions ih =>
    intro store tree keys valid perm
    obtain ⟨next, changed, hin, kept, hkp⟩ := valid.insertOne insertion
    obtain ⟨after, result, done, hfv, hfp⟩ :=
      ih next changed _ kept
        (hkp.trans (keysAfter_perm perm insertion.key))
    refine ⟨after, result, ?_, hfv, hfp⟩
    rw [foldlM_cons, hin]
    exact done

/-- Any insertions into an empty tree give a valid red-black tree with the
distinct keys that were inserted, in their order. -/
theorem insertions_redBlackTree (store : TreeStore T) (insertions : List (Insertion T)) :
    ∃ after tree, insertions.foldlM (TreeStore.insertOne lt) store.newTree = some after ∧
      Valid lt after tree ∧ (tree.labels.map after.value).Perm
        (insertions.foldl (fun keys insertion => keysAfter lt keys insertion.key) []) :=
  Valid.insertions insertions store.newTree nil [] (valid_newTree lt store)
    (List.Perm.refl _)

instance : IsStrictOrder Nat fun left right => decide (left < right) = true where
  irrefl key hs := Nat.lt_irrefl key (of_decide_eq_true hs)
  trans _ _ _ left right :=
    decide_eq_true (Nat.lt_trans (of_decide_eq_true left) (of_decide_eq_true right))

theorem insertions_redBlackTree_threeKeys :
    ∃ after tree, [Insertion.insertUnique 5, .emplaceUnique 3, .insertUnique 5].foldlM
        (TreeStore.insertOne fun left right : Nat => decide (left < right))
        (TreeStore.newTree ⟨fun _ => .red, fun _ => none, fun _ _ => none,
          fun _ => 0, 0, 0⟩) = some after ∧
      Valid (fun left right => decide (left < right)) after tree ∧
      (tree.labels.map after.value).Perm [3, 5] := by
  exact insertions_redBlackTree _ _

/-- While there are fewer than `2 ^ (k + 1) - 1` keys, the search for the place of a
key takes `2 * k` steps at most. -/
theorem insertions_search_logarithmic (store : TreeStore T) (insertions : List (Insertion T)) :
    ∃ after, insertions.foldlM (TreeStore.insertOne lt) store.newTree = some after ∧
      ∀ u k, after.count + 1 < 2 ^ (k + 1) →
        (posLoop lt after u (2 * k) after.root .trunk true).isSome := by
  obtain ⟨after, tree, ran, hv, _⟩ := Valid.insertions insertions store.newTree nil []
    (valid_newTree lt store) (List.Perm.refl _)
  obtain ⟨height, hh⟩ := hv.height
  refine ⟨after, ran, fun u k few => ?_⟩
  have hp : 2 ^ height < 2 ^ (k + 1) := Nat.lt_of_le_of_lt hh.two_pow_le (hv.count ▸ few)
  have hk := (Nat.pow_lt_pow_iff_right Nat.one_lt_two).mp hp
  rw [show after.root = rootLink tree from hv.hangs.above]
  refine hv.hangs.below.isSome_posLoop hv.redRule hh ?_
  rw [hv.rootBlack]
  exact Nat.succ_le_succ (by omega)

theorem insertions_search_logarithmic_threeKeys :
    ∃ after, [Insertion.insertUnique 5, .emplaceUnique 3, .insertUnique 4].foldlM
        (TreeStore.insertOne fun left right : Nat => decide (left < right))
        (TreeStore.newTree ⟨fun _ => .red, fun _ => none, fun _ _ => none,
          fun _ => 0, 0, 0⟩) = some after ∧ ∀ u k, after.count + 1 < 2 ^ (k + 1) → (posLoop
            (fun left right => decide (left < right)) after u (2 * k) after.root .trunk
            true).isSome :=
  insertions_search_logarithmic _ _

end TreeStore

end OoOS.Libk
