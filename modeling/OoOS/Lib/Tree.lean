import Mathlib.Tactic.Common

/-!
# Trees of linked nodes

A path is the list of indices from the root, the last one first.  The links form
a tree up to some depth when no node is reached by two paths.
-/

namespace OoOS.Lib

universe u v

variable {Node : Type u} {Index : Type v}

def walk (child : Node → Index → Option Node) (root : Node) : List Index → Option Node
  | [] => some root
  | index :: above =>
    match walk child root above with
    | none => none
    | some node => child node index

/-- No node is at the end of two paths of at most the given length. -/
def IsTree (child : Node → Index → Option Node) (root : Node)
    (depth : Nat) : Prop :=
  ∀ ⦃first second : List Index⦄ ⦃node : Node⦄, first.length ≤ depth → second.length ≤ depth →
    walk child root first = some node →
    walk child root second = some node → first = second

variable {child child' : Node → Index → Option Node} {root parent new : Node}
  {depth : Nat} {index : Index} {above path : List Index}

lemma walk_cons_of_eq_some (reached : walk child root above = some parent) :
    walk child root (index :: above) = child parent index := by
  rw [walk, reached]

lemma walk_congr
    (same : ∀ (hs : List Index) (node : Node), hs.length < depth → walk child root hs = some node →
      ∀ position, child' node position = child node position) (bounded : path.length ≤ depth) :
    walk child' root path = walk child root path := by
  induction path with
  | nil => rfl
  | cons position above ih =>
    rw [List.length_cons] at bounded
    have hs := ih (by omega)
    rw [walk, walk, hs]
    cases hr : walk child root above with
    | none => rfl
    | some node => exact same above node (by omega) hr position

/-- `child'` is `child` with the childless node `new` attached below
`parent`. -/
structure Attached (child child' : Node → Index → Option Node)
    (parent : Node) (index : Index) (new : Node) : Prop where
  vacant : child parent index = none
  linked : child' parent index = some new
  leaf : ∀ position, child' new position = none
  other : ∀ node position, node ≠ new → (node = parent → position ≠ index) →
    child' node position = child node position

variable (isTree : IsTree child root depth) (attached : Attached child child' parent index new)
  (reached : walk child root above = some parent) (bounded : above.length ≤ depth)
  (fresh : ∀ path : List Index, path.length ≤ depth → walk child root path ≠ some new)

include isTree attached reached bounded fresh

lemma walk_attached : ∀ path : List Index, path.length ≤ depth → path ≠ index :: above →
      walk child' root path = walk child root path
  | [], _, _ => rfl
  | position :: shorter, pathBounded, different => by
    rw [List.length_cons] at pathBounded
    by_cases below : shorter = index :: above
    · -- The path goes through the new node, where it was cut off before.
      have hsa : walk child' root above = some parent := by
        rw [← reached]
        apply walk_attached above bounded
        intro hc
        have hl := congrArg List.length hc
        simp at hl
      have hbe : walk child root shorter = none := by
        rw [below, walk_cons_of_eq_some reached]
        exact attached.vacant
      have after : walk child' root shorter = some new := by
        rw [below, walk_cons_of_eq_some hsa]
        exact attached.linked
      rw [walk, walk, hbe, after]
      exact attached.leaf position
    have same := walk_attached shorter (by omega) below
    rw [walk, walk, same]
    cases ended : walk child root shorter with
    | none => rfl
    | some node =>
      apply attached.other
      · rintro rfl
        exact fresh shorter (by omega) ended
      rintro rfl rfl
      apply different
      rw [isTree (by omega) bounded ended reached]
  termination_by path => path.length
  decreasing_by
    · rw [below, List.length_cons, List.length_cons]
      omega
    · exact Nat.lt_succ_self _

lemma walk_attached_new : walk child' root (index :: above) = some new := by
  have hsa : walk child' root above = walk child root above := by
    apply walk_attached isTree attached reached bounded fresh above bounded
    intro hc
    have hl := congrArg List.length hc
    simp at hl
  rw [walk_cons_of_eq_some (hsa.trans reached)]
  exact attached.linked

/-- A new leaf keeps the tree. -/
lemma isTree_attached : IsTree child' root depth := by
  intro first second _ hfb hsb haf hase
  have hnw := walk_attached_new isTree attached reached bounded fresh
  have how := walk_attached isTree attached reached bounded fresh
  by_cases hfn : first = index :: above
  · by_cases hsn : second = index :: above
    · rw [hfn, hsn]
    rw [hfn, hnw] at haf
    rw [how second hsb hsn, ← haf] at hase
    exact absurd hase (fresh second hsb)
  rw [how first hfb hfn] at haf
  by_cases hsn : second = index :: above
  · rw [hsn, hnw] at hase
    rw [← hase] at haf
    exact absurd haf (fresh first hfb)
  rw [how second hsb hsn] at hase
  exact isTree hfb hsb haf hase

end OoOS.Lib
