import Mathlib.Data.List.Nodup

/-!
# Bucket chains

All elements of a set of buckets on one chain.  A bucket is found by the link in
front of its first element.
-/

namespace OoOS.Lib.BucketChain

open List Function

universe u v w

variable {α : Type u} {β : Type v} {ι : Type w} {root : β} {element : α} {front : List α}

section

variable (node : α → β) (next : β → Option α)

def Linked : β → List α → Prop
  | link, [] => next link = none
  | link, first :: rest => next link = some first ∧ Linked (node first) rest

def Segment : β → List α → Prop
  | _, [] => True
  | link, first :: rest => next link = some first ∧ Segment (node first) rest

def lastLink : β → List α → β
  | link, [] => link
  | _, first :: rest => lastLink (node first) rest

variable {node next} {other : β → Option α}

lemma linked_append (front rest : List α) :
    ∀ link, Linked node next link (front ++ rest) ↔ Segment node next link front ∧
        Linked node next (lastLink node link front) rest := by
  induction front with
  | nil =>
    simp [Segment, lastLink]
  | cons _ front ih =>
    intro link
    rw [cons_append, Linked, ih, Segment, lastLink, and_assoc]

lemma lastLink_mem (node : α → β) (elements : List α) :
    ∀ link, lastLink node link elements ∈ link :: elements.map node := by
  induction elements with
  | nil =>
    intro link
    exact mem_cons_self
  | cons first _ ih =>
    intro link
    exact mem_cons_of_mem _ (ih (node first))

lemma linked_congr (elements : List α) :
    ∀ link, (∀ used ∈ link :: elements.map node, next used = other used) →
      Linked node next link elements → Linked node other link elements := by
  induction elements with
  | nil =>
    intro link same path
    rw [Linked, ← same link mem_cons_self]
    exact path
  | cons first _ ih =>
    intro link same path
    refine ⟨?_, ih (node first) (forall_mem_cons.mp same).2 path.2⟩
    rw [← same link mem_cons_self]
    exact path.1

lemma segment_congr (elements : List α) :
    ∀ link, (link :: elements.map node).Nodup → (∀ used ∈ link :: elements.map node,
        used ≠ lastLink node link elements → next used = other used) →
      Segment node next link elements → Segment node other link elements := by
  induction elements with
  | nil =>
    intro link _ _ _
    trivial
  | cons first rest ih =>
    intro link distinct same segment
    have hnl : link ≠ lastLink node (node first) rest := by
      intro hl
      have mem := lastLink_mem node rest (node first)
      rw [← hl] at mem
      exact (nodup_cons.mp distinct).1 mem
    refine ⟨?_, ih (node first) (nodup_cons.mp distinct).2
      (forall_mem_cons.mp same).2 segment.2⟩
    rw [← same link mem_cons_self hnl]
    exact segment.1

lemma next_of_linked {link : β} {elements : List α} (isPath : Linked node next link elements) :
    next link = elements.head? := by
  cases elements with
  | nil => exact isPath
  | cons _ _ => exact isPath.1

lemma linked_unique (left : List α) : ∀ (link : β) (right : List α), Linked node next link left →
    Linked node next link right → left = right := by
  induction left with
  | nil =>
    intro link right hlp hrp
    cases right with
    | nil => rfl
    | cons first rest => cases hlp.symm.trans hrp.1
  | cons first rest ih =>
    intro link right hlp hrp
    cases right with
    | nil => cases hlp.1.symm.trans hrp
    | cons other _ =>
      obtain rfl : first = other := Option.some.inj (hlp.1.symm.trans hrp.1)
      rw [ih _ _ hlp.2 hrp.2]

variable [DecidableEq β]

lemma linked_insert (front rest : List α)
    (isPath : Linked node next root (front ++ rest))
    (distinct : (root :: (front ++ rest).map node).Nodup)
    (fresh : node element ∉ root :: (front ++ rest).map node) :
    Linked node (update (update next (node element)
          (next (lastLink node root front))) (lastLink node root front) (some element))
      root (front ++ element :: rest) := by
  obtain ⟨hs, tail⟩ := (linked_append front rest root).mp isPath
  rw [map_append, ← cons_append] at distinct fresh
  have hif := lastLink_mem node front root
  have hne : lastLink node root front ≠ node element := by
    intro same
    rw [same] at hif
    exact fresh (mem_append_left _ hif)
  have apart := (nodup_append.mp distinct).2.2
  refine (linked_append front (element :: rest) root).mpr ⟨?_, ?_, ?_⟩
  · refine segment_congr front root (nodup_append.mp distinct).1 (fun used mem hnl => ?_) hs
    have hnn : used ≠ node element := by
      rintro rfl
      exact fresh (mem_append_left _ mem)
    rw [update_of_ne hnl, update_of_ne hnn]
  · exact update_self _ _ _
  cases rest with
  | nil =>
    rw [Linked, update_of_ne (Ne.symm hne), update_self]
    exact tail
  | cons first rest =>
    refine ⟨?_, linked_congr rest (node first) (fun used mem => ?_) tail.2⟩
    · rw [update_of_ne (Ne.symm hne), update_self]
      exact tail.1
    have hnl : used ≠ lastLink node root front := fun same => apart _ hif _ mem same.symm
    have hnn : used ≠ node element := by
      rintro rfl
      exact fresh (mem_append_right _ mem)
    rw [update_of_ne hnl, update_of_ne hnn]

lemma linked_remove {rest : List α} (isPath : Linked node next root (front ++ element :: rest))
    (distinct : (root :: (front ++ element :: rest).map node).Nodup) :
    Linked node (update next (lastLink node root front) (next (node element)))
      root (front ++ rest) := by
  obtain ⟨hs, _, tail⟩ := (linked_append front (element :: rest) root).mp isPath
  rw [map_append, ← cons_append, map_cons] at distinct
  have hif := lastLink_mem node front root
  have apart := (nodup_append.mp distinct).2.2
  refine (linked_append front rest root).mpr ⟨?_, ?_⟩
  · refine segment_congr front root (nodup_append.mp distinct).1 (fun used _ hnl => ?_) hs
    rw [update_of_ne hnl]
  cases rest with
  | nil =>
    rw [Linked, update_self]
    exact tail
  | cons first rest =>
    refine ⟨?_, linked_congr rest (node first) (fun used mem => ?_) tail.2⟩
    · rw [update_self]
      exact tail.1
    have hnl : used ≠ lastLink node root front := fun same =>
      apart _ hif _ (mem_cons_of_mem _ mem) same.symm
    rw [update_of_ne hnl]

end

variable {prev : β}

section

variable (node : α → β) (hit : α → Bool)

def before : β → List α → Option β
  | _, [] => none
  | link, first :: rest =>
    if hit first then some link else before (node first) rest

variable {node hit} {other : α → Bool} (elements : List α) (front rest : List α)

lemma before_append :
    ∀ link, before node hit link (front ++ rest) = (before node hit link front).or
        (before node hit (lastLink node link front) rest) := by
  induction front with
  | nil =>
    intro link
    rfl
  | cons _ front ih =>
    intro link
    rw [cons_append, before, before, lastLink]
    split
    · rfl
    · exact ih _

lemma before_eq_none_iff :
    ∀ link, before node hit link elements = none ↔ ∀ element ∈ elements, hit element = false := by
  induction elements with
  | nil =>
    simp [before]
  | cons first _ ih =>
    intro link
    rw [before]
    cases isHit : hit first with
    | true => simp [isHit]
    | false => simp [isHit, ih]

/-- What lies before the first hit. -/
lemma before_eq_some_iff :
    ∀ link, before node hit link elements = some prev ↔
      ∃ front element rest, elements = front ++ element :: rest ∧
        hit element = true ∧ (∀ other ∈ front, hit other = false) ∧
        lastLink node link front = prev := by
  induction elements with
  | nil =>
    simp [before]
  | cons first rest ih =>
    intro link
    rw [before]
    cases isHit : hit first with
    | true =>
      rw [if_pos rfl, Option.some.injEq]
      constructor
      · rintro rfl
        exact ⟨[], first, rest, rfl, isHit, by simp, rfl⟩
      rintro ⟨front, element, others, split, _, noHit, hl⟩
      cases front with
      | nil => exact hl
      | cons head front =>
        obtain ⟨rfl, _⟩ := cons.inj split
        cases (noHit first mem_cons_self).symm.trans isHit
    | false =>
      rw [if_neg (by simp), ih]
      constructor
      · rintro ⟨front, element, others, rfl, he, noHit, hl⟩
        refine ⟨first :: front, element, others, rfl, he, ?_, hl⟩
        intro other mem
        rcases mem_cons.mp mem with rfl | hif
        · exact isHit
        · exact noHit other hif
      rintro ⟨front, element, others, split, he, noHit, hl⟩
      cases front with
      | nil =>
        obtain ⟨rfl, _⟩ := cons.inj split
        cases isHit.symm.trans he
      | cons head front =>
        obtain ⟨rfl, rfl⟩ := cons.inj split
        exact ⟨front, element, others, rfl, he, (forall_mem_cons.mp noHit).2, hl⟩

lemma before_congr (same : ∀ element ∈ elements, hit element = other element)
    : ∀ link, before node hit link elements = before node other link elements := by
  induction elements with
  | nil =>
    intro link
    rfl
  | cons first _ ih =>
    intro link
    rw [before, before, same first mem_cons_self, ih (forall_mem_cons.mp same).2]

lemma before_ne_lastLink :
    ∀ link, (link :: elements.map node).Nodup → before node hit link elements = some prev →
      prev ≠ lastLink node link elements := by
  induction elements with
  | nil =>
    intro link _ hb
    cases hb
  | cons first rest ih =>
    intro link hd hb
    rw [before] at hb
    split at hb
    · cases hb
      intro hl
      have mem := lastLink_mem node rest (node first)
      rw [lastLink] at hl
      rw [← hl] at mem
      exact (nodup_cons.mp hd).1 mem
    · exact ih _ (nodup_cons.mp hd).2 hb

lemma before_insert {first : α} (same : hit element = hit first) (link : β) :
    before node hit link (front ++ element :: first :: rest) =
      before node hit link (front ++ first :: rest) := by
  rw [before_append, before_append]
  congr 1
  cases isHit : hit first with
  | true => rw [before, if_pos (same.trans isHit), before, if_pos isHit]
  | false =>
    rw [before, if_neg (by simp [same, isHit]), before,
      if_neg (by simp [isHit]), before, if_neg (by simp [isHit])]

lemma before_remove_other (notHit : hit element = false)
    (notNext : ∀ first ∈ rest.head?, hit first = false) (link : β) :
    before node hit link (front ++ element :: rest) = before node hit link (front ++ rest) := by
  rw [before_append, before_append, before, if_neg (by simp [notHit])]
  cases rest with
  | nil => rfl
  | cons first rest =>
    have hnf := notNext first rfl
    rw [before, if_neg (by simp [hnf]), before, if_neg (by simp [hnf])]

lemma before_append_of_some {link : β} {front : List α}
    (isBefore : before node hit link front = some prev) (rest : List α) :
    before node hit link (front ++ rest) = some prev := by
  rw [before_append, isBefore]
  rfl

end

section

def Contiguous (values : List ι) : Prop :=
  ∀ outer inner, [outer, inner, outer].Sublist values → inner = outer

variable {values front rest : List ι} {value second : ι}

lemma contiguous_nil : Contiguous ([] : List ι) := by
  intro _ _ hs
  cases hs

lemma Contiguous.sublist {fewer : List ι} (contiguous : Contiguous values)
    (isSublist : fewer.Sublist values) : Contiguous fewer :=
  fun outer inner hin => contiguous outer inner (hin.trans isSublist)

lemma Contiguous.cons_of_not_mem
    (contiguous : Contiguous values) (isNew : value ∉ values) : Contiguous (value :: values) := by
  intro outer inner hs
  cases hs with
  | cons _ below => exact contiguous outer inner below
  | cons_cons _ below =>
    have mem := below.subset (mem_cons_of_mem inner mem_cons_self)
    exact absurd mem isNew

lemma sublist_of_sublist_double (front rest : List ι) :
    ∀ part : List ι, part.IsChain (· ≠ ·) → part.Sublist (front ++ value :: value :: rest) →
      part.Sublist (front ++ value :: rest) := by
  induction front with
  | nil =>
    intro part chain hs
    cases hs with
    | cons _ below => exact below
    | cons_cons _ below =>
      cases below with
      | cons _ hde => exact hde.cons_cons _
      | cons_cons _ hde =>
        cases chain with
        | cons_cons ne _ => exact absurd rfl ne
  | cons _ front ih =>
    intro part chain hs
    cases hs with
    | cons _ below => exact (ih part chain below).cons _
    | cons_cons _ below => exact (ih _ (List.IsChain.of_cons chain) below).cons_cons _

lemma Contiguous.double
    (contiguous : Contiguous (front ++ value :: rest)) :
    Contiguous (front ++ value :: value :: rest) := by
  intro outer inner hs
  by_contra ne
  have chain : [outer, inner, outer].IsChain (· ≠ ·) := by simp [Ne.symm ne, ne]
  exact ne (contiguous outer inner (sublist_of_sublist_double front rest _ chain hs))

section

variable (contiguous : Contiguous (front ++ value :: second :: rest))

include contiguous

lemma Contiguous.not_mem_front (ne : second ≠ value) : second ∉ front := by
  intro mem
  have hs : [second, value, second].Sublist (front ++ value :: second :: rest) :=
    (singleton_sublist.mpr mem).append (((nil_sublist rest).cons_cons second).cons_cons value)
  exact ne (contiguous second value hs).symm

lemma Contiguous.not_mem_of_ne (ne : second ≠ value) : value ∉ second :: rest := by
  intro mem
  rcases mem_cons.mp mem with same | hb
  · exact ne same.symm
  have hs : [value, second, value].Sublist (front ++ value :: second :: rest) := by
    refine List.Sublist.trans ?_ (sublist_append_right front _)
    exact ((singleton_sublist.mpr hb).cons_cons _).cons_cons _
  exact ne (contiguous value second hs)

end

end

variable {node : α → β} {hit : α → Bool} [DecidableEq ι] {index : α → ι} {value : ι}
  {chain : List α}

/-- The bucket of an element in front of the chain is behind the root, and the bucket
that was there is behind the element. -/
lemma before_push {slots : ι → Option β} {top : ι} {first : Option α}
    (isFirst : first = chain.head?)
    (isTop : ∀ head rest, chain = head :: rest → top = index head)
    (isSlot : slots value = before node (fun other => decide (index other = value)) root chain) :
    update (if first.isSome then update slots top (some (node element)) else slots)
        (index element) (some root) value =
      before node (fun other => decide (index other = value)) root (element :: chain) := by
  rw [before]
  by_cases hh : index element = value
  · rw [if_pos (decide_eq_true hh), hh, update_self]
  simp only [decide_eq_true_eq, if_neg hh]
  rw [update_of_ne (Ne.symm hh)]
  cases chain with
  | nil =>
    rw [isFirst]
    exact isSlot
  | cons head rest =>
    rw [if_pos (by rw [isFirst]; rfl), isTop head rest rfl]
    rw [before] at isSlot ⊢
    by_cases hif : index head = value
    · rw [if_pos (decide_eq_true hif), hif, update_self]
    rw [if_neg (by simpa using hif)] at isSlot ⊢
    rw [update_of_ne (Ne.symm hif)]
    exact isSlot

/-- What can only be hit in one bucket is found among the elements of that
bucket that follow the link of the bucket. -/
lemma before_bucket (contiguous : Contiguous (chain.map index))
    (inBucket : ∀ element ∈ chain, hit element = true → index element = value)
    (isBefore : before node (fun element => decide (index element = value)) root chain =
      some prev) :
    ∃ front rest, chain = front ++ rest ∧ lastLink node root front = prev ∧ before node hit prev
          (rest.takeWhile fun element => decide (index element = value)) =
        before node hit root chain := by
  obtain ⟨front, first, rest, rfl, hf, hof, hp⟩ := (before_eq_some_iff chain _).mp isBefore
  refine ⟨front, first :: rest, rfl, hp, ?_⟩
  have hfv := of_decide_eq_true hf
  have hnif : before node hit root front = none := by
    rw [before_eq_none_iff]
    intro element mem
    have other := of_decide_eq_false (hof element mem)
    cases isHit : hit element with
    | false => rfl
    | true => exact absurd (inBucket element (mem_append_left _ mem) isHit) other
  generalize hbe : rest.dropWhile (fun element => decide (index element = value)) = behind
  have split := takeWhile_append_dropWhile
    (p := fun element => decide (index element = value)) (l := rest)
  rw [hbe] at split
  -- Behind the run the bucket does not come back.
  have hnb : ∀ link, before node hit link behind = none := by
    intro link
    rw [before_eq_none_iff]
    intro element mem
    cases isHit : hit element with
    | false => rfl
    | true =>
      exfalso
      have hic : element ∈ front ++ first :: rest := by
        rw [← split]
        simp [mem]
      have again := inBucket element hic isHit
      cases behind with
      | nil => cases mem
      | cons second others =>
        have notIn := head_dropWhile_not (fun element => decide (index element = value))
          (by rw [hbe]; exact cons_ne_nil second others)
        simp only [hbe, head_cons] at notIn
        have ho := of_decide_eq_false notIn
        rcases mem_cons.mp mem with rfl | later
        · exact ho again
        have hs : [first, second, element].Sublist (front ++ first :: rest) := by
          rw [← split]
          refine List.Sublist.trans ?_ (sublist_append_right front _)
          refine List.Sublist.cons_cons _ (List.Sublist.trans ?_ (sublist_append_right _ _))
          exact (singleton_sublist.mpr later).cons_cons _
        have hma := hs.map index
        simp only [map_cons, map_nil, hfv, again] at hma
        exact ho (contiguous value (index second) hma)
  rw [before_append, hnif, Option.none_or, hp, takeWhile_cons_of_pos (by simpa using hfv)]
  conv_rhs => rw [← split, ← cons_append, before_append, hnb, Option.or_none]

end OoOS.Lib.BucketChain
