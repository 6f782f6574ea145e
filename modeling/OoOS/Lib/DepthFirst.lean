import Mathlib.Data.Finset.Card

/-!
# Depth-first search with a set that may forget

Whether a vertex was seen is asked of a set which may answer wrongly.  The search
is right just if that set recognises everything the exact search meets again.
-/

namespace OoOS.Lib.DepthFirst

open List Relation.ReflTransGen

universe u

variable {α : Type u}

/-- The edges by which vertices were opened, the vertices met again, and the
finished ones. -/
structure Search (α : Type u) where
  opened : List (α × α)
  repeats : List (List (α × α) × α)
  finished : List α

namespace Search

def empty : Search α := ⟨[], [], []⟩

def visited (state : Search α) : List α := state.opened.map Prod.snd

def opening (state : Search α) (parent vertex : α) : Search α :=
  { state with opened := state.opened ++ [(parent, vertex)] }

def meeting (state : Search α) (vertex : α) : Search α :=
  { state with repeats := state.repeats ++ [(state.opened, vertex)] }

def finishing (state : Search α) (vertex : α) : Search α :=
  { state with finished := state.finished ++ [vertex] }

lemma visited_opening (state : Search α) (parent vertex : α) :
    (state.opening parent vertex).visited = state.visited ++ [vertex] := by
  unfold visited opening
  rw [map_append]
  rfl

end Search

def each (seen : List (α × α) → α → Bool)
    (go : α → Search α → Option (Search α)) (parent : α) :
    List α → Search α → Option (Search α)
  | [], state => some state
  | vertex :: rest, state =>
    if seen state.opened vertex then
      each seen go parent rest (state.meeting vertex)
    else
      (go vertex (state.opening parent vertex)).bind
        (each seen go parent rest)

def search (seen : List (α × α) → α → Bool) (succ : α → List α) :
    Nat → α → Search α → Option (Search α)
  | 0, _, _ => none
  | depth + 1, vertex, state =>
    (each seen (search seen succ depth) vertex (succ vertex) state).map
      fun after => after.finishing vertex

def exact [DecidableEq α] (opened : List (α × α)) (vertex : α) : Bool :=
  decide (vertex ∈ opened.map Prod.snd)

variable {seen : List (α × α) → α → Bool} {succ : α → List α}

/-- What a search does with the successors that are left at a vertex. -/
inductive Goes (seen : List (α × α) → α → Bool) (succ : α → List α) :
    α → List α → Search α → Search α → Prop
  | done (parent : α) (state : Search α) : Goes seen succ parent [] state state
  | meet {parent vertex : α} {rest : List α} {state after : Search α}
      (isSeen : seen state.opened vertex = true)
      (on : Goes seen succ parent rest (state.meeting vertex) after) :
      Goes seen succ parent (vertex :: rest) state after
  | enter {parent vertex : α} {rest : List α} {state below after : Search α}
      (unseen : seen state.opened vertex = false)
      (down : Goes seen succ vertex (succ vertex) (state.opening parent vertex) below)
      (on : Goes seen succ parent rest (below.finishing vertex) after) :
      Goes seen succ parent (vertex :: rest) state after

lemma goes_of_search (depth : Nat) : ∀ (vertex : α) (state after : Search α),
    search seen succ depth vertex state = some after →
      ∃ last, Goes seen succ vertex (succ vertex) state last ∧ after = last.finishing vertex := by
  induction depth with
  | zero =>
    intro vertex state after hs
    cases hs
  | succ depth ih =>
    intro vertex state after hs
    obtain ⟨last, he, rfl⟩ := Option.map_eq_some_iff.mp hs
    refine ⟨last, ?_, rfl⟩
    clear hs
    generalize succ vertex = vertices at he
    induction vertices generalizing state with
    | nil =>
      cases he
      exact .done vertex _
    | cons next rest hrg =>
      rw [each] at he
      cases hn : seen state.opened next with
      | true =>
        rw [hn, if_pos rfl] at he
        exact .meet hn (hrg _ he)
      | false =>
        rw [hn, if_neg Bool.false_ne_true] at he
        obtain ⟨under, hu, he⟩ := Option.bind_eq_some_iff.mp he
        obtain ⟨below, down, rfl⟩ := ih next _ under hu
        exact .enter hn down (hrg _ he)

variable {state after : Search α} {vertices : List α} {parent : α}

lemma Goes.each_eq (goes : Goes seen succ parent vertices state after) :
    ∃ depth, ∀ deeper ≥ depth, each seen (search seen succ deeper) parent vertices state =
      some after := by
  induction goes with
  | done => exact ⟨0, fun _ _ => rfl⟩
  | meet hs _ ih =>
    obtain ⟨depth, he⟩ := ih
    refine ⟨depth, fun deeper hd => ?_⟩
    rw [each, hs, if_pos rfl]
    exact he deeper hd
  | enter hs _ _ ihd iho =>
    obtain ⟨first, hf⟩ := ihd
    obtain ⟨second, hse⟩ := iho
    refine ⟨max (first + 1) second, fun deeper hd => ?_⟩
    obtain ⟨deeper, rfl⟩ : ∃ n, deeper = n + 1 := ⟨deeper - 1, by omega⟩
    rw [each, hs, if_neg Bool.false_ne_true, search, hf deeper (by omega)]
    exact hse _ (by omega)

variable {last : Search α} {vertex : α}

lemma Goes.search_eq (goes : Goes seen succ vertex (succ vertex) state last) :
    ∃ depth, search seen succ depth vertex state = some (last.finishing vertex) := by
  obtain ⟨depth, he⟩ := goes.each_eq
  refine ⟨depth + 1, ?_⟩
  rw [search, he depth le_rfl]
  rfl

variable {result : Search α}

lemma Goes.unique (goes : Goes seen succ parent vertices state after)
    (goesOther : Goes seen succ parent vertices state result) : after = result := by
  obtain ⟨first, hf⟩ := goes.each_eq
  obtain ⟨second, hs⟩ := goesOther.each_eq
  have left := hf _ (le_max_left first second)
  exact Option.some.inj (left.symm.trans (hs _ (le_max_right first second)))

abbrev Reaches (succ : α → List α) : α → α → Prop :=
  Relation.ReflTransGen fun vertex next => next ∈ succ vertex

/-- The search below a vertex only adds: it finishes what it opens, and opens it
by edges from the vertex or from what it opens. -/
structure Extends (succ : α → List α) (vertex : α)
    (state after : Search α) (new : List (α × α)) (done : List α) :
    Prop where
  opened : after.opened = state.opened ++ new
  finished : after.finished = state.finished ++ done
  perm : done.Perm (new.map Prod.snd)
  edges : ∀ edge ∈ new, edge.2 ∈ succ edge.1
  reached : ∀ edge ∈ new, Reaches succ vertex edge.2
  parents : ∀ edge ∈ new, edge.1 = vertex ∨ edge.1 ∈ new.map Prod.snd
  repeats : ∃ more, after.repeats = state.repeats ++ more

variable {below : Search α} {new first second : List (α × α)} {done firstDone secondDone : List α}

lemma Extends.visited (extends_ : Extends succ vertex state after new done) :
    after.visited = state.visited ++ new.map Prod.snd := by
  unfold Search.visited
  rw [extends_.opened, map_append]

lemma extends_refl (vertex : α) (state : Search α) : Extends succ vertex state state [] [] := by
  constructor
  · exact (append_nil _).symm
  · exact (append_nil _).symm
  · exact List.Perm.refl _
  · intro edge he
    cases he
  · intro edge he
    cases he
  · intro edge he
    cases he
  · exact ⟨[], (append_nil _).symm⟩

lemma Extends.of_meeting (extends_ : Extends succ parent (state.meeting vertex) after new done) :
    Extends succ parent state after new done := by
  obtain ⟨more, hm⟩ := extends_.repeats
  constructor
  · exact extends_.opened
  · exact extends_.finished
  · exact extends_.perm
  · exact extends_.edges
  · exact extends_.reached
  · exact extends_.parents
  exact ⟨(state.opened, vertex) :: more, by
    rw [hm]
    exact append_assoc _ _ _⟩

/-- Going down into a vertex and on behind it. -/
lemma Extends.of_opening (isNext : vertex ∈ succ parent)
    (down : Extends succ vertex (state.opening parent vertex) below first firstDone)
    (on : Extends succ parent (below.finishing vertex) after second secondDone) :
    Extends succ parent state after ((parent, vertex) :: first ++ second)
      (firstDone ++ [vertex] ++ secondDone) := by
  obtain ⟨more, hm⟩ := down.repeats
  obtain ⟨further, hf⟩ := on.repeats
  constructor
  · rw [on.opened]
    change below.opened ++ second = _
    rw [down.opened]
    simp [Search.opening]
  · rw [on.finished]
    change below.finished ++ [vertex] ++ secondDone = _
    rw [down.finished]
    simp [Search.opening]
  · rw [map_append, map_cons]
    refine List.Perm.append ?_ on.perm
    exact (perm_append_singleton vertex firstDone).trans (down.perm.cons vertex)
  · intro edge he
    rcases mem_append.mp he with hh | his
    · rcases mem_cons.mp hh with rfl | hif
      · exact isNext
      · exact down.edges edge hif
    · exact on.edges edge his
  · intro edge he
    rcases mem_append.mp he with hh | his
    · rcases mem_cons.mp hh with rfl | hif
      · exact single isNext
      · exact (down.reached edge hif).head isNext
    · exact on.reached edge his
  · intro edge he
    rw [map_append, map_cons]
    rcases mem_append.mp he with hh | his
    · rcases mem_cons.mp hh with rfl | hif
      · exact .inl rfl
      rcases down.parents edge hif with hv | ho
      · rw [hv]
        exact .inr (mem_append_left _ mem_cons_self)
      · exact .inr (mem_append_left _ (mem_cons_of_mem _ ho))
    rcases on.parents edge his with hp | ho
    · exact .inl hp
    · exact .inr (mem_append_right _ ho)
  · refine ⟨more ++ further, ?_⟩
    rw [hf]
    change below.repeats ++ further = _
    rw [hm]
    simp [Search.opening]

lemma Goes.extends_ (goes : Goes seen succ parent vertices state after)
    (succs : ∀ vertex ∈ vertices, vertex ∈ succ parent) :
    ∃ new done, Extends succ parent state after new done := by
  induction goes with
  | done parent state => exact ⟨[], [], extends_refl parent state⟩
  | meet _ _ ih =>
    obtain ⟨new, done, on⟩ := ih (forall_mem_cons.mp succs).2
    exact ⟨new, done, on.of_meeting⟩
  | enter _ _ _ ihd iho =>
    obtain ⟨_, _, hd⟩ := ihd fun _ hn => hn
    obtain ⟨_, _, on⟩ := iho (forall_mem_cons.mp succs).2
    exact ⟨_, _, hd.of_opening (succs _ mem_cons_self) on⟩

/-- The successors of a vertex stand in front of it, but for those that lead back
to it. -/
def Ordered (succ : α → List α) (finished : List α) : Prop :=
  ∀ front vertex back, finished = front ++ vertex :: back →
    ∀ next ∈ succ vertex, next ∈ front ∨ Reaches succ next vertex

lemma ordered_nil : Ordered succ [] := by
  intro front _ _ split
  cases front <;> cases split

lemma Ordered.concat {finished : List α} (ordered : Ordered succ finished)
    (behind : ∀ next ∈ succ vertex, next ∈ finished ∨ Reaches succ next vertex) :
    Ordered succ (finished ++ [vertex]) := by
  intro front other back split
  rcases eq_nil_or_concat back with rfl | ⟨rest, _, rfl⟩
  · obtain ⟨rfl, same⟩ := append_inj' split rfl
    cases same
    exact behind
  rw [concat_eq_append, ← cons_append, ← append_assoc] at split
  obtain ⟨hf, _⟩ := append_inj' split rfl
  exact ordered front other rest hf

/-- What holds when an exact search is at a vertex: what is open and not finished
leads to that vertex. -/
structure Sound (succ : α → List α) (vertex : α) (state : Search α) : Prop where
  nodup : state.visited.Nodup
  inProgress : ∀ other ∈ state.visited, other ∈ state.finished ∨ Reaches succ other vertex
  ordered : Ordered succ state.finished

def Closed (succ : α → List α) (after : Search α) (new : List (α × α)) : Prop :=
  ∀ edge ∈ new, ∀ next ∈ succ edge.2, next ∈ after.visited

lemma Sound.meeting
    (sound : Sound succ parent state) (vertex : α) : Sound succ parent (state.meeting vertex) :=
  ⟨sound.nodup, sound.inProgress, sound.ordered⟩

lemma Sound.opening (sound : Sound succ parent state) (isNext : vertex ∈ succ parent)
    (isNew : vertex ∉ state.visited) : Sound succ vertex (state.opening parent vertex) := by
  constructor
  · rw [Search.visited_opening]
    exact nodup_append.mpr ⟨sound.nodup, nodup_singleton vertex,
      fun other isOld _ hv same => isNew (by rw [← mem_singleton.mp hv, ← same]; exact isOld)⟩
  · intro other ho
    rw [Search.visited_opening] at ho
    rcases mem_append.mp ho with isOld | hv
    · rcases sound.inProgress other isOld with hf | leads
      · exact .inl hf
      · exact .inr (leads.tail isNext)
    rw [mem_singleton.mp hv]
    exact .inr refl
  · exact sound.ordered

lemma Sound.returning (sound : Sound succ parent state)
    (down : Extends succ vertex (state.opening parent vertex) below new done)
    (deeper : Sound succ vertex below) (all : ∀ next ∈ succ vertex, next ∈ below.visited) :
    Sound succ parent (below.finishing vertex) := by
  constructor
  · exact deeper.nodup
  · intro other ho
    have hib : other ∈ below.visited := ho
    change other ∈ below.finished ++ [vertex] ∨ _
    rw [down.visited, Search.visited_opening, append_assoc] at hib
    rcases mem_append.mp hib with isOld | later
    · rcases sound.inProgress other isOld with hf | leads
      · left
        rw [down.finished]
        exact mem_append_left _ (mem_append_left _ hf)
      · exact .inr leads
    left
    rcases mem_append.mp later with hv | isNew
    · exact mem_append_right _ hv
    rw [down.finished]
    exact mem_append_left _ (mem_append_right _ (down.perm.mem_iff.mpr isNew))
  apply deeper.ordered.concat
  intro next hn
  exact deeper.inProgress next (all next hn)

variable {root : α} {depth : Nat}

section

variable [DecidableEq α]

/-- What was visited has all its successors visited. -/
lemma Goes.closed (goes : Goes exact succ parent vertices state after)
    (succs : ∀ vertex ∈ vertices, vertex ∈ succ parent) (sound : Sound succ parent state) :
    ∃ new done, Extends succ parent state after new done ∧
      Sound succ parent after ∧ Closed succ after new ∧
      ∀ vertex ∈ vertices, vertex ∈ after.visited := by
  induction goes with
  | done parent state =>
    exact ⟨[], [], extends_refl parent state, sound, fun _ hed => (nomatch hed),
      fun _ hv => (nomatch hv)⟩
  | @meet _ vertex rest _ _ hs _ ih =>
    obtain ⟨new, done, on, hsa, hc, all⟩ :=
      ih (forall_mem_cons.mp succs).2 (sound.meeting vertex)
    refine ⟨new, done, on.of_meeting, hsa, hc, ?_⟩
    intro other ho
    rcases mem_cons.mp ho with rfl | hir
    · rw [on.of_meeting.visited]
      exact mem_append_left _ (of_decide_eq_true hs)
    · exact all other hir
  | @enter _ vertex rest _ last after hs _ _ ihd iho =>
    have hn := succs vertex mem_cons_self
    obtain ⟨_, _, down, hsl, hcl, hal⟩ :=
      ihd (fun _ hn => hn) (sound.opening hn (of_decide_eq_false hs))
    obtain ⟨_, _, on, hsa, hc, all⟩ :=
      iho (forall_mem_cons.mp succs).2 (sound.returning down hsl hal)
    have hk : ∀ other ∈ last.visited, other ∈ after.visited := by
      intro other ho
      rw [on.visited]
      exact mem_append_left _ ho
    refine ⟨_, _, down.of_opening hn on, hsa, ?_, ?_⟩
    · intro edge hed
      rcases mem_append.mp hed with hh | his
      · rcases mem_cons.mp hh with rfl | hif
        · exact fun other ho => hk other (hal other ho)
        · exact fun other ho => hk other (hcl edge hif other ho)
      · exact hc edge his
    intro other ho
    rcases mem_cons.mp ho with rfl | hir
    · apply hk
      rw [down.visited, Search.visited_opening]
      exact mem_append_left _ (mem_append_right _ mem_cons_self)
    · exact all other hir

/-- An exact search from a root that nothing leads to finishes what the root
leads to, once and in order. -/
lemma exact_search_spec (noEntry : ∀ vertex, root ∉ succ vertex)
    (isSearch : search exact succ depth root Search.empty = some after) :
    after.visited.Nodup ∧ after.finished.Nodup ∧
      (∀ vertex, vertex ∈ after.finished ↔ Reaches succ root vertex) ∧
      Ordered succ after.finished := by
  have start : Sound succ root Search.empty := ⟨nodup_nil, fun _ ho => (nomatch ho), ordered_nil⟩
  obtain ⟨last, hg, rfl⟩ := goes_of_search depth root _ after isSearch
  obtain ⟨new, done, extends_, sound, hc, all⟩ := hg.closed (fun _ hn => hn) start
  have hv := extends_.visited
  have hfi : last.finished = done := extends_.finished
  have hnr : root ∉ last.visited := by
    rw [hv]
    intro ho
    obtain ⟨edge, he, hro⟩ := mem_map.mp ho
    apply noEntry edge.1
    rw [← hro]
    exact extends_.edges edge he
  have hp : done.Perm last.visited := by
    rw [hv]
    exact extends_.perm
  have hf (vertex : α) : vertex ∈ (last.finishing root).finished ↔
      vertex ∈ last.visited ∨ vertex = root := by
    change vertex ∈ last.finished ++ [root] ↔ _
    rw [mem_append, hfi, hp.mem_iff, mem_singleton]
  refine ⟨sound.nodup, ?_, ?_, ?_⟩
  · change (last.finished ++ [root]).Nodup
    rw [hfi]
    exact nodup_append.mpr ⟨hp.nodup_iff.mpr sound.nodup,
      nodup_singleton root, fun vertex hd _ hro same => hnr (by
          rw [← mem_singleton.mp hro, ← same]
          exact hp.mem_iff.mp hd)⟩
  · intro vertex
    rw [hf]
    constructor
    · rintro (ho | rfl)
      · rw [hv] at ho
        obtain ⟨edge, he, rfl⟩ := mem_map.mp ho
        exact extends_.reached edge he
      · exact refl
    intro hr
    induction hr with
    | refl => exact .inr rfl
    | tail _ hn ih =>
      left
      rcases ih with ho | hro
      · rw [hv] at ho
        obtain ⟨edge, he, rfl⟩ := mem_map.mp ho
        exact hc edge he _ hn
      rw [hro] at hn
      exact all _ hn
  apply sound.ordered.concat
  intro next hn
  exact sound.inProgress next (all next hn)

end

variable {universe_ : Finset α}

section

variable [DecidableEq α]

def unvisited (universe_ : Finset α) (state : Search α) : Nat :=
  (universe_ \ state.visited.toFinset).card

lemma unvisited_opening (parent : α) (isVertex : vertex ∈ universe_)
    (isNew : vertex ∉ state.visited) :
    unvisited universe_ (state.opening parent vertex) < unvisited universe_ state := by
  apply Finset.card_lt_card
  rw [Finset.ssubset_iff_of_subset]
  · refine ⟨vertex, ?_, ?_⟩
    · rw [Finset.mem_sdiff, mem_toFinset]
      exact ⟨isVertex, isNew⟩
    rw [Finset.mem_sdiff, mem_toFinset, Search.visited_opening]
    intro hop
    exact hop.2 (mem_append_right _ mem_cons_self)
  apply Finset.sdiff_subset_sdiff (Finset.Subset.refl _)
  intro _ ho
  rw [mem_toFinset] at ho ⊢
  rw [Search.visited_opening]
  exact mem_append_left _ ho

lemma unvisited_le (extends_ : Extends succ vertex state after new done) :
    unvisited universe_ after ≤ unvisited universe_ state := by
  apply Finset.card_le_card
  apply Finset.sdiff_subset_sdiff (Finset.Subset.refl _)
  intro _ ho
  rw [mem_toFinset] at ho ⊢
  rw [extends_.visited]
  exact mem_append_left _ ho

/-- The search ends on a finite graph. -/
lemma exists_goes (closed : ∀ vertex, ∀ next ∈ succ vertex, next ∈ universe_) (bound : Nat) :
    ∀ (parent : α) (vertices : List α), (∀ next ∈ vertices, next ∈ universe_) →
      ∀ state : Search α, unvisited universe_ state < bound →
      ∃ after, Goes exact succ parent vertices state after := by
  induction bound with
  | zero => exact fun _ _ _ _ below => absurd below (Nat.not_lt_zero _)
  | succ bound ih =>
    intro parent vertices
    induction vertices with
    | nil => exact fun _ state _ => ⟨state, .done parent state⟩
    | cons next rest hrg =>
      intro hin state below
      have hri := (forall_mem_cons.mp hin).2
      cases hs : exact state.opened next with
      | true =>
        obtain ⟨after, on⟩ := hrg hri (state.meeting next) below
        exact ⟨after, .meet hs on⟩
      | false =>
        have hfe := unvisited_opening parent (hin next mem_cons_self) (of_decide_eq_false hs)
        obtain ⟨last, down⟩ := ih next (succ next) (closed next) (state.opening parent next)
          (by omega)
        obtain ⟨_, _, extends_⟩ := down.extends_ fun _ hn => hn
        have hl : unvisited universe_ last ≤ unvisited universe_ (state.opening parent next) :=
          unvisited_le extends_
        obtain ⟨after, on⟩ := hrg hri (last.finishing next) (by
          change unvisited universe_ last < _
          omega)
        exact ⟨after, .enter hs down on⟩

end

def Rooted (root : α) (opened : List (α × α)) : Prop :=
  ∀ edge ∈ opened, edge.1 = root ∨ edge.1 ∈ opened.map Prod.snd

/-- A set that never takes a new vertex for an old one. -/
def Trusted (seen : List (α × α) → α → Bool) (root : α) : Prop :=
  ∀ opened vertex, Rooted root opened → seen opened vertex = true → vertex ∈ opened.map Prod.snd

/-- Where a search stands: all edges are rooted, and so is the vertex. -/
structure Standing (root vertex : α) (state : Search α) : Prop where
  rooted : Rooted root state.opened
  vertex : vertex = root ∨ vertex ∈ state.visited

lemma Standing.meeting (standing : Standing root vertex state)
    (next : α) : Standing root vertex (state.meeting next) :=
  ⟨standing.rooted, standing.vertex⟩

lemma Standing.opening (standing : Standing root vertex state)
    (next : α) : Standing root next (state.opening vertex next) := by
  constructor
  · intro edge he
    change edge.1 = root ∨ edge.1 ∈ (state.opening vertex next).visited
    rw [Search.visited_opening]
    rcases mem_append.mp he with isOld | isNew
    · rcases standing.rooted edge isOld with hr | ho
      · exact .inl hr
      · exact .inr (mem_append_left _ ho)
    rw [mem_singleton.mp isNew]
    rcases standing.vertex with hr | ho
    · exact .inl hr
    · exact .inr (mem_append_left _ ho)
  right
  rw [Search.visited_opening]
  exact mem_append_right _ mem_cons_self

lemma Standing.returning (standing : Standing root parent state)
    (down : Extends succ vertex (state.opening parent vertex) below new done) :
    Standing root parent (below.finishing vertex) := by
  have hd := standing.opening vertex
  constructor
  · intro edge he
    change edge.1 = root ∨ edge.1 ∈ below.visited
    have hib : edge ∈ below.opened := he
    rw [down.visited]
    rw [down.opened] at hib
    rcases mem_append.mp hib with isOld | isNew
    · rcases hd.rooted edge isOld with hr | ho
      · exact .inl hr
      · exact .inr (mem_append_left _ ho)
    right
    rcases down.parents edge isNew with hv | ho
    · rw [hv, Search.visited_opening]
      exact mem_append_left _ (mem_append_right _ mem_cons_self)
    · exact mem_append_right _ ho
  rcases standing.vertex with hr | ho
  · exact .inl hr
  right
  change parent ∈ below.visited
  rw [down.visited, Search.visited_opening]
  exact mem_append_left _ (mem_append_left _ ho)

variable [DecidableEq α] (trusted : Trusted seen root)

include trusted

section

variable (succs : ∀ next ∈ vertices, next ∈ succ vertex) (start : Standing root vertex state)

include succs start

/-- What the exact search meets again is recognised: the search with the other
set is the same. -/
lemma Goes.of_recognised (goes : Goes exact succ vertex vertices state last)
    (known : ∀ met ∈ last.repeats, seen met.1 met.2 = true) :
    Goes seen succ vertex vertices state last := by
  induction goes with
  | done parent state => exact .done parent state
  | @meet _ next rest state _ _ on ih =>
    have hrn := (forall_mem_cons.mp succs).2
    obtain ⟨_, _, extends_⟩ := on.extends_ hrn
    obtain ⟨more, hm⟩ := extends_.repeats
    refine .meet (known (state.opened, next) ?_) (ih hrn (start.meeting next) known)
    rw [hm]
    exact mem_append_left _ (mem_append_right _ mem_cons_self)
  | @enter _ next rest state _ _ hno down on ihd iho =>
    have hrn := (forall_mem_cons.mp succs).2
    have hns : seen state.opened next = false := by
      by_contra hse
      exact of_decide_eq_false hno (trusted _ next start.rooted (by simpa using hse))
    obtain ⟨_, _, hd⟩ := down.extends_ fun _ hn => hn
    obtain ⟨_, _, extends_⟩ := on.extends_ hrn
    obtain ⟨more, hm⟩ := extends_.repeats
    refine .enter hns (ihd (fun _ hn => hn) (start.opening next) ?_)
      (iho hrn (start.returning hd) known)
    intro met hme
    apply known met
    rw [hm]
    exact mem_append_left _ hme

/-- A search that opens nothing twice is the exact one, and has recognised what
it met again. -/
lemma Goes.exact_of_nodup (goes : Goes seen succ vertex vertices state last)
    (nodup : last.visited.Nodup) (known : ∀ met ∈ state.repeats, seen met.1 met.2 = true) :
    Goes exact succ vertex vertices state last ∧
      ∀ met ∈ last.repeats, seen met.1 met.2 = true := by
  induction goes with
  | done parent state => exact ⟨.done parent state, known⟩
  | @meet _ next rest state _ hse _ ih =>
    obtain ⟨same, hrl⟩ := ih (forall_mem_cons.mp succs).2
      (start.meeting next) nodup (by
        intro met hm
        rcases mem_append.mp hm with hol | hn
        · exact known met hol
        rw [mem_singleton.mp hn]
        exact hse)
    exact ⟨.meet (decide_eq_true (trusted _ next start.rooted hse)) same, hrl⟩
  | @enter parent next rest state deepest last hns down on ihd iho =>
    have hrn := (forall_mem_cons.mp succs).2
    obtain ⟨_, _, hd⟩ := down.extends_ fun _ hn => hn
    obtain ⟨second, _, extends_⟩ := on.extends_ hrn
    have all := extends_.visited
    have hdn : deepest.visited.Nodup := by
      rw [all] at nodup
      exact (nodup_append.mp nodup).1
    have hon : (state.opening parent next).visited.Nodup := by
      have hw := hdn
      rw [hd.visited] at hw
      exact (nodup_append.mp hw).1
    have hno : exact state.opened next = false := by
      apply decide_eq_false
      intro hop
      rw [Search.visited_opening] at hon
      exact (nodup_append.mp hon).2.2 next hop next mem_cons_self rfl
    obtain ⟨first, hru⟩ := ihd (fun _ hn => hn) (start.opening next) hdn known
    obtain ⟨same, hrl⟩ := iho hrn (start.returning hd) nodup hru
    exact ⟨.enter hno first same, hrl⟩

end

/-- A search that finishes what the root leads to exactly once has recognised all
that the exact search meets again. -/
lemma recognised_of_once [BEq α] [LawfulBEq α]
    (isSearch : search seen succ depth root Search.empty = some after)
    (once : ∀ vertex, Reaches succ root vertex → after.finished.count vertex = 1) {other : Nat}
    (isExact : search exact succ other root Search.empty = some result) :
    ∀ met ∈ result.repeats, seen met.1 met.2 = true := by
  have start : Standing root root (Search.empty : Search α) :=
    ⟨fun _ hed => (nomatch hed), .inl rfl⟩
  obtain ⟨last, hg, rfl⟩ := goes_of_search depth root _ after isSearch
  obtain ⟨found, hge, rfl⟩ := goes_of_search other root _ result isExact
  obtain ⟨new, done, extends_⟩ := hg.extends_ fun _ nodup => nodup
  have hv : last.visited = new.map Prod.snd := extends_.visited
  have hf : last.finished = done := extends_.finished
  have nodup : last.visited.Nodup := by
    rw [nodup_iff_count_le_one]
    intro vertex
    by_cases ho : vertex ∈ last.visited
    · have hr : Reaches succ root vertex := by
        rw [hv] at ho
        obtain ⟨edge, hed, rfl⟩ := mem_map.mp ho
        exact extends_.reached edge hed
      have heo := once vertex hr
      change (last.finished ++ [root]).count vertex = 1 at heo
      rw [count_append, hf, extends_.perm.count_eq, ← hv] at heo
      omega
    rw [count_eq_zero_of_not_mem ho]
    exact Nat.zero_le 1
  obtain ⟨same, hre⟩ := hg.exact_of_nodup trusted (fun _ hx => hx) start nodup fun _ hm =>
    (nomatch hm)
  rw [hge.unique same]
  exact hre

/-- If the set recognises all that the exact search meets again, the search with
it is right. -/
lemma once_of_recognised [BEq α] [LawfulBEq α] (noEntry : ∀ vertex, root ∉ succ vertex)
    (finite : ∀ vertex, ∀ next ∈ succ vertex, next ∈ universe_)
    (recognised : ∀ depth after, search exact succ depth root Search.empty = some after →
      ∀ met ∈ after.repeats, seen met.1 met.2 = true) :
    ∃ depth after, search seen succ depth root Search.empty = some after ∧
      (∀ vertex, Reaches succ root vertex → after.finished.count vertex = 1) ∧
      Ordered succ after.finished := by
  have start : Standing root root (Search.empty : Search α) := ⟨fun _ he => (nomatch he), .inl rfl⟩
  obtain ⟨last, hg⟩ := exists_goes finite (unvisited universe_ (Search.empty : Search α) + 1) root
    (succ root) (finite root) Search.empty (Nat.lt_succ_self _)
  obtain ⟨depth, hex⟩ := hg.search_eq
  obtain ⟨_, nodup, hre, ho⟩ := exact_search_spec noEntry hex
  have hrl : ∀ met ∈ last.repeats, seen met.1 met.2 = true :=
    recognised depth (last.finishing root) hex
  obtain ⟨deeper, hse⟩ := (hg.of_recognised trusted (fun _ hx => hx) start hrl).search_eq
  refine ⟨deeper, _, hse, ?_, ho⟩
  intro vertex hrea
  exact count_eq_one_of_mem nodup ((hre vertex).mpr hrea)

end OoOS.Lib.DepthFirst
