import OoOS.Ld.RtldMap
import OoOS.Lib.DepthFirst

/-!
# Loading the dependencies of a program

`__load_deps` is a depth-first search whose set of open objects is `rtld_map`,
where an object is met again as if it were new.
-/

namespace OoOS.Ld

open List Lib.DepthFirst

/-- A finite graph of shared objects; `depends` is what the kernel's call returns. -/
structure ObjectGraph where
  objects : Finset Nat
  depends : Option Nat → List Nat
  closed : ∀ object, ∀ so ∈ depends object, so ∈ objects

structure LoadState where
  map : RtldMap
  initialised : List (Option Nat)

def loadEach (go : Option Nat → LoadState → Option LoadState)
    (object : Option Nat) : List Nat → LoadState → Option LoadState
  | [], state => some state
  | so :: rest, state =>
    match state.map.add so with
    | (none, _) => loadEach go object rest state
    | (some number, added) =>
      (go (some so) { state with map := added.dlmap object number }).bind
        (loadEach go object rest)

def loadDeps (graph : ObjectGraph) : Nat → Option Nat → LoadState → Option LoadState
  | 0, _, _ => none
  | depth + 1, object, state =>
    (loadEach (loadDeps graph depth) object (graph.depends object)
      state).map
      fun after => { after with initialised := after.initialised ++ [object] }

def dlbegin (graph : ObjectGraph) (depth : Nat) : Option LoadState :=
  loadDeps graph depth none ⟨RtldMap.initial, []⟩

namespace ObjectGraph

def succ (graph : ObjectGraph) (object : Option Nat) : List (Option Nat) :=
  (graph.depends object).map some

lemma none_notMem_succ (graph : ObjectGraph) (object : Option Nat) :
    none ∉ graph.succ object := by
  intro hp
  obtain ⟨so, _, hn⟩ := mem_map.mp hp
  cases hn

lemma mem_objects_of_mem_succ (graph : ObjectGraph) (object : Option Nat) :
    ∀ next ∈ graph.succ object, next ∈ graph.objects.image some := by
  intro next hn
  obtain ⟨so, isSo, rfl⟩ := mem_map.mp hn
  exact Finset.mem_image_of_mem some (graph.closed object so isSo)

end ObjectGraph

def entriesOf : List (Option Nat × Option Nat) → List Entry :=
  List.foldl
    (fun entries edge =>
      match edge.2 with
      | none => entries
      | some so => insertEntry ⟨bucketIndex so, edge.1.getD so⟩ entries)
    []

def recognised (opened : List (Option Nat × Option Nat)) : Option Nat → Bool
  | none => false
  | some so => finds (entriesOf opened) so

lemma mem_insertEntry {entry other : Entry} {entries : List Entry}
    (isEntry : other ∈ insertEntry entry entries) : other = entry ∨ other ∈ entries := by
  unfold insertEntry at isEntry
  split at isEntry
  · rcases mem_append.mp isEntry with hif | hb
    · exact .inr (takeWhile_sublist _ |>.subset hif)
    rcases mem_cons.mp hb with isNew | hir
    · exact .inl isNew
    · exact .inr (dropWhile_sublist _ |>.subset hir)
  · exact mem_cons.mp isEntry

lemma entriesOf_concat (opened : List (Option Nat × Option Nat)) (object : Option Nat) (so : Nat) :
    entriesOf (opened ++ [(object, some so)]) =
      insertEntry ⟨bucketIndex so, object.getD so⟩ (entriesOf opened) := by
  unfold entriesOf
  rw [foldl_append]
  rfl

lemma handle_of_mem_entriesOf (opened : List (Option Nat × Option Nat)) :
    ∀ entry ∈ entriesOf opened, ∃ edge ∈ opened, ∃ so,
      edge.2 = some so ∧ entry.handle = edge.1.getD so := by
  induction opened using reverseRecOn with
  | nil =>
    intro entry he
    cases he
  | append_singleton opened last ih =>
    intro entry he
    obtain ⟨object, target⟩ := last
    have later (isOld : entry ∈ entriesOf opened) : ∃ edge ∈ opened ++ [(object, target)], ∃ so,
          edge.2 = some so ∧ entry.handle = edge.1.getD so := by
      obtain ⟨edge, hed, so, isSo, hh⟩ := ih entry isOld
      exact ⟨edge, mem_append_left _ hed, so, isSo, hh⟩
    cases target with
    | none =>
      apply later
      unfold entriesOf at he ⊢
      rw [foldl_append] at he
      exact he
    | some so =>
      rw [entriesOf_concat] at he
      rcases mem_insertEntry he with rfl | isOld
      · exact ⟨_, mem_append_right _ mem_cons_self, so, rfl, rfl⟩
      · exact later isOld

lemma trusted_recognised : Trusted recognised none := by
  intro opened object hr hs
  cases object with
  | none => cases hs
  | some _ =>
    obtain ⟨entry, he, isSo⟩ := any_eq_true.mp hs
    have hic : entry ∈ entriesOf opened := (dropWhile_sublist _).subset
        ((takeWhile_sublist _).subset he)
    obtain ⟨⟨object, _⟩, hed, _, rfl, hh⟩ := handle_of_mem_entriesOf opened entry hic
    rw [of_decide_eq_true isSo] at hh
    cases object with
    | none =>
      rw [hh]
      exact mem_map.mpr ⟨_, hed, rfl⟩
    | some _ =>
      rcases hr _ hed with hp | ho
      · cases hp
      rw [hh]
      exact ho

def Stands (state : LoadState) (found : Search (Option Nat)) : Prop :=
  state.initialised = found.finished ∧ ∃ chain made, state.map.Chained chain made ∧
      state.map.entries made chain = entriesOf found.opened

lemma stands_initial : Stands ⟨RtldMap.initial, []⟩ Search.empty :=
  ⟨rfl, [], fun _ => 0, RtldMap.chained_initial _, rfl⟩

variable {found : Search (Option Nat)} {state : LoadState}

lemma Stands.add (stands : Stands state found) (so : Nat) :
    state.map.add so = if recognised found.opened (some so) then (none, state.map)
      else (some state.map.elementCount, state.map.addNode so) := by
  obtain ⟨_, _, _, hc, hch⟩ := stands
  unfold RtldMap.add recognised
  rw [hc.findBefore_isSome, hch]

lemma Stands.opening (stands : Stands state found) (object : Option Nat) (so : Nat) : Stands
      { state with
        map := (state.map.addNode so).dlmap object state.map.elementCount }
      (found.opening object (some so)) := by
  obtain ⟨hf, _, _, hc, hch⟩ := stands
  obtain ⟨after, hca, ha⟩ := hc.open_ object so
  refine ⟨hf, after, _, hca, ?_⟩
  change _ = entriesOf (found.opened ++ [(object, some so)])
  rw [entriesOf_concat, ← hch]
  exact ha

lemma loadEach_stands {go : Option Nat → LoadState → Option LoadState}
    {below : Option Nat → Search (Option Nat) → Option (Search (Option Nat))}
    (same : ∀ object state found, Stands state found →
      Option.Rel Stands (go object state) (below object found)) (object : Option Nat)
    (deps : List Nat) (stands : Stands state found) :
    Option.Rel Stands (loadEach go object deps state)
      (each recognised below object (deps.map some) found) := by
  induction deps generalizing state found with
  | nil => exact Option.Rel.some stands
  | cons so _ ih =>
    rw [loadEach, stands.add, map_cons, each]
    cases hse : recognised found.opened (some so) with
    | true =>
      exact ih ⟨stands.1, stands.2⟩
    | false =>
      rw [if_neg Bool.false_ne_true, if_neg Bool.false_ne_true]
      dsimp only
      have hd := same (some so) _ _ (stands.opening object so)
      generalize go (some so) _ = left at hd ⊢
      generalize below (some so) _ = right at hd ⊢
      cases hd with
      | none => exact Option.Rel.none
      | some hsa => exact ih hsa

/-- The loader is a depth-first search. -/
lemma loadDeps_stands (graph : ObjectGraph) (depth : Nat) :
    ∀ (object : Option Nat) (state : LoadState) (found : Search (Option Nat)), Stands state found →
      Option.Rel Stands (loadDeps graph depth object state)
        (search recognised graph.succ depth object found) := by
  induction depth with
  | zero => exact fun _ _ _ _ => Option.Rel.none
  | succ depth ih =>
    intro object state found hs
    have below := loadEach_stands ih object (graph.depends object) hs
    rw [loadDeps, search]
    unfold ObjectGraph.succ
    unfold ObjectGraph.succ at below
    generalize loadEach _ object _ state = left at below ⊢
    generalize each _ _ object _ found = right at below ⊢
    cases below with
    | none => exact Option.Rel.none
    | some hsa =>
      obtain ⟨hf, hc⟩ := hsa
      refine Option.Rel.some ⟨?_, hc⟩
      change _ ++ [object] = _ ++ [object]
      rw [hf]

variable {after : LoadState}

lemma loadEach_congr {go deeper : Option Nat → LoadState → Option LoadState}
    (more : ∀ object state after, go object state = some after → deeper object state = some after)
    (object : Option Nat) (deps : List Nat) (isLoad : loadEach go object deps state = some after) :
    loadEach deeper object deps state = some after := by
  induction deps generalizing state with
  | nil => exact isLoad
  | cons so _ ih =>
    rw [loadEach] at isLoad ⊢
    generalize state.map.add so = added at isLoad ⊢
    obtain ⟨number, map⟩ := added
    cases number with
    | none => exact ih isLoad
    | some number =>
      obtain ⟨below, hb, hr⟩ := Option.bind_eq_some_iff.mp isLoad
      dsimp only
      rw [more _ _ below hb]
      exact ih hr

variable {graph : ObjectGraph}

lemma loadDeps_succ (depth : Nat) :
    ∀ (object : Option Nat) (state after : LoadState),
      loadDeps graph depth object state = some after →
      loadDeps graph (depth + 1) object state = some after := by
  induction depth with
  | zero =>
    intro object state after hl
    cases hl
  | succ depth ih =>
    intro object state after hl
    obtain ⟨_, he, rfl⟩ := Option.map_eq_some_iff.mp hl
    rw [loadDeps, loadEach_congr ih object _ he]
    rfl

variable {object : Option Nat}

lemma loadDeps_le {depth deeper : Nat} (le : depth ≤ deeper)
    (isLoad : loadDeps graph depth object state = some after) :
    loadDeps graph deeper object state = some after := by
  induction le with
  | refl => exact isLoad
  | step _ ih => exact loadDeps_succ _ object state after ih

lemma loadDeps_unique {depth other : Nat}
    {result : LoadState} (isLoad : loadDeps graph depth object state = some after)
    (isOther : loadDeps graph other object state = some result) : after = result := by
  have left := loadDeps_le (Nat.le_max_left depth other) isLoad
  have right := loadDeps_le (Nat.le_max_right depth other) isOther
  exact Option.some.inj (left.symm.trans right)

def ObjectGraph.Acyclic (graph : ObjectGraph) : Prop :=
  ∀ object, ¬ Relation.TransGen
    (fun dependent next => next ∈ graph.succ dependent) object object

/-- `dlbegin` ends and runs all initialisers once, in an acyclic graph behind
those of the dependencies. -/
def RunsOnce (graph : ObjectGraph) : Prop :=
  ∃ depth state, dlbegin graph depth = some state ∧ (∀ object, Reaches graph.succ none object →
      state.initialised.count object = 1) ∧
    (graph.Acyclic → ∀ front object back, state.initialised = front ++ object :: back →
      ∀ so ∈ graph.depends object, some so ∈ front)

/-- Each object that a depth-first search meets again is recognised by what the
nodes carry then. -/
def Recognises (graph : ObjectGraph) : Prop :=
  ∀ depth found, search exact graph.succ depth none Search.empty = some found →
    ∀ met ∈ found.repeats, recognised met.1 met.2 = true

/-- Dependencies are loaded once and in order just if every object that is met
again is recognised. -/
theorem runsOnce_iff (graph : ObjectGraph) : RunsOnce graph ↔ Recognises graph := by
  constructor
  · rintro ⟨depth, state, loaded, once, _⟩ _ _ path
    have stands := loadDeps_stands graph depth none _ _ stands_initial
    unfold dlbegin at loaded
    rw [loaded] at stands
    cases searched : search recognised graph.succ depth none Search.empty with
    | none =>
      rw [searched] at stands
      cases stands
    | some result =>
      rw [searched] at stands
      cases stands with
      | some same =>
        rw [same.1] at once
        exact recognised_of_once trusted_recognised searched once path
  intro known
  obtain ⟨depth, result, searched, once, inOrder⟩ :=
    once_of_recognised trusted_recognised graph.none_notMem_succ graph.mem_objects_of_mem_succ known
  have stands := loadDeps_stands graph depth none _ _ stands_initial
  rw [searched] at stands
  cases loaded : loadDeps graph depth none ⟨RtldMap.initial, []⟩ with
  | none =>
    rw [loaded] at stands
    cases stands
  | some state =>
    rw [loaded] at stands
    cases stands with
    | some same =>
      refine ⟨depth, state, loaded, ?_, ?_⟩
      · rw [same.1]
        exact once
      intro acyclic front object back split so isSo
      rw [same.1] at split
      have needs : some so ∈ graph.succ object := mem_map.mpr ⟨so, isSo, rfl⟩
      rcases inOrder front object back split _ needs with
        isDone | leadsBack
      · exact isDone
      · exact absurd (Relation.TransGen.head' needs leadsBack) (acyclic object)

def diamond : ObjectGraph where
  objects := {1, 2, 3}
  depends := fun object =>
    if object = none then [1, 2]
    else if object = some 1 ∨ object = some 2 then [3]
    else []
  closed := by
    intro object so isSo
    split at isSo
    · rcases mem_cons.mp isSo with rfl | isLast
      · decide
      · rw [mem_singleton.mp isLast]
        decide
    · split at isSo
      · rw [mem_singleton.mp isSo]
        decide
      · cases isSo

/-- The initialisers of the object 3 run twice. -/
theorem not_runsOnce_diamond :
    (dlbegin diamond 3).map LoadState.initialised = some [some 3, some 1, some 3, some 2, none] ∧
      ¬ RunsOnce diamond := by
  have hl : (dlbegin diamond 3).map LoadState.initialised =
      some [some 3, some 1, some 3, some 2, none] := by
    decide
  refine ⟨hl, ?_⟩
  rintro ⟨_, state, hs, once, _⟩
  obtain ⟨other, ho, hin⟩ := Option.map_eq_some_iff.mp hl
  have same : state = other := loadDeps_unique hs ho
  have hr : Reaches diamond.succ none (some 3) :=
    (Relation.ReflTransGen.single (show some 1 ∈ diamond.succ none by
      decide)).tail (show some 3 ∈ diamond.succ (some 1) by decide)
  have heo := once (some 3) hr
  rw [same, hin] at heo
  exact absurd heo (by decide)

end OoOS.Ld
