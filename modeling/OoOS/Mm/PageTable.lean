import OoOS.Lib.Tree
import OoOS.Mm.Layout

/-!
# Page tables

Four levels of 512 entries each.  A table is named by the address of its page;
`allocate_pt` is the list of pages it returns from one call to the next, where 0
is a call that fails.
-/

namespace OoOS.Mm

open List Lib Libk

structure PtEntry where
  present : Bool := false
  write : Bool := false
  userAccess : Bool := false
  writeThru : Bool := false
  cacheDisable : Bool := false
  global : Bool := false
  physicalAddress : Nat := 0
  executeDisable : Bool := false
  deriving DecidableEq, Repr

def frameNumber (addr : Nat) : Nat := addr / pageSize % 2 ^ 36

def pageIdx (addr : Nat) : Nat := addr / 2 ^ 12 % 512

def pdIdx (addr : Nat) : Nat := addr / 2 ^ 21 % 512

def pdpIdx (addr : Nat) : Nat := addr / 2 ^ 30 % 512

def pml4Idx (addr : Nat) : Nat := addr / 2 ^ 39 % 512

structure Paging where
  tables : Nat → Nat → PtEntry
  pool : List Nat

namespace Paging

def setEntry (paging : Paging) (table idx : Nat) (entry : PtEntry) : Paging :=
  { paging with
    tables := fun t i =>
      if t = table ∧ i = idx then entry else paging.tables t i }

def allocatePt (paging : Paging) : Nat × Paging :=
  match paging.pool with
  | [] => (0, paging)
  | page :: rest =>
    if page = 0 then (0, { paging with pool := rest })
    else
      (page,
        { tables := fun t i => if t = page then {} else paging.tables t i
          pool := rest })

def target (entry : PtEntry) : Nat := entry.physicalAddress * pageSize

def findTable (paging : Paging) (ofPage pml4 : Nat) : Nat :=
  let pml4Entry := paging.tables pml4 (pml4Idx ofPage)
  if pml4Entry.present then
    let pdpEntry := paging.tables (target pml4Entry) (pdpIdx ofPage)
    if pdpEntry.present then
      let pdEntry := paging.tables (target pdpEntry) (pdIdx ofPage)
      if pdEntry.present then target pdEntry else 0
    else 0
  else 0

def buildNewPt (paging : Paging) (table idx : Nat) (writeThru : Bool) : Nat × Paging :=
  let (result, paging) := paging.allocatePt
  if result ≠ 0 then
    (result, paging.setEntry table idx
      { present := true, write := true, userAccess := true
        writeThru := writeThru, physicalAddress := frameNumber result })
  else (0, paging)

/-- The two flags that `__get_table` sets on every entry it passes. -/
def touchEntry (paging : Paging) (table idx : Nat) (writeThru : Bool) : Paging :=
  paging.setEntry table idx
    { paging.tables table idx with
      writeThru := writeThru, userAccess := true }

def getTable (paging : Paging) (ofPage : Nat) (writeThru : Bool) (pml4 : Nat) : Nat × Paging :=
  let pml4Entry := paging.tables pml4 (pml4Idx ofPage)
  if pml4Entry.present then
    let paging := paging.touchEntry pml4 (pml4Idx ofPage) writeThru
    let pdp := target pml4Entry
    let pdpEntry := paging.tables pdp (pdpIdx ofPage)
    if pdpEntry.present then
      let paging := paging.touchEntry pdp (pdpIdx ofPage) writeThru
      let pd := target pdpEntry
      let pdEntry := paging.tables pd (pdIdx ofPage)
      if pdEntry.present then
        (target pdEntry, paging.touchEntry pd (pdIdx ofPage) writeThru)
      else paging.buildNewPt pd (pdIdx ofPage) writeThru
    else
      let (pd, paging) := paging.buildNewPt pdp (pdpIdx ofPage) writeThru
      if pd ≠ 0 then paging.buildNewPt pd (pdIdx ofPage) writeThru
      else (0, paging)
  else
    let (pdp, paging) := paging.buildNewPt pml4 (pml4Idx ofPage) writeThru
    if pdp ≠ 0 then
      let (pd, paging) := paging.buildNewPt pdp (pdpIdx ofPage) writeThru
      if pd ≠ 0 then paging.buildNewPt pd (pdIdx ofPage) writeThru
      else (0, paging)
    else (0, paging)

/-- The loop of `__map_user_pages`; `first` is the round `i = 0`. -/
def mapLoop (pml4 : Nat) (write execute : Bool) :
    (remaining : Nat) → (first : Bool) → Paging → (pt curr phys : Nat) → Bool × Paging
  | 0, _, paging, _, _, _ => (true, paging)
  | remaining + 1, first, paging, pt, curr, phys =>
    let (pt, paging) :=
      if first = false ∧ pageIdx curr = 0 then
        paging.getTable curr false pml4
      else (pt, paging)
    if pt = 0 then (false, paging)
    else
      mapLoop pml4 write execute remaining false
        (paging.setEntry pt (pageIdx curr)
          { present := true, write := write, userAccess := true
            physicalAddress := frameNumber phys
            executeDisable := !execute })
        pt (wadd curr pageSize) (wadd phys pageSize)

def mapUserPages (paging : Paging) (startVaddr startPaddr pages pml4 : Nat)
    (write execute : Bool) : Nat × Paging :=
  if startVaddr ≠ 0 ∧ startPaddr ≠ 0 ∧ pages ≠ 0 ∧ pml4 ≠ 0 then
    let (pt, paging) := paging.getTable startVaddr false pml4
    if pt = 0 then (0, paging)
    else
      let (mapped, paging) := mapLoop pml4 write execute pages true paging pt startVaddr startPaddr
      (if mapped then startVaddr else 0, paging)
  else (0, paging)

def frameTranslate (paging : Paging) (pml4 addr : Nat) : Nat :=
  let pt := paging.findTable addr pml4
  let entry := paging.tables pt (pageIdx addr)
  if pt ≠ 0 ∧ entry.present = true ∧ entry.physicalAddress ≠ 0 then
    entry.physicalAddress * pageSize + addr % pageSize
  else 0

end Paging

namespace Paging

def child (paging : Paging) (table idx : Nat) : Option Nat :=
  if (paging.tables table idx).present then
    some (target (paging.tables table idx))
  else none

def leafPath (addr : Nat) : List Nat := [pdIdx addr, pdpIdx addr, pml4Idx addr]

/-- The leaf entry for an address; an entry of a missing table is absent. -/
def leafEntry (paging : Paging) (root addr : Nat) : PtEntry :=
  match walk paging.child root (leafPath addr) with
  | none => {}
  | some table => paging.tables table (pageIdx addr)

def translateEntry (entry : PtEntry) (addr : Nat) : Nat :=
  if entry.present = true ∧ entry.physicalAddress ≠ 0 then
    entry.physicalAddress * pageSize + addr % pageSize
  else 0

/-- Pages that `allocate_pt` may return: aligned, within the physical address
space, and none of them twice. -/
structure FreshPages (pool : List Nat) : Prop where
  distinct : (pool.filter (· ≠ 0)).Nodup
  aligned : ∀ page ∈ pool, page % pageSize = 0
  bounded : ∀ page ∈ pool, page < 2 ^ 48

/-- The tables below the root are pairwise distinct pages, none of them null,
and the pages still to be allocated are new. -/
structure TreeShaped (root : Nat) (paging : Paging) : Prop where
  tree : IsTree paging.child root 3
  nonzero : ∀ (path : List Nat) (table : Nat), path.length ≤ 3 →
    walk paging.child root path = some table → table ≠ 0
  fresh : ∀ (path : List Nat) (table : Nat), path.length ≤ 3 →
    walk paging.child root path = some table → table ∉ paging.pool
  pool : FreshPages paging.pool

/-- `after` has the tables of `before`, possibly more, and the same leaf
entries. -/
structure Extends (root : Nat) (before after : Paging) : Prop where
  shaped : TreeShaped root after
  keeps : ∀ (path : List Nat) (table : Nat), path.length ≤ 3 →
    walk before.child root path = some table →
    walk after.child root path = some table
  leaf : ∀ addr, after.leafEntry root addr = before.leafEntry root addr

variable {root table idx : Nat} {above : List Nat} {paging before middle after : Paging}

lemma Extends.refl (shaped : TreeShaped root paging) : Extends root paging paging where
  shaped := shaped
  keeps := fun _ _ _ hr => hr
  leaf := fun _ => rfl

lemma Extends.trans (first : Extends root before middle)
    (second : Extends root middle after) : Extends root before after where
  shaped := second.shaped
  keeps := fun path table hb hr => second.keeps path table hb (first.keeps path table hb hr)
  leaf := fun addr => (second.leaf addr).trans (first.leaf addr)

lemma findTable_eq_walk (paging : Paging) (root addr : Nat) :
    paging.findTable addr root = (walk paging.child root (leafPath addr)).getD 0 := by
  simp only [findTable, leafPath, walk, child]
  by_cases hap : (paging.tables root (pml4Idx addr)).present = true
  · simp only [hap, if_true]
    by_cases atPdp : (paging.tables (target (paging.tables root
        (pml4Idx addr))) (pdpIdx addr)).present = true
    · simp only [atPdp, if_true]
      split <;> rfl
    · simp [atPdp]
  · simp [hap]

lemma frameTranslate_eq (shaped : TreeShaped root paging) (addr : Nat) :
    paging.frameTranslate root addr = translateEntry (paging.leafEntry root addr) addr := by
  simp only [frameTranslate, findTable_eq_walk]
  cases hr : walk paging.child root (leafPath addr) with
  | none =>
    have ha : paging.leafEntry root addr = {} := by rw [leafEntry, hr]
    simp [ha, translateEntry]
  | some table =>
    have hn := shaped.nonzero _ table (by simp [leafPath]) hr
    have entry : paging.leafEntry root addr = paging.tables table (pageIdx addr) := by
      rw [leafEntry, hr]
    simp [entry, hn, translateEntry]

lemma TreeShaped.congr (shaped : TreeShaped root before) (after : Paging)
    (same : ∀ (path : List Nat) (table : Nat), path.length < 3 →
      walk before.child root path = some table →
      ∀ idx, after.child table idx = before.child table idx) (samePool : after.pool = before.pool) :
    TreeShaped root after ∧ ∀ path : List Nat, path.length ≤ 3 →
      walk after.child root path = walk before.child root path := by
  have walks : ∀ path : List Nat, path.length ≤ 3 →
      walk after.child root path = walk before.child root path :=
    fun path bounded => walk_congr same bounded
  refine ⟨⟨?_, ?_, ?_, ?_⟩, walks⟩
  · intro first second node hfb hsb haf hase
    rw [walks first hfb] at haf
    rw [walks second hsb] at hase
    exact shaped.tree hfb hsb haf hase
  · intro path node bounded reached
    rw [walks path bounded] at reached
    exact shaped.nonzero path node bounded reached
  · intro path node bounded reached
    rw [walks path bounded] at reached
    rw [samePool]
    exact shaped.fresh path node bounded reached
  rw [samePool]
  exact shaped.pool

lemma extends_touchEntry (shaped : TreeShaped root paging)
    (reached : walk paging.child root above = some table) (inner : above.length < 3) (idx : Nat)
    (writeThru : Bool) : Extends root paging (paging.touchEntry table idx writeThru) := by
  have links : ∀ node position, (paging.touchEntry table idx writeThru).child node position =
        paging.child node position := by
    intro node position
    simp only [child, touchEntry, setEntry, target]
    by_cases here : node = table ∧ position = idx
    · rw [if_pos here, here.1, here.2]
    · rw [if_neg here]
  obtain ⟨shaped', walks⟩ := shaped.congr (paging.touchEntry table idx writeThru)
    (fun _ node _ _ position => links node position) rfl
  refine ⟨shaped', ?_, ?_⟩
  · intro path node bounded hap
    rw [walks path bounded]
    exact hap
  intro addr
  have length : (leafPath addr).length = 3 := rfl
  simp only [leafEntry]
  rw [walks _ (by omega)]
  cases hal : walk paging.child root (leafPath addr) with
  | none => rfl
  | some leaf =>
    -- The touched table is above the leaves, so it is not this one.
    have other : leaf ≠ table := by
      intro equal
      rw [equal] at hal
      have paths := shaped.tree (by omega) (by omega) hal reached
      rw [paths] at length
      omega
    simp [touchEntry, setEntry, other]

variable {page : Nat} {rest : List Nat}

lemma FreshPages.tail (pages : FreshPages (page :: rest)) : FreshPages rest where
  distinct := by
    have distinct := pages.distinct
    by_cases null : page = 0
    · simpa [filter_cons, null] using distinct
    rw [filter_cons_of_pos (by simpa using null)] at distinct
    exact distinct.of_cons
  aligned := (forall_mem_cons.mp pages.aligned).2
  bounded := (forall_mem_cons.mp pages.bounded).2

lemma FreshPages.not_mem_tail (pages : FreshPages (page :: rest)) (nonzero : page ≠ 0) :
    page ∉ rest := by
  have hd := pages.distinct
  rw [filter_cons_of_pos (by simpa using nonzero)] at hd
  intro mem
  apply (nodup_cons.mp hd).1
  simpa using ⟨mem, nonzero⟩

lemma frameNumber_mul (aligned : page % pageSize = 0)
    (bounded : page < 2 ^ 48) : frameNumber page * pageSize = page := by
  simp only [frameNumber, pageSize] at *
  omega

lemma extends_of_same_tables (shaped : TreeShaped root paging) (fresh : FreshPages rest)
    (sublist : ∀ page ∈ rest, page ∈ paging.pool) :
    Extends root paging { paging with pool := rest } where
  shaped :=
    { tree := shaped.tree
      nonzero := shaped.nonzero
      fresh := fun path node hb hr mem => shaped.fresh path node hb hr (sublist node mem)
      pool := fresh }
  keeps := fun _ _ _ hr => hr
  leaf := fun _ => rfl

def linkPage (paging : Paging) (table idx page : Nat) (rest : List Nat) (writeThru : Bool) :
    Paging :=
  Paging.setEntry
    { tables := fun t i => if t = page then {} else paging.tables t i
      pool := rest }
    table idx
    { present := true, write := true, userAccess := true
      writeThru := writeThru, physicalAddress := frameNumber page }

section

variable (shaped : TreeShaped root paging)

include shaped

lemma attached_linkPage (pool : paging.pool = page :: rest)
    (vacant : (paging.tables table idx).present = false) (ne : table ≠ page) (writeThru : Bool) :
    Attached paging.child (paging.linkPage table idx page rest writeThru).child table idx page where
  vacant := by simp [child, vacant]
  linked := by
    have mem : page ∈ paging.pool := by simp [pool]
    have round := frameNumber_mul (shaped.pool.aligned page mem) (shaped.pool.bounded page mem)
    simp [child, linkPage, setEntry, target, round]
  leaf := by
    simp [child, linkPage, setEntry, Ne.symm ne]
  other := by
    intro node position hnn hnh
    have he : ¬(node = table ∧ position = idx) := by
      intro both
      exact hnh both.1 both.2
    simp [child, linkPage, setEntry, he, hnn]

/-- A new table is hung into a vacant entry. -/
lemma extends_linkPage (pool : paging.pool = page :: rest)
    (nonzero : page ≠ 0) (vacant : (paging.tables table idx).present = false)
    (reached : walk paging.child root above = some table) (inner : above.length < 3)
    (writeThru : Bool) :
    Extends root paging (paging.linkPage table idx page rest writeThru) ∧
      walk (paging.linkPage table idx page rest writeThru).child root
        (idx :: above) = some page := by
  have hip : page ∈ paging.pool := by simp [pool]
  have fresh : ∀ path : List Nat, path.length ≤ 3 → walk paging.child root path ≠ some page := by
    intro path bounded hap
    exact shaped.fresh path page bounded hap hip
  have ne : table ≠ page := by
    intro equal
    rw [equal] at reached
    exact fresh above (by omega) reached
  have ha := attached_linkPage shaped pool vacant ne writeThru
  have hnw := walk_attached_new shaped.tree ha reached (by omega) fresh
  have how := walk_attached shaped.tree ha reached (by omega) fresh
  have before : walk paging.child root (idx :: above) = none := by
    rw [walk_cons_of_eq_some reached]
    exact ha.vacant
  have pages : FreshPages (page :: rest) := pool ▸ shaped.pool
  refine ⟨⟨⟨?_, ?_, ?_, ?_⟩, ?_, ?_⟩, hnw⟩
  · exact isTree_attached shaped.tree ha reached (by omega) fresh
  · intro path node bounded hap
    by_cases isNew : path = idx :: above
    · rw [isNew, hnw] at hap
      rw [← Option.some.inj hap]
      exact nonzero
    rw [how path bounded isNew] at hap
    exact shaped.nonzero path node bounded hap
  · intro path node bounded hap mem
    by_cases isNew : path = idx :: above
    · rw [isNew, hnw] at hap
      rw [← Option.some.inj hap] at mem
      exact pages.not_mem_tail nonzero mem
    rw [how path bounded isNew] at hap
    apply shaped.fresh path node bounded hap
    rw [pool]
    exact mem_cons_of_mem page mem
  · exact pages.tail
  · intro path node bounded hap
    rw [how path bounded]
    · exact hap
    intro isNew
    rw [isNew, before] at hap
    exact absurd hap (by simp)
  intro addr
  have length : (leafPath addr).length = 3 := rfl
  by_cases isNew : leafPath addr = idx :: above
  · -- The new table is a leaf table: it has no entry yet.
    simp only [leafEntry]
    rw [isNew, hnw, before]
    simp [linkPage, setEntry, Ne.symm ne]
  simp only [leafEntry]
  rw [how _ (by omega) isNew]
  cases hal : walk paging.child root (leafPath addr) with
  | none => rfl
  | some leaf =>
    have hnn : leaf ≠ page := by
      intro equal
      rw [equal] at hal
      exact fresh _ (by omega) hal
    have other : leaf ≠ table := by
      intro equal
      rw [equal] at hal
      have paths := shaped.tree (by omega) (by omega) hal reached
      rw [paths] at length
      omega
    simp [linkPage, setEntry, hnn, other]

lemma buildNewPt_extends (vacant : (paging.tables table idx).present = false)
    (reached : walk paging.child root above = some table) (inner : above.length < 3)
    (writeThru : Bool) :
    Extends root paging (paging.buildNewPt table idx writeThru).2 ∧
      ((paging.buildNewPt table idx writeThru).1 ≠ 0 →
        walk (paging.buildNewPt table idx writeThru).2.child root
          (idx :: above) = some (paging.buildNewPt table idx writeThru).1 ∧
        ∀ position, (paging.buildNewPt table idx writeThru).2.tables
          (paging.buildNewPt table idx writeThru).1 position = {}) := by
  rcases pool : paging.pool with _ | ⟨page, rest⟩
  · simp only [buildNewPt, allocatePt, pool]
    exact ⟨Extends.refl shaped, fun hn => absurd rfl hn⟩
  have pages : FreshPages (page :: rest) := pool ▸ shaped.pool
  by_cases null : page = 0
  · simp only [buildNewPt, allocatePt, pool, if_pos null, ne_eq, not_true_eq_false, if_false]
    refine ⟨extends_of_same_tables shaped pages.tail ?_, fun hn => hn.elim⟩
    intro _ mem
    rw [pool]
    exact mem_cons_of_mem page mem
  have built : paging.buildNewPt table idx writeThru =
      (page, paging.linkPage table idx page rest writeThru) := by
    simp [buildNewPt, allocatePt, pool, null, linkPage]
  rw [built]
  obtain ⟨he, hnw⟩ := extends_linkPage shaped pool null vacant reached inner writeThru
  refine ⟨he, fun _ => ⟨hnw, ?_⟩⟩
  have ne : page ≠ table := by
    intro equal
    apply shaped.fresh above table (by omega) reached
    simp [pool, equal]
  simp [linkPage, setEntry, ne]

end

/-- What `__get_table` guarantees of its result at some level: the tables
grow, and a table is returned that the path leads to. -/
def Reaches (root : Nat) (paging : Paging) (path : List Nat) (result : Nat × Paging) : Prop :=
  Extends root paging result.2 ∧ (result.1 ≠ 0 → walk result.2.child root path = some result.1)

variable {path : List Nat}

lemma Reaches.trans {result : Nat × Paging} (first : Extends root before middle)
    (second : Reaches root middle path result) : Reaches root before path result :=
  ⟨first.trans second.1, second.2⟩

variable (shaped : TreeShaped root paging)

include shaped

section

variable (vacant : (paging.tables table idx).present = false)

include vacant

section

variable (reached : walk paging.child root above = some table)

include reached

lemma reaches_buildNewPt (inner : above.length < 3) (writeThru : Bool) :
    Reaches root paging (idx :: above) (paging.buildNewPt table idx writeThru) := by
  obtain ⟨he, linked⟩ := buildNewPt_extends shaped vacant reached inner writeThru
  exact ⟨he, fun hn => (linked hn).1⟩

lemma reaches_buildNewPt_below (inner : above.length < 3) (writeThru : Bool)
    {next : Nat → Paging → Nat × Paging}
    (below : ∀ (new : Nat) (grown : Paging), TreeShaped root grown →
      walk grown.child root (idx :: above) = some new →
      (∀ position, grown.tables new position = {}) →
      Reaches root grown path (next new grown)) :
    Reaches root paging path
      (let (new, grown) := paging.buildNewPt table idx writeThru
        if new ≠ 0 then next new grown else (0, grown)) := by
  obtain ⟨he, linked⟩ := buildNewPt_extends shaped vacant reached inner writeThru
  by_cases built : (paging.buildNewPt table idx writeThru).1 ≠ 0
  · simp only [if_pos built]
    obtain ⟨hnw, empty⟩ := linked built
    exact Reaches.trans he (below _ _ he.shaped hnw empty)
  simp only [if_neg built]
  exact ⟨he, fun hn => absurd rfl hn⟩

end

end

lemma walk_touchEntry (present : (paging.tables table idx).present = true)
    (reached : walk paging.child root above = some table) (inner : above.length < 3)
    (writeThru : Bool) :
    walk (paging.touchEntry table idx writeThru).child root (idx :: above) =
      some (target (paging.tables table idx)) := by
  apply (extends_touchEntry shaped reached inner idx writeThru).keeps
  · rw [length_cons]
    omega
  rw [walk_cons_of_eq_some reached]
  simp [child, present]

/-- The table for a page is reached by its path. -/
lemma getTable_reaches (ofPage : Nat) (writeThru : Bool) :
    Reaches root paging (leafPath ofPage) (paging.getTable ofPage writeThru root) := by
  have har : walk paging.child root [] = some root := rfl
  -- The page directory is at hand; only the leaf table may be missing.
  have hll : ∀ (pd : Nat) (grown : Paging), TreeShaped root grown →
      walk grown.child root [pdpIdx ofPage, pml4Idx ofPage] = some pd →
      (∀ position, grown.tables pd position = {}) → Reaches root grown (leafPath ofPage)
        (grown.buildNewPt pd (pdIdx ofPage) writeThru) := by
    intro pd grown hgs reached empty
    exact reaches_buildNewPt hgs (by simp [empty]) reached (by simp) writeThru
  simp only [getTable]
  by_cases hip : (paging.tables root (pml4Idx ofPage)).present = true
  · rw [if_pos hip]
    have ht := extends_touchEntry shaped har (by simp) (pml4Idx ofPage) writeThru
    have atPdp := walk_touchEntry shaped hip har (by simp) writeThru
    apply Reaches.trans ht
    generalize paging.touchEntry root (pml4Idx ofPage) writeThru = second at ht atPdp ⊢
    generalize target (paging.tables root (pml4Idx ofPage)) = pdp at *
    have hss := ht.shaped
    by_cases inPdp : (second.tables pdp (pdpIdx ofPage)).present = true
    · rw [if_pos inPdp]
      have touched' := extends_touchEntry hss atPdp (by simp) (pdpIdx ofPage) writeThru
      have atPd := walk_touchEntry hss inPdp atPdp (by simp) writeThru
      apply Reaches.trans touched'
      generalize second.touchEntry pdp (pdpIdx ofPage) writeThru = third at touched' atPd ⊢
      generalize target (second.tables pdp (pdpIdx ofPage)) = pd at *
      by_cases inPd : (third.tables pd (pdIdx ofPage)).present = true
      · rw [if_pos inPd]
        exact ⟨extends_touchEntry touched'.shaped atPd (by simp) _ writeThru,
          fun _ => walk_touchEntry touched'.shaped inPd atPd (by simp) writeThru⟩
      rw [if_neg inPd]
      exact reaches_buildNewPt touched'.shaped (by simpa using inPd) atPd (by simp) writeThru
    rw [if_neg inPdp]
    exact reaches_buildNewPt_below hss (by simpa using inPdp) atPdp (by simp) writeThru hll
  rw [if_neg hip]
  exact reaches_buildNewPt_below shaped (by simpa using hip) har
    (by simp) writeThru fun pdp grown hgs reached empty =>
      reaches_buildNewPt_below hgs (by simp [empty]) reached (by simp) writeThru hll

lemma setEntry_leaf {addr : Nat}
    (reached : walk paging.child root (leafPath addr) = some table) (entry : PtEntry) :
    TreeShaped root (paging.setEntry table (pageIdx addr) entry) ∧
      (∀ path : List Nat, path.length ≤ 3 →
        walk (paging.setEntry table (pageIdx addr) entry).child root path =
          walk paging.child root path) ∧
      ∀ other, (paging.setEntry table (pageIdx addr) entry).leafEntry root other =
        if leafPath other = leafPath addr ∧ pageIdx other = pageIdx addr
        then entry else paging.leafEntry root other := by
  have length : ∀ other, (leafPath other).length = 3 := fun _ => rfl
  obtain ⟨shaped', walks⟩ := shaped.congr (paging.setEntry table (pageIdx addr) entry) (by
      intro path node inner hap _
      have other : node ≠ table := by
        intro equal
        rw [equal] at hap
        have paths := shaped.tree (by omega) (length addr).le hap reached
        rw [paths, length] at inner
        omega
      simp [child, setEntry, other]) rfl
  refine ⟨shaped', walks, ?_⟩
  intro other
  simp only [leafEntry]
  rw [walks _ (length other).le]
  by_cases hsp : leafPath other = leafPath addr
  · rw [hsp, reached]
    simp [setEntry]
  cases hal : walk paging.child root (leafPath other) with
  | none => simp [hsp]
  | some leaf =>
    have ne : leaf ≠ table := by
      intro equal
      rw [equal] at hal
      exact hsp (shaped.tree (length other).le (length addr).le hal reached)
    simp [setEntry, ne, hsp]

end Paging

end OoOS.Mm
