import OoOS.Fs.Fat32Chains
import OoOS.Fs.Fat32Entries

/-!
# Slots of a FAT32 directory

A directory keeps the entries of its clusters in a vector, and each of its nodes
has the index of its own entry.  Unlinking a name erases its entries and moves
those behind them.
-/

namespace OoOS.Fs.Fat32

open Function List Entry

namespace Entry

variable (e : Entry)

def isLast : Bool := e.ordinal &&& 0x40 ≠ 0

/-- The test of `first_unused_entry`; the characters of a name are signed. -/
def seemsUnused : Bool := e.ordinal.toInt8.toInt = 0xE5 ∨ e.ordinal.toInt8.toInt = 0

def isFree : Bool := e.ordinal = 0xE5 ∨ e.ordinal = 0

def InUse : Prop := e.ordinal ≠ 0 ∧ e.isLongname = false

end Entry

/-- A result of `get_short_name`.  Names do not contain zero bytes. -/
structure ShortName where
  bytes : Name
  starts : bytes.head? ≠ some 0

def setFilename (sname : Name) : List UInt8 :=
  let base := (sname.take 8).takeWhile (· ≠ dot)
  let extension := sname.drop (base.length + 1)
  base ++ replicate (8 - base.length) space ++
    [extension.getD 0 space, extension.getD 1 space, extension.getD 2 space]

lemma length_setFilename (sname : Name) : (setFilename sname).length = 11 := by
  have short := (takeWhile_sublist (· ≠ dot)).length_le.trans (length_take_le 8 sname)
  simp only [setFilename, length_append, length_replicate, length_cons, length_nil]
  omega

def newEntry (directory : Bool) (cl : Nat) (sname : Name) : Entry where
  filename := setFilename sname
  attributes := if directory then 0x10 else 0
  firstClusterHi := UInt16.ofNat (cl / 2 ^ 16)
  firstClusterLo := UInt16.ofNat cl
  filled := length_setFilename sname

/-- A directory with its data, its clusters, the `dirent_index` of each name, and
what it needs of its volume.  The nodes of a volume are in two sets, ordered by name. -/
structure Directory where
  data : List Entry
  capacity : Nat
  covered : List Nat
  tnodes : Name → Option Int
  fileNodes : List Name
  directoryNodes : List Name
  table : Table
  perCluster : Nat
  shortName : (Name → Option Int) → Name → ShortName

/-- `__get_longname_start`, given the entries before the one that is unlinked,
last one first. -/
def longnameStart (before : List Entry) : Option Nat :=
  match before.findIdx? Entry.isLast with
  | none => none
  | some i =>
    if before.head?.any Entry.isLongname ∧ before[i]?.any Entry.isLongname then
      some (i + 1)
    else none

def renumber (n erased : Nat) (idx : Int) : Int :=
  if 0 ≤ idx ∧ idx < n then idx else idx - erased

namespace Directory

def reserve (d : Directory) : Nat :=
  let count := d.data.length + d.perCluster
  if d.capacity < count then max (2 * d.capacity) count else d.capacity

/-- `first_unused_entry` with `__expand_dir`, which reserves memory but adds no
entries. -/
def firstUnusedEntry : Nat → Directory → Directory × Option Nat
  | 0, d => (d, none)
  | fuel + 1, d =>
    match d.data.findIdx? Entry.seemsUnused with
    | some i => (d, some i)
    | none =>
      match claimCluster d.table (d.covered.getLastD 0) with
      | none => (d, none)
      | some (cl, table) =>
        firstUnusedEntry fuel
          { d with table := table, covered := d.covered ++ [cl], capacity := d.reserve }

variable (d : Directory)

def nodes (directory : Bool) : List Name :=
  if directory then d.directoryNodes else d.fileNodes

/-- `put_file_node` or `put_directory_node`, if no node of the kind has the name. -/
def putNode (directory : Bool) (name : Name) (i : Nat) : Directory :=
  { d with
    tnodes := update d.tnodes name (some (i : Int))
    fileNodes := if directory then d.fileNodes else name :: d.fileNodes
    directoryNodes := if directory then name :: d.directoryNodes else d.directoryNodes }

/-- `mkfilenode` and `mkdirnode`; `none` where the null pointer is followed that is returned
for a name which the volume has already. -/
def create (directory : Bool) (name : Name) : Option (Directory × Option Nat) :=
  match claimCluster d.table 0 with
  | none => some (d, none)
  | some (cl, table) =>
    match firstUnusedEntry (table.length + 1) { d with table := table } with
    | (d, none) => some (d, none)
    | (d, some i) =>
      let new := newEntry directory cl (d.shortName d.tnodes name).bytes
      if (d.nodes directory).contains name then none
      else some ({ d with data := d.data.set i new }.putNode directory name i, some i)

/-- `erase` and the loop after it; nothing is erased when the range ends where the
vector's memory does. -/
def erase (i count : Nat) : Directory :=
  let (data, n) :=
    if d.capacity ≤ i + 1 then (d.data, d.data.length)
    else (d.data.take (i - count) ++ d.data.drop (i + 1), i - count)
  { d with
    data := data, tnodes := fun other => (d.tnodes other).map (renumber n (count + 1)) }

def before (i : Nat) : List Entry := (d.data.take i).reverse

/-- `unlink` with `__dir_ent_erase`.  The name keeps its tnode. -/
def unlink (name : Name) : Directory × Bool :=
  match d.tnodes name with
  | none => (d, false)
  | some idx =>
    if 0 ≤ idx ∧ idx < d.data.length then
      match longnameStart (d.before idx.toNat) with
      | none => (d, false)
      | some count => (d.erase idx.toNat count, true)
    else (d, false)

end Directory

inductive Call where
  | create (directory : Bool) (name : Name)
  | unlink (name : Name)

def ownNames (before : List Entry) : Nat :=
  match (before.takeWhile Entry.isLongname).findIdx? Entry.isLast with
  | none => 0
  | some i => i + 1

namespace Directory

section

variable (d : Directory) (gone : List Name)

def entryAt (idx : Int) : Option Entry :=
  if 0 ≤ idx then d.data[idx.toNat]? else none

def Keeps (after : Directory) : Prop :=
  ∀ name ∉ gone, ∀ idx, d.tnodes name = some idx →
    ∃ next, after.tnodes name = some next ∧ after.entryAt next = d.entryAt idx

/-- No cluster is left for the new node, or none for the directory although it
has no free entry. -/
def NoRoom : Prop :=
  ∀ cl table, claimCluster d.table 0 = some (cl, table) →
    (∀ e ∈ d.data, e.isFree = false) ∧ freeCluster table = none

def Right : Call → Prop
  | .create directory name => ∃ after slot, d.create directory name = some (after, slot) ∧
    after.covered.length ≤ d.covered.length + 1 ∧ d.Keeps gone after ∧ match slot with
      | none => d.NoRoom
      | some i => (∃ e, d.data[i]? = some e ∧ e.isFree) ∧ after.tnodes name = some (i : Int) ∧
          ∃ e, after.data = d.data.set i e
  | .unlink name =>
    let (after, done) := d.unlink name
    d.Keeps (name :: gone) after ∧ ∀ i : Nat, d.tnodes name = some (i : Int) → done = true ∧
        after.data = d.data.take (i - ownNames (d.before i)) ++ d.data.drop (i + 1)

def Guard : Call → Prop
  | .create directory name =>
    (∃ e ∈ d.data, e.ordinal = 0) ∧ name ∉ d.nodes directory ∨ d.NoRoom
  | .unlink name => ∀ i : Nat, d.tnodes name = some (i : Int) →
      ownNames (d.before i) ≠ 0 ∧ i + 1 < d.capacity

def Fresh : Call → Prop
  | .create _ name => d.tnodes name = none
  | .unlink name => name ∉ gone

def step : Call → Directory × List Name
  | .create directory name => (((d.create directory name).map Prod.fst).getD d, gone)
  | .unlink name => ((d.unlink name).1, if (d.unlink name).2 then name :: gone else gone)

/-- The nodes that were not unlinked have entries of their own, which are in
use. -/
structure Sound : Prop where
  designates : ∀ name idx, d.tnodes name = some idx → name ∉ gone →
    ∃ i : Nat, idx = i ∧ ∃ e, d.data[i]? = some e ∧ e.InUse
  apart : ∀ name other idx, d.tnodes name = some idx → d.tnodes other = some idx →
    name ∉ gone → other ∉ gone → name = other

end

def Along (P : Directory → List Name → Call → Prop) (d : Directory) (gone : List Name) :
    List Call → Prop
  | [] => True
  | call :: rest => P d gone call ∧ Along P (d.step gone call).1 (d.step gone call).2 rest

end Directory

lemma seemsUnused_iff (e : Entry) : e.seemsUnused ↔ e.ordinal = 0 := by
  have hs : e.ordinal.toInt8.toInt ≠ 0xE5 := by
    have := e.ordinal.toInt8.toInt_lt
    omega
  have hz : e.ordinal.toInt8.toInt = 0 ↔ e.ordinal = 0 := by
    rw [← Int8.toInt_zero, Int8.toInt_inj]
    exact ⟨fun same => UInt8.eq_of_toBitVec_eq (congrArg Int8.toBitVec same),
      fun same => same ▸ rfl⟩
  simp [seemsUnused, hs, hz]

lemma newEntry_inUse (directory : Bool) (cl : Nat) (sname : ShortName) :
    (newEntry directory cl sname.bytes).InUse := by
  have hr : ∀ isDirectory : Bool,
      decide ((if isDirectory then (0x10 : UInt8) else 0) &&& 0x0F = 0x0F) = false := by decide
  refine ⟨?_, hr directory⟩
  obtain ⟨bytes, hs⟩ := sname
  cases bytes with
  | nil => simp [ordinal, newEntry, setFilename, space]
  | cons first _ =>
    have hn : first ≠ 0 := fun hz => hs (congrArg some hz)
    by_cases hd : first = dot
    · simp [ordinal, newEntry, setFilename, hd, space]
    · simpa [ordinal, newEntry, setFilename, hd] using hn

variable {before : List Entry}

lemma longnameStart_pos {count : Nat}
    (found : longnameStart before = some count) : 0 < count ∧ count ≤ before.length := by
  unfold longnameStart at found
  split at found
  · cases found
  next i isLast =>
  have hin := (findIdx?_eq_some_iff_getElem.mp isLast).1
  split_ifs at found
  cases found
  omega

lemma longnameStart_eq (named : ownNames before ≠ 0) :
    longnameStart before = some (ownNames before) ∧
      ∀ j < ownNames before, ∃ e, before[j]? = some e ∧ e.isLongname = true := by
  unfold ownNames at named ⊢
  cases hl : (before.takeWhile isLongname).findIdx? isLast with
  | none => simp [hl] at named
  | some i =>
    have hin := (findIdx?_eq_some_iff_getElem.mp hl).1
    have split := takeWhile_append_dropWhile (p := isLongname) (l := before)
    have long : ∀ j ≤ i, ∃ e, before[j]? = some e ∧ e.isLongname = true := by
      intro j _
      have hs : j < (before.takeWhile isLongname).length := by omega
      refine ⟨_, ?_, mem_takeWhile_imp (getElem_mem hs)⟩
      rw [← getElem?_eq_getElem, ← getElem?_append_left hs, split]
    have hw : before.findIdx? isLast = some i := by
      rw [← split, findIdx?_append, hl]
      rfl
    obtain ⟨_, hf, hfl⟩ := long 0 (by omega)
    obtain ⟨_, hal, hll⟩ := long i le_rfl
    refine ⟨?_, fun j below => long j (by simp at below; omega)⟩
    simp [longnameStart, hw, head?_eq_getElem?, hf, hfl, hal, hll]

namespace Directory

variable {d : Directory} {gone : List Name} {directory : Bool} {name other : Name} {i : Nat}
  {idx : Int} {e new : Entry}

lemma findIdx?_seemsUnused (full : ∀ e ∈ d.data, e.ordinal ≠ 0) :
    d.data.findIdx? seemsUnused = none := by
  rw [findIdx?_eq_none_iff]
  intro e member
  exact Bool.eq_false_iff.mpr fun hu => full e member ((seemsUnused_iff e).mp hu)

lemma firstUnusedEntry_full (fuel : Nat) (full : ∀ e ∈ d.data, e.ordinal ≠ 0) :
    ∃ after, firstUnusedEntry fuel d = (after, none) ∧ after.data = d.data ∧
      after.tnodes = d.tnodes := by
  induction fuel generalizing d with
  | zero => exact ⟨d, rfl, rfl, rfl⟩
  | succ fuel ih =>
    rw [firstUnusedEntry, findIdx?_seemsUnused full]
    cases claimCluster d.table (d.covered.getLastD 0) with
    | none => exact ⟨d, rfl, rfl, rfl⟩
    | some _ => exact ih (d := ⟨d.data, _, _, d.tnodes, _, _, _, _, _⟩) full

/-- What creation does: it fails and leaves the entries as they are, it takes an entry that
starts with a zero byte, or it does not come back. -/
lemma create_cases (d : Directory) (directory : Bool) (name : Name) :
    (∃ after, d.create directory name = some (after, none) ∧ after.data = d.data ∧
        after.tnodes = d.tnodes ∧ (d.NoRoom → after.covered = d.covered) ∧
        ((∃ e ∈ d.data, e.ordinal = 0) → d.NoRoom)) ∨
      (∃ i e new table, d.create directory name = some
          ({ d with table := table, data := d.data.set i new }.putNode directory name i, some i) ∧
        d.data[i]? = some e ∧ e.ordinal = 0 ∧ new.InUse ∧ name ∉ d.nodes directory) ∨
      d.create directory name = none ∧ name ∈ d.nodes directory ∧ ¬ d.NoRoom := by
  cases hc : claimCluster d.table 0 with
  | none =>
    refine .inl ⟨d, by simp [create, hc], rfl, rfl, fun _ => rfl, fun _ cl table claimed => ?_⟩
    simp [hc] at claimed
  | some own =>
    obtain ⟨cl, table⟩ := own
    by_cases zero : ∃ e ∈ d.data, e.ordinal = 0
    · obtain ⟨i, found⟩ : ∃ i, d.data.findIdx? seemsUnused = some i := by
        rw [← Option.isSome_iff_exists, findIdx?_isSome, any_eq_true]
        obtain ⟨e, hm, hz⟩ := zero
        exact ⟨e, hm, (seemsUnused_iff e).mpr hz⟩
      obtain ⟨hin, hu, -⟩ := findIdx?_eq_some_iff_getElem.mp found
      by_cases known : name ∈ d.nodes directory
      · refine .inr (.inr ⟨?_, known, fun noRoom => ?_⟩)
        · rw [nodes] at known
          simp [create, hc, firstUnusedEntry, found, nodes, known]
        · obtain ⟨e, member, hz⟩ := zero
          have inUse := (noRoom cl table hc).1 e member
          simp [isFree, hz] at inUse
      refine .inr (.inl ⟨i, _, _, table, ?_, getElem?_eq_getElem hin,
        (seemsUnused_iff _).mp hu, newEntry_inUse directory cl (d.shortName d.tnodes name), known⟩)
      rw [nodes] at known
      simp [create, hc, firstUnusedEntry, found, nodes, known]
    have hf : ∀ e ∈ d.data, e.ordinal ≠ 0 := fun e hm hz => zero ⟨e, hm, hz⟩
    obtain ⟨after, hs, hsd, hsn⟩ :=
      firstUnusedEntry_full (d := { d with table := table }) (table.length + 1) hf
    refine .inl ⟨after, by simp [create, hc, hs], hsd, hsn,
      fun hnr => ?_, fun some => absurd some zero⟩
    have hnc := (hnr cl table hc).2
    simp only [firstUnusedEntry, findIdx?_seemsUnused hf, claimCluster, hnc, Option.map_none] at hs
    rw [← (Prod.mk.inj hs).1]

lemma Sound.ne_slot (sound : d.Sound gone) (stored : d.data[i]? = some e) (zero : e.ordinal = 0)
    (known : d.tnodes name = some idx) (kept : name ∉ gone) :
    ∃ j : Nat, idx = j ∧ i ≠ j ∧ ∃ own, d.data[j]? = some own ∧ own.InUse := by
  obtain ⟨j, rfl, own, ho, hiu⟩ := sound.designates name idx known kept
  refine ⟨j, rfl, ?_, own, ho, hiu⟩
  rintro rfl
  rw [stored] at ho
  exact hiu.1 (Option.some.inj ho ▸ zero)

/-- Creation is right exactly under its guard. -/
lemma right_create_iff (sound : d.Sound gone) (isNew : d.tnodes name = none) :
    d.Right gone (.create directory name) ↔ d.Guard (.create directory name) := by
  obtain ⟨after, hc, hsd, hsn, hnc, full⟩ | ⟨i, e, new, table, hc, he, hz, -, unknown⟩ |
    ⟨hc, known, room⟩ := create_cases d directory name
  · simp only [Right, Guard, hc]
    constructor
    · rintro ⟨_, _, same, -, -, right⟩
      cases same
      exact .inr right
    intro hg
    have hnr : d.NoRoom := hg.elim (fun both => full both.1) id
    refine ⟨after, none, rfl, by simp [hnc hnr], fun other _ idx hn => ⟨idx, hsn ▸ hn, ?_⟩, hnr⟩
    rw [entryAt, hsd, entryAt]
  · refine iff_of_true ⟨_, _, hc, by simp [putNode], fun other live idx hn => ?_,
      ⟨e, he, by simp [isFree, hz]⟩, by simp [putNode], new, rfl⟩
      (.inl ⟨⟨e, mem_of_getElem? he, hz⟩, unknown⟩)
    obtain ⟨j, rfl, hel, -⟩ := sound.ne_slot he hz hn live
    have hd : other ≠ name := by
      rintro rfl
      simp [isNew] at hn
    exact ⟨j, by simpa [putNode, update_of_ne hd] using hn,
      by simp [entryAt, putNode, getElem?_set_ne hel]⟩
  · refine iff_of_false ?_ fun hg => hg.elim (fun both => both.2 known) room
    rintro ⟨_, _, returned, -⟩
    rw [hc] at returned
    cases returned

lemma sound_create (sound : d.Sound gone) :
    (((d.create directory name).map Prod.fst).getD d).Sound gone := by
  obtain ⟨_, hc, hsd, hsn, -⟩ | ⟨i, e, new, table, hc, he, hz, inUse, -⟩ | ⟨hc, -⟩ :=
    create_cases d directory name
  · rw [hc]
    exact ⟨hsd ▸ hsn ▸ sound.designates, hsn ▸ sound.apart⟩
  · have hin := (List.getElem?_eq_some_iff.mp he).1
    rw [hc]
    simp only [Option.map_some, Option.getD_some, putNode]
    constructor
    · intro _ idx hn live
      simp only [update_apply] at hn
      split_ifs at hn with same
      · cases hn
        exact ⟨i, rfl, new, by simp [hin], inUse⟩
      obtain ⟨j, rfl, hel, own, ho, hoiu⟩ := sound.ne_slot he hz hn live
      exact ⟨j, rfl, own, (getElem?_set_ne hel).trans ho, hoiu⟩
    intro left right idx hl hr hll hrl
    simp only [update_apply] at hl hr
    split_ifs at hl hr with hln hrn hrn
    · rw [hln, hrn]
    · cases hl
      obtain ⟨j, same, hel, -⟩ := sound.ne_slot he hz hr hrl
      omega
    · cases hr
      obtain ⟨j, same, hel, -⟩ := sound.ne_slot he hz hl hll
      omega
    · exact sound.apart left right idx hl hr hll hrl
  · rw [hc]
    exact sound

lemma unlink_eq (known : d.tnodes name = some (i : Int)) (inside : i < d.data.length) :
    d.unlink name =
      match longnameStart (d.before i) with
      | none => (d, false)
      | some count => (d.erase i count, true) := by
  simp [unlink, known, inside]

/-- Erasing an entry keeps the entries of the other nodes. -/
lemma erase_node (sound : d.Sound gone) (known : d.tnodes name = some (i : Int))
    (inside : i < d.data.length) (live : name ∉ gone) (named : ownNames (d.before i) ≠ 0)
    (room : i + 1 < d.capacity) (otherKnown : d.tnodes other = some idx)
    (otherKept : other ∉ name :: gone) :
    ∃ j next : Nat, idx = j ∧ (d.erase i (ownNames (d.before i))).tnodes other = some (next : Int) ∧
      (d.erase i (ownNames (d.before i))).data[next]? = d.data[j]? ∧
      (next = j ∧ j < i - ownNames (d.before i) ∨
        next + ownNames (d.before i) + 1 = j ∧ i < j) := by
  obtain ⟨hst, long⟩ := longnameStart_eq named
  have hs : ownNames (d.before i) ≤ i := (longnameStart_pos hst).2.trans (by simp [before])
  rw [mem_cons, not_or] at otherKept
  obtain ⟨j, rfl, e, he, hiu⟩ := sound.designates other idx otherKnown otherKept.2
  have hns : j ≠ i := fun same =>
    otherKept.1 (sound.apart other name j otherKnown (same ▸ known) otherKept.2 live)
  simp only [erase, if_neg (Nat.not_le.mpr room), otherKnown, Option.map_some, renumber]
  by_cases hb : i < j
  · refine ⟨j, j - (ownNames (d.before i) + 1), rfl, ?_, ?_, .inr (by omega)⟩
    · rw [if_neg (by omega)]
      congr 1
      omega
    rw [getElem?_append_right (by simp; omega), getElem?_drop]
    congr 1
    simp
    omega
  -- the entries in between are parts of the long name
  have hea : j < i - ownNames (d.before i) := by
    by_contra late
    obtain ⟨_, hp, hl⟩ := long (i - 1 - j) (by omega)
    rw [before, getElem?_reverse (by simp; omega), getElem?_take_of_lt (by simp; omega)] at hp
    have hpl : (d.data.take i).length - 1 - (i - 1 - j) = j := by
      simp
      omega
    rw [hpl, he] at hp
    cases hp
    simp [hiu.2] at hl
  refine ⟨j, j, rfl, by rw [if_pos (by omega)], ?_, .inl (by omega)⟩
  rw [getElem?_append_left (by simp; omega), getElem?_take_of_lt hea]

/-- Names with a long name are unlinked, unless their entry is the last one that
the vector has memory for. -/
lemma right_unlink_iff (sound : d.Sound gone) (kept : name ∉ gone) :
    d.Right gone (.unlink name) ↔ d.Guard (.unlink name) := by
  simp only [Right, Guard]
  cases hn : d.tnodes name with
  | none =>
    have hs : d.unlink name = (d, false) := by simp [unlink, hn]
    rw [hs]
    exact iff_of_true ⟨fun other _ idx ho => ⟨idx, ho, rfl⟩, by simp⟩ (by simp)
  | some idx =>
    obtain ⟨i, rfl, _, how, -⟩ := sound.designates name idx hn kept
    have hin := (List.getElem?_eq_some_iff.mp how).1
    simp only [unlink_eq hn hin, Option.some.injEq, Int.natCast_inj, forall_eq']
    cases hf : longnameStart (d.before i) with
    | none =>
      refine iff_of_false (fun right => by simp at right) fun hg => ?_
      simp [(longnameStart_eq hg.1).1] at hf
    | some count =>
      have hb := longnameStart_pos hf
      simp only [before, length_reverse, length_take] at hb
      constructor
      · rintro ⟨-, -, data⟩
        have length := congrArg length data
        simp only [erase] at length
        split_ifs at length with full <;>
          simp only [length_append, length_take, length_drop] at length <;> omega
      rintro ⟨hna, room⟩
      obtain rfl : count = _ := Option.some.inj (hf.symm.trans (longnameStart_eq hna).1)
      refine ⟨fun other hol idx ho => ?_, rfl, by simp [erase, Nat.not_le.mpr room]⟩
      obtain ⟨j, next, rfl, hne, same, -⟩ := erase_node sound hn hin kept hna room ho hol
      exact ⟨next, hne, by simpa [entryAt] using same⟩

/-- Unlinking keeps the nodes on their entries. -/
lemma sound_unlink (sound : d.Sound gone) (live : name ∉ gone) (guard : d.Guard (.unlink name)) :
    (d.unlink name).1.Sound (if (d.unlink name).2 then name :: gone else gone) := by
  cases hn : d.tnodes name with
  | none => simpa [unlink, hn] using sound
  | some idx =>
    obtain ⟨i, rfl, _, how, -⟩ := sound.designates name idx hn live
    have hin := (List.getElem?_eq_some_iff.mp how).1
    obtain ⟨hna, room⟩ := guard i hn
    simp only [unlink_eq hn hin, (longnameStart_eq hna).1, if_true]
    have hk : ∀ other next, (d.erase i (ownNames (d.before i))).tnodes other = some next →
        ∃ idx, d.tnodes other = some idx := by
      intro other next hne
      obtain ⟨idx, ho, -⟩ := Option.map_eq_some_iff.mp hne
      exact ⟨idx, ho⟩
    constructor
    · intro other next hne hol
      obtain ⟨idx, ho⟩ := hk other next hne
      obtain ⟨j, moved, rfl, hm, same, -⟩ := erase_node sound hn hin live hna room ho hol
      obtain ⟨k, hh, _⟩ := sound.designates other j ho fun hme => hol (mem_cons_of_mem _ hme)
      obtain rfl : j = k := Int.natCast_inj.mp hh
      exact ⟨moved, Option.some.inj (hne.symm.trans hm), by rwa [same]⟩
    intro left right next hl hr hll hrl
    obtain ⟨_, hln⟩ := hk left next hl
    obtain ⟨_, hrn⟩ := hk right next hr
    obtain ⟨j, _, rfl, hlm, -, _⟩ := erase_node sound hn hin live hna room hln hll
    obtain ⟨k, _, rfl, hrm, -, _⟩ := erase_node sound hn hin live hna room hrn hrl
    rw [hl, Option.some.injEq] at hlm
    rw [hr, Option.some.injEq] at hrm
    obtain rfl : j = k := by omega
    rw [mem_cons, not_or] at hll hrl
    exact sound.apart left right j hln hrn hll.2 hrl.2

/-- Creations need an entry that starts with a zero byte and a name that is new on the
volume, or no room for the node, and unlinking a long name inside the vector's memory. -/
theorem along_right_iff (d : Directory) (gone : List Name) (calls : List Call)
    (sound : d.Sound gone) (fresh : Along Fresh d gone calls) :
    Along Right d gone calls ↔ Along (fun d _ => d.Guard) d gone calls := by
  induction calls generalizing d gone with
  | nil => exact Iff.rfl
  | cons call _ ih =>
    obtain ⟨hfc, hfr⟩ := fresh
    cases call with
    | create directory name =>
      exact and_congr (right_create_iff sound hfc) (ih _ _ (sound_create sound) hfr)
    | unlink name =>
      rw [Along, Along, right_unlink_iff sound hfc]
      exact and_congr_right fun hg => ih _ _ (sound_unlink sound hfc hg) hfr

def small (data : List Entry) (tnodes : Name → Option Int) : Directory where
  data := data
  capacity := 4
  covered := [2]
  tnodes := tnodes
  fileNodes := [[0x41]]
  directoryNodes := [[]]
  table := [0x0FFFFFF8, 0x0FFFFFFF, 0x0FFFFFF8, 0, 0]
  perCluster := 4
  shortName _ _ := ⟨[0x42], by decide⟩

def longNamed : Directory :=
  small [{ newEntry false 0 [0x41] with attributes := 0x0F }, newEntry false 3 [0x41],
    newEntry false 0 [0]] fun name => if name = [0x41] then some 1 else none

theorem along_right_iff_longNamed :
    longNamed.Sound [] ∧ Along Right longNamed [] [.create false [0x42], .unlink [0x41]] := by
  have hs : longNamed.Sound [] := by
    constructor
    · intro name idx hn _
      simp only [longNamed, small] at hn
      split_ifs at hn
      cases hn
      exact ⟨1, rfl, newEntry false 3 [0x41], rfl, by decide, by decide⟩
    intro name _ idx hn ho _ _
    simp only [longNamed, small] at hn ho
    split_ifs at hn ho with hna hon
    rw [hna, hon]
  refine ⟨hs, (along_right_iff longNamed [] [.create false [0x42], .unlink [0x41]] hs
    ⟨rfl, not_mem_nil, trivial⟩).mpr
      ⟨.inl ⟨⟨newEntry false 0 [0], by simp [longNamed, small], rfl⟩, by decide⟩,
        fun i hn => ?_, trivial⟩⟩
  have hk : (longNamed.step [] (.create false [0x42])).1.tnodes [0x41] = some 1 := by
    decide +kernel
  obtain rfl : i = 1 := by
    have same := Option.some.inj (hn.symm.trans hk)
    omega
  decide +kernel

/-- A file that is created cannot be unlinked: it has no long name. -/
theorem not_right_created : (small [newEntry false 0 [0]] fun _ => none).Sound [] ∧
    ¬ Along Right (small [newEntry false 0 [0]] fun _ => none) []
      [.create false [0x42], .unlink [0x42]] := by
  refine ⟨⟨fun _ _ hn => ?_, fun _ _ _ hn => ?_⟩, ?_⟩
  · cases hn
  · cases hn
  rintro ⟨-, ⟨-, hu⟩, -⟩
  exact absurd (hu 0 (by decide +kernel)).1 (by decide +kernel)

end Directory

end OoOS.Fs.Fat32
