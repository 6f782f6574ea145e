import Mathlib.Data.List.DropRight
import Mathlib.Tactic.Ring

/-!
# Directory entries of a FAT32 volume

An entry has 32 bytes and holds either a file or a part of a long name.  Names
and extensions are filled up with spaces.
-/

namespace OoOS.Fs.Fat32

open List

abbrev Name := List UInt8

def space : UInt8 := 0x20

def dot : UInt8 := 0x2E

structure Entry where
  filename : List UInt8
  attributes : UInt8
  firstClusterHi : UInt16
  firstClusterLo : UInt16
  filled : filename.length = 11
  deriving DecidableEq

namespace Entry

variable (e : Entry)

def ordinal : UInt8 := e.filename.headD 0

def isLongname : Bool := e.attributes &&& 0x0F = 0x0F

def isUnused : Bool := e.ordinal = 0xE8 ∨ e.ordinal = 0

def isDirectory : Bool := e.attributes &&& 0x10 ≠ 0

def startOf : Nat := e.firstClusterHi.toNat * 2 ^ 16 + e.firstClusterLo.toNat

def isParsed : Bool := ¬ (e.isUnused ∨ e.isLongname ∨ e.ordinal = dot ∨ e.startOf = 0)

/-- One round of the first loop of `__add_parsed_entry`, with the name and the
number of spaces that are held back. -/
def appendByte : Name × Nat → UInt8 → Name × Nat
  | (name, spaces), c =>
    if c = space then (name, spaces + 1)
    else if c ≠ 0 then (name ++ List.replicate spaces space ++ [c], 0)
    else (name, spaces)

def appendExtension : Name × Nat × Bool → UInt8 → Name × Nat × Bool
  | (name, spaces, dotted), c =>
    if c = space then (name, spaces + 1, dotted)
    else if c ≠ 0 then
      (name ++ List.replicate spaces space ++ (if dotted then [c] else [dot, c]), 0, true)
    else (name, spaces, dotted)

def parsedName : Name :=
  let base := ((e.filename.take 8).foldl appendByte ([], 0)).1
  ((e.filename.drop 8).foldl appendExtension (base, 0, false)).1

def trim (field : List UInt8) : List UInt8 := field.rdropWhile (· = space)

def shortName : Name :=
  let extension := trim (e.filename.drop 8)
  trim (e.filename.take 8) ++ if extension = [] then [] else dot :: extension

/-- Entries of files and of directories other than the two that each directory
has for itself and its parent. -/
def isLive : Bool :=
  ¬ (e.ordinal = 0 ∨ e.ordinal = 0xE5 ∨ e.isLongname ∨ e.ordinal = dot ∨ e.startOf = 0)

/-- Names have neither zero bytes nor dots and do not start with a space. -/
def Legal : Prop := 0 ∉ e.filename ∧ dot ∉ e.filename ∧ e.ordinal ≠ space

def Padded : Prop := (e.filename.drop 8).head? = some space → ∀ c ∈ e.filename.drop 8, c = space

instance : Decidable e.Legal := inferInstanceAs (Decidable (_ ∧ _))

lemma trim_append_cons (before after : List UInt8) {c : UInt8} (byte : c ≠ space) :
    trim (before ++ c :: after) = before ++ c :: trim after := by
  induction after using reverseRecOn with
  | nil =>
    rw [trim, rdropWhile_concat_neg]
    · rfl
    · simpa using byte
  | append_singleton after last ih =>
    have shape : before ++ c :: (after ++ [last]) = (before ++ c :: after) ++ [last] := by simp
    rw [shape, trim, trim, rdropWhile_concat, rdropWhile_concat]
    split
    · exact ih
    · rw [← shape]

lemma trim_replicate (count : Nat) : trim (replicate count space) = [] := by
  apply rdropWhile_eq_nil_iff.mpr
  simp

variable {field : List UInt8}

lemma foldl_appendByte :
    ∀ (name : Name) (spaces : Nat), 0 ∉ field → (field.foldl appendByte (name, spaces)).1 =
        name ++ trim (replicate spaces space ++ field) := by
  induction field with
  | nil =>
    simp [trim_replicate]
  | cons c field ih =>
    intro name spaces hn
    rw [mem_cons, not_or] at hn
    rw [foldl_cons]
    by_cases blank : c = space
    · subst blank
      rw [appendByte, if_pos rfl, ih _ _ hn.2, replicate_succ', append_assoc, singleton_append]
    rw [appendByte, if_neg blank, if_pos (Ne.symm hn.1), ih _ _ hn.2, trim_append_cons _ _ blank]
    simp

lemma foldl_appendExtension_dotted (field : List UInt8) :
    ∀ (name : Name) (spaces : Nat), (field.foldl appendExtension (name, spaces, true)).1 =
        (field.foldl appendByte (name, spaces)).1 := by
  induction field with
  | nil => intro name spaces; rfl
  | cons c field ih =>
    intro name spaces
    simp only [foldl_cons, appendExtension, appendByte]
    split_ifs
    · exact ih _ _
    · exact ih _ _
    · exact ih _ _

lemma foldl_appendExtension : ∀ (name : Name) (spaces : Nat), 0 ∉ field →
    (field.foldl appendExtension (name, spaces, false)).1 = if trim field = [] then name
      else name ++ replicate spaces space ++
        field.takeWhile (· = space) ++ dot :: trim (field.dropWhile (· = space)) := by
  induction field with
  | nil =>
    simp [trim]
  | cons c field ih =>
    intro name spaces hn
    rw [mem_cons, not_or] at hn
    rw [foldl_cons]
    by_cases blank : c = space
    · subst blank
      have same : trim (space :: field) = [] ↔ trim field = [] := by
        simp [trim, rdropWhile_eq_nil_iff]
      rw [appendExtension, if_pos rfl, ih _ _ hn.2]
      simp only [same]
      split
      · rfl
      · simp [replicate_succ']
    have kept := trim_append_cons [] field blank
    rw [nil_append, nil_append] at kept
    rw [appendExtension, if_neg blank, if_pos (Ne.symm hn.1)]
    rw [foldl_appendExtension_dotted, foldl_appendByte _ _ hn.2]
    simp [blank, kept]

variable {e}

lemma parsedName_eq (legal : e.Legal) :
    e.parsedName = if trim (e.filename.drop 8) = [] then trim (e.filename.take 8)
      else trim (e.filename.take 8) ++ (e.filename.drop 8).takeWhile (· = space) ++
          dot :: trim ((e.filename.drop 8).dropWhile (· = space)) := by
  have hib : 0 ∉ e.filename.take 8 := fun mem => legal.1 (mem_of_mem_take mem)
  have hie : 0 ∉ e.filename.drop 8 := fun mem => legal.1 (mem_of_mem_drop mem)
  simp only [parsedName]
  rw [foldl_appendExtension _ _ hie, foldl_appendByte _ _ hib]
  simp

lemma parsedName_eq_shortName (legal : e.Legal) (padded : e.Padded) :
    e.parsedName = e.shortName := by
  rw [parsedName_eq legal, shortName]
  by_cases empty : trim (e.filename.drop 8) = []
  · simp [empty]
  cases shape : e.filename.drop 8 with
  | nil => rw [shape] at empty; exact absurd rfl empty
  | cons c _ =>
    have byte : c ≠ space := by
      rintro rfl
      apply empty
      apply rdropWhile_eq_nil_iff.mpr
      intro other mem
      simpa using padded (by rw [shape]; rfl) other mem
    rw [shape] at empty
    simp [empty, byte]

lemma dot_not_mem_trim_base (legal : e.Legal) : dot ∉ trim (e.filename.take 8) := fun mem =>
  legal.2.1 (mem_of_mem_take (( rdropWhile_prefix _ _).subset mem))

lemma ne_space_of_getLast?_trim {c : UInt8} (last : (trim field).getLast? = some c) :
    c ≠ space := by
  have hn : trim field ≠ [] := by
    intro empty
    rw [empty] at last
    cases last
  rw [getLast?_eq_some_getLast hn] at last
  rw [← Option.some.inj last]
  have ends := rdropWhile_last_not (fun c => c = space) field hn
  exact fun blank => ends (decide_eq_true blank)

lemma takeWhile_ne_dot {front : List UInt8} (absent : dot ∉ front) (back : List UInt8) :
    (front ++ back).takeWhile (· ≠ dot) = front ++ back.takeWhile (· ≠ dot) := by
  apply takeWhile_append_of_pos
  intro c mem
  simpa using ne_of_mem_of_not_mem mem absent

lemma takeWhile_shortName (legal : e.Legal) :
    e.shortName.takeWhile (· ≠ dot) = trim (e.filename.take 8) := by
  rw [shortName, takeWhile_ne_dot (dot_not_mem_trim_base legal)]
  split <;> simp

/-- A name that is not padded is read as no short name. -/
lemma parsedName_ne_shortName {other : Entry} (legal : e.Legal)
    (otherLegal : other.Legal) (unpadded : ¬ e.Padded) : e.parsedName ≠ other.shortName := by
  intro same
  unfold Padded at unpadded
  rw [Classical.not_imp] at unpadded
  obtain ⟨hs, hn⟩ := unpadded
  have kept : trim (e.filename.drop 8) ≠ [] := by
    intro empty
    apply hn
    intro c mem
    simpa using rdropWhile_eq_nil_iff.mp empty c mem
  obtain ⟨rest, shape⟩ : ∃ rest, e.filename.drop 8 = space :: rest := head?_eq_some_iff.mp hs
  -- the spaces come before the first dot, where an 8.3 name has none
  have hb : dot ∉ (space :: rest).takeWhile (· = space) := by
    intro mem
    exact absurd (mem_takeWhile_imp mem) (by decide)
  have hf := congrArg (takeWhile (· ≠ dot)) same
  rw [takeWhile_shortName otherLegal, parsedName_eq legal, if_neg kept, shape,
    append_assoc, takeWhile_ne_dot (dot_not_mem_trim_base legal), takeWhile_ne_dot hb] at hf
  simp only [takeWhile_cons_of_neg, ne_eq, not_true_eq_false, decide_false,
    Bool.false_eq_true, not_false_iff, append_nil] at hf
  have last : ((space :: rest).takeWhile (· = space)).getLast? = some space := by
    rw [getLast?_eq_some_getLast (by simp)]
    have mem := getLast_mem (show (space :: rest).takeWhile (· = space) ≠ [] by simp)
    simpa using mem_takeWhile_imp mem
  have he : (trim (other.filename.take 8)).getLast? = some space := by
    rw [← hf, getLast?_append, last, Option.some_or]
  exact ne_space_of_getLast?_trim he rfl

lemma isParsed_iff : e.isParsed ↔ e.ordinal ≠ 0xE8 ∧ e.ordinal ≠ 0 ∧ ¬ e.isLongname ∧
    e.ordinal ≠ dot ∧ e.startOf ≠ 0 := by
  simp [isParsed, isUnused, and_assoc]

lemma isLive_iff : e.isLive ↔ e.ordinal ≠ 0 ∧ e.ordinal ≠ 0xE5 ∧ ¬ e.isLongname ∧
    e.ordinal ≠ dot ∧ e.startOf ≠ 0 := by
  simp [isLive]

lemma filename_eq_cons (e : Entry) : ∃ rest, e.filename = e.ordinal :: rest := by
  cases shape : e.filename with
  | nil =>
    have hf := e.filled
    rw [shape] at hf
    cases hf
  | cons c rest => exact ⟨rest, by rw [ordinal, shape]; rfl⟩

lemma head?_shortName (starts : e.ordinal ≠ space) : e.shortName.head? = some e.ordinal := by
  obtain ⟨rest, shape⟩ := e.filename_eq_cons
  have kept : trim (e.filename.take 8) = e.ordinal :: trim (rest.take 7) := by
    rw [shape, take_succ_cons]
    exact trim_append_cons [] _ starts
  rw [shortName, kept]
  rfl

lemma prefix_foldl {State : Type} (name : State → Name) (next : State → UInt8 → State)
    (grows : ∀ state c, name state <+: name (next state c)) (field : List UInt8) :
    ∀ state, name state <+: name (field.foldl next state) := by
  induction field with
  | nil => intro state; exact prefix_rfl
  | cons c field ih =>
    intro state
    exact (grows state c).trans (ih _)

lemma prefix_appendByte (state : Name × Nat) (c : UInt8) :
    state.1 <+: (appendByte state c).1 := by
  simp only [appendByte]
  split_ifs
  · exact prefix_rfl
  · rw [append_assoc]
    exact prefix_append _ _
  · exact prefix_rfl

lemma prefix_appendExtension (state : Name × Nat × Bool) (c : UInt8) :
    state.1 <+: (appendExtension state c).1 := by
  simp only [appendExtension]
  split
  · exact prefix_rfl
  split
  · rw [append_assoc]
    exact prefix_append _ _
  · exact prefix_rfl

lemma head?_parsedName (starts : e.ordinal ≠ space) (used : e.ordinal ≠ 0) :
    e.parsedName.head? = some e.ordinal := by
  obtain ⟨_, shape⟩ := e.filename_eq_cons
  have first : appendByte ([], 0) e.ordinal = ([e.ordinal], 0) := by simp [appendByte, starts, used]
  have base : [e.ordinal] <+: ((e.filename.take 8).foldl appendByte ([], 0)).1 := by
    rw [shape, take_succ_cons, foldl_cons, first]
    exact prefix_foldl Prod.fst _ prefix_appendByte _ ([e.ordinal], 0)
  have he := prefix_foldl Prod.fst _ prefix_appendExtension (e.filename.drop 8)
    (((e.filename.take 8).foldl appendByte ([], 0)).1, 0, false)
  obtain ⟨_, whole⟩ := base.trans he
  rw [parsedName, ← whole]
  rfl

end Entry

end OoOS.Fs.Fat32
