import OoOS.Fs.ExtVnode
import OoOS.Lib.Loop

/-!
# Scans of a directory with any content

The loops of `__parse_entries` and `__seek_available_entry`, with the headers
that they read.
-/

namespace OoOS.Fs

open Lib Libk Relation

/-- `ext_directory_vnode`, as far as the scans read it: the buffer with its
cursor, and the number of blocks. -/
structure ExtDirectory where
  data : Memory
  capacity : Nat := 0
  cur : Nat := 0
  totalExtent : Nat := 0

section

variable (data : Memory) (pos : Nat)

def inodeIdx : Nat := readLE data pos 4

def entrySize : Nat := readLE data (pos + 4) 2

def nameLen : Nat := readLE data (pos + 6) 1

/-- `unused_dirent_space`; the difference wraps. -/
def unusedDirentSpace : Nat := wsub (entrySize data pos) (nameLen data pos + 8)

end

namespace ExtDirectory

def setc (dir : ExtDirectory) (pos : Nat) : ExtDirectory :=
  if pos ≤ dir.capacity then { dir with cur := pos } else dir

def bumpc (dir : ExtDirectory) (off : Nat) : ExtDirectory := dir.setc (dir.cur + off)

variable (fs : ExtFs) (throws : Nat → Bool) (neededLen : Nat) (dir : ExtDirectory)

/-- The loops of `__parse_entries`; making a node of some entries throws. -/
def parseNext : Nat × Nat → Option (Nat × Nat)
  | (i, n) =>
    let pos := fs.blockSize * i + n
    if i < dir.totalExtent then
      if n < fs.blockSize ∧ inodeIdx dir.data pos ≠ 0 then
        if throws pos then none else some (i, n + entrySize dir.data pos)
      else some (i + 1, 0)
    else none

def seekNext (cur : Nat) : Option Nat :=
  if cur < dir.capacity then
    if inodeIdx dir.data cur = 0 ∧ neededLen ≤ entrySize dir.data cur then none
    else if neededLen ≤ unusedDirentSpace dir.data cur then none
    else some ({ dir with cur }.bumpc (entrySize dir.data cur)).cur
  else none

def ScansSafely : Prop :=
  Completes (dir.parseNext fs throws) (fun place => place.1 < dir.totalExtent →
    place.2 < fs.blockSize → fs.blockSize * place.1 + place.2 + 8 ≤ dir.capacity) (0, 0) ∧
  Completes (dir.seekNext neededLen)
    (fun cur => cur < dir.capacity → cur + 8 ≤ dir.capacity) dir.cur

def Taken (place : Nat × Nat) : Prop :=
  let pos := fs.blockSize * place.1 + place.2
  place.1 < dir.totalExtent ∧ place.2 < fs.blockSize ∧ inodeIdx dir.data pos ≠ 0 ∧
    throws pos = false

def Passed (cur : Nat) : Prop :=
  cur < dir.capacity ∧ ¬ (inodeIdx dir.data cur = 0 ∧ neededLen ≤ entrySize dir.data cur) ∧
    ¬ neededLen ≤ unusedDirentSpace dir.data cur

/-- The sizes of the entries lead out of the block, or to a header inside the buffer. -/
def SizesLead : Prop :=
  (∀ place, Follows (dir.parseNext fs throws) (0, 0) place → dir.Taken fs throws place →
    let size := entrySize dir.data (fs.blockSize * place.1 + place.2)
    size ≠ 0 ∧ (place.2 + size < fs.blockSize →
      fs.blockSize * place.1 + place.2 + size + 8 ≤ dir.capacity)) ∧
  (dir.cur < dir.capacity → dir.cur + 8 ≤ dir.capacity) ∧
  ∀ cur, ReflTransGen (fun a b => dir.Passed neededLen a ∧ b = a + entrySize dir.data a)
      dir.cur cur → dir.Passed neededLen cur → entrySize dir.data cur ≠ 0 ∧
      (cur + entrySize dir.data cur = dir.capacity ∨
        cur + entrySize dir.data cur + 8 ≤ dir.capacity)

variable {fs throws neededLen dir} {cur : Nat} {place after : Nat × Nat}

lemma parseNext_of_taken (taken : dir.Taken fs throws place) : dir.parseNext fs throws place =
    some (place.1, place.2 + entrySize dir.data (fs.blockSize * place.1 + place.2)) := by
  obtain ⟨hi, hn, hx, ht⟩ := taken
  simp [parseNext, hi, hn, hx, ht]

lemma parseNext_cases (stepped : dir.parseNext fs throws place = some after) :
    (dir.Taken fs throws place ∧
        after = (place.1, place.2 + entrySize dir.data (fs.blockSize * place.1 + place.2))) ∨
      place.1 < dir.totalExtent ∧ after = (place.1 + 1, 0) := by
  simp only [parseNext, Option.ite_none_right_eq_some] at stepped
  obtain ⟨hi, stepped⟩ := stepped
  split at stepped
  next hn =>
    split at stepped
    · cases stepped
    next ht =>
      simp only [Option.some.injEq] at stepped
      exact .inl ⟨⟨hi, hn.1, hn.2, by simpa using ht⟩, stepped.symm⟩
  next => exact .inr ⟨hi, (Option.some.inj stepped).symm⟩

def parseMeasure (fs : ExtFs) (place : Nat × Nat) : Nat :=
  place.1 * (fs.blockSize + 65536) + min place.2 (fs.blockSize + 65535)

lemma parseNext_measure (stepped : dir.parseNext fs throws place = some after) :
    after = place ∨ parseMeasure fs place < parseMeasure fs after ∧
      parseMeasure fs after ≤ (dir.totalExtent + 1) * (fs.blockSize + 65536) := by
  unfold parseMeasure
  rcases parseNext_cases stepped with ⟨⟨hi, hn, -⟩, rfl⟩ | ⟨hi, rfl⟩
  · have hm := Nat.mul_le_mul_right (fs.blockSize + 65536) hi
    rw [Nat.succ_mul] at hm ⊢
    by_cases hz : entrySize dir.data (fs.blockSize * place.1 + place.2) = 0
    · exact .inl (by rw [hz, Nat.add_zero])
    · exact .inr (by dsimp only; omega)
  have hm := Nat.mul_le_mul_right (fs.blockSize + 65536) hi
  rw [Nat.succ_mul] at hm ⊢
  rw [Nat.succ_mul]
  omega

/-- The parser reads within the buffer and ends. -/
lemma parse_completes_iff (big : 8 ≤ fs.blockSize)
    (capacity : dir.capacity = fs.blockSize * dir.totalExtent) :
    Completes (dir.parseNext fs throws) (fun place => place.1 < dir.totalExtent →
      place.2 < fs.blockSize → fs.blockSize * place.1 + place.2 + 8 ≤ dir.capacity) (0, 0) ↔
    ∀ place, Follows (dir.parseNext fs throws) (0, 0) place → dir.Taken fs throws place →
      let size := entrySize dir.data (fs.blockSize * place.1 + place.2)
      size ≠ 0 ∧ (place.2 + size < fs.blockSize →
        fs.blockSize * place.1 + place.2 + size + 8 ≤ dir.capacity) := by
  have hin {i : Nat} (hi : i < dir.totalExtent) : fs.blockSize * i + 8 ≤ dir.capacity := by
    have hm := Nat.mul_le_mul_left fs.blockSize hi
    rw [Nat.mul_succ] at hm
    omega
  rw [completes_iff (fun _ => True) (fun place =>
      (dir.totalExtent + 1) * (fs.blockSize + 65536) - parseMeasure fs place) trivial
    fun _ _ _ round => ⟨trivial, (parseNext_measure round).imp_right (by omega)⟩]
  constructor
  · intro h place hf ht
    have hn := parseNext_of_taken ht
    refine ⟨fun hz => (h place hf).2 ?_, fun hlt => ?_⟩
    · rw [hn, hz, Nat.add_zero]
    have hs := (h _ (hf.tail hn)).1 ht.1 hlt
    dsimp only at hs
    omega
  intro h place hf
  refine ⟨fun hi hlt => ?_, fun hs => ?_⟩
  · rcases hf.cases_tail with rfl | ⟨before, hb, hn⟩
    · exact hin hi
    rcases parseNext_cases hn with ⟨ht, rfl⟩ | ⟨-, rfl⟩
    · have hs := (h before hb ht).2 hlt
      dsimp only at hs ⊢
      omega
    · exact hin hi
  rcases parseNext_cases hs with ⟨ht, he⟩ | ⟨-, he⟩
  · have hz := congrArg Prod.snd he
    exact (h place hf ht).1 (by omega)
  have hz := congrArg Prod.fst he
  omega

lemma seekNext_cases {next : Nat} (stepped : dir.seekNext neededLen cur = some next) :
    dir.Passed neededLen cur ∧ next =
      if cur + entrySize dir.data cur ≤ dir.capacity then cur + entrySize dir.data cur
        else cur := by
  simp only [seekNext, Option.ite_none_right_eq_some, Option.ite_none_left_eq_some] at stepped
  obtain ⟨hc, hf, hu, hn⟩ := stepped
  refine ⟨⟨hc, hf, hu⟩, ?_⟩
  rw [← Option.some.inj hn, bumpc, setc]
  split <;> rfl

lemma seekNext_of_passed (passed : dir.Passed neededLen cur) : dir.seekNext neededLen cur = some
    (if cur + entrySize dir.data cur ≤ dir.capacity then cur + entrySize dir.data cur
      else cur) := by
  obtain ⟨hc, hf, hu⟩ := passed
  rw [seekNext, if_pos hc, if_neg hf, if_neg hu, bumpc, setc]
  split <;> rfl

lemma seekNext_measure {next : Nat} (stepped : dir.seekNext neededLen cur = some next) :
    next = cur ∨ cur < next ∧ next ≤ dir.capacity := by
  have he := (seekNext_cases stepped).2
  split at he <;> omega

lemma seekNext_of_ne (passed : dir.Passed neededLen cur)
    (moves : dir.seekNext neededLen cur ≠ some cur) :
    dir.seekNext neededLen cur = some (cur + entrySize dir.data cur) := by
  rw [seekNext_of_passed passed] at moves ⊢
  split at moves <;> simp_all

/-- The search for room reads within the buffer and ends. -/
lemma seek_completes_iff :
    Completes (dir.seekNext neededLen)
        (fun cur => cur < dir.capacity → cur + 8 ≤ dir.capacity) dir.cur ↔
      (dir.cur < dir.capacity → dir.cur + 8 ≤ dir.capacity) ∧
    ∀ cur, ReflTransGen (fun a b => dir.Passed neededLen a ∧ b = a + entrySize dir.data a)
        dir.cur cur → dir.Passed neededLen cur → entrySize dir.data cur ≠ 0 ∧
      (cur + entrySize dir.data cur = dir.capacity ∨
        cur + entrySize dir.data cur + 8 ≤ dir.capacity) := by
  rw [completes_iff (fun _ => True) (fun cur => dir.capacity - cur) trivial
    fun _ _ _ round => ⟨trivial, (seekNext_measure round).imp_right (by omega)⟩]
  constructor
  · intro h
    have hall : ∀ cur, ReflTransGen (fun a b => dir.Passed neededLen a ∧
        b = a + entrySize dir.data a) dir.cur cur →
          Follows (dir.seekNext neededLen) dir.cur cur := by
      intro cur hl
      induction hl with
      | refl => exact .refl
      | tail _ hp ih =>
        obtain ⟨hp, rfl⟩ := hp
        exact ih.tail (seekNext_of_ne hp (h _ ih).2)
    refine ⟨(h _ .refl).1, fun cur hl hp => ?_⟩
    have hf := hall cur hl
    have hn := seekNext_of_ne hp (h _ hf).2
    have ht := (h _ (hf.tail hn)).1
    have hle := (seekNext_measure hn).resolve_left fun he =>
      (h _ hf).2 (hn.trans (congrArg some he))
    exact ⟨by omega, by omega⟩
  rintro ⟨h0, h⟩ cur hf
  have hl : ReflTransGen (fun a b => dir.Passed neededLen a ∧ b = a + entrySize dir.data a)
      dir.cur cur := by
    induction hf with
    | refl => exact .refl
    | tail _ hn ih =>
      obtain ⟨hp, he⟩ := seekNext_cases hn
      obtain ⟨-, hle⟩ := h _ ih hp
      rw [if_pos (by omega)] at he
      exact ih.tail ⟨hp, he⟩
  refine ⟨fun hlt => ?_, fun hs => ?_⟩
  · rcases hl.cases_tail with rfl | ⟨before, hb, hp, rfl⟩
    · exact h0 hlt
    have hle := (h before hb hp).2
    omega
  obtain ⟨hp, he⟩ := seekNext_cases hs
  obtain ⟨hz, hle⟩ := h cur hl hp
  rw [if_pos (by omega)] at he
  omega

/-- Both loops are safe exactly when the sizes that they pass lead out of the
block or to a header. -/
theorem scansSafely_iff (fs : ExtFs) (throws : Nat → Bool) (neededLen : Nat) (dir : ExtDirectory)
    (big : 1024 ≤ fs.blockSize) (capacity : dir.capacity = fs.blockSize * dir.totalExtent) :
    dir.ScansSafely fs throws neededLen ↔ dir.SizesLead fs throws neededLen :=
  and_congr (parse_completes_iff (by omega) capacity) seek_completes_iff

def smallFs : ExtFs := ⟨1024, fun _ => none, some, true, fun _ => 0⟩

def oneBlock (data : Memory) : ExtDirectory := { data, capacity := 1024, totalExtent := 1 }

/-- One entry that fills the block. -/
def oneEntry : Memory := fun x => if x = 0 then 2 else if x = 5 then 4 else if x = 6 then 1 else 0

theorem scansSafely_oneEntry :
    (oneBlock oneEntry).ScansSafely smallFs (fun _ => false) 1020 := by
  rw [scansSafely_iff smallFs _ 1020 (oneBlock oneEntry) (by decide) (by decide)]
  refine ⟨fun place follows taken => ?_, by decide, fun cur passed here => ?_⟩
  · have visited : place = (0, 0) ∨ place = (0, 1024) ∨ place = (1, 0) := by
      clear taken
      induction follows with
      | refl => exact .inl rfl
      | tail _ next ih =>
        rcases ih with rfl | rfl | rfl <;> cases next
        · exact .inr (.inl rfl)
        · exact .inr (.inr rfl)
    rcases visited with rfl | rfl | rfl
    · decide
    · exact absurd taken.2.1 (by decide)
    · exact absurd taken.1 (by decide)
  · have visited : cur = 0 ∨ cur = 1024 := by
      clear here
      induction passed with
      | refl => exact .inl rfl
      | tail _ next ih =>
        obtain ⟨before, rfl⟩ := next
        rcases ih with rfl | rfl
        · exact .inr rfl
        · exact absurd before.1 (by decide)
    rcases visited with rfl | rfl
    · decide
    · exact absurd here.1 (by decide)

/-- An entry of size 0: the loop stays at it. -/
theorem not_scansSafely_zeroSize :
    ¬ (oneBlock fun x => if x = 0 then 1 else 0).ScansSafely smallFs (fun _ => false) 16 :=
  fun safe => not_completes_of_stays (by decide +kernel) safe.1

end ExtDirectory

end OoOS.Fs
