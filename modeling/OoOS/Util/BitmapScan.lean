import OoOS.Fs.Inodes
import OoOS.Libk.Arith

/-!
# The search for zero bits

`bitmap_scan_chain_zeroes`; `none` stands for the result -1.
-/

namespace OoOS.Util

open Fs Libk List BitVec

def wordAt (bitmap : List (BitVec 64)) (behind : Nat → BitVec 64) (i : Nat) : BitVec 64 :=
  bitmap[i]?.getD (behind i)

/-- `strnlen` of words, which looks at one word more than it is told. -/
def strnlen (bitmap : List (BitVec 64)) (behind : Nat → BitVec 64) (i max : Nat) : Option Nat :=
  (range (max + 1)).find? fun k => wordAt bitmap behind (i + k) = 0

/-- The loop for more than 64 bits; nothing if it does not end in so many rounds. -/
def scanLong (bitmap : List (BitVec 64)) (behind : Nat → BitVec 64) (needed : Nat) :
    Nat → Nat → Option (Option Nat)
  | 0, _ => none
  | fuel + 1, i =>
    if i < bitmap.length then
      match strnlen bitmap behind i needed with
      | none => some none
      | some n => if n = needed then some (some (i * 64))
        else scanLong bitmap behind needed fuel (i + n)
    else some none

def scanShort (numZeroes i : Nat) : List (BitVec 64) → Option Nat
  | [] => none
  | cur :: rest =>
    if numZeroes = 64 ∧ cur = 0 then some (i * 64)
    else
      match (range (64 - numZeroes)).find? fun j =>
          cur &&& (~~~(BitVec.allOnes 64 >>> numZeroes) <<< j) = 0 with
      | some j => some (i * 64 + j)
      | none => scanShort numZeroes (i + 1) rest

def bitmapScanChainZeroes (fuel : Nat) (bitmap : List (BitVec 64)) (behind : Nat → BitVec 64)
    (numZeroes : Nat) : Option (Option Nat) :=
  if numZeroes = 1 then some (bitmapScanSingleZero 0 bitmap)
  else if 64 < numZeroes then scanLong bitmap behind (divRoundUp numZeroes 64) fuel 0
  else some (scanShort numZeroes 0 bitmap)

/-- The result is -1 or a place of so many zeroes; for one it is the lowest. -/
def Finds (bitmap : List (BitVec 64)) (numZeroes : Nat) (result : Option Nat) : Prop :=
  (∀ place, result = some place → place + numZeroes ≤ 64 * bitmap.length ∧
    ∀ pos, place ≤ pos → pos < place + numZeroes → bitmapBit bitmap pos = false) ∧
  (numZeroes = 1 → ∀ pos < 64 * bitmap.length, bitmapBit bitmap pos = false →
    ∃ place ≤ pos, result = some place)

def topZeroes (word : BitVec 64) : Nat := (range 64).findIdx fun k => word.getLsbD (63 - k)

/-- The first word with more than twice the number less 64 zeroes at its top has
that many zeroes where the loop stops for it. -/
def FirstFits (numZeroes : Nat) : List (BitVec 64) → Prop
  | [] => True
  | word :: rest =>
    if numZeroes - topZeroes word < 64 - numZeroes then
      ∀ k < numZeroes, word.getLsbD (numZeroes - topZeroes word + k) = false
    else FirstFits numZeroes rest

/-- No word of the bitmap among those needed is zero, and the first zero word of
the memory is not the one behind those needed. -/
def LongFits (bitmap : List (BitVec 64)) (behind : Nat → BitVec 64) (needed : Nat) : Prop :=
  bitmap = [] ∨ ∀ first ≤ needed, wordAt bitmap behind first = 0 →
    (∀ k < first, wordAt bitmap behind k ≠ 0) → bitmap.length ≤ first ∧ first < needed

variable {bitmap : List (BitVec 64)} {behind : Nat → BitVec 64} {numZeroes : Nat}

lemma bitmapBit_cons (word : BitVec 64) (rest : List (BitVec 64)) (pos : Nat) :
    bitmapBit (word :: rest) pos = if pos < 64 then word.getLsbD pos
      else bitmapBit rest (pos - 64) := by
  unfold bitmapBit
  split
  · rw [Nat.div_eq_of_lt ‹_›, Nat.mod_eq_of_lt ‹_›]
    rfl
  rw [show pos / 64 = (pos - 64) / 64 + 1 by omega, show pos % 64 = (pos - 64) % 64 by omega]
  rfl

lemma topZeroes_spec (word : BitVec 64) : (∀ k < topZeroes word, word.getLsbD (63 - k) = false) ∧
    (topZeroes word < 64 → word.getLsbD (63 - topZeroes word) = true) := by
  constructor
  · intro k hl
    simpa using not_of_lt_findIdx hl
  intro hl
  have hs := findIdx_getElem (w := by rwa [length_range])
  rwa [getElem_range] at hs

/-- The mask tests the top bits only. -/
lemma and_mask_eq_zero_iff (few : numZeroes ≤ 64) (word : BitVec 64) (j : Nat) :
    word &&& (~~~(allOnes 64 >>> numZeroes) <<< j) = 0 ↔ numZeroes - topZeroes word ≤ j := by
  obtain ⟨zero, top⟩ := topZeroes_spec word
  have hm (i : Nat) (hw : i < 64) : (~~~(allOnes 64 >>> numZeroes) <<< j).getLsbD i =
        decide (64 + j ≤ i + numZeroes) := by
    rw [Bool.eq_iff_iff]
    simp only [getLsbD_shiftLeft, getLsbD_not, getLsbD_ushiftRight,
      getLsbD_allOnes, Bool.and_eq_true, Bool.not_eq_true',
      decide_eq_true_eq, decide_eq_false_iff_not]
    omega
  constructor
  · intro hz
    by_contra hl
    have hs := top (by omega)
    have clear := congrArg (getLsbD · (63 - topZeroes word)) hz
    rw [getLsbD_and, hm _ (by omega), hs] at clear
    simp at clear
    omega
  intro _
  refine eq_of_getLsbD_eq fun i hw => ?_
  rw [getLsbD_and, hm i hw]
  refine (Bool.and_eq_false_iff.mpr ?_).trans getLsbD_zero.symm
  by_cases hh : 64 + j ≤ i + numZeroes
  · left
    rw [show i = 63 - (63 - i) by omega]
    exact zero _ (by omega)
  right
  exact decide_eq_false hh

lemma find_mask (few : numZeroes ≤ 64) (word : BitVec 64) :
    ((range (64 - numZeroes)).find? fun j =>
      word &&& (~~~(allOnes 64 >>> numZeroes) <<< j) = 0) =
        if numZeroes - topZeroes word < 64 - numZeroes then some (numZeroes - topZeroes word)
        else none := by
  simp only [and_mask_eq_zero_iff few]
  split
  · rw [find?_range_eq_some]
    simp [*]
    omega
  simp
  omega

lemma firstFits_word (bitmap : List (BitVec 64)) : FirstFits 64 bitmap := by
  induction bitmap with
  | nil => trivial
  | cons _ _ ih => simpa [FirstFits] using ih

section

variable (few : numZeroes ≤ 64)

include few

lemma scanShort_bounds {i place : Nat} (found : scanShort numZeroes i bitmap = some place) :
    64 * i ≤ place ∧ place + numZeroes ≤ 64 * (i + bitmap.length) := by
  induction bitmap generalizing i with
  | nil => cases found
  | cons word _ ih =>
    rw [scanShort, find_mask few] at found
    rw [length_cons]
    by_cases hs : numZeroes - topZeroes word < 64 - numZeroes
    · simp only [if_pos hs] at found
      split at found <;> cases found <;> omega
    split at found
    · cases found
      omega
    have hl := ih found
    omega

/-- Whether what is found is free. -/
lemma scanShort_iff (bitmap : List (BitVec 64)) (i : Nat) :
    (∀ place, scanShort numZeroes i bitmap = some place →
      ∀ k < numZeroes, bitmapBit bitmap (place - 64 * i + k) = false) ↔
      FirstFits numZeroes bitmap := by
  induction bitmap generalizing i with
  | nil => simp [scanShort, FirstFits]
  | cons word _ ih =>
    rw [scanShort]
    split
    · rename_i whole
      obtain ⟨rfl, rfl⟩ := whole
      refine iff_of_true ?_ (firstFits_word _)
      rintro place ⟨⟩ k less
      rw [bitmapBit_cons, if_pos (by omega)]
      simp
    rw [find_mask few, FirstFits]
    by_cases hs : numZeroes - topZeroes word < 64 - numZeroes
    · simp only [if_pos hs, Option.some.injEq, forall_eq']
      refine forall₂_congr fun k less => ?_
      rw [bitmapBit_cons, show i * 64 + (numZeroes - topZeroes word) - 64 * i + k =
        numZeroes - topZeroes word + k by omega, if_pos (by omega)]
    simp only [if_neg hs]
    rw [← ih]
    refine forall₂_congr fun place found => forall₂_congr fun k less => ?_
    have ha := (scanShort_bounds few found).1
    rw [bitmapBit_cons, if_neg (by omega),
      show place - 64 * i + k - 64 = place - 64 * (i + 1) + k by omega]

lemma finds_scanShort_iff (several : numZeroes ≠ 1) (bitmap : List (BitVec 64))
    : Finds bitmap numZeroes (scanShort numZeroes 0 bitmap) ↔ FirstFits numZeroes bitmap := by
  rw [← scanShort_iff few]
  constructor
  · rintro ⟨hso, _⟩ place found k _
    exact (hso place found).2 _ (by omega) (by omega)
  refine fun hz => ⟨fun place found => ?_, fun hs => absurd hs several⟩
  have hb := scanShort_bounds few found
  refine ⟨by omega, fun pos _ _ => ?_⟩
  have hh := hz place found (pos - place) (by omega)
  rwa [show place - 64 * 0 + (pos - place) = pos by omega] at hh

end

lemma bitmapScanSingleZero_lowest {i place pos : Nat}
    (found : bitmapScanSingleZero i bitmap = some place) (below : pos < place - 64 * i) :
    bitmapBit bitmap pos = true := by
  induction bitmap generalizing i pos with
  | nil => cases found
  | cons word _ ih =>
    rw [bitmapScanSingleZero] at found
    rw [bitmapBit_cons]
    split at found
    · cases found
      have less : pos < builtinCtzl (~~~word) := by omega
      have hw : pos < 64 := lt_of_lt_of_le less (findIdx_le_length.trans_eq length_range)
      have clear := not_of_lt_findIdx less
      simpa [hw] using clear
    split
    · have clear := congrArg (getLsbD · pos) (not_not.mp ‹¬ ~~~word ≠ 0›)
      simpa [*] using clear
    · exact ih found (by omega)

lemma finds_bitmapScanSingleZero (bitmap : List (BitVec 64)) :
    Finds bitmap 1 (bitmapScanSingleZero 0 bitmap) := by
  constructor
  · intro place hf
    obtain ⟨_, hu, hz⟩ := bitmapScanSingleZero_some bitmap 0 hf
    refine ⟨by omega, fun pos _ _ => ?_⟩
    rwa [show pos = place - 64 * 0 by omega]
  intro _ pos inside hz
  cases hf : bitmapScanSingleZero 0 bitmap with
  | none =>
    rw [bitmapScanSingleZero_none bitmap 0 pos hf inside] at hz
    cases hz
  | some place =>
    refine ⟨place, ?_, rfl⟩
    by_contra ha
    rw [bitmapScanSingleZero_lowest hf (by omega)] at hz
    cases hz

lemma scanLong_zero {needed i : Nat} (nonzero : needed ≠ 0) (inside : i < bitmap.length)
    (zero : wordAt bitmap behind i = 0) (fuel : Nat) :
    scanLong bitmap behind needed fuel i = none := by
  have hh : strnlen bitmap behind i needed = some 0 := by
    rw [strnlen, find?_range_eq_some]
    simp [zero]
  induction fuel with
  | zero => rfl
  | succ fuel ih =>
    rw [scanLong, if_pos inside, hh]
    simpa [nonzero.symm] using ih

lemma not_finds_zero (many : 64 < numZeroes) (nonzero : wordAt bitmap behind 0 ≠ 0)
    (nonempty : bitmap ≠ []) : ¬ Finds bitmap numZeroes (some 0) := by
  rintro ⟨hs, _⟩
  obtain ⟨_, _, rfl⟩ := exists_cons_of_ne_nil nonempty
  refine nonzero (eq_of_getLsbD_eq fun j hw => ?_)
  have hz := (hs 0 rfl).2 j (Nat.zero_le j) (by omega)
  rw [bitmapBit_cons, if_pos hw] at hz
  exact hz.trans getLsbD_zero.symm

lemma finds_none (many : 64 < numZeroes) : Finds bitmap numZeroes none := by
  constructor
  · intro _ found
    cases found
  omega

lemma finds_scanLong_iff {needed : Nat} (nonzero : needed ≠ 0) (many : 64 < numZeroes) :
    (∃ fuel result, scanLong bitmap behind needed fuel 0 = some result ∧
      Finds bitmap numZeroes result) ↔ LongFits bitmap behind needed := by
  by_cases he : bitmap = []
  · subst he
    exact iff_of_true ⟨1, none, rfl, finds_none many⟩ (.inl rfl)
  have hin := length_pos_iff.mpr he
  rw [LongFits, or_iff_right he]
  cases hf : strnlen bitmap behind 0 needed with
  | none =>
    refine iff_of_true ⟨1, none, ?_, finds_none many⟩ fun first hl zero _ => ?_
    · rw [scanLong, if_pos hin, hf]
    rw [strnlen, find?_range_eq_none] at hf
    simpa [zero] using hf first (by omega)
  | some z =>
    have hfo := hf
    rw [strnlen, find?_range_eq_some] at hfo
    simp only [Nat.zero_add, decide_eq_true_eq, mem_range, Bool.not_eq_true',
      decide_eq_false_iff_not] at hfo
    obtain ⟨zero, hu, earlier⟩ := hfo
    by_cases hs : z = needed
    · subst hs
      refine iff_of_false ?_ fun fits => lt_irrefl z (fits z (by omega) zero earlier).2
      rintro ⟨_ | fuel, result, ran, hfi⟩
      · cases ran
      rw [scanLong, if_pos hin, hf] at ran
      simp only [if_true, Nat.zero_mul, Option.some.injEq] at ran
      subst ran
      exact not_finds_zero many (earlier 0 (by omega)) he hfi
    by_cases hw : z < bitmap.length
    · refine iff_of_false ?_ fun fits => Nat.not_le_of_lt hw (fits z (by omega) zero earlier).1
      rintro ⟨_ | fuel, result, ran, _⟩
      · cases ran
      rw [scanLong, if_pos hin, hf] at ran
      simp only [if_neg hs, Nat.zero_add, scanLong_zero nonzero hw zero] at ran
      cases ran
    refine iff_of_true ⟨2, none, ?_, finds_none many⟩ fun first hl hz before => ?_
    · rw [scanLong, if_pos hin, hf]
      simp [if_neg hs, scanLong, if_neg hw]
    have hnl : ¬ first < z := fun less => earlier first less hz
    have hnm : ¬ z < first := fun more => before z more zero
    omega

/-- The search is right for one bit, and for more of them under the condition for
the loop that looks for them. -/
theorem bitmapScanChainZeroes_finds_iff (bitmap : List (BitVec 64)) (behind : Nat → BitVec 64)
    (numZeroes : Nat) :
    (∃ fuel result, bitmapScanChainZeroes fuel bitmap behind numZeroes = some result ∧
      Finds bitmap numZeroes result) ↔ numZeroes = 1 ∨ numZeroes ≤ 64 ∧ FirstFits numZeroes bitmap ∨
      64 < numZeroes ∧ LongFits bitmap behind (divRoundUp numZeroes 64) := by
  unfold bitmapScanChainZeroes
  split
  · subst numZeroes
    simpa using finds_bitmapScanSingleZero bitmap
  split
  · rw [finds_scanLong_iff (by unfold divRoundUp; split <;> omega) ‹_›]
    grind
  have hs := finds_scanShort_iff (Nat.le_of_not_lt ‹_›) ‹_› bitmap
  simp only [Option.some.injEq, exists_eq_left', exists_const, hs]
  grind

/-- For two bits the search returns 1 for a word whose bit 2 is set. -/
theorem not_finds_twoBits : ¬ ∃ fuel result,
    bitmapScanChainZeroes fuel [0x4000000000000004] (fun _ => 0) 2 = some result ∧
      Finds [0x4000000000000004] 2 result := by
  rintro ⟨fuel, result, ran, hs, _⟩
  have ho : result = some 1 := by
    rw [bitmapScanChainZeroes, if_neg (by decide), if_neg (by decide)] at ran
    exact (Option.some.inj ran).symm.trans (by decide)
  have hw := (hs 1 ho).2 2 (by decide) (by decide)
  revert hw
  decide

end OoOS.Util
