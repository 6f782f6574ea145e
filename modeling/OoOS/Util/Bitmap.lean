import OoOS.Fs.Inodes

/-!
# Ranges of bits in bitmaps

`bitmap_set_chain_bits` and `bitmap_clear_chain_bits`: bitmaps are lists of words of
64 bits, positions count from the lowest bit of the first word.
-/

namespace OoOS.Util

open Fs List BitVec

abbrev Bitmap := List (BitVec 64)

def updateWord (value : Bool) (bitmap : Bitmap) (ulpos : Nat) (mask : BitVec 64) : Bitmap :=
  bitmap.modify ulpos fun word => if value then word ||| mask else word &&& ~~~mask

def updateShort (value : Bool) (bitmap : Bitmap) (bitPos numBits : Nat) : Bitmap :=
  let ulpos := bitPos / 64
  let bitOff := bitPos % 64
  let mask := if numBits = 1 then 1#64 else BitVec.allOnes 64 >>> (64 - numBits)
  let bitmap := updateWord value bitmap ulpos (mask <<< bitOff)
  if 64 < bitOff + numBits then
    updateWord value bitmap (ulpos + 1) (mask >>> ((numBits + bitOff) % 64))
  else bitmap

def bitmapSetChainBits (bitmap : Bitmap) (bitPos numBits : Nat) : Bitmap :=
  if numBits = 1 then bitmapSetBit bitmap (some bitPos)
  else if 64 ≤ numBits then
    let actual := min numBits (64 - bitPos % 64)
    let bitmap := updateWord true bitmap (bitPos / 64) (BitVec.allOnes 64 <<< (bitPos % 64))
    if actual < numBits then bitmapSetChainBits bitmap (bitPos + actual) (numBits - actual)
    else bitmap
  else updateShort true bitmap bitPos numBits
termination_by numBits
decreasing_by omega

/-- For 64 bits and more it sets the bits behind the first word. -/
def bitmapClearChainBits (bitmap : Bitmap) (bitPos numBits : Nat) : Bitmap :=
  if numBits = 1 then bitmapClearBit bitmap bitPos
  else if 64 ≤ numBits then
    let actual := min numBits (64 - bitPos % 64)
    let bitmap := updateWord false bitmap (bitPos / 64) (BitVec.allOnes 64 <<< (bitPos % 64))
    if actual < numBits then bitmapSetChainBits bitmap (bitPos + actual) (numBits - actual)
    else bitmap
  else updateShort false bitmap bitPos numBits

/-- The bits of the range have the value, all others are as before. -/
def Exact (value : Bool) (bitmap after : Bitmap) (bitPos numBits : Nat) : Prop :=
  after.length = bitmap.length ∧ ∀ pos < 64 * bitmap.length, bitmapBit after pos =
    if bitPos ≤ pos ∧ pos < bitPos + numBits then value else bitmapBit bitmap pos

/-- Both updates are exact, and clearing takes back setting a range of zeroes. -/
def UpdatesExactly (bitmap : Bitmap) (bitPos numBits : Nat) : Prop :=
  Exact true bitmap (bitmapSetChainBits bitmap bitPos numBits) bitPos numBits ∧
  Exact false bitmap (bitmapClearChainBits bitmap bitPos numBits) bitPos numBits ∧
  ((∀ pos, bitPos ≤ pos → pos < bitPos + numBits → bitmapBit bitmap pos = false) →
    bitmapClearChainBits (bitmapSetChainBits bitmap bitPos numBits) bitPos numBits = bitmap)

variable {value : Bool} {bitmap after : Bitmap} {bitPos numBits pos ulpos : Nat} {mask : BitVec 64}

lemma length_updateWord :
    (updateWord value bitmap ulpos mask).length = bitmap.length :=
  length_modify ..

lemma bitmapBit_updateWord (inside : pos < 64 * bitmap.length) :
    bitmapBit (updateWord value bitmap ulpos mask) pos =
      if ulpos = pos / 64 ∧ mask.getLsbD (pos % 64) then value else bitmapBit bitmap pos := by
  rw [bitmapBit, updateWord, getElem?_modify_getD _ _ _ _ (by omega), bitmapBit]
  by_cases hh : ulpos = pos / 64
  · cases value <;> cases hm : mask.getLsbD (pos % 64) <;> simp [hh, hm]
    omega
  · simp [hh]

lemma getLsbD_mask {index : Nat} (few : numBits < 64) (positive : 0 < numBits) :
    (if numBits = 1 then 1#64 else allOnes 64 >>> (64 - numBits)).getLsbD index =
      decide (index < numBits) := by
  split
  · simp [*, getLsbD_one]
  simp only [getLsbD_ushiftRight, getLsbD_allOnes]
  exact decide_eq_decide.mpr (by omega)

/-- The rest in the next word has the wrong length. -/
lemma bitmapBit_updateShort (few : numBits < 64) (positive : 0 < numBits)
    (inside : pos < 64 * bitmap.length) :
    bitmapBit (updateShort value bitmap bitPos numBits) pos =
      if bitPos ≤ pos ∧ pos < bitPos + numBits ∧ pos / 64 = bitPos / 64 ∨
        64 < bitPos % 64 + numBits ∧ pos / 64 = bitPos / 64 + 1 ∧ pos % 64 < 64 - bitPos % 64
      then value else bitmapBit bitmap pos := by
  have first : (bitPos / 64 = pos / 64 ∧ ((if numBits = 1 then 1#64 else
      allOnes 64 >>> (64 - numBits)) <<< (bitPos % 64)).getLsbD (pos % 64)) ↔
        bitPos ≤ pos ∧ pos < bitPos + numBits ∧ pos / 64 = bitPos / 64 := by
    simp only [getLsbD_shiftLeft, getLsbD_mask few positive]
    simp
    omega
  simp only [updateShort]
  split
  · have second : (bitPos / 64 + 1 = pos / 64 ∧ ((if numBits = 1 then 1#64 else
        allOnes 64 >>> (64 - numBits)) >>> ((numBits + bitPos % 64) % 64)).getLsbD
          (pos % 64)) ↔ pos / 64 = bitPos / 64 + 1 ∧ pos % 64 < 64 - bitPos % 64 := by
      simp only [getLsbD_ushiftRight, getLsbD_mask few positive]
      simp
      omega
    rw [bitmapBit_updateWord (by rwa [length_updateWord]), bitmapBit_updateWord inside]
    grind
  rw [bitmapBit_updateWord inside]
  simp only [*]
  simp

/-- The ranges that the branch for less than 64 bits gets right. -/
def Fits (bitPos numBits : Nat) : Prop :=
  bitPos % 64 + numBits ≤ 64 ∨ numBits < 64 ∧ numBits + 2 * (bitPos % 64) = 128

lemma exact_updateShort (few : numBits < 64) (positive : 0 < numBits) (fits : Fits bitPos numBits)
    : Exact value bitmap (updateShort value bitmap bitPos numBits) bitPos numBits := by
  refine ⟨?_, fun _ inside => ?_⟩
  · simp only [updateShort]
    split <;> simp only [length_updateWord]
  rw [bitmapBit_updateShort few positive inside]
  refine if_congr ?_ rfl rfl
  unfold Fits at fits
  omega

lemma exact_updateWord : Exact value bitmap
    (updateWord value bitmap (bitPos / 64) (allOnes 64 <<< (bitPos % 64)))
    bitPos (64 - bitPos % 64) := by
  refine ⟨length_updateWord, fun _ inside => ?_⟩
  rw [bitmapBit_updateWord inside]
  refine if_congr ?_ rfl rfl
  simp only [getLsbD_shiftLeft, getLsbD_allOnes, Bool.and_eq_true,
    Bool.not_eq_true', decide_eq_true_eq, decide_eq_false_iff_not]
  omega

lemma Exact.trans {middle : Bitmap} {count : Nat} (exact : Exact value bitmap middle bitPos count)
    (later : Exact value middle after (bitPos + count) numBits) :
    Exact value bitmap after bitPos (count + numBits) := by
  refine ⟨later.1.trans exact.1, fun pos inside => ?_⟩
  rw [later.2 pos (by rwa [exact.1]), exact.2 pos inside]
  grind

lemma bitmapSetBit_eq : bitmapSetBit bitmap (some bitPos) = updateShort true bitmap bitPos 1 := by
  have hw : ¬ 64 < bitPos % 64 + 1 := by omega
  simp [updateShort, updateWord, bitmapSetBit, hw]

lemma bitmapClearBit_eq : bitmapClearBit bitmap bitPos = updateShort false bitmap bitPos 1 := by
  have hw : ¬ 64 < bitPos % 64 + 1 := by omega
  simp [updateShort, updateWord, bitmapClearBit, hw]

/-- Whole words are set, and the rest where it fits. -/
lemma exact_bitmapSetChainBits (positive : 0 < numBits)
    (fits : 64 ≤ numBits ∨ Fits bitPos numBits) :
    Exact true bitmap (bitmapSetChainBits bitmap bitPos numBits) bitPos numBits := by
  induction numBits using Nat.strong_induction_on generalizing bitmap bitPos with
  | _ numBits ih =>
    rw [bitmapSetChainBits]
    split
    · subst numBits
      rw [bitmapSetBit_eq]
      exact exact_updateShort (by decide) (by decide) (.inl (by omega))
    split
    · have hw := @exact_updateWord true bitmap bitPos
      simp only [Nat.min_eq_right (show 64 - bitPos % 64 ≤ numBits by omega)]
      split
      · have hr := hw.trans (ih (numBits - (64 - bitPos % 64)) (by omega)
          (by omega) (by unfold Fits; omega))
        rwa [Nat.add_sub_cancel' (by omega)] at hr
      · rwa [show 64 - bitPos % 64 = numBits by omega] at hw
    · exact exact_updateShort (by omega) positive (fits.resolve_left (by omega))

lemma ext_bitmapBit (sameLength : after.length = bitmap.length)
    (same : ∀ pos < 64 * bitmap.length, bitmapBit after pos = bitmapBit bitmap pos) :
    after = bitmap := by
  refine ext_getElem sameLength fun i hia inside => eq_of_getLsbD_eq fun j _ => ?_
  have hh := same (64 * i + j) (by omega)
  rw [bitmapBit, bitmapBit, show (64 * i + j) / 64 = i by omega,
    show (64 * i + j) % 64 = j by omega] at hh
  simpa [hia, inside] using hh

lemma exact_bitmapClearChainBits (positive : 0 < numBits) (fits : Fits bitPos numBits) :
    Exact false bitmap (bitmapClearChainBits bitmap bitPos numBits) bitPos numBits := by
  unfold bitmapClearChainBits
  split
  · subst numBits
    rw [bitmapClearBit_eq]
    exact exact_updateShort (by decide) (by decide) fits
  split
  · have hw : bitPos % 64 = 0 ∧ numBits = 64 := by
      unfold Fits at fits
      omega
    have word := @exact_updateWord false bitmap bitPos
    simp only [hw] at word ⊢
    simpa using word
  · exact exact_updateShort (by omega) positive fits

lemma not_exact_bitmapClearChainBits (long : 64 ≤ numBits) (crosses : 64 < bitPos % 64 + numBits)
    (inside : bitPos + numBits ≤ 64 * bitmap.length) :
    ¬ Exact false bitmap (bitmapClearChainBits bitmap bitPos numBits) bitPos numBits := by
  intro exact
  have hc := exact.2 (bitPos + (64 - bitPos % 64)) (by omega)
  rw [if_pos (by omega), bitmapClearChainBits, if_neg (by omega), if_pos long] at hc
  simp only [Nat.min_eq_right (show 64 - bitPos % 64 ≤ numBits by omega),
    if_pos (show 64 - bitPos % 64 < numBits by omega)] at hc
  rw [(exact_bitmapSetChainBits (by omega) (by unfold Fits; omega)).2 _
    (by rw [length_updateWord]; omega), if_pos (by omega)] at hc
  cases hc

lemma fits_of_exact (few : numBits < 64) (positive : 0 < numBits)
    (inside : bitPos + numBits ≤ 64 * bitmap.length)
    (exact : ∀ value, Exact value bitmap (updateShort value bitmap bitPos numBits) bitPos numBits) :
    Fits bitPos numBits := by
  have ha (pos : Nat) (hw : pos < 64 * bitmap.length) :
      (bitPos ≤ pos ∧ pos < bitPos + numBits ∧ pos / 64 = bitPos / 64 ∨
        64 < bitPos % 64 + numBits ∧ pos / 64 = bitPos / 64 + 1 ∧ pos % 64 < 64 - bitPos % 64) ↔
        bitPos ≤ pos ∧ pos < bitPos + numBits := by
    have set := (exact true).2 pos hw
    have clear := (exact false).2 pos hw
    rw [bitmapBit_updateShort few positive hw] at set clear
    grind
  by_contra hnf
  unfold Fits at hnf
  rcases Nat.lt_or_ge (bitPos % 64 + numBits - 64) (64 - bitPos % 64) with hs | hl
  · have hb := ha (bitPos + numBits) (by omega)
    omega
  have hm := ha (64 * (bitPos / 64 + 1) + (64 - bitPos % 64)) (by omega)
  omega

/-- The updates are exact for ranges in one word, and for those in two words whose
parts there have the same length. -/
theorem updatesExactly_iff (positive : 1 ≤ numBits)
    (inside : bitPos + numBits ≤ 64 * bitmap.length) :
    UpdatesExactly bitmap bitPos numBits ↔ bitPos % 64 + numBits ≤ 64 ∨
      numBits < 64 ∧ numBits + 2 * (bitPos % 64) = 128 := by
  constructor
  · rintro ⟨set, clear, _⟩
    by_contra notFits
    rcases Nat.lt_or_ge numBits 64 with few | hl
    · refine notFits (fits_of_exact few positive inside fun value => ?_)
      have hm : numBits ≠ 1 := by omega
      rw [bitmapSetChainBits, if_neg hm, if_neg (by omega)] at set
      rw [bitmapClearChainBits, if_neg hm, if_neg (by omega)] at clear
      cases value
      · exact clear
      · exact set
    · exact not_exact_bitmapClearChainBits hl (by omega) inside clear
  intro hf
  have set := @exact_bitmapSetChainBits bitmap bitPos numBits positive (.inr hf)
  refine ⟨set, exact_bitmapClearChainBits positive hf, fun hz => ?_⟩
  have clear := @exact_bitmapClearChainBits (bitmapSetChainBits bitmap bitPos numBits) bitPos
    numBits positive hf
  refine ext_bitmapBit (clear.1.trans set.1) fun pos hw => ?_
  rw [clear.2 pos (by rwa [set.1]), set.2 pos hw]
  split
  · rename_i inRange
    exact (hz pos inRange.1 inRange.2).symm
  · rfl

theorem updatesExactly_iff_twoAndTwo : UpdatesExactly [0, 0] 62 4 :=
  (updatesExactly_iff (by decide) (by decide)).mpr (.inr (by decide))

theorem not_updatesExactly_threeBits : ¬ UpdatesExactly [0, 0] 62 3 := by
  rintro ⟨⟨_, set⟩, _⟩
  have hw := set 65 (by decide)
  rw [bitmapSetChainBits, if_neg (by decide), if_neg (by decide)] at hw
  revert hw
  decide

end OoOS.Util
