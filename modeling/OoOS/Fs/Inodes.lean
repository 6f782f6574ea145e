import Mathlib.Tactic.Ring

/-!
# Claiming and releasing inodes

Inode numbers count from one, bits and groups from zero.  `release_inode` does
not take that into account: it clears the bit behind the one that was set.
-/

namespace OoOS.Fs

open List

def bitmapBit (bitmap : List (BitVec 64)) (bitPos : Nat) : Bool :=
  (bitmap[bitPos / 64]?.getD 0).getLsbD (bitPos % 64)

/-- `bitmap_set_bit`.  The scan returns -1 if it finds nothing; the shift then
goes to the last bit of the first word. -/
def bitmapSetBit (bitmap : List (BitVec 64)) : Option Nat → List (BitVec 64)
  | some bitPos => bitmap.modify (bitPos / 64)
      fun word => word ||| (1#64 <<< (bitPos % 64))
  | none => bitmap.modify 0 fun word => word ||| (1#64 <<< 63)

def bitmapClearBit (bitmap : List (BitVec 64)) (bitPos : Nat) : List (BitVec 64) :=
  bitmap.modify (bitPos / 64) fun word => word &&& ~~~(1#64 <<< (bitPos % 64))

def builtinCtzl (word : BitVec 64) : Nat := (List.range 64).findIdx fun bit => word.getLsbD bit

/-- `bitmap_scan_single_zero` from the word with index `i` on, with `none` for
the result -1. -/
def bitmapScanSingleZero (i : Nat) : List (BitVec 64) → Option Nat
  | [] => none
  | word :: rest =>
    if ~~~word ≠ 0 then some (64 * i + builtinCtzl (~~~word))
    else bitmapScanSingleZero (i + 1) rest

/-- What `ext_block_group` and its descriptor keep about inodes; the bitmap is
at least one block. -/
structure BlockGroup where
  inodeUsageBmp : List (BitVec 64)
  freeInodes : BitVec 32
  numDirectories : BitVec 32
  nonempty : inodeUsageBmp ≠ []
  deriving DecidableEq

namespace BlockGroup

def hasAvailableInode (group : BlockGroup) : Bool := group.freeInodes ≠ 0

def setBit (group : BlockGroup) (bitPos : Option Nat) : BlockGroup where
  inodeUsageBmp := bitmapSetBit group.inodeUsageBmp bitPos
  freeInodes := group.freeInodes
  numDirectories := group.numDirectories
  nonempty := by
    have isNonempty := group.nonempty
    cases bitPos <;> simpa [bitmapSetBit] using isNonempty

def clearBit (group : BlockGroup) (bitPos : Nat) : BlockGroup where
  inodeUsageBmp := bitmapClearBit group.inodeUsageBmp bitPos
  freeInodes := group.freeInodes
  numDirectories := group.numDirectories
  nonempty := by
    have isNonempty := group.nonempty
    simpa [bitmapClearBit] using isNonempty

def incrementDirCt (group : BlockGroup) : BlockGroup :=
  { group with numDirectories := group.numDirectories + 1 }

def decrementDirCt (group : BlockGroup) : BlockGroup :=
  { group with numDirectories := group.numDirectories - 1 }

def claimed (group : BlockGroup) (avail : Option Nat) (dir : Bool) : BlockGroup :=
  let group := group.setBit avail
  let group := if dir then group.incrementDirCt else group
  { group with freeInodes := group.freeInodes - 1 }

def released (group : BlockGroup) (bitOff : Nat) (dir : Bool) : BlockGroup :=
  let group := group.clearBit bitOff
  let group := if dir then group.decrementDirCt else group
  { group with freeInodes := group.freeInodes + 1 }

variable (group : BlockGroup) (dir : Bool)

include group dir

lemma inodeUsageBmp_claimed (avail : Option Nat) :
    (group.claimed avail dir).inodeUsageBmp = bitmapSetBit group.inodeUsageBmp avail := by
  cases dir <;> rfl

lemma freeInodes_claimed (avail : Option Nat) :
    (group.claimed avail dir).freeInodes = group.freeInodes - 1 := by
  cases dir <;> rfl

lemma inodeUsageBmp_released (bitOff : Nat) :
    (group.released bitOff dir).inodeUsageBmp = bitmapClearBit group.inodeUsageBmp bitOff := by
  cases dir <;> rfl

end BlockGroup

structure InodeState where
  inodesPerGroup : Nat
  blockGroups : List BlockGroup
  unallocatedInodes : BitVec 32
  deriving DecidableEq

structure Persist where
  persistSb : Bool
  persistGroupMetadata : Bool
  deriving DecidableEq

namespace InodeState

variable (fs : InodeState)

def inodeNumber (group : Nat) (bitPos : Option Nat) : Nat :=
  match bitPos with
  | some avail => (avail + fs.inodesPerGroup * group + 1) % 2 ^ 32
  | none => (fs.inodesPerGroup * group) % 2 ^ 32

def claimInode (dir : Bool) (persist : Persist) : Nat × InodeState :=
  match fs.blockGroups.findIdx? BlockGroup.hasAvailableInode with
  | none => (0, fs)
  | some i =>
    match fs.blockGroups[i]? with
    | none => (0, fs)
    | some group =>
      let avail := bitmapScanSingleZero 0 group.inodeUsageBmp
      let after :=
        { fs with
          blockGroups := fs.blockGroups.set i (group.claimed avail dir)
          unallocatedInodes := fs.unallocatedInodes - 1 }
      if ¬ persist.persistSb then (0, after)
      else if ¬ persist.persistGroupMetadata then (0, after)
      else (fs.inodeNumber i avail, after)

/-- `release_inode`; `none` if a group that is not there is used. -/
def releaseInode (num : Nat) (dir : Bool) (persist : Persist) : Option (Bool × InodeState) :=
  if num = 0 then some (false, fs)
  else
    let i := num / fs.inodesPerGroup
    let bitOff := num % fs.inodesPerGroup
    match fs.blockGroups[i]? with
    | none => none
    | some group =>
      let after :=
        { fs with
          blockGroups := fs.blockGroups.set i (group.released bitOff dir)
          unallocatedInodes := fs.unallocatedInodes + 1 }
      some (persist.persistSb && persist.persistGroupMetadata, after)

/-- `group_num_for_inode` and `inode_pos_in_group`: the slot of `get_inode`. -/
def inodeSlot (num : Nat) : Nat × Nat :=
  ((num - 1) / fs.inodesPerGroup, (num - 1) % fs.inodesPerGroup)

def usageBit (slot : Nat × Nat) : Option Bool :=
  fs.blockGroups[slot.1]?.map fun group => bitmapBit group.inodeUsageBmp slot.2

/-- A claimed inode has the slot whose bit was set, and releasing it brings
everything back. -/
def ReleaseInverts (dir : Bool) (claim release : Persist) : Prop :=
  ∀ num after, fs.claimInode dir claim = (num, after) → num ≠ 0 →
    (fs.usageBit (fs.inodeSlot num) = some false ∧ after.usageBit (fs.inodeSlot num) = some true) ∧
    after.releaseInode num dir release = some (true, fs)

end InodeState

variable {bitmap : List (BitVec 64)} {bitPos other : Nat}

lemma getLsbD_one_shiftLeft {shift index : Nat} (inWord : index < 64) :
    (1#64 <<< shift).getLsbD index = decide (index = shift) := by
  rcases Nat.lt_trichotomy index shift with below | same | above
  · simp [below, ne_of_lt below]
  · simp [same, show shift < 64 by omega]
  have apart : index - shift ≠ 0 := by omega
  simp [BitVec.getLsbD_one, apart, ne_of_gt above]

lemma getElem?_modify_getD (bitmap : List (BitVec 64)) (index word : Nat)
    (change : BitVec 64 → BitVec 64) (inside : word < bitmap.length) :
    (bitmap.modify index change)[word]?.getD 0 = if index = word then change (bitmap[word]?.getD 0)
      else bitmap[word]?.getD 0 := by
  rw [getElem?_modify, getElem?_eq_getElem inside]
  split <;> rfl

lemma bitmapBit_setBit (inside : bitPos < 64 * bitmap.length) :
    bitmapBit (bitmapSetBit bitmap (some bitPos)) bitPos = true := by
  have hiw : bitPos % 64 < 64 := Nat.mod_lt _ (by decide)
  rw [bitmapBit, bitmapSetBit, getElem?_modify_getD _ _ _ _ (by omega),
    if_pos rfl, BitVec.getLsbD_or, getLsbD_one_shiftLeft hiw]
  simp

lemma bitmapBit_clearBit (inside : other < 64 * bitmap.length) :
    bitmapBit (bitmapClearBit bitmap bitPos) other =
      (bitmapBit bitmap other && decide (other ≠ bitPos)) := by
  have hiw : other % 64 < 64 := Nat.mod_lt _ (by decide)
  rw [bitmapBit, bitmapClearBit, getElem?_modify_getD _ _ _ _ (by omega), bitmapBit]
  by_cases hsw : bitPos / 64 = other / 64
  · rw [if_pos hsw, BitVec.getLsbD_and, BitVec.getLsbD_not, getLsbD_one_shiftLeft hiw]
    have hsb : other % 64 = bitPos % 64 ↔ other = bitPos := by omega
    simp [hiw, hsb]
  rw [if_neg hsw]
  have ne : other ≠ bitPos := by
    rintro rfl
    exact hsw rfl
  simp [ne]

lemma length_bitmapSetBit (bitmap : List (BitVec 64)) (avail : Option Nat) :
    (bitmapSetBit bitmap avail).length = bitmap.length := by
  cases avail <;> simp [bitmapSetBit]

lemma builtinCtzl_spec {word : BitVec 64} (nonzero : word ≠ 0) :
    builtinCtzl word < 64 ∧ word.getLsbD (builtinCtzl word) = true := by
  have found : ∃ bit ∈ range 64, word.getLsbD bit = true := by
    by_contra none
    apply nonzero
    apply BitVec.eq_of_getLsbD_eq
    intro bit hiw
    have clear : word.getLsbD bit ≠ true := fun set => none ⟨bit, mem_range.mpr hiw, set⟩
    simpa using clear
  have hin := findIdx_lt_length.mpr found
  have isSet := findIdx_getElem (w := hin)
  rw [getElem_range] at isSet
  exact ⟨hin, isSet⟩

/-- The bit that is found is clear. -/
lemma bitmapScanSingleZero_some {avail : Nat} (rest : List (BitVec 64)) :
    ∀ i, bitmapScanSingleZero i rest = some avail → 64 * i ≤ avail ∧
      avail < 64 * (i + rest.length) ∧
        bitmapBit rest (avail - 64 * i) = false := by
  induction rest with
  | nil =>
    intro i found
    cases found
  | cons _ rest ih =>
    intro i found
    rw [bitmapScanSingleZero] at found
    split at found
    · rename_i nonzero
      obtain ⟨hiw, isSet⟩ := builtinCtzl_spec nonzero
      cases found
      refine ⟨by omega, by rw [length_cons]; omega, ?_⟩
      rw [Nat.add_sub_cancel_left, bitmapBit, Nat.div_eq_of_lt hiw, Nat.mod_eq_of_lt hiw]
      simpa [hiw] using isSet
    obtain ⟨lower, upper, hc⟩ := ih _ found
    refine ⟨by omega, by rw [length_cons]; omega, ?_⟩
    rw [bitmapBit] at hc ⊢
    have next : (avail - 64 * i) / 64 = (avail - 64 * (i + 1)) / 64 + 1 := by omega
    have hsb : (avail - 64 * i) % 64 = (avail - 64 * (i + 1)) % 64 := by omega
    rw [next, hsb, getElem?_cons_succ]
    exact hc

lemma bitmapScanSingleZero_none (rest : List (BitVec 64)) :
    ∀ i bit, bitmapScanSingleZero i rest = none → bit < 64 * rest.length →
      bitmapBit rest bit = true := by
  induction rest with
  | nil =>
    intro i bit _ inside
    exact absurd inside (Nat.not_lt_zero _)
  | cons word rest ih =>
    intro i bit found inside
    rw [bitmapScanSingleZero] at found
    split at found
    · cases found
    rename_i full
    rw [bitmapBit]
    by_cases here : bit < 64
    · have clear := congrArg (fun word => word.getLsbD bit) (not_not.mp full)
      simp only [BitVec.getLsbD_not, here, decide_true, Bool.true_and] at clear
      rw [Nat.div_eq_of_lt here, Nat.mod_eq_of_lt here]
      simpa using clear
    have next : bit / 64 = (bit - 64) / 64 + 1 := by omega
    have hsb : bit % 64 = (bit - 64) % 64 := by omega
    rw [next, hsb, getElem?_cons_succ]
    exact ih (i + 1) (bit - 64) found (by rw [length_cons] at inside; omega)

namespace InodeState

variable {fs : InodeState} {dir : Bool} {claim : Persist}

/-- Where a claim succeeds: the first group that counts a free inode, and the
number found there. -/
def Claims (fs : InodeState) (claim : Persist) (group : Nat) : Prop :=
  fs.blockGroups.findIdx? BlockGroup.hasAvailableInode = some group ∧
    claim.persistSb = true ∧ claim.persistGroupMetadata = true ∧
    ∀ found ∈ fs.blockGroups[group]?,
      fs.inodeNumber group (bitmapScanSingleZero 0 found.inodeUsageBmp) ≠ 0

/-- The bit that is cleared is not the one that was set. -/
lemma clear_set_ne (bitmap : List (BitVec 64)) (nonempty : bitmap ≠ []) {num group : Nat}
    (isNumber : fs.inodeNumber group (bitmapScanSingleZero 0 bitmap) = num)
    (sameGroup : num / fs.inodesPerGroup = group) :
    bitmapClearBit (bitmapSetBit bitmap (bitmapScanSingleZero 0 bitmap))
      (num % fs.inodesPerGroup) ≠ bitmap := by
  intro hr
  have isSum := Nat.div_add_mod num fs.inodesPerGroup
  rw [sameGroup] at isSum
  have hp := length_pos_iff.mpr nonempty
  cases found : bitmapScanSingleZero 0 bitmap with
  | some avail =>
    obtain ⟨_, hin, hc⟩ := bitmapScanSingleZero_some bitmap 0 found
    rw [Nat.zero_add] at hin
    rw [Nat.mul_zero, Nat.sub_zero] at hc
    rw [found, inodeNumber] at isNumber
    have ne : avail ≠ num % fs.inodesPerGroup := by omega
    have bit := congrArg (fun bitmap => bitmapBit bitmap avail) hr
    simp only [found] at bit
    rw [bitmapBit_clearBit (by rw [length_bitmapSetBit]; exact hin),
      bitmapBit_setBit hin, hc, decide_eq_true ne] at bit
    cases bit
  | none =>
    have isSet := bitmapScanSingleZero_none bitmap 0 0 found (by omega)
    rw [found, inodeNumber] at isNumber
    have first : num % fs.inodesPerGroup = 0 := by
      omega
    have bit := congrArg (fun bitmap => bitmapBit bitmap 0) hr
    rw [bitmapBit_clearBit (by rw [length_bitmapSetBit]; omega), first, isSet] at bit
    simp at bit

lemma claimInode_of_claims (dir : Bool) {group : Nat} (claims : fs.Claims claim group) :
    ∃ found, fs.blockGroups[group]? = some found ∧ fs.claimInode dir claim =
        (fs.inodeNumber group (bitmapScanSingleZero 0 found.inodeUsageBmp),
          { fs with
            blockGroups := fs.blockGroups.set group (found.claimed
              (bitmapScanSingleZero 0 found.inodeUsageBmp) dir)
            unallocatedInodes := fs.unallocatedInodes - 1 }) := by
  obtain ⟨hf, sbOk, hgo, _⟩ := claims
  obtain ⟨hin, _⟩ := findIdx?_eq_some_iff_getElem.mp hf
  have hfo := getElem?_eq_getElem hin
  refine ⟨fs.blockGroups[group], hfo, ?_⟩
  simp [claimInode, hf, hfo, sbOk, hgo]

lemma claims_of_claimInode {num : Nat} {after : InodeState}
    (claimed : fs.claimInode dir claim = (num, after)) (nonzero : num ≠ 0) :
    ∃ group, fs.Claims claim group := by
  rw [claimInode] at claimed
  split at claimed
  · cases claimed
    exact absurd rfl nonzero
  rename_i group hf
  split at claimed
  · cases claimed
    exact absurd rfl nonzero
  rename_i found isFound
  cases sbOk : claim.persistSb <;>
    cases hgo : claim.persistGroupMetadata <;>
    simp only [sbOk, hgo, Bool.false_eq_true, not_false_eq_true, not_true, if_true,
      if_false] at claimed
  all_goals cases claimed
  all_goals first
    | exact absurd rfl nonzero
    | refine ⟨group, hf, sbOk, hgo, ?_⟩
  intro _ ho
  rw [isFound] at ho
  cases ho
  exact nonzero

/-- Releasing the inode that was claimed never brings the file system back:
the property holds only where no inode is claimed. -/
theorem releaseInverts_iff (fs : InodeState) (dir : Bool) (claim release : Persist) :
    fs.ReleaseInverts dir claim release ↔ ¬ ∃ group, fs.Claims claim group := by
  constructor
  · rintro hin ⟨group, hc⟩
    obtain ⟨found, hf, claimed⟩ := claimInode_of_claims dir hc
    have nonzero := hc.2.2.2 found hf
    obtain ⟨_, released⟩ := hin _ _ claimed nonzero
    generalize isNumber : fs.inodeNumber group
      (bitmapScanSingleZero 0 found.inodeUsageBmp) = num at *
    have inside := (List.getElem?_eq_some_iff.mp hf).1
    simp only [releaseInode, if_neg nonzero] at released
    split at released
    · cases released
    rename_i target isTarget
    have same := congrArg (fun result => result.map fun pair => pair.2.blockGroups[group]?) released
    simp only [Option.map_some, Option.some.injEq, hf] at same
    by_cases hsg : num / fs.inodesPerGroup = group
    · rw [hsg, getElem?_set_self (by omega)] at isTarget
      cases isTarget
      rw [hsg, getElem?_set_self (by simpa using inside)] at same
      have hsb := congrArg BlockGroup.inodeUsageBmp (Option.some.inj same)
      rw [BlockGroup.inodeUsageBmp_released, BlockGroup.inodeUsageBmp_claimed] at hsb
      exact clear_set_ne _ found.nonempty isNumber hsg hsb
    rw [getElem?_set_ne hsg, getElem?_set_self (by omega)] at same
    have hsc := congrArg BlockGroup.freeInodes (Option.some.inj same)
    rw [BlockGroup.freeInodes_claimed] at hsc
    bv_omega
  intro hnc num _ claimed nonzero
  exact absurd (claims_of_claimInode claimed nonzero) hnc

def oneGroup : InodeState where
  inodesPerGroup := 8
  blockGroups := [⟨[0], 8, 0, cons_ne_nil _ _⟩]
  unallocatedInodes := 8

theorem releaseInode_keeps_bit : (oneGroup.claimInode false ⟨true, true⟩).1 = 1 ∧
    ((oneGroup.claimInode false ⟨true, true⟩).2.releaseInode 1 false
      ⟨true, true⟩).map (fun result =>
        (result.1, result.2.usageBit (0, 0))) = some (true, some true) ∧
    oneGroup.usageBit (0, 0) = some false := by
  decide

end InodeState

end OoOS.Fs
