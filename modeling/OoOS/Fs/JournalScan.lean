import OoOS.Fs.Jbd2
import OoOS.Lib.Loop
import OoOS.Lib.Memory

/-!
# Replay of a journal with any content

The loops of `read_log`, `read_log_transaction`, `parse_revocation` and
`execute_pending_txns`, with places counted in blocks of the buffer.
-/

namespace OoOS.Fs.Jbd2

open Lib Nat Option

/-- The buffer, which checksums are right, and which blocks of the volume can be written.
A record can name 4 GiB, which the address space has behind the buffer. -/
structure Journal where
  features : Features
  blockSize : Nat
  blocks : Nat
  data : Memory
  commitOk : Nat → Bool
  descriptorOk : Nat → Bool
  dataOk : (block offs cur : Nat) → Bool
  writeOk : Nat → Bool
  size_le : 1024 ≤ blockSize
  max_le : blockSize * blocks + 2 ^ 32 ≤ 2 ^ 64

/-- Where the loops are: in `read_log`, in the search, at a record, at an entry of a
revocation record, at a tag or in `execute_pending_txns`. -/
inductive Scan where
  | log (cur : Nat)
  | search (cur pos : Nat)
  | record (cur stop : Nat)
  | revoke (cur stop entry : Nat)
  | tags (cur stop block offs : Nat)
  | pending
  deriving DecidableEq

/-- With the numbers of the blocks of the transaction that is read, and of those that wait. -/
structure Replay where
  scan : Scan
  txnBlocks : List Nat := []
  active : List (List Nat) := []

def readBE (data : Memory) (pos : Nat) : Nat → Nat
  | 0 => 0
  | width + 1 => readBE data pos width * 256 + (data (pos + width)).toNat

namespace Journal

variable (j : Journal)

def bumpc (cur : Nat) : Nat := if cur < j.blocks then cur + 1 else cur

def magic (block : Nat) : Bool := readBE j.data (j.blockSize * block) 4 = 0xC03B3998

def blocktype (block : Nat) : Nat := readBE j.data (j.blockSize * block + 4) 4

def blockBytesUsed (block : Nat) : Nat := readBE j.data (j.blockSize * block + 12) 4

def flags (block offs : Nat) : Nat :=
  if j.features.csumV3 then readBE j.data (j.blockSize * block + offs + 4) 4
  else readBE j.data (j.blockSize * block + offs + 6) 2

def blocknum (block offs : Nat) : Nat :=
  readBE j.data (j.blockSize * block + offs) 4 +
    if j.features.x64Support then readBE j.data (j.blockSize * block + offs + 8) 4 * 2 ^ 32 else 0

/-- The number of entries that `block_nums.insert` reads; the difference of the
pointers is signed. -/
def revoked (bytes : Nat) : Nat :=
  if 16 ≤ bytes then (bytes - 16) / 8 else 2 ^ 64 - (23 - bytes) / 8

def blockNums (block : Nat) : List Nat :=
  (List.range (revoked (j.blockBytesUsed block))).map fun i =>
    readBE j.data (j.blockSize * block + 16 + 8 * i) 8

def isCommit (block : Nat) : Bool := j.magic block && j.blocktype block == 2

def afterTag (block offs : Nat) : Nat :=
  if (j.flags block offs).testBit 3 then j.blockSize
  else offs + descTagSize j.features ((j.flags block offs).testBit 1)

def executeAndComplete (txn : List Nat) : Bool := txn.all fun n => n == 0 || j.writeOk n

/-- The end of a round over the records. -/
def leave (s : Replay) (cur stop : Nat) : Replay :=
  let cur := j.bumpc cur
  if cur < stop then { s with scan := .record cur stop }
  else { s with scan := .log (j.bumpc cur), active := s.active ++ [s.txnBlocks] }

def next (s : Replay) : Option Replay :=
  match s.scan with
  | .log cur =>
    if cur < j.blocks then some { s with scan := .search cur cur, txnBlocks := [] }
    else if s.active = [] then none
    else some { s with scan := .pending }
  | .search cur pos =>
    if pos < j.blocks then
      some (if j.isCommit pos then
        if j.commitOk pos then { s with scan := .record cur pos }
        else { s with scan := .log (j.bumpc pos) }
      else { s with scan := .search cur (pos + 1) })
    else none
  | .record cur stop =>
    some (if j.magic cur then
      if j.blocktype cur = 5 then { s with scan := .revoke cur stop 0 }
      else if j.descriptorOk cur then { s with scan := .tags cur stop cur 12 }
      else { s with scan := .log (j.bumpc stop) }
    else { s with scan := .log (j.bumpc cur) })
  | .revoke cur stop entry =>
    some (if entry < revoked (j.blockBytesUsed cur) then
      -- a pointer behind the last address stays there
      if j.blockSize * cur + 16 + 8 * entry + 8 ≤ 2 ^ 64 then
        { s with scan := .revoke cur stop (entry + 1) }
      else s
    else
      let active := s.active.map fun txn => txn.filter (· ∉ j.blockNums cur)
      j.leave { s with active } cur stop)
  | .tags cur stop block offs =>
    some (if offs < j.blockSize then
      let cur := j.bumpc cur
      if j.dataOk block offs cur then
        { s with
          scan := .tags cur stop block (j.afterTag block offs)
          txnBlocks := s.txnBlocks ++ [j.blocknum block offs] }
      else { s with scan := .log (j.bumpc stop) }
    else j.leave s cur stop)
  | .pending =>
    match s.active with
    | [] => none
    | txn :: rest => if j.executeAndComplete txn then some { s with active := rest } else none

/-- What is read next lies in the buffer. -/
def Inside : Scan → Prop
  | .search _ pos => pos < j.blocks → j.blockSize * pos + j.blockSize ≤ j.blockSize * j.blocks
  | .record cur _ => j.blockSize * cur + j.blockSize ≤ j.blockSize * j.blocks
  | .revoke cur _ entry => entry < revoked (j.blockBytesUsed cur) →
    j.blockSize * cur + 16 + 8 * entry + 8 ≤ j.blockSize * j.blocks
  | .tags cur _ block offs => offs < j.blockSize →
    j.blockSize * block + offs + descTagSize j.features true ≤ j.blockSize * j.blocks ∧
      j.blockSize * j.bumpc cur + j.blockSize ≤ j.blockSize * j.blocks
  | _ => True

/-- The first commit block from `block` on is `stop`, and its checksum is right. -/
structure Committed (block stop : Nat) : Prop where
  le : block ≤ stop
  lt : stop < j.blocks
  isCommit : j.isCommit stop = true
  commitOk : j.commitOk stop = true
  first : ∀ pos, block ≤ pos → pos < stop → j.isCommit pos = false

/-- A record that a scan can come to. -/
def Valid (block : Nat) : Prop := (∃ stop, j.Committed block stop) ∧ j.magic block = true

/-- The tags of a descriptor block up to the first with a wrong checksum, where the blocks
from `data` on are their data. -/
def tagsFrom (block : Nat) : (fuel data offs : Nat) → Nat
  | 0, _, _ => 0
  | fuel + 1, data, offs =>
    if offs < j.blockSize then
      if j.dataOk block offs data then
        1 + tagsFrom block fuel (data + 1) (j.afterTag block offs)
      else 1
    else 0

def tagCount (block : Nat) : Nat := j.tagsFrom block j.blockSize (block + 1) 12

/-- The entries of a revocation record end in the buffer. -/
def RecordFits (block : Nat) : Prop := 16 ≤ j.blockBytesUsed block ∧
  16 + 8 * ((j.blockBytesUsed block - 16) / 8) ≤ j.blockSize * (j.blocks - block)

def Inv : Scan → Prop
  | .log cur => cur ≤ j.blocks
  | .search cur pos => cur ≤ pos ∧ cur < j.blocks ∧ pos ≤ j.blocks ∧
    ∀ p, cur ≤ p → p < pos → j.isCommit p = false
  | .record cur stop => j.Committed cur stop
  | .revoke cur stop entry => j.Committed cur stop ∧ j.magic cur = true ∧ j.blocktype cur = 5 ∧
    entry ≤ revoked (j.blockBytesUsed cur)
  | .tags cur stop block offs => j.Committed block stop ∧ block ≤ cur ∧ cur ≤ j.blocks ∧
    offs ≤ j.blockSize + 32
  | .pending => True

def width : Nat := j.blocks + j.blockSize + 2 ^ 64 + 64

def measure : Scan → Nat
  | .log cur => cur * j.width
  | .search cur pos => cur * j.width + 1 + pos
  | .record cur _ => cur * j.width + j.blocks + 2
  | .revoke cur _ entry => cur * j.width + j.blocks + 3 + entry
  | .tags _ _ block offs => block * j.width + j.blocks + 3 + offs
  | .pending => (j.blocks + 1) * j.width + 1

/-- The insertion runs through the whole address space. -/
def Stuck : Scan → Prop
  | .revoke cur _ entry => entry < revoked (j.blockBytesUsed cur) ∧
    2 ^ 64 < j.blockSize * cur + 16 + 8 * entry + 8
  | _ => False

/-- Rounds and transactions that are left at most. -/
def left (s : Replay) : Nat :=
  (j.blocks + 1) * j.width + 1 - j.measure s.scan + s.active.length

end Journal

variable {j : Journal} {s t : Replay} {block stop : Nat}

lemma mul_measure {a b : Nat} (lt : a < b) : a * j.width + j.width ≤ b * j.width := by
  have product := mul_le_mul_right j.width lt
  rwa [succ_mul] at product

lemma bumpc_bounds {c : Nat} (inBuffer : c ≤ j.blocks) : c ≤ j.bumpc c ∧ j.bumpc c ≤ j.blocks ∧
    (c < j.blocks → j.bumpc c = c + 1) := by
  unfold Journal.bumpc
  split <;> omega

lemma descTagSize_bounds (f : Features) (same : Bool) :
    8 ≤ descTagSize f same ∧ descTagSize f same ≤ 32 := by
  obtain ⟨v2, v3, x64⟩ := f
  cases v3 <;> cases x64 <;> cases same <;> simp [descTagSize]

lemma afterTag_bounds {offs : Nat} (inBlock : offs < j.blockSize) :
    offs < j.afterTag block offs ∧ j.afterTag block offs ≤ j.blockSize + 32 := by
  have size := descTagSize_bounds j.features ((j.flags block offs).testBit 1)
  unfold Journal.afterTag
  split <;> omega

lemma revoked_le (bytes : Nat) (word : bytes < 2 ^ 32) : Journal.revoked bytes ≤ 2 ^ 64 := by
  unfold Journal.revoked
  split <;> omega

lemma readBE_lt (data : Memory) (pos width : Nat) : readBE data pos width < 256 ^ width := by
  induction width with
  | zero => exact Nat.one_pos
  | succ width ih =>
    have byte := (data (pos + width)).toNat_lt
    rw [readBE, pow_succ]
    omega

lemma blockBytesUsed_lt (block : Nat) : j.blockBytesUsed block < 2 ^ 32 := by
  exact readBE_lt _ _ 4

lemma Journal.Committed.later {other : Nat} (committed : j.Committed block stop)
    (after : block ≤ other) (before : other ≤ stop) : j.Committed other stop :=
  ⟨before, committed.lt, committed.isCommit, committed.commitOk,
    fun pos from_ => committed.first pos (le_trans after from_)⟩

lemma leave_step {cur : Nat} (behind : block ≤ cur) (inBuffer : cur ≤ j.blocks)
    (committed : j.Committed block stop) (s : Replay) :
    j.Inv (j.leave s cur stop).scan ∧
      block * j.width + j.width ≤ j.measure (j.leave s cur stop).scan ∧
      (j.leave s cur stop).active.length ≤ s.active.length + 1 := by
  have once := bumpc_bounds inBuffer
  have again := bumpc_bounds once.2.1
  have stopLt := committed.lt
  have blockLe := committed.le
  rw [Journal.leave]
  split
  next before =>
    have product := @mul_measure j block (j.bumpc cur) (by omega)
    exact ⟨committed.later (by omega) before.le, by simp only [Journal.measure]; omega,
      Nat.le_succ _⟩
  next => exact ⟨again.2.1, mul_measure (by omega), by simp⟩

lemma log_step {cur : Nat} (behind : block ≤ cur) (inBuffer : cur < j.blocks) :
    j.Inv (.log (j.bumpc cur)) ∧ block * j.width + j.width ≤ j.measure (.log (j.bumpc cur)) := by
  have once := bumpc_bounds inBuffer.le
  exact ⟨once.2.1, mul_measure (by omega)⟩

/-- A round keeps the invariant and makes more progress than it adds transactions, or the
insertion has left the address space. -/
lemma next_step (inv : j.Inv s.scan) (round : j.next s = some t) : j.Inv t.scan ∧
    (j.Stuck s.scan ∧ t = s ∨
      j.measure s.scan + t.active.length < j.measure t.scan + s.active.length) := by
  have widthEq : j.width = j.blocks + j.blockSize + 2 ^ 64 + 64 := rfl
  have sizeLe := j.size_le
  obtain ⟨scan, txn, active⟩ := s
  cases scan with
  | log cur =>
    by_cases inBuffer : cur < j.blocks
    · simp only [Journal.next, if_pos inBuffer, some.injEq] at round
      subst round
      exact ⟨⟨le_rfl, inBuffer, inBuffer.le, by omega⟩,
        .inr (by simp only [Journal.measure]; omega)⟩
    · simp only [Journal.next, if_neg inBuffer, ite_none_left_eq_some, some.injEq] at round
      obtain ⟨-, rfl⟩ := round
      have bound : cur * j.width ≤ (j.blocks + 1) * j.width :=
        mul_le_mul_right j.width (le_succ_of_le inv)
      exact ⟨trivial, .inr (by simp only [Journal.measure]; omega)⟩
  | search cur pos =>
    obtain ⟨ordered, curLt, -, none⟩ := inv
    obtain ⟨posLt, round⟩ := ite_none_right_eq_some.mp round
    obtain rfl := some.inj round
    cases commit : j.isCommit pos with
    | false =>
      refine ⟨⟨by omega, curLt, posLt, fun p from_ below => ?_⟩,
        .inr (by simp only [Journal.measure, Bool.false_eq_true, if_false]; omega)⟩
      rcases Nat.lt_succ_iff_lt_or_eq.mp below with below | rfl
      · exact none p from_ below
      · exact commit
    | true =>
      simp only [if_true]
      split
      next right =>
        exact ⟨⟨ordered, posLt, commit, right, none⟩,
          .inr (by simp only [Journal.measure]; omega)⟩
      next =>
        obtain ⟨inv, product⟩ := @log_step j _ _ ordered posLt
        exact ⟨inv, .inr (by simp only [Journal.measure] at product ⊢; omega)⟩
  | record cur stop =>
    have committed : j.Committed cur stop := inv
    have ordered := committed.le
    have stopLt := committed.lt
    obtain rfl := some.inj round
    split
    next isMagic =>
      split
      next isRecord =>
        exact ⟨⟨committed, isMagic, isRecord, Nat.zero_le _⟩,
          .inr (by simp only [Journal.measure]; omega)⟩
      · split
        · exact ⟨⟨committed, le_rfl, by omega, by omega⟩,
            .inr (by simp only [Journal.measure]; omega)⟩
        · obtain ⟨inv, product⟩ := @log_step j _ _ ordered stopLt
          exact ⟨inv, .inr (by simp only [Journal.measure] at product ⊢; omega)⟩
    · obtain ⟨inv, product⟩ := @log_step j cur cur le_rfl (by omega)
      exact ⟨inv, .inr (by simp only [Journal.measure] at product ⊢; omega)⟩
  | revoke cur stop entry =>
    obtain ⟨committed, isMagic, isRecord, entryLe⟩ := inv
    have ordered := committed.le
    have stopLt := committed.lt
    have count := revoked_le _ (@blockBytesUsed_lt j cur)
    obtain rfl := some.inj round
    split
    next more =>
      split
      · exact ⟨⟨committed, isMagic, isRecord, more⟩, .inr (by simp only [Journal.measure]; omega)⟩
      next outside =>
        exact ⟨⟨committed, isMagic, isRecord, entryLe⟩, .inl ⟨⟨more, by omega⟩, rfl⟩⟩
    next =>
      obtain ⟨inv, product, few⟩ := @leave_step j cur stop cur le_rfl (by omega) committed
        ⟨.revoke cur stop entry, txn, active.map fun txn => txn.filter (· ∉ j.blockNums cur)⟩
      rw [List.length_map] at few
      exact ⟨inv, .inr (by simp only [Journal.measure] at product ⊢; omega)⟩
  | tags cur stop block offs =>
    obtain ⟨committed, behind, inBuffer, offsLe⟩ := inv
    have ordered := committed.le
    have stopLt := committed.lt
    obtain rfl := some.inj round
    have once := bumpc_bounds inBuffer
    split
    next inBlock =>
      have advance := @afterTag_bounds j block offs inBlock
      dsimp only
      split
      · exact ⟨⟨committed, by omega, once.2.1, advance.2⟩,
          .inr (by simp only [Journal.measure]; omega)⟩
      · obtain ⟨inv, product⟩ := @log_step j _ _ ordered stopLt
        exact ⟨inv, .inr (by simp only [Journal.measure] at product ⊢; omega)⟩
    next =>
      obtain ⟨inv, product, few⟩ := @leave_step j block stop cur behind inBuffer committed
        ⟨.tags cur stop block offs, txn, active⟩
      exact ⟨inv, .inr (by simp only [Journal.measure] at product few ⊢; omega)⟩
  | pending =>
    cases active with
    | nil => cases round
    | cons first rest =>
      obtain ⟨-, round⟩ := ite_none_right_eq_some.mp round
      obtain rfl := some.inj round
      exact ⟨trivial, .inr (by simp)⟩

/-- Every record with a right commit block behind it is come to from its own place. -/
lemma follows_record (committed : j.Committed block stop) (active : List (List Nat)) :
    Follows j.next ⟨.log block, [], active⟩ ⟨.record block stop, [], active⟩ := by
  have ordered := committed.le
  have stopLt := committed.lt
  have searched : ∀ more, block + more ≤ stop →
      Follows j.next ⟨.log block, [], active⟩ ⟨.search block (block + more), [], active⟩ := by
    intro more
    induction more with
    | zero => exact fun _ => .single (if_pos (by omega))
    | succ more ih =>
      intro inside
      refine (ih (by omega)).tail ?_
      have other := committed.first (block + more) (by omega) (by omega)
      simp [Journal.next, other, show block + more < j.blocks by omega, Nat.add_assoc]
  have found := searched (stop - block) (by omega)
  rw [Nat.add_sub_cancel' ordered] at found
  exact found.tail (by simp [Journal.next, stopLt, committed.isCommit, committed.commitOk])

/-- The rounds of the insertion up to the first entry that is not in the address space. -/
lemma follows_revoke (committed : j.Committed block stop) (isMagic : j.magic block = true)
    (isRecord : j.blocktype block = 5) (active : List (List Nat)) (entry : Nat)
    (more : entry ≤ Journal.revoked (j.blockBytesUsed block))
    (inSpace : j.blockSize * block + 16 + 8 * entry ≤ 2 ^ 64) :
    Follows j.next ⟨.log block, [], active⟩ ⟨.revoke block stop entry, [], active⟩ := by
  induction entry with
  | zero =>
    refine (follows_record committed active).tail ?_
    simp [Journal.next, isMagic, isRecord]
  | succ entry ih =>
    refine (ih (by omega) (by omega)).tail ?_
    have fits : j.blockSize * block + 16 + 8 * entry + 8 ≤ 2 ^ 64 := by omega
    have next : entry < Journal.revoked (j.blockBytesUsed block) := more
    simp only [Journal.next, if_pos next, if_pos fits]

lemma block_inside_iff {a : Nat} :
    j.blockSize * a + j.blockSize ≤ j.blockSize * j.blocks ↔ a < j.blocks := by
  rw [← mul_succ]
  exact Nat.mul_le_mul_left_iff (by have := j.size_le; omega)

/-- Two blocks of which the first is a revocation record. -/
def oneRecord (bytes : List UInt8) : Journal where
  features := ⟨false, true, true⟩
  blockSize := 1024
  blocks := 2
  data := fun x =>
    (if x < 1024 then [0xC0, 0x3B, 0x39, 0x98, 0, 0, 0, 5, 0, 0, 0, 0] ++ bytes
      else [0xC0, 0x3B, 0x39, 0x98, 0, 0, 0, 2]).getD (x % 1024) 0
  commitOk := fun _ => true
  descriptorOk := fun _ => true
  dataOk := fun _ _ _ => true
  writeOk := fun _ => true
  size_le := by decide
  max_le := by decide

lemma oneRecord_committed (bytes : List UInt8) : (oneRecord bytes).Committed 0 1 := by
  refine ⟨Nat.zero_le 1, Nat.lt_add_one 1, ?_, rfl, fun pos _ below => ?_⟩
  · simp [oneRecord, Journal.isCommit, Journal.magic, Journal.blocktype, readBE]
  obtain rfl : pos = 0 := by omega
  simp [oneRecord, Journal.isCommit, Journal.blocktype, readBE]

lemma revoked_inside_iff {cur : Nat} (inBuffer : cur ≤ j.blocks) (bytes : Nat) :
    j.blockSize * cur + 16 + 8 * Journal.revoked bytes ≤ j.blockSize * j.blocks ↔
      16 ≤ bytes ∧ 16 + 8 * ((bytes - 16) / 8) ≤ j.blockSize * (j.blocks - cur) := by
  have maxLe := j.max_le
  have total : j.blockSize * cur + j.blockSize * (j.blocks - cur) = j.blockSize * j.blocks := by
    rw [← mul_add, Nat.add_sub_cancel' inBuffer]
  unfold Journal.revoked
  split <;> omega

lemma recordFits_of_inside (committed : j.Committed block stop) (isMagic : j.magic block = true)
    (isRecord : j.blocktype block = 5)
    (inside : ∀ s, Follows j.next ⟨.log block, [], []⟩ s → j.Inside s.scan) :
    j.RecordFits block := by
  have inBuffer := lt_of_le_of_lt committed.le committed.lt
  have behind := block_inside_iff.mpr inBuffer
  have sizeLe := j.size_le
  have maxLe := j.max_le
  refine (revoked_inside_iff inBuffer.le _).mp (not_lt.mp fun outside => ?_)
  -- the first entry that does not end in the buffer
  obtain ⟨entry, entryEq⟩ : ∃ entry,
    entry = (j.blockSize * j.blocks - (j.blockSize * block + 16)) / 8 := ⟨_, rfl⟩
  have more : entry < Journal.revoked (j.blockBytesUsed block) := by omega
  have reached := follows_revoke committed isMagic isRecord [] entry more.le (by omega)
  have ends := inside _ reached more
  omega

/-- From a tag on, each tag has a block behind the cursor. -/
lemma tagsFrom_of_inside (fuel : Nat) : ∀ (cur offs : Nat) (txn : List Nat), cur < j.blocks →
    (∀ s, Follows j.next ⟨.tags cur stop block offs, txn, []⟩ s → j.Inside s.scan) →
      cur + j.tagsFrom block fuel (cur + 1) offs < j.blocks := by
  induction fuel with
  | zero => exact fun cur offs txn inBuffer _ => inBuffer
  | succ fuel ih =>
    intro cur offs txn inBuffer inside
    rw [Journal.tagsFrom]
    split
    next inBlock =>
      have bumped := (bumpc_bounds inBuffer.le).2.2 inBuffer
      have dataInside := (inside _ .refl inBlock).2
      rw [block_inside_iff, bumped] at dataInside
      split
      next right =>
        have round : j.next ⟨.tags cur stop block offs, txn, []⟩ =
            some ⟨.tags (cur + 1) stop block (j.afterTag block offs),
              txn ++ [j.blocknum block offs], []⟩ := by
          simp [Journal.next, inBlock, bumped, right]
        have rest := ih (cur + 1) (j.afterTag block offs) _ dataInside
          fun s reached => inside s (.head round reached)
        omega
      next => exact dataInside
    next => exact inBuffer

/-- What holds in the states after a record that fits. -/
def AtFit (j : Journal) : Scan → Prop
  | .revoke cur _ _ => j.RecordFits cur
  | .tags cur _ block offs => ∃ fuel, j.blockSize ≤ offs + fuel ∧
    cur + j.tagsFrom block fuel (cur + 1) offs < j.blocks
  | _ => True

lemma atFit_leave (s : Replay) (cur stop : Nat) : AtFit j (j.leave s cur stop).scan := by
  rw [Journal.leave]
  split <;> exact trivial

/-- A round of a log whose records fit. -/
lemma atFit_step (records : ∀ block, j.Valid block → j.blocktype block = 5 → j.RecordFits block)
    (descriptors : ∀ block, j.Valid block → j.blocktype block ≠ 5 → j.descriptorOk block = true →
      block + j.tagCount block < j.blocks)
    (inv : j.Inv s.scan) (fit : AtFit j s.scan) (round : j.next s = some t) :
    AtFit j t.scan := by
  obtain ⟨scan, txn, active⟩ := s
  cases scan with
  | log cur =>
    by_cases inBuffer : cur < j.blocks
    · simp only [Journal.next, if_pos inBuffer, some.injEq] at round
      subst round
      exact trivial
    · simp only [Journal.next, if_neg inBuffer, ite_none_left_eq_some, some.injEq] at round
      obtain ⟨-, rfl⟩ := round
      exact trivial
  | search cur pos =>
    obtain ⟨-, round⟩ := ite_none_right_eq_some.mp round
    obtain rfl := some.inj round
    split
    · split <;> exact trivial
    · exact trivial
  | record cur stop =>
    obtain rfl := some.inj round
    split
    next isMagic =>
      have valid : j.Valid cur := ⟨⟨stop, inv⟩, isMagic⟩
      split
      next isRecord => exact records cur valid isRecord
      next other =>
        split
        next right => exact ⟨j.blockSize, by omega, descriptors cur valid other right⟩
        next => exact trivial
    next => exact trivial
  | revoke cur stop entry =>
    obtain rfl := some.inj round
    split
    · split <;> exact fit
    · exact atFit_leave _ _ _
  | tags cur stop block offs =>
    obtain ⟨fuel, enough, fits⟩ := fit
    obtain rfl := some.inj round
    split
    next inBlock =>
      obtain ⟨fuel, rfl⟩ : ∃ less, fuel = less + 1 := ⟨fuel - 1, by omega⟩
      rw [Journal.tagsFrom, if_pos inBlock] at fits
      have bumped := (bumpc_bounds inv.2.2.1).2.2 (by omega)
      have advance := @afterTag_bounds j block offs inBlock
      dsimp only
      rw [bumped]
      split
      next right =>
        rw [if_pos right] at fits
        exact ⟨fuel, by omega, by omega⟩
      next => exact trivial
    next => exact atFit_leave _ _ _
  | pending =>
    cases active with
    | nil => cases round
    | cons first rest =>
      obtain ⟨-, round⟩ := ite_none_right_eq_some.mp round
      obtain rfl := some.inj round
      exact trivial

lemma inside_of_atFit {scan : Scan} (inv : j.Inv scan) (fit : AtFit j scan) : j.Inside scan := by
  cases scan with
  | search cur pos => exact block_inside_iff.mpr
  | record cur stop => exact block_inside_iff.mpr (lt_of_le_of_lt inv.le inv.lt)
  | revoke cur stop entry =>
    intro more
    have inBuffer := lt_of_le_of_lt inv.1.le inv.1.lt
    have ends := (revoked_inside_iff inBuffer.le _).mpr fit
    omega
  | tags cur stop block offs =>
    intro inBlock
    obtain ⟨committed, behind, inBuffer, -⟩ := inv
    obtain ⟨fuel, enough, fits⟩ := fit
    obtain ⟨fuel, rfl⟩ : ∃ less, fuel = less + 1 := ⟨fuel - 1, by omega⟩
    rw [Journal.tagsFrom, if_pos inBlock] at fits
    have next : cur + 1 < j.blocks := by
      split at fits <;> omega
    have bumped := (bumpc_bounds inBuffer).2.2 (by omega)
    have size := descTagSize_bounds j.features true
    have sizeLe := j.size_le
    -- a tag ends in the block behind its own at the latest
    have product := mul_le_mul_left j.blockSize (show block + 2 ≤ j.blocks by omega)
    rw [mul_add] at product
    exact ⟨by omega, block_inside_iff.mpr (by rw [bumped]; exact next)⟩
  | log _ => exact trivial
  | pending => exact trivial

/-- Everything that is read lies in the buffer exactly when the entries of each record end
there, and each descriptor block has as many blocks behind it as tags. -/
theorem readLog_inside_iff (j : Journal) :
    (∀ (cur : Fin (j.blocks + 1)) (active : List (List Nat)) (s : Replay),
      Follows j.next ⟨.log cur, [], active⟩ s → j.Inside s.scan) ↔
      ∀ block, j.Valid block →
        (j.blocktype block = 5 → 16 ≤ j.blockBytesUsed block ∧
          16 + 8 * ((j.blockBytesUsed block - 16) / 8) ≤ j.blockSize * (j.blocks - block)) ∧
        (j.blocktype block ≠ 5 → j.descriptorOk block = true →
          block + j.tagCount block < j.blocks) := by
  constructor
  · rintro inside block ⟨⟨stop, committed⟩, isMagic⟩
    have inBuffer := lt_of_le_of_lt committed.le committed.lt
    have inside := inside ⟨block, lt_succ_of_lt inBuffer⟩ []
    refine ⟨fun isRecord => recordFits_of_inside committed isMagic isRecord inside,
      fun other right => ?_⟩
    have round : j.next ⟨.record block stop, [], []⟩ =
      some ⟨.tags block stop block 12, [], []⟩ := by
      simp [Journal.next, isMagic, other, right]
    exact tagsFrom_of_inside _ _ _ [] inBuffer fun s reached =>
      inside s ((follows_record committed []).trans (.head round reached))
  intro fits cur active s reached
  have round : ∀ s t, j.Inv s.scan ∧ AtFit j s.scan → j.next s = some t →
      j.Inv t.scan ∧ AtFit j t.scan := fun s t both round =>
    ⟨(next_step both.1 round).1, atFit_step (fun block valid => (fits block valid).1)
      (fun block valid => (fits block valid).2) both.1 both.2 round⟩
  have both := reached.invariant round ⟨le_of_lt_succ cur.2, trivial⟩
  exact inside_of_atFit both.1 both.2

theorem not_inside_longRecord :
    ¬ ∀ s, Follows (oneRecord [0, 0, 0x10, 0]).next ⟨.log 0, [], []⟩ s →
      (oneRecord [0, 0, 0x10, 0]).Inside s.scan := fun inside =>
  absurd (recordFits_of_inside (oneRecord_committed _) (by decide +kernel) (by decide +kernel)
    inside).2 (by decide +kernel)

end OoOS.Fs.Jbd2
