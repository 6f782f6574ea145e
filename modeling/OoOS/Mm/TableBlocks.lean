import Mathlib.Data.List.Perm.Subperm
import OoOS.Mm.HeapCalls

/-!
# The blocks that page tables are put in

`allocate_pt` compares a difference of words with the size of a table, so a block
that ends inside the alignment gap looks larger than any other one.
-/

namespace OoOS.Mm

open List Lib Libk Nat KFrameTag

def TagsApart (left right : Nat) : Prop := left + btOffset ≤ right ∨ right + btOffset ≤ left

namespace KFrameTag

variable {frame : KFrameTag} {addr other : Nat} {tag : BlockTag}

lemma decodeInt_encodeInt {value : Int} (lower : -2 ^ 31 ≤ value ∧ value < 2 ^ 31) :
    decodeInt (encodeInt value % 256 ^ 4) = value := by
  rw [decodeInt, encodeInt]
  split <;> omega

lemma inRange_tag (frame : KFrameTag) (addr : Nat) : (frame.tag addr).InRange where
  magic := readLE_lt _ _ 8
  blockSize := readLE_lt _ _ 8
  heldSize := readLE_lt _ _ 8
  leftSplit := readLE_lt _ _ 8
  rightSplit := readLE_lt _ _ 8
  previous := readLE_lt _ _ 8
  next := readLE_lt _ _ 8
  index := by
    have hb := readLE_lt frame.memory (addr + 56) 4
    simp only [tag, readTag, decodeInt]
    split <;> omega
  alignBytes := readLE_lt _ _ 4

lemma inRange_mk {size held align : Nat} {index : Int} (small : size < 2 ^ 64)
    (heldSmall : held < 2 ^ 64)
    (indexIn : -2 ^ 31 ≤ index ∧ index < 2 ^ 31) (alignSmall : align < 2 ^ 32) :
    BlockTag.InRange ⟨blockMagic, size, held, 0, 0, 0, 0, index, align⟩ := by
  have hz := Nat.two_pow_pos 64
  exact ⟨(by decide : blockMagic < 2 ^ 64), small, heldSmall, hz, hz, hz, hz, indexIn, alignSmall⟩

lemma tag_setTag (inRange : tag.InRange) : (frame.setTag addr tag).tag addr = tag := by
  obtain ⟨hm, hb, hh, hl, hrs, hp, hn, hi, ha⟩ := inRange
  simp (disch := omega) only [KFrameTag.tag, setTag, readTag, writeTag, readLE_same,
    readLE_disjoint, decodeInt_encodeInt hi, mod_eq_of_lt]

lemma tag_setTag_apart (apart : TagsApart addr other) :
    (frame.setTag addr tag).tag other = frame.tag other := by
  unfold TagsApart btOffset at apart
  simp (disch := omega) only [KFrameTag.tag, setTag, readTag, writeTag, readLE_disjoint]

lemma alignBytes_modifyTag {change : BlockTag → BlockTag}
    (keeps : ∀ tag, tag.InRange → (change tag).InRange ∧ (change tag).alignBytes = tag.alignBytes) :
    ((frame.modifyTag addr change).tag addr).alignBytes = (frame.tag addr).alignBytes := by
  obtain ⟨hr, ha⟩ := keeps _ (frame.inRange_tag addr)
  rw [modifyTag, tag_setTag hr, ha]

lemma memory_setAvailable (idx : Int) (blk : Nat) :
    (frame.setAvailable idx blk).memory = frame.memory := by
  unfold setAvailable
  split <;> rfl

lemma tag_setComplete (idx count : Nat) :
    (frame.setComplete idx count).tag addr = frame.tag addr := rfl

lemma alignBytes_removeBlock (prevApart : (frame.tag addr).previous = 0 ∨
      TagsApart (frame.tag addr).previous addr)
    (nextApart : (frame.tag addr).next = 0 ∨ TagsApart (frame.tag addr).next addr) :
    ((frame.removeBlock addr).tag addr).alignBytes = (frame.tag addr).alignBytes := by
  rw [removeBlock, alignBytes_modifyTag]
  swap
  · exact fun _ hr => ⟨{ hr with
      next := Nat.two_pow_pos 64, previous := Nat.two_pow_pos 64
      index := show -2 ^ 31 ≤ (-1 : Int) ∧ (-1 : Int) < 2 ^ 31 by decide }, rfl⟩
  generalize hf : (if frame.availableAt (frame.tag addr).index = addr then _ else _) = first
  have hs : first.tag addr = frame.tag addr := by
    rw [← hf]
    split
    · rw [tag, memory_setAvailable, tag]
    split
    case isTrue h => exact tag_setTag_apart (prevApart.resolve_left h)
    case isFalse => rfl
  rw [hs]
  split
  case isTrue h => rw [modifyTag, tag_setTag_apart (nextApart.resolve_left h), hs]
  case isFalse => rw [hs]

end KFrameTag

namespace KernelMemoryMgr

/-- The alignment gap of a page table behind a tag. -/
def ptGap (tag : Nat) : Nat := addAlignSize tag pageSize

/-- The free blocks behind a pointer, with the sizes of their headers. -/
def Listed (frame : KFrameTag) (size : Nat → Nat) : (first : Nat) → List Nat → Prop
  | first, [] => first = 0
  | first, tag :: rest =>
    first = tag ∧ (frame.tag tag).heldSize = 0 ∧ (frame.tag tag).blockSize = size tag ∧
      ((frame.tag tag).previous = 0 ∨ TagsApart (frame.tag tag).previous tag) ∧
      Listed frame size (frame.tag tag).next rest

/-- `available_size() >= pt_size` with a gap of the block. -/
def Taken (size : Nat → Nat) (tag : Nat) : Bool :=
  size tag < btOffset + ptGap tag ∨ btOffset + ptGap tag + ptSize ≤ size tag

variable {size : Nat → Nat} {tags : List Nat}

lemma Listed.congr {after frame : KFrameTag} : ∀ {tags : List Nat} {first : Nat},
    (∀ tag ∈ tags, after.tag tag = frame.tag tag) → Listed frame size first tags →
      Listed after size first tags
  | [], _, _, hl => hl
  | tag :: rest, _, hs, hl => by
    rw [Listed, hs tag mem_cons_self]
    obtain ⟨hf, hh, hb, hp, hr⟩ := hl
    exact ⟨hf, hh, hb, hp, hr.congr (forall_mem_cons.mp hs).2⟩

lemma taken_iff {tag : BlockTag} {addr : Nat} (inRange : tag.InRange) (unheld : tag.heldSize = 0)
    (isSize : tag.blockSize = size addr) :
    ({ tag with alignBytes := ptGap addr } : BlockTag).availableSize ≥ ptSize ↔
      Taken size addr := by
  have hg : ptGap addr ≤ pageSize := addAlignSize_le addr pageSize
  have hw := inRange.blockSize
  rw [isSize] at hw
  rw [Taken, decide_eq_true_iff]
  simp only [BlockTag.availableSize, BlockTag.allocatedSize, wsub, wadd, unheld, isSize, ptSize,
    pageTableLength, btOffset, pageSize] at hg ⊢
  omega

/-- The list is searched up to the first tag that is taken. -/
lemma findPtTag_eq : ∀ {tags : List Nat} {fuel : Nat} {frame : KFrameTag} {first : Nat},
    Listed frame size first tags → tags.Pairwise TagsApart →
      (∀ tag ∈ tags, tag ≠ 0 ∧ tag < 2 ^ 64) → tags.length < fuel →
      match tags.find? (Taken size) with
      | none => ∃ after, findPtTag fuel frame first = .missing after
      | some tag => ∃ after, findPtTag fuel frame first = .found tag after ∧
          (after.tag tag).alignBytes = ptGap tag := by
  intro tags
  induction tags with
  | nil =>
    intro fuel frame first hl _ _ hfu
    obtain ⟨fuel, rfl⟩ := exists_eq_succ_of_ne_zero (ne_of_gt hfu)
    refine ⟨frame, ?_⟩
    rw [findPtTag, if_pos (show first = 0 from hl)]
  | cons tag rest ih =>
    intro fuel frame first hl ha hz hfu
    obtain ⟨fuel, rfl⟩ := exists_eq_succ_of_ne_zero (ne_of_gt (zero_lt_of_lt hfu))
    obtain ⟨rfl, hh, hb, hp, hr⟩ := hl
    obtain ⟨ht, ha⟩ := pairwise_cons.mp ha
    have hset : (frame.modifyTag first fun this =>
        { this with alignBytes := addAlignSize first pageSize }).tag first =
          { frame.tag first with alignBytes := ptGap first } := by
      rw [modifyTag, tag_setTag]
      · rfl
      · exact { frame.inRange_tag first with
          alignBytes := lt_of_le_of_lt (addAlignSize_le first pageSize) (by decide) }
    have hrange := frame.inRange_tag first
    rw [findPtTag, if_neg (hz first mem_cons_self).1]
    simp only [hset]
    by_cases htk : Taken size first
    · rw [find?_cons_of_pos htk, if_pos ((taken_iff hrange hh hb).mpr htk)]
      refine ⟨_, rfl, ?_⟩
      generalize frame.modifyTag first _ = set at *
      have hnext : (set.tag first).next = 0 ∨ TagsApart (set.tag first).next first := by
        rw [hset]
        cases rest with
        | nil => exact .inl hr
        | cons next _ =>
          right
          rw [show (frame.tag first).next = next from hr.1]
          exact (ht next mem_cons_self).symm
      have hal := @alignBytes_removeBlock set first (by rwa [hset]) hnext
      rw [hset] at hal
      rw [alignBytes_modifyTag]
      · split
        · rw [tag_setComplete, hal]
        · rw [hal]
      · exact fun _ hr => ⟨{ hr with heldSize := show ptSize < 2 ^ 64 by decide }, rfl⟩
    · rw [find?_cons_of_neg htk, if_neg (mt (taken_iff hrange hh hb).mp htk)]
      refine ih (hr.congr fun other hm => ?_) ha (forall_mem_cons.mp hz).2
        (lt_of_succ_lt_succ hfu)
      simp [modifyTag, tag_setTag_apart (ht other hm)]

/-- The tag whose block the page is in, and the size of the block. -/
def Chosen (frame : KFrameTag) (backing : Option Nat) (tag size : Nat) : Prop :=
  backing = some tag ∧ size = ptRegionSize ∨ backing = none ∧ size = (frame.tag tag).blockSize ∧
    ∃ after, findPtTag linkFuel frame (frame.availableBlocks ptIndex) = .found tag after

/-- A page that is returned is aligned and inside the chosen block. -/
def StaysInside (mgr : KernelMemoryMgr) (frame : KFrameTag) : Prop :=
  ∀ result backing next after, mgr.allocatePt frame = some (result, backing, next, after) →
    result ≠ 0 → ∃ tag size, Chosen frame backing tag size ∧ pageSize ∣ result ∧
      ∃ offset, result = wadd tag offset ∧ btOffset ≤ offset ∧ offset + pageSize ≤ size

/-- The first free list holds free blocks with headers of their own. -/
structure FreeTags (frame : KFrameTag) (tags : List Nat) : Prop where
  listed : Listed frame (fun tag => (frame.tag tag).blockSize) (frame.availableBlocks ptIndex) tags
  apart : tags.Pairwise TagsApart
  word : ∀ tag ∈ tags, tag ≠ 0 ∧ tag < 2 ^ 64

lemma dvd_wadd_ptGap (tag : Nat) : pageSize ∣ wadd tag (btOffset + ptGap tag) := by
  have hm := @upToNearest_mod_eq_zero (wadd tag btOffset) 4096 (by decide)
  refine dvd_of_mod_eq_zero ?_
  rw [ptGap, addAlignSize, if_pos (by decide)]
  simp only [pageSize] at *
  generalize upToNearest (wadd tag btOffset) 4096 = up at *
  simp only [wadd, wsub, btOffset]
  omega

variable {frame : KFrameTag} {mgr : KernelMemoryMgr}

lemma FreeTags.length_lt (free : FreeTags frame tags) : tags.length < linkFuel := by
  have hn : tags.Nodup := free.apart.imp fun hab he => by
    subst he
    unfold TagsApart btOffset at hab
    omega
  have hs : tags ⊆ range' 1 (2 ^ 64 - 1) := fun tag hm => by
    have hw := free.word tag hm
    rw [mem_range'_1]
    omega
  have hlen := (subperm_of_subset hn hs).length_le
  rw [length_range'] at hlen
  rw [linkFuel]
  omega

section

variable {tag : Nat} (free : FreeTags frame tags)
  (first : tags.find? (Taken fun tag => (frame.tag tag).blockSize) = some tag)

include free first

lemma FreeTags.allocatePt_eq :
    ∃ after, findPtTag linkFuel frame (frame.availableBlocks ptIndex) = .found tag after ∧
      mgr.allocatePt frame =
        some (wadd tag (btOffset + ptGap tag), none, mgr, (finishPt after tag).2) := by
  have hf := findPtTag_eq free.listed free.apart free.word free.length_lt
  rw [first] at hf
  obtain ⟨after, hf, hal⟩ := hf
  refine ⟨after, hf, ?_⟩
  simp [allocatePt, hf, finishPt, BlockTag.actualStart, hal]

lemma StaysInside.fits (inside : mgr.StaysInside frame)
    (nonzero : wadd tag (btOffset + ptGap tag) ≠ 0) :
    btOffset + ptGap tag + pageSize ≤ (frame.tag tag).blockSize := by
  obtain ⟨after, hf, he⟩ := free.allocatePt_eq first
  obtain ⟨_, _, ⟨hn, _⟩ | ⟨_, rfl, _, hf'⟩, _, offset, hr, hlo, hhi⟩ := inside _ _ _ _ he nonzero
  · cases hn
  rw [hf] at hf'
  cases hf'
  have hg : ptGap tag ≤ pageSize := addAlignSize_le tag pageSize
  simp only [wadd, btOffset, pageSize] at *
  omega

end

/-- The page stays in its block exactly if the first block that is taken, which
may be one that ends in the gap, has room for it (or the page would be at 0). -/
theorem staysInside_iff (mgr : KernelMemoryMgr) (free : FreeTags frame tags) :
    mgr.StaysInside frame ↔ ∀ tag,
      tags.find? (Taken fun tag => (frame.tag tag).blockSize) = some tag →
        btOffset + ptGap tag + pageSize ≤ (frame.tag tag).blockSize ∨
          wadd tag (btOffset + ptGap tag) = 0 := by
  refine ⟨fun hs tag hc => or_iff_not_imp_right.mpr (hs.fits free hc), ?_⟩
  intro h result backing next final he hz
  cases hc : tags.find? (Taken fun tag => (frame.tag tag).blockSize) with
  | none =>
    have hf := findPtTag_eq free.listed free.apart free.word free.length_lt
    rw [hc] at hf
    obtain ⟨after, hf⟩ := hf
    simp only [allocatePt, hf] at he
    split at he
    · cases he
    rename_i allocated _ _
    split at he
    · cases he
      exact absurd rfl hz
    cases he
    have hg := addAlignSize_le allocated pageSize
    have hs : btOffset + pageSize + pageSize ≤ ptRegionSize := by decide
    have ht := @tag_setTag after allocated _ (inRange_mk
      (by decide : ptRegionSize < 2 ^ 64) (by decide : ptSize < 2 ^ 64)
      (by decide : -2 ^ 31 ≤ (-1 : Int) ∧ _) (lt_of_le_of_lt hg (by decide)))
    refine ⟨allocated, _, .inl ⟨rfl, rfl⟩, ?_⟩
    simp only [finishPt, ht, BlockTag.actualStart]
    exact ⟨dvd_wadd_ptGap allocated, _, rfl, le_add_right _ _, by omega⟩
  | some tag =>
    obtain ⟨after, hf, he'⟩ := free.allocatePt_eq hc
    rw [he'] at he
    cases he
    exact ⟨tag, _, .inr ⟨rfl, rfl, after, hf⟩, dvd_wadd_ptGap tag, _, rfl, le_add_right _ _,
      (h tag hc).resolve_right hz⟩

/-- One free block in the list that is searched. -/
def oneTag (addr size : Nat) : KFrameTag :=
  KFrameTag.setTag ⟨fun _ => 0, fun _ => 0, fun _ => addr⟩ addr
    ⟨blockMagic, size % 2 ^ 64, 0, 0, 0, 0, 0, 5, 0⟩

lemma tag_oneTag (addr size : Nat) : (oneTag addr size).tag addr =
    ⟨blockMagic, size % 2 ^ 64, 0, 0, 0, 0, 0, 5, 0⟩ :=
  tag_setTag (inRange_mk (mod_lt _ (Nat.two_pow_pos 64))
    (Nat.two_pow_pos 64) (by decide) (by decide))

lemma freeTags_oneTag {addr : Nat} (size : Nat) (isWord : addr ≠ 0 ∧ addr < 2 ^ 64) :
    FreeTags (oneTag addr size) [addr] where
  listed := by
    refine ⟨rfl, ?_⟩
    simp [Listed, tag_oneTag]
  apart := pairwise_singleton _ _
  word := by simpa using isWord

theorem staysInside_region : StaysInside ⟨fun _ _ => ⟨0⟩, 0, 0, 0⟩ (oneTag 0x1000 0x10000) := by
  refine (staysInside_iff _ (freeTags_oneTag 0x10000 (by decide))).mpr fun tag hc => .inl ?_
  have hm := mem_of_find?_eq_some hc
  rw [mem_singleton] at hm
  subst hm
  rw [tag_oneTag]
  decide

/-- A block of one page that ends in the gap is taken, and the table is behind it. -/
theorem not_staysInside_page :
    ¬ StaysInside ⟨fun _ _ => ⟨0⟩, 0, 0, 0⟩ (oneTag 0x1FF0 0x1000) := by
  intro hs
  have hc : [0x1FF0].find? (Taken fun tag => ((oneTag 0x1FF0 0x1000).tag tag).blockSize) =
      some 0x1FF0 := by
    refine find?_cons_of_pos ?_
    rw [Taken, decide_eq_true_iff, tag_oneTag]
    decide
  have hf := hs.fits (freeTags_oneTag 0x1000 (by decide)) hc (by decide)
  rw [tag_oneTag] at hf
  exact absurd hf (by decide)

end KernelMemoryMgr

end OoOS.Mm
