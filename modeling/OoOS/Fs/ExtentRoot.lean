import Mathlib.Algebra.Order.BigOperators.Group.List
import OoOS.Fs.ExtentTree

/-!
# Extents in the inode

Up to four extents are kept in the inode itself.  The parser reads them back in
order; of a block number it sees the low 48 bits.
-/

namespace OoOS.Fs

open List Lib Libk DiskBlock ExtVnode DynamicBuffer

variable {data : Memory} {i j : Nat}

lemma nodeAddr_apart (ne : j ≠ i) :
    nodeAddr j + 12 ≤ nodeAddr i ∨ nodeAddr i + 12 ≤ nodeAddr j := by
  simp only [nodeAddr, extentNodeSize]
  omega

lemma le_nodeAddr (i : Nat) : 12 ≤ nodeAddr i := by
  simp only [nodeAddr, extentNodeSize]
  omega

lemma readLE_populateLeaf {addr width : Nat} (blk : DiskBlock) (fnStart : Nat)
    (apart : addr + width ≤ nodeAddr i ∨ nodeAddr i + 12 ≤ addr) :
    readLE (populateLeaf data i blk fnStart) addr width = readLE data addr width := by
  simp only [populateLeaf]
  rw [readLE_disjoint (by omega), readLE_disjoint (by omega),
    readLE_disjoint (by omega), readLE_disjoint (by omega)]

lemma extentStart_populateLeaf (blk : DiskBlock) (fnStart : Nat) :
    extentStart (populateLeaf data i blk fnStart) i = blk.blockNumber % 2 ^ 48 := by
  simp only [extentStart, populateLeaf]
  rw [readLE_disjoint (by omega), readLE_disjoint (by omega),
    readLE_disjoint (by omega), readLE_same,
    readLE_disjoint (by omega), readLE_disjoint (by omega), readLE_same]
  omega

variable {blk : DiskBlock}

lemma extentSize_populateLeaf (fnStart : Nat) (short : blk.chainLen ≤ 0x7FFF) :
    extentSize (populateLeaf data i blk fnStart) i = blk.chainLen := by
  simp only [extentSize, populateLeaf]
  rw [readLE_disjoint (by omega), readLE_same]
  omega

variable {fnStart : Nat}

lemma fileNodeStart_populateLeaf (small : fnStart < 2 ^ 32) :
    fileNodeStart (populateLeaf data i blk fnStart) i = fnStart := by
  simp only [fileNodeStart, populateLeaf]
  rw [readLE_same]
  omega

structure IsLeaf (data : Memory) (i : Nat) (blk : DiskBlock)
    (fnStart : Nat) : Prop where
  start : extentStart data i = blk.blockNumber % 2 ^ 48
  size : extentSize data i = blk.chainLen
  file : fileNodeStart data i = fnStart

lemma IsLeaf.congr {other : Memory} (leaf : IsLeaf data i blk fnStart)
    (same : ∀ addr width, nodeAddr i ≤ addr → addr + width ≤ nodeAddr i + 12 →
      readLE other addr width = readLE data addr width) :
    IsLeaf other i blk fnStart where
  start := by
    rw [← leaf.start, extentStart, extentStart, same _ _ (by omega) (by omega),
      same _ _ (by omega) (by omega)]
  size := by rw [← leaf.size, extentSize, extentSize, same _ _ (by omega) (by omega)]
  file := by rw [← leaf.file, fileNodeStart, fileNodeStart, same _ _ (by omega) (by omega)]

lemma isLeaf_populateLeaf (short : blk.chainLen ≤ 0x7FFF)
    (small : fnStart < 2 ^ 32) : IsLeaf (populateLeaf data i blk fnStart) i blk fnStart :=
  ⟨extentStart_populateLeaf blk fnStart, extentSize_populateLeaf fnStart short,
    fileNodeStart_populateLeaf small⟩

def extentsBefore (extents : List DiskBlock) (i : Nat) : Nat := ((extents.take i).map chainLen).sum

structure InRoot (node : ExtVnode) (extents : List DiskBlock) : Prop where
  init : node.hasInit = true ∨ extents = []
  magic : headerMagic node.blockInfo = extExtentMagic
  entries : headerEntries node.blockInfo = extents.length
  maxEntries : headerMaxEntries node.blockInfo = 4
  depth : headerDepth node.blockInfo = 0
  few : extents.length ≤ 4
  leaves : ∀ (i : Nat) (blk : DiskBlock), extents[i]? = some blk →
    IsLeaf node.blockInfo i blk (extentsBefore extents i)
  total : node.totalExtent = (extents.map chainLen).sum

variable {node : ExtVnode} {extents : List DiskBlock}
variable {blockInfo : Memory}

lemma inRoot_empty (empty : EmptyRoot blockInfo) :
    InRoot { blockInfo := blockInfo } [] where
  init := Or.inr rfl
  magic := empty.magic
  entries := empty.entries
  maxEntries := empty.maxEntries
  depth := empty.depth
  few := by decide
  leaves := fun _ _ mem => absurd mem (by simp)
  total := rfl

lemma InRoot.parse (inRoot : InRoot node extents) (fs : ExtFs) (fuel : Nat) :
    ∃ parsed, node.parseExt4 fs fuel = .returned true parsed ∧
      InRoot parsed extents ∧ parsed.hasInit = true := by
  rcases inRoot.init with ready | empty
  · refine ⟨node, ?_, inRoot, ready⟩
    rw [parseExt4, if_pos ready]
  by_cases ready : node.hasInit = true
  · refine ⟨node, ?_, inRoot, ready⟩
    rw [parseExt4, if_pos ready]
  refine ⟨{ node with baseDepth := 0, hasInit := true }, ?_, ?_, rfl⟩
  · have hne : headerEntries node.blockInfo = 0 := by
      rw [inRoot.entries, empty]
      rfl
    rw [parseExt4, if_neg ready, if_neg (not_not.mpr inRoot.magic)]
    simp [hne, inRoot.depth]
  · exact { inRoot with init := Or.inl rfl }

lemma extentsBefore_append (inside : i ≤ extents.length) :
    extentsBefore (extents ++ [blk]) i = extentsBefore extents i := by
  rw [extentsBefore, take_append_of_le_length inside, extentsBefore]

lemma extentsBefore_length :
    extentsBefore extents extents.length = (extents.map chainLen).sum := by
  rw [extentsBefore, take_length]

lemma sum_chainLen_le (short : ∀ blk ∈ extents, blk.chainLen ≤ 0x7FFF) :
    (extents.map chainLen).sum ≤ extents.length * 0x7FFF := by
  have bound := sum_le_card_nsmul (extents.map chainLen) 0x7FFF (by
      intro _ mem
      obtain ⟨blk, isIn, isLen⟩ := mem_map.mp mem
      rw [← isLen]
      exact short blk isIn)
  simpa using bound

/-- The root takes up to four extents. -/
lemma InRoot.push (inRoot : InRoot node extents) (fs : ExtFs) (room : extents.length < 4)
    (short : ∀ other ∈ extents, other.chainLen ≤ 0x7FFF) (blkShort : blk.chainLen ≤ 0x7FFF) :
    ∃ pushed, node.pushExtentExt4 fs blk = .returned true pushed ∧
      InRoot pushed (extents ++ [blk]) := by
  obtain ⟨parsed, hp, hip, ready⟩ := inRoot.parse fs levelFuel
  have hr : headerEntries parsed.blockInfo < headerMaxEntries parsed.blockInfo := by
    rw [hip.entries, hip.maxEntries]
    exact room
  have bound := sum_chainLen_le short
  have small : parsed.totalExtent < 2 ^ 32 := by
    rw [hip.total]
    omega
  simp only [pushExtentExt4, hp, Result.bind, Bool.true_eq_false, if_false]
  rw [if_pos hip.depth, if_pos hr]
  refine ⟨_, rfl, ?_⟩
  simp only [trackExtent, hip.entries]
  -- Fields in front of the nodes, except the count, are as they were.
  have field : ∀ addr width, addr + width ≤ 2 ∨ 4 ≤ addr → addr + width ≤ 12 →
      readLE (populateLeaf (writeLE parsed.blockInfo 2 2
        (extents.length + 1)) extents.length blk parsed.totalExtent) addr
          width = readLE parsed.blockInfo addr width := by
    intro addr width apart _
    have hbe := le_nodeAddr extents.length
    rw [readLE_populateLeaf blk _ (by omega), readLE_disjoint (by omega)]
  refine ⟨.inl ready, ?_, ?_, ?_, ?_, ?_, ?_, ?_⟩
  · rw [headerMagic, field _ _ (by omega) (by omega)]
    exact hip.magic
  · have hbe := le_nodeAddr extents.length
    rw [headerEntries, readLE_populateLeaf blk _ (by omega),
      readLE_same, length_append, length_singleton]
    omega
  · rw [headerMaxEntries, field _ _ (by omega) (by omega)]
    exact hip.maxEntries
  · rw [headerDepth, field _ _ (by omega) (by omega)]
    exact hip.depth
  · rw [length_append, length_singleton]
    omega
  · intro i other hai
    rcases Nat.lt_trichotomy i extents.length with hb | last | _
    · rw [getElem?_append_left hb] at hai
      rw [extentsBefore_append (by omega)]
      apply (hip.leaves i other hai).congr
      intro addr width _ _
      have apart := nodeAddr_apart (ne_of_lt hb)
      have hbe := le_nodeAddr i
      rw [readLE_populateLeaf blk _ (by omega), readLE_disjoint (by omega)]
    · rw [last, getElem?_concat_length] at hai
      cases hai
      rw [last, extentsBefore_append le_rfl, extentsBefore_length, ← hip.total]
      exact isLeaf_populateLeaf blkShort small
    rw [getElem?_eq_none (by simp; omega)] at hai
    exact absurd hai (by simp)
  · simp [hip.total]

/-- The root has no room for a fifth extent, and the swap of the two maps then
leaves one that cannot be inserted into. -/
lemma ext4RootOverflow_not_grown (fs : ExtFs) (node grown : ExtVnode) :
    node.ext4RootOverflow fs ≠ .returned true grown := by
  unfold ext4RootOverflow
  split
  · simp
  cases node.claimMetadataBlock fs with
  | none => simp
  | some claimed =>
    obtain ⟨number, offset, claimed⟩ := claimed
    have newMap : ∀ before : ExtVnode, ∀ depth,
        (before.trackExtent offset depth).2.nextLevel (before.trackExtent offset depth).1 = [] := by
      simp [trackExtent, nextLevel]
    simp [newMap, ExtentMap.insertSwapped]

lemma InRoot.push_full (inRoot : InRoot node extents) (fs : ExtFs) (full : extents.length = 4)
    (pushed : ExtVnode) : node.pushExtentExt4 fs blk ≠ .returned true pushed := by
  obtain ⟨parsed, returned, parsedInRoot, -⟩ := inRoot.parse fs levelFuel
  have noRoom : ¬ headerEntries parsed.blockInfo < headerMaxEntries parsed.blockInfo := by
    rw [parsedInRoot.entries, parsedInRoot.maxEntries]
    omega
  simp only [pushExtentExt4, returned, Result.bind, Bool.true_eq_false, if_false]
  rw [if_pos parsedInRoot.depth, if_neg noRoom]
  have notGrown := ext4RootOverflow_not_grown fs parsed
  cases overflow : parsed.ext4RootOverflow fs with
  | returned grown node =>
    cases grown with
    | true => exact absurd overflow (notGrown node)
    | false => simp
  | threw node => simp
  | stuck => simp

lemma InRoot.pushAll (inRoot : InRoot node extents) (fs : ExtFs) :
    ∀ more : List DiskBlock, extents.length + more.length ≤ 4 →
      (∀ other ∈ extents ++ more, other.chainLen ≤ 0x7FFF) → ∃ pushed,
        OoOS.Fs.pushAll (fun node blk => node.pushExtentExt4 fs blk) more node = some pushed ∧
        InRoot pushed (extents ++ more) := by
  intro more
  induction more generalizing node extents with
  | nil =>
    intro _ _
    refine ⟨node, rfl, ?_⟩
    rw [append_nil]
    exact inRoot
  | cons blk _ ih =>
    intro few short
    rw [length_cons] at few
    have hbs : blk.chainLen ≤ 0x7FFF := short blk (by simp)
    obtain ⟨_, hp, hin⟩ := inRoot.push fs (by omega)
      (forall_mem_append.mp short).1 hbs
    obtain ⟨pushed, all, hip⟩ := ih hin (by rw [length_append, length_singleton]; omega)
      (by simpa using short)
    refine ⟨pushed, ?_, by simpa using hip⟩
    simp only [OoOS.Fs.pushAll, hp]
    exact all

def DiskBlock.lowNumbers (blk : DiskBlock) : List Nat :=
  (List.range blk.chainLen).map fun k => blk.blockNumber % 2 ^ 48 + k

lemma insertRun_appends (start : Nat) :
    ∀ (count k : Nat) (node : ExtVnode), node.blockData.size + count ≤ node.blockData.cap →
      insertRun start count node.blockData.size k node =
        some { node with
          blockData :=
            { node.blockData with
              items := node.blockData.items ++ (range count).map fun j =>
                  { blockNumber := (start + (k + j)) % 2 ^ 64 } } } := by
  intro count
  induction count with
  | zero =>
    simp [insertRun]
  | succ count ih =>
    intro k node room
    rw [insertRun, insert_at_end rfl (by omega)]
    have next := ih (k + 1) { node with
        blockData :=
          { node.blockData with
            items := node.blockData.items ++ [{ blockNumber := (start + k) % 2 ^ 64 }] } }
      (by
        simp only [size, length_append, length_singleton] at room ⊢
        omega)
    have size : node.blockData.size + 1 = size { node.blockData with
          items := node.blockData.items ++
            [({ blockNumber := (start + k) % 2 ^ 64 } : DiskBlock)] } := by
      simp [size]
    simp only
    rw [size, next, range_succ_eq_map]
    simp [add_assoc, add_comm 1]

structure ParsedTo (blockInfo : Memory) (extents : List DiskBlock) (i : Nat)
    (node : ExtVnode) : Prop where
  info : node.blockInfo = blockInfo
  base : node.baseDepth = 0
  numbers : node.blockData.items.map DiskBlock.blockNumber = (extents.take i).flatMap lowNumbers
  total : node.totalExtent = extentsBefore extents i

lemma length_flatMap_lowNumbers (blocks : List DiskBlock) :
    (blocks.flatMap lowNumbers).length = (blocks.map chainLen).sum := by
  simp [length_flatMap, lowNumbers]

lemma ParsedTo.size
    (parsed : ParsedTo blockInfo extents i node) :
    node.blockData.size = extentsBefore extents i := by
  have hl := congrArg length parsed.numbers
  rw [length_map, length_flatMap_lowNumbers] at hl
  exact hl

lemma take_succ_of_getElem? (atIndex : extents[i]? = some blk) :
    extents.take (i + 1) = extents.take i ++ [blk] := by
  rw [take_add_one, atIndex]
  rfl

lemma ParsedTo.step (parsed : ParsedTo blockInfo extents i node)
    (atIndex : extents[i]? = some blk) (leaf : IsLeaf blockInfo i blk (extentsBefore extents i))
    (long : 1 ≤ blk.chainLen) (short : blk.chainLen ≤ 0x7FFF) (fs : ExtFs)
    (recurse : ExtVnode → Nat → Result Bool) (remaining : Nat) :
    ∃ next, parseLoopExt4 fs recurse (remaining + 1) i node =
        parseLoopExt4 fs recurse remaining (i + 1) next ∧
      ParsedTo blockInfo extents (i + 1) next := by
  have info := parsed.info
  subst info
  have count := Nat.max_eq_right long
  have hr := node.blockData.le_cap_reserve (node.blockData.size + blk.chainLen)
  have hsi := node.blockData.reserve_items (node.blockData.size + blk.chainLen)
  have hss : (node.blockData.reserve
      (node.blockData.size + blk.chainLen)).size = node.blockData.size := by
    rw [DynamicBuffer.size, hsi, DynamicBuffer.size]
  have run := insertRun_appends (blk.blockNumber % 2 ^ 48) blk.chainLen 0 { node with
      blockData :=
        node.blockData.reserve (node.blockData.size + blk.chainLen) }
    (by rw [hss]; exact hr)
  simp only [hss] at run
  rw [parseLoopExt4, if_neg (not_not.mpr parsed.base)]
  simp only [leaf.start, leaf.size, leaf.file, count, ← parsed.size, run]
  refine ⟨_, rfl, rfl, parsed.base, ?_, ?_⟩
  · rw [take_succ_of_getElem? atIndex]
    simp only [trackExtent, map_append, map_map, flatMap_append, flatMap_singleton, hsi,
      parsed.numbers]
    congr 1
    apply map_congr_left
    intro k mem
    have hin := mem_range.mp mem
    simp only [Function.comp_apply]
    omega
  rw [extentsBefore, take_succ_of_getElem? atIndex]
  simp [trackExtent, parsed.total, extentsBefore]

lemma ParsedTo.loop (leaves : ∀ (i : Nat) (blk : DiskBlock), extents[i]? = some blk →
      IsLeaf blockInfo i blk (extentsBefore extents i))
    (lengths : ∀ blk ∈ extents, 1 ≤ blk.chainLen ∧ blk.chainLen ≤ 0x7FFF)
    (fs : ExtFs) (recurse : ExtVnode → Nat → Result Bool) :
    ∀ (remaining i : Nat) (node : ExtVnode),
      i + remaining = extents.length → ParsedTo blockInfo extents i node → ∃ parsed,
        parseLoopExt4 fs recurse remaining i node = .returned true parsed ∧
        ParsedTo blockInfo extents extents.length parsed := by
  intro remaining
  induction remaining with
  | zero =>
    intro i node atEnd parsed
    refine ⟨{ node with hasInit := true }, rfl, ?_⟩
    rw [← atEnd, add_zero]
    exact ⟨parsed.info, parsed.base, parsed.numbers, parsed.total⟩
  | succ remaining ih =>
    intro i node _ parsed
    have hib : i < extents.length := by omega
    have hai := getElem?_eq_getElem hib
    have length := lengths _ (getElem_mem hib)
    obtain ⟨next, hsl, parsedNext⟩ := parsed.step hai
      (leaves i _ hai) length.1 length.2 fs recurse remaining
    obtain ⟨final, done, parsedAll⟩ := ih (i + 1) next (by omega) parsedNext
    refine ⟨final, ?_, parsedAll⟩
    rw [hsl]
    exact done

/-- What was pushed into the root is parsed back. -/
lemma InRoot.parse_scratch (inRoot : InRoot node extents)
    (lengths : ∀ blk ∈ extents, 1 ≤ blk.chainLen ∧ blk.chainLen ≤ 0x7FFF) (fs : ExtFs)
    (fuel : Nat) :
    ∃ parsed, parseExt4 fs fuel node.scratch = .returned true parsed ∧
      parsed.blockData.items.map blockNumber = extents.flatMap lowNumbers ∧
      parsed.totalExtent = (extents.map chainLen).sum := by
  have magic : headerMagic node.scratch.blockInfo = extExtentMagic := inRoot.magic
  rw [parseExt4, if_neg (by simp [scratch]), if_neg (not_not.mpr magic)]
  by_cases empty : headerEntries node.blockInfo = 0
  · refine ⟨{ node.scratch with
        baseDepth := headerDepth node.blockInfo, hasInit := true }, ?_, ?_, ?_⟩
    · exact if_pos empty
    · rw [inRoot.entries] at empty
      rw [length_eq_zero_iff.mp empty]
      rfl
    rw [inRoot.entries] at empty
    rw [length_eq_zero_iff.mp empty]
    rfl
  have start : ParsedTo node.blockInfo extents 0
      { node.scratch with baseDepth := headerDepth node.blockInfo } := ⟨rfl, inRoot.depth, rfl, rfl⟩
  have hn : min (headerEntries node.blockInfo) 4 = extents.length := by
    rw [inRoot.entries]
    exact Nat.min_eq_left inRoot.few
  obtain ⟨parsed, done, all⟩ := ParsedTo.loop inRoot.leaves lengths fs
    (nlRecurseExt4 fs fuel) extents.length 0 _ (by omega) start
  refine ⟨parsed, ?_, ?_, ?_⟩
  · rw [← hn] at done
    refine Eq.trans (if_neg empty) ?_
    exact done
  · rw [all.numbers, take_length]
  · rw [all.total, extentsBefore_length]

lemma pushAll_append (push : ExtVnode → DiskBlock → Result Bool)
    (first second : List DiskBlock) (node : ExtVnode) :
    pushAll push (first ++ second) node = (pushAll push first node).bind (pushAll push second) := by
  induction first generalizing node with
  | nil => rfl
  | cons _ _ ih =>
    simp only [cons_append, pushAll]
    split
    · exact ih _
    · rfl

/-- The fifth extent is not pushed. -/
lemma pushAll_many (empty : EmptyRoot blockInfo) (fs : ExtFs) (many : 4 < extents.length)
    (lengths : ∀ blk ∈ extents, blk.chainLen ≤ 0x7FFF) :
    pushAll (fun node blk => node.pushExtentExt4 fs blk) extents
      { blockInfo := blockInfo } = none := by
  obtain ⟨four, inRoot, pushed⟩ := (inRoot_empty empty).pushAll fs (extents.take 4)
    (by simp) fun blk member => lengths blk (mem_of_mem_take member)
  rw [← take_append_drop 4 extents, drop_eq_getElem_cons many, pushAll_append, inRoot,
    Option.bind_some, pushAll]
  split
  next returned => exact absurd returned (pushed.push_full fs (by simp; omega) _)
  next => rfl

lemma eq_of_flatMap_eq {left right : DiskBlock → List Nat}
    (sameLengths : ∀ blk, (left blk).length = (right blk).length) (extents : List DiskBlock)
    (equality : extents.flatMap left = extents.flatMap right) :
    ∀ blk ∈ extents, left blk = right blk := by
  induction extents with
  | nil => simp
  | cons extent _ ih =>
    obtain ⟨headEquality, tailEquality⟩ := append_inj equality (sameLengths extent)
    intro blk member
    rcases mem_cons.mp member with rfl | tailMember
    · exact headEquality
    · exact ih tailEquality blk tailMember

lemma lowNumbers_eq_numbers_iff (nonempty : 1 ≤ blk.chainLen) :
    blk.lowNumbers = blk.numbers ↔ blk.blockNumber < 2 ^ 48 := by
  constructor
  · intro equality
    have first := congrArg (fun numbers => numbers[0]?) equality
    simp only [lowNumbers, numbers, getElem?_map,
      getElem?_range nonempty, Option.map_some, Option.some.injEq] at first
    omega
  intro small
  rw [lowNumbers, numbers, Nat.mod_eq_of_lt small]

/-- Pushed extents are read back exactly when they fit in the inode and their
block numbers in forty-eight bits. -/
theorem roundTripExt4_iff (fs : ExtFs) (blockInfo : Memory) (empty : EmptyRoot blockInfo)
    (extents : List DiskBlock)
    (lengths : ∀ blk ∈ extents, 1 ≤ blk.chainLen ∧ blk.chainLen ≤ 0x7FFF) :
    RoundTripExt4 fs blockInfo extents ↔
      extents.length ≤ 4 ∧ ∀ blk ∈ extents, blk.blockNumber < 2 ^ 48 := by
  have atMost : ∀ blk ∈ extents, blk.chainLen ≤ 0x7FFF := fun blk member => (lengths blk member).2
  by_cases few : extents.length ≤ 4
  · obtain ⟨pushed, all, inRoot⟩ := (inRoot_empty empty).pushAll fs extents
      (by rw [length_nil]; omega) atMost
    rw [nil_append] at inRoot
    have low : extents.flatMap lowNumbers = extents.flatMap DiskBlock.numbers ↔
        ∀ blk ∈ extents, blk.blockNumber < 2 ^ 48 := by
      constructor
      · intro equality blk member
        rw [← lowNumbers_eq_numbers_iff (lengths blk member).1]
        exact eq_of_flatMap_eq (by simp [lowNumbers, DiskBlock.numbers]) extents equality blk member
      · intro small
        apply flatMap_congr
        intro blk member
        exact (lowNumbers_eq_numbers_iff (lengths blk member).1).mpr (small blk member)
    rw [← low]
    constructor
    · rintro ⟨pushed', fuel, parsed, all', returned, numbers, -⟩
      obtain rfl : pushed = pushed' := Option.some.inj (all.symm.trans all')
      obtain ⟨parsed', returned', numbers', -⟩ :=
        inRoot.parse_scratch lengths (fs.persist pushed) fuel
      rw [returned] at returned'
      cases returned'
      exact ⟨few, numbers'.symm.trans numbers⟩
    · rintro ⟨-, same⟩
      obtain ⟨parsed, returned, numbers, total⟩ :=
        inRoot.parse_scratch lengths (fs.persist pushed) 0
      exact ⟨pushed, 0, parsed, all, returned, numbers.trans same, total⟩
  · refine iff_of_false ?_ fun both => few both.1
    rintro ⟨pushed, -, -, all, -⟩
    rw [pushAll_many empty fs (not_le.mp few) atMost] at all
    cases all

def newRoot : Memory := writeLE (writeLE (fun _ => 0) 0 2 extExtentMagic) 4 2 4

lemma emptyRoot_newRoot : EmptyRoot newRoot := ⟨by decide, by decide, by decide, by decide⟩

def smallVolume : ExtFs := ⟨1024, fun _ => none, fun i => some (100 + i), true, fun _ => 0⟩

theorem roundTripExt4_iff_three :
    RoundTripExt4 smallVolume newRoot [⟨500, 3⟩, ⟨2 ^ 40, 0x7FFF⟩, ⟨900, 1⟩] :=
  (roundTripExt4_iff smallVolume newRoot emptyRoot_newRoot
    [⟨500, 3⟩, ⟨2 ^ 40, 0x7FFF⟩, ⟨900, 1⟩] (by decide)).mpr (by decide)

def fourExtents : List DiskBlock := [⟨500, 1⟩, ⟨510, 1⟩, ⟨520, 1⟩, ⟨530, 1⟩]

/-- Four extents are pushed; pushing a fifth one ends in the map that was
swapped. -/
theorem roundTripExt4_fails_five : (∃ four,
      pushAll (fun node blk => node.pushExtentExt4 smallVolume blk) fourExtents
        { blockInfo := newRoot } = some four ∧
      four.pushExtentExt4 smallVolume ⟨540, 1⟩ = .stuck) ∧
    ¬ RoundTripExt4 smallVolume newRoot (fourExtents ++ [⟨540, 1⟩]) := by
  constructor
  · exact ⟨_, rfl, rfl⟩
  · rintro ⟨pushed, -, -, all, -⟩
    rw [pushAll_many emptyRoot_newRoot smallVolume (by decide) (by decide)] at all
    cases all

end OoOS.Fs
