import OoOS.Fs.ExtVnode

/-!
# The legacy block map

The parser inserts into `block_data`, whose buffer it never grows, and the writer
never stores the indirect blocks in the inode.
-/

namespace OoOS.Fs

open List Lib Libk ExtVnode

def pointerAt (data : Memory) (i : Nat) : Nat := readLE data (4 * i) 4

def singlyIndirectBlock (blockInfo : Memory) : Nat := readLE blockInfo 48 4

def doublyIndirectBlock (blockInfo : Memory) : Nat := readLE blockInfo 52 4

def triplyIndirectBlock (blockInfo : Memory) : Nat := readLE blockInfo 56 4

namespace ExtVnode

/-- The loop of `parse_legacy` over the direct blocks; false at the first null
pointer. -/
def parseDirectLegacy : (remaining i : Nat) → ExtVnode → Result Bool
  | 0, _, node => .returned true node
  | remaining + 1, i, node =>
    let number := pointerAt node.blockInfo i
    if number = 0 then .returned false node
    else
      match node.blockData.insert i { blockNumber := number } with
      | none => .stuck
      | some (blockData, offset) =>
        let (_, node) :=
          { node with blockData := blockData }.trackExtent
            (offset.getD blockData.size) 0
        parseDirectLegacy remaining (i + 1)
          { node with totalExtent := node.totalExtent + 1 }

/-- The block that `nl_recurse_legacy` makes for a pointer: its offset.  If the
insertion returns `end`, what that points at is used. -/
def childLegacy (fs : ExtFs) (node : ExtVnode) (depth number fileBlock : Nat) : Result Nat :=
  if depth = 1 then
    match node.blockData.insert fileBlock { blockNumber := number } with
    | some (blockData, some offset) => .returned offset { node with blockData := blockData }
    | _ => .stuck
  else
    match node.readMetadata fs number with
    | (none, node) => .threw node
    | (some offset, node) => .returned offset node

/-- The loop of `nl_recurse_legacy` over the pointers of a metadata block, with
the recursive call as a parameter. -/
def nlLoopLegacy (fs : ExtFs) (recurse : ExtVnode → Nat → Nat → Result Nat)
    (depth : Nat) (data : Memory) (pos : Nat) :
    (remaining i fileBlock : Nat) → ExtVnode → Result Nat
  | 0, _, fileBlock, node => .returned fileBlock node
  | remaining + 1, i, fileBlock, node =>
    if pointerAt data i = 0 then .returned 0 node
    else
      (node.childLegacy fs depth (pointerAt data i) fileBlock).bind
        fun offset node =>
          let (child, node) := node.trackExtent offset (depth - 1)
          let node := node.setNextLevel pos
            (ExtentMap.insertOrAssign (node.nextLevel pos) fileBlock child)
          (recurse node child fileBlock).bind fun next node =>
            if next = 0 then .returned 0 node
            else
              nlLoopLegacy fs recurse depth data pos remaining (i + 1)
                next { node with totalExtent := node.totalExtent + 1 }

/-- `nl_recurse_legacy`, as far as the fuel goes: the next file block, or 0 at
the end of the file. -/
def nlRecurseLegacy (fs : ExtFs) : (fuel : Nat) → ExtVnode → (pos startFileBlock : Nat) → Result Nat
  | 0, _, _, _ => .stuck
  | fuel + 1, node, pos, startFileBlock =>
    match node.trackedExtents[pos]? with
    | none => .stuck
    | some cached =>
      if cached.depth = 0 then .returned (startFileBlock + 1) node
      else
        match node.metadataOf cached with
        | none => .stuck
        | some blk =>
          nlLoopLegacy fs (nlRecurseLegacy fs fuel) cached.depth
            blk.data pos (fs.blockSize / 4) 0 startFileBlock node

def trackBaseLegacy (node : ExtVnode) (offset depth fileBlock : Nat) : Nat × ExtVnode :=
  let (base, node) := node.trackExtent offset depth
  (base,
    { node with
      baseExtentLevel :=
        ExtentMap.insert node.baseExtentLevel fileBlock base })

def parseTriplyLegacy (fs : ExtFs) (fuel : Nat) (node : ExtVnode) (fileBlock : Nat) : Result Bool :=
  let node := { node with baseDepth := node.baseDepth + 1 }
  -- Here the block is read only after its node is tracked.
  let offset := node.cachedMetadata.length
  let (read, node) := node.readMetadata fs (triplyIndirectBlock node.blockInfo)
  let (base, node) := node.trackBaseLegacy offset 3 fileBlock
  match read with
  | none => .returned false node
  | some _ =>
    (node.nlRecurseLegacy fs fuel base fileBlock).bind fun _ node =>
      .returned true { node with hasInit := true }

def parseDoublyLegacy (fs : ExtFs) (fuel : Nat) (node : ExtVnode) (fileBlock : Nat) : Result Bool :=
  let node := { node with baseDepth := node.baseDepth + 1 }
  match node.readMetadata fs (doublyIndirectBlock node.blockInfo) with
  | (none, node) => .returned false node
  | (some offset, node) =>
    let (base, node) := node.trackBaseLegacy offset 2 fileBlock
    (node.nlRecurseLegacy fs fuel base fileBlock).bind fun next node =>
      if next = 0 then .returned true { node with hasInit := true }
      else node.parseTriplyLegacy fs fuel next

def parseSinglyLegacy (fs : ExtFs) (fuel : Nat) (node : ExtVnode) : Result Bool :=
  let number := singlyIndirectBlock node.blockInfo
  if number = 0 then .returned true { node with hasInit := true }
  else
    let node := { node with baseDepth := node.baseDepth + 1 }
    match node.readMetadata fs number with
    | (none, node) => .returned false node
    | (some offset, node) =>
      let (base, node) := node.trackBaseLegacy offset 1 12
      (node.nlRecurseLegacy fs fuel base 12).bind fun next node =>
        if next = 0 then .returned true { node with hasInit := true }
        else node.parseDoublyLegacy fs fuel next

def parseLegacy (fs : ExtFs) (fuel : Nat) (node : ExtVnode) : Result Bool :=
  if node.hasInit then .returned true node
  else
    (node.parseDirectLegacy 12 0).bind fun allPresent node =>
      if allPresent then caught (node.parseSinglyLegacy fs fuel)
      else .returned true { node with hasInit := true }

def freePointer (data : Memory) : (remaining i : Nat) → Option Nat
  | 0, _ => none
  | remaining + 1, i =>
    if pointerAt data i = 0 then some i else freePointer data remaining (i + 1)

def pushExtentRecurseLegacy (fs : ExtFs) :
    (fuel : Nat) → ExtVnode → (pos : Nat) → DiskBlock → Result Bool
  | 0, _, _, _ => .stuck
  | fuel + 1, node, pos, blk =>
    match node.trackedExtents[pos]? with
    | none => .stuck
    | some cached =>
      match node.metadataOf cached with
      | none => .stuck
      | some mine =>
        if cached.depth < 2 then
          match freePointer mine.data (fs.blockSize / 4) 0 with
          | none => .returned false node
          | some i =>
            let node := node.setMetadata cached.blkOffset
              (writeLE mine.data (4 * i) 4 blk.blockNumber)
            let (child, node) := node.trackExtent 0 0
            let node := node.setNextLevel pos
              (ExtentMap.insertOrAssign (node.nextLevel pos)
                node.totalExtent child)
            .returned true
              { node with totalExtent := node.totalExtent + 1 }
        else
          let deeper : Result Bool :=
            match ExtentMap.max cached.nextLevelExtents with
            | none => .returned false node
            | some (_, child) => pushExtentRecurseLegacy fs fuel node child blk
          deeper.bind fun pushed node =>
            if pushed then .returned true node
            else
              pushNewChildLegacy fs (pushExtentRecurseLegacy fs fuel)
                node pos cached blk
where
  pushNewChildLegacy (fs : ExtFs)
      (recurse : ExtVnode → Nat → DiskBlock → Result Bool) (node : ExtVnode)
      (pos : Nat) (cached : CachedExtentNode) (blk : DiskBlock) :
      Result Bool :=
    match node.metadataOf cached with
    | none => .stuck
    | some mine =>
      match freePointer mine.data (fs.blockSize / 4) 0 with
      | none => .returned false node
      | some i =>
        match node.claimMetadataBlock fs with
        | none => .threw node
        | some (number, offset, node) =>
          let (child, node) := node.trackExtent offset (cached.depth - 1)
          let node := node.setNextLevel pos
            (ExtentMap.insert (node.nextLevel pos) node.totalExtent child)
          recurse
            (node.setMetadata cached.blkOffset
              (writeLE mine.data (4 * i) 4 number))
            child blk

def pushNewBaseLegacy (fs : ExtFs) (node : ExtVnode) (depth : Nat) (blk : DiskBlock) :
    Result Bool :=
  match node.claimMetadataBlock fs with
  | none => .returned false node
  | some (_, offset, node) =>
    let (base, node) := node.trackExtent offset depth
    pushExtentRecurseLegacy fs levelFuel
      { node with
        baseExtentLevel := ExtentMap.insertOrAssign node.baseExtentLevel
          node.totalExtent base }
      base blk

def pushIndirectLegacy (fs : ExtFs) (node : ExtVnode) (blk : DiskBlock) : Result Bool :=
  match ExtentMap.max node.baseExtentLevel with
  | none => node.pushNewBaseLegacy fs 1 blk
  | some (_, base) =>
    match node.trackedExtents[base]? with
    | none => .stuck
    | some cached =>
      caught <|
        (node.pushExtentRecurseLegacy fs levelFuel base blk).bind
          fun pushed node =>
            if pushed then .returned true node
            else if cached.depth < 3 then
              { node with
                baseDepth := max node.baseDepth (cached.depth + 1)
                }.pushNewBaseLegacy fs (cached.depth + 1) blk
            else .returned false node

def pushExtentLegacy (fs : ExtFs) (node : ExtVnode) (blk : DiskBlock) : Result Bool :=
  (node.parseLegacy fs levelFuel).bind fun parsed node =>
    if !parsed then .returned false node
    else
      match freePointer node.blockInfo 12 0 with
      | some i =>
        let (_, node) := node.trackExtent 0 0
        .returned fs.persistInode
          { node with
            blockInfo := writeLE node.blockInfo (4 * i) 4 blk.blockNumber
            totalExtent := node.totalExtent + 1 }
      | none => node.pushIndirectLegacy fs blk

end ExtVnode

/-- All blocks can be pushed, and parsing what is then on disk returns them in
order, and their number. -/
def RoundTripLegacy (fs : ExtFs) (blockInfo : Memory) (numbers : List Nat) : Prop :=
  ∃ pushed fuel parsed, pushAll (fun node blk => node.pushExtentLegacy fs blk)
      (numbers.map fun number => { blockNumber := number })
      { blockInfo := blockInfo } = some pushed ∧
    ExtVnode.parseLegacy (fs.persist pushed) fuel pushed.scratch = .returned true parsed ∧
    parsed.blockData.items.map DiskBlock.blockNumber = numbers ∧
    parsed.totalExtent = numbers.length

structure Unread (blockInfo : Memory) (node : ExtVnode) : Prop where
  info : node.blockInfo = blockInfo
  noBlocks : node.blockData = {}

variable {blockInfo : Memory} {node : ExtVnode} {fs : ExtFs}

lemma Unread.insert (unread : Unread blockInfo node) (offs : Nat) (blk : DiskBlock) :
    node.blockData.insert offs blk = some (node.blockData, none) := by
  rw [unread.noBlocks]
  exact DynamicBuffer.insert_of_cap_le (Nat.zero_le offs)

lemma Unread.readMetadata (unread : Unread blockInfo node) (fs : ExtFs)
    (number : Nat) : Unread blockInfo (node.readMetadata fs number).2 := by
  simp only [ExtVnode.readMetadata]
  split <;> exact ⟨unread.info, unread.noBlocks⟩

lemma Unread.parseDirectLegacy (remaining : Nat) :
    ∀ (i : Nat) (node : ExtVnode), Unread blockInfo node →
      (node.parseDirectLegacy remaining i).Keeps (Unread blockInfo) := by
  induction remaining with
  | zero =>
    intro i node hu
    exact hu
  | succ remaining ih =>
    intro i node hu
    simp only [ExtVnode.parseDirectLegacy, hu.insert]
    split
    · exact hu
    · exact ih _ _ ⟨hu.info, hu.noBlocks⟩

lemma Unread.childLegacy (unread : Unread blockInfo node) (fs : ExtFs)
    (depth number fileBlock : Nat)
    : (node.childLegacy fs depth number fileBlock).Keeps (Unread blockInfo) := by
  simp only [ExtVnode.childLegacy, unread.insert]
  split
  · trivial
  have read := unread.readMetadata fs number
  split
  · rename_i isRead
    rw [isRead] at read
    exact read
  rename_i isRead
  rw [isRead] at read
  exact read

open Result.Keeps

lemma Unread.nlLoopLegacy {recurse : ExtVnode → Nat → Nat → Result Nat}
    (recurses : ∀ node pos fileBlock, Unread blockInfo node →
      (recurse node pos fileBlock).Keeps (Unread blockInfo))
    (depth : Nat) (data : Memory) (pos remaining : Nat) :
    ∀ (i fileBlock : Nat) (node : ExtVnode), Unread blockInfo node →
      (node.nlLoopLegacy fs recurse depth data pos remaining i
        fileBlock).Keeps (Unread blockInfo) := by
  induction remaining with
  | zero =>
    intro i fileBlock node hu
    exact hu
  | succ remaining ih =>
    intro i fileBlock node hu
    rw [ExtVnode.nlLoopLegacy]
    split
    · exact hu
    apply (hu.childLegacy fs depth (pointerAt data i) fileBlock).bind
    intro _ _ huc
    refine bind (recurses _ _ _ ⟨huc.info, huc.noBlocks⟩) ?_
    intro _ _ huf
    split
    · exact huf
    · exact ih _ _ _ ⟨huf.info, huf.noBlocks⟩

lemma Unread.nlRecurseLegacy (fuel : Nat) :
    ∀ (node : ExtVnode) (pos fileBlock : Nat), Unread blockInfo node →
      (node.nlRecurseLegacy fs fuel pos fileBlock).Keeps (Unread blockInfo) := by
  induction fuel with
  | zero =>
    intro node pos fileBlock hu
    trivial
  | succ fuel ih =>
    intro node pos fileBlock hu
    rw [ExtVnode.nlRecurseLegacy]
    split
    · trivial
    split
    · exact hu
    split
    · trivial
    · exact Unread.nlLoopLegacy ih _ _ _ _ _ _ _ hu

section

variable (unread : Unread blockInfo node)

include unread

lemma Unread.trackBaseLegacy (offset depth fileBlock : Nat) :
    Unread blockInfo (node.trackBaseLegacy offset depth fileBlock).2 :=
  ⟨unread.info, unread.noBlocks⟩

lemma Unread.deeper : Unread blockInfo { node with baseDepth := node.baseDepth + 1 } :=
  ⟨unread.info, unread.noBlocks⟩

lemma Unread.parseTriplyLegacy (fs : ExtFs) (fuel fileBlock : Nat) :
    (node.parseTriplyLegacy fs fuel fileBlock).Keeps (Unread blockInfo) := by
  have read := unread.deeper.readMetadata fs (triplyIndirectBlock node.blockInfo)
  simp only [ExtVnode.parseTriplyLegacy]
  split
  · exact read.trackBaseLegacy _ _ _
  refine bind (Unread.nlRecurseLegacy fuel _ _ _ (read.trackBaseLegacy _ _ _)) ?_
  intro _ _ huf
  exact ⟨huf.info, huf.noBlocks⟩

lemma Unread.parseDoublyLegacy (fs : ExtFs) (fuel fileBlock : Nat) :
    (node.parseDoublyLegacy fs fuel fileBlock).Keeps (Unread blockInfo) := by
  have read := unread.deeper.readMetadata fs (doublyIndirectBlock node.blockInfo)
  simp only [ExtVnode.parseDoublyLegacy]
  split
  · rename_i isRead
    rw [isRead] at read
    exact read
  rename_i isRead
  rw [isRead] at read
  refine bind (Unread.nlRecurseLegacy fuel _ _ _ (read.trackBaseLegacy _ _ _)) ?_
  intro next _ huf
  split
  · exact ⟨huf.info, huf.noBlocks⟩
  · exact huf.parseTriplyLegacy fs fuel next

lemma Unread.parseSinglyLegacy (fs : ExtFs) (fuel : Nat) :
    (node.parseSinglyLegacy fs fuel).Keeps (Unread blockInfo) := by
  have read := unread.deeper.readMetadata fs (singlyIndirectBlock node.blockInfo)
  simp only [ExtVnode.parseSinglyLegacy]
  split
  · exact ⟨unread.info, unread.noBlocks⟩
  split
  · rename_i isRead
    rw [isRead] at read
    exact read
  rename_i isRead
  rw [isRead] at read
  refine bind (Unread.nlRecurseLegacy fuel _ _ _ (read.trackBaseLegacy _ _ _)) ?_
  intro next _ huf
  split
  · exact ⟨huf.info, huf.noBlocks⟩
  · exact huf.parseDoublyLegacy fs fuel next

end

lemma Unread.parseLegacy (unread : Unread blockInfo node) (fs : ExtFs) (fuel : Nat) :
    (node.parseLegacy fs fuel).Keeps (Unread blockInfo) := by
  rw [ExtVnode.parseLegacy]
  split
  · exact unread
  apply (Unread.parseDirectLegacy 12 0 node unread).bind
  intro _ _ huf
  split
  · exact keeps_caught (huf.parseSinglyLegacy fs fuel)
  · exact ⟨huf.info, huf.noBlocks⟩

/-- A zeroed map has no blocks. -/
lemma parseLegacy_zero (fs : ExtFs) (fuel : Nat) (zero : ∀ addr < 60, node.blockInfo addr = 0) :
    parseLegacy fs fuel node.scratch =
      .returned true { node.scratch with hasInit := true } := by
  have noPointer : pointerAt node.blockInfo 0 = 0 := by
    refine Eq.trans (readLE_congr ?_) (readLE_zero (4 * 0) 4)
    intro addr _ _
    exact zero addr (by omega)
  rw [parseLegacy, if_neg (by simp [scratch]), ExtVnode.parseDirectLegacy]
  simp [scratch, noPointer, Result.bind]

lemma items_eq_nil_of_parseLegacy {fuel : Nat} {parsed : ExtVnode}
    {value : Bool} (done : node.scratch.parseLegacy fs fuel = .returned value parsed) :
    parsed.blockData.items = [] := by
  have fresh : Unread node.blockInfo node.scratch := ⟨rfl, rfl⟩
  have hu := fresh.parseLegacy fs fuel
  rw [done] at hu
  rw [Unread.noBlocks hu]

lemma not_roundTripLegacy (fs : ExtFs) (blockInfo : Memory) {numbers : List Nat}
    (pushes : numbers ≠ []) : ¬ RoundTripLegacy fs blockInfo numbers := by
  intro hrt
  obtain ⟨_, _, _, _, done, hb, _⟩ := hrt
  rw [items_eq_nil_of_parseLegacy done] at hb
  exact pushes hb.symm

/-- Pushed blocks are read back only if there are none. -/
theorem roundTripLegacy_iff (fs : ExtFs) (blockInfo : Memory)
    (zero : ∀ addr < 60, blockInfo addr = 0) (numbers : List Nat) :
    RoundTripLegacy fs blockInfo numbers ↔ numbers = [] := by
  constructor
  · intro roundTrip
    by_contra pushes
    exact not_roundTripLegacy fs blockInfo pushes roundTrip
  rintro rfl
  exact ⟨_, 0, _, rfl, parseLegacy_zero _ 0 zero, rfl, rfl⟩

theorem roundTripLegacy_iff_two :
    ¬ RoundTripLegacy ⟨1024, fun _ => none, fun i => some (100 + i), true, fun _ => 0⟩
      (fun _ => 0) [500, 501] :=
  mt (roundTripLegacy_iff _ _ (fun _ _ => rfl) [500, 501]).mp (cons_ne_nil 500 [501])

theorem roundTripLegacy_fails_one : (pushAll (fun node blk => node.pushExtentLegacy
        ⟨1024, fun _ => none, fun i => some (100 + i), true, fun _ => 0⟩ blk)
      [{ blockNumber := 500 }] { blockInfo := fun _ => 0 }).isSome = true ∧
    ¬ RoundTripLegacy
      ⟨1024, fun _ => none, fun i => some (100 + i), true, fun _ => 0⟩
      (fun _ => 0) [500] := by
  constructor
  · decide +kernel
  · exact not_roundTripLegacy _ _ (cons_ne_nil 500 [])

end OoOS.Fs
