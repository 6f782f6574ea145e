import OoOS.Fs.ExtVnode

/-!
# The ext4 extent tree

A tree is read from the inode and the metadata blocks, and extents are appended
to it.  Extent nodes are a union of an index and a leaf, so they are bytes here.
-/

namespace OoOS.Fs

open Lib Libk ExtentMap

def extExtentMagic : Nat := 0xF30A

def extentNodeSize : Nat := 12

def headerMagic (data : Memory) : Nat := readLE data 0 2

def headerEntries (data : Memory) : Nat := readLE data 2 2

def headerMaxEntries (data : Memory) : Nat := readLE data 4 2

def headerDepth (data : Memory) : Nat := readLE data 6 2

def nodeAddr (i : Nat) : Nat := extentNodeSize + extentNodeSize * i

def fileNodeStart (data : Memory) (i : Nat) : Nat := readLE data (nodeAddr i) 4

def nextLevelBlock (data : Memory) (i : Nat) : Nat :=
  readLE data (nodeAddr i + 4) 4 + 2 ^ 32 * readLE data (nodeAddr i + 8) 2

/-- The length of a leaf; the top bit marks it as uninitialized. -/
def extentSize (data : Memory) (i : Nat) : Nat := readLE data (nodeAddr i + 4) 2 % 0x8000

def extentStart (data : Memory) (i : Nat) : Nat :=
  readLE data (nodeAddr i + 8) 4 + 2 ^ 32 * readLE data (nodeAddr i + 6) 2

def populateLeaf (data : Memory) (i : Nat) (blk : DiskBlock) (fnStart : Nat) : Memory :=
  let data := writeLE data (nodeAddr i + 8) 4 blk.blockNumber
  let data := writeLE data (nodeAddr i + 6) 2 (blk.blockNumber / 2 ^ 32)
  let data := writeLE data (nodeAddr i + 4) 2 blk.chainLen
  writeLE data (nodeAddr i) 4 fnStart

def populateIndex (data : Memory) (i next fnStart : Nat) : Memory :=
  let data := writeLE data (nodeAddr i + 4) 4 next
  let data := writeLE data (nodeAddr i + 8) 2 (next / 2 ^ 32)
  writeLE data (nodeAddr i) 4 fnStart

def copyRange (target source : Memory) (start count : Nat) : Memory :=
  fun addr =>
    if start ≤ addr ∧ addr < start + count then source addr else target addr

namespace ExtVnode

/-- Insert the blocks of an extent behind each other in `block_data`; the
offset of the first one is not used by the parser. -/
def insertRun (start : Nat) : (count : Nat) → (fileBlock k : Nat) → ExtVnode → Option ExtVnode
  | 0, _, _, node => some node
  | count + 1, fileBlock, k, node =>
    match node.blockData.insert fileBlock
        { blockNumber := (start + k) % 2 ^ 64 } with
    | none => none
    | some (blockData, _) =>
      insertRun start count (fileBlock + 1) (k + 1)
        { node with blockData := blockData }

/-- The loop of `nl_recurse_ext4` over the entries of a metadata block, with
the recursive call as a parameter. -/
def nlLoopExt4 (fs : ExtFs) (recurse : ExtVnode → Nat → Result Bool)
    (data : Memory) (pos : Nat) :
    (remaining i : Nat) → ExtVnode → Result Bool
  | 0, _, node => .returned fs.persistInode node
  | remaining + 1, i, node =>
    if headerDepth data ≠ 0 then
      if nextLevelBlock data i = 0 then
        nlLoopExt4 fs recurse data pos remaining (i + 1) node
      else
        match node.readMetadata fs (nextLevelBlock data i) with
        | (none, node) => .returned false node
        | (some offset, node) =>
          let (child, node) := node.trackExtent offset (headerDepth data)
          let node := node.setNextLevel pos
            (ExtentMap.insert (node.nextLevel pos) (fileNodeStart data i)
              child)
          match recurse node child with
          | .returned true node => nlLoopExt4 fs recurse data pos remaining (i + 1) node
          | other => other
    else
      match node.insertRun (extentStart data i)
          (Nat.max 1 (extentSize data i)) (fileNodeStart data i) 0 with
      | none => .stuck
      | some node =>
        let (child, node) := node.trackExtent (fileNodeStart data i) 0
        let node := node.setNextLevel pos
          (insertOrAssign (node.nextLevel pos)
            (fileNodeStart data i + Nat.max 1 (extentSize data i)) child)
        nlLoopExt4 fs recurse data pos remaining (i + 1)
          { node with
            totalExtent := node.totalExtent + extentSize data i }

def nlRecurseExt4 (fs : ExtFs) : (fuel : Nat) → ExtVnode → Nat → Result Bool
  | 0, _, _ => .stuck
  | fuel + 1, node, pos =>
    match node.trackedExtents[pos]? with
    | none => .stuck
    | some cached =>
      if cached.depth = 0 then .returned true node
      else
        match node.metadataOf cached with
        | none => .stuck
        | some blk =>
          if headerMagic blk.data ≠ extExtentMagic then
            .returned false node
          else
            nlLoopExt4 fs (nlRecurseExt4 fs fuel) blk.data pos
              (headerEntries blk.data) 0 node

def parseLoopExt4 (fs : ExtFs) (recurse : ExtVnode → Nat → Result Bool) :
    (remaining i : Nat) → ExtVnode → Result Bool
  | 0, _, node => .returned true { node with hasInit := true }
  | remaining + 1, i, node =>
    if node.baseDepth ≠ 0 then
      if nextLevelBlock node.blockInfo i = 0 then
        parseLoopExt4 fs recurse remaining (i + 1) node
      else
        match node.readMetadata fs (nextLevelBlock node.blockInfo i) with
        | (none, node) => .returned false node
        | (some offset, node) =>
          let (child, node) := node.trackExtent offset node.baseDepth
          let node :=
            { node with
              baseExtentLevel := ExtentMap.insert node.baseExtentLevel
                (fileNodeStart node.blockInfo i) child }
          match recurse node child with
          | .returned true node => parseLoopExt4 fs recurse remaining (i + 1) node
          | other => other
    else
      let size := extentSize node.blockInfo i
      let reserved :=
        { node with
          blockData :=
            node.blockData.reserve (node.blockData.size + size) }
      match reserved.insertRun (extentStart node.blockInfo i)
          (Nat.max 1 size) (fileNodeStart node.blockInfo i) 0 with
      | none => .stuck
      | some node =>
        let (child, node) := node.trackExtent (fileNodeStart node.blockInfo i) 0
        parseLoopExt4 fs recurse remaining (i + 1)
          { node with
            baseExtentLevel := insertOrAssign
              node.baseExtentLevel
              (fileNodeStart node.blockInfo i + Nat.max 1 size) child
            totalExtent := node.totalExtent + size }

def parseExt4 (fs : ExtFs) (fuel : Nat) (node : ExtVnode) : Result Bool :=
  if node.hasInit then .returned true node
  else if headerMagic node.blockInfo ≠ extExtentMagic then
    .returned false node
  else
    let node := { node with baseDepth := headerDepth node.blockInfo }
    if headerEntries node.blockInfo = 0 then
      .returned true { node with hasInit := true }
    else
      parseLoopExt4 fs (nlRecurseExt4 fs fuel)
        (min (headerEntries node.blockInfo) 4) 0 node

def csumUpdate (fs : ExtFs) (data : Memory) : Memory :=
  let data := writeLE data (fs.blockSize - 4) 4 0
  writeLE data (fs.blockSize - 4) 4 (fs.csum data)

def pushExtentRecurseExt4 (fs : ExtFs) :
    (fuel : Nat) → ExtVnode → (pos : Nat) → DiskBlock → Result Bool
  | 0, _, _, _ => .stuck
  | fuel + 1, node, pos, blk =>
    match node.trackedExtents[pos]? with
    | none => .stuck
    | some cached =>
      match node.metadataOf cached with
      | none => .stuck
      | some mine =>
        if headerMagic mine.data ≠ extExtentMagic then .threw node
        else if cached.depth < 2 then
          if headerEntries mine.data < headerMaxEntries mine.data then
            let data := populateLeaf mine.data
              (headerEntries mine.data) blk node.totalExtent
            let node :=
              { node with
                totalExtent := node.totalExtent + blk.chainLen }
            .returned true
              (node.setMetadata cached.blkOffset (csumUpdate fs data))
          else .returned false node
        else
          let deeper : Result Bool :=
            match max cached.nextLevelExtents with
            | none => .returned false node
            | some (_, child) => pushExtentRecurseExt4 fs fuel node child blk
          deeper.bind fun pushed node =>
            if pushed then .returned true node
            else
              pushNewChildExt4 fs (pushExtentRecurseExt4 fs fuel) node
                pos cached blk
where
  pushNewChildExt4 (fs : ExtFs)
      (recurse : ExtVnode → Nat → DiskBlock → Result Bool) (node : ExtVnode)
      (pos : Nat) (cached : CachedExtentNode) (blk : DiskBlock) : Result Bool :=
    match node.metadataOf cached with
    | none => .stuck
    | some mine =>
      if headerEntries mine.data < headerMaxEntries mine.data then
        match node.claimMetadataBlock fs with
        | none => .threw node
        | some (number, offset, node) =>
          let (child, node) := node.trackExtent offset (cached.depth - 1)
          let node := node.setNextLevel pos
            (ExtentMap.insert (node.nextLevel pos) node.totalExtent child)
          let data := populateIndex mine.data (headerEntries mine.data)
            number node.totalExtent
          recurse (node.setMetadata cached.blkOffset (csumUpdate fs data))
            child blk
      else .returned false node

/-- The buffer of the new block in `ext4_root_overflow`: a header with the depth
of the root, and the nodes of the root. -/
def overflowBlock (blockSize depth : Nat) (root : Memory) : Memory :=
  let rootEntries := min 4 (headerMaxEntries root)
  let data := writeLE (fun _ => 0) 0 2 extExtentMagic
  let data := writeLE data 4 2 ((blockSize - extentNodeSize) / extentNodeSize)
  let data := writeLE data 6 2 depth
  let data := copyRange data root extentNodeSize
    (extentNodeSize * rootEntries)
  writeLE data 2 2 rootEntries

def overflowRoot (root : Memory) (number : Nat) : Memory :=
  let root := copyRange root (fun _ => 0) extentNodeSize
    (extentNodeSize * min 4 (headerMaxEntries root))
  let root := copyRange root (fun _ => 0) extentNodeSize extentNodeSize
  let root := populateIndex root 0 number 0
  writeLE root 2 2 1

/-- `ext4_root_overflow`.  The new node gets the map of the root by `swap`, and the
root its empty one. -/
def ext4RootOverflow (fs : ExtFs) (node : ExtVnode) : Result Bool :=
  if node.baseDepth > 4 then .returned false node
  else
    match node.claimMetadataBlock fs with
    | none => .returned false node
    | some (number, offset, node) =>
      let depth := node.baseDepth + 1
      let root := writeLE node.blockInfo 6 2 (headerDepth node.blockInfo + 1)
      let node := node.setMetadata offset
        (overflowBlock fs.blockSize depth root)
      let (base, node) := node.trackExtent offset depth
      let swapped := node.nextLevel base
      let node := node.setNextLevel base node.baseExtentLevel
      match swapped.insertSwapped 0 base with
      | none => .stuck
      | some level =>
        .returned true
          { node with
            blockInfo := overflowRoot root number
            baseDepth := depth
            baseExtentLevel := level }

/-- The part of `push_extent_ext4` for a root that has index nodes. -/
def pushBelowRoot (fs : ExtFs) (node : ExtVnode) (blk : DiskBlock) : Result Bool :=
  match max node.baseExtentLevel with
  | none => .returned false node
  | some (_, base) =>
    (node.pushExtentRecurseExt4 fs levelFuel base blk).bind fun pushed node =>
      if pushed then .returned true node
      else if headerEntries node.blockInfo < headerMaxEntries node.blockInfo then
        let idx := headerEntries node.blockInfo
        match node.claimMetadataBlock fs with
        | none => .returned false node
        | some (number, offset, node) =>
          let root := writeLE node.blockInfo 2 2 (idx + 1)
          let root := populateIndex root idx number node.totalExtent
          let (base, node) := node.trackExtent offset (headerDepth root)
          pushExtentRecurseExt4 fs levelFuel
            { node with
              blockInfo := root
              baseExtentLevel := insertOrAssign node.baseExtentLevel
                node.totalExtent base }
            base blk
      else
        (node.ext4RootOverflow fs).bind fun grown node =>
          match grown, max node.baseExtentLevel with
          | false, _ => .returned false node
          | true, none => .stuck
          | true, some (_, base) => node.pushExtentRecurseExt4 fs levelFuel base blk

def pushExtentExt4 (fs : ExtFs) (node : ExtVnode) (blk : DiskBlock) : Result Bool :=
  (node.parseExt4 fs levelFuel).bind fun parsed node =>
    if parsed = false then .returned false node
    else if headerDepth node.blockInfo = 0 then
      if headerEntries node.blockInfo < headerMaxEntries node.blockInfo then
        let idx := headerEntries node.blockInfo
        let root := writeLE node.blockInfo 2 2 (idx + 1)
        let root := populateLeaf root idx blk node.totalExtent
        let (child, node) := node.trackExtent 0 0
        .returned true
          { node with
            blockInfo := root
            baseExtentLevel := insertOrAssign node.baseExtentLevel
              node.totalExtent child
            totalExtent := node.totalExtent + blk.chainLen }
      else
        (node.ext4RootOverflow fs).bind fun grown node =>
          if grown then caught (node.pushBelowRoot fs blk) else .returned false node
    else caught (node.pushBelowRoot fs blk)

end ExtVnode

structure EmptyRoot (blockInfo : Memory) : Prop where
  magic : headerMagic blockInfo = extExtentMagic
  entries : headerEntries blockInfo = 0
  maxEntries : headerMaxEntries blockInfo = 4
  depth : headerDepth blockInfo = 0

def DiskBlock.numbers (blk : DiskBlock) : List Nat :=
  (List.range blk.chainLen).map fun k => blk.blockNumber + k

/-- All extents can be pushed, and parsing what is then on disk returns the
pushed blocks in order, and their number. -/
def RoundTripExt4 (fs : ExtFs) (blockInfo : Memory) (extents : List DiskBlock) : Prop :=
  ∃ pushed fuel parsed, pushAll (fun node blk => node.pushExtentExt4 fs blk) extents
      { blockInfo := blockInfo } = some pushed ∧
    ExtVnode.parseExt4 (fs.persist pushed) fuel pushed.scratch = .returned true parsed ∧
    parsed.blockData.items.map DiskBlock.blockNumber = extents.flatMap DiskBlock.numbers ∧
    parsed.totalExtent = (extents.map DiskBlock.chainLen).sum

end OoOS.Fs
