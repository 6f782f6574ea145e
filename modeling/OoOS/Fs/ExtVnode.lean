import OoOS.Lib.Memory
import OoOS.Libk.Arith
import OoOS.Libk.DynamicBuffer

/-!
# Nodes of an ext volume

The part of `ext_vnode` and `ext_node_extent_tree` that the block maps work on.
A node of the tree is named by its position in `tracked_extents`.
-/

namespace OoOS.Fs

open Lib Libk

/-- `disk_block`; data buffers are filled when they are needed and are left
out. -/
structure DiskBlock where
  blockNumber : Nat := 0
  chainLen : Nat := 1
  deriving DecidableEq, Repr, Inhabited

structure MetadataBlock where
  blockNumber : Nat
  data : Memory

abbrev ExtentMap := List (Nat × Nat)

namespace ExtentMap

def insert (map : ExtentMap) (key value : Nat) : ExtentMap :=
  if map.any (fun entry => entry.1 = key) then map else (key, value) :: map

def insertOrAssign (map : ExtentMap) (key value : Nat) : ExtentMap :=
  (key, value) :: map.filter fun entry => entry.1 ≠ key

def max : ExtentMap → Option (Nat × Nat)
  | [] => none
  | entry :: rest =>
    match max rest with
    | none => some entry
    | some other => if other.1 < entry.1 then some entry else some other

/-- `insert_or_assign` on a map that `swap` has filled.  An empty map is left with
the trunk of the other map as its ends, so the search for a place in it follows
the null parent of its own trunk. -/
def insertSwapped (map : ExtentMap) (key value : Nat) : Option ExtentMap :=
  if map = [] then none else some (map.insertOrAssign key value)

end ExtentMap

/-- `cached_extent_node`; `blk_offset` counts from the start of
`cached_metadata`, or of `block_data` at depth 0. -/
structure CachedExtentNode where
  blkOffset : Nat
  depth : Nat
  nextLevelExtents : ExtentMap := []

/-- `ext_vnode` with its `ext_node_extent_tree`; `claimed` counts the metadata
blocks that were claimed for it. -/
structure ExtVnode where
  blockInfo : Memory
  blockData : DynamicBuffer DiskBlock := {}
  cachedMetadata : List MetadataBlock := []
  baseDepth : Nat := 0
  totalExtent : Nat := 0
  trackedExtents : List CachedExtentNode := []
  baseExtentLevel : ExtentMap := []
  hasInit : Bool := false
  claimed : Nat := 0

/-- What a node needs of the volume: its blocks (`none` if a read fails) and the
numbers of the metadata blocks that can be claimed one after the other (`none` if
there is no such block). -/
structure ExtFs where
  blockSize : Nat
  disk : Nat → Option Memory
  fresh : Nat → Option Nat
  persistInode : Bool
  csum : Memory → Nat

/-- How a call ends: it returns, it throws, or what it does has no meaning
(memory that is not there is used, or it does not return). -/
inductive Result (α : Type) where
  | returned (value : α) (node : ExtVnode)
  | threw (node : ExtVnode)
  | stuck

def Result.bind {α β : Type} (result : Result α) (next : α → ExtVnode → Result β) : Result β :=
  match result with
  | .returned value node => next value node
  | .threw node => .threw node
  | .stuck => .stuck

/-- The node has a property however the call ends. -/
def Result.Keeps {α : Type} (keeps : ExtVnode → Prop) : Result α → Prop
  | .returned _ node => keeps node
  | .threw node => keeps node
  | .stuck => True

lemma Result.Keeps.bind {α β : Type} {keeps : ExtVnode → Prop}
    {result : Result α} {next : α → ExtVnode → Result β} (kept : result.Keeps keeps)
    (step : ∀ value node, keeps node → (next value node).Keeps keeps) :
    (result.bind next).Keeps keeps := by
  cases result with
  | returned value node => exact step value node kept
  | threw node => exact kept
  | stuck => trivial

namespace ExtVnode

/-- `claim_metadata_block`: the number of a new zeroed block and its offset in
`cached_metadata`. -/
def claimMetadataBlock (fs : ExtFs) (node : ExtVnode) : Option (Nat × Nat × ExtVnode) :=
  (fs.fresh node.claimed).map fun number =>
    (number, node.cachedMetadata.length,
      { node with
        cachedMetadata := node.cachedMetadata ++
          [{ blockNumber := number, data := fun _ => 0 }]
        claimed := node.claimed + 1 })

/-- `cached_metadata.emplace_back` and `read_block`: the offset of the block,
unless it cannot be read. -/
def readMetadata (fs : ExtFs) (node : ExtVnode) (number : Nat) : Option Nat × ExtVnode :=
  let cached (data : Memory) : ExtVnode :=
    { node with
      cachedMetadata := node.cachedMetadata ++
        [{ blockNumber := number, data := data }] }
  match fs.disk number with
  | none => (none, cached fun _ => 0)
  | some data => (some node.cachedMetadata.length, cached data)

def trackExtent (node : ExtVnode) (blkOffset depth : Nat) : Nat × ExtVnode :=
  (node.trackedExtents.length,
    { node with
      trackedExtents := node.trackedExtents ++
        [{ blkOffset := blkOffset, depth := depth }] })

def setMetadata (node : ExtVnode) (offset : Nat) (data : Memory) : ExtVnode :=
  { node with
    cachedMetadata :=
      node.cachedMetadata.modify offset fun blk => { blk with data := data } }

def setNextLevel (node : ExtVnode) (pos : Nat) (map : ExtentMap) : ExtVnode :=
  { node with
    trackedExtents := node.trackedExtents.modify pos fun cached =>
      { cached with nextLevelExtents := map } }

def metadataOf (node : ExtVnode) (cached : CachedExtentNode) : Option MetadataBlock :=
  if cached.depth = 0 then none
  else node.cachedMetadata[cached.blkOffset]?

def nextLevel (node : ExtVnode) (pos : Nat) : ExtentMap :=
  match node.trackedExtents[pos]? with
  | some cached => cached.nextLevelExtents
  | none => []

def caught : Result Bool → Result Bool
  | .threw node => .returned false node
  | other => other

lemma keeps_caught {keeps : ExtVnode → Prop} {result : Result Bool}
    (kept : result.Keeps keeps) : (caught result).Keeps keeps := by
  cases result with
  | returned _ node => exact kept
  | threw node => exact kept
  | stuck => trivial

def levelFuel : Nat := 2 ^ 16

def scratch (node : ExtVnode) : ExtVnode := { blockInfo := node.blockInfo }

end ExtVnode

def ExtFs.persist (fs : ExtFs) (node : ExtVnode) : ExtFs :=
  { fs with
    disk := fun number =>
      match node.cachedMetadata.find? fun blk => blk.blockNumber = number with
      | some blk => some blk.data
      | none => fs.disk number }

/-- Push blocks one after the other; `none` unless every call returns true. -/
def pushAll (push : ExtVnode → DiskBlock → Result Bool) :
    List DiskBlock → ExtVnode → Option ExtVnode
  | [], node => some node
  | blk :: rest, node =>
    match push node blk with
    | .returned true node => pushAll push rest node
    | _ => none

end OoOS.Fs
