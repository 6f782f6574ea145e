import OoOS.Fs.ExtentRoot

/-!
# Room in the extent tree

`push_extent_ext4` on a tree that has been read.  A node that is added to the tree
has no header yet, so an extent goes into the last leaf or nowhere.
-/

namespace OoOS.Fs.ExtVnode

open Lib Libk ExtentMap Result

/-- The last leaf below a node takes one more extent. -/
def LastRoom (node : ExtVnode) : (fuel pos : Nat) → Prop
  | 0, _ => False
  | fuel + 1, pos =>
    ∃ cached mine, node.trackedExtents[pos]? = some cached ∧ node.metadataOf cached = some mine ∧
      headerMagic mine.data = extExtentMagic ∧
      if cached.depth < 2 then headerEntries mine.data < headerMaxEntries mine.data
      else ∃ key child, max cached.nextLevelExtents = some (key, child) ∧
        node.LastRoom fuel child

/-- The root takes one more extent, or the last leaf of the tree does. -/
def HasRoom (node : ExtVnode) : Prop :=
  if headerDepth node.blockInfo = 0 then
    headerEntries node.blockInfo < headerMaxEntries node.blockInfo
  else ∃ key base, max node.baseExtentLevel = some (key, base) ∧ node.LastRoom levelFuel base

variable {fs : ExtFs} {node pushed : ExtVnode} {blk : DiskBlock} {fuel pos : Nat}

section Blocks

variable {blocks : DynamicBuffer DiskBlock}

end Blocks

end OoOS.Fs.ExtVnode
