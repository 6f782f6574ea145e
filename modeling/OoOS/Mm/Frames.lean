import Mathlib.Data.Finset.Basic
import OoOS.Mm.PageMapping

/-!
# User frames and shared blocks

`add_block` of `uframe_tag` with the parts of `frame_manager` and `kernel_memory_mgr`
that it calls, and the release of a block.  Page tables stand here as the leaf entry of
every address.  What the heap and `allocate_pt` return comes as an `Outcome`.
-/

namespace OoOS.Mm

open Libk

structure BlockDescriptor where
  physicalStart : Nat
  virtualStart : Nat
  size : Nat
  align : Nat
  write : Bool
  execute : Bool
  deriving DecidableEq, Repr

/-- A pointer to a node of the table of global blocks, with the descriptor in
that node: it is written once, when the node is made. -/
structure SharedRef where
  descriptor : BlockDescriptor
  node : Nat
  deriving DecidableEq, Repr

structure SharedBlock extends SharedRef where
  numRefs : Nat
  deriving DecidableEq, Repr

structure UframeTag where
  usrBlocks : List BlockDescriptor := []
  sharedBlocks : List SharedRef := []
  deriving DecidableEq, Repr

/-- The block that the heap returns (0 if it has none), and the pages after which
`allocate_pt` fails. -/
structure Outcome where
  phys : Nat := 0
  tables : Option Nat := none
  deriving DecidableEq, Repr

def trunc (addr alignval : Nat) : Nat :=
  if 1 < alignval then addr - addr % alignval else addr

def alignedSize (start requested : Nat) : Nat :=
  wsub (nextPageAligned (wadd start requested)) (pageAligned start)

/-- The leaf entries by `pml4` and address, and the blocks of the heap;
`invalidFree` is set when anything else is freed. -/
structure UserMemory where
  leaf : Nat → Nat → PtEntry
  allocated : Finset Nat
  invalidFree : Bool

namespace UserMemory

def translate (memory : UserMemory) (pml4 addr : Nat) : Nat :=
  Paging.translateEntry (memory.leaf pml4 addr) addr

def setLeaf (memory : UserMemory) (pml4 : Nat) (leaf : Nat → PtEntry) : UserMemory :=
  { memory with leaf := Function.update memory.leaf pml4 leaf }

def mapPages (memory : UserMemory) (pml4 start phys pages : Nat)
    (write execute : Bool) (tables : Option Nat) : UserMemory :=
  let mapped := match tables with
    | none => pages
    | some limit => min limit pages
  memory.setLeaf pml4 fun addr =>
    Paging.mappedEntry write execute mapped (pageAligned start) phys
      (memory.leaf pml4 addr) addr

/-- `map_to_current_frame`, whose result is not looked at. -/
def mapToFrame (memory : UserMemory) (pml4 : Nat) (blk : BlockDescriptor)
    (tables : Option Nat) : UserMemory :=
  if blk.virtualStart ≠ 0 ∧ blk.physicalStart ≠ 0 then
    memory.mapPages pml4 blk.virtualStart blk.physicalStart
      (divRoundUp blk.size pageSize) blk.write blk.execute tables
  else memory

def unmapPages (memory : UserMemory) (pml4 start pages : Nat) : UserMemory :=
  if start ≠ 0 ∧ pages ≠ 0 then
    memory.setLeaf pml4 fun addr =>
      if Paging.offsetFrom (pageAligned start) addr < pages * pageSize ∧
          (memory.leaf pml4 addr).global = false then {}
      else memory.leaf pml4 addr
  else memory

def deallocate (memory : UserMemory) (phys : Nat) : UserMemory :=
  if phys ∈ memory.allocated then
    { memory with allocated := memory.allocated.erase phys }
  else { memory with invalidFree := true }

/-- `allocate_user_block`; the result is 0 on failure.  The heap does not
return a block that it has handed out already. -/
def allocateUserBlock (memory : UserMemory) (pml4 size start align : Nat)
    (write execute : Bool) (outcome : Outcome) : Option (Nat × UserMemory) :=
  if outcome.phys = 0 then some (0, memory)
  else if outcome.phys ∈ memory.allocated then none
  else
    let pages := divRoundUp (alignedSize start size) pageSize
    let target := trunc (if start = 0 then outcome.phys else start)
      (max align pageSize)
    if target = 0 ∨ pages = 0 then some (0, memory)
    else
      let memory := memory.mapPages pml4 target outcome.phys pages write
        execute outcome.tables
      if outcome.tables = none then
        some (outcome.phys, { memory with allocated := insert outcome.phys memory.allocated })
      else some (0, memory)

def deallocateUserBlock (memory : UserMemory) (pml4 base size : Nat)
    (shouldUnmap : Bool) : UserMemory :=
  let phys := memory.translate pml4 base
  if phys = 0 then memory
  else
    let memory := memory.deallocate phys
    if shouldUnmap then
      memory.unmapPages pml4 base (divRoundUp size pageSize)
    else memory

end UserMemory

/-- `frame_manager`: the frames by `pml4`, the two tables of counts, and the
number of nodes made so far. -/
structure FrameManager where
  memory : UserMemory
  globalSharedBlocks : Nat → Option SharedBlock
  localSharedBlocks : Nat → Option Int
  nodes : Nat
  frames : Finset Nat
  frame : Nat → UframeTag

namespace FrameManager

def empty : FrameManager where
  memory := { leaf := fun _ _ => {}, allocated := ∅, invalidFree := false }
  globalSharedBlocks := fun _ => none
  localSharedBlocks := fun _ => none
  nodes := 0
  frames := ∅
  frame := fun _ => {}

def setFrame (manager : FrameManager) (pml4 : Nat) (frame : UframeTag) : FrameManager :=
  { manager with frame := Function.update manager.frame pml4 frame }

def setGlobal (manager : FrameManager) (start : Nat) (block : Option SharedBlock) : FrameManager :=
  { manager with
    globalSharedBlocks :=
      Function.update manager.globalSharedBlocks start block }

def setLocal (manager : FrameManager) (phys : Nat) (count : Option Int) : FrameManager :=
  { manager with
    localSharedBlocks :=
      Function.update manager.localSharedBlocks phys count }

def pushUsr (manager : FrameManager) (pml4 : Nat) (blk : BlockDescriptor) : FrameManager :=
  manager.setFrame pml4
    { manager.frame pml4 with
      usrBlocks := (manager.frame pml4).usrBlocks ++ [blk] }

def pushShared (manager : FrameManager) (pml4 : Nat) (ref : SharedRef) : FrameManager :=
  manager.setFrame pml4
    { manager.frame pml4 with
      sharedBlocks := (manager.frame pml4).sharedBlocks ++ [ref] }

def freeBlock (manager : FrameManager) (pml4 : Nat) (blk : BlockDescriptor) : FrameManager :=
  { manager with
    memory := manager.memory.deallocateUserBlock pml4 blk.virtualStart
      blk.size (blk.virtualStart ≠ blk.physicalStart) }

def releaseBlock (manager : FrameManager) (pml4 : Nat) (blk : BlockDescriptor) : FrameManager :=
  match manager.localSharedBlocks blk.physicalStart with
  | some count =>
    if count - 1 > 0 then
      manager.setLocal blk.physicalStart (some (count - 1))
    else (manager.setLocal blk.physicalStart none).freeBlock pml4 blk
  | none =>
    match manager.globalSharedBlocks blk.virtualStart with
    | some block =>
      if wsub block.numRefs 1 > 0 then
        manager.setGlobal blk.virtualStart
          (some { block with numRefs := wsub block.numRefs 1 })
      else (manager.setGlobal blk.virtualStart none).freeBlock pml4 blk
    | none => manager.freeBlock pml4 blk

/-- `get_global_shared`; the flag is false for a null result. -/
def getGlobalShared (manager : FrameManager) (pml4 size start align : Nat)
    (execute : Bool) (outcome : Outcome) : Option (Bool × FrameManager) :=
  match manager.globalSharedBlocks start with
  | none =>
    match manager.memory.allocateUserBlock pml4 size start align false
        execute outcome with
    | none => none
    | some (allocated, memory) =>
      let manager := { manager with memory := memory }
      if allocated = 0 then some (false, manager)
      else
        let ref : SharedRef :=
          { descriptor :=
              { physicalStart := allocated, virtualStart := start
                size := size, align := align, write := false
                execute := execute }
            node := manager.nodes }
        let manager := { manager with nodes := manager.nodes + 1 }
        some (true, (manager.setGlobal start
            (some { ref with numRefs := 1 })).pushShared pml4 ref)
  | some block =>
    let manager :=
      { manager with
        memory := manager.memory.mapToFrame pml4 block.descriptor
          outcome.tables }
    some (true, (manager.setGlobal start
        (some { block with numRefs := wadd block.numRefs 1 })).pushShared
          pml4 block.toSharedRef)

def addBlock (manager : FrameManager) (pml4 size start align : Nat)
    (write execute allowGlobalShared : Bool) (outcome : Outcome) :
    Option (Bool × FrameManager) :=
  if allowGlobalShared ∧ ¬write then
    manager.getGlobalShared pml4 size start align execute outcome
  else
    match manager.memory.allocateUserBlock pml4 size start align write execute
        outcome with
    | none => none
    | some (allocated, memory) =>
      let manager := { manager with memory := memory }
      if allocated = 0 then some (false, manager)
      else
        some (true, manager.pushUsr pml4
          { physicalStart := allocated, virtualStart := start, size := size
            align := align, write := write, execute := execute })

end FrameManager

end OoOS.Mm
