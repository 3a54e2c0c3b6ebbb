import OSWorkspace.EasyFsAllocation

/-!
# The blocks of easy-fs inodes

A disk inode names the blocks of its file in three levels (`layout.rs`): 28
direct blocks, one block of 128 block ids, and one block of ids of such blocks.
Growing takes ids from an iterator over new blocks, and clearing returns all ids.
-/

namespace OSWorkspace

namespace EasyFs

open Exec

/-- The max number of direct inodes. -/
def directBound : Nat := inodeDirectCount

def inodeIndirect1Count : Nat := blockSz / 4

def inodeIndirect2Count : Nat := inodeIndirect1Count * inodeIndirect1Count

def indirect1Bound : Nat := directBound + inodeIndirect1Count

def indirect2Bound : Nat := indirect1Bound + inodeIndirect2Count

/-- An entry of an indirect block. -/
def entry (block : Block) (index : Nat) : Nat := block.uint (4 * index) 4

def setEntry (block : Block) (index value : Nat) : Block := block.putUint (4 * index) 4 value

/-- Keep the cache entry of a block locked while a closure runs. -/
def withLocked {α : Type} (blockId : Nat) (closure : Call α) : Call α := do
  let _ ← readBlock blockId
  modify fun volume => { volume with locked := blockId :: volume.locked }
  let value ← closure
  modify fun volume => { volume with locked := volume.locked.erase blockId }
  return value

/-- Read an entry of a block that the caller has locked. -/
def getEntryAt (blockId index : Nat) : Call Nat := do
  check (index < inodeIndirect1Count)
  let volume ← get
  return entry (volume.disk blockId) index

/-- Change an entry of a block that the caller has locked. -/
def setEntryAt (blockId index value : Nat) : Call Unit := do
  check (index < inodeIndirect1Count)
  modify fun volume => volume.putBlock blockId (setEntry (volume.disk blockId) index value)

/-- The next of the new blocks; an exhausted iterator panics. -/
def nextBlock : List Nat → Call (Nat × List Nat)
  | [] => panicking
  | blockId :: newBlocks => return (blockId, newBlocks)

namespace DiskInode

/-- The number of blocks of a size. -/
def dataBlocksOf (build : Build) (size : Nat) : Call Nat := do
  return (← build.sub32 (← build.add32 size blockSz) 1) / blockSz

def dataBlocks (build : Build) (inode : DiskInode) : Call Nat := dataBlocksOf build inode.size

/-- The number of blocks of a size with those of the indirect levels. -/
def totalBlocks (build : Build) (size : Nat) : Call Nat := do
  let dataBlocks ← dataBlocksOf build size
  let indirect1 := if dataBlocks > inodeDirectCount then 1 else 0
  let indirect2 :=
    if dataBlocks > indirect1Bound then
      1 + (dataBlocks - indirect1Bound + inodeIndirect1Count - 1) / inodeIndirect1Count
    else 0
  return (dataBlocks + indirect1 + indirect2) % 2 ^ 32

def blocksNumNeeded (build : Build) (inode : DiskInode) (newSize : Nat) : Call Nat := do
  check (inode.size ≤ newSize)
  build.sub32 (← totalBlocks build newSize) (← totalBlocks build inode.size)

/-- Get id of block given inner id. -/
def getBlockId (inode : DiskInode) (innerId : Nat) : Call Nat :=
  if innerId < inodeDirectCount then
    return inode.direct innerId
  else if innerId < indirect1Bound then do
    let indirectBlock ← readBlock inode.indirect1
    return entry indirectBlock (innerId - inodeDirectCount)
  else do
    let last := innerId - indirect1Bound
    let indirect2 ← readBlock inode.indirect2
    check (last / inodeIndirect1Count < inodeIndirect1Count)
    let indirect1 ← readBlock (entry indirect2 (last / inodeIndirect1Count))
    return entry indirect1 (last % inodeIndirect1Count)

/-- Fill the direct blocks from `current` on; the loop has `rounds` rounds. -/
def fillDirect : (rounds current : Nat) → DiskInode → List Nat → Call (DiskInode × List Nat)
  | 0, _, inode, newBlocks => return (inode, newBlocks)
  | rounds + 1, current, inode, newBlocks => do
      let (blockId, newBlocks) ← nextBlock newBlocks
      fillDirect rounds (current + 1) (inode.setDirect current blockId) newBlocks

/-- Fill an indirect block from `current` on. -/
def fillIndirect1 (indirect1 : Nat) : (rounds current : Nat) → List Nat → Call (List Nat)
  | 0, _, newBlocks => return newBlocks
  | rounds + 1, current, newBlocks => do
      let (blockId, newBlocks) ← nextBlock newBlocks
      setEntryAt indirect1 current blockId
      fillIndirect1 indirect1 rounds (current + 1) newBlocks

/-- Alloc the low-level indirect1 of `a0` in the round that fills its first entry. -/
def allocLow (indirect2 a0 b0 : Nat) (newBlocks : List Nat) : Call (List Nat) :=
  if b0 = 0 then do
    let (blockId, newBlocks) ← nextBlock newBlocks
    setEntryAt indirect2 a0 blockId
    return newBlocks
  else return newBlocks

/-- Fill the current entry of the low-level indirect1. -/
def fillLow (indirect2 a0 b0 : Nat) (newBlocks : List Nat) : Call (List Nat) := do
  let indirect1 ← getEntryAt indirect2 a0
  withLocked indirect1 do
    let (blockId, newBlocks) ← nextBlock newBlocks
    setEntryAt indirect1 b0 blockId
    return newBlocks

/-- Fill indirect2 from (a0, b0) to (a1, b1), with fuel for the rounds. -/
def fillIndirect2 (indirect2 a1 b1 : Nat) : (fuel a0 b0 : Nat) → List Nat → Call (List Nat)
  | 0, _, _, newBlocks => return newBlocks
  | fuel + 1, a0, b0, newBlocks =>
      if a0 < a1 ∨ a0 = a1 ∧ b0 < b1 then do
        let newBlocks ← allocLow indirect2 a0 b0 newBlocks
        let newBlocks ← fillLow indirect2 a0 b0 newBlocks
        if b0 + 1 = inodeIndirect1Count then fillIndirect2 indirect2 a1 b1 fuel (a0 + 1) 0 newBlocks
        else fillIndirect2 indirect2 a1 b1 fuel a0 (b0 + 1) newBlocks
      else return newBlocks

/-- Alloc indirect2 before its first entry. -/
def allocIndirect2 (inode : DiskInode) (current : Nat) (newBlocks : List Nat) :
    Call (DiskInode × List Nat) :=
  if current = 0 then do
    let (blockId, newBlocks) ← nextBlock newBlocks
    return (inode.setIndirect2 blockId, newBlocks)
  else return (inode, newBlocks)

/-- Alloc indirect1 before its first entry. -/
def allocIndirect1 (inode : DiskInode) (current : Nat) (newBlocks : List Nat) :
    Call (DiskInode × List Nat) :=
  if current = 0 then do
    let (blockId, newBlocks) ← nextBlock newBlocks
    return (inode.setIndirect1 blockId, newBlocks)
  else return (inode, newBlocks)

/-- Grow from `current` to `total` blocks behind those of the first two levels. -/
def growIndirect2 (inode : DiskInode) (current total : Nat) (newBlocks : List Nat) :
    Call (DiskInode × List Nat) := do
  let (inode, newBlocks) ← allocIndirect2 inode current newBlocks
  let newBlocks ← withLocked inode.indirect2 (fillIndirect2 inode.indirect2
    (total / inodeIndirect1Count) (total % inodeIndirect1Count) (total - current)
    (current / inodeIndirect1Count) (current % inodeIndirect1Count) newBlocks)
  return (inode, newBlocks)

/-- Grow from `current` to `total` blocks behind the direct ones. -/
def growIndirect1 (inode : DiskInode) (current total : Nat) (newBlocks : List Nat) :
    Call (DiskInode × List Nat) := do
  let (inode, newBlocks) ← allocIndirect1 inode current newBlocks
  let newBlocks ← withLocked inode.indirect1 (fillIndirect1 inode.indirect1
    (min total inodeIndirect1Count - current) current newBlocks)
  if total > inodeIndirect1Count then
    growIndirect2 inode (max current inodeIndirect1Count - inodeIndirect1Count)
      (total - inodeIndirect1Count) newBlocks
  else return (inode, newBlocks)

/-- Grow to a size.  The ids that are not taken, which the source drops, are
returned. -/
def increaseSize (build : Build) (inode : DiskInode) (newSize : Nat) (newBlocks : List Nat) :
    Call (DiskInode × List Nat) := do
  let current ← inode.dataBlocks build
  let inode := inode.setSize newSize
  let total ← inode.dataBlocks build
  let (inode, newBlocks) ←
    fillDirect (min total inodeDirectCount - current) current inode newBlocks
  if total > inodeDirectCount then
    growIndirect1 inode (max current inodeDirectCount - inodeDirectCount)
      (total - inodeDirectCount) newBlocks
  else return (inode, newBlocks)

/-- The ids of full indirect blocks, each with the ids in it. -/
def collectFull : List Nat → Call (List Nat)
  | [] => return []
  | indirect1 :: entries => do
      let block ← readBlock indirect1
      let others ← collectFull entries
      return indirect1 :: (List.range inodeIndirect1Count).map (entry block) ++ others

/-- The ids behind indirect2 for a number of blocks. -/
def collectIndirect2 (indirect2 dataBlocks : Nat) : Call (List Nat) := do
  let a1 := dataBlocks / inodeIndirect1Count
  let b1 := dataBlocks % inodeIndirect1Count
  let volume ← get
  let full ← collectFull ((List.range a1).map (entry (volume.disk indirect2)))
  if b1 > 0 then do
    let indirect1 ← getEntryAt indirect2 a1
    let block ← readBlock indirect1
    return full ++ indirect1 :: (List.range b1).map (entry block)
  else return full

/-- Return the blocks of the indirect levels behind those of `v`. -/
def clearIndirect1 (inode : DiskInode) (dataBlocks : Nat) (v : List Nat) :
    Call (List Nat × DiskInode) := do
  let block ← readBlock inode.indirect1
  let v := v ++ inode.indirect1 ::
    (List.range (min dataBlocks inodeIndirect1Count)).map (entry block)
  let inode := inode.setIndirect1 0
  if dataBlocks > inodeIndirect1Count then do
    let v := v ++ [inode.indirect2]
    let dataBlocks := dataBlocks - inodeIndirect1Count
    check (dataBlocks ≤ inodeIndirect2Count)
    let behind ← withLocked inode.indirect2 (collectIndirect2 inode.indirect2 dataBlocks)
    return (v ++ behind, inode.setIndirect2 0)
  else return (v, inode)

/-- Clear size to zero and return blocks that should be deallocated. -/
def clearSize (build : Build) (inode : DiskInode) : Call (List Nat × DiskInode) := do
  let dataBlocks ← inode.dataBlocks build
  let inode := inode.setSize 0
  let direct := min dataBlocks inodeDirectCount
  let v := (List.range direct).map inode.direct
  let inode := (List.range direct).foldl (fun inode index => inode.setDirect index 0) inode
  if dataBlocks > inodeDirectCount then
    clearIndirect1 inode (dataBlocks - inodeDirectCount) v
  else return (v, inode)

end DiskInode

end EasyFs

end OSWorkspace
