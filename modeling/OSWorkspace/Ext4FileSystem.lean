import OSWorkspace.Ext4Layout
import OSWorkspace.Utf8Strings

/-!
# The mounted ext4 file system

The state shared by all calls: the mounted file system with its allocation
cursors, the blocks as seen through the block cache, and the two global caches
of extents and directory indexes.  This file models `ext4.rs`: the position of
inodes, and the allocators of blocks and inodes over the bitmaps on disk.
-/

namespace OSWorkspace

namespace Ext4

structure Ext4FileSystem where
  superblock : Ext4SuperBlock
  groupDescs : List Ext4GroupDesc
  is64bit : Bool
  nextAllocBlock : Nat
  nextAllocInode : Nat

abbrev DirIndex := Std.TreeMap Str (Nat × UInt8)

/-- The mounted file system, its blocks, and the caches keyed by inode number. -/
structure Volume where
  fs : Ext4FileSystem
  disk : Nat → Block
  extentsCache : Std.TreeMap Nat (List Ext4Extent)
  dirIndexCache : Std.TreeMap Nat DirIndex

/-- A call of the driver. -/
abbrev Call (α : Type) := Exec Ext4Error Volume α

open Exec

namespace Volume

def putBlock (volume : Volume) (blockId : Nat) (block : Block) : Volume :=
  { volume with disk := Function.update volume.disk blockId block }

def setNextAllocBlock (volume : Volume) (next : Nat) : Volume :=
  { volume with fs := { volume.fs with nextAllocBlock := next } }

def setNextAllocInode (volume : Volume) (next : Nat) : Volume :=
  { volume with fs := { volume.fs with nextAllocInode := next } }

end Volume

def readBlock (blockId : Nat) : Call Block := do
  return (← get).disk blockId

def writeBlock (blockId : Nat) (block : Block) : Call Unit :=
  modify (·.putBlock blockId block)

theorem run_readBlock (blockId : Nat) (volume : Volume) :
    (readBlock blockId).run volume = .ok (volume.disk blockId) volume :=
  rfl

theorem run_writeBlock (blockId : Nat) (block : Block) (volume : Volume) :
    (writeBlock blockId block).run volume = .ok () (volume.putBlock blockId block) :=
  rfl

/-- The position of an inode (block id and offset within block); `none` is a
division by zero or a group without descriptor. -/
def Ext4FileSystem.getInodePos (fs : Ext4FileSystem) (inodeNum : Nat) : Option (Nat × Nat) :=
  let inodeIdx := (inodeNum + 2 ^ 32 - 1) % 2 ^ 32
  let perGroup := fs.superblock.inodesPerGroup
  let inodeSize := fs.superblock.inodeSize
  let inodesPerBlock := fs.superblock.blockSize / inodeSize
  if perGroup = 0 ∨ inodeSize = 0 ∨ inodesPerBlock = 0 then none
  else
    fs.groupDescs[inodeIdx / perGroup]?.map fun desc =>
      let localIdx := inodeIdx % perGroup
      (desc.inodeTable fs.is64bit + localIdx / inodesPerBlock,
        localIdx % inodesPerBlock * inodeSize)

/-- Read the inode structure at a position. -/
def readInodeAt (blockId offset : Nat) : Call Ext4Inode := do
  let block ← readBlock blockId
  check (offset + inodeStructSize ≤ blockSz)
  return block.extract offset inodeStructSize

/-- Overwrite the inode structure at a position. -/
def writeInodeAt (blockId offset : Nat) (inode : Ext4Inode) : Call Unit := do
  let block ← readBlock blockId
  check (offset + inodeStructSize ≤ blockSz)
  writeBlock blockId (block.paste offset inode)

def readInode (inodeNum : Nat) : Call Ext4Inode := do
  let volume ← get
  let (blockId, offset) ← expect (volume.fs.getInodePos inodeNum)
  readInodeAt blockId offset

def writeInode (inodeNum : Nat) (inode : Ext4Inode) : Call Unit := do
  let volume ← get
  let (blockId, offset) ← expect (volume.fs.getInodePos inodeNum)
  writeInodeAt blockId offset inode

/-- The first clear bit among `count` bits from `bit` on; `none` is an index
past the bitmap block. -/
def findClearBit (bytes : Block) : (count bit : Nat) → Option (Option Nat)
  | 0, _ => some none
  | count + 1, bit =>
      if bit / 8 < blockSz then
        if bytes.get (bit / 8) &&& bitMask bit = 0 then some (some bit)
        else findClearBit bytes count (bit + 1)
      else none

/-- Find a clear bit from `startBit` on, then before it, and set it. -/
def findAndAllocBitFrom (bytes : Block) (startBit totalBits : Nat) :
    Option (Option (Nat × Block)) :=
  if totalBits = 0 then some none
  else
    let start := min startBit totalBits
    (findClearBit bytes (totalBits - start) start).bind fun found =>
      match found with
      | some bit => some (some (bit, bytes.setBit bit true))
      | none =>
          (findClearBit bytes start 0).map fun found =>
            found.map fun bit => (bit, bytes.setBit bit true)

/-- The loop over the groups of one pass: the group and the bit that was set. -/
def searchGroups (bitmapBlock : Nat → Option Nat) (startBit totalBits : Nat → Nat) :
    List Nat → Call (Option (Nat × Nat))
  | [] => return none
  | group :: groups => do
      let blockId ← expect (bitmapBlock group)
      let bytes ← readBlock blockId
      match ← expect (findAndAllocBitFrom bytes (startBit group) (totalBits group)) with
      | some (bit, changed) =>
          writeBlock blockId changed
          return some (group, bit)
      | none => searchGroups bitmapBlock startBit totalBits groups

/-- Both passes: the groups from the cursor on, then those before it.  A group
that fails `inRange` ends its pass. -/
def searchBothPasses (bitmapBlock : Nat → Option Nat) (totalBits : Nat → Nat)
    (inRange : Nat → Bool) (groups startGroup startLocal : Nat) :
    Call (Option (Nat × Nat)) := do
  let firstPass := (List.range' startGroup (groups - startGroup)).takeWhile inRange
  let secondPass := (List.range (min startGroup groups)).takeWhile inRange
  match ← searchGroups bitmapBlock
      (fun group => if group = startGroup then startLocal else 0) totalBits firstPass with
  | some found => return some found
  | none => searchGroups bitmapBlock (fun _ => 0) totalBits secondPass

namespace Volume

def blockBitmapOf (volume : Volume) (group : Nat) : Option Nat :=
  volume.fs.groupDescs[group]?.map fun desc => desc.blockBitmap volume.fs.is64bit

def inodeBitmapOf (volume : Volume) (group : Nat) : Option Nat :=
  volume.fs.groupDescs[group]?.map fun desc => desc.inodeBitmap volume.fs.is64bit

end Volume

/-- Allocate a free inode and mark it in inode bitmap. -/
def allocInode : Call (Option Nat) := do
  let volume ← get
  let perGroup := volume.fs.superblock.inodesPerGroup
  check (perGroup ≠ 0)
  let startIdx := max volume.fs.nextAllocInode 1 - 1
  let found ← searchBothPasses volume.inodeBitmapOf (fun _ => perGroup) (fun _ => true)
    volume.fs.groupDescs.length (startIdx / perGroup) (startIdx % perGroup)
  match found with
  | some (group, localBit) =>
      let inodeNum := (group * perGroup + localBit + 1) % 2 ^ 32
      modify (·.setNextAllocInode (min (inodeNum + 1) (2 ^ 32 - 1)))
      return some inodeNum
  | none => return none

/-- Deallocate an inode in inode bitmap. -/
def deallocInode (inodeNum : Nat) : Call Unit := do
  if inodeNum = 0 then
    return ()
  let volume ← get
  let perGroup := volume.fs.superblock.inodesPerGroup
  check (perGroup ≠ 0)
  match volume.inodeBitmapOf ((inodeNum - 1) / perGroup) with
  | none => return ()
  | some blockId =>
      check ((inodeNum - 1) % perGroup / 8 < blockSz)
      let bytes ← readBlock blockId
      writeBlock blockId (bytes.setBit ((inodeNum - 1) % perGroup) false)

/-- Allocate a free block and mark it in block bitmap. -/
def allocBlock : Call (Option Nat) := do
  let volume ← get
  let perGroup := volume.fs.superblock.blocksPerGroup
  let totalBlocks := volume.fs.superblock.blocksCount
  let firstDataBlock := volume.fs.superblock.firstDataBlock
  check (perGroup ≠ 0)
  let startRel := max volume.fs.nextAllocBlock firstDataBlock - firstDataBlock
  let found ← searchBothPasses volume.blockBitmapOf
    (fun group => min (totalBlocks - (firstDataBlock + group * perGroup)) perGroup)
    (fun group => firstDataBlock + group * perGroup < totalBlocks)
    volume.fs.groupDescs.length (startRel / perGroup) (startRel % perGroup)
  match found with
  | some (group, localBit) =>
      let block := firstDataBlock + group * perGroup + localBit
      modify (·.setNextAllocBlock (min (block + 1) (2 ^ 64 - 1)))
      return some block
  | none => return none

/-- Deallocate a block in block bitmap. -/
def deallocBlock (block : Nat) : Call Unit := do
  let volume ← get
  let perGroup := volume.fs.superblock.blocksPerGroup
  let firstDataBlock := volume.fs.superblock.firstDataBlock
  if block < firstDataBlock then
    return ()
  check (perGroup ≠ 0)
  match volume.blockBitmapOf ((block - firstDataBlock) / perGroup) with
  | none => return ()
  | some blockId =>
      check ((block - firstDataBlock) % perGroup / 8 < blockSz)
      let bytes ← readBlock blockId
      writeBlock blockId (bytes.setBit ((block - firstDataBlock) % perGroup) false)

end Ext4

end OSWorkspace
