import OSWorkspace.Ext4ExtentMaps
import OSWorkspace.Ext4ExtentTree

/-!
# Contents of inodes

Reading, writing, truncating and freeing the data of an inode, as `vfs.rs` does
it through a handle that carries the position of the inode in its table.  The
block size is the 4096 bytes that mounting checks for.
-/

namespace OSWorkspace

namespace Ext4

open Exec

/-- A handle of an inode. -/
structure Inode where
  inodeNum : Nat
  blockId : Nat
  blockOffset : Nat
deriving DecidableEq

def extentsCacheMax : Nat := 256

def u64Max : Nat := 2 ^ 64 - 1

def extentsCachePut (inodeNum : Nat) (extents : List Ext4Extent) : Call Unit :=
  modify fun volume =>
    let cache := if volume.extentsCache.size ≥ extentsCacheMax then ∅ else volume.extentsCache
    { volume with extentsCache := cache.insert inodeNum extents }

/-- A pointer in a block of pointers; `none` is an index past the block. -/
def readIndirectBlock (disk : Nat → Block) (blockId index : Nat) : Option Nat :=
  if index * 4 + 4 ≤ blockSz then some ((disk blockId).uint (index * 4) 4) else none

/-- Follow a pointer that may be a hole. -/
def followPointer (disk : Nat → Block) (blockId index : Nat) : Option Nat :=
  if blockId = 0 then some 0 else readIndirectBlock disk blockId index

def ptrsPerBlock : Nat := blockSz / 4

/-- Physical block number for a logical block index; 0 is a hole. -/
def getBlockNum (disk : Nat → Block) (blocks : Bytes iBlockSize) (logicalIdx : Nat) :
    Option Nat :=
  let pointer := fun index => blocks.uint (4 * index) 4
  if logicalIdx < 12 then some (pointer logicalIdx)
  else
    let logicalIdx := logicalIdx - 12
    if logicalIdx < ptrsPerBlock then followPointer disk (pointer 12) logicalIdx
    else
      let logicalIdx := logicalIdx - ptrsPerBlock
      if logicalIdx < ptrsPerBlock * ptrsPerBlock then do
        let l1Block ← followPointer disk (pointer 13) (logicalIdx / ptrsPerBlock)
        followPointer disk l1Block (logicalIdx % ptrsPerBlock)
      else
        let logicalIdx := logicalIdx - ptrsPerBlock * ptrsPerBlock
        let remaining := logicalIdx % (ptrsPerBlock * ptrsPerBlock)
        do
          let l1Block ← followPointer disk (pointer 14)
            (logicalIdx / (ptrsPerBlock * ptrsPerBlock))
          let l2Block ← followPointer disk l1Block (remaining / ptrsPerBlock)
          followPointer disk l2Block (remaining % ptrsPerBlock)

/-- Read through legacy block pointers up to the first hole. -/
def readIndirect (disk : Nat → Block) (blocks : Bytes iBlockSize) :
    (fuel offset remaining : Nat) → Option (List UInt8)
  | 0, _, _ => some []
  | fuel + 1, offset, remaining =>
      if remaining = 0 then some []
      else
        match getBlockNum disk blocks (offset / blockSz) with
        | none => none
        | some 0 => some []
        | some physBlock =>
            let toRead := min remaining (blockSz - offset % blockSz)
            (readIndirect disk blocks fuel (offset + toRead) (remaining - toRead)).map
              ((disk physBlock).slice (offset % blockSz) toRead ++ ·)

/-- Allocate and zero a block for every unmapped logical block of the range. -/
def mapRange : (count lblock : Nat) → List Ext4Extent → Bool →
    Call (List Ext4Extent × Bool)
  | 0, _, extents, changed => return (extents, changed)
  | count + 1, lblock, extents, changed =>
      match mapLogicalBlock extents lblock with
      | some _ => mapRange count (lblock + 1) extents changed
      | none => do
          let pblock ← okOr (← allocBlock) .noSpace
          writeBlock pblock .zeroed
          mapRange count (lblock + 1) (insertBlockMapping extents lblock pblock) true

/-- Append a zeroed block for every logical block of the range. -/
def appendRange : (count lblock : Nat) → List Ext4Extent → Call (List Ext4Extent)
  | 0, _, extents => return extents
  | count + 1, lblock, extents => do
      let pblock ← okOr (← allocBlock) .noSpace
      writeBlock pblock .zeroed
      appendRange count (lblock + 1) (pushBlockToExtents extents lblock pblock)

/-- Copy bytes into the mapped blocks.  Offsets wrap at 64 bits in the source;
that does not change the logical block, which is taken modulo 32 bits. -/
def writeMapped (extents : List Ext4Extent) : (fuel offset : Nat) → List UInt8 → Call Unit
  | _, _, [] => return ()
  | 0, _, _ :: _ => return ()
  | fuel + 1, offset, byte :: bytes => do
      let buf := byte :: bytes
      let lblock := offset / blockSz % 2 ^ 32
      let offInBlock := offset % blockSz
      let toWrite := min buf.length (blockSz - offInBlock)
      let pblock ← okOr (mapLogicalBlock extents lblock) .unsupported
      let block ← readBlock pblock
      writeBlock pblock (block.write offInBlock (buf.take toWrite))
      writeMapped extents fuel (offset + toWrite) (buf.drop toWrite)

/-- The header of an empty leaf over the old bytes of `i_block`. -/
def Ext4Inode.resetExtentTree (inode : Ext4Inode) : Ext4Inode :=
  inode.setBlockData (inode.blockData.store Ext4ExtentHeader.record 0
    { ehMagic := Ext4ExtentHeader.magic, ehEntries := 0,
      ehMax := UInt16.ofNat extentsInInode, ehDepth := 0, ehGeneration := 0 })

namespace Inode

def readDiskInode (self : Inode) : Call Ext4Inode :=
  readInodeAt self.blockId self.blockOffset

def modifyDiskInode (self : Inode) (change : Ext4Inode → Ext4Inode) : Call Unit := do
  let inode ← self.readDiskInode
  writeInodeAt self.blockId self.blockOffset (change inode)

def isDir (self : Inode) : Call Bool := return (← self.readDiskInode).isDir

def isFile (self : Inode) : Call Bool := return (← self.readDiskInode).isFile

def size (self : Inode) : Call Nat := return (← self.readDiskInode).size

/-- The extents from the cache, or from the tree on disk and then cached. -/
def cachedExtents (self : Inode) : Call (List Ext4Extent) := do
  match (← get).extentsCache[self.inodeNum]? with
  | some cached => return cached
  | none =>
      let inode ← self.readDiskInode
      let extents := parseExtentTree (← get).disk inode.blockData
      extentsCachePut self.inodeNum extents
      return extents

/-- Read data from inode at given offset: the number of bytes and the buffer. -/
def readAt (self : Inode) (offset : Nat) (buf : List UInt8) : Call (Nat × List UInt8) := do
  let inode ← self.readDiskInode
  let fileSize := inode.size
  let readLen := min buf.length (fileSize - offset)
  if offset ≥ fileSize ∨ readLen = 0 then
    return (0, buf)
  else if inode.isSymlink ∧ fileSize ≤ iBlockSize then
    return (readLen, inode.blockData.slice offset readLen ++ buf.drop readLen)
  else if inode.usesExtents then
    let extents ← self.cachedExtents
    return (readLen, readFromExtents (← get).disk extents offset readLen ++ buf.drop readLen)
  else
    let bytes ← expect (readIndirect (← get).disk inode.blockData readLen offset readLen)
    let holes := List.replicate (readLen - bytes.length) 0
    return (bytes.length, bytes ++ holes ++ buf.drop readLen)

/-- Read the whole file. -/
def readAll (self : Inode) : Call (List UInt8) := do
  let size ← self.size
  let (_, buf) ← self.readAt 0 (List.replicate size 0)
  return buf

/-- The extents on disk; none for an inode without an extent tree. -/
def readExtentsAny (self : Inode) : Call (List Ext4Extent) := do
  let inode ← self.readDiskInode
  if inode.usesExtents then
    return parseExtentTree (← get).disk inode.blockData
  else return []

/-- The extents from the cache, or from the tree on disk. -/
def currentExtents (self : Inode) : Call (List Ext4Extent) := do
  match (← get).extentsCache[self.inodeNum]? with
  | some cached => return cached
  | none => self.readExtentsAny

def sectorsPerBlock : Nat := blockSz / 512

/-- Write back the extents together with the number of sectors. -/
def persistExtents (self : Inode) (extents : List Ext4Extent) : Call Unit := do
  let inode ← self.readDiskInode
  let sectors := min (extentsBlocksCount extents * sectorsPerBlock) u32Max
  let changed ← writeExtentsToInode self.inodeNum (inode.setIBlocksLo sectors) extents
  writeInode self.inodeNum changed

def ensureWriteBlocks (self : Inode) (startLblock endLblock : Nat) :
    Call (List Ext4Extent) := do
  let extents ← self.currentExtents
  let (extents, changed) ← mapRange (endLblock - startLblock) startLblock extents false
  if changed then
    self.persistExtents extents
  extentsCachePut self.inodeNum extents
  return extents

def ensureBlocks (self : Inode) (totalBlocks : Nat) : Call (List Ext4Extent) := do
  let extents ← self.currentExtents
  let curBlocks := (extents.map Ext4Extent.lend).foldl max 0
  if totalBlocks ≤ curBlocks then
    extentsCachePut self.inodeNum extents
    return extents
  else
    let extents ← appendRange (totalBlocks - curBlocks) curBlocks extents
    self.persistExtents extents
    extentsCachePut self.inodeNum extents
    return extents

/-- Write data to inode at given offset. -/
def writeAt (self : Inode) (offset : Nat) (buf : List UInt8) : Call Nat := do
  let inode ← self.readDiskInode
  if ¬ inode.isFile ∧ ¬ inode.isSymlink then
    throw .notAFile
  else if buf = [] then
    return 0
  else
    let endOff := min (offset + buf.length) u64Max
    if inode.isSymlink ∧ endOff ≤ iBlockSize then
      self.modifyDiskInode fun inode =>
        (inode.setBlockData (Bytes.zeroed.write offset buf)).setSize endOff
      return buf.length
    else
      let oldSize := inode.size
      let newSize := max oldSize endOff
      let startLblock := offset / blockSz % 2 ^ 32
      let endLblock := min (endOff + (blockSz - 1)) u64Max / blockSz % 2 ^ 32
      let extents ← self.ensureWriteBlocks startLblock endLblock
      writeMapped extents buf.length offset buf
      if newSize ≠ oldSize then
        self.modifyDiskInode (·.setSize newSize)
      return buf.length

def freeAllBlocks (self : Inode) : Call Unit := do
  let extents ← self.readExtentsAny
  let inode ← self.readDiskInode
  deallocExtentMetadataBlocks
    (extents.flatMap fun extent => List.range' extent.startBlock extent.len)
  let (leafBlocks, indexBlocks) := extentTreeBlocks (← get).disk inode.blockData
  deallocExtentMetadataBlocks leafBlocks
  deallocExtentMetadataBlocks indexBlocks

/-- Truncate a regular file to size 0 (frees all data blocks). -/
def clear (self : Inode) : Call Unit := do
  if ← self.isFile then
    self.freeAllBlocks
    self.modifyDiskInode fun inode => ((inode.setSize 0).setIBlocksLo 0).resetExtentTree
    extentsCacheInvalidate self.inodeNum
  else throw .notAFile

end Inode

end Ext4

end OSWorkspace
