import OSWorkspace.Ext4FileSystem

/-!
# Extent trees

The map of a file is a tree of extents: the root lies in the 60 bytes of
`i_block`, further index and leaf nodes in blocks of their own.  Trees are read
with a check of the depth, a bound on the entries of a node and a list of the
blocks visited so far, and are rewritten as a whole into newly allocated blocks
with one, two or three levels.
-/

namespace OSWorkspace

namespace Ext4

open Exec

def extentsInInode : Nat := (15 * 4 - 12) / 12

def extentsPerNode : Nat := (blockSz - 12) / 12

def extentTreeMaxDepth : Nat := 5

section Nodes

variable {size : Nat}

def nodeHeader (node : Bytes size) : Ext4ExtentHeader :=
  node.load Ext4ExtentHeader.record 0

def nodeExtents (node : Bytes size) (maxEntries : Nat) : List Ext4Extent :=
  node.loadTable Ext4Extent.record 12 (min (nodeHeader node).ehEntries.toNat maxEntries)

def nodeIndexes (node : Bytes size) (maxEntries : Nat) : List Ext4ExtentIdx :=
  node.loadTable Ext4ExtentIdx.record 12 (min (nodeHeader node).ehEntries.toNat maxEntries)

/-- A node of the given depth with its entries, over the old bytes. -/
def storeNode {α : Type} (record : Record α) (node : Bytes size) (entries maxEntries depth : Nat)
    (values : List α) : Bytes size :=
  (node.store Ext4ExtentHeader.record 0
    { ehMagic := Ext4ExtentHeader.magic, ehEntries := UInt16.ofNat entries,
      ehMax := UInt16.ofNat maxEntries, ehDepth := UInt16.ofNat depth,
      ehGeneration := 0 }).storeTable record 12 values

end Nodes

/-- Recursively parse an extent tree: the extents and the visited blocks. -/
def parseExtentTreeRecursive (disk : Nat → Block) :
    (remainingDepth : Nat) → {size : Nat} → Bytes size → (maxEntries : Nat) →
      List Ext4Extent × List Nat → List Ext4Extent × List Nat
  | 0, _, node, maxEntries, (extents, visitedBlocks) =>
      if (nodeHeader node).ehDepth.toNat ≠ 0 then (extents, visitedBlocks)
      else (extents ++ nodeExtents node maxEntries, visitedBlocks)
  | depth + 1, _, node, maxEntries, found =>
      if (nodeHeader node).ehDepth.toNat ≠ depth + 1 ∨ depth + 1 > extentTreeMaxDepth then found
      else
        (nodeIndexes node maxEntries).foldl (fun (extents, visitedBlocks) idx =>
          let childBlock := idx.leafBlock
          if childBlock = 0 ∨ childBlock ∈ visitedBlocks then (extents, visitedBlocks)
          else
            let visitedBlocks := visitedBlocks ++ [childBlock]
            let childHeader := nodeHeader (disk childBlock)
            if childHeader.isValid ∧ childHeader.ehDepth.toNat = depth then
              parseExtentTreeRecursive disk depth (disk childBlock) extentsPerNode
                (extents, visitedBlocks)
            else (extents, visitedBlocks)) found

/-- Parse the extent tree from inode block data. -/
def parseExtentTree (disk : Nat → Block) (inodeBlock : Bytes iBlockSize) : List Ext4Extent :=
  let header := nodeHeader inodeBlock
  if ¬ header.isValid ∨ header.ehDepth.toNat > extentTreeMaxDepth then []
  else if header.ehDepth.toNat = 0 then nodeExtents inodeBlock extentsInInode
  else
    (parseExtentTreeRecursive disk header.ehDepth.toNat inodeBlock extentsInInode ([], [])).1

/-- The blocks of a tree found so far. -/
structure TreeBlocks where
  leaves : List Nat
  indexes : List Nat
  visitedBlocks : List Nat

def collectExtentTreeBlock (disk : Nat → Block) :
    (depth pblock : Nat) → TreeBlocks → TreeBlocks
  | 0, pblock, found =>
      if pblock = 0 ∨ pblock ∈ found.visitedBlocks then found
      else
        { found with
          leaves := found.leaves ++ [pblock]
          visitedBlocks := found.visitedBlocks ++ [pblock] }
  | depth + 1, pblock, found =>
      if pblock = 0 ∨ depth + 1 > extentTreeMaxDepth ∨ pblock ∈ found.visitedBlocks then found
      else
        let found := { found with
          indexes := found.indexes ++ [pblock]
          visitedBlocks := found.visitedBlocks ++ [pblock] }
        let header := nodeHeader (disk pblock)
        if ¬ header.isValid ∨ header.ehDepth.toNat ≠ depth + 1 then found
        else
          ((nodeIndexes (disk pblock) extentsPerNode).map Ext4ExtentIdx.leafBlock).foldl
            (fun found child => collectExtentTreeBlock disk depth child found) found

/-- The leaf and index blocks of the tree in an inode. -/
def extentTreeBlocks (disk : Nat → Block) (inodeBlock : Bytes iBlockSize) :
    List Nat × List Nat :=
  let header := nodeHeader inodeBlock
  if ¬ header.isValid ∨ header.ehDepth.toNat = 0 ∨
      header.ehDepth.toNat > extentTreeMaxDepth then ([], [])
  else
    let found := (nodeIndexes inodeBlock extentsInInode).foldl (fun found idx =>
      collectExtentTreeBlock disk (header.ehDepth.toNat - 1) idx.leafBlock found) ⟨[], [], []⟩
    (found.leaves, found.indexes)

def writeExtentLeafBlock (pblock : Nat) (extents : List Ext4Extent) : Call Unit :=
  writeBlock pblock
    (storeNode Ext4Extent.record .zeroed extents.length extentsPerNode 0 extents)

def writeExtentIndexBlock (pblock : Nat) (entries : List Ext4ExtentIdx) (depth : Nat) :
    Call Unit :=
  writeBlock pblock
    (storeNode Ext4ExtentIdx.record .zeroed entries.length extentsPerNode depth entries)

def writeExtentsLeafInInode (inode : Ext4Inode) (extents : List Ext4Extent) :
    Except Ext4Error Ext4Inode :=
  if extents.length > extentsInInode then .error .unsupported
  else
    let inode := inode.setIFlags (inode.iFlags ||| ext4ExtentsFl)
    let padding := List.replicate extentsInInode (⟨0, 0, 0, 0⟩ : Ext4Extent)
    let entries := (extents ++ padding).take extentsInInode
    .ok (inode.setBlockData
      (storeNode Ext4Extent.record inode.blockData extents.length extentsInInode 0 entries))

def deallocExtentMetadataBlocks : List Nat → Call Unit
  | [] => return ()
  | block :: blocks => do
      deallocBlock block
      deallocExtentMetadataBlocks blocks

/-- Allocate `count` further blocks, or free those of this call. -/
def allocExtentMetadataBlocks : (count : Nat) → (blocks : List Nat) → Call (List Nat)
  | 0, blocks => return blocks
  | count + 1, blocks => do
      match ← allocBlock with
      | some block => allocExtentMetadataBlocks count (blocks ++ [block])
      | none =>
          deallocExtentMetadataBlocks blocks
          throw .noSpace

/-- The index entry of a child whose first extent has position `start`. -/
def childEntry (extents : List Ext4Extent) (start child : Nat) : Ext4ExtentIdx where
  eiBlock := (extents[start]?.map Ext4Extent.eeBlock).getD 0
  eiLeafLo := UInt32.ofNat child
  eiLeafHi := UInt16.ofNat (child / 2 ^ 32)
  eiUnused := 0

def writeExtentRootIndexInInode (inode : Ext4Inode) (childBlocks : List Nat)
    (extents : List Ext4Extent) (depth stride : Nat) : Ext4Inode :=
  let children := childBlocks.mapIdx fun position child =>
    childEntry extents (position * stride) child
  let padding := List.replicate extentsInInode (⟨0, 0, 0, 0⟩ : Ext4ExtentIdx)
  let entries := (children ++ padding).take extentsInInode
  inode.setBlockData
    (storeNode Ext4ExtentIdx.record inode.blockData childBlocks.length extentsInInode depth entries)

/-- Write the leaf blocks from number `position` on. -/
def writeLeafBlocks (extents : List Ext4Extent) : (position : Nat) → List Nat → Call Unit
  | _, [] => return ()
  | position, pblock :: rest => do
      writeExtentLeafBlock pblock
        ((extents.drop (position * extentsPerNode)).take extentsPerNode)
      writeLeafBlocks extents (position + 1) rest

/-- Write the index blocks over the leaf blocks from number `position` on. -/
def writeIndexBlocks (extents : List Ext4Extent) (leafBlocks : List Nat) :
    (position : Nat) → List Nat → Call Unit
  | _, [] => return ()
  | position, pblock :: rest => do
      let leafStart := position * extentsPerNode
      let entries := ((leafBlocks.drop leafStart).take extentsPerNode).mapIdx fun offset leaf =>
        childEntry extents ((leafStart + offset) * extentsPerNode) leaf
      writeExtentIndexBlock pblock entries 1
      writeIndexBlocks extents leafBlocks (position + 1) rest

def extentsCacheInvalidate (inodeNum : Nat) : Call Unit :=
  modify fun volume => { volume with extentsCache := volume.extentsCache.erase inodeNum }

def needNodes (entries : Nat) : Nat :=
  (entries + extentsPerNode - 1) / extentsPerNode

/-- Rewrite the extent tree of an inode and free the blocks of its old tree;
the changed inode is returned for the caller to write. -/
def writeExtentsToInode (inodeNum : Nat) (inode : Ext4Inode) (extents : List Ext4Extent) :
    Call Ext4Inode := do
  let inode := inode.setIFlags (inode.iFlags ||| ext4ExtentsFl)
  let volume ← get
  let (oldLeafBlocks, oldIndexBlocks) := extentTreeBlocks volume.disk inode.blockData
  if extents.length ≤ extentsInInode then
    match writeExtentsLeafInInode inode extents with
    | .ok changed =>
        deallocExtentMetadataBlocks oldLeafBlocks
        deallocExtentMetadataBlocks oldIndexBlocks
        extentsCacheInvalidate inodeNum
        return changed
    | .error error =>
        extentsCacheInvalidate inodeNum
        throw error
  else
    let needLeaf := needNodes extents.length
    if needLeaf > extentsInInode ∧ needNodes needLeaf > extentsInInode then
      throw .unsupported
    else
      let leafBlocks ← allocExtentMetadataBlocks needLeaf []
      writeLeafBlocks extents 0 leafBlocks
      if needLeaf ≤ extentsInInode then
        deallocExtentMetadataBlocks oldLeafBlocks
        deallocExtentMetadataBlocks oldIndexBlocks
        extentsCacheInvalidate inodeNum
        return writeExtentRootIndexInInode inode leafBlocks extents 1 extentsPerNode
      else
        match ← (allocExtentMetadataBlocks (needNodes needLeaf) []).attempt with
        | .error error =>
            deallocExtentMetadataBlocks leafBlocks
            throw error
        | .ok indexBlocks =>
            writeIndexBlocks extents leafBlocks 0 indexBlocks
            deallocExtentMetadataBlocks oldLeafBlocks
            deallocExtentMetadataBlocks oldIndexBlocks
            extentsCacheInvalidate inodeNum
            return writeExtentRootIndexInInode inode indexBlocks extents 2
              (extentsPerNode * extentsPerNode)

end Ext4

end OSWorkspace
