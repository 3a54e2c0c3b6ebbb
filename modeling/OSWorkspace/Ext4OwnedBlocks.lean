import OSWorkspace.Ext4ExtentTreeRewriting
import OSWorkspace.Ext4InodeTables

/-!
# The blocks of an inode

Every inode owns the data blocks of its extents and the blocks of its extent
tree.  A step on one inode may change its structure, its own blocks and free
blocks; this file states that once and derives what such a step leaves alone:
the inode, the blocks and the cached extents of every other file.
-/

namespace OSWorkspace

namespace Ext4

open Exec

namespace View

/-- A view of a mounted file system: the reserved blocks are in use. -/
structure Mounted (reserved : Set Nat) (view : View) : Prop where
  geometry : Geometry view.fs
  small : view.fs.superblock.blocksCount ≤ 2 ^ 48
  layout : Layout view.fs reserved
  reserved : ∀ blockId ∈ reserved, blockId ∈ view.held .block

theorem Mounted.guarded {reserved : Set Nat} {view : View} (mounted : view.Mounted reserved) :
    view.Guarded :=
  ⟨mounted.geometry, mounted.small, mounted.reserved 0 mounted.layout.zero,
    fun blockId isBitmap _ => mounted.reserved blockId (mounted.layout.bitmaps blockId isBitmap)⟩

/-- Blocks that an allocator handed out. -/
structure Fresh (view : View) (blocks : List Nat) : Prop where
  nodup : blocks.Nodup
  items : ∀ blockId ∈ blocks, view.IsItem .block blockId
  free : ∀ blockId ∈ blocks, blockId ∉ view.held .block

/-- At least so many blocks are free. -/
def HasFree (view : View) (count : Nat) : Prop :=
  ∃ blocks, view.Fresh blocks ∧ blocks.length = count

theorem Mounted.not_reserved {reserved : Set Nat} {view : View} (mounted : view.Mounted reserved)
    {blockId : Nat} (free : blockId ∉ view.held .block) : blockId ∉ reserved :=
  fun isReserved => free (mounted.reserved blockId isReserved)

/-- The extents of an inode; none without an extent tree. -/
def extents (view : View) (inodeNum : Nat) : List Ext4Extent :=
  if (view.inode inodeNum).usesExtents then
    parseExtentTree view.data (view.inode inodeNum).blockData
  else []

/-- The blocks of the extent tree of an inode. -/
def tree (view : View) (inodeNum : Nat) : List Nat :=
  treeBlocks view.data (view.inode inodeNum).blockData

def owned (view : View) (inodeNum : Nat) : List Nat :=
  dataBlocks (view.extents inodeNum) ++ view.tree inodeNum

theorem mem_owned {view : View} {inodeNum blockId : Nat} :
    blockId ∈ view.owned inodeNum ↔
      blockId ∈ dataBlocks (view.extents inodeNum) ∨ blockId ∈ view.tree inodeNum :=
  List.mem_append

/-- The blocks of an inode are its own: listed once, in use, not reserved. -/
structure Owning (reserved : Set Nat) (view : View) (inodeNum : Nat) : Prop where
  nodup : (view.owned inodeNum).Nodup
  held : ∀ blockId ∈ view.owned inodeNum, blockId ∈ view.held .block
  outside : ∀ blockId ∈ view.owned inodeNum, blockId ∉ reserved

/-- The extents depend on the inode and the blocks of its tree. -/
theorem extents_congr_of_map {view other : View} {inodeNum : Nat}
    (blockData : (other.inode inodeNum).blockData = (view.inode inodeNum).blockData)
    (usesExtents : (other.inode inodeNum).usesExtents = (view.inode inodeNum).usesExtents)
    (agree : ∀ blockId ∈ view.tree inodeNum, other.data blockId = view.data blockId) :
    other.extents inodeNum = view.extents inodeNum ∧
      other.tree inodeNum = view.tree inodeNum := by
  obtain ⟨parseEq, blocksEq⟩ := tree_congr agree
  constructor
  · rw [extents, extents, blockData, usesExtents, parseEq]
  · rw [tree, tree, blockData, treeBlocks, blocksEq, treeBlocks]

theorem extents_congr {view other : View} {inodeNum : Nat}
    (sameInode : other.inode inodeNum = view.inode inodeNum)
    (agree : ∀ blockId ∈ view.tree inodeNum, other.data blockId = view.data blockId) :
    other.extents inodeNum = view.extents inodeNum ∧
      other.tree inodeNum = view.tree inodeNum :=
  extents_congr_of_map (by rw [sameInode]) (by rw [sameInode]) agree

/-- The cached extents of an inode, if any, are those on disk. -/
def Coherent (view : View) (inodeNum : Nat) : Prop :=
  ∀ extents, view.extentsCache[inodeNum]? = some extents → extents = view.extents inodeNum

/-- Nothing that belongs to an inode has changed. -/
structure Unchanged (view after : View) (inodeNum : Nat) : Prop where
  inode : after.inode inodeNum = view.inode inodeNum
  data : ∀ blockId ∈ view.owned inodeNum, after.data blockId = view.data blockId
  held : ∀ blockId ∈ view.owned inodeNum, blockId ∈ view.held .block →
    blockId ∈ after.held .block

namespace Unchanged

variable {view after : View} {inodeNum : Nat} (unchanged : Unchanged view after inodeNum)

include unchanged

theorem extents_eq : after.extents inodeNum = view.extents inodeNum :=
  (extents_congr unchanged.inode fun blockId blockMem =>
    unchanged.data blockId (mem_owned.mpr (Or.inr blockMem))).1

theorem owned_eq : after.owned inodeNum = view.owned inodeNum := by
  have treeEq := (extents_congr unchanged.inode fun blockId blockMem =>
    unchanged.data blockId (mem_owned.mpr (Or.inr blockMem))).2
  rw [owned, owned, unchanged.extents_eq, treeEq]

theorem owning {reserved : Set Nat} (owning : view.Owning reserved inodeNum) :
    after.Owning reserved inodeNum := by
  constructor
  · rw [unchanged.owned_eq]
    exact owning.nodup
  · intro blockId blockMem
    rw [unchanged.owned_eq] at blockMem
    exact unchanged.held blockId blockMem (owning.held blockId blockMem)
  · intro blockId blockMem
    rw [unchanged.owned_eq] at blockMem
    exact owning.outside blockId blockMem

theorem trans {last : View} (second : Unchanged after last inodeNum) :
    Unchanged view last inodeNum := by
  have sameOwned := unchanged.owned_eq
  refine ⟨second.inode.trans unchanged.inode, ?_, ?_⟩
  · intro blockId blockMem
    rw [second.data blockId (by rw [sameOwned]; exact blockMem), unchanged.data blockId blockMem]
  · intro blockId blockMem isHeld
    exact second.held blockId (by rw [sameOwned]; exact blockMem)
      (unchanged.held blockId blockMem isHeld)

end Unchanged

theorem Unchanged.refl (view : View) (inodeNum : Nat) : Unchanged view view inodeNum :=
  ⟨rfl, fun _ _ => rfl, fun _ _ isHeld => isHeld⟩

/-- Entries of a cache are dropped or kept. -/
def CacheShrinks {β : Type} (keep : Nat → Prop) (cache after : Std.TreeMap Nat β) : Prop :=
  ∀ key, keep key → ∀ value, after[key]? = some value → cache[key]? = some value

/-- A step that changes one inode, its own blocks and free blocks. -/
structure FileStep (reserved : Set Nat) (inodeNum : Nat) (view after : View) : Prop where
  fs : after.fs = view.fs
  heldInodes : after.held .inode = view.held .inode
  inodes : ∀ other, view.fs.IsInode other → other ≠ inodeNum →
    after.inode other = view.inode other
  held : ∀ blockId ∈ view.held .block, blockId ∉ view.owned inodeNum →
    blockId ∈ after.held .block
  data : ∀ blockId ∈ view.held .block, blockId ∉ view.owned inodeNum → blockId ∉ reserved →
    after.data blockId = view.data blockId
  owned : ∀ blockId ∈ after.owned inodeNum, blockId ∈ view.owned inodeNum ∨
    blockId ∉ view.held .block
  owning : after.Owning reserved inodeNum
  coherent : after.Coherent inodeNum
  extentsCache : CacheShrinks (· ≠ inodeNum) view.extentsCache after.extentsCache
  dirIndexCache : CacheShrinks (fun _ => True) view.dirIndexCache after.dirIndexCache

/-- The blocks in use change by exactly the blocks of one inode. -/
def Exchanges (inodeNum : Nat) (view after : View) : Prop :=
  ∀ blockId, blockId ∈ after.held .block ↔
    (blockId ∈ view.held .block ∧ blockId ∉ view.owned inodeNum) ∨
      blockId ∈ after.owned inodeNum

section Steps

variable {reserved : Set Nat} {inodeNum : Nat} {view after last : View}

theorem FileStep.trans (first : FileStep reserved inodeNum view after)
    (second : FileStep reserved inodeNum after last) :
    FileStep reserved inodeNum view last := by
  have notOwned {blockId : Nat} (isHeld : blockId ∈ view.held .block)
      (notMem : blockId ∉ view.owned inodeNum) : blockId ∉ after.owned inodeNum := by
    intro blockMem
    rcases first.owned blockId blockMem with isOld | isFree
    · exact notMem isOld
    · exact isFree isHeld
  constructor
  · exact second.fs.trans first.fs
  · exact second.heldInodes.trans first.heldInodes
  · intro other isInode different
    rw [second.inodes other (by rw [first.fs]; exact isInode) different,
      first.inodes other isInode different]
  · intro blockId isHeld notMem
    exact second.held blockId (first.held blockId isHeld notMem) (notOwned isHeld notMem)
  · intro blockId isHeld notMem outside
    rw [second.data blockId (first.held blockId isHeld notMem) (notOwned isHeld notMem) outside,
      first.data blockId isHeld notMem outside]
  · intro blockId blockMem
    rcases second.owned blockId blockMem with isMiddle | isFree
    · exact first.owned blockId isMiddle
    · by_cases isOld : blockId ∈ view.owned inodeNum
      · exact Or.inl isOld
      · exact Or.inr fun isHeld => isFree (first.held blockId isHeld isOld)
  · exact second.owning
  · exact second.coherent
  · intro key different value found
    exact first.extentsCache key different value (second.extentsCache key different value found)
  · intro key different value found
    exact first.dirIndexCache key different value (second.dirIndexCache key different value found)

theorem FileStep.mounted (step : FileStep reserved inodeNum view after)
    (mounted : view.Mounted reserved) (owning : view.Owning reserved inodeNum) :
    after.Mounted reserved := by
  refine ⟨by rw [step.fs]; exact mounted.geometry, by rw [step.fs]; exact mounted.small,
    by rw [step.fs]; exact mounted.layout, ?_⟩
  intro blockId isReserved
  exact step.held blockId (mounted.reserved blockId isReserved)
    fun blockMem => owning.outside blockId blockMem isReserved

/-- Every other inode is left alone. -/
theorem FileStep.unchanged (step : FileStep reserved inodeNum view after) {other : Nat}
    (isInode : view.fs.IsInode other) (different : other ≠ inodeNum)
    (owning : view.Owning reserved other)
    (disjoint : List.Disjoint (view.owned other) (view.owned inodeNum)) :
    Unchanged view after other := by
  refine ⟨step.inodes other isInode different, ?_, ?_⟩
  · intro blockId blockMem
    exact step.data blockId (owning.held blockId blockMem)
      (fun isOwned => disjoint blockMem isOwned) (owning.outside blockId blockMem)
  · intro blockId blockMem isHeld
    exact step.held blockId isHeld fun isOwned => disjoint blockMem isOwned

/-- New blocks of the inode were free, so they belong to no other inode. -/
theorem FileStep.disjoint (step : FileStep reserved inodeNum view after) {other : Nat}
    (owning : view.Owning reserved other)
    (disjoint : List.Disjoint (view.owned other) (view.owned inodeNum)) :
    List.Disjoint (view.owned other) (after.owned inodeNum) := by
  intro blockId isOther isOwned
  rcases step.owned blockId isOwned with isOld | isFree
  · exact disjoint isOther isOld
  · exact isFree (owning.held blockId isOther)

theorem Exchanges.trans (first : Exchanges inodeNum view after)
    (second : Exchanges inodeNum after last)
    (firstStep : FileStep reserved inodeNum view after) :
    Exchanges inodeNum view last := by
  intro blockId
  rw [second blockId, first blockId]
  constructor
  · rintro (⟨isOld | isNew, notMem⟩ | isLast)
    · exact Or.inl isOld
    · exact absurd isNew notMem
    · exact Or.inr isLast
  · rintro (⟨isHeld, notMem⟩ | isLast)
    · refine Or.inl ⟨Or.inl ⟨isHeld, notMem⟩, ?_⟩
      intro isNew
      rcases firstStep.owned blockId isNew with isOld | isFree
      · exact notMem isOld
      · exact isFree isHeld
    · exact Or.inr isLast

theorem Exchanges.of_same (owning : view.Owning reserved inodeNum)
    (sameHeld : after.held .block = view.held .block)
    (sameOwned : after.owned inodeNum = view.owned inodeNum) :
    Exchanges inodeNum view after := by
  intro blockId
  rw [sameHeld, sameOwned]
  constructor
  · intro isHeld
    by_cases isOwned : blockId ∈ view.owned inodeNum
    · exact Or.inr isOwned
    · exact Or.inl ⟨isHeld, isOwned⟩
  · rintro (⟨isHeld, _⟩ | isOwned)
    · exact isHeld
    · exact owning.held blockId isOwned

/-- A step that leaves the inode and its tree alone and takes blocks without
giving any back. -/
theorem FileStep.of_data (mounted : view.Mounted reserved) (isInode : view.fs.IsInode inodeNum)
    (owning : view.Owning reserved inodeNum) (coherent : view.Coherent inodeNum)
    (sameFs : after.fs = view.fs) (sameInodes : after.held .inode = view.held .inode)
    (grows : ∀ blockId ∈ view.held .block, blockId ∈ after.held .block)
    (sameData : ∀ blockId ∈ view.held .block,
      blockId ∉ dataBlocks (view.extents inodeNum) → after.data blockId = view.data blockId)
    (extentsCache : after.extentsCache = view.extentsCache)
    (dirIndexCache : after.dirIndexCache = view.dirIndexCache) :
    FileStep reserved inodeNum view after ∧ after.inode inodeNum = view.inode inodeNum ∧
      after.extents inodeNum = view.extents inodeNum ∧
      after.tree inodeNum = view.tree inodeNum := by
  have reservedKept (blockId : Nat) (isReserved : blockId ∈ reserved) :
      after.data blockId = view.data blockId :=
    sameData blockId (mounted.reserved blockId isReserved) fun blockMem =>
      owning.outside blockId (mem_owned.mpr (Or.inl blockMem)) isReserved
  have sameInode (other : Nat) (isOther : view.fs.IsInode other) :
      after.inode other = view.inode other :=
    inode_congr mounted.layout mounted.geometry isOther sameFs reservedKept
  have treeKept (blockId : Nat) (blockMem : blockId ∈ view.tree inodeNum) :
      after.data blockId = view.data blockId := by
    apply sameData blockId (owning.held blockId (mem_owned.mpr (Or.inr blockMem)))
    intro isData
    exact (List.nodup_append.mp owning.nodup).2.2 blockId isData blockId blockMem rfl
  obtain ⟨extentsEq, treeEq⟩ := extents_congr (sameInode inodeNum isInode) treeKept
  have ownedEq : after.owned inodeNum = view.owned inodeNum := by
    rw [View.owned, View.owned, extentsEq, treeEq]
  refine ⟨?_, sameInode inodeNum isInode, extentsEq, treeEq⟩
  constructor
  · exact sameFs
  · exact sameInodes
  · intro other isOther _
    exact sameInode other isOther
  · intro blockId isHeld _
    exact grows blockId isHeld
  · intro blockId isHeld notMem _
    exact sameData blockId isHeld fun isData => notMem (mem_owned.mpr (Or.inl isData))
  · intro blockId blockMem
    rw [ownedEq] at blockMem
    exact Or.inl blockMem
  · refine ⟨by rw [ownedEq]; exact owning.nodup, ?_, by rw [ownedEq]; exact owning.outside⟩
    intro blockId blockMem
    rw [ownedEq] at blockMem
    exact grows blockId (owning.held blockId blockMem)
  · intro extents found
    rw [extentsCache] at found
    rw [extentsEq]
    exact coherent extents found
  · intro key _ value found
    rwa [extentsCache] at found
  · intro key _ value found
    rwa [dirIndexCache] at found

/-- A step that takes blocks and changes nothing that was in use. -/
theorem FileStep.of_frame (mounted : view.Mounted reserved) (isInode : view.fs.IsInode inodeNum)
    (owning : view.Owning reserved inodeNum) (coherent : view.Coherent inodeNum)
    (sameFs : after.fs = view.fs) (sameInodes : after.held .inode = view.held .inode)
    (grows : ∀ blockId ∈ view.held .block, blockId ∈ after.held .block)
    (sameData : ∀ blockId ∈ view.held .block, after.data blockId = view.data blockId)
    (extentsCache : after.extentsCache = view.extentsCache)
    (dirIndexCache : after.dirIndexCache = view.dirIndexCache) :
    FileStep reserved inodeNum view after ∧ Unchanged view after inodeNum := by
  obtain ⟨step, sameInode, _, _⟩ := FileStep.of_data mounted isInode owning coherent sameFs
    sameInodes grows (fun blockId isHeld _ => sameData blockId isHeld) extentsCache dirIndexCache
  exact ⟨step, sameInode, fun blockId blockMem => sameData blockId (owning.held blockId blockMem),
    fun blockId _ isHeld => grows blockId isHeld⟩

/-- Replacing an inode by one with the same tree. -/
theorem FileStep.of_putInode (mounted : view.Mounted reserved)
    (isInode : view.fs.IsInode inodeNum) (owning : view.Owning reserved inodeNum)
    (coherent : view.Coherent inodeNum) {inode : Ext4Inode}
    (blockData : inode.blockData = (view.inode inodeNum).blockData)
    (usesExtents : inode.usesExtents = (view.inode inodeNum).usesExtents) :
    FileStep reserved inodeNum view (view.putInode inodeNum inode) ∧
      (view.putInode inodeNum inode).inode inodeNum = inode ∧
      (view.putInode inodeNum inode).extents inodeNum = view.extents inodeNum ∧
      (view.putInode inodeNum inode).owned inodeNum = view.owned inodeNum := by
  have inodeEq := inode_putInode_same mounted.layout mounted.geometry isInode inode
  have data {blockId : Nat} (outside : blockId ∉ reserved) :=
    data_putInode mounted.layout mounted.geometry isInode inode outside
  obtain ⟨parseEq, blocksEq⟩ := @tree_congr view.data (view.putInode inodeNum inode).data
    (view.inode inodeNum).blockData (fun blockId blockMem =>
      data (owning.outside blockId (mem_owned.mpr (Or.inr blockMem))))
  have extentsEq : (view.putInode inodeNum inode).extents inodeNum = view.extents inodeNum := by
    rw [View.extents, View.extents, inodeEq, blockData, usesExtents, parseEq]
  have treeEq : (view.putInode inodeNum inode).tree inodeNum = view.tree inodeNum := by
    rw [View.tree, View.tree, inodeEq, blockData, treeBlocks, blocksEq, treeBlocks]
  have ownedEq : (view.putInode inodeNum inode).owned inodeNum = view.owned inodeNum := by
    rw [View.owned, View.owned, extentsEq, treeEq]
  refine ⟨?_, inodeEq, extentsEq, ownedEq⟩
  constructor
  · rfl
  · rfl
  · intro other isOther different
    exact inode_putInode_of_ne mounted.layout mounted.geometry isInode inode isOther different
  · intro blockId isHeld _
    exact isHeld
  · intro blockId _ _ outside
    exact data outside
  · intro blockId blockMem
    rw [ownedEq] at blockMem
    exact Or.inl blockMem
  · exact ⟨by rw [ownedEq]; exact owning.nodup, by rw [ownedEq]; exact owning.held,
      by rw [ownedEq]; exact owning.outside⟩
  · intro cached found
    rw [extentsEq]
    exact coherent cached found
  · intro key _ value found
    exact found
  · intro key _ value found
    exact found

/-- A step may end with a change of the caches. -/
theorem FileStep.withCaches (step : FileStep reserved inodeNum view after)
    {extentsCache : Std.TreeMap Nat (List Ext4Extent)}
    (shrinks : CacheShrinks (· ≠ inodeNum) after.extentsCache extentsCache)
    (coherent : ∀ extents, extentsCache[inodeNum]? = some extents →
      extents = after.extents inodeNum) :
    FileStep reserved inodeNum view { after with extentsCache := extentsCache } := by
  refine ⟨step.fs, step.heldInodes, step.inodes, step.held, step.data, step.owned, ?_, coherent,
    ?_, step.dirIndexCache⟩
  · exact ⟨step.owning.nodup, step.owning.held, step.owning.outside⟩
  · intro key different value found
    exact step.extentsCache key different value (shrinks key different value found)

end Steps

end View

end Ext4

end OSWorkspace
