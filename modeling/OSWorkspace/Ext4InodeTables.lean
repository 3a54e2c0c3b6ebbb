import OSWorkspace.Ext4Files
import OSWorkspace.Ext4VolumeViews

/-!
# Inodes of a view

The inode tables of all groups as one map from inode numbers to inode
structures.  With inodes of at least 256 bytes the structures do not overlap,
so that a write of one inode is seen at no other number.
-/

namespace OSWorkspace

namespace Ext4

open Exec

namespace Ext4FileSystem

def inodesPerBlock (fs : Ext4FileSystem) : Nat :=
  fs.superblock.blockSize / fs.superblock.inodeSize

/-- The block lies in the inode table of a group. -/
def InTable (fs : Ext4FileSystem) (group blockId : Nat) : Prop :=
  ∃ desc, fs.groupDescs[group]? = some desc ∧ desc.inodeTable fs.is64bit ≤ blockId ∧
    blockId ≤ desc.inodeTable fs.is64bit +
      (fs.superblock.inodesPerGroup - 1) / fs.inodesPerBlock

/-- The handle of an inode. -/
def handle (fs : Ext4FileSystem) (inodeNum : Nat) : Inode :=
  let position := (fs.getInodePos inodeNum).getD (0, 0)
  ⟨inodeNum, position.1, position.2⟩

end Ext4FileSystem

/-- The reserved blocks contain block 0, the bitmaps and the inode tables;
tables overlap neither each other nor a bitmap; inodes have at least the 256
bytes of the structure. -/
structure Layout (fs : Ext4FileSystem) (reserved : Set Nat) : Prop where
  blockSize : fs.superblock.blockSize = blockSz
  inodeSize : inodeStructSize ≤ fs.superblock.inodeSize ∧ fs.superblock.inodeSize ≤ blockSz
  zero : 0 ∈ reserved
  bitmaps : ∀ blockId, fs.IsBitmap blockId → blockId ∈ reserved
  tables : ∀ group blockId, fs.InTable group blockId →
    blockId ∈ reserved ∧ ¬ fs.IsBitmap blockId
  apart : ∀ first second blockId, fs.InTable first blockId → fs.InTable second blockId →
    first = second

/-- A number of an inode in some group. -/
def Ext4FileSystem.IsInode (fs : Ext4FileSystem) (inodeNum : Nat) : Prop :=
  1 ≤ inodeNum ∧ inodeNum ≤ fs.superblock.inodesPerGroup * fs.groupDescs.length

theorem View.isInode_iff {view : View} {inodeNum : Nat} :
    view.IsItem .inode inodeNum ↔ view.fs.IsInode inodeNum := by
  simp only [View.IsItem, Volume.IsItem, Resource.firstItem, Volume.itemCount,
    Ext4FileSystem.IsInode]
  omega

section Positions

variable {fs : Ext4FileSystem}

/-- Blocks hold whole inode slots, and the inode tables do not overlap. -/
structure InodeSlots (fs : Ext4FileSystem) : Prop where
  blockSize : fs.superblock.blockSize = blockSz
  inodeSize : 1 ≤ fs.superblock.inodeSize ∧ fs.superblock.inodeSize ≤ blockSz
  apart : ∀ first second blockId, fs.InTable first blockId → fs.InTable second blockId →
    first = second

namespace InodeSlots

theorem inodesPerBlock_pos (slots : InodeSlots fs) : 1 ≤ fs.inodesPerBlock := by
  obtain ⟨lower, upper⟩ := slots.inodeSize
  rw [Ext4FileSystem.inodesPerBlock, slots.blockSize]
  exact Nat.div_pos upper lower

theorem inodesPerGroup_pos {inodeNum : Nat} (isInode : fs.IsInode inodeNum) :
    1 ≤ fs.superblock.inodesPerGroup := by
  obtain ⟨lower, upper⟩ := isInode
  by_contra none
  have zero : fs.superblock.inodesPerGroup = 0 := by omega
  rw [zero, Nat.zero_mul] at upper
  omega

theorem group_lt {inodeNum : Nat} (isInode : fs.IsInode inodeNum) :
    (inodeNum - 1) / fs.superblock.inodesPerGroup < fs.groupDescs.length := by
  have positive := inodesPerGroup_pos isInode
  obtain ⟨lower, upper⟩ := isInode
  rw [Nat.div_lt_iff_lt_mul positive, Nat.mul_comm]
  omega

/-- The position of an inode by group, block of the table and slot. -/
theorem getInodePos_eq (slots : InodeSlots fs) {inodeNum : Nat} (isInode : fs.IsInode inodeNum)
    (small : inodeNum < 2 ^ 32) :
    ∃ desc, fs.groupDescs[(inodeNum - 1) / fs.superblock.inodesPerGroup]? = some desc ∧
      fs.getInodePos inodeNum = some
        (desc.inodeTable fs.is64bit +
            (inodeNum - 1) % fs.superblock.inodesPerGroup / fs.inodesPerBlock,
          (inodeNum - 1) % fs.superblock.inodesPerGroup % fs.inodesPerBlock *
            fs.superblock.inodeSize) := by
  have positive := inodesPerGroup_pos isInode
  have groupLt := group_lt isInode
  have perBlock := slots.inodesPerBlock_pos
  have sizePositive := slots.inodeSize.1
  have lower := isInode.1
  have index : (inodeNum + 2 ^ 32 - 1) % 2 ^ 32 = inodeNum - 1 := by omega
  refine ⟨fs.groupDescs[(inodeNum - 1) / fs.superblock.inodesPerGroup],
    List.getElem?_eq_getElem groupLt, ?_⟩
  simp only [Ext4FileSystem.inodesPerBlock] at perBlock ⊢
  simp only [Ext4FileSystem.getInodePos, index]
  rw [if_neg (by omega), List.getElem?_eq_getElem groupLt]
  rfl

/-- A slot lies inside its block. -/
theorem offset_fits (slots : InodeSlots fs) {slot : Nat} (slotLt : slot < fs.inodesPerBlock) :
    slot * fs.superblock.inodeSize + fs.superblock.inodeSize ≤ blockSz := by
  have whole : fs.inodesPerBlock * fs.superblock.inodeSize ≤ blockSz := by
    rw [Ext4FileSystem.inodesPerBlock, slots.blockSize]
    exact Nat.div_mul_le_self _ _
  have next : (slot + 1) * fs.superblock.inodeSize ≤
      fs.inodesPerBlock * fs.superblock.inodeSize := Nat.mul_le_mul_right _ slotLt
  have split : (slot + 1) * fs.superblock.inodeSize =
      slot * fs.superblock.inodeSize + fs.superblock.inodeSize := by ring
  omega

theorem handle_inTable (slots : InodeSlots fs) {inodeNum : Nat} (isInode : fs.IsInode inodeNum)
    (small : inodeNum < 2 ^ 32) :
    fs.InTable ((inodeNum - 1) / fs.superblock.inodesPerGroup) (fs.handle inodeNum).blockId := by
  obtain ⟨desc, found, position⟩ := slots.getInodePos_eq isInode small
  have localLt := Nat.mod_lt (inodeNum - 1) (inodesPerGroup_pos isInode)
  have blockLe : (inodeNum - 1) % fs.superblock.inodesPerGroup / fs.inodesPerBlock ≤
      (fs.superblock.inodesPerGroup - 1) / fs.inodesPerBlock :=
    Nat.div_le_div_right (by omega)
  simp only [Ext4FileSystem.handle, position, Option.getD_some]
  exact ⟨desc, found, Nat.le_add_right _ _, Nat.add_le_add_left blockLe _⟩

/-- A handle points to a slot. -/
theorem handle_slot (slots : InodeSlots fs) {inodeNum : Nat} (isInode : fs.IsInode inodeNum)
    (small : inodeNum < 2 ^ 32) :
    fs.getInodePos inodeNum = some ((fs.handle inodeNum).blockId,
        (fs.handle inodeNum).blockOffset) ∧
      (fs.handle inodeNum).blockOffset + fs.superblock.inodeSize ≤ blockSz := by
  obtain ⟨desc, found, position⟩ := slots.getInodePos_eq isInode small
  simp only [Ext4FileSystem.handle, position, Option.getD_some]
  exact ⟨trivial, slots.offset_fits (Nat.mod_lt _ slots.inodesPerBlock_pos)⟩

/-- Slots of different inodes in one block do not overlap. -/
theorem handle_apart (slots : InodeSlots fs) {first second : Nat} (isFirst : fs.IsInode first)
    (isSecond : fs.IsInode second) (firstSmall : first < 2 ^ 32) (secondSmall : second < 2 ^ 32)
    (different : first ≠ second)
    (sameBlock : (fs.handle first).blockId = (fs.handle second).blockId) :
    (fs.handle first).blockOffset + fs.superblock.inodeSize ≤ (fs.handle second).blockOffset ∨
      (fs.handle second).blockOffset + fs.superblock.inodeSize ≤
        (fs.handle first).blockOffset := by
  have sameGroup : (first - 1) / fs.superblock.inodesPerGroup =
      (second - 1) / fs.superblock.inodesPerGroup := by
    apply slots.apart _ _ _ (slots.handle_inTable isFirst firstSmall)
    rw [sameBlock]
    exact slots.handle_inTable isSecond secondSmall
  obtain ⟨firstDesc, firstFound, firstPosition⟩ := slots.getInodePos_eq isFirst firstSmall
  obtain ⟨secondDesc, secondFound, secondPosition⟩ := slots.getInodePos_eq isSecond secondSmall
  simp only [Ext4FileSystem.handle, firstPosition, secondPosition, Option.getD_some]
    at sameBlock ⊢
  have sameDesc : firstDesc = secondDesc := by
    rw [sameGroup, secondFound] at firstFound
    exact (Option.some.inj firstFound).symm
  subst sameDesc
  have sameQuotient := Nat.add_left_cancel sameBlock
  have differentSlot : (first - 1) % fs.superblock.inodesPerGroup % fs.inodesPerBlock ≠
      (second - 1) % fs.superblock.inodesPerGroup % fs.inodesPerBlock := by
    intro sameSlot
    have sameLocal : (first - 1) % fs.superblock.inodesPerGroup =
        (second - 1) % fs.superblock.inodesPerGroup := by
      rw [← Nat.div_add_mod ((first - 1) % fs.superblock.inodesPerGroup) fs.inodesPerBlock,
        sameQuotient, sameSlot, Nat.div_add_mod]
    have sameIndex : first - 1 = second - 1 := by
      rw [← Nat.div_add_mod (first - 1) fs.superblock.inodesPerGroup, sameGroup, sameLocal,
        Nat.div_add_mod]
    have firstLower := isFirst.1
    have secondLower := isSecond.1
    omega
  have step {low high : Nat} (less : low < high) :
      low * fs.superblock.inodeSize + fs.superblock.inodeSize ≤
        high * fs.superblock.inodeSize := by
    have next : (low + 1) * fs.superblock.inodeSize ≤ high * fs.superblock.inodeSize :=
      Nat.mul_le_mul_right _ less
    have split : (low + 1) * fs.superblock.inodeSize =
        low * fs.superblock.inodeSize + fs.superblock.inodeSize := by ring
    omega
  rcases Nat.lt_or_gt_of_ne differentSlot with less | less
  · exact Or.inl (step less)
  · exact Or.inr (step less)

end InodeSlots

namespace Layout

variable {reserved : Set Nat}

theorem inodeSlots (layout : Layout fs reserved) : InodeSlots fs where
  blockSize := layout.blockSize
  inodeSize := ⟨Nat.le_trans (by decide) layout.inodeSize.1, layout.inodeSize.2⟩
  apart := layout.apart

theorem isInode_small (geometry : Geometry fs) {inodeNum : Nat}
    (isInode : fs.IsInode inodeNum) : inodeNum < 2 ^ 32 :=
  Nat.lt_of_le_of_lt isInode.2 geometry.inodes

/-- A handle points into a table block. -/
theorem handle_spec (layout : Layout fs reserved) (geometry : Geometry fs)
    {inodeNum : Nat} (isInode : fs.IsInode inodeNum) :
    fs.getInodePos inodeNum = some ((fs.handle inodeNum).blockId,
        (fs.handle inodeNum).blockOffset) ∧
      (fs.handle inodeNum).blockId ∈ reserved ∧ ¬ fs.IsBitmap (fs.handle inodeNum).blockId ∧
      (fs.handle inodeNum).blockOffset + inodeStructSize ≤ blockSz := by
  have small := isInode_small geometry isInode
  obtain ⟨position, fits⟩ := layout.inodeSlots.handle_slot isInode small
  have inside := layout.tables _ _ (layout.inodeSlots.handle_inTable isInode small)
  have large := layout.inodeSize.1
  exact ⟨position, inside.1, inside.2, by omega⟩

/-- Different inodes in one block lie at least a structure apart. -/
theorem handle_apart (layout : Layout fs reserved) (geometry : Geometry fs)
    {first second : Nat} (isFirst : fs.IsInode first) (isSecond : fs.IsInode second)
    (different : first ≠ second)
    (sameBlock : (fs.handle first).blockId = (fs.handle second).blockId) :
    (fs.handle first).blockOffset + inodeStructSize ≤ (fs.handle second).blockOffset ∨
      (fs.handle second).blockOffset + inodeStructSize ≤ (fs.handle first).blockOffset := by
  have large := layout.inodeSize.1
  rcases layout.inodeSlots.handle_apart isFirst isSecond (isInode_small geometry isFirst)
    (isInode_small geometry isSecond) different sameBlock with before | behind
  · exact Or.inl (by omega)
  · exact Or.inr (by omega)

end Layout

end Positions

namespace View

def inode (view : View) (inodeNum : Nat) : Ext4Inode :=
  (view.data (view.fs.handle inodeNum).blockId).extract (view.fs.handle inodeNum).blockOffset
    inodeStructSize

def putInode (view : View) (inodeNum : Nat) (inode : Ext4Inode) : View :=
  let self := view.fs.handle inodeNum
  view.put self.blockId ((view.data self.blockId).paste self.blockOffset inode)

theorem inode_withExtentsCache (view : View) (cache : Std.TreeMap Nat (List Ext4Extent))
    (inodeNum : Nat) : View.inode { view with extentsCache := cache } inodeNum =
      view.inode inodeNum :=
  rfl

section PutInode

variable {view : View} {reserved : Set Nat} (layout : Layout view.fs reserved)
  (geometry : Geometry view.fs) {inodeNum : Nat} (isInode : view.fs.IsInode inodeNum)

include layout geometry isInode

theorem inode_putInode_same (inode : Ext4Inode) :
    (view.putInode inodeNum inode).inode inodeNum = inode := by
  obtain ⟨_, _, _, fits⟩ := layout.handle_spec geometry isInode
  simp only [View.inode, View.putInode, View.put, Function.update_self]
  exact Bytes.extract_paste _ _ fits

theorem inode_putInode_of_ne (inode : Ext4Inode) {other : Nat} (isOther : view.fs.IsInode other)
    (different : other ≠ inodeNum) :
    (view.putInode inodeNum inode).inode other = view.inode other := by
  simp only [View.inode, View.putInode, View.put]
  by_cases sameBlock : (view.fs.handle other).blockId = (view.fs.handle inodeNum).blockId
  · have apart := layout.handle_apart geometry isOther isInode different sameBlock
    rw [sameBlock, Function.update_self]
    exact Bytes.extract_overlay_outside _ _ apart
  · rw [Function.update_of_ne sameBlock]

theorem data_putInode (inode : Ext4Inode) {blockId : Nat} (outside : blockId ∉ reserved) :
    (view.putInode inodeNum inode).data blockId = view.data blockId := by
  obtain ⟨_, isReserved, _, _⟩ := layout.handle_spec geometry isInode
  simp only [View.putInode, View.put]
  rw [Function.update_of_ne]
  rintro rfl
  exact outside isReserved

end PutInode

/-- The inode of a number depends on the data of reserved blocks only. -/
theorem inode_congr {view other : View} {reserved : Set Nat} (layout : Layout view.fs reserved)
    (geometry : Geometry view.fs) {inodeNum : Nat} (isInode : view.fs.IsInode inodeNum)
    (sameFs : other.fs = view.fs)
    (agree : ∀ blockId ∈ reserved, other.data blockId = view.data blockId) :
    other.inode inodeNum = view.inode inodeNum := by
  obtain ⟨_, isReserved, _, _⟩ := layout.handle_spec geometry isInode
  rw [View.inode, View.inode, sameFs, agree _ isReserved]

end View

section Running

variable {volume : Volume} {reserved : Set Nat} (layout : Layout volume.view.fs reserved)
  (geometry : Geometry volume.view.fs) {inodeNum : Nat}
  (isInode : volume.view.fs.IsInode inodeNum)

include layout geometry isInode

theorem view_readDiskInode :
    (volume.view.fs.handle inodeNum).readDiskInode.run volume =
      .ok (volume.view.inode inodeNum) volume := by
  obtain ⟨_, _, outside, fits⟩ := layout.handle_spec geometry isInode
  rw [Inode.readDiskInode, readInodeAt, run_bind_ok (run_readBlock _ _),
    run_bind_ok (run_check fits _), run_pure, View.inode,
    Volume.data_of_not_bitmap outside]

theorem view_writeInodeAt (inode : Ext4Inode) :
    ∃ after, (writeInodeAt (volume.view.fs.handle inodeNum).blockId
        (volume.view.fs.handle inodeNum).blockOffset inode).run volume = .ok () after ∧
      after.view = volume.view.putInode inodeNum inode := by
  obtain ⟨_, _, outside, fits⟩ := layout.handle_spec geometry isInode
  refine ⟨volume.putBlock (volume.view.fs.handle inodeNum).blockId
    ((volume.disk (volume.view.fs.handle inodeNum).blockId).paste
      (volume.view.fs.handle inodeNum).blockOffset inode), ?_, ?_⟩
  · rw [writeInodeAt, run_bind_ok (run_readBlock _ _), run_bind_ok (run_check fits _),
      run_writeBlock]
  · rw [Volume.view_putBlock (Volume.geometry_view.mp geometry) outside, View.putInode,
      Volume.data_of_not_bitmap outside]

theorem view_modifyDiskInode (change : Ext4Inode → Ext4Inode) :
    ∃ after, ((volume.view.fs.handle inodeNum).modifyDiskInode change).run volume =
        .ok () after ∧
      after.view = volume.view.putInode inodeNum (change (volume.view.inode inodeNum)) := by
  rw [Inode.modifyDiskInode, run_bind_ok (view_readDiskInode layout geometry isInode)]
  exact view_writeInodeAt layout geometry isInode _

theorem view_writeInode (inode : Ext4Inode) :
    ∃ after, (writeInode inodeNum inode).run volume = .ok () after ∧
      after.view = volume.view.putInode inodeNum inode := by
  obtain ⟨position, _, _, _⟩ := layout.handle_spec geometry isInode
  have found : volume.fs.getInodePos inodeNum = some _ := position
  obtain ⟨after, ran, afterView⟩ := view_writeInodeAt layout geometry isInode inode
  refine ⟨after, ?_, afterView⟩
  rw [writeInode, run_bind_ok (run_get _), found, run_bind_ok (run_expect_some _ _)]
  exact ran

end Running

end Ext4

end OSWorkspace
