import OSWorkspace.Ext4DirectoryLookups
import OSWorkspace.Ext4FailedGrowth

/-!
# Entering names

Entering a name looks it up, fills a slot of a block of the directory or
appends a block.  This file says from the state before which of these happens,
when an error is returned, and what is left behind then.
-/

namespace OSWorkspace

namespace Ext4

open Exec View

/-- The block allocator is in the same state. -/
structure SameAllocator (volume other : Volume) : Prop where
  superblock : other.fs.superblock = volume.fs.superblock
  groupDescs : other.fs.groupDescs = volume.fs.groupDescs
  is64bit : other.fs.is64bit = volume.fs.is64bit
  cursor : other.fs.nextAllocBlock = volume.fs.nextAllocBlock
  bitmaps : ∀ group blockId, volume.blockBitmapOf group = some blockId →
    other.disk blockId = volume.disk blockId

/-- Searching finds the same bit in the same blocks. -/
theorem searchGroups_congr (bitmapBlock : Nat → Option Nat) (startBit totalBits : Nat → Nat)
    (groups : List Nat) {volume other : Volume}
    (agree : ∀ group blockId, bitmapBlock group = some blockId →
      other.disk blockId = volume.disk blockId) :
    ((searchGroups bitmapBlock startBit totalBits groups).run volume = .panic ∧
        (searchGroups bitmapBlock startBit totalBits groups).run other = .panic) ∨
      ((searchGroups bitmapBlock startBit totalBits groups).run volume = .ok none volume ∧
        (searchGroups bitmapBlock startBit totalBits groups).run other = .ok none other) ∨
      ∃ found blockId block,
        (searchGroups bitmapBlock startBit totalBits groups).run volume =
            .ok (some found) (volume.putBlock blockId block) ∧
          (searchGroups bitmapBlock startBit totalBits groups).run other =
            .ok (some found) (other.putBlock blockId block) := by
  induction groups with
  | nil => exact Or.inr (Or.inl ⟨rfl, rfl⟩)
  | cons group groups ih =>
      rw [searchGroups]
      cases listed : bitmapBlock group with
      | none => exact Or.inl ⟨run_bind_panic rfl, run_bind_panic rfl⟩
      | some blockId =>
          simp only [run_bind_ok (run_expect_some _ _), run_bind_ok (run_readBlock _ _),
            agree group blockId listed]
          cases searched : findAndAllocBitFrom (volume.disk blockId) (startBit group)
              (totalBits group) with
          | none => exact Or.inl ⟨run_bind_panic rfl, run_bind_panic rfl⟩
          | some result =>
              simp only [run_bind_ok (run_expect_some _ _)]
              cases result with
              | none => exact ih
              | some found =>
                  exact Or.inr (Or.inr ⟨(group, found.1), blockId, found.2, rfl, rfl⟩)

theorem searchBothPasses_congr (bitmapBlock : Nat → Option Nat) (totalBits : Nat → Nat)
    (inRange : Nat → Bool) (groups startGroup startLocal : Nat) {volume other : Volume}
    (agree : ∀ group blockId, bitmapBlock group = some blockId →
      other.disk blockId = volume.disk blockId) :
    ((searchBothPasses bitmapBlock totalBits inRange groups startGroup startLocal).run volume =
          .panic ∧
        (searchBothPasses bitmapBlock totalBits inRange groups startGroup startLocal).run other =
          .panic) ∨
      ((searchBothPasses bitmapBlock totalBits inRange groups startGroup startLocal).run volume =
          .ok none volume ∧
        (searchBothPasses bitmapBlock totalBits inRange groups startGroup startLocal).run other =
          .ok none other) ∨
      ∃ found blockId block,
        (searchBothPasses bitmapBlock totalBits inRange groups startGroup startLocal).run volume =
            .ok (some found) (volume.putBlock blockId block) ∧
          (searchBothPasses bitmapBlock totalBits inRange groups startGroup startLocal).run other =
            .ok (some found) (other.putBlock blockId block) := by
  rw [searchBothPasses]
  rcases searchGroups_congr bitmapBlock
      (fun group => if group = startGroup then startLocal else 0) totalBits
      ((List.range' startGroup (groups - startGroup)).takeWhile inRange) agree with
    ⟨first, second⟩ | ⟨first, second⟩ | ⟨found, blockId, block, first, second⟩
  · exact Or.inl ⟨run_bind_panic first, run_bind_panic second⟩
  · rw [run_bind_ok first, run_bind_ok second]
    exact searchGroups_congr bitmapBlock (fun _ => 0) totalBits _ agree
  · rw [run_bind_ok first, run_bind_ok second]
    exact Or.inr (Or.inr ⟨found, blockId, block, rfl, rfl⟩)

namespace SameAllocator

variable {volume other : Volume}

theorem blockBitmapOf_eq (same : SameAllocator volume other) :
    other.blockBitmapOf = volume.blockBitmapOf := by
  funext group
  rw [Volume.blockBitmapOf, Volume.blockBitmapOf, same.groupDescs, same.is64bit]

theorem putBlock (same : SameAllocator volume other) (blockId : Nat) (block : Block) :
    SameAllocator (volume.putBlock blockId block) (other.putBlock blockId block) := by
  refine ⟨same.superblock, same.groupDescs, same.is64bit, same.cursor, ?_⟩
  intro group bitmap listed
  have agree := same.bitmaps group bitmap listed
  by_cases here : bitmap = blockId
  · simp [Volume.putBlock, here]
  · simp [Volume.putBlock, here, agree]

theorem run_allocBlock (same : SameAllocator volume other) :
    (allocBlock.run volume = .panic ∧ allocBlock.run other = .panic) ∨
      (allocBlock.run volume = .ok none volume ∧ allocBlock.run other = .ok none other) ∨
      ∃ item first second, allocBlock.run volume = .ok (some item) first ∧
        allocBlock.run other = .ok (some item) second ∧ SameAllocator first second := by
  rw [allocBlock, run_bind_ok (run_get _), run_bind_ok (run_get _), same.superblock,
    same.groupDescs, same.blockBitmapOf_eq, same.cursor]
  by_cases positive : volume.fs.superblock.blocksPerGroup ≠ 0
  · rw [run_bind_ok (run_check positive _), run_bind_ok (run_check positive _)]
    simp only
    rcases searchBothPasses_congr volume.blockBitmapOf
        (fun group => min (volume.fs.superblock.blocksCount -
          (volume.fs.superblock.firstDataBlock + group * volume.fs.superblock.blocksPerGroup))
          volume.fs.superblock.blocksPerGroup)
        (fun group => volume.fs.superblock.firstDataBlock +
          group * volume.fs.superblock.blocksPerGroup < volume.fs.superblock.blocksCount)
        volume.fs.groupDescs.length
        ((max volume.fs.nextAllocBlock volume.fs.superblock.firstDataBlock -
          volume.fs.superblock.firstDataBlock) / volume.fs.superblock.blocksPerGroup)
        ((max volume.fs.nextAllocBlock volume.fs.superblock.firstDataBlock -
          volume.fs.superblock.firstDataBlock) % volume.fs.superblock.blocksPerGroup)
        same.bitmaps with
      ⟨first, second⟩ | ⟨first, second⟩ | ⟨found, blockId, block, first, second⟩
    · exact Or.inl ⟨run_bind_panic first, run_bind_panic second⟩
    · rw [run_bind_ok first, run_bind_ok second]
      exact Or.inr (Or.inl ⟨rfl, rfl⟩)
    · rw [run_bind_ok first, run_bind_ok second]
      refine Or.inr (Or.inr ⟨_, _, _, rfl, rfl, ?_⟩)
      have put := same.putBlock blockId block
      exact ⟨put.superblock, put.groupDescs, put.is64bit, rfl, put.bitmaps⟩
  · exact Or.inl ⟨run_bind_panic (run_check_panic positive _),
      run_bind_panic (run_check_panic positive _)⟩

/-- Both states hand out the same blocks, or both panic. -/
theorem handOut_outcome (same : SameAllocator volume other) (count : Nat) :
    ((handOut count).run volume = .panic ∧ (handOut count).run other = .panic) ∨
      ∃ new first second, (handOut count).run volume = .ok new first ∧
        (handOut count).run other = .ok new second ∧ SameAllocator first second := by
  induction count generalizing volume other with
  | zero => exact Or.inr ⟨[], volume, other, rfl, rfl, same⟩
  | succ count ih =>
      rw [handOut]
      rcases same.run_allocBlock with ⟨first, second⟩ | ⟨first, second⟩ |
        ⟨item, firstTaken, secondTaken, first, second, taken⟩
      · exact Or.inl ⟨run_bind_panic first, run_bind_panic second⟩
      · rw [run_bind_ok first, run_bind_ok second]
        exact Or.inr ⟨[], volume, other, rfl, rfl, same⟩
      · rw [run_bind_ok first, run_bind_ok second]
        simp only
        rw [run_bind_ok (run_writeBlock _ _ _), run_bind_ok (run_writeBlock _ _ _)]
        rcases ih (taken.putBlock item .zeroed) with ⟨firstRest, secondRest⟩ |
          ⟨new, firstAfter, secondAfter, firstRest, secondRest, sameAfter⟩
        · exact Or.inl ⟨run_bind_panic firstRest, run_bind_panic secondRest⟩
        · rw [run_bind_ok firstRest, run_bind_ok secondRest]
          exact Or.inr ⟨item :: new, firstAfter, secondAfter, rfl, rfl, sameAfter⟩

theorem handedOut_eq (same : SameAllocator volume other) (count : Nat) :
    handedOut other count = handedOut volume count := by
  rcases same.handOut_outcome count with ⟨first, second⟩ | ⟨_, _, _, first, second, _⟩
  · rw [handedOut, handedOut, first, second]
  · rw [handedOut, handedOut, first, second]

theorem run_handOut (same : SameAllocator volume other) {count : Nat} {new : List Nat}
    {after : Volume} (ran : (handOut count).run other = .ok new after) :
    ∃ last, (handOut count).run volume = .ok new last ∧ SameAllocator last after := by
  rcases same.handOut_outcome count with ⟨_, panics⟩ | ⟨_, last, _, first, second, sameAfter⟩
  · rw [ran] at panics
    cases panics
  · rw [ran] at second
    cases second
    exact ⟨last, first, sameAfter⟩

theorem trans {last : Volume} (first : SameAllocator volume other)
    (second : SameAllocator other last) : SameAllocator volume last := by
  refine ⟨second.superblock.trans first.superblock, second.groupDescs.trans first.groupDescs,
    second.is64bit.trans first.is64bit, second.cursor.trans first.cursor, ?_⟩
  intro group blockId listed
  rw [second.bitmaps group blockId (by rw [first.blockBitmapOf_eq]; exact listed),
    first.bitmaps group blockId listed]

/-- A write outside the bitmaps. -/
theorem of_putBlock {blockId : Nat} (outside : ¬ volume.fs.IsBitmap blockId) (block : Block) :
    SameAllocator volume (volume.putBlock blockId block) := by
  refine ⟨rfl, rfl, rfl, rfl, ?_⟩
  intro group bitmap listed
  apply Function.update_of_ne
  rintro rfl
  obtain ⟨desc, found, bitmapEq⟩ := Option.map_eq_some_iff.mp listed
  exact outside ⟨desc, List.mem_of_getElem? found, Or.inl bitmapEq.symm⟩

theorem of_allocInode (geometry : Geometry volume.view.fs) {item : Nat} {after : Volume}
    (ran : allocInode.run volume = .ok (some item) after) : SameAllocator volume after := by
  have geometry := Volume.geometry_view.mp geometry
  rcases run_allocInode geometry with ⟨none, _⟩ | ⟨other, isItem, _, taken⟩
  · rw [ran] at none
    cases none
  · rw [ran] at taken
    cases taken
    refine ⟨rfl, rfl, rfl, rfl, ?_⟩
    intro group bitmap listed
    apply Function.update_of_ne
    rintro rfl
    obtain ⟨desc, found, bitmapEq⟩ := Option.map_eq_some_iff.mp listed
    have groupLt := (List.getElem?_eq_some_iff.mp found).1
    have atBitmap : volume.bitmapAt .block group = volume.bitmapAt .inode
        ((item - Resource.inode.firstItem) / volume.perGroup .inode) := by
      rw [Volume.bitmapAt, Volume.bitmapOf, listed]
      rfl
    exact Resource.noConfusion (Volume.bitmapAt_injective geometry groupLt
      (isItem.group_lt geometry) atBitmap).1

end SameAllocator

theorem Looked.sameAllocator {reserved : Set Nat} {dir : Nat} {volume after : Volume}
    (looked : Looked reserved dir volume after) : SameAllocator volume after := by
  refine ⟨by rw [looked.fs], by rw [looked.fs], by rw [looked.fs], by rw [looked.fs], ?_⟩
  intro group bitmap listed
  obtain ⟨desc, found, bitmapEq⟩ := Option.map_eq_some_iff.mp listed
  exact looked.bitmaps bitmap ⟨desc, List.mem_of_getElem? found, Or.inl bitmapEq.symm⟩

/-- The number of blocks of a directory. -/
def View.blockCount (view : View) (dir : Nat) : Nat := dirBlocks (view.inode dir).size

/-- The map of a directory with one more block. -/
def View.appended (view : View) (dir pblock : Nat) : List Ext4Extent :=
  pushBlockToExtents (view.extents dir) (view.blockCount dir) pblock

namespace View.Directory

variable {reserved : Set Nat} {view : View} {dir : Nat}
  (directory : view.Directory reserved dir)

include directory

theorem size_le : (view.inode dir).size ≤ u32Max * blockSz := by
  by_contra large
  obtain ⟨pblock, extent, extentMem, _, upper, _⟩ := directory.mapped u32Max (by omega)
  have bound := directory.bounded extent extentMem
  omega

theorem lt_blockCount {lblock : Nat} :
    lblock < view.blockCount dir ↔ lblock * blockSz < (view.inode dir).size := by
  have sizeLe := directory.size_le
  simp only [View.blockCount, dirBlocks, blockSz, u32Max] at sizeLe ⊢
  split
  · omega
  · omega

theorem blockCount_le : view.blockCount dir ≤ u32Max := by
  by_contra large
  have inside := directory.lt_blockCount.mp (show u32Max < view.blockCount dir by omega)
  have sizeLe := directory.size_le
  omega

theorem blockCount_le_logicalEnd : view.blockCount dir ≤ logicalEnd (view.extents dir) := by
  by_contra large
  obtain ⟨pblock, extent, extentMem, _, upper, _⟩ := directory.mapped
    (logicalEnd (view.extents dir)) (directory.lt_blockCount.mp (by omega))
  have behind := le_logicalEnd directory.bounded extentMem
  omega

/-- Every block of the directory is mapped, to a block of its own. -/
theorem mapLogicalBlock_eq {lblock : Nat} (inside : lblock < view.blockCount dir) :
    ∃ pblock, mapLogicalBlock (view.extents dir) lblock = some pblock ∧
      Maps (view.extents dir) lblock pblock := by
  obtain ⟨pblock, maps⟩ := directory.mapped lblock (directory.lt_blockCount.mp inside)
  have countLe := directory.blockCount_le
  exact ⟨pblock, mapLogicalBlock_eq_some directory.ordered (by omega) maps, maps⟩

section Appending

variable (endEq : logicalEnd (view.extents dir) = view.blockCount dir)

include endEq

/-- No extent reaches behind the last block of the directory. -/
theorem unmapped_end (pblock : Nat) : ¬ Maps (view.extents dir) (view.blockCount dir) pblock := by
  rintro ⟨extent, extentMem, _, upper, _⟩
  have behind := le_logicalEnd directory.bounded extentMem
  omega

variable (small : view.blockCount dir < u32Max)

include small

theorem extends_appended {pblock : Nat} (pblockSmall : pblock < 2 ^ 48) :
    Extends (view.extents dir) (view.blockCount dir) pblock (view.appended dir pblock) := by
  apply extends_pushBlockToExtents small pblockSmall
  intro extent extentMem
  have behind := le_logicalEnd directory.bounded extentMem
  exact Nat.le_trans (Nat.min_le_left _ _) (by omega)

theorem mapLogicalBlock_appended {pblock : Nat} (pblockSmall : pblock < 2 ^ 48) :
    mapLogicalBlock (view.appended dir pblock) (view.blockCount dir) = some pblock := by
  have extended := directory.extends_appended endEq small pblockSmall
  obtain ⟨other, found⟩ := exists_mapLogicalBlock small
    ((extended.maps (view.blockCount dir) pblock).mpr (Or.inl ⟨rfl, rfl⟩))
  rw [found]
  rcases (extended.maps _ _).mp (maps_of_mapLogicalBlock found) with ⟨_, rfl⟩ | isOld
  · rfl
  · exact absurd isOld (directory.unmapped_end endEq other)

end Appending

end View.Directory

/-- The block that holds an owned block on the disk. -/
theorem disk_of_owned {reserved : Set Nat} {volume : Volume}
    (mounted : volume.view.Mounted reserved) {dir blockId : Nat}
    (owning : volume.view.Owning reserved dir) (isOwned : blockId ∈ volume.view.owned dir) :
    volume.disk blockId = volume.view.data blockId := by
  rw [Volume.data_of_not_bitmap]
  intro isBitmap
  exact owning.outside blockId isOwned (mounted.layout.bitmaps blockId isBitmap)

namespace View

/-- The first slot with room for `need` bytes in the blocks from `lblock` on,
with its block. -/
def findSlotFrom (view : View) (extents : List Ext4Extent) (need : Nat) :
    (count lblock : Nat) → Option (Nat × DirSlot)
  | 0, _ => none
  | count + 1, lblock =>
      match mapLogicalBlock extents lblock with
      | none => none
      | some pblock =>
          match findSlot (view.data pblock) need blockSz 0 with
          | some slot => some (pblock, slot)
          | none => view.findSlotFrom extents need count (lblock + 1)

/-- The slot that a directory has for an entry of `need` bytes. -/
def slotFor (view : View) (dir need : Nat) : Option (Nat × DirSlot) :=
  view.findSlotFrom (view.extents dir) need (view.blockCount dir) 0

theorem findSlotFrom_congr {view other : View} {extents : List Ext4Extent}
    (agree : ∀ blockId ∈ dataBlocks extents, other.data blockId = view.data blockId)
    (need count lblock : Nat) :
    other.findSlotFrom extents need count lblock = view.findSlotFrom extents need count lblock := by
  induction count generalizing lblock with
  | zero => rfl
  | succ count ih =>
      rw [findSlotFrom, findSlotFrom]
      cases mapped : mapLogicalBlock extents lblock with
      | none => rfl
      | some pblock =>
          simp only
          rw [agree pblock (maps_of_mapLogicalBlock mapped).mem_dataBlocks, ih]

theorem Unchanged.slotFor_eq {view after : View} {dir : Nat}
    (unchanged : Unchanged view after dir) (need : Nat) :
    after.slotFor dir need = view.slotFor dir need := by
  rw [slotFor, slotFor, blockCount, blockCount, unchanged.inode, unchanged.extents_eq]
  exact findSlotFrom_congr (fun blockId isData =>
    unchanged.data blockId (mem_owned.mpr (Or.inl isData))) _ _ _

theorem findSlotFrom_eq_some {view : View} {extents : List Ext4Extent} {need : Nat}
    {count lblock pblock : Nat} {slot : DirSlot}
    (found : view.findSlotFrom extents need count lblock = some (pblock, slot)) :
    ∃ l, lblock ≤ l ∧ l < lblock + count ∧ mapLogicalBlock extents l = some pblock ∧
      findSlot (view.data pblock) need blockSz 0 = some slot := by
  induction count generalizing lblock with
  | zero => cases found
  | succ count ih =>
      rw [findSlotFrom] at found
      cases mapped : mapLogicalBlock extents lblock with
      | none =>
          rw [mapped] at found
          cases found
      | some other =>
          rw [mapped] at found
          simp only at found
          cases chosen : findSlot (view.data other) need blockSz 0 with
          | some first =>
              rw [chosen] at found
              cases found
              exact ⟨lblock, Nat.le_refl _, by omega, mapped, chosen⟩
          | none =>
              rw [chosen] at found
              obtain ⟨l, lower, upper, rest⟩ := ih found
              exact ⟨l, by omega, by omega, rest⟩

end View

theorem run_addToBlocks {reserved : Set Nat} {volume : Volume}
    (mounted : volume.view.Mounted reserved) {dir : Nat}
    (directory : volume.view.Directory reserved dir) (need inodeNum : Nat) (fileType : UInt8)
    (name : Str) {count lblock : Nat} (inside : lblock + count ≤ volume.view.blockCount dir) :
    (addToBlocks (volume.view.extents dir) need inodeNum fileType name count lblock).run volume =
      match volume.view.findSlotFrom (volume.view.extents dir) need count lblock with
      | some (pblock, slot) => (do
          fillSlot pblock inodeNum fileType name slot
          return true : Call Bool).run volume
      | none => .ok false volume := by
  induction count generalizing lblock with
  | zero => rfl
  | succ count ih =>
      have countLe := directory.blockCount_le
      obtain ⟨pblock, mapped, maps⟩ :=
        directory.mapLogicalBlock_eq (show lblock < volume.view.blockCount dir by omega)
      have small : lblock % 2 ^ 32 = lblock := Nat.mod_eq_of_lt (by
        simp only [u32Max] at countLe
        omega)
      rw [addToBlocks, findSlotFrom, small, mapped, run_bind_ok (run_okOr_some _ _ _),
        run_bind_ok (run_readBlock _ _),
        disk_of_owned mounted directory.owning (mem_owned.mpr (Or.inl maps.mem_dataBlocks))]
      simp only
      cases findSlot (volume.view.data pblock) need blockSz 0 with
      | some slot => rfl
      | none => exact ih (by omega)

/-- A block with an entry written over a record. -/
def Block.putEntry (block : Block) (entryOff recLen inodeNum : Nat) (fileType : UInt8)
    (name : Str) : Block :=
  (block.store Ext4DirEntry.record entryOff
      { inode := UInt32.ofNat inodeNum, recLen := UInt16.ofNat recLen,
        nameLen := UInt8.ofNat name.len, fileType := fileType }).write
    (entryOff + Ext4DirEntry.fixedSize)
    (name.bytes ++ List.replicate (recLen - Ext4DirEntry.fixedSize - name.len) 0)

section Writing

variable {name : Str} (volume : Volume) (pblock entryOff recLen inodeNum : Nat)
  (fileType : UInt8)

theorem run_dirWriteEntryAt_long (long : ext4NameLen < name.len) :
    (dirWriteEntryAt pblock entryOff recLen inodeNum fileType name).run volume =
      .err .nameTooLong volume := by
  rw [dirWriteEntryAt, if_pos long]
  rfl

theorem run_dirWriteEntryAt (short : name.len ≤ ext4NameLen)
    (room : align4 (Ext4DirEntry.fixedSize + name.len) ≤ recLen) :
    (dirWriteEntryAt pblock entryOff recLen inodeNum fileType name).run volume =
      if entryOff + recLen ≤ blockSz then
        .ok () (volume.putBlock pblock
          (Block.putEntry (volume.disk pblock) entryOff recLen inodeNum fileType name))
      else .panic := by
  rw [dirWriteEntryAt, if_neg (Nat.not_lt.mpr short), if_neg (Nat.not_lt.mpr room)]
  split
  · next inside =>
      rw [run_bind_ok (run_check inside _), run_bind_ok (run_readBlock _ _), run_writeBlock]
      rfl
  · next outside => exact run_bind_panic (run_check_panic outside _)

end Writing

/-- The bytes that a slot offers. -/
def DirSlot.room : DirSlot → Nat
  | .reuse _ recLen => recLen
  | .split _ used recLen => recLen - used

/-- Where the record of a slot ends. -/
def DirSlot.stop : DirSlot → Nat
  | .reuse off recLen => off + recLen
  | .split off _ recLen => off + recLen

theorem findSlot_room {block : Block} {need fuel off : Nat} {slot : DirSlot}
    (found : findSlot block need fuel off = some slot) : need ≤ slot.room := by
  induction fuel generalizing off with
  | zero => cases found
  | succ fuel ih =>
      rw [findSlot] at found
      split at found
      · simp only at found
        split at found
        · cases found
        · split at found
          · next large =>
              cases found
              exact large.2
          · split at found
            · next large =>
                cases found
                simp only [DirSlot.room]
                omega
            · exact ih found
      · cases found

theorem Volume.putBlock_putBlock (volume : Volume) (blockId : Nat) (first second : Block) :
    (volume.putBlock blockId first).putBlock blockId second = volume.putBlock blockId second := by
  simp only [Volume.putBlock, Function.update_idem]

/-- The block with a slot filled. -/
def DirSlot.fill (block : Block) (inodeNum : Nat) (fileType : UInt8) (name : Str) :
    DirSlot → Block
  | .reuse off recLen => Block.putEntry block off recLen inodeNum fileType name
  | .split off used recLen =>
      let entry := block.load Ext4DirEntry.record off
      let shrunk := block.store Ext4DirEntry.record off
        { entry with recLen := UInt16.ofNat used }
      Block.putEntry shrunk (off + used) (recLen - used) inodeNum fileType name

/-- With a short name a slot is filled when it ends inside the block. -/
theorem run_fillSlot (volume : Volume) (pblock inodeNum : Nat) (fileType : UInt8)
    {name : Str} (short : name.len ≤ ext4NameLen) {slot : DirSlot}
    (room : align4 (Ext4DirEntry.fixedSize + name.len) ≤ slot.room) :
    (fillSlot pblock inodeNum fileType name slot).run volume =
      if slot.stop ≤ blockSz then
        .ok () (volume.putBlock pblock (slot.fill (volume.disk pblock) inodeNum fileType name))
      else .panic := by
  cases slot with
  | reuse off recLen => exact run_dirWriteEntryAt volume pblock off recLen inodeNum fileType short room
  | split off used recLen =>
      have stopEq : off + used + (recLen - used) = off + recLen := by
        simp only [DirSlot.room, align4, Ext4DirEntry.fixedSize] at room
        omega
      rw [fillSlot, run_bind_ok (run_readBlock _ _), run_bind_ok (run_writeBlock _ _ _),
        run_dirWriteEntryAt _ pblock (off + used) (recLen - used) inodeNum fileType short room,
        Volume.putBlock_putBlock, stopEq]
      simp only [Volume.putBlock, Function.update_self]
      rfl

/-- With a short name, filling a slot returns no error. -/
theorem run_fillSlot_short (volume : Volume) (pblock inodeNum : Nat) (fileType : UInt8)
    {name : Str} (short : name.len ≤ ext4NameLen) {slot : DirSlot}
    (room : align4 (Ext4DirEntry.fixedSize + name.len) ≤ slot.room) :
    (blockSz < slot.stop ∧ (fillSlot pblock inodeNum fileType name slot).run volume = .panic) ∨
      (slot.stop ≤ blockSz ∧ ∃ block, (fillSlot pblock inodeNum fileType name slot).run volume =
        .ok () (volume.putBlock pblock block)) := by
  rw [run_fillSlot volume pblock inodeNum fileType short room]
  split
  · next inside => exact Or.inr ⟨inside, _, rfl⟩
  · next outside => exact Or.inl ⟨Nat.not_le.mp outside, rfl⟩

/-- The end of appending a block: the entry is written, then the size grows. -/
def finishAppend (self : Inode) (newBlockIndex inodeNum : Nat) (fileType : UInt8) (name : Str)
    (pblock : Nat) : Call Unit := do
  dirWriteEntryAt pblock 0 blockSz inodeNum fileType name
  self.modifyDiskInode (·.setSize ((newBlockIndex + 1) * blockSz))

/-- The last mapped block is the last block of the directory, and another one
can be addressed. -/
def View.EndsMapped (view : View) (dir : Nat) : Prop :=
  logicalEnd (view.extents dir) = view.blockCount dir ∧ view.blockCount dir < u32Max

theorem Looked.reread {reserved : Set Nat} {dir : Nat} {volume middle after : Volume}
    (looked : Looked reserved dir volume middle) (reread : Reread dir middle after) :
    Looked reserved dir volume after := by
  have sameFs : after.fs = middle.fs := by rw [reread.state]
  have sameDisk : after.disk = middle.disk := by rw [reread.state]
  have sameIndexes : after.dirIndexCache = middle.dirIndexCache := by rw [reread.state]
  refine ⟨sameFs.trans looked.fs, by rw [sameDisk]; exact looked.bitmaps,
    by rw [sameDisk]; exact looked.blocks, ?_, ?_, reread.coherent,
    by rw [sameIndexes]; exact looked.index⟩
  · intro other isOther typed
    rw [(reread.unchanged other).inode, looked.inodes other isOther typed]
  · intro other isOther
    rw [(reread.unchanged other).inode]
    exact looked.contents other isOther

section Entering

variable {reserved : Set Nat} {dir : Nat} {volume : Volume}
  (mounted : volume.view.Mounted reserved) (directory : volume.view.Directory reserved dir)

include mounted directory

/-- Enough blocks are mapped. -/
theorem run_ensureBlocks_enough {totalBlocks : Nat}
    (enough : totalBlocks ≤ logicalEnd (volume.view.extents dir)) :
    ∃ after, ((volume.view.fs.handle dir).ensureBlocks totalBlocks).run volume =
        .ok (volume.view.extents dir) after ∧ Reread dir volume after := by
  obtain ⟨after, put, cache, afterView, shrinks, found⟩ :=
    view_extentsCachePut volume dir (volume.view.extents dir)
  have sameCache : after.extentsCache = cache := congrArg View.extentsCache afterView
  refine ⟨after, ?_, ?_, ?_, ?_⟩
  · rw [Inode.ensureBlocks, run_bind_ok (view_currentExtents mounted directory.isInode
      directory.owning directory.coherent)]
    simp only [show totalBlocks ≤ ((volume.view.extents dir).map Ext4Extent.lend).foldl max 0
      from enough, if_true]
    exact run_bind_ok put
  · cases put
    rfl
  · rw [sameCache]
    exact shrinks
  · intro extents cached
    have same : after.view.extents dir = volume.view.extents dir := by
      rw [afterView]
      exact View.extents_withExtentsCache _ _ _
    have cached : after.extentsCache[dir]? = some extents := cached
    rw [sameCache, found] at cached
    cases cached
    exact same.symm

/-- A new name goes into the first slot with room, or into a new block. -/
theorem run_dirAddEntry {name : Str} (nonempty : name.isEmpty = false)
    (absent : (volume.view.dirIndex dir)[name]? = none)
    (fits : align4 (Ext4DirEntry.fixedSize + name.len) ≤ blockSz) (inodeNum : Nat)
    (fileType : UInt8) :
    ∃ middle, Consulted dir volume middle ∧
      ((volume.view.fs.handle dir).dirAddEntry name inodeNum fileType).run volume =
        match volume.view.slotFor dir (align4 (Ext4DirEntry.fixedSize + name.len)) with
        | some (pblock, slot) => (fillSlot pblock inodeNum fileType name slot).run middle
        | none => ((volume.view.fs.handle dir).dirAppendEntry (volume.view.blockCount dir)
            inodeNum fileType name).run middle := by
  obtain ⟨first, ran, consulted⟩ := run_find_absent mounted directory absent
  have looked : Looked reserved dir volume first := consulted.looked
  have firstMounted := looked.mounted mounted
  have firstDirectory := looked.directory mounted directory
  have unchanged := looked.unchanged mounted directory
  have countEq : first.view.blockCount dir = volume.view.blockCount dir := by
    rw [View.blockCount, unchanged.inode, View.blockCount]
  have small : volume.view.blockCount dir % 2 ^ 32 = volume.view.blockCount dir :=
    Nat.mod_eq_of_lt (by
      have countLe := directory.blockCount_le
      simp only [u32Max] at countLe
      omega)
  obtain ⟨middle, ensured, reread⟩ := @run_ensureBlocks_enough reserved dir first firstMounted
    firstDirectory (volume.view.blockCount dir) (by
      rw [← countEq]; exact firstDirectory.blockCount_le_logicalEnd)
  have size := run_size_dir firstMounted firstDirectory
  rw [looked.view_fs] at ensured size
  have middleConsulted := consulted.reread reread
  have middleLooked : Looked reserved dir volume middle := middleConsulted.looked
  have middleUnchanged := middleLooked.unchanged mounted directory
  have added := @run_addToBlocks reserved middle (middleLooked.mounted mounted) dir
    (middleLooked.directory mounted directory)
    (align4 (Ext4DirEntry.fixedSize + name.len)) inodeNum fileType name
    (middle.view.blockCount dir) 0 (by omega)
  have slotEq := middleUnchanged.slotFor_eq (align4 (Ext4DirEntry.fixedSize + name.len))
  refine ⟨middle, middleConsulted, ?_⟩
  have middleExtents : middle.view.extents dir = first.view.extents dir :=
    (reread.unchanged dir).extents_eq
  have middleCount : middle.view.blockCount dir = volume.view.blockCount dir := by
    rw [View.blockCount, middleUnchanged.inode, View.blockCount]
  rw [View.slotFor] at slotEq
  rw [slotEq, middleExtents, middleCount] at added
  rw [Inode.dirAddEntry, run_bind_ok (run_isDir_dir mounted directory)]
  simp only [not_true_eq_false, if_false, nonempty, Bool.false_eq_true]
  rw [run_bind_ok ran]
  simp only [Option.isSome_none, Bool.false_eq_true, if_false, Nat.not_lt.mpr fits]
  rw [run_bind_ok size, unchanged.inode, ← View.blockCount, small, run_bind_ok ensured]
  cases chosen : volume.view.slotFor dir (align4 (Ext4DirEntry.fixedSize + name.len)) with
  | none =>
      rw [chosen] at added
      rw [run_bind_ok added]
      rfl
  | some pair =>
      obtain ⟨pblock, slot⟩ := pair
      rw [chosen] at added
      simp only at added ⊢
      cases filled : (fillSlot pblock inodeNum fileType name slot).run middle with
      | ok value after =>
          rw [run_bind_ok filled] at added
          rw [run_bind_ok added]
          rfl
      | err error after =>
          rw [run_bind_err filled] at added
          rw [run_bind_err added]
      | panic =>
          rw [run_bind_panic filled] at added
          rw [run_bind_panic added]

/-- An entry longer than a block is refused. -/
theorem run_dirAddEntry_huge {name : Str} (nonempty : name.isEmpty = false)
    (absent : (volume.view.dirIndex dir)[name]? = none)
    (huge : blockSz < align4 (Ext4DirEntry.fixedSize + name.len)) (inodeNum : Nat)
    (fileType : UInt8) :
    ∃ after, ((volume.view.fs.handle dir).dirAddEntry name inodeNum fileType).run volume =
        .err .nameTooLong after ∧
      Looked reserved dir volume after := by
  obtain ⟨after, ran, consulted⟩ := run_find_absent mounted directory absent
  refine ⟨after, ?_, consulted.looked⟩
  rw [Inode.dirAddEntry, run_bind_ok (run_isDir_dir mounted directory)]
  simp only [not_true_eq_false, if_false, nonempty, Bool.false_eq_true]
  rw [run_bind_ok ran]
  simp only [Option.isSome_none, Bool.false_eq_true, if_false, gt_iff_lt, huge, if_true]
  rfl

/-- Appending a block to a directory without mapped blocks behind its end. -/
theorem ensureBlocks_outcome
    (endEq : logicalEnd (volume.view.extents dir) = volume.view.blockCount dir)
    (small : volume.view.blockCount dir < u32Max) :
    ExtensionOutcome reserved dir volume 1
      (fun new => volume.view.appended dir (new.headD 0))
      (((volume.view.fs.handle dir).ensureBlocks (volume.view.blockCount dir + 1)).run volume) := by
  obtain ⟨new, after, handed, fresh, few, _⟩ := view_handOut mounted 1
  rw [Inode.ensureBlocks, run_bind_ok (view_currentExtents mounted directory.isInode
    directory.owning directory.coherent)]
  simp only [show ((volume.view.extents dir).map Ext4Extent.lend).foldl max 0 =
    volume.view.blockCount dir from endEq]
  rw [if_neg (by omega), Nat.add_sub_cancel_left]
  rcases view_allocZeroed mounted with ⟨ran, full⟩ | ⟨pblock, taken, ran, isItem, free, state⟩
  · rw [handOut, run_bind_ok ran] at handed
    cases handed
    have failed : (appendRange 1 (volume.view.blockCount dir) (volume.view.extents dir)).run
        volume = .err .noSpace volume := by
      rw [appendRange, run_bind_ok ran, run_bind_err (run_okOr_none _ _)]
    have handed : (handOut 1).run volume = .ok [] volume := by
      rw [handOut, run_bind_ok ran]
      rfl
    rw [run_bind_err failed]
    exact extension_exhausted mounted handed (by decide)
  · have handedOne : (handOut 1).run volume = .ok [pblock] (taken.putBlock pblock .zeroed) := by
      rw [handOut, run_bind_ok ran]
      rfl
    rw [handed] at handedOne
    cases handedOne
    have extended := directory.extends_appended endEq small
      (mounted.guarded.fresh isItem free).2.2
    have appendedRun : (appendRange 1 (volume.view.blockCount dir)
        (volume.view.extents dir)).run volume =
          .ok (volume.view.appended dir pblock) (taken.putBlock pblock .zeroed) := by
      rw [appendRange, run_bind_ok ran, run_bind_ok (run_okOr_some _ _ _),
        run_bind_ok (run_writeBlock _ _ _)]
      rfl
    have persisted := @extension_persist reserved dir volume mounted directory.isInode
      directory.owning directory.coherent 1 (fun new => volume.view.appended dir (new.headD 0))
      [pblock] _ handed rfl (extended.grows (directory.unmapped_end endEq) (Grows.refl _))
    rw [run_bind_ok appendedRun]
    exact persisted

/-- A block is appended when the directory ends with its last mapped block;
otherwise the next block is mapped already or cannot be. -/
theorem dirAppendEntry_outcome (inodeNum : Nat) (fileType : UInt8) (name : Str) :
    (volume.view.EndsMapped dir ∧
      RoomFor volume (volume.view.appended dir ((handedOut volume 1).headD 0)) 1 ∧
      ∃ pblock middle, handedOut volume 1 = [pblock] ∧ volume.view.Fresh [pblock] ∧
        Extended reserved dir volume.view [pblock] (volume.view.appended dir pblock)
          middle.view ∧
        ((volume.view.fs.handle dir).dirAppendEntry (volume.view.blockCount dir) inodeNum fileType
            name).run volume =
          (finishAppend (volume.view.fs.handle dir) (volume.view.blockCount dir) inodeNum fileType
            name pblock).run middle) ∨
    (volume.view.EndsMapped dir ∧
      ¬ RoomFor volume (volume.view.appended dir ((handedOut volume 1).headD 0)) 1 ∧
      ∃ error after, ((volume.view.fs.handle dir).dirAppendEntry (volume.view.blockCount dir)
          inodeNum fileType name).run volume = .err error after ∧
        Leaks volume.view after.view (handedOut volume 1)) ∨
    (¬ volume.view.EndsMapped dir ∧ ∃ middle, Reread dir volume middle ∧
      ((volume.view.fs.handle dir).dirAppendEntry (volume.view.blockCount dir) inodeNum fileType
          name).run volume =
        match mapLogicalBlock (volume.view.extents dir) (volume.view.blockCount dir) with
        | some pblock => (finishAppend (volume.view.fs.handle dir) (volume.view.blockCount dir)
            inodeNum fileType name pblock).run middle
        | none => .err .unsupported middle) := by
  have countLe := directory.blockCount_le
  by_cases ends : volume.view.EndsMapped dir
  · obtain ⟨endEq, small⟩ := ends
    have next : (volume.view.blockCount dir + 1) % 2 ^ 32 = volume.view.blockCount dir + 1 :=
      Nat.mod_eq_of_lt (by
        simp only [u32Max] at small
        omega)
    rw [Inode.dirAppendEntry, next]
    rcases ensureBlocks_outcome mounted directory endEq small with
      ⟨room, new, middle, handedEq, ran, enough, _, fresh, extended⟩ |
      ⟨noRoom, error, after, ran, leaks⟩
    · left
      obtain ⟨pblock, rfl⟩ := List.length_eq_one_iff.mp enough
      have pblockSmall := (mounted.guarded.fresh (fresh.items pblock List.mem_cons_self)
        (fresh.free pblock List.mem_cons_self)).2.2
      refine ⟨⟨endEq, small⟩, room, pblock, middle, handedEq, fresh, extended, ?_⟩
      rw [run_bind_ok ran]
      have mapped := directory.mapLogicalBlock_appended endEq small pblockSmall
      simp only [List.headD_cons, mapped]
      rw [run_bind_ok (run_okOr_some _ _ _)]
      rfl
    · exact Or.inr (Or.inl ⟨⟨endEq, small⟩, noRoom, error, after, run_bind_err ran, leaks⟩)
  · right
    right
    have enough : (volume.view.blockCount dir + 1) % 2 ^ 32 ≤
        logicalEnd (volume.view.extents dir) := by
      have endLe := directory.blockCount_le_logicalEnd
      by_cases last : volume.view.blockCount dir = u32Max
      · rw [last]
        simp [u32Max]
      · have larger : volume.view.blockCount dir ≠ logicalEnd (volume.view.extents dir) :=
          fun endEq => ends ⟨endEq.symm, by omega⟩
        refine Nat.le_trans (Nat.mod_le _ _) (by omega)
    obtain ⟨middle, ran, reread⟩ := run_ensureBlocks_enough mounted directory enough
    refine ⟨ends, middle, reread, ?_⟩
    rw [Inode.dirAppendEntry, run_bind_ok ran]
    cases mapLogicalBlock (volume.view.extents dir) (volume.view.blockCount dir) with
    | none => exact run_bind_err (run_okOr_none _ _)
    | some pblock => exact run_bind_ok (run_okOr_some _ _ _)

end Entering

/-- The record of a name that is short enough fits into a block. -/
theorem align4_record_le {name : Str} (short : name.len ≤ ext4NameLen) :
    align4 (Ext4DirEntry.fixedSize + name.len) ≤ blockSz := by
  simp only [align4, Ext4DirEntry.fixedSize, blockSz, ext4NameLen] at short ⊢
  omega

/-- A short name is written into the appended block. -/
theorem run_finishAppend_short {self : Inode}
    (fits : self.blockOffset + inodeStructSize ≤ blockSz) (volume : Volume)
    (newBlockIndex inodeNum : Nat) (fileType : UInt8) {name : Str}
    (short : name.len ≤ ext4NameLen) (pblock : Nat) :
    ∃ after, (finishAppend self newBlockIndex inodeNum fileType name pblock).run volume =
      .ok () after := by
  have room := align4_record_le short
  have wrote := run_dirWriteEntryAt volume pblock 0 blockSz inodeNum fileType short room
  rw [if_pos (by omega)] at wrote
  exact ⟨_, (run_bind_ok wrote).trans (Inode.run_modifyDiskInode fits _)⟩

theorem View.hasFree_congr {view other : View} (sameFs : other.fs = view.fs)
    (sameHeld : ∀ blockId, blockId ∈ other.held .block ↔ blockId ∈ view.held .block)
    (count : Nat) : other.HasFree count ↔ view.HasFree count := by
  have sameItem (item : Nat) : other.IsItem .block item ↔ view.IsItem .block item := by
    rw [View.IsItem, View.IsItem, sameFs]
  constructor
  · rintro ⟨blocks, fresh, lengthEq⟩
    exact ⟨blocks, ⟨fresh.nodup, fun blockId isMem => (sameItem _).mp (fresh.items blockId isMem),
      fun blockId isMem isHeld => fresh.free blockId isMem ((sameHeld _).mpr isHeld)⟩, lengthEq⟩
  · rintro ⟨blocks, fresh, lengthEq⟩
    exact ⟨blocks, ⟨fresh.nodup, fun blockId isMem => (sameItem _).mpr (fresh.items blockId isMem),
      fun blockId isMem isHeld => fresh.free blockId isMem ((sameHeld _).mp isHeld)⟩, lengthEq⟩

/-- A directory without room for an entry that ends with its last mapped block. -/
def View.NeedsBlock (view : View) (dir need : Nat) : Prop :=
  view.slotFor dir need = none ∧ view.EndsMapped dir

theorem View.Unchanged.endsMapped {view after : View} {dir : Nat}
    (unchanged : Unchanged view after dir) : after.EndsMapped dir ↔ view.EndsMapped dir := by
  rw [EndsMapped, EndsMapped, blockCount, blockCount, unchanged.inode, unchanged.extents_eq]

theorem View.Unchanged.needsBlock {view after : View} {dir : Nat}
    (unchanged : Unchanged view after dir) (need : Nat) :
    after.NeedsBlock dir need ↔ view.NeedsBlock dir need := by
  rw [NeedsBlock, NeedsBlock, unchanged.slotFor_eq, unchanged.endsMapped]

theorem View.Unchanged.appended_eq {view after : View} {dir : Nat}
    (unchanged : Unchanged view after dir) (pblock : Nat) :
    after.appended dir pblock = view.appended dir pblock := by
  rw [appended, appended, blockCount, blockCount, unchanged.inode, unchanged.extents_eq]

/-- The outcomes of entering a short new name. -/
theorem dirAddEntry_outcome {reserved : Set Nat} {dir : Nat} {volume : Volume}
    (mounted : volume.view.Mounted reserved) (directory : volume.view.Directory reserved dir)
    {name : Str} (nonempty : name.isEmpty = false) (short : name.len ≤ ext4NameLen)
    (absent : (volume.view.dirIndex dir)[name]? = none) (inodeNum : Nat) (fileType : UInt8) :
    (volume.view.NeedsBlock dir (align4 (Ext4DirEntry.fixedSize + name.len)) ∧
      ¬ RoomFor volume (volume.view.appended dir ((handedOut volume 1).headD 0)) 1 ∧
      ∃ error middle after,
        ((volume.view.fs.handle dir).dirAddEntry name inodeNum fileType).run volume =
          .err error after ∧
        Looked reserved dir volume middle ∧
        Leaks middle.view after.view (handedOut volume 1)) ∨
    (¬ (volume.view.NeedsBlock dir (align4 (Ext4DirEntry.fixedSize + name.len)) ∧
        ¬ RoomFor volume (volume.view.appended dir ((handedOut volume 1).headD 0)) 1) ∧
      ((volume.view.slotFor dir (align4 (Ext4DirEntry.fixedSize + name.len)) ≠ none ∧
          ((volume.view.fs.handle dir).dirAddEntry name inodeNum fileType).run volume = .panic) ∨
        (∃ after, ((volume.view.fs.handle dir).dirAddEntry name inodeNum fileType).run volume =
          .ok () after) ∨
        ∃ error after, ((volume.view.fs.handle dir).dirAddEntry name inodeNum fileType).run volume =
          .err error after ∧ Looked reserved dir volume after)) := by
  have fits := align4_record_le short
  have handleFits := (mounted.layout.handle_spec mounted.geometry directory.isInode).2.2.2
  obtain ⟨middle, consulted, ran⟩ := run_dirAddEntry mounted directory nonempty absent fits inodeNum
    fileType
  have looked : Looked reserved dir volume middle := consulted.looked
  rw [ran]
  cases chosen : volume.view.slotFor dir (align4 (Ext4DirEntry.fixedSize + name.len)) with
  | some pair =>
      obtain ⟨pblock, slot⟩ := pair
      obtain ⟨_, _, _, _, found⟩ := findSlotFrom_eq_some chosen
      right
      refine ⟨fun both => absurd (chosen.symm.trans both.1.1) (by simp), ?_⟩
      rcases run_fillSlot_short middle pblock inodeNum fileType short (findSlot_room found) with
        ⟨_, panics⟩ | ⟨_, block, finished⟩
      · exact Or.inl ⟨Option.some_ne_none _, panics⟩
      · exact Or.inr (Or.inl ⟨_, finished⟩)
  | none =>
      have unchanged := looked.unchanged mounted directory
      have sameHanded := looked.sameAllocator.handedOut_eq 1
      have sameRoom (result : List Ext4Extent) : RoomFor middle result 1 ↔ RoomFor volume result 1 := by
        rw [RoomFor, RoomFor, View.hasFree_congr looked.view_fs fun blockId => by
          rw [looked.held_eq mounted.geometry]]
      have outcome := dirAppendEntry_outcome (looked.mounted mounted)
        (looked.directory mounted directory) inodeNum fileType name
      have sameCount : middle.view.blockCount dir = volume.view.blockCount dir := by
        rw [View.blockCount, unchanged.inode, View.blockCount]
      rw [sameHanded, looked.view_fs, sameCount, unchanged.endsMapped] at outcome
      simp only [unchanged.appended_eq, sameRoom] at outcome
      rcases outcome with ⟨ends, room, pblock, between, _, _, _, ended⟩ |
        ⟨ends, noRoom, error, after, ended, leaks⟩ | ⟨notEnds, between, reread, ended⟩
      · right
        refine ⟨fun both => both.2 room, ?_⟩
        obtain ⟨after, finished⟩ := run_finishAppend_short handleFits between
          (volume.view.blockCount dir) inodeNum fileType short pblock
        exact Or.inr (Or.inl ⟨after, ended.trans finished⟩)
      · exact Or.inl ⟨⟨chosen, ends⟩, noRoom, error, middle, after, ended, looked, leaks⟩
      · right
        refine ⟨fun both => notEnds both.1.2, ?_⟩
        simp only
        rw [ended]
        cases mapLogicalBlock (middle.view.extents dir) (volume.view.blockCount dir) with
        | none => exact Or.inr (Or.inr ⟨.unsupported, between, rfl, looked.reread reread⟩)
        | some pblock =>
            obtain ⟨after, finished⟩ := run_finishAppend_short handleFits between
              (volume.view.blockCount dir) inodeNum fileType short pblock
            exact Or.inr (Or.inl ⟨after, finished⟩)

/-- The block of a record was written and the size of the directory set. -/
structure Appends (reserved : Set Nat) (dir pblock : Nat) (block : Block) (size : Nat)
    (view after : View) : Prop where
  step : FileStep reserved dir view after
  extents : after.extents dir = view.extents dir
  inode : after.inode dir = (view.inode dir).setSize size
  data : ∀ blockId ∉ reserved, after.data blockId = (view.put pblock block).data blockId

theorem Appends.mode {reserved : Set Nat} {dir pblock size : Nat} {block : Block}
    {view after : View} (appends : Appends reserved dir pblock block size view after) :
    (after.inode dir).iMode = (view.inode dir).iMode := by
  rw [appends.inode]
  exact Ext4Inode.field_setSize _ _ (by decide) (by decide)

section Touching

variable {reserved : Set Nat} {dir : Nat} {volume : Volume}
  (mounted : volume.view.Mounted reserved) (isInode : volume.view.fs.IsInode dir)
  (owning : volume.view.Owning reserved dir) (coherent : volume.view.Coherent dir)

include mounted isInode owning coherent

theorem Reread.fileStep {after : Volume} (reread : Reread dir volume after) :
    FileStep reserved dir volume.view after.view := by
  have same := (@FileStep.of_frame reserved dir volume.view volume.view mounted isInode owning
    coherent rfl rfl (fun _ isHeld => isHeld) (fun _ _ => rfl) rfl rfl).1
  rw [reread.view_eq]
  refine same.withCaches reread.shrinks ?_
  intro extents found
  have afterCoherent := reread.coherent extents found
  rwa [(reread.unchanged dir).extents_eq] at afterCoherent

/-- Writing a block of a file. -/
theorem fileStep_putBlock {pblock : Nat}
    (isData : pblock ∈ dataBlocks (volume.view.extents dir)) (block : Block) :
    FileStep reserved dir volume.view (volume.putBlock pblock block).view ∧
      (volume.putBlock pblock block).view.inode dir = volume.view.inode dir ∧
      (volume.putBlock pblock block).view.extents dir = volume.view.extents dir ∧
      (volume.putBlock pblock block).view.tree dir = volume.view.tree dir := by
  have isOwned := mem_owned.mpr (Or.inl isData)
  have notBitmap : ¬ volume.fs.IsBitmap pblock := fun isBitmap =>
    owning.outside pblock isOwned (mounted.layout.bitmaps pblock isBitmap)
  rw [Volume.view_putBlock (Volume.geometry_view.mp mounted.geometry) notBitmap]
  refine @FileStep.of_data reserved dir volume.view (volume.view.put pblock block) mounted
    isInode owning coherent rfl rfl (fun _ isHeld => isHeld) ?_ rfl rfl
  intro blockId _ notData
  exact Function.update_of_ne (fun same => notData (by rw [same]; exact isData)) _ _

/-- The end of an append writes the block of the record and the size. -/
theorem appends_finishAppend {pblock newBlockIndex inodeNum : Nat} {fileType : UInt8}
    {name : Str} (short : name.len ≤ ext4NameLen)
    (isData : pblock ∈ dataBlocks (volume.view.extents dir)) {after : Volume}
    (ran : (finishAppend (volume.view.fs.handle dir) newBlockIndex inodeNum fileType name
      pblock).run volume = .ok () after) :
    Appends reserved dir pblock
      (Block.putEntry (volume.disk pblock) 0 blockSz inodeNum fileType name)
      ((newBlockIndex + 1) * blockSz) volume.view after.view := by
  have room := align4_record_le short
  have wrote := run_dirWriteEntryAt volume pblock 0 blockSz inodeNum fileType short room
  rw [if_pos (by omega)] at wrote
  generalize Block.putEntry (volume.disk pblock) 0 blockSz inodeNum fileType name = block at wrote ⊢
  obtain ⟨step, sameInode, sameExtents, _⟩ :=
    fileStep_putBlock mounted isInode owning coherent isData block
  have notBitmap : ¬ volume.fs.IsBitmap pblock := fun isBitmap =>
    owning.outside pblock (mem_owned.mpr (Or.inl isData)) (mounted.layout.bitmaps pblock isBitmap)
  have putView := Volume.view_putBlock (Volume.geometry_view.mp mounted.geometry) notBitmap block
  have middleMounted := step.mounted mounted owning
  have middleInode : (volume.putBlock pblock block).view.fs.IsInode dir := by
    rw [step.fs]
    exact isInode
  obtain ⟨last, sized, lastView⟩ := view_modifyDiskInode middleMounted.layout
    middleMounted.geometry middleInode (·.setSize ((newBlockIndex + 1) * blockSz))
  rw [step.fs] at sized
  obtain ⟨sizeStep, sizedInode, sizedExtents, _⟩ := FileStep.of_putInode middleMounted
    middleInode step.owning step.coherent
    (Ext4Inode.blockData_setSize _ ((newBlockIndex + 1) * blockSz))
    (Ext4Inode.usesExtents_congr (Ext4Inode.field_setSize _ _ (by decide) (by decide)))
  have sizedData {blockId : Nat} (outside : blockId ∉ reserved) :=
    data_putInode middleMounted.layout middleMounted.geometry middleInode
      (((volume.putBlock pblock block).view.inode dir).setSize ((newBlockIndex + 1) * blockSz))
      outside
  rw [← lastView] at sizeStep sizedInode sizedExtents sizedData
  rw [finishAppend, run_bind_ok wrote, sized] at ran
  cases ran
  refine ⟨step.trans sizeStep, sizedExtents.trans sameExtents, ?_, fun blockId outside => ?_⟩
  · rw [sizedInode, sameInode]
  · rw [sizedData outside, putView]

end Touching

/-- Entering a name changes caches, the directory and free blocks. -/
theorem fileStep_dirAddEntry {reserved : Set Nat} {dir : Nat} {volume : Volume}
    (mounted : volume.view.Mounted reserved) (directory : volume.view.Directory reserved dir)
    {name : Str} (nonempty : name.isEmpty = false)
    (short : name.len ≤ ext4NameLen) (absent : (volume.view.dirIndex dir)[name]? = none)
    {inodeNum : Nat} {fileType : UInt8} {after : Volume}
    (ran : ((volume.view.fs.handle dir).dirAddEntry name inodeNum fileType).run volume =
      .ok () after) :
    ∃ middle, Consulted dir volume middle ∧ FileStep reserved dir middle.view after.view ∧
      (after.view.inode dir).iMode = (volume.view.inode dir).iMode := by
  have fits := align4_record_le short
  obtain ⟨middle, consulted, split⟩ := run_dirAddEntry mounted directory nonempty absent fits
    inodeNum fileType
  have looked : Looked reserved dir volume middle := consulted.looked
  have middleMounted := looked.mounted mounted
  have middleDirectory := looked.directory mounted directory
  have unchanged := looked.unchanged mounted directory
  rw [ran] at split
  refine ⟨middle, consulted, ?_⟩
  cases chosen : volume.view.slotFor dir (align4 (Ext4DirEntry.fixedSize + name.len)) with
  | some pair =>
      obtain ⟨pblock, slot⟩ := pair
      rw [chosen] at split
      obtain ⟨l, _, _, mapped, found⟩ := findSlotFrom_eq_some chosen
      have isData : pblock ∈ dataBlocks (middle.view.extents dir) := by
        rw [unchanged.extents_eq]
        exact (maps_of_mapLogicalBlock mapped).mem_dataBlocks
      rcases run_fillSlot_short middle pblock inodeNum fileType short (findSlot_room found) with
        ⟨_, panics⟩ | ⟨_, block, finished⟩
      · simp only [panics] at split
        cases split
      · simp only [finished] at split
        cases split
        obtain ⟨step, sameInode, _⟩ := fileStep_putBlock middleMounted middleDirectory.isInode
          middleDirectory.owning middleDirectory.coherent isData block
        exact ⟨step, by rw [sameInode, unchanged.inode]⟩
  | none =>
      rw [chosen] at split
      have sameCount : middle.view.blockCount dir = volume.view.blockCount dir := by
        rw [View.blockCount, unchanged.inode, View.blockCount]
      have outcome := dirAppendEntry_outcome middleMounted middleDirectory inodeNum fileType name
      rw [looked.view_fs, sameCount] at outcome
      rcases outcome with ⟨ends, _, pblock, between, _, fresh, extended, ended⟩ |
        ⟨_, _, error, failed, ended, _⟩ | ⟨_, between, reread, ended⟩
      · simp only [ended] at split
        have isNew : pblock ∈ [pblock] := List.mem_singleton_self _
        have pblockSmall : pblock < 2 ^ 48 :=
          (middleMounted.guarded.fresh (fresh.items pblock isNew) (fresh.free pblock isNew)).2.2
        have extend := middleDirectory.extends_appended ends.1 ends.2 pblockSmall
        have isData : pblock ∈ dataBlocks (between.view.extents dir) := by
          rw [extended.extents]
          exact ((extend.maps _ _).mpr (Or.inl ⟨rfl, rfl⟩)).mem_dataBlocks
        have sameFs : between.view.fs = volume.view.fs := extended.step.fs.trans looked.view_fs
        rw [← sameFs] at split
        have appends := appends_finishAppend
          (extended.step.mounted middleMounted middleDirectory.owning)
          (by rw [sameFs]; exact directory.isInode) extended.step.owning extended.step.coherent
          short isData split.symm
        refine ⟨extended.step.trans appends.step, appends.mode.trans ?_⟩
        rw [← unchanged.inode]
        exact extended.fields .iMode (by decide) (by decide)
      · simp only [ended] at split
        cases split
      · simp only [ended] at split
        cases mapped : mapLogicalBlock (middle.view.extents dir) (volume.view.blockCount dir) with
        | none =>
            rw [mapped] at split
            cases split
        | some pblock =>
            rw [mapped] at split
            have step := reread.fileStep middleMounted middleDirectory.isInode
              middleDirectory.owning middleDirectory.coherent
            have isData : pblock ∈ dataBlocks (between.view.extents dir) := by
              rw [(reread.unchanged dir).extents_eq]
              exact (maps_of_mapLogicalBlock mapped).mem_dataBlocks
            have sameFs : between.view.fs = volume.view.fs := step.fs.trans looked.view_fs
            rw [← sameFs] at split
            have appends := appends_finishAppend (step.mounted middleMounted
              middleDirectory.owning) (by rw [sameFs]; exact directory.isInode) step.owning
              step.coherent short isData split.symm
            refine ⟨step.trans appends.step, appends.mode.trans ?_⟩
            rw [(reread.unchanged dir).inode, unchanged.inode]

end Ext4

end OSWorkspace
