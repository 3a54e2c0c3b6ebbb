import OSWorkspace.Ext4FailedCreates

/-!
# What an entry allocates

A new name goes into a block of the directory, or into a new one whose map is
rewritten.  This file follows the calls of the block allocator on that way, so
that the blocks left behind an entry are known from the state before it.
-/

namespace OSWorkspace

namespace Ext4

open Exec View

/-- The record with room for a name, if any, ends inside its block. -/
def View.SlotInside (view : View) (dir : Nat) (name : Str) : Prop :=
  ∀ pblock slot, view.slotFor dir (align4 (Ext4DirEntry.fixedSize + name.len)) =
    some (pblock, slot) → slot.stop ≤ blockSz

namespace SameAllocator

variable {volume other after : Volume}

theorem run_deallocBlock (same : SameAllocator volume other) {block : Nat}
    (ran : (deallocBlock block).run other = .ok () after) :
    ∃ last, (deallocBlock block).run volume = .ok () last ∧ SameAllocator last after := by
  rw [deallocBlock, run_bind_ok (run_get _), same.superblock, same.blockBitmapOf_eq] at ran
  rw [deallocBlock, run_bind_ok (run_get _)]
  simp only at ran ⊢
  split at ran
  · next before =>
      rw [if_pos before]
      cases ran
      exact ⟨volume, rfl, same⟩
  · next known =>
      rw [if_neg known]
      obtain ⟨_, _, checked, rest⟩ := of_run_bind_ok ran
      obtain ⟨positive, rfl⟩ := of_run_check checked
      rw [run_bind_ok (run_check positive _)]
      cases listed : volume.blockBitmapOf ((block - volume.fs.superblock.firstDataBlock) /
          volume.fs.superblock.blocksPerGroup) with
      | none =>
          rw [listed] at rest
          cases rest
          exact ⟨volume, rfl, same⟩
      | some bitmap =>
          rw [listed] at rest
          simp only at rest ⊢
          obtain ⟨_, _, checked, wrote⟩ := of_run_bind_ok rest
          obtain ⟨inside, rfl⟩ := of_run_check checked
          rw [run_bind_ok (run_readBlock _ _), same.bitmaps _ bitmap listed, run_writeBlock] at wrote
          cases wrote
          exact ⟨_, run_bind_ok (run_check inside _), same.putBlock bitmap _⟩

theorem run_deallocBlocks (same : SameAllocator volume other) {blocks : List Nat}
    (ran : (deallocExtentMetadataBlocks blocks).run other = .ok () after) :
    ∃ last, (deallocExtentMetadataBlocks blocks).run volume = .ok () last ∧
      SameAllocator last after := by
  induction blocks generalizing volume other with
  | nil =>
      cases ran
      exact ⟨volume, rfl, same⟩
  | cons block blocks ih =>
      obtain ⟨_, middle, freed, rest⟩ := of_run_bind_ok ran
      obtain ⟨first, firstFreed, sameFirst⟩ := same.run_deallocBlock freed
      obtain ⟨last, lastFreed, sameLast⟩ := ih sameFirst rest
      exact ⟨last, (run_bind_ok firstFreed).trans lastFreed, sameLast⟩

/-- The same blocks are taken for the nodes of a tree. -/
theorem run_allocBlocks (same : SameAllocator volume other) {count : Nat} {taken blocks : List Nat}
    (ran : (allocExtentMetadataBlocks count taken).run other = .ok blocks after) :
    ∃ last, (allocExtentMetadataBlocks count taken).run volume = .ok blocks last ∧
      SameAllocator last after := by
  induction count generalizing volume other taken with
  | zero =>
      cases ran
      exact ⟨volume, rfl, same⟩
  | succ count ih =>
      rw [allocExtentMetadataBlocks] at ran ⊢
      rcases same.run_allocBlock with ⟨_, panics⟩ | ⟨_, full⟩ |
        ⟨item, first, second, ranFirst, ranSecond, sameTaken⟩
      · rw [run_bind_panic panics] at ran
        cases ran
      · rw [run_bind_ok full] at ran
        obtain ⟨_, _, _, thrown⟩ := of_run_bind_ok ran
        cases thrown
      · rw [run_bind_ok ranSecond] at ran
        rw [run_bind_ok ranFirst]
        exact ih sameTaken ran

theorem view_fs (same : SameAllocator volume other) : other.view.fs = volume.view.fs := by
  simp only [Volume.view, Ext4FileSystem.shape, same.superblock, same.groupDescs, same.is64bit]

/-- The same blocks are in use. -/
theorem held_block (same : SameAllocator volume other) (geometry : Geometry volume.view.fs) :
    other.view.held .block = volume.view.held .block := by
  have geometry := Volume.geometry_view.mp geometry
  have sameItem (item : Nat) : other.IsItem .block item ↔ volume.IsItem .block item := by
    simp only [Volume.IsItem, Volume.itemCount, same.superblock]
  have sameBit (item : Nat) (isItem : volume.IsItem .block item) :
      other.used .block item = volume.used .block item := by
    have listed := @Volume.bitmapOf_eq_some volume .block _ (isItem.group_lt geometry)
    rw [Volume.used, Volume.used]
    simp only [Volume.bitmapAt, Volume.bitmapOf, Volume.perGroup, same.superblock,
      same.blockBitmapOf_eq] at listed ⊢
    rw [same.bitmaps _ _ listed]
  ext item
  rw [Volume.mem_held, Volume.mem_held, sameItem]
  constructor
  · rintro ⟨isItem, isUsed⟩
    exact ⟨isItem, by rw [← sameBit item isItem]; exact isUsed⟩
  · rintro ⟨isItem, isUsed⟩
    exact ⟨isItem, by rw [sameBit item isItem]; exact isUsed⟩

theorem guarded (same : SameAllocator volume other) (guarded : volume.view.Guarded) :
    other.view.Guarded := by
  have sameFs := same.view_fs
  have sameHeld := same.held_block guarded.geometry
  refine ⟨by rw [sameFs]; exact guarded.geometry, by rw [sameFs]; exact guarded.small,
    by rw [sameHeld]; exact guarded.zero, ?_⟩
  intro blockId isBitmap isItem
  rw [sameFs] at isBitmap
  rw [View.IsItem, sameFs] at isItem
  rw [sameHeld]
  exact guarded.bitmaps blockId isBitmap isItem

/-- Writing blocks outside the bitmaps. -/
theorem of_writeEach {program : Nat → List Nat → Call Unit} {contents : Nat → Block}
    (nil : ∀ position, program position [] = pure ())
    (cons : ∀ position block blocks, program position (block :: blocks) = do
      writeBlock block (contents position)
      program (position + 1) blocks)
    {blocks : List Nat} (outside : ∀ block ∈ blocks, ¬ volume.fs.IsBitmap block) {position : Nat}
    (ran : (program position blocks).run volume = .ok () after) : SameAllocator volume after := by
  induction blocks generalizing volume position with
  | nil =>
      rw [nil] at ran
      cases ran
      exact ⟨rfl, rfl, rfl, rfl, fun _ _ _ => rfl⟩
  | cons block blocks ih =>
      rw [cons, run_bind_ok (run_writeBlock _ _ _)] at ran
      exact (of_putBlock (outside block List.mem_cons_self) (contents position)).trans
        (ih (fun other isMem => outside other (List.mem_cons_of_mem _ isMem)) ran)

end SameAllocator

theorem run_allocBlocks_taken {count : Nat} {taken blocks : List Nat} {volume after : Volume}
    (ran : (allocExtentMetadataBlocks count taken).run volume = .ok blocks after)
    (before : List Nat) :
    (allocExtentMetadataBlocks count (before ++ taken)).run volume =
      .ok (before ++ blocks) after := by
  induction count generalizing volume taken with
  | zero =>
      cases ran
      rfl
  | succ count ih =>
      rw [allocExtentMetadataBlocks] at ran ⊢
      obtain ⟨item, middle, allocated, rest⟩ := of_run_bind_ok ran
      rw [run_bind_ok allocated]
      cases item with
      | none =>
          obtain ⟨_, _, _, thrown⟩ := of_run_bind_ok rest
          cases thrown
      | some block =>
          simp only at rest ⊢
          rw [List.append_assoc]
          exact ih rest

/-- Two lots of blocks are taken like one. -/
theorem run_allocBlocks_add {first second : Nat} {taken blocks more : List Nat}
    {volume middle after : Volume}
    (ran : (allocExtentMetadataBlocks first taken).run volume = .ok blocks middle)
    (rest : (allocExtentMetadataBlocks second []).run middle = .ok more after) :
    (allocExtentMetadataBlocks (first + second) taken).run volume =
      .ok (blocks ++ more) after := by
  induction first generalizing volume taken with
  | zero =>
      cases ran
      rw [Nat.zero_add]
      simpa using run_allocBlocks_taken rest blocks
  | succ first ih =>
      rw [Nat.succ_add, allocExtentMetadataBlocks]
      rw [allocExtentMetadataBlocks] at ran
      obtain ⟨item, between, allocated, ended⟩ := of_run_bind_ok ran
      rw [run_bind_ok allocated]
      cases item with
      | none =>
          obtain ⟨_, _, _, thrown⟩ := of_run_bind_ok ended
          cases thrown
      | some block => exact ih ended

theorem run_deallocBlocks_append {first second : List Nat} {volume middle after : Volume}
    (ran : (deallocExtentMetadataBlocks first).run volume = .ok () middle)
    (rest : (deallocExtentMetadataBlocks second).run middle = .ok () after) :
    (deallocExtentMetadataBlocks (first ++ second)).run volume = .ok () after := by
  induction first generalizing volume with
  | nil =>
      cases ran
      exact rest
  | cons block first ih =>
      obtain ⟨_, between, freed, ended⟩ := of_run_bind_ok ran
      exact (run_bind_ok freed).trans (ih ended)

/-- Blocks taken for the nodes of a tree are no bitmaps. -/
theorem outside_of_allocBlocks {volume after : Volume} (guarded : volume.view.Guarded)
    {count : Nat} {blocks : List Nat}
    (ran : (allocExtentMetadataBlocks count []).run volume = .ok blocks after) :
    (∀ block ∈ blocks, ¬ after.fs.IsBitmap block) ∧ after.view.Guarded := by
  rcases @view_allocBlocks volume guarded.geometry count [] (by simp) with
    ⟨new, other, allocated, _, _, fresh, afterView⟩ | ⟨_, _, failed, _⟩
  · rw [ran] at allocated
    cases allocated
    have sameFs : after.view.fs = volume.view.fs := by
      rw [afterView]
      rfl
    refine ⟨?_, ?_⟩
    · intro block isMem isBitmap
      refine (guarded.fresh (fresh block isMem).1 (fresh block isMem).2).2.1 ?_
      rw [← sameFs]
      exact isBitmap
    · rw [afterView]
      exact ⟨guarded.geometry, guarded.small, Or.inl guarded.zero,
        fun block isBitmap isItem => Or.inl (guarded.bitmaps block isBitmap isItem)⟩
  · rw [ran] at failed
    cases failed

/-- A state with the allocator that taking `count` blocks and freeing others leaves. -/
def TreeExchanged (count : Nat) (freed : List Nat) (volume after : Volume) : Prop :=
  ∃ blocks middle last, (allocExtentMetadataBlocks count []).run volume = .ok blocks middle ∧
    (deallocExtentMetadataBlocks freed).run middle = .ok () last ∧ SameAllocator last after

/-- The end of a rewrite: the old tree is freed. -/
theorem exchanged_freeOldTree {count inodeNum : Nat} {blocks leaves indexes : List Nat}
    {changed written : Ext4Inode} {volume middle filled after : Volume}
    (allocated : (allocExtentMetadataBlocks count []).run volume = .ok blocks middle)
    (same : SameAllocator middle filled)
    (ran : (do
      deallocExtentMetadataBlocks leaves
      deallocExtentMetadataBlocks indexes
      extentsCacheInvalidate inodeNum
      return written : Call Ext4Inode).run filled = .ok changed after) :
    TreeExchanged count (leaves ++ indexes) volume after := by
  obtain ⟨_, first, freedLeaves, ran⟩ := of_run_bind_ok ran
  obtain ⟨_, second, freedIndexes, ran⟩ := of_run_bind_ok ran
  cases ran
  obtain ⟨last, freed, sameLast⟩ :=
    same.run_deallocBlocks (run_deallocBlocks_append freedLeaves freedIndexes)
  exact ⟨blocks, middle, last, allocated, freed, sameLast.trans
    ⟨rfl, rfl, rfl, rfl, fun _ _ _ => rfl⟩⟩

/-- Rewriting a tree takes the blocks of the new one, then frees those of the old. -/
theorem exchanged_writeExtentsToInode {volume after : Volume} (guarded : volume.view.Guarded)
    {inodeNum : Nat} {inode changed : Ext4Inode} {extents : List Ext4Extent}
    (ran : (writeExtentsToInode inodeNum inode extents).run volume = .ok changed after) :
    TreeExchanged (treeSize extents.length) (treeBlocks volume.disk inode.blockData) volume after := by
  rw [writeExtentsToInode, run_bind_ok (run_get _)] at ran
  simp only [blockData_setIFlags_or] at ran
  by_cases few : extents.length ≤ extentsInInode
  · obtain ⟨written, writtenEq, _⟩ := writeExtentsLeafInInode_ok
      (inode.setIFlags (inode.iFlags ||| ext4ExtentsFl)) few
    rw [if_pos few, writtenEq] at ran
    rw [treeSize, if_pos few]
    exact exchanged_freeOldTree rfl ⟨rfl, rfl, rfl, rfl, fun _ _ _ => rfl⟩ ran
  · rw [if_neg few] at ran
    split at ran
    · cases ran
    · obtain ⟨leaves, first, allocated, ran⟩ := of_run_bind_ok ran
      obtain ⟨_, filled, wroteLeaves, ran⟩ := of_run_bind_ok ran
      obtain ⟨leavesOutside, firstGuarded⟩ := outside_of_allocBlocks guarded allocated
      have sameFilled : SameAllocator first filled :=
        SameAllocator.of_writeEach (fun _ => rfl) (fun _ _ _ => rfl) leavesOutside wroteLeaves
      split at ran
      · next shallow =>
          rw [treeSize, if_neg few, if_pos shallow]
          exact exchanged_freeOldTree allocated sameFilled ran
      · next deep =>
          obtain ⟨result, second, attempted, ran⟩ := of_run_bind_ok ran
          cases result with
          | error error =>
              obtain ⟨_, _, _, thrown⟩ := of_run_bind_ok ran
              cases thrown
          | ok indexes =>
              obtain ⟨_, indexed, wroteIndexes, ran⟩ := of_run_bind_ok ran
              obtain ⟨last, allocatedThen, sameLast⟩ :=
                sameFilled.run_allocBlocks (of_run_attempt_ok attempted)
              obtain ⟨indexesOutside, _⟩ := outside_of_allocBlocks
                (sameFilled.guarded firstGuarded) (of_run_attempt_ok attempted)
              have sameIndexed : SameAllocator second indexed :=
                SameAllocator.of_writeEach (fun _ => rfl) (fun _ _ _ => rfl) indexesOutside
                  wroteIndexes
              rw [treeSize, if_neg few, if_neg deep]
              exact exchanged_freeOldTree (run_allocBlocks_add allocated allocatedThen)
                (sameLast.trans sameIndexed) ran

section Persisting

variable {reserved : Set Nat} {inodeNum : Nat} {volume after : Volume}

theorem SameAllocator.of_writeInode (layout : Layout volume.view.fs reserved)
    (geometry : Geometry volume.view.fs) (isInode : volume.view.fs.IsInode inodeNum)
    {inode : Ext4Inode} (ran : (writeInode inodeNum inode).run volume = .ok () after) :
    SameAllocator volume after := by
  obtain ⟨position, _, outside, fits⟩ := layout.handle_spec geometry isInode
  have found : volume.fs.getInodePos inodeNum = some _ := position
  rw [writeInode, run_bind_ok (run_get _), found, run_bind_ok (run_expect_some _ _),
    run_writeInodeAt fits] at ran
  cases ran
  exact SameAllocator.of_putBlock outside _

/-- Writing back a map takes the blocks of its tree and frees those of the old one. -/
theorem exchanged_persistExtents (mounted : volume.view.Mounted reserved)
    (isInode : volume.view.fs.IsInode inodeNum) (owning : volume.view.Owning reserved inodeNum)
    {extents : List Ext4Extent}
    (ran : ((volume.view.fs.handle inodeNum).persistExtents extents).run volume =
      .ok () after) :
    TreeExchanged (treeSize extents.length) (volume.view.tree inodeNum) volume after := by
  rw [Inode.persistExtents,
    run_bind_ok (view_readDiskInode mounted.layout mounted.geometry isInode)] at ran
  obtain ⟨changed, middle, rewritten, wrote⟩ := of_run_bind_ok ran
  change (writeExtentsToInode inodeNum ((volume.view.inode inodeNum).setIBlocksLo
    (min (extentsBlocksCount extents * Inode.sectorsPerBlock) u32Max)) extents).run volume = _
      at rewritten
  have exchanged := exchanged_writeExtentsToInode mounted.guarded rewritten
  have treeEq : treeBlocks volume.disk ((volume.view.inode inodeNum).setIBlocksLo
      (min (extentsBlocksCount extents * Inode.sectorsPerBlock) u32Max)).blockData =
        volume.view.tree inodeNum := by
    rw [Ext4Inode.blockData_setField, (tree_of_owning mounted owning).2]
  rw [treeEq] at exchanged
  have middleFs : middle.view.fs = volume.view.fs := by
    rcases @view_writeExtentsToInode volume mounted.guarded inodeNum
        ((volume.view.inode inodeNum).setIBlocksLo
          (min (extentsBlocksCount extents * Inode.sectorsPerBlock) u32Max)) extents
        (fun blockId isNode => by
          rw [treeEq] at isNode
          exact View.isItem_of_held (owning.held blockId (View.mem_owned.mpr (Or.inr isNode)))) with
      ⟨_, _, _, ended, _, rewrite⟩ | ⟨failed, _⟩ | ⟨_, _, failed, _⟩
    · rw [rewritten] at ended
      cases ended
      rw [rewrite.state]
      rfl
    · rw [rewritten] at failed
      cases failed
    · rw [rewritten] at failed
      cases failed
  obtain ⟨blocks, taken, last, allocated, freed, same⟩ := exchanged
  exact ⟨blocks, taken, last, allocated, freed, same.trans
    (SameAllocator.of_writeInode (by rw [middleFs]; exact mounted.layout)
      (by rw [middleFs]; exact mounted.geometry) (by rw [middleFs]; exact isInode) wrote)⟩

end Persisting

/-- The calls of the block allocator when a directory gets a block for an entry: one
for the block and those for the tree of the longer map, then the old tree is freed. -/
def allocateEntry (view : View) (dir : Nat) : Call Unit := do
  let new ← handOut 1
  let _ ← allocExtentMetadataBlocks (treeSize (view.appended dir (new.headD 0)).length) []
  deallocExtentMetadataBlocks (view.tree dir)

instance (view : View) (dir need : Nat) : Decidable (view.NeedsBlock dir need) :=
  inferInstanceAs (Decidable (_ = _ ∧ _ = _ ∧ _ < _))

/-- The state of the block allocator behind the entry of a name. -/
def leftByEntry (volume : Volume) (dir : Nat) (name : Str) : Volume :=
  if volume.view.NeedsBlock dir (align4 (Ext4DirEntry.fixedSize + name.len)) then
    match (allocateEntry volume.view dir).run volume with
    | .ok () after => after
    | .err _ _ => volume
    | .panic => volume
  else volume

theorem SameAllocator.run_allocateEntry {volume other after : Volume}
    (same : SameAllocator volume other) {view : View} {dir : Nat}
    (ran : (allocateEntry view dir).run other = .ok () after) :
    ∃ last, (allocateEntry view dir).run volume = .ok () last ∧ SameAllocator last after := by
  obtain ⟨new, first, handed, ran⟩ := of_run_bind_ok ran
  obtain ⟨blocks, second, allocated, freed⟩ := of_run_bind_ok ran
  obtain ⟨firstLast, handedToo, sameFirst⟩  := same.run_handOut handed
  obtain ⟨secondLast, allocatedToo, sameSecond⟩ := sameFirst.run_allocBlocks allocated
  obtain ⟨last, freedToo, sameLast⟩ := sameSecond.run_deallocBlocks freed
  exact ⟨last, (run_bind_ok handedToo).trans ((run_bind_ok allocatedToo).trans freedToo), sameLast⟩

section Entering

variable {reserved : Set Nat} {dir : Nat} {volume after : Volume}
  (mounted : volume.view.Mounted reserved) (directory : volume.view.Directory reserved dir)

include mounted directory

/-- Appending a block to a directory allocates as `allocateEntry` does. -/
theorem sameAllocator_ensureBlocks
    (endEq : logicalEnd (volume.view.extents dir) = volume.view.blockCount dir)
    {extents : List Ext4Extent}
    (ran : ((volume.view.fs.handle dir).ensureBlocks (volume.view.blockCount dir + 1)).run volume =
      .ok extents after) :
    ∃ last, (allocateEntry volume.view dir).run volume = .ok () last ∧
      SameAllocator last after := by
  rw [Inode.ensureBlocks, run_bind_ok (view_currentExtents mounted directory.isInode
    directory.owning directory.coherent)] at ran
  simp only [show ((volume.view.extents dir).map Ext4Extent.lend).foldl max 0 =
    volume.view.blockCount dir from endEq] at ran
  rw [if_neg (by omega), Nat.add_sub_cancel_left, appendRange] at ran
  obtain ⟨appended, zeroed, appending, ran⟩ := of_run_bind_ok ran
  rcases view_allocZeroed mounted with ⟨allocated, _⟩ |
    ⟨pblock, taken, allocated, isItem, free, state⟩
  · rw [run_bind_ok allocated, run_bind_err (run_okOr_none _ _)] at appending
    cases appending
  · rw [run_bind_ok allocated, run_bind_ok (run_okOr_some _ _ _),
      run_bind_ok (run_writeBlock _ _ _)] at appending
    cases appending
    have handed : (handOut 1).run volume = .ok [pblock] (taken.putBlock pblock .zeroed) := by
      rw [handOut, run_bind_ok allocated]
      rfl
    obtain ⟨_, unchanged⟩ := volume.view.zeroFresh_frame mounted directory.isInode
      directory.owning directory.coherent (View.Fresh.cons isItem free (View.fresh_nil _))
    rw [← state] at unchanged
    have zeroedMounted : (taken.putBlock pblock .zeroed).view.Mounted reserved := by
      rw [state]
      exact mounted.zeroFresh _
    have sameFs : (taken.putBlock pblock .zeroed).view.fs = volume.view.fs := by
      rw [state]
      rfl
    obtain ⟨_, persisted, persisting, ran⟩ := of_run_bind_ok ran
    rw [← sameFs] at persisting
    obtain ⟨blocks, middle, last, allocatedTree, freed, same⟩ :=
      exchanged_persistExtents zeroedMounted (by rw [sameFs]; exact directory.isInode)
        (unchanged.owning directory.owning) persisting
    have treeEq : (taken.putBlock pblock .zeroed).view.tree dir = volume.view.tree dir :=
      (View.extents_congr unchanged.inode fun blockId isNode =>
        unchanged.data blockId (View.mem_owned.mpr (Or.inr isNode))).2
    rw [treeEq] at freed
    cases ran
    exact ⟨last, (run_bind_ok handed).trans ((run_bind_ok allocatedTree).trans freed),
      same.trans ⟨rfl, rfl, rfl, rfl, fun _ _ _ => rfl⟩⟩

omit mounted directory in
theorem SameAllocator.of_finishAppend {self : Inode}
    (fits : self.blockOffset + inodeStructSize ≤ blockSz)
    (selfOutside : ¬ volume.fs.IsBitmap self.blockId) {pblock : Nat}
    (outside : ¬ volume.fs.IsBitmap pblock) {newBlockIndex inodeNum : Nat} {fileType : UInt8}
    {name : Str} (short : name.len ≤ ext4NameLen)
    (ran : (finishAppend self newBlockIndex inodeNum fileType name pblock).run volume =
      .ok () after) : SameAllocator volume after := by
  have wrote := run_dirWriteEntryAt volume pblock 0 blockSz inodeNum fileType short
    (align4_record_le short)
  rw [if_pos (by omega)] at wrote
  rw [finishAppend, run_bind_ok wrote, Inode.run_modifyDiskInode fits] at ran
  cases ran
  have entered : SameAllocator volume (volume.putBlock pblock
      ((volume.disk pblock).putEntry 0 blockSz inodeNum fileType name)) :=
    SameAllocator.of_putBlock outside _
  have selfOutside : ¬ (volume.putBlock pblock
      ((volume.disk pblock).putEntry 0 blockSz inodeNum fileType name)).fs.IsBitmap self.blockId :=
    selfOutside
  exact entered.trans (SameAllocator.of_putBlock selfOutside _)

/-- The state of the block allocator behind the entry of a name, when there is one. -/
def EntryLeaves (volume : Volume) (dir : Nat) (name : Str) (left : Volume) : Prop :=
  (volume.view.NeedsBlock dir (align4 (Ext4DirEntry.fixedSize + name.len)) ∧
      (allocateEntry volume.view dir).run volume = .ok () left) ∨
    (¬ volume.view.NeedsBlock dir (align4 (Ext4DirEntry.fixedSize + name.len)) ∧ left = volume)

omit mounted directory in
theorem leftByEntry_eq {name : Str} {left : Volume} (leaves : EntryLeaves volume dir name left) :
    leftByEntry volume dir name = left := by
  rw [leftByEntry]
  rcases leaves with ⟨needs, ran⟩ | ⟨spares, rfl⟩
  · rw [if_pos needs, ran]
  · rw [if_neg spares]

omit mounted directory in
/-- In a state with the same allocator and the same directory an entry leaves the same. -/
theorem EntryLeaves.congr {other left : Volume} {name : Str}
    (leaves : EntryLeaves other dir name left) (same : SameAllocator volume other)
    (unchanged : Unchanged volume.view other.view dir) :
    ∃ last, EntryLeaves volume dir name last ∧ SameAllocator last left := by
  rcases leaves with ⟨needs, ran⟩ | ⟨spares, rfl⟩
  · have sameTree : other.view.tree dir = volume.view.tree dir :=
      (View.extents_congr unchanged.inode fun blockId isNode =>
        unchanged.data blockId (View.mem_owned.mpr (Or.inr isNode))).2
    have sameCalls : allocateEntry other.view dir = allocateEntry volume.view dir := by
      simp only [allocateEntry, unchanged.appended_eq, sameTree]
    rw [sameCalls] at ran
    obtain ⟨last, ranToo, sameLast⟩ := same.run_allocateEntry ran
    exact ⟨last, Or.inl ⟨(unchanged.needsBlock _).mp needs, ranToo⟩, sameLast⟩
  · exact ⟨volume, Or.inr ⟨fun needs => spares ((unchanged.needsBlock _).mpr needs), rfl⟩, same⟩

/-- Appending a block for an entry. -/
theorem sameAllocator_dirAppendEntry {name : Str} (short : name.len ≤ ext4NameLen)
    (endEq : logicalEnd (volume.view.extents dir) = volume.view.blockCount dir)
    (small : volume.view.blockCount dir < u32Max) {inodeNum : Nat} {fileType : UInt8}
    (ran : ((volume.view.fs.handle dir).dirAppendEntry (volume.view.blockCount dir) inodeNum
      fileType name).run volume = .ok () after) :
    ∃ last, (allocateEntry volume.view dir).run volume = .ok () last ∧
      SameAllocator last after := by
  have next : (volume.view.blockCount dir + 1) % 2 ^ 32 = volume.view.blockCount dir + 1 :=
    Nat.mod_eq_of_lt (by
      simp only [u32Max] at small
      omega)
  rw [Inode.dirAppendEntry, next] at ran
  rcases ensureBlocks_outcome mounted directory endEq small with
    ⟨_, new, grown, _, ensured, enough, _, fresh, extended⟩ | ⟨_, _, _, failed, _⟩
  · obtain ⟨pblock, rfl⟩ := List.length_eq_one_iff.mp enough
    have free := mounted.guarded.fresh (fresh.items pblock List.mem_cons_self)
      (fresh.free pblock List.mem_cons_self)
    have mapped := directory.mapLogicalBlock_appended endEq small free.2.2
    obtain ⟨last, allocated, same⟩ := sameAllocator_ensureBlocks mounted directory endEq ensured
    rw [run_bind_ok ensured] at ran
    simp only [List.headD_cons, mapped] at ran
    rw [run_bind_ok (run_okOr_some _ _ _)] at ran
    have grownFs := extended.step.fs
    have sameBitmaps (blockId : Nat) : grown.fs.IsBitmap blockId ↔
        volume.view.fs.IsBitmap blockId := by
      rw [← grownFs]
      exact Iff.rfl
    obtain ⟨_, _, selfOutside, fits⟩ :=
      mounted.layout.handle_spec mounted.geometry directory.isInode
    exact ⟨last, allocated, same.trans (SameAllocator.of_finishAppend fits
      (by rw [sameBitmaps]; exact selfOutside) (by rw [sameBitmaps]; exact free.2.1) short ran)⟩
  · rw [run_bind_err failed] at ran
    cases ran

/-- The name can be entered: its slot ends inside the block, or the block that it needs
can be mapped, or the next one is mapped already. -/
structure EntryFits (volume : Volume) (dir : Nat) (name : Str) : Prop where
  slot : volume.view.SlotInside dir name
  room : volume.view.NeedsBlock dir (align4 (Ext4DirEntry.fixedSize + name.len)) →
    RoomFor volume (volume.view.appended dir ((handedOut volume 1).headD 0)) 1
  mapped : volume.view.slotFor dir (align4 (Ext4DirEntry.fixedSize + name.len)) = none →
    ¬ volume.view.EndsMapped dir →
      mapLogicalBlock (volume.view.extents dir) (volume.view.blockCount dir) ≠ none

omit mounted directory in
/-- The same blocks can be taken from two states with the same block allocator. -/
theorem SameAllocator.roomFor_iff {volume other : Volume} (same : SameAllocator volume other)
    (geometry : Geometry volume.view.fs) (result : List Ext4Extent) (count : Nat) :
    RoomFor other result count ↔ RoomFor volume result count := by
  rw [RoomFor, RoomFor, View.hasFree_congr same.view_fs fun blockId => by
    rw [same.held_block geometry]]

omit mounted directory in
/-- Whether a name fits depends on the block allocator and the directory. -/
theorem entryFits_congr {volume other : Volume} (same : SameAllocator volume other)
    (geometry : Geometry volume.view.fs) {dir : Nat}
    (unchanged : Unchanged volume.view other.view dir) (name : Str) :
    EntryFits other dir name ↔ EntryFits volume dir name := by
  have sameCount : other.view.blockCount dir = volume.view.blockCount dir := by
    rw [View.blockCount, unchanged.inode, View.blockCount]
  have sameSlot : other.view.SlotInside dir name ↔ volume.view.SlotInside dir name := by
    rw [View.SlotInside, View.SlotInside, unchanged.slotFor_eq]
  constructor
  · rintro ⟨slot, room, mapped⟩
    rw [same.handedOut_eq, unchanged.needsBlock, unchanged.appended_eq,
      same.roomFor_iff geometry] at room
    rw [unchanged.slotFor_eq, unchanged.endsMapped, unchanged.extents_eq, sameCount] at mapped
    exact ⟨sameSlot.mp slot, room, mapped⟩
  · rintro ⟨slot, room, mapped⟩
    refine ⟨sameSlot.mpr slot, ?_, ?_⟩
    · rw [same.handedOut_eq, unchanged.needsBlock, unchanged.appended_eq,
        same.roomFor_iff geometry]
      exact room
    · rw [unchanged.slotFor_eq, unchanged.endsMapped, unchanged.extents_eq, sameCount]
      exact mapped

/-- The call enters the name exactly when it fits, and the allocator is then as
`leftByEntry` says. -/
def EntersFitting (volume : Volume) (dir : Nat) (name : Str)
    (outcome : Outcome Ext4Error Volume Unit) : Prop :=
  (EntryFits volume dir name ∧ ∃ after left, outcome = .ok () after ∧
      EntryLeaves volume dir name left ∧ SameAllocator left after) ∨
    (¬ EntryFits volume dir name ∧ ∀ after, outcome ≠ .ok () after)

omit mounted directory in
theorem EntersFitting.congr {other : Volume} {name : Str}
    {outcome : Outcome Ext4Error Volume Unit} (enters : EntersFitting other dir name outcome)
    (same : SameAllocator volume other) (geometry : Geometry volume.view.fs)
    (unchanged : Unchanged volume.view other.view dir) :
    EntersFitting volume dir name outcome := by
  rw [EntersFitting, entryFits_congr same geometry unchanged] at enters
  refine enters.imp ?_ id
  rintro ⟨fits, after, left, ended, leaves, sameLeft⟩
  obtain ⟨last, lastLeaves, sameLast⟩ := leaves.congr same unchanged
  exact ⟨fits, after, last, ended, lastLeaves, sameLast.trans sameLeft⟩

theorem notBitmap_of_mapped {l pblock : Nat}
    (isMapped : mapLogicalBlock (volume.view.extents dir) l = some pblock) :
    ¬ volume.view.fs.IsBitmap pblock := fun isBitmap =>
  directory.owning.outside pblock (View.mem_owned.mpr
    (Or.inl (maps_of_mapLogicalBlock isMapped).mem_dataBlocks))
    (mounted.layout.bitmaps pblock isBitmap)

/-- A slot is filled when it ends inside the block. -/
theorem fillSlot_fits {name : Str} (short : name.len ≤ ext4NameLen) {pblock : Nat}
    {slot : DirSlot}
    (chosen : volume.view.slotFor dir (align4 (Ext4DirEntry.fixedSize + name.len)) =
      some (pblock, slot)) (inodeNum : Nat) (fileType : UInt8) :
    EntersFitting volume dir name
      ((fillSlot pblock inodeNum fileType name slot).run volume) := by
  obtain ⟨l, _, _, isMapped, found⟩ := findSlotFrom_eq_some chosen
  have spares : ¬ volume.view.NeedsBlock dir
      (align4 (Ext4DirEntry.fixedSize + name.len)) := fun needs => by
    rw [NeedsBlock, chosen] at needs
    cases needs.1
  rcases run_fillSlot_short volume pblock inodeNum fileType short (findSlot_room found) with
    ⟨past, panics⟩ | ⟨stops, block, filled⟩
  · refine Or.inr ⟨fun fits => ?_, fun after ended => ?_⟩
    · have inside := fits.slot pblock slot chosen
      omega
    · rw [panics] at ended
      cases ended
  · refine Or.inl ⟨⟨?_, fun needs => absurd needs spares, fun none => ?_⟩, _, volume, filled,
      Or.inr ⟨spares, rfl⟩,
      SameAllocator.of_putBlock (notBitmap_of_mapped mounted directory isMapped) block⟩
    · intro other otherSlot otherChosen
      rw [chosen] at otherChosen
      cases otherChosen
      exact stops
    · rw [chosen] at none
      cases none

/-- A block is appended when there is room for it, or when the next one is
mapped already. -/
theorem dirAppendEntry_fits {name : Str} (short : name.len ≤ ext4NameLen)
    (chosen : volume.view.slotFor dir (align4 (Ext4DirEntry.fixedSize + name.len)) = none)
    (inodeNum : Nat) (fileType : UInt8) :
    EntersFitting volume dir name (((volume.view.fs.handle dir).dirAppendEntry
      (volume.view.blockCount dir) inodeNum fileType name).run volume) := by
  have noSlot : volume.view.SlotInside dir name := fun pblock slot isChosen => by
    rw [chosen] at isChosen
    cases isChosen
  obtain ⟨_, _, selfOutside, fits⟩ :=
    mounted.layout.handle_spec mounted.geometry directory.isInode
  rcases dirAppendEntry_outcome mounted directory inodeNum fileType name with
    ⟨ends, room, pblock, between, _, _, _, ended⟩ | ⟨ends, noRoom, error, after, ended, _⟩ |
    ⟨notEnds, between, reread, ended⟩
  · left
    refine ⟨⟨noSlot, fun _ => room, fun _ notEnds => absurd ends notEnds⟩, ?_⟩
    obtain ⟨after, finished⟩ := run_finishAppend_short fits between
      (volume.view.blockCount dir) inodeNum fileType short pblock
    have added := ended.trans finished
    obtain ⟨last, allocated, same⟩ := sameAllocator_dirAppendEntry mounted directory short ends.1
      ends.2 added
    exact ⟨after, last, added, Or.inl ⟨⟨chosen, ends⟩, allocated⟩, same⟩
  · refine Or.inr ⟨fun fits => noRoom (fits.room ⟨chosen, ends⟩), fun other isOk => ?_⟩
    rw [ended] at isOk
    cases isOk
  · have spares : ¬ volume.view.NeedsBlock dir
        (align4 (Ext4DirEntry.fixedSize + name.len)) := fun needs => notEnds needs.2
    rw [ended]
    cases isMapped : mapLogicalBlock (volume.view.extents dir) (volume.view.blockCount dir) with
    | none =>
        refine Or.inr ⟨fun fits => fits.mapped chosen notEnds isMapped, fun other isOk => ?_⟩
        cases isOk
    | some pblock =>
        left
        refine ⟨⟨noSlot, fun needs => absurd needs spares, fun _ _ => ?_⟩, ?_⟩
        · rw [isMapped]
          exact Option.some_ne_none pblock
        · obtain ⟨after, finished⟩ := run_finishAppend_short fits between
            (volume.view.blockCount dir) inodeNum fileType short pblock
          have sameBetween : SameAllocator volume between := by
            refine ⟨?_, ?_, ?_, ?_, fun _ _ _ => ?_⟩ <;> rw [reread.state]
          have betweenBitmaps (blockId : Nat) : between.fs.IsBitmap blockId ↔
              volume.view.fs.IsBitmap blockId := by
            rw [show between.fs = volume.fs by rw [reread.state]]
            exact Iff.rfl
          exact ⟨after, volume, finished, Or.inr ⟨spares, rfl⟩,
            sameBetween.trans (SameAllocator.of_finishAppend fits
              (by rw [betweenBitmaps]; exact selfOutside)
              (by rw [betweenBitmaps]; exact notBitmap_of_mapped mounted directory isMapped) short
              finished)⟩

/-- A short absent name is entered exactly when it fits. -/
theorem dirAddEntry_fits {name : Str} (nonempty : name.isEmpty = false)
    (short : name.len ≤ ext4NameLen) (absent : (volume.view.dirIndex dir)[name]? = none)
    (inodeNum : Nat) (fileType : UInt8) :
    EntersFitting volume dir name
      (((volume.view.fs.handle dir).dirAddEntry name inodeNum fileType).run volume) := by
  obtain ⟨middle, consulted, ran⟩ := run_dirAddEntry mounted directory nonempty absent
    (align4_record_le short) inodeNum fileType
  have looked : Looked reserved dir volume middle := consulted.looked
  have middleMounted := looked.mounted mounted
  have middleDirectory := looked.directory mounted directory
  have unchanged := looked.unchanged mounted directory
  have sameCount : middle.view.blockCount dir = volume.view.blockCount dir := by
    rw [View.blockCount, unchanged.inode, View.blockCount]
  rw [ran, ← unchanged.slotFor_eq, ← sameCount, ← looked.view_fs]
  refine EntersFitting.congr ?_ looked.sameAllocator mounted.geometry unchanged
  cases chosen : middle.view.slotFor dir (align4 (Ext4DirEntry.fixedSize + name.len)) with
  | some pair => exact fillSlot_fits middleMounted middleDirectory short chosen inodeNum fileType
  | none => exact dirAppendEntry_fits middleMounted middleDirectory short chosen inodeNum fileType

end Entering

section Creating

variable {reserved : Set Nat} {dir : Nat} {volume : Volume}
  (mounted : volume.view.Mounted reserved) (directory : volume.view.Directory reserved dir)

include mounted directory

/-- An inode is made under a name exactly when a number is free and the name fits. -/
theorem createInode_fits {first : Volume} (looked : Looked reserved dir volume first) {name : Str}
    (enters : Enters volume.view dir name) (fileType : UInt8) (inode : Ext4Inode) :
    ((volume.view.HasFreeInode ∧ EntryFits volume dir name) ∧ ∃ handle after left,
      ((volume.view.fs.handle dir).createInode name fileType inode).run first =
          .ok handle after ∧
        EntryLeaves volume dir name left ∧ SameAllocator left after) ∨
    (¬ (volume.view.HasFreeInode ∧ EntryFits volume dir name) ∧ ∀ handle after,
      ((volume.view.fs.handle dir).createInode name fileType inode).run first ≠
        .ok handle after) := by
  rw [Inode.createInode]
  rcases prepared_allocInode mounted directory looked with ⟨allocated, full⟩ |
    ⟨inodeNum, second, third, allocated, invalidated, _, _, state⟩
  · refine Or.inr ⟨?_, fun handle after isOk => ?_⟩
    · rintro ⟨⟨item, isItem, free⟩, _⟩
      exact free (full item isItem)
    · rw [run_bind_ok allocated, run_bind_err (run_okOr_none _ _)] at isOk
      cases isOk
  · have hasFree : volume.view.HasFreeInode :=
      ⟨inodeNum, View.isInode_iff.mpr state.isInode, state.freeInode⟩
    have thirdMounted := state.mounted mounted
    have position : third.fs.getInodePos inodeNum = some _ :=
      (thirdMounted.layout.handle_spec thirdMounted.geometry (by
        rw [state.fs]; exact state.isInode)).1
    obtain ⟨prepared, wrote, _, preparedState⟩ :=
      prepared_writeInode mounted directory state inode
    rw [run_bind_ok allocated, run_bind_ok (run_okOr_some _ _ _), run_bind_ok invalidated,
      run_bind_ok (run_get _), position, run_bind_ok (run_expect_some _ _)]
    simp only
    rw [run_bind_ok wrote]
    have outcome := (dirAddEntry_fits (preparedState.mounted mounted)
      (preparedState.directory directory) enters.nonempty enters.short
      (by rw [preparedState.index]; exact enters.absent) inodeNum fileType).congr
        (preparedState.allocator rfl) mounted.geometry preparedState.unchanged
    rw [preparedState.fs] at outcome
    rcases outcome with ⟨fits, added, left, entered, leaves, same⟩ | ⟨noFit, fails⟩
    · left
      obtain ⟨cache, updated⟩ := run_dirIndexCacheUpdate added dir
        (·.insert name (inodeNum, fileType))
      have entering : ((volume.view.fs.handle dir).enterNewInode name inodeNum fileType
          (pure ())).run prepared = .ok () { added with dirIndexCache := cache } := by
        rw [Inode.enterNewInode, run_bind_ok (run_attempt_ok entered)]
        exact updated
      exact ⟨⟨hasFree, fits⟩, _, _, left, run_bind_ok entering, leaves,
        same.trans ⟨rfl, rfl, rfl, rfl, fun _ _ _ => rfl⟩⟩
    · refine Or.inr ⟨fun both => noFit both.2, fun handle after isOk => ?_⟩
      obtain ⟨_, entered, entering, _⟩ := of_run_bind_ok isOk
      rw [Inode.enterNewInode] at entering
      obtain ⟨result, added, attempted, rest⟩ := of_run_bind_ok entering
      cases result with
      | error error =>
          obtain ⟨_, _, _, rest⟩ := of_run_bind_ok rest
          obtain ⟨_, _, _, thrown⟩ := of_run_bind_ok rest
          cases thrown
      | ok value => exact fails added (of_run_attempt_ok attempted)

end Creating

end Ext4

end OSWorkspace
