import OSWorkspace.Ext4DirectoryInsertions
import OSWorkspace.Ext4FailedWrites

/-!
# Failed creations

A call that makes an inode takes a number, for a directory also a block, and
then enters the name.  Entering may grow the parent.  This file gives the exact
condition, on the state before the call, under which a failed call leaves the
bitmaps and the parent as they were.
-/

namespace OSWorkspace

namespace Ext4

open Exec View

/-- The calls that make a new inode under a name. -/
inductive Creation where
  | file
  | special (mode rdev : Nat)
  | symlink (target : Str)
  | dir

def Creation.call (self : Inode) (name : Str) : Creation → Call Inode
  | .file => self.createFile name
  | .special mode rdev => self.createSpecial name mode rdev
  | .symlink target => self.createSymlink name target
  | .dir => self.createDir name

/-- The numbers and blocks in use, the entries and the link count of a directory
are the same. -/
structure LeavesDirectory (dir : Nat) (view after : View) : Prop where
  inodes : after.held .inode = view.held .inode
  blocks : after.held .block = view.held .block
  entries : after.entries dir = view.entries dir
  links : (after.inode dir).iLinksCount = (view.inode dir).iLinksCount

/-- An error leaves the directory. -/
def ErrorLeaves {α : Type} (dir : Nat) (view : View) (outcome : Outcome Ext4Error Volume α) :
    Prop :=
  ∀ error after, outcome = .err error after → LeavesDirectory dir view after.view

/-- A call that returns an error has changed nothing. -/
def FailsUnchanged {α : Type} (call : Call α) (dir : Nat) (volume : Volume) : Prop :=
  ErrorLeaves dir volume.view (call.run volume)

section Errors

variable {α : Type} {dir : Nat} {view : View}

theorem errorLeaves_panic : ErrorLeaves dir view (.panic : Outcome Ext4Error Volume α) :=
  fun _ _ => nofun

theorem errorLeaves_ok (value : α) (after : Volume) : ErrorLeaves dir view (.ok value after) :=
  fun _ _ => nofun

theorem errorLeaves_err {error : Ext4Error} {after : Volume} :
    ErrorLeaves dir view (.err error after : Outcome Ext4Error Volume α) ↔
      LeavesDirectory dir view after.view := by
  constructor
  · exact fun leaves => leaves error after rfl
  · intro leaves other last same
    cases same
    exact leaves

/-- What follows a call and returns no error does not matter. -/
theorem errorLeaves_bind {β : Type} {first : Call α} {rest : α → Call β} {volume : Volume}
    (noError : ∀ value middle error after, (rest value).run middle ≠ .err error after) :
    ErrorLeaves dir view ((first >>= rest).run volume) ↔
      ErrorLeaves dir view (first.run volume) := by
  cases ran : first.run volume with
  | ok value middle =>
      rw [run_bind_ok ran]
      exact iff_of_true (fun error after failed => absurd failed (noError value middle error after))
        (errorLeaves_ok _ _)
  | err error after =>
      rw [run_bind_err ran, errorLeaves_err, errorLeaves_err]
  | panic =>
      rw [run_bind_panic ran]
      exact iff_of_true errorLeaves_panic errorLeaves_panic

end Errors

theorem LeavesDirectory.refl (dir : Nat) (view : View) : LeavesDirectory dir view view :=
  ⟨rfl, rfl, rfl, rfl⟩

theorem Looked.leaves {reserved : Set Nat} {dir : Nat} {volume after : Volume}
    (looked : Looked reserved dir volume after) (mounted : volume.view.Mounted reserved)
    (directory : volume.view.Directory reserved dir) :
    LeavesDirectory dir volume.view after.view := by
  have unchanged := looked.unchanged mounted directory
  have sameHeld := looked.held_eq mounted.geometry
  exact ⟨by rw [sameHeld], by rw [sameHeld], unchanged.entries_eq, by rw [unchanged.inode]⟩

/-- A name that may enter the directory. -/
structure Enters (view : View) (dir : Nat) (name : Str) : Prop where
  nonempty : name.isEmpty = false
  short : name.len ≤ ext4NameLen
  absent : (view.dirIndex dir)[name]? = none

theorem checkNewName_outcome {reserved : Set Nat} {dir : Nat} {volume : Volume}
    (mounted : volume.view.Mounted reserved) (directory : volume.view.Directory reserved dir)
    (name : Str) :
    (Enters volume.view dir name ∧
      ∃ after, ((volume.view.fs.handle dir).checkNewName name).run volume = .ok () after ∧
        Looked reserved dir volume after) ∨
    (¬ Enters volume.view dir name ∧
      (((volume.view.fs.handle dir).checkNewName name).run volume = .panic ∨
        ∃ error after, ((volume.view.fs.handle dir).checkNewName name).run volume =
            .err error after ∧
          LeavesDirectory dir volume.view after.view)) := by
  rw [Inode.checkNewName, run_bind_ok (run_isDir_dir mounted directory)]
  simp only [not_true_eq_false, if_false]
  by_cases empty : name.isEmpty = true
  · refine Or.inr ⟨fun enters => absurd (empty.symm.trans enters.nonempty) (by decide),
      Or.inr ⟨.invalidInput, volume, ?_, LeavesDirectory.refl _ _⟩⟩
    rw [if_pos empty]
    rfl
  · rw [if_neg empty]
    by_cases long : name.len > ext4NameLen
    · refine Or.inr ⟨fun enters => absurd enters.short (by omega),
        Or.inr ⟨.nameTooLong, volume, ?_, LeavesDirectory.refl _ _⟩⟩
      rw [if_pos long]
      rfl
    · rw [if_neg long]
      rcases run_find mounted directory name with
        ⟨absent, after, ran, looked⟩ | ⟨child, fileType, found, outcome⟩
      · refine Or.inl ⟨⟨by simpa using empty, by omega, absent⟩, after, ?_, looked⟩
        rw [run_bind_ok ran]
        rfl
      · refine Or.inr ⟨fun enters => absurd (found.symm.trans enters.absent) (by simp), ?_⟩
        rcases outcome with ⟨_, panics⟩ | ⟨after, ran, _, looked⟩
        · exact Or.inl (run_bind_panic panics)
        · refine Or.inr ⟨.alreadyExists, after, ?_, looked.leaves mounted directory⟩
          rw [run_bind_ok ran]
          rfl

/-- A number and some blocks were taken and written; the directory is as before. -/
structure Prepared (dir : Nat) (volume prepared : Volume) (inodeNum : Nat) (taken : List Nat) :
    Prop where
  fs : prepared.view.fs = volume.view.fs
  inodes : prepared.view.held .inode = insert inodeNum (volume.view.held .inode)
  blocks : ∀ blockId, blockId ∈ prepared.view.held .block ↔
    blockId ∈ volume.view.held .block ∨ blockId ∈ taken
  isInode : volume.view.fs.IsInode inodeNum
  freeInode : inodeNum ∉ volume.view.held .inode
  fresh : volume.view.Fresh taken
  unchanged : Unchanged volume.view prepared.view dir
  coherent : prepared.view.Coherent dir
  index : prepared.view.dirIndex dir = volume.view.dirIndex dir
  handed : ∀ count, handedOut volume (taken.length + count) = taken ++ handedOut prepared count
  allocator : taken = [] → SameAllocator volume prepared

namespace Prepared

variable {reserved : Set Nat} {dir : Nat} {volume prepared : Volume} {inodeNum : Nat}
  {taken : List Nat} (state : Prepared dir volume prepared inodeNum taken)

include state

theorem mounted (mounted : volume.view.Mounted reserved) : prepared.view.Mounted reserved := by
  refine ⟨by rw [state.fs]; exact mounted.geometry, by rw [state.fs]; exact mounted.small,
    by rw [state.fs]; exact mounted.layout, ?_⟩
  intro blockId isReserved
  exact (state.blocks blockId).mpr (Or.inl (mounted.reserved blockId isReserved))

theorem directory (directory : volume.view.Directory reserved dir) :
    prepared.view.Directory reserved dir := by
  refine directory.of_unchanged state.fs ?_ state.unchanged state.coherent state.index
  rw [state.inodes]
  exact Or.inr directory.inUse

theorem different (directory : volume.view.Directory reserved dir) : dir ≠ inodeNum := by
  rintro rfl
  exact state.freeInode directory.inUse

/-- A write to a block that holds nothing of the directory. -/
theorem putBlock (mounted : volume.view.Mounted reserved) {blockId : Nat}
    (outside : ¬ prepared.fs.IsBitmap blockId) (notOwned : blockId ∉ volume.view.owned dir)
    {block : Block}
    (sameInode : (prepared.view.put blockId block).inode dir = prepared.view.inode dir) :
    Prepared dir volume (prepared.putBlock blockId block) inodeNum taken := by
  have geometry := Volume.geometry_view.mp (state.mounted mounted).geometry
  have afterView := Volume.view_putBlock geometry outside block
  have unchanged : Unchanged prepared.view (prepared.view.put blockId block) dir := by
    refine ⟨sameInode, ?_, fun _ _ isHeld => isHeld⟩
    intro other isOwned
    apply Function.update_of_ne
    rintro rfl
    rw [state.unchanged.owned_eq] at isOwned
    exact notOwned isOwned
  constructor
  · rw [afterView]
    exact state.fs
  · rw [afterView]
    exact state.inodes
  · rw [afterView]
    exact state.blocks
  · exact state.isInode
  · exact state.freeInode
  · exact state.fresh
  · rw [afterView]
    exact state.unchanged.trans unchanged
  · rw [afterView]
    intro extents found
    rw [unchanged.extents_eq]
    exact state.coherent extents found
  · rw [afterView, ← state.index, View.dirIndex, View.dirIndex, unchanged.entries_eq]
    rfl
  · intro count
    rw [(SameAllocator.of_putBlock outside block).handedOut_eq]
    exact state.handed count
  · exact fun none => (state.allocator none).trans (SameAllocator.of_putBlock outside block)

theorem hasFree_iff (count : Nat) :
    prepared.view.HasFree count ↔ volume.view.HasFree (taken.length + count) := by
  rw [← hasFree_zeroFresh state.fresh]
  refine @View.hasFree_congr (volume.view.zeroFresh taken) prepared.view state.fs ?_ count
  intro blockId
  rw [state.blocks, View.mem_held_zeroFresh]

theorem roomFor_iff (result : List Ext4Extent) :
    RoomFor prepared result 1 ↔ RoomFor volume result (taken.length + 1) := by
  rw [RoomFor, RoomFor, state.hasFree_iff, Nat.add_assoc]

end Prepared

/-- The caches without the entries of an inode. -/
def View.forget (view : View) (inodeNum : Nat) : View :=
  { view with
    extentsCache := view.extentsCache.erase inodeNum
    dirIndexCache := view.dirIndexCache.erase inodeNum }

theorem run_inodeCachesInvalidate (volume : Volume) (inodeNum : Nat) :
    ∃ after, (inodeCachesInvalidate inodeNum).run volume = .ok () after ∧
      after.fs = volume.fs ∧ after.disk = volume.disk ∧
      after.view = volume.view.forget inodeNum := by
  refine ⟨_, rfl, rfl, rfl, ?_⟩
  exact (Volume.view_setExtentsCache
    { volume with dirIndexCache := volume.dirIndexCache.erase inodeNum } _).trans (by
      rw [Volume.view_setDirIndexCache]
      rfl)

theorem run_dirIndexCacheUpdate (volume : Volume) (inodeNum : Nat)
    (change : DirIndex → DirIndex) :
    ∃ cache, (dirIndexCacheUpdate inodeNum change).run volume =
      .ok () { volume with dirIndexCache := cache } :=
  ⟨_, rfl⟩

theorem getElem?_of_erase {β : Type} {cache : Std.TreeMap Nat β} {erased key : Nat} {value : β}
    (found : (cache.erase erased)[key]? = some value) : cache[key]? = some value := by
  rw [Std.TreeMap.getElem?_erase] at found
  split at found
  · cases found
  · exact found

theorem getElem?_erase_of_ne {β : Type} (cache : Std.TreeMap Nat β) {erased key : Nat}
    (different : key ≠ erased) : (cache.erase erased)[key]? = cache[key]? := by
  rw [Std.TreeMap.getElem?_erase, if_neg]
  rw [Std.LawfulEqCmp.compare_eq_iff_eq]
  exact Ne.symm different

theorem run_writeInodeAt {blockId offset : Nat} (fits : offset + inodeStructSize ≤ blockSz)
    (volume : Volume) (inode : Ext4Inode) :
    (writeInodeAt blockId offset inode).run volume =
      .ok () (volume.putBlock blockId ((volume.disk blockId).paste offset inode)) := by
  rw [writeInodeAt, run_bind_ok (run_readBlock _ _), run_bind_ok (run_check fits _),
    run_writeBlock]

section Preparing

variable {reserved : Set Nat} {dir : Nat} {volume : Volume}
  (mounted : volume.view.Mounted reserved) (directory : volume.view.Directory reserved dir)

include mounted directory

/-- Taking an inode number after a lookup. -/
theorem prepared_allocInode {first : Volume} (looked : Looked reserved dir volume first) :
    (allocInode.run first = .ok none first ∧
      ∀ item, volume.view.IsItem .inode item → item ∈ volume.view.held .inode) ∨
    ∃ inodeNum second third, allocInode.run first = .ok (some inodeNum) second ∧
      (inodeCachesInvalidate inodeNum).run second = .ok () third ∧
      third.view.extentsCache[inodeNum]? = none ∧
      (∀ other, third.view.inode other = first.view.inode other) ∧
      Prepared dir volume third inodeNum [] := by
  have sameHeld := looked.held_eq mounted.geometry
  have firstMounted := looked.mounted mounted
  have unchanged := looked.unchanged mounted directory
  rcases view_allocInode firstMounted.geometry with ⟨ran, full⟩ |
    ⟨inodeNum, second, ran, isItem, free, secondView⟩
  · left
    refine ⟨ran, ?_⟩
    intro item isItem
    rw [← sameHeld]
    apply full
    rw [View.IsItem, looked.view_fs]
    exact isItem
  · right
    obtain ⟨third, invalidated, sameFs, sameDisk, thirdView⟩ :=
      run_inodeCachesInvalidate second inodeNum
    rw [secondView] at thirdView
    have isInode : volume.view.fs.IsInode inodeNum := by
      rw [← looked.view_fs]
      exact View.isInode_iff.mp isItem
    have freeHere : inodeNum ∉ volume.view.held .inode := by
      rw [← sameHeld]
      exact free
    have different : dir ≠ inodeNum := by
      rintro rfl
      exact freeHere directory.inUse
    have untouched : Unchanged first.view ((first.view.hold .inode inodeNum).forget inodeNum)
        dir := ⟨rfl, fun _ _ => rfl, fun _ _ isHeld => isHeld⟩
    have sameThird : SameAllocator second third :=
      ⟨by rw [sameFs], by rw [sameFs], by rw [sameFs], by rw [sameFs],
        fun _ _ _ => by rw [sameDisk]⟩
    have same := (looked.sameAllocator.trans
      (SameAllocator.of_allocInode firstMounted.geometry ran)).trans sameThird
    refine ⟨inodeNum, second, third, ran, invalidated, ?_, ?_, ?_⟩
    · rw [thirdView]
      exact Std.TreeMap.getElem?_erase_self
    · intro other
      rw [thirdView]
      rfl
    constructor
    · rw [thirdView, ← looked.view_fs]
      rfl
    · rw [thirdView, ← sameHeld]
      simp [View.forget, View.hold]
    · intro blockId
      rw [thirdView, ← sameHeld]
      simp only [List.not_mem_nil, or_false]
      rfl
    · exact isInode
    · exact freeHere
    · exact View.fresh_nil _
    · rw [thirdView]
      exact unchanged.trans untouched
    · rw [thirdView]
      intro extents found
      rw [untouched.extents_eq]
      exact looked.coherent extents (getElem?_of_erase found)
    · rw [thirdView, ← looked.dirIndex_eq, View.dirIndex, View.dirIndex, untouched.entries_eq]
      have sameCache : ((first.view.hold .inode inodeNum).forget inodeNum).dirIndexCache[dir]? =
          first.view.dirIndexCache[dir]? := getElem?_erase_of_ne _ different
      rw [sameCache]
    · intro count
      rw [same.handedOut_eq, List.length_nil, Nat.zero_add, List.nil_append]
    · exact fun _ => same

variable {prepared : Volume} {inodeNum : Nat} {taken : List Nat}
  (state : Prepared dir volume prepared inodeNum taken)

include state

/-- Writing the inode whose number was taken. -/
theorem prepared_writeInode (inode : Ext4Inode) :
    ∃ after, (writeInode inodeNum inode).run prepared = .ok () after ∧
      after.view = prepared.view.putInode inodeNum inode ∧
      Prepared dir volume after inodeNum taken := by
  have preparedMounted := state.mounted mounted
  have isInode : prepared.view.fs.IsInode inodeNum := by
    rw [state.fs]
    exact state.isInode
  obtain ⟨position, isReserved, outside, fits⟩ :=
    preparedMounted.layout.handle_spec preparedMounted.geometry isInode
  have found : prepared.fs.getInodePos inodeNum = some _ := position
  refine ⟨prepared.putBlock (prepared.view.fs.handle inodeNum).blockId
    ((prepared.disk (prepared.view.fs.handle inodeNum).blockId).paste
      (prepared.view.fs.handle inodeNum).blockOffset inode), ?_, ?_, ?_⟩
  · rw [writeInode, run_bind_ok (run_get _), found, run_bind_ok (run_expect_some _ _)]
    exact run_writeInodeAt fits prepared inode
  · rw [Volume.view_putBlock (Volume.geometry_view.mp preparedMounted.geometry) outside,
      ← Volume.data_of_not_bitmap outside]
    rfl
  · refine state.putBlock mounted outside
      (fun isOwned => directory.owning.outside _ isOwned isReserved) ?_
    rw [← Volume.data_of_not_bitmap outside]
    exact inode_putInode_of_ne preparedMounted.layout preparedMounted.geometry isInode inode
      (by rw [state.fs]; exact directory.isInode) (state.different directory)

/-- Writing one of the blocks that were taken. -/
theorem prepared_writeTaken {blockId : Nat} (isTaken : blockId ∈ taken) (block : Block) :
    Prepared dir volume (prepared.putBlock blockId block) inodeNum taken := by
  have preparedMounted := state.mounted mounted
  have free := state.fresh.free blockId isTaken
  have notReserved := mounted.not_reserved free
  refine state.putBlock mounted ?_ (fun isOwned => free (directory.owning.held _ isOwned)) ?_
  · intro isBitmap
    exact notReserved (mounted.layout.bitmaps blockId (by rw [← state.fs]; exact isBitmap))
  · refine inode_congr preparedMounted.layout preparedMounted.geometry
      (by rw [state.fs]; exact directory.isInode) rfl ?_
    intro other isReserved
    apply Function.update_of_ne
    rintro rfl
    exact notReserved isReserved

end Preparing

/-- Taking and zeroing a block for a new directory. -/
theorem prepared_allocBlock {reserved : Set Nat} {dir : Nat} {volume prepared : Volume}
    (mounted : volume.view.Mounted reserved) (directory : volume.view.Directory reserved dir)
    {inodeNum : Nat} (state : Prepared dir volume prepared inodeNum []) :
    (allocBlock.run prepared = .ok none prepared ∧ ¬ volume.view.HasFree 1) ∨
      ∃ dataBlock after, allocBlock.run prepared = .ok (some dataBlock) after ∧
        Prepared dir volume (after.putBlock dataBlock .zeroed) inodeNum [dataBlock] := by
  have preparedMounted := state.mounted mounted
  have sameHeld (blockId : Nat) :
      blockId ∈ prepared.view.held .block ↔ blockId ∈ volume.view.held .block := by
    simpa using state.blocks blockId
  rcases view_allocZeroed preparedMounted with ⟨ran, full⟩ |
    ⟨dataBlock, after, ran, isItem, free, afterView⟩
  · refine Or.inl ⟨ran, ?_⟩
    rw [← View.hasFree_congr state.fs sameHeld]
    exact @not_hasFree_of_full _ [] 1 (by decide) fun item isItem => Or.inl (full item isItem)
  · right
    refine ⟨dataBlock, after, ran, ?_⟩
    have fresh : prepared.view.Fresh [dataBlock] :=
      View.Fresh.cons isItem free (View.fresh_nil _)
    obtain ⟨step, unchanged⟩ := prepared.view.zeroFresh_frame preparedMounted
      (state.directory directory).isInode (state.directory directory).owning state.coherent fresh
    constructor
    · rw [afterView]
      exact state.fs
    · rw [afterView]
      exact state.inodes
    · intro blockId
      rw [afterView, View.mem_held_zeroFresh, sameHeld]
    · exact state.isInode
    · exact state.freeInode
    · refine ⟨fresh.nodup, fun blockId isMem => ?_, fun blockId isMem => ?_⟩
      · have isBlock := fresh.items blockId isMem
        rw [View.IsItem, state.fs] at isBlock
        exact isBlock
      · rw [← sameHeld]
        exact fresh.free blockId isMem
    · rw [afterView]
      exact state.unchanged.trans unchanged
    · rw [afterView]
      exact step.coherent
    · rw [afterView, ← state.index, View.dirIndex, View.dirIndex, unchanged.entries_eq]
      rfl
    · intro count
      have handed := state.handed (count + 1)
      rw [List.length_nil, Nat.zero_add, List.nil_append] at handed
      obtain ⟨new, last, rest, _⟩ := view_handOut
        (by rw [afterView]; exact preparedMounted.zeroFresh _ :
          (after.putBlock dataBlock .zeroed).view.Mounted reserved) count
      have whole : (handOut (count + 1)).run prepared = .ok (dataBlock :: new) last := by
        rw [handOut, run_bind_ok ran]
        simp only
        rw [run_bind_ok (run_writeBlock _ _ _), run_bind_ok rest, run_pure]
      rw [List.length_singleton, Nat.add_comm, handed, handedOut_eq whole, handedOut_eq rest]
      rfl
    · exact fun noBlocks => absurd noBlocks (List.cons_ne_nil _ _)

/-- The numbers in use and the directory are as before; the blocks `lost` are
still in use. -/
structure Loses (dir : Nat) (view after : View) (lost : List Nat) : Prop where
  inodes : after.held .inode = view.held .inode
  blocks : ∀ blockId, blockId ∈ after.held .block ↔
    blockId ∈ view.held .block ∨ blockId ∈ lost
  inode : after.inode dir = view.inode dir
  entries : after.entries dir = view.entries dir

theorem Loses.leaves_iff {dir : Nat} {view after : View} {lost : List Nat}
    (loses : Loses dir view after lost) (fresh : view.Fresh lost) :
    LeavesDirectory dir view after ↔ lost = [] := by
  constructor
  · intro leaves
    rw [List.eq_nil_iff_forall_not_mem]
    intro blockId isLost
    have isHeld := (loses.blocks blockId).mpr (Or.inr isLost)
    rw [leaves.blocks] at isHeld
    exact fresh.free blockId isLost isHeld
  · rintro rfl
    refine ⟨loses.inodes, ?_, loses.entries, by rw [loses.inode]⟩
    ext blockId
    rw [loses.blocks]
    simp

/-- The call gives the blocks back. -/
def GivesBack (rollBack : Call Unit) (view : View) (taken : List Nat) : Prop :=
  ∀ middle : Volume, middle.view.fs = view.fs →
    ∃ after, rollBack.run middle = .ok () after ∧ after.view = middle.view.releaseBlocks taken

theorem givesBack_nil (view : View) : GivesBack (pure ()) view [] := by
  intro middle _
  exact ⟨middle, rfl, (View.releaseBlocks_nil _).symm⟩

theorem givesBack_deallocBlock {view : View} (geometry : Geometry view.fs) {blockId : Nat}
    (isItem : view.IsItem .block blockId) : GivesBack (deallocBlock blockId) view [blockId] := by
  intro middle sameFs
  obtain ⟨after, ran, afterView⟩ := @view_deallocBlock middle (by rw [sameFs]; exact geometry)
    blockId (by rw [View.IsItem, sameFs]; exact isItem)
  refine ⟨after, ran, ?_⟩
  rw [afterView, ← View.releaseBlocks_cons, View.releaseBlocks_nil]

/-- The parent needs a block for the entry, behind `taken` others, and one is
free for it, but the parent's map cannot be extended. -/
def EntrySpoils (volume : Volume) (dir : Nat) (name : Str) (taken : Nat) : Prop :=
  volume.view.NeedsBlock dir (align4 (Ext4DirEntry.fixedSize + name.len)) ∧
    volume.view.HasFree (taken + 1) ∧
    ¬ RoomFor volume (volume.view.appended dir ((handedOut volume (taken + 1)).getD taken 0))
      (taken + 1)

section Entering

variable {reserved : Set Nat} {dir : Nat} {volume prepared : Volume}
  (mounted : volume.view.Mounted reserved) (directory : volume.view.Directory reserved dir)
  {inodeNum : Nat} {taken : List Nat} (state : Prepared dir volume prepared inodeNum taken)
  {rollBack : Call Unit} (givesBack : GivesBack rollBack volume.view taken)

include mounted state givesBack

/-- Giving back what was taken before the entry failed. -/
theorem run_rollBack {middle : Volume} (sameFs : middle.view.fs = prepared.view.fs)
    (sameInodes : middle.view.held .inode = prepared.view.held .inode) {lost : List Nat}
    (blocks : ∀ blockId, blockId ∈ middle.view.held .block ↔
      blockId ∈ prepared.view.held .block ∨ blockId ∈ lost)
    (fresh : ∀ blockId ∈ lost, blockId ∉ prepared.view.held .block)
    (unchanged : Unchanged prepared.view middle.view dir) (error : Ext4Error) :
    ∃ after, (do
        rollBack
        deallocInode inodeNum
        throw error : Call Unit).run middle = .err error after ∧
      Loses dir volume.view after.view lost := by
  have middleFs := sameFs.trans state.fs
  obtain ⟨between, gave, betweenView⟩ := givesBack middle middleFs
  have betweenFs : between.view.fs = volume.view.fs := by
    rw [betweenView]
    exact middleFs
  obtain ⟨after, freed, afterView⟩ := @view_deallocInode between
    (by rw [betweenFs]; exact mounted.geometry) inodeNum
    (View.isInode_iff.mpr (by rw [betweenFs]; exact state.isInode))
  rw [betweenView] at afterView
  have whole := state.unchanged.trans unchanged
  refine ⟨after, ?_, ?_⟩
  · rw [run_bind_ok gave, run_bind_ok freed, run_throw]
  · constructor
    · rw [afterView, View.release, View.releaseBlocks]
      simp only [Function.update_self, ne_eq, reduceCtorEq, not_false_eq_true,
        Function.update_of_ne]
      rw [sameInodes, state.inodes]
      ext item
      simp only [Set.mem_sdiff, Set.mem_insert_iff, Set.mem_singleton_iff]
      constructor
      · rintro ⟨same | isHeld, different⟩
        · exact absurd same different
        · exact isHeld
      · intro isHeld
        exact ⟨Or.inr isHeld, fun same => state.freeInode (same ▸ isHeld)⟩
    · intro blockId
      have held : blockId ∈ after.view.held .block ↔
          blockId ∈ middle.view.held .block ∧ blockId ∉ taken := by
        rw [afterView, View.release, View.releaseBlocks]
        simp
      rw [held, blocks, state.blocks]
      constructor
      · rintro ⟨(isHeld | isTaken) | isLost, notTaken⟩
        · exact Or.inl isHeld
        · exact absurd isTaken notTaken
        · exact Or.inr isLost
      · rintro (isHeld | isLost)
        · exact ⟨Or.inl (Or.inl isHeld), fun isTaken => state.fresh.free blockId isTaken isHeld⟩
        · exact ⟨Or.inr isLost, fun isTaken => fresh blockId isLost
            ((state.blocks blockId).mpr (Or.inr isTaken))⟩
    · rw [afterView]
      exact whole.inode
    · have sameEntries := @View.entries_congr middle.view
        ((middle.view.releaseBlocks taken).release .inode inodeNum) dir rfl rfl fun _ _ => rfl
      rw [afterView, sameEntries, whole.entries_eq]

include directory

theorem errorLeaves_enterNewInode {name : Str} (enters : Enters volume.view dir name)
    (fileType : UInt8) :
    ErrorLeaves dir volume.view (((volume.view.fs.handle dir).enterNewInode name inodeNum fileType
        rollBack).run prepared) ↔
      ¬ EntrySpoils volume dir name taken.length := by
  have preparedMounted := state.mounted mounted
  have preparedDirectory := state.directory directory
  have handedEq : (handedOut volume (taken.length + 1)).getD taken.length 0 =
      (handedOut prepared 1).headD 0 := by
    rw [state.handed 1, List.getD_eq_getElem?_getD, List.getElem?_append_right (Nat.le_refl _),
      Nat.sub_self]
    cases handedOut prepared 1 <;> rfl
  have outcome := dirAddEntry_outcome preparedMounted preparedDirectory enters.nonempty
    enters.short (by rw [state.index]; exact enters.absent) inodeNum fileType
  rw [state.fs, state.unchanged.needsBlock, state.unchanged.appended_eq,
    state.roomFor_iff, ← handedEq] at outcome
  obtain ⟨new, handedAfter, handed, fresh, few, _, exhausted⟩ := view_handOut preparedMounted 1
  rw [handedOut_eq handed] at outcome
  rw [Inode.enterNewInode, EntrySpoils]
  rcases outcome with ⟨needs, noRoom, error, middle, after, ran, looked, leaks⟩ |
    ⟨roomy, ⟨_, panics⟩ | ⟨after, ran⟩ | ⟨error, after, ran, looked⟩⟩
  · have middleDirectory := looked.directory preparedMounted preparedDirectory
    have middleMounted := looked.mounted preparedMounted
    have sameHeld := looked.held_eq preparedMounted.geometry
    obtain ⟨_, leaksUnchanged⟩ := leaks.fileStep middleMounted middleDirectory.isInode
      middleDirectory.owning middleDirectory.coherent
    obtain ⟨final, ended, loses⟩ := @run_rollBack reserved dir volume prepared mounted inodeNum
      taken state rollBack givesBack after (leaks.fs.trans looked.view_fs)
      (by rw [leaks.heldInodes, sameHeld]) new (fun blockId => by rw [leaks.mem_held, sameHeld])
      fresh.free ((looked.unchanged preparedMounted preparedDirectory).trans leaksUnchanged) error
    have freshHere : volume.view.Fresh new := by
      refine ⟨fresh.nodup, fun blockId isNew => ?_, fun blockId isNew isHeld =>
        fresh.free blockId isNew ((state.blocks blockId).mpr (Or.inl isHeld))⟩
      have isItem := fresh.items blockId isNew
      rw [View.IsItem, state.fs] at isItem
      exact isItem
    have leavesIff := loses.leaves_iff freshHere
    rw [run_bind_ok (run_attempt_err ran)]
    simp only
    rw [ended, errorLeaves_err, leavesIff]
    cases new with
    | nil =>
        have full : ¬ prepared.view.HasFree 1 :=
          not_hasFree_of_full (by decide) (exhausted (by decide))
        rw [state.hasFree_iff] at full
        exact ⟨fun _ spoils => full spoils.2.1, fun _ => rfl⟩
    | cons pblock rest =>
        have hasFree : prepared.view.HasFree 1 :=
          HasFree.mono ⟨pblock :: rest, fresh, rfl⟩ (by simp)
        rw [state.hasFree_iff] at hasFree
        exact ⟨fun none => absurd none (List.cons_ne_nil _ _),
          fun spared => absurd ⟨needs, hasFree, noRoom⟩ spared⟩
  all_goals refine iff_of_true ?_ fun spoils => roomy ⟨spoils.1, spoils.2.2⟩
  · rw [run_bind_panic (by rw [run_attempt, panics])]
    exact errorLeaves_panic
  · rw [run_bind_ok (run_attempt_ok ran)]
    exact errorLeaves_ok _ _
  · have sameHeld := looked.held_eq preparedMounted.geometry
    obtain ⟨final, ended, loses⟩ := @run_rollBack reserved dir volume prepared mounted inodeNum
      taken state rollBack givesBack after looked.view_fs (by rw [sameHeld]) []
      (fun blockId => by rw [sameHeld]; simp) (by simp)
      (looked.unchanged preparedMounted preparedDirectory) error
    rw [run_bind_ok (run_attempt_err ran)]
    simp only
    rw [ended, errorLeaves_err]
    exact (loses.leaves_iff (View.fresh_nil _)).mpr rfl

end Entering

/-- An inode number is free. -/
def View.HasFreeInode (view : View) : Prop :=
  ∃ item, view.IsItem .inode item ∧ item ∉ view.held .inode

/-- The type bits of a special file are those of a fifo, a device or a socket. -/
def Creation.Supported : Creation → Prop
  | .special mode _ =>
      dirEntryFileTypeFromMode mode = Ext4DirEntry.ftFifo ∨
        dirEntryFileTypeFromMode mode = Ext4DirEntry.ftChrdev ∨
        dirEntryFileTypeFromMode mode = Ext4DirEntry.ftBlkdev ∨
        dirEntryFileTypeFromMode mode = Ext4DirEntry.ftSock
  | _ => True

/-- The call will fail after it has taken something that it does not give back:
an inode number is free and either, for a directory, no block is, or the entry
needs a block that is free but cannot be mapped. -/
def Creation.Spoils (volume : Volume) (dir : Nat) (name : Str) (creation : Creation) : Prop :=
  Enters volume.view dir name ∧ creation.Supported ∧ volume.view.HasFreeInode ∧
    match creation with
    | .dir => ¬ volume.view.HasFree 1 ∨ EntrySpoils volume dir name 1
    | _ => EntrySpoils volume dir name 0

/-- An inode has been written and nothing of it is cached. -/
structure Made (reserved : Set Nat) (inodeNum : Nat) (inode : Ext4Inode) (view : View) : Prop where
  mounted : view.Mounted reserved
  isInode : view.fs.IsInode inodeNum
  inode_eq : view.inode inodeNum = inode
  uncached : view.extentsCache[inodeNum]? = none

/-- A name was entered for an inode: `prepared` is the state in which the inode was
written, `added` the one behind its entry. -/
structure Created (dir : Nat) (volume : Volume) (name : Str) (fileType : UInt8)
    (inode : Ext4Inode) (inodeNum : Nat) (prepared added after : Volume) : Prop where
  state : Prepared dir volume prepared inodeNum []
  inode_eq : prepared.view.inode inodeNum = inode
  uncached : prepared.view.extentsCache[inodeNum]? = none
  others : ∀ other, volume.view.fs.IsInode other → other ≠ inodeNum →
    (volume.view.inode other).Typed → prepared.view.inode other = volume.view.inode other
  entered : ((volume.view.fs.handle dir).dirAddEntry name inodeNum fileType).run prepared =
    .ok () added
  updated : (dirIndexCacheUpdate dir (·.insert name (inodeNum, fileType))).run added =
    .ok () after

/-- The new inode is in place, and nothing of it is cached. -/
theorem Created.made {reserved : Set Nat} {dir : Nat} {volume : Volume} {name : Str}
    {fileType : UInt8} {inode : Ext4Inode} {inodeNum : Nat} {prepared added after : Volume}
    (created : Created dir volume name fileType inode inodeNum prepared added after)
    (mounted : volume.view.Mounted reserved) (directory : volume.view.Directory reserved dir)
    (enters : Enters volume.view dir name) :
    after.view.fs = volume.view.fs ∧ Made reserved inodeNum inode after.view := by
  have state := created.state
  have preparedMounted := state.mounted mounted
  have preparedDirectory := state.directory directory
  obtain ⟨cache, changed⟩ := run_dirIndexCacheUpdate added dir
    (·.insert name (inodeNum, fileType))
  have endEq := changed.symm.trans created.updated
  cases endEq
  have entry := created.entered
  rw [← state.fs] at entry
  obtain ⟨middle, consulted, step, _⟩ := fileStep_dirAddEntry preparedMounted preparedDirectory
    enters.nonempty enters.short (by rw [state.index]; exact enters.absent) entry
  have middleLooked : Looked reserved dir prepared middle := consulted.looked
  have middleView : middle.view = { prepared.view with
      extentsCache := middle.extentsCache, dirIndexCache := middle.dirIndexCache } := by
    conv_lhs => rw [consulted.state]
    rfl
  have sameFs : added.view.fs = volume.view.fs := by
    rw [step.fs, middleLooked.view_fs, state.fs]
  have middleInode : middle.view.fs.IsInode inodeNum := by
    rw [middleLooked.view_fs, state.fs]
    exact state.isInode
  have different := (state.different directory).symm
  refine ⟨sameFs, ?_, ?_, ?_, ?_⟩
  · have addedMounted := step.mounted (middleLooked.mounted preparedMounted)
      (middleLooked.directory preparedMounted preparedDirectory).owning
    exact ⟨addedMounted.geometry, addedMounted.small, addedMounted.layout, addedMounted.reserved⟩
  · exact (by rw [sameFs]; exact state.isInode : added.view.fs.IsInode inodeNum)
  · have sameInode := step.inodes inodeNum middleInode different
    rw [middleView] at sameInode
    exact sameInode.trans created.inode_eq
  · rw [Option.eq_none_iff_forall_ne_some]
    intro extents found
    have stale := consulted.shrinks inodeNum different extents
      (step.extentsCache inodeNum different extents found)
    exact absurd (stale.symm.trans created.uncached) (by simp)

section Creating

variable {reserved : Set Nat} {dir : Nat} {volume first : Volume}
  (mounted : volume.view.Mounted reserved) (directory : volume.view.Directory reserved dir)
  (looked : Looked reserved dir volume first) {name : Str}
  (enters : Enters volume.view dir name)

include mounted directory looked enters

theorem errorLeaves_createInode (fileType : UInt8) (inode : Ext4Inode) :
    ErrorLeaves dir volume.view
        (((volume.view.fs.handle dir).createInode name fileType inode).run first) ↔
      ¬ (volume.view.HasFreeInode ∧ EntrySpoils volume dir name 0) := by
  rw [Inode.createInode]
  rcases prepared_allocInode mounted directory looked with ⟨ran, full⟩ |
    ⟨inodeNum, second, third, ran, invalidated, _, _, state⟩
  · rw [run_bind_ok ran, run_bind_err (run_okOr_none _ _), errorLeaves_err]
    refine iff_of_true (looked.leaves mounted directory) ?_
    rintro ⟨⟨item, isItem, free⟩, _⟩
    exact free (full item isItem)
  · have hasFree : volume.view.HasFreeInode :=
      ⟨inodeNum, View.isInode_iff.mpr state.isInode, state.freeInode⟩
    have thirdMounted := state.mounted mounted
    have position : third.fs.getInodePos inodeNum = some _ :=
      (thirdMounted.layout.handle_spec thirdMounted.geometry (by
        rw [state.fs]; exact state.isInode)).1
    obtain ⟨prepared, wrote, _, preparedState⟩ := prepared_writeInode mounted directory state inode
    rw [run_bind_ok ran, run_bind_ok (run_okOr_some _ _ _), run_bind_ok invalidated,
      run_bind_ok (run_get _), position, run_bind_ok (run_expect_some _ _)]
    simp only
    have noError (value : Unit) (middle : Volume) (error : Ext4Error) (after : Volume) :
        (pure ⟨inodeNum, (third.view.fs.handle inodeNum).blockId,
          (third.view.fs.handle inodeNum).blockOffset⟩ : Call Inode).run middle ≠
            .err error after := by
      rw [run_pure]
      exact nofun
    rw [run_bind_ok wrote, errorLeaves_bind noError,
      errorLeaves_enterNewInode mounted directory preparedState (givesBack_nil _) enters,
      List.length_nil, and_iff_right hasFree]

omit enters in
/-- The parts of a successful call. -/
theorem created_createInode {fileType : UInt8} {inode : Ext4Inode} {handle : Inode}
    {after : Volume}
    (ran : ((volume.view.fs.handle dir).createInode name fileType inode).run first =
      .ok handle after) :
    ∃ inodeNum prepared added, handle = volume.view.fs.handle inodeNum ∧
      Created dir volume name fileType inode inodeNum prepared added after := by
  rw [Inode.createInode] at ran
  rcases prepared_allocInode mounted directory looked with ⟨allocated, _⟩ |
    ⟨inodeNum, second, third, allocated, invalidated, uncached, sameInodes, state⟩
  · rw [run_bind_ok allocated, run_bind_err (run_okOr_none _ _)] at ran
    cases ran
  · have thirdMounted := state.mounted mounted
    have thirdInode : third.view.fs.IsInode inodeNum := by
      rw [state.fs]
      exact state.isInode
    have position : third.fs.getInodePos inodeNum = some _ :=
      (thirdMounted.layout.handle_spec thirdMounted.geometry thirdInode).1
    obtain ⟨prepared, wrote, preparedView, preparedState⟩ :=
      prepared_writeInode mounted directory state inode
    rw [run_bind_ok allocated, run_bind_ok (run_okOr_some _ _ _), run_bind_ok invalidated,
      run_bind_ok (run_get _), position, run_bind_ok (run_expect_some _ _)] at ran
    simp only at ran
    rw [run_bind_ok wrote] at ran
    obtain ⟨_, entered, entering, returned⟩ := of_run_bind_ok ran
    rw [run_pure] at returned
    cases returned
    rw [Inode.enterNewInode] at entering
    obtain ⟨result, added, attempted, updated⟩ := of_run_bind_ok entering
    cases result with
    | error error =>
        obtain ⟨_, _, _, rest⟩ := of_run_bind_ok updated
        obtain ⟨_, _, _, thrown⟩ := of_run_bind_ok rest
        cases thrown
    | ok value =>
        refine ⟨inodeNum, prepared, added, ?_, preparedState, ?_, ?_, ?_,
          of_run_attempt_ok attempted, updated⟩
        · exact congrArg (fun fs : Ext4FileSystem => fs.handle inodeNum) state.fs
        · rw [preparedView]
          exact inode_putInode_same thirdMounted.layout thirdMounted.geometry thirdInode inode
        · rw [preparedView]
          exact uncached
        · intro other isOther different typed
          rw [preparedView, inode_putInode_of_ne thirdMounted.layout thirdMounted.geometry
            thirdInode inode (by rw [state.fs]; exact isOther) different, sameInodes,
            looked.inodes other isOther typed]

/-- What a successful call has made. -/
theorem made_createInode {fileType : UInt8} {inode : Ext4Inode} {handle : Inode} {after : Volume}
    (ran : ((volume.view.fs.handle dir).createInode name fileType inode).run first =
      .ok handle after) :
    ∃ inodeNum, handle = after.view.fs.handle inodeNum ∧ Made reserved inodeNum inode after.view := by
  obtain ⟨inodeNum, prepared, added, rfl, created⟩ :=
    created_createInode mounted directory looked ran
  obtain ⟨sameFs, isMade⟩ := created.made mounted directory enters
  exact ⟨inodeNum, by rw [sameFs], isMade⟩

theorem errorLeaves_createDir :
    ErrorLeaves dir volume.view ((do
        let inodeNum ← okOr (← allocInode) .noSpace
        inodeCachesInvalidate inodeNum
        let dataBlock ← okOr (← allocBlock) .noSpace
        let (blockId, offset) ← expect ((← get).fs.getInodePos inodeNum)
        writeBlock dataBlock .zeroed
        dirWriteEntryAt dataBlock 0 12 inodeNum Ext4DirEntry.ftDir .dot
        dirWriteEntryAt dataBlock 12 (blockSz - 12) (volume.view.fs.handle dir).inodeNum
          Ext4DirEntry.ftDir .dotDot
        writeInode inodeNum (Inode.dirInode dataBlock)
        (volume.view.fs.handle dir).enterNewInode name inodeNum Ext4DirEntry.ftDir
          (deallocBlock dataBlock)
        (volume.view.fs.handle dir).modifyDiskInode fun inode =>
          inode.setILinksCount (min (inode.iLinksCount + 1) Inode.linksMax)
        return ⟨inodeNum, blockId, offset⟩ : Call Inode).run first) ↔
      ¬ (volume.view.HasFreeInode ∧
        (¬ volume.view.HasFree 1 ∨ EntrySpoils volume dir name 1)) := by
  rcases prepared_allocInode mounted directory looked with ⟨ran, full⟩ |
    ⟨inodeNum, second, third, ran, invalidated, _, _, state⟩
  · rw [run_bind_ok ran, run_bind_err (run_okOr_none _ _), errorLeaves_err]
    refine iff_of_true (looked.leaves mounted directory) ?_
    rintro ⟨⟨item, isItem, free⟩, _⟩
    exact free (full item isItem)
  · have hasFreeInode : volume.view.HasFreeInode :=
      ⟨inodeNum, View.isInode_iff.mpr state.isInode, state.freeInode⟩
    rw [run_bind_ok ran, run_bind_ok (run_okOr_some _ _ _), run_bind_ok invalidated,
      and_iff_right hasFreeInode]
    rcases prepared_allocBlock mounted directory state with ⟨ranBlock, full⟩ |
      ⟨dataBlock, fourth, ranBlock, zeroed⟩
    · rw [run_bind_ok ranBlock, run_bind_err (run_okOr_none _ _), errorLeaves_err]
      -- The number stays taken: the only early return without a roll back.
      refine iff_of_false ?_ fun spared => spared (Or.inl full)
      intro leaves
      have isHeld : inodeNum ∈ third.view.held .inode := by
        rw [state.inodes]
        exact Set.mem_insert _ _
      rw [leaves.inodes] at isHeld
      exact state.freeInode isHeld
    · have hasFree : volume.view.HasFree 1 := ⟨[dataBlock], zeroed.fresh, rfl⟩
      have isTaken : dataBlock ∈ [dataBlock] := List.mem_singleton_self _
      have zeroedMounted := zeroed.mounted mounted
      have position : fourth.fs.getInodePos inodeNum = some _ :=
        (zeroedMounted.layout.handle_spec zeroedMounted.geometry (by
          rw [zeroed.fs]; exact zeroed.isInode)).1
      have dotWrote := run_dirWriteEntryAt (fourth.putBlock dataBlock .zeroed) dataBlock 0 12
        inodeNum Ext4DirEntry.ftDir (by decide : Str.dot.len ≤ ext4NameLen) (by decide)
      rw [if_pos (by decide)] at dotWrote
      have dotState := prepared_writeTaken mounted directory zeroed isTaken
        (Block.putEntry ((fourth.putBlock dataBlock .zeroed).disk dataBlock) 0 12 inodeNum
          Ext4DirEntry.ftDir .dot)
      generalize (fourth.putBlock dataBlock .zeroed).putBlock dataBlock
        (Block.putEntry ((fourth.putBlock dataBlock .zeroed).disk dataBlock) 0 12 inodeNum
          Ext4DirEntry.ftDir .dot) = dotted at dotWrote dotState
      have dotDotWrote := run_dirWriteEntryAt dotted dataBlock 12 (blockSz - 12)
        (volume.view.fs.handle dir).inodeNum Ext4DirEntry.ftDir
        (by decide : Str.dotDot.len ≤ ext4NameLen) (by decide)
      rw [if_pos (by decide)] at dotDotWrote
      have dotDotState := prepared_writeTaken mounted directory dotState isTaken
        (Block.putEntry (dotted.disk dataBlock) 12 (blockSz - 12)
          (volume.view.fs.handle dir).inodeNum Ext4DirEntry.ftDir .dotDot)
      obtain ⟨prepared, wrote, _, preparedState⟩ := prepared_writeInode mounted directory dotDotState
        (Inode.dirInode dataBlock)
      have fits := (mounted.layout.handle_spec mounted.geometry directory.isInode).2.2.2
      rw [run_bind_ok ranBlock, run_bind_ok (run_okOr_some _ _ _), run_bind_ok (run_get _), position,
        run_bind_ok (run_expect_some _ _)]
      simp only
      rw [run_bind_ok (run_writeBlock _ _ _), run_bind_ok dotWrote, run_bind_ok dotDotWrote,
        run_bind_ok wrote, errorLeaves_bind, errorLeaves_enterNewInode mounted directory preparedState
          (givesBack_deallocBlock mounted.geometry (zeroed.fresh.items dataBlock isTaken)) enters,
        List.length_singleton, or_iff_right (not_not_intro hasFree)]
      intro value middle error after
      rw [run_bind_ok (Inode.run_modifyDiskInode fits _), run_pure]
      exact nofun

end Creating

/-- A call whose error is ignored returns none. -/
theorem noError_ignoring {α : Type} (ignored : Inode → Call α) (inode : Inode) (middle : Volume)
    (error : Ext4Error) (after : Volume) :
    (do
      let _ ← (ignored inode).attempt
      return inode : Call Inode).run middle ≠ .err error after := by
  cases ran : (ignored inode).run middle with
  | ok value between =>
      rw [run_bind_ok (run_attempt_ok ran), run_pure]
      exact nofun
  | err other between =>
      rw [run_bind_ok (run_attempt_err ran), run_pure]
      exact nofun
  | panic =>
      rw [run_bind_panic (by rw [run_attempt, ran])]
      exact nofun

/-- A failed creation leaves the bitmaps, the entries and the links of the
parent exactly when it takes nothing that it cannot give back. -/
theorem failsUnchanged_iff {reserved : Set Nat} {dir : Nat} {volume : Volume}
    (mounted : volume.view.Mounted reserved) (directory : volume.view.Directory reserved dir)
    (creation : Creation) (name : Str) :
    FailsUnchanged (creation.call (volume.view.fs.handle dir) name) dir volume ↔
      ¬ creation.Spoils volume dir name := by
  rw [FailsUnchanged]
  rcases checkNewName_outcome mounted directory name with ⟨enters, first, ran, looked⟩ |
    ⟨refused, outcome⟩
  · cases creation with
    | file =>
        rw [Creation.call, Inode.createFile, run_bind_ok ran,
          errorLeaves_createInode mounted directory looked enters]
        simp only [Creation.Spoils, enters, Creation.Supported, true_and]
    | special mode rdev =>
        rw [Creation.call, Inode.createSpecial, run_bind_ok ran]
        simp only [Creation.Spoils, enters, Creation.Supported, true_and]
        split
        · next supported =>
            rw [errorLeaves_createInode mounted directory looked enters, and_iff_right supported]
        · next unsupported =>
            rw [run_throw, errorLeaves_err]
            exact iff_of_true (looked.leaves mounted directory) fun both => unsupported both.1
    | symlink target =>
        rw [Creation.call, Inode.createSymlink, run_bind_ok ran,
          errorLeaves_bind (noError_ignoring fun inode => inode.writeAt 0 target.bytes),
          errorLeaves_createInode mounted directory looked enters]
        simp only [Creation.Spoils, enters, Creation.Supported, true_and]
    | dir =>
        rw [Creation.call, Inode.createDir, run_bind_ok ran]
        simp only [Creation.Spoils, enters, Creation.Supported, true_and]
        exact errorLeaves_createDir mounted directory looked enters
  · have spared : ¬ creation.Spoils volume dir name := fun spoils => refused spoils.1
    refine iff_of_true ?_ spared
    rcases outcome with panics | ⟨error, after, failed, leaves⟩
    · cases creation <;> exact (run_bind_panic panics).symm ▸ errorLeaves_panic
    · cases creation <;> exact (run_bind_err failed).symm ▸ errorLeaves_err.mpr leaves

/-- A directory block with the entries of the root directory. -/
def rootBlock : Block :=
  Block.putEntry (Block.putEntry .zeroed 0 12 2 Ext4DirEntry.ftDir .dot) 12 (blockSz - 12) 2
    Ext4DirEntry.ftDir .dotDot

/-- The small file system with the given block bitmap: inodes 1 to 11 are in use,
inode 2 is the root directory with block 20. -/
def rootVolume (bitmap : Block) : Volume where
  fs := smallFileSystem
  disk := Function.update (Function.update (Function.update (Function.update (fun _ => .zeroed)
      20 rootBlock) 4 ((Bytes.zeroed : Block).paste 256 (Inode.dirInode 20)))
      3 ((Bytes.zeroed : Block).write 0 [0xFF, 0x07])) 2 bitmap
  extentsCache := .empty
  dirIndexCache := .empty

section RootVolume

variable (bitmap : Block)

theorem held_rootVolume {block : Nat} :
    block ∈ (rootVolume bitmap).view.held .block ↔
      block < 64 ∧ bitmap.testBit block = true := by
  have count : (rootVolume bitmap).itemCount .block = 64 :=
    (by decide : smallFileSystem.superblock.blocksCount = 64)
  have isItem : (rootVolume bitmap).IsItem .block block ↔ block < 64 := by
    simp [Volume.IsItem, count, Resource.firstItem]
  rw [Volume.mem_held, isItem]
  apply and_congr_right
  intro less
  have position : (block - Resource.block.firstItem) / (rootVolume bitmap).perGroup .block = 0 ∧
      (block - Resource.block.firstItem) % (rootVolume bitmap).perGroup .block = block := by
    change (block - 0) / 32768 = 0 ∧ (block - 0) % 32768 = block
    omega
  rw [Volume.used, position.1, position.2]
  rfl

theorem inode_rootVolume : (rootVolume bitmap).view.inode 2 = Inode.dirInode 20 := by
  have position : (rootVolume bitmap).view.fs.handle 2 = ⟨2, 4, 256⟩ :=
    (by decide : smallFileSystem.shape.handle 2 = ⟨2, 4, 256⟩)
  have block : (rootVolume bitmap).view.data 4 =
      (Bytes.zeroed : Block).paste 256 (Inode.dirInode 20) := by
    rw [Volume.data_of_not_bitmap (by decide : ¬ smallFileSystem.IsBitmap 4)]
    rfl
  rw [View.inode, position, block]
  exact Bytes.extract_paste _ _ (by decide)

theorem owned_rootVolume : (rootVolume bitmap).view.extents 2 = [.single 0 20] ∧
    (rootVolume bitmap).view.owned 2 = [20] := by
  have parsed (disk : Nat → Block) :
      parseExtentTree disk (Inode.dirInode 20).blockData = [.single 0 20] ∧
        treeBlocks disk (Inode.dirInode 20).blockData = [] := by
    have noBlocks : treeBlocks (fun _ => .zeroed) (Inode.dirInode 20).blockData = [] := by
      decide
    obtain ⟨sameParse, sameBlocks⟩ := @tree_congr (fun _ => .zeroed) disk
      (Inode.dirInode 20).blockData (by rw [noBlocks]; simp)
    rw [treeBlocks] at noBlocks ⊢
    rw [sameParse, sameBlocks, noBlocks]
    exact ⟨by decide, rfl⟩
  have extents : (rootVolume bitmap).view.extents 2 = [.single 0 20] := by
    rw [View.extents, inode_rootVolume, if_pos (by decide), (parsed _).1]
  refine ⟨extents, ?_⟩
  rw [View.owned, extents, View.tree, inode_rootVolume, (parsed _).2]
  decide

theorem mounted_rootVolume (reserved : ∀ block ≤ 5, bitmap.testBit block = true) :
    (rootVolume bitmap).view.Mounted {block | block ≤ 5} where
  geometry := Volume.geometry_view.mpr geometry_smallFileSystem
  small := (by decide : smallFileSystem.superblock.blocksCount ≤ 2 ^ 48)
  layout := layout_smallFileSystem
  reserved := fun block (isReserved : block ≤ 5) =>
    (held_rootVolume bitmap).mpr ⟨by omega, reserved block isReserved⟩

theorem directory_rootVolume (inUse : bitmap.testBit 20 = true) :
    (rootVolume bitmap).view.Directory {block | block ≤ 5} 2 := by
  obtain ⟨extents, owned⟩ := owned_rootVolume bitmap
  have isInode : (rootVolume bitmap).view.fs.IsInode 2 :=
    (by decide : 1 ≤ 2 ∧ 2 ≤ smallFileSystem.superblock.inodesPerGroup *
      smallFileSystem.groupDescs.length)
  constructor
  · exact isInode
  · refine ⟨Volume.isItem_view.mp (View.isInode_iff.mpr isInode), ?_⟩
    have position : (2 - Resource.inode.firstItem) / (rootVolume bitmap).perGroup .inode = 0 ∧
        (2 - Resource.inode.firstItem) % (rootVolume bitmap).perGroup .inode = 1 :=
      (by decide : (2 - 1) / 32 = 0 ∧ (2 - 1) % 32 = 1)
    rw [Volume.used, position.1, position.2]
    exact (by decide : ((Bytes.zeroed : Block).write 0 [0xFF, 0x07]).testBit 1 = true)
  · constructor
    · rw [owned]
      decide
    · rw [owned]
      intro block isOwned
      rw [List.mem_singleton.mp isOwned]
      exact (held_rootVolume bitmap).mpr ⟨by decide, inUse⟩
    · rw [owned]
      intro block isOwned isReserved
      rw [List.mem_singleton.mp isOwned] at isReserved
      exact absurd isReserved (by decide)
  · intro cached found
    simp [rootVolume, Volume.view] at found
  · rw [inode_rootVolume]
    decide
  · rw [inode_rootVolume]
    decide
  · rw [extents]
    exact List.pairwise_singleton _ _
  · rw [extents]
    intro extent isMem
    rw [List.mem_singleton.mp isMem]
    decide
  · rw [extents, inode_rootVolume]
    intro lblock inside
    have first : lblock = 0 := by
      rw [show (Inode.dirInode 20).size = blockSz by decide] at inside
      simp only [blockSz] at inside
      omega
    subst first
    exact ⟨20, _, List.mem_singleton_self _, by decide, by decide,
      by decide⟩
  · apply View.numbers_of_built
    simp [rootVolume, Volume.view]

theorem entries_rootVolume : (rootVolume bitmap).view.entries 2 =
    [⟨.dot, 2, Ext4DirEntry.ftDir⟩, ⟨.dotDot, 2, Ext4DirEntry.ftDir⟩] := by
  obtain ⟨extents, owned⟩ := owned_rootVolume bitmap
  have block : (rootVolume bitmap).view.fileBlock 2 0 = rootBlock := by
    have ordered : Ordered ((rootVolume bitmap).view.extents 2) := by
      rw [extents]
      exact List.pairwise_singleton _ _
    have maps : Maps ((rootVolume bitmap).view.extents 2) 0 20 := by
      rw [extents]
      exact ⟨_, List.mem_singleton_self _, by decide, by decide, by decide⟩
    funext index
    have inside := index.isLt
    have small : (0 * blockSz + index.val) / blockSz = 0 ∧
        (0 * blockSz + index.val) % blockSz = index.val := by
      simp only [blockSz] at inside ⊢
      omega
    rw [View.fileBlock, byteAt_of_maps ordered (by rw [small.1]; exact maps), small.2,
      Volume.data_of_not_bitmap (by decide : ¬ smallFileSystem.IsBitmap 20), Bytes.get,
      dif_pos inside]
    rfl
  have size : ((rootVolume bitmap).view.inode 2).size = blockSz := by
    rw [inode_rootVolume]
    decide
  rw [View.entries, size, View.entriesFrom, if_pos (by decide), block,
    show blockSz / blockSz = 1 from rfl, View.entriesFrom, if_neg (by decide)]
  decide +kernel

end RootVolume

/-- All 64 blocks are in use. -/
def fullBitmap : Block := (Bytes.zeroed : Block).overlay 0 8 fun _ => 0xFF

theorem testBit_fullBitmap : ∀ block : Fin 64, fullBitmap.testBit block = true := by
  decide

theorem mounted_full : (rootVolume fullBitmap).view.Mounted {block | block ≤ 5} :=
  mounted_rootVolume fullBitmap fun block small => testBit_fullBitmap ⟨block, by omega⟩

theorem directory_full : (rootVolume fullBitmap).view.Directory {block | block ≤ 5} 2 :=
  directory_rootVolume fullBitmap (testBit_fullBitmap ⟨20, by decide⟩)

/-- The name of a new file. -/
def letterA : Str := ⟨[0x61], rfl⟩

theorem enters_rootVolume (bitmap : Block) : Enters (rootVolume bitmap).view 2 letterA := by
  refine ⟨rfl, by decide, ?_⟩
  have notCached : (rootVolume bitmap).view.dirIndexCache[2]? = none := by
    simp [rootVolume, Volume.view]
  rw [View.dirIndex, notCached, entries_rootVolume]
  simp only
  rw [getElem?_foldl_of_absent (by decide)]
  simp

theorem failsUnchanged_iff_root :
    FailsUnchanged (Creation.dir.call ((rootVolume fullBitmap).view.fs.handle 2) letterA) 2
        (rootVolume fullBitmap) ↔
      ¬ Creation.dir.Spoils (rootVolume fullBitmap) 2 letterA :=
  failsUnchanged_iff mounted_full directory_full .dir letterA

/-- Without a free block, making a directory fails and keeps an inode number. -/
theorem not_failsUnchanged_full :
    ¬ FailsUnchanged (Creation.dir.call ((rootVolume fullBitmap).view.fs.handle 2) letterA) 2
      (rootVolume fullBitmap) := by
  have enters := enters_rootVolume fullBitmap
  rcases checkNewName_outcome mounted_full directory_full letterA with ⟨_, first, ran, looked⟩ |
    ⟨refused, _⟩
  · rw [FailsUnchanged, Creation.call, Inode.createDir, run_bind_ok ran]
    intro leaves
    apply (errorLeaves_createDir mounted_full directory_full looked enters).mp leaves
    refine ⟨⟨12, ?_, ?_⟩, Or.inl ?_⟩
    · exact View.isInode_iff.mpr (by decide : 1 ≤ 12 ∧
        12 ≤ smallFileSystem.superblock.inodesPerGroup * smallFileSystem.groupDescs.length)
    · rintro ⟨_, isUsed⟩
      have position : (12 - Resource.inode.firstItem) /
            (rootVolume fullBitmap).perGroup .inode = 0 ∧
          (12 - Resource.inode.firstItem) % (rootVolume fullBitmap).perGroup .inode = 11 :=
        (by decide : (12 - 1) / 32 = 0 ∧ (12 - 1) % 32 = 11)
      rw [Volume.used, position.1, position.2] at isUsed
      exact absurd isUsed (by
        exact (by decide :
          ¬ ((Bytes.zeroed : Block).write 0 [0xFF, 0x07]).testBit 11 = true))
    · refine @not_hasFree_of_full _ [] 1 (by decide) ?_
      intro block isItem
      have less : block < 64 := isItem.2
      exact Or.inl ((held_rootVolume fullBitmap).mpr ⟨less, testBit_fullBitmap ⟨block, less⟩⟩)
  · exact absurd enters refused

end Ext4

end OSWorkspace
