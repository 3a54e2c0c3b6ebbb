import OSWorkspace.Ext4DirectoryRemovals
import OSWorkspace.Ext4FailedCreates

/-!
# Renaming

Renaming enters the new name and then removes the old one.  This file follows
the two steps through a well-formed directory: when a failed call has already
written, and what the entries are after a successful one.
-/

namespace OSWorkspace

namespace Ext4

open Exec View

/-- A tiled directory whose names are distinct and known to a cached index, and
whose entries name inodes with a type. -/
structure View.WellFormed (reserved : Set Nat) (view : View) (dir : Nat)
    (blocks : List (List Dirent)) : Prop extends Holds reserved view dir blocks where
  distinct : ((contents blocks).map Prod.fst).Nodup
  indexed : ∀ (name : Str) inodeNum fileType,
    (view.dirIndex dir)[name]? = some (inodeNum, fileType) ↔
      ⟨name, inodeNum, fileType⟩ ∈ view.entries dir
  named : ∀ binding ∈ view.entries dir,
    view.fs.IsInode binding.inodeNum ∧ (view.inode binding.inodeNum).Typed
  apart : ∀ binding ∈ view.entries dir, binding.name ≠ .dot → binding.name ≠ .dotDot →
    binding.inodeNum ≠ dir

/-- The names may be exchanged: the old one is bound, the new one is not. -/
structure View.Renames (view : View) (dir : Nat) (old new : Str) (child : Nat)
    (fileType : UInt8) : Prop where
  oldNonempty : old.isEmpty = false
  newNonempty : new.isEmpty = false
  oldDots : old ≠ .dot ∧ old ≠ .dotDot
  newDots : new ≠ .dot ∧ new ≠ .dotDot
  different : old ≠ new
  absent : (view.dirIndex dir)[new]? = none
  found : (view.dirIndex dir)[old]? = some (child, fileType)

/-- The type that a renamed entry gets. -/
def renamedType (inode : Ext4Inode) : UInt8 :=
  if inode.isDir then Ext4DirEntry.ftDir
  else if inode.isFile then Ext4DirEntry.ftRegFile
  else Ext4DirEntry.ftUnknown

/-- The part of a renaming behind the checks. -/
def exchangeNames (self : Inode) (old new : Str) (child : Nat) (fileType : UInt8) :
    Call Unit := do
  self.dirAddEntry new child fileType
  let _ ← self.dirRemoveEntry old
  dirIndexCacheUpdate self.inodeNum fun index =>
    (index.erase old).insert new (child, fileType)

section Checks

variable {reserved : Set Nat} {dir : Nat} {volume : Volume} {blocks : List (List Dirent)}
  (mounted : volume.view.Mounted reserved) (wellFormed : volume.view.WellFormed reserved dir blocks)

include mounted wellFormed

theorem rename_outcome (old new : Str) :
    ((¬ ∃ child fileType, volume.view.Renames dir old new child fileType) ∧
      (((volume.view.fs.handle dir).rename old new).run volume = .panic ∨
        (∃ after, ((volume.view.fs.handle dir).rename old new).run volume = .ok () after) ∨
        ∃ error after, ((volume.view.fs.handle dir).rename old new).run volume =
            .err error after ∧
          (after = volume ∨ Looked reserved dir volume after))) ∨
    ∃ child fileType middle, volume.view.Renames dir old new child fileType ∧
      Looked reserved dir volume middle ∧
      ((volume.view.fs.handle dir).rename old new).run volume =
        (exchangeNames (volume.view.fs.handle dir) old new child
          (renamedType (volume.view.inode child))).run middle := by
  have directory := wellFormed.toDirectory
  rw [Inode.rename, run_bind_ok (run_isDir_dir mounted directory)]
  simp only [not_true_eq_false, if_false]
  by_cases odd : old.isEmpty ∨ new.isEmpty ∨ old = .dot ∨ old = .dotDot ∨ new = .dot ∨
      new = .dotDot
  · rw [if_pos odd]
    refine Or.inl ⟨?_, Or.inr (Or.inr ⟨.invalidInput, volume, rfl, Or.inl rfl⟩)⟩
    rintro ⟨child, fileType, renames⟩
    rcases odd with empty | empty | isDot | isDot | isDot | isDot
    · exact absurd (empty.symm.trans renames.oldNonempty) (by decide)
    · exact absurd (empty.symm.trans renames.newNonempty) (by decide)
    · exact renames.oldDots.1 isDot
    · exact renames.oldDots.2 isDot
    · exact renames.newDots.1 isDot
    · exact renames.newDots.2 isDot
  · rw [if_neg odd]
    by_cases same : old = new
    · rw [if_pos same]
      exact Or.inl ⟨fun ⟨_, _, renames⟩ => renames.different same, Or.inr (Or.inl ⟨volume, rfl⟩)⟩
    · rw [if_neg same]
      rcases run_find mounted directory new with
        ⟨absent, first, ranNew, looked⟩ | ⟨taken, takenType, found, outcome⟩
      · rw [run_bind_ok ranNew]
        simp only [Option.isSome_none, Bool.false_eq_true, if_false]
        have firstMounted := looked.mounted mounted
        have firstDirectory := looked.directory mounted directory
        cases foundOld : (volume.view.dirIndex dir)[old]? with
        | none =>
            refine Or.inl ⟨fun ⟨_, _, renames⟩ =>
              absurd (foundOld.symm.trans renames.found) (by simp), Or.inr (Or.inr ?_)⟩
            rcases run_find firstMounted firstDirectory old with
              ⟨_, second, ranOld, lookedOld⟩ | ⟨child, fileType, other, _⟩
            · rw [looked.view_fs] at ranOld
              exact ⟨.notFound, second, (run_bind_ok ranOld).trans rfl,
                Or.inr (looked.trans lookedOld)⟩
            · rw [looked.dirIndex_eq, foundOld] at other
              cases other
        | some value =>
            obtain ⟨child, fileType⟩ := value
            obtain ⟨isChild, typed⟩ :=
              wellFormed.named _ ((wellFormed.indexed old child fileType).mp foundOld)
            have firstInode := looked.inodes child isChild typed
            obtain ⟨second, ranOld, consulted⟩ := run_find_typed firstMounted firstDirectory
              (by rw [looked.dirIndex_eq]; exact foundOld) (by rw [looked.view_fs]; exact isChild)
              (by rw [firstInode]; exact typed)
            have lookedThen := looked.trans consulted.looked
            have secondMounted := lookedThen.mounted mounted
            have read := @view_readDiskInode second reserved secondMounted.layout
              secondMounted.geometry child (by rw [lookedThen.view_fs]; exact isChild)
            rw [lookedThen.view_fs, lookedThen.inodes child isChild typed] at read
            rw [looked.view_fs] at ranOld
            refine Or.inr ⟨child, fileType, second, ⟨?_, ?_, ?_, ?_, same, absent, foundOld⟩,
              lookedThen, ?_⟩
            · simpa using fun empty => odd (Or.inl empty)
            · simpa using fun empty => odd (Or.inr (Or.inl empty))
            · exact ⟨fun isDot => odd (by simp [isDot]), fun isDot => odd (by simp [isDot])⟩
            · exact ⟨fun isDot => odd (by simp [isDot]), fun isDot => odd (by simp [isDot])⟩
            · rw [run_bind_ok ranOld, run_bind_ok (run_okOr_some _ _ _), run_bind_ok read]
              rfl
      · refine Or.inl ⟨fun ⟨_, _, renames⟩ =>
          absurd (found.symm.trans renames.absent) (by simp), ?_⟩
        rcases outcome with ⟨_, panics⟩ | ⟨after, ran, _, looked⟩
        · exact Or.inl (run_bind_panic panics)
        · refine Or.inr (Or.inr ⟨.alreadyExists, after, ?_, Or.inr looked⟩)
          rw [run_bind_ok ran]
          rfl

end Checks

/-- The data blocks, the inode and the entries of a directory and the block
bitmap are the same. -/
structure LeavesBytes (dir : Nat) (view after : View) : Prop where
  data : ∀ blockId ∈ dataBlocks (view.extents dir), after.data blockId = view.data blockId
  inode : after.inode dir = view.inode dir
  entries : after.entries dir = view.entries dir
  bitmap : after.held .block = view.held .block

/-- A renaming that returns an error has changed nothing. -/
def RenameFailsUnchanged (volume : Volume) (dir : Nat) (old new : Str) : Prop :=
  ∀ error after, ((volume.view.fs.handle dir).rename old new).run volume = .err error after →
    LeavesBytes dir volume.view after.view

/-- The slot for the name is the unused end of a record. -/
def View.Splits (view : View) (dir need : Nat) : Prop :=
  ∃ pblock off used recLen, view.slotFor dir need = some (pblock, .split off used recLen)

/-- The call will fail after it has written: the name fits into a block, and
either it is too long for a record and its slot is the end of another one, or it
needs a block, one is free, and the name is too long or the block cannot be
mapped. -/
def RenameSpoils (volume : Volume) (dir : Nat) (old new : Str) : Prop :=
  (∃ child fileType, volume.view.Renames dir old new child fileType) ∧
    align4 (Ext4DirEntry.fixedSize + new.len) ≤ blockSz ∧
    ((ext4NameLen < new.len ∧
        volume.view.Splits dir (align4 (Ext4DirEntry.fixedSize + new.len))) ∨
      (volume.view.NeedsBlock dir (align4 (Ext4DirEntry.fixedSize + new.len)) ∧
        volume.view.HasFree 1 ∧
        (ext4NameLen < new.len ∨
          ¬ RoomFor volume (volume.view.appended dir ((handedOut volume 1).headD 0)) 1)))

theorem LeavesBytes.refl (dir : Nat) (view : View) : LeavesBytes dir view view :=
  ⟨fun _ _ => rfl, rfl, rfl, rfl⟩

theorem Looked.leavesBytes {reserved : Set Nat} {dir : Nat} {volume after : Volume}
    (looked : Looked reserved dir volume after) (mounted : volume.view.Mounted reserved)
    (directory : volume.view.Directory reserved dir) :
    LeavesBytes dir volume.view after.view := by
  have unchanged := looked.unchanged mounted directory
  exact ⟨fun blockId isData => unchanged.data blockId (mem_owned.mpr (Or.inl isData)),
    unchanged.inode, unchanged.entries_eq, by rw [looked.held_eq mounted.geometry]⟩

/-- A lookup changes nothing that could be left. -/
theorem Looked.leavesBytes_iff {reserved : Set Nat} {dir : Nat} {volume middle : Volume}
    (looked : Looked reserved dir volume middle) (mounted : volume.view.Mounted reserved)
    (directory : volume.view.Directory reserved dir) (after : View) :
    LeavesBytes dir middle.view after ↔ LeavesBytes dir volume.view after := by
  have leaves := looked.leavesBytes mounted directory
  have sameExtents := (looked.unchanged mounted directory).extents_eq
  constructor
  · intro then_
    refine ⟨fun blockId isData => (then_.data blockId ?_).trans (leaves.data blockId isData),
      then_.inode.trans leaves.inode, then_.entries.trans leaves.entries,
      then_.bitmap.trans leaves.bitmap⟩
    rw [sameExtents]
    exact isData
  · intro whole
    refine ⟨fun blockId isData => ?_, whole.inode.trans leaves.inode.symm,
      whole.entries.trans leaves.entries.symm, whole.bitmap.trans leaves.bitmap.symm⟩
    rw [sameExtents] at isData
    exact (whole.data blockId isData).trans (leaves.data blockId isData).symm

theorem View.Unchanged.splits {view after : View} {dir : Nat}
    (unchanged : Unchanged view after dir) (need : Nat) :
    after.Splits dir need ↔ view.Splits dir need := by
  rw [View.Splits, View.Splits, unchanged.slotFor_eq]

theorem Looked.hasFree_iff {reserved : Set Nat} {dir : Nat} {volume middle : Volume}
    (looked : Looked reserved dir volume middle) (mounted : volume.view.Mounted reserved)
    (count : Nat) : middle.view.HasFree count ↔ volume.view.HasFree count :=
  View.hasFree_congr looked.view_fs (fun blockId => by rw [looked.held_eq mounted.geometry]) count

theorem Looked.roomFor_iff {reserved : Set Nat} {dir : Nat} {volume middle : Volume}
    (looked : Looked reserved dir volume middle) (mounted : volume.view.Mounted reserved)
    (result : List Ext4Extent) (count : Nat) :
    RoomFor middle result count ↔ RoomFor volume result count := by
  rw [RoomFor, RoomFor, looked.hasFree_iff mounted]

/-- What leaks after lookups. -/
theorem Leaks.leavesBytes_iff {reserved : Set Nat} {dir : Nat} {volume middle after : Volume}
    (mounted : volume.view.Mounted reserved) (directory : volume.view.Directory reserved dir)
    (looked : Looked reserved dir volume middle)
    (leaks : Leaks middle.view after.view (handedOut volume 1)) :
    LeavesBytes dir volume.view after.view ↔ ¬ volume.view.HasFree 1 := by
  have sameHeld := looked.held_eq mounted.geometry
  have middleDirectory := looked.directory mounted directory
  obtain ⟨_, leaksUnchanged⟩ := leaks.fileStep (looked.mounted mounted) middleDirectory.isInode
    middleDirectory.owning middleDirectory.coherent
  have unchanged := (looked.unchanged mounted directory).trans leaksUnchanged
  obtain ⟨new, handedAfter, handed, fresh, _, _, exhausted⟩ := view_handOut mounted 1
  rw [handedOut_eq handed] at leaks
  cases new with
  | nil =>
      refine iff_of_true ⟨fun blockId isData => unchanged.data blockId
        (mem_owned.mpr (Or.inl isData)), unchanged.inode, unchanged.entries_eq, ?_⟩
        (not_hasFree_of_full (by decide) (exhausted (by decide)))
      ext blockId
      rw [leaks.mem_held, sameHeld]
      simp
  | cons pblock rest =>
      refine iff_of_false ?_ (not_not_intro (HasFree.mono ⟨pblock :: rest, fresh, rfl⟩ (by simp)))
      intro leaves
      have isNew : pblock ∈ pblock :: rest := List.mem_cons_self
      have isHeld : pblock ∈ after.view.held .block := leaks.mem_held.mpr (Or.inr isNew)
      rw [leaves.bitmap] at isHeld
      exact fresh.free pblock isNew isHeld

section LongNames

variable {reserved : Set Nat} {dir : Nat} {volume : Volume} {blocks : List (List Dirent)}
  (mounted : volume.view.Mounted reserved) (holds : volume.view.Holds reserved dir blocks)
  {name : Str} (nonempty : name.isEmpty = false)
  (absent : (volume.view.dirIndex dir)[name]? = none) (inodeNum : Nat) (fileType : UInt8)

include mounted holds

/-- Filling a slot with a name that is too long: the split comes first. -/
theorem fillSlot_long (long : ext4NameLen < name.len) {need pblock : Nat} {slot : DirSlot}
    (positive : 0 < need) (chosen : volume.view.slotFor dir need = some (pblock, slot)) :
    ∃ after, (fillSlot pblock inodeNum fileType name slot).run volume =
        .err .nameTooLong after ∧
      (LeavesBytes dir volume.view after.view ↔ ¬ volume.view.Splits dir need) := by
  obtain ⟨l, _, upper, mapped, found⟩ := findSlotFrom_eq_some chosen
  rw [holds.blockCount_eq, Nat.zero_add] at upper
  have isData := (maps_of_mapLogicalBlock mapped).mem_dataBlocks
  obtain ⟨slots, isBlock, tiled⟩ := holds.slots_at upper mapped
  have isOwned := mem_owned.mpr (Or.inl isData)
  have notBitmap : ¬ volume.fs.IsBitmap pblock := fun isBitmap =>
    holds.owning.outside pblock isOwned (mounted.layout.bitmaps pblock isBitmap)
  cases slot with
  | reuse off recLen =>
      refine ⟨volume, run_dirWriteEntryAt_long _ _ _ _ _ _ long, ?_⟩
      refine iff_of_true (LeavesBytes.refl _ _) ?_
      rintro ⟨other, position, used, otherLen, otherChosen⟩
      rw [chosen] at otherChosen
      cases otherChosen
  | split off used recLen =>
      rw [fillSlot, run_bind_ok (run_readBlock _ _), run_bind_ok (run_writeBlock _ _ _),
        run_dirWriteEntryAt_long _ _ _ _ _ _ long]
      refine ⟨_, rfl, iff_of_false ?_ (not_not_intro ⟨pblock, off, used, recLen, chosen⟩)⟩
      intro leaves
      have same := leaves.data pblock isData
      rw [Volume.view_putBlock (Volume.geometry_view.mp mounted.geometry) notBitmap,
        View.data_put_same, disk_of_owned mounted holds.owning isOwned] at same
      rcases findSlot_tiled tiled tiled.length_le need with ⟨missing, _⟩ |
        ⟨before, record, behind, pos, rfl, walked, offers, located⟩
      · rw [missing] at found
        cases found
      · rw [located, Dirent.slotAt] at found
        split at found
        · cases found
        · next notReused =>
            cases found
            obtain ⟨valid, isAt, inside⟩ := tiled.at_walked walked
            have room := offers.resolve_left notReused
            have width : Ext4DirEntry.record.width = Ext4DirEntry.fixedSize := rfl
            have fits := valid.fits
            -- The length of the record tells the two blocks apart.
            have shorter : record.entry.recLen = UInt16.ofNat record.used := by
              have loaded := congrArg
                (fun block : Block => (block.load Ext4DirEntry.record off).recLen) same
              rw [Bytes.load_store _ _ _ (by omega), isAt.entry] at loaded
              exact loaded.symm
            have lengths := congrArg UInt16.toNat shorter
            rw [Dirent.entry_recLen (by omega), UInt16.toNat_ofNat', Nat.mod_eq_of_lt (by
              simp only [blockSz] at inside
              omega)] at lengths
            omega

include nonempty absent

theorem dirAddEntry_long (long : ext4NameLen < name.len) :
    ∃ error after, ((volume.view.fs.handle dir).dirAddEntry name inodeNum fileType).run volume =
        .err error after ∧
      (LeavesBytes dir volume.view after.view ↔
        ¬ (align4 (Ext4DirEntry.fixedSize + name.len) ≤ blockSz ∧
          (volume.view.Splits dir (align4 (Ext4DirEntry.fixedSize + name.len)) ∨
            volume.view.NeedsBlock dir (align4 (Ext4DirEntry.fixedSize + name.len)) ∧
              volume.view.HasFree 1))) := by
  have directory := holds.toDirectory
  by_cases fits : align4 (Ext4DirEntry.fixedSize + name.len) ≤ blockSz
  · rw [and_iff_right fits]
    obtain ⟨middle, consulted, ran⟩ := run_dirAddEntry mounted directory nonempty absent fits inodeNum
      fileType
    have looked : Looked reserved dir volume middle := consulted.looked
    have unchanged := looked.unchanged mounted directory
    have middleMounted := looked.mounted mounted
    have middleHolds := looked.holds mounted holds
    rw [ran]
    cases chosen : volume.view.slotFor dir (align4 (Ext4DirEntry.fixedSize + name.len)) with
    | some pair =>
        obtain ⟨pblock, slot⟩ := pair
        have positive : 0 < align4 (Ext4DirEntry.fixedSize + name.len) := by
          simp only [align4, Ext4DirEntry.fixedSize]
          omega
        have noNeed : ¬ (volume.view.NeedsBlock dir
            (align4 (Ext4DirEntry.fixedSize + name.len)) ∧ volume.view.HasFree 1) :=
          fun both => absurd (chosen.symm.trans both.1.1) (by simp)
        obtain ⟨after, filled, leavesIff⟩ := fillSlot_long middleMounted middleHolds inodeNum
          fileType long positive (by rw [unchanged.slotFor_eq]; exact chosen)
        rw [looked.leavesBytes_iff mounted directory, unchanged.splits] at leavesIff
        exact ⟨_, after, filled, by rw [leavesIff, or_iff_left noNeed]⟩
    | none =>
        have noSplit : ¬ volume.view.Splits dir (align4 (Ext4DirEntry.fixedSize + name.len)) := by
          rintro ⟨_, _, _, _, other⟩
          rw [chosen] at other
          cases other
        rw [or_iff_right noSplit]
        have failsLong (pblock : Nat) (between : Volume) :
            (finishAppend (volume.view.fs.handle dir) (volume.view.blockCount dir) inodeNum fileType
              name pblock).run between = .err .nameTooLong between :=
          run_bind_err (run_dirWriteEntryAt_long _ _ _ _ _ _ long)
        have outcome := dirAppendEntry_outcome middleMounted (looked.directory mounted directory)
          inodeNum fileType name
        rw [looked.sameAllocator.handedOut_eq 1, looked.view_fs, middleHolds.blockCount_eq,
          ← holds.blockCount_eq, unchanged.endsMapped] at outcome
        simp only [unchanged.appended_eq] at outcome
        rcases outcome with ⟨ends, _, pblock, between, _, fresh, extended, ended⟩ |
          ⟨ends, _, error, after, ended, leaks⟩ | ⟨notEnds, between, reread, ended⟩
        · refine ⟨_, between, ended.trans (failsLong pblock between), ?_⟩
          have isNew : pblock ∈ [pblock] := List.mem_singleton_self _
          have hasFree : volume.view.HasFree 1 :=
            (looked.hasFree_iff mounted 1).mp ⟨[pblock], fresh, rfl⟩
          refine iff_of_false ?_ (not_not_intro ⟨⟨chosen, ends⟩, hasFree⟩)
          intro leaves
          have extend := directory.extends_appended ends.1 ends.2
            (middleMounted.guarded.fresh (fresh.items pblock isNew) (fresh.free pblock isNew)).2.2
          have isHeld := extended.step.owning.held pblock (mem_owned.mpr (Or.inl (by
            rw [extended.extents]
            exact extend.dataBlocks.mem_iff.mpr List.mem_cons_self)))
          rw [leaves.bitmap, ← looked.held_eq mounted.geometry] at isHeld
          exact fresh.free pblock isNew isHeld
        · refine ⟨error, after, ended, ?_⟩
          rw [leaks.leavesBytes_iff mounted directory looked, and_iff_right ⟨chosen, ends⟩]
        · have lookedThen := looked.reread reread
          have leaves := lookedThen.leavesBytes mounted directory
          have spared : ¬ (volume.view.NeedsBlock dir
              (align4 (Ext4DirEntry.fixedSize + name.len)) ∧ volume.view.HasFree 1) :=
            fun both => notEnds both.1.2
          simp only
          rw [ended]
          cases mapLogicalBlock (middle.view.extents dir) (volume.view.blockCount dir) with
          | none => exact ⟨_, between, rfl, iff_of_true leaves spared⟩
          | some pblock => exact ⟨_, between, failsLong pblock between, iff_of_true leaves spared⟩
  · obtain ⟨after, ran, looked⟩ := run_dirAddEntry_huge mounted directory nonempty absent
      (by omega) inodeNum fileType
    exact ⟨_, after, ran, iff_of_true (looked.leavesBytes mounted directory)
      fun both => fits both.1⟩

end LongNames

/-- The number of an inode as a record stores it. -/
theorem toNat_ofNat_isInode {fs : Ext4FileSystem} (geometry : Geometry fs) {inodeNum : Nat}
    (isInode : fs.IsInode inodeNum) : (UInt32.ofNat inodeNum).toNat = inodeNum := by
  rw [UInt32.toNat_ofNat']
  exact Nat.mod_eq_of_lt (Layout.isInode_small geometry isInode)

theorem number_ne_zero {fs : Ext4FileSystem} (geometry : Geometry fs) {child : Nat}
    (isChild : fs.IsInode child) : UInt32.ofNat child ≠ 0 := by
  intro isZero
  have values := congrArg UInt32.toNat isZero
  rw [toNat_ofNat_isInode geometry isChild] at values
  exact absurd isChild.1 (by rw [values]; decide)

/-- The name of an entry is the name of a record. -/
theorem View.Holds.mem_contents {reserved : Set Nat} {view : View} {dir : Nat}
    {blocks : List (List Dirent)} (holds : view.Holds reserved dir blocks) {binding : DirBinding} :
    binding ∈ view.entries dir ↔ ∃ number, binding.inodeNum = number.toNat ∧
      (binding.name.bytes, number, binding.fileType) ∈ contents blocks := by
  rw [holds.entries_eq]
  constructor
  · intro isMem
    obtain ⟨slot, isSlot, bound⟩ := List.mem_filterMap.mp isMem
    obtain ⟨item, contentEq, decoded⟩ := Option.bind_eq_some_iff.mp bound
    obtain ⟨text, textEq, rfl⟩ := Option.map_eq_some_iff.mp decoded
    refine ⟨item.2.1, rfl, List.mem_filterMap.mpr ⟨slot, isSlot, ?_⟩⟩
    rw [contentEq, Str.bytes_of_fromUtf8 textEq]
  · rintro ⟨number, numberEq, isItem⟩
    obtain ⟨slot, isSlot, contentEq⟩ := List.mem_filterMap.mp isItem
    refine List.mem_filterMap.mpr ⟨slot, isSlot, ?_⟩
    rw [Dirent.binding, contentEq]
    simp only [Option.bind_some, Str.fromUtf8_bytes, Option.map_some, ← numberEq]

/-- The new name was entered and a record with the old one cleared, after
lookups that led to `between`; the index is another matter. -/
structure Exchanged (reserved : Set Nat) (dir : Nat) (volume between removed : Volume)
    (blocks : List (List Dirent)) (old : List UInt8) (item : List UInt8 × UInt32 × UInt8) :
    Prop where
  looked : Looked reserved dir volume between
  step : FileStep reserved dir between.view removed.view
  holds : ∃ changed full cleared, removed.view.Holds reserved dir changed ∧
    Inserts item (contents blocks) full ∧ Inserts cleared (contents changed) full ∧
    cleared.1 = old

section Renaming

variable {reserved : Set Nat} {dir : Nat} {volume : Volume} {blocks : List (List Dirent)}
  (mounted : volume.view.Mounted reserved) (wellFormed : volume.view.WellFormed reserved dir blocks)

include mounted wellFormed

/-- The two steps behind the checks, for a name that is short enough. -/
theorem exchangeNames_outcome {old new : Str} {child : Nat} {fileType : UInt8}
    (renames : volume.view.Renames dir old new child fileType) (short : new.len ≤ ext4NameLen)
    {middle : Volume} (looked : Looked reserved dir volume middle) (newType : UInt8) :
    (volume.view.NeedsBlock dir (align4 (Ext4DirEntry.fixedSize + new.len)) ∧
      ¬ RoomFor volume (volume.view.appended dir ((handedOut volume 1).headD 0)) 1 ∧
      ∃ error between after,
        (exchangeNames (volume.view.fs.handle dir) old new child newType).run middle =
          .err error after ∧
        Looked reserved dir volume between ∧
        Leaks between.view after.view (handedOut volume 1)) ∨
    (¬ (volume.view.NeedsBlock dir (align4 (Ext4DirEntry.fixedSize + new.len)) ∧
        ¬ RoomFor volume (volume.view.appended dir ((handedOut volume 1).headD 0)) 1) ∧
      ((∃ between removed after cache,
          (exchangeNames (volume.view.fs.handle dir) old new child newType).run middle =
            .ok () after ∧
          after = { removed with dirIndexCache := cache } ∧
          Exchanged reserved dir volume between removed blocks old.bytes
            (new.bytes, UInt32.ofNat child, newType)) ∨
        (volume.view.slotFor dir (align4 (Ext4DirEntry.fixedSize + new.len)) = none ∧
          ∃ error after,
            (exchangeNames (volume.view.fs.handle dir) old new child newType).run middle =
              .err error after ∧
            Looked reserved dir volume after))) := by
  have directory := wellFormed.toDirectory
  have middleMounted := looked.mounted mounted
  have middleHolds := looked.holds mounted wellFormed.toHolds
  have unchanged := looked.unchanged mounted directory
  have isEntry := (wellFormed.indexed old child fileType).mp renames.found
  have numbered := number_ne_zero mounted.geometry (wellFormed.named _ isEntry).1
  have outcome := entered_dirAddEntry middleMounted middleHolds renames.newNonempty short
    (by rw [looked.dirIndex_eq]; exact renames.absent) numbered newType
  rw [looked.sameAllocator.handedOut_eq 1, looked.view_fs, unchanged.needsBlock,
    unchanged.slotFor_eq] at outcome
  simp only [unchanged.appended_eq, looked.roomFor_iff mounted] at outcome
  rw [exchangeNames]
  rcases outcome with ⟨needs, noRoom, error, between, after, failed, lookedThen, leaks⟩ |
    ⟨roomy, ⟨between, after, entered, lookedThen, enters⟩ |
      ⟨noSlot, error, after, failed, lookedThen⟩⟩
  · exact Or.inl ⟨needs, noRoom, error, between, after, run_bind_err failed,
      looked.trans lookedThen, leaks⟩
  · refine Or.inr ⟨roomy, Or.inl ?_⟩
    have lookedBetween := looked.trans lookedThen
    have betweenMounted := lookedBetween.mounted mounted
    have betweenOwning := (lookedBetween.directory mounted directory).owning
    have sameFs : after.view.fs = volume.view.fs := enters.step.fs.trans lookedBetween.view_fs
    obtain ⟨changed, afterHolds, inserts⟩ := enters.holds
    obtain ⟨number, _, isItem⟩ := wellFormed.toHolds.mem_contents.mp isEntry
    have removal := removed_dirRemoveEntry (enters.step.mounted betweenMounted betweenOwning)
      afterHolds old
    rw [sameFs] at removal
    rcases removal with ⟨_, missing⟩ | ⟨cleared, removed, ran, named, _, removes⟩
    · exact absurd rfl (missing _ (inserts.mem_iff.mpr (Or.inr isItem)))
    · obtain ⟨last, lastHolds, clears⟩ := removes.holds
      obtain ⟨cache, updated⟩ := run_dirIndexCacheUpdate removed dir fun index =>
        (index.erase old).insert new (child, newType)
      exact ⟨between, removed, _, cache,
        (run_bind_ok entered).trans ((run_bind_ok ran).trans updated), rfl, lookedBetween,
        enters.step.trans removes.step, last, contents changed, cleared, lastHolds, inserts, clears,
        named⟩
  · exact Or.inr ⟨roomy, Or.inr ⟨noSlot, error, after, run_bind_err failed,
      looked.trans lookedThen⟩⟩

/-- A failed renaming changes the directory or the block bitmap exactly when it
has split a record or taken a block before it fails. -/
theorem renameFailsUnchanged_iff (old new : Str) :
    RenameFailsUnchanged volume dir old new ↔ ¬ RenameSpoils volume dir old new := by
  have directory := wellFormed.toDirectory
  rcases rename_outcome mounted wellFormed old new with ⟨refused, outcome⟩ |
    ⟨child, fileType, middle, renames, looked, ran⟩
  · refine iff_of_true ?_ fun spoils => refused spoils.1
    intro error after failed
    rcases outcome with panics | ⟨other, finished⟩ | ⟨_, other, ended, kept⟩
    · rw [panics] at failed
      cases failed
    · rw [finished] at failed
      cases failed
    · rw [ended] at failed
      cases failed
      rcases kept with rfl | looked
      · exact LeavesBytes.refl _ _
      · exact looked.leavesBytes mounted directory
  · have middleMounted := looked.mounted mounted
    have middleHolds := looked.holds mounted wellFormed.toHolds
    have unchanged := looked.unchanged mounted directory
    have absent : (middle.view.dirIndex dir)[new]? = none := by
      rw [looked.dirIndex_eq]
      exact renames.absent
    rw [RenameFailsUnchanged, ran, RenameSpoils,
      and_iff_right (show ∃ child fileType, volume.view.Renames dir old new child fileType from
        ⟨child, fileType, renames⟩)]
    by_cases long : ext4NameLen < new.len
    · obtain ⟨error, after, failed, leavesIff⟩ := dirAddEntry_long middleMounted middleHolds
        renames.newNonempty absent child (renamedType (volume.view.inode child)) long
      rw [looked.view_fs] at failed
      rw [looked.leavesBytes_iff mounted directory, unchanged.splits, unchanged.needsBlock,
        looked.hasFree_iff mounted] at leavesIff
      rw [exchangeNames, run_bind_err failed]
      simp only [long, true_or, true_and, and_true]
      rw [← leavesIff]
      constructor
      · exact fun property => property error after rfl
      · intro leaves other last same
        cases same
        exact leaves
    · have notLong : (ext4NameLen < new.len) = False := eq_false long
      have fits := align4_record_le (Nat.le_of_not_lt long)
      simp only [notLong, false_and, false_or, fits, true_and]
      rcases exchangeNames_outcome mounted wellFormed renames (by omega) looked
          (renamedType (volume.view.inode child)) with
        ⟨needs, noRoom, error, between, after, failed, lookedThen, leaks⟩ |
        ⟨roomy, ⟨between, removed, after, cache, finished, _⟩ |
          ⟨_, error, after, failed, lookedThen⟩⟩
      · have leavesIff := leaks.leavesBytes_iff mounted directory lookedThen
        have spoilsIff : (volume.view.NeedsBlock dir
              (align4 (Ext4DirEntry.fixedSize + new.len)) ∧ volume.view.HasFree 1 ∧
            ¬ RoomFor volume (volume.view.appended dir ((handedOut volume 1).headD 0)) 1) ↔
              volume.view.HasFree 1 :=
          ⟨fun spoils => spoils.2.1, fun hasFree => ⟨needs, hasFree, noRoom⟩⟩
        rw [failed, spoilsIff, ← leavesIff]
        constructor
        · exact fun property => property error after rfl
        · intro leaves other last same
          cases same
          exact leaves
      · rw [finished]
        refine iff_of_true ?_ fun spoils => roomy ⟨spoils.1, spoils.2.2⟩
        intro error after failed
        cases failed
      · rw [failed]
        refine iff_of_true ?_ fun spoils => roomy ⟨spoils.1, spoils.2.2⟩
        intro other last same
        cases same
        exact lookedThen.leavesBytes mounted directory

end Renaming

/-- The entries have the new name in place of the old one, and nothing else of
the volume that the directory does not own has changed. -/
structure Renamed (reserved : Set Nat) (dir : Nat) (view after : View) (old new : Str)
    (child : Nat) (fileType : UInt8) : Prop where
  entries : ∀ binding, binding ∈ after.entries dir ↔
    (binding ∈ view.entries dir ∧ binding.name ≠ old) ∨ binding = ⟨new, child, fileType⟩
  target : after.inode child = view.inode child
  blocks : ∀ blockId ∈ view.held .block, blockId ∉ view.owned dir → blockId ∉ reserved →
    blockId ∈ after.held .block ∧ after.data blockId = view.data blockId

/-- Entering one name and clearing another, among distinct names. -/
theorem mem_exchanged {α β : Type} {first full last : List (α × β)} {item cleared : α × β}
    (distinct : (first.map Prod.fst).Nodup) (absent : item.1 ∉ first.map Prod.fst)
    (enters : Inserts item first full) (clears : Inserts cleared last full)
    (different : item.1 ≠ cleared.1) (other : α × β) :
    other ∈ last ↔ (other ∈ first ∧ other.1 ≠ cleared.1) ∨ other = item := by
  have nodup : ((cleared :: last).map Prod.fst).Nodup := by
    refine (clears.perm.map Prod.fst).nodup_iff.mp ((enters.perm.map Prod.fst).nodup_iff.mpr ?_)
    exact List.nodup_cons.mpr ⟨absent, distinct⟩
  have onlyOne := (List.nodup_cons.mp nodup).1
  have sameFull : other = cleared ∨ other ∈ last ↔ other = item ∨ other ∈ first :=
    clears.mem_iff.symm.trans enters.mem_iff
  constructor
  · intro isLast
    rcases sameFull.mp (Or.inr isLast) with isItem | isFirst
    · exact Or.inr isItem
    · refine Or.inl ⟨isFirst, ?_⟩
      intro sameName
      exact onlyOne (sameName ▸ List.mem_map_of_mem isLast)
  · rintro (⟨isFirst, otherName⟩ | isItem)
    · rcases sameFull.mpr (Or.inr isFirst) with rfl | isLast
      · exact absurd rfl otherName
      · exact isLast
    · rcases sameFull.mpr (Or.inl isItem) with rfl | isLast
      · exact absurd (congrArg Prod.fst isItem.symm) different
      · exact isLast

theorem renamedType_eq_iff (inode : Ext4Inode)
    (known : dirEntryFileTypeFromMode inode.iMode ≠ Ext4DirEntry.ftUnknown) :
    renamedType inode = dirEntryFileTypeFromMode inode.iMode ↔
      inode.isFile = true ∨ inode.isDir = true := by
  by_cases isDir : inode.isDir = true
  · have kind : inode.iMode &&& sIfmt = sIfdir := by
      simpa [Ext4Inode.isDir, Ext4Inode.fileType] using isDir
    refine iff_of_true ?_ (Or.inr isDir)
    rw [renamedType, if_pos isDir, dirEntryFileTypeFromMode, kind]
    rfl
  · by_cases isFile : inode.isFile = true
    · have kind : inode.iMode &&& sIfmt = sIfreg := by
        simpa [Ext4Inode.isFile, Ext4Inode.fileType] using isFile
      refine iff_of_true ?_ (Or.inl isFile)
      rw [renamedType, if_neg isDir, if_pos isFile, dirEntryFileTypeFromMode, kind]
      rfl
    · rw [renamedType, if_neg isDir, if_neg isFile]
      exact iff_of_false known.symm (not_or.mpr ⟨isFile, isDir⟩)

/-- A name without a binding is the name of no record. -/
theorem View.WellFormed.notName {reserved : Set Nat} {view : View} {dir : Nat}
    {blocks : List (List Dirent)} (wellFormed : view.WellFormed reserved dir blocks) {name : Str}
    (absent : (view.dirIndex dir)[name]? = none) :
    name.bytes ∉ (contents blocks).map Prod.fst := by
  intro isName
  obtain ⟨⟨bytes, number, fileType⟩, isItem, sameName⟩ := List.mem_map.mp isName
  have isEntry : (⟨name, number.toNat, fileType⟩ : DirBinding) ∈ view.entries dir :=
    wellFormed.toHolds.mem_contents.mpr ⟨number, rfl, by
      have sameBytes : bytes = name.bytes := sameName
      rw [← sameBytes]
      exact isItem⟩
  have found := (wellFormed.indexed _ _ _).mpr isEntry
  rw [absent] at found
  cases found

section Renaming

variable {reserved : Set Nat} {dir : Nat} {volume : Volume} {blocks : List (List Dirent)}
  (mounted : volume.view.Mounted reserved) (wellFormed : volume.view.WellFormed reserved dir blocks)
  {old new : Str} {child : Nat} {fileType : UInt8}
  (renames : volume.view.Renames dir old new child fileType)

include wellFormed renames

/-- The entries behind an exchange of names. -/
theorem Exchanged.mem_entries {between removed : Volume} {newType : UInt8}
    (numbered : (UInt32.ofNat child).toNat = child)
    (exchanged : Exchanged reserved dir volume between removed blocks old.bytes
      (new.bytes, UInt32.ofNat child, newType)) (binding : DirBinding) :
    binding ∈ removed.view.entries dir ↔
      (binding ∈ volume.view.entries dir ∧ binding.name ≠ old) ∨
        binding = ⟨new, child, newType⟩ := by
  obtain ⟨changed, full, cleared, holds, enters, clears, named⟩ := exchanged.holds
  have absent := wellFormed.notName renames.absent
  have different : new.bytes ≠ old.bytes :=
    fun same => renames.different (Str.bytes_injective same).symm
  rw [holds.mem_contents, wellFormed.toHolds.mem_contents]
  have exchange := mem_exchanged wellFormed.distinct absent enters clears
    (by rw [named]; exact different)
  constructor
  · rintro ⟨number, numberEq, isItem⟩
    rcases (exchange _).mp isItem with ⟨isOld, otherName⟩ | isNew
    · refine Or.inl ⟨⟨number, numberEq, isOld⟩, ?_⟩
      rintro rfl
      exact otherName named.symm
    · simp only [Prod.mk.injEq] at isNew
      obtain ⟨sameName, rfl, sameType⟩ := isNew
      right
      rw [DirBinding.mk.injEq]
      exact ⟨Str.bytes_injective sameName, numberEq.trans numbered, sameType⟩
  · rintro (⟨⟨number, numberEq, isItem⟩, otherName⟩ | rfl)
    · refine ⟨number, numberEq, (exchange _).mpr (Or.inl ⟨isItem, ?_⟩)⟩
      rw [named]
      exact fun same => otherName (Str.bytes_injective same)
    · exact ⟨UInt32.ofNat child, numbered.symm, (exchange _).mpr (Or.inr rfl)⟩

/-- A renaming that keeps the type of the entry has computed it. -/
theorem Exchanged.type_eq {between removed : Volume} {newType : UInt8}
    (numbered : (UInt32.ofNat child).toNat = child)
    (exchanged : Exchanged reserved dir volume between removed blocks old.bytes
      (new.bytes, UInt32.ofNat child, newType)) {after : View}
    (sameEntries : after.entries dir = removed.view.entries dir)
    (renamed : Renamed reserved dir volume.view after old new child fileType) :
    newType = fileType := by
  have isNew := (renamed.entries ⟨new, child, fileType⟩).mpr (Or.inr rfl)
  rw [sameEntries] at isNew
  rcases (exchanged.mem_entries wellFormed renames numbered _).mp isNew with ⟨isOld, _⟩ | same
  · have found := (wellFormed.indexed _ _ _).mpr isOld
    rw [renames.absent] at found
    cases found
  · exact (congrArg DirBinding.fileType same).symm

include mounted

/-- A successful renaming keeps everything but the name exactly when the inode is
a regular file or a directory: the type of any other entry is lost. -/
theorem renamed_iff (short : new.len ≤ ext4NameLen)
    (typeMatches : fileType = dirEntryFileTypeFromMode (volume.view.inode child).iMode)
    (known : fileType ≠ Ext4DirEntry.ftUnknown) {after : Volume}
    (ran : ((volume.view.fs.handle dir).rename old new).run volume = .ok () after) :
    Renamed reserved dir volume.view after.view old new child fileType ↔
      (volume.view.inode child).isFile = true ∨ (volume.view.inode child).isDir = true := by
  have directory := wellFormed.toDirectory
  have isEntry := (wellFormed.indexed old child fileType).mp renames.found
  obtain ⟨isChild, typed⟩ := wellFormed.named _ isEntry
  have apart := wellFormed.apart _ isEntry renames.oldDots.1 renames.oldDots.2
  have numbered := toNat_ofNat_isInode mounted.geometry isChild
  rw [typeMatches] at known
  rw [← renamedType_eq_iff _ known, ← typeMatches]
  rcases rename_outcome mounted wellFormed old new with ⟨refused, _⟩ |
    ⟨other, otherType, middle, otherRenames, looked, started⟩
  · exact absurd ⟨child, fileType, renames⟩ refused
  · have sameValue := renames.found.symm.trans otherRenames.found
    cases sameValue
    rw [started] at ran
    rcases exchangeNames_outcome mounted wellFormed renames short looked
        (renamedType (volume.view.inode child)) with
      ⟨_, _, error, between, last, failed, _⟩ |
      ⟨_, ⟨between, removed, last, cache, finished, lastEq, exchanged⟩ |
        ⟨_, error, last, failed, _⟩⟩
    · rw [failed] at ran
      cases ran
    · rw [finished] at ran
      cases ran
      have mem := exchanged.mem_entries wellFormed renames numbered
      have sameEntries : after.view.entries dir = removed.view.entries dir := by
        rw [lastEq]
        exact @View.entries_congr removed.view
          ({ removed with dirIndexCache := cache } : Volume).view dir rfl rfl fun _ _ => rfl
      have betweenFs := exchanged.looked.view_fs
      have unchanged := exchanged.looked.unchanged mounted directory
      constructor
      · exact exchanged.type_eq wellFormed renames numbered sameEntries
      · intro sameType
        refine ⟨?_, ?_, ?_⟩
        · rw [sameEntries, ← sameType]
          exact mem
        · have sameInode : after.view.inode child = removed.view.inode child := by
            rw [lastEq]
            rfl
          rw [sameInode, exchanged.step.inodes child (by rw [betweenFs]; exact isChild) apart,
            exchanged.looked.inodes child isChild typed]
        · intro blockId isHeld notOwned outside
          have sameView : after.view.held = removed.view.held ∧
              after.view.data = removed.view.data := by
            rw [lastEq]
            exact ⟨rfl, rfl⟩
          rw [← exchanged.looked.held_eq mounted.geometry] at isHeld
          rw [← unchanged.owned_eq] at notOwned
          rw [sameView.1, sameView.2, exchanged.step.data blockId isHeld notOwned outside,
            exchanged.looked.data_eq outside]
          exact ⟨exchanged.step.held blockId isHeld notOwned, rfl⟩
    · rw [failed] at ran
      cases ran

end Renaming

/-- A directory block with an entry `a` for inode 11 behind the dots. -/
def entryBlock (fileType : UInt8) : Block :=
  Block.putEntry (Block.putEntry (Block.putEntry .zeroed 0 12 2 Ext4DirEntry.ftDir .dot)
    12 12 2 Ext4DirEntry.ftDir .dotDot) 24 (blockSz - 24) 11 fileType letterA

def entrySlots (fileType : UInt8) : List Dirent :=
  [⟨2, 12, Ext4DirEntry.ftDir, [0x2E]⟩, ⟨2, 12, Ext4DirEntry.ftDir, [0x2E, 0x2E]⟩,
    ⟨11, blockSz - 24, fileType, [0x61]⟩]

/-- The full volume with inode 11 in its root directory. -/
def entryVolume (fileType : UInt8) (inode : Ext4Inode) : Volume :=
  ((rootVolume fullBitmap).putBlock 20 (entryBlock fileType)).putBlock 4
    (((Bytes.zeroed : Block).paste 256 (Inode.dirInode 20)).paste 2560 inode)

theorem tiled_rootBlock : Tiled rootBlock 0
    [⟨2, 12, Ext4DirEntry.ftDir, [0x2E]⟩, ⟨2, blockSz - 12, Ext4DirEntry.ftDir, [0x2E, 0x2E]⟩]
    blockSz :=
  ⟨⟨by decide, by decide, by decide⟩, ⟨by decide, by decide⟩,
    ⟨by decide, by decide, by decide⟩, ⟨by decide +kernel, by decide +kernel⟩, rfl⟩

theorem maps_rootVolume (bitmap : Block) : Maps ((rootVolume bitmap).view.extents 2) 0 20 := by
  rw [(owned_rootVolume bitmap).1]
  exact ⟨_, List.mem_singleton_self _, by decide, by decide, by decide⟩

/-- The records of the root directory. -/
def rootSlots : List Dirent :=
  [⟨2, 12, Ext4DirEntry.ftDir, [0x2E]⟩, ⟨2, blockSz - 12, Ext4DirEntry.ftDir, [0x2E, 0x2E]⟩]

theorem holds_rootVolume {bitmap : Block} (inUse : bitmap.testBit 20 = true) :
    (rootVolume bitmap).view.Holds {block | block ≤ 5} 2 [rootSlots] := by
  refine ⟨directory_rootVolume bitmap inUse, ?_, ?_⟩
  · rw [inode_rootVolume]
    decide
  · intro lblock slots isBlock
    obtain ⟨inside, same⟩ := List.getElem?_eq_some_iff.mp isBlock
    obtain rfl : lblock = 0 := by simpa using inside
    subst same
    refine ⟨20, maps_rootVolume bitmap, ?_⟩
    rw [Volume.data_of_not_bitmap (by decide : ¬ smallFileSystem.IsBitmap 20)]
    exact tiled_rootBlock

theorem holds_full : (rootVolume fullBitmap).view.Holds {block | block ≤ 5} 2 [rootSlots] :=
  holds_rootVolume (testBit_fullBitmap ⟨20, by decide⟩)

section EntryVolume

variable {fileType : UInt8} {inode : Ext4Inode}

/-- The view of the volume with the entry. -/
theorem view_entryVolume : (entryVolume fileType inode).view =
    ((rootVolume fullBitmap).view.put 20 (entryBlock fileType)).putInode 11 inode := by
  have geometry := Volume.geometry_view.mp mounted_full.geometry
  have position : ((rootVolume fullBitmap).view.put 20 (entryBlock fileType)).fs.handle 11 =
      ⟨11, 4, 2560⟩ := (by decide : smallFileSystem.shape.handle 11 = ⟨11, 4, 2560⟩)
  have table : ((rootVolume fullBitmap).view.put 20 (entryBlock fileType)).data 4 =
      (Bytes.zeroed : Block).paste 256 (Inode.dirInode 20) := by
    rw [View.data_put_of_ne (by decide),
      Volume.data_of_not_bitmap (by decide : ¬ smallFileSystem.IsBitmap 4)]
    rfl
  rw [entryVolume, View.putInode, position, table,
    @Volume.view_putBlock ((rootVolume fullBitmap).putBlock 20 (entryBlock fileType)) geometry 4
      (by decide : ¬ smallFileSystem.IsBitmap 4),
    Volume.view_putBlock geometry (by decide : ¬ smallFileSystem.IsBitmap 20)]

theorem mounted_entryVolume : (entryVolume fileType inode).view.Mounted {block | block ≤ 5} := by
  rw [view_entryVolume]
  exact ⟨mounted_full.geometry, mounted_full.small, mounted_full.layout, mounted_full.reserved⟩

theorem isInode_entryVolume : (entryVolume fileType inode).view.fs.IsInode 11 ∧
    (entryVolume fileType inode).view.fs.IsInode 2 :=
  (by decide : (1 ≤ 11 ∧ 11 ≤ smallFileSystem.superblock.inodesPerGroup *
      smallFileSystem.groupDescs.length) ∧
    1 ≤ 2 ∧ 2 ≤ smallFileSystem.superblock.inodesPerGroup * smallFileSystem.groupDescs.length)

theorem inode_entryVolume : (entryVolume fileType inode).view.inode 11 = inode := by
  rw [view_entryVolume]
  exact @inode_putInode_same ((rootVolume fullBitmap).view.put 20 (entryBlock fileType))
    {block | block ≤ 5} mounted_full.layout mounted_full.geometry 11
    (@isInode_entryVolume fileType inode).1 inode

theorem notCached_entryVolume (inodeNum : Nat) :
    (entryVolume fileType inode).view.extentsCache[inodeNum]? = none ∧
      (entryVolume fileType inode).view.dirIndexCache[inodeNum]? = none := by
  rw [view_entryVolume]
  simp [rootVolume, Volume.view, View.put, View.putInode]

variable (tiled : Tiled (entryBlock fileType) 0 (entrySlots fileType) blockSz)

include tiled

theorem unchanged_entryVolume :
    Unchanged ((rootVolume fullBitmap).view.put 20 (entryBlock fileType))
      (entryVolume fileType inode).view 2 := by
  obtain ⟨_, _, _, _, holds⟩ := holds_full.put mounted_full (maps_rootVolume fullBitmap) tiled
  refine ⟨?_, ?_, ?_⟩
  · rw [view_entryVolume]
    exact @inode_putInode_of_ne ((rootVolume fullBitmap).view.put 20 (entryBlock fileType))
      {block | block ≤ 5} mounted_full.layout mounted_full.geometry 11
      (@isInode_entryVolume fileType inode).1 inode 2 (@isInode_entryVolume fileType inode).2
      (by decide)
  · intro blockId isOwned
    rw [view_entryVolume]
    exact @data_putInode ((rootVolume fullBitmap).view.put 20 (entryBlock fileType))
      {block | block ≤ 5} mounted_full.layout mounted_full.geometry 11
      (@isInode_entryVolume fileType inode).1 inode blockId (holds.owning.outside blockId isOwned)
  · intro blockId _ isHeld
    rw [view_entryVolume]
    exact isHeld

theorem inode_root_entryVolume :
    (entryVolume fileType inode).view.inode 2 = Inode.dirInode 20 := by
  obtain ⟨_, _, inodeEq, _, _⟩ := holds_full.put mounted_full (maps_rootVolume fullBitmap) tiled
  rw [(unchanged_entryVolume tiled).inode, inodeEq, inode_rootVolume]

theorem holds_entryVolume :
    (entryVolume fileType inode).view.Holds {block | block ≤ 5} 2 [entrySlots fileType] := by
  obtain ⟨_, _, _, _, holds⟩ := holds_full.put mounted_full (maps_rootVolume fullBitmap) tiled
  have unchanged := @unchanged_entryVolume fileType inode tiled
  have notCached := @notCached_entryVolume fileType inode 2
  have wasNotCached :
      ((rootVolume fullBitmap).view.put 20 (entryBlock fileType)).dirIndexCache[2]? = none := by
    simp [rootVolume, Volume.view, View.put]
  refine holds.of_unchanged (holds.toDirectory.of_unchanged ?_ ?_ unchanged ?_ ?_) unchanged
  · rw [view_entryVolume]
    rfl
  · rw [view_entryVolume]
    exact holds.inUse
  · intro cached found
    rw [notCached.1] at found
    cases found
  · rw [View.dirIndex, View.dirIndex, notCached.2, wasNotCached, unchanged.entries_eq]

theorem entries_entryVolume : (entryVolume fileType inode).view.entries 2 =
    [⟨.dot, 2, Ext4DirEntry.ftDir⟩, ⟨.dotDot, 2, Ext4DirEntry.ftDir⟩, ⟨letterA, 11, fileType⟩] := by
  rw [(holds_entryVolume tiled).entries_eq]
  rfl

theorem wellFormed_entryVolume (typed : inode.Typed) :
    (entryVolume fileType inode).view.WellFormed {block | block ≤ 5} 2 [entrySlots fileType] := by
  have rootTyped : ((entryVolume fileType inode).view.inode 2).Typed := by
    rw [inode_root_entryVolume tiled, Ext4Inode.Typed]
    decide
  refine ⟨holds_entryVolume tiled, ?_, ?_, ?_, ?_⟩
  · have names : (contents [entrySlots fileType]).map Prod.fst =
        [[0x2E], [0x2E, 0x2E], [0x61]] := rfl
    rw [names]
    decide
  · intro name inodeNum otherType
    rw [View.dirIndex, (@notCached_entryVolume fileType inode 2).2, entries_entryVolume tiled]
    exact getElem?_foldl_iff (by simp only [List.map]; decide) name inodeNum otherType
  · rw [entries_entryVolume tiled]
    intro binding isEntry
    simp only [List.mem_cons, List.not_mem_nil, or_false] at isEntry
    rcases isEntry with rfl | rfl | rfl
    · exact ⟨isInode_entryVolume.2, rootTyped⟩
    · exact ⟨isInode_entryVolume.2, rootTyped⟩
    · exact ⟨isInode_entryVolume.1, by rw [inode_entryVolume]; exact typed⟩
  · rw [entries_entryVolume tiled]
    intro binding isEntry notDot notDotDot
    simp only [List.mem_cons, List.not_mem_nil, or_false] at isEntry
    rcases isEntry with rfl | rfl | rfl
    · exact absurd rfl notDot
    · exact absurd rfl notDotDot
    · exact (by decide : 11 ≠ 2)

/-- The first slot for an entry is the rest of the last record. -/
theorem slotFor_entryVolume {need : Nat}
    (found : findSlot (entryBlock fileType) need blockSz 0 =
      some (.split 24 12 (blockSz - 24))) :
    (entryVolume fileType inode).view.slotFor 2 need =
      some (20, .split 24 12 (blockSz - 24)) := by
  obtain ⟨_, _, _, extentsEq, _⟩ := holds_full.put mounted_full (maps_rootVolume fullBitmap) tiled
  have unchanged := @unchanged_entryVolume fileType inode tiled
  have mapped : mapLogicalBlock ((entryVolume fileType inode).view.extents 2) 0 = some 20 := by
    rw [unchanged.extents_eq, extentsEq, (owned_rootVolume fullBitmap).1]
    decide
  have isData : 20 ∈ dataBlocks
      (((rootVolume fullBitmap).view.put 20 (entryBlock fileType)).extents 2) := by
    rw [extentsEq]
    exact (maps_rootVolume fullBitmap).mem_dataBlocks
  have held : (entryVolume fileType inode).view.data 20 = entryBlock fileType := by
    rw [unchanged.data 20 (mem_owned.mpr (Or.inl isData)), View.data_put_same]
  have count : (entryVolume fileType inode).view.blockCount 2 = 1 :=
    (holds_entryVolume tiled).blockCount_eq
  rw [View.slotFor, count, View.findSlotFrom, mapped]
  simp only [held, found]

theorem renames_entryVolume (typed : inode.Typed) {new : Str} (nonempty : new.isEmpty = false)
    (dots : new ≠ .dot ∧ new ≠ .dotDot) (different : letterA ≠ new) :
    (entryVolume fileType inode).view.Renames 2 letterA new 11 fileType := by
  have wellFormed := wellFormed_entryVolume tiled typed
  refine ⟨rfl, nonempty, by decide, dots, different, ?_, ?_⟩
  · cases found : ((entryVolume fileType inode).view.dirIndex 2)[new]? with
    | none => rfl
    | some value =>
        have isEntry := (wellFormed.indexed new value.1 value.2).mp found
        rw [entries_entryVolume tiled] at isEntry
        simp only [List.mem_cons, List.not_mem_nil, or_false, DirBinding.mk.injEq] at isEntry
        rcases isEntry with ⟨same, _⟩ | ⟨same, _⟩ | ⟨same, _⟩
        · exact absurd same dots.1
        · exact absurd same dots.2
        · exact absurd same.symm different
  · apply (wellFormed.indexed _ _ _).mpr
    rw [entries_entryVolume tiled]
    simp

end EntryVolume

def linkInode : Ext4Inode := Ext4Inode.setIMode Bytes.zeroed (sIflnk ||| 0o777)

def linkVolume : Volume := entryVolume Ext4DirEntry.ftSymlink linkInode

theorem tiled_link : Tiled (entryBlock Ext4DirEntry.ftSymlink) 0
    (entrySlots Ext4DirEntry.ftSymlink) blockSz :=
  ⟨⟨by decide, by decide, by decide⟩, ⟨by decide, by decide⟩,
    ⟨by decide, by decide, by decide⟩, ⟨by decide, by decide⟩,
    ⟨by decide, by decide, by decide⟩, ⟨by decide +kernel, by decide +kernel⟩, rfl⟩

theorem typed_link : linkInode.Typed := by
  rw [Ext4Inode.Typed]
  decide

theorem mounted_link : linkVolume.view.Mounted {block | block ≤ 5} :=
  mounted_entryVolume

theorem wellFormed_link : linkVolume.view.WellFormed {block | block ≤ 5} 2
    [entrySlots Ext4DirEntry.ftSymlink] :=
  wellFormed_entryVolume tiled_link typed_link

/-- A name of 256 bytes. -/
def longName : Str := ⟨List.replicate 256 0x62, by decide⟩

theorem renameFailsUnchanged_iff_link :
    RenameFailsUnchanged linkVolume 2 letterA longName ↔
      ¬ RenameSpoils linkVolume 2 letterA longName :=
  renameFailsUnchanged_iff mounted_link wellFormed_link letterA longName

/-- Renaming to a name of 256 bytes fails after a record was shortened. -/
theorem not_renameFailsUnchanged_link : ¬ RenameFailsUnchanged linkVolume 2 letterA longName := by
  have directory := wellFormed_link.toDirectory
  have renames : linkVolume.view.Renames 2 letterA longName 11 Ext4DirEntry.ftSymlink :=
    renames_entryVolume tiled_link typed_link (by decide) (by decide) (by decide)
  rcases rename_outcome mounted_link wellFormed_link letterA longName with
    ⟨refused, _⟩ | ⟨child, fileType, middle, _, looked, ran⟩
  · exact absurd ⟨_, _, renames⟩ refused
  · have unchanged := looked.unchanged mounted_link directory
    obtain ⟨error, after, failed, leavesIff⟩ := dirAddEntry_long
      (looked.mounted mounted_link) (looked.holds mounted_link wellFormed_link.toHolds)
      renames.newNonempty (by rw [looked.dirIndex_eq]; exact renames.absent) child
      (renamedType (linkVolume.view.inode child)) (by decide +kernel)
    rw [looked.leavesBytes_iff mounted_link directory, unchanged.splits] at leavesIff
    rw [looked.view_fs] at failed
    intro property
    refine leavesIff.mp (property error after (ran.trans (run_bind_err failed)))
      ⟨by decide +kernel, Or.inl ⟨20, 24, 12, blockSz - 24, slotFor_entryVolume tiled_link ?_⟩⟩
    decide +kernel

/-- Another name of one letter. -/
def letterB : Str := ⟨[0x62], rfl⟩

/-- Renaming the link succeeds. -/
theorem exchanged_linkVolume : ∃ between removed after cache,
    ((linkVolume.view.fs.handle 2).rename letterA letterB).run linkVolume = .ok () after ∧
      after = { removed with dirIndexCache := cache } ∧
      Exchanged {block | block ≤ 5} 2 linkVolume between removed [entrySlots Ext4DirEntry.ftSymlink] letterA.bytes
        (letterB.bytes, UInt32.ofNat 11, Ext4DirEntry.ftUnknown) := by
  have renames : linkVolume.view.Renames 2 letterA letterB 11 Ext4DirEntry.ftSymlink :=
    renames_entryVolume tiled_link typed_link (by decide) (by decide) (by decide)
  have chosen : linkVolume.view.slotFor 2 (align4 (Ext4DirEntry.fixedSize + letterB.len)) =
      some (20, .split 24 12 (blockSz - 24)) := slotFor_entryVolume tiled_link (by decide)
  have newType : renamedType (linkVolume.view.inode 11) = Ext4DirEntry.ftUnknown := by
    rw [show linkVolume.view.inode 11 = linkInode from inode_entryVolume]
    decide
  rcases rename_outcome mounted_link wellFormed_link letterA letterB with
    ⟨refused, _⟩ | ⟨child, fileType, middle, other, looked, ran⟩
  · exact absurd ⟨_, _, renames⟩ refused
  · have sameValue := renames.found.symm.trans other.found
    cases sameValue
    rw [ran]
    rcases exchangeNames_outcome mounted_link wellFormed_link renames (by decide)
        looked (renamedType (linkVolume.view.inode 11)) with
      ⟨needs, _⟩ | ⟨_, ⟨between, removed, after, cache, finished, afterEq, exchanged⟩ | ⟨noSlot, _⟩⟩
    · rw [View.NeedsBlock, chosen] at needs
      cases needs.1
    · rw [newType] at exchanged
      exact ⟨between, removed, after, cache, finished, afterEq, exchanged⟩
    · rw [chosen] at noSlot
      cases noSlot

theorem renamed_iff_link : ∃ after,
    ((linkVolume.view.fs.handle 2).rename letterA letterB).run linkVolume = .ok () after ∧
      (Renamed {block | block ≤ 5} 2 linkVolume.view after.view letterA letterB 11
          Ext4DirEntry.ftSymlink ↔
        (linkVolume.view.inode 11).isFile = true ∨ (linkVolume.view.inode 11).isDir = true) := by
  obtain ⟨_, _, after, _, ran, _⟩ := exchanged_linkVolume
  refine ⟨after, ran, renamed_iff mounted_link wellFormed_link
    (renames_entryVolume tiled_link typed_link (by decide) (by decide) (by decide)) (by decide) ?_ (by decide) ran⟩
  rw [show linkVolume.view.inode 11 = linkInode from inode_entryVolume]
  decide

/-- The renamed link has lost its type. -/
theorem not_renamed_link : ∃ after,
    ((linkVolume.view.fs.handle 2).rename letterA letterB).run linkVolume = .ok () after ∧
      ¬ Renamed {block | block ≤ 5} 2 linkVolume.view after.view letterA letterB 11
        Ext4DirEntry.ftSymlink := by
  obtain ⟨between, removed, after, cache, ran, afterEq, exchanged⟩ := exchanged_linkVolume
  refine ⟨after, ran, ?_⟩
  intro renamed
  have sameEntries : after.view.entries 2 = removed.view.entries 2 := by
    rw [afterEq]
    exact @View.entries_congr removed.view
      ({ removed with dirIndexCache := cache } : Volume).view 2 rfl rfl fun _ _ => rfl
  have sameType := exchanged.type_eq wellFormed_link
    (renames_entryVolume tiled_link typed_link (by decide) (by decide) (by decide)) (by decide) sameEntries renamed
  exact absurd sameType (by decide)

end Ext4

end OSWorkspace
