import OSWorkspace.Ext4EntryAllocations
import OSWorkspace.Ext4ModeRepairs
import OSWorkspace.Ext4Unlinking

/-!
# Malformed directories

The blocks of a directory come from disk and may hold any bytes.  A lookup
checks every record it passes, but it takes the inode number of a record as it
is; the code that enters and removes names walks the same records with fewer
checks.  This file gives the exact conditions under which the four calls on a
directory return instead of leaving a block or the table of the groups.
-/

namespace OSWorkspace

namespace Ext4

open Exec View

/-- The call ends with a value or an error. -/
def Returns {α : Type} (call : Call α) (volume : Volume) : Prop := call.run volume ≠ .panic

section Returning

variable {α β : Type} {volume middle : Volume}

theorem returns_ok {call : Call α} {value : α} (ran : call.run volume = .ok value middle) :
    Returns call volume := by
  rw [Returns, ran]
  exact nofun

theorem returns_err {call : Call α} {error : Ext4Error} (ran : call.run volume = .err error middle) :
    Returns call volume := by
  rw [Returns, ran]
  exact nofun

theorem not_returns {call : Call α} (ran : call.run volume = .panic) : ¬ Returns call volume :=
  fun returns => returns ran

variable {first : Call α} {next : α → Call β}

theorem returns_bind_ok {value : α} (ran : first.run volume = .ok value middle) :
    Returns (first >>= next) volume ↔ Returns (next value) middle := by
  rw [Returns, Returns, run_bind_ok ran]

theorem returns_bind_err {error : Ext4Error} (ran : first.run volume = .err error middle) :
    Returns (first >>= next) volume :=
  returns_err (run_bind_err ran)

/-- What follows a call and returns does not matter. -/
theorem returns_bind (rest : ∀ value after, first.run volume = .ok value after →
    Returns (next value) after) : Returns (first >>= next) volume ↔ Returns first volume := by
  cases ran : first.run volume with
  | ok value after =>
      exact iff_of_true ((returns_bind_ok ran).mpr (rest value after ran)) (returns_ok ran)
  | err error after => exact iff_of_true (returns_bind_err ran) (returns_err ran)
  | panic => exact iff_of_false (not_returns (run_bind_panic ran)) (not_returns ran)

end Returning

theorem returns_dirIndexCacheUpdate (inodeNum : Nat) (change : DirIndex → DirIndex)
    (volume : Volume) : Returns (dirIndexCacheUpdate inodeNum change) volume :=
  returns_ok (run_modify _ _)

/-- The part of a removal in front of the removal of the entry: the child and
whether it is a directory. -/
def unlinkChild (self : Inode) (name : Str) : Call (Inode × Bool) := do
  if name.isEmpty ∨ name = .dot ∨ name = .dotDot then
    throw .invalidInput
  else if ¬ (← self.isDir) then
    throw .notADirectory
  else
    let child ← okOr (← self.find name) .notFound
    if ← child.isDir then
      if (← child.ls) ≠ [] then
        throw .unsupported
      else return (child, true)
    else return (child, false)

/-- The rest of a removal. -/
def finishUnlink (self : Inode) (name : Str) : Inode × Bool → Call Unit
  | (child, true) => do
      let _ ← self.dirRemoveEntry name
      dropDirectory self child name
  | (child, false) => do
      let _ ← self.dirRemoveEntry name
      dropEntry self child name

theorem run_unlink (self : Inode) (name : Str) (volume : Volume) :
    (self.unlink name).run volume =
      (unlinkChild self name >>= finishUnlink self name).run volume := by
  rw [Inode.unlink, unlinkChild]
  split
  · rfl
  · rw [run_bind_assoc]
    apply run_bind_congr
    intro isDir first
    cases isDir with
    | false => rfl
    | true =>
        simp only [not_true_eq_false, if_false]
        rw [run_bind_assoc]
        apply run_bind_congr
        intro child second
        rw [run_bind_assoc]
        apply run_bind_congr
        intro child third
        rw [run_bind_assoc]
        apply run_bind_congr
        intro childIsDir fourth
        cases childIsDir with
        | false => rfl
        | true =>
            simp only [if_true]
            rw [run_bind_assoc]
            apply run_bind_congr
            intro names fifth
            split <;> rfl

/-- The part of a renaming in front of the new entry: the number and the type of
the child, or nothing when the names are the same. -/
def renameChild (self : Inode) (old new : Str) : Call (Option (Nat × UInt8)) := do
  if ¬ (← self.isDir) then
    throw .notADirectory
  else if old.isEmpty ∨ new.isEmpty ∨ old = .dot ∨ old = .dotDot ∨ new = .dot ∨ new = .dotDot then
    throw .invalidInput
  else if old = new then
    return none
  else if (← self.find new).isSome then
    throw .alreadyExists
  else
    let child ← okOr (← self.find old) .notFound
    let inode ← child.readDiskInode
    return some (child.inodeNum, renamedType inode)

/-- The rest of a renaming. -/
def finishRename (self : Inode) (old new : Str) : Option (Nat × UInt8) → Call Unit
  | none => return ()
  | some (child, fileType) => exchangeNames self old new child fileType

theorem run_rename (self : Inode) (old new : Str) (volume : Volume) :
    (self.rename old new).run volume =
      (renameChild self old new >>= finishRename self old new).run volume := by
  rw [Inode.rename, renameChild, run_bind_assoc]
  apply run_bind_congr
  intro isDir first
  cases isDir with
  | false => rfl
  | true =>
      simp only [not_true_eq_false, if_false]
      split
      · rfl
      · split
        · rfl
        · rw [run_bind_assoc]
          apply run_bind_congr
          intro taken second
          split
          · rfl
          · rw [run_bind_assoc]
            apply run_bind_congr
            intro found third
            rw [run_bind_assoc]
            apply run_bind_congr
            intro child fourth
            rw [run_bind_assoc]
            apply run_bind_congr
            intro inode fifth
            rfl

/-- The number bound to a name, if any, is the number of an inode. -/
def View.NumberInside (view : View) (dir : Nat) (name : Str) : Prop :=
  ∀ child fileType, (view.dirIndex dir)[name]? = some (child, fileType) → view.fs.IsInode child

/-- Some block of a range ends the walk to a name in a panic, and no block before
it holds the name. -/
def Overruns (disk : Nat → Block) (extents : List Ext4Extent) (name : Str)
    (count lblock : Nat) : Prop :=
  ∃ l pblock, lblock ≤ l ∧ l < lblock + count ∧
    mapLogicalBlock extents (l % 2 ^ 32) = some pblock ∧
    findDirent (disk pblock) name.bytes blockSz 0 = none ∧
    ∀ earlier, lblock ≤ earlier → earlier < l → ∀ other,
      mapLogicalBlock extents (earlier % 2 ^ 32) = some other →
      findDirent (disk other) name.bytes blockSz 0 = some none

/-- On the way to a name, its removal meets a record in use whose name runs past
the block. -/
def View.NameOverruns (view : View) (dir : Nat) (name : Str) : Prop :=
  Overruns view.data (view.extents dir) name (view.blockCount dir) 0

theorem run_fillSlot_long {name : Str} (long : ext4NameLen < name.len) (volume : Volume)
    (pblock inodeNum : Nat) (fileType : UInt8) (slot : DirSlot) :
    ∃ after, (fillSlot pblock inodeNum fileType name slot).run volume =
      .err .nameTooLong after := by
  cases slot with
  | reuse off recLen => exact ⟨volume, run_dirWriteEntryAt_long _ _ _ _ _ _ long⟩
  | split off used recLen =>
      rw [fillSlot, run_bind_ok (run_readBlock _ _), run_bind_ok (run_writeBlock _ _ _)]
      exact ⟨_, run_dirWriteEntryAt_long _ _ _ _ _ _ long⟩

section Lookups

variable {reserved : Set Nat} {dir : Nat} {volume : Volume}
  (mounted : volume.view.Mounted reserved) (directory : volume.view.Directory reserved dir)

include mounted directory

theorem returns_find_iff (name : Str) :
    Returns ((volume.view.fs.handle dir).find name) volume ↔
      volume.view.NumberInside dir name := by
  rcases run_find mounted directory name with ⟨absent, after, ran, _⟩ |
    ⟨child, fileType, found, ⟨outside, panics⟩ | ⟨after, ran, isChild, _⟩⟩
  · refine iff_of_true (returns_ok ran) ?_
    intro child fileType found
    rw [absent] at found
    cases found
  · refine iff_of_false (not_returns panics) ?_
    intro inside
    exact outside (inside child fileType found)
  · refine iff_of_true (returns_ok ran) ?_
    intro other otherType otherFound
    rw [found] at otherFound
    cases otherFound
    exact isChild

theorem returns_checkNewName_iff (name : Str) :
    Returns ((volume.view.fs.handle dir).checkNewName name) volume ↔
      (name.isEmpty = false → name.len ≤ ext4NameLen → volume.view.NumberInside dir name) := by
  rw [Inode.checkNewName, returns_bind_ok (run_isDir_dir mounted directory)]
  simp only [not_true_eq_false, if_false]
  by_cases empty : name.isEmpty = true
  · rw [if_pos empty]
    exact iff_of_true (returns_err (run_throw _ _)) fun nonempty =>
      absurd (empty.symm.trans nonempty) (by decide)
  · rw [if_neg empty]
    have nonempty : name.isEmpty = false := by simpa using empty
    by_cases long : name.len > ext4NameLen
    · rw [if_pos long]
      exact iff_of_true (returns_err (run_throw _ _)) fun _ short => absurd long (by omega)
    · rw [if_neg long, returns_bind, returns_find_iff mounted directory]
      · exact ⟨fun inside _ _ => inside, fun inside => inside nonempty (by omega)⟩
      · intro found after _
        split
        · exact returns_err (run_throw _ _)
        · exact returns_ok (run_pure _ _)

/-- A name of more than 255 bytes never enters. -/
theorem run_dirAddEntry_long {name : Str} (nonempty : name.isEmpty = false)
    (long : ext4NameLen < name.len) (absent : (volume.view.dirIndex dir)[name]? = none)
    (inodeNum : Nat) (fileType : UInt8) :
    ∃ error after, ((volume.view.fs.handle dir).dirAddEntry name inodeNum fileType).run volume =
      .err error after := by
  by_cases fits : align4 (Ext4DirEntry.fixedSize + name.len) ≤ blockSz
  · obtain ⟨middle, consulted, ran⟩ := run_dirAddEntry mounted directory nonempty absent fits
      inodeNum fileType
    have looked : Looked reserved dir volume middle := consulted.looked
    have sameCount : middle.view.blockCount dir = volume.view.blockCount dir := by
      rw [View.blockCount, (looked.unchanged mounted directory).inode, View.blockCount]
    have appendFails (pblock : Nat) (between : Volume) :
        (finishAppend (volume.view.fs.handle dir) (volume.view.blockCount dir) inodeNum fileType
          name pblock).run between = .err .nameTooLong between :=
      run_bind_err (run_dirWriteEntryAt_long _ _ _ _ _ _ long)
    rw [ran]
    cases volume.view.slotFor dir (align4 (Ext4DirEntry.fixedSize + name.len)) with
    | some pair =>
        obtain ⟨after, failed⟩ := run_fillSlot_long long middle pair.1 inodeNum fileType pair.2
        exact ⟨_, after, failed⟩
    | none =>
        have outcome := dirAppendEntry_outcome (looked.mounted mounted)
          (looked.directory mounted directory) inodeNum fileType name
        rw [looked.view_fs, sameCount] at outcome
        simp only
        rcases outcome with ⟨_, _, pblock, between, _, _, _, ended⟩ |
          ⟨_, _, error, after, ended, _⟩ | ⟨_, between, _, ended⟩
        · exact ⟨_, between, ended.trans (appendFails pblock between)⟩
        · exact ⟨error, after, ended⟩
        · rw [ended]
          cases mapLogicalBlock (middle.view.extents dir) (volume.view.blockCount dir) with
          | none => exact ⟨_, between, rfl⟩
          | some pblock => exact ⟨_, between, appendFails pblock between⟩
  · obtain ⟨after, ran, _⟩ := run_dirAddEntry_huge mounted directory nonempty absent (by omega)
      inodeNum fileType
    exact ⟨_, after, ran⟩

/-- Entering an absent name fails to return exactly when the name is short and
its record would run past the block. -/
theorem returns_dirAddEntry_iff {name : Str} (nonempty : name.isEmpty = false)
    (absent : (volume.view.dirIndex dir)[name]? = none) (inodeNum : Nat) (fileType : UInt8) :
    Returns ((volume.view.fs.handle dir).dirAddEntry name inodeNum fileType) volume ↔
      (name.len ≤ ext4NameLen → volume.view.SlotInside dir name) := by
  by_cases short : name.len ≤ ext4NameLen
  · have fits := align4_record_le short
    obtain ⟨middle, _, ran⟩ := run_dirAddEntry mounted directory nonempty absent fits inodeNum
      fileType
    cases chosen : volume.view.slotFor dir (align4 (Ext4DirEntry.fixedSize + name.len)) with
    | none =>
        refine iff_of_true ?_ fun _ pblock slot found => absurd (chosen.symm.trans found) (by simp)
        rcases dirAddEntry_outcome mounted directory nonempty short absent inodeNum fileType with
          ⟨_, _, error, _, after, ended, _⟩ | ⟨_, ⟨isSome, _⟩ | ⟨after, ended⟩ | ⟨error, after, ended, _⟩⟩
        · exact returns_err ended
        · exact absurd chosen isSome
        · exact returns_ok ended
        · exact returns_err ended
    | some pair =>
        obtain ⟨pblock, slot⟩ := pair
        obtain ⟨_, _, _, _, found⟩ := findSlotFrom_eq_some chosen
        rw [chosen] at ran
        have insideIff : volume.view.SlotInside dir name ↔ slot.stop ≤ blockSz := by
          constructor
          · exact fun inside => inside pblock slot chosen
          · intro stops other otherSlot otherChosen
            rw [chosen] at otherChosen
            cases otherChosen
            exact stops
        rw [Returns, ran, insideIff]
        rcases run_fillSlot_short middle pblock inodeNum fileType short (findSlot_room found) with
          ⟨past, panics⟩ | ⟨stops, block, filled⟩
        · exact iff_of_false (not_returns panics) fun inside => absurd (inside short) (by omega)
        · exact iff_of_true (returns_ok filled) fun _ => stops
  · obtain ⟨error, after, ran⟩ := run_dirAddEntry_long mounted directory nonempty (by omega) absent
      inodeNum fileType
    exact iff_of_true (returns_err ran) fun isShort => absurd isShort short

end Lookups

theorem View.Unchanged.slotInside {view after : View} {dir : Nat}
    (unchanged : Unchanged view after dir) (name : Str) :
    after.SlotInside dir name ↔ view.SlotInside dir name := by
  rw [View.SlotInside, View.SlotInside, unchanged.slotFor_eq]

section Making

variable {reserved : Set Nat} {dir : Nat} {volume : Volume}
  (mounted : volume.view.Mounted reserved) (directory : volume.view.Directory reserved dir)
  {name : Str}

include mounted directory

/-- A failed entry is rolled back, which returns. -/
theorem returns_enterNewInode_iff (enters : Enters volume.view dir name) {inodeNum : Nat}
    (isInode : volume.view.fs.IsInode inodeNum) (fileType : UInt8) :
    Returns ((volume.view.fs.handle dir).enterNewInode name inodeNum fileType (pure ())) volume ↔
      Returns ((volume.view.fs.handle dir).dirAddEntry name inodeNum fileType) volume := by
  have rollsBack {error : Ext4Error} {after : Volume} (sameFs : after.view.fs = volume.view.fs) :
      Returns (do
        deallocInode inodeNum
        throw error : Call Unit) after := by
    obtain ⟨last, freed, _⟩ := @view_deallocInode after (by rw [sameFs]; exact mounted.geometry)
      inodeNum (View.isInode_iff.mpr (by rw [sameFs]; exact isInode))
    rw [returns_bind_ok freed]
    exact returns_err (run_throw _ _)
  rw [Inode.enterNewInode]
  rcases dirAddEntry_outcome mounted directory enters.nonempty enters.short enters.absent inodeNum
    fileType with ⟨_, _, error, middle, after, ran, looked, leaks⟩ |
    ⟨_, ⟨_, panics⟩ | ⟨after, ran⟩ | ⟨error, after, ran, looked⟩⟩
  · rw [returns_bind_ok (run_attempt_err ran)]
    exact iff_of_true ((returns_bind_ok (run_pure _ _)).mpr
      (rollsBack (leaks.fs.trans looked.view_fs))) (returns_err ran)
  · exact iff_of_false (not_returns (run_bind_panic (by rw [run_attempt, panics])))
      (not_returns panics)
  · rw [returns_bind_ok (run_attempt_ok ran)]
    exact iff_of_true (returns_ok rfl) (returns_ok ran)
  · rw [returns_bind_ok (run_attempt_err ran)]
    exact iff_of_true ((returns_bind_ok (run_pure _ _)).mpr (rollsBack looked.view_fs))
      (returns_err ran)

theorem returns_createInode_iff {first : Volume} (looked : Looked reserved dir volume first)
    (enters : Enters volume.view dir name) (fileType : UInt8) (inode : Ext4Inode) :
    Returns ((volume.view.fs.handle dir).createInode name fileType inode) first ↔
      (volume.view.HasFreeInode → volume.view.SlotInside dir name) := by
  rw [Inode.createInode]
  rcases prepared_allocInode mounted directory looked with ⟨ran, full⟩ |
    ⟨inodeNum, second, third, ran, invalidated, _, _, state⟩
  · rw [returns_bind_ok ran]
    refine iff_of_true (returns_bind_err (run_okOr_none _ _)) ?_
    rintro ⟨item, isItem, free⟩
    exact absurd (full item isItem) free
  · have hasFree : volume.view.HasFreeInode :=
      ⟨inodeNum, View.isInode_iff.mpr state.isInode, state.freeInode⟩
    have thirdMounted := state.mounted mounted
    have position : third.fs.getInodePos inodeNum = some _ :=
      (thirdMounted.layout.handle_spec thirdMounted.geometry (by
        rw [state.fs]; exact state.isInode)).1
    obtain ⟨prepared, wrote, _, preparedState⟩ := prepared_writeInode mounted directory state inode
    have preparedMounted := preparedState.mounted mounted
    have preparedDirectory := preparedState.directory directory
    have absent : (prepared.view.dirIndex dir)[name]? = none := by
      rw [preparedState.index]
      exact enters.absent
    have entering := returns_enterNewInode_iff preparedMounted preparedDirectory
      ⟨enters.nonempty, enters.short, absent⟩ (by rw [preparedState.fs]; exact state.isInode) fileType
    rw [returns_dirAddEntry_iff preparedMounted preparedDirectory enters.nonempty absent,
      preparedState.unchanged.slotInside, preparedState.fs] at entering
    rw [returns_bind_ok ran, returns_bind_ok (run_okOr_some _ _ _), returns_bind_ok invalidated,
      returns_bind_ok (run_get _), position, returns_bind_ok (run_expect_some _ _)]
    simp only
    rw [returns_bind_ok wrote, returns_bind fun _ _ _ => returns_ok (run_pure _ _), entering]
    exact ⟨fun inside _ => inside enters.short, fun inside _ => inside hasFree⟩

theorem returns_createFile_iff (name : Str) :
    Returns ((volume.view.fs.handle dir).createFile name) volume ↔
      (name.isEmpty = false → name.len ≤ ext4NameLen → volume.view.NumberInside dir name ∧
        ((volume.view.dirIndex dir)[name]? = none → volume.view.HasFreeInode →
          volume.view.SlotInside dir name)) := by
  rw [Inode.createFile]
  have checking := returns_checkNewName_iff mounted directory name
  rcases checkNewName_outcome mounted directory name with ⟨enters, first, ran, looked⟩ |
    ⟨refused, panics | ⟨error, after, ran, _⟩⟩
  · rw [returns_bind_ok ran, returns_createInode_iff mounted directory looked enters]
    have inside := checking.mp (returns_ok ran) enters.nonempty enters.short
    exact ⟨fun slot _ _ => ⟨inside, fun _ => slot⟩, fun guarded =>
      (guarded enters.nonempty enters.short).2 enters.absent⟩
  · refine iff_of_false (not_returns (run_bind_panic panics)) ?_
    intro guarded
    exact checking.mpr (fun nonempty short => (guarded nonempty short).1) panics
  · refine iff_of_true (returns_bind_err ran) ?_
    intro nonempty short
    refine ⟨checking.mp (returns_err ran) nonempty short, fun absent => ?_⟩
    exact absurd ⟨nonempty, short, absent⟩ refused

end Making

/-- A block that does not hold the name is skipped. -/
theorem overruns_succ {disk : Nat → Block} {extents : List Ext4Extent} {name : Str}
    {count lblock : Nat}
    (skipped : ∀ pblock, mapLogicalBlock extents (lblock % 2 ^ 32) = some pblock →
      findDirent (disk pblock) name.bytes blockSz 0 = some none) :
    Overruns disk extents name (count + 1) lblock ↔
      Overruns disk extents name count (lblock + 1) := by
  constructor
  · rintro ⟨l, pblock, lower, upper, mapped, overrun, walked⟩
    have different : l ≠ lblock := by
      rintro rfl
      rw [skipped pblock mapped] at overrun
      cases overrun
    exact ⟨l, pblock, by omega, by omega, mapped, overrun, fun earlier lowerEarlier =>
      walked earlier (by omega)⟩
  · rintro ⟨l, pblock, lower, upper, mapped, overrun, walked⟩
    refine ⟨l, pblock, by omega, by omega, mapped, overrun, ?_⟩
    intro earlier lowerEarlier upperEarlier
    by_cases same : earlier = lblock
    · subst same
      exact skipped
    · exact walked earlier (by omega) upperEarlier

theorem returns_removeFromBlocks_iff (volume : Volume) (extents : List Ext4Extent) (name : Str)
    (count lblock : Nat) :
    Returns (removeFromBlocks extents name count lblock) volume ↔
      ¬ Overruns volume.disk extents name count lblock := by
  induction count generalizing lblock with
  | zero =>
      refine iff_of_true (returns_err (run_throw _ _)) ?_
      rintro ⟨l, _, lower, upper, _⟩
      omega
  | succ count ih =>
      rw [removeFromBlocks]
      cases mapped : mapLogicalBlock extents (lblock % 2 ^ 32) with
      | none =>
          have noBlock : ∀ pblock, mapLogicalBlock extents (lblock % 2 ^ 32) = some pblock →
              findDirent (volume.disk pblock) name.bytes blockSz 0 = some none := by
            intro pblock isMapped
            rw [mapped] at isMapped
            cases isMapped
          rw [overruns_succ noBlock]
          exact ih (lblock + 1)
      | some pblock =>
          simp only
          rw [returns_bind_ok (run_readBlock _ _)]
          cases found : findDirent (volume.disk pblock) name.bytes blockSz 0 with
          | none =>
              refine iff_of_false (not_returns (run_bind_panic rfl)) fun inside => inside ?_
              exact ⟨lblock, pblock, Nat.le_refl _, by omega, mapped, found, fun _ _ _ => by omega⟩
          | some position =>
              rw [returns_bind_ok (run_expect_some _ _)]
              cases position with
              | none =>
                  simp only
                  rw [overruns_succ, ih]
                  intro other otherMapped
                  rw [mapped] at otherMapped
                  cases otherMapped
                  exact found
              | some off =>
                  refine iff_of_true (returns_ok rfl) ?_
                  rintro ⟨l, other, lower, upper, otherMapped, overrun, walked⟩
                  by_cases same : l = lblock
                  · subst same
                    rw [mapped] at otherMapped
                    cases otherMapped
                    rw [found] at overrun
                    cases overrun
                  · have passed := walked lblock (Nat.le_refl _) (by omega) pblock mapped
                    rw [found] at passed
                    cases passed

theorem overruns_congr {disk other : Nat → Block} {extents : List Ext4Extent}
    (agree : ∀ blockId ∈ dataBlocks extents, other blockId = disk blockId) (name : Str)
    (count lblock : Nat) :
    Overruns other extents name count lblock ↔ Overruns disk extents name count lblock := by
  have same {l pblock : Nat} (mapped : mapLogicalBlock extents l = some pblock) :
      other pblock = disk pblock :=
    agree pblock (maps_of_mapLogicalBlock mapped).mem_dataBlocks
  constructor <;> rintro ⟨l, pblock, lower, upper, mapped, overrun, walked⟩
  · refine ⟨l, pblock, lower, upper, mapped, by rw [← same mapped]; exact overrun, ?_⟩
    intro earlier lowerEarlier upperEarlier block isBlock
    rw [← same isBlock]
    exact walked earlier lowerEarlier upperEarlier block isBlock
  · refine ⟨l, pblock, lower, upper, mapped, by rw [same mapped]; exact overrun, ?_⟩
    intro earlier lowerEarlier upperEarlier block isBlock
    rw [same isBlock]
    exact walked earlier lowerEarlier upperEarlier block isBlock

theorem View.Unchanged.nameOverruns {view after : View} {dir : Nat}
    (unchanged : Unchanged view after dir) (name : Str) :
    after.NameOverruns dir name ↔ view.NameOverruns dir name := by
  rw [View.NameOverruns, View.NameOverruns, View.blockCount, View.blockCount, unchanged.inode,
    unchanged.extents_eq]
  exact overruns_congr (fun blockId isData => unchanged.data blockId
    (mem_owned.mpr (Or.inl isData))) _ _ _

theorem returns_dirRemoveEntry_iff {reserved : Set Nat} {dir : Nat} {volume : Volume}
    (mounted : volume.view.Mounted reserved) (isInode : volume.view.fs.IsInode dir)
    (owning : volume.view.Owning reserved dir) (isDir : (volume.view.inode dir).isDir = true)
    (name : Str) :
    Returns ((volume.view.fs.handle dir).dirRemoveEntry name) volume ↔
      ¬ volume.view.NameOverruns dir name := by
  rw [Returns, run_dirRemoveEntry mounted isInode owning isDir, View.NameOverruns,
    ← overruns_congr fun blockId isData => disk_of_owned mounted owning
      (mem_owned.mpr (Or.inl isData))]
  exact returns_removeFromBlocks_iff volume _ name _ _

/-- The blocks of the directory with the slot for a name filled; they are as before when
the name goes into a block behind them. -/
def View.filledData (view : View) (dir : Nat) (name : Str) (child : Nat) (fileType : UInt8) :
    Nat → Block :=
  let fill (chosen : Nat × DirSlot) :=
    Function.update view.data chosen.1 (chosen.2.fill (view.data chosen.1) child fileType name)
  (view.slotFor dir (align4 (Ext4DirEntry.fixedSize + name.len))).elim view.data fill

/-- With the new name entered for a child, the walk to the old name meets a record in
use whose name runs past the block. -/
def View.FilledOverruns (view : View) (dir : Nat) (old new : Str) (child : Nat)
    (fileType : UInt8) : Prop :=
  Overruns (view.filledData dir new child fileType) (view.extents dir) old (view.blockCount dir) 0

/-- A block behind the others that is walked to its end changes nothing. -/
theorem overruns_append {disk other : Nat → Block} {extents longer : List Ext4Extent} {name : Str}
    {count : Nat} (small : count ≤ u32Max)
    (same : ∀ l < count, mapLogicalBlock longer l = mapLogicalBlock extents l)
    (agree : ∀ l < count, ∀ pblock, mapLogicalBlock extents l = some pblock →
      other pblock = disk pblock)
    (last : ∀ pblock, mapLogicalBlock longer count = some pblock →
      findDirent (other pblock) name.bytes blockSz 0 = some none) :
    Overruns other longer name (count + 1) 0 ↔ Overruns disk extents name count 0 := by
  have modEq {l : Nat} (inside : l ≤ count) : l % 2 ^ 32 = l :=
    Nat.mod_eq_of_lt (by
      simp only [u32Max] at small
      omega)
  constructor
  · rintro ⟨l, pblock, lower, upper, mapped, overrun, walked⟩
    rw [modEq (by omega)] at mapped
    have inside : l < count := by
      by_contra notInside
      obtain rfl : l = count := by omega
      rw [last pblock mapped] at overrun
      cases overrun
    rw [same l inside] at mapped
    refine ⟨l, pblock, lower, by omega, by rw [modEq (by omega)]; exact mapped,
      by rw [← agree l inside pblock mapped]; exact overrun, ?_⟩
    intro earlier lowerEarlier upperEarlier block isBlock
    have passed := walked earlier lowerEarlier upperEarlier
    rw [modEq (by omega)] at isBlock passed
    rw [same earlier (by omega)] at passed
    rw [← agree earlier (by omega) block isBlock]
    exact passed block isBlock
  · rintro ⟨l, pblock, lower, upper, mapped, overrun, walked⟩
    rw [modEq (by omega)] at mapped
    refine ⟨l, pblock, lower, by omega, ?_,
      by rw [agree l (by omega) pblock mapped]; exact overrun, ?_⟩
    · rw [modEq (by omega), same l (by omega)]
      exact mapped
    · intro earlier lowerEarlier upperEarlier block isBlock
      have passed := walked earlier lowerEarlier upperEarlier
      rw [modEq (by omega)] at isBlock passed
      rw [same earlier (by omega)] at isBlock
      rw [agree earlier (by omega) block isBlock]
      exact passed block isBlock

/-- A block mapped behind a directory leaves the map of its blocks. -/
theorem View.Directory.mapLogicalBlock_of_extends {reserved : Set Nat} {view : View} {dir : Nat}
    (directory : view.Directory reserved dir) {pblock : Nat} {longer : List Ext4Extent}
    (extend : Extends (view.extents dir) (view.blockCount dir) pblock longer) (l : Nat)
    (inside : l < view.blockCount dir) :
    mapLogicalBlock longer l = mapLogicalBlock (view.extents dir) l := by
  have countLe := directory.blockCount_le
  obtain ⟨block, mapped, maps⟩ := directory.mapLogicalBlock_eq inside
  obtain ⟨other, found⟩ := exists_mapLogicalBlock (by omega)
    ((extend.maps l block).mpr (Or.inr maps))
  rw [found, mapped]
  rcases (extend.maps l other).mp (maps_of_mapLogicalBlock found) with ⟨atEnd, _⟩ | isOld
  · omega
  · rw [isOld.unique directory.ordered maps]

/-- A walk over a block whose only record has another name ends behind it. -/
theorem findDirent_putEntry (block : Block) (inodeNum : Nat) (fileType : UInt8) {old new : Str}
    (short : new.len ≤ ext4NameLen) (different : old ≠ new) :
    findDirent (Block.putEntry block 0 blockSz inodeNum fileType new) old.bytes blockSz 0 =
      some none := by
  have room := align4_record_le short
  have fits : Ext4DirEntry.fixedSize + new.len ≤ blockSz := by
    rw [align4] at room
    omega
  have tiled : Tiled (Block.putEntry block 0 blockSz inodeNum fileType new) 0
      [⟨UInt32.ofNat inodeNum, blockSz, fileType, new.bytes⟩] blockSz :=
    ⟨⟨fits, (by decide : blockSz % 4 = 0), short⟩, Block.putEntry_at _ _ _ fits (by omega),
      Nat.zero_add blockSz⟩
  rcases findDirent_tiled tiled (by decide : 1 ≤ blockSz) old.bytes with
    ⟨walked, _⟩ | ⟨before, slot, after, _, whole, _, _, names, _⟩
  · exact walked
  · have isSlot : slot ∈ [⟨UInt32.ofNat inodeNum, blockSz, fileType, new.bytes⟩] := by
      rw [whole]
      simp
    obtain rfl := List.mem_singleton.mp isSlot
    exact absurd (Str.bytes_injective names.2.2).symm different

/-- The names may take part in a renaming. -/
structure Renamable (old new : Str) : Prop where
  oldNonempty : old.isEmpty = false
  newNonempty : new.isEmpty = false
  oldDots : old ≠ .dot ∧ old ≠ .dotDot
  newDots : new ≠ .dot ∧ new ≠ .dotDot
  different : old ≠ new

/-- The numbers that the checks of a renaming meet are those of inodes. -/
def View.NumbersInside (view : View) (dir : Nat) (old new : Str) : Prop :=
  Renamable old new → view.NumberInside dir new ∧
    ((view.dirIndex dir)[new]? = none → view.NumberInside dir old)

/-- The cached extents of the inode that a name is bound to are those of the disk. -/
def Volume.ChildCoherent (volume : Volume) (dir : Nat) (name : Str) : Prop :=
  ∀ child fileType, (volume.view.dirIndex dir)[name]? = some (child, fileType) →
    volume.ExtentsCoherent (volume.view.fs.handle child)

/-- The type in the new entry of a child whose old entry has the given type. -/
def Volume.enteredType (volume : Volume) (child : Nat) (fileType : UInt8) : UInt8 :=
  renamedType (volume.repairedInode (volume.view.fs.handle child) fileType)

theorem View.Renames.renamable {view : View} {dir : Nat} {old new : Str} {child : Nat}
    {fileType : UInt8} (renames : view.Renames dir old new child fileType) : Renamable old new :=
  ⟨renames.oldNonempty, renames.newNonempty, renames.oldDots, renames.newDots, renames.different⟩

theorem Renamable.renames {old new : Str} (renamable : Renamable old new) {view : View}
    {dir child : Nat} {fileType : UInt8} (absent : (view.dirIndex dir)[new]? = none)
    (found : (view.dirIndex dir)[old]? = some (child, fileType)) :
    view.Renames dir old new child fileType :=
  ⟨renamable.oldNonempty, renamable.newNonempty, renamable.oldDots, renamable.newDots,
    renamable.different, absent, found⟩

/-- The outcomes of the checks of a renaming: they end in a panic exactly when a
number they meet is not that of an inode, and lead to an exchange of the names
when these may be exchanged. -/
def RenameChildOutcome (reserved : Set Nat) (dir : Nat) (volume : Volume) (old new : Str)
    (outcome : Outcome Ext4Error Volume (Option (Nat × UInt8))) : Prop :=
  (volume.view.NumbersInside dir old new ∧
      (((¬ ∃ child fileType, volume.view.Renames dir old new child fileType) ∧
          ((∃ after, outcome = .ok none after) ∨ ∃ error after, outcome = .err error after)) ∨
        ∃ child fileType middle, volume.view.Renames dir old new child fileType ∧
          outcome = .ok (some (child, volume.enteredType child fileType)) middle ∧
          Looked reserved dir volume middle)) ∨
    (¬ volume.view.NumbersInside dir old new ∧ outcome = .panic)

section Renaming

variable {reserved : Set Nat} {dir : Nat} {volume : Volume}
  (mounted : volume.view.Mounted reserved) (directory : volume.view.Directory reserved dir)
  {old new : Str}

theorem Renamable.of_proper (proper : ¬ (old.isEmpty = true ∨ new.isEmpty = true ∨ old = .dot ∨
    old = .dotDot ∨ new = .dot ∨ new = .dotDot)) (different : old ≠ new) : Renamable old new := by
  simp only [not_or] at proper
  obtain ⟨oldNonempty, newNonempty, oldDot, oldDotDot, newDot, newDotDot⟩ := proper
  exact ⟨by simpa using oldNonempty, by simpa using newNonempty, ⟨oldDot, oldDotDot⟩,
    ⟨newDot, newDotDot⟩, different⟩

/-- Names that are refused before any look-up. -/
theorem renameChildOutcome_refused (notRenamable : ¬ Renamable old new)
    {outcome : Outcome Ext4Error Volume (Option (Nat × UInt8))}
    (ended : (∃ after, outcome = .ok none after) ∨ ∃ error after, outcome = .err error after) :
    RenameChildOutcome reserved dir volume old new outcome := by
  refine Or.inl ⟨fun renamable => absurd renamable notRenamable, Or.inl ⟨?_, ended⟩⟩
  rintro ⟨_, _, renames⟩
  exact notRenamable renames.renamable

include mounted directory

/-- The checks behind the look-up of a new name that is not there. -/
theorem renameOld_outcome (coherent : volume.ChildCoherent dir old) (renamable : Renamable old new)
    (absent : (volume.view.dirIndex dir)[new]? = none) {first : Volume}
    (consulted : Consulted dir volume first) :
    RenameChildOutcome reserved dir volume old new ((do
      let child ← okOr (← (volume.view.fs.handle dir).find old) .notFound
      let inode ← child.readDiskInode
      return some (child.inodeNum, renamedType inode) : Call (Option (Nat × UInt8))).run first) := by
  have looked : Looked reserved dir volume first := consulted.looked
  have firstMounted := looked.mounted mounted
  have firstDirectory := looked.directory mounted directory
  have newInside : volume.view.NumberInside dir new := by
    intro child fileType found
    rw [absent] at found
    cases found
  cases foundOld : (volume.view.dirIndex dir)[old]? with
  | none =>
      obtain ⟨second, ranOld, _⟩ := run_find_absent firstMounted firstDirectory
        (by rw [looked.dirIndex_eq]; exact foundOld)
      rw [looked.view_fs] at ranOld
      refine Or.inl ⟨fun _ => ⟨newInside, fun _ child fileType found => ?_⟩,
        Or.inl ⟨?_, Or.inr ⟨_, second, (run_bind_ok ranOld).trans rfl⟩⟩⟩
      · rw [foundOld] at found
        cases found
      · rintro ⟨child, fileType, renames⟩
        rw [renames.found] at foundOld
        cases foundOld
  | some binding =>
      obtain ⟨child, fileType⟩ := binding
      by_cases isChild : volume.view.fs.IsInode child
      · have firstCoherent := consulted.extentsCoherent mounted directory isChild
          (coherent child fileType foundOld)
        rw [← looked.view_fs] at firstCoherent
        obtain ⟨second, ranOld, lookedOld, disk, _⟩ := run_find_repaired firstMounted
          firstDirectory (by rw [looked.dirIndex_eq]; exact foundOld)
          (by rw [looked.view_fs]; exact isChild) firstCoherent
        rw [looked.view_fs] at ranOld disk
        obtain ⟨_, _, _, fits⟩ := mounted.layout.handle_spec mounted.geometry isChild
        have sameDisk : first.disk = volume.disk := by rw [consulted.state]
        have sameInode : second.inodeOf (volume.view.fs.handle child) =
            volume.repairedInode (volume.view.fs.handle child) fileType := by
          rw [← Volume.inodeOf_repaired fits, Volume.inodeOf, disk,
            Volume.repaired_congr sameDisk, Volume.inodeOf]
        have read : (volume.view.fs.handle child).readDiskInode.run second =
            .ok (volume.repairedInode (volume.view.fs.handle child) fileType) second := by
          rw [← sameInode]
          exact Inode.run_readDiskInode fits
        refine Or.inl ⟨fun _ => ⟨newInside, fun _ other otherType otherFound => ?_⟩,
          Or.inr ⟨child, fileType, second, renamable.renames absent foundOld, ?_,
            looked.trans lookedOld⟩⟩
        · rw [foundOld] at otherFound
          cases otherFound
          exact isChild
        · rw [run_bind_ok ranOld, run_bind_ok (run_okOr_some _ _ _), run_bind_ok read]
          rfl
      · refine Or.inr ⟨fun inside => isChild ((inside renamable).2 absent child fileType foundOld),
          run_bind_panic ?_⟩
        rcases run_find firstMounted firstDirectory old with ⟨oldAbsent, _⟩ |
          ⟨other, otherType, found, ⟨_, panics⟩ | ⟨_, _, isOther, _⟩⟩
        · rw [looked.dirIndex_eq, foundOld] at oldAbsent
          cases oldAbsent
        · rw [looked.view_fs] at panics
          exact panics
        · rw [looked.dirIndex_eq, foundOld] at found
          cases found
          rw [looked.view_fs] at isOther
          exact absurd isOther isChild

theorem renameChild_outcome (coherent : volume.ChildCoherent dir old) :
    RenameChildOutcome reserved dir volume old new
      ((renameChild (volume.view.fs.handle dir) old new).run volume) := by
  rw [renameChild, run_bind_ok (run_isDir_dir mounted directory)]
  simp only [not_true_eq_false, if_false]
  by_cases odd : old.isEmpty = true ∨ new.isEmpty = true ∨ old = .dot ∨ old = .dotDot ∨
      new = .dot ∨ new = .dotDot
  · rw [if_pos odd]
    refine renameChildOutcome_refused (fun renamable => ?_) (Or.inr ⟨_, volume, rfl⟩)
    rcases odd with empty | empty | isDot | isDot | isDot | isDot
    · exact absurd (empty.symm.trans renamable.oldNonempty) (by decide)
    · exact absurd (empty.symm.trans renamable.newNonempty) (by decide)
    · exact absurd isDot renamable.oldDots.1
    · exact absurd isDot renamable.oldDots.2
    · exact absurd isDot renamable.newDots.1
    · exact absurd isDot renamable.newDots.2
  · rw [if_neg odd]
    by_cases same : old = new
    · rw [if_pos same]
      exact renameChildOutcome_refused (fun renamable => renamable.different same)
        (Or.inl ⟨volume, rfl⟩)
    · have renamable := Renamable.of_proper odd same
      rw [if_neg same]
      rcases run_find mounted directory new with ⟨absent, _⟩ |
        ⟨taken, takenType, found, ⟨outside, panics⟩ | ⟨first, ranNew, isTaken, looked⟩⟩
      · obtain ⟨first, ranNew, consulted⟩ := run_find_absent mounted directory absent
        rw [run_bind_ok ranNew]
        exact renameOld_outcome mounted directory coherent renamable absent consulted
      · exact Or.inr ⟨fun inside => outside ((inside renamable).1 taken takenType found),
          run_bind_panic panics⟩
      · refine Or.inl ⟨fun _ => ⟨fun child fileType other => ?_, fun absent => ?_⟩, Or.inl ⟨?_,
          Or.inr ⟨.alreadyExists, first, (run_bind_ok ranNew).trans rfl⟩⟩⟩
        · rw [found] at other
          cases other
          exact isTaken
        · rw [found] at absent
          cases absent
        · rintro ⟨_, _, renames⟩
          rw [renames.absent] at found
          cases found

omit mounted directory in
/-- The walk over a directory with a record appended. -/
theorem nameOverruns_appends {view after last : View} {pblock child : Nat} {fileType : UInt8}
    {block : Block} (short : new.len ≤ ext4NameLen) (different : old ≠ new)
    (owning : after.Owning reserved dir)
    (small : view.blockCount dir < u32Max)
    (same : ∀ l < view.blockCount dir,
      mapLogicalBlock (after.extents dir) l = mapLogicalBlock (view.extents dir) l)
    (data : ∀ blockId ∈ dataBlocks (view.extents dir), after.data blockId = view.data blockId)
    (mapped : mapLogicalBlock (after.extents dir) (view.blockCount dir) = some pblock)
    (appends : Appends reserved dir pblock
      (Block.putEntry block 0 blockSz child fileType new) ((view.blockCount dir + 1) * blockSz)
      after last) :
    last.NameOverruns dir old ↔
      Overruns view.data (view.extents dir) old (view.blockCount dir) 0 := by
  have isNew := maps_of_mapLogicalBlock mapped
  have outside {blockId : Nat} (isData : blockId ∈ dataBlocks (after.extents dir)) :
      blockId ∉ reserved := owning.outside blockId (mem_owned.mpr (Or.inl isData))
  have size : (last.inode dir).size = (view.blockCount dir + 1) * blockSz := by
    rw [appends.inode]
    exact Ext4Inode.size_setSize _ (by
      simp only [u32Max, blockSz] at small ⊢
      omega)
  have count : last.blockCount dir = view.blockCount dir + 1 := by
    rw [View.blockCount, size, dirBlocks, if_neg (by simp only [blockSz]; omega),
      Nat.mod_eq_of_lt (by
        simp only [u32Max, blockSz] at small ⊢
        omega)]
    simp only [blockSz]
    omega
  rw [View.NameOverruns, count, appends.extents]
  refine overruns_append (Nat.le_of_lt small) same ?_ ?_
  · intro l inside other isOld
    have isMapped := maps_of_mapLogicalBlock (by rw [same l inside]; exact isOld :
      mapLogicalBlock (after.extents dir) l = some other)
    have notNew : other ≠ pblock := by
      rintro rfl
      exact absurd (isMapped.injective (List.nodup_append.mp owning.nodup).1 isNew) (by omega)
    rw [appends.data other (outside isMapped.mem_dataBlocks), View.data_put_of_ne notNew,
      data other (maps_of_mapLogicalBlock isOld).mem_dataBlocks]
  · intro other isLast
    rw [mapped] at isLast
    cases isLast
    rw [appends.data pblock (outside isNew.mem_dataBlocks), View.data_put_same]
    exact findDirent_putEntry _ _ _ short different

omit mounted directory in
/-- A look at the directory leaves what decides about an entry. -/
theorem filledOverruns_congr {other : Volume} (unchanged : Unchanged volume.view other.view dir)
    (child : Nat) (fileType : UInt8) :
    other.view.FilledOverruns dir old new child fileType ↔
      volume.view.FilledOverruns dir old new child fileType := by
  have sameData {blockId : Nat} (isData : blockId ∈ dataBlocks (volume.view.extents dir)) :
      other.view.data blockId = volume.view.data blockId :=
    unchanged.data blockId (mem_owned.mpr (Or.inl isData))
  rw [View.FilledOverruns, View.FilledOverruns, View.blockCount, unchanged.inode,
    ← View.blockCount, unchanged.extents_eq]
  refine overruns_congr (fun blockId isData => ?_) old _ _
  rw [View.filledData, View.filledData, unchanged.slotFor_eq]
  cases chosen : volume.view.slotFor dir (align4 (Ext4DirEntry.fixedSize + new.len)) with
  | none => exact sameData isData
  | some pair =>
      obtain ⟨pblock, slot⟩ := pair
      obtain ⟨_, _, _, isMapped, _⟩ := findSlotFrom_eq_some chosen
      simp only [Option.elim_some]
      rw [sameData (maps_of_mapLogicalBlock isMapped).mem_dataBlocks]
      by_cases same : blockId = pblock
      · rw [same, Function.update_self, Function.update_self]
      · rw [Function.update_of_ne same, Function.update_of_ne same, sameData isData]

/-- The walk over a directory with a slot filled. -/
theorem nameOverruns_filled (short : new.len ≤ ext4NameLen) {pblock child : Nat} {slot : DirSlot}
    {fileType : UInt8}
    (chosen : volume.view.slotFor dir (align4 (Ext4DirEntry.fixedSize + new.len)) =
      some (pblock, slot)) {entered : Volume}
    (ran : (fillSlot pblock child fileType new slot).run volume = .ok () entered) :
    entered.view.NameOverruns dir old ↔
      Overruns (Function.update volume.view.data pblock
        (slot.fill (volume.view.data pblock) child fileType new)) (volume.view.extents dir) old
        (volume.view.blockCount dir) 0 := by
  obtain ⟨_, _, _, isMapped, found⟩ := findSlotFrom_eq_some chosen
  have isData := (maps_of_mapLogicalBlock isMapped).mem_dataBlocks
  have isOwned : pblock ∈ volume.view.owned dir := mem_owned.mpr (Or.inl isData)
  have notBitmap : ¬ volume.fs.IsBitmap pblock := fun isBitmap =>
    directory.owning.outside pblock isOwned (mounted.layout.bitmaps pblock isBitmap)
  rw [run_fillSlot volume pblock child fileType short (findSlot_room found),
    disk_of_owned mounted directory.owning isOwned] at ran
  split at ran
  · cases ran
    obtain ⟨_, sameInode, sameExtents, _⟩ := fileStep_putBlock mounted directory.isInode
      directory.owning directory.coherent isData
      (slot.fill (volume.view.data pblock) child fileType new)
    rw [View.NameOverruns, View.blockCount, sameInode, ← View.blockCount, sameExtents,
      Volume.view_putBlock (Volume.geometry_view.mp mounted.geometry) notBitmap]
    rfl
  · cases ran

/-- The walk over a directory with a block appended. -/
theorem nameOverruns_appended (short : new.len ≤ ext4NameLen) (different : old ≠ new)
    {child : Nat} {fileType : UInt8} {entered : Volume}
    (ran : ((volume.view.fs.handle dir).dirAppendEntry (volume.view.blockCount dir) child fileType
      new).run volume = .ok () entered) :
    entered.view.NameOverruns dir old ↔
      Overruns volume.view.data (volume.view.extents dir) old (volume.view.blockCount dir) 0 := by
  -- The record goes into the block behind the last one, taken now or mapped before.
  have finished {between : Volume} (step : FileStep reserved dir volume.view between.view)
      {pblock : Nat} (small : volume.view.blockCount dir < u32Max)
      (same : ∀ l < volume.view.blockCount dir,
        mapLogicalBlock (between.view.extents dir) l =
          mapLogicalBlock (volume.view.extents dir) l)
      (data : ∀ blockId ∈ dataBlocks (volume.view.extents dir),
        between.view.data blockId = volume.view.data blockId)
      (mapped : mapLogicalBlock (between.view.extents dir) (volume.view.blockCount dir) =
        some pblock)
      (ended : (finishAppend (volume.view.fs.handle dir) (volume.view.blockCount dir) child
        fileType new pblock).run between = .ok () entered) :
      entered.view.NameOverruns dir old ↔
        Overruns volume.view.data (volume.view.extents dir) old (volume.view.blockCount dir)
          0 := by
    rw [← step.fs] at ended
    have appends := appends_finishAppend (step.mounted mounted directory.owning)
      (by rw [step.fs]; exact directory.isInode) step.owning step.coherent short
      (maps_of_mapLogicalBlock mapped).mem_dataBlocks ended
    exact nameOverruns_appends short different step.owning small same data mapped appends
  rcases dirAppendEntry_outcome mounted directory child fileType new with
    ⟨ends, _, pblock, between, _, fresh, extended, ended⟩ | ⟨_, _, error, failed, ended, _⟩ |
    ⟨_, between, reread, ended⟩
  · have isNew : pblock ∈ [pblock] := List.mem_singleton_self _
    have pblockSmall := (mounted.guarded.fresh (fresh.items pblock isNew)
      (fresh.free pblock isNew)).2.2
    have extend := directory.extends_appended ends.1 ends.2 pblockSmall
    refine finished extended.step ends.2 ?_ extended.data ?_ (ended.symm.trans ran)
    · rw [extended.extents]
      exact directory.mapLogicalBlock_of_extends extend
    · rw [extended.extents]
      exact directory.mapLogicalBlock_appended ends.1 ends.2 pblockSmall
  · rw [ended] at ran
    cases ran
  · have unchanged := reread.unchanged dir
    rw [ended] at ran
    cases mapped : mapLogicalBlock (volume.view.extents dir) (volume.view.blockCount dir) with
    | none =>
        rw [mapped] at ran
        cases ran
    | some pblock =>
        rw [mapped] at ran
        exact finished
          (reread.fileStep mounted directory.isInode directory.owning directory.coherent)
          (mapLogicalBlock_lt mapped) (fun l _ => by rw [unchanged.extents_eq])
          (fun blockId isData => unchanged.data blockId (mem_owned.mpr (Or.inl isData)))
          (by rw [unchanged.extents_eq]; exact mapped) ran

/-- Whether the walk to the old name overruns is known before the new one is entered. -/
theorem nameOverruns_entered (nonempty : new.isEmpty = false) (short : new.len ≤ ext4NameLen)
    (absent : (volume.view.dirIndex dir)[new]? = none) (different : old ≠ new) {child : Nat}
    {fileType : UInt8} {entered : Volume}
    (ran : ((volume.view.fs.handle dir).dirAddEntry new child fileType).run volume =
      .ok () entered) :
    entered.view.NameOverruns dir old ↔
      volume.view.FilledOverruns dir old new child fileType := by
  obtain ⟨middle, consulted, split⟩ := run_dirAddEntry mounted directory nonempty absent
    (align4_record_le short) child fileType
  have looked : Looked reserved dir volume middle := consulted.looked
  have middleMounted := looked.mounted mounted
  have middleDirectory := looked.directory mounted directory
  have unchanged := looked.unchanged mounted directory
  have sameCount : middle.view.blockCount dir = volume.view.blockCount dir := by
    rw [View.blockCount, unchanged.inode, View.blockCount]
  rw [ran, ← unchanged.slotFor_eq, ← sameCount, ← looked.view_fs] at split
  rw [← filledOverruns_congr unchanged, View.FilledOverruns, View.filledData]
  cases chosen : middle.view.slotFor dir (align4 (Ext4DirEntry.fixedSize + new.len)) with
  | some pair =>
      rw [chosen] at split
      exact nameOverruns_filled middleMounted middleDirectory short chosen split.symm
  | none =>
      rw [chosen] at split
      exact nameOverruns_appended middleMounted middleDirectory short different split.symm

/-- Behind the checks, the slot of the new name and the walk to the old one
decide. -/
theorem returns_exchangeNames_iff (nonempty : new.isEmpty = false)
    (absent : (volume.view.dirIndex dir)[new]? = none) (different : old ≠ new) (child : Nat)
    (fileType : UInt8) :
    Returns (exchangeNames (volume.view.fs.handle dir) old new child fileType) volume ↔
      (new.len ≤ ext4NameLen → volume.view.SlotInside dir new ∧
        (EntryFits volume dir new →
          ¬ volume.view.FilledOverruns dir old new child fileType)) := by
  rw [exchangeNames]
  by_cases short : new.len ≤ ext4NameLen
  · rw [forall_prop_of_true short]
    rcases dirAddEntry_fits mounted directory nonempty short absent child fileType with
      ⟨fits, entered, _, ran, _⟩ | ⟨noFit, fails⟩
    · obtain ⟨middle, consulted, step, sameMode⟩ := fileStep_dirAddEntry mounted directory nonempty
        short absent ran
      have looked : Looked reserved dir volume middle := consulted.looked
      have enteredMounted := step.mounted (looked.mounted mounted)
        (looked.directory mounted directory).owning
      have sameFs : entered.view.fs = volume.view.fs := step.fs.trans looked.view_fs
      have isDir : (entered.view.inode dir).isDir = true := by
        rw [Ext4Inode.isDir, Ext4Inode.fileType, sameMode]
        exact directory.isDir
      have removing := returns_dirRemoveEntry_iff enteredMounted
        (by rw [sameFs]; exact directory.isInode) step.owning isDir old
      rw [sameFs, nameOverruns_entered mounted directory nonempty short absent different ran]
        at removing
      rw [returns_bind_ok ran,
        returns_bind fun _ _ _ => returns_dirIndexCacheUpdate _ _ _, removing]
      exact ⟨fun spared => ⟨fits.slot, fun _ => spared⟩, fun both => both.2 fits⟩
    · rw [returns_bind fun _ after ran => absurd ran (fails after),
        returns_dirAddEntry_iff mounted directory nonempty absent]
      exact ⟨fun inside => ⟨inside short, fun fits => absurd fits noFit⟩, fun both _ => both.1⟩
  · obtain ⟨error, after, failed⟩ := run_dirAddEntry_long mounted directory nonempty
      (Nat.not_le.mp short) absent child fileType
    exact iff_of_true (returns_bind_err failed) fun isShort => absurd isShort short

theorem returns_rename_iff (coherent : volume.ChildCoherent dir old) :
    Returns ((volume.view.fs.handle dir).rename old new) volume ↔
      volume.view.NumbersInside dir old new ∧
        ∀ child fileType, volume.view.Renames dir old new child fileType →
          new.len ≤ ext4NameLen → volume.view.SlotInside dir new ∧
            (EntryFits volume dir new → ¬ volume.view.FilledOverruns dir old new child
              (volume.enteredType child fileType)) := by
  rw [Returns, run_rename]
  rcases @renameChild_outcome reserved dir volume mounted directory old new coherent with
    ⟨inside, ⟨refused, ⟨after, ran⟩ | ⟨error, after, ran⟩⟩ |
      ⟨child, fileType, middle, renames, ran, looked⟩⟩ | ⟨outside, panics⟩
  · exact iff_of_true ((returns_bind_ok ran).mpr (returns_ok (run_pure _ _)))
      ⟨inside, fun child fileType renames => absurd ⟨child, fileType, renames⟩ refused⟩
  · exact iff_of_true (returns_bind_err ran)
      ⟨inside, fun child fileType renames => absurd ⟨child, fileType, renames⟩ refused⟩
  · have unchanged := looked.unchanged mounted directory
    have exchanging := @returns_exchangeNames_iff reserved dir middle (looked.mounted mounted)
      (looked.directory mounted directory) old new renames.newNonempty
      (by rw [looked.dirIndex_eq]; exact renames.absent) renames.different child
      (volume.enteredType child fileType)
    rw [unchanged.slotInside, looked.view_fs,
      entryFits_congr looked.sameAllocator mounted.geometry unchanged,
      filledOverruns_congr unchanged] at exchanging
    refine (returns_bind_ok ran).trans (exchanging.trans ?_)
    rw [and_iff_right inside]
    constructor
    · intro spared other otherType otherRenames
      have same := renames.found.symm.trans otherRenames.found
      cases same
      exact spared
    · exact fun all => all child fileType renames
  · exact iff_of_false (not_returns (run_bind_panic panics)) fun both => outside both.1

end Renaming

/-- The bitmaps and all block maps are the same. -/
structure SameMaps (view after : View) : Prop where
  fs : after.fs = view.fs
  held : after.held = view.held
  maps : ∀ inodeNum, view.fs.IsInode inodeNum →
    after.extents inodeNum = view.extents inodeNum ∧ after.tree inodeNum = view.tree inodeNum

/-- Every inode owns its blocks, and none of them is a block of the directory. -/
structure View.Surrounded (reserved : Set Nat) (view : View) (dir : Nat) : Prop where
  owning : ∀ inodeNum, view.fs.IsInode inodeNum → view.Owning reserved inodeNum
  disjoint : ∀ inodeNum, view.fs.IsInode inodeNum → inodeNum ≠ dir →
    List.Disjoint (view.owned inodeNum) (view.owned dir)

namespace SameMaps

variable {reserved : Set Nat} {view after last : View}

theorem trans (first : SameMaps view after) (second : SameMaps after last) :
    SameMaps view last := by
  refine ⟨second.fs.trans first.fs, second.held.trans first.held, ?_⟩
  intro inodeNum isInode
  obtain ⟨sameExtents, sameTree⟩ := first.maps inodeNum isInode
  obtain ⟨lastExtents, lastTree⟩ := second.maps inodeNum (by rw [first.fs]; exact isInode)
  exact ⟨lastExtents.trans sameExtents, lastTree.trans sameTree⟩

theorem mounted (same : SameMaps view after) (mounted : view.Mounted reserved) :
    after.Mounted reserved :=
  ⟨by rw [same.fs]; exact mounted.geometry, by rw [same.fs]; exact mounted.small,
    by rw [same.fs]; exact mounted.layout, by rw [same.held]; exact mounted.reserved⟩

theorem owned_eq (same : SameMaps view after) {inodeNum : Nat}
    (isInode : view.fs.IsInode inodeNum) : after.owned inodeNum = view.owned inodeNum := by
  rw [View.owned, View.owned, (same.maps inodeNum isInode).1, (same.maps inodeNum isInode).2]

theorem surrounded (same : SameMaps view after) {dir : Nat} (isDir : view.fs.IsInode dir)
    (surrounded : view.Surrounded reserved dir) : after.Surrounded reserved dir := by
  constructor
  · intro inodeNum isInode
    rw [same.fs] at isInode
    have owning := surrounded.owning inodeNum isInode
    constructor
    · rw [same.owned_eq isInode]
      exact owning.nodup
    · rw [same.owned_eq isInode, same.held]
      exact owning.held
    · rw [same.owned_eq isInode]
      exact owning.outside
  · intro inodeNum isInode different
    rw [same.fs] at isInode
    rw [same.owned_eq isInode, same.owned_eq isDir]
    exact surrounded.disjoint inodeNum isInode different

/-- A state whose inodes have the same maps and whose trees have the same nodes. -/
theorem of_contents (sameFs : after.fs = view.fs) (sameHeld : after.held = view.held)
    (contents : ∀ inodeNum, view.fs.IsInode inodeNum →
      (after.inode inodeNum).blockData = (view.inode inodeNum).blockData ∧
        (after.inode inodeNum).usesExtents = (view.inode inodeNum).usesExtents)
    (data : ∀ inodeNum, view.fs.IsInode inodeNum → ∀ blockId ∈ view.tree inodeNum,
      after.data blockId = view.data blockId) : SameMaps view after := by
  refine ⟨sameFs, sameHeld, ?_⟩
  intro inodeNum isInode
  obtain ⟨blockData, usesExtents⟩ := contents inodeNum isInode
  exact View.extents_congr_of_map blockData usesExtents (data inodeNum isInode)

variable (mounted : view.Mounted reserved) {dir : Nat}
  (surrounded : view.Surrounded reserved dir)

include mounted surrounded

/-- Writing an inode with the same map. -/
theorem of_putInode {inodeNum : Nat} (isInode : view.fs.IsInode inodeNum) {inode : Ext4Inode}
    (blockData : inode.blockData = (view.inode inodeNum).blockData)
    (usesExtents : inode.usesExtents = (view.inode inodeNum).usesExtents) :
    SameMaps view (view.putInode inodeNum inode) := by
  refine of_contents rfl rfl ?_ ?_
  · intro other isOther
    by_cases same : other = inodeNum
    · subst same
      rw [inode_putInode_same mounted.layout mounted.geometry isInode]
      exact ⟨blockData, usesExtents⟩
    · rw [inode_putInode_of_ne mounted.layout mounted.geometry isInode inode isOther same]
      exact ⟨rfl, rfl⟩
  · intro other isOther blockId isTree
    exact data_putInode mounted.layout mounted.geometry isInode inode
      ((surrounded.owning other isOther).outside blockId (mem_owned.mpr (Or.inr isTree)))

/-- Writing a data block of the directory. -/
theorem of_put (isDir : view.fs.IsInode dir) {pblock : Nat}
    (isData : pblock ∈ dataBlocks (view.extents dir)) (block : Block) :
    SameMaps view (view.put pblock block) := by
  have dirOwning := surrounded.owning dir isDir
  have isOwned : pblock ∈ view.owned dir := mem_owned.mpr (Or.inl isData)
  have sameInode (inodeNum : Nat) (isInode : view.fs.IsInode inodeNum) :
      (view.put pblock block).inode inodeNum = view.inode inodeNum := by
    refine inode_congr mounted.layout mounted.geometry isInode rfl ?_
    intro blockId isReserved
    apply Function.update_of_ne
    rintro rfl
    exact dirOwning.outside blockId isOwned isReserved
  refine of_contents rfl rfl (fun inodeNum isInode => by simp [sameInode inodeNum isInode]) ?_
  intro inodeNum isInode blockId isTree
  apply Function.update_of_ne
  rintro rfl
  by_cases same : inodeNum = dir
  · subst same
    exact (List.nodup_append.mp dirOwning.nodup).2.2 blockId isData blockId isTree rfl
  · exact surrounded.disjoint inodeNum isInode same (mem_owned.mpr (Or.inr isTree)) isOwned

end SameMaps

section Dropping

variable {reserved : Set Nat} {dir : Nat} {volume : Volume}
  (mounted : volume.view.Mounted reserved) (isDir : volume.view.fs.IsInode dir)
  (surrounded : volume.view.Surrounded reserved dir)

include mounted surrounded

theorem Looked.sameMaps {after : Volume} (looked : Looked reserved dir volume after) :
    SameMaps volume.view after.view := by
  refine SameMaps.of_contents looked.view_fs (looked.held_eq mounted.geometry) ?_ ?_
  · intro inodeNum isInode
    obtain ⟨blockData, fields⟩ := looked.contents inodeNum isInode
    exact ⟨blockData, Ext4Inode.usesExtents_congr (fields .iFlags (by decide))⟩
  · intro inodeNum isInode blockId isTree
    exact looked.data_eq ((surrounded.owning inodeNum isInode).outside blockId
      (mem_owned.mpr (Or.inr isTree)))

/-- Changing the number of links of an inode. -/
theorem run_changeLinks {inodeNum : Nat} (isInode : volume.view.fs.IsInode inodeNum)
    {change : Ext4Inode → Ext4Inode}
    (blockData : ∀ inode, (change inode).blockData = inode.blockData)
    (usesExtents : ∀ inode, (change inode).usesExtents = inode.usesExtents) :
    ∃ after, ((volume.view.fs.handle inodeNum).modifyDiskInode change).run volume =
        .ok () after ∧
      SameMaps volume.view after.view := by
  obtain ⟨after, ran, afterView⟩ := view_modifyDiskInode mounted.layout mounted.geometry isInode
    change
  refine ⟨after, ran, ?_⟩
  rw [afterView]
  exact SameMaps.of_putInode mounted surrounded isInode (blockData _) (usesExtents _)

include isDir

/-- Removing an entry changes a data block of the directory. -/
theorem sameMaps_dirRemoveEntry (kind : (volume.view.inode dir).isDir = true) {name : Str}
    {number : Nat} {after : Volume}
    (ran : ((volume.view.fs.handle dir).dirRemoveEntry name).run volume = .ok number after) :
    SameMaps volume.view after.view := by
  have owning := surrounded.owning dir isDir
  rw [run_dirRemoveEntry mounted isDir owning kind] at ran
  rcases run_removeFromBlocks volume (volume.view.extents dir) name (volume.view.blockCount dir) 0
    with ⟨panics, _⟩ | ⟨failed, _⟩ | ⟨l, pblock, off, _, mapped, _, removed⟩
  · rw [panics] at ran
    cases ran
  · rw [failed] at ran
    cases ran
  · rw [removed] at ran
    cases ran
    have isData := (maps_of_mapLogicalBlock mapped).mem_dataBlocks
    have outside := owning.outside pblock (mem_owned.mpr (Or.inl isData))
    rw [Volume.view_putBlock (Volume.geometry_view.mp mounted.geometry)
      fun isBitmap => outside (mounted.layout.bitmaps pblock isBitmap)]
    exact SameMaps.of_put mounted surrounded isDir isData _

theorem returns_dropDirectory {child : Nat} (isChild : volume.view.fs.IsInode child) (name : Str) :
    Returns (dropDirectory (volume.view.fs.handle dir) (volume.view.fs.handle child) name)
      volume := by
  obtain ⟨after, ran, same⟩ := run_changeLinks mounted surrounded isDir
    (fun inode => Ext4Inode.blockData_setField inode .iLinksCount (inode.iLinksCount - 1))
    fun inode => Ext4Inode.usesExtents_congr (Ext4Inode.field_setField_of_ne _ _ (by decide))
  have afterChild : after.view.fs.IsInode child := by
    rw [same.fs]
    exact isChild
  obtain ⟨last, reclaimed, _⟩ := view_reclaimInode (same.mounted mounted) afterChild
    ((same.surrounded isDir surrounded).owning child afterChild)
  rw [same.fs] at reclaimed
  exact (returns_bind_ok ran).mpr ((returns_bind_ok reclaimed).mpr
    (returns_dirIndexCacheUpdate _ _ _))

theorem returns_dropEntry {child : Nat} (isChild : volume.view.fs.IsInode child) (name : Str) :
    Returns (dropEntry (volume.view.fs.handle dir) (volume.view.fs.handle child) name) volume := by
  obtain ⟨after, ran, same⟩ := @run_changeLinks reserved dir volume mounted surrounded child isChild
    (fun inode =>
      if inode.iLinksCount > 0 then inode.setILinksCount (inode.iLinksCount - 1) else inode)
    (fun inode => by
      split
      · exact Ext4Inode.blockData_setField _ _ _
      · rfl)
    (fun inode => by
      split
      · exact Ext4Inode.usesExtents_congr (Ext4Inode.field_setField_of_ne _ _ (by decide))
      · rfl)
  have afterMounted := same.mounted mounted
  have afterChild : after.view.fs.IsInode child := by
    rw [same.fs]
    exact isChild
  have read := view_readDiskInode afterMounted.layout afterMounted.geometry afterChild
  obtain ⟨last, reclaimed, _⟩ := view_reclaimInode afterMounted afterChild
    ((same.surrounded isDir surrounded).owning child afterChild)
  rw [same.fs] at read reclaimed
  have dropped : Returns (volume.view.fs.handle child).dropLink volume := by
    rw [Inode.dropLink, returns_bind_ok ran, returns_bind_ok read]
    split
    · exact returns_ok reclaimed
    · exact returns_ok (run_pure _ _)
  exact (returns_bind fun _ _ _ => returns_dirIndexCacheUpdate _ _ _).mpr dropped

end Dropping

/-- Every directory, and every inode without a type, is mapped by extents or has
at most one block. -/
def View.Listable (view : View) : Prop :=
  ∀ inodeNum, view.fs.IsInode inodeNum →
    (view.inode inodeNum).isDir = true ∨ ¬ (view.inode inodeNum).Typed →
    (view.inode inodeNum).usesExtents = true ∨ (view.inode inodeNum).size ≤ blockSz

/-- A name under which an inode may be removed. -/
def Removable (name : Str) : Prop := ¬ (name.isEmpty = true ∨ name = .dot ∨ name = .dotDot)

/-- Behind its lookup the child is no directory, or its listing shows no name. -/
def Volume.ShowsNothing (volume : Volume) (self : Inode) (fileType : UInt8) : Prop :=
  ((volume.repaired self fileType).inodeOf self).isDir = true →
    (volume.repaired self fileType).listed self = []

/-- The name is bound to an inode that may be removed. -/
def Volume.Removes (volume : Volume) (dir : Nat) (name : Str) : Prop :=
  Removable name ∧ ∃ child fileType,
    (volume.view.dirIndex dir)[name]? = some (child, fileType) ∧
      volume.ShowsNothing (volume.view.fs.handle child) fileType

section Unlinking

variable {reserved : Set Nat} {dir : Nat} {volume : Volume}
  (mounted : volume.view.Mounted reserved) (directory : volume.view.Directory reserved dir)
  (surrounded : volume.view.Surrounded reserved dir) (listable : volume.view.Listable)

include mounted surrounded

/-- The cached extents of a child stay those of the disk when its mode is repaired. -/
theorem extentsCoherent_repaired {child : Nat} (isChild : volume.view.fs.IsInode child)
    {fileType : UInt8} {after : Volume} (looked : Looked reserved dir volume after)
    (disk : after.disk = (volume.repaired (volume.view.fs.handle child) fileType).disk)
    (cached : ∀ extents, after.extentsCache[child]? = some extents →
      extents = volume.extentsOf (volume.view.fs.handle child)) :
    after.ExtentsCoherent (volume.view.fs.handle child) := by
  obtain ⟨_, _, _, fits⟩ := mounted.layout.handle_spec mounted.geometry isChild
  have owning := surrounded.owning child isChild
  have sameInode : after.inodeOf (volume.view.fs.handle child) =
      volume.repairedInode (volume.view.fs.handle child) fileType := by
    rw [← Volume.inodeOf_repaired fits, Volume.inodeOf, disk, Volume.inodeOf]
  have sameData := (volume.repairedInode_contents (volume.view.fs.handle child) fileType).1
  rw [inodeOf_handle mounted isChild] at sameData
  have nodes := (tree_of_owning mounted owning).2
  have sameParse := (@tree_congr volume.disk after.disk (volume.view.inode child).blockData
    fun blockId isNode => looked.blocks blockId (owning.outside blockId
      (mem_owned.mpr (Or.inr (by rw [← nodes]; exact isNode))))).1
  intro extents found
  rw [cached extents found, Volume.extentsOf, Volume.extentsOf, sameInode, sameData, sameParse,
    inodeOf_handle mounted isChild]

include directory listable

/-- A child that was found passes exactly when it shows nothing. -/
theorem unlinkFound_outcome {child : Nat} (isChild : volume.view.fs.IsInode child)
    {fileType : UInt8} {first : Volume} (looked : Looked reserved dir volume first)
    (disk : first.disk = (volume.repaired (volume.view.fs.handle child) fileType).disk)
    (cached : ∀ extents, first.extentsCache[child]? = some extents →
      extents = volume.extentsOf (volume.view.fs.handle child))
    {outcome : Outcome Ext4Error Volume (Inode × Bool)}
    (ran : outcome = (do
      if ← (volume.view.fs.handle child).isDir then
        if (← (volume.view.fs.handle child).ls) ≠ [] then
          throw .unsupported
        else return (volume.view.fs.handle child, true)
      else return (volume.view.fs.handle child, false) : Call (Inode × Bool)).run first) :
    (¬ volume.ShowsNothing (volume.view.fs.handle child) fileType ∧
      ∃ error after, outcome = .err error after) ∨
    (volume.ShowsNothing (volume.view.fs.handle child) fileType ∧
      ∃ isDir middle, outcome = .ok (volume.view.fs.handle child, isDir) middle ∧
        Unchanged volume.view middle.view dir ∧ SameMaps volume.view middle.view) := by
  have firstMounted := looked.mounted mounted
  have firstChild : first.view.fs.IsInode child := by
    rw [looked.view_fs]
    exact isChild
  have sameMaps := looked.sameMaps mounted surrounded
  have unchanged := looked.unchanged mounted directory
  obtain ⟨_, _, _, fits⟩ := mounted.layout.handle_spec mounted.geometry isChild
  have inodeEq : first.inodeOf (volume.view.fs.handle child) = first.view.inode child := by
    rw [← looked.view_fs]
    exact inodeOf_handle firstMounted firstChild
  have repairedEq : (volume.repaired (volume.view.fs.handle child) fileType).inodeOf
      (volume.view.fs.handle child) = first.inodeOf (volume.view.fs.handle child) := by
    rw [Volume.inodeOf, ← disk, Volume.inodeOf]
  have kind : (volume.view.fs.handle child).isDir.run first =
      .ok (first.inodeOf (volume.view.fs.handle child)).isDir first := by
    rw [Inode.isDir, run_bind_ok (Inode.run_readDiskInode fits)]
    rfl
  have readable (isDir : (first.inodeOf (volume.view.fs.handle child)).isDir = true) :
      (first.inodeOf (volume.view.fs.handle child)).usesExtents = true ∨
        (first.inodeOf (volume.view.fs.handle child)).size ≤ blockSz := by
    obtain ⟨_, fields⟩ := looked.contents child isChild
    rw [inodeEq] at isDir ⊢
    rw [Ext4Inode.usesExtents_congr (fields .iFlags (by decide)),
      Ext4Inode.size_congr (fields .iSizeLo (by decide)) (fields .iSizeHigh (by decide))]
    apply listable child isChild
    by_cases typed : (volume.view.inode child).Typed
    · rw [looked.inodes child isChild typed] at isDir
      exact Or.inl isDir
    · exact Or.inr typed
  rw [ran, run_bind_ok kind, Volume.ShowsNothing, repairedEq]
  cases isDir : (first.inodeOf (volume.view.fs.handle child)).isDir with
  | false =>
      exact Or.inr ⟨fun claimed => absurd claimed (by decide), false, first, rfl, unchanged,
        sameMaps⟩
  | true =>
      obtain ⟨last, listed, refilled⟩ := run_ls_disk fits
        (extentsCoherent_repaired mounted surrounded isChild looked disk cached) isDir
        (readable isDir)
      rw [Volume.listed_congr disk] at listed
      have lastView : last.view = { first.view with extentsCache := last.extentsCache } := by
        conv_lhs => rw [refilled.state]
        exact Volume.view_setExtentsCache _ _
      simp only [if_true, forall_const]
      rw [run_bind_ok listed]
      split
      · next shown => exact Or.inl ⟨shown, _, last, rfl⟩
      · next empty =>
          refine Or.inr ⟨not_not.mp empty, true, last, rfl, ?_, ?_⟩
          · refine unchanged.trans ?_
            rw [lastView]
            exact ⟨rfl, fun _ _ => rfl, fun _ _ isHeld => isHeld⟩
          · refine sameMaps.trans ?_
            rw [lastView]
            exact ⟨rfl, rfl, fun _ _ => ⟨rfl, rfl⟩⟩

/-- The checks of a removal end in a panic exactly when the number they meet is
not that of an inode; they pass when the inode may be removed. -/
theorem unlinkChild_outcome (name : Str) (coherent : volume.ChildCoherent dir name) :
    ((Removable name → volume.view.NumberInside dir name) ∧
      ((¬ volume.Removes dir name ∧
          ∃ error after, (unlinkChild (volume.view.fs.handle dir) name).run volume =
            .err error after) ∨
        (volume.Removes dir name ∧
          ∃ child isDir middle, (unlinkChild (volume.view.fs.handle dir) name).run volume =
            .ok (volume.view.fs.handle child, isDir) middle ∧
          volume.view.fs.IsInode child ∧ Unchanged volume.view middle.view dir ∧
          SameMaps volume.view middle.view))) ∨
    (¬ (Removable name → volume.view.NumberInside dir name) ∧
      (unlinkChild (volume.view.fs.handle dir) name).run volume = .panic) := by
  rw [unlinkChild]
  by_cases odd : name.isEmpty = true ∨ name = .dot ∨ name = .dotDot
  · rw [if_pos odd]
    exact Or.inl ⟨fun proper => absurd odd proper,
      Or.inl ⟨fun removes => removes.1 odd, _, volume, rfl⟩⟩
  · rw [if_neg odd, run_bind_ok (run_isDir_dir mounted directory)]
    simp only [not_true_eq_false, if_false]
    rcases run_find mounted directory name with ⟨absent, first, ran, _⟩ |
      ⟨child, fileType, found, ⟨outside, panics⟩ | ⟨_, _, isChild, _⟩⟩
    · refine Or.inl ⟨?_, Or.inl ⟨?_, _, first, (run_bind_ok ran).trans rfl⟩⟩
      · intro _ child fileType found
        rw [absent] at found
        cases found
      · rintro ⟨_, child, fileType, found, _⟩
        rw [absent] at found
        cases found
    · exact Or.inr ⟨fun inside => outside (inside odd child fileType found), run_bind_panic panics⟩
    · obtain ⟨first, ran, looked, disk, cached⟩ := run_find_repaired mounted directory found isChild
        (coherent child fileType found)
      have inside : volume.view.NumberInside dir name := by
        intro other otherType otherFound
        rw [found] at otherFound
        cases otherFound
        exact isChild
      have removesIff : volume.Removes dir name ↔
          volume.ShowsNothing (volume.view.fs.handle child) fileType := by
        constructor
        · rintro ⟨_, other, otherType, otherFound, empty⟩
          rw [found] at otherFound
          cases otherFound
          exact empty
        · exact fun empty => ⟨odd, child, fileType, found, empty⟩
      rw [run_bind_ok ran, run_bind_ok (run_okOr_some _ _ _), removesIff]
      refine Or.inl ⟨fun _ => inside, ?_⟩
      rcases unlinkFound_outcome mounted directory surrounded listable isChild looked disk cached
          rfl with failed | ⟨empty, isDir, middle, ended, unchanged, same⟩
      · exact Or.inl failed
      · exact Or.inr ⟨empty, child, isDir, middle, ended, isChild, unchanged, same⟩

theorem returns_unlink_iff (name : Str) (coherent : volume.ChildCoherent dir name) :
    Returns ((volume.view.fs.handle dir).unlink name) volume ↔
      (Removable name → volume.view.NumberInside dir name) ∧
        (volume.Removes dir name → ¬ volume.view.NameOverruns dir name) := by
  rw [Returns, run_unlink]
  rcases unlinkChild_outcome mounted directory surrounded listable name coherent with
    ⟨inside, ⟨refused, error, after, ran⟩ |
      ⟨removes, child, isDir, middle, ran, isChild, unchanged, same⟩⟩ | ⟨outside, panics⟩
  · exact iff_of_true (returns_bind_err ran) ⟨inside, fun removes => absurd removes refused⟩
  · have middleMounted := same.mounted mounted
    have middleSurrounded := same.surrounded directory.isInode surrounded
    have middleInode : middle.view.fs.IsInode dir := by
      rw [same.fs]
      exact directory.isInode
    have removing := returns_dirRemoveEntry_iff middleMounted middleInode
      (unchanged.owning directory.owning) (by rw [unchanged.inode]; exact directory.isDir) name
    rw [unchanged.nameOverruns, same.fs] at removing
    have finishing : Returns (finishUnlink (volume.view.fs.handle dir) name
        (volume.view.fs.handle child, isDir)) middle ↔
          Returns ((volume.view.fs.handle dir).dirRemoveEntry name) middle := by
      have rest (number : Nat) (removed : Volume)
          (removal : ((volume.view.fs.handle dir).dirRemoveEntry name).run middle =
            .ok number removed) :
          Returns (dropDirectory (volume.view.fs.handle dir) (volume.view.fs.handle child) name)
              removed ∧
            Returns (dropEntry (volume.view.fs.handle dir) (volume.view.fs.handle child) name)
              removed := by
        rw [← same.fs] at removal
        have sameThen := sameMaps_dirRemoveEntry middleMounted middleInode middleSurrounded
          (by rw [unchanged.inode]; exact directory.isDir) removal
        have removedFs : removed.view.fs = volume.view.fs := sameThen.fs.trans same.fs
        have removedMounted := sameThen.mounted middleMounted
        have removedSurrounded := sameThen.surrounded middleInode middleSurrounded
        have removedInode : removed.view.fs.IsInode dir := by
          rw [removedFs]
          exact directory.isInode
        have removedChild : removed.view.fs.IsInode child := by
          rw [removedFs]
          exact isChild
        rw [← removedFs]
        exact ⟨returns_dropDirectory removedMounted removedInode removedSurrounded removedChild name,
          returns_dropEntry removedMounted removedInode removedSurrounded removedChild name⟩
      cases isDir with
      | true => exact returns_bind fun number removed removal => (rest number removed removal).1
      | false => exact returns_bind fun number removed removal => (rest number removed removal).2
    refine (returns_bind_ok ran).trans (finishing.trans (removing.trans ?_))
    rw [and_iff_right inside]
    exact ⟨fun spared _ => spared, fun spared => spared removes⟩
  · exact iff_of_false (not_returns (run_bind_panic panics)) fun both => outside both.1

end Unlinking

/-- A directory may have any bytes in its blocks. -/
theorem directory_putBlock {reserved : Set Nat} {dir : Nat} {volume : Volume}
    (mounted : volume.view.Mounted reserved) (directory : volume.view.Directory reserved dir)
    {pblock : Nat} (isData : pblock ∈ dataBlocks (volume.view.extents dir)) (block : Block) :
    (volume.putBlock pblock block).view.Mounted reserved ∧
      (volume.putBlock pblock block).view.Directory reserved dir := by
  obtain ⟨step, sameInode, sameExtents, _⟩ := fileStep_putBlock mounted directory.isInode
    directory.owning directory.coherent isData block
  refine ⟨step.mounted mounted directory.owning, directory.of_fileStep step ?_ ?_ ?_ ?_ ?_⟩
  · rw [sameInode]
    exact directory.isDir
  · rw [sameInode]
    exact directory.usesExtents
  · rw [sameExtents]
    exact directory.ordered
  · rw [sameExtents]
    exact directory.bounded
  · rw [sameInode, sameExtents]
    exact directory.mapped

/-- The calls on a directory. -/
inductive Request where
  | find (name : Str)
  | createFile (name : Str)
  | unlink (name : Str)
  | rename (old new : Str)

/-- The call returns. -/
def Request.Survives (self : Inode) (volume : Volume) : Request → Prop
  | .find name => Returns (self.find name) volume
  | .createFile name => Returns (self.createFile name) volume
  | .unlink name => Returns (self.unlink name) volume
  | .rename old new => Returns (self.rename old new) volume

/-- The numbers that a call meets are those of inodes, the record into which it
enters a name ends inside its block, and the walk on which it removes a name
meets no name that runs past a block. -/
def Request.Guarded (volume : Volume) (dir : Nat) : Request → Prop
  | .find name => volume.view.NumberInside dir name
  | .createFile name =>
      name.isEmpty = false → name.len ≤ ext4NameLen → volume.view.NumberInside dir name ∧
        ((volume.view.dirIndex dir)[name]? = none → volume.view.HasFreeInode →
          volume.view.SlotInside dir name)
  | .unlink name =>
      (Removable name → volume.view.NumberInside dir name) ∧
        (volume.Removes dir name → ¬ volume.view.NameOverruns dir name)
  | .rename old new =>
      volume.view.NumbersInside dir old new ∧
        ∀ child fileType, volume.view.Renames dir old new child fileType →
          new.len ≤ ext4NameLen → volume.view.SlotInside dir new ∧
            (EntryFits volume dir new → ¬ volume.view.FilledOverruns dir old new child
              (volume.enteredType child fileType))

/-- What a call takes for granted outside the blocks of the directory: the cached extents
of the inode that it removes or renames are those of the disk, and around a directory
from which it removes one every inode owns its blocks and can be listed. -/
def Request.Assumes (reserved : Set Nat) (volume : Volume) (dir : Nat) : Request → Prop
  | .find _ => True
  | .createFile _ => True
  | .unlink name => volume.ChildCoherent dir name ∧ volume.view.Surrounded reserved dir ∧
      volume.view.Listable
  | .rename old _ => volume.ChildCoherent dir old

/-- A call on a directory with any bytes in its blocks returns exactly when it is
guarded. -/
theorem Request.survives_iff {reserved : Set Nat} {dir : Nat} {volume : Volume}
    (mounted : volume.view.Mounted reserved) (directory : volume.view.Directory reserved dir)
    (request : Request) (assumes : request.Assumes reserved volume dir) :
    request.Survives (volume.view.fs.handle dir) volume ↔ request.Guarded volume dir := by
  cases request with
  | find name => exact returns_find_iff mounted directory name
  | createFile name => exact returns_createFile_iff mounted directory name
  | unlink name =>
      obtain ⟨coherent, surrounded, listable⟩ := assumes
      exact returns_unlink_iff mounted directory surrounded listable name coherent
  | rename old new => exact returns_rename_iff mounted directory assumes

theorem empty_full : ∀ inodeNum : Fin 33, inodeNum.val ≠ 2 → inodeNum.val ≠ 0 →
    ((rootVolume fullBitmap).view.inode inodeNum).usesExtents = false ∧
      (nodeHeader ((rootVolume fullBitmap).view.inode inodeNum).blockData).isValid = false ∧
      ((rootVolume fullBitmap).view.inode inodeNum).size = 0 := by
  decide

theorem owned_full {inodeNum : Nat} (isInode : (rootVolume fullBitmap).view.fs.IsInode inodeNum)
    (different : inodeNum ≠ 2) : (rootVolume fullBitmap).view.owned inodeNum = [] ∧
      ((rootVolume fullBitmap).view.inode inodeNum).size = 0 := by
  have bounds : 1 ≤ inodeNum ∧ inodeNum ≤ 32 := isInode
  obtain ⟨legacy, invalid, size⟩ := empty_full ⟨inodeNum, by omega⟩ different (by
    have positive : inodeNum ≠ 0 := by omega
    exact positive)
  simp only at legacy invalid size
  refine ⟨?_, size⟩
  simp [View.owned, View.extents, View.tree, treeBlocks, extentTreeBlocks, legacy, invalid,
    dataBlocks]

theorem surrounded_full : (rootVolume fullBitmap).view.Surrounded {block | block ≤ 5} 2 := by
  constructor
  · intro inodeNum isInode
    by_cases same : inodeNum = 2
    · subst same
      exact directory_full.owning
    · constructor <;> rw [(owned_full isInode same).1] <;> simp
  · intro inodeNum isInode different
    rw [(owned_full isInode different).1]
    exact List.disjoint_nil_left _

theorem listable_full : (rootVolume fullBitmap).view.Listable := by
  intro inodeNum isInode _
  by_cases same : inodeNum = 2
  · subst same
    exact Or.inl directory_full.usesExtents
  · rw [(owned_full isInode same).2]
    exact Or.inr (Nat.zero_le _)

theorem survives_iff_root :
    (Request.unlink letterA).Survives ((rootVolume fullBitmap).view.fs.handle 2)
        (rootVolume fullBitmap) ↔
      (Request.unlink letterA).Guarded (rootVolume fullBitmap) 2 :=
  Request.survives_iff mounted_full directory_full (.unlink letterA)
    ⟨fun _ _ _ _ => nofun, surrounded_full, listable_full⟩

/-- The root directory holds one record: a name for inode 99 of 32. -/
def strayVolume : Volume :=
  (rootVolume fullBitmap).putBlock 20
    (Block.putEntry .zeroed 0 blockSz 99 Ext4DirEntry.ftRegFile letterA)

theorem directory_stray : strayVolume.view.Mounted {block | block ≤ 5} ∧
    strayVolume.view.Directory {block | block ≤ 5} 2 :=
  directory_putBlock mounted_full directory_full (by
    rw [(owned_rootVolume fullBitmap).1]
    decide) _

/-- A lookup of the name indexes the group descriptors out of range. -/
theorem not_survives_stray :
    (strayVolume.view.Mounted {block | block ≤ 5} ∧
      strayVolume.view.Directory {block | block ≤ 5} 2) ∧
      ¬ (Request.find letterA).Survives (strayVolume.view.fs.handle 2) strayVolume := by
  refine ⟨directory_stray, ?_⟩
  apply not_returns
  apply Outcome.of_isPanic
  decide +kernel

end Ext4

end OSWorkspace
