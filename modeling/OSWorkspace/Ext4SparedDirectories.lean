import OSWorkspace.Ext4SparedInodes

/-!
# Entries that come and go

Entering a name and removing one change a single directory.  Behind either the
records of the directory are known, the other inodes are spared, and a cached index
is one of the entries from before, so that the update of the index that follows
makes the directory well-formed again.
-/

namespace OSWorkspace

namespace Ext4

open Exec View

section Extents

variable {reserved : Set Nat} {dir : Nat} {volume : Volume}
  (mounted : volume.view.Mounted reserved)

include mounted

/-- A removal writes one block of the directory. -/
theorem extents_dirRemoveEntry {blocks : List (List Dirent)}
    (holds : volume.view.Holds reserved dir blocks) {name : Str} {number : Nat} {after : Volume}
    (ran : ((volume.view.fs.handle dir).dirRemoveEntry name).run volume = .ok number after) :
    after.view.extents dir = volume.view.extents dir := by
  rw [run_dirRemoveEntry mounted holds.isInode holds.owning holds.isDir] at ran
  rcases run_removeFromBlocks volume (volume.view.extents dir) name (volume.view.blockCount dir) 0
    with ⟨panics, _⟩ | ⟨failed, _⟩ | ⟨_, pblock, _, _, mapped, _, removed⟩
  · rw [panics] at ran
    cases ran
  · rw [failed] at ran
    cases ran
  · rw [removed] at ran
    cases ran
    exact (fileStep_putBlock mounted holds.isInode holds.owning holds.coherent
      (maps_of_mapLogicalBlock mapped).mem_dataBlocks _).2.2.1

/-- A new name extends the directory by at most one block. -/
theorem tidy_dirAddEntry (directory : volume.view.Directory reserved dir) {name : Str}
    (enters : Enters volume.view dir name) {inodeNum : Nat} {fileType : UInt8} {after : Volume}
    (ran : ((volume.view.fs.handle dir).dirAddEntry name inodeNum fileType).run volume =
      .ok () after) (tidy : Tidy (volume.view.extents dir)) :
    Tidy (after.view.extents dir) := by
  have short := enters.short
  have fits := align4_record_le short
  obtain ⟨middle, consulted, split⟩ := run_dirAddEntry mounted directory enters.nonempty
    enters.absent fits inodeNum fileType
  have looked : Looked reserved dir volume middle := consulted.looked
  have middleMounted := looked.mounted mounted
  have middleDirectory := looked.directory mounted directory
  have unchanged := looked.unchanged mounted directory
  rw [← unchanged.extents_eq] at tidy
  rw [ran] at split
  cases chosen : volume.view.slotFor dir (align4 (Ext4DirEntry.fixedSize + name.len)) with
  | some pair =>
      obtain ⟨pblock, slot⟩ := pair
      rw [chosen] at split
      obtain ⟨_, _, _, mapped, found⟩ := findSlotFrom_eq_some chosen
      have isData : pblock ∈ dataBlocks (middle.view.extents dir) := by
        rw [unchanged.extents_eq]
        exact (maps_of_mapLogicalBlock mapped).mem_dataBlocks
      rcases run_fillSlot_short middle pblock inodeNum fileType short (findSlot_room found) with
        ⟨_, panics⟩ | ⟨_, block, finished⟩
      · simp only [panics] at split
        cases split
      · simp only [finished] at split
        cases split
        rwa [(fileStep_putBlock middleMounted middleDirectory.isInode middleDirectory.owning
          middleDirectory.coherent isData block).2.2.1]
  | none =>
      rw [chosen] at split
      have sameCount : middle.view.blockCount dir = volume.view.blockCount dir := by
        rw [View.blockCount, unchanged.inode, View.blockCount]
      have outcome := dirAppendEntry_outcome middleMounted middleDirectory inodeNum fileType name
      rw [looked.view_fs, sameCount] at outcome
      rcases outcome with ⟨ends, _, pblock, between, _, fresh, extended, ended⟩ |
        ⟨_, _, error, failed, ended, _⟩ | ⟨_, between, reread, ended⟩
      · simp only [ended] at split
        have isNew : pblock ∈ [pblock] := List.mem_singleton_self _
        have pblockSmall : pblock < 2 ^ 48 :=
          (middleMounted.guarded.fresh (fresh.items pblock isNew) (fresh.free pblock isNew)).2.2
        have extend := middleDirectory.extends_appended ends.1 ends.2 pblockSmall
        have isData : pblock ∈ dataBlocks (between.view.extents dir) := by
          rw [extended.extents]
          exact ((extend.maps _ _).mpr (Or.inl ⟨rfl, rfl⟩)).mem_dataBlocks
        have sameFs : between.view.fs = volume.view.fs := extended.step.fs.trans looked.view_fs
        rw [← sameFs] at split
        rw [(appends_finishAppend (extended.step.mounted middleMounted middleDirectory.owning)
          (by rw [sameFs]; exact directory.isInode) extended.step.owning extended.step.coherent
          short isData split.symm).extents, extended.extents]
        exact extend.tidy tidy
      · simp only [ended] at split
        cases split
      · simp only [ended] at split
        cases mapped : mapLogicalBlock (middle.view.extents dir) (volume.view.blockCount dir) with
        | none =>
            rw [mapped] at split
            cases split
        | some pblock =>
            rw [mapped] at split
            have step := reread.fileStep middleMounted middleDirectory.isInode
              middleDirectory.owning middleDirectory.coherent
            have isData : pblock ∈ dataBlocks (between.view.extents dir) := by
              rw [(reread.unchanged dir).extents_eq]
              exact (maps_of_mapLogicalBlock mapped).mem_dataBlocks
            have sameFs : between.view.fs = volume.view.fs := step.fs.trans looked.view_fs
            rw [← sameFs] at split
            rw [(appends_finishAppend (step.mounted middleMounted middleDirectory.owning)
              (by rw [sameFs]; exact directory.isInode) step.owning step.coherent short isData
              split.symm).extents, (reread.unchanged dir).extents_eq]
            exact tidy

end Extents

/-- The index leads to exactly the entries. -/
def DirIndex.Covers (index : DirIndex) (entries : List DirBinding) : Prop :=
  ∀ (name : Str) inodeNum fileType,
    index[name]? = some (inodeNum, fileType) ↔ ⟨name, inodeNum, fileType⟩ ∈ entries

namespace DirIndex.Covers

variable {index : DirIndex} {entries : List DirBinding} (covers : Covers index entries)

include covers

theorem getElem?_eq_none {name : Str} (absent : ∀ binding ∈ entries, binding.name ≠ name) :
    index[name]? = none := by
  rw [Option.eq_none_iff_forall_ne_some]
  rintro ⟨inodeNum, fileType⟩ found
  exact absent _ ((covers name inodeNum fileType).mp found) rfl

theorem insert {name : Str} (absent : ∀ binding ∈ entries, binding.name ≠ name) {inodeNum : Nat}
    {fileType : UInt8} {later : List DirBinding}
    (mem : ∀ binding, binding ∈ later ↔
      binding = ⟨name, inodeNum, fileType⟩ ∨ binding ∈ entries) :
    Covers (index.insert name (inodeNum, fileType)) later := by
  intro other number otherType
  rw [mem, Std.TreeMap.getElem?_insert, DirBinding.mk.injEq, ← covers]
  simp only [Std.LawfulEqCmp.compare_eq_iff_eq]
  by_cases same : name = other
  · subst same
    rw [if_pos rfl, covers.getElem?_eq_none absent, Option.some_inj, Prod.mk.injEq]
    simp [eq_comm]
  · rw [if_neg same]
    simp [Ne.symm same]

theorem erase {name : Str} {later : List DirBinding}
    (mem : ∀ binding, binding ∈ later ↔ binding ∈ entries ∧ binding.name ≠ name) :
    Covers (index.erase name) later := by
  intro other number otherType
  rw [mem, Std.TreeMap.getElem?_erase, ← covers]
  simp only [Std.LawfulEqCmp.compare_eq_iff_eq]
  by_cases same : name = other
  · subst same
    simp
  · rw [if_neg same]
    simp [Ne.symm same]

end DirIndex.Covers

/-- A well-formed directory whose entries lead to members. -/
structure View.Branch (reserved members : Set Nat) (view : View) (dir : Nat)
    (blocks : List (List Dirent)) : Prop extends WellFormed reserved view dir blocks where
  tidy : Tidy (view.extents dir)
  member : dir ∈ members
  inside : ∀ binding ∈ view.entries dir, binding.inodeNum ∈ members

/-- The records of a directory, and a cached index that is one of the given entries. -/
structure View.Edited (reserved : Set Nat) (view : View) (dir : Nat)
    (blocks : List (List Dirent)) (entries : List DirBinding) : Prop
    extends Holds reserved view dir blocks where
  distinct : ((contents blocks).map Prod.fst).Nodup
  tidy : Tidy (view.extents dir)
  cached : ∀ index, view.dirIndexCache[dir]? = some index → DirIndex.Covers index entries

section WellFormed

variable {reserved : Set Nat} {view : View} {dir : Nat} {blocks : List (List Dirent)}
  (wellFormed : view.WellFormed reserved dir blocks)

include wellFormed

theorem View.WellFormed.covers_built :
    DirIndex.Covers ((view.entries dir).foldl Inode.insertBinding ∅) (view.entries dir) :=
  fun name inodeNum fileType => getElem?_foldl_iff
    (wellFormed.toHolds.entries_nodup wellFormed.distinct) name inodeNum fileType

theorem View.WellFormed.covers_cached {index : DirIndex}
    (cached : view.dirIndexCache[dir]? = some index) :
    DirIndex.Covers index (view.entries dir) := by
  intro name inodeNum fileType
  rw [← wellFormed.indexed, View.dirIndex, cached]

theorem View.WellFormed.covers_spared {members : Set Nat} {after : View}
    (spares : Spares reserved members view after) (isMember : dir ∈ members) {index : DirIndex}
    (cached : after.dirIndexCache[dir]? = some index) :
    DirIndex.Covers index (view.entries dir) := by
  rcases spares.dirIndexCache dir isMember index cached with was | built
  · exact wellFormed.covers_cached was
  · rw [built]
    exact wellFormed.covers_built

/-- A name that is absent is the name of no entry. -/
theorem View.WellFormed.name_ne {name : Str} (absent : (view.dirIndex dir)[name]? = none) :
    ∀ binding ∈ view.entries dir, binding.name ≠ name := by
  rintro ⟨other, inodeNum, fileType⟩ isEntry rfl
  have found := (wellFormed.indexed other inodeNum fileType).mpr isEntry
  rw [absent] at found
  cases found

end WellFormed

theorem View.entries_withIndexes (view : View) (indexes : Std.TreeMap Nat DirIndex) (dir : Nat) :
    ({ view with dirIndexCache := indexes } : View).entries dir = view.entries dir :=
  @entries_congr view { view with dirIndexCache := indexes } dir rfl rfl fun _ _ => rfl

theorem View.inode_withIndexes (view : View) (indexes : Std.TreeMap Nat DirIndex)
    (inodeNum : Nat) :
    ({ view with dirIndexCache := indexes } : View).inode inodeNum = view.inode inodeNum :=
  rfl

section Edited

variable {reserved members : Set Nat} {dir : Nat} {blocks : List (List Dirent)}
  {entries : List DirBinding}

/-- An edited directory with an index of its entries, or without one. -/
theorem View.Edited.branch {view : View} (edited : view.Edited reserved dir blocks entries)
    (apart : view.Apart reserved members) {indexes : Std.TreeMap Nat DirIndex}
    (covers : ∀ index, indexes[dir]? = some index → DirIndex.Covers index (view.entries dir))
    (isMember : dir ∈ members)
    (inside : ∀ binding ∈ view.entries dir, binding.inodeNum ∈ members)
    (proper : ∀ binding ∈ view.entries dir, binding.name ≠ .dot → binding.name ≠ .dotDot →
      binding.inodeNum ≠ dir) :
    ({ view with dirIndexCache := indexes } : View).Branch reserved members dir blocks := by
  have holds := edited.toHolds
  have built := holds.entries_nodup edited.distinct
  have indexed (name : Str) (inodeNum : Nat) (fileType : UInt8) :
      (({ view with dirIndexCache := indexes } : View).dirIndex dir)[name]? =
        some (inodeNum, fileType) ↔ ⟨name, inodeNum, fileType⟩ ∈ view.entries dir := by
    cases cached : indexes[dir]? with
    | none =>
        rw [View.dirIndex, cached, View.entries_withIndexes]
        exact getElem?_foldl_iff built name inodeNum fileType
    | some index =>
        rw [View.dirIndex, cached]
        exact covers index cached name inodeNum fileType
  refine ⟨⟨holds.withIndexes fun name inodeNum fileType found =>
    (indexed name inodeNum fileType).mp found, edited.distinct, ?_, ?_, ?_⟩, edited.tidy,
    isMember, ?_⟩
  · rw [View.entries_withIndexes]
    exact indexed
  · rw [View.entries_withIndexes]
    intro binding isEntry
    have resident := apart.resident _ (inside binding isEntry)
    rw [View.inode_withIndexes]
    exact ⟨resident.isInode, resident.typed⟩
  · rw [View.entries_withIndexes]
    exact proper
  · rw [View.entries_withIndexes]
    exact inside

/-- An update of the cached index after an edit makes the directory well-formed. -/
theorem View.Edited.reindex {volume : Volume}
    (edited : volume.view.Edited reserved dir blocks entries)
    (apart : volume.view.Apart reserved members) {change : DirIndex → DirIndex}
    (covers : ∀ index, DirIndex.Covers index entries →
      DirIndex.Covers (change index) (volume.view.entries dir))
    (isMember : dir ∈ members)
    (inside : ∀ binding ∈ volume.view.entries dir, binding.inodeNum ∈ members)
    (proper : ∀ binding ∈ volume.view.entries dir, binding.name ≠ .dot →
      binding.name ≠ .dotDot → binding.inodeNum ≠ dir) :
    ∃ after, (dirIndexCacheUpdate dir change).run volume = .ok () after ∧
      Passage reserved members members (members \ {dir}) volume.view after.view ∧
      after.view.Branch reserved members dir blocks ∧
      after.view.entries dir = volume.view.entries dir := by
  cases cached : volume.dirIndexCache[dir]? with
  | none =>
      refine ⟨volume, run_dirIndexCacheUpdate_none cached change,
        Passage.withIndexes apart fun _ _ => rfl, ?_, rfl⟩
      · have none (index : DirIndex) (found : volume.dirIndexCache[dir]? = some index) :
            DirIndex.Covers index (volume.view.entries dir) := by
          rw [cached] at found
          cases found
        exact edited.branch apart none isMember inside proper
  | some index =>
      obtain ⟨after, ran, afterView, _⟩ := run_dirIndexCacheUpdate_some cached change
      have sameCache : after.dirIndexCache = volume.dirIndexCache.insert dir (change index) :=
        congrArg View.dirIndexCache afterView
      rw [← sameCache] at afterView
      have other (number : Nat) (different : number ≠ dir) :
          after.dirIndexCache[number]? = volume.view.dirIndexCache[number]? := by
        rw [sameCache, Std.TreeMap.getElem?_insert, if_neg]
        · rfl
        · rw [Std.LawfulEqCmp.compare_eq_iff_eq]
          exact Ne.symm different
      have here (found : DirIndex) (isCached : after.dirIndexCache[dir]? = some found) :
          DirIndex.Covers found (volume.view.entries dir) := by
        rw [sameCache, Std.TreeMap.getElem?_insert_self] at isCached
        cases isCached
        exact covers index (edited.cached index cached)
      refine ⟨after, ran, ?_, ?_, ?_⟩
      · rw [afterView]
        exact Passage.withIndexes apart other
      · rw [afterView]
        exact edited.branch apart here isMember inside proper
      · rw [afterView, View.entries_withIndexes]

end Edited

theorem View.Exchanges.congr {inodeNum : Nat} {view other after : View}
    (exchanges : Exchanges inodeNum view after) (sameHeld : other.held .block = view.held .block)
    (sameOwned : other.owned inodeNum = view.owned inodeNum) :
    Exchanges inodeNum other after := by
  intro blockId
  rw [sameHeld, sameOwned]
  exact exchanges blockId

theorem treeSize_mono {few many : Nat} (le : few ≤ many) : treeSize few ≤ treeSize many := by
  have nodesLe : needNodes few ≤ needNodes many := Nat.div_le_div_right (by omega)
  have nodesLeThen : needNodes (needNodes few) ≤ needNodes (needNodes many) :=
    Nat.div_le_div_right (by omega)
  unfold treeSize
  split_ifs <;> omega

/-- A block can be mapped behind the end of the directory, and `more` blocks are free
besides it and those of the extent tree with another entry. -/
structure View.Roomy (view : View) (dir more : Nat) : Prop where
  ends : view.EndsMapped dir
  few : (view.extents dir).length < extentTreeMaxEntries
  free : view.HasFree (more + (1 + treeSize ((view.extents dir).length + 1)))

theorem View.Roomy.unchanged {view after : View} {dir more : Nat} (roomy : view.Roomy dir more)
    (unchanged : Unchanged view after dir) (sameFs : after.fs = view.fs)
    (sameHeld : after.held .block = view.held .block) : after.Roomy dir more := by
  refine ⟨unchanged.endsMapped.mpr roomy.ends, ?_, ?_⟩
  · rw [unchanged.extents_eq]
    exact roomy.few
  · rw [unchanged.extents_eq]
    exact (View.hasFree_congr sameFs (fun blockId => by rw [sameHeld]) _).mpr roomy.free

/-- The room that is left once one of the free blocks is taken. -/
theorem View.Roomy.taken {view after : View} {dir more : Nat} (roomy : view.Roomy dir (more + 1))
    (unchanged : Unchanged view after dir) (sameFs : after.fs = view.fs) {taken : Nat}
    (isBlock : view.IsItem .block taken) (free : taken ∉ view.held .block)
    (held : ∀ blockId, blockId ∈ after.held .block ↔
      blockId = taken ∨ blockId ∈ view.held .block) : after.Roomy dir more := by
  have fresh : view.Fresh [taken] :=
    ⟨List.nodup_singleton taken, by simpa using isBlock, by simpa using free⟩
  refine ⟨unchanged.endsMapped.mpr roomy.ends, ?_, ?_⟩
  · rw [unchanged.extents_eq]
    exact roomy.few
  · rw [unchanged.extents_eq]
    have room : (view.zeroFresh [taken]).HasFree
        (more + (1 + treeSize ((view.extents dir).length + 1))) :=
      (View.hasFree_zeroFresh fresh _).mpr
        (roomy.free.mono (by rw [List.length_singleton]; omega))
    refine (@View.hasFree_congr (view.zeroFresh [taken]) after sameFs ?_ _).mpr room
    intro blockId
    rw [held, View.mem_held_zeroFresh, List.mem_singleton]
    exact Or.comm

theorem length_pushBlockToExtents_le (extents : List Ext4Extent) (lblock pblock : Nat) :
    (pushBlockToExtents extents lblock pblock).length ≤ extents.length + 1 := by
  unfold pushBlockToExtents
  split
  · split_ifs
    · rw [List.length_append, List.length_dropLast, List.length_singleton]
      omega
    · rw [List.length_append, List.length_singleton]
  · simp

/-- A roomy directory can get another block. -/
theorem View.Roomy.roomFor {volume : Volume} {dir : Nat} (roomy : volume.view.Roomy dir 0)
    (pblock : Nat) : RoomFor volume (volume.view.appended dir pblock) 1 := by
  have lengthLe : (volume.view.appended dir pblock).length ≤
      (volume.view.extents dir).length + 1 := length_pushBlockToExtents_le _ _ _
  have sizeLe := treeSize_mono lengthLe
  exact ⟨lengthLe.trans roomy.few, roomy.free.mono (by omega)⟩

section Entering

variable {reserved members : Set Nat} {dir : Nat} {volume : Volume}
  {blocks : List (List Dirent)} (apart : volume.view.Apart reserved members)
  (isMember : dir ∈ members) (wellFormed : volume.view.WellFormed reserved dir blocks)
  {name : Str} (enters : Enters volume.view dir name)

include apart isMember wellFormed enters

/-- A failed entry has at most lost blocks, and there was no room for it. -/
theorem spares_of_failed_dirAddEntry {child : Nat} {fileType : UInt8} {error : Ext4Error}
    {after : Volume}
    (failed : ((volume.view.fs.handle dir).dirAddEntry name child fileType).run volume =
      .err error after) :
    Spares reserved members volume.view after.view ∧ ¬ volume.view.Roomy dir 0 := by
  have mounted := apart.mounted
  have directory := wellFormed.toDirectory
  have fits := align4_record_le enters.short
  obtain ⟨middle, consulted, split⟩ := run_dirAddEntry mounted directory enters.nonempty
    enters.absent fits child fileType
  have warmed := consulted.warmed
  have spares := warmed.spares reserved members
  have middleApart := apart.spared spares
  have middleDirectory := spares.directory isMember directory
  have sameCount : middle.view.blockCount dir = volume.view.blockCount dir := by
    rw [View.blockCount, warmed.inode_eq, View.blockCount]
  have fitsInode := (mounted.layout.handle_spec mounted.geometry directory.isInode).2.2.2
  have stillRoomy (roomy : volume.view.Roomy dir 0) : middle.view.Roomy dir 0 :=
    roomy.unchanged (spares.unchanged dir isMember) warmed.fs_eq (by rw [warmed.held_eq])
  rw [failed] at split
  cases chosen : volume.view.slotFor dir (align4 (Ext4DirEntry.fixedSize + name.len)) with
  | some pair =>
      obtain ⟨pblock, slot⟩ := pair
      rw [chosen] at split
      obtain ⟨_, _, _, _, found⟩ := findSlotFrom_eq_some chosen
      rcases run_fillSlot_short middle pblock child fileType enters.short (findSlot_room found) with
        ⟨_, panics⟩ | ⟨_, _, finished⟩
      · simp only [panics] at split
        cases split
      · simp only [finished] at split
        cases split
  | none =>
      rw [chosen] at split
      have outcome := dirAppendEntry_outcome middleApart.mounted middleDirectory child fileType name
      rw [warmed.fs_eq, sameCount] at outcome
      rcases outcome with ⟨_, _, pblock, between, _, _, _, ended⟩ |
        ⟨_, noRoom, _, last, ended, leaks⟩ | ⟨notEnds, between, reread, ended⟩
      · simp only [ended] at split
        obtain ⟨last, finished⟩ := run_finishAppend_short fitsInode between
          (volume.view.blockCount dir) child fileType enters.short pblock
        rw [finished] at split
        cases split
      · simp only [ended] at split
        cases split
        refine ⟨spares.trans (middleApart.spares_of_leaks isMember leaks), fun roomy => ?_⟩
        exact noRoom ((stillRoomy roomy).roomFor _)
      · simp only [ended] at split
        cases mapped : mapLogicalBlock (middle.view.extents dir) (volume.view.blockCount dir) with
        | none =>
            rw [mapped] at split
            cases split
            refine ⟨spares.trans (reread.warmed.spares reserved members), fun roomy => ?_⟩
            exact notEnds (stillRoomy roomy).ends
        | some pblock =>
            rw [mapped] at split
            obtain ⟨last, finished⟩ := run_finishAppend_short fitsInode between
              (volume.view.blockCount dir) child fileType enters.short pblock
            simp only [finished] at split
            cases split

/-- Entering a name edits the directory, or fails and spares every member. -/
theorem passage_dirAddEntry (tidy : Tidy (volume.view.extents dir)) {child : Nat}
    (isChild : volume.view.fs.IsInode child) (fileType : UInt8) :
    (∃ after changed, ((volume.view.fs.handle dir).dirAddEntry name child fileType).run volume =
        .ok () after ∧
      Passage reserved members members (members \ {dir}) volume.view after.view ∧
      after.view.Edited reserved dir changed (volume.view.entries dir) ∧
      ∀ binding, binding ∈ after.view.entries dir ↔
        binding = ⟨name, child, fileType⟩ ∨ binding ∈ volume.view.entries dir) ∨
    ∃ error after, ((volume.view.fs.handle dir).dirAddEntry name child fileType).run volume =
        .err error after ∧
      Spares reserved members volume.view after.view ∧ ¬ volume.view.Roomy dir 0 := by
  have mounted := apart.mounted
  have holds := wellFormed.toHolds
  have numbered := number_ne_zero mounted.geometry isChild
  rcases entered_dirAddEntry mounted holds enters.nonempty enters.short enters.absent numbered
    fileType with ⟨_, _, error, _, after, failed, _⟩ |
      ⟨_, ⟨looked, after, ran, isLooked, entered⟩ | ⟨_, error, after, failed, _⟩⟩
  · exact Or.inr ⟨error, after, failed,
      spares_of_failed_dirAddEntry apart isMember wellFormed enters failed⟩
  · obtain ⟨middle, consulted, step, _⟩ := fileStep_dirAddEntry mounted holds.toDirectory
      enters.nonempty enters.short enters.absent ran
    obtain ⟨changed, afterHolds, inserts⟩ := entered.holds
    have warmed := consulted.warmed
    have middleApart := apart.spared (warmed.spares reserved members)
    have unchanged := isLooked.unchanged mounted holds.toDirectory
    have exchanges : Exchanges dir middle.view after.view := by
      apply entered.exchanges.congr
      · rw [warmed.held_eq, isLooked.held_eq mounted.geometry]
      · rw [(warmed.unchanged dir).owned_eq, unchanged.owned_eq]
    have passage := (warmed.passage apart).trans (Passage.of_fileStep middleApart isMember step
      exchanges (Ext4Inode.typed_of_isDir afterHolds.isDir))
    rw [Set.inter_eq_right.mpr Set.sdiff_subset] at passage
    have afterTidy := tidy_dirAddEntry mounted holds.toDirectory enters ran tidy
    refine Or.inl ⟨after, changed, ran, passage, ⟨afterHolds, ?_, afterTidy, ?_⟩, ?_⟩
    · rw [(inserts.perm.map Prod.fst).nodup_iff]
      exact List.nodup_cons.mpr ⟨wellFormed.notName enters.absent, wellFormed.distinct⟩
    · intro index cached
      exact wellFormed.covers_spared (warmed.spares reserved members) isMember
        (step.dirIndexCache dir trivial index cached)
    · exact holds.mem_entries_inserts afterHolds (toNat_ofNat_isInode mounted.geometry isChild)
        inserts
  · exact Or.inr ⟨error, after, failed,
      spares_of_failed_dirAddEntry apart isMember wellFormed enters failed⟩

end Entering

section Removing

variable {reserved members : Set Nat} {view after : View} {dir : Nat}
  {blocks : List (List Dirent)} {entries : List DirBinding}

theorem View.Branch.edited (branch : view.Branch reserved members dir blocks) :
    view.Edited reserved dir blocks (view.entries dir) :=
  ⟨branch.toHolds, branch.distinct, branch.tidy,
    fun _ cached => branch.toWellFormed.covers_cached cached⟩

/-- An edited directory stays so while its cached index is kept or dropped. -/
theorem View.Edited.spared (edited : view.Edited reserved dir blocks entries)
    (spares : Spares reserved members view after) (isMember : dir ∈ members)
    (shrinks : ∀ index, after.dirIndexCache[dir]? = some index →
      view.dirIndexCache[dir]? = some index) : after.Edited reserved dir blocks entries :=
  ⟨edited.toHolds.of_unchanged (spares.directory isMember edited.toDirectory)
    (spares.unchanged dir isMember), edited.distinct,
    by rw [(spares.unchanged dir isMember).extents_eq]; exact edited.tidy,
    fun index cached => edited.cached index (shrinks index cached)⟩

/-- The entries behind the removal of a record. -/
theorem View.Edited.mem_entries_removed (edited : view.Edited reserved dir blocks entries)
    {name : Str} {item : List UInt8 × UInt32 × UInt8} (isName : item.1 = name.bytes)
    {changed : List (List Dirent)} (afterHolds : after.Holds reserved dir changed)
    (inserts : Inserts item (contents changed) (contents blocks)) (binding : DirBinding) :
    binding ∈ after.entries dir ↔ binding ∈ view.entries dir ∧ binding.name ≠ name := by
  have distinct := edited.distinct
  rw [(inserts.perm.map Prod.fst).nodup_iff, List.map_cons] at distinct
  have gone := (List.nodup_cons.mp distinct).1
  rw [afterHolds.mem_contents, edited.toHolds.mem_contents]
  constructor
  · rintro ⟨number, numberEq, isItem⟩
    refine ⟨⟨number, numberEq, inserts.mem_iff.mpr (Or.inr isItem)⟩, ?_⟩
    rintro rfl
    apply gone
    rw [isName]
    exact List.mem_map_of_mem isItem
  · rintro ⟨⟨number, numberEq, isItem⟩, different⟩
    rcases inserts.mem_iff.mp isItem with isRemoved | isKept
    · rw [← isRemoved] at isName
      exact absurd (Str.bytes_injective isName) different
    · exact ⟨number, numberEq, isKept⟩

/-- Removing an entry edits the directory. -/
theorem View.Edited.passage_dirRemoveEntry {volume : Volume}
    (edited : volume.view.Edited reserved dir blocks entries)
    (apart : volume.view.Apart reserved members) (isMember : dir ∈ members) {name : Str}
    {child : Nat} {fileType : UInt8} (isEntry : ⟨name, child, fileType⟩ ∈ volume.view.entries dir) :
    ∃ number removed changed,
      ((volume.view.fs.handle dir).dirRemoveEntry name).run volume = .ok number removed ∧
      Passage reserved members members (members \ {dir}) volume.view removed.view ∧
      removed.view.Edited reserved dir changed entries ∧
      ∀ binding, binding ∈ removed.view.entries dir ↔
        binding ∈ volume.view.entries dir ∧ binding.name ≠ name := by
  obtain ⟨_, _, isItem⟩ := edited.toHolds.mem_contents.mp isEntry
  obtain ⟨item, removed, ran, isName, _, removes⟩ :=
    (removed_dirRemoveEntry apart.mounted edited.toHolds name).resolve_left
      fun missing => missing.2 _ isItem rfl
  obtain ⟨changed, holds, inserts⟩ := removes.holds
  have sameExtents := extents_dirRemoveEntry apart.mounted edited.toHolds ran
  refine ⟨_, removed, changed, ran, Passage.of_fileStep apart isMember removes.step
    removes.exchanges (Ext4Inode.typed_of_isDir holds.isDir),
    ⟨holds, ?_, by rw [sameExtents]; exact edited.tidy, ?_⟩,
    edited.mem_entries_removed isName holds inserts⟩
  · have distinct := edited.distinct
    rw [(inserts.perm.map Prod.fst).nodup_iff, List.map_cons] at distinct
    exact (List.nodup_cons.mp distinct).2
  · intro index cached
    exact edited.cached index (removes.step.dirIndexCache dir trivial index cached)

end Removing

end Ext4

end OSWorkspace
