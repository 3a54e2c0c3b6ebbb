import OSWorkspace.Ext4GrowableFiles
import OSWorkspace.Ext4Unlinking
import OSWorkspace.Ext4WellFormedDirectories

/-!
# Giving back what a file took

A write that returns takes blocks for the file and for its extent tree, and gives
back the blocks of the tree that it replaces.  This file follows a new file
through such writes and shows that truncating it, or removing its only name,
leaves exactly the blocks in use that were in use before the first of them.
-/

namespace OSWorkspace

namespace Ext4

open Exec View

/-- The volumes that writes that return, and truncations, can reach. -/
inductive WriteRun (file : Inode) (made : Volume) : Volume → Prop
  | start : WriteRun file made made
  | write {before after : Volume} (offset : Nat) (buf : List UInt8) {count : Nat} :
      WriteRun file made before → (file.writeAt offset buf).run before = .ok count after →
        WriteRun file made after
  | clear {before after : Volume} : WriteRun file made before →
      file.clear.run before = .ok () after → WriteRun file made after

/-- Truncating the file, or removing its name, leaves the blocks in use that were
so when the file was made; removing the name also frees the inode. -/
structure GivesBackAll (self : Inode) (name : Str) (file : Inode) (made later : Volume) :
    Prop where
  clear : ∃ cleared, file.clear.run later = .ok () cleared ∧
    cleared.view.held .block = made.view.held .block
  unlink : ∃ unlinked, (self.unlink name).run later = .ok () unlinked ∧
    unlinked.view.held .block = made.view.held .block ∧
    unlinked.view.held .inode = made.view.held .inode \ {file.inodeNum}

/-- Only the file, its blocks and free blocks have changed since it was made. -/
structure View.Grown (reserved : Set Nat) (inodeNum : Nat) (made later : View) : Prop where
  step : FileStep reserved inodeNum made later
  exchanges : Exchanges inodeNum made later
  mode : (later.inode inodeNum).iMode = (made.inode inodeNum).iMode
  links : (later.inode inodeNum).iLinksCount = (made.inode inodeNum).iLinksCount
  tidy : Tidy (later.extents inodeNum)

section Growing

variable {reserved : Set Nat} {inodeNum : Nat} {made : Volume}
  (stores : made.view.Stores reserved inodeNum [])

include stores

theorem View.Stores.grown_refl : made.view.Grown reserved inodeNum made.view :=
  ⟨(FileStep.of_frame stores.mounted stores.isInode stores.owning stores.coherent rfl rfl
    (fun _ isHeld => isHeld) (fun _ _ => rfl) rfl rfl).1,
    Exchanges.of_same stores.owning rfl rfl, rfl, rfl, stores.tidy⟩

variable {before : Volume} (grown : made.view.Grown reserved inodeNum before.view)

include grown

theorem View.Grown.isFile : (before.view.inode inodeNum).isFile = true := by
  rw [(Ext4Inode.kind_congr grown.mode).1]
  exact stores.isFile

theorem View.Grown.of_write {offset : Nat} {buf : List UInt8} {count : Nat} {after : Volume}
    (ran : ((made.view.fs.handle inodeNum).writeAt offset buf).run before = .ok count after) :
    made.view.Grown reserved inodeNum after.view := by
  have mounted := grown.step.mounted stores.mounted stores.owning
  have isInode : before.view.fs.IsInode inodeNum := by
    rw [grown.step.fs]
    exact stores.isInode
  have isFile := grown.isFile stores
  rw [← grown.step.fs] at ran
  by_cases empty : buf = []
  · subst empty
    rw [view_writeAt_empty mounted isInode (Or.inl isFile)] at ran
    cases ran
    exact grown
  · rcases view_writeAt_blocks mounted isInode grown.step.owning grown.step.coherent
      (Or.inl isFile) empty (notInline_of_isFile isFile offset buf) with
      ⟨last, ended, wrote⟩ | ⟨_, _, ended, _⟩ | ⟨_, ended, _⟩
    · rw [ended] at ran
      cases ran
      exact ⟨grown.step.trans wrote.step, grown.exchanges.trans wrote.exchanges grown.step,
        wrote.mode.trans grown.mode, wrote.links.trans grown.links, wrote.tidy grown.tidy⟩
    · rw [ended] at ran
      cases ran
    · rw [ended] at ran
      cases ran

/-- Truncating gives back everything that the file owns. -/
theorem View.Grown.run_clear :
    ∃ after, (made.view.fs.handle inodeNum).clear.run before = .ok () after ∧
      made.view.Grown reserved inodeNum after.view ∧ after.view.owned inodeNum = [] := by
  have mounted := grown.step.mounted stores.mounted stores.owning
  have isInode : before.view.fs.IsInode inodeNum := by
    rw [grown.step.fs]
    exact stores.isInode
  obtain ⟨after, ran, afterView⟩ := view_clear mounted isInode grown.step.owning
    (grown.isFile stores)
  have empty := emptyRoot_resetExtentTree
    (((before.view.inode inodeNum).setSize 0).setIBlocksLo 0)
  obtain ⟨step, inodeEq, extentsEq, ownedEq, exchanges⟩ :=
    FileStep.of_reclaim mounted isInode empty
  rw [← afterView] at step inodeEq extentsEq ownedEq exchanges
  rw [grown.step.fs] at ran
  refine ⟨after, ran, ⟨grown.step.trans step,
    grown.exchanges.trans (exchanges grown.tidy) grown.step, ?_, ?_, ?_⟩, ownedEq⟩
  · rw [inodeEq]
    exact (field_truncated _ (by decide) (by decide) (by decide)).trans grown.mode
  · rw [inodeEq]
    exact (field_truncated _ (by decide) (by decide) (by decide)).trans grown.links
  · rw [extentsEq]
    exact Tidy.nil

end Growing

theorem WriteRun.grown {reserved : Set Nat} {inodeNum : Nat} {made later : Volume}
    (stores : made.view.Stores reserved inodeNum [])
    (run : WriteRun (made.view.fs.handle inodeNum) made later) :
    made.view.Grown reserved inodeNum later.view := by
  induction run with
  | start => exact stores.grown_refl
  | write offset buf run ran ih => exact ih.of_write stores ran
  | clear run ran ih =>
      obtain ⟨after, cleared, grown, _⟩ := ih.run_clear stores
      rw [ran] at cleared
      cases cleared
      exact grown

/-- A file without blocks leaves the blocks in use that were so when it was made. -/
theorem View.Grown.held_eq {reserved : Set Nat} {inodeNum : Nat} {made later : View}
    (grown : made.Grown reserved inodeNum later) (none : made.owned inodeNum = [])
    (empty : later.owned inodeNum = []) : later.held .block = made.held .block := by
  ext blockId
  rw [grown.exchanges blockId, none, empty]
  simp

section Discarding

variable {inodeNum : Nat} {view : View}

theorem View.heldInode_discard :
    (view.discard inodeNum).held .inode = view.held .inode \ {inodeNum} := by
  simp [View.discard, View.release, View.forget, View.putInode, View.put, View.releaseBlocks]

theorem View.mem_held_discard (tidy : Tidy (view.extents inodeNum)) {blockId : Nat} :
    blockId ∈ (view.discard inodeNum).held .block ↔
      blockId ∈ view.held .block ∧ blockId ∉ view.owned inodeNum := by
  rw [View.owned, ← freedBlocks_of_short tidy.short]
  simp [View.discard, View.release, View.forget, View.putInode, View.put, View.releaseBlocks]

end Discarding

/-- Dropping the only link of an inode gives back its blocks and its number. -/
theorem run_dropEntry_last {reserved : Set Nat} {volume : Volume}
    (mounted : volume.view.Mounted reserved) {child : Nat}
    (isChild : volume.view.fs.IsInode child) (owning : volume.view.Owning reserved child)
    (coherent : volume.view.Coherent child) (tidy : Tidy (volume.view.extents child))
    (links : (volume.view.inode child).iLinksCount = 1) (self : Inode) (name : Str) :
    ∃ after, (dropEntry self (volume.view.fs.handle child) name).run volume = .ok () after ∧
      after.view.held .inode = volume.view.held .inode \ {child} ∧
      ∀ blockId, blockId ∈ after.view.held .block ↔
        blockId ∈ volume.view.held .block ∧ blockId ∉ volume.view.owned child := by
  obtain ⟨dropped, ran, droppedView⟩ := view_modifyDiskInode mounted.layout mounted.geometry
    isChild fun inode =>
      if inode.iLinksCount > 0 then inode.setILinksCount (inode.iLinksCount - 1) else inode
  rw [links, if_pos (by decide)] at droppedView
  obtain ⟨step, inodeEq, extentsEq, ownedEq⟩ := FileStep.of_putInode mounted isChild owning
    coherent (Ext4Inode.blockData_setField (volume.view.inode child) .iLinksCount (1 - 1))
    (Ext4Inode.usesExtents_congr (Ext4Inode.field_setField_of_ne _ _ (by decide)))
  rw [← droppedView] at step inodeEq extentsEq ownedEq
  have droppedMounted := step.mounted mounted owning
  have isDropped : dropped.view.fs.IsInode child := by
    rw [step.fs]
    exact isChild
  have read := view_readDiskInode droppedMounted.layout droppedMounted.geometry isDropped
  have noLinks : (dropped.view.inode child).iLinksCount = 0 := by
    rw [inodeEq]
    exact Ext4Inode.field_setField_same _ _ _
  obtain ⟨reclaimed, reclaimedRan, reclaimedView⟩ := view_reclaimInode droppedMounted isDropped
    step.owning
  obtain ⟨cache, updated⟩ := run_dirIndexCacheUpdate reclaimed self.inodeNum (·.erase name)
  rw [step.fs] at read reclaimedRan
  have linkRan : (volume.view.fs.handle child).dropLink.run volume = .ok () reclaimed := by
    rw [Inode.dropLink, run_bind_ok ran, run_bind_ok read, if_pos noLinks]
    exact reclaimedRan
  have sameHeld : dropped.view.held = volume.view.held := by
    rw [droppedView]
    rfl
  refine ⟨_, (run_bind_ok linkRan).trans updated, ?_, ?_⟩
  · show reclaimed.view.held .inode = _
    rw [reclaimedView, View.heldInode_discard, sameHeld]
  · intro blockId
    show blockId ∈ reclaimed.view.held .block ↔ _
    rw [reclaimedView, View.mem_held_discard (by rw [extentsEq]; exact tidy), sameHeld, ownedEq]

/-- The directory binds both of its dots. -/
def View.BindsDots (view : View) (dir : Nat) : Prop :=
  ((view.dirIndex dir)[Str.dot]?).isSome = true ∧ ((view.dirIndex dir)[Str.dotDot]?).isSome = true

theorem Enters.proper {view : View} {dir : Nat} {name : Str} (enters : Enters view dir name)
    (dots : view.BindsDots dir) : name ≠ .dot ∧ name ≠ .dotDot := by
  constructor
  · rintro rfl
    exact absurd dots.1 (by rw [enters.absent]; decide)
  · rintro rfl
    exact absurd dots.2 (by rw [enters.absent]; decide)

theorem Ext4Inode.not_isDir_of_isFile {inode : Ext4Inode} (isFile : inode.isFile = true) :
    inode.isDir = false := by
  simp only [Ext4Inode.isFile, beq_iff_eq] at isFile
  simp only [Ext4Inode.isDir, isFile]
  decide

section Unlinking

variable {reserved : Set Nat} {dir inodeNum : Nat} {made later : Volume}
  {blocks : List (List Dirent)} (stores : made.view.Stores reserved inodeNum [])
  (wellFormed : made.view.WellFormed reserved dir blocks) (different : dir ≠ inodeNum)
  (nothing : made.view.owned inodeNum = [])
  (grown : made.view.Grown reserved inodeNum later.view)
  {name : Str} (proper : name ≠ .dot ∧ name ≠ .dotDot) {fileType : UInt8}
  (isEntry : ⟨name, inodeNum, fileType⟩ ∈ made.view.entries dir)

include stores wellFormed different nothing grown proper isEntry

/-- Removing the only name of a file that has grown. -/
theorem View.Grown.run_unlink (links : (made.view.inode inodeNum).iLinksCount = 1) :
    ∃ after, ((made.view.fs.handle dir).unlink name).run later = .ok () after ∧
      after.view.held .block = made.view.held .block ∧
      after.view.held .inode = made.view.held .inode \ {inodeNum} := by
  have disjoint : List.Disjoint (made.view.owned dir) (made.view.owned inodeNum) := by
    rw [nothing]
    exact List.disjoint_nil_right _
  have mounted := grown.step.mounted stores.mounted stores.owning
  have laterFormed := wellFormed.of_fileStep_other grown.step different disjoint grown.mode
  have unchanged := grown.step.unchanged wellFormed.isInode different wellFormed.owning disjoint
  have laterDisjoint : List.Disjoint (later.view.owned inodeNum) (later.view.owned dir) := by
    rw [unchanged.owned_eq]
    exact (grown.step.disjoint wellFormed.owning disjoint).symm
  have isChild : later.view.fs.IsInode inodeNum := by
    rw [grown.step.fs]
    exact stores.isInode
  have isFile := grown.isFile stores
  have found : (later.view.dirIndex dir)[name]? = some (inodeNum, fileType) := by
    rw [laterFormed.indexed, unchanged.entries_eq]
    exact isEntry
  obtain ⟨warm, item, removed, warmed, _, sameHeld, removes, ran⟩ :=
    run_unlink_other mounted laterFormed proper found (Ext4Inode.not_isDir_of_isFile isFile)
  have warmMounted := warmed.mounted mounted
  have warmFile := warmed.unchanged inodeNum
  have warmOwning := warmFile.owning grown.step.owning
  have warmDisjoint : List.Disjoint (warm.view.owned inodeNum) (warm.view.owned dir) := by
    rw [warmFile.owned_eq, (warmed.unchanged dir).owned_eq]
    exact laterDisjoint
  have removedFs := removes.step.fs.trans warmed.fs_eq
  have removedFile := warmFile.trans (removes.step.unchanged
    (by rw [warmed.fs_eq]; exact isChild) different.symm warmOwning warmDisjoint)
  have coherent : removed.view.Coherent inodeNum := by
    intro extents cached
    rw [removedFile.extents_eq, ← warmFile.extents_eq]
    exact warmed.coherent grown.step.coherent extents
      (removes.step.extentsCache inodeNum different.symm extents cached)
  obtain ⟨after, dropped, heldInodes, heldBlocks⟩ := run_dropEntry_last
    (removes.step.mounted warmMounted (warmed.directory laterFormed.toDirectory).owning)
    (by rw [removedFs]; exact isChild) (removedFile.owning grown.step.owning) coherent
    (by rw [removedFile.extents_eq]; exact grown.tidy)
    (by rw [removedFile.inode, grown.links]; exact links) (later.view.fs.handle dir) name
  rw [removedFs] at dropped
  rw [grown.step.fs] at ran dropped
  refine ⟨after, ran.trans dropped, ?_, ?_⟩
  · ext blockId
    -- What the file owns at the end was free when it was made.
    rw [heldBlocks, removedFile.owned_eq, sameHeld, warmed.held_eq, grown.exchanges blockId, nothing]
    constructor
    · rintro ⟨⟨isHeld, _⟩ | isOwned, notOwned⟩
      · exact isHeld
      · exact absurd isOwned notOwned
    · intro isHeld
      refine ⟨Or.inl ⟨isHeld, List.not_mem_nil⟩, ?_⟩
      intro isOwned
      rcases grown.step.owned blockId isOwned with wasOwned | wasFree
      · rw [nothing] at wasOwned
        cases wasOwned
      · exact wasFree isHeld
  · rw [heldInodes, sameHeld, warmed.held_eq, grown.step.heldInodes]

end Unlinking

/-- A new file whose writes have all returned gives back every block that they took. -/
theorem file_givesBackAll {reserved : Set Nat} {dir : Nat} {volume : Volume}
    {blocks : List (List Dirent)} (mounted : volume.view.Mounted reserved)
    (wellFormed : volume.view.WellFormed reserved dir blocks)
    (dots : volume.view.BindsDots dir) {name : Str} {file : Inode} {made later : Volume}
    (created : ((volume.view.fs.handle dir).createFile name).run volume = .ok file made)
    (run : WriteRun file made later) :
    GivesBackAll (volume.view.fs.handle dir) name file made later := by
  obtain ⟨enters, inodeNum, prepared, added, rfl, parts⟩ :=
    created_createFile mounted wellFormed.toDirectory created
  obtain ⟨madeFs, isMade⟩ := parts.made mounted wellFormed.toDirectory enters
  have typed : emptyFile.Typed := by
    rw [Ext4Inode.Typed]
    decide
  obtain ⟨changed, madeFormed, mem⟩ := parts.directory_wellFormed mounted wellFormed enters typed
  have different := parts.state.different wellFormed.toDirectory
  have nothing := isMade.owned_eq.2
  have links : (made.view.inode inodeNum).iLinksCount = 1 := by
    rw [isMade.inode_eq]
    decide
  rw [← madeFs] at run ⊢
  have grown := run.grown isMade.stores
  obtain ⟨cleared, clearRan, clearGrown, empty⟩ := grown.run_clear isMade.stores
  obtain ⟨unlinked, unlinkRan, blocksEq, inodesEq⟩ := grown.run_unlink isMade.stores madeFormed
    different nothing (enters.proper dots) ((mem _).mpr (Or.inl rfl)) links
  exact ⟨⟨cleared, clearRan, clearGrown.held_eq nothing empty⟩,
    ⟨unlinked, unlinkRan, blocksEq, inodesEq⟩⟩

theorem wellFormed_rootVolume {bitmap : Block} (inUse : bitmap.testBit 20 = true) :
    (rootVolume bitmap).view.WellFormed {block | block ≤ 5} 2 [rootSlots] := by
  have holds := holds_rootVolume inUse
  have notCached : (rootVolume bitmap).view.dirIndexCache[2]? = none := by
    simp [rootVolume, Volume.view]
  have distinct : ((contents [rootSlots]).map Prod.fst).Nodup := by
    have names : (contents [rootSlots]).map Prod.fst = [[0x2E], [0x2E, 0x2E]] := rfl
    rw [names]
    decide
  have rootTyped : ((rootVolume bitmap).view.inode 2).Typed := by
    rw [inode_rootVolume, Ext4Inode.Typed]
    decide
  refine ⟨holds, distinct, holds.indexed_of_built distinct notCached, ?_, ?_⟩
  · rw [entries_rootVolume]
    intro binding isEntry
    simp only [List.mem_cons, List.not_mem_nil, or_false] at isEntry
    rcases isEntry with rfl | rfl
    · exact ⟨holds.isInode, rootTyped⟩
    · exact ⟨holds.isInode, rootTyped⟩
  · rw [entries_rootVolume]
    intro binding isEntry notDot notDotDot
    simp only [List.mem_cons, List.not_mem_nil, or_false] at isEntry
    rcases isEntry with rfl | rfl
    · exact absurd rfl notDot
    · exact absurd rfl notDotDot

theorem bindsDots_roomy : (rootVolume roomyBitmap).view.BindsDots 2 := by
  have wellFormed := @wellFormed_rootVolume roomyBitmap (by decide)
  constructor
  · rw [Option.isSome_iff_exists]
    refine ⟨(2, Ext4DirEntry.ftDir), (wellFormed.indexed _ _ _).mpr ?_⟩
    rw [entries_rootVolume]
    exact List.mem_cons_self
  · rw [Option.isSome_iff_exists]
    refine ⟨(2, Ext4DirEntry.ftDir), (wellFormed.indexed _ _ _).mpr ?_⟩
    rw [entries_rootVolume]
    exact List.mem_cons_of_mem _ List.mem_cons_self

theorem file_givesBackAll_roomy :
    ∃ file made later count,
      (((rootVolume roomyBitmap).view.fs.handle 2).createFile letterA).run
        (rootVolume roomyBitmap) = .ok file made ∧
      (file.writeAt 1 [7]).run made = .ok count later ∧
      GivesBackAll ((rootVolume roomyBitmap).view.fs.handle 2) letterA file made later := by
  have size : ((sizeAfterWrite ((rootVolume roomyBitmap).view.fs.handle 2) letterA 1 [7]).run
      (rootVolume roomyBitmap)).value? = some 2 := by decide +kernel
  obtain ⟨file, made, count, later, _, created, wrote, _⟩ := of_sizeAfterWrite size
  have run : WriteRun file made later := WriteRun.start.write 1 [7] wrote
  exact ⟨file, made, later, count, created, wrote, file_givesBackAll mounted_roomy
    (wellFormed_rootVolume (by decide)) bindsDots_roomy created run⟩

end Ext4

end OSWorkspace
