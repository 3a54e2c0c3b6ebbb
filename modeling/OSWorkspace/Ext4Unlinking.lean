import OSWorkspace.Ext4Renames

/-!
# Removing directories

A directory is removed when its listing is empty.  The listing shows only names
that are well-formed text, so this file compares it with the live records.
-/

namespace OSWorkspace

namespace Ext4

open Exec View

/-- Only the caches differ: they lost values or were filled with those of the
disk. -/
structure Warmed (volume after : Volume) : Prop where
  state : after = { volume with
    extentsCache := after.extentsCache, dirIndexCache := after.dirIndexCache }
  extents : ∀ inodeNum extents, after.extentsCache[inodeNum]? = some extents →
    volume.extentsCache[inodeNum]? = some extents ∨ extents = volume.view.extents inodeNum
  index : ∀ inodeNum index, after.dirIndexCache[inodeNum]? = some index →
    volume.dirIndexCache[inodeNum]? = some index ∨
      index = (volume.view.entries inodeNum).foldl Inode.insertBinding ∅

namespace Warmed

variable {volume after last : Volume}

theorem view_eq (warmed : Warmed volume after) : after.view = { volume.view with
    extentsCache := after.extentsCache, dirIndexCache := after.dirIndexCache } := by
  conv_lhs => rw [warmed.state]
  rfl

theorem unchanged (warmed : Warmed volume after) (inodeNum : Nat) :
    Unchanged volume.view after.view inodeNum := by
  rw [warmed.view_eq]
  exact ⟨rfl, fun _ _ => rfl, fun _ _ isHeld => isHeld⟩

theorem extents_eq (warmed : Warmed volume after) (inodeNum : Nat) :
    after.view.extents inodeNum = volume.view.extents inodeNum :=
  (warmed.unchanged inodeNum).extents_eq

theorem trans (first : Warmed volume after) (second : Warmed after last) :
    Warmed volume last := by
  refine ⟨?_, ?_, ?_⟩
  · rw [second.state, first.state]
  · intro inodeNum extents found
    rcases second.extents inodeNum extents found with was | built
    · exact first.extents inodeNum extents was
    · exact Or.inr (built.trans (first.extents_eq inodeNum))
  · intro inodeNum index found
    rcases second.index inodeNum index found with was | built
    · exact first.index inodeNum index was
    · exact Or.inr (by rw [built, (first.unchanged inodeNum).entries_eq])

theorem coherent (warmed : Warmed volume after) {inodeNum : Nat}
    (coherent : volume.view.Coherent inodeNum) : after.view.Coherent inodeNum := by
  intro extents found
  rw [warmed.extents_eq]
  rcases warmed.extents inodeNum extents found with was | built
  · exact coherent extents was
  · exact built

theorem fs_eq (warmed : Warmed volume after) : after.view.fs = volume.view.fs := by
  rw [warmed.view_eq]

theorem held_eq (warmed : Warmed volume after) : after.view.held = volume.view.held := by
  rw [warmed.view_eq]

theorem data_eq (warmed : Warmed volume after) : after.view.data = volume.view.data := by
  rw [warmed.view_eq]

theorem inode_eq (warmed : Warmed volume after) (inodeNum : Nat) :
    after.view.inode inodeNum = volume.view.inode inodeNum :=
  (warmed.unchanged inodeNum).inode

theorem mounted {reserved : Set Nat} (warmed : Warmed volume after)
    (mounted : volume.view.Mounted reserved) : after.view.Mounted reserved := by
  rw [warmed.view_eq]
  exact ⟨mounted.geometry, mounted.small, mounted.layout, mounted.reserved⟩

theorem directory {reserved : Set Nat} (warmed : Warmed volume after) {dir : Nat}
    (directory : volume.view.Directory reserved dir) : after.view.Directory reserved dir := by
  have unchanged := warmed.unchanged dir
  refine ⟨by rw [warmed.fs_eq]; exact directory.isInode, by rw [warmed.held_eq]; exact directory.inUse,
    unchanged.owning directory.owning, warmed.coherent directory.coherent,
    by rw [unchanged.inode]; exact directory.isDir,
    by rw [unchanged.inode]; exact directory.usesExtents,
    by rw [warmed.extents_eq]; exact directory.ordered,
    by rw [warmed.extents_eq]; exact directory.bounded,
    by rw [warmed.extents_eq, unchanged.inode]; exact directory.mapped, ?_⟩
  intro name inodeNum fileType found
  cases cached : after.dirIndexCache[dir]? with
  | none => exact numbers_of_built cached name inodeNum fileType found
  | some index =>
      have foundHere : index[name]? = some (inodeNum, fileType) := by
        rw [View.dirIndex, show after.view.dirIndexCache[dir]? = some index from cached] at found
        exact found
      rcases warmed.index dir index cached with was | built
      · apply directory.numbers name inodeNum fileType
        rw [View.dirIndex, show volume.view.dirIndexCache[dir]? = some index from was]
        exact foundHere
      · rw [built] at foundHere
        exact inodeNum_lt_of_entries ((mem_of_getElem?_foldl foundHere).resolve_left (by simp))

theorem holds {reserved : Set Nat} (warmed : Warmed volume after) {dir : Nat}
    {blocks : List (List Dirent)} (holds : volume.view.Holds reserved dir blocks) :
    after.view.Holds reserved dir blocks :=
  holds.of_unchanged (warmed.directory holds.toDirectory) (warmed.unchanged dir)

end Warmed

theorem Consulted.warmed {dir : Nat} {volume after : Volume}
    (consulted : Consulted dir volume after) : Warmed volume after := by
  have sameExtents : after.view.extents dir = volume.view.extents dir := by
    have viewEq : after.view = { volume.view with
        extentsCache := after.extentsCache, dirIndexCache := after.dirIndexCache } := by
      conv_lhs => rw [consulted.state]
      rfl
    rw [viewEq]
    rfl
  refine ⟨consulted.state, ?_, ?_⟩
  · intro inodeNum extents found
    by_cases same : inodeNum = dir
    · subst same
      exact Or.inr ((consulted.coherent extents found).trans sameExtents)
    · exact Or.inl (consulted.shrinks inodeNum same extents found)
  · intro inodeNum index found
    by_cases same : inodeNum = dir
    · subst same
      rw [consulted.index, View.dirIndex] at found
      cases cached : volume.view.dirIndexCache[inodeNum]? with
      | none =>
          rw [cached] at found
          cases found
          exact Or.inr rfl
      | some value =>
          rw [cached] at found
          cases found
          exact Or.inl cached
    · exact Or.inl (consulted.indexShrinks inodeNum same index found)

theorem Reread.warmed {inodeNum : Nat} {volume after : Volume}
    (reread : Reread inodeNum volume after) : Warmed volume after := by
  have sameIndexes : after.dirIndexCache = volume.dirIndexCache := by rw [reread.state]
  refine ⟨?_, ?_, ?_⟩
  · conv_lhs => rw [reread.state]
    rw [sameIndexes]
  · intro other extents found
    by_cases same : other = inodeNum
    · subst same
      exact Or.inr ((reread.coherent extents found).trans (reread.unchanged other).extents_eq)
    · exact Or.inl (reread.shrinks other same extents found)
  · intro other index found
    rw [sameIndexes] at found
    exact Or.inl found

/-- The state after the blocks and the number of an inode were given back. -/
def View.discard (view : View) (inodeNum : Nat) : View :=
  (((view.releaseBlocks (freedBlocks (view.extents inodeNum) ++ view.tree inodeNum)).putInode
      inodeNum ((((view.inode inodeNum).setSize 0).setIBlocksLo 0).setILinksCount
        0).resetExtentTree).forget inodeNum).release .inode inodeNum

theorem view_reclaimInode {reserved : Set Nat} {volume : Volume}
    (mounted : volume.view.Mounted reserved) {inodeNum : Nat}
    (isInode : volume.view.fs.IsInode inodeNum)
    (owning : volume.view.Owning reserved inodeNum) :
    ∃ after, (volume.view.fs.handle inodeNum).reclaim.run volume = .ok () after ∧
      after.view = volume.view.discard inodeNum := by
  obtain ⟨freed, freedRan, freedView⟩ := view_freeAllBlocks mounted isInode owning
  have freedFs : freed.view.fs = volume.view.fs := by rw [freedView]; rfl
  have freedInode : freed.view.inode inodeNum = volume.view.inode inodeNum := by
    rw [freedView]
    rfl
  obtain ⟨changed, changedRan, changedView⟩ := @view_modifyDiskInode freed reserved
    (by rw [freedFs]; exact mounted.layout) (by rw [freedFs]; exact mounted.geometry) inodeNum
    (by rw [freedFs]; exact isInode) fun inode =>
      (((inode.setSize 0).setIBlocksLo 0).setILinksCount 0).resetExtentTree
  rw [freedFs] at changedRan
  obtain ⟨forgotten, forgottenRan, _, _, forgottenView⟩ := run_inodeCachesInvalidate changed inodeNum
  have forgottenFs : forgotten.view.fs = volume.view.fs := by
    rw [forgottenView, changedView]
    exact freedFs
  obtain ⟨after, ran, afterView⟩ := @view_deallocInode forgotten
    (by rw [forgottenFs]; exact mounted.geometry) inodeNum
    (View.isInode_iff.mpr (by rw [forgottenFs]; exact isInode))
  refine ⟨after, ?_, ?_⟩
  · rw [Inode.reclaim, run_bind_ok freedRan, run_bind_ok changedRan]
    exact (run_bind_ok forgottenRan).trans ran
  · rw [afterView, forgottenView, changedView, freedInode, freedView]
    rfl

/-- The end of the removal of a directory, behind the removal of its entry. -/
def dropDirectory (self child : Inode) (name : Str) : Call Unit := do
  self.modifyDiskInode fun inode => inode.setILinksCount (inode.iLinksCount - 1)
  child.reclaim
  dirIndexCacheUpdate self.inodeNum (·.erase name)

/-- The end of the removal of another inode. -/
def dropEntry (self child : Inode) (name : Str) : Call Unit := do
  child.dropLink
  dirIndexCacheUpdate self.inodeNum (·.erase name)

/-- The kind of an inode. -/
theorem run_isDir_of_warmed {reserved : Set Nat} {volume warm : Volume}
    (mounted : volume.view.Mounted reserved) (warmed : Warmed volume warm) {child : Nat}
    (isChild : volume.view.fs.IsInode child) :
    (volume.view.fs.handle child).isDir.run warm = .ok (volume.view.inode child).isDir warm := by
  have warmMounted := warmed.mounted mounted
  have read := @view_readDiskInode warm reserved warmMounted.layout warmMounted.geometry child
    (by rw [warmed.fs_eq]; exact isChild)
  rw [warmed.fs_eq, warmed.inode_eq] at read
  rw [Inode.isDir, run_bind_ok read, run_pure]

section Unlinking

variable {reserved : Set Nat} {dir : Nat} {volume : Volume} {blocks : List (List Dirent)}
  (mounted : volume.view.Mounted reserved) (wellFormed : volume.view.WellFormed reserved dir blocks)
  {name : Str} (proper : name ≠ .dot ∧ name ≠ .dotDot) {child : Nat} {fileType : UInt8}
  (found : (volume.view.dirIndex dir)[name]? = some (child, fileType))

include wellFormed found

theorem View.WellFormed.nonempty_of_found : name.isEmpty = false := by
  have isEntry := (wellFormed.indexed name child fileType).mp found
  obtain ⟨number, _, isItem⟩ := wellFormed.toHolds.mem_contents.mp isEntry
  obtain ⟨slot, _, contentEq⟩ := List.mem_filterMap.mp isItem
  obtain ⟨live, same⟩ := Dirent.content_eq_some.mp contentEq
  have sameName : name.bytes = slot.name := congrArg Prod.fst same
  simpa [Str.isEmpty, sameName] using live.2

include mounted

/-- The entry of a name that is bound can be removed. -/
theorem removed_of_found {warm : Volume} (warmed : Warmed volume warm) :
    ∃ item after, ((volume.view.fs.handle dir).dirRemoveEntry name).run warm =
        .ok item.2.1.toNat after ∧ item.1 = name.bytes ∧
      after.view.held = warm.view.held ∧
      Removed reserved dir warm.view after.view blocks item := by
  have isEntry := (wellFormed.indexed name child fileType).mp found
  obtain ⟨number, _, isItem⟩ := wellFormed.toHolds.mem_contents.mp isEntry
  have removal := removed_dirRemoveEntry (warmed.mounted mounted)
    (warmed.holds wellFormed.toHolds) name
  rw [warmed.fs_eq] at removal
  exact removal.resolve_left fun missing => missing.2 _ isItem rfl

include proper

/-- The lookup before a removal. -/
theorem run_unlink_found : ∃ warm, Warmed volume warm ∧
    ((volume.view.fs.handle dir).unlink name).run volume = (do
      if ← (volume.view.fs.handle child).isDir then
        if (← (volume.view.fs.handle child).ls) ≠ [] then
          throw .unsupported
        else
          let _ ← (volume.view.fs.handle dir).dirRemoveEntry name
          (volume.view.fs.handle dir).modifyDiskInode fun inode =>
            inode.setILinksCount (inode.iLinksCount - 1)
          (volume.view.fs.handle child).reclaim
      else
        let _ ← (volume.view.fs.handle dir).dirRemoveEntry name
        (volume.view.fs.handle child).dropLink
      dirIndexCacheUpdate (volume.view.fs.handle dir).inodeNum (·.erase name) :
        Call Unit).run warm := by
  have directory := wellFormed.toDirectory
  have nonempty := wellFormed.nonempty_of_found found
  obtain ⟨isChild, typed⟩ :=
    wellFormed.named _ ((wellFormed.indexed name child fileType).mp found)
  obtain ⟨warm, ran, consulted⟩ := run_find_typed mounted directory found isChild typed
  refine ⟨warm, consulted.warmed, ?_⟩
  rw [Inode.unlink, if_neg (by
    rintro (empty | isDot | isDot)
    · exact absurd (empty.symm.trans nonempty) (by decide)
    · exact proper.1 isDot
    · exact proper.2 isDot), run_bind_ok (run_isDir_dir mounted directory)]
  simp only [not_true_eq_false, if_false]
  rw [run_bind_ok ran, run_bind_ok (run_okOr_some _ _ _)]

/-- Removing the name of an inode that is no directory. -/
theorem run_unlink_other (notDir : (volume.view.inode child).isDir = false) :
    ∃ warm item removed, Warmed volume warm ∧ item.1 = name.bytes ∧
      removed.view.held = warm.view.held ∧
      Removed reserved dir warm.view removed.view blocks item ∧
      ((volume.view.fs.handle dir).unlink name).run volume =
        (dropEntry (volume.view.fs.handle dir) (volume.view.fs.handle child) name).run removed := by
  obtain ⟨warm, warmed, ran⟩ := run_unlink_found mounted wellFormed proper found
  have isChild := (wellFormed.named _ ((wellFormed.indexed name child fileType).mp found)).1
  have isDirRan := run_isDir_of_warmed mounted warmed isChild
  rw [notDir] at isDirRan
  obtain ⟨item, removed, removedRan, named, sameHeld, removes⟩ :=
    removed_of_found mounted wellFormed found warmed
  refine ⟨warm, item, removed, warmed, named, sameHeld, removes, ?_⟩
  rw [ran, run_bind_ok isDirRan]
  simp only [Bool.false_eq_true, if_false]
  rw [run_bind_ok removedRan]
  rfl

/-- The listing of a directory. -/
def listing (blocks : List (List Dirent)) : List Str :=
  ((blocks.flatten.filterMap Dirent.binding).map DirBinding.name).filter fun name =>
    name ≠ .dot ∧ name ≠ .dotDot

/-- Removing the name of a directory. -/
theorem run_unlink_directory {childBlocks : List (List Dirent)}
    (childHolds : volume.view.Holds reserved child childBlocks) :
    ∃ warm, Warmed volume warm ∧
      ((listing childBlocks ≠ [] ∧
          ((volume.view.fs.handle dir).unlink name).run volume = .err .unsupported warm) ∨
        (listing childBlocks = [] ∧ ∃ item removed, item.1 = name.bytes ∧
          Removed reserved dir warm.view removed.view blocks item ∧
          ((volume.view.fs.handle dir).unlink name).run volume =
            (dropDirectory (volume.view.fs.handle dir) (volume.view.fs.handle child) name).run
              removed)) := by
  obtain ⟨warm, warmed, ran⟩ := run_unlink_found mounted wellFormed proper found
  have isDirRan := run_isDir_of_warmed mounted warmed childHolds.isInode
  rw [childHolds.isDir] at isDirRan
  have warmHolds := warmed.holds childHolds
  obtain ⟨listed, entriesRan, reread⟩ := run_dirEntries (warmed.mounted mounted)
    warmHolds.toDirectory
  rw [warmed.fs_eq, warmHolds.entries_eq] at entriesRan
  have lsRan : (volume.view.fs.handle child).ls.run warm = .ok (listing childBlocks) listed :=
    run_bind_ok entriesRan
  have listedWarmed := warmed.trans reread.warmed
  refine ⟨listed, listedWarmed, ?_⟩
  rw [ran, run_bind_ok isDirRan]
  simp only [if_true]
  by_cases empty : listing childBlocks = []
  · obtain ⟨item, removed, removedRan, named, _, removes⟩ :=
      removed_of_found mounted wellFormed found listedWarmed
    refine Or.inr ⟨empty, item, removed, named, removes, ?_⟩
    rw [run_bind_ok lsRan]
    simp only [empty, ne_eq, not_true_eq_false, if_false]
    rw [run_bind_ok removedRan]
    rfl
  · refine Or.inl ⟨empty, ?_⟩
    rw [run_bind_ok lsRan]
    simp only [ne_eq, empty, not_false_eq_true, if_true]
    rfl

end Unlinking

/-- A live record with a name other than the dots. -/
def Dirent.Occupies (slot : Dirent) : Prop :=
  slot.inode ≠ 0 ∧ slot.name ≠ Str.dot.bytes ∧ slot.name ≠ Str.dotDot.bytes

/-- The two directories and the bitmaps are the same. -/
structure LeavesDirectories (dir child : Nat) (view after : View) : Prop where
  parent : LeavesBytes dir view after
  child : LeavesBytes child view after
  inodes : after.held .inode = view.held .inode
  blocks : after.held .block = view.held .block

/-- A directory with a live record is not removed. -/
def RemovesOnlyEmpty (volume : Volume) (dir child : Nat) (childBlocks : List (List Dirent))
    (name : Str) : Prop :=
  (∃ slot ∈ childBlocks.flatten, slot.Occupies) →
    ∃ error after, ((volume.view.fs.handle dir).unlink name).run volume = .err error after ∧
      LeavesDirectories dir child volume.view after.view

/-- Some record with a name other than the dots is live and shown by the listing:
its name is not empty and is well-formed text. -/
def Shown (blocks : List (List Dirent)) : Prop :=
  ∃ slot ∈ blocks.flatten, slot.Occupies ∧ slot.name ≠ [] ∧ validUtf8 slot.name = true

theorem listing_ne_nil_iff (blocks : List (List Dirent)) : listing blocks ≠ [] ↔ Shown blocks := by
  rw [← List.length_pos_iff, List.length_pos_iff_exists_mem]
  constructor
  · rintro ⟨name, isShown⟩
    obtain ⟨isName, other⟩ := List.mem_filter.mp isShown
    obtain ⟨binding, isBinding, rfl⟩ := List.mem_map.mp isName
    obtain ⟨slot, isSlot, bound⟩ := List.mem_filterMap.mp isBinding
    obtain ⟨item, contentEq, decoded⟩ := Option.bind_eq_some_iff.mp bound
    obtain ⟨live, rfl⟩ := Dirent.content_eq_some.mp contentEq
    obtain ⟨text, textEq, rfl⟩ := Option.map_eq_some_iff.mp decoded
    have sameBytes : text.bytes = slot.name := Str.bytes_of_fromUtf8 textEq
    have notDots : text ≠ .dot ∧ text ≠ .dotDot := of_decide_eq_true other
    refine ⟨slot, isSlot, ⟨live.1, ?_, ?_⟩, live.2, by rw [← sameBytes]; exact text.valid⟩
    · intro isDot
      exact notDots.1 (Str.bytes_injective (sameBytes.trans isDot))
    · intro isDot
      exact notDots.2 (Str.bytes_injective (sameBytes.trans isDot))
  · rintro ⟨slot, isSlot, ⟨live, notDot, notDotDot⟩, nonempty, valid⟩
    refine ⟨⟨slot.name, valid⟩, List.mem_filter.mpr ⟨List.mem_map.mpr
      ⟨⟨⟨slot.name, valid⟩, slot.inode.toNat, slot.fileType⟩, ?_, rfl⟩, ?_⟩⟩
    · refine List.mem_filterMap.mpr ⟨slot, isSlot, ?_⟩
      rw [Dirent.binding, Dirent.content_eq_some.mpr ⟨⟨live, nonempty⟩, rfl⟩]
      simp [Str.fromUtf8, valid]
    · apply decide_eq_true
      exact ⟨fun isDot => notDot (congrArg Str.bytes isDot),
        fun isDot => notDotDot (congrArg Str.bytes isDot)⟩

theorem Warmed.leavesBytes {volume after : Volume} (warmed : Warmed volume after) (dir : Nat) :
    LeavesBytes dir volume.view after.view :=
  ⟨fun _ _ => by rw [warmed.data_eq], warmed.inode_eq dir, (warmed.unchanged dir).entries_eq,
    by rw [warmed.held_eq]⟩

section Removing

variable {reserved : Set Nat} {dir : Nat} {volume : Volume} {blocks : List (List Dirent)}
  (mounted : volume.view.Mounted reserved)
  {child : Nat} (different : child ≠ dir)

include mounted different

/-- The parent loses a link, and the directory is given back. -/
theorem run_dropDirectory (holds : volume.view.Holds reserved dir blocks)
    (isChild : volume.view.fs.IsInode child) (owning : volume.view.Owning reserved child)
    (disjoint : List.Disjoint (volume.view.owned child) (volume.view.owned dir)) (name : Str) :
    ∃ after, (dropDirectory (volume.view.fs.handle dir) (volume.view.fs.handle child) name).run
      volume = .ok () after := by
  obtain ⟨changed, changedRan, changedView⟩ := view_modifyDiskInode mounted.layout
    mounted.geometry holds.isInode fun inode => inode.setILinksCount (inode.iLinksCount - 1)
  obtain ⟨step, _⟩ := FileStep.of_putInode mounted holds.isInode holds.owning holds.coherent
    (Ext4Inode.blockData_setField (volume.view.inode dir) .iLinksCount
      ((volume.view.inode dir).iLinksCount - 1))
    (Ext4Inode.usesExtents_congr (Ext4Inode.field_setField_of_ne _ _ (by decide)))
  rw [← changedView] at step
  have changedMounted := step.mounted mounted holds.owning
  have unchanged := step.unchanged isChild different owning disjoint
  obtain ⟨reclaimed, reclaimedRan, _⟩ := @view_reclaimInode reserved changed changedMounted child
    (by rw [step.fs]; exact isChild) (unchanged.owning owning)
  rw [step.fs] at reclaimedRan
  obtain ⟨cache, updated⟩ := run_dirIndexCacheUpdate reclaimed dir (·.erase name)
  exact ⟨_, (run_bind_ok changedRan).trans ((run_bind_ok reclaimedRan).trans updated)⟩

variable (wellFormed : volume.view.WellFormed reserved dir blocks) {name : Str}
  (proper : name ≠ .dot ∧ name ≠ .dotDot) {fileType : UInt8}
  (found : (volume.view.dirIndex dir)[name]? = some (child, fileType))
  {childBlocks : List (List Dirent)} (childHolds : volume.view.Holds reserved child childBlocks)
  (disjoint : List.Disjoint (volume.view.owned child) (volume.view.owned dir))

include wellFormed proper found childHolds disjoint

/-- The removal of a directory is decided by its listing. -/
theorem unlink_directory_outcome :
    (Shown childBlocks ∧ ∃ after, ((volume.view.fs.handle dir).unlink name).run volume =
        .err .unsupported after ∧ Warmed volume after) ∨
      (¬ Shown childBlocks ∧ ∃ after, ((volume.view.fs.handle dir).unlink name).run volume =
        .ok () after) := by
  obtain ⟨warm, warmed, outcome⟩ := run_unlink_directory mounted wellFormed proper found childHolds
  rw [listing_ne_nil_iff] at outcome
  rcases outcome with ⟨shown, failed⟩ | ⟨empty, item, removed, _, removes, ran⟩
  · exact Or.inl ⟨shown, warm, failed, warmed⟩
  · have notShown : ¬ Shown childBlocks := by
      rw [← listing_ne_nil_iff, empty]
      exact fun nonempty => nonempty rfl
    have warmMounted := warmed.mounted mounted
    have warmHolds := warmed.holds wellFormed.toHolds
    have warmChild := warmed.holds childHolds
    have warmDisjoint : List.Disjoint (warm.view.owned child) (warm.view.owned dir) := by
      rw [(warmed.unchanged child).owned_eq, (warmed.unchanged dir).owned_eq]
      exact disjoint
    have unchanged := removes.step.unchanged warmChild.isInode different warmChild.owning
      warmDisjoint
    have removedFs : removed.view.fs = volume.view.fs := removes.step.fs.trans warmed.fs_eq
    obtain ⟨changed, removedHolds, _⟩ := removes.holds
    have removedDisjoint : List.Disjoint (removed.view.owned child) (removed.view.owned dir) := by
      rw [unchanged.owned_eq]
      exact removes.step.disjoint warmChild.owning warmDisjoint
    obtain ⟨after, finished⟩ := @run_dropDirectory reserved dir removed changed
      (removes.step.mounted warmMounted warmHolds.owning) child different removedHolds
      (by rw [removedFs]; exact childHolds.isInode) (unchanged.owning warmChild.owning)
      removedDisjoint name
    rw [removedFs] at finished
    exact Or.inr ⟨notShown, after, ran.trans finished⟩

/-- A directory with a live record is refused exactly when the listing shows one. -/
theorem removesOnlyEmpty_iff :
    RemovesOnlyEmpty volume dir child childBlocks name ↔
      ((∃ slot ∈ childBlocks.flatten, slot.Occupies) → Shown childBlocks) := by
  rcases unlink_directory_outcome mounted different wellFormed proper found childHolds disjoint
    with ⟨shown, after, failed, warmed⟩ | ⟨notShown, after, succeeds⟩
  · refine iff_of_true (fun _ => ⟨_, after, failed, ?_⟩) fun _ => shown
    exact ⟨warmed.leavesBytes dir, warmed.leavesBytes child, by rw [warmed.held_eq],
      by rw [warmed.held_eq]⟩
  · constructor
    · intro property occupied
      obtain ⟨error, last, failed, _⟩ := property occupied
      rw [succeeds] at failed
      cases failed
    · intro condition occupied
      exact absurd (condition occupied) notShown

end Removing

/-- A directory block with a live record whose name is no text. -/
def hiddenBlock : Block :=
  ((Block.putEntry (Block.putEntry .zeroed 0 12 11 Ext4DirEntry.ftDir .dot) 12 12 2
    Ext4DirEntry.ftDir .dotDot).store Ext4DirEntry.record 24
      { inode := 12, recLen := 4072, nameLen := 1, fileType := Ext4DirEntry.ftRegFile }).write 32
    [0xFF]

def hiddenSlots : List Dirent :=
  [⟨11, 12, Ext4DirEntry.ftDir, [0x2E]⟩, ⟨2, 12, Ext4DirEntry.ftDir, [0x2E, 0x2E]⟩,
    ⟨12, blockSz - 24, Ext4DirEntry.ftRegFile, [0xFF]⟩]

/-- The full volume with a directory `a` in block 21. -/
def hiddenVolume : Volume :=
  (entryVolume Ext4DirEntry.ftDir (Inode.dirInode 21)).putBlock 21 hiddenBlock

theorem tiled_hiddenBlock : Tiled hiddenBlock 0 hiddenSlots blockSz :=
  ⟨⟨by decide, by decide, by decide⟩, ⟨by decide, by decide⟩,
    ⟨by decide, by decide, by decide⟩, ⟨by decide, by decide⟩,
    ⟨by decide, by decide, by decide⟩, ⟨by decide, by decide⟩, rfl⟩

theorem tiled_directory : Tiled (entryBlock Ext4DirEntry.ftDir) 0
    (entrySlots Ext4DirEntry.ftDir) blockSz :=
  ⟨⟨by decide, by decide, by decide⟩, ⟨by decide, by decide⟩,
    ⟨by decide, by decide, by decide⟩, ⟨by decide, by decide⟩,
    ⟨by decide, by decide, by decide⟩, ⟨by decide +kernel, by decide +kernel⟩, rfl⟩

theorem view_hiddenVolume : hiddenVolume.view =
    (entryVolume Ext4DirEntry.ftDir (Inode.dirInode 21)).view.put 21 hiddenBlock :=
  Volume.view_putBlock (Volume.geometry_view.mp mounted_entryVolume.geometry)
    (by decide : ¬ smallFileSystem.IsBitmap 21) hiddenBlock

theorem mounted_hidden : hiddenVolume.view.Mounted {block | block ≤ 5} := by
  have mounted := @mounted_entryVolume Ext4DirEntry.ftDir (Inode.dirInode 21)
  rw [view_hiddenVolume]
  exact ⟨mounted.geometry, mounted.small, mounted.layout, mounted.reserved⟩

theorem inode_hidden (inodeNum : Nat)
    (apart : (smallFileSystem.shape.handle inodeNum).blockId ≠ 21) :
    hiddenVolume.view.inode inodeNum =
      (entryVolume Ext4DirEntry.ftDir (Inode.dirInode 21)).view.inode inodeNum := by
  rw [view_hiddenVolume, View.inode, View.inode]
  have sameBlock := @View.data_put_of_ne (entryVolume Ext4DirEntry.ftDir (Inode.dirInode 21)).view
    21 _ apart hiddenBlock
  exact congrArg (fun block : Block => block.extract _ inodeStructSize) sameBlock

theorem extents_dirInode (disk : Nat → Block) :
    parseExtentTree disk (Inode.dirInode 21).blockData = [.single 0 21] ∧
      treeBlocks disk (Inode.dirInode 21).blockData = [] := by
  have noBlocks : treeBlocks (fun _ => .zeroed) (Inode.dirInode 21).blockData = [] := by
    decide
  obtain ⟨sameParse, sameBlocks⟩ := @tree_congr (fun _ => .zeroed) disk
    (Inode.dirInode 21).blockData (by rw [noBlocks]; simp)
  rw [treeBlocks] at noBlocks ⊢
  rw [sameParse, sameBlocks, noBlocks]
  exact ⟨by decide, rfl⟩

theorem owned_hidden : hiddenVolume.view.extents 11 = [.single 0 21] ∧
    hiddenVolume.view.owned 11 = [21] := by
  have inodeEq : hiddenVolume.view.inode 11 = Inode.dirInode 21 :=
    (inode_hidden 11 (by decide)).trans inode_entryVolume
  have extents : hiddenVolume.view.extents 11 = [.single 0 21] := by
    rw [View.extents, inodeEq, if_pos (by decide), (extents_dirInode _).1]
  refine ⟨extents, ?_⟩
  rw [View.owned, extents, View.tree, inodeEq, (extents_dirInode _).2]
  decide

theorem notOwned_entryVolume (inode : Ext4Inode) :
    21 ∉ (entryVolume Ext4DirEntry.ftDir inode).view.owned 2 := by
  obtain ⟨step, _⟩ := holds_full.put mounted_full (maps_rootVolume fullBitmap) tiled_directory
  rw [(unchanged_entryVolume tiled_directory).owned_eq]
  intro isOwned
  rcases step.owned 21 isOwned with was | free
  · rw [(owned_rootVolume fullBitmap).2] at was
    exact absurd was (by decide)
  · exact free ((held_rootVolume fullBitmap).mpr ⟨by decide, testBit_fullBitmap ⟨21, by decide⟩⟩)

theorem unchanged_hidden : Unchanged
    (entryVolume Ext4DirEntry.ftDir (Inode.dirInode 21)).view hiddenVolume.view 2 := by
  refine ⟨inode_hidden 2 (by decide), ?_, ?_⟩
  · intro blockId isOwned
    rw [view_hiddenVolume]
    apply View.data_put_of_ne
    rintro rfl
    exact notOwned_entryVolume _ isOwned
  · intro blockId _ isHeld
    rw [view_hiddenVolume]
    exact isHeld

theorem notCached_hidden (inodeNum : Nat) : hiddenVolume.view.extentsCache[inodeNum]? = none ∧
    hiddenVolume.view.dirIndexCache[inodeNum]? = none := by
  rw [view_hiddenVolume]
  exact @notCached_entryVolume Ext4DirEntry.ftDir (Inode.dirInode 21) inodeNum

theorem wellFormed_hidden : hiddenVolume.view.WellFormed {block | block ≤ 5} 2
    [entrySlots Ext4DirEntry.ftDir] := by
  have typed : (Inode.dirInode 21).Typed := by
    rw [Ext4Inode.Typed]
    decide
  have wellFormed := wellFormed_entryVolume tiled_directory typed
  have sameIndex : hiddenVolume.view.dirIndex 2 =
      (entryVolume Ext4DirEntry.ftDir (Inode.dirInode 21)).view.dirIndex 2 := by
    rw [View.dirIndex, View.dirIndex, (notCached_hidden 2).2, (notCached_entryVolume 2).2,
      unchanged_hidden.entries_eq]
  have sameFs : hiddenVolume.view.fs =
      (entryVolume Ext4DirEntry.ftDir (Inode.dirInode 21)).view.fs := rfl
  have directory : hiddenVolume.view.Directory {block | block ≤ 5} 2 := by
    refine wellFormed.toDirectory.of_unchanged sameFs ?_ unchanged_hidden ?_ sameIndex
    · rw [view_hiddenVolume]
      exact wellFormed.inUse
    · intro cached found
      rw [(notCached_hidden 2).1] at found
      cases found
  refine ⟨wellFormed.toHolds.of_unchanged directory unchanged_hidden, wellFormed.distinct, ?_, ?_, ?_⟩
  · rw [sameIndex, unchanged_hidden.entries_eq]
    exact wellFormed.indexed
  · rw [unchanged_hidden.entries_eq]
    intro binding isEntry
    obtain ⟨isInode, typedEntry⟩ := wellFormed.named binding isEntry
    refine ⟨isInode, ?_⟩
    rw [entries_entryVolume tiled_directory] at isEntry
    simp only [List.mem_cons, List.not_mem_nil, or_false] at isEntry
    rw [inode_hidden]
    · exact typedEntry
    · rcases isEntry with rfl | rfl | rfl
      · exact (by decide : (smallFileSystem.shape.handle 2).blockId ≠ 21)
      · exact (by decide : (smallFileSystem.shape.handle 2).blockId ≠ 21)
      · exact (by decide : (smallFileSystem.shape.handle 11).blockId ≠ 21)
  · rw [unchanged_hidden.entries_eq]
    exact wellFormed.apart

theorem holds_hidden : hiddenVolume.view.Holds {block | block ≤ 5} 11 [hiddenSlots] := by
  obtain ⟨extents, owned⟩ := owned_hidden
  have isInode : hiddenVolume.view.fs.IsInode 11 :=
    (@isInode_entryVolume Ext4DirEntry.ftDir (Inode.dirInode 21)).1
  have inodeEq : hiddenVolume.view.inode 11 = Inode.dirInode 21 :=
    (inode_hidden 11 (by decide)).trans inode_entryVolume
  have size : (hiddenVolume.view.inode 11).size = blockSz := by
    rw [inodeEq]
    decide
  have maps : Maps (hiddenVolume.view.extents 11) 0 21 := by
    rw [extents]
    exact ⟨_, List.mem_singleton_self _, by decide, by decide, by decide⟩
  have first {lblock : Nat} (inside : lblock * blockSz < blockSz) : lblock = 0 := by
    simp only [blockSz] at inside
    omega
  refine ⟨⟨isInode, ?_, ⟨?_, ?_, ?_⟩, ?_, ?_, ?_, ?_, ?_, ?_, ?_⟩, ?_, ?_⟩
  · rw [view_hiddenVolume, view_entryVolume]
    refine ⟨Volume.isItem_view.mp (View.isInode_iff.mpr isInode), ?_⟩
    have position : (11 - Resource.inode.firstItem) / (rootVolume fullBitmap).perGroup .inode = 0 ∧
        (11 - Resource.inode.firstItem) % (rootVolume fullBitmap).perGroup .inode = 10 :=
      (by decide : (11 - 1) / 32 = 0 ∧ (11 - 1) % 32 = 10)
    rw [Volume.used, position.1, position.2]
    exact (by decide : ((Bytes.zeroed : Block).write 0 [0xFF, 0x07]).testBit 10 = true)
  · rw [owned]
    decide
  · rw [owned]
    intro block isOwned
    rw [List.mem_singleton.mp isOwned, view_hiddenVolume, view_entryVolume]
    exact (held_rootVolume fullBitmap).mpr ⟨by decide, testBit_fullBitmap ⟨21, by decide⟩⟩
  · rw [owned]
    intro block isOwned isReserved
    rw [List.mem_singleton.mp isOwned] at isReserved
    exact absurd isReserved (by decide)
  · intro cached found
    rw [(notCached_hidden 11).1] at found
    cases found
  · rw [inodeEq]
    decide
  · rw [inodeEq]
    decide
  · rw [extents]
    exact List.pairwise_singleton _ _
  · rw [extents]
    intro extent isMem
    rw [List.mem_singleton.mp isMem]
    decide
  · rw [size]
    intro lblock inside
    rw [first inside]
    exact ⟨21, maps⟩
  · exact View.numbers_of_built (notCached_hidden 11).2
  · rw [size, List.length_singleton, Nat.one_mul]
  · intro lblock slots isBlock
    obtain ⟨inside, same⟩ := List.getElem?_eq_some_iff.mp isBlock
    obtain rfl : lblock = 0 := by simpa using inside
    subst same
    refine ⟨21, maps, ?_⟩
    rw [view_hiddenVolume, View.data_put_same]
    exact tiled_hiddenBlock

theorem found_hidden : (hiddenVolume.view.dirIndex 2)[letterA]? =
    some (11, Ext4DirEntry.ftDir) := by
  apply (wellFormed_hidden.indexed _ _ _).mpr
  rw [unchanged_hidden.entries_eq, entries_entryVolume tiled_directory]
  simp

theorem disjoint_hidden :
    List.Disjoint (hiddenVolume.view.owned 11) (hiddenVolume.view.owned 2) := by
  rw [owned_hidden.2, unchanged_hidden.owned_eq]
  intro block isChild isRoot
  rw [List.mem_singleton.mp isChild] at isRoot
  exact notOwned_entryVolume _ isRoot

theorem removesOnlyEmpty_iff_hidden :
    RemovesOnlyEmpty hiddenVolume 2 11 [hiddenSlots] letterA ↔
      ((∃ slot ∈ [hiddenSlots].flatten, slot.Occupies) → Shown [hiddenSlots]) :=
  removesOnlyEmpty_iff mounted_hidden (by decide) wellFormed_hidden (by decide) found_hidden
    holds_hidden disjoint_hidden

/-- The directory with the hidden record is removed. -/
theorem not_removesOnlyEmpty_hidden :
    ¬ RemovesOnlyEmpty hiddenVolume 2 11 [hiddenSlots] letterA := by
  have occupied : (⟨12, blockSz - 24, Ext4DirEntry.ftRegFile, [0xFF]⟩ : Dirent).Occupies := by
    rw [Dirent.Occupies]
    decide
  intro property
  obtain ⟨error, last, failed, _⟩ := property ⟨_, by simp [hiddenSlots], occupied⟩
  rcases unlink_directory_outcome mounted_hidden (by decide) wellFormed_hidden (by decide)
      found_hidden holds_hidden disjoint_hidden with ⟨shown, _⟩ | ⟨_, after, succeeds⟩
  · have empty : listing [hiddenSlots] = [] := by decide
    exact (listing_ne_nil_iff _).mpr shown empty
  · rw [succeeds] at failed
    cases failed

end Ext4

end OSWorkspace
