import OSWorkspace.Ext4Renames

/-!
# Directories stay well-formed

A well-formed directory is left so by a step on another inode and by a call that
enters a new inode under a name.  In both cases a cached index is kept in step
with the entries or is dropped, and a dropped index is built anew from them.
-/

namespace OSWorkspace

namespace Ext4

open Exec View

/-- The names of the entries are names of records. -/
theorem Dirent.map_binding_sublist (slots : List Dirent) :
    List.Sublist ((slots.filterMap Dirent.binding).map fun binding => binding.name.bytes)
      ((slots.filterMap Dirent.content).map Prod.fst) := by
  induction slots with
  | nil => exact List.Sublist.slnil
  | cons slot slots ih =>
      cases contentEq : slot.content with
      | none =>
          have bindingEq : slot.binding = none := by
            rw [Dirent.binding, contentEq]
            rfl
          rw [List.filterMap_cons_none bindingEq, List.filterMap_cons_none contentEq]
          exact ih
      | some item =>
          rw [List.filterMap_cons_some contentEq, List.map_cons]
          cases bindingEq : slot.binding with
          | none =>
              rw [List.filterMap_cons_none bindingEq]
              exact ih.cons _
          | some binding =>
              rw [List.filterMap_cons_some bindingEq, List.map_cons]
              have sameName : binding.name.bytes = item.1 := by
                rw [Dirent.binding, contentEq, Option.bind_some] at bindingEq
                obtain ⟨text, textEq, rfl⟩ := Option.map_eq_some_iff.mp bindingEq
                exact Str.bytes_of_fromUtf8 textEq
              rw [sameName]
              exact ih.cons_cons _

/-- The names of the entries are distinct when those of the records are. -/
theorem View.Holds.entries_nodup {reserved : Set Nat} {view : View} {dir : Nat}
    {blocks : List (List Dirent)} (holds : view.Holds reserved dir blocks)
    (distinct : ((contents blocks).map Prod.fst).Nodup) :
    ((view.entries dir).map DirBinding.name).Nodup := by
  have bytesNodup := distinct.sublist (Dirent.map_binding_sublist blocks.flatten)
  rw [← holds.entries_eq] at bytesNodup
  have mapped : ((view.entries dir).map fun binding => binding.name.bytes) =
      ((view.entries dir).map DirBinding.name).map Str.bytes := by
    rw [List.map_map]
    rfl
  rw [mapped] at bytesNodup
  exact bytesNodup.of_map Str.bytes

/-- An index that has to be built from the entries. -/
theorem View.Holds.indexed_of_built {reserved : Set Nat} {view : View} {dir : Nat}
    {blocks : List (List Dirent)} (holds : view.Holds reserved dir blocks)
    (distinct : ((contents blocks).map Prod.fst).Nodup)
    (notCached : view.dirIndexCache[dir]? = none) (name : Str) (inodeNum : Nat)
    (fileType : UInt8) :
    (view.dirIndex dir)[name]? = some (inodeNum, fileType) ↔
      ⟨name, inodeNum, fileType⟩ ∈ view.entries dir := by
  rw [View.dirIndex, notCached]
  exact getElem?_foldl_iff (holds.entries_nodup distinct) name inodeNum fileType

/-- The entries behind a new record. -/
theorem View.Holds.mem_entries_inserts {reserved : Set Nat} {view after : View} {dir : Nat}
    {blocks changed : List (List Dirent)} (holds : view.Holds reserved dir blocks)
    (afterHolds : after.Holds reserved dir changed) {name : Str} {inodeNum : Nat}
    {fileType : UInt8} (numbered : (UInt32.ofNat inodeNum).toNat = inodeNum)
    (inserts : Inserts (name.bytes, UInt32.ofNat inodeNum, fileType) (contents blocks)
      (contents changed)) (binding : DirBinding) :
    binding ∈ after.entries dir ↔
      binding = ⟨name, inodeNum, fileType⟩ ∨ binding ∈ view.entries dir := by
  rw [afterHolds.mem_contents, holds.mem_contents]
  constructor
  · rintro ⟨number, numberEq, isItem⟩
    rcases inserts.mem_iff.mp isItem with isNew | isOld
    · simp only [Prod.mk.injEq] at isNew
      obtain ⟨sameName, rfl, sameType⟩ := isNew
      left
      rw [DirBinding.mk.injEq]
      exact ⟨Str.bytes_injective sameName, numberEq.trans numbered, sameType⟩
    · exact Or.inr ⟨number, numberEq, isOld⟩
  · rintro (rfl | ⟨number, numberEq, isItem⟩)
    · exact ⟨UInt32.ofNat inodeNum, numbered.symm, inserts.mem_iff.mpr (Or.inl rfl)⟩
    · exact ⟨number, numberEq, inserts.mem_iff.mpr (Or.inr isItem)⟩

section OtherInode

variable {reserved : Set Nat} {view after : View} {dir inodeNum : Nat}
  {blocks : List (List Dirent)} (step : FileStep reserved inodeNum view after)
  (different : dir ≠ inodeNum)

include step different

theorem View.Directory.of_fileStep_other (directory : view.Directory reserved dir)
    (disjoint : List.Disjoint (view.owned dir) (view.owned inodeNum)) :
    after.Directory reserved dir := by
  have unchanged := step.unchanged directory.isInode different directory.owning disjoint
  refine ⟨by rw [step.fs]; exact directory.isInode, by rw [step.heldInodes]; exact directory.inUse,
    unchanged.owning directory.owning, ?_, by rw [unchanged.inode]; exact directory.isDir,
    by rw [unchanged.inode]; exact directory.usesExtents,
    by rw [unchanged.extents_eq]; exact directory.ordered,
    by rw [unchanged.extents_eq]; exact directory.bounded,
    by rw [unchanged.inode, unchanged.extents_eq]; exact directory.mapped, ?_⟩
  · intro extents found
    rw [unchanged.extents_eq]
    exact directory.coherent extents (step.extentsCache dir different extents found)
  · intro name number fileType found
    cases cached : after.dirIndexCache[dir]? with
    | none => exact numbers_of_built cached name number fileType found
    | some index =>
        apply directory.numbers name number fileType
        rw [View.dirIndex, step.dirIndexCache dir trivial index cached]
        rw [View.dirIndex, cached] at found
        exact found

theorem View.WellFormed.of_fileStep_other (wellFormed : view.WellFormed reserved dir blocks)
    (disjoint : List.Disjoint (view.owned dir) (view.owned inodeNum))
    (mode : (after.inode inodeNum).iMode = (view.inode inodeNum).iMode) :
    after.WellFormed reserved dir blocks := by
  have directory := wellFormed.toDirectory
  have unchanged := step.unchanged directory.isInode different directory.owning disjoint
  have sameEntries := unchanged.entries_eq
  have holds := wellFormed.toHolds.of_unchanged
    (directory.of_fileStep_other step different disjoint) unchanged
  refine ⟨holds, wellFormed.distinct, ?_, ?_, by rw [sameEntries]; exact wellFormed.apart⟩
  · intro name number fileType
    cases cached : after.dirIndexCache[dir]? with
    | none => exact holds.indexed_of_built wellFormed.distinct cached name number fileType
    | some index =>
        have sameIndex : after.dirIndex dir = view.dirIndex dir := by
          rw [View.dirIndex, cached, View.dirIndex, step.dirIndexCache dir trivial index cached]
        rw [sameIndex, sameEntries]
        exact wellFormed.indexed name number fileType
  · rw [sameEntries]
    intro binding isEntry
    obtain ⟨isInode, typed⟩ := wellFormed.named binding isEntry
    refine ⟨by rw [step.fs]; exact isInode, ?_⟩
    by_cases same : binding.inodeNum = inodeNum
    · rw [same] at typed ⊢
      rw [Ext4Inode.Typed, mode]
      exact typed
    · rw [step.inodes _ isInode same]
      exact typed

end OtherInode

/-- A change of the cached indexes leaves the records. -/
theorem View.Holds.withIndexes {reserved : Set Nat} {view : View} {dir : Nat}
    {blocks : List (List Dirent)} (holds : view.Holds reserved dir blocks)
    {indexes : Std.TreeMap Nat DirIndex}
    (indexed : ∀ (name : Str) inodeNum fileType,
      (({ view with dirIndexCache := indexes } : View).dirIndex dir)[name]? =
        some (inodeNum, fileType) → ⟨name, inodeNum, fileType⟩ ∈ view.entries dir) :
    ({ view with dirIndexCache := indexes } : View).Holds reserved dir blocks := by
  have unchanged : Unchanged view { view with dirIndexCache := indexes } dir :=
    ⟨rfl, fun _ _ => rfl, fun _ _ isHeld => isHeld⟩
  refine holds.of_unchanged ⟨holds.isInode, holds.inUse, unchanged.owning holds.owning,
    holds.coherent, holds.isDir, holds.usesExtents, holds.ordered, holds.bounded, holds.mapped,
    ?_⟩ unchanged
  intro name inodeNum fileType found
  exact view.inodeNum_lt_of_entries (indexed name inodeNum fileType found)

/-- An index that is not cached is not updated. -/
theorem run_dirIndexCacheUpdate_none {volume : Volume} {dir : Nat}
    (cached : volume.dirIndexCache[dir]? = none) (change : DirIndex → DirIndex) :
    (dirIndexCacheUpdate dir change).run volume = .ok () volume := by
  rw [dirIndexCacheUpdate, run_modify]
  simp only [cached]

/-- A cached index is replaced. -/
theorem run_dirIndexCacheUpdate_some {volume : Volume} {dir : Nat} {index : DirIndex}
    (cached : volume.dirIndexCache[dir]? = some index) (change : DirIndex → DirIndex) :
    ∃ after, (dirIndexCacheUpdate dir change).run volume = .ok () after ∧
      after.view = { volume.view with
        dirIndexCache := volume.dirIndexCache.insert dir (change index) } ∧
      after.view.dirIndex dir = change index := by
  refine ⟨{ volume with dirIndexCache := volume.dirIndexCache.insert dir (change index) }, ?_,
    rfl, ?_⟩
  · rw [dirIndexCacheUpdate, run_modify]
    simp only [cached]
  · have found : (volume.dirIndexCache.insert dir (change index))[dir]? = some (change index) :=
      Std.TreeMap.getElem?_insert_self
    rw [View.dirIndex]
    simp only [Volume.view, found]

/-- The index with the new name has exactly the new entries. -/
theorem View.WellFormed.getElem?_insert_iff {reserved : Set Nat} {view : View} {dir : Nat}
    {blocks : List (List Dirent)} (wellFormed : view.WellFormed reserved dir blocks) {name : Str}
    (absent : (view.dirIndex dir)[name]? = none) {inodeNum : Nat} {fileType : UInt8}
    {entries : List DirBinding}
    (mem : ∀ binding, binding ∈ entries ↔
      binding = ⟨name, inodeNum, fileType⟩ ∨ binding ∈ view.entries dir)
    (other : Str) (number : Nat) (otherType : UInt8) :
    ((view.dirIndex dir).insert name (inodeNum, fileType))[other]? =
        some (number, otherType) ↔ ⟨other, number, otherType⟩ ∈ entries := by
  rw [mem, Std.TreeMap.getElem?_insert, DirBinding.mk.injEq, ← wellFormed.indexed]
  simp only [Std.LawfulEqCmp.compare_eq_iff_eq]
  by_cases same : name = other
  · subst same
    rw [if_pos rfl, absent, Option.some_inj, Prod.mk.injEq]
    simp [eq_comm]
  · rw [if_neg same]
    simp [Ne.symm same]

section Creating

variable {reserved : Set Nat} {dir : Nat} {volume : Volume} {blocks : List (List Dirent)}
  (mounted : volume.view.Mounted reserved) (wellFormed : volume.view.WellFormed reserved dir blocks)
  {name : Str} (enters : Enters volume.view dir name) {fileType : UInt8} {inode : Ext4Inode}
  {inodeNum : Nat} {prepared added after : Volume}
  (created : Created dir volume name fileType inode inodeNum prepared added after)

include mounted wellFormed enters created

/-- The records and the cached index between the entry and the update of the index. -/
theorem Created.added_spec : ∃ middle changed, Looked reserved dir prepared middle ∧
    FileStep reserved dir middle.view added.view ∧
    (added.view.inode dir).iMode = (volume.view.inode dir).iMode ∧
    added.view.Holds reserved dir changed ∧ ((contents changed).map Prod.fst).Nodup ∧
    ∀ binding, binding ∈ added.view.entries dir ↔
      binding = ⟨name, inodeNum, fileType⟩ ∨ binding ∈ volume.view.entries dir := by
  have state := created.state
  have directory := wellFormed.toDirectory
  have preparedMounted := state.mounted mounted
  have preparedHolds := wellFormed.toHolds.of_unchanged (state.directory directory) state.unchanged
  have outcome := entered_dirAddEntry preparedMounted preparedHolds enters.nonempty enters.short
    (by rw [state.index]; exact enters.absent) (number_ne_zero mounted.geometry state.isInode)
    fileType
  rw [state.fs, created.entered] at outcome
  rcases outcome with ⟨_, _, _, _, _, failed, _⟩ | ⟨_, ⟨middle, last, ran, looked, entered⟩ |
    ⟨_, _, _, failed, _⟩⟩
  · cases failed
  · cases ran
    obtain ⟨changed, holds, inserts⟩ := entered.holds
    have mode := entered.fields .iMode (by decide) (by decide) (by decide) (by decide)
    rw [(looked.unchanged preparedMounted preparedHolds.toDirectory).inode,
      state.unchanged.inode] at mode
    refine ⟨middle, changed, looked, entered.step, mode, holds, ?_, ?_⟩
    · rw [(inserts.perm.map Prod.fst).nodup_iff]
      exact List.nodup_cons.mpr ⟨wellFormed.notName enters.absent, wellFormed.distinct⟩
    · intro binding
      rw [← state.unchanged.entries_eq]
      exact preparedHolds.mem_entries_inserts holds
        (toNat_ofNat_isInode mounted.geometry state.isInode) inserts binding
  · cases failed

/-- A directory into which a call has entered a new inode. -/
theorem Created.directory_wellFormed (typed : inode.Typed) : ∃ changed,
    after.view.WellFormed reserved dir changed ∧
    ∀ binding, binding ∈ after.view.entries dir ↔
      binding = ⟨name, inodeNum, fileType⟩ ∨ binding ∈ volume.view.entries dir := by
  obtain ⟨middle, changed, looked, step, mode, holds, distinct, mem⟩ :=
    created.added_spec mounted wellFormed enters
  have state := created.state
  have different := state.different wellFormed.toDirectory
  have middleFs : middle.view.fs = volume.view.fs := looked.view_fs.trans state.fs
  have typedAt (other : Nat) (isInode : volume.view.fs.IsInode other)
      (wasTyped : other ≠ inodeNum → (volume.view.inode other).Typed) :
      (added.view.inode other).Typed := by
    by_cases isDir : other = dir
    · rw [isDir, Ext4Inode.Typed, mode, ← isDir]
      exact wasTyped (by rw [isDir]; exact different)
    · rw [step.inodes other (by rw [middleFs]; exact isInode) isDir]
      have isPrepared : prepared.view.fs.IsInode other := by
        rw [state.fs]
        exact isInode
      by_cases isNew : other = inodeNum
      · rw [isNew] at isPrepared ⊢
        rw [looked.inodes _ isPrepared (by rw [created.inode_eq]; exact typed), created.inode_eq]
        exact typed
      · have sameInode := created.others other isInode isNew (wasTyped isNew)
        rw [looked.inodes _ isPrepared (by rw [sameInode]; exact wasTyped isNew), sameInode]
        exact wasTyped isNew
  have named : ∀ binding ∈ added.view.entries dir,
      added.view.fs.IsInode binding.inodeNum ∧ (added.view.inode binding.inodeNum).Typed := by
    rw [step.fs, middleFs]
    intro binding isEntry
    rcases (mem binding).mp isEntry with rfl | wasEntry
    · exact ⟨state.isInode, typedAt _ state.isInode fun isNew => absurd rfl isNew⟩
    · obtain ⟨isInode, wasTyped⟩ := wellFormed.named binding wasEntry
      exact ⟨isInode, typedAt _ isInode fun _ => wasTyped⟩
  have apart : ∀ binding ∈ added.view.entries dir, binding.name ≠ .dot →
      binding.name ≠ .dotDot → binding.inodeNum ≠ dir := by
    intro binding isEntry notDot notDotDot
    rcases (mem binding).mp isEntry with rfl | wasEntry
    · exact different.symm
    · exact wellFormed.apart binding wasEntry notDot notDotDot
  cases cached : added.dirIndexCache[dir]? with
  | none =>
      have finished := created.updated
      rw [run_dirIndexCacheUpdate_none cached] at finished
      cases finished
      exact ⟨changed, ⟨holds, distinct, holds.indexed_of_built distinct cached, named, apart⟩, mem⟩
  | some index =>
      obtain ⟨last, ran, lastView, indexEq⟩ := run_dirIndexCacheUpdate_some cached
        (·.insert name (inodeNum, fileType))
      have finished := created.updated
      rw [ran] at finished
      cases finished
      have wasCached := step.dirIndexCache dir trivial index cached
      have sameIndex : index = volume.view.dirIndex dir := by
        rw [← state.index]
        exact Option.some_inj.mp (wasCached.symm.trans looked.index)
      have unchanged : Unchanged added.view after.view dir := by
        rw [lastView]
        exact ⟨rfl, fun _ _ => rfl, fun _ _ isHeld => isHeld⟩
      have sameEntries := unchanged.entries_eq
      have indexed (other : Str) (number : Nat) (otherType : UInt8) :
          (after.view.dirIndex dir)[other]? = some (number, otherType) ↔
            ⟨other, number, otherType⟩ ∈ added.view.entries dir := by
        rw [indexEq, sameIndex]
        exact wellFormed.getElem?_insert_iff enters.absent mem other number otherType
      refine ⟨changed, ⟨?_, distinct, by rw [sameEntries]; exact indexed, ?_,
        by rw [sameEntries]; exact apart⟩, by rw [sameEntries]; exact mem⟩
      · rw [lastView] at indexed ⊢
        exact holds.withIndexes fun other number otherType => (indexed other number otherType).mp
      · rw [sameEntries, lastView]
        exact named

end Creating

end Ext4

end OSWorkspace
