import OSWorkspace.Ext4NewEntries

/-!
# Names that come, go and change

A hard link, a removal and a renaming change the entries of a directory and at
most the link count of the inode behind the name.  The last removal gives the inode
back with all that it owns.
-/

namespace OSWorkspace

namespace Ext4

open Exec View

/-- The inode was rewritten, and its blocks are as before. -/
structure View.Revised (view after : View) (inodeNum : Nat) (inode : Ext4Inode) : Prop where
  inode : after.inode inodeNum = inode
  extents : after.extents inodeNum = view.extents inodeNum
  data : ∀ blockId ∈ view.owned inodeNum, after.data blockId = view.data blockId

theorem View.Revised.stores {reserved : Set Nat} {view after : View} {inodeNum : Nat}
    {inode : Ext4Inode} (revised : view.Revised after inodeNum inode) {bytes : List UInt8}
    (stores : view.Stores reserved inodeNum bytes) (mounted : after.Mounted reserved)
    (resident : after.Resident reserved inodeNum) (isFile : inode.isFile = true)
    (usesExtents : inode.usesExtents = true)
    (size : inode.size = (view.inode inodeNum).size) :
    after.Stores reserved inodeNum bytes := by
  refine ⟨mounted, resident.isInode, resident.owning, resident.coherent,
    by rw [revised.inode]; exact isFile, by rw [revised.inode]; exact usesExtents,
    by rw [revised.extents]; exact stores.tidy,
    by rw [revised.inode, size]; exact stores.size, ?_⟩
  intro position
  rw [revised.extents, ← stores.content position]
  exact byteAt_congr (fun blockId isData =>
    revised.data blockId (mem_owned.mpr (Or.inl isData))) position

theorem View.Revised.of_unchanged {view middle after : View} {inodeNum : Nat} {inode : Ext4Inode}
    (unchanged : Unchanged view middle inodeNum)
    (revised : middle.Revised after inodeNum inode) : view.Revised after inodeNum inode := by
  refine ⟨revised.inode, revised.extents.trans unchanged.extents_eq, ?_⟩
  intro blockId isOwned
  rw [revised.data blockId (by rw [unchanged.owned_eq]; exact isOwned),
    unchanged.data blockId isOwned]

theorem View.Revised.unchanged {view middle after : View} {inodeNum : Nat} {inode : Ext4Inode}
    (revised : view.Revised middle inodeNum inode)
    (sameOwned : middle.owned inodeNum = view.owned inodeNum)
    (unchanged : Unchanged middle after inodeNum) : view.Revised after inodeNum inode := by
  refine ⟨unchanged.inode.trans revised.inode, unchanged.extents_eq.trans revised.extents, ?_⟩
  intro blockId isOwned
  rw [unchanged.data blockId (by rw [sameOwned]; exact isOwned), revised.data blockId isOwned]

/-- Rewriting the inode of a member without touching its extent tree. -/
theorem passage_modifyDiskInode {reserved members : Set Nat} {volume : Volume}
    (apart : volume.view.Apart reserved members) {inodeNum : Nat} (isMember : inodeNum ∈ members)
    {change : Ext4Inode → Ext4Inode}
    (blockData : (change (volume.view.inode inodeNum)).blockData =
      (volume.view.inode inodeNum).blockData)
    (usesExtents : (change (volume.view.inode inodeNum)).usesExtents =
      (volume.view.inode inodeNum).usesExtents)
    (typed : (change (volume.view.inode inodeNum)).Typed) :
    ∃ after, ((volume.view.fs.handle inodeNum).modifyDiskInode change).run volume =
        .ok () after ∧
      Passage reserved members members (members \ {inodeNum}) volume.view after.view ∧
      volume.view.Revised after.view inodeNum (change (volume.view.inode inodeNum)) ∧
      after.view.owned inodeNum = volume.view.owned inodeNum ∧
      after.view.dirIndexCache = volume.view.dirIndexCache := by
  have mounted := apart.mounted
  have resident := apart.resident inodeNum isMember
  obtain ⟨after, ran, afterView⟩ := view_modifyDiskInode mounted.layout mounted.geometry
    resident.isInode change
  obtain ⟨step, inodeEq, extentsEq, ownedEq⟩ := FileStep.of_putInode mounted resident.isInode
    resident.owning resident.coherent blockData usesExtents
  have data {blockId : Nat} (isOwned : blockId ∈ volume.view.owned inodeNum) :=
    data_putInode mounted.layout mounted.geometry resident.isInode
      (change (volume.view.inode inodeNum)) (resident.owning.outside blockId isOwned)
  rw [← afterView] at step inodeEq extentsEq ownedEq data
  have sameHeld : after.view.held .block = volume.view.held .block := by
    rw [afterView]
    rfl
  refine ⟨after, ran, Passage.of_fileStep apart isMember step
    (Exchanges.of_same resident.owning sameHeld ownedEq) (by rw [inodeEq]; exact typed),
    ⟨inodeEq, extentsEq, fun blockId isOwned => data isOwned⟩, ownedEq, ?_⟩
  rw [afterView]
  rfl

theorem Ext4Inode.typed_congr {inode other : Ext4Inode} (sameMode : other.iMode = inode.iMode)
    (typed : inode.Typed) : other.Typed := by
  rw [Ext4Inode.Typed, sameMode]
  exact typed

/-- A new link count changes nothing else. -/
theorem Ext4Inode.setILinksCount_spec (inode : Ext4Inode) (links : Nat) :
    (inode.setILinksCount links).blockData = inode.blockData ∧
      (inode.setILinksCount links).usesExtents = inode.usesExtents ∧
      (inode.setILinksCount links).iMode = inode.iMode ∧
      (inode.setILinksCount links).size = inode.size := by
  have kept {name : InodeField} (different : name ≠ .iLinksCount) :
      (inode.setILinksCount links).field name = inode.field name :=
    field_setField_of_ne inode links different
  exact ⟨blockData_setField _ _ _, usesExtents_congr (kept (by decide)), kept (by decide),
    size_congr (kept (by decide)) (kept (by decide))⟩

theorem keptBesides_dir_child (members : Set Nat) (dir child : Nat) :
    members \ {dir} ∩ (members \ {child}) ∩ (members \ {dir}) = members \ {dir, child} := by
  rw [Set.sdiff_inter_sdiff, Set.sdiff_inter_sdiff]
  congr 1
  ext other
  simp only [Set.mem_union, Set.mem_singleton_iff, Set.mem_insert_iff]
  tauto

/-- What stays when a child of a directory goes. -/
theorem subset_keptBesides (members : Set Nat) (dir child : Nat) :
    members \ {dir, child} ⊆
      members \ {dir} ∩ (members \ {child}) ∩ ((members \ {child}) \ {dir}) := by
  rintro other ⟨isMember, notPair⟩
  simp only [Set.mem_insert_iff, Set.mem_singleton_iff, not_or] at notPair
  simp [isMember, notPair.1, notPair.2]

/-- The rest of a link behind its checks. -/
def enterLink (self target : Inode) (name : Str) : Call Unit := do
  let fileType := dirEntryFileTypeFromMode (← target.readDiskInode).iMode
  self.dirAddEntry name target.inodeNum fileType
  target.modifyDiskInode fun inode =>
    inode.setILinksCount (min (inode.iLinksCount + 1) Inode.linksMax)
  let fileType := dirEntryFileTypeFromMode (← target.readDiskInode).iMode
  dirIndexCacheUpdate self.inodeNum (·.insert name (target.inodeNum, fileType))

section Changing

variable {reserved members : Set Nat} {dir : Nat} {volume : Volume}
  {blocks : List (List Dirent)} (apart : volume.view.Apart reserved members)
  (branch : volume.view.Branch reserved members dir blocks)

include apart branch

theorem passage_enterLink {name : Str} (enters : Enters volume.view dir name) {child : Nat}
    (isMember : child ∈ members) (different : child ≠ dir) :
    (∃ after changed fileType,
      (enterLink (volume.view.fs.handle dir) (volume.view.fs.handle child) name).run volume =
        .ok () after ∧
      Passage reserved members members (members \ {dir, child}) volume.view after.view ∧
      volume.view.Revised after.view child ((volume.view.inode child).setILinksCount
        (min ((volume.view.inode child).iLinksCount + 1) Inode.linksMax)) ∧
      after.view.Branch reserved members dir changed ∧
      ∀ binding, binding ∈ after.view.entries dir ↔
        binding = ⟨name, child, fileType⟩ ∨ binding ∈ volume.view.entries dir) ∨
    ∃ error after,
      (enterLink (volume.view.fs.handle dir) (volume.view.fs.handle child) name).run volume =
        .err error after ∧
      Spares reserved members volume.view after.view ∧ ¬ volume.view.Roomy dir 0 := by
  have mounted := apart.mounted
  have resident := apart.resident child isMember
  have wellFormed := branch.toWellFormed
  have read := view_readDiskInode mounted.layout mounted.geometry resident.isInode
  rw [enterLink, run_bind_ok read]
  rcases passage_dirAddEntry apart branch.member wellFormed enters branch.tidy resident.isInode
    (dirEntryFileTypeFromMode (volume.view.inode child).iMode) with
    ⟨added, changed, ran, passage, edited, mem⟩ | ⟨error, after, failed, spares⟩
  · have isKept : child ∈ members \ {dir} := ⟨isMember, different⟩
    have unchanged := passage.spares.unchanged child isKept
    have addedFs := passage.spares.fs
    obtain ⟨blockData, usesExtents, sameMode, _⟩ := Ext4Inode.setILinksCount_spec
      (added.view.inode child) (min ((added.view.inode child).iLinksCount + 1) Inode.linksMax)
    obtain ⟨linked, wrote, rewrite, revised, ownedEq, sameIndexes⟩ :=
      @passage_modifyDiskInode reserved members added passage.apart child isMember
        (fun inode => inode.setILinksCount (min (inode.iLinksCount + 1) Inode.linksMax))
        blockData usesExtents
        (Ext4Inode.typed_congr sameMode (passage.apart.resident child isMember).typed)
    have dirKept : dir ∈ members \ {child} := ⟨branch.member, different.symm⟩
    have linkedEdited := edited.spared rewrite.spares dirKept fun index cached => by
      rw [← sameIndexes]
      exact cached
    have sameEntries := (rewrite.spares.unchanged dir dirKept).entries_eq
    rw [← sameEntries] at mem
    obtain ⟨inside, others⟩ := branch.entered isMember different fun binding => (mem binding).mp
    obtain ⟨after, updated, indexed, afterBranch, afterEntries⟩ := linkedEdited.reindex
      rewrite.apart (fun index covers => covers.insert (wellFormed.name_ne enters.absent) mem)
      branch.member inside others
    have linkedFs := rewrite.spares.fs.trans addedFs
    have reread := view_readDiskInode rewrite.apart.mounted.layout rewrite.apart.mounted.geometry
      (rewrite.apart.resident child isMember).isInode
    have sameType : dirEntryFileTypeFromMode (linked.view.inode child).iMode =
        dirEntryFileTypeFromMode (volume.view.inode child).iMode := by
      rw [revised.inode, sameMode, unchanged.inode]
    rw [addedFs] at wrote
    rw [linkedFs] at reread
    have whole := (passage.trans rewrite).trans indexed
    rw [keptBesides_dir_child] at whole
    refine Or.inl ⟨after, changed, dirEntryFileTypeFromMode (volume.view.inode child).iMode, ?_,
      whole, ?_, afterBranch, ?_⟩
    · refine (run_bind_ok ran).trans ((run_bind_ok wrote).trans ((run_bind_ok reread).trans ?_))
      rw [sameType]
      exact updated
    · have settled := indexed.spares.unchanged child ⟨isMember, different⟩
      rw [← unchanged.inode]
      exact (revised.unchanged ownedEq settled).of_unchanged unchanged
    · rw [afterEntries]
      exact mem
  · exact Or.inr ⟨error, after, run_bind_err failed, spares⟩

end Changing

theorem Ext4Inode.iLinksCount_lt (inode : Ext4Inode) : inode.iLinksCount < 2 ^ 16 :=
  inode.field_lt .iLinksCount

theorem Ext4Inode.iLinksCount_setILinksCount (inode : Ext4Inode) {links : Nat}
    (small : links < 2 ^ 16) : (inode.setILinksCount links).iLinksCount = links := by
  rw [Ext4Inode.iLinksCount, Ext4Inode.field_setField_same]
  exact Nat.mod_eq_of_lt small

section Dropping

variable {reserved members : Set Nat} {volume : Volume}
  (apart : volume.view.Apart reserved members) {child : Nat} (isMember : child ∈ members)

include apart isMember

/-- The link count goes down by one. -/
theorem passage_lowerLinks (positive : 0 < (volume.view.inode child).iLinksCount) :
    ∃ after, ((volume.view.fs.handle child).modifyDiskInode fun inode =>
        if inode.iLinksCount > 0 then inode.setILinksCount (inode.iLinksCount - 1)
        else inode).run volume = .ok () after ∧
      (volume.view.fs.handle child).readDiskInode.run after =
        .ok (after.view.inode child) after ∧
      Passage reserved members members (members \ {child}) volume.view after.view ∧
      volume.view.Revised after.view child ((volume.view.inode child).setILinksCount
        ((volume.view.inode child).iLinksCount - 1)) ∧
      after.view.owned child = volume.view.owned child ∧
      after.view.dirIndexCache = volume.view.dirIndexCache ∧
      (after.view.inode child).iLinksCount = (volume.view.inode child).iLinksCount - 1 := by
  obtain ⟨blockData, usesExtents, sameMode, _⟩ := Ext4Inode.setILinksCount_spec
    (volume.view.inode child) ((volume.view.inode child).iLinksCount - 1)
  have changeEq : (if (volume.view.inode child).iLinksCount > 0 then
      (volume.view.inode child).setILinksCount ((volume.view.inode child).iLinksCount - 1)
      else volume.view.inode child) = (volume.view.inode child).setILinksCount
        ((volume.view.inode child).iLinksCount - 1) := if_pos positive
  obtain ⟨after, ran, passage, revised, ownedEq, sameIndexes⟩ :=
    @passage_modifyDiskInode reserved members volume apart child isMember
      (fun inode => if inode.iLinksCount > 0 then inode.setILinksCount (inode.iLinksCount - 1)
        else inode)
      (by rw [changeEq]; exact blockData) (by rw [changeEq]; exact usesExtents)
      (by rw [changeEq]; exact Ext4Inode.typed_congr sameMode (apart.resident child isMember).typed)
  rw [changeEq] at revised
  have mounted := passage.apart.mounted
  have read := view_readDiskInode mounted.layout mounted.geometry
    (passage.apart.resident child isMember).isInode
  rw [passage.spares.fs] at read
  refine ⟨after, ran, read, passage, revised, ownedEq, sameIndexes, ?_⟩
  rw [revised.inode]
  apply Ext4Inode.iLinksCount_setILinksCount
  exact Nat.lt_of_le_of_lt (Nat.sub_le _ _) (volume.view.inode child).iLinksCount_lt

/-- An inode with other names keeps its blocks. -/
theorem passage_dropLink_shared (shared : 1 < (volume.view.inode child).iLinksCount) :
    ∃ after, (volume.view.fs.handle child).dropLink.run volume = .ok () after ∧
      Passage reserved members members (members \ {child}) volume.view after.view ∧
      volume.view.Revised after.view child ((volume.view.inode child).setILinksCount
        ((volume.view.inode child).iLinksCount - 1)) ∧
      after.view.owned child = volume.view.owned child ∧
      after.view.dirIndexCache = volume.view.dirIndexCache := by
  obtain ⟨after, ran, read, passage, revised, ownedEq, sameIndexes, links⟩ :=
    passage_lowerLinks apart isMember (by omega)
  refine ⟨after, ?_, passage, revised, ownedEq, sameIndexes⟩
  rw [Inode.dropLink, run_bind_ok ran, run_bind_ok read, if_neg]
  · rfl
  · rw [links]
    omega

/-- The last name takes the inode and all that it owns with it. -/
theorem passage_dropLink_last (last : (volume.view.inode child).iLinksCount = 1)
    (tidy : Tidy (volume.view.extents child)) :
    ∃ after, (volume.view.fs.handle child).dropLink.run volume = .ok () after ∧
      Passage reserved members (members \ {child}) (members \ {child}) volume.view after.view ∧
      ∀ (other : Nat) (index : DirIndex), after.view.dirIndexCache[other]? = some index →
        volume.view.dirIndexCache[other]? = some index := by
  obtain ⟨lowered, ran, read, passage, revised, _, sameIndexes, links⟩ :=
    passage_lowerLinks apart isMember (by omega)
  have resident := passage.apart.resident child isMember
  obtain ⟨after, reclaimed, afterView⟩ := view_reclaimInode passage.apart.mounted
    resident.isInode resident.owning
  rw [passage.spares.fs] at reclaimed
  have discards := passage.apart.passage_discard isMember (by rw [revised.extents]; exact tidy)
  rw [← afterView] at discards
  have whole := passage.trans discards
  rw [Set.inter_self] at whole
  refine ⟨after, ?_, whole, ?_⟩
  · rw [Inode.dropLink, run_bind_ok ran, run_bind_ok read, if_pos]
    · exact reclaimed
    · rw [links, last]
  · intro other index cached
    rw [afterView] at cached
    rw [← sameIndexes]
    exact getElem?_of_erase cached

end Dropping

section Unlinking

variable {reserved members : Set Nat} {dir : Nat} {volume : Volume}
  {blocks : List (List Dirent)} (apart : volume.view.Apart reserved members)
  (branch : volume.view.Branch reserved members dir blocks) {name : Str}
  (proper : name ≠ .dot ∧ name ≠ .dotDot) {child : Nat} {fileType : UInt8}
  (isEntry : ⟨name, child, fileType⟩ ∈ volume.view.entries dir)
  (notDir : (volume.view.inode child).isDir = false)

include apart branch isEntry

/-- The record goes once the caches are warm. -/
theorem passage_removeEntry {warm : Volume} (warmed : Warmed volume warm) :
    ∃ number removed changed,
      ((volume.view.fs.handle dir).dirRemoveEntry name).run warm = .ok number removed ∧
      Passage reserved members members (members \ {dir}) volume.view removed.view ∧
      removed.view.Edited reserved dir changed (volume.view.entries dir) ∧
      ∀ binding, binding ∈ removed.view.entries dir ↔
        binding ∈ volume.view.entries dir ∧ binding.name ≠ name := by
  have warming := warmed.passage apart
  have warmBranch := branch.spared warming.apart warming.spares branch.member branch.inside
    branch.member
  have sameEntries := (warming.spares.unchanged dir branch.member).entries_eq
  obtain ⟨number, removed, changed, ran, passage, edited, mem⟩ :=
    warmBranch.edited.passage_dirRemoveEntry warming.apart branch.member
      (by rw [sameEntries]; exact isEntry)
  have whole := warming.trans passage
  rw [Set.inter_eq_right.mpr Set.sdiff_subset] at whole
  rw [warmed.fs_eq] at ran
  rw [sameEntries] at edited mem
  exact ⟨number, removed, changed, ran, whole, edited, mem⟩

include proper

omit apart in
theorem View.Branch.ne_of_entry : child ≠ dir :=
  branch.toWellFormed.apart _ isEntry proper.1 proper.2

include notDir

/-- What is left of the call once the record is removed. -/
theorem run_unlink_removed : ∃ removed changed,
    Passage reserved members members (members \ {dir}) volume.view removed.view ∧
    removed.view.Edited reserved dir changed (volume.view.entries dir) ∧
    (∀ binding, binding ∈ removed.view.entries dir ↔
      binding ∈ volume.view.entries dir ∧ binding.name ≠ name) ∧
    ((volume.view.fs.handle dir).unlink name).run volume =
      (dropEntry (volume.view.fs.handle dir) (volume.view.fs.handle child) name).run removed := by
  obtain ⟨warm, warmed, ran⟩ := run_unlink_found apart.mounted branch.toWellFormed proper
    ((branch.toWellFormed.indexed name child fileType).mpr isEntry)
  have isDirRan := run_isDir_of_warmed apart.mounted warmed
    (apart.resident child (branch.inside _ isEntry)).isInode
  rw [notDir] at isDirRan
  obtain ⟨number, removed, changed, removing, passage, edited, mem⟩ :=
    passage_removeEntry apart branch isEntry warmed
  refine ⟨removed, changed, passage, edited, mem, ?_⟩
  rw [ran, run_bind_ok isDirRan]
  simp only [Bool.false_eq_true, if_false]
  rw [run_bind_ok removing]
  rfl

/-- Removing one of several names. -/
theorem passage_unlink_shared (shared : 1 < (volume.view.inode child).iLinksCount) :
    ∃ after changed, ((volume.view.fs.handle dir).unlink name).run volume = .ok () after ∧
      Passage reserved members members (members \ {dir, child}) volume.view after.view ∧
      volume.view.Revised after.view child ((volume.view.inode child).setILinksCount
        ((volume.view.inode child).iLinksCount - 1)) ∧
      after.view.Branch reserved members dir changed ∧
      ∀ binding, binding ∈ after.view.entries dir ↔
        binding ∈ volume.view.entries dir ∧ binding.name ≠ name := by
  have different := branch.ne_of_entry proper isEntry
  have isMember := branch.inside _ isEntry
  obtain ⟨removed, changed, passage, edited, mem, ran⟩ :=
    run_unlink_removed apart branch proper isEntry notDir
  have unchanged := passage.spares.unchanged child ⟨isMember, different⟩
  obtain ⟨dropped, dropping, lowering, revised, ownedEq, sameIndexes⟩ :=
    passage_dropLink_shared passage.apart isMember (by rw [unchanged.inode]; exact shared)
  have dirKept : dir ∈ members \ {child} := ⟨branch.member, different.symm⟩
  have droppedEdited := edited.spared lowering.spares dirKept fun index cached => by
    rw [← sameIndexes]
    exact cached
  have sameEntries := (lowering.spares.unchanged dir dirKept).entries_eq
  rw [← sameEntries] at mem
  have inside : ∀ binding ∈ dropped.view.entries dir, binding.inodeNum ∈ members :=
    fun binding isEntry => branch.inside binding ((mem binding).mp isEntry).1
  obtain ⟨after, updated, indexed, afterBranch, afterEntries⟩ := droppedEdited.reindex
    lowering.apart (fun index covers => covers.erase mem) branch.member inside
    (fun binding isEntry => branch.toWellFormed.apart binding ((mem binding).mp isEntry).1)
  have whole := (passage.trans lowering).trans indexed
  rw [keptBesides_dir_child] at whole
  rw [passage.spares.fs] at dropping
  refine ⟨after, changed, ?_, whole, ?_, afterBranch, ?_⟩
  · rw [ran, dropEntry]
    exact (run_bind_ok dropping).trans updated
  · have settled := indexed.spares.unchanged child ⟨isMember, different⟩
    rw [← unchanged.inode]
    exact (revised.unchanged ownedEq settled).of_unchanged unchanged
  · rw [afterEntries]
    exact mem

/-- Removing the only name. -/
theorem passage_unlink_last (last : (volume.view.inode child).iLinksCount = 1)
    (tidy : Tidy (volume.view.extents child))
    (only : ∀ binding ∈ volume.view.entries dir, binding.name ≠ name →
      binding.inodeNum ≠ child) :
    ∃ after changed, ((volume.view.fs.handle dir).unlink name).run volume = .ok () after ∧
      Passage reserved members (members \ {child}) (members \ {dir, child}) volume.view
        after.view ∧
      after.view.Branch reserved (members \ {child}) dir changed ∧
      ∀ binding, binding ∈ after.view.entries dir ↔
        binding ∈ volume.view.entries dir ∧ binding.name ≠ name := by
  have different := branch.ne_of_entry proper isEntry
  have isMember := branch.inside _ isEntry
  obtain ⟨removed, changed, passage, edited, mem, ran⟩ :=
    run_unlink_removed apart branch proper isEntry notDir
  have unchanged := passage.spares.unchanged child ⟨isMember, different⟩
  obtain ⟨dropped, dropping, discards, shrinks⟩ := passage_dropLink_last passage.apart isMember
    (by rw [unchanged.inode]; exact last) (by rw [unchanged.extents_eq]; exact tidy)
  have dirKept : dir ∈ members \ {child} := ⟨branch.member, different.symm⟩
  have droppedEdited := edited.spared discards.spares dirKept (shrinks dir)
  have sameEntries := (discards.spares.unchanged dir dirKept).entries_eq
  rw [← sameEntries] at mem
  have inside : ∀ binding ∈ dropped.view.entries dir,
      binding.inodeNum ∈ members \ {child} := by
    intro binding isEntry
    obtain ⟨wasEntry, isOther⟩ := (mem binding).mp isEntry
    exact ⟨branch.inside binding wasEntry, only binding wasEntry isOther⟩
  obtain ⟨after, updated, indexed, afterBranch, afterEntries⟩ := droppedEdited.reindex
    discards.apart (fun index covers => covers.erase mem) dirKept inside
    (fun binding isEntry => branch.toWellFormed.apart binding ((mem binding).mp isEntry).1)
  have whole := (passage.trans discards).trans indexed
  rw [passage.spares.fs] at dropping
  refine ⟨after, changed, ?_, ?_, afterBranch, ?_⟩
  · rw [ran, dropEntry]
    exact (run_bind_ok dropping).trans updated
  · exact ⟨whole.apart, whole.spares.mono (subset_keptBesides members dir child), whole.unowned⟩
  · rw [afterEntries]
    exact mem

end Unlinking

theorem DirIndex.Covers.exchange {index : DirIndex} {entries later : List DirBinding}
    (covers : index.Covers entries) {old new : Str} {child : Nat} {fileType : UInt8}
    (absent : ∀ binding ∈ entries, binding.name ≠ new)
    (mem : ∀ binding, binding ∈ later ↔
      (binding ∈ entries ∧ binding.name ≠ old) ∨ binding = ⟨new, child, fileType⟩) :
    Covers ((index.erase old).insert new (child, fileType)) later := by
  have erased : Covers (index.erase old) (entries.filter fun binding => binding.name ≠ old) := by
    apply covers.erase
    intro binding
    rw [List.mem_filter, decide_eq_true_eq]
  apply erased.insert
  · intro binding isKept
    exact absent binding (List.mem_filter.mp isKept).1
  · intro binding
    rw [mem, List.mem_filter, decide_eq_true_eq]
    exact Or.comm

theorem passage_exchangeNames {reserved members : Set Nat} {dir : Nat} {volume : Volume}
    {blocks : List (List Dirent)} (apart : volume.view.Apart reserved members)
    (branch : volume.view.Branch reserved members dir blocks) {old new : Str}
    (enters : Enters volume.view dir new) (proper : old ≠ .dot ∧ old ≠ .dotDot) {child : Nat}
    {fileType : UInt8} (isEntry : ⟨old, child, fileType⟩ ∈ volume.view.entries dir)
    (newType : UInt8) :
    (∃ after changed,
      (exchangeNames (volume.view.fs.handle dir) old new child newType).run volume =
        .ok () after ∧
      Passage reserved members members (members \ {dir}) volume.view after.view ∧
      after.view.Branch reserved members dir changed ∧
      ∀ binding, binding ∈ after.view.entries dir ↔
        (binding ∈ volume.view.entries dir ∧ binding.name ≠ old) ∨
          binding = ⟨new, child, newType⟩) ∨
    ∃ error after,
      (exchangeNames (volume.view.fs.handle dir) old new child newType).run volume =
        .err error after ∧
      Spares reserved members volume.view after.view ∧ ¬ volume.view.Roomy dir 0 := by
  have wellFormed := branch.toWellFormed
  have isMember := branch.inside _ isEntry
  have newAbsent := wellFormed.name_ne enters.absent
  have renames : new ≠ old := fun same => newAbsent _ isEntry same.symm
  rw [exchangeNames]
  rcases passage_dirAddEntry apart branch.member wellFormed enters branch.tidy
    (apart.resident child isMember).isInode newType with
    ⟨added, changed, ran, passage, edited, mem⟩ | ⟨error, after, failed, spares⟩
  · obtain ⟨number, removed, last, clears, removing, removedEdited, removedMem⟩ :=
      edited.passage_dirRemoveEntry passage.apart branch.member ((mem _).mpr (Or.inr isEntry))
    rw [passage.spares.fs] at clears
    have exchanged (binding : DirBinding) : binding ∈ removed.view.entries dir ↔
        (binding ∈ volume.view.entries dir ∧ binding.name ≠ old) ∨
          binding = ⟨new, child, newType⟩ := by
      rw [removedMem, mem]
      constructor
      · rintro ⟨isNew | wasEntry, different⟩
        · exact Or.inr isNew
        · exact Or.inl ⟨wasEntry, different⟩
      · rintro (⟨wasEntry, different⟩ | rfl)
        · exact ⟨Or.inr wasEntry, different⟩
        · exact ⟨Or.inl rfl, renames⟩
    obtain ⟨inside, others⟩ := branch.entered isMember (branch.ne_of_entry proper isEntry)
      fun binding isLater => ((exchanged binding).mp isLater).symm.imp id And.left
    obtain ⟨after, updated, indexed, afterBranch, afterEntries⟩ := removedEdited.reindex
      removing.apart (fun index covers => covers.exchange newAbsent exchanged) branch.member
      inside others
    have whole := (passage.trans removing).trans indexed
    rw [Set.inter_self, Set.inter_self] at whole
    refine Or.inl ⟨after, last, ?_, whole, afterBranch, ?_⟩
    · exact (run_bind_ok ran).trans ((run_bind_ok clears).trans updated)
    · rw [afterEntries]
      exact exchanged
  · exact Or.inr ⟨error, after, run_bind_err failed, spares⟩

end Ext4

end OSWorkspace
