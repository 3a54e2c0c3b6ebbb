import OSWorkspace.Ext4SparedDirectories

/-!
# New entries of a directory

A name is entered for a new inode, or for one that has other names already, a name
is removed, and a name is replaced by another.  Each of these calls either returns,
and then the directory has exactly the entries that it should have, or fails, and
then every inode in use is spared.
-/

namespace OSWorkspace

namespace Ext4

open Exec View

section Branch

variable {reserved members : Set Nat} {view after : View} {dir : Nat}
  {blocks : List (List Dirent)}

/-- A name is absent when it is the name of no entry. -/
theorem View.WellFormed.absent_iff (wellFormed : view.WellFormed reserved dir blocks)
    (name : Str) :
    (view.dirIndex dir)[name]? = none ↔ ∀ binding ∈ view.entries dir, binding.name ≠ name := by
  refine ⟨wellFormed.name_ne, fun absent => ?_⟩
  rw [Option.eq_none_iff_forall_ne_some]
  rintro ⟨inodeNum, fileType⟩ found
  exact absent _ ((wellFormed.indexed name inodeNum fileType).mp found) rfl

theorem View.Branch.spared (branch : view.Branch reserved members dir blocks)
    {later kept : Set Nat} (apart : after.Apart reserved later)
    (spares : Spares reserved kept view after) (isKept : dir ∈ kept)
    (inside : ∀ binding ∈ view.entries dir, binding.inodeNum ∈ later)
    (isMember : dir ∈ later) : after.Branch reserved later dir blocks := by
  refine ⟨spares.wellFormed isKept branch.toWellFormed fun binding isEntry =>
    (apart.resident _ (inside binding isEntry)).typed, ?_, isMember, ?_⟩
  · rw [(spares.unchanged dir isKept).extents_eq]
    exact branch.tidy
  · rw [(spares.unchanged dir isKept).entries_eq]
    exact inside

theorem View.Branch.enters (branch : view.Branch reserved members dir blocks)
    {later : Set Nat} {changed : List (List Dirent)}
    (afterBranch : after.Branch reserved later dir changed)
    (sameEntries : after.entries dir = view.entries dir) {name : Str}
    (enters : Enters view dir name) : Enters after dir name := by
  refine ⟨enters.nonempty, enters.short, ?_⟩
  rw [afterBranch.toWellFormed.absent_iff, sameEntries, ← branch.toWellFormed.absent_iff]
  exact enters.absent

/-- Old entries and a new one lead to members, and only the dots to the directory. -/
theorem View.Branch.entered (branch : view.Branch reserved members dir blocks)
    {later : List DirBinding} {name : Str} {child : Nat} {fileType : UInt8}
    (isMember : child ∈ members) (different : child ≠ dir)
    (entered : ∀ binding ∈ later,
      binding = ⟨name, child, fileType⟩ ∨ binding ∈ view.entries dir) :
    (∀ binding ∈ later, binding.inodeNum ∈ members) ∧
      ∀ binding ∈ later, binding.name ≠ .dot → binding.name ≠ .dotDot →
        binding.inodeNum ≠ dir := by
  constructor
  · intro binding isEntry
    rcases entered binding isEntry with rfl | wasEntry
    · exact isMember
    · exact branch.inside binding wasEntry
  · intro binding isEntry notDot notDotDot
    rcases entered binding isEntry with rfl | wasEntry
    · exact different
    · exact branch.toWellFormed.apart binding wasEntry notDot notDotDot

end Branch

section Entering

variable {reserved members : Set Nat} {dir : Nat} {volume : Volume}
  {blocks : List (List Dirent)} (apart : volume.view.Apart reserved members)
  (branch : volume.view.Branch reserved members dir blocks) {name : Str}
  (enters : Enters volume.view dir name)

include apart branch enters

/-- Entering a name and its binding in the cached index. -/
theorem passage_enterName {child : Nat} (isMember : child ∈ members) (different : child ≠ dir)
    (fileType : UInt8) :
    (∃ added after changed,
      ((volume.view.fs.handle dir).dirAddEntry name child fileType).run volume = .ok () added ∧
      (dirIndexCacheUpdate dir (·.insert name (child, fileType))).run added = .ok () after ∧
      Passage reserved members members (members \ {dir}) volume.view after.view ∧
      after.view.Branch reserved members dir changed ∧
      ∀ binding, binding ∈ after.view.entries dir ↔
        binding = ⟨name, child, fileType⟩ ∨ binding ∈ volume.view.entries dir) ∨
    ∃ error after, ((volume.view.fs.handle dir).dirAddEntry name child fileType).run volume =
        .err error after ∧
      Spares reserved members volume.view after.view ∧ ¬ volume.view.Roomy dir 0 := by
  have wellFormed := branch.toWellFormed
  rcases passage_dirAddEntry apart branch.member wellFormed enters branch.tidy
    (apart.resident child isMember).isInode fileType with
    ⟨added, changed, ran, passage, edited, mem⟩ | failed
  · obtain ⟨inside, others⟩ := branch.entered isMember different fun binding => (mem binding).mp
    obtain ⟨after, updated, indexed, afterBranch, sameEntries⟩ := edited.reindex passage.apart
      (fun index covers => covers.insert (wellFormed.name_ne enters.absent) mem) branch.member
      inside others
    have whole := passage.trans indexed
    rw [Set.inter_self] at whole
    refine Or.inl ⟨added, after, changed, ran, updated, whole, afterBranch, ?_⟩
    rw [sameEntries]
    exact mem
  · exact Or.inr failed

/-- Entering a new inode, or giving up what was taken for it. -/
theorem passage_enterNewInode {child : Nat} (isMember : child ∈ members) (different : child ≠ dir)
    (fileType : UInt8) (rollBack : Call Unit) :
    (∃ after changed,
      ((volume.view.fs.handle dir).enterNewInode name child fileType rollBack).run volume =
        .ok () after ∧
      Passage reserved members members (members \ {dir}) volume.view after.view ∧
      after.view.Branch reserved members dir changed ∧
      ∀ binding, binding ∈ after.view.entries dir ↔
        binding = ⟨name, child, fileType⟩ ∨ binding ∈ volume.view.entries dir) ∨
    ∃ error failed, Spares reserved members volume.view failed.view ∧
      ¬ volume.view.Roomy dir 0 ∧
      ((volume.view.fs.handle dir).enterNewInode name child fileType rollBack).run volume = (do
        rollBack
        deallocInode child
        throw error : Call Unit).run failed := by
  rw [Inode.enterNewInode]
  rcases passage_enterName apart branch enters isMember different fileType with
    ⟨added, after, changed, entered, updated, passage, afterBranch, mem⟩ |
      ⟨error, failed, ended, spares, crowded⟩
  · left
    exact ⟨after, changed, (run_bind_ok (run_attempt_ok entered)).trans updated, passage,
      afterBranch, mem⟩
  · right
    exact ⟨error, failed, spares, crowded, run_bind_ok (run_attempt_err ended)⟩

omit branch enters in
/-- What is left of the call once an inode number is taken and written. -/
theorem run_createInode_taken (fileType : UInt8) (inode : Ext4Inode) :
    (((volume.view.fs.handle dir).createInode name fileType inode).run volume =
        .err .noSpace volume ∧ ¬ volume.view.HasFreeInode) ∨
      ∃ inodeNum taken, volume.view.fs.IsInode inodeNum ∧
        inodeNum ∉ volume.view.held .inode ∧ taken.view = volume.view.take inodeNum inode ∧
        ((volume.view.fs.handle dir).createInode name fileType inode).run volume = (do
          (volume.view.fs.handle dir).enterNewInode name inodeNum fileType (pure ())
          return volume.view.fs.handle inodeNum : Call Inode).run taken := by
  have mounted := apart.mounted
  rw [Inode.createInode]
  rcases view_allocInode mounted.geometry with ⟨ran, full⟩ |
    ⟨inodeNum, second, ran, isItem, free, secondView⟩
  · left
    refine ⟨by rw [run_bind_ok ran, run_bind_err (run_okOr_none _ _)], ?_⟩
    rintro ⟨item, isItem, free⟩
    exact free (full item isItem)
  · right
    obtain ⟨third, invalidated, _, _, thirdView⟩ := run_inodeCachesInvalidate second inodeNum
    rw [secondView] at thirdView
    have sameFs : third.view.fs = volume.view.fs := by
      rw [thirdView]
      rfl
    have isInode : volume.view.fs.IsInode inodeNum := View.isInode_iff.mp isItem
    have layout : Layout third.view.fs reserved := by
      rw [sameFs]
      exact mounted.layout
    have geometry : Geometry third.view.fs := by
      rw [sameFs]
      exact mounted.geometry
    have thirdInode : third.view.fs.IsInode inodeNum := by
      rw [sameFs]
      exact isInode
    have position : third.fs.getInodePos inodeNum = some _ :=
      (layout.handle_spec geometry thirdInode).1
    obtain ⟨taken, wrote, takenView⟩ := view_writeInode layout geometry thirdInode inode
    refine ⟨inodeNum, taken, isInode, free, ?_, ?_⟩
    · rw [takenView, thirdView, View.take]
    · rw [run_bind_ok ran, run_bind_ok (run_okOr_some _ _ _), run_bind_ok invalidated,
        run_bind_ok (run_get _), position, run_bind_ok (run_expect_some _ _)]
      simp only
      rw [run_bind_ok wrote, ← sameFs]
      rfl

omit apart branch enters in
/-- Giving back an inode number that no member has. -/
theorem spares_of_deallocInode {inodeNum : Nat} (mounted : volume.view.Mounted reserved)
    (isInode : volume.view.fs.IsInode inodeNum) (notMember : inodeNum ∉ members) :
    ∃ after, (deallocInode inodeNum).run volume = .ok () after ∧
      Spares reserved members volume.view after.view := by
  obtain ⟨after, freed, afterView⟩ := view_deallocInode mounted.geometry
    (View.isInode_iff.mpr isInode)
  refine ⟨after, freed, ?_⟩
  rw [afterView]
  constructor
  · rfl
  · intro _ _ isHeld
    exact isHeld
  · intro _ _
    exact ⟨rfl, fun _ _ => rfl, fun _ _ isHeld => isHeld⟩
  · intro other isOther inUse
    simp only [View.release, Function.update_self]
    refine ⟨inUse, ?_⟩
    rintro rfl
    exact notMember isOther
  · intro _ _ _ found
    exact Or.inl found
  · intro _ _ _ found
    exact Or.inl found

/-- Making an inode under a new name. -/
theorem passage_createInode (fileType : UInt8) {inode : Ext4Inode} (typed : inode.Typed)
    (nothing : ∀ (view : View) inodeNum, view.inode inodeNum = inode →
      view.owned inodeNum = []) :
    (∃ inodeNum after changed,
      ((volume.view.fs.handle dir).createInode name fileType inode).run volume =
        .ok (volume.view.fs.handle inodeNum) after ∧
      inodeNum ∉ members ∧
      Passage reserved members (insert inodeNum members) (members \ {dir}) volume.view after.view ∧
      after.view.inode inodeNum = inode ∧
      after.view.Branch reserved (insert inodeNum members) dir changed ∧
      ∀ binding, binding ∈ after.view.entries dir ↔
        binding = ⟨name, inodeNum, fileType⟩ ∨ binding ∈ volume.view.entries dir) ∨
    ∃ error after, ((volume.view.fs.handle dir).createInode name fileType inode).run volume =
        .err error after ∧
      Spares reserved members volume.view after.view ∧
      ¬ (volume.view.HasFreeInode ∧ volume.view.Roomy dir 0) := by
  have mounted := apart.mounted
  rcases @run_createInode_taken reserved members dir volume apart name fileType inode with
    ⟨ran, full⟩ | ⟨inodeNum, taken, isInode, free, takenView, rest⟩
  · exact Or.inr ⟨.noSpace, volume, ran, Spares.refl _ _ _, fun room => full room.1⟩
  · have inodeEq : (volume.view.take inodeNum inode).inode inodeNum = inode :=
      @inode_putInode_same ((volume.view.hold .inode inodeNum).forget inodeNum) reserved
        mounted.layout mounted.geometry inodeNum isInode inode
    have notMember := apart.not_mem free
    have taking := apart.passage_take (Spares.refl reserved members volume.view) List.nodup_nil
      (by simp) (by simp) isInode notMember typed (nothing _ _ inodeEq)
    rw [← takenView] at taking inodeEq
    have different : inodeNum ≠ dir := by
      rintro rfl
      exact notMember branch.member
    have takenBranch : taken.view.Branch reserved (insert inodeNum members) dir blocks :=
      branch.spared taking.apart taking.spares branch.member
        (fun binding isEntry => Or.inr (branch.inside binding isEntry)) (Or.inr branch.member)
    have sameEntries := (taking.spares.unchanged dir branch.member).entries_eq
    have takenEnters := branch.enters takenBranch sameEntries enters
    have takenFs : taken.view.fs = volume.view.fs := taking.spares.fs
    have entry := passage_enterNewInode taking.apart takenBranch takenEnters (Set.mem_insert _ _)
      different fileType (pure ())
    rw [takenFs] at entry
    rw [rest]
    rcases entry with ⟨after, changed, entered, passage, afterBranch, mem⟩ |
      ⟨error, failed, spares, crowded, ended⟩
    · left
      have both := taking.trans passage
      rw [← Set.inter_sdiff_assoc, Set.inter_eq_left.mpr (Set.subset_insert _ _)] at both
      rw [sameEntries] at mem
      refine ⟨inodeNum, after, changed, ?_, notMember, both, ?_, afterBranch, mem⟩
      · rw [run_bind_ok entered, run_pure]
      · rw [(passage.spares.unchanged inodeNum ⟨Set.mem_insert _ _, different⟩).inode, inodeEq]
    · right
      have failedFs : failed.view.fs = volume.view.fs := spares.fs.trans takenFs
      obtain ⟨after, freed, released⟩ := spares_of_deallocInode
        (spares.mounted taking.apart.mounted) (by rw [failedFs]; exact isInode) notMember
      refine ⟨error, after, ?_, ?_, fun room => crowded (room.2.unchanged
        (taking.spares.unchanged dir branch.member) takenFs ?_)⟩
      · apply run_bind_err
        rw [ended, run_bind_ok (run_pure _ _), run_bind_ok freed, run_throw]
      · exact taking.spares.trans ((spares.mono (Set.subset_insert _ _)).trans released)
      · rw [takenView]
        rfl

end Entering

end Ext4

end OSWorkspace
