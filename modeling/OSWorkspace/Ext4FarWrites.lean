import OSWorkspace.Ext4FailedWrites

/-!
# Writes past the addressable range

Logical blocks are numbered with 32 bits, and a write truncates the numbers of
its first block, of its end and of every block of its copy.  This file says
when a write that reaches past the last number is refused.
-/

namespace OSWorkspace

namespace Ext4

open Exec View

/-- No size, no mapping and no byte of a file changed: the inodes are the same,
and so are all blocks in use but for bytes of the file behind its end. -/
structure Untouched (inodeNum : Nat) (view after : View) : Prop where
  inodes : ∀ other, view.fs.IsInode other → after.inode other = view.inode other
  blocks : ∀ blockId ∈ view.held .block, blockId ∉ dataBlocks (view.extents inodeNum) →
    after.data blockId = view.data blockId
  bytes : ∀ position < (view.inode inodeNum).size,
    byteAt after.data (after.extents inodeNum) position =
      byteAt view.data (view.extents inodeNum) position

/-- A write with a byte past the addressable range fails and changes nothing. -/
def RefusesFar (volume : Volume) (inodeNum offset : Nat) (buf : List UInt8) : Prop :=
  addressable < offset + buf.length →
    ∃ error after, ((volume.view.fs.handle inodeNum).writeAt offset buf).run volume =
        .err error after ∧
      Untouched inodeNum volume.view after.view

/-- No block is missing in the truncated range, and the copy meets an unmapped
block before it changes a byte; or blocks are missing and do not fit. -/
def StopsEarly (volume : Volume) (inodeNum offset : Nat) (buf : List UInt8) : Prop :=
  (missingBlocks volume.view inodeNum offset buf = [] ∧
      ¬ Covered volume.view inodeNum offset buf ∧
      AlreadyWritten volume.view inodeNum offset buf) ∨
    (missingBlocks volume.view inodeNum offset buf ≠ [] ∧
      ¬ FitsMissing volume inodeNum offset buf)

/-- New blocks in the map show in the inode or in its tree. -/
theorem not_untouched_extended {reserved : Set Nat} {inodeNum : Nat} {view : View}
    {new : List Nat} {result : List Ext4Extent} {middle after : View}
    (mounted : view.Mounted reserved) (isInode : view.fs.IsInode inodeNum)
    (owning : view.Owning reserved inodeNum)
    (extended : Extended reserved inodeNum view new result middle)
    (grows : Grows (view.extents inodeNum) new result) (fresh : view.Fresh new)
    (someNew : new ≠ []) (step : DataStep result middle after) :
    ¬ Untouched inodeNum view after := by
  intro untouched
  obtain ⟨pblock, isNew⟩ := List.exists_mem_of_ne_nil new someNew
  obtain ⟨_, _, extentsEq, _⟩ := extended.copied mounted isInode owning step
  have sameExtents : after.extents inodeNum = view.extents inodeNum :=
    (View.extents_congr (untouched.inodes inodeNum isInode) fun blockId isTree =>
      untouched.blocks blockId (owning.held blockId (View.mem_owned.mpr (Or.inr isTree)))
        fun isData => (List.nodup_append.mp owning.nodup).2.2 blockId isData blockId isTree rfl).1
  rw [extentsEq] at sameExtents
  have isData : pblock ∈ dataBlocks (view.extents inodeNum) := by
    rw [← sameExtents]
    exact grows.dataBlocks.symm.subset (List.mem_append_left _ isNew)
  exact fresh.free pblock isNew (owning.held pblock (View.mem_owned.mpr (Or.inl isData)))

/-- A write past the addressable range is refused exactly when it stops early. -/
theorem refusesFar_iff {reserved : Set Nat} {inodeNum : Nat} {volume : Volume}
    (mounted : volume.view.Mounted reserved) (isInode : volume.view.fs.IsInode inodeNum)
    (owning : volume.view.Owning reserved inodeNum)
    (coherent : volume.view.Coherent inodeNum)
    (isFile : (volume.view.inode inodeNum).isFile = true)
    (ordered : Ordered (volume.view.extents inodeNum)) (offset : Nat) {buf : List UInt8}
    (nonempty : buf ≠ []) :
    RefusesFar volume inodeNum offset buf ↔
      (addressable < offset + buf.length → StopsEarly volume inodeNum offset buf) := by
  apply imp_congr_right
  intro _
  by_cases nothing : missingBlocks volume.view inodeNum offset buf = []
  · simp only [StopsEarly, nothing, true_and, ne_eq, not_true_eq_false, false_and, or_false]
    rcases writeAt_mapped_outcome mounted isInode owning coherent (Or.inl isFile) nonempty
        (notInline_of_isFile isFile offset buf) nothing with
      ⟨covered, after, ended⟩ |
      ⟨notCovered, middle, after, cache, count, ended, middleView, extended, fails⟩
    · refine iff_of_false ?_ fun both => both.1 covered
      rintro ⟨error, other, otherEnded, _⟩
      rw [ended] at otherEnded
      cases otherEnded
    · rw [and_iff_right notCovered]
      constructor
      · rintro ⟨error, other, otherEnded, untouched⟩
        rw [ended] at otherEnded
        cases otherEnded
        exact alreadyWritten_of_bytes mounted isInode owning ordered middleView extended fails
          untouched.bytes
      · intro already
        have noTrace := leavesNoTrace_of_alreadyWritten mounted isInode owning ordered middleView
          extended fails already
        exact ⟨.unsupported, after, ended, noTrace.inodes, noTrace.blocks, noTrace.bytes⟩
  · simp only [StopsEarly, nothing, false_and, false_or, ne_eq, not_false_eq_true, true_and]
    rcases writeAt_missing_outcome mounted isInode owning coherent (Or.inl isFile) nonempty
        (notInline_of_isFile isFile offset buf) nothing with
      ⟨room, ⟨_, after, ended⟩ |
        ⟨_, new, result, middle, after, ended, someNew, fresh, grows, extended, step⟩⟩ |
      ⟨noRoom, error, after, ended, leaks⟩
    · refine iff_of_false ?_ fun noRoom => noRoom room
      rintro ⟨error, other, otherEnded, _⟩
      rw [ended] at otherEnded
      cases otherEnded
    · refine iff_of_false ?_ fun noRoom => noRoom room
      rintro ⟨error, other, otherEnded, untouched⟩
      rw [ended] at otherEnded
      cases otherEnded
      exact not_untouched_extended mounted isInode owning extended grows fresh someNew step
        untouched
    · obtain ⟨inodes, bytes⟩ := leaks_same mounted isInode owning coherent leaks
      exact iff_of_true ⟨error, after, ended, inodes,
        fun blockId isHeld _ => leaks.data blockId isHeld, fun position _ => bytes position⟩ noRoom

theorem refusesFar_iff_crowded :
    RefusesFar crowdedVolume 12 (2 ^ 44) [1] ↔
      (addressable < 2 ^ 44 + 1 → StopsEarly crowdedVolume 12 (2 ^ 44) [1]) :=
  refusesFar_iff mounted_crowdedVolume isInode_crowdedVolume owning_crowdedVolume
    (coherent_crowdedVolume 12) isFile_crowdedVolume
    (by rw [extents_crowdedVolume.1]; exact List.Pairwise.nil) (2 ^ 44) (List.cons_ne_nil _ _)

/-- A byte at the first position past the range goes to the first block. -/
theorem not_refusesFar_crowded :
    (crowdedVolume.view.inode 12).isFile = true ∧
      (crowdedVolume.view.inode 12).usesExtents = true ∧
      ¬ RefusesFar crowdedVolume 12 (2 ^ 44) [1] := by
  refine ⟨isFile_crowdedVolume, by rw [inode_crowdedVolume]; decide, ?_⟩
  intro refuses
  obtain ⟨error, after, ended, _⟩ := refuses (by decide)
  have missing : missingBlocks crowdedVolume.view 12 (2 ^ 44) [1] = [0] := by
    rw [missingBlocks, extents_crowdedVolume.1]
    decide
  have handed : handedOut crowdedVolume 1 = [63] := by decide
  have fits : FitsMissing crowdedVolume 12 (2 ^ 44) [1] := by
    rw [FitsMissing, missing, extents_crowdedVolume.1]
    simp only [List.length_singleton, handed]
    refine ⟨by decide, [63], ⟨List.nodup_singleton _, ?_, ?_⟩, by decide⟩
    · intro block isLast
      rw [List.mem_singleton.mp isLast]
      exact isItem_crowdedVolume.mpr (by decide)
    · intro block isLast
      rw [List.mem_singleton.mp isLast, held_crowdedVolume]
      decide
  have covered : Covered crowdedVolume.view 12 (2 ^ 44) [1] := by
    intro index indexLt
    obtain rfl : index = 0 := Nat.lt_one_iff.mp indexLt
    exact Or.inr (by decide)
  rcases writeAt_missing_outcome mounted_crowdedVolume isInode_crowdedVolume owning_crowdedVolume
      (coherent_crowdedVolume 12) (Or.inl isFile_crowdedVolume) (List.cons_ne_nil 1 [])
      (notInline_of_isFile isFile_crowdedVolume _ _) (by rw [missing]; exact List.cons_ne_nil _ _) with
    ⟨_, ⟨_, other, otherEnded⟩ | ⟨notCovered, _⟩⟩ | ⟨noRoom, _⟩
  · rw [ended] at otherEnded
    cases otherEnded
  · exact notCovered covered
  · exact noRoom fits

end Ext4

end OSWorkspace
