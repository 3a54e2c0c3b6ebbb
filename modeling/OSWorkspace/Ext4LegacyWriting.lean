import OSWorkspace.Ext4FailedWrites
import OSWorkspace.Ext4LegacyReading

/-!
# Writing to files with legacy block pointers

A write takes the map of a file from its extents, and a file without an extent
tree has none: the write gives it a new tree over the blocks of the buffer, in
place of its pointers.  This file says which bytes survive.
-/

namespace OSWorkspace

namespace Ext4

open Exec View

/-- The blocks on a path of pointers, up to a hole. -/
def pathBlocks (disk : Nat → Block) : (blockId : Nat) → (path : List Nat) → List Nat
  | blockId, [] => [blockId]
  | blockId, index :: path =>
      if blockId = 0 then [] else
        blockId :: pathBlocks disk ((disk blockId).uint (index * 4) 4) path

theorem followPath_congr {disk other : Nat → Block} {blockId : Nat} {path : List Nat}
    (agree : ∀ visited ∈ pathBlocks disk blockId path, visited ≠ 0 →
      other visited = disk visited) :
    followPath other blockId path = followPath disk blockId path := by
  induction path generalizing blockId with
  | nil => rfl
  | cons index path ih =>
      rw [followPath, followPath]
      by_cases hole : blockId = 0
      · rw [if_pos hole, if_pos hole]
      · rw [pathBlocks, if_neg hole] at agree
        rw [if_neg hole, if_neg hole, agree blockId List.mem_cons_self hole]
        exact ih fun visited isMem => agree visited (List.mem_cons_of_mem _ isMem)

theorem followPath_mem (disk : Nat → Block) (blockId : Nat) (path : List Nat) :
    followPath disk blockId path = 0 ∨
      followPath disk blockId path ∈ pathBlocks disk blockId path := by
  induction path generalizing blockId with
  | nil => exact Or.inr (List.mem_singleton_self _)
  | cons index path ih =>
      rw [followPath, pathBlocks]
      by_cases hole : blockId = 0
      · rw [if_pos hole]
        exact Or.inl rfl
      · rw [if_neg hole, if_neg hole]
        exact (ih _).imp_right (List.mem_cons_of_mem _)

/-- The blocks behind the pointers for a logical block. -/
def legacyPath (disk : Nat → Block) (root : Bytes iBlockSize) (lblock : Nat) : List Nat :=
  let (pointer, path) := pointerPath lblock
  pathBlocks disk (root.uint (4 * pointer) 4) path

/-- A byte of a block-mapped file, with zeros behind its end. -/
def legacyByte (disk : Nat → Block) (inode : Ext4Inode) (position : Nat) : UInt8 :=
  if position < inode.size then assignedByte disk inode.blockData position else 0

theorem assignedByte_congr {disk other : Nat → Block} {root : Bytes iBlockSize} {position : Nat}
    (agree : ∀ visited ∈ legacyPath disk root (position / blockSz), visited ≠ 0 →
      other visited = disk visited) :
    assignedByte other root position = assignedByte disk root position := by
  have sameBlock : assignedBlock other root (position / blockSz) =
      assignedBlock disk root (position / blockSz) := followPath_congr agree
  rw [assignedByte, assignedByte, sameBlock]
  by_cases hole : assignedBlock disk root (position / blockSz) = 0
  · rw [if_pos hole, if_pos hole]
  · have visited : assignedBlock disk root (position / blockSz) ∈
        legacyPath disk root (position / blockSz) := (followPath_mem disk _ _).resolve_left hole
    rw [if_neg hole, if_neg hole, agree _ visited hole]

/-- A regular file without an extent tree, whose blocks are in use. -/
structure LegacyFile (reserved : Set Nat) (volume : Volume) (inodeNum : Nat) : Prop where
  isInode : volume.view.fs.IsInode inodeNum
  isFile : (volume.view.inode inodeNum).isFile = true
  legacy : (volume.view.inode inodeNum).usesExtents = false
  coherent : volume.view.Coherent inodeNum
  uses : ∀ position < (volume.view.inode inodeNum).size,
    ∀ blockId ∈ legacyPath volume.disk (volume.view.inode inodeNum).blockData (position / blockSz),
      blockId ≠ 0 → blockId ∈ volume.view.held .block ∧ blockId ∉ reserved

/-- A write returns, and the file reads as the old bytes with the buffer over
them; or it fails and leaves the file as it was. -/
def KeepsLegacyBytes (volume : Volume) (inodeNum offset : Nat) (buf : List UInt8) : Prop :=
  let self := volume.view.fs.handle inodeNum
  let inode := volume.view.inode inodeNum
  (∃ count after last, (self.writeAt offset buf).run volume = .ok count after ∧
    self.readAll.run after = .ok ((List.range (max inode.size (offset + buf.length))).map
      (writtenByte (legacyByte volume.disk inode) offset buf)) last) ∨
  ∃ error after, (self.writeAt offset buf).run volume = .err error after ∧
    after.view.inode inodeNum = inode ∧
      ∀ position, legacyByte after.disk inode position = legacyByte volume.disk inode position

/-- The old bytes outside the buffer are zero. -/
def ZeroElsewhere (volume : Volume) (inodeNum offset : Nat) (buf : List UInt8) : Prop :=
  ∀ position < (volume.view.inode inodeNum).size,
    ¬ (offset ≤ position ∧ position < offset + buf.length) →
      assignedByte volume.disk (volume.view.inode inodeNum).blockData position = 0

/-- The blocks that the pointers list when they are read as an extent tree are
in use and hold no metadata; so when they list none. -/
def ListsUsed (reserved : Set Nat) (volume : Volume) (inodeNum : Nat) : Prop :=
  ∀ blockId ∈ volume.view.tree inodeNum,
    blockId ∈ volume.view.held .block ∧ blockId ∉ reserved

/-- The buffer ends below the last logical block, or it is all zeros, so that it
does not show where it wraps around to. -/
def LandsInPlace (offset : Nat) (buf : List UInt8) : Prop :=
  offset + buf.length ≤ u32Max * blockSz ∨
    (offset + buf.length ≤ u64Max ∧ ∀ byte ∈ buf, byte = 0)

/-- The write fails before it changes the map; or what it frees as the old tree
is in use, the buffer lands in place, and all old bytes outside it are zero. -/
def LegacySafe (reserved : Set Nat) (volume : Volume) (inodeNum offset : Nat)
    (buf : List UInt8) : Prop :=
  missingBlocks volume.view inodeNum offset buf = [] ∨
    ¬ FitsMissing volume inodeNum offset buf ∨
    (ListsUsed reserved volume inodeNum ∧ Covered volume.view inodeNum offset buf ∧
      LandsInPlace offset buf ∧ ZeroElsewhere volume inodeNum offset buf)

theorem writtenByte_zeros {buf : List UInt8} (zeros : ∀ byte ∈ buf, byte = 0)
    (offset position : Nat) : writtenByte (fun _ => 0) offset buf position = 0 := by
  rw [writtenByte]
  split
  · next inside =>
      rw [List.getD_eq_getElem _ _ (by omega)]
      exact zeros _ (List.getElem_mem _)
  · rfl

section Writing

variable {reserved : Set Nat} {volume : Volume} {inodeNum : Nat}
  (mounted : volume.view.Mounted reserved) (file : LegacyFile reserved volume inodeNum)

include file

theorem LegacyFile.extents_eq : volume.view.extents inodeNum = [] := by
  rw [View.extents, file.legacy]
  rfl

theorem LegacyFile.owning (listed : ListsUsed reserved volume inodeNum) :
    volume.view.Owning reserved inodeNum := by
  have ownedEq : volume.view.owned inodeNum = volume.view.tree inodeNum := by
    rw [View.owned, file.extents_eq]
    rfl
  constructor
  · rw [ownedEq]
    exact nodup_treeBlocks _ _
  · rw [ownedEq]
    exact fun blockId isTree => (listed blockId isTree).1
  · rw [ownedEq]
    exact fun blockId isTree => (listed blockId isTree).2

include mounted

/-- A step that leaves the blocks in use alone leaves the bytes of the file. -/
theorem LegacyFile.legacyByte_eq {after : Volume} (sameFs : after.view.fs = volume.view.fs)
    (blocks : ∀ blockId ∈ volume.view.held .block, after.view.data blockId =
      volume.view.data blockId) (position : Nat) :
    legacyByte after.disk (volume.view.inode inodeNum) position =
      legacyByte volume.disk (volume.view.inode inodeNum) position := by
  rw [legacyByte, legacyByte]
  by_cases inside : position < (volume.view.inode inodeNum).size
  · rw [if_pos inside, if_pos inside]
    apply assignedByte_congr
    intro visited isMem notHole
    obtain ⟨isHeld, outside⟩ := file.uses position inside visited isMem notHole
    have notBitmap : ¬ volume.fs.IsBitmap visited := fun isBitmap =>
      outside (mounted.layout.bitmaps visited isBitmap)
    have afterNotBitmap : ¬ after.fs.IsBitmap visited := fun isBitmap =>
      outside (mounted.layout.bitmaps visited (by rw [← sameFs]; exact isBitmap))
    rw [← Volume.data_of_not_bitmap notBitmap, ← Volume.data_of_not_bitmap afterNotBitmap,
      blocks visited isHeld]
  · rw [if_neg inside, if_neg inside]

/-- Blocks without a use were taken at most, so the file is as before. -/
theorem LegacyFile.unchanged {after : Volume} (sameFs : after.view.fs = volume.view.fs)
    (blocks : ∀ blockId ∈ volume.view.held .block, after.view.data blockId =
      volume.view.data blockId) :
    after.view.inode inodeNum = volume.view.inode inodeNum ∧
      ∀ position, legacyByte after.disk (volume.view.inode inodeNum) position =
        legacyByte volume.disk (volume.view.inode inodeNum) position :=
  ⟨inode_congr mounted.layout mounted.geometry file.isInode sameFs fun blockId isReserved =>
    blocks blockId (mounted.reserved blockId isReserved), file.legacyByte_eq mounted sameFs blocks⟩

/-- The write path finds no extents. -/
theorem LegacyFile.run_currentExtents :
    (volume.view.fs.handle inodeNum).currentExtents.run volume = .ok [] volume := by
  rw [Inode.currentExtents, run_bind_ok (run_get _)]
  cases cached : volume.extentsCache[(volume.view.fs.handle inodeNum).inodeNum]? with
  | some extents =>
      have noExtents := (file.coherent extents cached).trans file.extents_eq
      rw [← noExtents]
      rfl
  | none =>
      simp only
      rw [Inode.readExtentsAny, run_bind_ok (view_readDiskInode mounted.layout mounted.geometry
        file.isInode), file.legacy]
      rfl

/-- A range that wraps to an empty one maps nothing, and the first byte of the
buffer has no block. -/
theorem LegacyFile.fails_empty {offset : Nat} {buf : List UInt8} (nonempty : buf ≠ [])
    (nothing : missingBlocks volume.view inodeNum offset buf = []) :
    ∃ after, ((volume.view.fs.handle inodeNum).writeAt offset buf).run volume =
        .err .unsupported after ∧
      after.view.fs = volume.view.fs ∧ after.view.data = volume.view.data := by
  have empty := (missingBlocks_eq_nil_iff file.extents_eq).mp nothing
  obtain ⟨after, put, cache, afterView, _⟩ := view_extentsCachePut volume inodeNum []
  have mapped : ((volume.view.fs.handle inodeNum).ensureWriteBlocks (writeStart offset)
      (writeStop offset buf)).run volume = .ok [] after := by
    rw [Inode.ensureWriteBlocks, run_bind_ok (file.run_currentExtents mounted),
      Nat.sub_eq_zero_of_le empty]
    exact (run_bind_ok (run_pure _ _)).trans (run_bind_ok put)
  refine ⟨after, ?_, by rw [afterView], by rw [afterView]⟩
  rw [run_writeAt_blocks mounted file.isInode (Or.inl file.isFile) nonempty
    (notInline_of_isFile file.isFile offset buf), run_bind_ok mapped]
  cases buf with
  | nil => exact absurd rfl nonempty
  | cons byte bytes => exact run_bind_err rfl

/-- Blocks that do not fit, and a range that wraps to an empty one, change no
byte of the file. -/
theorem LegacyFile.fails_unchanged {offset : Nat} {buf : List UInt8} (nonempty : buf ≠ [])
    (spared : missingBlocks volume.view inodeNum offset buf = [] ∨
      ¬ FitsMissing volume inodeNum offset buf) :
    ∃ error after, ((volume.view.fs.handle inodeNum).writeAt offset buf).run volume =
        .err error after ∧
      after.view.inode inodeNum = volume.view.inode inodeNum ∧
      ∀ position, legacyByte after.disk (volume.view.inode inodeNum) position =
        legacyByte volume.disk (volume.view.inode inodeNum) position := by
  by_cases nothing : missingBlocks volume.view inodeNum offset buf = []
  · obtain ⟨after, ended, sameFs, sameData⟩ := file.fails_empty mounted nonempty nothing
    exact ⟨_, after, ended, file.unchanged mounted sameFs fun blockId _ => by rw [sameData]⟩
  · have noRoom := spared.resolve_left nothing
    rw [FitsMissing, missingBlocks, file.extents_eq] at noRoom
    rw [missingBlocks, file.extents_eq] at nothing
    obtain ⟨error, after, failed, leaks⟩ := ensureWriteBlocks_noRoom mounted file.isInode
      (file.run_currentExtents mounted) (writeStart_le offset) (writeStop_le offset buf) nothing
      noRoom
    refine ⟨error, after, ?_, file.unchanged mounted leaks.fs leaks.data⟩
    rw [run_writeAt_blocks mounted file.isInode (Or.inl file.isFile) nonempty
      (notInline_of_isFile file.isFile offset buf), run_bind_err failed]

end Writing

section Keeping

variable {reserved : Set Nat} {volume : Volume} {inodeNum : Nat}
  (mounted : volume.view.Mounted reserved) (file : LegacyFile reserved volume inodeNum)
  (listed : ListsUsed reserved volume inodeNum) {offset : Nat} {buf : List UInt8}
  (nonempty : buf ≠ [])

include mounted file listed nonempty

/-- After a write the file has the bytes of the buffer and no others. -/
theorem LegacyFile.reads {count : Nat} {after : Volume}
    (ran : ((volume.view.fs.handle inodeNum).writeAt offset buf).run volume = .ok count after) :
    (∀ index < buf.length, (offset + index) % addressable = offset % addressable + index) ∧
      ∃ last, (volume.view.fs.handle inodeNum).readAll.run after =
        .ok ((List.range (max (volume.view.inode inodeNum).size (writeEnd offset buf))).map
          (writtenByte (fun _ => 0) (offset % addressable) buf)) last := by
  have owning := file.owning listed
  have tidy : Tidy (volume.view.extents inodeNum) := by
    rw [file.extents_eq]
    exact ⟨List.Pairwise.nil, fun _ => nofun, fun _ => nofun⟩
  rcases view_writeAt_blocks mounted file.isInode owning file.coherent (Or.inl file.isFile)
      nonempty (notInline_of_isFile file.isFile offset buf) with
    ⟨other, ended, wrote⟩ | ⟨error, other, ended, _⟩ | ⟨other, ended, _⟩
  · rw [ran] at ended
    cases ended
    have sameFs := wrote.step.fs
    have isFile : (after.view.inode inodeNum).isFile = true := by
      rw [Ext4Inode.isFile, Ext4Inode.fileType, wrote.mode]
      exact file.isFile
    have usesExtents : (after.view.inode inodeNum).usesExtents = true := by
      by_contra legacy
      have mapped := wrote.mapped 0 (List.length_pos_of_ne_nil nonempty)
      rw [View.extents, if_neg legacy] at mapped
      exact mapped rfl
    obtain ⟨last, read⟩ := @view_readAll after reserved (wrote.step.mounted mounted owning)
      inodeNum (by rw [sameFs]; exact file.isInode) wrote.step.owning wrote.step.coherent
      usesExtents (by simp [Ext4Inode.not_isSymlink_of_isFile isFile]) (wrote.tidy tidy).ordered
    refine ⟨fun index indexLt => ?_, last, ?_⟩
    · exact Reaches.mod_add fun earlier earlierLe => wrote.mapped earlier (by omega)
    · rw [sameFs, wrote.size] at read
      rw [read]
      congr 2
      funext position
      rw [wrote.wrapped tidy position, file.extents_eq]
      rfl
  · rw [ran] at ended
    cases ended
  · rw [ran] at ended
    cases ended

theorem LegacyFile.reads_written (inPlace : LandsInPlace offset buf) {count : Nat}
    {after : Volume}
    (ran : ((volume.view.fs.handle inodeNum).writeAt offset buf).run volume = .ok count after) :
    ∃ last, (volume.view.fs.handle inodeNum).readAll.run after =
      .ok ((List.range (max (volume.view.inode inodeNum).size (offset + buf.length))).map
        (writtenByte (fun _ => 0) offset buf)) last := by
  obtain ⟨_, last, read⟩ := file.reads mounted listed nonempty ran
  have positive := List.length_pos_of_ne_nil nonempty
  refine ⟨last, ?_⟩
  rcases inPlace with near | ⟨small, zeros⟩
  · have endEq : writeEnd offset buf = offset + buf.length := by
      simp only [writeEnd, u32Max, blockSz, u64Max] at near ⊢
      omega
    have startEq : offset % addressable = offset := by
      simp only [addressable, u32Max, blockSz] at near ⊢
      omega
    rw [read, endEq, startEq]
  · have same : writtenByte (fun _ => 0) (offset % addressable) buf =
        writtenByte (fun _ => 0) offset buf := by
      funext position
      rw [writtenByte_zeros zeros, writtenByte_zeros zeros]
    rw [read, writeEnd, Nat.min_eq_left small, same]

/-- A buffer that reads back over the old bytes has landed in place. -/
theorem LegacyFile.landsInPlace (covered : Covered volume.view inodeNum offset buf) {count : Nat}
    {after last : Volume} {old : Nat → UInt8}
    (ran : ((volume.view.fs.handle inodeNum).writeAt offset buf).run volume = .ok count after)
    (read : (volume.view.fs.handle inodeNum).readAll.run after =
      .ok ((List.range (max (volume.view.inode inodeNum).size (offset + buf.length))).map
        (writtenByte old offset buf)) last) : LandsInPlace offset buf := by
  by_cases near : offset + buf.length ≤ u32Max * blockSz
  · exact Or.inl near
  have far : addressable ≤ offset := by
    by_contra low
    exact not_covered_of_far volume.view inodeNum nonempty (Nat.not_le.mp low)
      (Nat.not_le.mp near) covered
  obtain ⟨inRange, other, wrapped⟩ := file.reads mounted listed nonempty ran
  rw [read] at wrapped
  have same := (Outcome.ok.inj wrapped).1
  have sizeLt := (volume.view.inode inodeNum).size_lt
  have lengths := congrArg List.length same
  simp only [List.length_map, List.length_range, writeEnd] at lengths
  right
  constructor
  · simp only [u64Max] at lengths ⊢
    omega
  · intro byte isMem
    obtain ⟨index, indexLt, rfl⟩ := List.mem_iff_getElem.mp isMem
    have below := inRange index indexLt
    have modLt := Nat.mod_lt (offset + index) (by decide : 0 < addressable)
    have lastBelow := inRange (buf.length - 1) (by omega)
    have lastLt := Nat.mod_lt (offset + (buf.length - 1)) (by decide : 0 < addressable)
    -- The position lies behind every byte that the wrapped write has reached.
    have here := congrArg (fun values => values[offset + index]?) same
    simp only [List.getElem?_map, List.getElem?_range (show offset + index <
      max (volume.view.inode inodeNum).size (offset + buf.length) by omega),
      List.getElem?_range (show offset + index < max (volume.view.inode inodeNum).size
        (writeEnd offset buf) by rw [writeEnd, ← lengths]; omega), Option.map_some] at here
    have value := Option.some.inj here
    rw [writtenByte, if_pos (by omega), writtenByte, if_neg (by omega), Nat.add_sub_cancel_left,
      List.getD_eq_getElem _ _ indexLt] at value
    exact value

theorem LegacyFile.writes (missing : missingBlocks volume.view inodeNum offset buf ≠ [])
    (fits : FitsMissing volume inodeNum offset buf)
    (covered : Covered volume.view inodeNum offset buf) :
    ∃ after, ((volume.view.fs.handle inodeNum).writeAt offset buf).run volume =
      .ok buf.length after := by
  rcases writeAt_missing_outcome mounted file.isInode (file.owning listed) file.coherent
      (Or.inl file.isFile) nonempty (notInline_of_isFile file.isFile offset buf) missing with
    ⟨_, ⟨_, finished⟩ | ⟨notCovered, _⟩⟩ | ⟨noRoom, _⟩
  · exact finished
  · exact absurd covered notCovered
  · exact absurd fits noRoom

/-- A buffer with a byte that gets no block fails there, behind the change of the
map. -/
theorem LegacyFile.fails_changed (missing : missingBlocks volume.view inodeNum offset buf ≠ [])
    (fits : FitsMissing volume inodeNum offset buf)
    (notCovered : ¬ Covered volume.view inodeNum offset buf) :
    ∃ error after, ((volume.view.fs.handle inodeNum).writeAt offset buf).run volume =
        .err error after ∧
      after.view.inode inodeNum ≠ volume.view.inode inodeNum := by
  rcases writeAt_missing_outcome mounted file.isInode (file.owning listed) file.coherent
      (Or.inl file.isFile) nonempty (notInline_of_isFile file.isFile offset buf) missing with
    ⟨_, ⟨covered, _⟩ | ⟨_, new, result, middle, after, ended, someNew, _, grows, extended, step⟩⟩ |
    ⟨noRoom, _⟩
  · exact absurd covered notCovered
  · refine ⟨_, after, ended, ?_⟩
    intro sameInode
    obtain ⟨_, _, extentsEq, _⟩ := extended.copied mounted file.isInode (file.owning listed) step
    rw [View.extents, sameInode, file.legacy] at extentsEq
    have noBlocks := grows.dataBlocks
    rw [← extentsEq] at noBlocks
    exact someNew (List.append_eq_nil_iff.mp (List.perm_nil.mp noBlocks.symm)).1
  · exact absurd fits noRoom

end Keeping

/-- The written bytes agree with the old ones under the buffer exactly when the
old ones elsewhere are zero. -/
theorem map_writtenByte_eq_iff {old : Nat → UInt8} {offset : Nat} {buf : List UInt8} {size : Nat}
    (behind : ∀ position, size ≤ position → old position = 0) :
    (List.range (max size (offset + buf.length))).map (writtenByte (fun _ => 0) offset buf) =
        (List.range (max size (offset + buf.length))).map (writtenByte old offset buf) ↔
      ∀ position < size, ¬ (offset ≤ position ∧ position < offset + buf.length) →
        old position = 0 := by
  rw [List.map_inj_left]
  constructor
  · intro agree position inside outside
    have same := agree position (List.mem_range.mpr (by omega))
    rw [writtenByte, writtenByte, if_neg outside, if_neg outside] at same
    exact same.symm
  · intro zero position _
    rw [writtenByte, writtenByte]
    by_cases covered : offset ≤ position ∧ position < offset + buf.length
    · rw [if_pos covered, if_pos covered]
    · rw [if_neg covered, if_neg covered]
      by_cases inside : position < size
      · exact (zero position inside covered).symm
      · exact (behind position (by omega)).symm

/-- A write to a block-mapped file keeps its other bytes when it is safe; and only
then, when the blocks that the pointers list as an extent tree are in use. -/
theorem keepsLegacyBytes {reserved : Set Nat} {volume : Volume} {inodeNum : Nat}
    (mounted : volume.view.Mounted reserved) (file : LegacyFile reserved volume inodeNum)
    (offset : Nat) {buf : List UInt8} (nonempty : buf ≠ []) :
    (LegacySafe reserved volume inodeNum offset buf →
      KeepsLegacyBytes volume inodeNum offset buf) ∧
      (ListsUsed reserved volume inodeNum → KeepsLegacyBytes volume inodeNum offset buf →
        LegacySafe reserved volume inodeNum offset buf) := by
  have behind (position : Nat) (past : (volume.view.inode inodeNum).size ≤ position) :
      legacyByte volume.disk (volume.view.inode inodeNum) position = 0 := by
    rw [legacyByte, if_neg (by omega)]
  have zeroIff : (∀ position < (volume.view.inode inodeNum).size,
      ¬ (offset ≤ position ∧ position < offset + buf.length) →
        legacyByte volume.disk (volume.view.inode inodeNum) position = 0) ↔
      ZeroElsewhere volume inodeNum offset buf := by
    refine forall₂_congr fun position inside => ?_
    rw [legacyByte, if_pos inside]
  constructor
  · intro safe
    by_cases spared : missingBlocks volume.view inodeNum offset buf = [] ∨
        ¬ FitsMissing volume inodeNum offset buf
    · exact Or.inr (file.fails_unchanged mounted nonempty spared)
    · obtain ⟨missing, fits⟩ := not_or.mp spared
      obtain ⟨listed, covered, inPlace, zero⟩ :=
        (safe.resolve_left missing).resolve_left fits
      obtain ⟨after, ended⟩ := file.writes mounted listed nonempty missing (not_not.mp fits) covered
      obtain ⟨last, read⟩ := file.reads_written mounted listed nonempty inPlace ended
      refine Or.inl ⟨_, after, last, ended, ?_⟩
      rw [read, (map_writtenByte_eq_iff behind).mpr (zeroIff.mpr zero)]
  · intro listed keeps
    by_cases missing : missingBlocks volume.view inodeNum offset buf = []
    · exact Or.inl missing
    by_cases fits : FitsMissing volume inodeNum offset buf
    · right
      right
      rcases keeps with ⟨count, after, last, ended, expected⟩ | ⟨error, after, ended, same, _⟩
      · have covered : Covered volume.view inodeNum offset buf := by
          by_contra notCovered
          obtain ⟨_, _, failed, _⟩ := file.fails_changed mounted listed nonempty missing fits
            notCovered
          rw [ended] at failed
          cases failed
        have inPlace := file.landsInPlace mounted listed nonempty covered ended expected
        obtain ⟨other, read⟩ := file.reads_written mounted listed nonempty inPlace ended
        rw [read] at expected
        exact ⟨listed, covered, inPlace, zeroIff.mp ((map_writtenByte_eq_iff behind).mp
          (Outcome.ok.inj expected).1)⟩
      · by_cases covered : Covered volume.view inodeNum offset buf
        · obtain ⟨_, finished⟩ := file.writes mounted listed nonempty missing fits covered
          rw [ended] at finished
          cases finished
        · obtain ⟨_, _, failed, changed⟩ := file.fails_changed mounted listed nonempty missing fits
            covered
          rw [ended] at failed
          cases failed
          exact absurd same changed
    · exact Or.inr (Or.inl fits)

/-- A file of two bytes in block 20. -/
def legacyInode : Ext4Inode :=
  ((Ext4Inode.setIMode .zeroed 0x8000).setSize 2).setBlockData (Bytes.zeroed.write 0 [20])

/-- The crowded volume with a block-mapped file in inode 12. -/
def legacyVolume : Volume :=
  (crowdedVolume.putBlock 20 (Bytes.zeroed.write 0 [5, 6])).putBlock 4
    ((Bytes.zeroed : Block).paste (11 * 256) legacyInode)

theorem view_legacyVolume : legacyVolume.view =
    (crowdedVolume.view.put 20 (Bytes.zeroed.write 0 [5, 6])).put 4
      ((Bytes.zeroed : Block).paste (11 * 256) legacyInode) := by
  have geometry := Volume.geometry_view.mp mounted_crowdedVolume.geometry
  have sameGeometry : Geometry (crowdedVolume.putBlock 20 (Bytes.zeroed.write 0 [5, 6])).fs :=
    geometry
  rw [legacyVolume, Volume.view_putBlock sameGeometry (by decide), Volume.view_putBlock geometry
    (by decide)]

theorem mounted_legacyVolume : legacyVolume.view.Mounted {block | block ≤ 5} := by
  rw [view_legacyVolume]
  exact ⟨mounted_crowdedVolume.geometry, mounted_crowdedVolume.small, mounted_crowdedVolume.layout,
    mounted_crowdedVolume.reserved⟩

theorem inode_legacyVolume : legacyVolume.view.inode 12 = legacyInode := by
  have position : legacyVolume.view.fs.handle 12 = ⟨12, 4, 11 * 256⟩ := by decide
  rw [View.inode, position, view_legacyVolume]
  exact Bytes.extract_paste _ _ (by decide)

theorem held_legacyVolume {block : Nat} :
    block ∈ legacyVolume.view.held .block ↔ block < 63 := by
  rw [view_legacyVolume]
  exact held_crowdedVolume

theorem legacyFile_legacyVolume : LegacyFile {block | block ≤ 5} legacyVolume 12 := by
  refine ⟨⟨by decide, by decide⟩, ?_, ?_, ?_, ?_⟩
  · rw [inode_legacyVolume]
    decide
  · rw [inode_legacyVolume]
    decide
  · intro extents found
    cases found
  · rw [inode_legacyVolume]
    intro position inside blockId isMem _
    have first : position / blockSz = 0 := by
      have size : legacyInode.size = 2 := by decide
      rw [size] at inside
      exact Nat.div_eq_of_lt (by simp only [blockSz]; omega)
    have path : legacyPath legacyVolume.disk legacyInode.blockData 0 = [20] := by decide
    rw [first, path] at isMem
    rw [List.mem_singleton.mp isMem, held_legacyVolume]
    decide

theorem keepsLegacyBytes_legacyVolume :
    (LegacySafe {block | block ≤ 5} legacyVolume 12 0 [1] →
      KeepsLegacyBytes legacyVolume 12 0 [1]) ∧
      (ListsUsed {block | block ≤ 5} legacyVolume 12 → KeepsLegacyBytes legacyVolume 12 0 [1] →
        LegacySafe {block | block ≤ 5} legacyVolume 12 0 [1]) :=
  keepsLegacyBytes mounted_legacyVolume legacyFile_legacyVolume 0 (List.cons_ne_nil _ _)

/-- A write to the first byte loses the second. -/
theorem not_keepsLegacyBytes_legacyVolume :
    LegacyFile {block | block ≤ 5} legacyVolume 12 ∧
      ¬ KeepsLegacyBytes legacyVolume 12 0 [1] := by
  refine ⟨legacyFile_legacyVolume, ?_⟩
  intro keeps
  have listed : ListsUsed {block | block ≤ 5} legacyVolume 12 := by
    have noTree : legacyVolume.view.tree 12 = [] := by
      rw [View.tree, inode_legacyVolume]
      decide
    rw [ListsUsed, noTree]
    simp
  have missing : missingBlocks legacyVolume.view 12 0 [1] = [0] := by
    rw [missingBlocks, legacyFile_legacyVolume.extents_eq]
    decide
  have handed : handedOut legacyVolume 1 = [63] := by decide
  have fits : FitsMissing legacyVolume 12 0 [1] := by
    rw [FitsMissing, missing, legacyFile_legacyVolume.extents_eq]
    simp only [List.length_singleton, handed]
    refine ⟨by decide, [63], ⟨List.nodup_singleton _, ?_, ?_⟩, by decide⟩
    · intro block isLast
      rw [List.mem_singleton.mp isLast, view_legacyVolume]
      exact isItem_crowdedVolume.mpr (by decide)
    · intro block isLast
      rw [List.mem_singleton.mp isLast, held_legacyVolume]
      decide
  obtain ⟨after, ended⟩ := legacyFile_legacyVolume.writes mounted_legacyVolume listed
    (List.cons_ne_nil _ _) (by rw [missing]; exact List.cons_ne_nil _ _) fits
    (covered_of_near _ _ (by decide))
  obtain ⟨last, read⟩ := legacyFile_legacyVolume.reads_written mounted_legacyVolume listed
    (List.cons_ne_nil _ _) (Or.inl (by decide)) ended
  rcases keeps with ⟨count, other, second, otherEnded, expected⟩ | ⟨error, other, otherEnded, _⟩
  · rw [ended] at otherEnded
    cases otherEnded
    rw [read, inode_legacyVolume] at expected
    have same := (Outcome.ok.inj expected).1
    revert same
    decide
  · rw [ended] at otherEnded
    cases otherEnded

end Ext4

end OSWorkspace
