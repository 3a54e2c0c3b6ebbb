import OSWorkspace.Ext4DirectoryLookups

/-!
# Repaired modes

A lookup gives a type to an inode that has none, from the type in the entry or from
the first bytes of the inode.  This file says which mode that is, and what a listing
shows, as functions of the bytes of the disk; the calls agree with them as long as
the cached extents of the inode are those of the disk.
-/

namespace OSWorkspace

namespace Ext4

open Exec View

namespace Volume

/-- What a read of an inode returns when its extents are those of the disk. -/
def bytesAt (volume : Volume) (self : Inode) (offset : Nat) (buf : List UInt8) :
    Nat × List UInt8 :=
  let inode := volume.inodeOf self
  let readLen := min buf.length (inode.size - offset)
  if offset ≥ inode.size ∨ readLen = 0 then (0, buf)
  else if inode.isSymlink ∧ inode.size ≤ iBlockSize then
    (readLen, inode.blockData.slice offset readLen ++ buf.drop readLen)
  else if inode.usesExtents then
    (readLen, readFromExtents volume.disk (volume.extentsOf self) offset readLen ++
      buf.drop readLen)
  else
    let bytes := (readIndirect volume.disk inode.blockData readLen offset readLen).getD []
    (bytes.length, bytes ++ List.replicate (readLen - bytes.length) 0 ++ buf.drop readLen)

/-- The inode has two records and starts like a directory. -/
def looksLikeDir (volume : Volume) (self : Inode) : Bool :=
  let size := (volume.inodeOf self).size
  let found := volume.bytesAt self 0 (List.replicate (min blockSz size) 0)
  if size < Ext4DirEntry.fixedSize * 2 then false
  else if found.1 < Ext4DirEntry.fixedSize * 2 then false
  else startsLikeDir found.2 found.1 self.inodeNum

/-- The type bits for an inode without any. -/
def kindFromEntry (volume : Volume) (self : Inode) (fileType : UInt8) : Nat :=
  if fileType = Ext4DirEntry.ftRegFile then sIfreg
  else if fileType = Ext4DirEntry.ftSymlink then sIflnk
  else if fileType = Ext4DirEntry.ftFifo then sIfifo
  else if fileType = Ext4DirEntry.ftChrdev then sIfchr
  else if fileType = Ext4DirEntry.ftBlkdev then sIfblk
  else if fileType = Ext4DirEntry.ftSock then sIfsock
  else if volume.looksLikeDir self then sIfdir
  else sIfreg

/-- The inode with a type in its mode. -/
def repairedInode (volume : Volume) (self : Inode) (fileType : UInt8) : Ext4Inode :=
  let inode := volume.inodeOf self
  if inode.iMode &&& sIfmt ≠ 0 then inode
  else
    let kind := volume.kindFromEntry self fileType
    let perm :=
      if inode.iMode &&& 0o777 = 0 then Inode.defaultPerm kind else inode.iMode &&& 0o777
    let perm := if kind = sIfdir then perm ||| 0o111 else perm
    inode.setIMode (kind ||| perm)

/-- The volume with the repaired inode. -/
def repaired (volume : Volume) (self : Inode) (fileType : UInt8) : Volume :=
  volume.putBlock self.blockId ((volume.disk self.blockId).paste self.blockOffset
    (volume.repairedInode self fileType))

/-- The entries of the blocks from a byte on, read through one buffer. -/
def listFrom (volume : Volume) (self : Inode) (dirSize : Nat) :
    (fuel blockOff : Nat) → Block → List DirBinding
  | 0, _, _ => []
  | fuel + 1, blockOff, buf =>
      let toRead := min blockSz (dirSize - blockOff)
      if blockOff < dirSize ∧ Ext4DirEntry.fixedSize ≤ toRead then
        let buf := buf.write 0 (volume.bytesAt self blockOff (buf.slice 0 toRead)).2
        scanDirents buf toRead toRead 0 ++
          volume.listFrom self dirSize fuel (blockOff + blockSz) buf
      else []

/-- The names that a listing of the directory shows. -/
def listed (volume : Volume) (self : Inode) : List Str :=
  let size := (volume.inodeOf self).size
  ((volume.listFrom self size (size / blockSz + 1) 0 .zeroed).map DirBinding.name).filter
    fun name => name ≠ .dot ∧ name ≠ .dotDot

/-- Reads depend on the disk only. -/
theorem bytesAt_congr {volume other : Volume} (sameDisk : other.disk = volume.disk)
    (self : Inode) : other.bytesAt self = volume.bytesAt self := by
  obtain ⟨_, disk, _, _⟩ := other
  obtain rfl : disk = volume.disk := sameDisk
  rfl

theorem listFrom_congr {volume other : Volume} (sameDisk : other.disk = volume.disk)
    (self : Inode) : other.listFrom self = volume.listFrom self := by
  funext dirSize fuel
  induction fuel with
  | zero => rfl
  | succ fuel ih =>
      funext blockOff buf
      rw [listFrom, listFrom, bytesAt_congr sameDisk, ih]

theorem listed_congr {volume other : Volume} (sameDisk : other.disk = volume.disk)
    (self : Inode) : other.listed self = volume.listed self := by
  rw [listed, listed, listFrom_congr sameDisk]
  simp only [inodeOf, sameDisk]

end Volume

/-- At most the cached extents of one inode were filled, with those of the disk. -/
structure Refilled (handle : Inode) (volume after : Volume) : Prop where
  state : after = { volume with extentsCache := after.extentsCache }
  coherent : after.ExtentsCoherent handle

namespace Refilled

variable {self : Inode} {volume middle after : Volume}

theorem trans (first : Refilled self volume middle) (second : Refilled self middle after) :
    Refilled self volume after := by
  refine ⟨?_, second.coherent⟩
  rw [second.state, first.state]

theorem disk_eq (refilled : Refilled self volume after) : after.disk = volume.disk := by
  rw [refilled.state]

theorem inodeOf_eq (refilled : Refilled self volume after) :
    after.inodeOf self = volume.inodeOf self := by
  rw [Volume.inodeOf, refilled.disk_eq, Volume.inodeOf]

end Refilled

theorem Volume.Filled.refilled {volume after : Volume} {self : Inode}
    (filled : volume.Filled self after) (coherent : volume.ExtentsCoherent self) :
    Refilled self volume after := by
  refine ⟨filled.state_eq, ?_⟩
  rcases filled with rfl | put
  · exact coherent
  · obtain ⟨last, putToo, cache, lastView, _, found⟩ :=
      view_extentsCachePut volume self.inodeNum (volume.extentsOf self)
    rw [put] at putToo
    cases putToo
    have sameCache : after.extentsCache = cache := congrArg View.extentsCache lastView
    have sameDisk : after.disk = volume.disk := by
      cases put
      rfl
    intro extents isCached
    rw [sameCache, found] at isCached
    cases isCached
    rw [Volume.extentsOf, Volume.extentsOf, Volume.inodeOf, Volume.inodeOf, sameDisk]

section Reading

variable {volume : Volume} {self : Inode} (fits : self.blockOffset + inodeStructSize ≤ blockSz)
  (coherent : volume.ExtentsCoherent self)

include fits coherent

theorem run_readAt_bytesAt {offset : Nat} {buf : List UInt8}
    (readable : (volume.inodeOf self).usesExtents = true ∨
      offset = 0 ∧ min buf.length ((volume.inodeOf self).size - 0) ≤ blockSz) :
    ∃ after, (self.readAt offset buf).run volume = .ok (volume.bytesAt self offset buf) after ∧
      Refilled self volume after := by
  rw [Inode.readAt, run_bind_ok (Inode.run_readDiskInode fits), Volume.bytesAt]
  simp only
  split
  · exact ⟨volume, rfl, rfl, coherent⟩
  · split
    · exact ⟨volume, rfl, rfl, coherent⟩
    · split
      · obtain ⟨after, ran, filled⟩ := Inode.run_cachedExtents fits coherent
        refine ⟨after, ?_, filled.refilled coherent⟩
        rw [run_bind_ok ran, run_bind_ok (run_get _), run_pure, filled.disk_eq]
      · next legacy =>
          obtain ⟨rfl, short⟩ := readable.resolve_left legacy
          obtain ⟨bytes, found⟩ := Option.ne_none_iff_exists'.mp
            (readIndirect_first volume.disk (volume.inodeOf self).blockData
              (min buf.length ((volume.inodeOf self).size - 0)) short)
          refine ⟨volume, ?_, rfl, coherent⟩
          rw [run_bind_ok (run_get _), found, run_bind_ok (run_expect_some _ _)]
          rfl

theorem run_looksLikeDir_disk : ∃ after, self.looksLikeDir.run volume =
    .ok (volume.looksLikeDir self) after ∧ Refilled self volume after := by
  have read : self.size.run volume = .ok (volume.inodeOf self).size volume := by
    rw [Inode.size, run_bind_ok (Inode.run_readDiskInode fits)]
    rfl
  obtain ⟨after, ran, refilled⟩ := @run_readAt_bytesAt volume self fits coherent 0
    (List.replicate (min blockSz (volume.inodeOf self).size) 0)
    (Or.inr ⟨rfl, by rw [List.length_replicate]; omega⟩)
  rw [Inode.looksLikeDir, run_bind_ok read, Volume.looksLikeDir]
  by_cases small : (volume.inodeOf self).size < Ext4DirEntry.fixedSize * 2
  · refine ⟨volume, ?_, rfl, coherent⟩
    rw [if_pos small, if_pos small]
    rfl
  · refine ⟨after, ?_, refilled⟩
    rw [if_neg small, if_neg small, run_bind_ok ran]
    rcases volume.bytesAt self 0 (List.replicate (min blockSz (volume.inodeOf self).size) 0) with
      ⟨count, bytes⟩
    simp only
    split <;> rfl

theorem run_kindFromEntry_disk (fileType : UInt8) : ∃ after,
    (self.kindFromEntry fileType).run volume = .ok (volume.kindFromEntry self fileType) after ∧
      Refilled self volume after := by
  rw [Inode.kindFromEntry, Volume.kindFromEntry]
  repeat' split
  all_goals try exact ⟨volume, rfl, rfl, coherent⟩
  all_goals
    obtain ⟨after, ran, refilled⟩ := run_looksLikeDir_disk fits coherent
    refine ⟨after, ?_, refilled⟩
    rw [run_bind_ok ran]
    simp_all [run_pure]

/-- The listing of an inode that is mapped by extents or has one block. -/
theorem run_readDirBlocks_disk (fuel : Nat) {blockOff : Nat}
    (readable : (volume.inodeOf self).usesExtents = true ∨
      ((volume.inodeOf self).size ≤ blockSz ∧ (blockOff = 0 ∨ blockSz ≤ blockOff)))
    (buf : Block) :
    ∃ after, (self.readDirBlocks (volume.inodeOf self).size fuel blockOff buf).run volume =
        .ok (volume.listFrom self (volume.inodeOf self).size fuel blockOff buf) after ∧
      Refilled self volume after := by
  induction fuel generalizing blockOff volume buf with
  | zero => exact ⟨volume, rfl, rfl, coherent⟩
  | succ fuel ih =>
      rw [Inode.readDirBlocks, Volume.listFrom]
      by_cases inside : blockOff < (volume.inodeOf self).size
      · simp only [inside, if_true, true_and]
        generalize toReadEq : min blockSz ((volume.inodeOf self).size - blockOff) = toRead
        by_cases short : toRead < Ext4DirEntry.fixedSize
        · refine ⟨volume, ?_, rfl, coherent⟩
          rw [if_pos short, if_neg (Nat.not_le.mpr short)]
          rfl
        · rw [if_neg short, if_pos (Nat.not_lt.mp short)]
          obtain ⟨middle, ran, refilled⟩ := @run_readAt_bytesAt volume self fits coherent blockOff
            (buf.slice 0 toRead) (by
              rcases readable with usesExtents | ⟨small, first | past⟩
              · exact Or.inl usesExtents
              · exact Or.inr ⟨first, by omega⟩
              · omega)
          have sameInode := refilled.inodeOf_eq
          obtain ⟨after, rest, restRefilled⟩ := @ih middle refilled.coherent (blockOff + blockSz) (by
            rw [sameInode]
            rcases readable with usesExtents | ⟨small, _⟩
            · exact Or.inl usesExtents
            · exact Or.inr ⟨small, Or.inr (by omega)⟩)
            (buf.write 0 (volume.bytesAt self blockOff (buf.slice 0 toRead)).2)
          rw [sameInode, Volume.listFrom_congr refilled.disk_eq] at rest
          refine ⟨after, ?_, refilled.trans restRefilled⟩
          rw [run_bind_ok ran]
          exact (run_bind_ok rest).trans (run_pure _ _)
      · refine ⟨volume, ?_, rfl, coherent⟩
        rw [if_neg inside, if_neg fun both => inside both.1]
        rfl

theorem run_ls_disk (isDir : (volume.inodeOf self).isDir = true)
    (readable : (volume.inodeOf self).usesExtents = true ∨
      (volume.inodeOf self).size ≤ blockSz) :
    ∃ after, self.ls.run volume = .ok (volume.listed self) after ∧
      Refilled self volume after := by
  have read := @Inode.run_readDiskInode volume self fits
  have kind : self.isDir.run volume = .ok true volume := by
    rw [Inode.isDir, run_bind_ok read, isDir]
    rfl
  have size : self.size.run volume = .ok (volume.inodeOf self).size volume := by
    rw [Inode.size, run_bind_ok read]
    rfl
  obtain ⟨after, ran, refilled⟩ := run_readDirBlocks_disk fits coherent
    ((volume.inodeOf self).size / blockSz + 1)
    (readable.imp_right fun short => ⟨short, Or.inl rfl⟩) .zeroed
  refine ⟨after, ?_, refilled⟩
  rw [Inode.ls, Inode.readDirEntries, run_bind_assoc, run_bind_ok kind]
  simp only [if_true]
  rw [run_bind_assoc, run_bind_ok size, run_bind_ok ran]
  rfl

/-- Repairing a mode writes the repaired inode. -/
theorem run_repairModeIfMissing_disk (fileType : UInt8) :
    ∃ after, (self.repairModeIfMissing fileType).run volume = .ok () after ∧
      after.disk = (volume.repaired self fileType).disk ∧
      ∀ extents, after.extentsCache[self.inodeNum]? = some extents →
        extents = volume.extentsOf self := by
  have read := @Inode.run_readDiskInode volume self fits
  rw [Inode.repairModeIfMissing, run_bind_ok read]
  by_cases typed : (volume.inodeOf self).iMode &&& sIfmt ≠ 0
  · refine ⟨volume, ?_, ?_, coherent⟩
    · rw [if_pos typed]
      rfl
    · have samePaste : (volume.disk self.blockId).paste self.blockOffset (volume.inodeOf self) =
          volume.disk self.blockId := Bytes.paste_extract _ _ _
      rw [Volume.repaired, Volume.repairedInode, if_pos typed, samePaste]
      exact (Function.update_eq_self _ _).symm
  · obtain ⟨middle, ran, refilled⟩ := run_kindFromEntry_disk fits coherent fileType
    have sameDisk := refilled.disk_eq
    have sameInode := refilled.inodeOf_eq
    rw [if_neg typed, run_bind_ok ran]
    refine ⟨_, Inode.run_modifyDiskInode fits _, ?_, ?_⟩
    · rw [Volume.repaired, Volume.repairedInode, if_neg typed, sameInode, sameDisk]
      change Function.update middle.disk _ _ = _
      rw [sameDisk]
      rfl
    · intro extents found
      have isCached : middle.extentsCache[self.inodeNum]? = some extents := found
      rw [refilled.coherent extents isCached, Volume.extentsOf, Volume.extentsOf, sameInode,
        sameDisk]

end Reading

theorem Volume.inodeOf_repaired {volume : Volume} {self : Inode}
    (fits : self.blockOffset + inodeStructSize ≤ blockSz) (fileType : UInt8) :
    (volume.repaired self fileType).inodeOf self = volume.repairedInode self fileType := by
  rw [Volume.inodeOf, Volume.repaired, Volume.putBlock]
  simp only [Function.update_self]
  exact Bytes.extract_paste _ _ fits

theorem Volume.repaired_congr {volume other : Volume} (sameDisk : other.disk = volume.disk)
    (self : Inode) (fileType : UInt8) :
    (other.repaired self fileType).disk = (volume.repaired self fileType).disk := by
  obtain ⟨_, disk, _, _⟩ := other
  obtain rfl : disk = volume.disk := sameDisk
  rfl

/-- Repairing a mode keeps the other fields and the map. -/
theorem Volume.repairedInode_contents (volume : Volume) (self : Inode) (fileType : UInt8) :
    (volume.repairedInode self fileType).blockData = (volume.inodeOf self).blockData ∧
      ∀ field, field ≠ .iMode →
        (volume.repairedInode self fileType).field field = (volume.inodeOf self).field field := by
  rw [Volume.repairedInode]
  simp only
  split
  · exact ⟨rfl, fun _ _ => rfl⟩
  · exact ⟨Ext4Inode.blockData_setField _ _ _, fun field other =>
      Ext4Inode.field_setField_of_ne _ _ other⟩

/-- Consulting the index of a directory leaves the cached extents those of the disk. -/
theorem Consulted.extentsCoherent {reserved : Set Nat} {dir : Nat} {volume middle : Volume}
    (mounted : volume.view.Mounted reserved) (directory : volume.view.Directory reserved dir)
    (consulted : Consulted dir volume middle) {child : Nat}
    (isChild : volume.view.fs.IsInode child)
    (coherent : volume.ExtentsCoherent (volume.view.fs.handle child)) :
    middle.ExtentsCoherent (volume.view.fs.handle child) := by
  intro extents isCached
  have sameExtents : middle.extentsOf (volume.view.fs.handle child) =
      volume.extentsOf (volume.view.fs.handle child) := by
    rw [consulted.state]
    rfl
  rw [sameExtents]
  by_cases same : child = dir
  · subst same
    have middleExtents : middle.view.extents child = volume.view.extents child := by
      rw [consulted.state]
      rfl
    rw [extentsOf_handle mounted isChild directory.owning directory.usesExtents, ← middleExtents]
    exact consulted.coherent extents isCached
  · exact coherent extents (consulted.shrinks child same extents isCached)

/-- A lookup of a name whose child has the cached extents of the disk. -/
theorem run_find_repaired {reserved : Set Nat} {dir : Nat} {volume : Volume}
    (mounted : volume.view.Mounted reserved) (directory : volume.view.Directory reserved dir)
    {name : Str} {child : Nat} {fileType : UInt8}
    (found : (volume.view.dirIndex dir)[name]? = some (child, fileType))
    (isChild : volume.view.fs.IsInode child)
    (coherent : volume.ExtentsCoherent (volume.view.fs.handle child)) :
    ∃ after, ((volume.view.fs.handle dir).find name).run volume =
        .ok (some (volume.view.fs.handle child)) after ∧
      Looked reserved dir volume after ∧
      after.disk = (volume.repaired (volume.view.fs.handle child) fileType).disk ∧
      ∀ extents, after.extentsCache[child]? = some extents →
        extents = volume.extentsOf (volume.view.fs.handle child) := by
  obtain ⟨_, _, _, fits⟩ := mounted.layout.handle_spec mounted.geometry isChild
  obtain ⟨middle, consulted, ran⟩ := run_find_bound mounted directory found isChild
  obtain ⟨after, repairing, disk, cached⟩ := run_repairModeIfMissing_disk fits
    (consulted.extentsCoherent mounted directory isChild coherent) fileType
  have ended := ran.trans ((run_bind_ok repairing).trans (run_pure _ _))
  rcases run_find mounted directory name with ⟨absent, _⟩ |
    ⟨other, otherType, otherFound, ⟨outside, _⟩ | ⟨last, ranToo, _, looked⟩⟩
  · rw [found] at absent
    cases absent
  · rw [found] at otherFound
    cases otherFound
    exact absurd isChild outside
  · rw [ended] at ranToo
    cases ranToo
    refine ⟨after, ended, looked, disk.trans ?_, fun extents isCached => ?_⟩
    · rw [consulted.state]
      rfl
    · rw [cached extents isCached, consulted.state]
      rfl

end Ext4

end OSWorkspace
