import OSWorkspace.Ext4FailedCreates

/-!
# Files as byte arrays

A file that a call has made is written, read and cleared.  This file follows it
beside an array of bytes that a write extends with zeros up to its offset and
overlays with its buffer, and shows that no call can tell the two apart.
-/

namespace OSWorkspace

namespace Ext4

open Exec View

/-- The array extended with zeros up to a length. -/
def padded (bytes : List UInt8) (length : Nat) : List UInt8 :=
  bytes ++ List.replicate (length - bytes.length) 0

/-- The array padded up to an offset and overlaid with a buffer there. -/
def overlaid (bytes : List UInt8) (offset : Nat) (buf : List UInt8) : List UInt8 :=
  (padded bytes offset).take offset ++ (buf ++ bytes.drop (offset + buf.length))

/-- What a write leaves of the array: an empty buffer changes nothing. -/
def writtenArray (bytes : List UInt8) (offset : Nat) (buf : List UInt8) : List UInt8 :=
  if buf = [] then bytes else overlaid bytes offset buf

theorem length_overlaid (bytes : List UInt8) (offset : Nat) (buf : List UInt8) :
    (overlaid bytes offset buf).length = max bytes.length (offset + buf.length) := by
  simp only [overlaid, padded, List.length_append, List.length_take, List.length_replicate,
    List.length_drop]
  omega

theorem getD_padded (bytes : List UInt8) (length position : Nat) :
    (padded bytes length).getD position 0 = bytes.getD position 0 := by
  rw [padded, List.getD_eq_getElem?_getD, List.getD_eq_getElem?_getD, List.getElem?_append]
  split
  · rfl
  · next outside =>
      rw [List.getElem?_eq_none (Nat.not_lt.mp outside), List.getElem?_replicate]
      split <;> rfl

/-- Behind its end an array reads as zeros. -/
theorem getD_overlaid (bytes : List UInt8) (offset : Nat) (buf : List UInt8) (position : Nat) :
    (overlaid bytes offset buf).getD position 0 =
      writtenByte (fun other => bytes.getD other 0) offset buf position := by
  have startLength : ((padded bytes offset).take offset).length = offset := by
    simp only [padded, List.length_take, List.length_append, List.length_replicate]
    omega
  rw [overlaid, List.getD_eq_getElem?_getD, List.getElem?_append, startLength, writtenByte]
  split
  · next before =>
      rw [if_neg (by omega), List.getElem?_take_of_lt before, ← List.getD_eq_getElem?_getD,
        getD_padded]
  · next behind =>
      rw [List.getElem?_append]
      split
      · next inside =>
          rw [if_pos (by omega), List.getD_eq_getElem?_getD]
      · next outside =>
          rw [if_neg (by omega), List.getElem?_drop, List.getD_eq_getElem?_getD]
          congr 2
          omega

/-- The volumes that calls on a file can reach, with the array beside the file.
A write that fails leaves the array. -/
inductive FileRun (file : Inode) (made : Volume) : Volume → List UInt8 → Prop
  | start : FileRun file made made []
  | write {before after : Volume} {bytes : List UInt8} (offset : Nat) (buf : List UInt8)
      {count : Nat} : FileRun file made before bytes → offset + buf.length ≤ u32Max * blockSz →
        (file.writeAt offset buf).run before = .ok count after →
          FileRun file made after (writtenArray bytes offset buf)
  | failedWrite {before after : Volume} {bytes : List UInt8} (offset : Nat) (buf : List UInt8)
      {error : Ext4Error} : FileRun file made before bytes → offset + buf.length ≤ u32Max * blockSz →
        (file.writeAt offset buf).run before = .err error after → FileRun file made after bytes
  | clear {before after : Volume} {bytes : List UInt8} : FileRun file made before bytes →
      file.clear.run before = .ok () after → FileRun file made after []
  | read {before after : Volume} {bytes : List UInt8} (offset : Nat) (buf : List UInt8)
      {result : Nat × List UInt8} : FileRun file made before bytes →
        (file.readAt offset buf).run before = .ok result after → FileRun file made after bytes

/-- A read of the array: its bytes from the offset on, as far as they and the
buffer go, and the rest of the buffer as it was. -/
def arrayRead (bytes : List UInt8) (offset : Nat) (buf : List UInt8) : Nat × List UInt8 :=
  (min buf.length (bytes.length - offset),
    (bytes.drop offset).take buf.length ++ buf.drop (min buf.length (bytes.length - offset)))

/-- The calls on the file return what the array says.  A write fails only for
lack of blocks or of places in the extent tree. -/
structure ActsAs (file : Inode) (volume : Volume) (bytes : List UInt8) : Prop where
  size : file.size.run volume = .ok bytes.length volume
  read : ∀ offset buf, ∃ after,
    (file.readAt offset buf).run volume = .ok (arrayRead bytes offset buf) after
  write : ∀ offset buf, offset + buf.length ≤ u32Max * blockSz →
    (∃ after, (file.writeAt offset buf).run volume = .ok buf.length after) ∨
      ∃ error after, (file.writeAt offset buf).run volume = .err error after ∧
        GrowthFails volume.view (volume.view.extents file.inodeNum) (touchedBlocks offset buf) error
  clear : ∃ after, file.clear.run volume = .ok () after

/-- The extents of a regular file hold the bytes of the array. -/
structure View.Stores (reserved : Set Nat) (view : View) (inodeNum : Nat)
    (bytes : List UInt8) : Prop where
  mounted : view.Mounted reserved
  isInode : view.fs.IsInode inodeNum
  owning : view.Owning reserved inodeNum
  coherent : view.Coherent inodeNum
  isFile : (view.inode inodeNum).isFile = true
  usesExtents : (view.inode inodeNum).usesExtents = true
  tidy : Tidy (view.extents inodeNum)
  size : (view.inode inodeNum).size = bytes.length
  content : ∀ position, byteAt view.data (view.extents inodeNum) position = bytes.getD position 0

theorem Tidy.nil : Tidy [] :=
  ⟨List.Pairwise.nil, by simp [Bounded], by simp⟩

/-- The inode of a new file. -/
def emptyFile : Ext4Inode := Inode.extentInode (sIfreg ||| 0o666) 1 []

theorem emptyRoot_emptyFile : EmptyRoot emptyFile.blockData := by
  intro disk
  obtain ⟨parseEq, blocksEq⟩ := tree_flat (by decide :
    (nodeHeader emptyFile.blockData).isValid = true) (by decide) disk
  refine ⟨parseEq.trans ?_, blocksEq⟩
  decide

theorem emptyFile_spec : emptyFile.isFile = true ∧ emptyFile.usesExtents = true ∧
    emptyFile.size = 0 := by
  decide

/-- Truncating a file keeps the fields of its inode but for the sizes. -/
theorem field_truncated (inode : Ext4Inode) {name : InodeField} (notLow : name ≠ .iSizeLo)
    (notHigh : name ≠ .iSizeHigh) (notBlocks : name ≠ .iBlocksLo) :
    (((inode.setSize 0).setIBlocksLo 0).resetExtentTree).field name = inode.field name := by
  rw [field_resetExtentTree, Ext4Inode.setIBlocksLo,
    Ext4Inode.field_setField_of_ne _ _ notBlocks, Ext4Inode.field_setSize _ _ notLow notHigh]

section Storing

variable {reserved : Set Nat} {inodeNum : Nat} {bytes : List UInt8}

/-- A new file owns nothing. -/
theorem Made.owned_eq {view : View} (made : Made reserved inodeNum emptyFile view) :
    view.extents inodeNum = [] ∧ view.owned inodeNum = [] := by
  obtain ⟨parseEq, blocksEq⟩ := emptyRoot_emptyFile view.data
  have extentsEq : view.extents inodeNum = [] := by
    rw [View.extents, made.inode_eq, if_pos emptyFile_spec.2.1, parseEq]
  refine ⟨extentsEq, ?_⟩
  rw [View.owned, extentsEq, View.tree, treeBlocks, made.inode_eq, blocksEq]
  rfl

/-- A new file stores the empty array. -/
theorem Made.stores {view : View} (made : Made reserved inodeNum emptyFile view) :
    view.Stores reserved inodeNum [] := by
  obtain ⟨isFile, usesExtents, empty⟩ := emptyFile_spec
  obtain ⟨extentsEq, ownedEq⟩ := made.owned_eq
  rw [← made.inode_eq] at isFile usesExtents empty
  refine ⟨made.mounted, made.isInode, ?_, ?_, isFile, usesExtents, ?_, empty, ?_⟩
  · constructor <;> rw [ownedEq] <;> simp
  · intro extents found
    rw [made.uncached] at found
    cases found
  · rw [extentsEq]
    exact Tidy.nil
  · intro position
    rw [extentsEq]
    rfl

variable {volume : Volume} (stores : volume.view.Stores reserved inodeNum bytes)

include stores

theorem View.Stores.run_size :
    (volume.view.fs.handle inodeNum).size.run volume = .ok bytes.length volume := by
  rw [Inode.size, run_bind_ok (view_readDiskInode stores.mounted.layout stores.mounted.geometry
    stores.isInode), stores.size]
  rfl

theorem View.Stores.run_readAt (offset : Nat) (buf : List UInt8) :
    ∃ after, ((volume.view.fs.handle inodeNum).readAt offset buf).run volume =
        .ok (arrayRead bytes offset buf) after ∧
      after.view.fs = volume.view.fs ∧ after.view.Stores reserved inodeNum bytes := by
  have notSymlink := Ext4Inode.not_isSymlink_of_isFile stores.isFile
  obtain ⟨after, ran, readStep⟩ := view_readAt stores.mounted stores.isInode stores.owning
    stores.coherent stores.usesExtents (by simp [notSymlink]) stores.tidy.ordered offset buf
  have step := readStep.step
  refine ⟨after, ?_, step.fs, step.mounted stores.mounted stores.owning, ?_, step.owning,
    step.coherent, ?_, ?_, ?_, ?_, ?_⟩
  · rw [ran, stores.size, arrayRead]
    congr 2
    congr 1
    apply List.ext_getElem
    · simp only [List.length_map, List.length_range, List.length_take, List.length_drop]
    · intro index indexLt _
      rw [List.length_map, List.length_range] at indexLt
      rw [List.getElem_map, List.getElem_range, stores.content, List.getElem_take,
        List.getElem_drop, List.getD_eq_getElem]
  all_goals rw [readStep.state]
  · exact stores.isInode
  · exact stores.isFile
  · exact stores.usesExtents
  · rw [extents_withExtentsCache]
    exact stores.tidy
  · exact stores.size
  · rw [extents_withExtentsCache]
    exact stores.content

/-- A write either makes of the file what the array becomes, or fails and leaves
it. -/
theorem View.Stores.run_writeAt {offset : Nat} {buf : List UInt8}
    (inRange : offset + buf.length ≤ u32Max * blockSz) :
    (∃ after, ((volume.view.fs.handle inodeNum).writeAt offset buf).run volume =
        .ok buf.length after ∧
      after.view.fs = volume.view.fs ∧
      after.view.Stores reserved inodeNum (writtenArray bytes offset buf)) ∨
    ∃ error after, ((volume.view.fs.handle inodeNum).writeAt offset buf).run volume =
        .err error after ∧
      GrowthFails volume.view (volume.view.extents inodeNum) (touchedBlocks offset buf) error ∧
      after.view.fs = volume.view.fs ∧ after.view.Stores reserved inodeNum bytes := by
  by_cases empty : buf = []
  · subst empty
    exact Or.inl ⟨volume, view_writeAt_empty stores.mounted stores.isInode (Or.inl stores.isFile)
      offset, rfl, stores⟩
  · rw [writtenArray, if_neg empty]
    rcases view_writeAt_blocks stores.mounted stores.isInode stores.owning stores.coherent
      (Or.inl stores.isFile) empty (notInline_of_isFile stores.isFile offset buf) with
      ⟨after, ran, wrote⟩ | ⟨error, after, ran, fails, step, unchanged⟩ | ⟨_, _, notPlain, _⟩
    · have step := wrote.step
      refine Or.inl ⟨after, ran, step.fs, step.mounted stores.mounted stores.owning,
        by rw [step.fs]; exact stores.isInode, step.owning, step.coherent, ?_,
        wrote.usesExtents stores.usesExtents, wrote.tidy stores.tidy, ?_, ?_⟩
      · rw [(Ext4Inode.kind_congr wrote.mode).1]
        exact stores.isFile
      · have small : offset + buf.length ≤ u64Max := by
          simp only [u32Max, blockSz, u64Max] at inRange ⊢
          omega
        rw [wrote.size, stores.size, writeEnd, Nat.min_eq_left small, length_overlaid]
      · intro position
        rw [wrote.bytes stores.tidy empty inRange, getD_overlaid, funext stores.content]
    · have sameExtents := unchanged.extents_eq
      refine Or.inr ⟨error, after, ran, fails, step.fs, step.mounted stores.mounted stores.owning,
        by rw [step.fs]; exact stores.isInode, step.owning, step.coherent, ?_, ?_, ?_, ?_, ?_⟩
      · rw [unchanged.inode]
        exact stores.isFile
      · rw [unchanged.inode]
        exact stores.usesExtents
      · rw [sameExtents]
        exact stores.tidy
      · rw [unchanged.inode]
        exact stores.size
      · intro position
        rw [sameExtents, ← stores.content position]
        exact byteAt_congr (fun blockId isData =>
          unchanged.data blockId (mem_owned.mpr (Or.inl isData))) position
    · exact absurd ⟨stores.tidy, inRange⟩ notPlain

theorem View.Stores.run_clear :
    ∃ after, (volume.view.fs.handle inodeNum).clear.run volume = .ok () after ∧
      after.view.fs = volume.view.fs ∧ after.view.Stores reserved inodeNum [] := by
  obtain ⟨after, ran, afterView⟩ := view_clear stores.mounted stores.isInode stores.owning
    stores.isFile
  generalize clearedEq : ((((volume.view.inode inodeNum).setSize 0).setIBlocksLo
    0).resetExtentTree) = cleared at afterView
  have sameField (name : InodeField) (notLow : name ≠ .iSizeLo) (notHigh : name ≠ .iSizeHigh)
      (notBlocks : name ≠ .iBlocksLo) :
      cleared.field name = (volume.view.inode inodeNum).field name := by
    rw [← clearedEq]
    exact field_truncated _ notLow notHigh notBlocks
  obtain ⟨step, inodeEq, extentsEq, _⟩ := FileStep.of_reclaim stores.mounted stores.isInode
    (by rw [← clearedEq]; exact emptyRoot_resetExtentTree _ : EmptyRoot cleared.blockData)
  rw [← afterView] at step inodeEq extentsEq
  refine ⟨after, ran, step.fs, step.mounted stores.mounted stores.owning,
    by rw [step.fs]; exact stores.isInode, step.owning, step.coherent, ?_, ?_, ?_, ?_, ?_⟩
  · rw [inodeEq, (Ext4Inode.kind_congr (sameField .iMode (by decide) (by decide) (by decide))).1]
    exact stores.isFile
  · rw [inodeEq, Ext4Inode.usesExtents_congr
      (sameField .iFlags (by decide) (by decide) (by decide))]
    exact stores.usesExtents
  · rw [extentsEq]
    exact Tidy.nil
  · have kept (name : InodeField) (notBlocks : name ≠ .iBlocksLo) :
        cleared.field name = ((volume.view.inode inodeNum).setSize 0).field name := by
      rw [← clearedEq, field_resetExtentTree, Ext4Inode.setIBlocksLo,
        Ext4Inode.field_setField_of_ne _ _ notBlocks]
    rw [inodeEq, Ext4Inode.size_congr (kept .iSizeLo (by decide)) (kept .iSizeHigh (by decide)),
      Ext4Inode.size_setSize _ (by decide)]
    rfl
  · intro position
    rw [extentsEq]
    rfl

theorem View.Stores.actsAs :
    ActsAs (volume.view.fs.handle inodeNum) volume bytes where
  size := stores.run_size
  read offset buf := by
    obtain ⟨after, ran, _⟩ := stores.run_readAt offset buf
    exact ⟨after, ran⟩
  write offset buf inRange := by
    rcases stores.run_writeAt inRange with ⟨after, ran, _⟩ | ⟨error, after, ran, fails, _⟩
    · exact Or.inl ⟨after, ran⟩
    · exact Or.inr ⟨error, after, ran, fails⟩
  clear := by
    obtain ⟨after, ran, _⟩ := stores.run_clear
    exact ⟨after, ran⟩

end Storing

/-- The array is stored along every run. -/
theorem FileRun.stores {reserved : Set Nat} {inodeNum : Nat} {made later : Volume}
    {bytes : List UInt8} (stores : made.view.Stores reserved inodeNum [])
    (run : FileRun (made.view.fs.handle inodeNum) made later bytes) :
    later.view.fs = made.view.fs ∧ later.view.Stores reserved inodeNum bytes := by
  induction run with
  | start => exact ⟨rfl, stores⟩
  | write offset buf run inRange ran ih =>
      obtain ⟨sameFs, before⟩ := ih
      rw [← sameFs] at ran
      rcases before.run_writeAt inRange with ⟨after, wrote, afterFs, stored⟩ | ⟨_, _, failed, _⟩
      · rw [ran] at wrote
        cases wrote
        exact ⟨afterFs.trans sameFs, stored⟩
      · rw [ran] at failed
        cases failed
  | failedWrite offset buf run inRange ran ih =>
      obtain ⟨sameFs, before⟩ := ih
      rw [← sameFs] at ran
      rcases before.run_writeAt inRange with ⟨_, wrote, _⟩ | ⟨_, after, failed, _, afterFs, stored⟩
      · rw [ran] at wrote
        cases wrote
      · rw [ran] at failed
        cases failed
        exact ⟨afterFs.trans sameFs, stored⟩
  | clear run ran ih =>
      obtain ⟨sameFs, before⟩ := ih
      rw [← sameFs] at ran
      obtain ⟨after, cleared, afterFs, stored⟩ := before.run_clear
      rw [ran] at cleared
      cases cleared
      exact ⟨afterFs.trans sameFs, stored⟩
  | read offset buf run ran ih =>
      obtain ⟨sameFs, before⟩ := ih
      rw [← sameFs] at ran
      obtain ⟨after, read, afterFs, stored⟩ := before.run_readAt offset buf
      rw [ran] at read
      cases read
      exact ⟨afterFs.trans sameFs, stored⟩

/-- What a call that makes a file has done. -/
theorem created_createFile {reserved : Set Nat} {dir : Nat} {volume : Volume}
    (mounted : volume.view.Mounted reserved) (directory : volume.view.Directory reserved dir)
    {name : Str} {file : Inode} {made : Volume}
    (ran : ((volume.view.fs.handle dir).createFile name).run volume = .ok file made) :
    Enters volume.view dir name ∧ ∃ inodeNum prepared added,
      file = volume.view.fs.handle inodeNum ∧
      Created dir volume name Ext4DirEntry.ftRegFile emptyFile inodeNum prepared added made := by
  obtain ⟨_, first, checked, entered⟩ := of_run_bind_ok ran
  rcases checkNewName_outcome mounted directory name with ⟨enters, middle, passed, looked⟩ |
    ⟨_, panics | ⟨_, _, failed, _⟩⟩
  · rw [passed] at checked
    cases checked
    exact ⟨enters, created_createInode mounted directory looked entered⟩
  · rw [panics] at checked
    cases checked
  · rw [failed] at checked
    cases checked

/-- Along every run of writes, reads and truncations a file acts as an array of
bytes. -/
theorem file_actsAs {reserved : Set Nat} {dir : Nat} {volume : Volume}
    (mounted : volume.view.Mounted reserved) (directory : volume.view.Directory reserved dir)
    {name : Str} {file : Inode} {made later : Volume}
    (created : ((volume.view.fs.handle dir).createFile name).run volume = .ok file made)
    {bytes : List UInt8} (run : FileRun file made later bytes) : ActsAs file later bytes := by
  obtain ⟨enters, inodeNum, prepared, added, rfl, parts⟩ :=
    created_createFile mounted directory created
  obtain ⟨madeFs, isMade⟩ := parts.made mounted directory enters
  rw [← madeFs] at run ⊢
  obtain ⟨sameFs, stores⟩ := run.stores isMade.stores
  rw [← sameFs]
  exact stores.actsAs

/-- The reserved blocks and the block of the root directory are in use. -/
def roomyBitmap : Block := (Bytes.zeroed : Block).write 0 [0x3F, 0, 0x10]

theorem mounted_roomy : (rootVolume roomyBitmap).view.Mounted {block | block ≤ 5} := by
  have inUse : ∀ block : Fin 6, roomyBitmap.testBit block = true := by decide
  exact mounted_rootVolume roomyBitmap fun block small => inUse ⟨block, Nat.lt_succ_of_le small⟩

theorem directory_roomy : (rootVolume roomyBitmap).view.Directory {block | block ≤ 5} 2 :=
  directory_rootVolume roomyBitmap (by decide)

/-- The size of a new file after a write. -/
def sizeAfterWrite (self : Inode) (name : Str) (offset : Nat) (buf : List UInt8) : Call Nat := do
  let file ← self.createFile name
  let _ ← file.writeAt offset buf
  file.size

/-- What a call that returns has run. -/
theorem of_sizeAfterWrite {self : Inode} {name : Str} {offset : Nat} {buf : List UInt8}
    {volume : Volume} {size : Nat}
    (returned : ((sizeAfterWrite self name offset buf).run volume).value? = some size) :
    ∃ file made count after last, (self.createFile name).run volume = .ok file made ∧
      (file.writeAt offset buf).run made = .ok count after ∧
      file.size.run after = .ok size last := by
  obtain ⟨last, ran⟩ := Outcome.of_value? returned
  obtain ⟨file, made, created, rest⟩ := of_run_bind_ok ran
  obtain ⟨count, after, wrote, sized⟩ := of_run_bind_ok rest
  exact ⟨file, made, count, after, last, created, wrote, sized⟩

theorem file_actsAs_roomy :
    ∃ file made later, FileRun file made later (writtenArray [] 1 [7]) ∧
      ActsAs file later (writtenArray [] 1 [7]) := by
  have size : ((sizeAfterWrite ((rootVolume roomyBitmap).view.fs.handle 2) letterA 1 [7]).run
      (rootVolume roomyBitmap)).value? = some 2 := by decide +kernel
  obtain ⟨file, made, count, after, _, created, wrote, _⟩ := of_sizeAfterWrite size
  have run : FileRun file made after (writtenArray [] 1 [7]) :=
    FileRun.start.write 1 [7] (by decide) wrote
  exact ⟨file, made, after, run, file_actsAs mounted_roomy directory_roomy created run⟩

/-- Writing nothing behind the end does not extend a file. -/
theorem not_actsAs_padded :
    ∃ file made count after,
      (((rootVolume roomyBitmap).view.fs.handle 2).createFile letterA).run
        (rootVolume roomyBitmap) = .ok file made ∧
      (file.writeAt 1 []).run made = .ok count after ∧
      ¬ ActsAs file after (overlaid [] 1 []) := by
  have size : ((sizeAfterWrite ((rootVolume roomyBitmap).view.fs.handle 2) letterA 1 []).run
      (rootVolume roomyBitmap)).value? = some 0 := by decide +kernel
  obtain ⟨file, made, count, after, last, created, wrote, sized⟩ := of_sizeAfterWrite size
  refine ⟨file, made, count, after, created, wrote, ?_⟩
  intro actsAs
  have padded := actsAs.size
  rw [sized] at padded
  cases padded

end Ext4

end OSWorkspace
