import OSWorkspace.Ext4ExtentTraversals
import OSWorkspace.Ext4TreeChanges

/-!
# New files and new devices

Neither the inode of a new file nor that of a special file owns a block, whatever the
number of the device looks like: the words behind it in `i_block` are zero, and a zero
pointer is no child of an extent tree.
-/

namespace OSWorkspace

namespace Ext4

open Exec View

/-- The children of a root whose table is zero are zero. -/
theorem nodeChildren_of_zeros {inodeBlock : Bytes iBlockSize}
    (zeros : ∀ index, 12 ≤ index → inodeBlock.get index = 0) (maxEntries : Nat) :
    ∀ child ∈ nodeChildren inodeBlock maxEntries, child = 0 := by
  intro child isChild
  rw [nodeChildren, nodeIndexes, Bytes.loadTable, List.map_map, List.mem_map] at isChild
  obtain ⟨position, _, rfl⟩ := isChild
  have loaded : inodeBlock.load Ext4ExtentIdx.record
      (12 + position * Ext4ExtentIdx.record.width) =
        (Bytes.zeroed : Bytes 12).load Ext4ExtentIdx.record 0 := by
    apply Bytes.load_congr
    intro index _
    rw [zeros _ (by omega), Bytes.get_zeroed]
  rw [Function.comp_apply, loaded]
  decide

theorem rootBlocks_of_zeros (disk : Nat → Block) {inodeBlock : Bytes iBlockSize}
    (zeros : ∀ index, 12 ≤ index → inodeBlock.get index = 0) (depth : Nat) :
    rootBlocks disk inodeBlock depth = ⟨[], [], []⟩ := by
  have children := nodeChildren_of_zeros zeros extentsInInode
  rw [rootBlocks]
  revert children
  induction nodeChildren inodeBlock extentsInInode with
  | nil => exact fun _ => rfl
  | cons child rest ih =>
      intro children
      rw [List.foldl_cons, collect_skipped (Or.inl (children child List.mem_cons_self))]
      exact ih fun other isOther => children other (List.mem_cons_of_mem child isOther)

/-- A root whose table is zero has no tree below it. -/
theorem treeBlocks_of_zeros (disk : Nat → Block) {inodeBlock : Bytes iBlockSize}
    (zeros : ∀ index, 12 ≤ index → inodeBlock.get index = 0) : treeBlocks disk inodeBlock = [] := by
  rw [treeBlocks]
  by_cases deep : ∃ depth, (nodeHeader inodeBlock).isValid = true ∧
      (nodeHeader inodeBlock).ehDepth.toNat = depth + 1 ∧ depth + 1 ≤ extentTreeMaxDepth
  · obtain ⟨depth, valid, depthEq, depthLe⟩ := deep
    rw [extentTreeBlocks_deep disk valid depthEq depthLe, rootBlocks_of_zeros disk zeros]
    rfl
  · rw [(parsedBlocks_flat disk deep).2]
    rfl

section Files

variable {reserved : Set Nat} {view : View} {id : Nat}

theorem View.owned_of_emptyFile (inodeEq : view.inode id = emptyFile) :
    view.extents id = [] ∧ view.owned id = [] := by
  obtain ⟨parseEq, blocksEq⟩ := emptyRoot_emptyFile view.data
  have extentsEq : view.extents id = [] := by
    rw [View.extents, inodeEq, if_pos emptyFile_spec.2.1, parseEq]
  refine ⟨extentsEq, ?_⟩
  rw [View.owned, extentsEq, View.tree, treeBlocks, inodeEq, blocksEq]
  rfl

/-- A new file is empty. -/
theorem View.Resident.showsLeaf_emptyFile (resident : view.Resident reserved id)
    (mounted : view.Mounted reserved) (inodeEq : view.inode id = emptyFile) :
    view.ShowsLeaf reserved id 1 ⟨sIfreg ||| 0o666, .file []⟩ := by
  obtain ⟨isFile, usesExtents, empty⟩ := emptyFile_spec
  obtain ⟨extentsEq, _⟩ := View.owned_of_emptyFile inodeEq
  refine ⟨by rw [inodeEq]; decide, by rw [inodeEq]; decide, mounted, resident.isInode,
    resident.owning, resident.coherent, by rw [inodeEq]; exact isFile,
    by rw [inodeEq]; exact usesExtents, by rw [extentsEq]; exact Tidy.nil,
    by rw [inodeEq]; exact empty, ?_⟩
  intro position
  rw [extentsEq]
  rfl

end Files

/-- The type of a special file in its directory. -/
def IsSpecial (mode : Nat) : Prop :=
  dirEntryFileTypeFromMode mode = Ext4DirEntry.ftFifo ∨
    dirEntryFileTypeFromMode mode = Ext4DirEntry.ftChrdev ∨
    dirEntryFileTypeFromMode mode = Ext4DirEntry.ftBlkdev ∨
    dirEntryFileTypeFromMode mode = Ext4DirEntry.ftSock

instance (mode : Nat) : Decidable (IsSpecial mode) :=
  inferInstanceAs (Decidable (_ ∨ _))

theorem IsSpecial.kind {mode : Nat} (special : IsSpecial mode) :
    mode &&& sIfmt ≠ sIfreg ∧ mode &&& sIfmt ≠ sIfdir ∧ mode &&& sIfmt ≠ sIflnk ∧
      mode &&& sIfmt ≠ 0 := by
  rw [IsSpecial, dirEntryFileTypeFromMode] at special
  refine ⟨?_, ?_, ?_, ?_⟩
  all_goals
    intro same
    rw [same] at special
    revert special
    decide

section Special

variable (mode : UInt16) (rdev : UInt64)

theorem field_specialInode :
    (Inode.specialInode mode.toNat rdev.toNat).iMode = mode.toNat ∧
      (Inode.specialInode mode.toNat rdev.toNat).iLinksCount = 1 ∧
      (Inode.specialInode mode.toNat rdev.toNat).usesExtents = false ∧
      (Inode.specialInode mode.toNat rdev.toNat).size = 0 := by
  have small : mode.toNat < 2 ^ 16 := mode.toNat_lt
  have high : Ext4Inode.field Bytes.zeroed .iSizeHigh = 0 := by decide
  have low : Ext4Inode.field Bytes.zeroed .iSizeLo = 0 := by decide
  refine ⟨?_, ?_, ?_, ?_⟩
  · rw [Inode.specialInode, Ext4Inode.iMode, Ext4Inode.field_setBlockData,
      Ext4Inode.field_setField_of_ne _ _ (by decide),
      Ext4Inode.field_setField_of_ne _ _ (by decide), Ext4Inode.field_setField_same]
    exact Nat.mod_eq_of_lt small
  · rw [Inode.specialInode, Ext4Inode.iLinksCount, Ext4Inode.field_setBlockData,
      Ext4Inode.field_setField_of_ne _ _ (by decide), Ext4Inode.field_setField_same]
    rfl
  · rw [Inode.specialInode, Ext4Inode.usesExtents, Ext4Inode.iFlags, Ext4Inode.field_setBlockData,
      Ext4Inode.field_setField_same]
    rfl
  · rw [Inode.specialInode, Ext4Inode.size, Ext4Inode.iSizeHigh, Ext4Inode.iSizeLo,
      Ext4Inode.field_setBlockData, Ext4Inode.field_setBlockData]
    simp [high, low]

theorem blockData_specialInode : (Inode.specialInode mode.toNat rdev.toNat).blockData =
    (Bytes.zeroed.putUint 0 4 rdev.toNat).putUint 4 4 (rdev.toNat / 2 ^ 32) := by
  rw [Inode.specialInode, Ext4Inode.blockData_setBlockData]

theorem specialRdev_specialInode :
    (Inode.specialInode mode.toNat rdev.toNat).specialRdev = rdev.toNat := by
  have small : rdev.toNat < 2 ^ 64 := rdev.toNat_lt
  rw [Ext4Inode.specialRdev, blockData_specialInode, Bytes.uint_putUint _ _ (by decide),
    Bytes.uint_putUint_outside _ _ (by decide), Bytes.uint_putUint _ _ (by decide)]
  omega

variable {mode rdev} {reserved : Set Nat} {view : View} {id : Nat}
  (inodeEq : view.inode id = Inode.specialInode mode.toNat rdev.toNat)

include inodeEq

theorem View.owned_of_special : view.owned id = [] := by
  have extentsEq : view.extents id = [] := by
    rw [View.extents, inodeEq, (field_specialInode mode rdev).2.2.1]
    rfl
  rw [View.owned, extentsEq, View.tree, treeBlocks_of_zeros]
  · rfl
  · intro index behind
    rw [inodeEq, blockData_specialInode, Bytes.putUint, Bytes.get_overlay_outside _ _ (by omega),
      Bytes.putUint, Bytes.get_overlay_outside _ _ (by omega), Bytes.get_zeroed]

/-- A new special file is the device that was asked for. -/
theorem View.showsLeaf_special (special : IsSpecial mode.toNat) :
    view.ShowsLeaf reserved id 1 ⟨mode.toNat, .device rdev.toNat⟩ := by
  obtain ⟨modeEq, links, usesExtents, size⟩ := field_specialInode mode rdev
  obtain ⟨notFile, notDir, notSymlink, _⟩ := special.kind
  rw [← modeEq, ← inodeEq] at notFile notDir notSymlink
  refine ⟨by rw [inodeEq]; exact links, by rw [inodeEq]; exact modeEq, ?_⟩
  exact ⟨by simpa [Ext4Inode.isFile, Ext4Inode.fileType] using notFile,
    by simpa [Ext4Inode.isDir, Ext4Inode.fileType] using notDir,
    by simpa [Ext4Inode.isSymlink, Ext4Inode.fileType] using notSymlink,
    by rw [inodeEq]; exact size, by rw [inodeEq]; exact usesExtents,
    View.owned_of_special inodeEq, by rw [inodeEq]; exact specialRdev_specialInode mode rdev⟩

end Special

end Ext4

end OSWorkspace
