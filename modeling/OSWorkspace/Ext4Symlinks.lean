import OSWorkspace.Ext4EntryAllocations

/-!
# Symbolic links

A short target lies in the `i_block` field of the inode, a longer one in a data
block.  This file compares the rule by which `vfs.rs` chooses between the two
with the rule of the tool that packs the images.
-/

namespace OSWorkspace

/-- A part of a known beginning of a buffer. -/
theorem Bytes.slice_of_beginning {size offset count : Nat} {buffer : Bytes size}
    {beginning : List UInt8} (begins : buffer.slice 0 beginning.length = beginning)
    (inside : offset + count ≤ beginning.length) :
    buffer.slice offset count = (beginning.drop offset).take count := by
  generalize total : beginning.length = length at begins inside
  subst begins
  apply List.ext_getElem
  · simp only [length_slice, List.length_take, List.length_drop]
    omega
  · intro index indexLt _
    simp only [slice, List.getElem_map, List.getElem_range, List.getElem_take, List.getElem_drop,
      Nat.zero_add]

namespace Ext4

open Exec View

/-- The lengths from which the packing tool stores a target in a block. -/
def packedInBlock : Nat := 60

/-- A target in one block behind an extent tree. -/
structure InBlock (volume : Volume) (handle : Inode) (target : List UInt8) : Prop where
  usesExtents : (volume.inodeOf handle).usesExtents = true
  tree : ValidExtentTree volume.disk (volume.inodeOf handle).blockData
  coherent : volume.ExtentsCoherent handle
  length_le : target.length ≤ blockSz
  stored : ∃ hi lo, volume.formatExtentsOf handle = [⟨0, 1, hi, lo⟩] ∧
    (volume.disk (Ext4Extent.startBlock ⟨0, 1, hi, lo⟩)).slice 0 target.length = target

/-- A symbolic link in the form of the packing tool. -/
structure PackedSymlink (volume : Volume) (handle : Inode) (target : List UInt8) : Prop where
  isSymlink : (volume.inodeOf handle).isSymlink = true
  size_eq : (volume.inodeOf handle).size = target.length
  inline : target.length < packedInBlock →
    (volume.inodeOf handle).blockData.slice 0 target.length = target
  inBlock : packedInBlock ≤ target.length → InBlock volume handle target

/-- The read returns the bytes of the target from an offset up to its end. -/
def ReadsTarget (volume : Volume) (self : Inode) (target : List UInt8) (offset : Nat)
    (buf : List UInt8) : Prop :=
  let count := min buf.length (target.length - offset)
  ∃ after, (self.readAt offset buf).run volume =
    .ok (count, (target.drop offset).take count ++ buf.drop count) after

/-- A short link is read from its inode. -/
theorem Inode.run_readAt_inline {volume : Volume} {self : Inode}
    (fits : self.blockOffset + inodeStructSize ≤ blockSz)
    (isSymlink : (volume.inodeOf self).isSymlink = true)
    (short : (volume.inodeOf self).size ≤ iBlockSize) (offset : Nat) (buf : List UInt8) :
    (self.readAt offset buf).run volume =
      .ok (min buf.length ((volume.inodeOf self).size - offset),
        (volume.inodeOf self).blockData.slice offset
          (min buf.length ((volume.inodeOf self).size - offset)) ++
        buf.drop (min buf.length ((volume.inodeOf self).size - offset))) volume := by
  rw [readAt, run_bind_ok (run_readDiskInode fits)]
  by_cases nothing : offset ≥ (volume.inodeOf self).size ∨
      min buf.length ((volume.inodeOf self).size - offset) = 0
  · have zero : min buf.length ((volume.inodeOf self).size - offset) = 0 := by omega
    simp only [nothing, if_true, run_pure]
    rw [zero]
    rfl
  · simp only [if_neg nothing, isSymlink, short, and_self, if_true, run_pure]

/-- A target in a block is read from that block. -/
theorem InBlock.readsTarget {volume : Volume} {self : Inode} {target : List UInt8}
    (inBlock : InBlock volume self target)
    (fits : self.blockOffset + inodeStructSize ≤ blockSz)
    (size_eq : (volume.inodeOf self).size = target.length) (long : iBlockSize < target.length)
    (offset : Nat) (buf : List UInt8) : ReadsTarget volume self target offset buf := by
  obtain ⟨hi, lo, entries, begins⟩ := inBlock.stored
  have parsed : volume.extentsOf self = [⟨0, 1, hi, lo⟩] := by
    rw [← entries]
    exact parseExtentTree_of_valid inBlock.tree
  obtain ⟨after, ran, _⟩ := Inode.run_readAt fits (by omega) inBlock.usesExtents inBlock.coherent
    (by rw [parsed]; exact List.pairwise_singleton _ _) offset buf
  rw [parsed, size_eq] at ran
  have lengthLe := inBlock.length_le
  generalize counted : min buf.length (target.length - offset) = count at ran
  refine ⟨after, ?_⟩
  simp only [counted]
  rw [ran]
  congr 3
  by_cases empty : count = 0
  · subst empty
    rfl
  rw [← Bytes.slice_of_beginning begins (by omega : offset + count ≤ target.length), Bytes.slice]
  apply List.map_congr_left
  intro index isIndex
  have indexLt := List.mem_range.mp isIndex
  have first : (offset + index) / blockSz = 0 := Nat.div_eq_of_lt (by omega)
  have position : (offset + index) % blockSz = offset + index := Nat.mod_eq_of_lt (by omega)
  have inside : Ext4Extent.start ⟨0, 1, hi, lo⟩ = 0 ∧ Ext4Extent.len ⟨0, 1, hi, lo⟩ = 1 :=
    ⟨rfl, by rw [Ext4Extent.len, show (1 : UInt16) &&& 0x7FFF = 1 by decide]; rfl⟩
  rw [byteAt, first, position, inside.1, inside.2, if_pos (by omega), Nat.sub_self, Nat.add_zero]

/-- A packed link reads back exactly when its inode structure lies inside its
block and, if it has 60 bytes, its `i_block` agrees with it. -/
theorem PackedSymlink.readsTarget_iff {volume : Volume} {self : Inode} {target : List UInt8}
    (packed : PackedSymlink volume self target) (offset : Nat) (buf : List UInt8) :
    ReadsTarget volume self target offset buf ↔
      self.blockOffset + inodeStructSize ≤ blockSz ∧
        (target.length = packedInBlock →
          (volume.inodeOf self).blockData.slice offset (min buf.length (target.length - offset)) =
            (target.drop offset).take (min buf.length (target.length - offset))) := by
  by_cases fits : self.blockOffset + inodeStructSize ≤ blockSz
  · simp only [fits, true_and]
    rcases Nat.lt_trichotomy target.length packedInBlock with short | boundary | long
    · refine iff_of_true ⟨volume, ?_⟩ fun same => absurd same (Nat.ne_of_lt short)
      have inside : (volume.inodeOf self).size ≤ iBlockSize := by
        rw [packed.size_eq]
        exact Nat.le_of_lt short
      rw [Inode.run_readAt_inline fits packed.isSymlink inside, packed.size_eq]
      by_cases past : target.length ≤ offset
      · rw [Nat.sub_eq_zero_of_le past, Nat.min_zero]
        rfl
      · rw [Bytes.slice_of_beginning (packed.inline short) (by omega)]
    · simp only [boundary, forall_const, ReadsTarget]
      rw [Inode.run_readAt_inline fits packed.isSymlink
        (by rw [packed.size_eq, boundary]; exact Nat.le_refl _), packed.size_eq, boundary]
      constructor
      · rintro ⟨after, ran⟩
        exact List.append_cancel_right (congrArg Prod.snd (Outcome.ok.inj ran).1)
      · intro agree
        exact ⟨volume, by rw [agree]⟩
    · exact iff_of_true ((packed.inBlock (Nat.le_of_lt long)).readsTarget fits packed.size_eq long
        offset buf) fun same => absurd same (Nat.ne_of_gt long)
  · simp only [fits, false_and, iff_false]
    rintro ⟨after, ran⟩
    rw [Inode.readAt, run_bind_panic (Inode.run_readDiskInode_panics fits)] at ran
    cases ran

/-- A volume whose inode 1 is a link to 60 times `a`, in block 20. -/
def boundaryVolume : Volume where
  fs := smallFileSystem
  disk := Function.update (Function.update (fun _ => .zeroed) 20
    (Bytes.zeroed.write 0 (List.replicate 60 0x61))) 4
    (Bytes.zeroed.paste 0 (((Ext4Inode.setIMode .zeroed 0xA000).setIFlags
      ext4ExtentsFl).setSize 60 |>.setBlockData (storeNode Ext4Extent.record .zeroed 1 4 0
        [⟨0, 1, 0, 20⟩])))
  extentsCache := .empty
  dirIndexCache := .empty

theorem packedSymlink_boundary :
    PackedSymlink boundaryVolume ⟨1, 4, 0⟩ (List.replicate 60 0x61) := by
  refine ⟨by decide, by decide, fun short => absurd short (by decide), fun _ => ?_⟩
  refine ⟨by decide, ⟨by decide, by decide, by decide⟩, ?_,
    by decide, 0, 20, by decide, by decide⟩
  intro extents cached
  cases cached

theorem readsTarget_iff_boundary :
    ReadsTarget boundaryVolume ⟨1, 4, 0⟩ (List.replicate 60 0x61) 0 [0] ↔
      (0 + inodeStructSize ≤ blockSz ∧ (60 = packedInBlock →
        (boundaryVolume.inodeOf ⟨1, 4, 0⟩).blockData.slice 0 (min 1 (60 - 0)) =
          ((List.replicate 60 0x61).drop 0).take (min 1 (60 - 0)))) :=
  packedSymlink_boundary.readsTarget_iff 0 [0]

theorem not_readsTarget_boundary :
    PackedSymlink boundaryVolume ⟨1, 4, 0⟩ (List.replicate 60 0x61) ∧
      ¬ ReadsTarget boundaryVolume ⟨1, 4, 0⟩ (List.replicate 60 0x61) 0 [0] := by
  refine ⟨packedSymlink_boundary, ?_⟩
  rintro ⟨after, ran⟩
  rw [Inode.run_readAt_inline (by decide) packedSymlink_boundary.isSymlink
    (by rw [packedSymlink_boundary.size_eq]; decide)] at ran
  have bytes := congrArg Prod.snd (Outcome.ok.inj ran).1
  revert bytes
  decide

/-- The inode of a link before its target is written. -/
def emptySymlink : Ext4Inode := Inode.extentInode (sIflnk ||| 0o777) 1 []

/-- The part of the call before the target is written. -/
def enterSymlink (self : Inode) (name : Str) : Call Inode := do
  self.checkNewName name
  self.createInode name Ext4DirEntry.ftSymlink emptySymlink

theorem run_createSymlink (self : Inode) (name target : Str) (volume : Volume) :
    (self.createSymlink name target).run volume = (do
      let inode ← enterSymlink self name
      let _ ← (inode.writeAt 0 target.bytes).attempt
      return inode : Call Inode).run volume :=
  (run_bind_assoc _ _ _ _).symm

/-- The size of the link is the length of the target and its contents are the
bytes of the target. -/
structure ReadsBack (handle : Inode) (target : Str) (volume : Volume) : Prop where
  size : ∃ after, handle.size.run volume = .ok target.len after
  contents : ∃ after, handle.readAll.run volume = .ok target.bytes after

/-- A link that the call returns holds its target. -/
def HoldsTarget (self : Inode) (name target : Str) (volume : Volume) : Prop :=
  ∀ inode after, (self.createSymlink name target).run volume = .ok inode after →
    ReadsBack inode target after

/-- The target fits into the inode, or the blocks it needs are free and can be
mapped. -/
def TargetFits (volume : Volume) (inodeNum : Nat) (target : Str) : Prop :=
  target.len ≤ iBlockSize ∨
    (target.len ≤ u32Max * blockSz ∧ FitsMissing volume inodeNum 0 target.bytes)

/-- The blocks that hold a target. -/
def targetBlocks (target : Str) : Nat := (target.len + (blockSz - 1)) / blockSz

/-- The target fits into the inode of a new link, or into blocks of `left` that are
free for it and for the tree that maps them. -/
def LinkFits (left : Volume) (target : Str) : Prop :=
  target.len ≤ iBlockSize ∨
    (target.len ≤ u32Max * blockSz ∧
      RoomFor left (insertAll [] (List.range (targetBlocks target))
        (handedOut left (targetBlocks target))) (targetBlocks target))

/-- A target of fewer than 2^32 blocks is written to all its blocks. -/
theorem missingBlocks_target {view : View} {inodeNum : Nat}
    (unmapped : view.extents inodeNum = []) {target : Str} (near : target.len ≤ u32Max * blockSz) :
    missingBlocks view inodeNum 0 target.bytes = List.range (targetBlocks target) := by
  have start : writeStart 0 = 0 := rfl
  have stop : writeStop 0 target.bytes = targetBlocks target := by
    simp only [writeStop, writeEnd, targetBlocks, Str.len, u32Max, blockSz, u64Max] at near ⊢
    omega
  rw [missingBlocks, unmapped, start, stop, Nat.sub_zero, unmappedBlocks, ← List.range_eq_range']
  exact List.filter_eq_self.mpr fun _ _ => rfl

theorem emptyRoot_emptySymlink : EmptyRoot emptySymlink.blockData := by
  intro disk
  obtain ⟨parseEq, blocksEq⟩ := tree_flat (by decide :
    (nodeHeader emptySymlink.blockData).isValid = true) (by decide) disk
  refine ⟨parseEq.trans ?_, blocksEq⟩
  decide

theorem emptySymlink_spec : emptySymlink.isSymlink = true ∧ emptySymlink.usesExtents = true ∧
    emptySymlink.size = 0 := by
  decide

theorem Str.bytes_ne_nil {str : Str} {count : Nat} (long : count < str.len) : str.bytes ≠ [] := by
  rw [← List.length_pos_iff]
  exact Nat.lt_of_le_of_lt (Nat.zero_le _) long

theorem notInline_of_long {target : Str} (long : iBlockSize < target.len) (inode : Ext4Inode) :
    ¬ (inode.isSymlink = true ∧ writeEnd 0 target.bytes ≤ iBlockSize) := by
  rintro ⟨_, short⟩
  simp only [writeEnd, Str.len, iBlockSize, u64Max] at long short
  omega

section Created

variable {reserved : Set Nat} {inodeNum : Nat} {volume : Volume} {target : Str}

section Reading

variable (mounted : volume.view.Mounted reserved) (isInode : volume.view.fs.IsInode inodeNum)

include mounted isInode

theorem run_size_handle : (volume.view.fs.handle inodeNum).size.run volume =
    .ok (volume.view.inode inodeNum).size volume := by
  rw [Inode.size, run_bind_ok (view_readDiskInode mounted.layout mounted.geometry isInode)]
  rfl

theorem readsBack_inline (isSymlink : (volume.view.inode inodeNum).isSymlink = true)
    (size_eq : (volume.view.inode inodeNum).size = target.len) (short : target.len ≤ iBlockSize)
    (begins : (volume.view.inode inodeNum).blockData.slice 0 target.len = target.bytes) :
    ReadsBack (volume.view.fs.handle inodeNum) target volume := by
  have size := run_size_handle mounted isInode
  obtain ⟨_, _, _, fits⟩ := mounted.layout.handle_spec mounted.geometry isInode
  have inodeEq := inodeOf_handle mounted isInode
  rw [size_eq] at size
  refine ⟨⟨_, size⟩, volume, ?_⟩
  rw [Inode.readAll, run_bind_ok size, run_bind_ok (Inode.run_readAt_inline fits
    (by rw [inodeEq]; exact isSymlink) (by rw [inodeEq, size_eq]; exact short) _ _), inodeEq, size_eq]
  simp only [List.length_replicate, Nat.sub_zero, Nat.min_self, begins, List.drop_replicate,
    Nat.sub_self, List.replicate_zero, List.append_nil]
  rfl

theorem readsBack_blocks (owning : volume.view.Owning reserved inodeNum)
    (coherent : volume.view.Coherent inodeNum)
    (usesExtents : (volume.view.inode inodeNum).usesExtents = true)
    (ordered : Ordered (volume.view.extents inodeNum))
    (size_eq : (volume.view.inode inodeNum).size = target.len) (long : iBlockSize < target.len)
    (bytes : ∀ position < target.len, byteAt volume.view.data (volume.view.extents inodeNum)
      position = target.bytes.getD position 0) :
    ReadsBack (volume.view.fs.handle inodeNum) target volume := by
  have size := run_size_handle mounted isInode
  obtain ⟨after, ran⟩ := view_readAll mounted isInode owning coherent usesExtents
    (by rw [size_eq]; omega) ordered
  rw [size_eq] at size ran
  refine ⟨⟨_, size⟩, after, ?_⟩
  rw [ran]
  congr 1
  apply List.ext_getElem
  · rw [List.length_map, List.length_range]
    rfl
  · intro position positionLt inside
    rw [List.getElem_map, List.getElem_range, bytes position inside,
      List.getD_eq_getElem _ _ inside]

end Reading

variable (made : Made reserved inodeNum emptySymlink volume.view)

include made

theorem Made.unmapped : volume.view.extents inodeNum = [] ∧ volume.view.owned inodeNum = [] := by
  obtain ⟨parseEq, blocksEq⟩ := emptyRoot_emptySymlink volume.view.data
  have extentsEq : volume.view.extents inodeNum = [] := by
    rw [View.extents, made.inode_eq, if_pos emptySymlink_spec.2.1, parseEq]
  refine ⟨extentsEq, ?_⟩
  rw [View.owned, extentsEq, View.tree, treeBlocks, made.inode_eq, blocksEq]
  rfl

theorem Made.owning : volume.view.Owning reserved inodeNum := by
  constructor <;> rw [made.unmapped.2] <;> simp

theorem Made.coherent : volume.view.Coherent inodeNum := by
  intro extents found
  rw [made.uncached] at found
  cases found

theorem Made.isSymlink : (volume.view.inode inodeNum).isSymlink = true := by
  rw [made.inode_eq]
  exact emptySymlink_spec.1

/-- A short target goes into the inode. -/
theorem Made.writeTarget_short (short : target.len ≤ iBlockSize) :
    ∃ after, ((volume.view.fs.handle inodeNum).writeAt 0 target.bytes).run volume =
        .ok target.len after ∧
      ReadsBack (volume.view.fs.handle inodeNum) target after := by
  obtain ⟨_, _, empty⟩ := emptySymlink_spec
  rw [← made.inode_eq] at empty
  by_cases nothing : target.bytes = []
  · have noBytes : target.len = 0 := by rw [Str.len, nothing, List.length_nil]
    refine ⟨volume, ?_, ?_⟩
    · rw [nothing, noBytes]
      exact view_writeAt_empty made.mounted made.isInode (Or.inr made.isSymlink) 0
    · refine readsBack_inline made.mounted made.isInode made.isSymlink (empty.trans noBytes.symm)
        short ?_
      rw [noBytes, nothing]
      rfl
  · have ends : writeEnd 0 target.bytes = target.len := by
      simp only [writeEnd, Str.len, iBlockSize, u64Max] at short ⊢
      omega
    obtain ⟨after, ran, afterView⟩ := view_writeAt_inline made.mounted made.isInode made.isSymlink
      nothing (by rw [ends]; exact short)
    have afterFs : after.view.fs = volume.view.fs := by
      rw [afterView]
      rfl
    have sameInode : after.view.inode inodeNum =
        (volume.view.inode inodeNum).storeText 0 target.bytes := by
      rw [afterView]
      exact inode_putInode_same made.mounted.layout made.mounted.geometry made.isInode _
    refine ⟨after, ran, ?_⟩
    rw [← afterFs]
    have modeEq : ((volume.view.inode inodeNum).storeText 0 target.bytes).iMode =
        (volume.view.inode inodeNum).iMode := by
      rw [Ext4Inode.storeText, Ext4Inode.iMode, Ext4Inode.field_setSize _ _ (by decide) (by decide),
        Ext4Inode.field_setBlockData]
    have afterMounted : after.view.Mounted reserved := by
      rw [afterView]
      exact ⟨made.mounted.geometry, made.mounted.small, made.mounted.layout, made.mounted.reserved⟩
    refine readsBack_inline afterMounted (by rw [afterFs]; exact made.isInode) ?_ ?_ short ?_
    · rw [sameInode, Ext4Inode.isSymlink, Ext4Inode.fileType, modeEq]
      exact made.isSymlink
    · rw [sameInode, Ext4Inode.storeText, ends]
      exact Ext4Inode.size_setSize _ (by simp only [iBlockSize] at short; omega)
    · rw [sameInode, Ext4Inode.storeText, Ext4Inode.blockData_setSize,
        Ext4Inode.blockData_setBlockData]
      exact Bytes.slice_write _ (by simpa [Str.len] using short)

section Long

variable (long : iBlockSize < target.len)

include long

/-- A link whose target could not be written has no contents. -/
theorem Made.not_readsBack {error : Ext4Error} {after : Volume}
    (failed : ((volume.view.fs.handle inodeNum).writeAt 0 target.bytes).run volume =
      .err error after) :
    ¬ ReadsBack (volume.view.fs.handle inodeNum) target after := by
  obtain ⟨step, sameSize⟩ := size_of_writeAt_err made.mounted made.isInode made.owning made.coherent
    (Or.inr made.isSymlink) (Str.bytes_ne_nil long) (notInline_of_long long _) failed
  rw [made.inode_eq, emptySymlink_spec.2.2] at sameSize
  rintro ⟨⟨last, size⟩, _⟩
  rw [← step.fs, run_size_handle (step.mounted made.mounted made.owning)
    (by rw [step.fs]; exact made.isInode), sameSize] at size
  have lengthEq := (Outcome.ok.inj size).1
  omega

theorem Made.readsBack_written {count : Nat} {after : Volume} (near : target.len ≤ u32Max * blockSz)
    (ran : ((volume.view.fs.handle inodeNum).writeAt 0 target.bytes).run volume =
      .ok count after) :
    ReadsBack (volume.view.fs.handle inodeNum) target after := by
  obtain ⟨_, usesExtents, empty⟩ := emptySymlink_spec
  rw [← made.inode_eq] at usesExtents empty
  have tidy : Tidy (volume.view.extents inodeNum) := by
    rw [made.unmapped.1]
    exact ⟨List.Pairwise.nil, by simp [Bounded], by simp⟩
  have ends : max 0 (writeEnd 0 target.bytes) = target.len := by
    simp only [writeEnd, Str.len, u32Max, blockSz, u64Max] at near ⊢
    omega
  rcases view_writeAt_blocks made.mounted made.isInode made.owning made.coherent
    (Or.inr made.isSymlink) (Str.bytes_ne_nil long) (notInline_of_long long _) with
    ⟨last, ended, wrote⟩ | ⟨_, _, ended, _⟩ | ⟨_, ended, _⟩
  all_goals
    rw [ran] at ended
    cases ended
  have size := wrote.size
  rw [empty, ends] at size
  rw [← wrote.step.fs]
  refine readsBack_blocks (wrote.step.mounted made.mounted made.owning)
    (by rw [wrote.step.fs]; exact made.isInode) wrote.step.owning wrote.step.coherent
    (wrote.usesExtents usesExtents) (wrote.tidy tidy).ordered size long ?_
  intro position inside
  rw [wrote.bytes tidy (Str.bytes_ne_nil long) (by rw [Nat.zero_add]; exact near), writtenByte,
    if_pos, Nat.sub_zero]
  exact ⟨Nat.zero_le _, by rw [Nat.zero_add]; exact inside⟩

/-- A longer target goes into blocks. -/
theorem Made.writeTarget_long :
    (TargetFits volume inodeNum target ∧ ∃ after,
      ((volume.view.fs.handle inodeNum).writeAt 0 target.bytes).run volume =
        .ok target.len after) ∨
    (¬ TargetFits volume inodeNum target ∧ ∃ error after,
      ((volume.view.fs.handle inodeNum).writeAt 0 target.bytes).run volume = .err error after) := by
  have nonempty := Str.bytes_ne_nil long
  have notInline := notInline_of_long long (volume.view.inode inodeNum)
  have notShort : ¬ target.len ≤ iBlockSize := Nat.not_le.mpr long
  rw [TargetFits, or_iff_right notShort]
  by_cases near : target.len ≤ u32Max * blockSz
  · have missing : missingBlocks volume.view inodeNum 0 target.bytes ≠ [] := by
      rw [ne_eq, missingBlocks_eq_nil_iff made.unmapped.1, Nat.not_le]
      exact writeStart_lt_writeStop (by rw [Nat.zero_add]; exact near) nonempty
    rcases writeAt_missing_outcome made.mounted made.isInode made.owning made.coherent
      (Or.inr made.isSymlink) nonempty notInline missing with
      ⟨fits, ⟨_, after, ran⟩ | ⟨notCovered, _⟩⟩ | ⟨noFit, error, after, ran, _⟩
    · exact Or.inl ⟨⟨near, fits⟩, after, ran⟩
    · exact absurd (covered_of_near _ _ (by rw [Nat.zero_add]; exact near)) notCovered
    · exact Or.inr ⟨fun fits => noFit fits.2, error, after, ran⟩
  · have notCovered := not_covered_of_far volume.view inodeNum nonempty (by decide)
      (by rw [Nat.zero_add]; exact Nat.not_le.mp near : u32Max * blockSz < 0 + target.bytes.length)
    refine Or.inr ⟨fun fits => near fits.1, ?_⟩
    by_cases nothing : missingBlocks volume.view inodeNum 0 target.bytes = []
    · rcases writeAt_mapped_outcome made.mounted made.isInode made.owning made.coherent
        (Or.inr made.isSymlink) nonempty notInline nothing with
        ⟨covered, _⟩ | ⟨_, _, after, _, _, ran, _⟩
      · exact absurd covered notCovered
      · exact ⟨_, after, ran⟩
    · rcases writeAt_missing_outcome made.mounted made.isInode made.owning made.coherent
        (Or.inr made.isSymlink) nonempty notInline nothing with
        ⟨_, ⟨covered, _⟩ | ⟨_, _, _, _, after, ran, _⟩⟩ | ⟨_, error, after, ran, _⟩
      · exact absurd covered notCovered
      · exact ⟨_, after, ran⟩
      · exact ⟨error, after, ran⟩

end Long

/-- Writing the target of a new link. -/
theorem Made.writeTarget (target : Str) :
    (TargetFits volume inodeNum target ∧ ∃ after,
      ((volume.view.fs.handle inodeNum).writeAt 0 target.bytes).run volume =
          .ok target.len after ∧
        ReadsBack (volume.view.fs.handle inodeNum) target after) ∨
    (¬ TargetFits volume inodeNum target ∧ ∃ error after,
      ((volume.view.fs.handle inodeNum).writeAt 0 target.bytes).run volume =
          .err error after ∧
        ¬ ReadsBack (volume.view.fs.handle inodeNum) target after) := by
  by_cases short : target.len ≤ iBlockSize
  · exact Or.inl ⟨Or.inl short, made.writeTarget_short short⟩
  · have long := Nat.not_le.mp short
    rcases made.writeTarget_long long with ⟨fits, after, ran⟩ | ⟨noFit, error, after, ran⟩
    · have near := (fits.resolve_left short).1
      exact Or.inl ⟨fits, after, ran, made.readsBack_written long near ran⟩
    · exact Or.inr ⟨noFit, error, after, ran, made.not_readsBack long ran⟩

end Created

/-- Whether the target fits is known from the blocks that the entry leaves. -/
theorem Made.targetFits_iff {reserved : Set Nat} {inodeNum : Nat} {left volume : Volume}
    (made : Made reserved inodeNum emptySymlink volume.view) (same : SameAllocator left volume)
    (target : Str) : TargetFits volume inodeNum target ↔ LinkFits left target := by
  have geometry : Geometry left.view.fs := by
    rw [← same.view_fs]
    exact made.mounted.geometry
  rw [TargetFits, LinkFits]
  refine or_congr_right (and_congr_right fun near => ?_)
  rw [FitsMissing, made.unmapped.1, missingBlocks_target made.unmapped.1 near, List.length_range,
    same.handedOut_eq, same.roomFor_iff geometry]

/-- The link that was entered is in place. -/
theorem made_enterSymlink {reserved : Set Nat} {dir : Nat} {volume entered : Volume}
    (mounted : volume.view.Mounted reserved) (directory : volume.view.Directory reserved dir)
    {name : Str} {inode : Inode}
    (ran : (enterSymlink (volume.view.fs.handle dir) name).run volume = .ok inode entered) :
    inode = entered.view.fs.handle inode.inodeNum ∧
      Made reserved inode.inodeNum emptySymlink entered.view := by
  obtain ⟨_, first, checked, created⟩ := of_run_bind_ok ran
  rcases checkNewName_outcome mounted directory name with ⟨enters, middle, passed, looked⟩ |
    ⟨_, panics | ⟨_, _, failed, _⟩⟩
  · rw [passed] at checked
    cases checked
    obtain ⟨inodeNum, isHandle, isMade⟩ := made_createInode mounted directory looked enters created
    subst isHandle
    exact ⟨rfl, isMade⟩
  · rw [panics] at checked
    cases checked
  · rw [failed] at checked
    cases checked

/-- A link that is made holds its target exactly when the target fits once the
name is entered. -/
theorem holdsTarget_iff_entered {reserved : Set Nat} {dir : Nat} {volume : Volume}
    (mounted : volume.view.Mounted reserved) (directory : volume.view.Directory reserved dir)
    (name target : Str) :
    HoldsTarget (volume.view.fs.handle dir) name target volume ↔
      ∀ inode entered, (enterSymlink (volume.view.fs.handle dir) name).run volume =
        .ok inode entered → TargetFits entered inode.inodeNum target := by
  constructor
  · intro holds inode entered ran
    obtain ⟨isHandle, isMade⟩ := made_enterSymlink mounted directory ran
    by_contra noFit
    rcases isMade.writeTarget target with ⟨fits, _⟩ | ⟨_, error, after, failed, unread⟩
    · exact noFit fits
    · rw [← isHandle] at failed unread
      apply unread
      apply holds inode after
      rw [run_createSymlink, run_bind_ok ran, run_bind_ok (run_attempt_err failed), run_pure]
  · intro fits inode after whole
    rw [run_createSymlink] at whole
    obtain ⟨other, entered, ran, rest⟩ := of_run_bind_ok whole
    obtain ⟨isHandle, isMade⟩ := made_enterSymlink mounted directory ran
    rcases isMade.writeTarget target with ⟨_, last, wrote, reads⟩ | ⟨noFit, _⟩
    · rw [← isHandle] at wrote reads
      rw [run_bind_ok (run_attempt_ok wrote), run_pure] at rest
      cases rest
      exact reads
    · exact absurd (fits other entered ran) noFit

/-- Entering a link: it is made exactly when its name may enter, a number is free and
the name fits, and the entry leaves the blocks that `leftByEntry` says. -/
theorem enterSymlink_fits {reserved : Set Nat} {dir : Nat} {volume : Volume}
    (mounted : volume.view.Mounted reserved) (directory : volume.view.Directory reserved dir)
    (name : Str) :
    ((Enters volume.view dir name ∧ volume.view.HasFreeInode ∧ EntryFits volume dir name) ∧
      ∃ inode entered, (enterSymlink (volume.view.fs.handle dir) name).run volume =
        .ok inode entered ∧ SameAllocator (leftByEntry volume dir name) entered) ∨
    (¬ (Enters volume.view dir name ∧ volume.view.HasFreeInode ∧ EntryFits volume dir name) ∧
      ∀ inode entered, (enterSymlink (volume.view.fs.handle dir) name).run volume ≠
        .ok inode entered) := by
  rcases checkNewName_outcome mounted directory name with ⟨enters, first, passed, looked⟩ |
    ⟨refused, outcome⟩
  · rw [enterSymlink, run_bind_ok passed]
    rcases createInode_fits mounted directory looked enters Ext4DirEntry.ftSymlink emptySymlink with
      ⟨fits, inode, entered, left, created, leaves, same⟩ | ⟨noFit, fails⟩
    · rw [← leftByEntry_eq leaves] at same
      exact Or.inl ⟨⟨enters, fits⟩, inode, entered, created, same⟩
    · exact Or.inr ⟨fun all => noFit all.2, fails⟩
  · refine Or.inr ⟨fun all => refused all.1, fun inode entered isOk => ?_⟩
    obtain ⟨_, _, passed, _⟩ := of_run_bind_ok isOk
    rcases outcome with panics | ⟨_, _, failed, _⟩
    · rw [panics] at passed
      cases passed
    · rw [failed] at passed
      cases passed

/-- A link that is made holds its target exactly when the name cannot be entered or
the blocks left behind its entry hold the target. -/
theorem holdsTarget_iff {reserved : Set Nat} {dir : Nat} {volume : Volume}
    (mounted : volume.view.Mounted reserved) (directory : volume.view.Directory reserved dir)
    (name target : Str) :
    HoldsTarget (volume.view.fs.handle dir) name target volume ↔
      (Enters volume.view dir name → volume.view.HasFreeInode → EntryFits volume dir name →
        LinkFits (leftByEntry volume dir name) target) := by
  rw [holdsTarget_iff_entered mounted directory name target]
  rcases enterSymlink_fits mounted directory name with ⟨made, inode, entered, ran, same⟩ |
    ⟨refused, fails⟩
  · obtain ⟨_, isMade⟩ := made_enterSymlink mounted directory ran
    rw [ran, ← isMade.targetFits_iff same target]
    constructor
    · exact fun fits _ _ _ => fits inode entered rfl
    · intro fits other last isOk
      cases isOk
      exact fits made.1 made.2.1 made.2.2
  · exact iff_of_true (fun inode entered ran => absurd ran (fails inode entered))
      fun enters hasFree fits => absurd ⟨enters, hasFree, fits⟩ refused

/-- A target of 61 bytes. -/
def longTarget : Str := ⟨List.replicate 61 0x61, by decide⟩

theorem holdsTarget_iff_root :
    HoldsTarget ((rootVolume fullBitmap).view.fs.handle 2) letterA longTarget
        (rootVolume fullBitmap) ↔
      (Enters (rootVolume fullBitmap).view 2 letterA → (rootVolume fullBitmap).view.HasFreeInode →
        EntryFits (rootVolume fullBitmap) 2 letterA →
          LinkFits (leftByEntry (rootVolume fullBitmap) 2 letterA) longTarget) :=
  holdsTarget_iff mounted_full directory_full letterA longTarget

/-- The size of the link that a call makes. -/
def createdSize (self : Inode) (name target : Str) : Call Nat := do
  let inode ← self.createSymlink name target
  inode.size

theorem HoldsTarget.createdSize_eq {self : Inode} {name target : Str} {volume : Volume}
    (holds : HoldsTarget self name target volume) {size : Nat} {after : Volume}
    (ran : (createdSize self name target).run volume = .ok size after) : size = target.len := by
  obtain ⟨inode, between, created, sized⟩ := of_run_bind_ok ran
  obtain ⟨last, sameSize⟩ := (holds inode between created).size
  rw [sameSize] at sized
  cases sized
  rfl

/-- Without a free block a link to a long target is made and stays empty. -/
theorem not_holdsTarget_full :
    ¬ HoldsTarget ((rootVolume fullBitmap).view.fs.handle 2) letterA longTarget
      (rootVolume fullBitmap) := by
  intro holds
  have empty : ((createdSize ((rootVolume fullBitmap).view.fs.handle 2) letterA longTarget).run
      (rootVolume fullBitmap)).value? = some 0 := by decide +kernel
  obtain ⟨after, ran⟩ := Outcome.of_value? empty
  exact absurd (holds.createdSize_eq ran) (by decide)

end Ext4

end OSWorkspace
