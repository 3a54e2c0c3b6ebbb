import OSWorkspace.Ext4FailedGrowth

/-!
# Failed writes

A write that returns an error may have taken blocks that it does not give back,
or have copied a part of its buffer.  This file gives the exact condition, on
the state before the call, under which a failed write leaves no trace.
-/

namespace OSWorkspace

namespace Ext4

open Exec View

/-- The first logical block of a write. -/
def writeStart (offset : Nat) : Nat := offset / blockSz % 2 ^ 32

/-- The logical block behind a write. -/
def writeStop (offset : Nat) (buf : List UInt8) : Nat :=
  min (writeEnd offset buf + (blockSz - 1)) u64Max / blockSz % 2 ^ 32

theorem writeStart_le (offset : Nat) : writeStart offset ≤ u32Max := by
  simp only [writeStart, u32Max]
  omega

theorem writeStop_le (offset : Nat) (buf : List UInt8) : writeStop offset buf ≤ u32Max := by
  simp only [writeStop, u32Max]
  omega

/-- The logical blocks for which a write needs new blocks. -/
def missingBlocks (view : View) (inodeNum offset : Nat) (buf : List UInt8) : List Nat :=
  unmappedBlocks (view.extents inodeNum) (writeStart offset)
    (writeStop offset buf - writeStart offset)

/-- Every byte of the buffer falls into a block that is mapped, now or by the
write itself; so for every write that ends below the last logical block. -/
def Covered (view : View) (inodeNum offset : Nat) (buf : List UInt8) : Prop :=
  ∀ index < buf.length,
    mapLogicalBlock (view.extents inodeNum) (bufferBlock offset index) ≠ none ∨
      (writeStart offset ≤ bufferBlock offset index ∧
        bufferBlock offset index < writeStop offset buf)

/-- The bytes of the buffer before the first unmapped block stand already in
the file, as far as they lie before its end. -/
def AlreadyWritten (view : View) (inodeNum offset : Nat) (buf : List UInt8) : Prop :=
  ∀ index < buf.length, Reaches (view.extents inodeNum) offset index →
    (offset + index) % addressable < (view.inode inodeNum).size →
      byteAt view.data (view.extents inodeNum) ((offset + index) % addressable) =
        buf.getD index 0

/-- The blocks that a write needs, and the tree over all blocks, fit into the
free blocks. -/
def FitsMissing (volume : Volume) (inodeNum offset : Nat) (buf : List UInt8) : Prop :=
  RoomFor volume (insertAll (volume.view.extents inodeNum)
      (missingBlocks volume.view inodeNum offset buf)
      (handedOut volume (missingBlocks volume.view inodeNum offset buf).length))
    (missingBlocks volume.view inodeNum offset buf).length

/-- A write that fails will not have taken a block or changed a byte. -/
def FailsUntouched (volume : Volume) (inodeNum offset : Nat) (buf : List UInt8) : Prop :=
  buf = [] ∨
    (missingBlocks volume.view inodeNum offset buf = [] ∧
      (Covered volume.view inodeNum offset buf ∨
        AlreadyWritten volume.view inodeNum offset buf)) ∨
    (missingBlocks volume.view inodeNum offset buf ≠ [] ∧
      ((RoomFor volume (insertAll (volume.view.extents inodeNum)
          (missingBlocks volume.view inodeNum offset buf)
          (handedOut volume (missingBlocks volume.view inodeNum offset buf).length))
          (missingBlocks volume.view inodeNum offset buf).length ∧
          Covered volume.view inodeNum offset buf) ∨
        ¬ volume.view.HasFree 1))

/-- The blocks in use, all inodes, the blocks of extent trees and other files,
and the bytes of the file are the same, also through the caches. -/
structure LeavesNoTrace (inodeNum : Nat) (view after : View) : Prop where
  fs : after.fs = view.fs
  held : after.held .block = view.held .block
  inodes : ∀ other, view.fs.IsInode other → after.inode other = view.inode other
  blocks : ∀ blockId ∈ view.held .block, blockId ∉ dataBlocks (view.extents inodeNum) →
    after.data blockId = view.data blockId
  bytes : ∀ position < (view.inode inodeNum).size,
    byteAt after.data (after.extents inodeNum) position =
      byteAt view.data (view.extents inodeNum) position
  coherent : after.Coherent inodeNum
  extentsCache : CacheShrinks (· ≠ inodeNum) view.extentsCache after.extentsCache

section Traces

variable {reserved : Set Nat} {inodeNum : Nat} {volume after : Volume}
  (noTrace : LeavesNoTrace inodeNum volume.view after.view)

include noTrace

theorem LeavesNoTrace.mounted (mounted : volume.view.Mounted reserved) :
    after.view.Mounted reserved := by
  refine ⟨by rw [noTrace.fs]; exact mounted.geometry, by rw [noTrace.fs]; exact mounted.small,
    by rw [noTrace.fs]; exact mounted.layout, ?_⟩
  intro blockId isReserved
  rw [noTrace.held]
  exact mounted.reserved blockId isReserved

/-- Another file is read as before. -/
theorem LeavesNoTrace.readAt_other (mounted : volume.view.Mounted reserved) {other : Nat}
    (isOther : volume.view.fs.IsInode other) (different : other ≠ inodeNum)
    (owning : volume.view.Owning reserved other) (coherent : volume.view.Coherent other)
    (disjoint : List.Disjoint (volume.view.owned other) (volume.view.owned inodeNum))
    (usesExtents : (volume.view.inode other).usesExtents = true)
    (notSymlink : (volume.view.inode other).isSymlink = false)
    (ordered : Ordered (volume.view.extents other)) (offset : Nat) (buf : List UInt8) :
    ∃ value first second,
      ((volume.view.fs.handle other).readAt offset buf).run volume = .ok value first ∧
        ((volume.view.fs.handle other).readAt offset buf).run after = .ok value second := by
  have sameInode := noTrace.inodes other isOther
  have unchanged : Unchanged volume.view after.view other := by
    refine ⟨sameInode, ?_, ?_⟩
    · intro blockId isOwned
      exact noTrace.blocks blockId (owning.held blockId isOwned) fun isData =>
        disjoint isOwned (View.mem_owned.mpr (Or.inl isData))
    · intro blockId _ isHeld
      rw [noTrace.held]
      exact isHeld
  have afterCoherent : after.view.Coherent other := by
    intro cached found
    rw [unchanged.extents_eq]
    exact coherent cached (noTrace.extentsCache other different cached found)
  obtain ⟨first, firstRan, _⟩ := view_readAt mounted isOther owning coherent usesExtents
    (by simp [notSymlink]) ordered offset buf
  obtain ⟨second, secondRan, _⟩ := @view_readAt after reserved (noTrace.mounted mounted) other
    (by rw [noTrace.fs]; exact isOther) (unchanged.owning owning) afterCoherent
    (by rw [sameInode]; exact usesExtents) (by rw [sameInode]; simp [notSymlink])
    (by rw [unchanged.extents_eq]; exact ordered) offset buf
  refine ⟨_, first, second, firstRan, ?_⟩
  rw [noTrace.fs, sameInode, unchanged.extents_eq] at secondRan
  rw [secondRan]
  congr 4
  funext index
  exact byteAt_congr (fun blockId isData => unchanged.data blockId
    (View.mem_owned.mpr (Or.inl isData))) _

/-- The file itself is read as before. -/
theorem LeavesNoTrace.readAt_self (mounted : volume.view.Mounted reserved)
    (isInode : volume.view.fs.IsInode inodeNum) (owning : volume.view.Owning reserved inodeNum)
    (coherent : volume.view.Coherent inodeNum)
    (usesExtents : (volume.view.inode inodeNum).usesExtents = true)
    (notSymlink : (volume.view.inode inodeNum).isSymlink = false)
    (ordered : Ordered (volume.view.extents inodeNum)) (offset : Nat) (buf : List UInt8) :
    ∃ value first second,
      ((volume.view.fs.handle inodeNum).readAt offset buf).run volume = .ok value first ∧
        ((volume.view.fs.handle inodeNum).readAt offset buf).run after = .ok value second := by
  have sameInode := noTrace.inodes inodeNum isInode
  obtain ⟨extentsEq, treeEq⟩ := View.extents_congr sameInode fun blockId isTree =>
    noTrace.blocks blockId (owning.held blockId (View.mem_owned.mpr (Or.inr isTree))) fun isData =>
      (List.nodup_append.mp owning.nodup).2.2 blockId isData blockId isTree rfl
  have ownedEq : after.view.owned inodeNum = volume.view.owned inodeNum := by
    rw [View.owned, View.owned, extentsEq, treeEq]
  have afterOwning : after.view.Owning reserved inodeNum :=
    ⟨by rw [ownedEq]; exact owning.nodup, by rw [ownedEq, noTrace.held]; exact owning.held,
      by rw [ownedEq]; exact owning.outside⟩
  obtain ⟨first, firstRan, _⟩ := view_readAt mounted isInode owning coherent usesExtents
    (by simp [notSymlink]) ordered offset buf
  obtain ⟨second, secondRan, _⟩ := @view_readAt after reserved (noTrace.mounted mounted) inodeNum
    (by rw [noTrace.fs]; exact isInode) afterOwning noTrace.coherent
    (by rw [sameInode]; exact usesExtents) (by rw [sameInode]; simp [notSymlink])
    (by rw [extentsEq]; exact ordered) offset buf
  refine ⟨_, first, second, firstRan, ?_⟩
  rw [noTrace.fs, sameInode] at secondRan
  rw [secondRan]
  congr 3
  apply List.map_congr_left
  intro index indexMem
  have indexLt := List.mem_range.mp indexMem
  exact noTrace.bytes _ (by omega)

end Traces

/-- If the write fails, it changed nothing. -/
def FailsWithoutTrace (volume : Volume) (inodeNum offset : Nat) (buf : List UInt8) : Prop :=
  ∀ error after,
    ((volume.view.fs.handle inodeNum).writeAt offset buf).run volume = .err error after →
      LeavesNoTrace inodeNum volume.view after.view

/-- A copy that fails after blocks were mapped leaves these in use. -/
theorem not_leavesNoTrace_extended {reserved : Set Nat} {inodeNum : Nat} {view : View}
    {new : List Nat} {result : List Ext4Extent} {middle after : View}
    (extended : Extended reserved inodeNum view new result middle)
    (grows : Grows (view.extents inodeNum) new result) (fresh : view.Fresh new)
    (someNew : new ≠ []) (step : DataStep result middle after) :
    ¬ LeavesNoTrace inodeNum view after := by
  intro noTrace
  obtain ⟨pblock, isNew⟩ := List.exists_mem_of_ne_nil new someNew
  have isData : pblock ∈ dataBlocks (middle.extents inodeNum) := by
    rw [extended.extents]
    exact grows.dataBlocks.symm.subset (List.mem_append_left _ isNew)
  have isHeld : pblock ∈ after.held .block := by
    rw [step.state]
    exact extended.step.owning.held pblock (View.mem_owned.mpr (Or.inl isData))
  rw [noTrace.held] at isHeld
  exact fresh.free pblock isNew isHeld

/-- Bytes copied into an extended map. -/
theorem Extended.copied {reserved : Set Nat} {inodeNum : Nat} {view : View} {new : List Nat}
    {result : List Ext4Extent} {middle after : View}
    (extended : Extended reserved inodeNum view new result middle)
    (mounted : view.Mounted reserved) (isInode : view.fs.IsInode inodeNum)
    (owning : view.Owning reserved inodeNum) (step : DataStep result middle after) :
    FileStep reserved inodeNum view after ∧ after.inode inodeNum = middle.inode inodeNum ∧
      after.extents inodeNum = result ∧
      (after.inode inodeNum).size = (view.inode inodeNum).size := by
  have middleStep : DataStep (middle.extents inodeNum) middle after := by
    rw [extended.extents]
    exact step
  obtain ⟨fileStep, sameInode, extentsEq, _⟩ := middleStep.fileStep
    (extended.step.mounted mounted owning) (by rw [extended.step.fs]; exact isInode)
    extended.step.owning extended.step.coherent
  refine ⟨extended.step.trans fileStep, sameInode, extentsEq.trans extended.extents, ?_⟩
  rw [sameInode]
  exact Ext4Inode.size_congr (extended.fields .iSizeLo (by decide) (by decide))
    (extended.fields .iSizeHigh (by decide) (by decide))

/-- The blocks of a buffer are mapped by the extended map exactly when they
were or lie in the range of the write. -/
theorem covered_iff {view : View} {inodeNum offset : Nat} {buf : List UInt8}
    {result : List Ext4Extent} (stopSmall : writeStop offset buf ≤ u32Max)
    (covers : ∀ l, (∃ p, Maps result l p) ↔ (∃ p, Maps (view.extents inodeNum) l p) ∨
      (writeStart offset ≤ l ∧ l < writeStop offset buf)) :
    (∀ index < buf.length, mapLogicalBlock result (bufferBlock offset index) ≠ none) ↔
      Covered view inodeNum offset buf := by
  apply forall₂_congr
  intro index _
  rw [mapLogicalBlock_ne_none, mapLogicalBlock_ne_none, covers]
  constructor
  · rintro ⟨small, isOld | inside⟩
    · exact Or.inl ⟨small, isOld⟩
    · exact Or.inr inside
  · rintro (⟨small, isOld⟩ | inside)
    · exact ⟨small, Or.inl isOld⟩
    · exact ⟨by omega, Or.inr inside⟩

/-- Every block of a buffer that ends below the last logical block is covered. -/
theorem covered_of_near (view : View) (inodeNum : Nat) {offset : Nat} {buf : List UInt8}
    (near : offset + buf.length ≤ u32Max * blockSz) : Covered view inodeNum offset buf := by
  intro index indexLt
  right
  simp only [bufferBlock, writeStart, writeStop, writeEnd, blockSz, u32Max, u64Max] at near ⊢
  omega

/-- In a file without extents every block of the range is missing. -/
theorem missingBlocks_eq_nil_iff {view : View} {inodeNum offset : Nat} {buf : List UInt8}
    (unmapped : view.extents inodeNum = []) :
    missingBlocks view inodeNum offset buf = [] ↔ writeStop offset buf ≤ writeStart offset := by
  rw [missingBlocks, unmapped, unmappedBlocks, List.filter_eq_nil_iff]
  constructor
  · intro allMapped
    by_contra less
    exact allMapped (writeStart offset) (List.mem_range'_1.mpr ⟨Nat.le_refl _, by omega⟩) rfl
  · intro empty lblock isMem
    have inside := List.mem_range'_1.mp isMem
    omega

theorem writeStart_lt_writeStop {offset : Nat} {buf : List UInt8}
    (near : offset + buf.length ≤ u32Max * blockSz) (nonempty : buf ≠ []) :
    writeStart offset < writeStop offset buf := by
  have positive := List.length_pos_of_ne_nil nonempty
  simp only [writeStart, writeStop, writeEnd, blockSz, u32Max, u64Max] at near ⊢
  omega

/-- A buffer that starts at a 32-bit logical block and reaches the last one is
not covered. -/
theorem not_covered_of_far (view : View) (inodeNum : Nat) {offset : Nat} {buf : List UInt8}
    (nonempty : buf ≠ []) (starts : offset < addressable)
    (far : u32Max * blockSz < offset + buf.length) : ¬ Covered view inodeNum offset buf := by
  intro covered
  have positive := List.length_pos_of_ne_nil nonempty
  have last : bufferBlock offset (u32Max * blockSz - offset) = u32Max := by
    simp only [bufferBlock, addressable, blockSz, u32Max] at starts ⊢
    omega
  rcases covered (u32Max * blockSz - offset) (by omega) with mapped | ⟨_, inside⟩
  · rw [last] at mapped
    exact absurd (mapLogicalBlock_ne_none.mp mapped).1 (by omega)
  · rw [last] at inside
    exact absurd inside (Nat.not_lt.mpr (writeStop_le offset buf))

theorem notInline_of_isFile {inode : Ext4Inode} (isFile : inode.isFile = true) (offset : Nat)
    (buf : List UInt8) : ¬ (inode.isSymlink = true ∧ writeEnd offset buf ≤ iBlockSize) := by
  rintro ⟨isSymlink, _⟩
  rw [Ext4Inode.not_isSymlink_of_isFile isFile] at isSymlink
  cases isSymlink

section Writes

variable {reserved : Set Nat} {inodeNum : Nat} {volume : Volume}
  (mounted : volume.view.Mounted reserved) (isInode : volume.view.fs.IsInode inodeNum)
  (owning : volume.view.Owning reserved inodeNum) (coherent : volume.view.Coherent inodeNum)

include mounted isInode

/-- A write of a non-empty buffer to blocks. -/
theorem run_writeAt_blocks
    (kind : (volume.view.inode inodeNum).isFile = true ∨
      (volume.view.inode inodeNum).isSymlink = true) {offset : Nat} {buf : List UInt8}
    (nonempty : buf ≠ []) (notInline : ¬ ((volume.view.inode inodeNum).isSymlink = true ∧
      writeEnd offset buf ≤ iBlockSize)) :
    ((volume.view.fs.handle inodeNum).writeAt offset buf).run volume = (do
      let extents ← (volume.view.fs.handle inodeNum).ensureWriteBlocks (writeStart offset)
        (writeStop offset buf)
      writeMapped extents buf.length offset buf
      if max (volume.view.inode inodeNum).size (writeEnd offset buf) ≠
          (volume.view.inode inodeNum).size then
        (volume.view.fs.handle inodeNum).modifyDiskInode
          (·.setSize (max (volume.view.inode inodeNum).size (writeEnd offset buf)))
      return buf.length : Call Nat).run volume := by
  have allowed : ¬ (¬ (volume.view.inode inodeNum).isFile = true ∧
      ¬ (volume.view.inode inodeNum).isSymlink = true) := by
    rintro ⟨notFile, notSymlink⟩
    exact kind.elim notFile notSymlink
  rw [Inode.writeAt, run_bind_ok (view_readDiskInode mounted.layout mounted.geometry isInode)]
  rw [writeEnd] at notInline
  rw [if_neg allowed, if_neg nonempty]
  simp only [if_neg notInline]
  rfl

omit isInode in
/-- The part of a write behind the allocation fails exactly when a block of the
buffer is not mapped. -/
theorem copy_outcome {extents : List Ext4Extent}
    (outside : ∀ blockId ∈ dataBlocks extents, blockId ∉ reserved)
    (isInode : volume.view.fs.IsInode inodeNum) (offset : Nat) (buf : List UInt8)
    (oldSize newSize : Nat) :
    ((∀ index < buf.length, mapLogicalBlock extents (bufferBlock offset index) ≠ none) ∧
      ∃ after, (do
        writeMapped extents buf.length offset buf
        if newSize ≠ oldSize then
          (volume.view.fs.handle inodeNum).modifyDiskInode (·.setSize newSize)
        return buf.length : Call Nat).run volume = .ok buf.length after) ∨
    ((∃ index < buf.length, mapLogicalBlock extents (bufferBlock offset index) = none) ∧
      ∃ after count, (do
        writeMapped extents buf.length offset buf
        if newSize ≠ oldSize then
          (volume.view.fs.handle inodeNum).modifyDiskInode (·.setSize newSize)
        return buf.length : Call Nat).run volume = .err .unsupported after ∧
        CopyFails extents offset buf count volume.view after.view) := by
  rcases @view_writeMapped extents volume reserved mounted outside buf.length offset buf
      (Nat.le_refl _) with
    ⟨allMapped, copied, ran, copies⟩ | ⟨unmapped, after, count, ran, fails⟩
  · refine Or.inl ⟨allMapped, ?_⟩
    have copiedFs : copied.view.fs = volume.view.fs := by rw [copies.step.state]
    rw [run_bind_ok ran]
    by_cases same : newSize = oldSize
    · exact ⟨copied, by simp [same]⟩
    · obtain ⟨after, changed, _⟩ := @view_modifyDiskInode copied reserved
        (by rw [copiedFs]; exact mounted.layout) (by rw [copiedFs]; exact mounted.geometry)
        inodeNum (by rw [copiedFs]; exact isInode) (·.setSize newSize)
      rw [copiedFs] at changed
      refine ⟨after, ?_⟩
      simp only [ne_eq, same, not_false_eq_true, if_true]
      rw [run_bind_ok changed, run_pure]
  · exact Or.inr ⟨unmapped, after, count, run_bind_err ran, fails⟩

include owning coherent

theorem ensureWriteBlocks_mapped {startLblock endLblock : Nat} (startSmall : startLblock ≤ u32Max)
    (endSmall : endLblock ≤ u32Max)
    (nothing : unmappedBlocks (volume.view.extents inodeNum) startLblock
      (endLblock - startLblock) = []) :
    ∃ after, ((volume.view.fs.handle inodeNum).ensureWriteBlocks startLblock endLblock).run
        volume = .ok (volume.view.extents inodeNum) after ∧
      (∃ cache, after.view = { volume.view with extentsCache := cache }) ∧
      Extended reserved inodeNum volume.view [] (volume.view.extents inodeNum) after.view := by
  have handed : (handOut (unmappedBlocks (volume.view.extents inodeNum) startLblock
      (endLblock - startLblock)).length).run volume = .ok [] volume := by
    rw [nothing]
    rfl
  rw [Inode.ensureWriteBlocks, run_bind_ok (view_currentExtents mounted isInode owning coherent)]
  rcases run_mapRange mounted (endLblock - startLblock) (by omega) (volume.view.extents inodeNum)
      false handed with ⟨_, ran, _⟩ | ⟨short, _⟩
  · rw [nothing] at ran
    have extended := Extended.refl mounted isInode owning coherent
    obtain ⟨after, put, cache, afterView, _⟩ := view_extentsCachePut volume inodeNum
      (volume.view.extents inodeNum)
    obtain ⟨other, otherPut, afterExtended⟩ := extended.cachePut
    rw [put] at otherPut
    cases otherPut
    refine ⟨after, ?_, ⟨cache, afterView⟩, afterExtended⟩
    rw [run_bind_ok ran]
    exact run_bind_ok put
  · rw [nothing] at short
    exact absurd rfl short

omit coherent in
/-- The bytes of the file after a failed copy without new blocks. -/
theorem byteAt_copyFails (ordered : Ordered (volume.view.extents inodeNum))
    {middle after : View} {cache : Std.TreeMap Nat (List Ext4Extent)}
    (middleView : middle = { volume.view with extentsCache := cache })
    (extended : Extended reserved inodeNum volume.view [] (volume.view.extents inodeNum) middle)
    {offset count : Nat} {buf : List UInt8}
    (fails : CopyFails (volume.view.extents inodeNum) offset buf count middle after)
    (position : Nat) :
    byteAt after.data (after.extents inodeNum) position =
      writtenByte (byteAt volume.view.data (volume.view.extents inodeNum))
        (offset % addressable) (buf.take count) position := by
  have nodup := (List.nodup_append.mp owning.nodup).1
  have middleData : middle.data = volume.view.data := by rw [middleView]
  have step : DataStep (middle.extents inodeNum) middle after := by
    rw [extended.extents]
    exact fails.step
  obtain ⟨_, _, extentsEq, _⟩ := step.fileStep (extended.step.mounted mounted owning)
    (by rw [extended.step.fs]; exact isInode) extended.step.owning extended.step.coherent
  rw [extentsEq, extended.extents, fails.bytes ordered nodup, middleData]

omit coherent in
/-- If the file reads as before, the bytes of the copy stood there already. -/
theorem alreadyWritten_of_bytes (ordered : Ordered (volume.view.extents inodeNum))
    {middle after : View} {cache : Std.TreeMap Nat (List Ext4Extent)}
    (middleView : middle = { volume.view with extentsCache := cache })
    (extended : Extended reserved inodeNum volume.view [] (volume.view.extents inodeNum) middle)
    {offset count : Nat} {buf : List UInt8}
    (fails : CopyFails (volume.view.extents inodeNum) offset buf count middle after)
    (bytes : ∀ position < (volume.view.inode inodeNum).size,
      byteAt after.data (after.extents inodeNum) position =
        byteAt volume.view.data (volume.view.extents inodeNum) position) :
    AlreadyWritten volume.view inodeNum offset buf := by
  have takeLength : (buf.take count).length = count := by
    rw [List.length_take]
    exact Nat.min_eq_left (Nat.le_of_lt fails.countLt)
  intro index indexLt reaches inFile
  have below := (fails.reaches index).mpr reaches
  have same := bytes _ inFile
  rw [byteAt_copyFails mounted isInode owning ordered middleView extended fails, reaches.mod_add,
    writtenByte, takeLength, if_pos (by omega), Nat.add_sub_cancel_left] at same
  rw [reaches.mod_add, ← same, List.getD_eq_getElem?_getD, List.getElem?_take_of_lt below,
    List.getD_eq_getElem?_getD]

omit coherent in
/-- A failed copy of bytes that stood there already leaves no trace. -/
theorem leavesNoTrace_of_alreadyWritten (ordered : Ordered (volume.view.extents inodeNum))
    {middle after : View} {cache : Std.TreeMap Nat (List Ext4Extent)}
    (middleView : middle = { volume.view with extentsCache := cache })
    (extended : Extended reserved inodeNum volume.view [] (volume.view.extents inodeNum) middle)
    {offset count : Nat} {buf : List UInt8}
    (fails : CopyFails (volume.view.extents inodeNum) offset buf count middle after)
    (already : AlreadyWritten volume.view inodeNum offset buf) :
    LeavesNoTrace inodeNum volume.view after := by
  have middleData : middle.data = volume.view.data := by rw [middleView]
  have step : DataStep (middle.extents inodeNum) middle after := by
    rw [extended.extents]
    exact fails.step
  obtain ⟨fileStep, sameInode, _, _⟩ := step.fileStep (extended.step.mounted mounted owning)
    (by rw [extended.step.fs]; exact isInode) extended.step.owning extended.step.coherent
  have takeLength : (buf.take count).length = count := by
    rw [List.length_take]
    exact Nat.min_eq_left (Nat.le_of_lt fails.countLt)
  constructor
  · exact (extended.step.trans fileStep).fs
  · rw [fails.step.state, middleView]
  · intro other isOther
    have middleInode : middle.inode other = volume.view.inode other := by
      rw [middleView]
      exact inode_withExtentsCache _ _ _
    by_cases same : other = inodeNum
    · rw [← middleInode, same, sameInode]
    · rw [fileStep.inodes other (by rw [extended.step.fs]; exact isOther) same, middleInode]
  · intro blockId isHeld notData
    rw [fails.step.data blockId notData, middleData]
  · intro position inFile
    rw [byteAt_copyFails mounted isInode owning ordered middleView extended fails, writtenByte,
      takeLength]
    split
    · next inside =>
        obtain ⟨index, rfl⟩ := Nat.exists_eq_add_of_le inside.1
        have below : index < count := by omega
        have reaches := (fails.reaches index).mp below
        have countLt := fails.countLt
        have same := already index (by omega) reaches (by rw [reaches.mod_add]; exact inFile)
        rw [reaches.mod_add] at same
        rw [same, Nat.add_sub_cancel_left, List.getD_eq_getElem?_getD,
          List.getElem?_take_of_lt below, List.getD_eq_getElem?_getD]
    · rfl
  · exact fileStep.coherent
  · exact (extended.step.trans fileStep).extentsCache

/-- A failed extension changes neither inodes nor bytes. -/
theorem leaks_same {after : View} {lost : List Nat} (leaks : Leaks volume.view after lost) :
    (∀ other, volume.view.fs.IsInode other → after.inode other = volume.view.inode other) ∧
      ∀ position, byteAt after.data (after.extents inodeNum) position =
        byteAt volume.view.data (volume.view.extents inodeNum) position := by
  obtain ⟨step, unchanged⟩ := leaks.fileStep mounted isInode owning coherent
  constructor
  · intro other isOther
    by_cases same : other = inodeNum
    · rw [same, unchanged.inode]
    · exact step.inodes other isOther same
  · intro position
    rw [unchanged.extents_eq]
    exact byteAt_congr (fun blockId isData => unchanged.data blockId
      (View.mem_owned.mpr (Or.inl isData))) position

/-- A failed extension leaves no trace exactly when no block was free. -/
theorem leavesNoTrace_leaks {after : View} {count : Nat} (positive : 0 < count)
    (leaks : Leaks volume.view after (handedOut volume count)) :
    LeavesNoTrace inodeNum volume.view after ↔ ¬ volume.view.HasFree 1 := by
  obtain ⟨new, middle, handed, fresh, _, _, exhausted⟩ := view_handOut mounted count
  rw [handedOut_eq handed] at leaks
  constructor
  · intro noTrace hasFree
    cases new with
    | nil => exact not_hasFree_of_full (by simp) (exhausted (by simpa using positive)) hasFree
    | cons pblock rest =>
        have isHeld : pblock ∈ after.held .block :=
          leaks.mem_held.mpr (Or.inr List.mem_cons_self)
        rw [noTrace.held] at isHeld
        exact fresh.free pblock List.mem_cons_self isHeld
  · intro full
    obtain ⟨step, _⟩ := leaks.fileStep mounted isInode owning coherent
    obtain ⟨inodes, bytes⟩ := leaks_same mounted isInode owning coherent leaks
    have nothing : new = [] := by
      cases new with
      | nil => rfl
      | cons pblock rest => exact absurd (HasFree.mono ⟨_, fresh, rfl⟩ (by simp)) full
    refine ⟨leaks.fs, ?_, inodes, fun blockId isHeld _ => leaks.data blockId isHeld,
      fun position _ => bytes position, step.coherent, step.extentsCache⟩
    ext blockId
    rw [leaks.mem_held, nothing]
    simp

/-- A write that needs no blocks fails exactly when its copy meets an unmapped
block. -/
theorem writeAt_mapped_outcome
    (kind : (volume.view.inode inodeNum).isFile = true ∨
      (volume.view.inode inodeNum).isSymlink = true) {offset : Nat} {buf : List UInt8}
    (nonempty : buf ≠ []) (notInline : ¬ ((volume.view.inode inodeNum).isSymlink = true ∧
      writeEnd offset buf ≤ iBlockSize))
    (nothing : missingBlocks volume.view inodeNum offset buf = []) :
    (Covered volume.view inodeNum offset buf ∧
      ∃ after, ((volume.view.fs.handle inodeNum).writeAt offset buf).run volume =
        .ok buf.length after) ∨
    (¬ Covered volume.view inodeNum offset buf ∧
      ∃ middle after cache count,
        ((volume.view.fs.handle inodeNum).writeAt offset buf).run volume =
          .err .unsupported after ∧
        middle = { volume.view with extentsCache := cache } ∧
        Extended reserved inodeNum volume.view [] (volume.view.extents inodeNum) middle ∧
        CopyFails (volume.view.extents inodeNum) offset buf count middle after.view) := by
  have stopSmall := writeStop_le offset buf
  obtain ⟨middle, ran, ⟨cache, middleView⟩, extended⟩ := ensureWriteBlocks_mapped mounted isInode
    owning coherent (writeStart_le offset) stopSmall nothing
  have middleFs : middle.view.fs = volume.view.fs := by rw [middleView]
  have allCovered : (∀ index < buf.length, mapLogicalBlock (volume.view.extents inodeNum)
      (bufferBlock offset index) ≠ none) ↔ Covered volume.view inodeNum offset buf := by
    apply covered_iff stopSmall
    intro l
    rw [iff_self_or]
    rintro ⟨lower, upper⟩
    have isMapped := List.filter_eq_nil_iff.mp nothing l
      (List.mem_range'_1.mpr ⟨lower, by omega⟩)
    exact (mapLogicalBlock_ne_none.mp fun isNone => isMapped (by rw [isNone]; rfl)).2
  rw [run_writeAt_blocks mounted isInode kind nonempty notInline, run_bind_ok ran, ← middleFs]
  rcases @copy_outcome reserved inodeNum middle (extended.step.mounted mounted owning)
      (volume.view.extents inodeNum)
      (fun blockId isData => owning.outside blockId (View.mem_owned.mpr (Or.inl isData)))
      (by rw [middleFs]; exact isInode) offset buf (volume.view.inode inodeNum).size
      (max (volume.view.inode inodeNum).size (writeEnd offset buf)) with
    ⟨allMapped, after, ended⟩ | ⟨⟨index, indexLt, isNone⟩, after, count, ended, fails⟩
  · exact Or.inl ⟨allCovered.mp allMapped, after, ended⟩
  · exact Or.inr ⟨fun covered => allCovered.mpr covered index indexLt isNone,
      middle.view, after, cache, count, ended, middleView, extended, fails⟩

/-- A write that needs blocks fails when they do not fit, or behind their
mapping when its copy meets an unmapped block. -/
theorem writeAt_missing_outcome
    (kind : (volume.view.inode inodeNum).isFile = true ∨
      (volume.view.inode inodeNum).isSymlink = true) {offset : Nat} {buf : List UInt8}
    (nonempty : buf ≠ []) (notInline : ¬ ((volume.view.inode inodeNum).isSymlink = true ∧
      writeEnd offset buf ≤ iBlockSize))
    (missing : missingBlocks volume.view inodeNum offset buf ≠ []) :
    (FitsMissing volume inodeNum offset buf ∧
      ((Covered volume.view inodeNum offset buf ∧
        ∃ after, ((volume.view.fs.handle inodeNum).writeAt offset buf).run volume =
          .ok buf.length after) ∨
      (¬ Covered volume.view inodeNum offset buf ∧
        ∃ new result middle after,
          ((volume.view.fs.handle inodeNum).writeAt offset buf).run volume =
            .err .unsupported after ∧
          new ≠ [] ∧ volume.view.Fresh new ∧
          Grows (volume.view.extents inodeNum) new result ∧
          Extended reserved inodeNum volume.view new result middle ∧
          DataStep result middle after.view))) ∨
    (¬ FitsMissing volume inodeNum offset buf ∧
      ∃ error after, ((volume.view.fs.handle inodeNum).writeAt offset buf).run volume =
          .err error after ∧
        Leaks volume.view after.view
          (handedOut volume (missingBlocks volume.view inodeNum offset buf).length)) := by
  have stopSmall := writeStop_le offset buf
  have positive := List.length_pos_of_ne_nil missing
  rw [run_writeAt_blocks mounted isInode kind nonempty notInline]
  have outcome : ExtensionOutcome reserved inodeNum volume
      (missingBlocks volume.view inodeNum offset buf).length
      (insertAll (volume.view.extents inodeNum) (missingBlocks volume.view inodeNum offset buf))
      (((volume.view.fs.handle inodeNum).ensureWriteBlocks (writeStart offset)
        (writeStop offset buf)).run volume) :=
    ensureWriteBlocks_outcome mounted isInode owning coherent (writeStart_le offset) stopSmall
      missing
  rcases outcome with
    ⟨room, new, middle, handedEq, ran, enough, grows, fresh, extended⟩ |
    ⟨noRoom, error, after, ran, leaks⟩
  · refine Or.inl ⟨room, ?_⟩
    have middleFs := extended.step.fs
    have startLe : writeStart offset ≤ writeStop offset buf := by
      by_contra above
      apply missing
      rw [missingBlocks, Nat.sub_eq_zero_of_le (by omega)]
      rfl
    have allCovered : (∀ index < buf.length, mapLogicalBlock (insertAll
        (volume.view.extents inodeNum) (missingBlocks volume.view inodeNum offset buf) new)
          (bufferBlock offset index) ≠ none) ↔ Covered volume.view inodeNum offset buf := by
      apply covered_iff stopSmall
      intro l
      have covers := covers_insertAll mounted (by omega) handedEq enough l
      rwa [Nat.add_sub_cancel' startLe] at covers
    have someNew : new ≠ [] := by
      rintro rfl
      exact absurd enough (by simpa using Nat.ne_of_lt positive)
    rw [run_bind_ok ran, ← middleFs]
    rcases @copy_outcome reserved inodeNum middle (extended.step.mounted mounted owning)
        (insertAll (volume.view.extents inodeNum)
          (missingBlocks volume.view inodeNum offset buf) new)
        (fun blockId isData => extended.step.owning.outside blockId
          (View.mem_owned.mpr (Or.inl (by rw [extended.extents]; exact isData))))
        (by rw [middleFs]; exact isInode) offset buf (volume.view.inode inodeNum).size
        (max (volume.view.inode inodeNum).size (writeEnd offset buf)) with
      ⟨allMapped, after, ended⟩ | ⟨⟨index, indexLt, isNone⟩, after, count, ended, fails⟩
    · exact Or.inl ⟨allCovered.mp allMapped, after, ended⟩
    · exact Or.inr ⟨fun covered => allCovered.mpr covered index indexLt isNone, new, _,
        middle.view, after, ended, someNew, fresh, grows, extended, fails.step⟩
  · exact Or.inr ⟨noRoom, error, after, run_bind_err ran, leaks⟩

/-- A failed write leaves the size. -/
theorem size_of_writeAt_err
    (kind : (volume.view.inode inodeNum).isFile = true ∨
      (volume.view.inode inodeNum).isSymlink = true) {offset : Nat} {buf : List UInt8}
    (nonempty : buf ≠ []) (notInline : ¬ ((volume.view.inode inodeNum).isSymlink = true ∧
      writeEnd offset buf ≤ iBlockSize)) {error : Ext4Error} {after : Volume}
    (failed : ((volume.view.fs.handle inodeNum).writeAt offset buf).run volume =
      .err error after) :
    FileStep reserved inodeNum volume.view after.view ∧
      (after.view.inode inodeNum).size = (volume.view.inode inodeNum).size := by
  by_cases nothing : missingBlocks volume.view inodeNum offset buf = []
  · rcases writeAt_mapped_outcome mounted isInode owning coherent kind nonempty notInline nothing
      with ⟨_, last, ran⟩ | ⟨_, middle, last, _, _, ran, _, extended, fails⟩
    · rw [ran] at failed
      cases failed
    · rw [ran] at failed
      cases failed
      obtain ⟨step, _, _, size⟩ := extended.copied mounted isInode owning fails.step
      exact ⟨step, size⟩
  · rcases writeAt_missing_outcome mounted isInode owning coherent kind nonempty notInline nothing
      with ⟨_, ⟨_, last, ran⟩ | ⟨_, _, _, _, last, ran, _, _, _, extended, copies⟩⟩ |
        ⟨_, _, last, ran, leaks⟩
    · rw [ran] at failed
      cases failed
    · rw [ran] at failed
      cases failed
      obtain ⟨step, _, _, size⟩ := extended.copied mounted isInode owning copies
      exact ⟨step, size⟩
    · rw [ran] at failed
      cases failed
      obtain ⟨step, unchanged⟩ := leaks.fileStep mounted isInode owning coherent
      exact ⟨step, by rw [unchanged.inode]⟩

/-- A write that needs no blocks. -/
theorem failsWithoutTrace_mapped (isFile : (volume.view.inode inodeNum).isFile = true)
    (ordered : Ordered (volume.view.extents inodeNum)) {offset : Nat} {buf : List UInt8}
    (nonempty : buf ≠ []) (nothing : missingBlocks volume.view inodeNum offset buf = []) :
    FailsWithoutTrace volume inodeNum offset buf ↔
      Covered volume.view inodeNum offset buf ∨
        AlreadyWritten volume.view inodeNum offset buf := by
  rcases writeAt_mapped_outcome mounted isInode owning coherent (Or.inl isFile) nonempty
      (notInline_of_isFile isFile offset buf) nothing with
    ⟨covered, after, ended⟩ |
    ⟨notCovered, middle, after, cache, count, ended, middleView, extended, fails⟩
  · refine iff_of_true ?_ (Or.inl covered)
    intro error other otherEnded
    rw [ended] at otherEnded
    cases otherEnded
  · rw [or_iff_right notCovered]
    constructor
    · intro clean
      exact alreadyWritten_of_bytes mounted isInode owning ordered middleView extended fails
        (clean _ after ended).bytes
    · intro already error other otherEnded
      rw [ended] at otherEnded
      cases otherEnded
      exact leavesNoTrace_of_alreadyWritten mounted isInode owning ordered middleView extended fails
        already

/-- A write that needs blocks. -/
theorem failsWithoutTrace_missing (isFile : (volume.view.inode inodeNum).isFile = true)
    {offset : Nat} {buf : List UInt8} (nonempty : buf ≠ [])
    (missing : missingBlocks volume.view inodeNum offset buf ≠ []) :
    FailsWithoutTrace volume inodeNum offset buf ↔
      (FitsMissing volume inodeNum offset buf ∧ Covered volume.view inodeNum offset buf) ∨
        ¬ volume.view.HasFree 1 := by
  have positive := List.length_pos_of_ne_nil missing
  rcases writeAt_missing_outcome mounted isInode owning coherent (Or.inl isFile) nonempty
      (notInline_of_isFile isFile offset buf) missing with
    ⟨room, ⟨covered, after, ended⟩ |
      ⟨notCovered, new, result, middle, after, ended, someNew, fresh, grows, extended, step⟩⟩ |
    ⟨noRoom, error, after, ended, leaks⟩
  · refine iff_of_true ?_ (Or.inl ⟨room, covered⟩)
    intro error other otherEnded
    rw [ended] at otherEnded
    cases otherEnded
  · have hasFree : volume.view.HasFree 1 := room.2.mono (by omega)
    refine iff_of_false ?_ fun either => either.elim (fun both => notCovered both.2)
      fun full => full hasFree
    intro clean
    exact not_leavesNoTrace_extended extended grows fresh someNew step (clean _ after ended)
  · rw [or_iff_right fun both => noRoom both.1,
      ← leavesNoTrace_leaks mounted isInode owning coherent positive leaks]
    constructor
    · exact fun clean => clean _ after ended
    · intro noTrace other otherAfter otherEnded
      rw [ended] at otherEnded
      cases otherEnded
      exact noTrace

end Writes

/-- A failed write leaves no trace exactly when it was empty, or it needs no
block and its copy cannot stop after a change, or it needs blocks and all of
them fit and its copy cannot stop, or no block at all is free. -/
theorem failsWithoutTrace_iff {reserved : Set Nat} {inodeNum : Nat} {volume : Volume}
    (mounted : volume.view.Mounted reserved) (isInode : volume.view.fs.IsInode inodeNum)
    (owning : volume.view.Owning reserved inodeNum)
    (coherent : volume.view.Coherent inodeNum)
    (isFile : (volume.view.inode inodeNum).isFile = true)
    (ordered : Ordered (volume.view.extents inodeNum)) (offset : Nat) (buf : List UInt8) :
    FailsWithoutTrace volume inodeNum offset buf ↔ FailsUntouched volume inodeNum offset buf := by
  by_cases empty : buf = []
  · refine ⟨fun _ => Or.inl empty, ?_⟩
    intro _ error after ran
    rw [empty, view_writeAt_empty mounted isInode (Or.inl isFile)] at ran
    cases ran
  by_cases nothing : missingBlocks volume.view inodeNum offset buf = []
  · rw [failsWithoutTrace_mapped mounted isInode owning coherent isFile ordered empty nothing,
      FailsUntouched]
    simp only [empty, nothing, false_or, true_and, ne_eq, not_true_eq_false, false_and, or_false]
  · rw [failsWithoutTrace_missing mounted isInode owning coherent isFile empty nothing,
      FailsUntouched]
    simp only [empty, nothing, false_or, false_and, ne_eq, not_false_eq_true, true_and]
    rfl

/-- An inode of the given mode with an empty extent tree. -/
def emptyInode (mode : Nat) : Ext4Inode :=
  Ext4Inode.resetExtentTree
    ((Ext4Inode.setField Bytes.zeroed .iMode mode).setIFlags ext4ExtentsFl)

/-- Blocks 0 to 5 hold the bitmaps and the inode table. -/
theorem layout_smallFileSystem : Layout smallFileSystem.shape {block | block ≤ 5} := by
  have onlyGroup {group : Nat} {desc : Ext4GroupDesc}
      (found : smallFileSystem.groupDescs[group]? = some desc) : group = 0 := by
    by_contra other
    have beyond : smallFileSystem.groupDescs[group]? = none :=
      List.getElem?_eq_none (Nat.pos_of_ne_zero other)
    exact absurd (found.symm.trans beyond) (by simp)
  constructor
  · decide
  · decide
  · decide
  · intro block isBitmap
    rcases isBitmap_smallFileSystem isBitmap with rfl | rfl <;> decide
  · rintro group block ⟨desc, found, lower, upper⟩
    have first := onlyGroup found
    subst first
    cases found
    have atLeast : 4 ≤ block := lower
    have atMost : block ≤ 5 := upper
    refine ⟨atMost, ?_⟩
    intro isBitmap
    rcases isBitmap_smallFileSystem isBitmap with rfl | rfl <;> omega
  · rintro first second block ⟨desc, found, _⟩ ⟨other, otherFound, _⟩
    rw [onlyGroup found, onlyGroup otherFound]

/-- The small file system with all blocks but the last in use and an empty file
in inode 12. -/
def crowdedVolume : Volume where
  fs := smallFileSystem
  disk := Function.update (Function.update (fun _ => .zeroed) 4
      ((Bytes.zeroed : Block).paste (11 * 256) (emptyInode sIfreg))) 2
    (((Bytes.zeroed : Block).overlay 0 7 fun _ => 0xFF).overlay 7 1 fun _ => 0x7F)
  extentsCache := .empty
  dirIndexCache := .empty

theorem used_crowdedVolume : ∀ block : Fin 64,
    crowdedVolume.used .block block = decide (block.val < 63) := by
  decide

theorem isItem_crowdedVolume {block : Nat} :
    crowdedVolume.view.IsItem .block block ↔ block < 64 := by
  rw [Volume.isItem_view]
  exact ⟨fun inside => inside.2, fun less => ⟨Nat.zero_le _, less⟩⟩

theorem held_crowdedVolume {block : Nat} :
    block ∈ crowdedVolume.view.held .block ↔ block < 63 := by
  rw [Volume.mem_held, ← Volume.isItem_view, isItem_crowdedVolume]
  constructor
  · rintro ⟨less, isUsed⟩
    rw [used_crowdedVolume ⟨block, less⟩] at isUsed
    exact of_decide_eq_true isUsed
  · intro less
    exact ⟨by omega, (used_crowdedVolume ⟨block, by omega⟩).trans (decide_eq_true less)⟩

theorem inode_crowdedVolume : crowdedVolume.view.inode 12 = emptyInode sIfreg := by
  have position : crowdedVolume.view.fs.handle 12 = ⟨12, 4, 11 * 256⟩ := by decide
  have block : crowdedVolume.view.data 4 =
      (Bytes.zeroed : Block).paste (11 * 256) (emptyInode sIfreg) := by
    rw [Volume.data_of_not_bitmap (by decide)]
    rfl
  rw [View.inode, position, block]
  exact Bytes.extract_paste _ _ (by decide)

theorem extents_crowdedVolume :
    crowdedVolume.view.extents 12 = [] ∧ crowdedVolume.view.owned 12 = [] := by
  have empty := emptyRoot_resetExtentTree
    ((Ext4Inode.setField Bytes.zeroed .iMode sIfreg).setIFlags ext4ExtentsFl)
  have noExtents : crowdedVolume.view.extents 12 = [] := by
    rw [View.extents, inode_crowdedVolume]
    split
    · exact (empty _).1
    · rfl
  refine ⟨noExtents, ?_⟩
  rw [View.owned, noExtents, View.tree, inode_crowdedVolume, treeBlocks, emptyInode, (empty _).2]
  rfl

theorem mounted_crowdedVolume : crowdedVolume.view.Mounted {block | block ≤ 5} where
  geometry := Volume.geometry_view.mpr geometry_smallFileSystem
  small := by decide
  layout := layout_smallFileSystem
  reserved := fun block (isReserved : block ≤ 5) => held_crowdedVolume.mpr (by omega)

theorem owning_crowdedVolume : crowdedVolume.view.Owning {block | block ≤ 5} 12 := by
  constructor <;> simp [extents_crowdedVolume.2]

theorem coherent_crowdedVolume (inodeNum : Nat) : crowdedVolume.view.Coherent inodeNum := by
  intro extents found
  simp [crowdedVolume, Volume.view] at found

theorem isInode_crowdedVolume : crowdedVolume.view.fs.IsInode 12 :=
  ⟨by decide, by decide⟩

theorem isFile_crowdedVolume : (crowdedVolume.view.inode 12).isFile = true := by
  rw [inode_crowdedVolume]
  decide

theorem failsWithoutTrace_iff_crowded :
    FailsWithoutTrace crowdedVolume 12 0 [1] ↔ FailsUntouched crowdedVolume 12 0 [1] :=
  failsWithoutTrace_iff mounted_crowdedVolume isInode_crowdedVolume owning_crowdedVolume
    (coherent_crowdedVolume 12) isFile_crowdedVolume
    (by rw [extents_crowdedVolume.1]; exact List.Pairwise.nil) 0 [1]

/-- With one free block a write of two blocks takes it and fails. -/
theorem not_failsWithoutTrace_crowded :
    ¬ FailsWithoutTrace crowdedVolume 12 0 (List.replicate 4097 1) := by
  have missing : missingBlocks crowdedVolume.view 12 0 (List.replicate 4097 1) = [0, 1] := by
    rw [missingBlocks, extents_crowdedVolume.1, writeStop, writeEnd, List.length_replicate]
    decide
  have nonempty : List.replicate 4097 (1 : UInt8) ≠ [] :=
    List.ne_nil_of_length_pos (by rw [List.length_replicate]; decide)
  rw [failsWithoutTrace_missing mounted_crowdedVolume isInode_crowdedVolume owning_crowdedVolume
    (coherent_crowdedVolume 12) isFile_crowdedVolume nonempty
    (by rw [missing]; exact List.cons_ne_nil _ _), FitsMissing, missing]
  rintro (⟨⟨_, room⟩, _⟩ | full)
  · refine @not_hasFree_of_full _ [63] 2 (by decide) ?_ (room.mono (Nat.le_add_right _ _))
    intro block isItem
    have less := isItem_crowdedVolume.mp isItem
    rw [held_crowdedVolume, List.mem_singleton]
    omega
  · apply full
    refine ⟨[63], ⟨List.nodup_singleton _, ?_, ?_⟩, rfl⟩
    · intro block isLast
      rw [List.mem_singleton.mp isLast]
      exact isItem_crowdedVolume.mpr (by decide)
    · intro block isLast
      rw [List.mem_singleton.mp isLast, held_crowdedVolume]
      decide

end Ext4

end OSWorkspace
