import OSWorkspace.EasyFsFiles

/-!
# The free data blocks of easy-fs

The data bitmap stands for a finite set of free blocks.  Allocating takes an
element of the set, giving back adds one and leaves zeros in it, and neither
touches a block outside the bitmap but the ones given back.
-/

namespace OSWorkspace

namespace EasyFs

open Exec

/-- A file system whose areas lie one behind the other on the device. -/
structure Layout extends EasyFileSystem where
  inodeBlocks : Nat
  totalBlocks : Nat
  superBlockEnd : 0 < inodeBitmap.startBlockId
  inodeBitmapEnd : inodeBitmap.startBlockId + inodeBitmap.blocks ≤ inodeAreaStartBlock
  inodeAreaEnd : inodeAreaStartBlock + inodeBlocks ≤ dataBitmap.startBlockId
  dataBitmapEnd : dataBitmap.startBlockId + dataBitmap.blocks ≤ dataAreaStartBlock
  dataAreaEnd : dataAreaStartBlock ≤ totalBlocks
  inWord : totalBlocks < 2 ^ 32

theorem madeFileSystem_inodeAreaEnd (totalBlocks inodeBitmapBlocks : UInt32) :
    (madeFileSystem totalBlocks inodeBitmapBlocks).inodeAreaStartBlock +
        inodeAreaBlocks inodeBitmapBlocks.toNat ≤
      (madeFileSystem totalBlocks inodeBitmapBlocks).dataBitmap.startBlockId := by
  simp only [madeFileSystem]
  omega

theorem madeFileSystem_dataAreaEnd {totalBlocks inodeBitmapBlocks : UInt32}
    (fit : InodesFit totalBlocks inodeBitmapBlocks) :
    (madeFileSystem totalBlocks inodeBitmapBlocks).dataAreaStartBlock ≤ totalBlocks.toNat := by
  have dataEnd := dataAreaStartBlock_add fit
  omega

/-- The layout of a made file system. -/
def madeLayout (totalBlocks inodeBitmapBlocks : UInt32)
    (fit : InodesFit totalBlocks inodeBitmapBlocks) : Layout where
  toEasyFileSystem := madeFileSystem totalBlocks inodeBitmapBlocks
  inodeBlocks := inodeAreaBlocks inodeBitmapBlocks.toNat
  totalBlocks := totalBlocks.toNat
  superBlockEnd := Nat.one_pos
  inodeBitmapEnd := Nat.le_refl _
  inodeAreaEnd := madeFileSystem_inodeAreaEnd totalBlocks inodeBitmapBlocks
  dataBitmapEnd := Nat.le_refl _
  dataAreaEnd := madeFileSystem_dataAreaEnd fit
  inWord := totalBlocks.toNat_lt

namespace Layout

variable (layout : Layout)

/-- The data blocks that have a bit. -/
def dataBlocks : Finset Nat :=
  Finset.Ico layout.dataAreaStartBlock
    (min layout.totalBlocks (layout.dataAreaStartBlock + layout.dataBitmap.maximum))

/-- The data blocks that are not in use. -/
def freeBlocks (disk : Nat → Block) : Finset Nat :=
  layout.dataBlocks.filter fun blockId =>
    layout.dataBitmap.bit disk (blockId - layout.dataAreaStartBlock) = false

/-- The blocks that hold the data bitmap. -/
def bitmapBlocks : Finset Nat :=
  Finset.Ico layout.dataBitmap.startBlockId
    (layout.dataBitmap.startBlockId + layout.dataBitmap.blocks)

variable {layout} {disk later : Nat → Block} {blockId : Nat}

theorem mem_dataBlocks : blockId ∈ layout.dataBlocks ↔ layout.dataAreaStartBlock ≤ blockId ∧
    blockId < layout.totalBlocks ∧
      blockId < layout.dataAreaStartBlock + layout.dataBitmap.maximum := by
  rw [dataBlocks, Finset.mem_Ico, lt_min_iff]

theorem mem_freeBlocks : blockId ∈ layout.freeBlocks disk ↔ blockId ∈ layout.dataBlocks ∧
    layout.dataBitmap.bit disk (blockId - layout.dataAreaStartBlock) = false := by
  rw [freeBlocks, Finset.mem_filter]

theorem mem_bitmapBlocks : blockId ∈ layout.bitmapBlocks ↔
    layout.dataBitmap.startBlockId ≤ blockId ∧
      blockId < layout.dataBitmap.startBlockId + layout.dataBitmap.blocks :=
  Finset.mem_Ico

theorem not_mem_bitmapBlocks (isData : blockId ∈ layout.dataBlocks) :
    blockId ∉ layout.bitmapBlocks := by
  have bitmapEnd := layout.dataBitmapEnd
  rw [mem_dataBlocks] at isData
  rw [mem_bitmapBlocks]
  omega

/-- The index of a data block is a bit of the bitmap. -/
theorem index_lt (isData : blockId ∈ layout.dataBlocks) :
    blockId - layout.dataAreaStartBlock < layout.dataBitmap.maximum := by
  rw [mem_dataBlocks] at isData
  omega

theorem inWord_of_mem (isData : blockId ∈ layout.dataBlocks) : blockId < 2 ^ 32 := by
  have inWord := layout.inWord
  rw [mem_dataBlocks] at isData
  omega

theorem bit_block {index : Nat} (inside : index < layout.dataBitmap.maximum) :
    index / blockBits + layout.dataBitmap.startBlockId ∈ layout.bitmapBlocks := by
  have inBlocks : index / blockBits < layout.dataBitmap.blocks :=
    Nat.div_lt_of_lt_mul (by rwa [Nat.mul_comm])
  rw [mem_bitmapBlocks]
  generalize index / blockBits = position at inBlocks
  omega

/-- Only the bitmap decides what is free. -/
theorem freeBlocks_congr (same : ∀ blockId ∈ layout.bitmapBlocks, later blockId = disk blockId) :
    layout.freeBlocks later = layout.freeBlocks disk := by
  refine Finset.filter_congr fun blockId isData => ?_
  rw [Bitmap.bit, same _ (bit_block (index_lt isData)), Bitmap.bit]

theorem freeBlocks_subset : layout.freeBlocks disk ⊆ layout.dataBlocks :=
  Finset.filter_subset _ _

theorem freeBlocks_setBit (volume : Volume) (isData : blockId ∈ layout.dataBlocks) :
    layout.freeBlocks (layout.dataBitmap.setBit volume (blockId - layout.dataAreaStartBlock)).disk =
      (layout.freeBlocks volume.disk).erase blockId := by
  ext other
  rw [mem_freeBlocks, Finset.mem_erase, mem_freeBlocks, Bitmap.bit_setBit]
  by_cases otherData : other ∈ layout.dataBlocks
  · have start := (mem_dataBlocks.mp isData).1
    have otherStart := (mem_dataBlocks.mp otherData).1
    by_cases same : other = blockId
    · simp [same]
    · rw [if_neg (by omega)]
      simp [same, otherData]
  · simp [otherData]

theorem freeBlocks_clearBit {volume : Volume} (isData : blockId ∈ layout.dataBlocks)
    (isUsed : blockId ∉ layout.freeBlocks volume.disk) :
    layout.freeBlocks
        (layout.dataBitmap.clearBit volume (blockId - layout.dataAreaStartBlock)).disk =
      insert blockId (layout.freeBlocks volume.disk) := by
  have isSet : layout.dataBitmap.bit volume.disk (blockId - layout.dataAreaStartBlock) = true := by
    simpa [mem_freeBlocks, isData] using isUsed
  ext other
  rw [mem_freeBlocks, Finset.mem_insert, mem_freeBlocks, Bitmap.bit_clearBit isSet]
  by_cases otherData : other ∈ layout.dataBlocks
  · have start := (mem_dataBlocks.mp isData).1
    have otherStart := (mem_dataBlocks.mp otherData).1
    by_cases same : other = blockId
    · simp [same, isData]
    · rw [if_neg (by omega)]
      simp [same, otherData]
  · have differs : other ≠ blockId := fun same => otherData (same ▸ isData)
    simp [otherData, differs]

variable (layout) in
/-- Some free blocks are taken, and nothing but the bitmap changes. -/
structure Takes (disk later : Nat → Block) (taken : List Nat) : Prop where
  nodup : taken.Nodup
  free : ∀ blockId ∈ taken, blockId ∈ layout.freeBlocks disk
  remains : layout.freeBlocks later = layout.freeBlocks disk \ taken.toFinset
  frame : ∀ blockId ∉ layout.bitmapBlocks, later blockId = disk blockId

theorem Takes.nil (disk : Nat → Block) : layout.Takes disk disk [] :=
  ⟨List.nodup_nil, by simp, by simp, fun _ _ => rfl⟩

theorem Takes.cons {last : Nat → Block} {taken : List Nat}
    (first : layout.Takes disk later [blockId]) (others : layout.Takes later last taken) :
    layout.Takes disk last (blockId :: taken) := by
  have notLater : blockId ∉ layout.freeBlocks later := by
    simp [first.remains]
  refine ⟨List.nodup_cons.mpr ⟨fun isTaken => notLater (others.free _ isTaken), others.nodup⟩, ?_,
    ?_, fun other outside => (others.frame other outside).trans (first.frame other outside)⟩
  · intro other otherMem
    rcases List.mem_cons.mp otherMem with rfl | isTaken
    · exact first.free _ List.mem_cons_self
    · have isFree := others.free other isTaken
      rw [first.remains] at isFree
      exact (Finset.mem_sdiff.mp isFree).1
  · rw [others.remains, first.remains]
    ext other
    simp only [Finset.mem_sdiff, List.mem_toFinset, List.mem_cons, List.not_mem_nil, or_false,
      not_or, and_assoc]

theorem unlocked_of_not_mem {volume : Volume}
    (unlocked : ∀ blockId ∈ layout.bitmapBlocks, blockId ∉ volume.locked) :
    layout.dataBitmap.Unlocked volume := fun index indexLt =>
  unlocked _ (mem_bitmapBlocks.mpr ⟨by omega, by omega⟩)

/-- A free block is found as long as there is one. -/
theorem run_allocData (build : Build) {volume : Volume}
    (unlocked : ∀ blockId ∈ layout.bitmapBlocks, blockId ∉ volume.locked)
    (some : (layout.freeBlocks volume.disk).Nonempty) :
    ∃ blockId later, (layout.allocData build).run volume = .ok blockId ⟨later, volume.locked⟩ ∧
      layout.Takes volume.disk later [blockId] := by
  obtain ⟨other, otherFree⟩ := some
  obtain ⟨otherData, otherClear⟩ := mem_freeBlocks.mp otherFree
  have otherInside := mem_dataBlocks.mp otherData
  have inWord := layout.inWord
  rcases Bitmap.run_alloc (unlocked_of_not_mem unlocked) with
    ⟨found, foundLt, isClear, below, taken⟩ | ⟨full, _⟩
  · have lowest : found ≤ other - layout.dataAreaStartBlock := by
      by_contra above
      have isSet := below _ (Nat.not_le.mp above)
      simp [otherClear] at isSet
    have isData : found + layout.dataAreaStartBlock ∈ layout.dataBlocks :=
      mem_dataBlocks.mpr (by omega)
    have index : found + layout.dataAreaStartBlock - layout.dataAreaStartBlock = found :=
      Nat.add_sub_cancel _ _
    have isFree : found + layout.dataAreaStartBlock ∈ layout.freeBlocks volume.disk :=
      mem_freeBlocks.mpr ⟨isData, by rw [index, isClear]⟩
    have remains := freeBlocks_setBit volume isData
    rw [index] at remains
    refine ⟨found + layout.dataAreaStartBlock, (layout.dataBitmap.setBit volume found).disk, ?_,
      ⟨by simp, by simpa using isFree, ?_, ?_⟩⟩
    · rw [EasyFileSystem.allocData, run_bind_ok taken, run_bind_ok (run_expect_some _ _),
        Nat.mod_eq_of_lt (by omega), build.run_add32 _ (by omega)]
      rfl
    · rw [remains]
      ext block
      simp [and_comm]
    · intro block outside
      refine Function.update_of_ne (fun same => outside ?_) _ _
      rw [same]
      exact bit_block foundLt
  · simp [full _ (index_lt otherData)] at otherClear

theorem run_allocBlocks (build : Build) {volume : Volume} {count : Nat}
    (unlocked : ∀ blockId ∈ layout.bitmapBlocks, blockId ∉ volume.locked)
    (enough : count ≤ (layout.freeBlocks volume.disk).card) :
    ∃ taken later, (Inode.allocBlocks layout.toEasyFileSystem build count).run volume =
        .ok taken ⟨later, volume.locked⟩ ∧
      taken.length = count ∧ layout.Takes volume.disk later taken := by
  induction count generalizing volume with
  | zero => exact ⟨[], volume.disk, rfl, rfl, Takes.nil volume.disk⟩
  | succ count ih =>
      obtain ⟨blockId, middle, ranFirst, first⟩ :=
        run_allocData build unlocked (Finset.card_pos.mp (by omega))
      have fewer : (layout.freeBlocks middle).card = (layout.freeBlocks volume.disk).card - 1 := by
        rw [first.remains, Finset.card_sdiff_of_subset (by simpa using first.free)]
        simp
      obtain ⟨taken, later, ran, length, others⟩ :=
        @ih ⟨middle, volume.locked⟩ unlocked (by simp only; omega)
      refine ⟨blockId :: taken, later, ?_, by simp [length], first.cons others⟩
      rw [Inode.allocBlocks, run_bind_ok ranFirst, run_bind_ok ran, run_pure]

variable (layout) in
/-- Some blocks become free and are zeroed. -/
structure Frees (disk later : Nat → Block) (freed : List Nat) : Prop where
  remains : layout.freeBlocks later = layout.freeBlocks disk ∪ freed.toFinset
  zeroed : ∀ blockId ∈ freed, later blockId = .zeroed
  frame : ∀ blockId ∉ layout.bitmapBlocks, blockId ∉ freed → later blockId = disk blockId

theorem run_deallocData (build : Build) {volume : Volume}
    (unlocked : ∀ blockId ∈ layout.bitmapBlocks, blockId ∉ volume.locked)
    (isData : blockId ∈ layout.dataBlocks) (isUsed : blockId ∉ layout.freeBlocks volume.disk)
    (free : blockId ∉ volume.locked) :
    ∃ later, (layout.deallocData build blockId).run volume = .ok () ⟨later, volume.locked⟩ ∧
      layout.Frees volume.disk later [blockId] := by
  have inWord := layout.inWord
  have inside := mem_dataBlocks.mp isData
  have notBitmap := not_mem_bitmapBlocks isData
  have sameFree : layout.freeBlocks (volume.putBlock blockId .zeroed).disk =
      layout.freeBlocks volume.disk := by
    refine freeBlocks_congr fun other isBitmap => ?_
    have apart : other ≠ blockId := by
      rintro rfl
      exact notBitmap isBitmap
    exact Function.update_of_ne apart _ _
  rw [← sameFree] at isUsed
  have isSet : layout.dataBitmap.bit (volume.putBlock blockId .zeroed).disk
      (blockId - layout.dataAreaStartBlock) = true := by
    simpa [mem_freeBlocks, isData] using isUsed
  have unlockedBitmap : layout.dataBitmap.Unlocked (volume.putBlock blockId .zeroed) :=
    unlocked_of_not_mem unlocked
  refine ⟨(layout.dataBitmap.clearBit (volume.putBlock blockId .zeroed)
    (blockId - layout.dataAreaStartBlock)).disk, ?_, ?_, ?_, ?_⟩
  · rw [EasyFileSystem.deallocData, run_bind_ok (run_modifyBlock free _),
      run_bind_ok (build.run_sub32 _ inside.1 (by omega)),
      Bitmap.run_dealloc unlockedBitmap (index_lt isData) isSet]
    rfl
  · rw [freeBlocks_clearBit isData isUsed, sameFree]
    ext other
    simp
  · intro other otherMem
    rw [List.mem_singleton.mp otherMem]
    have apart : blockId ≠ (blockId - layout.dataAreaStartBlock) / blockBits +
        layout.dataBitmap.startBlockId :=
      fun same => notBitmap (same ▸ bit_block (index_lt isData))
    rw [Bitmap.clearBit, Volume.putBlock_disk, Function.update_of_ne apart, Volume.putBlock_disk,
      Function.update_self]
  · intro other outside notFreed
    have apart : other ≠ (blockId - layout.dataAreaStartBlock) / blockBits +
        layout.dataBitmap.startBlockId :=
      fun same => outside (same ▸ bit_block (index_lt isData))
    rw [Bitmap.clearBit, Volume.putBlock_disk, Function.update_of_ne apart, Volume.putBlock_disk,
      Function.update_of_ne (by simpa using notFreed)]

theorem run_deallocBlocks (build : Build) {volume : Volume} {freed : List Nat}
    (unlocked : ∀ blockId ∈ layout.bitmapBlocks, blockId ∉ volume.locked)
    (nodup : freed.Nodup) (isData : ∀ blockId ∈ freed, blockId ∈ layout.dataBlocks)
    (isUsed : ∀ blockId ∈ freed, blockId ∉ layout.freeBlocks volume.disk)
    (free : ∀ blockId ∈ freed, blockId ∉ volume.locked) :
    ∃ later, (Inode.deallocBlocks layout.toEasyFileSystem build freed).run volume =
        .ok () ⟨later, volume.locked⟩ ∧ layout.Frees volume.disk later freed := by
  induction freed generalizing volume with
  | nil => exact ⟨volume.disk, rfl, by simp, by simp, fun _ _ _ => rfl⟩
  | cons blockId freed ih =>
      obtain ⟨notLater, nodup⟩ := List.nodup_cons.mp nodup
      obtain ⟨middle, ranFirst, first⟩ := run_deallocData build unlocked
        (isData _ List.mem_cons_self) (isUsed _ List.mem_cons_self) (free _ List.mem_cons_self)
      have stillUsed : ∀ other ∈ freed, other ∉ layout.freeBlocks middle := by
        intro other isFreed
        have differs : other ≠ blockId := fun same => notLater (same ▸ isFreed)
        rw [first.remains]
        simpa [differs] using isUsed other (List.mem_cons_of_mem _ isFreed)
      obtain ⟨later, ran, others⟩ := @ih ⟨middle, volume.locked⟩ unlocked nodup
        (fun other isFreed => isData other (List.mem_cons_of_mem _ isFreed)) stillUsed
        (fun other isFreed => free other (List.mem_cons_of_mem _ isFreed))
      refine ⟨later, ?_, ?_, ?_, ?_⟩
      · rw [Inode.deallocBlocks, run_bind_ok ranFirst]
        exact ran
      · rw [others.remains, first.remains]
        ext other
        simp only [Finset.mem_union, List.mem_toFinset, List.mem_cons, List.not_mem_nil, or_false,
          or_assoc]
      · intro other otherMem
        rcases List.mem_cons.mp otherMem with rfl | isFreed
        · rw [others.frame _ (not_mem_bitmapBlocks (isData _ List.mem_cons_self)) notLater]
          exact first.zeroed _ List.mem_cons_self
        · exact others.zeroed other isFreed
      · intro other outside notFreed
        obtain ⟨differs, notLater⟩ := not_or.mp (fun isMem => notFreed (List.mem_cons.mpr isMem))
        exact (others.frame other outside notLater).trans
          (first.frame other outside (by simpa using differs))

end Layout

end EasyFs

end OSWorkspace
