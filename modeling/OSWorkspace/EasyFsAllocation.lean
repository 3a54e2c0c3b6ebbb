import OSWorkspace.EasyFsVolumes

/-!
# The allocators of easy-fs

Both allocators take the lowest clear bit of their bitmap.  A bitmap has whole
blocks of bits, while the area behind it ends where the device ends or where
the truncated size of the inode area says, so a bitmap may have bits that stand
for nothing.  As long as every allocation finds a clear bit with a block or a
slot behind it, all identifiers handed out exist and are not handed out twice.
-/

namespace OSWorkspace

namespace EasyFs

open Exec

@[simp]
theorem Volume.putBlock_disk (volume : Volume) (blockId : Nat) (block : Block) :
    (volume.putBlock blockId block).disk = Function.update volume.disk blockId block :=
  rfl

theorem run_readBlock {volume : Volume} {blockId : Nat} (unlocked : blockId ∉ volume.locked) :
    (readBlock blockId).run volume = .ok (volume.disk blockId) volume := by
  rw [readBlock, run_bind_ok (run_get volume), run_bind_ok (run_check unlocked _), run_pure]

theorem run_modifyBlock {volume : Volume} {blockId : Nat} (unlocked : blockId ∉ volume.locked)
    (change : Block → Block) :
    (modifyBlock blockId change).run volume =
      .ok () (volume.putBlock blockId (change (volume.disk blockId))) := by
  rw [modifyBlock, run_bind_ok (run_readBlock unlocked), run_modify]

namespace Build

variable (build : Build) {first second : Nat} (volume : Volume)

theorem run_add32 (inWord : first + second < 2 ^ 32) :
    (build.add32 first second).run volume = .ok (first + second) volume := by
  rw [add32, run_bind_ok (run_check (fun _ => inWord) volume), Nat.mod_eq_of_lt inWord, run_pure]

theorem run_sub32 (inWord : second ≤ first) (small : first < 2 ^ 32) :
    (build.sub32 first second).run volume = .ok (first - second) volume := by
  have difference : (first + 2 ^ 32 - second) % 2 ^ 32 = first - second := by omega
  rw [sub32, run_bind_ok (run_check (fun _ => inWord) volume), difference, run_pure]

theorem run_add32_of (inWord : build.overflowChecks = true → first + second < 2 ^ 32) :
    (build.add32 first second).run volume = .ok ((first + second) % 2 ^ 32) volume := by
  rw [add32, run_bind_ok (run_check inWord volume), run_pure]

theorem run_add32_panic (overflow : ¬ (build.overflowChecks = true → first + second < 2 ^ 32)) :
    (build.add32 first second).run volume = .panic := by
  rw [add32, run_bind_panic (run_check_panic overflow volume)]

end Build

namespace Bitmap

variable (bitmap : Bitmap)

/-- A bit of a bitmap. -/
def bit (disk : Nat → Block) (index : Nat) : Bool :=
  (disk (index / blockBits + bitmap.startBlockId)).wordBit (index % blockBits)

/-- Set a bit. -/
def setBit (volume : Volume) (index : Nat) : Volume :=
  volume.putBlock (index / blockBits + bitmap.startBlockId)
    ((volume.disk (index / blockBits + bitmap.startBlockId)).orWordBit (index % blockBits))

/-- Clear a bit. -/
def clearBit (volume : Volume) (index : Nat) : Volume :=
  volume.putBlock (index / blockBits + bitmap.startBlockId)
    ((volume.disk (index / blockBits + bitmap.startBlockId)).subWordBit (index % blockBits))

/-- No block of the bitmap is locked. -/
def Unlocked (volume : Volume) : Prop :=
  ∀ blockId < bitmap.blocks, blockId + bitmap.startBlockId ∉ volume.locked

variable {bitmap}

theorem word_inside (index : Nat) : 8 * (index % blockBits / 64) + 8 ≤ blockSz := by
  simp only [blockBits, blockSz]
  omega

theorem bit_putBlock {disk : Nat → Block} {index : Nat} {block : Block} {value : Bool}
    (bits : ∀ other, block.wordBit other = if other = index % blockBits then value
      else (disk (index / blockBits + bitmap.startBlockId)).wordBit other) (other : Nat) :
    bitmap.bit (Function.update disk (index / blockBits + bitmap.startBlockId) block) other =
      if other = index then value else bitmap.bit disk other := by
  by_cases sameBlock : other / blockBits = index / blockBits
  · rw [bit, sameBlock, Function.update_self, bits]
    by_cases same : other = index
    · rw [if_pos (by rw [same]), if_pos same]
    · have apart : ¬ other % blockBits = index % blockBits := by
        simp only [blockBits, blockSz] at sameBlock ⊢
        omega
      rw [if_neg apart, if_neg same, bit, sameBlock]
  · rw [bit, Function.update_of_ne (by omega), if_neg (by rintro rfl; exact sameBlock rfl), bit]

theorem bit_setBit (volume : Volume) (index other : Nat) :
    bitmap.bit (bitmap.setBit volume index).disk other =
      if other = index then true else bitmap.bit volume.disk other :=
  bit_putBlock (Bytes.wordBit_orWordBit _ (word_inside index)) other

theorem bit_clearBit {volume : Volume} {index : Nat}
    (isSet : bitmap.bit volume.disk index = true) (other : Nat) :
    bitmap.bit (bitmap.clearBit volume index).disk other =
      if other = index then false else bitmap.bit volume.disk other :=
  bit_putBlock (Bytes.wordBit_subWordBit _ (word_inside index) isSet) other

/-- A block outside the bitmap does not hold its bits. -/
theorem bit_update_outside {disk : Nat → Block} {blockId : Nat}
    (outside : blockId < bitmap.startBlockId ∨ bitmap.startBlockId + bitmap.blocks ≤ blockId)
    (block : Block) {index : Nat} (inside : index < bitmap.maximum) :
    bitmap.bit (Function.update disk blockId block) index = bitmap.bit disk index := by
  have inBlocks : index / blockBits < bitmap.blocks :=
    Nat.div_lt_of_lt_mul (by rwa [Nat.mul_comm])
  have apart : index / blockBits + bitmap.startBlockId ≠ blockId := by
    generalize index / blockBits = position at inBlocks
    omega
  rw [bit, Function.update_of_ne apart, bit]

/-- The loop of the search, after the blocks before `first` were found full. -/
theorem run_allocIn {volume : Volume} (unlocked : bitmap.Unlocked volume) (first count : Nat)
    (within : first + count ≤ bitmap.blocks)
    (full : ∀ index < first * blockBits, bitmap.bit volume.disk index = true) :
    (∃ found < (first + count) * blockBits, bitmap.bit volume.disk found = false ∧
      (∀ index < found, bitmap.bit volume.disk index = true) ∧
      (bitmap.allocIn (List.range' first count)).run volume =
        .ok (some found) (bitmap.setBit volume found)) ∨
    ((∀ index < (first + count) * blockBits, bitmap.bit volume.disk index = true) ∧
      (bitmap.allocIn (List.range' first count)).run volume = .ok none volume) := by
  induction count generalizing first with
  | zero => exact Or.inr ⟨full, rfl⟩
  | succ count ih =>
      have free := unlocked first (by omega)
      have inBlock : ∀ position < blockBits,
          bitmap.bit volume.disk (first * blockBits + position) =
            (volume.disk (first + bitmap.startBlockId)).wordBit position := by
        intro position positionLt
        have quotient : (first * blockBits + position) / blockBits = first := by
          simp only [blockBits, blockSz] at positionLt ⊢
          omega
        have remainder : (first * blockBits + position) % blockBits = position := by
          simp only [blockBits, blockSz] at positionLt ⊢
          omega
        rw [bit, quotient, remainder]
      rw [List.range'_succ, allocIn, run_bind_ok (run_readBlock free)]
      cases search : (volume.disk (first + bitmap.startBlockId)).firstClearBit 64 with
      | some position =>
          obtain ⟨positionLt, clear, below⟩ := Bytes.firstClearBit_some search
          have small : position < blockBits := positionLt
          have quotient : (first * blockBits + position) / blockBits = first := by
            simp only [blockBits, blockSz] at small ⊢
            omega
          have remainder : (first * blockBits + position) % blockBits = position := by
            simp only [blockBits, blockSz] at small ⊢
            omega
          refine Or.inl ⟨first * blockBits + position, ?_, ?_, ?_, ?_⟩
          · simp only [blockBits, blockSz] at small ⊢
            omega
          · rw [inBlock _ small, clear]
          · intro index indexLt
            by_cases before : index < first * blockBits
            · exact full index before
            · obtain ⟨offset, rfl⟩ := Nat.exists_eq_add_of_le (Nat.not_lt.mp before)
              rw [inBlock offset (by omega)]
              exact below offset (by omega)
          · simp only
            rw [run_bind_ok (run_modifyBlock free _), run_pure, setBit, quotient, remainder]
      | none =>
          have fullNext : ∀ index < (first + 1) * blockBits,
              bitmap.bit volume.disk index = true := by
            intro index indexLt
            by_cases before : index < first * blockBits
            · exact full index before
            · obtain ⟨offset, rfl⟩ := Nat.exists_eq_add_of_le (Nat.not_lt.mp before)
              have offsetLt : offset < blockBits := by
                simp only [blockBits, blockSz] at indexLt ⊢
                omega
              rw [inBlock offset offsetLt]
              exact Bytes.firstClearBit_none search offsetLt
          have rest := ih (first + 1) (by omega) fullNext
          rw [show first + 1 + count = first + (count + 1) by omega] at rest
          exact rest

/-- The allocator takes the lowest clear bit. -/
theorem run_alloc {volume : Volume} (unlocked : bitmap.Unlocked volume) :
    (∃ found < bitmap.maximum, bitmap.bit volume.disk found = false ∧
      (∀ index < found, bitmap.bit volume.disk index = true) ∧
      bitmap.alloc.run volume = .ok (some found) (bitmap.setBit volume found)) ∨
    ((∀ index < bitmap.maximum, bitmap.bit volume.disk index = true) ∧
      bitmap.alloc.run volume = .ok none volume) := by
  have searched := run_allocIn unlocked 0 bitmap.blocks (by omega)
    (fun index indexLt => absurd indexLt (by omega))
  rwa [Nat.zero_add, ← List.range_eq_range'] at searched

theorem unlocked_of_nil {volume : Volume} (unlocked : volume.locked = []) :
    bitmap.Unlocked volume := by
  simp [Unlocked, unlocked]

theorem run_alloc_lowest {volume : Volume} (unlocked : bitmap.Unlocked volume) {index : Nat}
    (inside : index < bitmap.maximum) (clear : bitmap.bit volume.disk index = false)
    (below : ∀ lower < index, bitmap.bit volume.disk lower = true) :
    bitmap.alloc.run volume = .ok (some index) (bitmap.setBit volume index) := by
  rcases run_alloc unlocked with ⟨found, foundLt, isClear, lowerSet, taken⟩ | ⟨full, exhausted⟩
  · have same : found = index := by
      rcases Nat.lt_trichotomy found index with less | same | more
      · simp [below found less] at isClear
      · exact same
      · simp [lowerSet index more] at clear
    rw [← same, taken]
  · simp [full index inside] at clear

theorem run_dealloc {volume : Volume} (unlocked : bitmap.Unlocked volume) {index : Nat}
    (inside : index < bitmap.maximum) (isSet : bitmap.bit volume.disk index = true) :
    (bitmap.dealloc index).run volume = .ok () (bitmap.clearBit volume index) := by
  have free := unlocked (index / blockBits) (Nat.div_lt_of_lt_mul (by rwa [Nat.mul_comm]))
  have wordSet : (volume.disk (index / blockBits + bitmap.startBlockId)).wordBit
      (index % blockBits) = true := isSet
  rw [dealloc, run_bind_ok (run_readBlock free), run_bind_ok (run_check wordSet _),
    run_modifyBlock free, clearBit]

end Bitmap

/-- Creation does not underflow: superblock, inode bitmap and inode area fit. -/
def InodesFit (totalBlocks inodeBitmapBlocks : UInt32) : Prop :=
  1 + (inodeBitmapBlocks.toNat + inodeAreaBlocks inodeBitmapBlocks.toNat) ≤ totalBlocks.toNat

/-- The blocks left for the data bitmap and the data area. -/
def dataTotalBlocks (totalBlocks inodeBitmapBlocks : UInt32) : Nat :=
  totalBlocks.toNat - 1 -
    (inodeBitmapBlocks.toNat + inodeAreaBlocks inodeBitmapBlocks.toNat)

/-- The blocks of the data bitmap. -/
def dataBitmapBlocks (totalBlocks inodeBitmapBlocks : UInt32) : Nat :=
  (dataTotalBlocks totalBlocks inodeBitmapBlocks + 4096) % 2 ^ 32 / 4097

/-- The file system that creation returns. -/
def madeFileSystem (totalBlocks inodeBitmapBlocks : UInt32) : EasyFileSystem where
  inodeBitmap := ⟨1, inodeBitmapBlocks.toNat⟩
  dataBitmap := ⟨1 + (inodeBitmapBlocks.toNat + inodeAreaBlocks inodeBitmapBlocks.toNat),
    dataBitmapBlocks totalBlocks inodeBitmapBlocks⟩
  inodeAreaStartBlock := 1 + inodeBitmapBlocks.toNat
  dataAreaStartBlock := 1 + (inodeBitmapBlocks.toNat +
    inodeAreaBlocks inodeBitmapBlocks.toNat) + dataBitmapBlocks totalBlocks inodeBitmapBlocks

/-- The superblock that creation writes. -/
def madeSuperBlock (totalBlocks inodeBitmapBlocks : UInt32) : SuperBlock where
  magic := efsMagic
  totalBlocks := totalBlocks
  inodeBitmapBlocks := inodeBitmapBlocks
  inodeAreaBlocks := UInt32.ofNat (inodeAreaBlocks inodeBitmapBlocks.toNat)
  dataBitmapBlocks := UInt32.ofNat (dataBitmapBlocks totalBlocks inodeBitmapBlocks)
  dataAreaBlocks := UInt32.ofNat (dataTotalBlocks totalBlocks inodeBitmapBlocks -
    dataBitmapBlocks totalBlocks inodeBitmapBlocks)

/-- The blocks of a list filled with zeros. -/
def Volume.cleared (volume : Volume) (blockIds : List Nat) : Volume :=
  { volume with
    disk := fun blockId => if blockId ∈ blockIds then .zeroed else volume.disk blockId }

/-- The device after all blocks were cleared and the superblock was written. -/
def clearedVolume (start : Volume) (totalBlocks inodeBitmapBlocks : UInt32) : Volume :=
  let cleared := start.cleared (List.range totalBlocks.toNat)
  cleared.putBlock 0 ((cleared.disk 0).store SuperBlock.record 0
    (madeSuperBlock totalBlocks inodeBitmapBlocks))

/-- The device after creation. -/
def madeVolume (start : Volume) (totalBlocks inodeBitmapBlocks : UInt32) : Volume :=
  let rooted := (⟨1, inodeBitmapBlocks.toNat⟩ : Bitmap).setBit
    (clearedVolume start totalBlocks inodeBitmapBlocks) 0
  let block := rooted.disk (1 + inodeBitmapBlocks.toNat)
  rooted.putBlock (1 + inodeBitmapBlocks.toNat)
    (block.paste 0 (DiskInode.initializeAs (block.extract 0 diskInodeSize) .directory))

theorem run_clearBlocks {volume : Volume} {blockIds : List Nat}
    (unlocked : volume.locked = []) :
    (clearBlocks blockIds).run volume = .ok () (volume.cleared blockIds) := by
  induction blockIds generalizing volume with
  | nil => simp [clearBlocks, Volume.cleared]
  | cons blockId blockIds ih =>
      rw [clearBlocks, run_bind_ok (run_modifyBlock (by simp [unlocked]) _),
        ih (by exact unlocked)]
      congr 1
      simp only [Volume.cleared, Volume.putBlock, Volume.mk.injEq, and_true]
      funext other
      by_cases later : other ∈ blockIds
      · simp [later]
      · by_cases same : other = blockId
        · simp [same]
        · simp [later, same]

theorem dataBitmapBlocks_le (totalBlocks inodeBitmapBlocks : UInt32) :
    dataBitmapBlocks totalBlocks inodeBitmapBlocks ≤
      dataTotalBlocks totalBlocks inodeBitmapBlocks := by
  rw [dataBitmapBlocks]
  omega

theorem EasyFileSystem.run_getDiskInodePos {fs : EasyFileSystem} (build : Build)
    (volume : Volume) {inodeId : Nat}
    (inWord : fs.inodeAreaStartBlock + inodeId / (blockSz / diskInodeSize) < 2 ^ 32) :
    (fs.getDiskInodePos build inodeId).run volume =
      .ok (fs.inodeAreaStartBlock + inodeId / (blockSz / diskInodeSize),
        inodeId % (blockSz / diskInodeSize) * diskInodeSize) volume := by
  rw [getDiskInodePos, run_bind_ok (build.run_add32 _ inWord), run_pure]

theorem run_modifyInodeAt {volume : Volume} {blockId offset : Nat}
    (unlocked : blockId ∉ volume.locked) (inside : offset + diskInodeSize ≤ blockSz)
    (change : DiskInode → DiskInode) :
    (modifyInodeAt blockId offset change).run volume =
      .ok () (volume.putBlock blockId ((volume.disk blockId).paste offset
        (change ((volume.disk blockId).extract offset diskInodeSize)))) := by
  rw [modifyInodeAt, run_bind_ok (run_check inside volume), run_modifyBlock unlocked]

theorem run_allocInode_first {fs : EasyFileSystem} {volume : Volume}
    (unlocked : volume.locked = []) (someBlock : 0 < fs.inodeBitmap.blocks)
    (clear : fs.inodeBitmap.bit volume.disk 0 = false) :
    fs.allocInode.run volume = .ok 0 (fs.inodeBitmap.setBit volume 0) := by
  have taken := Bitmap.run_alloc_lowest (Bitmap.unlocked_of_nil unlocked)
    (Nat.mul_pos someBlock (by decide)) clear (fun index below => absurd below (by omega))
  rw [EasyFileSystem.allocInode, run_bind_ok taken, run_bind_ok (run_expect_some _ _), run_pure,
    Nat.zero_mod]

theorem run_allocInode_panic {fs : EasyFileSystem} (noBlocks : fs.inodeBitmap.blocks = 0)
    (volume : Volume) : fs.allocInode.run volume = .panic := by
  rw [EasyFileSystem.allocInode, Bitmap.alloc, noBlocks]
  rfl

theorem bit_clearedVolume (start : Volume) {totalBlocks inodeBitmapBlocks : UInt32}
    (fit : InodesFit totalBlocks inodeBitmapBlocks) (someBlock : 0 < inodeBitmapBlocks.toNat) :
    (⟨1, inodeBitmapBlocks.toNat⟩ : Bitmap).bit
      (clearedVolume start totalBlocks inodeBitmapBlocks).disk 0 = false := by
  rw [InodesFit] at fit
  have oneLt : 1 < totalBlocks.toNat := by omega
  have cleared : (clearedVolume start totalBlocks inodeBitmapBlocks).disk 1 = Bytes.zeroed := by
    simp [clearedVolume, Volume.cleared, oneLt]
  rw [Bitmap.bit, Nat.zero_div, Nat.zero_add, cleared]
  decide

/-- The sum in the size of the data bitmap overflows only without checks, and
there is a root inode. -/
def CreateReturns (build : Build) (totalBlocks inodeBitmapBlocks : UInt32) : Prop :=
  (build.overflowChecks = true →
    dataTotalBlocks totalBlocks inodeBitmapBlocks + 4096 < 2 ^ 32) ∧
    0 < inodeBitmapBlocks.toNat

instance (build : Build) (totalBlocks inodeBitmapBlocks : UInt32) :
    Decidable (CreateReturns build totalBlocks inodeBitmapBlocks) :=
  inferInstanceAs (Decidable (_ ∧ _))

theorem run_create (build : Build) {totalBlocks inodeBitmapBlocks : UInt32} {start : Volume}
    (unlocked : start.locked = []) (fit : InodesFit totalBlocks inodeBitmapBlocks) :
    (EasyFileSystem.create build totalBlocks inodeBitmapBlocks).run start =
      if CreateReturns build totalBlocks inodeBitmapBlocks then
        .ok (madeFileSystem totalBlocks inodeBitmapBlocks)
          (madeVolume start totalBlocks inodeBitmapBlocks)
      else .panic := by
  have fits := fit
  have totalLt := totalBlocks.toNat_lt
  have bitmapLe := dataBitmapBlocks_le totalBlocks inodeBitmapBlocks
  have dataTotalEq : totalBlocks.toNat - 1 - (inodeBitmapBlocks.toNat +
      inodeAreaBlocks inodeBitmapBlocks.toNat) =
        dataTotalBlocks totalBlocks inodeBitmapBlocks := rfl
  have dataBitmapEq : (dataTotalBlocks totalBlocks inodeBitmapBlocks + 4096) % 2 ^ 32 / 4097 =
      dataBitmapBlocks totalBlocks inodeBitmapBlocks := rfl
  rw [InodesFit] at fits
  rw [EasyFileSystem.create, run_bind_ok (build.run_add32 _ (by omega)),
    run_bind_ok (build.run_sub32 _ (by omega) (by omega)),
    run_bind_ok (build.run_sub32 _ (by omega) (by omega)), dataTotalEq]
  by_cases inWord : build.overflowChecks = true →
      dataTotalBlocks totalBlocks inodeBitmapBlocks + 4096 < 2 ^ 32
  · rw [run_bind_ok (build.run_add32_of _ inWord), dataBitmapEq,
      run_bind_ok (build.run_sub32 _ bitmapLe (by omega)),
      run_bind_ok (build.run_add32 _ (by omega)), run_bind_ok (build.run_add32 _ (by omega)),
      run_bind_ok (build.run_add32 _ (by omega)), run_bind_ok (run_clearBlocks unlocked),
      run_bind_ok (run_modifyBlock (by simp [Volume.cleared, unlocked]) _)]
    have clearedUnlocked : (clearedVolume start totalBlocks inodeBitmapBlocks).locked = [] :=
      unlocked
    change ((madeFileSystem totalBlocks inodeBitmapBlocks).allocInode >>= _).run
      (clearedVolume start totalBlocks inodeBitmapBlocks) = _
    by_cases someBlock : 0 < inodeBitmapBlocks.toNat
    · have rootTaken : (madeFileSystem totalBlocks inodeBitmapBlocks).allocInode.run
          (clearedVolume start totalBlocks inodeBitmapBlocks) = .ok 0
            ((madeFileSystem totalBlocks inodeBitmapBlocks).inodeBitmap.setBit
              (clearedVolume start totalBlocks inodeBitmapBlocks) 0) :=
        run_allocInode_first clearedUnlocked someBlock (bit_clearedVolume start fit someBlock)
      have rootUnlocked : ((madeFileSystem totalBlocks inodeBitmapBlocks).inodeBitmap.setBit
          (clearedVolume start totalBlocks inodeBitmapBlocks) 0).locked = [] := clearedUnlocked
      rw [if_pos ⟨inWord, someBlock⟩, run_bind_ok rootTaken, run_bind_ok (run_check rfl _),
        run_bind_ok (EasyFileSystem.run_getDiskInodePos build _ (by simpa using by omega)),
        run_bind_ok (run_modifyInodeAt (by simp [rootUnlocked]) (by decide) _), run_pure]
      rfl
    · have noBlocks : (madeFileSystem totalBlocks inodeBitmapBlocks).inodeBitmap.blocks = 0 :=
        Nat.eq_zero_of_not_pos someBlock
      rw [if_neg fun returns => someBlock returns.2,
        run_bind_panic (run_allocInode_panic noBlocks _)]
  · rw [if_neg fun returns => inWord returns.1,
      run_bind_panic (build.run_add32_panic _ inWord)]

/-- What a creation that returns has done. -/
theorem of_run_create {build : Build} {totalBlocks inodeBitmapBlocks : UInt32}
    {start made : Volume} {fs : EasyFileSystem} (unlocked : start.locked = [])
    (fit : InodesFit totalBlocks inodeBitmapBlocks)
    (created : (EasyFileSystem.create build totalBlocks inodeBitmapBlocks).run start =
      .ok fs made) :
    fs = madeFileSystem totalBlocks inodeBitmapBlocks ∧ 0 < inodeBitmapBlocks.toNat ∧
      made = madeVolume start totalBlocks inodeBitmapBlocks := by
  rw [run_create build unlocked fit] at created
  split at created
  case isTrue returns =>
    cases created
    exact ⟨rfl, returns.2, rfl⟩
  case isFalse => cases created

/-- Superblock, inode bitmap, inode area, data bitmap and data area. -/
def EasyFileSystem.areas (fs : EasyFileSystem) (superBlock : SuperBlock) : List (Set Nat) :=
  [Set.Ico 0 1,
    Set.Ico fs.inodeBitmap.startBlockId (fs.inodeBitmap.startBlockId + fs.inodeBitmap.blocks),
    Set.Ico fs.inodeAreaStartBlock (fs.inodeAreaStartBlock + superBlock.inodeAreaBlocks.toNat),
    Set.Ico fs.dataBitmap.startBlockId (fs.dataBitmap.startBlockId + fs.dataBitmap.blocks),
    Set.Ico fs.dataAreaStartBlock (fs.dataAreaStartBlock + superBlock.dataAreaBlocks.toNat)]

/-- The areas are disjoint and lie within the device. -/
def EasyFileSystem.AreasApart (fs : EasyFileSystem) (superBlock : SuperBlock) : Prop :=
  (fs.areas superBlock).Pairwise Disjoint ∧
    ∀ area ∈ fs.areas superBlock, area ⊆ Set.Ico 0 superBlock.totalBlocks.toNat

theorem toNat_inodeAreaBlocks (totalBlocks inodeBitmapBlocks : UInt32) :
    (madeSuperBlock totalBlocks inodeBitmapBlocks).inodeAreaBlocks.toNat =
      inodeAreaBlocks inodeBitmapBlocks.toNat := by
  rw [madeSuperBlock, UInt32.toNat_ofNat', inodeAreaBlocks, Nat.mod_mod]

/-- The data area ends where the device ends. -/
theorem dataAreaStartBlock_add {totalBlocks inodeBitmapBlocks : UInt32}
    (fit : InodesFit totalBlocks inodeBitmapBlocks) :
    (madeFileSystem totalBlocks inodeBitmapBlocks).dataAreaStartBlock +
      (madeSuperBlock totalBlocks inodeBitmapBlocks).dataAreaBlocks.toNat =
        totalBlocks.toNat := by
  have totalLt := totalBlocks.toNat_lt
  have bitmapLe := dataBitmapBlocks_le totalBlocks inodeBitmapBlocks
  have dataTotalEq : dataTotalBlocks totalBlocks inodeBitmapBlocks = totalBlocks.toNat - 1 -
    (inodeBitmapBlocks.toNat + inodeAreaBlocks inodeBitmapBlocks.toNat) := rfl
  rw [InodesFit] at fit
  simp only [madeFileSystem, madeSuperBlock, UInt32.toNat_ofNat']
  rw [Nat.mod_eq_of_lt (by omega)]
  omega

theorem areasApart_made {totalBlocks inodeBitmapBlocks : UInt32}
    (fit : InodesFit totalBlocks inodeBitmapBlocks) :
    (madeFileSystem totalBlocks inodeBitmapBlocks).AreasApart
      (madeSuperBlock totalBlocks inodeBitmapBlocks) := by
  have dataEnd := dataAreaStartBlock_add fit
  have inodeEnd := toNat_inodeAreaBlocks totalBlocks inodeBitmapBlocks
  have dataStart : (madeFileSystem totalBlocks inodeBitmapBlocks).dataAreaStartBlock =
    1 + (inodeBitmapBlocks.toNat + inodeAreaBlocks inodeBitmapBlocks.toNat) +
      dataBitmapBlocks totalBlocks inodeBitmapBlocks := rfl
  constructor
  · simp only [EasyFileSystem.areas, List.pairwise_cons, List.mem_cons, List.not_mem_nil,
      or_false, forall_eq_or_imp, forall_eq, Set.disjoint_left, Set.mem_Ico]
    simp only [inodeEnd, madeFileSystem]
    refine ⟨⟨?_, ?_, ?_, ?_⟩, ⟨?_, ?_, ?_⟩, ⟨?_, ?_⟩, ?_, ?_⟩ <;>
      first | (intro block inside; omega) | simp
  · simp only [EasyFileSystem.areas, List.mem_cons, List.not_mem_nil, or_false,
      forall_eq_or_imp, forall_eq, Set.subset_def, Set.mem_Ico]
    have totalEq : (madeSuperBlock totalBlocks inodeBitmapBlocks).totalBlocks = totalBlocks := rfl
    rw [totalEq, ← dataEnd, inodeEnd]
    simp only [madeFileSystem]
    refine ⟨?_, ?_, ?_, ?_, ?_⟩ <;> (intro block inside; omega)

theorem load_madeVolume (start : Volume) {totalBlocks inodeBitmapBlocks : UInt32}
    (someBlock : 0 < inodeBitmapBlocks.toNat) :
    ((madeVolume start totalBlocks inodeBitmapBlocks).disk 0).load SuperBlock.record 0 =
      madeSuperBlock totalBlocks inodeBitmapBlocks := by
  simp only [madeVolume, Bitmap.setBit, clearedVolume, Volume.putBlock_disk]
  rw [Function.update_of_ne (by omega), Function.update_of_ne (by simp), Function.update_self]
  exact Bytes.load_store _ _ _ (by decide)

/-- The device and the data blocks handed out and not returned. -/
structure Session where
  volume : Volume
  held : List Nat

inductive Operation where
  | allocInode
  | allocData
  | deallocData (blockId : Nat)

/-- A call of an allocator and the identifier it is about. -/
inductive Step (fs : EasyFileSystem) (build : Build) :
    Session → Operation → Nat → Session → Prop
  | allocInode {session : Session} {inodeId : Nat} {after : Volume}
      (ran : fs.allocInode.run session.volume = .ok inodeId after) :
      Step fs build session .allocInode inodeId ⟨after, session.held⟩
  | allocData {session : Session} {blockId : Nat} {after : Volume}
      (ran : (fs.allocData build).run session.volume = .ok blockId after) :
      Step fs build session .allocData blockId ⟨after, blockId :: session.held⟩
  | deallocData {session : Session} {blockId : Nat} {after : Volume}
      (handedOut : blockId ∈ session.held)
      (ran : (fs.deallocData build blockId).run session.volume = .ok () after) :
      Step fs build session (.deallocData blockId) blockId ⟨after, session.held.erase blockId⟩

/-- The slot of an inode lies in the inode area. -/
def SlotInArea (fs : EasyFileSystem) (build : Build) (superBlock : SuperBlock)
    (inodeId : Nat) : Prop :=
  ∀ volume, ∃ blockId offset,
    (fs.getDiskInodePos build inodeId).run volume = .ok (blockId, offset) volume ∧
      blockId ∈ Set.Ico fs.inodeAreaStartBlock
        (fs.inodeAreaStartBlock + superBlock.inodeAreaBlocks.toNat) ∧
      offset + diskInodeSize ≤ blockSz

/-- The identifier that a call returns exists and was not in use. -/
def Sound (fs : EasyFileSystem) (build : Build) (superBlock : SuperBlock) (session : Session) :
    Operation → Nat → Prop
  | .allocInode, inodeId => SlotInArea fs build superBlock inodeId
  | .allocData, blockId =>
      blockId ∈ Set.Ico fs.dataAreaStartBlock superBlock.totalBlocks.toNat ∧
        blockId ∉ session.held
  | .deallocData _, _ => True

/-- If the bitmap has a clear bit, it has one below the limit. -/
def Bitmap.ClearBelow (bitmap : Bitmap) (disk : Nat → Block) (limit : Nat) : Prop :=
  (∃ index < bitmap.maximum, bitmap.bit disk index = false) →
    ∃ index < bitmap.maximum, index < limit ∧ bitmap.bit disk index = false

/-- Not all inode slots or data blocks are in use, unless all bits are. -/
def Backed (fs : EasyFileSystem) (superBlock : SuperBlock) (session : Session) :
    Operation → Prop
  | .allocInode => fs.inodeBitmap.ClearBelow session.volume.disk
      (blockSz / diskInodeSize * superBlock.inodeAreaBlocks.toNat)
  | .allocData => fs.dataBitmap.ClearBelow session.volume.disk superBlock.dataAreaBlocks.toNat
  | .deallocData _ => True

/-- Along every run whose calls meet the condition, every call that meets it
returns a sound identifier. -/
def SoundRuns (fs : EasyFileSystem) (build : Build) (superBlock : SuperBlock) (start : Session)
    (condition : Session → Operation → Prop) : Prop :=
  ∀ session, Relation.ReflTransGen
      (fun before after => ∃ operation identifier, condition before operation ∧
        Step fs build before operation identifier after) start session →
    ∀ operation identifier next, condition session operation →
      Step fs build session operation identifier next →
        Sound fs build superBlock session operation identifier

/-- The order of the areas. -/
structure Laid (fs : EasyFileSystem) (superBlock : SuperBlock) : Prop where
  inodeBitmapEnd :
    fs.inodeBitmap.startBlockId + fs.inodeBitmap.blocks ≤ fs.dataBitmap.startBlockId
  inodeAreaEnd : fs.inodeAreaStartBlock + superBlock.inodeAreaBlocks.toNat ≤
    superBlock.totalBlocks.toNat
  dataBitmapEnd : fs.dataBitmap.startBlockId + fs.dataBitmap.blocks ≤ fs.dataAreaStartBlock
  dataAreaEnd : fs.dataAreaStartBlock + superBlock.dataAreaBlocks.toNat =
    superBlock.totalBlocks.toNat

theorem laid_made {totalBlocks inodeBitmapBlocks : UInt32}
    (fit : InodesFit totalBlocks inodeBitmapBlocks) :
    Laid (madeFileSystem totalBlocks inodeBitmapBlocks)
      (madeSuperBlock totalBlocks inodeBitmapBlocks) where
  inodeBitmapEnd := by
    simp only [madeFileSystem]
    omega
  inodeAreaEnd := by
    rw [InodesFit] at fit
    rw [toNat_inodeAreaBlocks]
    simp only [madeFileSystem, madeSuperBlock]
    omega
  dataBitmapEnd := Nat.le_refl _
  dataAreaEnd := dataAreaStartBlock_add fit

/-- The data blocks handed out are data blocks with their bit set. -/
structure Accounted (fs : EasyFileSystem) (superBlock : SuperBlock) (session : Session) :
    Prop where
  unlocked : session.volume.locked = []
  nodup : session.held.Nodup
  inArea : ∀ blockId ∈ session.held,
    blockId ∈ Set.Ico fs.dataAreaStartBlock superBlock.totalBlocks.toNat
  isSet : ∀ blockId ∈ session.held, blockId - fs.dataAreaStartBlock < fs.dataBitmap.maximum ∧
    fs.dataBitmap.bit session.volume.disk (blockId - fs.dataAreaStartBlock) = true

section Steps

variable {fs : EasyFileSystem} {build : Build} {superBlock : SuperBlock} {session : Session}

/-- An allocation takes a clear bit below every limit that has one below it. -/
theorem Bitmap.of_run_alloc {bitmap : Bitmap} {volume after : Volume} {index limit : Nat}
    (unlocked : volume.locked = []) (clearBelow : bitmap.ClearBelow volume.disk limit)
    (ran : bitmap.alloc.run volume = .ok (some index) after) :
    index < bitmap.maximum ∧ index < limit ∧ bitmap.bit volume.disk index = false ∧
      after = bitmap.setBit volume index := by
  rcases @run_alloc bitmap _ (unlocked_of_nil unlocked) with
    ⟨found, foundLt, isClear, below, taken⟩ | ⟨full, exhausted⟩
  · rw [taken] at ran
    cases ran
    obtain ⟨backed, backedLt, backedBelow, backedClear⟩ := clearBelow ⟨index, foundLt, isClear⟩
    have lowest : index ≤ backed := by
      by_contra above
      have isSet := below backed (by omega)
      simp [backedClear] at isSet
    exact ⟨foundLt, by omega, isClear, rfl⟩
  · rw [exhausted] at ran
    cases ran

theorem of_run_expect_alloc {bitmap : Bitmap} {volume after : Volume} {value : Nat}
    {next : Nat → Call Nat}
    (ran : (do next (← expect (← bitmap.alloc))).run volume = .ok value after) :
    ∃ index between, bitmap.alloc.run volume = .ok (some index) between ∧
      (next index).run between = .ok value after := by
  obtain ⟨found, between, taken, rest⟩ := of_run_bind_ok ran
  cases found with
  | none => cases rest
  | some index => exact ⟨index, between, taken, rest⟩

theorem allocInode_sound (laid : Laid fs superBlock) (accounted : Accounted fs superBlock session)
    (backed : Backed fs superBlock session .allocInode) {inodeId : Nat} {after : Volume}
    (ran : fs.allocInode.run session.volume = .ok inodeId after) :
    SlotInArea fs build superBlock inodeId ∧
      Accounted fs superBlock ⟨after, session.held⟩ := by
  obtain ⟨index, between, taken, returned⟩ := of_run_expect_alloc ran
  obtain ⟨inMaximum, inArea, isClear, rfl⟩ := Bitmap.of_run_alloc accounted.unlocked backed taken
  cases returned
  have totalLt := superBlock.totalBlocks.toNat_lt
  have inodeEnd := laid.inodeAreaEnd
  have perBlock : blockSz / diskInodeSize = 4 := rfl
  have inBlocks : index / blockBits < fs.inodeBitmap.blocks :=
    Nat.div_lt_of_lt_mul (by rwa [Nat.mul_comm])
  have outside : fs.dataBitmap.startBlockId >
      index / blockBits + fs.inodeBitmap.startBlockId := by
    have bitmapEnd := laid.inodeBitmapEnd
    generalize index / blockBits = position at inBlocks
    omega
  rw [perBlock] at inArea
  constructor
  · intro volume
    have slot : index % 2 ^ 32 / 4 < superBlock.inodeAreaBlocks.toNat := by omega
    refine ⟨_, _, EasyFileSystem.run_getDiskInodePos build volume ?_,
      ⟨Nat.le_add_right _ _, ?_⟩, ?_⟩
    · rw [perBlock]
      omega
    · rw [perBlock]
      omega
    · rw [perBlock]
      simp only [diskInodeSize, blockSz]
      omega
  · refine ⟨accounted.unlocked, accounted.nodup, accounted.inArea, ?_⟩
    intro blockId isHeld
    obtain ⟨inMaximum, isSet⟩ := accounted.isSet blockId isHeld
    refine ⟨inMaximum, ?_⟩
    rw [Bitmap.setBit, Volume.putBlock_disk, Bitmap.bit_update_outside (Or.inl outside) _ inMaximum]
    exact isSet

theorem allocData_sound (laid : Laid fs superBlock) (accounted : Accounted fs superBlock session)
    (backed : Backed fs superBlock session .allocData) {blockId : Nat} {after : Volume}
    (ran : (fs.allocData build).run session.volume = .ok blockId after) :
    Sound fs build superBlock session .allocData blockId ∧
      Accounted fs superBlock ⟨after, blockId :: session.held⟩ := by
  obtain ⟨index, between, taken, returned⟩ := of_run_expect_alloc ran
  obtain ⟨inMaximum, inArea, isClear, rfl⟩ := Bitmap.of_run_alloc accounted.unlocked backed taken
  have totalLt := superBlock.totalBlocks.toNat_lt
  have dataEnd := laid.dataAreaEnd
  rw [Nat.mod_eq_of_lt (by omega), build.run_add32 _ (by omega)] at returned
  cases returned
  have indexEq : index + fs.dataAreaStartBlock - fs.dataAreaStartBlock = index := by omega
  have fresh : index + fs.dataAreaStartBlock ∉ session.held := by
    intro isHeld
    have isSet := (accounted.isSet _ isHeld).2
    rw [indexEq, isClear] at isSet
    cases isSet
  have inDataArea : index + fs.dataAreaStartBlock ∈
      Set.Ico fs.dataAreaStartBlock superBlock.totalBlocks.toNat := ⟨by omega, by omega⟩
  refine ⟨⟨inDataArea, fresh⟩, accounted.unlocked, List.nodup_cons.mpr ⟨fresh, accounted.nodup⟩,
    ?_, ?_⟩
  · intro other otherMem
    rcases List.mem_cons.mp otherMem with rfl | isHeld
    · exact inDataArea
    · exact accounted.inArea other isHeld
  · intro other otherMem
    rcases List.mem_cons.mp otherMem with rfl | isHeld
    · rw [indexEq]
      exact ⟨inMaximum, by rw [Bitmap.bit_setBit, if_pos rfl]⟩
    · obtain ⟨otherInside, isSet⟩ := accounted.isSet other isHeld
      refine ⟨otherInside, ?_⟩
      rw [Bitmap.bit_setBit]
      split
      · rfl
      · exact isSet

/-- A data block handed out can be given back. -/
theorem run_deallocData (laid : Laid fs superBlock) (accounted : Accounted fs superBlock session)
    {blockId : Nat} (isHeld : blockId ∈ session.held) :
    (fs.deallocData build blockId).run session.volume =
      .ok () (fs.dataBitmap.clearBit (session.volume.putBlock blockId .zeroed)
        (blockId - fs.dataAreaStartBlock)) := by
  have totalLt := superBlock.totalBlocks.toNat_lt
  obtain ⟨lower, upper⟩ := accounted.inArea blockId isHeld
  obtain ⟨inside, isSet⟩ := accounted.isSet blockId isHeld
  have bitmapEnd := laid.dataBitmapEnd
  rw [EasyFileSystem.deallocData,
    run_bind_ok (run_modifyBlock (by simp [accounted.unlocked]) _),
    run_bind_ok (build.run_sub32 _ lower (by omega)),
    Bitmap.run_dealloc (@Bitmap.unlocked_of_nil _ (session.volume.putBlock blockId .zeroed)
      accounted.unlocked) inside]
  rw [Volume.putBlock_disk, Bitmap.bit_update_outside (Or.inr (by omega)) _ inside, isSet]

theorem deallocData_accounted (laid : Laid fs superBlock)
    (accounted : Accounted fs superBlock session) {blockId : Nat}
    (isHeld : blockId ∈ session.held) {after : Volume}
    (ran : (fs.deallocData build blockId).run session.volume = .ok () after) :
    Accounted fs superBlock ⟨after, session.held.erase blockId⟩ := by
  rw [run_deallocData laid accounted isHeld] at ran
  cases ran
  refine ⟨accounted.unlocked, accounted.nodup.erase _, ?_, ?_⟩
  · intro other otherMem
    exact accounted.inArea other (List.mem_of_mem_erase otherMem)
  · intro other otherMem
    obtain ⟨different, otherHeld⟩ := accounted.nodup.mem_erase_iff.mp otherMem
    obtain ⟨inside, isSet⟩ := accounted.isSet other otherHeld
    have lower := (accounted.inArea blockId isHeld).1
    have otherLower := (accounted.inArea other otherHeld).1
    have bitmapEnd := laid.dataBitmapEnd
    have cleared : fs.dataBitmap.bit (session.volume.putBlock blockId .zeroed).disk
        (blockId - fs.dataAreaStartBlock) = true := by
      obtain ⟨blockInside, blockSet⟩ := accounted.isSet blockId isHeld
      rw [Volume.putBlock_disk, Bitmap.bit_update_outside (Or.inr (by omega)) _ blockInside]
      exact blockSet
    refine ⟨inside, ?_⟩
    rw [Bitmap.bit_clearBit cleared, if_neg (by omega), Volume.putBlock_disk,
      Bitmap.bit_update_outside (Or.inr (by omega)) _ inside]
    exact isSet

theorem step_sound (laid : Laid fs superBlock) (accounted : Accounted fs superBlock session)
    {operation : Operation} {identifier : Nat} {next : Session}
    (backed : Backed fs superBlock session operation)
    (step : Step fs build session operation identifier next) :
    Sound fs build superBlock session operation identifier ∧
      Accounted fs superBlock next := by
  cases step with
  | allocInode ran => exact allocInode_sound laid accounted backed ran
  | allocData ran => exact allocData_sound laid accounted backed ran
  | deallocData handedOut ran => exact ⟨trivial, deallocData_accounted laid accounted handedOut ran⟩

theorem run_accounted (laid : Laid fs superBlock) (accounted : Accounted fs superBlock session)
    {reached : Session}
    (run : Relation.ReflTransGen
      (fun before after => ∃ operation identifier, Backed fs superBlock before operation ∧
        Step fs build before operation identifier after) session reached) :
    Accounted fs superBlock reached := by
  induction run with
  | refl => exact accounted
  | tail _ last ih =>
      obtain ⟨operation, identifier, backed, step⟩ := last
      exact (step_sound laid ih backed step).2

end Steps

/-- On a made file system the areas are apart, and while no call exhausts the
inode slots or data blocks before the bits, all identifiers are sound. -/
theorem allocatesExisting_of_backed {build : Build} {totalBlocks inodeBitmapBlocks : UInt32}
    {start made : Volume} {fs : EasyFileSystem} (unlocked : start.locked = [])
    (fit : InodesFit totalBlocks inodeBitmapBlocks)
    (created : (EasyFileSystem.create build totalBlocks inodeBitmapBlocks).run start =
      .ok fs made) :
    ((made.disk 0).load SuperBlock.record 0).totalBlocks = totalBlocks ∧
      fs.AreasApart ((made.disk 0).load SuperBlock.record 0) ∧
      SoundRuns fs build ((made.disk 0).load SuperBlock.record 0) ⟨made, []⟩
        (Backed fs ((made.disk 0).load SuperBlock.record 0)) := by
  obtain ⟨rfl, someBlock, rfl⟩ := of_run_create unlocked fit created
  rw [load_madeVolume start someBlock]
  refine ⟨rfl, areasApart_made fit, ?_⟩
  intro session run operation identifier next backed step
  have initial : Accounted (madeFileSystem totalBlocks inodeBitmapBlocks)
      (madeSuperBlock totalBlocks inodeBitmapBlocks)
      ⟨madeVolume start totalBlocks inodeBitmapBlocks, []⟩ :=
    ⟨unlocked, List.nodup_nil, by simp, by simp⟩
  exact (step_sound (laid_made fit) (run_accounted (laid_made fit) initial run) backed step).1

/-- A device of zeros. -/
def blankVolume : Volume := ⟨fun _ => .zeroed, []⟩

/-- One inode bitmap block on 1028 blocks leaves one data block behind a data
bitmap of 4096 bits. -/
theorem create_tiny : (EasyFileSystem.create ⟨true⟩ 1028 1).run blankVolume =
    .ok (madeFileSystem 1028 1) (madeVolume blankVolume 1028 1) := by
  rw [run_create ⟨true⟩ rfl (by rw [InodesFit]; decide), if_pos (by decide)]

theorem allocatesExisting_of_backed_tiny :
    (((madeVolume blankVolume 1028 1).disk 0).load SuperBlock.record 0).totalBlocks = 1028 ∧
      (madeFileSystem 1028 1).AreasApart
        (((madeVolume blankVolume 1028 1).disk 0).load SuperBlock.record 0) ∧
      SoundRuns (madeFileSystem 1028 1) ⟨true⟩
        (((madeVolume blankVolume 1028 1).disk 0).load SuperBlock.record 0)
        ⟨madeVolume blankVolume 1028 1, []⟩
        (Backed (madeFileSystem 1028 1)
          (((madeVolume blankVolume 1028 1).disk 0).load SuperBlock.record 0)) :=
  allocatesExisting_of_backed rfl (by rw [InodesFit]; decide) create_tiny

theorem run_allocData_lowest {fs : EasyFileSystem} (build : Build) {volume : Volume}
    (unlocked : volume.locked = []) {index : Nat} (inside : index < fs.dataBitmap.maximum)
    (inWord : index + fs.dataAreaStartBlock < 2 ^ 32)
    (clear : fs.dataBitmap.bit volume.disk index = false)
    (below : ∀ lower < index, fs.dataBitmap.bit volume.disk lower = true) :
    (fs.allocData build).run volume =
      .ok (index + fs.dataAreaStartBlock) (fs.dataBitmap.setBit volume index) := by
  rw [EasyFileSystem.allocData,
    run_bind_ok (Bitmap.run_alloc_lowest (Bitmap.unlocked_of_nil unlocked) inside clear below),
    run_bind_ok (run_expect_some _ _), Nat.mod_eq_of_lt (by omega), build.run_add32 _ inWord]

/-- The second data block handed out on 1028 blocks is block 1028. -/
theorem not_soundRuns_tiny :
    (EasyFileSystem.create ⟨true⟩ 1028 1).run blankVolume =
      .ok (madeFileSystem 1028 1) (madeVolume blankVolume 1028 1) ∧
    ¬ SoundRuns (madeFileSystem 1028 1) ⟨true⟩
      (((madeVolume blankVolume 1028 1).disk 0).load SuperBlock.record 0)
      ⟨madeVolume blankVolume 1028 1, []⟩ (fun _ _ => True) := by
  refine ⟨create_tiny, ?_⟩
  intro sound
  have dataBlock : (madeVolume blankVolume 1028 1).disk 1026 = Bytes.zeroed := by
    simp [madeVolume, Bitmap.setBit, clearedVolume, Volume.cleared, blankVolume]
  have clear : ∀ index < 4096, (madeFileSystem 1028 1).dataBitmap.bit
      (madeVolume blankVolume 1028 1).disk index = false := by
    intro index indexLt
    have inFirst : index / blockBits + (madeFileSystem 1028 1).dataBitmap.startBlockId =
        1026 := by
      rw [Nat.div_eq_of_lt (by exact indexLt)]
      decide
    rw [Bitmap.bit, inFirst, dataBlock, Bytes.wordBit_zeroed]
  have first : ((madeFileSystem 1028 1).allocData ⟨true⟩).run
      (madeVolume blankVolume 1028 1) = .ok 1027
        ((madeFileSystem 1028 1).dataBitmap.setBit (madeVolume blankVolume 1028 1) 0) :=
    run_allocData_lowest ⟨true⟩ rfl (by decide) (by decide) (clear 0 (by decide))
      (fun lower below => absurd below (by omega))
  have clearNext : (madeFileSystem 1028 1).dataBitmap.bit ((madeFileSystem 1028 1).dataBitmap.setBit
      (madeVolume blankVolume 1028 1) 0).disk 1 = false := by
    rw [Bitmap.bit_setBit, if_neg (by decide), clear 1 (by decide)]
  have second : ((madeFileSystem 1028 1).allocData ⟨true⟩).run
      ((madeFileSystem 1028 1).dataBitmap.setBit (madeVolume blankVolume 1028 1) 0) = .ok 1028
        ((madeFileSystem 1028 1).dataBitmap.setBit ((madeFileSystem 1028 1).dataBitmap.setBit
          (madeVolume blankVolume 1028 1) 0) 1) := by
    apply run_allocData_lowest ⟨true⟩ rfl (by decide) (by decide) clearNext
    intro lower below
    rw [Nat.lt_one_iff.mp below, Bitmap.bit_setBit, if_pos rfl]
  have oneStep := Relation.ReflTransGen.single (r := fun before after =>
    ∃ operation identifier, True ∧ Step (madeFileSystem 1028 1) ⟨true⟩ before operation
      identifier after) ⟨.allocData, 1027, trivial,
        @Step.allocData _ _ ⟨madeVolume blankVolume 1028 1, []⟩ _ _ first⟩
  have beyond := sound _ oneStep .allocData 1028 _ trivial (Step.allocData second)
  rw [load_madeVolume blankVolume (by decide)] at beyond
  exact absurd beyond.1.2 (by decide)

end EasyFs

end OSWorkspace
