import OSWorkspace.Ext4InodeTables

/-!
# Mounting

`try_open` of `ext4.rs`: the superblock is read from block 0, only its magic
and its block size are checked, and the group descriptors are read with a
fixed 64-byte structure at the stride of the descriptor size.  Arithmetic that
leaves its word panics in a build with overflow checks and wraps in one
without.
-/

namespace OSWorkspace

namespace Ext4

open Exec

/-- The superblock with the fields that only mounting reads. -/
structure MountSuperBlock extends Ext4SuperBlock where
  sMagic : UInt16
  sFirstIno : UInt32
  sFeatureIncompat : UInt32
  sDescSize : UInt16

def ext4Magic : UInt16 := 0xEF53

def superblockOffset : Nat := 1024

def ext4FeatureIncompat64bit : UInt32 := 0x0080

/-- The superblock of a 4096-byte block 0. -/
def readSuperBlock (block : Block) : MountSuperBlock :=
  let u32 (offset : Nat) : UInt32 := UInt32.ofNat (block.uint (superblockOffset + offset) 4)
  let u16 (offset : Nat) : UInt16 := UInt16.ofNat (block.uint (superblockOffset + offset) 2)
  { sBlocksCountLo := u32 0x04
    sBlocksCountHi := u32 0x150
    sFirstDataBlock := u32 0x14
    sLogBlockSize := u32 0x18
    sBlocksPerGroup := u32 0x20
    sInodesPerGroup := u32 0x28
    sRevLevel := u32 0x4C
    sInodeSize := u16 0x58
    sMagic := u16 0x38
    sFirstIno := u32 0x54
    sFeatureIncompat := u32 0x60
    sDescSize := u16 0xFE }

namespace MountSuperBlock

def isValid (superblock : MountSuperBlock) : Bool := superblock.sMagic == ext4Magic

def is64bit (superblock : MountSuperBlock) : Bool :=
  superblock.sFeatureIncompat &&& ext4FeatureIncompat64bit != 0

def descSize (superblock : MountSuperBlock) : Nat :=
  if superblock.is64bit ∧ superblock.sDescSize.toNat > 32 then superblock.sDescSize.toNat else 32

/-- Number of block groups, with sum and difference wrapped. -/
def blockGroupCount (superblock : MountSuperBlock) : Nat :=
  ((superblock.blocksCount + superblock.blocksPerGroup + 2 ^ 64 - 1) % 2 ^ 64 /
    superblock.blocksPerGroup) % 2 ^ 32

/-- The arithmetic of the group count stays in its word. -/
def CountsInWord (superblock : MountSuperBlock) : Prop :=
  1 ≤ superblock.blocksCount + superblock.blocksPerGroup ∧
    superblock.blocksCount + superblock.blocksPerGroup < 2 ^ 64

instance (superblock : MountSuperBlock) : Decidable superblock.CountsInWord :=
  inferInstanceAs (Decidable (_ ∧ _))

def descsPerBlock (superblock : MountSuperBlock) : Nat :=
  superblock.blockSize / superblock.descSize

end MountSuperBlock

def groupDescStructSize : Nat := 64

/-- The addresses of the 64-byte descriptor structure at an offset. -/
def readGroupDesc (block : Block) (offset : Nat) : Ext4GroupDesc :=
  let u32 (start : Nat) : UInt32 := UInt32.ofNat (block.uint (offset + start) 4)
  { bgBlockBitmapLo := u32 0x00
    bgInodeBitmapLo := u32 0x04
    bgInodeTableLo := u32 0x08
    bgBlockBitmapHi := u32 0x20
    bgInodeBitmapHi := u32 0x24
    bgInodeTableHi := u32 0x28 }

abbrev Device := Nat → Block

abbrev Mounting (α : Type) := Exec Ext4Error Device α

/-- A build of the driver, with or without overflow checks. -/
structure Build where
  overflowChecks : Bool

/-- Arithmetic that leaves its word panics only under overflow checks. -/
def Build.inWord (build : Build) (condition : Prop) [Decidable condition] : Mounting Unit :=
  check (build.overflowChecks = true → condition)

def gdtStartBlock (superblock : MountSuperBlock) : Nat :=
  if superblock.blockSize = 1024 then 2 else 1

/-- The loop over the group numbers that remain. -/
def readGroupDescs (superblock : MountSuperBlock) : List Nat → Mounting (List Ext4GroupDesc)
  | [] => return []
  | group :: groups => do
      check (superblock.descsPerBlock ≠ 0)
      let device ← get
      let offsetInBlock := group % superblock.descsPerBlock * superblock.descSize
      check (offsetInBlock + groupDescStructSize ≤ blockSz)
      let desc := readGroupDesc
        (device (gdtStartBlock superblock + group / superblock.descsPerBlock)) offsetInBlock
      let descs ← readGroupDescs superblock groups
      return desc :: descs

/-- Attempt to open an ext4 filesystem. -/
def tryOpen (build : Build) : Mounting Ext4FileSystem := do
  let device ← get
  let superblock := readSuperBlock (device 0)
  if superblock.isValid = false then throw .invalidInput
  else do
    build.inWord (superblock.sLogBlockSize.toNat < 64)
    if superblock.blockSize ≠ blockSz then throw .unsupported
    else do
      build.inWord superblock.CountsInWord
      check (superblock.blocksPerGroup ≠ 0)
      let groupDescs ← readGroupDescs superblock (List.range superblock.blockGroupCount)
      return {
        superblock := superblock.toExt4SuperBlock
        groupDescs := groupDescs
        is64bit := superblock.is64bit
        nextAllocBlock := superblock.firstDataBlock
        nextAllocInode := superblock.sFirstIno.toNat }

/-- The descriptor structure that is read for a group. -/
def groupDescOf (device : Device) (superblock : MountSuperBlock) (group : Nat) : Ext4GroupDesc :=
  readGroupDesc (device (gdtStartBlock superblock + group / superblock.descsPerBlock))
    (group % superblock.descsPerBlock * superblock.descSize)

/-- The file system that opening returns. -/
def openedFileSystem (device : Device) : Ext4FileSystem :=
  let superblock := readSuperBlock (device 0)
  { superblock := superblock.toExt4SuperBlock
    groupDescs := (List.range superblock.blockGroupCount).map (groupDescOf device superblock)
    is64bit := superblock.is64bit
    nextAllocBlock := superblock.firstDataBlock
    nextAllocInode := superblock.sFirstIno.toNat }

namespace MountSuperBlock

/-- Every descriptor structure lies inside its block: the one with the largest
offset is the last of the first block. -/
def DescsFit (superblock : MountSuperBlock) : Prop :=
  superblock.blockGroupCount = 0 ∨ superblock.descsPerBlock ≠ 0 ∧
    (min superblock.blockGroupCount superblock.descsPerBlock - 1) * superblock.descSize +
      groupDescStructSize ≤ blockSz

instance (superblock : MountSuperBlock) : Decidable superblock.DescsFit :=
  inferInstanceAs (Decidable (_ ∨ _))

theorem descsFit_iff (superblock : MountSuperBlock) :
    superblock.DescsFit ↔ ∀ group < superblock.blockGroupCount,
      superblock.descsPerBlock ≠ 0 ∧
        group % superblock.descsPerBlock * superblock.descSize + groupDescStructSize ≤
          blockSz := by
  constructor
  · rintro (none | ⟨positive, last⟩) group groupLt
    · omega
    · refine ⟨positive, ?_⟩
      have remainderLt := Nat.mod_lt group (Nat.pos_of_ne_zero positive)
      have remainderLe := Nat.mod_le group superblock.descsPerBlock
      have offsetLe := Nat.mul_le_mul_right superblock.descSize
        (show group % superblock.descsPerBlock ≤
          min superblock.blockGroupCount superblock.descsPerBlock - 1 by omega)
      omega
  · intro fits
    by_cases none : superblock.blockGroupCount = 0
    · exact Or.inl none
    · right
      obtain ⟨positive, -⟩ := fits 0 (by omega)
      have last := (fits (min superblock.blockGroupCount superblock.descsPerBlock - 1)
        (by omega)).2
      rw [Nat.mod_eq_of_lt (by omega)] at last
      exact ⟨positive, last⟩

end MountSuperBlock

theorem run_readGroupDescs (superblock : MountSuperBlock) (device : Device) (groups : List Nat)
    (fit : ∀ group ∈ groups, superblock.descsPerBlock ≠ 0 ∧
      group % superblock.descsPerBlock * superblock.descSize + groupDescStructSize ≤ blockSz) :
    (readGroupDescs superblock groups).run device =
      .ok (groups.map (groupDescOf device superblock)) device := by
  induction groups with
  | nil => rfl
  | cons group groups ih =>
      obtain ⟨positive, inside⟩ := fit group (by simp)
      have rest := ih fun other otherMem => fit other (by simp [otherMem])
      rw [readGroupDescs, run_bind_ok (run_check positive _), run_bind_ok (run_get _),
        run_bind_ok (run_check inside _), run_bind_ok rest]
      rfl

theorem run_readGroupDescs_panic (superblock : MountSuperBlock) (device : Device)
    (groups : List Nat)
    (unfit : ∃ group ∈ groups, ¬ (superblock.descsPerBlock ≠ 0 ∧
      group % superblock.descsPerBlock * superblock.descSize + groupDescStructSize ≤ blockSz)) :
    (readGroupDescs superblock groups).run device = .panic := by
  induction groups with
  | nil => simp at unfit
  | cons group groups ih =>
      by_cases positive : superblock.descsPerBlock ≠ 0
      · by_cases inside : group % superblock.descsPerBlock * superblock.descSize +
            groupDescStructSize ≤ blockSz
        · have rest : ∃ other ∈ groups, ¬ (superblock.descsPerBlock ≠ 0 ∧
              other % superblock.descsPerBlock * superblock.descSize + groupDescStructSize ≤
                blockSz) := by
            obtain ⟨other, otherMem, otherUnfit⟩ := unfit
            rcases List.mem_cons.mp otherMem with rfl | otherMem
            · exact absurd ⟨positive, inside⟩ otherUnfit
            · exact ⟨other, otherMem, otherUnfit⟩
          rw [readGroupDescs, run_bind_ok (run_check positive _), run_bind_ok (run_get _),
            run_bind_ok (run_check inside _), run_bind_panic (ih rest)]
        · rw [readGroupDescs, run_bind_ok (run_check positive _), run_bind_ok (run_get _),
            run_bind_panic (run_check_panic inside _)]
      · rw [readGroupDescs, run_bind_panic (run_check_panic positive _)]

/-- Opening by the fields of the superblock. -/
theorem run_tryOpen (build : Build) (device : Device) :
    (tryOpen build).run device =
      if (readSuperBlock (device 0)).isValid = false then .err .invalidInput device
      else if build.overflowChecks = true → (readSuperBlock (device 0)).sLogBlockSize.toNat < 64
        then
          if (readSuperBlock (device 0)).blockSize ≠ blockSz then .err .unsupported device
          else if (build.overflowChecks = true → (readSuperBlock (device 0)).CountsInWord) ∧
              (readSuperBlock (device 0)).blocksPerGroup ≠ 0 ∧
              (readSuperBlock (device 0)).DescsFit then
            .ok (openedFileSystem device) device
          else .panic
      else .panic := by
  rw [tryOpen, run_bind_ok (run_get _)]
  by_cases invalid : (readSuperBlock (device 0)).isValid = false
  · rw [if_pos invalid, if_pos invalid, run_throw]
  rw [if_neg invalid, if_neg invalid]
  by_cases shift : build.overflowChecks = true →
      (readSuperBlock (device 0)).sLogBlockSize.toNat < 64
  · rw [if_pos shift, Build.inWord, run_bind_ok (run_check shift _)]
    by_cases size : (readSuperBlock (device 0)).blockSize ≠ blockSz
    · rw [if_pos size, if_pos size, run_throw]
    rw [if_neg size, if_neg size]
    by_cases counts : build.overflowChecks = true → (readSuperBlock (device 0)).CountsInWord
    · rw [Build.inWord, run_bind_ok (run_check counts _)]
      by_cases groups : (readSuperBlock (device 0)).blocksPerGroup ≠ 0
      · rw [run_bind_ok (run_check groups _)]
        by_cases fit : (readSuperBlock (device 0)).DescsFit
        · have inside := (MountSuperBlock.descsFit_iff _).mp fit
          rw [if_pos ⟨counts, groups, fit⟩, run_bind_ok (run_readGroupDescs _ _ _
            fun group groupMem => inside group (List.mem_range.mp groupMem))]
          rfl
        · rw [if_neg fun conditions => fit conditions.2.2]
          have unfit := mt (MountSuperBlock.descsFit_iff _).mpr fit
          simp only [not_forall] at unfit
          obtain ⟨group, groupLt, unfit⟩ := unfit
          exact run_bind_panic (run_readGroupDescs_panic _ _ _
            ⟨group, List.mem_range.mpr groupLt, unfit⟩)
      · rw [if_neg fun conditions => groups conditions.2.1]
        exact run_bind_panic (run_check_panic groups _)
    · rw [if_neg fun conditions => counts conditions.1]
      exact run_bind_panic (run_check_panic counts _)
  · rw [if_neg shift, Build.inWord]
    exact run_bind_panic (run_check_panic shift _)

/-- A block 0 whose superblock has the given fields, each by its offset, width
and value, and zeros elsewhere. -/
def superBlockImage (fields : List (Nat × Nat × Nat)) : Block :=
  fields.foldl (fun block field =>
    block.putUint (superblockOffset + field.1) field.2.1 field.2.2) Bytes.zeroed

/-- The three addresses of a group. -/
structure DescAddresses where
  blockBitmap : Nat
  inodeBitmap : Nat
  inodeTable : Nat
deriving DecidableEq

def Ext4GroupDesc.addresses (desc : Ext4GroupDesc) (is64bit : Bool) : DescAddresses :=
  ⟨desc.blockBitmap is64bit, desc.inodeBitmap is64bit, desc.inodeTable is64bit⟩

/-- The bytes of a group's descriptor on disk. -/
def descriptorBytes (device : Device) (superblock : MountSuperBlock) (group : Nat) :
    Bytes superblock.descSize :=
  (device (gdtStartBlock superblock + group / superblock.descsPerBlock)).extract
    (group % superblock.descsPerBlock * superblock.descSize) superblock.descSize

/-- The addresses in the bytes of a descriptor by the format: low halves in
32-byte descriptors, both halves in larger ones. -/
def formatAddresses {size : Nat} (bytes : Bytes size) : DescAddresses :=
  let address (low high : Nat) :=
    if size ≤ 32 then bytes.uint low 4 else bytes.uint high 4 * 2 ^ 32 + bytes.uint low 4
  ⟨address 0x00 0x20, address 0x04 0x24, address 0x08 0x28⟩

/-- Every device with this block 0 is opened, and each group gets the addresses
in its own descriptor. -/
def DecodesOwnDescriptors (build : Build) (image : Block) : Prop :=
  ∀ device : Device, device 0 = image →
    ∃ fs, (tryOpen build).run device = .ok fs device ∧
      fs.groupDescs.length = (readSuperBlock image).blockGroupCount ∧
      ∀ group < (readSuperBlock image).blockGroupCount,
        fs.groupDescs[group]?.map (·.addresses fs.is64bit) =
          some (formatAddresses (descriptorBytes device (readSuperBlock image) group))

theorem toNat_uint32_uint {size : Nat} (buffer : Bytes size) (offset : Nat) :
    (UInt32.ofNat (buffer.uint offset 4)).toNat = buffer.uint offset 4 := by
  rw [UInt32.toNat_ofNat']
  exact Nat.mod_eq_of_lt (Bytes.uint_lt _ _ _)

section Descriptors

variable {superblock : MountSuperBlock}

theorem MountSuperBlock.blockSize_eq (logSize : superblock.sLogBlockSize = 2) :
    superblock.blockSize = blockSz := by
  rw [Ext4SuperBlock.blockSize, logSize]
  rfl

theorem MountSuperBlock.descSize_cases
    (sizes : superblock.sDescSize = 32 ∨
      64 ≤ superblock.sDescSize.toNat ∧ superblock.sDescSize.toNat ∣ 4096) :
    superblock.descSize = 32 ∨
      superblock.is64bit = true ∧ 64 ≤ superblock.descSize ∧ superblock.descSize ∣ 4096 := by
  rw [MountSuperBlock.descSize]
  by_cases large : superblock.is64bit = true ∧ superblock.sDescSize.toNat > 32
  · rw [if_pos large]
    rcases sizes with small | ⟨lower, divides⟩
    · rw [small] at large
      exact absurd large.2 (by decide)
    · exact Or.inr ⟨large.1, lower, divides⟩
  · exact Or.inl (if_neg large)

/-- The structure read for a group gives the format's addresses if the high
halves lie inside the descriptor, or are not used. -/
theorem addresses_groupDescOf (device : Device) (group : Nat)
    (halves : superblock.descSize = 32 ∧ superblock.is64bit = false ∨
      superblock.is64bit = true ∧ 64 ≤ superblock.descSize) :
    (groupDescOf device superblock group).addresses superblock.is64bit =
      formatAddresses (descriptorBytes device superblock group) := by
  have low (start : Nat) (inside : start + 4 ≤ 32) :
      (descriptorBytes device superblock group).uint start 4 =
        (device (gdtStartBlock superblock + group / superblock.descsPerBlock)).uint
          (group % superblock.descsPerBlock * superblock.descSize + start) 4 :=
    Bytes.uint_extract _ (by omega)
  rcases halves with ⟨size, narrow⟩ | ⟨wide, size⟩
  · simp only [Ext4GroupDesc.addresses, Ext4GroupDesc.blockBitmap, Ext4GroupDesc.inodeBitmap,
      Ext4GroupDesc.inodeTable, Ext4GroupDesc.address, narrow, groupDescOf, readGroupDesc,
      formatAddresses, toNat_uint32_uint, size]
    simp only [Nat.le_refl, if_true, Bool.false_eq_true, if_false]
    rw [low 0 (by omega), low 4 (by omega), low 8 (by omega), size]
  · have high (start : Nat) (inside : start + 4 ≤ 64) :
        (descriptorBytes device superblock group).uint start 4 =
          (device (gdtStartBlock superblock + group / superblock.descsPerBlock)).uint
            (group % superblock.descsPerBlock * superblock.descSize + start) 4 :=
      Bytes.uint_extract _ (by omega)
    have notSmall : ¬ superblock.descSize ≤ 32 := by omega
    simp only [Ext4GroupDesc.addresses, Ext4GroupDesc.blockBitmap, Ext4GroupDesc.inodeBitmap,
      Ext4GroupDesc.inodeTable, Ext4GroupDesc.address, wide, groupDescOf, readGroupDesc,
      formatAddresses, toNat_uint32_uint, notSmall, if_false, if_true]
    rw [high 0 (by omega), high 4 (by omega), high 8 (by omega), high 0x20 (by omega),
      high 0x24 (by omega), high 0x28 (by omega)]

theorem MountSuperBlock.descsFit_of_wide (blockSize : superblock.blockSize = blockSz)
    (size : 64 ≤ superblock.descSize) (divides : superblock.descSize ∣ 4096) :
    superblock.DescsFit := by
  have whole : superblock.descsPerBlock * superblock.descSize = blockSz := by
    rw [MountSuperBlock.descsPerBlock, blockSize]
    exact Nat.div_mul_cancel divides
  have positive : superblock.descsPerBlock ≠ 0 := by
    intro zero
    rw [zero, Nat.zero_mul] at whole
    exact absurd whole (by decide)
  apply (MountSuperBlock.descsFit_iff _).mpr
  intro group _
  have remainderLt := Nat.mod_lt group (Nat.pos_of_ne_zero positive)
  have next := Nat.mul_le_mul_right superblock.descSize remainderLt
  rw [Nat.succ_mul, whole] at next
  exact ⟨positive, by rw [groupDescStructSize]; omega⟩

theorem MountSuperBlock.descsFit_narrow (blockSize : superblock.blockSize = blockSz)
    (size : superblock.descSize = 32) :
    superblock.DescsFit ↔ superblock.blockGroupCount ≤ 127 := by
  have perBlock : superblock.descsPerBlock = 128 := by
    rw [MountSuperBlock.descsPerBlock, blockSize, size]
    rfl
  simp only [MountSuperBlock.DescsFit, perBlock, size, groupDescStructSize, blockSz]
  omega

end Descriptors

def onesBlock : Block := Bytes.filled 255

theorem get_onesBlock {index : Nat} (inside : index < blockSz) : onesBlock.get index = 255 :=
  Bytes.get_filled 255 inside

/-- A device whose blocks other than block 0 hold ones only. -/
def onesBehind (image : Block) : Device :=
  Function.update (fun _ => onesBlock) 0 image

theorem onesBehind_zero (image : Block) : onesBehind image 0 = image :=
  Function.update_self _ _ _

theorem uint_onesBehind (image : Block) {blockId offset : Nat} (behind : blockId ≠ 0)
    (inside : offset + 4 ≤ blockSz) : (onesBehind image blockId).uint offset 4 = 2 ^ 32 - 1 := by
  have ones (index : Nat) (indexLt : index < 4) :
      (onesBehind image blockId).get (offset + index) = 255 := by
    rw [onesBehind, Function.update_of_ne behind, get_onesBlock (by omega)]
  rw [Bytes.uint, leValue_congr ones]
  rfl

/-- With 32-byte descriptors and the 64-bit flag, the high half of the first
group's addresses comes from the descriptor behind it. -/
theorem addresses_onesBehind_ne (image : Block)
    (logSize : (readSuperBlock image).sLogBlockSize = 2)
    (narrow : (readSuperBlock image).descSize = 32) :
    (groupDescOf (onesBehind image) (readSuperBlock image) 0).addresses true ≠
      formatAddresses (descriptorBytes (onesBehind image) (readSuperBlock image) 0) := by
  intro same
  have start : gdtStartBlock (readSuperBlock image) = 1 := by
    rw [gdtStartBlock, MountSuperBlock.blockSize_eq logSize]
    rfl
  have sameBitmap := congrArg DescAddresses.blockBitmap same
  have low : (descriptorBytes (onesBehind image) (readSuperBlock image) 0).uint 0 4 =
      2 ^ 32 - 1 := by
    rw [descriptorBytes, Bytes.uint_extract _ (by omega), start, narrow]
    exact uint_onesBehind image (by simp) (by simp [blockSz])
  simp only [Ext4GroupDesc.addresses, Ext4GroupDesc.blockBitmap, Ext4GroupDesc.address,
    groupDescOf, readGroupDesc, formatAddresses, toNat_uint32_uint, narrow, start, if_true,
    Nat.le_refl] at sameBitmap
  rw [uint_onesBehind image (by simp) (by simp [blockSz]),
    uint_onesBehind image (by simp) (by simp [blockSz])] at sameBitmap
  omega

theorem run_tryOpen_ok {build : Build} {device : Device}
    (valid : (readSuperBlock (device 0)).isValid = true)
    (logSize : (readSuperBlock (device 0)).sLogBlockSize = 2)
    (counts : build.overflowChecks = true → (readSuperBlock (device 0)).CountsInWord)
    (groups : (readSuperBlock (device 0)).blocksPerGroup ≠ 0)
    (fit : (readSuperBlock (device 0)).DescsFit) :
    (tryOpen build).run device = .ok (openedFileSystem device) device := by
  rw [run_tryOpen, if_neg (by simp [valid]), if_pos (by simp [logSize]),
    if_neg (by simp [MountSuperBlock.blockSize_eq logSize]), if_pos ⟨counts, groups, fit⟩]

/-- Descriptors are decoded from their own bytes exactly if the group count is
computed without a panic and 32-byte descriptors come in fewer than 128 groups
without the 64-bit flag. -/
theorem decodesOwnDescriptors_iff (build : Build) (image : Block)
    (valid : (readSuperBlock image).isValid = true)
    (logSize : (readSuperBlock image).sLogBlockSize = 2)
    (groups : (readSuperBlock image).blocksPerGroup ≠ 0)
    (sizes : (readSuperBlock image).sDescSize = 32 ∨
      64 ≤ (readSuperBlock image).sDescSize.toNat ∧
        (readSuperBlock image).sDescSize.toNat ∣ 4096) :
    DecodesOwnDescriptors build image ↔
      (build.overflowChecks = true → (readSuperBlock image).CountsInWord) ∧
        ((readSuperBlock image).descSize = 32 →
          (readSuperBlock image).blockGroupCount = 0 ∨
            (readSuperBlock image).blockGroupCount ≤ 127 ∧
              (readSuperBlock image).is64bit = false) := by
  have blockSize := MountSuperBlock.blockSize_eq logSize
  constructor
  · intro decodes
    obtain ⟨fs, opened, -, own⟩ := decodes (onesBehind image) (onesBehind_zero image)
    rw [run_tryOpen, onesBehind_zero, if_neg (by simp [valid]), if_pos (by simp [logSize]),
      if_neg (by simp [blockSize])] at opened
    split at opened
    · rename_i conditions
      obtain ⟨counts, -, fit⟩ := conditions
      refine ⟨counts, ?_⟩
      intro narrow
      have few := (MountSuperBlock.descsFit_narrow blockSize narrow).mp fit
      by_cases none : (readSuperBlock image).blockGroupCount = 0
      · exact Or.inl none
      refine Or.inr ⟨few, ?_⟩
      by_contra wide
      have flag : (readSuperBlock image).is64bit = true := by simpa using wide
      obtain ⟨rfl, -⟩ := Outcome.ok.inj opened
      have first := own 0 (by omega)
      simp only [openedFileSystem, onesBehind_zero, List.getElem?_map,
        List.getElem?_range (Nat.pos_of_ne_zero none), Option.map_some, flag] at first
      exact addresses_onesBehind_ne image logSize narrow (Option.some.inj first)
    · simp at opened
  · rintro ⟨counts, narrowCase⟩ device sameImage
    subst sameImage
    have fit : (readSuperBlock (device 0)).DescsFit := by
      rcases MountSuperBlock.descSize_cases sizes with narrow | ⟨_, size, divides⟩
      · rw [MountSuperBlock.descsFit_narrow blockSize narrow]
        have few := narrowCase narrow
        omega
      · exact MountSuperBlock.descsFit_of_wide blockSize size divides
    refine ⟨openedFileSystem device, run_tryOpen_ok valid logSize counts groups fit,
      by simp [openedFileSystem], ?_⟩
    intro group groupLt
    have halves : (readSuperBlock (device 0)).descSize = 32 ∧
          (readSuperBlock (device 0)).is64bit = false ∨
        (readSuperBlock (device 0)).is64bit = true ∧
          64 ≤ (readSuperBlock (device 0)).descSize := by
      rcases MountSuperBlock.descSize_cases sizes with narrow | ⟨wide, size, _⟩
      · rcases narrowCase narrow with none | ⟨_, flag⟩
        · omega
        · exact Or.inl ⟨narrow, flag⟩
      · exact Or.inr ⟨wide, size⟩
    rw [← addresses_groupDescOf device group halves]
    simp [openedFileSystem, groupLt]

/-- One group of 1000 blocks with 32-byte descriptors. -/
def oneGroupImage : Block :=
  superBlockImage [(0x38, 2, 0xEF53), (0x18, 4, 2), (0x20, 4, 32768), (0x04, 4, 1000),
    (0xFE, 2, 32)]

theorem decodesOwnDescriptors_oneGroup :
    DecodesOwnDescriptors ⟨true⟩ oneGroupImage :=
  (decodesOwnDescriptors_iff ⟨true⟩ oneGroupImage (by decide) (by decide)
    (by decide) (Or.inl (by decide))).mpr (by decide)

/-- 128 groups with 32-byte descriptors. -/
def manyGroupsImage : Block :=
  superBlockImage [(0x38, 2, 0xEF53), (0x18, 4, 2), (0x20, 4, 32768), (0x04, 4, 128 * 32768),
    (0xFE, 2, 32)]

/-- The structure of the last descriptor of a block ends past the block. -/
theorem not_decodesOwnDescriptors_manyGroups :
    (readSuperBlock manyGroupsImage).isValid = true ∧
      (readSuperBlock manyGroupsImage).sLogBlockSize = 2 ∧
      (readSuperBlock manyGroupsImage).blocksPerGroup ≠ 0 ∧
      (readSuperBlock manyGroupsImage).sDescSize = 32 ∧
      ¬ DecodesOwnDescriptors ⟨false⟩ manyGroupsImage := by
  refine ⟨by decide, by decide, by decide, by decide, ?_⟩
  intro decodes
  obtain ⟨fs, opened, -⟩ := decodes (onesBehind manyGroupsImage) (onesBehind_zero _)
  have crashed : (tryOpen ⟨false⟩).run (onesBehind manyGroupsImage) = .panic := by
    rw [run_tryOpen, onesBehind_zero, if_neg (by decide), if_pos (by decide),
      if_neg (by decide), if_neg (by decide)]
  rw [crashed] at opened
  cases opened

/-- The same mounted file system up to the cursors of the allocators. -/
structure Ext4FileSystem.SameMount (fs other : Ext4FileSystem) : Prop where
  superblock : other.superblock = fs.superblock
  groupDescs : other.groupDescs = fs.groupDescs
  is64bit : other.is64bit = fs.is64bit

/-- No division by zero and no index out of range in the calls that compute
with the superblock. -/
structure Volume.FaultFree (volume : Volume) : Prop where
  getInodePos : ∀ inodeNum < 2 ^ 32, volume.fs.IsInode inodeNum →
    volume.fs.getInodePos inodeNum ≠ none
  allocBlock : allocBlock.run volume ≠ .panic
  allocInode : allocInode.run volume ≠ .panic

/-- In every build, every device with this block 0 is opened or rejected, and
an opened one has no faults, whatever its blocks and cursors become. -/
def MountsSafely (image : Block) : Prop :=
  ∀ (build : Build) (device : Device), device 0 = image →
    (tryOpen build).run device ≠ .panic ∧
      ∀ fs after, (tryOpen build).run device = .ok fs after →
        ∀ volume : Volume, fs.SameMount volume.fs → volume.FaultFree

namespace MountSuperBlock

/-- The fields that are used without a check are in range. -/
structure InRange (superblock : MountSuperBlock) : Prop where
  blocksPerGroup : superblock.blocksPerGroup ≠ 0
  counts : superblock.CountsInWord
  descs : superblock.DescsFit
  inodesPerGroup : superblock.inodesPerGroup ≠ 0
  inodeSize : superblock.blockGroupCount ≠ 0 →
    1 ≤ superblock.inodeSize ∧ superblock.inodeSize ≤ blockSz
  inodeBits : superblock.blockGroupCount ≠ 0 → superblock.inodesPerGroup ≤ 32768
  blockBits : superblock.blockGroupCount ≠ 0 →
    min (superblock.blocksCount - superblock.firstDataBlock) superblock.blocksPerGroup ≤ 32768

theorem blockSize_eq_iff {superblock : MountSuperBlock}
    (shift : superblock.sLogBlockSize.toNat < 64) :
    superblock.blockSize = blockSz ↔ superblock.sLogBlockSize = 2 := by
  have shifted : ∀ distance < 64,
      ((1024 <<< (distance % 64)) % 2 ^ 64 = blockSz ↔ distance = 2) := by decide
  rw [Ext4SuperBlock.blockSize, shifted _ shift, ← UInt32.toNat_inj]
  rfl

end MountSuperBlock

/-- A search that stays inside the bitmaps returns. -/
theorem searchBothPasses_returns (bitmapBlock : Nat → Option Nat) (totalBits : Nat → Nat)
    (inRange : Nat → Bool) (groups startGroup startLocal : Nat) (volume : Volume)
    (listed : ∀ group < groups, ∃ blockId, bitmapBlock group = some blockId)
    (fits : ∀ group < groups, totalBits group ≤ 32768) :
    ∃ found after, (searchBothPasses bitmapBlock totalBits inRange groups startGroup
      startLocal).run volume = .ok found after := by
  have inFirst : ∀ group ∈ (List.range' startGroup (groups - startGroup)).takeWhile inRange,
      group < groups := by
    intro group groupMem
    have bounds := List.mem_range'_1.mp (List.takeWhile_subset _ groupMem)
    omega
  have inSecond : ∀ group ∈ (List.range (min startGroup groups)).takeWhile inRange,
      group < groups := by
    intro group groupMem
    have bound := List.mem_range.mp (List.takeWhile_subset _ groupMem)
    omega
  unfold searchBothPasses
  rcases searchGroups_spec bitmapBlock
    (fun group => if group = startGroup then startLocal else 0) totalBits _ volume
    (fun group groupMem => listed group (inFirst group groupMem))
    (fun group groupMem => fits group (inFirst group groupMem)) with
    ⟨first, -⟩ | ⟨group, -, index, -, -, first⟩
  · rw [run_bind_ok first]
    rcases searchGroups_spec bitmapBlock (fun _ => 0) totalBits _ volume
      (fun group groupMem => listed group (inSecond group groupMem))
      (fun group groupMem => fits group (inSecond group groupMem)) with
      ⟨second, -⟩ | ⟨group, -, index, -, -, second⟩
    · exact ⟨_, _, second⟩
    · exact ⟨_, _, second⟩
  · rw [run_bind_ok first]
    exact ⟨_, _, rfl⟩

theorem bitmapOf_listed (volume : Volume) (resource : Resource) :
    ∀ group < volume.fs.groupDescs.length,
      ∃ blockId, volume.bitmapOf resource group = some blockId :=
  fun _ groupLt => ⟨_, Volume.bitmapOf_eq_some groupLt⟩

theorem allocInode_returns {volume : Volume} (positive : volume.fs.superblock.inodesPerGroup ≠ 0)
    (fits : volume.fs.groupDescs ≠ [] → volume.fs.superblock.inodesPerGroup ≤ 32768) :
    ∃ result after, allocInode.run volume = .ok result after := by
  obtain ⟨found, after, ran⟩ := searchBothPasses_returns volume.inodeBitmapOf
    (fun _ => volume.fs.superblock.inodesPerGroup) (fun _ => true)
    volume.fs.groupDescs.length
    ((max volume.fs.nextAllocInode 1 - 1) / volume.fs.superblock.inodesPerGroup)
    ((max volume.fs.nextAllocInode 1 - 1) % volume.fs.superblock.inodesPerGroup) volume
    (bitmapOf_listed volume .inode)
    (fun group groupLt => fits (List.ne_nil_of_length_pos (by omega)))
  rw [allocInode, run_bind_ok (run_get _), run_bind_ok (run_check positive _), run_bind_ok ran]
  rcases found with _ | ⟨group, bit⟩ <;> exact ⟨_, _, rfl⟩

theorem allocBlock_returns {volume : Volume} (positive : volume.fs.superblock.blocksPerGroup ≠ 0)
    (fits : volume.fs.groupDescs ≠ [] →
      min (volume.fs.superblock.blocksCount - volume.fs.superblock.firstDataBlock)
        volume.fs.superblock.blocksPerGroup ≤ 32768) :
    ∃ result after, allocBlock.run volume = .ok result after := by
  obtain ⟨found, after, ran⟩ := searchBothPasses_returns volume.blockBitmapOf
    (fun group => min (volume.fs.superblock.blocksCount - (volume.fs.superblock.firstDataBlock +
      group * volume.fs.superblock.blocksPerGroup)) volume.fs.superblock.blocksPerGroup)
    (fun group => volume.fs.superblock.firstDataBlock +
      group * volume.fs.superblock.blocksPerGroup < volume.fs.superblock.blocksCount)
    volume.fs.groupDescs.length
    ((max volume.fs.nextAllocBlock volume.fs.superblock.firstDataBlock -
      volume.fs.superblock.firstDataBlock) / volume.fs.superblock.blocksPerGroup)
    ((max volume.fs.nextAllocBlock volume.fs.superblock.firstDataBlock -
      volume.fs.superblock.firstDataBlock) % volume.fs.superblock.blocksPerGroup) volume
    (bitmapOf_listed volume .block)
    (by
      intro group groupLt
      have first := fits (List.ne_nil_of_length_pos (by omega))
      omega)
  rw [allocBlock, run_bind_ok (run_get _), run_bind_ok (run_check positive _), run_bind_ok ran]
  rcases found with _ | ⟨group, bit⟩ <;> exact ⟨_, _, rfl⟩

/-! A search for more bits than a block has runs off a bitmap of ones. -/

theorem testBit_onesBlock {index : Nat} (inside : index < 32768) :
    onesBlock.testBit index = true := by
  have bits : ∀ position < 8, Nat.testBit 255 position = true := by decide
  rw [Bytes.testBit, get_onesBlock (by simp only [blockSz]; omega)]
  exact bits _ (Nat.mod_lt _ (by omega))

theorem findClearBit_onesBlock (count bit : Nat) (positive : 1 ≤ count)
    (beyond : 32768 < bit + count) : findClearBit onesBlock count bit = none := by
  induction count generalizing bit with
  | zero => omega
  | succ count ih =>
      rw [findClearBit]
      by_cases inside : bit < 32768
      · rw [if_pos (by simp only [blockSz]; omega), if_neg, ih (bit + 1) (by omega) (by omega)]
        rw [Bytes.mask_eq_zero_iff, testBit_onesBlock inside]
        exact Bool.noConfusion
      · rw [if_neg (by simp only [blockSz]; omega)]

theorem findAndAllocBitFrom_onesBlock {startBit totalBits : Nat} (startLt : startBit < totalBits)
    (beyond : 32768 < totalBits) : findAndAllocBitFrom onesBlock startBit totalBits = none := by
  simp only [findAndAllocBitFrom]
  rw [if_neg (by omega), Nat.min_eq_left (by omega),
    findClearBit_onesBlock _ _ (by omega) (by omega)]
  rfl

theorem searchGroups_onesBlock {bitmapBlock : Nat → Option Nat} {startBit totalBits : Nat → Nat}
    {group blockId : Nat} {groups : List Nat} {volume : Volume}
    (found : bitmapBlock group = some blockId) (ones : volume.disk blockId = onesBlock)
    (startLt : startBit group < totalBits group) (beyond : 32768 < totalBits group) :
    (searchGroups bitmapBlock startBit totalBits (group :: groups)).run volume = .panic := by
  rw [searchGroups, found, run_bind_ok (run_expect_some _ _), run_bind_ok (run_readBlock _ _),
    ones, findAndAllocBitFrom_onesBlock startLt beyond]
  rfl

/-- The first pass runs off the bitmap of the group under the cursor. -/
theorem searchBothPasses_onesBlock {bitmapBlock : Nat → Option Nat} {totalBits : Nat → Nat}
    {inRange : Nat → Bool} {groups startGroup startLocal : Nat} {volume : Volume}
    (listed : ∀ group < groups, ∃ blockId, bitmapBlock group = some blockId)
    (ones : ∀ blockId, volume.disk blockId = onesBlock) (before : startGroup < groups)
    (visited : inRange startGroup = true) (startLt : startLocal < totalBits startGroup)
    (beyond : 32768 < totalBits startGroup) :
    (searchBothPasses bitmapBlock totalBits inRange groups startGroup startLocal).run volume =
      .panic := by
  obtain ⟨blockId, found⟩ := listed startGroup before
  obtain ⟨rest, firstPass⟩ : ∃ rest,
      (List.range' startGroup (groups - startGroup)).takeWhile inRange = startGroup :: rest := by
    rw [show groups - startGroup = (groups - startGroup - 1) + 1 by omega, List.range'_succ,
      List.takeWhile_cons_of_pos visited]
    exact ⟨_, rfl⟩
  unfold searchBothPasses
  rw [firstPass]
  exact run_bind_panic (searchGroups_onesBlock found (ones blockId) (by simpa using startLt)
    beyond)

/-- With the cursor behind all groups, the second pass starts with group 0. -/
theorem searchBothPasses_onesBlock_behind {bitmapBlock : Nat → Option Nat}
    {totalBits : Nat → Nat} {inRange : Nat → Bool} {groups startGroup startLocal : Nat}
    {volume : Volume} (listed : ∀ group < groups, ∃ blockId, bitmapBlock group = some blockId)
    (ones : ∀ blockId, volume.disk blockId = onesBlock) (positive : 0 < groups)
    (behind : groups ≤ startGroup) (visited : inRange 0 = true)
    (beyond : 32768 < totalBits 0) :
    (searchBothPasses bitmapBlock totalBits inRange groups startGroup startLocal).run volume =
      .panic := by
  obtain ⟨blockId, found⟩ := listed 0 positive
  obtain ⟨rest, secondPass⟩ : ∃ rest,
      (List.range (min startGroup groups)).takeWhile inRange = 0 :: rest := by
    rw [show min startGroup groups = (groups - 1) + 1 by omega, List.range_succ_eq_map,
      List.takeWhile_cons_of_pos visited]
    exact ⟨_, rfl⟩
  have firstPass : (searchGroups bitmapBlock
      (fun group => if group = startGroup then startLocal else 0) totalBits []).run volume =
        .ok none volume := rfl
  unfold searchBothPasses
  rw [show groups - startGroup = 0 by omega, List.range'_zero, List.takeWhile_nil, secondPass,
    run_bind_ok firstPass]
  exact searchGroups_onesBlock found (ones blockId) (Nat.zero_lt_of_lt beyond) beyond

theorem allocInode_onesBlock {volume : Volume}
    (ones : ∀ blockId, volume.disk blockId = onesBlock) (groups : volume.fs.groupDescs ≠ [])
    (beyond : 32768 < volume.fs.superblock.inodesPerGroup) :
    allocInode.run volume = .panic := by
  have positive : volume.fs.superblock.inodesPerGroup ≠ 0 := by omega
  have startLt := Nat.mod_lt (max volume.fs.nextAllocInode 1 - 1) (Nat.pos_of_ne_zero positive)
  rw [allocInode, run_bind_ok (run_get _), run_bind_ok (run_check positive _)]
  apply run_bind_panic
  by_cases before : (max volume.fs.nextAllocInode 1 - 1) /
      volume.fs.superblock.inodesPerGroup < volume.fs.groupDescs.length
  · exact searchBothPasses_onesBlock (bitmapOf_listed volume .inode) ones before rfl startLt
      beyond
  · exact searchBothPasses_onesBlock_behind (bitmapOf_listed volume .inode) ones
      (List.length_pos_of_ne_nil groups) (Nat.le_of_not_lt before) rfl beyond

theorem allocBlock_onesBlock {volume : Volume}
    (ones : ∀ blockId, volume.disk blockId = onesBlock) (groups : volume.fs.groupDescs ≠ [])
    (cursor : volume.fs.nextAllocBlock = volume.fs.superblock.firstDataBlock)
    (beyond : 32768 < min (volume.fs.superblock.blocksCount - volume.fs.superblock.firstDataBlock)
      volume.fs.superblock.blocksPerGroup) :
    allocBlock.run volume = .panic := by
  have positive : volume.fs.superblock.blocksPerGroup ≠ 0 := by omega
  have atStart : max volume.fs.nextAllocBlock volume.fs.superblock.firstDataBlock -
      volume.fs.superblock.firstDataBlock = 0 := by omega
  rw [allocBlock, run_bind_ok (run_get _), run_bind_ok (run_check positive _)]
  apply run_bind_panic
  rw [atStart, Nat.zero_div, Nat.zero_mod]
  apply searchBothPasses_onesBlock (bitmapOf_listed volume .block) ones
    (List.length_pos_of_ne_nil groups)
  · simp only [Nat.zero_mul, Nat.add_zero, decide_eq_true_eq]
    omega
  · simp only [Nat.zero_mul, Nat.add_zero]
    omega
  · simpa only [Nat.zero_mul, Nat.add_zero] using beyond

theorem Volume.faultFree_of_inRange {device : Device} {volume : Volume}
    (blockSize : (readSuperBlock (device 0)).blockSize = blockSz)
    (ranges : (readSuperBlock (device 0)).InRange)
    (same : (openedFileSystem device).SameMount volume.fs) : volume.FaultFree := by
  have groupCount : volume.fs.groupDescs.length =
      (readSuperBlock (device 0)).blockGroupCount := by
    rw [same.groupDescs]
    simp [openedFileSystem]
  have someGroups (groups : volume.fs.groupDescs ≠ []) :
      (readSuperBlock (device 0)).blockGroupCount ≠ 0 := by
    have positive := List.length_pos_of_ne_nil groups
    omega
  have superblock : volume.fs.superblock = (readSuperBlock (device 0)).toExt4SuperBlock :=
    same.superblock
  refine ⟨?_, ?_, ?_⟩
  · intro inodeNum small isInode
    have groupLt := InodeSlots.group_lt isInode
    have sizes := ranges.inodeSize (someGroups (List.ne_nil_of_length_pos
      (Nat.zero_lt_of_lt groupLt)))
    have perBlock : 1 ≤ volume.fs.superblock.blockSize / volume.fs.superblock.inodeSize := by
      rw [superblock, blockSize]
      exact Nat.div_pos sizes.2 sizes.1
    have positive := InodeSlots.inodesPerGroup_pos isInode
    have sizePositive : volume.fs.superblock.inodeSize ≠ 0 := by
      rw [superblock]
      omega
    have lower := isInode.1
    have index : (inodeNum + 2 ^ 32 - 1) % 2 ^ 32 = inodeNum - 1 := by omega
    simp only [Ext4FileSystem.getInodePos, index]
    rw [if_neg (by omega), List.getElem?_eq_getElem groupLt]
    simp
  · obtain ⟨result, after, ran⟩ := @allocBlock_returns volume
      (by rw [superblock]; exact ranges.blocksPerGroup)
      (fun groups => by rw [superblock]; exact ranges.blockBits (someGroups groups))
    rw [ran]
    simp
  · obtain ⟨result, after, ran⟩ := @allocInode_returns volume
      (by rw [superblock]; exact ranges.inodesPerGroup)
      (fun groups => by rw [superblock]; exact ranges.inodeBits (someGroups groups))
    rw [ran]
    simp

/-- A volume that has no faults over blocks of ones has all fields in range. -/
theorem MountSuperBlock.inRange_of_faultFree {device : Device}
    (blockSize : (readSuperBlock (device 0)).blockSize = blockSz)
    (counts : (readSuperBlock (device 0)).CountsInWord)
    (groups : (readSuperBlock (device 0)).blocksPerGroup ≠ 0)
    (fit : (readSuperBlock (device 0)).DescsFit)
    (faultFree : Volume.FaultFree ⟨openedFileSystem device, fun _ => onesBlock, ∅, ∅⟩) :
    (readSuperBlock (device 0)).InRange := by
  have inodesPositive : (readSuperBlock (device 0)).inodesPerGroup ≠ 0 := by
    intro zero
    apply faultFree.allocInode
    rw [allocInode, run_bind_ok (run_get _)]
    exact run_bind_panic (run_check_panic (fun positive => positive zero) _)
  have opened (someGroup : (readSuperBlock (device 0)).blockGroupCount ≠ 0) :
      (openedFileSystem device).groupDescs ≠ [] := by
    simpa [openedFileSystem] using someGroup
  refine ⟨groups, counts, fit, inodesPositive, ?_, ?_, ?_⟩
  · intro someGroup
    have isInode : (openedFileSystem device).IsInode 1 := by
      have count : (openedFileSystem device).groupDescs.length =
          (readSuperBlock (device 0)).blockGroupCount := by simp [openedFileSystem]
      refine ⟨Nat.le_refl _, ?_⟩
      rw [count]
      exact Nat.mul_pos (Nat.pos_of_ne_zero inodesPositive) (Nat.pos_of_ne_zero someGroup)
    have position := faultFree.getInodePos 1 (by decide) isInode
    by_contra outside
    apply position
    simp only [Ext4FileSystem.getInodePos]
    apply if_pos
    have slots : (openedFileSystem device).superblock.blockSize = blockSz := blockSize
    have outOfRange : ¬ (1 ≤ (openedFileSystem device).superblock.inodeSize ∧
      (openedFileSystem device).superblock.inodeSize ≤ blockSz) := outside
    by_cases zero : (openedFileSystem device).superblock.inodeSize = 0
    · exact Or.inr (Or.inl zero)
    · refine Or.inr (Or.inr ?_)
      rw [slots]
      exact Nat.div_eq_of_lt (by omega)
  · intro someGroup
    by_contra beyond
    exact faultFree.allocInode (allocInode_onesBlock (fun _ => rfl) (opened someGroup)
      (Nat.lt_of_not_le beyond))
  · intro someGroup
    by_contra beyond
    exact faultFree.allocBlock (allocBlock_onesBlock (fun _ => rfl) (opened someGroup) rfl
      (Nat.lt_of_not_le beyond))

/-- Mounting is safe exactly if every field that is used without a check is in
range. -/
theorem mountsSafely_iff (image : Block) :
    MountsSafely image ↔ ((readSuperBlock image).isValid = true →
      (readSuperBlock image).sLogBlockSize.toNat < 64 ∧
        ((readSuperBlock image).sLogBlockSize = 2 → (readSuperBlock image).InRange)) := by
  constructor
  · intro safe valid
    obtain ⟨returns, faultFree⟩ := safe ⟨true⟩ (onesBehind image) (onesBehind_zero image)
    have zero := onesBehind_zero image
    rw [run_tryOpen, zero, if_neg (by simp [valid])] at returns
    have shift : (readSuperBlock image).sLogBlockSize.toNat < 64 := by
      by_contra far
      rw [if_neg (by simpa using far)] at returns
      exact returns rfl
    refine ⟨shift, ?_⟩
    intro logSize
    have blockSize := MountSuperBlock.blockSize_eq logSize
    rw [if_pos (fun _ => shift), if_neg (by simp [blockSize])] at returns
    obtain ⟨counts, groups, fit⟩ := of_not_not fun fails => returns (if_neg fails)
    rw [← zero] at valid logSize counts groups fit blockSize ⊢
    exact MountSuperBlock.inRange_of_faultFree blockSize (counts rfl) groups fit
      (faultFree _ _ (run_tryOpen_ok valid logSize counts groups fit) _ ⟨rfl, rfl, rfl⟩)
  · rintro ranges build device rfl
    rw [run_tryOpen]
    by_cases valid : (readSuperBlock (device 0)).isValid = false
    · rw [if_pos valid]
      simp
    rw [if_neg valid]
    obtain ⟨shift, inRange⟩ := ranges (by simpa using valid)
    rw [if_pos fun _ => shift]
    by_cases blockSize : (readSuperBlock (device 0)).blockSize ≠ blockSz
    · rw [if_pos blockSize]
      simp
    rw [if_neg blockSize]
    have size := of_not_not blockSize
    have fields := inRange ((MountSuperBlock.blockSize_eq_iff shift).mp size)
    rw [if_pos ⟨fun _ => fields.counts, fields.blocksPerGroup, fields.descs⟩]
    refine ⟨by simp, ?_⟩
    rintro fs after opened volume same
    obtain ⟨rfl, -⟩ := Outcome.ok.inj opened
    exact Volume.faultFree_of_inRange size fields same

/-- A superblock with the magic number and the block size only. -/
def blankImage : Block :=
  superBlockImage [(0x38, 2, 0xEF53), (0x18, 4, 2)]

/-- The group count divides by zero blocks per group. -/
theorem not_mountsSafely_blank : ¬ MountsSafely blankImage := by
  intro safe
  apply (safe ⟨false⟩ (onesBehind blankImage) (onesBehind_zero _)).1
  rw [run_tryOpen, onesBehind_zero, if_neg (by decide), if_pos (by decide),
    if_neg (by decide), if_neg (by decide)]

/-- The bytes of an inode's slot. -/
def Volume.inodeSlot (volume : Volume) (inodeNum : Nat) :
    Bytes volume.fs.superblock.inodeSize :=
  (volume.disk (volume.fs.handle inodeNum).blockId).extract
    (volume.fs.handle inodeNum).blockOffset volume.fs.superblock.inodeSize

theorem Volume.putBlock_disk (volume : Volume) (blockId : Nat) (block : Block) :
    (volume.putBlock blockId block).disk = Function.update volume.disk blockId block :=
  rfl

theorem Volume.inodeSlot_putBlock (volume : Volume) (blockId : Nat) (block : Block)
    (inodeNum : Nat) :
    (volume.putBlock blockId block).inodeSlot inodeNum =
      (Function.update volume.disk blockId block (volume.fs.handle inodeNum).blockId).extract
        (volume.fs.handle inodeNum).blockOffset volume.fs.superblock.inodeSize :=
  rfl

/-- Reads and writes of an inode stay in one block, a read returns what was
written, and a write changes neither the slot nor the reading of another inode. -/
def Volume.InodesApart (volume : Volume) : Prop :=
  ∀ inodeNum < 2 ^ 32, volume.fs.IsInode inodeNum → ∀ inode,
    ∃ blockId offset, volume.fs.getInodePos inodeNum = some (blockId, offset) ∧
      offset + inodeStructSize ≤ blockSz ∧
      ∃ block, (writeInode inodeNum inode).run volume =
          .ok () (volume.putBlock blockId block) ∧
        (readInode inodeNum).run (volume.putBlock blockId block) =
          .ok inode (volume.putBlock blockId block) ∧
        ∀ other < 2 ^ 32, volume.fs.IsInode other → other ≠ inodeNum →
          (volume.putBlock blockId block).inodeSlot other = volume.inodeSlot other ∧
          ∃ kept, (readInode other).run volume = .ok kept volume ∧
            (readInode other).run (volume.putBlock blockId block) =
              .ok kept (volume.putBlock blockId block)

section Slots

variable {volume : Volume} (slots : InodeSlots volume.fs) {inodeNum : Nat}
  (isInode : volume.fs.IsInode inodeNum) (small : inodeNum < 2 ^ 32)

include slots isInode small

theorem run_readInode {after : Volume} (sameFs : after.fs = volume.fs)
    (fits : (volume.fs.handle inodeNum).blockOffset + inodeStructSize ≤ blockSz) :
    (readInode inodeNum).run after =
      .ok ((after.disk (volume.fs.handle inodeNum).blockId).extract
        (volume.fs.handle inodeNum).blockOffset inodeStructSize) after := by
  have position := (slots.handle_slot isInode small).1
  have atPosition : (readInodeAt (volume.fs.handle inodeNum).blockId
      (volume.fs.handle inodeNum).blockOffset).run after =
        .ok ((after.disk (volume.fs.handle inodeNum).blockId).extract
          (volume.fs.handle inodeNum).blockOffset inodeStructSize) after := by
    rw [readInodeAt, run_bind_ok (run_readBlock _ _), run_bind_ok (run_check fits _), run_pure]
  rw [readInode, run_bind_ok (run_get _), sameFs, position, run_bind_ok (run_expect_some _ _)]
  exact atPosition

theorem run_writeInode (inode : Ext4Inode)
    (fits : (volume.fs.handle inodeNum).blockOffset + inodeStructSize ≤ blockSz) :
    (writeInode inodeNum inode).run volume =
      .ok () (volume.putBlock (volume.fs.handle inodeNum).blockId
        ((volume.disk (volume.fs.handle inodeNum).blockId).paste
          (volume.fs.handle inodeNum).blockOffset inode)) := by
  have position := (slots.handle_slot isInode small).1
  have atPosition : (writeInodeAt (volume.fs.handle inodeNum).blockId
      (volume.fs.handle inodeNum).blockOffset inode).run volume =
        .ok () (volume.putBlock (volume.fs.handle inodeNum).blockId
          ((volume.disk (volume.fs.handle inodeNum).blockId).paste
            (volume.fs.handle inodeNum).blockOffset inode)) := by
    rw [writeInodeAt, run_bind_ok (run_readBlock _ _), run_bind_ok (run_check fits _),
      run_writeBlock]
  rw [writeInode, run_bind_ok (run_get _), position, run_bind_ok (run_expect_some _ _)]
  exact atPosition

end Slots

/-- Inodes are apart if their structures do not overlap. -/
theorem Volume.inodesApart_of_structures {volume : Volume} (slots : InodeSlots volume.fs)
    (fits : ∀ inodeNum < 2 ^ 32, volume.fs.IsInode inodeNum →
      (volume.fs.handle inodeNum).blockOffset + inodeStructSize ≤ blockSz)
    (apart : ∀ first < 2 ^ 32, ∀ second < 2 ^ 32, volume.fs.IsInode first →
      volume.fs.IsInode second → first ≠ second →
      (volume.fs.handle first).blockId = (volume.fs.handle second).blockId →
      (volume.fs.handle first).blockOffset +
          max inodeStructSize volume.fs.superblock.inodeSize ≤
            (volume.fs.handle second).blockOffset ∨
        (volume.fs.handle second).blockOffset + inodeStructSize ≤
          (volume.fs.handle first).blockOffset) :
    volume.InodesApart := by
  intro inodeNum small isInode inode
  have inside := fits inodeNum small isInode
  have wrote := run_writeInode slots isInode small inode inside
  have image := Bytes.extract_paste (volume.disk (volume.fs.handle inodeNum).blockId) inode inside
  have frame {start width : Nat}
      (outside : start + width ≤ (volume.fs.handle inodeNum).blockOffset ∨
        (volume.fs.handle inodeNum).blockOffset + inodeStructSize ≤ start) :=
    Bytes.extract_overlay_outside (volume.disk (volume.fs.handle inodeNum).blockId) inode.get
      outside
  rw [← Bytes.paste] at frame
  generalize (volume.disk (volume.fs.handle inodeNum).blockId).paste
    (volume.fs.handle inodeNum).blockOffset inode = block at wrote image frame
  refine ⟨_, _, (slots.handle_slot isInode small).1, inside, block, wrote, ?_, ?_⟩
  · rw [run_readInode slots isInode small (Volume.putBlock_fs volume _ _) inside,
      Volume.putBlock_disk, Function.update_self, image]
  · intro other otherSmall isOther different
    have otherFits := fits other otherSmall isOther
    have kept {width : Nat}
        (narrow : width ≤ max inodeStructSize volume.fs.superblock.inodeSize) :
        (Function.update volume.disk (volume.fs.handle inodeNum).blockId block
          (volume.fs.handle other).blockId).extract (volume.fs.handle other).blockOffset width =
        (volume.disk (volume.fs.handle other).blockId).extract
          (volume.fs.handle other).blockOffset width := by
      by_cases sameBlock : (volume.fs.handle other).blockId = (volume.fs.handle inodeNum).blockId
      · have outside := apart other otherSmall inodeNum small isOther isInode different sameBlock
        rw [sameBlock, Function.update_self]
        exact frame (by omega)
      · rw [Function.update_of_ne sameBlock]
    refine ⟨?_, _, run_readInode slots isOther otherSmall rfl otherFits, ?_⟩
    · rw [Volume.inodeSlot_putBlock, kept (Nat.le_max_right _ _), Volume.inodeSlot]
    · rw [run_readInode slots isOther otherSmall (Volume.putBlock_fs volume _ _) otherFits,
        Volume.putBlock_disk, kept (Nat.le_max_left _ _)]

/-- Writing the first of two 128-byte inodes changes the slot of the second. -/
theorem Volume.not_inodesApart_of_small {volume : Volume} (slots : InodeSlots volume.fs)
    (size : volume.fs.superblock.inodeSize = 128) (two : 2 ≤ volume.fs.superblock.inodesPerGroup)
    (groups : volume.fs.groupDescs ≠ []) : ¬ volume.InodesApart := by
  intro apart
  have many : 2 ≤ volume.fs.superblock.inodesPerGroup * volume.fs.groupDescs.length :=
    Nat.le_trans two (Nat.le_mul_of_pos_right _ (List.length_pos_of_ne_nil groups))
  have isFirst : volume.fs.IsInode 1 := ⟨Nat.le_refl _, by omega⟩
  have isSecond : volume.fs.IsInode 2 := ⟨by omega, many⟩
  have perBlock : volume.fs.inodesPerBlock = 32 := by
    rw [Ext4FileSystem.inodesPerBlock, slots.blockSize, size]
    rfl
  obtain ⟨desc, firstFound, firstPosition⟩ := slots.getInodePos_eq isFirst (by decide)
  obtain ⟨secondDesc, secondFound, secondPosition⟩ := slots.getInodePos_eq isSecond (by decide)
  rw [Nat.sub_self, Nat.zero_div] at firstFound
  rw [show 2 - 1 = 1 by rfl, Nat.div_eq_of_lt (by omega), firstFound] at secondFound
  obtain rfl := Option.some.inj secondFound
  have first : volume.fs.handle 1 = ⟨1, desc.inodeTable volume.fs.is64bit, 0⟩ := by
    rw [Ext4FileSystem.handle, firstPosition, perBlock]
    simp
  have second : volume.fs.handle 2 = ⟨2, desc.inodeTable volume.fs.is64bit, 128⟩ := by
    rw [Ext4FileSystem.handle, secondPosition, perBlock, size]
    simp [Nat.mod_eq_of_lt (show 1 < volume.fs.superblock.inodesPerGroup by omega)]
  have fits : (volume.fs.handle 1).blockOffset + inodeStructSize ≤ blockSz := by
    simp [first, inodeStructSize, blockSz]
  generalize desc.inodeTable volume.fs.is64bit = table at first second
  -- All bytes of the written image differ from the first byte of the second slot.
  obtain ⟨blockId, offset, -, -, block, wrote, -, frame⟩ := apart 1 (by decide) isFirst
    (Bytes.filled ((volume.disk table).get 128 + 1))
  have kept : (Function.update volume.disk blockId block (volume.fs.handle 2).blockId).extract
      (volume.fs.handle 2).blockOffset volume.fs.superblock.inodeSize =
        (volume.disk (volume.fs.handle 2).blockId).extract (volume.fs.handle 2).blockOffset
          volume.fs.superblock.inodeSize :=
    (frame 2 (by decide) isSecond (by decide)).1
  rw [run_writeInode slots isFirst (by decide) _ fits, first] at wrote
  have after : Function.update volume.disk blockId block table =
      (volume.disk table).paste 0 (Bytes.filled ((volume.disk table).get 128 + 1) :
        Ext4Inode) := by
    rw [← Volume.putBlock_disk, ← (Outcome.ok.inj wrote).2, Volume.putBlock_disk,
      Function.update_self]
  have sameByte := congrArg (fun slot => Bytes.get slot 0) kept
  simp only [second] at sameByte
  rw [Bytes.get_extract _ (by omega), Bytes.get_extract _ (by omega), after, Bytes.paste, Bytes.get_overlay_inside _ _ (by omega) (by decide) (by decide),
    Bytes.get_filled _ (by decide)] at sameByte
  exact absurd sameByte (by simp)

theorem InodeSlots.of_opened {device : Device} {volume : Volume}
    (blockSize : (readSuperBlock (device 0)).blockSize = blockSz)
    (same : (openedFileSystem device).SameMount volume.fs)
    (size : 1 ≤ (openedFileSystem device).superblock.inodeSize ∧
      (openedFileSystem device).superblock.inodeSize ≤ blockSz)
    (apart : ∀ first second blockId, (openedFileSystem device).InTable first blockId →
      (openedFileSystem device).InTable second blockId → first = second) :
    InodeSlots volume.fs where
  blockSize := by
    rw [same.superblock]
    exact blockSize
  inodeSize := by
    rw [same.superblock]
    exact size
  apart := by
    simpa only [Ext4FileSystem.InTable, Ext4FileSystem.inodesPerBlock, same.superblock,
      same.groupDescs, same.is64bit] using apart

/-- A volume of an opened file system. -/
theorem of_run_tryOpen_ok {build : Build} {device after : Device} {fs : Ext4FileSystem}
    (opened : (tryOpen build).run device = .ok fs after) :
    fs = openedFileSystem device ∧ (readSuperBlock (device 0)).blockSize = blockSz := by
  rw [run_tryOpen] at opened
  by_cases invalid : (readSuperBlock (device 0)).isValid = false
  · rw [if_pos invalid] at opened
    cases opened
  rw [if_neg invalid] at opened
  by_cases shift : build.overflowChecks = true →
      (readSuperBlock (device 0)).sLogBlockSize.toNat < 64
  · rw [if_pos shift] at opened
    by_cases size : (readSuperBlock (device 0)).blockSize ≠ blockSz
    · rw [if_pos size] at opened
      cases opened
    · rw [if_neg size] at opened
      split at opened
      · exact ⟨(Outcome.ok.inj opened).1.symm, of_not_not size⟩
      · cases opened
  · rw [if_neg shift] at opened
    cases opened

/-- The inodes of an opened file system are apart exactly if the slots have
room for the 256-byte structure or no group has a second inode. -/
theorem inodesApart_iff {build : Build} {device after : Device} {fs : Ext4FileSystem}
    {volume : Volume} (opened : (tryOpen build).run device = .ok fs after)
    (same : fs.SameMount volume.fs)
    (size : ∃ power, 7 ≤ power ∧ power ≤ 12 ∧ fs.superblock.inodeSize = 2 ^ power)
    (tablesApart : ∀ first second blockId, fs.InTable first blockId →
      fs.InTable second blockId → first = second) :
    volume.InodesApart ↔ 256 ≤ fs.superblock.inodeSize ∨ fs.superblock.inodesPerGroup ≤ 1 ∨
      fs.groupDescs = [] := by
  obtain ⟨rfl, blockSize⟩ := of_run_tryOpen_ok opened
  obtain ⟨power, lower, upper, sizeEq⟩ := size
  have bounds : 128 ≤ (openedFileSystem device).superblock.inodeSize ∧
      (openedFileSystem device).superblock.inodeSize ≤ blockSz := by
    rw [sizeEq]
    exact ⟨Nat.pow_le_pow_right (show 0 < 2 by omega) lower,
      Nat.pow_le_pow_right (show 0 < 2 by omega) upper⟩
  have slots := InodeSlots.of_opened blockSize same
    ⟨Nat.le_trans (by omega) bounds.1, bounds.2⟩ tablesApart
  rw [← same.superblock, ← same.groupDescs] at *
  constructor
  · intro apart
    by_contra neither
    simp only [not_or] at neither
    obtain ⟨small, many, groups⟩ := neither
    have exact128 : volume.fs.superblock.inodeSize = 128 := by
      rcases Nat.eq_or_lt_of_le lower with rfl | larger
      · exact sizeEq
      · have wide := Nat.pow_le_pow_right (show 0 < 2 by omega) (Nat.succ_le_of_lt larger)
        omega
    exact Volume.not_inodesApart_of_small slots exact128 (by omega) groups apart
  · rintro (large | single | none)
    · apply Volume.inodesApart_of_structures slots
      · intro inodeNum small isInode
        have inside := (slots.handle_slot isInode small).2
        rw [inodeStructSize]
        omega
      · intro first firstSmall second secondSmall isFirst isSecond different sameBlock
        have apart := slots.handle_apart isFirst isSecond firstSmall secondSmall different
          sameBlock
        rw [inodeStructSize, Nat.max_eq_right large]
        omega
    · -- Every table has one inode, at the start of its block.
      have start {inodeNum : Nat} (small : inodeNum < 2 ^ 32)
          (isInode : volume.fs.IsInode inodeNum) :
          (volume.fs.handle inodeNum).blockOffset = 0 := by
        obtain ⟨desc, -, position⟩ := slots.getInodePos_eq isInode small
        have one : volume.fs.superblock.inodesPerGroup = 1 :=
          Nat.le_antisymm single (InodeSlots.inodesPerGroup_pos isInode)
        simp [Ext4FileSystem.handle, position, one, Nat.mod_one]
      apply Volume.inodesApart_of_structures slots
      · intro inodeNum small isInode
        rw [start small isInode]
        decide
      · intro first firstSmall second secondSmall isFirst isSecond different sameBlock
        have apart := slots.handle_apart isFirst isSecond firstSmall secondSmall different
          sameBlock
        rw [start firstSmall isFirst, start secondSmall isSecond] at apart
        omega
    · intro inodeNum _ isInode
      have groupLt := InodeSlots.group_lt isInode
      rw [none] at groupLt
      exact absurd groupLt (Nat.not_lt_zero _)

/-- A device with one group, whose inode table starts at block 5. -/
def oneTableDevice (image : Block) : Device :=
  Function.update (Function.update (fun _ => Bytes.zeroed) 1 (Bytes.zeroed.putUint 8 4 5)) 0 image

def openedVolume (device : Device) : Volume :=
  ⟨openedFileSystem device, device, ∅, ∅⟩

theorem tablesApart_of_one {fs : Ext4FileSystem} (one : fs.groupDescs.length = 1)
    (first second blockId : Nat) (inFirst : fs.InTable first blockId)
    (inSecond : fs.InTable second blockId) : first = second := by
  obtain ⟨_, firstFound, -⟩ := inFirst
  obtain ⟨_, secondFound, -⟩ := inSecond
  have firstLt := (List.getElem?_eq_some_iff.mp firstFound).1
  have secondLt := (List.getElem?_eq_some_iff.mp secondFound).1
  omega

/-- 64 inodes of 256 bytes. -/
def inodes256Image : Block :=
  superBlockImage [(0x38, 2, 0xEF53), (0x18, 4, 2), (0x20, 4, 32768), (0x04, 4, 1000),
    (0x28, 4, 64), (0x4C, 4, 1), (0x58, 2, 256)]

theorem inodesApart_256 : (openedVolume (oneTableDevice inodes256Image)).InodesApart :=
  (inodesApart_iff (run_tryOpen_ok (by decide) (by decide)
      (fun checks => absurd checks (by decide : ¬ (Build.mk false).overflowChecks = true))
      (by decide) (by decide)) ⟨rfl, rfl, rfl⟩
    ⟨8, by decide, by decide, by decide⟩
    (tablesApart_of_one (by decide))).mpr (Or.inl (by decide))

/-- 64 inodes of revision 0, with 128 bytes. -/
def inodes128Image : Block :=
  superBlockImage [(0x38, 2, 0xEF53), (0x18, 4, 2), (0x20, 4, 32768), (0x04, 4, 1000),
    (0x28, 4, 64)]

/-- The structure written to the slot of inode 1 covers the slot of inode 2. -/
theorem not_inodesApart_128 :
    (tryOpen ⟨false⟩).run (oneTableDevice inodes128Image) =
        .ok (openedFileSystem (oneTableDevice inodes128Image)) (oneTableDevice inodes128Image) ∧
      (openedFileSystem (oneTableDevice inodes128Image)).superblock.inodeSize = 2 ^ 7 ∧
      (∀ first second blockId,
        (openedFileSystem (oneTableDevice inodes128Image)).InTable first blockId →
        (openedFileSystem (oneTableDevice inodes128Image)).InTable second blockId →
          first = second) ∧
      ¬ (openedVolume (oneTableDevice inodes128Image)).InodesApart := by
  have apart := @tablesApart_of_one (openedFileSystem (oneTableDevice inodes128Image))
    (by decide)
  refine ⟨run_tryOpen_ok (by decide) (by decide) ?_ (by decide)
    (by decide), by decide, apart, ?_⟩
  · intro checks
    cases checks
  · exact Volume.not_inodesApart_of_small
      ⟨by decide, ⟨by decide, by decide⟩, apart⟩ (by decide)
      (by decide) (List.ne_nil_of_length_pos (by decide))

end Ext4

end OSWorkspace
