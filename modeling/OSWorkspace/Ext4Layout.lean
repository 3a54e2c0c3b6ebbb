import OSWorkspace.BitmapBuffers
import OSWorkspace.Ext4BlockCache
import OSWorkspace.RecordBuffers
import OSWorkspace.StatefulResults

/-!
# Ext4 on-disk structures

The structures of `layout.rs`.  An inode is kept as its 256-byte image, because
the driver reads and writes it as a whole and overlays the extent-tree root and
the text of short symbolic links on the 60 bytes of `i_block`; the fields are
little-endian integers at the offsets of the `repr(C)` layout.
-/

namespace OSWorkspace

namespace Ext4

/-- Errors of the driver. -/
inductive Ext4Error where
  | notADirectory
  | notAFile
  | alreadyExists
  | notFound
  | noSpace
  | nameTooLong
  | unsupported
  | invalidInput
deriving DecidableEq, Repr

/-- The superblock fields that the driver reads after mounting. -/
structure Ext4SuperBlock where
  sBlocksCountLo : UInt32
  sBlocksCountHi : UInt32
  sFirstDataBlock : UInt32
  sLogBlockSize : UInt32
  sBlocksPerGroup : UInt32
  sInodesPerGroup : UInt32
  sRevLevel : UInt32
  sInodeSize : UInt16

namespace Ext4SuperBlock

/-- Block size in bytes; the shift distance wraps at the word size. -/
def blockSize (superblock : Ext4SuperBlock) : Nat :=
  (1024 <<< (superblock.sLogBlockSize.toNat % 64)) % 2 ^ 64

def blocksCount (superblock : Ext4SuperBlock) : Nat :=
  superblock.sBlocksCountHi.toNat * 2 ^ 32 + superblock.sBlocksCountLo.toNat

def inodeSize (superblock : Ext4SuperBlock) : Nat :=
  if superblock.sRevLevel.toNat > 0 then superblock.sInodeSize.toNat else 128

def blocksPerGroup (superblock : Ext4SuperBlock) : Nat :=
  superblock.sBlocksPerGroup.toNat

def inodesPerGroup (superblock : Ext4SuperBlock) : Nat :=
  superblock.sInodesPerGroup.toNat

def firstDataBlock (superblock : Ext4SuperBlock) : Nat :=
  superblock.sFirstDataBlock.toNat

end Ext4SuperBlock

/-- The addresses of a block group descriptor. -/
structure Ext4GroupDesc where
  bgBlockBitmapLo : UInt32
  bgInodeBitmapLo : UInt32
  bgInodeTableLo : UInt32
  bgBlockBitmapHi : UInt32
  bgInodeBitmapHi : UInt32
  bgInodeTableHi : UInt32

namespace Ext4GroupDesc

def address (low high : UInt32) (is64bit : Bool) : Nat :=
  if is64bit then high.toNat * 2 ^ 32 + low.toNat else low.toNat

def inodeTable (desc : Ext4GroupDesc) (is64bit : Bool) : Nat :=
  address desc.bgInodeTableLo desc.bgInodeTableHi is64bit

def blockBitmap (desc : Ext4GroupDesc) (is64bit : Bool) : Nat :=
  address desc.bgBlockBitmapLo desc.bgBlockBitmapHi is64bit

def inodeBitmap (desc : Ext4GroupDesc) (is64bit : Bool) : Nat :=
  address desc.bgInodeBitmapLo desc.bgInodeBitmapHi is64bit

end Ext4GroupDesc

def inodeStructSize : Nat := 256

/-- The 256-byte image of an inode. -/
abbrev Ext4Inode := Bytes inodeStructSize

def sIfmt : Nat := 0o170000
def sIfsock : Nat := 0o140000
def sIflnk : Nat := 0o120000
def sIfreg : Nat := 0o100000
def sIfdir : Nat := 0o040000
def sIfblk : Nat := 0o060000
def sIfchr : Nat := 0o020000
def sIfifo : Nat := 0o010000

def ext4ExtentsFl : Nat := 0x00080000

/-- Bytes of `i_block`. -/
def iBlockSize : Nat := 60

/-- The integer fields of an inode that the driver uses. -/
inductive InodeField where
  | iMode
  | iSizeLo
  | iLinksCount
  | iBlocksLo
  | iFlags
  | iSizeHigh
deriving DecidableEq

namespace InodeField

def offset : InodeField → Nat
  | iMode => 0x00
  | iSizeLo => 0x04
  | iLinksCount => 0x1A
  | iBlocksLo => 0x1C
  | iFlags => 0x20
  | iSizeHigh => 0x6C

def width : InodeField → Nat
  | iMode => 2
  | iLinksCount => 2
  | _ => 4

end InodeField

namespace Ext4Inode

def field (inode : Ext4Inode) (name : InodeField) : Nat :=
  inode.uint name.offset name.width

def setField (inode : Ext4Inode) (name : InodeField) (value : Nat) : Ext4Inode :=
  inode.putUint name.offset name.width value

/-- The i_block array as bytes. -/
def blockData (inode : Ext4Inode) : Bytes iBlockSize := inode.extract 0x28 iBlockSize

def setBlockData (inode : Ext4Inode) (data : Bytes iBlockSize) : Ext4Inode :=
  inode.paste 0x28 data

abbrev iMode (inode : Ext4Inode) : Nat := inode.field .iMode
abbrev iSizeLo (inode : Ext4Inode) : Nat := inode.field .iSizeLo
abbrev iLinksCount (inode : Ext4Inode) : Nat := inode.field .iLinksCount
abbrev iFlags (inode : Ext4Inode) : Nat := inode.field .iFlags
abbrev iSizeHigh (inode : Ext4Inode) : Nat := inode.field .iSizeHigh

abbrev setIMode (inode : Ext4Inode) (value : Nat) : Ext4Inode :=
  inode.setField .iMode value

abbrev setILinksCount (inode : Ext4Inode) (value : Nat) : Ext4Inode :=
  inode.setField .iLinksCount value

abbrev setIBlocksLo (inode : Ext4Inode) (value : Nat) : Ext4Inode :=
  inode.setField .iBlocksLo value

abbrev setIFlags (inode : Ext4Inode) (value : Nat) : Ext4Inode :=
  inode.setField .iFlags value

@[simp]
theorem field_setField_same (inode : Ext4Inode) (name : InodeField) (value : Nat) :
    (inode.setField name value).field name = value % 256 ^ name.width := by
  apply Bytes.uint_putUint
  cases name <;> decide

@[simp]
theorem field_setField_of_ne (inode : Ext4Inode) {name other : InodeField} (value : Nat)
    (different : other ≠ name) : (inode.setField name value).field other = inode.field other := by
  apply Bytes.uint_putUint_outside
  revert different
  cases name <;> cases other <;> decide

@[simp]
theorem field_setBlockData (inode : Ext4Inode) (data : Bytes iBlockSize) (name : InodeField) :
    (inode.setBlockData data).field name = inode.field name := by
  apply Bytes.uint_overlay_outside
  cases name <;> decide

@[simp]
theorem blockData_setBlockData (inode : Ext4Inode) (data : Bytes iBlockSize) :
    (inode.setBlockData data).blockData = data :=
  Bytes.extract_paste _ _ (by decide)

@[simp]
theorem blockData_setField (inode : Ext4Inode) (name : InodeField) (value : Nat) :
    (inode.setField name value).blockData = inode.blockData := by
  apply Bytes.extract_overlay_outside
  cases name <;> decide

theorem field_lt (inode : Ext4Inode) (name : InodeField) :
    inode.field name < 256 ^ name.width :=
  Bytes.uint_lt _ _ _

/-- Store a 64-bit size in its two halves. -/
def setSize (inode : Ext4Inode) (size : Nat) : Ext4Inode :=
  (inode.setField .iSizeLo size).setField .iSizeHigh (size / 2 ^ 32)

def fileType (inode : Ext4Inode) : Nat := inode.iMode &&& sIfmt

def isFile (inode : Ext4Inode) : Bool := inode.fileType == sIfreg
def isDir (inode : Ext4Inode) : Bool := inode.fileType == sIfdir
def isSymlink (inode : Ext4Inode) : Bool := inode.fileType == sIflnk

def size (inode : Ext4Inode) : Nat := inode.iSizeHigh * 2 ^ 32 + inode.iSizeLo

def usesExtents (inode : Ext4Inode) : Bool := inode.iFlags &&& ext4ExtentsFl != 0

@[simp]
theorem field_setSize (inode : Ext4Inode) (value : Nat) {name : InodeField}
    (notLow : name ≠ .iSizeLo) (notHigh : name ≠ .iSizeHigh) :
    (inode.setSize value).field name = inode.field name := by
  rw [setSize, field_setField_of_ne _ _ notHigh, field_setField_of_ne _ _ notLow]

@[simp]
theorem blockData_setSize (inode : Ext4Inode) (value : Nat) :
    (inode.setSize value).blockData = inode.blockData := by
  rw [setSize, blockData_setField, blockData_setField]

theorem size_setSize (inode : Ext4Inode) {value : Nat} (small : value < 2 ^ 64) :
    (inode.setSize value).size = value := by
  have low : (inode.setSize value).iSizeLo = value % 2 ^ 32 := by
    rw [setSize, iSizeLo, field_setField_of_ne _ _ (by decide), field_setField_same]
    rfl
  have high : (inode.setSize value).iSizeHigh = value / 2 ^ 32 % 2 ^ 32 := by
    rw [setSize, iSizeHigh, field_setField_same]
    rfl
  rw [size, low, high]
  omega

theorem size_lt (inode : Ext4Inode) : inode.size < 2 ^ 64 := by
  have low := inode.field_lt .iSizeLo
  have high := inode.field_lt .iSizeHigh
  simp only [InodeField.width] at low high
  simp only [size, iSizeLo, iSizeHigh]
  omega

/-- The properties of an inode that its mode and flags decide. -/
theorem kind_congr {inode other : Ext4Inode} (sameMode : other.iMode = inode.iMode) :
    other.isFile = inode.isFile ∧ other.isDir = inode.isDir ∧
      other.isSymlink = inode.isSymlink := by
  simp only [isFile, isDir, isSymlink, fileType, sameMode, and_self]

theorem usesExtents_congr {inode other : Ext4Inode} (sameFlags : other.iFlags = inode.iFlags) :
    other.usesExtents = inode.usesExtents := by
  simp only [usesExtents, sameFlags]

theorem size_congr {inode other : Ext4Inode} (sameLow : other.iSizeLo = inode.iSizeLo)
    (sameHigh : other.iSizeHigh = inode.iSizeHigh) : other.size = inode.size := by
  simp only [size, sameLow, sameHigh]

end Ext4Inode

/-- Leaf entry of an extent tree. -/
structure Ext4Extent where
  eeBlock : UInt32
  eeLen : UInt16
  eeStartHi : UInt16
  eeStartLo : UInt32
deriving DecidableEq, Repr

namespace Ext4Extent

def startBlock (extent : Ext4Extent) : Nat :=
  extent.eeStartHi.toNat * 2 ^ 32 + extent.eeStartLo.toNat

/-- Number of blocks: the high bit of the length is masked out. -/
def len (extent : Ext4Extent) : Nat :=
  (extent.eeLen &&& 0x7FFF).toNat

/-- The 12 bytes of a leaf entry. -/
def record : Record Ext4Extent where
  width := 12
  encode extent := fieldBytes [(4, extent.eeBlock.toNat), (2, extent.eeLen.toNat),
    (2, extent.eeStartHi.toNat), (4, extent.eeStartLo.toNat)]
  decode read :=
    { eeBlock := UInt32.ofNat (leValue 4 read)
      eeLen := UInt16.ofNat (leValue 2 fun index => read (4 + index))
      eeStartHi := UInt16.ofNat (leValue 2 fun index => read (6 + index))
      eeStartLo := UInt32.ofNat (leValue 4 fun index => read (8 + index)) }
  decode_encode extent := by
    simp only [show ∀ index, 6 + index = 4 + (2 + index) by omega,
      show ∀ index, 8 + index = 4 + (2 + (2 + index)) by omega, fieldBytes_add]
    simp [leValue_fieldBytes, Nat.mod_eq_of_lt extent.eeBlock.toNat_lt,
      Nat.mod_eq_of_lt extent.eeLen.toNat_lt, Nat.mod_eq_of_lt extent.eeStartHi.toNat_lt,
      Nat.mod_eq_of_lt extent.eeStartLo.toNat_lt]
  decode_congr first second agree := by
    rw [leValue_congr fun index indexLt => agree index (by omega),
      leValue_congr fun index (indexLt : index < 2) => agree (4 + index) (by omega),
      leValue_congr fun index (indexLt : index < 2) => agree (6 + index) (by omega),
      leValue_congr fun index (indexLt : index < 4) => agree (8 + index) (by omega)]

end Ext4Extent

/-- Index entry of an extent tree. -/
structure Ext4ExtentIdx where
  eiBlock : UInt32
  eiLeafLo : UInt32
  eiLeafHi : UInt16
  eiUnused : UInt16
deriving DecidableEq, Repr

namespace Ext4ExtentIdx

def leafBlock (index : Ext4ExtentIdx) : Nat :=
  index.eiLeafHi.toNat * 2 ^ 32 + index.eiLeafLo.toNat

/-- The 12 bytes of an index entry. -/
def record : Record Ext4ExtentIdx where
  width := 12
  encode index := fieldBytes [(4, index.eiBlock.toNat), (4, index.eiLeafLo.toNat),
    (2, index.eiLeafHi.toNat), (2, index.eiUnused.toNat)]
  decode read :=
    { eiBlock := UInt32.ofNat (leValue 4 read)
      eiLeafLo := UInt32.ofNat (leValue 4 fun index => read (4 + index))
      eiLeafHi := UInt16.ofNat (leValue 2 fun index => read (8 + index))
      eiUnused := UInt16.ofNat (leValue 2 fun index => read (10 + index)) }
  decode_encode index := by
    have atHi : ∀ pos, 8 + pos = 4 + (4 + pos) := Nat.add_assoc 4 4
    simp only [atHi, show ∀ index, 10 + index = 4 + (4 + (2 + index)) by omega, fieldBytes_add]
    simp [leValue_fieldBytes, Nat.mod_eq_of_lt index.eiBlock.toNat_lt,
      Nat.mod_eq_of_lt index.eiLeafLo.toNat_lt, Nat.mod_eq_of_lt index.eiLeafHi.toNat_lt,
      Nat.mod_eq_of_lt index.eiUnused.toNat_lt]
  decode_congr first second agree := by
    rw [leValue_congr fun index indexLt => agree index (by omega),
      leValue_congr fun index (indexLt : index < 4) => agree (4 + index) (by omega),
      leValue_congr fun index (indexLt : index < 2) => agree (8 + index) (by omega),
      leValue_congr fun index (indexLt : index < 2) => agree (10 + index) (by omega)]

end Ext4ExtentIdx

/-- Header of an extent-tree node. -/
structure Ext4ExtentHeader where
  ehMagic : UInt16
  ehEntries : UInt16
  ehMax : UInt16
  ehDepth : UInt16
  ehGeneration : UInt32
deriving DecidableEq, Repr

namespace Ext4ExtentHeader

def magic : UInt16 := 0xF30A

def isValid (header : Ext4ExtentHeader) : Bool :=
  header.ehMagic == magic

/-- The 12 bytes of a node header. -/
def record : Record Ext4ExtentHeader where
  width := 12
  encode header := fieldBytes [(2, header.ehMagic.toNat), (2, header.ehEntries.toNat),
    (2, header.ehMax.toNat), (2, header.ehDepth.toNat), (4, header.ehGeneration.toNat)]
  decode read :=
    { ehMagic := UInt16.ofNat (leValue 2 read)
      ehEntries := UInt16.ofNat (leValue 2 fun index => read (2 + index))
      ehMax := UInt16.ofNat (leValue 2 fun index => read (4 + index))
      ehDepth := UInt16.ofNat (leValue 2 fun index => read (6 + index))
      ehGeneration := UInt32.ofNat (leValue 4 fun index => read (8 + index)) }
  decode_encode header := by
    simp only [show ∀ index, 4 + index = 2 + (2 + index) by omega,
      show ∀ index, 6 + index = 2 + (2 + (2 + index)) by omega,
      show ∀ index, 8 + index = 2 + (2 + (2 + (2 + index))) by omega, fieldBytes_add]
    simp [leValue_fieldBytes, Nat.mod_eq_of_lt header.ehMagic.toNat_lt,
      Nat.mod_eq_of_lt header.ehEntries.toNat_lt, Nat.mod_eq_of_lt header.ehMax.toNat_lt,
      Nat.mod_eq_of_lt header.ehDepth.toNat_lt, Nat.mod_eq_of_lt header.ehGeneration.toNat_lt]
  decode_congr first second agree := by
    rw [leValue_congr fun index indexLt => agree index (by omega),
      leValue_congr fun index (indexLt : index < 2) => agree (2 + index) (by omega),
      leValue_congr fun index (indexLt : index < 2) => agree (4 + index) (by omega),
      leValue_congr fun index (indexLt : index < 2) => agree (6 + index) (by omega),
      leValue_congr fun index (indexLt : index < 4) => agree (8 + index) (by omega)]

end Ext4ExtentHeader

/-- Fixed part of a directory entry; the name follows it. -/
structure Ext4DirEntry where
  inode : UInt32
  recLen : UInt16
  nameLen : UInt8
  fileType : UInt8
deriving DecidableEq, Repr

namespace Ext4DirEntry

def ftUnknown : UInt8 := 0
def ftRegFile : UInt8 := 1
def ftDir : UInt8 := 2
def ftChrdev : UInt8 := 3
def ftBlkdev : UInt8 := 4
def ftFifo : UInt8 := 5
def ftSock : UInt8 := 6
def ftSymlink : UInt8 := 7

def fixedSize : Nat := 8

/-- The 8 bytes before the name. -/
def record : Record Ext4DirEntry where
  width := 8
  encode entry := fieldBytes [(4, entry.inode.toNat), (2, entry.recLen.toNat),
    (1, entry.nameLen.toNat), (1, entry.fileType.toNat)]
  decode read :=
    { inode := UInt32.ofNat (leValue 4 read)
      recLen := UInt16.ofNat (leValue 2 fun index => read (4 + index))
      nameLen := UInt8.ofNat (leValue 1 fun index => read (6 + index))
      fileType := UInt8.ofNat (leValue 1 fun index => read (7 + index)) }
  decode_encode entry := by
    simp only [show ∀ index, 6 + index = 4 + (2 + index) by omega,
      show ∀ index, 7 + index = 4 + (2 + (1 + index)) by omega, fieldBytes_add]
    simp [leValue_fieldBytes, Nat.mod_eq_of_lt entry.inode.toNat_lt,
      Nat.mod_eq_of_lt entry.recLen.toNat_lt, Nat.mod_eq_of_lt entry.nameLen.toNat_lt,
      Nat.mod_eq_of_lt entry.fileType.toNat_lt]
  decode_congr first second agree := by
    rw [leValue_congr fun index indexLt => agree index (by omega),
      leValue_congr fun index (indexLt : index < 2) => agree (4 + index) (by omega),
      leValue_congr fun index (indexLt : index < 1) => agree (6 + index) (by omega),
      leValue_congr fun index (indexLt : index < 1) => agree (7 + index) (by omega)]

end Ext4DirEntry

def ext4RootIno : Nat := 2

def ext4NameLen : Nat := 255

end Ext4

end OSWorkspace
