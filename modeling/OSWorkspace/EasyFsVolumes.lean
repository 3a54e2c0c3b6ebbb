import OSWorkspace.BitmapWords
import OSWorkspace.RecordBuffers
import OSWorkspace.StatefulResults

/-!
# Easy-fs volumes

The device, the bitmaps and the areas of the educational file system
(`bitmap.rs`, `efs.rs` and the on-disk structures of `layout.rs`).  A block is
reached through its cache entry, which a closure keeps locked while it runs;
a second lock of the same entry spins for ever, which is modelled as a panic.
Arithmetic on 32-bit values panics under overflow checks and wraps without.
-/

namespace OSWorkspace

namespace EasyFs

open Exec

def blockSz : Nat := 512

abbrev Block := Bytes blockSz

/-- The blocks of one device and the blocks whose cache entry is locked. -/
structure Volume where
  disk : Nat → Block
  locked : List Nat

/-- A call of the file system: nothing returns an error. -/
abbrev Call (α : Type) := Exec Empty Volume α

def Volume.putBlock (volume : Volume) (blockId : Nat) (block : Block) : Volume :=
  { volume with disk := Function.update volume.disk blockId block }

/-- Lock the cache entry of a block and read it. -/
def readBlock (blockId : Nat) : Call Block := do
  let volume ← get
  check (blockId ∉ volume.locked)
  return volume.disk blockId

/-- Lock the cache entry of a block and change it. -/
def modifyBlock (blockId : Nat) (change : Block → Block) : Call Unit := do
  let block ← readBlock blockId
  modify (·.putBlock blockId (change block))

/-- A build of the file system, with or without overflow checks. -/
structure Build where
  overflowChecks : Bool

namespace Build

def add32 (build : Build) (first second : Nat) : Call Nat := do
  check (build.overflowChecks = true → first + second < 2 ^ 32)
  return (first + second) % 2 ^ 32

def sub32 (build : Build) (first second : Nat) : Call Nat := do
  check (build.overflowChecks = true → second ≤ first)
  return (first + 2 ^ 32 - second) % 2 ^ 32

end Build

def blockBits : Nat := blockSz * 8

structure Bitmap where
  startBlockId : Nat
  blocks : Nat

namespace Bitmap

/-- The loop over the block numbers that remain. -/
def allocIn (bitmap : Bitmap) : List Nat → Call (Option Nat)
  | [] => return none
  | blockId :: blockIds => do
      let block ← readBlock (blockId + bitmap.startBlockId)
      match block.firstClearBit 64 with
      | some bit => do
          modifyBlock (blockId + bitmap.startBlockId) fun block => block.orWordBit bit
          return some (blockId * blockBits + bit)
      | none => bitmap.allocIn blockIds

/-- Take the lowest clear bit of the bitmap. -/
def alloc (bitmap : Bitmap) : Call (Option Nat) :=
  bitmap.allocIn (List.range bitmap.blocks)

/-- Clear a bit, which must be set. -/
def dealloc (bitmap : Bitmap) (bit : Nat) : Call Unit := do
  let blockId := bit / blockBits + bitmap.startBlockId
  let block ← readBlock blockId
  check (block.wordBit (bit % blockBits) = true)
  modifyBlock blockId fun block => block.subWordBit (bit % blockBits)

/-- The number of bits. -/
def maximum (bitmap : Bitmap) : Nat := bitmap.blocks * blockBits

end Bitmap

structure SuperBlock where
  magic : UInt32
  totalBlocks : UInt32
  inodeBitmapBlocks : UInt32
  inodeAreaBlocks : UInt32
  dataBitmapBlocks : UInt32
  dataAreaBlocks : UInt32
deriving DecidableEq, Repr

def efsMagic : UInt32 := 0x3b800001

/-- The 24 bytes of a superblock. -/
def SuperBlock.record : Record SuperBlock where
  width := 24
  encode superBlock := fieldBytes [(4, superBlock.magic.toNat),
    (4, superBlock.totalBlocks.toNat), (4, superBlock.inodeBitmapBlocks.toNat),
    (4, superBlock.inodeAreaBlocks.toNat), (4, superBlock.dataBitmapBlocks.toNat),
    (4, superBlock.dataAreaBlocks.toNat)]
  decode read :=
    { magic := UInt32.ofNat (leValue 4 read)
      totalBlocks := UInt32.ofNat (leValue 4 fun index => read (4 + index))
      inodeBitmapBlocks := UInt32.ofNat (leValue 4 fun index => read (8 + index))
      inodeAreaBlocks := UInt32.ofNat (leValue 4 fun index => read (12 + index))
      dataBitmapBlocks := UInt32.ofNat (leValue 4 fun index => read (16 + index))
      dataAreaBlocks := UInt32.ofNat (leValue 4 fun index => read (20 + index)) }
  decode_encode superBlock := by
    simp only [show ∀ index, 8 + index = 4 + (4 + index) by omega,
      show ∀ index, 12 + index = 4 + (4 + (4 + index)) by omega,
      show ∀ index, 16 + index = 4 + (4 + (4 + (4 + index))) by omega,
      show ∀ index, 20 + index = 4 + (4 + (4 + (4 + (4 + index)))) by omega, fieldBytes_add]
    simp [leValue_fieldBytes, Nat.mod_eq_of_lt superBlock.magic.toNat_lt,
      Nat.mod_eq_of_lt superBlock.totalBlocks.toNat_lt,
      Nat.mod_eq_of_lt superBlock.inodeBitmapBlocks.toNat_lt,
      Nat.mod_eq_of_lt superBlock.inodeAreaBlocks.toNat_lt,
      Nat.mod_eq_of_lt superBlock.dataBitmapBlocks.toNat_lt,
      Nat.mod_eq_of_lt superBlock.dataAreaBlocks.toNat_lt]
  decode_congr first second agree := by
    rw [leValue_congr fun index indexLt => agree index (by omega),
      leValue_congr fun index (indexLt : index < 4) => agree (4 + index) (by omega),
      leValue_congr fun index (indexLt : index < 4) => agree (8 + index) (by omega),
      leValue_congr fun index (indexLt : index < 4) => agree (12 + index) (by omega),
      leValue_congr fun index (indexLt : index < 4) => agree (16 + index) (by omega),
      leValue_congr fun index (indexLt : index < 4) => agree (20 + index) (by omega)]

/-- Check the magic number. -/
def SuperBlock.isValid (superBlock : SuperBlock) : Bool := superBlock.magic == efsMagic

inductive DiskInodeType where
  | file
  | directory
deriving DecidableEq, Repr

def DiskInodeType.code : DiskInodeType → UInt8
  | .file => 0
  | .directory => 1

def diskInodeSize : Nat := 128

def inodeDirectCount : Nat := 28

/-- The 128-byte image of a disk inode. -/
abbrev DiskInode := Bytes diskInodeSize

namespace DiskInode

def size (inode : DiskInode) : Nat := inode.uint 0 4

def direct (inode : DiskInode) (index : Nat) : Nat := inode.uint (4 + 4 * index) 4

def indirect1 (inode : DiskInode) : Nat := inode.uint 116 4

def indirect2 (inode : DiskInode) : Nat := inode.uint 120 4

def isDir (inode : DiskInode) : Bool := inode.get 124 = DiskInodeType.directory.code

def setSize (inode : DiskInode) (value : Nat) : DiskInode := inode.putUint 0 4 value

def setDirect (inode : DiskInode) (index value : Nat) : DiskInode :=
  inode.putUint (4 + 4 * index) 4 value

def setIndirect1 (inode : DiskInode) (value : Nat) : DiskInode := inode.putUint 116 4 value

def setIndirect2 (inode : DiskInode) (value : Nat) : DiskInode := inode.putUint 120 4 value

def setType (inode : DiskInode) (kind : DiskInodeType) : DiskInode :=
  inode.overlay 124 1 fun _ => kind.code

def initializeAs (inode : DiskInode) (kind : DiskInodeType) : DiskInode :=
  ((((List.range inodeDirectCount).foldl (fun inode index => inode.setDirect index 0)
    (inode.setSize 0)).setIndirect1 0).setIndirect2 0).setType kind

end DiskInode

structure EasyFileSystem where
  inodeBitmap : Bitmap
  dataBitmap : Bitmap
  inodeAreaStartBlock : Nat
  dataAreaStartBlock : Nat

namespace EasyFileSystem

/-- The block and the offset of an inode. -/
def getDiskInodePos (fs : EasyFileSystem) (build : Build) (inodeId : Nat) :
    Call (Nat × Nat) := do
  let inodesPerBlock := blockSz / diskInodeSize
  let blockId ← build.add32 fs.inodeAreaStartBlock (inodeId / inodesPerBlock)
  return (blockId, inodeId % inodesPerBlock * diskInodeSize)

def allocInode (fs : EasyFileSystem) : Call Nat := do
  let bit ← expect (← fs.inodeBitmap.alloc)
  return bit % 2 ^ 32

def allocData (fs : EasyFileSystem) (build : Build) : Call Nat := do
  let bit ← expect (← fs.dataBitmap.alloc)
  build.add32 (bit % 2 ^ 32) fs.dataAreaStartBlock

def deallocData (fs : EasyFileSystem) (build : Build) (blockId : Nat) : Call Unit := do
  modifyBlock blockId fun _ => .zeroed
  fs.dataBitmap.dealloc (← build.sub32 blockId fs.dataAreaStartBlock)

end EasyFileSystem

/-- Change the disk inode at a position. -/
def modifyInodeAt (blockId offset : Nat) (change : DiskInode → DiskInode) : Call Unit := do
  check (offset + diskInodeSize ≤ blockSz)
  modifyBlock blockId fun block => block.paste offset (change (block.extract offset diskInodeSize))

def clearBlocks : List Nat → Call Unit
  | [] => return ()
  | blockId :: blockIds => do
      modifyBlock blockId fun _ => .zeroed
      clearBlocks blockIds

/-- The blocks of the inode area, computed in 64-bit words and truncated. -/
def inodeAreaBlocks (inodeBitmapBlocks : Nat) : Nat :=
  ((⟨1, inodeBitmapBlocks⟩ : Bitmap).maximum * diskInodeSize + blockSz - 1) / blockSz % 2 ^ 32

/-- Make a file system on the device. -/
def EasyFileSystem.create (build : Build) (totalBlocks inodeBitmapBlocks : UInt32) :
    Call EasyFileSystem := do
  let inodeAreaBlocks := inodeAreaBlocks inodeBitmapBlocks.toNat
  let inodeTotalBlocks ← build.add32 inodeBitmapBlocks.toNat inodeAreaBlocks
  let dataTotalBlocks ← build.sub32 (← build.sub32 totalBlocks.toNat 1) inodeTotalBlocks
  let dataBitmapBlocks := (← build.add32 dataTotalBlocks 4096) / 4097
  let dataAreaBlocks ← build.sub32 dataTotalBlocks dataBitmapBlocks
  let dataBitmapStart ← build.add32 1 inodeTotalBlocks
  let inodeAreaStartBlock ← build.add32 1 inodeBitmapBlocks.toNat
  let dataAreaStartBlock ← build.add32 dataBitmapStart dataBitmapBlocks
  let fs : EasyFileSystem :=
    { inodeBitmap := ⟨1, inodeBitmapBlocks.toNat⟩
      dataBitmap := ⟨dataBitmapStart, dataBitmapBlocks⟩
      inodeAreaStartBlock := inodeAreaStartBlock
      dataAreaStartBlock := dataAreaStartBlock }
  clearBlocks (List.range totalBlocks.toNat)
  modifyBlock 0 fun block => block.store SuperBlock.record 0
    { magic := efsMagic
      totalBlocks := totalBlocks
      inodeBitmapBlocks := inodeBitmapBlocks
      inodeAreaBlocks := UInt32.ofNat inodeAreaBlocks
      dataBitmapBlocks := UInt32.ofNat dataBitmapBlocks
      dataAreaBlocks := UInt32.ofNat dataAreaBlocks }
  let rootInodeId ← fs.allocInode
  check (rootInodeId = 0)
  let (rootBlockId, rootOffset) ← fs.getDiskInodePos build 0
  modifyInodeAt rootBlockId rootOffset fun inode => inode.initializeAs .directory
  return fs

/-- Open the file system of the device. -/
def EasyFileSystem.openVolume (build : Build) : Call EasyFileSystem := do
  let superBlock := (← readBlock 0).load SuperBlock.record 0
  check (superBlock.isValid = true)
  let inodeTotalBlocks ←
    build.add32 superBlock.inodeBitmapBlocks.toNat superBlock.inodeAreaBlocks.toNat
  let dataBitmapStart ← build.add32 1 inodeTotalBlocks
  let inodeAreaStartBlock ← build.add32 1 superBlock.inodeBitmapBlocks.toNat
  let dataAreaStartBlock ← build.add32 dataBitmapStart superBlock.dataBitmapBlocks.toNat
  return {
    inodeBitmap := ⟨1, superBlock.inodeBitmapBlocks.toNat⟩
    dataBitmap := ⟨dataBitmapStart, superBlock.dataBitmapBlocks.toNat⟩
    inodeAreaStartBlock := inodeAreaStartBlock
    dataAreaStartBlock := dataAreaStartBlock }

end EasyFs

end OSWorkspace
