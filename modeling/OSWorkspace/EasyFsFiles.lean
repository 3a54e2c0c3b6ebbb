import OSWorkspace.EasyFsBlockAccounting
import OSWorkspace.Utf8Strings

/-!
# Files and the directory of easy-fs

Reading and writing through a disk inode (`layout.rs`), the records of the
directory, and the operations on inodes (`vfs.rs`).  All files are in the root
directory.
-/

namespace OSWorkspace

namespace EasyFs

open Exec

/-- The sum of two sizes in memory. -/
def Build.add64 (build : Build) (first second : Nat) : Call Nat := do
  check (build.overflowChecks = true → first + second < 2 ^ 64)
  return (first + second) % 2 ^ 64

namespace DiskInode

/-- The reading loop; the bytes it copies, with fuel for the rounds. -/
def readLoop (inode : DiskInode) (last : Nat) : (fuel start startBlock : Nat) → Call (List UInt8)
  | 0, _, _ => return []
  | fuel + 1, start, startBlock => do
      let endCurrentBlock := min ((start / blockSz + 1) * blockSz) last
      let blockReadSize := endCurrentBlock - start
      let blockId ← inode.getBlockId (startBlock % 2 ^ 32)
      let block ← readBlock blockId
      let copied := block.slice (start % blockSz) blockReadSize
      if endCurrentBlock = last then return copied
      else do
        let others ← readLoop inode last fuel endCurrentBlock (startBlock + 1)
        return copied ++ others

/-- The bytes that a read of a length at an offset copies to the buffer. -/
def readAt (build : Build) (inode : DiskInode) (offset length : Nat) : Call (List UInt8) := do
  let last := min (← build.add64 offset length) inode.size
  if offset ≥ last then return []
  else readLoop inode last (last / blockSz - offset / blockSz + 1) offset (offset / blockSz)

/-- The writing loop, which runs its body before it tests for the end. -/
def writeLoop (inode : DiskInode) (last : Nat) (buf : List UInt8) :
    (fuel start startBlock writeSize : Nat) → Call Nat
  | 0, _, _, writeSize => return writeSize
  | fuel + 1, start, startBlock, writeSize => do
      let endCurrentBlock := min ((start / blockSz + 1) * blockSz) last
      let blockWriteSize := endCurrentBlock - start
      let blockId ← inode.getBlockId (startBlock % 2 ^ 32)
      modifyBlock blockId
        (fun block => block.write (start % blockSz) ((buf.drop writeSize).take blockWriteSize))
      if endCurrentBlock = last then return writeSize + blockWriteSize
      else do
        writeLoop inode last buf fuel endCurrentBlock (startBlock + 1)
          (writeSize + blockWriteSize)

/-- Write data into a disk inode whose size was adjusted beforehand. -/
def writeAt (build : Build) (inode : DiskInode) (offset : Nat) (buf : List UInt8) : Call Nat := do
  let last := min (← build.add64 offset buf.length) inode.size
  check (offset ≤ last)
  writeLoop inode last buf (last / blockSz - offset / blockSz + 1) offset (offset / blockSz) 0

end DiskInode

def nameLengthLimit : Nat := 27

def direntSz : Nat := 32

/-- The 32 bytes of a directory entry: the name and the inode number. -/
abbrev DirEntry := Bytes direntSz

namespace DirEntry

/-- A name that is longer than its field panics. -/
def new (name : Str) (inodeNumber : Nat) : Call DirEntry := do
  check (name.len ≤ nameLengthLimit + 1)
  return (Bytes.zeroed.write 0 name.bytes).putUint 28 4 inodeNumber

def ofBytes (bytes : List UInt8) : DirEntry := Bytes.zeroed.write 0 bytes

def asBytes (entry : DirEntry) : List UInt8 := entry.slice 0 direntSz

/-- The bytes before the first zero; a field without one panics. -/
def name (entry : DirEntry) : Call Str := do
  let len ← expect ((List.range (nameLengthLimit + 1)).find? fun index => entry.get index == 0)
  expect (Str.fromUtf8 (entry.slice 0 len))

def inodeNumber (entry : DirEntry) : Nat := entry.uint 28 4

end DirEntry

/-- Virtual filesystem layer over a disk inode. -/
structure Inode where
  blockId : Nat
  blockOffset : Nat
deriving DecidableEq, Repr

/-- The root inode of a file system. -/
def EasyFileSystem.rootInode (fs : EasyFileSystem) (build : Build) : Call Inode := do
  let (blockId, blockOffset) ← fs.getDiskInodePos build 0
  return ⟨blockId, blockOffset⟩

namespace Inode

/-- Call a function over a disk inode to read it. -/
def readDiskInode {α : Type} (self : Inode) (closure : DiskInode → Call α) : Call α :=
  withLocked self.blockId do
    check (self.blockOffset + diskInodeSize ≤ blockSz)
    let volume ← get
    closure ((volume.disk self.blockId).extract self.blockOffset diskInodeSize)

/-- Call a function over a disk inode to modify it. -/
def modifyDiskInode {α : Type} (self : Inode) (closure : DiskInode → Call (α × DiskInode)) :
    Call α :=
  withLocked self.blockId do
    check (self.blockOffset + diskInodeSize ≤ blockSz)
    let volume ← get
    let (value, changed) ←
      closure ((volume.disk self.blockId).extract self.blockOffset diskInodeSize)
    modify fun volume =>
      volume.putBlock self.blockId ((volume.disk self.blockId).paste self.blockOffset changed)
    return value

section Operations

variable (fs : EasyFileSystem) (build : Build)

/-- Read the directory entry at an index. -/
def readEntry (diskInode : DiskInode) (index : Nat) : Call DirEntry := do
  let bytes ← diskInode.readAt build (direntSz * index) direntSz
  check (bytes.length = direntSz)
  return .ofBytes bytes

/-- Search the entries at the indexes that remain. -/
def findIn (name : Str) (diskInode : DiskInode) : List Nat → Call (Option Nat)
  | [] => return none
  | index :: indexes => do
      let dirent ← readEntry build diskInode index
      let direntName ← dirent.name
      if direntName = name then return some dirent.inodeNumber
      else findIn name diskInode indexes

/-- Find inode under a disk inode by name. -/
def findInodeId (name : Str) (diskInode : DiskInode) : Call (Option Nat) := do
  check (diskInode.isDir = true)
  findIn build name diskInode (List.range (diskInode.size / direntSz))

/-- The names at the indexes that remain. -/
def namesIn (diskInode : DiskInode) : List Nat → Call (List Str)
  | [] => return []
  | index :: indexes => do
      let dirent ← readEntry build diskInode index
      let direntName ← dirent.name
      let others ← namesIn diskInode indexes
      return direntName :: others

/-- List inodes under an inode. -/
def ls (self : Inode) : Call (List Str) :=
  self.readDiskInode fun diskInode =>
    namesIn build diskInode (List.range (diskInode.size / direntSz))

def readAt (self : Inode) (offset length : Nat) : Call (List UInt8) :=
  self.readDiskInode fun diskInode => diskInode.readAt build offset length

/-- Find inode under an inode by name. -/
def find (self : Inode) (name : Str) : Call (Option Inode) :=
  self.readDiskInode fun diskInode => do
    match ← findInodeId build name diskInode with
    | none => return none
    | some inodeId => do
        let (blockId, blockOffset) ← fs.getDiskInodePos build inodeId
        return some ⟨blockId, blockOffset⟩

/-- Allocate a number of data blocks. -/
def allocBlocks : Nat → Call (List Nat)
  | 0 => return []
  | count + 1 => do
      let blockId ← fs.allocData build
      let others ← allocBlocks count
      return blockId :: others

/-- Increase the size of a disk inode. -/
def increaseSize (newSize : Nat) (diskInode : DiskInode) : Call DiskInode :=
  if newSize < diskInode.size then return diskInode
  else do
    let blocksNeeded ← diskInode.blocksNumNeeded build newSize
    let v ← allocBlocks fs build blocksNeeded
    let (grown, _) ← diskInode.increaseSize build newSize v
    return grown

/-- Append an entry to the directory. -/
def appendEntry (name : Str) (newInodeId : Nat) (rootInode : DiskInode) :
    Call (Unit × DiskInode) := do
  let fileCount := rootInode.size / direntSz
  let newSize := (fileCount + 1) * direntSz
  let grown ← increaseSize fs build (newSize % 2 ^ 32) rootInode
  let dirent ← DirEntry.new name newInodeId
  let _ ← grown.writeAt build (fileCount * direntSz) dirent.asBytes
  return ((), grown)

/-- Create inode under an inode by name. -/
def create (self : Inode) (name : Str) : Call (Option Inode) := do
  let found ← self.readDiskInode (findInodeId build name)
  if found.isSome then return none
  else do
    let newInodeId ← fs.allocInode
    let (blockId, blockOffset) ← fs.getDiskInodePos build newInodeId
    modifyInodeAt blockId blockOffset fun inode => inode.initializeAs .file
    self.modifyDiskInode (appendEntry fs build name newInodeId)
    let (blockId, blockOffset) ← fs.getDiskInodePos build newInodeId
    return some ⟨blockId, blockOffset⟩

/-- Write data to an inode. -/
def writeAt (self : Inode) (offset : Nat) (buf : List UInt8) : Call Nat :=
  self.modifyDiskInode fun diskInode => do
    let newSize ← build.add64 offset buf.length
    let grown ← increaseSize fs build (newSize % 2 ^ 32) diskInode
    let size ← grown.writeAt build offset buf
    return (size, grown)

def deallocBlocks : List Nat → Call Unit
  | [] => return ()
  | blockId :: blockIds => do
      fs.deallocData build blockId
      deallocBlocks blockIds

/-- Clear the data in an inode. -/
def clear (self : Inode) : Call Unit :=
  self.modifyDiskInode fun diskInode => do
    let size := diskInode.size
    let (dataBlocksDealloc, cleared) ← diskInode.clearSize build
    check (dataBlocksDealloc.length = (← DiskInode.totalBlocks build size))
    deallocBlocks fs build dataBlocksDealloc
    return ((), cleared)

end Operations

end Inode

end EasyFs

end OSWorkspace
