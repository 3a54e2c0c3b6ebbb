import OSWorkspace.Ext4Files

/-!
# Directories

A directory is a file of blocks, each tiled by entries that give their own
length.  This file models the directory part of `vfs.rs`: lookup through a
cached index, insertion with splitting and reuse of slots, removal, and the
operations that create, link, unlink and rename inodes.
-/

namespace OSWorkspace

namespace Ext4

open Exec

def align4 (n : Nat) : Nat := (n + 3) / 4 * 4

def dirIndexCacheMax : Nat := 64

def dirIndexCacheInvalidate (inodeNum : Nat) : Call Unit :=
  modify fun volume => { volume with dirIndexCache := volume.dirIndexCache.erase inodeNum }

def inodeCachesInvalidate (inodeNum : Nat) : Call Unit := do
  dirIndexCacheInvalidate inodeNum
  extentsCacheInvalidate inodeNum

/-- Change the cached index of a directory, if there is one. -/
def dirIndexCacheUpdate (inodeNum : Nat) (change : DirIndex → DirIndex) : Call Unit :=
  modify fun volume => { volume with
    dirIndexCache :=
      match volume.dirIndexCache[inodeNum]? with
      | some index => volume.dirIndexCache.insert inodeNum (change index)
      | none => volume.dirIndexCache }

def dirEntryFileTypeFromMode (mode : Nat) : UInt8 :=
  let kind := mode &&& sIfmt
  if kind = sIfreg then Ext4DirEntry.ftRegFile
  else if kind = sIfdir then Ext4DirEntry.ftDir
  else if kind = sIfchr then Ext4DirEntry.ftChrdev
  else if kind = sIfblk then Ext4DirEntry.ftBlkdev
  else if kind = sIfifo then Ext4DirEntry.ftFifo
  else if kind = sIfsock then Ext4DirEntry.ftSock
  else if kind = sIflnk then Ext4DirEntry.ftSymlink
  else Ext4DirEntry.ftUnknown

/-- A name with the inode number and the type of its entry. -/
structure DirBinding where
  name : Str
  inodeNum : Nat
  fileType : UInt8
deriving DecidableEq

/-- The name of the entry at a position, if the entry is live and well formed. -/
def direntBinding (buf : Block) (toRead pos : Nat) (entry : Ext4DirEntry) : Option DirBinding :=
  let nameOff := pos + Ext4DirEntry.fixedSize
  let nameEnd := nameOff + entry.nameLen.toNat
  if entry.inode ≠ 0 ∧ entry.nameLen > 0 ∧ nameEnd ≤ pos + entry.recLen.toNat ∧
      nameEnd ≤ toRead then
    (Str.fromUtf8 (buf.slice nameOff entry.nameLen.toNat)).map fun name =>
      ⟨name, entry.inode.toNat, entry.fileType⟩
  else none

/-- The live entries of a block from a position on. -/
def scanDirents (buf : Block) (toRead : Nat) : (fuel pos : Nat) → List DirBinding
  | 0, _ => []
  | fuel + 1, pos =>
      if pos + Ext4DirEntry.fixedSize ≤ toRead then
        let entry := buf.load Ext4DirEntry.record pos
        if entry.recLen.toNat < Ext4DirEntry.fixedSize ∨ pos + entry.recLen.toNat > toRead then []
        else
          (direntBinding buf toRead pos entry).toList ++
            scanDirents buf toRead fuel (pos + entry.recLen.toNat)
      else []

/-- Parse an entry of a buffer: its inode, its length and the length of its name. -/
def parseDirent (buf : List UInt8) (off : Nat) : Option (Nat × Nat × Nat) :=
  if off + Ext4DirEntry.fixedSize > buf.length then none
  else
    let entry := Ext4DirEntry.record.decode fun index => buf.getD (off + index) 0
    if entry.recLen.toNat < Ext4DirEntry.fixedSize ∨ off + entry.recLen.toNat > buf.length then
      none
    else some (entry.inode.toNat, entry.recLen.toNat, entry.nameLen.toNat)

/-- The buffer starts with the entries `.` and `..` of a directory. -/
def startsLikeDir (buf : List UInt8) (read inodeNum : Nat) : Bool :=
  match parseDirent buf 0 with
  | none => false
  | some (dotInode, dotRec, dotLen) =>
      if dotInode ≠ inodeNum ∨ dotLen ≠ 1 ∨ buf[Ext4DirEntry.fixedSize]? ≠ some 0x2E ∨
          dotRec ≥ read then false
      else
        match parseDirent buf dotRec with
        | none => false
        | some (dotdotInode, _, dotdotLen) =>
            let nameOff := dotRec + Ext4DirEntry.fixedSize
            dotdotInode ≠ 0 ∧ dotdotLen = 2 ∧ nameOff + 2 ≤ buf.length ∧
              (buf.drop nameOff).take 2 = Str.dotDot.bytes

namespace Inode

def looksLikeDir (self : Inode) : Call Bool := do
  let size ← self.size
  if size < Ext4DirEntry.fixedSize * 2 then
    return false
  let (read, buf) ← self.readAt 0 (List.replicate (min blockSz size) 0)
  if read < Ext4DirEntry.fixedSize * 2 then
    return false
  return startsLikeDir buf read self.inodeNum

def defaultPerm (kind : Nat) : Nat :=
  if kind = sIfdir then 0o755
  else if kind = sIflnk then 0o777
  else if kind = sIfchr ∨ kind = sIfblk then 0o600
  else 0o644

/-- The type bits for an inode without any, from the type of its entry. -/
def kindFromEntry (self : Inode) (fileType : UInt8) : Call Nat := do
  if fileType = Ext4DirEntry.ftRegFile then return sIfreg
  else if fileType = Ext4DirEntry.ftSymlink then return sIflnk
  else if fileType = Ext4DirEntry.ftFifo then return sIfifo
  else if fileType = Ext4DirEntry.ftChrdev then return sIfchr
  else if fileType = Ext4DirEntry.ftBlkdev then return sIfblk
  else if fileType = Ext4DirEntry.ftSock then return sIfsock
  else
    if ← self.looksLikeDir then return sIfdir else return sIfreg

def repairModeIfMissing (self : Inode) (fileType : UInt8) : Call Unit := do
  let inode ← self.readDiskInode
  if inode.iMode &&& sIfmt ≠ 0 then
    return ()
  let kind ← self.kindFromEntry fileType
  let perm := if inode.iMode &&& 0o777 = 0 then defaultPerm kind else inode.iMode &&& 0o777
  let perm := if kind = sIfdir then perm ||| 0o111 else perm
  self.modifyDiskInode (·.setIMode (kind ||| perm))

/-- The entries of the blocks from `blockOff` on, read through one buffer. -/
def readDirBlocks (self : Inode) (dirSize : Nat) : (fuel blockOff : Nat) → Block →
    Call (List DirBinding)
  | 0, _, _ => return []
  | fuel + 1, blockOff, buf => do
      if blockOff < dirSize then
        let toRead := min blockSz (dirSize - blockOff)
        if toRead < Ext4DirEntry.fixedSize then
          return []
        let (_, bytes) ← self.readAt blockOff (buf.slice 0 toRead)
        let buf := buf.write 0 bytes
        let rest ← self.readDirBlocks dirSize fuel (blockOff + blockSz) buf
        return scanDirents buf toRead toRead 0 ++ rest
      else return []

/-- List directory contents. -/
def readDirEntries (self : Inode) : Call (List DirBinding) := do
  if ← self.isDir then
    let dirSize ← self.size
    self.readDirBlocks dirSize (dirSize / blockSz + 1) 0 .zeroed
  else return []

def dirEntries (self : Inode) : Call (List DirBinding) :=
  self.readDirEntries

/-- The names other than `.` and `..`. -/
def ls (self : Inode) : Call (List Str) := do
  let entries ← self.readDirEntries
  return (entries.map DirBinding.name).filter fun name => name ≠ .dot ∧ name ≠ .dotDot

def insertBinding (index : DirIndex) (binding : DirBinding) : DirIndex :=
  index.insert binding.name (binding.inodeNum, binding.fileType)

def buildDirIndex (self : Inode) : Call DirIndex := do
  let entries ← self.readDirEntries
  return entries.foldl insertBinding ∅

def dirIndex (self : Inode) : Call DirIndex := do
  match (← get).dirIndexCache[self.inodeNum]? with
  | some existing => return existing
  | none =>
      let built ← self.buildDirIndex
      modify fun volume =>
        let cache :=
          if volume.dirIndexCache.size ≥ dirIndexCacheMax then ∅ else volume.dirIndexCache
        { volume with dirIndexCache := cache.insert self.inodeNum built }
      return built

/-- Find a file/directory by name in current directory. -/
def find (self : Inode) (name : Str) : Call (Option Inode) := do
  if ← self.isDir then
    let index ← self.dirIndex
    match index[name]? with
    | none => return none
    | some (inodeNum, fileType) =>
        let (blockId, offset) ← expect ((← get).fs.getInodePos inodeNum)
        let inode : Inode := ⟨inodeNum, blockId, offset⟩
        inode.repairModeIfMissing fileType
        return some inode
  else return none

end Inode

def dirWriteEntryAt (pblock entryOff recLen inodeNum : Nat) (fileType : UInt8) (name : Str) :
    Call Unit := do
  if name.len > ext4NameLen then
    throw .nameTooLong
  else if align4 (Ext4DirEntry.fixedSize + name.len) > recLen then
    throw .noSpace
  else
    check (entryOff + recLen ≤ blockSz)
    let block ← readBlock pblock
    let block := block.store Ext4DirEntry.record entryOff
      { inode := UInt32.ofNat inodeNum, recLen := UInt16.ofNat recLen,
        nameLen := UInt8.ofNat name.len, fileType := fileType }
    let rest := recLen - Ext4DirEntry.fixedSize - name.len
    writeBlock pblock
      (block.write (entryOff + Ext4DirEntry.fixedSize) (name.bytes ++ List.replicate rest 0))

/-- A slot for a new entry: a deleted entry, or the unused end of a live one. -/
inductive DirSlot where
  | reuse (off recLen : Nat)
  | split (off used recLen : Nat)
deriving DecidableEq

/-- The first slot of a block with room for `need` bytes. -/
def findSlot (block : Block) (need : Nat) : (fuel off : Nat) → Option DirSlot
  | 0, _ => none
  | fuel + 1, off =>
      if off + Ext4DirEntry.fixedSize ≤ blockSz then
        let entry := block.load Ext4DirEntry.record off
        let recLen := entry.recLen.toNat
        let used := align4 (Ext4DirEntry.fixedSize + entry.nameLen.toNat)
        if recLen = 0 then none
        else if entry.inode = 0 ∧ recLen ≥ need then some (.reuse off recLen)
        else if recLen ≥ used + need then some (.split off used recLen)
        else findSlot block need fuel (off + recLen)
      else none

/-- Fill a slot. -/
def fillSlot (pblock inodeNum : Nat) (fileType : UInt8) (name : Str) : DirSlot → Call Unit
  | .reuse off recLen => dirWriteEntryAt pblock off recLen inodeNum fileType name
  | .split off used recLen => do
      let block ← readBlock pblock
      let entry := block.load Ext4DirEntry.record off
      writeBlock pblock (block.store Ext4DirEntry.record off
        { entry with recLen := UInt16.ofNat used })
      dirWriteEntryAt pblock (off + used) (recLen - used) inodeNum fileType name

/-- The loop over the blocks of a directory: whether the entry was placed. -/
def addToBlocks (extents : List Ext4Extent) (need inodeNum : Nat) (fileType : UInt8)
    (name : Str) : (count lblock : Nat) → Call Bool
  | 0, _ => return false
  | count + 1, lblock => do
      let pblock ← okOr (mapLogicalBlock extents (lblock % 2 ^ 32)) .unsupported
      let block ← readBlock pblock
      match findSlot block need blockSz 0 with
      | some slot =>
          fillSlot pblock inodeNum fileType name slot
          return true
      | none => addToBlocks extents need inodeNum fileType name count (lblock + 1)

/-- The position of the live entry with a name: `none` is a name that runs past
the block. -/
def findDirent (block : Block) (name : List UInt8) : (fuel off : Nat) → Option (Option Nat)
  | 0, _ => some none
  | fuel + 1, off =>
      if off + Ext4DirEntry.fixedSize ≤ blockSz then
        let entry := block.load Ext4DirEntry.record off
        if entry.recLen = 0 then some none
        else
          let nameOff := off + Ext4DirEntry.fixedSize
          let live := entry.inode ≠ 0 ∧ entry.nameLen > 0
          if live ∧ nameOff + entry.nameLen.toNat > blockSz then none
          else if live ∧ block.slice nameOff entry.nameLen.toNat = name then some (some off)
          else findDirent block name fuel (off + entry.recLen.toNat)
      else some none

/-- The loop over the blocks of a directory that clears an entry. -/
def removeFromBlocks (extents : List Ext4Extent) (name : Str) : (count lblock : Nat) →
    Call Nat
  | 0, _ => throw .notFound
  | count + 1, lblock =>
      match mapLogicalBlock extents (lblock % 2 ^ 32) with
      | none => removeFromBlocks extents name count (lblock + 1)
      | some pblock => do
          let block ← readBlock pblock
          match ← expect (findDirent block name.bytes blockSz 0) with
          | none => removeFromBlocks extents name count (lblock + 1)
          | some off =>
              let entry := block.load Ext4DirEntry.record off
              writeBlock pblock (block.store Ext4DirEntry.record off { entry with inode := 0 })
              return entry.inode.toNat

/-- Blocks of a directory of the given size. -/
def dirBlocks (dirSize : Nat) : Nat :=
  if dirSize = 0 then 0 else (dirSize + (blockSz - 1)) % 2 ^ 64 / blockSz

namespace Inode

/-- Append a block with a single entry. -/
def dirAppendEntry (self : Inode) (newBlockIndex inodeNum : Nat) (fileType : UInt8)
    (name : Str) : Call Unit := do
  let extents ← self.ensureBlocks ((newBlockIndex + 1) % 2 ^ 32)
  let pblock ← okOr (mapLogicalBlock extents newBlockIndex) .unsupported
  dirWriteEntryAt pblock 0 blockSz inodeNum fileType name
  self.modifyDiskInode (·.setSize ((newBlockIndex + 1) * blockSz))

def dirAddEntry (self : Inode) (name : Str) (inodeNum : Nat) (fileType : UInt8) :
    Call Unit := do
  if ¬ (← self.isDir) then
    throw .notADirectory
  else if name.isEmpty then
    throw .invalidInput
  else if (← self.find name).isSome then
    throw .alreadyExists
  else
    let need := align4 (Ext4DirEntry.fixedSize + name.len)
    if need > blockSz then
      throw .nameTooLong
    else
      let blocks := dirBlocks (← self.size)
      let extents ← self.ensureBlocks (blocks % 2 ^ 32)
      if ← addToBlocks extents need inodeNum fileType name blocks 0 then
        return ()
      else
        self.dirAppendEntry (blocks % 2 ^ 32) inodeNum fileType name

def dirRemoveEntry (self : Inode) (name : Str) : Call Nat := do
  if ¬ (← self.isDir) then
    throw .notADirectory
  else
    let blocks := dirBlocks (← self.size)
    let extents ← self.readExtentsAny
    removeFromBlocks extents name blocks 0

/-- The checks before a new name enters a directory. -/
def checkNewName (self : Inode) (name : Str) : Call Unit := do
  if ¬ (← self.isDir) then
    throw .notADirectory
  else if name.isEmpty then
    throw .invalidInput
  else if name.len > ext4NameLen then
    throw .nameTooLong
  else if (← self.find name).isSome then
    throw .alreadyExists
  else return ()

/-- Enter a new inode, or give its number back. -/
def enterNewInode (self : Inode) (name : Str) (inodeNum : Nat) (fileType : UInt8)
    (rollBack : Call Unit) : Call Unit := do
  match ← (self.dirAddEntry name inodeNum fileType).attempt with
  | .error error =>
      rollBack
      deallocInode inodeNum
      throw error
  | .ok () =>
      dirIndexCacheUpdate self.inodeNum (·.insert name (inodeNum, fileType))

/-- Allocate an inode, write it and enter it under a name. -/
def createInode (self : Inode) (name : Str) (fileType : UInt8) (inode : Ext4Inode) :
    Call Inode := do
  let inodeNum ← okOr (← allocInode) .noSpace
  inodeCachesInvalidate inodeNum
  let (blockId, offset) ← expect ((← get).fs.getInodePos inodeNum)
  writeInode inodeNum inode
  self.enterNewInode name inodeNum fileType (pure ())
  return ⟨inodeNum, blockId, offset⟩

/-- A zeroed inode with a mode, a link count and the given extents. -/
def extentInode (mode links : Nat) (extents : List Ext4Extent) : Ext4Inode :=
  let inode := ((Ext4Inode.setIMode .zeroed mode).setILinksCount links).setIFlags ext4ExtentsFl
  match writeExtentsLeafInInode inode extents with
  | .ok changed => changed
  | .error _ => inode

/-- Create a new empty regular file under this directory. -/
def createFile (self : Inode) (name : Str) : Call Inode := do
  self.checkNewName name
  self.createInode name Ext4DirEntry.ftRegFile (extentInode (sIfreg ||| 0o666) 1 [])

/-- The inode of a special file: the device number lies in `i_block`. -/
def specialInode (mode rdev : Nat) : Ext4Inode :=
  let inode := ((Ext4Inode.setIMode .zeroed mode).setILinksCount 1).setIFlags 0
  inode.setBlockData ((Bytes.zeroed.putUint 0 4 rdev).putUint 4 4 (rdev / 2 ^ 32))

/-- Create a new special inode (fifo/chr/blk/socket) under this directory. -/
def createSpecial (self : Inode) (name : Str) (mode rdev : Nat) : Call Inode := do
  self.checkNewName name
  let fileType := dirEntryFileTypeFromMode mode
  if fileType = Ext4DirEntry.ftFifo ∨ fileType = Ext4DirEntry.ftChrdev ∨
      fileType = Ext4DirEntry.ftBlkdev ∨ fileType = Ext4DirEntry.ftSock then
    self.createInode name fileType (specialInode mode rdev)
  else throw .invalidInput

/-- Create a new symbolic link under this directory; a failed write of the
target is ignored. -/
def createSymlink (self : Inode) (name target : Str) : Call Inode := do
  self.checkNewName name
  let inode ← self.createInode name Ext4DirEntry.ftSymlink (extentInode (sIflnk ||| 0o777) 1 [])
  let _ ← (inode.writeAt 0 target.bytes).attempt
  return inode

def linksMax : Nat := 2 ^ 16 - 1

/-- Create a hard-link to `target` in this directory. -/
def linkInode (self : Inode) (name : Str) (target : Inode) : Call Unit := do
  self.checkNewName name
  if ← target.isDir then
    throw .unsupported
  else
    let fileType := dirEntryFileTypeFromMode (← target.readDiskInode).iMode
    self.dirAddEntry name target.inodeNum fileType
    target.modifyDiskInode fun inode =>
      inode.setILinksCount (min (inode.iLinksCount + 1) linksMax)
    let fileType := dirEntryFileTypeFromMode (← target.readDiskInode).iMode
    dirIndexCacheUpdate self.inodeNum (·.insert name (target.inodeNum, fileType))

/-- The inode of an empty directory with one block. -/
def dirInode (dataBlock : Nat) : Ext4Inode :=
  ((extentInode (sIfdir ||| 0o755) 2 [.single 0 dataBlock]).setField .iSizeLo
    blockSz).setIBlocksLo sectorsPerBlock

/-- Create a new directory under this directory. -/
def createDir (self : Inode) (name : Str) : Call Inode := do
  self.checkNewName name
  let inodeNum ← okOr (← allocInode) .noSpace
  inodeCachesInvalidate inodeNum
  let dataBlock ← okOr (← allocBlock) .noSpace
  let (blockId, offset) ← expect ((← get).fs.getInodePos inodeNum)
  writeBlock dataBlock .zeroed
  dirWriteEntryAt dataBlock 0 12 inodeNum Ext4DirEntry.ftDir .dot
  dirWriteEntryAt dataBlock 12 (blockSz - 12) self.inodeNum Ext4DirEntry.ftDir .dotDot
  writeInode inodeNum (dirInode dataBlock)
  self.enterNewInode name inodeNum Ext4DirEntry.ftDir (deallocBlock dataBlock)
  self.modifyDiskInode fun inode =>
    inode.setILinksCount (min (inode.iLinksCount + 1) linksMax)
  return ⟨inodeNum, blockId, offset⟩

/-- Free the blocks and the number of an inode without names. -/
def reclaim (self : Inode) : Call Unit := do
  self.freeAllBlocks
  self.modifyDiskInode fun inode =>
    (((inode.setSize 0).setIBlocksLo 0).setILinksCount 0).resetExtentTree
  inodeCachesInvalidate self.inodeNum
  deallocInode self.inodeNum

/-- Drop one link of a non-directory; the last one frees the inode. -/
def dropLink (self : Inode) : Call Unit := do
  self.modifyDiskInode fun inode =>
    if inode.iLinksCount > 0 then inode.setILinksCount (inode.iLinksCount - 1) else inode
  if (← self.readDiskInode).iLinksCount = 0 then
    self.reclaim

/-- Remove a file or an empty directory from this directory. -/
def unlink (self : Inode) (name : Str) : Call Unit := do
  if name.isEmpty ∨ name = .dot ∨ name = .dotDot then
    throw .invalidInput
  else if ¬ (← self.isDir) then
    throw .notADirectory
  else
    let child ← okOr (← self.find name) .notFound
    if ← child.isDir then
      if (← child.ls) ≠ [] then
        throw .unsupported
      else
        let _ ← self.dirRemoveEntry name
        self.modifyDiskInode fun inode => inode.setILinksCount (inode.iLinksCount - 1)
        child.reclaim
    else
      let _ ← self.dirRemoveEntry name
      child.dropLink
    dirIndexCacheUpdate self.inodeNum (·.erase name)

/-- Rename an entry within this directory. -/
def rename (self : Inode) (old new : Str) : Call Unit := do
  if ¬ (← self.isDir) then
    throw .notADirectory
  else if old.isEmpty ∨ new.isEmpty ∨ old = .dot ∨ old = .dotDot ∨ new = .dot ∨ new = .dotDot then
    throw .invalidInput
  else if old = new then
    return ()
  else if (← self.find new).isSome then
    throw .alreadyExists
  else
    let child ← okOr (← self.find old) .notFound
    let inode ← child.readDiskInode
    let fileType :=
      if inode.isDir then Ext4DirEntry.ftDir
      else if inode.isFile then Ext4DirEntry.ftRegFile
      else Ext4DirEntry.ftUnknown
    self.dirAddEntry new child.inodeNum fileType
    let _ ← self.dirRemoveEntry old
    dirIndexCacheUpdate self.inodeNum fun index =>
      (index.erase old).insert new (child.inodeNum, fileType)

end Inode

end Ext4

end OSWorkspace
