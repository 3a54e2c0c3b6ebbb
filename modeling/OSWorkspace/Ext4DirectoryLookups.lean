import OSWorkspace.Ext4Directories
import OSWorkspace.Ext4FileContents

/-!
# Looking up names

The entries of a directory are a function of its inode and its blocks, and the
index of its names is the cached one or the one built from the entries.  This
file gives these functions on views, shows that the calls compute them, and says
what a lookup may change: the caches, and the mode of a child without a type.
-/

namespace OSWorkspace

namespace Ext4

open Exec View

/-- A scan reads only the bytes before its end. -/
theorem scanDirents_congr {first second : Block} {toRead : Nat}
    (agree : ∀ index < toRead, first.get index = second.get index) (fuel pos : Nat) :
    scanDirents first toRead fuel pos = scanDirents second toRead fuel pos := by
  induction fuel generalizing pos with
  | zero => rfl
  | succ fuel ih =>
      rw [scanDirents, scanDirents]
      by_cases inside : pos + Ext4DirEntry.fixedSize ≤ toRead
      · have sameEntry : first.load Ext4DirEntry.record pos =
            second.load Ext4DirEntry.record pos := by
          apply Bytes.load_congr
          intro index indexLt
          have width : Ext4DirEntry.record.width = Ext4DirEntry.fixedSize := rfl
          exact agree _ (by omega)
        have sameBinding (entry : Ext4DirEntry) :
            direntBinding first toRead pos entry = direntBinding second toRead pos entry := by
          simp only [direntBinding]
          split
          · next live =>
              rw [Bytes.slice_congr fun index lower upper => agree index (by omega)]
          · rfl
        rw [if_pos inside, if_pos inside, sameEntry]
        simp only [sameBinding, ih]
      · rw [if_neg inside, if_neg inside]

namespace View

theorem extents_withExtentsCache (view : View) (cache : Std.TreeMap Nat (List Ext4Extent))
    (inodeNum : Nat) :
    View.extents { view with extentsCache := cache } inodeNum = view.extents inodeNum := by
  rw [extents, extents, inode_withExtentsCache]

/-- A block of a file as a read sees it. -/
def fileBlock (view : View) (inodeNum lblock : Nat) : Block :=
  fun index => byteAt view.data (view.extents inodeNum) (lblock * blockSz + index.val)

/-- The entries of the blocks from a logical block on. -/
def entriesFrom (view : View) (inodeNum dirSize : Nat) : (fuel lblock : Nat) → List DirBinding
  | 0, _ => []
  | fuel + 1, lblock =>
      let toRead := min blockSz (dirSize - lblock * blockSz)
      if lblock * blockSz < dirSize ∧ Ext4DirEntry.fixedSize ≤ toRead then
        scanDirents (view.fileBlock inodeNum lblock) toRead toRead 0 ++
          view.entriesFrom inodeNum dirSize fuel (lblock + 1)
      else []

/-- The entries of a directory. -/
def entries (view : View) (inodeNum : Nat) : List DirBinding :=
  view.entriesFrom inodeNum (view.inode inodeNum).size
    ((view.inode inodeNum).size / blockSz + 1) 0

/-- The index of a directory: the cached one, or the one of its entries. -/
def dirIndex (view : View) (inodeNum : Nat) : DirIndex :=
  match view.dirIndexCache[inodeNum]? with
  | some index => index
  | none => (view.entries inodeNum).foldl Inode.insertBinding ∅

/-- A directory in use, with a block behind every byte below its size. -/
structure Directory (reserved : Set Nat) (view : View) (dir : Nat) : Prop where
  isInode : view.fs.IsInode dir
  inUse : dir ∈ view.held .inode
  owning : view.Owning reserved dir
  coherent : view.Coherent dir
  isDir : (view.inode dir).isDir = true
  usesExtents : (view.inode dir).usesExtents = true
  ordered : Ordered (view.extents dir)
  bounded : Bounded (view.extents dir)
  mapped : ∀ lblock, lblock * blockSz < (view.inode dir).size →
    ∃ pblock, Maps (view.extents dir) lblock pblock
  numbers : ∀ (name : Str) inodeNum fileType,
    (view.dirIndex dir)[name]? = some (inodeNum, fileType) → inodeNum < 2 ^ 32

/-- The entries depend on the inode, its extents and their blocks. -/
theorem entriesFrom_congr {view other : View} {inodeNum : Nat}
    (sameExtents : other.extents inodeNum = view.extents inodeNum)
    (agree : ∀ blockId ∈ dataBlocks (view.extents inodeNum),
      other.data blockId = view.data blockId) (dirSize fuel lblock : Nat) :
    other.entriesFrom inodeNum dirSize fuel lblock =
      view.entriesFrom inodeNum dirSize fuel lblock := by
  have sameBlock (lblock : Nat) :
      other.fileBlock inodeNum lblock = view.fileBlock inodeNum lblock := by
    funext index
    rw [fileBlock, fileBlock, sameExtents]
    exact byteAt_congr agree _
  induction fuel generalizing lblock with
  | zero => rfl
  | succ fuel ih => rw [entriesFrom, entriesFrom, sameBlock, ih]

theorem entries_congr {view other : View} {inodeNum : Nat}
    (sameInode : other.inode inodeNum = view.inode inodeNum)
    (sameExtents : other.extents inodeNum = view.extents inodeNum)
    (agree : ∀ blockId ∈ dataBlocks (view.extents inodeNum),
      other.data blockId = view.data blockId) :
    other.entries inodeNum = view.entries inodeNum := by
  rw [entries, entries, sameInode, entriesFrom_congr sameExtents agree]

/-- A directory that is left alone is still one. -/
theorem Directory.of_unchanged {reserved : Set Nat} {view after : View} {dir : Nat}
    (directory : view.Directory reserved dir) (sameFs : after.fs = view.fs)
    (inUse : dir ∈ after.held .inode) (unchanged : Unchanged view after dir)
    (coherent : after.Coherent dir) (sameIndex : after.dirIndex dir = view.dirIndex dir) :
    after.Directory reserved dir := by
  have sameExtents := unchanged.extents_eq
  have sameInode := unchanged.inode
  exact ⟨by rw [sameFs]; exact directory.isInode, inUse, unchanged.owning directory.owning,
    coherent, by rw [sameInode]; exact directory.isDir,
    by rw [sameInode]; exact directory.usesExtents, by rw [sameExtents]; exact directory.ordered,
    by rw [sameExtents]; exact directory.bounded,
    by rw [sameInode, sameExtents]; exact directory.mapped,
    by rw [sameIndex]; exact directory.numbers⟩

theorem Unchanged.entries_eq {view after : View} {inodeNum : Nat}
    (unchanged : Unchanged view after inodeNum) :
    after.entries inodeNum = view.entries inodeNum :=
  entries_congr unchanged.inode unchanged.extents_eq fun blockId isData =>
    unchanged.data blockId (mem_owned.mpr (Or.inl isData))

end View

theorem getElem?_insertBinding (index : DirIndex) (binding : DirBinding) (name : Str) :
    (Inode.insertBinding index binding)[name]? =
      if binding.name = name then some (binding.inodeNum, binding.fileType) else index[name]? := by
  rw [Inode.insertBinding, Std.TreeMap.getElem?_insert]
  simp only [Std.LawfulEqCmp.compare_eq_iff_eq]

/-- Names without an entry keep their place in the index. -/
theorem getElem?_foldl_of_absent {entries : List DirBinding} {name : Str}
    (absent : ∀ binding ∈ entries, binding.name ≠ name) (index : DirIndex) :
    (entries.foldl Inode.insertBinding index)[name]? = index[name]? := by
  induction entries generalizing index with
  | nil => rfl
  | cons binding entries ih =>
      rw [List.foldl_cons, ih (fun other isMem => absent other (List.mem_cons_of_mem _ isMem)),
        getElem?_insertBinding, if_neg (absent binding List.mem_cons_self)]

/-- What the index holds was put there by an entry. -/
theorem mem_of_getElem?_foldl {entries : List DirBinding} {index : DirIndex} {name : Str}
    {inodeNum : Nat} {fileType : UInt8}
    (found : (entries.foldl Inode.insertBinding index)[name]? = some (inodeNum, fileType)) :
    index[name]? = some (inodeNum, fileType) ∨ ⟨name, inodeNum, fileType⟩ ∈ entries := by
  induction entries generalizing index with
  | nil => exact Or.inl found
  | cons binding entries ih =>
      rcases ih found with inserted | isMem
      · rw [getElem?_insertBinding] at inserted
        split at inserted
        · next same =>
            cases inserted
            subst same
            exact Or.inr List.mem_cons_self
        · exact Or.inl inserted
      · exact Or.inr (List.mem_cons_of_mem _ isMem)

/-- The index of entries with distinct names. -/
theorem getElem?_foldl_iff {entries : List DirBinding}
    (distinct : (entries.map DirBinding.name).Nodup) (name : Str) (inodeNum : Nat)
    (fileType : UInt8) :
    (entries.foldl Inode.insertBinding ∅)[name]? = some (inodeNum, fileType) ↔
      ⟨name, inodeNum, fileType⟩ ∈ entries := by
  constructor
  · intro found
    exact (mem_of_getElem?_foldl found).resolve_left (by simp)
  · intro isMem
    obtain ⟨before, behind, rfl⟩ := List.append_of_mem isMem
    rw [List.map_append, List.map_cons, List.nodup_append, List.nodup_cons] at distinct
    have absent : ∀ binding ∈ behind, binding.name ≠ name := by
      rintro binding isBehind rfl
      exact distinct.2.1.1 (List.mem_map.mpr ⟨binding, isBehind, rfl⟩)
    rw [List.foldl_append, List.foldl_cons, getElem?_foldl_of_absent absent,
      getElem?_insertBinding, if_pos rfl]

theorem inodeNum_lt_of_scan {block : Block} {toRead fuel pos : Nat} {binding : DirBinding}
    (isMem : binding ∈ scanDirents block toRead fuel pos) : binding.inodeNum < 2 ^ 32 := by
  induction fuel generalizing pos with
  | zero => cases isMem
  | succ fuel ih =>
      rw [scanDirents] at isMem
      split at isMem
      · simp only at isMem
        split at isMem
        · cases isMem
        · rcases List.mem_append.mp isMem with isHere | isLater
          · rw [Option.mem_toList, direntBinding] at isHere
            split at isHere
            · obtain ⟨name, _, rfl⟩ := Option.map_eq_some_iff.mp isHere
              exact UInt32.toNat_lt _
            · cases isHere
          · exact ih isLater
      · cases isMem

theorem View.inodeNum_lt_of_entries {view : View} {dir : Nat} {binding : DirBinding}
    (isMem : binding ∈ view.entries dir) : binding.inodeNum < 2 ^ 32 := by
  suffices ∀ dirSize fuel lblock, binding ∈ view.entriesFrom dir dirSize fuel lblock →
      binding.inodeNum < 2 ^ 32 from this _ _ _ isMem
  intro dirSize fuel lblock isMem
  induction fuel generalizing lblock with
  | zero => cases isMem
  | succ fuel ih =>
      rw [entriesFrom] at isMem
      split at isMem
      · rcases List.mem_append.mp isMem with isHere | isLater
        · exact inodeNum_lt_of_scan isHere
        · exact ih _ isLater
      · cases isMem

/-- The numbers of an index that is built from the entries have 32 bits. -/
theorem View.numbers_of_built {view : View} {dir : Nat}
    (notCached : view.dirIndexCache[dir]? = none) (name : Str) (inodeNum : Nat)
    (fileType : UInt8) (found : (view.dirIndex dir)[name]? = some (inodeNum, fileType)) :
    inodeNum < 2 ^ 32 := by
  rw [View.dirIndex, notCached] at found
  rcases mem_of_getElem?_foldl found with isEmpty | isMem
  · simp at isEmpty
  · exact view.inodeNum_lt_of_entries isMem

/-- The extents of one inode may have been cached. -/
structure Reread (inodeNum : Nat) (volume after : Volume) : Prop where
  state : after = { volume with extentsCache := after.extentsCache }
  shrinks : CacheShrinks (· ≠ inodeNum) volume.extentsCache after.extentsCache
  coherent : after.view.Coherent inodeNum

namespace Reread

variable {inodeNum : Nat} {volume after last : Volume}

theorem trans (first : Reread inodeNum volume after) (second : Reread inodeNum after last) :
    Reread inodeNum volume last := by
  refine ⟨?_, ?_, second.coherent⟩
  · rw [second.state, first.state]
  · intro key different value found
    exact first.shrinks key different value (second.shrinks key different value found)

theorem view_eq (reread : Reread inodeNum volume after) :
    after.view = { volume.view with extentsCache := after.extentsCache } := by
  conv_lhs => rw [reread.state]
  exact Volume.view_setExtentsCache _ _

theorem unchanged (reread : Reread inodeNum volume after) (other : Nat) :
    Unchanged volume.view after.view other := by
  rw [reread.view_eq]
  exact ⟨rfl, fun _ _ => rfl, fun _ _ isHeld => isHeld⟩

theorem fs_eq (reread : Reread inodeNum volume after) : after.view.fs = volume.view.fs := by
  rw [reread.view_eq]

theorem mounted {reserved : Set Nat} (reread : Reread inodeNum volume after)
    (mounted : volume.view.Mounted reserved) : after.view.Mounted reserved := by
  rw [reread.view_eq]
  exact ⟨mounted.geometry, mounted.small, mounted.layout, mounted.reserved⟩

theorem directory {reserved : Set Nat} (reread : Reread inodeNum volume after)
    (directory : volume.view.Directory reserved inodeNum) :
    after.view.Directory reserved inodeNum := by
  have unchanged := reread.unchanged inodeNum
  refine directory.of_unchanged reread.fs_eq ?_ unchanged reread.coherent ?_
  · rw [reread.view_eq]
    exact directory.inUse
  · have sameCache : after.view.dirIndexCache = volume.view.dirIndexCache := by
      rw [reread.view_eq]
    rw [View.dirIndex, View.dirIndex, sameCache, unchanged.entries_eq]

end Reread

theorem Ext4Inode.not_isSymlink_of_isDir {inode : Ext4Inode} (isDir : inode.isDir = true) :
    inode.isSymlink = false := by
  have kind : inode.fileType = sIfdir := of_decide_eq_true isDir
  rw [Ext4Inode.isSymlink, kind]
  rfl

theorem Volume.Filled.state_eq {volume after : Volume} {self : Inode}
    (filled : volume.Filled self after) :
    after = { volume with extentsCache := after.extentsCache } := by
  rcases filled with rfl | ran
  · rfl
  · cases ran
    rfl

section Reading

variable {reserved : Set Nat} {dir : Nat} {volume : Volume}
  (mounted : volume.view.Mounted reserved) (directory : volume.view.Directory reserved dir)

include mounted directory

theorem reread_of_filled {after : Volume}
    (filled : volume.Filled (volume.view.fs.handle dir) after) : Reread dir volume after := by
  have step := readStep_of_filled mounted directory.isInode directory.owning directory.coherent
    directory.usesExtents filled
  exact ⟨filled.state_eq, step.step.extentsCache, step.step.coherent⟩

/-- Reading a part of a block below the size of a directory. -/
theorem run_readAt_dir {offset : Nat} {buf : List UInt8}
    (inside : offset + buf.length ≤ (volume.view.inode dir).size) :
    ∃ after, ((volume.view.fs.handle dir).readAt offset buf).run volume =
        .ok (buf.length, (List.range buf.length).map fun index =>
          byteAt volume.view.data (volume.view.extents dir) (offset + index)) after ∧
      Reread dir volume after := by
  have sameInode := inodeOf_handle mounted directory.isInode
  have sameExtents := extentsOf_handle mounted directory.isInode directory.owning
    directory.usesExtents
  obtain ⟨after, ran, filled⟩ := @Inode.run_readAt volume (volume.view.fs.handle dir)
    (mounted.layout.handle_spec mounted.geometry directory.isInode).2.2.2
    (by rw [sameInode]; simp [Ext4Inode.not_isSymlink_of_isDir directory.isDir])
    (by rw [sameInode]; exact directory.usesExtents)
    (by
      intro extents found
      rw [sameExtents]
      exact directory.coherent extents found)
    (by rw [sameExtents]; exact directory.ordered) offset buf
  rw [sameInode, sameExtents, Nat.min_eq_left (by omega), List.drop_length,
    List.append_nil] at ran
  refine ⟨after, ?_, reread_of_filled mounted directory filled⟩
  simp only [byteAt_view mounted directory.owning] at ran
  exact ran

end Reading

theorem run_readDirBlocks {reserved : Set Nat} {dir : Nat} {volume : Volume}
    (mounted : volume.view.Mounted reserved) (directory : volume.view.Directory reserved dir)
    (fuel lblock : Nat) (buf : Block) :
    ∃ after, ((volume.view.fs.handle dir).readDirBlocks (volume.view.inode dir).size fuel
          (lblock * blockSz) buf).run volume =
        .ok (volume.view.entriesFrom dir (volume.view.inode dir).size fuel lblock) after ∧
      Reread dir volume after := by
  have same : Reread dir volume volume :=
    ⟨rfl, fun _ _ _ found => found, directory.coherent⟩
  induction fuel generalizing volume lblock buf with
  | zero => exact ⟨volume, rfl, same⟩
  | succ fuel ih =>
      rw [Inode.readDirBlocks, View.entriesFrom]
      by_cases inside : lblock * blockSz < (volume.view.inode dir).size
      · simp only [inside, if_true, true_and]
        generalize toReadEq :
          min blockSz ((volume.view.inode dir).size - lblock * blockSz) = toRead
        by_cases short : toRead < Ext4DirEntry.fixedSize
        · refine ⟨volume, ?_, same⟩
          rw [if_pos short, if_neg (Nat.not_le.mpr short)]
          rfl
        · rw [if_neg short, if_pos (Nat.not_lt.mp short)]
          obtain ⟨middle, ran, reread⟩ := @run_readAt_dir reserved dir volume mounted directory
            (lblock * blockSz) (buf.slice 0 toRead) (by rw [Bytes.length_slice]; omega)
          rw [Bytes.length_slice] at ran
          generalize bytesEq : (List.range toRead).map (fun index =>
            byteAt volume.view.data (volume.view.extents dir) (lblock * blockSz + index)) = bytes
            at ran
          have sameScan : scanDirents (buf.write 0 bytes) toRead toRead 0 =
              scanDirents (volume.view.fileBlock dir lblock) toRead toRead 0 := by
            apply scanDirents_congr
            intro index indexLt
            have lengthEq : bytes.length = toRead := by rw [← bytesEq]; simp
            have indexSmall : index < blockSz := by omega
            rw [Bytes.write, Bytes.get_overlay_inside _ _ (Nat.zero_le _) (by omega) indexSmall,
              Nat.sub_zero, ← bytesEq, List.getD_eq_getElem?_getD, List.getElem?_map,
              List.getElem?_range indexLt]
            simp only [Bytes.get, View.fileBlock, indexSmall, dif_pos]
            rfl
          obtain ⟨after, rest, restReread⟩ := @ih middle (reread.mounted mounted)
            (reread.directory directory) (lblock + 1) (buf.write 0 bytes)
            ⟨rfl, fun _ _ _ found => found, reread.coherent⟩
          have unchanged := reread.unchanged dir
          rw [reread.fs_eq, unchanged.inode, entriesFrom_congr unchanged.extents_eq
            fun blockId isData => unchanged.data blockId (mem_owned.mpr (Or.inl isData))] at rest
          refine ⟨after, ?_, reread.trans restReread⟩
          rw [run_bind_ok ran]
          simp only
          rw [show lblock * blockSz + blockSz = (lblock + 1) * blockSz by rw [Nat.succ_mul],
            run_bind_ok rest, run_pure, sameScan]
      · refine ⟨volume, ?_, same⟩
        rw [if_neg inside, if_neg fun both => inside both.1]
        rfl

section Lookups

variable {reserved : Set Nat} {dir : Nat} {volume : Volume}
  (mounted : volume.view.Mounted reserved) (directory : volume.view.Directory reserved dir)

include mounted directory

theorem run_readDiskInode_dir :
    (volume.view.fs.handle dir).readDiskInode.run volume =
      .ok (volume.view.inode dir) volume :=
  view_readDiskInode mounted.layout mounted.geometry directory.isInode

theorem run_isDir_dir : (volume.view.fs.handle dir).isDir.run volume = .ok true volume := by
  rw [Inode.isDir, run_bind_ok (run_readDiskInode_dir mounted directory), directory.isDir]
  rfl

theorem run_size_dir :
    (volume.view.fs.handle dir).size.run volume = .ok (volume.view.inode dir).size volume := by
  rw [Inode.size, run_bind_ok (run_readDiskInode_dir mounted directory)]
  rfl

theorem run_dirEntries :
    ∃ after, (volume.view.fs.handle dir).dirEntries.run volume =
        .ok (volume.view.entries dir) after ∧
      Reread dir volume after := by
  obtain ⟨after, ran, reread⟩ := run_readDirBlocks mounted directory
    ((volume.view.inode dir).size / blockSz + 1) 0 .zeroed
  refine ⟨after, ?_, reread⟩
  rw [Inode.dirEntries, Inode.readDirEntries, run_bind_ok (run_isDir_dir mounted directory)]
  simp only [if_true]
  rw [run_bind_ok (run_size_dir mounted directory)]
  rw [Nat.zero_mul] at ran
  exact ran

end Lookups

/-- The index of a directory is cached. -/
structure Consulted (dir : Nat) (volume after : Volume) : Prop where
  state : after = { volume with
    extentsCache := after.extentsCache, dirIndexCache := after.dirIndexCache }
  shrinks : CacheShrinks (· ≠ dir) volume.extentsCache after.extentsCache
  coherent : after.view.Coherent dir
  index : after.dirIndexCache[dir]? = some (volume.view.dirIndex dir)
  indexShrinks : CacheShrinks (· ≠ dir) volume.dirIndexCache after.dirIndexCache

theorem run_dirIndex {reserved : Set Nat} {dir : Nat} {volume : Volume}
    (mounted : volume.view.Mounted reserved) (directory : volume.view.Directory reserved dir) :
    ∃ after, (volume.view.fs.handle dir).dirIndex.run volume =
        .ok (volume.view.dirIndex dir) after ∧
      Consulted dir volume after := by
  rw [Inode.dirIndex, run_bind_ok (run_get _)]
  cases cached : volume.dirIndexCache[(volume.view.fs.handle dir).inodeNum]? with
  | some index =>
      have indexEq : volume.view.dirIndex dir = index := by
        have found : volume.view.dirIndexCache[dir]? = some index := cached
        rw [View.dirIndex, found]
      refine ⟨volume, by rw [indexEq]; rfl, rfl, fun _ _ _ found => found, directory.coherent, ?_,
        fun _ _ _ found => found⟩
      rw [indexEq]
      exact cached
  | none =>
      have indexEq : volume.view.dirIndex dir =
          (volume.view.entries dir).foldl Inode.insertBinding ∅ := by
        have found : volume.view.dirIndexCache[dir]? = none := cached
        rw [View.dirIndex, found]
      obtain ⟨middle, ran, reread⟩ := run_dirEntries mounted directory
      have built : (volume.view.fs.handle dir).buildDirIndex.run volume =
          .ok ((volume.view.entries dir).foldl Inode.insertBinding ∅) middle := by
        rw [Inode.buildDirIndex]
        exact run_bind_ok ran
      simp only
      rw [run_bind_ok built, ← indexEq, run_bind_ok (run_modify _ _), run_pure]
      refine ⟨_, rfl, ?_, reread.shrinks, ?_, ?_, ?_⟩
      · have sameFs : middle.fs = volume.fs := by rw [reread.state]
        have sameDisk : middle.disk = volume.disk := by rw [reread.state]
        simp only [sameFs, sameDisk]
      · have coherent := reread.coherent
        intro extents found
        rw [Volume.view_setDirIndexCache] at found ⊢
        exact coherent extents found
      · exact Std.TreeMap.getElem?_insert_self
      · intro key different value found
        have sameIndexes : middle.dirIndexCache = volume.dirIndexCache := by
          rw [reread.state]
        have found : ((if middle.dirIndexCache.size ≥ dirIndexCacheMax then ∅
            else middle.dirIndexCache).insert dir (volume.view.dirIndex dir))[key]? =
              some value := found
        rw [Std.TreeMap.getElem?_insert, if_neg (by
          rw [Std.LawfulEqCmp.compare_eq_iff_eq]; exact Ne.symm different)] at found
        split at found
        · simp at found
        · rw [← sameIndexes]
          exact found

/-- The mode of the inode has type bits. -/
def Ext4Inode.Typed (inode : Ext4Inode) : Prop := inode.iMode &&& sIfmt ≠ 0

theorem Ext4Inode.typed_of_isDir {inode : Ext4Inode} (isDir : inode.isDir = true) :
    inode.Typed := by
  have kind : inode.iMode &&& sIfmt = sIfdir := of_decide_eq_true isDir
  rw [Ext4Inode.Typed, kind]
  decide

/-- A lookup may fill the caches and give a type to children without one. -/
structure Looked (reserved : Set Nat) (dir : Nat) (volume after : Volume) : Prop where
  fs : after.fs = volume.fs
  bitmaps : ∀ blockId, volume.fs.IsBitmap blockId → after.disk blockId = volume.disk blockId
  blocks : ∀ blockId ∉ reserved, after.disk blockId = volume.disk blockId
  inodes : ∀ other, volume.view.fs.IsInode other → (volume.view.inode other).Typed →
    after.view.inode other = volume.view.inode other
  contents : ∀ other, volume.view.fs.IsInode other →
    (after.view.inode other).blockData = (volume.view.inode other).blockData ∧
      ∀ field, field ≠ .iMode →
        (after.view.inode other).field field = (volume.view.inode other).field field
  coherent : after.view.Coherent dir
  index : after.dirIndexCache[dir]? = some (volume.view.dirIndex dir)

namespace Looked

variable {reserved : Set Nat} {dir : Nat} {volume after last : Volume}

theorem view_fs (looked : Looked reserved dir volume after) :
    after.view.fs = volume.view.fs :=
  congrArg Ext4FileSystem.shape looked.fs

theorem dirIndex_eq (looked : Looked reserved dir volume after) :
    after.view.dirIndex dir = volume.view.dirIndex dir := by
  have found : after.view.dirIndexCache[dir]? = some (volume.view.dirIndex dir) := looked.index
  rw [View.dirIndex, found]

theorem trans (first : Looked reserved dir volume after)
    (second : Looked reserved dir after last) : Looked reserved dir volume last := by
  constructor
  · exact second.fs.trans first.fs
  · intro blockId isBitmap
    rw [second.bitmaps blockId (by rw [first.fs]; exact isBitmap), first.bitmaps blockId isBitmap]
  · intro blockId outside
    rw [second.blocks blockId outside, first.blocks blockId outside]
  · intro other isOther typed
    have same := first.inodes other isOther typed
    rw [second.inodes other (by rw [first.view_fs]; exact isOther) (by rw [same]; exact typed),
      same]
  · intro other isOther
    obtain ⟨firstData, firstFields⟩ := first.contents other isOther
    obtain ⟨secondData, secondFields⟩ := second.contents other (by
      rw [first.view_fs]; exact isOther)
    exact ⟨secondData.trans firstData, fun field notMode =>
      (secondFields field notMode).trans (firstFields field notMode)⟩
  · exact second.coherent
  · rw [second.index, first.dirIndex_eq]

theorem held_eq (looked : Looked reserved dir volume after)
    (geometry : Geometry volume.view.fs) : after.view.held = volume.view.held := by
  have geometry := Volume.geometry_view.mp geometry
  funext resource
  ext item
  have sameBitmap (group : Nat) :
      after.bitmapAt resource group = volume.bitmapAt resource group := by
    cases resource <;> simp only [Volume.bitmapAt, Volume.bitmapOf, Volume.blockBitmapOf,
      Volume.inodeBitmapOf, looked.fs]
  have samePerGroup : after.perGroup resource = volume.perGroup resource := by
    cases resource <;> simp only [Volume.perGroup, looked.fs]
  have sameItems : after.IsItem resource item ↔ volume.IsItem resource item := by
    cases resource <;> simp only [Volume.IsItem, Volume.itemCount, looked.fs]
  rw [Volume.mem_held, Volume.mem_held, sameItems]
  apply and_congr_right
  intro isItem
  rw [Volume.used, Volume.used, sameBitmap, samePerGroup,
    looked.bitmaps _ (Volume.bitmapAt_isBitmap (isItem.group_lt geometry))]

theorem data_eq (looked : Looked reserved dir volume after) {blockId : Nat}
    (outside : blockId ∉ reserved) : after.view.data blockId = volume.view.data blockId := by
  simp only [Volume.view, looked.fs, looked.blocks blockId outside]

theorem unchanged (looked : Looked reserved dir volume after)
    (mounted : volume.view.Mounted reserved) (directory : volume.view.Directory reserved dir) :
    Unchanged volume.view after.view dir := by
  refine ⟨looked.inodes dir directory.isInode (Ext4Inode.typed_of_isDir directory.isDir), ?_, ?_⟩
  · intro blockId isOwned
    exact looked.data_eq (directory.owning.outside blockId isOwned)
  · intro blockId _ isHeld
    rw [looked.held_eq mounted.geometry]
    exact isHeld

theorem mounted (looked : Looked reserved dir volume after)
    (mounted : volume.view.Mounted reserved) : after.view.Mounted reserved := by
  refine ⟨by rw [looked.view_fs]; exact mounted.geometry,
    by rw [looked.view_fs]; exact mounted.small, by rw [looked.view_fs]; exact mounted.layout, ?_⟩
  rw [looked.held_eq mounted.geometry]
  exact mounted.reserved

theorem directory (looked : Looked reserved dir volume after)
    (mounted : volume.view.Mounted reserved) (directory : volume.view.Directory reserved dir) :
    after.view.Directory reserved dir := by
  refine directory.of_unchanged looked.view_fs ?_ (looked.unchanged mounted directory)
    looked.coherent looked.dirIndex_eq
  rw [looked.held_eq mounted.geometry]
  exact directory.inUse

end Looked

theorem Consulted.looked {reserved : Set Nat} {dir : Nat} {volume after : Volume}
    (consulted : Consulted dir volume after) : Looked reserved dir volume after := by
  have sameFs : after.fs = volume.fs := by rw [consulted.state]
  have sameDisk : after.disk = volume.disk := by rw [consulted.state]
  have sameInode (other : Nat) : after.view.inode other = volume.view.inode other := by
    rw [consulted.state]
    rfl
  exact ⟨sameFs, fun _ _ => by rw [sameDisk], fun _ _ => by rw [sameDisk],
    fun other _ _ => sameInode other, fun other _ => by simp [sameInode],
    consulted.coherent, consulted.index⟩

theorem Consulted.reread {dir : Nat} {volume middle after : Volume}
    (consulted : Consulted dir volume middle) (reread : Reread dir middle after) :
    Consulted dir volume after := by
  have sameIndexes : after.dirIndexCache = middle.dirIndexCache := by rw [reread.state]
  refine ⟨?_, ?_, reread.coherent, by rw [sameIndexes]; exact consulted.index,
    by rw [sameIndexes]; exact consulted.indexShrinks⟩
  · rw [reread.state, consulted.state]
  · intro key different value found
    exact consulted.shrinks key different value (reread.shrinks key different value found)

theorem isInode_of_getInodePos {fs : Ext4FileSystem} (geometry : Geometry fs) {inodeNum : Nat}
    (small : inodeNum < 2 ^ 32) {position : Nat × Nat}
    (found : fs.getInodePos inodeNum = some position) : fs.IsInode inodeNum := by
  have count := geometry.inodes
  have positive := geometry.inodesPerGroup.1
  simp only [Ext4FileSystem.getInodePos] at found
  split at found
  · cases found
  · obtain ⟨desc, descFound, _⟩ := Option.map_eq_some_iff.mp found
    have groupLt := (List.getElem?_eq_some_iff.mp descFound).1
    have indexLt := (Nat.div_lt_iff_lt_mul positive).mp groupLt
    rw [Nat.mul_comm] at indexLt
    constructor <;> omega

/-- The cached extents of one inode may have changed. -/
structure Recached (inodeNum : Nat) (volume after : Volume) : Prop where
  state : after = { volume with extentsCache := after.extentsCache }
  shrinks : CacheShrinks (· ≠ inodeNum) volume.extentsCache after.extentsCache

theorem Recached.refl (inodeNum : Nat) (volume : Volume) : Recached inodeNum volume volume :=
  ⟨rfl, fun _ _ _ found => found⟩

theorem run_cachedExtents_recached {volume : Volume} {self : Inode}
    (fits : self.blockOffset + inodeStructSize ≤ blockSz) :
    ∃ extents after, self.cachedExtents.run volume = .ok extents after ∧
      Recached self.inodeNum volume after := by
  have read := @Inode.run_readDiskInode volume self fits
  rw [Inode.cachedExtents, run_bind_ok (run_get _)]
  cases cached : volume.extentsCache[self.inodeNum]? with
  | some extents => exact ⟨extents, volume, rfl, Recached.refl _ _⟩
  | none =>
      obtain ⟨after, put, cache, afterView, shrinks, _⟩ := view_extentsCachePut volume
        self.inodeNum (parseExtentTree volume.disk (volume.inodeOf self).blockData)
      refine ⟨parseExtentTree volume.disk (volume.inodeOf self).blockData, after, ?_, ?_, ?_⟩
      · simp only
        rw [run_bind_ok read, run_bind_ok (run_get _), run_bind_ok put, run_pure]
      · cases put
        rfl
      · have sameCache : after.extentsCache = cache := congrArg View.extentsCache afterView
        rw [sameCache]
        exact shrinks

/-- The first block is behind a direct pointer. -/
theorem readIndirect_first (disk : Nat → Block) (blocks : Bytes iBlockSize) (fuel : Nat)
    {remaining : Nat} (short : remaining ≤ blockSz) :
    readIndirect disk blocks fuel 0 remaining ≠ none := by
  cases fuel with
  | zero => exact Option.some_ne_none _
  | succ fuel =>
      have direct : getBlockNum disk blocks (0 / blockSz) = some (blocks.uint 0 4) := rfl
      have toRead : min remaining (blockSz - 0 % blockSz) = remaining := by
        rw [Nat.zero_mod, Nat.sub_zero]
        exact Nat.min_eq_left short
      have rest : readIndirect disk blocks fuel (0 + remaining) (remaining - remaining) =
          some [] := by
        rw [Nat.sub_self]
        cases fuel <;> simp [readIndirect]
      simp only [readIndirect, direct, toRead, rest]
      split
      · exact Option.some_ne_none _
      · split
        · next isNone => cases isNone
        all_goals simp

/-- Reading an inode that is mapped by extents, or only its first block, changes
at most its cached extents. -/
theorem run_readAt_recached {volume : Volume} {self : Inode}
    (fits : self.blockOffset + inodeStructSize ≤ blockSz) {offset : Nat} {buf : List UInt8}
    (readable : (volume.inodeOf self).usesExtents = true ∨
      offset = 0 ∧ min buf.length (volume.inodeOf self).size ≤ blockSz) :
    ∃ value after, (self.readAt offset buf).run volume = .ok value after ∧
      Recached self.inodeNum volume after := by
  have read := @Inode.run_readDiskInode volume self fits
  rw [Inode.readAt, run_bind_ok read]
  simp only
  split
  · exact ⟨_, volume, rfl, Recached.refl _ _⟩
  · split
    · exact ⟨_, volume, rfl, Recached.refl _ _⟩
    · split
      · obtain ⟨extents, after, ran, recached⟩ := @run_cachedExtents_recached volume self fits
        exact ⟨_, after, run_bind_ok ran, recached⟩
      · next legacy =>
          obtain ⟨rfl, short⟩ := readable.resolve_left legacy
          rw [run_bind_ok (run_get _), Nat.sub_zero]
          obtain ⟨bytes, found⟩ := Option.ne_none_iff_exists'.mp
            (readIndirect_first volume.disk (volume.inodeOf self).blockData
              (min buf.length (volume.inodeOf self).size) short)
          rw [found]
          exact ⟨_, volume, run_bind_ok (run_expect_some _ _), Recached.refl _ _⟩

theorem run_looksLikeDir_recached {volume : Volume} {self : Inode}
    (fits : self.blockOffset + inodeStructSize ≤ blockSz) :
    ∃ result after, self.looksLikeDir.run volume = .ok result after ∧
      Recached self.inodeNum volume after := by
  have read : self.size.run volume = .ok (volume.inodeOf self).size volume := by
    rw [Inode.size, run_bind_ok (Inode.run_readDiskInode fits)]
    rfl
  rw [Inode.looksLikeDir, run_bind_ok read]
  split
  · exact ⟨false, volume, rfl, Recached.refl _ _⟩
  · obtain ⟨⟨count, bytes⟩, after, ran, recached⟩ := @run_readAt_recached volume self fits 0
      (List.replicate (min blockSz (volume.inodeOf self).size) 0)
      (Or.inr ⟨rfl, by rw [List.length_replicate]; omega⟩)
    rw [run_bind_ok ran]
    simp only
    split
    · exact ⟨false, after, rfl, recached⟩
    · exact ⟨_, after, rfl, recached⟩

theorem run_kindFromEntry_recached {volume : Volume} {self : Inode}
    (fits : self.blockOffset + inodeStructSize ≤ blockSz) (fileType : UInt8) :
    ∃ kind after, (self.kindFromEntry fileType).run volume = .ok kind after ∧
      Recached self.inodeNum volume after := by
  rw [Inode.kindFromEntry]
  repeat' split
  all_goals try exact ⟨_, volume, rfl, Recached.refl _ _⟩
  obtain ⟨result, after, ran, recached⟩ := @run_looksLikeDir_recached volume self fits
  rw [run_bind_ok ran]
  cases result <;> exact ⟨_, after, rfl, recached⟩

theorem Inode.run_modifyDiskInode {volume : Volume} {self : Inode}
    (fits : self.blockOffset + inodeStructSize ≤ blockSz) (change : Ext4Inode → Ext4Inode) :
    (self.modifyDiskInode change).run volume = .ok () (volume.putBlock self.blockId
      ((volume.disk self.blockId).paste self.blockOffset (change (volume.inodeOf self)))) := by
  rw [Inode.modifyDiskInode, run_bind_ok (Inode.run_readDiskInode fits), writeInodeAt,
    run_bind_ok (run_readBlock _ _), run_bind_ok (run_check fits _), run_writeBlock]

section Finding

variable {reserved : Set Nat} {dir : Nat} {volume : Volume}
  (mounted : volume.view.Mounted reserved) (directory : volume.view.Directory reserved dir)

include mounted

/-- A child with a type is left alone. -/
theorem run_repairModeIfMissing_typed {child : Nat} (isChild : volume.view.fs.IsInode child)
    (typed : (volume.view.inode child).Typed) (fileType : UInt8) :
    ((volume.view.fs.handle child).repairModeIfMissing fileType).run volume = .ok () volume := by
  rw [Inode.repairModeIfMissing,
    run_bind_ok (view_readDiskInode mounted.layout mounted.geometry isChild),
    if_pos (show _ ≠ 0 from typed)]
  rfl

include directory

/-- Rewriting the mode of an untyped child is no more than a look at the directory. -/
theorem looked_modeRepaired {child : Nat} (isChild : volume.view.fs.IsInode child)
    (typed : ¬ (volume.view.inode child).Typed)
    (index : volume.dirIndexCache[dir]? = some (volume.view.dirIndex dir))
    {middle : Volume} (recached : Recached child volume middle) {changed : Ext4Inode}
    (sameContents : changed.blockData = (volume.view.inode child).blockData ∧
      ∀ field, field ≠ .iMode → changed.field field = (volume.view.inode child).field field) :
    Looked reserved dir volume (middle.putBlock (volume.view.fs.handle child).blockId
      ((middle.disk (volume.view.fs.handle child).blockId).paste
        (volume.view.fs.handle child).blockOffset changed)) := by
  have different : dir ≠ child := by
    rintro rfl
    exact typed (Ext4Inode.typed_of_isDir directory.isDir)
  obtain ⟨_, isReserved, notBitmap, _⟩ :=
    mounted.layout.handle_spec mounted.geometry isChild
  have sameFs : middle.fs = volume.fs := by rw [recached.state]
  have sameDisk : middle.disk = volume.disk := by rw [recached.state]
  have middleView : middle.view = { volume.view with extentsCache := middle.extentsCache } := by
    conv_lhs => rw [recached.state]
    exact Volume.view_setExtentsCache _ _
  have afterView : (middle.putBlock (volume.view.fs.handle child).blockId
      ((middle.disk (volume.view.fs.handle child).blockId).paste
        (volume.view.fs.handle child).blockOffset changed)).view =
      { volume.view.putInode child changed with extentsCache := middle.extentsCache } := by
    rw [Volume.view_putBlock (by
        rw [sameFs]; exact Volume.geometry_view.mp mounted.geometry) (by
        rw [sameFs]; exact notBitmap), middleView, sameDisk,
      ← Volume.data_of_not_bitmap notBitmap]
    rfl
  have sameInode (other : Nat) (isOther : volume.view.fs.IsInode other)
      (notChild : other ≠ child) :
      (volume.view.putInode child changed).inode other = volume.view.inode other :=
    inode_putInode_of_ne mounted.layout mounted.geometry isChild changed isOther notChild
  have unchanged : Unchanged volume.view (volume.view.putInode child changed) dir :=
    ⟨sameInode dir directory.isInode different, fun blockId isOwned =>
      data_putInode mounted.layout mounted.geometry isChild changed
        (directory.owning.outside blockId isOwned), fun _ _ isHeld => isHeld⟩
  refine ⟨sameFs, ?_, ?_, ?_, ?_, ?_, ?_⟩
  · intro blockId isBitmap
    rw [← sameDisk]
    apply Function.update_of_ne
    rintro rfl
    exact notBitmap isBitmap
  · intro blockId outside
    rw [← sameDisk]
    apply Function.update_of_ne
    rintro rfl
    exact outside isReserved
  · intro other isOther otherTyped
    rw [afterView, View.inode_withExtentsCache]
    refine sameInode other isOther ?_
    rintro rfl
    exact typed otherTyped
  · intro other isOther
    rw [afterView, View.inode_withExtentsCache]
    by_cases same : other = child
    · subst same
      rw [inode_putInode_same mounted.layout mounted.geometry isChild]
      exact sameContents
    · rw [sameInode other isOther same]
      exact ⟨rfl, fun _ _ => rfl⟩
  · intro extents found
    rw [afterView] at found ⊢
    have cached := recached.shrinks dir different extents found
    have sameExtents := (View.extents_withExtentsCache (volume.view.putInode child changed)
      middle.extentsCache dir).trans unchanged.extents_eq
    rw [directory.coherent extents cached]
    exact sameExtents.symm
  · have sameIndexes : middle.dirIndexCache = volume.dirIndexCache := by
      rw [recached.state]
    rw [← index, ← sameIndexes]
    rfl

theorem run_repairModeIfMissing {child : Nat} (isChild : volume.view.fs.IsInode child)
    (index : volume.dirIndexCache[dir]? = some (volume.view.dirIndex dir)) (fileType : UInt8) :
    ∃ after, ((volume.view.fs.handle child).repairModeIfMissing fileType).run volume =
        .ok () after ∧
      Looked reserved dir volume after := by
  by_cases typed : (volume.view.inode child).Typed
  · exact ⟨volume, run_repairModeIfMissing_typed mounted isChild typed fileType, rfl,
      fun _ _ => rfl, fun _ _ => rfl, fun _ _ _ => rfl, fun _ _ => ⟨rfl, fun _ _ => rfl⟩,
      directory.coherent, index⟩
  · obtain ⟨_, _, _, fits⟩ := mounted.layout.handle_spec mounted.geometry isChild
    rw [Inode.repairModeIfMissing,
      run_bind_ok (view_readDiskInode mounted.layout mounted.geometry isChild),
      if_neg (show ¬ _ ≠ 0 from typed)]
    obtain ⟨kind, middle, ran, recached⟩ := @run_kindFromEntry_recached volume _ fits fileType
    rw [run_bind_ok ran]
    simp only
    rw [Inode.run_modifyDiskInode fits]
    refine ⟨_, rfl, looked_modeRepaired mounted directory isChild typed index recached ?_⟩
    have readEq : middle.inodeOf (volume.view.fs.handle child) = volume.view.inode child := by
      rw [Volume.inodeOf, show middle.disk = volume.disk by rw [recached.state]]
      exact inodeOf_handle mounted isChild
    rw [readEq]
    exact ⟨Ext4Inode.blockData_setField _ _ _, fun field other =>
      Ext4Inode.field_setField_of_ne _ _ other⟩

/-- A name without a binding is not found. -/
theorem run_find_absent {name : Str} (absent : (volume.view.dirIndex dir)[name]? = none) :
    ∃ after, ((volume.view.fs.handle dir).find name).run volume = .ok none after ∧
      Consulted dir volume after := by
  obtain ⟨after, ran, consulted⟩ := run_dirIndex mounted directory
  refine ⟨after, ?_, consulted⟩
  rw [Inode.find, run_bind_ok (run_isDir_dir mounted directory)]
  simp only [if_true]
  rw [run_bind_ok ran, absent]
  rfl

/-- A lookup of a bound name consults the index, then repairs the mode of the child. -/
theorem run_find_bound {name : Str} {child : Nat} {fileType : UInt8}
    (found : (volume.view.dirIndex dir)[name]? = some (child, fileType))
    (isChild : volume.view.fs.IsInode child) :
    ∃ middle, Consulted dir volume middle ∧
      ((volume.view.fs.handle dir).find name).run volume = (do
        (volume.view.fs.handle child).repairModeIfMissing fileType
        return some (volume.view.fs.handle child) : Call (Option Inode)).run middle := by
  obtain ⟨middle, ran, consulted⟩ := run_dirIndex mounted directory
  have looked : Looked reserved dir volume middle := consulted.looked
  have position : middle.fs.getInodePos child = some _ :=
    ((looked.mounted mounted).layout.handle_spec (looked.mounted mounted).geometry
      (by rw [looked.view_fs]; exact isChild)).1
  refine ⟨middle, consulted, ?_⟩
  rw [Inode.find, run_bind_ok (run_isDir_dir mounted directory)]
  simp only [if_true]
  rw [run_bind_ok ran, found]
  simp only
  rw [run_bind_ok (run_get _), position, run_bind_ok (run_expect_some _ _), ← looked.view_fs]
  rfl

theorem run_find (name : Str) :
    ((volume.view.dirIndex dir)[name]? = none ∧
      ∃ after, ((volume.view.fs.handle dir).find name).run volume = .ok none after ∧
        Looked reserved dir volume after) ∨
    ∃ child fileType, (volume.view.dirIndex dir)[name]? = some (child, fileType) ∧
      ((¬ volume.view.fs.IsInode child ∧
          ((volume.view.fs.handle dir).find name).run volume = .panic) ∨
        ∃ after, ((volume.view.fs.handle dir).find name).run volume =
            .ok (some (volume.view.fs.handle child)) after ∧
          volume.view.fs.IsInode child ∧ Looked reserved dir volume after) := by
  cases found : (volume.view.dirIndex dir)[name]? with
  | none =>
      obtain ⟨after, ran, consulted⟩ := run_find_absent mounted directory found
      exact Or.inl ⟨rfl, after, ran, consulted.looked⟩
  | some binding =>
      obtain ⟨child, fileType⟩ := binding
      refine Or.inr ⟨child, fileType, rfl, ?_⟩
      by_cases isChild : volume.view.fs.IsInode child
      · obtain ⟨middle, consulted, ran⟩ := run_find_bound mounted directory found isChild
        have looked : Looked reserved dir volume middle := consulted.looked
        have middleIndex := consulted.index
        rw [← looked.dirIndex_eq] at middleIndex
        obtain ⟨after, ended, repaired⟩ := run_repairModeIfMissing (looked.mounted mounted)
          (looked.directory mounted directory) (by rw [looked.view_fs]; exact isChild) middleIndex
          fileType
        rw [looked.view_fs] at ended
        exact Or.inr ⟨after, ran.trans ((run_bind_ok ended).trans rfl), isChild,
          looked.trans repaired⟩
      · refine Or.inl ⟨isChild, ?_⟩
        obtain ⟨middle, ran, consulted⟩ := run_dirIndex mounted directory
        have looked : Looked reserved dir volume middle := consulted.looked
        have position : volume.fs.getInodePos child = none := by
          rw [Option.eq_none_iff_forall_ne_some]
          intro place isPlace
          exact isChild (isInode_of_getInodePos (Volume.geometry_view.mp mounted.geometry)
            (directory.numbers name child fileType found) isPlace)
        rw [Inode.find, run_bind_ok (run_isDir_dir mounted directory)]
        simp only [if_true]
        rw [run_bind_ok ran, found]
        simp only
        rw [run_bind_ok (run_get _), looked.fs, position]
        rfl

/-- A name bound to an inode with a type is found. -/
theorem run_find_typed {name : Str} {child : Nat} {fileType : UInt8}
    (found : (volume.view.dirIndex dir)[name]? = some (child, fileType))
    (isChild : volume.view.fs.IsInode child) (typed : (volume.view.inode child).Typed) :
    ∃ after, ((volume.view.fs.handle dir).find name).run volume =
        .ok (some (volume.view.fs.handle child)) after ∧
      Consulted dir volume after := by
  obtain ⟨middle, consulted, ran⟩ := run_find_bound mounted directory found isChild
  have looked : Looked reserved dir volume middle := consulted.looked
  have repaired := run_repairModeIfMissing_typed (looked.mounted mounted)
    (by rw [looked.view_fs]; exact isChild)
    (by rw [looked.inodes child isChild typed]; exact typed) fileType
  rw [looked.view_fs] at repaired
  exact ⟨middle, ran.trans ((run_bind_ok repaired).trans rfl), consulted⟩

end Finding

end Ext4

end OSWorkspace
