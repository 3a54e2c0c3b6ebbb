import OSWorkspace.EasyFsFileRuns

/-!
# Files of easy-fs as byte arrays

On a made file system, files are byte arrays that grow by writing, and a call
on one file leaves the others.  This holds as long as every new inode has its
place in the inode area: the size of the area is truncated to 32 bits, and with
inodes behind it the first free one lies in the data bitmap.
-/

namespace OSWorkspace

namespace EasyFs

open Exec

/-- A new name that fits its field, and a write that is not empty. -/
def Admitted (state : FileState) : FileCall → Prop
  | .create name => DirEntry.Fits name ∧ 0 < name.len ∧ name ∉ state.names
  | .writeAt _ _ buf => buf ≠ []
  | .clear _ => True
  | .readAt _ _ _ => True

/-- The sum of a reading does not overflow in a build with overflow checks. -/
def ReadsInWord (build : Build) : FileCall → Prop
  | .create _ => True
  | .writeAt _ _ _ => True
  | .clear _ => True
  | .readAt _ offset length => build.overflowChecks = true → offset + length < 2 ^ 64

/-- A call on a file returns what it would on the bytes of this file. -/
def Answers (fs : EasyFileSystem) (build : Build) (state : FileState) : FileCall → Prop
  | .create _ => True
  | .writeAt index offset buf => ∀ file, state.files[index]? = some file →
      ∃ after, (file.inode.writeAt fs build offset buf).run state.volume = .ok buf.length after
  | .clear index => ∀ file, state.files[index]? = some file →
      ∃ after, (file.inode.clear fs build).run state.volume = .ok () after
  | .readAt index offset length => ∀ file, state.files[index]? = some file →
      offset < 2 ^ 64 → length < 2 ^ 63 →
        (file.inode.readAt build offset length).run state.volume =
          .ok ((file.bytes.drop offset).take length) state.volume

/-- In every state that is reached by calls for which the data blocks suffice
and that meet a condition, such a call behaves as on byte arrays. -/
def GrowableFiles (fs : EasyFileSystem) (build : Build) (totalBlocks : Nat) (root : Inode)
    (start : Volume) (condition : FileState → FileCall → Prop) : Prop :=
  ∀ state, FileRun fs build root (fun before call => Admitted before call ∧
      HasData fs totalBlocks before call ∧ condition before call) ⟨start, []⟩ state →
    ∀ call, Admitted state call → HasData fs totalBlocks state call → condition state call →
      Answers fs build state call

/-- Under overflow checks a creation that returns has not underflowed. -/
theorem inodesFit_of_run_create {build : Build} {totalBlocks inodeBitmapBlocks : UInt32}
    {start made : Volume} {fs : EasyFileSystem} (checked : build.overflowChecks = true)
    (created : (EasyFileSystem.create build totalBlocks inodeBitmapBlocks).run start =
      .ok fs made) : InodesFit totalBlocks inodeBitmapBlocks := by
  obtain ⟨inodes, _, ranInodes, created⟩ := of_run_bind_ok created
  obtain ⟨others, _, ranOthers, created⟩ := of_run_bind_ok created
  obtain ⟨data, _, ranData, _⟩ := of_run_bind_ok created
  obtain ⟨_, _, ranWord, ranInodes⟩ := of_run_bind_ok ranInodes
  obtain ⟨_, _, ranOne, ranOthers⟩ := of_run_bind_ok ranOthers
  obtain ⟨_, _, ranFit, _⟩ := of_run_bind_ok ranData
  have inWord := (of_run_check ranWord).1 checked
  have positive := (of_run_check ranOne).1 checked
  have fits := (of_run_check ranFit).1 checked
  have isInodes := (Outcome.ok.inj ranInodes).1
  have isOthers := (Outcome.ok.inj ranOthers).1
  have totalLt := totalBlocks.toNat_lt
  rw [Nat.mod_eq_of_lt inWord] at isInodes
  have isRest : (totalBlocks.toNat + 2 ^ 32 - 1) % 2 ^ 32 = totalBlocks.toNat - 1 := by omega
  rw [isRest] at isOthers
  rw [InodesFit]
  omega

namespace Layout

section Answering

variable {layout : Layout} {root : Inode} {state : FileState} {build : Build}
  {contents : Nat → List UInt8} {owned : Nat → List Nat}
  (tracks : layout.Tracks root state contents owned)

include tracks

theorem Tracks.answers {call : FileCall} (admitted : Admitted state call)
    (hasData : HasData layout.toEasyFileSystem layout.totalBlocks state call)
    (inWord : ReadsInWord build call) : Answers layout.toEasyFileSystem build state call := by
  cases call with
  | create name => trivial
  | writeAt index offset buf =>
      intro file isFile
      obtain ⟨bounded, enough⟩ := hasData file isFile
      rw [← tracks.bytes index file isFile] at enough
      obtain ⟨later, _, ran, _⟩ := tracks.lists.holds.run_writeAt build
        (FileState.isInode isFile) tracks.isOpen admitted bounded enough
      rw [tracks.inodes index file isFile]
      exact ⟨_, ran⟩
  | clear index =>
      intro file isFile
      obtain ⟨later, _, ran, _⟩ := tracks.lists.holds.run_clear build (FileState.isInode isFile)
        tracks.isOpen
      rw [tracks.inodes index file isFile]
      exact ⟨_, ran⟩
  | readAt index offset length =>
      intro file isFile small short
      exact tracks.run_readAt build isFile inWord small short

end Answering

end Layout

/-- Without an inode area no file is ever created. -/
theorem files_eq_nil {fs : EasyFileSystem} {build : Build} {root : Inode} {start state : FileState}
    (noFiles : start.files = [])
    (run : FileRun fs build root (HasInode fs 0) start state) : state.files = [] := by
  induction run with
  | refl => exact noFiles
  | tail _ last ih =>
      obtain ⟨call, hasInode, step⟩ := last
      have noFile {index : Nat} {file : File} {before : FileState} (none : before.files = [])
          (isFile : before.files[index]? = some file) : False := by
        simp [none] at isFile
      cases step with
      | created ran =>
          obtain ⟨index, _, inArea, _⟩ := hasInode
          exact absurd inArea (Nat.not_lt_zero index)
      | existed ran => exact ih
      | wrote isFile ran => exact (noFile ih isFile).elim
      | cleared isFile ran => exact (noFile ih isFile).elim
      | read isFile small short ran => exact ih

/-- The files of a made file system are growable byte arrays. -/
theorem growableFiles_made {build : Build} {totalBlocks inodeBitmapBlocks : UInt32}
    {start made rooted : Volume} {fs : EasyFileSystem} {root : Inode}
    (unlocked : start.locked = [])
    (fit : build.overflowChecks = false → InodesFit totalBlocks inodeBitmapBlocks)
    (created : (EasyFileSystem.create build totalBlocks inodeBitmapBlocks).run start =
      .ok fs made)
    (isRoot : (fs.rootInode build).run made = .ok root rooted) :
    GrowableFiles fs build totalBlocks.toNat root rooted fun state call =>
      HasInode fs (inodeAreaBlocks inodeBitmapBlocks.toNat) state call ∧
        ReadsInWord build call := by
  have fits : InodesFit totalBlocks inodeBitmapBlocks := by
    cases checked : build.overflowChecks with
    | false => exact fit checked
    | true => exact inodesFit_of_run_create checked created
  obtain ⟨rfl, someBlock, rfl⟩ := of_run_create unlocked fits created
  rw [Layout.run_rootInode fits] at isRoot
  obtain ⟨rfl, rfl⟩ := Outcome.ok.inj isRoot
  intro state run call admitted hasData condition
  by_cases noArea : inodeAreaBlocks inodeBitmapBlocks.toNat = 0
  · have noFiles : state.files = [] := by
      refine files_eq_nil rfl (run.mono fun before call condition => ?_)
      exact noArea ▸ condition.2.2.1
    cases call <;> simp [Answers, noFiles]
  · obtain ⟨contents, owned, tracks⟩ := Layout.exists_tracks
      (Layout.tracks_madeVolume fits unlocked someBlock (Nat.pos_of_ne_zero noArea))
      (run.mono fun before call condition => ⟨condition.2.1, condition.2.2.1⟩)
    exact tracks.answers admitted hasData condition.2

theorem growableFiles_made_packed :
    GrowableFiles (madeFileSystem 32768 1) ⟨true⟩ (32768 : UInt32).toNat ⟨2, 0⟩
      (madeVolume blankVolume 32768 1) fun state call =>
        HasInode (madeFileSystem 32768 1) (inodeAreaBlocks (1 : UInt32).toNat) state call ∧
          ReadsInWord ⟨true⟩ call :=
  growableFiles_made (rfl : blankVolume.locked = []) (by simp)
    (by rw [run_create ⟨true⟩ rfl (by rw [InodesFit]; decide), if_pos (by decide)])
    (Layout.run_rootInode (by rw [InodesFit]; decide) _)

namespace Layout

section Behind

variable {layout : Layout} {disk : Nat → Block} {names : List Str} {contents : Nat → List UInt8}
  {owned : Nat → List Nat} {inodeId : Nat}

/-- The first inode behind the area has its slot in the data bitmap. -/
structure Behind (layout : Layout) (inodeId : Nat) : Prop where
  isFirst : inodeId = 4 * layout.inodeBlocks
  areaEnd : layout.inodeAreaStartBlock + layout.inodeBlocks = layout.dataBitmap.startBlockId
  someBlock : 0 < layout.dataBitmap.blocks

theorem Behind.slotBlock (behind : layout.Behind inodeId) :
    layout.slotBlock inodeId = layout.dataBitmap.startBlockId := by
  rw [Layout.slotBlock, behind.isFirst, Nat.mul_div_cancel_left _ (by decide), behind.areaEnd]

theorem Behind.slotOffset (behind : layout.Behind inodeId) : slotOffset inodeId = 0 := by
  rw [Layout.slotOffset, behind.isFirst, Nat.mul_mod_right, Nat.zero_mul]

theorem Behind.lt_totalBlocks (behind : layout.Behind inodeId) :
    layout.slotBlock inodeId < layout.totalBlocks := by
  have someBlock := behind.someBlock
  have bitmapEnd := layout.dataBitmapEnd
  have dataEnd := layout.dataAreaEnd
  rw [behind.slotBlock]
  omega

theorem Behind.run_getDiskInodePos (behind : layout.Behind inodeId) (build : Build)
    (volume : Volume) : (layout.getDiskInodePos build inodeId).run volume =
      .ok (layout.slotBlock inodeId, Layout.slotOffset inodeId) volume := by
  have inDevice := behind.lt_totalBlocks
  have inWord := layout.inWord
  rw [Layout.slotBlock] at inDevice
  exact EasyFileSystem.run_getDiskInodePos build volume (by
    change layout.inodeAreaStartBlock + inodeId / 4 < 2 ^ 32
    omega)

/-- The size of an inode without bytes clears the first bit of the bitmap. -/
theorem Behind.bit (behind : layout.Behind inodeId) (empty : (layout.inodeAt disk inodeId).size = 0) :
    layout.dataBitmap.bit disk 0 = false := by
  have size : (disk layout.dataBitmap.startBlockId).uint 0 4 = 0 := by
    rw [inodeAt, behind.slotBlock, behind.slotOffset, DiskInode.size,
      Bytes.uint_extract _ (by decide)] at empty
    exact empty
  have isBit : layout.dataBitmap.bit disk 0 =
      ((disk layout.dataBitmap.startBlockId).uint 0 8).testBit 0 := by
    rw [Bitmap.bit, Nat.zero_div, Nat.zero_add]
    rfl
  rw [isBit, Nat.testBit_zero]
  rw [Bytes.uint, leValue] at size ⊢
  simp only [decide_eq_false_iff_not]
  omega

/-- Every allocation for an inode in the data bitmap asks for the block that is
locked for the inode. -/
theorem Behind.run_writeAt_panic (behind : layout.Behind inodeId) (build : Build)
    (empty : (layout.inodeAt disk inodeId).size = 0) {buf : List UInt8} (some : buf ≠ [])
    (bounded : buf.length ≤ sizeBound) :
    ((layout.handle inodeId).writeAt layout.toEasyFileSystem build 0 buf).run ⟨disk, []⟩ =
      .panic := by
  have inBytes : buf.length ≤ 8468480 := bounded
  have positive := List.length_pos_of_ne_nil some
  have sum : (build.add64 0 buf.length).run ⟨disk, [layout.slotBlock inodeId]⟩ =
      .ok buf.length ⟨disk, [layout.slotBlock inodeId]⟩ := by
    rw [Build.add64, Nat.zero_add, run_bind_ok (run_check (by omega) _), run_pure,
      Nat.mod_eq_of_lt (by omega)]
  have needed := DiskInode.run_blocksNumNeeded build (empty.trans_le (Nat.zero_le buf.length))
    bounded ⟨disk, [layout.slotBlock inodeId]⟩
  obtain ⟨count, isCount⟩ : ∃ count, sizeBlocks buf.length +
      BlockMap.indexCount (sizeBlocks buf.length) - (sizeBlocks (layout.inodeAt disk inodeId).size +
        BlockMap.indexCount (sizeBlocks (layout.inodeAt disk inodeId).size)) = count + 1 := by
    have blocks : 0 < sizeBlocks buf.length := by
      change 0 < (buf.length + 511) / 512
      omega
    have noBlocks : sizeBlocks 0 + BlockMap.indexCount (sizeBlocks 0) = 0 := rfl
    rw [empty, noBlocks]
    exact Nat.exists_eq_add_one.mpr (by omega)
  rw [isCount] at needed
  obtain ⟨others, isOthers⟩ : ∃ others, List.range layout.dataBitmap.blocks = 0 :: others := by
    obtain ⟨blocks, isBlocks⟩ := Nat.exists_eq_add_one.mpr behind.someBlock
    exact ⟨_, isBlocks ▸ List.range_succ_eq_map⟩
  have isLocked : ¬ 0 + layout.dataBitmap.startBlockId ∉ [layout.slotBlock inodeId] := by
    rw [behind.slotBlock, Nat.zero_add]
    simp
  have panics : (layout.allocData build).run ⟨disk, [layout.slotBlock inodeId]⟩ = .panic := by
    rw [EasyFileSystem.allocData, Bitmap.alloc, isOthers, Bitmap.allocIn]
    refine run_bind_panic (run_bind_panic ?_)
    rw [readBlock, run_bind_ok (run_get _)]
    exact run_bind_panic (run_check_panic isLocked _)
  refine run_modifyDiskInode_panic List.not_mem_nil ?_
  rw [run_bind_ok sum, Nat.mod_eq_of_lt (by omega), Inode.increaseSize, if_neg (by omega)]
  refine run_bind_panic ?_
  rw [run_bind_ok needed, Inode.allocBlocks]
  exact run_bind_panic (run_bind_panic panics)

end Behind

section Appending

variable {layout : Layout} {disk : Nat → Block} {names : List Str} {given : List Nat}

/-- A record for which the last block of the directory has room. -/
theorem run_appendEntry_inBlock
    (stores : (layout.inodeAt disk 0).Stores disk given (records 1 names)) (build : Build)
    (unlocked : ∀ blockId ∈ given, blockId ∉ [layout.slotBlock 0]) {name : Str}
    (short : name.len ≤ nameLengthLimit + 1) (inodeNumber : Nat)
    (few : direntSz * (names.length + 1) ≤ sizeBound)
    (sameBlocks : blocksOf (direntSz * (names.length + 1)) = blocksOf (direntSz * names.length)) :
    ∃ later, ((layout.handle 0).modifyDiskInode
        (Inode.appendEntry layout.toEasyFileSystem build name inodeNumber)).run ⟨disk, []⟩ =
          .ok () ⟨later, []⟩ ∧
      ∀ blockId ∉ given, blockId ≠ layout.slotBlock 0 → later blockId = disk blockId := by
  have length := length_records 1 names
  have size : (layout.inodeAt disk 0).size = direntSz * names.length := stores.size.trans length
  have larger : (layout.inodeAt disk 0).size ≤ direntSz * (names.length + 1) := by
    rw [size]
    exact Nat.mul_le_mul_left _ (Nat.le_succ _)
  have needed : (DiskInode.blocksNumNeeded build (layout.inodeAt disk 0)
      (direntSz * (names.length + 1))).run ⟨disk, [layout.slotBlock 0]⟩ =
        .ok ([] : List Nat).length ⟨disk, [layout.slotBlock 0]⟩ := by
    rw [DiskInode.run_blocksNumNeeded build larger few, ← blocksOf, ← blocksOf, size, sameBlocks,
      Nat.sub_self]
    rfl
  have noBlock {blockId : Nat} {holds : Prop} (isNone : blockId ∈ ([] : List Nat)) : holds :=
    absurd isNone List.not_mem_nil
  have unlockedAll : ∀ blockId ∈ given ++ [], blockId ∉ [layout.slotBlock 0] := by
    rwa [List.append_nil]
  obtain ⟨grown, middle, ranGrow, owns, grows, grownSize, _, blank⟩ :=
    DiskInode.run_increaseSize_needed build stores.owns larger few needed
      ⟨by simpa using stores.owns.nodup, fun _ => noBlock⟩ unlockedAll
  have grownStores := stores.of_grows grows owns (blank (fun _ => noBlock) stores.blank) grownSize
    (length ▸ size ▸ larger) few fun _ => noBlock
  have entryLength := DirEntry.length_asBytes (DirEntry.image name inodeNumber)
  have inside : direntSz * names.length + (DirEntry.image name inodeNumber).asBytes.length ≤
      (writtenAt (records 1 names) (direntSz * (names.length + 1)) []).length := by
    rw [length_writtenAt, List.length_nil, entryLength, Nat.mul_succ]
    exact le_max_right _ _
  have notEmpty : (DirEntry.image name inodeNumber).asBytes ≠ [] := by
    rw [← List.length_pos_iff_ne_nil, entryLength]
    decide
  obtain ⟨last, ranWrite, _, sameLast⟩ :=
    grownStores.run_writeAt build unlockedAll notEmpty inside
  have fileCount : (layout.inodeAt disk 0).size / direntSz = names.length := by
    rw [size]
    exact Nat.mul_div_cancel_left _ (by decide)
  have inWord : direntSz * (names.length + 1) < 2 ^ 32 := lt_of_le_of_lt few (by decide)
  have ranIncrease : (Inode.increaseSize layout.toEasyFileSystem build
      (direntSz * (names.length + 1)) (layout.inodeAt disk 0)).run
        ⟨disk, [layout.slotBlock 0]⟩ = .ok grown ⟨middle, [layout.slotBlock 0]⟩ := by
    rw [Inode.increaseSize, if_neg (Nat.not_lt.mpr larger), run_bind_ok needed]
    refine (run_bind_ok (run_pure _ _)).trans ?_
    rw [run_bind_ok ranGrow, run_pure]
  refine ⟨layout.putInode last 0 grown, run_modifyDiskInode List.not_mem_nil ?_, ?_⟩
  · rw [Inode.appendEntry]
    simp only [fileCount]
    rw [Nat.mul_comm (names.length + 1), Nat.mul_comm names.length, Nat.mod_eq_of_lt inWord,
      run_bind_ok ranIncrease, run_bind_ok (DirEntry.run_new short _ _), run_bind_ok ranWrite,
      run_pure]
  · intro blockId notGiven notSlot
    have notOwned : blockId ∉ given ++ [] := by rwa [List.append_nil]
    rw [putInode_of_ne notSlot, sameLast _ notOwned]
    refine grows.frame _ fun level levelLt isIndex => notOwned ?_
    rw [isIndex]
    exact owns.index_mem levelLt

end Appending

section Behind

variable {layout : Layout} {disk : Nat → Block} {names : List Str} {contents : Nat → List UInt8}
  {owned : Nat → List Nat} {inodeId : Nat}

/-- A file whose inode lies in the data bitmap is created. -/
theorem Behind.run_create (behind : layout.Behind inodeId)
    (lists : layout.Lists disk names contents owned) (isNext : inodeId = names.length + 1)
    (build : Build) (fits : ∀ name ∈ names, DirEntry.Fits name) {name : Str}
    (fitsName : DirEntry.Fits name) (isNew : name ∉ names)
    (inBitmap : inodeId < layout.inodeBitmap.maximum)
    (few : direntSz * (names.length + 1) ≤ sizeBound)
    (sameBlocks : blocksOf (direntSz * (names.length + 1)) = blocksOf (direntSz * names.length)) :
    ∃ later, ((layout.handle 0).create layout.toEasyFileSystem build name).run ⟨disk, []⟩ =
        .ok (some (layout.handle inodeId)) ⟨later, []⟩ ∧
      (layout.inodeAt later inodeId).size = 0 := by
  have isOpen : layout.Open [] := fun _ _ => List.not_mem_nil
  have isRoot : 0 < names.length + 1 := Nat.succ_pos _
  have fewNames := lists.length_le
  have someBlock := behind.someBlock
  have bitmapEnd := layout.dataBitmapEnd
  have isSlot := behind.slotBlock
  have ranFind := run_readDiskInode (lists.holds.slot_unlocked isRoot isOpen)
    (lists.run_findInodeId_none isOpen build fits isNew)
  have ranAlloc := run_allocInode lists.holds.inodeBits isOpen (isNext ▸ inBitmap) (by omega)
  rw [← isNext] at ranAlloc
  obtain ⟨image, isImage⟩ : ∃ image, DiskInode.initializeAs (layout.inodeAt
      (layout.inodeBitmap.setBit ⟨disk, []⟩ inodeId).disk inodeId) .file = image := ⟨_, rfl⟩
  have unused : image.Unused := isImage ▸ DiskInode.unused_initializeAs _ _
  have ranInit : (modifyInodeAt (layout.slotBlock inodeId) (Layout.slotOffset inodeId)
      fun inode => inode.initializeAs .file).run
        ⟨(layout.inodeBitmap.setBit ⟨disk, []⟩ inodeId).disk, []⟩ =
          .ok () ⟨layout.withInode disk inodeId image, []⟩ := by
    rw [run_modifyInodeAt List.not_mem_nil (slotOffset_add _), ← isImage]
    rfl
  -- The directory does not see the write to the bitmap.
  have bitBefore := inodeBitmap_lt inBitmap
  have areaEnd := layout.inodeAreaEnd
  have rootBefore := slotBlock_lt (lists.holds.inSlots isRoot)
  have sameRoot : layout.inodeAt (layout.withInode disk inodeId image) 0 =
      layout.inodeAt disk 0 := by
    have notBit : layout.slotBlock 0 ≠ inodeId / blockBits + layout.inodeBitmap.startBlockId := by
      rw [Layout.slotBlock]
      omega
    rw [inodeAt, withInode_of_ne notBit (by omega), inodeAt]
  have ownedBehind (blockId : Nat) (isOwned : blockId ∈ owned 0) :
      layout.dataAreaStartBlock ≤ blockId :=
    (mem_dataBlocks.mp (lists.holds.data 0 isRoot _ isOwned)).1
  have stores := (lists.holds.stores 0 isRoot).congr fun blockId isOwned =>
    have isBehind := ownedBehind blockId isOwned
    @withInode_of_ne layout disk inodeId blockId (by omega) (by omega) image
  rw [lists.root, ← sameRoot] at stores
  obtain ⟨later, ranAppend, frame⟩ := run_appendEntry_inBlock stores build
    (lists.holds.ready isRoot isOpen).unlocked_given (le_trans fitsName.1 (by decide)) inodeId few
    sameBlocks
  refine ⟨later, ?_, ?_⟩
  · rw [Inode.create, run_bind_ok ranFind, if_neg (by simp), run_bind_ok ranAlloc,
      run_bind_ok (behind.run_getDiskInodePos build _)]
    simp only
    rw [run_bind_ok ranInit, run_bind_ok ranAppend,
      run_bind_ok (behind.run_getDiskInodePos build _), run_pure]
    rfl
  · have notOwned : layout.slotBlock inodeId ∉ owned 0 := by
      intro isOwned
      have isBehind := ownedBehind _ isOwned
      omega
    have sameSlot : layout.inodeAt later inodeId = image := by
      rw [inodeAt, frame _ notOwned (by omega), ← inodeAt, withInode, inodeAt_putInode_self]
    rw [sameSlot]
    exact unused.size

end Behind

end Layout

namespace Layout

theorem freeBlocks_madeVolume {totalBlocks inodeBitmapBlocks : UInt32}
    (fit : InodesFit totalBlocks inodeBitmapBlocks) (start : Volume)
    (someBlock : 0 < inodeBitmapBlocks.toNat)
    (rooted : 0 < inodeAreaBlocks inodeBitmapBlocks.toNat) :
    (madeLayout totalBlocks inodeBitmapBlocks fit).freeBlocks
        (madeVolume start totalBlocks inodeBitmapBlocks).disk =
      (madeLayout totalBlocks inodeBitmapBlocks fit).dataBlocks := by
  have inArea : 0 < 4 * (madeLayout totalBlocks inodeBitmapBlocks fit).inodeBlocks :=
    Nat.mul_pos (by decide) rooted
  have inBitmap : 0 < (madeLayout totalBlocks inodeBitmapBlocks fit).inodeBitmap.maximum :=
    Nat.mul_pos someBlock (by decide)
  have sameFree := @freeBlocks_withInode _ (clearedVolume start totalBlocks inodeBitmapBlocks).disk
    _ inArea inBitmap (DiskInode.initializeAs
      ((madeLayout totalBlocks inodeBitmapBlocks fit).inodeAt
        ((madeLayout totalBlocks inodeBitmapBlocks fit).inodeBitmap.setBit
          (clearedVolume start totalBlocks inodeBitmapBlocks) 0).disk 0) .directory)
  refine sameFree.trans (Finset.filter_true_of_mem fun blockId isData => ?_)
  have isBitmap := bit_block (index_lt isData)
  have positive : 0 < (madeLayout totalBlocks inodeBitmapBlocks fit).dataBitmap.startBlockId :=
    Nat.add_pos_left Nat.one_pos _
  rw [Bitmap.bit, disk_clearedVolume start (by rw [mem_bitmapBlocks] at isBitmap; omega)
    (lt_totalBlocks_of_bitmap isBitmap), Bytes.wordBit_zeroed]

/-- Files with new names are created as long as there is room. -/
theorem Tracks.exists_created {layout : Layout} {root : Inode} {start : Volume}
    {contents : Nat → List UInt8} {owned : Nat → List Nat}
    (tracks : layout.Tracks root ⟨start, []⟩ contents owned) (build : Build) {names : List Str}
    (nodup : names.Nodup) (admitted : ∀ name ∈ names, DirEntry.Fits name ∧ 0 < name.len)
    (inArea : names.length < 4 * layout.inodeBlocks)
    (inBitmap : names.length < layout.inodeBitmap.maximum)
    (few : direntSz * names.length ≤ sizeBound)
    (enough : blocksOf (direntSz * names.length) ≤ (layout.freeBlocks start.disk).card) :
    ∃ state contents owned, FileRun layout.toEasyFileSystem build root (fun before call =>
        Admitted before call ∧ HasData layout.toEasyFileSystem layout.totalBlocks before call ∧
          True) ⟨start, []⟩ state ∧
      state.names = names ∧ layout.Tracks root state contents owned ∧
      (layout.freeBlocks state.volume.disk).card + blocksOf (direntSz * names.length) =
        (layout.freeBlocks start.disk).card := by
  induction names using List.reverseRecOn with
  | nil => exact ⟨_, _, _, Relation.ReflTransGen.refl, rfl, tracks, rfl⟩
  | append_singleton names name ih =>
      rw [List.length_append, List.length_singleton] at inArea inBitmap few enough ⊢
      obtain ⟨nodupNames, _, apart⟩ := List.nodup_append.mp nodup
      have smaller : direntSz * names.length ≤ direntSz * (names.length + 1) :=
        Nat.mul_le_mul_left _ (Nat.le_succ _)
      have fewer := blocksOf_mono smaller
      obtain ⟨state, _, _, run, isNames, reached, card⟩ := ih nodupNames
        (fun other isOther => admitted other (List.mem_append_left _ isOther)) (by omega) (by omega)
        (le_trans smaller few) (le_trans fewer enough)
      obtain ⟨fits, some⟩ := admitted name (List.mem_append_right _ List.mem_cons_self)
      have isNew : name ∉ state.names := by
        rw [isNames]
        exact fun isOther => apart _ isOther _ List.mem_cons_self rfl
      have room : layout.Room state.volume.disk state.names.length := by
        rw [isNames]
        exact ⟨inArea, inBitmap, few, by omega⟩
      obtain ⟨later, _, ran, lists, laterCard⟩ := reached.lists.run_create reached.isOpen build room
        (fun other isOther => (admitted other
          (List.mem_append_left _ (isNames ▸ isOther))).1) (le_trans fits.1 (by decide)) isNew
      have length : state.names.length = state.files.length := List.length_map _
      have hasData : HasData layout.toEasyFileSystem layout.totalBlocks state (.create name) := by
        rw [HasData, ← length]
        exact ⟨room.few, room.enough⟩
      have appended := reached.append lists
      rw [← reached.root] at ran
      refine ⟨_, _, _, Relation.ReflTransGen.tail run
        ⟨.create name, ⟨⟨fits, some, isNew⟩, hasData, trivial⟩, .created ran⟩, ?_, appended, ?_⟩
      · rw [FileState.names, List.map_append, ← FileState.names, isNames]
        rfl
      · rw [isNames] at laterCard
        exact laterCard.trans card

end Layout

/-- A byte between 64 and 127 for each number. -/
def asciiByte (number : Nat) : UInt8 := UInt8.ofNat (64 + number % 64)

theorem toNat_asciiByte (number : Nat) : (asciiByte number).toNat = 64 + number % 64 := by
  rw [asciiByte, UInt8.toNat_ofNat', Nat.mod_eq_of_lt (by omega)]

theorem utf8Tail_asciiByte (number : Nat) : utf8Tail (asciiByte number) = some [] := by
  rw [utf8Tail, if_pos]
  rw [UInt8.le_iff_toNat_le, toNat_asciiByte]
  change 64 + number % 64 ≤ 127
  omega

theorem zero_ne_asciiByte (number : Nat) : 0 ≠ asciiByte number := by
  intro isZero
  have value := congrArg UInt8.toNat isZero
  rw [toNat_asciiByte] at value
  change 0 = 64 + number % 64 at value
  omega

theorem valid_asciiBytes (first second : Nat) :
    validUtf8 [asciiByte first, asciiByte second] = true := by
  rw [validUtf8, validUtf8From, utf8Tail_asciiByte]
  simp only [validUtf8From]
  rw [utf8Tail_asciiByte]
  rfl

/-- A name of two bytes for each number below 4096. -/
def twoBytes (number : Nat) : Str :=
  ⟨[asciiByte (number / 64), asciiByte number], valid_asciiBytes (number / 64) number⟩

theorem admitted_twoBytes (number : Nat) :
    DirEntry.Fits (twoBytes number) ∧ 0 < (twoBytes number).len := by
  refine ⟨⟨(by decide : 2 ≤ 27), ?_⟩, (by decide : 0 < 2)⟩
  simp only [twoBytes, List.mem_cons, List.not_mem_nil, or_false, not_or]
  exact ⟨zero_ne_asciiByte _, zero_ne_asciiByte _⟩

theorem twoBytes_inj {first second : Nat} (firstLt : first < 4096) (secondLt : second < 4096)
    (same : twoBytes first = twoBytes second) : first = second := by
  have bytes := congrArg Str.bytes same
  simp only [twoBytes, List.cons.injEq, and_true] at bytes
  have high := congrArg UInt8.toNat bytes.1
  have low := congrArg UInt8.toNat bytes.2
  rw [toNat_asciiByte, toNat_asciiByte] at high low
  omega

theorem nodup_twoBytes : ((List.range 4095).map twoBytes).Nodup := by
  refine List.Nodup.map_on (fun first isFirst second isSecond same => ?_) List.nodup_range
  have firstLt := List.mem_range.mp isFirst
  have secondLt := List.mem_range.mp isSecond
  exact twoBytes_inj (by omega) (by omega) same

/-- With 2^22 + 1 bitmap blocks the inode area has 1024 blocks. -/
theorem inodesFit_truncated : InodesFit 8388608 4194305 := by
  rw [InodesFit]
  decide

theorem create_truncated : (EasyFileSystem.create ⟨true⟩ 8388608 4194305).run blankVolume =
    .ok (madeFileSystem 8388608 4194305) (madeVolume blankVolume 8388608 4194305) := by
  rw [run_create ⟨true⟩ rfl inodesFit_truncated, if_pos (by decide)]

theorem behind_truncated :
    (madeLayout 8388608 4194305 inodesFit_truncated).Behind 4096 :=
  ⟨by decide, by decide, by decide⟩

/-- The inode of the 4096th file lies in the data bitmap, and a write to the
file waits for its own lock. -/
theorem not_growableFiles_truncated :
    (EasyFileSystem.create ⟨true⟩ 8388608 4194305).run blankVolume =
      .ok (madeFileSystem 8388608 4194305) (madeVolume blankVolume 8388608 4194305) ∧
    ((madeFileSystem 8388608 4194305).rootInode ⟨true⟩).run
        (madeVolume blankVolume 8388608 4194305) =
      .ok ⟨4194306, 0⟩ (madeVolume blankVolume 8388608 4194305) ∧
    ¬ GrowableFiles (madeFileSystem 8388608 4194305) ⟨true⟩ 8388608 ⟨4194306, 0⟩
      (madeVolume blankVolume 8388608 4194305) (fun _ _ => True) := by
  refine ⟨create_truncated, Layout.run_rootInode inodesFit_truncated _, fun growable => ?_⟩
  have tracks := Layout.tracks_madeVolume inodesFit_truncated (rfl : blankVolume.locked = [])
    (by decide) (by decide)
  have free := Layout.freeBlocks_madeVolume inodesFit_truncated blankVolume (by decide) (by decide)
  have length : ((List.range 4095).map twoBytes).length = 4095 := by
    rw [List.length_map, List.length_range]
  obtain ⟨state, contents, owned, run, isNames, reached, card⟩ := tracks.exists_created ⟨true⟩
    nodup_twoBytes (fun name isName => by
      obtain ⟨number, _, rfl⟩ := List.mem_map.mp isName
      exact admitted_twoBytes number)
    (by rw [length]; decide) (by rw [length]; decide) (by rw [length]; decide)
    (by rw [length, free, Layout.dataBlocks, Nat.card_Ico]; decide)
  have names : state.names.length = 4095 := by rw [isNames, length]
  have files : state.files.length = 4095 := (List.length_map File.name).symm.trans names
  obtain ⟨fits, some⟩ := admitted_twoBytes 4095
  have isNew : twoBytes 4095 ∉ state.names := by
    rw [isNames]
    intro isName
    obtain ⟨number, isNumber, same⟩ := List.mem_map.mp isName
    have numberLt := List.mem_range.mp isNumber
    have isLast := twoBytes_inj (by omega) (by decide) same
    omega
  obtain ⟨later, ran, size⟩ := behind_truncated.run_create reached.lists (by rw [names]) ⟨true⟩
    (fun name isName => by
      rw [isNames] at isName
      obtain ⟨number, _, rfl⟩ := List.mem_map.mp isName
      exact (admitted_twoBytes number).1)
    fits isNew (by decide) (by rw [names]; decide) (by rw [names]; decide)
  have isVolume : (⟨state.volume.disk, []⟩ : Volume) = state.volume := by
    rw [← reached.unlocked]
  rw [isVolume] at ran
  have hasData : HasData (madeFileSystem 8388608 4194305) 8388608 state
      (.create (twoBytes 4095)) := by
    rw [HasData, files]
    exact ⟨by decide, le_trans (by decide) (Nat.le_add_right (blocksOf (direntSz * 4095)) _)⟩
  have runLast := Relation.ReflTransGen.tail run
    ⟨.create (twoBytes 4095), ⟨⟨fits, some, isNew⟩, hasData, trivial⟩, .created ran⟩
  have isFile : (state.files ++ [⟨twoBytes 4095,
      (madeLayout 8388608 4194305 inodesFit_truncated).handle 4096, []⟩])[4095]? =
        Option.some ⟨twoBytes 4095,
          (madeLayout 8388608 4194305 inodesFit_truncated).handle 4096, []⟩ := by
    rw [← files, List.getElem?_concat_length]
  have isFree : 4196354 ∈ (madeFileSystem 8388608 4194305).freeData 8388608 later :=
    Finset.mem_filter.mpr ⟨Finset.mem_Ico.mpr (by decide), behind_truncated.bit size⟩
  have hasWrite : HasData (madeFileSystem 8388608 4194305) 8388608 ⟨⟨later, []⟩, state.files ++
      [⟨twoBytes 4095, (madeLayout 8388608 4194305 inodesFit_truncated).handle 4096, []⟩]⟩
        (.writeAt 4095 0 [1]) := by
    intro file isOther
    obtain rfl := Option.some.inj (isFile.symm.trans isOther)
    have positive := Finset.card_pos.mpr ⟨_, isFree⟩
    exact ⟨by decide, le_trans positive (Nat.le_add_left _ _)⟩
  obtain ⟨after, written⟩ := growable _ runLast (.writeAt 4095 0 [1]) (List.cons_ne_nil _ _)
    hasWrite trivial _ isFile
  have panics := behind_truncated.run_writeAt_panic ⟨true⟩ size (List.cons_ne_nil (1 : UInt8) [])
    (by decide)
  exact absurd (written.symm.trans panics) (by simp)

end EasyFs

end OSWorkspace
