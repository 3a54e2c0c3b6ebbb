import OSWorkspace.EasyFsFileContents

/-!
# The inodes of an easy-fs volume

All inodes of a volume store their bytes in blocks of their own, and the free
blocks are zeroed.  An operation on one inode may take free blocks and give its
own ones back; it leaves what the other inodes store.
-/

namespace OSWorkspace

namespace EasyFs

open Exec

/-- The blocks of a size with those of the indirect levels. -/
def blocksOf (size : Nat) : Nat := sizeBlocks size + BlockMap.indexCount (sizeBlocks size)

theorem blocksOf_mono {smaller larger : Nat} (le : smaller ≤ larger) :
    blocksOf smaller ≤ blocksOf larger := by
  have blocks : sizeBlocks smaller ≤ sizeBlocks larger := Nat.div_le_div_right (by omega)
  exact Nat.add_le_add blocks (BlockMap.indexCount_mono blocks)

namespace DiskInode

/-- An inode without bytes and without ids. -/
structure Unused (inode : DiskInode) : Prop where
  size : inode.size = 0
  direct : ∀ position < 28, inode.direct position = 0
  indirect1 : inode.indirect1 = 0
  indirect2 : inode.indirect2 = 0

theorem Unused.stores {inode : DiskInode} (unused : inode.Unused) (disk : Nat → Block) :
    inode.Stores disk [] [] := by
  have noBlocks : sizeBlocks inode.size = 0 := congrArg sizeBlocks unused.size
  have noIndexes : (inode.map disk).indexes = 0 := congrArg BlockMap.indexCount noBlocks
  refine ⟨owns_of_empty unused.size disk, ⟨fun position inside _ => unused.direct position inside,
    fun _ => unused.indirect1, fun _ => unused.indirect2, by omega, by omega, by omega⟩,
    unused.size, Nat.zero_le _, ?_⟩
  intro position inside
  exact absurd inside (Nat.not_lt_zero position)

theorem direct_foldl_setDirect (inode : DiskInode) {count position : Nat} (few : count ≤ 28)
    (inside : position < 28) :
    ((List.range count).foldl (fun inode index => inode.setDirect index 0) inode).direct position =
      if position < count then 0 else inode.direct position := by
  induction count with
  | zero => rfl
  | succ count ih =>
      rw [List.range_succ, List.foldl_append, List.foldl_cons, List.foldl_nil]
      by_cases same : position = count
      · rw [same, direct_setDirect _ (by omega) (by decide), if_pos (Nat.lt_succ_self _)]
      · rw [direct_setDirect_ne _ _ same, ih (by omega)]
        exact if_congr (by omega) rfl rfl

theorem isDir_foldl_setDirect (inode : DiskInode) {count : Nat} (few : count ≤ 28) :
    ((List.range count).foldl (fun inode index => inode.setDirect index 0) inode).isDir =
      inode.isDir := by
  induction count with
  | zero => rfl
  | succ count ih =>
      rw [List.range_succ, List.foldl_append, List.foldl_cons, List.foldl_nil,
        (sameBut_setDirect _ (by omega)).isDir, ih (by omega)]

theorem isDir_emptied (inode : DiskInode) : inode.emptied.isDir = inode.isDir := by
  have direct : inode.clearDirect.isDir = inode.isDir := by
    rw [clearDirect, isDir_foldl_setDirect _ (Nat.min_le_right _ _), isDir_setSize]
  rw [emptied]
  split_ifs
  · rw [(sameBut_setIndirect2 _ _).isDir, (sameBut_setIndirect1 _ _).isDir, direct]
  · rw [(sameBut_setIndirect1 _ _).isDir, direct]
  · exact direct

/-- Clearing forgets all ids. -/
theorem unused_emptied {inode : DiskInode} {disk : Nat → Block}
    (blank : (inode.map disk).Blank) : inode.emptied.Unused := by
  have field {start : Nat} (outside : 116 ≤ start) :
      inode.clearDirect.uint start 4 = inode.uint start 4 := by
    rw [clearDirect, uint_clearDirect _ (Nat.min_le_right _ _) (Or.inr outside)]
    exact Bytes.uint_putUint_outside _ _ (by omega)
  have cleared : ∀ position < 28, inode.clearDirect.direct position = 0 := by
    intro position inside
    rw [clearDirect, direct_foldl_setDirect _ (Nat.min_le_right _ _) inside]
    split_ifs with isUsed
    · rfl
    · exact (Bytes.uint_putUint_outside _ _ (by omega)).trans
        (blank.direct position inside (by change sizeBlocks inode.size ≤ position; omega))
  have direct (position : Nat) (inside : position < 28) : inode.emptied.direct position = 0 := by
    rw [emptied]
    split_ifs
    · exact (Bytes.uint_putUint_outside _ _ (by omega)).trans
        ((Bytes.uint_putUint_outside _ _ (by omega)).trans (cleared position inside))
    · exact (Bytes.uint_putUint_outside _ _ (by omega)).trans (cleared position inside)
    · exact cleared position inside
  refine ⟨size_emptied inode, direct, ?_, ?_⟩
  · rw [emptied]
    split_ifs with second first
    · exact (Bytes.uint_putUint_outside _ _ (by omega)).trans
        (indirect1_setIndirect1 _ (by decide))
    · exact indirect1_setIndirect1 _ (by decide)
    · exact (field (by omega)).trans (blank.indirect1 (if_pos (Nat.not_lt.mp first)))
  · have noSecond (within : sizeBlocks inode.size ≤ 156) : inode.indirect2 = 0 := by
      refine blank.indirect2 ?_
      change BlockMap.indexCount (sizeBlocks inode.size) ≤ 1
      rw [BlockMap.indexCount]
      split_ifs <;> omega
    rw [emptied]
    split_ifs with second first
    · exact indirect2_setIndirect2 _ (by decide)
    · exact (Bytes.uint_putUint_outside _ _ (by omega)).trans
        ((field (by omega)).trans (noSecond (Nat.not_lt.mp second)))
    · exact (field (by omega)).trans (noSecond (Nat.not_lt.mp second))

theorem unused_initializeAs (inode : DiskInode) (kind : DiskInodeType) :
    (inode.initializeAs kind).Unused := by
  have typed {start : Nat} (before : start + 4 ≤ 124) (image : DiskInode) :
      (image.setType kind).uint start 4 = image.uint start 4 :=
    Bytes.uint_overlay_outside _ _ (Or.inl before)
  refine ⟨?_, fun position inside => ?_, ?_, ?_⟩
  · refine (typed (by omega) _).trans ((sameBut_setIndirect2 _ _).size.trans
      ((sameBut_setIndirect1 _ _).size.trans ?_))
    exact (uint_clearDirect _ (le_refl 28) (Or.inl (by omega))).trans
      (size_setSize inode (by decide))
  · refine (typed (by omega) _).trans ((Bytes.uint_putUint_outside _ _ (by omega)).trans
      ((Bytes.uint_putUint_outside _ _ (by omega)).trans ?_))
    exact (direct_foldl_setDirect _ (le_refl 28) inside).trans (if_pos inside)
  · exact (typed (by omega) _).trans ((Bytes.uint_putUint_outside _ _ (by omega)).trans
      (indirect1_setIndirect1 _ (by decide)))
  · exact (typed (by omega) _).trans (indirect2_setIndirect2 _ (by decide))

theorem isDir_initializeAs (inode : DiskInode) (kind : DiskInodeType) :
    (inode.initializeAs kind).isDir = decide (kind.code = DiskInodeType.directory.code) := by
  rw [initializeAs, isDir, setType, Bytes.get_overlay_inside _ _ (le_refl _) (by decide) (by decide)]

end DiskInode

namespace Layout

variable {layout : Layout} {disk later last : Nat → Block} {given after locked : List Nat}
  {inode : DiskInode} {bytes : List UInt8}

/-- An inode has other blocks than before.  The ones it gave back are free, and
nothing but these blocks and the bitmap was written. -/
structure Changes (layout : Layout) (disk later : Nat → Block) (given after : List Nat) :
    Prop where
  data : ∀ blockId ∈ after, blockId ∈ layout.dataBlocks
  source : ∀ blockId ∈ after, blockId ∈ given ∨ blockId ∈ layout.freeBlocks disk
  remains : layout.freeBlocks later =
    (layout.freeBlocks disk ∪ given.toFinset) \ after.toFinset
  zeroed : ∀ blockId ∈ layout.freeBlocks later, later blockId = .zeroed
  frame : ∀ blockId ∉ layout.bitmapBlocks, blockId ∉ given → blockId ∉ after →
    later blockId = disk blockId

/-- The blocks of an inode are in use, and the bitmap and the data blocks can be
locked. -/
structure Ready (layout : Layout) (disk : Nat → Block) (given locked : List Nat) : Prop where
  bitmap : ∀ blockId ∈ layout.bitmapBlocks, blockId ∉ locked
  unlocked : ∀ blockId ∈ layout.dataBlocks, blockId ∉ locked
  data : ∀ blockId ∈ given, blockId ∈ layout.dataBlocks
  used : ∀ blockId ∈ given, blockId ∉ layout.freeBlocks disk
  zeroed : ∀ blockId ∈ layout.freeBlocks disk, disk blockId = .zeroed

theorem Ready.unlocked_given (ready : layout.Ready disk given locked) :
    ∀ blockId ∈ given, blockId ∉ locked :=
  fun blockId isGiven => ready.unlocked blockId (ready.data blockId isGiven)

theorem Ready.refl (ready : layout.Ready disk given locked) :
    layout.Changes disk disk given given := by
  refine ⟨ready.data, fun _ isGiven => Or.inl isGiven, ?_, ready.zeroed, fun _ _ _ _ => rfl⟩
  ext blockId
  have used := ready.used blockId
  simp only [Finset.mem_sdiff, Finset.mem_union, List.mem_toFinset]
  tauto

/-- The blocks of the inode may be written afterwards. -/
theorem Changes.rewrite (changes : layout.Changes disk later given after)
    (same : ∀ blockId ∉ after, last blockId = later blockId) :
    layout.Changes disk last given after := by
  have sameFree : layout.freeBlocks last = layout.freeBlocks later :=
    freeBlocks_congr fun blockId isBitmap =>
      same _ fun isAfter => not_mem_bitmapBlocks (changes.data _ isAfter) isBitmap
  refine ⟨changes.data, changes.source, sameFree.trans changes.remains, fun blockId isFree => ?_,
    fun blockId outside notGiven notAfter =>
      (same _ notAfter).trans (changes.frame _ outside notGiven notAfter)⟩
  rw [sameFree] at isFree
  have notAfter : blockId ∉ after := by
    rw [changes.remains] at isFree
    simpa using (Finset.mem_sdiff.mp isFree).2
  exact (same _ notAfter).trans (changes.zeroed _ isFree)

theorem length_of_stores (stores : inode.Stores disk given bytes) :
    given.length = blocksOf bytes.length := by
  rw [← stores.owns.ids.length_eq, blocksOf, ← stores.size]
  simp only [BlockMap.ids, List.length_append, List.length_map, List.length_range]
  rfl

/-- Free blocks and blocks of the inode remain as many. -/
theorem Changes.card (changes : layout.Changes disk later given after) (nodup : given.Nodup)
    (nodupAfter : after.Nodup) (used : ∀ blockId ∈ given, blockId ∉ layout.freeBlocks disk) :
    (layout.freeBlocks later).card + after.length =
      (layout.freeBlocks disk).card + given.length := by
  have apart : Disjoint (layout.freeBlocks disk) given.toFinset :=
    Finset.disjoint_left.mpr fun blockId isFree isGiven =>
      used blockId (List.mem_toFinset.mp isGiven) isFree
  have inside : after.toFinset ⊆ layout.freeBlocks disk ∪ given.toFinset := by
    intro blockId isAfter
    have source := changes.source blockId (List.mem_toFinset.mp isAfter)
    simp only [Finset.mem_union, List.mem_toFinset]
    tauto
  have union := Finset.card_union_of_disjoint apart
  have le := Finset.card_le_card inside
  rw [List.toFinset_card_of_nodup nodup] at union
  rw [List.toFinset_card_of_nodup nodupAfter] at le
  rw [changes.remains, Finset.card_sdiff_of_subset inside,
    List.toFinset_card_of_nodup nodupAfter]
  omega

/-- A file grows as long as there are free blocks. -/
theorem run_increaseSize (build : Build) (ready : layout.Ready disk given locked)
    (stores : inode.Stores disk given bytes) {newSize : Nat} (bounded : newSize ≤ sizeBound)
    (enough : blocksOf newSize ≤ blocksOf bytes.length + (layout.freeBlocks disk).card) :
    ∃ grown later after, (Inode.increaseSize layout.toEasyFileSystem build newSize inode).run
        ⟨disk, locked⟩ = .ok grown ⟨later, locked⟩ ∧
      DiskInode.Stores grown later after (writtenAt bytes newSize []) ∧
      DiskInode.isDir grown = inode.isDir ∧ layout.Changes disk later given after := by
  by_cases smaller : newSize < inode.size
  · refine ⟨inode, disk, given, ?_, ?_, rfl, ready.refl⟩
    · rw [Inode.increaseSize, if_pos smaller, run_pure]
    · rw [stores.size] at smaller
      rwa [writtenAt_nil (Nat.le_of_lt smaller)]
  · have larger : inode.size ≤ newSize := Nat.not_lt.mp smaller
    have needed (volume : Volume) := DiskInode.run_blocksNumNeeded build larger bounded volume
    rw [← blocksOf, ← blocksOf, stores.size] at needed
    obtain ⟨taken, middle, ranAlloc, length, takes⟩ :=
      @run_allocBlocks layout build ⟨disk, locked⟩ _ ready.bitmap
        (Nat.sub_le_iff_le_add'.mpr enough)
    have keptGiven : ∀ blockId ∈ given, middle blockId = disk blockId := fun blockId isGiven =>
      takes.frame _ (not_mem_bitmapBlocks (ready.data _ isGiven))
    have takenData : ∀ blockId ∈ taken, blockId ∈ layout.dataBlocks := fun blockId isTaken =>
      freeBlocks_subset (takes.free _ isTaken)
    have middleStores := stores.congr keptGiven
    have fresh : BlockMap.Fresh given taken := by
      refine ⟨List.nodup_append.mpr ⟨stores.owns.nodup, takes.nodup, ?_⟩, fun blockId isTaken =>
        inWord_of_mem (takenData _ isTaken)⟩
      rintro blockId isGiven _ isTaken rfl
      exact ready.used _ isGiven (takes.free _ isTaken)
    have allData : ∀ blockId ∈ given ++ taken, blockId ∈ layout.dataBlocks := by
      intro blockId isOwned
      rcases List.mem_append.mp isOwned with isGiven | isTaken
      · exact ready.data _ isGiven
      · exact takenData _ isTaken
    have neededMiddle := needed ⟨middle, locked⟩
    rw [← length] at neededMiddle
    obtain ⟨grown, later, ran, laterOwns, grows, size, isDir, blank⟩ :=
      DiskInode.run_increaseSize_needed build middleStores.owns larger bounded neededMiddle fresh
        fun blockId isOwned => ready.unlocked _ (allData _ isOwned)
    have takenZero : ∀ blockId ∈ taken, middle blockId = .zeroed := fun blockId isTaken =>
      (takes.frame _ (not_mem_bitmapBlocks (takenData _ isTaken))).trans
        (ready.zeroed _ (takes.free _ isTaken))
    have laterStores := middleStores.of_grows grows laterOwns (blank takenZero middleStores.blank)
      size (stores.size ▸ larger) bounded takenZero
    have same : ∀ blockId ∉ given ++ taken, later blockId = middle blockId := by
      intro blockId notOwned
      refine grows.frame _ fun level levelLt isIndex => notOwned ?_
      rw [isIndex]
      exact laterOwns.index_mem levelLt
    have sameFree : layout.freeBlocks later = layout.freeBlocks middle :=
      freeBlocks_congr fun blockId isBitmap =>
        same _ fun isOwned => not_mem_bitmapBlocks (allData _ isOwned) isBitmap
    refine ⟨grown, later, given ++ taken, ?_, laterStores, isDir, allData, ?_, ?_, ?_, ?_⟩
    · rw [Inode.increaseSize, if_neg smaller, run_bind_ok (needed _), run_bind_ok ranAlloc,
        run_bind_ok ran, run_pure]
    · intro blockId isOwned
      exact (List.mem_append.mp isOwned).imp_right (takes.free blockId)
    · rw [sameFree, takes.remains]
      ext blockId
      have used := ready.used blockId
      simp only [Finset.mem_sdiff, Finset.mem_union, List.mem_toFinset, List.mem_append]
      tauto
    · intro blockId isFree
      rw [sameFree, takes.remains, Finset.mem_sdiff, List.mem_toFinset] at isFree
      have notOwned : blockId ∉ given ++ taken := by
        intro isOwned
        rcases List.mem_append.mp isOwned with isGiven | isTaken
        · exact ready.used _ isGiven isFree.1
        · exact isFree.2 isTaken
      rw [same _ notOwned,
        takes.frame _ (not_mem_bitmapBlocks (freeBlocks_subset isFree.1))]
      exact ready.zeroed _ isFree.1
    · intro blockId outside _ notOwned
      exact (same _ notOwned).trans (takes.frame _ outside)

/-- Clearing gives all blocks back. -/
theorem run_clear (build : Build) (ready : layout.Ready disk given locked)
    (stores : inode.Stores disk given bytes) :
    ∃ v later, (DiskInode.clearSize build inode).run ⟨disk, locked⟩ =
        .ok (v, inode.emptied) ⟨disk, locked⟩ ∧
      (DiskInode.totalBlocks build inode.size).run ⟨disk, locked⟩ =
        .ok v.length ⟨disk, locked⟩ ∧
      (Inode.deallocBlocks layout.toEasyFileSystem build v).run ⟨disk, locked⟩ =
        .ok () ⟨later, locked⟩ ∧
      inode.emptied.Stores later [] [] ∧ layout.Changes disk later given [] := by
  have bounded : inode.size ≤ sizeBound := stores.size.trans_le stores.bounded
  obtain ⟨v, ranClear, perm⟩ :=
    DiskInode.run_clearSize build stores.owns bounded ready.unlocked_given
  have isGiven (blockId : Nat) : blockId ∈ v ↔ blockId ∈ given := perm.mem_iff
  obtain ⟨later, ranDealloc, frees⟩ := @run_deallocBlocks layout build ⟨disk, locked⟩ v
    ready.bitmap (perm.nodup_iff.mpr stores.owns.nodup)
    (fun blockId isFreed => ready.data _ ((isGiven _).mp isFreed))
    (fun blockId isFreed => ready.used _ ((isGiven _).mp isFreed))
    (fun blockId isFreed => ready.unlocked_given _ ((isGiven _).mp isFreed))
  have length : v.length = blocksOf inode.size := by
    rw [perm.length_eq, length_of_stores stores, stores.size]
  refine ⟨v, later, ranClear, ?_, ranDealloc, (DiskInode.unused_emptied stores.blank).stores later,
    by simp, by simp, ?_, ?_, ?_⟩
  · rw [DiskInode.run_totalBlocks build bounded, length, blocksOf]
  · rw [frees.remains]
    ext blockId
    simp [isGiven blockId]
  · intro blockId isFree
    by_cases isFreed : blockId ∈ v
    · exact frees.zeroed _ isFreed
    · rw [frees.remains, Finset.mem_union, List.mem_toFinset] at isFree
      have wasFree := isFree.resolve_right isFreed
      rw [frees.frame _ (not_mem_bitmapBlocks (freeBlocks_subset wasFree)) isFreed]
      exact ready.zeroed _ wasFree
  · exact fun blockId outside notGiven _ =>
      frees.frame _ outside fun isFreed => notGiven ((isGiven _).mp isFreed)

/-- The block that holds an inode. -/
def slotBlock (layout : Layout) (inodeId : Nat) : Nat := layout.inodeAreaStartBlock + inodeId / 4

/-- The offset of an inode in its block. -/
def slotOffset (inodeId : Nat) : Nat := inodeId % 4 * diskInodeSize

/-- The inode of the virtual file system for a number. -/
def handle (layout : Layout) (inodeId : Nat) : Inode := ⟨layout.slotBlock inodeId, slotOffset inodeId⟩

/-- The disk inode of a number. -/
def inodeAt (layout : Layout) (disk : Nat → Block) (inodeId : Nat) : DiskInode :=
  (disk (layout.slotBlock inodeId)).extract (slotOffset inodeId) diskInodeSize

/-- Store the disk inode of a number. -/
def putInode (layout : Layout) (disk : Nat → Block) (inodeId : Nat) (image : DiskInode) :
    Nat → Block :=
  Function.update disk (layout.slotBlock inodeId)
    ((disk (layout.slotBlock inodeId)).paste (slotOffset inodeId) image)

/-- The superblock of the layout. -/
def superBlock (layout : Layout) : SuperBlock where
  magic := efsMagic
  totalBlocks := UInt32.ofNat layout.totalBlocks
  inodeBitmapBlocks := UInt32.ofNat layout.inodeBitmap.blocks
  inodeAreaBlocks := UInt32.ofNat layout.inodeBlocks
  dataBitmapBlocks := UInt32.ofNat layout.dataBitmap.blocks
  dataAreaBlocks := UInt32.ofNat (layout.totalBlocks - layout.dataAreaStartBlock)

/-- The first inodes are in use, they store some bytes each, and they own the
data blocks given to them, which are all that are not free. -/
structure Holds (layout : Layout) (disk : Nat → Block) (count : Nat)
    (bytes : Nat → List UInt8) (given : Nat → List Nat) : Prop where
  superBlock : (disk 0).load SuperBlock.record 0 = layout.superBlock
  inodeBits : ∀ index < layout.inodeBitmap.maximum,
    layout.inodeBitmap.bit disk index = decide (index < count)
  slots : count ≤ 4 * layout.inodeBlocks
  isDir : 0 < count → (layout.inodeAt disk 0).isDir = true
  stores : ∀ inodeId < count,
    (layout.inodeAt disk inodeId).Stores disk (given inodeId) (bytes inodeId)
  apart : ∀ first < count, ∀ second < count, first ≠ second →
    (given first).Disjoint (given second)
  data : ∀ inodeId < count, ∀ blockId ∈ given inodeId, blockId ∈ layout.dataBlocks
  used : ∀ inodeId < count, ∀ blockId ∈ given inodeId, blockId ∉ layout.freeBlocks disk
  kept : ∀ blockId ∈ layout.dataBlocks, blockId ∉ layout.freeBlocks disk →
    ∃ inodeId < count, blockId ∈ given inodeId
  zeroed : ∀ blockId ∈ layout.freeBlocks disk, disk blockId = .zeroed

/-- No block of the device is locked. -/
def Open (layout : Layout) (locked : List Nat) : Prop :=
  ∀ blockId < layout.totalBlocks, blockId ∉ locked

section Slots

variable {inodeId : Nat} (inSlots : inodeId < 4 * layout.inodeBlocks)

/-- The areas before the data bitmap hold no data. -/
theorem not_mem_of_lt {blockId : Nat} (before : blockId < layout.dataBitmap.startBlockId) :
    blockId ∉ layout.bitmapBlocks ∧ blockId ∉ layout.dataBlocks := by
  have bitmapEnd := layout.dataBitmapEnd
  rw [mem_bitmapBlocks, mem_dataBlocks]
  omega

theorem lt_totalBlocks {blockId : Nat} (inside : blockId < layout.dataBitmap.startBlockId) :
    blockId < layout.totalBlocks := by
  have bitmapEnd := layout.dataBitmapEnd
  have dataEnd := layout.dataAreaEnd
  omega

theorem lt_totalBlocks_of_bitmap {blockId : Nat} (isBitmap : blockId ∈ layout.bitmapBlocks) :
    blockId < layout.totalBlocks := by
  have bitmapEnd := layout.dataBitmapEnd
  have dataEnd := layout.dataAreaEnd
  rw [mem_bitmapBlocks] at isBitmap
  omega

include inSlots in
theorem slotBlock_lt : layout.slotBlock inodeId < layout.dataBitmap.startBlockId := by
  have areaEnd := layout.inodeAreaEnd
  rw [slotBlock]
  omega

theorem slotOffset_add (inodeId : Nat) : slotOffset inodeId + diskInodeSize ≤ blockSz := by
  rw [slotOffset, diskInodeSize, blockSz]
  omega

theorem slotBlock_pos (layout : Layout) (inodeId : Nat) : 0 < layout.slotBlock inodeId := by
  have first := layout.superBlockEnd
  have bitmapEnd := layout.inodeBitmapEnd
  rw [slotBlock]
  omega

/-- The blocks of the inode bitmap lie before the inodes. -/
theorem inodeBitmap_lt {index : Nat} (inside : index < layout.inodeBitmap.maximum) :
    index / blockBits + layout.inodeBitmap.startBlockId < layout.inodeAreaStartBlock := by
  have bitmapEnd := layout.inodeBitmapEnd
  have inBlocks : index / blockBits < layout.inodeBitmap.blocks :=
    Nat.div_lt_of_lt_mul (by rwa [Nat.mul_comm])
  generalize index / blockBits = position at inBlocks
  omega

include inSlots in
theorem run_getDiskInodePos (build : Build) (volume : Volume) :
    (layout.getDiskInodePos build inodeId).run volume =
      .ok (layout.slotBlock inodeId, slotOffset inodeId) volume := by
  have inArea := lt_totalBlocks (slotBlock_lt inSlots)
  have inWord := layout.inWord
  rw [slotBlock] at inArea
  exact EasyFileSystem.run_getDiskInodePos build volume (by
    change layout.inodeAreaStartBlock + inodeId / 4 < 2 ^ 32
    omega)

/-- An inode does not see a write to another one. -/
theorem inodeAt_putInode {other : Nat} (differs : other ≠ inodeId) (disk : Nat → Block)
    (image : DiskInode) :
    layout.inodeAt (layout.putInode disk inodeId image) other = layout.inodeAt disk other := by
  rw [inodeAt, inodeAt, putInode]
  by_cases same : layout.slotBlock other = layout.slotBlock inodeId
  · have apart : slotOffset other + diskInodeSize ≤ slotOffset inodeId ∨
        slotOffset inodeId + diskInodeSize ≤ slotOffset other := by
      rw [slotBlock, slotBlock] at same
      rw [slotOffset, slotOffset, diskInodeSize]
      omega
    rw [same, Function.update_self, Bytes.paste, Bytes.extract_overlay_outside _ _ apart]
  · rw [Function.update_of_ne same]

theorem inodeAt_putInode_self (layout : Layout) (disk : Nat → Block) (inodeId : Nat)
    (image : DiskInode) :
    layout.inodeAt (layout.putInode disk inodeId image) inodeId = image := by
  rw [inodeAt, putInode, Function.update_self, Bytes.extract_paste _ _ (slotOffset_add inodeId)]

end Slots

theorem putInode_of_ne {inodeId blockId : Nat} (differs : blockId ≠ layout.slotBlock inodeId)
    (image : DiskInode) : layout.putInode disk inodeId image blockId = disk blockId :=
  Function.update_of_ne differs _ _

theorem freeBlocks_putInode {inodeId : Nat} (inSlots : inodeId < 4 * layout.inodeBlocks)
    (image : DiskInode) :
    layout.freeBlocks (layout.putInode disk inodeId image) = layout.freeBlocks disk := by
  refine freeBlocks_congr fun blockId isBitmap => putInode_of_ne ?_ _
  rintro rfl
  exact (not_mem_of_lt (slotBlock_lt inSlots)).1 isBitmap

section Holding

variable {count inodeId : Nat} {contents : Nat → List UInt8} {owned : Nat → List Nat}

theorem Holds.inSlots (holds : layout.Holds disk count contents owned) (isInode : inodeId < count) :
    inodeId < 4 * layout.inodeBlocks :=
  lt_of_lt_of_le isInode holds.slots

/-- The blocks of an inode can be changed while its own block is locked. -/
theorem Holds.ready (holds : layout.Holds disk count contents owned) (isInode : inodeId < count)
    (isOpen : layout.Open locked) :
    layout.Ready disk (owned inodeId) (layout.slotBlock inodeId :: locked) := by
  obtain ⟨notBitmap, notData⟩ := not_mem_of_lt (slotBlock_lt (holds.inSlots isInode))
  refine ⟨fun blockId isBitmap isLocked => ?_, fun blockId isData isLocked => ?_,
    holds.data inodeId isInode, holds.used inodeId isInode, holds.zeroed⟩
  · rcases List.mem_cons.mp isLocked with rfl | isLocked
    · exact notBitmap isBitmap
    · exact isOpen blockId (lt_totalBlocks_of_bitmap isBitmap) isLocked
  · rcases List.mem_cons.mp isLocked with rfl | isLocked
    · exact notData isData
    · exact isOpen blockId (mem_dataBlocks.mp isData).2.1 isLocked

/-- A change to the blocks of one inode keeps what the others hold. -/
theorem Holds.replace (holds : layout.Holds disk count contents owned) (isInode : inodeId < count)
    {changed : DiskInode} {content : List UInt8} (stores : changed.Stores later after content)
    (isDir : changed.isDir = (layout.inodeAt disk inodeId).isDir)
    (changes : layout.Changes disk later (owned inodeId) after) :
    layout.Holds (layout.putInode later inodeId changed) count
      (Function.update contents inodeId content) (Function.update owned inodeId after) := by
  have slotBefore := slotBlock_lt (holds.inSlots isInode)
  obtain ⟨_, slotNotData⟩ := not_mem_of_lt slotBefore
  -- The areas before the data bitmap change in the slot only.
  have before (blockId : Nat) (isBefore : blockId < layout.dataBitmap.startBlockId) :
      later blockId = disk blockId := by
    obtain ⟨notBitmap, notData⟩ := not_mem_of_lt isBefore
    exact changes.frame _ notBitmap (fun isGiven => notData (holds.data _ isInode _ isGiven))
      fun isAfter => notData (changes.data _ isAfter)
  have onData (blockId : Nat) (isData : blockId ∈ layout.dataBlocks) :
      layout.putInode later inodeId changed blockId = later blockId := by
    refine putInode_of_ne ?_ _
    rintro rfl
    exact slotNotData isData
  have sameFree := @freeBlocks_putInode layout later inodeId (holds.inSlots isInode) changed
  have otherInode (other : Nat) (isOther : other < count) (differs : other ≠ inodeId) :
      layout.inodeAt (layout.putInode later inodeId changed) other = layout.inodeAt disk other := by
    rw [inodeAt_putInode differs, inodeAt, before _ (slotBlock_lt (holds.inSlots isOther)), inodeAt]
  have otherBlocks (other : Nat) (isOther : other < count) (differs : other ≠ inodeId)
      (blockId : Nat) (isOwned : blockId ∈ owned other) :
      blockId ∉ after ∧ layout.putInode later inodeId changed blockId = disk blockId := by
    have notGiven : blockId ∉ owned inodeId := fun isGiven =>
      holds.apart other isOther inodeId isInode differs isOwned isGiven
    have notAfter : blockId ∉ after := fun isAfter =>
      (changes.source _ isAfter).elim notGiven (holds.used other isOther _ isOwned)
    have isData := holds.data other isOther _ isOwned
    exact ⟨notAfter, (onData _ isData).trans
      (changes.frame _ (not_mem_bitmapBlocks isData) notGiven notAfter)⟩
  have notFree (blockId : Nat) (isAfter : blockId ∈ after) : blockId ∉ layout.freeBlocks later := by
    rw [changes.remains]
    simp [isAfter]
  refine ⟨?_, ?_, holds.slots, ?_, ?_, ?_, ?_, ?_, ?_, ?_⟩
  · have isFirst : (0 : Nat) < layout.dataBitmap.startBlockId :=
      lt_trans (slotBlock_pos layout inodeId) slotBefore
    rw [putInode_of_ne (slotBlock_pos layout inodeId).ne, before 0 isFirst]
    exact holds.superBlock
  · intro index inside
    have bitBlock := inodeBitmap_lt inside
    have apart : index / blockBits + layout.inodeBitmap.startBlockId ≠
        layout.slotBlock inodeId := by
      rw [slotBlock]
      omega
    have areaEnd := layout.inodeAreaEnd
    rw [Bitmap.bit, putInode_of_ne apart, before _ (by omega)]
    exact holds.inodeBits index inside
  · intro someInode
    by_cases same : 0 = inodeId
    · rw [← same, inodeAt_putInode_self]
      rw [← same] at isDir
      exact isDir.trans (holds.isDir someInode)
    · rw [otherInode 0 someInode same]
      exact holds.isDir someInode
  · intro other isOther
    by_cases same : other = inodeId
    · subst same
      rw [inodeAt_putInode_self, Function.update_self, Function.update_self]
      exact stores.congr fun blockId isAfter => onData _ (changes.data _ isAfter)
    · rw [otherInode other isOther same, Function.update_of_ne same, Function.update_of_ne same]
      exact (holds.stores other isOther).congr fun blockId isOwned =>
        (otherBlocks other isOther same blockId isOwned).2
  · intro first firstLt second secondLt differs
    by_cases isFirst : first = inodeId
    · subst isFirst
      rw [Function.update_self, Function.update_of_ne differs.symm]
      exact fun blockId isAfter isOwned =>
        (otherBlocks second secondLt differs.symm blockId isOwned).1 isAfter
    · rw [Function.update_of_ne isFirst]
      by_cases isSecond : second = inodeId
      · subst isSecond
        rw [Function.update_self]
        exact fun blockId isOwned isAfter =>
          (otherBlocks first firstLt isFirst blockId isOwned).1 isAfter
      · rw [Function.update_of_ne isSecond]
        exact holds.apart first firstLt second secondLt differs
  · intro other isOther blockId isOwned
    by_cases same : other = inodeId
    · rw [same, Function.update_self] at isOwned
      exact changes.data _ isOwned
    · rw [Function.update_of_ne same] at isOwned
      exact holds.data other isOther _ isOwned
  · intro other isOther blockId isOwned
    rw [sameFree]
    by_cases same : other = inodeId
    · rw [same, Function.update_self] at isOwned
      exact notFree _ isOwned
    · rw [Function.update_of_ne same] at isOwned
      have notGiven : blockId ∉ owned inodeId := fun isGiven =>
        holds.apart other isOther inodeId isInode same isOwned isGiven
      rw [changes.remains]
      simp [holds.used other isOther _ isOwned, notGiven]
  · intro blockId isData notFree
    rw [sameFree, changes.remains] at notFree
    simp only [Finset.mem_sdiff, Finset.mem_union, List.mem_toFinset, not_and_or, not_or,
      not_not] at notFree
    rcases notFree with ⟨wasUsed, notGiven⟩ | isAfter
    · obtain ⟨other, isOther, isOwned⟩ := holds.kept blockId isData wasUsed
      have differs : other ≠ inodeId := fun same => notGiven (same ▸ isOwned)
      exact ⟨other, isOther, by rwa [Function.update_of_ne differs]⟩
    · exact ⟨inodeId, isInode, by rwa [Function.update_self]⟩
  · intro blockId isFree
    rw [sameFree] at isFree
    rw [onData _ (freeBlocks_subset isFree)]
    exact changes.zeroed _ isFree

theorem Holds.card_replace (holds : layout.Holds disk count contents owned)
    (isInode : inodeId < count) {changed : DiskInode} {content : List UInt8}
    (stores : changed.Stores later after content)
    (changes : layout.Changes disk later (owned inodeId) after) :
    (layout.freeBlocks (layout.putInode later inodeId changed)).card + blocksOf content.length =
      (layout.freeBlocks disk).card + blocksOf (contents inodeId).length := by
  have old := holds.stores inodeId isInode
  rw [freeBlocks_putInode (holds.inSlots isInode), ← length_of_stores stores,
    ← length_of_stores old]
  exact changes.card old.owns.nodup stores.owns.nodup (holds.used inodeId isInode)

theorem run_readDiskInode {α : Type} {value : α} {closure : DiskInode → Call α}
    (free : layout.slotBlock inodeId ∉ locked)
    (ran : (closure (layout.inodeAt disk inodeId)).run
      ⟨disk, layout.slotBlock inodeId :: locked⟩ =
        .ok value ⟨disk, layout.slotBlock inodeId :: locked⟩) :
    ((layout.handle inodeId).readDiskInode closure).run ⟨disk, locked⟩ =
      .ok value ⟨disk, locked⟩ := by
  have fits : (layout.handle inodeId).blockOffset + diskInodeSize ≤ blockSz :=
    slotOffset_add inodeId
  refine BlockMap.run_withLocked free ?_
  rw [run_bind_ok (run_check fits _), run_bind_ok (run_get _)]
  exact ran

theorem run_readDiskInode_panic {α : Type} {closure : DiskInode → Call α}
    (free : layout.slotBlock inodeId ∉ locked)
    (panics : (closure (layout.inodeAt disk inodeId)).run
      ⟨disk, layout.slotBlock inodeId :: locked⟩ = .panic) :
    ((layout.handle inodeId).readDiskInode closure).run ⟨disk, locked⟩ = .panic := by
  have fits : (layout.handle inodeId).blockOffset + diskInodeSize ≤ blockSz :=
    slotOffset_add inodeId
  have unlocked : (layout.handle inodeId).blockId ∉ (⟨disk, locked⟩ : Volume).locked := free
  rw [Inode.readDiskInode, withLocked, run_bind_ok (run_readBlock unlocked),
    run_bind_ok (run_modify _ _)]
  refine run_bind_panic ?_
  rw [run_bind_ok (run_check fits _), run_bind_ok (run_get _)]
  exact panics

theorem run_modifyDiskInode {α : Type} {value : α} {closure : DiskInode → Call (α × DiskInode)}
    {changed : DiskInode} (free : layout.slotBlock inodeId ∉ locked)
    (ran : (closure (layout.inodeAt disk inodeId)).run
      ⟨disk, layout.slotBlock inodeId :: locked⟩ =
        .ok (value, changed) ⟨later, layout.slotBlock inodeId :: locked⟩) :
    ((layout.handle inodeId).modifyDiskInode closure).run ⟨disk, locked⟩ =
      .ok value ⟨layout.putInode later inodeId changed, locked⟩ := by
  have fits : (layout.handle inodeId).blockOffset + diskInodeSize ≤ blockSz :=
    slotOffset_add inodeId
  refine BlockMap.run_withLocked free ?_
  rw [run_bind_ok (run_check fits _), run_bind_ok (run_get _)]
  refine (run_bind_ok ran).trans ?_
  rw [run_bind_ok (run_modify _ _), run_pure]
  rfl

theorem run_modifyDiskInode_panic {α : Type} {closure : DiskInode → Call (α × DiskInode)}
    (free : layout.slotBlock inodeId ∉ locked)
    (panics : (closure (layout.inodeAt disk inodeId)).run
      ⟨disk, layout.slotBlock inodeId :: locked⟩ = .panic) :
    ((layout.handle inodeId).modifyDiskInode closure).run ⟨disk, locked⟩ = .panic := by
  have fits : (layout.handle inodeId).blockOffset + diskInodeSize ≤ blockSz :=
    slotOffset_add inodeId
  have unlocked : (layout.handle inodeId).blockId ∉ (⟨disk, locked⟩ : Volume).locked := free
  rw [Inode.modifyDiskInode, withLocked, run_bind_ok (run_readBlock unlocked),
    run_bind_ok (run_modify _ _)]
  refine run_bind_panic ?_
  rw [run_bind_ok (run_check fits _), run_bind_ok (run_get _)]
  exact run_bind_panic panics

theorem Holds.slot_unlocked (holds : layout.Holds disk count contents owned)
    (isInode : inodeId < count) (isOpen : layout.Open locked) :
    layout.slotBlock inodeId ∉ locked :=
  isOpen _ (lt_totalBlocks (slotBlock_lt (holds.inSlots isInode)))

/-- Reading returns the bytes of the range that are in the file. -/
theorem Holds.run_readAt (build : Build) (holds : layout.Holds disk count contents owned)
    (isInode : inodeId < count) (isOpen : layout.Open locked) {offset length : Nat}
    (inWord : build.overflowChecks = true → offset + length < 2 ^ 64)
    (small : offset < 2 ^ 64) (short : length < 2 ^ 63) :
    ((layout.handle inodeId).readAt build offset length).run ⟨disk, locked⟩ =
      .ok (((contents inodeId).drop offset).take length) ⟨disk, locked⟩ :=
  run_readDiskInode (holds.slot_unlocked isInode isOpen)
    ((holds.stores inodeId isInode).run_readAt build
      (holds.ready isInode isOpen).unlocked_given inWord small short)

/-- A write to a file that may grow for it. -/
theorem Holds.run_writeAt (build : Build) (holds : layout.Holds disk count contents owned)
    (isInode : inodeId < count) (isOpen : layout.Open locked) {offset : Nat} {buf : List UInt8}
    (some : buf ≠ []) (bounded : offset + buf.length ≤ sizeBound)
    (enough : blocksOf (offset + buf.length) ≤
      blocksOf (contents inodeId).length + (layout.freeBlocks disk).card) :
    ∃ later after, ((layout.handle inodeId).writeAt layout.toEasyFileSystem build offset buf).run
        ⟨disk, locked⟩ = .ok buf.length ⟨later, locked⟩ ∧
      layout.Holds later count
        (Function.update contents inodeId (writtenAt (contents inodeId) offset buf)) after := by
  have inBytes : offset + buf.length ≤ 8468480 := bounded
  have ready := holds.ready isInode isOpen
  obtain ⟨grown, middle, after, ranGrow, middleStores, isDir, changes⟩ :=
    run_increaseSize build ready (holds.stores inodeId isInode) bounded enough
  have unlocked : ∀ blockId ∈ after, blockId ∉ layout.slotBlock inodeId :: locked :=
    fun blockId isAfter => ready.unlocked _ (changes.data _ isAfter)
  have inside : offset + buf.length ≤
      (writtenAt (contents inodeId) (offset + buf.length) []).length := by
    rw [length_writtenAt]
    exact le_max_right _ _
  obtain ⟨later, ranWrite, laterStores, same⟩ :=
    middleStores.run_writeAt build unlocked some inside
  rw [writtenAt_extended] at laterStores
  have replaced := holds.replace isInode laterStores isDir (changes.rewrite same)
  refine ⟨_, _, run_modifyDiskInode (holds.slot_unlocked isInode isOpen) ?_, replaced⟩
  have sum : (build.add64 offset buf.length).run
      ⟨disk, layout.slotBlock inodeId :: locked⟩ =
        .ok (offset + buf.length) ⟨disk, layout.slotBlock inodeId :: locked⟩ := by
    rw [Build.add64, run_bind_ok (run_check (by omega) _), run_pure, Nat.mod_eq_of_lt (by omega)]
  rw [run_bind_ok sum, Nat.mod_eq_of_lt (by omega), run_bind_ok ranGrow, run_bind_ok ranWrite,
    run_pure]

/-- An empty write that returns has only changed the size. -/
theorem Holds.of_run_writeAt_nil {build : Build} (holds : layout.Holds disk count contents owned)
    (isInode : inodeId < count) (isOpen : layout.Open locked) {offset written : Nat}
    {volume : Volume} (bounded : offset ≤ sizeBound)
    (enough : blocksOf offset ≤
      blocksOf (contents inodeId).length + (layout.freeBlocks disk).card)
    (ran : ((layout.handle inodeId).writeAt layout.toEasyFileSystem build offset []).run
      ⟨disk, locked⟩ = .ok written volume) :
    ∃ later after, volume = ⟨later, locked⟩ ∧
      layout.Holds later count
        (Function.update contents inodeId (writtenAt (contents inodeId) offset [])) after := by
  have inBytes : offset ≤ 8468480 := bounded
  obtain ⟨grown, middle, after, ranGrow, middleStores, isDir, changes⟩ :=
    run_increaseSize build (holds.ready isInode isOpen) (holds.stores inodeId isInode) bounded
      enough
  have slotFree := holds.slot_unlocked isInode isOpen
  have replaced := holds.replace isInode middleStores isDir changes
  have sum : (build.add64 offset ([] : List UInt8).length).run
      ⟨disk, layout.slotBlock inodeId :: locked⟩ =
        .ok offset ⟨disk, layout.slotBlock inodeId :: locked⟩ := by
    rw [Build.add64, List.length_nil, Nat.add_zero, run_bind_ok (run_check (by omega) _), run_pure,
      Nat.mod_eq_of_lt (by omega)]
  cases isWrite : (DiskInode.writeAt build grown offset []).run
      ⟨middle, layout.slotBlock inodeId :: locked⟩ with
  | ok count behind =>
      obtain ⟨rfl, rfl⟩ := DiskInode.of_run_writeAt_nil isWrite
      have ranAll : ((layout.handle inodeId).writeAt layout.toEasyFileSystem build offset []).run
          ⟨disk, locked⟩ = .ok 0 ⟨layout.putInode middle inodeId grown, locked⟩ := by
        refine run_modifyDiskInode slotFree ?_
        rw [run_bind_ok sum, Nat.mod_eq_of_lt (by omega), run_bind_ok ranGrow,
          run_bind_ok isWrite, run_pure]
      rw [ranAll] at ran
      cases ran
      exact ⟨_, _, rfl, replaced⟩
  | err error => cases error
  | panic =>
      have panics : ((layout.handle inodeId).writeAt layout.toEasyFileSystem build offset []).run
          ⟨disk, locked⟩ = .panic := by
        refine run_modifyDiskInode_panic slotFree ?_
        rw [run_bind_ok sum, Nat.mod_eq_of_lt (by omega), run_bind_ok ranGrow,
          run_bind_panic isWrite]
      rw [panics] at ran
      cases ran

theorem Holds.run_clear (build : Build) (holds : layout.Holds disk count contents owned)
    (isInode : inodeId < count) (isOpen : layout.Open locked) :
    ∃ later after, ((layout.handle inodeId).clear layout.toEasyFileSystem build).run
        ⟨disk, locked⟩ = .ok () ⟨later, locked⟩ ∧
      layout.Holds later count (Function.update contents inodeId []) after := by
  obtain ⟨v, later, ranClear, ranTotal, ranDealloc, stores, changes⟩ :=
    Layout.run_clear build (holds.ready isInode isOpen) (holds.stores inodeId isInode)
  have replaced := holds.replace isInode stores (DiskInode.isDir_emptied _) changes
  refine ⟨_, _, run_modifyDiskInode (holds.slot_unlocked isInode isOpen) ?_, replaced⟩
  rw [run_bind_ok ranClear]
  refine (run_bind_ok ranTotal).trans ?_
  rw [run_bind_ok (run_check rfl _), run_bind_ok ranDealloc, run_pure]

/-- The lowest free inode is the one behind those in use. -/
theorem run_allocInode (bits : ∀ index < layout.inodeBitmap.maximum,
      layout.inodeBitmap.bit disk index = decide (index < count)) (isOpen : layout.Open locked)
    (inBitmap : count < layout.inodeBitmap.maximum) (small : count < 2 ^ 32) :
    layout.allocInode.run ⟨disk, locked⟩ =
      .ok count ⟨(layout.inodeBitmap.setBit ⟨disk, locked⟩ count).disk, locked⟩ := by
  have bitmapEnd := layout.inodeBitmapEnd
  have areaEnd := layout.inodeAreaEnd
  have unlocked : layout.inodeBitmap.Unlocked ⟨disk, locked⟩ := fun index indexLt =>
    isOpen _ (lt_totalBlocks (by omega))
  have clear : layout.inodeBitmap.bit disk count = false := by
    rw [bits count inBitmap]
    simp
  have below : ∀ lower < count, layout.inodeBitmap.bit disk lower = true := by
    intro lower lowerLt
    rw [bits lower (by omega)]
    simpa using lowerLt
  have taken := Bitmap.run_alloc_lowest unlocked inBitmap clear below
  rw [EasyFileSystem.allocInode, run_bind_ok taken, run_bind_ok (run_expect_some _ _), run_pure,
    Nat.mod_eq_of_lt small]
  rfl

/-- The device with one more inode. -/
def withInode (layout : Layout) (disk : Nat → Block) (inodeId : Nat) (image : DiskInode) :
    Nat → Block :=
  layout.putInode (layout.inodeBitmap.setBit ⟨disk, []⟩ inodeId).disk inodeId image

/-- Only the block of the bit and that of the slot are written. -/
theorem withInode_of_ne {blockId : Nat}
    (notBit : blockId ≠ inodeId / blockBits + layout.inodeBitmap.startBlockId)
    (notSlot : blockId ≠ layout.slotBlock inodeId) (image : DiskInode) :
    layout.withInode disk inodeId image blockId = disk blockId := by
  rw [withInode, putInode_of_ne notSlot, Bitmap.setBit, Volume.putBlock_disk,
    Function.update_of_ne notBit]

theorem withInode_behind (inArea : inodeId < 4 * layout.inodeBlocks)
    (inBitmap : inodeId < layout.inodeBitmap.maximum) (image : DiskInode) {blockId : Nat}
    (isBehind : layout.dataBitmap.startBlockId ≤ blockId) :
    layout.withInode disk inodeId image blockId = disk blockId := by
  have slotBefore := slotBlock_lt inArea
  have bitBefore := inodeBitmap_lt inBitmap
  have areaEnd := layout.inodeAreaEnd
  exact withInode_of_ne (by omega) (by omega) image

theorem freeBlocks_withInode (inArea : inodeId < 4 * layout.inodeBlocks)
    (inBitmap : inodeId < layout.inodeBitmap.maximum) (image : DiskInode) :
    layout.freeBlocks (layout.withInode disk inodeId image) = layout.freeBlocks disk :=
  freeBlocks_congr fun _ isBitmap =>
    withInode_behind inArea inBitmap image (mem_bitmapBlocks.mp isBitmap).1

/-- A new inode holds no bytes. -/
theorem Holds.addInode (holds : layout.Holds disk count contents owned)
    (inArea : count < 4 * layout.inodeBlocks) (inBitmap : count < layout.inodeBitmap.maximum)
    (image : DiskInode) (unused : image.Unused) (isFirst : count = 0 → image.isDir = true) :
    layout.Holds (layout.withInode disk count image)
      (count + 1) (Function.update contents count []) (Function.update owned count []) := by
  have bitBefore := inodeBitmap_lt inBitmap
  have areaEnd := layout.inodeAreaEnd
  have sameFree := @freeBlocks_withInode layout disk count inArea inBitmap image
  have onData (blockId : Nat) (isData : blockId ∈ layout.dataBlocks) :
      layout.withInode disk count image blockId = disk blockId := by
    have bitmapEnd := layout.dataBitmapEnd
    have isBehind := (mem_dataBlocks.mp isData).1
    exact withInode_behind inArea inBitmap image (by omega)
  have otherInode (other : Nat) (differs : other ≠ count) :
      layout.inodeAt (layout.withInode disk count image) other = layout.inodeAt disk other := by
    have notBit : layout.slotBlock other ≠
        count / blockBits + layout.inodeBitmap.startBlockId := by
      rw [slotBlock]
      omega
    rw [withInode, inodeAt_putInode differs, inodeAt, Bitmap.setBit, Volume.putBlock_disk,
      Function.update_of_ne notBit, inodeAt]
  refine ⟨?_, ?_, inArea, ?_, ?_, ?_, ?_, ?_, ?_, ?_⟩
  · rw [withInode_of_ne (Nat.add_pos_right _ layout.superBlockEnd).ne
      (slotBlock_pos layout count).ne]
    exact holds.superBlock
  · intro index inside
    have indexBefore := inodeBitmap_lt inside
    have apart : index / blockBits + layout.inodeBitmap.startBlockId ≠ layout.slotBlock count := by
      rw [slotBlock]
      omega
    rw [withInode, Bitmap.bit, putInode_of_ne apart, ← Bitmap.bit, Bitmap.bit_setBit]
    by_cases isNew : index = count
    · simp [isNew]
    · have stillBelow : (index < count + 1) = (index < count) := propext (by omega)
      simp only [if_neg isNew, holds.inodeBits index inside, stillBelow]
  · intro _
    by_cases isNew : count = 0
    · have isRoot := isFirst isNew
      subst isNew
      rwa [withInode, inodeAt_putInode_self]
    · rw [otherInode 0 (Ne.symm isNew)]
      exact holds.isDir (Nat.pos_of_ne_zero isNew)
  · intro other isOther
    by_cases isNew : other = count
    · subst isNew
      rw [withInode, inodeAt_putInode_self, Function.update_self, Function.update_self]
      exact unused.stores _
    · rw [otherInode other isNew, Function.update_of_ne isNew, Function.update_of_ne isNew]
      exact (holds.stores other (by omega)).congr fun blockId isOwned =>
        onData _ (holds.data other (by omega) _ isOwned)
  · intro one oneLt two twoLt differs
    by_cases isOne : one = count
    · rw [isOne, Function.update_self]
      exact List.disjoint_nil_left _
    · by_cases isTwo : two = count
      · rw [isTwo, Function.update_self]
        exact List.disjoint_nil_right _
      · rw [Function.update_of_ne isOne, Function.update_of_ne isTwo]
        exact holds.apart one (by omega) two (by omega) differs
  · intro other isOther blockId isOwned
    by_cases isNew : other = count
    · simp [isNew] at isOwned
    · rw [Function.update_of_ne isNew] at isOwned
      exact holds.data other (by omega) _ isOwned
  · intro other isOther blockId isOwned
    rw [sameFree]
    by_cases isNew : other = count
    · simp [isNew] at isOwned
    · rw [Function.update_of_ne isNew] at isOwned
      exact holds.used other (by omega) _ isOwned
  · intro blockId isData notFree
    rw [sameFree] at notFree
    obtain ⟨other, isOther, isOwned⟩ := holds.kept blockId isData notFree
    exact ⟨other, by omega, by rwa [Function.update_of_ne (by omega)]⟩
  · intro blockId isFree
    rw [sameFree] at isFree
    rw [onData _ (freeBlocks_subset isFree)]
    exact holds.zeroed _ isFree

end Holding

section Making

variable {totalBlocks inodeBitmapBlocks : UInt32} (fit : InodesFit totalBlocks inodeBitmapBlocks)

theorem disk_clearedVolume (start : Volume) {blockId : Nat} (positive : 0 < blockId)
    (inside : blockId < totalBlocks.toNat) :
    (clearedVolume start totalBlocks inodeBitmapBlocks).disk blockId = .zeroed := by
  rw [clearedVolume, Volume.putBlock_disk, Function.update_of_ne positive.ne', Volume.cleared]
  exact if_pos (List.mem_range.mpr inside)

theorem superBlock_madeLayout :
    (madeLayout totalBlocks inodeBitmapBlocks fit).superBlock =
      madeSuperBlock totalBlocks inodeBitmapBlocks := by
  have dataEnd := dataAreaStartBlock_add fit
  have areaEq : (madeSuperBlock totalBlocks inodeBitmapBlocks).dataAreaBlocks =
      UInt32.ofNat (totalBlocks.toNat -
        (madeFileSystem totalBlocks inodeBitmapBlocks).dataAreaStartBlock) := by
    rw [← dataEnd, Nat.add_sub_cancel_left, UInt32.ofNat_toNat]
  rw [superBlock]
  simp only [madeLayout]
  rw [← areaEq, UInt32.ofNat_toNat]
  simp only [madeSuperBlock, madeFileSystem, UInt32.ofNat_toNat]

theorem freeBlocks_clearedVolume (start : Volume) :
    (madeLayout totalBlocks inodeBitmapBlocks fit).freeBlocks
        (clearedVolume start totalBlocks inodeBitmapBlocks).disk =
      (madeLayout totalBlocks inodeBitmapBlocks fit).dataBlocks := by
  refine Finset.filter_true_of_mem fun blockId isData => ?_
  have isBitmap := bit_block (index_lt isData)
  have positive : 0 < (madeLayout totalBlocks inodeBitmapBlocks fit).dataBitmap.startBlockId :=
    Nat.add_pos_left Nat.one_pos _
  rw [Bitmap.bit, disk_clearedVolume start (by rw [mem_bitmapBlocks] at isBitmap; omega)
    (lt_totalBlocks_of_bitmap isBitmap), Bytes.wordBit_zeroed]

/-- Nothing is in use before the root inode is made. -/
theorem holds_clearedVolume (start : Volume) :
    (madeLayout totalBlocks inodeBitmapBlocks fit).Holds
      (clearedVolume start totalBlocks inodeBitmapBlocks).disk 0 (fun _ => []) (fun _ => []) := by
  have noInode (inodeId : Nat) : ¬ inodeId < 0 := Nat.not_lt_zero inodeId
  refine ⟨?_, fun index inside => ?_, Nat.zero_le _, fun none => absurd none (noInode 0),
    fun inodeId none => absurd none (noInode inodeId),
    fun inodeId none => absurd none (noInode inodeId),
    fun inodeId none => absurd none (noInode inodeId),
    fun inodeId none => absurd none (noInode inodeId), fun blockId isData notFree => ?_,
    fun blockId isFree => ?_⟩
  · rw [clearedVolume, Volume.putBlock_disk, Function.update_self, superBlock_madeLayout]
    exact Bytes.load_store _ _ _ (by decide)
  · have before := inodeBitmap_lt inside
    have areaEnd := (madeLayout totalBlocks inodeBitmapBlocks fit).inodeAreaEnd
    have positive : 0 < index / blockBits +
        (madeLayout totalBlocks inodeBitmapBlocks fit).inodeBitmap.startBlockId :=
      Nat.add_pos_right _ (madeLayout totalBlocks inodeBitmapBlocks fit).superBlockEnd
    have inDevice := @lt_totalBlocks (madeLayout totalBlocks inodeBitmapBlocks fit) _
      (lt_of_lt_of_le before (by omega))
    rw [Bitmap.bit, disk_clearedVolume start positive inDevice, Bytes.wordBit_zeroed]
    rfl
  · rw [freeBlocks_clearedVolume] at notFree
    exact absurd isData notFree
  · have inside := mem_dataBlocks.mp (freeBlocks_subset isFree)
    exact disk_clearedVolume start (lt_of_lt_of_le (by simp [madeLayout, madeFileSystem]) inside.1)
      inside.2.1

/-- A made volume holds an empty root directory. -/
theorem holds_madeVolume (start : Volume) (someBlock : 0 < inodeBitmapBlocks.toNat)
    (rooted : 0 < inodeAreaBlocks inodeBitmapBlocks.toNat) :
    (madeLayout totalBlocks inodeBitmapBlocks fit).Holds
      (madeVolume start totalBlocks inodeBitmapBlocks).disk 1 (fun _ => []) (fun _ => []) := by
  have inArea : 0 < 4 * (madeLayout totalBlocks inodeBitmapBlocks fit).inodeBlocks :=
    Nat.mul_pos (by decide) rooted
  have made := @Holds.addInode _ _ _ _ _ (holds_clearedVolume fit start) inArea
    (Nat.mul_pos someBlock (by decide))
    (DiskInode.initializeAs ((madeLayout totalBlocks inodeBitmapBlocks fit).inodeAt
      ((madeLayout totalBlocks inodeBitmapBlocks fit).inodeBitmap.setBit
        (clearedVolume start totalBlocks inodeBitmapBlocks) 0).disk 0) .directory)
    (DiskInode.unused_initializeAs _ _) (fun _ => DiskInode.isDir_initializeAs _ _)
  rw [Function.update_eq_self, Function.update_eq_self] at made
  exact made

end Making

end Layout

end EasyFs

end OSWorkspace
