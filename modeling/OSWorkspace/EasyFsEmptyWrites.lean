import OSWorkspace.EasyFsReopening

/-!
# Empty writes in easy-fs

The writing loop runs its body before it tests for the end, so an empty write
looks a block up.  Inside the file the block exists.  At the end of the file, at
the start of a level, the lookup goes through an id of zero: it takes the
superblock for an indirect block, whose first entry is the magic number.
-/

namespace OSWorkspace

namespace EasyFs

open Exec

namespace DiskInode

/-- The blocks that a lookup reads and the one that it finds. -/
def pathTo (inode : DiskInode) (disk : Nat → Block) (innerId : Nat) : List Nat :=
  if innerId < inodeDirectCount then [inode.direct innerId]
  else if innerId < indirect1Bound then
    [inode.indirect1, entry (disk inode.indirect1) (innerId - inodeDirectCount)]
  else
    let last := innerId - indirect1Bound
    let indirect1 := entry (disk inode.indirect2) (last / inodeIndirect1Count)
    [inode.indirect2, indirect1, entry (disk indirect1) (last % inodeIndirect1Count)]

theorem run_readBlock_panic {volume : Volume} {blockId : Nat} (isLocked : blockId ∈ volume.locked) :
    (readBlock blockId).run volume = .panic := by
  rw [readBlock, run_bind_ok (run_get _)]
  exact run_bind_panic (run_check_panic (not_not_intro isLocked) _)

/-- An empty change of a block needs its lock. -/
theorem run_emptyWrite (volume : Volume) (blockId start : Nat) :
    (modifyBlock blockId fun block => block.write start []).run volume =
      if blockId ∈ volume.locked then .panic else .ok () volume := by
  by_cases isLocked : blockId ∈ volume.locked
  · rw [if_pos isLocked, modifyBlock, run_bind_panic (run_readBlock_panic isLocked)]
  · rw [if_neg isLocked, run_modifyBlock isLocked, emptyWrite, Volume.putBlock,
      Function.update_eq_self]

/-- A lookup with an empty change returns if no block of the path is locked. -/
theorem run_lookupEmpty (inode : DiskInode) (volume : Volume) {innerId : Nat}
    (inside : innerId < 16540) (start : Nat) :
    (inode.getBlockId innerId >>= fun blockId =>
        modifyBlock blockId fun block => block.write start []).run volume =
      if ∃ blockId ∈ inode.pathTo volume.disk innerId, blockId ∈ volume.locked then .panic
      else .ok () volume := by
  rw [getBlockId, pathTo]
  by_cases isDirect : innerId < inodeDirectCount
  · rw [if_pos isDirect, if_pos isDirect, run_bind_ok (run_pure _ _), run_emptyWrite]
    simp
  · rw [if_neg isDirect, if_neg isDirect]
    by_cases isFirst : innerId < indirect1Bound
    · rw [if_pos isFirst, if_pos isFirst]
      by_cases isLocked : inode.indirect1 ∈ volume.locked
      · rw [run_bind_panic (run_bind_panic (run_readBlock_panic isLocked))]
        simp [isLocked]
      · have found : (do
            let indirectBlock ← readBlock inode.indirect1
            return entry indirectBlock (innerId - inodeDirectCount)).run volume =
              .ok (entry (volume.disk inode.indirect1) (innerId - inodeDirectCount)) volume := by
          rw [run_bind_ok (run_readBlock isLocked), run_pure]
        rw [run_bind_ok found, run_emptyWrite]
        simp [isLocked]
    · rw [if_neg isFirst, if_neg isFirst]
      simp only
      have inBlock : (innerId - indirect1Bound) / inodeIndirect1Count < inodeIndirect1Count := by
        change (innerId - 156) / 128 < 128
        omega
      by_cases isLocked : inode.indirect2 ∈ volume.locked
      · rw [run_bind_panic (run_bind_panic (run_readBlock_panic isLocked))]
        simp [isLocked]
      · by_cases lowLocked : entry (volume.disk inode.indirect2)
            ((innerId - indirect1Bound) / inodeIndirect1Count) ∈ volume.locked
        · have panics : (do
              let indirect2 ← readBlock inode.indirect2
              check ((innerId - indirect1Bound) / inodeIndirect1Count < inodeIndirect1Count)
              let indirect1 ← readBlock (entry indirect2
                ((innerId - indirect1Bound) / inodeIndirect1Count))
              return entry indirect1
                ((innerId - indirect1Bound) % inodeIndirect1Count)).run volume = .panic := by
            rw [run_bind_ok (run_readBlock isLocked), run_bind_ok (run_check inBlock _),
              run_bind_panic (run_readBlock_panic lowLocked)]
          rw [run_bind_panic panics]
          simp [lowLocked]
        · have found : (do
              let indirect2 ← readBlock inode.indirect2
              check ((innerId - indirect1Bound) / inodeIndirect1Count < inodeIndirect1Count)
              let indirect1 ← readBlock (entry indirect2
                ((innerId - indirect1Bound) / inodeIndirect1Count))
              return entry indirect1
                ((innerId - indirect1Bound) % inodeIndirect1Count)).run volume =
                .ok (entry (volume.disk (entry (volume.disk inode.indirect2)
                  ((innerId - indirect1Bound) / inodeIndirect1Count)))
                    ((innerId - indirect1Bound) % inodeIndirect1Count)) volume := by
            rw [run_bind_ok (run_readBlock isLocked), run_bind_ok (run_check inBlock _),
              run_bind_ok (run_readBlock lowLocked), run_pure]
          rw [run_bind_ok found, run_emptyWrite]
          simp [isLocked, lowLocked]

/-- Behind the last level nothing is looked up. -/
theorem run_getBlockId_panic (inode : DiskInode) (volume : Volume) {innerId : Nat}
    (behind : 16540 ≤ innerId) : (inode.getBlockId innerId).run volume = .panic := by
  have direct : inodeDirectCount = 28 := rfl
  have first : indirect1Bound = 156 := rfl
  have outside : ¬ (innerId - indirect1Bound) / inodeIndirect1Count < inodeIndirect1Count := by
    change ¬ (innerId - 156) / 128 < 128
    omega
  rw [getBlockId, if_neg (by omega), if_neg (by omega)]
  by_cases isLocked : inode.indirect2 ∈ volume.locked
  · exact run_bind_panic (run_readBlock_panic isLocked)
  · rw [run_bind_ok (run_readBlock isLocked)]
    exact run_bind_panic (run_check_panic outside _)

/-- The lookup of an empty write inside the file or at its end. -/
def LooksUp (inode : DiskInode) (volume : Volume) (offset : Nat) : Prop :=
  offset / blockSz < 16540 ∧
    ∀ blockId ∈ inode.pathTo volume.disk (offset / blockSz), blockId ∉ volume.locked

/-- An empty write returns exactly if its lookup does. -/
theorem run_writeAt_nil_iff (inode : DiskInode) (build : Build) (volume : Volume) {offset : Nat}
    (inside : offset ≤ inode.size) (bounded : offset ≤ sizeBound) :
    (inode.writeAt build offset []).run volume = .ok 0 volume ↔ inode.LooksUp volume offset := by
  have inBytes : offset ≤ 8468480 := bounded
  have sum : (build.add64 offset ([] : List UInt8).length).run volume = .ok offset volume := by
    rw [Build.add64, List.length_nil, Nat.add_zero, run_bind_ok (run_check (by omega) _), run_pure,
      Nat.mod_eq_of_lt (by omega)]
  have inBlock : min ((offset / blockSz + 1) * blockSz) offset = offset :=
    Nat.min_eq_right (by change offset ≤ (offset / 512 + 1) * 512; omega)
  have inWord : offset / blockSz < 2 ^ 32 := lt_of_le_of_lt (Nat.div_le_self _ _) (by omega)
  have reduced : (inode.writeAt build offset []).run volume =
      ((inode.getBlockId (offset / blockSz) >>= fun blockId =>
        modifyBlock blockId fun block => block.write (offset % blockSz) []) >>= fun _ =>
          (return 0 : Call Nat)).run volume := by
    rw [writeAt, run_bind_ok sum]
    simp only [Nat.min_eq_left inside]
    rw [run_bind_ok (run_check (le_refl offset) _), Nat.sub_self, Nat.zero_add, writeLoop]
    simp only [inBlock, Nat.sub_self, List.drop_nil, List.take_nil, if_true, Nat.zero_add,
      Nat.mod_eq_of_lt inWord]
    exact (run_bind_assoc _ _ _ _).symm
  rw [reduced, LooksUp]
  by_cases inLevels : offset / blockSz < 16540
  · have looked := inode.run_lookupEmpty volume inLevels (offset % blockSz)
    split_ifs at looked with isLocked
    · rw [run_bind_panic looked]
      obtain ⟨blockId, inPath, isLocked⟩ := isLocked
      exact iff_of_false (by simp) fun looksUp => looksUp.2 blockId inPath isLocked
    · rw [run_bind_ok looked, run_pure]
      exact iff_of_true rfl ⟨inLevels, fun blockId inPath locked =>
        isLocked ⟨blockId, inPath, locked⟩⟩
  · rw [run_bind_panic (run_bind_panic
      (inode.run_getBlockId_panic volume (Nat.not_lt.mp inLevels)))]
    exact iff_of_false (by simp) fun looksUp => inLevels looksUp.1

/-- Growing to the same size changes nothing. -/
theorem run_increaseSize_same (inode : DiskInode) (build : Build) (volume : Volume)
    (bounded : inode.size ≤ sizeBound)
    (first : 28 < sizeBlocks inode.size → inode.indirect1 ∉ volume.locked)
    (second : 156 < sizeBlocks inode.size → inode.indirect2 ∉ volume.locked) :
    (increaseSize build inode inode.size []).run volume = .ok (inode, []) volume := by
  have same : inode.setSize inode.size = inode := Bytes.putUint_uint inode 0 4
  obtain ⟨total, isTotal⟩ : ∃ total, sizeBlocks inode.size = total := ⟨_, rfl⟩
  have blocks := inode.run_dataBlocks build bounded volume
  rw [isTotal] at blocks first second
  have direct : inodeDirectCount = 28 := rfl
  have inBlock : inodeIndirect1Count = 128 := rfl
  have noDirect : min total inodeDirectCount - total = 0 := by omega
  have unchanged {blockId : Nat} (unlocked : blockId ∉ volume.locked) :
      (withLocked blockId (return ([] : List Nat) : Call (List Nat))).run volume =
        .ok [] volume := BlockMap.run_withLocked unlocked (run_pure _ _)
  rw [increaseSize, run_bind_ok blocks]
  simp only [same]
  rw [run_bind_ok blocks, noDirect, fillDirect, run_bind_ok (run_pure _ _)]
  simp only
  by_cases more : total > inodeDirectCount
  · have noFirst : min (total - inodeDirectCount) inodeIndirect1Count -
        (total - inodeDirectCount) = 0 := by omega
    have current : max total inodeDirectCount - inodeDirectCount = total - inodeDirectCount := by
      omega
    rw [if_pos more, current, growIndirect1, allocIndirect1, if_neg (by omega),
      run_bind_ok (run_pure _ _)]
    simp only
    rw [noFirst, fillIndirect1, run_bind_ok (unchanged (first (by omega)))]
    by_cases evenMore : total - inodeDirectCount > inodeIndirect1Count
    · have currentSecond : max (total - inodeDirectCount) inodeIndirect1Count -
          inodeIndirect1Count = total - inodeDirectCount - inodeIndirect1Count := by omega
      rw [if_pos evenMore, currentSecond, growIndirect2, allocIndirect2, if_neg (by omega),
        run_bind_ok (run_pure _ _)]
      simp only
      rw [Nat.sub_self, fillIndirect2, run_bind_ok (unchanged (second (by omega))), run_pure]
    · rw [if_neg evenMore, run_pure]
  · rw [if_neg more, run_pure]

section Paths

variable {inode : DiskInode} {disk : Nat → Block} {given : List Nat} {bytes : List UInt8}

/-- Inside the file a path consists of blocks of the file. -/
theorem Stores.mem_given_of_mem_pathTo (stores : inode.Stores disk given bytes) {position : Nat}
    (inside : position < sizeBlocks bytes.length) :
    ∀ blockId ∈ inode.pathTo disk position, blockId ∈ given := by
  have isBlock := stores.block_mem inside
  have few : BlockMap.indexCount (position + 1) ≤ BlockMap.indexCount (sizeBlocks inode.size) :=
    BlockMap.indexCount_mono (stores.size ▸ inside)
  have direct : inodeDirectCount = 28 := rfl
  have first : indirect1Bound = 156 := rfl
  have inBlock : inodeIndirect1Count = 128 := rfl
  intro blockId inPath
  rw [BlockMap.blockAt] at isBlock
  rw [pathTo] at inPath
  split_ifs at inPath isBlock with isDirect isFirst
  · rw [List.mem_singleton.mp inPath]
    exact isBlock
  · have levels : 0 < BlockMap.indexCount (position + 1) := by
      rw [BlockMap.indexCount]
      split_ifs <;> omega
    have isIndex := stores.index_mem (lt_of_lt_of_le levels few)
    simp only [List.mem_cons, List.not_mem_nil, or_false] at inPath
    rcases inPath with rfl | rfl
    · exact isIndex
    · exact isBlock
  · have levels : (position - 156) / 128 + 2 < BlockMap.indexCount (position + 1) := by
      rw [BlockMap.indexCount]
      split_ifs <;> omega
    have isSecond := @Stores.index_mem _ _ _ _ stores 1 (by omega)
    have isLow := stores.index_mem (lt_of_lt_of_le levels few)
    simp only [List.mem_cons, List.not_mem_nil, or_false] at inPath
    rcases inPath with isId | isId | isId
    · rw [isId]
      exact isSecond
    · rw [isId]
      exact isLow
    · rw [isId]
      exact isBlock

end Paths

/-- The blocks that a lookup at the end of the file finds in place of an indirect
block, where the id of one is still zero. -/
def strayBlocks (disk : Nat → Block) (blocks : Nat) : List Nat :=
  if blocks < 28 then []
  else if blocks = 28 then [efsMagic.toNat]
  else if blocks < 156 then []
  else if blocks = 156 then [efsMagic.toNat, entry (disk efsMagic.toNat) 0]
  else if (blocks - 156) % 128 = 0 then [efsMagic.toNat]
  else []

section Ends

variable {inode : DiskInode} {disk : Nat → Block} {given : List Nat} {bytes : List UInt8}

/-- At the end of the file, a path consists of blocks of the file, of the
superblock, which stands for the id of zero, and of the stray blocks. -/
theorem Stores.pathTo_end (stores : inode.Stores disk given bytes)
    (superBlock : entry (disk 0) 0 = efsMagic.toNat)
    (inLevels : sizeBlocks bytes.length < 16540) :
    ∃ front, (∀ blockId ∈ front, blockId ∈ given) ∧
      inode.pathTo disk (sizeBlocks bytes.length) =
        front ++ 0 :: strayBlocks disk (sizeBlocks bytes.length) := by
  obtain ⟨blocks, isBlocks⟩ : ∃ blocks, sizeBlocks bytes.length = blocks := ⟨_, rfl⟩
  have mapBlocks : (inode.map disk).blocks = blocks := stores.blocks_eq.trans isBlocks
  have mapIndexes : (inode.map disk).indexes = BlockMap.indexCount blocks :=
    congrArg BlockMap.indexCount mapBlocks
  have blank := stores.blank
  have isIndex (level : Nat) (levelLt : level < (inode.map disk).indexes) :
      (inode.map disk).indexAt level ∈ given := stores.index_mem levelLt
  have direct : inodeDirectCount = 28 := rfl
  have first : indirect1Bound = 156 := rfl
  have inBlock : inodeIndirect1Count = 128 := rfl
  rw [isBlocks] at inLevels ⊢
  rw [pathTo, direct, first, inBlock, strayBlocks]
  simp only
  by_cases isDirect : blocks < 28
  · have isZero : inode.direct blocks = 0 := blank.direct blocks isDirect mapBlocks.le
    exact ⟨[], by simp, by rw [if_pos isDirect, if_pos isDirect, isZero, List.nil_append]⟩
  rw [if_neg isDirect, if_neg isDirect]
  by_cases isStart : blocks = 28
  · subst isStart
    have isZero : inode.indirect1 = 0 := blank.indirect1 mapIndexes
    refine ⟨[], by simp, ?_⟩
    rw [if_pos (by decide), if_pos rfl, isZero, Nat.sub_self, superBlock, List.nil_append]
  rw [if_neg isStart]
  by_cases isFirst : blocks < 156
  · have levels : BlockMap.indexCount blocks = 1 := by
      rw [BlockMap.indexCount, if_neg (by omega), if_pos (by omega)]
    have isZero : entry (disk inode.indirect1) (blocks - 28) = 0 :=
      blank.first (by omega) (blocks - 28) (by omega) (by omega)
    refine ⟨[inode.indirect1], ?_, by rw [if_pos isFirst, if_pos isFirst, isZero]; rfl⟩
    intro blockId isId
    rw [List.mem_singleton.mp isId]
    exact isIndex 0 (by omega)
  rw [if_neg isFirst, if_neg isFirst]
  by_cases isSecond : blocks = 156
  · subst isSecond
    have isZero : inode.indirect2 = 0 := blank.indirect2 mapIndexes.le
    refine ⟨[], by simp, ?_⟩
    rw [if_pos rfl, isZero, Nat.sub_self, Nat.zero_div, Nat.zero_mod, superBlock, List.nil_append]
  have levels : BlockMap.indexCount blocks = 2 + (blocks - 156 + 127) / 128 := by
    rw [BlockMap.indexCount, if_neg (by omega), if_neg (by omega)]
  have second : inode.indirect2 ∈ given := isIndex 1 (by omega)
  rw [if_neg isSecond]
  by_cases isLow : (blocks - 156) % 128 = 0
  · have isZero : entry (disk inode.indirect2) ((blocks - 156) / 128) = 0 :=
      blank.second (by omega) _ (by omega) (by omega)
    refine ⟨[inode.indirect2], ?_, by rw [if_pos isLow, isZero, isLow, superBlock]; rfl⟩
    intro blockId isId
    rw [List.mem_singleton.mp isId]
    exact second
  · have isZero : entry (disk (entry (disk inode.indirect2) ((blocks - 156) / 128)))
        ((blocks - 156) % 128) = 0 :=
      blank.behind ((blocks - 156) / 128) (by omega) _ (by omega) (by omega)
    have isLower : entry (disk inode.indirect2) ((blocks - 156) / 128) ∈ given :=
      isIndex ((blocks - 156) / 128 + 2) (by omega)
    refine ⟨[inode.indirect2, entry (disk inode.indirect2) ((blocks - 156) / 128)], ?_,
      by rw [if_neg isLow, isZero]; rfl⟩
    intro blockId isId
    simp only [List.mem_cons, List.not_mem_nil, or_false] at isId
    rcases isId with isId | isId
    · rwa [isId]
    · rwa [isId]

end Ends

end DiskInode

namespace Layout

theorem entry_of_superBlock {layout : Layout} {block : Block}
    (superBlock : block.load SuperBlock.record 0 = layout.superBlock) :
    entry block 0 = efsMagic.toNat := by
  have isEntry : (block.load SuperBlock.record 0).magic = UInt32.ofNat (entry block 0) := rfl
  have inWord : entry block 0 < 2 ^ 32 := Bytes.uint_lt _ _ 4
  have isMagic : UInt32.ofNat (entry block 0) = efsMagic := by rw [← isEntry, superBlock]; rfl
  rw [← isMagic, UInt32.toNat_ofNat', Nat.mod_eq_of_lt inWord]

section Writing

variable {layout : Layout} {disk : Nat → Block} {count inodeId : Nat}
  {contents : Nat → List UInt8} {owned : Nat → List Nat} {locked : List Nat} {offset : Nat}

theorem Holds.run_writeAt_nil_iff (holds : layout.Holds disk count contents owned)
    (isInode : inodeId < count) (isOpen : layout.Open locked) (build : Build)
    (inside : offset ≤ (contents inodeId).length) :
    ((layout.handle inodeId).writeAt layout.toEasyFileSystem build offset []).run
        ⟨disk, locked⟩ = .ok 0 ⟨disk, locked⟩ ↔
      (layout.inodeAt disk inodeId).LooksUp ⟨disk, layout.slotBlock inodeId :: locked⟩ offset := by
  have stores := holds.stores inodeId isInode
  have bounded : (contents inodeId).length ≤ 8468480 := stores.bounded
  have unlocked := (holds.ready isInode isOpen).unlocked_given
  have slotFree := holds.slot_unlocked isInode isOpen
  have sum : (build.add64 offset ([] : List UInt8).length).run
      ⟨disk, layout.slotBlock inodeId :: locked⟩ =
        .ok offset ⟨disk, layout.slotBlock inodeId :: locked⟩ := by
    rw [Build.add64, List.length_nil, Nat.add_zero, run_bind_ok (run_check (by omega) _), run_pure,
      Nat.mod_eq_of_lt (by omega)]
  have ranGrow : (Inode.increaseSize layout.toEasyFileSystem build offset
      (layout.inodeAt disk inodeId)).run ⟨disk, layout.slotBlock inodeId :: locked⟩ =
        .ok (layout.inodeAt disk inodeId) ⟨disk, layout.slotBlock inodeId :: locked⟩ := by
    rw [Inode.increaseSize]
    by_cases smaller : offset < (layout.inodeAt disk inodeId).size
    · rw [if_pos smaller, run_pure]
    · have isEnd : offset = (layout.inodeAt disk inodeId).size :=
        le_antisymm (stores.size ▸ inside) (Nat.not_lt.mp smaller)
      have inBound : (layout.inodeAt disk inodeId).size ≤ sizeBound := stores.size.trans_le bounded
      rw [if_neg smaller, isEnd,
        run_bind_ok (DiskInode.run_blocksNumNeeded build (le_refl _) inBound _), Nat.sub_self]
      have isIndex (level : Nat)
          (levelLt : level < BlockMap.indexCount (sizeBlocks (layout.inodeAt disk inodeId).size)) :
          ((layout.inodeAt disk inodeId).map disk).indexAt level ∉
            layout.slotBlock inodeId :: locked := unlocked _ (stores.index_mem levelLt)
      have same := (layout.inodeAt disk inodeId).run_increaseSize_same build
        ⟨disk, layout.slotBlock inodeId :: locked⟩ inBound
        (fun more => isIndex 0 (by rw [BlockMap.indexCount]; split_ifs <;> omega))
        fun more => isIndex 1 (by rw [BlockMap.indexCount]; split_ifs <;> omega)
      refine (run_bind_ok (run_pure _ _)).trans ?_
      rw [run_bind_ok same, run_pure]
  have inWord : offset % 2 ^ 32 = offset := Nat.mod_eq_of_lt (by omega)
  have looked := (layout.inodeAt disk inodeId).run_writeAt_nil_iff build
    ⟨disk, layout.slotBlock inodeId :: locked⟩ (stores.size ▸ inside) (le_trans inside bounded)
  rw [← looked]
  constructor
  · intro ran
    cases isWrite : ((layout.inodeAt disk inodeId).writeAt build offset []).run
        ⟨disk, layout.slotBlock inodeId :: locked⟩ with
    | ok written behind =>
        obtain ⟨rfl, rfl⟩ := DiskInode.of_run_writeAt_nil isWrite
        rfl
    | err error => cases error
    | panic =>
        have panics : ((layout.handle inodeId).writeAt layout.toEasyFileSystem build offset
            []).run ⟨disk, locked⟩ = .panic := by
          refine run_modifyDiskInode_panic slotFree ?_
          rw [run_bind_ok sum, inWord, run_bind_ok ranGrow, run_bind_panic isWrite]
        rw [panics] at ran
        cases ran
  · intro isWrite
    have same : layout.putInode disk inodeId (layout.inodeAt disk inodeId) = disk := by
      rw [putInode, inodeAt, Bytes.paste_extract, Function.update_eq_self]
    have ran := @run_modifyDiskInode layout disk disk locked inodeId Nat 0
      (fun diskInode => do
        let newSize ← build.add64 offset ([] : List UInt8).length
        let grown ← Inode.increaseSize layout.toEasyFileSystem build (newSize % 2 ^ 32) diskInode
        let size ← grown.writeAt build offset []
        return (size, grown)) (layout.inodeAt disk inodeId) slotFree (by
          rw [run_bind_ok sum, inWord, run_bind_ok ranGrow, run_bind_ok isWrite, run_pure])
    rw [same] at ran
    exact ran

end Writing

end Layout

/-- An empty write at an offset returns 0 and leaves the device, and it does so
without the blocks outside the device, which may all be locked. -/
def Harmless (fs : EasyFileSystem) (build : Build) (totalBlocks : Nat) (disk : Nat → Block)
    (inode : Inode) (offset : Nat) : Prop :=
  ∀ outside : List Nat, (∀ blockId ∈ outside, totalBlocks ≤ blockId) →
    (inode.writeAt fs build offset []).run ⟨disk, outside⟩ = .ok 0 ⟨disk, outside⟩

/-- An offset inside the file, or at its end where the lookup finds blocks of the
device other than the one that is locked for the inode. -/
def LooksInside (totalBlocks : Nat) (disk : Nat → Block) (inode : Inode) (size offset : Nat) :
    Prop :=
  offset < size ∨ offset = size ∧ (size % blockSz ≠ 0 ∨ size < sizeBound ∧
    ∀ blockId ∈ DiskInode.strayBlocks disk (size / blockSz),
      blockId < totalBlocks ∧ blockId ≠ inode.blockId)

namespace Layout

section Harm

variable {layout : Layout} {disk : Nat → Block} {count inodeId : Nat}
  {contents : Nat → List UInt8} {owned : Nat → List Nat} {offset : Nat}

theorem looksUp_forall_iff (inode : DiskInode) (disk : Nat → Block) (totalBlocks slot : Nat) :
    (∀ outside : List Nat, (∀ blockId ∈ outside, totalBlocks ≤ blockId) →
        inode.LooksUp ⟨disk, slot :: outside⟩ offset) ↔
      offset / blockSz < 16540 ∧ ∀ blockId ∈ inode.pathTo disk (offset / blockSz),
        blockId < totalBlocks ∧ blockId ≠ slot := by
  constructor
  · intro looks
    obtain ⟨inLevels, free⟩ := looks [] (by simp)
    refine ⟨inLevels, fun blockId inPath => ⟨?_, ?_⟩⟩
    · by_contra outside
      have notLocked := (looks [blockId] (by simpa using outside)).2 blockId inPath
      simp at notLocked
    · have notLocked := free blockId inPath
      simpa using notLocked
  · rintro ⟨inLevels, inside⟩ outside isOutside
    refine ⟨inLevels, fun blockId inPath isLocked => ?_⟩
    obtain ⟨inDevice, notSlot⟩ := inside blockId inPath
    rcases List.mem_cons.mp isLocked with isSlot | isLocked
    · exact notSlot isSlot
    · exact absurd (isOutside blockId isLocked) (Nat.not_le.mpr inDevice)

theorem Holds.path_iff (holds : layout.Holds disk count contents owned) (isInode : inodeId < count)
    (inside : offset ≤ (contents inodeId).length) :
    (offset / blockSz < 16540 ∧
      ∀ blockId ∈ (layout.inodeAt disk inodeId).pathTo disk (offset / blockSz),
        blockId < layout.totalBlocks ∧ blockId ≠ layout.slotBlock inodeId) ↔
      LooksInside layout.totalBlocks disk (layout.handle inodeId) (contents inodeId).length
        offset := by
  have stores := holds.stores inodeId isInode
  have bounded : (contents inodeId).length ≤ 8468480 := stores.bounded
  have few := stores.sizeBlocks_le
  have slotBefore := slotBlock_lt (holds.inSlots isInode)
  have isOwned (blockId : Nat) (isGiven : blockId ∈ owned inodeId) :
      blockId < layout.totalBlocks ∧ blockId ≠ layout.slotBlock inodeId := by
    have bitmapEnd := layout.dataBitmapEnd
    have isData := mem_dataBlocks.mp (holds.data inodeId isInode blockId isGiven)
    omega
  obtain ⟨size, isSize⟩ : ∃ size, (contents inodeId).length = size := ⟨_, rfl⟩
  rw [isSize] at few
  by_cases inFile : offset / blockSz < sizeBlocks size
  · have path := stores.mem_given_of_mem_pathTo (isSize.symm ▸ inFile)
    refine iff_of_true ⟨by omega, fun blockId inPath => isOwned blockId (path blockId inPath)⟩ ?_
    rw [isSize, LooksInside]
    change offset / 512 < (size + 511) / 512 at inFile
    change offset < size ∨ offset = size ∧ (size % 512 ≠ 0 ∨ _)
    by_cases before : offset < size
    · exact Or.inl before
    · exact Or.inr ⟨by omega, Or.inl (by omega)⟩
  · have atEnd : offset = size ∧ size % 512 = 0 ∧ offset / 512 = sizeBlocks size := by
      change ¬ offset / 512 < (size + 511) / 512 at inFile
      change offset = size ∧ size % 512 = 0 ∧ offset / 512 = (size + 511) / 512
      omega
    obtain ⟨isEnd, whole, isBlocks⟩ := atEnd
    have inLevels : offset / blockSz < 16540 ↔ size < sizeBound := by
      change offset / 512 < 16540 ↔ size < 8468480
      omega
    have sameBlocks : size / blockSz = sizeBlocks size := isEnd ▸ isBlocks
    have samePosition : offset / blockSz = sizeBlocks size := isBlocks
    rw [isSize, LooksInside, inLevels, samePosition, sameBlocks]
    have notBefore : ¬ offset < size := by omega
    have notWhole : ¬ size % blockSz ≠ 0 := not_not_intro whole
    rw [or_iff_right notBefore, and_iff_right isEnd, or_iff_right notWhole]
    refine and_congr_right fun small => ?_
    obtain ⟨front, isFront, isPath⟩ := stores.pathTo_end (entry_of_superBlock holds.superBlock)
      (by rw [isSize, ← samePosition]; exact inLevels.mpr small)
    have first : 0 < layout.totalBlocks ∧ 0 ≠ layout.slotBlock inodeId := by
      have positive := slotBlock_pos layout inodeId
      have inDevice := lt_totalBlocks slotBefore
      omega
    rw [isSize] at isPath
    rw [isPath]
    constructor
    · intro allInside blockId isStray
      exact allInside blockId (List.mem_append_right _ (List.mem_cons_of_mem _ isStray))
    · intro strayInside blockId inPath
      rcases List.mem_append.mp inPath with inFront | inPath
      · exact isOwned blockId (isFront blockId inFront)
      · rcases List.mem_cons.mp inPath with rfl | isStray
        · exact first
        · exact strayInside blockId isStray

/-- When an empty write is harmless. -/
theorem Holds.harmless_offset_iff (holds : layout.Holds disk count contents owned)
    (isInode : inodeId < count) (build : Build) (bounded : offset ≤ sizeBound)
    (enough : blocksOf offset ≤
      blocksOf (contents inodeId).length + (layout.freeBlocks disk).card) :
    Harmless layout.toEasyFileSystem build layout.totalBlocks disk (layout.handle inodeId) offset ↔
      LooksInside layout.totalBlocks disk (layout.handle inodeId) (contents inodeId).length
        offset := by
  by_cases inside : offset ≤ (contents inodeId).length
  · rw [← holds.path_iff isInode inside, ← looksUp_forall_iff]
    refine forall_congr' fun outside => forall_congr' fun isOutside => ?_
    refine holds.run_writeAt_nil_iff isInode (fun blockId inDevice isLocked => ?_) build inside
    exact absurd (isOutside blockId isLocked) (Nat.not_le.mpr inDevice)
  · refine iff_of_false (fun harmless => ?_) fun looks => ?_
    · -- The file has grown, so that the device is not the one before.
      obtain ⟨later, after, same, grown⟩ := holds.of_run_writeAt_nil isInode
        (fun _ _ => List.not_mem_nil) bounded enough (harmless [] (by simp))
      obtain ⟨rfl, -⟩ := Volume.mk.inj same
      have before := (holds.stores inodeId isInode).size
      have behind := (grown.stores inodeId isInode).size
      rw [Function.update_self, length_writtenAt, List.length_nil] at behind
      omega
    · rcases looks with before | ⟨isEnd, _⟩
      · omega
      · omega

end Harm

end Layout

section EmptyWrites

variable {build : Build} {totalBlocks inodeBitmapBlocks : UInt32} {start made rooted : Volume}
  {fs : EasyFileSystem} {root : Inode}

/-- In every run, an empty write to a file is harmless exactly if its lookup stays
inside. -/
theorem harmless_iff (unlocked : start.locked = [])
    (fit : build.overflowChecks = false → InodesFit totalBlocks inodeBitmapBlocks)
    (created : (EasyFileSystem.create build totalBlocks inodeBitmapBlocks).run start = .ok fs made)
    (isRoot : (fs.rootInode build).run made = .ok root rooted) {state : FileState}
    (run : FileRun fs build root (fun before call => HasData fs totalBlocks.toNat before call ∧
      HasInode fs (inodeAreaBlocks inodeBitmapBlocks.toNat) before call) ⟨rooted, []⟩ state)
    {index offset : Nat} {file : File} (isFile : state.files[index]? = some file)
    (enough : fs.Suffices totalBlocks.toNat state.volume.disk file.bytes.length offset) :
    Harmless fs build totalBlocks.toNat state.volume.disk file.inode offset ↔
      LooksInside totalBlocks.toNat state.volume.disk file.inode file.bytes.length offset := by
  obtain ⟨fits, rfl, someBlock, rfl, rfl⟩ := made_of_run_create unlocked fit created isRoot
  by_cases noArea : inodeAreaBlocks inodeBitmapBlocks.toNat = 0
  · obtain rfl := eq_of_noArea rfl (run.mono fun before call condition => noArea ▸ condition.2)
    simp at isFile
  · obtain ⟨_, _, tracks⟩ := Layout.exists_tracks
      (Layout.tracks_madeVolume fits unlocked someBlock (Nat.pos_of_ne_zero noArea)) run
    obtain ⟨bounded, room⟩ := enough
    rw [← tracks.bytes index file isFile] at room ⊢
    rw [tracks.inodes index file isFile]
    exact tracks.lists.holds.harmless_offset_iff (FileState.isInode isFile) build bounded room

theorem harmless_iff_packed : ∃ (state : FileState) (file : File), state.files = [file] ∧
    (Harmless (madeFileSystem 32768 1) ⟨true⟩ (32768 : UInt32).toNat state.volume.disk file.inode
        0 ↔
      LooksInside (32768 : UInt32).toNat state.volume.disk file.inode file.bytes.length 0) := by
  obtain ⟨state, ⟨file, isFile⟩, run⟩ := exists_file_packed
  have isFirst : state.files[0]? = some file := by rw [isFile, List.getElem?_cons_zero]
  refine ⟨state, file, isFile, harmless_iff rfl (by simp) (create_packed ⟨true⟩ rfl)
    (rootInode_packed ⟨true⟩ _) run isFirst ⟨Nat.zero_le _, ?_⟩⟩
  exact le_trans (blocksOf_mono (Nat.zero_le _)) (Nat.le_add_right _ _)

end EmptyWrites

end EasyFs

end OSWorkspace
