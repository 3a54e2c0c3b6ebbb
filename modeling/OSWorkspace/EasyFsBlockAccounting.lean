import OSWorkspace.EasyFsBlockMaps

/-!
# Growing and clearing easy-fs inodes

The map of an inode follows from its size.  The closed-form count, the growing
loops and the clearing loops agree on it, so that an inode that has grown by
any number of steps owns exactly the ids it was given and returns all of them
when it is cleared.
-/

namespace OSWorkspace

namespace EasyFs

open Exec

/-- The blocks of a size. -/
def sizeBlocks (size : Nat) : Nat := (size + 511) / 512

/-- The largest size of a file. -/
def sizeBound : Nat := indirect2Bound * blockSz

/-- The blocks in use by an inode. -/
def DiskInode.map (inode : DiskInode) (disk : Nat → Block) : BlockMap where
  inode := inode
  disk := disk
  blocks := sizeBlocks inode.size
  indexes := BlockMap.indexCount (sizeBlocks inode.size)

namespace DiskInode

open BlockMap

theorem sizeBlocks_le {size : Nat} (bounded : size ≤ sizeBound) : sizeBlocks size ≤ 16540 := by
  have inBytes : size ≤ 8468480 := bounded
  rw [sizeBlocks]
  omega

theorem run_dataBlocksOf (build : Build) {size : Nat} (bounded : size ≤ sizeBound)
    (volume : Volume) :
    (dataBlocksOf build size).run volume = .ok (sizeBlocks size) volume := by
  have inBytes : size ≤ 8468480 := bounded
  have padded : size + blockSz < 2 ^ 32 := by
    rw [blockSz]
    omega
  rw [dataBlocksOf, run_bind_ok (build.run_add32 volume padded),
    run_bind_ok (build.run_sub32 volume (by simp only [blockSz]; omega) padded), run_pure]
  rfl

/-- The closed-form count. -/
theorem run_totalBlocks (build : Build) {size : Nat} (bounded : size ≤ sizeBound)
    (volume : Volume) :
    (totalBlocks build size).run volume =
      .ok (sizeBlocks size + indexCount (sizeBlocks size)) volume := by
  have few := sizeBlocks_le bounded
  have direct : inodeDirectCount = 28 := rfl
  have first : indirect1Bound = 156 := rfl
  have inBlock : inodeIndirect1Count = 128 := rfl
  rw [totalBlocks, run_bind_ok (run_dataBlocksOf build bounded volume), run_pure]
  congr 1
  rw [indexCount, direct, first, inBlock]
  split_ifs <;> omega

theorem run_blocksNumNeeded (build : Build) {inode : DiskInode} {newSize : Nat}
    (larger : inode.size ≤ newSize) (bounded : newSize ≤ sizeBound) (volume : Volume) :
    (blocksNumNeeded build inode newSize).run volume =
      .ok (sizeBlocks newSize + indexCount (sizeBlocks newSize) -
        (sizeBlocks inode.size + indexCount (sizeBlocks inode.size))) volume := by
  have more : sizeBlocks inode.size ≤ sizeBlocks newSize := by
    rw [sizeBlocks, sizeBlocks]
    omega
  have moreIndexes := indexCount_mono more
  have few := sizeBlocks_le bounded
  have fewIndexes : indexCount (sizeBlocks newSize) ≤ 130 := indexCount_mono few
  rw [blocksNumNeeded, run_bind_ok (run_check larger volume),
    run_bind_ok (run_totalBlocks build bounded volume),
    run_bind_ok (run_totalBlocks build (larger.trans bounded) volume)]
  exact build.run_sub32 volume (by omega) (by omega)

theorem map_setSize (inode : DiskInode) (disk : Nat → Block) (newSize position : Nat) :
    (⟨inode.setSize newSize, disk, sizeBlocks inode.size, indexCount (sizeBlocks inode.size)⟩ :
      BlockMap).blockAt position = (inode.map disk).blockAt position := by
  have direct (index : Nat) : (inode.setSize newSize).direct index = inode.direct index :=
    Bytes.uint_putUint_outside _ _ (by omega)
  have indirect1 : (inode.setSize newSize).indirect1 = inode.indirect1 :=
    Bytes.uint_putUint_outside _ _ (by omega)
  have indirect2 : (inode.setSize newSize).indirect2 = inode.indirect2 :=
    Bytes.uint_putUint_outside _ _ (by omega)
  simp only [blockAt, DiskInode.map, direct, indirect1, indirect2]

theorem map_setSize_index (inode : DiskInode) (disk : Nat → Block) (newSize level : Nat) :
    (⟨inode.setSize newSize, disk, sizeBlocks inode.size, indexCount (sizeBlocks inode.size)⟩ :
      BlockMap).indexAt level = (inode.map disk).indexAt level := by
  have indirect1 : (inode.setSize newSize).indirect1 = inode.indirect1 :=
    Bytes.uint_putUint_outside _ _ (by omega)
  have indirect2 : (inode.setSize newSize).indirect2 = inode.indirect2 :=
    Bytes.uint_putUint_outside _ _ (by omega)
  rcases level with _ | _ | low
  · exact indirect1
  · exact indirect2
  · simp only [indexAt, DiskInode.map, indirect2]

theorem isDir_setSize (inode : DiskInode) (newSize : Nat) :
    (inode.setSize newSize).isDir = inode.isDir := by
  rw [isDir, setSize, Bytes.putUint, Bytes.get_overlay_outside _ _ (by omega), isDir]

theorem run_dataBlocks (build : Build) {inode : DiskInode} (bounded : inode.size ≤ sizeBound)
    (volume : Volume) :
    (dataBlocks build inode).run volume = .ok (sizeBlocks inode.size) volume :=
  run_dataBlocksOf build bounded volume

/-- A map with as many blocks as its inode says is the one of the inode. -/
theorem eq_map {map : BlockMap} (blocks : map.blocks = sizeBlocks map.inode.size)
    (indexes : map.indexes = indexCount map.blocks) :
    map = DiskInode.map map.inode map.disk := by
  rw [blocks] at indexes
  rw [DiskInode.map, ← indexes, ← blocks]

/-- The map of an inode whose size was raised before it grows. -/
theorem exists_setSize {inode : DiskInode} {disk : Nat → Block} {given : List Nat}
    (owns : (inode.map disk).Owns given) (newSize : Nat) :
    ∃ start : BlockMap, start.inode = inode.setSize newSize ∧ start.disk = disk ∧
      start.blocks = sizeBlocks inode.size ∧ start.indexes = indexCount (sizeBlocks inode.size) ∧
      start.Owns given ∧ (inode.map disk).Grows start ∧
      ((inode.map disk).Blank → start.Blank) := by
  have blank (old : (inode.map disk).Blank) :
      (⟨inode.setSize newSize, disk, sizeBlocks inode.size, indexCount (sizeBlocks inode.size)⟩ :
        BlockMap).Blank := by
    have indirect1 : (inode.setSize newSize).indirect1 = inode.indirect1 :=
      Bytes.uint_putUint_outside _ _ (by omega)
    have indirect2 : (inode.setSize newSize).indirect2 = inode.indirect2 :=
      Bytes.uint_putUint_outside _ _ (by omega)
    refine ⟨fun position inside unused => ?_, ?_, ?_, ?_, ?_, fun low used => ?_⟩
    · exact (Bytes.uint_putUint_outside _ _ (by omega)).trans (old.direct _ inside unused)
    · rw [indirect1]
      exact old.indirect1
    · rw [indirect2]
      exact old.indirect2
    · rw [indirect1]
      exact old.first
    · rw [indirect2]
      exact old.second
    · rw [map_setSize_index]
      exact old.behind low used
  refine ⟨⟨inode.setSize newSize, disk, sizeBlocks inode.size, indexCount (sizeBlocks inode.size)⟩,
    rfl, rfl, rfl, rfl, ⟨?_, owns.nodup⟩, ⟨le_refl _, le_refl _, ?_, ?_, fun _ _ => rfl⟩, blank⟩
  · simp only [BlockMap.ids, funext (map_setSize inode disk newSize),
      funext (map_setSize_index inode disk newSize)]
    exact owns.ids
  · exact fun position _ => map_setSize _ _ _ position
  · exact fun level _ => map_setSize_index _ _ _ level

/-- Growing takes the ids that the count says. -/
theorem run_increaseSize (build : Build) {inode : DiskInode} {disk : Nat → Block}
    {locked given newBlocks : List Nat} {newSize : Nat} (owns : (inode.map disk).Owns given)
    (fresh : Fresh given newBlocks) (larger : inode.size ≤ newSize)
    (bounded : newSize ≤ sizeBound)
    (enough : sizeBlocks newSize + indexCount (sizeBlocks newSize) ≤
      sizeBlocks inode.size + indexCount (sizeBlocks inode.size) + newBlocks.length)
    (unlocked : ∀ blockId ∈ given ++ newBlocks, blockId ∉ locked) :
    ∃ taken rest grown later, newBlocks = taken ++ rest ∧
      (increaseSize build inode newSize newBlocks).run ⟨disk, locked⟩ =
        .ok (grown, rest) ⟨later, locked⟩ ∧
      (DiskInode.map grown later).Owns (given ++ taken) ∧
      (inode.map disk).Grows (DiskInode.map grown later) ∧
      grown.size = newSize ∧ grown.isDir = inode.isDir ∧
      ((∀ blockId ∈ taken, disk blockId = .zeroed) → (inode.map disk).Blank →
        (DiskInode.map grown later).Blank) := by
  obtain ⟨start, startInode, rfl, startBlocks, startIndexes, startOwns, startGrows, startBlank⟩ :=
    exists_setSize owns newSize
  have startSize : (inode.setSize newSize).size = newSize :=
    size_setSize _ (lt_of_le_of_lt bounded (by decide))
  have ranCurrent := run_dataBlocks build (larger.trans bounded) ⟨start.disk, locked⟩
  have ranTotal := run_dataBlocks build (startSize.trans_le bounded) ⟨start.disk, locked⟩
  have more : sizeBlocks inode.size ≤ sizeBlocks newSize := by
    rw [sizeBlocks, sizeBlocks]
    omega
  have few := sizeBlocks_le bounded
  rw [startSize] at ranTotal
  generalize totalEq : sizeBlocks newSize = total at *
  rw [← startBlocks] at ranCurrent startIndexes more enough
  have level : 0 < min total 28 - start.blocks →
      start.indexes = 0 ∧ start.blocks + (min total 28 - start.blocks) ≤ 28 := by
    intro someRounds
    refine ⟨?_, by omega⟩
    rw [startIndexes, indexCount, if_pos (by omega)]
  have moreIndexes := indexCount_mono more
  obtain ⟨filled, others, middle, rfl, extendsMiddle, middleBlocks, middleIndexes, middleDisk,
    ranFill⟩ := run_fillDirect startOwns fresh level (by omega) ⟨start.disk, locked⟩
  have count := extendsMiddle.count startOwns
  rw [List.length_append] at enough
  have isMap (later : BlockMap) (sameBut : SameBut later.inode start.inode)
      (blocks : later.blocks = total) (indexes : later.indexes = indexCount later.blocks) :
      later = DiskInode.map later.inode later.disk ∧ later.inode.size = newSize ∧
        later.inode.isDir = inode.isDir := by
    have sizeEq : later.inode.size = newSize := by rw [sameBut.size, startInode, startSize]
    refine ⟨eq_map ?_ indexes, sizeEq, ?_⟩
    · rw [blocks, sizeEq, totalEq]
    · rw [sameBut.isDir, startInode, isDir_setSize]
  have ranStart : (increaseSize build inode newSize (filled ++ others)).run ⟨start.disk, locked⟩ =
      (if total > inodeDirectCount then
        growIndirect1 middle.inode (max start.blocks inodeDirectCount - inodeDirectCount)
          (total - inodeDirectCount) others
      else pure (middle.inode, others) : Call (DiskInode × List Nat)).run
        ⟨middle.disk, locked⟩ := by
    rw [increaseSize, run_bind_ok ranCurrent]
    refine (run_bind_ok ranTotal).trans ?_
    rw [← startInode]
    refine (run_bind_ok ranFill).trans ?_
    rw [middleDisk]
  by_cases indirect : total > inodeDirectCount
  · have isIndirect : 28 < total := indirect
    have sameTotal : 28 + (total - 28) = total := by omega
    have nextIndexes : middle.indexes = indexCount middle.blocks := by
      rw [middleIndexes, startIndexes]
      by_cases within : start.blocks ≤ 28
      · rw [indexCount, if_pos within, indexCount, if_pos (by omega)]
      · have sameBlocks : start.blocks = middle.blocks := by omega
        rw [sameBlocks]
    obtain ⟨taken, rest, later, rfl, extendsLater, laterBlocks, laterIndexes, ran⟩ :=
      run_growIndirect1 locked extendsMiddle.owns fresh.behind
        (by omega : middle.blocks = 28 + (max start.blocks 28 - 28)) nextIndexes
        (by omega : 0 < total - 28) (by omega) (by omega) (by rw [sameTotal]; omega)
        (by simpa using unlocked)
    have extendsBoth := extendsMiddle.trans extendsLater
    obtain ⟨mapEq, sizeEq, dirEq⟩ := isMap later extendsBoth.inode (by omega) laterIndexes
    refine ⟨filled ++ taken, rest, later.inode, later.disk, by simp, ?_, ?_, ?_, sizeEq, dirEq, ?_⟩
    · rw [ranStart, if_pos indirect]
      exact ran
    · rw [← mapEq]
      exact extendsBoth.owns
    · rw [← mapEq]
      exact startGrows.trans extendsBoth.grows
    · rw [← mapEq]
      exact fun zeroed blank => extendsBoth.blank zeroed (startBlank blank)
  · have notIndirect : ¬ 28 < total := indirect
    have nextIndexes : middle.indexes = indexCount middle.blocks := by
      rw [middleIndexes, startIndexes, indexCount, if_pos (by omega), indexCount,
        if_pos (by omega)]
    obtain ⟨mapEq, sizeEq, dirEq⟩ := isMap middle extendsMiddle.inode (by omega) nextIndexes
    refine ⟨filled, others, middle.inode, middle.disk, rfl, ?_, ?_, ?_, sizeEq, dirEq, ?_⟩
    · rw [ranStart, if_neg indirect, run_pure]
    · rw [← mapEq]
      exact extendsMiddle.owns
    · rw [← mapEq]
      exact startGrows.trans extendsMiddle.grows
    · rw [← mapEq]
      exact fun zeroed blank => extendsMiddle.blank zeroed (startBlank blank)

/-- A lookup reads the map. -/
theorem run_getBlockId {inode : DiskInode} {volume : Volume} {innerId : Nat}
    (bounded : innerId < 16540) (unlocked : ∀ level < indexCount (innerId + 1),
      (inode.map volume.disk).indexAt level ∉ volume.locked) :
    (inode.getBlockId innerId).run volume =
      .ok ((inode.map volume.disk).blockAt innerId) volume := by
  rcases position_cases innerId with isDirect | ⟨offset, offsetLt, rfl⟩ |
    ⟨low, offset, offsetLt, rfl⟩
  · have isShort : innerId < inodeDirectCount := isDirect
    rw [blockAt_direct _ isDirect, getBlockId, if_pos isShort, run_pure]
    rfl
  · have oneIndex := indexCount_one (28 + offset + 1) (by omega) (by omega)
    have free : inode.indirect1 ∉ volume.locked := unlocked 0 (by omega)
    have notDirect : ¬ 28 + offset < inodeDirectCount := by
      simp only [inodeDirectCount]
      omega
    have isIndirect1 : 28 + offset < indirect1Bound := by
      change 28 + offset < 156
      omega
    rw [blockAt_indirect1 _ offsetLt, getBlockId, if_neg notDirect, if_pos isIndirect1,
      run_bind_ok (run_readBlock free), run_pure, inodeDirectCount, Nat.add_sub_cancel_left]
    rfl
  · have indexes : indexCount (156 + (128 * low + offset) + 1) = low + 3 := by
      rw [indexCount, if_neg (by omega), if_neg (by omega)]
      omega
    have free : inode.indirect2 ∉ volume.locked := unlocked 1 (by omega)
    have freeLow : entry (volume.disk inode.indirect2) low ∉ volume.locked :=
      unlocked (low + 2) (by omega)
    have notDirect : ¬ 156 + (128 * low + offset) < inodeDirectCount := by
      simp only [inodeDirectCount]
      omega
    have notIndirect1 : ¬ 156 + (128 * low + offset) < indirect1Bound := by
      change ¬ 156 + (128 * low + offset) < 156
      omega
    have behind : 156 + (128 * low + offset) - indirect1Bound = 128 * low + offset :=
      Nat.add_sub_cancel_left 156 _
    have quotient : (128 * low + offset) / inodeIndirect1Count = low := by
      change (128 * low + offset) / 128 = low
      omega
    have remainder : (128 * low + offset) % inodeIndirect1Count = offset := by
      change (128 * low + offset) % 128 = offset
      omega
    have inBlock : low < inodeIndirect1Count := by
      change low < 128
      omega
    rw [blockAt_indirect2 _ _ offsetLt, getBlockId, if_neg notDirect, if_neg notIndirect1, behind]
    simp only [quotient, remainder]
    rw [run_bind_ok (run_readBlock free), run_bind_ok (run_check inBlock _),
      run_bind_ok (run_readBlock freeLow), run_pure]
    rfl

/-- The blocks of a file can be looked up. -/
theorem run_getBlockId_of_owns {inode : DiskInode} {volume : Volume} {given : List Nat}
    {innerId : Nat} (owns : (inode.map volume.disk).Owns given)
    (bounded : inode.size ≤ sizeBound) (inside : innerId < sizeBlocks inode.size)
    (unlocked : ∀ blockId ∈ given, blockId ∉ volume.locked) :
    (inode.getBlockId innerId).run volume =
      .ok ((inode.map volume.disk).blockAt innerId) volume := by
  have few := sizeBlocks_le bounded
  have fewIndexes := indexCount_mono (by omega : innerId + 1 ≤ sizeBlocks inode.size)
  exact run_getBlockId (by omega) fun level levelLt =>
    unlocked _ (owns.index_mem (lt_of_lt_of_le levelLt fewIndexes))

/-- The ids of an indirect block below the second level and of the blocks in it. -/
def lowIds (disk : Nat → Block) (indirect1 : Nat) : List Nat :=
  indirect1 :: (List.range 128).map (entry (disk indirect1))

theorem run_collectFull {volume : Volume} {entries : List Nat}
    (unlocked : ∀ indirect1 ∈ entries, indirect1 ∉ volume.locked) :
    (collectFull entries).run volume = .ok (entries.flatMap (lowIds volume.disk)) volume := by
  induction entries with
  | nil => rfl
  | cons indirect1 entries ih =>
      have others := ih fun other otherMem => unlocked other (List.mem_cons_of_mem _ otherMem)
      rw [collectFull, run_bind_ok (run_readBlock (unlocked indirect1 List.mem_cons_self)),
        run_bind_ok others, run_pure]
      rfl

/-- The blocks behind the first two levels. -/
def behindIds (map : BlockMap) (count : Nat) : List Nat :=
  (List.range count).map fun offset => map.blockAt (156 + offset)

/-- The first indirect blocks below the second level. -/
def lowIndexes (map : BlockMap) (count : Nat) : List Nat :=
  (List.range count).map fun low => map.indexAt (low + 2)

theorem behindIds_add (map : BlockMap) (low count : Nat) (inside : count ≤ 128) :
    behindIds map (128 * low + count) = behindIds map (128 * low) ++
      (List.range count).map (entry (map.disk (map.indexAt (low + 2)))) := by
  rw [behindIds, List.range_add, List.map_append, List.map_map]
  congr 1
  refine List.map_congr_left fun offset offsetMem => ?_
  have offsetLt := List.mem_range.mp offsetMem
  exact blockAt_indirect2 map low (by omega)

theorem flatMap_lowIds_perm (map : BlockMap) (count : Nat) :
    (((List.range count).map (entry (map.disk map.inode.indirect2))).flatMap
      (lowIds map.disk)).Perm (behindIds map (128 * count) ++ lowIndexes map count) := by
  induction count with
  | zero => exact List.Perm.refl _
  | succ count ih =>
      have lowEq : entry (map.disk map.inode.indirect2) count = map.indexAt (count + 2) := rfl
      have ofLow : lowIds map.disk (map.indexAt (count + 2)) = map.indexAt (count + 2) ::
          (List.range 128).map (entry (map.disk (map.indexAt (count + 2)))) := rfl
      have more := behindIds_add map count 128 (le_refl _)
      have rounds : List.range (count + 1) = List.range count ++ [count] := List.range_succ
      rw [show 128 * (count + 1) = 128 * count + 128 by omega, more, lowIndexes, rounds,
        List.map_append, List.flatMap_append, List.map_append]
      refine List.perm_iff_count.mpr fun blockId => ?_
      have counts := List.perm_iff_count.mp ih blockId
      simp only [lowIndexes, ofLow, lowEq, List.map_singleton, List.flatMap_singleton,
        List.count_append, List.count_cons, List.count_nil] at counts ⊢
      omega

theorem run_collectIndirect2 (map : BlockMap) (locked : List Nat) {count : Nat}
    (bounded : count ≤ 16384)
    (unlocked : ∀ low < (count + 127) / 128, map.indexAt (low + 2) ∉ locked) :
    ∃ behind, (collectIndirect2 map.inode.indirect2 count).run ⟨map.disk, locked⟩ =
        .ok behind ⟨map.disk, locked⟩ ∧
      behind.Perm (behindIds map count ++ lowIndexes map ((count + 127) / 128)) := by
  have fullFree : ∀ indirect1 ∈ (List.range (count / 128)).map
      (entry (map.disk map.inode.indirect2)), indirect1 ∉ locked := by
    intro indirect1 isEntry
    obtain ⟨low, lowMem, rfl⟩ := List.mem_map.mp isEntry
    have lowLt := List.mem_range.mp lowMem
    exact unlocked low (by omega)
  obtain ⟨full, ranFull, fullPerm⟩ : ∃ full, (collectFull ((List.range (count / 128)).map
      (entry (map.disk map.inode.indirect2)))).run ⟨map.disk, locked⟩ =
        .ok full ⟨map.disk, locked⟩ ∧
      full.Perm (behindIds map (128 * (count / 128)) ++ lowIndexes map (count / 128)) :=
    ⟨_, run_collectFull fullFree, flatMap_lowIds_perm map (count / 128)⟩
  have split : 128 * (count / 128) + count % 128 = count := by omega
  have more := behindIds_add map (count / 128) (count % 128) (by omega)
  rw [split] at more
  by_cases isPartial : count % inodeIndirect1Count > 0
  · have someMore : 0 < count % 128 := isPartial
    have lows : (count + 127) / 128 = count / 128 + 1 := by omega
    have inBlock : count / 128 < 128 := by omega
    have free : map.indexAt (count / 128 + 2) ∉ locked := unlocked _ (by omega)
    refine ⟨full ++ map.indexAt (count / 128 + 2) :: (List.range (count % 128)).map
      (entry (map.disk (map.indexAt (count / 128 + 2)))), ?_, ?_⟩
    · rw [collectIndirect2, run_bind_ok (run_get _)]
      refine (run_bind_ok ranFull).trans ?_
      rw [if_pos isPartial]
      refine (run_bind_ok (run_getEntryAt inBlock)).trans ?_
      exact run_bind_ok (run_readBlock free)
    · rw [more, lows, lowIndexes, List.range_succ, List.map_append]
      refine List.perm_iff_count.mpr fun blockId => ?_
      have counts := List.perm_iff_count.mp fullPerm blockId
      simp only [lowIndexes, List.map_singleton, List.count_append, List.count_cons,
        List.count_nil] at counts ⊢
      omega
  · have noMore : count % 128 = 0 := Nat.eq_zero_of_not_pos isPartial
    have lows : (count + 127) / 128 = count / 128 := by omega
    have whole : 128 * (count / 128) = count := by omega
    rw [whole] at fullPerm
    refine ⟨full, ?_, lows ▸ fullPerm⟩
    rw [collectIndirect2, run_bind_ok (run_get _)]
    refine (run_bind_ok ranFull).trans ?_
    rw [if_neg isPartial, run_pure]

/-- Clearing the direct blocks leaves the other fields. -/
theorem uint_clearDirect (inode : DiskInode) {count start width : Nat} (few : count ≤ 28)
    (outside : start + width ≤ 4 ∨ 116 ≤ start) :
    ((List.range count).foldl (fun inode index => inode.setDirect index 0) inode).uint start width =
      inode.uint start width := by
  induction count with
  | zero => rfl
  | succ count ih =>
      rw [List.range_succ, List.foldl_append, List.foldl_cons, List.foldl_nil, setDirect,
        Bytes.uint_putUint_outside _ _ (by omega), ih (by omega)]

theorem map_blockAt_direct (map : BlockMap) {count : Nat} (few : count ≤ 28) :
    (List.range count).map map.blockAt = (List.range count).map map.inode.direct :=
  List.map_congr_left fun position inside =>
    blockAt_direct map (by have := List.mem_range.mp inside; omega)

theorem map_blockAt_indirect1 (map : BlockMap) {count : Nat} (few : count ≤ 128) :
    (List.range (28 + count)).map map.blockAt = (List.range 28).map map.inode.direct ++
      (List.range count).map (entry (map.disk map.inode.indirect1)) := by
  rw [List.range_add, List.map_append, List.map_map, map_blockAt_direct map (le_refl _)]
  congr 1
  exact List.map_congr_left fun offset inside =>
    blockAt_indirect1 map (by have := List.mem_range.mp inside; omega)

theorem map_blockAt_indirect2 (map : BlockMap) (count : Nat) :
    (List.range (156 + count)).map map.blockAt = (List.range 28).map map.inode.direct ++
      (List.range 128).map (entry (map.disk map.inode.indirect1)) ++ behindIds map count := by
  have first : (List.range 156).map map.blockAt = _ := map_blockAt_indirect1 map (le_refl 128)
  rw [List.range_add, List.map_append, List.map_map, behindIds, first]
  rfl

/-- The ids behind the direct blocks. -/
theorem run_clearIndirect1 (map : BlockMap) (locked v : List Nat) {inode : DiskInode}
    {count : Nat} (positive : 0 < count) (bounded : count ≤ 16512)
    (sameFirst : inode.indirect1 = map.inode.indirect1)
    (sameSecond : inode.indirect2 = map.inode.indirect2)
    (distinct : 128 < count → ∀ low, low + 2 < indexCount (28 + count) →
      map.indexAt (low + 2) ≠ map.indexAt 1)
    (free : ∀ level < indexCount (28 + count), map.indexAt level ∉ locked) :
    ∃ behind, (clearIndirect1 inode count v).run ⟨map.disk, locked⟩ =
        .ok (v ++ behind, if 128 < count then (inode.setIndirect1 0).setIndirect2 0
          else inode.setIndirect1 0) ⟨map.disk, locked⟩ ∧
      ((List.range 28).map map.inode.direct ++ behind).Perm
        ((List.range (28 + count)).map map.blockAt ++
          (List.range (indexCount (28 + count))).map map.indexAt) := by
  have freeFirst : inode.indirect1 ∉ locked :=
    sameFirst ▸ free 0 (indexCount_pos (by omega))
  by_cases second : count > inodeIndirect1Count
  · have more : 128 < count := second
    have indexes : indexCount (28 + count) = 2 + (count - 128 + 127) / 128 := by
      rw [indexCount, if_neg (by omega), if_neg (by omega)]
      omega
    have secondId : (inode.setIndirect1 0).indirect2 = map.inode.indirect2 :=
      (Bytes.uint_putUint_outside _ _ (by omega)).trans sameSecond
    have freeSecond : (inode.setIndirect1 0).indirect2 ∉ locked :=
      secondId ▸ free 1 (by omega)
    have notMore : count - inodeIndirect1Count ≤ inodeIndirect2Count := by
      change count - 128 ≤ 16384
      omega
    obtain ⟨behind, ranBehind, behindPerm⟩ := run_collectIndirect2 map
      (map.inode.indirect2 :: locked) (by omega : count - 128 ≤ 16384) (by
        intro low lowLt isLocked
        rcases List.mem_cons.mp isLocked with same | isLocked
        · exact distinct more low (by omega) same
        · exact free (low + 2) (by omega) isLocked)
    rw [← secondId] at ranBehind
    refine ⟨(inode.indirect1 :: (List.range 128).map (entry (map.disk inode.indirect1))) ++
      [(inode.setIndirect1 0).indirect2] ++ behind, ?_, ?_⟩
    · rw [if_pos more, clearIndirect1, run_bind_ok (run_readBlock freeFirst)]
      simp only [if_pos second]
      rw [run_bind_ok (run_check notMore _)]
      refine (run_bind_ok (run_withLocked freeSecond ranBehind)).trans ?_
      rw [run_pure, Nat.min_eq_right (Nat.le_of_lt second)]
      simp only [List.append_assoc]
      rfl
    · have blocks : 28 + count = 156 + (count - 128) := by omega
      have levels : List.range (2 + (count - 128 + 127) / 128) =
          [0, 1] ++ (List.range ((count - 128 + 127) / 128)).map (2 + ·) := List.range_add
      have lows : ((List.range ((count - 128 + 127) / 128)).map (2 + ·)).map map.indexAt =
          lowIndexes map ((count - 128 + 127) / 128) := by
        rw [lowIndexes, List.map_map]
        exact List.map_congr_left fun low _ => congrArg map.indexAt (Nat.add_comm 2 low)
      have indexEq : (List.range (indexCount (28 + count))).map map.indexAt =
          map.inode.indirect1 :: map.inode.indirect2 ::
            lowIndexes map ((count - 128 + 127) / 128) := by
        rw [indexes, levels, List.map_append, lows]
        rfl
      rw [indexEq, blocks, map_blockAt_indirect2, sameFirst, secondId]
      refine List.perm_iff_count.mpr fun blockId => ?_
      have counts := List.perm_iff_count.mp behindPerm blockId
      simp only [List.count_append, List.count_cons, List.count_nil] at counts ⊢
      omega
  · have notMore : count ≤ 128 := Nat.not_lt.mp second
    refine ⟨inode.indirect1 :: (List.range count).map (entry (map.disk inode.indirect1)), ?_, ?_⟩
    · rw [if_neg (Nat.not_lt.mpr notMore), clearIndirect1, run_bind_ok (run_readBlock freeFirst)]
      simp only [if_neg second]
      rw [run_pure, Nat.min_eq_left (Nat.not_lt.mp second)]
    · rw [map_blockAt_indirect1 map notMore, indexCount_one _ (by omega) (by omega), sameFirst,
        List.append_assoc]
      refine List.Perm.append_left _ ?_
      exact (List.perm_append_singleton _ _).symm

/-- Forget the direct blocks. -/
def clearDirect (inode : DiskInode) : DiskInode :=
  (List.range (min (sizeBlocks inode.size) 28)).foldl
    (fun inode index => inode.setDirect index 0) (inode.setSize 0)

/-- The inode that clearing leaves. -/
def emptied (inode : DiskInode) : DiskInode :=
  if 156 < sizeBlocks inode.size then (inode.clearDirect.setIndirect1 0).setIndirect2 0
  else if 28 < sizeBlocks inode.size then inode.clearDirect.setIndirect1 0
  else inode.clearDirect

theorem size_emptied (inode : DiskInode) : (emptied inode).size = 0 := by
  have direct : (clearDirect inode).size = 0 :=
    (uint_clearDirect _ (Nat.min_le_right _ _) (Or.inl (by omega))).trans
      (size_setSize inode (by decide))
  have noSize {first second : DiskInode} (same : first.SameBut second) (empty : second.size = 0) :
      first.size = 0 := same.size.trans empty
  rw [emptied]
  split_ifs
  · exact noSize (sameBut_setIndirect2 _ _) (noSize (sameBut_setIndirect1 _ _) direct)
  · exact noSize (sameBut_setIndirect1 _ _) direct
  · exact direct

/-- Clearing returns the ids of an inode. -/
theorem run_clearSize (build : Build) {inode : DiskInode} {disk : Nat → Block}
    {locked given : List Nat} (owns : (inode.map disk).Owns given)
    (bounded : inode.size ≤ sizeBound) (unlocked : ∀ blockId ∈ given, blockId ∉ locked) :
    ∃ v, (clearSize build inode).run ⟨disk, locked⟩ = .ok (v, emptied inode) ⟨disk, locked⟩ ∧
      v.Perm given := by
  have few := sizeBlocks_le bounded
  have ranBlocks := run_dataBlocks build bounded ⟨disk, locked⟩
  have direct : (inode.setSize 0).direct = inode.direct :=
    funext fun index => Bytes.uint_putUint_outside _ _ (by omega)
  by_cases indirect : sizeBlocks inode.size > inodeDirectCount
  · have isIndirect : 28 < sizeBlocks inode.size := indirect
    have split : 28 + (sizeBlocks inode.size - 28) = sizeBlocks inode.size := by omega
    have sameField (start width : Nat) (outside : 116 ≤ start) :
        ((List.range inodeDirectCount).foldl
          (fun (inode : DiskInode) index => inode.setDirect index 0) (inode.setSize 0)).uint
            start width = inode.uint start width := by
      have sized : (inode.setSize 0).uint start width = inode.uint start width :=
        Bytes.uint_putUint_outside _ _ (by omega)
      exact (uint_clearDirect _ (le_refl 28) (Or.inr outside)).trans sized
    obtain ⟨behind, ran, perm⟩ := run_clearIndirect1 (inode.map disk) locked
      ((List.range 28).map inode.direct) (by omega : 0 < sizeBlocks inode.size - 28) (by omega)
      (sameField 116 4 (by omega)) (sameField 120 4 (by omega))
      (fun more low lowLt => owns.index_ne (by rw [split] at lowLt; exact lowLt) (by
        rw [split] at lowLt
        exact lt_of_le_of_lt (by omega) lowLt) (by omega))
      (fun level levelLt => unlocked _ (owns.index_mem (by rw [split] at levelLt; exact levelLt)))
    rw [split] at perm
    refine ⟨(List.range 28).map inode.direct ++ behind, ?_, perm.trans owns.ids⟩
    have isCleared : (List.range inodeDirectCount).foldl
        (fun (inode : DiskInode) index => inode.setDirect index 0) (inode.setSize 0) =
          inode.clearDirect := by
      rw [clearDirect, Nat.min_eq_right (Nat.le_of_lt isIndirect)]
      rfl
    have isEmptied : (if 128 < sizeBlocks inode.size - 28 then
        (inode.clearDirect.setIndirect1 0).setIndirect2 0
          else inode.clearDirect.setIndirect1 0) = inode.emptied := by
      rw [emptied, if_pos isIndirect]
      exact if_congr (by omega) rfl rfl
    rw [clearSize, run_bind_ok ranBlocks]
    simp only [if_pos indirect, Nat.min_eq_right (Nat.le_of_lt indirect), direct]
    rw [isCleared, isEmptied] at ran
    rw [isCleared]
    exact ran
  · have notIndirect : sizeBlocks inode.size ≤ 28 := Nat.not_lt.mp indirect
    have ids := owns.ids
    have noIndexes : (inode.map disk).indexes = 0 := if_pos notIndirect
    have fewBlocks : (inode.map disk).blocks ≤ 28 := notIndirect
    rw [BlockMap.ids, noIndexes, map_blockAt_direct _ fewBlocks, List.range_zero, List.map_nil,
      List.append_nil] at ids
    have isEmptied : inode.emptied = (List.range (sizeBlocks inode.size)).foldl
        (fun inode index => inode.setDirect index 0) (inode.setSize 0) := by
      rw [emptied, if_neg (by omega), if_neg (by omega), clearDirect,
        Nat.min_eq_left notIndirect]
    refine ⟨_, ?_, ids⟩
    rw [clearSize, run_bind_ok ranBlocks, isEmptied]
    simp only [if_neg indirect, Nat.min_eq_left (Nat.not_lt.mp indirect), direct]
    exact run_pure _ _

/-- An inode that has grown from an empty one by any number of steps, with the
ids it was given.  Between the steps its blocks and those of others may be
written. -/
inductive Grown (build : Build) : DiskInode → Volume → List Nat → Prop
  | empty {inode : DiskInode} {volume : Volume} : inode.size = 0 → Grown build inode volume []
  | grow {inode later : DiskInode} {volume after : Volume} {given newBlocks rest : List Nat}
      {newSize : Nat} :
      Grown build inode volume given → inode.size ≤ newSize → newSize ≤ sizeBound →
        (blocksNumNeeded build inode newSize).run volume = .ok newBlocks.length volume →
        Fresh given newBlocks → (∀ blockId ∈ given ++ newBlocks, blockId ∉ volume.locked) →
        (increaseSize build inode newSize newBlocks).run volume = .ok (later, rest) after →
          Grown build later after (given ++ newBlocks)
  | write {inode : DiskInode} {volume after : Volume} {given : List Nat} :
      Grown build inode volume given →
        (∀ blockId ∈ given,
          (∀ position < sizeBlocks inode.size, (inode.map volume.disk).blockAt position ≠ blockId) →
            after.disk blockId = volume.disk blockId) →
          Grown build inode after given

/-- A map depends on the indirect blocks only. -/
theorem map_congr {inode : DiskInode} {disk later : Nat → Block}
    (same : ∀ level < indexCount (sizeBlocks inode.size),
      later ((inode.map disk).indexAt level) = disk ((inode.map disk).indexAt level)) :
    (∀ level < indexCount (sizeBlocks inode.size),
      (inode.map later).indexAt level = (inode.map disk).indexAt level) ∧
    ∀ position < sizeBlocks inode.size,
      (inode.map later).blockAt position = (inode.map disk).blockAt position := by
  have indexes : ∀ level < indexCount (sizeBlocks inode.size),
      (inode.map later).indexAt level = (inode.map disk).indexAt level := by
    intro level levelLt
    rcases level with _ | _ | low
    · rfl
    · rfl
    · have second := same 1 (by omega)
      exact congrArg (fun block => entry block low) second
  refine ⟨indexes, fun position inside => ?_⟩
  have levels := indexCount_mono (by omega : position + 1 ≤ sizeBlocks inode.size)
  rcases position_cases position with isDirect | ⟨offset, offsetLt, rfl⟩ |
    ⟨low, offset, offsetLt, rfl⟩
  · rw [blockAt_direct _ isDirect, blockAt_direct _ isDirect]
    rfl
  · have oneIndex := indexCount_one (28 + offset + 1) (by omega) (by omega)
    have first := same 0 (by omega)
    rw [blockAt_indirect1 _ offsetLt, blockAt_indirect1 _ offsetLt]
    exact congrArg (fun block => entry block offset) first
  · have count : indexCount (156 + (128 * low + offset) + 1) = low + 3 := by
      rw [indexCount, if_neg (by omega), if_neg (by omega)]
      omega
    have lower := same (low + 2) (by omega)
    rw [blockAt_indirect2 _ _ offsetLt, blockAt_indirect2 _ _ offsetLt, indexes _ (by omega)]
    exact congrArg (fun block => entry block offset) lower

theorem Owns.congr {inode : DiskInode} {disk later : Nat → Block} {given : List Nat}
    (owns : (inode.map disk).Owns given)
    (same : ∀ level < indexCount (sizeBlocks inode.size),
      later ((inode.map disk).indexAt level) = disk ((inode.map disk).indexAt level)) :
    (inode.map later).Owns given := by
  obtain ⟨indexes, blocks⟩ := map_congr same
  have sameIds : (inode.map later).ids = (inode.map disk).ids := by
    have sameBlocks : (List.range (inode.map later).blocks).map (inode.map later).blockAt =
        (List.range (inode.map disk).blocks).map (inode.map disk).blockAt :=
      List.map_congr_left fun position inside => blocks position (List.mem_range.mp inside)
    have sameIndexes : (List.range (inode.map later).indexes).map (inode.map later).indexAt =
        (List.range (inode.map disk).indexes).map (inode.map disk).indexAt :=
      List.map_congr_left fun level inside => indexes level (List.mem_range.mp inside)
    rw [BlockMap.ids, BlockMap.ids, sameBlocks, sameIndexes]
  refine ⟨?_, owns.nodup⟩
  rw [sameIds]
  exact owns.ids

theorem owns_of_empty {inode : DiskInode} (empty : inode.size = 0) (disk : Nat → Block) :
    (inode.map disk).Owns [] := by
  have none : sizeBlocks inode.size = 0 := by
    rw [empty]
    rfl
  have noBlocks : (inode.map disk).blocks = 0 := none
  have noIndexes : (inode.map disk).indexes = 0 := if_pos (by rw [none]; omega)
  refine ⟨?_, List.nodup_nil⟩
  rw [BlockMap.ids, noBlocks, noIndexes]
  exact List.Perm.refl _

/-- The count is what growing takes. -/
theorem enough_of_needed {build : Build} {inode : DiskInode} {volume : Volume} {newSize count : Nat}
    (larger : inode.size ≤ newSize) (bounded : newSize ≤ sizeBound)
    (needed : (blocksNumNeeded build inode newSize).run volume = .ok count volume) :
    sizeBlocks newSize + indexCount (sizeBlocks newSize) =
      sizeBlocks inode.size + indexCount (sizeBlocks inode.size) + count := by
  rw [run_blocksNumNeeded build larger bounded] at needed
  have countEq := congrArg (fun outcome => outcome.value?.getD 0) needed
  have more : sizeBlocks inode.size ≤ sizeBlocks newSize := by
    rw [sizeBlocks, sizeBlocks]
    omega
  have moreIndexes := indexCount_mono more
  simp only [Outcome.value?, Option.getD_some] at countEq
  omega

/-- The counted ids are all taken. -/
theorem run_increaseSize_needed (build : Build) {inode : DiskInode} {volume : Volume}
    {given newBlocks : List Nat} {newSize : Nat} (owns : (inode.map volume.disk).Owns given)
    (larger : inode.size ≤ newSize) (bounded : newSize ≤ sizeBound)
    (needed : (blocksNumNeeded build inode newSize).run volume = .ok newBlocks.length volume)
    (fresh : Fresh given newBlocks)
    (unlocked : ∀ blockId ∈ given ++ newBlocks, blockId ∉ volume.locked) :
    ∃ later disk, (increaseSize build inode newSize newBlocks).run volume =
        .ok (later, []) ⟨disk, volume.locked⟩ ∧
      (DiskInode.map later disk).Owns (given ++ newBlocks) ∧
      (inode.map volume.disk).Grows (DiskInode.map later disk) ∧
      later.size = newSize ∧ later.isDir = inode.isDir ∧
      ((∀ blockId ∈ newBlocks, volume.disk blockId = .zeroed) → (inode.map volume.disk).Blank →
        (DiskInode.map later disk).Blank) := by
  have enough := enough_of_needed larger bounded needed
  obtain ⟨taken, rest, later, disk, rfl, ran, laterOwns, grows, sizeEq, dirEq, blank⟩ :=
    run_increaseSize build owns fresh larger bounded enough.le unlocked
  have before := owns.ids.length_eq
  have after := laterOwns.ids.length_eq
  simp only [BlockMap.ids, List.length_append, List.length_map, List.length_range, DiskInode.map,
    sizeEq] at before after enough
  obtain rfl : rest = [] := List.eq_nil_of_length_eq_zero (by omega)
  rw [List.append_nil] at ran ⊢
  exact ⟨later, disk, ran, laterOwns, grows, sizeEq, dirEq, blank⟩

theorem owns_of_grown {build : Build} {inode : DiskInode} {volume : Volume} {given : List Nat}
    (grown : Grown build inode volume given) :
    (inode.map volume.disk).Owns given ∧ inode.size ≤ sizeBound := by
  induction grown with
  | empty empty => exact ⟨owns_of_empty empty _, empty ▸ Nat.zero_le _⟩
  | grow _ larger bounded needed fresh unlocked ran ih =>
      obtain ⟨later, disk, ranLater, laterOwns, _, sizeEq, _⟩ :=
        run_increaseSize_needed build ih.1 larger bounded needed fresh unlocked
      rw [ranLater] at ran
      cases ran
      exact ⟨laterOwns, sizeEq.trans_le bounded⟩
  | write _ kept ih =>
      refine ⟨Owns.congr ih.1 fun level levelLt => ?_, ih.2⟩
      exact kept _ (ih.1.index_mem levelLt) fun position inside =>
        ih.1.block_ne_index inside levelLt

/-- Growing takes exactly the counted ids, moves no block and keeps all blocks
apart, and clearing returns every id that was ever given once, as many as the
assertion behind it counts. -/
theorem increaseSize_exact (build : Build) {inode : DiskInode} {volume : Volume}
    {given newBlocks : List Nat} {newSize : Nat} (grown : Grown build inode volume given)
    (larger : inode.size ≤ newSize) (bounded : newSize ≤ sizeBound)
    (needed : (blocksNumNeeded build inode newSize).run volume = .ok newBlocks.length volume)
    (fresh : Fresh given newBlocks)
    (unlocked : ∀ blockId ∈ given ++ newBlocks, blockId ∉ volume.locked) :
    ∃ later after, (increaseSize build inode newSize newBlocks).run volume =
        .ok (later, []) after ∧ later.size = newSize ∧
      (∀ innerId < sizeBlocks inode.size, ∃ blockId,
        (inode.getBlockId innerId).run volume = .ok blockId volume ∧
          (DiskInode.getBlockId later innerId).run after = .ok blockId after) ∧
      (∀ first < sizeBlocks newSize, ∀ second < sizeBlocks newSize, first ≠ second →
        ∃ firstId secondId, (DiskInode.getBlockId later first).run after = .ok firstId after ∧
          (DiskInode.getBlockId later second).run after = .ok secondId after ∧
            firstId ≠ secondId) ∧
      ∃ v cleared, (clearSize build later).run after = .ok (v, cleared) after ∧
        v.Perm (given ++ newBlocks) ∧ v.Nodup ∧
          (totalBlocks build newSize).run after = .ok v.length after := by
  obtain ⟨owns, oldBounded⟩ := owns_of_grown grown
  obtain ⟨later, disk, ran, laterOwns, grows, sizeEq, _⟩ :=
    run_increaseSize_needed build owns larger bounded needed fresh unlocked
  have laterBounded : DiskInode.size later ≤ sizeBound := sizeEq.trans_le bounded
  have laterBlocks : (DiskInode.map later disk).blocks = sizeBlocks newSize :=
    congrArg sizeBlocks sizeEq
  have looksUp (innerId : Nat) (inside : innerId < sizeBlocks newSize) :
      (DiskInode.getBlockId later innerId).run ⟨disk, volume.locked⟩ =
        .ok ((DiskInode.map later disk).blockAt innerId) ⟨disk, volume.locked⟩ :=
    run_getBlockId_of_owns laterOwns laterBounded (sizeEq.symm ▸ inside) unlocked
  refine ⟨later, ⟨disk, volume.locked⟩, ran, sizeEq, ?_, ?_, ?_⟩
  · intro innerId inside
    have inLater : innerId < sizeBlocks newSize :=
      lt_of_lt_of_le inside (laterBlocks ▸ grows.blocks)
    refine ⟨_, run_getBlockId_of_owns owns oldBounded inside fun blockId isGiven =>
      unlocked blockId (List.mem_append_left _ isGiven), ?_⟩
    rw [looksUp innerId inLater, grows.blockAt innerId inside]
  · intro first firstInside second secondInside differs
    exact ⟨_, _, looksUp first firstInside, looksUp second secondInside,
      laterOwns.block_ne (laterBlocks ▸ firstInside) (laterBlocks ▸ secondInside) differs⟩
  · obtain ⟨v, ranClear, perm⟩ := run_clearSize build laterOwns laterBounded unlocked
    refine ⟨v, _, ranClear, perm, perm.nodup_iff.mpr laterOwns.nodup, ?_⟩
    have length := perm.length_eq.trans laterOwns.ids.length_eq.symm
    simp only [BlockMap.ids, List.length_append, List.length_map, List.length_range,
      DiskInode.map, sizeEq] at length
    rw [run_totalBlocks build bounded, length]

/-- An inode of zeros. -/
def emptyInode : DiskInode := Bytes.zeroed

theorem increaseSize_exact_indirect :
    ∃ later after, (increaseSize ⟨true⟩ emptyInode 14337 (List.range' 100 30)).run
        ⟨fun _ => .zeroed, [3]⟩ = .ok (later, []) after ∧ DiskInode.size later = 14337 := by
  have small : emptyInode.size = 0 := by decide
  have fits : 14337 ≤ sizeBound := by decide
  have needed := run_blocksNumNeeded ⟨true⟩ (small ▸ Nat.zero_le 14337) fits
    ⟨fun _ => .zeroed, [3]⟩
  rw [small] at needed
  have fresh : Fresh [] (List.range' 100 30) := ⟨by decide, by decide⟩
  obtain ⟨later, after, ran, sizeEq, _⟩ := increaseSize_exact ⟨true⟩ (.empty small)
    (small ▸ Nat.zero_le 14337) fits needed fresh (by decide)
  exact ⟨later, after, ran, sizeEq⟩

end DiskInode

end EasyFs

end OSWorkspace
