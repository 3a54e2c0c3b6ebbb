import OSWorkspace.EasyFsFreeBlocks

/-!
# The contents of easy-fs files

A disk inode stores a list of bytes: the blocks of its map hold the bytes and,
behind the last one, zeros.  Reading returns a range of the list and writing
overwrites one.  Growing appends zeros, since free blocks are zeroed, and
clearing returns all blocks.
-/

namespace OSWorkspace

namespace EasyFs

open Exec

/-- An empty write leaves a buffer. -/
theorem emptyWrite {size : Nat} (buffer : Bytes size) (offset : Nat) :
    buffer.write offset [] = buffer := by
  refine Bytes.ext fun index inside => ?_
  exact Bytes.get_overlay_outside _ _ (by simp only [List.length_nil]; omega)

/-- A byte array after a write; a gap behind its end is filled with zeros. -/
def writtenAt (bytes : List UInt8) (offset : Nat) (buf : List UInt8) : List UInt8 :=
  (bytes ++ List.replicate (offset - bytes.length) 0).take offset ++ buf ++
    bytes.drop (offset + buf.length)

section ByteArrays

variable {bytes buf : List UInt8} {offset : Nat}

theorem length_writtenAt (bytes : List UInt8) (offset : Nat) (buf : List UInt8) :
    (writtenAt bytes offset buf).length = max bytes.length (offset + buf.length) := by
  simp only [writtenAt, List.length_append, List.length_take, List.length_replicate,
    List.length_drop]
  omega

/-- Behind the end all bytes are zero. -/
theorem getD_writtenAt (bytes : List UInt8) (offset : Nat) (buf : List UInt8) (index : Nat) :
    (writtenAt bytes offset buf).getD index 0 =
      if offset ≤ index ∧ index < offset + buf.length then buf.getD (index - offset) 0
      else bytes.getD index 0 := by
  have headLength : ((bytes ++ List.replicate (offset - bytes.length) 0).take offset).length =
      offset := by
    simp only [List.length_take, List.length_append, List.length_replicate]
    omega
  by_cases before : index < offset
  · rw [if_neg (by omega), writtenAt, List.append_assoc,
      List.getD_append _ _ _ _ (by rw [headLength]; exact before)]
    simp only [List.getD_eq_getElem?_getD, List.getElem?_take, if_pos before,
      List.getElem?_append, List.getElem?_replicate]
    by_cases inside : index < bytes.length
    · rw [if_pos inside]
    · rw [if_neg inside, if_pos (by omega), List.getElem?_eq_none (Nat.not_lt.mp inside)]
      rfl
  · by_cases inBuf : index < offset + buf.length
    · rw [if_pos ⟨Nat.not_lt.mp before, inBuf⟩, writtenAt, List.append_assoc,
        List.getD_append_right _ _ _ _ (by omega), headLength,
        List.getD_append _ _ _ _ (by omega)]
    · rw [if_neg fun inRange => inBuf inRange.2, writtenAt,
        List.getD_append_right _ _ _ _ (by rw [List.length_append]; omega), List.length_append,
        headLength]
      simp only [List.getD_eq_getElem?_getD, List.getElem?_drop]
      rw [show offset + buf.length + (index - (offset + buf.length)) = index by omega]

theorem eq_of_getD {first second : List UInt8} (length : first.length = second.length)
    (agree : ∀ index, first.getD index 0 = second.getD index 0) : first = second := by
  refine List.ext_getElem length fun index inFirst inSecond => ?_
  have same := agree index
  rwa [List.getD_eq_getElem _ _ inFirst, List.getD_eq_getElem _ _ inSecond] at same

theorem writtenAt_nil (inside : offset ≤ bytes.length) : writtenAt bytes offset [] = bytes := by
  refine eq_of_getD ?_ fun index => ?_
  · rw [length_writtenAt, List.length_nil]
    omega
  · rw [getD_writtenAt, if_neg (by simp)]

/-- A write after one that ends where it starts. -/
theorem writtenAt_append (bytes first second : List UInt8) (offset : Nat) :
    writtenAt (writtenAt bytes offset first) (offset + first.length) second =
      writtenAt bytes offset (first ++ second) := by
  refine eq_of_getD ?_ fun index => ?_
  · simp only [length_writtenAt, List.length_append]
    omega
  · rw [getD_writtenAt, getD_writtenAt, getD_writtenAt, List.length_append]
    by_cases inFirst : index < offset + first.length
    · rw [if_neg (by omega)]
      by_cases behind : offset ≤ index
      · rw [if_pos ⟨behind, inFirst⟩, if_pos (by omega), List.getD_append _ _ _ _ (by omega)]
      · rw [if_neg (by omega), if_neg (by omega)]
    · by_cases inSecond : index < offset + first.length + second.length
      · rw [if_pos (by omega), if_pos (by omega), List.getD_append_right _ _ _ _ (by omega),
          Nat.sub_sub]
      · rw [if_neg (by omega), if_neg (by omega), if_neg (by omega)]

/-- A write to an array that was extended for it. -/
theorem writtenAt_extended (bytes buf : List UInt8) (offset : Nat) :
    writtenAt (writtenAt bytes (offset + buf.length) []) offset buf =
      writtenAt bytes offset buf := by
  refine eq_of_getD ?_ fun index => ?_
  · simp only [length_writtenAt, List.length_nil]
    omega
  · rw [getD_writtenAt, getD_writtenAt, getD_writtenAt, List.length_nil,
      if_neg (by omega : ¬ (offset + buf.length ≤ index ∧ index < offset + buf.length + 0))]

theorem take_drop_eq_map {start count : Nat} (inside : start + count ≤ bytes.length) :
    (bytes.drop start).take count = (List.range count).map fun index =>
      bytes.getD (start + index) 0 := by
  refine List.ext_getElem ?_ fun index inFirst inSecond => ?_
  · rw [List.length_take, List.length_drop, List.length_map, List.length_range]
    omega
  · rw [List.length_map, List.length_range] at inSecond
    rw [List.getElem_take, List.getElem_drop, List.getElem_map, List.getElem_range,
      List.getD_eq_getElem _ _ (by omega)]

end ByteArrays

namespace DiskInode

open BlockMap

/-- An inode that owns its blocks, has zeros in all unused places for ids and
stores some bytes, followed by zeros up to the end of the last block. -/
structure Stores (inode : DiskInode) (disk : Nat → Block) (given : List Nat)
    (bytes : List UInt8) : Prop where
  owns : (inode.map disk).Owns given
  blank : (inode.map disk).Blank
  size : inode.size = bytes.length
  bounded : bytes.length ≤ sizeBound
  byte : ∀ position < sizeBlocks bytes.length, ∀ index < blockSz,
    (disk ((inode.map disk).blockAt position)).get index =
      bytes.getD (blockSz * position + index) 0

theorem Blank.congr {inode : DiskInode} {disk later : Nat → Block}
    (blank : (inode.map disk).Blank)
    (same : ∀ level < indexCount (sizeBlocks inode.size),
      later ((inode.map disk).indexAt level) = disk ((inode.map disk).indexAt level)) :
    (inode.map later).Blank := by
  obtain ⟨indexes, _⟩ := map_congr same
  refine ⟨blank.direct, blank.indirect1, blank.indirect2, fun used offset inside unused => ?_,
    fun used low inside unused => ?_, fun low used offset inside unused => ?_⟩
  · have first : later inode.indirect1 = disk inode.indirect1 := same 0 used
    exact (congrArg (fun block => entry block offset) first).trans
      (blank.first used offset inside unused)
  · have second : later inode.indirect2 = disk inode.indirect2 := same 1 used
    exact (congrArg (fun block => entry block low) second).trans
      (blank.second used low inside unused)
  · have lower : later ((inode.map later).indexAt (low + 2)) =
        disk ((inode.map disk).indexAt (low + 2)) := by
      rw [indexes _ used]
      exact same _ used
    exact (congrArg (fun block => entry block offset) lower).trans
      (blank.behind low used offset inside unused)

section Stored

variable {inode : DiskInode} {disk later : Nat → Block} {given : List Nat} {bytes : List UInt8}

theorem Stores.blocks_eq (stores : inode.Stores disk given bytes) :
    (inode.map disk).blocks = sizeBlocks bytes.length :=
  congrArg sizeBlocks stores.size

theorem Stores.index_mem (stores : inode.Stores disk given bytes) {level : Nat}
    (levelLt : level < indexCount (sizeBlocks inode.size)) :
    (inode.map disk).indexAt level ∈ given :=
  stores.owns.index_mem levelLt

theorem Stores.block_mem (stores : inode.Stores disk given bytes) {position : Nat}
    (inside : position < sizeBlocks bytes.length) : (inode.map disk).blockAt position ∈ given :=
  stores.owns.block_mem (stores.blocks_eq.symm ▸ inside)

/-- The bytes depend on the blocks of the inode only. -/
theorem Stores.congr (stores : inode.Stores disk given bytes)
    (same : ∀ blockId ∈ given, later blockId = disk blockId) :
    inode.Stores later given bytes := by
  have sameIndex (level : Nat) (levelLt : level < indexCount (sizeBlocks inode.size)) :=
    same _ (stores.index_mem levelLt)
  obtain ⟨_, blocks⟩ := map_congr sameIndex
  refine ⟨Owns.congr stores.owns sameIndex, Blank.congr stores.blank sameIndex, stores.size,
    stores.bounded, fun position inside index indexLt => ?_⟩
  rw [blocks position (stores.size ▸ inside), same _ (stores.block_mem inside)]
  exact stores.byte position inside index indexLt

theorem Stores.sizeBlocks_le (stores : inode.Stores disk given bytes) :
    sizeBlocks bytes.length ≤ 16540 :=
  DiskInode.sizeBlocks_le stores.bounded

theorem Stores.run_getBlockId {locked : List Nat} (stores : inode.Stores disk given bytes)
    (unlocked : ∀ blockId ∈ given, blockId ∉ locked) {position : Nat}
    (inside : position < sizeBlocks bytes.length) :
    (inode.getBlockId (position % 2 ^ 32)).run ⟨disk, locked⟩ =
      .ok ((inode.map disk).blockAt position) ⟨disk, locked⟩ := by
  have few := stores.sizeBlocks_le
  rw [Nat.mod_eq_of_lt (by omega)]
  exact run_getBlockId_of_owns stores.owns (stores.size.trans_le stores.bounded)
    (stores.size ▸ inside) unlocked

theorem div_lt_sizeBlocks {start size : Nat} (inside : start < size) :
    start / blockSz < sizeBlocks size := by
  have position : start / 512 < (size + 511) / 512 := by omega
  exact position

/-- The range that one round copies lies in a block. -/
theorem round_bounds {start last : Nat} (lower : start < last) :
    start % blockSz + (min ((start / blockSz + 1) * blockSz) last - start) ≤ blockSz ∧
      start < min ((start / blockSz + 1) * blockSz) last := by
  change start % 512 + (min ((start / 512 + 1) * 512) last - start) ≤ 512 ∧
    start < min ((start / 512 + 1) * 512) last
  omega

/-- A round that is not the last one leaves fewer rounds. -/
theorem fewer_rounds {start last fuel : Nat} (rounds : last / blockSz - start / blockSz < fuel + 1)
    (notLast : (start / blockSz + 1) * blockSz < last) :
    last / blockSz - (start / blockSz + 1) * blockSz / blockSz < fuel := by
  change last / 512 - start / 512 < fuel + 1 at rounds
  change (start / 512 + 1) * 512 < last at notLast
  change last / 512 - (start / 512 + 1) * 512 / 512 < fuel
  omega

/-- The bytes in a range of a block. -/
theorem Stores.slice_block (stores : inode.Stores disk given bytes) {start count : Nat}
    (inBlock : start % blockSz + count ≤ blockSz) (positive : 0 < count)
    (inside : start + count ≤ bytes.length) :
    (disk ((inode.map disk).blockAt (start / blockSz))).slice (start % blockSz) count =
      (bytes.drop start).take count := by
  have whole : blockSz * (start / blockSz) + start % blockSz = start := Nat.div_add_mod _ _
  rw [take_drop_eq_map inside, Bytes.slice]
  refine List.map_congr_left fun index indexMem => ?_
  have indexLt := List.mem_range.mp indexMem
  rw [stores.byte _ (div_lt_sizeBlocks (by omega)) _ (by omega), ← Nat.add_assoc, whole]

/-- The rounds of the reading loop from `start` on. -/
theorem Stores.run_readLoop {locked : List Nat} (stores : inode.Stores disk given bytes)
    (unlocked : ∀ blockId ∈ given, blockId ∉ locked) {last fuel start : Nat}
    (lower : start < last) (upper : last ≤ bytes.length)
    (rounds : last / blockSz - start / blockSz < fuel) :
    (inode.readLoop last fuel start (start / blockSz)).run ⟨disk, locked⟩ =
      .ok ((bytes.drop start).take (last - start)) ⟨disk, locked⟩ := by
  induction fuel generalizing start with
  | zero => omega
  | succ fuel ih =>
      have position := div_lt_sizeBlocks (by omega : start < bytes.length)
      have free := unlocked _ (stores.block_mem position)
      obtain ⟨inBlock, forward⟩ := round_bounds lower
      have copied := stores.slice_block inBlock (by omega) (by omega)
      rw [readLoop]
      simp only
      rw [run_bind_ok (stores.run_getBlockId unlocked position), run_bind_ok (run_readBlock free),
        copied]
      by_cases isLast : min ((start / blockSz + 1) * blockSz) last = last
      · rw [if_pos isLast, run_pure, isLast]
      · have notLast : (start / blockSz + 1) * blockSz < last := by
          by_contra above
          exact isLast (Nat.min_eq_right (Nat.not_lt.mp above))
        have isMin : min ((start / blockSz + 1) * blockSz) last = (start / blockSz + 1) * blockSz :=
          Nat.min_eq_left (Nat.le_of_lt notLast)
        have next : (start / blockSz + 1) * blockSz / blockSz = start / blockSz + 1 :=
          Nat.mul_div_cancel _ (by decide)
        have others := @ih ((start / blockSz + 1) * blockSz) notLast (fewer_rounds rounds notLast)
        rw [next] at others
        rw [isMin] at forward
        rw [if_neg isLast, isMin, run_bind_ok others, run_pure]
        congr 1
        have parts : last - start = ((start / blockSz + 1) * blockSz - start) +
            (last - (start / blockSz + 1) * blockSz) := by omega
        rw [parts, List.take_add, List.drop_drop, Nat.add_sub_cancel' (Nat.le_of_lt forward)]

/-- Reading returns the bytes of the range that are in the file. -/
theorem Stores.run_readAt {locked : List Nat} (build : Build)
    (stores : inode.Stores disk given bytes) (unlocked : ∀ blockId ∈ given, blockId ∉ locked)
    {offset length : Nat} (inWord : build.overflowChecks = true → offset + length < 2 ^ 64)
    (small : offset < 2 ^ 64) (short : length < 2 ^ 63) :
    (inode.readAt build offset length).run ⟨disk, locked⟩ =
      .ok ((bytes.drop offset).take length) ⟨disk, locked⟩ := by
  have bounded : bytes.length ≤ 8468480 := stores.bounded
  have sum : (build.add64 offset length).run ⟨disk, locked⟩ =
      .ok ((offset + length) % 2 ^ 64) ⟨disk, locked⟩ := by
    rw [Build.add64, run_bind_ok (run_check inWord _), run_pure]
  have ranNone (behind : bytes.length ≤ offset ∨ length = 0) :
      [] = (bytes.drop offset).take length := by
    rcases behind with behind | rfl
    · rw [List.drop_of_length_le behind, List.take_nil]
    · rw [List.take_zero]
  rw [readAt, run_bind_ok sum, stores.size]
  simp only
  by_cases nothing : offset ≥ min ((offset + length) % 2 ^ 64) bytes.length
  · rw [if_pos nothing, run_pure, ← ranNone (by omega)]
  · have noWrap : (offset + length) % 2 ^ 64 = offset + length := by omega
    rw [noWrap] at nothing ⊢
    rw [if_neg nothing, stores.run_readLoop unlocked (by omega) (by omega) (Nat.lt_succ_self _)]
    congr 1
    by_cases inside : offset + length ≤ bytes.length
    · rw [Nat.min_eq_left inside, Nat.add_sub_cancel_left]
    · have whole : (bytes.drop offset).length ≤ min (offset + length) bytes.length - offset := by
        rw [List.length_drop]
        omega
      rw [List.take_of_length_le whole, List.take_of_length_le (by rw [List.length_drop]; omega)]

/-- Writing to a block of the file. -/
theorem Stores.writeBlock (stores : inode.Stores disk given bytes) {start : Nat}
    {data : List UInt8} (inBlock : start % blockSz + data.length ≤ blockSz)
    (inside : start < bytes.length) (fits : start + data.length ≤ bytes.length) :
    inode.Stores (Function.update disk ((inode.map disk).blockAt (start / blockSz))
      ((disk ((inode.map disk).blockAt (start / blockSz))).write (start % blockSz) data)) given
        (writtenAt bytes start data) := by
  have target := div_lt_sizeBlocks inside
  have inMap : start / blockSz < (inode.map disk).blocks := stores.blocks_eq.symm ▸ target
  have whole : blockSz * (start / blockSz) + start % blockSz = start := Nat.div_add_mod _ _
  have sameIndex : ∀ level < indexCount (sizeBlocks inode.size),
      Function.update disk ((inode.map disk).blockAt (start / blockSz))
        ((disk ((inode.map disk).blockAt (start / blockSz))).write (start % blockSz) data)
          ((inode.map disk).indexAt level) = disk ((inode.map disk).indexAt level) :=
    fun level levelLt =>
      Function.update_of_ne (stores.owns.block_ne_index inMap levelLt).symm _ _
  obtain ⟨_, blocks⟩ := map_congr sameIndex
  have sameLength : (writtenAt bytes start data).length = bytes.length := by
    rw [length_writtenAt]
    omega
  refine ⟨Owns.congr stores.owns sameIndex, Blank.congr stores.blank sameIndex,
    stores.size.trans sameLength.symm, sameLength.trans_le stores.bounded, ?_⟩
  rw [sameLength]
  intro position positionLt index indexLt
  have indexInBlock : index < 512 := indexLt
  have old := stores.byte position positionLt index indexLt
  rw [blocks position (stores.size ▸ positionLt), getD_writtenAt]
  by_cases same : position = start / blockSz
  · subst same
    rw [Function.update_self, Bytes.write, Bytes.get_overlay _ _ _ _ indexLt, old]
    refine if_congr (by omega) ?_ rfl
    congr 1
    omega
  · have outside : ¬ (start ≤ blockSz * position + index ∧
        blockSz * position + index < start + data.length) := by
      change ¬ (start ≤ 512 * position + index ∧ 512 * position + index < start + data.length)
      change ¬ position = start / 512 at same
      change start % 512 + data.length ≤ 512 at inBlock
      omega
    have apart := stores.owns.block_ne (stores.blocks_eq.symm ▸ positionLt) inMap same
    rw [Function.update_of_ne apart, if_neg outside, old]

/-- The rounds of the writing loop from `start` on. -/
theorem Stores.run_writeLoop {locked : List Nat} (stores : inode.Stores disk given bytes)
    (unlocked : ∀ blockId ∈ given, blockId ∉ locked) {buf : List UInt8}
    {last fuel start written : Nat} (remains : start + (buf.length - written) = last)
    (lower : start < last) (upper : last ≤ bytes.length)
    (rounds : last / blockSz - start / blockSz < fuel) :
    ∃ later, (inode.writeLoop last buf fuel start (start / blockSz) written).run ⟨disk, locked⟩ =
        .ok buf.length ⟨later, locked⟩ ∧
      inode.Stores later given (writtenAt bytes start (buf.drop written)) ∧
      ∀ blockId ∉ given, later blockId = disk blockId := by
  induction fuel generalizing disk bytes start written with
  | zero => omega
  | succ fuel ih =>
      have position := div_lt_sizeBlocks (by omega : start < bytes.length)
      have isGiven := stores.block_mem position
      obtain ⟨inBlock, forward⟩ := round_bounds lower
      obtain ⟨count, isCount⟩ : ∃ count,
        min ((start / blockSz + 1) * blockSz) last - start = count := ⟨_, rfl⟩
      have chunkLength : ((buf.drop written).take count).length = count := by
        rw [List.length_take, List.length_drop]
        omega
      have first := @Stores.writeBlock _ _ _ _ stores start ((buf.drop written).take count)
        (by rw [chunkLength]; omega) (by omega) (by rw [chunkLength]; omega)
      have frame : ∀ blockId ∉ given, Function.update disk
          ((inode.map disk).blockAt (start / blockSz))
          ((disk ((inode.map disk).blockAt (start / blockSz))).write (start % blockSz)
            ((buf.drop written).take count)) blockId = disk blockId := by
        intro blockId notGiven
        refine Function.update_of_ne ?_ _ _
        rintro rfl
        exact notGiven isGiven
      rw [writeLoop]
      rw [run_bind_ok (stores.run_getBlockId unlocked position),
        run_bind_ok (run_modifyBlock (unlocked _ isGiven) _), isCount, Volume.putBlock]
      by_cases isLast : min ((start / blockSz + 1) * blockSz) last = last
      · have all : (buf.drop written).take count = buf.drop written :=
          List.take_of_length_le (by rw [List.length_drop]; omega)
        rw [all] at first frame ⊢
        rw [if_pos isLast, run_pure]
        exact ⟨_, by rw [show written + count = buf.length by omega], first, frame⟩
      · have notLast : (start / blockSz + 1) * blockSz < last := by
          by_contra above
          exact isLast (Nat.min_eq_right (Nat.not_lt.mp above))
        have isMin : min ((start / blockSz + 1) * blockSz) last = (start / blockSz + 1) * blockSz :=
          Nat.min_eq_left (Nat.le_of_lt notLast)
        have next : (start / blockSz + 1) * blockSz / blockSz = start / blockSz + 1 :=
          Nat.mul_div_cancel _ (by decide)
        have isNext : start + count = (start / blockSz + 1) * blockSz := by omega
        obtain ⟨later, ran, laterStores, laterFrame⟩ :=
          ih first (by omega : (start / blockSz + 1) * blockSz +
              (buf.length - (written + count)) = last) notLast
            (by rw [length_writtenAt]; omega) (fewer_rounds rounds notLast)
        refine ⟨later, ?_, ?_, fun blockId notGiven =>
          (laterFrame blockId notGiven).trans (frame blockId notGiven)⟩
        · rw [if_neg isLast, isMin]
          rw [next] at ran
          exact ran
        · have parts : buf.drop written =
              (buf.drop written).take count ++ buf.drop (written + count) := by
            rw [← List.drop_drop, List.take_append_drop]
          have appended := writtenAt_append bytes ((buf.drop written).take count)
            (buf.drop (written + count)) start
          rw [← parts, chunkLength, isNext] at appended
          rwa [← appended]

/-- Writing inside the file overwrites the bytes of the range. -/
theorem Stores.run_writeAt {locked : List Nat} (build : Build)
    (stores : inode.Stores disk given bytes) (unlocked : ∀ blockId ∈ given, blockId ∉ locked)
    {offset : Nat} {buf : List UInt8} (some : buf ≠ [])
    (inside : offset + buf.length ≤ bytes.length) :
    ∃ later, (inode.writeAt build offset buf).run ⟨disk, locked⟩ =
        .ok buf.length ⟨later, locked⟩ ∧
      inode.Stores later given (writtenAt bytes offset buf) ∧
      ∀ blockId ∉ given, later blockId = disk blockId := by
  have bounded : bytes.length ≤ 8468480 := stores.bounded
  have positive := List.length_pos_of_ne_nil some
  have sum : (build.add64 offset buf.length).run ⟨disk, locked⟩ =
      .ok (offset + buf.length) ⟨disk, locked⟩ := by
    rw [Build.add64, run_bind_ok (run_check (by omega) _), run_pure, Nat.mod_eq_of_lt (by omega)]
  have ranLoop := @Stores.run_writeLoop _ _ _ _ _ stores unlocked buf (offset + buf.length)
    ((offset + buf.length) / blockSz - offset / blockSz + 1) offset 0 rfl (by omega) inside
    (Nat.lt_succ_self _)
  rw [List.drop_zero] at ranLoop
  rw [writeAt, run_bind_ok sum, stores.size]
  simp only [Nat.min_eq_left inside]
  rw [run_bind_ok (run_check (by omega) _)]
  exact ranLoop

theorem of_run_readBlock {target : Nat} {block : Block} {volume after : Volume}
    (ran : (readBlock target).run volume = .ok block after) :
    target ∉ volume.locked ∧ block = volume.disk target ∧ after = volume := by
  rw [readBlock, run_bind_ok (run_get _)] at ran
  obtain ⟨_, _, ranCheck, ran⟩ := of_run_bind_ok ran
  obtain ⟨unlocked, rfl⟩ := of_run_check ranCheck
  rw [run_pure] at ran
  cases ran
  exact ⟨unlocked, rfl, rfl⟩

/-- A lookup leaves the device. -/
theorem of_run_getBlockId {volume after : Volume} {innerId blockId : Nat}
    (ran : (inode.getBlockId innerId).run volume = .ok blockId after) : after = volume := by
  rw [getBlockId] at ran
  split_ifs at ran
  · rw [run_pure] at ran
    cases ran
    rfl
  · obtain ⟨_, _, ranFirst, ran⟩ := of_run_bind_ok ran
    rw [run_pure] at ran
    cases ran
    exact (of_run_readBlock ranFirst).2.2
  · obtain ⟨_, _, ranSecond, ran⟩ := of_run_bind_ok ran
    obtain ⟨_, _, ranCheck, ran⟩ := of_run_bind_ok ran
    obtain ⟨_, _, ranLow, ran⟩ := of_run_bind_ok ran
    rw [run_pure] at ran
    rw [← (Outcome.ok.inj ran).2, (of_run_readBlock ranLow).2.2, (of_run_check ranCheck).2,
      (of_run_readBlock ranSecond).2.2]

/-- An empty write that returns leaves the device. -/
theorem of_run_writeAt_nil {build : Build} {offset written : Nat} {volume after : Volume}
    (ran : (inode.writeAt build offset []).run volume = .ok written after) :
    written = 0 ∧ after = volume := by
  obtain ⟨sum, middle, ranSum, ran⟩ := of_run_bind_ok ran
  obtain ⟨_, _, ranWord, ranSum⟩ := of_run_bind_ok ranSum
  rw [run_pure, List.length_nil, Nat.add_zero] at ranSum
  obtain ⟨isSum, sameMiddle⟩ := Outcome.ok.inj ranSum
  have sumLe : sum ≤ offset := isSum ▸ Nat.mod_le _ _
  obtain ⟨_, _, ranCheck, ran⟩ := of_run_bind_ok ran
  obtain ⟨inside, sameBetween⟩ := of_run_check ranCheck
  have isLast : min sum inode.size = offset :=
    le_antisymm (le_trans (Nat.min_le_left _ _) sumLe) inside
  have inBlock : min ((offset / blockSz + 1) * blockSz) offset = offset :=
    Nat.min_eq_right (by change offset ≤ (offset / 512 + 1) * 512; omega)
  rw [isLast, Nat.sub_self, Nat.zero_add, writeLoop, inBlock, Nat.sub_self] at ran
  obtain ⟨blockId, _, ranId, ran⟩ := of_run_bind_ok ran
  obtain ⟨_, _, ranModify, ran⟩ := of_run_bind_ok ran
  obtain ⟨block, _, ranRead, ranModify⟩ := of_run_bind_ok ranModify
  obtain ⟨_, isBlock, sameRead⟩ := of_run_readBlock ranRead
  rw [run_modify, List.take_zero] at ranModify
  simp only [emptyWrite] at ranModify
  rw [sameRead, isBlock, Volume.putBlock, Function.update_eq_self] at ranModify
  rw [if_pos rfl, run_pure] at ran
  obtain ⟨isWritten, isAfter⟩ := Outcome.ok.inj ran
  refine ⟨isWritten.symm, ?_⟩
  rw [← isAfter, ← (Outcome.ok.inj ranModify).2, of_run_getBlockId ranId, sameBetween,
    ← sameMiddle, (of_run_check ranWord).2]

/-- A new block of a grown inode is one of the blocks that were taken. -/
theorem Stores.new_block_mem (stores : inode.Stores disk given bytes) {grown : DiskInode}
    {taken : List Nat} (grows : (inode.map disk).Grows (grown.map later))
    (owns : (grown.map later).Owns (given ++ taken)) {position : Nat}
    (isNew : sizeBlocks bytes.length ≤ position) (inside : position < (grown.map later).blocks) :
    (grown.map later).blockAt position ∈ taken := by
  rcases List.mem_append.mp (owns.block_mem inside) with isGiven | isTaken
  · rcases List.mem_append.mp (stores.owns.ids.mem_iff.mpr isGiven) with isBlock | isIndex
    · obtain ⟨old, oldMem, same⟩ := List.mem_map.mp isBlock
      have oldLt := List.mem_range.mp oldMem
      rw [← grows.blockAt old oldLt] at same
      have before : old < position := lt_of_lt_of_le oldLt (stores.blocks_eq.trans_le isNew)
      exact absurd same (owns.block_ne (by omega) inside (by omega))
    · obtain ⟨level, levelMem, same⟩ := List.mem_map.mp isIndex
      have levelLt := List.mem_range.mp levelMem
      rw [← grows.indexAt level levelLt] at same
      exact absurd same.symm
        (owns.block_ne_index inside (lt_of_lt_of_le levelLt grows.indexes))
  · exact isTaken

/-- An inode that has grown by zeroed blocks stores the bytes with zeros behind. -/
theorem Stores.of_grows (stores : inode.Stores disk given bytes) {grown : DiskInode}
    {taken : List Nat} {newSize : Nat} (grows : (inode.map disk).Grows (grown.map later))
    (owns : (grown.map later).Owns (given ++ taken)) (blank : (grown.map later).Blank)
    (size : grown.size = newSize) (larger : bytes.length ≤ newSize) (bounded : newSize ≤ sizeBound)
    (zeroed : ∀ blockId ∈ taken, disk blockId = .zeroed) :
    grown.Stores later (given ++ taken) (writtenAt bytes newSize []) := by
  have length : (writtenAt bytes newSize []).length = newSize := by
    rw [length_writtenAt, List.length_nil]
    omega
  have blocks : (grown.map later).blocks = sizeBlocks newSize := congrArg sizeBlocks size
  refine ⟨owns, blank, size.trans length.symm, length.trans_le bounded, ?_⟩
  rw [length]
  intro position positionLt index indexLt
  have inside : position < (grown.map later).blocks := blocks.symm ▸ positionLt
  have sameBlock : later ((grown.map later).blockAt position) =
      disk ((grown.map later).blockAt position) :=
    grows.frame _ fun level levelLt => owns.block_ne_index inside levelLt
  have bytesEq : (writtenAt bytes newSize []).getD (blockSz * position + index) 0 =
      bytes.getD (blockSz * position + index) 0 := by
    rw [getD_writtenAt, List.length_nil, if_neg (by omega)]
  rw [sameBlock, bytesEq]
  by_cases isOld : position < sizeBlocks bytes.length
  · rw [grows.blockAt position (stores.blocks_eq.symm ▸ isOld)]
    exact stores.byte position isOld index indexLt
  · have isTaken := stores.new_block_mem grows owns (Nat.not_lt.mp isOld) inside
    have behind : bytes.length ≤ blockSz * position + index := by
      change ¬ position < (bytes.length + 511) / 512 at isOld
      change bytes.length ≤ 512 * position + index
      omega
    rw [zeroed _ isTaken, Bytes.get_zeroed, List.getD_eq_default _ _ behind]

end Stored

end DiskInode

end EasyFs

end OSWorkspace
