import OSWorkspace.Ext4ExtentMaps

/-!
# Reading through extents into a buffer

The read loop writes ranges of the caller's buffer and slices blocks, each
access checked against its bounds.  It writes the buffer from the front to the
end for every list of extents, and for a sorted list byte by byte what the
mapper of single blocks says.
-/

namespace OSWorkspace

namespace Ext4

def usizeMax : Nat := 2 ^ 64 - 1

/-- A slice of a cached block; a range past its end panics. -/
def getBytes (block : Block) (offset len : Nat) : Option (List UInt8) :=
  if offset + len ≤ blockSz then some (block.slice offset len) else none

/-- Fill a range of a buffer with zeros; a range that is not one panics. -/
def fillRange (buf : List UInt8) (start stop : Nat) : Option (List UInt8) :=
  if start ≤ stop ∧ stop ≤ buf.length then
    some (buf.take start ++ List.replicate (stop - start) 0 ++ buf.drop stop)
  else none

/-- Copy data to the range of its length in a buffer. -/
def copyRange (buf : List UInt8) (start : Nat) (data : List UInt8) : Option (List UInt8) :=
  if start + data.length ≤ buf.length then
    some (buf.take start ++ data ++ buf.drop (start + data.length))
  else none

/-- Copy `remaining` bytes of consecutive blocks; every round but one with
nothing left copies a byte, so that `remaining` rounds are enough. -/
def copyBlocksInto (disk : Nat → Block) :
    (fuel : Nat) → List UInt8 → (dstOff curBlock physOff remaining : Nat) → Option (List UInt8)
  | 0, buf, _, _, _, remaining => if remaining = 0 then some buf else none
  | fuel + 1, buf, dstOff, curBlock, physOff, remaining =>
      if remaining = 0 then some buf
      else do
        let toRead := min remaining (blockSz - physOff)
        let data ← getBytes (disk curBlock) physOff toRead
        let buf ← copyRange buf dstOff data
        copyBlocksInto disk fuel buf (dstOff + toRead) (curBlock + 1) 0 (remaining - toRead)

/-- One extent of the loop. -/
def readFromExtentInto (disk : Nat → Block) (fileStart fileEnd : Nat)
    (state : Nat × List UInt8) (extent : Ext4Extent) : Option (Nat × List UInt8) :=
  let coveredUntil := state.1
  let buf := state.2
  let extentStart := extent.start * blockSz
  let extentLen := extent.len * blockSz
  let extentEnd := min (extentStart + extentLen) usizeMax
  if extentEnd ≤ fileStart ∨ extentStart ≥ fileEnd then some state
  else
    let readStart := max extentStart fileStart
    let readEnd := min extentEnd fileEnd
    if readEnd ≤ readStart then some state
    else if readEnd ≤ coveredUntil then some state
    else do
      let copyStart := max readStart coveredUntil
      let buf ←
        (if copyStart > coveredUntil then
          fillRange buf (coveredUntil - fileStart) (copyStart - fileStart)
        else some buf)
      let offsetInExtent := copyStart - extentStart
      let buf ← copyBlocksInto disk (readEnd - copyStart) buf (copyStart - fileStart)
        (extent.startBlock + offsetInExtent / blockSz) (offsetInExtent % blockSz)
        (readEnd - copyStart)
      some (readEnd, buf)

/-- Read data from parsed extents: the buffer, and the length returned. -/
def readFromExtentsInto (disk : Nat → Block) (extents : List Ext4Extent) (offset : Nat)
    (buf : List UInt8) : Option (List UInt8 × Nat) := do
  let fileEnd := min (offset + buf.length) usizeMax
  let (coveredUntil, buf) ←
    extents.foldlM (readFromExtentInto disk offset fileEnd) (offset, buf)
  let buf ←
    (if coveredUntil < fileEnd then fillRange buf (coveredUntil - offset) buf.length
    else some buf)
  some (buf, buf.length)

/-- A buffer whose first bytes were replaced. -/
def overwritten (old bytes : List UInt8) : List UInt8 :=
  bytes ++ old.drop bytes.length

theorem length_overwritten {old bytes : List UInt8} (fits : bytes.length ≤ old.length) :
    (overwritten old bytes).length = old.length := by
  rw [overwritten, List.length_append, List.length_drop]
  omega

theorem take_overwritten (old bytes : List UInt8) :
    (overwritten old bytes).take bytes.length = bytes := by
  rw [overwritten, List.take_append_of_le_length (Nat.le_refl _), List.take_length]

theorem drop_overwritten (old bytes : List UInt8) (count : Nat) :
    (overwritten old bytes).drop (bytes.length + count) = old.drop (bytes.length + count) := by
  rw [overwritten, List.drop_append, List.drop_of_length_le (by omega), List.nil_append,
    List.drop_drop, Nat.add_sub_cancel_left]

theorem fillRange_overwritten {old bytes : List UInt8} {stop : Nat}
    (lower : bytes.length ≤ stop) (fits : stop ≤ old.length) :
    fillRange (overwritten old bytes) bytes.length stop =
      some (overwritten old (bytes ++ List.replicate (stop - bytes.length) 0)) := by
  have length := length_overwritten (lower.trans fits)
  have split : stop = bytes.length + (stop - bytes.length) := by omega
  rw [fillRange, if_pos ⟨lower, fits.trans_eq length.symm⟩, take_overwritten]
  conv_lhs => rw [split, drop_overwritten]
  rw [overwritten, List.length_append, List.length_replicate, Nat.add_sub_cancel_left]

theorem copyRange_overwritten {old bytes data : List UInt8}
    (fits : bytes.length + data.length ≤ old.length) :
    copyRange (overwritten old bytes) bytes.length data =
      some (overwritten old (bytes ++ data)) := by
  have length : (overwritten old bytes).length = old.length := length_overwritten (by omega)
  rw [copyRange, if_pos (fits.trans_eq length.symm), take_overwritten, drop_overwritten,
    overwritten, List.length_append]

theorem length_copyBlocks (disk : Nat → Block) {fuel curBlock physOff remaining : Nat}
    (enough : remaining ≤ fuel) (inside : physOff < blockSz) :
    (copyBlocks disk fuel curBlock physOff remaining).length = remaining := by
  rw [copyBlocks_eq disk enough inside, List.length_map, List.length_range]

/-- The copying loop stays within the buffer and the blocks. -/
theorem copyBlocksInto_overwritten (disk : Nat → Block) {old bytes : List UInt8}
    {fuel curBlock physOff remaining : Nat} (enough : remaining ≤ fuel)
    (inside : physOff < blockSz) (fits : bytes.length + remaining ≤ old.length) :
    copyBlocksInto disk fuel (overwritten old bytes) bytes.length curBlock physOff remaining =
      some (overwritten old (bytes ++ copyBlocks disk fuel curBlock physOff remaining)) := by
  induction fuel generalizing bytes curBlock physOff remaining with
  | zero =>
      obtain rfl : remaining = 0 := by omega
      rw [copyBlocksInto, if_pos rfl, copyBlocks, List.append_nil]
  | succ fuel ih =>
      rw [copyBlocksInto, copyBlocks]
      by_cases done : remaining = 0
      · rw [if_pos done, if_pos done, List.append_nil]
      · rw [if_neg done, if_neg done]
        have inBlock : physOff + min remaining (blockSz - physOff) ≤ blockSz := by omega
        have sliced : getBytes (disk curBlock) physOff (min remaining (blockSz - physOff)) =
            some ((disk curBlock).slice physOff (min remaining (blockSz - physOff))) :=
          if_pos inBlock
        have length := Bytes.length_slice (disk curBlock) physOff
          (min remaining (blockSz - physOff))
        have copied : copyRange (overwritten old bytes) bytes.length
            ((disk curBlock).slice physOff (min remaining (blockSz - physOff))) = _ :=
          copyRange_overwritten (by omega)
        have rest := @ih (bytes ++ (disk curBlock).slice physOff
          (min remaining (blockSz - physOff))) (curBlock + 1) 0
          (remaining - min remaining (blockSz - physOff)) (by omega) (by decide)
          (by rw [List.length_append, length]; omega)
        rw [List.length_append, length] at rest
        simp only [sliced, Option.bind_eq_bind, Option.bind_some, copied, rest,
          List.append_assoc]

/-- The bytes produced so far end where the covered part of the file ends. -/
structure Produced (fileStart fileEnd : Nat) (produced : Nat × List UInt8) : Prop where
  lower : fileStart ≤ produced.1
  upper : produced.1 ≤ fileEnd
  length : produced.2.length = produced.1 - fileStart

theorem extentEnd_lt (extent : Ext4Extent) :
    extent.start * blockSz + extent.len * blockSz ≤ 2 ^ 45 := by
  have start := extent.start_lt
  have len : extent.len < 0x8000 := by
    rw [extent.len_eq]
    exact Nat.mod_lt _ (by decide)
  simp only [blockSz]
  omega

variable {fileStart fileEnd : Nat}

theorem Produced.step (disk : Nat → Block) {produced : Nat × List UInt8}
    (before : Produced fileStart fileEnd produced) (extent : Ext4Extent) :
    Produced fileStart fileEnd (readFromExtent disk fileStart fileEnd produced extent) := by
  obtain ⟨lower, upper, length⟩ := before
  rw [readFromExtent]
  by_cases apart : extent.start * blockSz + extent.len * blockSz ≤ fileStart ∨
      extent.start * blockSz ≥ fileEnd
  · rw [if_pos apart]
    exact ⟨lower, upper, length⟩
  · rw [if_neg apart]
    by_cases skipped : min (extent.start * blockSz + extent.len * blockSz) fileEnd ≤
          max (extent.start * blockSz) fileStart ∨
        min (extent.start * blockSz + extent.len * blockSz) fileEnd ≤ produced.1
    · rw [if_pos skipped]
      exact ⟨lower, upper, length⟩
    · rw [if_neg skipped]
      refine ⟨?_, Nat.min_le_right _ _, ?_⟩
      · simp only
        omega
      · simp only [List.length_append, List.length_replicate]
        rw [length_copyBlocks disk (Nat.le_refl _) (Nat.mod_lt _ (by decide)), length]
        omega

/-- The gap before the copied bytes is filled. -/
theorem gap_overwritten {old bytes : List UInt8} {covered copyStart : Nat}
    (length : bytes.length = covered - fileStart) (lower : fileStart ≤ covered)
    (upper : covered ≤ copyStart) (fits : copyStart ≤ fileStart + old.length) :
    (if copyStart > covered then
      fillRange (overwritten old bytes) (covered - fileStart) (copyStart - fileStart)
    else some (overwritten old bytes)) =
      some (overwritten old (bytes ++ List.replicate (copyStart - covered) 0)) := by
  split
  · have count : copyStart - fileStart - bytes.length = copyStart - covered := by omega
    rw [← length, fillRange_overwritten (by omega) (by omega), count]
  · have noGap : copyStart - covered = 0 := by omega
    rw [noGap, List.replicate_zero, List.append_nil]

/-- One extent of the loop produces its bytes in the buffer. -/
theorem readFromExtentInto_overwritten (disk : Nat → Block) {old : List UInt8}
    {produced : Nat × List UInt8} (before : Produced fileStart fileEnd produced)
    (fits : fileEnd ≤ fileStart + old.length) (extent : Ext4Extent) :
    readFromExtentInto disk fileStart fileEnd (produced.1, overwritten old produced.2) extent =
      some ((readFromExtent disk fileStart fileEnd produced extent).1,
        overwritten old (readFromExtent disk fileStart fileEnd produced extent).2) := by
  obtain ⟨covered, bytes⟩ := produced
  obtain ⟨lower, upper, length⟩ := before
  simp only at lower upper length
  have notSaturated : min (extent.start * blockSz + extent.len * blockSz) usizeMax =
      extent.start * blockSz + extent.len * blockSz := by
    have small := extentEnd_lt extent
    simp only [usizeMax]
    omega
  rw [readFromExtentInto, readFromExtent]
  simp only [notSaturated]
  generalize extent.start * blockSz + extent.len * blockSz = extentEnd
  generalize extent.start * blockSz = extentStart
  by_cases apart : extentEnd ≤ fileStart ∨ extentStart ≥ fileEnd
  · rw [if_pos apart, if_pos apart]
  · rw [if_neg apart, if_neg apart]
    by_cases empty : min extentEnd fileEnd ≤ max extentStart fileStart
    · rw [if_pos empty, if_pos (Or.inl empty)]
    · rw [if_neg empty]
      by_cases behind : min extentEnd fileEnd ≤ covered
      · rw [if_pos behind, if_pos (Or.inr behind)]
      · rw [if_neg behind, if_neg (not_or.mpr ⟨empty, behind⟩)]
        have starts : max (max extentStart fileStart) covered < min extentEnd fileEnd := by omega
        have atLeast : covered ≤ max (max extentStart fileStart) covered := Nat.le_max_right _ _
        generalize max (max extentStart fileStart) covered = copyStart at starts atLeast
        have ends : min extentEnd fileEnd ≤ fileEnd := Nat.min_le_right _ _
        generalize min extentEnd fileEnd = readEnd at starts ends
        have filledLength : (bytes ++ List.replicate (copyStart - covered) 0).length =
            copyStart - fileStart := by
          rw [List.length_append, List.length_replicate, length]
          omega
        have copied := fun curBlock => @copyBlocksInto_overwritten disk old
          (bytes ++ List.replicate (copyStart - covered) 0) (readEnd - copyStart) curBlock
          ((copyStart - extentStart) % blockSz) (readEnd - copyStart) (Nat.le_refl _)
          (Nat.mod_lt _ (by decide)) (by omega)
        rw [filledLength] at copied
        rw [gap_overwritten length lower atLeast (by omega)]
        simp only [Option.bind_eq_bind, Option.bind_some, copied]

theorem readFromExtents_fold (disk : Nat → Block) {old : List UInt8}
    (fits : fileEnd ≤ fileStart + old.length) (extents : List Ext4Extent)
    {produced : Nat × List UInt8} (before : Produced fileStart fileEnd produced) :
    extents.foldlM (readFromExtentInto disk fileStart fileEnd)
        (produced.1, overwritten old produced.2) =
      some ((extents.foldl (readFromExtent disk fileStart fileEnd) produced).1,
        overwritten old (extents.foldl (readFromExtent disk fileStart fileEnd) produced).2) ∧
      Produced fileStart fileEnd
        (extents.foldl (readFromExtent disk fileStart fileEnd) produced) := by
  induction extents generalizing produced with
  | nil => exact ⟨rfl, before⟩
  | cons extent extents ih =>
      have rest := ih (before.step disk extent)
      rw [List.foldlM_cons, readFromExtentInto_overwritten disk before fits extent]
      exact rest

/-- No extent reaches the last position of a file. -/
theorem covered_le (disk : Nat → Block) (extents : List Ext4Extent)
    (produced : Nat × List UInt8) :
    (extents.foldl (readFromExtent disk fileStart fileEnd) produced).1 ≤
      max produced.1 (2 ^ 45) := by
  induction extents generalizing produced with
  | nil => exact Nat.le_max_left _ _
  | cons extent extents ih =>
      have small := extentEnd_lt extent
      refine (ih _).trans (max_le ?_ (Nat.le_max_right _ _))
      rw [readFromExtent]
      split
      · exact Nat.le_max_left _ _
      · simp only
        split
        · exact Nat.le_max_left _ _
        · simp only
          omega

/-- The end of the bytes that are asked for. -/
def readStop (offset length : Nat) : Nat := min (offset + length) usizeMax

/-- Reading fills the buffer up to the bytes that the extents cover, and the
rest with zeros unless there is nothing left up to the saturated end. -/
theorem readFromExtentsInto_eq (disk : Nat → Block) (extents : List Ext4Extent) {offset : Nat}
    (inWord : offset ≤ usizeMax) (buf : List UInt8) :
    ∃ produced, extents.foldl (readFromExtent disk offset (readStop offset buf.length))
        (offset, []) = produced ∧
      Produced offset (readStop offset buf.length) produced ∧
      readFromExtentsInto disk extents offset buf =
        some (if produced.1 < readStop offset buf.length then
          produced.2 ++ List.replicate (buf.length - produced.2.length) 0
        else overwritten buf produced.2, buf.length) := by
  have start : Produced offset (readStop offset buf.length) (offset, []) :=
    ⟨Nat.le_refl _, le_min (Nat.le_add_right _ _) inWord, by simp⟩
  have fits : readStop offset buf.length ≤ offset + buf.length := Nat.min_le_left _ _
  have whole : overwritten buf [] = buf := rfl
  obtain ⟨folded, produced⟩ := readFromExtents_fold disk fits extents start
  refine ⟨_, rfl, produced, ?_⟩
  rw [whole] at folded
  have stop : min (offset + buf.length) usizeMax = readStop offset buf.length := rfl
  rw [readFromExtentsInto, stop, folded]
  obtain ⟨lower, upper, length⟩ := produced
  generalize extents.foldl (readFromExtent disk offset (readStop offset buf.length))
    (offset, []) = produced at *
  simp only [Option.bind_eq_bind, Option.bind_some]
  by_cases short : produced.1 < readStop offset buf.length
  · have fewer : produced.2.length ≤ buf.length := by omega
    rw [if_pos short, if_pos short, ← length, length_overwritten fewer,
      fillRange_overwritten fewer (Nat.le_refl _)]
    have all : produced.2.length + (buf.length - produced.2.length) = buf.length := by omega
    simp only [Option.bind_some, overwritten, List.length_append, List.length_replicate, all,
      List.drop_length, List.append_nil]
  · rw [if_neg short, if_neg short]
    simp only [Option.bind_some]
    rw [length_overwritten (by omega)]

/-- Every list of extents is read within the buffer and the blocks. -/
theorem readFromExtentsInto_returns (disk : Nat → Block) (extents : List Ext4Extent)
    {offset : Nat} (inWord : offset ≤ usizeMax) (buf : List UInt8) :
    ∃ filled, readFromExtentsInto disk extents offset buf = some (filled, buf.length) ∧
      filled.length = buf.length := by
  obtain ⟨produced, -, ⟨lower, upper, length⟩, read⟩ :=
    readFromExtentsInto_eq disk extents inWord buf
  have fits : readStop offset buf.length ≤ offset + buf.length := Nat.min_le_left _ _
  refine ⟨_, read, ?_⟩
  split
  · rw [List.length_append, List.length_replicate]
    omega
  · exact length_overwritten (by omega)

/-- Where the end of the range is an offset, the buffer holds the bytes that the
reader of whole lists produces. -/
theorem readFromExtentsInto_readFromExtents (disk : Nat → Block) (extents : List Ext4Extent)
    {offset : Nat} {buf : List UInt8} (inWord : offset + buf.length ≤ usizeMax) :
    readFromExtentsInto disk extents offset buf =
      some (readFromExtents disk extents offset buf.length, buf.length) := by
  obtain ⟨produced, folded, ⟨lower, upper, length⟩, read⟩ :=
    readFromExtentsInto_eq disk extents (by omega : offset ≤ usizeMax) buf
  have stop : readStop offset buf.length = offset + buf.length := Nat.min_eq_left inWord
  rw [stop] at folded upper read
  rw [read, readFromExtents, folded]
  by_cases short : produced.1 < offset + buf.length
  · have count : offset + buf.length - produced.1 = buf.length - produced.2.length := by omega
    rw [if_pos short, count]
  · have none : offset + buf.length - produced.1 = 0 := by omega
    have all : buf.length ≤ produced.2.length := by omega
    rw [if_neg short, none, List.replicate_zero, overwritten, List.drop_of_length_le all]

/-- Sorted by logical block, no logical block in two extents, and no extent
beyond the last logical block. -/
structure Sorted (extents : List Ext4Extent) : Prop where
  sorted : extents.Pairwise fun first second => first.start ≤ second.start
  disjoint : extents.Pairwise fun first second => ∀ lblock,
    ¬ (first.start ≤ lblock ∧ lblock < first.start + first.len ∧
      second.start ≤ lblock ∧ lblock < second.start + second.len)
  bounded : Bounded extents

/-- The extents that cover a block. -/
def nonempty (extents : List Ext4Extent) : List Ext4Extent :=
  extents.filter fun extent => 0 < extent.len

theorem Sorted.ordered {extents : List Ext4Extent} (isSorted : Sorted extents) :
    Ordered (nonempty extents) := by
  have both := isSorted.sorted.and isSorted.disjoint
  refine (both.filter _).imp_of_mem fun {first second} firstMem secondMem => ?_
  have firstLen : 0 < first.len := by simpa using (List.mem_filter.mp firstMem).2
  have secondLen : 0 < second.len := by simpa using (List.mem_filter.mp secondMem).2
  rintro ⟨starts, disjoint⟩
  have apart := disjoint second.start
  omega

theorem Sorted.bounded_nonempty {extents : List Ext4Extent} (isSorted : Sorted extents) :
    Bounded (nonempty extents) := fun extent extentMem =>
  isSorted.bounded extent (List.mem_filter.mp extentMem).1

/-- An extent without blocks is passed over. -/
theorem readFromExtent_empty (disk : Nat → Block) (produced : Nat × List UInt8)
    {extent : Ext4Extent} (empty : extent.len = 0) :
    readFromExtent disk fileStart fileEnd produced extent = produced := by
  rw [readFromExtent, empty, Nat.zero_mul, Nat.add_zero]
  split
  · rfl
  · rw [if_pos (by omega)]

theorem foldl_nonempty (disk : Nat → Block) (extents : List Ext4Extent)
    (produced : Nat × List UInt8) :
    extents.foldl (readFromExtent disk fileStart fileEnd) produced =
      (nonempty extents).foldl (readFromExtent disk fileStart fileEnd) produced := by
  induction extents generalizing produced with
  | nil => rfl
  | cons extent extents ih =>
      by_cases covers : 0 < extent.len
      · have kept : nonempty (extent :: extents) = extent :: nonempty extents :=
          List.filter_cons_of_pos (by simpa using covers)
        rw [kept, List.foldl_cons, List.foldl_cons, ih]
      · have dropped : nonempty (extent :: extents) = nonempty extents :=
          List.filter_cons_of_neg (by simpa using covers)
        rw [dropped, List.foldl_cons, readFromExtent_empty disk produced (by omega), ih]

theorem mapLogicalBlock_nonempty (extents : List Ext4Extent) (lblock : Nat) :
    mapLogicalBlock extents lblock = mapLogicalBlock (nonempty extents) lblock := by
  induction extents with
  | nil => rfl
  | cons extent extents ih =>
      by_cases covers : 0 < extent.len
      · have kept : nonempty (extent :: extents) = extent :: nonempty extents :=
          List.filter_cons_of_pos (by simpa using covers)
        rw [kept, mapLogicalBlock, mapLogicalBlock, ih]
      · have dropped : nonempty (extent :: extents) = nonempty extents :=
          List.filter_cons_of_neg (by simpa using covers)
        rw [dropped, mapLogicalBlock, if_neg, ih]
        simp only [Ext4Extent.lend]
        omega

/-- The byte at a position of a file as the mapper of single blocks says. -/
def mappedByte (disk : Nat → Block) (extents : List Ext4Extent) (position : Nat) : UInt8 :=
  match mapLogicalBlock extents (position / blockSz) with
  | some block => (disk block).get (position % blockSz)
  | none => 0

theorem mappedByte_eq (disk : Nat → Block) {extents : List Ext4Extent}
    (isSorted : Sorted extents) (position : Nat) :
    mappedByte disk extents position = byteAt disk (nonempty extents) position := by
  rw [mappedByte, mapLogicalBlock_nonempty]
  cases mapped : mapLogicalBlock (nonempty extents) (position / blockSz) with
  | some block =>
      exact (byteAt_of_maps isSorted.ordered (maps_of_mapLogicalBlock mapped)).symm
  | none =>
      refine (byteAt_of_unmapped fun block maps => ?_).symm
      obtain ⟨extent, extentMem, covers⟩ := maps
      have small : position / blockSz < u32Max :=
        lt_of_lt_of_le covers.2.1 (isSorted.bounded_nonempty extent extentMem)
      obtain ⟨other, isMapped⟩ := exists_mapLogicalBlock small ⟨extent, extentMem, covers⟩
      rw [mapped] at isMapped
      cases isMapped

/-- Positions from the saturated end on lie behind all extents. -/
theorem mappedByte_of_le (disk : Nat → Block) (extents : List Ext4Extent) {position : Nat}
    (large : usizeMax ≤ position) : mappedByte disk extents position = 0 := by
  have behind : 2 ^ 52 - 1 ≤ position / blockSz := by
    simp only [usizeMax] at large
    simp only [blockSz]
    omega
  have unmapped : mapLogicalBlock extents (position / blockSz) = none := by
    cases mapped : mapLogicalBlock extents (position / blockSz) with
    | none => rfl
    | some block =>
        obtain ⟨extent, extentMem, covers⟩ := maps_of_mapLogicalBlock mapped
        have small := extentEnd_lt extent
        have upper := covers.2.1
        simp only [blockSz] at behind small upper
        omega
  rw [mappedByte, unmapped]

/-- Reading and mapping agree on every byte, below the last offset of a word. -/
theorem readFromExtentsInto_mapped (disk : Nat → Block) {extents : List Ext4Extent}
    (isSorted : Sorted extents) {offset : Nat} {buf : List UInt8}
    (inWord : offset ≤ usizeMax) (before : offset < usizeMax ∨ buf = []) :
    readFromExtentsInto disk extents offset buf =
      some ((List.range buf.length).map fun index => mappedByte disk extents (offset + index),
        buf.length) := by
  obtain ⟨produced, folded, ⟨lower, upper, length⟩, read⟩ :=
    readFromExtentsInto_eq disk extents inWord buf
  have stopLe : readStop offset buf.length ≤ offset + buf.length := Nat.min_le_left _ _
  have offsetLe : offset ≤ readStop offset buf.length := lower.trans upper
  -- The bytes up to the saturated end.
  have bytes : produced.2 ++ List.replicate (readStop offset buf.length - produced.1) 0 =
      (List.range (readStop offset buf.length - offset)).map fun index =>
        mappedByte disk extents (offset + index) := by
    have loop := readFromExtents_loop disk isSorted.ordered [] (Nat.le_refl offset) offsetLe
    rw [← foldl_nonempty, folded, List.nil_append] at loop
    rw [loop]
    exact List.map_congr_left fun index _ => (mappedByte_eq disk isSorted _).symm
  -- No bytes of extents lie behind it.
  have behind : (List.range buf.length).map (fun index =>
        mappedByte disk extents (offset + index)) =
      produced.2 ++ List.replicate (readStop offset buf.length - produced.1) 0 ++
        List.replicate (buf.length - (readStop offset buf.length - offset)) 0 := by
    have split : buf.length = (readStop offset buf.length - offset) +
        (buf.length - (readStop offset buf.length - offset)) := by omega
    conv_lhs => rw [split, List.range_add, List.map_append, ← bytes, List.map_map]
    congr 1
    refine List.eq_replicate_iff.mpr ⟨by rw [List.length_map, List.length_range], ?_⟩
    intro byte byteMem
    obtain ⟨index, indexMem, rfl⟩ := List.mem_map.mp byteMem
    have indexLt := List.mem_range.mp indexMem
    refine mappedByte_of_le disk extents ?_
    have saturated : readStop offset buf.length = usizeMax := by
      simp only [readStop] at indexLt ⊢
      omega
    simp only
    omega
  rw [read, behind, List.append_assoc, List.replicate_append_replicate]
  by_cases short : produced.1 < readStop offset buf.length
  · have count : buf.length - produced.2.length = readStop offset buf.length - produced.1 +
        (buf.length - (readStop offset buf.length - offset)) := by omega
    rw [if_pos short, count]
  · have covered := @covered_le offset (readStop offset buf.length) disk extents (offset, [])
    rw [folded] at covered
    have notSaturated : readStop offset buf.length = offset + buf.length := by
      rcases before with small | rfl
      · simp only [readStop, usizeMax] at *
        omega
      · exact Nat.min_eq_left inWord
    have none : readStop offset buf.length - produced.1 +
        (buf.length - (readStop offset buf.length - offset)) = 0 := by omega
    have all : buf.length ≤ produced.2.length := by omega
    rw [if_neg short, none, List.replicate_zero, List.append_nil, overwritten,
      List.drop_of_length_le all, List.append_nil]

/-- Reading stays within the buffer and the blocks and returns the length of the
buffer, and through a sorted list it fills the buffer as the mapper says. -/
theorem readFromExtentsInto_agrees (disk : Nat → Block) (extents : List Ext4Extent)
    (offset : UInt64) (buf : List UInt8) :
    (∃ filled, readFromExtentsInto disk extents offset.toNat buf = some (filled, buf.length) ∧
      filled.length = buf.length) ∧
    (Sorted extents → offset.toNat < usizeMax ∨ buf = [] →
      readFromExtentsInto disk extents offset.toNat buf =
        some ((List.range buf.length).map fun index =>
          mappedByte disk extents (offset.toNat + index), buf.length)) := by
  have inWord : offset.toNat ≤ usizeMax := Nat.le_sub_one_of_lt offset.toNat_lt
  exact ⟨readFromExtentsInto_returns disk extents inWord buf,
    fun isSorted before => readFromExtentsInto_mapped disk isSorted inWord before⟩

/-- A hole of one byte and the first bytes of a block. -/
theorem readFromExtentsInto_agrees_hole :
    readFromExtentsInto (fun _ => .filled 5) [⟨1, 1, 0, 7⟩] 4095 [9, 9, 9] =
      some ([0, 5, 5], 3) := by
  have isSorted : Sorted [⟨1, 1, 0, 7⟩] :=
    ⟨List.pairwise_singleton _ _, List.pairwise_singleton _ _, by
      intro extent extentMem
      rw [List.mem_singleton.mp extentMem]
      decide⟩
  have read := (readFromExtentsInto_agrees (fun _ => .filled 5) [⟨1, 1, 0, 7⟩] 4095
    [9, 9, 9]).2 isSorted (Or.inl (by decide))
  have bytes : (List.range 3).map (fun index =>
      mappedByte (fun _ => .filled 5) [⟨1, 1, 0, 7⟩] (4095 + index)) = [0, 5, 5] := by
    decide
  exact read.trans (congrArg (fun filled => some (filled, 3)) bytes)

/-- At the last offset of a word the saturated end leaves nothing to fill. -/
theorem readFromExtentsInto_not_filled :
    ¬ ∀ (disk : Nat → Block) (extents : List Ext4Extent) (offset : UInt64) (buf : List UInt8),
      Sorted extents → readFromExtentsInto disk extents offset.toNat buf =
        some ((List.range buf.length).map fun index =>
          mappedByte disk extents (offset.toNat + index), buf.length) := by
  intro agrees
  have isSorted : Sorted [] := ⟨List.Pairwise.nil, List.Pairwise.nil, by simp [Bounded]⟩
  have wrong := agrees (fun _ => .zeroed) [] 0xFFFFFFFFFFFFFFFF [1] isSorted
  have left : readFromExtentsInto (fun _ => .zeroed) [] (0xFFFFFFFFFFFFFFFF : UInt64).toNat [1] =
      some ([1], 1) := by
    decide
  rw [left] at wrong
  exact absurd wrong (by decide)

end Ext4

end OSWorkspace
