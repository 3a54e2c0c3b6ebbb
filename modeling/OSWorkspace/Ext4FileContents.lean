import OSWorkspace.Ext4FileReading
import OSWorkspace.Ext4FileWriting

/-!
# The bytes of a file

The contents of a file under its operations: extending the map changes no
byte, copying a buffer changes the bytes of its range, and giving back all
blocks leaves an empty file.
-/

namespace OSWorkspace

namespace Ext4

open Exec View

/-- Blocks listed once are mapped once. -/
theorem Maps.injective {extents : List Ext4Extent} (nodup : (dataBlocks extents).Nodup)
    {first second pblock : Nat} (firstMaps : Maps extents first pblock)
    (secondMaps : Maps extents second pblock) : first = second := by
  obtain ⟨firstExtent, firstMem, firstCovers⟩ := firstMaps
  obtain ⟨secondExtent, secondMem, secondCovers⟩ := secondMaps
  by_cases same : firstExtent = secondExtent
  · subst same
    obtain ⟨firstLower, _, firstEq⟩ := firstCovers
    obtain ⟨secondLower, _, secondEq⟩ := secondCovers
    omega
  · have symmetric : Std.Symm (Function.onFun List.Disjoint Ext4Extent.blocks) :=
      ⟨fun _ _ apart blockId isFirst isSecond => apart isSecond isFirst⟩
    have disjoint := (List.nodup_flatMap.mp nodup).2.forall firstMem secondMem same
    exact absurd secondCovers.mem_blocks (disjoint firstCovers.mem_blocks)

/-- The bytes depend on the data blocks only. -/
theorem byteAt_congr {first second : Nat → Block} {extents : List Ext4Extent}
    (agree : ∀ blockId ∈ dataBlocks extents, first blockId = second blockId) (position : Nat) :
    byteAt first extents position = byteAt second extents position := by
  induction extents with
  | nil => rfl
  | cons extent extents ih =>
      have inHead {blockId : Nat} (blockMem : blockId ∈ extent.blocks) :
          blockId ∈ dataBlocks (extent :: extents) :=
        List.mem_flatMap.mpr ⟨extent, List.mem_cons_self, blockMem⟩
      have inTail (blockId : Nat) (blockMem : blockId ∈ dataBlocks extents) :
          blockId ∈ dataBlocks (extent :: extents) := by
        rw [dataBlocks, List.flatMap_cons]
        exact List.mem_append_right _ blockMem
      rw [byteAt, byteAt, ih fun blockId blockMem => agree blockId (inTail blockId blockMem)]
      split
      · next inside =>
          rw [agree _ (inHead (Ext4Extent.Covers.mem_blocks ⟨inside.1, inside.2, rfl⟩))]
      · rfl

/-- New blocks are zero, so that extending a map changes no byte. -/
theorem Extended.byteAt_eq {reserved : Set Nat} {inodeNum : Nat} {view after : View}
    {new : List Nat} {result : List Ext4Extent}
    (extended : Extended reserved inodeNum view new result after)
    (grows : Grows (view.extents inodeNum) new result) (tidy : Tidy (view.extents inodeNum))
    (position : Nat) :
    byteAt after.data result position = byteAt view.data (view.extents inodeNum) position := by
  have resultTidy := grows.tidy tidy
  by_cases mapped : ∃ p, Maps (view.extents inodeNum) (position / blockSz) p
  · obtain ⟨p, maps⟩ := mapped
    rw [byteAt_of_maps tidy.ordered maps, byteAt_of_maps resultTidy.ordered (grows.kept _ _ maps),
      extended.data p maps.mem_dataBlocks]
  · have unmapped (p : Nat) : ¬ Maps (view.extents inodeNum) (position / blockSz) p :=
      fun maps => mapped ⟨p, maps⟩
    rw [byteAt_of_unmapped unmapped]
    by_cases mappedNow : ∃ p, Maps result (position / blockSz) p
    · obtain ⟨p, maps⟩ := mappedNow
      rcases grows.added _ _ maps with isOld | ⟨isNew, _⟩
      · exact absurd isOld (unmapped p)
      · rw [byteAt_of_maps resultTidy.ordered maps, extended.zero p isNew, Bytes.get_zeroed]
    · exact byteAt_of_unmapped fun p maps => mappedNow ⟨p, maps⟩

/-- A step that only fills the cache of extents. -/
structure ReadStep (reserved : Set Nat) (inodeNum : Nat) (view after : View) : Prop where
  state : after = { view with extentsCache := after.extentsCache }
  step : FileStep reserved inodeNum view after

/-- The bytes behind the data blocks of an inode are the same on disk. -/
theorem byteAt_view {volume : Volume} {reserved : Set Nat}
    (mounted : volume.view.Mounted reserved) {inodeNum : Nat}
    (owning : volume.view.Owning reserved inodeNum) (position : Nat) :
    byteAt volume.disk (volume.view.extents inodeNum) position =
      byteAt volume.view.data (volume.view.extents inodeNum) position := by
  apply byteAt_congr
  intro blockId isData
  have outside : ¬ volume.fs.IsBitmap blockId := fun isBitmap =>
    owning.outside blockId (View.mem_owned.mpr (Or.inl isData))
      (mounted.layout.bitmaps blockId isBitmap)
  rw [Volume.data_of_not_bitmap outside]

section Reading

variable {volume : Volume} {reserved : Set Nat} (mounted : volume.view.Mounted reserved)
  {inodeNum : Nat} (isInode : volume.view.fs.IsInode inodeNum)
  (owning : volume.view.Owning reserved inodeNum) (coherent : volume.view.Coherent inodeNum)
  (usesExtents : (volume.view.inode inodeNum).usesExtents = true)

include mounted isInode

theorem inodeOf_handle :
    volume.inodeOf (volume.view.fs.handle inodeNum) = volume.view.inode inodeNum := by
  obtain ⟨_, _, outside, _⟩ := mounted.layout.handle_spec mounted.geometry isInode
  rw [Volume.inodeOf, View.inode, Volume.data_of_not_bitmap outside]

include owning usesExtents

theorem extentsOf_handle :
    volume.extentsOf (volume.view.fs.handle inodeNum) = volume.view.extents inodeNum := by
  rw [Volume.extentsOf, inodeOf_handle mounted isInode, (tree_of_owning mounted owning).1,
    View.extents, if_pos usesExtents]

include coherent

theorem readStep_of_filled {after : Volume}
    (filled : volume.Filled (volume.view.fs.handle inodeNum) after) :
    ReadStep reserved inodeNum volume.view after.view := by
  have same := (@FileStep.of_frame reserved inodeNum volume.view volume.view mounted isInode owning
    coherent rfl rfl (fun _ isHeld => isHeld) (fun _ _ => rfl) rfl rfl).1
  rcases filled with rfl | ran
  · exact ⟨rfl, same⟩
  · obtain ⟨other, put, cache, otherView, shrinks, found⟩ :=
      view_extentsCachePut volume inodeNum (volume.view.extents inodeNum)
    have sameAfter : other = after := by
      rw [extentsOf_handle mounted isInode owning usesExtents] at ran
      rw [show (volume.view.fs.handle inodeNum).inodeNum = inodeNum from rfl, put] at ran
      cases ran
      rfl
    rw [← sameAfter, otherView]
    refine ⟨rfl, same.withCaches shrinks ?_⟩
    intro cached cachedFound
    rw [found, Option.some.injEq] at cachedFound
    exact cachedFound.symm

theorem view_readAt (notInline : ¬ ((volume.view.inode inodeNum).isSymlink = true ∧
      (volume.view.inode inodeNum).size ≤ iBlockSize))
    (ordered : Ordered (volume.view.extents inodeNum)) (offset : Nat) (buf : List UInt8) :
    ∃ after, ((volume.view.fs.handle inodeNum).readAt offset buf).run volume =
        .ok (min buf.length ((volume.view.inode inodeNum).size - offset),
          (List.range (min buf.length ((volume.view.inode inodeNum).size - offset))).map
            (fun index => byteAt volume.view.data (volume.view.extents inodeNum)
              (offset + index)) ++
          buf.drop (min buf.length ((volume.view.inode inodeNum).size - offset))) after ∧
      ReadStep reserved inodeNum volume.view after.view := by
  obtain ⟨_, _, _, fits⟩ := mounted.layout.handle_spec mounted.geometry isInode
  have inodeEq := inodeOf_handle mounted isInode
  have extentsEq := extentsOf_handle mounted isInode owning usesExtents
  obtain ⟨after, ran, filled⟩ := Inode.run_readAt fits (by rw [inodeEq]; exact notInline)
    (by rw [inodeEq]; exact usesExtents) (by
      intro cached found
      rw [extentsEq]
      exact coherent cached found) (by rw [extentsEq]; exact ordered) offset buf
  refine ⟨after, ?_, readStep_of_filled mounted isInode owning coherent usesExtents filled⟩
  rw [ran, inodeEq, extentsEq]
  congr 4
  funext index
  exact byteAt_view mounted owning _

theorem view_readAll (notInline : ¬ ((volume.view.inode inodeNum).isSymlink = true ∧
      (volume.view.inode inodeNum).size ≤ iBlockSize))
    (ordered : Ordered (volume.view.extents inodeNum)) :
    ∃ after, (volume.view.fs.handle inodeNum).readAll.run volume =
        .ok ((List.range (volume.view.inode inodeNum).size).map
          (byteAt volume.view.data (volume.view.extents inodeNum))) after := by
  obtain ⟨after, ran, _⟩ := view_readAt mounted isInode owning coherent usesExtents notInline
    ordered 0 (List.replicate (volume.view.inode inodeNum).size 0)
  refine ⟨after, ?_⟩
  rw [Inode.readAll, Inode.size, run_bind_ok (run_bind_ok (view_readDiskInode mounted.layout
    mounted.geometry isInode)), run_bind_ok ran]
  simp only [List.length_replicate, Nat.sub_zero, Nat.min_self, Nat.zero_add, List.drop_replicate,
    Nat.sub_self, List.replicate_zero, List.append_nil]
  rfl

end Reading

/-- A byte after writing a buffer over old contents. -/
def writtenByte (old : Nat → UInt8) (offset : Nat) (buf : List UInt8) (position : Nat) : UInt8 :=
  if offset ≤ position ∧ position < offset + buf.length then buf.getD (position - offset) 0
  else old position

theorem writtenByte_nil (old : Nat → UInt8) (offset position : Nat) :
    writtenByte old offset [] position = old position := by
  rw [writtenByte, if_neg (by simp)]

/-- Writing a buffer in two parts. -/
theorem writtenByte_split (old : Nat → UInt8) (offset : Nat) (buf : List UInt8) {count : Nat}
    (countLe : count ≤ buf.length) (position : Nat) :
    writtenByte (writtenByte old offset (buf.take count)) (offset + count) (buf.drop count)
      position = writtenByte old offset buf position := by
  have takeLength : (buf.take count).length = count := by simp [countLe]
  simp only [writtenByte, takeLength, List.length_drop]
  by_cases inSecond : offset + count ≤ position ∧ position < offset + buf.length
  · rw [if_pos (by omega), if_pos (by omega)]
    simp only [List.getD_eq_getElem?_getD, List.getElem?_drop]
    congr 2
    omega
  · rw [if_neg (by omega)]
    by_cases inFirst : offset ≤ position ∧ position < offset + count
    · rw [if_pos inFirst, if_pos (by omega)]
      simp only [List.getD_eq_getElem?_getD]
      rw [List.getElem?_take_of_lt (by omega)]
    · rw [if_neg inFirst, if_neg (by omega)]

/-- Writing inside one mapped block. -/
theorem byteAt_update {disk : Nat → Block} {extents : List Ext4Extent}
    (ordered : Ordered extents) (nodup : (dataBlocks extents).Nodup) {offset pblock : Nat}
    (maps : Maps extents (offset / blockSz) pblock) {chunk : List UInt8}
    (fits : offset % blockSz + chunk.length ≤ blockSz) (position : Nat) :
    byteAt (Function.update disk pblock ((disk pblock).write (offset % blockSz) chunk)) extents
        position =
      writtenByte (byteAt disk extents) offset chunk position := by
  have blockPositive : 0 < blockSz := by decide
  have offsetEq := Nat.div_add_mod offset blockSz
  have positionEq := Nat.div_add_mod position blockSz
  have positionLt := Nat.mod_lt position blockPositive
  by_cases sameBlock : position / blockSz = offset / blockSz
  · have positionMaps : Maps extents (position / blockSz) pblock := by rwa [sameBlock]
    rw [sameBlock] at positionEq
    rw [byteAt_of_maps ordered positionMaps, Function.update_self, Bytes.write,
      Bytes.get_overlay _ _ _ _ positionLt, writtenByte, byteAt_of_maps ordered positionMaps]
    by_cases inside : offset ≤ position ∧ position < offset + chunk.length
    · rw [if_pos inside, if_pos (by omega)]
      congr 1
      omega
    · rw [if_neg inside, if_neg (by omega)]
  · have outside : ¬ (offset ≤ position ∧ position < offset + chunk.length) := by
      rintro ⟨lower, upper⟩
      apply sameBlock
      apply Nat.le_antisymm
      · apply Nat.le_of_lt_succ
        rw [Nat.div_lt_iff_lt_mul blockPositive, Nat.succ_mul, Nat.mul_comm]
        omega
      · exact Nat.div_le_div_right lower
    rw [writtenByte, if_neg outside]
    by_cases mapped : ∃ p, Maps extents (position / blockSz) p
    · obtain ⟨p, positionMaps⟩ := mapped
      rw [byteAt_of_maps ordered positionMaps, byteAt_of_maps ordered positionMaps,
        Function.update_of_ne]
      rintro rfl
      exact sameBlock (positionMaps.injective nodup maps)
    · have unmapped (p : Nat) : ¬ Maps extents (position / blockSz) p :=
        fun positionMaps => mapped ⟨p, positionMaps⟩
      rw [byteAt_of_unmapped unmapped, byteAt_of_unmapped unmapped]

/-- Only the data blocks of the extents differ. -/
structure DataStep (extents : List Ext4Extent) (view after : View) : Prop where
  state : after = { view with data := after.data }
  data : ∀ blockId, blockId ∉ dataBlocks extents → after.data blockId = view.data blockId

theorem DataStep.refl (extents : List Ext4Extent) (view : View) : DataStep extents view view :=
  ⟨rfl, fun _ _ => rfl⟩

theorem DataStep.trans {extents : List Ext4Extent} {view after last : View}
    (first : DataStep extents view after) (second : DataStep extents after last) :
    DataStep extents view last := by
  refine ⟨?_, ?_⟩
  · rw [second.state, first.state]
  · intro blockId outside
    rw [second.data blockId outside, first.data blockId outside]

/-- The bytes behind the 32-bit logical blocks. -/
def addressable : Nat := 2 ^ 32 * blockSz

/-- The logical block of a byte of the buffer, in 32 bits. -/
def bufferBlock (offset index : Nat) : Nat := (offset + index) / blockSz % 2 ^ 32

theorem mapLogicalBlock_lt {extents : List Ext4Extent} {lblock pblock : Nat}
    (mapped : mapLogicalBlock extents lblock = some pblock) : lblock < u32Max := by
  induction extents with
  | nil => cases mapped
  | cons extent extents ih =>
      rw [mapLogicalBlock] at mapped
      split at mapped
      · next inside =>
          have upper := inside.2
          rw [Ext4Extent.lend] at upper
          omega
      · exact ih mapped

theorem mapLogicalBlock_ne_none {extents : List Ext4Extent} {lblock : Nat} :
    mapLogicalBlock extents lblock ≠ none ↔ lblock < u32Max ∧ ∃ p, Maps extents lblock p := by
  constructor
  · intro isSome
    obtain ⟨pblock, mapped⟩ := Option.ne_none_iff_exists'.mp isSome
    exact ⟨mapLogicalBlock_lt mapped, pblock, maps_of_mapLogicalBlock mapped⟩
  · rintro ⟨small, pblock, maps⟩
    obtain ⟨other, found⟩ := exists_mapLogicalBlock small maps
    rw [found]
    simp

/-- The index lies before the first byte of the buffer with an unmapped block. -/
def Reaches (extents : List Ext4Extent) (offset index : Nat) : Prop :=
  ∀ earlier ≤ index, mapLogicalBlock extents (bufferBlock offset earlier) ≠ none

theorem reaches_add {extents : List Ext4Extent} {offset first count : Nat}
    (mapped : ∀ index < first, mapLogicalBlock extents (bufferBlock offset index) ≠ none)
    (behind : ∀ index, bufferBlock offset (first + index) = bufferBlock (offset + first) index)
    (rest : ∀ index, index < count ↔ Reaches extents (offset + first) index) (index : Nat) :
    index < first + count ↔ Reaches extents offset index := by
  by_cases inside : index < first
  · refine ⟨fun _ earlier earlierLe => mapped earlier (by omega), fun _ => by omega⟩
  · obtain ⟨later, rfl⟩ := Nat.exists_eq_add_of_le (Nat.not_lt.mp inside)
    rw [Nat.add_lt_add_iff_left, rest later]
    constructor
    · intro reaches earlier earlierLe
      by_cases early : earlier < first
      · exact mapped earlier early
      · obtain ⟨position, rfl⟩ := Nat.exists_eq_add_of_le (Nat.not_lt.mp early)
        rw [behind]
        exact reaches position (by omega)
    · intro reaches earlier earlierLe
      rw [← behind]
      exact reaches (first + earlier) (by omega)

/-- Before the first unmapped block no position wraps around. -/
theorem Reaches.mod_add {extents : List Ext4Extent} {offset index : Nat}
    (reaches : Reaches extents offset index) :
    (offset + index) % addressable = offset % addressable + index := by
  by_contra wraps
  have beyond : addressable ≤ offset % addressable + index := by
    simp only [addressable, blockSz] at wraps ⊢
    omega
  have lastBlock : bufferBlock offset (addressable - blockSz - offset % addressable) = u32Max := by
    simp only [bufferBlock, addressable, blockSz, u32Max]
    omega
  cases mapped : mapLogicalBlock extents
      (bufferBlock offset (addressable - blockSz - offset % addressable)) with
  | none => exact reaches _ (by omega) mapped
  | some pblock =>
      have small := mapLogicalBlock_lt mapped
      omega

/-- A buffer was copied over mapped blocks, from its offset in the addressable
range on. -/
structure Copied (extents : List Ext4Extent) (offset : Nat) (buf : List UInt8)
    (view after : View) : Prop where
  step : DataStep extents view after
  bytes : Ordered extents → (dataBlocks extents).Nodup → ∀ position,
    byteAt after.data extents position =
      writtenByte (byteAt view.data extents) (offset % addressable) buf position

/-- A copy that fails has written the bytes before the first unmapped block. -/
structure CopyFails (extents : List Ext4Extent) (offset : Nat) (buf : List UInt8)
    (count : Nat) (view after : View) : Prop
    extends Copied extents offset (buf.take count) view after where
  countLt : count < buf.length
  reaches : ∀ index, index < count ↔ Reaches extents offset index

section Copying

variable {extents : List Ext4Extent}

theorem Copied.nil (offset : Nat) (view : View) : Copied extents offset [] view view :=
  ⟨DataStep.refl _ _, fun _ _ position => (writtenByte_nil _ _ position).symm⟩

theorem Copied.append {view middle after : View} {offset : Nat} {first rest : List UInt8}
    (copied : Copied extents offset first view middle)
    (more : Copied extents (offset + first.length) rest middle after)
    (inRange : (offset + first.length) % addressable = offset % addressable + first.length) :
    Copied extents offset (first ++ rest) view after := by
  refine ⟨copied.step.trans more.step, ?_⟩
  intro ordered nodup position
  have split := writtenByte_split (byteAt view.data extents) (offset % addressable)
    (first ++ rest) (by simp : first.length ≤ (first ++ rest).length) position
  rw [List.take_left, List.drop_left] at split
  rw [more.bytes ordered nodup position, inRange, funext (copied.bytes ordered nodup), split]

/-- One round of the copying loop. -/
theorem run_writeMapped_cons {volume : Volume} {reserved : Set Nat}
    (mounted : volume.view.Mounted reserved)
    (outside : ∀ blockId ∈ dataBlocks extents, blockId ∉ reserved) (fuel offset : Nat)
    (byte : UInt8) (bytes : List UInt8) {pblock : Nat}
    (mapped : mapLogicalBlock extents (offset / blockSz % 2 ^ 32) = some pblock) :
    ∃ after, (writeMapped extents (fuel + 1) offset (byte :: bytes)).run volume =
        (writeMapped extents fuel
          (offset + min (byte :: bytes).length (blockSz - offset % blockSz))
          ((byte :: bytes).drop
            (min (byte :: bytes).length (blockSz - offset % blockSz)))).run after ∧
      Copied extents offset ((byte :: bytes).take
        (min (byte :: bytes).length (blockSz - offset % blockSz))) volume.view after.view := by
  have maps := maps_of_mapLogicalBlock mapped
  have notBitmap : ¬ volume.fs.IsBitmap pblock := fun isBitmap =>
    outside pblock maps.mem_dataBlocks (mounted.layout.bitmaps pblock isBitmap)
  generalize chunkEq : (byte :: bytes).take
    (min (byte :: bytes).length (blockSz - offset % blockSz)) = chunk
  refine ⟨volume.putBlock pblock ((volume.disk pblock).write (offset % blockSz) chunk), ?_, ?_⟩
  · rw [writeMapped, mapped, run_bind_ok (run_okOr_some _ _ _), run_bind_ok (run_readBlock _ _),
      run_bind_ok (run_writeBlock _ _ _), ← chunkEq]
  · rw [Volume.view_putBlock (Volume.geometry_view.mp mounted.geometry) notBitmap,
      ← Volume.data_of_not_bitmap notBitmap]
    refine ⟨⟨rfl, fun blockId notMem => Function.update_of_ne (fun same => notMem (by
      rw [same]; exact maps.mem_dataBlocks)) _ _⟩, ?_⟩
    intro ordered nodup position
    have sameOffset : offset % blockSz = offset % addressable % blockSz := by
      simp only [addressable, blockSz]
      omega
    have sameBlock : offset / blockSz % 2 ^ 32 = offset % addressable / blockSz := by
      simp only [addressable, blockSz]
      omega
    rw [sameBlock] at maps
    rw [sameOffset]
    refine byteAt_update ordered nodup maps ?_ position
    have small := Nat.mod_lt offset (by decide : 0 < blockSz)
    rw [← chunkEq, List.length_take, ← sameOffset]
    omega

/-- A copy writes its whole buffer when every byte has a block, and stops at the
first byte without one. -/
theorem view_writeMapped {volume : Volume} {reserved : Set Nat}
    (mounted : volume.view.Mounted reserved)
    (outside : ∀ blockId ∈ dataBlocks extents, blockId ∉ reserved) {fuel offset : Nat}
    {buf : List UInt8} (enough : buf.length ≤ fuel) :
    ((∀ index < buf.length, mapLogicalBlock extents (bufferBlock offset index) ≠ none) ∧
      ∃ after, (writeMapped extents fuel offset buf).run volume = .ok () after ∧
        Copied extents offset buf volume.view after.view) ∨
    ((∃ index < buf.length, mapLogicalBlock extents (bufferBlock offset index) = none) ∧
      ∃ after count, (writeMapped extents fuel offset buf).run volume =
          .err .unsupported after ∧
        CopyFails extents offset buf count volume.view after.view) := by
  induction fuel generalizing volume offset buf with
  | zero =>
      have noBytes := List.eq_nil_of_length_eq_zero (Nat.le_zero.mp enough)
      subst noBytes
      exact Or.inl ⟨by simp, volume, rfl, Copied.nil _ _⟩
  | succ fuel ih =>
      cases buf with
      | nil => exact Or.inl ⟨by simp, volume, rfl, Copied.nil _ _⟩
      | cons byte bytes =>
          cases mapped : mapLogicalBlock extents (offset / blockSz % 2 ^ 32) with
          | none =>
              refine Or.inr ⟨⟨0, by simp, mapped⟩, volume, 0, ?_, Copied.nil _ _, by simp, ?_⟩
              · rw [writeMapped, mapped, run_bind_err (run_okOr_none _ _)]
              · intro index
                refine ⟨fun below => absurd below (by omega), ?_⟩
                intro reaches
                exact absurd mapped (reaches 0 (Nat.zero_le _))
          | some pblock =>
              obtain ⟨middle, ran, chunk⟩ := run_writeMapped_cons mounted outside fuel offset
                byte bytes mapped
              generalize bufEq : byte :: bytes = buf at *
              generalize chunkEq : min buf.length (blockSz - offset % blockSz) = toWrite at *
              have someByte : 0 < buf.length := by rw [← bufEq]; simp
              have small := Nat.mod_lt offset (by decide : 0 < blockSz)
              have toWriteLe : toWrite ≤ buf.length := by omega
              have blockEnd : offset % blockSz + toWrite ≤ blockSz := by omega
              have positive : 0 < toWrite := by omega
              have inChunk {index : Nat} (inside : index < toWrite) :
                  bufferBlock offset index = offset / blockSz % 2 ^ 32 := by
                simp only [bufferBlock, blockSz] at blockEnd ⊢
                omega
              have behind (index : Nat) : bufferBlock offset (toWrite + index) =
                  bufferBlock (offset + toWrite) index := by
                rw [bufferBlock, bufferBlock, Nat.add_assoc]
              have chunkLength : (buf.take toWrite).length = toWrite := by
                rw [List.length_take, Nat.min_eq_left toWriteLe]
              have base : (offset + (buf.take toWrite).length) % addressable =
                  offset % addressable + (buf.take toWrite).length := by
                have lblockLt := mapLogicalBlock_lt mapped
                rw [chunkLength]
                simp only [addressable, blockSz, u32Max] at lblockLt blockEnd ⊢
                omega
              have middleMounted : middle.view.Mounted reserved := by
                rw [chunk.step.state]
                exact ⟨mounted.geometry, mounted.small, mounted.layout, mounted.reserved⟩
              rw [ran]
              rcases @ih middle middleMounted (offset + toWrite) (buf.drop toWrite)
                  (by rw [List.length_drop]; omega) with
                ⟨allMapped, after, ended, rest⟩ | ⟨unmapped, after, count, ended, rest⟩
              · left
                refine ⟨?_, after, ended, ?_⟩
                · intro index indexLt
                  by_cases inside : index < toWrite
                  · rw [inChunk inside, mapped]
                    simp
                  · obtain ⟨later, rfl⟩ := Nat.exists_eq_add_of_le (Nat.not_lt.mp inside)
                    rw [behind]
                    exact allMapped later (by rw [List.length_drop]; omega)
                · rw [← List.take_append_drop toWrite buf]
                  exact chunk.append (by rw [chunkLength]; exact rest) base
              · right
                obtain ⟨index, indexLt, isNone⟩ := unmapped
                rw [List.length_drop] at indexLt
                refine ⟨⟨toWrite + index, by omega, by rw [behind, isNone]⟩, after,
                  toWrite + count, ended, ?_, ?_, ?_⟩
                · rw [List.take_add]
                  exact chunk.append (by rw [chunkLength]; exact rest.toCopied) base
                · have countLt := rest.countLt
                  rw [List.length_drop] at countLt
                  omega
                · exact reaches_add (fun index inside => by rw [inChunk inside, mapped]; simp)
                    behind rest.reaches

end Copying

/-- The end of a write, saturating in 64 bits. -/
def writeEnd (offset : Nat) (buf : List UInt8) : Nat :=
  min (offset + buf.length) u64Max

/-- What every write to blocks keeps, also one that fails while copying. -/
structure Attempted (reserved : Set Nat) (inodeNum : Nat) (view after : View) : Prop where
  step : FileStep reserved inodeNum view after
  mode : (after.inode inodeNum).iMode = (view.inode inodeNum).iMode
  links : (after.inode inodeNum).iLinksCount = (view.inode inodeNum).iLinksCount
  usesExtents : (view.inode inodeNum).usesExtents = true →
    (after.inode inodeNum).usesExtents = true
  tidy : Tidy (view.extents inodeNum) → Tidy (after.extents inodeNum)

/-- A write that returned. -/
structure Wrote (reserved : Set Nat) (inodeNum offset : Nat) (buf : List UInt8)
    (view after : View) : Prop extends Attempted reserved inodeNum view after where
  exchanges : Exchanges inodeNum view after
  size : (after.inode inodeNum).size = max (view.inode inodeNum).size (writeEnd offset buf)
  mapped : ∀ index < buf.length,
    mapLogicalBlock (after.extents inodeNum) (bufferBlock offset index) ≠ none
  wrapped : Tidy (view.extents inodeNum) → ∀ position,
    byteAt after.data (after.extents inodeNum) position =
      writtenByte (byteAt view.data (view.extents inodeNum)) (offset % addressable) buf position

/-- Below the last logical block the bytes stand at their offset. -/
theorem Wrote.bytes {reserved : Set Nat} {inodeNum offset : Nat} {buf : List UInt8}
    {view after : View} (wrote : Wrote reserved inodeNum offset buf view after)
    (tidy : Tidy (view.extents inodeNum)) (nonempty : buf ≠ [])
    (near : offset + buf.length ≤ u32Max * blockSz) (position : Nat) :
    byteAt after.data (after.extents inodeNum) position =
      writtenByte (byteAt view.data (view.extents inodeNum)) offset buf position := by
  have small : offset % addressable = offset := by
    have positive := List.length_pos_of_ne_nil nonempty
    apply Nat.mod_eq_of_lt
    simp only [addressable, blockSz, u32Max] at near ⊢
    omega
  rw [wrote.wrapped tidy position, small]

/-- The number of blocks that a write touches. -/
def touchedBlocks (offset : Nat) (buf : List UInt8) : Nat :=
  min (writeEnd offset buf + (blockSz - 1)) u64Max / blockSz % 2 ^ 32 -
    offset / blockSz % 2 ^ 32

/-- The outcomes of a write to blocks. -/
def WriteOutcome (reserved : Set Nat) (inodeNum offset : Nat) (buf : List UInt8) (view : View)
    (outcome : Outcome Ext4Error Volume Nat) : Prop :=
  (∃ after, outcome = .ok buf.length after ∧
      Wrote reserved inodeNum offset buf view after.view) ∨
    (∃ error after, outcome = .err error after ∧
      GrowthFails view (view.extents inodeNum) (touchedBlocks offset buf) error ∧
      FileStep reserved inodeNum view after.view ∧ Unchanged view after.view inodeNum) ∨
    ∃ after, outcome = .err .unsupported after ∧
      ¬ (Tidy (view.extents inodeNum) ∧ offset + buf.length ≤ u32Max * blockSz) ∧
      Attempted reserved inodeNum view after.view

theorem DataStep.fileStep {reserved : Set Nat} {inodeNum : Nat} {view after : View}
    (step : DataStep (view.extents inodeNum) view after) (mounted : view.Mounted reserved)
    (isInode : view.fs.IsInode inodeNum) (owning : view.Owning reserved inodeNum)
    (coherent : view.Coherent inodeNum) :
    FileStep reserved inodeNum view after ∧ after.inode inodeNum = view.inode inodeNum ∧
      after.extents inodeNum = view.extents inodeNum ∧
      after.owned inodeNum = view.owned inodeNum := by
  obtain ⟨fileStep, sameInode, extentsEq, treeEq⟩ := FileStep.of_data mounted isInode owning
    coherent (by rw [step.state]) (by rw [step.state])
    (fun blockId isHeld => by rw [step.state]; exact isHeld)
    (fun blockId _ notMem => step.data blockId notMem) (by rw [step.state]) (by rw [step.state])
  refine ⟨fileStep, sameInode, extentsEq, ?_⟩
  rw [View.owned, View.owned, extentsEq, treeEq]

section Writing

variable {reserved : Set Nat} {inodeNum : Nat} {volume : Volume}
  (mounted : volume.view.Mounted reserved) (isInode : volume.view.fs.IsInode inodeNum)
  (owning : volume.view.Owning reserved inodeNum) (coherent : volume.view.Coherent inodeNum)

include mounted isInode

/-- The last step of a write: a file that grew gets its new size. -/
theorem view_updateSize {α : Type} (owning : volume.view.Owning reserved inodeNum)
    (coherent : volume.view.Coherent inodeNum) {oldSize newSize : Nat}
    (sizeEq : (volume.view.inode inodeNum).size = oldSize) (small : newSize < 2 ^ 64)
    (value : α) :
    ∃ after, (do
        if newSize ≠ oldSize then
          (volume.view.fs.handle inodeNum).modifyDiskInode (·.setSize newSize)
        return value : Call α).run volume = .ok value after ∧
      FileStep reserved inodeNum volume.view after.view ∧
      after.view.held = volume.view.held ∧
      (∀ name, name ≠ .iSizeLo → name ≠ .iSizeHigh →
        (after.view.inode inodeNum).field name = (volume.view.inode inodeNum).field name) ∧
      (after.view.inode inodeNum).size = newSize ∧
      after.view.extents inodeNum = volume.view.extents inodeNum ∧
      after.view.owned inodeNum = volume.view.owned inodeNum ∧
      ∀ blockId, blockId ∉ reserved → after.view.data blockId = volume.view.data blockId := by
  by_cases same : newSize = oldSize
  · refine ⟨volume, ?_, ?_, rfl, fun _ _ _ => rfl, sizeEq.trans same.symm, rfl, rfl,
      fun _ _ => rfl⟩
    · simp [same]
    · exact (@FileStep.of_frame reserved inodeNum volume.view volume.view mounted isInode owning
        coherent rfl rfl (fun _ isHeld => isHeld) (fun _ _ => rfl) rfl rfl).1
  · obtain ⟨after, ran, afterView⟩ := view_modifyDiskInode mounted.layout mounted.geometry isInode
      (·.setSize newSize)
    obtain ⟨step, inodeEq, extentsEq, ownedEq⟩ := FileStep.of_putInode mounted isInode owning
      coherent (Ext4Inode.blockData_setSize (volume.view.inode inodeNum) newSize)
      (Ext4Inode.usesExtents_congr (Ext4Inode.field_setSize _ _ (by decide) (by decide)))
    refine ⟨after, ?_, ?_⟩
    · simp only [ne_eq, same, not_false_eq_true, if_true]
      rw [run_bind_ok ran]
      rfl
    · rw [afterView, inodeEq]
      exact ⟨step, rfl, fun name notLow notHigh => Ext4Inode.field_setSize _ _ notLow notHigh,
        Ext4Inode.size_setSize _ small, extentsEq, ownedEq, fun blockId outside =>
          data_putInode mounted.layout mounted.geometry isInode _ outside⟩

/-- Copied bytes and the new size, whatever the extents are. -/
theorem view_growCopied {view : View} {new : List Nat} {result : List Ext4Extent} {offset : Nat}
    {buf : List UInt8} (grows : Grows (view.extents inodeNum) new result)
    (extended : Extended reserved inodeNum view new result volume.view) {copied : Volume}
    (dataStep : DataStep result volume.view copied.view) :
    ∃ after, (do
        if max (view.inode inodeNum).size (writeEnd offset buf) ≠ (view.inode inodeNum).size then
          (volume.view.fs.handle inodeNum).modifyDiskInode
            (·.setSize (max (view.inode inodeNum).size (writeEnd offset buf)))
        return buf.length : Call Nat).run copied = .ok buf.length after ∧
      Attempted reserved inodeNum view copied.view ∧
      Attempted reserved inodeNum view after.view ∧
      Exchanges inodeNum view after.view ∧
      (after.view.inode inodeNum).size = max (view.inode inodeNum).size (writeEnd offset buf) ∧
      after.view.extents inodeNum = result ∧
      ∀ blockId ∈ dataBlocks result, after.view.data blockId = copied.view.data blockId := by
  have owning := extended.step.owning
  have extentsEq := extended.extents
  have sizeBound := (view.inode inodeNum).size_lt
  have newSizeLt : max (view.inode inodeNum).size (writeEnd offset buf) < 2 ^ 64 := by
    simp only [writeEnd, u64Max]
    omega
  have field (name : InodeField) (notFlags : name ≠ .iFlags) (notBlocks : name ≠ .iBlocksLo) :=
    extended.fields name notFlags notBlocks
  have dataStep' : DataStep (volume.view.extents inodeNum) volume.view copied.view := by
    rw [extentsEq]
    exact dataStep
  obtain ⟨copyStep, copyInode, copyExtents, copyOwned⟩ := dataStep'.fileStep mounted isInode
    owning extended.step.coherent
  have copiedFs : copied.view.fs = volume.view.fs := copyStep.fs
  have sizeEq : (copied.view.inode inodeNum).size = (view.inode inodeNum).size := by
    rw [copyInode]
    exact Ext4Inode.size_congr (field _ (by decide) (by decide)) (field _ (by decide) (by decide))
  obtain ⟨after, ran, sizeStep, sameHeld, sizeFields, newSize, afterExtents, afterOwned,
    afterData⟩ := @view_updateSize reserved inodeNum copied
    (copyStep.mounted mounted owning) (by rw [copiedFs]; exact isInode) Nat copyStep.owning
    copyStep.coherent _ _ sizeEq newSizeLt buf.length
  rw [copiedFs] at ran
  have copyHeld : copied.view.held = volume.view.held := by rw [dataStep.state]
  have attempted : Attempted reserved inodeNum view copied.view := by
    refine ⟨extended.step.trans copyStep, ?_, ?_, ?_, ?_⟩
    · rw [copyInode]
      exact field .iMode (by decide) (by decide)
    · rw [copyInode]
      exact field .iLinksCount (by decide) (by decide)
    · rw [copyInode]
      exact extended.usesExtents
    · rw [copyExtents, extentsEq]
      exact grows.tidy
  refine ⟨after, ran, attempted, ?_, ?_, newSize, ?_, ?_⟩
  · refine ⟨attempted.step.trans sizeStep, ?_, ?_, ?_, ?_⟩
    · exact (sizeFields .iMode (by decide) (by decide)).trans attempted.mode
    · exact (sizeFields .iLinksCount (by decide) (by decide)).trans attempted.links
    · intro usesExtents
      rw [Ext4Inode.usesExtents_congr (sizeFields .iFlags (by decide) (by decide))]
      exact attempted.usesExtents usesExtents
    · rw [afterExtents]
      exact attempted.tidy
  · exact extended.exchanges.trans (Exchanges.of_same owning (by rw [sameHeld, copyHeld])
      (afterOwned.trans copyOwned)) extended.step
  · rw [afterExtents, copyExtents, extentsEq]
  · intro blockId isData
    exact afterData blockId (owning.outside blockId (View.mem_owned.mpr (Or.inl (by
      rw [extentsEq]; exact isData))))

/-- The part of a write behind the allocation: copying and the new size. -/
theorem view_copyAndGrow {view : View}
    {new : List Nat} {result : List Ext4Extent} {offset : Nat} {buf : List UInt8}
    (grows : Grows (view.extents inodeNum) new result)
    (extended : Extended reserved inodeNum view new result volume.view)
    (covered : offset + buf.length ≤ u32Max * blockSz →
      ∀ l, offset / blockSz ≤ l → l * blockSz < offset + buf.length → ∃ p, Maps result l p) :
    WriteOutcome reserved inodeNum offset buf view ((do
      writeMapped result buf.length offset buf
      if max (view.inode inodeNum).size (writeEnd offset buf) ≠ (view.inode inodeNum).size then
        (volume.view.fs.handle inodeNum).modifyDiskInode
          (·.setSize (max (view.inode inodeNum).size (writeEnd offset buf)))
      return buf.length : Call Nat).run volume) := by
  have owning := extended.step.owning
  have extentsEq := extended.extents
  have outside (blockId : Nat) (isData : blockId ∈ dataBlocks result) : blockId ∉ reserved :=
    owning.outside blockId (View.mem_owned.mpr (Or.inl (by rw [extentsEq]; exact isData)))
  have nodup : (dataBlocks result).Nodup := by
    rw [← extentsEq]
    exact (List.nodup_append.mp owning.nodup).1
  rcases @view_writeMapped result volume reserved mounted outside buf.length offset buf
      (Nat.le_refl _) with
    ⟨allMapped, copied, copyRan, copies⟩ | ⟨⟨index, indexLt, isNone⟩, copied, _, copyRan, fails⟩
  · obtain ⟨after, ran, _, attempted, exchanges, size, afterExtents, afterData⟩ :=
      view_growCopied mounted isInode grows extended copies.step
    left
    refine ⟨after, (run_bind_ok copyRan).trans ran, attempted, exchanges, size,
      by rw [afterExtents]; exact allMapped, ?_⟩
    intro tidy position
    have sameBytes : byteAt after.view.data result position =
        byteAt copied.view.data result position := byteAt_congr afterData position
    have before : byteAt volume.view.data result =
        byteAt view.data (view.extents inodeNum) := by
      funext other
      exact extended.byteAt_eq grows tidy other
    rw [afterExtents, sameBytes, copies.bytes (grows.tidy tidy).ordered nodup, before]
  · obtain ⟨_, _, copyAttempted, _⟩ := @view_growCopied reserved inodeNum volume mounted isInode
      view new result offset buf grows extended copied fails.step
    refine Or.inr (Or.inr ⟨copied, run_bind_err copyRan, ?_, copyAttempted⟩)
    rintro ⟨_, near⟩
    have same : bufferBlock offset index = (offset + index) / blockSz ∧
        (offset + index) / blockSz < u32Max := by
      simp only [bufferBlock, blockSz, u32Max] at near ⊢
      omega
    rw [same.1] at isNone
    refine mapLogicalBlock_ne_none.mpr ⟨same.2, covered near _ ?_ ?_⟩ isNone
    · exact Nat.div_le_div_right (Nat.le_add_right _ _)
    · have quotient := Nat.div_mul_le_self (offset + index) blockSz
      omega

/-- The inode after a short text was stored in place of its block map. -/
def Ext4Inode.storeText (inode : Ext4Inode) (offset : Nat) (buf : List UInt8) : Ext4Inode :=
  (inode.setBlockData (Bytes.zeroed.write offset buf)).setSize (writeEnd offset buf)

theorem view_writeAt_notAFile
    (notFile : (volume.view.inode inodeNum).isFile = false)
    (notSymlink : (volume.view.inode inodeNum).isSymlink = false) (offset : Nat)
    (buf : List UInt8) :
    ((volume.view.fs.handle inodeNum).writeAt offset buf).run volume = .err .notAFile volume := by
  rw [Inode.writeAt, run_bind_ok (view_readDiskInode mounted.layout mounted.geometry isInode)]
  simp [notFile, notSymlink]

theorem view_writeAt_empty (kind : (volume.view.inode inodeNum).isFile = true ∨
      (volume.view.inode inodeNum).isSymlink = true) (offset : Nat) :
    ((volume.view.fs.handle inodeNum).writeAt offset []).run volume = .ok 0 volume := by
  rw [Inode.writeAt, run_bind_ok (view_readDiskInode mounted.layout mounted.geometry isInode)]
  rcases kind with isFile | isSymlink
  · simp [isFile]
  · simp [isSymlink]

theorem view_writeAt_inline (isSymlink : (volume.view.inode inodeNum).isSymlink = true)
    {offset : Nat} {buf : List UInt8} (nonempty : buf ≠ [])
    (short : writeEnd offset buf ≤ iBlockSize) :
    ∃ after, ((volume.view.fs.handle inodeNum).writeAt offset buf).run volume =
        .ok buf.length after ∧
      after.view = volume.view.putInode inodeNum
        ((volume.view.inode inodeNum).storeText offset buf) := by
  obtain ⟨after, ran, afterView⟩ := view_modifyDiskInode mounted.layout mounted.geometry isInode
    (·.storeText offset buf)
  refine ⟨after, ?_, afterView⟩
  rw [Inode.writeAt, run_bind_ok (view_readDiskInode mounted.layout mounted.geometry isInode)]
  simp only [isSymlink, not_true_eq_false, and_false, if_false, nonempty, true_and]
  rw [if_pos (show min (offset + buf.length) u64Max ≤ iBlockSize from short)]
  exact run_bind_ok ran

theorem view_writeAt_blocks (owning : volume.view.Owning reserved inodeNum)
    (coherent : volume.view.Coherent inodeNum)
    (kind : (volume.view.inode inodeNum).isFile = true ∨
      (volume.view.inode inodeNum).isSymlink = true)
    {offset : Nat} {buf : List UInt8} (nonempty : buf ≠ [])
    (notInline : ¬ ((volume.view.inode inodeNum).isSymlink = true ∧
      writeEnd offset buf ≤ iBlockSize)) :
    WriteOutcome reserved inodeNum offset buf volume.view
      (((volume.view.fs.handle inodeNum).writeAt offset buf).run volume) := by
  have wordMax : u32Max = 2 ^ 32 - 1 := rfl
  have notOther : ¬ (¬ (volume.view.inode inodeNum).isFile = true ∧
      ¬ (volume.view.inode inodeNum).isSymlink = true) := by
    rintro ⟨notFile, notSymlink⟩
    rcases kind with isFile | isSymlink
    · exact notFile isFile
    · exact notSymlink isSymlink
  rw [Inode.writeAt, run_bind_ok (view_readDiskInode mounted.layout mounted.geometry isInode),
    if_neg notOther, if_neg nonempty]
  simp only
  rw [if_neg (show ¬ ((volume.view.inode inodeNum).isSymlink = true ∧
    min (offset + buf.length) u64Max ≤ iBlockSize) from notInline)]
  rcases @view_ensureWriteBlocks reserved inodeNum volume mounted isInode owning coherent
      (offset / blockSz % 2 ^ 32)
      (min (min (offset + buf.length) u64Max + (blockSz - 1)) u64Max / blockSz % 2 ^ 32)
      (by omega) (by omega) with
    ⟨result, new, between, ran, grows, fresh, extended, covers⟩ |
    ⟨error, after, ran, fails, step, unchanged⟩
  · rw [run_bind_ok ran]
    have sameFs := extended.step.fs
    have tail := @view_copyAndGrow reserved inodeNum between
      (extended.step.mounted mounted owning) (by rw [sameFs]; exact isInode) volume.view new
      result offset buf grows extended (by
        intro inRange l lower upper
        apply covers l
        · exact Nat.le_trans (Nat.mod_le _ _) lower
        · simp only [blockSz, u64Max, u32Max] at lower upper inRange ⊢
          omega)
    rw [sameFs] at tail
    exact tail
  · right
    left
    exact ⟨error, after, run_bind_err ran, fails, step, unchanged⟩

end Writing

/-- The data blocks by the masked lengths, as they are freed. -/
def freedBlocks (extents : List Ext4Extent) : List Nat :=
  extents.flatMap fun extent => List.range' extent.startBlock extent.len

theorem freedBlocks_subset (extents : List Ext4Extent) :
    freedBlocks extents ⊆ dataBlocks extents := by
  intro blockId blockMem
  obtain ⟨extent, extentMem, inside⟩ := List.mem_flatMap.mp blockMem
  have lenLe := extent.len_le_blockCount
  refine List.mem_flatMap.mpr ⟨extent, extentMem, ?_⟩
  rw [Ext4Extent.blocks, List.mem_range'_1]
  rw [List.mem_range'_1] at inside
  omega

theorem freedBlocks_of_short {extents : List Ext4Extent}
    (short : ∀ extent ∈ extents, extent.eeLen.toNat < 0x8000) :
    freedBlocks extents = dataBlocks extents := by
  rw [freedBlocks, dataBlocks, List.flatMap_def, List.flatMap_def]
  congr 1
  apply List.map_congr_left
  intro extent extentMem
  exact (blocks_of_short (short extent extentMem)).symm

/-- A root without entries. -/
def EmptyRoot (root : Bytes iBlockSize) : Prop :=
  ∀ disk : Nat → Block, parseExtentTree disk root = [] ∧ extentTreeBlocks disk root = ([], [])

theorem emptyRoot_resetExtentTree (inode : Ext4Inode) :
    EmptyRoot inode.resetExtentTree.blockData := by
  have header : nodeHeader inode.resetExtentTree.blockData =
      { ehMagic := Ext4ExtentHeader.magic, ehEntries := 0,
        ehMax := UInt16.ofNat extentsInInode, ehDepth := 0, ehGeneration := 0 } := by
    rw [nodeHeader, Ext4Inode.resetExtentTree, Ext4Inode.blockData_setBlockData]
    exact Bytes.load_store Ext4ExtentHeader.record _ _ (by decide)
  intro disk
  obtain ⟨parseEq, blocksEq⟩ := tree_flat (by rw [header]; rfl) (by rw [header]; rfl) disk
  refine ⟨?_, blocksEq⟩
  rw [parseEq, nodeExtents, header]
  rfl

theorem field_resetExtentTree (inode : Ext4Inode) (name : InodeField) :
    inode.resetExtentTree.field name = inode.field name :=
  Ext4Inode.field_setBlockData _ _ _

section Reclaiming

variable {reserved : Set Nat} {inodeNum : Nat}

theorem view_freeAllBlocks {volume : Volume} (mounted : volume.view.Mounted reserved)
    (isInode : volume.view.fs.IsInode inodeNum)
    (owning : volume.view.Owning reserved inodeNum) :
    ∃ after, (volume.view.fs.handle inodeNum).freeAllBlocks.run volume = .ok () after ∧
      after.view = volume.view.releaseBlocks
        (freedBlocks (volume.view.extents inodeNum) ++ volume.view.tree inodeNum) := by
  have dataItems (blockId : Nat) (isFreed : blockId ∈ freedBlocks (volume.view.extents inodeNum)) :
      volume.view.IsItem .block blockId :=
    View.isItem_of_held (owning.held blockId (View.mem_owned.mpr
      (Or.inl (freedBlocks_subset _ isFreed))))
  obtain ⟨first, firstRan, firstView⟩ := view_deallocBlocks mounted.geometry dataItems
  have sameFs : first.view.fs = volume.view.fs := by rw [firstView]; rfl
  have treeEq : treeBlocks first.disk (volume.view.inode inodeNum).blockData =
      volume.view.tree inodeNum := by
    have sameData : first.view.data = volume.view.data := by rw [firstView]; rfl
    rw [View.tree, ← sameData]
    apply (tree_view _).2
    intro blockId blockMem isBitmap
    rw [sameData] at blockMem
    apply owning.outside blockId (View.mem_owned.mpr (Or.inr blockMem))
    apply mounted.layout.bitmaps
    rw [← sameFs]
    exact isBitmap
  have treeItems (blockId : Nat) (blockMem : blockId ∈
      (extentTreeBlocks first.disk (volume.view.inode inodeNum).blockData).1 ++
        (extentTreeBlocks first.disk (volume.view.inode inodeNum).blockData).2) :
      first.view.IsItem .block blockId := by
    rw [View.IsItem, sameFs]
    have isTree : blockId ∈ volume.view.tree inodeNum := by
      rw [← treeEq]
      exact blockMem
    exact View.isItem_of_held (owning.held blockId (View.mem_owned.mpr (Or.inr isTree)))
  have geometry : Geometry first.view.fs := by rw [sameFs]; exact mounted.geometry
  obtain ⟨second, secondRan, secondView⟩ := view_deallocBlocks geometry
    (fun blockId blockMem => treeItems blockId (List.mem_append_left _ blockMem))
  have secondFs : second.view.fs = first.view.fs := by rw [secondView]; rfl
  obtain ⟨after, afterRan, afterView⟩ := @view_deallocBlocks second
    (by rw [secondFs]; exact geometry) _ (fun blockId blockMem => by
      rw [View.IsItem, secondFs]
      exact treeItems blockId (List.mem_append_right _ blockMem))
  refine ⟨after, ?_, ?_⟩
  · rw [Inode.freeAllBlocks, run_bind_ok (view_readExtentsAny mounted isInode owning),
      run_bind_ok (view_readDiskInode mounted.layout mounted.geometry isInode), ← freedBlocks,
      run_bind_ok firstRan, run_bind_ok (run_get _)]
    simp only
    rw [run_bind_ok secondRan]
    exact afterRan
  · rw [afterView, secondView, firstView, View.releaseBlocks_append, View.releaseBlocks_append,
      ← treeBlocks, treeEq]

/-- The view after all blocks of an inode were freed and the inode replaced. -/
def View.reclaim (view : View) (inodeNum : Nat) (inode : Ext4Inode) : View :=
  { (view.releaseBlocks (freedBlocks (view.extents inodeNum) ++ view.tree inodeNum)).putInode
      inodeNum inode with extentsCache := view.extentsCache.erase inodeNum }

theorem FileStep.of_reclaim {view : View} (mounted : view.Mounted reserved)
    (isInode : view.fs.IsInode inodeNum) {inode : Ext4Inode} (empty : EmptyRoot inode.blockData) :
    FileStep reserved inodeNum view (view.reclaim inodeNum inode) ∧
      (view.reclaim inodeNum inode).inode inodeNum = inode ∧
      (view.reclaim inodeNum inode).extents inodeNum = [] ∧
      (view.reclaim inodeNum inode).owned inodeNum = [] ∧
      (Tidy (view.extents inodeNum) → Exchanges inodeNum view (view.reclaim inodeNum inode)) := by
  have inodeEq : (view.reclaim inodeNum inode).inode inodeNum = inode :=
    @inode_putInode_same (view.releaseBlocks
      (freedBlocks (view.extents inodeNum) ++ view.tree inodeNum)) reserved mounted.layout
      mounted.geometry inodeNum isInode inode
  have extentsEq : (view.reclaim inodeNum inode).extents inodeNum = [] := by
    rw [View.extents, inodeEq]
    split
    · exact (empty _).1
    · rfl
  have ownedEq : (view.reclaim inodeNum inode).owned inodeNum = [] := by
    rw [View.owned, extentsEq, View.tree, inodeEq, treeBlocks, (empty _).2]
    rfl
  have held (blockId : Nat) : blockId ∈ (view.reclaim inodeNum inode).held .block ↔
      blockId ∈ view.held .block ∧
        ¬ (blockId ∈ freedBlocks (view.extents inodeNum) ∨ blockId ∈ view.tree inodeNum) := by
    simp only [View.reclaim, View.putInode, View.put, View.releaseBlocks, Function.update_self,
      Set.mem_sdiff, Set.mem_ofPred_eq, List.mem_append]
  refine ⟨?_, inodeEq, extentsEq, ownedEq, ?_⟩
  · constructor
    · rfl
    · rfl
    · intro other isOther different
      have kept := @inode_putInode_of_ne (view.releaseBlocks
        (freedBlocks (view.extents inodeNum) ++ view.tree inodeNum)) reserved mounted.layout
        mounted.geometry inodeNum isInode inode other isOther different
      rw [View.reclaim, inode_withExtentsCache, kept]
      rfl
    · intro blockId isHeld notOwned
      rw [held]
      refine ⟨isHeld, fun isFreed => notOwned (View.mem_owned.mpr ?_)⟩
      exact isFreed.imp_left fun isData => freedBlocks_subset _ isData
    · intro blockId _ _ outside
      exact @data_putInode (view.releaseBlocks
        (freedBlocks (view.extents inodeNum) ++ view.tree inodeNum)) reserved mounted.layout
        mounted.geometry inodeNum isInode inode blockId outside
    · intro blockId blockMem
      rw [ownedEq] at blockMem
      cases blockMem
    · refine ⟨by rw [ownedEq]; exact List.nodup_nil, ?_, ?_⟩
      · rw [ownedEq]
        simp
      · rw [ownedEq]
        simp
    · intro extents found
      simp [View.reclaim] at found
    · intro key different value found
      have erased : (view.reclaim inodeNum inode).extentsCache =
          view.extentsCache.erase inodeNum := rfl
      rw [erased, Std.TreeMap.getElem?_erase] at found
      split at found
      · cases found
      · exact found
    · intro key _ value found
      exact found
  · intro tidy blockId
    rw [held, ownedEq, freedBlocks_of_short tidy.short, View.mem_owned]
    simp

/-- Freeing all blocks, replacing the inode, and dropping its cached extents. -/
theorem view_reclaim {volume : Volume} (mounted : volume.view.Mounted reserved)
    (isInode : volume.view.fs.IsInode inodeNum)
    (owning : volume.view.Owning reserved inodeNum) (change : Ext4Inode → Ext4Inode) :
    ∃ after, (do
        (volume.view.fs.handle inodeNum).freeAllBlocks
        (volume.view.fs.handle inodeNum).modifyDiskInode change
        extentsCacheInvalidate inodeNum : Call Unit).run volume = .ok () after ∧
      after.view = volume.view.reclaim inodeNum (change (volume.view.inode inodeNum)) := by
  obtain ⟨freed, freedRan, freedView⟩ := view_freeAllBlocks mounted isInode owning
  have sameFs : freed.view.fs = volume.view.fs := by rw [freedView]; rfl
  have sameInode : freed.view.inode inodeNum = volume.view.inode inodeNum := by
    rw [freedView]
    rfl
  obtain ⟨changed, changedRan, changedView⟩ := @view_modifyDiskInode freed reserved
    (by rw [sameFs]; exact mounted.layout) (by rw [sameFs]; exact mounted.geometry) inodeNum
    (by rw [sameFs]; exact isInode) change
  rw [sameFs] at changedRan
  refine ⟨{ changed with extentsCache := changed.extentsCache.erase inodeNum }, ?_, ?_⟩
  · rw [run_bind_ok freedRan, run_bind_ok changedRan]
    rfl
  · have sameCache : changed.extentsCache = volume.view.extentsCache := by
      show changed.view.extentsCache = _
      rw [changedView, freedView]
      rfl
    rw [Volume.view_setExtentsCache, sameCache, changedView, sameInode, freedView, View.reclaim]

/-- Truncating a regular file. -/
theorem view_clear {volume : Volume} (mounted : volume.view.Mounted reserved)
    (isInode : volume.view.fs.IsInode inodeNum)
    (owning : volume.view.Owning reserved inodeNum)
    (isFile : (volume.view.inode inodeNum).isFile = true) :
    ∃ after, (volume.view.fs.handle inodeNum).clear.run volume = .ok () after ∧
      after.view = volume.view.reclaim inodeNum
        ((((volume.view.inode inodeNum).setSize 0).setIBlocksLo 0).resetExtentTree) := by
  obtain ⟨after, ran, afterView⟩ := view_reclaim mounted isInode owning
    (fun inode => ((inode.setSize 0).setIBlocksLo 0).resetExtentTree)
  refine ⟨after, ?_, afterView⟩
  have kind : (volume.view.fs.handle inodeNum).isFile.run volume = .ok true volume := by
    rw [Inode.isFile, run_bind_ok (view_readDiskInode mounted.layout mounted.geometry isInode),
      isFile]
    rfl
  rw [Inode.clear, run_bind_ok kind, if_pos rfl]
  exact ran

theorem view_clear_notAFile {volume : Volume} (mounted : volume.view.Mounted reserved)
    (isInode : volume.view.fs.IsInode inodeNum)
    (notFile : (volume.view.inode inodeNum).isFile = false) :
    (volume.view.fs.handle inodeNum).clear.run volume = .err .notAFile volume := by
  have kind : (volume.view.fs.handle inodeNum).isFile.run volume = .ok false volume := by
    rw [Inode.isFile, run_bind_ok (view_readDiskInode mounted.layout mounted.geometry isInode),
      notFile]
    rfl
  rw [Inode.clear, run_bind_ok kind]
  rfl

end Reclaiming

end Ext4

end OSWorkspace
