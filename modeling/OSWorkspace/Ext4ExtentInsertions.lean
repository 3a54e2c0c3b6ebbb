import OSWorkspace.Ext4ExtentMaps

/-!
# Insertion into well-formed extent lists

A list of extents as the writer keeps it is sorted, without overlaps, and has
no empty or unwritten extent.  Inserting a block keeps the list so, whichever
neighbours it merges with, and changes the map at that block only.
-/

namespace OSWorkspace

namespace Ext4

/-- Sorted and disjoint, of lengths 1 to `0x7FFF`, with logical ends in 32 and
physical ends in 48 bits. -/
structure WellFormed (extents : List Ext4Extent) : Prop where
  ordered : Ordered extents
  positive : ∀ extent ∈ extents, 1 ≤ extent.eeLen.toNat
  short : ∀ extent ∈ extents, extent.eeLen.toNat ≤ 0x7FFF
  ends : ∀ extent ∈ extents, extent.start + extent.eeLen.toNat ≤ u32Max
  physical : ∀ extent ∈ extents, extent.startBlock + extent.eeLen.toNat ≤ 2 ^ 48

theorem WellFormed.tidy {extents : List Ext4Extent} (wellFormed : WellFormed extents) :
    Tidy extents where
  ordered := wellFormed.ordered
  bounded extent extentMem := by
    have short := wellFormed.short extent extentMem
    rw [Ext4Extent.len_of_lt (by omega)]
    exact wellFormed.ends extent extentMem
  short extent extentMem := by
    have short := wellFormed.short extent extentMem
    omega

theorem Inserted.positive {lblock pblock : Nat} {before after result : List Ext4Extent}
    (inserted : Inserted lblock pblock before after result) (lblockSmall : lblock < u32Max)
    (pblockSmall : pblock < 2 ^ 48)
    (positive : ∀ extent ∈ before ++ after, 1 ≤ extent.eeLen.toNat) :
    ∀ extent ∈ result, 1 ≤ extent.eeLen.toNat := by
  intro extent extentMem
  cases inserted with
  | alone =>
      rcases List.mem_append.mp extentMem with isFirst | isRest
      · exact positive extent (by simp [isFirst])
      · rcases List.mem_cons.mp isRest with rfl | isAfter
        · show 1 ≤ (1 : UInt16).toNat
          decide
        · exact positive extent (by simp [isAfter])
  | prev firsts changed after merges =>
      obtain ⟨_, _, _, eeLenEq, _⟩ := grown_spec merges lblockSmall
      rcases List.mem_append.mp extentMem with isFirst | isRest
      · exact positive extent (by simp [isFirst])
      · rcases List.mem_cons.mp isRest with rfl | isAfter
        · omega
        · exact positive extent (by simp [isAfter])
  | next firsts changed after merges =>
      obtain ⟨_, _, _, _, _, eeLenEq, _⟩ := prepended_spec merges lblockSmall pblockSmall
      rcases List.mem_append.mp extentMem with isFirst | isRest
      · exact positive extent (by simp [isFirst])
      · rcases List.mem_cons.mp isRest with rfl | isAfter
        · omega
        · exact positive extent (by simp [isAfter])
  | both firsts first second after mergesFirst mergesSecond joined =>
      obtain ⟨eeLenEq, _⟩ := joined_spec joined
      rcases List.mem_append.mp extentMem with isFirst | isRest
      · exact positive extent (by simp [isFirst])
      · rcases List.mem_cons.mp isRest with rfl | isAfter
        · omega
        · exact positive extent (by simp [isAfter])

/-- The last block of an extent is one of the blocks of the list. -/
theorem last_mem_dataBlocks {extents : List Ext4Extent} {extent : Ext4Extent}
    (extentMem : extent ∈ extents) (positive : 1 ≤ extent.eeLen.toNat)
    (short : extent.eeLen.toNat ≤ 0x7FFF) :
    extent.startBlock + (extent.eeLen.toNat - 1) ∈ dataBlocks extents := by
  refine List.mem_flatMap.mpr ⟨extent, extentMem, ?_⟩
  rw [Ext4Extent.blocks, Ext4Extent.blockCount_of_lt (by omega), List.mem_range'_1]
  omega

theorem WellFormed.block_lt {extents : List Ext4Extent} (wellFormed : WellFormed extents)
    {block : Nat} (blockMem : block ∈ dataBlocks extents) : block < 2 ^ 48 := by
  obtain ⟨extent, extentMem, inside⟩ := List.mem_flatMap.mp blockMem
  have short := wellFormed.short extent extentMem
  have physical := wellFormed.physical extent extentMem
  rw [Ext4Extent.blocks, Ext4Extent.blockCount_of_lt (by omega), List.mem_range'_1] at inside
  omega

theorem length_dataBlocks {extents : List Ext4Extent}
    (short : ∀ extent ∈ extents, extent.eeLen.toNat < 0x8000) :
    (dataBlocks extents).length = (extents.map Ext4Extent.len).sum := by
  induction extents with
  | nil => rfl
  | cons extent extents ih =>
      have rest := ih fun other otherMem => short other (List.mem_cons_of_mem _ otherMem)
      have blocks := blocks_of_short (short extent List.mem_cons_self)
      rw [dataBlocks, List.flatMap_cons, List.length_append, blocks, List.length_range',
        List.map_cons, List.sum_cons, ← rest, dataBlocks]

/-- No extent maps the last logical block. -/
theorem mapLogicalBlock_of_le {lblock : Nat} (large : u32Max ≤ lblock)
    (extents : List Ext4Extent) : mapLogicalBlock extents lblock = none := by
  induction extents with
  | nil => rfl
  | cons extent extents ih =>
      rw [mapLogicalBlock, if_neg, ih]
      simp only [Ext4Extent.lend]
      omega

/-- A sorted list is the map that its extents say. -/
theorem mapLogicalBlock_iff {extents : List Ext4Extent} (ordered : Ordered extents)
    {lblock : Nat} (small : lblock < u32Max) (pblock : Nat) :
    mapLogicalBlock extents lblock = some pblock ↔ Maps extents lblock pblock :=
  ⟨maps_of_mapLogicalBlock, mapLogicalBlock_eq_some ordered small⟩

/-- Inserting a block that is not mapped keeps the list well formed, changes the
map at that block only and adds one to the lengths. -/
theorem insertBlockMapping_exact {extents : List Ext4Extent} (wellFormed : WellFormed extents)
    {lblock pblock : Nat} (lblockSmall : lblock < u32Max)
    (unmapped : mapLogicalBlock extents lblock = none) (pblockSmall : pblock < 2 ^ 48) :
    WellFormed (insertBlockMapping extents lblock pblock) ∧
      mapLogicalBlock (insertBlockMapping extents lblock pblock) lblock = some pblock ∧
      (∀ other, other ≠ lblock →
        mapLogicalBlock (insertBlockMapping extents lblock pblock) other =
          mapLogicalBlock extents other) ∧
      ((insertBlockMapping extents lblock pblock).map Ext4Extent.len).sum =
        (extents.map Ext4Extent.len).sum + 1 := by
  have extended := extends_insertBlockMapping lblockSmall pblockSmall unmapped
  have tidy := extended.tidy wellFormed.tidy
  obtain ⟨position, found⟩ := exists_insertPosition unmapped
  have inserted := inserted_insertBlockMapping pblock found
  have positive := inserted.positive lblockSmall pblockSmall (by
    rw [List.take_append_drop]
    exact wellFormed.positive)
  refine ⟨⟨tidy.ordered, positive, ?_, ?_, ?_⟩, ?_, ?_, ?_⟩
  · intro extent extentMem
    have short := tidy.short extent extentMem
    omega
  · intro extent extentMem
    rw [← Ext4Extent.len_of_lt (tidy.short extent extentMem)]
    exact tidy.bounded extent extentMem
  · intro extent extentMem
    have short := tidy.short extent extentMem
    have isPositive := positive extent extentMem
    have last := last_mem_dataBlocks extentMem isPositive (by omega)
    rcases List.mem_cons.mp (extended.dataBlocks.mem_iff.mp last) with isNew | isOld
    · omega
    · have small := wellFormed.block_lt isOld
      omega
  · exact (mapLogicalBlock_iff tidy.ordered lblockSmall pblock).mpr
      ((extended.maps lblock pblock).mpr (Or.inl ⟨rfl, rfl⟩))
  · intro other differs
    by_cases small : other < u32Max
    · refine Option.ext fun block => ?_
      rw [mapLogicalBlock_iff tidy.ordered small, mapLogicalBlock_iff wellFormed.ordered small,
        extended.maps]
      exact or_iff_right fun isNew => differs isNew.1
    · rw [mapLogicalBlock_of_le (by omega), mapLogicalBlock_of_le (by omega)]
  · have length := extended.dataBlocks.length_eq
    rwa [List.length_cons, length_dataBlocks tidy.short,
      length_dataBlocks wellFormed.tidy.short] at length

/-- The block between two extents that it joins. -/
theorem insertBlockMapping_exact_joined :
    mapLogicalBlock (insertBlockMapping [⟨0, 2, 0, 10⟩, ⟨3, 4, 0, 13⟩] 2 12) 2 = some 12 ∧
      ((insertBlockMapping [⟨0, 2, 0, 10⟩, ⟨3, 4, 0, 13⟩] 2 12).map Ext4Extent.len).sum = 7 := by
  have wellFormed : WellFormed [⟨0, 2, 0, 10⟩, ⟨3, 4, 0, 13⟩] := by
    constructor <;> simp [Ordered] <;> decide
  have lblockSmall : 2 < u32Max := by decide
  have unmapped : mapLogicalBlock [⟨0, 2, 0, 10⟩, ⟨3, 4, 0, 13⟩] 2 = none := by decide
  have pblockSmall : 12 < 2 ^ 48 := by decide
  obtain ⟨_, mapped, _, sum⟩ :=
    insertBlockMapping_exact wellFormed lblockSmall unmapped pblockSmall
  exact ⟨mapped, sum⟩

end Ext4

end OSWorkspace
