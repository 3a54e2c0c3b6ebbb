import OSWorkspace.Ext4Layout

/-!
# Extent lists as maps of logical blocks

A list of extents maps logical to physical blocks.  This file models the
search, the insertion with merging at both sides, the appending used for
directories and the reading through a list, and shows what each of them means
for the map and for the set of physical blocks.
-/

namespace OSWorkspace

namespace Ext4

def u32Max : Nat := 2 ^ 32 - 1

namespace Ext4Extent

/-- The first logical block. -/
def start (extent : Ext4Extent) : Nat := extent.eeBlock.toNat

/-- The end of the logical range, saturating in 32 bits. -/
def lend (extent : Ext4Extent) : Nat := min (extent.start + extent.len) u32Max

/-- The end of the physical range. -/
def pend (extent : Ext4Extent) : Nat := extent.startBlock + extent.len

/-- The extent of a single block. -/
def single (lblock pblock : Nat) : Ext4Extent where
  eeBlock := UInt32.ofNat lblock
  eeLen := 1
  eeStartHi := UInt16.ofNat (pblock / 2 ^ 32)
  eeStartLo := UInt32.ofNat pblock

end Ext4Extent

def mapLogicalBlock : List Ext4Extent → Nat → Option Nat
  | [], _ => none
  | extent :: extents, lblock =>
      if extent.start ≤ lblock ∧ lblock < extent.lend then
        some (extent.startBlock + (lblock - extent.start))
      else mapLogicalBlock extents lblock

def pushBlockToExtents (extents : List Ext4Extent) (lblock pblock : Nat) : List Ext4Extent :=
  match extents.getLast? with
  | some last =>
      if lblock = last.lend ∧ pblock = last.pend ∧ last.eeLen < 0x7FFF then
        extents.dropLast ++ [{ last with eeLen := last.eeLen + 1 }]
      else extents ++ [.single lblock pblock]
  | none => [.single lblock pblock]

/-- The position before which a block is inserted; `none` when it is mapped. -/
def insertPosition (lblock : Nat) : List Ext4Extent → Option Nat
  | [] => some 0
  | extent :: extents =>
      if lblock < extent.start then some 0
      else if lblock < extent.lend then none
      else (insertPosition lblock extents).map (· + 1)

/-- The block follows the extent in both spaces. -/
def mergesPrev (lblock pblock : Nat) (prev : Ext4Extent) : Bool :=
  lblock = prev.lend ∧ pblock = prev.pend ∧ prev.eeLen < 0x7FFF

/-- The block precedes the extent in both spaces. -/
def mergesNext (lblock pblock : Nat) (next : Ext4Extent) : Bool :=
  min (lblock + 1) u32Max = next.start ∧ pblock + 1 = next.startBlock ∧ next.eeLen < 0x7FFF

/-- Extend an extent by the block before it. -/
def Ext4Extent.prepend (next : Ext4Extent) (lblock pblock : Nat) : Ext4Extent :=
  { Ext4Extent.single lblock pblock with eeLen := next.eeLen + 1 }

/-- The part of the list from an extent before the position on. -/
def insertAfter (prev : Ext4Extent) (lblock pblock : Nat) (after : List Ext4Extent) :
    List Ext4Extent :=
  let mergePrev := mergesPrev lblock pblock prev
  match after with
  | [] =>
      if mergePrev then [{ prev with eeLen := prev.eeLen + 1 }]
      else [prev, .single lblock pblock]
  | next :: rest =>
      let mergeNext := mergesNext lblock pblock next
      let mergedLen := prev.eeLen.toNat + 1 + next.eeLen.toNat
      if mergePrev ∧ mergeNext ∧ mergedLen ≤ 0x7FFF then
        { prev with eeLen := UInt16.ofNat mergedLen } :: rest
      else if mergePrev then { prev with eeLen := prev.eeLen + 1 } :: next :: rest
      else if mergeNext then prev :: next.prepend lblock pblock :: rest
      else prev :: .single lblock pblock :: next :: rest

def insertBlockMapping (extents : List Ext4Extent) (lblock pblock : Nat) : List Ext4Extent :=
  match insertPosition lblock extents with
  | none => extents
  | some 0 =>
      match extents with
      | [] => [.single lblock pblock]
      | next :: rest =>
          if mergesNext lblock pblock next then next.prepend lblock pblock :: rest
          else .single lblock pblock :: next :: rest
  | some (before + 1) =>
      match extents.drop before with
      | [] => extents
      | prev :: after => extents.take before ++ insertAfter prev lblock pblock after

/-- The number of blocks, in 32-bit arithmetic. -/
def extentsBlocksCount (extents : List Ext4Extent) : Nat :=
  (extents.map Ext4Extent.len).sum % 2 ^ 32

namespace Ext4Extent

/-- The number of blocks by the format: lengths above 0x8000 mark unwritten
extents, and 0x8000 itself is a length. -/
def blockCount (extent : Ext4Extent) : Nat :=
  if extent.eeLen.toNat ≤ 0x8000 then extent.eeLen.toNat else extent.eeLen.toNat - 0x8000

/-- The physical blocks of an extent by the format. -/
def blocks (extent : Ext4Extent) : List Nat :=
  List.range' extent.startBlock extent.blockCount

theorem len_eq (extent : Ext4Extent) : extent.len = extent.eeLen.toNat % 0x8000 := by
  rw [len, UInt16.toNat_and]
  exact Nat.and_two_pow_sub_one_eq_mod extent.eeLen.toNat 15

theorem len_le_blockCount (extent : Ext4Extent) : extent.len ≤ extent.blockCount := by
  have bound := extent.eeLen.toNat_lt
  rw [len_eq, blockCount]
  split <;> omega

theorem len_of_lt {extent : Ext4Extent} (short : extent.eeLen.toNat < 0x8000) :
    extent.len = extent.eeLen.toNat := by
  rw [len_eq]
  exact Nat.mod_eq_of_lt short

theorem blockCount_of_lt {extent : Ext4Extent} (short : extent.eeLen.toNat < 0x8000) :
    extent.blockCount = extent.eeLen.toNat := by
  rw [blockCount, if_pos (by omega)]

theorem start_lt (extent : Ext4Extent) : extent.start < 2 ^ 32 :=
  extent.eeBlock.toNat_lt

theorem startBlock_single (lblock : Nat) {pblock : Nat} (small : pblock < 2 ^ 48) :
    (single lblock pblock).startBlock = pblock := by
  simp only [startBlock, single, UInt16.toNat_ofNat', UInt32.toNat_ofNat']
  omega

theorem start_single {lblock : Nat} (small : lblock < 2 ^ 32) (pblock : Nat) :
    (single lblock pblock).start = lblock := by
  simp only [start, single, UInt32.toNat_ofNat']
  exact Nat.mod_eq_of_lt small

/-- Logical block `lblock` lies in the extent at physical block `pblock`. -/
def Covers (extent : Ext4Extent) (lblock pblock : Nat) : Prop :=
  extent.start ≤ lblock ∧ lblock < extent.start + extent.len ∧
    pblock = extent.startBlock + (lblock - extent.start)

theorem Covers.mem_blocks {extent : Ext4Extent} {lblock pblock : Nat}
    (covers : extent.Covers lblock pblock) : pblock ∈ extent.blocks := by
  obtain ⟨lower, upper, rfl⟩ := covers
  have countLe := extent.len_le_blockCount
  rw [blocks, List.mem_range'_1]
  omega

end Ext4Extent

/-- The extents map a logical to a physical block. -/
def Maps (extents : List Ext4Extent) (lblock pblock : Nat) : Prop :=
  ∃ extent ∈ extents, extent.Covers lblock pblock

/-- Sorted by logical block and disjoint. -/
def Ordered (extents : List Ext4Extent) : Prop :=
  extents.Pairwise fun first second => first.start + first.len ≤ second.start

/-- No extent reaches the last logical block. -/
def Bounded (extents : List Ext4Extent) : Prop :=
  ∀ extent ∈ extents, extent.start + extent.len ≤ u32Max

/-- All physical blocks of a list of extents by the format. -/
def dataBlocks (extents : List Ext4Extent) : List Nat :=
  extents.flatMap Ext4Extent.blocks

theorem Maps.mem_dataBlocks {extents : List Ext4Extent} {lblock pblock : Nat}
    (maps : Maps extents lblock pblock) : pblock ∈ dataBlocks extents := by
  obtain ⟨extent, extentMem, covers⟩ := maps
  exact List.mem_flatMap.mpr ⟨extent, extentMem, covers.mem_blocks⟩

theorem maps_of_mapLogicalBlock {extents : List Ext4Extent} {lblock pblock : Nat}
    (mapped : mapLogicalBlock extents lblock = some pblock) : Maps extents lblock pblock := by
  induction extents with
  | nil => cases mapped
  | cons extent extents ih =>
      rw [mapLogicalBlock] at mapped
      split at mapped
      · next inside =>
          simp only [Option.some.injEq] at mapped
          exact ⟨extent, by simp, inside.1, Nat.lt_of_lt_of_le inside.2 (Nat.min_le_left _ _),
            mapped.symm⟩
      · obtain ⟨other, otherMem, covers⟩ := ih mapped
        exact ⟨other, by simp [otherMem], covers⟩

/-- In a sorted list a logical block lies in at most one extent. -/
theorem Maps.unique {extents : List Ext4Extent} (ordered : Ordered extents)
    {lblock first second : Nat} (firstMaps : Maps extents lblock first)
    (secondMaps : Maps extents lblock second) : first = second := by
  induction extents with
  | nil =>
      obtain ⟨extent, extentMem, _⟩ := firstMaps
      cases extentMem
  | cons extent extents ih =>
      obtain ⟨headBefore, restOrdered⟩ := List.pairwise_cons.mp ordered
      obtain ⟨firstExtent, firstMem, firstLower, firstUpper, rfl⟩ := firstMaps
      obtain ⟨secondExtent, secondMem, secondLower, secondUpper, rfl⟩ := secondMaps
      rcases List.mem_cons.mp firstMem with rfl | firstTail
      · rcases List.mem_cons.mp secondMem with rfl | secondTail
        · rfl
        · have before := headBefore secondExtent secondTail
          omega
      · rcases List.mem_cons.mp secondMem with rfl | secondTail
        · have before := headBefore firstExtent firstTail
          omega
        · exact ih restOrdered ⟨firstExtent, firstTail, firstLower, firstUpper, rfl⟩
            ⟨secondExtent, secondTail, secondLower, secondUpper, rfl⟩

/-- A mapped block is found, whatever the order of the extents. -/
theorem exists_mapLogicalBlock {extents : List Ext4Extent} {lblock pblock : Nat}
    (small : lblock < u32Max) (maps : Maps extents lblock pblock) :
    ∃ other, mapLogicalBlock extents lblock = some other := by
  induction extents with
  | nil =>
      obtain ⟨extent, extentMem, _⟩ := maps
      cases extentMem
  | cons extent extents ih =>
      rw [mapLogicalBlock]
      split
      · exact ⟨_, rfl⟩
      · next outside =>
          obtain ⟨other, otherMem, lower, upper, same⟩ := maps
          rcases List.mem_cons.mp otherMem with rfl | otherMem
          · simp only [Ext4Extent.lend] at outside
            omega
          · exact ih ⟨other, otherMem, lower, upper, same⟩

theorem mapLogicalBlock_eq_some {extents : List Ext4Extent} (ordered : Ordered extents)
    {lblock pblock : Nat} (small : lblock < u32Max) (maps : Maps extents lblock pblock) :
    mapLogicalBlock extents lblock = some pblock := by
  obtain ⟨other, mapped⟩ := exists_mapLogicalBlock small maps
  rw [mapped, (maps_of_mapLogicalBlock mapped).unique ordered maps]

theorem mapLogicalBlock_eq_none {extents : List Ext4Extent} {lblock : Nat}
    (unmapped : ∀ pblock, ¬ Maps extents lblock pblock) :
    mapLogicalBlock extents lblock = none := by
  cases mapped : mapLogicalBlock extents lblock with
  | none => rfl
  | some pblock => exact absurd (maps_of_mapLogicalBlock mapped) (unmapped pblock)

/-- The ways in which a block enters a list between `before` and `after`. -/
inductive Inserted (lblock pblock : Nat) : List Ext4Extent → List Ext4Extent →
    List Ext4Extent → Prop where
  | alone (before after : List Ext4Extent) :
      Inserted lblock pblock before after (before ++ .single lblock pblock :: after)
  | prev (before : List Ext4Extent) (extent : Ext4Extent) (after : List Ext4Extent)
      (merges : mergesPrev lblock pblock extent = true) :
      Inserted lblock pblock (before ++ [extent]) after
        (before ++ { extent with eeLen := extent.eeLen + 1 } :: after)
  | next (before : List Ext4Extent) (extent : Ext4Extent) (after : List Ext4Extent)
      (merges : mergesNext lblock pblock extent = true) :
      Inserted lblock pblock before (extent :: after)
        (before ++ extent.prepend lblock pblock :: after)
  | both (before : List Ext4Extent) (first second : Ext4Extent) (after : List Ext4Extent)
      (mergesFirst : mergesPrev lblock pblock first = true)
      (mergesSecond : mergesNext lblock pblock second = true)
      (short : first.eeLen.toNat + 1 + second.eeLen.toNat ≤ 0x7FFF) :
      Inserted lblock pblock (before ++ [first]) (second :: after)
        (before ++ { first with
          eeLen := UInt16.ofNat (first.eeLen.toNat + 1 + second.eeLen.toNat) } :: after)

theorem inserted_insertAfter (lblock pblock : Nat) (before : List Ext4Extent)
    (prev : Ext4Extent) (after : List Ext4Extent) :
    Inserted lblock pblock (before ++ [prev]) after
      (before ++ insertAfter prev lblock pblock after) := by
  have alone (rest : List Ext4Extent) : Inserted lblock pblock (before ++ [prev]) rest
      (before ++ prev :: .single lblock pblock :: rest) := by
    have inserted := @Inserted.alone lblock pblock (before ++ [prev]) rest
    rwa [List.append_assoc] at inserted
  cases after with
  | nil =>
      simp only [insertAfter]
      split
      · next merges => exact .prev before prev [] merges
      · exact alone []
  | cons next rest =>
      simp only [insertAfter]
      split
      · next merges => exact .both before prev next rest merges.1 merges.2.1 merges.2.2
      · split
        · next merges => exact .prev before prev (next :: rest) merges
        · split
          · next merges =>
              have inserted := Inserted.next (before ++ [prev]) next rest merges
              rwa [List.append_assoc] at inserted
          · exact alone (next :: rest)

theorem insertPosition_spec {lblock position : Nat} {extents : List Ext4Extent}
    (found : insertPosition lblock extents = some position) :
    position ≤ extents.length ∧
      (∀ extent ∈ extents.take position, extent.start ≤ lblock ∧ extent.lend ≤ lblock) ∧
      ∀ extent rest, extents.drop position = extent :: rest → lblock < extent.start := by
  induction extents generalizing position with
  | nil =>
      cases found
      exact ⟨Nat.le_refl _, by simp, by simp⟩
  | cons extent extents ih =>
      rw [insertPosition] at found
      split at found
      · next before =>
          cases found
          refine ⟨Nat.zero_le _, by simp, ?_⟩
          intro other rest equal
          cases equal
          exact before
      · next notBefore =>
          split at found
          · cases found
          · next notInside =>
              obtain ⟨tail, tailFound, rfl⟩ := Option.map_eq_some_iff.mp found
              obtain ⟨tailLe, tailBefore, tailAfter⟩ := ih tailFound
              refine ⟨by simpa using tailLe, ?_, by simpa using tailAfter⟩
              intro other otherMem
              rw [List.take_succ_cons, List.mem_cons] at otherMem
              rcases otherMem with rfl | otherMem
              · exact ⟨Nat.not_lt.mp notBefore, Nat.not_lt.mp notInside⟩
              · exact tailBefore other otherMem

theorem inserted_insertBlockMapping {lblock position : Nat} (pblock : Nat)
    {extents : List Ext4Extent} (found : insertPosition lblock extents = some position) :
    Inserted lblock pblock (extents.take position) (extents.drop position)
      (insertBlockMapping extents lblock pblock) := by
  unfold insertBlockMapping
  rw [found]
  cases position with
  | zero =>
      cases extents with
      | nil => exact .alone [] []
      | cons next rest =>
          simp only
          split
          · next merges => exact .next [] next rest merges
          · exact .alone [] (next :: rest)
  | succ before =>
      have positionLe := (insertPosition_spec found).1
      have split := List.drop_eq_getElem_cons (show before < extents.length by omega)
      simp only [split]
      have inserted := inserted_insertAfter lblock pblock (extents.take before)
        extents[before] (extents.drop (before + 1))
      rwa [List.take_append_getElem] at inserted

section Changed

variable {lblock pblock : Nat} {extent : Ext4Extent}

theorem mergesPrev_iff : mergesPrev lblock pblock extent = true ↔
    lblock = extent.lend ∧ pblock = extent.pend ∧ extent.eeLen.toNat < 0x7FFF := by
  simp only [mergesPrev, decide_eq_true_eq, UInt16.lt_iff_toNat_lt]
  rfl

theorem mergesNext_iff : mergesNext lblock pblock extent = true ↔
    min (lblock + 1) u32Max = extent.start ∧ pblock + 1 = extent.startBlock ∧
      extent.eeLen.toNat < 0x7FFF := by
  simp only [mergesNext, decide_eq_true_eq, UInt16.lt_iff_toNat_lt]
  rfl

theorem eeLen_succ (short : extent.eeLen.toNat < 0x7FFF) :
    (extent.eeLen + 1).toNat = extent.eeLen.toNat + 1 := by
  rw [UInt16.toNat_add]
  exact Nat.mod_eq_of_lt (by
    have one : (1 : UInt16).toNat = 1 := rfl
    omega)

/-- An extent that grew by the block behind it. -/
theorem grown_spec (merges : mergesPrev lblock pblock extent = true) (small : lblock < u32Max) :
    lblock = extent.start + extent.len ∧ pblock = extent.startBlock + extent.len ∧
      ({ extent with eeLen := extent.eeLen + 1 } : Ext4Extent).len = extent.len + 1 ∧
      ({ extent with eeLen := extent.eeLen + 1 } : Ext4Extent).eeLen.toNat =
        extent.eeLen.toNat + 1 ∧ extent.eeLen.toNat < 0x7FFF := by
  obtain ⟨lblockEq, pblockEq, short⟩ := mergesPrev_iff.mp merges
  have succ := eeLen_succ short
  refine ⟨?_, pblockEq, ?_, succ, short⟩
  · simp only [Ext4Extent.lend] at lblockEq
    omega
  · have grownShort : ({ extent with eeLen := extent.eeLen + 1 } : Ext4Extent).eeLen.toNat <
        0x8000 := by
      show (extent.eeLen + 1).toNat < 0x8000
      omega
    rw [Ext4Extent.len_of_lt grownShort, Ext4Extent.len_of_lt (by omega)]
    exact succ

/-- An extent that grew by the block before it. -/
theorem prepended_spec (merges : mergesNext lblock pblock extent = true)
    (lblockSmall : lblock < u32Max) (pblockSmall : pblock < 2 ^ 48) :
    lblock + 1 = extent.start ∧ pblock + 1 = extent.startBlock ∧
      (extent.prepend lblock pblock).start = lblock ∧
      (extent.prepend lblock pblock).startBlock = pblock ∧
      (extent.prepend lblock pblock).len = extent.len + 1 ∧
      (extent.prepend lblock pblock).eeLen.toNat = extent.eeLen.toNat + 1 ∧
      extent.eeLen.toNat < 0x7FFF := by
  obtain ⟨lblockEq, pblockEq, short⟩ := mergesNext_iff.mp merges
  have succ : (extent.prepend lblock pblock).eeLen.toNat = extent.eeLen.toNat + 1 :=
    eeLen_succ short
  refine ⟨by omega, pblockEq, ?_, ?_, ?_, succ, short⟩
  · refine Ext4Extent.start_single ?_ pblock
    simp only [u32Max] at lblockSmall
    omega
  · exact Ext4Extent.startBlock_single lblock pblockSmall
  · rw [Ext4Extent.len_of_lt (by omega), Ext4Extent.len_of_lt (by omega), succ]

theorem joined_spec {second : Ext4Extent}
    (short : extent.eeLen.toNat + 1 + second.eeLen.toNat ≤ 0x7FFF) :
    ({ extent with eeLen := UInt16.ofNat (extent.eeLen.toNat + 1 + second.eeLen.toNat) } :
        Ext4Extent).eeLen.toNat = extent.eeLen.toNat + 1 + second.eeLen.toNat ∧
      ({ extent with eeLen := UInt16.ofNat (extent.eeLen.toNat + 1 + second.eeLen.toNat) } :
        Ext4Extent).len = extent.len + 1 + second.len := by
  have lengthEq : (UInt16.ofNat (extent.eeLen.toNat + 1 + second.eeLen.toNat)).toNat =
      extent.eeLen.toNat + 1 + second.eeLen.toNat := by
    rw [UInt16.toNat_ofNat']
    exact Nat.mod_eq_of_lt (by omega)
  refine ⟨lengthEq, ?_⟩
  rw [Ext4Extent.len_of_lt (by simp only [lengthEq]; omega),
    Ext4Extent.len_of_lt (by omega), Ext4Extent.len_of_lt (by omega)]
  exact lengthEq

theorem len_single (lblock pblock : Nat) : (Ext4Extent.single lblock pblock).len = 1 := by
  show ((1 : UInt16) &&& 0x7FFF).toNat = 1
  decide

theorem blocks_of_short (short : extent.eeLen.toNat < 0x8000) :
    extent.blocks = List.range' extent.startBlock extent.len := by
  rw [Ext4Extent.blocks, Ext4Extent.blockCount_of_lt short, Ext4Extent.len_of_lt short]

end Changed

section Insertion

variable {lblock pblock : Nat} {before after result : List Ext4Extent}

/-- An insertion adds exactly the new physical block. -/
theorem Inserted.dataBlocks_perm (inserted : Inserted lblock pblock before after result)
    (lblockSmall : lblock < u32Max) (pblockSmall : pblock < 2 ^ 48) :
    (dataBlocks result).Perm (pblock :: dataBlocks (before ++ after)) := by
  cases inserted with
  | alone =>
      have blocksEq : (Ext4Extent.single lblock pblock).blocks = [pblock] := by
        rw [blocks_of_short (show (1 : UInt16).toNat < 0x8000 by decide), len_single, Ext4Extent.startBlock_single _ pblockSmall]
        rfl
      simp only [dataBlocks, List.flatMap_append, List.flatMap_cons, blocksEq]
      exact List.perm_middle
  | prev first extent after merges =>
      obtain ⟨_, pblockEq, lenEq, eeLenEq, short⟩ := grown_spec merges lblockSmall
      have blocksEq : ({ extent with eeLen := extent.eeLen + 1 } : Ext4Extent).blocks =
          extent.blocks ++ [pblock] := by
        rw [blocks_of_short (by omega), blocks_of_short (by omega), lenEq, pblockEq,
          List.range'_concat, Nat.one_mul]
        rfl
      simp only [dataBlocks, List.flatMap_append, List.flatMap_cons, blocksEq,
        List.append_assoc, List.singleton_append]
      exact (List.Perm.append_left _ List.perm_middle).trans List.perm_middle
  | next first extent after merges =>
      obtain ⟨_, pblockEq, _, startEq, lenEq, eeLenEq, short⟩ :=
        prepended_spec merges lblockSmall pblockSmall
      have blocksEq : (extent.prepend lblock pblock).blocks = pblock :: extent.blocks := by
        rw [blocks_of_short (by omega), blocks_of_short (by omega), lenEq, startEq, ← pblockEq,
          List.range'_succ]
      simp only [dataBlocks, List.flatMap_append, List.flatMap_cons, blocksEq,
        List.cons_append]
      exact List.perm_middle
  | both firsts first second after mergesFirst mergesSecond short =>
      obtain ⟨_, pblockEq, _, _, firstShort⟩ := grown_spec mergesFirst lblockSmall
      obtain ⟨_, secondStart, _, _, _, _, secondShort⟩ :=
        prepended_spec mergesSecond lblockSmall pblockSmall
      obtain ⟨eeLenEq, lenEq⟩ := joined_spec short
      have blocksEq : ({ first with
          eeLen := UInt16.ofNat (first.eeLen.toNat + 1 + second.eeLen.toNat) } :
            Ext4Extent).blocks = first.blocks ++ pblock :: second.blocks := by
        rw [blocks_of_short (by omega), blocks_of_short (by omega), blocks_of_short (by omega),
          lenEq, ← secondStart, ← List.range'_succ, pblockEq]
        have lengths : first.len + 1 + second.len = first.len + (second.len + 1) := by omega
        rw [lengths, ← List.range'_append_1]
        rfl
      simp only [dataBlocks, List.flatMap_append, List.flatMap_cons, blocksEq,
        List.append_assoc, List.cons_append]
      exact (List.Perm.append_left _ List.perm_middle).trans List.perm_middle

theorem maps_append (first second : List Ext4Extent) (l p : Nat) :
    Maps (first ++ second) l p ↔ Maps first l p ∨ Maps second l p := by
  simp only [Maps, List.mem_append, or_and_right, exists_or]

theorem maps_cons (extent : Ext4Extent) (extents : List Ext4Extent) (l p : Nat) :
    Maps (extent :: extents) l p ↔ extent.Covers l p ∨ Maps extents l p := by
  simp [Maps]

theorem maps_nil (l p : Nat) : ¬ Maps [] l p := by
  simp [Maps]

/-- An insertion adds exactly the new pair to the map. -/
theorem Inserted.maps_iff (inserted : Inserted lblock pblock before after result)
    (lblockSmall : lblock < u32Max) (pblockSmall : pblock < 2 ^ 48) (l p : Nat) :
    Maps result l p ↔ (l = lblock ∧ p = pblock) ∨ Maps (before ++ after) l p := by
  have lblock32 : lblock < 2 ^ 32 := by
    simp only [u32Max] at lblockSmall
    omega
  cases inserted with
  | alone =>
      have covers : (Ext4Extent.single lblock pblock).Covers l p ↔ l = lblock ∧ p = pblock := by
        rw [Ext4Extent.Covers, Ext4Extent.start_single lblock32,
          Ext4Extent.startBlock_single _ pblockSmall, len_single]
        omega
      rw [maps_append, maps_cons, maps_append, covers]
      tauto
  | prev first extent after merges =>
      obtain ⟨lblockEq, pblockEq, lenEq, _, _⟩ := grown_spec merges lblockSmall
      have covers : ({ extent with eeLen := extent.eeLen + 1 } : Ext4Extent).Covers l p ↔
          (l = lblock ∧ p = pblock) ∨ extent.Covers l p := by
        simp only [Ext4Extent.Covers, lenEq]
        simp only [Ext4Extent.start, Ext4Extent.startBlock] at lblockEq pblockEq ⊢
        omega
      rw [maps_append, maps_cons, maps_append, maps_append, maps_cons, covers]
      have empty := maps_nil l p
      tauto
  | next first extent after merges =>
      obtain ⟨lblockEq, pblockEq, startEq, startBlockEq, lenEq, _, _⟩ :=
        prepended_spec merges lblockSmall pblockSmall
      have covers : (extent.prepend lblock pblock).Covers l p ↔
          (l = lblock ∧ p = pblock) ∨ extent.Covers l p := by
        simp only [Ext4Extent.Covers, lenEq, startEq, startBlockEq]
        omega
      rw [maps_append, maps_cons, maps_append, maps_cons, covers]
      tauto
  | both firsts first second after mergesFirst mergesSecond short =>
      obtain ⟨lblockEq, pblockEq, _, _, _⟩ := grown_spec mergesFirst lblockSmall
      obtain ⟨secondStart, secondBlock, _, _, _, _, _⟩ :=
        prepended_spec mergesSecond lblockSmall pblockSmall
      obtain ⟨_, lenEq⟩ := joined_spec short
      have covers : ({ first with
          eeLen := UInt16.ofNat (first.eeLen.toNat + 1 + second.eeLen.toNat) } :
            Ext4Extent).Covers l p ↔
          (l = lblock ∧ p = pblock) ∨ first.Covers l p ∨ second.Covers l p := by
        simp only [Ext4Extent.Covers, lenEq]
        simp only [Ext4Extent.start, Ext4Extent.startBlock] at *
        omega
      rw [maps_append, maps_cons, maps_append, maps_append, maps_cons, maps_cons, covers]
      have empty := maps_nil l p
      tauto

/-- An insertion at its position keeps a list sorted. -/
theorem Inserted.ordered (inserted : Inserted lblock pblock before after result)
    (lblockSmall : lblock < u32Max) (pblockSmall : pblock < 2 ^ 48)
    (ordered : Ordered (before ++ after))
    (isBefore : ∀ extent ∈ before, extent.start + extent.len ≤ lblock)
    (isAfter : ∀ extent ∈ after, lblock < extent.start) : Ordered result := by
  have lblock32 : lblock < 2 ^ 32 := by
    simp only [u32Max] at lblockSmall
    omega
  simp only [Ordered] at ordered ⊢
  cases inserted with
  | alone =>
      rw [List.pairwise_append] at ordered ⊢
      refine ⟨ordered.1, List.pairwise_cons.mpr ⟨?_, ordered.2.1⟩, ?_⟩
      · intro extent extentMem
        rw [Ext4Extent.start_single lblock32, len_single]
        exact isAfter extent extentMem
      · intro first firstMem second secondMem
        rcases List.mem_cons.mp secondMem with rfl | secondTail
        · rw [Ext4Extent.start_single lblock32]
          exact isBefore first firstMem
        · exact ordered.2.2 first firstMem second secondTail
  | prev firsts extent after merges =>
      obtain ⟨lblockEq, _, lenEq, _, _⟩ := grown_spec merges lblockSmall
      rw [List.append_assoc, List.singleton_append, List.pairwise_append,
        List.pairwise_cons] at ordered
      rw [List.pairwise_append, List.pairwise_cons]
      refine ⟨ordered.1, ⟨?_, ordered.2.1.2⟩, ?_⟩
      · intro second secondMem
        have bound := isAfter second secondMem
        rw [lenEq]
        simp only [Ext4Extent.start] at lblockEq bound ⊢
        omega
      · intro first firstMem second secondMem
        rcases List.mem_cons.mp secondMem with rfl | secondTail
        · exact ordered.2.2 first firstMem extent (by simp)
        · exact ordered.2.2 first firstMem second (by simp [secondTail])
  | next firsts extent after merges =>
      obtain ⟨lblockEq, _, startEq, _, lenEq, _, _⟩ :=
        prepended_spec merges lblockSmall pblockSmall
      rw [List.pairwise_append, List.pairwise_cons] at ordered ⊢
      refine ⟨ordered.1, ⟨?_, ordered.2.1.2⟩, ?_⟩
      · intro second secondMem
        have bound := ordered.2.1.1 second secondMem
        rw [startEq, lenEq]
        omega
      · intro first firstMem second secondMem
        rcases List.mem_cons.mp secondMem with rfl | secondTail
        · rw [startEq]
          exact isBefore first firstMem
        · exact ordered.2.2 first firstMem second (by simp [secondTail])
  | both firsts first second after mergesFirst mergesSecond short =>
      obtain ⟨lblockEq, _, _, _, _⟩ := grown_spec mergesFirst lblockSmall
      obtain ⟨secondStart, _, _, _, _, _, _⟩ :=
        prepended_spec mergesSecond lblockSmall pblockSmall
      obtain ⟨_, lenEq⟩ := joined_spec short
      rw [List.append_assoc, List.singleton_append, List.pairwise_append, List.pairwise_cons,
        List.pairwise_cons] at ordered
      rw [List.pairwise_append, List.pairwise_cons]
      refine ⟨ordered.1, ⟨?_, ordered.2.1.2.2⟩, ?_⟩
      · intro third thirdMem
        have bound := ordered.2.1.2.1 third thirdMem
        rw [lenEq]
        simp only [Ext4Extent.start] at lblockEq secondStart bound ⊢
        omega
      · intro other otherMem third thirdMem
        rcases List.mem_cons.mp thirdMem with rfl | thirdTail
        · exact ordered.2.2 other otherMem first (by simp)
        · exact ordered.2.2 other otherMem third (by simp [thirdTail])

/-- Sorted, below the last logical block, and of lengths that no unwritten
extent has. -/
structure Tidy (extents : List Ext4Extent) : Prop where
  ordered : Ordered extents
  bounded : Bounded extents
  short : ∀ extent ∈ extents, extent.eeLen.toNat < 0x8000

theorem Inserted.bounded (inserted : Inserted lblock pblock before after result)
    (lblockSmall : lblock < u32Max) (pblockSmall : pblock < 2 ^ 48)
    (bounded : Bounded (before ++ after)) : Bounded result := by
  have lblock32 : lblock < 2 ^ 32 := by
    simp only [u32Max] at lblockSmall
    omega
  intro extent extentMem
  cases inserted with
  | alone =>
      rcases List.mem_append.mp extentMem with isFirst | isRest
      · exact bounded extent (by simp [isFirst])
      · rcases List.mem_cons.mp isRest with rfl | isAfter
        · rw [Ext4Extent.start_single lblock32, len_single]
          exact lblockSmall
        · exact bounded extent (by simp [isAfter])
  | prev firsts changed after merges =>
      obtain ⟨lblockEq, _, lenEq, _, _⟩ := grown_spec merges lblockSmall
      rcases List.mem_append.mp extentMem with isFirst | isRest
      · exact bounded extent (by simp [isFirst])
      · rcases List.mem_cons.mp isRest with rfl | isAfter
        · rw [lenEq]
          simp only [Ext4Extent.start] at lblockEq ⊢
          omega
        · exact bounded extent (by simp [isAfter])
  | next firsts changed after merges =>
      obtain ⟨lblockEq, _, startEq, _, lenEq, _, _⟩ :=
        prepended_spec merges lblockSmall pblockSmall
      rcases List.mem_append.mp extentMem with isFirst | isRest
      · exact bounded extent (by simp [isFirst])
      · rcases List.mem_cons.mp isRest with rfl | isAfter
        · have bound := bounded changed (by simp)
          rw [startEq, lenEq]
          omega
        · exact bounded extent (by simp [isAfter])
  | both firsts first second after mergesFirst mergesSecond short =>
      obtain ⟨lblockEq, _, _, _, _⟩ := grown_spec mergesFirst lblockSmall
      obtain ⟨secondStart, _, _, _, _, _, _⟩ :=
        prepended_spec mergesSecond lblockSmall pblockSmall
      obtain ⟨_, lenEq⟩ := joined_spec short
      rcases List.mem_append.mp extentMem with isFirst | isRest
      · exact bounded extent (by simp [isFirst])
      · rcases List.mem_cons.mp isRest with rfl | isAfter
        · have bound := bounded second (by simp)
          rw [lenEq]
          simp only [Ext4Extent.start] at lblockEq secondStart bound ⊢
          omega
        · exact bounded extent (by simp [isAfter])

theorem Inserted.short (inserted : Inserted lblock pblock before after result)
    (lblockSmall : lblock < u32Max) (pblockSmall : pblock < 2 ^ 48)
    (short : ∀ extent ∈ before ++ after, extent.eeLen.toNat < 0x8000) :
    ∀ extent ∈ result, extent.eeLen.toNat < 0x8000 := by
  intro extent extentMem
  cases inserted with
  | alone =>
      rcases List.mem_append.mp extentMem with isFirst | isRest
      · exact short extent (by simp [isFirst])
      · rcases List.mem_cons.mp isRest with rfl | isAfter
        · show (1 : UInt16).toNat < 0x8000
          decide
        · exact short extent (by simp [isAfter])
  | prev firsts changed after merges =>
      obtain ⟨_, _, _, eeLenEq, _⟩ := grown_spec merges lblockSmall
      rcases List.mem_append.mp extentMem with isFirst | isRest
      · exact short extent (by simp [isFirst])
      · rcases List.mem_cons.mp isRest with rfl | isAfter
        · omega
        · exact short extent (by simp [isAfter])
  | next firsts changed after merges =>
      obtain ⟨_, _, _, _, _, eeLenEq, _⟩ := prepended_spec merges lblockSmall pblockSmall
      rcases List.mem_append.mp extentMem with isFirst | isRest
      · exact short extent (by simp [isFirst])
      · rcases List.mem_cons.mp isRest with rfl | isAfter
        · omega
        · exact short extent (by simp [isAfter])
  | both firsts first second after mergesFirst mergesSecond joined =>
      obtain ⟨eeLenEq, _⟩ := joined_spec joined
      rcases List.mem_append.mp extentMem with isFirst | isRest
      · exact short extent (by simp [isFirst])
      · rcases List.mem_cons.mp isRest with rfl | isAfter
        · omega
        · exact short extent (by simp [isAfter])

theorem Inserted.length_le (inserted : Inserted lblock pblock before after result) :
    result.length ≤ (before ++ after).length + 1 := by
  cases inserted <;> simp <;> omega

end Insertion

theorem le_of_lend_le {extent : Ext4Extent} {lblock : Nat} (small : lblock < u32Max)
    (behind : extent.lend ≤ lblock) : extent.start + extent.len ≤ lblock := by
  simp only [Ext4Extent.lend] at behind
  omega

theorem exists_insertPosition {lblock : Nat} {extents : List Ext4Extent}
    (unmapped : mapLogicalBlock extents lblock = none) :
    ∃ position, insertPosition lblock extents = some position := by
  induction extents with
  | nil => exact ⟨0, rfl⟩
  | cons extent extents ih =>
      rw [mapLogicalBlock] at unmapped
      split at unmapped
      · cases unmapped
      · next outside =>
          obtain ⟨position, found⟩ := ih unmapped
          rw [insertPosition]
          split
          · exact ⟨0, rfl⟩
          · next notBefore =>
              rw [if_neg (by omega), found]
              exact ⟨position + 1, rfl⟩

/-- Inserting an unmapped block. -/
structure Extends (extents : List Ext4Extent) (lblock pblock : Nat)
    (result : List Ext4Extent) : Prop where
  dataBlocks : (dataBlocks result).Perm (pblock :: dataBlocks extents)
  maps : ∀ l p, Maps result l p ↔ (l = lblock ∧ p = pblock) ∨ Maps extents l p
  length : result.length ≤ extents.length + 1
  tidy : Tidy extents → Tidy result

theorem extends_insertBlockMapping {extents : List Ext4Extent} {lblock pblock : Nat}
    (lblockSmall : lblock < u32Max) (pblockSmall : pblock < 2 ^ 48)
    (unmapped : mapLogicalBlock extents lblock = none) :
    Extends extents lblock pblock (insertBlockMapping extents lblock pblock) := by
  obtain ⟨position, found⟩ := exists_insertPosition unmapped
  obtain ⟨_, isBefore, isAfter⟩ := insertPosition_spec found
  have inserted := inserted_insertBlockMapping pblock found
  have whole := List.take_append_drop position extents
  refine ⟨?_, ?_, ?_, ?_⟩
  · have perm := inserted.dataBlocks_perm lblockSmall pblockSmall
    rwa [whole] at perm
  · have maps := inserted.maps_iff lblockSmall pblockSmall
    rwa [whole] at maps
  · have lengthLe := inserted.length_le
    rwa [whole] at lengthLe
  · intro tidy
    refine ⟨inserted.ordered lblockSmall pblockSmall (by rw [whole]; exact tidy.ordered) ?_ ?_,
      inserted.bounded lblockSmall pblockSmall (by rw [whole]; exact tidy.bounded),
      inserted.short lblockSmall pblockSmall (by rw [whole]; exact tidy.short)⟩
    · intro extent extentMem
      exact le_of_lend_le lblockSmall (isBefore extent extentMem).2
    · intro extent extentMem
      have ordered : Ordered (extents.drop position) :=
        tidy.ordered.sublist (List.drop_sublist _ _)
      cases rest : extents.drop position with
      | nil =>
          rw [rest] at extentMem
          cases extentMem
      | cons first others =>
          have firstAfter := isAfter first others rest
          rw [rest] at extentMem ordered
          rcases List.mem_cons.mp extentMem with rfl | isOther
          · exact firstAfter
          · have behind := (List.pairwise_cons.mp ordered).1 extent isOther
            omega

theorem inserted_pushBlockToExtents (extents : List Ext4Extent) (lblock pblock : Nat) :
    Inserted lblock pblock extents [] (pushBlockToExtents extents lblock pblock) := by
  rcases List.eq_nil_or_concat extents with rfl | ⟨firsts, last, rfl⟩
  · exact .alone [] []
  · simp only [pushBlockToExtents, List.concat_eq_append, List.getLast?_append,
      List.getLast?_singleton, Option.some_or]
    split
    · next merges =>
        rw [List.dropLast_concat]
        exact .prev firsts last [] (mergesPrev_iff.mpr
          ⟨merges.1, merges.2.1, UInt16.lt_iff_toNat_lt.mp merges.2.2⟩)
    · exact .alone (firsts ++ [last]) []

/-- Appending a block behind all extents. -/
theorem extends_pushBlockToExtents {extents : List Ext4Extent} {lblock pblock : Nat}
    (lblockSmall : lblock < u32Max) (pblockSmall : pblock < 2 ^ 48)
    (behind : ∀ extent ∈ extents, extent.lend ≤ lblock) :
    Extends extents lblock pblock (pushBlockToExtents extents lblock pblock) := by
  have inserted := inserted_pushBlockToExtents extents lblock pblock
  have whole := List.append_nil extents
  refine ⟨?_, ?_, ?_, ?_⟩
  · have perm := inserted.dataBlocks_perm lblockSmall pblockSmall
    rwa [whole] at perm
  · have maps := inserted.maps_iff lblockSmall pblockSmall
    rwa [whole] at maps
  · have lengthLe := inserted.length_le
    rwa [whole] at lengthLe
  · intro tidy
    exact ⟨inserted.ordered lblockSmall pblockSmall (by rw [whole]; exact tidy.ordered)
        (fun extent extentMem => le_of_lend_le lblockSmall (behind extent extentMem)) (by simp),
      inserted.bounded lblockSmall pblockSmall (by rw [whole]; exact tidy.bounded),
      inserted.short lblockSmall pblockSmall (by rw [whole]; exact tidy.short)⟩

/-- Blocks `new` were added for logical blocks that had none. -/
structure Grows (extents : List Ext4Extent) (new : List Nat) (result : List Ext4Extent) :
    Prop where
  dataBlocks : (dataBlocks result).Perm (new ++ dataBlocks extents)
  kept : ∀ l p, Maps extents l p → Maps result l p
  added : ∀ l p, Maps result l p → Maps extents l p ∨ p ∈ new ∧ ∀ q, ¬ Maps extents l q
  length : result.length ≤ extents.length + new.length
  tidy : Tidy extents → Tidy result

theorem Grows.refl (extents : List Ext4Extent) : Grows extents [] extents :=
  ⟨List.Perm.refl _, fun _ _ maps => maps, fun _ _ maps => Or.inl maps, Nat.le_refl _, id⟩

theorem Extends.grows {extents middle result : List Ext4Extent} {lblock pblock : Nat}
    {new : List Nat} (first : Extends extents lblock pblock middle)
    (unmapped : ∀ q, ¬ Maps extents lblock q) (rest : Grows middle new result) :
    Grows extents (pblock :: new) result := by
  constructor
  · exact rest.dataBlocks.trans ((first.dataBlocks.append_left new).trans List.perm_middle)
  · intro l p maps
    exact rest.kept l p ((first.maps l p).mpr (Or.inr maps))
  · intro l p maps
    rcases rest.added l p maps with inMiddle | ⟨isNew, free⟩
    · rcases (first.maps l p).mp inMiddle with ⟨rfl, rfl⟩ | inFirst
      · exact Or.inr ⟨by simp, unmapped⟩
      · exact Or.inl inFirst
    · exact Or.inr ⟨by simp [isNew], fun q inFirst =>
        free q ((first.maps l q).mpr (Or.inr inFirst))⟩
  · have firstLength := first.length
    have restLength := rest.length
    simp only [List.length_cons]
    omega
  · exact fun tidy => rest.tidy (first.tidy tidy)

/-- Copy `remaining` bytes of consecutive blocks. -/
def copyBlocks (disk : Nat → Block) : (fuel curBlock physOff remaining : Nat) → List UInt8
  | 0, _, _, _ => []
  | fuel + 1, curBlock, physOff, remaining =>
      if remaining = 0 then []
      else
        let toRead := min remaining (blockSz - physOff)
        (disk curBlock).slice physOff toRead ++
          copyBlocks disk fuel (curBlock + 1) 0 (remaining - toRead)

/-- One extent of the read loop: the end of the bytes produced so far, and
these bytes.  Every byte of the buffer is overwritten in order, a gap before
an extent with zeros. -/
def readFromExtent (disk : Nat → Block) (fileStart fileEnd : Nat)
    (produced : Nat × List UInt8) (extent : Ext4Extent) : Nat × List UInt8 :=
  let coveredUntil := produced.1
  let extentStart := extent.start * blockSz
  let extentEnd := extentStart + extent.len * blockSz
  if extentEnd ≤ fileStart ∨ extentStart ≥ fileEnd then produced
  else
    let readStart := max extentStart fileStart
    let readEnd := min extentEnd fileEnd
    if readEnd ≤ readStart ∨ readEnd ≤ coveredUntil then produced
    else
      let copyStart := max readStart coveredUntil
      let gap := List.replicate (copyStart - coveredUntil) 0
      let offsetInExtent := copyStart - extentStart
      let copied := copyBlocks disk (readEnd - copyStart)
        (extent.startBlock + offsetInExtent / blockSz) (offsetInExtent % blockSz)
        (readEnd - copyStart)
      (readEnd, produced.2 ++ gap ++ copied)

/-- Read `length` bytes from parsed extents. -/
def readFromExtents (disk : Nat → Block) (extents : List Ext4Extent) (offset length : Nat) :
    List UInt8 :=
  let produced := extents.foldl (readFromExtent disk offset (offset + length)) (offset, [])
  produced.2 ++ List.replicate (offset + length - produced.1) 0

/-- The byte at a position of a file with the given extents. -/
def byteAt (disk : Nat → Block) (extents : List Ext4Extent) (position : Nat) : UInt8 :=
  match extents with
  | [] => 0
  | extent :: extents =>
      if extent.start ≤ position / blockSz ∧ position / blockSz < extent.start + extent.len then
        (disk (extent.startBlock + (position / blockSz - extent.start))).get (position % blockSz)
      else byteAt disk extents position

theorem byteAt_of_maps {disk : Nat → Block} {extents : List Ext4Extent}
    (ordered : Ordered extents) {position pblock : Nat}
    (maps : Maps extents (position / blockSz) pblock) :
    byteAt disk extents position = (disk pblock).get (position % blockSz) := by
  have found : ∃ other, Maps extents (position / blockSz) other ∧
      byteAt disk extents position = (disk other).get (position % blockSz) := by
    clear ordered
    induction extents with
    | nil => exact absurd maps (maps_nil _ _)
    | cons extent extents ih =>
        rw [byteAt]
        split
        · next inside =>
            exact ⟨_, ⟨extent, by simp, inside.1, inside.2, rfl⟩, rfl⟩
        · next outside =>
            rcases (maps_cons _ _ _ _).mp maps with covers | rest
            · exact absurd ⟨covers.1, covers.2.1⟩ outside
            · obtain ⟨other, otherMaps, byteEq⟩ := ih rest
              exact ⟨other, (maps_cons _ _ _ _).mpr (Or.inr otherMaps), byteEq⟩
  obtain ⟨other, otherMaps, byteEq⟩ := found
  rw [byteEq, otherMaps.unique ordered maps]

theorem byteAt_of_unmapped {disk : Nat → Block} {extents : List Ext4Extent} {position : Nat}
    (unmapped : ∀ pblock, ¬ Maps extents (position / blockSz) pblock) :
    byteAt disk extents position = 0 := by
  induction extents with
  | nil => rfl
  | cons extent extents ih =>
      rw [byteAt, if_neg]
      · exact ih fun pblock maps => unmapped pblock ((maps_cons _ _ _ _).mpr (Or.inr maps))
      · intro inside
        exact unmapped _ ⟨extent, by simp, inside.1, inside.2, rfl⟩

theorem copyBlocks_eq (disk : Nat → Block) {fuel curBlock physOff remaining : Nat}
    (enough : remaining ≤ fuel) (inside : physOff < blockSz) :
    copyBlocks disk fuel curBlock physOff remaining =
      (List.range remaining).map fun index =>
        (disk (curBlock + (physOff + index) / blockSz)).get ((physOff + index) % blockSz) := by
  induction fuel generalizing curBlock physOff remaining with
  | zero =>
      obtain rfl : remaining = 0 := by omega
      rfl
  | succ fuel ih =>
      rw [copyBlocks]
      by_cases done : remaining = 0
      · simp [done]
      · rw [if_neg done]
        simp only
        have positive : 0 < min remaining (blockSz - physOff) := by omega
        rw [ih (by omega) (by decide)]
        generalize readEq : min remaining (blockSz - physOff) = toRead at positive ⊢
        have split : remaining = toRead + (remaining - toRead) := by omega
        conv_rhs => rw [split, List.range_add, List.map_append, List.map_map]
        congr 1
        · rw [Bytes.slice]
          apply List.map_congr_left
          intro index indexMem
          have indexLt := List.mem_range.mp indexMem
          simp only [blockSz] at readEq inside ⊢
          rw [Nat.div_eq_of_lt (by omega), Nat.mod_eq_of_lt (by omega), Nat.add_zero]
        · apply List.map_congr_left
          intro index indexMem
          have indexLt := List.mem_range.mp indexMem
          simp only [blockSz, Function.comp_apply] at readEq inside ⊢
          have shifted : physOff + (toRead + index) = 4096 + index := by omega
          have nextBlock : curBlock + 1 + (0 + index) / 4096 =
              curBlock + (4096 + index) / 4096 := by omega
          have sameOffset : (0 + index) % 4096 = (4096 + index) % 4096 := by omega
          rw [shifted, nextBlock, sameOffset]

theorem map_range_split {α : Type} (value : Nat → α) {first middle last : Nat}
    (lower : first ≤ middle) (upper : middle ≤ last) :
    (List.range (last - first)).map (fun index => value (first + index)) =
      (List.range (middle - first)).map (fun index => value (first + index)) ++
        (List.range (last - middle)).map (fun index => value (middle + index)) := by
  have split : last - first = (middle - first) + (last - middle) := by omega
  rw [split, List.range_add, List.map_append, List.map_map]
  congr 1
  apply List.map_congr_left
  intro index _
  simp only [Function.comp_apply]
  congr 1
  omega

/-- Before the first extent of a sorted list nothing is mapped. -/
theorem byteAt_before {disk : Nat → Block} {extent : Ext4Extent} {extents : List Ext4Extent}
    (ordered : Ordered (extent :: extents)) {position : Nat}
    (before : position < extent.start * blockSz) :
    byteAt disk (extent :: extents) position = 0 := by
  apply byteAt_of_unmapped
  rintro pblock ⟨other, otherMem, lower, _, _⟩
  simp only [blockSz] at before lower
  rcases List.mem_cons.mp otherMem with rfl | isLater
  · omega
  · have behind := (List.pairwise_cons.mp ordered).1 other isLater
    omega

theorem readFromExtent_copies (disk : Nat → Block) {extent : Ext4Extent}
    {extents : List Ext4Extent} (ordered : Ordered (extent :: extents))
    {fileStart fileEnd covered : Nat} (bytes : List UInt8) (lower : fileStart ≤ covered)
    (upper : covered ≤ fileEnd)
    (overlaps : max (extent.start * blockSz) covered <
      min (extent.start * blockSz + extent.len * blockSz) fileEnd) :
    readFromExtent disk fileStart fileEnd (covered, bytes) extent =
      (min (extent.start * blockSz + extent.len * blockSz) fileEnd,
        bytes ++ (List.range (min (extent.start * blockSz + extent.len * blockSz) fileEnd -
          covered)).map fun index => byteAt disk (extent :: extents) (covered + index)) := by
  have copyStart : max (max (extent.start * blockSz) fileStart) covered =
      max (extent.start * blockSz) covered := by omega
  rw [readFromExtent, if_neg (by omega), if_neg (by omega)]
  simp only [copyStart]
  rw [map_range_split (byteAt disk (extent :: extents))
    (show covered ≤ max (extent.start * blockSz) covered by omega)
    (Nat.le_of_lt overlaps), List.append_assoc]
  congr 2
  congr 1
  · symm
    rw [List.eq_replicate_iff]
    refine ⟨by simp, ?_⟩
    intro byte byteMem
    obtain ⟨index, indexMem, rfl⟩ := List.mem_map.mp byteMem
    have indexLt := List.mem_range.mp indexMem
    exact byteAt_before ordered (by omega)
  · rw [copyBlocks_eq disk (Nat.le_refl _) (Nat.mod_lt _ (by decide))]
    apply List.map_congr_left
    intro index indexMem
    have indexLt := List.mem_range.mp indexMem
    simp only [blockSz] at overlaps indexLt ⊢
    rw [byteAt, if_pos (by simp only [blockSz]; omega)]
    simp only [blockSz]
    have sameBlock : extent.startBlock + (max (extent.start * 4096) covered -
          extent.start * 4096) / 4096 + ((max (extent.start * 4096) covered -
            extent.start * 4096) % 4096 + index) / 4096 =
        extent.startBlock + ((max (extent.start * 4096) covered + index) / 4096 -
          extent.start) := by omega
    have sameOffset : ((max (extent.start * 4096) covered - extent.start * 4096) % 4096 +
        index) % 4096 = (max (extent.start * 4096) covered + index) % 4096 := by omega
    rw [sameBlock, sameOffset]

/-- The read loop produces the bytes of the file one after the other. -/
theorem readFromExtents_loop (disk : Nat → Block) {extents : List Ext4Extent}
    (ordered : Ordered extents) {fileStart fileEnd covered : Nat} (bytes : List UInt8)
    (lower : fileStart ≤ covered) (upper : covered ≤ fileEnd) :
    (extents.foldl (readFromExtent disk fileStart fileEnd) (covered, bytes)).2 ++
        List.replicate (fileEnd -
          (extents.foldl (readFromExtent disk fileStart fileEnd) (covered, bytes)).1) 0 =
      bytes ++ (List.range (fileEnd - covered)).map fun index =>
        byteAt disk extents (covered + index) := by
  induction extents generalizing covered bytes with
  | nil =>
      simp only [List.foldl_nil, byteAt]
      rw [List.map_const', List.length_range]
  | cons extent extents ih =>
      obtain ⟨headBefore, restOrdered⟩ := List.pairwise_cons.mp ordered
      rw [List.foldl_cons]
      by_cases skipped : min (extent.start * blockSz + extent.len * blockSz) fileEnd ≤
          max (extent.start * blockSz) covered
      · have unchanged : readFromExtent disk fileStart fileEnd (covered, bytes) extent =
            (covered, bytes) := by
          rw [readFromExtent]
          split
          · rfl
          · rw [if_pos (by omega)]
        rw [unchanged, ih restOrdered bytes lower upper]
        congr 1
        apply List.map_congr_left
        intro index indexMem
        have indexLt := List.mem_range.mp indexMem
        rw [byteAt, if_neg]
        simp only [blockSz] at skipped ⊢
        omega
      · have copied : readFromExtent disk fileStart fileEnd (covered, bytes) extent =
            (min (extent.start * blockSz + extent.len * blockSz) fileEnd,
              bytes ++ (List.range (min (extent.start * blockSz + extent.len * blockSz) fileEnd -
                covered)).map fun index => byteAt disk (extent :: extents) (covered + index)) := by
          exact readFromExtent_copies disk ordered bytes lower upper (by omega)
        rw [copied, ih restOrdered _ (by omega) (by omega), List.append_assoc]
        congr 1
        rw [map_range_split (byteAt disk (extent :: extents))
          (show covered ≤ min (extent.start * blockSz + extent.len * blockSz) fileEnd by omega)
          (show min (extent.start * blockSz + extent.len * blockSz) fileEnd ≤ fileEnd by omega)]
        congr 1
        apply List.map_congr_left
        intro index indexMem
        have indexLt := List.mem_range.mp indexMem
        rw [byteAt, if_neg]
        simp only [blockSz] at indexLt ⊢
        omega

theorem readFromExtents_eq (disk : Nat → Block) {extents : List Ext4Extent}
    (ordered : Ordered extents) (offset length : Nat) :
    readFromExtents disk extents offset length =
      (List.range length).map fun index => byteAt disk extents (offset + index) := by
  have loop := readFromExtents_loop disk ordered [] (Nat.le_refl offset)
    (Nat.le_add_right offset length)
  rwa [List.nil_append, Nat.add_sub_cancel_left] at loop

end Ext4

end OSWorkspace
