import OSWorkspace.EasyFsInodes

/-!
# Accounting for the blocks of easy-fs inodes

The block map of an inode lists the blocks of its file and, in the order in
which they are allocated, the blocks of the indirect levels.  Growing appends
to both lists, so that an inode owns exactly the ids that it was given.
-/

namespace OSWorkspace

namespace EasyFs

open Exec

theorem entry_setEntry (block : Block) {index value : Nat} (inside : index < 128)
    (inWord : value < 2 ^ 32) : entry (setEntry block index value) index = value := by
  have fits : 4 * index + 4 ≤ blockSz := by
    simp only [blockSz]
    omega
  rw [entry, setEntry, Bytes.uint_putUint _ _ fits, Nat.mod_eq_of_lt (by omega)]

@[simp]
theorem entry_zeroed (index : Nat) : entry .zeroed index = 0 := by
  simp [entry, Bytes.uint, leValue]

theorem entry_setEntry_ne (block : Block) {index other : Nat} (value : Nat)
    (differs : other ≠ index) : entry (setEntry block index value) other = entry block other := by
  rw [entry, setEntry, Bytes.uint_putUint_outside _ _ (by omega), entry]

namespace DiskInode

variable (inode : DiskInode)

theorem size_setSize {value : Nat} (inWord : value < 2 ^ 32) :
    (inode.setSize value).size = value := by
  rw [size, setSize, Bytes.uint_putUint _ _ (by decide), Nat.mod_eq_of_lt (by omega)]

theorem direct_setDirect {index value : Nat} (inside : index < 28) (inWord : value < 2 ^ 32) :
    (inode.setDirect index value).direct index = value := by
  have fits : 4 + 4 * index + 4 ≤ diskInodeSize := by
    simp only [diskInodeSize]
    omega
  rw [direct, setDirect, Bytes.uint_putUint _ _ fits, Nat.mod_eq_of_lt (by omega)]

theorem indirect1_setIndirect1 {value : Nat} (inWord : value < 2 ^ 32) :
    (inode.setIndirect1 value).indirect1 = value := by
  rw [indirect1, setIndirect1, Bytes.uint_putUint _ _ (by decide), Nat.mod_eq_of_lt (by omega)]

theorem indirect2_setIndirect2 {value : Nat} (inWord : value < 2 ^ 32) :
    (inode.setIndirect2 value).indirect2 = value := by
  rw [indirect2, setIndirect2, Bytes.uint_putUint _ _ (by decide), Nat.mod_eq_of_lt (by omega)]

theorem direct_setDirect_ne {index other : Nat} (value : Nat) (differs : other ≠ index) :
    (inode.setDirect index value).direct other = inode.direct other :=
  Bytes.uint_putUint_outside _ _ (by omega)

/-- The inodes agree but for their ids of direct blocks. -/
structure SameBut (first second : DiskInode) : Prop where
  size : first.size = second.size
  isDir : first.isDir = second.isDir

theorem sameBut_setDirect {index value : Nat} (inside : index < 28) :
    SameBut (inode.setDirect index value) inode where
  size := Bytes.uint_putUint_outside _ _ (by omega)
  isDir := by
    rw [isDir, setDirect, Bytes.putUint, Bytes.get_overlay_outside _ _ (by omega), isDir]

theorem sameBut_setIndirect1 (value : Nat) : SameBut (inode.setIndirect1 value) inode where
  size := Bytes.uint_putUint_outside _ _ (by omega)
  isDir := by
    rw [isDir, setIndirect1, Bytes.putUint, Bytes.get_overlay_outside _ _ (by omega), isDir]

theorem sameBut_setIndirect2 (value : Nat) : SameBut (inode.setIndirect2 value) inode where
  size := Bytes.uint_putUint_outside _ _ (by omega)
  isDir := by
    rw [isDir, setIndirect2, Bytes.putUint, Bytes.get_overlay_outside _ _ (by omega), isDir]

end DiskInode

/-- An inode on a device, with the number of blocks and of indirect blocks that
are in use. -/
structure BlockMap where
  inode : DiskInode
  disk : Nat → Block
  blocks : Nat
  indexes : Nat

namespace BlockMap

/-- The block at a position of the file. -/
def blockAt (map : BlockMap) (position : Nat) : Nat :=
  if position < inodeDirectCount then map.inode.direct position
  else if position < indirect1Bound then
    entry (map.disk map.inode.indirect1) (position - inodeDirectCount)
  else
    entry (map.disk (entry (map.disk map.inode.indirect2)
        ((position - indirect1Bound) / inodeIndirect1Count)))
      ((position - indirect1Bound) % inodeIndirect1Count)

/-- The indirect blocks, in the order in which they are allocated. -/
def indexAt (map : BlockMap) : Nat → Nat
  | 0 => map.inode.indirect1
  | 1 => map.inode.indirect2
  | low + 2 => entry (map.disk map.inode.indirect2) low

/-- All blocks in use. -/
def ids (map : BlockMap) : List Nat :=
  (List.range map.blocks).map map.blockAt ++ (List.range map.indexes).map map.indexAt

/-- The inode owns exactly the ids that it was given. -/
structure Owns (map : BlockMap) (given : List Nat) : Prop where
  ids : map.ids.Perm given
  nodup : given.Nodup

/-- A later map has the blocks of an earlier one where they were, and nothing but
indirect blocks was written. -/
structure Grows (map later : BlockMap) : Prop where
  blocks : map.blocks ≤ later.blocks
  indexes : map.indexes ≤ later.indexes
  blockAt : ∀ position < map.blocks, later.blockAt position = map.blockAt position
  indexAt : ∀ level < map.indexes, later.indexAt level = map.indexAt level
  frame : ∀ blockId, (∀ level < later.indexes, blockId ≠ later.indexAt level) →
    later.disk blockId = map.disk blockId

/-- All places for ids that are not in use hold zero. -/
structure Blank (map : BlockMap) : Prop where
  direct : ∀ position < 28, map.blocks ≤ position → map.inode.direct position = 0
  indirect1 : map.indexes = 0 → map.inode.indirect1 = 0
  indirect2 : map.indexes ≤ 1 → map.inode.indirect2 = 0
  first : 0 < map.indexes → ∀ offset < 128, map.blocks ≤ 28 + offset →
    entry (map.disk map.inode.indirect1) offset = 0
  second : 1 < map.indexes → ∀ low < 128, map.indexes ≤ low + 2 →
    entry (map.disk map.inode.indirect2) low = 0
  behind : ∀ low, low + 2 < map.indexes → ∀ offset < 128,
    map.blocks ≤ 156 + (128 * low + offset) →
      entry (map.disk (map.indexAt (low + 2))) offset = 0

/-- A map that was given further ids and has grown by them. -/
structure Extends (map later : BlockMap) (given taken : List Nat) : Prop where
  owns : later.Owns (given ++ taken)
  grows : map.Grows later
  inode : DiskInode.SameBut later.inode map.inode
  blank : (∀ blockId ∈ taken, map.disk blockId = .zeroed) → map.Blank → later.Blank

section Rules

variable {map later last : BlockMap} {given taken others : List Nat}

theorem Grows.refl (map : BlockMap) : map.Grows map :=
  ⟨le_refl _, le_refl _, fun _ _ => rfl, fun _ _ => rfl, fun _ _ => rfl⟩

theorem Grows.trans (first : map.Grows later) (second : later.Grows last) : map.Grows last where
  blocks := first.blocks.trans second.blocks
  indexes := first.indexes.trans second.indexes
  blockAt position inside := (second.blockAt position (by have := first.blocks; omega)).trans
    (first.blockAt position inside)
  indexAt level inside := (second.indexAt level (by have := first.indexes; omega)).trans
    (first.indexAt level inside)
  frame blockId unused := by
    rw [second.frame blockId unused]
    refine first.frame blockId fun level inside => ?_
    rw [← second.indexAt level inside]
    exact unused level (by have := second.indexes; omega)

theorem Owns.index_mem (owns : map.Owns given) {level : Nat} (inside : level < map.indexes) :
    map.indexAt level ∈ given :=
  owns.ids.mem_iff.mp (List.mem_append_right _
    (List.mem_map.mpr ⟨level, List.mem_range.mpr inside, rfl⟩))

theorem Extends.refl (owns : map.Owns given) : map.Extends map given [] :=
  ⟨by rwa [List.append_nil], Grows.refl map, ⟨rfl, rfl⟩, fun _ blank => blank⟩

theorem Extends.trans (first : map.Extends later given taken)
    (second : later.Extends last (given ++ taken) others) :
    map.Extends last given (taken ++ others) where
  owns := by
    rw [← List.append_assoc]
    exact second.owns
  grows := first.grows.trans second.grows
  inode := ⟨second.inode.size.trans first.inode.size, second.inode.isDir.trans first.inode.isDir⟩
  blank zeroed blank := by
    refine second.blank (fun blockId isOther => ?_)
      (first.blank (fun blockId isTaken => zeroed _ (List.mem_append_left _ isTaken)) blank)
    have apart := (List.nodup_append.mp second.owns.nodup).2.2
    rw [first.grows.frame blockId fun level inside same =>
      apart _ (first.owns.index_mem inside) _ isOther same.symm]
    exact zeroed _ (List.mem_append_right _ isOther)

/-- A map that has the old blocks and one more owns that one. -/
theorem Owns.addBlock (owns : map.Owns given) (grows : map.Grows later)
    (sameBut : DiskInode.SameBut later.inode map.inode) {blockId : Nat}
    (blank : map.disk blockId = .zeroed → map.Blank → later.Blank)
    (blocks : later.blocks = map.blocks + 1) (indexes : later.indexes = map.indexes)
    (isNew : later.blockAt map.blocks = blockId) (fresh : blockId ∉ given) :
    map.Extends later given [blockId] := by
  have oldBlocks : (List.range map.blocks).map later.blockAt =
      (List.range map.blocks).map map.blockAt :=
    List.map_congr_left fun position inside => grows.blockAt position (List.mem_range.mp inside)
  have oldIndexes : (List.range map.indexes).map later.indexAt =
      (List.range map.indexes).map map.indexAt :=
    List.map_congr_left fun level inside => grows.indexAt level (List.mem_range.mp inside)
  refine ⟨⟨?_, ?_⟩, grows, sameBut, fun zeroed => blank (zeroed _ List.mem_cons_self)⟩
  · rw [BlockMap.ids, blocks, indexes, List.range_succ, List.map_append, List.map_singleton, isNew,
      oldBlocks, oldIndexes, List.append_assoc, List.singleton_append]
    refine List.perm_middle.trans ?_
    exact (List.Perm.cons blockId owns.ids).trans (List.perm_append_singleton blockId given).symm
  · exact List.nodup_append.mpr ⟨owns.nodup, List.nodup_singleton _, fun first firstMem second
      secondMem same => fresh (by rwa [← List.mem_singleton.mp secondMem, ← same])⟩

theorem Owns.addIndex (owns : map.Owns given) (grows : map.Grows later)
    (sameBut : DiskInode.SameBut later.inode map.inode) {blockId : Nat}
    (blank : map.disk blockId = .zeroed → map.Blank → later.Blank)
    (blocks : later.blocks = map.blocks) (indexes : later.indexes = map.indexes + 1)
    (isNew : later.indexAt map.indexes = blockId) (fresh : blockId ∉ given) :
    map.Extends later given [blockId] := by
  have oldBlocks : (List.range map.blocks).map later.blockAt =
      (List.range map.blocks).map map.blockAt :=
    List.map_congr_left fun position inside => grows.blockAt position (List.mem_range.mp inside)
  have oldIndexes : (List.range map.indexes).map later.indexAt =
      (List.range map.indexes).map map.indexAt :=
    List.map_congr_left fun level inside => grows.indexAt level (List.mem_range.mp inside)
  refine ⟨⟨?_, ?_⟩, grows, sameBut, fun zeroed => blank (zeroed _ List.mem_cons_self)⟩
  · rw [BlockMap.ids, blocks, indexes, List.range_succ, List.map_append, List.map_singleton, isNew,
      oldBlocks, oldIndexes, ← List.append_assoc]
    exact owns.ids.append_right [blockId]
  · exact List.nodup_append.mpr ⟨owns.nodup, List.nodup_singleton _, fun first firstMem second
      secondMem same => fresh (by rwa [← List.mem_singleton.mp secondMem, ← same])⟩

theorem Owns.ids_nodup (owns : map.Owns given) : map.ids.Nodup := owns.ids.nodup_iff.mpr owns.nodup

theorem Owns.index_ne (owns : map.Owns given) {first second : Nat}
    (firstInside : first < map.indexes) (secondInside : second < map.indexes)
    (differs : first ≠ second) : map.indexAt first ≠ map.indexAt second := by
  intro same
  have nodup := (List.nodup_append.mp owns.ids_nodup).2.1
  exact differs (List.inj_on_of_nodup_map nodup (List.mem_range.mpr firstInside)
    (List.mem_range.mpr secondInside) same)

theorem Owns.block_ne (owns : map.Owns given) {first second : Nat}
    (firstInside : first < map.blocks) (secondInside : second < map.blocks)
    (differs : first ≠ second) : map.blockAt first ≠ map.blockAt second := by
  intro same
  have nodup := (List.nodup_append.mp owns.ids_nodup).1
  exact differs (List.inj_on_of_nodup_map nodup (List.mem_range.mpr firstInside)
    (List.mem_range.mpr secondInside) same)

theorem Owns.block_mem (owns : map.Owns given) {position : Nat} (inside : position < map.blocks) :
    map.blockAt position ∈ given :=
  owns.ids.mem_iff.mp (List.mem_append_left _
    (List.mem_map.mpr ⟨position, List.mem_range.mpr inside, rfl⟩))

theorem Owns.block_ne_index (owns : map.Owns given) {position level : Nat}
    (blockInside : position < map.blocks) (indexInside : level < map.indexes) :
    map.blockAt position ≠ map.indexAt level :=
  (List.nodup_append.mp owns.ids_nodup).2.2 _
    (List.mem_map.mpr ⟨position, List.mem_range.mpr blockInside, rfl⟩) _
    (List.mem_map.mpr ⟨level, List.mem_range.mpr indexInside, rfl⟩)

end Rules

section Positions

variable (map : BlockMap)

theorem blockAt_direct {position : Nat} (inside : position < 28) :
    map.blockAt position = map.inode.direct position :=
  if_pos inside

theorem blockAt_indirect1 {offset : Nat} (inside : offset < 128) :
    map.blockAt (28 + offset) = entry (map.disk map.inode.indirect1) offset := by
  have notDirect : ¬ 28 + offset < inodeDirectCount := by
    simp only [inodeDirectCount]
    omega
  have isIndirect1 : 28 + offset < indirect1Bound := by
    change 28 + offset < 156
    omega
  rw [blockAt, if_neg notDirect, if_pos isIndirect1, inodeDirectCount, Nat.add_sub_cancel_left]

theorem blockAt_indirect2 (low : Nat) {offset : Nat} (inside : offset < 128) :
    map.blockAt (156 + (128 * low + offset)) = entry (map.disk (map.indexAt (low + 2))) offset := by
  have notDirect : ¬ 156 + (128 * low + offset) < inodeDirectCount := by
    simp only [inodeDirectCount]
    omega
  have notIndirect1 : ¬ 156 + (128 * low + offset) < indirect1Bound := by
    change ¬ 156 + (128 * low + offset) < 156
    omega
  have behind : 156 + (128 * low + offset) - indirect1Bound = 128 * low + offset :=
    Nat.add_sub_cancel_left 156 _
  have quotient : (128 * low + offset) / inodeIndirect1Count = low := by
    change (128 * low + offset) / 128 = low
    omega
  have remainder : (128 * low + offset) % inodeIndirect1Count = offset := by
    change (128 * low + offset) % 128 = offset
    omega
  rw [blockAt, if_neg notDirect, if_neg notIndirect1, behind, quotient, remainder, indexAt]

/-- The three levels. -/
theorem position_cases (position : Nat) :
    position < 28 ∨ (∃ offset < 128, position = 28 + offset) ∨
      ∃ low, ∃ offset < 128, position = 156 + (128 * low + offset) := by
  by_cases isDirect : position < 28
  · exact Or.inl isDirect
  · by_cases isIndirect1 : position < 156
    · exact Or.inr (Or.inl ⟨position - 28, by omega, by omega⟩)
    · exact Or.inr (Or.inr ⟨(position - 156) / 128, (position - 156) % 128, by omega, by omega⟩)

end Positions

section Allocations

variable {map : BlockMap} {given : List Nat} {blockId : Nat}

/-- Give the next direct block. -/
def giveDirect (map : BlockMap) (blockId : Nat) : BlockMap :=
  { map with inode := map.inode.setDirect map.blocks blockId, blocks := map.blocks + 1 }

/-- Give the indirect block of the first level. -/
def giveIndirect1 (map : BlockMap) (blockId : Nat) : BlockMap :=
  { map with inode := map.inode.setIndirect1 blockId, indexes := map.indexes + 1 }

/-- Give the indirect block of the second level. -/
def giveIndirect2 (map : BlockMap) (blockId : Nat) : BlockMap :=
  { map with inode := map.inode.setIndirect2 blockId, indexes := map.indexes + 1 }

/-- Change an entry of a block. -/
def putEntry (map : BlockMap) (target index blockId : Nat) : BlockMap :=
  { map with
    disk := Function.update map.disk target (setEntry (map.disk target) index blockId) }

/-- Give the next block, named by an entry of an indirect block. -/
def giveEntry (map : BlockMap) (target index blockId : Nat) : BlockMap :=
  { map.putEntry target index blockId with blocks := map.blocks + 1 }

/-- Give the next indirect block below indirect2. -/
def giveLow (map : BlockMap) (low blockId : Nat) : BlockMap :=
  { map.putEntry map.inode.indirect2 low blockId with indexes := map.indexes + 1 }

theorem putEntry_disk_of_ne {target index other : Nat} (differs : other ≠ target) :
    (map.putEntry target index blockId).disk other = map.disk other :=
  Function.update_of_ne differs _ _

theorem putEntry_disk_self (target index : Nat) :
    (map.putEntry target index blockId).disk target = setEntry (map.disk target) index blockId :=
  Function.update_self _ _ _

theorem entry_putEntry_self (map : BlockMap) (target : Nat) {index : Nat} (inside : index < 128)
    (inWord : blockId < 2 ^ 32) :
    entry ((map.putEntry target index blockId).disk target) index = blockId := by
  rw [putEntry_disk_self, entry_setEntry _ inside inWord]

/-- An entry that is not changed. -/
theorem entry_putEntry (map : BlockMap) (target index blockId : Nat) {other otherIndex : Nat}
    (differs : other = target → otherIndex ≠ index) :
    entry ((map.putEntry target index blockId).disk other) otherIndex =
      entry (map.disk other) otherIndex := by
  by_cases same : other = target
  · rw [same, putEntry_disk_self, entry_setEntry_ne _ _ (differs same)]
  · rw [putEntry_disk_of_ne same]

theorem giveEntry_disk (map : BlockMap) (target index blockId : Nat) :
    (map.giveEntry target index blockId).disk = (map.putEntry target index blockId).disk :=
  rfl

theorem giveLow_disk (map : BlockMap) (low blockId : Nat) :
    (map.giveLow low blockId).disk = (map.putEntry map.inode.indirect2 low blockId).disk :=
  rfl

theorem entry_giveEntry (map : BlockMap) (target index blockId : Nat) {other otherIndex : Nat}
    (differs : other = target → otherIndex ≠ index) :
    entry ((map.giveEntry target index blockId).disk other) otherIndex =
      entry (map.disk other) otherIndex := by
  rw [giveEntry_disk, entry_putEntry map target index blockId differs]

theorem entry_giveLow (map : BlockMap) (low blockId : Nat) {other otherIndex : Nat}
    (differs : other = map.inode.indirect2 → otherIndex ≠ low) :
    entry ((map.giveLow low blockId).disk other) otherIndex =
      entry (map.disk other) otherIndex := by
  rw [giveLow_disk, entry_putEntry map map.inode.indirect2 low blockId differs]

theorem Owns.giveDirect (owns : map.Owns given) (direct : map.blocks < 28)
    (noIndexes : map.indexes = 0) (inWord : blockId < 2 ^ 32) (fresh : blockId ∉ given) :
    map.Extends (map.giveDirect blockId) given [blockId] := by
  have grows : map.Grows (map.giveDirect blockId) := by
    refine ⟨Nat.le_succ _, le_refl _, ?_, ?_, fun _ _ => rfl⟩
    · intro position inside
      rw [blockAt_direct _ (by omega), blockAt_direct _ (by omega)]
      exact DiskInode.direct_setDirect_ne _ _ (by omega)
    · intro level inside
      omega
  have blank (_ : map.disk blockId = .zeroed) (old : map.Blank) :
      (map.giveDirect blockId).Blank := by
    have more : (map.giveDirect blockId).blocks = map.blocks + 1 := rfl
    have same : (map.giveDirect blockId).indexes = map.indexes := rfl
    refine ⟨fun position inside unused => ?_, fun none => ?_, fun few => ?_, by omega, by omega,
      by omega⟩
    · exact (DiskInode.direct_setDirect_ne _ _ (by omega)).trans (old.direct _ inside (by omega))
    · exact (Bytes.uint_putUint_outside _ _ (by omega)).trans (old.indirect1 noIndexes)
    · exact (Bytes.uint_putUint_outside _ _ (by omega)).trans (old.indirect2 (by omega))
  refine owns.addBlock grows (DiskInode.sameBut_setDirect _ direct) blank rfl rfl ?_ fresh
  rw [blockAt_direct _ direct]
  exact DiskInode.direct_setDirect _ direct inWord

theorem Owns.giveIndirect1 (owns : map.Owns given) (direct : map.blocks ≤ 28)
    (noIndexes : map.indexes = 0) (inWord : blockId < 2 ^ 32) (fresh : blockId ∉ given) :
    map.Extends (map.giveIndirect1 blockId) given [blockId] := by
  have grows : map.Grows (map.giveIndirect1 blockId) := by
    refine ⟨le_refl _, Nat.le_succ _, ?_, ?_, fun _ _ => rfl⟩
    · intro position inside
      rw [blockAt_direct _ (by omega), blockAt_direct _ (by omega)]
      exact Bytes.uint_putUint_outside _ _ (by omega)
    · intro level inside
      omega
  have blank (zeroed : map.disk blockId = .zeroed) (old : map.Blank) :
      (map.giveIndirect1 blockId).Blank := by
    have same : (map.giveIndirect1 blockId).blocks = map.blocks := rfl
    have more : (map.giveIndirect1 blockId).indexes = map.indexes + 1 := rfl
    refine ⟨fun position inside unused => ?_, by omega, fun few => ?_, fun _ offset _ _ => ?_,
      by omega, by omega⟩
    · exact (Bytes.uint_putUint_outside _ _ (by omega)).trans (old.direct _ inside unused)
    · exact (Bytes.uint_putUint_outside _ _ (by omega)).trans (old.indirect2 (by omega))
    · have isNew : (map.giveIndirect1 blockId).inode.indirect1 = blockId :=
        DiskInode.indirect1_setIndirect1 _ inWord
      have sameDisk : (map.giveIndirect1 blockId).disk = map.disk := rfl
      rw [isNew, sameDisk, zeroed, entry_zeroed]
  refine owns.addIndex grows (DiskInode.sameBut_setIndirect1 _ _) blank rfl rfl ?_ fresh
  rw [noIndexes]
  exact DiskInode.indirect1_setIndirect1 _ inWord

theorem Owns.giveIndirect2 (owns : map.Owns given) (within : map.blocks ≤ 156)
    (oneIndex : map.indexes = 1) (inWord : blockId < 2 ^ 32) (fresh : blockId ∉ given) :
    map.Extends (map.giveIndirect2 blockId) given [blockId] := by
  have sameIndirect1 : (map.inode.setIndirect2 blockId).indirect1 = map.inode.indirect1 :=
    Bytes.uint_putUint_outside _ _ (by omega)
  have grows : map.Grows (map.giveIndirect2 blockId) := by
    refine ⟨le_refl _, Nat.le_succ _, ?_, ?_, fun _ _ => rfl⟩
    · intro position inside
      rcases position_cases position with isDirect | ⟨offset, offsetLt, rfl⟩ |
        ⟨low, offset, _, rfl⟩
      · rw [blockAt_direct _ isDirect, blockAt_direct _ isDirect]
        exact Bytes.uint_putUint_outside _ _ (by omega)
      · rw [blockAt_indirect1 _ offsetLt, blockAt_indirect1 _ offsetLt]
        exact congrArg (fun index => entry (map.disk index) offset) sameIndirect1
      · omega
    · intro level inside
      obtain rfl : level = 0 := by omega
      exact sameIndirect1
  have blank (zeroed : map.disk blockId = .zeroed) (old : map.Blank) :
      (map.giveIndirect2 blockId).Blank := by
    have same : (map.giveIndirect2 blockId).blocks = map.blocks := rfl
    have more : (map.giveIndirect2 blockId).indexes = map.indexes + 1 := rfl
    have sameDisk : (map.giveIndirect2 blockId).disk = map.disk := rfl
    refine ⟨fun position inside unused => ?_, by omega, by omega, fun _ offset offsetLt unused => ?_,
      fun _ low _ _ => ?_, by omega⟩
    · exact (Bytes.uint_putUint_outside _ _ (by omega)).trans (old.direct _ inside unused)
    · have sameFirst : (map.giveIndirect2 blockId).inode.indirect1 = map.inode.indirect1 :=
        sameIndirect1
      rw [sameFirst, sameDisk, old.first (by omega) _ offsetLt unused]
    · have isNew : (map.giveIndirect2 blockId).inode.indirect2 = blockId :=
        DiskInode.indirect2_setIndirect2 _ inWord
      rw [isNew, sameDisk, zeroed, entry_zeroed]
  refine owns.addIndex grows (DiskInode.sameBut_setIndirect2 _ _) blank rfl rfl ?_ fresh
  rw [oneIndex]
  exact DiskInode.indirect2_setIndirect2 _ inWord

/-- Fill the first level. -/
theorem Owns.giveEntry1 (owns : map.Owns given) {offset : Nat} (offsetLt : offset < 128)
    (blocks : map.blocks = 28 + offset) (oneIndex : map.indexes = 1)
    (inWord : blockId < 2 ^ 32) (fresh : blockId ∉ given) :
    map.Extends (map.giveEntry map.inode.indirect1 offset blockId) given [blockId] := by
  have grows : map.Grows (map.giveEntry map.inode.indirect1 offset blockId) := by
    refine ⟨Nat.le_succ _, le_refl _, ?_, ?_, ?_⟩
    · intro position inside
      rcases position_cases position with isDirect | ⟨other, otherLt, rfl⟩ |
        ⟨low, other, _, rfl⟩
      · rw [blockAt_direct _ isDirect, blockAt_direct _ isDirect]
        rfl
      · rw [blockAt_indirect1 _ otherLt, blockAt_indirect1 _ otherLt]
        exact entry_giveEntry map map.inode.indirect1 offset blockId fun _ => by omega
      · omega
    · intro level inside
      obtain rfl : level = 0 := by omega
      rfl
    · intro other unused
      refine putEntry_disk_of_ne ?_
      have used : 0 < map.indexes := by omega
      exact unused 0 used
  have blank (_ : map.disk blockId = .zeroed) (old : map.Blank) :
      (map.giveEntry map.inode.indirect1 offset blockId).Blank := by
    have more : (map.giveEntry map.inode.indirect1 offset blockId).blocks = map.blocks + 1 := rfl
    have same : (map.giveEntry map.inode.indirect1 offset blockId).indexes = map.indexes := rfl
    refine ⟨by omega, by omega, fun _ => old.indirect2 (by omega),
      fun _ other otherLt unused => ?_, by omega, by omega⟩
    exact (entry_giveEntry map map.inode.indirect1 offset blockId fun _ => by omega).trans
      (old.first (by omega) _ otherLt (by omega))
  refine owns.addBlock grows ⟨rfl, rfl⟩ blank rfl rfl ?_ fresh
  have sameInode : (map.giveEntry map.inode.indirect1 offset blockId).inode = map.inode := rfl
  rw [blocks, blockAt_indirect1 _ offsetLt, giveEntry_disk, sameInode]
  exact entry_putEntry_self map map.inode.indirect1 offsetLt inWord

/-- Fill the second level with an indirect block. -/
theorem Owns.giveLow (owns : map.Owns given) {low : Nat} (lowLt : low < 128)
    (blocks : map.blocks = 156 + 128 * low) (indexes : map.indexes = low + 2)
    (inWord : blockId < 2 ^ 32) (fresh : blockId ∉ given) :
    map.Extends (map.giveLow low blockId) given [blockId] := by
  have apart (level : Nat) (inside : level < map.indexes) (differs : level ≠ 1) :
      map.indexAt level ≠ map.inode.indirect2 :=
    owns.index_ne inside (by omega : 1 < map.indexes) differs
  have sameLow (other : Nat) (before : other < low) :
      (map.giveLow low blockId).indexAt (other + 2) = map.indexAt (other + 2) :=
    entry_giveLow map low blockId fun _ => by omega
  have grows : map.Grows (map.giveLow low blockId) := by
    refine ⟨le_refl _, Nat.le_succ _, ?_, ?_, ?_⟩
    · intro position inside
      rcases position_cases position with isDirect | ⟨other, otherLt, rfl⟩ |
        ⟨upper, other, otherLt, rfl⟩
      · rw [blockAt_direct _ isDirect, blockAt_direct _ isDirect]
        rfl
      · rw [blockAt_indirect1 _ otherLt, blockAt_indirect1 _ otherLt]
        exact entry_giveLow map low blockId fun same =>
          absurd same (apart 0 (by omega) (by omega))
      · rw [blockAt_indirect2 _ _ otherLt, blockAt_indirect2 _ _ otherLt, sameLow _ (by omega)]
        exact entry_giveLow map low blockId fun same =>
          absurd same (apart (upper + 2) (by omega) (by omega))
    · intro level inside
      rcases level with _ | _ | other
      · rfl
      · rfl
      · exact sameLow other (by omega)
    · intro other unused
      refine putEntry_disk_of_ne ?_
      have used : 1 < map.indexes + 1 := by omega
      exact unused 1 used
  have isNew : (map.giveLow low blockId).indexAt (low + 2) = blockId := by
    have isEntry : (map.giveLow low blockId).indexAt (low + 2) =
        entry ((map.giveLow low blockId).disk map.inode.indirect2) low := rfl
    rw [isEntry, giveLow_disk]
    exact entry_putEntry_self map map.inode.indirect2 lowLt inWord
  have blank (zeroed : map.disk blockId = .zeroed) (old : map.Blank) :
      (map.giveLow low blockId).Blank := by
    have same : (map.giveLow low blockId).blocks = map.blocks := rfl
    have more : (map.giveLow low blockId).indexes = map.indexes + 1 := rfl
    refine ⟨by omega, by omega, by omega, by omega, fun _ other otherLt unused => ?_,
      fun other used position positionLt unused => ?_⟩
    · exact (entry_giveLow map low blockId fun _ => by omega).trans
        (old.second (by omega) _ otherLt (by omega))
    · obtain rfl : other = low := by omega
      have notSecond : blockId ≠ map.inode.indirect2 := by
        rintro rfl
        exact fresh (owns.index_mem (by omega : 1 < map.indexes))
      rw [isNew, giveLow_disk, putEntry_disk_of_ne notSecond, zeroed, entry_zeroed]
  exact owns.addIndex grows ⟨rfl, rfl⟩ blank rfl rfl (by rw [indexes, isNew]) fresh

/-- Fill an indirect block below the second level. -/
theorem Owns.giveEntry2 (owns : map.Owns given) {low offset : Nat} (offsetLt : offset < 128)
    (blocks : map.blocks = 156 + (128 * low + offset)) (indexes : map.indexes = low + 3)
    (inWord : blockId < 2 ^ 32) (fresh : blockId ∉ given) :
    map.Extends (map.giveEntry (map.indexAt (low + 2)) offset blockId) given [blockId] := by
  have apart (level : Nat) (inside : level < map.indexes) (differs : level ≠ low + 2) :
      map.indexAt level ≠ map.indexAt (low + 2) :=
    owns.index_ne inside (by omega) differs
  have sameIndex (level : Nat) (inside : level < map.indexes) :
      (map.giveEntry (map.indexAt (low + 2)) offset blockId).indexAt level = map.indexAt level := by
    rcases level with _ | _ | other
    · rfl
    · rfl
    · exact entry_giveEntry map (map.indexAt (low + 2)) offset blockId fun same =>
        absurd same (apart 1 (by omega) (by omega))
  have grows : map.Grows (map.giveEntry (map.indexAt (low + 2)) offset blockId) := by
    refine ⟨Nat.le_succ _, le_refl _, ?_, sameIndex, ?_⟩
    · intro position inside
      rcases position_cases position with isDirect | ⟨other, otherLt, rfl⟩ |
        ⟨upper, other, otherLt, rfl⟩
      · rw [blockAt_direct _ isDirect, blockAt_direct _ isDirect]
        rfl
      · rw [blockAt_indirect1 _ otherLt, blockAt_indirect1 _ otherLt]
        exact entry_giveEntry map (map.indexAt (low + 2)) offset blockId fun same =>
          absurd same (apart 0 (by omega) (by omega))
      · rw [blockAt_indirect2 _ _ otherLt, blockAt_indirect2 _ _ otherLt, sameIndex _ (by omega)]
        by_cases same : upper = low
        · exact entry_giveEntry map (map.indexAt (low + 2)) offset blockId fun _ => by omega
        · exact entry_giveEntry map (map.indexAt (low + 2)) offset blockId fun sameBlock =>
            absurd sameBlock (apart (upper + 2) (by omega) (by omega))
    · intro other unused
      refine putEntry_disk_of_ne ?_
      have used : low + 2 < map.indexes := by omega
      rw [← sameIndex _ used]
      exact unused _ used
  have blank (_ : map.disk blockId = .zeroed) (old : map.Blank) :
      (map.giveEntry (map.indexAt (low + 2)) offset blockId).Blank := by
    have more : (map.giveEntry (map.indexAt (low + 2)) offset blockId).blocks = map.blocks + 1 :=
      rfl
    have same : (map.giveEntry (map.indexAt (low + 2)) offset blockId).indexes = map.indexes := rfl
    refine ⟨by omega, by omega, by omega, by omega, fun _ other otherLt unused => ?_,
      fun other used position positionLt unused => ?_⟩
    · exact (entry_giveEntry map (map.indexAt (low + 2)) offset blockId fun sameBlock =>
        absurd sameBlock (apart 1 (by omega) (by omega))).trans
          (old.second (by omega) _ otherLt (by omega))
    · obtain rfl : other = low := by omega
      rw [sameIndex _ (by omega)]
      exact (entry_giveEntry map (map.indexAt (other + 2)) offset blockId fun _ => by omega).trans
        (old.behind _ (by omega) _ positionLt (by omega))
  refine owns.addBlock grows ⟨rfl, rfl⟩ blank rfl rfl ?_ fresh
  rw [blocks, blockAt_indirect2 _ _ offsetLt, sameIndex _ (by omega), giveEntry_disk]
  exact entry_putEntry_self map (map.indexAt (low + 2)) offsetLt inWord

end Allocations

/-- The indirect blocks of a number of blocks. -/
def indexCount (blocks : Nat) : Nat :=
  if blocks ≤ 28 then 0 else if blocks ≤ 156 then 1 else 2 + (blocks - 156 + 127) / 128

/-- Block ids that can be given to the owner of others. -/
structure Fresh (given newBlocks : List Nat) : Prop where
  nodup : (given ++ newBlocks).Nodup
  inWord : ∀ blockId ∈ newBlocks, blockId < 2 ^ 32

theorem Extends.count {map later : BlockMap} {given taken : List Nat}
    (extendsLater : map.Extends later given taken) (owns : map.Owns given) :
    later.blocks + later.indexes = map.blocks + map.indexes + taken.length := by
  have before := owns.ids.length_eq
  have after := extendsLater.owns.ids.length_eq
  simp only [BlockMap.ids, List.length_append, List.length_map, List.length_range] at before after
  omega

section Loops

variable {map : BlockMap} {given newBlocks taken rest locked : List Nat} {blockId : Nat}

theorem Fresh.head (fresh : Fresh given (blockId :: newBlocks)) :
    blockId < 2 ^ 32 ∧ blockId ∉ given := by
  refine ⟨fresh.inWord blockId List.mem_cons_self, fun isGiven => ?_⟩
  exact (List.nodup_append.mp fresh.nodup).2.2 _ isGiven _ List.mem_cons_self rfl

theorem Fresh.behind (fresh : Fresh given (taken ++ rest)) : Fresh (given ++ taken) rest where
  nodup := by
    rw [List.append_assoc]
    exact fresh.nodup
  inWord blockId isRest := fresh.inWord blockId (List.mem_append_right _ isRest)

theorem Fresh.tail (fresh : Fresh given (blockId :: newBlocks)) :
    Fresh (given ++ [blockId]) newBlocks :=
  Fresh.behind fresh

theorem run_nextBlock (volume : Volume) :
    (nextBlock (blockId :: newBlocks)).run volume = .ok (blockId, newBlocks) volume :=
  rfl

theorem run_setEntryAt {volume : Volume} {target index : Nat} (inside : index < 128)
    (blockId : Nat) :
    (setEntryAt target index blockId).run volume =
      .ok () (volume.putBlock target (setEntry (volume.disk target) index blockId)) := by
  have insideBlock : index < inodeIndirect1Count := inside
  rw [setEntryAt, run_bind_ok (run_check insideBlock _), run_modify]

theorem run_getEntryAt {volume : Volume} {target index : Nat} (inside : index < 128) :
    (getEntryAt target index).run volume = .ok (entry (volume.disk target) index) volume := by
  have insideBlock : index < inodeIndirect1Count := inside
  rw [getEntryAt, run_bind_ok (run_check insideBlock _), run_bind_ok (run_get _), run_pure]

theorem run_withLocked {α : Type} {closure : Call α} {value : α} {disk later : Nat → Block}
    (unlocked : blockId ∉ locked)
    (ran : closure.run ⟨disk, blockId :: locked⟩ = .ok value ⟨later, blockId :: locked⟩) :
    (withLocked blockId closure).run ⟨disk, locked⟩ = .ok value ⟨later, locked⟩ := by
  have free : blockId ∉ (⟨disk, locked⟩ : Volume).locked := unlocked
  rw [withLocked, run_bind_ok (run_readBlock free), run_bind_ok (run_modify _ _),
    run_bind_ok ran, run_bind_ok (run_modify _ _), run_pure, List.erase_cons_head]

theorem run_fillDirect (owns : map.Owns given) (fresh : Fresh given newBlocks)
    {rounds : Nat} (level : 0 < rounds → map.indexes = 0 ∧ map.blocks + rounds ≤ 28)
    (enough : rounds ≤ newBlocks.length) (volume : Volume) :
    ∃ taken rest later, newBlocks = taken ++ rest ∧ map.Extends later given taken ∧
      later.blocks = map.blocks + rounds ∧ later.indexes = map.indexes ∧ later.disk = map.disk ∧
      (DiskInode.fillDirect rounds map.blocks map.inode newBlocks).run volume =
        .ok (later.inode, rest) volume := by
  induction rounds generalizing map given newBlocks with
  | zero => exact ⟨[], newBlocks, map, rfl, Extends.refl owns, rfl, rfl, rfl, rfl⟩
  | succ rounds ih =>
      obtain ⟨blockId, newBlocks, rfl⟩ := List.exists_cons_of_length_pos
        (by omega : 0 < newBlocks.length)
      obtain ⟨inWord, notGiven⟩ := fresh.head
      obtain ⟨noIndexes, bounded⟩ := level (by omega)
      have first := owns.giveDirect (by omega) noIndexes inWord notGiven
      have blocks : (map.giveDirect blockId).blocks = map.blocks + 1 := rfl
      obtain ⟨taken, rest, later, rfl, extendsLater, laterBlocks, laterIndexes, sameDisk, ran⟩ :=
        ih first.owns fresh.tail (fun _ => ⟨noIndexes, by omega⟩) (by simpa using enough)
      refine ⟨blockId :: taken, rest, later, rfl, first.trans extendsLater, by omega, laterIndexes,
        sameDisk, ?_⟩
      rw [DiskInode.fillDirect, run_bind_ok (run_nextBlock volume)]
      exact ran

theorem run_fillIndirect1 (locked : List Nat) (owns : map.Owns given)
    (fresh : Fresh given newBlocks) {rounds current : Nat} (blocks : map.blocks = 28 + current)
    (level : 0 < rounds → map.indexes = 1 ∧ current + rounds ≤ 128)
    (enough : rounds ≤ newBlocks.length) :
    ∃ taken rest later, newBlocks = taken ++ rest ∧ map.Extends later given taken ∧
      later.blocks = map.blocks + rounds ∧ later.indexes = map.indexes ∧
      later.inode = map.inode ∧
      (DiskInode.fillIndirect1 map.inode.indirect1 rounds current newBlocks).run
        ⟨map.disk, locked⟩ = .ok rest ⟨later.disk, locked⟩ := by
  induction rounds generalizing map given newBlocks current with
  | zero => exact ⟨[], newBlocks, map, rfl, Extends.refl owns, rfl, rfl, rfl, rfl⟩
  | succ rounds ih =>
      obtain ⟨blockId, newBlocks, rfl⟩ := List.exists_cons_of_length_pos
        (by omega : 0 < newBlocks.length)
      obtain ⟨inWord, notGiven⟩ := fresh.head
      obtain ⟨oneIndex, bounded⟩ := level (by omega)
      have inside : current < 128 := by omega
      have first := owns.giveEntry1 inside blocks oneIndex inWord notGiven
      have nextBlocks : (map.giveEntry map.inode.indirect1 current blockId).blocks =
          28 + (current + 1) := congrArg Nat.succ blocks
      obtain ⟨taken, rest, later, rfl, extendsLater, laterBlocks, laterIndexes, sameInode, ran⟩ :=
        ih first.owns fresh.tail nextBlocks (fun _ => ⟨oneIndex, by omega⟩)
          (by simpa using enough)
      refine ⟨blockId :: taken, rest, later, rfl, first.trans extendsLater, by omega, laterIndexes,
        sameInode, ?_⟩
      rw [DiskInode.fillIndirect1, run_bind_ok (run_nextBlock _),
        run_bind_ok (run_setEntryAt inside _)]
      exact ran

theorem run_allocLow (locked : List Nat) (owns : map.Owns given) (fresh : Fresh given newBlocks)
    {low offset : Nat}
    (lowLt : low < 128) (blocks : map.blocks = 156 + (128 * low + offset))
    (indexes : map.indexes = low + if offset = 0 then 2 else 3)
    (enough : offset = 0 → 0 < newBlocks.length) :
    ∃ taken rest later, newBlocks = taken ++ rest ∧ map.Extends later given taken ∧
      later.blocks = map.blocks ∧ later.indexes = low + 3 ∧ later.inode = map.inode ∧
      (DiskInode.allocLow map.inode.indirect2 low offset newBlocks).run ⟨map.disk, locked⟩ =
        .ok rest ⟨later.disk, locked⟩ := by
  by_cases first : offset = 0
  · obtain ⟨blockId, newBlocks, rfl⟩ := List.exists_cons_of_length_pos (enough first)
    obtain ⟨inWord, notGiven⟩ := fresh.head
    rw [if_pos first] at indexes
    refine ⟨[blockId], newBlocks, map.giveLow low blockId, rfl,
      owns.giveLow lowLt (by omega) indexes inWord notGiven, rfl, ?_, rfl, ?_⟩
    · exact congrArg Nat.succ indexes
    · rw [DiskInode.allocLow, if_pos first, run_bind_ok (run_nextBlock _),
        run_bind_ok (run_setEntryAt lowLt _), run_pure]
      rfl
  · rw [if_neg first] at indexes
    refine ⟨[], newBlocks, map, rfl, Extends.refl owns, rfl, indexes, rfl, ?_⟩
    rw [DiskInode.allocLow, if_neg first, run_pure]

theorem run_fillLow (blockId : Nat) (newBlocks : List Nat) (owns : map.Owns given)
    {low offset : Nat} (lowLt : low < 128) (offsetLt : offset < 128) (indexes : map.indexes = low + 3)
    (unlocked : ∀ blockId ∈ given, blockId ∉ locked) :
    (DiskInode.fillLow map.inode.indirect2 low offset (blockId :: newBlocks)).run
        ⟨map.disk, map.inode.indirect2 :: locked⟩ =
      .ok newBlocks ⟨(map.giveEntry (map.indexAt (low + 2)) offset blockId).disk,
        map.inode.indirect2 :: locked⟩ := by
  have inside : low + 2 < map.indexes := by omega
  have apart : map.indexAt (low + 2) ≠ map.indexAt 1 :=
    owns.index_ne inside (by omega) (by omega)
  have free : map.indexAt (low + 2) ∉ map.inode.indirect2 :: locked := by
    intro isLocked
    rcases List.mem_cons.mp isLocked with same | isLocked
    · exact apart same
    · exact unlocked _ (owns.index_mem inside) isLocked
  rw [DiskInode.fillLow, run_bind_ok (run_getEntryAt lowLt)]
  refine run_withLocked free ?_
  rw [run_bind_ok (run_nextBlock _), run_bind_ok (run_setEntryAt offsetLt _), run_pure]
  rfl

/-- One round behind `current` entries of the second level. -/
theorem run_fillRound (locked : List Nat) (owns : map.Owns given)
    (fresh : Fresh given newBlocks) {current : Nat} (inside : current < 16384)
    (blocks : map.blocks = 156 + current)
    (indexes : map.indexes = 2 + (current + 127) / 128)
    (enough : 156 + current + 1 + (2 + (current + 1 + 127) / 128) ≤
      map.blocks + map.indexes + newBlocks.length)
    (unlocked : ∀ blockId ∈ given ++ newBlocks, blockId ∉ locked) :
    ∃ taken rest later, newBlocks = taken ++ rest ∧ map.Extends later given taken ∧
      later.blocks = 156 + (current + 1) ∧ later.indexes = 2 + (current + 1 + 127) / 128 ∧
      later.inode = map.inode ∧
      (DiskInode.allocLow map.inode.indirect2 (current / 128) (current % 128) newBlocks >>=
        DiskInode.fillLow map.inode.indirect2 (current / 128) (current % 128)).run
          ⟨map.disk, map.inode.indirect2 :: locked⟩ =
            .ok rest ⟨later.disk, map.inode.indirect2 :: locked⟩ := by
  have lowLt : current / 128 < 128 := by omega
  have offsetLt : current % 128 < 128 := by omega
  have position : map.blocks = 156 + (128 * (current / 128) + current % 128) := by omega
  have isIndex : map.indexes = current / 128 + if current % 128 = 0 then 2 else 3 := by
    split_ifs <;> omega
  obtain ⟨allocated, behind, middle, rfl, extendsMiddle, middleBlocks, middleIndexes,
    middleInode, ranAlloc⟩ :=
      run_allocLow (map.inode.indirect2 :: locked) owns fresh lowLt position isIndex (by omega)
  have count := extendsMiddle.count owns
  rw [List.length_append] at enough
  obtain ⟨blockId, rest, rfl⟩ := List.exists_cons_of_length_pos (by omega : 0 < behind.length)
  obtain ⟨inWord, notGiven⟩ := fresh.behind.head
  have second := extendsMiddle.owns.giveEntry2 offsetLt (middleBlocks.trans position)
    middleIndexes inWord notGiven
  have filled := run_fillLow blockId rest extendsMiddle.owns lowLt offsetLt middleIndexes
    fun other otherMem => unlocked other (by
      simp only [List.mem_append] at otherMem ⊢
      tauto)
  rw [middleInode] at filled
  refine ⟨allocated ++ [blockId], rest, _, by simp, extendsMiddle.trans second, ?_, ?_,
    middleInode, ?_⟩
  · rw [giveEntry, middleBlocks, blocks]
    rfl
  · rw [giveEntry, putEntry, middleIndexes]
    omega
  · rw [run_bind_ok ranAlloc]
    exact filled

/-- The rounds behind `current` entries of the second level. -/
theorem run_fillIndirect2 (locked : List Nat) (owns : map.Owns given)
    (fresh : Fresh given newBlocks) {current total fuel : Nat} (isTotal : total = current + fuel)
    (bounded : total ≤ 16384)
    (blocks : map.blocks = 156 + current) (indexes : map.indexes = 2 + (current + 127) / 128)
    (enough : 156 + total + (2 + (total + 127) / 128) ≤
      map.blocks + map.indexes + newBlocks.length)
    (unlocked : ∀ blockId ∈ given ++ newBlocks, blockId ∉ locked) :
    ∃ taken rest later, newBlocks = taken ++ rest ∧ map.Extends later given taken ∧
      later.blocks = 156 + total ∧ later.indexes = 2 + (total + 127) / 128 ∧
      later.inode = map.inode ∧
      (DiskInode.fillIndirect2 map.inode.indirect2 (total / 128) (total % 128) fuel
        (current / 128) (current % 128) newBlocks).run ⟨map.disk, map.inode.indirect2 :: locked⟩ =
          .ok rest ⟨later.disk, map.inode.indirect2 :: locked⟩ := by
  induction fuel generalizing map given newBlocks current with
  | zero =>
      obtain rfl : total = current := isTotal
      exact ⟨[], newBlocks, map, rfl, Extends.refl owns, blocks, indexes, rfl, rfl⟩
  | succ fuel ih =>
      have notDone : current / 128 < total / 128 ∨
          current / 128 = total / 128 ∧ current % 128 < total % 128 := by omega
      obtain ⟨allocated, behind, middle, rfl, extendsMiddle, middleBlocks, middleIndexes,
        middleInode, ranRound⟩ :=
          run_fillRound locked owns fresh (by omega) blocks indexes (by omega) unlocked
      have count := extendsMiddle.count owns
      rw [List.length_append] at enough
      obtain ⟨taken, rest, later, rfl, extendsLater, laterBlocks, laterIndexes, laterInode, ran⟩ :=
        ih extendsMiddle.owns fresh.behind (by omega) middleBlocks middleIndexes (by omega)
          (by simpa using unlocked)
      rw [middleInode] at laterInode ran
      refine ⟨allocated ++ taken, rest, later, by simp, extendsMiddle.trans extendsLater,
        laterBlocks, laterIndexes, laterInode, ?_⟩
      rw [DiskInode.fillIndirect2, if_pos notDone, ← run_bind_assoc, run_bind_ok ranRound]
      by_cases full : current % 128 + 1 = inodeIndirect1Count
      · have isFull : current % 128 + 1 = 128 := full
        have quotient : (current + 1) / 128 = current / 128 + 1 := by omega
        have remainder : (current + 1) % 128 = 0 := by omega
        rw [quotient, remainder] at ran
        rw [if_pos full]
        exact ran
      · have notFull : current % 128 + 1 ≠ 128 := full
        have quotient : (current + 1) / 128 = current / 128 := by omega
        have remainder : (current + 1) % 128 = current % 128 + 1 := by omega
        rw [quotient, remainder] at ran
        rw [if_neg full]
        exact ran

theorem run_allocIndirect2 (volume : Volume) (owns : map.Owns given)
    (fresh : Fresh given newBlocks) {current : Nat} (blocks : map.blocks = 156 + current)
    (indexes : map.indexes = indexCount map.blocks)
    (enough : current = 0 → 0 < newBlocks.length) :
    ∃ taken rest later, newBlocks = taken ++ rest ∧ map.Extends later given taken ∧
      later.blocks = map.blocks ∧ later.indexes = 2 + (current + 127) / 128 ∧
      later.disk = map.disk ∧
      (DiskInode.allocIndirect2 map.inode current newBlocks).run volume =
        .ok (later.inode, rest) volume := by
  rw [blocks, indexCount] at indexes
  by_cases first : current = 0
  · obtain ⟨blockId, newBlocks, rfl⟩ := List.exists_cons_of_length_pos (enough first)
    obtain ⟨inWord, notGiven⟩ := fresh.head
    have oneIndex : map.indexes = 1 := by
      rw [indexes, if_neg (by omega), if_pos (by omega)]
    refine ⟨[blockId], newBlocks, map.giveIndirect2 blockId, rfl,
      owns.giveIndirect2 (by omega) oneIndex inWord notGiven, rfl, ?_, rfl, ?_⟩
    · rw [giveIndirect2, oneIndex, first]
    · rw [DiskInode.allocIndirect2, if_pos first, run_bind_ok (run_nextBlock _), run_pure]
      rfl
  · have behind : map.indexes = 2 + (current + 127) / 128 := by
      rw [indexes, if_neg (by omega), if_neg (by omega), Nat.add_sub_cancel_left]
    refine ⟨[], newBlocks, map, rfl, Extends.refl owns, rfl, behind, rfl, ?_⟩
    rw [DiskInode.allocIndirect2, if_neg first, run_pure]

theorem run_growIndirect2 (locked : List Nat) (owns : map.Owns given)
    (fresh : Fresh given newBlocks) {current total : Nat} (blocks : map.blocks = 156 + current)
    (indexes : map.indexes = indexCount map.blocks) (positive : 0 < total)
    (atLeast : current ≤ total) (bounded : total ≤ 16384)
    (enough : 156 + total + indexCount (156 + total) ≤
      map.blocks + map.indexes + newBlocks.length)
    (unlocked : ∀ blockId ∈ given ++ newBlocks, blockId ∉ locked) :
    ∃ taken rest later, newBlocks = taken ++ rest ∧ map.Extends later given taken ∧
      later.blocks = 156 + total ∧ later.indexes = indexCount later.blocks ∧
      (DiskInode.growIndirect2 map.inode current total newBlocks).run ⟨map.disk, locked⟩ =
        .ok (later.inode, rest) ⟨later.disk, locked⟩ := by
  have totalCount : indexCount (156 + total) = 2 + (total + 127) / 128 := by
    rw [indexCount, if_neg (by omega), if_neg (by omega), Nat.add_sub_cancel_left]
  have someNew : current = 0 → 0 < newBlocks.length := by
    intro isFirst
    have oneIndex : map.indexes = 1 := by
      rw [indexes, blocks, indexCount, if_neg (by omega), if_pos (by omega)]
    omega
  obtain ⟨allocated, behind, middle, rfl, extendsMiddle, middleBlocks, middleIndexes, middleDisk,
    ranAlloc⟩ := run_allocIndirect2 ⟨map.disk, locked⟩ owns fresh blocks indexes someNew
  have count := extendsMiddle.count owns
  rw [List.length_append] at enough
  obtain ⟨taken, rest, later, rfl, extendsLater, laterBlocks, laterIndexes, laterInode, ran⟩ :=
    run_fillIndirect2 locked extendsMiddle.owns fresh.behind
      (by omega : total = current + (total - current)) bounded (middleBlocks.trans blocks)
      middleIndexes (by omega) (by simpa using unlocked)
  have inside : 1 < middle.indexes := by omega
  have free : middle.inode.indirect2 ∉ locked := by
    refine unlocked _ ?_
    have isOwned := extendsMiddle.owns.index_mem inside
    simp only [List.mem_append] at isOwned ⊢
    tauto
  refine ⟨allocated ++ taken, rest, later, by simp, extendsMiddle.trans extendsLater, laterBlocks,
    ?_, ?_⟩
  · rw [laterIndexes, laterBlocks, totalCount]
  · rw [DiskInode.growIndirect2, run_bind_ok ranAlloc, ← middleDisk]
    refine (run_bind_ok (run_withLocked free ran)).trans ?_
    rw [run_pure, laterInode]

theorem run_allocIndirect1 (volume : Volume) (owns : map.Owns given)
    (fresh : Fresh given newBlocks) {current : Nat} (blocks : map.blocks = 28 + current)
    (indexes : map.indexes = indexCount map.blocks)
    (enough : current = 0 → 0 < newBlocks.length) :
    ∃ taken rest later, newBlocks = taken ++ rest ∧ map.Extends later given taken ∧
      later.blocks = map.blocks ∧ later.indexes = indexCount (28 + max current 1) ∧
      later.disk = map.disk ∧
      (DiskInode.allocIndirect1 map.inode current newBlocks).run volume =
        .ok (later.inode, rest) volume := by
  rw [blocks] at indexes
  by_cases first : current = 0
  · obtain ⟨blockId, newBlocks, rfl⟩ := List.exists_cons_of_length_pos (enough first)
    obtain ⟨inWord, notGiven⟩ := fresh.head
    have noIndexes : map.indexes = 0 := by
      rw [indexes, first]
      rfl
    refine ⟨[blockId], newBlocks, map.giveIndirect1 blockId, rfl,
      owns.giveIndirect1 (by omega) noIndexes inWord notGiven, rfl, ?_, rfl, ?_⟩
    · rw [giveIndirect1, noIndexes, first]
      rfl
    · rw [DiskInode.allocIndirect1, if_pos first, run_bind_ok (run_nextBlock _), run_pure]
      rfl
  · refine ⟨[], newBlocks, map, rfl, Extends.refl owns, rfl, ?_, rfl, ?_⟩
    · rw [indexes, Nat.max_eq_left (by omega)]
    · rw [DiskInode.allocIndirect1, if_neg first, run_pure]

theorem indexCount_mono {fewer more : Nat} (le : fewer ≤ more) :
    indexCount fewer ≤ indexCount more := by
  rw [indexCount, indexCount]
  split_ifs <;> omega

theorem indexCount_one (blocks : Nat) (indirect : 28 < blocks) (within : blocks ≤ 156) :
    indexCount blocks = 1 := by
  rw [indexCount, if_neg (by omega), if_pos within]

theorem indexCount_pos {blocks : Nat} (indirect : 28 < blocks) : 0 < indexCount blocks := by
  rw [indexCount, if_neg (by omega)]
  split_ifs <;> omega

theorem run_growIndirect1 (locked : List Nat) (owns : map.Owns given)
    (fresh : Fresh given newBlocks) {current total : Nat} (blocks : map.blocks = 28 + current)
    (indexes : map.indexes = indexCount map.blocks) (positive : 0 < total)
    (atLeast : current ≤ total) (bounded : total ≤ 16512)
    (enough : 28 + total + indexCount (28 + total) ≤
      map.blocks + map.indexes + newBlocks.length)
    (unlocked : ∀ blockId ∈ given ++ newBlocks, blockId ∉ locked) :
    ∃ taken rest later, newBlocks = taken ++ rest ∧ map.Extends later given taken ∧
      later.blocks = 28 + total ∧ later.indexes = indexCount later.blocks ∧
      (DiskInode.growIndirect1 map.inode current total newBlocks).run ⟨map.disk, locked⟩ =
        .ok (later.inode, rest) ⟨later.disk, locked⟩ := by
  have totalPos := indexCount_pos (by omega : 28 < 28 + total)
  have someNew : current = 0 → 0 < newBlocks.length := by
    intro isFirst
    have noIndexes : map.indexes = 0 := by
      rw [indexes, blocks, isFirst]
      rfl
    omega
  obtain ⟨allocated, behind, middle, rfl, extendsMiddle, middleBlocks, middleIndexes, middleDisk,
    ranAlloc⟩ := run_allocIndirect1 ⟨map.disk, locked⟩ owns fresh blocks indexes someNew
  have count := extendsMiddle.count owns
  rw [List.length_append] at enough
  have level : 0 < min total 128 - current →
      middle.indexes = 1 ∧ current + (min total 128 - current) ≤ 128 := by
    intro someRounds
    exact ⟨middleIndexes.trans (indexCount_one _ (by omega) (by omega)), by omega⟩
  have fewer := indexCount_mono (by omega : 28 + max current 1 ≤ 28 + total)
  have free : middle.inode.indirect1 ∉ locked := by
    refine unlocked _ ?_
    have isOwned := extendsMiddle.owns.index_mem
      (middleIndexes ▸ indexCount_pos (by omega) : 0 < middle.indexes)
    simp only [List.mem_append] at isOwned ⊢
    tauto
  obtain ⟨filled, others, full, rfl, extendsFull, fullBlocks, fullIndexes, fullInode, ranFill⟩ :=
    run_fillIndirect1 (middle.inode.indirect1 :: locked) extendsMiddle.owns fresh.behind
      (middleBlocks.trans blocks) level (by omega)
  have extendsBoth := extendsMiddle.trans extendsFull
  have fullCount := extendsBoth.count owns
  have filledLocked := run_withLocked free ranFill
  rw [middleBlocks, blocks] at fullBlocks
  rw [List.length_append] at enough fullCount
  by_cases second : total > inodeIndirect1Count
  · have more : 128 < total := second
    have nextBlocks : full.blocks = 156 + (max current 128 - 128) := by omega
    have nextIndexes : full.indexes = indexCount full.blocks := by
      rw [fullIndexes, middleIndexes]
      by_cases within : current ≤ 128
      · rw [indexCount_one (28 + max current 1) (by omega) (by omega),
          indexCount_one full.blocks (by omega) (by omega)]
      · have sameBlocks : 28 + max current 1 = full.blocks := by omega
        rw [sameBlocks]
    have sameTotal : 156 + (total - 128) = 28 + total := by omega
    obtain ⟨taken, rest, later, rfl, extendsLater, laterBlocks, laterIndexes, ran⟩ :=
      run_growIndirect2 locked extendsBoth.owns
        (by rw [← List.append_assoc]; exact fresh.behind.behind) nextBlocks nextIndexes (by omega)
        (by omega : max current 128 - 128 ≤ total - 128) (by omega) (by rw [sameTotal]; omega)
        (by simpa using unlocked)
    refine ⟨allocated ++ filled ++ taken, rest, later, by simp, extendsBoth.trans extendsLater,
      by omega, laterIndexes, ?_⟩
    rw [DiskInode.growIndirect1, run_bind_ok ranAlloc, ← middleDisk]
    refine (run_bind_ok filledLocked).trans ?_
    rw [if_pos second, ← fullInode]
    exact ran
  · have notMore : ¬ 128 < total := second
    have nextBlocks : full.blocks = 28 + total := by omega
    refine ⟨allocated ++ filled, others, full, by simp, extendsBoth, nextBlocks, ?_, ?_⟩
    · rw [nextBlocks, fullIndexes, middleIndexes,
        indexCount_one (28 + max current 1) (by omega) (by omega),
        indexCount_one (28 + total) (by omega) (by omega)]
    · rw [DiskInode.growIndirect1, run_bind_ok ranAlloc, ← middleDisk]
      refine (run_bind_ok filledLocked).trans ?_
      rw [if_neg second, run_pure, fullInode]

end Loops

end BlockMap

end EasyFs

end OSWorkspace
