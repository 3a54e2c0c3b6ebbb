import OSWorkspace.Ext4FileSystem

/-!
# The block and inode allocators implement a finite set

Both allocators search the bitmaps of the groups in two passes around a cursor.
Blocks and inodes differ only in the bitmap, in the number of items of a group
and in the number of the first item, so both are instances of one statement:
an allocation sets exactly one clear bit, wherever the cursor points, and fails
exactly when every bit is set.
-/

namespace OSWorkspace

namespace Ext4

open Exec

/-- What an allocator hands out. -/
inductive Resource where
  | block
  | inode
deriving DecidableEq

namespace Volume

def bitmapOf (volume : Volume) : Resource → Nat → Option Nat
  | .block => volume.blockBitmapOf
  | .inode => volume.inodeBitmapOf

def bitmapAt (volume : Volume) (resource : Resource) (group : Nat) : Nat :=
  (volume.bitmapOf resource group).getD 0

def perGroup (volume : Volume) : Resource → Nat
  | .block => volume.fs.superblock.blocksPerGroup
  | .inode => volume.fs.superblock.inodesPerGroup

def itemCount (volume : Volume) : Resource → Nat
  | .block => volume.fs.superblock.blocksCount
  | .inode => volume.fs.superblock.inodesPerGroup * volume.fs.groupDescs.length

end Volume

def Resource.firstItem : Resource → Nat
  | .block => 0
  | .inode => 1

namespace Volume

/-- Blocks below the block count, and inodes of all groups. -/
def IsItem (volume : Volume) (resource : Resource) (item : Nat) : Prop :=
  resource.firstItem ≤ item ∧ item < resource.firstItem + volume.itemCount resource

/-- The bit of an item in the bitmap of its group. -/
def used (volume : Volume) (resource : Resource) (item : Nat) : Bool :=
  (volume.disk (volume.bitmapAt resource
    ((item - resource.firstItem) / volume.perGroup resource))).testBit
      ((item - resource.firstItem) % volume.perGroup resource)

def setUsed (volume : Volume) (resource : Resource) (item : Nat) (value : Bool) : Volume :=
  let blockId := volume.bitmapAt resource
    ((item - resource.firstItem) / volume.perGroup resource)
  volume.putBlock blockId ((volume.disk blockId).setBit
    ((item - resource.firstItem) % volume.perGroup resource) value)

/-- Move the cursor of an allocator behind an item. -/
def advance (volume : Volume) : Resource → Nat → Volume
  | .block, item => volume.setNextAllocBlock (min (item + 1) (2 ^ 64 - 1))
  | .inode, item => volume.setNextAllocInode (min (item + 1) (2 ^ 32 - 1))

end Volume

def alloc : Resource → Call (Option Nat)
  | .block => allocBlock
  | .inode => allocInode

def dealloc : Resource → Nat → Call Unit
  | .block => deallocBlock
  | .inode => deallocInode

/-- The geometry of a mounted file system. -/
structure Geometry (fs : Ext4FileSystem) : Prop where
  firstDataBlock : fs.superblock.firstDataBlock = 0
  groups : fs.groupDescs.length =
    (fs.superblock.blocksCount + fs.superblock.blocksPerGroup - 1) /
      fs.superblock.blocksPerGroup
  blocksPerGroup : 1 ≤ fs.superblock.blocksPerGroup ∧ fs.superblock.blocksPerGroup ≤ 32768
  inodesPerGroup : 1 ≤ fs.superblock.inodesPerGroup ∧ fs.superblock.inodesPerGroup ≤ 32768
  inodes : fs.superblock.inodesPerGroup * fs.groupDescs.length < 2 ^ 32
  bitmaps : (fs.groupDescs.map (·.blockBitmap fs.is64bit) ++
    fs.groupDescs.map (·.inodeBitmap fs.is64bit)).Nodup

theorem findClearBit_spec (bytes : Block) (count bit : Nat) (fits : bit + count ≤ 32768) :
    (findClearBit bytes count bit = some none ∧
        ∀ index, bit ≤ index → index < bit + count → bytes.testBit index = true) ∨
      ∃ index, bit ≤ index ∧ index < bit + count ∧ bytes.testBit index = false ∧
        findClearBit bytes count bit = some (some index) := by
  induction count generalizing bit with
  | zero => exact Or.inl ⟨rfl, fun index lower upper => by omega⟩
  | succ count ih =>
      have inside : bit / 8 < blockSz := by
        simp only [blockSz]
        omega
      simp only [findClearBit, inside, if_true, Bytes.mask_eq_zero_iff]
      by_cases clear : bytes.testBit bit = false
      · right
        exact ⟨bit, Nat.le_refl _, by omega, clear, by simp [clear]⟩
      · simp only [clear]
        rcases ih (bit + 1) (by omega) with ⟨search, allSet⟩ | ⟨index, lower, upper, rest⟩
        · left
          refine ⟨by simpa using search, ?_⟩
          intro index lower upper
          by_cases first : index = bit
          · rw [first]
            simpa using clear
          · exact allSet index (by omega) (by omega)
        · right
          exact ⟨index, by omega, by omega, by simpa using rest⟩

theorem findAndAllocBitFrom_spec (bytes : Block) (startBit totalBits : Nat)
    (fits : totalBits ≤ 32768) :
    (findAndAllocBitFrom bytes startBit totalBits = some none ∧
        ∀ index < totalBits, bytes.testBit index = true) ∨
      ∃ index < totalBits, bytes.testBit index = false ∧
        findAndAllocBitFrom bytes startBit totalBits =
          some (some (index, bytes.setBit index true)) := by
  unfold findAndAllocBitFrom
  by_cases empty : totalBits = 0
  · left
    exact ⟨by simp [empty], fun index indexLt => by omega⟩
  · rw [if_neg empty]
    have startLe : min startBit totalBits ≤ totalBits := Nat.min_le_right _ _
    generalize min startBit totalBits = start at startLe
    rcases findClearBit_spec bytes (totalBits - start) start (by omega) with
      ⟨search, highSet⟩ | ⟨index, _, upper, clear, search⟩
    · rcases findClearBit_spec bytes start 0 (by omega) with
        ⟨lowSearch, lowSet⟩ | ⟨index, _, upper, clear, lowSearch⟩
      · left
        refine ⟨by simp [search, lowSearch], ?_⟩
        intro index indexLt
        by_cases low : index < start
        · exact lowSet index (by omega) (by omega)
        · exact highSet index (by omega) (by omega)
      · right
        exact ⟨index, by omega, clear, by simp [search, lowSearch]⟩
    · right
      exact ⟨index, by omega, clear, by simp [search]⟩

theorem searchGroups_spec (bitmapBlock : Nat → Option Nat) (startBit totalBits : Nat → Nat)
    (groups : List Nat) (volume : Volume)
    (listed : ∀ group ∈ groups, ∃ blockId, bitmapBlock group = some blockId)
    (fits : ∀ group ∈ groups, totalBits group ≤ 32768) :
    ((searchGroups bitmapBlock startBit totalBits groups).run volume = .ok none volume ∧
        ∀ group ∈ groups, ∀ index < totalBits group,
          (volume.disk ((bitmapBlock group).getD 0)).testBit index = true) ∨
      ∃ group ∈ groups, ∃ index < totalBits group,
        (volume.disk ((bitmapBlock group).getD 0)).testBit index = false ∧
        (searchGroups bitmapBlock startBit totalBits groups).run volume =
          .ok (some (group, index)) (volume.putBlock ((bitmapBlock group).getD 0)
            ((volume.disk ((bitmapBlock group).getD 0)).setBit index true)) := by
  induction groups with
  | nil => exact Or.inl ⟨rfl, by simp⟩
  | cons group groups ih =>
      obtain ⟨blockId, found⟩ := listed group (by simp)
      rw [searchGroups, found, run_bind_ok (run_expect_some _ _), run_bind_ok (run_readBlock _ _)]
      rcases findAndAllocBitFrom_spec (volume.disk blockId) (startBit group) (totalBits group)
        (fits group (by simp)) with ⟨search, allSet⟩ | ⟨index, indexLt, clear, search⟩
      · rw [search, run_bind_ok (run_expect_some _ _)]
        rcases ih (fun other otherMem => listed other (by simp [otherMem]))
          (fun other otherMem => fits other (by simp [otherMem])) with
          ⟨rest, restSet⟩ | ⟨other, otherMem, index, indexLt, clear, rest⟩
        · left
          refine ⟨rest, ?_⟩
          intro other otherMem
          rcases List.mem_cons.mp otherMem with rfl | otherMem
          · simpa [found] using allSet
          · exact restSet other otherMem
        · right
          exact ⟨other, by simp [otherMem], index, indexLt, clear, rest⟩
      · right
        refine ⟨group, by simp, index, indexLt, by simpa [found] using clear, ?_⟩
        rw [search, run_bind_ok (run_expect_some _ _), found]
        rfl

/-- Both passes together visit every group. -/
theorem searchBothPasses_spec (bitmapBlock : Nat → Option Nat) (totalBits : Nat → Nat)
    (inRange : Nat → Bool) (groups startGroup startLocal : Nat) (volume : Volume)
    (listed : ∀ group < groups, ∃ blockId, bitmapBlock group = some blockId)
    (fits : ∀ group < groups, totalBits group ≤ 32768)
    (all : ∀ group < groups, inRange group = true) :
    ((searchBothPasses bitmapBlock totalBits inRange groups startGroup startLocal).run volume =
          .ok none volume ∧
        ∀ group < groups, ∀ index < totalBits group,
          (volume.disk ((bitmapBlock group).getD 0)).testBit index = true) ∨
      ∃ group < groups, ∃ index < totalBits group,
        (volume.disk ((bitmapBlock group).getD 0)).testBit index = false ∧
        (searchBothPasses bitmapBlock totalBits inRange groups startGroup startLocal).run volume =
          .ok (some (group, index)) (volume.putBlock ((bitmapBlock group).getD 0)
            ((volume.disk ((bitmapBlock group).getD 0)).setBit index true)) := by
  unfold searchBothPasses
  have firstPass : (List.range' startGroup (groups - startGroup)).takeWhile inRange =
      List.range' startGroup (groups - startGroup) := by
    apply List.takeWhile_eq_self_iff.mpr
    intro group groupMem
    have bounds := List.mem_range'_1.mp groupMem
    exact all group (by omega)
  have secondPass : (List.range (min startGroup groups)).takeWhile inRange =
      List.range (min startGroup groups) := by
    apply List.takeWhile_eq_self_iff.mpr
    intro group groupMem
    have bound := List.mem_range.mp groupMem
    exact all group (by omega)
  rw [firstPass, secondPass]
  have inFirst : ∀ group ∈ List.range' startGroup (groups - startGroup), group < groups := by
    intro group groupMem
    have bounds := List.mem_range'_1.mp groupMem
    omega
  have inSecond : ∀ group ∈ List.range (min startGroup groups), group < groups := by
    intro group groupMem
    have bound := List.mem_range.mp groupMem
    omega
  rcases searchGroups_spec bitmapBlock
    (fun group => if group = startGroup then startLocal else 0) totalBits _ volume
    (fun group groupMem => listed group (inFirst group groupMem))
    (fun group groupMem => fits group (inFirst group groupMem)) with
    ⟨first, firstSet⟩ | ⟨group, groupMem, index, indexLt, clear, first⟩
  · rw [run_bind_ok first]
    rcases searchGroups_spec bitmapBlock (fun _ => 0) totalBits _ volume
      (fun group groupMem => listed group (inSecond group groupMem))
      (fun group groupMem => fits group (inSecond group groupMem)) with
      ⟨second, secondSet⟩ | ⟨group, groupMem, index, indexLt, clear, second⟩
    · left
      refine ⟨second, ?_⟩
      intro group groupLt
      by_cases before : group < startGroup
      · exact secondSet group (List.mem_range.mpr (by omega))
      · exact firstSet group (List.mem_range'_1.mpr (by omega))
    · right
      exact ⟨group, inSecond group groupMem, index, indexLt, clear, second⟩
  · right
    refine ⟨group, inFirst group groupMem, index, indexLt, clear, ?_⟩
    rw [run_bind_ok first]
    rfl

namespace Geometry

variable {fs : Ext4FileSystem}

theorem group_lt (geometry : Geometry fs) {block : Nat}
    (blockLt : block < fs.superblock.blocksCount) :
    block / fs.superblock.blocksPerGroup < fs.groupDescs.length := by
  have positive := geometry.blocksPerGroup.1
  rw [geometry.groups, Nat.div_lt_iff_lt_mul positive, Nat.div_mul_self_eq_mod_sub_self]
  have remainder := Nat.mod_lt (fs.superblock.blocksCount + fs.superblock.blocksPerGroup - 1)
    positive
  omega

theorem group_start_lt (geometry : Geometry fs) {group : Nat}
    (groupLt : group < fs.groupDescs.length) :
    group * fs.superblock.blocksPerGroup < fs.superblock.blocksCount := by
  have positive := geometry.blocksPerGroup.1
  rw [geometry.groups, Nat.lt_div_iff_mul_lt positive] at groupLt
  omega

end Geometry

namespace Volume

variable {volume : Volume}

theorem perGroup_bounds (geometry : Geometry volume.fs) (resource : Resource) :
    1 ≤ volume.perGroup resource ∧ volume.perGroup resource ≤ 32768 := by
  cases resource with
  | block => exact geometry.blocksPerGroup
  | inode => exact geometry.inodesPerGroup

theorem IsItem.group_lt (geometry : Geometry volume.fs) {resource : Resource} {item : Nat}
    (isItem : volume.IsItem resource item) :
    (item - resource.firstItem) / volume.perGroup resource < volume.fs.groupDescs.length := by
  cases resource with
  | block =>
      have blockLt : item - 0 < volume.fs.superblock.blocksCount := by
        simpa [IsItem, Resource.firstItem, itemCount] using isItem.2
      exact geometry.group_lt blockLt
  | inode =>
      have positive := geometry.inodesPerGroup.1
      obtain ⟨lower, upper⟩ := isItem
      simp only [Resource.firstItem, itemCount] at lower upper
      simp only [Resource.firstItem, perGroup]
      rw [Nat.div_lt_iff_lt_mul positive, Nat.mul_comm]
      omega

theorem bitmapOf_eq_some {resource : Resource} {group : Nat}
    (groupLt : group < volume.fs.groupDescs.length) :
    volume.bitmapOf resource group = some (volume.bitmapAt resource group) := by
  cases resource <;>
    simp [bitmapAt, bitmapOf, blockBitmapOf, inodeBitmapOf, List.getElem?_eq_getElem groupLt]

/-- Bitmap blocks of different groups or resources differ. -/
theorem bitmapAt_injective (geometry : Geometry volume.fs) {first second : Resource}
    {firstGroup secondGroup : Nat} (firstLt : firstGroup < volume.fs.groupDescs.length)
    (secondLt : secondGroup < volume.fs.groupDescs.length)
    (equal : volume.bitmapAt first firstGroup = volume.bitmapAt second secondGroup) :
    first = second ∧ firstGroup = secondGroup := by
  obtain ⟨blocksNodup, inodesNodup, disjoint⟩ := List.nodup_append.mp geometry.bitmaps
  have same : volume.bitmapOf first firstGroup = volume.bitmapOf second secondGroup := by
    rw [bitmapOf_eq_some firstLt, bitmapOf_eq_some secondLt, equal]
  have blockList (group : Nat) : volume.bitmapOf .block group =
      (volume.fs.groupDescs.map (·.blockBitmap volume.fs.is64bit))[group]? := by
    rw [List.getElem?_map]
    rfl
  have inodeList (group : Nat) : volume.bitmapOf .inode group =
      (volume.fs.groupDescs.map (·.inodeBitmap volume.fs.is64bit))[group]? := by
    rw [List.getElem?_map]
    rfl
  cases first <;> cases second
  · rw [blockList, blockList] at same
    exact ⟨rfl, (List.getElem?_inj (by simpa using firstLt) blocksNodup).mp same⟩
  · have blockMem := List.mem_of_getElem? ((blockList firstGroup).symm.trans
      (bitmapOf_eq_some firstLt))
    have inodeMem := List.mem_of_getElem? ((inodeList secondGroup).symm.trans
      (bitmapOf_eq_some secondLt))
    exact absurd equal (disjoint _ blockMem _ inodeMem)
  · have inodeMem := List.mem_of_getElem? ((inodeList firstGroup).symm.trans
      (bitmapOf_eq_some firstLt))
    have blockMem := List.mem_of_getElem? ((blockList secondGroup).symm.trans
      (bitmapOf_eq_some secondLt))
    exact absurd equal.symm (disjoint _ blockMem _ inodeMem)
  · rw [inodeList, inodeList] at same
    exact ⟨rfl, (List.getElem?_inj (by simpa using firstLt) inodesNodup).mp same⟩

@[simp]
theorem putBlock_fs (volume : Volume) (blockId : Nat) (block : Block) :
    (volume.putBlock blockId block).fs = volume.fs :=
  rfl

@[simp]
theorem bitmapAt_setUsed (volume : Volume) (resource other : Resource) (item group : Nat)
    (value : Bool) :
    (volume.setUsed resource item value).bitmapAt other group = volume.bitmapAt other group := by
  cases other <;> rfl

@[simp]
theorem perGroup_setUsed (volume : Volume) (resource other : Resource) (item : Nat)
    (value : Bool) :
    (volume.setUsed resource item value).perGroup other = volume.perGroup other := by
  cases other <;> rfl

/-- Setting or clearing the bit of an item changes no other bit of any bitmap. -/
theorem testBit_setUsed (geometry : Geometry volume.fs) {resource other : Resource}
    {item group : Nat} (isItem : volume.IsItem resource item)
    (groupLt : group < volume.fs.groupDescs.length) (value : Bool) (index : Nat) :
    ((volume.setUsed resource item value).disk (volume.bitmapAt other group)).testBit index =
      if other = resource ∧
          group = (item - resource.firstItem) / volume.perGroup resource ∧
          index = (item - resource.firstItem) % volume.perGroup resource then value
      else (volume.disk (volume.bitmapAt other group)).testBit index := by
  have bounds := perGroup_bounds geometry resource
  have localLt := Nat.mod_lt (item - resource.firstItem) bounds.1
  simp only [setUsed, putBlock]
  by_cases sameBitmap : volume.bitmapAt other group =
      volume.bitmapAt resource ((item - resource.firstItem) / volume.perGroup resource)
  · obtain ⟨rfl, sameGroup⟩ := bitmapAt_injective geometry groupLt
      (isItem.group_lt geometry) sameBitmap
    rw [sameBitmap, Function.update_self, Bytes.testBit_setBit _ (by
      simp only [blockSz]
      omega)]
    simp [sameGroup]
  · rw [Function.update_of_ne sameBitmap, if_neg]
    rintro ⟨rfl, rfl, _⟩
    exact sameBitmap rfl

theorem used_setUsed (geometry : Geometry volume.fs) {resource other : Resource}
    {item otherItem : Nat} (isItem : volume.IsItem resource item)
    (isOther : volume.IsItem other otherItem) (value : Bool) :
    (volume.setUsed resource item value).used other otherItem =
      if other = resource ∧ otherItem = item then value else volume.used other otherItem := by
  simp only [used, bitmapAt_setUsed, perGroup_setUsed]
  rw [testBit_setUsed geometry isItem (isOther.group_lt geometry)]
  congr 1
  apply propext
  constructor
  · rintro ⟨rfl, groupEq, localEq⟩
    have decompose := Nat.div_add_mod (otherItem - other.firstItem) (volume.perGroup other)
    rw [groupEq, localEq, Nat.div_add_mod] at decompose
    have lower := isItem.1
    have otherLower := isOther.1
    exact ⟨rfl, by omega⟩
  · rintro ⟨rfl, rfl⟩
    exact ⟨rfl, rfl, rfl⟩

end Volume

theorem div_mod_of_position {size group index : Nat} (indexLt : index < size) :
    (group * size + index) / size = group ∧ (group * size + index) % size = index := by
  constructor
  · rw [Nat.mul_comm, Nat.mul_add_div (by omega), Nat.div_eq_of_lt indexLt, Nat.add_zero]
  · exact Nat.mul_add_mod_of_lt indexLt

/-- The bit of a group and its item. -/
theorem Volume.used_position (volume : Volume) (resource : Resource) {group index item : Nat}
    (indexLt : index < volume.perGroup resource)
    (itemEq : item - resource.firstItem = group * volume.perGroup resource + index) :
    volume.used resource item =
      (volume.disk (volume.bitmapAt resource group)).testBit index := by
  obtain ⟨groupEq, indexEq⟩ := @div_mod_of_position _ group _ indexLt
  simp only [used, itemEq, groupEq, indexEq]

theorem Volume.setUsed_position (volume : Volume) (resource : Resource)
    {group index item : Nat} (value : Bool) (indexLt : index < volume.perGroup resource)
    (itemEq : item - resource.firstItem = group * volume.perGroup resource + index) :
    volume.setUsed resource item value = volume.putBlock (volume.bitmapAt resource group)
      ((volume.disk (volume.bitmapAt resource group)).setBit index value) := by
  obtain ⟨groupEq, indexEq⟩ := @div_mod_of_position _ group _ indexLt
  simp only [setUsed, itemEq, groupEq, indexEq]

/-- An allocation of a block fails exactly when every bit is set; otherwise it
sets one clear bit and moves the cursor. -/
theorem run_allocBlock {volume : Volume} (geometry : Geometry volume.fs) :
    (allocBlock.run volume = .ok none volume ∧
        ∀ item, volume.IsItem .block item → volume.used .block item = true) ∨
      ∃ item, volume.IsItem .block item ∧ volume.used .block item = false ∧
        allocBlock.run volume =
          .ok (some item) ((volume.setUsed .block item true).advance .block item) := by
  have bounds := geometry.blocksPerGroup
  have first := geometry.firstDataBlock
  have listed (group : Nat) (groupLt : group < volume.fs.groupDescs.length) :
      ∃ blockId, volume.blockBitmapOf group = some blockId :=
    ⟨_, @Volume.bitmapOf_eq_some volume .block _ groupLt⟩
  have inRange (group : Nat) (groupLt : group < volume.fs.groupDescs.length) :
      decide (volume.fs.superblock.firstDataBlock +
        group * volume.fs.superblock.blocksPerGroup <
          volume.fs.superblock.blocksCount) = true := by
    simpa [first] using geometry.group_start_lt groupLt
  unfold allocBlock
  rw [run_bind_ok (run_get _), run_bind_ok (run_check (by omega) _)]
  rcases searchBothPasses_spec volume.blockBitmapOf
    (fun group => min (volume.fs.superblock.blocksCount -
      (volume.fs.superblock.firstDataBlock + group * volume.fs.superblock.blocksPerGroup))
        volume.fs.superblock.blocksPerGroup) _ volume.fs.groupDescs.length
    ((max volume.fs.nextAllocBlock volume.fs.superblock.firstDataBlock -
      volume.fs.superblock.firstDataBlock) / volume.fs.superblock.blocksPerGroup)
    ((max volume.fs.nextAllocBlock volume.fs.superblock.firstDataBlock -
      volume.fs.superblock.firstDataBlock) % volume.fs.superblock.blocksPerGroup) volume
    listed (fun group groupLt => by omega) inRange with
    ⟨search, allSet⟩ | ⟨group, groupLt, index, indexLt, clear, search⟩
  · left
    refine ⟨by rw [run_bind_ok search]; rfl, ?_⟩
    rintro item ⟨_, upper⟩
    simp only [Resource.firstItem, Volume.itemCount, Nat.zero_add] at upper
    have localLt := Nat.mod_lt item bounds.1
    have decompose := Nat.div_add_mod item volume.fs.superblock.blocksPerGroup
    rw [Nat.mul_comm] at decompose
    refine allSet _ (geometry.group_lt upper) _ ?_
    simp only [Resource.firstItem, Volume.perGroup, Nat.sub_zero]
    omega
  · right
    have indexBound : index < volume.perGroup .block := by
      simp only [Volume.perGroup]
      omega
    have itemEq : volume.fs.superblock.firstDataBlock +
        group * volume.fs.superblock.blocksPerGroup + index - Resource.block.firstItem =
          group * volume.perGroup .block + index := by
      simp [first, Resource.firstItem, Volume.perGroup]
    refine ⟨volume.fs.superblock.firstDataBlock +
      group * volume.fs.superblock.blocksPerGroup + index, ⟨Nat.zero_le _, ?_⟩, ?_, ?_⟩
    · simp only [Resource.firstItem, Volume.itemCount]
      omega
    · rw [volume.used_position .block indexBound itemEq]
      exact clear
    · rw [run_bind_ok search, volume.setUsed_position .block true indexBound itemEq]
      rfl

theorem run_allocInode {volume : Volume} (geometry : Geometry volume.fs) :
    (allocInode.run volume = .ok none volume ∧
        ∀ item, volume.IsItem .inode item → volume.used .inode item = true) ∨
      ∃ item, volume.IsItem .inode item ∧ volume.used .inode item = false ∧
        allocInode.run volume =
          .ok (some item) ((volume.setUsed .inode item true).advance .inode item) := by
  have bounds := geometry.inodesPerGroup
  have listed (group : Nat) (groupLt : group < volume.fs.groupDescs.length) :
      ∃ blockId, volume.inodeBitmapOf group = some blockId :=
    ⟨_, @Volume.bitmapOf_eq_some volume .inode _ groupLt⟩
  unfold allocInode
  rw [run_bind_ok (run_get _), run_bind_ok (run_check (by omega) _)]
  rcases searchBothPasses_spec volume.inodeBitmapOf
    (fun _ => volume.fs.superblock.inodesPerGroup) (fun _ => true)
    volume.fs.groupDescs.length
    ((max volume.fs.nextAllocInode 1 - 1) / volume.fs.superblock.inodesPerGroup)
    ((max volume.fs.nextAllocInode 1 - 1) % volume.fs.superblock.inodesPerGroup) volume
    listed (fun group groupLt => bounds.2) (fun _ _ => rfl) with
    ⟨search, allSet⟩ | ⟨group, groupLt, index, indexLt, clear, search⟩
  · left
    refine ⟨by rw [run_bind_ok search]; rfl, ?_⟩
    intro item isItem
    exact allSet _ (isItem.group_lt geometry) _ (Nat.mod_lt _ bounds.1)
  · right
    have below : group * volume.fs.superblock.inodesPerGroup + index <
        volume.fs.superblock.inodesPerGroup * volume.fs.groupDescs.length := by
      calc group * volume.fs.superblock.inodesPerGroup + index
          < group * volume.fs.superblock.inodesPerGroup +
              volume.fs.superblock.inodesPerGroup := Nat.add_lt_add_left indexLt _
        _ = volume.fs.superblock.inodesPerGroup * (group + 1) := by ring
        _ ≤ volume.fs.superblock.inodesPerGroup * volume.fs.groupDescs.length :=
          Nat.mul_le_mul_left _ groupLt
    have noWrap : (group * volume.fs.superblock.inodesPerGroup + index + 1) % 2 ^ 32 =
        group * volume.fs.superblock.inodesPerGroup + index + 1 := by
      have total := geometry.inodes
      exact Nat.mod_eq_of_lt (by omega)
    have itemEq : (group * volume.fs.superblock.inodesPerGroup + index + 1) % 2 ^ 32 -
        Resource.inode.firstItem = group * volume.perGroup .inode + index := by
      rw [noWrap]
      simp [Resource.firstItem, Volume.perGroup]
    refine ⟨(group * volume.fs.superblock.inodesPerGroup + index + 1) % 2 ^ 32, ?_, ?_, ?_⟩
    · simp only [Volume.IsItem, Resource.firstItem, Volume.itemCount, noWrap]
      omega
    · rw [volume.used_position .inode indexLt itemEq]
      exact clear
    · rw [run_bind_ok search, volume.setUsed_position .inode true indexLt itemEq]
      rfl

theorem run_alloc {volume : Volume} (geometry : Geometry volume.fs) (resource : Resource) :
    ((alloc resource).run volume = .ok none volume ∧
        ∀ item, volume.IsItem resource item → volume.used resource item = true) ∨
      ∃ item, volume.IsItem resource item ∧ volume.used resource item = false ∧
        (alloc resource).run volume =
          .ok (some item) ((volume.setUsed resource item true).advance resource item) := by
  cases resource with
  | block => exact run_allocBlock geometry
  | inode => exact run_allocInode geometry

/-- Freeing an item clears its bit. -/
theorem run_dealloc {volume : Volume} (geometry : Geometry volume.fs) {resource : Resource}
    {item : Nat} (isItem : volume.IsItem resource item) :
    (dealloc resource item).run volume = .ok () (volume.setUsed resource item false) := by
  have groupLt := isItem.group_lt geometry
  have found := @Volume.bitmapOf_eq_some volume resource _ groupLt
  have bounds := Volume.perGroup_bounds geometry resource
  have localLt := Nat.mod_lt (item - resource.firstItem) bounds.1
  have inBlock : (item - resource.firstItem) % volume.perGroup resource / 8 < blockSz := by
    simp only [blockSz]
    omega
  cases resource with
  | block =>
      have position : volume.blockBitmapOf ((item - volume.fs.superblock.firstDataBlock) /
          volume.fs.superblock.blocksPerGroup) =
          some (volume.bitmapAt .block (item / volume.fs.superblock.blocksPerGroup)) := by
        rw [geometry.firstDataBlock]
        exact found
      have known : ¬ item < volume.fs.superblock.firstDataBlock := by
        simp [geometry.firstDataBlock]
      simp only [dealloc, deallocBlock]
      rw [run_bind_ok (run_get _)]
      simp only [known, if_false]
      rw [run_bind_ok (run_check (by exact Nat.ne_of_gt bounds.1) _), position]
      simp only [geometry.firstDataBlock, Nat.sub_zero]
      rw [run_bind_ok (run_check (by exact inBlock) _)]
      rfl
  | inode =>
      have known : ¬ item = 0 := Nat.ne_of_gt isItem.1
      simp only [dealloc, deallocInode, known, if_false]
      rw [run_bind_ok (run_get _), run_bind_ok (run_check (by exact Nat.ne_of_gt bounds.1) _)]
      simp only [Volume.bitmapOf, Resource.firstItem, Volume.perGroup] at found
      simp only [found]
      rw [run_bind_ok (run_check (by exact inBlock) _)]
      rfl

/-- One bit of one bitmap gets the given value; no other bit of any bitmap and
no other block changes. -/
structure SetsExactly (before after : Volume) (resource : Resource) (item : Nat)
    (value : Bool) : Prop where
  bits : ∀ other group index, group < before.fs.groupDescs.length →
    (after.disk (before.bitmapAt other group)).testBit index =
      if other = resource ∧
          group = (item - resource.firstItem) / before.perGroup resource ∧
          index = (item - resource.firstItem) % before.perGroup resource then value
      else (before.disk (before.bitmapAt other group)).testBit index
  blocks : ∀ blockId, (∀ other, ∀ group < before.fs.groupDescs.length,
    blockId ≠ before.bitmapAt other group) → after.disk blockId = before.disk blockId

/-- Allocation and freeing are exact on the bitmaps of this state. -/
structure AllocatorExact (volume : Volume) (resource : Resource) : Prop where
  refuses : (∃ after, (alloc resource).run volume = .ok none after) ↔
    ∀ item, volume.IsItem resource item → volume.used resource item = true
  takes : (∃ item, volume.IsItem resource item ∧ volume.used resource item = false) →
    ∃ item after, (alloc resource).run volume = .ok (some item) after ∧
      volume.IsItem resource item ∧ volume.used resource item = false ∧
      SetsExactly volume after resource item true
  frees : ∀ item, volume.IsItem resource item →
    ∃ after, (dealloc resource item).run volume = .ok () after ∧
      SetsExactly volume after resource item false

/-- What a call of an allocator did. -/
inductive AllocEvent where
  | took (resource : Resource) (item : Nat)
  | refused (resource : Resource)
  | freed (resource : Resource) (item : Nat)

/-- Sequences of calls with what each of them did. -/
inductive AllocRun (start : Volume) : List AllocEvent → Volume → Prop where
  | nil : AllocRun start [] start
  | took {log before after resource item} (run : AllocRun start log before)
      (call : (alloc resource).run before = .ok (some item) after) :
      AllocRun start (log ++ [.took resource item]) after
  | refused {log before after resource} (run : AllocRun start log before)
      (call : (alloc resource).run before = .ok none after) :
      AllocRun start (log ++ [.refused resource]) after
  | freed {log before after resource item} (run : AllocRun start log before)
      (isItem : before.IsItem resource item)
      (call : (dealloc resource item).run before = .ok () after) :
      AllocRun start (log ++ [.freed resource item]) after

/-- The set of held items after one event. -/
def AllocEvent.apply (held : Resource → Nat → Bool) : AllocEvent → Resource → Nat → Bool
  | .took resource item => fun other otherItem =>
      if other = resource ∧ otherItem = item then true else held other otherItem
  | .refused _ => held
  | .freed resource item => fun other otherItem =>
      if other = resource ∧ otherItem = item then false else held other otherItem

theorem geometry_advance {volume : Volume} (geometry : Geometry volume.fs)
    (resource : Resource) (item : Nat) : Geometry (volume.advance resource item).fs := by
  cases resource <;> exact ⟨geometry.firstDataBlock, geometry.groups, geometry.blocksPerGroup,
    geometry.inodesPerGroup, geometry.inodes, geometry.bitmaps⟩

theorem setsExactly_setUsed {volume : Volume} (geometry : Geometry volume.fs)
    {resource : Resource} {item : Nat} (isItem : volume.IsItem resource item) (value : Bool) :
    SetsExactly volume (volume.setUsed resource item value) resource item value where
  bits other group index groupLt :=
    Volume.testBit_setUsed geometry isItem groupLt value index
  blocks blockId outside := by
    simp only [Volume.setUsed, Volume.putBlock]
    exact Function.update_of_ne (outside resource _ (isItem.group_lt geometry)) _ _

theorem setsExactly_advance {volume : Volume} (geometry : Geometry volume.fs)
    {resource : Resource} {item : Nat} (isItem : volume.IsItem resource item) (value : Bool) :
    SetsExactly volume ((volume.setUsed resource item value).advance resource item)
      resource item value := by
  have changed := setsExactly_setUsed geometry isItem value
  cases resource <;> exact ⟨changed.bits, changed.blocks⟩

theorem allocatorExact {volume : Volume} (geometry : Geometry volume.fs)
    (resource : Resource) : AllocatorExact volume resource where
  refuses := by
    rcases run_alloc geometry resource with ⟨call, full⟩ | ⟨item, isItem, clear, call⟩
    · exact ⟨fun _ => full, fun _ => ⟨volume, call⟩⟩
    · constructor
      · rintro ⟨after, refused⟩
        rw [call] at refused
        cases refused
      · intro full
        rw [full item isItem] at clear
        cases clear
  takes := by
    rintro ⟨free, isFree, clear⟩
    rcases run_alloc geometry resource with ⟨_, full⟩ | ⟨item, isItem, clear, call⟩
    · rw [full free isFree] at clear
      cases clear
    · exact ⟨item, _, call, isItem, clear, setsExactly_advance geometry isItem true⟩
  frees item isItem :=
    ⟨_, run_dealloc geometry isItem, setsExactly_setUsed geometry isItem false⟩

@[simp]
theorem Volume.used_advance (volume : Volume) (resource other : Resource)
    (item otherItem : Nat) :
    (volume.advance resource item).used other otherItem = volume.used other otherItem := by
  cases resource <;> cases other <;> rfl

@[simp]
theorem Volume.isItem_advance (volume : Volume) (resource other : Resource)
    (item otherItem : Nat) :
    (volume.advance resource item).IsItem other otherItem ↔
      volume.IsItem other otherItem := by
  cases resource <;> cases other <;> rfl

@[simp]
theorem Volume.isItem_setUsed (volume : Volume) (resource other : Resource)
    (item otherItem : Nat) (value : Bool) :
    (volume.setUsed resource item value).IsItem other otherItem ↔
      volume.IsItem other otherItem := by
  cases other <;> rfl

/-- The state of the bitmaps is the set computed from the events, and the
geometry never changes. -/
structure Replays (start : Volume) (log : List AllocEvent) (final : Volume) : Prop where
  geometry : Geometry final.fs
  items : ∀ resource item, final.IsItem resource item ↔ start.IsItem resource item
  used : ∀ resource item, start.IsItem resource item →
    final.used resource item = log.foldl AllocEvent.apply start.used resource item

theorem Replays.took {start before : Volume} {log : List AllocEvent}
    (replays : Replays start log before) {resource : Resource} {item : Nat}
    (isItem : before.IsItem resource item) :
    Replays start (log ++ [.took resource item])
      ((before.setUsed resource item true).advance resource item) where
  geometry := by
    have unchanged : Geometry (before.setUsed resource item true).fs := replays.geometry
    exact geometry_advance unchanged resource item
  items other otherItem := by
    rw [Volume.isItem_advance, Volume.isItem_setUsed, replays.items]
  used other otherItem isOther := by
    have isOther' := (replays.items other otherItem).mpr isOther
    rw [Volume.used_advance, Volume.used_setUsed replays.geometry isItem isOther' true,
      replays.used other otherItem isOther, List.foldl_append]
    rfl

theorem Replays.freed {start before : Volume} {log : List AllocEvent}
    (replays : Replays start log before) {resource : Resource} {item : Nat}
    (isItem : before.IsItem resource item) :
    Replays start (log ++ [.freed resource item]) (before.setUsed resource item false) where
  geometry := replays.geometry
  items other otherItem := by
    rw [Volume.isItem_setUsed, replays.items]
  used other otherItem isOther := by
    have isOther' := (replays.items other otherItem).mpr isOther
    rw [Volume.used_setUsed replays.geometry isItem isOther' false,
      replays.used other otherItem isOther, List.foldl_append]
    rfl

/-- What one allocation does, read off its result. -/
theorem of_run_alloc_some {before after : Volume} (geometry : Geometry before.fs)
    {resource : Resource} {item : Nat}
    (call : (alloc resource).run before = .ok (some item) after) :
    before.IsItem resource item ∧ before.used resource item = false ∧
      after = (before.setUsed resource item true).advance resource item := by
  rcases run_alloc geometry resource with ⟨refused, _⟩ | ⟨taken, isItem, clear, ran⟩
  · rw [refused] at call
    cases call
  · rw [ran] at call
    cases call
    exact ⟨isItem, clear, rfl⟩

theorem of_run_alloc_none {before after : Volume} (geometry : Geometry before.fs)
    {resource : Resource} (call : (alloc resource).run before = .ok none after) :
    after = before := by
  rcases run_alloc geometry resource with ⟨refused, _⟩ | ⟨taken, isItem, clear, ran⟩
  · rw [refused] at call
    cases call
    rfl
  · rw [ran] at call
    cases call

theorem AllocRun.replays {start final : Volume} {log : List AllocEvent}
    (geometry : Geometry start.fs) (run : AllocRun start log final) :
    Replays start log final := by
  induction run with
  | nil => exact ⟨geometry, fun _ _ => Iff.rfl, fun _ _ _ => rfl⟩
  | took run call ih =>
      obtain ⟨isItem, _, rfl⟩ := of_run_alloc_some ih.geometry call
      exact ih.took isItem
  | refused run call ih =>
      obtain rfl := of_run_alloc_none ih.geometry call
      exact ⟨ih.geometry, ih.items, fun resource item isItem => by
        rw [ih.used resource item isItem, List.foldl_append]
        rfl⟩
  | freed run isItem call ih =>
      rw [run_dealloc ih.geometry isItem] at call
      cases call
      exact ih.freed isItem

/-- An item stays held until it is freed. -/
theorem held_of_not_freed {resource : Resource} {item : Nat} (events : List AllocEvent)
    (held : Resource → Nat → Bool) (isHeld : held resource item = true)
    (kept : AllocEvent.freed resource item ∉ events) :
    events.foldl AllocEvent.apply held resource item = true := by
  induction events generalizing held with
  | nil => exact isHeld
  | cons event events ih =>
      simp only [List.mem_cons, not_or] at kept
      refine ih _ ?_ kept.2
      cases event with
      | took other otherItem =>
          simp only [AllocEvent.apply]
          split
          · rfl
          · exact isHeld
      | refused other => exact isHeld
      | freed other otherItem =>
          simp only [AllocEvent.apply]
          rw [if_neg]
          · exact isHeld
          · rintro ⟨rfl, rfl⟩
            exact kept.1 rfl

theorem AllocRun.freed_between {start final : Volume} {log : List AllocEvent}
    (geometry : Geometry start.fs) (run : AllocRun start log final) {resource : Resource}
    {item : Nat} {before middle after : List AllocEvent}
    (twice : log = before ++ .took resource item :: middle ++ .took resource item :: after) :
    AllocEvent.freed resource item ∈ middle := by
  induction run generalizing after with
  | nil => simp at twice
  | @took log previous next other otherItem run call ih =>
      rcases List.eq_nil_or_concat after with rfl | ⟨shorter, last, rfl⟩
      · obtain ⟨rfl, sameEvent⟩ := List.append_inj' twice rfl
        cases sameEvent
        have replays := run.replays geometry
        obtain ⟨isItem, clear, _⟩ := of_run_alloc_some replays.geometry call
        by_contra kept
        rw [replays.used _ _ ((replays.items _ _).mp isItem), List.foldl_append,
          List.foldl_cons, held_of_not_freed middle _ (by simp [AllocEvent.apply]) kept] at clear
        cases clear
      · rw [List.concat_eq_append, ← List.cons_append, ← List.append_assoc] at twice
        exact ih (List.append_inj' twice rfl).1
  | @refused log previous next other run call ih =>
      rcases List.eq_nil_or_concat after with rfl | ⟨shorter, last, rfl⟩
      · have sameEvent := (List.append_inj' twice rfl).2
        cases sameEvent
      · rw [List.concat_eq_append, ← List.cons_append, ← List.append_assoc] at twice
        exact ih (List.append_inj' twice rfl).1
  | @freed log previous next other otherItem run isItem call ih =>
      rcases List.eq_nil_or_concat after with rfl | ⟨shorter, last, rfl⟩
      · have sameEvent := (List.append_inj' twice rfl).2
        cases sameEvent
      · rw [List.concat_eq_append, ← List.cons_append, ← List.append_assoc] at twice
        exact ih (List.append_inj' twice rfl).1

/-- After any sequence of calls, from any bitmaps and any cursors, both
allocators are exact, the bitmaps are the set of held items, and no item is
handed out twice without being freed in between. -/
theorem allocators_implement_sets {start final : Volume} {log : List AllocEvent}
    (geometry : Geometry start.fs) (run : AllocRun start log final) :
    (∀ resource, AllocatorExact final resource) ∧
      (∀ resource item, start.IsItem resource item →
        final.used resource item =
          log.foldl AllocEvent.apply start.used resource item) ∧
      (∀ resource item before middle after,
        log = before ++ .took resource item :: middle ++ .took resource item :: after →
          AllocEvent.freed resource item ∈ middle) := by
  have replays := run.replays geometry
  exact ⟨allocatorExact replays.geometry, replays.used,
    fun resource item before middle after twice => run.freed_between geometry twice⟩

/-- A further allocation takes an item that the events left free, or is refused when
they left none. -/
theorem AllocRun.alloc {start before : Volume} {log : List AllocEvent}
    (run : AllocRun start log before) (geometry : Geometry start.fs) (resource : Resource) :
    (AllocRun start (log ++ [.refused resource]) before ∧
        ∀ item, start.IsItem resource item →
          log.foldl AllocEvent.apply start.used resource item = true) ∨
      ∃ item after, AllocRun start (log ++ [.took resource item]) after ∧
        start.IsItem resource item ∧
          log.foldl AllocEvent.apply start.used resource item = false := by
  have replays := run.replays geometry
  rcases run_alloc replays.geometry resource with ⟨call, allUsed⟩ | ⟨item, isItem, isFree, call⟩
  · refine Or.inl ⟨run.refused call, fun item isItem => ?_⟩
    rw [← replays.used resource item isItem]
    exact allUsed item ((replays.items resource item).mpr isItem)
  · have isStartItem := (replays.items resource item).mp isItem
    refine Or.inr ⟨item, _, run.took call, isStartItem, ?_⟩
    rw [← replays.used resource item isStartItem]
    exact isFree

/-- 72 blocks in two groups, of 64 and of 8 blocks, and 32 inodes in each group. -/
def twoGroups : Ext4FileSystem where
  superblock :=
    { sBlocksCountLo := 72, sBlocksCountHi := 0, sFirstDataBlock := 0, sLogBlockSize := 2,
      sBlocksPerGroup := 64, sInodesPerGroup := 32, sRevLevel := 1, sInodeSize := 256 }
  groupDescs :=
    [{ bgBlockBitmapLo := 2, bgInodeBitmapLo := 4, bgInodeTableLo := 6,
       bgBlockBitmapHi := 0, bgInodeBitmapHi := 0, bgInodeTableHi := 0 },
     { bgBlockBitmapLo := 3, bgInodeBitmapLo := 5, bgInodeTableLo := 8,
       bgBlockBitmapHi := 0, bgInodeBitmapHi := 0, bgInodeTableHi := 0 }]
  is64bit := false
  nextAllocBlock := 0
  nextAllocInode := 1

theorem geometry_twoGroups : Geometry twoGroups where
  firstDataBlock := rfl
  groups := by decide
  blocksPerGroup := by decide
  inodesPerGroup := by decide
  inodes := by decide
  bitmaps := by decide

/-- Only the last block of the short group is free. -/
def nearlyFull : Volume :=
  { fs := twoGroups
    disk := fun blockId => if blockId = 2 then fun _ => 0xFF
      else if blockId = 3 then Bytes.zeroed.write 0 [0x7F] else Bytes.zeroed
    extentsCache := Std.TreeMap.empty
    dirIndexCache := Std.TreeMap.empty }

/-- A run that takes the last block, is refused, frees the block and takes it again. -/
theorem allocators_implement_sets_twoGroups :
    ∃ final, AllocRun nearlyFull
        [.took .block 71, .refused .block, .freed .block 71, .took .block 71] final ∧
      (∀ resource, AllocatorExact final resource) ∧
      (∀ resource item, nearlyFull.IsItem resource item →
        final.used resource item =
          [AllocEvent.took .block 71, .refused .block, .freed .block 71, .took .block 71].foldl
            AllocEvent.apply nearlyFull.used resource item) ∧
      ∀ resource item before middle after,
        [AllocEvent.took .block 71, .refused .block, .freed .block 71, .took .block 71] =
            before ++ .took resource item :: middle ++ .took resource item :: after →
          AllocEvent.freed resource item ∈ middle := by
  have geometry : Geometry nearlyFull.fs := geometry_twoGroups
  have isItem_iff (item : Nat) : nearlyFull.IsItem .block item ↔ item < 72 := by
    rw [Volume.IsItem, show nearlyFull.itemCount .block = 72 by decide]
    simp [Resource.firstItem]
  have lastBlock : nearlyFull.IsItem .block 71 := (isItem_iff 71).mpr (by decide)
  have onlyLast : ∀ item < 72, nearlyFull.used .block item = false → item = 71 := by decide
  have allTaken : ∀ item < 72, [AllocEvent.took .block 71].foldl AllocEvent.apply
      nearlyFull.used .block item = true := by decide
  have onlyFreed : ∀ item < 72, [AllocEvent.took .block 71, .refused .block,
      .freed .block 71].foldl AllocEvent.apply nearlyFull.used .block item = false →
        item = 71 := by decide
  obtain ⟨taken, firstRun⟩ : ∃ after, AllocRun nearlyFull [.took .block 71] after := by
    rcases AllocRun.nil.alloc geometry .block with ⟨_, full⟩ | ⟨item, after, run, isItem, isFree⟩
    · exact absurd (full 71 lastBlock) (by decide)
    · obtain rfl := onlyLast item ((isItem_iff item).mp isItem) isFree
      exact ⟨after, run⟩
  have secondRun : AllocRun nearlyFull [.took .block 71, .refused .block] taken := by
    rcases firstRun.alloc geometry .block with ⟨run, _⟩ | ⟨item, after, _, isItem, isFree⟩
    · exact run
    · rw [allTaken item ((isItem_iff item).mp isItem)] at isFree
      cases isFree
  have replays := secondRun.replays geometry
  have isHere := (replays.items .block 71).mpr lastBlock
  have thirdRun := secondRun.freed isHere (run_dealloc replays.geometry isHere)
  obtain ⟨final, run⟩ : ∃ after, AllocRun nearlyFull
      [.took .block 71, .refused .block, .freed .block 71, .took .block 71] after := by
    rcases thirdRun.alloc geometry .block with ⟨_, full⟩ | ⟨item, after, run, isItem, isFree⟩
    · exact absurd (full 71 lastBlock) (by decide)
    · obtain rfl := onlyFreed item ((isItem_iff item).mp isItem) isFree
      exact ⟨after, run⟩
  exact ⟨final, run, allocators_implement_sets geometry run⟩

/-- A file system of 64 blocks in one group: bitmaps in blocks 2 and 3, and 32
inodes of 256 bytes in blocks 4 and 5. -/
def smallFileSystem : Ext4FileSystem where
  superblock :=
    { sBlocksCountLo := 64, sBlocksCountHi := 0, sFirstDataBlock := 0, sLogBlockSize := 2,
      sBlocksPerGroup := 32768, sInodesPerGroup := 32, sRevLevel := 1, sInodeSize := 256 }
  groupDescs :=
    [{ bgBlockBitmapLo := 2, bgInodeBitmapLo := 3, bgInodeTableLo := 4,
       bgBlockBitmapHi := 0, bgInodeBitmapHi := 0, bgInodeTableHi := 0 }]
  is64bit := false
  nextAllocBlock := 0
  nextAllocInode := 1

theorem geometry_smallFileSystem : Geometry smallFileSystem where
  firstDataBlock := rfl
  groups := by decide
  blocksPerGroup := by decide
  inodesPerGroup := by decide
  inodes := by decide
  bitmaps := by decide

end Ext4

end OSWorkspace
