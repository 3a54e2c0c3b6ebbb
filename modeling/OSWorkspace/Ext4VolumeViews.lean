import OSWorkspace.Ext4Allocators

/-!
# Volumes as seen by the callers of the allocators

A view forgets the cursors and the bytes of the bitmaps and keeps the sets of
held blocks and inodes instead.  On views every primitive step is one exact
update, whatever the allocator chose.
-/

namespace OSWorkspace

namespace Ext4

open Exec

namespace Ext4FileSystem

/-- Forget the cursors of the allocators. -/
def shape (fs : Ext4FileSystem) : Ext4FileSystem :=
  { fs with nextAllocBlock := 0, nextAllocInode := 0 }

def IsBitmap (fs : Ext4FileSystem) (blockId : Nat) : Prop :=
  ∃ desc ∈ fs.groupDescs, blockId = desc.blockBitmap fs.is64bit ∨
    blockId = desc.inodeBitmap fs.is64bit

instance (fs : Ext4FileSystem) (blockId : Nat) : Decidable (fs.IsBitmap blockId) :=
  inferInstanceAs (Decidable (∃ desc ∈ fs.groupDescs, _))

end Ext4FileSystem

/-- A volume without cursors and bitmap bytes. -/
@[ext]
structure View where
  fs : Ext4FileSystem
  held : Resource → Set Nat
  data : Nat → Block
  extentsCache : Std.TreeMap Nat (List Ext4Extent)
  dirIndexCache : Std.TreeMap Nat DirIndex

namespace View

def hold (view : View) (resource : Resource) (item : Nat) : View :=
  { view with held := Function.update view.held resource (insert item (view.held resource)) }

def release (view : View) (resource : Resource) (item : Nat) : View :=
  { view with held := Function.update view.held resource (view.held resource \ {item}) }

def put (view : View) (blockId : Nat) (block : Block) : View :=
  { view with data := Function.update view.data blockId block }

end View

namespace Volume

def view (volume : Volume) : View where
  fs := volume.fs.shape
  held resource := {item | volume.IsItem resource item ∧ volume.used resource item = true}
  data blockId := if volume.fs.IsBitmap blockId then .zeroed else volume.disk blockId
  extentsCache := volume.extentsCache
  dirIndexCache := volume.dirIndexCache

theorem bitmapAt_isBitmap {volume : Volume} {resource : Resource} {group : Nat}
    (groupLt : group < volume.fs.groupDescs.length) :
    volume.fs.IsBitmap (volume.bitmapAt resource group) := by
  refine ⟨volume.fs.groupDescs[group], List.getElem_mem groupLt, ?_⟩
  cases resource with
  | block =>
      left
      simp [bitmapAt, bitmapOf, blockBitmapOf, List.getElem?_eq_getElem groupLt]
  | inode =>
      right
      simp [bitmapAt, bitmapOf, inodeBitmapOf, List.getElem?_eq_getElem groupLt]

variable {volume : Volume}

theorem mem_held {resource : Resource} {item : Nat} :
    item ∈ volume.view.held resource ↔
      volume.IsItem resource item ∧ volume.used resource item = true :=
  Iff.rfl

theorem data_of_not_bitmap {blockId : Nat} (outside : ¬ volume.fs.IsBitmap blockId) :
    volume.view.data blockId = volume.disk blockId := by
  simp [view, outside]

@[simp]
theorem view_advance (volume : Volume) (resource : Resource) (item : Nat) :
    (volume.advance resource item).view = volume.view := by
  cases resource <;>
    simp [view, advance, setNextAllocBlock, setNextAllocInode, Ext4FileSystem.shape] <;>
    constructor <;> funext other <;> cases other <;> rfl

theorem view_setExtentsCache (volume : Volume) (cache : Std.TreeMap Nat (List Ext4Extent)) :
    ({ volume with extentsCache := cache } : Volume).view =
      { volume.view with extentsCache := cache } := by
  ext1
  · rfl
  · funext resource
    cases resource <;> rfl
  · rfl
  · rfl
  · rfl

theorem view_setDirIndexCache (volume : Volume) (cache : Std.TreeMap Nat DirIndex) :
    ({ volume with dirIndexCache := cache } : Volume).view =
      { volume.view with dirIndexCache := cache } := by
  ext1
  · rfl
  · funext resource
    cases resource <;> rfl
  · rfl
  · rfl
  · rfl

theorem used_putBlock (geometry : Geometry volume.fs) {blockId : Nat}
    (outside : ¬ volume.fs.IsBitmap blockId) (block : Block) {resource : Resource} {item : Nat}
    (isItem : volume.IsItem resource item) :
    (volume.putBlock blockId block).used resource item = volume.used resource item := by
  have different : volume.bitmapAt resource
      ((item - resource.firstItem) / volume.perGroup resource) ≠ blockId := by
    rintro rfl
    exact outside (bitmapAt_isBitmap (isItem.group_lt geometry))
  have sameBitmap (group : Nat) : (volume.putBlock blockId block).bitmapAt resource group =
      volume.bitmapAt resource group := by cases resource <;> rfl
  have samePerGroup : (volume.putBlock blockId block).perGroup resource =
      volume.perGroup resource := by cases resource <;> rfl
  simp only [used, sameBitmap, samePerGroup]
  simp only [putBlock, Function.update_of_ne different]

theorem view_putBlock (geometry : Geometry volume.fs) {blockId : Nat}
    (outside : ¬ volume.fs.IsBitmap blockId) (block : Block) :
    (volume.putBlock blockId block).view = volume.view.put blockId block := by
  ext1
  · rfl
  · funext resource
    ext item
    have sameItems : (volume.putBlock blockId block).IsItem resource item ↔
        volume.IsItem resource item := by cases resource <;> rfl
    simp only [View.put, mem_held, sameItems]
    constructor
    · rintro ⟨isItem, isUsed⟩
      exact ⟨isItem, (used_putBlock geometry outside block isItem) ▸ isUsed⟩
    · rintro ⟨isItem, isUsed⟩
      exact ⟨isItem, (used_putBlock geometry outside block isItem).trans isUsed⟩
  · funext other
    by_cases same : other = blockId
    · subst same
      simp [view, View.put, putBlock, outside]
    · simp [view, View.put, putBlock, same]
  · rfl
  · rfl

theorem data_setUsed (geometry : Geometry volume.fs) {resource : Resource} {item : Nat}
    (isItem : volume.IsItem resource item) (value : Bool) :
    (volume.setUsed resource item value).view.data = volume.view.data := by
  funext blockId
  have fsEq : (volume.setUsed resource item value).fs = volume.fs := rfl
  simp only [view, fsEq]
  by_cases outside : volume.fs.IsBitmap blockId
  · simp [outside]
  · simp only [outside, if_false, setUsed, putBlock]
    apply Function.update_of_ne
    rintro rfl
    exact outside (bitmapAt_isBitmap (isItem.group_lt geometry))

theorem view_setUsed_true (geometry : Geometry volume.fs) {resource : Resource} {item : Nat}
    (isItem : volume.IsItem resource item) :
    (volume.setUsed resource item true).view = volume.view.hold resource item := by
  ext1
  · rfl
  · funext other
    ext otherItem
    by_cases sameResource : other = resource
    · subst sameResource
      simp only [View.hold, Function.update_self, Set.mem_insert_iff, mem_held, isItem_setUsed]
      by_cases sameItem : otherItem = item
      · subst sameItem
        simp [isItem, used_setUsed geometry isItem isItem]
      · simp only [sameItem, false_or]
        apply and_congr_right
        intro isOther
        rw [used_setUsed geometry isItem isOther]
        simp [sameItem]
    · simp only [View.hold, Function.update_of_ne sameResource, mem_held, isItem_setUsed]
      apply and_congr_right
      intro isOther
      rw [used_setUsed geometry isItem isOther]
      simp [sameResource]
  · exact data_setUsed geometry isItem true
  · rfl
  · rfl

theorem view_setUsed_false (geometry : Geometry volume.fs) {resource : Resource} {item : Nat}
    (isItem : volume.IsItem resource item) :
    (volume.setUsed resource item false).view = volume.view.release resource item := by
  ext1
  · rfl
  · funext other
    ext otherItem
    by_cases sameResource : other = resource
    · subst sameResource
      simp only [View.release, Function.update_self, Set.mem_sdiff, Set.mem_singleton_iff,
        mem_held, isItem_setUsed]
      by_cases sameItem : otherItem = item
      · subst sameItem
        simp [isItem, used_setUsed geometry isItem isItem]
      · simp only [sameItem, not_false_eq_true, and_true]
        apply and_congr_right
        intro isOther
        rw [used_setUsed geometry isItem isOther]
        simp [sameItem]
    · simp only [View.release, Function.update_of_ne sameResource, mem_held, isItem_setUsed]
      apply and_congr_right
      intro isOther
      rw [used_setUsed geometry isItem isOther]
      simp [sameResource]
  · exact data_setUsed geometry isItem false
  · rfl
  · rfl

theorem geometry_of_shape {fs other : Ext4FileSystem} (geometry : Geometry fs)
    (same : other.shape = fs.shape) : Geometry other := by
  have superblockEq : other.superblock = fs.superblock := congrArg (·.superblock) same
  have groupsEq : other.groupDescs = fs.groupDescs := congrArg (·.groupDescs) same
  have wordEq : other.is64bit = fs.is64bit := congrArg (·.is64bit) same
  constructor
  · rw [superblockEq, geometry.firstDataBlock]
  · rw [superblockEq, groupsEq, geometry.groups]
  · rw [superblockEq]
    exact geometry.blocksPerGroup
  · rw [superblockEq]
    exact geometry.inodesPerGroup
  · rw [superblockEq, groupsEq]
    exact geometry.inodes
  · rw [wordEq, groupsEq]
    exact geometry.bitmaps

theorem geometry_view : Geometry volume.view.fs ↔ Geometry volume.fs :=
  ⟨fun geometry => geometry_of_shape geometry rfl, fun geometry => geometry_of_shape geometry rfl⟩

end Volume

/-- The items of a resource, from the shape alone. -/
def View.IsItem (view : View) (resource : Resource) (item : Nat) : Prop :=
  Volume.IsItem ⟨view.fs, fun _ => .zeroed, .empty, .empty⟩ resource item

theorem Volume.isItem_view {volume : Volume} {resource : Resource} {item : Nat} :
    volume.view.IsItem resource item ↔ volume.IsItem resource item := by
  cases resource <;> rfl

/-- An allocation in terms of views. -/
theorem view_alloc {volume : Volume} (geometry : Geometry volume.view.fs) (resource : Resource) :
    ((alloc resource).run volume = .ok none volume ∧
        ∀ item, volume.view.IsItem resource item → item ∈ volume.view.held resource) ∨
      ∃ item after, (alloc resource).run volume = .ok (some item) after ∧
        volume.view.IsItem resource item ∧ item ∉ volume.view.held resource ∧
        after.view = volume.view.hold resource item := by
  have geometry := Volume.geometry_view.mp geometry
  rcases run_alloc geometry resource with ⟨call, full⟩ | ⟨item, isItem, clear, call⟩
  · left
    refine ⟨call, ?_⟩
    intro item isItem
    have isItem := Volume.isItem_view.mp isItem
    exact ⟨isItem, full item isItem⟩
  · right
    refine ⟨item, _, call, Volume.isItem_view.mpr isItem, ?_, ?_⟩
    · rintro ⟨_, isUsed⟩
      rw [clear] at isUsed
      cases isUsed
    · rw [Volume.view_advance, Volume.view_setUsed_true geometry isItem]

/-- Freeing a held item in terms of views. -/
theorem view_dealloc {volume : Volume} (geometry : Geometry volume.view.fs)
    {resource : Resource} {item : Nat} (isItem : volume.view.IsItem resource item) :
    ∃ after, (dealloc resource item).run volume = .ok () after ∧
      after.view = volume.view.release resource item := by
  have geometry := Volume.geometry_view.mp geometry
  have isItem := Volume.isItem_view.mp isItem
  exact ⟨_, run_dealloc geometry isItem, Volume.view_setUsed_false geometry isItem⟩

theorem view_allocBlock {volume : Volume} (geometry : Geometry volume.view.fs) :
    (allocBlock.run volume = .ok none volume ∧
        ∀ item, volume.view.IsItem .block item → item ∈ volume.view.held .block) ∨
      ∃ item after, allocBlock.run volume = .ok (some item) after ∧
        volume.view.IsItem .block item ∧ item ∉ volume.view.held .block ∧
        after.view = volume.view.hold .block item :=
  view_alloc geometry .block

theorem view_allocInode {volume : Volume} (geometry : Geometry volume.view.fs) :
    (allocInode.run volume = .ok none volume ∧
        ∀ item, volume.view.IsItem .inode item → item ∈ volume.view.held .inode) ∨
      ∃ item after, allocInode.run volume = .ok (some item) after ∧
        volume.view.IsItem .inode item ∧ item ∉ volume.view.held .inode ∧
        after.view = volume.view.hold .inode item :=
  view_alloc geometry .inode

theorem view_deallocBlock {volume : Volume} (geometry : Geometry volume.view.fs) {item : Nat}
    (isItem : volume.view.IsItem .block item) :
    ∃ after, (deallocBlock item).run volume = .ok () after ∧
      after.view = volume.view.release .block item :=
  view_dealloc geometry isItem

theorem view_deallocInode {volume : Volume} (geometry : Geometry volume.view.fs) {item : Nat}
    (isItem : volume.view.IsItem .inode item) :
    ∃ after, (deallocInode item).run volume = .ok () after ∧
      after.view = volume.view.release .inode item :=
  view_dealloc geometry isItem

theorem View.isItem_of_held {volume : Volume} {resource : Resource} {item : Nat}
    (isHeld : item ∈ volume.view.held resource) : volume.view.IsItem resource item :=
  Volume.isItem_view.mpr isHeld.1

end Ext4

end OSWorkspace
