import OSWorkspace.Ext4ExtentTreeCodec
import OSWorkspace.Ext4VolumeViews

/-!
# Rewriting extent trees

A rewrite allocates the blocks of the new tree, fills them, and frees those of
the old tree.  The new tree decodes to the given extents, the held blocks
change by exactly the two trees, and a failed rewrite leaves both the held
blocks and the old tree as they were.
-/

namespace OSWorkspace

namespace Ext4

open Exec

namespace View

def holdBlocks (view : View) (blocks : List Nat) : View :=
  { view with held := Function.update view.held .block (view.held .block ∪ {b | b ∈ blocks}) }

def releaseBlocks (view : View) (blocks : List Nat) : View :=
  { view with held := Function.update view.held .block (view.held .block \ {b | b ∈ blocks}) }

theorem holdBlocks_nil (view : View) : view.holdBlocks [] = view := by
  simp [holdBlocks]

theorem holdBlocks_cons (view : View) (block : Nat) (blocks : List Nat) :
    (view.hold .block block).holdBlocks blocks = view.holdBlocks (block :: blocks) := by
  simp only [hold, holdBlocks, Function.update_self, Function.update_idem]
  congr 2
  ext other
  simp only [Set.mem_union, Set.mem_insert_iff, Set.mem_ofPred_eq, List.mem_cons]
  tauto

theorem releaseBlocks_nil (view : View) : view.releaseBlocks [] = view := by
  simp [releaseBlocks]

theorem releaseBlocks_cons (view : View) (block : Nat) (blocks : List Nat) :
    (view.release .block block).releaseBlocks blocks = view.releaseBlocks (block :: blocks) := by
  simp only [release, releaseBlocks, Function.update_self, Function.update_idem]
  congr 2
  ext other
  simp only [Set.mem_sdiff, Set.mem_singleton_iff, Set.mem_ofPred_eq, List.mem_cons]
  tauto

/-- Freeing what was just allocated restores the view. -/
theorem releaseBlocks_holdBlocks {view : View} {blocks : List Nat}
    (fresh : ∀ block ∈ blocks, block ∉ view.held .block) :
    (view.holdBlocks blocks).releaseBlocks blocks = view := by
  have sameSet : (view.held .block ∪ {b | b ∈ blocks}) \ {b | b ∈ blocks} = view.held .block := by
    ext other
    simp only [Set.mem_sdiff, Set.mem_union, Set.mem_ofPred_eq]
    constructor
    · rintro ⟨isHeld | isNew, notNew⟩
      · exact isHeld
      · exact absurd isNew notNew
    · intro isHeld
      exact ⟨Or.inl isHeld, fun isNew => fresh other isNew isHeld⟩
  simp only [releaseBlocks, holdBlocks, Function.update_self, Function.update_idem, sameSet,
    Function.update_eq_self]

theorem releaseBlocks_append (view : View) (first second : List Nat) :
    (view.releaseBlocks first).releaseBlocks second = view.releaseBlocks (first ++ second) := by
  simp only [releaseBlocks, Function.update_self, Function.update_idem]
  congr 2
  ext other
  simp only [Set.mem_sdiff, Set.mem_ofPred_eq, List.mem_append]
  tauto

theorem holdBlocks_append (view : View) (first second : List Nat) :
    (view.holdBlocks first).holdBlocks second = view.holdBlocks (first ++ second) := by
  simp only [holdBlocks, Function.update_self, Function.update_idem]
  congr 2
  ext other
  simp only [Set.mem_union, Set.mem_ofPred_eq, List.mem_append]
  tauto

/-- The state in which the allocator hands out only blocks that hold no
metadata: block 0 and the bitmaps are marked used, and block numbers fit into
48 bits. -/
structure Guarded (view : View) : Prop where
  geometry : Geometry view.fs
  small : view.fs.superblock.blocksCount ≤ 2 ^ 48
  zero : 0 ∈ view.held .block
  bitmaps : ∀ blockId, view.fs.IsBitmap blockId → view.IsItem .block blockId →
    blockId ∈ view.held .block

/-- A block that the allocator may hand out. -/
theorem Guarded.fresh {view : View} (guarded : view.Guarded) {block : Nat}
    (isItem : view.IsItem .block block) (free : block ∉ view.held .block) :
    block ≠ 0 ∧ ¬ view.fs.IsBitmap block ∧ block < 2 ^ 48 := by
  refine ⟨?_, fun isBitmap => free (guarded.bitmaps block isBitmap isItem), ?_⟩
  · rintro rfl
    exact free guarded.zero
  · have below : block < 0 + view.fs.superblock.blocksCount := isItem.2
    have small := guarded.small
    omega

end View

theorem view_deallocBlocks {volume : Volume} (geometry : Geometry volume.view.fs)
    {blocks : List Nat} (items : ∀ block ∈ blocks, volume.view.IsItem .block block) :
    ∃ after, (deallocExtentMetadataBlocks blocks).run volume = .ok () after ∧
      after.view = volume.view.releaseBlocks blocks := by
  induction blocks generalizing volume with
  | nil => exact ⟨volume, rfl, (View.releaseBlocks_nil _).symm⟩
  | cons block blocks ih =>
      obtain ⟨middle, ran, middleView⟩ := view_deallocBlock geometry (items block (by simp))
      have sameShape : middle.view.fs = volume.view.fs := by rw [middleView]; rfl
      obtain ⟨after, rest, afterView⟩ := @ih middle (by rw [sameShape]; exact geometry)
        (fun other otherMem => by
          rw [View.IsItem, sameShape]
          exact items other (by simp [otherMem]))
      refine ⟨after, ?_, ?_⟩
      · rw [deallocExtentMetadataBlocks, run_bind_ok ran]
        exact rest
      · rw [afterView, middleView, View.releaseBlocks_cons]

theorem view_allocBlocks {volume : Volume} (geometry : Geometry volume.view.fs) (count : Nat)
    {blocks : List Nat} (items : ∀ block ∈ blocks, volume.view.IsItem .block block) :
    (∃ new after, (allocExtentMetadataBlocks count blocks).run volume =
          .ok (blocks ++ new) after ∧
        new.length = count ∧ new.Nodup ∧
        (∀ block ∈ new, volume.view.IsItem .block block ∧ block ∉ volume.view.held .block) ∧
        after.view = volume.view.holdBlocks new) ∨
      ∃ new after, (allocExtentMetadataBlocks count blocks).run volume = .err .noSpace after ∧
        new.length < count ∧ (∀ block ∈ new, block ∉ volume.view.held .block) ∧
        (∀ block, volume.view.IsItem .block block →
          block ∈ volume.view.held .block ∨ block ∈ new) ∧
        after.view = (volume.view.holdBlocks new).releaseBlocks (blocks ++ new) := by
  induction count generalizing volume blocks with
  | zero =>
      left
      exact ⟨[], volume, by simp [allocExtentMetadataBlocks], rfl, List.nodup_nil, by simp,
        (View.holdBlocks_nil _).symm⟩
  | succ count ih =>
      rw [allocExtentMetadataBlocks]
      rcases view_allocBlock geometry with ⟨call, full⟩ |
        ⟨block, middle, call, isItem, free, middleView⟩
      · right
        obtain ⟨after, freed, afterView⟩ := view_deallocBlocks geometry items
        refine ⟨[], after, ?_, by simp, by simp, fun other isItem => Or.inl (full other isItem), ?_⟩
        · rw [run_bind_ok call]
          show (deallocExtentMetadataBlocks blocks >>= fun _ => throw .noSpace).run volume = _
          rw [run_bind_ok freed]
          rfl
        · rw [afterView, List.append_nil, View.holdBlocks_nil]
      · have sameShape : middle.view.fs = volume.view.fs := by rw [middleView]; rfl
        have middleHeld (other : Nat) : other ∈ middle.view.held .block ↔
            other = block ∨ other ∈ volume.view.held .block := by
          rw [middleView]
          simp [View.hold]
        have middleItem (other : Nat) : middle.view.IsItem .block other ↔
            volume.view.IsItem .block other := by
          rw [View.IsItem, sameShape]
          rfl
        have items' : ∀ other ∈ blocks ++ [block], middle.view.IsItem .block other := by
          intro other otherMem
          rw [middleItem]
          rcases List.mem_append.mp otherMem with otherMem | otherMem
          · exact items other otherMem
          · rw [List.mem_singleton.mp otherMem]
            exact isItem
        rcases @ih middle (by rw [sameShape]; exact geometry) (blocks ++ [block]) items' with
          ⟨new, after, rest, lengthEq, nodup, fresh, afterView⟩ |
          ⟨new, after, rest, lengthLt, fresh, covered, afterView⟩
        · left
          refine ⟨block :: new, after, ?_, by simp [lengthEq], ?_, ?_, ?_⟩
          · rw [run_bind_ok call, show blocks ++ block :: new = blocks ++ [block] ++ new by simp]
            exact rest
          · refine List.nodup_cons.mpr ⟨?_, nodup⟩
            intro blockMem
            exact (fresh block blockMem).2 ((middleHeld block).mpr (Or.inl rfl))
          · intro other otherMem
            rcases List.mem_cons.mp otherMem with rfl | otherMem
            · exact ⟨isItem, free⟩
            · obtain ⟨otherItem, otherFree⟩ := fresh other otherMem
              rw [middleHeld] at otherFree
              exact ⟨(middleItem other).mp otherItem, fun isHeld => otherFree (Or.inr isHeld)⟩
          · rw [afterView, middleView, View.holdBlocks_cons]
        · right
          refine ⟨block :: new, after, ?_, by simpa using lengthLt, ?_, ?_, ?_⟩
          · rw [run_bind_ok call]
            exact rest
          · intro other otherMem
            rcases List.mem_cons.mp otherMem with rfl | otherMem
            · exact free
            · intro isHeld
              exact fresh other otherMem ((middleHeld other).mpr (Or.inr isHeld))
          · intro other otherItem
            rcases covered other ((middleItem other).mpr otherItem) with isHeld | isNew
            · rcases (middleHeld other).mp isHeld with rfl | isHeld
              · exact Or.inr (by simp)
              · exact Or.inl isHeld
            · exact Or.inr (by simp [isNew])
          · rw [afterView, middleView, View.holdBlocks_cons]
            simp

/-- Consecutive sublists of the given width, from number `position` on. -/
def windows {α : Type} (values : List α) (width position count : Nat) : List (List α) :=
  (List.range' position count).map fun index => (values.drop (index * width)).take width

theorem flatten_windows {α : Type} (values : List α) (width position count : Nat) :
    (windows values width position count).flatten =
      (values.drop (position * width)).take (count * width) := by
  induction count generalizing position with
  | zero => simp [windows]
  | succ count ih =>
      have split : windows values width position (count + 1) =
          (values.drop (position * width)).take width ::
            windows values width (position + 1) count := by
        simp [windows, List.range'_succ]
      have countEq : (count + 1) * width = width + count * width := by ring
      have positionEq : (position + 1) * width = position * width + width := by ring
      rw [split, List.flatten_cons, ih, countEq, List.take_add, List.drop_drop, positionEq]

theorem flatten_windows_all {α : Type} (values : List α) {width count : Nat}
    (enough : values.length ≤ count * width) :
    (windows values width 0 count).flatten = values := by
  rw [flatten_windows, Nat.zero_mul, List.drop_zero, List.take_of_length_le enough]

/-- Writing a list of blocks, each with its own contents. -/
theorem view_writeEach {volume : Volume} (geometry : Geometry volume.view.fs)
    (program : Nat → List Nat → Call Unit) {contents : Nat → Block}
    (nil : ∀ position, program position [] = pure ())
    (cons : ∀ position block blocks, program position (block :: blocks) = do
      writeBlock block (contents position)
      program (position + 1) blocks)
    {blocks : List Nat} (outside : ∀ block ∈ blocks, ¬ volume.fs.IsBitmap block)
    (nodup : blocks.Nodup) (position : Nat) :
    ∃ after, (program position blocks).run volume = .ok () after ∧
      after.view = { volume.view with data := after.view.data } ∧
      (∀ block, block ∉ blocks → after.view.data block = volume.view.data block) ∧
      List.Forall₂ (fun block index => after.view.data block = contents index) blocks
        (List.range' position blocks.length) := by
  induction blocks generalizing volume position with
  | nil => exact ⟨volume, by rw [nil]; rfl, rfl, fun _ _ => rfl, by simp⟩
  | cons block blocks ih =>
      obtain ⟨blockFresh, restNodup⟩ := List.nodup_cons.mp nodup
      have putView := Volume.view_putBlock (Volume.geometry_view.mp geometry)
        (outside block (by simp)) (contents position)
      have sameShape : (volume.putBlock block (contents position)).view.fs = volume.view.fs := by
        rw [putView]
        rfl
      obtain ⟨after, ran, stateEq, frame, stored⟩ :=
        @ih (volume.putBlock block (contents position)) (by rw [sameShape]; exact geometry)
          (fun other otherMem => outside other (by simp [otherMem])) restNodup (position + 1)
      refine ⟨after, ?_, ?_, ?_, ?_⟩
      · rw [cons, run_bind_ok (run_writeBlock _ _ _)]
        exact ran
      · rw [stateEq, putView]
        rfl
      · intro other otherNotMem
        rw [List.mem_cons, not_or] at otherNotMem
        rw [frame other otherNotMem.2, putView]
        simp [View.put, otherNotMem.1]
      · rw [List.length_cons, List.range'_succ]
        refine List.Forall₂.cons ?_ stored
        rw [frame block blockFresh, putView]
        simp [View.put]

theorem view_writeLeafBlocks {volume : Volume} (geometry : Geometry volume.view.fs)
    (extents : List Ext4Extent) {blocks : List Nat}
    (outside : ∀ block ∈ blocks, ¬ volume.fs.IsBitmap block) (nodup : blocks.Nodup) :
    ∃ after, (writeLeafBlocks extents 0 blocks).run volume = .ok () after ∧
      after.view = { volume.view with data := after.view.data } ∧
      (∀ block, block ∉ blocks → after.view.data block = volume.view.data block) ∧
      AreLeaves after.view.data blocks (windows extents extentsPerNode 0 blocks.length) := by
  obtain ⟨after, ran, stateEq, frame, stored⟩ := view_writeEach geometry
    (writeLeafBlocks extents) (fun _ => rfl) (fun _ _ _ => rfl) outside nodup 0
  refine ⟨after, ran, stateEq, frame, ?_⟩
  rw [windows, AreLeaves, List.forall₂_map_right_iff]
  refine stored.imp ?_
  intro block index contentsEq
  rw [contentsEq]
  exact isLeaf_storeNode (by simp)

theorem view_writeIndexBlocks {volume : Volume} (geometry : Geometry volume.view.fs)
    (extents : List Ext4Extent) {leafBlocks blocks : List Nat}
    (small : ∀ leaf ∈ leafBlocks, leaf < 2 ^ 48)
    (outside : ∀ block ∈ blocks, ¬ volume.fs.IsBitmap block) (nodup : blocks.Nodup) :
    ∃ after, (writeIndexBlocks extents leafBlocks 0 blocks).run volume = .ok () after ∧
      after.view = { volume.view with data := after.view.data } ∧
      (∀ block, block ∉ blocks → after.view.data block = volume.view.data block) ∧
      List.Forall₂ (fun block children => IsIndex (after.view.data block) children) blocks
        (windows leafBlocks extentsPerNode 0 blocks.length) := by
  obtain ⟨after, ran, stateEq, frame, stored⟩ := view_writeEach geometry
    (writeIndexBlocks extents leafBlocks) (fun _ => rfl) (fun _ _ _ => rfl)
    outside nodup 0
  refine ⟨after, ran, stateEq, frame, ?_⟩
  rw [windows, List.forall₂_map_right_iff]
  refine stored.imp ?_
  intro block index contentsEq
  rw [contentsEq]
  have node := @isIndex_storeNode (
    ((leafBlocks.drop (index * extentsPerNode)).take extentsPerNode).mapIdx fun offset leaf =>
      childEntry extents ((index * extentsPerNode + offset) * extentsPerNode) leaf) (by simp)
  rw [map_leafBlock_mapIdx extents (fun offset => (index * extentsPerNode + offset) *
    extentsPerNode) fun leaf leafMem =>
      small leaf (List.mem_of_mem_drop (List.mem_of_mem_take leafMem))] at node
  exact node

theorem take_padded {α : Type} {values : List α} {count : Nat} (few : values.length ≤ count)
    (padding : List α) : ((values ++ padding).take count).take values.length = values := by
  rw [List.take_take, Nat.min_eq_left few, List.take_left]

theorem length_padded {α : Type} (values : List α) (count : Nat) (value : α) :
    ((values ++ List.replicate count value).take count).length = count := by
  simp

theorem writeExtentsLeafInInode_ok (inode : Ext4Inode) {extents : List Ext4Extent}
    (few : extents.length ≤ extentsInInode) :
    ∃ changed, writeExtentsLeafInInode inode extents = .ok changed ∧
      (∀ name, name ≠ .iFlags → changed.field name = inode.field name) ∧
      changed.iFlags = inode.iFlags ||| ext4ExtentsFl ∧
      ∀ disk, parseExtentTree disk changed.blockData = extents ∧
        extentTreeBlocks disk changed.blockData = ([], []) := by
  have bound : extents.length ≤ 4 := few
  have header := nodeHeader_storeNode Ext4Extent.record
    (inode.setIFlags (inode.iFlags ||| ext4ExtentsFl)).blockData (by decide) extents.length
    extentsInInode 0 ((extents ++ List.replicate extentsInInode
      (⟨0, 0, 0, 0⟩ : Ext4Extent)).take extentsInInode)
  have count : (UInt16.ofNat extents.length).toNat = extents.length := by
    rw [UInt16.toNat_ofNat']
    exact Nat.mod_eq_of_lt (by omega)
  refine ⟨_, if_neg (Nat.not_lt.mpr few), ?_, ?_, ?_⟩
  · intro name different
    simp [different]
  · have flagsLt : inode.iFlags ||| ext4ExtentsFl < 2 ^ 32 :=
      Nat.or_lt_two_pow (inode.field_lt .iFlags) (by decide)
    rw [Ext4Inode.iFlags, Ext4Inode.field_setBlockData, Ext4Inode.field_setField_same]
    exact Nat.mod_eq_of_lt flagsLt
  · intro disk
    rw [Ext4Inode.blockData_setBlockData]
    obtain ⟨parseEq, blocksEq⟩ := tree_flat (by rw [header]; rfl) (by rw [header]; rfl) disk
    refine ⟨?_, blocksEq⟩
    rw [parseEq, nodeExtents, header, count, Nat.min_eq_left few, loadTable_storeNode,
      take_padded few]
    · rw [length_padded]
      decide
    · rw [length_padded]
      exact few

/-- The root as an index node over the given children. -/
structure IsRoot (inodeBlock : Bytes iBlockSize) (depth : Nat) (children : List Nat) : Prop where
  valid : (nodeHeader inodeBlock).isValid = true
  depth : (nodeHeader inodeBlock).ehDepth.toNat = depth
  entries : nodeChildren inodeBlock extentsInInode = children

theorem isRoot_writeExtentRootIndexInInode (inode : Ext4Inode) {childBlocks : List Nat}
    (extents : List Ext4Extent) {depth : Nat} (stride : Nat) (depthLe : depth ≤ 5)
    (few : childBlocks.length ≤ extentsInInode) (small : ∀ child ∈ childBlocks, child < 2 ^ 48) :
    IsRoot (writeExtentRootIndexInInode inode childBlocks extents depth stride).blockData depth
      childBlocks := by
  have bound : childBlocks.length ≤ 4 := few
  have header := nodeHeader_storeNode Ext4ExtentIdx.record inode.blockData (by decide)
    childBlocks.length extentsInInode depth ((childBlocks.mapIdx (fun position child =>
      childEntry extents (position * stride) child) ++ List.replicate extentsInInode
        (⟨0, 0, 0, 0⟩ : Ext4ExtentIdx)).take extentsInInode)
  have count : (UInt16.ofNat childBlocks.length).toNat = childBlocks.length := by
    rw [UInt16.toNat_ofNat']
    exact Nat.mod_eq_of_lt (by omega)
  have depthEq : (UInt16.ofNat depth).toNat = depth := by
    rw [UInt16.toNat_ofNat']
    exact Nat.mod_eq_of_lt (by omega)
  rw [writeExtentRootIndexInInode, Ext4Inode.blockData_setBlockData]
  constructor
  · rw [header]
    rfl
  · rw [header]
    exact depthEq
  · rw [nodeChildren, nodeIndexes, header, count, Nat.min_eq_left few, loadTable_storeNode]
    · have sameLength : childBlocks.length = (childBlocks.mapIdx fun position child =>
          childEntry extents (position * stride) child).length := by simp
      rw [sameLength, take_padded (by simpa using few)]
      exact map_leafBlock_mapIdx extents (· * stride) small
    · rw [length_padded]
      decide
    · rw [length_padded]
      exact few

theorem field_writeExtentRootIndexInInode (inode : Ext4Inode) (childBlocks : List Nat)
    (extents : List Ext4Extent) (depth stride : Nat) (name : InodeField) :
    (writeExtentRootIndexInInode inode childBlocks extents depth stride).field name =
      inode.field name := by
  simp [writeExtentRootIndexInInode]

/-- A tree of one index level. -/
theorem tree_of_leaves {disk : Nat → Block} {inodeBlock : Bytes iBlockSize} {leaves : List Nat}
    {chunks : List (List Ext4Extent)} (isRoot : IsRoot inodeBlock 1 leaves)
    (stored : AreLeaves disk leaves chunks) (nonzero : 0 ∉ leaves) (nodup : leaves.Nodup) :
    parseExtentTree disk inodeBlock = chunks.flatten ∧
      extentTreeBlocks disk inodeBlock = (leaves, []) := by
  constructor
  · rw [parseExtentTree_deep disk isRoot.valid isRoot.depth (by decide), isRoot.entries,
      parse_leaves stored nonzero nodup [] (by simp)]
    simp
  · rw [extentTreeBlocks_deep disk isRoot.valid isRoot.depth (by decide), rootBlocks,
      isRoot.entries, collect_leaves nonzero nodup (by simp)]
    simp

/-- A tree of two index levels. -/
theorem tree_of_indexes {disk : Nat → Block} {inodeBlock : Bytes iBlockSize}
    {indexes : List Nat} {nodes : List (List Nat × List (List Ext4Extent))}
    (isRoot : IsRoot inodeBlock 2 indexes) (stored : AreIndexes disk indexes nodes)
    (nonzero : 0 ∉ indexes ++ nodes.flatMap Prod.fst)
    (nodup : (indexes ++ nodes.flatMap Prod.fst).Nodup) :
    parseExtentTree disk inodeBlock = (nodes.flatMap fun node => node.2.flatten) ∧
      extentTreeBlocks disk inodeBlock = (nodes.flatMap Prod.fst, indexes) := by
  constructor
  · rw [parseExtentTree_deep disk isRoot.valid isRoot.depth (by decide), isRoot.entries,
      parse_indexes stored nonzero nodup [] (by simp)]
    simp
  · obtain ⟨leavesEq, indexesEq⟩ := @collect_indexes disk indexes nodes stored nonzero nodup
      ⟨[], [], []⟩ (by simp)
    rw [extentTreeBlocks_deep disk isRoot.valid isRoot.depth (by decide), rootBlocks,
      isRoot.entries, leavesEq, indexesEq]
    simp

/-- The nodes below consecutive index blocks. -/
def indexNodes (leaves : List Nat) (chunks : List (List Ext4Extent)) (count : Nat) :
    List (List Nat × List (List Ext4Extent)) :=
  (List.range' 0 count).map fun index =>
    ((leaves.drop (index * extentsPerNode)).take extentsPerNode,
      (chunks.drop (index * extentsPerNode)).take extentsPerNode)

theorem leaves_indexNodes {leaves : List Nat} (chunks : List (List Ext4Extent)) {count : Nat}
    (enough : leaves.length ≤ count * extentsPerNode) :
    (indexNodes leaves chunks count).flatMap Prod.fst = leaves := by
  rw [indexNodes, List.flatMap_map, List.flatMap_def]
  exact flatten_windows_all leaves enough

theorem extents_indexNodes (leaves : List Nat) {chunks : List (List Ext4Extent)} {count : Nat}
    (enough : chunks.length ≤ count * extentsPerNode) :
    ((indexNodes leaves chunks count).flatMap fun node => node.2.flatten) = chunks.flatten := by
  have joined := congrArg List.flatten (flatten_windows_all chunks enough)
  rw [← joined, indexNodes, List.flatMap_map, List.flatMap_def, List.flatten_flatten, windows,
    List.map_map]
  rfl

/-- Index nodes and the leaves below them make up the nodes of a tree. -/
theorem areIndexes_of_windows {disk : Nat → Block} {indexes leaves : List Nat}
    {chunks : List (List Ext4Extent)} (areLeaves : AreLeaves disk leaves chunks)
    (stored : List.Forall₂ (fun block children => IsIndex (disk block) children) indexes
      (windows leaves extentsPerNode 0 indexes.length)) :
    AreIndexes disk indexes (indexNodes leaves chunks indexes.length) := by
  rw [windows, List.forall₂_map_right_iff] at stored
  rw [AreIndexes, indexNodes, List.forall₂_map_right_iff]
  refine stored.imp ?_
  intro block index isIndex
  exact ⟨isIndex, List.forall₂_take _ (List.forall₂_drop _ areLeaves)⟩

/-- Blocks of a new tree over the given number of extents. -/
def treeSize (entries : Nat) : Nat :=
  if entries ≤ extentsInInode then 0
  else if needNodes entries ≤ extentsInInode then needNodes entries
  else needNodes entries + needNodes (needNodes entries)

def extentTreeMaxEntries : Nat := extentsInInode * extentsPerNode * extentsPerNode

/-- A successful rewrite of the tree of an inode. -/
structure Rewrite (before : View) (inodeNum : Nat) (inode : Ext4Inode)
    (extents : List Ext4Extent) (old : List Nat) (changed : Ext4Inode) (after : View)
    (new : List Nat) : Prop where
  fields : ∀ name, name ≠ .iFlags → changed.field name = inode.field name
  flags : changed.iFlags = inode.iFlags ||| ext4ExtentsFl
  parse : parseExtentTree after.data changed.blockData = extents
  tree : treeBlocks after.data changed.blockData = new
  fresh : ∀ block ∈ new, before.IsItem .block block ∧ block ∉ before.held .block
  length : new.length = treeSize extents.length
  frame : ∀ block, block ∉ new → after.data block = before.data block
  state : after = { (before.holdBlocks new).releaseBlocks old with
    data := after.data
    extentsCache := before.extentsCache.erase inodeNum }

/-- A rewrite that found too few free blocks. -/
structure RewriteFails (before after : View) (extents : List Ext4Extent) (new : List Nat) :
    Prop where
  length : new.length < treeSize extents.length
  fresh : ∀ block ∈ new, block ∉ before.held .block
  full : ∀ block, before.IsItem .block block → block ∈ before.held .block ∨ block ∈ new
  frame : ∀ block, block ∉ new → after.data block = before.data block
  state : after = { before with data := after.data }

/-- A new tree stands in blocks that were free, next to the old one. -/
structure NewTree (before : View) (inode : Ext4Inode) (extents : List Ext4Extent)
    (changed : Ext4Inode) (after : View) (new : List Nat) : Prop where
  fields : ∀ name, name ≠ .iFlags → changed.field name = inode.field name
  flags : changed.iFlags = inode.iFlags ||| ext4ExtentsFl
  parse : parseExtentTree after.data changed.blockData = extents
  tree : treeBlocks after.data changed.blockData = new
  fresh : ∀ block ∈ new, before.IsItem .block block ∧ block ∉ before.held .block
  length : new.length = treeSize extents.length
  frame : ∀ block, block ∉ new → after.data block = before.data block
  state : after = { before.holdBlocks new with data := after.data }

/-- The last steps of a rewrite. -/
def freeOldTree (inodeNum : Nat) (old : List Nat × List Nat) (changed : Ext4Inode) :
    Call Ext4Inode := do
  deallocExtentMetadataBlocks old.1
  deallocExtentMetadataBlocks old.2
  extentsCacheInvalidate inodeNum
  return changed

theorem view_freeOldTree {volume : Volume} (geometry : Geometry volume.view.fs)
    {leaves indexes : List Nat}
    (items : ∀ block ∈ leaves ++ indexes, volume.view.IsItem .block block) (inodeNum : Nat)
    (changed : Ext4Inode) :
    ∃ after, (freeOldTree inodeNum (leaves, indexes) changed).run volume = .ok changed after ∧
      after.view = { volume.view.releaseBlocks (leaves ++ indexes) with
        extentsCache := volume.view.extentsCache.erase inodeNum } := by
  obtain ⟨first, firstRan, firstView⟩ := view_deallocBlocks geometry
    (fun block blockMem => items block (List.mem_append_left _ blockMem))
  have sameShape : first.view.fs = volume.view.fs := by rw [firstView]; rfl
  obtain ⟨second, secondRan, secondView⟩ := @view_deallocBlocks first
    (by rw [sameShape]; exact geometry) indexes (fun block blockMem => by
      rw [View.IsItem, sameShape]
      exact items block (List.mem_append_right _ blockMem))
  rw [firstView, View.releaseBlocks_append] at secondView
  refine ⟨{ second with extentsCache := second.extentsCache.erase inodeNum }, ?_, ?_⟩
  · rw [freeOldTree, run_bind_ok firstRan, run_bind_ok secondRan]
    rfl
  · have sameCache : second.extentsCache = volume.view.extentsCache := by
      show second.view.extentsCache = _
      rw [secondView]
      rfl
    rw [Volume.view_setExtentsCache, secondView, sameCache]

/-- With the old tree freed, the rewrite is complete. -/
theorem NewTree.rewrite {volume filled : Volume} {inode changed : Ext4Inode}
    {extents : List Ext4Extent} {new : List Nat}
    (newTree : NewTree volume.view inode extents changed filled.view new)
    (geometry : Geometry volume.view.fs)
    (oldItems : ∀ block ∈ treeBlocks volume.disk inode.blockData,
      volume.view.IsItem .block block) (inodeNum : Nat) :
    ∃ after, (freeOldTree inodeNum (extentTreeBlocks volume.disk inode.blockData)
        changed).run filled = .ok changed after ∧
      Rewrite volume.view inodeNum inode extents (treeBlocks volume.disk inode.blockData)
        changed after.view new := by
  have sameShape : filled.view.fs = volume.view.fs := by rw [newTree.state]; rfl
  obtain ⟨after, ran, afterView⟩ := @view_freeOldTree filled
    (by rw [sameShape]; exact geometry) _ _ (fun block blockMem => by
      rw [View.IsItem, sameShape]
      exact oldItems block blockMem) inodeNum changed
  have sameData : after.view.data = filled.view.data := by rw [afterView]; rfl
  refine ⟨after, ran, newTree.fields, newTree.flags, by rw [sameData]; exact newTree.parse,
    by rw [sameData]; exact newTree.tree, newTree.fresh, newTree.length,
    by rw [sameData]; exact newTree.frame, ?_⟩
  rw [afterView, newTree.state]
  rfl

theorem blockData_setIFlags_or (inode : Ext4Inode) :
    (inode.setIFlags (inode.iFlags ||| ext4ExtentsFl)).blockData = inode.blockData := by
  simp

theorem needNodes_mul (entries : Nat) : entries ≤ needNodes entries * extentsPerNode := by
  simp only [needNodes, extentsPerNode, blockSz]
  omega

theorem unsupported_iff {entries : Nat} (large : ¬ entries ≤ extentsInInode) :
    needNodes entries > extentsInInode ∧ needNodes (needNodes entries) > extentsInInode ↔
      extentTreeMaxEntries < entries := by
  simp only [needNodes, extentsPerNode, extentsInInode, extentTreeMaxEntries, blockSz] at large ⊢
  omega

/-- The outcomes of a rewrite. -/
def RewriteOutcome (volume : Volume) (inodeNum : Nat) (inode : Ext4Inode)
    (extents : List Ext4Extent) (outcome : Outcome Ext4Error Volume Ext4Inode) : Prop :=
  (∃ changed after new, outcome = .ok changed after ∧
      extents.length ≤ extentTreeMaxEntries ∧
      Rewrite volume.view inodeNum inode extents (treeBlocks volume.disk inode.blockData)
        changed after.view new) ∨
    (outcome = .err .unsupported volume ∧ extentTreeMaxEntries < extents.length) ∨
    ∃ after new, outcome = .err .noSpace after ∧ extents.length ≤ extentTreeMaxEntries ∧
      RewriteFails volume.view after.view extents new

/-- The outcomes of a rewrite up to the point where it frees the old tree; a
rewrite that fails does not come to that point. -/
def StagedOutcome (volume : Volume) (inodeNum : Nat) (inode : Ext4Inode)
    (extents : List Ext4Extent) (outcome : Outcome Ext4Error Volume Ext4Inode) : Prop :=
  (∃ changed filled new,
      outcome = (freeOldTree inodeNum (extentTreeBlocks volume.disk inode.blockData)
        changed).run filled ∧
      extents.length ≤ extentTreeMaxEntries ∧
      NewTree volume.view inode extents changed filled.view new) ∨
    (outcome = .err .unsupported volume ∧ extentTreeMaxEntries < extents.length) ∨
    ∃ after new, outcome = .err .noSpace after ∧ extents.length ≤ extentTreeMaxEntries ∧
      RewriteFails volume.view after.view extents new

/-- The leaf blocks of a new tree are allocated and filled. -/
structure LeavesWritten (before : View) (extents : List Ext4Extent) (leaves : List Nat)
    (after : View) : Prop where
  length : leaves.length = needNodes extents.length
  nodup : leaves.Nodup
  fresh : ∀ block ∈ leaves, before.IsItem .block block ∧ block ∉ before.held .block
  state : after = { before.holdBlocks leaves with data := after.data }
  frame : ∀ block, block ∉ leaves → after.data block = before.data block
  stored : AreLeaves after.data leaves (windows extents extentsPerNode 0 leaves.length)

/-- The index blocks over the leaves are allocated and filled. -/
structure IndexesWritten (before : View) (leaves indexes : List Nat) (after : View) : Prop where
  length : indexes.length = needNodes leaves.length
  nodup : indexes.Nodup
  fresh : ∀ block ∈ indexes, before.IsItem .block block ∧ block ∉ before.held .block
  state : after = { before.holdBlocks indexes with data := after.data }
  frame : ∀ block, block ∉ indexes → after.data block = before.data block
  stored : List.Forall₂ (fun block children => IsIndex (after.data block) children) indexes
    (windows leaves extentsPerNode 0 indexes.length)

theorem flags_setIFlags_or (inode : Ext4Inode) :
    (inode.setIFlags (inode.iFlags ||| ext4ExtentsFl)).iFlags =
      inode.iFlags ||| ext4ExtentsFl := by
  have flagsLt : inode.iFlags ||| ext4ExtentsFl < 2 ^ 32 :=
    Nat.or_lt_two_pow (inode.field_lt .iFlags) (by decide)
  rw [Ext4Inode.iFlags, Ext4Inode.field_setField_same]
  exact Nat.mod_eq_of_lt flagsLt

section Rewriting

variable {volume : Volume} (guarded : volume.view.Guarded) (inodeNum : Nat) (inode : Ext4Inode)
  {extents : List Ext4Extent}

theorem view_stageFlat (few : extents.length ≤ extentsInInode) :
    StagedOutcome volume inodeNum inode extents
      ((writeExtentsToInode inodeNum inode extents).run volume) := by
  left
  obtain ⟨changed, written, fields, flags, tree⟩ := writeExtentsLeafInInode_ok
    (inode.setIFlags (inode.iFlags ||| ext4ExtentsFl)) few
  refine ⟨changed, volume, [], ?_, Nat.le_trans few (by decide), ?_⟩
  · rw [writeExtentsToInode, run_bind_ok (run_get _)]
    simp only [blockData_setIFlags_or, few, if_true, written]
    rfl
  · constructor
    · intro name different
      rw [fields name different, Ext4Inode.field_setField_of_ne _ _ different]
    · rw [flags, flags_setIFlags_or, Nat.lor_assoc, Nat.or_self]
    · exact (tree _).1
    · rw [treeBlocks, (tree _).2]
      rfl
    · simp
    · rw [treeSize, if_pos few]
      rfl
    · exact fun _ _ => rfl
    · rw [View.holdBlocks_nil]

section Nodes

variable {leaves : List Nat} {filled : View}
  (written : LeavesWritten volume.view extents leaves filled)

include written

theorem LeavesWritten.mem_held {block : Nat} : block ∈ filled.held .block ↔
    block ∈ volume.view.held .block ∨ block ∈ leaves := by
  rw [written.state]
  simp [View.holdBlocks]

theorem LeavesWritten.isItem {block : Nat} :
    filled.IsItem .block block ↔ volume.view.IsItem .block block := by
  rw [View.IsItem, show filled.fs = volume.view.fs by rw [written.state]; rfl]
  rfl

theorem LeavesWritten.fresh_indexes {block : Nat}
    (fresh : filled.IsItem .block block ∧ block ∉ filled.held .block) :
    volume.view.IsItem .block block ∧ block ∉ volume.view.held .block ∧ block ∉ leaves := by
  rw [written.isItem, written.mem_held, not_or] at fresh
  exact fresh

/-- Leaves that could not be indexed are given back. -/
theorem LeavesWritten.fails (many : ¬ extents.length ≤ extentsInInode)
    (deep : ¬ needNodes extents.length ≤ extentsInInode) {new : List Nat} {after : View}
    (newLength : new.length < needNodes (needNodes extents.length))
    (newFresh : ∀ block ∈ new, block ∉ filled.held .block)
    (full : ∀ block, filled.IsItem .block block → block ∈ filled.held .block ∨ block ∈ new)
    (afterView : after = filled.releaseBlocks leaves) :
    RewriteFails volume.view after extents (leaves ++ new) := by
  have sameData : after.data = filled.data := by rw [afterView]; rfl
  constructor
  · rw [List.length_append, written.length, treeSize, if_neg many, if_neg deep]
    omega
  · intro block blockMem
    rcases List.mem_append.mp blockMem with blockMem | blockMem
    · exact (written.fresh block blockMem).2
    · intro isHeld
      exact newFresh block blockMem (written.mem_held.mpr (Or.inl isHeld))
  · intro block isItem
    rw [List.mem_append]
    rcases full block (written.isItem.mpr isItem) with isHeld | isNew
    · rcases written.mem_held.mp isHeld with isHeld | leafMem
      · exact Or.inl isHeld
      · exact Or.inr (Or.inl leafMem)
    · exact Or.inr (Or.inr isNew)
  · intro block blockNotMem
    rw [List.mem_append, not_or] at blockNotMem
    rw [sameData, written.frame block blockNotMem.1]
  · have released := @View.releaseBlocks_holdBlocks volume.view leaves
      (fun leaf leafMem => (written.fresh leaf leafMem).2)
    calc after = { (volume.view.holdBlocks leaves).releaseBlocks leaves with
            data := filled.data } := by
          rw [afterView, written.state]
          rfl
      _ = { volume.view with data := after.data } := by rw [released, sameData]

include guarded

theorem newTree_leaves (many : ¬ extents.length ≤ extentsInInode)
    (few : leaves.length ≤ extentsInInode) :
    NewTree volume.view inode extents
      (writeExtentRootIndexInInode (inode.setIFlags (inode.iFlags ||| ext4ExtentsFl)) leaves
        extents 1 extentsPerNode) filled leaves := by
  have isRoot := isRoot_writeExtentRootIndexInInode
    (inode.setIFlags (inode.iFlags ||| ext4ExtentsFl)) extents extentsPerNode
    (show 1 ≤ 5 by decide) few
    (fun leaf leafMem => (guarded.fresh (written.fresh leaf leafMem).1
      (written.fresh leaf leafMem).2).2.2)
  have nonzero : 0 ∉ leaves := fun zeroMem =>
    (guarded.fresh (written.fresh 0 zeroMem).1 (written.fresh 0 zeroMem).2).1 rfl
  obtain ⟨parseEq, blocksEq⟩ := tree_of_leaves isRoot written.stored nonzero written.nodup
  constructor
  · intro name different
    rw [field_writeExtentRootIndexInInode, Ext4Inode.field_setField_of_ne _ _ different]
  · rw [Ext4Inode.iFlags, field_writeExtentRootIndexInInode]
    exact flags_setIFlags_or inode
  · rw [parseEq]
    apply flatten_windows_all
    rw [written.length]
    exact needNodes_mul _
  · rw [treeBlocks, blocksEq, List.append_nil]
  · exact written.fresh
  · rw [treeSize, if_neg many, if_pos (written.length ▸ few), written.length]
  · exact written.frame
  · exact written.state

theorem newTree_indexes (many : ¬ extents.length ≤ extentsInInode)
    (deep : ¬ needNodes extents.length ≤ extentsInInode)
    (supported : extents.length ≤ extentTreeMaxEntries) {indexes : List Nat} {after : View}
    (indexed : IndexesWritten filled leaves indexes after) :
    NewTree volume.view inode extents
      (writeExtentRootIndexInInode (inode.setIFlags (inode.iFlags ||| ext4ExtentsFl)) indexes
        extents 2 (extentsPerNode * extentsPerNode)) after (leaves ++ indexes) := by
  have indexCount : needNodes (needNodes extents.length) ≤ extentsInInode := by
    by_contra large
    have unsupported := (unsupported_iff many).mp ⟨Nat.not_le.mp deep, Nat.not_le.mp large⟩
    omega
  have indexesLength : indexes.length = needNodes (needNodes extents.length) := by
    rw [indexed.length, written.length]
  have leafFresh (leaf : Nat) (leafMem : leaf ∈ leaves) :=
    guarded.fresh (written.fresh leaf leafMem).1 (written.fresh leaf leafMem).2
  have fresh (block : Nat) (blockMem : block ∈ indexes) :=
    written.fresh_indexes (indexed.fresh block blockMem)
  have indexFresh (block : Nat) (blockMem : block ∈ indexes) :=
    guarded.fresh (fresh block blockMem).1 (fresh block blockMem).2.1
  have leavesKept : AreLeaves after.data leaves
      (windows extents extentsPerNode 0 leaves.length) := by
    refine List.forall₂_iff_get.mpr ⟨(List.forall₂_iff_get.mp written.stored).1, ?_⟩
    intro index indexLt chunkLt
    have leafMem := List.get_mem leaves ⟨index, indexLt⟩
    rw [indexed.frame _ fun blockMem => (fresh _ blockMem).2.2 leafMem]
    exact (List.forall₂_iff_get.mp written.stored).2 index indexLt chunkLt
  have isRoot := isRoot_writeExtentRootIndexInInode
    (inode.setIFlags (inode.iFlags ||| ext4ExtentsFl)) extents (extentsPerNode * extentsPerNode)
    (show 2 ≤ 5 by decide) (show indexes.length ≤ extentsInInode by
      rw [indexesLength]; exact indexCount) fun block blockMem => (indexFresh block blockMem).2.2
  have leavesEnough : leaves.length ≤ indexes.length * extentsPerNode := by
    rw [indexed.length]
    exact needNodes_mul _
  have nodeLeaves := leaves_indexNodes (windows extents extentsPerNode 0 leaves.length)
    leavesEnough
  have nodeExtents := @extents_indexNodes leaves
    (windows extents extentsPerNode 0 leaves.length) indexes.length
    (by simpa [windows] using leavesEnough)
  have nonzero : 0 ∉ indexes ++ leaves := by
    rw [List.mem_append, not_or]
    exact ⟨fun zeroMem => (indexFresh 0 zeroMem).1 rfl, fun zeroMem => (leafFresh 0 zeroMem).1 rfl⟩
  have nodup : (indexes ++ leaves).Nodup := by
    rw [List.nodup_append]
    refine ⟨indexed.nodup, written.nodup, ?_⟩
    rintro block blockMem leaf leafMem rfl
    exact (fresh block blockMem).2.2 leafMem
  obtain ⟨parseEq, blocksEq⟩ := tree_of_indexes isRoot
    (areIndexes_of_windows leavesKept indexed.stored) (by rw [nodeLeaves]; exact nonzero)
    (by rw [nodeLeaves]; exact nodup)
  rw [nodeLeaves] at blocksEq
  rw [nodeExtents, flatten_windows_all extents
    (by rw [written.length]; exact needNodes_mul _)] at parseEq
  constructor
  · intro name different
    rw [field_writeExtentRootIndexInInode, Ext4Inode.field_setField_of_ne _ _ different]
  · rw [Ext4Inode.iFlags, field_writeExtentRootIndexInInode]
    exact flags_setIFlags_or inode
  · exact parseEq
  · rw [treeBlocks, blocksEq]
  · intro block blockMem
    rcases List.mem_append.mp blockMem with blockMem | blockMem
    · exact written.fresh block blockMem
    · exact ⟨(fresh block blockMem).1, (fresh block blockMem).2.1⟩
  · rw [List.length_append, written.length, indexesLength, treeSize, if_neg many, if_neg deep]
  · intro block blockNotMem
    rw [List.mem_append, not_or] at blockNotMem
    rw [indexed.frame block blockNotMem.2, written.frame block blockNotMem.1]
  · rw [indexed.state, written.state, ← View.holdBlocks_append]
    rfl

end Nodes

include guarded

theorem view_stageIndexes (many : ¬ extents.length ≤ extentsInInode) {leaves : List Nat}
    {filled : Volume} (written : LeavesWritten volume.view extents leaves filled.view)
    (deep : ¬ needNodes extents.length ≤ extentsInInode)
    (supported : extents.length ≤ extentTreeMaxEntries) :
    StagedOutcome volume inodeNum inode extents ((do
        match ← (allocExtentMetadataBlocks (needNodes (needNodes extents.length)) []).attempt with
        | .error error =>
            deallocExtentMetadataBlocks leaves
            throw error
        | .ok indexBlocks =>
            writeIndexBlocks extents leaves 0 indexBlocks
            deallocExtentMetadataBlocks (extentTreeBlocks volume.disk inode.blockData).1
            deallocExtentMetadataBlocks (extentTreeBlocks volume.disk inode.blockData).2
            extentsCacheInvalidate inodeNum
            return writeExtentRootIndexInInode
              (inode.setIFlags (inode.iFlags ||| ext4ExtentsFl)) indexBlocks extents 2
              (extentsPerNode * extentsPerNode) : Call Ext4Inode).run filled) := by
  have filledShape : filled.view.fs = volume.view.fs := by rw [written.state]; rfl
  rcases @view_allocBlocks filled (by rw [filledShape]; exact guarded.geometry)
      (needNodes (needNodes extents.length)) [] (by simp) with
    ⟨indexes, first, allocated, indexesLength, nodup, fresh, firstView⟩ |
    ⟨new, first, failed, newLength, newFresh, full, firstView⟩
  · left
    have firstShape : first.view.fs = volume.view.fs := by
      rw [firstView]
      exact filledShape
    obtain ⟨second, secondRan, secondState, secondFrame, stored⟩ := view_writeIndexBlocks
      (by rw [firstShape]; exact guarded.geometry) extents
      (fun leaf leafMem => (guarded.fresh (written.fresh leaf leafMem).1
        (written.fresh leaf leafMem).2).2.2)
      (fun block blockMem isBitmap => by
        obtain ⟨isItem, free, _⟩ := written.fresh_indexes (fresh block blockMem)
        exact (guarded.fresh isItem free).2.1 (by rw [← firstShape]; exact isBitmap)) nodup
    have indexed : IndexesWritten filled.view leaves indexes second.view :=
      ⟨by rw [indexesLength, written.length], nodup, fresh, by rw [secondState, firstView],
        fun block blockNotMem => by
          rw [secondFrame block blockNotMem, firstView]
          rfl, stored⟩
    refine ⟨_, second, leaves ++ indexes, ?_, supported,
      newTree_indexes guarded inode written many deep supported indexed⟩
    rw [run_bind_ok (run_attempt_ok allocated)]
    simp only [List.nil_append]
    rw [run_bind_ok secondRan]
    rfl
  · right
    right
    rw [List.nil_append, View.releaseBlocks_holdBlocks newFresh] at firstView
    obtain ⟨after, freed, afterView⟩ := @view_deallocBlocks first
      (by rw [firstView, filledShape]; exact guarded.geometry) leaves (fun leaf leafMem => by
        rw [firstView]
        exact written.isItem.mpr (written.fresh leaf leafMem).1)
    rw [firstView] at afterView
    refine ⟨after, leaves ++ new, ?_, supported,
      written.fails many deep newLength newFresh full afterView⟩
    rw [run_bind_ok (run_attempt_err failed)]
    show (deallocExtentMetadataBlocks leaves >>= fun _ => throw .noSpace).run first = _
    rw [run_bind_ok freed]
    rfl

theorem view_stageDeep (many : ¬ extents.length ≤ extentsInInode) :
    StagedOutcome volume inodeNum inode extents
      ((writeExtentsToInode inodeNum inode extents).run volume) := by
  have geometry := guarded.geometry
  rw [writeExtentsToInode, run_bind_ok (run_get _)]
  simp only [blockData_setIFlags_or, many, if_false, unsupported_iff many]
  by_cases large : extentTreeMaxEntries < extents.length
  · right
    left
    simp only [large, if_true]
    exact ⟨rfl, trivial⟩
  · simp only [large, if_false]
    rcases @view_allocBlocks volume geometry (needNodes extents.length) [] (by simp) with
      ⟨leaves, first, allocated, leavesLength, leavesNodup, leavesFresh, firstView⟩ |
      ⟨new, after, failed, newLength, newFresh, full, afterView⟩
    · have firstShape : first.view.fs = volume.view.fs := by rw [firstView]; rfl
      obtain ⟨filled, filledRan, filledState, filledFrame, stored⟩ := view_writeLeafBlocks
        (by rw [firstShape]; exact geometry) extents (fun block blockMem isBitmap =>
          (guarded.fresh (leavesFresh block blockMem).1 (leavesFresh block blockMem).2).2.1 (by
            rw [← firstShape]
            exact isBitmap)) leavesNodup
      have written : LeavesWritten volume.view extents leaves filled.view :=
        ⟨leavesLength, leavesNodup, leavesFresh, by rw [filledState, firstView],
          fun block blockNotMem => by
            rw [filledFrame block blockNotMem, firstView]
            rfl, stored⟩
      rw [run_bind_ok allocated, List.nil_append, run_bind_ok filledRan]
      by_cases few : needNodes extents.length ≤ extentsInInode
      · simp only [few, if_true]
        exact Or.inl ⟨_, filled, leaves, rfl, Nat.not_lt.mp large,
          newTree_leaves guarded inode written many (by rw [leavesLength]; exact few)⟩
      · simp only [few, if_false]
        exact view_stageIndexes guarded inodeNum inode many written few (Nat.not_lt.mp large)
    · right
      right
      refine ⟨after, new, by rw [run_bind_err failed], Nat.not_lt.mp large, ?_⟩
      rw [List.nil_append, View.releaseBlocks_holdBlocks newFresh] at afterView
      refine ⟨?_, newFresh, full, fun _ _ => by rw [afterView], by rw [afterView]⟩
      simp only [treeSize, if_neg many]
      split <;> omega

/-- Whatever the blocks of the old tree are, a rewrite builds the new one first. -/
theorem view_stageTree :
    StagedOutcome volume inodeNum inode extents
      ((writeExtentsToInode inodeNum inode extents).run volume) := by
  by_cases few : extents.length ≤ extentsInInode
  · exact view_stageFlat inodeNum inode few
  · exact view_stageDeep guarded inodeNum inode few

/-- Every rewrite ends in one of its outcomes. -/
theorem view_writeExtentsToInode
    (oldItems : ∀ block ∈ treeBlocks volume.disk inode.blockData,
      volume.view.IsItem .block block) :
    RewriteOutcome volume inodeNum inode extents
      ((writeExtentsToInode inodeNum inode extents).run volume) := by
  rcases @view_stageTree volume guarded inodeNum inode extents with
    ⟨changed, filled, new, ran, supported, newTree⟩ | failed
  · obtain ⟨after, freed, rewrite⟩ := newTree.rewrite guarded.geometry oldItems inodeNum
    exact Or.inl ⟨changed, after, new, ran.trans freed, supported, rewrite⟩
  · exact Or.inr failed

end Rewriting

theorem isBitmap_view (volume : Volume) (block : Nat) :
    volume.view.fs.IsBitmap block ↔ volume.fs.IsBitmap block :=
  Iff.rfl

/-- A tree outside the bitmaps is read from the volume as from its view. -/
theorem tree_view {volume : Volume} {inodeBlock : Bytes iBlockSize}
    (outside : ∀ block ∈ treeBlocks volume.view.data inodeBlock, ¬ volume.fs.IsBitmap block) :
    parseExtentTree volume.disk inodeBlock = parseExtentTree volume.view.data inodeBlock ∧
      treeBlocks volume.disk inodeBlock = treeBlocks volume.view.data inodeBlock := by
  obtain ⟨parseEq, blocksEq⟩ := tree_congr fun block blockMem =>
    (Volume.data_of_not_bitmap (outside block blockMem)).symm
  exact ⟨parseEq, by rw [treeBlocks, blocksEq, treeBlocks]⟩

/-- A successful rewrite decodes to the given extents and exchanges the blocks
of the old tree for those of the new one; a failed one changes neither the
allocated blocks nor the old tree.  The only limit is that of three levels. -/
theorem writeExtentsToInode_roundTrip {volume : Volume} (geometry : Geometry volume.fs)
    (small : volume.fs.superblock.blocksCount ≤ 2 ^ 48) (blockZero : 0 ∈ volume.view.held .block)
    (bitmaps : ∀ block, volume.fs.IsBitmap block → volume.IsItem .block block →
      block ∈ volume.view.held .block)
    (inodeNum : Nat) (inode : Ext4Inode)
    (oldTree : ∀ block ∈ treeBlocks volume.disk inode.blockData,
      block ∈ volume.view.held .block ∧ ¬ volume.fs.IsBitmap block)
    (extents : List Ext4Extent) :
    match (writeExtentsToInode inodeNum inode extents).run volume with
    | .ok changed after =>
        parseExtentTree after.disk changed.blockData = extents ∧
          after.view.held .block =
            (volume.view.held .block \ {b | b ∈ treeBlocks volume.disk inode.blockData}) ∪
              {b | b ∈ treeBlocks after.disk changed.blockData} ∧
          extents.length ≤ 4 * 340 * 340
    | .err error after =>
        (error = .noSpace ∨ error = .unsupported) ∧
          (error = .unsupported ↔ 4 * 340 * 340 < extents.length) ∧
          after.view.held .block = volume.view.held .block ∧
          (∀ block ∈ treeBlocks volume.disk inode.blockData,
            after.disk block = volume.disk block) ∧
          parseExtentTree after.disk inode.blockData =
            parseExtentTree volume.disk inode.blockData
    | .panic => False := by
  have guarded : volume.view.Guarded :=
    ⟨Volume.geometry_view.mpr geometry, small, blockZero, fun block isBitmap isItem =>
      bitmaps block isBitmap (Volume.isItem_view.mp isItem)⟩
  have oldItems (block : Nat) (blockMem : block ∈ treeBlocks volume.disk inode.blockData) :
      volume.view.IsItem .block block := View.isItem_of_held (oldTree block blockMem).1
  have bound : extentTreeMaxEntries = 4 * 340 * 340 := rfl
  rcases view_writeExtentsToInode guarded inodeNum inode oldItems with
    ⟨changed, after, new, ran, supported, rewrite⟩ | ⟨ran, unsupported⟩ |
    ⟨after, new, ran, supported, fails⟩
  · rw [ran]
    have sameShape : after.view.fs = volume.view.fs := by rw [rewrite.state]; rfl
    have outside (block : Nat) (blockMem : block ∈ new) : ¬ after.fs.IsBitmap block := by
      rw [← isBitmap_view, sameShape]
      exact (guarded.fresh (rewrite.fresh block blockMem).1 (rewrite.fresh block blockMem).2).2.1
    obtain ⟨parseEq, blocksEq⟩ := @tree_view after changed.blockData
      (by rw [rewrite.tree]; exact outside)
    refine ⟨by rw [parseEq, rewrite.parse], ?_, supported⟩
    rw [blocksEq, rewrite.tree, rewrite.state]
    ext block
    simp only [View.releaseBlocks, View.holdBlocks, Function.update_self, Set.mem_union,
      Set.mem_sdiff, Set.mem_ofPred_eq]
    constructor
    · rintro ⟨isHeld | isNew, notOld⟩
      · exact Or.inl ⟨isHeld, notOld⟩
      · exact Or.inr isNew
    · rintro (⟨isHeld, notOld⟩ | isNew)
      · exact ⟨Or.inl isHeld, notOld⟩
      · exact ⟨Or.inr isNew, fun isOld => (rewrite.fresh block isNew).2 (oldTree block isOld).1⟩
  · rw [ran]
    exact ⟨Or.inr rfl, ⟨fun _ => unsupported, fun _ => rfl⟩, rfl, fun _ _ => rfl, rfl⟩
  · rw [ran]
    have kept (block : Nat) (blockMem : block ∈ treeBlocks volume.disk inode.blockData) :
        after.disk block = volume.disk block := by
      have sameShape : after.view.fs = volume.view.fs := by rw [fails.state]
      have outside : ¬ after.fs.IsBitmap block := by
        rw [← isBitmap_view, sameShape]
        exact (oldTree block blockMem).2
      rw [← Volume.data_of_not_bitmap outside, ← Volume.data_of_not_bitmap (oldTree block blockMem).2]
      exact fails.frame block fun isNew => fails.fresh block isNew (oldTree block blockMem).1
    refine ⟨Or.inl rfl, ⟨nofun, fun large => ?_⟩, ?_, kept, (tree_congr kept).1⟩
    · omega
    · rw [fails.state]

/-- The small file system with blocks 0 to 6 in use. -/
def smallVolume : Volume where
  fs := smallFileSystem
  disk := Function.update (fun _ => .zeroed) 2 (Bytes.zeroed.overlay 0 1 fun _ => 0x7F)
  extentsCache := .empty
  dirIndexCache := .empty

theorem held_smallVolume {block : Nat} (small : block ≤ 6) :
    block ∈ smallVolume.view.held .block := by
  have isUsed : smallVolume.used .block block = true := by
    interval_cases block <;> decide
  exact ⟨⟨Nat.zero_le _, Nat.lt_of_le_of_lt small (by decide)⟩, isUsed⟩

theorem isBitmap_smallFileSystem {block : Nat} (isBitmap : smallFileSystem.IsBitmap block) :
    block = 2 ∨ block = 3 := by
  obtain ⟨desc, descMem, which⟩ := isBitmap
  rw [List.mem_singleton.mp descMem] at which
  exact which

theorem writeExtentsToInode_roundTrip_small :
    match (writeExtentsToInode 12 .zeroed (List.replicate 5 ⟨7, 1, 0, 7⟩)).run smallVolume with
    | .ok changed after =>
        parseExtentTree after.disk changed.blockData = List.replicate 5 ⟨7, 1, 0, 7⟩ ∧
          after.view.held .block = (smallVolume.view.held .block \
              {b | b ∈ treeBlocks smallVolume.disk (Ext4Inode.blockData .zeroed)}) ∪
            {b | b ∈ treeBlocks after.disk changed.blockData} ∧ 5 ≤ 4 * 340 * 340
    | .err error after =>
        (error = .noSpace ∨ error = .unsupported) ∧
          (error = .unsupported ↔ 4 * 340 * 340 < 5) ∧
          after.view.held .block = smallVolume.view.held .block ∧
          (∀ block ∈ treeBlocks smallVolume.disk (Ext4Inode.blockData .zeroed),
            after.disk block = smallVolume.disk block) ∧
          parseExtentTree after.disk (Ext4Inode.blockData .zeroed) =
            parseExtentTree smallVolume.disk (Ext4Inode.blockData .zeroed)
    | .panic => False := by
  have noTree : treeBlocks smallVolume.disk (Ext4Inode.blockData .zeroed) = [] := by
    decide
  exact writeExtentsToInode_roundTrip geometry_smallFileSystem (by decide)
    (held_smallVolume (by decide)) (fun block isBitmap _ => held_smallVolume (by
      rcases isBitmap_smallFileSystem isBitmap with rfl | rfl <;> decide))
    12 .zeroed (by rw [noTree]; simp) (List.replicate 5 ⟨7, 1, 0, 7⟩)

end Ext4

end OSWorkspace
