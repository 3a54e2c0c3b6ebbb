import OSWorkspace.Ext4Allocators
import OSWorkspace.Ext4ExtentTreeCodec
import OSWorkspace.Ext4Files

/-!
# Reading and the extent format

By the format a length up to 0x8000 counts initialized blocks and a length
above it counts unwritten blocks, which read as zeros.  The driver masks out
the high bit instead.  The two readings agree exactly where the bytes behind
the extents with that bit are zero.
-/

namespace OSWorkspace

namespace Ext4

open Exec

/-- The position lies in the extent by the format. -/
def Ext4Extent.Contains (extent : Ext4Extent) (position : Nat) : Prop :=
  extent.start ≤ position / blockSz ∧ position / blockSz < extent.start + extent.blockCount

instance (extent : Ext4Extent) (position : Nat) : Decidable (extent.Contains position) :=
  inferInstanceAs (Decidable (_ ∧ _))

/-- The byte of the physical block behind a position of an extent. -/
def Ext4Extent.physicalByte (disk : Nat → Block) (extent : Ext4Extent) (position : Nat) : UInt8 :=
  (disk (extent.startBlock + (position / blockSz - extent.start))).get (position % blockSz)

/-- The byte at a position by the format. -/
def formatByte (disk : Nat → Block) : List Ext4Extent → Nat → UInt8
  | [], _ => 0
  | extent :: extents, position =>
      if extent.Contains position then
        if extent.eeLen.toNat ≤ 0x8000 then extent.physicalByte disk position else 0
      else formatByte disk extents position

/-- Leaf entries as the format asks: sorted by logical block and disjoint. -/
def FormatOrdered (extents : List Ext4Extent) : Prop :=
  extents.Pairwise fun first second => first.start + first.blockCount ≤ second.start

instance (extents : List Ext4Extent) : Decidable (FormatOrdered extents) :=
  inferInstanceAs (Decidable (extents.Pairwise _))

theorem FormatOrdered.ordered {extents : List Ext4Extent} (ordered : FormatOrdered extents) :
    Ordered extents := by
  apply ordered.imp
  intro first second behind
  have lenLe := first.len_le_blockCount
  omega

/-- Every byte at this position behind an extent with the high bit of its
length set is zero. -/
def MarkedZero (disk : Nat → Block) (extents : List Ext4Extent) (position : Nat) : Prop :=
  ∀ extent ∈ extents, extent.Contains position → 0x8000 ≤ extent.eeLen.toNat →
    extent.physicalByte disk position = 0

theorem byteAt_eq_formatByte_iff (disk : Nat → Block) {extents : List Ext4Extent}
    (ordered : FormatOrdered extents) (position : Nat) :
    byteAt disk extents position = formatByte disk extents position ↔
      MarkedZero disk extents position := by
  induction extents with
  | nil => simp [byteAt, formatByte, MarkedZero]
  | cons extent extents ih =>
      obtain ⟨headBefore, restOrdered⟩ := List.pairwise_cons.mp ordered
      by_cases contains : extent.Contains position
      · have restUnmapped : byteAt disk extents position = 0 := by
          apply byteAt_of_unmapped
          rintro pblock ⟨other, otherMem, lower, _, _⟩
          have behind := headBefore other otherMem
          have upper := contains.2
          omega
        have restFree (other : Ext4Extent) (otherMem : other ∈ extents) :
            ¬ other.Contains position := by
          intro otherContains
          have behind := headBefore other otherMem
          have upper := contains.2
          have lower := otherContains.1
          omega
        have marked : MarkedZero disk (extent :: extents) position ↔
            (0x8000 ≤ extent.eeLen.toNat → extent.physicalByte disk position = 0) := by
          simp only [MarkedZero, List.mem_cons, forall_eq_or_imp, contains, true_implies]
          constructor
          · exact fun both => both.1
          · intro head
            exact ⟨head, fun other otherMem otherContains =>
              absurd otherContains (restFree other otherMem)⟩
        have lengthLt := extent.eeLen.toNat_lt
        have lenEq := extent.len_eq
        rw [marked, byteAt, formatByte, if_pos contains]
        simp only [Ext4Extent.Contains, Ext4Extent.blockCount] at contains
        by_cases unwritten : 0x8000 < extent.eeLen.toNat
        · rw [if_neg (by omega)] at contains
          rw [if_pos (by omega), if_neg (by omega)]
          simp only [Ext4Extent.physicalByte]
          constructor
          · exact fun zero _ => zero
          · exact fun zero => zero (by omega)
        · rw [if_pos (by omega)] at contains
          rw [if_pos (Nat.not_lt.mp unwritten)]
          by_cases longest : extent.eeLen.toNat = 0x8000
          · rw [if_neg (by omega), restUnmapped]
            constructor
            · exact fun zero _ => zero.symm
            · exact fun zero => (zero (by omega)).symm
          · rw [if_pos (by omega)]
            simp only [Ext4Extent.physicalByte, true_iff]
            omega
      · have lenLe := extent.len_le_blockCount
        have marked : MarkedZero disk (extent :: extents) position ↔
            MarkedZero disk extents position := by
          simp [MarkedZero, contains]
        rw [marked, ← ih restOrdered, byteAt, formatByte, if_neg contains]
        simp only [Ext4Extent.Contains] at contains
        rw [if_neg (by omega)]

section FormatTrees

variable (disk : Nat → Block)

/-- The node and all nodes below it are as the format asks. -/
def ValidNode : (depth : Nat) → {size : Nat} → Bytes size → (maxEntries : Nat) → Prop
  | 0, _, node, maxEntries =>
      (nodeHeader node).isValid = true ∧ (nodeHeader node).ehDepth.toNat = 0 ∧
        (nodeHeader node).ehEntries.toNat ≤ maxEntries
  | depth + 1, _, node, maxEntries =>
      (nodeHeader node).isValid = true ∧ (nodeHeader node).ehDepth.toNat = depth + 1 ∧
        (nodeHeader node).ehEntries.toNat ≤ maxEntries ∧
        ∀ child ∈ nodeChildren node (nodeHeader node).ehEntries.toNat,
          child ≠ 0 ∧ ValidNode depth (disk child) extentsPerNode

instance decidableValidNode : (depth : Nat) → {size : Nat} → (node : Bytes size) →
    (maxEntries : Nat) → Decidable (ValidNode disk depth node maxEntries)
  | 0, _, _, _ => inferInstanceAs (Decidable (_ ∧ _ ∧ _))
  | depth + 1, _, node, _ =>
      have : (child : Nat) → Decidable (ValidNode disk depth (disk child) extentsPerNode) :=
        fun child => decidableValidNode depth (disk child) extentsPerNode
      inferInstanceAs (Decidable (_ ∧ _ ∧ _ ∧
        ∀ child ∈ nodeChildren node (nodeHeader node).ehEntries.toNat, _))

/-- The leaf entries below a node, from left to right. -/
def formatExtents : (depth : Nat) → {size : Nat} → Bytes size → List Ext4Extent
  | 0, _, node => node.loadTable Ext4Extent.record 12 (nodeHeader node).ehEntries.toNat
  | depth + 1, _, node =>
      (nodeChildren node (nodeHeader node).ehEntries.toNat).flatMap fun child =>
        formatExtents depth (disk child)

/-- The blocks below a node, each before those below it. -/
def formatBlocks : (depth : Nat) → {size : Nat} → Bytes size → List Nat
  | 0, _, _ => []
  | depth + 1, _, node =>
      (nodeChildren node (nodeHeader node).ehEntries.toNat).flatMap fun child =>
        child :: formatBlocks depth (disk child)

end FormatTrees

/-- The extent tree of an inode is valid: at most five levels below the root,
every node well formed, no block used twice, leaf entries sorted and disjoint. -/
structure ValidExtentTree (disk : Nat → Block) (root : Bytes iBlockSize) : Prop where
  depthLe : (nodeHeader root).ehDepth.toNat ≤ extentTreeMaxDepth
  valid : ValidNode disk (nodeHeader root).ehDepth.toNat root extentsInInode
  nodup : (formatBlocks disk (nodeHeader root).ehDepth.toNat root).Nodup

theorem nodeChildren_of_le {size : Nat} {node : Bytes size} {maxEntries : Nat}
    (few : (nodeHeader node).ehEntries.toNat ≤ maxEntries) :
    nodeChildren node maxEntries = nodeChildren node (nodeHeader node).ehEntries.toNat := by
  rw [nodeChildren, nodeChildren, nodeIndexes, nodeIndexes, Nat.min_eq_left few, Nat.min_self]

theorem parse_validNode (disk : Nat → Block) {depth : Nat} (depthLe : depth ≤ extentTreeMaxDepth)
    {size : Nat} {node : Bytes size} {maxEntries : Nat} (valid : ValidNode disk depth node maxEntries)
    (nodup : (formatBlocks disk depth node).Nodup) (extents : List Ext4Extent) {visited : List Nat}
    (fresh : ∀ block ∈ formatBlocks disk depth node, block ∉ visited) :
    parseExtentTreeRecursive disk depth node maxEntries (extents, visited) =
      (extents ++ formatExtents disk depth node, visited ++ formatBlocks disk depth node) := by
  induction depth generalizing size node maxEntries extents visited with
  | zero =>
      obtain ⟨-, leaf, few⟩ := valid
      rw [parseExtentTreeRecursive, if_neg (not_not.mpr leaf), nodeExtents, Nat.min_eq_left few,
        formatExtents, formatBlocks, List.append_nil]
  | succ depth ih =>
      obtain ⟨-, depthEq, few, below⟩ := valid
      rw [parseExtentTreeRecursive_succ disk node maxEntries _ depthEq depthLe,
        nodeChildren_of_le few, formatExtents, formatBlocks]
      simp only [formatBlocks] at nodup fresh
      -- The children in turn; what the earlier ones visited is behind them.
      generalize nodeChildren node (nodeHeader node).ehEntries.toNat = children at *
      induction children generalizing extents visited with
      | nil => simp only [List.foldl_nil, List.flatMap_nil, List.append_nil]
      | cons child children childIh =>
          obtain ⟨nonzero, childValid⟩ := below child (by simp)
          rw [List.flatMap_cons, List.nodup_append] at nodup
          obtain ⟨childNodup, restNodup, apart⟩ := nodup
          obtain ⟨childFresh, childNodup⟩ := List.nodup_cons.mp childNodup
          have unseen : ¬ (child = 0 ∨ child ∈ visited) := by
            rintro (zero | seen)
            · exact nonzero zero
            · exact fresh child (by simp) seen
          have header : (nodeHeader (disk child)).isValid = true ∧
              (nodeHeader (disk child)).ehDepth.toNat = depth := by
            cases depth with
            | zero => exact ⟨childValid.1, childValid.2.1⟩
            | succ depth => exact ⟨childValid.1, childValid.2.1⟩
          rw [List.foldl_cons, parseChild_valid unseen header.1 header.2,
            ih (by omega) childValid childNodup]
          · rw [childIh _ restNodup ?_ fun other otherMem => below other (by simp [otherMem])]
            · simp [List.flatMap_cons, List.append_assoc]
            · intro block blockMem
              simp only [List.mem_append, List.mem_singleton, not_or]
              refine ⟨⟨fresh block (by rw [List.flatMap_cons]; simp [blockMem]), ?_⟩, ?_⟩
              · rintro rfl
                exact apart block (by simp) block blockMem rfl
              · intro inChild
                exact apart block (by simp [inChild]) block blockMem rfl
          · intro block blockMem
            simp only [List.mem_append, List.mem_singleton, not_or]
            refine ⟨fresh block (by rw [List.flatMap_cons]; simp [blockMem]), ?_⟩
            rintro rfl
            exact childFresh blockMem

/-- The driver reads a valid tree as the format does. -/
theorem parseExtentTree_of_valid {disk : Nat → Block} {root : Bytes iBlockSize}
    (tree : ValidExtentTree disk root) :
    parseExtentTree disk root = formatExtents disk (nodeHeader root).ehDepth.toNat root := by
  obtain ⟨depthLe, valid, nodup⟩ := tree
  cases depthEq : (nodeHeader root).ehDepth.toNat with
  | zero =>
      rw [depthEq] at valid
      obtain ⟨magic, leaf, few⟩ := valid
      rw [(tree_flat magic depthEq disk).1, nodeExtents, Nat.min_eq_left few, formatExtents]
  | succ depth =>
      rw [depthEq] at valid nodup depthLe
      have parsed := @parse_validNode disk _ depthLe _ _ _ valid nodup [] [] (by simp)
      rw [parseExtentTreeRecursive_succ disk root _ _ depthEq depthLe] at parsed
      rw [parseExtentTree_deep disk valid.1 depthEq depthLe, parsed, List.nil_append]

/-- The inode structure behind a handle. -/
def Volume.inodeOf (volume : Volume) (self : Inode) : Ext4Inode :=
  (volume.disk self.blockId).extract self.blockOffset inodeStructSize

/-- The extents on disk of the inode behind a handle. -/
def Volume.extentsOf (volume : Volume) (self : Inode) : List Ext4Extent :=
  parseExtentTree volume.disk (volume.inodeOf self).blockData

theorem Inode.run_readDiskInode {volume : Volume} {self : Inode}
    (fits : self.blockOffset + inodeStructSize ≤ blockSz) :
    self.readDiskInode.run volume = .ok (volume.inodeOf self) volume := by
  rw [readDiskInode, readInodeAt, run_bind_ok (run_readBlock _ _), run_bind_ok (run_check fits _)]
  rfl

theorem Inode.run_readDiskInode_panics {volume : Volume} {self : Inode}
    (outside : ¬ self.blockOffset + inodeStructSize ≤ blockSz) :
    self.readDiskInode.run volume = .panic := by
  rw [readDiskInode, readInodeAt, run_bind_ok (run_readBlock _ _)]
  have panics : (check (self.blockOffset + inodeStructSize ≤ blockSz) : Call Unit).run volume =
      .panic := by
    simp [check, outside]
  exact run_bind_panic panics

/-- The cached extents, if any, are those on disk. -/
def Volume.ExtentsCoherent (volume : Volume) (self : Inode) : Prop :=
  ∀ extents, volume.extentsCache[self.inodeNum]? = some extents →
    extents = volume.extentsOf self

/-- Nothing happened, or the extents behind the handle were cached. -/
def Volume.Filled (volume : Volume) (self : Inode) (after : Volume) : Prop :=
  after = volume ∨
    (extentsCachePut self.inodeNum (volume.extentsOf self)).run volume = .ok () after

theorem Volume.Filled.disk_eq {volume after : Volume} {self : Inode}
    (filled : volume.Filled self after) : after.disk = volume.disk := by
  rcases filled with rfl | ran
  · rfl
  · cases ran
    rfl

theorem Inode.run_cachedExtents {volume : Volume} {self : Inode}
    (fits : self.blockOffset + inodeStructSize ≤ blockSz)
    (coherent : volume.ExtentsCoherent self) :
    ∃ after, self.cachedExtents.run volume = .ok (volume.extentsOf self) after ∧
      volume.Filled self after := by
  rw [cachedExtents, run_bind_ok (run_get _)]
  cases cached : volume.extentsCache[self.inodeNum]? with
  | some extents =>
      rw [coherent extents cached]
      exact ⟨volume, rfl, Or.inl rfl⟩
  | none =>
      simp only
      rw [run_bind_ok (run_readDiskInode fits), run_bind_ok (run_get _)]
      exact ⟨_, rfl, Or.inr rfl⟩

theorem Ext4Inode.not_isSymlink_of_isFile {inode : Ext4Inode} (isFile : inode.isFile = true) :
    inode.isSymlink = false := by
  simp only [Ext4Inode.isFile, beq_iff_eq] at isFile
  simp only [Ext4Inode.isSymlink, isFile]
  decide

theorem Inode.run_readAt {volume : Volume} {self : Inode}
    (fits : self.blockOffset + inodeStructSize ≤ blockSz)
    (notInline : ¬ ((volume.inodeOf self).isSymlink = true ∧
      (volume.inodeOf self).size ≤ iBlockSize))
    (usesExtents : (volume.inodeOf self).usesExtents = true)
    (coherent : volume.ExtentsCoherent self) (ordered : Ordered (volume.extentsOf self))
    (offset : Nat) (buf : List UInt8) :
    ∃ after, (self.readAt offset buf).run volume =
        .ok (min buf.length ((volume.inodeOf self).size - offset),
          (List.range (min buf.length ((volume.inodeOf self).size - offset))).map (fun index =>
            byteAt volume.disk (volume.extentsOf self) (offset + index)) ++
          buf.drop (min buf.length ((volume.inodeOf self).size - offset))) after ∧
      volume.Filled self after := by
  rw [readAt, run_bind_ok (run_readDiskInode fits)]
  by_cases nothing : offset ≥ (volume.inodeOf self).size ∨
      min buf.length ((volume.inodeOf self).size - offset) = 0
  · have zero : min buf.length ((volume.inodeOf self).size - offset) = 0 := by omega
    refine ⟨volume, ?_, Or.inl rfl⟩
    simp only [nothing, if_true, run_pure]
    rw [zero, List.range_zero, List.map_nil, List.nil_append, List.drop_zero]
  · simp only [if_neg nothing, if_neg notInline, usesExtents]
    obtain ⟨after, ran, filled⟩ := run_cachedExtents fits coherent
    refine ⟨after, ?_, filled⟩
    simp only [if_true]
    rw [run_bind_ok ran, run_bind_ok (run_get _), run_pure, filled.disk_eq,
      readFromExtents_eq volume.disk ordered]

/-- The leaf entries of the extent tree behind a handle, by the format. -/
def Volume.formatExtentsOf (volume : Volume) (self : Inode) : List Ext4Extent :=
  formatExtents volume.disk (nodeHeader (volume.inodeOf self).blockData).ehDepth.toNat
    (volume.inodeOf self).blockData

/-- The read returns the bytes of the file as the format defines them. -/
def ReadsByFormat (volume : Volume) (self : Inode) (offset : Nat) (buf : List UInt8) : Prop :=
  ∃ count bytes after, (self.readAt offset buf).run volume = .ok (count, bytes) after ∧
    count = min buf.length ((volume.inodeOf self).size - offset) ∧
    ∀ index < count, bytes[index]? =
      some (formatByte volume.disk (volume.formatExtentsOf self) (offset + index))

/-- A regular file with a valid extent tree, of which the cache holds no other
extents than those on disk. -/
structure ValidFile (volume : Volume) (handle : Inode) : Prop where
  isFile : (volume.inodeOf handle).isFile = true
  usesExtents : (volume.inodeOf handle).usesExtents = true
  tree : ValidExtentTree volume.disk (volume.inodeOf handle).blockData
  ordered : FormatOrdered (volume.formatExtentsOf handle)
  coherent : volume.ExtentsCoherent handle

theorem getElem?_map_range_append {α : Type} {count index : Nat} (indexLt : index < count)
    (value : Nat → α) (rest : List α) :
    ((List.range count).map value ++ rest)[index]? = some (value index) := by
  rw [List.getElem?_append_left (by simpa using indexLt), List.getElem?_map,
    List.getElem?_range indexLt]
  rfl

theorem ValidFile.reads_iff_of_fits {volume : Volume} {self : Inode} (file : ValidFile volume self)
    (fits : self.blockOffset + inodeStructSize ≤ blockSz) (offset : Nat) (buf : List UInt8) :
    ReadsByFormat volume self offset buf ↔
      ∀ index < min buf.length ((volume.inodeOf self).size - offset),
        MarkedZero volume.disk (volume.formatExtentsOf self) (offset + index) := by
  have parsed : volume.extentsOf self = volume.formatExtentsOf self :=
    parseExtentTree_of_valid file.tree
  have ordered : Ordered (volume.extentsOf self) := by
    rw [parsed]
    exact file.ordered.ordered
  obtain ⟨after, ran, _⟩ := Inode.run_readAt fits
    (by simp [Ext4Inode.not_isSymlink_of_isFile file.isFile]) file.usesExtents file.coherent
    ordered offset buf
  rw [parsed] at ran
  constructor
  · rintro ⟨count, bytes, last, lastRan, rfl, agree⟩ index indexLt
    rw [ran] at lastRan
    cases lastRan
    have same := agree index indexLt
    rw [getElem?_map_range_append indexLt, Option.some.injEq] at same
    exact (byteAt_eq_formatByte_iff volume.disk file.ordered _).mp same
  · intro zero
    refine ⟨_, _, after, ran, rfl, ?_⟩
    intro index indexLt
    rw [getElem?_map_range_append indexLt, Option.some.injEq]
    exact (byteAt_eq_formatByte_iff volume.disk file.ordered _).mpr (zero index indexLt)

/-- A read agrees with the format exactly when the inode structure lies inside
its block and no byte of the range behind an extent with the high bit of its
length set differs from zero. -/
theorem readsByFormat_iff {volume : Volume} {self : Inode} (file : ValidFile volume self)
    (offset : Nat) (buf : List UInt8) :
    ReadsByFormat volume self offset buf ↔
      self.blockOffset + inodeStructSize ≤ blockSz ∧
        ∀ index < min buf.length ((volume.inodeOf self).size - offset),
          MarkedZero volume.disk (volume.formatExtentsOf self) (offset + index) := by
  by_cases fits : self.blockOffset + inodeStructSize ≤ blockSz
  · rw [file.reads_iff_of_fits fits offset buf]
    simp only [fits, true_and]
  · simp only [fits, false_and, iff_false]
    rintro ⟨count, bytes, after, ran, _⟩
    rw [Inode.readAt, run_bind_panic (Inode.run_readDiskInode_panics fits)] at ran
    cases ran

/-- A volume whose inode 1 is a file of one byte, mapped by an extent with this
length field; the byte on disk is 1. -/
def oneExtentVolume (length : UInt16) : Volume where
  fs := smallFileSystem
  disk := Function.update (Function.update (fun _ => .zeroed) 20 (Bytes.zeroed.write 0 [1])) 4
    (Bytes.zeroed.paste 0 (((Ext4Inode.setIMode .zeroed 0x8000).setIFlags
      ext4ExtentsFl).setSize 1 |>.setBlockData (storeNode Ext4Extent.record .zeroed 1 4 0
        [⟨0, length, 0, 20⟩])))
  extentsCache := .empty
  dirIndexCache := .empty

theorem validFile_oneExtent {length : UInt16} (which : length = 1 ∨ length = 0x8000) :
    ValidFile (oneExtentVolume length) ⟨1, 4, 0⟩ := by
  rcases which with rfl | rfl
  · refine ⟨by decide, by decide, ⟨by decide, by decide,
      by decide⟩, by decide, ?_⟩
    intro extents cached
    cases cached
  · refine ⟨by decide, by decide, ⟨by decide, by decide,
      by decide⟩, by decide, ?_⟩
    intro extents cached
    cases cached

theorem readsByFormat_iff_oneExtent :
    ReadsByFormat (oneExtentVolume 1) ⟨1, 4, 0⟩ 0 [0, 0] ↔
      (0 + inodeStructSize ≤ blockSz ∧
        ∀ index < min 2 (((oneExtentVolume 1).inodeOf ⟨1, 4, 0⟩).size - 0),
          MarkedZero (oneExtentVolume 1).disk ((oneExtentVolume 1).formatExtentsOf ⟨1, 4, 0⟩)
            (0 + index)) :=
  readsByFormat_iff (validFile_oneExtent (.inl rfl)) 0 [0, 0]

theorem not_readsByFormat_longest :
    ValidFile (oneExtentVolume 0x8000) ⟨1, 4, 0⟩ ∧
      ¬ ReadsByFormat (oneExtentVolume 0x8000) ⟨1, 4, 0⟩ 0 [0] := by
  refine ⟨validFile_oneExtent (.inr rfl), ?_⟩
  rw [(validFile_oneExtent (.inr rfl)).reads_iff_of_fits (by decide)]
  intro allZero
  have zero := allZero 0 (by decide)
  have entries : (oneExtentVolume 0x8000).formatExtentsOf ⟨1, 4, 0⟩ = [⟨0, 0x8000, 0, 20⟩] := by
    decide
  have byteZero := zero ⟨0, 0x8000, 0, 20⟩ (by rw [entries]; simp) (by decide) (by decide)
  revert byteZero
  decide

end Ext4

end OSWorkspace
