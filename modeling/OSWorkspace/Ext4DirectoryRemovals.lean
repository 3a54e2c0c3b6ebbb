import OSWorkspace.Ext4DirectoryBlocks

/-!
# Well-formed directories and removing a name

The records of a well-formed directory tile its blocks, and a cached index has
only names of records.  A name that a record binds can be removed, and it is
still bound after another name has been entered.
-/

namespace OSWorkspace

namespace Ext4

open Exec View

/-- A block with the record at a position cleared. -/
def Block.clearEntry (block : Block) (off : Nat) : Block :=
  block.store Ext4DirEntry.record off { block.load Ext4DirEntry.record off with inode := 0 }

/-- What the loop over blocks can end in: a panic at a name that runs past its
block, an error when no block has the name, or one block with the record
cleared. -/
def RemovalOutcome (volume : Volume) (extents : List Ext4Extent) (name : Str)
    (count lblock : Nat) (outcome : Outcome Ext4Error Volume Nat) : Prop :=
  (outcome = .panic ∧ ∃ l pblock, l < lblock + count ∧
      mapLogicalBlock extents (l % 2 ^ 32) = some pblock ∧
      findDirent (volume.disk pblock) name.bytes blockSz 0 = none) ∨
    (outcome = .err .notFound volume ∧
      ∀ l, lblock ≤ l → l < lblock + count → ∀ pblock,
        mapLogicalBlock extents (l % 2 ^ 32) = some pblock →
        findDirent (volume.disk pblock) name.bytes blockSz 0 = some none) ∨
    ∃ l pblock off, l < lblock + count ∧ mapLogicalBlock extents (l % 2 ^ 32) = some pblock ∧
      findDirent (volume.disk pblock) name.bytes blockSz 0 = some (some off) ∧
      outcome = .ok ((volume.disk pblock).load Ext4DirEntry.record off).inode.toNat
        (volume.putBlock pblock (Block.clearEntry (volume.disk pblock) off))

/-- A block without the name: the rest of the loop decides. -/
theorem RemovalOutcome.skip {volume : Volume} {extents : List Ext4Extent} {name : Str}
    {count lblock : Nat} {outcome : Outcome Ext4Error Volume Nat}
    (rest : RemovalOutcome volume extents name count (lblock + 1) outcome)
    (absent : ∀ pblock, mapLogicalBlock extents (lblock % 2 ^ 32) = some pblock →
      findDirent (volume.disk pblock) name.bytes blockSz 0 = some none) :
    RemovalOutcome volume extents name (count + 1) lblock outcome := by
  rcases rest with ⟨panics, l, pblock, upper, mapped, found⟩ | ⟨failed, missing⟩ |
    ⟨l, pblock, off, upper, mapped, found, ran⟩
  · exact Or.inl ⟨panics, l, pblock, by omega, mapped, found⟩
  · refine Or.inr (Or.inl ⟨failed, ?_⟩)
    intro l lower upper pblock mapped
    by_cases first : l = lblock
    · subst first
      exact absent pblock mapped
    · exact missing l (by omega) (by omega) pblock mapped
  · exact Or.inr (Or.inr ⟨l, pblock, off, by omega, mapped, found, ran⟩)

theorem run_removeFromBlocks (volume : Volume) (extents : List Ext4Extent) (name : Str)
    (count lblock : Nat) :
    RemovalOutcome volume extents name count lblock
      ((removeFromBlocks extents name count lblock).run volume) := by
  induction count generalizing lblock with
  | zero =>
      refine Or.inr (Or.inl ⟨rfl, ?_⟩)
      intro l lower upper
      omega
  | succ count ih =>
      cases mapped : mapLogicalBlock extents (lblock % 2 ^ 32) with
      | none =>
          have same : (removeFromBlocks extents name (count + 1) lblock).run volume =
              (removeFromBlocks extents name count (lblock + 1)).run volume := by
            simp only [removeFromBlocks, mapped]
          rw [same]
          refine (ih (lblock + 1)).skip ?_
          rw [mapped]
          exact fun _ => nofun
      | some pblock =>
          simp only [removeFromBlocks, mapped]
          rw [run_bind_ok (run_readBlock _ _)]
          cases found : findDirent (volume.disk pblock) name.bytes blockSz 0 with
          | none => exact Or.inl ⟨rfl, lblock, pblock, by omega, mapped, found⟩
          | some position =>
              rw [run_bind_ok (run_expect_some _ _)]
              cases position with
              | none =>
                  refine (ih (lblock + 1)).skip ?_
                  rw [mapped]
                  intro other same
                  cases same
                  exact found
              | some off =>
                  exact Or.inr (Or.inr ⟨lblock, pblock, off, by omega, mapped, found, rfl⟩)

section Removing

variable {reserved : Set Nat} {dir : Nat} {volume : Volume}
  (mounted : volume.view.Mounted reserved) (isInode : volume.view.fs.IsInode dir)
  (owning : volume.view.Owning reserved dir) (isDir : (volume.view.inode dir).isDir = true)

include mounted isInode owning isDir

theorem run_dirRemoveEntry (name : Str) :
    ((volume.view.fs.handle dir).dirRemoveEntry name).run volume =
      (removeFromBlocks (volume.view.extents dir) name (volume.view.blockCount dir) 0).run
        volume := by
  have read := view_readDiskInode mounted.layout mounted.geometry isInode
  have kind : (volume.view.fs.handle dir).isDir.run volume = .ok true volume := by
    rw [Inode.isDir, run_bind_ok read, isDir]
    rfl
  have size : (volume.view.fs.handle dir).size.run volume =
      .ok (volume.view.inode dir).size volume := by
    rw [Inode.size, run_bind_ok read]
    rfl
  rw [Inode.dirRemoveEntry, run_bind_ok kind]
  simp only [not_true_eq_false, if_false]
  rw [run_bind_ok size, run_bind_ok (view_readExtentsAny mounted isInode owning)]
  rfl

end Removing

theorem Tiled.length_le {block : Block} {slots : List Dirent}
    (tiled : Tiled block 0 slots blockSz) : slots.length ≤ blockSz := by
  have bound := tiled.le
  omega

/-- The names, inodes and types that the records of some blocks bind. -/
def contents (blocks : List (List Dirent)) : List (List UInt8 × UInt32 × UInt8) :=
  blocks.flatten.filterMap Dirent.content

/-- The blocks of the directory are tiled by the given records. -/
structure View.Holds (reserved : Set Nat) (view : View) (dir : Nat)
    (blocks : List (List Dirent)) : Prop extends Directory reserved view dir where
  whole : (view.inode dir).size = blocks.length * blockSz
  tiled : ∀ lblock slots, blocks[lblock]? = some slots →
    ∃ pblock, Maps (view.extents dir) lblock pblock ∧ Tiled (view.data pblock) 0 slots blockSz

namespace View

variable {reserved : Set Nat} {view : View} {dir : Nat} {blocks : List (List Dirent)}

theorem Directory.fileBlock_eq (directory : view.Directory reserved dir) {lblock pblock : Nat}
    (maps : Maps (view.extents dir) lblock pblock) :
    view.fileBlock dir lblock = view.data pblock := by
  funext index
  have inside := index.isLt
  have position : (lblock * blockSz + index.val) / blockSz = lblock ∧
      (lblock * blockSz + index.val) % blockSz = index.val := by
    simp only [blockSz] at inside ⊢
    omega
  rw [View.fileBlock, byteAt_of_maps directory.ordered (by rw [position.1]; exact maps),
    position.2, Bytes.get, dif_pos inside]

namespace Holds

variable (holds : view.Holds reserved dir blocks)

include holds

theorem blockCount_eq : view.blockCount dir = blocks.length := by
  apply Nat.le_antisymm
  · by_contra large
    have inside := holds.toDirectory.lt_blockCount.mp (show blocks.length < _ by omega)
    rw [holds.whole] at inside
    exact absurd inside (Nat.lt_irrefl _)
  · by_contra large
    have outside := mt holds.toDirectory.lt_blockCount.mpr (Nat.lt_irrefl (view.blockCount dir))
    rw [holds.whole] at outside
    exact outside (Nat.mul_lt_mul_of_pos_right (by omega) (by decide))

theorem length_le : blocks.length ≤ u32Max := by
  have bound := holds.toDirectory.blockCount_le
  rwa [holds.blockCount_eq] at bound

/-- A block of records and the disk block that it lies in. -/
theorem block_at {lblock : Nat} {slots : List Dirent} (isBlock : blocks[lblock]? = some slots) :
    ∃ pblock, lblock < blocks.length ∧ mapLogicalBlock (view.extents dir) lblock = some pblock ∧
      Maps (view.extents dir) lblock pblock ∧ Tiled (view.data pblock) 0 slots blockSz := by
  obtain ⟨inside, _⟩ := List.getElem?_eq_some_iff.mp isBlock
  obtain ⟨pblock, maps, tiled⟩ := holds.tiled lblock slots isBlock
  have lengthLe := holds.length_le
  exact ⟨pblock, inside, mapLogicalBlock_eq_some holds.ordered (by omega) maps, maps, tiled⟩

/-- The records of a mapped block. -/
theorem slots_at {lblock pblock : Nat} (inside : lblock < blocks.length)
    (mapped : mapLogicalBlock (view.extents dir) lblock = some pblock) :
    ∃ slots, blocks[lblock]? = some slots ∧ Tiled (view.data pblock) 0 slots blockSz := by
  have isBlock := List.getElem?_eq_getElem inside
  obtain ⟨other, _, otherMapped, _, tiled⟩ := holds.block_at isBlock
  rw [mapped] at otherMapped
  cases otherMapped
  exact ⟨_, isBlock, tiled⟩

theorem entriesFrom_eq {fuel lblock : Nat} (enough : blocks.length ≤ lblock + fuel)  :
    view.entriesFrom dir (view.inode dir).size fuel lblock =
      (blocks.drop lblock).flatten.filterMap Dirent.binding := by
  induction fuel generalizing lblock with
  | zero => rw [View.entriesFrom, List.drop_eq_nil_of_le (by omega)]; rfl
  | succ fuel ih =>
      rw [View.entriesFrom]
      by_cases inside : lblock < blocks.length
      · have next : (lblock + 1) * blockSz ≤ blocks.length * blockSz :=
          Nat.mul_le_mul_right _ inside
        rw [Nat.add_mul, Nat.one_mul, ← holds.whole] at next
        have full : min blockSz ((view.inode dir).size - lblock * blockSz) = blockSz := by omega
        obtain ⟨pblock, _, _, maps, tiled⟩ := holds.block_at (List.getElem?_eq_getElem inside)
        rw [full, if_pos ⟨by simp only [blockSz] at next ⊢; omega, by decide⟩, ih (by omega),
          holds.toDirectory.fileBlock_eq maps, scanDirents_tiled tiled tiled.length_le,
          List.drop_eq_getElem_cons inside, List.flatten_cons, List.filterMap_append]
      · have outside : ¬ lblock * blockSz < (view.inode dir).size := by
          rw [holds.whole]
          exact Nat.not_lt.mpr (Nat.mul_le_mul_right _ (by omega))
        rw [if_neg fun both => outside both.1, List.drop_eq_nil_of_le (by omega)]
        rfl

/-- The entries are the bindings of the records. -/
theorem entries_eq : view.entries dir = blocks.flatten.filterMap Dirent.binding := by
  have count : (view.inode dir).size / blockSz = blocks.length := by
    rw [holds.whole]
    exact Nat.mul_div_cancel _ (by decide)
  rw [View.entries, holds.entriesFrom_eq (by omega), List.drop_zero]

end Holds

theorem data_put_same (view : View) (blockId : Nat) (block : Block) :
    (view.put blockId block).data blockId = block :=
  Function.update_self _ _ _

theorem data_put_of_ne {view : View} {blockId other : Nat} (different : other ≠ blockId)
    {block : Block} : (view.put blockId block).data other = view.data other :=
  Function.update_of_ne different _ _

/-- A step on a directory that keeps its kind and a map of its blocks. -/
theorem Directory.of_fileStep {after : View} (directory : view.Directory reserved dir)
    (step : FileStep reserved dir view after) (isDir : (after.inode dir).isDir = true)
    (usesExtents : (after.inode dir).usesExtents = true) (ordered : Ordered (after.extents dir))
    (bounded : Bounded (after.extents dir))
    (mapped : ∀ lblock, lblock * blockSz < (after.inode dir).size →
      ∃ pblock, Maps (after.extents dir) lblock pblock) : after.Directory reserved dir := by
  refine ⟨by rw [step.fs]; exact directory.isInode, by rw [step.heldInodes]; exact directory.inUse,
    step.owning, step.coherent, isDir, usesExtents, ordered, bounded, mapped, ?_⟩
  intro name inodeNum fileType found
  cases cached : after.dirIndexCache[dir]? with
  | none => exact numbers_of_built cached name inodeNum fileType found
  | some index =>
      have wasCached := step.dirIndexCache dir trivial index cached
      rw [View.dirIndex, cached] at found
      apply directory.numbers name inodeNum fileType
      rw [View.dirIndex, wasCached]
      exact found

/-- Records written over a block of the directory. -/
theorem Holds.put (holds : view.Holds reserved dir blocks) (mounted : view.Mounted reserved)
    {lblock pblock : Nat} (maps : Maps (view.extents dir) lblock pblock) {block : Block}
    {slots : List Dirent} (tiled : Tiled block 0 slots blockSz) :
    FileStep reserved dir view (view.put pblock block) ∧
      Exchanges dir view (view.put pblock block) ∧
      (view.put pblock block).inode dir = view.inode dir ∧
      (view.put pblock block).extents dir = view.extents dir ∧
      (view.put pblock block).Holds reserved dir (blocks.set lblock slots) := by
  have isData := maps.mem_dataBlocks
  have dataStep : DataStep (view.extents dir) view (view.put pblock block) := by
    refine ⟨rfl, ?_⟩
    intro other notData
    apply data_put_of_ne
    rintro rfl
    exact notData isData
  obtain ⟨step, inodeEq, extentsEq, ownedEq⟩ := dataStep.fileStep mounted holds.isInode
    holds.owning holds.coherent
  refine ⟨step, Exchanges.of_same holds.owning rfl ownedEq, inodeEq, extentsEq, holds.toDirectory.of_fileStep step
    (by rw [inodeEq]; exact holds.isDir) (by rw [inodeEq]; exact holds.usesExtents)
    (by rw [extentsEq]; exact holds.ordered) (by rw [extentsEq]; exact holds.bounded)
    (by rw [inodeEq, extentsEq]; exact holds.mapped), ?_, ?_⟩
  · rw [inodeEq, holds.whole, List.length_set]
  · intro l others isBlock
    rw [extentsEq]
    by_cases same : lblock = l
    · subst same
      have written : others = slots := by
        rw [List.getElem?_set_self'] at isBlock
        obtain ⟨_, _, equal⟩ := Option.map_eq_some_iff.mp isBlock
        exact equal.symm
      exact ⟨pblock, maps, by rw [data_put_same, written]; exact tiled⟩
    · rw [List.getElem?_set_ne same] at isBlock
      obtain ⟨other, otherMaps, otherTiled⟩ := holds.tiled l others isBlock
      refine ⟨other, otherMaps, ?_⟩
      rw [data_put_of_ne]
      · exact otherTiled
      · rintro rfl
        exact same (maps.injective (List.nodup_append.mp holds.owning.nodup).1 otherMaps)

end View

theorem contents_append (first second : List (List Dirent)) :
    contents (first ++ second) = contents first ++ contents second := by
  rw [contents, List.flatten_append, List.filterMap_append]
  rfl

theorem contents_cons (slots : List Dirent) (blocks : List (List Dirent)) :
    contents (slots :: blocks) = slots.filterMap Dirent.content ++ contents blocks := by
  rw [contents, List.flatten_cons, List.filterMap_append]
  rfl

/-- Replacing the records of one block. -/
theorem contents_set {blocks : List (List Dirent)} {lblock : Nat} {slots : List Dirent}
    (isBlock : blocks[lblock]? = some slots) (others : List Dirent) :
    ∃ before behind,
      contents blocks = before ++ slots.filterMap Dirent.content ++ behind ∧
      contents (blocks.set lblock others) =
        before ++ others.filterMap Dirent.content ++ behind := by
  obtain ⟨inside, rfl⟩ := List.getElem?_eq_some_iff.mp isBlock
  refine ⟨contents (blocks.take lblock), contents (blocks.drop (lblock + 1)), ?_, ?_⟩
  · have whole := List.take_append_drop lblock blocks
    rw [List.drop_eq_getElem_cons inside] at whole
    conv_lhs => rw [← whole]
    rw [contents_append, contents_cons, List.append_assoc]
  · rw [List.set_eq_take_append_cons_drop, if_pos inside, contents_append, contents_cons,
      List.append_assoc]

/-- The second list is the first with one more element. -/
def Inserts {α : Type} (item : α) (first second : List α) : Prop :=
  ∃ before behind, first = before ++ behind ∧ second = before ++ item :: behind

theorem Inserts.mem_iff {α : Type} {item other : α} {first second : List α}
    (inserts : Inserts item first second) : other ∈ second ↔ other = item ∨ other ∈ first := by
  obtain ⟨before, behind, rfl, rfl⟩ := inserts
  simp only [List.mem_append, List.mem_cons]
  exact or_left_comm

theorem Inserts.perm {α : Type} {item : α} {first second : List α}
    (inserts : Inserts item first second) : second.Perm (item :: first) := by
  obtain ⟨before, behind, rfl, rfl⟩ := inserts
  exact List.perm_middle

theorem Inserts.between {α : Type} {item : α} {first second : List α}
    (inserts : Inserts item first second) (before behind : List α) :
    Inserts item (before ++ first ++ behind) (before ++ second ++ behind) := by
  obtain ⟨left, right, rfl, rfl⟩ := inserts
  exact ⟨before ++ left, right ++ behind, by simp, by simp⟩

/-- A name was entered into a directory. -/
structure Entered (reserved : Set Nat) (dir : Nat) (view after : View)
    (blocks : List (List Dirent)) (item : List UInt8 × UInt32 × UInt8) : Prop where
  step : FileStep reserved dir view after
  exchanges : Exchanges dir view after
  fields : ∀ name, name ≠ .iFlags → name ≠ .iBlocksLo → name ≠ .iSizeLo → name ≠ .iSizeHigh →
    (after.inode dir).field name = (view.inode dir).field name
  holds : ∃ changed, after.Holds reserved dir changed ∧
    Inserts item (contents blocks) (contents changed)

section Entering

variable {name : Str} (nonempty : name.isEmpty = false) {inodeNum : Nat}
  (numbered : UInt32.ofNat inodeNum ≠ 0) (fileType : UInt8)

include nonempty numbered

/-- The content of a new record. -/
theorem content_new (recLen : Nat) :
    Dirent.content ⟨UInt32.ofNat inodeNum, recLen, fileType, name.bytes⟩ =
      some (name.bytes, UInt32.ofNat inodeNum, fileType) := by
  refine if_pos ⟨numbered, ?_⟩
  simpa [Str.isEmpty] using nonempty

theorem inserts_replacement (before after : List Dirent) (slot : Dirent) (need : Nat) :
    Inserts (name.bytes, UInt32.ofNat inodeNum, fileType)
      ((before ++ slot :: after).filterMap Dirent.content)
      ((before ++ (slot.replacement need inodeNum fileType name ++ after)).filterMap
        Dirent.content) := by
  rw [Dirent.replacement]
  split
  · next reuse =>
      have unused : slot.content = none := if_neg fun live => live.1 reuse.1
      refine ⟨before.filterMap Dirent.content, after.filterMap Dirent.content, ?_, ?_⟩
      · rw [List.filterMap_append, List.filterMap_cons_none unused]
      · rw [List.filterMap_append, List.singleton_append,
          List.filterMap_cons_some (content_new nonempty numbered fileType _)]
  · have shortened : Dirent.content { slot with recLen := slot.used } = slot.content := rfl
    refine ⟨before.filterMap Dirent.content ++ slot.content.toList,
      after.filterMap Dirent.content, ?_, ?_⟩
    · rw [List.filterMap_append, List.filterMap_cons]
      cases slot.content <;> simp
    · rw [List.filterMap_append, List.cons_append, List.filterMap_cons, List.singleton_append,
        List.filterMap_cons_some (content_new nonempty numbered fileType _), shortened]
      cases slot.content <;> simp

variable {reserved : Set Nat} {dir : Nat} {volume : Volume} {blocks : List (List Dirent)}
  (mounted : volume.view.Mounted reserved) (holds : volume.view.Holds reserved dir blocks)
  (short : name.len ≤ ext4NameLen)

include mounted holds short

theorem entered_fillSlot {pblock : Nat} {slot : DirSlot}
    (chosen : volume.view.slotFor dir (align4 (Ext4DirEntry.fixedSize + name.len)) =
      some (pblock, slot)) :
    ∃ after, (fillSlot pblock inodeNum fileType name slot).run volume = .ok () after ∧
      Entered reserved dir volume.view after.view blocks
        (name.bytes, UInt32.ofNat inodeNum, fileType) := by
  obtain ⟨l, _, upper, mapped, found⟩ := findSlotFrom_eq_some chosen
  rw [holds.blockCount_eq, Nat.zero_add] at upper
  have maps := maps_of_mapLogicalBlock mapped
  obtain ⟨slots, isBlock, tiled⟩ := holds.slots_at upper mapped
  have isOwned := mem_owned.mpr (Or.inl maps.mem_dataBlocks)
  have held := disk_of_owned mounted holds.owning isOwned
  have notBitmap : ¬ volume.fs.IsBitmap pblock := fun isBitmap =>
    holds.owning.outside pblock isOwned (mounted.layout.bitmaps pblock isBitmap)
  rcases findSlot_tiled tiled tiled.length_le (align4 (Ext4DirEntry.fixedSize + name.len)) with
    ⟨missing, _⟩ | ⟨before, record, behind, pos, rfl, walked, offers, located⟩
  · rw [missing] at found
    cases found
  · rw [located] at found
    cases found
    obtain ⟨filled, ran, filledTiled⟩ := run_fillSlot_tiled tiled walked short inodeNum fileType
      held offers
    obtain ⟨step, exchanges, inodeEq, _, filledHolds⟩ := holds.put mounted maps filledTiled
    refine ⟨_, ran, ?_⟩
    rw [Volume.view_putBlock (Volume.geometry_view.mp mounted.geometry) notBitmap]
    refine ⟨step, exchanges, fun field _ _ _ _ => by rw [inodeEq], _, filledHolds, ?_⟩
    obtain ⟨first, last, whole, changed⟩ := contents_set isBlock
      (before ++ (record.replacement _ inodeNum fileType name ++ behind))
    rw [whole, changed]
    exact (inserts_replacement nonempty numbered fileType _ _ _ _).between first last

/-- The last mapped block behind the directory becomes its last block. -/
theorem entered_finishAppend {pblock : Nat}
    (maps : Maps (volume.view.extents dir) blocks.length pblock) :
    ∃ after, (finishAppend (volume.view.fs.handle dir) blocks.length inodeNum fileType name
          pblock).run volume = .ok () after ∧
      Entered reserved dir volume.view after.view blocks
        (name.bytes, UInt32.ofNat inodeNum, fileType) := by
  have small : blocks.length < u32Max := by
    obtain ⟨extent, extentMem, _, upper, _⟩ := maps
    have bound := holds.bounded extent extentMem
    omega
  have room := align4_record_le short
  have fits : Ext4DirEntry.fixedSize + name.len ≤ blockSz := by
    rw [align4] at room
    omega
  have isData := maps.mem_dataBlocks
  have isOwned := mem_owned.mpr (Or.inl isData)
  have notBitmap : ¬ volume.fs.IsBitmap pblock := fun isBitmap =>
    holds.owning.outside pblock isOwned (mounted.layout.bitmaps pblock isBitmap)
  have wrote := run_dirWriteEntryAt volume pblock 0 blockSz inodeNum fileType short room
  rw [if_pos (by omega)] at wrote
  have written : Tiled (Block.putEntry (volume.disk pblock) 0 blockSz inodeNum fileType name) 0
      [⟨UInt32.ofNat inodeNum, blockSz, fileType, name.bytes⟩] blockSz :=
    ⟨⟨fits, (by decide : blockSz % 4 = 0), short⟩, Block.putEntry_at _ _ _ fits (by omega),
      Nat.zero_add blockSz⟩
  generalize Block.putEntry (volume.disk pblock) 0 blockSz inodeNum fileType name = filled
    at wrote written
  -- The block lies behind the directory: its records are not yet among those held.
  obtain ⟨step, exchanges, inodeEq, extentsEq, filledHolds⟩ := holds.put mounted maps written
  rw [List.set_eq_of_length_le (Nat.le_refl _)] at filledHolds
  have viewEq := Volume.view_putBlock (Volume.geometry_view.mp mounted.geometry) notBitmap filled
  have middleMounted := step.mounted mounted holds.owning
  rw [← viewEq] at step exchanges inodeEq extentsEq filledHolds middleMounted
  obtain ⟨after, ran, afterView⟩ := view_modifyDiskInode middleMounted.layout
    middleMounted.geometry filledHolds.isInode (·.setSize ((blocks.length + 1) * blockSz))
  have sizeSmall : (blocks.length + 1) * blockSz < 2 ^ 64 := by
    simp only [u32Max, blockSz] at small ⊢
    omega
  obtain ⟨sizeStep, sizedInode, sizedExtents, sizedOwned⟩ := FileStep.of_putInode middleMounted
    filledHolds.isInode filledHolds.owning filledHolds.coherent
    (Ext4Inode.blockData_setSize ((volume.putBlock pblock filled).view.inode dir)
      ((blocks.length + 1) * blockSz))
    (Ext4Inode.usesExtents_congr (Ext4Inode.field_setSize _ _ (by decide) (by decide)))
  rw [← afterView] at sizeStep sizedInode sizedExtents sizedOwned
  have sameExtents := sizedExtents.trans extentsEq
  have sameField (field : InodeField) (notLow : field ≠ .iSizeLo) (notHigh : field ≠ .iSizeHigh) :
      (after.view.inode dir).field field = (volume.view.inode dir).field field := by
    rw [sizedInode, Ext4Inode.field_setSize _ _ notLow notHigh, inodeEq]
  have size : (after.view.inode dir).size = (blocks.length + 1) * blockSz := by
    rw [sizedInode, Ext4Inode.size_setSize _ sizeSmall]
  have sameHeld : after.view.held .block = (volume.putBlock pblock filled).view.held .block := by
    rw [afterView]
    rfl
  have sameData (blockId : Nat) (isOther : blockId ∈ dataBlocks (volume.view.extents dir)) :
      after.view.data blockId = (volume.putBlock pblock filled).view.data blockId := by
    rw [afterView]
    exact data_putInode middleMounted.layout middleMounted.geometry filledHolds.isInode _
      (holds.owning.outside blockId (mem_owned.mpr (Or.inl isOther)))
  refine ⟨after, (run_bind_ok wrote).trans ran, step.trans sizeStep,
    exchanges.trans (Exchanges.of_same filledHolds.owning sameHeld sizedOwned) step,
    fun field _ _ notLow notHigh => sameField field notLow notHigh,
    blocks ++ [[⟨UInt32.ofNat inodeNum, blockSz, fileType, name.bytes⟩]], ⟨?_, ?_, ?_⟩, ?_⟩
  · refine filledHolds.toDirectory.of_fileStep sizeStep ?_ ?_ ?_ ?_ ?_
    · rw [(Ext4Inode.kind_congr (sameField .iMode (by decide) (by decide))).2.1]
      exact holds.isDir
    · rw [Ext4Inode.usesExtents_congr (sameField .iFlags (by decide) (by decide))]
      exact holds.usesExtents
    · rw [sameExtents]
      exact holds.ordered
    · rw [sameExtents]
      exact holds.bounded
    · intro lblock inside
      rw [size] at inside
      have less : lblock < blocks.length + 1 := Nat.lt_of_mul_lt_mul_right inside
      rw [sameExtents]
      by_cases isLast : lblock = blocks.length
      · rw [isLast]
        exact ⟨pblock, maps⟩
      · apply holds.mapped
        rw [holds.whole]
        exact Nat.mul_lt_mul_of_pos_right (by omega) (by decide)
  · rw [size, List.length_append, List.length_singleton]
  · intro lblock slots isBlock
    rw [sameExtents]
    by_cases isLast : lblock < blocks.length
    · rw [List.getElem?_append_left isLast] at isBlock
      obtain ⟨other, otherMaps, tiled⟩ := filledHolds.tiled lblock slots isBlock
      rw [extentsEq] at otherMaps
      exact ⟨other, otherMaps, by rw [sameData other otherMaps.mem_dataBlocks]; exact tiled⟩
    · obtain ⟨upper, same⟩ := List.getElem?_eq_some_iff.mp isBlock
      rw [List.length_append, List.length_singleton] at upper
      obtain rfl : lblock = blocks.length := by omega
      rw [List.getElem_append_right (Nat.le_refl _)] at same
      simp only [Nat.sub_self, List.getElem_cons_zero] at same
      subst same
      refine ⟨pblock, maps, ?_⟩
      rw [sameData pblock isData, viewEq, data_put_same]
      exact written
  · refine ⟨contents blocks, [], (List.append_nil _).symm, ?_⟩
    rw [contents_append, contents_cons,
      List.filterMap_cons_some (content_new nonempty numbered fileType _)]
    rfl

end Entering

/-- A new block mapped behind the directory leaves its records. -/
theorem View.Holds.extended {reserved : Set Nat} {dir pblock : Nat} {view after : View}
    {blocks : List (List Dirent)} (holds : view.Holds reserved dir blocks)
    (ends : view.EndsMapped dir) (pblockSmall : pblock < 2 ^ 48)
    (extended : Extended reserved dir view [pblock] (view.appended dir pblock) after) :
    after.Holds reserved dir blocks ∧ Maps (after.extents dir) blocks.length pblock := by
  have extend := holds.toDirectory.extends_appended ends.1 ends.2 pblockSmall
  have inserted := inserted_pushBlockToExtents (view.extents dir) (view.blockCount dir) pblock
  have sameSize : (after.inode dir).size = (view.inode dir).size :=
    Ext4Inode.size_congr (extended.fields .iSizeLo (by decide) (by decide))
      (extended.fields .iSizeHigh (by decide) (by decide))
  have kept {lblock other : Nat} (maps : Maps (view.extents dir) lblock other) :
      Maps (after.extents dir) lblock other := by
    rw [extended.extents]
    exact (extend.maps lblock other).mpr (Or.inr maps)
  refine ⟨⟨?_, by rw [sameSize]; exact holds.whole, ?_⟩, ?_⟩
  · refine holds.toDirectory.of_fileStep extended.step ?_ (extended.usesExtents holds.usesExtents)
      ?_ ?_ ?_
    · rw [(Ext4Inode.kind_congr (extended.fields .iMode (by decide) (by decide))).2.1]
      exact holds.isDir
    · rw [extended.extents]
      refine inserted.ordered ends.2 pblockSmall (by rw [List.append_nil]; exact holds.ordered) ?_
        (by simp)
      intro extent extentMem
      have behind := le_logicalEnd holds.bounded extentMem
      rwa [ends.1] at behind
    · rw [extended.extents]
      exact inserted.bounded ends.2 pblockSmall (by rw [List.append_nil]; exact holds.bounded)
    · intro lblock inside
      rw [sameSize] at inside
      obtain ⟨other, maps⟩ := holds.mapped lblock inside
      exact ⟨other, kept maps⟩
  · intro lblock slots isBlock
    obtain ⟨other, maps, tiled⟩ := holds.tiled lblock slots isBlock
    exact ⟨other, kept maps, by rw [extended.data other maps.mem_dataBlocks]; exact tiled⟩
  · rw [extended.extents, ← holds.blockCount_eq]
    exact (extend.maps _ _).mpr (Or.inl ⟨rfl, rfl⟩)

theorem Entered.of_extended {reserved : Set Nat} {dir : Nat} {view between after : View}
    {blocks : List (List Dirent)} {item : List UInt8 × UInt32 × UInt8} {new : List Nat}
    {extents : List Ext4Extent} (extended : Extended reserved dir view new extents between)
    (entered : Entered reserved dir between after blocks item) :
    Entered reserved dir view after blocks item := by
  refine ⟨extended.step.trans entered.step,
    extended.exchanges.trans entered.exchanges extended.step, ?_, entered.holds⟩
  intro field notFlags notBlocks notLow notHigh
  rw [entered.fields field notFlags notBlocks notLow notHigh,
    extended.fields field notFlags notBlocks]

theorem View.Holds.of_unchanged {reserved : Set Nat} {dir : Nat} {view after : View}
    {blocks : List (List Dirent)} (holds : view.Holds reserved dir blocks)
    (directory : after.Directory reserved dir) (unchanged : Unchanged view after dir) :
    after.Holds reserved dir blocks := by
  refine ⟨directory, by rw [unchanged.inode]; exact holds.whole, ?_⟩
  intro lblock slots isBlock
  obtain ⟨pblock, maps, tiled⟩ := holds.tiled lblock slots isBlock
  refine ⟨pblock, by rw [unchanged.extents_eq]; exact maps, ?_⟩
  rw [unchanged.data pblock (mem_owned.mpr (Or.inl maps.mem_dataBlocks))]
  exact tiled

theorem Looked.holds {reserved : Set Nat} {dir : Nat} {volume after : Volume}
    {blocks : List (List Dirent)} (looked : Looked reserved dir volume after)
    (mounted : volume.view.Mounted reserved) (holds : volume.view.Holds reserved dir blocks) :
    after.view.Holds reserved dir blocks :=
  holds.of_unchanged (looked.directory mounted holds.toDirectory)
    (looked.unchanged mounted holds.toDirectory)

/-- Entering a short name into a tiled directory: the only failure that leaves a
trace is a block that cannot be mapped. -/
theorem entered_dirAddEntry {reserved : Set Nat} {dir : Nat} {volume : Volume}
    {blocks : List (List Dirent)} (mounted : volume.view.Mounted reserved)
    (holds : volume.view.Holds reserved dir blocks) {name : Str} (nonempty : name.isEmpty = false)
    (short : name.len ≤ ext4NameLen) (absent : (volume.view.dirIndex dir)[name]? = none)
    {inodeNum : Nat} (numbered : UInt32.ofNat inodeNum ≠ 0) (fileType : UInt8) :
    (volume.view.NeedsBlock dir (align4 (Ext4DirEntry.fixedSize + name.len)) ∧
      ¬ RoomFor volume (volume.view.appended dir ((handedOut volume 1).headD 0)) 1 ∧
      ∃ error middle after,
        ((volume.view.fs.handle dir).dirAddEntry name inodeNum fileType).run volume =
          .err error after ∧
        Looked reserved dir volume middle ∧
        Leaks middle.view after.view (handedOut volume 1)) ∨
    (¬ (volume.view.NeedsBlock dir (align4 (Ext4DirEntry.fixedSize + name.len)) ∧
        ¬ RoomFor volume (volume.view.appended dir ((handedOut volume 1).headD 0)) 1) ∧
      ((∃ middle after,
          ((volume.view.fs.handle dir).dirAddEntry name inodeNum fileType).run volume =
            .ok () after ∧
          Looked reserved dir volume middle ∧
          Entered reserved dir middle.view after.view blocks
            (name.bytes, UInt32.ofNat inodeNum, fileType)) ∨
        (volume.view.slotFor dir (align4 (Ext4DirEntry.fixedSize + name.len)) = none ∧
          ∃ error after, ((volume.view.fs.handle dir).dirAddEntry name inodeNum fileType).run
            volume = .err error after ∧ Looked reserved dir volume after))) := by
  have directory := holds.toDirectory
  have fits := align4_record_le short
  obtain ⟨middle, consulted, ran⟩ := run_dirAddEntry mounted directory nonempty absent fits inodeNum
    fileType
  have looked : Looked reserved dir volume middle := consulted.looked
  have unchanged := looked.unchanged mounted directory
  have middleMounted := looked.mounted mounted
  have middleHolds := looked.holds mounted holds
  rw [ran]
  cases chosen : volume.view.slotFor dir (align4 (Ext4DirEntry.fixedSize + name.len)) with
  | some pair =>
      obtain ⟨pblock, slot⟩ := pair
      right
      refine ⟨fun both => absurd (chosen.symm.trans both.1.1) (by simp), Or.inl ?_⟩
      obtain ⟨after, filled, entered⟩ := entered_fillSlot nonempty numbered fileType middleMounted
        middleHolds short (by rw [unchanged.slotFor_eq]; exact chosen)
      exact ⟨middle, after, filled, looked, entered⟩
  | none =>
      have sameHanded := looked.sameAllocator.handedOut_eq 1
      have sameRoom (result : List Ext4Extent) :
          RoomFor middle result 1 ↔ RoomFor volume result 1 := by
        rw [RoomFor, RoomFor, View.hasFree_congr looked.view_fs fun blockId => by
          rw [looked.held_eq mounted.geometry]]
      have outcome := dirAppendEntry_outcome middleMounted (looked.directory mounted directory)
        inodeNum fileType name
      rw [sameHanded, looked.view_fs, middleHolds.blockCount_eq, unchanged.endsMapped] at outcome
      simp only [unchanged.appended_eq, sameRoom] at outcome
      rw [holds.blockCount_eq]
      rcases outcome with ⟨ends, room, pblock, between, _, fresh, extended, ended⟩ |
        ⟨ends, noRoom, error, after, ended, leaks⟩ | ⟨notEnds, between, reread, ended⟩
      · right
        refine ⟨fun both => both.2 room, Or.inl ?_⟩
        have isNew : pblock ∈ [pblock] := List.mem_singleton_self _
        have pblockSmall : pblock < 2 ^ 48 :=
          (middleMounted.guarded.fresh (fresh.items pblock isNew) (fresh.free pblock isNew)).2.2
        rw [← unchanged.appended_eq] at extended
        obtain ⟨betweenHolds, maps⟩ := middleHolds.extended (unchanged.endsMapped.mpr ends)
          pblockSmall extended
        have betweenFs : between.view.fs = volume.view.fs :=
          extended.step.fs.trans looked.view_fs
        obtain ⟨after, finished, entered⟩ := entered_finishAppend nonempty numbered fileType
          (extended.step.mounted middleMounted middleHolds.owning) betweenHolds short maps
        rw [betweenFs] at finished
        exact ⟨middle, after, ended.trans finished, looked, entered.of_extended extended⟩
      · exact Or.inl ⟨⟨chosen, ends⟩, noRoom, error, middle, after, ended, looked, leaks⟩
      · right
        refine ⟨fun both => notEnds both.1.2, ?_⟩
        simp only
        rw [ended]
        have lookedThen := looked.reread reread
        have betweenHolds := lookedThen.holds mounted holds
        cases mapped : mapLogicalBlock (middle.view.extents dir) blocks.length with
        | none => exact Or.inr ⟨trivial, .unsupported, between, rfl, lookedThen⟩
        | some pblock =>
            have maps := maps_of_mapLogicalBlock mapped
            rw [← (reread.unchanged dir).extents_eq] at maps
            obtain ⟨after, finished, entered⟩ := entered_finishAppend nonempty numbered fileType
              (lookedThen.mounted mounted) betweenHolds short maps
            rw [lookedThen.view_fs] at finished
            exact Or.inl ⟨between, after, finished, lookedThen, entered⟩

/-- A record was cleared. -/
structure Removed (reserved : Set Nat) (dir : Nat) (view after : View)
    (blocks : List (List Dirent)) (item : List UInt8 × UInt32 × UInt8) : Prop where
  step : FileStep reserved dir view after
  exchanges : Exchanges dir view after
  inode : after.inode dir = view.inode dir
  holds : ∃ changed, after.Holds reserved dir changed ∧
    Inserts item (contents changed) (contents blocks)

theorem Dirent.content_eq_some {slot : Dirent} {item : List UInt8 × UInt32 × UInt8} :
    slot.content = some item ↔
      (slot.inode ≠ 0 ∧ slot.name ≠ []) ∧ item = (slot.name, slot.inode, slot.fileType) := by
  rw [Dirent.content]
  split
  · next live =>
      rw [Option.some_inj, and_iff_right live]
      exact eq_comm
  · next dead => exact iff_of_false (Option.some_ne_none item ∘ Eq.symm) fun both => dead both.1

/-- Clearing a record of a tiled block. -/
theorem Tiled.clear {block : Block} {before after : List Dirent} {slot : Dirent} {pos : Nat}
    (tiled : Tiled block 0 (before ++ slot :: after) blockSz) (walked : Tiled block 0 before pos) :
    Tiled (Block.clearEntry block pos) 0 (before ++ ([{ slot with inode := 0 }] ++ after))
      blockSz := by
  obtain ⟨valid, isAt, inside⟩ := tiled.at_walked walked
  have width : Ext4DirEntry.record.width = Ext4DirEntry.fixedSize := rfl
  have fits := valid.fits
  have cleared : Block.clearEntry block pos =
      block.store Ext4DirEntry.record pos ({ slot with inode := 0 } : Dirent).entry := by
    rw [Block.clearEntry, isAt.entry]
    rfl
  rw [cleared]
  exact tiled.replace walked
    (fun index outside => Bytes.get_store_outside _ _ _ (by omega)) ⟨⟨fits, valid.aligned,
      valid.short⟩, isAt.store block (by omega) rfl, rfl⟩

/-- Removing a name from a tiled directory. -/
theorem removed_dirRemoveEntry {reserved : Set Nat} {dir : Nat} {volume : Volume}
    {blocks : List (List Dirent)} (mounted : volume.view.Mounted reserved)
    (holds : volume.view.Holds reserved dir blocks) (name : Str) :
    (((volume.view.fs.handle dir).dirRemoveEntry name).run volume = .err .notFound volume ∧
      ∀ item ∈ contents blocks, item.1 ≠ name.bytes) ∨
    ∃ item after, ((volume.view.fs.handle dir).dirRemoveEntry name).run volume =
        .ok item.2.1.toNat after ∧ item.1 = name.bytes ∧
      after.view.held = volume.view.held ∧
      Removed reserved dir volume.view after.view blocks item := by
  rw [run_dirRemoveEntry mounted holds.isInode holds.owning holds.isDir, holds.blockCount_eq]
  have lengthLe := holds.length_le
  have small {l : Nat} (inside : l < blocks.length) : l % 2 ^ 32 = l := Nat.mod_eq_of_lt (by
    simp only [u32Max] at lengthLe
    omega)
  have held {l pblock : Nat} (mapped : mapLogicalBlock (volume.view.extents dir) l = some pblock) :
      volume.disk pblock = volume.view.data pblock :=
    disk_of_owned mounted holds.owning
      (mem_owned.mpr (Or.inl (maps_of_mapLogicalBlock mapped).mem_dataBlocks))
  rcases run_removeFromBlocks volume (volume.view.extents dir) name blocks.length 0 with
    ⟨_, l, pblock, upper, mapped, found⟩ | ⟨failed, missing⟩ |
    ⟨l, pblock, off, upper, mapped, found, ran⟩
  · -- The names of a tiled block lie inside it.
    rw [Nat.zero_add] at upper
    rw [small upper] at mapped
    obtain ⟨slots, _, tiled⟩ := holds.slots_at upper mapped
    rw [held mapped] at found
    rcases findDirent_tiled tiled tiled.length_le name.bytes with ⟨other, _⟩ |
      ⟨_, _, _, _, _, _, _, _, other⟩
    all_goals
      rw [found] at other
      cases other
  · refine Or.inl ⟨failed, ?_⟩
    intro item isItem named
    obtain ⟨slot, isSlot, contentEq⟩ := List.mem_filterMap.mp isItem
    obtain ⟨live, rfl⟩ := Dirent.content_eq_some.mp contentEq
    obtain ⟨slots, isBlock, isMem⟩ := List.mem_flatten.mp isSlot
    obtain ⟨l, inside, rfl⟩ := List.mem_iff_getElem.mp isBlock
    obtain ⟨pblock, _, mapped, _, tiled⟩ := holds.block_at (List.getElem?_eq_getElem inside)
    have found := missing l (Nat.zero_le _) (by omega) pblock (by rw [small inside]; exact mapped)
    rw [held mapped] at found
    rcases findDirent_tiled tiled tiled.length_le name.bytes with ⟨_, absent⟩ |
      ⟨_, _, _, _, _, _, _, _, other⟩
    · exact absent slot isMem ⟨live.1, live.2, named⟩
    · rw [found] at other
      cases other
  · rw [Nat.zero_add] at upper
    rw [small upper] at mapped
    have maps := maps_of_mapLogicalBlock mapped
    obtain ⟨slots, isBlock, tiled⟩ := holds.slots_at upper mapped
    have notBitmap : ¬ volume.fs.IsBitmap pblock := fun isBitmap =>
      holds.owning.outside pblock (mem_owned.mpr (Or.inl maps.mem_dataBlocks))
        (mounted.layout.bitmaps pblock isBitmap)
    rw [held mapped] at found ran
    rcases findDirent_tiled tiled tiled.length_le name.bytes with ⟨other, _⟩ |
      ⟨before, slot, behind, pos, rfl, walked, others, names, located⟩
    · rw [found] at other
      cases other
    · rw [located] at found
      cases found
      obtain ⟨_, isAt, _⟩ := tiled.at_walked walked
      obtain ⟨step, exchanges, inodeEq, _, cleared⟩ := holds.put mounted maps (tiled.clear walked)
      rw [isAt.entry] at ran
      refine Or.inr ⟨(slot.name, slot.inode, slot.fileType), _, ran, names.2.2, ?_⟩
      rw [Volume.view_putBlock (Volume.geometry_view.mp mounted.geometry) notBitmap]
      refine ⟨rfl, step, exchanges, inodeEq, _, cleared, ?_⟩
      obtain ⟨first, last, whole, changed⟩ := contents_set isBlock
        (before ++ ([{ slot with inode := 0 }] ++ behind))
      rw [whole, changed]
      have unused : Dirent.content { slot with inode := 0 } = none :=
        if_neg fun live => live.1 rfl
      refine Inserts.between ⟨before.filterMap Dirent.content, behind.filterMap Dirent.content,
        ?_, ?_⟩ first last
      · rw [List.filterMap_append, List.singleton_append, List.filterMap_cons_none unused]
      · rw [List.filterMap_append, List.filterMap_cons_some
          (Dirent.content_eq_some.mpr ⟨⟨names.1, names.2.1⟩, rfl⟩)]

end Ext4

end OSWorkspace
