import OSWorkspace.Ext4NameChanges

/-!
# New directories

A new directory owns one block with two records.  Making it takes an inode number
and the block, and gives both back when the name cannot be entered.
-/

namespace OSWorkspace

namespace Ext4

open Exec View

theorem extentInode_spec (mode links : Nat) {extents : List Ext4Extent}
    (few : extents.length ≤ extentsInInode) :
    (∀ name, name ≠ .iFlags → (Inode.extentInode mode links extents).field name =
      ((Ext4Inode.setIMode Bytes.zeroed mode).setILinksCount links).field name) ∧
    (Inode.extentInode mode links extents).usesExtents = true ∧
    ∀ disk, parseExtentTree disk (Inode.extentInode mode links extents).blockData = extents ∧
      extentTreeBlocks disk (Inode.extentInode mode links extents).blockData = ([], []) := by
  obtain ⟨changed, written, fields, flags, tree⟩ := writeExtentsLeafInInode_ok
    (((Ext4Inode.setIMode Bytes.zeroed mode).setILinksCount links).setIFlags ext4ExtentsFl) few
  have changedEq : Inode.extentInode mode links extents = changed := by
    simp only [Inode.extentInode, written]
  rw [changedEq]
  refine ⟨?_, usesExtents_of_flags flags, tree⟩
  intro name different
  rw [fields name different, Ext4Inode.setIFlags, Ext4Inode.field_setField_of_ne _ _ different]

section DirInode

variable (dataBlock : Nat)

theorem few_single : [Ext4Extent.single 0 dataBlock].length ≤ extentsInInode := by
  rw [List.length_singleton]
  decide

theorem field_dirInode {name : InodeField} (notSize : name ≠ .iSizeLo)
    (notBlocks : name ≠ .iBlocksLo) (notFlags : name ≠ .iFlags) :
    (Inode.dirInode dataBlock).field name =
      ((Ext4Inode.setIMode Bytes.zeroed (sIfdir ||| 0o755)).setILinksCount 2).field name := by
  rw [Inode.dirInode, Ext4Inode.setIBlocksLo, Ext4Inode.field_setField_of_ne _ _ notBlocks,
    Ext4Inode.field_setField_of_ne _ _ notSize]
  exact (extentInode_spec _ _ (few_single dataBlock)).1 name notFlags

theorem isDir_dirInode : (Inode.dirInode dataBlock).isDir = true := by
  have mode := field_dirInode dataBlock (by decide : InodeField.iMode ≠ .iSizeLo) (by decide)
    (by decide)
  rw [(Ext4Inode.kind_congr mode).2.1]
  decide

theorem usesExtents_dirInode : (Inode.dirInode dataBlock).usesExtents = true := by
  have flags : (Inode.dirInode dataBlock).iFlags =
      (Inode.extentInode (sIfdir ||| 0o755) 2 [.single 0 dataBlock]).iFlags := by
    rw [Inode.dirInode, Ext4Inode.setIBlocksLo]
    exact (Ext4Inode.field_setField_of_ne _ _ (by decide)).trans
      (Ext4Inode.field_setField_of_ne _ _ (by decide))
  rw [Ext4Inode.usesExtents_congr flags]
  exact (extentInode_spec _ _ (few_single dataBlock)).2.1

theorem size_dirInode : (Inode.dirInode dataBlock).size = blockSz := by
  have low : (Inode.dirInode dataBlock).iSizeLo = blockSz := by
    rw [Inode.dirInode, Ext4Inode.setIBlocksLo, Ext4Inode.iSizeLo,
      Ext4Inode.field_setField_of_ne _ _ (by decide), Ext4Inode.field_setField_same]
    decide
  have high : (Inode.dirInode dataBlock).iSizeHigh = 0 :=
    (field_dirInode dataBlock (by decide) (by decide) (by decide)).trans (by decide)
  rw [Ext4Inode.size, low, high, Nat.zero_mul, Nat.zero_add]

theorem tree_dirInode (disk : Nat → Block) :
    parseExtentTree disk (Inode.dirInode dataBlock).blockData = [.single 0 dataBlock] ∧
      extentTreeBlocks disk (Inode.dirInode dataBlock).blockData = ([], []) := by
  rw [Inode.dirInode, Ext4Inode.setIBlocksLo, Ext4Inode.blockData_setField,
    Ext4Inode.blockData_setField]
  exact (extentInode_spec _ _ (few_single dataBlock)).2.2 disk

end DirInode

/-- The block of a new directory. -/
def dotsBlock (inodeNum parent : Nat) : Block :=
  Block.putEntry (Block.putEntry .zeroed 0 12 inodeNum Ext4DirEntry.ftDir .dot) 12 (blockSz - 12)
    parent Ext4DirEntry.ftDir .dotDot

def dotsSlots (inodeNum parent : Nat) : List Dirent :=
  [⟨UInt32.ofNat inodeNum, 12, Ext4DirEntry.ftDir, Str.dot.bytes⟩,
    ⟨UInt32.ofNat parent, blockSz - 12, Ext4DirEntry.ftDir, Str.dotDot.bytes⟩]

theorem Dirent.valid_of_name {recLen : Nat} {name : Str}
    (fits : Ext4DirEntry.fixedSize + name.len ≤ recLen) (aligned : recLen % 4 = 0)
    (short : name.len ≤ ext4NameLen) (inodeNum : UInt32) (fileType : UInt8) :
    Dirent.Valid ⟨inodeNum, recLen, fileType, name.bytes⟩ :=
  ⟨fits, aligned, short⟩

theorem tiled_dotsBlock (inodeNum parent : Nat) :
    Tiled (dotsBlock inodeNum parent) 0 (dotsSlots inodeNum parent) blockSz := by
  have first : Tiled (Block.putEntry .zeroed 0 12 inodeNum Ext4DirEntry.ftDir .dot) 0
      [⟨UInt32.ofNat inodeNum, 12, Ext4DirEntry.ftDir, Str.dot.bytes⟩] 12 :=
    ⟨Dirent.valid_of_name (by decide) (by decide) (by decide) _ _,
      Block.putEntry_at _ _ _ (by decide) (by decide), rfl⟩
  have second : Tiled (dotsBlock inodeNum parent) 12
      [⟨UInt32.ofNat parent, blockSz - 12, Ext4DirEntry.ftDir, Str.dotDot.bytes⟩] blockSz :=
    ⟨Dirent.valid_of_name (by decide) (by decide) (by decide) _ _,
      Block.putEntry_at _ _ _ (by decide) (by decide), rfl⟩
  refine Tiled.append.mpr ⟨12, first.congr fun index _ below => ?_, second⟩
  exact Block.get_putEntry _ _ _ (by decide) (Or.inl below)

/-- A view in which an inode is that of a new directory, and its block is written. -/
structure View.NewDirectory (view : View) (inodeNum parent dataBlock : Nat) : Prop where
  small : dataBlock < 2 ^ 48
  inode : view.inode inodeNum = Inode.dirInode dataBlock
  data : view.data dataBlock = dotsBlock inodeNum parent

theorem Tidy.single (dataBlock : Nat) : Tidy [Ext4Extent.single 0 dataBlock] := by
  refine ⟨List.pairwise_singleton _ _, ?_, ?_⟩
  · intro extent isMem
    rw [List.mem_singleton.mp isMem, Ext4Extent.start_single (by decide), len_single]
    decide
  · intro extent isMem
    rw [List.mem_singleton.mp isMem]
    exact (by decide : (1 : UInt16).toNat < 0x8000)

namespace View.NewDirectory

variable {view : View} {inodeNum parent dataBlock : Nat}
  (made : view.NewDirectory inodeNum parent dataBlock)

include made

theorem extents_eq : view.extents inodeNum = [.single 0 dataBlock] := by
  rw [View.extents, made.inode, if_pos (usesExtents_dirInode dataBlock)]
  exact (tree_dirInode dataBlock view.data).1

theorem maps_iff {lblock pblock : Nat} :
    Maps (view.extents inodeNum) lblock pblock ↔ lblock = 0 ∧ pblock = dataBlock := by
  rw [made.extents_eq, Maps]
  simp only [List.mem_singleton, exists_eq_left]
  rw [Ext4Extent.Covers, Ext4Extent.start_single (by decide), len_single,
    Ext4Extent.startBlock_single _ made.small]
  omega

theorem owned_eq : view.owned inodeNum = [dataBlock] := by
  have noTree : view.tree inodeNum = [] := by
    rw [View.tree, made.inode, treeBlocks, (tree_dirInode dataBlock view.data).2]
    rfl
  have blocksEq : (Ext4Extent.single 0 dataBlock).blocks = [dataBlock] := by
    rw [blocks_of_short (show (1 : UInt16).toNat < 0x8000 by decide), len_single,
      Ext4Extent.startBlock_single _ made.small]
    rfl
  rw [View.owned, noTree, made.extents_eq, dataBlocks]
  simp [blocksEq]

theorem tidy : Tidy (view.extents inodeNum) := by
  rw [made.extents_eq]
  exact Tidy.single dataBlock

end View.NewDirectory

section NewDirectory

variable {reserved members : Set Nat} {view : View} {inodeNum parent dataBlock : Nat}
  (made : view.NewDirectory inodeNum parent dataBlock) (apart : view.Apart reserved members)
  (isMember : inodeNum ∈ members) (parentMember : parent ∈ members)

include made apart isMember

theorem View.NewDirectory.holds (uncached : view.dirIndexCache[inodeNum]? = none) :
    view.Holds reserved inodeNum [dotsSlots inodeNum parent] := by
  have resident := apart.resident inodeNum isMember
  have size : (view.inode inodeNum).size = blockSz := by
    rw [made.inode, size_dirInode]
  have first {lblock : Nat} (inside : lblock * blockSz < blockSz) : lblock = 0 := by
    simp only [blockSz] at inside
    omega
  refine ⟨⟨resident.isInode, resident.inUse, resident.owning, resident.coherent,
    by rw [made.inode, isDir_dirInode], by rw [made.inode, usesExtents_dirInode],
    made.tidy.ordered, made.tidy.bounded, ?_, numbers_of_built uncached⟩, ?_, ?_⟩
  · intro lblock inside
    rw [size] at inside
    exact ⟨dataBlock, made.maps_iff.mpr ⟨first inside, rfl⟩⟩
  · rw [size, List.length_singleton, Nat.one_mul]
  · intro lblock slots isBlock
    obtain ⟨inside, rfl⟩ := List.getElem?_eq_some_iff.mp isBlock
    obtain rfl : lblock = 0 := by simpa using inside
    refine ⟨dataBlock, made.maps_iff.mpr ⟨rfl, rfl⟩, ?_⟩
    rw [made.data]
    exact tiled_dotsBlock inodeNum parent

include parentMember

/-- A new directory has the two entries of its block. -/
theorem View.NewDirectory.branch (uncached : view.dirIndexCache[inodeNum]? = none) :
    view.Branch reserved members inodeNum [dotsSlots inodeNum parent] ∧
      ∀ binding, binding ∈ view.entries inodeNum ↔
        binding = ⟨.dot, inodeNum, Ext4DirEntry.ftDir⟩ ∨
          binding = ⟨.dotDot, parent, Ext4DirEntry.ftDir⟩ := by
  have geometry := apart.mounted.geometry
  have isInode := (apart.resident inodeNum isMember).isInode
  have isParent := (apart.resident parent parentMember).isInode
  have holds := made.holds apart isMember uncached
  have contentsEq : contents [dotsSlots inodeNum parent] =
      [(Str.dot.bytes, UInt32.ofNat inodeNum, Ext4DirEntry.ftDir),
        (Str.dotDot.bytes, UInt32.ofNat parent, Ext4DirEntry.ftDir)] := by
    rw [contents, List.flatten_singleton, dotsSlots, List.filterMap_cons_some
      (content_new (by decide) (number_ne_zero geometry isInode) _ _), List.filterMap_cons_some
      (content_new (by decide) (number_ne_zero geometry isParent) _ _), List.filterMap_nil]
  have mem (binding : DirBinding) : binding ∈ view.entries inodeNum ↔
      binding = ⟨.dot, inodeNum, Ext4DirEntry.ftDir⟩ ∨
        binding = ⟨.dotDot, parent, Ext4DirEntry.ftDir⟩ := by
    rw [holds.mem_contents, contentsEq]
    constructor
    · rintro ⟨number, numberEq, isItem⟩
      simp only [List.mem_cons, Prod.mk.injEq, List.not_mem_nil, or_false] at isItem
      rcases isItem with ⟨isName, rfl, isType⟩ | ⟨isName, rfl, isType⟩
      · left
        rw [DirBinding.mk.injEq]
        exact ⟨Str.bytes_injective isName,
          numberEq.trans (toNat_ofNat_isInode geometry isInode), isType⟩
      · right
        rw [DirBinding.mk.injEq]
        exact ⟨Str.bytes_injective isName,
          numberEq.trans (toNat_ofNat_isInode geometry isParent), isType⟩
    · rintro (rfl | rfl)
      · exact ⟨_, (toNat_ofNat_isInode geometry isInode).symm, List.mem_cons_self⟩
      · exact ⟨_, (toNat_ofNat_isInode geometry isParent).symm,
          List.mem_cons_of_mem _ List.mem_cons_self⟩
  have edited : view.Edited reserved inodeNum [dotsSlots inodeNum parent] [] := by
    refine ⟨holds, ?_, made.tidy, ?_⟩
    · rw [contentsEq]
      exact (by decide : [Str.dot.bytes, Str.dotDot.bytes].Nodup)
    · intro index cached
      rw [uncached] at cached
      cases cached
  refine ⟨?_, mem⟩
  refine @View.Edited.branch reserved members inodeNum _ _ view edited apart view.dirIndexCache
    ?_ isMember ?_ ?_
  · intro index cached
    rw [uncached] at cached
    cases cached
  · intro binding isEntry
    rcases (mem binding).mp isEntry with rfl | rfl
    · exact isMember
    · exact parentMember
  · intro binding isEntry notDot notDotDot
    rcases (mem binding).mp isEntry with rfl | rfl
    · exact absurd rfl notDot
    · exact absurd rfl notDotDot

end NewDirectory

/-- The rest of a `createDir` behind its check. -/
def makeDir (self : Inode) (name : Str) : Call Inode := do
  let inodeNum ← okOr (← allocInode) .noSpace
  inodeCachesInvalidate inodeNum
  let dataBlock ← okOr (← allocBlock) .noSpace
  let (blockId, offset) ← expect ((← get).fs.getInodePos inodeNum)
  writeBlock dataBlock .zeroed
  dirWriteEntryAt dataBlock 0 12 inodeNum Ext4DirEntry.ftDir .dot
  dirWriteEntryAt dataBlock 12 (blockSz - 12) self.inodeNum Ext4DirEntry.ftDir .dotDot
  writeInode inodeNum (Inode.dirInode dataBlock)
  self.enterNewInode name inodeNum Ext4DirEntry.ftDir (deallocBlock dataBlock)
  self.modifyDiskInode fun inode =>
    inode.setILinksCount (min (inode.iLinksCount + 1) Inode.linksMax)
  return ⟨inodeNum, blockId, offset⟩

theorem createDir_eq (self : Inode) (name : Str) :
    self.createDir name = (do
      self.checkNewName name
      makeDir self name) :=
  rfl

section Taking

variable {reserved members : Set Nat} {view : View} (apart : view.Apart reserved members)

include apart

/-- Blocks that are free belong to no member. -/
theorem View.Apart.spares_of_hold {blockId : Nat} (free : blockId ∉ view.held .block)
    (block : Block) :
    Spares reserved members view ((view.hold .block blockId).put blockId block) := by
  have grows : ∀ other ∈ view.held .block,
      other ∈ ((view.hold .block blockId).put blockId block).held .block := by
    intro other isHeld
    simp only [View.put, View.hold, Function.update_self]
    exact Or.inr isHeld
  have sameInodes : ((view.hold .block blockId).put blockId block).held .inode =
      view.held .inode := by
    simp [View.put, View.hold]
  refine ⟨rfl, fun other _ isHeld => grows other isHeld, ?_, ?_, fun _ _ _ found => Or.inl found,
    fun _ _ _ found => Or.inl found⟩
  · intro inodeNum isMember
    have resident := apart.resident inodeNum isMember
    refine (@FileStep.of_frame reserved inodeNum view
      ((view.hold .block blockId).put blockId block) apart.mounted resident.isInode
      resident.owning resident.coherent rfl sameInodes grows ?_ rfl rfl).2
    intro other isHeld
    refine Function.update_of_ne ?_ _ _
    rintro rfl
    exact free isHeld
  · intro inodeNum _ inUse
    rw [sameInodes]
    exact inUse

end Taking

/-- Giving back a block that no member owns. -/
theorem View.spares_of_release {reserved members : Set Nat} {view : View} {blockId : Nat}
    (notReserved : blockId ∉ reserved)
    (notOwned : ∀ inodeNum ∈ members, blockId ∉ view.owned inodeNum) :
    Spares reserved members view (view.release .block blockId) := by
  have kept {other : Nat} (different : other ≠ blockId) (isHeld : other ∈ view.held .block) :
      other ∈ (view.release .block blockId).held .block := by
    simp only [View.release, Function.update_self]
    exact ⟨isHeld, different⟩
  refine ⟨rfl, ?_, ?_, ?_, fun _ _ _ found => Or.inl found, fun _ _ _ found => Or.inl found⟩
  · intro other isReserved isHeld
    refine kept ?_ isHeld
    rintro rfl
    exact notReserved isReserved
  · intro inodeNum isMember
    refine ⟨rfl, fun _ _ => rfl, ?_⟩
    intro other isOwned isHeld
    refine kept ?_ isHeld
    rintro rfl
    exact notOwned inodeNum isMember isOwned
  · intro inodeNum _ inUse
    simpa [View.release] using inUse

/-- The caches of a free number are dropped when it is taken. -/
theorem View.spares_of_number (reserved members : Set Nat) (view : View) (inodeNum : Nat) :
    Spares reserved members view ((view.hold .inode inodeNum).forget inodeNum) := by
  have sameBlocks : ((view.hold .inode inodeNum).forget inodeNum).held .block =
      view.held .block := by
    simp [View.forget, View.hold]
  refine ⟨rfl, ?_, ?_, ?_, ?_, ?_⟩
  · intro other _ isHeld
    rw [sameBlocks]
    exact isHeld
  · intro other _
    refine ⟨rfl, fun _ _ => rfl, ?_⟩
    intro blockId _ isHeld
    rw [sameBlocks]
    exact isHeld
  · intro other _ inUse
    simp only [View.forget, View.hold, Function.update_self]
    exact Or.inr inUse
  · intro other _ extents found
    exact Or.inl (getElem?_of_erase found)
  · intro other _ index found
    exact Or.inl (getElem?_of_erase found)

theorem View.take_hold_put (view : View) (inodeNum blockId : Nat) (block : Block)
    (inode : Ext4Inode) :
    ((((view.hold .inode inodeNum).forget inodeNum).hold .block blockId).put blockId
      block).putInode inodeNum inode =
        ((view.hold .block blockId).put blockId block).take inodeNum inode := by
  simp only [View.take, View.hold, View.forget, View.put]
  rw [Function.update_comm (by decide), Function.update_of_ne (by decide),
    Function.update_of_ne (by decide)]

theorem run_dirWriteEntryAt_put (volume : Volume) (blockId : Nat) (block : Block)
    {entryOff recLen : Nat} (inodeNum : Nat) (fileType : UInt8) {name : Str}
    (short : name.len ≤ ext4NameLen) (room : align4 (Ext4DirEntry.fixedSize + name.len) ≤ recLen)
    (inside : entryOff + recLen ≤ blockSz) :
    (dirWriteEntryAt blockId entryOff recLen inodeNum fileType name).run
        (volume.putBlock blockId block) =
      .ok () (volume.putBlock blockId (Block.putEntry block entryOff recLen inodeNum fileType
        name)) := by
  rw [run_dirWriteEntryAt _ _ _ _ _ _ short room, if_pos inside, Volume.putBlock_putBlock]
  congr 3
  exact Function.update_self _ _ _

/-- The dots of a new directory and its inode are written. -/
theorem run_writeDir {reserved : Set Nat} {volume : Volume} (layout : Layout volume.view.fs reserved)
    (geometry : Geometry volume.view.fs) {inodeNum dataBlock : Nat}
    (isInode : volume.view.fs.IsInode inodeNum) (outside : ¬ volume.view.fs.IsBitmap dataBlock)
    (dir : Nat) :
    ∃ taken, taken.view = (volume.view.put dataBlock (dotsBlock inodeNum dir)).putInode inodeNum
        (Inode.dirInode dataBlock) ∧
      ∀ {α : Type} (rest : Call α), (do
        writeBlock dataBlock .zeroed
        dirWriteEntryAt dataBlock 0 12 inodeNum Ext4DirEntry.ftDir .dot
        dirWriteEntryAt dataBlock 12 (blockSz - 12) dir Ext4DirEntry.ftDir .dotDot
        writeInode inodeNum (Inode.dirInode dataBlock)
        rest : Call α).run volume = rest.run taken := by
  have wroteView := Volume.view_putBlock (Volume.geometry_view.mp geometry) outside
    (dotsBlock inodeNum dir)
  have wroteFs : (volume.putBlock dataBlock (dotsBlock inodeNum dir)).view.fs =
      volume.view.fs := by
    rw [wroteView]
    rfl
  rw [← wroteFs] at layout geometry isInode
  obtain ⟨taken, wrote, takenView⟩ := view_writeInode layout geometry isInode
    (Inode.dirInode dataBlock)
  rw [wroteView] at takenView
  refine ⟨taken, takenView, fun rest => ?_⟩
  rw [run_bind_ok (run_writeBlock _ _ _),
    run_bind_ok (run_dirWriteEntryAt_put _ _ _ _ _ (by decide) (by decide) (by decide)),
    run_bind_ok (run_dirWriteEntryAt_put _ _ _ _ _ (by decide) (by decide) (by decide))]
  exact run_bind_ok wrote

/-- What is left of the call once a number and a block are taken and written. -/
theorem run_makeDir_taken {reserved members : Set Nat} {volume : Volume}
    (apart : volume.view.Apart reserved members) (dir : Nat) (name : Str) :
    (∃ error after, (makeDir (volume.view.fs.handle dir) name).run volume = .err error after ∧
      Spares reserved members volume.view after.view ∧
      ¬ (volume.view.HasFreeInode ∧ volume.view.HasFree 1)) ∨
    ∃ inodeNum dataBlock taken, volume.view.fs.IsInode inodeNum ∧
      inodeNum ∉ volume.view.held .inode ∧ volume.view.IsItem .block dataBlock ∧
      dataBlock ∉ volume.view.held .block ∧
      taken.view = ((volume.view.hold .block dataBlock).put dataBlock
        (dotsBlock inodeNum dir)).take inodeNum (Inode.dirInode dataBlock) ∧
      (makeDir (volume.view.fs.handle dir) name).run volume = (do
        (volume.view.fs.handle dir).enterNewInode name inodeNum Ext4DirEntry.ftDir
          (deallocBlock dataBlock)
        (volume.view.fs.handle dir).modifyDiskInode fun inode =>
          inode.setILinksCount (min (inode.iLinksCount + 1) Inode.linksMax)
        return volume.view.fs.handle inodeNum : Call Inode).run taken := by
  have mounted := apart.mounted
  rw [makeDir]
  rcases view_allocInode mounted.geometry with ⟨ran, full⟩ |
    ⟨inodeNum, second, ran, isItem, free, secondView⟩
  · left
    refine ⟨.noSpace, volume, by rw [run_bind_ok ran, run_bind_err (run_okOr_none _ _)],
      Spares.refl _ _ _, ?_⟩
    rintro ⟨⟨item, isItem, free⟩, _⟩
    exact free (full item isItem)
  · obtain ⟨third, invalidated, _, _, thirdView⟩ := run_inodeCachesInvalidate second inodeNum
    rw [secondView] at thirdView
    have sameFs : third.view.fs = volume.view.fs := by
      rw [thirdView]
      rfl
    have sameBlocks : third.view.held .block = volume.view.held .block := by
      rw [thirdView]
      simp [View.forget, View.hold]
    have isInode : volume.view.fs.IsInode inodeNum := View.isInode_iff.mp isItem
    have thirdGeometry : Geometry third.view.fs := by
      rw [sameFs]
      exact mounted.geometry
    rcases view_allocBlock thirdGeometry with ⟨ranBlock, full⟩ |
      ⟨dataBlock, fourth, ranBlock, isBlock, freeBlock, fourthView⟩
    · left
      refine ⟨.noSpace, third, ?_, ?_, ?_⟩
      · rw [run_bind_ok ran, run_bind_ok (run_okOr_some _ _ _), run_bind_ok invalidated,
          run_bind_ok ranBlock, run_bind_err (run_okOr_none _ _)]
      · rw [thirdView]
        exact View.spares_of_number reserved members volume.view inodeNum
      · rintro ⟨_, hasFree⟩
        refine @View.not_hasFree_of_full volume.view [] 1 Nat.one_pos (fun item isItem => ?_)
          hasFree
        rw [← sameBlocks]
        exact Or.inl (full item (by rw [View.IsItem, sameFs]; exact isItem))
    · right
      have isItemBlock : volume.view.IsItem .block dataBlock := by
        rw [thirdView] at isBlock
        exact isBlock
      rw [sameBlocks] at freeBlock
      have fourthFs : fourth.view.fs = volume.view.fs := by
        rw [fourthView]
        exact sameFs
      have layout := mounted.layout
      have geometry := mounted.geometry
      have isFourth := isInode
      have outside := (mounted.guarded.fresh isItemBlock freeBlock).2.1
      rw [← fourthFs] at layout geometry isFourth outside
      obtain ⟨taken, takenView, wrote⟩ := run_writeDir layout geometry isFourth outside dir
      have position : fourth.fs.getInodePos inodeNum = some _ :=
        (layout.handle_spec geometry isFourth).1
      rw [fourthView, thirdView, View.take_hold_put] at takenView
      refine ⟨inodeNum, dataBlock, taken, isInode, free, isItemBlock, freeBlock, takenView, ?_⟩
      rw [run_bind_ok ran, run_bind_ok (run_okOr_some _ _ _), run_bind_ok invalidated,
        run_bind_ok ranBlock, run_bind_ok (run_okOr_some _ _ _), run_bind_ok (run_get _), position,
        run_bind_ok (run_expect_some _ _)]
      refine (wrote _).trans ?_
      rw [← fourthFs]
      rfl

section Relinking

variable {reserved members : Set Nat} {dir : Nat} {blocks : List (List Dirent)}
  {entries : List DirBinding}

/-- An edited directory whose cached index is that of its entries. -/
theorem View.Edited.settled {view : View} (edited : view.Edited reserved dir blocks entries)
    (sameEntries : view.entries dir = entries) (apart : view.Apart reserved members)
    (isMember : dir ∈ members) (inside : ∀ binding ∈ entries, binding.inodeNum ∈ members)
    (proper : ∀ binding ∈ entries, binding.name ≠ .dot → binding.name ≠ .dotDot →
      binding.inodeNum ≠ dir) : view.Branch reserved members dir blocks := by
  subst sameEntries
  exact edited.branch apart edited.cached isMember inside proper

/-- Rewriting the inode of a directory without touching its map. -/
theorem View.Edited.rewrite {volume : Volume}
    (edited : volume.view.Edited reserved dir blocks entries)
    (apart : volume.view.Apart reserved members) (isMember : dir ∈ members)
    {change : Ext4Inode → Ext4Inode}
    (blockData : (change (volume.view.inode dir)).blockData =
      (volume.view.inode dir).blockData)
    (usesExtents : (change (volume.view.inode dir)).usesExtents =
      (volume.view.inode dir).usesExtents)
    (isDir : (change (volume.view.inode dir)).isDir = true)
    (sameSize : (change (volume.view.inode dir)).size = (volume.view.inode dir).size) :
    ∃ after, ((volume.view.fs.handle dir).modifyDiskInode change).run volume = .ok () after ∧
      Passage reserved members members (members \ {dir}) volume.view after.view ∧
      after.view.Edited reserved dir blocks entries ∧
      after.view.entries dir = volume.view.entries dir := by
  have holds := edited.toHolds
  obtain ⟨after, ran, passage, revised, _, sameIndexes⟩ :=
    passage_modifyDiskInode apart isMember blockData usesExtents (Ext4Inode.typed_of_isDir isDir)
  have resident := passage.apart.resident dir isMember
  have agree {blockId : Nat} (isData : blockId ∈ dataBlocks (volume.view.extents dir)) :=
    revised.data blockId (mem_owned.mpr (Or.inl isData))
  have afterSize : (after.view.inode dir).size = (volume.view.inode dir).size := by
    rw [revised.inode, sameSize]
  have sameEntries : after.view.entries dir = volume.view.entries dir := by
    rw [View.entries, View.entries, afterSize,
      entriesFrom_congr revised.extents fun blockId isData => agree isData]
  have sameIndex : after.view.dirIndex dir = volume.view.dirIndex dir := by
    rw [View.dirIndex, View.dirIndex, sameIndexes, sameEntries]
  refine ⟨after, ran, passage, ⟨⟨⟨resident.isInode, resident.inUse, resident.owning,
    resident.coherent, ?_, ?_, ?_, ?_, ?_, ?_⟩, ?_, ?_⟩, edited.distinct, ?_, ?_⟩, sameEntries⟩
  · rw [revised.inode]
    exact isDir
  · rw [revised.inode, usesExtents]
    exact holds.usesExtents
  · rw [revised.extents]
    exact holds.ordered
  · rw [revised.extents]
    exact holds.bounded
  · rw [afterSize, revised.extents]
    exact holds.mapped
  · rw [sameIndex]
    exact holds.numbers
  · rw [afterSize]
    exact holds.whole
  · intro lblock slots isBlock
    obtain ⟨pblock, maps, tiled⟩ := holds.tiled lblock slots isBlock
    refine ⟨pblock, by rw [revised.extents]; exact maps, ?_⟩
    rw [agree maps.mem_dataBlocks]
    exact tiled
  · rw [revised.extents]
    exact edited.tidy
  · rw [sameIndexes]
    exact edited.cached

theorem View.Edited.relink {volume : Volume}
    (edited : volume.view.Edited reserved dir blocks entries)
    (apart : volume.view.Apart reserved members) (isMember : dir ∈ members)
    (count : Ext4Inode → Nat) :
    ∃ after, ((volume.view.fs.handle dir).modifyDiskInode fun inode =>
        inode.setILinksCount (count inode)).run volume = .ok () after ∧
      Passage reserved members members (members \ {dir}) volume.view after.view ∧
      after.view.Edited reserved dir blocks entries ∧
      after.view.entries dir = volume.view.entries dir := by
  obtain ⟨blockData, usesExtents, sameMode, sameSize⟩ := Ext4Inode.setILinksCount_spec
    (volume.view.inode dir) (count (volume.view.inode dir))
  have isDir : ((volume.view.inode dir).setILinksCount
      (count (volume.view.inode dir))).isDir = true := by
    rw [(Ext4Inode.kind_congr sameMode).2.1]
    exact edited.toHolds.isDir
  exact @View.Edited.rewrite reserved members dir blocks entries volume edited apart isMember
    (fun inode => inode.setILinksCount (count inode)) blockData usesExtents isDir sameSize

end Relinking

/-- The number and the block of a new directory are taken, and it is written. -/
theorem View.Apart.passage_takeDir {reserved members : Set Nat} {view : View}
    (apart : view.Apart reserved members) {dir : Nat} (dirMember : dir ∈ members)
    {inodeNum dataBlock : Nat} (isInode : view.fs.IsInode inodeNum)
    (free : inodeNum ∉ view.held .inode) (isBlock : view.IsItem .block dataBlock)
    (freeBlock : dataBlock ∉ view.held .block) {taken : View}
    (takenView : taken = ((view.hold .block dataBlock).put dataBlock
      (dotsBlock inodeNum dir)).take inodeNum (Inode.dirInode dataBlock)) :
    Passage reserved members (insert inodeNum members) members view taken ∧
      taken.Branch reserved (insert inodeNum members) inodeNum [dotsSlots inodeNum dir] ∧
      ∀ binding, binding ∈ taken.entries inodeNum ↔
        binding = ⟨.dot, inodeNum, Ext4DirEntry.ftDir⟩ ∨
          binding = ⟨.dotDot, dir, Ext4DirEntry.ftDir⟩ := by
  have mounted := apart.mounted
  have notMember := apart.not_mem free
  subst takenView
  have inodeEq : (((view.hold .block dataBlock).put dataBlock (dotsBlock inodeNum dir)).take
      inodeNum (Inode.dirInode dataBlock)).inode inodeNum = Inode.dirInode dataBlock :=
    @inode_putInode_same ((((view.hold .block dataBlock).put dataBlock
      (dotsBlock inodeNum dir)).hold .inode inodeNum).forget inodeNum) reserved mounted.layout
      mounted.geometry inodeNum isInode _
  have dataEq : (((view.hold .block dataBlock).put dataBlock (dotsBlock inodeNum dir)).take
      inodeNum (Inode.dirInode dataBlock)).data dataBlock = dotsBlock inodeNum dir :=
    (@data_putInode ((((view.hold .block dataBlock).put dataBlock
      (dotsBlock inodeNum dir)).hold .inode inodeNum).forget inodeNum) reserved mounted.layout
      mounted.geometry inodeNum isInode _ dataBlock (mounted.not_reserved freeBlock)).trans
      (Function.update_self _ _ _)
  have made : (((view.hold .block dataBlock).put dataBlock (dotsBlock inodeNum dir)).take inodeNum
      (Inode.dirInode dataBlock)).NewDirectory inodeNum dir dataBlock :=
    ⟨(mounted.guarded.fresh isBlock freeBlock).2.2, inodeEq, dataEq⟩
  have passage := apart.passage_take (apart.spares_of_hold freeBlock (dotsBlock inodeNum dir))
    (List.nodup_singleton dataBlock) (by simpa using freeBlock) (by
      intro blockId
      simp only [View.put, View.hold, Function.update_self, List.mem_singleton]
      exact Or.comm) isInode notMember
    (Ext4Inode.typed_of_isDir (isDir_dirInode dataBlock)) made.owned_eq
  have uncached : (((view.hold .block dataBlock).put dataBlock (dotsBlock inodeNum dir)).take
      inodeNum (Inode.dirInode dataBlock)).dirIndexCache[inodeNum]? = none := by
    simp [View.take, View.forget, View.hold, View.put, View.putInode]
  obtain ⟨branch, mem⟩ := made.branch passage.apart (Set.mem_insert _ _)
    (Set.mem_insert_of_mem _ dirMember) uncached
  exact ⟨passage, branch, mem⟩

/-- What was taken for a directory that cannot be entered is given back. -/
theorem spares_of_abandonedDir {reserved members : Set Nat} {volume : Volume}
    (mounted : volume.view.Mounted reserved) {inodeNum dataBlock : Nat}
    (isInode : volume.view.fs.IsInode inodeNum) (notMember : inodeNum ∉ members)
    (isBlock : volume.view.IsItem .block dataBlock) (notReserved : dataBlock ∉ reserved)
    (notOwned : ∀ other ∈ members, dataBlock ∉ volume.view.owned other) (error : Ext4Error) :
    ∃ after, (do
        deallocBlock dataBlock
        deallocInode inodeNum
        throw error : Call Unit).run volume = .err error after ∧
      Spares reserved members volume.view after.view := by
  obtain ⟨middle, freed, middleView⟩ := view_deallocBlock mounted.geometry isBlock
  have released := View.spares_of_release notReserved notOwned
  rw [← middleView] at released
  obtain ⟨after, given, spares⟩ := @spares_of_deallocInode reserved members middle inodeNum
    (released.mounted mounted) (by rw [released.fs]; exact isInode) notMember
  refine ⟨after, ?_, released.trans spares⟩
  rw [run_bind_ok freed, run_bind_ok given, run_throw]

/-- Making a directory under a new name. -/
theorem passage_makeDir {reserved members : Set Nat} {dir : Nat} {volume : Volume}
    {blocks : List (List Dirent)} (apart : volume.view.Apart reserved members)
    (branch : volume.view.Branch reserved members dir blocks) {name : Str}
    (enters : Enters volume.view dir name) :
    (∃ inodeNum after changed slots,
      (makeDir (volume.view.fs.handle dir) name).run volume =
        .ok (volume.view.fs.handle inodeNum) after ∧
      inodeNum ∉ members ∧
      Passage reserved members (insert inodeNum members) (members \ {dir}) volume.view after.view ∧
      after.view.Branch reserved (insert inodeNum members) dir changed ∧
      (∀ binding, binding ∈ after.view.entries dir ↔
        binding = ⟨name, inodeNum, Ext4DirEntry.ftDir⟩ ∨ binding ∈ volume.view.entries dir) ∧
      after.view.Branch reserved (insert inodeNum members) inodeNum slots ∧
      ∀ binding, binding ∈ after.view.entries inodeNum ↔
        binding = ⟨.dot, inodeNum, Ext4DirEntry.ftDir⟩ ∨
          binding = ⟨.dotDot, dir, Ext4DirEntry.ftDir⟩) ∨
    ∃ error after, (makeDir (volume.view.fs.handle dir) name).run volume = .err error after ∧
      Spares reserved members volume.view after.view ∧
      ¬ (volume.view.HasFreeInode ∧ volume.view.Roomy dir 1) := by
  rcases run_makeDir_taken apart dir name with ⟨error, after, failed, spares, full⟩ |
    ⟨inodeNum, dataBlock, taken, isInode, free, isBlock, freeBlock, takenView, rest⟩
  · exact Or.inr ⟨error, after, failed, spares,
      fun room => full ⟨room.1, room.2.free.mono (by omega)⟩⟩
  · have notMember := apart.not_mem free
    have dirMember := branch.member
    have different : inodeNum ≠ dir := by
      rintro rfl
      exact notMember dirMember
    obtain ⟨taking, newBranch, newMem⟩ := apart.passage_takeDir dirMember isInode free isBlock
      freeBlock takenView
    have takenBranch := branch.spared taking.apart taking.spares dirMember
      (fun binding isEntry => Or.inr (branch.inside binding isEntry)) (Or.inr dirMember)
    have sameEntries := (taking.spares.unchanged dir dirMember).entries_eq
    have takenFs := taking.spares.fs
    have entry := passage_enterNewInode taking.apart takenBranch
      (branch.enters takenBranch sameEntries enters) (Set.mem_insert _ _) different
      Ext4DirEntry.ftDir (deallocBlock dataBlock)
    rw [takenFs, sameEntries] at entry
    rw [rest]
    rcases entry with ⟨entered, changed, entering, passage, enteredBranch, mem⟩ |
      ⟨error, failed, spares, crowded, ended⟩
    · left
      have enteredFs := passage.spares.fs.trans takenFs
      obtain ⟨after, linking, relinks, edited, afterEntries⟩ := enteredBranch.edited.relink
        passage.apart enteredBranch.member
        fun inode => min (inode.iLinksCount + 1) Inode.linksMax
      rw [enteredFs] at linking
      have afterBranch := edited.settled afterEntries relinks.apart enteredBranch.member
        enteredBranch.inside enteredBranch.toWellFormed.apart
      have following := passage.trans relinks
      rw [Set.inter_self] at following
      have newKept : inodeNum ∈ insert inodeNum members \ {dir} :=
        ⟨Set.mem_insert _ _, different⟩
      have afterNew := newBranch.spared following.apart following.spares newKept newBranch.inside
        newBranch.member
      have whole := taking.trans following
      rw [← Set.inter_sdiff_assoc, Set.inter_eq_left.mpr (Set.subset_insert _ _)] at whole
      refine ⟨inodeNum, after, changed, _, ?_, notMember, whole, afterBranch, ?_, afterNew, ?_⟩
      · rw [run_bind_ok entering, run_bind_ok linking, run_pure]
      · rw [afterEntries]
        exact mem
      · rw [(following.spares.unchanged inodeNum newKept).entries_eq]
        exact newMem
    · right
      have failedFs := spares.fs.trans takenFs
      have kept := spares.mono (Set.subset_insert inodeNum members)
      obtain ⟨after, abandoned, given⟩ := @spares_of_abandonedDir reserved members failed
        (spares.mounted taking.apart.mounted) inodeNum dataBlock (by rw [failedFs]; exact isInode)
        notMember (by rw [View.IsItem, failedFs]; exact isBlock)
        (apart.mounted.not_reserved freeBlock) (by
          intro other isOther isOwned
          rw [(kept.unchanged other isOther).owned_eq,
            (taking.spares.unchanged other isOther).owned_eq] at isOwned
          exact freeBlock ((apart.resident other isOther).owning.held dataBlock isOwned)) error
      refine ⟨error, after, ?_, taking.spares.trans (kept.trans given), ?_⟩
      · apply run_bind_err
        rw [ended, abandoned]
      · rintro ⟨_, roomy⟩
        exact crowded (roomy.taken (taking.spares.unchanged dir dirMember) takenFs isBlock freeBlock
          (by
            intro blockId
            rw [takenView]
            simp [View.take, View.forget, View.putInode, View.put, View.hold]))

/-- The names of a directory besides the dots. -/
def View.names (view : View) (dir : Nat) : List Str :=
  ((view.entries dir).map DirBinding.name).filter fun name => name ≠ .dot ∧ name ≠ .dotDot

theorem View.mem_names {view : View} {dir : Nat} {name : Str} :
    name ∈ view.names dir ↔
      (∃ binding ∈ view.entries dir, binding.name = name) ∧ name ≠ .dot ∧ name ≠ .dotDot := by
  rw [View.names, List.mem_filter, List.mem_map, decide_eq_true_eq]

theorem run_ls {reserved : Set Nat} {dir : Nat} {volume : Volume}
    (mounted : volume.view.Mounted reserved) (directory : volume.view.Directory reserved dir) :
    ∃ after, (volume.view.fs.handle dir).ls.run volume = .ok (volume.view.names dir) after ∧
      Warmed volume after := by
  obtain ⟨after, ran, reread⟩ := run_dirEntries mounted directory
  exact ⟨after, run_bind_ok ran, reread.warmed⟩

section Removing

variable {reserved members : Set Nat} {dir : Nat} {volume : Volume}
  {blocks childBlocks : List (List Dirent)} (apart : volume.view.Apart reserved members)
  (branch : volume.view.Branch reserved members dir blocks) {name : Str}
  (proper : name ≠ .dot ∧ name ≠ .dotDot) {child : Nat} {fileType : UInt8}
  (isEntry : ⟨name, child, fileType⟩ ∈ volume.view.entries dir)
  (childBranch : volume.view.Branch reserved members child childBlocks)

include apart branch proper isEntry childBranch

/-- The call up to the removal of the record. -/
theorem run_unlink_listed : ∃ warm, Warmed volume warm ∧
    ((volume.view.fs.handle dir).unlink name).run volume = (do
      if volume.view.names child ≠ [] then
        throw .unsupported
      else
        let _ ← (volume.view.fs.handle dir).dirRemoveEntry name
        dropDirectory (volume.view.fs.handle dir) (volume.view.fs.handle child) name :
          Call Unit).run warm := by
  obtain ⟨warm, warmed, ran⟩ := run_unlink_found apart.mounted branch.toWellFormed proper
    ((branch.toWellFormed.indexed name child fileType).mpr isEntry)
  have isDirRan := run_isDir_of_warmed apart.mounted warmed
    (apart.resident child childBranch.member).isInode
  rw [childBranch.isDir] at isDirRan
  obtain ⟨listed, lsRan, listing⟩ := run_ls (warmed.mounted apart.mounted)
    (warmed.directory childBranch.toDirectory)
  have sameNames : warm.view.names child = volume.view.names child := by
    rw [View.names, (warmed.unchanged child).entries_eq, View.names]
  rw [warmed.fs_eq, sameNames] at lsRan
  refine ⟨listed, warmed.trans listing, ?_⟩
  rw [ran, run_bind_ok isDirRan]
  simp only [if_true]
  rw [run_bind_ok lsRan]
  by_cases empty : volume.view.names child = []
  · rw [if_neg (not_not_intro empty), if_neg (not_not_intro empty)]
    rfl
  · rw [if_pos empty, if_pos empty]
    rfl

/-- A directory with other names than the dots stays. -/
theorem run_unlink_occupied (occupied : volume.view.names child ≠ []) :
    ∃ after, ((volume.view.fs.handle dir).unlink name).run volume = .err .unsupported after ∧
      Warmed volume after := by
  obtain ⟨warm, warmed, ran⟩ := run_unlink_listed apart branch proper isEntry childBranch
  refine ⟨warm, ?_, warmed⟩
  rw [ran, if_pos occupied, run_throw]

omit apart in
/-- A directory that is dropped gives back its block and its number. -/
theorem passage_dropDirectory {removed : Volume} {changed : List (List Dirent)}
    (passage : Passage reserved members members (members \ {dir}) volume.view removed.view)
    (edited : removed.view.Edited reserved dir changed (volume.view.entries dir))
    (mem : ∀ binding, binding ∈ removed.view.entries dir ↔
      binding ∈ volume.view.entries dir ∧ binding.name ≠ name)
    (only : ∀ binding ∈ volume.view.entries dir, binding.name ≠ name →
      binding.inodeNum ≠ child) :
    ∃ after,
      (dropDirectory (volume.view.fs.handle dir) (volume.view.fs.handle child) name).run removed =
        .ok () after ∧
      Passage reserved members (members \ {child}) (members \ {dir, child}) volume.view
        after.view ∧
      after.view.Branch reserved (members \ {child}) dir changed ∧
      ∀ binding, binding ∈ after.view.entries dir ↔
        binding ∈ volume.view.entries dir ∧ binding.name ≠ name := by
  have different := branch.ne_of_entry proper isEntry
  have childKept : child ∈ members \ {dir} := ⟨childBranch.member, different⟩
  have dirKept : dir ∈ members \ {child} := ⟨branch.member, different.symm⟩
  obtain ⟨lowered, lowering, relinks, loweredEdited, loweredEntries⟩ := edited.relink
    passage.apart branch.member fun inode => inode.iLinksCount - 1
  rw [passage.spares.fs] at lowering
  have first := passage.trans relinks
  rw [Set.inter_self] at first
  have unchanged := first.spares.unchanged child childKept
  have resident := first.apart.resident child childBranch.member
  obtain ⟨dropped, reclaimed, droppedView⟩ := view_reclaimInode first.apart.mounted
    resident.isInode resident.owning
  rw [first.spares.fs] at reclaimed
  have discards := first.apart.passage_discard childBranch.member
    (by rw [unchanged.extents_eq]; exact childBranch.tidy)
  rw [← droppedView] at discards
  have droppedEdited := loweredEdited.spared discards.spares dirKept fun index cached => by
    rw [droppedView] at cached
    exact getElem?_of_erase cached
  have sameEntries := (discards.spares.unchanged dir dirKept).entries_eq
  rw [← loweredEntries, ← sameEntries] at mem
  have inside : ∀ binding ∈ dropped.view.entries dir,
      binding.inodeNum ∈ members \ {child} := by
    intro binding isEntry
    obtain ⟨wasEntry, isOther⟩ := (mem binding).mp isEntry
    exact ⟨branch.inside binding wasEntry, only binding wasEntry isOther⟩
  obtain ⟨after, updated, indexed, afterBranch, afterEntries⟩ := droppedEdited.reindex
    discards.apart (fun index covers => covers.erase mem) dirKept inside
    (fun binding isEntry => branch.toWellFormed.apart binding ((mem binding).mp isEntry).1)
  have whole := (first.trans discards).trans indexed
  refine ⟨after, ?_, ?_, afterBranch, ?_⟩
  · rw [dropDirectory]
    exact (run_bind_ok lowering).trans ((run_bind_ok reclaimed).trans updated)
  · exact ⟨whole.apart, whole.spares.mono (subset_keptBesides members dir child), whole.unowned⟩
  · rw [afterEntries]
    exact mem

/-- Removing an empty directory. -/
theorem passage_unlink_directory (empty : volume.view.names child = [])
    (only : ∀ binding ∈ volume.view.entries dir, binding.name ≠ name →
      binding.inodeNum ≠ child) :
    ∃ after changed, ((volume.view.fs.handle dir).unlink name).run volume = .ok () after ∧
      Passage reserved members (members \ {child}) (members \ {dir, child}) volume.view
        after.view ∧
      after.view.Branch reserved (members \ {child}) dir changed ∧
      ∀ binding, binding ∈ after.view.entries dir ↔
        binding ∈ volume.view.entries dir ∧ binding.name ≠ name := by
  obtain ⟨warm, warmed, ran⟩ := run_unlink_listed apart branch proper isEntry childBranch
  obtain ⟨number, removed, changed, removing, passage, edited, mem⟩ :=
    passage_removeEntry apart branch isEntry warmed
  obtain ⟨after, dropping, drops, afterBranch, afterMem⟩ := passage_dropDirectory branch
    proper isEntry childBranch passage edited mem only
  refine ⟨after, changed, ?_, drops, afterBranch, afterMem⟩
  rw [ran, if_neg (not_not_intro empty), run_bind_ok removing]
  exact dropping

end Removing

end Ext4

end OSWorkspace
