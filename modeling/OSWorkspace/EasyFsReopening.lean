import OSWorkspace.EasyFsLookups

/-!
# What runs of easy-fs calls keep

The superblock stays what creation wrote, so that the device can be opened again
at any time, and no data block is lost: the free ones and those that the files
and the directory need for their sizes are always all data blocks.
-/

namespace OSWorkspace

namespace EasyFs

open Exec

/-- The areas lie without gaps from the first block on. -/
structure Layout.Dense (layout : Layout) : Prop where
  inodeBitmap : layout.inodeBitmap.startBlockId = 1
  inodeArea : layout.inodeAreaStartBlock = 1 + layout.inodeBitmap.blocks
  dataBitmap : layout.dataBitmap.startBlockId =
    1 + (layout.inodeBitmap.blocks + layout.inodeBlocks)
  dataArea : layout.dataAreaStartBlock =
    layout.dataBitmap.startBlockId + layout.dataBitmap.blocks

theorem dense_madeLayout {totalBlocks inodeBitmapBlocks : UInt32}
    (fit : InodesFit totalBlocks inodeBitmapBlocks) :
    (madeLayout totalBlocks inodeBitmapBlocks fit).Dense :=
  ⟨rfl, rfl, rfl, rfl⟩

/-- Opening finds the file system that the superblock describes. -/
theorem Layout.run_openVolume {layout : Layout} (dense : layout.Dense) (build : Build)
    {volume : Volume} (unlocked : 0 ∉ volume.locked)
    (superBlock : (volume.disk 0).load SuperBlock.record 0 = layout.superBlock) :
    (EasyFileSystem.openVolume build).run volume = .ok layout.toEasyFileSystem volume := by
  obtain ⟨bitmapStart, areaStart, dataStart, dataArea⟩ := dense
  have dataEnd := layout.dataAreaEnd
  have inWord := layout.inWord
  have bitmapBlocks : (UInt32.ofNat layout.inodeBitmap.blocks).toNat =
      layout.inodeBitmap.blocks := by
    rw [UInt32.toNat_ofNat', Nat.mod_eq_of_lt (by omega)]
  have areaBlocks : (UInt32.ofNat layout.inodeBlocks).toNat = layout.inodeBlocks := by
    rw [UInt32.toNat_ofNat', Nat.mod_eq_of_lt (by omega)]
  have dataBlocks : (UInt32.ofNat layout.dataBitmap.blocks).toNat = layout.dataBitmap.blocks := by
    rw [UInt32.toNat_ofNat', Nat.mod_eq_of_lt (by omega)]
  have isValid : layout.superBlock.isValid = true := beq_self_eq_true efsMagic
  rw [EasyFileSystem.openVolume, run_bind_ok (run_readBlock unlocked), superBlock]
  simp only
  rw [run_bind_ok (run_check isValid _)]
  simp only [Layout.superBlock, bitmapBlocks, areaBlocks, dataBlocks]
  rw [run_bind_ok (build.run_add32 _ (by omega)), run_bind_ok (build.run_add32 _ (by omega)),
    run_bind_ok (build.run_add32 _ (by omega)), run_bind_ok (build.run_add32 _ (by omega)),
    run_pure, ← areaStart, ← dataStart, ← dataArea, ← bitmapStart]

section Made

variable {build : Build} {totalBlocks inodeBitmapBlocks : UInt32} {start made rooted : Volume}
  {fs : EasyFileSystem} {root : Inode} (unlocked : start.locked = [])
  (fit : build.overflowChecks = false → InodesFit totalBlocks inodeBitmapBlocks)
  (created : (EasyFileSystem.create build totalBlocks inodeBitmapBlocks).run start = .ok fs made)
  (isRoot : (fs.rootInode build).run made = .ok root rooted)

include unlocked fit created isRoot

/-- What a creation and the lookup of the root inode that return have given. -/
theorem made_of_run_create : ∃ fits : InodesFit totalBlocks inodeBitmapBlocks,
    fs = madeFileSystem totalBlocks inodeBitmapBlocks ∧ 0 < inodeBitmapBlocks.toNat ∧
      rooted = madeVolume start totalBlocks inodeBitmapBlocks ∧
        root = (madeLayout totalBlocks inodeBitmapBlocks fits).handle 0 := by
  have fits : InodesFit totalBlocks inodeBitmapBlocks := by
    cases checked : build.overflowChecks with
    | false => exact fit checked
    | true => exact inodesFit_of_run_create checked created
  obtain ⟨rfl, someBlock, rfl⟩ := of_run_create unlocked fits created
  rw [Layout.run_rootInode fits] at isRoot
  obtain ⟨rfl, rfl⟩ := Outcome.ok.inj isRoot
  exact ⟨fits, rfl, someBlock, rfl, rfl⟩

end Made

/-- Without an inode area no call returns. -/
theorem eq_of_noArea {fs : EasyFileSystem} {build : Build} {root : Inode}
    {start state : FileState} (noFiles : start.files = [])
    (run : FileRun fs build root (HasInode fs 0) start state) : state = start := by
  induction run with
  | refl => rfl
  | tail _ last ih =>
      subst ih
      obtain ⟨call, hasInode, step⟩ := last
      have noFile {before : FileState} (none : before.files = []) {index : Nat} {file : File}
          (isFile : before.files[index]? = some file) : False := by
        simp [none] at isFile
      cases step with
      | created ran =>
          obtain ⟨index, _, inArea, _⟩ := hasInode
          exact absurd inArea (Nat.not_lt_zero index)
      | existed ran =>
          obtain ⟨index, _, inArea, _⟩ := hasInode
          exact absurd inArea (Nat.not_lt_zero index)
      | wrote isFile ran => exact (noFile noFiles isFile).elim
      | cleared isFile ran => exact (noFile noFiles isFile).elim
      | read isFile small short ran => exact (noFile noFiles isFile).elim

section Kept

variable {build : Build} {totalBlocks inodeBitmapBlocks : UInt32} {start made rooted : Volume}
  {fs : EasyFileSystem} {root : Inode}

/-- After any calls the device is opened as it was made. -/
theorem openVolume_run (unlocked : start.locked = [])
    (fit : build.overflowChecks = false → InodesFit totalBlocks inodeBitmapBlocks)
    (created : (EasyFileSystem.create build totalBlocks inodeBitmapBlocks).run start = .ok fs made)
    (isRoot : (fs.rootInode build).run made = .ok root rooted) {state : FileState}
    (run : FileRun fs build root (fun before call => HasData fs totalBlocks.toNat before call ∧
      HasInode fs (inodeAreaBlocks inodeBitmapBlocks.toNat) before call) ⟨rooted, []⟩ state)
    (later : Build) :
    (EasyFileSystem.openVolume later).run state.volume = .ok fs state.volume ∧
      (fs.rootInode later).run state.volume = .ok root state.volume := by
  obtain ⟨fits, rfl, someBlock, rfl, rfl⟩ := made_of_run_create unlocked fit created isRoot
  refine ⟨?_, Layout.run_rootInode fits state.volume⟩
  by_cases noArea : inodeAreaBlocks inodeBitmapBlocks.toNat = 0
  · obtain rfl := eq_of_noArea rfl (run.mono fun before call condition => noArea ▸ condition.2)
    refine Layout.run_openVolume (dense_madeLayout fits) later ?_ ?_
    · rw [show (madeVolume start totalBlocks inodeBitmapBlocks).locked = [] from unlocked]
      exact List.not_mem_nil
    · rw [Layout.superBlock_madeLayout]
      exact load_madeVolume start someBlock
  · obtain ⟨_, _, tracks⟩ := Layout.exists_tracks
      (Layout.tracks_madeVolume fits unlocked someBlock (Nat.pos_of_ne_zero noArea)) run
    refine Layout.run_openVolume (dense_madeLayout fits) later ?_ tracks.lists.holds.superBlock
    rw [tracks.unlocked]
    exact List.not_mem_nil

theorem inodesFit_packed : InodesFit 32768 1 := by
  rw [InodesFit]
  decide

theorem create_packed (build : Build) {volume : Volume} (unlocked : volume.locked = []) :
    (EasyFileSystem.create build 32768 1).run volume =
      .ok (madeFileSystem 32768 1) (madeVolume volume 32768 1) := by
  rw [run_create build unlocked inodesFit_packed, if_pos ⟨fun _ => by decide, by decide⟩]

theorem rootInode_packed (build : Build) (volume : Volume) :
    ((madeFileSystem 32768 1).rootInode build).run volume = .ok ⟨2, 0⟩ volume :=
  Layout.run_rootInode inodesFit_packed volume

theorem catalogues_packed {volume : Volume} (unlocked : volume.locked = []) :
    (madeLayout 32768 1 inodesFit_packed).Catalogues ⟨2, 0⟩ ⟨madeVolume volume 32768 1, []⟩
      (fun _ => []) (fun _ => []) :=
  ⟨Layout.tracks_madeVolume inodesFit_packed unlocked (by decide) (by decide), List.nodup_nil,
    fun _ isName => absurd isName List.not_mem_nil⟩

theorem card_freeBlocks_packed (volume : Volume) :
    ((madeLayout 32768 1 inodesFit_packed).freeBlocks (madeVolume volume 32768 1).disk).card =
      31734 := by
  rw [Layout.freeBlocks_madeVolume inodesFit_packed volume (by decide) (by decide),
    Layout.dataBlocks, Nat.card_Ico]
  decide

/-- A volume of the packer's size with one file. -/
theorem exists_file_packed : ∃ state : FileState, (∃ file, state.files = [file]) ∧
    FileRun (madeFileSystem 32768 1) ⟨true⟩ ⟨2, 0⟩ (fun before call =>
      HasData (madeFileSystem 32768 1) (32768 : UInt32).toNat before call ∧
        HasInode (madeFileSystem 32768 1) (inodeAreaBlocks (1 : UInt32).toNat) before call)
      ⟨madeVolume blankVolume 32768 1, []⟩ state := by
  have catalogues := catalogues_packed (rfl : blankVolume.locked = [])
  have room : (madeLayout 32768 1 inodesFit_packed).Room
      (madeVolume blankVolume 32768 1).disk 0 :=
    ⟨by decide, by decide, by decide, by rw [card_freeBlocks_packed]; decide⟩
  obtain ⟨_, _, _, _, ran, _⟩ := @Layout.Catalogues.run_create _ _ _ _ _ catalogues ⟨true⟩ room
    ⟨[0x61], rfl⟩ ⟨by decide, by decide⟩ List.not_mem_nil
  exact ⟨_, ⟨_, rfl⟩, Relation.ReflTransGen.single
    ⟨.create ⟨[0x61], rfl⟩, catalogues.hasRoom room _, .created ran⟩⟩

theorem openVolume_run_packed : ∃ state : FileState, (∃ file, state.files = [file]) ∧
    (EasyFileSystem.openVolume ⟨false⟩).run state.volume =
      .ok (madeFileSystem 32768 1) state.volume ∧
    ((madeFileSystem 32768 1).rootInode ⟨false⟩).run state.volume = .ok ⟨2, 0⟩ state.volume := by
  obtain ⟨state, isFile, run⟩ := exists_file_packed
  exact ⟨state, isFile,
    openVolume_run rfl (by simp) (create_packed ⟨true⟩ rfl) (rootInode_packed ⟨true⟩ _) run ⟨false⟩⟩

end Kept

namespace Layout

/-- The data blocks are the free ones and those of the inodes. -/
theorem Holds.card_dataBlocks {layout : Layout} {disk : Nat → Block} {count : Nat}
    {contents : Nat → List UInt8} {owned : Nat → List Nat}
    (holds : layout.Holds disk count contents owned) :
    (layout.freeBlocks disk).card +
        ∑ inodeId ∈ Finset.range count, blocksOf (contents inodeId).length =
      layout.dataBlocks.card := by
  have parts : layout.dataBlocks = layout.freeBlocks disk ∪
      (Finset.range count).biUnion fun inodeId => (owned inodeId).toFinset := by
    ext blockId
    simp only [Finset.mem_union, Finset.mem_biUnion, Finset.mem_range, List.mem_toFinset]
    constructor
    · intro isData
      by_cases isFree : blockId ∈ layout.freeBlocks disk
      · exact Or.inl isFree
      · obtain ⟨inodeId, isInode, isOwned⟩ := holds.kept blockId isData isFree
        exact Or.inr ⟨inodeId, isInode, isOwned⟩
    · rintro (isFree | ⟨inodeId, isInode, isOwned⟩)
      · exact freeBlocks_subset isFree
      · exact holds.data inodeId isInode blockId isOwned
  have apart : Disjoint (layout.freeBlocks disk)
      ((Finset.range count).biUnion fun inodeId => (owned inodeId).toFinset) := by
    rw [Finset.disjoint_right]
    intro blockId isOwned
    obtain ⟨inodeId, isInode, isOwned⟩ := Finset.mem_biUnion.mp isOwned
    exact holds.used inodeId (Finset.mem_range.mp isInode) blockId (List.mem_toFinset.mp isOwned)
  have pairwise : (Finset.range count : Set Nat).PairwiseDisjoint fun inodeId =>
      (owned inodeId).toFinset := by
    intro first isFirst second isSecond differs
    have disjoint := holds.apart first (by simpa using isFirst) second (by simpa using isSecond)
      differs
    rw [Function.onFun, Finset.disjoint_left]
    intro blockId isOwned
    rw [List.mem_toFinset] at isOwned ⊢
    exact fun isOther => disjoint isOwned isOther
  rw [parts, Finset.card_union_of_disjoint apart, Finset.card_biUnion pairwise]
  congr 1
  refine Finset.sum_congr rfl fun inodeId isInode => ?_
  have stores := holds.stores inodeId (Finset.mem_range.mp isInode)
  rw [List.toFinset_card_of_nodup stores.owns.nodup, length_of_stores stores]

/-- The sum over the inodes of the files as one over the files. -/
theorem sum_blocksOf_files {files : List File} {contents : Nat → List UInt8}
    (bytes : ∀ index file, files[index]? = some file → contents (index + 1) = file.bytes) :
    ∑ index ∈ Finset.range files.length, blocksOf (contents (index + 1)).length =
      (files.map fun file => blocksOf file.bytes.length).sum := by
  induction files generalizing contents with
  | nil => rfl
  | cons file files ih =>
      have others := @ih (fun inodeId => contents (inodeId + 1)) fun index other isOther =>
        bytes (index + 1) other (by rw [List.getElem?_cons_succ, isOther])
      rw [List.length_cons, Finset.sum_range_succ', others, List.map_cons, List.sum_cons,
        bytes 0 file (List.getElem?_cons_zero), Nat.add_comm]

theorem Tracks.card_freeBlocks {layout : Layout} {root : Inode} {state : FileState}
    {contents : Nat → List UInt8} {owned : Nat → List Nat}
    (tracks : layout.Tracks root state contents owned) :
    (layout.freeBlocks state.volume.disk).card + blocksOf (direntSz * state.files.length) +
        (state.files.map fun file => blocksOf file.bytes.length).sum =
      layout.dataBlocks.card := by
  have length : state.names.length = state.files.length := List.length_map _
  rw [← tracks.lists.holds.card_dataBlocks, length, Finset.sum_range_succ',
    sum_blocksOf_files tracks.bytes, tracks.lists.length_root, length]
  omega

end Layout

section Conserved

variable {build : Build} {totalBlocks inodeBitmapBlocks : UInt32} {start made rooted : Volume}
  {fs : EasyFileSystem} {root : Inode}

/-- After any calls the free data blocks and those needed for the sizes of the
files and of the directory are as many as there were free at the start. -/
theorem card_freeData_run (unlocked : start.locked = [])
    (fit : build.overflowChecks = false → InodesFit totalBlocks inodeBitmapBlocks)
    (created : (EasyFileSystem.create build totalBlocks inodeBitmapBlocks).run start = .ok fs made)
    (isRoot : (fs.rootInode build).run made = .ok root rooted) {state : FileState}
    (run : FileRun fs build root (fun before call => HasData fs totalBlocks.toNat before call ∧
      HasInode fs (inodeAreaBlocks inodeBitmapBlocks.toNat) before call) ⟨rooted, []⟩ state) :
    (fs.freeData totalBlocks.toNat state.volume.disk).card +
        blocksOf (direntSz * state.files.length) +
          (state.files.map fun file => blocksOf file.bytes.length).sum =
      (fs.freeData totalBlocks.toNat rooted.disk).card := by
  obtain ⟨fits, rfl, someBlock, rfl, rfl⟩ := made_of_run_create unlocked fit created isRoot
  by_cases noArea : inodeAreaBlocks inodeBitmapBlocks.toNat = 0
  · obtain rfl := eq_of_noArea rfl (run.mono fun before call condition => noArea ▸ condition.2)
    have noBlocks : blocksOf (direntSz * 0) = 0 := rfl
    simp only [List.length_nil, noBlocks, List.map_nil, List.sum_nil, Nat.add_zero]
  · have rooted := Nat.pos_of_ne_zero noArea
    obtain ⟨_, _, tracks⟩ := Layout.exists_tracks
      (Layout.tracks_madeVolume fits unlocked someBlock rooted) run
    exact tracks.card_freeBlocks.trans
      (congrArg Finset.card (Layout.freeBlocks_madeVolume fits start someBlock rooted)).symm

theorem card_freeData_run_packed : ∃ state : FileState, (∃ file, state.files = [file]) ∧
    ((madeFileSystem 32768 1).freeData (32768 : UInt32).toNat state.volume.disk).card +
        blocksOf (direntSz * state.files.length) +
          (state.files.map fun file => blocksOf file.bytes.length).sum =
      ((madeFileSystem 32768 1).freeData (32768 : UInt32).toNat
        (madeVolume blankVolume 32768 1).disk).card := by
  obtain ⟨state, isFile, run⟩ := exists_file_packed
  exact ⟨state, isFile,
    card_freeData_run rfl (by simp) (create_packed ⟨true⟩ rfl) (rootInode_packed ⟨true⟩ _) run⟩

end Conserved

end EasyFs

end OSWorkspace
