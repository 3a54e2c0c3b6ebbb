import OSWorkspace.EasyFsGrowableFiles

/-!
# Names in the root directory of easy-fs

After any creations, the names are found again, with the inodes that the
creations returned.  This needs names that end before the last byte of their
field: a name that fills it is stored without a zero behind it, and reading its
record panics.
-/

namespace OSWorkspace

namespace EasyFs

open Exec

/-- A directory finds what was created: every name was created once and is found
with its inode, other names are not found, the listing has the names in order,
and further creations that meet a condition return. -/
structure FindsCreated (fs : EasyFileSystem) (build : Build) (root : Inode) (state : FileState)
    (condition : Str → Prop) : Prop where
  once : state.names.Nodup
  finds : ∀ file ∈ state.files,
    (root.find fs build file.name).run state.volume = .ok (some file.inode) state.volume
  others : ∀ name ∉ state.names, (root.find fs build name).run state.volume = .ok none state.volume
  lists : (root.ls build).run state.volume = .ok state.names state.volume
  creates : ∀ name, condition name →
    ∃ result after, (root.create fs build name).run state.volume = .ok result after

/-- The directory finds what was created in every state that is reached by
creations that meet a condition. -/
def AlwaysFinds (fs : EasyFileSystem) (build : Build) (root : Inode) (start : Volume)
    (condition : FileState → Str → Prop) : Prop :=
  ∀ state, FileRun fs build root (fun before call =>
      ∃ name, call = .create name ∧ condition before name) ⟨start, []⟩ state →
    FindsCreated fs build root state (condition state)

/-- The name fits its field, and for a new one there are an inode in the inode
area and the data blocks of the directory. -/
def Creatable (fs : EasyFileSystem) (totalBlocks areaBlocks : Nat) (state : FileState)
    (name : Str) : Prop :=
  DirEntry.Fits name ∧ (name ∉ state.names → HasData fs totalBlocks state (.create name) ∧
    HasInode fs areaBlocks state (.create name))

namespace Layout

/-- The files have different names that fit their fields. -/
structure Catalogues (layout : Layout) (root : Inode) (state : FileState)
    (contents : Nat → List UInt8) (owned : Nat → List Nat) : Prop extends
    layout.Tracks root state contents owned where
  nodup : state.names.Nodup
  fits : ∀ name ∈ state.names, DirEntry.Fits name

section Cataloguing

variable {layout : Layout} {root : Inode} {state next : FileState} {build : Build}
  {contents : Nat → List UInt8} {owned : Nat → List Nat}
  (catalogues : layout.Catalogues root state contents owned)

include catalogues

theorem Catalogues.run_create_again {name : Str} (isName : name ∈ state.names) :
    (root.create layout.toEasyFileSystem build name).run state.volume = .ok none state.volume := by
  rw [catalogues.root]
  exact catalogues.lists.run_create_again catalogues.isOpen build catalogues.fits catalogues.nodup
    isName

/-- Room for one more file is what the calls ask for. -/
theorem Catalogues.hasRoom (room : layout.Room state.volume.disk state.names.length)
    (name : Str) :
    HasData layout.toEasyFileSystem layout.totalBlocks state (.create name) ∧
      HasInode layout.toEasyFileSystem layout.inodeBlocks state (.create name) := by
  obtain ⟨inArea, inBitmap, few, enough⟩ := room
  have length : state.names.length = state.files.length := List.length_map _
  refine ⟨?_, state.names.length + 1, inBitmap, inArea, ?_⟩
  · rw [HasData, ← length]
    exact ⟨few, enough⟩
  · rw [catalogues.lists.holds.inodeBits _ inBitmap]
    exact decide_eq_false (lt_irrefl _)

/-- A new name is created if there is room. -/
theorem Catalogues.run_create (build : Build)
    (room : layout.Room state.volume.disk state.names.length) {name : Str}
    (fits : DirEntry.Fits name) (isNew : name ∉ state.names) :
    ∃ inode after contents owned, (root.create layout.toEasyFileSystem build name).run
        state.volume = .ok (some inode) after ∧
      layout.Catalogues root ⟨after, state.files ++ [⟨name, inode, []⟩]⟩ contents owned := by
  obtain ⟨later, _, ran, lists, _⟩ := catalogues.lists.run_create catalogues.isOpen build room
    catalogues.fits (le_trans fits.1 (by decide)) isNew
  rw [← catalogues.root] at ran
  refine ⟨_, _, _, _, ran, catalogues.append lists, ?_, ?_⟩
  · rw [FileState.names, List.map_append]
    exact List.Nodup.append catalogues.nodup (List.nodup_singleton name)
      (List.disjoint_singleton.mpr isNew)
  · rw [FileState.names, List.map_append]
    intro other isOther
    rcases List.mem_append.mp isOther with isOld | isLast
    · exact catalogues.fits other isOld
    · rw [List.mem_singleton.mp isLast]
      exact fits

/-- A creation adds a new name or leaves the files. -/
theorem Catalogues.step {name : Str}
    (creatable : Creatable layout.toEasyFileSystem layout.totalBlocks layout.inodeBlocks state name)
    (step : FileStep layout.toEasyFileSystem build root state (.create name) next) :
    ∃ contents owned, layout.Catalogues root next contents owned := by
  cases step with
  | created ran =>
      have isNew : name ∉ state.names := by
        intro isName
        have again := ran.symm.trans (catalogues.run_create_again isName)
        cases (Outcome.ok.inj again).1
      obtain ⟨hasData, hasInode⟩ := creatable.2 isNew
      obtain ⟨_, _, _, _, ranCreate, next⟩ :=
        catalogues.run_create build (catalogues.room hasData hasInode) creatable.1 isNew
      obtain ⟨sameInode, sameAfter⟩ := Outcome.ok.inj (ran.symm.trans ranCreate)
      cases sameInode
      rw [sameAfter]
      exact ⟨_, _, next⟩
  | existed ran =>
      rcases catalogues.of_run_create ran with ⟨_, same⟩ | ⟨isSome, _⟩
      · subst same
        exact ⟨contents, owned, catalogues⟩
      · exact absurd rfl isSome

theorem Catalogues.findsCreated (build : Build) :
    FindsCreated layout.toEasyFileSystem build root state
      (Creatable layout.toEasyFileSystem layout.totalBlocks layout.inodeBlocks state) := by
  refine ⟨catalogues.nodup, fun file isFile => ?_, fun name isNew => ?_, ?_,
    fun name creatable => ?_⟩
  · obtain ⟨index, inside, isIndex⟩ := List.mem_iff_getElem.mp isFile
    have isAt : state.files[index]? = some file :=
      List.getElem?_eq_some_iff.mpr ⟨inside, isIndex⟩
    have isName : state.names[index]? = some file.name := by
      rw [FileState.names, List.getElem?_map, isAt, Option.map_some]
    rw [catalogues.root, catalogues.inodes index file isAt]
    exact catalogues.lists.run_find_some catalogues.isOpen build catalogues.fits catalogues.nodup
      isName
  · rw [catalogues.root]
    exact catalogues.lists.run_find_none catalogues.isOpen build catalogues.fits isNew
  · rw [catalogues.root]
    exact catalogues.lists.run_ls catalogues.isOpen build catalogues.fits
  · by_cases isName : name ∈ state.names
    · exact ⟨_, _, catalogues.run_create_again isName⟩
    · obtain ⟨hasData, hasInode⟩ := creatable.2 isName
      obtain ⟨_, _, _, _, ran, _⟩ :=
        catalogues.run_create build (catalogues.room hasData hasInode) creatable.1 isName
      exact ⟨_, _, ran⟩

end Cataloguing

theorem exists_catalogues {layout : Layout} {root : Inode} {start state : FileState}
    {build : Build} {contents : Nat → List UInt8} {owned : Nat → List Nat}
    (catalogues : layout.Catalogues root start contents owned)
    (run : FileRun layout.toEasyFileSystem build root (fun before call => ∃ name,
      call = .create name ∧ Creatable layout.toEasyFileSystem layout.totalBlocks layout.inodeBlocks
        before name) start state) :
    ∃ contents owned, layout.Catalogues root state contents owned := by
  induction run with
  | refl => exact ⟨contents, owned, catalogues⟩
  | tail _ last ih =>
      obtain ⟨_, _, catalogues⟩ := ih
      obtain ⟨_, ⟨name, rfl, creatable⟩, step⟩ := last
      exact catalogues.step creatable step

/-- Without entries nothing is found, and nothing is read but the inode. -/
theorem findsCreated_nil {layout : Layout} {disk : Nat → Block} (build : Build)
    (isDir : (layout.inodeAt disk 0).isDir = true) (empty : (layout.inodeAt disk 0).size = 0)
    {condition : Str → Prop} (none : ∀ name, ¬ condition name) :
    FindsCreated layout.toEasyFileSystem build (layout.handle 0) ⟨⟨disk, []⟩, []⟩ condition := by
  have noEntries : (layout.inodeAt disk 0).size / direntSz = 0 := by rw [empty, Nat.zero_div]
  refine ⟨List.nodup_nil, fun file isFile => absurd isFile List.not_mem_nil, fun name _ => ?_, ?_,
    fun name meets => absurd meets (none name)⟩
  · have notFound : (Inode.findInodeId build name (layout.inodeAt disk 0)).run
        ⟨disk, [layout.slotBlock 0]⟩ = .ok Option.none ⟨disk, [layout.slotBlock 0]⟩ := by
      rw [Inode.findInodeId, run_bind_ok (run_check isDir _), noEntries]
      rfl
    refine run_readDiskInode List.not_mem_nil ?_
    rw [run_bind_ok notFound, run_pure]
  · refine run_readDiskInode List.not_mem_nil ?_
    rw [noEntries]
    rfl

/-- The root inode of a made volume is an empty directory. -/
theorem inodeAt_madeVolume {totalBlocks inodeBitmapBlocks : UInt32}
    (fit : InodesFit totalBlocks inodeBitmapBlocks) (start : Volume) :
    ∃ image : DiskInode, (madeLayout totalBlocks inodeBitmapBlocks fit).inodeAt
      (madeVolume start totalBlocks inodeBitmapBlocks).disk 0 = image.initializeAs .directory :=
  ⟨_, inodeAt_putInode_self (madeLayout totalBlocks inodeBitmapBlocks fit) _ 0 _⟩

end Layout

/-- A made directory finds what was created in it. -/
theorem alwaysFinds_made {build : Build} {totalBlocks inodeBitmapBlocks : UInt32}
    {start made rooted : Volume} {fs : EasyFileSystem} {root : Inode}
    (unlocked : start.locked = [])
    (fit : build.overflowChecks = false → InodesFit totalBlocks inodeBitmapBlocks)
    (created : (EasyFileSystem.create build totalBlocks inodeBitmapBlocks).run start =
      .ok fs made)
    (isRoot : (fs.rootInode build).run made = .ok root rooted) :
    AlwaysFinds fs build root rooted
      (Creatable fs totalBlocks.toNat (inodeAreaBlocks inodeBitmapBlocks.toNat)) := by
  have fits : InodesFit totalBlocks inodeBitmapBlocks := by
    cases checked : build.overflowChecks with
    | false => exact fit checked
    | true => exact inodesFit_of_run_create checked created
  obtain ⟨rfl, someBlock, rfl⟩ := of_run_create unlocked fits created
  rw [Layout.run_rootInode fits] at isRoot
  obtain ⟨rfl, rfl⟩ := Outcome.ok.inj isRoot
  intro state run
  by_cases noArea : inodeAreaBlocks inodeBitmapBlocks.toNat = 0
  · rw [noArea] at run ⊢
    have notCreatable (name : Str) : ¬ Creatable (madeFileSystem totalBlocks inodeBitmapBlocks)
        totalBlocks.toNat 0 ⟨madeVolume start totalBlocks inodeBitmapBlocks, []⟩ name := by
      intro creatable
      obtain ⟨_, _, inArea, _⟩ := (creatable.2 List.not_mem_nil).2
      exact absurd inArea (Nat.not_lt_zero _)
    obtain ⟨image, isImage⟩ := Layout.inodeAt_madeVolume fits start
    have unused := DiskInode.unused_initializeAs image .directory
    have finds := @Layout.findsCreated_nil (madeLayout totalBlocks inodeBitmapBlocks fits)
      (madeVolume start totalBlocks inodeBitmapBlocks).disk build
      (isImage ▸ DiskInode.isDir_initializeAs image .directory) (isImage ▸ unused.size)
      _ notCreatable
    have isVolume : (⟨(madeVolume start totalBlocks inodeBitmapBlocks).disk, []⟩ : Volume) =
        madeVolume start totalBlocks inodeBitmapBlocks := by
      rw [← unlocked]
      rfl
    rw [isVolume] at finds
    rcases Relation.ReflTransGen.cases_head run with rfl | ⟨_, ⟨_, ⟨name, _, creatable⟩, _⟩, _⟩
    · exact finds
    · exact absurd creatable (notCreatable name)
  · obtain ⟨_, _, catalogues⟩ := Layout.exists_catalogues
      ⟨Layout.tracks_madeVolume fits unlocked someBlock (Nat.pos_of_ne_zero noArea),
        List.nodup_nil, fun _ isName => absurd isName List.not_mem_nil⟩ run
    exact catalogues.findsCreated build

theorem alwaysFinds_made_packed :
    AlwaysFinds (madeFileSystem 32768 1) ⟨true⟩ ⟨2, 0⟩ (madeVolume blankVolume 32768 1)
      (Creatable (madeFileSystem 32768 1) (32768 : UInt32).toNat
        (inodeAreaBlocks (1 : UInt32).toNat)) :=
  alwaysFinds_made (rfl : blankVolume.locked = []) (by simp)
    (by rw [run_create ⟨true⟩ rfl (by rw [InodesFit]; decide), if_pos (by decide)])
    (Layout.run_rootInode (by rw [InodesFit]; decide) _)

end EasyFs

end OSWorkspace
