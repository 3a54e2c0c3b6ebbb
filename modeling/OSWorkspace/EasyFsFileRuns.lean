import OSWorkspace.EasyFsDirectories

/-!
# Runs of easy-fs calls

The calls on the files of one volume, in any order, with the bytes that each
file should have.  As long as there is room, every state that is reached holds
the files with these bytes.
-/

namespace OSWorkspace

namespace EasyFs

open Exec

/-- A file: its name, the inode that its creation returned and its bytes. -/
structure File where
  name : Str
  inode : Inode
  bytes : List UInt8

/-- The device and the files in the order of creation. -/
structure FileState where
  volume : Volume
  files : List File

def FileState.names (state : FileState) : List Str := state.files.map File.name

theorem FileState.isInode {state : FileState} {index : Nat} {file : File}
    (isFile : state.files[index]? = some file) : index + 1 < state.names.length + 1 := by
  obtain ⟨inside, _⟩ := List.getElem?_eq_some_iff.mp isFile
  rw [FileState.names, List.length_map]
  omega

/-- A call on the root directory or on a file, by its place in the list. -/
inductive FileCall where
  | create (name : Str)
  | writeAt (index offset : Nat) (buf : List UInt8)
  | clear (index : Nat)
  | readAt (index offset length : Nat)

/-- A call that returns, and what it does to the bytes.  An offset is a machine
word, and a buffer has at most half the address space. -/
inductive FileStep (fs : EasyFileSystem) (build : Build) (root : Inode) :
    FileState → FileCall → FileState → Prop
  | created {state : FileState} {name : Str} {inode : Inode} {after : Volume}
      (ran : (root.create fs build name).run state.volume = .ok (some inode) after) :
      FileStep fs build root state (.create name) ⟨after, state.files ++ [⟨name, inode, []⟩]⟩
  | existed {state : FileState} {name : Str} {after : Volume}
      (ran : (root.create fs build name).run state.volume = .ok none after) :
      FileStep fs build root state (.create name) ⟨after, state.files⟩
  | wrote {state : FileState} {index offset written : Nat} {buf : List UInt8} {file : File}
      {after : Volume} (isFile : state.files[index]? = some file)
      (ran : (file.inode.writeAt fs build offset buf).run state.volume = .ok written after) :
      FileStep fs build root state (.writeAt index offset buf)
        ⟨after, state.files.set index { file with bytes := writtenAt file.bytes offset buf }⟩
  | cleared {state : FileState} {index : Nat} {file : File} {after : Volume}
      (isFile : state.files[index]? = some file)
      (ran : (file.inode.clear fs build).run state.volume = .ok () after) :
      FileStep fs build root state (.clear index)
        ⟨after, state.files.set index { file with bytes := [] }⟩
  | read {state : FileState} {index offset length : Nat} {file : File} {bytes : List UInt8}
      {after : Volume} (isFile : state.files[index]? = some file) (small : offset < 2 ^ 64)
      (short : length < 2 ^ 63)
      (ran : (file.inode.readAt build offset length).run state.volume = .ok bytes after) :
      FileStep fs build root state (.readAt index offset length) ⟨after, state.files⟩

/-- Any number of calls that return and meet a condition. -/
def FileRun (fs : EasyFileSystem) (build : Build) (root : Inode)
    (condition : FileState → FileCall → Prop) : FileState → FileState → Prop :=
  Relation.ReflTransGen fun before after =>
    ∃ call, condition before call ∧ FileStep fs build root before call after

theorem FileRun.mono {fs : EasyFileSystem} {build : Build} {root : Inode}
    {first second : FileState → FileCall → Prop} {start state : FileState}
    (weaker : ∀ before call, first before call → second before call)
    (run : FileRun fs build root first start state) : FileRun fs build root second start state := by
  induction run with
  | refl => exact Relation.ReflTransGen.refl
  | tail _ last ih =>
      obtain ⟨call, condition, step⟩ := last
      exact Relation.ReflTransGen.tail ih ⟨call, weaker _ _ condition, step⟩

/-- The data blocks of the device that are not in use. -/
def EasyFileSystem.freeData (fs : EasyFileSystem) (totalBlocks : Nat) (disk : Nat → Block) :
    Finset Nat :=
  (Finset.Ico fs.dataAreaStartBlock
    (min totalBlocks (fs.dataAreaStartBlock + fs.dataBitmap.maximum))).filter fun blockId =>
      fs.dataBitmap.bit disk (blockId - fs.dataAreaStartBlock) = false

/-- A file can get a new size: it is within the bound, and the free data blocks
suffice. -/
def EasyFileSystem.Suffices (fs : EasyFileSystem) (totalBlocks : Nat) (disk : Nat → Block)
    (size newSize : Nat) : Prop :=
  newSize ≤ sizeBound ∧ blocksOf newSize ≤ blocksOf size + (fs.freeData totalBlocks disk).card

/-- The data blocks suffice for a call that returns. -/
def HasData (fs : EasyFileSystem) (totalBlocks : Nat) (state : FileState) : FileCall → Prop
  | .create _ => fs.Suffices totalBlocks state.volume.disk (direntSz * state.files.length)
      (direntSz * (state.files.length + 1))
  | .writeAt index offset buf => ∀ file, state.files[index]? = some file →
      fs.Suffices totalBlocks state.volume.disk file.bytes.length (offset + buf.length)
  | .clear _ => True
  | .readAt _ _ _ => True

/-- A file is created only while an inode of the inode area is free. -/
def HasInode (fs : EasyFileSystem) (areaBlocks : Nat) (state : FileState) : FileCall → Prop
  | .create _ => ∃ index < fs.inodeBitmap.maximum, index < blockSz / diskInodeSize * areaBlocks ∧
      fs.inodeBitmap.bit state.volume.disk index = false
  | .writeAt _ _ _ => True
  | .clear _ => True
  | .readAt _ _ _ => True

section Returned

variable {fs : EasyFileSystem} {build : Build} {self : Inode} {name : Str} {volume after : Volume}

theorem Inode.of_run_modifyDiskInode {α : Type} {value : α}
    {closure : DiskInode → Call (α × DiskInode)}
    (ran : (self.modifyDiskInode closure).run volume = .ok value after) :
    ∃ inode before result behind, (closure inode).run before = .ok result behind := by
  obtain ⟨_, _, _, ran⟩ := of_run_bind_ok ran
  obtain ⟨_, _, _, ran⟩ := of_run_bind_ok ran
  obtain ⟨_, _, ran, _⟩ := of_run_bind_ok ran
  obtain ⟨_, _, _, ran⟩ := of_run_bind_ok ran
  obtain ⟨_, _, _, ran⟩ := of_run_bind_ok ran
  obtain ⟨_, _, ran, _⟩ := of_run_bind_ok ran
  exact ⟨_, _, _, _, ran⟩

/-- What a creation that returns has done. -/
theorem Inode.of_run_create {result : Option Inode}
    (ran : (self.create fs build name).run volume = .ok result after) :
    ∃ found middle,
      (self.readDiskInode (Inode.findInodeId build name)).run volume = .ok found middle ∧
        (found ≠ none ∧ result = none ∧ after = middle ∨
          found = none ∧ result ≠ none ∧ name.len ≤ nameLengthLimit + 1) := by
  obtain ⟨found, middle, ranFind, ran⟩ := of_run_bind_ok ran
  refine ⟨found, middle, ranFind, ?_⟩
  cases found with
  | some inodeId =>
      cases ran
      exact Or.inl ⟨by simp, rfl, rfl⟩
  | none =>
      obtain ⟨_, _, _, ran⟩ := of_run_bind_ok ran
      obtain ⟨_, _, _, ran⟩ := of_run_bind_ok ran
      obtain ⟨_, _, _, ran⟩ := of_run_bind_ok ran
      obtain ⟨_, _, ranModify, ran⟩ := of_run_bind_ok ran
      obtain ⟨_, _, _, ran⟩ := of_run_bind_ok ran
      cases ran
      obtain ⟨_, _, _, _, ran⟩ := of_run_modifyDiskInode ranModify
      obtain ⟨_, _, _, ran⟩ := of_run_bind_ok ran
      obtain ⟨_, _, ranNew, _⟩ := of_run_bind_ok ran
      refine Or.inr ⟨rfl, by simp, ?_⟩
      by_contra long
      rw [DirEntry.new, run_bind_panic (run_check_panic long _)] at ranNew
      cases ranNew

/-- A reading that returns has not overflowed. -/
theorem Inode.of_run_readAt {offset length : Nat} {bytes : List UInt8}
    (ran : (self.readAt build offset length).run volume = .ok bytes after) :
    build.overflowChecks = true → offset + length < 2 ^ 64 := by
  obtain ⟨_, _, _, ran⟩ := of_run_bind_ok ran
  obtain ⟨_, _, _, ran⟩ := of_run_bind_ok ran
  obtain ⟨_, _, ran, _⟩ := of_run_bind_ok ran
  obtain ⟨_, _, _, ran⟩ := of_run_bind_ok ran
  obtain ⟨_, _, _, ran⟩ := of_run_bind_ok ran
  obtain ⟨_, _, ran, _⟩ := of_run_bind_ok ran
  obtain ⟨_, _, ran, _⟩ := of_run_bind_ok ran
  exact (of_run_check ran).1

end Returned

namespace Layout

/-- The volume holds the files with their bytes. -/
structure Tracks (layout : Layout) (root : Inode) (state : FileState)
    (contents : Nat → List UInt8) (owned : Nat → List Nat) : Prop where
  unlocked : state.volume.locked = []
  root : root = layout.handle 0
  lists : layout.Lists state.volume.disk state.names contents owned
  inodes : ∀ index file, state.files[index]? = some file →
    file.inode = layout.handle (index + 1)
  bytes : ∀ index file, state.files[index]? = some file → contents (index + 1) = file.bytes

section Tracking

variable {layout : Layout} {root : Inode} {state next : FileState} {build : Build}
  {contents : Nat → List UInt8} {owned : Nat → List Nat}
  (tracks : layout.Tracks root state contents owned)

include tracks

theorem Tracks.isOpen : layout.Open state.volume.locked := by
  rw [tracks.unlocked]
  exact fun _ _ => List.not_mem_nil

theorem Tracks.room {name : Str}
    (hasData : HasData layout.toEasyFileSystem layout.totalBlocks state (.create name))
    (hasInode : HasInode layout.toEasyFileSystem layout.inodeBlocks state (.create name)) :
    layout.Room state.volume.disk state.names.length := by
  obtain ⟨index, inBitmap, inArea, isFree⟩ := hasInode
  have bit := tracks.lists.holds.inodeBits index inBitmap
  rw [isFree] at bit
  have behind : ¬ index < state.names.length + 1 := of_decide_eq_false bit.symm
  have perBlock : blockSz / diskInodeSize = 4 := rfl
  rw [perBlock] at inArea
  have length : state.names.length = state.files.length := List.length_map _
  rw [HasData, ← length] at hasData
  exact ⟨by omega, by omega, hasData.1, hasData.2⟩

/-- The bytes of one file are replaced. -/
theorem Tracks.update {index : Nat} {file : File} (isFile : state.files[index]? = some file)
    {later : Nat → Block} {content : List UInt8} {after : Nat → List Nat}
    (holds : layout.Holds later (state.names.length + 1)
      (Function.update contents (index + 1) content) after) :
    layout.Tracks root ⟨⟨later, state.volume.locked⟩,
        state.files.set index { file with bytes := content }⟩
      (Function.update contents (index + 1) content) after := by
  obtain ⟨inside, isElement⟩ := List.getElem?_eq_some_iff.mp isFile
  have sameNames : (state.files.set index { file with bytes := content }).map File.name =
      state.names := by
    rw [List.map_set, FileState.names]
    refine List.ext_getElem? fun other => ?_
    by_cases same : index = other
    · subst same
      rw [List.getElem?_set_self (by simpa using inside), List.getElem?_map, isFile, Option.map_some]
    · rw [List.getElem?_set_ne same]
  refine ⟨tracks.unlocked, tracks.root, ⟨?_, ?_⟩, fun other found isFound => ?_,
    fun other found isFound => ?_⟩
  · rw [FileState.names, sameNames]
    exact holds
  · rw [Function.update_of_ne (Nat.succ_ne_zero index).symm, FileState.names, sameNames,
      tracks.lists.root]
  · by_cases same : index = other
    · subst same
      rw [List.getElem?_set_self inside, Option.some.injEq] at isFound
      rw [← isFound]
      exact tracks.inodes index file isFile
    · rw [List.getElem?_set_ne same] at isFound
      exact tracks.inodes other found isFound
  · by_cases same : index = other
    · subst same
      rw [List.getElem?_set_self inside, Option.some.injEq] at isFound
      rw [← isFound, Function.update_self]
    · rw [List.getElem?_set_ne same] at isFound
      rw [Function.update_of_ne (by omega)]
      exact tracks.bytes other found isFound

/-- A file is appended. -/
theorem Tracks.append {name : Str} {later : Nat → Block} {after : Nat → List Nat}
    (lists : layout.Lists later (state.names ++ [name]) (Function.update
      (Function.update contents (state.names.length + 1) []) 0
        (records 1 (state.names ++ [name]))) after) :
    layout.Tracks root ⟨⟨later, state.volume.locked⟩,
        state.files ++ [⟨name, layout.handle (state.names.length + 1), []⟩]⟩
      (Function.update (Function.update contents (state.names.length + 1) []) 0
        (records 1 (state.names ++ [name]))) after := by
  have length : state.names.length = state.files.length := List.length_map _
  have newNames : (FileState.mk ⟨later, state.volume.locked⟩
      (state.files ++ [⟨name, layout.handle (state.names.length + 1), []⟩])).names =
        state.names ++ [name] := by
    rw [FileState.names, List.map_append, FileState.names]
    rfl
  have place (index : Nat) (found : File) (isFound : (state.files ++
      [⟨name, layout.handle (state.names.length + 1), []⟩])[index]? = some found) :
      state.files[index]? = some found ∧ index < state.names.length ∨
        index = state.names.length ∧ found = ⟨name, layout.handle (state.names.length + 1), []⟩ := by
    rw [length]
    by_cases inside : index < state.files.length
    · rw [List.getElem?_append_left inside] at isFound
      exact Or.inl ⟨isFound, inside⟩
    · rw [List.getElem?_append_right (Nat.not_lt.mp inside)] at isFound
      obtain ⟨inLast, isLast⟩ := List.getElem?_eq_some_iff.mp isFound
      rw [List.length_singleton] at inLast
      have isEnd : index = state.files.length := by omega
      subst isEnd
      simp only [Nat.sub_self, List.getElem_cons_zero] at isLast
      exact Or.inr ⟨rfl, length ▸ isLast.symm⟩
  refine ⟨tracks.unlocked, tracks.root, ?_, fun index found isFound => ?_,
    fun index found isFound => ?_⟩
  · rw [newNames]
    exact lists
  · rcases place index found isFound with ⟨isOld, _⟩ | ⟨rfl, rfl⟩
    · exact tracks.inodes index found isOld
    · rfl
  · rcases place index found isFound with ⟨isOld, before⟩ | ⟨rfl, rfl⟩
    · rw [Function.update_of_ne (Nat.succ_ne_zero index), Function.update_of_ne (by omega)]
      exact tracks.bytes index found isOld
    · rw [Function.update_of_ne (Nat.succ_ne_zero _), Function.update_self]

/-- The search of a creation that returns leaves the device. -/
theorem Tracks.of_run_create {name : Str} {result : Option Inode} {after : Volume}
    (ran : (root.create layout.toEasyFileSystem build name).run state.volume =
      .ok result after) :
    result = none ∧ after = state.volume ∨
      result ≠ none ∧ name.len ≤ nameLengthLimit + 1 ∧
        (Inode.findInodeId build name (layout.inodeAt state.volume.disk 0)).run
            ⟨state.volume.disk, layout.slotBlock 0 :: state.volume.locked⟩ =
          .ok none ⟨state.volume.disk, layout.slotBlock 0 :: state.volume.locked⟩ := by
  have isRoot : 0 < state.names.length + 1 := Nat.succ_pos _
  have isDir := tracks.lists.holds.isDir isRoot
  obtain ⟨found, middle, ranFind, rest⟩ := Inode.of_run_create ran
  rw [tracks.root] at ranFind
  have slotFree := tracks.lists.holds.slot_unlocked isRoot tracks.isOpen
  have searched := tracks.lists.run_findIn_cases tracks.isOpen build name
    fun index => List.mem_range.mp
  rw [← tracks.lists.fileCount] at searched
  have isSearch : (Inode.findInodeId build name (layout.inodeAt state.volume.disk 0)).run
      ⟨state.volume.disk, layout.slotBlock 0 :: state.volume.locked⟩ =
        (Inode.findIn build name (layout.inodeAt state.volume.disk 0)
          (List.range ((layout.inodeAt state.volume.disk 0).size / direntSz))).run
            ⟨state.volume.disk, layout.slotBlock 0 :: state.volume.locked⟩ := by
    rw [Inode.findInodeId, run_bind_ok (run_check isDir _)]
  rw [← isSearch] at searched
  rcases searched with panics | ⟨other, ranSearch⟩
  · rw [run_readDiskInode_panic slotFree panics] at ranFind
    cases ranFind
  · have ranRead := run_readDiskInode slotFree ranSearch
    rw [ranRead] at ranFind
    cases ranFind
    rcases rest with ⟨_, isNone, same⟩ | ⟨isNone, isSome, short⟩
    · exact Or.inl ⟨isNone, same⟩
    · exact Or.inr ⟨isSome, short, isNone ▸ ranSearch⟩

theorem Tracks.step_created {name : Str} {inode : Inode} {after : Volume}
    (room : layout.Room state.volume.disk state.names.length)
    (ran : (root.create layout.toEasyFileSystem build name).run state.volume =
      .ok (some inode) after) :
    ∃ contents owned, layout.Tracks root ⟨after, state.files ++ [⟨name, inode, []⟩]⟩
      contents owned := by
  rcases tracks.of_run_create ran with ⟨isNone, _⟩ | ⟨_, short, notFound⟩
  · cases isNone
  · obtain ⟨later, others, ranCreate, lists, _⟩ :=
      tracks.lists.run_create_of_none tracks.isOpen build room short notFound
    rw [tracks.root] at ran
    obtain ⟨sameInode, sameAfter⟩ := Outcome.ok.inj (ran.symm.trans ranCreate)
    cases sameInode
    rw [sameAfter]
    exact ⟨_, _, tracks.append lists⟩

theorem Tracks.step_wrote {index offset written : Nat} {buf : List UInt8} {file : File}
    {after : Volume} (isFile : state.files[index]? = some file)
    (fits : layout.Suffices layout.totalBlocks state.volume.disk file.bytes.length
      (offset + buf.length))
    (ran : (file.inode.writeAt layout.toEasyFileSystem build offset buf).run state.volume =
      .ok written after) :
    ∃ contents owned, layout.Tracks root
      ⟨after, state.files.set index { file with bytes := writtenAt file.bytes offset buf }⟩
        contents owned := by
  have isInode := FileState.isInode isFile
  obtain ⟨bounded, enough⟩ := fits
  have isBytes := tracks.bytes index file isFile
  rw [← isBytes] at enough ⊢
  rw [tracks.inodes index file isFile] at ran
  by_cases empty : buf = []
  · subst empty
    obtain ⟨later, others, rfl, holds⟩ :=
      tracks.lists.holds.of_run_writeAt_nil isInode tracks.isOpen bounded enough ran
    exact ⟨_, _, tracks.update isFile holds⟩
  · obtain ⟨later, others, ranWrite, holds⟩ :=
      tracks.lists.holds.run_writeAt build isInode tracks.isOpen empty bounded enough
    rw [(Outcome.ok.inj (ran.symm.trans ranWrite)).2]
    exact ⟨_, _, tracks.update isFile holds⟩

theorem Tracks.step_cleared {index : Nat} {file : File} {after : Volume}
    (isFile : state.files[index]? = some file)
    (ran : (file.inode.clear layout.toEasyFileSystem build).run state.volume = .ok () after) :
    ∃ contents owned, layout.Tracks root
      ⟨after, state.files.set index { file with bytes := [] }⟩ contents owned := by
  rw [tracks.inodes index file isFile] at ran
  obtain ⟨later, others, ranClear, holds⟩ :=
    tracks.lists.holds.run_clear build (FileState.isInode isFile) tracks.isOpen
  rw [(Outcome.ok.inj (ran.symm.trans ranClear)).2]
  exact ⟨_, _, tracks.update isFile holds⟩

/-- Reading returns the bytes that the file should have. -/
theorem Tracks.run_readAt (build : Build) {index : Nat} {file : File}
    (isFile : state.files[index]? = some file) {offset length : Nat}
    (inWord : build.overflowChecks = true → offset + length < 2 ^ 64)
    (small : offset < 2 ^ 64) (short : length < 2 ^ 63) :
    (file.inode.readAt build offset length).run state.volume =
      .ok ((file.bytes.drop offset).take length) state.volume := by
  rw [tracks.inodes index file isFile, ← tracks.bytes index file isFile]
  exact tracks.lists.holds.run_readAt build (FileState.isInode isFile) tracks.isOpen inWord small
    short

/-- Every call that finds room keeps track of the files. -/
theorem Tracks.step {call : FileCall}
    (hasData : HasData layout.toEasyFileSystem layout.totalBlocks state call)
    (hasInode : HasInode layout.toEasyFileSystem layout.inodeBlocks state call)
    (step : FileStep layout.toEasyFileSystem build root state call next) :
    ∃ contents owned, layout.Tracks root next contents owned := by
  cases step with
  | created ran => exact tracks.step_created (tracks.room hasData hasInode) ran
  | existed ran =>
      rcases tracks.of_run_create ran with ⟨_, same⟩ | ⟨isSome, _⟩
      · subst same
        exact ⟨contents, owned, tracks⟩
      · exact absurd rfl isSome
  | wrote isFile ran => exact tracks.step_wrote isFile (hasData _ isFile) ran
  | cleared isFile ran => exact tracks.step_cleared isFile ran
  | read isFile small short ran =>
      have same := ran.symm.trans
        (tracks.run_readAt build isFile (Inode.of_run_readAt ran) small short)
      rw [(Outcome.ok.inj same).2]
      exact ⟨contents, owned, tracks⟩

end Tracking

section Running

variable {layout : Layout} {build : Build} {root : Inode} {start state : FileState}

/-- The states that are reached by calls that find room. -/
theorem exists_tracks {contents : Nat → List UInt8} {owned : Nat → List Nat}
    (tracks : layout.Tracks root start contents owned)
    (run : FileRun layout.toEasyFileSystem build root (fun before call =>
      HasData layout.toEasyFileSystem layout.totalBlocks before call ∧
        HasInode layout.toEasyFileSystem layout.inodeBlocks before call) start state) :
    ∃ contents owned, layout.Tracks root state contents owned := by
  induction run with
  | refl => exact ⟨contents, owned, tracks⟩
  | tail _ last ih =>
      obtain ⟨_, _, tracks⟩ := ih
      obtain ⟨call, ⟨hasData, hasInode⟩, step⟩ := last
      exact tracks.step hasData hasInode step

variable {totalBlocks inodeBitmapBlocks : UInt32} (fit : InodesFit totalBlocks inodeBitmapBlocks)

theorem run_rootInode (volume : Volume) :
    ((madeFileSystem totalBlocks inodeBitmapBlocks).rootInode build).run volume =
      .ok ((madeLayout totalBlocks inodeBitmapBlocks fit).handle 0) volume := by
  have totalLt := totalBlocks.toNat_lt
  have inVolume : 1 + (inodeBitmapBlocks.toNat + inodeAreaBlocks inodeBitmapBlocks.toNat) ≤
      totalBlocks.toNat := fit
  have inWord : (madeFileSystem totalBlocks inodeBitmapBlocks).inodeAreaStartBlock +
      0 / (blockSz / diskInodeSize) < 2 ^ 32 := by
    change 1 + inodeBitmapBlocks.toNat + 0 / 4 < 2 ^ 32
    omega
  rw [EasyFileSystem.rootInode, run_bind_ok (EasyFileSystem.run_getDiskInodePos build volume inWord),
    run_pure]
  rfl

/-- A made volume has no files. -/
theorem tracks_madeVolume {volume : Volume} (unlocked : volume.locked = [])
    (someBlock : 0 < inodeBitmapBlocks.toNat)
    (rooted : 0 < inodeAreaBlocks inodeBitmapBlocks.toNat) :
    (madeLayout totalBlocks inodeBitmapBlocks fit).Tracks
      ((madeLayout totalBlocks inodeBitmapBlocks fit).handle 0)
        ⟨madeVolume volume totalBlocks inodeBitmapBlocks, []⟩ (fun _ => []) (fun _ => []) := by
  refine ⟨unlocked, rfl, ⟨holds_madeVolume fit volume someBlock rooted, rfl⟩,
    fun index file isFile => ?_, fun index file isFile => ?_⟩
  · simp at isFile
  · simp at isFile

end Running

end Layout

end EasyFs

end OSWorkspace
