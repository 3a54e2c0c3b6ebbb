import OSWorkspace.Ext4TreeRemovals

/-!
# Leaves that are read and written

A file reads and writes as an array of bytes, a device has no bytes, and the
permissions of both can be set.  No call of these changes anything else.
-/

namespace OSWorkspace

namespace Ext4

open Exec View

section Answers

variable {reserved : Set Nat} {volume : Volume} {tree : Tree}
  (represents : volume.view.Represents reserved tree)

include represents

theorem Performs.answer {α : Type} {grows : Prop} {effect : α → Tree → Prop} {value : α}
    {after : Volume} (isEffect : effect value tree)
    (spares : Spares reserved tree.members volume.view after.view)
    (sameHeld : after.view.held .block = volume.view.held .block) :
    Performs reserved tree volume none grows effect (.ok value after) :=
  .done rfl isEffect (represents.spared spares)
    (Passage.of_same represents.apart spares sameHeld).unowned

theorem Performs.answer_warmed {α : Type} {grows : Prop} {effect : α → Tree → Prop} {value : α}
    {after : Volume} (isEffect : effect value tree) (warmed : Warmed volume after) :
    Performs reserved tree volume none grows effect (.ok value after) :=
  .answer represents isEffect (warmed.spares reserved tree.members) (by rw [warmed.held_eq])

/-- A call that rewrites one leaf. -/
theorem Performs.revise {α : Type} {grows : Prop} {effect : α → Tree → Prop} {value : α}
    {after : Volume} {id links : Nat} {content changed : Content}
    (isLeaf : tree.node id = some (.leaf links content))
    (isEffect : effect value (NameSpace.setNode tree id (some (.leaf links changed))))
    (passage : Passage reserved tree.members tree.members (tree.members \ {id}) volume.view
      after.view)
    (shows : after.view.ShowsLeaf reserved id links changed) :
    Performs reserved tree volume none grows effect (.ok value after) := by
  refine .done rfl isEffect
    (represents.setLeaf isLeaf passage.spares passage.apart shows) ?_
  rw [NameSpace.members_setNode_of_member tree (NameSpace.member_of_node isLeaf)]
  exact passage.unowned

end Answers

/-- A member of the tree is a directory, a file or a device. -/
theorem Tree.member_cases {tree : Tree} {id : Nat} (isMember : id ∈ tree.members) :
    (∃ parent, tree.node id = some (.dir parent)) ∨
      (∃ links mode bytes, tree.node id = some (.leaf links ⟨mode, .file bytes⟩)) ∨
      ∃ links mode rdev, tree.node id = some (.leaf links ⟨mode, .device rdev⟩) := by
  rcases NameSpace.member_cases isMember with isDir | ⟨links, ⟨mode, body⟩, isLeaf⟩
  · exact Or.inl isDir
  · cases body with
    | file bytes => exact Or.inr (Or.inl ⟨links, mode, bytes, isLeaf⟩)
    | device rdev => exact Or.inr (Or.inr ⟨links, mode, rdev, isLeaf⟩)

/-- What a call may read at an offset of an inode; the records of a directory are left
open. -/
def Tree.Reads (tree : Tree) (id offset : Nat) (buf : List UInt8) (result : Nat × List UInt8) :
    Prop :=
  match tree.node id with
  | some (.leaf _ ⟨_, .file bytes⟩) => result = arrayRead bytes offset buf
  | some (.leaf _ ⟨_, .device _⟩) => result = (0, buf)
  | _ => result.1 ≤ buf.length ∧ result.2.length = buf.length

theorem ReadStep.spares {reserved members : Set Nat} {view after : View} {id : Nat}
    (readStep : ReadStep reserved id view after) (apart : view.Apart reserved members)
    (isMember : id ∈ members) : Spares reserved members view after := by
  apply apart.spares_of_unchanged isMember readStep.step
  rw [readStep.state]
  exact ⟨rfl, fun _ _ => rfl, fun _ _ isHeld => isHeld⟩

section Leaves

variable {reserved : Set Nat} {volume : Volume} {tree : Tree}
  (represents : volume.view.Represents reserved tree) {id : Nat}

include represents

theorem Performs.readAt_file {links mode : Nat} {bytes : List UInt8}
    (isFile : tree.node id = some (.leaf links ⟨mode, .file bytes⟩)) (offset : Nat)
    (buf : List UInt8) :
    Performs reserved tree volume none False
      (fun result later => result = arrayRead bytes offset buf ∧ later = tree)
      (((volume.view.fs.handle id).readAt offset buf).run volume) := by
  have stores : volume.view.Stores reserved id bytes := (represents.leaves _ _ _ isFile).body
  have notSymlink := Ext4Inode.not_isSymlink_of_isFile stores.isFile
  obtain ⟨after, ran, _⟩ := stores.run_readAt offset buf
  obtain ⟨same, ranSame, readStep⟩ := view_readAt stores.mounted stores.isInode stores.owning
    stores.coherent stores.usesExtents (by simp [notSymlink]) stores.tidy.ordered offset buf
  rw [ran] at ranSame
  obtain rfl := (Outcome.ok.inj ranSame).2
  rw [ran]
  refine .answer represents ⟨rfl, rfl⟩
    (readStep.spares represents.apart (NameSpace.member_of_node isFile)) ?_
  rw [readStep.state]

theorem Performs.readAt_device {links mode rdev : Nat}
    (isDevice : tree.node id = some (.leaf links ⟨mode, .device rdev⟩)) (offset : Nat)
    (buf : List UInt8) :
    Performs reserved tree volume none False (fun result later => result = (0, buf) ∧ later = tree)
      (((volume.view.fs.handle id).readAt offset buf).run volume) := by
  have device : volume.view.IsDevice id rdev := (represents.leaves _ _ _ isDevice).body
  have read := represents.run_readDiskInode (NameSpace.member_of_node isDevice)
  rw [Inode.readAt, run_bind_ok read, device.size]
  simp only [ge_iff_le, Nat.zero_le, true_or, if_true]
  exact .answer_warmed represents ⟨rfl, rfl⟩ (Warmed.refl volume)

theorem Performs.readAt_directory (isDir : tree.IsDir id) (offset : Nat) (buf : List UInt8) :
    Performs reserved tree volume none False
      (fun result later => (result.1 ≤ buf.length ∧ result.2.length = buf.length) ∧ later = tree)
      (((volume.view.fs.handle id).readAt offset buf).run volume) := by
  obtain ⟨blocks, branch⟩ := (represents.dirs id isDir).branch
  have notSymlink := Ext4Inode.not_isSymlink_of_isDir branch.isDir
  obtain ⟨after, ran, readStep⟩ := view_readAt represents.apart.mounted branch.isInode
    branch.owning branch.coherent branch.usesExtents (by simp [notSymlink]) branch.ordered offset
    buf
  rw [ran]
  refine .answer represents ⟨⟨min_le_left _ _, ?_⟩, rfl⟩
    (readStep.spares represents.apart branch.member) (by rw [readStep.state])
  simp only [List.length_append, List.length_map, List.length_range, List.length_drop]
  omega

theorem Performs.readAt (isMember : id ∈ tree.members) (offset : Nat) (buf : List UInt8) :
    Performs reserved tree volume none False
      (fun result later => tree.Reads id offset buf result ∧ later = tree)
      (((volume.view.fs.handle id).readAt offset buf).run volume) := by
  unfold Tree.Reads
  rcases Tree.member_cases isMember with
    ⟨parent, isNode⟩ | ⟨links, mode, bytes, isNode⟩ | ⟨links, mode, rdev, isNode⟩
  · simp only [isNode]
    exact Performs.readAt_directory represents ⟨parent, isNode⟩ offset buf
  · simp only [isNode]
    exact Performs.readAt_file represents isNode offset buf
  · simp only [isNode]
    exact Performs.readAt_device represents isNode offset buf

end Leaves

/-- Why an inode has no bytes to change. -/
def Tree.refusesData (tree : Tree) (id : Nat) : Option Ext4Error :=
  match tree.node id with
  | some (.leaf _ ⟨_, .file _⟩) => none
  | _ => some .notAFile

/-- The bytes of a file are changed. -/
def Tree.Edits (tree : Tree) (id : Nat) (change : List UInt8 → List UInt8) (later : Tree) : Prop :=
  ∃ links mode bytes, tree.node id = some (.leaf links ⟨mode, .file bytes⟩) ∧
    later = NameSpace.setNode tree id (some (.leaf links ⟨mode, .file (change bytes)⟩))

/-- The map of a file can grow by so many extents, and as many blocks are free besides
those of the largest extent tree. -/
structure View.RoomyFile (view : View) (id count : Nat) : Prop where
  few : (view.extents id).length + count ≤ extentTreeMaxEntries
  free : view.HasFree (count + 1364)

theorem View.RoomyFile.not_growthFails {view : View} {id count : Nat}
    (roomy : view.RoomyFile id count) (error : Ext4Error) :
    ¬ GrowthFails view (view.extents id) count error := by
  rintro (⟨_, result, new, grows, newLe, large⟩ | ⟨_, taken, few, full⟩)
  · have lengthLe := grows.length
    have fewLe := roomy.few
    omega
  · exact View.not_hasFree_of_full few full roomy.free

theorem Tree.isFile_of_accepts {tree : Tree} {id : Nat} (accepts : tree.refusesData id = none) :
    ∃ links mode bytes, tree.node id = some (.leaf links ⟨mode, .file bytes⟩) := by
  unfold refusesData at accepts
  split at accepts
  next links mode bytes isFile => exact ⟨links, mode, bytes, isFile⟩
  next => cases accepts

section Writing

variable {reserved : Set Nat} {volume : Volume} {tree : Tree}
  (represents : volume.view.Represents reserved tree) {id : Nat}

include represents

/-- A node without bytes is neither a file nor a symbolic link on disk. -/
theorem View.Represents.not_isFile (isMember : id ∈ tree.members) {error : Ext4Error}
    (refuses : tree.refusesData id = some error) : error = .notAFile ∧
      (volume.view.inode id).isFile = false ∧ (volume.view.inode id).isSymlink = false := by
  unfold Tree.refusesData at refuses
  rcases Tree.member_cases isMember with
    ⟨parent, isNode⟩ | ⟨links, mode, bytes, isNode⟩ | ⟨links, mode, rdev, isNode⟩
  · rw [isNode] at refuses
    cases refuses
    have isDir := (represents.isDir_iff isMember).mpr ⟨parent, isNode⟩
    refine ⟨rfl, ?_, Ext4Inode.not_isSymlink_of_isDir isDir⟩
    rw [Bool.eq_false_iff]
    intro isFile
    rw [Ext4Inode.not_isDir_of_isFile isFile] at isDir
    cases isDir
  · rw [isNode] at refuses
    cases refuses
  · rw [isNode] at refuses
    cases refuses
    have device : volume.view.IsDevice id rdev := (represents.leaves _ _ _ isNode).body
    exact ⟨rfl, device.notFile, device.notSymlink⟩

/-- A call for files only. -/
theorem Performs.onFile {α : Type} {call : Call α} (isMember : id ∈ tree.members) {grows : Prop}
    {answer : α → Prop} {change : List UInt8 → List UInt8}
    (otherwise : (volume.view.inode id).isFile = false →
      (volume.view.inode id).isSymlink = false → call.run volume = .err .notAFile volume)
    (onFile : ∀ links mode bytes, tree.node id = some (.leaf links ⟨mode, .file bytes⟩) →
      Performs reserved tree volume none grows (fun value later => answer value ∧
        later = NameSpace.setNode tree id (some (.leaf links ⟨mode, .file (change bytes)⟩)))
        (call.run volume)) :
    Performs reserved tree volume (tree.refusesData id) grows
      (fun value later => answer value ∧ tree.Edits id change later) (call.run volume) := by
  cases refuses : tree.refusesData id with
  | some error =>
      obtain ⟨rfl, notFile, notSymlink⟩ := represents.not_isFile isMember refuses
      rw [otherwise notFile notSymlink]
      exact .refuse represents (Warmed.refl volume) rfl
  | none =>
      obtain ⟨links, mode, bytes, isFile⟩ := Tree.isFile_of_accepts refuses
      refine (onFile links mode bytes isFile).mono ?_
      rintro value later ⟨isAnswer, isLater⟩
      exact ⟨isAnswer, links, mode, bytes, isFile, isLater⟩

theorem Performs.writeAt_file {links mode : Nat} {bytes : List UInt8}
    (isFile : tree.node id = some (.leaf links ⟨mode, .file bytes⟩)) {offset : Nat}
    {buf : List UInt8} (inRange : offset + buf.length ≤ u32Max * blockSz) :
    Performs reserved tree volume none
      (¬ volume.view.RoomyFile id (touchedBlocks offset buf))
      (fun count later => count = buf.length ∧ later = NameSpace.setNode tree id
        (some (.leaf links ⟨mode, .file (writtenArray bytes offset buf)⟩)))
      (((volume.view.fs.handle id).writeAt offset buf).run volume) := by
  have shows := represents.leaves _ _ _ isFile
  have stores : volume.view.Stores reserved id bytes := shows.body
  have isMember := NameSpace.member_of_node isFile
  by_cases empty : buf = []
  · subst empty
    rw [view_writeAt_empty stores.mounted stores.isInode (Or.inl stores.isFile) offset,
      writtenArray, if_pos rfl]
    refine .answer_warmed represents ⟨rfl, ?_⟩ (Warmed.refl volume)
    exact (NameSpace.setNode_eq_self isFile).symm
  · have outcome := view_writeAt_blocks stores.mounted stores.isInode stores.owning
      stores.coherent (Or.inl stores.isFile) empty (notInline_of_isFile stores.isFile offset buf)
    rcases stores.run_writeAt inRange with ⟨after, ran, _, stored⟩ | ⟨error, after, ran, fails, _⟩
    · rw [ran] at outcome ⊢
      rcases outcome with ⟨same, isSame, wrote⟩ | ⟨_, _, failed, _⟩ | ⟨_, failed, _⟩
      · obtain rfl := (Outcome.ok.inj isSame).2
        have passage := Passage.of_fileStep represents.apart isMember wrote.step wrote.exchanges
          (Ext4Inode.typed_congr wrote.mode (represents.apart.resident id isMember).typed)
        exact .revise represents isFile ⟨rfl, rfl⟩ passage
          ⟨wrote.links.trans shows.links, wrote.mode.trans shows.mode, stored⟩
      · cases failed
      · cases failed
    · rw [ran] at outcome ⊢
      rcases outcome with ⟨_, isOk, _⟩ | ⟨_, same, isSame, _, step, unchanged⟩ |
        ⟨_, _, notPlain, _⟩
      · cases isOk
      · obtain rfl := (Outcome.err.inj isSame).2
        refine .exhausted rfl (fun roomy => roomy.not_growthFails error fails)
          (represents.spared (represents.apart.spares_of_unchanged isMember step unchanged))
      · exact absurd ⟨stores.tidy, inRange⟩ notPlain

/-- A write changes the bytes of a file. -/
theorem Performs.writeAt (isMember : id ∈ tree.members) {offset : Nat} {buf : List UInt8}
    (inRange : offset + buf.length ≤ u32Max * blockSz) :
    Performs reserved tree volume (tree.refusesData id)
      (¬ volume.view.RoomyFile id (touchedBlocks offset buf))
      (fun count later => count = buf.length ∧
        tree.Edits id (fun bytes => writtenArray bytes offset buf) later)
      (((volume.view.fs.handle id).writeAt offset buf).run volume) := by
  apply Performs.onFile represents isMember
  · intro notFile notSymlink
    exact view_writeAt_notAFile represents.apart.mounted (represents.isInode isMember) notFile
      notSymlink offset buf
  · intro links mode bytes isFile
    exact Performs.writeAt_file represents isFile inRange

theorem Performs.clear_file {links mode : Nat} {bytes : List UInt8}
    (isFile : tree.node id = some (.leaf links ⟨mode, .file bytes⟩)) :
    Performs reserved tree volume none False
      (fun _ later => True ∧ later = NameSpace.setNode tree id
        (some (.leaf links ⟨mode, .file []⟩)))
      ((volume.view.fs.handle id).clear.run volume) := by
  have shows := represents.leaves _ _ _ isFile
  have stores : volume.view.Stores reserved id bytes := shows.body
  have isMember := NameSpace.member_of_node isFile
  obtain ⟨after, ran, afterView⟩ := view_clear stores.mounted stores.isInode stores.owning
    stores.isFile
  obtain ⟨same, ranSame, _, stored⟩ := stores.run_clear
  rw [ran] at ranSame
  obtain rfl := (Outcome.ok.inj ranSame).2
  obtain ⟨step, inodeEq, _, _, exchanges⟩ := FileStep.of_reclaim stores.mounted stores.isInode
    (emptyRoot_resetExtentTree (((volume.view.inode id).setSize 0).setIBlocksLo 0))
  rw [← afterView] at step inodeEq exchanges
  have kept {name : InodeField} (notLow : name ≠ .iSizeLo) (notHigh : name ≠ .iSizeHigh)
      (notBlocks : name ≠ .iBlocksLo) :
      (after.view.inode id).field name = (volume.view.inode id).field name := by
    rw [inodeEq]
    exact field_truncated _ notLow notHigh notBlocks
  have sameMode : (after.view.inode id).iMode = (volume.view.inode id).iMode :=
    kept (by decide) (by decide) (by decide)
  have sameLinks : (after.view.inode id).iLinksCount = (volume.view.inode id).iLinksCount :=
    kept (by decide) (by decide) (by decide)
  have passage := Passage.of_fileStep represents.apart isMember step (exchanges stores.tidy)
    (Ext4Inode.typed_congr sameMode (represents.apart.resident id isMember).typed)
  rw [ran]
  exact .revise represents isFile ⟨trivial, rfl⟩ passage
    ⟨sameLinks.trans shows.links, sameMode.trans shows.mode, stored⟩

/-- Truncating empties a file. -/
theorem Performs.clear (isMember : id ∈ tree.members) :
    Performs reserved tree volume (tree.refusesData id) False
      (fun _ later => True ∧ tree.Edits id (fun _ => []) later)
      ((volume.view.fs.handle id).clear.run volume) := by
  apply Performs.onFile represents isMember
  · intro notFile _
    exact view_clear_notAFile represents.apart.mounted (represents.isInode isMember) notFile
  · intro links mode bytes isFile
    exact Performs.clear_file represents isFile

end Writing

theorem Nat.and_permissions (mode kind : Nat) :
    ((kind &&& sIfmt) ||| (mode &&& 0o7777)) &&& sIfmt = kind &&& sIfmt := by
  rw [Nat.and_or_distrib_right, Nat.and_assoc, Nat.and_assoc, Nat.and_self]
  have apart : 0o7777 &&& sIfmt = 0 := by decide
  rw [apart, Nat.and_zero, Nat.or_zero]

/-- New permissions change nothing else. -/
theorem Ext4Inode.setPermissions_spec (inode : Ext4Inode) (mode : Nat) :
    (inode.setIMode (inode.fileType ||| (mode &&& 0o7777))).blockData = inode.blockData ∧
      (inode.setIMode (inode.fileType ||| (mode &&& 0o7777))).usesExtents = inode.usesExtents ∧
      (inode.setIMode (inode.fileType ||| (mode &&& 0o7777))).size = inode.size ∧
      (inode.setIMode (inode.fileType ||| (mode &&& 0o7777))).iLinksCount = inode.iLinksCount ∧
      (inode.setIMode (inode.fileType ||| (mode &&& 0o7777))).iMode =
        inode.fileType ||| (mode &&& 0o7777) ∧
      (inode.setIMode (inode.fileType ||| (mode &&& 0o7777))).fileType = inode.fileType := by
  have kept {name : InodeField} (different : name ≠ .iMode) :
      (inode.setIMode (inode.fileType ||| (mode &&& 0o7777))).field name = inode.field name :=
    field_setField_of_ne inode _ different
  have small : inode.fileType ||| (mode &&& 0o7777) < 2 ^ 16 := by
    apply Nat.or_lt_two_pow
    · exact Nat.lt_of_le_of_lt Nat.and_le_right (by decide)
    · exact Nat.lt_of_le_of_lt Nat.and_le_right (by decide)
  have modeEq : (inode.setIMode (inode.fileType ||| (mode &&& 0o7777))).iMode =
      inode.fileType ||| (mode &&& 0o7777) := by
    rw [iMode, setIMode, field_setField_same]
    exact Nat.mod_eq_of_lt small
  refine ⟨blockData_setField _ _ _, usesExtents_congr (kept (by decide)),
    size_congr (kept (by decide)) (kept (by decide)), kept (by decide), modeEq, ?_⟩
  rw [fileType, modeEq, fileType, Nat.and_permissions]

def Content.chmod (content : Content) (mode : Nat) : Content :=
  { content with mode := (content.mode &&& sIfmt) ||| (mode &&& 0o7777) }

/-- The tree with other permissions of a leaf; those of directories are not in it. -/
def Tree.chmod (tree : Tree) (id mode : Nat) : Tree :=
  match tree.node id with
  | some (.leaf links content) =>
      NameSpace.setNode tree id (some (.leaf links (content.chmod mode)))
  | _ => tree

theorem Ext4Inode.typed_of_fileType {inode other : Ext4Inode}
    (kind : other.fileType = inode.fileType) (typed : inode.Typed) : other.Typed := by
  rw [Typed, ← fileType, kind]
  exact typed

section Permissions

variable {reserved : Set Nat} {volume : Volume} {tree : Tree}
  (represents : volume.view.Represents reserved tree) {id : Nat}

include represents

theorem Performs.setMode_leaf {links : Nat} {content : Content}
    (isLeaf : tree.node id = some (.leaf links content)) (mode : Nat) :
    Performs reserved tree volume none False (fun _ later => later = tree.chmod id mode)
      (((volume.view.fs.handle id).setMode mode).run volume) := by
  have shows := represents.leaves _ _ _ isLeaf
  have isMember := NameSpace.member_of_node isLeaf
  obtain ⟨blockData, usesExtents, size, sameLinks, modeEq, kind⟩ :=
    Ext4Inode.setPermissions_spec (volume.view.inode id) mode
  have typed := (represents.apart.resident id isMember).typed
  obtain ⟨after, ran, passage, revised, _, _⟩ :=
    @passage_modifyDiskInode reserved tree.members volume represents.apart id isMember
      (fun inode => inode.setIMode (inode.fileType ||| (mode &&& 0o7777))) blockData usesExtents
      (Ext4Inode.typed_of_fileType kind typed)
  have afterShows := shows.rewritten revised blockData usesExtents passage.apart.mounted
    (passage.apart.resident id isMember) size kind
  have chmodEq : tree.chmod id mode =
      NameSpace.setNode tree id (some (.leaf links (content.chmod mode))) := by
    simp only [Tree.chmod, isLeaf]
  rw [sameLinks, shows.links, modeEq, Ext4Inode.fileType, shows.mode] at afterShows
  rw [Inode.setMode, ran, chmodEq]
  exact .revise represents isLeaf rfl passage afterShows

theorem Performs.setMode_directory {parent : Nat} (isDir : tree.node id = some (.dir parent))
    (mode : Nat) :
    Performs reserved tree volume none False (fun _ later => later = tree.chmod id mode)
      (((volume.view.fs.handle id).setMode mode).run volume) := by
  obtain ⟨blocks, branch⟩ := (represents.dirs id ⟨parent, isDir⟩).branch
  obtain ⟨blockData, usesExtents, size, _, _, kind⟩ :=
    Ext4Inode.setPermissions_spec (volume.view.inode id) mode
  have stillDir : ((volume.view.inode id).setIMode ((volume.view.inode id).fileType |||
      (mode &&& 0o7777))).isDir = true := by
    rw [Ext4Inode.isDir, kind]
    exact branch.isDir
  obtain ⟨after, ran, passage, edited, sameEntries⟩ :=
    @View.Edited.rewrite reserved tree.members id blocks (volume.view.entries id) volume
      branch.edited represents.apart branch.member
      (fun inode => inode.setIMode (inode.fileType ||| (mode &&& 0o7777))) blockData usesExtents
      stillDir size
  have afterBranch := edited.settled sameEntries passage.apart branch.member branch.inside
    branch.toWellFormed.apart
  have chmodEq : tree.chmod id mode = tree := by
    simp only [Tree.chmod, isDir]
  rw [Inode.setMode, ran, chmodEq]
  exact .done rfl rfl (represents.setDir isDir passage.spares passage.apart afterBranch
    sameEntries) passage.unowned

/-- The permissions of a node are set. -/
theorem Performs.setMode (isMember : id ∈ tree.members) (mode : Nat) :
    Performs reserved tree volume none False (fun _ later => later = tree.chmod id mode)
      (((volume.view.fs.handle id).setMode mode).run volume) := by
  rcases NameSpace.member_cases isMember with ⟨parent, isDir⟩ | ⟨links, content, isLeaf⟩
  · exact Performs.setMode_directory represents isDir mode
  · exact Performs.setMode_leaf represents isLeaf mode

end Permissions

/-- What a call can ask of an inode. -/
inductive Attribute where
  | mode
  | size
  | linkCount
  | specialRdev

def Attribute.get (self : Inode) : Attribute → Call Nat
  | .mode => self.mode
  | .size => self.size
  | .linkCount => self.linkCount
  | .specialRdev => self.specialRdev

/-- The attributes that the tree tells. -/
def Tree.Has (tree : Tree) (id : Nat) (asked : Attribute) (value : Nat) : Prop :=
  match tree.node id, asked with
  | some (.dir _), .mode => value &&& sIfmt = sIfdir
  | some (.leaf _ content), .mode => value = content.mode
  | some (.leaf links _), .linkCount => value = links
  | some (.leaf _ ⟨_, .file bytes⟩), .size => value = bytes.length
  | some (.leaf _ ⟨_, .device _⟩), .size => value = 0
  | some (.leaf _ ⟨_, .device rdev⟩), .specialRdev => value = rdev
  | _, _ => True

/-- An attribute as it stands in the inode. -/
def Ext4Inode.told (inode : Ext4Inode) : Attribute → Nat
  | .mode => inode.iMode
  | .size => inode.size
  | .linkCount => inode.iLinksCount
  | .specialRdev => inode.specialRdev

section Attributes

variable {reserved : Set Nat} {volume : Volume} {tree : Tree}
  (represents : volume.view.Represents reserved tree) {id : Nat}

include represents

theorem View.Represents.has (isMember : id ∈ tree.members) (asked : Attribute) :
    tree.Has id asked ((volume.view.inode id).told asked) := by
  rcases Tree.member_cases isMember with
    ⟨parent, isNode⟩ | ⟨links, mode, bytes, isNode⟩ | ⟨links, mode, rdev, isNode⟩
  · have isDir := (represents.isDir_iff isMember).mpr ⟨parent, isNode⟩
    have kind : (volume.view.inode id).fileType = sIfdir := of_decide_eq_true isDir
    cases asked <;> simp only [Tree.Has, isNode, Ext4Inode.told]
    exact kind
  · have shows := represents.leaves _ _ _ isNode
    have stores : volume.view.Stores reserved id bytes := shows.body
    cases asked <;> simp only [Tree.Has, isNode, Ext4Inode.told]
    · exact shows.mode
    · exact stores.size
    · exact shows.links
  · have shows := represents.leaves _ _ _ isNode
    have device : volume.view.IsDevice id rdev := shows.body
    cases asked <;> simp only [Tree.Has, isNode, Ext4Inode.told]
    · exact shows.mode
    · exact device.size
    · exact shows.links
    · exact device.rdev

theorem Performs.get (isMember : id ∈ tree.members) (asked : Attribute) :
    Performs reserved tree volume none False
      (fun value later => tree.Has id asked value ∧ later = tree)
      ((asked.get (volume.view.fs.handle id)).run volume) := by
  have read := represents.run_readDiskInode isMember
  have got : (asked.get (volume.view.fs.handle id)).run volume =
      .ok ((volume.view.inode id).told asked) volume := by
    cases asked <;> exact run_bind_ok read
  rw [got]
  exact .answer_warmed represents ⟨represents.has isMember asked, rfl⟩ (Warmed.refl volume)

end Attributes

end Ext4

end OSWorkspace
