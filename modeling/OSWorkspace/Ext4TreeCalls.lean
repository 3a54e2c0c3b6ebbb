import OSWorkspace.Ext4NewLeaves

/-!
# Calls that change the tree

A call on a volume that holds a tree either is refused for a reason that the tree
tells, or runs out of space, and then the tree is as before, or it answers and the
volume holds the tree with the change that was asked for.
-/

namespace OSWorkspace

namespace Ext4

open Exec View

/-- The outcome of a call on a volume that holds a tree.  Unless space is short, no
block is lost: those in use without an owner are the same. -/
inductive Performs {α : Type} (reserved : Set Nat) (tree : Tree) (volume : Volume)
    (refusal : Option Ext4Error) (grows : Prop) (effect : α → Tree → Prop) :
    Outcome Ext4Error Volume α → Prop
  | refused {error : Ext4Error} {after : Volume} : refusal = some error →
      after.view.Represents reserved tree →
      after.view.unowned tree.members = volume.view.unowned tree.members →
        Performs reserved tree volume refusal grows effect (.err error after)
  | exhausted {error : Ext4Error} {after : Volume} : refusal = none → grows →
      after.view.Represents reserved tree →
        Performs reserved tree volume refusal grows effect (.err error after)
  | done {value : α} {after : Volume} {later : Tree} : refusal = none → effect value later →
      after.view.Represents reserved later →
      after.view.unowned later.members = volume.view.unowned tree.members →
        Performs reserved tree volume refusal grows effect (.ok value after)

theorem Performs.mono {α : Type} {reserved : Set Nat} {tree : Tree} {volume : Volume}
    {refusal : Option Ext4Error} {grows : Prop} {effect wider : α → Tree → Prop}
    {outcome : Outcome Ext4Error Volume α}
    (performs : Performs reserved tree volume refusal grows effect outcome)
    (weaken : ∀ value later, effect value later → wider value later) :
    Performs reserved tree volume refusal grows wider outcome := by
  cases performs with
  | refused isRefused later unowned => exact .refused isRefused later unowned
  | exhausted notRefused isGrowing later => exact .exhausted notRefused isGrowing later
  | done notRefused isEffect later unowned =>
      exact .done notRefused (weaken _ _ isEffect) later unowned

/-- A shortage that is one for a wider reason, too. -/
theorem Performs.widen {α : Type} {reserved : Set Nat} {tree : Tree} {volume : Volume}
    {refusal : Option Ext4Error} {grows wider : Prop} {effect : α → Tree → Prop}
    {outcome : Outcome Ext4Error Volume α}
    (performs : Performs reserved tree volume refusal grows effect outcome)
    (widens : grows → wider) : Performs reserved tree volume refusal wider effect outcome := by
  cases performs with
  | refused isRefused later unowned => exact .refused isRefused later unowned
  | exhausted notRefused isGrowing later => exact .exhausted notRefused (widens isGrowing) later
  | done notRefused isEffect later unowned => exact .done notRefused isEffect later unowned

section Performs

variable {α : Type} {reserved : Set Nat} {tree : Tree} {volume warm : Volume}
  {refusal : Option Ext4Error} {grows : Prop} {effect : α → Tree → Prop}
  (represents : volume.view.Represents reserved tree) (warmed : Warmed volume warm)

include represents warmed

theorem Warmed.unowned_eq :
    warm.view.unowned tree.members = volume.view.unowned tree.members :=
  (warmed.passage represents.apart).unowned

theorem Performs.of_warmed {outcome : Outcome Ext4Error Volume α}
    (performs : Performs reserved tree warm refusal grows effect outcome) :
    Performs reserved tree volume refusal grows effect outcome := by
  have same := warmed.unowned_eq represents
  cases performs with
  | refused isRefused later unowned => exact .refused isRefused later (unowned.trans same)
  | exhausted notRefused isGrowing later => exact .exhausted notRefused isGrowing later
  | done notRefused isEffect later unowned =>
      exact .done notRefused isEffect later (unowned.trans same)

omit represents in
/-- Warm caches take no room. -/
theorem Warmed.roomy {id more : Nat} (roomy : volume.view.Roomy id more) :
    warm.view.Roomy id more :=
  roomy.unchanged (warmed.unchanged id) warmed.fs_eq (by rw [warmed.held_eq])

omit represents in
theorem Warmed.hasFreeInode (hasFree : volume.view.HasFreeInode) : warm.view.HasFreeInode := by
  obtain ⟨item, isItem, free⟩ := hasFree
  refine ⟨item, ?_, by rw [warmed.held_eq]; exact free⟩
  rw [View.IsItem, warmed.fs_eq]
  exact isItem

/-- A call that stops with the error that the tree asks for. -/
theorem Performs.refuse {error : Ext4Error} (isRefused : refusal = some error) :
    Performs reserved tree volume refusal grows effect (.err error warm) :=
  .refused isRefused (represents.warmed warmed) (warmed.unowned_eq represents)

end Performs

/-- Why a name cannot be new in an inode. -/
def Tree.refusesName (tree : Tree) (id : Nat) (name : Str) : Option Ext4Error :=
  match tree.node id with
  | some (.dir _) =>
      if name.isEmpty then some .invalidInput
      else if name.len > ext4NameLen then some .nameTooLong
      else if (tree.lookup id name).isSome then some .alreadyExists
      else none
  | _ => some .notADirectory

theorem Tree.refusesName_of_isDir {tree : Tree} {id : Nat} (isDir : tree.IsDir id) (name : Str) :
    tree.refusesName id name =
      if name.isEmpty then some .invalidInput
      else if name.len > ext4NameLen then some .nameTooLong
      else if (tree.lookup id name).isSome then some .alreadyExists
      else none := by
  obtain ⟨parent, isDir⟩ := isDir
  rw [refusesName, isDir]

theorem Tree.refusesName_of_not_isDir {tree : Tree} {id : Nat} (notDir : ¬ tree.IsDir id)
    (name : Str) : tree.refusesName id name = some .notADirectory := by
  unfold refusesName
  split
  next parent isDir => exact absurd ⟨parent, isDir⟩ notDir
  next => rfl

section Calls

variable {reserved : Set Nat} {volume : Volume} {tree : Tree}
  (represents : volume.view.Represents reserved tree) {id : Nat} (isMember : id ∈ tree.members)

include represents isMember

theorem View.Represents.isDir_eq_false (notDir : ¬ tree.IsDir id) :
    (volume.view.inode id).isDir = false := by
  rw [Bool.eq_false_iff, ne_eq, represents.isDir_iff isMember]
  exact notDir

omit isMember in
theorem View.Represents.run_isDir_true (isDir : tree.IsDir id) :
    (volume.view.fs.handle id).isDir.run volume = .ok true volume := by
  rw [represents.run_isDir isDir.member, (represents.isDir_iff isDir.member).mpr isDir]

theorem View.Represents.run_isDir_false (notDir : ¬ tree.IsDir id) :
    (volume.view.fs.handle id).isDir.run volume = .ok false volume := by
  rw [represents.run_isDir isMember, represents.isDir_eq_false isMember notDir]

/-- The checks on a new name before the rest of a call. -/
theorem Performs.checked {α : Type} {name : Str} {rest : Call α} {further : Option Ext4Error}
    {grows : Prop} {effect : α → Tree → Prop}
    (continues : ∀ warm, Warmed volume warm → tree.IsDir id → Enters warm.view id name →
      tree.lookup id name = none →
        Performs reserved tree warm further grows effect (rest.run warm)) :
    Performs reserved tree volume ((tree.refusesName id name).or further) grows effect
      ((do
        (volume.view.fs.handle id).checkNewName name
        rest : Call α).run volume) := by
  by_cases isDir : tree.IsDir id
  · rw [Tree.refusesName_of_isDir isDir]
    have checks : ((volume.view.fs.handle id).checkNewName name).run volume =
        (do
          if name.isEmpty then throw .invalidInput
          else if name.len > ext4NameLen then throw .nameTooLong
          else if (← (volume.view.fs.handle id).find name).isSome then throw .alreadyExists
          else return () : Call Unit).run volume := by
      rw [Inode.checkNewName, run_bind_ok (represents.run_isDir_true isDir)]
      rfl
    by_cases empty : name.isEmpty = true
    · rw [run_bind_err (by rw [checks, if_pos empty, run_throw]), if_pos empty]
      exact .refuse represents (Warmed.refl volume) rfl
    · rw [if_neg empty] at checks ⊢
      by_cases long : name.len > ext4NameLen
      · rw [run_bind_err (by rw [checks, if_pos long, run_throw]), if_pos long]
        exact .refuse represents (Warmed.refl volume) rfl
      · rw [if_neg long] at checks ⊢
        obtain ⟨warm, looked, warmed⟩ := represents.run_find isMember name
        rw [run_bind_ok looked, Option.isSome_map] at checks
        by_cases found : (tree.lookup id name).isSome = true
        · rw [run_bind_err (by rw [checks, if_pos found, run_throw]), if_pos found]
          exact .refuse represents warmed rfl
        · rw [if_neg found] at checks ⊢
          have absent : tree.lookup id name = none := by simpa using found
          have warmShows := (represents.warmed warmed).dirs id isDir
          rw [run_bind_ok (checks.trans (run_pure _ _)), Option.none_or]
          refine (continues warm warmed isDir ⟨by simpa using empty, by omega, ?_⟩
            absent).of_warmed represents warmed
          exact (warmShows.absent_iff name).mpr absent
  · rw [Tree.refusesName_of_not_isDir isDir, run_bind_err (by
      rw [Inode.checkNewName, run_bind_ok (represents.run_isDir_false isMember isDir)]
      rfl)]
    exact .refuse represents (Warmed.refl volume) rfl

end Calls

/-- A node without a name so far is entered under one. -/
def Tree.Makes (tree : Tree) (fs : Ext4FileSystem) (place : Nat × Str) (node : Node Nat Content)
    (inode : Inode) (later : Tree) : Prop :=
  ∃ fresh, tree.node fresh = none ∧ inode = fs.handle fresh ∧
    later = NameSpace.enter tree place fresh node

/-- The lookups in a directory that has only its dots. -/
theorem lists_of_dots {tree : Tree} {id parent : Nat} (isDir : tree.node id = some (.dir parent))
    (empty : ∀ name, tree.names (id, name) = none) {entries : List DirBinding} {fileType : UInt8}
    (mem : ∀ binding, binding ∈ entries ↔
      binding = ⟨.dot, id, fileType⟩ ∨ binding = ⟨.dotDot, parent, fileType⟩) :
    Lists entries (tree.lookup id) := by
  have different : Str.dot ≠ Str.dotDot := by decide
  intro name number
  simp only [mem, DirBinding.mk.injEq]
  rw [Tree.lookup, NameSpace.lookup_of_isDir isDir, empty]
  by_cases isDot : name = .dot
  · subst isDot
    simp [different, eq_comm]
  · rw [if_neg isDot]
    by_cases isDotDot : name = .dotDot
    · subst isDotDot
      simp [isDot, eq_comm]
    · simp [isDot, isDotDot]

theorem createSpecial_eq (self : Inode) (name : Str) (mode rdev : Nat) :
    self.createSpecial name mode rdev = (do
      self.checkNewName name
      if IsSpecial mode then
        self.createInode name (dirEntryFileTypeFromMode mode) (Inode.specialInode mode rdev)
      else throw .invalidInput) :=
  rfl

section Making

variable {reserved : Set Nat} {volume : Volume} {tree : Tree}
  (represents : volume.view.Represents reserved tree) {id : Nat}

include represents

/-- A new node is entered. -/
theorem Performs.enterFresh {grows : Prop} (isDir : tree.IsDir id) {name : Str}
    (absent : tree.lookup id name = none) {fresh : Nat} (notMember : fresh ∉ tree.members)
    {node : Node Nat Content}
    (sound : (NameSpace.enter tree (id, name) fresh node).Sound ext4RootIno) {after : Volume}
    {changed : List (List Dirent)} {fileType : UInt8}
    (passage : Passage reserved tree.members (insert fresh tree.members) (tree.members \ {id})
      volume.view after.view)
    (branch : after.view.Branch reserved (insert fresh tree.members) id changed)
    (mem : ∀ binding, binding ∈ after.view.entries id ↔
      binding = ⟨name, fresh, fileType⟩ ∨ binding ∈ volume.view.entries id)
    (shows : after.view.ShowsNode reserved (NameSpace.enter tree (id, name) fresh node) fresh) :
    Performs reserved tree volume none grows (tree.Makes volume.view.fs (id, name) node)
      (.ok (volume.view.fs.handle fresh) after) := by
  have missing : tree.node fresh = none := by
    by_contra isNode
    exact notMember isNode
  have different : fresh ≠ id := by
    rintro rfl
    exact notMember isDir.member
  refine .done rfl ⟨fresh, missing, rfl, rfl⟩ ?_ ?_
  · refine represents.enter isDir absent different sound (passage.spares.mono ?_) passage.apart
      branch mem shows
    rintro other ⟨isOther, notPair⟩
    simp only [Set.mem_insert_iff, Set.mem_singleton_iff, not_or] at notPair
    exact ⟨isOther, notPair.1⟩
  · rw [NameSpace.members_enter]
    exact passage.unowned

theorem Performs.createInode (isDir : tree.IsDir id) {name : Str}
    (enters : Enters volume.view id name) (absent : tree.lookup id name = none)
    (fileType : UInt8) {inode : Ext4Inode} {content : Content} (typed : inode.Typed)
    (nothing : ∀ (view : View) number, view.inode number = inode → view.owned number = [])
    (shows : ∀ (view : View) number, view.Mounted reserved → view.Resident reserved number →
      view.inode number = inode → view.ShowsLeaf reserved number 1 content) :
    Performs reserved tree volume none (¬ (volume.view.HasFreeInode ∧ volume.view.Roomy id 0))
      (tree.Makes volume.view.fs (id, name) (.leaf 1 content))
      (((volume.view.fs.handle id).createInode name fileType inode).run volume) := by
  have shown := represents.dirs id isDir
  obtain ⟨blocks, branch⟩ := shown.branch
  rcases passage_createInode represents.apart branch enters fileType typed nothing with
    ⟨fresh, after, changed, ran, notMember, passage, inodeEq, afterBranch, mem⟩ |
      ⟨error, after, ran, spares, crowded⟩
  · have missing : tree.node fresh = none := by
      by_contra isNode
      exact notMember isNode
    have notDir : ¬ tree.IsDir fresh := fun isFresh => notMember isFresh.member
    have noNames := represents.sound.bindings_of_none missing
    have sound : (NameSpace.enter tree (id, name) fresh (.leaf (0 + 1) content)).Sound
        ext4RootIno := by
      refine represents.sound.enter_leaf isDir (Tree.unbound_of_absent isDir absent) notDir ?_ ?_
        content
      · rw [noNames, Set.ncard_empty]
      · rw [noNames]
        exact Set.finite_empty
    have freshShows := shows after.view fresh passage.apart.mounted
      (passage.apart.resident fresh (Set.mem_insert _ _)) inodeEq
    rw [ran]
    exact .enterFresh represents isDir absent notMember sound passage afterBranch mem
      (View.Represents.showsNode_of_isLeaf (NameSpace.node_enter_self _ _ _) freshShows)
  · rw [ran]
    exact .exhausted rfl crowded (represents.spared spares)

variable (isMember : id ∈ tree.members)

include isMember

/-- A new file is an empty leaf with one name. -/
theorem Performs.createFile (name : Str) :
    Performs reserved tree volume (tree.refusesName id name)
      (¬ (volume.view.HasFreeInode ∧ volume.view.Roomy id 0))
      (tree.Makes volume.view.fs (id, name) (.leaf 1 ⟨sIfreg ||| 0o666, .file []⟩))
      (((volume.view.fs.handle id).createFile name).run volume) := by
  rw [← @Option.or_none _ (tree.refusesName id name)]
  apply Performs.checked represents isMember
  intro warm warmed isDir enters absent
  rw [← warmed.fs_eq]
  refine (Performs.createInode (represents.warmed warmed) isDir enters absent _
    (by rw [Ext4Inode.Typed]; decide : emptyFile.Typed) ?_ ?_).widen ?_
  · intro view number inodeEq
    exact (View.owned_of_emptyFile inodeEq).2
  · intro view number mounted resident inodeEq
    exact resident.showsLeaf_emptyFile mounted inodeEq
  · rintro crowded ⟨hasFree, roomy⟩
    exact crowded ⟨warmed.hasFreeInode hasFree, warmed.roomy roomy⟩

/-- A new special file is a device with one name. -/
theorem Performs.createSpecial (name : Str) (mode : UInt16) (rdev : UInt64) :
    Performs reserved tree volume
      ((tree.refusesName id name).or (if IsSpecial mode.toNat then none else some .invalidInput))
      (¬ (volume.view.HasFreeInode ∧ volume.view.Roomy id 0))
      (tree.Makes volume.view.fs (id, name) (.leaf 1 ⟨mode.toNat, .device rdev.toNat⟩))
      (((volume.view.fs.handle id).createSpecial name mode.toNat rdev.toNat).run volume) := by
  rw [createSpecial_eq]
  apply Performs.checked represents isMember
  intro warm warmed isDir enters absent
  rw [← warmed.fs_eq]
  by_cases special : IsSpecial mode.toNat
  · rw [if_pos special, if_pos special]
    refine (Performs.createInode (represents.warmed warmed) isDir enters absent _ ?_ ?_
      ?_).widen ?_
    · rw [Ext4Inode.Typed, (field_specialInode mode rdev).1]
      exact special.kind.2.2.2
    · intro view number inodeEq
      exact View.owned_of_special inodeEq
    · intro view number _ _ inodeEq
      exact View.showsLeaf_special inodeEq special
    · rintro crowded ⟨hasFree, roomy⟩
      exact crowded ⟨warmed.hasFreeInode hasFree, warmed.roomy roomy⟩
  · rw [if_neg special, if_neg special, run_throw]
    exact .refuse (represents.warmed warmed) (Warmed.refl warm) rfl

/-- A new directory has its dots and nothing else. -/
theorem Performs.createDir (name : Str) :
    Performs reserved tree volume (tree.refusesName id name)
      (¬ (volume.view.HasFreeInode ∧ volume.view.Roomy id 1))
      (tree.Makes volume.view.fs (id, name) (.dir id))
      (((volume.view.fs.handle id).createDir name).run volume) := by
  rw [← @Option.or_none _ (tree.refusesName id name), createDir_eq]
  apply Performs.checked represents isMember
  intro warm warmed isDir enters absent
  rw [← warmed.fs_eq]
  have warmRepresents := represents.warmed warmed
  obtain ⟨blocks, branch⟩ := (warmRepresents.dirs id isDir).branch
  rcases passage_makeDir warmRepresents.apart branch enters with
    ⟨fresh, after, changed, slots, ran, notMember, passage, afterBranch, mem, freshBranch,
      freshMem⟩ | ⟨error, after, ran, spares, crowded⟩
  · have missing : tree.node fresh = none := by
      by_contra isNode
      exact notMember isNode
    have different : fresh ≠ id := by
      rintro rfl
      exact notMember isDir.member
    have noNames (other : Str) : tree.names (fresh, other) = none := by
      rw [Option.eq_none_iff_forall_ne_some]
      intro child isBound
      exact notMember (represents.sound.within _ child isBound).member
    have freshNode : (NameSpace.enter tree (id, name) fresh (.dir id)).node fresh =
        some (.dir id) := NameSpace.node_enter_self _ _ _
    have freshNames (other : Str) :
        (NameSpace.enter tree (id, name) fresh (.dir id)).names (fresh, other) = none :=
      (NameSpace.names_rebind_off _ different name other _).trans (noNames other)
    rw [← NameSpace.members_enter (id, name) fresh (.dir id)] at freshBranch
    have freshShows : after.view.ShowsNode reserved
        (NameSpace.enter tree (id, name) fresh (.dir id)) fresh := by
      exact View.Represents.showsNode_of_isDir freshNode freshBranch
        (lists_of_dots freshNode freshNames freshMem)
    have sound := represents.sound.enter_dir isDir (Tree.unbound_of_absent isDir absent) missing
    rw [ran]
    exact .enterFresh warmRepresents isDir absent notMember sound passage afterBranch mem
      freshShows
  · rw [ran]
    refine .exhausted rfl ?_ (warmRepresents.spared spares)
    rintro ⟨hasFree, roomy⟩
    exact crowded ⟨warmed.hasFreeInode hasFree, warmed.roomy roomy⟩

end Making

section Revising

variable {reserved : Set Nat} {view after : View} {id : Nat} {inode : Ext4Inode}
  (revised : view.Revised after id inode)
  (blockData : inode.blockData = (view.inode id).blockData)
  (usesExtents : inode.usesExtents = (view.inode id).usesExtents)

include revised blockData usesExtents

theorem View.Revised.owned_eq : after.owned id = view.owned id := by
  rw [← revised.inode] at blockData usesExtents
  have sameTree := (View.extents_congr_of_map blockData usesExtents fun blockId isTree =>
    revised.data blockId (mem_owned.mpr (Or.inr isTree))).2
  rw [View.owned, View.owned, revised.extents, sameTree]

/-- A leaf whose inode was rewritten keeps its body. -/
theorem View.ShowsLeaf.rewritten {links : Nat} {content : Content}
    (shows : view.ShowsLeaf reserved id links content) (mounted : after.Mounted reserved)
    (resident : after.Resident reserved id) (size : inode.size = (view.inode id).size)
    (kind : inode.fileType = (view.inode id).fileType) :
    after.ShowsLeaf reserved id inode.iLinksCount ⟨inode.iMode, content.body⟩ := by
  refine ⟨by rw [revised.inode], by rw [revised.inode], ?_⟩
  have body := shows.body
  have isFileEq : inode.isFile = (view.inode id).isFile := by
    rw [Ext4Inode.isFile, kind, Ext4Inode.isFile]
  cases bodyEq : content.body with
  | file bytes =>
      rw [bodyEq] at body
      exact revised.stores body mounted resident (isFileEq.trans body.isFile)
        (usesExtents.trans body.usesExtents) size
  | device rdev =>
      rw [bodyEq] at body
      have ownedEq := revised.owned_eq blockData usesExtents
      have notDir : inode.isDir = false := by
        rw [Ext4Inode.isDir, kind]
        exact body.notDir
      have notSymlink : inode.isSymlink = false := by
        rw [Ext4Inode.isSymlink, kind]
        exact body.notSymlink
      have rdevEq : inode.specialRdev = rdev := by
        rw [Ext4Inode.specialRdev, blockData]
        exact body.rdev
      rw [← revised.inode] at isFileEq notDir notSymlink size usesExtents rdevEq
      exact ⟨isFileEq.trans body.notFile, notDir, notSymlink, size.trans body.size,
        usesExtents.trans body.usesExtents, ownedEq.trans body.owned, rdevEq⟩

end Revising

/-- A leaf with another link count. -/
theorem View.ShowsLeaf.relinked {reserved : Set Nat} {view after : View} {id links : Nat}
    {content : Content} (shows : view.ShowsLeaf reserved id links content) {count : Nat}
    (small : count < 2 ^ 16)
    (revised : view.Revised after id ((view.inode id).setILinksCount count))
    (mounted : after.Mounted reserved) (resident : after.Resident reserved id) :
    after.ShowsLeaf reserved id count content := by
  obtain ⟨blockData, usesExtents, sameMode, size⟩ :=
    Ext4Inode.setILinksCount_spec (view.inode id) count
  have shown := shows.rewritten revised blockData usesExtents mounted resident size (by
    rw [Ext4Inode.fileType, sameMode, Ext4Inode.fileType])
  rw [Ext4Inode.iLinksCount_setILinksCount _ small, sameMode, shows.mode] at shown
  exact shown

theorem linkInode_eq (self target : Inode) (name : Str) :
    self.linkInode name target = (do
      self.checkNewName name
      if ← target.isDir then throw .unsupported else enterLink self target name) :=
  rfl

/-- Why an inode cannot get another name. -/
def Tree.refusesLink (tree : Tree) (id : Nat) : Option Ext4Error :=
  match tree.node id with
  | some (.dir _) => some .unsupported
  | _ => none

section Linking

variable {reserved : Set Nat} {volume : Volume} {tree : Tree}
  (represents : volume.view.Represents reserved tree) {id : Nat}

include represents

theorem Performs.enterLink (isDir : tree.IsDir id) {name : Str}
    (enters : Enters volume.view id name) (absent : tree.lookup id name = none)
    {child links : Nat} {content : Content} (isLeaf : tree.node child = some (.leaf links content))
    (room : links < Inode.linksMax) :
    Performs reserved tree volume none (¬ volume.view.Roomy id 0)
      (fun _ later => later =
        NameSpace.enter tree (id, name) child (.leaf (links + 1) content))
      ((Ext4.enterLink (volume.view.fs.handle id) (volume.view.fs.handle child) name).run
        volume) := by
  have notDir := NameSpace.not_isDir_of_leaf isLeaf
  have different : child ≠ id := by
    rintro rfl
    exact notDir isDir
  have childMember := NameSpace.member_of_node isLeaf
  obtain ⟨blocks, branch⟩ := (represents.dirs id isDir).branch
  rcases passage_enterLink represents.apart branch enters childMember different with
    ⟨after, changed, fileType, ran, passage, revised, afterBranch, mem⟩ |
      ⟨error, after, ran, spares, crowded⟩
  · have shows := represents.leaves child links content isLeaf
    have sameMembers : insert child tree.members = tree.members :=
      Set.insert_eq_of_mem childMember
    have sound : (NameSpace.enter tree (id, name) child (.leaf (links + 1) content)).Sound
        ext4RootIno := by
      exact represents.sound.enter_leaf isDir (Tree.unbound_of_absent isDir absent) notDir
        (represents.sound.counted child links content isLeaf).2
        (represents.sound.finite_bindings isLeaf) content
    rw [shows.links, min_eq_left room] at revised
    have childShows := shows.relinked (Nat.lt_succ_of_le room) revised passage.apart.mounted
      (passage.apart.resident child childMember)
    rw [ran]
    refine .done rfl rfl ?_ ?_
    · rw [← sameMembers] at afterBranch
      exact represents.enter isDir absent different sound passage.spares
        (by rw [sameMembers]; exact passage.apart) afterBranch mem
        (View.Represents.showsNode_of_isLeaf (NameSpace.node_enter_self _ _ _) childShows)
    · rw [NameSpace.members_enter, sameMembers]
      exact passage.unowned
  · rw [ran]
    exact .exhausted rfl crowded (represents.spared spares)

/-- A leaf gets another name. -/
theorem Performs.linkInode (isMember : id ∈ tree.members) (name : Str) {child : Nat}
    (childMember : child ∈ tree.members)
    (room : ∀ links content, tree.node child = some (.leaf links content) →
      links < Inode.linksMax) :
    Performs reserved tree volume ((tree.refusesName id name).or (tree.refusesLink child))
      (¬ volume.view.Roomy id 0)
      (fun _ later => ∃ links content, tree.node child = some (.leaf links content) ∧
        later = NameSpace.enter tree (id, name) child (.leaf (links + 1) content))
      (((volume.view.fs.handle id).linkInode name (volume.view.fs.handle child)).run
        volume) := by
  rw [linkInode_eq]
  apply Performs.checked represents isMember
  intro warm warmed isDir enters absent
  rw [← warmed.fs_eq]
  have warmRepresents := represents.warmed warmed
  rw [run_bind_ok (warmRepresents.run_isDir childMember), Tree.refusesLink]
  rcases NameSpace.member_cases childMember with ⟨parent, isParent⟩ | ⟨links, content, isLeaf⟩
  · rw [(warmRepresents.isDir_iff childMember).mpr ⟨parent, isParent⟩, if_pos rfl, run_throw,
      isParent]
    exact .refuse warmRepresents (Warmed.refl warm) rfl
  · rw [(warmRepresents.leaves child links content isLeaf).not_isDir, if_neg Bool.false_ne_true]
    simp only [isLeaf]
    refine ((Performs.enterLink warmRepresents isDir enters absent isLeaf
      (room links content isLeaf)).mono ?_).widen ?_
    · rintro _ later rfl
      exact ⟨links, content, rfl, rfl⟩
    · exact fun crowded roomy => crowded (warmed.roomy roomy)

end Linking

end Ext4

end OSWorkspace
