import OSWorkspace.Ext4Trees

/-!
# Paths lead through the tree

On a volume that holds a tree a lookup in an inode is a lookup in the tree, and a path
leads from the root to the node at its end.  Neither changes more than the caches.
-/

namespace OSWorkspace

namespace Ext4

open Exec View

def Tree.walk (tree : Tree) (id : Nat) (segments : List Str) : Option Nat :=
  NameSpace.walk .dot .dotDot tree id segments

/-- The node that a path from the root leads to. -/
def Tree.resolve (tree : Tree) (path : Str) : Option Nat :=
  tree.walk ext4RootIno path.segments

theorem View.ShowsLeaf.not_isDir {reserved : Set Nat} {view : View} {id links : Nat}
    {content : Content} (shows : view.ShowsLeaf reserved id links content) :
    (view.inode id).isDir = false := by
  have body := shows.body
  cases bodyEq : content.body with
  | file bytes =>
      rw [bodyEq] at body
      exact Ext4Inode.not_isDir_of_isFile body.isFile
  | device rdev =>
      rw [bodyEq] at body
      exact body.notDir

theorem Warmed.refl (volume : Volume) : Warmed volume volume :=
  ⟨rfl, fun _ _ found => Or.inl found, fun _ _ found => Or.inl found⟩

section Members

variable {reserved : Set Nat} {volume : Volume} {tree : Tree}
  (represents : volume.view.Represents reserved tree) {id : Nat}

include represents

theorem View.Represents.isInode (isMember : id ∈ tree.members) : volume.view.fs.IsInode id :=
  (represents.apart.resident id isMember).isInode

theorem View.Represents.isDir_iff (isMember : id ∈ tree.members) :
    (volume.view.inode id).isDir = true ↔ tree.IsDir id := by
  constructor
  · intro isDir
    rcases NameSpace.member_cases isMember with treeDir | ⟨links, content, isLeaf⟩
    · exact treeDir
    · have leaf := represents.leaves id links content isLeaf
      rw [leaf.not_isDir] at isDir
      cases isDir
  · intro isDir
    obtain ⟨blocks, branch⟩ := (represents.dirs id isDir).branch
    exact branch.isDir

/-- The inode of a member can be read. -/
theorem View.Represents.run_readDiskInode (isMember : id ∈ tree.members) :
    (volume.view.fs.handle id).readDiskInode.run volume =
      .ok (volume.view.inode id) volume :=
  view_readDiskInode represents.apart.mounted.layout represents.apart.mounted.geometry
    (represents.isInode isMember)

theorem View.Represents.run_isDir (isMember : id ∈ tree.members) :
    (volume.view.fs.handle id).isDir.run volume = .ok (volume.view.inode id).isDir volume := by
  rw [Inode.isDir, run_bind_ok (represents.run_readDiskInode isMember), run_pure]

omit represents in
theorem View.ShowsDir.absent_iff {reserved : Set Nat} {view : View} {tree : Tree} {id : Nat}
    (shows : view.ShowsDir reserved tree id) (name : Str) :
    (view.dirIndex id)[name]? = none ↔ tree.lookup id name = none := by
  obtain ⟨blocks, branch⟩ := shows.branch
  rw [branch.toWellFormed.absent_iff, shows.lists.absent_iff]

theorem View.Represents.run_find (isMember : id ∈ tree.members) (name : Str) :
    ∃ after, ((volume.view.fs.handle id).find name).run volume =
        .ok ((tree.lookup id name).map volume.view.fs.handle) after ∧
      Warmed volume after := by
  have mounted := represents.apart.mounted
  by_cases isDir : tree.IsDir id
  · have shows := represents.dirs id isDir
    obtain ⟨blocks, branch⟩ := shows.branch
    cases found : tree.lookup id name with
    | none =>
        obtain ⟨after, ran, consulted⟩ := run_find_absent mounted branch.toDirectory
          ((shows.absent_iff name).mpr found)
        exact ⟨after, ran, consulted.warmed⟩
    | some child =>
        obtain ⟨fileType, isEntry⟩ := (shows.lists name child).mpr found
        obtain ⟨isChild, typed⟩ := branch.named _ isEntry
        obtain ⟨after, ran, consulted⟩ := run_find_typed mounted branch.toDirectory
          ((branch.indexed name child fileType).mpr isEntry) isChild typed
        exact ⟨after, ran, consulted.warmed⟩
  · have notDir : (volume.view.inode id).isDir = false := by
      rw [Bool.eq_false_iff, ne_eq, represents.isDir_iff isMember]
      exact isDir
    refine ⟨volume, ?_, Warmed.refl volume⟩
    rw [Tree.lookup, NameSpace.lookup_of_not_isDir isDir, Inode.find,
      run_bind_ok (represents.run_isDir isMember), notDir]
    rfl

end Members

theorem View.Represents.run_findSegments {reserved : Set Nat} {tree : Tree} (segments : List Str)
    {volume : Volume} (represents : volume.view.Represents reserved tree) {id : Nat}
    (isMember : id ∈ tree.members) :
    ∃ after, ((volume.view.fs.handle id).findSegments segments).run volume =
        .ok ((tree.walk id segments).map volume.view.fs.handle) after ∧
      Warmed volume after := by
  induction segments generalizing volume id with
  | nil => exact ⟨volume, rfl, Warmed.refl volume⟩
  | cons segment segments ih =>
      rw [Inode.findSegments, Tree.walk, NameSpace.walk]
      by_cases isDot : segment = .dot
      · rw [if_pos isDot, if_pos isDot]
        exact ih represents isMember
      · rw [if_neg isDot, if_neg isDot]
        obtain ⟨warm, ran, warmed⟩ := represents.run_find isMember segment
        rw [run_bind_ok ran]
        cases found : tree.lookup id segment with
        | none =>
            rw [Tree.lookup] at found
            rw [found]
            exact ⟨warm, rfl, warmed⟩
        | some next =>
            obtain ⟨after, rest, then'⟩ := ih (represents.warmed warmed)
              (represents.sound.node_of_lookup found)
            rw [Tree.lookup] at found
            rw [warmed.fs_eq] at rest
            rw [found]
            exact ⟨after, rest, warmed.trans then'⟩

section Roots

variable {reserved : Set Nat} {volume : Volume} {tree : Tree}
  (represents : volume.view.Represents reserved tree)

include represents

theorem View.Represents.root_member : ext4RootIno ∈ tree.members :=
  NameSpace.member_of_node represents.sound.rootNode

theorem View.Represents.run_rootInode :
    rootInode.run volume = .ok (volume.view.fs.handle ext4RootIno) volume := by
  have mounted := represents.apart.mounted
  have position : volume.fs.getInodePos ext4RootIno = some _ :=
    (mounted.layout.handle_spec mounted.geometry
      (represents.isInode represents.root_member)).1
  rw [rootInode, run_bind_ok (run_get _), position, run_bind_ok (run_expect_some _ _)]
  rfl

/-- A path from the root leads to the node at its end. -/
theorem View.Represents.run_findPath (path : Str) :
    ∃ after, ((volume.view.fs.handle ext4RootIno).findPath path).run volume =
        .ok ((tree.resolve path).map volume.view.fs.handle) after ∧
      Warmed volume after := by
  obtain ⟨after, ran, warmed⟩ := represents.run_findSegments path.segments represents.root_member
  refine ⟨after, ?_, warmed⟩
  rw [Inode.findPath]
  split_ifs
  · rw [run_bind_ok represents.run_rootInode]
    exact ran
  · rw [run_bind_ok (run_pure _ _)]
    exact ran

end Roots

end Ext4

end OSWorkspace
