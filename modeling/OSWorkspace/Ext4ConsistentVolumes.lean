import OSWorkspace.Ext4Sessions

/-!
# What holds on disk behind every session

The blocks, the entries, the link counts and the caches of a volume that holds a tree
agree with each other, and so they do behind every session.
-/

namespace OSWorkspace

namespace Ext4

open Exec View

/-- The names of an inode in the directories of the members, besides the dots. -/
def View.places (view : View) (members : Set Nat) (id : Nat) : Set (Nat × Str) :=
  {place | place.1 ∈ members ∧ (view.inode place.1).isDir = true ∧ place.2 ∉ dots ∧
    ∃ fileType, ⟨place.2, id, fileType⟩ ∈ view.entries place.1}

/-- The members are the inodes in use below the root: no block belongs to two of them or
twice to one, every entry leads to a member and names lead to every member from the
root, the count of an inode is that of its names, a directory has one name, and the
caches agree with the disk. -/
structure View.Consistent (reserved members : Set Nat) (view : View) : Prop where
  root : ext4RootIno ∈ members
  inUse : ∀ id ∈ members, id ∈ view.held .inode
  owned : ∀ id ∈ members, (view.owned id).Nodup ∧
    ∀ blockId ∈ view.owned id, blockId ∈ view.held .block ∧ blockId ∉ reserved
  disjoint : ∀ first ∈ members, ∀ second ∈ members, first ≠ second →
    List.Disjoint (view.owned first) (view.owned second)
  inside : ∀ dir ∈ members, (view.inode dir).isDir = true →
    ((view.entries dir).map DirBinding.name).Nodup ∧
      ∀ binding ∈ view.entries dir, binding.inodeNum ∈ members
  counted : ∀ id ∈ members, (view.inode id).isDir = false →
    (view.places members id).ncard = (view.inode id).iLinksCount
  single : ∀ id ∈ members, (view.inode id).isDir = true → id ≠ ext4RootIno →
    ∃ place, view.places members id = {place}
  reached : ∀ id ∈ members, Relation.ReflTransGen
    (fun dir child => ∃ name, (dir, name) ∈ view.places members child) ext4RootIno id
  extents : ∀ id ∈ members, view.Coherent id
  indexes : ∀ dir ∈ members, (view.inode dir).isDir = true →
    ∀ index, view.dirIndexCache[dir]? = some index → DirIndex.Covers index (view.entries dir)

section Consistency

variable {reserved : Set Nat} {volume : Volume} {tree : Tree}
  (represents : volume.view.Represents reserved tree)

include represents

theorem View.Represents.places_eq (id : Nat) :
    volume.view.places tree.members id = NameSpace.bindings tree id := by
  ext ⟨dir, name⟩
  constructor
  · rintro ⟨isMember, isDir, notDots, fileType, isEntry⟩
    have treeDir := (represents.isDir_iff isMember).mp isDir
    have found := ((represents.dirs dir treeDir).lists name id).mp ⟨fileType, isEntry⟩
    exact (NameSpace.lookup_of_proper treeDir (not_mem_dots.mp notDots)).symm.trans found
  · intro isBound
    have treeDir := represents.sound.within (dir, name) id isBound
    exact ⟨treeDir.member, (represents.isDir_iff treeDir.member).mpr treeDir,
      represents.avoids (dir, name) id isBound, represents.isEntry isBound⟩

theorem View.Represents.consistent : volume.view.Consistent reserved tree.members := by
  have branches {dir : Nat} (isMember : dir ∈ tree.members)
      (isDir : (volume.view.inode dir).isDir = true) :
      ∃ blocks, volume.view.Branch reserved tree.members dir blocks :=
    (represents.dirs dir ((represents.isDir_iff isMember).mp isDir)).branch
  constructor
  · exact represents.root_member
  · intro id isMember
    exact (represents.apart.resident id isMember).inUse
  · intro id isMember
    have owning := (represents.apart.resident id isMember).owning
    exact ⟨owning.nodup, fun blockId isOwned =>
      ⟨owning.held blockId isOwned, owning.outside blockId isOwned⟩⟩
  · exact represents.apart.disjoint
  · intro dir isMember isDir
    obtain ⟨blocks, branch⟩ := branches isMember isDir
    exact ⟨branch.toHolds.entries_nodup branch.distinct, branch.inside⟩
  · intro id isMember notDir
    rw [represents.places_eq]
    rcases NameSpace.member_cases isMember with treeDir | ⟨links, content, isLeaf⟩
    · rw [(represents.isDir_iff isMember).mpr treeDir] at notDir
      cases notDir
    · rw [(represents.leaves id links content isLeaf).links]
      exact (represents.sound.counted id links content isLeaf).2
  · intro id isMember isDir notRoot
    obtain ⟨parent, treeDir⟩ := (represents.isDir_iff isMember).mp isDir
    obtain ⟨name, alone⟩ := represents.sound.single id parent treeDir notRoot
    exact ⟨(parent, name), (represents.places_eq id).trans alone⟩
  · intro id isMember
    have same : (fun dir child => ∃ name, (dir, name) ∈
        volume.view.places tree.members child) = NameSpace.Leads tree := by
      funext dir child
      rw [represents.places_eq]
      rfl
    rw [same]
    exact represents.sound.reaches isMember
  · intro id isMember
    exact (represents.apart.resident id isMember).coherent
  · intro dir isMember isDir index cached
    obtain ⟨blocks, branch⟩ := branches isMember isDir
    exact branch.toWellFormed.covers_cached cached

/-- Behind every session the volume is consistent. -/
theorem session_consistent {requests : List PathRequest} (permits : PermitsAll tree requests) :
    ∃ results after members, (session requests).run volume = .ok results after ∧
      after.view.Consistent reserved members := by
  obtain ⟨results, after, later, full, ran, _, holds, _⟩ := simulates_session represents permits
  exact ⟨results, after, _, ran, holds.consistent⟩

end Consistency

theorem session_consistent_roomy :
    ∃ results after members,
      (session shortSession).run (rootVolume roomyBitmap) = .ok results after ∧
      after.view.Consistent {block | block ≤ 5} members :=
  session_consistent represents_roomy (permits_shortSession rootTree)

end Ext4

end OSWorkspace
