import OSWorkspace.Ext4NewDirectories
import OSWorkspace.Ext4Paths
import OSWorkspace.NameSpaces

/-!
# Volumes that hold a tree

A volume holds a tree of directories, files and devices when the inodes in use are
those of the tree, no block belongs to two of them, the entries of each directory are
the names of the tree and its dots, and each leaf has its content and counts its names.
A change of the volume that spares most inodes is a change of the tree at the others.
-/

namespace OSWorkspace

namespace Ext4

open Exec View

/-- The bytes of a file, or the number of a device. -/
inductive Body where
  | file (bytes : List UInt8)
  | device (rdev : Nat)

structure Content where
  mode : Nat
  body : Body

abbrev Tree := NameSpace Nat Str Content

/-- The names that every directory has of its own. -/
def dots : Set Str := {.dot, .dotDot}

theorem not_mem_dots {name : Str} : name ∉ dots ↔ name ≠ .dot ∧ name ≠ .dotDot := by
  simp [dots]

def Tree.lookup (tree : Tree) (id : Nat) (name : Str) : Option Nat :=
  NameSpace.lookup .dot .dotDot tree id name

/-- The entries bind exactly the given names. -/
def Lists (entries : List DirBinding) (children : Str → Option Nat) : Prop :=
  ∀ name id, (∃ fileType, ⟨name, id, fileType⟩ ∈ entries) ↔ children name = some id

structure View.ShowsDir (reserved : Set Nat) (view : View) (tree : Tree) (dir : Nat) : Prop where
  branch : ∃ blocks, view.Branch reserved tree.members dir blocks
  lists : Lists (view.entries dir) (tree.lookup dir)

/-- A special inode: no block belongs to it. -/
structure View.IsDevice (view : View) (id rdev : Nat) : Prop where
  notFile : (view.inode id).isFile = false
  notDir : (view.inode id).isDir = false
  notSymlink : (view.inode id).isSymlink = false
  size : (view.inode id).size = 0
  usesExtents : (view.inode id).usesExtents = false
  owned : view.owned id = []
  rdev : (view.inode id).specialRdev = rdev

def View.ShowsBody (reserved : Set Nat) (view : View) (id : Nat) : Body → Prop
  | .file bytes => view.Stores reserved id bytes
  | .device rdev => view.IsDevice id rdev

structure View.ShowsLeaf (reserved : Set Nat) (view : View) (id links : Nat)
    (content : Content) : Prop where
  links : (view.inode id).iLinksCount = links
  mode : (view.inode id).iMode = content.mode
  body : view.ShowsBody reserved id content.body

/-- The volume behind the view holds the tree. -/
structure View.Represents (reserved : Set Nat) (view : View) (tree : Tree) : Prop where
  sound : tree.Sound ext4RootIno
  avoids : tree.Avoids dots
  apart : view.Apart reserved tree.members
  dirs : ∀ id, tree.IsDir id → view.ShowsDir reserved tree id
  leaves : ∀ id links content, tree.node id = some (.leaf links content) →
    view.ShowsLeaf reserved id links content

namespace Lists

variable {entries later : List DirBinding} {children : Str → Option Nat}
  (lists : Lists entries children)

include lists

theorem absent_iff (name : Str) :
    children name = none ↔ ∀ binding ∈ entries, binding.name ≠ name := by
  rw [Option.eq_none_iff_forall_ne_some]
  constructor
  · rintro absent ⟨_, id, fileType⟩ isEntry rfl
    exact absent id ((lists _ id).mp ⟨fileType, isEntry⟩)
  · intro absent id found
    obtain ⟨fileType, isEntry⟩ := (lists name id).mpr found
    exact absent _ isEntry rfl

theorem insert {name : Str} (absent : children name = none) {child : Nat} {fileType : UInt8}
    (mem : ∀ binding, binding ∈ later ↔ binding = ⟨name, child, fileType⟩ ∨ binding ∈ entries) :
    Lists later (Function.update children name (some child)) := by
  intro other id
  by_cases same : other = name
  · subst same
    rw [Function.update_self, Option.some_inj]
    constructor
    · rintro ⟨otherType, isEntry⟩
      rcases (mem _).mp isEntry with isNew | wasEntry
      · exact (DirBinding.mk.inj isNew).2.1.symm
      · exact absurd rfl ((lists.absent_iff other).mp absent _ wasEntry)
    · rintro rfl
      exact ⟨fileType, (mem _).mpr (Or.inl rfl)⟩
  · rw [Function.update_of_ne same, ← lists]
    constructor
    · rintro ⟨otherType, isEntry⟩
      rcases (mem _).mp isEntry with isNew | wasEntry
      · exact absurd (DirBinding.mk.inj isNew).1 same
      · exact ⟨otherType, wasEntry⟩
    · rintro ⟨otherType, wasEntry⟩
      exact ⟨otherType, (mem _).mpr (Or.inr wasEntry)⟩

theorem erase {name : Str}
    (mem : ∀ binding, binding ∈ later ↔ binding ∈ entries ∧ binding.name ≠ name) :
    Lists later (Function.update children name none) := by
  intro other id
  by_cases same : other = name
  · subst same
    rw [Function.update_self]
    constructor
    · rintro ⟨otherType, isEntry⟩
      exact absurd rfl ((mem _).mp isEntry).2
    · intro found
      cases found
  · rw [Function.update_of_ne same, ← lists]
    constructor
    · rintro ⟨otherType, isEntry⟩
      exact ⟨otherType, ((mem _).mp isEntry).1⟩
    · rintro ⟨otherType, wasEntry⟩
      exact ⟨otherType, (mem _).mpr ⟨wasEntry, same⟩⟩

theorem exchange {old new : Str} (absent : children new = none) {child : Nat} {fileType : UInt8}
    (mem : ∀ binding, binding ∈ later ↔
      (binding ∈ entries ∧ binding.name ≠ old) ∨ binding = ⟨new, child, fileType⟩) :
    Lists later (Function.update (Function.update children old none) new (some child)) := by
  have erased : Lists (entries.filter fun binding => binding.name ≠ old)
      (Function.update children old none) := by
    apply lists.erase
    intro binding
    rw [List.mem_filter, decide_eq_true_eq]
  apply erased.insert
  · rw [erased.absent_iff]
    intro binding isKept
    exact (lists.absent_iff new).mp absent binding (List.mem_filter.mp isKept).1
  · intro binding
    rw [mem, List.mem_filter, decide_eq_true_eq]
    exact Or.comm

end Lists

section Spared

variable {reserved kept : Set Nat} {view after : View} {id : Nat}
  (spares : Spares reserved kept view after) (isKept : id ∈ kept)

include spares isKept

theorem View.IsDevice.spared {rdev : Nat} (device : view.IsDevice id rdev) :
    after.IsDevice id rdev := by
  have unchanged := spares.unchanged id isKept
  have same := unchanged.inode
  exact ⟨by rw [same]; exact device.notFile, by rw [same]; exact device.notDir,
    by rw [same]; exact device.notSymlink, by rw [same]; exact device.size,
    by rw [same]; exact device.usesExtents, unchanged.owned_eq.trans device.owned,
    by rw [same]; exact device.rdev⟩

theorem View.ShowsLeaf.spared {links : Nat} {content : Content}
    (shows : view.ShowsLeaf reserved id links content) :
    after.ShowsLeaf reserved id links content := by
  have unchanged := spares.unchanged id isKept
  refine ⟨by rw [unchanged.inode]; exact shows.links, by rw [unchanged.inode]; exact shows.mode, ?_⟩
  have body := shows.body
  cases bodyEq : content.body with
  | file bytes =>
      rw [bodyEq] at body
      exact spares.stores isKept body
  | device rdev =>
      rw [bodyEq] at body
      exact View.IsDevice.spared spares isKept body

theorem View.ShowsDir.spared {tree later : Tree} (shows : view.ShowsDir reserved tree id)
    (apart : after.Apart reserved later.members) (sound : later.Sound ext4RootIno)
    (isMember : id ∈ later.members) (sameLookup : later.lookup id = tree.lookup id) :
    after.ShowsDir reserved later id := by
  obtain ⟨blocks, branch⟩ := shows.branch
  refine ⟨⟨blocks, branch.spared apart spares isKept ?_ isMember⟩, ?_⟩
  · intro binding isEntry
    have found := (shows.lists binding.name binding.inodeNum).mp ⟨binding.fileType, isEntry⟩
    rw [← sameLookup] at found
    exact sound.node_of_lookup found
  · rw [sameLookup, (spares.unchanged id isKept).entries_eq]
    exact shows.lists

end Spared

namespace View.Represents

variable {reserved : Set Nat} {view after : View} {tree : Tree}
  (represents : view.Represents reserved tree)

include represents

/-- A change of the nodes that are not kept. -/
theorem change {kept : Set Nat} {later : Tree} (spares : Spares reserved kept view after)
    (apart : after.Apart reserved later.members) (sound : later.Sound ext4RootIno)
    (avoids : later.Avoids dots) (nodes : ∀ id ∈ kept, later.node id = tree.node id)
    (names : ∀ id ∈ kept, ∀ name, later.names (id, name) = tree.names (id, name))
    (dirs : ∀ id, id ∉ kept → later.IsDir id → after.ShowsDir reserved later id)
    (leaves : ∀ id links content, id ∉ kept → later.node id = some (.leaf links content) →
      after.ShowsLeaf reserved id links content) : after.Represents reserved later := by
  refine ⟨sound, avoids, apart, ?_, ?_⟩
  · intro id isDir
    by_cases isKept : id ∈ kept
    · have wasDir := isDir
      rw [NameSpace.IsDir, nodes id isKept] at wasDir
      exact (represents.dirs id wasDir).spared spares isKept apart sound isDir.member
        (NameSpace.lookup_congr (nodes id isKept) (names id isKept))
    · exact dirs id isKept isDir
  · intro id links content isLeaf
    by_cases isKept : id ∈ kept
    · rw [nodes id isKept] at isLeaf
      exact (represents.leaves id links content isLeaf).spared spares isKept
    · exact leaves id links content isKept isLeaf

/-- A step that spares every inode in use leaves the tree. -/
theorem spared (spares : Spares reserved tree.members view after) :
    after.Represents reserved tree := by
  apply represents.change spares (represents.apart.spared spares) represents.sound
    represents.avoids (fun _ _ => rfl) (fun _ _ _ => rfl)
  · intro id missing isDir
    exact absurd isDir.member missing
  · intro id links content missing isLeaf
    exact absurd (NameSpace.member_of_node isLeaf) missing

end View.Represents

theorem View.Represents.warmed {reserved : Set Nat} {volume after : Volume} {tree : Tree}
    (represents : volume.view.Represents reserved tree) (warmed : Warmed volume after) :
    after.view.Represents reserved tree :=
  represents.spared (warmed.spares reserved tree.members)

end Ext4

end OSWorkspace
