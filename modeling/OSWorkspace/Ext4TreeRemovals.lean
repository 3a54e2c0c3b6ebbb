import OSWorkspace.Ext4TreeCalls

/-!
# Names that leave the tree

A name of a leaf can always be removed, that of a directory only when nothing is left in
it.  The node goes with its last name, and its blocks and its number are free again.
-/

namespace OSWorkspace

namespace Ext4

open Exec View

theorem Tree.lookup_of_names {tree : Tree} (sound : tree.Sound ext4RootIno)
    (avoids : tree.Avoids dots) {dir child : Nat} {name : Str}
    (isBound : tree.names (dir, name) = some child) : tree.lookup dir name = some child := by
  have isDir := sound.within (dir, name) child isBound
  have proper := not_mem_dots.mp (avoids (dir, name) child isBound)
  exact (NameSpace.lookup_of_proper isDir proper).trans isBound

section Names

variable {reserved : Set Nat} {view : View} {tree : Tree}
  (represents : view.Represents reserved tree) {dir : Nat}

include represents

/-- A bound name is an entry. -/
theorem View.Represents.isEntry {name : Str} {child : Nat}
    (isBound : tree.names (dir, name) = some child) :
    ∃ fileType, ⟨name, child, fileType⟩ ∈ view.entries dir := by
  have isDir := represents.sound.within (dir, name) child isBound
  exact ((represents.dirs dir isDir).lists name child).mpr
    (Tree.lookup_of_names represents.sound represents.avoids isBound)

/-- A bound name is no dot and stands among the entries of a directory. -/
theorem View.Represents.bound_entry {name : Str} {child : Nat}
    (isBound : tree.names (dir, name) = some child) :
    (name ≠ .dot ∧ name ≠ .dotDot) ∧
      ∃ fileType blocks, ⟨name, child, fileType⟩ ∈ view.entries dir ∧
        view.Branch reserved tree.members dir blocks := by
  have isDir := represents.sound.within (dir, name) child isBound
  obtain ⟨fileType, isEntry⟩ := represents.isEntry isBound
  obtain ⟨blocks, branch⟩ := (represents.dirs dir isDir).branch
  exact ⟨not_mem_dots.mp (represents.avoids (dir, name) child isBound), fileType, blocks, isEntry,
    branch⟩

/-- The names of a directory, without its dots, are those that are bound there. -/
theorem View.Represents.mem_names (isDir : tree.IsDir dir) (name : Str) :
    name ∈ view.names dir ↔ tree.names (dir, name) ≠ none := by
  rw [View.mem_names, Option.ne_none_iff_exists']
  constructor
  · rintro ⟨⟨binding, isEntry, rfl⟩, proper⟩
    refine ⟨binding.inodeNum, ?_⟩
    rw [← NameSpace.lookup_of_proper isDir proper]
    exact ((represents.dirs dir isDir).lists _ _).mp ⟨binding.fileType, isEntry⟩
  · rintro ⟨child, isBound⟩
    obtain ⟨fileType, isEntry⟩ := represents.isEntry isBound
    exact ⟨⟨_, isEntry, rfl⟩, not_mem_dots.mp (represents.avoids (dir, name) child isBound)⟩

theorem View.Represents.names_eq_nil (isDir : tree.IsDir dir) :
    view.names dir = [] ↔ ∀ name, tree.names (dir, name) = none := by
  rw [List.eq_nil_iff_forall_not_mem]
  refine forall_congr' fun name => ?_
  rw [represents.mem_names isDir, not_not]

/-- No other entry leads to a node with one name. -/
theorem View.Represents.only_entry {child : Nat} {name : Str}
    (alone : NameSpace.bindings tree child = {(dir, name)}) (isDir : tree.IsDir dir) :
    ∀ binding ∈ view.entries dir, binding.name ≠ name → binding.inodeNum ≠ child := by
  rintro binding isEntry isOther rfl
  exact isOther (represents.sound.name_of_lookup alone
    (((represents.dirs dir isDir).lists _ _).mp ⟨binding.fileType, isEntry⟩))

end Names

/-- What is left of a node that loses a name. -/
def Tree.released (tree : Tree) (child : Nat) : Option (Node Nat Content) :=
  match tree.node child with
  | some (.leaf links content) => if links = 1 then none else some (.leaf (links - 1) content)
  | _ => none

def Tree.remove (tree : Tree) (dir : Nat) (name : Str) (child : Nat) : Tree :=
  NameSpace.leave tree (dir, name) child (tree.released child)

open Classical in
/-- Why a node cannot lose a name. -/
noncomputable def Tree.refusesLoss (tree : Tree) (child : Nat) : Option Ext4Error :=
  if tree.IsDir child ∧ ∃ other, tree.names (child, other) ≠ none then some .unsupported
  else none

open Classical in
/-- Why a name cannot be removed. -/
noncomputable def Tree.refusesRemoval (tree : Tree) (dir : Nat) (name : Str) : Option Ext4Error :=
  if name.isEmpty ∨ name = .dot ∨ name = .dotDot then some .invalidInput
  else if ¬ tree.IsDir dir then some .notADirectory
  else
    match tree.names (dir, name) with
    | none => some .notFound
    | some child => tree.refusesLoss child

theorem View.ShowsLeaf.tidy {reserved : Set Nat} {view : View} {id links : Nat}
    {content : Content} (shows : view.ShowsLeaf reserved id links content) :
    Tidy (view.extents id) := by
  have body := shows.body
  cases bodyEq : content.body with
  | file bytes =>
      rw [bodyEq] at body
      exact body.tidy
  | device rdev =>
      rw [bodyEq] at body
      have noExtents : view.extents id = [] := by
        rw [View.extents, body.usesExtents]
        rfl
      rw [noExtents]
      exact Tidy.nil

section Removing

variable {reserved : Set Nat} {volume : Volume} {tree : Tree}
  (represents : volume.view.Represents reserved tree) {dir child : Nat} {name : Str}
  (isBound : tree.names (dir, name) = some child)

include represents isBound

/-- A leaf with several names loses one of them. -/
theorem Performs.unlink_shared {links : Nat} {content : Content}
    (isLeaf : tree.node child = some (.leaf links content)) (shared : 1 < links) :
    Performs reserved tree volume none False (fun _ later => later = tree.remove dir name child)
      (((volume.view.fs.handle dir).unlink name).run volume) := by
  obtain ⟨proper, fileType, blocks, isEntry, branch⟩ := represents.bound_entry isBound
  have isMember := NameSpace.member_of_node isLeaf
  have shows := represents.leaves child links content isLeaf
  obtain ⟨after, changed, ran, passage, revised, afterBranch, mem⟩ :=
    passage_unlink_shared represents.apart branch proper isEntry shows.not_isDir
      (by rw [shows.links]; exact shared)
  have released : tree.released child = some (.leaf (links - 1) content) := by
    simp only [Tree.released, isLeaf, if_neg shared.ne']
  have sound := represents.sound.leave_leaf isBound isLeaf
  rw [if_neg shared.ne'] at sound
  have small : links - 1 < 2 ^ 16 := by
    have bound := (volume.view.inode child).iLinksCount_lt
    rw [shows.links] at bound
    omega
  rw [shows.links] at revised
  have childShows := shows.relinked small revised passage.apart.mounted
    (passage.apart.resident child isMember)
  have sameMembers := NameSpace.members_leave_some (dir, name) isMember
    (.leaf (links - 1) content)
  rw [ran, Tree.remove, released]
  refine .done rfl rfl ?_ (by rw [sameMembers]; exact passage.unowned)
  exact represents.leave isBound sound passage.spares (by rw [sameMembers]; exact passage.apart)
    (by rw [sameMembers]; exact afterBranch) mem
    (View.Represents.showsNode_of_isLeaf (NameSpace.node_leave_self _ _ _) childShows)

/-- What is left when a node goes with its only name. -/
theorem View.Represents.leave_last {after : View} {blocks : List (List Dirent)}
    (sound : (NameSpace.leave tree (dir, name) child none).Sound ext4RootIno)
    (passage : Passage reserved tree.members (tree.members \ {child})
      (tree.members \ {dir, child}) volume.view after)
    (branch : after.Branch reserved (tree.members \ {child}) dir blocks)
    (mem : ∀ binding, binding ∈ after.entries dir ↔
      binding ∈ volume.view.entries dir ∧ binding.name ≠ name) :
    after.Represents reserved (NameSpace.leave tree (dir, name) child none) := by
  have members : (NameSpace.leave tree (dir, name) child none).members =
      tree.members \ {child} := NameSpace.members_leave_none (dir, name) child
  exact represents.leave isBound sound passage.spares (by rw [members]; exact passage.apart)
    (by rw [members]; exact branch) mem
    (View.Represents.showsNode_of_none (NameSpace.node_leave_self _ _ _))

/-- A leaf goes with its last name. -/
theorem Performs.unlink_last {content : Content}
    (isLeaf : tree.node child = some (.leaf 1 content)) :
    Performs reserved tree volume none False (fun _ later => later = tree.remove dir name child)
      (((volume.view.fs.handle dir).unlink name).run volume) := by
  have isDir := represents.sound.within (dir, name) child isBound
  obtain ⟨proper, fileType, blocks, isEntry, branch⟩ := represents.bound_entry isBound
  have shows := represents.leaves child 1 content isLeaf
  have alone := represents.sound.alone_of_leaf isBound isLeaf
  obtain ⟨after, changed, ran, passage, afterBranch, mem⟩ :=
    passage_unlink_last represents.apart branch proper isEntry shows.not_isDir shows.links
      shows.tidy (represents.only_entry alone isDir)
  have released : tree.released child = none := by
    simp only [Tree.released, isLeaf, if_true]
  have sound := represents.sound.leave_leaf isBound isLeaf
  rw [if_pos rfl] at sound
  rw [ran, Tree.remove, released]
  refine .done rfl rfl (represents.leave_last isBound sound passage afterBranch mem) ?_
  rw [NameSpace.members_leave_none]
  exact passage.unowned

/-- A directory goes when nothing is left in it. -/
theorem Performs.unlink_directory (isDir : tree.IsDir child) :
    Performs reserved tree volume (tree.refusesLoss child) False
      (fun _ later => later = tree.remove dir name child)
      (((volume.view.fs.handle dir).unlink name).run volume) := by
  have dirIsDir := represents.sound.within (dir, name) child isBound
  obtain ⟨proper, fileType, blocks, isEntry, branch⟩ := represents.bound_entry isBound
  obtain ⟨childBlocks, childBranch⟩ := (represents.dirs child isDir).branch
  by_cases occupied : ∃ other, tree.names (child, other) ≠ none
  · obtain ⟨other, isOther⟩ := occupied
    have listed : volume.view.names child ≠ [] := by
      intro empty
      exact isOther ((represents.names_eq_nil isDir).mp empty other)
    obtain ⟨after, ran, warmed⟩ := run_unlink_occupied represents.apart branch proper isEntry
      childBranch listed
    rw [ran, Tree.refusesLoss, if_pos ⟨isDir, other, isOther⟩]
    exact .refuse represents warmed rfl
  · have empty : ∀ other, tree.names (child, other) = none := by
      intro other
      by_contra isOther
      exact occupied ⟨other, isOther⟩
    obtain ⟨parent, isParent⟩ := isDir
    have alone := (represents.sound.bound_by_parent isBound isParent).2.2
    obtain ⟨after, changed, ran, passage, afterBranch, mem⟩ :=
      passage_unlink_directory represents.apart branch proper isEntry childBranch
        ((represents.names_eq_nil ⟨parent, isParent⟩).mpr empty)
        (represents.only_entry alone dirIsDir)
    have released : tree.released child = none := by
      simp only [Tree.released, isParent]
    rw [ran, Tree.remove, released, Tree.refusesLoss, if_neg fun busy => occupied busy.2]
    refine .done rfl rfl (represents.leave_last isBound
      (represents.sound.leave_dir isBound isParent empty) passage afterBranch mem) ?_
    rw [NameSpace.members_leave_none]
    exact passage.unowned

end Removing

/-- A name is removed. -/
theorem Performs.unlink {reserved : Set Nat} {volume : Volume} {tree : Tree}
    (represents : volume.view.Represents reserved tree) {dir : Nat}
    (isMember : dir ∈ tree.members) (name : Str) :
    Performs reserved tree volume (tree.refusesRemoval dir name) False
      (fun _ later => ∃ child, tree.names (dir, name) = some child ∧
        later = tree.remove dir name child)
      (((volume.view.fs.handle dir).unlink name).run volume) := by
  by_cases odd : name.isEmpty ∨ name = .dot ∨ name = .dotDot
  · rw [Inode.unlink, if_pos odd, run_throw, Tree.refusesRemoval, if_pos odd]
    exact .refuse represents (Warmed.refl volume) rfl
  · by_cases isDir : tree.IsDir dir
    · rw [Tree.refusesRemoval, if_neg odd, if_neg (not_not_intro isDir)]
      have proper : name ≠ .dot ∧ name ≠ .dotDot := by
        simp only [not_or] at odd
        exact odd.2
      cases isBound : tree.names (dir, name) with
      | none =>
          have absent : tree.lookup dir name = none :=
            (NameSpace.lookup_of_proper isDir proper).trans isBound
          obtain ⟨warm, ran, warmed⟩ := represents.run_find isMember name
          rw [absent] at ran
          rw [Inode.unlink, if_neg odd, run_bind_ok (represents.run_isDir_true isDir),
            if_neg (not_not_intro rfl), run_bind_ok ran]
          exact .refuse represents warmed rfl
      | some child =>
          have removes : ∀ later, later = tree.remove dir name child →
              ∃ other, some child = some other ∧ later = tree.remove dir name other :=
            fun later isLater => ⟨child, rfl, isLater⟩
          by_cases childIsDir : tree.IsDir child
          · exact (Performs.unlink_directory represents isBound childIsDir).mono fun _ => removes
          · have losing : tree.refusesLoss child = none := if_neg fun busy => childIsDir busy.1
            simp only [losing]
            have childMember := represents.sound.bound _ child isBound
            obtain ⟨links, content, isLeaf⟩ :=
              (NameSpace.member_cases childMember).resolve_left childIsDir
            have positive := (represents.sound.counted child links content isLeaf).1
            by_cases last : links = 1
            · subst last
              exact (Performs.unlink_last represents isBound isLeaf).mono fun _ => removes
            · exact (Performs.unlink_shared represents isBound isLeaf (by omega)).mono
                fun _ => removes
    · rw [Inode.unlink, if_neg odd, run_bind_ok (represents.run_isDir_false isMember isDir),
        Tree.refusesRemoval, if_neg odd, if_pos isDir]
      exact .refuse represents (Warmed.refl volume) rfl

/-- Why a name cannot be changed into another. -/
noncomputable def Tree.refusesRename (tree : Tree) (dir : Nat) (old new : Str) :
    Option Ext4Error :=
  open Classical in
  if ¬ tree.IsDir dir then some .notADirectory
  else if old.isEmpty ∨ new.isEmpty ∨ old = .dot ∨ old = .dotDot ∨ new = .dot ∨ new = .dotDot then
    some .invalidInput
  else if old = new then none
  else if (tree.names (dir, new)).isSome then some .alreadyExists
  else if tree.names (dir, old) = none then some .notFound
  else none

/-- The tree behind a change of a name, which may be no change. -/
def Tree.Renames (tree : Tree) (dir : Nat) (old new : Str) (later : Tree) : Prop :=
  if old = new then later = tree
  else ∃ child, tree.names (dir, old) = some child ∧ later = NameSpace.move tree dir old new child

section Renaming

variable {reserved : Set Nat} {volume : Volume} {tree : Tree}
  (represents : volume.view.Represents reserved tree) {dir : Nat}

include represents

theorem Performs.exchangeNames {old new : Str} {child : Nat}
    (isBound : tree.names (dir, old) = some child) (enters : Enters volume.view dir new)
    (absent : tree.lookup dir new = none) (fileType : UInt8) :
    Performs reserved tree volume none (¬ volume.view.Roomy dir 0)
      (fun _ later => later = NameSpace.move tree dir old new child)
      ((Ext4.exchangeNames (volume.view.fs.handle dir) old new child fileType).run volume) := by
  obtain ⟨proper, oldType, blocks, isEntry, branch⟩ := represents.bound_entry isBound
  rcases passage_exchangeNames represents.apart branch enters proper isEntry fileType with
    ⟨after, changed, ran, passage, afterBranch, mem⟩ | ⟨error, after, ran, spares, crowded⟩
  · rw [ran]
    exact .done rfl rfl (represents.move isBound absent passage.spares passage.apart afterBranch
      mem) passage.unowned
  · rw [ran]
    exact .exhausted rfl crowded (represents.spared spares)

/-- A name is changed within its directory. -/
theorem Performs.rename (isMember : dir ∈ tree.members) {old new : Str}
    (short : new.len ≤ ext4NameLen) :
    Performs reserved tree volume (tree.refusesRename dir old new) (¬ volume.view.Roomy dir 0)
      (fun _ later => tree.Renames dir old new later)
      (((volume.view.fs.handle dir).rename old new).run volume) := by
  by_cases isDir : tree.IsDir dir
  · rw [Inode.rename, run_bind_ok (represents.run_isDir_true isDir), if_neg (not_not_intro rfl),
      Tree.refusesRename, if_neg (not_not_intro isDir)]
    by_cases odd : old.isEmpty ∨ new.isEmpty ∨ old = .dot ∨ old = .dotDot ∨ new = .dot ∨
        new = .dotDot
    · rw [if_pos odd, if_pos odd, run_throw]
      exact .refuse represents (Warmed.refl volume) rfl
    · rw [if_neg odd, if_neg odd]
      simp only [not_or] at odd
      obtain ⟨oldNonempty, newNonempty, oldDot, oldDotDot, newDot, newDotDot⟩ := odd
      unfold Tree.Renames
      by_cases same : old = new
      · rw [if_pos same, if_pos same]
        simp only [if_pos same]
        exact .done rfl rfl represents rfl
      · rw [if_neg same, if_neg same]
        simp only [if_neg same]
        rw [← NameSpace.lookup_of_proper isDir ⟨newDot, newDotDot⟩,
          ← NameSpace.lookup_of_proper isDir ⟨oldDot, oldDotDot⟩]
        change Performs reserved tree volume
          (if (tree.lookup dir new).isSome = true then some .alreadyExists
            else if tree.lookup dir old = none then some .notFound else none) _ _ _
        obtain ⟨first, ranNew, warmed⟩ := represents.run_find isMember new
        rw [run_bind_ok ranNew, Option.isSome_map]
        by_cases taken : (tree.lookup dir new).isSome = true
        · rw [if_pos taken, if_pos taken, run_throw]
          exact .refuse represents warmed rfl
        · rw [if_neg taken, if_neg taken]
          have absent : tree.lookup dir new = none := by simpa using taken
          obtain ⟨second, ranOld, then'⟩ := (represents.warmed warmed).run_find isMember old
          rw [warmed.fs_eq] at ranOld
          have bothWarmed := warmed.trans then'
          have secondRepresents := represents.warmed bothWarmed
          cases found : tree.lookup dir old with
          | none =>
              rw [found] at ranOld
              rw [run_bind_ok ranOld]
              exact .refuse represents bothWarmed rfl
          | some child =>
              have isBound : tree.names (dir, old) = some child := by
                rw [← NameSpace.lookup_of_proper isDir ⟨oldDot, oldDotDot⟩]
                exact found
              have childMember := represents.sound.bound _ child isBound
              have read := secondRepresents.run_readDiskInode childMember
              rw [found] at ranOld
              rw [bothWarmed.fs_eq] at read
              have rest := Performs.exchangeNames secondRepresents isBound
                ⟨by simpa using newNonempty, short,
                  ((secondRepresents.dirs dir isDir).absent_iff new).mpr absent⟩ absent
                (renamedType (second.view.inode child))
              rw [bothWarmed.fs_eq] at rest
              rw [run_bind_ok ranOld, Option.map_some, run_bind_ok (run_okOr_some _ _ _),
                run_bind_ok read, if_neg (Option.some_ne_none child)]
              refine ((rest.mono ?_).widen ?_).of_warmed represents bothWarmed
              · rintro _ later isMoved
                exact ⟨child, found, isMoved⟩
              · exact fun crowded roomy => crowded (bothWarmed.roomy roomy)
  · rw [Inode.rename, run_bind_ok (represents.run_isDir_false isMember isDir),
      Tree.refusesRename, if_pos isDir]
    exact .refuse represents (Warmed.refl volume) rfl

end Renaming

end Ext4

end OSWorkspace
