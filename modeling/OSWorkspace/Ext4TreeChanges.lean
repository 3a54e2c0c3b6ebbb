import OSWorkspace.Ext4TreePaths

/-!
# Changes of a volume as changes of its tree

A name that enters a directory, one that leaves it, one that takes the place of another
and a leaf that changes: each is a change of the volume that spares all other inodes.
-/

namespace OSWorkspace

namespace Ext4

open Exec View

/-- A name that is not found is none of the dots. -/
theorem Tree.proper_of_absent {tree : Tree} {dir : Nat} (isDir : tree.IsDir dir) {name : Str}
    (absent : tree.lookup dir name = none) : name ≠ .dot ∧ name ≠ .dotDot := by
  obtain ⟨parent, isDir⟩ := isDir
  rw [Tree.lookup, NameSpace.lookup_of_isDir isDir] at absent
  split_ifs at absent with isDot isDotDot
  exact ⟨isDot, isDotDot⟩

theorem Tree.unbound_of_absent {tree : Tree} {dir : Nat} (isDir : tree.IsDir dir) {name : Str}
    (absent : tree.lookup dir name = none) : tree.names (dir, name) = none := by
  rw [← NameSpace.lookup_of_proper isDir (Tree.proper_of_absent isDir absent)]
  exact absent

/-- The changed node is a directory or a leaf of the later volume. -/
structure View.ShowsNode (reserved : Set Nat) (view : View) (tree : Tree) (id : Nat) : Prop where
  dir : tree.IsDir id → view.ShowsDir reserved tree id
  leaf : ∀ links content, tree.node id = some (.leaf links content) →
    view.ShowsLeaf reserved id links content

namespace View.Represents

variable {reserved : Set Nat} {view after : View} {tree : Tree}
  (represents : view.Represents reserved tree)

include represents

/-- A change of a directory and of one other node. -/
theorem change_pair {later : Tree} {dir child : Nat}
    (spares : Spares reserved (tree.members \ {dir, child}) view after)
    (apart : after.Apart reserved later.members) (sound : later.Sound ext4RootIno)
    (avoids : later.Avoids dots)
    (nodes : ∀ id, id ≠ dir → id ≠ child → later.node id = tree.node id)
    (names : ∀ id, id ≠ dir → id ≠ child → ∀ name, later.names (id, name) = tree.names (id, name))
    (dirShows : after.ShowsNode reserved later dir)
    (childShows : after.ShowsNode reserved later child) : after.Represents reserved later := by
  have isOther {id : Nat} (notKept : id ∉ tree.members \ {dir, child}) (notDir : id ≠ dir)
      (notChild : id ≠ child) : later.node id = none := by
    rw [nodes id notDir notChild]
    by_contra isMember
    exact notKept ⟨isMember, by simp [notDir, notChild]⟩
  apply represents.change spares apart sound avoids
  · rintro id ⟨_, notPair⟩
    simp only [Set.mem_insert_iff, Set.mem_singleton_iff, not_or] at notPair
    exact nodes id notPair.1 notPair.2
  · rintro id ⟨_, notPair⟩
    simp only [Set.mem_insert_iff, Set.mem_singleton_iff, not_or] at notPair
    exact names id notPair.1 notPair.2
  · intro id notKept isDir
    by_cases isFirst : id = dir
    · subst isFirst
      exact dirShows.dir isDir
    · by_cases isSecond : id = child
      · subst isSecond
        exact childShows.dir isDir
      · exact absurd (isOther notKept isFirst isSecond) isDir.member
  · intro id links content notKept isLeaf
    by_cases isFirst : id = dir
    · subst isFirst
      exact dirShows.leaf links content isLeaf
    · by_cases isSecond : id = child
      · subst isSecond
        exact childShows.leaf links content isLeaf
      · rw [isOther notKept isFirst isSecond] at isLeaf
        cases isLeaf

omit represents in
/-- A directory whose names were changed. -/
theorem showsNode_of_isDir {later : Tree} {dir parent : Nat}
    (isDir : later.node dir = some (.dir parent)) {blocks : List (List Dirent)}
    (branch : after.Branch reserved later.members dir blocks)
    (lists : Lists (after.entries dir) (later.lookup dir)) :
    after.ShowsNode reserved later dir := by
  refine ⟨fun _ => ⟨⟨blocks, branch⟩, lists⟩, ?_⟩
  intro links content isLeaf
  rw [isDir] at isLeaf
  cases isLeaf

omit represents in
theorem showsNode_of_isLeaf {later : Tree} {id links : Nat} {content : Content}
    (isLeaf : later.node id = some (.leaf links content))
    (shows : after.ShowsLeaf reserved id links content) : after.ShowsNode reserved later id := by
  constructor
  · exact fun isDir => absurd isDir (NameSpace.not_isDir_of_leaf isLeaf)
  · intro count other isNow
    rw [isLeaf] at isNow
    cases isNow
    exact shows

omit represents in
theorem showsNode_of_none {later : Tree} {id : Nat} (missing : later.node id = none) :
    after.ShowsNode reserved later id := by
  constructor
  · exact fun isDir => absurd isDir (NameSpace.not_isDir_of_none missing)
  · intro links content isLeaf
    rw [missing] at isLeaf
    cases isLeaf

variable {dir : Nat} (isDir : tree.IsDir dir)

include isDir

theorem enter {name : Str} (absent : tree.lookup dir name = none) {child : Nat}
    (different : child ≠ dir) {node : Node Nat Content}
    (sound : (NameSpace.enter tree (dir, name) child node).Sound ext4RootIno)
    {blocks : List (List Dirent)} {fileType : UInt8}
    (spares : Spares reserved (tree.members \ {dir, child}) view after)
    (apart : after.Apart reserved (insert child tree.members))
    (branch : after.Branch reserved (insert child tree.members) dir blocks)
    (mem : ∀ binding, binding ∈ after.entries dir ↔
      binding = ⟨name, child, fileType⟩ ∨ binding ∈ view.entries dir)
    (shows : after.ShowsNode reserved (NameSpace.enter tree (dir, name) child node) child) :
    after.Represents reserved (NameSpace.enter tree (dir, name) child node) := by
  have proper := Tree.proper_of_absent isDir absent
  rw [← NameSpace.members_enter (dir, name) child node] at apart branch
  have sameDir : (NameSpace.enter tree (dir, name) child node).node dir = tree.node dir :=
    NameSpace.node_enter_of_ne (dir, name) different.symm node
  obtain ⟨parent, isParent⟩ := isDir
  refine represents.change_pair spares apart sound ?_ ?_ ?_ ?_ shows
  · apply NameSpace.Avoids.rebind
    · exact represents.avoids
    · intro _
      exact not_mem_dots.mpr proper
  · intro id _ notChild
    exact NameSpace.node_enter_of_ne (dir, name) notChild node
  · intro id notDir _ other
    exact NameSpace.names_rebind_off _ notDir name other _
  · refine showsNode_of_isDir (sameDir.trans isParent) branch ?_
    have lookups : Tree.lookup (NameSpace.enter tree (dir, name) child node) dir =
        Function.update (tree.lookup dir) name (some child) :=
      NameSpace.lookup_update ⟨parent, isParent⟩ sameDir proper
        fun other => NameSpace.names_rebind_in _ dir name other _
    rw [lookups]
    exact (represents.dirs dir ⟨parent, isParent⟩).lists.insert absent mem

omit isDir in
theorem leave {name : Str} {child : Nat} (isBound : tree.names (dir, name) = some child)
    {node : Option (Node Nat Content)}
    (sound : (NameSpace.leave tree (dir, name) child node).Sound ext4RootIno)
    {blocks : List (List Dirent)}
    (spares : Spares reserved (tree.members \ {dir, child}) view after)
    (apart : after.Apart reserved (NameSpace.leave tree (dir, name) child node).members)
    (branch : after.Branch reserved (NameSpace.leave tree (dir, name) child node).members dir
      blocks)
    (mem : ∀ binding, binding ∈ after.entries dir ↔
      binding ∈ view.entries dir ∧ binding.name ≠ name)
    (shows : after.ShowsNode reserved (NameSpace.leave tree (dir, name) child node) child) :
    after.Represents reserved (NameSpace.leave tree (dir, name) child node) := by
  obtain ⟨parent, isDir⟩ := represents.sound.within (dir, name) child isBound
  have different : dir ≠ child := (represents.sound.ne_of_bound isBound).symm
  have sameDir : (NameSpace.leave tree (dir, name) child node).node dir = tree.node dir :=
    NameSpace.node_leave_of_ne (dir, name) different node
  have proper := not_mem_dots.mp (represents.avoids (dir, name) child isBound)
  refine represents.change_pair spares apart sound ?_ ?_ ?_ ?_ shows
  · apply represents.avoids.rebind
    intro isSome
    exact absurd rfl isSome
  · intro id _ notChild
    exact NameSpace.node_leave_of_ne (dir, name) notChild node
  · intro id notDir _ other
    exact NameSpace.names_rebind_off _ notDir name other _
  · refine showsNode_of_isDir (sameDir.trans isDir) branch ?_
    have lookups : Tree.lookup (NameSpace.leave tree (dir, name) child node) dir =
        Function.update (tree.lookup dir) name none :=
      NameSpace.lookup_update ⟨parent, isDir⟩ sameDir proper
        fun other => NameSpace.names_rebind_in _ dir name other _
    rw [lookups]
    exact (represents.dirs dir ⟨parent, isDir⟩).lists.erase mem

omit isDir in
theorem move {old new : Str} {child : Nat} (isBound : tree.names (dir, old) = some child)
    (absent : tree.lookup dir new = none) {blocks : List (List Dirent)} {fileType : UInt8}
    (spares : Spares reserved (tree.members \ {dir}) view after)
    (apart : after.Apart reserved tree.members)
    (branch : after.Branch reserved tree.members dir blocks)
    (mem : ∀ binding, binding ∈ after.entries dir ↔
      (binding ∈ view.entries dir ∧ binding.name ≠ old) ∨ binding = ⟨new, child, fileType⟩) :
    after.Represents reserved (NameSpace.move tree dir old new child) := by
  have isDir := represents.sound.within (dir, old) child isBound
  have proper := Tree.proper_of_absent isDir absent
  have oldProper := not_mem_dots.mp (represents.avoids (dir, old) child isBound)
  have unbound := Tree.unbound_of_absent isDir absent
  obtain ⟨parent, isParent⟩ := isDir
  have shows : after.ShowsNode reserved (NameSpace.move tree dir old new child) dir := by
    refine showsNode_of_isDir isParent branch ?_
    have sameNode : (NameSpace.rebind tree (dir, old) none).node dir = tree.node dir := rfl
    have sameThen : (NameSpace.move tree dir old new child).node dir =
        (NameSpace.rebind tree (dir, old) none).node dir := rfl
    have isMiddle : (NameSpace.rebind tree (dir, old) none).IsDir dir := ⟨parent, isParent⟩
    have first : Tree.lookup (NameSpace.rebind tree (dir, old) none) dir =
        Function.update (tree.lookup dir) old none :=
      NameSpace.lookup_update ⟨parent, isParent⟩ sameNode oldProper
        fun other => NameSpace.names_rebind_in _ dir old other _
    have second : Tree.lookup (NameSpace.move tree dir old new child) dir =
        Function.update (Tree.lookup (NameSpace.rebind tree (dir, old) none) dir) new
          (some child) :=
      NameSpace.lookup_update isMiddle sameThen proper
        fun other => NameSpace.names_rebind_in _ dir new other _
    rw [second, first]
    exact (represents.dirs dir ⟨parent, isParent⟩).lists.exchange absent mem
  rw [← Set.pair_eq_singleton] at spares
  refine represents.change_pair spares apart (represents.sound.move isBound unbound) ?_
    (fun _ _ _ => rfl) ?_ shows shows
  · apply NameSpace.Avoids.rebind
    · apply represents.avoids.rebind
      intro isSome
      exact absurd rfl isSome
    · intro _
      exact not_mem_dots.mpr proper
  · intro id notDir _ other
    exact (NameSpace.names_rebind_off _ notDir new other _).trans
      (NameSpace.names_rebind_off _ notDir old other _)

omit isDir in
theorem setLeaf {child links : Nat} {content changed : Content}
    (isLeaf : tree.node child = some (.leaf links content))
    (spares : Spares reserved (tree.members \ {child}) view after)
    (apart : after.Apart reserved tree.members)
    (shows : after.ShowsLeaf reserved child links changed) :
    after.Represents reserved (NameSpace.setNode tree child (some (.leaf links changed))) := by
  have sameMembers : (NameSpace.setNode tree child (some (.leaf links changed))).members =
      tree.members :=
    NameSpace.members_setNode_of_member tree (NameSpace.member_of_node isLeaf) _
  have showsNode : after.ShowsNode reserved
      (NameSpace.setNode tree child (some (.leaf links changed))) child :=
    showsNode_of_isLeaf (NameSpace.node_setNode_self _ _ _) shows
  rw [← Set.pair_eq_singleton] at spares
  refine represents.change_pair spares (by rw [sameMembers]; exact apart)
    (represents.sound.setContent isLeaf changed) represents.avoids ?_ (fun _ _ _ _ => rfl)
    showsNode showsNode
  intro id different _
  exact NameSpace.node_setNode_of_ne tree different _

omit isDir in
/-- A directory whose inode was rewritten. -/
theorem setDir {parent : Nat} (isDir : tree.node dir = some (.dir parent))
    (spares : Spares reserved (tree.members \ {dir}) view after)
    (apart : after.Apart reserved tree.members) {blocks : List (List Dirent)}
    (branch : after.Branch reserved tree.members dir blocks)
    (sameEntries : after.entries dir = view.entries dir) : after.Represents reserved tree := by
  have shows : after.ShowsNode reserved tree dir := by
    refine showsNode_of_isDir isDir branch ?_
    rw [sameEntries]
    exact (represents.dirs dir ⟨parent, isDir⟩).lists
  rw [← Set.pair_eq_singleton] at spares
  exact represents.change_pair spares apart represents.sound represents.avoids
    (fun _ _ _ => rfl) (fun _ _ _ _ => rfl) shows shows

end View.Represents

end Ext4

end OSWorkspace
