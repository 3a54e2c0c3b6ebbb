import Mathlib.Data.Set.Card
import Mathlib.Logic.Function.Basic

/-!
# Name spaces with hard links

A name space is a tree of directories.  Its other nodes, the leaves, may have
several names, and each of them counts its names.  Entering a node under a name,
removing a name and renaming keep a name space sound: no name dangles, every
directory but the root has exactly one name and lies below the root, and every
leaf has as many names as it counts.
-/

namespace OSWorkspace

/-- A directory knows its parent, a leaf the number of its names. -/
inductive Node (Id Content : Type*) where
  | dir (parent : Id)
  | leaf (links : Nat) (content : Content)

/-- Nodes, and the node behind each name of a directory. -/
structure NameSpace (Id Name Content : Type*) where
  node : Id → Option (Node Id Content)
  names : Id × Name → Option Id

namespace NameSpace

variable {Id Name Content : Type*}

/-- The names of a node, each with its directory. -/
def bindings (space : NameSpace Id Name Content) (child : Id) : Set (Id × Name) :=
  {place | space.names place = some child}

def IsDir (space : NameSpace Id Name Content) (id : Id) : Prop :=
  ∃ parent, space.node id = some (.dir parent)

def members (space : NameSpace Id Name Content) : Set Id :=
  {id | space.node id ≠ none}

theorem member_of_node {space : NameSpace Id Name Content} {id : Id} {node : Node Id Content}
    (isNode : space.node id = some node) : id ∈ space.members := by
  rw [members, Set.mem_ofPred_eq, isNode]
  exact Option.some_ne_none node

theorem IsDir.member {space : NameSpace Id Name Content} {id : Id} (isDir : space.IsDir id) :
    id ∈ space.members := by
  obtain ⟨parent, isNode⟩ := isDir
  exact member_of_node isNode

theorem not_isDir_of_none {space : NameSpace Id Name Content} {id : Id}
    (missing : space.node id = none) : ¬ space.IsDir id := by
  rintro ⟨parent, isDir⟩
  rw [missing] at isDir
  cases isDir

theorem not_isDir_of_leaf {space : NameSpace Id Name Content} {id : Id} {links : Nat}
    {content : Content} (isLeaf : space.node id = some (.leaf links content)) :
    ¬ space.IsDir id := by
  rintro ⟨parent, isDir⟩
  rw [isLeaf] at isDir
  cases isDir

/-- A change of a node that is no directory leaves the directories. -/
theorem IsDir.of_change {space after : NameSpace Id Name Content} {id child : Id}
    (isDir : space.IsDir id) (notDir : ¬ space.IsDir child)
    (nodes : ∀ other, other ≠ child → after.node other = space.node other) : after.IsDir id := by
  have different : id ≠ child := by
    rintro rfl
    exact notDir isDir
  rw [IsDir, nodes id different]
  exact isDir

/-- A member is a directory or a leaf. -/
theorem member_cases {space : NameSpace Id Name Content} {id : Id} (isMember : id ∈ space.members) :
    (∃ parent, space.node id = some (.dir parent)) ∨
      ∃ links content, space.node id = some (.leaf links content) := by
  cases nodeEq : space.node id with
  | none => exact absurd nodeEq isMember
  | some node =>
      cases node with
      | dir parent => exact Or.inl ⟨parent, rfl⟩
      | leaf links content => exact Or.inr ⟨links, content, rfl⟩

structure Sound (root : Id) (space : NameSpace Id Name Content) : Prop where
  rootNode : space.node root = some (.dir root)
  within : ∀ place child, space.names place = some child → space.IsDir place.1
  bound : ∀ place child, space.names place = some child → space.node child ≠ none
  rootless : space.bindings root = ∅
  single : ∀ child parent, space.node child = some (.dir parent) → child ≠ root →
    ∃ name, space.bindings child = {(parent, name)}
  counted : ∀ child links content, space.node child = some (.leaf links content) →
    0 < links ∧ (space.bindings child).ncard = links
  grounded : ∃ depth : Id → Nat, ∀ child parent, space.node child = some (.dir parent) →
    child ≠ root → depth parent < depth child

namespace Sound

variable {root : Id} {space : NameSpace Id Name Content} (sound : space.Sound root)

include sound

/-- A node that is missing has no names. -/
theorem bindings_of_none {child : Id} (missing : space.node child = none) :
    space.bindings child = ∅ := by
  ext place
  constructor
  · intro isBound
    exact absurd missing (sound.bound place child isBound)
  · intro isMem
    cases isMem

theorem finite_bindings {child : Id} {links : Nat} {content : Content}
    (isLeaf : space.node child = some (.leaf links content)) :
    (space.bindings child).Finite := by
  obtain ⟨positive, count⟩ := sound.counted child links content isLeaf
  apply Set.finite_of_ncard_pos
  rw [count]
  exact positive

theorem parent_isDir {child parent : Id} (isDir : space.node child = some (.dir parent)) :
    space.IsDir parent := by
  by_cases isRoot : child = root
  · subst isRoot
    rw [sound.rootNode] at isDir
    cases isDir
    exact ⟨child, sound.rootNode⟩
  · obtain ⟨name, only⟩ := sound.single child parent isDir isRoot
    have isBound : (parent, name) ∈ space.bindings child := by
      rw [only]
      exact Set.mem_singleton _
    exact sound.within _ child isBound

/-- No directory is its own parent but the root. -/
theorem parent_ne {child parent : Id} (isDir : space.node child = some (.dir parent))
    (notRoot : child ≠ root) : parent ≠ child := by
  obtain ⟨depth, below⟩ := sound.grounded
  rintro rfl
  exact Nat.lt_irrefl _ (below parent parent isDir notRoot)

/-- A directory is bound below its parent, and nowhere else. -/
theorem bound_by_parent {place : Id × Name} {child parent : Id}
    (isBound : space.names place = some child)
    (isDir : space.node child = some (.dir parent)) :
    place.1 = parent ∧ child ≠ root ∧ space.bindings child = {place} := by
  have notRoot : child ≠ root := by
    rintro rfl
    have isMem : place ∈ space.bindings child := isBound
    rw [sound.rootless] at isMem
    cases isMem
  obtain ⟨name, only⟩ := sound.single child parent isDir notRoot
  have isMem : place ∈ space.bindings child := isBound
  rw [only, Set.mem_singleton_iff] at isMem
  subst isMem
  exact ⟨rfl, notRoot, only⟩

/-- No name of a directory is the directory itself. -/
theorem ne_of_bound {place : Id × Name} {child : Id} (isBound : space.names place = some child) :
    child ≠ place.1 := by
  rintro rfl
  obtain ⟨parent, isDir⟩ := sound.within place place.1 isBound
  obtain ⟨same, notRoot, _⟩ := sound.bound_by_parent isBound isDir
  exact sound.parent_ne isDir notRoot same.symm

end Sound

section Changes

variable [DecidableEq Id] [DecidableEq Name]

def setNode (space : NameSpace Id Name Content) (id : Id) (node : Option (Node Id Content)) :
    NameSpace Id Name Content :=
  { space with node := Function.update space.node id node }

def rebind (space : NameSpace Id Name Content) (place : Id × Name) (child : Option Id) :
    NameSpace Id Name Content :=
  { space with names := Function.update space.names place child }

variable (space : NameSpace Id Name Content)

omit [DecidableEq Name] in
@[simp]
theorem names_setNode (id : Id) (node : Option (Node Id Content)) :
    (space.setNode id node).names = space.names :=
  rfl

omit [DecidableEq Name] in
@[simp]
theorem bindings_setNode (id child : Id) (node : Option (Node Id Content)) :
    (space.setNode id node).bindings child = space.bindings child :=
  rfl

omit [DecidableEq Name] in
@[simp]
theorem node_setNode_self (id : Id) (node : Option (Node Id Content)) :
    (space.setNode id node).node id = node :=
  Function.update_self _ _ _

omit [DecidableEq Name] in
theorem node_setNode_of_ne {id other : Id} (different : other ≠ id)
    (node : Option (Node Id Content)) : (space.setNode id node).node other = space.node other :=
  Function.update_of_ne different _ _

omit [DecidableEq Name] in
variable {space} in
theorem setNode_eq_self {id : Id} {node : Option (Node Id Content)}
    (isNode : space.node id = node) : space.setNode id node = space := by
  subst isNode
  rw [setNode, Function.update_eq_self]

omit [DecidableEq Name] in
theorem members_setNode_some (id : Id) (node : Node Id Content) :
    (space.setNode id (some node)).members = insert id space.members := by
  ext other
  by_cases same : other = id
  · subst same
    simp [members]
  · simp [members, node_setNode_of_ne space same, same]

omit [DecidableEq Name] in
theorem members_setNode_of_member {id : Id} (isMember : id ∈ space.members)
    (node : Node Id Content) : (space.setNode id (some node)).members = space.members := by
  rw [members_setNode_some, Set.insert_eq_of_mem isMember]

omit [DecidableEq Name] in
theorem members_setNode_none (id : Id) :
    (space.setNode id none).members = space.members \ {id} := by
  ext other
  by_cases same : other = id
  · subst same
    simp [members]
  · simp [members, node_setNode_of_ne space same, same]

@[simp]
theorem names_rebind_self (place : Id × Name) (child : Option Id) :
    (space.rebind place child).names place = child :=
  Function.update_self _ _ _

theorem names_rebind_of_ne {place other : Id × Name} (different : other ≠ place)
    (child : Option Id) : (space.rebind place child).names other = space.names other :=
  Function.update_of_ne different _ _

/-- The names of a directory behind a change of one of them. -/
theorem names_rebind_in (dir : Id) (name other : Name) (child : Option Id) :
    (space.rebind (dir, name) child).names (dir, other) =
      Function.update (fun other => space.names (dir, other)) name child other := by
  by_cases same : other = name
  · subst same
    rw [names_rebind_self, Function.update_self]
  · rw [names_rebind_of_ne, Function.update_of_ne same]
    rintro ⟨⟩
    exact same rfl

theorem names_rebind_off {dir other : Id} (different : other ≠ dir) (name place : Name)
    (child : Option Id) :
    (space.rebind (dir, name) child).names (other, place) = space.names (other, place) := by
  apply names_rebind_of_ne
  rintro ⟨⟩
  exact different rfl

/-- The names of a node behind a change of one name. -/
theorem bindings_rebind (place : Id × Name) (child : Option Id) (other : Id) :
    (space.rebind place child).bindings other =
      if child = some other then insert place (space.bindings other)
      else space.bindings other \ {place} := by
  ext binding
  by_cases same : binding = place
  · subst same
    have here : binding ∈ (space.rebind binding child).bindings other ↔ child = some other := by
      rw [bindings, Set.mem_ofPred_eq, names_rebind_self]
    rw [here]
    split_ifs with isNew <;> simp [isNew]
  · have here : binding ∈ (space.rebind place child).bindings other ↔
        binding ∈ space.bindings other := by
      rw [bindings, Set.mem_ofPred_eq, names_rebind_of_ne space same, bindings, Set.mem_ofPred_eq]
    rw [here]
    split_ifs <;> simp [same]

theorem bindings_rebind_of_ne {place : Id × Name} {child : Option Id} {other : Id}
    (notOld : space.names place ≠ some other) (notNew : child ≠ some other) :
    (space.rebind place child).bindings other = space.bindings other := by
  rw [bindings_rebind, if_neg notNew]
  exact Set.sdiff_singleton_eq_self notOld

/-- A node under a new name. -/
def enter (place : Id × Name) (child : Id) (node : Node Id Content) : NameSpace Id Name Content :=
  (space.setNode child (some node)).rebind place (some child)

/-- The node loses a name and becomes another, or none. -/
def leave (place : Id × Name) (child : Id) (node : Option (Node Id Content)) :
    NameSpace Id Name Content :=
  (space.rebind place none).setNode child node

/-- The node behind one name of a directory goes behind another. -/
def move (dir : Id) (old new : Name) (child : Id) : NameSpace Id Name Content :=
  (space.rebind (dir, old) none).rebind (dir, new) (some child)

/-- No name is one of the given ones. -/
def Avoids (space : NameSpace Id Name Content) (avoided : Set Name) : Prop :=
  ∀ place child, space.names place = some child → place.2 ∉ avoided

variable {space}

theorem Avoids.rebind {avoided : Set Name} (avoids : space.Avoids avoided) {place : Id × Name}
    {child : Option Id} (proper : child ≠ none → place.2 ∉ avoided) :
    (space.rebind place child).Avoids avoided := by
  intro other id isBound
  by_cases same : other = place
  · subst same
    rw [names_rebind_self] at isBound
    apply proper
    rw [isBound]
    exact Option.some_ne_none id
  · rw [names_rebind_of_ne space same] at isBound
    exact avoids other id isBound

theorem members_enter (place : Id × Name) (child : Id) (node : Node Id Content) :
    (space.enter place child node).members = insert child space.members :=
  members_setNode_some space child node

@[simp]
theorem node_enter_self (place : Id × Name) (child : Id) (node : Node Id Content) :
    (space.enter place child node).node child = some node :=
  Function.update_self _ _ _

theorem node_enter_of_ne (place : Id × Name) {child other : Id} (different : other ≠ child)
    (node : Node Id Content) : (space.enter place child node).node other = space.node other :=
  Function.update_of_ne different _ _

theorem bindings_enter_self (place : Id × Name) (child : Id) (node : Node Id Content) :
    (space.enter place child node).bindings child = insert place (space.bindings child) := by
  rw [enter, bindings_rebind, if_pos rfl, bindings_setNode]

theorem bindings_enter_of_ne {place : Id × Name} (absent : space.names place = none)
    {child other : Id} (different : other ≠ child) (node : Node Id Content) :
    (space.enter place child node).bindings other = space.bindings other := by
  rw [enter, bindings_rebind_of_ne, bindings_setNode]
  · rw [names_setNode, absent]
    exact (Option.some_ne_none _).symm
  · intro same
    exact different (Option.some_inj.mp same).symm

@[simp]
theorem node_leave_self (place : Id × Name) (child : Id) (node : Option (Node Id Content)) :
    (space.leave place child node).node child = node :=
  Function.update_self _ _ _

theorem node_leave_of_ne (place : Id × Name) {child other : Id} (different : other ≠ child)
    (node : Option (Node Id Content)) :
    (space.leave place child node).node other = space.node other :=
  Function.update_of_ne different _ _

theorem members_leave_none (place : Id × Name) (child : Id) :
    (space.leave place child none).members = space.members \ {child} :=
  members_setNode_none (space.rebind place none) child

theorem members_leave_some (place : Id × Name) {child : Id} (isMember : child ∈ space.members)
    (node : Node Id Content) : (space.leave place child (some node)).members = space.members :=
  (members_setNode_some (space.rebind place none) child node).trans
    (Set.insert_eq_of_mem isMember)

theorem bindings_leave (place : Id × Name) (child : Id) (node : Option (Node Id Content))
    (other : Id) :
    (space.leave place child node).bindings other = space.bindings other \ {place} := by
  rw [leave, bindings_setNode, bindings_rebind, if_neg (Option.some_ne_none _).symm]

theorem bindings_leave_of_ne {place : Id × Name} {child other : Id}
    (isBound : space.names place = some child) (different : other ≠ child)
    (node : Option (Node Id Content)) :
    (space.leave place child node).bindings other = space.bindings other := by
  rw [bindings_leave]
  apply Set.sdiff_singleton_eq_self
  intro isOther
  exact different (Option.some_inj.mp (isOther.symm.trans isBound))

theorem bindings_move_self {dir : Id} {old new : Name} {child : Id} :
    (space.move dir old new child).bindings child =
      insert (dir, new) (space.bindings child \ {(dir, old)}) := by
  rw [move, bindings_rebind, if_pos rfl, bindings_rebind, if_neg (Option.some_ne_none _).symm]

theorem bindings_move_of_ne {dir : Id} {old new : Name} {child other : Id}
    (isBound : space.names (dir, old) = some child) (absent : space.names (dir, new) = none)
    (different : other ≠ child) :
    (space.move dir old new child).bindings other = space.bindings other := by
  have notHere : some child ≠ some other := by
    intro same
    exact different (Option.some_inj.mp same).symm
  have oldKept : (space.rebind (dir, old) none).bindings other = space.bindings other := by
    apply bindings_rebind_of_ne space
    · rw [isBound]
      exact notHere
    · exact (Option.some_ne_none _).symm
  rw [move, bindings_rebind, if_neg notHere, oldKept]
  apply Set.sdiff_singleton_eq_self
  intro isOther
  exact Option.some_ne_none _ (isOther.symm.trans absent)

omit [DecidableEq Id] [DecidableEq Name] in
/-- A change of one node and of its names. -/
theorem Sound.of_change {root : Id} {space after : NameSpace Id Name Content}
    (sound : space.Sound root) {child : Id} (notRoot : child ≠ root)
    (nodes : ∀ other, other ≠ child → after.node other = space.node other)
    (others : ∀ other, other ≠ child → after.bindings other = space.bindings other)
    (within : ∀ place id, after.names place = some id → after.IsDir place.1)
    (bound : after.node child = none → after.bindings child = ∅)
    (single : ∀ parent, after.node child = some (.dir parent) →
      ∃ name, after.bindings child = {(parent, name)})
    (counted : ∀ links content, after.node child = some (.leaf links content) →
      0 < links ∧ (after.bindings child).ncard = links)
    (grounded : ∃ depth : Id → Nat, ∀ id parent, after.node id = some (.dir parent) →
      id ≠ root → depth parent < depth id) : after.Sound root := by
  constructor
  · rw [nodes root notRoot.symm]
    exact sound.rootNode
  · exact within
  · intro place id isBound missing
    have isMem : place ∈ after.bindings id := isBound
    by_cases same : id = child
    · subst same
      rw [bound missing] at isMem
      cases isMem
    · rw [others id same] at isMem
      rw [nodes id same] at missing
      exact sound.bound place id isMem missing
  · rw [others root notRoot.symm]
    exact sound.rootless
  · intro id parent isDir different
    by_cases same : id = child
    · subst same
      exact single parent isDir
    · rw [nodes id same] at isDir
      rw [others id same]
      exact sound.single id parent isDir different
  · intro id links content isLeaf
    by_cases same : id = child
    · subst same
      exact counted links content isLeaf
    · rw [nodes id same] at isLeaf
      rw [others id same]
      exact sound.counted id links content isLeaf
  · exact grounded

namespace Sound

variable {root : Id} (sound : space.Sound root)

include sound

omit [DecidableEq Id] [DecidableEq Name] in
/-- The depths do when the changed node is no directory. -/
theorem grounded_of_not_isDir {after : NameSpace Id Name Content} {child : Id}
    (nodes : ∀ other, other ≠ child → after.node other = space.node other)
    (notDir : ¬ after.IsDir child) :
    ∃ depth : Id → Nat, ∀ id parent, after.node id = some (.dir parent) → id ≠ root →
      depth parent < depth id := by
  obtain ⟨depth, below⟩ := sound.grounded
  refine ⟨depth, fun id parent isDir notRoot => ?_⟩
  by_cases same : id = child
  · subst same
    exact absurd ⟨parent, isDir⟩ notDir
  · rw [nodes id same] at isDir
    exact below id parent isDir notRoot

omit [DecidableEq Id] [DecidableEq Name] in
theorem isDir_root : space.IsDir root :=
  ⟨root, sound.rootNode⟩

omit [DecidableEq Id] [DecidableEq Name] in
theorem ne_root_of_not_isDir {child : Id} (notDir : ¬ space.IsDir child) : child ≠ root := by
  rintro rfl
  exact notDir sound.isDir_root

/-- Another name for a leaf, or the first name of a new one. -/
theorem enter_leaf {place : Id × Name} (within : space.IsDir place.1)
    (absent : space.names place = none) {child : Id} (notDir : ¬ space.IsDir child) {links : Nat}
    (count : (space.bindings child).ncard = links) (finite : (space.bindings child).Finite)
    (content : Content) : (space.enter place child (.leaf (links + 1) content)).Sound root := by
  have nodes (other : Id) (different : other ≠ child) :
      (space.enter place child (.leaf (links + 1) content)).node other = space.node other :=
    node_enter_of_ne place different _
  have becomesLeaf : ¬ (space.enter place child (.leaf (links + 1) content)).IsDir child :=
    not_isDir_of_leaf (node_enter_self _ _ _)
  have isNew : place ∉ space.bindings child := by
    intro isBound
    exact Option.some_ne_none _ (isBound.symm.trans absent)
  apply sound.of_change (sound.ne_root_of_not_isDir notDir) nodes
  · intro other different
    exact bindings_enter_of_ne absent different _
  · intro other id isBound
    by_cases same : other = place
    · subst same
      exact within.of_change notDir nodes
    · rw [enter, names_rebind_of_ne _ same, names_setNode] at isBound
      exact (sound.within other id isBound).of_change notDir nodes
  · intro missing
    rw [node_enter_self] at missing
    cases missing
  · intro parent becomesDir
    exact absurd ⟨parent, becomesDir⟩ becomesLeaf
  · intro count' content' isLeaf
    rw [node_enter_self] at isLeaf
    cases isLeaf
    rw [bindings_enter_self, Set.ncard_insert_of_notMem isNew finite, count]
    exact ⟨Nat.succ_pos links, rfl⟩
  · exact sound.grounded_of_not_isDir nodes becomesLeaf

/-- A new directory. -/
theorem enter_dir {dir : Id} {name : Name} (within : space.IsDir dir)
    (absent : space.names (dir, name) = none) {child : Id} (missing : space.node child = none) :
    (space.enter (dir, name) child (.dir dir)).Sound root := by
  have notDir := not_isDir_of_none missing
  have different : dir ≠ child := by
    rintro rfl
    exact notDir within
  apply sound.of_change (sound.ne_root_of_not_isDir notDir)
  · intro other different
    exact node_enter_of_ne _ different _
  · intro other different
    exact bindings_enter_of_ne absent different _
  · intro other id isBound
    by_cases isNew : other.1 = child
    · rw [isNew]
      exact ⟨dir, node_enter_self _ _ _⟩
    · rw [IsDir, node_enter_of_ne _ isNew]
      by_cases same : other = (dir, name)
      · subst same
        exact within
      · rw [enter, names_rebind_of_ne _ same, names_setNode] at isBound
        exact sound.within other id isBound
  · intro gone
    rw [node_enter_self] at gone
    cases gone
  · intro parent becomesDir
    rw [node_enter_self] at becomesDir
    cases becomesDir
    refine ⟨name, ?_⟩
    rw [bindings_enter_self, sound.bindings_of_none missing]
    exact insert_empty_eq _
  · intro links content isLeaf
    rw [node_enter_self] at isLeaf
    cases isLeaf
  · obtain ⟨depth, below⟩ := sound.grounded
    refine ⟨Function.update depth child (depth dir + 1), ?_⟩
    intro id parent becomesDir notRoot
    by_cases same : id = child
    · subst same
      rw [node_enter_self] at becomesDir
      cases becomesDir
      rw [Function.update_self, Function.update_of_ne different]
      exact Nat.lt_succ_self _
    · rw [node_enter_of_ne _ same] at becomesDir
      have parentNe : parent ≠ child := by
        rintro rfl
        exact notDir (sound.parent_isDir becomesDir)
      rw [Function.update_of_ne same, Function.update_of_ne parentNe]
      exact below id parent becomesDir notRoot

/-- A leaf without one of its names; the last name takes the leaf with it. -/
theorem leave_leaf {place : Id × Name} {child : Id} (isBound : space.names place = some child)
    {links : Nat} {content : Content} (isLeaf : space.node child = some (.leaf links content)) :
    (space.leave place child
      (if links = 1 then none else some (.leaf (links - 1) content))).Sound root := by
  obtain ⟨positive, count⟩ := sound.counted child links content isLeaf
  have isMem : place ∈ space.bindings child := isBound
  have fewer : (space.bindings child \ {place}).ncard = links - 1 := by
    rw [Set.ncard_sdiff_singleton_of_mem isMem, count]
  have notDir := not_isDir_of_leaf isLeaf
  have nodes (other : Id) (different : other ≠ child) : (space.leave place child
      (if links = 1 then none else some (.leaf (links - 1) content))).node other =
        space.node other := node_leave_of_ne place different _
  have staysLeaf : ¬ (space.leave place child
      (if links = 1 then none else some (.leaf (links - 1) content))).IsDir child := by
    rintro ⟨parent, becomesDir⟩
    rw [node_leave_self] at becomesDir
    split_ifs at becomesDir
    cases becomesDir
  apply sound.of_change (sound.ne_root_of_not_isDir notDir) nodes
  · intro other different
    exact bindings_leave_of_ne isBound different _
  · intro other id staysBound
    have wasBound : other ∈ space.bindings id \ {place} := by
      rw [← bindings_leave place child]
      exact staysBound
    exact (sound.within other id wasBound.1).of_change notDir nodes
  · intro missing
    rw [node_leave_self, ite_eq_left_iff] at missing
    have last : links = 1 := by
      by_contra more
      exact Option.some_ne_none _ (missing more)
    rw [last] at fewer
    rw [bindings_leave, ← Set.ncard_eq_zero ((sound.finite_bindings isLeaf).sdiff)]
    exact fewer
  · intro parent becomesDir
    exact absurd ⟨parent, becomesDir⟩ staysLeaf
  · intro count' content' isNow
    rw [node_leave_self] at isNow
    split_ifs at isNow with last
    cases isNow
    rw [bindings_leave]
    exact ⟨by omega, fewer⟩
  · exact sound.grounded_of_not_isDir nodes staysLeaf

/-- An empty directory goes with its only name. -/
theorem leave_dir {place : Id × Name} {child parent : Id}
    (isBound : space.names place = some child) (isDir : space.node child = some (.dir parent))
    (empty : ∀ name, space.names (child, name) = none) :
    (space.leave place child none).Sound root := by
  obtain ⟨_, notRoot, only⟩ := sound.bound_by_parent isBound isDir
  have nodes (other : Id) (different : other ≠ child) :
      (space.leave place child none).node other = space.node other :=
    node_leave_of_ne place different _
  have gone : ¬ (space.leave place child none).IsDir child :=
    not_isDir_of_none (node_leave_self _ _ _)
  apply sound.of_change notRoot nodes
  · intro other different
    exact bindings_leave_of_ne isBound different _
  · intro other id staysBound
    have isMem : other ∈ space.bindings id \ {place} := by
      rw [← bindings_leave place child]
      exact staysBound
    rw [IsDir, node_leave_of_ne]
    · exact sound.within other id isMem.1
    · rintro rfl
      exact Option.some_ne_none _ (isMem.1.symm.trans (empty other.2))
  · intro _
    rw [bindings_leave, only]
    exact Set.sdiff_self
  · intro parent becomesDir
    exact absurd ⟨parent, becomesDir⟩ gone
  · intro links content isLeaf
    rw [node_leave_self] at isLeaf
    cases isLeaf
  · exact sound.grounded_of_not_isDir nodes gone

/-- A node under another name of the same directory. -/
theorem move {dir child : Id} {old new : Name} (isBound : space.names (dir, old) = some child)
    (absent : space.names (dir, new) = none) : (space.move dir old new child).Sound root := by
  have within := sound.within _ child isBound
  have isMem : (dir, old) ∈ space.bindings child := isBound
  have notRoot : child ≠ root := by
    rintro rfl
    rw [sound.rootless] at isMem
    cases isMem
  have isNew : (dir, new) ∉ space.bindings child \ {(dir, old)} := by
    intro wasBound
    exact Option.some_ne_none _ (wasBound.1.symm.trans absent)
  apply sound.of_change notRoot
  · intro other _
    rfl
  · intro other different
    exact bindings_move_of_ne isBound absent different
  · intro other id staysBound
    by_cases same : other = (dir, new)
    · subst same
      exact within
    · rw [NameSpace.move, names_rebind_of_ne _ same] at staysBound
      by_cases isOld : other = (dir, old)
      · subst isOld
        exact within
      · rw [names_rebind_of_ne _ isOld] at staysBound
        exact sound.within other id staysBound
  · intro missing
    exact absurd missing (sound.bound _ child isBound)
  · intro parent isDir
    obtain ⟨same, _, only⟩ := sound.bound_by_parent isBound isDir
    refine ⟨new, ?_⟩
    rw [bindings_move_self, only, Set.sdiff_self, ← same]
    exact insert_empty_eq _
  · intro links content isLeaf
    obtain ⟨positive, count⟩ := sound.counted child links content isLeaf
    refine ⟨positive, ?_⟩
    rw [bindings_move_self,
      Set.ncard_insert_of_notMem isNew ((sound.finite_bindings isLeaf).sdiff),
      Set.ncard_sdiff_singleton_of_mem isMem, count]
    omega
  · exact sound.grounded

omit [DecidableEq Name] in
/-- Another content for a leaf. -/
theorem setContent {child : Id} {links : Nat} {content : Content}
    (isLeaf : space.node child = some (.leaf links content)) (changed : Content) :
    (space.setNode child (some (.leaf links changed))).Sound root := by
  have notDir := not_isDir_of_leaf isLeaf
  have nodes (other : Id) (different : other ≠ child) :
      (space.setNode child (some (.leaf links changed))).node other = space.node other :=
    node_setNode_of_ne space different _
  have staysLeaf := not_isDir_of_leaf (node_setNode_self space child (some (.leaf links changed)))
  apply sound.of_change (sound.ne_root_of_not_isDir notDir) nodes
  · intro other _
    rfl
  · intro place id isBound
    exact (sound.within place id isBound).of_change notDir nodes
  · intro missing
    rw [node_setNode_self] at missing
    cases missing
  · intro parent becomesDir
    exact absurd ⟨parent, becomesDir⟩ staysLeaf
  · intro count' content' isNow
    rw [node_setNode_self] at isNow
    cases isNow
    exact sound.counted child links content isLeaf
  · exact sound.grounded_of_not_isDir nodes staysLeaf

end Sound

end Changes

section Paths

variable [DecidableEq Name] (here up : Name) (space : NameSpace Id Name Content)

/-- The node behind a name of a directory; `here` and `up` name the directory and
its parent. -/
def lookup (id : Id) (name : Name) : Option Id :=
  match space.node id with
  | some (.dir parent) =>
      if name = here then some id else if name = up then some parent else space.names (id, name)
  | _ => none

/-- The node at the end of a path; `here` is skipped. -/
def walk : Id → List Name → Option Id
  | id, [] => some id
  | id, name :: path =>
      if name = here then walk id path
      else
        match space.lookup here up id name with
        | some next => walk next path
        | none => none

variable {here up space}

theorem lookup_of_isDir {id parent : Id} (isDir : space.node id = some (.dir parent))
    (name : Name) : space.lookup here up id name =
      if name = here then some id else if name = up then some parent
      else space.names (id, name) := by
  rw [lookup, isDir]

theorem lookup_of_not_isDir {id : Id} (notDir : ¬ space.IsDir id) (name : Name) :
    space.lookup here up id name = none := by
  unfold lookup
  split
  next parent isDir => exact absurd ⟨parent, isDir⟩ notDir
  next => rfl

theorem lookup_of_proper {id : Id} (isDir : space.IsDir id) {name : Name}
    (proper : name ≠ here ∧ name ≠ up) :
    space.lookup here up id name = space.names (id, name) := by
  obtain ⟨parent, isDir⟩ := isDir
  rw [lookup_of_isDir isDir, if_neg proper.1, if_neg proper.2]

theorem lookup_congr {after : NameSpace Id Name Content} {id : Id}
    (sameNode : after.node id = space.node id)
    (sameNames : ∀ name, after.names (id, name) = space.names (id, name)) :
    after.lookup here up id = space.lookup here up id := by
  funext name
  simp only [lookup, sameNode, sameNames]

/-- The lookups in a directory behind a change of one of its names. -/
theorem lookup_update {after : NameSpace Id Name Content} {id : Id} (isDir : space.IsDir id)
    (sameNode : after.node id = space.node id) {name : Name} (proper : name ≠ here ∧ name ≠ up)
    {child : Option Id}
    (names : ∀ other, after.names (id, other) =
      Function.update (fun other => space.names (id, other)) name child other) :
    after.lookup here up id = Function.update (space.lookup here up id) name child := by
  obtain ⟨parent, isDir⟩ := isDir
  funext other
  rw [lookup_of_isDir (sameNode.trans isDir), names]
  by_cases same : other = name
  · subst same
    rw [if_neg proper.1, if_neg proper.2, Function.update_self, Function.update_self]
  · rw [Function.update_of_ne same, Function.update_of_ne same, lookup_of_isDir isDir]

variable {root : Id} (sound : space.Sound root)

include sound

/-- A node with a single name is not found under another one of the same directory. -/
theorem Sound.name_of_lookup {dir child : Id} {name other : Name}
    (alone : space.bindings child = {(dir, name)})
    (found : space.lookup here up dir other = some child) : other = name := by
  have isBound : space.names (dir, name) = some child := by
    have isMem : (dir, name) ∈ space.bindings child := by
      rw [alone]
      exact Set.mem_singleton _
    exact isMem
  obtain ⟨parent, isDir⟩ := sound.within _ child isBound
  rw [lookup_of_isDir isDir] at found
  split_ifs at found
  · cases found
    exact absurd rfl (sound.ne_of_bound isBound)
  · cases found
    obtain ⟨above, childDir⟩ := sound.parent_isDir isDir
    obtain ⟨rfl, childNotRoot, _⟩ := sound.bound_by_parent isBound childDir
    by_cases isRoot : dir = root
    · subst isRoot
      rw [sound.rootNode] at isDir
      cases isDir
      exact absurd rfl childNotRoot
    · obtain ⟨depth, below⟩ := sound.grounded
      have up := below dir child isDir isRoot
      have down := below child dir childDir childNotRoot
      omega
  · have isMem : (dir, other) ∈ space.bindings child := found
    rw [alone, Set.mem_singleton_iff, Prod.mk.injEq] at isMem
    exact isMem.2

omit [DecidableEq Name] in
theorem Sound.alone_of_leaf {place : Id × Name} {child : Id} {content : Content}
    (isBound : space.names place = some child)
    (isLeaf : space.node child = some (.leaf 1 content)) :
    space.bindings child = {place} := by
  obtain ⟨only, single⟩ := Set.ncard_eq_one.mp (sound.counted child 1 content isLeaf).2
  have isMem : place ∈ space.bindings child := isBound
  rw [single, Set.mem_singleton_iff] at isMem
  rw [single, isMem]

theorem Sound.node_of_lookup {id next : Id} {name : Name}
    (found : space.lookup here up id name = some next) : space.node next ≠ none := by
  unfold lookup at found
  split at found
  next parent isDir =>
    split_ifs at found
    · cases found
      rw [isDir]
      exact Option.some_ne_none _
    · cases found
      obtain ⟨above, parentDir⟩ := sound.parent_isDir isDir
      rw [parentDir]
      exact Option.some_ne_none _
    · exact sound.bound _ next found
  next => cases found

theorem Sound.node_of_walk {id last : Id} {path : List Name} (isNode : space.node id ≠ none)
    (found : space.walk here up id path = some last) : space.node last ≠ none := by
  induction path generalizing id with
  | nil =>
      cases found
      exact isNode
  | cons name path ih =>
      unfold walk at found
      split at found
      next => exact ih isNode found
      next =>
        split at found
        next next isNext => exact ih (sound.node_of_lookup isNext) found
        next => cases found

end Paths

section Reaching

variable {root : Id} {space : NameSpace Id Name Content} (sound : space.Sound root)

/-- A name in one node leads to the other. -/
def Leads (space : NameSpace Id Name Content) (dir child : Id) : Prop :=
  ∃ name, space.names (dir, name) = some child

include sound

theorem Sound.reaches_dir (depth : Id → Nat)
    (below : ∀ child parent, space.node child = some (.dir parent) → child ≠ root →
      depth parent < depth child) (bound : Nat) :
    ∀ id, depth id < bound → space.IsDir id → Relation.ReflTransGen space.Leads root id := by
  induction bound with
  | zero =>
      intro id small
      cases small
  | succ bound ih =>
      rintro id small ⟨parent, isDir⟩
      by_cases isRoot : id = root
      · subst isRoot
        exact .refl
      · obtain ⟨name, alone⟩ := sound.single id parent isDir isRoot
        have isBound : (parent, name) ∈ space.bindings id := by
          rw [alone]
          exact Set.mem_singleton _
        have shallower := below id parent isDir isRoot
        have parentIsDir := sound.parent_isDir isDir
        exact (ih parent (by omega) parentIsDir).tail ⟨name, isBound⟩

/-- Names lead from the root to every node. -/
theorem Sound.reaches {id : Id} (isMember : id ∈ space.members) :
    Relation.ReflTransGen space.Leads root id := by
  obtain ⟨depth, below⟩ := sound.grounded
  rcases member_cases isMember with isDir | ⟨links, content, isLeaf⟩
  · exact sound.reaches_dir depth below (depth id + 1) id (Nat.lt_succ_self _) isDir
  · obtain ⟨positive, count⟩ := sound.counted id links content isLeaf
    have nonempty : (space.bindings id).Nonempty := by
      rw [Set.nonempty_iff_ne_empty]
      intro empty
      rw [empty, Set.ncard_empty] at count
      omega
    obtain ⟨⟨dir, name⟩, isBound⟩ := nonempty
    have isDir := sound.within (dir, name) id isBound
    exact (sound.reaches_dir depth below (depth dir + 1) dir (Nat.lt_succ_self _)
      isDir).tail ⟨name, isBound⟩

end Reaching

end NameSpace

end OSWorkspace
