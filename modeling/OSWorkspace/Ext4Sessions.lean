import OSWorkspace.Ext4TreeLeaves

/-!
# Sessions

A session is a list of requests.  Each names an inode by its path, asks for one
operation there, and a failed request does not end the session.  Whatever the requests
are, the answers are those of the tree, except that a request that needs space may find
the volume full; then it changes nothing.
-/

namespace OSWorkspace

namespace Ext4

open Exec View

inductive Operation where
  | createFile (name : Str)
  | createSpecial (name : Str) (mode : UInt16) (rdev : UInt64)
  | createDir (name : Str)
  | link (name target : Str)
  | unlink (name : Str)
  | rename (old new : Str)
  | read (offset : Nat) (buf : List UInt8)
  | write (offset : Nat) (buf : List UInt8)
  | clear
  | setMode (mode : Nat)
  | list
  | ask (attr : Attribute)

structure PathRequest where
  path : Str
  operation : Operation

inductive Answer where
  | done
  | inode (inodeNum : Nat)
  | number (value : Nat)
  | data (result : Nat × List UInt8)
  | names (names : List Str)

/-- The inode that a path from the root leads to. -/
def inodeAt (path : Str) : Call Inode := do
  okOr (← (← rootInode).findPath path) .notFound

def Operation.perform (self : Inode) : Operation → Call Answer
  | .createFile name => do return .inode (← self.createFile name).inodeNum
  | .createSpecial name mode rdev => do
      return .inode (← self.createSpecial name mode.toNat rdev.toNat).inodeNum
  | .createDir name => do return .inode (← self.createDir name).inodeNum
  | .link name target => do
      let target ← inodeAt target
      self.linkInode name target
      return .done
  | .unlink name => do
      self.unlink name
      return .done
  | .rename old new => do
      self.rename old new
      return .done
  | .read offset buf => do return .data (← self.readAt offset buf)
  | .write offset buf => do return .number (← self.writeAt offset buf)
  | .clear => do
      self.clear
      return .done
  | .setMode mode => do
      self.setMode mode
      return .done
  | .list => do return .names (← self.ls)
  | .ask attr => do return .number (← attr.get self)

def serve (request : PathRequest) : Call Answer := do
  let inode ← inodeAt request.path
  request.operation.perform inode

/-- The answers to the requests, one behind the other. -/
def session : List PathRequest → Call (List (Except Ext4Error Answer))
  | [] => return []
  | request :: requests => do
      let result ← (serve request).attempt
      let results ← session requests
      return result :: results

/-- Why the tree refuses an operation at a node. -/
noncomputable def Operation.refusal (tree : Tree) (id : Nat) : Operation → Option Ext4Error
  | .createFile name => tree.refusesName id name
  | .createSpecial name mode _ =>
      (tree.refusesName id name).or (if IsSpecial mode.toNat then none else some .invalidInput)
  | .createDir name => tree.refusesName id name
  | .link name target =>
      (tree.resolve target).elim (some .notFound) fun child =>
        (tree.refusesName id name).or (tree.refusesLink child)
  | .unlink name => tree.refusesRemoval id name
  | .rename old new => tree.refusesRename id old new
  | .write _ _ => tree.refusesData id
  | .clear => tree.refusesData id
  | .read _ _ => none
  | .setMode _ => none
  | .list => none
  | .ask _ => none

/-- A node without a name so far is entered under one, and its number is the answer. -/
def Tree.Enters (tree : Tree) (place : Nat × Str) (node : Node Nat Content) (answer : Answer)
    (later : Tree) : Prop :=
  ∃ fresh, tree.node fresh = none ∧ answer = .inode fresh ∧
    later = NameSpace.enter tree place fresh node

/-- The answer of an operation that is not refused, and the tree behind it. -/
def Operation.Effect (tree : Tree) (id : Nat) (answer : Answer) (later : Tree) :
    Operation → Prop
  | .createFile name =>
      tree.Enters (id, name) (.leaf 1 ⟨sIfreg ||| 0o666, .file []⟩) answer later
  | .createSpecial name mode rdev =>
      tree.Enters (id, name) (.leaf 1 ⟨mode.toNat, .device rdev.toNat⟩) answer later
  | .createDir name => tree.Enters (id, name) (.dir id) answer later
  | .link name target => answer = .done ∧ ∃ child links content,
      tree.resolve target = some child ∧ tree.node child = some (.leaf links content) ∧
        later = NameSpace.enter tree (id, name) child (.leaf (links + 1) content)
  | .unlink name => answer = .done ∧ ∃ child, tree.names (id, name) = some child ∧
      later = tree.remove id name child
  | .rename old new => answer = .done ∧ tree.Renames id old new later
  | .read offset buf => (∃ result, answer = .data result ∧ tree.Reads id offset buf result) ∧
      later = tree
  | .write offset buf => answer = .number buf.length ∧
      tree.Edits id (fun bytes => writtenArray bytes offset buf) later
  | .clear => answer = .done ∧ tree.Edits id (fun _ => []) later
  | .setMode mode => answer = .done ∧ later = tree.chmod id mode
  | .list => (∃ names, answer = .names names ∧ names.Nodup ∧
      ∀ name, name ∈ names ↔ tree.names (id, name) ≠ none) ∧ later = tree
  | .ask attr => (∃ value, answer = .number value ∧ tree.Has id attr value) ∧ later = tree

/-- What a caller must take care of: a link count below its limit, a new name that fits
into a record, and a write that ends below the last block number. -/
def Operation.Permits (tree : Tree) : Operation → Prop
  | .link _ target => ∀ child links content, tree.resolve target = some child →
      tree.node child = some (.leaf links content) → links < Inode.linksMax
  | .rename _ new => new.len ≤ ext4NameLen
  | .write offset buf => offset + buf.length ≤ u32Max * blockSz
  | _ => True

/-- The space that an operation at an inode may need is there. -/
def Operation.Fits (view : View) (id : Nat) : Operation → Prop
  | .createFile _ => view.HasFreeInode ∧ view.Roomy id 0
  | .createSpecial _ _ _ => view.HasFreeInode ∧ view.Roomy id 0
  | .createDir _ => view.HasFreeInode ∧ view.Roomy id 1
  | .link _ _ => view.Roomy id 0
  | .rename _ _ => view.Roomy id 0
  | .write offset buf => view.RoomyFile id (touchedBlocks offset buf)
  | _ => True

/-- A call that packs the value of another. -/
theorem Performs.packed {α β : Type} {reserved : Set Nat} {tree : Tree} {volume : Volume}
    {refusal : Option Ext4Error} {grows : Prop} {effect : α → Tree → Prop}
    {packedEffect : β → Tree → Prop} {call : Call α}
    (performs : Performs reserved tree volume refusal grows effect (call.run volume))
    (pack : α → β) (packs : ∀ value later, effect value later → packedEffect (pack value) later) :
    Performs reserved tree volume refusal grows packedEffect
      ((do
        let value ← call
        return pack value : Call β).run volume) := by
  generalize ran : call.run volume = outcome at performs
  cases performs with
  | refused isRefused later unowned =>
      rw [run_bind_err ran]
      exact .refused isRefused later unowned
  | exhausted notRefused isGrowing later =>
      rw [run_bind_err ran]
      exact .exhausted notRefused isGrowing later
  | done notRefused isEffect later unowned =>
      rw [run_bind_ok ran, run_pure]
      exact .done notRefused (packs _ _ isEffect) later unowned

section Steps

variable {reserved : Set Nat} {volume : Volume} {tree : Tree}
  (represents : volume.view.Represents reserved tree)

include represents

theorem Tree.resolve_member {path : Str} {id : Nat} (found : tree.resolve path = some id) :
    id ∈ tree.members :=
  represents.sound.node_of_walk represents.root_member found

/-- The path first: without an inode at its end the call is refused. -/
theorem Performs.atPath {α : Type} (path : Str) {rest : Inode → Call α}
    {refusal : Nat → Option Ext4Error} {grows : Prop} {effect : α → Tree → Prop}
    (continues : ∀ id warm, Warmed volume warm → tree.resolve path = some id →
      Performs reserved tree warm (refusal id) grows effect
        ((rest (warm.view.fs.handle id)).run warm)) :
    Performs reserved tree volume ((tree.resolve path).elim (some .notFound) refusal) grows effect
      ((do
        let inode ← inodeAt path
        rest inode : Call α).run volume) := by
  obtain ⟨warm, ran, warmed⟩ := represents.run_findPath path
  have resolved : (inodeAt path).run volume = (okOr ((tree.resolve path).map
      volume.view.fs.handle) .notFound : Call Inode).run warm := by
    rw [inodeAt, run_bind_ok represents.run_rootInode, run_bind_ok ran]
  cases found : tree.resolve path with
  | none =>
      rw [found] at resolved
      rw [run_bind_err (resolved.trans (run_okOr_none _ _))]
      exact .refuse represents warmed rfl
  | some id =>
      rw [found] at resolved
      rw [run_bind_ok (resolved.trans (run_okOr_some _ _ _)), ← warmed.fs_eq]
      exact (continues id warm warmed found).of_warmed represents warmed

variable {id : Nat} (isMember : id ∈ tree.members)

include isMember

theorem Performs.ls : Performs reserved tree volume none False
    (fun names later => (names.Nodup ∧ ∀ name, name ∈ names ↔ tree.names (id, name) ≠ none) ∧
      later = tree)
    ((volume.view.fs.handle id).ls.run volume) := by
  by_cases isDir : tree.IsDir id
  · obtain ⟨blocks, branch⟩ := (represents.dirs id isDir).branch
    obtain ⟨after, ran, warmed⟩ := run_ls represents.apart.mounted branch.toDirectory
    rw [ran]
    refine .answer_warmed represents ⟨⟨?_, represents.mem_names isDir⟩, rfl⟩ warmed
    exact (branch.toHolds.entries_nodup branch.distinct).filter _
  · have entries : (volume.view.fs.handle id).readDirEntries.run volume = .ok [] volume := by
      rw [Inode.readDirEntries, run_bind_ok (represents.run_isDir_false isMember isDir)]
      rfl
    rw [Inode.ls, run_bind_ok entries, run_pure]
    refine .answer_warmed represents ⟨⟨List.nodup_nil, fun name => ?_⟩, rfl⟩ (Warmed.refl volume)
    refine iff_of_false List.not_mem_nil (fun isBound => isDir ?_)
    obtain ⟨child, isChild⟩ := Option.ne_none_iff_exists'.mp isBound
    exact represents.sound.within (id, name) child isChild

/-- One operation at a node: the answer is that of the tree. -/
theorem Performs.perform (operation : Operation) (permits : operation.Permits tree) :
    Performs reserved tree volume (operation.refusal tree id)
      (¬ operation.Fits volume.view id) (operation.Effect tree id)
      ((operation.perform (volume.view.fs.handle id)).run volume) := by
  cases operation with
  | createFile name =>
      apply (Performs.createFile represents isMember name).packed
      rintro _ later ⟨fresh, missing, rfl, rfl⟩
      exact ⟨fresh, missing, rfl, rfl⟩
  | createSpecial name mode rdev =>
      apply (Performs.createSpecial represents isMember name mode rdev).packed
      rintro _ later ⟨fresh, missing, rfl, rfl⟩
      exact ⟨fresh, missing, rfl, rfl⟩
  | createDir name =>
      apply (Performs.createDir represents isMember name).packed
      rintro _ later ⟨fresh, missing, rfl, rfl⟩
      exact ⟨fresh, missing, rfl, rfl⟩
  | link name target =>
      apply Performs.atPath represents target
      intro child warm warmed found
      have childMember := Tree.resolve_member represents found
      have links := Performs.linkInode (represents.warmed warmed) isMember name childMember
        fun links content isLeaf => permits child links content found isLeaf
      rw [warmed.fs_eq] at links ⊢
      refine (links.widen fun crowded roomy => crowded (warmed.roomy roomy)).packed
        (fun _ => Answer.done) ?_
      rintro _ later ⟨count, content, isLeaf, isLater⟩
      exact ⟨rfl, child, count, content, found, isLeaf, isLater⟩
  | unlink name =>
      refine ((Performs.unlink represents isMember name).widen False.elim).packed
        (fun _ => Answer.done) ?_
      exact fun _ later isLater => ⟨rfl, isLater⟩
  | rename old new =>
      refine (Performs.rename represents isMember permits).packed (fun _ => Answer.done) ?_
      exact fun _ later isLater => ⟨rfl, isLater⟩
  | read offset buf =>
      apply ((Performs.readAt represents isMember offset buf).widen False.elim).packed
      rintro result later ⟨reads, isLater⟩
      exact ⟨⟨result, rfl, reads⟩, isLater⟩
  | write offset buf =>
      apply (Performs.writeAt represents isMember permits).packed
      rintro _ later ⟨rfl, edits⟩
      exact ⟨rfl, edits⟩
  | clear =>
      refine ((Performs.clear represents isMember).widen False.elim).packed
        (fun _ => Answer.done) ?_
      exact fun _ later cleared => ⟨rfl, cleared.2⟩
  | setMode mode =>
      refine ((Performs.setMode represents isMember mode).widen False.elim).packed
        (fun _ => Answer.done) ?_
      exact fun _ later isLater => ⟨rfl, isLater⟩
  | list =>
      apply ((Performs.ls represents isMember).widen False.elim).packed
      rintro names later ⟨listed, isLater⟩
      exact ⟨⟨names, rfl, listed⟩, isLater⟩
  | ask attr =>
      apply ((Performs.get represents isMember attr).widen False.elim).packed
      rintro value later ⟨has, isLater⟩
      exact ⟨⟨value, rfl, has⟩, isLater⟩

end Steps

noncomputable def PathRequest.refusal (request : PathRequest) (tree : Tree) : Option Ext4Error :=
  (tree.resolve request.path).elim (some .notFound) fun id => request.operation.refusal tree id

def PathRequest.Effect (request : PathRequest) (tree : Tree) (answer : Answer) (later : Tree) :
    Prop :=
  ∃ id, tree.resolve request.path = some id ∧ request.operation.Effect tree id answer later

/-- The space that a request may need is there. -/
def PathRequest.Fits (request : PathRequest) (tree : Tree) (view : View) : Prop :=
  ∀ id, tree.resolve request.path = some id → request.operation.Fits view id

theorem Operation.Fits.warmed {volume warm : Volume} (warmed : Warmed volume warm) {id : Nat}
    {operation : Operation} (fits : operation.Fits volume.view id) :
    operation.Fits warm.view id := by
  cases operation with
  | createFile name => exact ⟨warmed.hasFreeInode fits.1, warmed.roomy fits.2⟩
  | createSpecial name mode rdev => exact ⟨warmed.hasFreeInode fits.1, warmed.roomy fits.2⟩
  | createDir name => exact ⟨warmed.hasFreeInode fits.1, warmed.roomy fits.2⟩
  | link name target => exact warmed.roomy fits
  | rename old new => exact warmed.roomy fits
  | write offset buf =>
      refine ⟨by rw [warmed.extents_eq]; exact fits.few, ?_⟩
      exact (View.hasFree_congr warmed.fs_eq (fun blockId => by rw [warmed.held_eq]) _).mpr
        fits.free
  | unlink name => exact trivial
  | read offset buf => exact trivial
  | clear => exact trivial
  | setMode mode => exact trivial
  | list => exact trivial
  | ask attr => exact trivial

/-- One request: the answer is that of the tree, or there was no space for it. -/
theorem Performs.serve {reserved : Set Nat} {volume : Volume} {tree : Tree}
    (represents : volume.view.Represents reserved tree) (request : PathRequest)
    (permits : request.operation.Permits tree) :
    Performs reserved tree volume (request.refusal tree) (¬ request.Fits tree volume.view)
      (request.Effect tree) ((Ext4.serve request).run volume) := by
  apply Performs.atPath represents request.path
  intro id warm warmed found
  have isMember := Tree.resolve_member represents found
  refine ((Performs.perform (represents.warmed warmed) isMember request.operation
    permits).mono ?_).widen ?_
  · exact fun answer later isEffect => ⟨id, found, isEffect⟩
  · exact fun crowded fits => crowded ((fits id found).warmed warmed)

/-- The tree of a root without names. -/
def rootTree : Tree where
  node id := if id = ext4RootIno then some (.dir ext4RootIno) else none
  names _ := none

theorem members_rootTree : NameSpace.members rootTree = {ext4RootIno} := by
  ext id
  simp [NameSpace.members, rootTree]

theorem isDir_rootTree {id : Nat} (isDir : rootTree.IsDir id) : id = ext4RootIno := by
  have isMember := isDir.member
  rw [members_rootTree] at isMember
  exact isMember

theorem not_leaf_rootTree (id links : Nat) (content : Content) :
    rootTree.node id ≠ some (.leaf links content) := by
  simp only [rootTree]
  split_ifs <;> simp

theorem sound_rootTree : rootTree.Sound ext4RootIno := by
  constructor
  · rfl
  · intro place child isBound
    cases isBound
  · intro place child isBound
    cases isBound
  · rw [Set.eq_empty_iff_forall_notMem]
    intro place isBound
    cases isBound
  · intro child parent isDir notRoot
    exact absurd (isDir_rootTree ⟨parent, isDir⟩) notRoot
  · intro child links content isLeaf
    exact absurd isLeaf (not_leaf_rootTree child links content)
  · refine ⟨fun _ => 0, fun child parent isDir notRoot => ?_⟩
    exact absurd (isDir_rootTree ⟨parent, isDir⟩) notRoot

theorem represents_roomy : (rootVolume roomyBitmap).view.Represents {block | block ≤ 5}
    rootTree := by
  have wellFormed := @wellFormed_rootVolume roomyBitmap (by decide)
  have isMember : 2 ∈ NameSpace.members rootTree := by
    rw [members_rootTree]
    rfl
  have resident : (rootVolume roomyBitmap).view.Resident {block | block ≤ 5} 2 :=
    ⟨wellFormed.isInode, wellFormed.inUse, Ext4Inode.typed_of_isDir wellFormed.isDir,
      wellFormed.owning, wellFormed.coherent⟩
  refine ⟨sound_rootTree, ?_, ⟨mounted_roomy, ?_, ?_⟩, ?_, ?_⟩
  · intro place child isBound
    cases isBound
  · intro id isOther
    rw [members_rootTree] at isOther
    cases isOther
    exact resident
  · intro first isFirst second isSecond different
    rw [members_rootTree] at isFirst isSecond
    exact absurd (isFirst.trans isSecond.symm) different
  · intro id isDir
    obtain rfl := isDir_rootTree isDir
    refine ⟨⟨[rootSlots], wellFormed, ?_, isMember, ?_⟩, ?_⟩
    · rw [show ext4RootIno = 2 from rfl, (owned_rootVolume roomyBitmap).1]
      exact Tidy.single 20
    · intro binding isEntry
      rw [show ext4RootIno = 2 from rfl, entries_rootVolume] at isEntry
      have isRoot : binding.inodeNum = 2 := by
        rcases List.mem_pair.mp isEntry with rfl | rfl
        · rfl
        · rfl
      rw [isRoot]
      exact isMember
    · refine @lists_of_dots rootTree 2 2 rfl (fun _ => rfl) _ Ext4DirEntry.ftDir ?_
      intro binding
      rw [show ext4RootIno = 2 from rfl, entries_rootVolume, List.mem_pair]
  · intro id links content isLeaf
    exact absurd isLeaf (not_leaf_rootTree id links content)

theorem hasFreeInode_roomy : (rootVolume roomyBitmap).view.HasFreeInode := by
  refine ⟨12, ?_, ?_⟩
  · exact View.isInode_iff.mpr (by decide : 1 ≤ 12 ∧
      12 ≤ smallFileSystem.superblock.inodesPerGroup * smallFileSystem.groupDescs.length)
  · rintro ⟨_, isUsed⟩
    have position : (12 - Resource.inode.firstItem) / (rootVolume roomyBitmap).perGroup .inode = 0 ∧
        (12 - Resource.inode.firstItem) % (rootVolume roomyBitmap).perGroup .inode = 11 :=
      (by decide : (12 - 1) / 32 = 0 ∧ (12 - 1) % 32 = 11)
    rw [Volume.used, position.1, position.2] at isUsed
    exact absurd isUsed (by
      exact (by decide : ¬ ((Bytes.zeroed : Block).write 0 [0xFF, 0x07]).testBit 11 = true))

theorem roomy_roomy : (rootVolume roomyBitmap).view.Roomy 2 0 := by
  have extents := (owned_rootVolume roomyBitmap).1
  have count : (rootVolume roomyBitmap).view.blockCount 2 = 1 := by
    rw [View.blockCount, inode_rootVolume]
    decide
  refine ⟨⟨?_, ?_⟩, ?_, [21], ⟨List.nodup_singleton 21, ?_, ?_⟩, ?_⟩
  · rw [extents, count]
    decide
  · rw [count]
    decide
  · rw [extents]
    decide
  · intro blockId isMem
    rw [List.mem_singleton.mp isMem]
    exact (by decide : 0 ≤ 21 ∧ 21 < 64)
  · intro blockId isMem
    rw [List.mem_singleton.mp isMem, held_rootVolume]
    exact fun isHeld => absurd isHeld.2 (by decide)
  · rw [extents]
    decide

/-- A request that the tree does not refuse is answered when its space is there. -/
theorem serve_answers {reserved : Set Nat} {volume : Volume} {tree : Tree}
    (represents : volume.view.Represents reserved tree) {request : PathRequest}
    (permits : request.operation.Permits tree) (accepted : request.refusal tree = none)
    (fits : request.Fits tree volume.view) :
    ∃ answer after later, (serve request).run volume = .ok answer after ∧
      request.Effect tree answer later ∧ after.view.Represents reserved later := by
  have step := Performs.serve represents request permits
  generalize ran : (serve request).run volume = outcome at step
  cases step with
  | refused isRefused middleRepresents sameUnowned =>
      rw [accepted] at isRefused
      cases isRefused
  | exhausted notRefused crowded middleRepresents => exact absurd fits crowded
  | done notRefused isEffect later sameUnowned => exact ⟨_, _, _, rfl, isEffect, later⟩

theorem serve_answers_roomy :
    ∃ answer after later,
      (serve ⟨⟨[0x2F], by decide⟩, .createFile letterA⟩).run (rootVolume roomyBitmap) =
        .ok answer after ∧
      PathRequest.Effect ⟨⟨[0x2F], by decide⟩, .createFile letterA⟩ rootTree answer later ∧
      after.view.Represents {block | block ≤ 5} later :=
  serve_answers represents_roomy trivial (by rfl)
    fun id found => by
      cases found
      exact ⟨hasFreeInode_roomy, roomy_roomy⟩

/-- The operations that may need space. -/
def Operation.grows : Operation → Bool
  | .createFile _ => true
  | .createSpecial _ _ _ => true
  | .createDir _ => true
  | .link _ _ => true
  | .rename _ _ => true
  | .write _ _ => true
  | _ => false

theorem Operation.grows_of_not_fits {operation : Operation} {view : View} {id : Nat}
    (crowded : ¬ operation.Fits view id) : operation.grows = true := by
  cases operation <;> first | rfl | exact absurd trivial crowded

theorem PathRequest.grows_of_not_fits {request : PathRequest} {tree : Tree} {view : View}
    (crowded : ¬ request.Fits tree view) : request.operation.grows = true := by
  rw [PathRequest.Fits] at crowded
  push Not at crowded
  obtain ⟨id, _, notFits⟩ := crowded
  exact Operation.grows_of_not_fits notFits

/-- The results of a list of requests, the tree behind them, and whether the volume was
full for one of them. -/
inductive Tree.Serves :
    Tree → List PathRequest → List (Except Ext4Error Answer) → Tree → Bool → Prop
  | nil (tree : Tree) : Serves tree [] [] tree false
  | refused {tree later : Tree} {request : PathRequest} {requests : List PathRequest}
      {error : Ext4Error} {results : List (Except Ext4Error Answer)} {full : Bool} :
      request.refusal tree = some error → Serves tree requests results later full →
        Serves tree (request :: requests) (.error error :: results) later full
  | exhausted {tree later : Tree} {request : PathRequest} {requests : List PathRequest}
      {error : Ext4Error} {results : List (Except Ext4Error Answer)} {full : Bool} :
      request.refusal tree = none → request.operation.grows = true →
        Serves tree requests results later full →
          Serves tree (request :: requests) (.error error :: results) later true
  | done {tree next later : Tree} {request : PathRequest} {requests : List PathRequest}
      {answer : Answer} {results : List (Except Ext4Error Answer)} {full : Bool} :
      request.refusal tree = none → request.Effect tree answer next →
        Serves next requests results later full →
          Serves tree (request :: requests) (.ok answer :: results) later full

/-- Every request keeps to the limits, whichever of those before it succeed. -/
def PermitsAll : Tree → List PathRequest → Prop
  | _, [] => True
  | tree, request :: requests =>
      request.operation.Permits tree ∧ PermitsAll tree requests ∧
        ∀ answer later, request.Effect tree answer later → PermitsAll later requests

theorem run_session_cons {request : PathRequest} {requests : List PathRequest}
    {volume middle after : Volume} {result : Except Ext4Error Answer}
    {results : List (Except Ext4Error Answer)}
    (first : (serve request).attempt.run volume = .ok result middle)
    (rest : (session requests).run middle = .ok results after) :
    (session (request :: requests)).run volume = .ok (result :: results) after := by
  rw [session, run_bind_ok first, run_bind_ok rest, run_pure]

/-- A session runs along the tree. -/
theorem simulates_session {reserved : Set Nat} {requests : List PathRequest} {volume : Volume}
    {tree : Tree} (represents : volume.view.Represents reserved tree)
    (permits : PermitsAll tree requests) :
    ∃ results after later full, (session requests).run volume = .ok results after ∧
      tree.Serves requests results later full ∧ after.view.Represents reserved later ∧
      (full = false →
        after.view.unowned later.members = volume.view.unowned tree.members) := by
  induction requests generalizing volume tree with
  | nil => exact ⟨[], volume, tree, false, rfl, .nil tree, represents, fun _ => rfl⟩
  | cons request requests ih =>
      obtain ⟨permitted, whenFailed, whenDone⟩ := permits
      have step := Performs.serve represents request permitted
      generalize ran : (serve request).run volume = outcome at step
      cases step with
      | refused isRefused middleRepresents sameUnowned =>
          obtain ⟨results, after, later, full, rest, serves, holds, keeps⟩ :=
            ih middleRepresents whenFailed
          refine ⟨_, after, later, full, run_session_cons (run_attempt_err ran) rest,
            .refused isRefused serves, holds, ?_⟩
          intro notFull
          exact (keeps notFull).trans sameUnowned
      | exhausted notRefused crowded middleRepresents =>
          obtain ⟨results, after, later, full, rest, serves, holds, _⟩ :=
            ih middleRepresents whenFailed
          refine ⟨_, after, later, true, run_session_cons (run_attempt_err ran) rest,
            .exhausted notRefused (PathRequest.grows_of_not_fits crowded) serves, holds, ?_⟩
          intro notFull
          cases notFull
      | done notRefused isEffect middleRepresents sameUnowned =>
          obtain ⟨results, after, later, full, rest, serves, holds, keeps⟩ :=
            ih middleRepresents (whenDone _ _ isEffect)
          refine ⟨_, after, later, full, run_session_cons (run_attempt_ok ran) rest,
            .done notRefused isEffect serves, holds, ?_⟩
          intro notFull
          exact (keeps notFull).trans sameUnowned

/-- Make a file, write into it and remove it. -/
def shortSession : List PathRequest :=
  [⟨⟨[0x2F], by decide⟩, .createFile letterA⟩,
    ⟨⟨[0x2F, 0x61], by decide⟩, .write 1 [7]⟩,
    ⟨⟨[0x2F], by decide⟩, .unlink letterA⟩]

theorem permits_shortSession (tree : Tree) : PermitsAll tree shortSession := by
  have last (tree : Tree) : PermitsAll tree [⟨⟨[0x2F], by decide⟩, .unlink letterA⟩] :=
    ⟨trivial, trivial, fun _ _ _ => trivial⟩
  have rest (tree : Tree) : PermitsAll tree
      [⟨⟨[0x2F, 0x61], by decide⟩, .write 1 [7]⟩, ⟨⟨[0x2F], by decide⟩, .unlink letterA⟩] :=
    ⟨(by decide : 1 + 1 ≤ u32Max * blockSz), last tree, fun _ later _ => last later⟩
  exact ⟨trivial, rest tree, fun _ later _ => rest later⟩

/-- A session never panics, its answers are those of the tree, and the volume holds the
tree at its end. -/
theorem session_serves {reserved : Set Nat} {requests : List PathRequest} {volume : Volume}
    {tree : Tree} (represents : volume.view.Represents reserved tree)
    (permits : PermitsAll tree requests) :
    ∃ results after later full, (session requests).run volume = .ok results after ∧
      tree.Serves requests results later full ∧ after.view.Represents reserved later := by
  obtain ⟨results, after, later, full, ran, serves, holds, _⟩ :=
    simulates_session represents permits
  exact ⟨results, after, later, full, ran, serves, holds⟩

theorem session_serves_roomy :
    ∃ results after later full,
      (session shortSession).run (rootVolume roomyBitmap) = .ok results after ∧
      rootTree.Serves shortSession results later full ∧
      after.view.Represents {block | block ≤ 5} later :=
  session_serves represents_roomy (permits_shortSession rootTree)

/-- Unless the volume was full for a request, the blocks in use behind a session are those
of its tree and those that no inode owned before. -/
theorem session_keepsBlocks {reserved : Set Nat} {requests : List PathRequest} {volume : Volume}
    {tree : Tree} (represents : volume.view.Represents reserved tree)
    (permits : PermitsAll tree requests) :
    ∃ results after later full, (session requests).run volume = .ok results after ∧
      tree.Serves requests results later full ∧
      (full = false → ∀ blockId, blockId ∈ after.view.held .block ↔
        (∃ id ∈ later.members, blockId ∈ after.view.owned id) ∨
          blockId ∈ volume.view.unowned tree.members) := by
  obtain ⟨results, after, later, full, ran, serves, holds, keeps⟩ :=
    simulates_session represents permits
  refine ⟨results, after, later, full, ran, serves, fun notFull blockId => ?_⟩
  rw [← keeps notFull]
  constructor
  · intro isHeld
    by_cases isOwned : ∃ id ∈ later.members, blockId ∈ after.view.owned id
    · exact Or.inl isOwned
    · exact Or.inr ⟨isHeld, fun id isMember isOwner => isOwned ⟨id, isMember, isOwner⟩⟩
  · rintro (⟨id, isMember, isOwned⟩ | ⟨isHeld, _⟩)
    · exact (holds.apart.resident id isMember).owning.held blockId isOwned
    · exact isHeld

theorem session_keepsBlocks_roomy :
    ∃ results after later full,
      (session shortSession).run (rootVolume roomyBitmap) = .ok results after ∧
      rootTree.Serves shortSession results later full ∧
      (full = false → ∀ blockId, blockId ∈ after.view.held .block ↔
        (∃ id ∈ later.members, blockId ∈ after.view.owned id) ∨
          blockId ∈ (rootVolume roomyBitmap).view.unowned rootTree.members) :=
  session_keepsBlocks represents_roomy (permits_shortSession rootTree)

end Ext4

end OSWorkspace
