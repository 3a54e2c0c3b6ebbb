import OSWorkspace.Ext4ReclaimedFiles

/-!
# Inodes that a step leaves alone

The inodes of a tree own disjoint blocks.  A call changes one or two of them and
spares the others: their structures, their blocks and what is cached of them stay
as they are, or a cache is filled with what is on disk.  This file states both and
shows what a spared directory and a spared file keep.
-/

namespace OSWorkspace

namespace Ext4

open Exec View

/-- Nothing that belongs to the members has changed. -/
structure View.Spares (reserved members : Set Nat) (view after : View) : Prop where
  fs : after.fs = view.fs
  reserved : ∀ blockId ∈ reserved, blockId ∈ view.held .block → blockId ∈ after.held .block
  unchanged : ∀ inodeNum ∈ members, Unchanged view after inodeNum
  inUse : ∀ inodeNum ∈ members, inodeNum ∈ view.held .inode → inodeNum ∈ after.held .inode
  extentsCache : ∀ inodeNum ∈ members, ∀ extents,
    after.extentsCache[inodeNum]? = some extents →
      view.extentsCache[inodeNum]? = some extents ∨ extents = view.extents inodeNum
  dirIndexCache : ∀ inodeNum ∈ members, ∀ index,
    after.dirIndexCache[inodeNum]? = some index →
      view.dirIndexCache[inodeNum]? = some index ∨
        index = (view.entries inodeNum).foldl Inode.insertBinding ∅

/-- An inode in use with blocks of its own. -/
structure View.Resident (reserved : Set Nat) (view : View) (inodeNum : Nat) : Prop where
  isInode : view.fs.IsInode inodeNum
  inUse : inodeNum ∈ view.held .inode
  typed : (view.inode inodeNum).Typed
  owning : view.Owning reserved inodeNum
  coherent : view.Coherent inodeNum

/-- The members are in use, and no block belongs to two of them. -/
structure View.Apart (reserved members : Set Nat) (view : View) : Prop where
  mounted : view.Mounted reserved
  resident : ∀ inodeNum ∈ members, view.Resident reserved inodeNum
  disjoint : ∀ first ∈ members, ∀ second ∈ members, first ≠ second →
    List.Disjoint (view.owned first) (view.owned second)

namespace View.Spares

variable {reserved members : Set Nat} {view after last : View}

theorem refl (reserved members : Set Nat) (view : View) : Spares reserved members view view := by
  constructor
  · rfl
  · intro _ _ isHeld
    exact isHeld
  · intro inodeNum _
    exact Unchanged.refl view inodeNum
  · intro _ _ inUse
    exact inUse
  · intro _ _ _ found
    exact Or.inl found
  · intro _ _ _ found
    exact Or.inl found

theorem trans (first : Spares reserved members view after)
    (second : Spares reserved members after last) : Spares reserved members view last := by
  constructor
  · exact second.fs.trans first.fs
  · intro blockId isReserved isHeld
    exact second.reserved blockId isReserved (first.reserved blockId isReserved isHeld)
  · intro inodeNum isMember
    exact (first.unchanged inodeNum isMember).trans (second.unchanged inodeNum isMember)
  · intro inodeNum isMember inUse
    exact second.inUse inodeNum isMember (first.inUse inodeNum isMember inUse)
  · intro inodeNum isMember extents found
    rcases second.extentsCache inodeNum isMember extents found with cached | built
    · exact first.extentsCache inodeNum isMember extents cached
    · rw [(first.unchanged inodeNum isMember).extents_eq] at built
      exact Or.inr built
  · intro inodeNum isMember index found
    rcases second.dirIndexCache inodeNum isMember index found with cached | built
    · exact first.dirIndexCache inodeNum isMember index cached
    · rw [(first.unchanged inodeNum isMember).entries_eq] at built
      exact Or.inr built

theorem mono (spares : Spares reserved members view after) {fewer : Set Nat}
    (subset : fewer ⊆ members) : Spares reserved fewer view after := by
  constructor
  · exact spares.fs
  · exact spares.reserved
  · intro inodeNum isMember
    exact spares.unchanged inodeNum (subset isMember)
  · intro inodeNum isMember
    exact spares.inUse inodeNum (subset isMember)
  · intro inodeNum isMember
    exact spares.extentsCache inodeNum (subset isMember)
  · intro inodeNum isMember
    exact spares.dirIndexCache inodeNum (subset isMember)

theorem mounted (spares : Spares reserved members view after) (mounted : view.Mounted reserved) :
    after.Mounted reserved := by
  refine ⟨by rw [spares.fs]; exact mounted.geometry, by rw [spares.fs]; exact mounted.small,
    by rw [spares.fs]; exact mounted.layout, ?_⟩
  intro blockId isReserved
  exact spares.reserved blockId isReserved (mounted.reserved blockId isReserved)

section Member

variable (spares : Spares reserved members view after) {inodeNum : Nat}
  (isMember : inodeNum ∈ members)

include spares isMember

theorem coherent (coherent : view.Coherent inodeNum) : after.Coherent inodeNum := by
  intro extents found
  rw [(spares.unchanged inodeNum isMember).extents_eq]
  rcases spares.extentsCache inodeNum isMember extents found with cached | built
  · exact coherent extents cached
  · exact built

theorem resident (resident : view.Resident reserved inodeNum) :
    after.Resident reserved inodeNum := by
  have unchanged := spares.unchanged inodeNum isMember
  refine ⟨by rw [spares.fs]; exact resident.isInode,
    spares.inUse inodeNum isMember resident.inUse, ?_, unchanged.owning resident.owning,
    spares.coherent isMember resident.coherent⟩
  rw [unchanged.inode]
  exact resident.typed

theorem directory (directory : view.Directory reserved inodeNum) :
    after.Directory reserved inodeNum := by
  have unchanged := spares.unchanged inodeNum isMember
  refine ⟨by rw [spares.fs]; exact directory.isInode,
    spares.inUse inodeNum isMember directory.inUse, unchanged.owning directory.owning,
    spares.coherent isMember directory.coherent, by rw [unchanged.inode]; exact directory.isDir,
    by rw [unchanged.inode]; exact directory.usesExtents,
    by rw [unchanged.extents_eq]; exact directory.ordered,
    by rw [unchanged.extents_eq]; exact directory.bounded,
    by rw [unchanged.inode, unchanged.extents_eq]; exact directory.mapped, ?_⟩
  intro name number fileType found
  cases cached : after.dirIndexCache[inodeNum]? with
  | none => exact numbers_of_built cached name number fileType found
  | some index =>
      rw [View.dirIndex, cached] at found
      rcases spares.dirIndexCache inodeNum isMember index cached with was | built
      · apply directory.numbers name number fileType
        rw [View.dirIndex, was]
        exact found
      · subst built
        rcases mem_of_getElem?_foldl found with fromNone | isEntry
        · simp at fromNone
        · exact view.inodeNum_lt_of_entries isEntry

/-- A spared directory is well-formed while its names lead to typed inodes. -/
theorem wellFormed {blocks : List (List Dirent)}
    (wellFormed : view.WellFormed reserved inodeNum blocks)
    (typed : ∀ binding ∈ view.entries inodeNum, (after.inode binding.inodeNum).Typed) :
    after.WellFormed reserved inodeNum blocks := by
  have unchanged := spares.unchanged inodeNum isMember
  have sameEntries := unchanged.entries_eq
  have holds := wellFormed.toHolds.of_unchanged
    (spares.directory isMember wellFormed.toDirectory) unchanged
  refine ⟨holds, wellFormed.distinct, ?_, ?_, by rw [sameEntries]; exact wellFormed.apart⟩
  · intro name number fileType
    cases cached : after.dirIndexCache[inodeNum]? with
    | none => exact holds.indexed_of_built wellFormed.distinct cached name number fileType
    | some index =>
        rw [View.dirIndex, cached, sameEntries]
        rcases spares.dirIndexCache inodeNum isMember index cached with was | built
        · rw [← wellFormed.indexed name number fileType, View.dirIndex, was]
        · rw [built]
          exact getElem?_foldl_iff (wellFormed.toHolds.entries_nodup wellFormed.distinct) name
            number fileType
  · rw [sameEntries]
    intro binding isEntry
    refine ⟨?_, typed binding isEntry⟩
    rw [spares.fs]
    exact (wellFormed.named binding isEntry).1

theorem stores {bytes : List UInt8} (stores : view.Stores reserved inodeNum bytes) :
    after.Stores reserved inodeNum bytes := by
  have unchanged := spares.unchanged inodeNum isMember
  refine ⟨spares.mounted stores.mounted, by rw [spares.fs]; exact stores.isInode,
    unchanged.owning stores.owning, spares.coherent isMember stores.coherent,
    by rw [unchanged.inode]; exact stores.isFile,
    by rw [unchanged.inode]; exact stores.usesExtents,
    by rw [unchanged.extents_eq]; exact stores.tidy,
    by rw [unchanged.inode]; exact stores.size, ?_⟩
  intro position
  rw [unchanged.extents_eq, ← stores.content position]
  exact byteAt_congr (fun blockId isData =>
    unchanged.data blockId (mem_owned.mpr (Or.inl isData))) position

end Member

end View.Spares

namespace View.Apart

variable {reserved members : Set Nat} {view after : View} (apart : view.Apart reserved members)

include apart

theorem mono {fewer : Set Nat} (subset : fewer ⊆ members) : view.Apart reserved fewer :=
  ⟨apart.mounted, fun inodeNum isMember => apart.resident inodeNum (subset isMember),
    fun first isFirst second isSecond =>
      apart.disjoint first (subset isFirst) second (subset isSecond)⟩

theorem spared (spares : Spares reserved members view after) : after.Apart reserved members := by
  refine ⟨spares.mounted apart.mounted, ?_, ?_⟩
  · intro inodeNum isMember
    exact spares.resident isMember (apart.resident inodeNum isMember)
  · intro first isFirst second isSecond different
    rw [(spares.unchanged first isFirst).owned_eq, (spares.unchanged second isSecond).owned_eq]
    exact apart.disjoint first isFirst second isSecond different

/-- Another inode whose blocks belong to no member. -/
theorem add {inodeNum : Nat} (resident : view.Resident reserved inodeNum)
    (disjoint : ∀ other ∈ members, other ≠ inodeNum →
      List.Disjoint (view.owned other) (view.owned inodeNum)) :
    view.Apart reserved (insert inodeNum members) := by
  refine ⟨apart.mounted, ?_, ?_⟩
  · rintro other (rfl | isMember)
    · exact resident
    · exact apart.resident other isMember
  · rintro first (rfl | isFirst) second (rfl | isSecond) different
    · exact absurd rfl different
    · exact (disjoint second isSecond different.symm).symm
    · exact disjoint first isFirst different
    · exact apart.disjoint first isFirst second isSecond different

/-- A step on one member spares the others. -/
theorem spares_of_fileStep {inodeNum : Nat} (isMember : inodeNum ∈ members)
    (step : FileStep reserved inodeNum view after) :
    Spares reserved (members \ {inodeNum}) view after := by
  have owning := (apart.resident inodeNum isMember).owning
  constructor
  · exact step.fs
  · intro blockId isReserved isHeld
    exact step.held blockId isHeld fun isOwned => owning.outside blockId isOwned isReserved
  · rintro other ⟨isOther, different⟩
    have resident := apart.resident other isOther
    exact step.unchanged resident.isInode different resident.owning
      (apart.disjoint other isOther inodeNum isMember different)
  · rintro other _ inUse
    rw [step.heldInodes]
    exact inUse
  · rintro other ⟨_, different⟩ extents found
    exact Or.inl (step.extentsCache other different extents found)
  · rintro other _ index found
    exact Or.inl (step.dirIndexCache other trivial index found)

theorem of_fileStep {inodeNum : Nat} (isMember : inodeNum ∈ members)
    (step : FileStep reserved inodeNum view after)
    (typed : (after.inode inodeNum).Typed) : after.Apart reserved members := by
  have others := (apart.mono Set.sdiff_subset).spared (apart.spares_of_fileStep isMember step)
  have was := apart.resident inodeNum isMember
  have resident : after.Resident reserved inodeNum :=
    ⟨by rw [step.fs]; exact was.isInode, by rw [step.heldInodes]; exact was.inUse, typed,
      step.owning, step.coherent⟩
  have rejoined := others.add resident (by
    rintro other ⟨isOther, different⟩ _
    have resident := apart.resident other isOther
    have disjoint := apart.disjoint other isOther inodeNum isMember different
    rw [(step.unchanged resident.isInode different resident.owning disjoint).owned_eq]
    exact step.disjoint resident.owning disjoint)
  rw [Set.insert_sdiff_singleton, Set.insert_eq_of_mem isMember] at rejoined
  exact rejoined

/-- A step that leaves its own inode alone too. -/
theorem spares_of_unchanged {inodeNum : Nat} (isMember : inodeNum ∈ members)
    (step : FileStep reserved inodeNum view after) (unchanged : Unchanged view after inodeNum) :
    Spares reserved members view after := by
  have others := apart.spares_of_fileStep isMember step
  constructor
  · exact step.fs
  · exact others.reserved
  · intro other isOther
    by_cases same : other = inodeNum
    · subst same
      exact unchanged
    · exact others.unchanged other ⟨isOther, same⟩
  · intro other _ inUse
    rw [step.heldInodes]
    exact inUse
  · intro other isOther extents found
    by_cases same : other = inodeNum
    · subst same
      rw [← unchanged.extents_eq]
      exact Or.inr (step.coherent extents found)
    · exact others.extentsCache other ⟨isOther, same⟩ extents found
  · intro other _ index found
    exact Or.inl (step.dirIndexCache other trivial index found)

theorem spares_of_leaks {inodeNum : Nat} (isMember : inodeNum ∈ members) {lost : List Nat}
    (leaks : Leaks view after lost) : Spares reserved members view after := by
  have was := apart.resident inodeNum isMember
  obtain ⟨step, unchanged⟩ := leaks.fileStep apart.mounted was.isInode was.owning was.coherent
  exact apart.spares_of_unchanged isMember step unchanged

end View.Apart

theorem Warmed.spares (reserved members : Set Nat) {volume after : Volume}
    (warmed : Warmed volume after) : Spares reserved members volume.view after.view := by
  constructor
  · exact warmed.fs_eq
  · intro blockId _ isHeld
    rw [warmed.held_eq]
    exact isHeld
  · intro inodeNum _
    exact warmed.unchanged inodeNum
  · intro inodeNum _ inUse
    rw [warmed.held_eq]
    exact inUse
  · intro inodeNum _ extents found
    exact warmed.extents inodeNum extents found
  · intro inodeNum _ index found
    exact warmed.index inodeNum index found

theorem View.Spares.withIndexes {reserved members : Set Nat} (view : View) {dir : Nat}
    {indexes : Std.TreeMap Nat DirIndex}
    (others : ∀ other, other ≠ dir → indexes[other]? = view.dirIndexCache[other]?) :
    Spares reserved (members \ {dir}) view { view with dirIndexCache := indexes } := by
  constructor
  · rfl
  · intro _ _ isHeld
    exact isHeld
  · intro inodeNum _
    exact ⟨rfl, fun _ _ => rfl, fun _ _ isHeld => isHeld⟩
  · intro _ _ inUse
    exact inUse
  · intro _ _ _ found
    exact Or.inl found
  · rintro inodeNum ⟨_, different⟩ index found
    left
    rw [← others inodeNum different]
    exact found

theorem View.Apart.withIndexes {reserved members : Set Nat} {view : View}
    (apart : view.Apart reserved members) (indexes : Std.TreeMap Nat DirIndex) :
    ({ view with dirIndexCache := indexes } : View).Apart reserved members := by
  have mounted := apart.mounted
  refine ⟨⟨mounted.geometry, mounted.small, mounted.layout, mounted.reserved⟩, ?_,
    apart.disjoint⟩
  intro inodeNum isMember
  have resident := apart.resident inodeNum isMember
  have owning := resident.owning
  exact ⟨resident.isInode, resident.inUse, resident.typed,
    ⟨owning.nodup, owning.held, owning.outside⟩, resident.coherent⟩

/-- The blocks in use that belong to no member. -/
def View.unowned (members : Set Nat) (view : View) : Set Nat :=
  {blockId | blockId ∈ view.held .block ∧ ∀ inodeNum ∈ members, blockId ∉ view.owned inodeNum}

/-- A step between sets of inodes that own disjoint blocks: those that are kept are
spared, and a block that belongs to no inode was so before. -/
structure View.Passage (reserved before later kept : Set Nat) (view after : View) : Prop where
  apart : after.Apart reserved later
  spares : Spares reserved kept view after
  unowned : after.unowned later = view.unowned before

namespace View.Passage

variable {reserved : Set Nat} {view after last : View}

theorem trans {first second third kept rest : Set Nat}
    (passage : Passage reserved first second kept view after)
    (next : Passage reserved second third rest after last) :
    Passage reserved first third (kept ∩ rest) view last where
  apart := next.apart
  spares := (passage.spares.mono Set.inter_subset_left).trans
    (next.spares.mono Set.inter_subset_right)
  unowned := next.unowned.trans passage.unowned

variable {members : Set Nat} (apart : view.Apart reserved members)

include apart

theorem of_same (spares : Spares reserved members view after)
    (sameHeld : after.held .block = view.held .block) :
    Passage reserved members members members view after := by
  refine ⟨apart.spared spares, spares, ?_⟩
  ext blockId
  simp only [View.unowned, sameHeld]
  constructor
  · rintro ⟨isHeld, unowned⟩
    refine ⟨isHeld, fun inodeNum isMember => ?_⟩
    rw [← (spares.unchanged inodeNum isMember).owned_eq]
    exact unowned inodeNum isMember
  · rintro ⟨isHeld, unowned⟩
    refine ⟨isHeld, fun inodeNum isMember => ?_⟩
    rw [(spares.unchanged inodeNum isMember).owned_eq]
    exact unowned inodeNum isMember

theorem of_fileStep {inodeNum : Nat} (isMember : inodeNum ∈ members)
    (step : FileStep reserved inodeNum view after) (exchanges : Exchanges inodeNum view after)
    (typed : (after.inode inodeNum).Typed) :
    Passage reserved members members (members \ {inodeNum}) view after := by
  have spares := apart.spares_of_fileStep isMember step
  refine ⟨apart.of_fileStep isMember step typed, spares, ?_⟩
  ext blockId
  constructor
  · rintro ⟨isHeld, unowned⟩
    rcases (exchanges blockId).mp isHeld with ⟨wasHeld, notOwned⟩ | isOwned
    · refine ⟨wasHeld, fun other isOther => ?_⟩
      by_cases same : other = inodeNum
      · subst same
        exact notOwned
      · rw [← (spares.unchanged other ⟨isOther, same⟩).owned_eq]
        exact unowned other isOther
    · exact absurd isOwned (unowned inodeNum isMember)
  · rintro ⟨isHeld, unowned⟩
    refine ⟨step.held blockId isHeld (unowned inodeNum isMember), fun other isOther isOwned => ?_⟩
    by_cases same : other = inodeNum
    · subst same
      rcases step.owned blockId isOwned with wasOwned | wasFree
      · exact unowned other isOther wasOwned
      · exact wasFree isHeld
    · rw [(spares.unchanged other ⟨isOther, same⟩).owned_eq] at isOwned
      exact unowned other isOther isOwned

theorem withIndexes {dir : Nat} {indexes : Std.TreeMap Nat DirIndex}
    (others : ∀ other, other ≠ dir → indexes[other]? = view.dirIndexCache[other]?) :
    Passage reserved members members (members \ {dir}) view
      { view with dirIndexCache := indexes } :=
  ⟨apart.withIndexes indexes, Spares.withIndexes view others, rfl⟩

end View.Passage

theorem Warmed.passage {reserved members : Set Nat} {volume after : Volume}
    (warmed : Warmed volume after) (apart : volume.view.Apart reserved members) :
    Passage reserved members members members volume.view after.view :=
  Passage.of_same apart (warmed.spares reserved members) (by rw [warmed.held_eq])

/-- An inode number that was free, with a new inode and nothing cached of it. -/
def View.take (view : View) (inodeNum : Nat) (inode : Ext4Inode) : View :=
  ((view.hold .inode inodeNum).forget inodeNum).putInode inodeNum inode

theorem View.held_take (view : View) (inodeNum : Nat) (inode : Ext4Inode) :
    (view.take inodeNum inode).held .inode = insert inodeNum (view.held .inode) ∧
      (view.take inodeNum inode).held .block = view.held .block := by
  constructor <;> simp [View.take, View.putInode, View.put, View.forget, View.hold]

section Taking

variable {reserved members : Set Nat} {view : View} (apart : view.Apart reserved members)
  {inodeNum : Nat}

include apart

theorem View.Apart.not_mem (free : inodeNum ∉ view.held .inode) : inodeNum ∉ members :=
  fun isMember => free (apart.resident inodeNum isMember).inUse

/-- Taking a number that none of the inodes has leaves them as they are. -/
theorem View.Apart.spares_take (isInode : view.fs.IsInode inodeNum)
    (notMember : inodeNum ∉ members) (inode : Ext4Inode) :
    Spares reserved members view (view.take inodeNum inode) := by
  have mounted := apart.mounted
  obtain ⟨inodesEq, sameBlocks⟩ := view.held_take inodeNum inode
  constructor
  · rfl
  · intro blockId _ isHeld
    rw [sameBlocks]
    exact isHeld
  · intro other isOther
    have resident := apart.resident other isOther
    have different : other ≠ inodeNum := by
      rintro rfl
      exact notMember isOther
    refine ⟨?_, ?_, ?_⟩
    · exact @inode_putInode_of_ne ((view.hold .inode inodeNum).forget inodeNum) reserved
        mounted.layout mounted.geometry inodeNum isInode inode other resident.isInode different
    · intro blockId isOwned
      exact @data_putInode ((view.hold .inode inodeNum).forget inodeNum) reserved mounted.layout
        mounted.geometry inodeNum isInode inode blockId (resident.owning.outside blockId isOwned)
    · intro blockId _ isHeld
      rw [sameBlocks]
      exact isHeld
  · intro other _ inUse
    rw [inodesEq]
    exact Or.inr inUse
  · intro other _ extents found
    exact Or.inl (getElem?_of_erase found)
  · intro other _ index found
    exact Or.inl (getElem?_of_erase found)

omit apart in
/-- The new inode keeps the invariants of an inode when its blocks are held. -/
theorem View.Mounted.resident_take (mounted : view.Mounted reserved)
    (isInode : view.fs.IsInode inodeNum) {inode : Ext4Inode} (typed : inode.Typed)
    (nodup : ((view.take inodeNum inode).owned inodeNum).Nodup)
    (held : ∀ blockId ∈ (view.take inodeNum inode).owned inodeNum,
      blockId ∈ view.held .block ∧ blockId ∉ reserved) :
    (view.take inodeNum inode).Resident reserved inodeNum := by
  obtain ⟨inodesEq, sameBlocks⟩ := view.held_take inodeNum inode
  have inodeEq : (view.take inodeNum inode).inode inodeNum = inode :=
    @inode_putInode_same ((view.hold .inode inodeNum).forget inodeNum) reserved mounted.layout
      mounted.geometry inodeNum isInode inode
  refine ⟨isInode, by rw [inodesEq]; exact Set.mem_insert _ _, by rw [inodeEq]; exact typed,
    ⟨nodup, ?_, fun blockId isOwned => (held blockId isOwned).2⟩, ?_⟩
  · intro blockId isOwned
    rw [sameBlocks]
    exact (held blockId isOwned).1
  · intro extents found
    have gone : (view.take inodeNum inode).extentsCache[inodeNum]? = none :=
      Std.TreeMap.getElem?_erase_self
    rw [gone] at found
    cases found

/-- Taking an inode number after a step that took the blocks which the new inode owns. -/
theorem View.Apart.passage_take {base : View} (spares : Spares reserved members view base)
    {taken : List Nat} (nodup : taken.Nodup) (fresh : ∀ blockId ∈ taken, blockId ∉ view.held .block)
    (blocksEq : ∀ blockId, blockId ∈ base.held .block ↔
      blockId ∈ view.held .block ∨ blockId ∈ taken)
    (isInode : base.fs.IsInode inodeNum) (notMember : inodeNum ∉ members) {inode : Ext4Inode}
    (typed : inode.Typed) (owns : (base.take inodeNum inode).owned inodeNum = taken) :
    Passage reserved members (insert inodeNum members) members view
      (base.take inodeNum inode) := by
  have baseApart := apart.spared spares
  have sameBlocks := (base.held_take inodeNum inode).2
  have resident : (base.take inodeNum inode).Resident reserved inodeNum := by
    refine baseApart.mounted.resident_take isInode typed (by rw [owns]; exact nodup) ?_
    intro blockId isOwned
    rw [owns] at isOwned
    exact ⟨(blocksEq blockId).mpr (Or.inr isOwned),
      fun isReserved => fresh blockId isOwned (apart.mounted.reserved blockId isReserved)⟩
  have whole := spares.trans (baseApart.spares_take isInode notMember inode)
  have ownedHeld {other blockId : Nat} (isOther : other ∈ members)
      (isOwned : blockId ∈ view.owned other) : blockId ∉ taken := fun isTaken =>
    fresh blockId isTaken ((apart.resident other isOther).owning.held blockId isOwned)
  refine ⟨(apart.spared whole).add resident ?_, whole, ?_⟩
  · intro other isOther _ blockId isOwned isTaken
    rw [(whole.unchanged other isOther).owned_eq] at isOwned
    rw [owns] at isTaken
    exact ownedHeld isOther isOwned isTaken
  · ext blockId
    simp only [View.unowned, sameBlocks]
    constructor
    · rintro ⟨isHeld, unowned⟩
      have notTaken : blockId ∉ taken := by
        rw [← owns]
        exact unowned inodeNum (Or.inl rfl)
      refine ⟨((blocksEq blockId).mp isHeld).resolve_right notTaken, fun other isOther => ?_⟩
      rw [← (whole.unchanged other isOther).owned_eq]
      exact unowned other (Or.inr isOther)
    · rintro ⟨isHeld, unowned⟩
      refine ⟨(blocksEq blockId).mpr (Or.inl isHeld), ?_⟩
      rintro other (rfl | isOther)
      · rw [owns]
        exact fun isTaken => fresh blockId isTaken isHeld
      · rw [(whole.unchanged other isOther).owned_eq]
        exact unowned other isOther

omit apart in
/-- The data behind a release is that behind the write of the empty inode. -/
theorem View.data_discard (view : View) (inodeNum : Nat) : ∃ inode,
    (view.discard inodeNum).data = (view.putInode inodeNum inode).data :=
  ⟨_, rfl⟩

/-- Giving back the number of an inode and every block that it owns. -/
theorem View.Apart.passage_discard (isMember : inodeNum ∈ members)
    (tidy : Tidy (view.extents inodeNum)) :
    Passage reserved members (members \ {inodeNum}) (members \ {inodeNum}) view
      (view.discard inodeNum) := by
  have mounted := apart.mounted
  have isInode := (apart.resident inodeNum isMember).isInode
  have owning := (apart.resident inodeNum isMember).owning
  obtain ⟨inode, sameData⟩ := view.data_discard inodeNum
  have spares : Spares reserved (members \ {inodeNum}) view (view.discard inodeNum) := by
    constructor
    · rfl
    · intro blockId isReserved isHeld
      rw [View.mem_held_discard tidy]
      exact ⟨isHeld, fun isOwned => owning.outside blockId isOwned isReserved⟩
    · rintro other ⟨isOther, different⟩
      have resident := apart.resident other isOther
      refine ⟨?_, ?_, ?_⟩
      · have sameInode := inode_putInode_of_ne mounted.layout mounted.geometry isInode inode
          resident.isInode different
        rw [View.inode, ← sameData] at sameInode
        exact sameInode
      · intro blockId isOwned
        rw [sameData]
        exact data_putInode mounted.layout mounted.geometry isInode inode
          (resident.owning.outside blockId isOwned)
      · intro blockId isOwned isHeld
        rw [View.mem_held_discard tidy]
        exact ⟨isHeld, fun isGiven =>
          apart.disjoint other isOther inodeNum isMember different isOwned isGiven⟩
    · rintro other ⟨_, different⟩ inUse
      rw [View.heldInode_discard]
      exact ⟨inUse, different⟩
    · intro other _ extents found
      exact Or.inl (getElem?_of_erase found)
    · intro other _ index found
      exact Or.inl (getElem?_of_erase found)
  refine ⟨(apart.mono Set.sdiff_subset).spared spares, spares, ?_⟩
  ext blockId
  constructor
  · rintro ⟨isHeld, unowned⟩
    obtain ⟨wasHeld, notGiven⟩ := (View.mem_held_discard tidy).mp isHeld
    refine ⟨wasHeld, fun other isOther => ?_⟩
    by_cases same : other = inodeNum
    · subst same
      exact notGiven
    · rw [← (spares.unchanged other ⟨isOther, same⟩).owned_eq]
      exact unowned other ⟨isOther, same⟩
  · rintro ⟨isHeld, unowned⟩
    refine ⟨(View.mem_held_discard tidy).mpr ⟨isHeld, unowned inodeNum isMember⟩, ?_⟩
    intro other isOther
    rw [(spares.unchanged other isOther).owned_eq]
    exact unowned other isOther.1

end Taking

end Ext4

end OSWorkspace
