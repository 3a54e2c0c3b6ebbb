import OSWorkspace.Ext4OwnedBlocks

/-!
# Writing and truncating files

What the calls on the contents of one inode do to a view: they extend its map
with zeroed blocks, rewrite its tree, overwrite its own blocks, and give its
blocks back.  Every outcome, also a failure in the middle, is a step on that
inode alone.
-/

namespace OSWorkspace

namespace Ext4

open Exec View

/-- The view after allocating and zeroing the blocks. -/
def View.zeroFresh (view : View) (new : List Nat) : View :=
  { view.holdBlocks new with
    data := fun blockId => if blockId ∈ new then .zeroed else view.data blockId }

theorem View.zeroFresh_nil (view : View) : view.zeroFresh [] = view := by
  simp [View.zeroFresh, View.holdBlocks_nil]

theorem View.zeroFresh_cons (view : View) (block : Nat) (new : List Nat) :
    (view.zeroFresh [block]).zeroFresh new = view.zeroFresh (block :: new) := by
  have held : ((view.zeroFresh [block]).holdBlocks new).held =
      (view.holdBlocks (block :: new)).held := by
    have joined := congrArg View.held (View.holdBlocks_append view [block] new)
    exact joined
  ext1
  · rfl
  · exact held
  · funext other
    simp only [View.zeroFresh, List.mem_cons, List.not_mem_nil, or_false]
    by_cases isNew : other ∈ new
    · simp [isNew]
    · simp [isNew]
  · rfl
  · rfl

theorem View.mem_held_zeroFresh {view : View} {new : List Nat} {blockId : Nat} :
    blockId ∈ (view.zeroFresh new).held .block ↔
      blockId ∈ view.held .block ∨ blockId ∈ new := by
  simp [View.zeroFresh, View.holdBlocks]

theorem View.Mounted.zeroFresh {reserved : Set Nat} {view : View}
    (mounted : view.Mounted reserved) (new : List Nat) :
    (view.zeroFresh new).Mounted reserved :=
  ⟨mounted.geometry, mounted.small, mounted.layout, fun blockId isReserved =>
    View.mem_held_zeroFresh.mpr (Or.inl (mounted.reserved blockId isReserved))⟩

theorem View.Fresh.cons {view : View} {block : Nat} {new : List Nat}
    (isItem : view.IsItem .block block) (free : block ∉ view.held .block)
    (rest : (view.zeroFresh [block]).Fresh new) : view.Fresh (block :: new) := by
  have apart (other : Nat) (otherMem : other ∈ new) :
      other ∉ view.held .block ∧ other ≠ block := by
    have otherFree := rest.free other otherMem
    rw [View.mem_held_zeroFresh, not_or, List.mem_singleton] at otherFree
    exact otherFree
  constructor
  · rw [List.nodup_cons]
    exact ⟨fun blockMem => (apart block blockMem).2 rfl, rest.nodup⟩
  · intro other otherMem
    rcases List.mem_cons.mp otherMem with rfl | otherMem
    · exact isItem
    · exact rest.items other otherMem
  · intro other otherMem
    rcases List.mem_cons.mp otherMem with rfl | otherMem
    · exact free
    · exact (apart other otherMem).1

theorem View.fresh_nil (view : View) : view.Fresh [] :=
  ⟨List.nodup_nil, by simp, by simp⟩

/-- Allocating and zeroing a block. -/
theorem view_allocZeroed {volume : Volume} {reserved : Set Nat}
    (mounted : volume.view.Mounted reserved) :
    (allocBlock.run volume = .ok none volume ∧
        ∀ item, volume.view.IsItem .block item → item ∈ volume.view.held .block) ∨
      ∃ pblock taken, allocBlock.run volume = .ok (some pblock) taken ∧
        volume.view.IsItem .block pblock ∧ pblock ∉ volume.view.held .block ∧
        (taken.putBlock pblock .zeroed).view = volume.view.zeroFresh [pblock] := by
  rcases view_allocBlock mounted.geometry with ⟨ran, full⟩ |
    ⟨pblock, taken, ran, isItem, free, takenView⟩
  · exact Or.inl ⟨ran, full⟩
  · have sameShape : taken.view.fs = volume.view.fs := by rw [takenView]; rfl
    have outside : ¬ taken.fs.IsBitmap pblock := by
      rw [← isBitmap_view, sameShape]
      exact (mounted.guarded.fresh isItem free).2.1
    refine Or.inr ⟨pblock, taken, ran, isItem, free, ?_⟩
    rw [Volume.view_putBlock (Volume.geometry_view.mp (by
      rw [sameShape]; exact mounted.geometry)) outside, takenView]
    ext1
    · rfl
    · have held := congrArg View.held (View.holdBlocks_cons volume.view pblock [])
      rw [View.holdBlocks_nil] at held
      exact held
    · funext other
      by_cases same : other = pblock
      · simp [View.put, View.zeroFresh, same]
      · simp [View.put, View.zeroFresh, View.hold, same]
    · rfl
    · rfl

/-- One round of a loop that allocates and zeroes a block. -/
theorem run_allocZeroed {α : Type} {volume : Volume} {reserved : Set Nat}
    (mounted : volume.view.Mounted reserved) (next : Nat → Call α) :
    ((do
        let pblock ← okOr (← allocBlock) .noSpace
        writeBlock pblock .zeroed
        next pblock : Call α).run volume = .err .noSpace volume ∧
        ∀ item, volume.view.IsItem .block item → item ∈ volume.view.held .block) ∨
      ∃ pblock after, (do
          let pblock ← okOr (← allocBlock) .noSpace
          writeBlock pblock .zeroed
          next pblock : Call α).run volume = (next pblock).run after ∧
        volume.view.IsItem .block pblock ∧ pblock ∉ volume.view.held .block ∧
        after.view = volume.view.zeroFresh [pblock] := by
  rcases view_allocZeroed mounted with ⟨ran, full⟩ | ⟨pblock, taken, ran, isItem, free, state⟩
  · left
    refine ⟨?_, full⟩
    rw [run_bind_ok ran, run_bind_err (run_okOr_none _ _)]
  · right
    refine ⟨pblock, taken.putBlock pblock .zeroed, ?_, isItem, free, state⟩
    rw [run_bind_ok ran, run_bind_ok (run_okOr_some _ _ _), run_bind_ok (run_writeBlock _ _ _)]

/-- The loop stopped because all blocks are in use. -/
structure Exhausted (view after : View) (new : List Nat) (count : Nat) : Prop where
  fresh : view.Fresh new
  length : new.length < count
  full : ∀ item, view.IsItem .block item → item ∈ view.held .block ∨ item ∈ new
  state : after = view.zeroFresh new

theorem Exhausted.cons {view after : View} {block count : Nat} {new : List Nat}
    (isItem : view.IsItem .block block) (free : block ∉ view.held .block)
    (rest : Exhausted (view.zeroFresh [block]) after new count) :
    Exhausted view after (block :: new) (count + 1) := by
  refine ⟨rest.fresh.cons isItem free, by simpa using rest.length, ?_, ?_⟩
  · intro item itemIs
    rcases rest.full item itemIs with isHeld | isNew
    · rw [View.mem_held_zeroFresh, List.mem_singleton] at isHeld
      rcases isHeld with isHeld | rfl
      · exact Or.inl isHeld
      · exact Or.inr (by simp)
    · exact Or.inr (by simp [isNew])
  · rw [rest.state, View.zeroFresh_cons]

theorem Exhausted.mono {view after : View} {new : List Nat} {count more : Nat}
    (exhausted : Exhausted view after new count) (countLe : count ≤ more) :
    Exhausted view after new more :=
  ⟨exhausted.fresh, Nat.lt_of_lt_of_le exhausted.length countLe, exhausted.full, exhausted.state⟩

theorem view_mapRange {volume : Volume} {reserved : Set Nat}
    (mounted : volume.view.Mounted reserved) (count : Nat) {lblock : Nat}
    (small : lblock + count ≤ u32Max) (extents : List Ext4Extent) (changed : Bool) :
    (∃ result new after, (mapRange count lblock extents changed).run volume =
          .ok (result, changed || !new.isEmpty) after ∧
        Grows extents new result ∧ volume.view.Fresh new ∧ new.length ≤ count ∧
        (new = [] → result = extents) ∧
        (∀ l, lblock ≤ l → l < lblock + count → ∃ p, Maps result l p) ∧
        after.view = volume.view.zeroFresh new) ∨
      ∃ new after, (mapRange count lblock extents changed).run volume = .err .noSpace after ∧
        Exhausted volume.view after.view new count := by
  induction count generalizing volume lblock extents changed with
  | zero =>
      left
      exact ⟨extents, [], volume, by simp [mapRange], Grows.refl _, View.fresh_nil _,
        Nat.le_refl _, fun _ => rfl, fun l lower upper => by omega,
        (View.zeroFresh_nil _).symm⟩
  | succ count ih =>
      rw [mapRange]
      cases mapped : mapLogicalBlock extents lblock with
      | some pblock =>
          simp only
          rcases @ih volume mounted (lblock + 1) (by omega) extents changed with
            ⟨result, new, after, ran, grows, fresh, few, same, covered, afterView⟩ |
            ⟨new, after, ran, exhausted⟩
          · left
            refine ⟨result, new, after, ran, grows, fresh, by omega, same, ?_, afterView⟩
            intro l lower upper
            rcases Nat.eq_or_lt_of_le lower with rfl | lower
            · exact ⟨pblock, grows.kept _ _ (maps_of_mapLogicalBlock mapped)⟩
            · exact covered l lower (by omega)
          · right
            exact ⟨new, after, ran, exhausted.mono (Nat.le_succ _)⟩
      | none =>
          have unmapped (q : Nat) : ¬ Maps extents lblock q := by
            intro maps
            obtain ⟨other, found⟩ := exists_mapLogicalBlock (by omega) maps
            rw [mapped] at found
            cases found
          simp only
          rcases run_allocZeroed mounted (fun pblock => mapRange count (lblock + 1)
              (insertBlockMapping extents lblock pblock) true) with
            ⟨failed, full⟩ | ⟨pblock, middle, ran, isItem, free, middleView⟩
          · right
            refine ⟨[], volume, failed, View.fresh_nil _, by simp, ?_, (View.zeroFresh_nil _).symm⟩
            intro item itemIs
            exact Or.inl (full item itemIs)
          · rw [ran]
            have extended := extends_insertBlockMapping (by omega)
              (mounted.guarded.fresh isItem free).2.2 mapped
            rcases @ih middle (by rw [middleView]; exact mounted.zeroFresh _) (lblock + 1)
                (by omega) (insertBlockMapping extents lblock pblock) true with
              ⟨result, new, after, ran, grows, fresh, few, _, covered, afterView⟩ |
              ⟨new, after, ran, exhausted⟩
            · left
              rw [middleView] at fresh afterView
              refine ⟨result, pblock :: new, after, ?_, extended.grows unmapped grows,
                fresh.cons isItem free, by simpa using few, nofun, ?_, ?_⟩
              · simpa using ran
              · intro l lower upper
                rcases Nat.eq_or_lt_of_le lower with rfl | lower
                · exact ⟨pblock, grows.kept _ _ ((extended.maps _ _).mpr (Or.inl ⟨rfl, rfl⟩))⟩
                · exact covered l lower (by omega)
              · rw [afterView, View.zeroFresh_cons]
            · right
              rw [middleView] at exhausted
              exact ⟨pblock :: new, after, ran, exhausted.cons isItem free⟩

section Extents

variable {volume : Volume} {reserved : Set Nat} (mounted : volume.view.Mounted reserved)
  {inodeNum : Nat} (isInode : volume.view.fs.IsInode inodeNum)
  (owning : volume.view.Owning reserved inodeNum)

include mounted owning

theorem tree_of_owning :
    parseExtentTree volume.disk (volume.view.inode inodeNum).blockData =
        parseExtentTree volume.view.data (volume.view.inode inodeNum).blockData ∧
      treeBlocks volume.disk (volume.view.inode inodeNum).blockData =
        volume.view.tree inodeNum := by
  apply tree_view
  intro blockId blockMem isBitmap
  exact owning.outside blockId (View.mem_owned.mpr (Or.inr blockMem))
    (mounted.layout.bitmaps blockId isBitmap)

include isInode

theorem view_readExtentsAny :
    (volume.view.fs.handle inodeNum).readExtentsAny.run volume =
      .ok (volume.view.extents inodeNum) volume := by
  rw [Inode.readExtentsAny, run_bind_ok (view_readDiskInode mounted.layout mounted.geometry isInode),
    View.extents]
  by_cases usesExtents : (volume.view.inode inodeNum).usesExtents = true
  · simp only [usesExtents, if_true]
    rw [run_bind_ok (run_get _), run_pure, (tree_of_owning mounted owning).1]
  · simp only [usesExtents]
    rfl

theorem view_currentExtents (coherent : volume.view.Coherent inodeNum) :
    (volume.view.fs.handle inodeNum).currentExtents.run volume =
      .ok (volume.view.extents inodeNum) volume := by
  rw [Inode.currentExtents, run_bind_ok (run_get _)]
  cases cached : volume.extentsCache[(volume.view.fs.handle inodeNum).inodeNum]? with
  | some extents =>
      rw [← coherent extents cached]
      rfl
  | none => exact view_readExtentsAny mounted isInode owning

end Extents

theorem view_extentsCachePut (volume : Volume) (inodeNum : Nat) (extents : List Ext4Extent) :
    ∃ after, (extentsCachePut inodeNum extents).run volume = .ok () after ∧
      ∃ cache, after.view = { volume.view with extentsCache := cache } ∧
        CacheShrinks (· ≠ inodeNum) volume.view.extentsCache cache ∧
        cache[inodeNum]? = some extents := by
  refine ⟨_, rfl, _, Volume.view_setExtentsCache _ _, ?_, ?_⟩
  · intro key different value found
    have notSame : ¬ compare inodeNum key = .eq := by
      rw [Nat.compare_eq_eq]
      exact fun same => different same.symm
    rw [Std.TreeMap.getElem?_insert, if_neg notSame] at found
    split at found
    · simp at found
    · exact found
  · simp

theorem View.zeroFresh_frame {reserved : Set Nat} {view : View} (mounted : view.Mounted reserved)
    {inodeNum : Nat} (isInode : view.fs.IsInode inodeNum)
    (owning : view.Owning reserved inodeNum) (coherent : view.Coherent inodeNum)
    {new : List Nat} (fresh : view.Fresh new) :
    FileStep reserved inodeNum view (view.zeroFresh new) ∧
      Unchanged view (view.zeroFresh new) inodeNum := by
  refine FileStep.of_frame mounted isInode owning coherent ?_ ?_ ?_ ?_ ?_ ?_
  · rfl
  · rfl
  · intro blockId isHeld
    exact View.mem_held_zeroFresh.mpr (Or.inl isHeld)
  · intro blockId isHeld
    exact if_neg fun isNew => fresh.free blockId isNew isHeld
  · rfl
  · rfl

/-- The map of an inode was extended by zeroed blocks. -/
structure Extended (reserved : Set Nat) (inodeNum : Nat) (view : View) (new : List Nat)
    (extents : List Ext4Extent) (after : View) : Prop where
  step : FileStep reserved inodeNum view after
  exchanges : Exchanges inodeNum view after
  extents : after.extents inodeNum = extents
  usesExtents : (view.inode inodeNum).usesExtents = true →
    (after.inode inodeNum).usesExtents = true
  fields : ∀ name, name ≠ .iFlags → name ≠ .iBlocksLo →
    (after.inode inodeNum).field name = (view.inode inodeNum).field name
  zero : ∀ blockId ∈ new, after.data blockId = .zeroed
  data : ∀ blockId ∈ dataBlocks (view.extents inodeNum), after.data blockId = view.data blockId

theorem usesExtents_of_flags {inode : Ext4Inode} {flags : Nat}
    (flagsEq : inode.iFlags = flags ||| ext4ExtentsFl) : inode.usesExtents = true := by
  have isSet : (flags ||| ext4ExtentsFl).testBit 19 = true := by
    rw [Nat.testBit_or]
    simp [show Nat.testBit ext4ExtentsFl 19 = true by decide]
  have bit : ((flags ||| ext4ExtentsFl) &&& ext4ExtentsFl).testBit 19 = true := by
    rw [Nat.testBit_and, isSet]
    decide
  simp only [Ext4Inode.usesExtents, flagsEq, bne_iff_ne, ne_eq]
  intro zero
  rw [zero] at bit
  simp at bit

/-- The blocks of a new tree were free. -/
theorem NewTree.hasFree {before after : View} {inode changed : Ext4Inode}
    {extents : List Ext4Extent} {new : List Nat}
    (newTree : NewTree before inode extents changed after new) :
    before.HasFree (treeSize extents.length) := by
  refine ⟨new, ⟨?_, fun block isNew => (newTree.fresh block isNew).1,
    fun block isNew => (newTree.fresh block isNew).2⟩, newTree.length⟩
  rw [← newTree.tree]
  exact nodup_treeBlocks _ _

section Rewritten

variable {reserved : Set Nat} {inodeNum : Nat} {view : View} {new : List Nat}
  {inode changed : Ext4Inode} {extents : List Ext4Extent} {middle : View} {nodes : List Nat}
  (rewrite : Rewrite (view.zeroFresh new) inodeNum inode extents (view.tree inodeNum) changed
    middle nodes)

include rewrite

theorem Rewrite.sameFs : middle.fs = view.fs := by
  rw [rewrite.state]
  rfl

theorem Rewrite.mem_held {blockId : Nat} : blockId ∈ middle.held .block ↔
    ((blockId ∈ view.held .block ∨ blockId ∈ new) ∨ blockId ∈ nodes) ∧
      blockId ∉ view.tree inodeNum := by
  rw [rewrite.state]
  simp [View.releaseBlocks, View.holdBlocks, View.zeroFresh]

theorem Rewrite.node_free {blockId : Nat} (isNode : blockId ∈ nodes) :
    blockId ∉ view.held .block ∧ blockId ∉ new := by
  have free := (rewrite.fresh blockId isNode).2
  rwa [View.mem_held_zeroFresh, not_or] at free

theorem Rewrite.data_new {blockId : Nat} (isNew : blockId ∈ new) :
    middle.data blockId = .zeroed := by
  rw [rewrite.frame blockId fun isNode => (rewrite.node_free isNode).2 isNew]
  exact if_pos isNew

theorem Rewrite.data_kept (fresh : view.Fresh new) {blockId : Nat}
    (isHeld : blockId ∈ view.held .block) : middle.data blockId = view.data blockId := by
  rw [rewrite.frame blockId fun isNode => (rewrite.node_free isNode).1 isHeld]
  exact if_neg fun isNew => fresh.free blockId isNew isHeld

variable (mounted : view.Mounted reserved) (isInode : view.fs.IsInode inodeNum)

include mounted

theorem Rewrite.node_outside {blockId : Nat} (isNode : blockId ∈ nodes) : blockId ∉ reserved :=
  mounted.not_reserved (rewrite.node_free isNode).1

theorem Rewrite.inode_kept (fresh : view.Fresh new) {other : Nat} (isOther : view.fs.IsInode other) :
    middle.inode other = view.inode other :=
  inode_congr mounted.layout mounted.geometry isOther rewrite.sameFs fun blockId isReserved =>
    rewrite.data_kept fresh (mounted.reserved blockId isReserved)

include isInode

theorem Rewrite.data_outside {blockId : Nat} (outside : blockId ∉ reserved) :
    (middle.putInode inodeNum changed).data blockId = middle.data blockId := by
  have sameFs := rewrite.sameFs
  exact data_putInode (by rw [sameFs]; exact mounted.layout)
    (by rw [sameFs]; exact mounted.geometry) (by rw [sameFs]; exact isInode) changed outside

theorem Rewrite.inode_written :
    (middle.putInode inodeNum changed).inode inodeNum = changed := by
  have sameFs := rewrite.sameFs
  exact inode_putInode_same (by rw [sameFs]; exact mounted.layout)
    (by rw [sameFs]; exact mounted.geometry) (by rw [sameFs]; exact isInode) changed

/-- The inode has the new map and the new tree. -/
theorem Rewrite.map_written :
    (middle.putInode inodeNum changed).extents inodeNum = extents ∧
      (middle.putInode inodeNum changed).tree inodeNum = nodes := by
  obtain ⟨parseEq, treeEq⟩ := @tree_congr middle.data (middle.putInode inodeNum changed).data
    changed.blockData (fun blockId blockMem =>
      rewrite.data_outside mounted isInode (rewrite.node_outside mounted (by
        rwa [rewrite.tree] at blockMem)))
  have inodeEq := rewrite.inode_written mounted isInode
  constructor
  · rw [View.extents, inodeEq, if_pos (usesExtents_of_flags rewrite.flags), parseEq,
      rewrite.parse]
  · rw [View.tree, inodeEq, treeBlocks, treeEq, ← rewrite.tree, treeBlocks]

variable (blocks : (dataBlocks extents).Perm (new ++ dataBlocks (view.extents inodeNum)))

include blocks

theorem Rewrite.mem_owned {blockId : Nat} :
    blockId ∈ (middle.putInode inodeNum changed).owned inodeNum ↔
      (blockId ∈ new ∨ blockId ∈ dataBlocks (view.extents inodeNum)) ∨ blockId ∈ nodes := by
  obtain ⟨extentsEq, nodesEq⟩ := rewrite.map_written mounted isInode
  rw [View.mem_owned, extentsEq, nodesEq, blocks.mem_iff, List.mem_append]

variable (owning : view.Owning reserved inodeNum) (fresh : view.Fresh new)

include owning fresh

/-- The rewritten inode owns its blocks. -/
theorem Rewrite.ownsBlocks : (middle.putInode inodeNum changed).Owning reserved inodeNum := by
  obtain ⟨extentsEq, nodesEq⟩ := rewrite.map_written mounted isInode
  have dataHeld (blockId : Nat) (isData : blockId ∈ dataBlocks (view.extents inodeNum)) :
      blockId ∈ view.held .block := owning.held blockId (View.mem_owned.mpr (Or.inl isData))
  have treeHeld (blockId : Nat) (isTree : blockId ∈ view.tree inodeNum) :
      blockId ∈ view.held .block := owning.held blockId (View.mem_owned.mpr (Or.inr isTree))
  constructor
  · rw [View.owned, extentsEq, nodesEq, List.nodup_append]
    refine ⟨?_, ?_, ?_⟩
    · rw [blocks.nodup_iff, List.nodup_append]
      refine ⟨fresh.nodup, (List.nodup_append.mp owning.nodup).1, ?_⟩
      rintro blockId isNew other isData rfl
      exact fresh.free blockId isNew (dataHeld blockId isData)
    · rw [← rewrite.tree]
      exact nodup_treeBlocks _ _
    · rintro blockId isData other isNode rfl
      rw [blocks.mem_iff, List.mem_append] at isData
      rcases isData with isNew | isData
      · exact (rewrite.node_free isNode).2 isNew
      · exact (rewrite.node_free isNode).1 (dataHeld blockId isData)
  · intro blockId isOwned
    show blockId ∈ middle.held .block
    rw [rewrite.mem_held]
    rcases (rewrite.mem_owned mounted isInode blocks).mp isOwned with (isNew | isData) | isNode
    · exact ⟨Or.inl (Or.inr isNew), fun isTree =>
        fresh.free blockId isNew (treeHeld blockId isTree)⟩
    · exact ⟨Or.inl (Or.inl (dataHeld blockId isData)), fun isTree =>
        (List.nodup_append.mp owning.nodup).2.2 blockId isData blockId isTree rfl⟩
    · exact ⟨Or.inr isNode, fun isTree =>
        (rewrite.node_free isNode).1 (treeHeld blockId isTree)⟩
  · intro blockId isOwned
    rcases (rewrite.mem_owned mounted isInode blocks).mp isOwned with (isNew | isData) | isNode
    · exact mounted.not_reserved (fresh.free blockId isNew)
    · exact owning.outside blockId (View.mem_owned.mpr (Or.inl isData))
    · exact rewrite.node_outside mounted isNode

theorem Rewrite.fileStep :
    FileStep reserved inodeNum view (middle.putInode inodeNum changed) := by
  have sameFs := rewrite.sameFs
  have erased : (middle.putInode inodeNum changed).extentsCache =
      view.extentsCache.erase inodeNum := by
    show middle.extentsCache = _
    rw [rewrite.state]
    rfl
  constructor
  · exact sameFs
  · show middle.held .inode = _
    rw [rewrite.state]
    rfl
  · intro other isOther different
    rw [inode_putInode_of_ne (by rw [sameFs]; exact mounted.layout)
      (by rw [sameFs]; exact mounted.geometry) (by rw [sameFs]; exact isInode) changed
      (by rw [sameFs]; exact isOther) different, rewrite.inode_kept mounted fresh isOther]
  · intro blockId isHeld notOwned
    exact rewrite.mem_held.mpr ⟨Or.inl (Or.inl isHeld), fun isTree =>
      notOwned (View.mem_owned.mpr (Or.inr isTree))⟩
  · intro blockId isHeld _ outside
    rw [rewrite.data_outside mounted isInode outside, rewrite.data_kept fresh isHeld]
  · intro blockId isOwned
    rcases (rewrite.mem_owned mounted isInode blocks).mp isOwned with (isNew | isData) | isNode
    · exact Or.inr (fresh.free blockId isNew)
    · exact Or.inl (View.mem_owned.mpr (Or.inl isData))
    · exact Or.inr (rewrite.node_free isNode).1
  · exact rewrite.ownsBlocks mounted isInode blocks owning fresh
  · intro cached found
    rw [erased] at found
    simp at found
  · intro key different value found
    rw [erased, Std.TreeMap.getElem?_erase] at found
    split at found
    · cases found
    · exact found
  · intro key _ value found
    have kept : (middle.putInode inodeNum changed).dirIndexCache = view.dirIndexCache := by
      show middle.dirIndexCache = _
      rw [rewrite.state]
      rfl
    rwa [kept] at found

theorem Rewrite.exchanges : Exchanges inodeNum view (middle.putInode inodeNum changed) := by
  intro blockId
  have isHeldAfter := (rewrite.ownsBlocks mounted isInode blocks owning fresh).held blockId
  show blockId ∈ middle.held .block ↔ _
  constructor
  · intro isHeld
    rw [rewrite.mem_owned mounted isInode blocks]
    rcases rewrite.mem_held.mp isHeld with ⟨(isHeld | isNew) | isNode, notTree⟩
    · by_cases isData : blockId ∈ dataBlocks (view.extents inodeNum)
      · exact Or.inr (Or.inl (Or.inr isData))
      · exact Or.inl ⟨isHeld, fun isOwned => by
          rcases View.mem_owned.mp isOwned with isData' | isTree
          · exact isData isData'
          · exact notTree isTree⟩
    · exact Or.inr (Or.inl (Or.inl isNew))
    · exact Or.inr (Or.inr isNode)
  · rintro (⟨isHeld, notOwned⟩ | isOwned)
    · exact rewrite.mem_held.mpr ⟨Or.inl (Or.inl isHeld), fun isTree =>
        notOwned (View.mem_owned.mpr (Or.inr isTree))⟩
    · exact isHeldAfter isOwned

/-- Writing back a rewritten tree together with the inode. -/
theorem extended_of_rewrite
    (sameFields : ∀ name, name ≠ .iBlocksLo →
      inode.field name = (view.inode inodeNum).field name) :
    Extended reserved inodeNum view new extents (middle.putInode inodeNum changed) := by
  have inodeEq := rewrite.inode_written mounted isInode
  have usesExtents := usesExtents_of_flags rewrite.flags
  refine ⟨rewrite.fileStep mounted isInode blocks owning fresh,
    rewrite.exchanges mounted isInode blocks owning fresh,
    (rewrite.map_written mounted isInode).1, fun _ => by rw [inodeEq]; exact usesExtents,
    ?_, ?_, ?_⟩
  · intro name notFlags notBlocks
    rw [inodeEq, rewrite.fields name notFlags, sameFields name notBlocks]
  · intro blockId isNew
    rw [rewrite.data_outside mounted isInode (mounted.not_reserved (fresh.free blockId isNew)),
      rewrite.data_new isNew]
  · intro blockId isData
    have isOwned : blockId ∈ view.owned inodeNum := View.mem_owned.mpr (Or.inl isData)
    rw [rewrite.data_outside mounted isInode (owning.outside blockId isOwned),
      rewrite.data_kept fresh (owning.held blockId isOwned)]

end Rewritten

section Persisting

variable {reserved : Set Nat} {inodeNum : Nat} {view : View} (mounted : view.Mounted reserved)
  (isInode : view.fs.IsInode inodeNum) (owning : view.Owning reserved inodeNum)
  {new : List Nat} (fresh : view.Fresh new) {extents : List Ext4Extent}
  (blocks : (dataBlocks extents).Perm (new ++ dataBlocks (view.extents inodeNum)))

include mounted isInode owning fresh blocks

theorem view_persistExtents (coherent : view.Coherent inodeNum) {volume : Volume}
    (state : volume.view = view.zeroFresh new) :
    (∃ after, ((view.fs.handle inodeNum).persistExtents extents).run volume = .ok () after ∧
        extents.length ≤ extentTreeMaxEntries ∧
        Extended reserved inodeNum view new extents after.view) ∨
      (((view.fs.handle inodeNum).persistExtents extents).run volume =
          .err .unsupported volume ∧ extentTreeMaxEntries < extents.length) ∨
      ∃ after nodes, ((view.fs.handle inodeNum).persistExtents extents).run volume =
          .err .noSpace after ∧ extents.length ≤ extentTreeMaxEntries ∧
        RewriteFails volume.view after.view extents nodes := by
  obtain ⟨zeroStep, unchanged⟩ := view.zeroFresh_frame mounted isInode owning coherent fresh
  have volumeMounted : volume.view.Mounted reserved := by
    rw [state]
    exact mounted.zeroFresh new
  have volumeOwning : volume.view.Owning reserved inodeNum := by
    rw [state]
    exact unchanged.owning owning
  have sameInode : volume.view.inode inodeNum = view.inode inodeNum := by
    rw [state]
    exact unchanged.inode
  have sameFs : volume.view.fs = view.fs := by rw [state]; rfl
  have isVolume : volume.view.fs.IsInode inodeNum := by rw [sameFs]; exact isInode
  have read := view_readDiskInode volumeMounted.layout volumeMounted.geometry isVolume
  rw [sameInode, sameFs] at read
  have treeEq : treeBlocks volume.disk ((view.inode inodeNum).setIBlocksLo
      (min (extentsBlocksCount extents * Inode.sectorsPerBlock) u32Max)).blockData =
        view.tree inodeNum := by
    rw [Ext4Inode.blockData_setField, ← sameInode, (tree_of_owning volumeMounted volumeOwning).2,
      state]
    exact (View.extents_congr unchanged.inode fun blockId blockMem =>
      unchanged.data blockId (View.mem_owned.mpr (Or.inr blockMem))).2
  rw [Inode.persistExtents, run_bind_ok read]
  rcases @view_writeExtentsToInode volume volumeMounted.guarded inodeNum
      ((view.inode inodeNum).setIBlocksLo
        (min (extentsBlocksCount extents * Inode.sectorsPerBlock) u32Max)) extents
      (fun blockId blockMem => by
        rw [treeEq] at blockMem
        exact View.isItem_of_held (by
          rw [state]
          exact View.mem_held_zeroFresh.mpr (Or.inl
            (owning.held blockId (View.mem_owned.mpr (Or.inr blockMem)))))) with
    ⟨changed, middle, nodes, ran, supported, rewrite⟩ | ⟨ran, large⟩ |
    ⟨after, nodes, ran, supported, fails⟩
  · left
    rw [treeEq, state] at rewrite
    have middleFs : middle.view.fs = view.fs := by rw [rewrite.state]; rfl
    obtain ⟨after, wrote, afterView⟩ := @view_writeInode middle reserved
      (by rw [middleFs]; exact mounted.layout) (by rw [middleFs]; exact mounted.geometry)
      inodeNum (by rw [middleFs]; exact isInode) changed
    refine ⟨after, (run_bind_ok ran).trans wrote, supported, ?_⟩
    · rw [afterView]
      exact extended_of_rewrite rewrite mounted isInode blocks owning fresh
        fun name different => Ext4Inode.field_setField_of_ne _ _ different
  · right
    left
    exact ⟨run_bind_err ran, large⟩
  · right
    right
    exact ⟨after, nodes, run_bind_err ran, supported, fails⟩

end Persisting

theorem Extended.refl {reserved : Set Nat} {inodeNum : Nat} {view : View}
    (mounted : view.Mounted reserved) (isInode : view.fs.IsInode inodeNum)
    (owning : view.Owning reserved inodeNum) (coherent : view.Coherent inodeNum) :
    Extended reserved inodeNum view [] (view.extents inodeNum) view := by
  obtain ⟨step, _⟩ := @FileStep.of_frame reserved inodeNum view view mounted isInode owning
    coherent rfl rfl (fun _ isHeld => isHeld) (fun _ _ => rfl) rfl rfl
  exact ⟨step, Exchanges.of_same owning rfl rfl, rfl, id, fun _ _ _ => rfl, by simp,
    fun _ _ => rfl⟩

theorem Extended.cachePut {reserved : Set Nat} {inodeNum : Nat} {view : View} {new : List Nat}
    {extents : List Ext4Extent} {volume : Volume}
    (extended : Extended reserved inodeNum view new extents volume.view) :
    ∃ after, (extentsCachePut inodeNum extents).run volume = .ok () after ∧
      Extended reserved inodeNum view new extents after.view := by
  obtain ⟨after, ran, cache, afterView, shrinks, found⟩ :=
    view_extentsCachePut volume inodeNum extents
  refine ⟨after, ran, ?_⟩
  rw [afterView]
  refine ⟨extended.step.withCaches shrinks ?_, extended.exchanges, extended.extents,
    extended.usesExtents, extended.fields, extended.zero, extended.data⟩
  intro cached cachedFound
  rw [found, Option.some.injEq] at cachedFound
  rw [← cachedFound]
  exact extended.extents.symm

theorem treeSize_le {entries : Nat} (supported : entries ≤ extentTreeMaxEntries) :
    treeSize entries ≤ 1364 := by
  have bound : extentTreeMaxEntries = 462400 := rfl
  have leaves : needNodes entries ≤ 1360 := by
    simp only [needNodes, extentsPerNode, blockSz]
    omega
  have indexes : needNodes (needNodes entries) ≤ 4 := by
    simp only [needNodes, extentsPerNode, blockSz] at leaves ⊢
    omega
  unfold treeSize
  split
  · omega
  · split <;> omega

/-- Why the map could not be extended: the new map has too many extents, or
fewer than `count` blocks and the 1364 blocks of the largest tree are free. -/
def GrowthFails (view : View) (extents : List Ext4Extent) (count : Nat) (error : Ext4Error) :
    Prop :=
  (error = .unsupported ∧ ∃ result new, Grows extents new result ∧ new.length ≤ count ∧
      extentTreeMaxEntries < result.length) ∨
    (error = .noSpace ∧ ∃ taken : List Nat, taken.length < count + 1364 ∧
      ∀ item, view.IsItem .block item → item ∈ view.held .block ∨ item ∈ taken)

/-- The outcomes of extending a map by up to `count` blocks. -/
def GrowthOutcome (reserved : Set Nat) (inodeNum : Nat) (view : View) (count : Nat)
    (covered : List Ext4Extent → Prop) (outcome : Outcome Ext4Error Volume (List Ext4Extent)) :
    Prop :=
  (∃ result new after, outcome = .ok result after ∧ Grows (view.extents inodeNum) new result ∧
      view.Fresh new ∧ Extended reserved inodeNum view new result after.view ∧
      covered result) ∨
    ∃ error after, outcome = .err error after ∧
      GrowthFails view (view.extents inodeNum) count error ∧
      FileStep reserved inodeNum view after.view ∧ Unchanged view after.view inodeNum

/-- The logical block behind all extents, as `ensureBlocks` computes it. -/
def logicalEnd (extents : List Ext4Extent) : Nat :=
  (extents.map Ext4Extent.lend).foldl max 0

theorem le_foldl_max (values : List Nat) (start : Nat) :
    start ≤ values.foldl max start ∧ ∀ value ∈ values, value ≤ values.foldl max start := by
  induction values generalizing start with
  | nil => simp
  | cons first values ih =>
      obtain ⟨startLe, each⟩ := ih (max start first)
      rw [List.foldl_cons]
      refine ⟨by omega, ?_⟩
      intro value valueMem
      rcases List.mem_cons.mp valueMem with rfl | valueMem
      · omega
      · exact each value valueMem

theorem le_logicalEnd {extents : List Ext4Extent} (bounded : Bounded extents)
    {extent : Ext4Extent} (extentMem : extent ∈ extents) :
    extent.start + extent.len ≤ logicalEnd extents := by
  have lendLe := (le_foldl_max (extents.map Ext4Extent.lend) 0).2 extent.lend
    (List.mem_map_of_mem extentMem)
  have inside := bounded extent extentMem
  rw [Ext4Extent.lend, Nat.min_eq_left inside] at lendLe
  exact lendLe

section Growing

variable {reserved : Set Nat} {inodeNum : Nat} {volume : Volume}
  (mounted : volume.view.Mounted reserved) (isInode : volume.view.fs.IsInode inodeNum)
  (owning : volume.view.Owning reserved inodeNum) (coherent : volume.view.Coherent inodeNum)

include mounted isInode owning coherent

theorem growth_of_exhausted {covered : List Ext4Extent → Prop} {count : Nat} {new : List Nat}
    {after : Volume} (exhausted : Exhausted volume.view after.view new count) :
    GrowthOutcome reserved inodeNum volume.view count covered (.err .noSpace after) := by
  obtain ⟨step, unchanged⟩ := volume.view.zeroFresh_frame mounted isInode owning coherent
    exhausted.fresh
  refine Or.inr ⟨.noSpace, after, rfl, Or.inr ⟨rfl, new, ?_, exhausted.full⟩, ?_, ?_⟩
  · have few := exhausted.length
    omega
  · rw [exhausted.state]
    exact step
  · rw [exhausted.state]
    exact unchanged

/-- Writing back an extended map and caching it. -/
theorem growth_persist {covered : List Ext4Extent → Prop} {count : Nat} {new : List Nat}
    {extents : List Ext4Extent} {middle : Volume}
    (grows : Grows (volume.view.extents inodeNum) new extents) (fresh : volume.view.Fresh new)
    (few : new.length ≤ count) (state : middle.view = volume.view.zeroFresh new)
    (covers : covered extents) :
    GrowthOutcome reserved inodeNum volume.view count covered ((do
      (volume.view.fs.handle inodeNum).persistExtents extents
      extentsCachePut inodeNum extents
      return extents : Call (List Ext4Extent)).run middle) := by
  obtain ⟨zeroStep, zeroUnchanged⟩ := volume.view.zeroFresh_frame mounted isInode owning coherent
    fresh
  rcases view_persistExtents mounted isInode owning fresh grows.dataBlocks coherent state with
    ⟨between, ran, supported, extended⟩ | ⟨ran, large⟩ |
    ⟨after, nodes, ran, supported, fails⟩
  · left
    obtain ⟨after, put, afterExtended⟩ := extended.cachePut
    refine ⟨extents, new, after, ?_, grows, fresh, afterExtended, covers⟩
    rw [run_bind_ok ran, run_bind_ok put, run_pure]
  · right
    refine ⟨.unsupported, middle, run_bind_err ran,
      Or.inl ⟨rfl, extents, new, grows, few, large⟩, ?_, ?_⟩
    · rw [state]
      exact zeroStep
    · rw [state]
      exact zeroUnchanged
  · right
    have sizeLe := treeSize_le supported
    have nodesFew := fails.length
    rw [state] at fails
    have sameHeld : after.view.held = (volume.view.zeroFresh new).held := by rw [fails.state]
    obtain ⟨step, unchanged⟩ := @FileStep.of_frame reserved inodeNum volume.view after.view
      mounted isInode owning coherent (by rw [fails.state]; rfl) (by rw [sameHeld]; rfl)
      (fun blockId isHeld => by
        rw [sameHeld]
        exact View.mem_held_zeroFresh.mpr (Or.inl isHeld))
      (fun blockId isHeld => by
        rw [fails.frame blockId fun isNode => fails.fresh blockId isNode
          (View.mem_held_zeroFresh.mpr (Or.inl isHeld))]
        exact if_neg fun isNew => fresh.free blockId isNew isHeld)
      (by rw [fails.state]; rfl) (by rw [fails.state]; rfl)
    refine ⟨.noSpace, after, run_bind_err ran, Or.inr ⟨rfl, new ++ nodes, ?_, ?_⟩, step, unchanged⟩
    · rw [List.length_append]
      omega
    · intro item itemIs
      rw [List.mem_append]
      rcases fails.full item itemIs with isHeld | isNode
      · rcases View.mem_held_zeroFresh.mp isHeld with isHeld | isNew
        · exact Or.inl isHeld
        · exact Or.inr (Or.inl isNew)
      · exact Or.inr (Or.inr isNode)

theorem view_ensureWriteBlocks {startLblock endLblock : Nat} (startSmall : startLblock ≤ u32Max)
    (endSmall : endLblock ≤ u32Max) :
    GrowthOutcome reserved inodeNum volume.view (endLblock - startLblock)
      (fun result => ∀ l, startLblock ≤ l → l < endLblock → ∃ p, Maps result l p)
      (((volume.view.fs.handle inodeNum).ensureWriteBlocks startLblock endLblock).run volume) := by
  rw [Inode.ensureWriteBlocks, run_bind_ok (view_currentExtents mounted isInode owning coherent)]
  rcases @view_mapRange volume reserved mounted (endLblock - startLblock) startLblock (by omega)
      (volume.view.extents inodeNum) false with
    ⟨result, new, middle, ran, grows, fresh, few, same, covered, state⟩ |
    ⟨new, after, ran, exhausted⟩
  · have covers (l : Nat) (lower : startLblock ≤ l) (upper : l < endLblock) :
        ∃ p, Maps result l p := covered l lower (by omega)
    rw [run_bind_ok ran]
    cases new with
    | nil =>
        have extended := Extended.refl mounted isInode owning coherent
        rw [← same rfl, ← View.zeroFresh_nil volume.view, ← state] at extended
        obtain ⟨after, put, afterExtended⟩ := extended.cachePut
        rw [state, View.zeroFresh_nil] at afterExtended
        exact Or.inl ⟨result, [], after, run_bind_ok put, grows, fresh, afterExtended, covers⟩
    | cons block rest =>
        exact growth_persist mounted isInode owning coherent grows fresh few state covers
  · rw [run_bind_err ran]
    exact growth_of_exhausted mounted isInode owning coherent exhausted

end Growing

end Ext4

end OSWorkspace
