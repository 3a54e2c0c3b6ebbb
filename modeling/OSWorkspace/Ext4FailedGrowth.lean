import OSWorkspace.Ext4FileContents

/-!
# When a map cannot be extended

Extending the map of an inode takes data blocks one by one and then rewrites
the extent tree.  Nothing is given back when a later step fails, so a failed
extension leaves the bitmap as it was exactly when it failed at the first
block.  This file says from the state before the call which case it is.
-/

namespace OSWorkspace

namespace Ext4

open Exec View

namespace View

variable {view : View}

theorem Fresh.sublist {blocks few : List Nat} (fresh : view.Fresh blocks)
    (sublist : few.Sublist blocks) : view.Fresh few :=
  ⟨fresh.nodup.sublist sublist, fun blockId blockMem => fresh.items blockId (sublist.mem blockMem),
    fun blockId blockMem => fresh.free blockId (sublist.mem blockMem)⟩

theorem HasFree.mono {count fewer : Nat} (room : view.HasFree count) (le : fewer ≤ count) :
    view.HasFree fewer := by
  obtain ⟨blocks, fresh, rfl⟩ := room
  exact ⟨blocks.take fewer, fresh.sublist (List.take_sublist _ _), by simpa using le⟩

/-- A list of all free blocks bounds their number. -/
theorem not_hasFree_of_full {taken : List Nat} {count : Nat} (few : taken.length < count)
    (full : ∀ item, view.IsItem .block item → item ∈ view.held .block ∨ item ∈ taken) :
    ¬ view.HasFree count := by
  rintro ⟨blocks, fresh, rfl⟩
  have subset : blocks ⊆ taken := by
    intro blockId blockMem
    exact (full blockId (fresh.items blockId blockMem)).resolve_left (fresh.free blockId blockMem)
  have lengthLe := (List.subperm_of_subset fresh.nodup subset).length_le
  omega

theorem fresh_append {new more : List Nat} (fresh : view.Fresh new)
    (rest : (view.zeroFresh new).Fresh more) : view.Fresh (new ++ more) := by
  have apart (blockId : Nat) (isMore : blockId ∈ more) :
      blockId ∉ view.held .block ∧ blockId ∉ new := by
    have free := rest.free blockId isMore
    rwa [mem_held_zeroFresh, not_or] at free
  refine ⟨?_, ?_, ?_⟩
  · refine List.nodup_append.mpr ⟨fresh.nodup, rest.nodup, ?_⟩
    rintro first isNew second isMore rfl
    exact (apart first isMore).2 isNew
  · intro blockId blockMem
    rcases List.mem_append.mp blockMem with isNew | isMore
    · exact fresh.items blockId isNew
    · exact rest.items blockId isMore
  · intro blockId blockMem
    rcases List.mem_append.mp blockMem with isNew | isMore
    · exact fresh.free blockId isNew
    · exact (apart blockId isMore).1

/-- Taking blocks lowers the number of free blocks by theirs. -/
theorem hasFree_zeroFresh {new : List Nat} (fresh : view.Fresh new) (count : Nat) :
    (view.zeroFresh new).HasFree count ↔ view.HasFree (new.length + count) := by
  constructor
  · rintro ⟨more, rest, rfl⟩
    exact ⟨new ++ more, fresh_append fresh rest, List.length_append⟩
  · rintro ⟨blocks, all, lengthEq⟩
    have others : (view.zeroFresh new).Fresh
        (blocks.filter fun blockId => !decide (blockId ∈ new)) := by
      refine ⟨all.nodup.filter _, ?_, ?_⟩
      · intro blockId blockMem
        exact all.items blockId (List.mem_filter.mp blockMem).1
      · intro blockId blockMem
        obtain ⟨isFree, notNew⟩ := List.mem_filter.mp blockMem
        rw [mem_held_zeroFresh, not_or]
        exact ⟨all.free blockId isFree, by simpa using notNew⟩
    have split := blocks.length_eq_length_filter_add fun blockId => decide (blockId ∈ new)
    have newLe : (blocks.filter fun blockId => decide (blockId ∈ new)).length ≤ new.length := by
      apply (List.subperm_of_subset (all.nodup.filter _) _).length_le
      intro blockId blockMem
      simpa using (List.mem_filter.mp blockMem).2
    exact HasFree.mono ⟨_, others, rfl⟩ (by omega)

end View

/-- Allocate and zero one block after the other, until there are enough or none
is left. -/
def handOut : Nat → Call (List Nat)
  | 0 => return []
  | count + 1 => do
      match ← allocBlock with
      | none => return []
      | some pblock => do
          writeBlock pblock .zeroed
          let rest ← handOut count
          return pblock :: rest

theorem view_handOut {volume : Volume} {reserved : Set Nat}
    (mounted : volume.view.Mounted reserved) (count : Nat) :
    ∃ new after, (handOut count).run volume = .ok new after ∧ volume.view.Fresh new ∧
      new.length ≤ count ∧ after.view = volume.view.zeroFresh new ∧
      (new.length < count → ∀ item, volume.view.IsItem .block item →
        item ∈ volume.view.held .block ∨ item ∈ new) := by
  induction count generalizing volume with
  | zero =>
      exact ⟨[], volume, rfl, fresh_nil _, Nat.le_refl _, (zeroFresh_nil _).symm,
        fun less => absurd less (by simp)⟩
  | succ count ih =>
      rcases view_allocZeroed mounted with ⟨ran, full⟩ |
        ⟨pblock, taken, ran, isItem, free, state⟩
      · refine ⟨[], volume, ?_, fresh_nil _, Nat.zero_le _, (zeroFresh_nil _).symm,
          fun _ item itemIs => Or.inl (full item itemIs)⟩
        rw [handOut, run_bind_ok ran]
        rfl
      · obtain ⟨new, after, rest, fresh, few, afterState, exhausted⟩ :=
          @ih (taken.putBlock pblock .zeroed) (by rw [state]; exact mounted.zeroFresh _)
        rw [state] at fresh afterState exhausted
        refine ⟨pblock :: new, after, ?_, fresh.cons isItem free, by simpa using few, ?_, ?_⟩
        · rw [handOut, run_bind_ok ran]
          simp only
          rw [run_bind_ok (run_writeBlock _ _ _), run_bind_ok rest, run_pure]
        · rw [afterState, zeroFresh_cons]
        · intro less item itemIs
          rcases exhausted (by simpa using less) item itemIs with isHeld | isNew
          · rw [mem_held_zeroFresh, List.mem_singleton] at isHeld
            rcases isHeld with isHeld | rfl
            · exact Or.inl isHeld
            · exact Or.inr List.mem_cons_self
          · exact Or.inr (List.mem_cons_of_mem _ isNew)

/-- The logical blocks of a range that are not mapped. -/
def unmappedBlocks (extents : List Ext4Extent) (lblock count : Nat) : List Nat :=
  (List.range' lblock count).filter fun l => (mapLogicalBlock extents l).isNone

/-- Map logical blocks to the given blocks, in order. -/
def growAll (grow : List Ext4Extent → Nat → Nat → List Ext4Extent) (extents : List Ext4Extent)
    (lblocks new : List Nat) : List Ext4Extent :=
  (lblocks.zip new).foldl (fun extents pair => grow extents pair.1 pair.2) extents

/-- Insert mappings for logical blocks, in order. -/
def insertAll (extents : List Ext4Extent) (lblocks new : List Nat) : List Ext4Extent :=
  growAll insertBlockMapping extents lblocks new

/-- A new mapping does not map later blocks of the range. -/
theorem unmappedBlocks_insert {extents : List Ext4Extent} {lblock pblock count : Nat}
    (small : lblock + 1 + count ≤ u32Max) (pblockSmall : pblock < 2 ^ 48)
    (unmapped : mapLogicalBlock extents lblock = none) :
    unmappedBlocks (insertBlockMapping extents lblock pblock) (lblock + 1) count =
      unmappedBlocks extents (lblock + 1) count := by
  have extended := extends_insertBlockMapping (by omega) pblockSmall unmapped
  apply List.filter_congr
  intro l lMem
  obtain ⟨lower, upper⟩ := List.mem_range'_1.mp lMem
  cases before : mapLogicalBlock extents l with
  | some p =>
      obtain ⟨other, found⟩ := exists_mapLogicalBlock (by omega)
        ((extended.maps l p).mpr (Or.inr (maps_of_mapLogicalBlock before)))
      rw [found]
      rfl
  | none =>
      rw [mapLogicalBlock_eq_none]
      intro p maps
      rcases (extended.maps l p).mp maps with ⟨same, _⟩ | isOld
      · omega
      · obtain ⟨other, found⟩ := exists_mapLogicalBlock (by omega) isOld
        rw [before] at found
        cases found

/-- The loop over a range, in terms of the blocks that are handed out. -/
theorem run_mapRange {volume : Volume} {reserved : Set Nat}
    (mounted : volume.view.Mounted reserved) (count : Nat) {lblock : Nat}
    (small : lblock + count ≤ u32Max) (extents : List Ext4Extent) (changed : Bool)
    {new : List Nat} {after : Volume}
    (handed : (handOut (unmappedBlocks extents lblock count).length).run volume =
      .ok new after) :
    (new.length = (unmappedBlocks extents lblock count).length ∧
      (mapRange count lblock extents changed).run volume =
        .ok (insertAll extents (unmappedBlocks extents lblock count) new,
          changed || !new.isEmpty) after ∧
      Grows extents new (insertAll extents (unmappedBlocks extents lblock count) new) ∧
      ∀ l, (∃ p, Maps (insertAll extents (unmappedBlocks extents lblock count) new) l p) ↔
        (∃ p, Maps extents l p) ∨ (lblock ≤ l ∧ l < lblock + count)) ∨
    (new.length ≠ (unmappedBlocks extents lblock count).length ∧
      (mapRange count lblock extents changed).run volume = .err .noSpace after) := by
  induction count generalizing volume lblock extents changed new after with
  | zero =>
      cases handed
      refine Or.inl ⟨rfl, by simp [mapRange, unmappedBlocks, insertAll, growAll],
        Grows.refl _, ?_⟩
      intro l
      simp only [unmappedBlocks, insertAll, growAll, List.range'_zero, List.filter_nil, List.zip_nil_left,
        List.foldl_nil, Nat.add_zero, iff_self_or]
      omega
  | succ count ih =>
      rw [mapRange]
      cases mapped : mapLogicalBlock extents lblock with
      | some pblock =>
          have same : unmappedBlocks extents lblock (count + 1) =
              unmappedBlocks extents (lblock + 1) count := by
            simp [unmappedBlocks, List.range'_succ, mapped]
          rw [same] at handed ⊢
          rcases ih mounted (by omega) extents changed handed with
            ⟨enough, ran, grows, covers⟩ | short
          · refine Or.inl ⟨enough, ran, grows, ?_⟩
            intro l
            rw [covers l]
            constructor
            · exact Or.imp_right fun inside => ⟨by omega, by omega⟩
            · rintro (isOld | ⟨lower, upper⟩)
              · exact Or.inl isOld
              · rcases Nat.eq_or_lt_of_le lower with rfl | lower
                · exact Or.inl ⟨pblock, maps_of_mapLogicalBlock mapped⟩
                · exact Or.inr ⟨lower, by omega⟩
          · exact Or.inr short
      | none =>
          have first : unmappedBlocks extents lblock (count + 1) =
              lblock :: unmappedBlocks extents (lblock + 1) count := by
            simp [unmappedBlocks, List.range'_succ, mapped]
          rw [first, List.length_cons] at handed ⊢
          rcases view_allocZeroed mounted with ⟨ran, full⟩ |
            ⟨pblock, taken, ran, isItem, free, state⟩
          · rw [handOut, run_bind_ok ran] at handed
            cases handed
            right
            refine ⟨by simp, ?_⟩
            simp only
            rw [run_bind_ok ran, run_bind_err (run_okOr_none _ _)]
          · rw [handOut, run_bind_ok ran] at handed
            simp only at handed
            rw [run_bind_ok (run_writeBlock _ _ _)] at handed
            obtain ⟨rest, between, restRan, ended⟩ := of_run_bind_ok handed
            cases ended
            have pblockSmall := (mounted.guarded.fresh isItem free).2.2
            have extended := extends_insertBlockMapping (by omega) pblockSmall mapped
            have unmapped (q : Nat) : ¬ Maps extents lblock q := by
              intro maps
              obtain ⟨other, found⟩ := exists_mapLogicalBlock (by omega) maps
              rw [mapped] at found
              cases found
            have sameRest := @unmappedBlocks_insert extents lblock pblock count (by omega)
              pblockSmall mapped
            simp only
            rw [run_bind_ok ran, run_bind_ok (run_okOr_some _ _ _),
              run_bind_ok (run_writeBlock _ _ _)]
            rcases @ih (taken.putBlock pblock .zeroed)
                (by rw [state]; exact mounted.zeroFresh _) (lblock + 1) (by omega)
                (insertBlockMapping extents lblock pblock) true rest after
                (by rw [sameRest]; exact restRan) with
              ⟨enough, later, grows, covers⟩ | ⟨short, later⟩
            · rw [sameRest] at enough later grows covers
              refine Or.inl ⟨by simpa using enough, by simpa [insertAll, growAll] using later,
                extended.grows unmapped grows, ?_⟩
              intro l
              have added : (∃ p, Maps (insertBlockMapping extents lblock pblock) l p) ↔
                  l = lblock ∨ ∃ p, Maps extents l p := by
                simp only [extended.maps, exists_or, exists_and_left, exists_eq, and_true]
              refine (covers l).trans ?_
              rw [added]
              constructor
              · rintro ((rfl | isOld) | ⟨lower, upper⟩)
                · exact Or.inr ⟨Nat.le_refl _, by omega⟩
                · exact Or.inl isOld
                · exact Or.inr ⟨by omega, by omega⟩
              · rintro (isOld | ⟨lower, upper⟩)
                · exact Or.inl (Or.inr isOld)
                · rcases Nat.eq_or_lt_of_le lower with rfl | lower
                  · exact Or.inl (Or.inl rfl)
                  · exact Or.inr ⟨lower, by omega⟩
            · rw [sameRest] at short
              exact Or.inr ⟨by simpa using short, later⟩

/-- The blocks that the allocator hands out in this state, at most `count`. -/
def handedOut (volume : Volume) (count : Nat) : List Nat :=
  match (handOut count).run volume with
  | .ok new _ => new
  | .err _ _ => []
  | .panic => []

theorem handedOut_eq {volume after : Volume} {count : Nat} {new : List Nat}
    (handed : (handOut count).run volume = .ok new after) : handedOut volume count = new := by
  rw [handedOut, handed]

/-- With all its blocks handed out, the extended map covers the range. -/
theorem covers_insertAll {volume : Volume} {reserved : Set Nat}
    (mounted : volume.view.Mounted reserved) {extents : List Ext4Extent} {lblock count : Nat}
    (small : lblock + count ≤ u32Max) {new : List Nat}
    (handedEq : handedOut volume (unmappedBlocks extents lblock count).length = new)
    (enough : new.length = (unmappedBlocks extents lblock count).length) (l : Nat) :
    (∃ p, Maps (insertAll extents (unmappedBlocks extents lblock count) new) l p) ↔
      (∃ p, Maps extents l p) ∨ (lblock ≤ l ∧ l < lblock + count) := by
  obtain ⟨other, after, handed, _⟩ := view_handOut mounted
    (unmappedBlocks extents lblock count).length
  rw [handedOut_eq handed] at handedEq
  subst handedEq
  rcases run_mapRange mounted count small extents false handed with ⟨_, _, _, covers⟩ | ⟨short, _⟩
  · exact covers l
  · exact absurd enough short

/-- There are free blocks for the new data blocks and for the tree of the new
map, which is not too large. -/
def RoomFor (volume : Volume) (result : List Ext4Extent) (count : Nat) : Prop :=
  result.length ≤ extentTreeMaxEntries ∧ volume.view.HasFree (count + treeSize result.length)

/-- Blocks were taken and lost: nothing else that was in use has changed. -/
structure Leaks (view after : View) (lost : List Nat) : Prop where
  fs : after.fs = view.fs
  held : after.held = (view.holdBlocks lost).held
  data : ∀ blockId ∈ view.held .block, after.data blockId = view.data blockId
  extentsCache : after.extentsCache = view.extentsCache
  dirIndexCache : after.dirIndexCache = view.dirIndexCache

theorem leaks_zeroFresh {view : View} {new : List Nat} (fresh : view.Fresh new) :
    Leaks view (view.zeroFresh new) new :=
  ⟨rfl, rfl, fun blockId isHeld => if_neg fun isNew => fresh.free blockId isNew isHeld, rfl, rfl⟩

theorem Leaks.mem_held {view after : View} {lost : List Nat} (leaks : Leaks view after lost)
    {blockId : Nat} :
    blockId ∈ after.held .block ↔ blockId ∈ view.held .block ∨ blockId ∈ lost := by
  rw [leaks.held]
  simp [View.holdBlocks]

theorem Leaks.heldInodes {view after : View} {lost : List Nat} (leaks : Leaks view after lost) :
    after.held .inode = view.held .inode := by
  rw [leaks.held]
  rfl

theorem Leaks.fileStep {reserved : Set Nat} {inodeNum : Nat} {view after : View}
    {lost : List Nat} (leaks : Leaks view after lost) (mounted : view.Mounted reserved)
    (isInode : view.fs.IsInode inodeNum) (owning : view.Owning reserved inodeNum)
    (coherent : view.Coherent inodeNum) :
    FileStep reserved inodeNum view after ∧ Unchanged view after inodeNum :=
  FileStep.of_frame mounted isInode owning coherent leaks.fs leaks.heldInodes
    (fun _ isHeld => leaks.mem_held.mpr (Or.inl isHeld)) leaks.data leaks.extentsCache
    leaks.dirIndexCache

theorem RewriteFails.leaks {view after : View} {extents : List Ext4Extent}
    {new nodes : List Nat} (fresh : view.Fresh new)
    (fails : RewriteFails (view.zeroFresh new) after extents nodes) : Leaks view after new := by
  refine ⟨by rw [fails.state]; rfl, by rw [fails.state]; rfl, ?_, by rw [fails.state]; rfl,
    by rw [fails.state]; rfl⟩
  intro blockId isHeld
  rw [fails.frame blockId fun isNode => fails.fresh blockId isNode
    (mem_held_zeroFresh.mpr (Or.inl isHeld))]
  exact if_neg fun isNew => fresh.free blockId isNew isHeld

/-- The outcomes of extending the map of an inode by `count` blocks to one that
`grown` computes from the blocks handed out. -/
def ExtensionOutcome (reserved : Set Nat) (inodeNum : Nat) (volume : Volume) (count : Nat)
    (grown : List Nat → List Ext4Extent) (outcome : Outcome Ext4Error Volume (List Ext4Extent)) :
    Prop :=
  (RoomFor volume (grown (handedOut volume count)) count ∧
    ∃ new after, handedOut volume count = new ∧ outcome = .ok (grown new) after ∧
      new.length = count ∧ Grows (volume.view.extents inodeNum) new (grown new) ∧
      volume.view.Fresh new ∧ Extended reserved inodeNum volume.view new (grown new) after.view) ∨
    (¬ RoomFor volume (grown (handedOut volume count)) count ∧
      ∃ error after, outcome = .err error after ∧
        Leaks volume.view after.view (handedOut volume count))

section Growing

variable {reserved : Set Nat} {inodeNum : Nat} {volume : Volume}
  (mounted : volume.view.Mounted reserved) (isInode : volume.view.fs.IsInode inodeNum)
  (owning : volume.view.Owning reserved inodeNum) (coherent : volume.view.Coherent inodeNum)

include mounted in
/-- Fewer blocks were handed out than asked for. -/
theorem extension_exhausted {count : Nat} {grown : List Nat → List Ext4Extent} {new : List Nat}
    {after : Volume} (handed : (handOut count).run volume = .ok new after)
    (short : new.length ≠ count) :
    ExtensionOutcome reserved inodeNum volume count grown (.err .noSpace after) := by
  obtain ⟨other, otherAfter, otherHanded, fresh, few, state, exhausted⟩ :=
    view_handOut mounted count
  rw [handed] at otherHanded
  cases otherHanded
  right
  rw [handedOut_eq handed]
  refine ⟨?_, .noSpace, after, rfl, by rw [state]; exact leaks_zeroFresh fresh⟩
  rintro ⟨_, room⟩
  have less : new.length < count := by omega
  exact not_hasFree_of_full less (exhausted less) (room.mono (by omega))

include mounted isInode

/-- Without room for its tree, a map is not written back, and no block of the
old tree is freed. -/
theorem persistExtents_noRoom {extents : List Ext4Extent}
    (noRoom : ¬ (extents.length ≤ extentTreeMaxEntries ∧
      volume.view.HasFree (treeSize extents.length))) :
    ∃ error after, ((volume.view.fs.handle inodeNum).persistExtents extents).run volume =
        .err error after ∧
      (after = volume ∨ ∃ nodes, RewriteFails volume.view after.view extents nodes) := by
  rw [Inode.persistExtents,
    run_bind_ok (view_readDiskInode mounted.layout mounted.geometry isInode)]
  rcases view_stageTree mounted.guarded inodeNum ((volume.view.inode inodeNum).setIBlocksLo
      (min (extentsBlocksCount extents * Inode.sectorsPerBlock) u32Max)) with
    ⟨changed, filled, nodes, _, supported, newTree⟩ | ⟨ran, _⟩ | ⟨after, nodes, ran, _, fails⟩
  · exact absurd ⟨supported, newTree.hasFree⟩ noRoom
  · exact ⟨_, volume, run_bind_err ran, Or.inl rfl⟩
  · exact ⟨_, after, run_bind_err ran, Or.inr ⟨nodes, fails⟩⟩

/-- Blocks were handed out, and the extended map is not written back. -/
theorem extension_fails {count : Nat} {extents : List Ext4Extent} {new : List Nat}
    {middle : Volume} (handed : (handOut count).run volume = .ok new middle)
    (enough : new.length = count) (noRoom : ¬ RoomFor volume extents count) :
    ∃ error after, (do
        (volume.view.fs.handle inodeNum).persistExtents extents
        extentsCachePut inodeNum extents
        return extents : Call (List Ext4Extent)).run middle = .err error after ∧
      Leaks volume.view after.view new := by
  obtain ⟨other, otherMiddle, otherHanded, fresh, _, state, _⟩ := view_handOut mounted count
  rw [handed] at otherHanded
  cases otherHanded
  have middleMounted : middle.view.Mounted reserved := by
    rw [state]
    exact mounted.zeroFresh new
  have middleFs : middle.view.fs = volume.view.fs := by rw [state]; rfl
  rw [RoomFor, ← enough, ← hasFree_zeroFresh fresh, ← state] at noRoom
  obtain ⟨error, after, ran, kept⟩ := @persistExtents_noRoom reserved inodeNum middle
    middleMounted (by rw [middleFs]; exact isInode) extents noRoom
  rw [middleFs] at ran
  refine ⟨error, after, run_bind_err ran, ?_⟩
  rcases kept with rfl | ⟨nodes, fails⟩
  · rw [state]
    exact leaks_zeroFresh fresh
  · rw [state] at fails
    exact fails.leaks fresh

/-- Whatever tree an inode has, a range without room for its blocks fails and
leaks them at most. -/
theorem ensureWriteBlocks_noRoom {extents : List Ext4Extent}
    (current : (volume.view.fs.handle inodeNum).currentExtents.run volume = .ok extents volume)
    {startLblock endLblock : Nat} (startSmall : startLblock ≤ u32Max) (endSmall : endLblock ≤ u32Max)
    (missing : unmappedBlocks extents startLblock (endLblock - startLblock) ≠ [])
    (noRoom : ¬ RoomFor volume
      (insertAll extents (unmappedBlocks extents startLblock (endLblock - startLblock))
        (handedOut volume (unmappedBlocks extents startLblock (endLblock - startLblock)).length))
      (unmappedBlocks extents startLblock (endLblock - startLblock)).length) :
    ∃ error after, ((volume.view.fs.handle inodeNum).ensureWriteBlocks startLblock endLblock).run
        volume = .err error after ∧
      Leaks volume.view after.view (handedOut volume
        (unmappedBlocks extents startLblock (endLblock - startLblock)).length) := by
  obtain ⟨new, after, handed, fresh, _, state, _⟩ := view_handOut mounted
    (unmappedBlocks extents startLblock (endLblock - startLblock)).length
  rw [handedOut_eq handed] at noRoom ⊢
  rw [Inode.ensureWriteBlocks, run_bind_ok current]
  rcases run_mapRange mounted (endLblock - startLblock) (by omega) extents false handed with
    ⟨enough, ran, _⟩ | ⟨_, ran⟩
  · rw [run_bind_ok ran]
    cases new with
    | nil => exact absurd (List.eq_nil_of_length_eq_zero enough.symm) missing
    | cons pblock rest => exact extension_fails mounted isInode handed enough noRoom
  · refine ⟨.noSpace, after, run_bind_err ran, ?_⟩
    rw [state]
    exact leaks_zeroFresh fresh

include owning coherent

/-- Writing back the extended map. -/
theorem extension_persist {count : Nat} {grown : List Nat → List Ext4Extent} {new : List Nat}
    {middle : Volume} (handed : (handOut count).run volume = .ok new middle)
    (enough : new.length = count)
    (grows : Grows (volume.view.extents inodeNum) new (grown new)) :
    ExtensionOutcome reserved inodeNum volume count grown ((do
      (volume.view.fs.handle inodeNum).persistExtents (grown new)
      extentsCachePut inodeNum (grown new)
      return grown new : Call (List Ext4Extent)).run middle) := by
  obtain ⟨other, otherMiddle, otherHanded, fresh, _, state, _⟩ := view_handOut mounted count
  rw [handed] at otherHanded
  cases otherHanded
  rw [ExtensionOutcome, handedOut_eq handed]
  by_cases room : RoomFor volume (grown new) count
  · left
    rcases view_persistExtents mounted isInode owning fresh grows.dataBlocks coherent state with
      ⟨between, ran, _, extended⟩ | ⟨_, large⟩ | ⟨_, nodes, _, _, fails⟩
    · obtain ⟨after, put, afterExtended⟩ := extended.cachePut
      refine ⟨room, new, after, rfl, ?_, enough, grows, fresh, afterExtended⟩
      rw [run_bind_ok ran, run_bind_ok put, run_pure]
    · exact absurd room.1 (Nat.not_le.mpr large)
    · have full := not_hasFree_of_full fails.length fails.full
      rw [state, hasFree_zeroFresh fresh, enough] at full
      exact absurd room.2 full
  · exact Or.inr ⟨room, extension_fails mounted isInode handed enough room⟩

/-- The logical blocks that a range of a write needs. -/
theorem ensureWriteBlocks_outcome {startLblock endLblock : Nat} (startSmall : startLblock ≤ u32Max)
    (endSmall : endLblock ≤ u32Max)
    (missing : unmappedBlocks (volume.view.extents inodeNum) startLblock
      (endLblock - startLblock) ≠ []) :
    ExtensionOutcome reserved inodeNum volume
      (unmappedBlocks (volume.view.extents inodeNum) startLblock (endLblock - startLblock)).length
      (insertAll (volume.view.extents inodeNum)
        (unmappedBlocks (volume.view.extents inodeNum) startLblock (endLblock - startLblock)))
      (((volume.view.fs.handle inodeNum).ensureWriteBlocks startLblock endLblock).run volume) := by
  obtain ⟨new, after, handed, _⟩ := view_handOut mounted
    (unmappedBlocks (volume.view.extents inodeNum) startLblock (endLblock - startLblock)).length
  rw [Inode.ensureWriteBlocks, run_bind_ok (view_currentExtents mounted isInode owning coherent)]
  rcases run_mapRange mounted (endLblock - startLblock) (by omega) (volume.view.extents inodeNum)
      false handed with ⟨enough, ran, grows, _⟩ | ⟨short, ran⟩
  · rw [run_bind_ok ran]
    cases new with
    | nil => exact absurd (List.eq_nil_of_length_eq_zero enough.symm) missing
    | cons pblock rest =>
        exact extension_persist mounted isInode owning coherent handed enough grows
  · rw [run_bind_err ran]
    exact extension_exhausted mounted handed short

end Growing

end Ext4

end OSWorkspace
