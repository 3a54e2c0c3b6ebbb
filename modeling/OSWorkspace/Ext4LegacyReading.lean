import OSWorkspace.Ext4FileReading

/-!
# Reading through legacy block pointers

An inode without an extent tree has twelve pointers to data blocks and three to
blocks of pointers, of one, two and three levels.  This file compares the reads
of `vfs.rs` with the blocks that this scheme assigns.
-/

namespace OSWorkspace

namespace Ext4

open Exec

/-- The pointer of the inode for a logical block, and the indices below it. -/
def pointerPath (lblock : Nat) : Nat × List Nat :=
  let single := lblock - 12
  let double := single - 1024
  let triple := double - 1024 ^ 2
  if lblock < 12 then (lblock, [])
  else if single < 1024 then (12, [single])
  else if double < 1024 ^ 2 then (13, [double / 1024, double % 1024])
  else (14, [triple / 1024 ^ 2, triple / 1024 % 1024, triple % 1024])

/-- The end of a path of pointers; 0 is a hole. -/
def followPath (disk : Nat → Block) : (blockId : Nat) → (path : List Nat) → Nat
  | blockId, [] => blockId
  | blockId, index :: path =>
      if blockId = 0 then 0 else followPath disk ((disk blockId).uint (index * 4) 4) path

/-- The physical block that the scheme assigns to a logical block; 0 is a hole. -/
def assignedBlock (disk : Nat → Block) (root : Bytes iBlockSize) (lblock : Nat) : Nat :=
  let (pointer, path) := pointerPath lblock
  followPath disk (root.uint (4 * pointer) 4) path

/-- The logical blocks that the scheme can address. -/
def legacyBlocks : Nat := 12 + 1024 + 1024 ^ 2 + 1024 ^ 3

/-- A byte of the file; holes are zero. -/
def assignedByte (disk : Nat → Block) (root : Bytes iBlockSize) (position : Nat) : UInt8 :=
  let pblock := assignedBlock disk root (position / blockSz)
  if pblock = 0 then 0 else (disk pblock).get (position % blockSz)

theorem followPointer_eq (disk : Nat → Block) (blockId : Nat) {index : Nat}
    (inside : index < 1024) :
    followPointer disk blockId index =
      some (if blockId = 0 then 0 else (disk blockId).uint (index * 4) 4) := by
  rw [followPointer]
  split
  · rfl
  · rw [readIndirectBlock, if_pos (by simp only [blockSz]; omega)]

theorem followPath_zero (disk : Nat → Block) (path : List Nat) : followPath disk 0 path = 0 := by
  cases path <;> rfl

theorem followPath_cons (disk : Nat → Block) (blockId index : Nat) (path : List Nat) :
    followPath disk blockId (index :: path) =
      followPath disk (if blockId = 0 then 0 else (disk blockId).uint (index * 4) 4) path := by
  rw [followPath]
  split
  · rw [followPath_zero]
  · rfl

/-- The code follows the scheme. -/
theorem getBlockNum_eq (disk : Nat → Block) (root : Bytes iBlockSize) {lblock : Nat}
    (addressable : lblock < legacyBlocks) :
    getBlockNum disk root lblock = some (assignedBlock disk root lblock) := by
  have pointers : ptrsPerBlock = 1024 := rfl
  simp only [legacyBlocks] at addressable
  simp only [getBlockNum, assignedBlock, pointerPath, pointers]
  by_cases direct : lblock < 12
  · simp only [direct, if_true]
    rfl
  · by_cases single : lblock - 12 < 1024
    · simp only [direct, single, if_true, if_false, followPath_cons]
      rw [followPointer_eq _ _ single]
      rfl
    · by_cases double : lblock - 12 - 1024 < 1024 * 1024
      · have double' : lblock - 12 - 1024 < 1024 ^ 2 := double
        simp only [direct, single, double, double', if_true, if_false, followPath_cons]
        rw [followPointer_eq _ _ (by omega), Option.bind_eq_bind, Option.bind_some,
          followPointer_eq _ _ (by omega)]
        rfl
      · have double' : ¬ lblock - 12 - 1024 < 1024 ^ 2 := double
        simp only [direct, single, double, double', if_false, followPath_cons]
        have top : (lblock - 12 - 1024 - 1024 * 1024) / (1024 * 1024) =
            (lblock - 12 - 1024 - 1024 ^ 2) / 1024 ^ 2 := rfl
        have middle : (lblock - 12 - 1024 - 1024 * 1024) % (1024 * 1024) / 1024 =
            (lblock - 12 - 1024 - 1024 ^ 2) / 1024 % 1024 := by omega
        have bottom : (lblock - 12 - 1024 - 1024 * 1024) % (1024 * 1024) % 1024 =
            (lblock - 12 - 1024 - 1024 ^ 2) % 1024 := by omega
        rw [top, middle, bottom, followPointer_eq _ _ (by omega), Option.bind_eq_bind,
          Option.bind_some, followPointer_eq _ _ (by omega), Option.bind_some,
          followPointer_eq _ _ (by omega)]
        rfl

/-- No byte of the range lies in a hole. -/
def NoHole (disk : Nat → Block) (root : Bytes iBlockSize) (offset count : Nat) : Prop :=
  ∀ index < count, assignedBlock disk root ((offset + index) / blockSz) ≠ 0

/-- A read stops at the first hole. -/
theorem readIndirect_outcome (disk : Nat → Block) (root : Bytes iBlockSize)
    {fuel offset remaining : Nat} (enough : remaining ≤ fuel)
    (addressable : offset + remaining ≤ legacyBlocks * blockSz) :
    (NoHole disk root offset remaining ∧ readIndirect disk root fuel offset remaining =
        some ((List.range remaining).map fun index => assignedByte disk root (offset + index))) ∨
      (¬ NoHole disk root offset remaining ∧
        ∃ bytes, readIndirect disk root fuel offset remaining = some bytes ∧
          bytes.length < remaining) := by
  induction fuel generalizing offset remaining with
  | zero =>
      obtain rfl : remaining = 0 := by omega
      exact Or.inl ⟨fun _ => nofun, rfl⟩
  | succ fuel ih =>
      rw [readIndirect]
      by_cases done : remaining = 0
      · subst done
        exact Or.inl ⟨fun _ => nofun, rfl⟩
      · have inside : offset / blockSz < legacyBlocks := by
          simp only [blockSz] at addressable ⊢
          omega
        rw [if_neg done, getBlockNum_eq disk root inside]
        cases assigned : assignedBlock disk root (offset / blockSz) with
        | zero =>
            refine Or.inr ⟨fun noHole => noHole 0 (by omega) assigned, [], rfl, ?_⟩
            exact Nat.pos_of_ne_zero done
        | succ pblock =>
            simp only
            generalize chunk : min remaining (blockSz - offset % blockSz) = toRead
            have chunkLe : toRead ≤ remaining ∧ 0 < toRead ∧
                offset % blockSz + toRead ≤ blockSz := by
              simp only [blockSz] at chunk ⊢
              omega
            have sameBlock {index : Nat} (less : index < toRead) :
                (offset + index) / blockSz = offset / blockSz ∧
                  (offset + index) % blockSz = offset % blockSz + index := by
              simp only [blockSz] at chunkLe ⊢
              omega
            have slice : (disk (pblock + 1)).slice (offset % blockSz) toRead =
                (List.range toRead).map fun index => assignedByte disk root (offset + index) := by
              rw [Bytes.slice]
              apply List.map_congr_left
              intro index isIndex
              obtain ⟨block, position⟩ := sameBlock (List.mem_range.mp isIndex)
              simp only [assignedByte, block, position, assigned, Nat.succ_ne_zero, if_false]
            have parts : remaining = toRead + (remaining - toRead) := by omega
            have holeIff : NoHole disk root offset remaining ↔
                NoHole disk root (offset + toRead) (remaining - toRead) := by
              constructor
              · intro noHole index less
                rw [Nat.add_assoc]
                exact noHole (toRead + index) (by omega)
              · intro noHole index less
                by_cases early : index < toRead
                · rw [(sameBlock early).1, assigned]
                  exact Nat.succ_ne_zero _
                · have later := noHole (index - toRead) (by omega)
                  rwa [show offset + toRead + (index - toRead) = offset + index by omega] at later
            rcases @ih (offset + toRead) (remaining - toRead) (by omega) (by omega) with
              ⟨noHole, rest⟩ | ⟨hole, bytes, rest, short⟩
            · refine Or.inl ⟨holeIff.mpr noHole, ?_⟩
              rw [rest, Option.map_some, slice, parts, List.range_add, List.map_append,
                List.map_map, Nat.add_sub_cancel_left]
              simp only [Function.comp_def, Nat.add_assoc]
            · refine Or.inr ⟨fun noHole => hole (holeIff.mp noHole), _,
                by rw [rest]; rfl, ?_⟩
              rw [List.length_append, Bytes.length_slice]
              omega

/-- A read returns the bytes of the scheme, up to the end of the file. -/
def ReadsAssigned (volume : Volume) (self : Inode) (offset : Nat) (buf : List UInt8) : Prop :=
  let inode := volume.inodeOf self
  let count := min buf.length (inode.size - offset)
  ∃ after, (self.readAt offset buf).run volume =
    .ok (count, ((List.range count).map fun index =>
      assignedByte volume.disk inode.blockData (offset + index)) ++ buf.drop count) after

theorem readsAssigned_iff_of_fits {volume : Volume} {self : Inode}
    (fits : self.blockOffset + inodeStructSize ≤ blockSz)
    (isFile : (volume.inodeOf self).isFile = true)
    (legacy : (volume.inodeOf self).usesExtents = false)
    (addressable : (volume.inodeOf self).size ≤ legacyBlocks * blockSz) (offset : Nat)
    (buf : List UInt8) :
    ReadsAssigned volume self offset buf ↔
      NoHole volume.disk (volume.inodeOf self).blockData offset
        (min buf.length ((volume.inodeOf self).size - offset)) := by
  have notSymlink := Ext4Inode.not_isSymlink_of_isFile isFile
  simp only [ReadsAssigned]
  generalize counted : min buf.length ((volume.inodeOf self).size - offset) = count
  rw [Inode.readAt, run_bind_ok (Inode.run_readDiskInode fits)]
  simp only [counted]
  by_cases nothing : offset ≥ (volume.inodeOf self).size ∨ count = 0
  · obtain rfl : count = 0 := by omega
    rw [if_pos nothing]
    exact iff_of_true ⟨volume, rfl⟩ fun _ below => absurd below (Nat.not_lt_zero _)
  · have inside : offset + count ≤ (volume.inodeOf self).size := by omega
    rw [if_neg nothing, if_neg (by simp [notSymlink]), if_neg (by simp [legacy]),
      run_bind_ok (run_get _)]
    rcases readIndirect_outcome volume.disk (volume.inodeOf self).blockData (Nat.le_refl count)
      (by omega : offset + count ≤ legacyBlocks * blockSz) with
      ⟨noHole, complete⟩ | ⟨hole, bytes, stopped, short⟩
    · refine iff_of_true ⟨volume, ?_⟩ noHole
      rw [complete, run_bind_ok (run_expect_some _ _)]
      simp only [List.length_map, List.length_range, Nat.sub_self, List.replicate_zero,
        List.append_nil]
      rfl
    · refine iff_of_false ?_ hole
      rintro ⟨after, ran⟩
      rw [stopped, run_bind_ok (run_expect_some _ _)] at ran
      simp only [run_pure] at ran
      have values := congrArg Prod.fst (Outcome.ok.inj ran).1
      simp only at values
      omega

/-- A block-mapped read is complete exactly when the inode structure lies inside
its block and the range meets no hole. -/
theorem readsAssigned_iff {volume : Volume} {self : Inode}
    (isFile : (volume.inodeOf self).isFile = true)
    (legacy : (volume.inodeOf self).usesExtents = false)
    (addressable : (volume.inodeOf self).size ≤ legacyBlocks * blockSz) (offset : Nat)
    (buf : List UInt8) :
    ReadsAssigned volume self offset buf ↔
      self.blockOffset + inodeStructSize ≤ blockSz ∧
        NoHole volume.disk (volume.inodeOf self).blockData offset
          (min buf.length ((volume.inodeOf self).size - offset)) := by
  by_cases fits : self.blockOffset + inodeStructSize ≤ blockSz
  · rw [readsAssigned_iff_of_fits fits isFile legacy addressable]
    simp only [fits, true_and]
  · simp only [fits, false_and, iff_false]
    rintro ⟨after, ran⟩
    rw [Inode.readAt, run_bind_panic (Inode.run_readDiskInode_panics fits)] at ran
    cases ran

/-- A volume whose inode 1 is a block-mapped file of 4097 bytes; its second
block is a hole. -/
def holeVolume : Volume where
  fs := smallFileSystem
  disk := Function.update (fun _ => .zeroed) 4
    (Bytes.zeroed.paste 0 (((Ext4Inode.setIMode .zeroed 0x8000).setSize 4097).setBlockData
      (Bytes.zeroed.write 0 [20])))
  extentsCache := .empty
  dirIndexCache := .empty

theorem readsAssigned_iff_hole :
    ReadsAssigned holeVolume ⟨1, 4, 0⟩ 0 [0, 0] ↔
      (0 + inodeStructSize ≤ blockSz ∧
        NoHole holeVolume.disk (holeVolume.inodeOf ⟨1, 4, 0⟩).blockData 0
          (min 2 ((holeVolume.inodeOf ⟨1, 4, 0⟩).size - 0))) :=
  readsAssigned_iff (by decide) (by decide) (by decide) 0 [0, 0]

theorem not_readsAssigned_hole :
    (holeVolume.inodeOf ⟨1, 4, 0⟩).isFile = true ∧
      (holeVolume.inodeOf ⟨1, 4, 0⟩).usesExtents = false ∧
      (holeVolume.inodeOf ⟨1, 4, 0⟩).size ≤ legacyBlocks * blockSz ∧
      ¬ ReadsAssigned holeVolume ⟨1, 4, 0⟩ 4096 [1] := by
  have isFile : (holeVolume.inodeOf ⟨1, 4, 0⟩).isFile = true := by decide
  have legacy : (holeVolume.inodeOf ⟨1, 4, 0⟩).usesExtents = false := by decide
  have addressable : (holeVolume.inodeOf ⟨1, 4, 0⟩).size ≤ legacyBlocks * blockSz := by
    decide
  refine ⟨isFile, legacy, addressable, ?_⟩
  rw [readsAssigned_iff_of_fits (by decide) isFile legacy addressable]
  intro noHole
  refine noHole 0 (by decide) ?_
  decide

end Ext4

end OSWorkspace
