import OSWorkspace.Ext4ExtentTreeCodec

/-!
# The two traversals of an extent tree

The parser checks a child before it descends into it, the collector of the
blocks to free checks it after it was entered.  On every content of the inode
and of the device both visit the same blocks, each once, and at most as many as
a tree of the greatest depth has.
-/

namespace OSWorkspace

namespace Ext4

/-- The blocks that the parser visits, in order. -/
def parsedBlocks (disk : Nat → Block) (inodeBlock : Bytes iBlockSize) : List Nat :=
  let header := nodeHeader inodeBlock
  if ¬ header.isValid ∨ header.ehDepth.toNat > extentTreeMaxDepth then []
  else if header.ehDepth.toNat = 0 then []
  else (parseExtentTreeRecursive disk header.ehDepth.toNat inodeBlock extentsInInode ([], [])).2

/-- The nodes below and at a node of a depth, if every node is full. -/
def fullNodes : (depth : Nat) → Nat
  | 0 => 1
  | depth + 1 => 1 + extentsPerNode * fullNodes depth

/-- Folding over children adds at most as many blocks as each child adds. -/
theorem length_collect_foldl {disk : Nat → Block} {depth bound : Nat}
    (each : ∀ child found, (collectExtentTreeBlock disk depth child found).visitedBlocks.length ≤
      found.visitedBlocks.length + bound) (children : List Nat) (found : TreeBlocks) :
    (children.foldl (fun found child => collectExtentTreeBlock disk depth child found)
      found).visitedBlocks.length ≤ found.visitedBlocks.length + children.length * bound := by
  induction children generalizing found with
  | nil => simp
  | cons child children ih =>
      have first := each child found
      have rest := ih (collectExtentTreeBlock disk depth child found)
      rw [List.foldl_cons, List.length_cons, Nat.succ_mul]
      omega

theorem length_nodeChildren {size : Nat} (node : Bytes size) (maxEntries : Nat) :
    (nodeChildren node maxEntries).length ≤ maxEntries := by
  rw [nodeChildren, List.length_map, nodeIndexes, Bytes.length_loadTable]
  exact Nat.min_le_right _ _

theorem length_collect (disk : Nat → Block) {depth : Nat} (depthLe : depth ≤ extentTreeMaxDepth)
    (child : Nat) (found : TreeBlocks) :
    (collectExtentTreeBlock disk depth child found).visitedBlocks.length ≤
      found.visitedBlocks.length + fullNodes depth := by
  induction depth generalizing child found with
  | zero =>
      rw [collectExtentTreeBlock]
      split
      · exact Nat.le_add_right _ _
      · rw [List.length_append]
        exact Nat.le_refl _
  | succ depth ih =>
      by_cases skipped : child = 0 ∨ child ∈ found.visitedBlocks
      · rw [collect_skipped skipped]
        exact Nat.le_add_right _ _
      · by_cases valid : (nodeHeader (disk child)).isValid = true ∧
            (nodeHeader (disk child)).ehDepth.toNat = depth + 1
        · have children := length_nodeChildren (disk child) extentsPerNode
          have below := length_collect_foldl (fun child found => ih (by omega) child found)
            (nodeChildren (disk child) extentsPerNode)
            ⟨found.leaves, found.indexes ++ [child], found.visitedBlocks ++ [child]⟩
          have all := Nat.mul_le_mul_right (fullNodes depth) children
          rw [collect_valid skipped depthLe valid.1 valid.2, fullNodes]
          simp only [List.length_append, List.length_singleton] at below
          omega
        · rw [collect_broken skipped depthLe valid, fullNodes]
          simp only [List.length_append, List.length_singleton]
          omega

/-- Below a root of positive depth the parser visits what the collector finds. -/
theorem parsedBlocks_deep (disk : Nat → Block) {inodeBlock : Bytes iBlockSize} {depth : Nat}
    (valid : (nodeHeader inodeBlock).isValid = true)
    (depthEq : (nodeHeader inodeBlock).ehDepth.toNat = depth + 1)
    (depthLe : depth + 1 ≤ extentTreeMaxDepth) :
    parsedBlocks disk inodeBlock = (rootBlocks disk inodeBlock depth).visitedBlocks := by
  have notBroken : ¬ (¬ (nodeHeader inodeBlock).isValid = true ∨
      (nodeHeader inodeBlock).ehDepth.toNat > extentTreeMaxDepth) := by
    rintro (broken | deep)
    · exact broken valid
    · omega
  have visited := parseChild_foldl_visited (parseChild_visited disk depth (by omega))
    (nodeChildren inodeBlock extentsInInode) [] ⟨[], [], []⟩
  rw [parsedBlocks, if_neg notBroken, if_neg (by omega), depthEq,
    parseExtentTreeRecursive_succ disk _ _ _ depthEq depthLe]
  exact visited

/-- A root that has no nodes below it. -/
theorem parsedBlocks_flat (disk : Nat → Block) {inodeBlock : Bytes iBlockSize}
    (flat : ¬ ∃ depth, (nodeHeader inodeBlock).isValid = true ∧
      (nodeHeader inodeBlock).ehDepth.toNat = depth + 1 ∧ depth + 1 ≤ extentTreeMaxDepth) :
    parsedBlocks disk inodeBlock = [] ∧ extentTreeBlocks disk inodeBlock = ([], []) := by
  by_cases valid : (nodeHeader inodeBlock).isValid = true
  · by_cases leaf : (nodeHeader inodeBlock).ehDepth.toNat = 0
    · exact ⟨by simp [parsedBlocks, leaf], (tree_flat valid leaf disk).2⟩
    · have deep : (nodeHeader inodeBlock).ehDepth.toNat > extentTreeMaxDepth := by
        by_contra shallow
        exact flat ⟨(nodeHeader inodeBlock).ehDepth.toNat - 1, valid, by omega, by omega⟩
      exact ⟨by simp [parsedBlocks, deep], by simp [extentTreeBlocks, deep]⟩
  · exact ⟨by simp [parsedBlocks, valid], by simp [extentTreeBlocks, valid]⟩

/-- On every tree the parser and the collector visit the same blocks, each once,
and no more than a full tree has. -/
theorem extentTree_traversals (disk : Nat → Block) (inodeBlock : Bytes iBlockSize) :
    (∀ block, block ∈ parsedBlocks disk inodeBlock ↔
      block ∈ (extentTreeBlocks disk inodeBlock).1 ∨
        block ∈ (extentTreeBlocks disk inodeBlock).2) ∧
      ((extentTreeBlocks disk inodeBlock).1 ++ (extentTreeBlocks disk inodeBlock).2).Nodup ∧
      (parsedBlocks disk inodeBlock).Nodup ∧
      (parsedBlocks disk inodeBlock).length ≤
        extentsInInode * fullNodes (extentTreeMaxDepth - 1) := by
  by_cases deep : ∃ depth, (nodeHeader inodeBlock).isValid = true ∧
      (nodeHeader inodeBlock).ehDepth.toNat = depth + 1 ∧ depth + 1 ≤ extentTreeMaxDepth
  · obtain ⟨depth, valid, depthEq, depthLe⟩ := deep
    have accounted := accounted_rootBlocks disk inodeBlock depth
    rw [parsedBlocks_deep disk valid depthEq depthLe,
      extentTreeBlocks_deep disk valid depthEq depthLe]
    refine ⟨fun block => ?_, accounted.perm.nodup_iff.mpr accounted.nodup, accounted.nodup, ?_⟩
    · rw [← accounted.perm.mem_iff, List.mem_append]
    · have children := length_nodeChildren inodeBlock extentsInInode
      have below := length_collect_foldl (length_collect disk (Nat.le_of_succ_le depthLe))
        (nodeChildren inodeBlock extentsInInode) ⟨[], [], []⟩
      have mono : fullNodes depth ≤ fullNodes (extentTreeMaxDepth - 1) := by
        have depthLt : depth < 5 := depthLe
        interval_cases depth <;> decide
      have all := Nat.mul_le_mul children mono
      rw [rootBlocks]
      simp only [List.length_nil, Nat.zero_add] at below
      exact below.trans all
  · obtain ⟨noParsed, noCollected⟩ := parsedBlocks_flat disk deep
    rw [noParsed, noCollected]
    simp

end Ext4

end OSWorkspace
