import OSWorkspace.Ext4ExtentTree

/-!
# Reading extent trees

Both traversals of an extent tree, the one that collects the extents and the
one that collects the blocks, visit the same blocks.  Hence a tree depends only
on its own blocks, and on a tree with distinct blocks they return exactly what
was stored.
-/

namespace OSWorkspace

namespace Ext4

section Nodes

variable {size : Nat} {α : Type}

theorem Bytes.loadTable_take (record : Record α) (buffer : Bytes size) {offset count total : Nat}
    (countLe : count ≤ total) :
    buffer.loadTable record offset count = (buffer.loadTable record offset total).take count := by
  simp only [Bytes.loadTable, ← List.map_take, List.take_range, Nat.min_eq_left countLe]

theorem nodeHeader_storeNode (record : Record α) (node : Bytes size) (fits : 12 ≤ size)
    (entries maxEntries depth : Nat) (values : List α) :
    nodeHeader (storeNode record node entries maxEntries depth values) =
      { ehMagic := Ext4ExtentHeader.magic, ehEntries := UInt16.ofNat entries,
        ehMax := UInt16.ofNat maxEntries, ehDepth := UInt16.ofNat depth,
        ehGeneration := 0 } := by
  rw [nodeHeader, storeNode, Bytes.load_storeTable_outside record Ext4ExtentHeader.record _ _
    (Or.inl (Nat.le_refl 12)), Bytes.load_store Ext4ExtentHeader.record _ _ fits]

theorem loadTable_storeNode (record : Record α) (node : Bytes size)
    {entries maxEntries depth count : Nat} {values : List α}
    (fits : 12 + values.length * record.width ≤ size) (countLe : count ≤ values.length) :
    (storeNode record node entries maxEntries depth values).loadTable record 12 count =
      values.take count := by
  rw [Bytes.loadTable_take record _ countLe, storeNode,
    Bytes.loadTable_storeTable record _ _ _ fits]

end Nodes

/-- The block is a leaf with these extents. -/
structure IsLeaf (block : Block) (extents : List Ext4Extent) : Prop where
  valid : (nodeHeader block).isValid = true
  depth : (nodeHeader block).ehDepth.toNat = 0
  entries : nodeExtents block extentsPerNode = extents

/-- The block is an index node of depth one over these children. -/
structure IsIndex (block : Block) (children : List Nat) : Prop where
  valid : (nodeHeader block).isValid = true
  depth : (nodeHeader block).ehDepth.toNat = 1
  entries : (nodeIndexes block extentsPerNode).map Ext4ExtentIdx.leafBlock = children

theorem isLeaf_storeNode {extents : List Ext4Extent} (few : extents.length ≤ extentsPerNode) :
    IsLeaf (storeNode Ext4Extent.record .zeroed extents.length extentsPerNode 0 extents)
      extents := by
  have bound : extents.length ≤ 340 := few
  have header := nodeHeader_storeNode Ext4Extent.record (.zeroed : Block) (by decide)
    extents.length extentsPerNode 0 extents
  have count : (UInt16.ofNat extents.length).toNat = extents.length := by
    rw [UInt16.toNat_ofNat']
    exact Nat.mod_eq_of_lt (by omega)
  constructor
  · rw [header]
    rfl
  · rw [header]
    rfl
  · rw [nodeExtents, header, count, Nat.min_eq_left few, loadTable_storeNode _ _ _ (Nat.le_refl _),
      List.take_length]
    simp only [Ext4Extent.record, blockSz]
    omega

theorem leafBlock_childEntry (extents : List Ext4Extent) (start : Nat) {child : Nat}
    (childLt : child < 2 ^ 48) : (childEntry extents start child).leafBlock = child := by
  simp only [Ext4ExtentIdx.leafBlock, childEntry, UInt16.toNat_ofNat', UInt32.toNat_ofNat']
  omega

theorem map_leafBlock_mapIdx (extents : List Ext4Extent) (start : Nat → Nat)
    {children : List Nat} (small : ∀ child ∈ children, child < 2 ^ 48) :
    (children.mapIdx fun position child => childEntry extents (start position) child).map
      Ext4ExtentIdx.leafBlock = children := by
  apply List.ext_getElem
  · simp
  · intro index indexLt childLt
    simp only [List.getElem_map, List.getElem_mapIdx]
    exact leafBlock_childEntry _ _ (small _ (List.getElem_mem childLt))

theorem isIndex_storeNode {entries : List Ext4ExtentIdx} (few : entries.length ≤ extentsPerNode) :
    IsIndex (storeNode Ext4ExtentIdx.record .zeroed entries.length extentsPerNode 1 entries)
      (entries.map Ext4ExtentIdx.leafBlock) := by
  have bound : entries.length ≤ 340 := few
  have header := nodeHeader_storeNode Ext4ExtentIdx.record (.zeroed : Block) (by decide)
    entries.length extentsPerNode 1 entries
  have count : (UInt16.ofNat entries.length).toNat = entries.length := by
    rw [UInt16.toNat_ofNat']
    exact Nat.mod_eq_of_lt (by omega)
  constructor
  · rw [header]
    rfl
  · rw [header]
    rfl
  · rw [nodeIndexes, header, count, Nat.min_eq_left few, loadTable_storeNode _ _ _ (Nat.le_refl _),
      List.take_length]
    simp only [Ext4ExtentIdx.record, blockSz]
    omega

/-- One child of the parser. -/
def parseChild (disk : Nat → Block) (depth : Nat) (found : List Ext4Extent × List Nat)
    (childBlock : Nat) : List Ext4Extent × List Nat :=
  if childBlock = 0 ∨ childBlock ∈ found.2 then found
  else if (nodeHeader (disk childBlock)).isValid ∧
      (nodeHeader (disk childBlock)).ehDepth.toNat = depth then
    parseExtentTreeRecursive disk depth (disk childBlock) extentsPerNode
      (found.1, found.2 ++ [childBlock])
  else (found.1, found.2 ++ [childBlock])

def nodeChildren {size : Nat} (node : Bytes size) (maxEntries : Nat) : List Nat :=
  (nodeIndexes node maxEntries).map Ext4ExtentIdx.leafBlock

theorem parseExtentTreeRecursive_succ (disk : Nat → Block) {depth size : Nat}
    (node : Bytes size) (maxEntries : Nat) (found : List Ext4Extent × List Nat)
    (depthEq : (nodeHeader node).ehDepth.toNat = depth + 1)
    (depthLe : depth + 1 ≤ extentTreeMaxDepth) :
    parseExtentTreeRecursive disk (depth + 1) node maxEntries found =
      (nodeChildren node maxEntries).foldl (parseChild disk depth) found := by
  rw [parseExtentTreeRecursive, if_neg (by omega), nodeChildren, List.foldl_map]
  rfl

/-- The blocks found are the visited ones, each once. -/
structure TreeBlocks.Accounted (found : TreeBlocks) : Prop where
  perm : (found.leaves ++ found.indexes).Perm found.visitedBlocks
  nodup : found.visitedBlocks.Nodup
  nonzero : 0 ∉ found.visitedBlocks

/-- A property that every step keeps holds after folding over a list. -/
theorem foldl_keeps {β γ : Type} {motive : γ → Prop} {step : γ → β → γ}
    (keeps : ∀ state value, motive state → motive (step state value)) (values : List β)
    {state : γ} (start : motive state) : motive (values.foldl step state) := by
  induction values generalizing state with
  | nil => exact start
  | cons value values ih => exact ih (keeps state value start)

theorem TreeBlocks.Accounted.visit_leaf {found : TreeBlocks} (accounted : found.Accounted) {pblock : Nat}
    (nonzero : pblock ≠ 0) (fresh : pblock ∉ found.visitedBlocks) :
    TreeBlocks.Accounted { found with
      leaves := found.leaves ++ [pblock]
      visitedBlocks := found.visitedBlocks ++ [pblock] } where
  perm := by
    have moved : (found.leaves ++ [pblock] ++ found.indexes).Perm
        (found.leaves ++ found.indexes ++ [pblock]) := by
      rw [List.append_assoc, List.append_assoc]
      exact List.Perm.append_left _ List.perm_append_comm
    exact moved.trans (accounted.perm.append_right _)
  nodup := by
    rw [List.nodup_append]
    exact ⟨accounted.nodup, by simp, by
      rintro first firstMem second secondMem rfl
      simp only [List.mem_singleton] at secondMem
      exact fresh (secondMem ▸ firstMem)⟩
  nonzero := by
    simp only [List.mem_append, List.mem_singleton, not_or]
    exact ⟨accounted.nonzero, fun equal => nonzero equal.symm⟩

theorem TreeBlocks.Accounted.visit_index {found : TreeBlocks} (accounted : found.Accounted) {pblock : Nat}
    (nonzero : pblock ≠ 0) (fresh : pblock ∉ found.visitedBlocks) :
    TreeBlocks.Accounted { found with
      indexes := found.indexes ++ [pblock]
      visitedBlocks := found.visitedBlocks ++ [pblock] } where
  perm := by
    rw [← List.append_assoc]
    exact accounted.perm.append_right _
  nodup := (accounted.visit_leaf nonzero fresh).nodup
  nonzero := (accounted.visit_leaf nonzero fresh).nonzero

theorem accounted_collect (disk : Nat → Block) (depth pblock : Nat) {found : TreeBlocks}
    (accounted : found.Accounted) :
    (collectExtentTreeBlock disk depth pblock found).Accounted := by
  induction depth generalizing pblock found with
  | zero =>
      simp only [collectExtentTreeBlock]
      split
      · exact accounted
      · next fresh =>
          rw [not_or] at fresh
          exact accounted.visit_leaf fresh.1 fresh.2
  | succ depth ih =>
      simp only [collectExtentTreeBlock]
      split
      · exact accounted
      · next fresh =>
          rw [not_or, not_or] at fresh
          have visited := accounted.visit_index fresh.1 fresh.2.2
          split
          · exact visited
          · exact foldl_keeps (fun state child keeps => ih child keeps) _ visited

theorem visited_collect (disk : Nat → Block) (depth pblock : Nat) (found : TreeBlocks) :
    found.visitedBlocks ⊆ (collectExtentTreeBlock disk depth pblock found).visitedBlocks := by
  induction depth generalizing pblock found with
  | zero =>
      simp only [collectExtentTreeBlock]
      split
      · exact fun _ member => member
      · exact List.subset_append_left _ _
  | succ depth ih =>
      simp only [collectExtentTreeBlock]
      split
      · exact fun _ member => member
      · split
        · exact List.subset_append_left _ _
        · refine foldl_keeps (motive := fun state => found.visitedBlocks ⊆ state.visitedBlocks)
            (fun state child keeps => List.Subset.trans keeps (ih child state)) _ ?_
          exact List.subset_append_left _ _

theorem visited_collect_foldl (disk : Nat → Block) (depth : Nat) (children : List Nat)
    (found : TreeBlocks) :
    found.visitedBlocks ⊆ (children.foldl
      (fun found child => collectExtentTreeBlock disk depth child found) found).visitedBlocks :=
  foldl_keeps (motive := fun state => found.visitedBlocks ⊆ state.visitedBlocks)
    (fun state child keeps => List.Subset.trans keeps (visited_collect disk depth child state)) _
    (List.Subset.refl _)

theorem collect_foldl_congr {disk other : Nat → Block} {depth : Nat}
    (each : ∀ child found, (∀ block ∈ (collectExtentTreeBlock disk depth child
      found).visitedBlocks, other block = disk block) →
        collectExtentTreeBlock other depth child found =
          collectExtentTreeBlock disk depth child found)
    (children : List Nat) (found : TreeBlocks)
    (agree : ∀ block ∈ (children.foldl (fun found child =>
      collectExtentTreeBlock disk depth child found) found).visitedBlocks,
        other block = disk block) :
    children.foldl (fun found child => collectExtentTreeBlock other depth child found) found =
      children.foldl (fun found child => collectExtentTreeBlock disk depth child found) found := by
  induction children generalizing found with
  | nil => rfl
  | cons child children ih =>
      simp only [List.foldl_cons] at agree ⊢
      rw [each child found fun block blockMem =>
        agree block (visited_collect_foldl disk depth children _ blockMem)]
      exact ih _ agree

/-- Collecting the blocks of a tree reads only those blocks. -/
theorem collect_congr {disk other : Nat → Block} (depth pblock : Nat) (found : TreeBlocks)
    (agree : ∀ block ∈ (collectExtentTreeBlock disk depth pblock found).visitedBlocks,
      other block = disk block) :
    collectExtentTreeBlock other depth pblock found =
      collectExtentTreeBlock disk depth pblock found := by
  induction depth generalizing pblock found with
  | zero => rfl
  | succ depth ih =>
      by_cases skipped : pblock = 0 ∨ depth + 1 > extentTreeMaxDepth ∨
          pblock ∈ found.visitedBlocks
      · simp only [collectExtentTreeBlock, if_pos skipped]
      · by_cases broken : ¬ (nodeHeader (disk pblock)).isValid ∨
            (nodeHeader (disk pblock)).ehDepth.toNat ≠ depth + 1
        · have same : other pblock = disk pblock := by
            apply agree
            simp only [collectExtentTreeBlock, if_neg skipped, if_pos broken]
            simp
          simp only [collectExtentTreeBlock, if_neg skipped, same, if_pos broken]
        · simp only [collectExtentTreeBlock, if_neg skipped, if_neg broken] at agree
          have same : other pblock = disk pblock := by
            apply agree
            exact visited_collect_foldl disk depth _ _ (by simp)
          simp only [collectExtentTreeBlock, if_neg skipped, same, if_neg broken]
          exact collect_foldl_congr (fun child found => ih child found) _ _ agree

theorem visited_parse (disk : Nat → Block) (depth : Nat) {size : Nat} (node : Bytes size)
    (maxEntries : Nat) (found : List Ext4Extent × List Nat) :
    found.2 ⊆ (parseExtentTreeRecursive disk depth node maxEntries found).2 := by
  induction depth generalizing size node maxEntries found with
  | zero =>
      simp only [parseExtentTreeRecursive]
      split <;> exact List.Subset.refl _
  | succ depth ih =>
      by_cases broken : (nodeHeader node).ehDepth.toNat ≠ depth + 1 ∨
          depth + 1 > extentTreeMaxDepth
      · rw [parseExtentTreeRecursive, if_pos broken]
        exact List.Subset.refl _
      · rw [not_or, not_not, Nat.not_lt] at broken
        rw [parseExtentTreeRecursive_succ disk node maxEntries found broken.1 broken.2]
        refine foldl_keeps (motive := fun state : List Ext4Extent × List Nat =>
          found.2 ⊆ state.2) ?_ _ (List.Subset.refl _)
        intro state child keeps
        unfold parseChild
        split
        · exact keeps
        · split
          · refine List.Subset.trans (List.Subset.trans keeps ?_) (ih _ _ _)
            exact List.subset_append_left _ _
          · exact List.Subset.trans keeps (List.subset_append_left _ _)

theorem visited_parseChild (disk : Nat → Block) (depth : Nat)
    (found : List Ext4Extent × List Nat) (child : Nat) :
    found.2 ⊆ (parseChild disk depth found child).2 := by
  unfold parseChild
  split
  · exact List.Subset.refl _
  · split
    · refine List.Subset.trans ?_ (visited_parse _ _ _ _ _)
      exact List.subset_append_left _ _
    · exact List.subset_append_left _ _

theorem visited_parseChild_foldl (disk : Nat → Block) (depth : Nat) (children : List Nat)
    (found : List Ext4Extent × List Nat) :
    found.2 ⊆ (children.foldl (parseChild disk depth) found).2 :=
  foldl_keeps (motive := fun state : List Ext4Extent × List Nat => found.2 ⊆ state.2)
    (fun state child keeps => List.Subset.trans keeps (visited_parseChild disk depth state child))
    _ (List.Subset.refl _)

theorem parseChild_skipped {disk : Nat → Block} {depth child : Nat}
    {found : List Ext4Extent × List Nat} (skipped : child = 0 ∨ child ∈ found.2) :
    parseChild disk depth found child = found := by
  rw [parseChild, if_pos skipped]

theorem parseChild_broken {disk : Nat → Block} {depth child : Nat}
    {found : List Ext4Extent × List Nat} (fresh : ¬ (child = 0 ∨ child ∈ found.2))
    (broken : ¬ ((nodeHeader (disk child)).isValid = true ∧
      (nodeHeader (disk child)).ehDepth.toNat = depth)) :
    parseChild disk depth found child = (found.1, found.2 ++ [child]) := by
  rw [parseChild, if_neg fresh, if_neg broken]

theorem parseChild_valid {disk : Nat → Block} {depth child : Nat}
    {found : List Ext4Extent × List Nat} (fresh : ¬ (child = 0 ∨ child ∈ found.2))
    (valid : (nodeHeader (disk child)).isValid = true)
    (depthEq : (nodeHeader (disk child)).ehDepth.toNat = depth) :
    parseChild disk depth found child =
      parseExtentTreeRecursive disk depth (disk child) extentsPerNode
        (found.1, found.2 ++ [child]) := by
  rw [parseChild, if_neg fresh, if_pos ⟨valid, depthEq⟩]

theorem parseChild_congr {disk other : Nat → Block} {depth : Nat}
    (each : ∀ (node : Block) found,
      (∀ block ∈ (parseExtentTreeRecursive disk depth node extentsPerNode found).2,
        other block = disk block) →
          parseExtentTreeRecursive other depth node extentsPerNode found =
            parseExtentTreeRecursive disk depth node extentsPerNode found)
    (found : List Ext4Extent × List Nat) (child : Nat)
    (agree : ∀ block ∈ (parseChild disk depth found child).2, other block = disk block) :
    parseChild other depth found child = parseChild disk depth found child := by
  by_cases skipped : child = 0 ∨ child ∈ found.2
  · rw [parseChild_skipped skipped, parseChild_skipped skipped]
  · by_cases valid : (nodeHeader (disk child)).isValid = true ∧
        (nodeHeader (disk child)).ehDepth.toNat = depth
    · rw [parseChild_valid skipped valid.1 valid.2] at agree ⊢
      have same : other child = disk child :=
        agree child (visited_parse _ _ _ _ _ (by simp))
      rw [parseChild_valid skipped (same ▸ valid.1) (same ▸ valid.2), same]
      exact each _ _ agree
    · rw [parseChild_broken skipped valid] at agree ⊢
      have same : other child = disk child := agree child (by simp)
      rw [parseChild_broken skipped (same ▸ valid)]

/-- Parsing a tree reads only the blocks that it visits. -/
theorem parseChild_foldl_congr {disk other : Nat → Block} {depth : Nat}
    (each : ∀ found child,
      (∀ block ∈ (parseChild disk depth found child).2, other block = disk block) →
        parseChild other depth found child = parseChild disk depth found child)
    (children : List Nat) (found : List Ext4Extent × List Nat)
    (agree : ∀ block ∈ (children.foldl (parseChild disk depth) found).2,
      other block = disk block) :
    children.foldl (parseChild other depth) found =
      children.foldl (parseChild disk depth) found := by
  induction children generalizing found with
  | nil => simp only [List.foldl_nil]
  | cons child children ih =>
      simp only [List.foldl_cons] at agree ⊢
      rw [each found child fun block blockMem =>
        agree block (visited_parseChild_foldl disk depth children _ blockMem)]
      exact ih _ agree

theorem parse_congr {disk other : Nat → Block} (depth : Nat) {size : Nat} (node : Bytes size)
    (maxEntries : Nat) (found : List Ext4Extent × List Nat)
    (agree : ∀ block ∈ (parseExtentTreeRecursive disk depth node maxEntries found).2,
      other block = disk block) :
    parseExtentTreeRecursive other depth node maxEntries found =
      parseExtentTreeRecursive disk depth node maxEntries found := by
  induction depth generalizing size node maxEntries found with
  | zero => simp only [parseExtentTreeRecursive]
  | succ depth ih =>
      by_cases broken : (nodeHeader node).ehDepth.toNat ≠ depth + 1 ∨
          depth + 1 > extentTreeMaxDepth
      · rw [parseExtentTreeRecursive, if_pos broken, parseExtentTreeRecursive, if_pos broken]
      · rw [not_or, not_not, Nat.not_lt] at broken
        rw [parseExtentTreeRecursive_succ disk node maxEntries found broken.1 broken.2] at agree ⊢
        rw [parseExtentTreeRecursive_succ other node maxEntries found broken.1 broken.2]
        exact parseChild_foldl_congr
          (parseChild_congr fun node found => ih node extentsPerNode found) _ _ agree

theorem collect_skipped {disk : Nat → Block} {depth child : Nat} {found : TreeBlocks}
    (skipped : child = 0 ∨ child ∈ found.visitedBlocks) :
    collectExtentTreeBlock disk depth child found = found := by
  cases depth with
  | zero => rw [collectExtentTreeBlock, if_pos skipped]
  | succ depth =>
      rw [collectExtentTreeBlock, if_pos (skipped.imp_right Or.inr)]

theorem collect_broken {disk : Nat → Block} {depth child : Nat} {found : TreeBlocks}
    (fresh : ¬ (child = 0 ∨ child ∈ found.visitedBlocks))
    (depthLe : depth + 1 ≤ extentTreeMaxDepth)
    (broken : ¬ ((nodeHeader (disk child)).isValid = true ∧
      (nodeHeader (disk child)).ehDepth.toNat = depth + 1)) :
    collectExtentTreeBlock disk (depth + 1) child found =
      ⟨found.leaves, found.indexes ++ [child], found.visitedBlocks ++ [child]⟩ := by
  rw [not_or] at fresh
  rw [collectExtentTreeBlock, if_neg (by
    rintro (zero | deep | seen)
    · exact fresh.1 zero
    · exact absurd depthLe (Nat.not_le.mpr deep)
    · exact fresh.2 seen)]
  rw [not_and_or] at broken
  exact if_pos broken

theorem collect_valid {disk : Nat → Block} {depth child : Nat} {found : TreeBlocks}
    (fresh : ¬ (child = 0 ∨ child ∈ found.visitedBlocks))
    (depthLe : depth + 1 ≤ extentTreeMaxDepth)
    (valid : (nodeHeader (disk child)).isValid = true)
    (depthEq : (nodeHeader (disk child)).ehDepth.toNat = depth + 1) :
    collectExtentTreeBlock disk (depth + 1) child found =
      (nodeChildren (disk child) extentsPerNode).foldl
        (fun found child => collectExtentTreeBlock disk depth child found)
        ⟨found.leaves, found.indexes ++ [child], found.visitedBlocks ++ [child]⟩ := by
  rw [not_or] at fresh
  rw [collectExtentTreeBlock, if_neg (by
    rintro (zero | deep | seen)
    · exact fresh.1 zero
    · exact absurd depthLe (Nat.not_le.mpr deep)
    · exact fresh.2 seen)]
  exact if_neg (by simp [valid, depthEq])

theorem parseChild_foldl_visited {disk : Nat → Block} {depth : Nat}
    (each : ∀ extents (found : TreeBlocks) child,
      (parseChild disk depth (extents, found.visitedBlocks) child).2 =
        (collectExtentTreeBlock disk depth child found).visitedBlocks)
    (children : List Nat) (extents : List Ext4Extent) (found : TreeBlocks) :
    (children.foldl (parseChild disk depth) (extents, found.visitedBlocks)).2 =
      (children.foldl (fun found child => collectExtentTreeBlock disk depth child found)
        found).visitedBlocks := by
  induction children generalizing extents found with
  | nil => rfl
  | cons child children ih =>
      simp only [List.foldl_cons]
      rw [← ih (parseChild disk depth (extents, found.visitedBlocks) child).1, ← each extents]

/-- The parser visits the blocks that the collector finds. -/
theorem parseChild_visited (disk : Nat → Block) (depth : Nat)
    (depthLe : depth ≤ extentTreeMaxDepth) (extents : List Ext4Extent) (found : TreeBlocks)
    (child : Nat) :
    (parseChild disk depth (extents, found.visitedBlocks) child).2 =
      (collectExtentTreeBlock disk depth child found).visitedBlocks := by
  induction depth generalizing extents found child with
  | zero =>
      by_cases skipped : child = 0 ∨ child ∈ found.visitedBlocks
      · rw [parseChild_skipped skipped, collect_skipped skipped]
      · rw [collectExtentTreeBlock, if_neg skipped, parseChild, if_neg skipped]
        split
        · simp only [parseExtentTreeRecursive]
          split <;> rfl
        · rfl
  | succ depth ih =>
      by_cases skipped : child = 0 ∨ child ∈ found.visitedBlocks
      · rw [parseChild_skipped skipped, collect_skipped skipped]
      · by_cases valid : (nodeHeader (disk child)).isValid = true ∧
            (nodeHeader (disk child)).ehDepth.toNat = depth + 1
        · rw [parseChild_valid skipped valid.1 valid.2,
            collect_valid skipped depthLe valid.1 valid.2,
            parseExtentTreeRecursive_succ disk _ _ _ valid.2 depthLe]
          exact parseChild_foldl_visited (ih (by omega)) _ extents
            ⟨found.leaves, found.indexes ++ [child], found.visitedBlocks ++ [child]⟩
        · rw [parseChild_broken skipped valid, collect_broken skipped depthLe valid]

/-- All blocks of the tree in an inode. -/
def treeBlocks (disk : Nat → Block) (inodeBlock : Bytes iBlockSize) : List Nat :=
  (extentTreeBlocks disk inodeBlock).1 ++ (extentTreeBlocks disk inodeBlock).2

/-- The blocks found from the root of a tree of positive depth. -/
def rootBlocks (disk : Nat → Block) (inodeBlock : Bytes iBlockSize) (depth : Nat) : TreeBlocks :=
  (nodeChildren inodeBlock extentsInInode).foldl
    (fun found child => collectExtentTreeBlock disk depth child found) ⟨[], [], []⟩

theorem extentTreeBlocks_deep (disk : Nat → Block) {inodeBlock : Bytes iBlockSize} {depth : Nat}
    (valid : (nodeHeader inodeBlock).isValid = true)
    (depthEq : (nodeHeader inodeBlock).ehDepth.toNat = depth + 1)
    (depthLe : depth + 1 ≤ extentTreeMaxDepth) :
    extentTreeBlocks disk inodeBlock =
      ((rootBlocks disk inodeBlock depth).leaves, (rootBlocks disk inodeBlock depth).indexes) := by
  rw [extentTreeBlocks, if_neg (by
    rintro (broken | flat | deep)
    · exact broken valid
    · omega
    · omega)]
  simp only [depthEq, Nat.add_sub_cancel, rootBlocks, nodeChildren, List.foldl_map]

theorem parseExtentTree_deep (disk : Nat → Block) {inodeBlock : Bytes iBlockSize} {depth : Nat}
    (valid : (nodeHeader inodeBlock).isValid = true)
    (depthEq : (nodeHeader inodeBlock).ehDepth.toNat = depth + 1)
    (depthLe : depth + 1 ≤ extentTreeMaxDepth) :
    parseExtentTree disk inodeBlock =
      ((nodeChildren inodeBlock extentsInInode).foldl (parseChild disk depth) ([], [])).1 := by
  rw [parseExtentTree, if_neg (by
    rintro (broken | deep)
    · exact broken valid
    · omega), if_neg (by omega), depthEq,
    parseExtentTreeRecursive_succ disk _ _ _ depthEq depthLe]

theorem accounted_rootBlocks (disk : Nat → Block) (inodeBlock : Bytes iBlockSize) (depth : Nat) :
    (rootBlocks disk inodeBlock depth).Accounted :=
  foldl_keeps (fun _ child keeps => accounted_collect disk depth child keeps) _
    ⟨List.Perm.refl _, List.nodup_nil, by simp⟩

/-- A root that is itself a leaf. -/
theorem tree_flat {inodeBlock : Bytes iBlockSize}
    (valid : (nodeHeader inodeBlock).isValid = true)
    (flat : (nodeHeader inodeBlock).ehDepth.toNat = 0) (disk : Nat → Block) :
    parseExtentTree disk inodeBlock = nodeExtents inodeBlock extentsInInode ∧
      extentTreeBlocks disk inodeBlock = ([], []) := by
  simp [parseExtentTree, extentTreeBlocks, valid, flat]

/-- The three shapes of a root as both traversals see it. -/
theorem root_cases (inodeBlock : Bytes iBlockSize) :
    (∀ disk : Nat → Block, parseExtentTree disk inodeBlock = [] ∧
        extentTreeBlocks disk inodeBlock = ([], [])) ∨
      (∀ disk : Nat → Block,
        parseExtentTree disk inodeBlock = nodeExtents inodeBlock extentsInInode ∧
          extentTreeBlocks disk inodeBlock = ([], [])) ∨
      ∃ depth, (nodeHeader inodeBlock).isValid = true ∧
        (nodeHeader inodeBlock).ehDepth.toNat = depth + 1 ∧ depth + 1 ≤ extentTreeMaxDepth := by
  by_cases valid : (nodeHeader inodeBlock).isValid = true
  · by_cases flat : (nodeHeader inodeBlock).ehDepth.toNat = 0
    · right
      left
      exact tree_flat valid flat
    · by_cases deep : (nodeHeader inodeBlock).ehDepth.toNat > extentTreeMaxDepth
      · left
        intro disk
        simp [parseExtentTree, extentTreeBlocks, deep]
      · right
        right
        exact ⟨(nodeHeader inodeBlock).ehDepth.toNat - 1, valid, by omega, by omega⟩
  · left
    intro disk
    simp [parseExtentTree, extentTreeBlocks, valid]

theorem nodup_treeBlocks (disk : Nat → Block) (inodeBlock : Bytes iBlockSize) :
    (treeBlocks disk inodeBlock).Nodup := by
  rcases root_cases inodeBlock with empty | flat | ⟨depth, valid, depthEq, depthLe⟩
  · simp [treeBlocks, (empty disk).2]
  · simp [treeBlocks, (flat disk).2]
  · have accounted := accounted_rootBlocks disk inodeBlock depth
    rw [treeBlocks, extentTreeBlocks_deep disk valid depthEq depthLe]
    exact accounted.perm.nodup_iff.mpr accounted.nodup

/-- A tree depends only on its own blocks. -/
theorem tree_congr {disk other : Nat → Block} {inodeBlock : Bytes iBlockSize}
    (agree : ∀ block ∈ treeBlocks disk inodeBlock, other block = disk block) :
    parseExtentTree other inodeBlock = parseExtentTree disk inodeBlock ∧
      extentTreeBlocks other inodeBlock = extentTreeBlocks disk inodeBlock := by
  rcases root_cases inodeBlock with empty | flat | ⟨depth, valid, depthEq, depthLe⟩
  · rw [(empty other).1, (empty disk).1, (empty other).2, (empty disk).2]
    exact ⟨rfl, rfl⟩
  · rw [(flat other).1, (flat disk).1, (flat other).2, (flat disk).2]
    exact ⟨rfl, rfl⟩
  · have accounted := accounted_rootBlocks disk inodeBlock depth
    rw [treeBlocks, extentTreeBlocks_deep disk valid depthEq depthLe] at agree
    have agreeVisited : ∀ block ∈ (rootBlocks disk inodeBlock depth).visitedBlocks,
        other block = disk block :=
      fun block blockMem => agree block (accounted.perm.mem_iff.mpr blockMem)
    constructor
    · have visited := parseChild_foldl_visited
        (parseChild_visited disk depth (by omega)) (nodeChildren inodeBlock extentsInInode)
        [] ⟨[], [], []⟩
      rw [parseExtentTree_deep disk valid depthEq depthLe,
        parseExtentTree_deep other valid depthEq depthLe,
        ← parseExtentTreeRecursive_succ disk inodeBlock _ _ depthEq depthLe,
        ← parseExtentTreeRecursive_succ other inodeBlock _ _ depthEq depthLe,
        parse_congr (depth + 1) inodeBlock extentsInInode ([], [])]
      rw [parseExtentTreeRecursive_succ disk inodeBlock _ _ depthEq depthLe]
      intro block blockMem
      exact agreeVisited block (visited ▸ blockMem)
    · rw [extentTreeBlocks_deep disk valid depthEq depthLe,
        extentTreeBlocks_deep other valid depthEq depthLe]
      have same : rootBlocks other inodeBlock depth = rootBlocks disk inodeBlock depth :=
        collect_foldl_congr (fun child found => collect_congr depth child found) _ _ agreeVisited
      rw [same]

/-- The given blocks are leaves with the given extents. -/
abbrev AreLeaves (disk : Nat → Block) (blocks : List Nat) (chunks : List (List Ext4Extent)) :
    Prop :=
  List.Forall₂ (fun block chunk => IsLeaf (disk block) chunk) blocks chunks

/-- The given blocks are index nodes, each over its own list of leaves. -/
abbrev AreIndexes (disk : Nat → Block) (blocks : List Nat)
    (nodes : List (List Nat × List (List Ext4Extent))) : Prop :=
  List.Forall₂ (fun block node => IsIndex (disk block) node.1 ∧ AreLeaves disk node.1 node.2)
    blocks nodes

theorem unseen_head {block : Nat} {blocks visited : List Nat} (nonzero : 0 ∉ block :: blocks)
    (fresh : ∀ other ∈ block :: blocks, other ∉ visited) : ¬ (block = 0 ∨ block ∈ visited) := by
  rintro (rfl | seen)
  · exact nonzero (by simp)
  · exact fresh block (by simp) seen

theorem fresh_tail {block : Nat} {blocks visited : List Nat} (nodup : (block :: blocks).Nodup)
    (fresh : ∀ other ∈ block :: blocks, other ∉ visited) :
    ∀ other ∈ blocks, other ∉ visited ++ [block] := by
  intro other otherMem
  rw [List.mem_append, List.mem_singleton, not_or]
  refine ⟨fresh other (by simp [otherMem]), ?_⟩
  rintro rfl
  exact (List.nodup_cons.mp nodup).1 otherMem

theorem parse_leaves {disk : Nat → Block} {blocks : List Nat} {chunks : List (List Ext4Extent)}
    (stored : AreLeaves disk blocks chunks) (nonzero : 0 ∉ blocks) (nodup : blocks.Nodup)
    (extents : List Ext4Extent) {visited : List Nat} (fresh : ∀ block ∈ blocks, block ∉ visited) :
    blocks.foldl (parseChild disk 0) (extents, visited) =
      (extents ++ chunks.flatten, visited ++ blocks) := by
  induction stored generalizing extents visited with
  | nil => simp
  | @cons block chunk blocks chunks isLeaf stored ih =>
      rw [List.foldl_cons, parseChild_valid (unseen_head nonzero fresh) isLeaf.valid isLeaf.depth]
      simp only [parseExtentTreeRecursive, isLeaf.depth, ne_eq, not_true_eq_false, if_false,
        isLeaf.entries]
      rw [ih (fun zeroMem => nonzero (by simp [zeroMem])) (List.nodup_cons.mp nodup).2 _
        (fresh_tail nodup fresh)]
      simp

theorem collect_leaves {disk : Nat → Block} {blocks : List Nat} (nonzero : 0 ∉ blocks)
    (nodup : blocks.Nodup) {found : TreeBlocks}
    (fresh : ∀ block ∈ blocks, block ∉ found.visitedBlocks) :
    blocks.foldl (fun found child => collectExtentTreeBlock disk 0 child found) found =
      ⟨found.leaves ++ blocks, found.indexes, found.visitedBlocks ++ blocks⟩ := by
  induction blocks generalizing found with
  | nil => simp
  | cons block blocks ih =>
      have visited : collectExtentTreeBlock disk 0 block found =
          ⟨found.leaves ++ [block], found.indexes, found.visitedBlocks ++ [block]⟩ := by
        rw [collectExtentTreeBlock, if_neg (unseen_head nonzero fresh)]
      rw [List.foldl_cons, visited, ih (fun zeroMem => nonzero (by simp [zeroMem]))
        (List.nodup_cons.mp nodup).2 (fresh_tail nodup fresh)]
      simp

/-- What the conditions on a list of index nodes say about the first of them. -/
theorem index_conditions {block : Nat} {blocks : List Nat} {leaves : List Nat}
    {nodes : List (List Nat × List (List Ext4Extent))} {visited : List Nat}
    (nonzero : 0 ∉ block :: blocks ++ (leaves ++ nodes.flatMap Prod.fst))
    (nodup : (block :: blocks ++ (leaves ++ nodes.flatMap Prod.fst)).Nodup)
    (fresh : ∀ other ∈ block :: blocks ++ (leaves ++ nodes.flatMap Prod.fst), other ∉ visited) :
    ¬ (block = 0 ∨ block ∈ visited) ∧
      (0 ∉ leaves ∧ leaves.Nodup ∧ ∀ leaf ∈ leaves, leaf ∉ visited ++ [block]) ∧
      0 ∉ blocks ++ nodes.flatMap Prod.fst ∧ (blocks ++ nodes.flatMap Prod.fst).Nodup ∧
      ∀ other ∈ blocks ++ nodes.flatMap Prod.fst, other ∉ visited ++ [block] ++ leaves := by
  have unseen := unseen_head nonzero fresh
  simp only [List.cons_append, List.mem_cons, List.mem_append, not_or] at nonzero
  rw [List.cons_append, List.nodup_cons, List.nodup_append, List.nodup_append] at nodup
  obtain ⟨blockFresh, blocksNodup, ⟨leavesNodup, nodesNodup, leavesDisjoint⟩,
    blocksDisjoint⟩ := nodup
  simp only [List.mem_append, not_or] at blockFresh
  simp only [List.cons_append, List.mem_cons, List.mem_append] at fresh
  refine ⟨unseen, ⟨nonzero.2.2.1, leavesNodup, ?_⟩, ?_, ?_, ?_⟩
  · intro leaf leafMem
    simp only [List.mem_append, List.mem_singleton, not_or]
    refine ⟨fresh leaf (Or.inr (Or.inr (Or.inl leafMem))), ?_⟩
    rintro rfl
    exact blockFresh.2.1 leafMem
  · rw [List.mem_append, not_or]
    exact ⟨nonzero.2.1, nonzero.2.2.2⟩
  · rw [List.nodup_append]
    exact ⟨blocksNodup, nodesNodup, fun first firstMem second secondMem =>
      blocksDisjoint first firstMem second (by simp [secondMem])⟩
  · intro other otherMem
    simp only [List.mem_append, List.mem_singleton, not_or] at otherMem ⊢
    rcases otherMem with otherMem | otherMem
    · refine ⟨⟨fresh other (Or.inr (Or.inl otherMem)), ?_⟩, ?_⟩
      · rintro rfl
        exact blockFresh.1 otherMem
      · intro leafMem
        exact blocksDisjoint other otherMem other (by simp [leafMem]) rfl
    · refine ⟨⟨fresh other (Or.inr (Or.inr (Or.inr otherMem))), ?_⟩, ?_⟩
      · rintro rfl
        exact blockFresh.2.2 otherMem
      · intro leafMem
        exact leavesDisjoint other leafMem other otherMem rfl

theorem parse_indexes {disk : Nat → Block} {blocks : List Nat}
    {nodes : List (List Nat × List (List Ext4Extent))} (stored : AreIndexes disk blocks nodes)
    (nonzero : 0 ∉ blocks ++ nodes.flatMap Prod.fst)
    (nodup : (blocks ++ nodes.flatMap Prod.fst).Nodup) (extents : List Ext4Extent)
    {visited : List Nat}
    (fresh : ∀ block ∈ blocks ++ nodes.flatMap Prod.fst, block ∉ visited) :
    (blocks.foldl (parseChild disk 1) (extents, visited)).1 =
      extents ++ nodes.flatMap fun node => node.2.flatten := by
  induction stored generalizing extents visited with
  | nil => simp
  | @cons block node blocks nodes isNode stored ih =>
      obtain ⟨isIndex, areLeaves⟩ := isNode
      rw [List.flatMap_cons] at nonzero nodup fresh
      obtain ⟨unseen, ⟨leavesNonzero, leavesNodup, leavesFresh⟩, restNonzero, restNodup,
        restFresh⟩ := index_conditions nonzero nodup fresh
      have children : nodeChildren (disk block) extentsPerNode = node.1 := isIndex.entries
      rw [List.foldl_cons, parseChild_valid unseen isIndex.valid isIndex.depth,
        parseExtentTreeRecursive_succ disk _ _ _ isIndex.depth (by decide), children,
        parse_leaves areLeaves leavesNonzero leavesNodup _ leavesFresh,
        ih restNonzero restNodup _ restFresh]
      simp

theorem collect_indexes {disk : Nat → Block} {blocks : List Nat}
    {nodes : List (List Nat × List (List Ext4Extent))} (stored : AreIndexes disk blocks nodes)
    (nonzero : 0 ∉ blocks ++ nodes.flatMap Prod.fst)
    (nodup : (blocks ++ nodes.flatMap Prod.fst).Nodup) {found : TreeBlocks}
    (fresh : ∀ block ∈ blocks ++ nodes.flatMap Prod.fst, block ∉ found.visitedBlocks) :
    (blocks.foldl (fun found child => collectExtentTreeBlock disk 1 child found) found).leaves =
        found.leaves ++ nodes.flatMap Prod.fst ∧
      (blocks.foldl (fun found child => collectExtentTreeBlock disk 1 child found) found).indexes =
        found.indexes ++ blocks := by
  induction stored generalizing found with
  | nil => simp
  | @cons block node blocks nodes isNode stored ih =>
      obtain ⟨isIndex, areLeaves⟩ := isNode
      rw [List.flatMap_cons] at nonzero nodup fresh
      obtain ⟨unseen, ⟨leavesNonzero, leavesNodup, leavesFresh⟩, restNonzero, restNodup,
        restFresh⟩ := index_conditions nonzero nodup fresh
      have children : nodeChildren (disk block) extentsPerNode = node.1 := isIndex.entries
      have leaves := @collect_leaves disk node.1 leavesNonzero leavesNodup
        ⟨found.leaves, found.indexes ++ [block], found.visitedBlocks ++ [block]⟩ leavesFresh
      rw [List.foldl_cons, collect_valid unseen (by decide) isIndex.valid
        isIndex.depth, children, leaves]
      obtain ⟨leavesEq, indexesEq⟩ := @ih restNonzero restNodup
        ⟨found.leaves ++ node.1, found.indexes ++ [block],
          found.visitedBlocks ++ [block] ++ node.1⟩ restFresh
      rw [leavesEq, indexesEq]
      simp

end Ext4

end OSWorkspace
