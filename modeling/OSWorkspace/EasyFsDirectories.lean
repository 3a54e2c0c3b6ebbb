import OSWorkspace.EasyFsInodeStores

/-!
# The root directory of easy-fs

The root inode stores one record of 32 bytes for each file, in the order of
creation, and the files have consecutive inode numbers.  Records are found by
their names as long as all names end before the last byte of their field and
contain no zero byte.
-/

namespace OSWorkspace

namespace EasyFs

open Exec

namespace DirEntry

/-- The record of a name and an inode number. -/
def image (name : Str) (inodeNumber : Nat) : DirEntry :=
  (Bytes.zeroed.write 0 name.bytes).putUint 28 4 inodeNumber

theorem ofBytes_asBytes (entry : DirEntry) : ofBytes entry.asBytes = entry := by
  refine Bytes.ext fun index inside => ?_
  have isWidth : index < 32 := inside
  have length : entry.asBytes.length = 32 := Bytes.length_slice _ _ _
  rw [ofBytes, Bytes.write, Bytes.get_overlay_inside _ _ (Nat.zero_le _) (by omega) inside,
    Nat.sub_zero, List.getD_eq_getElem _ _ (by omega)]
  simp only [asBytes, Bytes.slice, List.getElem_map, List.getElem_range, Nat.zero_add]

theorem length_asBytes (entry : DirEntry) : entry.asBytes.length = direntSz :=
  Bytes.length_slice _ _ _

theorem inodeNumber_image (name : Str) {inodeNumber : Nat} (inWord : inodeNumber < 2 ^ 32) :
    (image name inodeNumber).inodeNumber = inodeNumber := by
  rw [DirEntry.inodeNumber, image, Bytes.uint_putUint _ _ (by decide)]
  exact Nat.mod_eq_of_lt inWord

theorem get_image (name : Str) (inodeNumber : Nat) {index : Nat} (inside : index < 28) :
    (image name inodeNumber).get index = name.bytes.getD index 0 := by
  have inEntry : index < direntSz := lt_trans inside (by decide)
  rw [image, Bytes.putUint, Bytes.get_overlay_outside _ _ (Or.inl inside), Bytes.write,
    Bytes.get_overlay _ _ _ _ inEntry, Nat.sub_zero]
  by_cases inName : index < name.bytes.length
  · rw [if_pos ⟨Nat.zero_le _, by omega⟩]
  · rw [if_neg (by omega), Bytes.get_zeroed, List.getD_eq_default _ _ (Nat.not_lt.mp inName)]

/-- A name that is found again: it ends before its field and has no zero byte. -/
def Fits (name : Str) : Prop := name.len ≤ nameLengthLimit ∧ 0 ∉ name.bytes

theorem slice_image (name : Str) (inodeNumber : Nat) (short : name.len ≤ 28) :
    (image name inodeNumber).slice 0 name.len = name.bytes := by
  refine List.ext_getElem (Bytes.length_slice _ _ _) fun index inSlice inName => ?_
  have isShort : name.bytes.length ≤ 28 := short
  simp only [Bytes.slice, List.getElem_map, List.getElem_range, Nat.zero_add]
  rw [get_image _ _ (by omega), List.getD_eq_getElem _ _ inName]

theorem run_name {name : Str} (fits : Fits name) (inodeNumber : Nat) (volume : Volume) :
    (image name inodeNumber).name.run volume = .ok name volume := by
  obtain ⟨short, noZero⟩ := fits
  have isShort : name.bytes.length ≤ 27 := short
  have first : (List.range (nameLengthLimit + 1)).find? (fun index =>
      (image name inodeNumber).get index == 0) = some name.len := by
    rw [List.find?_range_eq_some]
    refine ⟨?_, List.mem_range.mpr (Nat.lt_succ_of_le short), fun index before => ?_⟩
    · rw [Str.len, get_image _ _ (by omega), List.getD_eq_default _ _ (le_refl _)]
      rfl
    · have inName : index < name.bytes.length := before
      rw [get_image _ _ (by omega), List.getD_eq_getElem _ _ inName]
      simp only [Bool.not_eq_true', beq_eq_false_iff_ne]
      intro isZero
      exact noZero (isZero ▸ List.getElem_mem inName)
  rw [DirEntry.name, first, run_bind_ok (run_expect_some _ _),
    slice_image _ _ (le_trans short (by decide)), Str.fromUtf8_bytes, run_expect_some]

/-- Decoding a record returns or panics. -/
theorem run_name_cases (entry : DirEntry) (volume : Volume) :
    entry.name.run volume = .panic ∨ ∃ name, entry.name.run volume = .ok name volume := by
  rw [DirEntry.name]
  cases (List.range (nameLengthLimit + 1)).find? fun index => entry.get index == 0 with
  | none => exact Or.inl rfl
  | some len =>
      rw [run_bind_ok (run_expect_some _ _)]
      cases Str.fromUtf8 (entry.slice 0 len) with
      | none => exact Or.inl rfl
      | some name => exact Or.inr ⟨name, rfl⟩

theorem run_new {name : Str} (short : name.len ≤ nameLengthLimit + 1) (inodeNumber : Nat)
    (volume : Volume) :
    (DirEntry.new name inodeNumber).run volume = .ok (image name inodeNumber) volume := by
  rw [DirEntry.new, run_bind_ok (run_check short _), run_pure]
  rfl

end DirEntry

/-- The records of files with consecutive inode numbers. -/
def records : (first : Nat) → List Str → List UInt8
  | _, [] => []
  | first, name :: names => (DirEntry.image name first).asBytes ++ records (first + 1) names

theorem length_records (first : Nat) (names : List Str) :
    (records first names).length = direntSz * names.length := by
  induction names generalizing first with
  | nil => rfl
  | cons name names ih =>
      rw [records, List.length_append, DirEntry.length_asBytes, ih, List.length_cons, Nat.mul_succ,
        Nat.add_comm]

theorem records_append (first : Nat) (names : List Str) (name : Str) :
    records first (names ++ [name]) =
      records first names ++ (DirEntry.image name (first + names.length)).asBytes := by
  induction names generalizing first with
  | nil => rw [List.nil_append, records, records, records, List.append_nil, List.nil_append,
      List.length_nil, Nat.add_zero]
  | cons head names ih =>
      rw [List.cons_append, records, records, ih, List.length_cons, List.append_assoc,
        Nat.add_assoc, Nat.add_comm 1]

theorem take_drop_records {names : List Str} {index : Nat} {name : Str}
    (isName : names[index]? = some name) (first : Nat) :
    ((records first names).drop (direntSz * index)).take direntSz =
      (DirEntry.image name (first + index)).asBytes := by
  induction names generalizing first index with
  | nil => simp at isName
  | cons head names ih =>
      have width := DirEntry.length_asBytes (DirEntry.image head first)
      cases index with
      | zero =>
          rw [List.getElem?_cons_zero, Option.some.injEq] at isName
          rw [records, Nat.mul_zero, List.drop_zero, List.take_left' width, isName]
          rfl
      | succ index =>
          rw [List.getElem?_cons_succ] at isName
          rw [records, Nat.mul_succ, Nat.add_comm, ← List.drop_drop, List.drop_left' width,
            ih isName, Nat.add_assoc, Nat.add_comm 1]

/-- A record is added by a write behind the others. -/
theorem writtenAt_records (names : List Str) (name : Str) :
    writtenAt (records 1 names) (direntSz * names.length)
        (DirEntry.image name (names.length + 1)).asBytes = records 1 (names ++ [name]) := by
  have length := length_records 1 names
  rw [records_append, writtenAt, ← length, Nat.sub_self, List.replicate_zero, List.append_nil,
    List.take_length, List.drop_of_length_le (Nat.le_add_right _ _), List.append_nil,
    Nat.add_comm 1]

namespace Layout

/-- The root inode stores the records of the files, which are the other inodes. -/
structure Lists (layout : Layout) (disk : Nat → Block) (names : List Str)
    (contents : Nat → List UInt8) (owned : Nat → List Nat) : Prop where
  holds : layout.Holds disk (names.length + 1) contents owned
  root : contents 0 = records 1 names

section Listing

variable {layout : Layout} {disk : Nat → Block} {names : List Str} {contents : Nat → List UInt8}
  {owned : Nat → List Nat} {locked : List Nat} (lists : layout.Lists disk names contents owned)
  (isOpen : layout.Open locked) (build : Build)

include lists

theorem Lists.length_root : (contents 0).length = direntSz * names.length := by
  rw [lists.root, length_records]

theorem Lists.few : direntSz * names.length ≤ sizeBound :=
  lists.length_root ▸ (lists.holds.stores 0 (Nat.succ_pos _)).bounded

theorem Lists.length_le : names.length ≤ 264640 := by
  have few : 32 * names.length ≤ 8468480 := lists.few
  omega

theorem Lists.size_root : (layout.inodeAt disk 0).size = direntSz * names.length :=
  (lists.holds.stores 0 (Nat.succ_pos _)).size.trans lists.length_root

theorem Lists.fileCount : (layout.inodeAt disk 0).size / direntSz = names.length := by
  rw [lists.size_root]
  exact Nat.mul_div_cancel_left _ (by decide)

include isOpen

theorem Lists.run_readEntry {index : Nat} {name : Str} (isName : names[index]? = some name) :
    (Inode.readEntry build (layout.inodeAt disk 0) index).run
        ⟨disk, layout.slotBlock 0 :: locked⟩ =
      .ok (DirEntry.image name (index + 1)) ⟨disk, layout.slotBlock 0 :: locked⟩ := by
  obtain ⟨inside, _⟩ := List.getElem?_eq_some_iff.mp isName
  have few := lists.length_le
  have small : direntSz * index + direntSz < 2 ^ 64 := by
    change 32 * index + 32 < 2 ^ 64
    omega
  have isRoot : 0 < names.length + 1 := Nat.succ_pos _
  have ran := (lists.holds.stores 0 isRoot).run_readAt build
    (lists.holds.ready isRoot isOpen).unlocked_given
    (fun _ => small) (lt_of_le_of_lt (Nat.le_add_right _ _) small) (by decide)
  rw [lists.root, take_drop_records isName, Nat.add_comm 1] at ran
  rw [Inode.readEntry, run_bind_ok ran, run_bind_ok (run_check (DirEntry.length_asBytes _) _),
    run_pure, DirEntry.ofBytes_asBytes]

/-- The first record with a name. -/
theorem Lists.run_findIn (fits : ∀ name ∈ names, DirEntry.Fits name) (target : Str)
    {indexes : List Nat} (inside : ∀ index ∈ indexes, index < names.length) :
    (Inode.findIn build target (layout.inodeAt disk 0) indexes).run
        ⟨disk, layout.slotBlock 0 :: locked⟩ =
      .ok ((indexes.find? fun index => names[index]? == some target).map (· + 1))
        ⟨disk, layout.slotBlock 0 :: locked⟩ := by
  induction indexes with
  | nil => rfl
  | cons index indexes ih =>
      have indexLt := inside index List.mem_cons_self
      have few := lists.length_le
      obtain ⟨name, isName⟩ : ∃ name, names[index]? = some name :=
        ⟨_, List.getElem?_eq_getElem indexLt⟩
      have fitsName := fits name (List.mem_of_getElem? isName)
      rw [Inode.findIn, run_bind_ok (lists.run_readEntry isOpen build isName),
        run_bind_ok (DirEntry.run_name fitsName _ _), List.find?_cons, isName]
      by_cases same : name = target
      · rw [if_pos same, run_pure, DirEntry.inodeNumber_image _ (by omega), same]
        simp
      · have differs : (some name == some target) = false := by simpa using same
        rw [if_neg same, ih fun other isOther => inside other (List.mem_cons_of_mem _ isOther),
          differs]

/-- With names that do not fit, the search may panic. -/
theorem Lists.run_findIn_cases (target : Str) {indexes : List Nat}
    (inside : ∀ index ∈ indexes, index < names.length) :
    (Inode.findIn build target (layout.inodeAt disk 0) indexes).run
        ⟨disk, layout.slotBlock 0 :: locked⟩ = .panic ∨
      ∃ found, (Inode.findIn build target (layout.inodeAt disk 0) indexes).run
        ⟨disk, layout.slotBlock 0 :: locked⟩ =
          .ok found ⟨disk, layout.slotBlock 0 :: locked⟩ := by
  induction indexes with
  | nil => exact Or.inr ⟨none, rfl⟩
  | cons index indexes ih =>
      have indexLt := inside index List.mem_cons_self
      rw [Inode.findIn, run_bind_ok (lists.run_readEntry isOpen build
        (List.getElem?_eq_getElem indexLt))]
      rcases DirEntry.run_name_cases (DirEntry.image names[index] (index + 1))
        ⟨disk, layout.slotBlock 0 :: locked⟩ with panics | ⟨name, ran⟩
      · exact Or.inl (run_bind_panic panics)
      · rw [run_bind_ok ran]
        by_cases same : name = target
        · exact Or.inr ⟨_, by rw [if_pos same, run_pure]⟩
        · rw [if_neg same]
          exact ih fun other isOther => inside other (List.mem_cons_of_mem _ isOther)

theorem Lists.run_findInodeId (fits : ∀ name ∈ names, DirEntry.Fits name) (target : Str) :
    (Inode.findInodeId build target (layout.inodeAt disk 0)).run
        ⟨disk, layout.slotBlock 0 :: locked⟩ =
      .ok (((List.range names.length).find? fun index => names[index]? == some target).map (· + 1))
        ⟨disk, layout.slotBlock 0 :: locked⟩ := by
  rw [Inode.findInodeId, run_bind_ok (run_check (lists.holds.isDir (Nat.succ_pos _)) _),
    lists.fileCount]
  exact lists.run_findIn isOpen build fits target fun index => List.mem_range.mp

/-- A name that is not there is not found. -/
theorem Lists.run_findInodeId_none (fits : ∀ name ∈ names, DirEntry.Fits name) {target : Str}
    (isNew : target ∉ names) :
    (Inode.findInodeId build target (layout.inodeAt disk 0)).run
        ⟨disk, layout.slotBlock 0 :: locked⟩ =
      .ok none ⟨disk, layout.slotBlock 0 :: locked⟩ := by
  have notFound : ((List.range names.length).find? fun index => names[index]? == some target) =
      none := by
    rw [List.find?_range_eq_none]
    intro index _
    simp only [Bool.not_eq_true', beq_eq_false_iff_ne]
    exact fun same => isNew (List.mem_of_getElem? same)
  rw [lists.run_findInodeId isOpen build fits, notFound, Option.map_none]

/-- A name that is there once is found at its place. -/
theorem Lists.run_findInodeId_some (fits : ∀ name ∈ names, DirEntry.Fits name)
    (nodup : names.Nodup) {index : Nat} {target : Str} (isName : names[index]? = some target) :
    (Inode.findInodeId build target (layout.inodeAt disk 0)).run
        ⟨disk, layout.slotBlock 0 :: locked⟩ =
      .ok (some (index + 1)) ⟨disk, layout.slotBlock 0 :: locked⟩ := by
  obtain ⟨inside, _⟩ := List.getElem?_eq_some_iff.mp isName
  have isFound : ((List.range names.length).find? fun index => names[index]? == some target) =
      some index := by
    rw [List.find?_range_eq_some]
    refine ⟨by simp [isName], List.mem_range.mpr inside, fun other before => ?_⟩
    simp only [Bool.not_eq_true', beq_eq_false_iff_ne]
    intro same
    have twice := (List.getElem?_inj (lt_trans before inside) nodup).mp (same.trans isName.symm)
    omega
  rw [lists.run_findInodeId isOpen build fits, isFound, Option.map_some]

theorem Lists.run_namesIn (fits : ∀ name ∈ names, DirEntry.Fits name) {start count : Nat}
    (all : start + count = names.length) :
    (Inode.namesIn build (layout.inodeAt disk 0) (List.range' start count)).run
        ⟨disk, layout.slotBlock 0 :: locked⟩ =
      .ok (names.drop start) ⟨disk, layout.slotBlock 0 :: locked⟩ := by
  induction count generalizing start with
  | zero =>
      rw [List.drop_of_length_le (Nat.add_zero start ▸ all.ge)]
      rfl
  | succ count ih =>
      have inside : start < names.length := by omega
      have isName := List.getElem?_eq_getElem inside
      rw [List.range'_succ, Inode.namesIn,
        run_bind_ok (lists.run_readEntry isOpen build isName),
        run_bind_ok (DirEntry.run_name (fits _ (List.mem_of_getElem? isName)) _ _),
        run_bind_ok (ih (by omega)), run_pure, List.drop_eq_getElem_cons inside]

/-- The names are listed in the order of creation. -/
theorem Lists.run_ls (fits : ∀ name ∈ names, DirEntry.Fits name) :
    ((layout.handle 0).ls build).run ⟨disk, locked⟩ = .ok names ⟨disk, locked⟩ := by
  refine run_readDiskInode (lists.holds.slot_unlocked (Nat.succ_pos _) isOpen) ?_
  have listed := lists.run_namesIn isOpen build fits (Nat.zero_add names.length)
  rw [← List.range_eq_range', List.drop_zero] at listed
  rw [lists.fileCount]
  exact listed

/-- A name that is not there is not found. -/
theorem Lists.run_find_none (fits : ∀ name ∈ names, DirEntry.Fits name) {target : Str}
    (isNew : target ∉ names) :
    ((layout.handle 0).find layout.toEasyFileSystem build target).run ⟨disk, locked⟩ =
      .ok none ⟨disk, locked⟩ := by
  refine run_readDiskInode (lists.holds.slot_unlocked (Nat.succ_pos _) isOpen) ?_
  rw [run_bind_ok (lists.run_findInodeId_none isOpen build fits isNew), run_pure]

/-- The inode of a name is that of its place. -/
theorem Lists.run_find_some (fits : ∀ name ∈ names, DirEntry.Fits name) (nodup : names.Nodup)
    {index : Nat} {target : Str} (isName : names[index]? = some target) :
    ((layout.handle 0).find layout.toEasyFileSystem build target).run ⟨disk, locked⟩ =
      .ok (some (layout.handle (index + 1))) ⟨disk, locked⟩ := by
  obtain ⟨inside, _⟩ := List.getElem?_eq_some_iff.mp isName
  refine run_readDiskInode (lists.holds.slot_unlocked (Nat.succ_pos _) isOpen) ?_
  rw [run_bind_ok (lists.run_findInodeId_some isOpen build fits nodup isName)]
  simp only
  rw [run_bind_ok (run_getDiskInodePos (lists.holds.inSlots (Nat.succ_lt_succ inside)) build _),
    run_pure]
  rfl

omit lists isOpen in
/-- Appending a record to the root directory. -/
theorem Holds.run_appendEntry {count : Nat} (holds : layout.Holds disk count contents owned)
    (someInode : 0 < count) (isOpen : layout.Open locked) (build : Build)
    (root : contents 0 = records 1 names) {name : Str} (short : name.len ≤ nameLengthLimit + 1)
    (few : direntSz * (names.length + 1) ≤ sizeBound)
    (enough : blocksOf (direntSz * (names.length + 1)) ≤
      blocksOf (direntSz * names.length) + (layout.freeBlocks disk).card) :
    ∃ later after, ((layout.handle 0).modifyDiskInode
        (Inode.appendEntry layout.toEasyFileSystem build name (names.length + 1))).run
          ⟨disk, locked⟩ = .ok () ⟨later, locked⟩ ∧
      layout.Holds later count (Function.update contents 0 (records 1 (names ++ [name]))) after ∧
      (layout.freeBlocks later).card + blocksOf (direntSz * (names.length + 1)) =
        (layout.freeBlocks disk).card + blocksOf (direntSz * names.length) := by
  have width : direntSz = 32 := rfl
  have small : direntSz * (names.length + 1) ≤ 8468480 := few
  have length : (contents 0).length = direntSz * names.length := by rw [root, length_records]
  have ready := holds.ready someInode isOpen
  rw [← length] at enough
  obtain ⟨grown, middle, after, ranGrow, middleStores, isDir, changes⟩ :=
    run_increaseSize build ready (holds.stores 0 someInode) few enough
  have unlocked : ∀ blockId ∈ after, blockId ∉ layout.slotBlock 0 :: locked :=
    fun blockId isAfter => ready.unlocked _ (changes.data _ isAfter)
  have entryLength := DirEntry.length_asBytes (DirEntry.image name (names.length + 1))
  have isEnd : direntSz * (names.length + 1) = direntSz * names.length +
      (DirEntry.image name (names.length + 1)).asBytes.length := by rw [entryLength, Nat.mul_succ]
  have notEmpty : (DirEntry.image name (names.length + 1)).asBytes ≠ [] := by
    rw [← List.length_pos_iff_ne_nil, entryLength]
    decide
  rw [isEnd] at middleStores
  have inside : direntSz * names.length +
      (DirEntry.image name (names.length + 1)).asBytes.length ≤
        (writtenAt (contents 0) (direntSz * names.length +
          (DirEntry.image name (names.length + 1)).asBytes.length) []).length := by
    rw [length_writtenAt]
    exact le_max_right _ _
  obtain ⟨later, ranWrite, laterStores, same⟩ :=
    middleStores.run_writeAt build unlocked notEmpty inside
  rw [writtenAt_extended, root, writtenAt_records] at laterStores
  have replaced := holds.replace someInode laterStores isDir (changes.rewrite same)
  have card := holds.card_replace someInode laterStores (changes.rewrite same)
  rw [length, length_records, List.length_append, List.length_singleton] at card
  refine ⟨_, _, run_modifyDiskInode (holds.slot_unlocked someInode isOpen) ?_, replaced, card⟩
  have fileCount : (layout.inodeAt disk 0).size / direntSz = names.length := by
    rw [(holds.stores 0 someInode).size, length]
    exact Nat.mul_div_cancel_left _ (by decide)
  rw [Inode.appendEntry]
  simp only [fileCount]
  rw [Nat.mul_comm (names.length + 1), Nat.mul_comm names.length, Nat.mod_eq_of_lt (by omega),
    run_bind_ok ranGrow, run_bind_ok (DirEntry.run_new short _ _), run_bind_ok ranWrite, run_pure]

end Listing

/-- There is room for one more file: an inode whose place lies in the inode
area, and data blocks for the directory. -/
structure Room (layout : Layout) (disk : Nat → Block) (files : Nat) : Prop where
  inArea : files + 1 < 4 * layout.inodeBlocks
  inBitmap : files + 1 < layout.inodeBitmap.maximum
  few : direntSz * (files + 1) ≤ sizeBound
  enough : blocksOf (direntSz * (files + 1)) ≤
    blocksOf (direntSz * files) + (layout.freeBlocks disk).card

section Creation

variable {layout : Layout} {disk : Nat → Block} {names : List Str} {contents : Nat → List UInt8}
  {owned : Nat → List Nat} {locked : List Nat} (lists : layout.Lists disk names contents owned)
  (isOpen : layout.Open locked) (build : Build) {name : Str}

include lists isOpen

/-- A file whose name was not found is created. -/
theorem Lists.run_create_of_none (room : layout.Room disk names.length)
    (short : name.len ≤ nameLengthLimit + 1)
    (notFound : (Inode.findInodeId build name (layout.inodeAt disk 0)).run
      ⟨disk, layout.slotBlock 0 :: locked⟩ =
        .ok none ⟨disk, layout.slotBlock 0 :: locked⟩) :
    ∃ later after, ((layout.handle 0).create layout.toEasyFileSystem build name).run
        ⟨disk, locked⟩ = .ok (some (layout.handle (names.length + 1))) ⟨later, locked⟩ ∧
      layout.Lists later (names ++ [name]) (Function.update
        (Function.update contents (names.length + 1) []) 0 (records 1 (names ++ [name]))) after ∧
      (layout.freeBlocks later).card + blocksOf (direntSz * (names.length + 1)) =
        (layout.freeBlocks disk).card + blocksOf (direntSz * names.length) := by
  have isRoot : 0 < names.length + 1 := Nat.succ_pos _
  have few := lists.length_le
  have ranFind := run_readDiskInode (lists.holds.slot_unlocked isRoot isOpen) notFound
  have ranAlloc := run_allocInode lists.holds.inodeBits isOpen room.inBitmap (by omega)
  have ranPos := run_getDiskInodePos room.inArea build
  obtain ⟨image, isImage⟩ : ∃ image, DiskInode.initializeAs (layout.inodeAt
      (layout.inodeBitmap.setBit ⟨disk, locked⟩ (names.length + 1)).disk (names.length + 1))
        .file = image := ⟨_, rfl⟩
  have ranInit : (modifyInodeAt (layout.slotBlock (names.length + 1))
      (slotOffset (names.length + 1)) fun inode => inode.initializeAs .file).run
        ⟨(layout.inodeBitmap.setBit ⟨disk, locked⟩ (names.length + 1)).disk, locked⟩ =
          .ok () ⟨layout.withInode disk (names.length + 1) image, locked⟩ := by
    rw [run_modifyInodeAt (isOpen _ (lt_totalBlocks (slotBlock_lt room.inArea)))
      (slotOffset_add _), ← isImage]
    rfl
  have unused : image.Unused := isImage ▸ DiskInode.unused_initializeAs _ _
  have added := lists.holds.addInode room.inArea room.inBitmap image unused
    fun noInode => absurd noInode (by omega)
  have sameRoot : Function.update contents (names.length + 1) [] 0 = records 1 names := by
    rw [Function.update_of_ne isRoot.ne, lists.root]
  have enough := room.enough
  rw [← freeBlocks_withInode room.inArea room.inBitmap image] at enough
  obtain ⟨later, after, ranAppend, laterHolds, card⟩ := added.run_appendEntry (Nat.succ_pos _)
    isOpen build sameRoot short room.few enough
  rw [freeBlocks_withInode room.inArea room.inBitmap image] at card
  refine ⟨later, after, ?_, ⟨?_, Function.update_self _ _ _⟩, card⟩
  · rw [Inode.create, run_bind_ok ranFind, if_neg (by simp), run_bind_ok ranAlloc,
      run_bind_ok (ranPos _)]
    simp only
    rw [run_bind_ok ranInit, run_bind_ok ranAppend, run_bind_ok (ranPos _), run_pure]
    rfl
  · rw [List.length_append, List.length_singleton]
    exact laterHolds

/-- A new name is created. -/
theorem Lists.run_create (room : layout.Room disk names.length)
    (fits : ∀ name ∈ names, DirEntry.Fits name) (short : name.len ≤ nameLengthLimit + 1)
    (isNew : name ∉ names) :
    ∃ later after, ((layout.handle 0).create layout.toEasyFileSystem build name).run
        ⟨disk, locked⟩ = .ok (some (layout.handle (names.length + 1))) ⟨later, locked⟩ ∧
      layout.Lists later (names ++ [name]) (Function.update
        (Function.update contents (names.length + 1) []) 0 (records 1 (names ++ [name]))) after ∧
      (layout.freeBlocks later).card + blocksOf (direntSz * (names.length + 1)) =
        (layout.freeBlocks disk).card + blocksOf (direntSz * names.length) :=
  lists.run_create_of_none isOpen build room short
    (lists.run_findInodeId_none isOpen build fits isNew)

/-- A name that is there is not created again. -/
theorem Lists.run_create_again (fits : ∀ name ∈ names, DirEntry.Fits name) (nodup : names.Nodup)
    (isName : name ∈ names) :
    ((layout.handle 0).create layout.toEasyFileSystem build name).run ⟨disk, locked⟩ =
      .ok none ⟨disk, locked⟩ := by
  obtain ⟨index, inside, isIndex⟩ := List.mem_iff_getElem.mp isName
  have found := lists.run_findInodeId_some isOpen build fits nodup
    (List.getElem?_eq_some_iff.mpr ⟨inside, isIndex⟩)
  rw [Inode.create, run_bind_ok
    (run_readDiskInode (lists.holds.slot_unlocked (Nat.succ_pos _) isOpen) found),
    if_pos (by simp), run_pure]

end Creation

end Layout

end EasyFs

end OSWorkspace
