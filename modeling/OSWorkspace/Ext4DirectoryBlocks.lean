import OSWorkspace.Ext4DirectoryInsertions

/-!
# Directory blocks as lists of records

A well-formed directory block is tiled by records: a walk along the record
lengths from its start ends at its end.  On such blocks the scans of `vfs.rs`
are functions of the list of records, and entering or clearing a name replaces
a record by one or two others.
-/

namespace OSWorkspace

namespace Ext4

open Exec View

/-- A record of a directory block. -/
structure Dirent where
  inode : UInt32
  recLen : Nat
  fileType : UInt8
  name : List UInt8

namespace Dirent

/-- The fixed part of the record. -/
def entry (slot : Dirent) : Ext4DirEntry :=
  { inode := slot.inode, recLen := UInt16.ofNat slot.recLen,
    nameLen := UInt8.ofNat slot.name.length, fileType := slot.fileType }

/-- The name fits into the record, whose length is a multiple of four. -/
structure Valid (slot : Dirent) : Prop where
  fits : Ext4DirEntry.fixedSize + slot.name.length ≤ slot.recLen
  aligned : slot.recLen % 4 = 0
  short : slot.name.length ≤ ext4NameLen

/-- The record stands at a position of a block. -/
structure At (block : Block) (pos : Nat) (slot : Dirent) : Prop where
  entry : block.load Ext4DirEntry.record pos = slot.entry
  name : block.slice (pos + Ext4DirEntry.fixedSize) slot.name.length = slot.name

/-- The bytes that the name of the record needs. -/
def used (slot : Dirent) : Nat := align4 (Ext4DirEntry.fixedSize + slot.name.length)

/-- A record in use: the name, the inode and the type that it binds. -/
def content (slot : Dirent) : Option (List UInt8 × UInt32 × UInt8) :=
  if slot.inode ≠ 0 ∧ slot.name ≠ [] then some (slot.name, slot.inode, slot.fileType) else none

/-- The binding of a name that is well-formed text. -/
def binding (slot : Dirent) : Option DirBinding :=
  slot.content.bind fun (name, inode, fileType) =>
    (Str.fromUtf8 name).map fun text => ⟨text, inode.toNat, fileType⟩

theorem entry_recLen {slot : Dirent} (small : slot.recLen ≤ blockSz) :
    slot.entry.recLen.toNat = slot.recLen := by
  simp only [blockSz] at small
  rw [entry, UInt16.toNat_ofNat']
  exact Nat.mod_eq_of_lt (by omega)

theorem Valid.entry_nameLen {slot : Dirent} (valid : slot.Valid) :
    slot.entry.nameLen.toNat = slot.name.length := by
  have short := valid.short
  simp only [ext4NameLen] at short
  rw [entry, UInt8.toNat_ofNat']
  exact Nat.mod_eq_of_lt (by omega)

theorem Valid.used_le {slot : Dirent} (valid : slot.Valid) : slot.used ≤ slot.recLen := by
  have fits := valid.fits
  have aligned := valid.aligned
  rw [used, align4]
  omega

end Dirent

/-- A walk along the records from one position of a block to another. -/
def Tiled (block : Block) : Nat → List Dirent → Nat → Prop
  | start, [], stop => start = stop
  | start, slot :: slots, stop =>
      slot.Valid ∧ slot.At block start ∧ Tiled block (start + slot.recLen) slots stop

namespace Tiled

variable {block : Block}

theorem append {start stop : Nat} {first second : List Dirent} :
    Tiled block start (first ++ second) stop ↔
      ∃ middle, Tiled block start first middle ∧ Tiled block middle second stop := by
  induction first generalizing start with
  | nil =>
      constructor
      · exact fun tiled => ⟨start, rfl, tiled⟩
      · rintro ⟨middle, rfl, tiled⟩
        exact tiled
  | cons slot first ih =>
      constructor
      · rintro ⟨valid, isAt, rest⟩
        obtain ⟨middle, tiled, behind⟩ := ih.mp rest
        exact ⟨middle, ⟨valid, isAt, tiled⟩, behind⟩
      · rintro ⟨middle, ⟨valid, isAt, tiled⟩, behind⟩
        exact ⟨valid, isAt, ih.mpr ⟨middle, tiled, behind⟩⟩

theorem le {start stop : Nat} {slots : List Dirent} (tiled : Tiled block start slots stop) :
    start + 8 * slots.length ≤ stop := by
  induction slots generalizing start with
  | nil => exact Nat.le_of_eq tiled
  | cons slot slots ih =>
      obtain ⟨valid, _, rest⟩ := tiled
      have restLe := ih rest
      have fits := valid.fits
      simp only [Ext4DirEntry.fixedSize] at fits
      rw [List.length_cons]
      omega

/-- A walk reads only the bytes of its records. -/
theorem congr {other : Block} {start stop : Nat} {slots : List Dirent}
    (tiled : Tiled block start slots stop)
    (agree : ∀ index, start ≤ index → index < stop → other.get index = block.get index) :
    Tiled other start slots stop := by
  induction slots generalizing start with
  | nil => exact tiled
  | cons slot slots ih =>
      obtain ⟨valid, isAt, rest⟩ := tiled
      have restLe := rest.le
      have fits := valid.fits
      refine ⟨valid, ⟨?_, ?_⟩, ih rest fun index lower upper => agree index (by omega) upper⟩
      · rw [← isAt.entry]
        apply Bytes.load_congr
        intro index indexLt
        have width : Ext4DirEntry.record.width = Ext4DirEntry.fixedSize := rfl
        exact agree _ (by omega) (by omega)
      · rw [← isAt.name, Bytes.length_slice]
        apply Bytes.slice_congr
        intro index lower upper
        exact agree index (by omega) (by omega)

end Tiled

section Scans

variable {block : Block} {slot : Dirent} {slots : List Dirent} {start : Nat}

/-- The first record of a walk to the end of the block. -/
theorem Tiled.head (tiled : Tiled block start (slot :: slots) blockSz) :
    slot.Valid ∧ slot.At block start ∧ Tiled block (start + slot.recLen) slots blockSz ∧
      start + slot.recLen ≤ blockSz ∧ Ext4DirEntry.fixedSize ≤ slot.recLen := by
  obtain ⟨valid, isAt, rest⟩ := tiled
  have restLe := rest.le
  have fits := valid.fits
  exact ⟨valid, isAt, rest, by omega, by omega⟩

theorem scanDirents_tiled (tiled : Tiled block start slots blockSz) {fuel : Nat}
    (enough : slots.length ≤ fuel) :
    scanDirents block blockSz fuel start = slots.filterMap Dirent.binding := by
  induction slots generalizing start fuel with
  | nil =>
      have atEnd : start = blockSz := tiled
      cases fuel with
      | zero => rfl
      | succ fuel =>
          rw [scanDirents, if_neg (by rw [atEnd]; decide)]
          rfl
  | cons slot slots ih =>
      obtain ⟨valid, isAt, rest, inside, large⟩ := tiled.head
      cases fuel with
      | zero => cases enough
      | succ fuel =>
          have recLen := Dirent.entry_recLen (show slot.recLen ≤ blockSz by omega)
          have bound : direntBinding block blockSz start slot.entry = slot.binding := by
            have fits := valid.fits
            simp only [direntBinding, valid.entry_nameLen, recLen, isAt.name, Dirent.binding,
              Dirent.content]
            by_cases live : slot.inode ≠ 0 ∧ slot.name ≠ []
            · have positive : slot.entry.nameLen > 0 := by
                rw [gt_iff_lt, UInt8.lt_iff_toNat_lt, valid.entry_nameLen]
                exact List.length_pos_of_ne_nil live.2
              rw [if_pos live, if_pos ⟨live.1, positive, by omega, by omega⟩]
              rfl
            · rw [if_neg live, if_neg]
              · rfl
              · rintro ⟨isLive, positive, _⟩
                apply live
                refine ⟨isLive, ?_⟩
                rintro noName
                rw [gt_iff_lt, UInt8.lt_iff_toNat_lt, valid.entry_nameLen, noName] at positive
                exact absurd positive (by decide)
          rw [scanDirents, if_pos (by omega)]
          simp only [isAt.entry]
          rw [recLen, if_neg (by omega), bound, ih rest (by simpa using enough),
            List.filterMap_cons]
          cases slot.binding <;> rfl

/-- A record with room for an entry: a deleted one, or one in use with a long
enough rest. -/
def Dirent.Offers (slot : Dirent) (need : Nat) : Prop :=
  (slot.inode = 0 ∧ need ≤ slot.recLen) ∨ slot.used + need ≤ slot.recLen

/-- The slot that a record offers at a position. -/
def Dirent.slotAt (slot : Dirent) (pos need : Nat) : DirSlot :=
  if slot.inode = 0 ∧ need ≤ slot.recLen then .reuse pos slot.recLen
  else .split pos slot.used slot.recLen

theorem findSlot_tiled (tiled : Tiled block start slots blockSz) {fuel : Nat}
    (enough : slots.length ≤ fuel) (need : Nat) :
    (findSlot block need fuel start = none ∧ ∀ slot ∈ slots, ¬ slot.Offers need) ∨
      ∃ before slot after pos, slots = before ++ slot :: after ∧
        Tiled block start before pos ∧ slot.Offers need ∧
        findSlot block need fuel start = some (slot.slotAt pos need) := by
  induction slots generalizing start fuel with
  | nil =>
      have atEnd : start = blockSz := tiled
      refine Or.inl ⟨?_, by simp⟩
      cases fuel with
      | zero => rfl
      | succ fuel => rw [findSlot, if_neg (by rw [atEnd]; decide)]
  | cons slot slots ih =>
      obtain ⟨valid, isAt, rest, inside, large⟩ := tiled.head
      cases fuel with
      | zero => cases enough
      | succ fuel =>
          have recLen := Dirent.entry_recLen (show slot.recLen ≤ blockSz by omega)
          have inodeEq : slot.entry.inode = slot.inode := rfl
          rw [findSlot, if_pos (by omega)]
          simp only [isAt.entry, recLen, valid.entry_nameLen, inodeEq]
          rw [← Dirent.used, if_neg (by simp only [Ext4DirEntry.fixedSize] at large; omega)]
          by_cases reuse : slot.inode = 0 ∧ slot.recLen ≥ need
          · refine Or.inr ⟨[], slot, slots, start, rfl, rfl, Or.inl reuse, ?_⟩
            rw [if_pos reuse, Dirent.slotAt, if_pos reuse]
          · rw [if_neg reuse]
            by_cases splits : slot.recLen ≥ slot.used + need
            · refine Or.inr ⟨[], slot, slots, start, rfl, rfl, Or.inr splits, ?_⟩
              rw [if_pos splits, Dirent.slotAt, if_neg reuse]
            · rw [if_neg splits]
              rcases ih rest (by simpa using enough) with ⟨found, refuse⟩ |
                ⟨before, other, after, pos, rfl, walked, offers, found⟩
              · refine Or.inl ⟨found, ?_⟩
                intro other isMem
                rcases List.mem_cons.mp isMem with rfl | isLater
                · rintro (isFree | hasRest)
                  · exact reuse isFree
                  · exact splits hasRest
                · exact refuse other isLater
              · exact Or.inr ⟨slot :: before, other, after, pos, rfl, ⟨valid, isAt, walked⟩, offers,
                  found⟩

/-- The record binds the name. -/
def Dirent.Names (slot : Dirent) (name : List UInt8) : Prop :=
  slot.inode ≠ 0 ∧ slot.name ≠ [] ∧ slot.name = name

theorem findDirent_tiled (tiled : Tiled block start slots blockSz) {fuel : Nat}
    (enough : slots.length ≤ fuel) (name : List UInt8) :
    (findDirent block name fuel start = some none ∧ ∀ slot ∈ slots, ¬ slot.Names name) ∨
      ∃ before slot after pos, slots = before ++ slot :: after ∧
        Tiled block start before pos ∧ (∀ other ∈ before, ¬ other.Names name) ∧
        slot.Names name ∧ findDirent block name fuel start = some (some pos) := by
  induction slots generalizing start fuel with
  | nil =>
      have atEnd : start = blockSz := tiled
      refine Or.inl ⟨?_, by simp⟩
      cases fuel with
      | zero => rfl
      | succ fuel => rw [findDirent, if_neg (by rw [atEnd]; decide)]
  | cons slot slots ih =>
      obtain ⟨valid, isAt, rest, inside, large⟩ := tiled.head
      cases fuel with
      | zero => cases enough
      | succ fuel =>
          have recLen := Dirent.entry_recLen (show slot.recLen ≤ blockSz by omega)
          have inodeEq : slot.entry.inode = slot.inode := rfl
          have notZero : slot.entry.recLen ≠ 0 := by
            rw [ne_eq, ← UInt16.toNat_inj, recLen]
            simp only [Ext4DirEntry.fixedSize] at large
            exact fun isZero => absurd (show slot.recLen = 0 from isZero) (by omega)
          have fits := valid.fits
          have live : (slot.entry.inode ≠ 0 ∧ slot.entry.nameLen > 0) ↔
              slot.inode ≠ 0 ∧ slot.name ≠ [] := by
            rw [gt_iff_lt, UInt8.lt_iff_toNat_lt, valid.entry_nameLen, inodeEq]
            exact and_congr_right fun _ => List.length_pos_iff
          rw [findDirent, if_pos (by omega)]
          simp only [isAt.entry, recLen, valid.entry_nameLen, isAt.name, live]
          rw [if_neg notZero, if_neg (by omega)]
          by_cases names : slot.Names name
          · refine Or.inr ⟨[], slot, slots, start, rfl, rfl, by simp, names, ?_⟩
            rw [if_pos ⟨⟨names.1, names.2.1⟩, names.2.2⟩]
          · rw [if_neg fun both => names ⟨both.1.1, both.1.2, both.2⟩]
            rcases ih rest (by simpa using enough) with ⟨found, absent⟩ |
              ⟨before, other, after, pos, rfl, walked, others, isNamed, found⟩
            · refine Or.inl ⟨found, ?_⟩
              intro other isMem
              rcases List.mem_cons.mp isMem with rfl | isLater
              · exact names
              · exact absent other isLater
            · refine Or.inr ⟨slot :: before, other, after, pos, rfl, ⟨valid, isAt, walked⟩, ?_,
                isNamed, found⟩
              intro earlier isMem
              rcases List.mem_cons.mp isMem with rfl | isLater
              · exact names
              · exact others earlier isLater

end Scans

theorem Tiled.stop_unique {block : Block} {slots : List Dirent} {start first second : Nat}
    (toFirst : Tiled block start slots first) (toSecond : Tiled block start slots second) :
    first = second := by
  induction slots generalizing start with
  | nil => exact Eq.trans (Eq.symm toFirst) toSecond
  | cons slot slots ih => exact ih toFirst.2.2 toSecond.2.2

/-- Writing over a record leaves the others. -/
theorem Tiled.replace {block other : Block} {before after replacement : List Dirent}
    {slot : Dirent} {pos : Nat} (tiled : Tiled block 0 (before ++ slot :: after) blockSz)
    (walked : Tiled block 0 before pos)
    (agree : ∀ index, index < pos ∨ pos + slot.recLen ≤ index → other.get index = block.get index)
    (replaced : Tiled other pos replacement (pos + slot.recLen)) :
    Tiled other 0 (before ++ (replacement ++ after)) blockSz := by
  obtain ⟨middle, toMiddle, rest⟩ := Tiled.append.mp tiled
  obtain rfl := toMiddle.stop_unique walked
  have restTiled := rest.2.2
  refine Tiled.append.mpr ⟨middle, walked.congr fun index _ upper => agree index (Or.inl upper),
    Tiled.append.mpr ⟨_, replaced, restTiled.congr fun index lower _ => agree index (Or.inr lower)⟩⟩

section Edits

variable (block : Block) {pos : Nat}

theorem Block.get_putEntry {recLen : Nat} (inodeNum : Nat) (fileType : UInt8) {name : Str}
    (fits : Ext4DirEntry.fixedSize + name.len ≤ recLen) {index : Nat}
    (outside : index < pos ∨ pos + recLen ≤ index) :
    (Block.putEntry block pos recLen inodeNum fileType name).get index = block.get index := by
  have length : (name.bytes ++ List.replicate (recLen - Ext4DirEntry.fixedSize - name.len)
      (0 : UInt8)).length = recLen - Ext4DirEntry.fixedSize := by
    rw [List.length_append, List.length_replicate, ← Str.len]
    omega
  have width : Ext4DirEntry.record.width = Ext4DirEntry.fixedSize := rfl
  rw [Block.putEntry, Bytes.write, Bytes.get_overlay_outside _ _ (by rw [length]; omega),
    Bytes.get_store_outside _ _ _ (by omega)]

theorem Block.putEntry_at {recLen : Nat} (inodeNum : Nat) (fileType : UInt8) {name : Str}
    (fits : Ext4DirEntry.fixedSize + name.len ≤ recLen) (inside : pos + recLen ≤ blockSz) :
    Dirent.At (Block.putEntry block pos recLen inodeNum fileType name) pos
      ⟨UInt32.ofNat inodeNum, recLen, fileType, name.bytes⟩ := by
  have width : Ext4DirEntry.record.width = Ext4DirEntry.fixedSize := rfl
  constructor
  · rw [Block.putEntry, Bytes.write]
    have kept := Bytes.load_congr Ext4DirEntry.record
      (fun index (indexLt : index < Ext4DirEntry.record.width) =>
        @Bytes.get_overlay_outside _ (block.store Ext4DirEntry.record pos
            { inode := UInt32.ofNat inodeNum, recLen := UInt16.ofNat recLen,
              nameLen := UInt8.ofNat name.len, fileType := fileType })
          (pos + Ext4DirEntry.fixedSize)
          (name.bytes ++ List.replicate (recLen - Ext4DirEntry.fixedSize - name.len) 0).length
          (pos + index)
          (fun index => (name.bytes ++ List.replicate
            (recLen - Ext4DirEntry.fixedSize - name.len) 0).getD index 0)
          (Or.inl (by omega)))
    rw [kept, Bytes.load_store _ _ _ (by omega)]
    rfl
  · have lengthLe : name.bytes.length ≤ recLen - Ext4DirEntry.fixedSize := by
      rw [← Str.len]
      omega
    apply List.ext_getElem
    · rw [Bytes.length_slice]
    · intro index indexLt _
      rw [Bytes.length_slice] at indexLt
      change index < name.bytes.length at indexLt
      simp only [Bytes.slice, List.getElem_map, List.getElem_range]
      rw [Block.putEntry, Bytes.write, Bytes.get_overlay_inside _ _ (by omega)
          (by rw [List.length_append]; omega) (by omega),
        Nat.add_sub_cancel_left, List.getD_eq_getElem?_getD, List.getElem?_append_left indexLt,
        List.getElem?_eq_getElem indexLt]
      rfl

/-- Changing the fixed part of a record. -/
theorem Dirent.At.store {slot changed : Dirent} (isAt : slot.At block pos)
    (inside : pos + Ext4DirEntry.fixedSize ≤ blockSz) (sameName : changed.name = slot.name) :
    Dirent.At (block.store Ext4DirEntry.record pos changed.entry) pos changed := by
  have width : Ext4DirEntry.record.width = Ext4DirEntry.fixedSize := rfl
  refine ⟨Bytes.load_store _ _ _ (by omega), ?_⟩
  have sameSlice : (block.store Ext4DirEntry.record pos changed.entry).slice
      (pos + Ext4DirEntry.fixedSize) slot.name.length =
        block.slice (pos + Ext4DirEntry.fixedSize) slot.name.length := by
    apply Bytes.slice_congr
    intro index lower _
    exact Bytes.get_store_outside _ _ _ (by omega)
  rw [sameName, sameSlice, isAt.name]

end Edits

/-- What a filled record becomes. -/
def Dirent.replacement (slot : Dirent) (need inodeNum : Nat) (fileType : UInt8) (name : Str) :
    List Dirent :=
  if slot.inode = 0 ∧ need ≤ slot.recLen then
    [⟨UInt32.ofNat inodeNum, slot.recLen, fileType, name.bytes⟩]
  else
    [{ slot with recLen := slot.used },
      ⟨UInt32.ofNat inodeNum, slot.recLen - slot.used, fileType, name.bytes⟩]

section Filling

variable {block : Block} {before after : List Dirent} {slot : Dirent} {pos : Nat}
  (tiled : Tiled block 0 (before ++ slot :: after) blockSz) (walked : Tiled block 0 before pos)

include tiled walked

/-- The record behind a walk. -/
theorem Tiled.at_walked : slot.Valid ∧ slot.At block pos ∧ pos + slot.recLen ≤ blockSz := by
  obtain ⟨middle, toMiddle, rest⟩ := Tiled.append.mp tiled
  obtain rfl := toMiddle.stop_unique walked
  obtain ⟨valid, isAt, _, inside, _⟩ := rest.head
  exact ⟨valid, isAt, inside⟩

variable {name : Str} (short : name.len ≤ ext4NameLen) (inodeNum : Nat) (fileType : UInt8)

include short

theorem Tiled.reuse (room : align4 (Ext4DirEntry.fixedSize + name.len) ≤ slot.recLen) :
    Tiled (Block.putEntry block pos slot.recLen inodeNum fileType name) 0
      (before ++ ([⟨UInt32.ofNat inodeNum, slot.recLen, fileType, name.bytes⟩] ++ after))
      blockSz := by
  obtain ⟨valid, _, inside⟩ := tiled.at_walked walked
  have fits : Ext4DirEntry.fixedSize + name.len ≤ slot.recLen := by
    rw [align4] at room
    omega
  refine tiled.replace walked (fun index outside => Block.get_putEntry _ _ _ fits outside) ?_
  exact ⟨⟨fits, valid.aligned, short⟩, Block.putEntry_at _ _ _ fits inside, rfl⟩

theorem Tiled.split
    (room : slot.used + align4 (Ext4DirEntry.fixedSize + name.len) ≤ slot.recLen) :
    Tiled (Block.putEntry (block.store Ext4DirEntry.record pos
          ({ slot with recLen := slot.used } : Dirent).entry)
        (pos + slot.used) (slot.recLen - slot.used) inodeNum fileType name) 0
      (before ++ ([{ slot with recLen := slot.used },
        ⟨UInt32.ofNat inodeNum, slot.recLen - slot.used, fileType, name.bytes⟩] ++ after))
      blockSz := by
  obtain ⟨valid, isAt, inside⟩ := tiled.at_walked walked
  have width : Ext4DirEntry.record.width = Ext4DirEntry.fixedSize := rfl
  have usedRoom : Ext4DirEntry.fixedSize + slot.name.length ≤ slot.used ∧ slot.used % 4 = 0 := by
    rw [Dirent.used, align4]
    omega
  have aligned := valid.aligned
  have fits : Ext4DirEntry.fixedSize + name.len ≤ slot.recLen - slot.used := by
    rw [align4] at room
    omega
  have shortened : Dirent.At (block.store Ext4DirEntry.record pos
      ({ slot with recLen := slot.used } : Dirent).entry) pos { slot with recLen := slot.used } :=
    isAt.store block (by omega) rfl
  refine tiled.replace walked ?_ ⟨⟨usedRoom.1, usedRoom.2, valid.short⟩, ?_, ?_, ?_, ?_⟩
  · intro index outside
    rw [Block.get_putEntry _ _ _ fits (by omega), Bytes.get_store_outside _ _ _ (by omega)]
  · -- The new record lies behind the shortened one.
    have alone : Tiled (block.store Ext4DirEntry.record pos
        ({ slot with recLen := slot.used } : Dirent).entry) pos [{ slot with recLen := slot.used }]
        (pos + slot.used) := ⟨⟨usedRoom.1, usedRoom.2, valid.short⟩, shortened, rfl⟩
    exact (alone.congr fun index _ upper =>
      Block.get_putEntry _ _ _ fits (Or.inl upper)).2.1
  · exact ⟨fits, by change (slot.recLen - slot.used) % 4 = 0; omega, short⟩
  · exact Block.putEntry_at _ _ _ fits (by omega)
  · change pos + slot.used + (slot.recLen - slot.used) = pos + slot.recLen
    omega

/-- Filling the slot that a record offers replaces the record. -/
theorem run_fillSlot_tiled {volume : Volume} {pblock : Nat}
    (held : volume.disk pblock = block)
    (offers : slot.Offers (align4 (Ext4DirEntry.fixedSize + name.len))) :
    ∃ filled, (fillSlot pblock inodeNum fileType name
          (slot.slotAt pos (align4 (Ext4DirEntry.fixedSize + name.len)))).run volume =
        .ok () (volume.putBlock pblock filled) ∧
      Tiled filled 0 (before ++ (slot.replacement (align4 (Ext4DirEntry.fixedSize + name.len))
        inodeNum fileType name ++ after)) blockSz := by
  obtain ⟨valid, isAt, inside⟩ := tiled.at_walked walked
  rw [Dirent.slotAt, Dirent.replacement]
  by_cases reuse : slot.inode = 0 ∧ align4 (Ext4DirEntry.fixedSize + name.len) ≤ slot.recLen
  · rw [if_pos reuse, if_pos reuse, fillSlot,
      run_dirWriteEntryAt volume pblock pos slot.recLen inodeNum fileType short reuse.2,
      if_pos inside, held]
    exact ⟨_, rfl, tiled.reuse walked short inodeNum fileType reuse.2⟩
  · have room := offers.resolve_left reuse
    have usedLe := valid.used_le
    have shortened : ({ slot.entry with recLen := UInt16.ofNat slot.used } : Ext4DirEntry) =
        ({ slot with recLen := slot.used } : Dirent).entry := rfl
    rw [if_neg reuse, if_neg reuse, fillSlot, run_bind_ok (run_readBlock _ _),
      run_bind_ok (run_writeBlock _ _ _), held, isAt.entry, shortened,
      run_dirWriteEntryAt _ pblock (pos + slot.used) (slot.recLen - slot.used) inodeNum fileType
        short (by omega), if_pos (by omega), Volume.putBlock_putBlock]
    have stored : (volume.putBlock pblock (block.store Ext4DirEntry.record pos
        ({ slot with recLen := slot.used } : Dirent).entry)).disk pblock =
          block.store Ext4DirEntry.record pos
            ({ slot with recLen := slot.used } : Dirent).entry :=
      Function.update_self _ _ _
    rw [stored]
    exact ⟨_, rfl, tiled.split walked short inodeNum fileType room⟩

end Filling

end Ext4

end OSWorkspace
