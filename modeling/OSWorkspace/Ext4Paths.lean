import OSWorkspace.Ext4Directories

/-!
# Paths

A path is cut at its slashes, and each segment is looked up in the inode that the
segments before it lead to.  Cutting a UTF-8 string at slashes leaves UTF-8 strings,
so no segment is lost.
-/

namespace OSWorkspace

/-- The parts of a path between slashes that are not empty. -/
def Str.segments (path : Str) : List Str :=
  ((path.bytes.splitOn 0x2F).filter fun bytes => !bytes.isEmpty).filterMap Str.fromUtf8

theorem utf8Tail_high {byte : UInt8} {pending : List (UInt8 × UInt8)}
    (tail : utf8Tail byte = some pending) : ∀ range ∈ pending, (0x80 : UInt8) ≤ range.1 := by
  unfold utf8Tail at tail
  split_ifs at tail <;> cases tail <;> simp

/-- A byte that is no slash begins the first part. -/
theorem splitOn_slash_cons {byte : UInt8} {bytes first : List UInt8} {rest : List (List UInt8)}
    (notSlash : byte ≠ 0x2F) (cut : bytes.splitOn 0x2F = first :: rest) :
    (byte :: bytes).splitOn 0x2F = (byte :: first) :: rest := by
  rw [List.splitOn, List.splitOnP_cons_eq_if_modifyHead, if_neg (by simpa using notSlash),
    ← List.splitOn, cut]
  rfl

/-- The parts of a string cut at slashes are strings; the first may complete a
character. -/
theorem valid_splitOn (bytes : List UInt8) : ∀ pending : List (UInt8 × UInt8),
    (∀ range ∈ pending, (0x80 : UInt8) ≤ range.1) → validUtf8From pending bytes = true →
      ∃ first rest, bytes.splitOn 0x2F = first :: rest ∧
        validUtf8From pending first = true ∧ ∀ part ∈ rest, validUtf8 part = true := by
  induction bytes with
  | nil =>
      intro pending _ valid
      exact ⟨[], [], rfl, valid, by simp⟩
  | cons byte bytes ih =>
      intro pending high valid
      cases pending with
      | nil =>
          rw [validUtf8From] at valid
          by_cases isSlash : byte = 0x2F
          · subst isSlash
            obtain ⟨first, rest, cut, firstValid, restValid⟩ := ih [] (by simp) valid
            refine ⟨[], first :: rest, ?_, rfl, ?_⟩
            · rw [← cut]
              rfl
            · rintro part (_ | ⟨_, isRest⟩)
              · exact firstValid
              · exact restValid part isRest
          · cases tail : utf8Tail byte with
            | none =>
                rw [tail] at valid
                cases valid
            | some pending =>
                rw [tail] at valid
                obtain ⟨first, rest, cut, firstValid, restValid⟩ :=
                  ih pending (utf8Tail_high tail) valid
                refine ⟨byte :: first, rest, splitOn_slash_cons isSlash cut, ?_, restValid⟩
                rw [validUtf8From, tail]
                exact firstValid
      | cons range pending =>
          obtain ⟨low, top⟩ := range
          rw [validUtf8From, Bool.and_eq_true, decide_eq_true_eq] at valid
          obtain ⟨inRange, restOk⟩ := valid
          have isHigh : (0x80 : UInt8) ≤ low := high (low, top) List.mem_cons_self
          have notSlash : byte ≠ 0x2F := by
            rintro rfl
            exact absurd (UInt8.le_trans isHigh inRange.1) (by decide)
          obtain ⟨first, rest, cut, firstValid, restValid⟩ :=
            ih pending (fun range isMem => high range (List.mem_cons_of_mem _ isMem)) restOk
          refine ⟨byte :: first, rest, splitOn_slash_cons notSlash cut, ?_, restValid⟩
          rw [validUtf8From, Bool.and_eq_true, decide_eq_true_eq]
          exact ⟨inRange, firstValid⟩

theorem Str.map_bytes_filterMap {parts : List (List UInt8)}
    (valid : ∀ part ∈ parts, validUtf8 part = true) :
    (parts.filterMap Str.fromUtf8).map Str.bytes = parts := by
  induction parts with
  | nil => rfl
  | cons part parts ih =>
      have partValid := valid part List.mem_cons_self
      have decoded : Str.fromUtf8 part = some ⟨part, partValid⟩ := by
        rw [Str.fromUtf8, dif_pos partValid]
      rw [List.filterMap_cons_some decoded, List.map_cons,
        ih fun other isOther => valid other (List.mem_cons_of_mem _ isOther)]

/-- No part of a path is lost. -/
theorem Str.segments_bytes (path : Str) : path.segments.map Str.bytes =
    (path.bytes.splitOn 0x2F).filter fun bytes => !bytes.isEmpty := by
  obtain ⟨first, rest, cut, firstValid, restValid⟩ :=
    valid_splitOn path.bytes [] (by simp) path.valid
  apply Str.map_bytes_filterMap
  intro part isPart
  have isPart := (List.mem_filter.mp isPart).1
  rw [cut] at isPart
  rcases List.mem_cons.mp isPart with rfl | isRest
  · exact firstValid
  · exact restValid part isRest

namespace Ext4

open Exec

/-- The device number in the first two words of `i_block`. -/
def Ext4Inode.specialRdev (inode : Ext4Inode) : Nat :=
  inode.blockData.uint 4 4 * 2 ^ 32 + inode.blockData.uint 0 4

/-- The inode of the root directory. -/
def rootInode : Call Inode := do
  let (blockId, offset) ← expect ((← get).fs.getInodePos ext4RootIno)
  return ⟨ext4RootIno, blockId, offset⟩

namespace Inode

/-- Look the segments up one behind the other; `.` stays where it is. -/
def findSegments (self : Inode) : List Str → Call (Option Inode)
  | [] => return some self
  | segment :: segments => do
      if segment = .dot then
        self.findSegments segments
      else
        match ← self.find segment with
        | some next => next.findSegments segments
        | none => return none

/-- Find an inode by a path relative to `self` (supports absolute paths too). -/
def findPath (self : Inode) (path : Str) : Call (Option Inode) := do
  let start ← if path.bytes.head? = some 0x2F then rootInode else pure self
  start.findSegments path.segments

/-- Get inode mode bits (file type + permissions). -/
def mode (self : Inode) : Call Nat := return (← self.readDiskInode).iMode

/-- Get hard-link count. -/
def linkCount (self : Inode) : Call Nat := return (← self.readDiskInode).iLinksCount

/-- Get raw device id for special files. -/
def specialRdev (self : Inode) : Call Nat := return (← self.readDiskInode).specialRdev

/-- Update inode permission bits while keeping the file type. -/
def setMode (self : Inode) (mode : Nat) : Call Unit :=
  self.modifyDiskInode fun inode => inode.setIMode (inode.fileType ||| (mode &&& 0o7777))

end Inode

end Ext4

end OSWorkspace
