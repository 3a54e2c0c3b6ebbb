import OSWorkspace.ByteBuffers

/-!
# Fixed-width records in byte buffers

A record type is stored as a fixed number of bytes.  A buffer holds single
records at given offsets and tables of consecutive records; storing a table
and loading it back returns the records.
-/

namespace OSWorkspace

/-- The bytes of consecutive little-endian fields, each given by its width and
its value. -/
def fieldBytes : List (Nat × Nat) → Nat → UInt8
  | [], _ => 0
  | (width, value) :: fields, index =>
      if index < width then leByte value index else fieldBytes fields (index - width)

theorem leValue_fieldBytes (width value : Nat) (fields : List (Nat × Nat)) :
    leValue width (fieldBytes ((width, value) :: fields)) = value % 256 ^ width := by
  rw [← leValue_leByte]
  apply leValue_congr
  intro index indexLt
  simp [fieldBytes, indexLt]

theorem fieldBytes_add (width value : Nat) (fields : List (Nat × Nat)) (index : Nat) :
    fieldBytes ((width, value) :: fields) (width + index) = fieldBytes fields index := by
  simp [fieldBytes]

/-- A type stored in a fixed number of bytes. -/
structure Record (α : Type) where
  width : Nat
  encode : α → Nat → UInt8
  decode : (Nat → UInt8) → α
  decode_encode : ∀ value, decode (encode value) = value
  decode_congr : ∀ first second : Nat → UInt8,
    (∀ index < width, first index = second index) → decode first = decode second

namespace Bytes

variable {size : Nat} {α : Type}

/-- The record at an offset. -/
def load (record : Record α) (buffer : Bytes size) (offset : Nat) : α :=
  record.decode fun index => buffer.get (offset + index)

/-- Overwrite the record at an offset. -/
def store (record : Record α) (buffer : Bytes size) (offset : Nat) (value : α) : Bytes size :=
  buffer.overlay offset record.width (record.encode value)

/-- The first `count` records of the table at an offset. -/
def loadTable (record : Record α) (buffer : Bytes size) (offset count : Nat) : List α :=
  (List.range count).map fun index => buffer.load record (offset + index * record.width)

/-- Store records one after the other from an offset on. -/
def storeTable (record : Record α) : Bytes size → Nat → List α → Bytes size
  | buffer, _, [] => buffer
  | buffer, offset, value :: values =>
      storeTable record (buffer.store record offset value) (offset + record.width) values

variable (record : Record α)

theorem load_congr {otherSize : Nat} {first : Bytes size} {second : Bytes otherSize}
    {offset otherOffset : Nat}
    (agree : ∀ index < record.width,
      first.get (offset + index) = second.get (otherOffset + index)) :
    first.load record offset = second.load record otherOffset :=
  record.decode_congr _ _ agree

theorem load_store (buffer : Bytes size) {offset : Nat} (value : α)
    (fits : offset + record.width ≤ size) :
    (buffer.store record offset value).load record offset = value := by
  have sameBytes : (buffer.store record offset value).load record offset =
      record.decode (record.encode value) := by
    apply record.decode_congr
    intro index indexLt
    rw [store, get_overlay_inside _ _ (by omega) (by omega) (by omega)]
    congr 1
    omega
  rw [sameBytes, record.decode_encode]

theorem get_store_outside (buffer : Bytes size) {offset index : Nat} (value : α)
    (outside : index < offset ∨ offset + record.width ≤ index) :
    (buffer.store record offset value).get index = buffer.get index :=
  get_overlay_outside _ _ outside

theorem get_storeTable_outside (values : List α) (buffer : Bytes size) (offset : Nat)
    {index : Nat} (outside : index < offset ∨ offset + values.length * record.width ≤ index) :
    (storeTable record buffer offset values).get index = buffer.get index := by
  induction values generalizing buffer offset with
  | nil => rfl
  | cons value values ih =>
      simp only [List.length_cons, Nat.succ_mul] at outside
      rw [storeTable, ih _ _ (by omega), get_store_outside record _ _ (by omega)]

theorem load_storeTable_outside {β : Type} (other : Record β) (values : List α)
    (buffer : Bytes size) {offset start : Nat}
    (outside : start + other.width ≤ offset ∨
      offset + values.length * record.width ≤ start) :
    (storeTable record buffer offset values).load other start = buffer.load other start := by
  apply load_congr
  intro index indexLt
  exact get_storeTable_outside record _ _ _ (by omega)

@[simp]
theorem length_loadTable (buffer : Bytes size) (offset count : Nat) :
    (buffer.loadTable record offset count).length = count := by
  simp [loadTable]

theorem loadTable_succ (buffer : Bytes size) (offset count : Nat) :
    buffer.loadTable record offset (count + 1) =
      buffer.load record offset :: buffer.loadTable record (offset + record.width) count := by
  simp only [loadTable, List.range_succ_eq_map, List.map_cons, List.map_map, Nat.zero_mul,
    Nat.add_zero]
  congr 1
  apply List.map_congr_left
  intro index _
  simp only [Function.comp_apply, Nat.succ_mul]
  congr 1
  omega

/-- Loading back a stored table. -/
theorem loadTable_storeTable (values : List α) (buffer : Bytes size) (offset : Nat)
    (fits : offset + values.length * record.width ≤ size) :
    (storeTable record buffer offset values).loadTable record offset values.length = values := by
  induction values generalizing buffer offset with
  | nil => rfl
  | cons value values ih =>
      simp only [List.length_cons, Nat.succ_mul] at fits
      rw [List.length_cons, loadTable_succ, storeTable, ih _ _ (by omega),
        load_storeTable_outside record record _ _ (by omega), load_store record _ _ (by omega)]

end Bytes

end OSWorkspace
