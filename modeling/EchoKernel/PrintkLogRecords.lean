import EchoKernel.LabelledRun
import EchoKernel.PrintkLog

namespace EchoKernel.Printk

open List LittleEndian

/-!
# The records of the log buffer

Records lie in a row from the first index to the next one, with at most one
jump to the start of the buffer. Storing a record whose lengths fit into its
size does not touch the others.
-/

open ArrayWrites LabelledRun

section

/-- A record as it was stored. -/
structure Record where
  text : List Byte
  dict : List Byte
  deriving Repr, DecidableEq

/-- A record is stored at an index. -/
structure Placed (memory : Nat → Byte) (idx size : Nat) (record : Record) : Prop where
  len : msgLen memory idx = size
  textLen : msgTextLen memory idx = record.text.length
  dictLen : msgDictLen memory idx = record.dict.length
  text : load memory (idx + headerSize) record.text.length = record.text
  dict : load memory (idx + headerSize + record.text.length) record.dict.length = record.dict
  fits : headerSize + record.text.length + record.dict.length ≤ size

/-- Records that lie behind each other. -/
def Linear (memory : Nat → Byte) : Nat → List Record → Nat → Prop
  | low, [], high => low = high
  | low, record :: rest, high =>
    ∃ size, Placed memory low size record ∧ Linear memory (low + size) rest high

variable {memory other : Nat → Byte} {idx size low high : Nat}
variable {record : Record} {records more : List Record}

theorem Placed.positive (placed : Placed memory idx size record) : 0 < size := by
  have fits := placed.fits
  rw [headerSize] at fits
  omega

theorem Linear.le (linear : Linear memory low records high) : low ≤ high := by
  induction records generalizing low with
  | nil => exact linear.le
  | cons record rest inductionHypothesis =>
    obtain ⟨size, _, others⟩ := linear
    exact (Nat.le_add_right _ _).trans (inductionHypothesis others)

theorem Linear.lt
    (linear : Linear memory low records high)
    (nonempty : records ≠ []) :
    low < high := by
  cases records with
  | nil => exact absurd rfl nonempty
  | cons record rest =>
    obtain ⟨size, placed, others⟩ := linear
    have order := others.le
    have positive := placed.positive
    omega

theorem field_congr
    {place : Nat}
    (same : ∀ cell, place ≤ cell → cell < place + 2 → memory cell = other cell) :
    field memory place = field other place := by
  rw [field, field, load_congr same]

theorem Placed.congr
    (placed : Placed memory idx size record)
    (same : ∀ cell, idx ≤ cell → cell < idx + size → other cell = memory cell) :
    Placed other idx size record := by
  have fits := placed.fits
  rw [headerSize] at fits
  refine ⟨?_, ?_, ?_, ?_, ?_, placed.fits⟩
  · rw [← placed.len]
    exact field_congr fun cell _ _ => same cell (by omega) (by omega)
  · rw [← placed.textLen]
    exact field_congr fun cell _ _ => same cell (by omega) (by omega)
  · rw [← placed.dictLen]
    exact field_congr fun cell _ _ => same cell (by omega) (by omega)
  · refine Eq.trans (load_congr fun cell reaches inside => ?_) placed.text
    rw [headerSize] at reaches inside
    exact same cell (by omega) (by omega)
  · refine Eq.trans (load_congr fun cell reaches inside => ?_) placed.dict
    rw [headerSize] at reaches inside
    exact same cell (by omega) (by omega)

theorem Linear.congr
    (linear : Linear memory low records high)
    (same : ∀ cell, low ≤ cell → cell < high → other cell = memory cell) :
    Linear other low records high := by
  induction records generalizing low with
  | nil => exact linear
  | cons record rest inductionHypothesis =>
    obtain ⟨size, placed, others⟩ := linear
    have order := others.le
    refine ⟨size, placed.congr fun cell reaches inside =>
      same cell reaches (by omega), inductionHypothesis others ?_⟩
    exact fun cell reaches inside => same cell (by omega) inside

theorem linear_append
    {middle : Nat}
    (first : Linear memory low records middle)
    (second : Linear memory middle more high) :
    Linear memory low (records ++ more) high := by
  induction records generalizing low with
  | nil =>
    rw [show low = middle from first]
    exact second
  | cons record rest inductionHypothesis =>
    obtain ⟨size, placed, others⟩ := first
    exact ⟨size, placed, inductionHypothesis others⟩

end

variable {call : StoreCall} {layout : Layout} {idx : Nat}
variable {memory : Nat → Byte} {before : List (Write Byte)}

/-- The lengths of a layout fit into its size. -/
structure Fitting (call : StoreCall) (layout : Layout) : Prop where
  room : headerSize + (recordText call layout).length + layout.dictLen + layout.padLen ≤ layout.size
  isU16 : layout.size < 2 ^ 16
  dict : layout.dictLen ≤ call.dict.length

theorem length_recordText :
    (recordText call layout).length =
    call.tbuf.length + (lineText call layout).length + layout.trunc.length := by
  rw [recordText, length_append, length_append]

theorem Fitting.length_recordDict
    (fitting : Fitting call layout) :
    (recordDict call layout).length = layout.dictLen := by
  rw [recordDict, length_take, Nat.min_eq_left fitting.dict]

/-- A record is written only inside its size. -/
theorem Fitting.recordWrites_inside
    {write : Write Byte}
    {cell : Nat}
    (fitting : Fitting call layout)
    (member : write ∈ recordWrites call layout idx)
    (covers : write.Covers cell) :
    idx ≤ cell ∧ cell < idx + layout.size := by
  have room := fitting.room
  have dict := fitting.length_recordDict
  rw [length_recordText, headerSize] at room
  simp only [recordWrites, headerSize, mem_cons, not_mem_nil, or_false] at member
  rw [Write.Covers] at covers
  rcases member with rfl | rfl | rfl | rfl | rfl | rfl | rfl | rfl | rfl | rfl | rfl | rfl <;>
    simp only [length_encode, length_cons, length_nil, length_replicate] at covers <;>
    omega

theorem field_of_load
    {place value : Nat}
    (loads : load memory place 2 = encode 2 value)
    (isU16 : value < 2 ^ 16) :
    field memory place = value := by
  rw [field, loads]
  exact decode_encode isU16

/-- What a write of the record leaves in its range. -/
theorem load_recordWrites
    {start : Nat}
    {values : List Byte}
    (place : Nat)
    (isWrite : (recordWrites call layout idx)[place]? = some (start, values))
    (apart : ∀ write ∈ (recordWrites call layout idx).drop (place + 1), start + values.length ≤
      write.1 ∨ write.1 + write.2.length ≤ start) :
    load (storeAll memory (before ++ recordWrites call layout idx)) start
    values.length = values := by
  obtain ⟨inside, isWrite⟩ := List.getElem?_eq_some_iff.mp isWrite
  have split : recordWrites call layout idx = (recordWrites call layout idx).take place ++
      (start, values) :: (recordWrites call layout idx).drop (place + 1) := by
    rw [← isWrite, getElem_cons_drop, take_append_drop]
  rw [split, ← append_assoc]
  refine load_storeAll fun write member cell reaches inside covers => ?_
  have away := apart write member
  rw [Write.Covers] at covers
  omega

/-- The text of a record after it has been stored. -/
theorem load_recordText :
    load (storeAll memory (before ++ recordWrites call layout idx))
    (idx + headerSize) (recordText call layout).length = recordText call layout := by
  have stamp : load (storeAll memory (before ++ recordWrites call layout idx))
      (idx + headerSize) call.tbuf.length = call.tbuf := by
    refine load_recordWrites 0 rfl ?_
    simp [recordWrites, headerSize]
    omega
  have line : load (storeAll memory (before ++ recordWrites call layout idx))
      (idx + headerSize + call.tbuf.length)
      (lineText call layout).length = lineText call layout := by
    refine load_recordWrites 1 rfl ?_
    simp [recordWrites, headerSize]
    omega
  have mark : load (storeAll memory (before ++ recordWrites call layout idx))
      (idx + headerSize + (call.tbuf.length + (lineText call layout).length))
      layout.trunc.length = layout.trunc := by
    refine load_recordWrites 3 rfl ?_
    simp [recordWrites, headerSize]
    omega
  rw [length_recordText, load_add, load_add, stamp, line, mark, recordText]

/-- The bytes of a record after it has been stored. -/
theorem Fitting.placed
    (fitting : Fitting call layout) :
    Placed (storeAll memory (before ++ recordWrites call layout idx)) idx
    layout.size ⟨recordText call layout, recordDict call layout⟩ := by
  have room := fitting.room
  have dict := fitting.length_recordDict
  have isU16 := fitting.isU16
  refine ⟨?_, ?_, ?_, load_recordText, ?_, ?_⟩
  · refine field_of_load ?_ isU16
    exact load_recordWrites 11 rfl fun write member => nomatch member
  · refine field_of_load ?_ (by dsimp only; omega)
    rw [length_recordText]
    refine load_recordWrites 4 rfl ?_
    simp [recordWrites, headerSize, dict]
    omega
  · refine field_of_load ?_ (by dsimp only; omega)
    rw [dict]
    refine load_recordWrites 6 rfl ?_
    simp [recordWrites, headerSize]
    omega
  · rw [length_recordText]
    refine load_recordWrites 5 rfl ?_
    simp [recordWrites, headerSize, dict]
    omega
  · dsimp only
    omega

end EchoKernel.Printk
