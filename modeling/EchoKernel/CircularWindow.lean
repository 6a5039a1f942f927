import Mathlib.Data.List.GetD
import Mathlib.Algebra.Group.Nat.Defs

namespace EchoKernel.CircularWindow

open List

/-!
# Windows of a circular memory

A window is a number of cells from a start; behind the last cell comes the
first. Writing behind a window extends its end, writing before it its front.
-/

variable {α : Type*}

/-- An index that is past the end at most once. -/
def wrap (size index : Nat) : Nat := if index < size then index else index - size

/-- Cells that lie next to each other. -/
def slice (memory : List α) (offset count : Nat) : List α := (memory.drop offset).take count

/-- Values written over cells that lie next to each other. -/
def splice (memory : List α) (offset : Nat) (values : List α) : List α :=
  memory.take offset ++ values ++ memory.drop (offset + values.length)

/-- Values written from a start on, at the beginning after the end. -/
def writeWrapped (memory : List α) (start : Nat) (values : List α) : List α :=
  if start + values.length ≤ memory.length then splice memory start values
  else
    splice (splice memory start (values.take (memory.length - start))) 0
      (values.drop (memory.length - start))

/-- How far a cell is behind a start. -/
def distance (size start index : Nat) : Nat :=
  if start ≤ index then index - start else index + size - start

variable {memory values : List α} {start offset count : Nat}

theorem length_splice
    (fits : offset + values.length ≤ memory.length) :
    (splice memory offset values).length = memory.length := by
  simp only [splice, length_append, length_take, length_drop]
  omega

theorem length_writeWrapped
    (inside : start ≤ memory.length)
    (few : values.length ≤ memory.length) :
    (writeWrapped memory start values).length = memory.length := by
  unfold writeWrapped
  split
  case isTrue fits => exact length_splice fits
  case isFalse past =>
    have first :
        (splice memory start (values.take (memory.length - start))).length = memory.length :=
      length_splice (by rw [length_take]; omega)
    rw [length_splice (by rw [length_drop]; omega), first]

variable [Inhabited α]

/-- The cells from a start. -/
def window (memory : List α) (start count : Nat) : List α :=
  (range count).map fun index => memory.getD (wrap memory.length (start + index)) default

@[simp]
theorem length_window : (window memory start count).length = count := by
  simp [window]

theorem getElem_window
    {index : Nat}
    (bound : index < (window memory start count).length) :
    (window memory start count)[index] =
    memory.getD (wrap memory.length (start + index)) default := by
  simp [window]

theorem getD_splice
    (fits : offset + values.length ≤ memory.length)
    (index : Nat) :
    (splice memory offset values).getD index default =
    if offset ≤ index ∧ index < offset + values.length then values.getD (index - offset) default
    else memory.getD index default := by
  have before : (memory.take offset).length = offset := by
    rw [length_take]
    omega
  simp only [splice, getD_eq_getElem?_getD, getElem?_append,
    length_append, before, getElem?_take, getElem?_drop]
  split
  case isTrue below =>
    split
    case isTrue first => rw [if_neg (by omega)]
    case isFalse later => rw [if_pos (by omega)]
  case isFalse beyond =>
    rw [if_neg (by omega)]
    congr 2
    omega

theorem getD_writeWrapped
    {index : Nat}
    (inside : start < memory.length)
    (few : values.length ≤ memory.length)
    (bound : index < memory.length) :
    (writeWrapped memory start values).getD index default =
    if distance memory.length start index < values.length then
    values.getD (distance memory.length start index) default else memory.getD index default := by
  unfold writeWrapped distance
  split
  case isTrue fits =>
    rw [getD_splice fits]
    by_cases behind : start ≤ index
    · rw [if_pos behind]
      by_cases near : index < start + values.length
      · rw [if_pos ⟨behind, near⟩, if_pos (by omega)]
      · rw [if_neg (by omega), if_neg (by omega)]
    · rw [if_neg behind, if_neg (by omega), if_neg (by omega)]
  case isFalse past =>
    have taken : (values.take (memory.length - start)).length = memory.length - start := by
      rw [length_take]
      omega
    have first :
        (splice memory start (values.take (memory.length - start))).length = memory.length :=
      length_splice (by omega)
    rw [getD_splice (by rw [length_drop]; omega), getD_splice (by omega), length_drop]
    by_cases behind : start ≤ index
    · rw [if_pos behind, if_neg (by omega), if_pos (by omega), if_pos (by omega)]
      simp only [getD_eq_getElem?_getD]
      rw [getElem?_take_of_lt (by omega)]
    rw [if_neg behind]
    by_cases near : index < values.length - (memory.length - start)
    · rw [if_pos (by omega), if_pos (by omega)]
      simp only [getD_eq_getElem?_getD, getElem?_drop]
      congr 2
      omega
    · rw [if_neg (by omega), if_neg (by omega), if_neg (by omega)]

/-- Writes to different cells commute. -/
theorem splice_comm
    {other : List α}
    (apart : offset + values.length ≤ start)
    (fits : start + other.length ≤ memory.length) :
    splice (splice memory offset values) start other =
    splice (splice memory start other) offset values := by
  have first : (splice memory offset values).length = memory.length := length_splice (by omega)
  have second : (splice memory start other).length = memory.length := length_splice fits
  have length : (splice (splice memory offset values) start other).length =
      (splice (splice memory start other) offset values).length := by
    exact (length_splice (by omega)).trans
      (first.trans (second.symm.trans (length_splice (by omega)).symm))
  refine ext_getElem length ?_
  intro index bound otherBound
  rw [← getD_eq_getElem _ default bound, ← getD_eq_getElem _ default otherBound,
    getD_splice (by omega), getD_splice (by omega), getD_splice (by omega), getD_splice (by omega)]
  by_cases later : start ≤ index ∧ index < start + other.length
  · rw [if_pos later, if_neg (by omega), if_pos later]
  · rw [if_neg later, if_neg later]

theorem take_window
    {few : Nat}
    (less : few ≤ count) :
    (window memory start count).take few = window memory start few := by
  rw [window, ← map_take, take_range, Nat.min_eq_left less]
  rfl

theorem drop_window
    {few : Nat}
    (inside : start < memory.length)
    (less : few ≤ count)
    (whole : count ≤ memory.length) :
    (window memory start count).drop few =
    window memory (wrap memory.length (start + few)) (count - few) := by
  refine ext_getElem (by simp) ?_
  intro index bound otherBound
  rw [getElem_drop, getElem_window, getElem_window]
  rw [length_window] at otherBound
  congr 1
  unfold wrap
  repeat' split
  all_goals omega

theorem slice_eq_window
    (fits : start + count ≤ memory.length) :
    slice memory start count = window memory start count := by
  refine ext_getElem ?_ ?_
  · rw [length_window, slice, length_take, length_drop]
    omega
  intro index bound otherBound
  rw [length_window] at otherBound
  rw [getElem_window, wrap, if_pos (by omega), getD_eq_getElem _ _ (by omega)]
  simp [slice]

/-- The two parts of a window that wraps. -/
theorem slice_append_slice
    (inside : start < memory.length)
    (past : memory.length ≤ start + count)
    (whole : count ≤ memory.length) :
    slice memory start (memory.length - start) ++
    slice memory 0 (count - (memory.length - start)) = window memory start count := by
  have front : (window memory start count).take (memory.length - start) =
      window memory start (memory.length - start) :=
    take_window (by omega)
  have back : (window memory start count).drop (memory.length - start) = window memory
      (wrap memory.length (start + (memory.length - start))) (count - (memory.length - start)) :=
    drop_window inside (by omega) whole
  have atZero : wrap memory.length (start + (memory.length - start)) = 0 := by
    unfold wrap
    split
    · omega
    · omega
  rw [atZero] at back
  rw [slice_eq_window (by omega), slice_eq_window (by omega), ← front, ← back, take_append_drop]

section
variable (inside : start < memory.length) (room : count + values.length ≤ memory.length)
include inside room

/-- A write behind a window extends it at its end. -/
theorem window_append
    (isBehind : offset = wrap memory.length (start + count))
    (valid : offset < memory.length) :
    window (writeWrapped memory offset values) start (count + values.length) =
    window memory start count ++ values := by
  have length := @length_writeWrapped α memory values offset (by omega) (by omega)
  refine ext_getElem (by simp) ?_
  intro index bound otherBound
  rw [length_window] at bound
  have cell : wrap memory.length (start + index) < memory.length := by
    unfold wrap
    split
    · omega
    · omega
  rw [getElem_window, length, getD_writeWrapped valid (by omega) cell, getElem_append]
  unfold wrap at isBehind
  by_cases before : index < count
  · rw [dif_pos (by simpa using before), getElem_window, if_neg]
    unfold distance wrap
    split at isBehind
    all_goals
      repeat' split
      all_goals omega
  have behind : distance memory.length offset (wrap memory.length (start + index)) =
      index - count := by
    unfold distance wrap
    split at isBehind
    all_goals
      repeat' split
      all_goals omega
  rw [dif_neg (by simpa using before), behind, if_pos (by omega), getD_eq_getElem _ _ (by omega)]
  simp

/-- A write before a window extends it at its front. -/
theorem window_prepend
    (isBefore : start = wrap memory.length (offset + values.length))
    (valid : offset < memory.length) :
    window (writeWrapped memory offset values) offset
    (count + values.length) = values ++ window memory start count := by
  have length := @length_writeWrapped α memory values offset (by omega) (by omega)
  refine ext_getElem (by simp [Nat.add_comm]) ?_
  intro index bound otherBound
  rw [length_window] at bound
  have cell : wrap memory.length (offset + index) < memory.length := by
    unfold wrap
    split
    · omega
    · omega
  have behind : distance memory.length offset (wrap memory.length (offset + index)) = index := by
    unfold distance wrap
    repeat' split
    all_goals omega
  rw [getElem_window, length, getD_writeWrapped valid (by omega) cell, behind, getElem_append]
  by_cases early : index < values.length
  · rw [if_pos early, dif_pos early, getD_eq_getElem _ _ early]
  rw [if_neg early, dif_neg early, getElem_window]
  unfold wrap at isBefore ⊢
  congr 1
  split at isBefore
  all_goals
    repeat' split
    all_goals omega

end

end EchoKernel.CircularWindow
