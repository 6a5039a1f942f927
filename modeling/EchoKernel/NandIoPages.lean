import EchoKernel.NandIo
import Mathlib.Data.List.GetD

namespace EchoKernel.Nandx

open List Nat

/-!
# The pages of a write

A write supplies the pages that it touches. `write_pages` prepares exactly
these, in order, with the other parts left blank.
-/

section
variable (core : CoreInfo)

section
variable (bytes : List (BitVec 8)) (oob : Option (List (BitVec 8)))

/-- The bytes of a row: the caller's, with blank ones around. -/
def suppliedData (offset row : Nat) : List (BitVec 8) :=
  (range core.pageSize).map fun index =>
    if offset ≤ row * core.pageSize + index then
      bytes.getD (row * core.pageSize + index - offset) 0xff
    else 0xff

/-- The spare bytes of a page of the call. -/
def suppliedOob (index : Nat) : List (BitVec 8) :=
  match oob with
  | none => blank core.oobUpperSize
  | some bytes => (bytes.drop (index * core.oobUpperSize)).take core.oobUpperSize

/-- A page of a write with data. -/
def suppliedPage (offset index : Nat) : Page where
  row := offset / core.pageSize + index
  data := suppliedData core bytes offset (offset / core.pageSize + index)
  oob := suppliedOob core oob index

/-- The number of pages that a range touches. -/
def pageCount (offset len : Nat) : Nat :=
  (offset % core.pageSize + len + (core.pageSize - 1)) / core.pageSize

/-- The pages of a write with data. -/
def suppliedPages (offset : Nat) : List Page :=
  (range (pageCount core offset bytes.length)).map (suppliedPage core bytes oob offset)

end

/-- The pages of a write of spare bytes. -/
def suppliedOobPages (oob : List (BitVec 8)) (offset : Nat) : List Page :=
  (range (oob.length / core.oobUpperSize)).map fun index =>
    ⟨offset / core.pageSize + index, blank core.pageSize, suppliedOob core (some oob) index⟩

end

section
variable {align offset len : Nat}

/-- What a range's split says about its parts. -/
structure SplitParts (align offset len : Nat) : Prop where
  head : splitHead offset len align = 0 ∧ offset % align = 0 ∨
      splitHead offset len align = 0 ∧ len = 0 ∨
      0 < splitHead offset len align ∧ 0 < offset % align ∧
        offset % align + splitHead offset len align ≤ align
  reaches : 0 < splitHead offset len align → splitHead offset len align = len ∨
        offset % align + splitHead offset len align = align
  total : splitHead offset len align + splitBody offset len align + splitTail offset len align = len
  whole : align ∣ splitBody offset len align
  short : splitTail offset len align < align

theorem splitParts (positive : 0 < align) : SplitParts align offset len := by
  have small := mod_lt offset positive
  have headLe : splitHead offset len align ≤ len := by
    unfold splitHead
    split
    · omega
    · split <;> omega
  have divides := div_mul_le_self (len - splitHead offset len align) align
  have division := div_add_mod (len - splitHead offset len align) align
  have remainder := mod_lt (len - splitHead offset len align) positive
  refine ⟨?_, ?_, ?_, ?_, ?_⟩
  · unfold splitHead
    split
    · exact .inl ⟨rfl, by omega⟩
    split
    · by_cases empty : len = 0
      · exact .inr (.inl ⟨empty, empty⟩)
      · exact .inr (.inr ⟨by omega, by omega, by omega⟩)
    · exact .inr (.inr ⟨by omega, by omega, by omega⟩)
  · unfold splitHead
    split
    · omega
    · split <;> omega
  · rw [splitTail, splitBody]
    omega
  · exact Nat.dvd_mul_left _ _
  · rw [splitTail, splitBody, Nat.mul_comm]
    omega

end

section
variable {bytes : List (BitVec 8)}

/-- Bytes that are copied into a blank buffer. -/
theorem copyInto_blank
    {size position : Nat}
    (fits : position + bytes.length ≤ size) :
    copyInto (blank size) position bytes = (range size).map fun index =>
    if position ≤ index then bytes.getD (index - position) 0xff else 0xff := by
  refine ext_getElem ?_ ?_
  · simp only [copyInto, blank, length_append, length_take,
      length_replicate, length_drop, length_map, length_range]
    omega
  intro index inside _
  simp only [copyInto, blank, take_replicate, drop_replicate,
    getElem_map, getElem_range, append_assoc]
  by_cases before : index < position
  · rw [getElem_append_left (by simp; omega), getElem_replicate, if_neg (by omega)]
  rw [getElem_append_right (by simp; omega), if_pos (by omega)]
  simp only [length_replicate, Nat.min_eq_left (show position ≤ size by omega)]
  by_cases copied : index - position < bytes.length
  · rw [getElem_append_left copied, getD_eq_getElem _ _ copied]
  · rw [getElem_append_right (by omega), getElem_replicate, getD_eq_default _ _ (by omega)]

theorem take_drop_eq
    {start size : Nat}
    (fits : start + size ≤ bytes.length) :
    (bytes.drop start).take size =
    (range size).map fun index => bytes.getD (start + index) 0xff := by
  refine ext_getElem ?_ ?_
  · simp only [length_take, length_drop, length_map, length_range]
    omega
  · intro index inside _
    rw [getElem_take, getElem_drop, getElem_map, getElem_range, getD_eq_getElem]

end

variable {core : CoreInfo} {bytes : List (BitVec 8)} {offset : Nat}
variable {oob : Option (List (BitVec 8))} {buffers : Buffers}

theorem offset_eq
    (core : CoreInfo)
    (offset : Nat) :
    offset = offset / core.pageSize * core.pageSize + offset % core.pageSize := by
  rw [Nat.mul_comm]
  exact (div_add_mod offset core.pageSize).symm

theorem suppliedData_head
    (some : 0 < splitHead offset bytes.length core.pageSize) :
    copyInto (blank core.pageSize) (offset % core.pageSize)
    (bytes.take (splitHead offset bytes.length core.pageSize)) =
    suppliedData core bytes offset (offset / core.pageSize) := by
  have parts := @splitParts core.pageSize offset bytes.length core.pagePositive
  have position := offset_eq core offset
  have reaches := parts.reaches some
  have fits : offset % core.pageSize +
      splitHead offset bytes.length core.pageSize ≤ core.pageSize := by
    rcases parts.head with ⟨isZero, -⟩ | ⟨isZero, -⟩ | ⟨-, -, fits⟩
    · omega
    · omega
    · exact fits
  generalize splitHead offset bytes.length core.pageSize = headLen at *
  rw [copyInto_blank (by simp only [length_take]; omega)]
  refine map_congr_left ?_
  intro index inPage
  rw [mem_range] at inPage
  by_cases before : offset % core.pageSize ≤ index
  · rw [if_pos before, if_pos (by omega)]
    have place : offset / core.pageSize * core.pageSize + index - offset =
        index - offset % core.pageSize := by
      omega
    rw [place]
    by_cases inHead : index - offset % core.pageSize < headLen
    · rw [getD_eq_getElem?_getD, getD_eq_getElem?_getD, List.getElem?_take_of_lt inHead]
    · rw [getD_eq_default _ _ (by simp only [length_take]; omega), getD_eq_default _ _ (by omega)]
  · rw [if_neg before, if_neg (by omega)]

theorem body_start
    (some : 0 < splitBody offset bytes.length core.pageSize + splitTail offset bytes.length
      core.pageSize) :
    offset + splitHead offset bytes.length core.pageSize = (offset / core.pageSize +
    (headOps core oob offset bytes.length).length) * core.pageSize := by
  have parts := @splitParts core.pageSize offset bytes.length core.pagePositive
  have position := offset_eq core offset
  have total := parts.total
  unfold headOps
  rcases parts.head with
    ⟨isZero, aligned⟩ | ⟨isZero, empty⟩ | ⟨positive, -, -⟩
  · simp only [isZero, ↓reduceIte, length_nil, Nat.add_zero]
    omega
  · omega
  rw [if_neg (by omega), length_singleton, Nat.add_mul]
  have reaches := parts.reaches positive
  omega

theorem suppliedData_eq
    {row start : Nat}
    (isStart : row * core.pageSize = offset + start) :
    suppliedData core bytes offset row =
    (range core.pageSize).map fun index => bytes.getD (start + index) 0xff := by
  refine map_congr_left ?_
  intro index _
  rw [if_pos (by omega)]
  congr 1
  omega

theorem suppliedData_body
    {index : Nat}
    (inBody : index < splitBody offset bytes.length core.pageSize / core.pageSize) :
    (bytes.drop
    (splitHead offset bytes.length core.pageSize + index * core.pageSize)).take core.pageSize =
    suppliedData core bytes offset (offset / core.pageSize +
    ((headOps core oob offset bytes.length).length + index)) := by
  have parts := @splitParts core.pageSize offset bytes.length core.pagePositive
  have total := parts.total
  obtain ⟨pages, isPages⟩ := parts.whole
  rw [isPages, Nat.mul_div_cancel_left _ core.pagePositive] at inBody
  have below : (index + 1) * core.pageSize ≤ core.pageSize * pages := by
    rw [Nat.mul_comm]
    exact Nat.mul_le_mul_left _ inBody
  rw [Nat.add_mul] at below
  have positive := core.pagePositive
  have start := @body_start core bytes offset oob (by omega)
  rw [take_drop_eq (by omega), suppliedData_eq]
  rw [← Nat.add_assoc, Nat.add_mul]
  omega

theorem suppliedData_tail
    (some : 0 < splitTail offset bytes.length core.pageSize) :
    copyInto (blank core.pageSize) 0 (bytes.drop (splitHead offset bytes.length core.pageSize +
    splitBody offset bytes.length core.pageSize)) = suppliedData core bytes offset
    (offset / core.pageSize + ((headOps core oob offset bytes.length).length +
    splitBody offset bytes.length core.pageSize / core.pageSize)) := by
  have parts := @splitParts core.pageSize offset bytes.length core.pagePositive
  have total := parts.total
  have short := parts.short
  have start := @body_start core bytes offset oob (by omega)
  have whole := Nat.div_mul_cancel parts.whole
  rw [copyInto_blank (by simp only [length_drop]; omega)]
  rw [suppliedData_eq]
  · refine map_congr_left ?_
    intro index _
    rw [if_pos (Nat.zero_le _), getD_eq_getElem?_getD,
      List.getElem?_drop, ← getD_eq_getElem?_getD, Nat.sub_zero]
  · rw [← Nat.add_assoc, Nat.add_mul, whole]
    omega

/-- The number of pages is that of the operations. -/
theorem pageCount_eq
    (nonempty : 0 < bytes.length) :
    pageCount core offset bytes.length = (headOps core oob offset bytes.length).length +
    splitBody offset bytes.length core.pageSize / core.pageSize +
    (tailOps core oob offset bytes.length).length := by
  have parts := @splitParts core.pageSize offset bytes.length core.pagePositive
  have total := parts.total
  have short := parts.short
  have positive := core.pagePositive
  obtain ⟨pages, isPages⟩ := parts.whole
  have ceiling : ∀ whole rest, rest < core.pageSize →
      (core.pageSize * whole + rest + (core.pageSize - 1)) / core.pageSize =
      whole + if rest = 0 then 0 else 1 := by
    intro whole rest small
    rw [Nat.add_assoc, mul_add_div positive]
    congr 1
    split
    · exact div_eq_of_lt (by omega)
    · rw [Nat.div_eq_iff positive]
      omega
  have tailLength : (tailOps core oob offset bytes.length).length =
      if splitTail offset bytes.length core.pageSize = 0 then 0 else 1 := by
    unfold tailOps
    split <;> rfl
  rw [tailLength, isPages, Nat.mul_div_cancel_left _ positive, pageCount]
  rcases parts.head with
    ⟨isZero, aligned⟩ | ⟨isZero, empty⟩ | ⟨some, inside, fits⟩
  · rw [headOps, if_pos isZero, length_nil, Nat.zero_add, ← ceiling pages _ short]
    congr 1
    omega
  · omega
  have headLength : (headOps core oob offset bytes.length).length = 1 := by
    rw [headOps, if_neg (by omega), length_singleton]
  rw [headLength]
  rcases parts.reaches some with isAll | reached
  · have noPages : pages = 0 := by
      have : core.pageSize * pages = 0 := by omega
      exact (Nat.mul_eq_zero.mp this).resolve_left (by omega)
    rw [noPages, if_pos (by omega), Nat.div_eq_iff positive]
    omega
  · rw [← ceiling (1 + pages) _ short, Nat.mul_add]
    congr 1
    omega

theorem oob_refOob
    {index : Nat}
    (isBlank : oob = none → buffers.headOob = blank core.oobUpperSize)
    (row : Nat)
    (data : DataRef) :
    (NandOps.page buffers ⟨row, data, refOob core oob index⟩).oob = suppliedOob core oob index := by
  cases oob with
  | none => exact isBlank rfl
  | some bytes => rfl

/-- The buffers that a write fills for its operations. -/
structure Filled (core : CoreInfo) (buffers : Buffers) (bytes : List (BitVec 8))
    (oob : Option (List (BitVec 8))) (offset : Nat) : Prop where
  headOob : oob = none → buffers.headOob = blank core.oobUpperSize
  headData : 0 < splitHead offset bytes.length core.pageSize → buffers.headData =
        copyInto (blank core.pageSize) (offset % core.pageSize)
          (bytes.take (splitHead offset bytes.length core.pageSize))
  tailData : 0 < splitTail offset bytes.length core.pageSize → buffers.tailData =
        copyInto (blank core.pageSize) 0 (bytes.drop (splitHead offset bytes.length core.pageSize +
              splitBody offset bytes.length core.pageSize))

/-- `write_pages` fills its buffers. -/
theorem filled_fillTail :
    Filled core
    (fillTail core (fillHead core buffers bytes oob offset) bytes offset) bytes oob offset := by
  have headKept : ∀ filled : Buffers, (fillTail core filled bytes offset).headOob = filled.headOob ∧
      (fillTail core filled bytes offset).headData = filled.headData := by
    intro filled
    unfold fillTail
    split <;> exact ⟨rfl, rfl⟩
  refine ⟨?_, ?_, ?_⟩
  · rintro rfl
    rw [(headKept _).1, fillHead]
    split
    · rfl
    · rfl
  · intro some
    rw [(headKept _).2, fillHead, if_neg (by omega)]
  · intro some
    rw [fillTail, if_neg (by omega)]

/-- A page is the supplied one when its parts are. -/
theorem page_eq_suppliedPage
    {index row : Nat}
    {data : DataRef}
    (isBlank : oob = none → buffers.headOob = blank core.oobUpperSize)
    (isRow : row = offset / core.pageSize + index)
    (isData : (NandOps.page buffers ⟨row, data, refOob core oob index⟩).data =
      suppliedData core bytes offset (offset / core.pageSize + index)) :
    NandOps.page buffers ⟨row, data, refOob core oob index⟩ =
    suppliedPage core bytes oob offset index := by
  have isOob : (NandOps.page buffers ⟨row, data, refOob core oob index⟩).oob =
    suppliedOob core oob index := oob_refOob isBlank row data
  rw [suppliedPage, ← isData, ← isOob, ← isRow]
  rfl

section
variable (filled : Filled core buffers bytes oob offset)
include filled

theorem map_page_headOps :
    (headOps core oob offset bytes.length).map (NandOps.page buffers) =
    (range (headOps core oob offset bytes.length).length).map
    (suppliedPage core bytes oob offset) := by
  unfold headOps
  split
  case isTrue => rfl
  case isFalse some =>
    have positive := Nat.pos_of_ne_zero some
    refine congrArg (fun page => [page]) ?_
    refine page_eq_suppliedPage filled.headOob rfl ?_
    rw [Nat.add_zero, ← suppliedData_head positive]
    exact filled.headData positive

theorem map_page_bodyOps :
    (bodyOps core bytes oob offset).map (NandOps.page buffers) = (range
    (splitBody offset bytes.length core.pageSize / core.pageSize)).map fun index =>
    suppliedPage core bytes oob offset ((headOps core oob offset bytes.length).length + index) := by
  rw [bodyOps, map_map]
  refine map_congr_left ?_
  intro index inBody
  rw [mem_range] at inBody
  have positive := core.pagePositive
  have some : 0 < splitBody offset bytes.length core.pageSize +
      splitTail offset bytes.length core.pageSize := by
    have : splitBody offset bytes.length core.pageSize ≠ 0 := by
      intro isZero
      rw [isZero, Nat.zero_div] at inBody
      omega
    omega
  refine page_eq_suppliedPage filled.headOob ?_ ?_
  · rw [@body_start core bytes offset oob some, Nat.mul_div_cancel _ positive]
    omega
  · exact suppliedData_body inBody

theorem map_page_tailOps :
    (tailOps core oob offset bytes.length).map (NandOps.page buffers) =
    (range (tailOps core oob offset bytes.length).length).map fun index =>
    suppliedPage core bytes oob offset ((headOps core oob offset bytes.length).length +
    splitBody offset bytes.length core.pageSize / core.pageSize + index) := by
  unfold tailOps
  split
  case isTrue => rfl
  case isFalse some =>
    have positive := Nat.pos_of_ne_zero some
    have whole := (@splitParts core.pageSize offset bytes.length core.pagePositive).whole
    refine congrArg (fun page => [page]) ?_
    refine page_eq_suppliedPage filled.headOob ?_ ?_
    · obtain ⟨pages, isPages⟩ := whole
      rw [@body_start core bytes offset oob (by omega), isPages,
        Nat.mul_comm core.pageSize pages, ← Nat.add_mul, Nat.mul_div_cancel _ core.pagePositive,
        Nat.mul_div_cancel _ core.pagePositive]
      omega
    · rw [← suppliedData_tail positive]
      exact filled.tailData positive

theorem map_page_writeOps
    (nonempty : 0 < bytes.length) :
    (writeOps core bytes oob offset).map (NandOps.page buffers) =
    suppliedPages core bytes oob offset := by
  rw [suppliedPages, pageCount_eq nonempty, range_add, range_add, writeOps, map_append,
    map_append, map_append, map_append, map_map,
    map_map, map_page_headOps filled, map_page_bodyOps filled, map_page_tailOps filled]
  rfl

end

theorem length_writeOps
    (nonempty : 0 < bytes.length) :
    (writeOps core bytes oob offset).length = pageCount core offset bytes.length := by
  rw [@pageCount_eq core bytes offset oob nonempty, writeOps, length_append]
  simp [bodyOps]

end EchoKernel.Nandx
