import EchoKernel.NandIoBounds

namespace EchoKernel.Nandx

open List Nat

/-!
# The bytes that a read returns

`read_pages` lets the chip store whole pages in the caller's memory and in the
core's two buffers, which lie behind each other. Spare bytes that the caller
does not want are stored behind the page in the first buffer.
-/

section

/-- The geometry that places the two buffers. -/
structure Geometry extends CoreInfo where
  sectorSize : Nat
  sectorSpareSize : Nat
  wholeSectors : pageSize / sectorSize * sectorSize = pageSize
  oobFits : oobUpperSize ≤ pageSize / sectorSize * sectorSpareSize
  deriving Repr, DecidableEq

/-- `page_padded_size`, the distance of the two buffers. -/
def Geometry.pagePaddedSize (core : Geometry) : Nat :=
  core.pageSize / core.sectorSize * (core.sectorSize + core.sectorSpareSize)

/-- The caller's memory from `data` and `oob` on, and two buffers. -/
structure Memory where
  data : Nat → BitVec 8
  oob : Nat → BitVec 8
  bulk : Nat → BitVec 8

/-- A place in one of the three memories. -/
inductive Pointer where
  | data (position : Nat)
  | oob (position : Nat)
  | bulk (position : Nat)
  deriving Repr, DecidableEq

/-- Bytes that are stored from a position on. -/
def stored (bytes : Nat → BitVec 8) (position count : Nat)
    (source : Nat → BitVec 8) : Nat → BitVec 8 :=
  fun index =>
    if position ≤ index ∧ index < position + count then source (index - position)
    else bytes index

/-- Stores bytes at a pointer. -/
def Memory.store (memory : Memory) (count : Nat) (source : Nat → BitVec 8) : Pointer → Memory
  | .data position => { memory with data := stored memory.data position count source }
  | .oob position => { memory with oob := stored memory.oob position count source }
  | .bulk position => { memory with bulk := stored memory.bulk position count source }

structure ReadOp where
  row : Nat
  data : Pointer
  oob : Pointer
  deriving Repr, DecidableEq

/-- The flash: the data by its address, the spare bytes by row. -/
structure NandArray where
  data : Nat → BitVec 8
  spare : Nat → Nat → BitVec 8

variable (core : Geometry)

section
variable (flash : NandArray) (memory : Memory) (oob : Bool) (offset len : Nat)

/-- `read_page` of the chip for one operation. -/
def readPage (op : ReadOp) : Memory :=
  (memory.store core.pageSize (fun index => flash.data (op.row * core.pageSize + index))
      op.data).store core.oobUpperSize (flash.spare op.row) op.oob

/-- `ref_oob` for an operation of a read. -/
def readOob (index : Nat) : Pointer :=
  if oob then .oob (index * core.oobUpperSize) else .bulk core.pageSize

/-- The operation before the first whole page. -/
def readHeadOps : List ReadOp :=
  if splitHead offset len core.pageSize = 0 then []
  else [⟨offset / core.pageSize, .bulk 0, readOob core oob 0⟩]

/-- The operations of the whole pages. -/
def readBodyOps : List ReadOp :=
  let headLen := splitHead offset len core.pageSize
  let first := (readHeadOps core oob offset len).length
  (range (splitBody offset len core.pageSize / core.pageSize)).map fun index =>
      ⟨(offset + headLen) / core.pageSize + index, .data (headLen + index * core.pageSize),
        readOob core oob (first + index)⟩

/-- The operation after the last whole page. -/
def readTailOps : List ReadOp :=
  let headLen := splitHead offset len core.pageSize
  let bodyLen := splitBody offset len core.pageSize
  let first := (readHeadOps core oob offset len).length
  if splitTail offset len core.pageSize = 0 then []
  else
    [⟨(offset + headLen + bodyLen) / core.pageSize, .bulk core.pagePaddedSize,
      readOob core oob (first + bodyLen / core.pageSize)⟩]

def readOps : List ReadOp :=
  readHeadOps core oob offset len ++ readBodyOps core oob offset len ++
    readTailOps core oob offset len

/-- The copies of `read_pages` after the chip's read. -/
def copyParts (memory : Memory) : Memory :=
  let headLen := splitHead offset len core.pageSize
  let bodyLen := splitBody offset len core.pageSize
  let tailLen := splitTail offset len core.pageSize
  let headCopied :=
    if headLen = 0 then memory
    else memory.store headLen (fun index => memory.bulk (offset % core.pageSize + index)) (.data 0)
  if tailLen = 0 then headCopied
  else
    headCopied.store tailLen (fun index => headCopied.bulk (core.pagePaddedSize + index))
      (.data (headLen + bodyLen))

/-- `read_pages` with data. -/
def readPages : Memory :=
  copyParts core offset len ((readOps core oob offset len).foldl (readPage core flash) memory)

/--
`nandx_read` with data; none when it prepares operations behind the array. A
refused request leaves the memory as it was.
-/
def nandxReadData : Option Memory :=
  if readRefused core.toCoreInfo true oob len then some memory
  else if (readOps core oob offset len).length ≤ core.opsLen then
    some (readPages core flash memory oob offset len)
  else none

end

end

section
variable {core : Geometry} {flash : NandArray} {memory : Memory} {oob : Bool} {offset len : Nat}

theorem pageSize_add_oob_le : core.pageSize + core.oobUpperSize ≤ core.pagePaddedSize := by
  have oobFits := core.oobFits
  have whole := core.wholeSectors
  rw [Geometry.pagePaddedSize, Nat.mul_add]
  omega

theorem length_readOps :
    (readOps core oob offset len).length = readCount core.toCoreInfo true offset len := by
  simp only [readOps, readHeadOps, readBodyOps, readTailOps, readCount,
    if_true, length_append, length_map, length_range,
    apply_ite length, length_nil, length_singleton]

/-- The position is no spare byte behind the first page. -/
def Geometry.InPage (core : Geometry) (position : Nat) : Prop :=
  position < core.pageSize ∨ core.pageSize + core.oobUpperSize ≤ position

theorem data_store_readOob
    {index : Nat}
    {source : Nat → BitVec 8} :
    (memory.store core.oobUpperSize source (readOob core oob index)).data = memory.data := by
  cases oob <;> rfl

/-- Spare bytes do not change a page in a buffer. -/
theorem bulk_store_readOob
    {index position : Nat}
    {source : Nat → BitVec 8}
    (inPage : core.InPage position) :
    (memory.store core.oobUpperSize source (readOob core oob index)).bulk position =
    memory.bulk position := by
  rw [Geometry.InPage] at inPage
  cases oob with
  | true => rfl
  | false =>
    simp only [readOob, Bool.false_eq_true, if_false, Memory.store, stored]
    rw [if_neg (by omega)]

theorem data_readPage_bulk
    {row position index : Nat} :
    (readPage core flash memory
    ⟨row, .bulk position, readOob core oob index⟩).data = memory.data := by
  rw [readPage, data_store_readOob]
  rfl

theorem bulk_readPage_bulk
    {row position index place : Nat}
    (inPage : core.InPage place) :
    (readPage core flash memory ⟨row, .bulk position, readOob core oob index⟩).bulk place =
    stored memory.bulk position core.pageSize
    (fun index => flash.data (row * core.pageSize + index)) place := by
  rw [readPage, bulk_store_readOob inPage]
  rfl

theorem data_readPage_data
    {row position index : Nat} :
    (readPage core flash memory
    ⟨row, .data position, readOob core oob index⟩).data = stored memory.data position core.pageSize
    fun index => flash.data (row * core.pageSize + index) := by
  rw [readPage, data_store_readOob]
  rfl

theorem bulk_readPage_data
    {row position index place : Nat}
    (inPage : core.InPage place) :
    (readPage core flash memory ⟨row, .data position, readOob core oob index⟩).bulk place =
    memory.bulk place := by
  rw [readPage, bulk_store_readOob inPage]
  rfl

theorem stored_zero
    {bytes source : Nat → BitVec 8}
    {position : Nat} :
    stored bytes position 0 source = bytes := by
  funext index
  rw [stored, if_neg (by omega)]

/-- Bytes that are stored behind others. -/
theorem stored_stored
    {bytes source further : Nat → BitVec 8}
    {position count more : Nat}
    (goesOn : ∀ index, further index = source (count + index)) :
    stored (stored bytes position count source) (position + count) more further =
    stored bytes position (count + more) source := by
  funext index
  simp only [stored]
  by_cases first : position ≤ index ∧ index < position + count
  · rw [if_neg (by omega), if_pos first, if_pos (by omega)]
  by_cases second : position + count ≤ index ∧ index < position + count + more
  · rw [if_pos second, if_pos (by omega), goesOn]
    congr 1
    omega
  · rw [if_neg second, if_neg first, if_neg (by omega)]

/-- Whole pages are read one behind the other. -/
theorem foldl_readPage_body
    (row position first count : Nat) :
    (((range count).map fun index =>
    (⟨row + index, .data (position + index * core.pageSize),
    readOob core oob (first + index)⟩ : ReadOp)).foldl (readPage core flash) memory).data =
    stored memory.data position (count * core.pageSize)
    (fun index => flash.data (row * core.pageSize + index)) ∧
    ∀ place, core.InPage place → (((range count).map fun index =>
    (⟨row + index, .data (position + index * core.pageSize),
    readOob core oob (first + index)⟩ : ReadOp)).foldl (readPage core flash) memory).bulk place =
    memory.bulk place := by
  induction count with
  | zero =>
    refine ⟨?_, fun _ _ => rfl⟩
    rw [Nat.zero_mul, stored_zero]
    rfl
  | succ count inductionHypothesis =>
    rw [range_succ, map_append, foldl_append, map_cons,
      map_nil, foldl_cons, foldl_nil, data_readPage_data, inductionHypothesis.1]
    refine ⟨?_, fun place inPage => ?_⟩
    · rw [succ_mul]
      refine stored_stored fun index => ?_
      congr 1
      rw [Nat.add_mul]
      omega
    · rw [bulk_readPage_data inPage]
      exact inductionHypothesis.2 place inPage

/-- The caller's bytes and the buffers after the read. -/
structure PagesRead (core : Geometry) (flash : NandArray) (before after : Memory)
    (offset len : Nat) : Prop where
  body : after.data = stored before.data (splitHead offset len core.pageSize)
        (splitBody offset len core.pageSize) fun index =>
          flash.data (offset + splitHead offset len core.pageSize + index)
  head : 0 < splitHead offset len core.pageSize → ∀ index < splitHead offset len core.pageSize,
        after.bulk (offset % core.pageSize + index) = flash.data (offset + index)
  tail : ∀ index < splitTail offset len core.pageSize, after.bulk (core.pagePaddedSize + index) =
        flash.data (offset + splitHead offset len core.pageSize +
            splitBody offset len core.pageSize + index)

theorem start_of_body
    (some : 0 < splitBody offset len core.pageSize + splitTail offset len core.pageSize) :
    (offset + splitHead offset len core.pageSize) / core.pageSize * core.pageSize =
    offset + splitHead offset len core.pageSize := by
  have start := @body_start core.toCoreInfo (blank len) offset none (by simpa [blank] using some)
  simp only [blank, length_replicate] at start
  rw [start, Nat.mul_div_cancel _ core.pagePositive]

/-- The chip stores the pages of a read. -/
theorem pagesRead_readOps :
    PagesRead core flash memory
    ((readOps core oob offset len).foldl (readPage core flash) memory) offset len := by
  have positive := core.pagePositive
  have padded := @pageSize_add_oob_le core
  have parts := @splitParts core.pageSize offset len positive
  have whole := Nat.div_mul_cancel parts.whole
  rw [readOps, foldl_append, foldl_append]
  generalize isHead : (readHeadOps core oob offset len).foldl (readPage core flash) memory =
    afterHead
  generalize isBody : (readBodyOps core oob offset len).foldl (readPage core flash) afterHead =
    afterBody
  generalize isTail : (readTailOps core oob offset len).foldl (readPage core flash) afterBody =
    afterTail
  -- The head page, when there is one, is in the first buffer.
  obtain ⟨headData, headBulk⟩ : afterHead.data = memory.data ∧
      (0 < splitHead offset len core.pageSize → ∀ index < core.pageSize, afterHead.bulk index =
      flash.data (offset / core.pageSize * core.pageSize + index)) := by
    rw [← isHead, readHeadOps]
    split
    case isTrue none => exact ⟨rfl, by omega⟩
    case isFalse some =>
      refine ⟨data_readPage_bulk, fun _ index inside => ?_⟩
      rw [foldl_cons, foldl_nil,
        bulk_readPage_bulk (.inl inside), stored, if_pos (by omega), Nat.sub_zero]
  obtain ⟨bodyData, bodyBulk⟩ := isBody ▸ foldl_readPage_body _ _ _ _
  -- The tail page, when there is one, is in the second buffer.
  obtain ⟨tailData, tailHead, tailBulk⟩ : afterTail.data = afterBody.data ∧
      (∀ index < core.pageSize, afterTail.bulk index = afterBody.bulk index) ∧
      (0 < splitTail offset len core.pageSize → ∀ index < core.pageSize,
      afterTail.bulk (core.pagePaddedSize + index) = flash.data
      ((offset + splitHead offset len core.pageSize +
      splitBody offset len core.pageSize) / core.pageSize * core.pageSize + index)) := by
    rw [← isTail, readTailOps]
    split
    case isTrue none => exact ⟨rfl, fun _ _ => rfl, by omega⟩
    case isFalse some =>
      refine ⟨data_readPage_bulk, fun index inside => ?_, fun _ index inside => ?_⟩
      · rw [foldl_cons, foldl_nil, bulk_readPage_bulk (.inl inside), stored, if_neg (by omega)]
      · rw [foldl_cons, foldl_nil,
          bulk_readPage_bulk (.inr (by omega)), stored, if_pos (by omega), Nat.add_sub_cancel_left]
  refine ⟨?_, ?_, ?_⟩
  · rw [tailData, bodyData, headData, whole]
    funext index
    simp only [stored]
    split
    case isTrue inside => rw [start_of_body (by omega)]
    case isFalse => rfl
  · intro some index inside
    have fits : offset % core.pageSize + splitHead offset len core.pageSize ≤ core.pageSize := by
      rcases parts.head with ⟨isZero, -⟩ | ⟨isZero, -⟩ | ⟨-, -, fits⟩
      · omega
      · omega
      · exact fits
    rw [tailHead _ (by omega), bodyBulk _ (.inl (by omega)), headBulk some _ (by omega)]
    have position := offset_eq core.toCoreInfo offset
    congr 1
    omega
  · intro index inside
    have start := @start_of_body core offset len (by omega)
    have short := parts.short
    obtain ⟨pages, isPages⟩ := parts.whole
    rw [tailBulk (by omega) index (by omega)]
    have aligned : offset + splitHead offset len core.pageSize +
        splitBody offset len core.pageSize =
        ((offset + splitHead offset len core.pageSize) / core.pageSize +
        pages) * core.pageSize := by
      rw [Nat.add_mul, start, isPages, Nat.mul_comm pages]
    rw [aligned, Nat.mul_div_cancel _ positive]

/-- A read stores exactly bytes of the flash. -/
theorem readPages_data
    (flash : NandArray)
    (memory : Memory)
    (oob : Bool)
    (offset len : Nat) :
    (readPages core flash memory oob offset len).data =
    stored memory.data 0 len fun index => flash.data (offset + index) := by
  have read := @pagesRead_readOps core flash memory oob offset len
  have total := (@splitParts core.pageSize offset len core.pagePositive).total
  rw [readPages]
  generalize (readOps core oob offset len).foldl (readPage core flash) memory = after at *
  obtain ⟨head, isHead⟩ : ∃ head, head = if splitHead offset len core.pageSize = 0 then after
    else after.store (splitHead offset len core.pageSize)
      (fun index => after.bulk (offset % core.pageSize + index)) (.data 0) := ⟨_, rfl⟩
  have headBulk : head.bulk = after.bulk := by
    rw [isHead]
    split <;> rfl
  have headData : head.data = stored after.data 0 (splitHead offset len core.pageSize)
      fun index => after.bulk (offset % core.pageSize + index) := by
    rw [isHead]
    split
    case isTrue none => rw [none, stored_zero]
    case isFalse => rfl
  have copied : (copyParts core offset len after).data = stored
      (stored after.data 0 (splitHead offset len core.pageSize)
      fun index => after.bulk (offset % core.pageSize + index))
      (splitHead offset len core.pageSize + splitBody offset len core.pageSize)
      (splitTail offset len core.pageSize)
      fun index => after.bulk (core.pagePaddedSize + index) := by
    rw [copyParts, ← isHead]
    split
    case isTrue none => rw [headData, none, stored_zero]
    case isFalse => rw [Memory.store, headData, headBulk]
  rw [copied, read.body]
  funext index
  simp only [stored]
  by_cases inTail : splitHead offset len core.pageSize + splitBody offset len core.pageSize ≤
    index ∧ index < splitHead offset len core.pageSize + splitBody offset len core.pageSize +
      splitTail offset len core.pageSize
  · rw [if_pos inTail, if_pos (by omega), read.tail _ (by omega)]
    congr 1
    omega
  rw [if_neg inTail]
  by_cases inHead : 0 ≤ index ∧ index < 0 + splitHead offset len core.pageSize
  · rw [if_pos inHead, if_pos (by omega), read.head (by omega) _ (by omega)]
  rw [if_neg inHead]
  by_cases inBody : splitHead offset len core.pageSize ≤ index ∧ index <
    splitHead offset len core.pageSize + splitBody offset len core.pageSize
  · rw [if_pos inBody, if_pos (by omega)]
    congr 1
    omega
  · rw [if_neg inBody, if_neg (by omega)]

end

variable {core : Geometry} {flash : NandArray} {bytes : List (BitVec 8)} {offset : Nat}
variable {oob : Option (List (BitVec 8))}

/-- A page is programmed: bits are only cleared. -/
def programPage (core : Geometry) (flash : NandArray) (page : Page) : NandArray where
  data address :=
    if address / core.pageSize = page.row then
      flash.data address &&& page.data.getD (address % core.pageSize) 0xff
    else flash.data address
  spare row index :=
    if row = page.row then flash.spare row index &&& page.oob.getD index 0xff
    else flash.spare row index

/-- The pages of a range are erased. -/
def Erased (core : Geometry) (flash : NandArray) (offset len : Nat) : Prop :=
  ∀ address, offset / core.pageSize ≤ address / core.pageSize → address / core.pageSize <
          offset / core.pageSize + pageCount core.toCoreInfo offset len → flash.data address = 0xff

/-- Every byte is programmed by the page of its row, if any. -/
theorem foldl_programPage_data
    (count address : Nat) :
    (((range count).map
    (suppliedPage core.toCoreInfo bytes oob offset)).foldl (programPage core) flash).data address =
    if offset / core.pageSize ≤ address / core.pageSize ∧
    address / core.pageSize < offset / core.pageSize + count then
    flash.data address &&& (suppliedData core.toCoreInfo bytes offset
    (address / core.pageSize)).getD (address % core.pageSize) 0xff else flash.data address := by
  induction count with
  | zero =>
    rw [if_neg (by omega)]
    rfl
  | succ count inductionHypothesis =>
    rw [range_succ, map_append, foldl_append, map_cons, map_nil, foldl_cons, foldl_nil, programPage]
    simp only [inductionHypothesis, suppliedPage]
    by_cases isRow : address / core.pageSize = offset / core.pageSize + count
    · rw [if_pos isRow, if_neg (by omega), if_pos (by omega), isRow]
    rw [if_neg isRow]
    by_cases before : offset / core.pageSize ≤ address / core.pageSize ∧
      address / core.pageSize < offset / core.pageSize + count
    · rw [if_pos before, if_pos (by omega)]
    · rw [if_neg before, if_neg (by omega)]

theorem suppliedData_getD
    {index : Nat} :
    (suppliedData core.toCoreInfo bytes offset ((offset + index) / core.pageSize)).getD
    ((offset + index) % core.pageSize) 0xff = bytes.getD index 0xff := by
  have small := mod_lt (offset + index) core.pagePositive
  have position := offset_eq core.toCoreInfo (offset + index)
  rw [suppliedData, getD_eq_getElem _ _ (by simpa using small),
    getElem_map, getElem_range, ← position, if_pos (by omega), Nat.add_sub_cancel_left]

/-- A byte's row is among the pages of its range. -/
theorem row_lt_pageCount
    {index len : Nat}
    (inside : index < len) :
    (offset + index) / core.pageSize <
    offset / core.pageSize + pageCount core.toCoreInfo offset len := by
  have positive := core.pagePositive
  have position := offset_eq core.toCoreInfo offset
  have ceiling : offset % core.pageSize + len ≤
      pageCount core.toCoreInfo offset len * core.pageSize := by
    have division := div_add_mod (offset % core.pageSize + len + (core.pageSize - 1)) core.pageSize
    have remainder := mod_lt (offset % core.pageSize + len + (core.pageSize - 1)) positive
    rw [pageCount, Nat.mul_comm]
    omega
  rw [Nat.div_lt_iff_lt_mul positive, Nat.add_mul]
  omega

/-- After the pages of a write the flash has its bytes. -/
theorem programmed_data
    {index : Nat}
    (erased : Erased core flash offset bytes.length)
    (inside : index < bytes.length) :
    ((suppliedPages core.toCoreInfo bytes oob offset).foldl
    (programPage core) flash).data (offset + index) = bytes.getD index 0xff := by
  have row := @row_lt_pageCount core offset index bytes.length inside
  have fromStart : offset / core.pageSize ≤ (offset + index) / core.pageSize :=
    Nat.div_le_div_right (Nat.le_add_right _ _)
  have allOnes (byte : BitVec 8) : 0xff#8 &&& byte = byte := by
    revert byte
    decide
  rw [suppliedPages, foldl_programPage_data, if_pos ⟨fromStart, row⟩,
    erased _ fromStart row, suppliedData_getD]
  exact allOnes _

theorem divUp_le_pageCount
    (len : Nat) :
    (len + core.pageSize - 1) % 2 ^ 32 / core.pageSize ≤ pageCount core.toCoreInfo offset len := by
  have positive := core.pagePositive
  exact Nat.div_le_div_right (Nat.le_trans (Nat.mod_le _ _) (by omega))

section
variable {len : Nat} (nonempty : 0 < len) (inFlash : len ≤ core.totalSize)
  (room : pageCount core.toCoreInfo offset len ≤ core.opsLen)
include nonempty inFlash room

theorem transferAccepted_data
    (wantsOob : Bool) :
    transferAccepted core.toCoreInfo true wantsOob len = true := by
  have pages := @divUp_le_pageCount core offset len
  simp only [transferAccepted, lengthAccepted, Bool.true_or, Bool.and_true, Bool.and_eq_true,
    bne_iff_ne, decide_eq_true_eq]
  omega

/-- A read with data that has room succeeds. -/
theorem exists_nandxReadData
    (flash : NandArray)
    (memory : Memory)
    (wantsOob : Bool) :
    ∃ after,
    nandxReadData core flash memory wantsOob offset len = some after ∧
    after.data = stored memory.data 0 len (fun index => flash.data (offset + index)) := by
  have accepted := transferAccepted_data nonempty inFlash room
  have count : (readOps core wantsOob offset len).length =
      pageCount core.toCoreInfo offset len := by
    have pages :=
      @pageCount_eq core.toCoreInfo (blank len) offset none (by simpa [blank] using nonempty)
    simp only [blank, length_replicate, headOps, tailOps,
      apply_ite length, length_nil, length_singleton] at pages
    rw [length_readOps, pages]
    simp only [readCount, if_true]
  refine ⟨_, ?_, @readPages_data core flash memory wantsOob offset len⟩
  rw [nandxReadData, if_neg (by simp [readRefused, accepted]), if_pos (by omega)]

end

/-- A write from an idle descriptor passes its pages on at once. -/
theorem exists_nandxWrite
    {nandx : NandxDesc}
    {ret : Int}
    (single : core.minWritePages = 1)
    (idle : nandx.ops = [])
    (nonempty : 0 < bytes.length)
    (inFlash : bytes.length ≤ core.totalSize)
    (room : pageCount core.toCoreInfo offset bytes.length ≤ core.opsLen) :
    ∃ next,
    nandxWrite core.toCoreInfo nandx (.data bytes oob) offset ret = some (next, ret) ∧
    next.written = nandx.written ++ [suppliedPages core.toCoreInfo bytes oob offset] := by
  have accepted := transferAccepted_data nonempty inFlash room
  have filled := @filled_fillTail core.toCoreInfo bytes offset oob nandx.buffers
  have count := @length_writeOps core.toCoreInfo bytes offset oob nonempty
  rw [nandxWrite, if_neg (by simp [Payload.refused, accepted])]
  simp only [writePages, NandxDesc.prepare, idle, length_nil,
    Nat.zero_add, count, if_pos room, nil_append, single, mod_one]
  refine ⟨_, rfl, ?_⟩
  simp only [NandxDesc.writePage]
  rw [← count, take_length, map_page_writeOps filled nonempty]

/--
A read that has room stores exactly the bytes of its range, and with single
page writes it reads back what was written to erased pages.
-/
theorem nandx_transfer
    {core : Geometry}
    {offset len : Nat}
    (nonempty : 0 < len)
    (inFlash : len ≤ core.totalSize)
    (room : pageCount core.toCoreInfo offset len ≤ core.opsLen) :
    (∀ flash memory wantsOob, ∃ after,
      nandxReadData core flash memory wantsOob offset len = some after ∧
      after.data = stored memory.data 0 len fun index => flash.data (offset + index)) ∧
    (core.minWritePages = 1 → ∀ (nandx : NandxDesc) bytes oob ret,
      nandx.mode = .idle → nandx.ops = [] → bytes.length = len →
      ∃ next pages,
        nandxWrite core.toCoreInfo nandx (.data bytes oob) offset ret = some (next, ret) ∧
        next.written = nandx.written ++ [pages] ∧
        ∀ flash memory wantsOob, Erased core flash offset len →
          ∃ after,
            nandxReadData core (pages.foldl (programPage core) flash) memory wantsOob offset len =
              some after ∧
            ∀ index < len, after.data index = bytes.getD index 0xff) := by
  refine ⟨fun flash memory wantsOob =>
    exists_nandxReadData nonempty inFlash room flash memory wantsOob, ?_⟩
  rintro single nandx bytes oob ret - noOps rfl
  obtain ⟨next, writes, written⟩ := exists_nandxWrite single noOps nonempty inFlash room
  refine ⟨next, _, writes, written, fun flash memory wantsOob erased => ?_⟩
  obtain ⟨after, reads, data⟩ := exists_nandxReadData nonempty inFlash room
    ((suppliedPages core.toCoreInfo bytes oob offset).foldl (programPage core) flash)
    memory wantsOob
  refine ⟨after, reads, fun index inside => ?_⟩
  rw [data, stored, if_pos (by omega), Nat.sub_zero, programmed_data erased inside]

/-- A block of 64 pages of four sectors. -/
def blockGeometry : Geometry where
  toCoreInfo := blockCore
  sectorSize := 512
  sectorSpareSize := 16
  wholeSectors := by decide
  oobFits := by decide

/-- A buffer that holds zeros. -/
def zeroMemory : Memory := ⟨fun _ => 0, fun _ => 0, fun _ => 0⟩

/-- Three bytes across the end of the first page, read, and written and read back. -/
theorem nandx_transfer_across_pages :
    (∃ after,
      nandxReadData blockGeometry ⟨fun _ => 0x5a, fun _ _ => 0⟩ zeroMemory false 2047 3 =
        some after ∧
      after.data = stored (fun _ => 0) 0 3 fun _ => 0x5a) ∧
    ∃ next pages,
      nandxWrite blockCore (nandxInit blockCore) (.data [1, 2, 3] none) 2047 0 =
        some (next, 0) ∧
      next.written = [pages] ∧
      ∃ after,
        nandxReadData blockGeometry
          (pages.foldl (programPage blockGeometry) ⟨fun _ => 0xff, fun _ _ => 0xff⟩)
          zeroMemory false 2047 3 = some after ∧
        ∀ index < 3, after.data index = [1, 2, 3].getD index 0xff := by
  obtain ⟨reads, writes⟩ :=
    @nandx_transfer blockGeometry 2047 3 (by decide) (by decide) (by decide)
  obtain ⟨next, pages, isWritten, written, readsBack⟩ :=
    writes rfl (nandxInit blockCore) [1, 2, 3] none 0 rfl rfl rfl
  exact ⟨reads _ _ _, next, pages, isWritten, written, readsBack _ _ _ fun _ _ _ => rfl⟩

end EchoKernel.Nandx
