import Mathlib.Data.List.Basic
import Mathlib.Algebra.Group.Nat.Defs

namespace EchoKernel.Nandx

/-!
# Reads, writes and erases of the NAND core

`drivers/mtd/nandx/core/core_io.c` without multi-plane operations. Writes are
collected in an array until their number is a multiple of `min_write_pages`.
An operation points to the caller's memory, which does not change before the
chip has it, or to `head_buf` or `tail_buf`, which all calls share.
-/

/-- The values of the chip that the core uses. -/
structure CoreInfo where
  pageSize : Nat
  oobUpperSize : Nat
  blockSize : Nat
  totalSize : Nat
  opsLen : Nat
  minWritePages : Nat
  pagePositive : 0 < pageSize
  oobPositive : 0 < oobUpperSize
  blockPositive : 0 < blockSize
  minPositive : 0 < minWritePages
  deriving Repr, DecidableEq

/-- Where the data of an operation is. -/
inductive DataRef where
  | caller (bytes : List (BitVec 8))
  | head
  | tail
  deriving Repr, DecidableEq

/-- Where the spare bytes of an operation are. -/
inductive OobRef where
  | caller (bytes : List (BitVec 8))
  | head
  | tail
  deriving Repr, DecidableEq

/-- `struct nand_ops`; an operation is on a whole page. -/
structure NandOps where
  row : Nat
  data : DataRef
  oob : OobRef
  deriving Repr, DecidableEq

/-- The two shared buffers, each with its spare bytes. -/
structure Buffers where
  headData : List (BitVec 8)
  headOob : List (BitVec 8)
  tailData : List (BitVec 8)
  tailOob : List (BitVec 8)
  deriving Repr, DecidableEq

/-- A page as the chip gets it. -/
structure Page where
  row : Nat
  data : List (BitVec 8)
  oob : List (BitVec 8)
  deriving Repr, DecidableEq

/-- What an operation points to. -/
def NandOps.page (buffers : Buffers) (op : NandOps) : Page where
  row := op.row
  data :=
    match op.data with
    | .caller bytes => bytes
    | .head => buffers.headData
    | .tail => buffers.tailData
  oob :=
    match op.oob with
    | .caller bytes => bytes
    | .head => buffers.headOob
    | .tail => buffers.tailOob

/-- `enum nandx_op_mode`. -/
inductive OpMode where
  | idle
  | write
  | read
  | erase
  deriving Repr, DecidableEq

/--
`struct nandx_desc`. `ops` holds the operations below `ops_current`, and
`written` the batches passed to `write_page`.
-/
structure NandxDesc where
  mode : OpMode
  ops : List NandOps
  buffers : Buffers
  written : List (List Page)
  deriving Repr, DecidableEq

/-- Bytes that are not programmed. -/
def blank (size : Nat) : List (BitVec 8) := List.replicate size 0xff

/-- The descriptor after `nandx_init`. -/
def nandxInit (core : CoreInfo) : NandxDesc where
  mode := .idle
  ops := []
  buffers :=
    ⟨blank core.pageSize, blank core.oobUpperSize, blank core.pageSize, blank core.oobUpperSize⟩
  written := []

/-- `memcpy` into a buffer. -/
def copyInto (buffer : List (BitVec 8)) (position : Nat)
    (bytes : List (BitVec 8)) : List (BitVec 8) :=
  buffer.take position ++ bytes ++ buffer.drop (position + bytes.length)

/-- The next operations; none if they exceed the array. -/
def NandxDesc.prepare (core : CoreInfo) (nandx : NandxDesc)
    (ops : List NandOps) : Option NandxDesc :=
  if nandx.ops.length + ops.length ≤ core.opsLen then some { nandx with ops := nandx.ops ++ ops }
  else none

/-- `write_page` of the first operations; the array is then empty. -/
def NandxDesc.writePage (nandx : NandxDesc) (count : Nat) (mode : OpMode) : NandxDesc where
  mode := mode
  ops := []
  buffers := nandx.buffers
  written := nandx.written ++ [(nandx.ops.take count).map (NandOps.page nandx.buffers)]

section
variable (core : CoreInfo)

section
variable (nandx : NandxDesc) (bytes : List (BitVec 8)) (oob : Option (List (BitVec 8)))

/-- `nandx_split`: the length before the first whole page. -/
def splitHead (offset len align : Nat) : Nat :=
  if align - offset % align = align then 0
  else if len < align - offset % align then len
  else align - offset % align

/-- The length of `nandx_split` in whole pages. -/
def splitBody (offset len align : Nat) : Nat := (len - splitHead offset len align) / align * align

/-- `nandx_split`: the length after the last whole page. -/
def splitTail (offset len align : Nat) : Nat :=
  len - splitHead offset len align - splitBody offset len align

/-- `ref_oob` for an operation of a call. -/
def refOob (index : Nat) : OobRef :=
  match oob with
  | none => .head
  | some bytes => .caller ((bytes.drop (index * core.oobUpperSize)).take core.oobUpperSize)

/-- The operation before the first whole page. -/
def headOps (offset len : Nat) : List NandOps :=
  if splitHead offset len core.pageSize = 0 then []
  else [⟨offset / core.pageSize, .head, refOob core oob 0⟩]

/-- The operations of the whole pages. -/
def bodyOps (offset : Nat) : List NandOps :=
  let headLen := splitHead offset bytes.length core.pageSize
  let bodyLen := splitBody offset bytes.length core.pageSize
  let first := (headOps core oob offset bytes.length).length
  (List.range (bodyLen / core.pageSize)).map fun index =>
    ⟨(offset + headLen) / core.pageSize + index, .caller
        ((bytes.drop (headLen + index * core.pageSize)).take core.pageSize),
      refOob core oob (first + index)⟩

/-- The operation after the last whole page. -/
def tailOps (offset len : Nat) : List NandOps :=
  let headLen := splitHead offset len core.pageSize
  let bodyLen := splitBody offset len core.pageSize
  let first := (headOps core oob offset len).length
  if splitTail offset len core.pageSize = 0 then []
  else
    [⟨(offset + headLen + bodyLen) / core.pageSize, .tail,
      refOob core oob (first + bodyLen / core.pageSize)⟩]

/-- The operations of `write_pages` with data. -/
def writeOps (offset : Nat) : List NandOps :=
  headOps core oob offset bytes.length ++ bodyOps core bytes oob offset ++
    tailOps core oob offset bytes.length

/-- The first buffer in `write_pages`. -/
def fillHead (buffers : Buffers) (bytes : List (BitVec 8)) (oob : Option (List (BitVec 8)))
    (offset : Nat) : Buffers :=
  let headLen := splitHead offset bytes.length core.pageSize
  if headLen = 0 then
    if oob.isNone then { buffers with headOob := blank core.oobUpperSize }
    else buffers
  else
    { buffers with
      headData := copyInto (blank core.pageSize) (offset % core.pageSize) (bytes.take headLen)
      headOob := blank core.oobUpperSize }

/-- The second buffer in `write_pages`. -/
def fillTail (buffers : Buffers) (bytes : List (BitVec 8)) (offset : Nat) : Buffers :=
  let headLen := splitHead offset bytes.length core.pageSize
  let bodyLen := splitBody offset bytes.length core.pageSize
  if splitTail offset bytes.length core.pageSize = 0 then buffers
  else
    { buffers with
      tailData := copyInto (blank core.pageSize) 0 (bytes.drop (headLen + bodyLen))
      tailOob := blank core.oobUpperSize }

/-- `write_pages` with data; `ret` is the chip's result. -/
def writePages (offset : Nat) (ret : Int) : Option (NandxDesc × Int) :=
  let buffers := fillTail core (fillHead core nandx.buffers bytes oob offset) bytes offset
  let nandx := { nandx with mode := .write, buffers := buffers }
  match nandx.prepare core (writeOps core bytes oob offset) with
  | none => none
  | some nandx =>
    let rem := nandx.ops.length % core.minWritePages
    if rem ≠ 0 then some (nandx, core.minWritePages - rem)
    else some (nandx.writePage nandx.ops.length .idle, ret)

/-- The operations of `operation_sequent` for spare bytes. -/
def oobOps (oob : List (BitVec 8)) (offset : Nat) : List NandOps :=
  (List.range (oob.length / core.oobUpperSize)).map fun index =>
    ⟨offset / core.pageSize + index, .head, refOob core (some oob) index⟩

/-- `write_pages` without data, by `operation_sequent`. -/
def writeSequent (oob : List (BitVec 8)) (offset : Nat) (ret : Int) : Option (NandxDesc × Int) :=
  let ops := oobOps core oob offset
  let nandx :=
    { nandx with
      mode := .write
      buffers := { nandx.buffers with headData := blank core.pageSize } }
  match nandx.prepare core ops with
  | none => none
  | some nandx =>
    let rem := nandx.ops.length % core.minWritePages
    if rem ≠ 0 then some (nandx, core.minWritePages - rem)
    else
      -- only as many operations as this call has prepared
      some (nandx.writePage ops.length .write, ret)

/-- What `nandx_write` gets; the length is that of the bytes. -/
inductive Payload where
  | data (bytes : List (BitVec 8)) (oob : Option (List (BitVec 8)))
  | oobOnly (bytes : List (BitVec 8))
  | nothing (len : Nat)
  deriving Repr, DecidableEq

/-- `-EINVAL`. -/
def einval : Int := -22

/-- The length checks; the `div_up` sum has 32 bits. -/
def lengthAccepted (len : Nat) : Bool :=
  len != 0 && len ≤ core.totalSize &&
    (len + core.pageSize - 1) % 2 ^ 32 / core.pageSize ≤ core.opsLen

/-- The checks of `nandx_read` and `nandx_write`. -/
def transferAccepted (data oob : Bool) (len : Nat) : Bool :=
  lengthAccepted core len && (data || oob) && (data || len % core.oobUpperSize == 0)

/-- A payload that the checks of `nandx_write` refuse. -/
def Payload.refused (payload : Payload) : Bool :=
  match payload with
  | .data bytes oob => !transferAccepted core true oob.isSome bytes.length
  | .oobOnly bytes => !transferAccepted core false true bytes.length
  | .nothing len => !transferAccepted core false false len

/-- `nandx_write`; `ret` is what the chip returns. -/
def nandxWrite (payload : Payload) (offset : Nat) (ret : Int) : Option (NandxDesc × Int) :=
  if payload.refused core then some (nandx, einval)
  else
    match payload with
    | .data bytes oob => writePages core nandx bytes oob offset ret
    | .oobOnly bytes => writeSequent core nandx bytes offset ret
    | .nothing _ => some (nandx, einval)

end

end

variable (core : CoreInfo)

/-- The operations of `nandx_read`, for data or spare bytes only. -/
def readCount (data : Bool) (offset len : Nat) : Nat :=
  if data then
    (if splitHead offset len core.pageSize = 0 then 0 else 1) +
      splitBody offset len core.pageSize / core.pageSize +
      (if splitTail offset len core.pageSize = 0 then 0 else 1)
  else len / core.oobUpperSize

/-- A read that the checks of `nandx_read` refuse. -/
def readRefused (data oob : Bool) (len : Nat) : Bool := !transferAccepted core data oob len

/-- `nandx_read`; the buffers hold what was read, `ret` is the chip's. -/
def nandxRead (nandx : NandxDesc) (data oob : Bool) (offset len : Nat) (buffers : Buffers)
    (ret : Int) : Option (NandxDesc × Int) :=
  if readRefused core data oob len then some (nandx, einval)
  else if readCount core data offset len ≤ core.opsLen then
    some ({ nandx with mode := .idle, ops := [], buffers := buffers }, ret)
  else none

/-- The checks of `nandx_erase`. -/
def eraseRefused (offset len : Nat) : Bool :=
  len == 0 || core.totalSize < len ||
    core.opsLen < len / core.blockSize || offset % core.blockSize != 0 ||
    len % core.blockSize != 0

/-- `nandx_erase`; both shared buffers are blank after it. -/
def nandxErase (nandx : NandxDesc) (offset len : Nat) (ret : Int) : Option (NandxDesc × Int) :=
  if eraseRefused core offset len then some (nandx, einval)
  else
    some ({ nandx with
          mode := .idle
          ops := []
          buffers :=
            { nandx.buffers with
              headData := blank core.pageSize
              headOob := blank core.oobUpperSize } }, ret)

/-- What `nandx_sync` adds, each one row further. -/
def paddingOps (row count : Nat) : List NandOps :=
  (List.range count).map fun index => ⟨row + 1 + index, .tail, .tail⟩

/-- The row of the last prepared operation. -/
def NandxDesc.lastRow (nandx : NandxDesc) : Nat := (nandx.ops.getLast?.map NandOps.row).getD 0

/-- `nandx_sync`: the pending writes are padded and written. -/
def nandxSync (nandx : NandxDesc) (ret : Int) : Option (NandxDesc × Int) :=
  if nandx.ops = [] then some (nandx, 0)
  else
    match nandx.mode with
    | .idle => some (nandx, 0)
    | .erase => some ({ nandx with mode := .idle, ops := [] }, ret)
    | .read => some ({ nandx with mode := .idle, ops := [] }, ret)
    | .write =>
      let rem := nandx.ops.length % core.minWritePages
      if rem = 0 then some (nandx.writePage nandx.ops.length .idle, ret)
      else
        let padding := paddingOps nandx.lastRow rem
        let nandx :=
          { nandx with
            buffers :=
              { nandx.buffers with
                tailData := blank core.pageSize
                tailOob := blank core.oobUpperSize } }
        match nandx.prepare core padding with
        | none => none
        | some nandx => some (nandx.writePage nandx.ops.length .idle, ret)

end EchoKernel.Nandx
