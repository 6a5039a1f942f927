import Mathlib.Algebra.Group.Nat.Defs

namespace EchoKernel.Gpt

/-!
# Partition tables on flash

`gptpart.c` with `CONFIG_MTD_GPT_BACKUP`. The table has four copies. A copy
begins with a block of the old kind, which announces the new one; the header
is in the next block, and the entries are where the header says. The array of
partitions may not be allocated, all other memory is.
-/

/-- The memory from `buf` on; entries need not be in one block. -/
abbrev Buffer := Nat → BitVec 8

/-- `GET_LWORD_FROM_BYTE`. -/
def getLword (buf : Buffer) (offset : Nat) : Nat :=
  (buf offset).toNat + (buf (offset + 1)).toNat * 2 ^ 8 +
    (buf (offset + 2)).toNat * 2 ^ 16 + (buf (offset + 3)).toNat * 2 ^ 24

/-- `GET_LLWORD_FROM_BYTE`. -/
def getLlword (buf : Buffer) (offset : Nat) : Nat :=
  getLword buf offset + getLword buf (offset + 4) * 2 ^ 32

/--
The flash device, and whether memory of some bytes can be allocated. A read
gives no buffer when `mtd_read` fails. The sizes of pages are powers of two.
-/
structure Master where
  size : Nat
  writesize : Nat
  isNand : Bool
  mtdRead : Nat → Option Buffer
  kmalloc : Nat → Bool
  pageSize : isNand = true → ∃ shift, 9 ≤ shift ∧ writesize = 2 ^ shift

/-- `struct mbr_part`, without the addresses of cylinders. -/
structure MbrPart where
  status : BitVec 8
  type : BitVec 8
  lbaStart : Nat
  lbaLength : Nat
  deriving Repr, DecidableEq

/-- `struct gpt_header`. -/
structure GptHeader where
  firstUsableLba : Nat
  backupHeaderLba : Nat
  partitionEntrySize : Nat
  headerSize : Nat
  maxPartitionCount : Nat
  deriving Repr, DecidableEq

/-- `struct mtd_partition`. -/
structure MtdPartition where
  name : List (BitVec 8)
  offset : Nat
  maskFlags : Nat
  size : Nat
  deriving Repr, DecidableEq

/-- `MAX_BOOT_COPIES`. -/
def maxBootCopies : Nat := 4

/-- `ENTRY_SIZE`. -/
def entrySize : Nat := 0x80

/-- `MAX_GPT_NAME_SIZE`. -/
def maxGptNameSize : Nat := 72

/-- The header before a signature was found. -/
def zeroHeader : GptHeader := ⟨0, 0, 0, 0, 0⟩

namespace Master

variable (master : Master)

/-- The size of a block. -/
def lbaSize : Nat := if master.isNand then master.writesize else 512

/-- `validate_mbr_partition`. -/
def validateMbrPartition (part : MbrPart) : Bool :=
  if part.type = 0 then false
  else if part.status ≠ 0x80 ∧ part.status ≠ 0 then false
  else if master.size / master.lbaSize ≤ part.lbaStart then false
  else if master.size / master.lbaSize < (part.lbaStart + part.lbaLength) % 2 ^ 32 then false
  else true

/-- An entry of the block at the beginning of a copy. -/
def mbrPart (buf : Buffer) (index : Nat) : MbrPart where
  status := buf (446 + 16 * index)
  type := buf (446 + 16 * index + 4)
  lbaStart := getLword buf (446 + 16 * index + 8)
  lbaLength := getLword buf (446 + 16 * index + 12)

/-- An entry is valid and has the type `0xee`. -/
def gptPartitionsExist (buf : Buffer) : Bool :=
  (List.range 4).any fun index =>
    master.validateMbrPartition (mbrPart buf index) && (mbrPart buf index).type == 0xee

/-- `partition_parse_gpt_header`; none without the signature. -/
def partitionParseGptHeader (buf : Buffer) : Option GptHeader :=
  if getLword buf 0 ≠ 0x20494645 ∨ getLword buf 4 ≠ 0x54524150 then none
  else
    some
      { headerSize := getLword buf 12
        backupHeaderLba := getLlword buf 32
        firstUsableLba := getLlword buf 40
        maxPartitionCount := getLword buf 80
        partitionEntrySize := getLword buf 84 }

/-- `gpt_add_part` for the entry at an offset. -/
def gptAddPart (buf : Buffer) (offset : Nat) : Option MtdPartition :=
  if buf offset = 0 ∧ buf (offset + 1) = 0 then none
  else
    let partAttrs := getLlword buf (offset + 48)
    let firstLba := getLlword buf (offset + 32)
    let lastLba := getLlword buf (offset + 40)
    if lastLba ≤ firstLba then none
    else
      let firstLba := if partAttrs = 4 then (firstLba + 2 ^ 64 - 4) % 2 ^ 64 else firstLba
      some
        { name := (List.range (maxGptNameSize / 2)).map fun n => buf (offset + 56 + n * 2)
          offset := firstLba * master.lbaSize % 2 ^ 64
          maskFlags := 0
          size := (lastLba + 2 ^ 64 - firstLba + 1) % 2 ^ 64 * master.lbaSize % 2 ^ 64 }

/--
The entries of a block, and whether one was refused. The source then leaves
both loops, as no number of blocks is as large as the index that it sets.
-/
def addParts (gpthdr : GptHeader) (buf : Buffer) : Nat → Nat → List MtdPartition × Bool
  | 0, _ => ([], false)
  | remaining + 1, j =>
    match master.gptAddPart buf (j * gpthdr.partitionEntrySize % 2 ^ 32) with
    | none => ([], true)
    | some part =>
      let rest := addParts gpthdr buf remaining (j + 1)
      (part :: rest.1, rest.2)

/-- Entries of blocks, and whether one could not be read. -/
def readBlocks (gpthdr : GptHeader) (partAddr : Nat) : Nat → Nat → List MtdPartition × Bool
  | 0, _ => ([], false)
  | remaining + 1, i =>
    match master.mtdRead ((partAddr + i * master.lbaSize % 2 ^ 32) % 2 ^ 64) with
    | none => ([], true)
    | some buf =>
      let added := master.addParts gpthdr buf (master.lbaSize / entrySize) 0
      if added.2 then (added.1, false)
      else
        let rest := readBlocks gpthdr partAddr remaining (i + 1)
        (added.1 ++ rest.1, rest.2)

/-- `gpt_read_entries`, for the block of the header. -/
def gptReadEntries (gpthdr : GptHeader) (buf : Buffer)
    (gptOffset : Nat) : List MtdPartition × Bool :=
  let partEntryCnt := master.lbaSize / entrySize
  let partLbaCnt :=
    (gpthdr.maxPartitionCount + partEntryCnt - 1) % 2 ^ 32 / partEntryCnt *
      partEntryCnt % 2 ^ 32 / partEntryCnt
  let partition0 := getLlword buf 72
  master.readBlocks gpthdr ((gptOffset + partition0 * master.lbaSize) % 2 ^ 64) partLbaCnt 0

end Master

/--
The variables of the loop of `gpt_parse`. `parts` is the number of elements of
the array once there is one, and a partition has the copy from which it was
read.
-/
structure Scan where
  offset : Nat
  exist : Bool
  gpthdr : GptHeader
  parts : Option Nat
  found : List (Nat × MtdPartition)
  err : Bool

/-- How a copy is left. -/
inductive Visit where
  | next (scan : Scan)
  | done (found : List (Nat × MtdPartition))
  | overrun

namespace Master

variable (master : Master)

/-- `kcalloc` of an array, with the check of `kmalloc_array`; an element has 32 bytes. -/
def kcallocParts (count : Nat) : Bool :=
  if (2 ^ 32 - 1) / 32 < count then false else master.kmalloc (count * 32)

/-- One turn of the loop of `gpt_parse`. -/
def visit (copy : Nat) (scan : Scan) : Visit :=
  let offset := (scan.offset + copy * 256 * master.writesize % 2 ^ 32) % 2 ^ 64
  match master.mtdRead offset with
  | none => .next { scan with offset := offset, err := true }
  | some buf =>
    if buf 510 ≠ 0x55 ∨ buf 511 ≠ 0xaa then .next { scan with offset := offset, err := false }
    else
      -- The flag is kept from the copies before.
      let exist := scan.exist || master.gptPartitionsExist buf
      if exist = false then .next { scan with offset := offset, exist := exist, err := false }
      else
        match master.mtdRead ((master.lbaSize + offset) % 2 ^ 64) with
        | none => .next { scan with offset := offset, exist := exist, err := true }
        | some buf =>
          -- Without the signature, the old header is used.
          let gpthdr := (partitionParseGptHeader buf).getD scan.gpthdr
          let parts := scan.parts.getD gpthdr.maxPartitionCount
          -- Without the array, 0 is returned at once.
          if scan.parts = none ∧ master.kcallocParts gpthdr.maxPartitionCount = false then .done []
          else
            let entries := master.gptReadEntries gpthdr buf offset
            let found := scan.found ++ entries.1.map fun part => (copy, part)
            if parts < found.length then .overrun
            else if entries.2 then .next ⟨offset, exist, gpthdr, some parts, found, true⟩
            else .done found

/-- The loop of `gpt_parse` over the copies. -/
def parseCopies : List Nat → Scan → Option (List (Nat × MtdPartition))
  | [], scan => some (if scan.err then [] else scan.found)
  | copy :: copies, scan =>
    match master.visit copy scan with
    | .next scan => parseCopies copies scan
    | .done found => some found
    | .overrun => none

/-- `gpt_parse`; no result is a write behind the array. -/
def gptParse : Option (List (Nat × MtdPartition)) :=
  master.parseCopies (List.range maxBootCopies) ⟨0, false, zeroHeader, none, [], false⟩

end Master

end EchoKernel.Gpt
