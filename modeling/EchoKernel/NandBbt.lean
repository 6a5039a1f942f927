import EchoKernel.Errno
import Mathlib.Logic.Function.Basic

namespace EchoKernel.Nandx

open Function

/-!
# The bad block table of the NAND driver

`drivers/mtd/nandx/driver/bbt/bbt.c`. The driver keeps a mark for every block
in memory and two copies of the marks in the last blocks of the flash, each
behind its own pattern and a version of eight bits. Addresses are block
numbers. `BBT_INVALID_ADDR`, the address of block 0, which is never one of the
last blocks, is `none`. Allocations succeed.
-/

section

/-- The marks; two bits for each block. -/
inductive Mark where
  | factoryBad
  | reserved
  | worn
  | good
  deriving Repr, DecidableEq

/-- `BBT_BLOCK_WORN` or `BBT_BLOCK_FACTORY_BAD`. -/
def Mark.isBad : Mark → Bool
  | .factoryBad => true
  | .worn => true
  | .reserved => false
  | .good => false

/-- The marks of the blocks in order. -/
abbrev Table := List Mark

/-- `set_bbt_mark`. -/
def setBbtMark (bbt : Table) (block : Nat) (mark : Mark) : Table := bbt.set block mark

/-- `get_bbt_mark`. -/
def getBbtMark (bbt : Table) (block : Nat) : Mark := bbt.getD block .good

/-- `NAND_BBT_SCAN_MAXBLOCKS`. -/
def maxBlocks : Nat := 8

/-- The geometry of `struct nandx_info`: marks fill whole bytes. -/
structure NandxInfo where
  totalBlock : Nat
  packed : totalBlock % 4 = 0
  room : maxBlocks < totalBlock
  deriving Repr, DecidableEq

variable (nand : NandxInfo)

/-- The blocks for the copies, from the last one down. -/
def bbtRegion : List Nat := (List.range maxBlocks).map fun index => nand.totalBlock - 1 - index

/-- The table with some blocks' marks replaced by another one. -/
def replaceMarks (old new : Mark) : List Nat → Table → Table
  | [], bbt => bbt
  | block :: blocks, bbt =>
    replaceMarks old new blocks (if getBbtMark bbt block = old then setBbtMark bbt block new
        else bbt)

/-- `mark_bbt_region`. -/
def markBbtRegion (bbt : Table) : Table := replaceMarks .good .reserved (bbtRegion nand).reverse bbt

/-- `unmark_bbt_region`. -/
def unmarkBbtRegion (bbt : Table) : Table :=
  replaceMarks .reserved .good (bbtRegion nand).reverse bbt

/-- `get_bbt_address`: the last block neither bad nor the other copy. -/
def getBbtAddress (bbt : Table) (mirrorAddr : Option Nat) : Option Nat :=
  (bbtRegion nand).find? fun block => !(getBbtMark bbt block).isBad && some block != mirrorAddr

end

/-- The pattern of a table, main or mirror. -/
inductive Pattern where
  | main
  | mirror
  deriving Repr, DecidableEq

/-- A copy of the table in a block. -/
structure Copy where
  pattern : Pattern
  version : BitVec 8
  table : Table
  deriving Repr, DecidableEq

/-- What the driver reads: copies, and bad marks in spare areas. -/
structure Flash where
  copyAt : Nat → Option Copy
  badMark : Nat → Bool

/-- The operations of the driver on the flash. -/
inductive FlashOp where
  | erase (block : Nat)
  /-- A write that fails after the block was erased. -/
  | spoil (block : Nat)
  /-- A page of zeros with its spare area. -/
  | zero (block : Nat)
  | save (block : Nat) (copy : Copy)
  deriving Repr, DecidableEq

/-- The block that an operation changes. -/
def FlashOp.block : FlashOp → Nat
  | .erase block => block
  | .spoil block => block
  | .zero block => block
  | .save block _ => block

/-- What an operation does to the flash. -/
def FlashOp.apply (flash : Flash) : FlashOp → Flash
  | .erase block => ⟨update flash.copyAt block none, update flash.badMark block false⟩
  | .spoil block => ⟨update flash.copyAt block none, flash.badMark⟩
  | .zero block => ⟨update flash.copyAt block none, update flash.badMark block true⟩
  | .save block copy => ⟨update flash.copyAt block (some copy), flash.badMark⟩

/-- The flash after some operations. -/
def Flash.after (flash : Flash) (ops : List FlashOp) : Flash := ops.foldl FlashOp.apply flash

/-- How `save_bbt` fails. -/
inductive SaveFailure where
  | erase
  | write
  deriving Repr, DecidableEq

/-- The operations of `save_bbt` before it fails. -/
def SaveFailure.ops (block : Nat) : SaveFailure → List FlashOp
  | .erase => []
  | .write => [.erase block, .spoil block]

/-- `mark_nand_bad`. -/
def markNandBad (block : Nat) : List FlashOp := [.erase block, .zero block]

/-- `struct bbt_desc`; the pattern is fixed. -/
structure Desc where
  version : BitVec 8
  bbtAddr : Option Nat
  deriving Repr, DecidableEq

/-- The state and the operations after `write_bbt`. -/
structure Written where
  desc : Desc
  bbt : Table
  ops : List FlashOp
  result : Option Errno
  deriving Repr, DecidableEq

/--
`write_bbt`. The list holds the failures of `save_bbt` before its first
success; without a block left the others do not happen.
-/
def writeBbt (nand : NandxInfo) (pattern : Pattern) (other : Option Nat) :
    List SaveFailure → Desc → Table → Written
  | fails, desc, bbt =>
    match desc.bbtAddr.or (getBbtAddress nand bbt other) with
    | none => ⟨⟨desc.version, none⟩, bbt, [], some .enospc⟩
    | some block =>
      match fails with
      | [] =>
        ⟨⟨desc.version, some block⟩, bbt,
          [.erase block, .save block ⟨pattern, desc.version, bbt⟩], none⟩
      | failure :: fails =>
        let next :=
          writeBbt nand pattern other fails ⟨desc.version + 1, none⟩ (setBbtMark bbt block .worn)
        { next with ops := failure.ops block ++ markNandBad block ++ next.ops }

/-- The failures of `save_bbt`. -/
structure Failures where
  main : List SaveFailure
  mirror : List SaveFailure
  deriving Repr, DecidableEq

/-- The state and the operations after `update_bbt`. -/
structure Updated where
  main : Desc
  mirror : Desc
  bbt : Table
  ops : List FlashOp
  result : Option Errno
  deriving Repr, DecidableEq

/-- The main copy in `update_bbt`. -/
def updateMain (nand : NandxInfo) (fails : Failures) (main mirror : Desc) (bbt : Table) : Written :=
  writeBbt nand .main mirror.bbtAddr fails.main
    ⟨main.version + 1, main.bbtAddr⟩ (unmarkBbtRegion nand bbt)

/-- The mirror copy in `update_bbt`, with the main one's version. -/
def updateMirror (nand : NandxInfo) (fails : Failures) (mirror : Desc)
    (written : Written) : Written :=
  writeBbt nand .mirror written.desc.bbtAddr fails.mirror
    ⟨written.desc.version, mirror.bbtAddr⟩ written.bbt

/-- `update_bbt`: a new version is written, main table first. -/
def updateBbt (nand : NandxInfo) (fails : Failures) (main mirror : Desc) (bbt : Table) : Updated :=
  let first := updateMain nand fails main mirror bbt
  match first.result with
  | some errno => ⟨first.desc, mirror, markBbtRegion nand first.bbt, first.ops, some errno⟩
  | none =>
    let second := updateMirror nand fails mirror first
    ⟨first.desc, second.desc, markBbtRegion nand second.bbt, first.ops ++ second.ops, second.result⟩

section
variable (nand : NandxInfo) (flash : Flash)

/-- `is_bbt_data`. -/
def isBbtData (pattern : Pattern) (block : Nat) : Bool :=
  (flash.copyAt block).any fun copy => copy.pattern == pattern

/-- `search_bbt`, with the descriptor as `scan_bbt` resets it. -/
def searchBbt (pattern : Pattern) : Desc :=
  match (bbtRegion nand).find? (isBbtData flash pattern) with
  | none => ⟨0, none⟩
  | some block => ⟨((flash.copyAt block).map Copy.version).getD 0, some block⟩

/-- The two bits of `valid_desc`. -/
structure ValidDesc where
  main : Bool
  mirror : Bool
  deriving Repr, DecidableEq

/-- The copies found, and the newer one if the versions differ. -/
def validDesc (main mirror : Desc) : ValidDesc :=
  if main.bbtAddr.isSome && mirror.bbtAddr.isSome && main.version != mirror.version then
    if mirror.version < main.version then ⟨true, false⟩
    else ⟨false, true⟩
  else ⟨main.bbtAddr.isSome, mirror.bbtAddr.isSome⟩

/-- The flash's choices in `scan_bbt`: what a failed read leaves. -/
structure ScanEnv where
  mainRead : Option Table
  mirrorRead : Option Table
  fails : Failures
  deriving Repr, DecidableEq

/-- The local variables of `scan_bbt`. -/
structure ScanState where
  main : Desc
  mirror : Desc
  valid : ValidDesc
  bbt : Table
  deriving Repr, DecidableEq

/-- The table in the block of a descriptor. -/
def tableAt (desc : Desc) : Table := ((desc.bbtAddr.bind flash.copyAt).map Copy.table).getD []

/-- `read_bbt` of the main copy. -/
def readMain (failed : Option Table) (state : ScanState) : ScanState :=
  if state.valid.main then
    match failed with
    | none => { state with bbt := tableAt flash state.main }
    | some left =>
      { state with
        main := ⟨0, none⟩
        valid := ⟨false, state.valid.mirror⟩
        bbt := left }
  else state

/-- `read_bbt` of the mirror copy; a failure resets the main one. -/
def readMirror (failed : Option Table) (state : ScanState) : ScanState :=
  if state.valid.mirror then
    match failed with
    | none => { state with bbt := tableAt flash state.mirror }
    | some left =>
      { state with
        main := ⟨0, none⟩
        valid := ⟨state.valid.main, false⟩
        bbt := left }
  else state

/-- Both copies, or only the main one if the versions are equal. -/
def readCopies (env : ScanEnv) (state : ScanState) : ScanState :=
  let state := readMain flash env.mainRead state
  if state.valid.main && state.valid.mirror && state.main.version == state.mirror.version then state
  else readMirror flash env.mirrorRead state

/-- `create_bbt`. -/
def createBbt (bbt : Table) : Table :=
  (List.range nand.totalBlock).foldl (fun bbt block =>
      if flash.badMark block then setBbtMark bbt block .factoryBad else bbt)
    bbt

/-- A new table when no copy is left. -/
def createIfNone (state : ScanState) : ScanState :=
  if state.valid.main || state.valid.mirror then state
  else
    { state with
      main := ⟨1, state.main.bbtAddr⟩
      mirror := ⟨1, state.mirror.bbtAddr⟩
      bbt := createBbt nand flash state.bbt }

/-- The larger version for both descriptors. -/
def sameVersion (state : ScanState) : ScanState :=
  let version :=
    if state.main.version < state.mirror.version then state.mirror.version
    else state.main.version
  { state with
    main := ⟨version, state.main.bbtAddr⟩
    mirror := ⟨version, state.mirror.bbtAddr⟩ }

/-- `scan_bbt` up to its writes. -/
def scanCopies (env : ScanEnv) : ScanState :=
  let main := searchBbt nand flash .main
  let mirror := searchBbt nand flash .mirror
  sameVersion (createIfNone nand flash (readCopies flash env ⟨main, mirror, validDesc main mirror,
          List.replicate (4 * (nand.totalBlock / 4)) .good⟩))

/-- Write a copy unless it is valid. -/
def writeUnless (nand : NandxInfo) (valid : Bool) (pattern : Pattern) (other : Option Nat)
    (fails : List SaveFailure) (desc : Desc) (bbt : Table) : Written :=
  if valid then ⟨desc, bbt, [], none⟩
  else writeBbt nand pattern other fails desc bbt

/-- State and operations after `scan_bbt`; none is a null table. -/
structure Scanned where
  main : Desc
  mirror : Desc
  bbt : Option Table
  ops : List FlashOp
  result : Option Errno
  deriving Repr, DecidableEq

/-- The writes of `scan_bbt`. -/
def scanWrites (nand : NandxInfo) (fails : Failures) (state : ScanState) : Scanned :=
  let first :=
    writeUnless nand state.valid.main .main state.mirror.bbtAddr fails.main state.main state.bbt
  match first.result with
  | some errno => ⟨first.desc, state.mirror, none, first.ops, some errno⟩
  | none =>
    let second :=
      writeUnless nand state.valid.mirror .mirror first.desc.bbtAddr
        fails.mirror state.mirror first.bbt
    match second.result with
    | some errno => ⟨first.desc, second.desc, none, first.ops ++ second.ops, some errno⟩
    | none =>
      ⟨first.desc, second.desc, some (markBbtRegion nand second.bbt), first.ops ++ second.ops, none⟩

/-- `scan_bbt`. -/
def scanBbt (env : ScanEnv) : Scanned := scanWrites nand env.fails (scanCopies nand flash env)

end

/-- `struct bbt_manager` with the flash. -/
structure Driver where
  main : Desc
  mirror : Desc
  bbt : Option Table
  flash : Flash

/-- The driver after `scan_bbt`. -/
def Driver.scan (nand : NandxInfo) (driver : Driver) (env : ScanEnv) : Driver × Option Errno :=
  let scanned := scanBbt nand driver.flash env
  (⟨scanned.main, scanned.mirror, scanned.bbt, driver.flash.after scanned.ops⟩, scanned.result)

theorem Driver.scan_succeeds
    {nand : NandxInfo}
    {driver next : Driver}
    {env : ScanEnv}
    {scanned : Scanned}
    (isScanned : scanBbt nand driver.flash env = scanned)
    (scans : driver.scan nand env = (next, none)) :
    scanned.result = none ∧
    next = ⟨scanned.main, scanned.mirror, scanned.bbt, driver.flash.after scanned.ops⟩ := by
  subst isScanned
  exact ⟨congrArg Prod.snd scans, (congrArg Prod.fst scans).symm⟩

/-- The driver after an update of its table. -/
def Driver.update (nand : NandxInfo) (driver : Driver) (fails : Failures) (bbt : Table)
    (before : List FlashOp) : Driver × Option Errno :=
  let updated := updateBbt nand fails driver.main driver.mirror bbt
  (⟨updated.main, updated.mirror, some updated.bbt,
    driver.flash.after (before ++ updated.ops)⟩, updated.result)

theorem Driver.update_succeeds
    {nand : NandxInfo}
    {driver next : Driver}
    {fails : Failures}
    {bbt : Table}
    {before : List FlashOp}
    {updated : Updated}
    (isUpdated : updateBbt nand fails driver.main driver.mirror bbt = updated)
    (updates : driver.update nand fails bbt before = (next, none)) :
    updated.result = none ∧ next =
    ⟨updated.main, updated.mirror, some updated.bbt, driver.flash.after (before ++ updated.ops)⟩ :=
  isUpdated ▸ ⟨congrArg Prod.snd updates, (congrArg Prod.fst updates).symm⟩

/-- `bbt_mark_bad`; none for a null table. -/
def bbtMarkBad (nand : NandxInfo) (driver : Driver) (block : Nat)
    (fails : Failures) : Option (Driver × Option Errno) :=
  driver.bbt.map fun bbt =>
    driver.update nand fails (setBbtMark bbt block .worn) (markNandBad block)

/-- `nand_unmarkbad_bbt`; none for a null table. -/
def nandUnmarkbadBbt (nand : NandxInfo) (driver : Driver) (block : Nat)
    (fails : Failures) : Option (Driver × Option Errno) :=
  driver.bbt.map fun bbt => driver.update nand fails (setBbtMark bbt block .good) []

/-- `bbt_is_bad`. -/
def bbtIsBad (bbt : Table) (block : Nat) : Bool := getBbtMark bbt block != .good

end EchoKernel.Nandx
