import EchoKernel.NandBbtScan

namespace EchoKernel.Nandx

open BitVec List Flash

/-!
# Updates and scans

What the two copies hold after an update or a scan that returns zero.
-/

variable {nand : NandxInfo} {flash : Flash} {fails : Failures} {main mirror : Desc}

section
variable {bbt : Table}

theorem updateBbt_of_some
    {first : Written}
    {errno : Errno}
    (isFirst : updateMain nand fails main mirror bbt = first)
    (ends : first.result = some errno) :
    updateBbt nand fails main mirror bbt =
    ⟨first.desc, mirror, markBbtRegion nand first.bbt, first.ops, some errno⟩ := by
  simp only [updateBbt, isFirst, ends]

theorem updateBbt_of_none
    {first second : Written}
    (isFirst : updateMain nand fails main mirror bbt = first)
    (isSecond : updateMirror nand fails mirror first = second)
    (ends : first.result = none) :
    updateBbt nand fails main mirror bbt = ⟨first.desc, second.desc, markBbtRegion nand second.bbt,
    first.ops ++ second.ops, second.result⟩ := by
  simp only [updateBbt, isFirst, ends, isSecond]

theorem updateMain_outcome
    (tracked : Tracked nand main.bbtAddr mirror.bbtAddr flash)
    {first : Written}
    (isFirst : updateMain nand fails main mirror bbt = first) :
    WriteOutcome nand .main mirror.bbtAddr fails.main ⟨main.version + 1, main.bbtAddr⟩ first := by
  subst isFirst
  exact writeBbt_outcome tracked.mainPlaced

theorem updateMirror_outcome
    {first second : Written}
    (tracked : Tracked nand first.desc.bbtAddr mirror.bbtAddr flash)
    (isSecond : updateMirror nand fails mirror first = second) :
    WriteOutcome nand .mirror first.desc.bbtAddr fails.mirror
    ⟨first.desc.version, mirror.bbtAddr⟩ second := by
  subst isSecond
  exact writeBbt_outcome tracked.mirrorPlaced

/-- Updates keep the descriptors right. -/
theorem tracked_updateBbt
    (tracked : Tracked nand main.bbtAddr mirror.bbtAddr flash) :
    Tracked nand (updateBbt nand fails main mirror bbt).main.bbtAddr
    (updateBbt nand fails main mirror bbt).mirror.bbtAddr
    (flash.after (updateBbt nand fails main mirror bbt).ops) := by
  have first := tracked.write_main (updateMain_outcome tracked
    (rfl : updateMain nand fails main mirror bbt = _)) rfl
  cases ends : (updateMain nand fails main mirror bbt).result with
  | some errno =>
    rw [updateBbt_of_some rfl ends]
    exact first
  | none =>
    have second := first.write_mirror (updateMirror_outcome first
      (rfl : updateMirror nand fails mirror _ = _)) rfl
    rw [updateBbt_of_none rfl rfl ends]
    rw [after_append]
    exact second

/-- What both copies hold after a successful update. -/
theorem exists_copies_updateBbt
    (tracked : Tracked nand main.bbtAddr mirror.bbtAddr flash)
    {updated : Updated}
    (updates : updateBbt nand fails main mirror bbt = updated)
    (succeeds : updated.result = none) :
    ∃ mainTable mirrorTable,
    Holds (flash.after updated.ops) .main updated.main mainTable ∧
    Holds (flash.after updated.ops) .mirror updated.mirror mirrorTable ∧
    updated.bbt = markBbtRegion nand mirrorTable ∧ updated.main.version =
    main.version + 1 + BitVec.ofNat 8 fails.main.length ∧
    updated.mirror.version = updated.main.version + BitVec.ofNat 8 fails.mirror.length ∧
    mainTable = (updateMain nand fails main mirror bbt).bbt ∧
    (fails.mirror = [] → mainTable = mirrorTable) := by
  generalize isFirst : updateMain nand fails main mirror bbt = first
  have firstOutcome := updateMain_outcome tracked isFirst
  have firstTracked := tracked.write_main firstOutcome rfl
  cases ends : first.result with
  | some errno =>
    rw [updateBbt_of_some isFirst ends] at updates
    subst updates
    cases succeeds
  | none =>
    generalize isSecond : updateMirror nand fails mirror first = second
    have secondOutcome := updateMirror_outcome firstTracked isSecond
    rw [updateBbt_of_none isFirst isSecond ends] at updates
    subst updates
    obtain ⟨mainHolds, mainVersion⟩ := WriteOutcome.holds firstOutcome ends
    obtain ⟨mirrorHolds, mirrorVersion⟩ := WriteOutcome.holds secondOutcome succeeds
    have mainKept := secondOutcome.holds_other mainHolds rfl
    rw [← after_append] at mirrorHolds mainKept
    dsimp only
    refine ⟨first.bbt, second.bbt, mainKept, mirrorHolds, rfl, ?_, mirrorVersion, rfl, ?_⟩
    · exact mainVersion
    intro noFailure
    rw [← isSecond]
    exact (writeBbt_bbt_of_nil noFailure).symm

end

variable {state : ScanState} {failures : List SaveFailure} {env : ScanEnv} {bbt : Table}

/-- The descriptors point to the same blocks. -/
def SameAddr (first second : ScanState) : Prop :=
  first.main.bbtAddr = second.main.bbtAddr ∧ first.mirror.bbtAddr = second.mirror.bbtAddr

theorem sameAddr_readMain : SameAddr (readMain flash none state) state := by
  unfold readMain
  split <;> exact ⟨rfl, rfl⟩

theorem sameAddr_readMirror : SameAddr (readMirror flash none state) state := by
  unfold readMirror
  split <;> exact ⟨rfl, rfl⟩

theorem sameAddr_readCopies
    (readable : env.Readable) :
    SameAddr (readCopies flash env state) state := by
  rw [readCopies, readable.1, readable.2]
  have first := @sameAddr_readMain flash state
  generalize readMain flash none state = next at first
  split
  · exact first
  · have second := @sameAddr_readMirror flash next
    exact ⟨second.1.trans first.1, second.2.trans first.2⟩

theorem sameAddr_createIfNone : SameAddr (createIfNone nand flash state) state := by
  unfold createIfNone
  split <;> exact ⟨rfl, rfl⟩

/-- Where copies are found does not depend on reading. -/
theorem bbtAddr_scanCopies
    (readable : env.Readable) :
    (scanCopies nand flash env).main.bbtAddr =
    (searchBbt nand flash .main).bbtAddr ∧
    (scanCopies nand flash env).mirror.bbtAddr = (searchBbt nand flash .mirror).bbtAddr := by
  unfold scanCopies
  dsimp only
  generalize isFound : ScanState.mk (searchBbt nand flash .main)
    (searchBbt nand flash .mirror) _ _ = found
  have read := @sameAddr_readCopies flash found env readable
  have created := @sameAddr_createIfNone nand flash (readCopies flash env found)
  have mainIs : found.main = searchBbt nand flash .main := by rw [← isFound]
  have mirrorIs : found.mirror = searchBbt nand flash .mirror := by rw [← isFound]
  rw [← mainIs, ← mirrorIs]
  exact ⟨created.1.trans read.1, created.2.trans read.2⟩

theorem tracked_writeUnless_main
    {valid : Bool}
    {other : Option Nat}
    {main : Desc}
    (tracked : Tracked nand main.bbtAddr other flash) :
    Tracked nand
    (writeUnless nand valid .main other failures main bbt).desc.bbtAddr other (flash.after
    (writeUnless nand valid .main other failures main bbt).ops) := by
  cases valid with
  | true => exact tracked
  | false =>
    exact tracked.write_main (writeBbt_outcome tracked.mainPlaced) rfl

theorem tracked_writeUnless_mirror
    {valid : Bool}
    {other : Option Nat}
    {mirror : Desc}
    (tracked : Tracked nand other mirror.bbtAddr flash) :
    Tracked nand other (writeUnless nand valid .mirror other failures mirror bbt).desc.bbtAddr
    (flash.after (writeUnless nand valid .mirror other failures mirror bbt).ops) := by
  cases valid with
  | true => exact tracked
  | false =>
    exact tracked.write_mirror (writeBbt_outcome tracked.mirrorPlaced) rfl

/-- The writes of a scan keep the descriptors right. -/
theorem tracked_scanWrites
    (tracked : Tracked nand state.main.bbtAddr state.mirror.bbtAddr flash) :
    Tracked nand (scanWrites nand fails state).main.bbtAddr
    (scanWrites nand fails state).mirror.bbtAddr
    (flash.after (scanWrites nand fails state).ops) := by
  have first := @tracked_writeUnless_main nand flash fails.main state.bbt state.valid.main
    state.mirror.bbtAddr state.main tracked
  unfold scanWrites
  dsimp only
  split
  case h_1 errno fails => exact first
  case h_2 succeeds =>
    have second := @tracked_writeUnless_mirror nand _ fails.mirror
      (writeUnless nand state.valid.main .main state.mirror.bbtAddr
      fails.main state.main state.bbt).bbt state.valid.mirror _ state.mirror first
    split
    · rw [after_append]
      exact second
    · rw [after_append]
      exact second

theorem tracked_scanBbt
    (readable : env.Readable)
    (single : Single nand flash) :
    Tracked nand (scanBbt nand flash env).main.bbtAddr (scanBbt nand flash env).mirror.bbtAddr
    (flash.after (scanBbt nand flash env).ops) := by
  refine tracked_scanWrites ?_
  rw [(bbtAddr_scanCopies readable).1, (bbtAddr_scanCopies readable).2]
  exact tracked_searchBbt single

/-- A successful scan wrote both copies, or found them. -/
theorem scanWrites_succeeds
    {scanned : Scanned}
    (writes : scanWrites nand fails state = scanned)
    (succeeds : scanned.result = none) :
    ∃ first second,
    writeUnless nand state.valid.main .main state.mirror.bbtAddr
    fails.main state.main state.bbt = first ∧ first.result = none ∧
    writeUnless nand state.valid.mirror .mirror first.desc.bbtAddr
    fails.mirror state.mirror first.bbt = second ∧ second.result = none ∧
    scanned = ⟨first.desc, second.desc, some (markBbtRegion nand second.bbt),
    first.ops ++ second.ops, none⟩ := by
  unfold scanWrites at writes
  dsimp only at writes
  split at writes
  case h_1 =>
    subst writes
    cases succeeds
  case h_2 firstSucceeds =>
    split at writes
    case h_1 =>
      subst writes
      cases succeeds
    case h_2 secondSucceeds =>
      exact ⟨_, _, rfl, firstSucceeds, rfl, secondSucceeds, writes.symm⟩

/-- The table of the newer copy, or of the main one. -/
def newerTable (main mirror : Desc) (mainTable mirrorTable : Table) : Table :=
  if main.version < mirror.version then mirrorTable else mainTable

/-- Failures do not make the version wrap. -/
def VersionRoom (version : BitVec 8) (fails : List SaveFailure) : Prop :=
  fails = [] ∨ version.toNat + fails.length < 256

theorem VersionRoom.lt
    {version : BitVec 8}
    (room : VersionRoom version failures)
    (some : failures ≠ []) :
    version < version + BitVec.ofNat 8 failures.length := by
  have below := room.resolve_left some
  have positive := List.length_pos_iff.mpr some
  rw [lt_def, toNat_add, toNat_ofNat]
  omega

variable {table : Table} {scanned : Scanned}

/-- The main copy is valid, the mirror one written. -/
theorem exists_copies_of_main
    (tracked : Tracked nand main.bbtAddr mirror.bbtAddr flash)
    (holds : Holds flash .main main table)
    (writes : scanWrites nand fails ⟨main, ⟨main.version, mirror.bbtAddr⟩, ⟨true, false⟩, table⟩ =
      scanned)
    (succeeds : scanned.result = none) :
    ∃ mirrorTable,
    Holds (flash.after scanned.ops) .main scanned.main table ∧
    Holds (flash.after scanned.ops) .mirror scanned.mirror mirrorTable ∧
    scanned.bbt = some (markBbtRegion nand mirrorTable) ∧ scanned.main = main ∧
    scanned.mirror.version = main.version + BitVec.ofNat 8 fails.mirror.length ∧
    scanned.mirror = (writeBbt nand .mirror main.bbtAddr fails.mirror
    ⟨main.version, mirror.bbtAddr⟩ table).desc ∧ (fails.mirror = [] → mirrorTable = table) := by
  obtain ⟨first, second, isFirst, -, isSecond, secondSucceeds, rfl⟩ :=
    scanWrites_succeeds writes succeeds
  dsimp only [writeUnless] at isFirst
  subst isFirst
  have outcome : WriteOutcome nand .mirror main.bbtAddr fails.mirror
      ⟨main.version, mirror.bbtAddr⟩ second := by
    rw [← isSecond]
    exact writeBbt_outcome tracked.mirrorPlaced
  obtain ⟨mirrorHolds, mirrorVersion⟩ := WriteOutcome.holds outcome secondSucceeds
  refine ⟨second.bbt, outcome.holds_other holds rfl, mirrorHolds, rfl, rfl,
    mirrorVersion, by rw [← isSecond]; rfl, ?_⟩
  intro noFailure
  rw [← isSecond]
  exact writeBbt_bbt_of_nil noFailure

/-- The mirror copy is valid, the main one written. -/
theorem exists_copies_of_mirror
    (tracked : Tracked nand main.bbtAddr mirror.bbtAddr flash)
    (holds : Holds flash .mirror mirror table)
    (writes : scanWrites nand fails ⟨⟨mirror.version, main.bbtAddr⟩, mirror, ⟨false, true⟩, table⟩ =
      scanned)
    (succeeds : scanned.result = none) :
    ∃ mainTable,
    Holds (flash.after scanned.ops) .main scanned.main mainTable ∧
    Holds (flash.after scanned.ops) .mirror scanned.mirror table ∧
    scanned.bbt = some (markBbtRegion nand mainTable) ∧ scanned.mirror = mirror ∧
    scanned.main.version = mirror.version + BitVec.ofNat 8 fails.main.length ∧
    scanned.main = (writeBbt nand .main mirror.bbtAddr fails.main
    ⟨mirror.version, main.bbtAddr⟩ table).desc ∧ (fails.main = [] → mainTable = table) := by
  obtain ⟨first, second, isFirst, firstSucceeds, isSecond, -, rfl⟩ :=
    scanWrites_succeeds writes succeeds
  dsimp only [writeUnless] at isSecond
  rw [if_pos rfl] at isSecond
  subst isSecond
  have outcome : WriteOutcome nand .main mirror.bbtAddr fails.main
      ⟨mirror.version, main.bbtAddr⟩ first := by
    rw [← isFirst]
    exact writeBbt_outcome tracked.mainPlaced
  obtain ⟨mainHolds, mainVersion⟩ := WriteOutcome.holds outcome firstSucceeds
  rw [append_nil]
  refine ⟨first.bbt, mainHolds, outcome.holds_other holds rfl, rfl, rfl,
    mainVersion, by rw [← isFirst]; rfl, ?_⟩
  intro noFailure
  rw [← isFirst]
  exact writeBbt_bbt_of_nil noFailure

theorem exists_copies_of_none
    (writes : scanWrites nand fails ⟨⟨1, none⟩, ⟨1, none⟩, ⟨false, false⟩, table⟩ = scanned)
    (succeeds : scanned.result = none)
    (sized : table.length = nand.totalBlock) :
    ∃ mainTable mirrorTable, Holds (flash.after scanned.ops) .main scanned.main mainTable ∧
    Holds (flash.after scanned.ops) .mirror scanned.mirror mirrorTable ∧
    scanned.bbt = some (markBbtRegion nand mirrorTable) ∧
    scanned.main.version = 1 + BitVec.ofNat 8 fails.main.length ∧
    scanned.mirror.version = 1 + BitVec.ofNat 8 fails.mirror.length ∧
    scanned.main = (writeBbt nand .main none fails.main ⟨1, none⟩ table).desc ∧
    mainTable = (writeBbt nand .main none fails.main ⟨1, none⟩ table).bbt ∧ scanned.mirror =
    (writeBbt nand .mirror scanned.main.bbtAddr fails.mirror ⟨1, none⟩ mainTable).desc ∧
    (fails.mirror = [] → mirrorTable = mainTable) ∧ fails.main.length ≤ maxBlocks ∧
    fails.mirror.length ≤ maxBlocks := by
  obtain ⟨first, second, isFirst, firstSucceeds, isSecond, secondSucceeds, rfl⟩ :=
    scanWrites_succeeds writes succeeds
  have firstOutcome : WriteOutcome nand .main none fails.main ⟨1, none⟩ first := by
    rw [← isFirst]
    exact writeBbt_outcome placed_none
  have secondOutcome : WriteOutcome nand .mirror first.desc.bbtAddr fails.mirror ⟨1, none⟩
      second := by
    rw [← isSecond]
    exact writeBbt_outcome placed_none
  obtain ⟨mainHolds, mainVersion⟩ := WriteOutcome.holds firstOutcome firstSucceeds
  obtain ⟨mirrorHolds, mirrorVersion⟩ := WriteOutcome.holds secondOutcome secondSucceeds
  have mainKept := secondOutcome.holds_other mainHolds rfl
  rw [← after_append] at mirrorHolds mainKept
  have firstSized : first.bbt.length = nand.totalBlock := by
    rw [← isFirst]
    exact length_writeBbt.trans sized
  refine ⟨first.bbt, second.bbt, mainKept, mirrorHolds, rfl, mainVersion,
    mirrorVersion, by rw [← isFirst]; rfl, by rw [← isFirst]; rfl,
    by rw [← isSecond]; rfl, ?_, ?_, ?_⟩
  · intro noFailure
    rw [← isSecond]
    exact writeBbt_bbt_of_nil noFailure
  · rw [← isFirst] at firstSucceeds
    exact length_le_of_writeBbt_succeeds sized firstSucceeds
  · rw [← isSecond] at secondSucceeds
    exact length_le_of_writeBbt_succeeds firstSized secondSucceeds

/-- A table of good blocks has a mark for each. -/
theorem length_createBbt : (createBbt nand flash bbt).length = bbt.length := by
  unfold createBbt
  induction range nand.totalBlock generalizing bbt with
  | nil => rfl
  | cons block rest inductionHypothesis =>
    rw [foldl_cons, inductionHypothesis]
    split
    · exact length_setBbtMark
    · rfl

theorem length_createBbt_replicate :
    (createBbt nand flash
    (replicate (4 * (nand.totalBlock / 4)) .good)).length = nand.totalBlock := by
  have packed := nand.packed
  rw [length_createBbt, length_replicate]
  omega

/--
When the written copies are told apart from the found ones: versions do not
wrap, and without copies the mirror one gets the larger version if its write
fails.
-/
def TellsApart (main mirror : Desc) (fails : Failures) : ValidDesc → Prop
  | ⟨true, true⟩ => True
  | ⟨true, false⟩ => VersionRoom main.version fails.mirror
  | ⟨false, true⟩ => VersionRoom mirror.version fails.main
  | ⟨false, false⟩ => fails.mirror = [] ∨ fails.main.length < fails.mirror.length

/-- When a scan tells its copies apart. -/
def ScanCondition (nand : NandxInfo) (flash : Flash) (fails : Failures) : Prop :=
  TellsApart (searchBbt nand flash .main) (searchBbt nand flash .mirror) fails
    (validDesc (searchBbt nand flash .main) (searchBbt nand flash .mirror))

/-- What both copies hold after a successful scan. -/
theorem exists_copies_scanBbt
    (readable : env.Readable)
    (single : Single nand flash)
    (scans : scanBbt nand flash env = scanned)
    (succeeds : scanned.result = none)
    (condition : ScanCondition nand flash env.fails) :
    ∃ mainTable mirrorTable,
    Holds (flash.after scanned.ops) .main scanned.main mainTable ∧
    Holds (flash.after scanned.ops) .mirror scanned.mirror mirrorTable ∧ scanned.bbt =
    some (markBbtRegion nand (newerTable scanned.main scanned.mirror mainTable mirrorTable)) := by
  have tracked := tracked_searchBbt single
  have found := found_searchBbt nand flash
  unfold ScanCondition at condition
  rw [scanBbt] at scans
  generalize isMain : searchBbt nand flash .main = main at tracked condition found
  generalize isMirror : searchBbt nand flash .mirror = mirror at tracked condition found
  generalize isValid : validDesc main mirror = valid at condition found
  cases found with
  | none noMain noMirror =>
    rw [scanCopies_of_none isMain isMirror noMain noMirror] at scans
    obtain ⟨mainTable, mirrorTable, mainHolds, mirrorHolds, isBbt,
        mainVersion, mirrorVersion, -, -, -, sameTable, mainShort, mirrorShort⟩ :=
      exists_copies_of_none scans succeeds length_createBbt_replicate
    refine ⟨mainTable, mirrorTable, mainHolds, mirrorHolds, ?_⟩
    rw [isBbt, newerTable]
    rcases condition with noFailure | more
    · rw [sameTable noFailure, ite_self]
    rw [if_pos]
    simp only [maxBlocks] at mainShort mirrorShort
    rw [mainVersion, mirrorVersion, lt_def, toNat_add, toNat_add, toNat_ofNat, toNat_ofNat]
    change (1 + _) % 256 < (1 + _) % 256
    omega
  | main holds newer =>
    rw [scanCopies_of_main readable isMain isMirror isValid holds newer] at scans
    obtain ⟨mirrorTable, mainHolds, mirrorHolds, isBbt, mainIs, mirrorVersion, -, sameTable⟩ :=
      exists_copies_of_main tracked holds scans succeeds
    refine ⟨_, mirrorTable, mainHolds, mirrorHolds, ?_⟩
    rw [isBbt, newerTable]
    by_cases noFailure : env.fails.mirror = []
    · rw [sameTable noFailure, ite_self]
    rw [if_pos]
    rw [mainIs, mirrorVersion]
    exact VersionRoom.lt condition noFailure
  | mirror holds newer =>
    rw [scanCopies_of_mirror readable isMain isMirror isValid holds newer] at scans
    obtain ⟨mainTable, mainHolds, mirrorHolds, isBbt, mirrorIs, mainVersion, -, sameTable⟩ :=
      exists_copies_of_mirror tracked holds scans succeeds
    refine ⟨mainTable, _, mainHolds, mirrorHolds, ?_⟩
    rw [isBbt, newerTable]
    by_cases noFailure : env.fails.main = []
    · rw [sameTable noFailure, ite_self]
    have larger := VersionRoom.lt condition noFailure
    rw [if_neg]
    rw [mirrorIs, mainVersion]
    exact BitVec.lt_asymm larger
  | same holdsMain holdsMirror same =>
    rw [scanCopies_of_same readable isMain isMirror isValid holdsMain same] at scans
    subst scans
    refine ⟨_, _, holdsMain, holdsMirror, ?_⟩
    have equal : ¬ main.version < mirror.version := by
      rw [same]
      exact BitVec.lt_irrefl _
    rw [newerTable]
    simp [scanWrites, writeUnless, equal]

end EchoKernel.Nandx
