import EchoKernel.NandBbtRuns

namespace EchoKernel.Nandx

open LabelledRun List Option Request Flash FlashOp

/-!
# Power loss during an update

An update clears and saves the main copy and then the mirror copy. When both
were the same before, one is whole after every operation, and the next scan
brings both to one table.
-/

variable {nand : NandxInfo}

section
variable {flash : Flash} {main mirror : Desc} {table : Table}

/-- The next scan ends with this table in both copies. -/
def Recovers (nand : NandxInfo) (flash : Flash) (table : Table) : Prop :=
  (scanBbt nand flash quiet).result = none ∧
    Holds (flash.after (scanBbt nand flash quiet).ops) .main (scanBbt nand flash quiet).main table ∧
    Holds (flash.after (scanBbt nand flash quiet).ops) .mirror
      (scanBbt nand flash quiet).mirror table

/-- The descriptor has a block, or one can be found. -/
def HasRoom (nand : NandxInfo) (desc : Desc) (other : Option Nat) (table : Table) : Prop :=
  ∃ block, desc.bbtAddr = some block ∨ block ∈ candidates nand table other

theorem Holds.after_apart
    {pattern : Pattern}
    {ops : List FlashOp}
    (holds : Holds flash pattern main table)
    (apart : ∀ op ∈ ops, main.bbtAddr ≠ some op.block) :
    Holds (flash.after ops) pattern main table := by
  obtain ⟨block, isBlock, copy⟩ := holds
  refine ⟨block, isBlock, ?_⟩
  rw [copyAt_after_of_apart]
  · exact copy
  · intro op isOp same
    exact apart op isOp (same ▸ isBlock)

/-- A copy with room is saved. -/
theorem writeBbt_succeeds_of_room
    {pattern : Pattern}
    {other : Option Nat}
    {version : BitVec 8}
    (room : HasRoom nand main other table) :
    (writeBbt nand pattern other [] ⟨version, main.bbtAddr⟩ table).result = none := by
  obtain ⟨block, isAddr | member⟩ := room
  · rw [writeBbt, isAddr, some_or]
  obtain ⟨inRegion, notBad, apart⟩ := mem_candidates.mp member
  obtain ⟨chosen, isChosen⟩ := exists_getBbtAddress inRegion notBad apart
  rw [writeBbt, isChosen]
  cases main.bbtAddr <;> rfl

section
variable (tracked : Tracked nand main.bbtAddr mirror.bbtAddr flash)
  (isMain : searchBbt nand flash .main = main) (isMirror : searchBbt nand flash .mirror = mirror)
include tracked isMain isMirror

theorem recovers_of_main
    (holds : Holds flash .main main table)
    (valid : validDesc main mirror = ⟨true, false⟩)
    (newer : mirror = ⟨0, none⟩ ∨ mirror.version < main.version)
    (room : HasRoom nand mirror main.bbtAddr table) :
    Recovers nand flash table := by
  have copies := @scanCopies_of_main nand flash quiet main mirror table ⟨rfl, rfl⟩
    isMain isMirror valid holds newer
  unfold Recovers
  generalize isScanned : scanBbt nand flash quiet = scanned
  rw [scanBbt, copies] at isScanned
  have succeeds : scanned.result = none := by
    have written :=
      @writeBbt_succeeds_of_room nand mirror table .mirror main.bbtAddr main.version room
    simp [← isScanned, scanWrites, writeUnless, quiet, written]
  obtain ⟨mirrorTable, holdsMain, holdsMirror, -, -, -, -, sameTable⟩ :=
    exists_copies_of_main tracked holds isScanned succeeds
  rw [sameTable rfl] at holdsMirror
  exact ⟨succeeds, holdsMain, holdsMirror⟩

theorem recovers_of_mirror
    (holds : Holds flash .mirror mirror table)
    (valid : validDesc main mirror = ⟨false, true⟩)
    (newer : main = ⟨0, none⟩ ∨ main.version < mirror.version)
    (room : HasRoom nand main mirror.bbtAddr table) :
    Recovers nand flash table := by
  have copies := @scanCopies_of_mirror nand flash quiet main mirror table ⟨rfl, rfl⟩
    isMain isMirror valid holds newer
  unfold Recovers
  generalize isScanned : scanBbt nand flash quiet = scanned
  rw [scanBbt, copies] at isScanned
  have succeeds : scanned.result = none := by
    have written :=
      @writeBbt_succeeds_of_room nand main table .main mirror.bbtAddr mirror.version room
    simp [← isScanned, scanWrites, writeUnless, quiet, written]
  obtain ⟨mainTable, holdsMain, holdsMirror, -, -, -, -, sameTable⟩ :=
    exists_copies_of_mirror tracked holds isScanned succeeds
  rw [sameTable rfl] at holdsMain
  exact ⟨succeeds, holdsMain, holdsMirror⟩

end

/-- Copies with different versions, or the same table. -/
theorem recovers_of_both
    {mainTable mirrorTable : Table}
    (tracked : Tracked nand main.bbtAddr mirror.bbtAddr flash)
    (holdsMain : Holds flash .main main mainTable)
    (holdsMirror : Holds flash .mirror mirror mirrorTable)
    (apart : main.version = mirror.version → mainTable = mirrorTable) :
    Recovers nand flash (newerTable main mirror mainTable mirrorTable) := by
  have isMain := searchBbt_main tracked holdsMain
  have isMirror := searchBbt_mirror tracked holdsMirror
  rw [newerTable]
  rcases validDesc_of_holds holdsMain holdsMirror with
    ⟨valid, newer⟩ | ⟨valid, newer⟩ | ⟨valid, same⟩
  · obtain ⟨block, isAddr, -⟩ := holdsMirror
    rw [if_neg (BitVec.lt_asymm newer)]
    exact recovers_of_main tracked isMain isMirror holdsMain valid (.inr newer) ⟨block, .inl isAddr⟩
  · obtain ⟨block, isAddr, -⟩ := holdsMain
    rw [if_pos newer]
    exact recovers_of_mirror tracked isMain isMirror holdsMirror valid (.inr newer)
      ⟨block, .inl isAddr⟩
  have copies := @scanCopies_of_same nand flash quiet main mirror mainTable
    ⟨rfl, rfl⟩ isMain isMirror valid holdsMain same
  rw [apart same, ite_self]
  rw [apart same] at holdsMain
  unfold Recovers
  rw [scanBbt, copies]
  exact ⟨rfl, holdsMain, holdsMirror⟩

theorem recovers_of_mirror_only
    (tracked : Tracked nand none mirror.bbtAddr flash)
    (holds : Holds flash .mirror mirror table)
    {block : Nat}
    (member : block ∈ candidates nand table mirror.bbtAddr) :
    Recovers nand flash table := by
  have isMain := searchBbt_eq_none tracked.mainOnly
  have isMirror := @searchBbt_mirror nand flash ⟨0, none⟩ mirror table tracked holds
  obtain ⟨mirrorBlock, mirrorAddr, -⟩ := id holds
  refine recovers_of_mirror tracked isMain isMirror holds ?_ (.inl rfl) ⟨block, .inr member⟩
  simp [validDesc, mirrorAddr]

theorem recovers_of_main_only
    (tracked : Tracked nand main.bbtAddr none flash)
    (holds : Holds flash .main main table)
    {block : Nat}
    (member : block ∈ candidates nand table main.bbtAddr) :
    Recovers nand flash table := by
  have isMirror := searchBbt_eq_none tracked.mirrorOnly
  have isMain := @searchBbt_main nand flash main ⟨0, none⟩ table tracked holds
  obtain ⟨mainBlock, mainAddr, -⟩ := id holds
  refine recovers_of_main tracked isMain isMirror holds ?_ (.inl rfl) ⟨block, .inr member⟩
  simp [validDesc, mainAddr]

end

variable {driver next : Driver}

section
variable {table : Table}

/-- Both copies hold the driver's table, in blocks not bad. -/
structure Synced (nand : NandxInfo) (driver : Driver) (table : Table) : Prop where
  tracked : Tracked nand driver.main.bbtAddr driver.mirror.bbtAddr driver.flash
  holdsMain : Holds driver.flash .main driver.main table
  holdsMirror : Holds driver.flash .mirror driver.mirror table
  sameVersion : driver.main.version = driver.mirror.version
  isBbt : driver.bbt = some (markBbtRegion nand table)
  sized : table.length = nand.totalBlock
  mainGood : ∀ block, driver.main.bbtAddr = some block → (getBbtMark table block).isBad = false
  mirrorGood : ∀ block, driver.mirror.bbtAddr = some block → (getBbtMark table block).isBad = false

/-- What a call does before it updates the table. -/
def Request.before : Request → List FlashOp
  | .scan _ => []
  | .markBad block _ => markNandBad block
  | .unmark _ _ => []

def Request.fails : Request → Failures
  | .scan fails => fails
  | .markBad _ fails => fails
  | .unmark _ fails => fails

/-- The marks with which a call updates the table. -/
def Request.marks (bbt : Table) : Request → Option Table
  | .scan _ => none
  | .markBad block _ => some (setBbtMark bbt block .worn)
  | .unmark block _ => some (setBbtMark bbt block .good)

/-- No write of the mirror copy fails, and marked blocks are apart from the copies. -/
def Request.Apart (driver : Driver) : Request → Prop
  | .scan _ => False
  | .markBad block fails =>
    fails.mirror = [] ∧ driver.main.bbtAddr ≠ some block ∧ driver.mirror.bbtAddr ≠ some block
  | .unmark _ fails => fails.mirror = []

theorem perform_eq
    {request : Request}
    {bbt marks : Table}
    (isBbt : driver.bbt = some bbt)
    (isMarks : request.marks bbt = some marks) :
    perform nand driver request = some (driver.update nand request.fails marks request.before) := by
  cases request with
  | scan fails => cases isMarks
  | markBad block fails =>
    cases isMarks
    simp [perform, bbtMarkBad, isBbt, Request.fails, before]
  | unmark block fails =>
    cases isMarks
    simp [perform, nandUnmarkbadBbt, isBbt, Request.fails, before]

/-- What an update apart from the copies starts with. -/
structure Marked (nand : NandxInfo) (driver : Driver) (request : Request)
    (marks : Table) : Prop where
  sized : marks.length = nand.totalBlock
  noFailure : request.fails.mirror = []
  clears : ∀ op ∈ request.before, op.clears
  apartMain : ∀ op ∈ request.before, driver.main.bbtAddr ≠ some op.block
  apartMirror : ∀ op ∈ request.before, driver.mirror.bbtAddr ≠ some op.block
  mainGood : ∀ block, driver.main.bbtAddr = some block → (getBbtMark marks block).isBad = false
  mirrorGood : ∀ block, driver.mirror.bbtAddr = some block → (getBbtMark marks block).isBad = false

/-- The marks of a call on a driver with equal copies. -/
theorem exists_marks
    {request : Request}
    (synced : Synced nand driver table)
    (apart : request.Apart driver) :
    ∃ marks, request.marks (markBbtRegion nand table) =
    some marks ∧ Marked nand driver request marks := by
  have goodAt : ∀ addr block mark, (∀ place, addr = some place →
      (getBbtMark table place).isBad = false) → (mark = .good ∨ addr ≠ some block) →
      ∀ place, addr = some place → (getBbtMark (setBbtMark (markBbtRegion nand table) block mark)
      place).isBad = false := by
    intro addr block mark good allowed place isPlace
    by_cases isBlock : block = place
    · subst isBlock
      have isGood := allowed.resolve_right (fun differs => differs isPlace)
      subst isGood
      rw [getBbtMark_setBbtMark_good, Mark.isBad]
    · rw [getBbtMark_setBbtMark_of_ne isBlock, isBad_markBbtRegion synced.sized]
      exact good place isPlace
  have sizedMarks : ∀ block mark, (setBbtMark (markBbtRegion nand table) block mark).length =
      nand.totalBlock := by
    intro block mark
    rw [length_setBbtMark, length_markBbtRegion]
    exact synced.sized
  cases request with
  | scan fails => exact absurd apart id
  | markBad block fails =>
    obtain ⟨noFailure, apartMain, apartMirror⟩ := apart
    refine ⟨_, rfl, sizedMarks _ _, noFailure, clears_markNandBad, ?_,
      ?_, goodAt _ _ _ synced.mainGood (.inr apartMain),
      goodAt _ _ _ synced.mirrorGood (.inr apartMirror)⟩
    · simpa [before, markNandBad, FlashOp.block] using apartMain
    · simpa [before, markNandBad, FlashOp.block] using apartMirror
  | unmark block fails =>
    exact ⟨_, rfl, sizedMarks _ _, apart, by simp [before],
      by simp [before], by simp [before],
      goodAt _ _ _ synced.mainGood (.inl rfl),
      goodAt _ _ _ synced.mirrorGood (.inl rfl)⟩

end

variable {table marks : Table} {request : Request} {first : Written} {mirrorBlock : Nat}

theorem updateMirror_of_nil
    {mirror : Desc}
    {fails : Failures}
    (noFailure : fails.mirror = [])
    (isMirror : mirror.bbtAddr = some mirrorBlock) :
    updateMirror nand fails mirror first = ⟨⟨first.desc.version, some mirrorBlock⟩, first.bbt,
    [.erase mirrorBlock, .save mirrorBlock ⟨.mirror, first.desc.version, first.bbt⟩], none⟩ := by
  rw [updateMirror, noFailure, isMirror, writeBbt, some_or]

/-- An update with a block for the mirror copy. -/
theorem updateBbt_of_saved
    {main mirror : Desc}
    {fails : Failures}
    (noFailure : fails.mirror = [])
    (isMirror : mirror.bbtAddr = some mirrorBlock)
    (isFirst : updateMain nand fails main mirror marks = first)
    (succeeds : first.result = none) :
    updateBbt nand fails main mirror marks = ⟨first.desc, ⟨first.desc.version, some mirrorBlock⟩,
    markBbtRegion nand first.bbt, first.ops ++
    [.erase mirrorBlock, .save mirrorBlock ⟨.mirror, first.desc.version, first.bbt⟩], none⟩ := by
  rw [updateBbt_of_none isFirst (updateMirror_of_nil noFailure isMirror) succeeds]

/-- A call apart from the copies with room for the main one. -/
def Request.Calm (nand : NandxInfo) (driver : Driver) (request : Request) : Prop :=
  request.Apart driver ∧ ∀ bbt, driver.bbt = some bbt → ∀ marks, request.marks bbt = some marks →
        request.fails.main.length < (candidates nand marks driver.mirror.bbtAddr).length

section
variable (synced : Synced nand driver table) (marked : Marked nand driver request marks)
include synced marked

/-- The main copy of a calm call is saved. -/
theorem updateMain_succeeds
    (room : request.fails.main.length < (candidates nand marks driver.mirror.bbtAddr).length) :
    (updateMain nand request.fails driver.main driver.mirror marks).result = none := by
  obtain ⟨mainBlock, isMain, -⟩ := synced.holdsMain
  obtain ⟨inRegion, apart⟩ := synced.tracked.mainPlaced mainBlock isMain
  have same := @candidates_unmarkBbtRegion nand driver.mirror.bbtAddr marks marked.sized
  have member : mainBlock ∈ candidates nand (unmarkBbtRegion nand marks) driver.mirror.bbtAddr := by
    rw [same]
    exact mem_candidates.mpr ⟨inRegion, marked.mainGood mainBlock isMain, apart⟩
  have sized : (unmarkBbtRegion nand marks).length = nand.totalBlock := by
    rw [length_unmarkBbtRegion]
    exact marked.sized
  refine (@writeBbt_succeeds_iff nand mainBlock .main _
    ⟨driver.main.version + 1, driver.main.bbtAddr⟩ driver.mirror.bbtAddr _
    sized isMain member).mpr ?_
  rw [same]
  exact room

/-- The table that the main copy of an update gets. -/
theorem updateMain_table
    (isFirst : updateMain nand request.fails driver.main driver.mirror marks = first) :
    first.bbt.length = nand.totalBlock ∧
    (∀ block, first.desc.bbtAddr = some block → (getBbtMark first.bbt block).isBad = false) ∧
    ∀ block, driver.mirror.bbtAddr = some block → (getBbtMark first.bbt block).isBad = false := by
  subst isFirst
  refine ⟨?_, ?_, ?_⟩
  · rw [updateMain, length_writeBbt, length_unmarkBbtRegion]
    exact marked.sized
  · intro block isBlock
    refine isBad_writeBbt ?_ isBlock
    intro place isPlace
    rw [isBad_unmarkBbtRegion marked.sized]
    exact marked.mainGood place isPlace
  · intro block isBlock
    have kept := @getBbtMark_writeBbt_apart nand block .main request.fails.main
      ⟨driver.main.version + 1, driver.main.bbtAddr⟩ driver.mirror.bbtAddr
      (unmarkBbtRegion nand marks) synced.tracked.mainPlaced (.inr isBlock)
    rw [updateMain, kept, isBad_unmarkBbtRegion marked.sized]
    exact marked.mirrorGood block isBlock

/-- A calm call returns zero and leaves equal copies. -/
theorem exists_synced_update
    (room : request.fails.main.length < (candidates nand marks driver.mirror.bbtAddr).length) :
    ∃ next nextTable, driver.update nand request.fails marks request.before = (next, none) ∧
    Synced nand next nextTable := by
  have succeeds := updateMain_succeeds synced marked room
  obtain ⟨mirrorBlock, isMirror, -⟩ := synced.holdsMirror
  have clearTracked := synced.tracked.after_clears marked.clears
  have nextTracked :=
    @tracked_update nand driver request.before request.fails marks synced.tracked marked.clears
  generalize isFirst : updateMain nand request.fails driver.main driver.mirror marks = first
    at succeeds
  have updates := updateBbt_of_saved marked.noFailure isMirror isFirst succeeds
  obtain ⟨sized, mainGood, mirrorGood⟩ := updateMain_table synced marked isFirst
  obtain ⟨mainTable, mirrorTable, holdsMain, holdsMirror, -, -, -, isTable, sameTable⟩ :=
    exists_copies_updateBbt clearTracked updates (by dsimp only)
  rw [← sameTable marked.noFailure, isTable, isFirst] at holdsMirror
  rw [isTable, isFirst] at holdsMain
  rw [← after_append] at holdsMain holdsMirror
  rw [Driver.update, updates] at nextTracked ⊢
  refine ⟨_, first.bbt, rfl, ?_⟩
  constructor
  case tracked => exact nextTracked
  case holdsMain => exact holdsMain
  case holdsMirror => exact holdsMirror
  case sameVersion => dsimp only
  case isBbt => dsimp only
  case sized => exact sized
  case mainGood => exact mainGood
  case mirrorGood =>
    intro block isBlock
    exact mirrorGood block (isMirror.trans isBlock)

end

section
variable {ops : List FlashOp}

/-- The mirror copy stays while the main one is cleared. -/
theorem recovers_while_clearing
    (synced : Synced nand driver table)
    (clears : ∀ op ∈ ops, op.clears)
    (apart : ∀ op ∈ ops, driver.mirror.bbtAddr ≠ some op.block) :
    Recovers nand (driver.flash.after ops) table := by
  have tracked := synced.tracked.after_clears clears
  obtain ⟨mainBlock, isMain, mainCopy⟩ := id synced.holdsMain
  have holdsMirror := synced.holdsMirror.after_apart apart
  by_cases reached : ∃ op ∈ ops, op.block = mainBlock
  · have nowhere : Tracked nand none driver.mirror.bbtAddr (driver.flash.after ops) := by
      refine ⟨synced.tracked.mainOnly.after_reaches clears ?_, tracked.mirrorOnly, placed_none,
        tracked.mirrorPlaced.none_other⟩
      intro block isBlock
      rw [isMain, some.injEq] at isBlock
      rw [← isBlock]
      exact reached
    obtain ⟨inRegion, differs⟩ := synced.tracked.mainPlaced mainBlock isMain
    exact recovers_of_mirror_only nowhere holdsMirror (mem_candidates.mpr
      ⟨inRegion, synced.mainGood mainBlock isMain, differs⟩)
  · have holdsMain : Holds (driver.flash.after ops) .main driver.main table := by
      refine ⟨mainBlock, isMain, ?_⟩
      rw [copyAt_after_of_clears clears, if_neg reached]
      exact mainCopy
    have recovers := recovers_of_both tracked holdsMain holdsMirror fun _ => rfl
    rwa [newerTable, ite_self] at recovers

/-- A version raised by a few is not the old one. -/
theorem raised_ne
    {version : BitVec 8}
    {count : Nat}
    (few : count ≤ maxBlocks) :
    version + 1 + BitVec.ofNat 8 count ≠ version := by
  intro same
  have numbers := congrArg BitVec.toNat same
  simp only [maxBlocks] at few
  change ((version.toNat + 1) % 256 + count % 256) % 256 = version.toNat at numbers
  omega

section
variable (synced : Synced nand driver table) (marked : Marked nand driver request marks)
variable (isFirst : updateMain nand request.fails driver.main driver.mirror marks = first)
variable (succeeds : first.result = none)
include synced marked isFirst succeeds

/-- The main copy is new and the mirror one is old. -/
theorem exists_recovers_main_saved :
    ∃ recovered,
    Recovers nand (driver.flash.after (request.before ++ first.ops)) recovered ∧
    (recovered = table ∨ recovered = first.bbt) := by
  have clearTracked := synced.tracked.after_clears marked.clears
  have outcome := updateMain_outcome clearTracked isFirst
  have tracked := clearTracked.write_main outcome rfl
  obtain ⟨holdsMain, mainVersion⟩ :=
    @WriteOutcome.holds nand (driver.flash.after request.before) _ _ _ _ _ outcome succeeds
  have holdsMirror := synced.holdsMirror.after_apart marked.apartMirror
  have stillMirror := outcome.holds_other holdsMirror rfl
  have few : request.fails.main.length ≤ maxBlocks := by
    rw [← isFirst] at succeeds
    refine length_le_of_writeBbt_succeeds ?_ succeeds
    rw [length_unmarkBbtRegion]
    exact marked.sized
  rw [after_append]
  refine ⟨_, recovers_of_both tracked holdsMain stillMirror ?_, ?_⟩
  · intro same
    rw [mainVersion, ← synced.sameVersion] at same
    exact absurd same (raised_ne few)
  · rw [newerTable]
    split
    · exact .inl rfl
    · exact .inr rfl

/-- The main copy is new, the mirror one cleared. -/
theorem recovers_mirror_erased
    (isMirror : driver.mirror.bbtAddr = some mirrorBlock) :
    Recovers nand
    (driver.flash.after (request.before ++ first.ops ++ [erase mirrorBlock])) first.bbt := by
  have clearTracked := synced.tracked.after_clears marked.clears
  have outcome := updateMain_outcome clearTracked isFirst
  have tracked := clearTracked.write_main outcome rfl
  obtain ⟨⟨mainBlock, isMain, mainCopy⟩, -⟩ := WriteOutcome.holds outcome succeeds
  obtain ⟨-, -, mirrorGood⟩ := updateMain_table synced marked isFirst
  obtain ⟨inRegion, apart⟩ := tracked.mirrorPlaced mirrorBlock isMirror
  have clears : ∀ op ∈ [erase mirrorBlock], op.clears := by simp [FlashOp.clears]
  rw [after_append, after_append]
  refine recovers_of_main_only
    ⟨tracked.mainOnly.after_clears clears, tracked.mirrorOnly.after_reaches clears ?_,
      tracked.mainPlaced.none_other, placed_none⟩ ⟨mainBlock, isMain, ?_⟩
    (mem_candidates.mpr ⟨inRegion, mirrorGood mirrorBlock isMirror, apart⟩)
  · intro block isBlock
    rw [isMirror, some.injEq] at isBlock
    exact ⟨.erase mirrorBlock, by simp, isBlock⟩
  rw [copyAt_after_of_apart]
  · exact mainCopy
  intro op isOp isBlock
  rw [mem_singleton.mp isOp] at isBlock
  rw [isMain] at apart
  exact apart (congrArg some isBlock)

theorem recovers_both_saved
    (isMirror : driver.mirror.bbtAddr = some mirrorBlock) :
    Recovers nand
    (driver.flash.after (request.before ++ (updateBbt nand request.fails driver.main driver.mirror
    marks).ops)) first.bbt := by
  have clearTracked := synced.tracked.after_clears marked.clears
  have updates := updateBbt_of_saved marked.noFailure isMirror isFirst succeeds
  have tracked :=
    @tracked_updateBbt nand _ request.fails driver.main driver.mirror marks clearTracked
  obtain ⟨mainTable, mirrorTable, holdsMain, holdsMirror, -, -, -, isTable, sameTable⟩ :=
    exists_copies_updateBbt clearTracked rfl (by rw [updates])
  rw [← sameTable marked.noFailure, isTable, isFirst] at holdsMirror
  rw [isTable, isFirst] at holdsMain
  have recovers := recovers_of_both tracked holdsMain holdsMirror fun _ => rfl
  rw [newerTable, ite_self] at recovers
  rwa [after_append]

end

/-- The mirror copy stays while a call clears blocks for the main one. -/
theorem recovers_cut_clearing
    (synced : Synced nand driver table)
    (marked : Marked nand driver request marks)
    {addr : Option Nat}
    (clearing : Clearing nand driver.mirror.bbtAddr addr ops)
    (count : Nat) :
    Recovers nand (driver.flash.after ((request.before ++ ops).take count)) table := by
  refine recovers_while_clearing synced ?_ ?_
  · intro op isOp
    rcases mem_append.mp (mem_of_mem_take isOp) with
      isBefore | isLater
    · exact marked.clears op isBefore
    · exact clearing.clears op isLater
  · intro op isOp
    rcases mem_append.mp (mem_of_mem_take isOp) with
      isBefore | isLater
    · exact marked.apartMirror op isBefore
    · exact (clearing.apart op isLater).symm

theorem take_append_cases
    (front back : List FlashOp)
    (count : Nat) :
    (front ++ back).take count =
    front.take count ∨ ∃ rest, (front ++ back).take count = front ++ back.take rest := by
  by_cases inFront : count ≤ front.length
  · exact .inl (take_append_of_le_length inFront)
  · obtain ⟨rest, rfl⟩ := Nat.exists_eq_add_of_le (Nat.le_of_not_le inFront)
    exact .inr ⟨rest, take_length_add_append rest⟩

section
variable (synced : Synced nand driver table) (marked : Marked nand driver request marks)
include synced marked

/-- Power is lost after the main copy was saved. -/
theorem exists_recovers_after_main
    (isFirst : updateMain nand request.fails driver.main driver.mirror marks = first)
    (succeeds : first.result = none)
    (isMirror : driver.mirror.bbtAddr = some mirrorBlock)
    (count : Nat) :
    ∃ recovered, Recovers nand (driver.flash.after (request.before ++ first.ops ++
    [erase mirrorBlock, .save mirrorBlock
    ⟨.mirror, first.desc.version, first.bbt⟩].take count)) recovered ∧
    (recovered = table ∨ recovered = first.bbt) := by
  match count with
  | 0 =>
    rw [take_zero, append_nil]
    exact exists_recovers_main_saved synced marked isFirst succeeds
  | 1 =>
    exact ⟨first.bbt, recovers_mirror_erased synced marked isFirst succeeds isMirror, .inr rfl⟩
  | count + 2 =>
    have recovers := recovers_both_saved synced marked isFirst succeeds isMirror
    rw [updateBbt_of_saved marked.noFailure isMirror isFirst succeeds, ← append_assoc] at recovers
    rw [take_of_length_le (by simp)]
    exact ⟨first.bbt, recovers, .inr rfl⟩

/--
Power is lost after any operation of a call that is apart from the copies: the
next scan ends with the old table or that of the call in both copies.
-/
theorem exists_recovers
    {updated : Updated}
    (updates : updateBbt nand request.fails driver.main driver.mirror marks = updated)
    (count : Nat) :
    ∃ recovered,
    Recovers nand (driver.flash.after ((request.before ++ updated.ops).take count)) recovered ∧
    (recovered = table ∨ markBbtRegion nand recovered = updated.bbt) := by
  obtain ⟨mirrorBlock, isMirror, -⟩ := id synced.holdsMirror
  have clearTracked := synced.tracked.after_clears marked.clears
  generalize isFirst : updateMain nand request.fails driver.main driver.mirror marks = first
  have outcome := updateMain_outcome clearTracked isFirst
  cases outcome with
  | full clearing =>
    rw [updateBbt_of_some isFirst rfl] at updates
    subst updates
    exact ⟨table, recovers_cut_clearing synced marked clearing count, .inl rfl⟩
  | @saved block bbt ops member apart clearing erased =>
    rw [updateBbt_of_saved marked.noFailure isMirror isFirst rfl] at updates
    subst updates
    have afterMain := exists_recovers_after_main synced marked isFirst rfl isMirror
    generalize save block _ = saves at afterMain ⊢
    generalize [erase mirrorBlock, _] = rest at afterMain ⊢
    have shape : request.before ++ (ops ++ [saves] ++ rest) =
        (request.before ++ ops) ++ saves :: rest := by
      simp
    rw [shape]
    rcases take_append_cases (request.before ++ ops) (saves :: rest)
      count with isFront | ⟨further, isCut⟩
    · rw [isFront]
      exact ⟨table, recovers_cut_clearing synced marked clearing count, .inl rfl⟩
    rw [isCut]
    cases further with
    | zero =>
      have recovers := recovers_cut_clearing synced marked clearing (request.before ++ ops).length
      rw [take_length] at recovers
      rw [take_zero, append_nil]
      exact ⟨table, recovers, .inl rfl⟩
    | succ further =>
      obtain ⟨recovered, recovers, isTable⟩ := afterMain further
      rw [append_assoc, append_assoc, ← append_assoc] at recovers
      refine ⟨recovered, recovers, ?_⟩
      rcases isTable with isOld | isNew
      · exact .inl isOld
      · exact .inr (by rw [isNew])

end

end

end EchoKernel.Nandx
