import EchoKernel.NandBbtCrash

namespace EchoKernel.Nandx

open LabelledRun

/-!
# Runs before a power loss

A scan of copies that fit together leaves two equal ones, and calls whose
mirror copy does not fail keep them equal.
-/

variable {pattern : Pattern} {desc : Desc} {table : Table}

section
variable {nand : NandxInfo} {flash : Flash} {driver next : Driver}

/--
The copies in the flash fit together: at most one with each pattern, a mark
for every block, and no table calls the block of a copy bad.
-/
structure Legible (nand : NandxInfo) (flash : Flash) : Prop where
  single : Single nand flash
  sized : ∀ block copy, flash.copyAt block = some copy → copy.table.length = nand.totalBlock
  good : ∀ block copy place other, flash.copyAt block = some copy →
      flash.copyAt place = some other → (getBbtMark copy.table place).isBad = false

/-- Moreover, the same version means the same table. -/
structure Formatted (nand : NandxInfo) (flash : Flash) : Prop extends Legible nand flash where
  equal : ∀ block copy place other, flash.copyAt block = some copy →
      flash.copyAt place = some other → copy.version = other.version → copy.table = other.table

/-- What a legible flash says about a found copy. -/
theorem Legible.of_holds
    (legible : Legible nand flash)
    (holds : Holds flash pattern desc table) :
    table.length = nand.totalBlock ∧
    ∀ otherPattern otherDesc otherTable, Holds flash otherPattern otherDesc otherTable → ∀ block,
    otherDesc.bbtAddr = some block → (getBbtMark table block).isBad = false := by
  obtain ⟨place, -, isCopy⟩ := holds
  refine ⟨legible.sized place _ isCopy, ?_⟩
  rintro otherPattern otherDesc otherTable ⟨block, isBlock, isOther⟩ found isFound
  rw [isBlock, Option.some.injEq] at isFound
  rw [← isFound]
  exact legible.good place _ block _ isCopy isOther

theorem Legible.good_search
    (legible : Legible nand flash)
    {other : Pattern}
    (holds : Holds flash pattern desc table)
    (place : Nat)
    (isPlace : (searchBbt nand flash other).bbtAddr = some place) :
    (getBbtMark table place).isBad = false := by
  obtain ⟨-, otherTable, otherHolds⟩ := holds_searchBbt isPlace
  exact (legible.of_holds holds).2 _ _ _ otherHolds place isPlace

theorem Formatted.same_table
    (formatted : Formatted nand flash)
    {main mirror : Desc}
    {mainTable mirrorTable : Table}
    (holdsMain : Holds flash .main main mainTable)
    (holdsMirror : Holds flash .mirror mirror mirrorTable)
    (same : main.version = mirror.version) :
    mainTable = mirrorTable := by
  obtain ⟨block, -, isMain⟩ := holdsMain
  obtain ⟨place, -, isMirror⟩ := holdsMirror
  exact formatted.equal block _ place _ isMain isMirror same

/-- A scan of fitting copies leaves equal ones. -/
theorem exists_synced_scan
    (formatted : Formatted nand driver.flash)
    (scans : driver.scan nand quiet = (next, none)) :
    ∃ table, Synced nand next table := by
  have tracked := tracked_searchBbt formatted.single
  have found := found_searchBbt nand driver.flash
  have after := @tracked_scanBbt nand driver.flash quiet ⟨rfl, rfl⟩ formatted.single
  generalize isScanned : scanBbt nand driver.flash quiet = scanned at after
  obtain ⟨succeeds, rfl⟩ := Driver.scan_succeeds isScanned scans
  rw [scanBbt] at isScanned
  have readable : quiet.Readable := ⟨rfl, rfl⟩
  generalize isMain : searchBbt nand driver.flash .main = main at tracked found
  generalize isMirror : searchBbt nand driver.flash .mirror = mirror at tracked found
  generalize isValid : validDesc main mirror = valid at found
  cases found with
  | none noMain noMirror =>
    rw [scanCopies_of_none isMain isMirror noMain noMirror] at isScanned
    obtain ⟨table, mirrorTable, holdsMain, holdsMirror, isBbt,
        mainVersion, mirrorVersion, mainIs, tableIs, mirrorIs, sameTable, -, -⟩ :=
      exists_copies_of_none isScanned succeeds length_createBbt_replicate
    rw [sameTable rfl] at holdsMirror isBbt
    refine ⟨table, after, holdsMain, holdsMirror, mainVersion.trans mirrorVersion.symm, isBbt,
      ?_, ?_, ?_⟩
    · rw [tableIs, length_writeBbt]
      exact length_createBbt_replicate
    · intro block isBlock
      rw [mainIs] at isBlock
      rw [tableIs]
      exact isBad_writeBbt (by simp) isBlock
    · intro block isBlock
      rw [mirrorIs] at isBlock
      exact isBad_of_nil rfl (by simp) isBlock
  | @main table holds newer =>
    rw [scanCopies_of_main readable isMain isMirror isValid holds newer] at isScanned
    obtain ⟨mirrorTable, holdsMain, holdsMirror, isBbt, mainIs,
        mirrorVersion, mirrorIs, sameTable⟩ :=
      exists_copies_of_main tracked holds isScanned succeeds
    rw [sameTable rfl] at holdsMirror isBbt
    refine ⟨table, after, holdsMain, holdsMirror, ?_, isBbt, (formatted.of_holds holds).1, ?_, ?_⟩
    · rw [mainIs, mirrorVersion]
      exact (BitVec.add_zero _).symm
    · intro block isBlock
      rw [mainIs, ← isMain] at isBlock
      exact formatted.good_search holds block isBlock
    · intro block isBlock
      rw [mirrorIs] at isBlock
      exact isBad_of_nil rfl (isMirror ▸ formatted.good_search holds) isBlock
  | @mirror table holds newer =>
    rw [scanCopies_of_mirror readable isMain isMirror isValid holds newer] at isScanned
    obtain ⟨mainTable, holdsMain, holdsMirror, isBbt, mirrorIs, mainVersion, mainIs, sameTable⟩ :=
      exists_copies_of_mirror tracked holds isScanned succeeds
    rw [sameTable rfl] at holdsMain isBbt
    refine ⟨table, after, holdsMain, holdsMirror, ?_, isBbt, (formatted.of_holds holds).1, ?_, ?_⟩
    · rw [mirrorIs, mainVersion]
      exact BitVec.add_zero _
    · intro block isBlock
      rw [mainIs] at isBlock
      exact isBad_of_nil rfl (isMain ▸ formatted.good_search holds) isBlock
    · intro block isBlock
      rw [mirrorIs, ← isMirror] at isBlock
      exact formatted.good_search holds block isBlock
  | @same table mirrorTable holdsMain holdsMirror same =>
    rw [scanCopies_of_same readable isMain isMirror isValid holdsMain same] at isScanned
    subst isScanned
    obtain ⟨sized, good⟩ := formatted.of_holds holdsMain
    rw [← formatted.same_table holdsMain holdsMirror same] at holdsMirror
    exact ⟨table, after, holdsMain, holdsMirror, same, by simp [scanWrites, writeUnless], sized,
      good _ _ _ holdsMain, good _ _ _ holdsMirror⟩

end

variable {nand : NandxInfo} {driver next : Driver}

/-- A call whose mirror copy does not fail. -/
def CalmStep (nand : NandxInfo) (driver : Driver) (request : Request) (next : Driver) : Prop :=
  request.Calm nand driver ∧ Step nand driver request next

/-- Calm calls keep the copies equal. -/
theorem exists_synced_step
    {request : Request}
    (synced : Synced nand driver table)
    (step : CalmStep nand driver request next) :
    ∃ nextTable, Synced nand next nextTable := by
  obtain ⟨⟨apart, room⟩, result, performs⟩ := step
  obtain ⟨marks, isMarks, marked⟩ := exists_marks synced apart
  obtain ⟨after, nextTable, updates, nextSynced⟩ :=
    exists_synced_update synced marked (room _ synced.isBbt marks isMarks)
  rw [perform_eq synced.isBbt isMarks, updates] at performs
  cases performs
  exact ⟨nextTable, nextSynced⟩

/--
Power is lost after any number of operations of the call: the next scan ends
with the same table in both copies, that of the driver or the one written.
-/
def SurvivesPowerLoss (nand : NandxInfo) (driver : Driver) (request : Request) : Prop :=
  ∃ bbt marks, driver.bbt = some bbt ∧ request.marks bbt = some marks ∧ ∀ count, ∃ recovered,
          Recovers nand (driver.flash.after ((request.before ++
                  (updateBbt nand request.fails driver.main driver.mirror marks).ops).take count))
              recovered ∧ (markBbtRegion nand recovered = bbt ∨ markBbtRegion nand recovered =
                (updateBbt nand request.fails driver.main driver.mirror marks).bbt)

/-- A run of calm calls, and power is lost in another. -/
theorem survivesPowerLoss_of_run
    {first blank : Driver}
    {requests : List Request}
    {request : Request}
    (formatted : Formatted nand blank.flash)
    (scans : blank.scan nand quiet = (first, none))
    (run : Run (CalmStep nand) first requests driver)
    (apart : request.Apart driver) :
    SurvivesPowerLoss nand driver request := by
  obtain ⟨table, synced⟩ :=
    @Run.always _ _ _ _ _ _ (fun driver => ∃ table, Synced nand driver table)
      (exists_synced_scan formatted scans)
      (fun _ _ _ ⟨_, synced⟩ step => exists_synced_step synced step) run
  obtain ⟨marks, isMarks, marked⟩ := exists_marks synced apart
  refine ⟨_, marks, synced.isBbt, isMarks, ?_⟩
  intro count
  obtain ⟨recovered, recovers, isTable⟩ := exists_recovers synced marked rfl count
  refine ⟨recovered, recovers, ?_⟩
  rcases isTable with isOld | isNew
  · exact .inl (by rw [isOld])
  · exact .inr isNew

theorem Holds.tableAt_eq
    {flash : Flash}
    (holds : Holds flash pattern desc table) :
    tableAt flash desc = table := by
  obtain ⟨block, isBlock, isCopy⟩ := holds
  simp [tableAt, isBlock, isCopy]

/-- The driver after its first scan. -/
def scannedDriver : Driver := (blankDriver.scan sixteenBlocks quiet).1

/-- The driver after one failure of the mirror copy. -/
def movedDriver : Driver :=
  (scannedDriver.update sixteenBlocks ⟨[], [.write]⟩
    (setBbtMark (markBbtRegion sixteenBlocks (List.replicate 16 .good)) 3 .worn) (markNandBad 3)).1

theorem perform_scannedDriver :
    perform sixteenBlocks scannedDriver (.markBad 3 ⟨[], [.write]⟩) = some (movedDriver, none) :=
  rfl

theorem bbt_movedDriver :
    movedDriver.bbt = some
    [.good, .good, .good, .worn, .good, .good, .good, .good, .reserved,
    .reserved, .reserved, .reserved, .reserved, .reserved, .worn, .reserved] := by
  decide +kernel

/-- The mirror copy's failure makes the next main copy look alike. -/
theorem not_survivesPowerLoss_movedDriver :
    blankDriver.scan sixteenBlocks quiet =
    (scannedDriver, none) ∧ perform sixteenBlocks scannedDriver (.markBad 3 ⟨[], [.write]⟩) =
    some (movedDriver, none) ∧
    ¬ SurvivesPowerLoss sixteenBlocks movedDriver (.markBad 4 ⟨[], []⟩) := by
  refine ⟨rfl, perform_scannedDriver, ?_⟩
  rintro ⟨bbt, marks, isBbt, isMarks, survives⟩
  rw [bbt_movedDriver, Option.some.injEq] at isBbt
  subst isBbt
  cases isMarks
  obtain ⟨recovered, ⟨-, holdsMain, holdsMirror⟩, -⟩ := survives 4
  have same := holdsMain.tableAt_eq.trans holdsMirror.tableAt_eq.symm
  revert same
  decide +kernel

theorem formatted_blankDriver : Formatted sixteenBlocks blankDriver.flash := by
  refine ⟨⟨firstDriver_blankDriver.single, ?_, ?_⟩, ?_⟩
  · exact nofun
  · exact nofun
  · exact nofun

theorem survivesPowerLoss_of_run_scannedDriver :
    SurvivesPowerLoss sixteenBlocks scannedDriver (.markBad 4 ⟨[.write], []⟩) :=
  survivesPowerLoss_of_run formatted_blankDriver rfl .start ⟨rfl, by decide, by decide⟩

end EchoKernel.Nandx
