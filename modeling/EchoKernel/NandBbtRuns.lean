import EchoKernel.LabelledRun
import EchoKernel.NandBbtUpdate

namespace EchoKernel.Nandx

open LabelledRun Option

/-!
# Runs of the driver

Any `save_bbt` may fail. After a call that returns zero a scan loads the table
of the driver, if the copy written last has the larger version.
-/

section
variable {nand : NandxInfo} {flash : Flash} {main mirror : Desc} {mainTable mirrorTable : Table}

/-- A scan with legible copies and successful writes. -/
def quiet : ScanEnv := ⟨none, none, ⟨[], []⟩⟩

/-- What a scan without failures loads. -/
theorem scanBbt_quiet
    (tracked : Tracked nand main.bbtAddr mirror.bbtAddr flash)
    (holdsMain : Holds flash .main main mainTable)
    (holdsMirror : Holds flash .mirror mirror mirrorTable) :
    (scanBbt nand flash quiet).result = none ∧ (scanBbt nand flash quiet).bbt =
    some (markBbtRegion nand (newerTable main mirror mainTable mirrorTable)) := by
  have isMain := searchBbt_main tracked holdsMain
  have isMirror := searchBbt_mirror tracked holdsMirror
  have readable : quiet.Readable := ⟨rfl, rfl⟩
  rw [scanBbt, newerTable]
  rcases validDesc_of_holds holdsMain holdsMirror with
    ⟨valid, newer⟩ | ⟨valid, newer⟩ | ⟨valid, same⟩
  · obtain ⟨block, isAddr, -⟩ := holdsMirror
    rw [scanCopies_of_main readable isMain isMirror valid holdsMain (.inr newer),
      if_neg (BitVec.lt_asymm newer)]
    simp [scanWrites, writeUnless, quiet, writeBbt, isAddr]
  · obtain ⟨block, isAddr, -⟩ := holdsMain
    rw [scanCopies_of_mirror readable isMain isMirror valid holdsMirror (.inr newer), if_pos newer]
    simp [scanWrites, writeUnless, quiet, writeBbt, isAddr]
  · rw [scanCopies_of_same readable isMain isMirror valid holdsMain same, same,
      if_neg (BitVec.lt_irrefl _)]
    exact ⟨rfl, rfl⟩

end

/-- The calls of a run, with their writes' failures. -/
inductive Request where
  | scan (fails : Failures)
  | markBad (block : Nat) (fails : Failures)
  | unmark (block : Nat) (fails : Failures)
  deriving Repr, DecidableEq

variable {nand : NandxInfo} {driver next : Driver} {requests : List Request} {before : List FlashOp}

/-- The effect of a call; the copies can be read. -/
def perform (nand : NandxInfo) (driver : Driver) : Request → Option (Driver × Option Errno)
  | .scan fails => some (driver.scan nand ⟨none, none, fails⟩)
  | .markBad block fails => bbtMarkBad nand driver block fails
  | .unmark block fails => nandUnmarkbadBbt nand driver block fails

def Step (nand : NandxInfo) (driver : Driver) (request : Request) (next : Driver) : Prop :=
  ∃ result, perform nand driver request = some (next, result)

/-- The driver before the first scan, with any copies. -/
structure FirstDriver (nand : NandxInfo) (driver : Driver) : Prop where
  noTable : driver.bbt = none
  single : Single nand driver.flash

/-- The descriptors of a driver with a table are right. -/
structure DriverTracked (nand : NandxInfo) (driver : Driver) : Prop where
  single : Single nand driver.flash
  tracked : driver.bbt ≠ none → Tracked nand driver.main.bbtAddr driver.mirror.bbtAddr driver.flash

theorem Tracked.single
    {flash : Flash}
    {main mirror : Option Nat}
    (tracked : Tracked nand main mirror flash) :
    Single nand flash := by
  intro pattern
  cases pattern with
  | main => exact ⟨main, tracked.mainOnly⟩
  | mirror => exact ⟨mirror, tracked.mirrorOnly⟩

/-- Updates of the driver keep its descriptors right. -/
theorem tracked_update
    {fails : Failures}
    {bbt : Table}
    (tracked : Tracked nand driver.main.bbtAddr driver.mirror.bbtAddr driver.flash)
    (clears : ∀ op ∈ before, op.clears) :
    Tracked nand (driver.update nand fails bbt before).1.main.bbtAddr
    (driver.update nand fails bbt before).1.mirror.bbtAddr
    (driver.update nand fails bbt before).1.flash := by
  have updated :=
    @tracked_updateBbt nand _ fails driver.main driver.mirror bbt (tracked.after_clears clears)
  rw [← Flash.after_append] at updated
  exact updated

theorem clears_markNandBad {block : Nat} : ∀ op ∈ markNandBad block, op.clears := by
  simp [markNandBad, FlashOp.clears]

/-- Every call keeps the descriptors right. -/
theorem driverTracked_step
    {request : Request}
    (tracked : DriverTracked nand driver)
    (step : Step nand driver request next) :
    DriverTracked nand next := by
  obtain ⟨result, performs⟩ := step
  have finish : Tracked nand next.main.bbtAddr next.mirror.bbtAddr next.flash →
      DriverTracked nand next :=
    fun nextTracked => ⟨nextTracked.single, fun _ => nextTracked⟩
  cases request with
  | scan fails =>
    cases performs
    exact finish (tracked_scanBbt ⟨rfl, rfl⟩ tracked.single)
  | markBad block fails =>
    obtain ⟨bbt, isBbt, updates⟩ := map_eq_some_iff.mp performs
    have before := tracked.tracked (by simp [isBbt])
    have after := @tracked_update nand driver (markNandBad block) fails
      (setBbtMark bbt block .worn) before clears_markNandBad
    rw [updates] at after
    exact finish after
  | unmark block fails =>
    obtain ⟨bbt, isBbt, updates⟩ := map_eq_some_iff.mp performs
    have before := tracked.tracked (by simp [isBbt])
    have after := @tracked_update nand driver [] fails (setBbtMark bbt block .good) before (by simp)
    rw [updates] at after
    exact finish after

theorem driverTracked_of_run
    {first : Driver}
    (isFirst : FirstDriver nand first)
    (run : Run (Step nand) first requests driver) :
    DriverTracked nand driver := by
  refine run.always ?_ (fun _ _ _ tracked step => driverTracked_step tracked step)
  exact ⟨isFirst.single, fun some => absurd isFirst.noTable some⟩

/-- A scan of the flash loads the table of the driver. -/
def Reloads (nand : NandxInfo) (driver : Driver) : Prop :=
  (driver.scan nand quiet).2 = none ∧ (driver.scan nand quiet).1.bbt = driver.bbt

/-- When a call tells the copies apart. -/
def Request.TellsApart (nand : NandxInfo) (driver : Driver) : Request → Prop
  | .scan fails => ScanCondition nand driver.flash fails
  | .markBad _ fails =>
    VersionRoom (driver.main.version + 1 + BitVec.ofNat 8 fails.main.length) fails.mirror
  | .unmark _ fails =>
    VersionRoom (driver.main.version + 1 + BitVec.ofNat 8 fails.main.length) fails.mirror

/-- After a successful update the flash has the driver's table. -/
theorem reloads_update
    {fails : Failures}
    {bbt : Table}
    (tracked : Tracked nand driver.main.bbtAddr driver.mirror.bbtAddr driver.flash)
    (clears : ∀ op ∈ before, op.clears)
    (updates : driver.update nand fails bbt before = (next, none))
    (room : VersionRoom (driver.main.version + 1 + BitVec.ofNat 8 fails.main.length) fails.mirror) :
    Reloads nand next := by
  have nextTracked := @tracked_update nand driver before fails bbt tracked clears
  rw [updates] at nextTracked
  generalize isUpdated : updateBbt nand fails driver.main driver.mirror bbt = updated
  obtain ⟨ended, rfl⟩ := Driver.update_succeeds isUpdated updates
  obtain ⟨mainTable, mirrorTable, holdsMain, holdsMirror, isBbt,
      mainVersion, mirrorVersion, -, sameTable⟩ :=
    exists_copies_updateBbt (tracked.after_clears clears) isUpdated ended
  rw [← Flash.after_append] at holdsMain holdsMirror
  obtain ⟨succeeds, loads⟩ := scanBbt_quiet nextTracked holdsMain holdsMirror
  refine ⟨succeeds, loads.trans ?_⟩
  rw [isBbt, newerTable]
  by_cases noFailure : fails.mirror = []
  · rw [sameTable noFailure, ite_self]
  rw [if_pos]
  rw [mirrorVersion, mainVersion]
  exact room.lt noFailure

/-- After a successful scan the flash has the driver's table. -/
theorem reloads_scan
    {fails : Failures}
    (single : Single nand driver.flash)
    (scans : driver.scan nand ⟨none, none, fails⟩ = (next, none))
    (condition : ScanCondition nand driver.flash fails) :
    Reloads nand next := by
  generalize isScanned : scanBbt nand driver.flash ⟨none, none, fails⟩ = scanned
  obtain ⟨succeeds, nextIs⟩ := Driver.scan_succeeds isScanned scans
  have tracked := @tracked_scanBbt nand driver.flash ⟨none, none, fails⟩ ⟨rfl, rfl⟩ single
  rw [isScanned] at tracked
  obtain ⟨mainTable, mirrorTable, holdsMain, holdsMirror, isBbt⟩ :=
    exists_copies_scanBbt ⟨rfl, rfl⟩ single isScanned succeeds condition
  subst nextIs
  obtain ⟨quietSucceeds, loads⟩ := scanBbt_quiet tracked holdsMain holdsMirror
  exact ⟨quietSucceeds, loads.trans isBbt.symm⟩

/--
Whatever writes failed before, after a call that returns zero and tells the
copies apart a scan loads the driver's table.
-/
theorem reloads_of_run
    {first : Driver}
    {request : Request}
    (isFirst : FirstDriver nand first)
    (run : Run (Step nand) first requests driver)
    (returns : perform nand driver request = some (next, none))
    (condition : request.TellsApart nand driver) :
    Reloads nand next := by
  have tracked := driverTracked_of_run isFirst run
  cases request with
  | scan fails => exact reloads_scan tracked.single (some.inj returns) condition
  | markBad block fails =>
    obtain ⟨bbt, isBbt, updates⟩ := map_eq_some_iff.mp returns
    exact reloads_update (tracked.tracked (by simp [isBbt])) clears_markNandBad updates condition
  | unmark block fails =>
    obtain ⟨bbt, isBbt, updates⟩ := map_eq_some_iff.mp returns
    exact reloads_update (tracked.tracked (by simp [isBbt])) (by simp) updates condition

def sixteenBlocks : NandxInfo where
  totalBlock := 16
  packed := by decide
  room := by decide

/-- The driver with an empty flash and no bad blocks. -/
def blankDriver : Driver where
  main := ⟨0, none⟩
  mirror := ⟨0, none⟩
  bbt := none
  flash := ⟨fun _ => none, fun _ => false⟩

theorem firstDriver_blankDriver : FirstDriver sixteenBlocks blankDriver := by
  refine ⟨rfl, ?_⟩
  intro pattern
  exact ⟨none, by intro block _ copy holds; cases holds⟩

/-- If the first write of each copy fails, a worn block is forgotten. -/
theorem not_reloads_blankDriver :
    FirstDriver sixteenBlocks blankDriver ∧ ∃ next,
    perform sixteenBlocks blankDriver (.scan ⟨[.write], [.write]⟩) = some (next, none) ∧
    ¬ Reloads sixteenBlocks next := by
  refine ⟨firstDriver_blankDriver, _, rfl, ?_⟩
  rintro ⟨-, loads⟩
  revert loads
  decide

theorem reloads_of_run_blankDriver :
    Reloads sixteenBlocks (blankDriver.scan sixteenBlocks ⟨none, none, [], [.erase]⟩).1 :=
  reloads_of_run firstDriver_blankDriver .start
    (show perform sixteenBlocks blankDriver (.scan ⟨[], [.erase]⟩) = some (_, none) from rfl)
    (.inr (by decide))

end EchoKernel.Nandx
