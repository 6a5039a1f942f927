import EchoKernel.NandBbtPowerLoss

namespace EchoKernel.Nandx

open LabelledRun Option

/-!
# Marking and unmarking blocks through the MTD device

`drivers/mtd/nandx/driver/kernel/driver.c`. The copies stay in different
blocks of the region that are not bad, while calls do not name their blocks
and unmarked blocks are outside the region.
-/

/-- The flash's choices in `nand_block_unmarkbad`. -/
structure UnmarkEnv where
  unmarkFails : Failures
  eraseFails : Bool
  markFails : Failures
  deriving Repr, DecidableEq

/-- `nand_erase` of one block; whether it succeeds. -/
def nandErase (driver : Driver) (bbt : Table) (block : Nat) (fails : Bool) : Driver × Bool :=
  if bbtIsBad bbt block || fails then (driver, false)
  else ({ driver with flash := driver.flash.after [.erase block] }, true)

/-- `nand_block_unmarkbad` after the table's update. -/
def eraseUnmarked (nand : NandxInfo) (driver : Driver) (block : Nat)
    (env : UnmarkEnv) : Option (Driver × Option Errno) :=
  match driver.bbt with
  | none => none
  | some bbt =>
    match nandErase driver bbt block env.eraseFails with
    | (driver, true) => some (driver, none)
    | (driver, false) =>
      (bbtMarkBad nand driver block env.markFails).map fun marked => (marked.1, some .eio)

/-- `nand_block_unmarkbad`; none for a null table. -/
def nandBlockUnmarkbad (nand : NandxInfo) (driver : Driver) (block : Nat)
    (env : UnmarkEnv) : Option (Driver × Option Errno) :=
  match driver.bbt with
  | none => none
  | some bbt =>
    if bbtIsBad bbt block then
      match nandUnmarkbadBbt nand driver block env.unmarkFails with
      | none => none
      | some (driver, some _) =>
        -- the error of the update is not returned
        some (driver, none)
      | some (driver, none) => eraseUnmarked nand driver block env
    else some (driver, none)

/-- The calls of the MTD device; `nand_mark_bad`: `bbt_mark_bad`. -/
inductive Call where
  | markBad (block : Nat) (fails : Failures)
  | unmarkBad (block : Nat) (env : UnmarkEnv)
  deriving Repr, DecidableEq

/-- The effect of a call. -/
def call (nand : NandxInfo) (driver : Driver) : Call → Option (Driver × Option Errno)
  | .markBad block fails => bbtMarkBad nand driver block fails
  | .unmarkBad block env => nandBlockUnmarkbad nand driver block env

variable {nand : NandxInfo} {next : Driver}

section
variable {driver : Driver}

/--
The descriptors designate two different blocks of the region that the table
does not call bad.
-/
structure Designated (nand : NandxInfo) (main mirror : Option Nat) (bbt : Table) : Prop where
  mainPlaced : Placed nand mirror main
  mirrorPlaced : Placed nand main mirror
  sized : bbt.length = nand.totalBlock
  main : ∃ block, main = some block ∧ (getBbtMark bbt block).isBad = false
  mirror : ∃ block, mirror = some block ∧ (getBbtMark bbt block).isBad = false

/-- The driver's table designates its copies. -/
def WellPlaced (nand : NandxInfo) (driver : Driver) : Prop :=
  ∃ bbt, driver.bbt = some bbt ∧ Designated nand driver.main.bbtAddr driver.mirror.bbtAddr bbt

section
variable {main mirror : Option Nat}

/-- Only which blocks are bad matters. -/
theorem Designated.of_isBad
    {bbt other : Table}
    (designated : Designated nand main mirror bbt)
    (sameLength : other.length = bbt.length)
    (same : ∀ place, (getBbtMark other place).isBad = (getBbtMark bbt place).isBad) :
    Designated nand main mirror other := by
  refine ⟨designated.mainPlaced, designated.mirrorPlaced, sameLength.trans designated.sized, ?_, ?_⟩
  · obtain ⟨block, isMain, good⟩ := designated.main
    exact ⟨block, isMain, (same block).trans good⟩
  · obtain ⟨block, isMirror, good⟩ := designated.mirror
    exact ⟨block, isMirror, (same block).trans good⟩

section
variable {bbt : Table} (designated : Designated nand main mirror bbt)
include designated

/-- The reservation does not matter. -/
theorem Designated.mark : Designated nand main mirror (markBbtRegion nand bbt) := by
  exact designated.of_isBad length_markBbtRegion fun _ => isBad_markBbtRegion designated.sized

theorem Designated.unmark : Designated nand main mirror (unmarkBbtRegion nand bbt) := by
  exact designated.of_isBad length_unmarkBbtRegion fun _ => isBad_unmarkBbtRegion designated.sized

/-- A mark on another block, or a good one. -/
theorem Designated.set
    {block : Nat}
    {mark : Mark}
    (allowed : mark = .good ∨ (main ≠ some block ∧ mirror ≠ some block)) :
    Designated nand main mirror (setBbtMark bbt block mark) := by
  have goodAt : ∀ addr : Option Nat, (mark = .good ∨ addr ≠ some block) →
      (∃ place, addr = some place ∧ (getBbtMark bbt place).isBad = false) →
      ∃ place, addr = some place ∧
      (getBbtMark (setBbtMark bbt block mark) place).isBad = false := by
    rintro addr may ⟨place, isPlace, good⟩
    refine ⟨place, isPlace, ?_⟩
    by_cases isBlock : block = place
    · subst isBlock
      rw [may.resolve_right (fun differs => differs isPlace),
        getBbtMark_setBbtMark_good, Mark.isBad]
    · rw [getBbtMark_setBbtMark_of_ne isBlock]
      exact good
  refine ⟨designated.mainPlaced, designated.mirrorPlaced, ?_,
    goodAt main (allowed.imp_right And.left) designated.main,
    goodAt mirror (allowed.imp_right And.right) designated.mirror⟩
  rw [length_setBbtMark]
  exact designated.sized

end

end

section
variable {pattern : Pattern} {fails : List SaveFailure} {desc : Desc}
variable {other : Option Nat} {bbt : Table} {written : Written}

/-- A copy that was written is in a good block. -/
theorem exists_good_written
    (placed : Placed nand other desc.bbtAddr)
    (good : ∀ place, desc.bbtAddr = some place → (getBbtMark bbt place).isBad = false)
    (writes : writeBbt nand pattern other fails desc bbt = written)
    (succeeds : written.result = none) :
    Placed nand other written.desc.bbtAddr ∧ ∃ block,
    written.desc.bbtAddr = some block ∧ (getBbtMark written.bbt block).isBad = false := by
  have outcome : WriteOutcome nand pattern other fails desc written := by
    rw [← writes]
    exact writeBbt_outcome placed
  obtain ⟨⟨block, isBlock, -⟩, -⟩ :=
    @WriteOutcome.holds nand ⟨fun _ => none, fun _ => false⟩ _ _ _ _ _ outcome succeeds
  refine ⟨outcome.placed, block, isBlock, ?_⟩
  rw [← writes] at isBlock ⊢
  exact isBad_writeBbt good isBlock

/-- Writing the main copy keeps the copies designated. -/
theorem Designated.write_main
    {mirror : Option Nat}
    (mirrorGood : ∃ block, mirror = some block ∧ (getBbtMark bbt block).isBad = false)
    (mirrorRegion : ∀ block, mirror = some block → block ∈ bbtRegion nand)
    (sized : bbt.length = nand.totalBlock)
    (placed : Placed nand mirror desc.bbtAddr)
    (good : ∀ place, desc.bbtAddr = some place → (getBbtMark bbt place).isBad = false)
    (writes : writeBbt nand pattern mirror fails desc bbt = written)
    (succeeds : written.result = none) :
    Designated nand written.desc.bbtAddr mirror written.bbt := by
  obtain ⟨mainPlaced, mainGood⟩ := exists_good_written placed good writes succeeds
  refine ⟨mainPlaced, mainPlaced.symm mirrorRegion, ?_, mainGood, ?_⟩
  · rw [← writes, length_writeBbt]
    exact sized
  obtain ⟨block, isMirror, notBad⟩ := mirrorGood
  refine ⟨block, isMirror, ?_⟩
  rw [← writes, getBbtMark_writeBbt_apart placed (.inr isMirror)]
  exact notBad

theorem Designated.swap
    {main mirror : Option Nat}
    (designated : Designated nand main mirror bbt) :
    Designated nand mirror main bbt :=
  ⟨designated.mirrorPlaced, designated.mainPlaced, designated.sized,
    designated.mirror, designated.main⟩

/-- Writing one of two designated copies. -/
theorem Designated.write
    {mirror : Option Nat}
    (designated : Designated nand desc.bbtAddr mirror bbt)
    (writes : writeBbt nand pattern mirror fails desc bbt = written)
    (succeeds : written.result = none) :
    Designated nand written.desc.bbtAddr mirror written.bbt := by
  refine Designated.write_main designated.mirror
    (fun block isBlock => (designated.mirrorPlaced block isBlock).1)
    designated.sized designated.mainPlaced ?_ writes succeeds
  intro place isPlace
  obtain ⟨block, isBlock, good⟩ := designated.main
  rw [isPlace, some.injEq] at isBlock
  rw [isBlock]
  exact good

end

section
variable {fails : Failures} {main mirror : Desc} {marks : Table} {updated : Updated}

/-- A successful update keeps the copies designated. -/
theorem Designated.update
    (designated : Designated nand main.bbtAddr mirror.bbtAddr marks)
    (updates : updateBbt nand fails main mirror marks = updated)
    (succeeds : updated.result = none) :
    Designated nand updated.main.bbtAddr updated.mirror.bbtAddr updated.bbt := by
  generalize isFirst : updateMain nand fails main mirror marks = first
  cases ends : first.result with
  | some errno =>
    rw [updateBbt_of_some isFirst ends] at updates
    subst updates
    cases succeeds
  | none =>
    generalize isSecond : updateMirror nand fails mirror first = second
    have afterMain := @Designated.write nand .main fails.main
      ⟨main.version + 1, main.bbtAddr⟩ (unmarkBbtRegion nand marks)
      first mirror.bbtAddr designated.unmark isFirst ends
    rw [updateBbt_of_none isFirst isSecond ends] at updates
    subst updates
    have afterMirror := @Designated.write nand .mirror fails.mirror
      ⟨first.desc.version, mirror.bbtAddr⟩ first.bbt second
      first.desc.bbtAddr afterMain.swap isSecond succeeds
    dsimp only
    exact afterMirror.swap.mark

theorem Designated.mem_candidates_main
    {main mirror : Option Nat}
    (designated : Designated nand main mirror marks)
    {block : Nat}
    (isMain : main = some block) :
    block ∈ candidates nand marks mirror ∧ block ∈ candidates nand marks none := by
  obtain ⟨inRegion, apart⟩ := designated.mainPlaced block isMain
  obtain ⟨place, isPlace, good⟩ := designated.main
  rw [isMain, some.injEq] at isPlace
  rw [← isPlace] at good
  exact ⟨mem_candidates.mpr ⟨inRegion, good, apart⟩, mem_candidates.mpr ⟨inRegion, good, by simp⟩⟩

theorem Designated.length_candidates
    {main mirror : Option Nat}
    (designated : Designated nand main mirror marks) :
    (candidates nand marks mirror).length + 1 = (candidates nand marks none).length := by
  obtain ⟨block, isMirror, -⟩ := designated.mirror
  have member := (designated.swap.mem_candidates_main isMirror).2
  rw [isMirror]
  exact length_candidates_some member

/-- An update succeeds if enough blocks are left for its failures. -/
theorem Designated.update_succeeds
    (designated : Designated nand main.bbtAddr mirror.bbtAddr marks)
    (room : fails.main.length + fails.mirror.length + 1 < (candidates nand marks none).length) :
    (updateBbt nand fails main mirror marks).result = none := by
  have unmarked := designated.unmark
  have same : candidates nand (unmarkBbtRegion nand marks) none = candidates nand marks none :=
    candidates_unmarkBbtRegion designated.sized
  have more := unmarked.length_candidates
  rw [same] at more
  obtain ⟨mainBlock, isMain, -⟩ := unmarked.main
  have mainMember := (unmarked.mem_candidates_main isMain).1
  generalize isFirst : updateMain nand fails main mirror marks = first
  have ends : first.result = none := by
    rw [← isFirst]
    refine (@writeBbt_succeeds_iff nand mainBlock .main _
      ⟨main.version + 1, main.bbtAddr⟩ mirror.bbtAddr _ unmarked.sized isMain mainMember).mpr ?_
    omega
  have afterMain := @Designated.write nand .main fails.main
    ⟨main.version + 1, main.bbtAddr⟩ (unmarkBbtRegion nand marks)
    first mirror.bbtAddr unmarked isFirst ends
  have fewer : (candidates nand first.bbt mirror.bbtAddr).length + fails.main.length =
      (candidates nand (unmarkBbtRegion nand marks) mirror.bbtAddr).length := by
    rw [← isFirst] at ends ⊢
    refine length_candidates_writeBbt unmarked.sized ?_ ends
    intro place isPlace
    exact (unmarked.mem_candidates_main isPlace).1
  have left := afterMain.length_candidates
  have leftMirror := afterMain.swap.length_candidates
  obtain ⟨mirrorBlock, isMirror, -⟩ := afterMain.mirror
  have mirrorMember := (afterMain.swap.mem_candidates_main isMirror).1
  generalize isSecond : updateMirror nand fails mirror first = second
  rw [updateBbt_of_none isFirst isSecond ends]
  rw [← isSecond]
  refine (@writeBbt_succeeds_iff nand mirrorBlock .mirror _
    ⟨first.desc.version, mirror.bbtAddr⟩ first.desc.bbtAddr _ afterMain.sized
    isMirror mirrorMember).mpr ?_
  omega

/-- Updates change only marks of the region. -/
theorem getBbtMark_updateBbt_outside
    (mainPlaced : Placed nand mirror.bbtAddr main.bbtAddr)
    (mirrorPlaced : Placed nand main.bbtAddr mirror.bbtAddr)
    (sized : marks.length = nand.totalBlock)
    {block : Nat}
    (outside : block ∉ bbtRegion nand) :
    getBbtMark (updateBbt nand fails main mirror marks).bbt block = getBbtMark marks block := by
  generalize isFirst : updateMain nand fails main mirror marks = first
  have unmarked : getBbtMark (unmarkBbtRegion nand marks) block = getBbtMark marks block := by
    rw [getBbtMark_unmarkBbtRegion sized]
    simp [outside]
  have firstMark : getBbtMark first.bbt block = getBbtMark marks block := by
    rw [← unmarked, ← isFirst]
    exact getBbtMark_writeBbt_apart mainPlaced (.inl outside)
  have firstSized : first.bbt.length = nand.totalBlock := by
    rw [← isFirst, updateMain, length_writeBbt, length_unmarkBbtRegion]
    exact sized
  have firstPlaced : Placed nand mirror.bbtAddr first.desc.bbtAddr := by
    have outcome : WriteOutcome nand .main mirror.bbtAddr fails.main
        ⟨main.version + 1, main.bbtAddr⟩ first := by
      rw [← isFirst]
      exact writeBbt_outcome mainPlaced
    exact outcome.placed
  cases ends : first.result with
  | some errno =>
    rw [updateBbt_of_some isFirst ends, getBbtMark_markBbtRegion, firstMark]
    · simp [outside]
    · exact firstSized
  | none =>
    generalize isSecond : updateMirror nand fails mirror first = second
    have secondMark : getBbtMark second.bbt block = getBbtMark marks block := by
      rw [← firstMark, ← isSecond]
      refine getBbtMark_writeBbt_apart ?_ (.inl outside)
      exact firstPlaced.symm fun place isPlace => (mirrorPlaced place isPlace).1
    rw [updateBbt_of_none isFirst isSecond ends, getBbtMark_markBbtRegion, secondMark]
    · simp [outside]
    · rw [← isSecond, updateMirror, length_writeBbt]
      exact firstSized

end

end

section
variable {driver : Driver} {fails : Failures}

/-- A scan of fitting copies leaves designated ones. -/
theorem wellPlaced_scan
    (legible : Legible nand driver.flash)
    (scans : driver.scan nand ⟨none, none, fails⟩ = (next, none)) :
    WellPlaced nand next := by
  have tracked := tracked_searchBbt legible.single
  have found := found_searchBbt nand driver.flash
  generalize isScanned : scanBbt nand driver.flash ⟨none, none, fails⟩ = scanned
  obtain ⟨succeeds, rfl⟩ := Driver.scan_succeeds isScanned scans
  have readable : (⟨none, none, fails⟩ : ScanEnv).Readable := ⟨rfl, rfl⟩
  obtain ⟨first, second, isFirst, firstSucceeds, isSecond, secondSucceeds, scannedIs⟩ :=
    scanWrites_succeeds isScanned succeeds
  rw [scannedIs]
  refine ⟨_, rfl, Designated.mark ?_⟩
  generalize isMain : searchBbt nand driver.flash .main = main at tracked found
  generalize isMirror : searchBbt nand driver.flash .mirror = mirror at tracked found
  generalize isValid : validDesc main mirror = valid at found
  have goodMain : ∀ {pattern desc table}, Holds driver.flash pattern desc table →
      ∀ place, main.bbtAddr = some place → (getBbtMark table place).isBad = false :=
    isMain ▸ legible.good_search
  have goodMirror : ∀ {pattern desc table}, Holds driver.flash pattern desc table →
      ∀ place, mirror.bbtAddr = some place → (getBbtMark table place).isBad = false :=
    isMirror ▸ legible.good_search
  generalize isCopies : scanCopies nand driver.flash ⟨none, none, fails⟩ = copies
    at isFirst isSecond
  cases found with
  | none noMain noMirror =>
    rw [scanCopies_of_none isMain isMirror noMain noMirror] at isCopies
    subst isCopies
    obtain ⟨mainPlaced, mainGood⟩ := exists_good_written placed_none (by simp) isFirst firstSucceeds
    have sized : first.bbt.length = nand.totalBlock := by
      rw [← isFirst]
      exact length_writeBbt.trans length_createBbt_replicate
    exact (Designated.write_main mainGood
      (fun block isBlock => (mainPlaced block isBlock).1) sized
      placed_none (by simp) isSecond secondSucceeds).swap
  | @main table holds newer =>
    rw [scanCopies_of_main readable isMain isMirror isValid holds newer] at isCopies
    subst isCopies
    subst isFirst
    obtain ⟨block, isBlock, -⟩ := id holds
    exact (@Designated.write_main nand .mirror fails.mirror
      ⟨main.version, mirror.bbtAddr⟩ table second main.bbtAddr
      ⟨block, isBlock, goodMain holds block isBlock⟩
      (fun block isBlock => (tracked.mainPlaced block isBlock).1)
      (legible.of_holds holds).1 tracked.mirrorPlaced (goodMirror holds)
      isSecond secondSucceeds).swap
  | @mirror table holds newer =>
    rw [scanCopies_of_mirror readable isMain isMirror isValid holds newer] at isCopies
    subst isCopies
    subst isSecond
    obtain ⟨block, isBlock, -⟩ := id holds
    exact @Designated.write_main nand .main fails.main
      ⟨mirror.version, main.bbtAddr⟩ table first mirror.bbtAddr
      ⟨block, isBlock, goodMirror holds block isBlock⟩
      (fun block isBlock => (tracked.mirrorPlaced block isBlock).1)
      (legible.of_holds holds).1 tracked.mainPlaced (goodMain holds)
      isFirst firstSucceeds
  | @same table mirrorTable holdsMain holdsMirror same =>
    rw [scanCopies_of_same readable isMain isMirror isValid holdsMain same] at isCopies
    subst isCopies
    subst isFirst
    subst isSecond
    obtain ⟨mainBlock, mainIs, -⟩ := id holdsMain
    obtain ⟨mirrorBlock, mirrorIs, -⟩ := id holdsMirror
    exact ⟨tracked.mainPlaced, tracked.mirrorPlaced, (legible.of_holds holdsMain).1,
      ⟨mainBlock, mainIs, goodMain holdsMain mainBlock mainIs⟩, ⟨mirrorBlock, mirrorIs,
        goodMirror holdsMain mirrorBlock mirrorIs⟩⟩

end

variable {driver : Driver}

/--
A marked block is not one of the copies', an unmarked one is outside the
region, and there are blocks for the failures.
-/
def Call.Safe (nand : NandxInfo) (driver : Driver) : Call → Prop
  | .markBad block _ => driver.main.bbtAddr ≠ some block ∧ driver.mirror.bbtAddr ≠ some block
  | .unmarkBad block env =>
    block ∉ bbtRegion nand ∧ ∀ bbt, driver.bbt = some bbt →
        env.unmarkFails.main.length + env.unmarkFails.mirror.length + 1 <
          (candidates nand bbt none).length

/-- A safe call that returns success. -/
def SafeStep (nand : NandxInfo) (driver : Driver) (request : Call) (next : Driver) : Prop :=
  request.Safe nand driver ∧ call nand driver request = some (next, none)

theorem candidates_setBbtMark_outside
    {bbt : Table}
    {block : Nat}
    {mark : Mark}
    {other : Option Nat}
    (outside : block ∉ bbtRegion nand) :
    candidates nand (setBbtMark bbt block mark) other = candidates nand bbt other := by
  refine List.filter_congr ?_
  intro place member
  rw [getBbtMark_setBbtMark_of_ne]
  rintro rfl
  exact outside member

/-- What an update leaves in the driver. -/
theorem wellPlaced_update
    {fails : Failures}
    {marks : Table}
    {before : List FlashOp}
    (designated : Designated nand driver.main.bbtAddr driver.mirror.bbtAddr marks)
    (updates : driver.update nand fails marks before = (next, none)) :
    WellPlaced nand next := by
  generalize isUpdated : updateBbt nand fails driver.main driver.mirror marks = updated
  obtain ⟨succeeds, rfl⟩ := Driver.update_succeeds isUpdated updates
  exact ⟨_, rfl, designated.update isUpdated succeeds⟩

section
variable {block : Nat} {env : UnmarkEnv} {bbt : Table} {result : Option Errno}

theorem eraseUnmarked_of_good
    (isBbt : driver.bbt = some bbt)
    (isGood : getBbtMark bbt block = .good)
    (erases : env.eraseFails = false) :
    eraseUnmarked nand driver block env = some
        ({ driver with flash := driver.flash.after [.erase block] }, none) := by
  have notBad : bbtIsBad bbt block = false := by simp [bbtIsBad, isGood]
  simp [eraseUnmarked, isBbt, nandErase, notBad, erases, ↓reduceIte]

/-- A failing erase marks the block and is an error. -/
theorem eraseUnmarked_result
    (fails : env.eraseFails = true)
    (erases : eraseUnmarked nand driver block env = some (next, result)) :
    result = some .eio := by
  unfold eraseUnmarked at erases
  split at erases
  case h_1 => cases erases
  case h_2 bbt isBbt =>
    simp only [nandErase, fails, Bool.or_true] at erases
    obtain ⟨marked, -, isResult⟩ := map_eq_some_iff.mp erases
    exact (congrArg Prod.snd isResult).symm

theorem nandBlockUnmarkbad_of_good
    (isBbt : driver.bbt = some bbt)
    (isGood : getBbtMark bbt block = .good) :
    nandBlockUnmarkbad nand driver block env = some (driver, none) := by
  simp [nandBlockUnmarkbad, isBbt, bbtIsBad, isGood]

/-- A block that is not good is unmarked and erased. -/
theorem nandBlockUnmarkbad_of_bad (isBbt : driver.bbt = some bbt)
    (isBad : getBbtMark bbt block ≠ .good) {after : Driver} (updates :
      driver.update nand env.unmarkFails (setBbtMark bbt block .good) [] = (after, result)) :
    nandBlockUnmarkbad nand driver block env = match result with
      | some _ => some (after, none)
      | none => eraseUnmarked nand after block env := by
  have unmarks : nandUnmarkbadBbt nand driver block env.unmarkFails = some (after, result) := by
    simp [nandUnmarkbadBbt, isBbt, updates]
  simp only [nandBlockUnmarkbad, isBbt, bbtIsBad, bne_iff_ne, ne_eq, isBad, unmarks]
  cases result <;> rfl

/-- The update of `nand_block_unmarkbad` unmarks the block. -/
theorem exists_unmarked
    (designated : Designated nand driver.main.bbtAddr driver.mirror.bbtAddr bbt)
    (outside : block ∉ bbtRegion nand) :
    ∃ after result afterBbt,
    driver.update nand env.unmarkFails (setBbtMark bbt block .good) [] = (after, result) ∧
    after.bbt = some afterBbt ∧ getBbtMark afterBbt block = .good := by
  have kept := @getBbtMark_updateBbt_outside nand env.unmarkFails driver.main
    driver.mirror (setBbtMark bbt block .good) designated.mainPlaced
    designated.mirrorPlaced (length_setBbtMark.trans designated.sized) block outside
  rw [getBbtMark_setBbtMark_good] at kept
  exact ⟨_, _, _, rfl, rfl, kept⟩

/-- A block outside the region is not bad once unmarked. -/
theorem exists_good_of_unmark
    (placed : WellPlaced nand driver)
    (outside : block ∉ bbtRegion nand)
    (erases : env.eraseFails = false) :
    ∃ next nextBbt, nandBlockUnmarkbad nand driver block env =
    some (next, none) ∧ next.bbt = some nextBbt ∧ (getBbtMark nextBbt block).isBad = false := by
  obtain ⟨bbt, isBbt, designated⟩ := placed
  by_cases isGood : getBbtMark bbt block = .good
  · exact ⟨driver, bbt, nandBlockUnmarkbad_of_good isBbt isGood, isBbt, by rw [isGood]; rfl⟩
  obtain ⟨after, result, afterBbt, updates, isAfter, nowGood⟩ := exists_unmarked designated outside
  rw [nandBlockUnmarkbad_of_bad isBbt isGood updates]
  cases result with
  | some errno => exact ⟨after, afterBbt, rfl, isAfter, by rw [nowGood]; rfl⟩
  | none =>
    refine ⟨_, afterBbt, eraseUnmarked_of_good isAfter nowGood erases, isAfter, ?_⟩
    rw [nowGood]
    rfl

/-- Unmarking a block outside the region keeps the copies in place. -/
theorem wellPlaced_unmark
    (placed : WellPlaced nand driver)
    (safe : (Call.unmarkBad block env).Safe nand driver)
    (unmarks : nandBlockUnmarkbad nand driver block env = some (next, none)) :
    WellPlaced nand next := by
  obtain ⟨bbt, isBbt, designated⟩ := id placed
  obtain ⟨outside, room⟩ := safe
  by_cases isGood : getBbtMark bbt block = .good
  · rw [nandBlockUnmarkbad_of_good isBbt isGood] at unmarks
    cases unmarks
    exact placed
  obtain ⟨after, result, afterBbt, updates, isAfter, nowGood⟩ := exists_unmarked designated outside
  have marked := @Designated.set nand _ _ bbt designated block .good (.inl rfl)
  have succeeds : result = none := by
    have isNone := Designated.update_succeeds marked (by
      rw [candidates_setBbtMark_outside outside]
      exact room bbt isBbt)
    exact (congrArg Prod.snd updates).symm.trans isNone
  subst succeeds
  have afterPlaced := wellPlaced_update marked updates
  rw [nandBlockUnmarkbad_of_bad isBbt isGood updates] at unmarks
  cases erases : env.eraseFails with
  | true => exact absurd (eraseUnmarked_result erases unmarks) (by simp)
  | false =>
    rw [eraseUnmarked_of_good isAfter nowGood erases] at unmarks
    cases unmarks
    exact afterPlaced

end

/-- Safe calls keep the copies designated. -/
theorem wellPlaced_step
    {request : Call}
    (placed : WellPlaced nand driver)
    (step : SafeStep nand driver request next) :
    WellPlaced nand next := by
  obtain ⟨safe, returns⟩ := step
  cases request with
  | markBad block fails =>
    obtain ⟨bbt, isBbt, designated⟩ := placed
    obtain ⟨marked, isMarked, updates⟩ := map_eq_some_iff.mp returns
    rw [isBbt, some.injEq] at isMarked
    subst isMarked
    exact wellPlaced_update (designated.set (.inr safe)) updates
  | unmarkBad block env => exact wellPlaced_unmark placed safe returns

/-- The driver after its main copy's block was marked. -/
def markedDriver : Driver :=
  (scannedDriver.update sixteenBlocks ⟨[], []⟩
    (setBbtMark (markBbtRegion sixteenBlocks (List.replicate 16 .good)) 15 .worn)
    (markNandBad 15)).1

theorem bbt_markedDriver :
    markedDriver.bbt = some
    [.good, .good, .good, .good, .good, .good, .good, .good, .reserved,
    .reserved, .reserved, .reserved, .reserved, .reserved, .reserved, .worn] := by
  decide +kernel

/-- The test of whether a call is safe. -/
def safe (driver : Driver) : Call → Bool
  | .markBad block _ =>
    driver.main.bbtAddr != some block && driver.mirror.bbtAddr != some block
  | .unmarkBad block env =>
    !(bbtRegion sixteenBlocks).contains block && driver.bbt.all fun bbt =>
      decide (env.unmarkFails.main.length + env.unmarkFails.mirror.length + 1 <
        (candidates sixteenBlocks bbt none).length)

/-- What passes the test is safe. -/
theorem safe_of_test
    {driver : Driver}
    {request : Call}
    (passes : safe driver request = true) :
    request.Safe sixteenBlocks driver := by
  cases request with
  | markBad block fails => simpa [safe, Call.Safe] using passes
  | unmarkBad block env =>
    simp only [safe, Bool.and_eq_true, Bool.not_eq_true', List.contains_eq_mem,
      decide_eq_false_iff_not] at passes
    refine ⟨passes.1, fun bbt isBbt => ?_⟩
    simpa [isBbt] using passes.2

/-- A call that returns success. -/
def succeed (driver : Driver) (request : Call) : Option Driver :=
  match call sixteenBlocks driver request with
  | some (next, none) => some next
  | _ => none

/-- Two blocks are marked with failing writes, and one of them is unmarked. -/
def markTwo : List Call :=
  [.markBad 3 ⟨[.write], []⟩, .markBad 5 ⟨[], [.erase]⟩,
    .unmarkBad 3 ⟨⟨[], []⟩, false, ⟨[], []⟩⟩]

/-- The table after the calls: writes failed at the blocks 15 and 14. -/
theorem bbt_markTwo :
    ((execute (guarded safe succeed) scannedDriver markTwo).bind fun driver => driver.bbt) =
      some [.good, .good, .good, .good, .good, .worn, .good, .good, .reserved,
        .reserved, .reserved, .reserved, .reserved, .reserved, .worn, .worn] := by
  decide +kernel

end EchoKernel.Nandx
