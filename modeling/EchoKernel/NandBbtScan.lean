import EchoKernel.NandBbtWrite

namespace EchoKernel.Nandx

open Option FlashOp Flash

/-!
# What a scan finds

The flash holds at most one copy with each pattern, at the descriptors'
addresses. A scan takes the table of the newer copy, or of the main one.
-/

section
variable {nand : NandxInfo} {flash : Flash} {main mirror : Option Nat}

/-- The descriptors say where the copies are. -/
structure Tracked (nand : NandxInfo) (main mirror : Option Nat) (flash : Flash) : Prop where
  mainOnly : OnlyAt nand flash .main main
  mirrorOnly : OnlyAt nand flash .mirror mirror
  mainPlaced : Placed nand mirror main
  mirrorPlaced : Placed nand main mirror

theorem Placed.none_other
    {other addr : Option Nat}
    (placed : Placed nand other addr) :
    Placed nand none addr := by
  intro block isBlock
  exact ⟨(placed block isBlock).1, by simp⟩

theorem Tracked.after_clears
    (tracked : Tracked nand main mirror flash)
    {ops : List FlashOp}
    (clears : ∀ op ∈ ops, op.clears) :
    Tracked nand main mirror (flash.after ops) :=
  ⟨tracked.mainOnly.after_clears clears, tracked.mirrorOnly.after_clears clears, tracked.mainPlaced,
    tracked.mirrorPlaced⟩

variable {fails : List SaveFailure} {desc : Desc}
variable {written : Written} {pattern : Pattern} {other : Option Nat}

/-- Saving a copy adds only this one. -/
theorem onlyAt_after_save
    {copy : Copy}
    {block : Nat}
    (only : OnlyAt nand flash pattern other)
    (isCopy : copy.pattern = pattern → other = some block) :
    OnlyAt nand (flash.after [.save block copy]) pattern other := by
  intro place member found holds isPattern
  change (apply flash (.save block copy)).copyAt place = some found at holds
  by_cases isBlock : place = block
  · subst isBlock
    have self : (apply flash (.save place copy)).copyAt place = some copy := Function.update_self ..
    rw [self, some.injEq] at holds
    subst holds
    exact isCopy isPattern
  · rw [copyAt_apply_of_ne isBlock] at holds
    exact only place member found holds isPattern

section
variable (outcome : WriteOutcome nand pattern other fails desc written)
include outcome

/-- The pattern's only copy is at the new address. -/
theorem WriteOutcome.onlyAt_self
    (only : OnlyAt nand flash pattern desc.bbtAddr) :
    OnlyAt nand (flash.after written.ops) pattern written.desc.bbtAddr := by
  cases outcome with
  | full clearing => exact only.after_reaches clearing.clears clearing.reaches
  | saved member apart clearing erased =>
    have nowhere := only.after_reaches clearing.clears clearing.reaches
    rw [after_append]
    refine onlyAt_after_save ?_ fun _ => rfl
    intro block inRegion copy holds isPattern
    exact absurd (nowhere block inRegion copy holds isPattern) (by simp)

theorem WriteOutcome.onlyAt_other
    {kept : Pattern}
    (differs : pattern ≠ kept)
    {addr : Option Nat}
    (only : OnlyAt nand flash kept addr) :
    OnlyAt nand (flash.after written.ops) kept addr := by
  cases outcome with
  | full clearing => exact only.after_clears clearing.clears
  | saved member apart clearing erased =>
    rw [after_append]
    exact onlyAt_after_save (only.after_clears clearing.clears) fun isKept => absurd isKept differs

/-- The other copy is not touched. -/
theorem WriteOutcome.copyAt_other
    {block : Nat}
    (isOther : other = some block) :
    (flash.after written.ops).copyAt block = flash.copyAt block := by
  subst isOther
  refine copyAt_after_of_apart ?_
  intro op isOp isBlock
  cases outcome with
  | full clearing => exact clearing.apart op isOp (congrArg some isBlock)
  | saved member apart clearing erased =>
    rcases List.mem_append.mp isOp with cleared | isSave
    · exact clearing.apart op cleared (congrArg some isBlock)
    · rw [List.mem_singleton.mp isSave] at isBlock
      exact apart (congrArg some isBlock)

theorem WriteOutcome.placed : Placed nand other written.desc.bbtAddr := by
  cases outcome with
  | full clearing => exact placed_none
  | saved member apart clearing erased =>
    intro block isBlock
    cases isBlock
    exact ⟨member, apart⟩

end

theorem Placed.symm
    {first second : Option Nat}
    (placed : Placed nand first second)
    (others : ∀ block, first = some block → block ∈ bbtRegion nand) :
    Placed nand second first := by
  intro block isFirst
  refine ⟨others block isFirst, ?_⟩
  intro isSecond
  exact (placed block isSecond.symm).2 isFirst.symm

theorem Tracked.write_main
    (tracked : Tracked nand main mirror flash)
    (outcome : WriteOutcome nand .main mirror fails desc written)
    (isMain : desc.bbtAddr = main) :
    Tracked nand written.desc.bbtAddr mirror (flash.after written.ops) :=
  ⟨outcome.onlyAt_self (isMain ▸ tracked.mainOnly),
    outcome.onlyAt_other (by decide) tracked.mirrorOnly, outcome.placed,
    outcome.placed.symm fun block isBlock =>
      (tracked.mirrorPlaced block isBlock).1⟩

theorem Tracked.write_mirror
    (tracked : Tracked nand main mirror flash)
    (outcome : WriteOutcome nand .mirror main fails desc written)
    (isMirror : desc.bbtAddr = mirror) :
    Tracked nand main written.desc.bbtAddr (flash.after written.ops) :=
  ⟨outcome.onlyAt_other (by decide) tracked.mainOnly,
    outcome.onlyAt_self (isMirror ▸ tracked.mirrorOnly), outcome.placed.symm fun block isBlock =>
      (tracked.mainPlaced block isBlock).1,
    outcome.placed⟩

/-- A descriptor's block holds this table and version. -/
def Holds (flash : Flash) (pattern : Pattern) (desc : Desc) (table : Table) : Prop :=
  ∃ block, desc.bbtAddr = some block ∧ flash.copyAt block = some ⟨pattern, desc.version, table⟩

/-- A write that succeeds leaves its table. -/
theorem WriteOutcome.holds
    (outcome : WriteOutcome nand pattern other fails desc written)
    (succeeds : written.result = none) :
    Holds (flash.after written.ops) pattern written.desc written.bbt ∧
    written.desc.version = desc.version + BitVec.ofNat 8 fails.length := by
  cases outcome with
  | full clearing => cases succeeds
  | saved member apart clearing erased =>
    refine ⟨⟨_, rfl, ?_⟩, rfl⟩
    rw [after_append]
    exact Function.update_self ..

theorem WriteOutcome.holds_other
    (outcome : WriteOutcome nand pattern other fails desc written)
    {kept : Pattern}
    {keptDesc : Desc}
    {table : Table}
    (holds : Holds flash kept keptDesc table)
    (isOther : other = keptDesc.bbtAddr) :
    Holds (flash.after written.ops) kept keptDesc table := by
  obtain ⟨block, isBlock, holds⟩ := holds
  refine ⟨block, isBlock, ?_⟩
  rw [outcome.copyAt_other (isOther.trans isBlock)]
  exact holds

end

section
variable {nand : NandxInfo} {flash : Flash} {pattern : Pattern}

/-- The flash has at most one copy with each pattern. -/
def Single (nand : NandxInfo) (flash : Flash) : Prop :=
  ∀ pattern, ∃ addr, OnlyAt nand flash pattern addr

theorem searchBbt_cases
    (nand : NandxInfo)
    (flash : Flash)
    (pattern : Pattern) :
    (searchBbt nand flash pattern = ⟨0, none⟩ ∧ OnlyAt nand flash pattern none) ∨ ∃ table,
    Holds flash pattern (searchBbt nand flash pattern) table ∧ ∀ block,
    (searchBbt nand flash pattern).bbtAddr = some block → block ∈ bbtRegion nand := by
  unfold searchBbt
  cases found : (bbtRegion nand).find? (isBbtData flash pattern) with
  | none =>
    refine .inl ⟨rfl, ?_⟩
    intro block member copy holds isPattern
    have notData := List.find?_eq_none.mp found block member
    simp [isBbtData, holds, isPattern] at notData
  | some block =>
    have isData := List.find?_some found
    simp only [isBbtData, any_eq_true, beq_iff_eq] at isData
    obtain ⟨copy, holds, isPattern⟩ := isData
    refine .inr ⟨copy.table, ⟨block, rfl, ?_⟩, ?_⟩
    · simp [holds, ← isPattern]
    rintro place isPlace
    cases isPlace
    exact List.mem_of_find?_eq_some found

/-- The search finds the only copy. -/
theorem onlyAt_searchBbt
    {addr : Option Nat}
    (only : OnlyAt nand flash pattern addr) :
    OnlyAt nand flash pattern (searchBbt nand flash pattern).bbtAddr := by
  rcases searchBbt_cases nand flash pattern with
    ⟨isNone, nowhere⟩ | ⟨table, ⟨block, isBlock, holds⟩, inRegion⟩
  · rw [isNone]
    exact nowhere
  intro place member copy isCopy isPattern
  have here := only block (inRegion block isBlock) _ holds rfl
  have there := only place member copy isCopy isPattern
  rw [isBlock, ← here, there]

theorem holds_searchBbt
    {block : Nat}
    (isBlock : (searchBbt nand flash pattern).bbtAddr = some block) :
    block ∈ bbtRegion nand ∧ ∃ table, Holds flash pattern (searchBbt nand flash pattern) table := by
  rcases searchBbt_cases nand flash pattern with
    ⟨isNone, -⟩ | ⟨table, holds, inRegion⟩
  · rw [isNone] at isBlock
    cases isBlock
  · exact ⟨inRegion block isBlock, table, holds⟩

/-- The search sets the descriptors for single copies. -/
theorem tracked_searchBbt
    (single : Single nand flash) :
    Tracked nand (searchBbt nand flash .main).bbtAddr
    (searchBbt nand flash .mirror).bbtAddr flash := by
  obtain ⟨mainAddr, mainOnly⟩ := single .main
  obtain ⟨mirrorAddr, mirrorOnly⟩ := single .mirror
  have regionOf : ∀ pattern block, (searchBbt nand flash pattern).bbtAddr = some block →
      block ∈ bbtRegion nand ∧ ∃ copy, flash.copyAt block = some copy ∧ copy.pattern = pattern := by
    intro pattern block isBlock
    obtain ⟨inRegion, table, place, isPlace, holds⟩ := holds_searchBbt isBlock
    rw [isBlock, some.injEq] at isPlace
    rw [← isPlace] at holds
    exact ⟨inRegion, _, holds, rfl⟩
  have apart : ∀ block, (searchBbt nand flash .main).bbtAddr = some block →
      (searchBbt nand flash .mirror).bbtAddr ≠ some block := by
    intro block isMain isMirror
    obtain ⟨-, first, holdsFirst, firstIs⟩ := regionOf _ _ isMain
    obtain ⟨-, second, holdsSecond, secondIs⟩ := regionOf _ _ isMirror
    rw [holdsFirst, some.injEq] at holdsSecond
    rw [holdsSecond, secondIs] at firstIs
    cases firstIs
  refine ⟨onlyAt_searchBbt mainOnly, onlyAt_searchBbt mirrorOnly, ?_, ?_⟩
  · intro block isMain
    exact ⟨(regionOf _ _ isMain).1, (apart block isMain).symm⟩
  intro block isMirror
  refine ⟨(regionOf _ _ isMirror).1, ?_⟩
  intro isMain
  exact apart block isMain.symm isMirror

/-- A copy that is tracked is found. -/
theorem searchBbt_eq
    {desc : Desc}
    {table : Table}
    (only : OnlyAt nand flash pattern desc.bbtAddr)
    (holds : Holds flash pattern desc table)
    (inRegion : ∀ block, desc.bbtAddr = some block → block ∈ bbtRegion nand) :
    searchBbt nand flash pattern = desc := by
  obtain ⟨block, isBlock, isCopy⟩ := holds
  rcases searchBbt_cases nand flash pattern with
    ⟨-, nowhere⟩ | ⟨found, ⟨place, isPlace, foundCopy⟩, foundRegion⟩
  · exact absurd (nowhere block (inRegion block isBlock) _ isCopy rfl) (by simp)
  have same := only place (foundRegion place isPlace) _ foundCopy rfl
  rw [isBlock, some.injEq] at same
  subst same
  rw [isCopy, some.injEq, Copy.mk.injEq] at foundCopy
  calc
    searchBbt nand flash pattern = ⟨(searchBbt nand flash pattern).version,
      (searchBbt nand flash pattern).bbtAddr⟩ := rfl
    _ = ⟨desc.version, desc.bbtAddr⟩ := by
      rw [← foundCopy.2.1, isPlace, isBlock]

theorem searchBbt_eq_none
    (nowhere : OnlyAt nand flash pattern none) :
    searchBbt nand flash pattern = ⟨0, none⟩ := by
  rcases searchBbt_cases nand flash pattern with
    ⟨isNone, -⟩ | ⟨table, ⟨block, isBlock, holds⟩, inRegion⟩
  · exact isNone
  · exact absurd (nowhere block (inRegion block isBlock) _ holds rfl) (by simp)

end

variable {nand : NandxInfo} {flash : Flash} {env : ScanEnv} {main mirror : Desc} {table : Table}

theorem searchBbt_main
    (tracked : Tracked nand main.bbtAddr mirror.bbtAddr flash)
    (holds : Holds flash .main main table) :
    searchBbt nand flash .main = main :=
  searchBbt_eq tracked.mainOnly holds fun block isBlock => (tracked.mainPlaced block isBlock).1

theorem searchBbt_mirror
    (tracked : Tracked nand main.bbtAddr mirror.bbtAddr flash)
    (holds : Holds flash .mirror mirror table) :
    searchBbt nand flash .mirror = mirror :=
  searchBbt_eq tracked.mirrorOnly holds fun block isBlock => (tracked.mirrorPlaced block isBlock).1

/-- The copies that a scan finds, and which it takes as valid. -/
inductive Found (flash : Flash) (main mirror : Desc) : ValidDesc → Prop
  | none (noMain : main = ⟨0, none⟩) (noMirror : mirror = ⟨0, none⟩) :
      Found flash main mirror ⟨false, false⟩
  | main {table : Table} (holds : Holds flash .main main table)
      (newer : mirror = ⟨0, none⟩ ∨ mirror.version < main.version) :
      Found flash main mirror ⟨true, false⟩
  | mirror {table : Table} (holds : Holds flash .mirror mirror table)
      (newer : main = ⟨0, none⟩ ∨ main.version < mirror.version) :
      Found flash main mirror ⟨false, true⟩
  | same {mainTable mirrorTable : Table} (holdsMain : Holds flash .main main mainTable)
      (holdsMirror : Holds flash .mirror mirror mirrorTable)
      (same : main.version = mirror.version) : Found flash main mirror ⟨true, true⟩

/-- Which of two copies are taken as valid. -/
theorem validDesc_of_holds
    {mainTable mirrorTable : Table}
    (holdsMain : Holds flash .main main mainTable)
    (holdsMirror : Holds flash .mirror mirror mirrorTable) :
    validDesc main mirror = ⟨true, false⟩ ∧ mirror.version < main.version ∨
    validDesc main mirror = ⟨false, true⟩ ∧ main.version < mirror.version ∨
    validDesc main mirror = ⟨true, true⟩ ∧ main.version = mirror.version := by
  obtain ⟨mainBlock, mainAddr, -⟩ := holdsMain
  obtain ⟨mirrorBlock, mirrorAddr, -⟩ := holdsMirror
  simp only [validDesc, mainAddr, mirrorAddr, isSome_some, Bool.true_and, bne_iff_ne]
  by_cases same : main.version = mirror.version
  · exact .inr (.inr ⟨if_neg (not_not.mpr same), same⟩)
  rw [if_pos same]
  split
  case isTrue newer => exact .inl ⟨rfl, newer⟩
  case isFalse notNewer =>
    refine .inr (.inl ⟨rfl, ?_⟩)
    have := BitVec.toNat_ne.mp same
    rw [BitVec.lt_def] at notNewer ⊢
    omega

theorem found_searchBbt
    (nand : NandxInfo)
    (flash : Flash) :
    Found flash (searchBbt nand flash .main) (searchBbt nand flash .mirror)
    (validDesc (searchBbt nand flash .main) (searchBbt nand flash .mirror)) := by
  rcases searchBbt_cases nand flash .main with
    ⟨noMain, -⟩ | ⟨mainTable, mainHolds, -⟩
  · rcases searchBbt_cases nand flash .mirror with
      ⟨noMirror, -⟩ | ⟨mirrorTable, mirrorHolds, -⟩
    · rw [noMain, noMirror]
      exact .none rfl rfl
    have mirrorSome : (searchBbt nand flash .mirror).bbtAddr.isSome = true := by
      obtain ⟨block, isBlock, -⟩ := mirrorHolds
      simp [isBlock]
    rw [noMain, validDesc, mirrorSome]
    exact .mirror mirrorHolds (.inl rfl)
  · rcases searchBbt_cases nand flash .mirror with
      ⟨noMirror, -⟩ | ⟨mirrorTable, mirrorHolds, -⟩
    · have mainSome : (searchBbt nand flash .main).bbtAddr.isSome = true := by
        obtain ⟨block, isBlock, -⟩ := mainHolds
        simp [isBlock]
      rw [noMirror, validDesc, mainSome]
      exact .main mainHolds (.inl rfl)
    · rcases validDesc_of_holds mainHolds mirrorHolds with
        ⟨valid, newer⟩ | ⟨valid, newer⟩ | ⟨valid, same⟩
      · exact valid ▸ .main mainHolds (.inr newer)
      · exact valid ▸ .mirror mirrorHolds (.inr newer)
      · exact valid ▸ .same mainHolds mirrorHolds same

/-- Both copies can be read. -/
def ScanEnv.Readable (env : ScanEnv) : Prop := env.mainRead = none ∧ env.mirrorRead = none

variable (readable : env.Readable) (isMain : searchBbt nand flash .main = main)
variable (isMirror : searchBbt nand flash .mirror = mirror)
include isMain isMirror

theorem scanCopies_of_none
    (noMain : main = ⟨0, none⟩)
    (noMirror : mirror = ⟨0, none⟩) :
    scanCopies nand flash env = ⟨⟨1, none⟩, ⟨1, none⟩, ⟨false, false⟩, createBbt nand flash
    (List.replicate (4 * (nand.totalBlock / 4)) .good)⟩ := by
  simp [scanCopies, isMain, isMirror, validDesc, noMain, noMirror,
    readCopies, readMain, readMirror, createIfNone, sameVersion]

include readable

/-- The main copy is newer, or the only one. -/
theorem scanCopies_of_main
    (valid : validDesc main mirror = ⟨true, false⟩)
    (holds : Holds flash .main main table)
    (newer : mirror = ⟨0, none⟩ ∨ mirror.version < main.version) :
    scanCopies nand flash env = ⟨main, ⟨main.version, mirror.bbtAddr⟩, ⟨true, false⟩, table⟩ := by
  obtain ⟨block, isBlock, isCopy⟩ := holds
  have notOlder : ¬ main.version < mirror.version := by
    rcases newer with isNone | isNewer
    · rw [isNone]
      exact BitVec.not_lt_zero
    · exact BitVec.lt_asymm isNewer
  have isTable : tableAt flash main = table := by simp [tableAt, isBlock, isCopy]
  simp [scanCopies, isMain, isMirror, valid, readCopies, readMain,
    readMirror, createIfNone, sameVersion, notOlder, readable.1, isTable]

/-- The mirror copy is newer, or the only one. -/
theorem scanCopies_of_mirror
    (valid : validDesc main mirror = ⟨false, true⟩)
    (holds : Holds flash .mirror mirror table)
    (newer : main = ⟨0, none⟩ ∨ main.version < mirror.version) :
    scanCopies nand flash env = ⟨⟨mirror.version, main.bbtAddr⟩, mirror, ⟨false, true⟩, table⟩ := by
  obtain ⟨block, isBlock, isCopy⟩ := holds
  have version : (if main.version < mirror.version then mirror.version
      else main.version) = mirror.version := by
    split
    case isTrue => rfl
    case isFalse older =>
      rcases newer with isNone | isNewer
      · rw [isNone] at older ⊢
        rw [BitVec.not_lt] at older
        exact (BitVec.le_zero_iff.mp older).symm
      · exact absurd isNewer older
  have isTable : tableAt flash mirror = table := by simp [tableAt, isBlock, isCopy]
  simp [scanCopies, isMain, isMirror, valid, readCopies, readMain,
    readMirror, createIfNone, sameVersion, version, readable.2, isTable]

theorem scanCopies_of_same
    (valid : validDesc main mirror = ⟨true, true⟩)
    (holds : Holds flash .main main table)
    (same : main.version = mirror.version) :
    scanCopies nand flash env = ⟨main, mirror, ⟨true, true⟩, table⟩ := by
  obtain ⟨block, isBlock, isCopy⟩ := holds
  have isTable : tableAt flash main = table := by simp [tableAt, isBlock, isCopy]
  have mainSame : (⟨mirror.version, main.bbtAddr⟩ : Desc) = main := by rw [← same]
  simp only [scanCopies, isMain, isMirror, valid, readCopies, readMain,
    readable.1, isTable, createIfNone, sameVersion]
  simp [same, mainSame]

end EchoKernel.Nandx
