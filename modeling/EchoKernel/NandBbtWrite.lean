import EchoKernel.NandBbt
import Mathlib.Data.List.Nodup

namespace EchoKernel.Nandx

open List Option Function FlashOp

/-!
# Writing one copy

`write_bbt` clears the copy's block and every block that fails, and then saves
the copy; the other copy's block is not touched.
-/

variable {nand : NandxInfo} {block : Nat}

/-- The last blocks of the flash. -/
theorem mem_bbtRegion :
    block ∈ bbtRegion nand ↔ nand.totalBlock - maxBlocks ≤ block ∧ block < nand.totalBlock := by
  have room := nand.room
  simp only [bbtRegion, List.mem_map, mem_range]
  constructor
  · omega
  · rintro ⟨above, below⟩
    exact ⟨nand.totalBlock - 1 - block, by omega, by omega⟩

theorem nodup_bbtRegion : (bbtRegion nand).Nodup := by
  have room := nand.room
  refine List.Nodup.map_on ?_ nodup_range
  intro first inRange second alsoInRange same
  rw [mem_range] at inRange alsoInRange
  omega

section
variable {bbt : Table} {other : Nat} {mark : Mark}

@[simp]
theorem length_setBbtMark : (setBbtMark bbt block mark).length = bbt.length := by
  simp [setBbtMark]

theorem getBbtMark_setBbtMark
    (inRange : block < bbt.length) :
    getBbtMark (setBbtMark bbt block mark) other = if block =
    other then mark else getBbtMark bbt other := by
  simp only [getBbtMark, setBbtMark, getD_eq_getElem?_getD, getElem?_set]
  split <;> rfl

theorem getBbtMark_setBbtMark_of_ne
    (differs : block ≠ other) :
    getBbtMark (setBbtMark bbt block mark) other = getBbtMark bbt other := by
  simp only [getBbtMark, setBbtMark, getD_eq_getElem?_getD, getElem?_set]
  rw [if_neg differs]

theorem getBbtMark_setBbtMark_good : getBbtMark (setBbtMark bbt block .good) block = .good := by
  by_cases inRange : block < bbt.length
  · rw [getBbtMark_setBbtMark inRange, if_pos rfl]
  have outside : (setBbtMark bbt block .good)[block]? = none := by
    rw [List.getElem?_eq_none_iff, length_setBbtMark]
    omega
  rw [getBbtMark, getD_eq_getElem?_getD, outside, getD_none]

section
variable {old new : Mark} {blocks : List Nat}

@[simp]
theorem length_replaceMarks : (replaceMarks old new blocks bbt).length = bbt.length := by
  induction blocks generalizing bbt with
  | nil => rfl
  | cons first rest inductionHypothesis =>
    rw [replaceMarks, inductionHypothesis]
    split
    · exact length_setBbtMark
    · rfl

/-- The old mark is replaced on the blocks. -/
theorem getBbtMark_replaceMarks
    (inRange : ∀ block ∈ blocks, block < bbt.length) :
    getBbtMark (replaceMarks old new blocks bbt) other =
    if other ∈ blocks ∧ getBbtMark bbt other = old then new else getBbtMark bbt other := by
  induction blocks generalizing bbt with
  | nil => simp [replaceMarks]
  | cons first rest inductionHypothesis =>
    have firstInRange := inRange first (by simp)
    rw [replaceMarks, inductionHypothesis]
    · by_cases isOld : getBbtMark bbt first = old
      · rw [if_pos isOld, getBbtMark_setBbtMark firstInRange]
        by_cases isFirst : first = other
        · subst isFirst
          simp [isOld]
        · simp [isFirst, Ne.symm isFirst]
      · rw [if_neg isOld]
        by_cases isFirst : first = other
        · subst isFirst
          simp [isOld]
        · simp [Ne.symm isFirst]
    · intro block member
      have := inRange block (by simp [member])
      split
      · rw [length_setBbtMark]
        exact this
      · exact this

end

@[simp]
theorem length_markBbtRegion : (markBbtRegion nand bbt).length = bbt.length := length_replaceMarks

@[simp]
theorem length_unmarkBbtRegion : (unmarkBbtRegion nand bbt).length = bbt.length :=
  length_replaceMarks

variable (sized : bbt.length = nand.totalBlock)
include sized

/-- Good blocks of the region are reserved. -/
theorem getBbtMark_markBbtRegion :
    getBbtMark (markBbtRegion nand bbt) block =
    if block ∈ bbtRegion nand ∧ getBbtMark bbt block = .good then .reserved else
    getBbtMark bbt block := by
  rw [markBbtRegion, getBbtMark_replaceMarks]
  · simp
  intro block member
  rw [sized]
  exact (mem_bbtRegion.mp (mem_reverse.mp member)).2

/-- Reserved blocks of the region are good again. -/
theorem getBbtMark_unmarkBbtRegion :
    getBbtMark (unmarkBbtRegion nand bbt) block =
    if block ∈ bbtRegion nand ∧ getBbtMark bbt block = .reserved then .good else
    getBbtMark bbt block := by
  rw [unmarkBbtRegion, getBbtMark_replaceMarks]
  · simp
  intro block member
  rw [sized]
  exact (mem_bbtRegion.mp (mem_reverse.mp member)).2

theorem isBad_markBbtRegion :
    (getBbtMark (markBbtRegion nand bbt) block).isBad = (getBbtMark bbt block).isBad := by
  rw [getBbtMark_markBbtRegion sized]
  split
  case isTrue isGood =>
    rw [isGood.2]
    rfl
  case isFalse => rfl

theorem isBad_unmarkBbtRegion :
    (getBbtMark (unmarkBbtRegion nand bbt) block).isBad = (getBbtMark bbt block).isBad := by
  rw [getBbtMark_unmarkBbtRegion sized]
  split
  case isTrue isReserved =>
    rw [isReserved.2]
    rfl
  case isFalse => rfl

end

section
variable {bbt : Table} {other : Option Nat}

theorem getBbtAddress_eq_some
    (chosen : getBbtAddress nand bbt other = some block) :
    block ∈ bbtRegion nand ∧ (getBbtMark bbt block).isBad = false ∧ some block ≠ other := by
  have holds := find?_some chosen
  have member := mem_of_find?_eq_some chosen
  simp only [Bool.and_eq_true, Bool.not_eq_true', bne_iff_ne] at holds
  exact ⟨member, holds.1, holds.2⟩

theorem exists_getBbtAddress
    (member : block ∈ bbtRegion nand)
    (notBad : (getBbtMark bbt block).isBad = false)
    (apart : some block ≠ other) :
    ∃ chosen, getBbtAddress nand bbt other = some chosen := by
  rw [← isSome_iff_exists, getBbtAddress, find?_isSome]
  exact ⟨block, member, by simp [notBad, apart]⟩

end

section

/-- The operation leaves no copy in its block. -/
def FlashOp.clears : FlashOp → Bool
  | .erase _ => true
  | .spoil _ => true
  | .zero _ => true
  | .save _ _ => false

variable {flash : Flash} {ops first second : List FlashOp}

theorem Flash.after_append : flash.after (first ++ second) = (flash.after first).after second :=
  foldl_append

theorem FlashOp.copyAt_apply_of_ne
    {op : FlashOp}
    (differs : block ≠ op.block) :
    (op.apply flash).copyAt block = flash.copyAt block := by
  cases op <;> exact update_of_ne differs ..

theorem FlashOp.copyAt_apply_of_clears
    {op : FlashOp}
    (clears : op.clears) :
    (op.apply flash).copyAt op.block = none := by
  cases op with
  | save block copy => cases clears
  | erase block | spoil block | zero block => exact update_self ..

theorem Flash.copyAt_after_of_apart
    (apart : ∀ op ∈ ops, op.block ≠ block) :
    (flash.after ops).copyAt block = flash.copyAt block := by
  induction ops generalizing flash with
  | nil => rfl
  | cons op rest inductionHypothesis =>
    have fromRest :=
      @inductionHypothesis (op.apply flash) (fun other member => apart other (by simp [member]))
    exact fromRest.trans (copyAt_apply_of_ne (apart op (by simp)).symm)

/-- Clearing operations leave what was there or nothing. -/
theorem Flash.copyAt_after_of_clears
    (clears : ∀ op ∈ ops, op.clears) :
    (flash.after ops).copyAt block = if ∃ op ∈ ops, op.block = block then none
      else flash.copyAt block := by
  induction ops generalizing flash with
  | nil => simp [Flash.after]
  | cons op rest inductionHypothesis =>
    have fromRest :=
      @inductionHypothesis (op.apply flash) (fun other member => clears other (by simp [member]))
    change ((op.apply flash).after rest).copyAt block = _
    rw [fromRest]
    by_cases isOp : op.block = block
    · have cleared := @copyAt_apply_of_clears flash op (clears op (by simp))
      rw [isOp] at cleared
      simp [isOp, cleared]
    · rw [copyAt_apply_of_ne (Ne.symm isOp)]
      simp [isOp]

/-- The pattern's copies are only at the address. -/
def OnlyAt (nand : NandxInfo) (flash : Flash) (pattern : Pattern) (addr : Option Nat) : Prop :=
  ∀ block ∈ bbtRegion nand, ∀ copy, flash.copyAt block = some copy → copy.pattern = pattern →
      addr = some block

section
variable {nand : NandxInfo} {pattern : Pattern} {addr : Option Nat}
  (only : OnlyAt nand flash pattern addr) (clears : ∀ op ∈ ops, op.clears)
include only clears

theorem OnlyAt.after_clears : OnlyAt nand (flash.after ops) pattern addr := by
  intro block member copy holds isPattern
  rw [Flash.copyAt_after_of_clears clears] at holds
  split at holds
  · cases holds
  · exact only block member copy holds isPattern

/-- Clearing the block of the only copy leaves none. -/
theorem OnlyAt.after_reaches
    (reaches : ∀ block, addr = some block → ∃ op ∈ ops, op.block = block) :
    OnlyAt nand (flash.after ops) pattern none := by
  intro block member copy holds isPattern
  rw [Flash.copyAt_after_of_clears clears] at holds
  split at holds
  case isTrue => cases holds
  case isFalse apart =>
    exact absurd (reaches block (only block member copy holds isPattern)) apart

end

end

variable {pattern : Pattern} {fails : List SaveFailure} {desc : Desc}

section
variable {other : Option Nat} {bbt : Table}

/--
Operations that clear blocks of the region apart from the other copy, that at
the address among them.
-/
structure Clearing (nand : NandxInfo) (other addr : Option Nat) (ops : List FlashOp) : Prop where
  clears : ∀ op ∈ ops, op.clears
  inRegion : ∀ op ∈ ops, op.block ∈ bbtRegion nand
  apart : ∀ op ∈ ops, some op.block ≠ other
  reaches : ∀ block, addr = some block → ∃ op ∈ ops, op.block = block

/-- The operations of one block that fails. -/
theorem clearing_failure
    {failure : SaveFailure}
    {ops : List FlashOp}
    (member : block ∈ bbtRegion nand)
    (apart : some block ≠ other)
    (rest : Clearing nand other none ops) :
    Clearing nand other (some block) (failure.ops block ++ markNandBad block ++ ops) := by
  have here : ∀ op ∈ failure.ops block ++ markNandBad block, op.clears ∧ op.block = block := by
    intro op isHere
    cases failure <;> simp only [SaveFailure.ops, markNandBad, nil_append,
      cons_append, mem_cons, not_mem_nil, or_false] at isHere
    · rcases isHere with rfl | rfl <;> exact ⟨rfl, rfl⟩
    · rcases isHere with rfl | rfl | rfl | rfl <;> exact ⟨rfl, rfl⟩
  have cases : ∀ op ∈ failure.ops block ++ markNandBad block ++ ops,
      (op.clears ∧ op.block = block) ∨ op ∈ ops := by
    intro op isOp
    rcases mem_append.mp isOp with isHere | isLater
    · exact .inl (here op isHere)
    · exact .inr isLater
  refine ⟨?_, ?_, ?_, ?_⟩
  · intro op isOp
    rcases cases op isOp with ⟨clears, -⟩ | isLater
    · exact clears
    · exact rest.clears op isLater
  · intro op isOp
    rcases cases op isOp with ⟨-, isBlock⟩ | isLater
    · rw [isBlock]
      exact member
    · exact rest.inRegion op isLater
  · intro op isOp
    rcases cases op isOp with ⟨-, isBlock⟩ | isLater
    · rw [isBlock]
      exact apart
    · exact rest.apart op isLater
  · rintro reached isReached
    cases isReached
    exact ⟨.erase block, by simp [markNandBad], rfl⟩

/-- How `write_bbt` ends: without room, or with a saved copy. -/
inductive WriteOutcome (nand : NandxInfo) (pattern : Pattern) (other : Option Nat)
    (fails : List SaveFailure) (desc : Desc) : Written → Prop
  | full {version : BitVec 8} {bbt : Table} {ops : List FlashOp}
      (clearing : Clearing nand other desc.bbtAddr ops) : WriteOutcome nand pattern other fails desc
        ⟨⟨version, none⟩, bbt, ops, some .enospc⟩
  | saved {block : Nat} {bbt : Table} {ops : List FlashOp} (member : block ∈ bbtRegion nand)
      (apart : some block ≠ other) (clearing : Clearing nand other desc.bbtAddr ops)
      (erased : ∃ op ∈ ops, op.block = block) : WriteOutcome nand pattern other fails desc
        ⟨⟨desc.version + BitVec.ofNat 8 fails.length, some block⟩, bbt, ops ++ [.save block
              ⟨pattern, desc.version + BitVec.ofNat 8 fails.length, bbt⟩], none⟩

/-- The descriptor's address is in the region, not the other copy. -/
def Placed (nand : NandxInfo) (other addr : Option Nat) : Prop :=
  ∀ block, addr = some block → block ∈ bbtRegion nand ∧ some block ≠ other

theorem placed_none : Placed nand other none := by
  intro block isBlock
  cases isBlock

/-- The address that `write_bbt` takes is as good. -/
theorem placed_chosen
    (placed : Placed nand other desc.bbtAddr)
    (chosen : desc.bbtAddr.or (getBbtAddress nand bbt other) = some block) :
    block ∈ bbtRegion nand ∧ some block ≠ other := by
  cases isAddr : desc.bbtAddr with
  | none =>
    rw [isAddr] at chosen
    obtain ⟨member, -, apart⟩ := getBbtAddress_eq_some chosen
    exact ⟨member, apart⟩
  | some addr =>
    rw [isAddr, some_or, some.injEq] at chosen
    rw [← chosen]
    exact placed addr isAddr

theorem clearing_nil : Clearing nand other none [] := ⟨by simp, by simp, by simp, by simp⟩

/-- A failed block before an outcome. -/
theorem WriteOutcome.after_failure
    {failure : SaveFailure}
    {version : BitVec 8}
    {next : Written}
    (member : block ∈ bbtRegion nand)
    (apart : some block ≠ other)
    (isAddr : ∀ addr, desc.bbtAddr = some addr → addr = block)
    (isVersion : version = desc.version + 1)
    (outcome : WriteOutcome nand pattern other fails ⟨version, none⟩ next) :
    WriteOutcome nand pattern other (failure :: fails) desc { next with
        ops := failure.ops block ++ markNandBad block ++ next.ops } := by
  have widen : ∀ ops, Clearing nand other (some block) ops →
      Clearing nand other desc.bbtAddr ops := by
    intro ops clearing
    refine ⟨clearing.clears, clearing.inRegion, clearing.apart, ?_⟩
    intro addr isDesc
    rw [isAddr addr isDesc]
    exact clearing.reaches block rfl
  subst isVersion
  cases outcome with
  | full clearing => exact .full (widen _ (clearing_failure member apart clearing))
  | @saved place bbt ops placeMember placeApart clearing erased =>
    have versions : desc.version + 1 + BitVec.ofNat 8 fails.length = desc.version +
        BitVec.ofNat 8 (failure :: fails).length := by
      rw [length_cons, BitVec.ofNat_add, BitVec.add_assoc, BitVec.add_comm 1]
      rfl
    rw [versions, ← append_assoc]
    refine .saved placeMember placeApart (widen _ (clearing_failure member apart clearing)) ?_
    obtain ⟨op, isOp, isPlace⟩ := erased
    exact ⟨op, by simp [isOp], isPlace⟩

/-- `write_bbt` has one of these outcomes. -/
theorem writeBbt_outcome
    (placed : Placed nand other desc.bbtAddr) :
    WriteOutcome nand pattern other fails desc (writeBbt nand pattern other fails desc bbt) := by
  induction fails generalizing desc bbt with
  | nil =>
    rw [writeBbt]
    cases chosen : desc.bbtAddr.or (getBbtAddress nand bbt other) with
    | none => exact .full ((or_eq_none_iff.mp chosen).1 ▸ clearing_nil)
    | some block =>
      obtain ⟨member, apart⟩ := placed_chosen placed chosen
      have version : desc.version =
          desc.version + BitVec.ofNat 8 ([] : List SaveFailure).length := by
        simp
      have erases : Clearing nand other desc.bbtAddr [.erase block] := by
        refine ⟨by simp [FlashOp.clears], by simpa [FlashOp.block], by simpa [FlashOp.block], ?_⟩
        intro addr isAddr
        rw [isAddr, some_or, some.injEq] at chosen
        exact ⟨.erase block, by simp, chosen.symm⟩
      have outcome := @WriteOutcome.saved nand pattern other [] desc block bbt
        [.erase block] member apart erases ⟨.erase block, by simp, rfl⟩
      rw [← version] at outcome
      exact outcome
  | cons failure fails inductionHypothesis =>
    rw [writeBbt]
    cases chosen : desc.bbtAddr.or (getBbtAddress nand bbt other) with
    | none => exact .full ((or_eq_none_iff.mp chosen).1 ▸ clearing_nil)
    | some block =>
      obtain ⟨member, apart⟩ := placed_chosen placed chosen
      refine .after_failure member apart ?_ rfl (inductionHypothesis placed_none)
      intro addr isAddr
      rw [isAddr, some_or, some.injEq] at chosen
      exact chosen

theorem writeBbt_bbt_of_nil
    (noFailure : fails = []) :
    (writeBbt nand pattern other fails desc bbt).bbt = bbt := by
  subst noFailure
  rw [writeBbt]
  split <;> rfl

end

variable {other : Option Nat} {bbt : Table}

/-- The blocks that can hold a copy. -/
def candidates (nand : NandxInfo) (bbt : Table) (other : Option Nat) : List Nat :=
  (bbtRegion nand).filter fun block => !(getBbtMark bbt block).isBad && some block != other

theorem mem_candidates :
    block ∈ candidates nand bbt other ↔ block ∈ bbtRegion nand ∧
    (getBbtMark bbt block).isBad = false ∧ some block ≠ other := by
  simp [candidates]

theorem length_candidates_le : (candidates nand bbt other).length ≤ maxBlocks := by
  calc
    (candidates nand bbt other).length ≤ (bbtRegion nand).length := length_filter_le ..
    _ = maxBlocks := by simp [bbtRegion]

theorem getBbtAddress_eq_head? :
    getBbtAddress nand bbt other = (candidates nand bbt other).head? := by
  rw [candidates, head?_filter]
  rfl

section
variable (sized : bbt.length = nand.totalBlock)
include sized

/-- A block that fails is no longer among them. -/
theorem candidates_setBbtMark
    (member : block ∈ bbtRegion nand) :
    candidates nand (setBbtMark bbt block .worn) other =
    (candidates nand bbt other).erase block := by
  have inRange : block < bbt.length := by
    rw [sized]
    exact (mem_bbtRegion.mp member).2
  have distinct : (candidates nand bbt other).Nodup := nodup_bbtRegion.filter _
  rw [distinct.erase_eq_filter, candidates, candidates, List.filter_filter]
  refine filter_congr ?_
  intro place _
  rw [getBbtMark_setBbtMark inRange]
  by_cases isBlock : block = place
  · simp [isBlock, Mark.isBad]
  · simp [isBlock, Ne.symm isBlock]

theorem length_candidates_setBbtMark
    (member : block ∈ candidates nand bbt other) :
    (candidates nand (setBbtMark bbt block .worn) other).length + 1 =
    (candidates nand bbt other).length := by
  rw [candidates_setBbtMark sized (mem_candidates.mp member).1, length_erase_of_mem member]
  have := length_pos_of_mem member
  omega

theorem candidates_unmarkBbtRegion :
    candidates nand (unmarkBbtRegion nand bbt) other = candidates nand bbt other := by
  simp only [candidates, isBad_unmarkBbtRegion sized]

/-- A copy without a block is saved iff one is left for it. -/
theorem writeBbt_succeeds_iff_of_none
    (noAddr : desc.bbtAddr = none) :
    (writeBbt nand pattern other fails desc bbt).result = none ↔
    fails.length < (candidates nand bbt other).length := by
  induction fails generalizing desc bbt with
  | nil =>
    rw [writeBbt, noAddr, getBbtAddress_eq_head?]
    cases candidates nand bbt other with
    | nil => simp
    | cons first rest => simp
  | cons failure fails inductionHypothesis =>
    rw [writeBbt, noAddr, none_or, getBbtAddress_eq_head?]
    cases isFirst : candidates nand bbt other with
    | nil => simp
    | cons first rest =>
      have member : first ∈ candidates nand bbt other := by simp [isFirst]
      have shorter := length_candidates_setBbtMark sized member
      rw [head?_cons]
      rw [inductionHypothesis (by simpa) rfl, ← isFirst]
      rw [length_cons]
      omega

/-- So is a copy with a block that can hold it. -/
theorem writeBbt_succeeds_iff
    (isAddr : desc.bbtAddr = some block)
    (member : block ∈ candidates nand bbt other) :
    (writeBbt nand pattern other fails desc bbt).result = none ↔
    fails.length < (candidates nand bbt other).length := by
  have positive := length_pos_of_mem member
  cases fails with
  | nil =>
    rw [writeBbt, isAddr]
    exact iff_of_true rfl positive
  | cons failure fails =>
    have shorter := length_candidates_setBbtMark sized member
    rw [writeBbt, isAddr, some_or]
    rw [writeBbt_succeeds_iff_of_none (by simpa) rfl, length_cons]
    omega

/-- There are not more failures than blocks. -/
theorem length_le_of_writeBbt_succeeds
    (succeeds : (writeBbt nand pattern other fails desc bbt).result = none) :
    fails.length ≤ maxBlocks := by
  cases fails with
  | nil => simp
  | cons failure fails =>
    rw [writeBbt] at succeeds
    cases chosen : desc.bbtAddr.or (getBbtAddress nand bbt other) with
    | none => simp [chosen] at succeeds
    | some block =>
      rw [chosen] at succeeds
      rw [writeBbt_succeeds_iff_of_none (by simpa) rfl] at succeeds
      have := @length_candidates_le nand other (setBbtMark bbt block .worn)
      rw [length_cons]
      omega

end

/-- One of them may be the other copy. -/
theorem length_candidates_some
    (member : block ∈ candidates nand bbt none) :
    (candidates nand bbt (some block)).length + 1 = (candidates nand bbt none).length := by
  have distinct : (candidates nand bbt none).Nodup := nodup_bbtRegion.filter _
  have erased : candidates nand bbt (some block) = (candidates nand bbt none).erase block := by
    rw [distinct.erase_eq_filter, candidates, candidates, List.filter_filter]
    refine filter_congr ?_
    intro place _
    have isOther : (some place != none) = true := rfl
    have isBlock : (some place != some block) = (place != block) := rfl
    rw [isOther, isBlock, Bool.and_true, Bool.and_comm]
  rw [erased, length_erase_of_mem member]
  have := length_pos_of_mem member
  omega

/-- Every failure takes one of them away. -/
theorem length_candidates_writeBbt
    (sized : bbt.length = nand.totalBlock)
    (isCandidate : ∀ place, desc.bbtAddr = some place → place ∈ candidates nand bbt other)
    (succeeds : (writeBbt nand pattern other fails desc bbt).result = none) :
    (candidates nand (writeBbt nand pattern other fails desc bbt).bbt other).length + fails.length =
    (candidates nand bbt other).length := by
  induction fails generalizing desc bbt with
  | nil =>
    rw [writeBbt_bbt_of_nil rfl]
    rfl
  | cons failure fails inductionHypothesis =>
    rw [writeBbt] at succeeds ⊢
    cases chosen : desc.bbtAddr.or (getBbtAddress nand bbt other) with
    | none => simp [chosen] at succeeds
    | some place =>
      have member : place ∈ candidates nand bbt other := by
        rcases or_eq_some_iff.mp chosen with given | ⟨-, isFound⟩
        · exact isCandidate place given
        · exact mem_candidates.mpr (getBbtAddress_eq_some isFound)
      rw [chosen] at succeeds
      have rest := @inductionHypothesis ⟨desc.version + 1, none⟩
        (setBbtMark bbt place .worn) (by simpa) (by simp) succeeds
      have shorter := length_candidates_setBbtMark sized member
      dsimp only
      rw [length_cons]
      omega

/-- Blocks outside the region and the other copy's keep their marks. -/
theorem getBbtMark_writeBbt_apart
    (placed : Placed nand other desc.bbtAddr)
    (apart : block ∉ bbtRegion nand ∨ other = some block) :
    getBbtMark (writeBbt nand pattern other fails desc bbt).bbt block = getBbtMark bbt block := by
  induction fails generalizing desc bbt with
  | nil => rw [writeBbt_bbt_of_nil rfl]
  | cons failure fails inductionHypothesis =>
    rw [writeBbt]
    cases chosen : desc.bbtAddr.or (getBbtAddress nand bbt other) with
    | none => rfl
    | some place =>
      obtain ⟨member, differs⟩ := placed_chosen placed chosen
      dsimp only
      rw [inductionHypothesis placed_none, getBbtMark_setBbtMark_of_ne]
      rintro rfl
      exact apart.elim (· member) fun isOther => differs isOther.symm

/-- A copy is in a good block, unless it stays in one. -/
theorem isBad_writeBbt
    (good : ∀ place, desc.bbtAddr = some place → (getBbtMark bbt place).isBad = false)
    (isAddr : (writeBbt nand pattern other fails desc bbt).desc.bbtAddr = some block) :
    (getBbtMark (writeBbt nand pattern other fails desc bbt).bbt block).isBad = false := by
  induction fails generalizing desc bbt with
  | nil =>
    rw [writeBbt] at isAddr ⊢
    cases chosen : desc.bbtAddr.or (getBbtAddress nand bbt other) with
    | none => simp [chosen] at isAddr
    | some place =>
      rw [chosen, some.injEq] at isAddr
      rw [← isAddr]
      rcases or_eq_some_iff.mp chosen with given | ⟨-, isFound⟩
      · exact good place given
      · exact (getBbtAddress_eq_some isFound).2.1
  | cons failure fails inductionHypothesis =>
    rw [writeBbt] at isAddr ⊢
    cases chosen : desc.bbtAddr.or (getBbtAddress nand bbt other) with
    | none => simp [chosen] at isAddr
    | some place =>
      rw [chosen] at isAddr
      exact inductionHypothesis (by simp) isAddr

theorem isBad_of_nil
    (noFailure : fails = [])
    (good : ∀ place, desc.bbtAddr = some place → (getBbtMark bbt place).isBad = false)
    (isAddr : (writeBbt nand pattern other fails desc bbt).desc.bbtAddr = some block) :
    (getBbtMark bbt block).isBad = false := by
  have placed := isBad_writeBbt good isAddr
  rwa [writeBbt_bbt_of_nil noFailure] at placed

theorem length_writeBbt : (writeBbt nand pattern other fails desc bbt).bbt.length = bbt.length := by
  induction fails generalizing desc bbt with
  | nil =>
    rw [writeBbt]
    split <;> rfl
  | cons failure fails inductionHypothesis =>
    rw [writeBbt]
    split
    · rfl
    · rw [inductionHypothesis]
      exact length_setBbtMark

end EchoKernel.Nandx
