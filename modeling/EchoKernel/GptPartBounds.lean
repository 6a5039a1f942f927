import EchoKernel.GptPartCopies
import Mathlib

namespace EchoKernel.Gpt

/-!
# What a partition table can make the parser do

`gpt_parse` takes counts, strides and addresses from the flash unchecked. An
entry is read where its header says, with the type of the entry behind it, and
a partition is reported wherever it ends. The condition for staying inside the
memory and the device is on the entries as they are on the flash.
-/

/-- A call of `gpt_add_part`: header, block and offset of the entry. -/
structure Call where
  gpthdr : GptHeader
  buf : Buffer
  offset : Nat

namespace Call

variable (call : Call)

/-- The first block of the entry. -/
def firstLba : Nat := getLlword call.buf (call.offset + 32)

/-- The last block of the entry. -/
def lastLba : Nat := getLlword call.buf (call.offset + 40)

/-- The blocks of a bootloader partition before its entry. -/
def lead : Nat := if getLlword call.buf (call.offset + 48) = 4 then 4 else 0

/-- The type of the entry begins with zeros. -/
def unused : Prop := call.buf call.offset = 0 ∧ call.buf (call.offset + 1) = 0

instance : Decidable call.unused := inferInstanceAs (Decidable (_ ∧ _))

/-- The entry is used, and its blocks are in order. -/
def usable : Prop := ¬ call.unused ∧ call.firstLba < call.lastLba

instance : Decidable call.usable := inferInstanceAs (Decidable (_ ∧ _))

/-- The bytes that the call reads: from where on, and how many. -/
def reads : List (Nat × Nat) :=
  (call.offset, 16) ::
    if call.unused then []
    else
      [((call.offset + call.gpthdr.partitionEntrySize) % 2 ^ 32, 16),
        (call.offset + 48, 8), (call.offset + 32, 8), (call.offset + 40, 8)] ++
          if call.lastLba ≤ call.firstLba then []
          else [(call.offset + 56, maxGptNameSize)]

end Call

namespace Master

variable (master : Master)

/-- The calls for the entries of a block. -/
def addCalls (gpthdr : GptHeader) (buf : Buffer) : Nat → Nat → List Call
  | 0, _ => []
  | remaining + 1, j =>
    ⟨gpthdr, buf, j * gpthdr.partitionEntrySize % 2 ^ 32⟩ ::
      if (master.gptAddPart buf (j * gpthdr.partitionEntrySize % 2 ^ 32)).isSome then
        addCalls gpthdr buf remaining (j + 1)
      else []

/-- The calls for blocks of entries. -/
def blockCalls (gpthdr : GptHeader) (partAddr : Nat) : Nat → Nat → List Call
  | 0, _ => []
  | remaining + 1, i =>
    match master.mtdRead ((partAddr + i * master.lbaSize % 2 ^ 32) % 2 ^ 64) with
    | none => []
    | some buf =>
      master.addCalls gpthdr buf (master.lbaSize / entrySize) 0 ++
        if (master.addParts gpthdr buf (master.lbaSize / entrySize) 0).2 then []
        else blockCalls gpthdr partAddr remaining (i + 1)

/-- The calls of `gpt_read_entries`, by header block. -/
def entryCalls (gpthdr : GptHeader) (buf : Buffer) (gptOffset : Nat) : List Call :=
  let partEntryCnt := master.lbaSize / entrySize
  let partLbaCnt :=
    (gpthdr.maxPartitionCount + partEntryCnt - 1) % 2 ^ 32 / partEntryCnt *
      partEntryCnt % 2 ^ 32 / partEntryCnt
  master.blockCalls gpthdr ((gptOffset + getLlword buf 72 * master.lbaSize) % 2 ^ 64) partLbaCnt 0

/-- The calls for a copy. -/
def copyCalls (copy : Nat) : List Call :=
  match master.headerBlock copy with
  | none => []
  | some buf =>
    if master.readsEntries copy then
      master.entryCalls (master.headerBefore (copy + 1)) buf (master.copyOffset copy)
    else []

/-- The number of copies that are visited. -/
def visits : Nat := (master.lastVisited.map (· + 1)).getD maxBootCopies

/-- The calls of `gpt_parse`. -/
def calls : List Call := (List.range master.visits).flatMap master.copyCalls

/-- A partition is where its entry says, unwrapped, and inside the device. -/
def Inside (call : Call) (part : MtdPartition) : Prop :=
  part.offset + call.lead * master.lbaSize = call.firstLba * master.lbaSize ∧
    part.offset + part.size = (call.lastLba + 1) * master.lbaSize ∧
      part.offset + part.size ≤ master.size

/--
The array has room for all partitions, no byte behind the buffer is read, of
which the first block and the header take 512, and all reported partitions are
inside the device.
-/
structure Contained : Prop where
  written : master.gptParse ≠ none
  headers : 512 ≤ master.lbaSize
  entries : ∀ call ∈ master.calls, ∀ access ∈ call.reads, access.1 + access.2 ≤ master.lbaSize
  inside : master.gptParse ≠ some [] → ∀ call ∈ master.calls, ∀ part,
      master.gptAddPart call.buf call.offset = some part → master.Inside call part

/-- The last visited copy is not left with an error. -/
def reports : Bool := master.lastVisited.isSome || !master.failedBefore maxBootCopies

/-- An entry and the type behind it are in the buffer. -/
def InBlock (call : Call) : Prop :=
  call.offset + 16 ≤ master.lbaSize ∧ (¬ call.unused → call.offset + 56 ≤ master.lbaSize ∧
      (call.offset + call.gpthdr.partitionEntrySize) % 2 ^ 32 + 16 ≤ master.lbaSize ∧
        (call.firstLba < call.lastLba → call.offset + 128 ≤ master.lbaSize))

end Master

/-- An entry that can be read and is usable. -/
def usableEntry (entry : Option Call) : Bool := entry.any fun call => decide call.usable

/-- The entries up to the first one that is not usable, with that one if it can be read. -/
def leading (entries : List (Option Call)) : List Call :=
  (entries.takeWhile usableEntry ++ (entries.dropWhile usableEntry).head?.toList).filterMap id

/-- The first entry that is not usable cannot be read. -/
def broken (entries : List (Option Call)) : Bool :=
  (entries.dropWhile usableEntry).head?.any Option.isNone

namespace Master

variable (master : Master)

/-- The entries of a block on the flash; none when it cannot be read. -/
def blockEntries (gpthdr : GptHeader) (partAddr i : Nat) : List (Option Call) :=
  (List.range (master.lbaSize / entrySize)).map fun j =>
    (master.mtdRead ((partAddr + i * master.lbaSize % 2 ^ 32) % 2 ^ 64)).map fun buf =>
      ⟨gpthdr, buf, j * gpthdr.partitionEntrySize % 2 ^ 32⟩

/-- The entries of a copy on the flash, for the last header with the signature. -/
def flashEntries (copy : Nat) : List (Option Call) :=
  match master.headerBlock copy with
  | none => []
  | some buf =>
    let gpthdr := master.headerBefore (copy + 1)
    let partEntryCnt := master.lbaSize / entrySize
    let partLbaCnt :=
      (gpthdr.maxPartitionCount + partEntryCnt - 1) % 2 ^ 32 / partEntryCnt *
        partEntryCnt % 2 ^ 32 / partEntryCnt
    (List.range partLbaCnt).flatMap (master.blockEntries gpthdr
      ((master.copyOffset copy + getLlword buf 72 * master.lbaSize) % 2 ^ 64))

/-- The number of partitions in the header of the first copy that is entered. -/
def arrayLength : Nat :=
  match (List.range maxBootCopies).find? master.entered with
  | none => 0
  | some first => (master.headerBefore (first + 1)).maxPartitionCount

/-- The first copy that is entered and whose entries can be read. -/
def firstWhole : Option Nat :=
  (List.range maxBootCopies).find? fun copy =>
    master.entered copy && !broken (master.flashEntries copy)

/-- The entered copies up to that one, if the array can be allocated. -/
def readCopies : List Nat :=
  if master.kcallocParts master.arrayLength then
    (List.range ((master.firstWhole.map (· + 1)).getD maxBootCopies)).filter master.entered
  else []

/-- A block of the last copy cannot be read. -/
def LastFails : Prop :=
  master.mbr 3 = none ∨ master.tagged 3 = true ∧ master.announcedBefore maxBootCopies = true ∧
    (master.headerBlock 3 = none ∨ broken (master.flashEntries 3) = true)

/--
The copies that are read have at most as many usable entries before others as
the first header says. These entries and the first other one are in their
blocks, and the partitions are on the device.
-/
structure Sane : Prop where
  roomy : (master.readCopies.map fun copy =>
      ((master.flashEntries copy).takeWhile usableEntry).length).sum ≤ master.arrayLength
  inBlock : ∀ copy ∈ master.readCopies, ∀ entry ∈ leading (master.flashEntries copy),
      master.InBlock entry
  fits : master.firstWhole.isSome = true ∨ ¬ master.LastFails → ∀ copy ∈ master.readCopies,
      ∀ entry ∈ leading (master.flashEntries copy), entry.usable →
        entry.lead ≤ entry.firstLba ∧ (entry.lastLba + 1) * master.lbaSize ≤ master.size

variable {master} {call : Call}

/-- The calls of a block give its partitions. -/
theorem parts_addCalls
    {gpthdr : GptHeader}
    {buf : Buffer}
    {remaining j : Nat} :
    (master.addCalls gpthdr buf remaining j).filterMap
    (fun call => master.gptAddPart call.buf call.offset) =
    (master.addParts gpthdr buf remaining j).1 := by
  induction remaining generalizing j with
  | zero => rfl
  | succ remaining inductionHypothesis =>
    rw [addCalls, addParts, List.filterMap_cons]
    cases master.gptAddPart buf (j * gpthdr.partitionEntrySize % 2 ^ 32) with
    | none => rfl
    | some part => exact congrArg (part :: ·) inductionHypothesis

/-- The calls of blocks give their partitions. -/
theorem parts_blockCalls
    {gpthdr : GptHeader}
    {partAddr remaining i : Nat} :
    (master.blockCalls gpthdr partAddr remaining i).filterMap
    (fun call => master.gptAddPart call.buf call.offset) =
    (master.readBlocks gpthdr partAddr remaining i).1 := by
  induction remaining generalizing i with
  | zero => rfl
  | succ remaining inductionHypothesis =>
    rw [blockCalls, readBlocks]
    cases master.mtdRead ((partAddr + i * master.lbaSize % 2 ^ 32) % 2 ^ 64) with
    | none => rfl
    | some buf =>
      dsimp only
      rw [List.filterMap_append, parts_addCalls]
      split
      case isTrue => exact List.append_nil _
      case isFalse => rw [inductionHypothesis]

/-- The calls give the partitions that are found. -/
theorem parts_calls :
    master.calls.filterMap (fun call => master.gptAddPart call.buf call.offset) =
    (master.foundBefore master.visits).map Prod.snd := by
  rw [calls, foundBefore, List.filterMap_flatMap, List.map_flatMap]
  congr 1
  funext copy
  rw [copyCalls, added, entriesOf]
  cases isBlock : master.headerBlock copy with
  | none =>
    have notEntered : master.entered copy = false := by
      rw [entered, isBlock]
      exact Bool.and_false _
    rw [readsEntries, notEntered]
    rfl
  | some buf =>
    dsimp only
    split
    case isTrue =>
      rw [entryCalls, parts_blockCalls, fromCopy, List.map_map]
      exact (List.map_id _).symm
    case isFalse => rfl

/-- What is returned, by the room in the array and the last error. -/
theorem gptParse_eq_reports :
    master.gptParse = if master.Roomy master.visits then
    some (if master.reports then master.foundBefore master.visits else []) else none := by
  rw [gptParse_eq, visits, reports]
  cases master.lastVisited with
  | some last => rfl
  | none =>
    rw [returned]
    cases master.failedBefore maxBootCopies with
    | true | false => rfl

/-- The first block and the header are in the buffer. -/
theorem headers_le_lbaSize : 512 ≤ master.lbaSize := by
  unfold lbaSize
  split
  case isTrue isNand =>
    obtain ⟨shift, large, isSize⟩ := master.pageSize isNand
    rw [isSize]
    exact Nat.pow_le_pow_right Nat.two_pos large
  case isFalse => exact Nat.le_refl 512

/-- All bytes that a call reads are in the buffer iff its entry is. -/
theorem reads_le_iff :
    (∀ access ∈ call.reads, access.1 + access.2 ≤ master.lbaSize) ↔ master.InBlock call := by
  rw [Call.reads, InBlock]
  by_cases isUnused : call.unused
  · simp [isUnused]
  by_cases isRefused : call.lastLba ≤ call.firstLba
  · simp [isUnused]
    omega
  · simp [isUnused, maxGptNameSize]
    omega

/-- A partition is added iff the entry is usable. -/
theorem gptAddPart_isSome_iff :
    (∃ part, master.gptAddPart call.buf call.offset = some part) ↔ call.usable := by
  have unused_iff : call.unused ↔ call.buf call.offset = 0 ∧ call.buf (call.offset + 1) = 0 :=
    Iff.rfl
  rw [gptAddPart, Call.usable, unused_iff]
  split
  case isTrue isUnused => simp [isUnused]
  case isFalse isUsed =>
    dsimp only
    split
    case isTrue isRefused => simp [Call.firstLba, Call.lastLba, isRefused]
    case isFalse isAccepted =>
      exact ⟨fun _ => ⟨isUsed, Nat.not_le.mp isAccepted⟩, fun _ => ⟨_, rfl⟩⟩

/-- Nothing wraps for a partition that is on the device. -/
theorem unwrapped_iff
    {first last start lead lba size : Nat}
    (order : first < last)
    (positive : 0 < lba)
    (small : size < 2 ^ 64)
    (isStart : start = first ∧ lead = 0 ∨ start = (first + 2 ^ 64 - 4) % 2 ^ 64 ∧ lead = 4) :
    (start * lba % 2 ^ 64 + lead * lba = first * lba ∧
    start * lba % 2 ^ 64 + (last + 2 ^ 64 - start + 1) % 2 ^ 64 * lba % 2 ^ 64 = (last + 1) * lba ∧
    start * lba % 2 ^ 64 + (last + 2 ^ 64 - start + 1) % 2 ^ 64 * lba % 2 ^ 64 ≤ size) ↔
    lead ≤ first ∧ (last + 1) * lba ≤ size := by
  constructor
  · rintro ⟨begins, ends, within⟩
    rw [ends] at within
    exact ⟨Nat.le_of_mul_le_mul_right (by omega) positive, within⟩
  rintro ⟨before, within⟩
  have lastSmall : last + 1 ≤ (last + 1) * lba := Nat.le_mul_of_pos_right _ positive
  have isFirst : start + lead = first := by omega
  have isCount : (last + 2 ^ 64 - start + 1) % 2 ^ 64 = last + 1 - start := by omega
  have isEnd : start * lba + (last + 1 - start) * lba = (last + 1) * lba := by
    rw [← Nat.add_mul, Nat.add_sub_cancel' (by omega)]
  have isBegin : start * lba + lead * lba = first * lba := by rw [← Nat.add_mul, isFirst]
  rw [isCount, Nat.mod_eq_of_lt (show start * lba < 2 ^ 64 by omega),
    Nat.mod_eq_of_lt (show (last + 1 - start) * lba < 2 ^ 64 by omega), isEnd]
  exact ⟨isBegin, rfl, within⟩

/-- A partition is inside the device iff its entry is. -/
theorem inside_iff
    {part : MtdPartition}
    (small : master.size < 2 ^ 64)
    (isPart : master.gptAddPart call.buf call.offset = some part) :
    master.Inside call part ↔
    call.lead ≤ call.firstLba ∧ (call.lastLba + 1) * master.lbaSize ≤ master.size := by
  have order := (gptAddPart_isSome_iff.mp ⟨part, isPart⟩).2
  have positive : 0 < master.lbaSize := Nat.lt_of_lt_of_le (by decide) headers_le_lbaSize
  rw [gptAddPart] at isPart
  split at isPart
  case isTrue => cases isPart
  case isFalse =>
    dsimp only at isPart
    split at isPart
    case isTrue => cases isPart
    case isFalse =>
      cases isPart
      refine unwrapped_iff order positive small ?_
      unfold Call.lead
      split
      case isTrue => exact .inr ⟨rfl, rfl⟩
      case isFalse => exact .inl ⟨rfl, rfl⟩

/-- Partitions are reported when a call of a visit adds one. -/
theorem gptParse_ne_nil_iff
    {part : MtdPartition}
    (roomy : master.Roomy master.visits)
    (isCall : call ∈ master.calls)
    (isPart : master.gptAddPart call.buf call.offset = some part) :
    master.gptParse ≠ some [] ↔ master.reports = true := by
  have isFound : part ∈ (master.foundBefore master.visits).map Prod.snd := by
    rw [← parts_calls]
    exact List.mem_filterMap.mpr ⟨call, isCall, isPart⟩
  rw [gptParse_eq_reports, if_pos roomy]
  cases master.reports with
  | false => simp
  | true =>
    refine ⟨fun _ => rfl, fun _ empty => ?_⟩
    rw [if_pos rfl, Option.some.injEq] at empty
    rw [empty] at isFound
    cases isFound

section
variable {entries more : List (Option Call)}

/-- An entry that cannot be read ends the entries. -/
theorem leading_none : leading (none :: entries) = [] ∧ broken (none :: entries) = true := by
  simp [leading, broken, usableEntry]

/-- A usable entry, and one that is not. -/
theorem leading_some :
    leading (some call :: entries) =
      (if call.usable then call :: leading entries else [call]) ∧
    broken (some call :: entries) = (decide call.usable && broken entries) := by
  by_cases isUsable : call.usable
  · simp [leading, broken, usableEntry, isUsable]
  · simp [leading, broken, usableEntry, isUsable]

/-- Entries behind others are reached iff those are all usable. -/
theorem leading_append :
    leading (entries ++ more) =
      (if entries.all usableEntry then entries.filterMap id ++ leading more else leading entries) ∧
    broken (entries ++ more) =
      (if entries.all usableEntry then broken more else broken entries) := by
  induction entries with
  | nil => exact ⟨rfl, rfl⟩
  | cons entry entries inductionHypothesis =>
    cases entry with
    | none => simp [leading_none, usableEntry]
    | some call =>
      rw [List.cons_append, leading_some.1, leading_some.1, leading_some.2, leading_some.2,
        inductionHypothesis.1, inductionHypothesis.2]
      by_cases isUsable : call.usable
      · simp only [isUsable, if_true, List.all_cons, usableEntry, Option.any_some, decide_true,
          Bool.true_and]
        refine ⟨?_, trivial⟩
        split <;> rfl
      · simp [isUsable, usableEntry]

/-- The usable ones of the entries that are reached. -/
theorem length_parts_leading :
    ((leading entries).filterMap fun call => master.gptAddPart call.buf call.offset).length =
      (entries.takeWhile usableEntry).length := by
  induction entries with
  | nil => rfl
  | cons entry entries inductionHypothesis =>
    cases entry with
    | none => simp [leading_none, usableEntry]
    | some call =>
      rw [leading_some.1]
      by_cases isUsable : call.usable
      · obtain ⟨part, isPart⟩ := (@gptAddPart_isSome_iff master call).mpr isUsable
        simp [isUsable, usableEntry, isPart, inductionHypothesis]
      · have isNone : master.gptAddPart call.buf call.offset = none := by
          rw [← Option.not_isSome_iff_eq_none, Option.isSome_iff_exists]
          exact fun isSome => isUsable (gptAddPart_isSome_iff.mp isSome)
        simp [isUsable, usableEntry, isNone]

end

/-- Whether an entry is added, as a test. -/
theorem isSome_gptAddPart :
    (master.gptAddPart call.buf call.offset).isSome = decide call.usable := by
  rw [Bool.eq_iff_iff, Option.isSome_iff_exists, decide_eq_true_eq]
  exact gptAddPart_isSome_iff

/-- The calls for the entries of a block are those up to the first that is not usable. -/
theorem addCalls_eq
    {gpthdr : GptHeader}
    {buf : Buffer}
    {remaining j : Nat} :
    master.addCalls gpthdr buf remaining j = leading ((List.range' j remaining).map fun j =>
      some ⟨gpthdr, buf, j * gpthdr.partitionEntrySize % 2 ^ 32⟩) ∧
    (master.addParts gpthdr buf remaining j).2 = !((List.range' j remaining).map fun j =>
      some ⟨gpthdr, buf, j * gpthdr.partitionEntrySize % 2 ^ 32⟩).all usableEntry := by
  induction remaining generalizing j with
  | zero => exact ⟨rfl, rfl⟩
  | succ remaining inductionHypothesis =>
    have isSome := @isSome_gptAddPart master
      ⟨gpthdr, buf, j * gpthdr.partitionEntrySize % 2 ^ 32⟩
    rw [addCalls, addParts, List.range'_succ, List.map_cons, leading_some.1, List.all_cons,
      ← inductionHypothesis.1]
    dsimp only at isSome
    cases isPart : master.gptAddPart buf (j * gpthdr.partitionEntrySize % 2 ^ 32) with
    | none =>
      rw [isPart, Option.isSome_none, eq_comm, decide_eq_false_iff_not] at isSome
      simp only [isSome, if_false, usableEntry, Option.any_some, decide_false, Bool.false_and,
        Bool.not_false, Option.isSome_none, Bool.false_eq_true, and_self]
    | some part =>
      rw [isPart, Option.isSome_some, eq_comm, decide_eq_true_eq] at isSome
      simp only [isSome, if_true, usableEntry, Option.any_some, decide_true, Bool.true_and,
        Option.isSome_some]
      exact ⟨trivial, inductionHypothesis.2⟩

/-- If all entries can be read, none is broken. -/
theorem broken_eq_false
    {entries : List (Option Call)}
    (readable : none ∉ entries) :
    broken entries = false := by
  induction entries with
  | nil => rfl
  | cons entry entries inductionHypothesis =>
    cases entry with
    | none => exact absurd List.mem_cons_self readable
    | some call =>
      rw [leading_some.2, inductionHypothesis fun member =>
        readable (List.mem_cons_of_mem _ member), Bool.and_false]

/-- Usable entries are all reached. -/
theorem leading_eq
    {entries : List (Option Call)}
    (all : entries.all usableEntry = true) :
    leading entries = entries.filterMap id := by
  have joined := (@leading_append entries []).1
  rw [if_pos all, List.append_nil] at joined
  exact joined.trans (List.append_nil _)

/-- The calls for blocks of entries, and whether one cannot be read. -/
theorem blockCalls_eq
    {gpthdr : GptHeader}
    {partAddr remaining i : Nat} :
    master.blockCalls gpthdr partAddr remaining i =
      leading ((List.range' i remaining).flatMap (master.blockEntries gpthdr partAddr)) ∧
    (master.readBlocks gpthdr partAddr remaining i).2 =
      broken ((List.range' i remaining).flatMap (master.blockEntries gpthdr partAddr)) := by
  induction remaining generalizing i with
  | zero => exact ⟨rfl, rfl⟩
  | succ remaining inductionHypothesis =>
    rw [blockCalls, readBlocks, List.range'_succ, List.flatMap_cons, blockEntries]
    cases master.mtdRead ((partAddr + i * master.lbaSize % 2 ^ 32) % 2 ^ 64) with
    | none =>
      have some : 0 < master.lbaSize / entrySize :=
        Nat.div_pos (Nat.le_trans (by decide) headers_le_lbaSize) (by decide)
      obtain ⟨count, isCount⟩ := Nat.exists_eq_add_one.mpr some
      rw [isCount, List.range_succ_eq_map]
      exact ⟨leading_none.1.symm, leading_none.2.symm⟩
    | some buf =>
      have block := @addCalls_eq master gpthdr buf (master.lbaSize / entrySize) 0
      rw [← List.range_eq_range'] at block
      simp only [Option.map_some]
      rw [leading_append.1, leading_append.2, block.2, ← inductionHypothesis.1,
        ← inductionHypothesis.2]
      cases isFull : ((List.range (master.lbaSize / entrySize)).map fun j =>
          some (⟨gpthdr, buf, j * gpthdr.partitionEntrySize % 2 ^ 32⟩ : Call)).all usableEntry with
      | false =>
        refine ⟨?_, ?_⟩
        · simp [block.1]
        · simp only [Bool.not_false, if_true, Bool.false_eq_true, if_false]
          exact (broken_eq_false (by simp)).symm
      | true =>
        refine ⟨?_, ?_⟩
        · simp only [Bool.not_true, Bool.false_eq_true, if_false, if_true]
          rw [block.1, leading_eq isFull]
        · simp

/-- The entries of a copy, and whether one cannot be read, are those on the flash. -/
theorem entriesOf_eq
    {copy : Nat}
    {buf : Buffer}
    (isBlock : master.headerBlock copy = some buf) :
    master.entryCalls (master.headerBefore (copy + 1)) buf (master.copyOffset copy) =
      leading (master.flashEntries copy) ∧
    (master.entriesOf copy).2 = broken (master.flashEntries copy) ∧
    (master.entriesOf copy).1.length =
      ((master.flashEntries copy).takeWhile usableEntry).length := by
  rw [← @length_parts_leading master, entryCalls, entriesOf, flashEntries, isBlock]
  dsimp only
  rw [gptReadEntries, List.range_eq_range', ← blockCalls_eq.1, ← blockCalls_eq.2, parts_blockCalls]
  exact ⟨rfl, rfl, rfl⟩

/-- An entered copy has a header block. -/
theorem exists_headerBlock
    {copy : Nat}
    (isEntered : master.entered copy = true) :
    ∃ buf, master.headerBlock copy = some buf := by
  rw [entered, Bool.and_eq_true] at isEntered
  exact Option.isSome_iff_exists.mp isEntered.2

/-- Searches with tests that agree find the same. -/
theorem find?_eq_of_forall
    {p q : Nat → Bool}
    {list : List Nat}
    (same : ∀ x ∈ list, p x = q x) :
    list.find? p = list.find? q := by
  induction list with
  | nil => rfl
  | cons x list inductionHypothesis =>
    rw [List.find?_cons, List.find?_cons, same x List.mem_cons_self,
      inductionHypothesis fun y member => same y (List.mem_cons_of_mem _ member)]

/-- A sum over the elements that pass a test. -/
theorem sum_filter
    {p : Nat → Bool}
    {size : Nat → Nat}
    {list : List Nat} :
    ((list.filter p).map size).sum = (list.map fun x => if p x then size x else 0).sum := by
  induction list with
  | nil => rfl
  | cons x list inductionHypothesis =>
    rw [List.filter_cons]
    split
    case isTrue passes => simp [passes, inductionHypothesis]
    case isFalse fails => simp [fails, inductionHypothesis]

/-- No more copies are visited than there are. -/
theorem visits_le : master.visits ≤ maxBootCopies := by
  rw [visits]
  cases isLast : master.lastVisited with
  | none => exact Nat.le_refl _
  | some last =>
    rw [lastVisited, List.find?_range_eq_some] at isLast
    exact List.mem_range.mp isLast.2.1

/-- Only the last visited copy can end the search. -/
theorem ends_of_lt_visits
    {copy : Nat}
    (earlier : copy + 1 < master.visits) :
    master.ends copy = false := by
  have inTable := @visits_le master
  rw [visits] at earlier inTable
  cases isLast : master.lastVisited with
  | none =>
    rw [isLast] at earlier
    rw [lastVisited, List.find?_eq_none] at isLast
    exact Bool.eq_false_iff.mpr (isLast copy (List.mem_range.mpr (Nat.lt_of_succ_lt earlier)))
  | some last =>
    rw [isLast] at earlier
    rw [lastVisited, List.find?_range_eq_some] at isLast
    simpa using isLast.2.2 copy (Nat.lt_of_succ_lt_succ earlier)

section
variable (allocated : master.kcallocParts master.arrayLength = true)
include allocated

/-- The array is that of the first entered copy. -/
theorem partsBefore_eq
    {copies : Nat}
    (inTable : copies ≤ maxBootCopies) :
    master.partsBefore copies =
      if (List.range copies).any master.entered then some master.arrayLength else none := by
  induction copies with
  | zero => rfl
  | succ copy inductionHypothesis =>
    rw [partsBefore, inductionHypothesis (Nat.le_of_succ_le inTable), List.range_succ,
      List.any_append]
    cases isEntered : master.entered copy with
    | false => simp [isEntered]
    | true =>
      cases before : (List.range copy).any master.entered with
      | true => simp
      | false =>
        have isFirst : (List.range maxBootCopies).find? master.entered = some copy := by
          rw [List.find?_range_eq_some]
          refine ⟨isEntered, List.mem_range.mpr inTable, fun other earlier => ?_⟩
          rw [List.any_eq_false] at before
          simpa using before other (List.mem_range.mpr earlier)
        have isLength : master.arrayLength =
            (master.headerBefore (copy + 1)).maxPartitionCount := by
          rw [arrayLength, isFirst]
        rw [← isLength, allocated]
        simp [isEntered]

/-- All entered copies are read. -/
theorem readsEntries_eq
    {copy : Nat}
    (inTable : copy < maxBootCopies) :
    master.readsEntries copy = master.entered copy ∧ master.refused copy = false := by
  rw [readsEntries, refused, partsBefore_eq allocated inTable, List.range_succ, List.any_append]
  cases isEntered : master.entered copy with
  | false => simp
  | true => simp [isEntered]

/-- The search ends with the first copy whose entries can be read. -/
theorem lastVisited_eq : master.lastVisited = master.firstWhole := by
  refine find?_eq_of_forall fun copy member => ?_
  obtain ⟨isRead, notRefused⟩ := readsEntries_eq allocated (List.mem_range.mp member)
  rw [ends, isRead, notRefused, Bool.false_or]
  cases isEntered : master.entered copy with
  | false => rfl
  | true =>
    obtain ⟨buf, isBlock⟩ := exists_headerBlock isEntered
    rw [(entriesOf_eq isBlock).2.1]

/-- The copies that are read are the entered ones of the visited. -/
theorem readCopies_eq : master.readCopies = (List.range master.visits).filter master.entered := by
  rw [readCopies, if_pos allocated, visits, lastVisited_eq allocated]

/-- The calls are those of the entries of the copies that are read. -/
theorem mem_calls_iff :
    call ∈ master.calls ↔
    ∃ copy ∈ master.readCopies, call ∈ leading (master.flashEntries copy) := by
  rw [calls, List.mem_flatMap, readCopies_eq allocated]
  refine exists_congr fun copy => ?_
  rw [List.mem_filter, and_assoc]
  refine and_congr_right fun member => ?_
  have inTable := Nat.lt_of_lt_of_le (List.mem_range.mp member) visits_le
  obtain ⟨isRead, -⟩ := readsEntries_eq allocated inTable
  rw [copyCalls, isRead]
  cases isEntered : master.entered copy with
  | false => cases master.headerBlock copy <;> simp
  | true =>
    obtain ⟨buf, isBlock⟩ := exists_headerBlock isEntered
    rw [isBlock, ← (entriesOf_eq isBlock).1]
    simp

/-- There is room iff the usable entries are no more than the first header says. -/
theorem roomy_iff_sum :
    master.Roomy master.visits ↔ (master.readCopies.map fun copy =>
    ((master.flashEntries copy).takeWhile usableEntry).length).sum ≤ master.arrayLength := by
  have isSum : (master.foundBefore master.visits).length = (master.readCopies.map fun copy =>
      ((master.flashEntries copy).takeWhile usableEntry).length).sum := by
    rw [readCopies_eq allocated, sum_filter, foundBefore, List.length_flatMap]
    refine congrArg List.sum (List.map_congr_left fun copy member => ?_)
    have inTable := Nat.lt_of_lt_of_le (List.mem_range.mp member) visits_le
    rw [added, (readsEntries_eq allocated inTable).1]
    cases isEntered : master.entered copy with
    | false => rfl
    | true =>
      obtain ⟨buf, isBlock⟩ := exists_headerBlock isEntered
      rw [if_pos rfl, if_pos rfl, fromCopy, List.length_map, (entriesOf_eq isBlock).2.2]
  rw [Roomy, isSum, partsBefore_eq allocated visits_le]
  cases isAny : (List.range master.visits).any master.entered with
  | true => rfl
  | false =>
    have nothing : master.readCopies = [] := by
      rw [readCopies_eq allocated, List.filter_eq_nil_iff]
      rwa [List.any_eq_false] at isAny
    rw [nothing]
    exact iff_of_true (Nat.zero_le _) (Nat.zero_le _)

/-- Partitions are reported iff a copy has no error or the last one does not fail. -/
theorem reports_iff :
    master.reports = true ↔ master.firstWhole.isSome = true ∨ ¬ master.LastFails := by
  have isFailed : master.failedBefore maxBootCopies = true ↔ master.LastFails := by
    change master.failed 3 = true ↔ _
    rw [failed, LastFails]
    cases isMbr : master.mbr 3 with
    | none => simp
    | some buf =>
      rw [tagged_eq isMbr]
      cases isBlock : master.headerBlock 3 with
      | none => simp [entriesOf, isBlock, maxBootCopies]
      | some block => simp [(entriesOf_eq isBlock).2.1, maxBootCopies, and_assoc]
  rw [reports, lastVisited_eq allocated, Bool.or_eq_true, Bool.not_eq_true', ← isFailed,
    Bool.not_eq_true]

end

/-- If the array is refused, there is none for any visited copy. -/
theorem partsBefore_eq_none
    (refuses : master.kcallocParts master.arrayLength = false)
    {copies : Nat}
    (visited : copies ≤ master.visits) :
    master.partsBefore copies = none := by
  induction copies using Nat.strongRecOn with
  | ind copies inductionHypothesis =>
    cases copies with
    | zero => rfl
    | succ copy =>
      have before := inductionHypothesis copy (Nat.lt_succ_self _) (Nat.le_of_succ_le visited)
      rw [partsBefore, before, Option.none_or]
      split
      case isFalse => rfl
      case isTrue isEntered =>
        have isFirst : (List.range maxBootCopies).find? master.entered = some copy := by
          rw [List.find?_range_eq_some]
          refine ⟨isEntered, List.mem_range.mpr (Nat.le_trans visited visits_le),
            fun other earlier => ?_⟩
          -- an entered copy before would have ended the search
          have noArray := inductionHypothesis (other + 1) (Nat.succ_lt_succ earlier)
            (Nat.le_trans earlier (Nat.le_of_succ_le visited))
          have goesOn := @ends_of_lt_visits master other (Nat.lt_of_lt_of_le
            (Nat.succ_lt_succ earlier) visited)
          rw [ends, refused, noArray, Bool.or_eq_false_iff, Option.isNone_none,
            Bool.and_true] at goesOn
          rw [goesOn.1]
          rfl
        have isLength : master.arrayLength =
            (master.headerBefore (copy + 1)).maxPartitionCount := by
          rw [arrayLength, isFirst]
        rw [← isLength, refuses]
        rfl

/-- If the array is refused, nothing is read. -/
theorem calls_eq_nil
    (refuses : master.kcallocParts master.arrayLength = false) :
    master.calls = [] ∧ master.gptParse = some [] := by
  constructor
  · rw [calls, List.flatMap_eq_nil_iff]
    intro copy member
    have noArray := partsBefore_eq_none refuses (List.mem_range.mp member)
    rw [copyCalls, readsEntries, noArray, Option.isSome_none, Bool.and_false]
    cases master.headerBlock copy <;> rfl
  · have nothing := foundBefore_eq_nil (partsBefore_eq_none refuses (Nat.le_refl _))
    rw [gptParse_eq_reports, if_pos (roomy_of_nil nothing), nothing, ite_self]

/--
The parser stays inside the array, the buffer and the device iff the copies it
reads are sane.
-/
theorem gptParse_contained_iff
    (master : Master)
    (small : master.size < 2 ^ 64) :
    master.Contained ↔ master.Sane := by
  cases allocated : master.kcallocParts master.arrayLength with
  | false =>
    obtain ⟨noCalls, isEmpty⟩ := calls_eq_nil allocated
    have noCopies : master.readCopies = [] := by
      rw [readCopies, allocated]
      rfl
    refine iff_of_true ⟨?_, headers_le_lbaSize, ?_, fun notEmpty => absurd isEmpty notEmpty⟩
      ⟨?_, ?_, ?_⟩
    · rw [isEmpty]
      exact Option.some_ne_none _
    · rw [noCalls]
      exact fun call member => nomatch member
    · rw [noCopies]
      exact Nat.zero_le _
    · rw [noCopies]
      exact fun copy member => nomatch member
    · rw [noCopies]
      exact fun _ copy member => nomatch member
  | true =>
  constructor
  · rintro ⟨written, _, entries, inside⟩
    have roomy : master.Roomy master.visits := by
      by_contra notRoomy
      rw [gptParse_eq_reports, if_neg notRoomy] at written
      exact written rfl
    refine ⟨(roomy_iff_sum allocated).mp roomy, fun copy isCopy call isEntry => ?_, ?_⟩
    · have isCall := (mem_calls_iff allocated).mpr ⟨copy, isCopy, isEntry⟩
      exact reads_le_iff.mp (entries call isCall)
    intro isReported copy isCopy call isEntry isUsable
    have isCall := (mem_calls_iff allocated).mpr ⟨copy, isCopy, isEntry⟩
    obtain ⟨part, isPart⟩ := gptAddPart_isSome_iff.mpr isUsable
    have notEmpty := (gptParse_ne_nil_iff roomy isCall isPart).mpr
      ((reports_iff allocated).mpr isReported)
    exact (inside_iff small isPart).mp (inside notEmpty call isCall part isPart)
  · rintro ⟨room, inBlock, fits⟩
    have roomy := (roomy_iff_sum allocated).mpr room
    refine ⟨?_, headers_le_lbaSize, fun call isCall => ?_, ?_⟩
    · rw [gptParse_eq_reports, if_pos roomy]
      exact Option.some_ne_none _
    · obtain ⟨copy, isCopy, isEntry⟩ := (mem_calls_iff allocated).mp isCall
      exact reads_le_iff.mpr (inBlock copy isCopy call isEntry)
    intro notEmpty call isCall part isPart
    have isReported := (gptParse_ne_nil_iff roomy isCall isPart).mp notEmpty
    obtain ⟨copy, isCopy, isEntry⟩ := (mem_calls_iff allocated).mp isCall
    exact (inside_iff small isPart).mpr (fits ((reports_iff allocated).mp isReported) copy isCopy
      call isEntry (gptAddPart_isSome_iff.mp ⟨part, isPart⟩))

/-- Pages of 512 bytes. -/
theorem pageSize_512 (_ : true = true) : ∃ shift, 9 ≤ shift ∧ 512 = 2 ^ shift :=
  ⟨9, by decide, by decide⟩

/-- A device of 4096 blocks with one copy of a given header and entries. -/
def tableMaster (header entries : Buffer) : Master where
  size := 4096 * 512
  writesize := 512
  isNand := true
  pageSize := pageSize_512
  kmalloc := fun _ => true
  mtdRead := fun address =>
    if address = 0 then some announcement
    else if address = 512 then some header
    else if address = 1024 then some entries
    else none

/-- A table with one entry is sane. -/
theorem gptParse_contained_iff_oneEntry : (tableMaster goodHeader oneEntry).Contained := by
  refine (gptParse_contained_iff _ (by decide)).mpr ⟨by decide +kernel, ?_, fun _ => ?_⟩
  · unfold InBlock
    decide +kernel
  · decide +kernel

/-- Four entries with partitions up to the block 8192. -/
def fullEntries : Buffer :=
  bytesAt [(0, 1), (32, 34), (41, 0x20), (128, 1), (160, 34), (169, 0x20),
      (256, 1), (288, 34), (297, 0x20), (384, 1), (416, 34), (425, 0x20)]

/--
Four entries overrun an array of one element. With room, the type behind the
last entry is read behind the buffer, and a partition beyond the device is
reported.
-/
theorem not_contained_fullEntries :
    (tableMaster (fun address => if address = 80 then 1 else goodHeader address)
        fullEntries).gptParse = none ∧
      (∃ call ∈ (tableMaster goodHeader fullEntries).calls, (512, 16) ∈ call.reads) ∧
      ((tableMaster goodHeader fullEntries).gptParse.map fun found =>
        found.map fun part => (part.2.offset, part.2.size)) =
          some (List.replicate 4 (34 * 512, 8159 * 512)) ∧
      ¬ (tableMaster goodHeader fullEntries).Contained := by
  have behind : ∃ call ∈ (tableMaster goodHeader fullEntries).calls, (512, 16) ∈ call.reads := by
    decide +kernel
  refine ⟨by decide +kernel, behind, by decide +kernel, fun contained => ?_⟩
  obtain ⟨call, isCall, isRead⟩ := behind
  exact absurd (contained.entries call isCall _ isRead) (by decide)

end Master

end EchoKernel.Gpt
