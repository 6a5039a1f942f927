import EchoKernel.GptPart
import Mathlib.Data.List.Basic

namespace EchoKernel.Gpt

open List Option

/-!
# The copies of a partition table

A copy is good when its first block announces the table, its header has the
signature and its entries can be read. The parser is right when the copies
before the first good one neither add a partition nor end the search, and the
array can be allocated. A bad copy may do both, as an earlier announcement and
header are kept.
-/

namespace Master

variable (master : Master)

/-- The offset before a copy is visited. -/
def offsetBefore : Nat → Nat
  | 0 => 0
  | copy + 1 => (offsetBefore copy + copy * 256 * master.writesize % 2 ^ 32) % 2 ^ 64

section
variable (copy : Nat)

/-- The offset at which a copy begins. -/
def copyOffset : Nat := master.offsetBefore (copy + 1)

/-- The first block of a copy. -/
def mbr : Option Buffer := master.mtdRead (master.copyOffset copy)

/-- The block of the header of a copy. -/
def headerBlock : Option Buffer :=
  master.mtdRead ((master.lbaSize + master.copyOffset copy) % 2 ^ 64)

/-- A block ends with the tag. -/
def hasTag (buf : Buffer) : Bool := buf 510 == 0x55 && buf 511 == 0xaa

/-- A copy's first block can be read and has the tag. -/
def tagged : Bool := (master.mbr copy).any hasTag

/-- The first block of a copy announces a table. -/
def announces : Bool := (master.mbr copy).any fun buf => hasTag buf && master.gptPartitionsExist buf

/-- The partitions of a copy that is good. -/
def copyParts : Option (List MtdPartition) :=
  if master.announces copy then
    (master.headerBlock copy).bind fun buf =>
      (partitionParseGptHeader buf).bind fun gpthdr =>
        let entries := master.gptReadEntries gpthdr buf (master.copyOffset copy)
        if entries.2 then none else some entries.1
  else none

/-- Partitions with the copy from which they are. -/
def fromCopy (parts : List MtdPartition) : List (Nat × MtdPartition) :=
  parts.map fun part => (copy, part)

/-- The first copy that is good. -/
def firstGood : Option Nat :=
  (List.range maxBootCopies).find? fun copy => (master.copyParts copy).isSome

/-- The partitions of the first good copy, if there is one. -/
def wanted : List (Nat × MtdPartition) :=
  match master.firstGood with
  | none => []
  | some copy => fromCopy copy ((master.copyParts copy).getD [])

/-- The partitions of the first good copy are returned, and no other copy contributes any. -/
def Exact : Prop := master.gptParse = some master.wanted

/-- A table was announced before a copy. -/
def announcedBefore : Bool := (List.range copy).any master.announces

/-- The parser gets to the entries of a copy. -/
def entered : Bool :=
  master.tagged copy && master.announcedBefore (copy + 1) && (master.headerBlock copy).isSome

/-- The last header with the signature before a copy. -/
def headerBefore : Nat → GptHeader
  | 0 => zeroHeader
  | copy + 1 =>
    if master.entered copy then
      ((master.headerBlock copy).bind partitionParseGptHeader).getD (headerBefore copy)
    else headerBefore copy

/-- The entries read for a copy, and whether there was an error. -/
def entriesOf : List MtdPartition × Bool :=
  match master.headerBlock copy with
  | none => ([], true)
  | some buf => master.gptReadEntries (master.headerBefore (copy + 1)) buf (master.copyOffset copy)

/-- The array, allocated for the first copy with entries. -/
def partsBefore : Nat → Option Nat
  | 0 => none
  | copy + 1 =>
    if master.entered copy then
      (partsBefore copy).or
        (if master.kcallocParts (master.headerBefore (copy + 1)).maxPartitionCount then
          some (master.headerBefore (copy + 1)).maxPartitionCount
        else none)
    else partsBefore copy

/-- The array is not allocated for a copy. -/
def refused : Bool := master.entered copy && (master.partsBefore (copy + 1)).isNone

/-- The parser reads the entries of a copy. -/
def readsEntries : Bool := master.entered copy && (master.partsBefore (copy + 1)).isSome

/-- The partitions that a copy adds. -/
def added : List (Nat × MtdPartition) :=
  if master.readsEntries copy then fromCopy copy (master.entriesOf copy).1 else []

/-- The search ends with a copy. -/
def ends : Bool := master.refused copy || master.readsEntries copy && !(master.entriesOf copy).2

/-- The partitions that are added before a copy. -/
def foundBefore : List (Nat × MtdPartition) := (List.range copy).flatMap master.added

/-- There is room for the partitions before a copy. -/
def Roomy : Prop := (master.foundBefore copy).length ≤ (master.partsBefore copy).getD 0

instance (copy : Nat) : Decidable (master.Roomy copy) := inferInstanceAs (Decidable (_ ≤ _))

/-- A block of a copy cannot be read. -/
def failed : Bool :=
  match master.mbr copy with
  | none => true
  | some buf => hasTag buf && master.announcedBefore (copy + 1) && (master.entriesOf copy).2

/-- The last error before a copy is visited. -/
def failedBefore : Nat → Bool
  | 0 => false
  | copy + 1 => master.failed copy

/-- The loop's variables before a copy is visited. -/
def scanBefore : Scan where
  offset := master.offsetBefore copy
  exist := master.announcedBefore copy
  gpthdr := master.headerBefore copy
  parts := master.partsBefore copy
  found := master.foundBefore copy
  err := master.failedBefore copy

end

variable {master} {copy : Nat}

section
variable {buf : Buffer}

theorem announcedBefore_succ :
    master.announcedBefore (copy + 1) = (master.announcedBefore copy || master.announces copy) := by
  rw [announcedBefore, range_succ, announcedBefore]
  simp

theorem foundBefore_succ :
    master.foundBefore (copy + 1) = master.foundBefore copy ++ master.added copy := by
  rw [foundBefore, range_succ, foundBefore]
  simp

/-- A copy that is not entered changes little. -/
theorem of_not_entered
    (notEntered : master.entered copy = false) :
    master.headerBefore (copy + 1) =
    master.headerBefore copy ∧ master.partsBefore (copy + 1) = master.partsBefore copy ∧
    master.foundBefore (copy + 1) = master.foundBefore copy ∧ master.ends copy = false := by
  refine ⟨?_, ?_, ?_, ?_⟩
  · rw [headerBefore, notEntered]
    rfl
  · rw [partsBefore, notEntered]
    rfl
  · rw [foundBefore_succ, added, readsEntries, notEntered]
    exact append_nil _
  · rw [ends, refused, readsEntries, notEntered]
    rfl

theorem scanBefore_of_not_entered
    (notEntered : master.entered copy = false) :
    master.scanBefore (copy + 1) = ⟨master.copyOffset copy, master.announcedBefore (copy + 1),
    master.headerBefore copy, master.partsBefore copy,
    master.foundBefore copy, master.failed copy⟩ := by
  obtain ⟨sameHeader, sameParts, sameFound, _⟩ := of_not_entered notEntered
  rw [scanBefore, sameHeader, sameParts, sameFound]
  rfl

theorem hasTag_eq_false_iff : hasTag buf = false ↔ buf 510 ≠ 0x55 ∨ buf 511 ≠ 0xaa := by
  rw [hasTag, Bool.and_eq_false_iff, beq_eq_false_iff_ne, beq_eq_false_iff_ne]

theorem announces_eq
    (isMbr : master.mbr copy = some buf) :
    master.announces copy = (hasTag buf && master.gptPartitionsExist buf) := by
  rw [announces, isMbr]
  rfl

theorem tagged_eq (isMbr : master.mbr copy = some buf) : master.tagged copy = hasTag buf := by
  rw [tagged, isMbr]
  rfl

theorem visit_of_not_entered
    (notEntered : master.entered copy = false) :
    master.visit copy (master.scanBefore copy) = .next (master.scanBefore (copy + 1)) := by
  rw [scanBefore_of_not_entered notEntered, visit]
  have isOffset : ((master.scanBefore copy).offset +
    copy * 256 * master.writesize % 2 ^ 32) % 2 ^ 64 = master.copyOffset copy := rfl
  rw [isOffset]
  cases isMbr : master.mbr copy with
  | none =>
    have notAnnounced : master.announces copy = false := by
      rw [announces, isMbr]
      rfl
    rw [announcedBefore_succ, notAnnounced, Bool.or_false, failed, isMbr]
    rw [mbr] at isMbr
    rw [isMbr]
    rfl
  | some buf =>
    have isAnnounced := announces_eq isMbr
    have isTagged := tagged_eq isMbr
    rw [failed, isMbr, announcedBefore_succ, isAnnounced]
    rw [mbr] at isMbr
    rw [isMbr]
    dsimp only
    cases isTag : hasTag buf with
    | false =>
      rw [if_pos (hasTag_eq_false_iff.mp isTag), Bool.false_and, Bool.or_false, Bool.false_and]
      rfl
    | true =>
      rw [if_neg (by rw [← hasTag_eq_false_iff, isTag]; simp), Bool.true_and]
      rw [entered, isTagged, announcedBefore_succ, isAnnounced, isTag,
        Bool.true_and, Bool.true_and] at notEntered
      have isExist : (master.scanBefore copy).exist = master.announcedBefore copy := rfl
      rw [isExist]
      cases isKnown : master.announcedBefore copy || master.gptPartitionsExist buf with
      | false => rfl
      | true =>
        rw [isKnown, Bool.true_and, isSome_eq_false_iff, isNone_iff_eq_none] at notEntered
        rw [entriesOf, notEntered]
        rw [headerBlock] at notEntered
        rw [notEntered]
        rfl

/-- Nothing is added before there is an array. -/
theorem foundBefore_eq_nil
    (noArray : master.partsBefore copy = none) :
    master.foundBefore copy = [] := by
  induction copy with
  | zero => rfl
  | succ copy inductionHypothesis =>
    have notRead : master.readsEntries copy = false := by
      rw [readsEntries, noArray]
      exact Bool.and_false _
    rw [foundBefore_succ, added, notRead, if_neg Bool.false_ne_true, append_nil]
    refine inductionHypothesis ?_
    rw [partsBefore] at noArray
    split at noArray
    case isTrue => exact (or_eq_none_iff.mp noArray).1
    case isFalse => exact noArray

/-- There is room where nothing is found. -/
theorem roomy_of_nil (nothing : master.foundBefore copy = []) : master.Roomy copy := by
  rw [Roomy, nothing]
  exact Nat.zero_le _

section
variable (isEntered : master.entered copy = true)
include isEntered

/-- The array behind a copy that is entered. -/
theorem partsBefore_of_entered :
    master.partsBefore (copy + 1) = (master.scanBefore copy).parts.or
      (if master.kcallocParts (master.headerBefore (copy + 1)).maxPartitionCount then
        some (master.headerBefore (copy + 1)).maxPartitionCount else none) := by
  rw [partsBefore, if_pos isEntered, scanBefore]

/-- There is no array iff there was none and none is allocated. -/
theorem partsBefore_eq_none_iff :
    master.partsBefore (copy + 1) = none ↔ (master.scanBefore copy).parts = none ∧
      master.kcallocParts (master.headerBefore (copy + 1)).maxPartitionCount = false := by
  rw [partsBefore_of_entered isEntered, or_eq_none_iff]
  cases master.kcallocParts (master.headerBefore (copy + 1)).maxPartitionCount <;> simp

/-- The array has the old length, or that of the header. -/
theorem partsBefore_eq_getD
    {parts : Nat}
    (isArray : master.partsBefore (copy + 1) = some parts) :
    parts = (master.scanBefore copy).parts.getD
      (master.headerBefore (copy + 1)).maxPartitionCount := by
  rw [partsBefore_of_entered isEntered] at isArray
  cases isOld : (master.scanBefore copy).parts with
  | some old =>
    rw [isOld] at isArray
    exact (some.inj isArray).symm
  | none =>
    rw [isOld, none_or] at isArray
    split at isArray
    case isTrue => exact (some.inj isArray).symm
    case isFalse => cases isArray

/-- What visiting a copy that is entered leaves. -/
theorem visit_of_entered :
    master.visit copy (master.scanBefore copy) = if master.Roomy (copy + 1) then
    if master.ends copy then .done (master.foundBefore (copy + 1))
    else .next (master.scanBefore (copy + 1)) else .overrun := by
  have isFlags := isEntered
  rw [entered, Bool.and_eq_true, Bool.and_eq_true] at isFlags
  obtain ⟨⟨isTagged, isAnnounced⟩, hasHeader⟩ := isFlags
  obtain ⟨block, isBlock⟩ := isSome_iff_exists.mp hasHeader
  cases isMbr : master.mbr copy with
  | none =>
    rw [tagged, isMbr] at isTagged
    cases isTagged
  | some buf =>
    rw [tagged_eq isMbr] at isTagged
    have isExist : ((master.scanBefore copy).exist || master.gptPartitionsExist buf) = true := by
      rw [announcedBefore_succ, announces_eq isMbr, isTagged] at isAnnounced
      exact isAnnounced
    have isHeader : (partitionParseGptHeader block).getD (master.scanBefore copy).gpthdr =
        master.headerBefore (copy + 1) := by
      rw [headerBefore, if_pos isEntered, isBlock, bind_some, scanBefore]
    have isEntries : master.gptReadEntries (master.headerBefore (copy + 1)) block
        (master.copyOffset copy) = master.entriesOf copy := by
      rw [entriesOf, isBlock]
    have isOffset : ((master.scanBefore copy).offset +
      copy * 256 * master.writesize % 2 ^ 32) % 2 ^ 64 = master.copyOffset copy := rfl
    have isFailed : master.failed copy = (master.entriesOf copy).2 := by
      rw [failed, isMbr]
      dsimp only
      rw [isTagged, isAnnounced, Bool.true_and, Bool.true_and]
    rw [mbr] at isMbr
    rw [headerBlock] at isBlock
    rw [visit, isOffset]
    rw [isMbr]
    dsimp only
    rw [if_neg (by rw [← hasTag_eq_false_iff, isTagged]; simp), isExist, if_neg (by simp), isBlock]
    dsimp only
    rw [isHeader, isEntries]
    have none_iff := partsBefore_eq_none_iff isEntered
    cases isArray : master.partsBefore (copy + 1) with
    | none =>
      -- the array is refused, and nothing was found before
      have nothing := foundBefore_eq_nil isArray
      have isRefused : master.refused copy = true := by
        rw [refused, isEntered, isArray]
        rfl
      rw [if_pos (none_iff.mp isArray), if_pos (roomy_of_nil nothing), ends, isRefused, nothing]
      rfl
    | some parts =>
    have isRead : master.readsEntries copy = true := by
      rw [readsEntries, isEntered, isArray]
      rfl
    have notRefused : master.refused copy = false := by
      rw [refused, isEntered, isArray]
      rfl
    have isFound : (master.scanBefore copy).found ++
        (master.entriesOf copy).1.map (fun part => (copy, part)) =
        master.foundBefore (copy + 1) := by
      rw [foundBefore_succ, added, if_pos isRead, scanBefore, fromCopy]
    have isParts := isArray.trans (congrArg some (partsBefore_eq_getD isEntered isArray))
    rw [isFound, if_neg fun noArray => nomatch isArray.symm.trans (none_iff.mpr noArray)]
    have roomy_iff : master.Roomy (copy + 1) ↔ (master.foundBefore (copy + 1)).length ≤
        (master.scanBefore copy).parts.getD (master.headerBefore (copy + 1)).maxPartitionCount := by
      rw [Roomy, isParts, getD_some]
    by_cases roomy : master.Roomy (copy + 1)
    · rw [if_pos roomy, if_neg (Nat.not_lt.mpr (roomy_iff.mp roomy)), ends, notRefused, isRead]
      have isNext : master.scanBefore (copy + 1) =
        ⟨master.copyOffset copy, master.announcedBefore (copy + 1),
        master.headerBefore (copy + 1), master.partsBefore (copy + 1),
        master.foundBefore (copy + 1), master.failed copy⟩ := rfl
      rw [isNext, isAnnounced, isParts, isFailed]
      cases (master.entriesOf copy).2 with
      | false | true => rfl
    · rw [if_neg roomy, if_pos (by rw [roomy_iff] at roomy; omega)]

end

end

/-- There is room before a copy if there is behind it. -/
theorem Roomy.of_succ (roomy : master.Roomy (copy + 1)) : master.Roomy copy := by
  unfold Roomy
  cases isParts : master.partsBefore copy with
  | none =>
    rw [foundBefore_eq_nil isParts]
    exact Nat.le_refl 0
  | some parts =>
    have same : master.partsBefore (copy + 1) = some parts := by
      rw [partsBefore, isParts, some_or, ite_self]
    rw [Roomy, same, foundBefore_succ, length_append] at roomy
    exact Nat.le_trans (Nat.le_add_right _ _) roomy

theorem Roomy.of_le
    {later : Nat}
    (roomy : master.Roomy later)
    (before : copy ≤ later) :
    master.Roomy copy := by
  induction before with
  | refl => exact roomy
  | step _ inductionHypothesis => exact inductionHypothesis roomy.of_succ

theorem visit_eq
    (roomy : master.Roomy copy) :
    master.visit copy (master.scanBefore copy) = if master.Roomy (copy + 1) then
    if master.ends copy then .done (master.foundBefore (copy + 1))
    else .next (master.scanBefore (copy + 1)) else .overrun := by
  cases isEntered : master.entered copy with
  | true => exact visit_of_entered isEntered
  | false =>
    obtain ⟨_, sameParts, sameFound, notEnds⟩ := of_not_entered isEntered
    have still : master.Roomy (copy + 1) := by
      rw [Roomy, sameParts, sameFound]
      exact roomy
    rw [visit_of_not_entered isEntered, if_pos still, notEnds]
    rfl

/-- What is returned after the last copy. -/
def returned (master : Master) (copies : Nat) : List (Nat × MtdPartition) :=
  if master.failedBefore copies then [] else master.foundBefore copies

theorem parseCopies_eq
    {count : Nat}
    (roomy : master.Roomy copy) :
    master.parseCopies (List.range' copy count) (master.scanBefore copy) =
      match (List.range' copy count).find? master.ends with
      | some last =>
        if master.Roomy (last + 1) then some (master.foundBefore (last + 1))
        else none
      | none =>
        if master.Roomy (copy + count) then
          some (master.returned (copy + count))
        else
          none := by
  induction count generalizing copy with
  | zero =>
    rw [Nat.add_zero, if_pos roomy]
    rfl
  | succ count inductionHypothesis =>
    rw [List.range'_succ, parseCopies, visit_eq roomy, List.find?_cons]
    by_cases still : master.Roomy (copy + 1)
    · rw [if_pos still]
      cases isEnd : master.ends copy with
      | true =>
        dsimp only
        rw [if_pos still]
        rfl
      | false =>
        have rest := inductionHypothesis still
        rw [Nat.add_assoc, Nat.add_comm 1] at rest
        exact rest
    rw [if_neg still]
    cases isEnd : master.ends copy with
    | true =>
      dsimp only
      rw [if_neg still]
    | false =>
      cases isLast : (List.range' (copy + 1) count).find? master.ends with
      | some last =>
        have member := mem_of_find?_eq_some isLast
        rw [mem_range'_1] at member
        dsimp only
        rw [if_neg fun roomy => still (roomy.of_le (by omega))]
      | none =>
        rw [if_neg fun roomy => still (roomy.of_le (by omega))]

/-- The copy with which the search ends. -/
def lastVisited (master : Master) : Option Nat := (List.range maxBootCopies).find? master.ends

theorem gptParse_eq :
    master.gptParse = match master.lastVisited with
      | some last =>
        if master.Roomy (last + 1) then some (master.foundBefore (last + 1))
        else none
      | none =>
        if master.Roomy maxBootCopies then
          some (master.returned maxBootCopies)
        else
          none := by
  have roomy : master.Roomy 0 := Nat.le_refl 0
  have isParsed := @parseCopies_eq master 0 maxBootCopies roomy
  exact isParsed

/-- A good copy is entered with its header, and ends the search. -/
theorem of_copyParts
    {parts : List MtdPartition}
    (isGood : master.copyParts copy = some parts) :
    master.ends copy = true ∧
    (master.refused copy = false → master.added copy = fromCopy copy parts) := by
  rw [copyParts] at isGood
  split at isGood
  case isFalse => cases isGood
  case isTrue isAnnounced =>
    obtain ⟨block, isBlock, isGood⟩ := bind_eq_some_iff.mp isGood
    obtain ⟨gpthdr, isHeader, isGood⟩ := bind_eq_some_iff.mp isGood
    have isTagged : master.tagged copy = true := by
      rw [announces] at isAnnounced
      rw [tagged]
      cases isMbr : master.mbr copy with
      | none =>
        rw [isMbr] at isAnnounced
        cases isAnnounced
      | some buf =>
        rw [isMbr, any_some, Bool.and_eq_true] at isAnnounced
        exact isAnnounced.1
    have isEntered : master.entered copy = true := by
      rw [entered, isTagged, announcedBefore_succ, isAnnounced, isBlock, Bool.or_true]
      rfl
    have inForce : master.headerBefore (copy + 1) = gpthdr := by
      rw [headerBefore, if_pos isEntered, isBlock, bind_some, isHeader, getD_some]
    have isEntries : master.entriesOf copy =
        master.gptReadEntries gpthdr block (master.copyOffset copy) := by
      rw [entriesOf, isBlock, inForce]
    dsimp only at isGood
    rw [← isEntries] at isGood
    rw [Option.ite_none_left_eq_some] at isGood
    obtain ⟨noError, ⟨⟩⟩ := isGood
    rw [ends, added, refused, readsEntries, isEntered, Bool.eq_false_iff.mpr noError]
    cases master.partsBefore (copy + 1) with
    | none => exact ⟨rfl, nofun⟩
    | some parts => exact ⟨rfl, fun _ => rfl⟩

theorem mem_added
    {other : Nat}
    {part : MtdPartition}
    (member : (other, part) ∈ master.added copy) :
    other = copy := by
  rw [added] at member
  split at member
  case isTrue =>
    obtain ⟨_, _, same⟩ := mem_map.mp member
    exact (congrArg Prod.fst same).symm
  case isFalse => cases member

theorem foundBefore_eq_nil_iff :
    master.foundBefore copy = [] ↔ ∀ other < copy, master.added other = [] := by
  rw [foundBefore, flatMap_eq_nil_iff]
  simp

theorem mem_foundBefore
    {other : Nat}
    {part : MtdPartition}
    (member : (other, part) ∈ master.foundBefore copy) :
    other < copy := by
  obtain ⟨source, isSource, inAdded⟩ := mem_flatMap.mp member
  rw [mem_added inAdded]
  exact mem_range.mp isSource

/-- The first good copy is not before the last visited one. -/
theorem le_of_firstGood
    {last good : Nat}
    (isLast : master.lastVisited = some last)
    (isGood : master.firstGood = some good) :
    last ≤ good := by
  have found := List.find?_some isGood
  obtain ⟨parts, isParts⟩ := isSome_iff_exists.mp found
  have isEnd := (of_copyParts isParts).1
  rw [lastVisited, List.find?_range_eq_some] at isLast
  by_contra later
  have notEnd := isLast.2.2 good (by omega)
  rw [isEnd] at notEnd
  cases notEnd

theorem firstGood_eq_none (noLast : master.lastVisited = none) : master.firstGood = none := by
  rw [firstGood, List.find?_eq_none]
  intro copy member isGood
  obtain ⟨parts, isParts⟩ := isSome_iff_exists.mp isGood
  rw [lastVisited, List.find?_eq_none] at noLast
  exact noLast copy member (of_copyParts isParts).1

/-- A copy's first block can be read, but lacks the tag. -/
def untagged (master : Master) (copy : Nat) : Bool := (master.mbr copy).any fun buf => !hasTag buf

/--
The copies before the one that ends the search add no partition, and that one
is the first good one, with an array that has room; or it adds no partition,
and no good copy has one. If no copy ends the search, none adds a partition, or the
last one is not left for a missing tag.
-/
def Undisturbed (master : Master) : Prop :=
  match master.lastVisited with
  | some last =>
    (∀ copy < last, master.added copy = []) ∧
      (master.firstGood = some last ∧ master.refused last = false ∧ master.Roomy (last + 1) ∨
        master.added last = [] ∧ master.wanted = [])
  | none =>
    (∀ copy < maxBootCopies, master.added copy = []) ∨
      master.untagged 3 = false ∧ master.Roomy maxBootCopies

/-- The partitions of the first good copy are those that it adds. -/
theorem wanted_eq_added
    (isGood : master.firstGood = some copy)
    (notRefused : master.refused copy = false) :
    master.wanted = master.added copy := by
  have found := List.find?_some isGood
  obtain ⟨parts, isParts⟩ := isSome_iff_exists.mp found
  rw [wanted, isGood]
  dsimp only
  rw [isParts, getD_some, (of_copyParts isParts).2 notRefused]

/-- The wanted partitions are those of the first good copy. -/
theorem mem_wanted
    {other : Nat}
    {part : MtdPartition}
    (isGood : master.firstGood = some copy)
    (member : (other, part) ∈ master.wanted) :
    other = copy := by
  rw [wanted, isGood] at member
  obtain ⟨_, _, same⟩ := mem_map.mp member
  exact (congrArg Prod.fst same).symm

/-- No other copy has the partitions of the first good one. -/
theorem found_eq_wanted_iff
    (notGood : ∀ good, master.firstGood = some good → copy ≤ good) :
    master.foundBefore copy = master.wanted ↔ master.foundBefore copy = [] ∧
    master.wanted = [] := by
  constructor
  · intro same
    cases isGood : master.firstGood with
    | none =>
      have nothing : master.wanted = [] := by rw [wanted, isGood]
      exact ⟨same.trans nothing, nothing⟩
    | some good =>
      have later := notGood good isGood
      have nothing : master.foundBefore copy = [] := by
        rw [eq_nil_iff_forall_not_mem]
        rintro ⟨other, part⟩ member
        have before := mem_foundBefore member
        rw [same] at member
        have isOther := mem_wanted isGood member
        omega
      exact ⟨nothing, same.symm.trans nothing⟩
  · rintro ⟨nothing, nothingWanted⟩
    rw [nothing, nothingWanted]

/-- With partitions, only a missing tag is no error. -/
theorem failed_iff_of_found
    (notEnds : master.ends copy = false)
    (isAnnounced : master.announcedBefore (copy + 1) = true) :
    master.failed copy = true ↔ master.untagged copy = false := by
  rw [failed, untagged]
  cases isMbr : master.mbr copy with
  | none => simp
  | some buf =>
    rw [any_some, isAnnounced]
    dsimp only
    cases isTag : hasTag buf with
    | false => simp
    | true =>
      have isErr : (master.entriesOf copy).2 = true := by
        rw [ends, refused, readsEntries, entered, tagged_eq isMbr, isTag, isAnnounced] at notEnds
        cases isBlock : master.headerBlock copy with
        | none => rw [entriesOf, isBlock]
        | some block =>
          rw [isBlock] at notEnds
          cases isArray : master.partsBefore (copy + 1) with
          | none =>
            rw [isArray] at notEnds
            cases notEnds
          | some parts =>
            rw [isArray] at notEnds
            simpa using notEnds
      rw [isErr]
      decide

/-- A copy that added a partition announced a table. -/
theorem announcedBefore_of_found
    (found : master.foundBefore copy ≠ []) :
    master.announcedBefore copy = true := by
  obtain ⟨⟨source, part⟩, member⟩ := exists_mem_of_ne_nil _ found
  have before := mem_foundBefore member
  obtain ⟨other, _, inAdded⟩ := mem_flatMap.mp member
  obtain rfl := mem_added inAdded
  rw [added] at inAdded
  split at inAdded
  case isFalse => cases inAdded
  case isTrue isRead =>
    rw [readsEntries, entered, Bool.and_eq_true, Bool.and_eq_true, Bool.and_eq_true] at isRead
    obtain ⟨announcer, isAnnouncer, announces⟩ := any_eq_true.mp isRead.1.1.2
    rw [mem_range] at isAnnouncer
    exact any_eq_true.mpr ⟨announcer, mem_range.mpr (by omega), announces⟩

/-- The search ends with a copy. -/
theorem exact_iff_of_lastVisited
    {last : Nat}
    (isLast : master.lastVisited = some last) :
    master.Exact ↔ master.foundBefore last = [] ∧
    (master.firstGood = some last ∧ master.refused last = false ∧ master.Roomy (last + 1) ∨
    master.added last = [] ∧ master.wanted = []) := by
  have exact_iff : master.Exact ↔ master.Roomy (last + 1) ∧
      master.foundBefore (last + 1) = master.wanted := by
    rw [Exact, gptParse_eq, isLast]
    dsimp only
    split
    case isTrue roomy => simp [roomy]
    case isFalse notRoomy => simp [notRoomy]
  rw [exact_iff]
  by_cases isGood : master.firstGood = some last
  · cases isRefused : master.refused last with
    | true =>
      -- the array of the good copy is refused, and nothing is returned
      have isFlags := isRefused
      rw [refused, Bool.and_eq_true, isNone_iff_eq_none] at isFlags
      have nothing := foundBefore_eq_nil isFlags.2
      have parts : master.foundBefore last = [] ∧ master.added last = [] := by
        rwa [foundBefore_succ, append_eq_nil_iff] at nothing
      rw [nothing, parts.1, parts.2]
      constructor
      · exact fun ⟨_, same⟩ => ⟨rfl, .inr ⟨rfl, same.symm⟩⟩
      · rintro ⟨-, ⟨-, ⟨⟩, -⟩ | ⟨-, nothingWanted⟩⟩
        exact ⟨roomy_of_nil nothing, nothingWanted.symm⟩
    | false =>
      rw [wanted_eq_added isGood isRefused, foundBefore_succ, append_left_eq_self, and_comm]
      refine and_congr_right fun nothing => ?_
      constructor
      · exact fun roomy => .inl ⟨isGood, rfl, roomy⟩
      rintro (⟨_, _, roomy⟩ | ⟨nothingAdded, _⟩)
      · exact roomy
      refine roomy_of_nil ?_
      rw [foundBefore_succ, nothing, nothingAdded]
      rfl
  have later : ∀ good, master.firstGood = some good → last + 1 ≤ good := by
    intro good isOther
    have before := le_of_firstGood isLast isOther
    have differs : last ≠ good := by
      rintro rfl
      exact isGood isOther
    omega
  rw [found_eq_wanted_iff later, foundBefore_succ, append_eq_nil_iff]
  constructor
  · rintro ⟨_, ⟨nothing, nothingAdded⟩, nothingWanted⟩
    exact ⟨nothing, .inr ⟨nothingAdded, nothingWanted⟩⟩
  rintro ⟨nothing, ⟨isOther, _⟩ | ⟨nothingAdded, nothingWanted⟩⟩
  · exact absurd isOther isGood
  refine ⟨roomy_of_nil ?_, ⟨nothing, nothingAdded⟩, nothingWanted⟩
  rw [foundBefore_succ, nothing, nothingAdded]
  rfl

/-- No copy ends the search. -/
theorem exact_iff_of_not_lastVisited
    (noLast : master.lastVisited = none) :
    master.Exact ↔
    master.foundBefore maxBootCopies = [] ∨ master.untagged 3 = false ∧
    master.Roomy maxBootCopies := by
  have nothingWanted : master.wanted = [] := by rw [wanted, firstGood_eq_none noLast]
  have exact_iff : master.Exact ↔
      master.Roomy maxBootCopies ∧ master.returned maxBootCopies = [] := by
    rw [Exact, gptParse_eq, noLast, nothingWanted]
    dsimp only
    split
    case isTrue roomy => simp [roomy]
    case isFalse notRoomy => simp [notRoomy]
  have notEnds : master.ends 3 = false := by
    rw [lastVisited, List.find?_eq_none] at noLast
    exact Bool.eq_false_iff.mpr (noLast 3 (by decide))
  rw [exact_iff, returned]
  by_cases nothing : master.foundBefore maxBootCopies = []
  · rw [nothing]
    simp [roomy_of_nil nothing]
  have failed_iff := failed_iff_of_found notEnds (announcedBefore_of_found nothing)
  have isFailed : master.failedBefore maxBootCopies = master.failed 3 := rfl
  rw [isFailed, ← failed_iff]
  cases master.failed 3 with
  | true | false => simp [nothing]

/-- A buffer with the given bytes, and zeros elsewhere. -/
def bytesAt (bytes : List (Nat × BitVec 8)) : Buffer := fun address => (bytes.lookup address).getD 0

/-- A first block that announces a table, for 4096 blocks. -/
def announcement : Buffer := bytesAt [(450, 0xee), (458, 16), (510, 0x55), (511, 0xaa)]

/-- A header for four entries in the block behind it. -/
def goodHeader : Buffer :=
  bytesAt [(0, 0x45), (1, 0x46), (2, 0x49), (3, 0x20), (4, 0x50), (5, 0x41),
      (6, 0x52), (7, 0x54), (72, 2), (80, 4), (84, 0x80)]

/-- A block with one entry, from block 34 to block 63. -/
def oneEntry : Buffer := bytesAt [(0, 1), (32, 34), (40, 63), (56, 0x61)]

/-- The first header lost its signature; the second copy is good. -/
def damagedMaster : Master where
  size := 4096 * 512
  writesize := 512
  isNand := true
  pageSize := fun _ => ⟨9, by decide, by decide⟩
  kmalloc := fun _ => true
  mtdRead := fun address =>
    if address = 0 ∨ address = 256 * 512 then some announcement
    else if address = 512 then some fun _ => 0
    else if address = 257 * 512 then some goodHeader
    else if address = 258 * 512 then some oneEntry
    else none

end Master

end EchoKernel.Gpt
