import EchoKernel.NandBbt
import Mathlib.Order.Interval.Finset.Nat

namespace EchoKernel.NandBbtPacked

open BitVec Option Function Finset

/-!
# Attempts to save a bad block table

`write_bbt` of `drivers/mtd/nandx/driver/bbt/bbt.c` over the packed marks.
Nothing bounds its loop; a failed attempt marks a block, which is not tried
again.
-/

/-- The bytes of a table. -/
abbrev Bbt := ℕ → BitVec 8

/-- The byte of a mark. -/
def getEntry (block : ℕ) : ℕ := block / 4

/-- The first bit of a mark in its byte. -/
def getPosition (block : ℕ) : ℕ := block % 4 * 2

/-- `BBT_ENTRY_MASK`. -/
def bbtEntryMask : BitVec 8 := 3

/-- `BBT_BLOCK_WORN`. -/
def bbtBlockWorn : BitVec 8 := 2

/-- `BBT_BLOCK_FACTORY_BAD`. -/
def bbtBlockFactoryBad : BitVec 8 := 0

/-- `set_bbt_mark`. -/
def setBbtMark (bbt : Bbt) (block : ℕ) (mark : BitVec 8) : Bbt :=
  update bbt (getEntry block)
    ((bbt (getEntry block) &&& ~~~(bbtEntryMask <<< getPosition block)) |||
      (mark &&& bbtEntryMask) <<< getPosition block)

/-- `get_bbt_mark`. -/
def getBbtMark (bbt : Bbt) (block : ℕ) : BitVec 8 :=
  (bbt (getEntry block) >>> getPosition block) &&& bbtEntryMask

/-- The test of `get_bbt_address`. -/
def isBad (bbt : Bbt) (block : ℕ) : Bool :=
  getBbtMark bbt block == bbtBlockWorn || getBbtMark bbt block == bbtBlockFactoryBad

/--
The number of blocks and of those for the copies. Block 0, whose address is
`BBT_INVALID_ADDR`, is not one of the latter.
-/
structure Geometry where
  totalBlock : ℕ
  maxBlocks : ℕ
  room : maxBlocks < totalBlock

/-- The loop of `get_bbt_address`, with block numbers for addresses. -/
def searchAddress (bbt : Bbt) (mirrorAddr : Option ℕ) : ℕ → ℕ → Option ℕ
  | 0, _ => none
  | left + 1, addr =>
    if isBad bbt (addr - 1) then searchAddress bbt mirrorAddr left (addr - 1)
    else if some (addr - 1) ≠ mirrorAddr then some (addr - 1)
    else searchAddress bbt mirrorAddr left (addr - 1)

/-- `get_bbt_address`: the last block neither bad nor the other copy. -/
def getBbtAddress (nand : Geometry) (bbt : Bbt) (mirrorAddr : Option ℕ) : Option ℕ :=
  searchAddress bbt mirrorAddr nand.maxBlocks nand.totalBlock

/-- The table, the copy's descriptor, and the attempts made. -/
structure WriteState where
  bbt : Bbt
  addr : Option ℕ
  version : BitVec 8
  attempts : ℕ

/-- The state at the return, the result and the saved copy. -/
structure Written where
  state : WriteState
  result : Option Errno
  saved : Option (ℕ × BitVec 8 × Bbt)

/-- Some rounds of the loop of `write_bbt`; `saves` says which attempts succeed. -/
def writeBbt (nand : Geometry) (mirrorAddr : Option ℕ) (saves : ℕ → Bool) :
    ℕ → WriteState → Option Written
  | 0, _ => none
  | fuel + 1, state =>
    match state.addr.or (getBbtAddress nand state.bbt mirrorAddr) with
    | none => some ⟨state, some .enospc, none⟩
    | some block =>
      if saves state.attempts then
        some ⟨{ state with addr := some block, attempts := state.attempts + 1 }, none,
          some (block, state.version, state.bbt)⟩
      else
        writeBbt nand mirrorAddr saves fuel
          ⟨setBbtMark state.bbt block bbtBlockWorn, none, state.version + 1, state.attempts + 1⟩

section
variable {bbt : Bbt} {block other : ℕ}

/-- The mask keeps two bits. -/
theorem getLsbD_bbtEntryMask (index : ℕ) : bbtEntryMask.getLsbD index = decide (index < 2) := by
  by_cases inside : index < 8
  · revert index
    decide
  · rw [getLsbD_of_ge _ _ (not_lt.mp inside), eq_comm, decide_eq_false_iff_not]
    omega

/-- The bits of a mark are those of its place in the byte. -/
theorem getLsbD_getBbtMark
    (index : ℕ) :
    (getBbtMark bbt block).getLsbD index =
    ((bbt (getEntry block)).getLsbD (getPosition block + index) && decide (index < 2)) := by
  rw [getBbtMark, getLsbD_and, getLsbD_ushiftRight, getLsbD_bbtEntryMask]

/-- Marks have two bits. -/
theorem getBbtMark_setBbtMark
    (mark : BitVec 8) :
    getBbtMark (setBbtMark bbt block mark) block = mark &&& bbtEntryMask := by
  have position : getPosition block ≤ 6 := by rw [getPosition]; omega
  apply eq_of_getLsbD_eq
  intro index _
  rw [getLsbD_getBbtMark, setBbtMark, update_self]
  simp only [getLsbD_or, getLsbD_and, getLsbD_not, getLsbD_shiftLeft, getLsbD_bbtEntryMask]
  by_cases low : index < 2
  · have inByte : getPosition block + index < 8 := by omega
    have notBefore : ¬ getPosition block + index < getPosition block := by omega
    simp [low, inByte, notBefore]
  · simp [low]

/-- Other blocks' marks are in other bytes or bits. -/
theorem getBbtMark_setBbtMark_of_ne
    (mark : BitVec 8)
    (differs : other ≠ block) :
    getBbtMark (setBbtMark bbt block mark) other = getBbtMark bbt other := by
  by_cases sameByte : getEntry other = getEntry block
  · apply eq_of_getLsbD_eq
    intro index _
    rw [getLsbD_getBbtMark, getLsbD_getBbtMark, setBbtMark, sameByte, update_self]
    simp only [getLsbD_or, getLsbD_and, getLsbD_not, getLsbD_shiftLeft, getLsbD_bbtEntryMask]
    by_cases low : index < 2
    · have apart : getPosition other + index < getPosition block ∨
          ¬ getPosition other + index - getPosition block < 2 := by
        unfold getEntry at sameByte
        unfold getPosition
        omega
      have inByte : getPosition other + index < 8 := by
        unfold getPosition
        omega
      rcases apart with before | behind
      · simp [before, inByte]
      · simp [behind, inByte]
    · simp [low]
  · rw [getBbtMark, setBbtMark, update_of_ne sameByte, getBbtMark]

/-- A worn mark is a bad one. -/
theorem isBad_setBbtMark_worn : isBad (setBbtMark bbt block bbtBlockWorn) block = true := by
  rw [isBad, getBbtMark_setBbtMark]
  decide

/-- Other blocks stay as they are. -/
theorem isBad_setBbtMark_of_ne
    (mark : BitVec 8)
    (differs : other ≠ block) :
    isBad (setBbtMark bbt block mark) other = isBad bbt other := by
  rw [isBad, getBbtMark_setBbtMark_of_ne mark differs, isBad]

end

section
variable {nand : Geometry} {bbt : Bbt} {mirrorAddr : Option ℕ} {block : ℕ}

/-- The last `max_blocks` blocks. -/
def region (nand : Geometry) : Finset ℕ :=
  Finset.Ico (nand.totalBlock - nand.maxBlocks) nand.totalBlock

/-- What is found is in range, not bad and not the other copy. -/
theorem searchAddress_eq_some
    {left addr : ℕ}
    (enough : left ≤ addr)
    (found : searchAddress bbt mirrorAddr left addr = some block) :
    (addr - left ≤ block ∧ block < addr) ∧ isBad bbt block = false ∧ some block ≠ mirrorAddr := by
  induction left generalizing addr with
  | zero => exact nomatch found
  | succ left inductionHypothesis =>
    have later : searchAddress bbt mirrorAddr left (addr - 1) = some block →
        (addr - (left + 1) ≤ block ∧ block < addr) ∧ isBad bbt block = false ∧
        some block ≠ mirrorAddr := by
      intro found
      obtain ⟨bounds, good⟩ := inductionHypothesis (by omega) found
      exact ⟨by omega, good⟩
    rw [searchAddress] at found
    split at found
    · exact later found
    split at found
    · rename_i good other
      obtain rfl := some.inj found
      exact ⟨by omega, Bool.eq_false_iff.mpr good, other⟩
    · exact later found

/-- Without a result all blocks but the other copy are bad. -/
theorem searchAddress_eq_none
    {left addr : ℕ}
    (enough : left ≤ addr)
    (missing : searchAddress bbt mirrorAddr left addr = none)
    (least : addr - left ≤ block)
    (most : block < addr)
    (other : some block ≠ mirrorAddr) :
    isBad bbt block = true := by
  induction left generalizing addr with
  | zero => omega
  | succ left inductionHypothesis =>
    rw [searchAddress] at missing
    by_cases here : block = addr - 1
    · rw [here] at other ⊢
      by_contra good
      rw [if_neg good, if_pos other] at missing
      exact nomatch missing
    · split at missing
      · exact inductionHypothesis (by omega) missing (by omega) (by omega)
      split at missing
      · exact nomatch missing
      · exact inductionHypothesis (by omega) missing (by omega) (by omega)

/-- An address is one of the region, not bad and not the other copy. -/
theorem getBbtAddress_eq_some
    (found : getBbtAddress nand bbt mirrorAddr = some block) :
    block ∈ region nand ∧ isBad bbt block = false ∧ some block ≠ mirrorAddr := by
  obtain ⟨bounds, rest⟩ := searchAddress_eq_some nand.room.le found
  exact ⟨Finset.mem_Ico.mpr bounds, rest⟩

/-- Without an address all blocks but the other copy are bad. -/
theorem getBbtAddress_eq_none
    (missing : getBbtAddress nand bbt mirrorAddr = none)
    (member : block ∈ region nand)
    (other : some block ≠ mirrorAddr) :
    isBad bbt block = true := by
  obtain ⟨least, most⟩ := Finset.mem_Ico.mp member
  exact searchAddress_eq_none nand.room.le missing least most other

end

variable {nand : Geometry} {bbt : Bbt} {mirrorAddr : Option ℕ} {saves : ℕ → Bool} {block : ℕ}

/-- The blocks of the region that are not bad. -/
def goodBlocks (nand : Geometry) (bbt : Bbt) : Finset ℕ :=
  (region nand).filter fun block => isBad bbt block = false

/-- A bad block is not good, and none becomes good. -/
theorem goodBlocks_setBbtMark_subset :
    goodBlocks nand (setBbtMark bbt block bbtBlockWorn) ⊆ (goodBlocks nand bbt).erase block := by
  intro other member
  obtain ⟨inside, good⟩ := Finset.mem_filter.mp member
  have differs : other ≠ block := by
    rintro rfl
    rw [isBad_setBbtMark_worn] at good
    exact nomatch good
  rw [isBad_setBbtMark_of_ne _ differs] at good
  exact Finset.mem_erase.mpr ⟨differs, Finset.mem_filter.mpr ⟨inside, good⟩⟩

/-- The region has `max_blocks` blocks. -/
theorem card_region (nand : Geometry) : (region nand).card = nand.maxBlocks := by
  have room := nand.room
  rw [region, Nat.card_Ico]
  omega

/-- At most all blocks of the region are good. -/
theorem card_goodBlocks_le
    (nand : Geometry)
    (bbt : Bbt) :
    (goodBlocks nand bbt).card ≤ nand.maxBlocks :=
  card_region nand ▸ card_filter_le ..

/-- After a failure not all blocks are good. -/
theorem card_goodBlocks_of_bad
    (member : block ∈ region nand) :
    (goodBlocks nand (setBbtMark bbt block bbtBlockWorn)).card < nand.maxBlocks := by
  have inside : goodBlocks nand (setBbtMark bbt block bbtBlockWorn) ⊆ (region nand).erase block :=
    goodBlocks_setBbtMark_subset.trans (erase_subset_erase _ (filter_subset ..))
  calc _ ≤ ((region nand).erase block).card := card_le_card inside
    _ < (region nand).card := card_erase_lt_of_mem member
    _ = nand.maxBlocks := card_region nand

/-- A failure at a good block leaves fewer. -/
theorem card_goodBlocks_lt
    (member : block ∈ region nand)
    (good : isBad bbt block = false) :
    (goodBlocks nand (setBbtMark bbt block bbtBlockWorn)).card < (goodBlocks nand bbt).card :=
  lt_of_le_of_lt (card_le_card goodBlocks_setBbtMark_subset)
    (card_erase_lt_of_mem (Finset.mem_filter.mpr ⟨member, good⟩))

/-- The attempts from `first` on fail up to the last one, which saves. -/
def LastSaves (saves : ℕ → Bool) (first attempts : ℕ) : Prop :=
  ∃ last, attempts = last + 1 ∧ first ≤ last ∧ saves last = true ∧
    ∀ attempt, first ≤ attempt → attempt < last → saves attempt = false

/--
What `write_bbt` leaves for a table and a limit of attempts, starting at the
address `preset` with the attempt `first`.
-/
structure Outcome (nand : Geometry) (mirrorAddr : Option ℕ) (saves : ℕ → Bool) (bbt : Bbt)
    (preset : Option ℕ) (first limit : ℕ) (written : Written) : Prop where
  attempts : written.state.attempts ≤ limit
  outside : ∀ block, block ∉ region nand → getBbtMark written.state.bbt block = getBbtMark bbt block
  result :
    (written.result = none ∧ LastSaves saves first written.state.attempts ∧
      ∃ block, written.saved = some (block, written.state.version, written.state.bbt) ∧
        written.state.addr = some block ∧
        (some block ≠ mirrorAddr ∧ isBad written.state.bbt block = false ∨ preset = some block)) ∨
    (written.result = some .enospc ∧ written.saved = none ∧
      (∀ attempt, first ≤ attempt → attempt < written.state.attempts → saves attempt = false) ∧
      ∀ block ∈ region nand, some block ≠ mirrorAddr → isBad written.state.bbt block = true)

/-- One more failure before the first attempt. -/
theorem LastSaves.after_failure
    {first attempts : ℕ}
    (lastSaves : LastSaves saves (first + 1) attempts)
    (fails : ¬ saves first = true) :
    LastSaves saves first attempts := by
  obtain ⟨last, isLast, from', succeeds, earlier⟩ := lastSaves
  refine ⟨last, isLast, by omega, succeeds, fun attempt least below => ?_⟩
  rcases Nat.eq_or_lt_of_le least with rfl | later
  · exact Bool.eq_false_iff.mpr fails
  · exact earlier attempt later below

/-- The outcome after one more failure, with another table inside the region. -/
theorem Outcome.after_failure
    {before : Bbt}
    {preset : Option ℕ}
    {first limit more : ℕ}
    {written : Written}
    (outcome : Outcome nand mirrorAddr saves bbt none (first + 1) limit written)
    (fails : ¬ saves first = true)
    (most : limit ≤ more)
    (same : ∀ block, block ∉ region nand → getBbtMark bbt block = getBbtMark before block) :
    Outcome nand mirrorAddr saves before preset first more written := by
  refine ⟨outcome.attempts.trans most,
    fun block apart => (outcome.outside block apart).trans (same block apart), ?_⟩
  rcases outcome.result with ⟨succeeds, last, block, saved, addr, place⟩ |
    ⟨failed, unsaved, allFail, allBad⟩
  · refine .inl ⟨succeeds, last.after_failure fails, block, saved, addr, .inl ?_⟩
    exact place.resolve_right nofun
  · refine .inr ⟨failed, unsaved, fun attempt least below => ?_, allBad⟩
    rcases Nat.eq_or_lt_of_le least with rfl | later
    · exact Bool.eq_false_iff.mpr fails
    · exact allFail attempt later below

/-- Without an address good blocks bound the attempts. -/
theorem writeBbt_of_none
    {fuel : ℕ}
    {state : WriteState}
    (noAddr : state.addr = none)
    (enough : (goodBlocks nand state.bbt).card < fuel) :
    ∃ written, writeBbt nand mirrorAddr saves fuel state = some written ∧
      Outcome nand mirrorAddr saves state.bbt none state.attempts
        (state.attempts + (goodBlocks nand state.bbt).card) written := by
  induction fuel generalizing state with
  | zero => exact absurd enough (Nat.not_lt_zero _)
  | succ fuel inductionHypothesis =>
    rw [writeBbt, noAddr, none_or]
    cases chosen : getBbtAddress nand state.bbt mirrorAddr with
    | none =>
      exact ⟨_, rfl, Nat.le_add_right .., fun _ _ => rfl,
        .inr ⟨rfl, rfl, fun _ least below => absurd below (Nat.not_lt.mpr least),
          fun _ => getBbtAddress_eq_none chosen⟩⟩
    | some block =>
      obtain ⟨member, good, other⟩ := getBbtAddress_eq_some chosen
      have fewer := card_goodBlocks_lt member good
      dsimp only
      split
      case isTrue succeeds =>
        exact ⟨_, rfl, by dsimp only; omega, fun _ _ => rfl,
          .inl ⟨rfl, ⟨state.attempts, rfl, Nat.le_refl _, succeeds, by omega⟩, block, rfl, rfl,
            .inl ⟨other, good⟩⟩⟩
      case isFalse fails =>
        obtain ⟨written, isWritten, outcome⟩ := @inductionHypothesis
          ⟨setBbtMark state.bbt block bbtBlockWorn, none, state.version + 1,
            state.attempts + 1⟩ rfl (by dsimp only; omega)
        refine ⟨written, isWritten, outcome.after_failure fails (by dsimp only; omega) ?_⟩
        intro place apart
        refine getBbtMark_setBbtMark_of_ne _ ?_
        rintro rfl
        exact apart member

/--
`write_bbt` returns, whichever attempts fail. It reports success exactly after
an attempt that saves the copy.
-/
theorem writeBbt_terminates
    (nand : Geometry)
    (mirrorAddr : Option ℕ)
    (saves : ℕ → Bool)
    (bbt : Bbt)
    (addr : Option ℕ)
    (version : BitVec 8)
    (inRegion : ∀ block, addr = some block → block ∈ region nand) :
    ∃ written,
      writeBbt nand mirrorAddr saves (nand.maxBlocks + 1) ⟨bbt, addr, version, 0⟩ = some written ∧
        Outcome nand mirrorAddr saves bbt addr 0 (nand.maxBlocks + 1) written := by
  cases addr with
  | none =>
    have few := card_goodBlocks_le nand bbt
    obtain ⟨written, isWritten, outcome⟩ := @writeBbt_of_none nand mirrorAddr saves
      (nand.maxBlocks + 1) ⟨bbt, none, version, 0⟩ rfl (Nat.lt_succ_of_le few)
    refine ⟨written, isWritten, { outcome with attempts := ?_ }⟩
    have attempts := outcome.attempts
    dsimp only at attempts
    omega
  | some block =>
    have member := inRegion block rfl
    have few := @card_goodBlocks_of_bad nand bbt block member
    rw [writeBbt, some_or]
    dsimp only
    split
    case isTrue succeeds =>
      exact ⟨_, rfl, Nat.le_add_left .., fun _ _ => rfl,
        .inl ⟨rfl, ⟨0, rfl, Nat.le_refl _, succeeds, by omega⟩, block, rfl, rfl, .inr rfl⟩⟩
    case isFalse fails =>
      obtain ⟨written, isWritten, outcome⟩ := @writeBbt_of_none nand mirrorAddr saves
        nand.maxBlocks ⟨setBbtMark bbt block bbtBlockWorn, none, version + 1, 1⟩ rfl few
      refine ⟨written, isWritten, outcome.after_failure fails (by dsimp only; omega) ?_⟩
      intro place apart
      refine getBbtMark_setBbtMark_of_ne _ ?_
      rintro rfl
      exact apart member

/-- Eight blocks at the end of a device, of which the third that is tried works. -/
theorem writeBbt_terminates_third :
    ∃ written,
      writeBbt ⟨1024, 8, by decide⟩ (some 1022) (fun attempt => attempt == 2) 9
          ⟨fun _ => 0xff, some 1023, 1, 0⟩ = some written ∧
        Outcome ⟨1024, 8, by decide⟩ (some 1022) (fun attempt => attempt == 2) (fun _ => 0xff)
          (some 1023) 0 9 written := by
  refine writeBbt_terminates ⟨1024, 8, by decide⟩ (some 1022) (fun attempt => attempt == 2)
    (fun _ => 0xff) (some 1023) 1 fun block isBlock => ?_
  obtain rfl := some.inj isBlock
  decide

section

/-- The two bits of a mark. -/
def code : Nandx.Mark → BitVec 8
  | .factoryBad => 0
  | .reserved => 1
  | .worn => 2
  | .good => 3

/-- The geometry of the device, with its eight blocks for the copies. -/
def geometry (info : Nandx.NandxInfo) : Geometry := ⟨info.totalBlock, Nandx.maxBlocks, info.room⟩

/-- The bytes hold the marks of a table. -/
structure Represents (info : Nandx.NandxInfo) (bbt : Bbt) (table : Nandx.Table) : Prop where
  sized : table.length = info.totalBlock
  marks : ∀ block < info.totalBlock,
    getBbtMark bbt block = code (Nandx.getBbtMark table block)

variable {info : Nandx.NandxInfo} {table : Nandx.Table} {left addr : ℕ}

/-- A mark is bad in the bytes iff it is in the table. -/
theorem Represents.isBad_eq
    (represents : Represents info bbt table)
    (inside : block < info.totalBlock) :
    isBad bbt block = (Nandx.getBbtMark table block).isBad := by
  rw [isBad, represents.marks block inside]
  cases Nandx.getBbtMark table block <;> rfl

/-- A block can be marked in both. -/
theorem Represents.set_worn
    (represents : Represents info bbt table)
    (block : ℕ) :
    Represents info (setBbtMark bbt block bbtBlockWorn) (Nandx.setBbtMark table block .worn) := by
  refine ⟨(List.length_set ..).trans represents.sized, fun other below => ?_⟩
  have isSet : Nandx.getBbtMark (Nandx.setBbtMark table block .worn) other =
      if block = other then .worn else Nandx.getBbtMark table other := by
    have inTable : other < table.length := represents.sized ▸ below
    simp only [Nandx.getBbtMark, Nandx.setBbtMark, List.getD_eq_getElem?_getD, List.getElem?_set]
    split
    · simp [*]
    · rfl
  rw [isSet]
  split
  case isTrue same =>
    subst same
    rw [getBbtMark_setBbtMark]
    rfl
  case isFalse differs =>
    rw [getBbtMark_setBbtMark_of_ne _ (Ne.symm differs)]
    exact represents.marks other below

/-- The loop of `get_bbt_address` is a search from the last block down. -/
theorem Represents.searchAddress_eq
    (represents : Represents info bbt table)
    (enough : left ≤ addr)
    (inside : addr ≤ info.totalBlock) :
    searchAddress bbt mirrorAddr left addr =
      ((List.range left).map fun index => addr - 1 - index).find? fun block =>
        !(Nandx.getBbtMark table block).isBad && some block != mirrorAddr := by
  induction left generalizing addr with
  | zero => rfl
  | succ left inductionHypothesis =>
    have shifted : (List.range (left + 1)).map (fun index => addr - 1 - index) =
        (addr - 1) :: (List.range left).map (fun index => addr - 1 - 1 - index) := by
      rw [List.range_succ_eq_map, List.map_cons, List.map_map]
      refine congrArg _ (List.map_congr_left fun index _ => ?_)
      simp only [comp_apply]
      omega
    rw [searchAddress, shifted, List.find?_cons, represents.isBad_eq (by omega),
      inductionHypothesis (by omega) (by omega)]
    cases (Nandx.getBbtMark table (addr - 1)).isBad with
    | true => rfl
    | false =>
      by_cases other : some (addr - 1) = mirrorAddr
      · rw [if_neg (by simp), if_neg (not_not.mpr other)]
        simp [other]
      · have differs : (some (addr - 1) != mirrorAddr) = true := by simpa using other
        rw [if_neg (by simp), if_pos other, differs]
        rfl

/-- Both tables give the same address. -/
theorem Represents.getBbtAddress_eq
    (represents : Represents info bbt table) :
    getBbtAddress (geometry info) bbt mirrorAddr = Nandx.getBbtAddress info table mirrorAddr :=
  represents.searchAddress_eq info.room.le (Nat.le_refl _)

/-- `write_bbt` does the same on the bytes and on the marks. -/
theorem writeBbt_refines
    {pattern : Nandx.Pattern}
    {fails : List Nandx.SaveFailure}
    {desc : Nandx.Desc}
    {fuel attempts : ℕ}
    (represents : Represents info bbt table)
    (enough : fails.length < fuel) :
    ∃ written,
      writeBbt (geometry info) mirrorAddr (fun attempt => attempts + fails.length ≤ attempt) fuel
          ⟨bbt, desc.bbtAddr, desc.version, attempts⟩ = some written ∧
        let plain := Nandx.writeBbt info pattern mirrorAddr fails desc table
        written.result = plain.result ∧ written.state.version = plain.desc.version ∧
          written.state.addr = plain.desc.bbtAddr ∧
          Represents info written.state.bbt plain.bbt := by
  induction fails generalizing bbt table desc fuel attempts with
  | nil =>
    obtain ⟨fuel, rfl⟩ := Nat.exists_eq_add_one_of_ne_zero (Nat.ne_of_gt enough)
    rw [writeBbt, Nandx.writeBbt, represents.getBbtAddress_eq]
    cases chosen : desc.bbtAddr.or (Nandx.getBbtAddress info table mirrorAddr) with
    | none => exact ⟨_, rfl, rfl, rfl, (Option.or_eq_none_iff.mp chosen).1, represents⟩
    | some block =>
      simp only [List.length_nil, Nat.add_zero, Nat.le_refl, decide_true, if_true]
      exact ⟨_, rfl, rfl, rfl, rfl, represents⟩
  | cons failure fails inductionHypothesis =>
    obtain ⟨fuel, rfl⟩ := Nat.exists_eq_add_one_of_ne_zero (Nat.ne_of_gt (Nat.zero_lt_of_lt enough))
    rw [writeBbt, Nandx.writeBbt, represents.getBbtAddress_eq]
    cases chosen : desc.bbtAddr.or (Nandx.getBbtAddress info table mirrorAddr) with
    | none => exact ⟨_, rfl, rfl, rfl, (Option.or_eq_none_iff.mp chosen).1, represents⟩
    | some block =>
      have fails' : ¬ attempts + (failure :: fails).length ≤ attempts := by
        rw [List.length_cons]
        omega
      have next := @inductionHypothesis _ _ ⟨desc.version + 1, none⟩ fuel (attempts + 1)
        (represents.set_worn block) (Nat.lt_of_succ_lt_succ enough)
      simp only [decide_eq_true_eq, if_neg fails']
      rw [List.length_cons, Nat.add_comm fails.length, ← Nat.add_assoc]
      exact next

end

end EchoKernel.NandBbtPacked
