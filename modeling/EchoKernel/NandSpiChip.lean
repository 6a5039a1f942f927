import Mathlib.Data.Nat.Bitwise
import Mathlib.Data.Nat.Log

namespace EchoKernel.NandSpiChip

open List Nat

/-!
# Bad block checks and die selection of a serial NAND chip

`nand_chip_is_bad_block` of `nand_chip.c` reads a page without error
correction; `nand_spi_addressing` of `nand_spi.c` selects a die through a
feature register or by a command.
-/

section

/--
What the device gives for a page: the results of `read_page` and `read_data`,
and the byte behind its data.
-/
structure PageOutcome where
  readPage : Int
  readData : Int
  mark : BitVec 8
  deriving Repr, DecidableEq

/-- The controller's flag and the counters of `chip->status`. -/
structure NandChip where
  eccEn : Bool
  corrected : Int
  failed : ℕ
  deriving Repr, DecidableEq

def enandread : Int := 1025

def enandbad : Int := 1028

/-- The locals of `nand_chip_read_page`. -/
structure ReadLoop where
  chip : NandChip
  statuses : List Int
  retMin : Int
  retMax : Int
  deriving Repr, DecidableEq

/-- One round of `nand_chip_read_page`. -/
def readRound (loop : ReadLoop) (page : PageOutcome) : ReadLoop :=
  if page.readPage < 0 then
    { loop with
      statuses := loop.statuses ++ [page.readPage]
      retMin := min loop.retMin page.readPage }
  else
    { chip :=
        if page.readData < 0 then
          if page.readData = -enandread then { loop.chip with failed := loop.chip.failed + 1 }
          else loop.chip
        else { loop.chip with corrected := loop.chip.corrected + page.readData }
      statuses := loop.statuses ++ [page.readData]
      retMin := min loop.retMin page.readData
      retMax := max loop.retMax page.readData }

section
variable (chip : NandChip)

def readLoop (pages : List PageOutcome) : ReadLoop :=
  pages.foldl readRound ⟨{ chip with corrected := 0, failed := 0 }, [], 0, 0⟩

/-- What `nand_chip_read_page` returns. -/
def ReadLoop.ret (loop : ReadLoop) : Int := if loop.retMin < 0 then loop.retMin else loop.retMax

/-- `chip_ctrl` with `NFI_CTRL_ECC`. -/
def chipCtrlEcc (value : Bool) : NandChip := { chip with eccEn := value }

/-- `nand_chip_is_bad_block`: the chip, every operation's status and the result. -/
def nandChipIsBadBlock (pages : List PageOutcome) : NandChip × List Int × Int :=
  let loop := readLoop (chipCtrlEcc chip false) pages
  if loop.ret ≠ 0 then (loop.chip, loop.statuses, loop.ret)
  else
    (chipCtrlEcc loop.chip true, pages.map (fun page => if page.mark ≠ 0xff then -enandbad else 0),
      if pages.any (fun page => page.mark ≠ 0xff) then -enandbad else 0)

/-- `nandx_is_bad_block`; its result is a `bool`. -/
def nandxIsBadBlock (page : PageOutcome) : NandChip × Bool :=
  let result := nandChipIsBadBlock chip [page]
  (result.1, result.2.2 ≠ 0)

/-- A session's calls after the error correction is on. -/
inductive SessionCall where
  | isBadBlock (page : PageOutcome)
  | read (pages : List PageOutcome)
  | write
  deriving Repr, DecidableEq

def SessionCall.perform : SessionCall → NandChip
  | .isBadBlock page => (nandxIsBadBlock chip page).1
  | .read pages => (readLoop chip pages).chip
  | .write => chip

end

/-- The chip after every call. -/
def sessionChips (chip : NandChip) : List SessionCall → List NandChip
  | [] => []
  | call :: calls => call.perform chip :: sessionChips (call.perform chip) calls

/-- A page read without an error or a bit flip. -/
def PageOutcome.Clean (page : PageOutcome) : Prop := 0 ≤ page.readPage ∧ page.readData = 0

variable {chip : NandChip} {pages : List PageOutcome} {loop : ReadLoop}

theorem eccEn_readRound
    (page : PageOutcome) :
    (readRound loop page).chip.eccEn = loop.chip.eccEn := by
  unfold readRound
  grind

theorem eccEn_foldl_readRound : (pages.foldl readRound loop).chip.eccEn = loop.chip.eccEn := by
  induction pages generalizing loop with
  | nil => rfl
  | cons page pages inductionHypothesis =>
    rw [foldl_cons, inductionHypothesis, eccEn_readRound]

/-- The two extremes stay zero for clean pages only. -/
theorem extremes_foldl_readRound
    (least : 0 ≤ loop.retMax) :
    0 ≤ (pages.foldl readRound loop).retMax ∧
    ((0 ≤ (pages.foldl readRound loop).retMin ∧ (pages.foldl readRound loop).retMax = 0) ↔
    0 ≤ loop.retMin ∧ loop.retMax = 0 ∧ ∀ page ∈ pages, page.Clean) := by
  induction pages generalizing loop with
  | nil => simp [least]
  | cons page pages inductionHypothesis =>
    have next : 0 ≤ (readRound loop page).retMax := by
      unfold readRound
      grind
    obtain ⟨stays, extremes⟩ := inductionHypothesis next
    have here : 0 ≤ (readRound loop page).retMin ∧ (readRound loop page).retMax = 0 ↔
        0 ≤ loop.retMin ∧ loop.retMax = 0 ∧ page.Clean := by
      unfold readRound PageOutcome.Clean
      split
      · dsimp only
        omega
      · dsimp only
        omega
    rw [foldl_cons, forall_mem_cons]
    tauto

theorem ret_readLoop : (readLoop chip pages).ret = 0 ↔ ∀ page ∈ pages, page.Clean := by
  obtain ⟨least, extremes⟩ := @extremes_foldl_readRound pages
    ⟨{ chip with corrected := 0, failed := 0 }, [], 0, 0⟩ le_rfl
  have both : (readLoop chip pages).ret = 0 ↔
      0 ≤ (readLoop chip pages).retMin ∧ (readLoop chip pages).retMax = 0 := by
    unfold ReadLoop.ret
    grind
  rw [both]
  exact extremes.trans ⟨fun all => all.2.2, fun clean => ⟨le_rfl, rfl, clean⟩⟩

/-- The early return keeps the error correction off. -/
theorem eccEn_nandChipIsBadBlock :
    (nandChipIsBadBlock chip pages).1.eccEn = true ↔ ∀ page ∈ pages, page.Clean := by
  rw [← ret_readLoop, nandChipIsBadBlock]
  split
  · rename_i failed
    rw [readLoop, eccEn_foldl_readRound]
    exact ⟨(fun on => nomatch on), fun passed => absurd passed failed⟩
  · rename_i passed
    exact ⟨fun _ => not_not.mp passed, fun _ => rfl⟩

/-- A call keeps the error correction on unless it checks an unclean page. -/
theorem eccEn_perform
    {call : SessionCall}
    (on : chip.eccEn = true) :
    (call.perform chip).eccEn = true ↔ ∀ page, call = .isBadBlock page → page.Clean := by
  cases call with
  | isBadBlock page =>
    rw [SessionCall.perform, nandxIsBadBlock, eccEn_nandChipIsBadBlock]
    simp
  | read pages =>
    rw [SessionCall.perform, readLoop, eccEn_foldl_readRound]
    simp [on]
  | write => simp [SessionCall.perform, on]

/-- The error correction is on throughout a session iff the checked pages are clean. -/
theorem eccEn_sessionChips_iff
    {calls : List SessionCall}
    (on : chip.eccEn = true) :
    (∀ state ∈ sessionChips chip calls, state.eccEn = true) ↔ ∀ page, .isBadBlock page ∈ calls →
    page.Clean := by
  induction calls generalizing chip with
  | nil => simp [sessionChips]
  | cons call calls inductionHypothesis =>
    rw [sessionChips, forall_mem_cons]
    constructor
    · rintro ⟨here, later⟩ page member
      rcases mem_cons.mp member with rfl | member
      · exact (eccEn_perform on).mp here page rfl
      · exact (inductionHypothesis here).mp later page member
    · intro clean
      have here := (eccEn_perform on).mpr fun page isCall =>
        clean page (isCall ▸ mem_cons_self)
      exact ⟨here, (inductionHypothesis here).mpr fun page member =>
        clean page (mem_cons_of_mem _ member)⟩

theorem eccEn_sessionChips_clean :
    (NandChip.mk true 0 0).eccEn = true ∧
    ∀ state ∈ sessionChips ⟨true, 0, 0⟩ [.isBadBlock ⟨0, 0, 0⟩, .write], state.eccEn = true := by
  refine ⟨rfl, (eccEn_sessionChips_iff rfl).mpr fun page member => ?_⟩
  simp only [mem_cons, SessionCall.isBadBlock.injEq, not_mem_nil, or_false, reduceCtorEq] at member
  rw [member]
  exact ⟨by decide, by decide⟩

/-- A timeout of the checked page leaves the error correction off for the next write. -/
theorem eccEn_after_timeout :
    (sessionChips ⟨true, 0, 0⟩ [.isBadBlock ⟨-60, 0, 0⟩, .write]).map NandChip.eccEn =
    [false, false] := by
  decide

end

/-- What addressing uses of a device. The dies have a field of the character register. -/
structure DeviceSpi where
  lunNum : ℕ
  lunBlocks : ℕ
  blockPages : ℕ
  planeNum : ℕ
  planeBitStart : ℕ
  dieSelBit : ℕ
  dieBits : ℕ
  dieSelectCmd : Option (BitVec 8)
  blocksPositive : 0 < lunBlocks
  pagesPositive : 0 < blockPages
  lunsInField : lunNum ≤ 2 ^ dieBits
  fieldInRegister : dieSelBit + dieBits ≤ 8

/-- The character register, and the last selected die. -/
structure Dies where
  character : BitVec 8
  commanded : ℕ
  deriving Repr, DecidableEq

/-- A result, the row and column passed on, and the dies. -/
structure Addressed where
  ret : Int
  row : ℕ
  col : ℕ
  dies : Dies
  deriving Repr, DecidableEq

def efault : Int := 14

variable (dev : DeviceSpi)

/-- `nand_spi_die_select`; the feature write may be refused. -/
def nandSpiDieSelect (dies : Dies) (row : ℕ) (accepts : Bool) : Int × ℕ × Dies :=
  if dev.lunNum < 2 then (0, row, dies)
  else
    let lun := row / dev.blockPages / dev.lunBlocks
    let rest := row - dev.lunBlocks * dev.blockPages * lun
    match dev.dieSelectCmd with
    | none =>
      let dieSel := BitVec.ofNat 8 (lun <<< dev.dieSelBit)
      let character := if accepts then dies.character ||| dieSel else dies.character
      (if character &&& dieSel ≠ 0 then 0 else -efault, rest, { dies with character })
    | some _ => (0, rest, { dies with commanded := lun })

/-- `nand_spi_addressing`. -/
def nandSpiAddressing (dies : Dies) (row col : ℕ) (accepts : Bool) : Addressed :=
  let selected := nandSpiDieSelect dev dies row accepts
  if selected.1 ≠ 0 then ⟨selected.1, selected.2.1, col, selected.2.2⟩
  else
    let plane := selected.2.1 / dev.blockPages % dev.planeNum
    ⟨0, selected.2.1, col ||| plane <<< dev.planeBitStart, selected.2.2⟩

/-- The die that the character register selects. -/
def selectedDie (character : BitVec 8) : ℕ := character.toNat >>> dev.dieSelBit % 2 ^ dev.dieBits

/-- The die of a row. -/
def lunOf (row : ℕ) : ℕ := row / (dev.lunBlocks * dev.blockPages)

/-- Every access selects the die of its row, passes the row on and succeeds. -/
def SelectsAll : Dies → List (ℕ × ℕ) → Prop
  | _, [] => True
  | dies, (row, col) :: rest =>
    let addressed := nandSpiAddressing dev dies row col true
    (selectedDie dev addressed.dies.character = lunOf dev row ∧
      addressed.row = row % (dev.lunBlocks * dev.blockPages) ∧ addressed.ret = 0) ∧
    SelectsAll addressed.dies rest

variable {dev} {dies : Dies}

theorem lunOf_lt
    {row : ℕ}
    (inside : row < dev.lunNum * (dev.lunBlocks * dev.blockPages)) :
    lunOf dev row < 2 ^ dev.dieBits :=
  lt_of_lt_of_le ((Nat.div_lt_iff_lt_mul (Nat.mul_pos dev.blocksPositive dev.pagesPositive)).mpr
    inside) dev.lunsInField

theorem toNat_dieSel
    {lun : ℕ}
    (small : lun < 2 ^ dev.dieBits) :
    (BitVec.ofNat 8 (lun <<< dev.dieSelBit)).toNat = lun <<< dev.dieSelBit := by
  rw [BitVec.toNat_ofNat, mod_eq_of_lt]
  calc lun <<< dev.dieSelBit = lun * 2 ^ dev.dieSelBit := shiftLeft_eq ..
    _ < 2 ^ dev.dieBits * 2 ^ dev.dieSelBit := Nat.mul_lt_mul_of_pos_right small (Nat.two_pow_pos _)
    _ = 2 ^ (dev.dieBits + dev.dieSelBit) := (Nat.pow_add ..).symm
    _ ≤ 2 ^ 8 := Nat.pow_le_pow_right (by decide) (Nat.add_comm .. ▸ dev.fieldInRegister)

theorem selectedDie_or
    {lun : ℕ}
    (character : BitVec 8)
    (small : lun < 2 ^ dev.dieBits) :
    selectedDie dev (character ||| BitVec.ofNat 8 (lun <<< dev.dieSelBit)) =
    selectedDie dev character ||| lun := by
  rw [selectedDie, BitVec.toNat_or, toNat_dieSel small, shiftRight_or_distrib,
    shiftLeft_shiftRight, or_mod_two_pow, mod_eq_of_lt small, selectedDie]

/-- The read back bits are those of the die. -/
theorem readBack_ne_zero
    {lun : ℕ}
    (character : BitVec 8)
    (small : lun < 2 ^ dev.dieBits) :
    (character ||| BitVec.ofNat 8 (lun <<< dev.dieSelBit)) &&&
    BitVec.ofNat 8 (lun <<< dev.dieSelBit) ≠ 0 ↔ lun ≠ 0 := by
  have own : (character ||| BitVec.ofNat 8 (lun <<< dev.dieSelBit)) &&&
      BitVec.ofNat 8 (lun <<< dev.dieSelBit) = BitVec.ofNat 8 (lun <<< dev.dieSelBit) := by
    ext index
    simp
    tauto
  rw [own, ne_eq, ← BitVec.toNat_inj, toNat_dieSel small]
  simp

theorem nandSpiDieSelect_eq
    {row : ℕ}
    (many : 2 ≤ dev.lunNum)
    (feature : dev.dieSelectCmd = none)
    (inside : row < dev.lunNum * (dev.lunBlocks * dev.blockPages)) :
    nandSpiDieSelect dev dies row true =
      (if lunOf dev row ≠ 0 then 0 else -efault, row % (dev.lunBlocks * dev.blockPages), { dies with
          character := dies.character ||| BitVec.ofNat 8 (lunOf dev row <<< dev.dieSelBit) }) := by
  have die : row / dev.blockPages / dev.lunBlocks = lunOf dev row := by
    rw [Nat.div_div_eq_div_mul, Nat.mul_comm, lunOf]
  have rest : row - dev.lunBlocks * dev.blockPages * lunOf dev row =
    row % (dev.lunBlocks * dev.blockPages) := Nat.mod_eq_sub_mul_div.symm
  simp only [nandSpiDieSelect, if_neg (Nat.not_lt.mpr many), feature, die, rest, ↓reduceIte,
    readBack_ne_zero dies.character (lunOf_lt inside)]

theorem nandSpiAddressing_spec
    {row : ℕ}
    (col : ℕ)
    (many : 2 ≤ dev.lunNum)
    (feature : dev.dieSelectCmd = none)
    (inside : row < dev.lunNum * (dev.lunBlocks * dev.blockPages)) :
    selectedDie dev (nandSpiAddressing dev dies row col true).dies.character =
    selectedDie dev dies.character ||| lunOf dev row ∧
    (nandSpiAddressing dev dies row col true).row = row % (dev.lunBlocks * dev.blockPages) ∧
    ((nandSpiAddressing dev dies row col true).ret = 0 ↔ lunOf dev row ≠ 0) := by
  have bits := selectedDie_or dies.character (lunOf_lt inside)
  rw [nandSpiAddressing, nandSpiDieSelect_eq many feature inside]
  by_cases first : lunOf dev row = 0
  · rw [if_pos (by simp [first, efault])]
    exact ⟨bits, rfl, by simp [efault]⟩
  · rw [if_neg (by simp [first])]
    exact ⟨bits, rfl, by simp [first]⟩

/--
All accesses select their die iff none is to the first die and each die has
the bits of the one before.
-/
theorem selectsAll_iff
    {accesses : List (ℕ × ℕ)}
    (many : 2 ≤ dev.lunNum)
    (feature : dev.dieSelectCmd = none)
    (inside : ∀ access ∈ accesses, access.1 < dev.lunNum * (dev.lunBlocks * dev.blockPages)) :
    SelectsAll dev dies accesses ↔ (∀ access ∈ accesses, lunOf dev access.1 ≠ 0) ∧
    List.IsChain (fun before after => before ||| after = after)
    (selectedDie dev dies.character :: accesses.map fun access => lunOf dev access.1) := by
  induction accesses generalizing dies with
  | nil => simp [SelectsAll]
  | cons access accesses inductionHypothesis =>
    obtain ⟨row, col⟩ := access
    obtain ⟨die, rest, ret⟩ := nandSpiAddressing_spec col many feature (inside _ mem_cons_self)
    have later := @inductionHypothesis (nandSpiAddressing dev dies row col true).dies
      fun access member => inside access (mem_cons_of_mem _ member)
    rw [SelectsAll, later, die, ret, rest, forall_mem_cons, map_cons, isChain_cons_cons]
    constructor
    · rintro ⟨⟨same, _, notFirst⟩, luns, chain⟩
      rw [same] at chain
      exact ⟨⟨notFirst, luns⟩, same, chain⟩
    · rintro ⟨⟨notFirst, luns⟩, same, chain⟩
      rw [same]
      exact ⟨⟨rfl, rfl, notFirst⟩, luns, chain⟩

/-- Two dies of two blocks, with the die in bit six. -/
def twoDies : DeviceSpi where
  lunNum := 2
  lunBlocks := 2
  blockPages := 64
  planeNum := 1
  planeBitStart := 12
  dieSelBit := 6
  dieBits := 1
  dieSelectCmd := none
  blocksPositive := zero_lt_succ _
  pagesPositive := zero_lt_succ _
  lunsInField := by decide
  fieldInRegister := by decide

theorem selectsAll_second_die :
    (∀ access ∈ [(128, 0), (200, 0)],
    access.1 < twoDies.lunNum * (twoDies.lunBlocks * twoDies.blockPages)) ∧
    SelectsAll twoDies ⟨0, 0⟩ [(128, 0), (200, 0)] :=
  ⟨by decide, (selectsAll_iff (by decide) rfl (by decide)).mpr (by decide)⟩

/-- The first die is refused, and not reached after the second one. -/
theorem first_die_after_second :
    (nandSpiAddressing twoDies ⟨0, 0⟩ 5 0 true).ret = -efault ∧
      let second := nandSpiAddressing twoDies ⟨0, 0⟩ 128 0 true
      selectedDie twoDies (nandSpiAddressing twoDies second.dies 5 0 true).dies.character = 1 ∧
        lunOf twoDies 5 = 0 := by
  decide

end EchoKernel.NandSpiChip
