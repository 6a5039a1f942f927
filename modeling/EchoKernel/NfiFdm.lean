import EchoKernel.ArrayWrites
import Mathlib.Data.List.Nodup
import Mathlib.Data.List.Perm.Basic

namespace EchoKernel.NfiFdm

open Function List Nat

/-!
# The free bytes of a page and its bad mark

`write_fdm` and `read_fdm` of `nfi_base.c` move the free bytes (FDM) of the
sectors through two registers each; `bad_mark_swap` exchanges the first one
with the data byte where the factory put the bad mark.
-/

open ArrayWrites

section

/--
The parts of `struct nfi_base` in use. A sector's spare bytes hold its free
bytes, and all sizes are values of an `int`.
-/
structure NfiBase where
  sectorSize : ℕ
  sectorSpareSize : ℕ
  fdmSize : ℕ
  pageSectors : ℕ
  badMarkSwapEn : Bool
  eccEn : Bool
  col : ℕ
  rwSectors : ℕ
  sectorPositive : 0 < sectorSize
  fdmPositive : 0 < fdmSize
  fdmInSpare : fdmSize ≤ sectorSpareSize
  pageIsInt : pageSectors * sectorSize < 2 ^ 31
  colIsInt : col < 2 ^ 31
  rwIsInt : rwSectors < 2 ^ 31

variable (nb : NfiBase)

def NfiBase.pageSize : ℕ := nb.pageSectors * nb.sectorSize

/-- `bad_mark_ctrl.sector` of `set_bad_mark_ctrl`. -/
def NfiBase.markSector : ℕ := nb.pageSize / (nb.sectorSize + nb.sectorSpareSize)

/-- `bad_mark_ctrl.position` of `set_bad_mark_ctrl`. -/
def NfiBase.markPosition : ℕ := nb.pageSize % (nb.sectorSize + nb.sectorSpareSize)

/-- `fdm_shift`, as an offset. -/
def fdmShift (sector : ℕ) : ℕ :=
  if sector < nb.markSector then (sector + 1) * nb.fdmSize
  else if sector = nb.markSector then 0
  else sector * nb.fdmSize

/-- Where a sector's bytes are, by the running pointer. -/
def fdmStart (buf sector : ℕ) : ℕ := if nb.badMarkSwapEn then fdmShift nb sector else buf

/-- A sector's registers `NFI_FDML` and `NFI_FDMM`. -/
structure FdmRegs where
  vall : BitVec 32
  valm : BitVec 32
  deriving Repr, DecidableEq

/-- The bytes that a loop of `write_fdm` takes. -/
def taken : ℕ := min nb.fdmSize 4

/-- One loop of `write_fdm`: four bytes, filled up with `0xff`. -/
def fdmWord (fdm : ℕ → BitVec 8) (buf : ℕ) : BitVec 32 :=
  (range 4).foldl
    (fun word j =>
      word ||| (if j < nb.fdmSize then fdm (buf + j) else 0xff).setWidth 32 <<< (8 * j)) 0

/-- `write_fdm` from a sector on, with the offsets it reads. -/
def writeFrom (fdm : ℕ → BitVec 8) : ℕ → ℕ → ℕ → List FdmRegs × List ℕ
  | 0, _, _ => ([], [])
  | left + 1, sector, buf =>
    let start := fdmStart nb buf sector
    let rest := writeFrom fdm left (sector + 1) (start + 2 * taken nb)
    (⟨fdmWord nb fdm start, fdmWord nb fdm (start + taken nb)⟩ :: rest.1,
      range' start (2 * taken nb) ++ rest.2)

/-- `write_fdm`, with the offsets that it reads. -/
def writeFdm (fdm : ℕ → BitVec 8) : List FdmRegs × List ℕ := writeFrom nb fdm nb.pageSectors 0 0

/-- The bytes of one sector that `read_fdm` stores. -/
def fdmBytes (regs : FdmRegs) : List (BitVec 8) :=
  (range nb.fdmSize).map fun j =>
    ((if 4 ≤ j then regs.valm else regs.vall) >>> (8 * (j % 4))).setWidth 8

def readFrom : List FdmRegs → ℕ → ℕ → List (Write (BitVec 8))
  | [], _, _ => []
  | regs :: rest, sector, buf =>
    let start := fdmStart nb buf sector
    (start, fdmBytes nb regs) :: readFrom rest (sector + 1) (start + nb.fdmSize)

/-- `read_fdm` of all sectors into a buffer. -/
def readFdm (regs : List FdmRegs) (fdm : ℕ → BitVec 8) : ℕ → BitVec 8 :=
  storeAll fdm (readFrom nb regs 0 0)

/-- `bad_mark_swap`; no buffer is a null pointer. -/
def badMarkSwap (buf fdm : Option (ℕ → BitVec 8)) : Option (ℕ → BitVec 8) × Option (ℕ → BitVec 8) :=
  let startSector := nb.col / nb.sectorSize
  match buf, fdm with
  | some data, some oob =>
    if ¬ nb.eccEn then (buf, fdm)
    else if nb.markSector < startSector ∨ startSector + nb.rwSectors < nb.markSector then (buf, fdm)
    else
      let dataMarkPos := nb.markPosition + (nb.markSector - startSector) * nb.sectorSize
      (some (update data dataMarkPos (oob 0)), some (update oob 0 (data dataMarkPos)))
  | _, _ => (buf, fdm)

end

section
variable {nb : NfiBase} {fdm out : ℕ → BitVec 8}

theorem markSector_lt (nonempty : 0 < nb.pageSectors) : nb.markSector < nb.pageSectors := by
  have spare := nb.fdmPositive
  have inSpare := nb.fdmInSpare
  rw [NfiBase.markSector, Nat.div_lt_iff_lt_mul (by omega)]
  exact Nat.mul_lt_mul_of_pos_left (by omega) nonempty

/-- Every free byte is written once, inside the buffer, and read back. -/
def RoundTrip (nb : NfiBase) : Prop :=
  ∀ fdm out, (writeFdm nb fdm).2.Perm (range (nb.pageSectors * nb.fdmSize)) ∧
      ∀ k, readFdm nb (writeFdm nb fdm).1 out k =
        if k < nb.pageSectors * nb.fdmSize then fdm k else out k

theorem length_writeFrom
    (left sector buf : ℕ) :
    (writeFrom nb fdm left sector buf).2.length = left * (2 * taken nb) := by
  induction left generalizing sector buf with
  | zero => rw [writeFrom, Nat.zero_mul, length_nil]
  | succ left inductionHypothesis =>
    rw [writeFrom, length_append, length_range', inductionHypothesis, succ_mul left, Nat.add_comm]

theorem fdmSize_of_roundTrip
    (most : nb.fdmSize ≤ 8)
    (nonempty : 0 < nb.pageSectors)
    (roundTrip : RoundTrip nb) :
    nb.fdmSize = 8 := by
  have length := (roundTrip (fun _ => 0) (fun _ => 0)).1.length_eq
  rw [writeFdm, length_writeFrom, length_range] at length
  have each := Nat.eq_of_mul_eq_mul_left nonempty length
  have positive := nb.fdmPositive
  simp only [taken] at each
  omega

/-- The place of a sector's bytes among all. -/
def place (nb : NfiBase) (sector : ℕ) : ℕ :=
  if nb.badMarkSwapEn then
    if sector < nb.markSector then sector + 1
    else if sector = nb.markSector then 0
    else sector
  else sector

theorem place_perm
    (nb : NfiBase) :
    ((range nb.pageSectors).map (place nb)).Perm (range nb.pageSectors) := by
  rcases Nat.eq_zero_or_pos nb.pageSectors with none | nonempty
  · rw [none]
    exact .refl _
  have inPage := markSector_lt nonempty
  refine (perm_ext_iff_of_nodup (List.Nodup.map_on ?_ nodup_range) nodup_range).mpr ?_
  · intro first _ second _ same
    unfold place at same
    grind
  intro sector
  simp only [mem_map]
  constructor
  · unfold place
    grind
  intro bound
  by_cases swaps : nb.badMarkSwapEn = true
  · -- The mark's sector stands first and the sectors before it move up.
    refine ⟨if sector = 0 then nb.markSector
      else if sector ≤ nb.markSector then sector - 1 else sector, ?_, ?_⟩
    · grind
    · unfold place
      grind
  · exact ⟨sector, bound, by rw [place, if_neg swaps]⟩

/-- Sectors of eight bytes start at their places. -/
theorem fdmStart_eq
    {buf sector : ℕ}
    (eight : nb.fdmSize = 8)
    (running : nb.badMarkSwapEn = false → buf = sector * 8) :
    fdmStart nb buf sector = place nb sector * 8 := by
  unfold fdmStart place fdmShift
  rw [eight]
  cases swaps : nb.badMarkSwapEn with
  | true =>
    simp only [↓reduceIte]
    split
    · rfl
    split
    · rfl
    · rfl
  | false => exact running swaps

theorem byte_word
    (b : ℕ → BitVec 8)
    {j : ℕ}
    (small : j < 4) :
    ((range 4).foldl (fun word i => word ||| (b i).setWidth 32 <<< (8 * i))
    (0 : BitVec 32) >>> (8 * j)).setWidth 8 = b j := by
  apply BitVec.eq_of_getLsbD_eq
  intro i bound
  have cases : j = 0 ∨ j = 1 ∨ j = 2 ∨ j = 3 := by omega
  rcases cases with rfl | rfl | rfl | rfl <;> simp [range_succ] <;> grind

theorem fdmBytes_words
    (eight : nb.fdmSize = 8)
    (start : ℕ) :
    fdmBytes nb ⟨fdmWord nb fdm start, fdmWord nb fdm (start + 4)⟩ = load fdm start 8 := by
  have word (buf j : ℕ) (small : j < 4) :
      (fdmWord nb fdm buf >>> (8 * j)).setWidth 8 = fdm (buf + j) := by
    have whole : fdmWord nb fdm buf =
        (range 4).foldl (fun word i => word ||| (fdm (buf + i)).setWidth 32 <<< (8 * i)) 0 := by
      simp [fdmWord, eight, range_succ]
    rw [whole, byte_word (fun i => fdm (buf + i)) small]
  rw [fdmBytes, eight]
  refine map_congr_left fun j member => ?_
  rw [mem_range] at member
  split
  · rw [word _ _ (mod_lt _ (by decide))]
    exact congrArg fdm (by omega)
  · rw [word _ _ (mod_lt _ (by decide))]
    exact congrArg fdm (by omega)

/-- What is used and what is stored, sector by sector. -/
theorem writeFrom_eight
    (eight : nb.fdmSize = 8)
    {left sector buf : ℕ}
    (running : nb.badMarkSwapEn = false → buf = sector * 8) :
    (writeFrom nb fdm left sector buf).2 =
    (range' sector left).flatMap (fun i => range' (place nb i * 8) 8) ∧
    readFrom nb (writeFrom nb fdm left sector buf).1 sector buf =
    (range' sector left).map fun i => (place nb i * 8, load fdm (place nb i * 8) 8) := by
  induction left generalizing sector buf with
  | zero => exact ⟨rfl, rfl⟩
  | succ left inductionHypothesis =>
    have start := fdmStart_eq eight running
    have four : taken nb = 4 := by rw [taken, eight]; rfl
    have next : nb.badMarkSwapEn = false → place nb sector * 8 + 8 = (sector + 1) * 8 := by
      intro plain
      rw [place, plain]
      exact (succ_mul sector 8).symm
    obtain ⟨used, stored⟩ := inductionHypothesis next
    simp only [writeFrom, readFrom, start, four, eight, used, stored, fdmBytes_words eight]
    exact ⟨rfl, rfl⟩

theorem flatMap_blocks
    (count : ℕ) :
    (range count).flatMap (fun i => range' (i * 8) 8) = range (count * 8) := by
  induction count with
  | zero => rfl
  | succ count inductionHypothesis =>
    rw [range_succ, flatMap_append, inductionHypothesis, flatMap_singleton,
      range_eq_range', range_eq_range', succ_mul, ← range'_append_1, Nat.zero_add]

/-- Cells stored from one array hold its values. -/
theorem storeAll_loads
    {writes : List (Write (BitVec 8))}
    {k : ℕ}
    (loads : ∀ write ∈ writes, write.2 = load fdm write.1 write.2.length) :
    (∃ write ∈ writes, write.Covers k) → storeAll out writes k = fdm k := by
  induction writes generalizing out with
  | nil => rintro ⟨_, member, _⟩; exact nomatch member
  | cons write rest inductionHypothesis =>
    intro covered
    have restLoads := fun other member => loads other (mem_cons_of_mem _ member)
    by_cases later : ∃ other ∈ rest, Write.Covers other k
    · exact inductionHypothesis restLoads later
    have outside : ∀ other ∈ rest, ¬ Write.Covers other k :=
      fun other member covers => later ⟨other, member, covers⟩
    obtain ⟨other, member, covers⟩ := covered
    have here : write.Covers k := by
      rcases mem_cons.mp member with rfl | member
      · exact covers
      · exact absurd covers (outside other member)
    have isLoad := loads write mem_cons_self
    obtain ⟨least, most⟩ := here
    have inside : k - write.1 < write.2.length := by omega
    change storeAll (store out write) rest k = fdm k
    rw [storeAll_of_not_covers outside, store, if_pos least, isLoad, load,
      getD_eq_getElem _ _ (by rw [length_map, length_range]; exact inside),
      getElem_map, getElem_range]
    exact congrArg fdm (by omega)

/-- Free bytes come back for sectors of eight bytes only. -/
theorem roundTrip_iff
    (most : nb.fdmSize ≤ 8) :
    RoundTrip nb ↔ nb.fdmSize = 8 ∨ nb.pageSectors = 0 := by
  constructor
  · intro roundTrip
    rcases Nat.eq_zero_or_pos nb.pageSectors with none | nonempty
    · exact .inr none
    · exact .inl (fdmSize_of_roundTrip most nonempty roundTrip)
  rintro (eight | none) fdm out
  · obtain ⟨used, stored⟩ := writeFrom_eight eight (fun _ => (Nat.zero_mul 8).symm)
    have perm : (writeFdm nb fdm).2.Perm (range (nb.pageSectors * 8)) := by
      have moved := (place_perm nb).flatMap_right (fun i => range' (i * 8) 8)
      rw [flatMap_map, flatMap_blocks] at moved
      rw [writeFdm, used, ← range_eq_range']
      exact moved
    rw [eight]
    refine ⟨perm, fun k => ?_⟩
    have covered : k < nb.pageSectors * 8 ↔
        ∃ write ∈ readFrom nb (writeFdm nb fdm).1 0 0, Write.Covers write k := by
      rw [← mem_range, ← perm.mem_iff, writeFdm, used, stored]
      simp [Write.Covers]
    split
    · rename_i inside
      refine storeAll_loads ?_ (covered.mp inside)
      rw [writeFdm, stored]
      intro write member
      obtain ⟨i, _, rfl⟩ := mem_map.mp member
      rw [length_load]
    · rename_i outside
      exact storeAll_of_not_covers fun write member covers =>
        outside (covered.mpr ⟨write, member, covers⟩)
  · simp [writeFdm, readFdm, none, writeFrom, readFrom, storeAll]

/-- Four sectors with sixteen spare bytes, eleven for error correction. -/
def fiveFree : NfiBase where
  sectorSize := 512
  sectorSpareSize := 16
  fdmSize := 5
  pageSectors := 4
  badMarkSwapEn := false
  eccEn := true
  col := 0
  rwSectors := 4
  sectorPositive := by decide
  fdmPositive := by decide
  fdmInSpare := by decide
  pageIsInt := by decide
  colIsInt := by decide
  rwIsInt := by decide

theorem eight_pos : 0 < 8 := by decide

/-- The same sectors with all eight free bytes in use. -/
def eightFree : NfiBase :=
  { fiveFree with
    fdmSize := 8
    fdmPositive := eight_pos
    fdmInSpare := by decide }

/-- Eight free bytes come back, five do not. -/
theorem roundTrip_fiveFree :
    RoundTrip eightFree ∧ fiveFree.fdmSize ≤ 8 ∧
    ¬ (fiveFree.fdmSize = 8 ∨ fiveFree.pageSectors = 0) ∧ ¬ RoundTrip fiveFree :=
  ⟨(roundTrip_iff (by decide)).mpr (by decide), by decide, by decide, fun roundTrip =>
    absurd ((roundTrip_iff (by decide)).mp roundTrip) (by decide)⟩

/-- The bytes of two sectors are read for one, and the last ones past the buffer. -/
theorem write_outside_fiveFree :
    20 ∈ (writeFdm fiveFree fun _ => 0).2 ∧
    ¬ 20 < fiveFree.pageSectors * fiveFree.fdmSize ∧
    readFdm fiveFree (writeFdm fiveFree fun k => BitVec.ofNat 8 k).1 (fun _ => 0) 5 = 8 := by
  decide

end

variable {nb : NfiBase}

/-- The bad mark passes both tests of the sectors. -/
def Swaps (nb : NfiBase) : Prop :=
  nb.eccEn = true ∧ nb.col / nb.sectorSize ≤ nb.markSector ∧
    nb.markSector ≤ nb.col / nb.sectorSize + nb.rwSectors

/-- The raw column of a byte of the transferred data. -/
def rawColumn (nb : NfiBase) (index : ℕ) : ℕ :=
  nb.col + index / nb.sectorSize * (nb.sectorSize + nb.sectorSpareSize) + index % nb.sectorSize

/-- Only the byte at the bad mark's column is exchanged, and a second swap undoes the first. -/
def ExchangesMark (nb : NfiBase) : Prop :=
  ∀ buf fdm, (badMarkSwap nb buf fdm = (buf, fdm) ∨
      ∃ data oob index, buf = some data ∧ fdm = some oob ∧
        index < nb.rwSectors * nb.sectorSize ∧ rawColumn nb index = nb.pageSize ∧
        badMarkSwap nb buf fdm = (some (update data index (oob 0)),
          some (update oob 0 (data index)))) ∧
    badMarkSwap nb (badMarkSwap nb buf fdm).1 (badMarkSwap nb buf fdm).2 = (buf, fdm)

def dataMarkPos (nb : NfiBase) : ℕ :=
  nb.markPosition + (nb.markSector - nb.col / nb.sectorSize) * nb.sectorSize

theorem badMarkSwap_of_swaps
    (swaps : Swaps nb)
    (data oob : ℕ → BitVec 8) :
    badMarkSwap nb (some data) (some oob) =
    (some (update data (dataMarkPos nb) (oob 0)), some (update oob 0 (data (dataMarkPos nb)))) := by
  obtain ⟨ecc, least, most⟩ := swaps
  rw [badMarkSwap]
  rw [if_neg (not_not_intro ecc), if_neg (by omega)]
  rfl

theorem badMarkSwap_of_not_swaps
    (idle : ¬ Swaps nb)
    (buf fdm : Option (ℕ → BitVec 8)) :
    badMarkSwap nb buf fdm = (buf, fdm) := by
  rcases buf with _ | data
  · rfl
  rcases fdm with _ | oob
  · rfl
  rw [badMarkSwap]
  split
  · rfl
  rename_i ecc
  rw [if_pos]
  by_contra inside
  exact idle ⟨not_not.mp ecc, by omega, by omega⟩

theorem badMarkSwap_twice
    (buf fdm : Option (ℕ → BitVec 8)) :
    badMarkSwap nb (badMarkSwap nb buf fdm).1 (badMarkSwap nb buf fdm).2 = (buf, fdm) := by
  by_cases swaps : Swaps nb
  · rcases buf with _ | data
    · rfl
    rcases fdm with _ | oob
    · rfl
    simp [badMarkSwap_of_swaps swaps, update_eq_self]
  · simp only [badMarkSwap_of_not_swaps swaps]

theorem dataMarkPos_div :
    dataMarkPos nb / nb.sectorSize =
    nb.markSector - nb.col / nb.sectorSize + nb.markPosition / nb.sectorSize := by
  rw [dataMarkPos, add_mul_div_right _ _ nb.sectorPositive, Nat.add_comm]

theorem dataMarkPos_mod : dataMarkPos nb % nb.sectorSize = nb.markPosition % nb.sectorSize := by
  rw [dataMarkPos, add_mul_mod_self_right]

theorem dataMarkPos_lt
    (least : nb.col / nb.sectorSize ≤ nb.markSector) :
    dataMarkPos nb <
    nb.rwSectors * nb.sectorSize ↔
    nb.markSector + nb.markPosition / nb.sectorSize < nb.col / nb.sectorSize + nb.rwSectors := by
  rw [← Nat.div_lt_iff_lt_mul nb.sectorPositive, dataMarkPos_div]
  omega

theorem rawColumn_dataMarkPos
    (least : nb.col / nb.sectorSize ≤ nb.markSector) :
    rawColumn nb (dataMarkPos nb) = nb.pageSize ↔
    nb.col + nb.markPosition / nb.sectorSize * nb.sectorSpareSize =
    nb.col / nb.sectorSize * (nb.sectorSize + nb.sectorSpareSize) := by
  have page : nb.pageSize =
      nb.markSector * (nb.sectorSize + nb.sectorSpareSize) + nb.markPosition := by
    rw [NfiBase.markSector, NfiBase.markPosition, Nat.mul_comm, div_add_mod]
  have position : nb.markPosition =
      nb.markPosition / nb.sectorSize * nb.sectorSize + nb.markPosition % nb.sectorSize := by
    rw [Nat.mul_comm, div_add_mod]
  obtain ⟨ahead, split⟩ := Nat.exists_eq_add_of_le least
  rw [rawColumn, dataMarkPos_div, dataMarkPos_mod, page, split, Nat.add_sub_cancel_left]
  rw [Nat.add_mul, Nat.add_mul, Nat.mul_add (nb.markPosition / nb.sectorSize)]
  omega

/-- The exchanged byte is the bad mark if only bad marks are exchanged. -/
theorem dataMarkPos_of_exchangesMark
    (exchanges : ExchangesMark nb)
    (swaps : Swaps nb) :
    dataMarkPos nb < nb.rwSectors * nb.sectorSize ∧
      rawColumn nb (dataMarkPos nb) = nb.pageSize := by
  -- One byte of the data differs from all others and from the free byte.
  have result := (exchanges (some (update (fun _ => 0) (dataMarkPos nb) 1)) (some fun _ => 0)).1
  rw [badMarkSwap_of_swaps swaps, update_self] at result
  rcases result with same | ⟨data, oob, index, isData, isOob, inside, column, same⟩
  · have first := congrFun (Option.some.inj (Prod.ext_iff.mp same).2) 0
    exact absurd first (by decide)
  have first := congrFun (Option.some.inj (Prod.ext_iff.mp same).2) 0
  rw [update_self, update_self, ← Option.some.inj isData] at first
  have here : index = dataMarkPos nb := by
    by_contra other
    rw [update_of_ne other] at first
    exact absurd first (by decide)
  rw [← here]
  exact ⟨inside, column⟩

/--
Only bad marks are exchanged iff an active swap finds its byte in the transfer
and at the raw column.
-/
theorem exchangesMark_iff :
    ExchangesMark nb ↔ (Swaps nb →
    nb.markSector + nb.markPosition / nb.sectorSize < nb.col / nb.sectorSize + nb.rwSectors ∧
    nb.col + nb.markPosition / nb.sectorSize * nb.sectorSpareSize =
    nb.col / nb.sectorSize * (nb.sectorSize + nb.sectorSpareSize)) := by
  constructor
  · intro exchanges swaps
    obtain ⟨inside, column⟩ := dataMarkPos_of_exchangesMark exchanges swaps
    exact ⟨(dataMarkPos_lt swaps.2.1).mp inside, (rawColumn_dataMarkPos swaps.2.1).mp column⟩
  intro safe buf fdm
  refine ⟨?_, badMarkSwap_twice buf fdm⟩
  by_cases swaps : Swaps nb
  · rcases buf with _ | data
    · exact .inl rfl
    rcases fdm with _ | oob
    · exact .inl rfl
    obtain ⟨inside, column⟩ := safe swaps
    exact .inr ⟨data, oob, dataMarkPos nb, rfl, rfl, (dataMarkPos_lt swaps.2.1).mpr inside,
      (rawColumn_dataMarkPos swaps.2.1).mpr column, badMarkSwap_of_swaps swaps data oob⟩
  · exact .inl (badMarkSwap_of_not_swaps swaps buf fdm)

/-- The first three sectors of a page with four. -/
def threeOfFour : NfiBase where
  sectorSize := 512
  sectorSpareSize := 16
  fdmSize := 8
  pageSectors := 4
  badMarkSwapEn := true
  eccEn := true
  col := 0
  rwSectors := 3
  sectorPositive := by decide
  fdmPositive := zero_lt_succ _
  fdmInSpare := by decide
  pageIsInt := by decide
  colIsInt := by decide
  rwIsInt := by decide

/-- The mark is behind the transfer, and so is the exchanged byte. -/
theorem badMarkSwap_after_transfer :
    (badMarkSwap threeOfFour (some fun k => BitVec.ofNat 8 (k % 251)) (some fun _ => 255)).2.map
    (fun oob => oob 0) = some (BitVec.ofNat 8 (2000 % 251)) ∧ dataMarkPos threeOfFour = 2000 ∧
    ¬ 2000 < threeOfFour.rwSectors * threeOfFour.sectorSize ∧ ¬ ExchangesMark threeOfFour := by
  have swaps : Swaps threeOfFour := by unfold Swaps; decide
  exact ⟨by decide, by decide, by decide, fun exchanges =>
    absurd (dataMarkPos_of_exchangesMark exchanges swaps).1 (by decide)⟩

end EchoKernel.NfiFdm
