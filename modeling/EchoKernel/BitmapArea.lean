import Mathlib.Algebra.Group.Nat.Defs
import Mathlib.Logic.Relation
import Mathlib.Order.Bounds.Defs

namespace EchoKernel.BitmapArea

open List Relation BitVec

/-!
# Free areas of a bitmap

`bitmap_find_next_zero_area_off` of `bitmap.c`. The search aligns the next
zero bit and starts again behind the first set bit of the area.
-/

/-- `find_next_bit` and `find_next_zero_bit`: the first bit of a value, or the size. -/
def findNext (map : Nat → Bool) (value : Bool) (size offset : Nat) : Nat :=
  ((range' offset (size - offset)).find? fun bit => map bit == value).getD size

/-- What is searched for, and where. -/
structure Search where
  map : Nat → Bool
  size : BitVec 32
  nr : BitVec 32
  alignMask : BitVec 32
  alignOffset : BitVec 32

namespace Search

variable (search : Search) (start : Nat)

def zeroBit : Nat := findNext search.map false search.size.toNat start

/-- The zero bit, aligned with `__ALIGN_MASK`. -/
def index : Nat :=
  (((BitVec.ofNat 32 (search.zeroBit start) + search.alignOffset + search.alignMask) &&&
    ~~~search.alignMask) - search.alignOffset).toNat

def stop : Nat := (search.index start + search.nr.toNat) % 2 ^ 32

/-- The first bit of the area that is set, or its end. -/
def blocking : Nat := findNext search.map true (search.stop start) (search.index start)

/-- `bitmap_find_next_zero_area_off`, over the remaining rounds. -/
def bitmapFindNextZeroAreaOff : (rounds start : Nat) → Option Nat
  | 0, _ => none
  | rounds + 1, start =>
    if search.size.toNat < search.stop start then some (search.stop start)
    else if search.blocking start < search.stop start then
      bitmapFindNextZeroAreaOff rounds (search.blocking start + 1)
    else some (search.index start)

/-- The search goes on from another start. -/
def Again (next : Nat) : Prop :=
  search.stop start ≤ search.size.toNat ∧ search.blocking start < search.stop start ∧
    next = search.blocking start + 1

/-- No sum of a round exceeds a word. -/
structure SumsFit : Prop where
  aligned : search.zeroBit start + search.alignOffset.toNat + search.alignMask.toNat < 2 ^ 32
  stop : search.index start + search.nr.toNat < 2 ^ 32

/-- An aligned index of an area of zero bits. -/
structure Free (order index : Nat) : Prop where
  fromStart : start ≤ index
  aligned : 2 ^ order ∣ index + search.alignOffset.toNat
  inside : index + search.nr.toNat ≤ search.size.toNat
  zero : ∀ bit, index ≤ bit → bit < index + search.nr.toNat → search.map bit = false

end Search

/-- What a search for one bit finds. -/
structure Found (map : Nat → Bool) (value : Bool) (size offset found : Nat) : Prop where
  atMost : found ≤ size
  isValue : found < size → offset ≤ found ∧ map found = value
  first : ∀ bit, offset ≤ bit → bit < found → map bit = !value

theorem found_findNext
    {map : Nat → Bool}
    {value : Bool}
    {size offset : Nat} :
    Found map value size offset (findNext map value size offset) := by
  have differs {bit : Nat} (other : (!(map bit == value)) = true) : map bit = !value := by
    revert other
    cases map bit <;> cases value <;> decide
  rw [findNext]
  cases found : (range' offset (size - offset)).find? fun bit => map bit == value with
  | none =>
    have none := find?_range'_eq_none.mp found
    refine ⟨Nat.le_refl _, fun inside => absurd inside (Nat.lt_irrefl _), ?_⟩
    intro bit above (below : bit < size)
    exact differs (none bit above (by omega))
  | some bit =>
    obtain ⟨isValue, member, first⟩ := find?_range'_eq_some.mp found
    have inside := mem_range'_1.mp member
    refine ⟨?_, fun _ => ⟨inside.1, eq_of_beq isValue⟩, fun other above below =>
      differs (first other above below)⟩
    change bit ≤ size
    omega

theorem toNat_and_not
    {value mask : BitVec 32}
    {order : Nat}
    (isMask : mask.toNat = 2 ^ order - 1) :
    (value &&& ~~~mask).toNat = value.toNat - value.toNat % 2 ^ order := by
  have apart : value &&& mask &&& (value &&& ~~~mask) = 0#32 := by
    rw [BitVec.and_assoc, BitVec.and_comm value (~~~mask), ← BitVec.and_assoc mask,
      BitVec.and_not_self]
    simp
  have isSum := toNat_add_of_and_eq_zero apart
  rw [add_eq_or_of_and_eq_zero _ _ apart, ← and_or_distrib_left, or_not_self, and_allOnes,
    toNat_and, isMask, Nat.and_two_pow_sub_one_eq_mod] at isSum
  omega

section
variable {search : Search} {order start : Nat}
variable (isMask : search.alignMask.toNat = 2 ^ order - 1) (sums : search.SumsFit start)
include isMask sums

/-- The first aligned index from the zero bit on. -/
theorem index_spec :
    search.zeroBit start ≤ search.index start ∧
    2 ^ order ∣ search.index start + search.alignOffset.toNat ∧
    ∀ index, search.zeroBit start ≤ index → 2 ^ order ∣ index + search.alignOffset.toNat →
    search.index start ≤ index := by
  have fits := sums.aligned
  have positive := Nat.two_pow_pos order
  have isAligned := @toNat_and_not
    (BitVec.ofNat 32 (search.zeroBit start) + search.alignOffset + search.alignMask) _ _ isMask
  rw [toNat_add, toNat_add, toNat_ofNat, Nat.mod_eq_of_lt (by omega : search.zeroBit start < _),
    Nat.mod_add_mod, Nat.mod_eq_of_lt fits, isMask] at isAligned
  generalize isTotal : search.zeroBit start + search.alignOffset.toNat + (2 ^ order - 1) = total
    at isAligned
  have below := Nat.mod_lt total positive
  have isIndex : search.index start + search.alignOffset.toNat = total - total % 2 ^ order := by
    rw [Search.index, toNat_sub_of_le (by rw [le_def, isAligned]; omega), isAligned]
    omega
  have divides : 2 ^ order ∣ total - total % 2 ^ order := Nat.dvd_sub_mod total
  refine ⟨by omega, by rw [isIndex]; exact divides, ?_⟩
  intro index above aligned
  -- A smaller multiple would be at least one step below.
  refine Nat.le_of_not_lt fun smaller => ?_
  have step := Nat.le_of_dvd (by omega) (Nat.dvd_sub divides aligned)
  omega

variable (atLeast : 1 ≤ search.nr.toNat)
include atLeast

theorem index_le_of_free
    {index : Nat}
    (free : search.Free start order index) :
    search.index start ≤ index := by
  refine (index_spec isMask sums).2.2 index ?_ free.aligned
  refine Nat.le_of_not_lt fun below => ?_
  have isSet := found_findNext.first index free.fromStart below
  rw [free.zero index (Nat.le_refl _) (by omega)] at isSet
  cases isSet

/-- No area begins before the bit that is in the way. -/
theorem free_again
    {next : Nat}
    (again : search.Again start next) :
    start < next ∧
    next ≤ search.size.toNat ∧ ∀ index, search.Free start order index ↔
    search.Free next order index := by
  obtain ⟨inSize, inArea, rfl⟩ := again
  have isStop : search.stop start = _ := Nat.mod_eq_of_lt sums.stop
  obtain ⟨fromIndex, isSet⟩ := found_findNext.isValue inArea
  have fromZero := (index_spec isMask sums).1
  have fromStart := found_findNext.isValue (by omega : search.zeroBit start < search.size.toNat)
  change search.index start ≤ search.blocking start at fromIndex
  change start ≤ search.zeroBit start ∧ _ at fromStart
  refine ⟨by omega, by omega, fun index => ⟨fun free => ?_, fun free => ?_⟩⟩
  · refine ⟨?_, free.aligned, free.inside, free.zero⟩
    have above := index_le_of_free isMask sums atLeast free
    refine Nat.le_of_not_lt fun early => ?_
    have isZero := free.zero (search.blocking start) (by omega) (by omega)
    cases isSet.symm.trans isZero
  · have above := free.fromStart
    exact ⟨by omega, free.aligned, free.inside, free.zero⟩

end

/-- The search ends with the first aligned zero area, or beyond the size. -/
theorem bitmapFindNextZeroAreaOff_spec
    {search : Search}
    {order start : Nat}
    (isMask : search.alignMask.toNat = 2 ^ order - 1)
    (atLeast : 1 ≤ search.nr.toNat)
    (sums : ∀ next, ReflTransGen search.Again start next → search.SumsFit next) :
    ∃ rounds result, search.bitmapFindNextZeroAreaOff rounds start = some result ∧
    (IsLeast {index | search.Free start order index} result ∨
    (∀ index, ¬ search.Free start order index) ∧ search.size.toNat < result) := by
  generalize isLeft : search.size.toNat - start = left
  induction left using Nat.strongRecOn generalizing start with
  | _ left inductionHypothesis =>
    have here := sums start .refl
    have isStop : search.stop start = _ := Nat.mod_eq_of_lt here.stop
    by_cases beyond : search.size.toNat < search.stop start
    · refine ⟨1, search.stop start, if_pos beyond, .inr ⟨fun index free => ?_, beyond⟩⟩
      have above := index_le_of_free isMask here atLeast free
      have inside := free.inside
      omega
    by_cases blocked : search.blocking start < search.stop start
    · have again : search.Again start (search.blocking start + 1) :=
        ⟨Nat.le_of_not_lt beyond, blocked, rfl⟩
      obtain ⟨further, inSize, sameAreas⟩ := free_again isMask here atLeast again
      obtain ⟨rounds, result, isResult, isArea⟩ :=
        inductionHypothesis _ (by omega) (fun next reached => sums next (.head again reached)) rfl
      refine ⟨rounds + 1, result, ?_, ?_⟩
      · rw [Search.bitmapFindNextZeroAreaOff, if_neg beyond, if_pos blocked]
        exact isResult
      · simpa only [sameAreas] using isArea
    · refine ⟨1, search.index start, ?_, .inl ⟨?_, fun index free =>
        index_le_of_free isMask here atLeast free⟩⟩
      · rw [Search.bitmapFindNextZeroAreaOff, if_neg beyond, if_neg blocked]
      obtain ⟨fromZero, aligned, -⟩ := index_spec isMask here
      have fromStart := found_findNext.isValue (by omega : search.zeroBit start < search.size.toNat)
      refine ⟨Nat.le_trans fromStart.1 fromZero, aligned, by omega, fun bit above below => ?_⟩
      exact found_findNext.first bit above (Nat.lt_of_lt_of_le (by omega)
        (Nat.le_of_not_lt blocked))

/-- Two bits from the start of an empty bitmap. -/
def emptySearch : Search := ⟨fun _ => false, 8, 2, 1, 0⟩

theorem bitmapFindNextZeroAreaOff_spec_empty :
    ∃ rounds result,
    emptySearch.bitmapFindNextZeroAreaOff rounds 0 = some result ∧
    (IsLeast {index | emptySearch.Free 0 1 index} result ∨
    (∀ index, ¬ emptySearch.Free 0 1 index) ∧ emptySearch.size.toNat < result) := by
  refine bitmapFindNextZeroAreaOff_spec (by decide) (by decide) fun next reached => ?_
  rcases reached.cases_head with rfl | ⟨_, again, _⟩
  · exact ⟨by decide, by decide⟩
  · exact absurd again.2.1 (by decide)

end EchoKernel.BitmapArea
