import EchoKernel.KstrtoxSpec
import EchoKernel.PutDec

namespace EchoKernel.PutDec

open Kstrtox List Nat

/-!
# Numbers that are written and read back

`kstrtoull` reads back what `num_to_str` writes, also before a newline.
-/

def chars (text : List ℕ) : List (BitVec 8) := text.map (BitVec.ofNat 8)

theorem digitOf_char : ∀ digit < 10, digitOf (BitVec.ofNat 8 (0x30 + digit)) = some digit := by
  decide

theorem exists_digits
    (n : ℕ) :
    ∃ numbers ≠ [], (∀ digit ∈ numbers, digit < 10) ∧
    ofDigits 10 numbers = n ∧ decimal n = (numbers.map (0x30 + ·)).reverse := by
  by_cases isZero : n = 0
  · subst isZero
    exact ⟨[0], by decide, by decide, by decide, rfl⟩
  · exact ⟨digits 10 n, digits_ne_nil_iff_ne_zero.mpr isZero, fun _ => digits_lt_base (by decide),
      ofDigits_digits 10 n, by rw [decimal, if_neg isZero, digitsOf]⟩

theorem denotes_decimal
    (n : ℕ)
    {tail : List (BitVec 8)}
    (ended : Ended tail) :
    Denotes 10 (chars (decimal n) ++ tail) n := by
  obtain ⟨numbers, nonempty, small, isNumber, isText⟩ := exists_digits n
  have read : filterMap digitOf (chars (numbers.map (0x30 + ·))) = numbers := by
    rw [chars, map_map, filterMap_map]
    refine (filterMap_congr fun digit member => ?_).trans filterMap_some
    exact digitOf_char digit (small digit member)
  refine ⟨[], _, tail, 10, rfl, .plain (by decide), ?_, ?_, ended, ?_⟩
  · simpa [isText, chars] using nonempty
  · intro c member
    rw [isText, chars, map_reverse, mem_reverse, map_map] at member
    obtain ⟨digit, isDigit, rfl⟩ := mem_map.mp member
    rw [Kstrtox.isDigit]
    simp [digitOf_char digit (small digit isDigit), small digit isDigit]
  · rw [denoted, isText, chars, map_reverse, reverse_reverse, ← chars, read, isNumber]

theorem length_decimal {n : ℕ} (wide : n < 2 ^ 64) : (decimal n).length ≤ 20 := by
  rw [decimal]
  split
  · decide
  · rw [length_reverse, digitsOf, length_map, digits_length_le_iff (by decide)]
    omega

/-- What `num_to_str` writes is read back by `kstrtoull`. -/
theorem kstrtoull_numToStr
    {num res : BitVec 64}
    {size : ℤ}
    {text : List ℕ}
    {s : CString}
    {tail : List (BitVec 8)}
    (written : numToStr size num.toNat = some text)
    (isText : s.chars = chars text ++ tail)
    (ended : Ended tail) :
    kstrtoull s 10 res = (num, .ok ()) := by
  rw [numToStr_eq num.isLt] at written
  split at written
  · cases written
    have short : ShortRuns s.chars := by
      intro digits inside _
      have few := length_decimal num.isLt
      have atMost := inside.length_le
      have newline : tail.length ≤ 1 := by rcases ended with rfl | rfl <;> decide
      rw [isText, length_append, chars, length_map] at atMost
      omega
    refine ((converts_kstrtoull (.inr (by decide)) short).accepted num).mpr (.inl ?_)
    rw [isText]
    exact denotes_decimal _ ended
  · cases written

theorem kstrtoull_numToStr_line : kstrtoull ⟨[0x34, 0x32, 0x0a], by decide⟩ 10 0 = (42, .ok ()) :=
  @kstrtoull_numToStr 42 0 4 [0x34, 0x32] _ [0x0a] (by decide) rfl (.inr rfl)

end EchoKernel.PutDec
