import Mathlib.Data.List.DropRight
import Mathlib.Data.Nat.Digits.Lemmas

namespace EchoKernel.PutDec

open List Nat

/-!
# Decimal text without divisions

`put_dec` of `vsprintf.c` for 32 bits, and `num_to_str`. Characters are bytes;
`put_dec` writes the last digit first.
-/

def sub32 (a b : ℕ) : ℕ := (a + (2 ^ 32 - b % 2 ^ 32)) % 2 ^ 32

/-- The bytes of an entry of `decpair`. -/
def decpair (x : ℕ) : List ℕ :=
  let entry := (x % 10 ||| (x / 10) <<< 8) + 0x3030
  [entry % 2 ^ 8, entry / 2 ^ 8 % 2 ^ 8]

/-- `(x * (u64)0x28f5c29) >> 32`. -/
def hundredth (x : ℕ) : ℕ := x * 0x28f5c29 % 2 ^ 64 / 2 ^ 32

/-- `(x * 0x147b) >> 19`. -/
def hundredthSmall (x : ℕ) : ℕ := x * 0x147b % 2 ^ 32 / 2 ^ 19

/-- `(x * (uint64_t)0x346DC5D7) >> 43`. -/
def tenThousandth (x : ℕ) : ℕ := x * 0x346DC5D7 % 2 ^ 64 / 2 ^ 43

/-- What `put_dec_trunc8` writes from `out_r` on. -/
def outR (r : ℕ) : List ℕ := (decpair r).take (if r < 10 then 1 else 2)

/-- `put_dec_trunc8`. -/
def putDecTrunc8 (r : ℕ) : List ℕ :=
  if r < 100 then outR r
  else
    let q := hundredth r
    decpair (sub32 r (100 * q)) ++
      if q < 100 then outR q
      else
        let r := hundredth q
        decpair (sub32 q (100 * r)) ++
          if r < 100 then outR r
          else
            let q := hundredthSmall r
            decpair (sub32 r (100 * q)) ++ outR q

/-- `put_dec_full4`. -/
def putDecFull4 (r : ℕ) : List ℕ :=
  let q := hundredthSmall r
  decpair (sub32 r (100 * q)) ++ decpair q

/-- What `put_dec_helper4` writes. -/
def putDecHelper4 (x : ℕ) : List ℕ := putDecFull4 (sub32 x (tenThousandth x * 10000))

/-- The sums of `put_dec` before they are cut to 32 bits. -/
structure Sums where
  first : ℕ
  second : ℕ
  third : ℕ
  last : ℕ

/-- The sums, each with the quotient of the one before. -/
def sums (n : ℕ) : Sums :=
  let d1 := n % 2 ^ 32 / 2 ^ 16
  let h := n / 2 ^ 32
  let d2 := h % 2 ^ 16
  let d3 := h / 2 ^ 16
  let first := 656 * d3 + 7296 * d2 + 5536 * d1 + n % 2 ^ 16
  let second := tenThousandth (first % 2 ^ 32) + (7671 * d3 + 9496 * d2 + 6 * d1)
  let third := tenThousandth (second % 2 ^ 32) + (4749 * d3 + 42 * d2)
  ⟨first, second, third, tenThousandth (third % 2 ^ 32) + 281 * d3⟩

/-- `put_dec`. -/
def putDec (n : ℕ) : List ℕ :=
  if n < 100 * 1000 * 1000 then putDecTrunc8 n
  else
    let text := putDecHelper4 ((sums n).first % 2 ^ 32) ++
      putDecHelper4 ((sums n).second % 2 ^ 32) ++ putDecHelper4 ((sums n).third % 2 ^ 32)
    let q := (sums n).last % 2 ^ 32
    if q ≠ 0 then text ++ putDecTrunc8 q else text.rdropWhile (· = 0x30)

/-- `num_to_str`; none is a text that is too long. -/
def numToStr (size : ℤ) (num : ℕ) : Option (List ℕ) :=
  let tmp := if num ≤ 9 then [0x30 + num] else putDec num
  if size < tmp.length then none else some tmp.reverse

/-- The digits of a number, the last one first. -/
def digitsOf (n : ℕ) : List ℕ := (digits 10 n).map (0x30 + ·)

/-- The text of a number. -/
def decimal (n : ℕ) : List ℕ := if n = 0 then [0x30] else (digitsOf n).reverse

/-- A number of digits, with leading zeros. -/
def fixed : ℕ → ℕ → List ℕ
  | 0, _ => []
  | width + 1, n => (0x30 + n % 10) :: fixed width (n / 10)

variable {n r x count : ℕ}

theorem decpair_eq (small : x < 100) : decpair x = fixed 2 x := by
  revert x
  decide

theorem hundredth_eq (small : x < 10 ^ 8) : hundredth x = x / 100 := by
  rw [hundredth, mod_eq_of_lt (by omega)]
  exact Nat.div_eq_of_lt_le (by omega) (by omega)

theorem hundredthSmall_eq (small : x < 10 ^ 4) : hundredthSmall x = x / 100 := by
  rw [hundredthSmall, mod_eq_of_lt (by omega)]
  exact Nat.div_eq_of_lt_le (by omega) (by omega)

theorem tenThousandth_eq (small : x < 1128869999) : tenThousandth (x % 2 ^ 32) = x / 10000 := by
  rw [tenThousandth, mod_eq_of_lt (by omega), mod_eq_of_lt (by omega)]
  exact Nat.div_eq_of_lt_le (by omega) (by omega)

theorem sub32_mul
    {divisor : ℕ}
    (small : x < 2 ^ 32) :
    sub32 x (divisor * (x / divisor)) = x % divisor := by
  have split := div_add_mod x divisor
  rw [sub32]
  omega

theorem digitsOf_cons (positive : 0 < n) : digitsOf n = (0x30 + n % 10) :: digitsOf (n / 10) := by
  rw [digitsOf, digits_def' (by decide) positive, map_cons, digitsOf]

theorem digitsOf_eq
    (long : 0 < n / 10 ^ count) :
    digitsOf n = fixed count n ++ digitsOf (n / 10 ^ count) := by
  induction count generalizing n with
  | zero => simp [fixed]
  | succ count inductionHypothesis =>
    rw [Nat.pow_succ', ← Nat.div_div_eq_div_mul] at long ⊢
    have positive : 0 < n := Nat.pos_of_ne_zero fun isZero => by simp [isZero] at long
    rw [digitsOf_cons positive, inductionHypothesis long]
    rfl

theorem rdropWhile_cons
    (p : ℕ → Bool)
    (rest : List ℕ) :
    (x :: rest).rdropWhile p =
    if rest.rdropWhile p = [] then [x].rdropWhile p else x :: rest.rdropWhile p := by
  simp only [rdropWhile, reverse_cons, dropWhile_append]
  split <;> simp_all

/-- The zeros in front of a short number are removed. -/
theorem rdropWhile_fixed
    (short : n < 10 ^ count) :
    (fixed count n).rdropWhile (· = 0x30) = digitsOf n := by
  induction count generalizing n with
  | zero =>
    obtain rfl : n = 0 := by omega
    simp [fixed, digitsOf]
  | succ count inductionHypothesis =>
    rw [fixed, rdropWhile_cons, inductionHypothesis (by omega)]
    rcases Nat.eq_zero_or_pos n with rfl | positive
    · simp [digitsOf]
    rw [digitsOf_cons positive]
    split
    case isTrue isNil =>
      have isZero := Nat.digits_eq_nil_iff_eq_zero.mp (map_eq_nil_iff.mp isNil)
      have nonzero : n % 10 ≠ 0 := by omega
      simp [isNil, nonzero]
    case isFalse => rfl

theorem outR_eq (positive : 0 < r) (small : r < 100) : outR r = digitsOf r := by
  rw [outR, decpair_eq small, digitsOf_cons positive]
  split
  · have isZero : r / 10 = 0 := by omega
    simp [fixed, isZero, digitsOf]
  rw [digitsOf_cons (by omega)]
  have isZero : r / 10 / 10 = 0 := by omega
  simp [fixed, isZero, digitsOf]

theorem pair_append
    (large : 100 ≤ r)
    (small : r < 2 ^ 32) :
    decpair (sub32 r (100 * (r / 100))) ++ digitsOf (r / 100) = digitsOf r := by
  rw [sub32_mul small, decpair_eq (mod_lt _ (by decide)), @digitsOf_eq r 2 (by omega)]
  have same : fixed 2 (r % 100) = fixed 2 r := by
    simp only [fixed, cons.injEq, and_true]
    omega
  rw [same]
  rfl

theorem putDecTrunc8_eq (positive : 0 < r) (small : r < 10 ^ 8) : putDecTrunc8 r = digitsOf r := by
  rw [putDecTrunc8]
  split
  · exact outR_eq positive (by assumption)
  rw [hundredth_eq small, ← pair_append (by omega) (by omega)]
  dsimp only
  congr 1
  split
  · exact outR_eq (by omega) (by assumption)
  rw [hundredth_eq (by omega), ← pair_append (by omega) (by omega)]
  congr 1
  split
  · exact outR_eq (by omega) (by assumption)
  rw [hundredthSmall_eq (by omega), ← pair_append (by omega) (by omega),
    outR_eq (by omega) (by omega)]

theorem putDecHelper4_eq
    (small : x < 1128869999)
    (same : x % 10000 = n % 10000) :
    putDecHelper4 (x % 2 ^ 32) = fixed 4 n := by
  rw [putDecHelper4, tenThousandth_eq small, mod_eq_of_lt (by omega), Nat.mul_comm,
    sub32_mul (by omega), putDecFull4, hundredthSmall_eq (by omega)]
  rw [sub32_mul (by omega), decpair_eq (mod_lt _ (by decide)), decpair_eq (by omega), same]
  simp only [fixed, cons_append, nil_append, cons.injEq, and_true]
  omega

/-- The sums of `put_dec` are small, and have its digits. -/
structure SumsSpec (n : ℕ) : Prop where
  first : (sums n).first < 1128869999 ∧ (sums n).first % 10000 = n % 10000
  second : (sums n).second < 1128869999 ∧ (sums n).second % 10000 = n / 10 ^ 4 % 10000
  third : (sums n).third < 1128869999 ∧ (sums n).third % 10000 = n / 10 ^ 8 % 10000
  last : (sums n).last < 10 ^ 8 ∧ (sums n).last = n / 10 ^ 12

theorem sums_spec (wide : n < 2 ^ 64) : SumsSpec n := by
  obtain ⟨d1, isD1⟩ : ∃ d1, d1 = n % 2 ^ 32 / 2 ^ 16 := ⟨_, rfl⟩
  obtain ⟨d2, isD2⟩ : ∃ d2, d2 = n / 2 ^ 32 % 2 ^ 16 := ⟨_, rfl⟩
  obtain ⟨d3, isD3⟩ : ∃ d3, d3 = n / 2 ^ 32 / 2 ^ 16 := ⟨_, rfl⟩
  have isSum : n = 2 ^ 48 * d3 + 2 ^ 32 * d2 + 2 ^ 16 * d1 + n % 2 ^ 16 := by omega
  have first : (sums n).first = 656 * d3 + 7296 * d2 + 5536 * d1 + n % 2 ^ 16 := by
    rw [isD1, isD2, isD3, sums]
  have second : (sums n).second = (sums n).first / 10000 + (7671 * d3 + 9496 * d2 + 6 * d1) := by
    rw [← tenThousandth_eq (by omega), isD1, isD2, isD3, sums]
  have third : (sums n).third = (sums n).second / 10000 + (4749 * d3 + 42 * d2) := by
    rw [← tenThousandth_eq (by omega), isD2, isD3, sums]
  have last : (sums n).last = (sums n).third / 10000 + 281 * d3 := by
    rw [← tenThousandth_eq (by omega), isD3, sums]
  have atSecond : n / 10 ^ 4 =
      (sums n).second + 10 ^ 4 * (4749 * d3 + 42 * d2) + 10 ^ 8 * (281 * d3) := by
    omega
  have atThird : n / 10 ^ 8 = (sums n).third + 10 ^ 4 * (281 * d3) := by omega
  have atLast : (sums n).last = n / 10 ^ 12 := by omega
  exact ⟨by omega, by omega, by omega, by omega, atLast⟩

theorem putDec_eq (positive : 0 < n) (wide : n < 2 ^ 64) : putDec n = digitsOf n := by
  have spec := sums_spec wide
  have isText : fixed 4 n ++ fixed 4 (n / 10 ^ 4) ++ fixed 4 (n / 10 ^ 8) = fixed 12 n := by
    simp [fixed, Nat.div_div_eq_div_mul]
  rw [putDec, putDecHelper4_eq spec.first.1 spec.first.2, putDecHelper4_eq spec.second.1
    spec.second.2, putDecHelper4_eq spec.third.1 spec.third.2, isText, spec.last.2,
    mod_eq_of_lt (by omega)]
  split
  · exact putDecTrunc8_eq positive (by omega)
  dsimp only
  split
  · rw [putDecTrunc8_eq (by omega) (by omega), ← digitsOf_eq (by omega)]
  · exact rdropWhile_fixed (by omega)

theorem numToStr_eq
    (wide : n < 2 ^ 64)
    (size : ℤ) :
    numToStr size n = if (decimal n).length ≤ size then some (decimal n) else none := by
  have isText : (if n ≤ 9 then [0x30 + n] else putDec n) = (decimal n).reverse := by
    rcases Nat.eq_zero_or_pos n with rfl | positive
    · rfl
    rw [decimal, if_neg positive.ne', reverse_reverse]
    split
    · have short : n / 10 = 0 := by omega
      have isDigit : n % 10 = n := by omega
      rw [digitsOf_cons positive, short, isDigit]
      simp [digitsOf]
    · exact putDec_eq positive wide
  rw [numToStr, isText, reverse_reverse, length_reverse]
  split
  · rw [if_neg (by omega)]
  · rw [if_pos (by omega)]

/--
`put_dec` writes the digits of a number and `num_to_str` its text, if it fits:
the products for quotients are exact, and no sum is cut.
-/
theorem putDec_numToStr
    (num : BitVec 64)
    (size : ℤ) :
    (num ≠ 0 → putDec num.toNat = digitsOf num.toNat) ∧ (∀ x < 10 ^ 8, hundredth x = x / 100) ∧
    (∀ x < 10 ^ 4, hundredthSmall x = x / 100) ∧
    (∀ x < 1128869999, tenThousandth (x % 2 ^ 32) = x / 10000) ∧ SumsSpec num.toNat ∧
    numToStr size num.toNat =
      if (decimal num.toNat).length ≤ size then some (decimal num.toNat) else none :=
  ⟨fun notZero => putDec_eq (by bv_omega) num.isLt, fun _ => hundredth_eq,
    fun _ => hundredthSmall_eq, fun _ => tenThousandth_eq, sums_spec num.isLt,
    numToStr_eq num.isLt size⟩

theorem putDec_numToStr_allOnes : putDec (2 ^ 64 - 1) = digitsOf (2 ^ 64 - 1) :=
  (putDec_numToStr (BitVec.allOnes 64) 24).1 (by decide)

end EchoKernel.PutDec
