import EchoKernel.Div64

namespace EchoKernel.Div64

open BitVec hiding not_not

/-!
# Division by a 32-bit number, one bit at a time

The generic `__div64_32` of `div64.c` doubles the base until it passes what is
left, and subtracts it on the way back. `do_div` uses it for large numbers, and
`div_s64_rem` is made of `do_div`.
-/

/-- The variables of `__div64_32`. -/
structure Division where
  rem : BitVec 64
  res : BitVec 64
  b : BitVec 64
  d : BitVec 64

/-- What is done before the loops. -/
def reduce (n : BitVec 64) (base : BitVec 32) : Division :=
  let high : BitVec 32 := (n >>> 32).setWidth 32
  if base ≤ high then
    let high := high / base
    ⟨n - (high * base).setWidth 64 <<< 32, high.setWidth 64 <<< 32, base.setWidth 64, 1⟩
  else ⟨n, 0, base.setWidth 64, 1⟩

theorem zero_slt_iff
    {value : BitVec 64} :
    (0#64).slt value = true ↔ 0 < value.toNat ∧ value.toNat < 2 ^ 63 := by
  have isInt := toInt_eq_toNat_cond value
  rw [slt_iff_toInt_lt]
  change 0 < value.toInt ↔ _
  omega

/-- The loop that doubles. -/
def double (s : Division) : Division :=
  if more : (0#64).slt s.b = true ∧ s.b < s.rem then
    double { s with b := s.b + s.b, d := s.d + s.d }
  else s
termination_by 2 ^ 63 - s.b.toNat
decreasing_by
  have positive := zero_slt_iff.mp more.1
  rw [toNat_add]
  omega

/-- The body of the loop that halves. -/
def subtract (s : Division) : Division where
  rem := if s.b ≤ s.rem then s.rem - s.b else s.rem
  res := if s.b ≤ s.rem then s.res + s.d else s.res
  b := s.b >>> 1
  d := s.d >>> 1

/-- The loop that halves. -/
def halve (s : Division) : Division :=
  if more : (subtract s).d = 0 then subtract s else halve (subtract s)
termination_by s.d.toNat
decreasing_by
  have nonzero : (subtract s).d.toNat ≠ 0 := fun isZero => more (eq_of_toNat_eq isZero)
  change (s.d >>> 1).toNat ≠ 0 at nonzero
  change (s.d >>> 1).toNat < _
  rw [toNat_ushiftRight] at *
  omega

/-- `__div64_32`, with the remainder. -/
def div6432 (n : BitVec 64) (base : BitVec 32) : BitVec 64 × BitVec 32 :=
  let s := halve (double (reduce n base))
  (s.res, s.rem.setWidth 32)

/-- `do_div` of a base that is not constant, which is `div_u64_rem` on 32-bit machines. -/
def doDiv (n : BitVec 64) (base : BitVec 32) : BitVec 64 × BitVec 32 :=
  if n >>> 32 = 0 then ((n.setWidth 32 / base).setWidth 64, n.setWidth 32 % base)
  else div6432 n base

/-- `div_s64_rem`, with the remainder. -/
def divS64Rem (dividend : BitVec 64) (divisor : BitVec 32) : BitVec 64 × BitVec 32 :=
  if dividend.slt 0 then
    let quotient := doDiv (-dividend) divisor.abs
    (if (0#32).slt divisor then -quotient.1 else quotient.1, -quotient.2)
  else
    let quotient := doDiv dividend divisor.abs
    (if divisor.slt 0 then -quotient.1 else quotient.1, quotient.2)

/-- The quotient and the remainder of `__div64_32` are exact. -/
def Exact (n : BitVec 64) (base : BitVec 32) : Prop :=
  (div6432 n base).1.toNat = n.toNat / base.toNat ∧ (div6432 n base).2.toNat = n.toNat % base.toNat

/-- `div_s64_rem` truncates; the remainder has the dividend's sign. -/
def Truncated (dividend : BitVec 64) (divisor : BitVec 32) : Prop :=
  (divS64Rem dividend divisor).1.toInt = dividend.toInt.tdiv divisor.toInt ∧
    (divS64Rem dividend divisor).2.toInt = dividend.toInt.tmod divisor.toInt

/-- The doubled base, its factor, and what is divided so far. -/
structure Divided (n : BitVec 64) (base : BitVec 32) (k : Nat) (s : Division) : Prop where
  b : s.b.toNat = base.toNat * 2 ^ k
  d : s.d.toNat = 2 ^ k
  whole : s.rem.toNat + base.toNat * s.res.toNat = n.toNat

section
variable {n : BitVec 64} {base : BitVec 32} {s : Division} {k : Nat}

theorem toNat_setWidth_shiftLeft
    {value : BitVec 32} :
    (value.setWidth 64 <<< 32).toNat = value.toNat * 2 ^ 32 := by
  rw [toNat_shiftLeft, toNat_setWidth_of_le (by decide)]
  omega

theorem divided_reduce : Divided n base 0 (reduce n base) := by
  have isBase : (base.setWidth 64).toNat = base.toNat * 2 ^ 0 := by
    rw [toNat_setWidth_of_le (by decide), Nat.pow_zero, Nat.mul_one]
  rw [reduce]
  split
  case isTrue large =>
    have isHigh := @toNat_high n
    generalize (n >>> 32).setWidth 32 = high at large isHigh ⊢
    have atMost := Nat.div_mul_le_self high.toNat base.toNat
    have product : (high / base * base).toNat = high.toNat / base.toNat * base.toNat := by
      rw [toNat_mul, toNat_udiv, Nat.mod_eq_of_lt (by omega)]
    refine ⟨isBase, rfl, ?_⟩
    rw [toNat_sub_of_le, toNat_setWidth_shiftLeft, toNat_setWidth_shiftLeft, toNat_udiv,
      ← Nat.mul_assoc, Nat.mul_comm base.toNat]
    · omega
    · rw [BitVec.le_def, toNat_setWidth_shiftLeft]
      omega
  case isFalse => exact ⟨isBase, rfl, rfl⟩

section
variable (positive : 0 < base.toNat) (divided : Divided n base k s)
include positive divided

theorem divided_double :
    ∃ k, Divided n base k (double s) ∧ (double s).rem.toNat < 2 * (double s).b.toNat := by
  have isB := divided.b
  have isD := divided.d
  fun_induction double s generalizing k with
  | case1 s more inductionHypothesis =>
    have notHigh := zero_slt_iff.mp more.1
    have smaller := Nat.le_mul_of_pos_left (2 ^ k) positive
    have nextB : (s.b + s.b).toNat = base.toNat * 2 ^ (k + 1) := by
      rw [Nat.pow_succ, ← Nat.mul_assoc, toNat_add]
      omega
    have nextD : (s.d + s.d).toNat = 2 ^ (k + 1) := by
      rw [toNat_add]
      omega
    exact inductionHypothesis ⟨nextB, nextD, divided.whole⟩ nextB nextD
  | case2 s done =>
    refine ⟨k, divided, ?_⟩
    have nonzero : 0 < s.b.toNat := isB ▸ Nat.mul_pos positive (Nat.two_pow_pos k)
    rw [zero_slt_iff, BitVec.lt_def] at done
    omega

/-- The body of the loop keeps what is divided. -/
theorem divided_subtract
    (below : s.rem.toNat < 2 * s.b.toNat) :
    (subtract s).rem.toNat + base.toNat * (subtract s).res.toNat = n.toNat ∧
    (subtract s).rem.toNat < base.toNat * 2 ^ k := by
  obtain ⟨isB, isD, whole⟩ := divided
  rw [subtract]
  dsimp only
  by_cases fits : s.b ≤ s.rem
  · rw [if_pos fits, if_pos fits, toNat_sub_of_le fits]
    rw [BitVec.le_def] at fits
    have grown : s.rem.toNat - s.b.toNat + base.toNat * (s.res.toNat + s.d.toNat) = n.toNat := by
      rw [Nat.mul_add, isD]
      omega
    have small := Nat.le_mul_of_pos_left (s.res.toNat + s.d.toNat) positive
    rw [toNat_add, Nat.mod_eq_of_lt (by omega)]
    exact ⟨grown, by omega⟩
  · rw [if_neg fits, if_neg fits]
    rw [BitVec.le_def] at fits
    exact ⟨whole, by omega⟩

theorem divided_halve
    (below : s.rem.toNat < 2 * s.b.toNat) :
    (halve s).rem.toNat + base.toNat * (halve s).res.toNat =
    n.toNat ∧ (halve s).rem.toNat < base.toNat := by
  induction k generalizing s with
  | zero =>
    obtain ⟨whole, less⟩ := divided_subtract positive divided below
    have isZero : (subtract s).d = 0 := by
      refine eq_of_toNat_eq ?_
      change (s.d >>> 1).toNat = 0
      rw [toNat_ushiftRight, divided.d]
      rfl
    rw [halve, dif_pos isZero]
    rw [Nat.pow_zero, Nat.mul_one] at less
    exact ⟨whole, less⟩
  | succ k inductionHypothesis =>
    obtain ⟨whole, less⟩ := divided_subtract positive divided below
    have nextB : (subtract s).b.toNat = base.toNat * 2 ^ k := by
      change (s.b >>> 1).toNat = _
      rw [toNat_ushiftRight, divided.b, Nat.pow_succ, ← Nat.mul_assoc]
      omega
    have nextD : (subtract s).d.toNat = 2 ^ k := by
      change (s.d >>> 1).toNat = _
      rw [toNat_ushiftRight, divided.d, Nat.shiftRight_eq_div_pow]
      omega
    have notZero : (subtract s).d ≠ 0 := by
      intro isZero
      rw [isZero] at nextD
      exact absurd nextD.symm (Nat.two_pow_pos k).ne'
    rw [halve, dif_neg notZero]
    rw [Nat.pow_succ, ← Nat.mul_assoc] at less
    exact inductionHypothesis ⟨nextB, nextD, whole⟩ (by omega)

end

/-- Both loops together divide. -/
theorem exact_div6432 (positive : 0 < base.toNat) : Exact n base := by
  obtain ⟨k, divided, below⟩ := divided_double positive divided_reduce
  obtain ⟨whole, less⟩ := divided_halve positive divided below
  obtain ⟨isQuotient, isRemainder⟩ := (Nat.div_mod_unique positive).mpr ⟨whole, less⟩
  rw [Exact, div6432, toNat_setWidth, isQuotient, isRemainder, Nat.mod_eq_of_lt (by omega)]
  exact ⟨rfl, rfl⟩

/-- On a 32-bit machine `div_u64_rem` returns what a 64-bit machine's division does. -/
theorem doDiv_eq_divU64Rem (positive : 0 < base.toNat) : doDiv n base = divU64Rem n base := by
  have isWide : (base.setWidth 64).toNat = base.toNat := toNat_setWidth_of_le (by decide)
  have below : n.toNat % base.toNat < 2 ^ 32 := (Nat.mod_lt n.toNat positive).trans base.isLt
  rw [doDiv, divU64Rem]
  split
  case isTrue isSmall =>
    have small : n.toNat < 2 ^ 32 := by
      have isZero := congrArg BitVec.toNat isSmall
      rw [toNat_ushiftRight, Nat.shiftRight_eq_div_pow] at isZero
      exact Nat.lt_of_div_eq_zero (by decide) isZero
    have isNarrow : (n.setWidth 32).toNat = n.toNat := by
      rw [toNat_setWidth, Nat.mod_eq_of_lt small]
    refine Prod.ext (eq_of_toNat_eq ?_) (eq_of_toNat_eq ?_)
    · rw [toNat_setWidth_of_le (by decide), toNat_udiv, toNat_udiv, isNarrow, isWide]
    · rw [toNat_umod, isNarrow, toNat_setWidth, toNat_umod, isWide, Nat.mod_eq_of_lt below]
  case isFalse =>
    obtain ⟨isQuotient, isRemainder⟩ := @exact_div6432 n base positive
    refine Prod.ext (eq_of_toNat_eq ?_) (eq_of_toNat_eq ?_)
    · rw [isQuotient, toNat_udiv, isWide]
    · rw [isRemainder, toNat_setWidth, toNat_umod, isWide, Nat.mod_eq_of_lt below]

end

section
variable {dividend : BitVec 64} {divisor : BitVec 32}

/-- The quotient and the remainder of the absolute values, with their signs. -/
theorem divS64Rem_abs
    (notZero : divisor ≠ 0) :
    ∃ quotient remainder, divS64Rem dividend divisor =
      (if decide (dividend.toInt < 0) = decide (divisor.toInt < 0) then quotient else -quotient,
        if dividend.toInt < 0 then -remainder else remainder) ∧
    quotient.toNat = dividend.toInt.natAbs / divisor.toInt.natAbs ∧
    remainder.toNat = dividend.toInt.natAbs % divisor.toInt.natAbs ∧ remainder.toNat < 2 ^ 31 := by
  have nonzero : divisor.toInt ≠ 0 := fun isZero => notZero (eq_of_toInt_eq isZero)
  have less := Nat.mod_lt dividend.toInt.natAbs (Int.natAbs_pos.mpr nonzero)
  have low := @BitVec.le_two_mul_toInt 32 divisor
  have high := @BitVec.two_mul_toInt_lt 32 divisor
  have isRemainder : (divU64Rem (abs dividend) divisor.abs).2.toNat =
      dividend.toInt.natAbs % divisor.toInt.natAbs := by
    rw [divU64Rem, toNat_setWidth, toNat_umod, toNat_setWidth_of_le (by decide), toNat_bitVecAbs,
      toNat_abs, Nat.mod_eq_of_lt (by omega)]
  refine ⟨(divU64Rem (abs dividend) divisor.abs).1, (divU64Rem (abs dividend) divisor.abs).2,
    ?_, ?_, isRemainder, by omega⟩
  · have positive : 0 < divisor.abs.toNat := by
      rw [toNat_bitVecAbs]
      exact Int.natAbs_pos.mpr nonzero
    rw [divS64Rem, doDiv_eq_divU64Rem positive, doDiv_eq_divU64Rem positive, abs]
    simp only [BitVec.slt, decide_eq_true_eq]
    by_cases negative : dividend.toInt < 0
    · rcases Int.lt_or_gt_of_ne nonzero with below | above
      · simp [negative, below, Int.lt_asymm below]
      · simp [negative, above, Int.lt_asymm above]
    · rcases Int.lt_or_gt_of_ne nonzero with below | above
      · simp [negative, below]
      · simp [negative, Int.lt_asymm above]
  · rw [divU64Rem, toNat_udiv, toNat_setWidth_of_le (by decide), toNat_bitVecAbs, toNat_abs]

theorem truncated_divS64Rem
    (notZero : divisor ≠ 0)
    (representable : dividend.toInt.tdiv divisor.toInt < 2 ^ 63) :
    Truncated dividend divisor := by
  obtain ⟨quotient, remainder, isPair, isQuotient, isRemainder, small⟩ := divS64Rem_abs notZero
  rw [Truncated, isPair]
  constructor
  · have low := @BitVec.le_two_mul_toInt 64 dividend
    have high := @BitVec.two_mul_toInt_lt 64 dividend
    have most : dividend.toInt.natAbs / divisor.toInt.natAbs ≤ 2 ^ 63 :=
      (Nat.div_le_self _ _).trans (by omega)
    rw [tdiv_eq] at representable ⊢
    split
    case isTrue same =>
      rw [if_pos same] at representable
      exact (toInt_eq_iff most).mpr ⟨isQuotient, by omega⟩
    case isFalse => exact (toInt_neg_eq_iff most).mpr isQuotient
  · rw [← Int.natAbs_tmod] at isRemainder
    dsimp only
    split
    case isTrue negative =>
      have sign := Int.tmod_nonneg divisor.toInt (Int.neg_nonneg_of_nonpos negative.le)
      have isNat := toNat_neg remainder
      rw [Int.neg_tmod] at sign
      rw [toInt_eq_toNat_cond]
      omega
    case isFalse notNegative =>
      have sign := Int.tmod_nonneg divisor.toInt (Int.not_lt.mp notNegative)
      rw [toInt_eq_toNat_of_lt (by omega)]
      omega

end

/-- Both divisions are right whenever the quotient can be represented. -/
theorem exact_and_truncated :
    (∀ (n : BitVec 64) (base : BitVec 32), 0 < base.toNat → Exact n base) ∧
    ∀ (dividend : BitVec 64) (divisor : BitVec 32), divisor ≠ 0 →
    dividend.toInt.tdiv divisor.toInt < 2 ^ 63 → Truncated dividend divisor :=
  ⟨fun _ _ => exact_div6432, fun _ _ => truncated_divS64Rem⟩

/-- The extreme dividends. -/
theorem exact_and_truncated_smallest :
    Exact (BitVec.allOnes 64) 3 ∧ Truncated (BitVec.intMin 64) (BitVec.intMin 32) :=
  ⟨exact_and_truncated.1 _ _ (by decide), exact_and_truncated.2 _ _ (by decide) (by decide)⟩

end EchoKernel.Div64
