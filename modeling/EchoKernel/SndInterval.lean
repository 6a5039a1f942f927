import Mathlib.Data.Nat.Cast.Field
import Mathlib.Data.Nat.Cast.Order.Field
import Mathlib.Tactic.Positivity
import Mathlib.Tactic.FieldSimp
import EchoKernel.Div64
import EchoKernel.Errno

namespace EchoKernel.Sound

open BitVec Div64

/-!
# Interval arithmetic of the PCM parameters

The intervals of `pcm_lib.c`. Each bound of a result is a fraction, rounded
and cut off at `UINT_MAX`. An open bound of an operand makes that of the
result open, which loses the result zero, and `UINT_MAX` where the bound is
cut off.
-/

section
variable {limit p q : ℕ} {z : ℚ} {isOpen : Prop}

/-- A quotient with its remainder, cut off at a limit. -/
def saturated (limit p q : ℕ) : ℕ × ℕ := if limit ≤ p / q then (limit, 0) else (p / q, p % q)

theorem cast_div_of_mod_eq_zero
    (positive : 0 < q)
    (isZero : p % q = 0) :
    ((p / q : ℕ) : ℚ) = (p : ℚ) / q :=
  Nat.cast_div (Nat.dvd_of_mod_eq_zero isZero) (by positivity)

theorem cast_div_lt_of_mod_ne_zero
    (positive : 0 < q)
    (notZero : p % q ≠ 0) :
    ((p / q : ℕ) : ℚ) < (p : ℚ) / q := by
  have whole := Nat.div_add_mod p q
  rw [lt_div_iff₀ (by positivity)]
  have less : p / q * q < p := by
    rw [Nat.mul_comm]
    omega
  exact_mod_cast less

theorem lt_cast_div_succ (positive : 0 < q) : (p : ℚ) / q < ((p / q + 1 : ℕ) : ℚ) := by
  rw [div_lt_iff₀ (by positivity)]
  have less : p < (p / q + 1) * q := by
    rw [← Nat.div_lt_iff_lt_mul positive]
    omega
  exact_mod_cast less

/-- A lower bound rounded down loses zero only. -/
theorem lower_iff
    (positive : 0 < q)
    (atLeast : (p : ℚ) / q ≤ z)
    (atMost : z ≤ limit)
    (strict : isOpen → z ≠ 0 → (p : ℚ) / q < z) :
    ((saturated limit p q).1 : ℚ) ≤ z ∧
    ((saturated limit p q).2 ≠ 0 ∨ isOpen → ((saturated limit p q).1 : ℚ) < z) ↔
    (isOpen → z ≠ 0) := by
  have floor : ((p / q : ℕ) : ℚ) ≤ (p : ℚ) / q := Nat.cast_div_le
  rw [saturated]
  by_cases cut : limit ≤ p / q
  · have cutCast : (limit : ℚ) ≤ ((p / q : ℕ) : ℚ) := by exact_mod_cast cut
    rw [if_pos cut]
    constructor
    · rintro ⟨_, less⟩ opened
      exact absurd (less (.inr opened)) (not_lt.mpr atMost)
    intro notZero
    refine ⟨by linarith, ?_⟩
    rintro (isZero | opened)
    · exact absurd rfl isZero
    · have less := strict opened (notZero opened)
      linarith
  rw [if_neg cut]
  by_cases isZero : p % q = 0
  · have exact := cast_div_of_mod_eq_zero positive isZero
    rw [exact]
    constructor
    · rintro ⟨_, less⟩ opened
      have below := less (.inr opened)
      linarith
    intro notZero
    refine ⟨atLeast, ?_⟩
    rintro (remains | opened)
    · exact absurd isZero remains
    · exact strict opened (notZero opened)
  · have less := cast_div_lt_of_mod_ne_zero positive isZero
    constructor
    · intro _ _
      linarith
    · intro _
      exact ⟨by linarith, fun _ => by linarith⟩

/-- The upper bound, one up when there is a remainder. -/
def roundedUp (limit p q : ℕ) : ℕ :=
  if (saturated limit p q).2 ≠ 0 then (saturated limit p q).1 + 1
  else (saturated limit p q).1

/-- An upper bound rounded up loses zero and the limit only. -/
theorem upper_iff
    (positive : 0 < q)
    (below : z ≤ (p : ℚ) / q)
    (atMost : z ≤ limit)
    (strict : isOpen → z ≠ 0 → z < (p : ℚ) / q) :
    z ≤ (roundedUp limit p q : ℚ) ∧
    ((saturated limit p q).2 ≠ 0 ∨ isOpen → z < (roundedUp limit p q : ℚ)) ↔
    (isOpen → (z = 0 → p ≠ 0) ∧ z ≠ limit) := by
  have up := @lt_cast_div_succ p q positive
  rw [roundedUp, saturated]
  by_cases cut : limit ≤ p / q
  · rw [if_pos cut]
    constructor
    · rintro ⟨_, less⟩ opened
      have lessLimit := less (.inr opened)
      refine ⟨?_, lessLimit.ne⟩
      rintro isZero rfl
      rw [isZero] at lessLimit
      rw [Nat.zero_div] at cut
      have limitZero : limit = 0 := by omega
      rw [limitZero] at lessLimit
      exact absurd lessLimit (by simp)
    · intro kept
      refine ⟨atMost, ?_⟩
      rintro (isZero | opened)
      · exact absurd rfl isZero
      · exact lt_of_le_of_ne atMost (kept opened).2
  rw [if_neg cut]
  have room : ((p / q : ℕ) : ℚ) + 1 ≤ limit := by
    have bound : p / q + 1 ≤ limit := by omega
    exact_mod_cast bound
  rw [Nat.cast_succ] at up
  by_cases isZero : p % q = 0
  · have exact := cast_div_of_mod_eq_zero positive isZero
    rw [if_neg (by simpa using isZero), exact]
    constructor
    · rintro ⟨_, less⟩ opened
      have isLess := less (.inr opened)
      refine ⟨?_, by linarith⟩
      rintro zIsZero rfl
      rw [zIsZero] at isLess
      simp at isLess
    intro kept
    refine ⟨below, ?_⟩
    rintro (remains | opened)
    · exact absurd isZero remains
    by_cases zIsZero : z = 0
    · have pPositive := Nat.pos_of_ne_zero ((kept opened).1 zIsZero)
      rw [zIsZero]
      positivity
    · exact strict opened zIsZero
  · rw [if_pos (by simpa using isZero), Nat.cast_succ]
    constructor
    · intro _ _
      refine ⟨?_, by linarith⟩
      rintro _ rfl
      exact absurd rfl isZero
    · intro _
      exact ⟨by linarith, fun _ => by linarith⟩

end

section
variable {l m u v x y k : ℚ}

theorem mul_div_le_mul_div
    (lNonneg : 0 ≤ l)
    (mNonneg : 0 ≤ m)
    (lLe : l ≤ x)
    (mLe : m ≤ y)
    (kPositive : 0 < k) :
    l * m / k ≤ x * y / k :=
  div_le_div_of_nonneg_right (mul_le_mul lLe mLe mNonneg (lNonneg.trans lLe)) kPositive.le

theorem mul_div_lt_mul_div
    (lNonneg : 0 ≤ l)
    (mNonneg : 0 ≤ m)
    (lLe : l ≤ x)
    (mLe : m ≤ y)
    (kPositive : 0 < k)
    (xPositive : 0 < x)
    (yPositive : 0 < y)
    (less : l < x ∨ m < y) :
    l * m / k < x * y / k := by
  refine div_lt_div_of_pos_right ?_ kPositive
  rcases less with less | less
  · calc l * m ≤ l * y := mul_le_mul_of_nonneg_left mLe lNonneg
      _ < x * y := mul_lt_mul_of_pos_right less yPositive
  · calc l * m ≤ x * m := mul_le_mul_of_nonneg_right lLe mNonneg
      _ < x * y := mul_lt_mul_of_pos_left less xPositive

theorem mul_div_le_of_divisor
    (xNonneg : 0 ≤ x)
    (kPositive : 0 < k)
    (lLe : l ≤ x)
    (yPositive : 0 < y)
    (yLe : y ≤ v) :
    l * k / v ≤ x * k / y :=
  div_le_div₀ (mul_nonneg xNonneg kPositive.le)
    (mul_le_mul_of_nonneg_right lLe kPositive.le) yPositive yLe

theorem mul_div_lt_of_divisor
    (xPositive : 0 < x)
    (kPositive : 0 < k)
    (lLe : l ≤ x)
    (yPositive : 0 < y)
    (yLe : y ≤ v)
    (less : l < x ∨ y < v) :
    l * k / v < x * k / y := by
  rcases less with less | less
  · exact div_lt_div₀ (mul_lt_mul_of_pos_right less kPositive) yLe
      (mul_nonneg xPositive.le kPositive.le) yPositive
  · exact div_lt_div₀' (mul_le_mul_of_nonneg_right lLe kPositive.le) less
      (mul_pos xPositive kPositive) yPositive

end

def uintMax : BitVec 32 := BitVec.allOnes 32

/-- `struct snd_interval`. -/
structure SndInterval where
  min : BitVec 32
  max : BitVec 32
  openmin : Bool
  openmax : Bool
  integer : Bool
  empty : Bool
deriving Repr, DecidableEq

/-- `div32`, with the remainder. -/
def div32 (a b : BitVec 32) : BitVec 32 × BitVec 32 :=
  if b = 0 then (uintMax, 0) else (a / b, a % b)

/-- `div_down`. -/
def divDown (a b : BitVec 32) : BitVec 32 := if b = 0 then uintMax else a / b

/-- `mul`, which saturates. -/
def mul (a b : BitVec 32) : BitVec 32 :=
  if a = 0 then 0
  else if divDown uintMax a < b then uintMax
  else a * b

/-- `muldiv32`, with the remainder. -/
def muldiv32 (a b c : BitVec 32) : BitVec 32 × BitVec 32 :=
  let n : BitVec 64 := a.setWidth 64 * b.setWidth 64
  if c = 0 then (uintMax, 0)
  else if uintMax.setWidth 64 ≤ (divU64Rem n c).1 then (uintMax, 0)
  else ((divU64Rem n c).1.setWidth 32, (divU64Rem n c).2)

/-- `snd_interval_none`. -/
def sndIntervalNone (i : SndInterval) : SndInterval := { i with empty := true }

/-- The upper bound from a quotient and its remainder. -/
def upperBound (quotient : BitVec 32 × BitVec 32) (isOpen : Bool) : BitVec 32 × Bool :=
  if quotient.2 ≠ 0 then (quotient.1 + 1, true) else (quotient.1, isOpen)

/-- The upper bound of a quotient, from the divisor's lower one. -/
def quotientBound (min : BitVec 32) (quotient : BitVec 32 × BitVec 32)
    (isOpen : Bool) : BitVec 32 × Bool :=
  if 0 < min then upperBound quotient isOpen else (uintMax, false)

/-- `snd_interval_mul`; the third interval is overwritten. -/
def sndIntervalMul (a b c : SndInterval) : SndInterval :=
  if a.empty || b.empty then sndIntervalNone c
  else
    { empty := false
      min := mul a.min b.min
      openmin := a.openmin || b.openmin
      max := mul a.max b.max
      openmax := a.openmax || b.openmax
      integer := a.integer && b.integer }

/-- `snd_interval_div`. -/
def sndIntervalDiv (a b c : SndInterval) : SndInterval :=
  if a.empty || b.empty then sndIntervalNone c
  else
    let lower := div32 a.min b.max
    let upper := quotientBound b.min (div32 a.max b.min) (a.openmax || b.openmin)
    { empty := false
      min := lower.1
      openmin := lower.2 ≠ 0 || a.openmin || b.openmax
      max := upper.1
      openmax := upper.2
      integer := false }

/-- `snd_interval_muldivk`. -/
def sndIntervalMuldivk (a b : SndInterval) (k : BitVec 32) (c : SndInterval) : SndInterval :=
  if a.empty || b.empty then sndIntervalNone c
  else
    let lower := muldiv32 a.min b.min k
    let upper := upperBound (muldiv32 a.max b.max k) (a.openmax || b.openmax)
    { empty := false
      min := lower.1
      openmin := lower.2 ≠ 0 || a.openmin || b.openmin
      max := upper.1
      openmax := upper.2
      integer := false }

/-- `snd_interval_mulkdiv`. -/
def sndIntervalMulkdiv (a : SndInterval) (k : BitVec 32) (b c : SndInterval) : SndInterval :=
  if a.empty || b.empty then sndIntervalNone c
  else
    let lower := muldiv32 a.min k b.max
    let upper := quotientBound b.min (muldiv32 a.max k b.min) (a.openmax || b.openmin)
    { empty := false
      min := lower.1
      openmin := lower.2 ≠ 0 || a.openmin || b.openmax
      max := upper.1
      openmax := upper.2
      integer := false }

section
variable {a b c : SndInterval} {x y z : ℚ}

/-- A number is not below a bound. -/
def InLower (bound : BitVec 32) (isOpen : Bool) (x : ℚ) : Prop :=
  (bound.toNat : ℚ) ≤ x ∧ (isOpen = true → (bound.toNat : ℚ) < x)

/-- A number is not above a bound. -/
def InUpper (bound : BitVec 32) (isOpen : Bool) (x : ℚ) : Prop :=
  x ≤ (bound.toNat : ℚ) ∧ (isOpen = true → x < (bound.toNat : ℚ))

def SndInterval.Mem (i : SndInterval) (x : ℚ) : Prop :=
  i.empty = false ∧ InLower i.min i.openmin x ∧ InUpper i.max i.openmax x ∧
    (i.integer = true → (x.num : ℚ) = x)

instance (i : SndInterval) (x : ℚ) : Decidable (i.Mem x) := by
  unfold SndInterval.Mem InLower InUpper
  infer_instance

theorem SndInterval.Mem.nonneg (inside : a.Mem x) : 0 ≤ x :=
  le_trans (Nat.cast_nonneg _) inside.2.1.1

end

section
variable {a b c : BitVec 32} {quotient : BitVec 32 × BitVec 32} {p q : ℕ} {z : ℚ} {isOpen : Bool}

/-- The words hold a quotient, cut off at `UINT_MAX`, and remainder. -/
def Saturated (quotient : BitVec 32 × BitVec 32) (p q : ℕ) : Prop :=
  (quotient.1.toNat, quotient.2.toNat) = saturated uintMax.toNat p q

theorem toNat_uintMax : uintMax.toNat = 2 ^ 32 - 1 := rfl

theorem toNat_ne_zero (notZero : a ≠ 0) : 0 < a.toNat := by
  refine Nat.pos_of_ne_zero ?_
  intro isZero
  exact notZero (eq_of_toNat_eq isZero)

theorem saturated_div32 (notZero : b ≠ 0) : Saturated (div32 a b) a.toNat b.toNat := by
  have positive := toNat_ne_zero notZero
  rw [Saturated, div32, if_neg notZero, saturated, toNat_udiv, toNat_umod, toNat_uintMax]
  by_cases cut : 2 ^ 32 - 1 ≤ a.toNat / b.toNat
  · rw [if_pos cut]
    have whole := Nat.div_add_mod a.toNat b.toNat
    have atMost : a.toNat / b.toNat ≤ a.toNat := Nat.div_le_self _ _
    have isMax : a.toNat / b.toNat = 2 ^ 32 - 1 := by omega
    have least : 2 ^ 32 - 1 ≤ b.toNat * (a.toNat / b.toNat) := by
      rw [isMax]
      exact Nat.le_mul_of_pos_left _ positive
    rw [Prod.mk.injEq]
    exact ⟨isMax, by omega⟩
  · rw [if_neg cut]

theorem saturated_mul : Saturated (mul a b, 0) (a.toNat * b.toNat) 1 := by
  rw [Saturated, mul, saturated, Nat.div_one, Nat.mod_one, toNat_uintMax]
  by_cases isZero : a = 0
  · rw [isZero]
    simp
  rw [if_neg isZero]
  have positive := toNat_ne_zero isZero
  have tooLarge : divDown uintMax a < b ↔ 2 ^ 32 - 1 < a.toNat * b.toNat := by
    rw [divDown, if_neg isZero, lt_def, toNat_udiv,
      toNat_uintMax, Nat.div_lt_iff_lt_mul positive, Nat.mul_comm]
  by_cases large : divDown uintMax a < b
  · rw [if_pos large, if_pos (tooLarge.mp large).le]
    rfl
  rw [if_neg large]
  rw [tooLarge] at large
  rw [toNat_mul, Nat.mod_eq_of_lt (by omega)]
  split
  · rw [Prod.mk.injEq]
    exact ⟨by omega, rfl⟩
  · rfl

theorem saturated_muldiv32
    (notZero : c ≠ 0) :
    Saturated (muldiv32 a b c) (a.toNat * b.toNat) c.toNat := by
  have positive := toNat_ne_zero notZero
  have small := Nat.mod_lt (a.toNat * b.toNat) positive
  have fits : a.toNat * b.toNat < 2 ^ 64 :=
    calc a.toNat * b.toNat < 2 ^ 32 * 2 ^ 32 :=
          Nat.mul_lt_mul'' a.isLt b.isLt
      _ = 2 ^ 64 := by decide
  have isProduct : (a.setWidth 64 * b.setWidth 64).toNat = a.toNat * b.toNat := by
    rw [toNat_mul, toNat_setWidth_of_le (by decide),
      toNat_setWidth_of_le (by decide), Nat.mod_eq_of_lt fits]
  have isQuotient : (divU64Rem (a.setWidth 64 * b.setWidth 64) c).1.toNat =
      a.toNat * b.toNat / c.toNat := by
    rw [divU64Rem, toNat_udiv, isProduct, toNat_setWidth_of_le (by decide)]
  have isRemainder : (divU64Rem (a.setWidth 64 * b.setWidth 64) c).2.toNat =
      a.toNat * b.toNat % c.toNat := by
    rw [divU64Rem, toNat_setWidth, toNat_umod, isProduct,
      toNat_setWidth_of_le (by decide), Nat.mod_eq_of_lt (by omega)]
  have isCut : uintMax.setWidth 64 ≤ (divU64Rem (a.setWidth 64 * b.setWidth 64) c).1 ↔
      2 ^ 32 - 1 ≤ a.toNat * b.toNat / c.toNat := by
    rw [le_def, isQuotient]
    rfl
  rw [Saturated, muldiv32, saturated, toNat_uintMax, if_neg notZero]
  by_cases cut : uintMax.setWidth 64 ≤ (divU64Rem (a.setWidth 64 * b.setWidth 64) c).1
  · rw [if_pos cut, if_pos (isCut.mp cut)]
    rfl
  rw [if_neg cut, if_neg (by rwa [isCut] at cut)]
  rw [isCut] at cut
  rw [toNat_setWidth, isQuotient, isRemainder, Nat.mod_eq_of_lt (by omega)]

/-- The rounded lower bound loses zero only, where it is open. -/
theorem inLower_iff
    (isSaturated : Saturated quotient p q)
    (positive : 0 < q)
    (atLeast : (p : ℚ) / q ≤ z)
    (atMost : z ≤ uintMax.toNat)
    (strict : isOpen = true → z ≠ 0 → (p : ℚ) / q < z) :
    InLower quotient.1 (quotient.2 ≠ 0 || isOpen) z ↔ (isOpen = true → z ≠ 0) := by
  have general := lower_iff positive atLeast atMost strict
  rw [← isSaturated] at general
  rw [← general, InLower]
  have isZero : quotient.2 ≠ 0 ↔ quotient.2.toNat ≠ 0 := by
    rw [not_iff_not, ← toNat_inj]
    rfl
  rw [Bool.or_eq_true, decide_eq_true_iff, isZero]

/-- The rounded upper bound loses zero and `UINT_MAX` only. -/
theorem inUpper_iff
    (isSaturated : Saturated quotient p q)
    (positive : 0 < q)
    (below : z ≤ (p : ℚ) / q)
    (atMost : z ≤ uintMax.toNat)
    (strict : isOpen = true → z ≠ 0 → z < (p : ℚ) / q) :
    InUpper (upperBound quotient isOpen).1 (upperBound quotient isOpen).2 z ↔
    (isOpen = true → (z = 0 → p ≠ 0) ∧ z ≠ uintMax.toNat) := by
  have general := upper_iff positive below atMost strict
  have isRounded := isSaturated
  rw [Saturated, saturated] at isRounded
  rw [roundedUp, ← isSaturated] at general
  rw [← general, InUpper, upperBound]
  have isZero : quotient.2 ≠ 0 ↔ quotient.2.toNat ≠ 0 := by
    rw [not_iff_not, ← toNat_inj]
    rfl
  by_cases remains : quotient.2 ≠ 0
  · have isNext : (quotient.1 + 1).toNat = quotient.1.toNat + 1 := by
      rw [isZero] at remains
      change (quotient.1.toNat + 1) % 2 ^ 32 = _
      split at isRounded
      · rw [Prod.mk.injEq] at isRounded
        omega
      · rw [Prod.mk.injEq] at isRounded
        omega
    rw [if_pos remains, if_pos (isZero.mp remains), isNext]
    simp [isZero.mp remains, true_or]
  · rw [if_neg remains, if_neg (by rwa [isZero] at remains)]
    rw [isZero] at remains
    simp [remains]

end

section
variable {a b c : SndInterval} {k : BitVec 32} {x y : ℚ} {factor : ℕ}

/--
An open bound of an operand takes neither zero nor, where the upper bound is
cut off, `UINT_MAX` away.
-/
structure Kept (lowOpen highOpen : Bool) (high : ℕ) (z : ℚ) : Prop where
  low : lowOpen = true → z ≠ 0
  high : highOpen = true → (z = 0 → high ≠ 0) ∧ z ≠ uintMax.toNat

theorem kept_iff
    {lowOpen highOpen : Bool}
    {high : ℕ}
    {z : ℚ} :
    Kept lowOpen highOpen high z ↔
    (lowOpen = true → z ≠ 0) ∧ (highOpen = true → (z = 0 → high ≠ 0) ∧ z ≠ uintMax.toNat) :=
  ⟨fun kept => ⟨kept.low, kept.high⟩, fun both => ⟨both.1, both.2⟩⟩

theorem SndInterval.Mem.pos (inside : a.Mem x) (notZero : x ≠ 0) : 0 < x :=
  lt_of_le_of_ne inside.nonneg notZero.symm

section
variable (inA : a.Mem x) (inB : b.Mem y)
include inA inB

/-- Both lower bounds' quotient is below a product. -/
theorem lower_of_product
    {divisor : ℕ}
    (positive : 0 < divisor) :
    ((a.min.toNat * b.min.toNat : ℕ) : ℚ) / divisor ≤ x * y / divisor ∧
    ((a.openmin || b.openmin) = true → x * y / divisor ≠ 0 →
    ((a.min.toNat * b.min.toNat : ℕ) : ℚ) / divisor < x * y / divisor) := by
  have divisorPositive : (0 : ℚ) < divisor := by exact_mod_cast positive
  rw [Nat.cast_mul]
  refine ⟨mul_div_le_mul_div (Nat.cast_nonneg _) (Nat.cast_nonneg _)
    inA.2.1.1 inB.2.1.1 divisorPositive, ?_⟩
  intro opened notZero
  rw [div_ne_zero_iff, mul_ne_zero_iff] at notZero
  rw [Bool.or_eq_true] at opened
  exact mul_div_lt_mul_div (Nat.cast_nonneg _) (Nat.cast_nonneg _)
    inA.2.1.1 inB.2.1.1 divisorPositive (inA.pos notZero.1.1)
    (inB.pos notZero.1.2) (opened.imp inA.2.1.2 inB.2.1.2)

/-- Both upper bounds' quotient is above a product. -/
theorem upper_of_product
    {divisor : ℕ}
    (positive : 0 < divisor) :
    x * y / divisor ≤ ((a.max.toNat * b.max.toNat : ℕ) : ℚ) / divisor ∧
    ((a.openmax || b.openmax) = true → x * y / divisor ≠ 0 →
    x * y / divisor < ((a.max.toNat * b.max.toNat : ℕ) : ℚ) / divisor) := by
  have divisorPositive : (0 : ℚ) < divisor := by exact_mod_cast positive
  rw [Nat.cast_mul]
  refine ⟨mul_div_le_mul_div inA.nonneg inB.nonneg inA.2.2.1.1 inB.2.2.1.1 divisorPositive, ?_⟩
  intro opened notZero
  rw [div_ne_zero_iff, mul_ne_zero_iff] at notZero
  rw [Bool.or_eq_true] at opened
  exact mul_div_lt_mul_div inA.nonneg inB.nonneg inA.2.2.1.1 inB.2.2.1.1 divisorPositive
    (lt_of_lt_of_le (inA.pos notZero.1.1) inA.2.2.1.1)
    (lt_of_lt_of_le (inB.pos notZero.1.2) inB.2.2.1.1) (opened.imp inA.2.2.1.2 inB.2.2.1.2)

/-- The dividend's lower bound by the divisor's upper one. -/
theorem lower_of_quotient
    (factorPositive : 0 < factor)
    (yPositive : 0 < y) :
    ((a.min.toNat * factor : ℕ) : ℚ) / b.max.toNat ≤ x * factor / y ∧
    ((a.openmin || b.openmax) = true → x * factor / y ≠ 0 →
    ((a.min.toNat * factor : ℕ) : ℚ) / b.max.toNat < x * factor / y) := by
  have positive : (0 : ℚ) < factor := by exact_mod_cast factorPositive
  rw [Nat.cast_mul]
  refine ⟨mul_div_le_of_divisor inA.nonneg positive inA.2.1.1 yPositive inB.2.2.1.1, ?_⟩
  intro opened notZero
  rw [div_ne_zero_iff, mul_ne_zero_iff] at notZero
  rw [Bool.or_eq_true] at opened
  exact mul_div_lt_of_divisor (inA.pos notZero.1.1) positive inA.2.1.1
    yPositive inB.2.2.1.1 (opened.imp inA.2.1.2 inB.2.2.1.2)

/-- The dividend's upper bound by the divisor's lower one. -/
theorem upper_of_quotient
    (factorPositive : 0 < factor)
    (minPositive : 0 < b.min.toNat) :
    x * factor / y ≤ ((a.max.toNat * factor : ℕ) : ℚ) / b.min.toNat ∧
    ((a.openmax || b.openmin) = true → x * factor / y ≠ 0 →
    x * factor / y < ((a.max.toNat * factor : ℕ) : ℚ) / b.min.toNat) := by
  have positive : (0 : ℚ) < factor := by exact_mod_cast factorPositive
  have minCast : (0 : ℚ) < b.min.toNat := by exact_mod_cast minPositive
  rw [Nat.cast_mul]
  refine ⟨mul_div_le_of_divisor (Nat.cast_nonneg _) positive inA.2.2.1.1 minCast inB.2.1.1, ?_⟩
  intro opened notZero
  rw [div_ne_zero_iff, mul_ne_zero_iff] at notZero
  rw [Bool.or_eq_true] at opened
  exact mul_div_lt_of_divisor (lt_of_lt_of_le (inA.pos notZero.1.1) inA.2.2.1.1) positive
    inA.2.2.1.1 minCast inB.2.1.1 (opened.imp inA.2.2.1.2 inB.2.1.2)

theorem SndInterval.Mem.operands : (a.empty || b.empty) = false := by
  rw [inA.1, inB.1]
  rfl

end

theorem toNat_max_pos (inB : b.Mem y) (yPositive : 0 < y) : 0 < b.max.toNat := by
  have atMost := lt_of_lt_of_le yPositive inB.2.2.1.1
  exact_mod_cast atMost

theorem product_integer
    (xInteger : (x.num : ℚ) = x)
    (yInteger : (y.num : ℚ) = y) :
    ((x * y).num : ℚ) = x * y := by
  rw [← xInteger, ← yInteger, ← Int.cast_mul, Rat.num_intCast]

theorem mem_mul_iff
    (inA : a.Mem x)
    (inB : b.Mem y)
    (atMost : x * y ≤ uintMax.toNat) :
    (sndIntervalMul a b c).Mem (x * y) ↔
    Kept (a.openmin || b.openmin) (a.openmax || b.openmax) (a.max.toNat * b.max.toNat) (x * y) := by
  have isOne : x * y / (1 : ℕ) = x * y := by rw [Nat.cast_one, div_one]
  have lower := lower_of_product inA inB Nat.one_pos
  have upper := upper_of_product inA inB Nat.one_pos
  rw [isOne] at lower upper
  rw [sndIntervalMul, inA.operands inB, if_neg Bool.false_ne_true, kept_iff,
    ← inLower_iff saturated_mul Nat.one_pos lower.1 atMost lower.2,
    ← inUpper_iff saturated_mul Nat.one_pos upper.1 atMost upper.2]
  constructor
  · rintro ⟨_, low, high, _⟩
    exact ⟨low, high⟩
  rintro ⟨low, high⟩
  refine ⟨rfl, low, high, ?_⟩
  intro integers
  rw [Bool.and_eq_true] at integers
  exact product_integer (inA.2.2.2 integers.1) (inB.2.2.2 integers.2)

theorem mem_bounds_iff
    {min max : BitVec 32}
    {openmin openmax : Bool}
    {z : ℚ} :
    (SndInterval.mk min max openmin openmax false false).Mem z ↔ InLower min openmin z ∧
    InUpper max openmax z := by
  constructor
  · rintro ⟨_, low, high, _⟩
    exact ⟨low, high⟩
  · rintro ⟨low, high⟩
    exact ⟨rfl, low, high, fun integers => absurd integers (by simp)⟩

section
variable (inA : a.Mem x) (inB : b.Mem y)
include inA inB

theorem mem_muldivk_iff
    (notZero : k ≠ 0)
    (atMost : x * y / k.toNat ≤ uintMax.toNat) :
    (sndIntervalMuldivk a b k c).Mem (x * y / k.toNat) ↔
    Kept (a.openmin || b.openmin) (a.openmax || b.openmax)
    (a.max.toNat * b.max.toNat) (x * y / k.toNat) := by
  have positive := toNat_ne_zero notZero
  have lower := lower_of_product inA inB positive
  have upper := upper_of_product inA inB positive
  rw [sndIntervalMuldivk, inA.operands inB, if_neg Bool.false_ne_true]
  rw [mem_bounds_iff, kept_iff, Bool.or_assoc,
    inLower_iff (saturated_muldiv32 notZero) positive lower.1 atMost lower.2,
    inUpper_iff (saturated_muldiv32 notZero) positive upper.1 atMost upper.2]

/--
The upper bound of a quotient: that of the dividend by the divisor's lower
one, or `UINT_MAX` when the divisor can be arbitrarily small.
-/
theorem inUpper_quotient_iff
    {quotient : BitVec 32 × BitVec 32}
    (factorPositive : 0 < factor)
    (atMost : x * factor / y ≤ uintMax.toNat)
    (isSaturated : b.min ≠ 0 → Saturated quotient (a.max.toNat * factor) b.min.toNat) :
    InUpper (quotientBound b.min quotient (a.openmax || b.openmin)).1
    (quotientBound b.min quotient (a.openmax || b.openmin)).2 (x * factor / y) ↔
    ((b.min ≠ 0 && (a.openmax || b.openmin)) = true →
    (x * factor / y = 0 → a.max.toNat * factor ≠ 0) ∧ x * factor / y ≠ uintMax.toNat) := by
  rw [quotientBound]
  by_cases isZero : b.min = 0
  · simp only [isZero, ne_eq, not_true_eq_false, decide_false,
      Bool.false_and, Bool.false_eq_true, false_imp_iff, iff_true]
    exact ⟨atMost, fun opened => absurd opened (by simp)⟩
  have positive := toNat_ne_zero isZero
  have upper := upper_of_quotient inA inB factorPositive positive
  have isPositive : 0 < b.min := lt_def.mpr (by simpa using positive)
  rw [if_pos isPositive, inUpper_iff (isSaturated isZero) positive upper.1 atMost upper.2]
  simp only [ne_eq, isZero, not_false_eq_true, decide_true, Bool.true_and]

theorem mem_mulkdiv_iff
    (notZero : k ≠ 0)
    (yPositive : 0 < y)
    (atMost : x * k.toNat / y ≤ uintMax.toNat) :
    (sndIntervalMulkdiv a k b c).Mem (x * k.toNat / y) ↔ Kept (a.openmin || b.openmax)
    (b.min ≠ 0 && (a.openmax || b.openmin)) (a.max.toNat * k.toNat) (x * k.toNat / y) := by
  have positive := toNat_ne_zero notZero
  have maxPositive := toNat_max_pos inB yPositive
  have maxNotZero : b.max ≠ 0 := by bv_omega
  have lower := lower_of_quotient inA inB positive yPositive
  rw [sndIntervalMulkdiv, inA.operands inB, if_neg Bool.false_ne_true]
  rw [mem_bounds_iff, kept_iff, Bool.or_assoc,
    inLower_iff (saturated_muldiv32 maxNotZero) maxPositive lower.1 atMost lower.2,
    inUpper_quotient_iff inA inB positive atMost saturated_muldiv32]

theorem mem_div_iff
    (yPositive : 0 < y)
    (atMost : x / y ≤ uintMax.toNat) :
    (sndIntervalDiv a b c).Mem (x / y) ↔
    Kept (a.openmin || b.openmax) (b.min ≠ 0 && (a.openmax || b.openmin)) a.max.toNat (x / y) := by
  have isOne : x * (1 : ℕ) / y = x / y := by rw [Nat.cast_one, mul_one]
  have maxPositive := toNat_max_pos inB yPositive
  have maxNotZero : b.max ≠ 0 := by bv_omega
  have lower := lower_of_quotient inA inB Nat.one_pos yPositive
  have upper := inUpper_quotient_iff inA inB Nat.one_pos
    (by rwa [isOne]) (by rw [Nat.mul_one]; exact saturated_div32)
  rw [isOne, Nat.mul_one] at lower upper
  rw [sndIntervalDiv, inA.operands inB, if_neg Bool.false_ne_true]
  rw [mem_bounds_iff, kept_iff, Bool.or_assoc,
    inLower_iff (saturated_div32 maxNotZero) maxPositive lower.1 atMost lower.2, upper]

end

end

/--
Each operation keeps the exact result of two members, apart from what an open
bound of an operand takes away.
-/
theorem interval_sound_iff
    {a b c : SndInterval}
    {k : BitVec 32}
    {x y : ℚ}
    (inA : a.Mem x)
    (inB : b.Mem y)
    (notZero : k ≠ 0) :
    (x * y ≤ uintMax.toNat →
    ((sndIntervalMul a b c).Mem (x * y) ↔ Kept (a.openmin || b.openmin) (a.openmax || b.openmax)
    (a.max.toNat * b.max.toNat) (x * y))) ∧ (0 < y → x / y ≤ uintMax.toNat →
    ((sndIntervalDiv a b c).Mem (x / y) ↔ Kept (a.openmin || b.openmax)
    (b.min ≠ 0 && (a.openmax || b.openmin)) a.max.toNat (x / y))) ∧
    (x * y / k.toNat ≤ uintMax.toNat → ((sndIntervalMuldivk a b k c).Mem (x * y / k.toNat) ↔
    Kept (a.openmin || b.openmin) (a.openmax || b.openmax)
    (a.max.toNat * b.max.toNat) (x * y / k.toNat))) ∧
    (0 < y → x * k.toNat / y ≤ uintMax.toNat → ((sndIntervalMulkdiv a k b c).Mem (x * k.toNat / y) ↔
    Kept (a.openmin || b.openmax) (b.min ≠ 0 && (a.openmax || b.openmin))
    (a.max.toNat * k.toNat) (x * k.toNat / y))) :=
  ⟨mem_mul_iff inA inB, mem_div_iff inA inB, mem_muldivk_iff inA inB notZero,
    mem_mulkdiv_iff inA inB notZero⟩

theorem interval_sound_iff_halves :
    (SndInterval.mk 1 3 true false false false).Mem (3 / 2) ∧
    (SndInterval.mk 0 1 false false false false).Mem (1 / 2) ∧
    (sndIntervalMul (.mk 1 3 true false false false) (.mk 0 1 false false false false)
    (.mk 0 0 false false false false)).Mem (3 / 2 * (1 / 2)) := by
  have inA : (SndInterval.mk 1 3 true false false false).Mem (3 / 2) := by decide +kernel
  have inB : (SndInterval.mk 0 1 false false false false).Mem (1 / 2) := by decide +kernel
  refine ⟨inA, inB, ?_⟩
  refine ((@interval_sound_iff _ _ _ 1 _ _ inA inB (by decide)).1 (by decide +kernel)).mpr ?_
  exact ⟨fun _ => by decide +kernel, fun opened => absurd opened (by decide)⟩

/-- Zero times two is lost, as the second factor's lower bound is open. -/
theorem not_mem_zeroTimesTwo :
    (SndInterval.mk 0 1 false false false false).Mem 0 ∧
    (SndInterval.mk 1 3 true false false false).Mem 2 ∧
    ¬(sndIntervalMul (.mk 0 1 false false false false) (.mk 1 3 true false false false)
    (.mk 0 0 false false false false)).Mem (0 * 2) := by
  decide +kernel

end EchoKernel.Sound
