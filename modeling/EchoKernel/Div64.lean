import Mathlib.Tactic.Ring
import Mathlib.Tactic.Linarith

namespace EchoKernel.Div64

open BitVec hiding not_not

/-!
# Division of 64-bit numbers on 32-bit machines

`div64.c`. The quotient is estimated from the leading bits and corrected by at
most one. The estimate is never too small, but for some numbers too large by
more than one, as one bit too few of the divisor is kept.
-/

section
variable {dividend divisor shift : Nat}

theorem div_le_estimate
    (kept : 0 < divisor / 2 ^ shift) :
    dividend / divisor ≤ dividend / 2 ^ shift / (divisor / 2 ^ shift) := by
  rw [Nat.le_div_iff_mul_le kept, Nat.le_div_iff_mul_le (by positivity)]
  calc dividend / divisor * (divisor / 2 ^ shift) * 2 ^ shift
      = dividend / divisor * (divisor / 2 ^ shift * 2 ^ shift) := by ring
    _ ≤ dividend / divisor * divisor := Nat.mul_le_mul_left _ (Nat.div_mul_le_self _ _)
    _ ≤ dividend := Nat.div_mul_le_self _ _

/-- The estimate is at most one too large if few bits are dropped. -/
theorem estimate_le_iff
    (kept : 0 < divisor / 2 ^ shift) :
    dividend / 2 ^ shift / (divisor / 2 ^ shift) ≤ dividend / divisor + 1 ↔
    (dividend / divisor + 2) * (divisor % 2 ^ shift) + dividend % divisor <
    2 * divisor + dividend % 2 ^ shift := by
  have splitDividend := Nat.div_add_mod dividend (2 ^ shift)
  have splitDivisor := Nat.div_add_mod divisor (2 ^ shift)
  have quotient := Nat.div_add_mod dividend divisor
  rw [← Nat.lt_succ_iff, Nat.div_lt_iff_lt_mul kept]
  have scale : 0 < 2 ^ shift := by positivity
  rw [← Nat.mul_lt_mul_left scale]
  have expanded : 2 ^ shift * ((dividend / divisor + 1).succ * (divisor / 2 ^ shift)) +
      (dividend / divisor + 2) * (divisor % 2 ^ shift) =
      dividend / divisor * divisor + 2 * divisor := by
    calc 2 ^ shift * ((dividend / divisor + 1).succ * (divisor / 2 ^ shift)) +
          (dividend / divisor + 2) * (divisor % 2 ^ shift)
        = (dividend / divisor + 2) * (2 ^ shift * (divisor / 2 ^ shift) + divisor % 2 ^ shift) := by
          rw [Nat.succ_eq_add_one]
          ring
      _ = dividend / divisor * divisor + 2 * divisor := by
        rw [splitDivisor]
        ring
  have swapped : dividend / divisor * divisor = divisor * (dividend / divisor) := Nat.mul_comm _ _
  constructor
  · omega
  · omega

end

/-- `fls`. -/
def fls (value : BitVec 32) : Nat := if value = 0 then 0 else value.toNat.log2 + 1

/-- `div_u64_rem` by the machine's own division, with the remainder. -/
def divU64Rem (dividend : BitVec 64) (divisor : BitVec 32) : BitVec 64 × BitVec 32 :=
  (dividend / divisor.setWidth 64, (dividend % divisor.setWidth 64).setWidth 32)

/-- `div_u64`. -/
def divU64 (dividend : BitVec 64) (divisor : BitVec 32) : BitVec 64 :=
  (divU64Rem dividend divisor).1

/-- `div64_u64_rem`, with the remainder. -/
def div64U64Rem (dividend divisor : BitVec 64) : BitVec 64 × BitVec 64 :=
  let high := (divisor >>> 32).setWidth 32
  if high = 0 then
    let quot := divU64Rem dividend (divisor.setWidth 32)
    (quot.1, quot.2.setWidth 64)
  else
    let n := 1 + fls high
    let quot := divU64 (dividend >>> n) ((divisor >>> n).setWidth 32)
    let quot := if quot ≠ 0 then quot - 1 else quot
    let remainder := dividend - quot * divisor
    if divisor ≤ remainder then (quot + 1, remainder - divisor)
    else (quot, remainder)

/-- `div64_u64`. -/
def div64U64 (dividend divisor : BitVec 64) : BitVec 64 :=
  let high := (divisor >>> 32).setWidth 32
  if high = 0 then divU64 dividend (divisor.setWidth 32)
  else
    let n := 1 + fls high
    let quot := divU64 (dividend >>> n) ((divisor >>> n).setWidth 32)
    let quot := if quot ≠ 0 then quot - 1 else quot
    if divisor ≤ dividend - quot * divisor then quot + 1 else quot

/-- `abs` of a `long long`. -/
def abs (value : BitVec 64) : BitVec 64 := if value.slt 0 then -value else value

/-- `div64_s64`. -/
def div64S64 (dividend divisor : BitVec 64) : BitVec 64 :=
  let quot := div64U64 (abs dividend) (abs divisor)
  let t := (dividend ^^^ divisor).sshiftRight 63
  (quot ^^^ t) - t

section
variable {dividend divisor : BitVec 64}

/-- The number of bits dropped from both numbers. -/
def dropped (divisor : BitVec 64) : Nat := 1 + fls ((divisor >>> 32).setWidth 32)

/-- The quotient from the bits that are kept. -/
def estimate (dividend divisor : BitVec 64) : Nat :=
  dividend.toNat / 2 ^ dropped divisor / (divisor.toNat / 2 ^ dropped divisor)

theorem toNat_high : ((divisor >>> 32).setWidth 32 : BitVec 32).toNat = divisor.toNat / 2 ^ 32 := by
  rw [toNat_setWidth, toNat_ushiftRight]
  omega

theorem high_eq_zero_iff :
    ((divisor >>> 32).setWidth 32 : BitVec 32) = 0 ↔ divisor.toNat < 2 ^ 32 := by
  rw [← toNat_inj, toNat_high]
  change divisor.toNat / 2 ^ 32 = 0 ↔ _
  omega

/-- Between 30 and 31 bits of the divisor are kept. -/
theorem kept_bounds
    (large : 2 ^ 32 ≤ divisor.toNat) :
    2 ^ 30 ≤ divisor.toNat / 2 ^ dropped divisor ∧ divisor.toNat / 2 ^ dropped divisor < 2 ^ 31 ∧
    2 ≤ dropped divisor := by
  have notZero : ((divisor >>> 32).setWidth 32 : BitVec 32) ≠ 0 := by
    rw [Ne, high_eq_zero_iff]
    omega
  have highNotZero : divisor.toNat / 2 ^ 32 ≠ 0 := by omega
  have isDropped : dropped divisor = (divisor.toNat / 2 ^ 32).log2 + 2 := by
    rw [dropped, fls, if_neg notZero, toNat_high]
    omega
  have atLeast := Nat.log2_self_le highNotZero
  have below := @Nat.lt_log2_self (divisor.toNat / 2 ^ 32)
  rw [isDropped]
  refine ⟨?_, ?_, by omega⟩
  · rw [Nat.le_div_iff_mul_le (by positivity), Nat.pow_add]
    omega
  · rw [Nat.div_lt_iff_lt_mul (by positivity), Nat.pow_add]
    omega

theorem divU64_kept
    (large : 2 ^ 32 ≤ divisor.toNat) :
    (divU64 (dividend >>> dropped divisor)
    ((divisor >>> dropped divisor).setWidth 32)).toNat = estimate dividend divisor := by
  obtain ⟨_, below, _⟩ := kept_bounds large
  rw [divU64, divU64Rem, toNat_udiv, toNat_setWidth, toNat_setWidth, toNat_ushiftRight,
    toNat_ushiftRight, Nat.shiftRight_eq_div_pow, Nat.shiftRight_eq_div_pow, estimate]
  have fits : divisor.toNat / 2 ^ dropped divisor < 2 ^ 32 := by omega
  rw [Nat.mod_eq_of_lt fits, Nat.mod_eq_of_lt (by omega)]

theorem estimate_lt (large : 2 ^ 32 ≤ divisor.toNat) : estimate dividend divisor < 2 ^ 62 := by
  obtain ⟨_, _, twice⟩ := kept_bounds large
  calc estimate dividend divisor
      ≤ dividend.toNat / 2 ^ dropped divisor := Nat.div_le_self _ _
    _ ≤ dividend.toNat / 2 ^ 2 :=
      Nat.div_le_div_left (Nat.pow_le_pow_right (by decide) twice) (by decide)
    _ < 2 ^ 62 := by omega

/-- The quotient before it is corrected. -/
def lowered (quot : BitVec 64) : BitVec 64 := if quot ≠ 0 then quot - 1 else quot

theorem toNat_lowered {quot : BitVec 64} : (lowered quot).toNat = quot.toNat - 1 := by
  rw [lowered]
  split
  case isTrue notZero =>
    have positive : quot.toNat ≠ 0 := by
      intro isZero
      exact notZero (eq_of_toNat_eq isZero)
    change (2 ^ 64 - 1 + quot.toNat) % 2 ^ 64 = _
    omega
  case isFalse isZero =>
    rw [not_not] at isZero
    rw [isZero]
    rfl

/-- The quotient and the remainder after the correction. -/
def corrected (dividend divisor quot : BitVec 64) : BitVec 64 × BitVec 64 :=
  if divisor ≤ dividend - quot * divisor then (quot + 1, dividend - quot * divisor - divisor)
  else (quot, dividend - quot * divisor)

/-- A quotient one too small at most is corrected. -/
theorem corrected_eq
    {quot : BitVec 64}
    (atMost : quot.toNat ≤ dividend.toNat / divisor.toNat)
    (atLeast : dividend.toNat / divisor.toNat ≤ quot.toNat + 1)
    (positive : 0 < divisor.toNat) :
    corrected dividend divisor quot = (dividend / divisor, dividend % divisor) := by
  have split := Nat.div_add_mod dividend.toNat divisor.toNat
  have small := Nat.mod_lt dividend.toNat positive
  have product : quot.toNat * divisor.toNat ≤ divisor.toNat * (dividend.toNat / divisor.toNat) := by
    rw [Nat.mul_comm]
    exact Nat.mul_le_mul_left _ atMost
  have isRemainder : (dividend - quot * divisor).toNat =
      dividend.toNat - quot.toNat * divisor.toNat := by
    rw [toNat_sub, toNat_mul]
    omega
  have isLe : divisor ≤ dividend - quot * divisor ↔
      divisor.toNat ≤ dividend.toNat - quot.toNat * divisor.toNat := by
    rw [le_def, isRemainder]
  rw [corrected]
  rcases Nat.eq_or_lt_of_le atMost with same | less
  · have isProduct : quot.toNat * divisor.toNat =
        divisor.toNat * (dividend.toNat / divisor.toNat) := by
      rw [same, Nat.mul_comm]
    rw [if_neg (by rw [isLe]; omega), Prod.mk.injEq]
    constructor
    · exact eq_of_toNat_eq (by rw [toNat_udiv, same])
    refine eq_of_toNat_eq ?_
    rw [toNat_umod]
    omega
  have isQuotient : dividend.toNat / divisor.toNat = quot.toNat + 1 := by
    omega
  have isProduct : quot.toNat * divisor.toNat + divisor.toNat =
      divisor.toNat * (dividend.toNat / divisor.toNat) := by
    rw [isQuotient]
    ring
  have quotBound : dividend.toNat / divisor.toNat ≤ dividend.toNat := Nat.div_le_self _ _
  rw [if_pos (isLe.mpr (by omega)), Prod.mk.injEq]
  constructor
  · refine eq_of_toNat_eq ?_
    rw [toNat_udiv, isQuotient]
    change (quot.toNat + 1) % 2 ^ 64 = _
    omega
  · refine eq_of_toNat_eq ?_
    rw [toNat_umod, toNat_sub]
    omega

/-- The correction adds one at most. -/
theorem corrected_fst
    {quot : BitVec 64}
    (small : quot.toNat < 2 ^ 62) :
    (corrected dividend divisor quot).1.toNat = quot.toNat ∨
    (corrected dividend divisor quot).1.toNat = quot.toNat + 1 := by
  rw [corrected]
  split
  · refine .inr ?_
    change (quot.toNat + 1) % 2 ^ 64 = _
    omega
  · exact .inl rfl

theorem div64U64Rem_of_large
    (large : 2 ^ 32 ≤ divisor.toNat) :
    div64U64Rem dividend divisor =
    corrected dividend divisor (lowered (divU64 (dividend >>> dropped divisor)
    ((divisor >>> dropped divisor).setWidth 32))) := by
  have notZero : ((divisor >>> 32).setWidth 32 : BitVec 32) ≠ 0 := by
    rw [Ne, high_eq_zero_iff]
    omega
  rw [div64U64Rem]
  rw [if_neg notZero]
  rfl

theorem div64U64Rem_of_small
    (small : divisor.toNat < 2 ^ 32)
    (positive : 0 < divisor.toNat) :
    div64U64Rem dividend divisor = (dividend / divisor, dividend % divisor) := by
  have isZero := high_eq_zero_iff.mpr small
  have same : (divisor.setWidth 32).setWidth 64 = divisor := by
    refine eq_of_toNat_eq ?_
    rw [toNat_setWidth, toNat_setWidth]
    omega
  have less := Nat.mod_lt dividend.toNat positive
  rw [div64U64Rem]
  rw [if_pos isZero, divU64Rem, same, Prod.mk.injEq]
  refine ⟨rfl, eq_of_toNat_eq ?_⟩
  rw [toNat_setWidth, toNat_setWidth, toNat_umod]
  omega

theorem div64U64_eq : div64U64 dividend divisor = (div64U64Rem dividend divisor).1 := by
  rw [div64U64, div64U64Rem]
  by_cases isZero : ((divisor >>> 32).setWidth 32 : BitVec 32) = 0
  · rw [if_pos isZero, if_pos isZero]
    rfl
  · rw [if_neg isZero, if_neg isZero]
    rw [apply_ite Prod.fst]

/-- The divisor has 32 bits at most, or few of its bits are dropped compared to the quotient. -/
def Near (dividend divisor : BitVec 64) : Prop :=
  divisor.toNat < 2 ^ 32 ∨ (dividend.toNat / divisor.toNat + 2) *
          (divisor.toNat % 2 ^ dropped divisor) + dividend.toNat % divisor.toNat <
      2 * divisor.toNat + dividend.toNat % 2 ^ dropped divisor

theorem div64U64Rem_of_near
    (near : Near dividend divisor)
    (positive : 0 < divisor.toNat) :
    div64U64Rem dividend divisor = (dividend / divisor, dividend % divisor) := by
  by_cases small : divisor.toNat < 2 ^ 32
  · exact div64U64Rem_of_small small positive
  have large : 2 ^ 32 ≤ divisor.toNat := by omega
  have kept : 0 < divisor.toNat / 2 ^ dropped divisor :=
    Nat.lt_of_lt_of_le (by decide) (kept_bounds large).1
  have lower := @div_le_estimate dividend.toNat _ _ kept
  have upper := (estimate_le_iff kept).mpr (near.resolve_left small)
  have isEstimate := @divU64_kept dividend _ large
  rw [← estimate] at lower upper
  rw [div64U64Rem_of_large large]
  refine corrected_eq ?_ ?_ positive
  · rw [toNat_lowered, isEstimate]
    exact Nat.sub_le_iff_le_add.mpr upper
  · rw [toNat_lowered]
    omega

theorem near_of_div64U64
    (exact : (div64U64Rem dividend divisor).1.toNat = dividend.toNat / divisor.toNat) :
    Near dividend divisor := by
  by_cases small : divisor.toNat < 2 ^ 32
  · exact .inl small
  refine .inr ?_
  have large : 2 ^ 32 ≤ divisor.toNat := by omega
  have kept : 0 < divisor.toNat / 2 ^ dropped divisor :=
    Nat.lt_of_lt_of_le (by decide) (kept_bounds large).1
  have isEstimate := @divU64_kept dividend _ large
  have bound := @estimate_lt dividend _ large
  rw [div64U64Rem_of_large large] at exact
  have isCorrected :=
    @corrected_fst dividend divisor (lowered (divU64 (dividend >>> dropped divisor)
      ((divisor >>> dropped divisor).setWidth 32))) (by rw [toNat_lowered]; omega)
  rw [toNat_lowered] at isCorrected
  refine (estimate_le_iff kept).mp ?_
  rw [← estimate]
  omega

end

section
variable {dividend divisor : BitVec 64}

theorem toNat_bitVecAbs {w : Nat} {value : BitVec w} : value.abs.toNat = value.toInt.natAbs := by
  have bound := value.isLt
  rw [BitVec.toNat_abs, toInt_eq_msb_cond]
  split
  · omega
  · omega

theorem toNat_abs {value : BitVec 64} : (abs value).toNat = value.toInt.natAbs := by
  rw [← toNat_bitVecAbs, BitVec.abs, ← slt_zero_eq_msb]
  rfl

theorem sshiftRight_of_msb
    {value : BitVec 64}
    (negative : value.msb = true) :
    value.sshiftRight 63 = -1 := by
  rw [msb_eq_toInt, decide_eq_true_iff] at negative
  have bound := @BitVec.le_two_mul_toInt 64 value
  refine eq_of_toInt_eq ?_
  rw [toInt_sshiftRight, Int.shiftRight_eq_div_pow]
  change value.toInt / 2 ^ 63 = -1
  omega

theorem sshiftRight_of_not_msb
    {value : BitVec 64}
    (positive : value.msb = false) :
    value.sshiftRight 63 = 0 := by
  rw [msb_eq_toInt, decide_eq_false_iff_not] at positive
  have bound := @BitVec.two_mul_toInt_lt 64 value
  refine eq_of_toInt_eq ?_
  rw [toInt_sshiftRight, Int.shiftRight_eq_div_pow]
  change value.toInt / 2 ^ 63 = 0
  omega

/-- The mask changes the sign when the signs differ. -/
theorem div64S64_eq :
    div64S64 dividend divisor = if dividend.msb = divisor.msb then
    div64U64 (abs dividend) (abs divisor) else -div64U64 (abs dividend) (abs divisor) := by
  rw [div64S64]
  generalize div64U64 (abs dividend) (abs divisor) = quot
  split
  case isTrue same =>
    rw [sshiftRight_of_not_msb (by rw [msb_xor, same, Bool.xor_self])]
    simp
  case isFalse differ =>
    rw [sshiftRight_of_msb (by simpa using differ)]
    have isNot : quot ^^^ -1 = ~~~quot := by
      rw [← xor_allOnes]
      rfl
    rw [isNot, BitVec.sub_eq_add_neg, neg_eq_not_add quot]
    rfl

theorem toInt_eq_iff
    {quot : BitVec 64}
    {quotient : Nat}
    (bound : quotient ≤ 2 ^ 63) :
    quot.toInt = quotient ↔ quot.toNat = quotient ∧ quotient ≠ 2 ^ 63 := by
  have isInt := toInt_eq_toNat_cond quot
  omega

theorem toInt_neg_eq_iff
    {quot : BitVec 64}
    {quotient : Nat}
    (bound : quotient ≤ 2 ^ 63) :
    (-quot).toInt = -quotient ↔ quot.toNat = quotient := by
  have isInt := toInt_eq_toNat_cond (-quot)
  have isNat := toNat_neg quot
  omega

theorem tdiv_eq
    {dividend divisor : Int} :
    dividend.tdiv divisor = if decide (dividend < 0) = decide (divisor < 0) then
    ((dividend.natAbs / divisor.natAbs : Nat) : Int) else
    -((dividend.natAbs / divisor.natAbs : Nat) : Int) := by
  cases dividend <;> cases divisor <;>
    simp [Int.tdiv, Int.negSucc_lt_zero, Int.not_lt.mpr (Int.natCast_nonneg _)]

/-- The quotient of absolute values is too large in one case only. -/
theorem natAbs_div_eq_iff
    (notZero : divisor ≠ 0) :
    dividend.msb = divisor.msb ∧
    dividend.toInt.natAbs / divisor.toInt.natAbs = 2 ^ 63 ↔ dividend = BitVec.intMin 64 ∧
    divisor = -1 := by
  have bound := @BitVec.le_two_mul_toInt 64 dividend
  have upper := @BitVec.two_mul_toInt_lt 64 dividend
  have divisorNotZero : divisor.toInt ≠ 0 := by
    intro isZero
    exact notZero (eq_of_toInt_eq isZero)
  constructor
  · rintro ⟨same, isQuotient⟩
    have isOne : divisor.toInt.natAbs = 1 := by
      by_contra notOne
      have atMost : dividend.toInt.natAbs / divisor.toInt.natAbs ≤ dividend.toInt.natAbs / 2 :=
        Nat.div_le_div_left (by omega) (by decide)
      omega
    rw [isOne] at isQuotient
    have isMin : dividend.toInt = -2 ^ 63 := by omega
    have isNegative : divisor.toInt < 0 := by
      rw [msb_eq_toInt, msb_eq_toInt, decide_eq_decide] at same
      omega
    constructor
    · refine eq_of_toInt_eq ?_
      rw [isMin]
      decide
    · refine eq_of_toInt_eq ?_
      change divisor.toInt = -1
      omega
  · rintro ⟨isMin, isMinusOne⟩
    rw [isMin, isMinusOne]
    decide

/-- The signed quotient is exact if the unsigned one is and it fits. -/
theorem div64S64_toInt_iff
    (notZero : divisor ≠ 0) :
    (div64S64 dividend divisor).toInt =
    dividend.toInt.tdiv divisor.toInt ↔ (div64U64 (abs dividend) (abs divisor)).toNat =
    (abs dividend).toNat / (abs divisor).toNat ∧ ¬(dividend = BitVec.intMin 64 ∧ divisor = -1) := by
  have bound := @BitVec.le_two_mul_toInt 64 dividend
  have upper := @BitVec.two_mul_toInt_lt 64 dividend
  have atMost : dividend.toInt.natAbs / divisor.toInt.natAbs ≤ 2 ^ 63 :=
    Nat.le_trans (Nat.div_le_self _ _) (by omega)
  rw [← natAbs_div_eq_iff notZero, div64S64_eq, tdiv_eq, toNat_abs, toNat_abs,
    ← msb_eq_toInt, ← msb_eq_toInt]
  split
  case isTrue same =>
    rw [toInt_eq_iff atMost]
    simp [same]
  case isFalse differ =>
    rw [toInt_neg_eq_iff atMost]
    simp [differ, and_true]

end

/--
All three functions divide exactly when few bits of the divisor are dropped;
the signed quotient has to fit into 64 bits as well.
-/
theorem div64_exact_iff
    {dividend divisor : BitVec 64}
    (notZero : divisor ≠ 0) :
    ((div64U64 dividend divisor).toNat = dividend.toNat / divisor.toNat ∧
    (div64U64Rem dividend divisor).1.toNat = dividend.toNat / divisor.toNat ∧
    (div64U64Rem dividend divisor).2.toNat = dividend.toNat % divisor.toNat ↔
    Near dividend divisor) ∧ ((div64S64 dividend divisor).toInt =
    dividend.toInt.tdiv divisor.toInt ↔ Near (abs dividend) (abs divisor) ∧
    ¬(dividend = BitVec.intMin 64 ∧ divisor = -1)) := by
  have positive : 0 < divisor.toNat := by
    refine Nat.pos_of_ne_zero ?_
    intro isZero
    exact notZero (eq_of_toNat_eq isZero)
  have absPositive : 0 < (abs divisor).toNat := by
    rw [toNat_abs, Int.natAbs_pos]
    intro isZero
    exact notZero (eq_of_toInt_eq isZero)
  constructor
  · constructor
    · rintro ⟨_, isQuotient, _⟩
      exact near_of_div64U64 isQuotient
    intro near
    rw [div64U64_eq, div64U64Rem_of_near near positive]
    exact ⟨toNat_udiv, toNat_udiv, toNat_umod⟩
  · rw [div64S64_toInt_iff notZero, div64U64_eq]
    refine and_congr_left' ⟨near_of_div64U64, ?_⟩
    intro near
    rw [div64U64Rem_of_near near absPositive]
    exact toNat_udiv

theorem div64_exact_iff_largeDivisor :
    (BitVec.ofNat 64 (2 ^ 32) ≠ 0) ∧
    ((div64U64 (BitVec.ofNat 64 (2 ^ 63 + 5)) (BitVec.ofNat 64 (2 ^ 32))).toNat =
    (BitVec.ofNat 64 (2 ^ 63 + 5)).toNat / (BitVec.ofNat 64 (2 ^ 32)).toNat ∧
    (div64U64Rem (BitVec.ofNat 64 (2 ^ 63 + 5)) (BitVec.ofNat 64 (2 ^ 32))).1.toNat =
    (BitVec.ofNat 64 (2 ^ 63 + 5)).toNat / (BitVec.ofNat 64 (2 ^ 32)).toNat ∧
    (div64U64Rem (BitVec.ofNat 64 (2 ^ 63 + 5)) (BitVec.ofNat 64 (2 ^ 32))).2.toNat =
    (BitVec.ofNat 64 (2 ^ 63 + 5)).toNat % (BitVec.ofNat 64 (2 ^ 32)).toNat) :=
  ⟨by decide, (div64_exact_iff (by decide)).1.mpr (.inr (by decide +kernel))⟩

/-- The estimate is two too large; the wrapped remainder hides it. -/
theorem not_exact_threeAbove :
    (div64U64 (BitVec.ofNat 64 (2 ^ 64 - 1)) (BitVec.ofNat 64 (2 ^ 32 + 3))).toNat ≠
    (BitVec.ofNat 64 (2 ^ 64 - 1)).toNat / (BitVec.ofNat 64 (2 ^ 32 + 3)).toNat := by
  decide +kernel

end EchoKernel.Div64
