import EchoKernel.Div64

namespace EchoKernel.ReciprocalDiv

open Div64 BitVec Nat

/-!
# Division by a reciprocal

`reciprocal_div.c`. The divisor is replaced by two shifts and a rounded
reciprocal of 33 bits, whose leading one is not kept.
-/

/-- `struct reciprocal_value`. -/
structure ReciprocalValue where
  m : BitVec 32
  sh1 : BitVec 8
  sh2 : BitVec 8
  deriving Repr, DecidableEq

/-- `(1ULL << 32) * ((1ULL << l) - d)`. -/
def scaled (d : BitVec 32) (l : Nat) : BitVec 64 := (1#64 <<< 32) * ((1#64 <<< l) - d.setWidth 64)

/-- The value of `m` in 64 bits. -/
def reciprocal (d : BitVec 32) (l : Nat) : BitVec 64 := divU64 (scaled d l) d + 1

/-- `reciprocal_value`. -/
def reciprocalValue (d : BitVec 32) : ReciprocalValue :=
  let l := fls (d - 1)
  ⟨(reciprocal d l).setWidth 32, BitVec.ofNat 8 (min l 1), BitVec.ofNat 8 (l - 1)⟩

/-- `reciprocal_divide`. -/
def reciprocalDivide (a : BitVec 32) (R : ReciprocalValue) : BitVec 32 :=
  let t := ((a.setWidth 64 * R.m.setWidth 64) >>> 32).setWidth 32
  (t + ((a - t) >>> R.sh1.toNat)) >>> R.sh2.toNat

/-- Nothing overflows for a reciprocal of `l` bits, and it divides exactly. -/
structure Divides (d : BitVec 32) (l : Nat) : Prop where
  shifted : d.toNat ≤ 2 ^ l
  scaled : (scaled d l).toNat = 2 ^ 32 * (2 ^ l - d.toNat)
  reciprocal : (reciprocal d l).toNat = 2 ^ 32 * (2 ^ l - d.toNat) / d.toNat + 1
  kept : (reciprocalValue d).m.toNat = (ReciprocalDiv.reciprocal d l).toNat
  exact : ∀ a, (reciprocalDivide a (reciprocalValue d)).toNat = a.toNat / d.toNat

section
variable {a d l word factor : Nat}

/-- A reciprocal rounded up by little enough divides exactly. -/
theorem mul_div_eq_div
    (positive : 0 < d)
    (small : a < word)
    (above : word * 2 ^ l < factor * d)
    (near : factor * d ≤ word * 2 ^ l + 2 ^ l) :
    a * factor / (word * 2 ^ l) = a / d := by
  have split := div_add_mod a d
  have rest := mod_lt a positive
  refine Nat.div_eq_of_lt_le ?_ ?_
  · calc a / d * (word * 2 ^ l)
        ≤ a / d * (factor * d) := Nat.mul_le_mul_left _ above.le
      _ = a / d * d * factor := by ring
      _ ≤ a * factor := Nat.mul_le_mul_right _ (div_mul_le_self a d)
  refine Nat.lt_of_mul_lt_mul_right (a := d) ?_
  calc a * factor * d
      = a * (factor * d) := by ring
    _ ≤ a * (word * 2 ^ l + 2 ^ l) := Nat.mul_le_mul_left _ near
    _ = a * (word * 2 ^ l) + a * 2 ^ l := by ring
    _ < a * (word * 2 ^ l) + word * 2 ^ l :=
      Nat.add_lt_add_left (Nat.mul_lt_mul_of_pos_right small (by positivity)) _
    _ = (a + 1) * (word * 2 ^ l) := by ring
    _ ≤ (a / d + 1) * d * (word * 2 ^ l) := Nat.mul_le_mul_right _ (by
      rw [Nat.add_mul, Nat.mul_comm]
      omega)
    _ = (a / d + 1) * (word * 2 ^ l) * d := by ring

/-- The number of bits of the number below a divisor. -/
theorem fls_bounds
    {d : BitVec 32}
    (positive : 0 < d.toNat)
    (bits : fls (d - 1) = l) :
    d.toNat ≤ 2 ^ l ∧ 2 ^ l < 2 * d.toNat ∧ l ≤ 32 := by
  have below : (d - 1).toNat = d.toNat - 1 := by bv_omega
  rw [← bits, fls]
  split
  case isTrue isZero =>
    rw [isZero] at below
    change 0 = _ at below
    omega
  case isFalse notZero =>
    have nonzero : (d - 1).toNat ≠ 0 := fun isZero => notZero (eq_of_toNat_eq isZero)
    have low := log2_self_le nonzero
    have high := @lt_log2_self (d - 1).toNat
    have few : (d - 1).toNat.log2 < 32 := (log2_lt nonzero).mpr (by omega)
    omega

end

section
variable {d : BitVec 32} {l : Nat} (positive : 0 < d.toNat) (bits : fls (d - 1) = l)
include positive bits

theorem toNat_scaled : (scaled d l).toNat = 2 ^ 32 * (2 ^ l - d.toNat) := by
  obtain ⟨low, high, few⟩ := fls_bounds positive bits
  have power : (1#64 <<< l).toNat = 2 ^ l := by
    rw [toNat_shiftLeft, Nat.shiftLeft_eq]
    change 1 * _ % _ = _
    rw [Nat.one_mul, mod_eq_of_lt (by omega)]
  rw [scaled, toNat_mul, toNat_sub, toNat_setWidth_of_le (by decide)]
  change 2 ^ 32 * _ % 2 ^ 64 = _
  omega

/-- The reciprocal fits into 32 bits. -/
theorem toNat_reciprocal :
    (reciprocal d l).toNat = 2 ^ 32 * (2 ^ l - d.toNat) / d.toNat + 1 ∧
    (reciprocal d l).toNat < 2 ^ 32 := by
  obtain ⟨low, high, few⟩ := fls_bounds positive bits
  have quotient : 2 ^ 32 * (2 ^ l - d.toNat) / d.toNat < 2 ^ 32 - 1 := by
    rw [Nat.div_lt_iff_lt_mul positive]
    omega
  rw [reciprocal, toNat_add, divU64, divU64Rem, toNat_udiv, toNat_setWidth_of_le (by decide),
    toNat_scaled positive bits]
  change (_ + 1) % _ = _ ∧ (_ + 1) % _ < _
  generalize 2 ^ 32 * (2 ^ l - d.toNat) / d.toNat = rounded at quotient ⊢
  omega

theorem factor_eq : 2 ^ 32 + (reciprocal d l).toNat = 2 ^ 32 * 2 ^ l / d.toNat + 1 := by
  have low := (fls_bounds positive bits).1
  have whole : 2 ^ 32 * (2 ^ l - d.toNat) + 2 ^ 32 * d.toNat = 2 ^ 32 * 2 ^ l := by
    rw [← Nat.mul_add, Nat.sub_add_cancel low]
  rw [(toNat_reciprocal positive bits).1, ← whole, add_mul_div_right _ _ positive]
  omega

theorem toNat_reciprocalDivide
    (a : BitVec 32) :
    (reciprocalDivide a (reciprocalValue d)).toNat =
    a.toNat * (2 ^ 32 + (reciprocal d l).toNat) / (2 ^ 32 * 2 ^ l) := by
  obtain ⟨low, -, few⟩ := fls_bounds positive bits
  obtain ⟨value, fits⟩ := toNat_reciprocal positive bits
  have bound := a.isLt
  have part : ((a.setWidth 64 * (reciprocalValue d).m.setWidth 64) >>> 32).toNat =
      a.toNat * (reciprocal d l).toNat / 2 ^ 32 := by
    have product : a.toNat * (reciprocal d l).toNat < 2 ^ 64 :=
      (Nat.mul_lt_mul'' bound fits).trans_eq rfl
    rw [toNat_ushiftRight, toNat_mul, toNat_setWidth_of_le (by decide),
      toNat_setWidth_of_le (by decide), reciprocalValue, toNat_setWidth, bits,
      mod_eq_of_lt fits, mod_eq_of_lt product, shiftRight_eq_div_pow]
  have atMost : a.toNat * (reciprocal d l).toNat / 2 ^ 32 ≤ a.toNat :=
    Nat.div_le_of_le_mul (by rw [Nat.mul_comm]; exact Nat.mul_le_mul_right _ fits.le)
  rw [Nat.mul_add, ← Nat.div_div_eq_div_mul, Nat.add_comm, add_mul_div_right _ _ (by decide)]
  rw [reciprocalDivide]
  generalize (a.setWidth 64 * (reciprocalValue d).m.setWidth 64) >>> 32 = shifted at *
  have narrow : (shifted.setWidth 32).toNat = shifted.toNat := by
    rw [toNat_setWidth, mod_eq_of_lt (by omega)]
  have rest : (a - shifted.setWidth 32).toNat = a.toNat - shifted.toNat := by bv_omega
  rw [← part] at atMost ⊢
  rw [toNat_ushiftRight, toNat_add, toNat_ushiftRight, narrow, rest, reciprocalValue, bits]
  simp only [toNat_ofNat, shiftRight_eq_div_pow]
  cases l with
  | zero =>
    -- The divisor is one: the first product vanishes and nothing is shifted.
    have one : d.toNat = 1 := by omega
    rw [value, one] at part
    change (shifted.toNat + (a.toNat - shifted.toNat) / 1) % 2 ^ 32 / 1 = _ / 1
    rw [Nat.div_one]
    omega
  | succ shift =>
    have twice : 2 ^ (shift + 1) = 2 * 2 ^ shift := Nat.pow_succ'
    have small : shift < 2 ^ 8 := by omega
    rw [Nat.min_eq_right (by omega), Nat.add_sub_cancel, mod_eq_of_lt small, twice,
      ← Nat.div_div_eq_div_mul]
    congr 1
    change (shifted.toNat + (a.toNat - shifted.toNat) / 2) % 2 ^ 32 = _
    omega

end

/-- Division by a reciprocal is exact for every divisor. -/
theorem divides_of_pos {d : BitVec 32} (positive : 0 < d.toNat) : Divides d (fls (d - 1)) := by
  have low := (fls_bounds positive rfl).1
  have fits := toNat_reciprocal positive rfl
  refine ⟨low, toNat_scaled positive rfl, fits.1, ?_, ?_⟩
  · rw [reciprocalValue, toNat_setWidth, mod_eq_of_lt fits.2]
  intro a
  have split := div_add_mod (2 ^ 32 * 2 ^ fls (d - 1)) d.toNat
  have rest := mod_lt (2 ^ 32 * 2 ^ fls (d - 1)) positive
  rw [toNat_reciprocalDivide positive rfl, factor_eq positive rfl]
  refine mul_div_eq_div positive a.isLt ?_ ?_
  · rw [Nat.add_mul, Nat.mul_comm (_ / _)]
    omega
  · rw [Nat.add_mul, Nat.mul_comm (_ / _)]
    omega

theorem divides_of_pos_largest : Divides (allOnes 32) 32 := divides_of_pos (by decide)

end EchoKernel.ReciprocalDiv
