import Mathlib.Algebra.Group.Nat.Defs

namespace EchoKernel.LittleEndian

/-!
# Numbers as bytes, the low byte first
-/

/-- The low bytes of a number. -/
def encode : Nat → Nat → List (BitVec 8)
  | 0, _ => []
  | count + 1, value => BitVec.ofNat 8 value :: encode count (value / 256)

/-- The number of a list of bytes. -/
def decode : List (BitVec 8) → Nat
  | [] => 0
  | byte :: rest => byte.toNat + 256 * decode rest

@[simp]
theorem length_encode (count value : Nat) : (encode count value).length = count := by
  induction count generalizing value with
  | zero => rfl
  | succ count inductionHypothesis =>
    rw [encode, List.length_cons, inductionHypothesis]

/-- Bytes hold a number up to their size. -/
theorem decode_encode
    {count value : Nat}
    (fits : value < 256 ^ count) :
    decode (encode count value) = value := by
  induction count generalizing value with
  | zero =>
    rw [encode, decode]
    omega
  | succ count inductionHypothesis =>
    have smaller : value / 256 < 256 ^ count := by
      rw [Nat.pow_succ] at fits
      exact Nat.div_lt_of_lt_mul (by rwa [Nat.mul_comm] at fits)
    rw [encode, decode, inductionHypothesis smaller, BitVec.toNat_ofNat]
    omega

end EchoKernel.LittleEndian
