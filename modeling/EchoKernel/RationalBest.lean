import Mathlib.Tactic.Ring
import Mathlib.Tactic.Linarith
import Mathlib.Tactic.LinearCombination

namespace EchoKernel.RationalBest

open BitVec Nat

/-!
# Approximation of a fraction within bounds

`rational.c`. The convergents of the fraction are computed until one leaves
the bounds, and the one before is returned. Semi-convergents, the fractions
between two convergents, are never tried, so the result is nearest only if it
is at least as near as the largest semi-convergent within the bounds.
-/

section

/-- The arguments of `rational_best_approximation`. -/
structure Request where
  givenNumerator : BitVec 32
  givenDenominator : BitVec 32
  maxNumerator : BitVec 32
  maxDenominator : BitVec 32

/-- The loop's variables: the pair of Euclid's algorithm and two convergents. -/
structure Convergents where
  n : BitVec 32
  d : BitVec 32
  n0 : BitVec 32
  d0 : BitVec 32
  n1 : BitVec 32
  d1 : BitVec 32

/-- The body of the loop. -/
def advance (s : Convergents) : Convergents :=
  let a := s.n / s.d
  ⟨s.d, s.n % s.d, s.n1, s.d1, s.n0 + a * s.n1, s.d0 + a * s.d1⟩

/-- A rest that goes on is positive. -/
theorem toNat_pos {d : BitVec 32} (more : d ≠ 0) : 0 < d.toNat :=
  Nat.pos_of_ne_zero fun isZero => more (eq_of_toNat_eq isZero)

/-- The rest becomes smaller. -/
theorem advance_lt {s : Convergents} (more : s.d ≠ 0) : (advance s).d.toNat < s.d.toNat := by
  exact mod_lt _ (toNat_pos more)

variable (request : Request)

/-- A convergent leaves the bounds. -/
def Exceeds (s : Convergents) : Prop :=
  s.n1 > request.maxNumerator ∨ s.d1 > request.maxDenominator
  deriving Decidable

/-- The loop, from one state of its variables on. -/
def approximate (s : Convergents) : BitVec 32 × BitVec 32 :=
  if Exceeds request s then (s.n0, s.d0)
  else if more : s.d = 0 then (s.n1, s.d1) else approximate (advance s)
termination_by s.d.toNat
decreasing_by exact advance_lt more

/-- No sum of the loop overflows. -/
def NoOverflow (s : Convergents) : Prop :=
  ¬ Exceeds request s → (more : s.d ≠ 0) → s.n0.toNat + (s.n / s.d).toNat * s.n1.toNat < 2 ^ 32 ∧
    s.d0.toNat + (s.n / s.d).toNat * s.d1.toNat < 2 ^ 32 ∧ NoOverflow (advance s)
termination_by s.d.toNat
decreasing_by exact advance_lt more

/-- The variables before the loop. -/
def start : Convergents := ⟨request.givenNumerator, request.givenDenominator, 0, 1, 1, 0⟩

/-- `rational_best_approximation`: the best numerator and denominator. -/
def rationalBestApproximation : BitVec 32 × BitVec 32 := approximate request (start request)

/-- The distance of `n / d` to the fraction, times both denominators. -/
def distance (n d : Nat) : Nat :=
  (n * request.givenDenominator.toNat - request.givenNumerator.toNat * d : Int).natAbs

/-- No fraction within the bounds is nearer. -/
structure Nearest (best : BitVec 32 × BitVec 32) : Prop where
  positive : 1 ≤ best.2.toNat
  numerator : best.1.toNat ≤ request.maxNumerator.toNat
  denominator : best.2.toNat ≤ request.maxDenominator.toNat
  nearest : ∀ n d, 1 ≤ d → d ≤ request.maxDenominator.toNat → n ≤ request.maxNumerator.toNat →
    distance request best.1.toNat best.2.toNat * d ≤ distance request n d * best.2.toNat

/-- What the loop keeps: the convergents give the fraction back. -/
structure Recovers (s : Convergents) : Prop where
  numerator : s.n1.toNat * s.n.toNat + s.n0.toNat * s.d.toNat = request.givenNumerator.toNat
  denominator : s.d1.toNat * s.n.toNat + s.d0.toNat * s.d.toNat = request.givenDenominator.toNat

/-- One step of the continued fraction, over unbounded numbers. -/
structure Expansion where
  n : ℕ
  d : ℕ
  n0 : ℕ
  d0 : ℕ
  n1 : ℕ
  d1 : ℕ

/-- The next convergent `n1 / d1`. -/
def Expansion.next (e : Expansion) : Expansion :=
  ⟨e.d, e.n % e.d, e.n1, e.d1, e.n0 + e.n / e.d * e.n1, e.d0 + e.n / e.d * e.d1⟩

/-- The numbers that the variables of the loop hold. -/
def Convergents.toNat (s : Convergents) : Expansion :=
  ⟨s.n.toNat, s.d.toNat, s.n0.toNat, s.d0.toNat, s.n1.toNat, s.d1.toNat⟩

/-- The continued fraction of the given fraction, whatever the bounds are. -/
def expansion : ℕ → Expansion
  | 0 => ⟨request.givenNumerator.toNat, request.givenDenominator.toNat, 0, 1, 1, 0⟩
  | k + 1 => (expansion k).next

/-- Both parts of a fraction are within the bounds. -/
def Within (n d : ℕ) : Prop :=
  n ≤ request.maxNumerator.toNat ∧ d ≤ request.maxDenominator.toNat
  deriving Decidable

/-- The last convergent before one leaves the bounds. -/
structure Last (k : ℕ) : Prop where
  more : ∀ j < k, (expansion request j).d ≠ 0
  within : ∀ j ≤ k, Within request (expansion request j).n1 (expansion request j).d1
  ends : (expansion request k).d = 0 ∨
    ¬ Within request (expansion request (k + 1)).n1 (expansion request (k + 1)).d1

/-- The largest semi-convergent within the bounds. -/
structure Largest (e : Expansion) (t : ℕ) : Prop where
  within : Within request (e.n0 + t * e.n1) (e.d0 + t * e.d1)
  exceeds : ¬ Within request (e.n0 + (t + 1) * e.n1) (e.d0 + (t + 1) * e.d1)

/-- The convergent is a fraction, and no farther than the semi-convergent. -/
def NoFarther (e : Expansion) (t : ℕ) : Prop :=
  1 ≤ e.d1 ∧ distance request e.n1 e.d1 * (e.d0 + t * e.d1) ≤
    distance request (e.n0 + t * e.n1) (e.d0 + t * e.d1) * e.d1
  deriving Decidable

end

section
variable {request : Request} {s : Convergents}

/-- One part of the next convergent is at most the given one, and fits. -/
theorem next_part
    {n d n0 n1 total : BitVec 32}
    (more : d ≠ 0)
    (whole : n1.toNat * n.toNat + n0.toNat * d.toNat = total.toNat) :
    n0.toNat + (n / d).toNat * n1.toNat < 2 ^ 32 ∧
    (n0 + n / d * n1).toNat * d.toNat + n1.toNat * (n % d).toNat = total.toNat := by
  have split := div_add_mod n.toNat d.toNat
  have kept : (n0.toNat + n.toNat / d.toNat * n1.toNat) * d.toNat +
      n1.toNat * (n.toNat % d.toNat) = total.toNat := by
    rw [← whole]
    nth_rewrite 3 [← split]
    ring
  have atMost := Nat.le_mul_of_pos_right (n0.toNat + n.toNat / d.toNat * n1.toNat) (toNat_pos more)
  have fits : n0.toNat + n.toNat / d.toNat * n1.toNat < 2 ^ 32 := by omega
  rw [toNat_add, toNat_mul, toNat_udiv, add_mod_mod, mod_eq_of_lt fits]
  exact ⟨fits, kept⟩

section
variable (recovers : Recovers request s)
include recovers

/-- The next convergents give the fraction back. -/
theorem Recovers.advance (more : s.d ≠ 0) : Recovers request (advance s) :=
  ⟨(next_part more recovers.numerator).2, (next_part more recovers.denominator).2⟩

/-- The loop computes the next convergent. -/
theorem Recovers.toNat_advance
    (more : s.d ≠ 0) :
    (RationalBest.advance s).toNat = s.toNat.next := by
  have numerator := (next_part more recovers.numerator).1
  have denominator := (next_part more recovers.denominator).1
  simp only [RationalBest.advance, Convergents.toNat, Expansion.next, toNat_umod, toNat_add,
    toNat_mul, toNat_udiv, add_mod_mod] at *
  rw [mod_eq_of_lt numerator, mod_eq_of_lt denominator]

/-- Whatever the bounds are, nothing overflows. -/
theorem Recovers.noOverflow : NoOverflow request s := by
  fun_induction NoOverflow request s with
  | case1 s inductionHypothesis =>
    intro _ more
    exact ⟨(next_part more recovers.numerator).1, (next_part more recovers.denominator).1,
      inductionHypothesis more (recovers.advance more)⟩

end

/-- The first convergents give the fraction back. -/
theorem recovers_start : Recovers request (start request) := by
  refine ⟨?_, ?_⟩
  · change 1 * request.givenNumerator.toNat + 0 * request.givenDenominator.toNat = _
    omega
  · change 0 * request.givenNumerator.toNat + 1 * request.givenDenominator.toNat = _
    omega

/-- The loop's test of the bounds. -/
theorem exceeds_iff : Exceeds request s ↔ ¬ Within request s.n1.toNat s.d1.toNat := by
  rw [Exceeds, Within, gt_iff_lt, gt_iff_lt, lt_def, lt_def]
  omega

/-- From a convergent within the bounds on, the loop returns the last one. -/
theorem Recovers.exists_last
    {k : ℕ}
    (recovers : Recovers request s)
    (isAt : s.toNat = expansion request k)
    (more : ∀ j < k, (expansion request j).d ≠ 0)
    (within : ∀ j ≤ k, Within request (expansion request j).n1 (expansion request j).d1) :
    ∃ last, Last request last ∧
      (approximate request s).1.toNat = (expansion request last).n1 ∧
      (approximate request s).2.toNat = (expansion request last).d1 := by
  have isWithin : Within request s.n1.toNat s.d1.toNat := by
    have here := within k le_rfl
    rwa [← isAt] at here
  fun_induction RationalBest.approximate request s generalizing k with
  | case1 s exceeds => exact absurd isWithin (exceeds_iff.mp exceeds)
  | case2 s _ ended =>
    refine ⟨k, ⟨more, within, .inl ?_⟩, ?_, ?_⟩
    · rw [← isAt]
      exact congrArg BitVec.toNat ended
    · rw [← isAt]
      rfl
    · rw [← isAt]
      rfl
  | case3 s _ goesOn inductionHypothesis =>
    have isNext : (RationalBest.advance s).toNat = expansion request (k + 1) := by
      rw [recovers.toNat_advance goesOn, isAt]
      rfl
    by_cases nextWithin : Within request (RationalBest.advance s).n1.toNat
        (RationalBest.advance s).d1.toNat
    · refine inductionHypothesis (recovers.advance goesOn) isNext ?_ ?_ nextWithin
      · intro j below
        rcases Nat.lt_succ_iff_lt_or_eq.mp below with earlier | rfl
        · exact more j earlier
        · rw [← isAt]
          exact Nat.ne_of_gt (toNat_pos goesOn)
      · intro j below
        rcases Nat.le_or_eq_of_le_succ below with earlier | rfl
        · exact within j earlier
        · rw [← isNext]
          exact nextWithin
    · -- the next convergent leaves the bounds, and this one is returned
      rw [RationalBest.approximate, if_pos (exceeds_iff.mpr nextWithin)]
      refine ⟨k, ⟨more, within, .inr ?_⟩, ?_, ?_⟩
      · rw [← isNext]
        exact nextWithin
      · rw [← isAt]
        rfl
      · rw [← isAt]
        rfl

end

section
variable {request : Request} {k t : ℕ}

/-- There is one last convergent. -/
theorem Last.unique {j : ℕ} (last : Last request k) (other : Last request j) : k = j := by
  have notBefore {first second : ℕ} (first_last : Last request first)
      (second_last : Last request second) : ¬ first < second := by
    intro before
    rcases first_last.ends with ended | exceeds
    · exact second_last.more first before ended
    · exact exceeds (second_last.within (first + 1) before)
  have upper := notBefore last other
  have lower := notBefore other last
  omega

/-- Every step of the continued fraction gives the fraction back, and is unimodular. -/
theorem expansion_recovers (k : ℕ) :
    let e := expansion request k
    e.n1 * e.n + e.n0 * e.d = request.givenNumerator.toNat ∧
    e.d1 * e.n + e.d0 * e.d = request.givenDenominator.toNat ∧
    ((e.n1 * e.d0 - e.n0 * e.d1 : ℤ) = 1 ∨ (e.n1 * e.d0 - e.n0 * e.d1 : ℤ) = -1) := by
  induction k with
  | zero => simp [expansion]
  | succ k inductionHypothesis =>
    obtain ⟨numerator, denominator, unit⟩ := inductionHypothesis
    have split := div_add_mod (expansion request k).n (expansion request k).d
    rw [expansion, Expansion.next]
    generalize expansion request k = e at *
    dsimp only
    refine ⟨?_, ?_, ?_⟩
    · rw [← numerator]
      nth_rewrite 3 [← split]
      ring
    · rw [← denominator]
      nth_rewrite 3 [← split]
      ring
    · push_cast
      rcases unit with unit | unit
      · right
        linear_combination -unit
      · left
        linear_combination -unit

/-- The convergent before the last one is within the bounds too. -/
theorem Last.within_before
    (last : Last request k)
    (denominators : 1 ≤ request.maxDenominator.toNat) :
    Within request (expansion request k).n0 (expansion request k).d0 := by
  cases k with
  | zero => exact ⟨Nat.zero_le _, denominators⟩
  | succ k => exact last.within k (Nat.le_succ k)

/-- If the next convergent leaves the bounds, a semi-convergent before it is the largest. -/
theorem exists_largest
    {e : Expansion}
    {quotient : ℕ}
    (before : Within request e.n0 e.d0)
    (exceeds : ¬ Within request (e.n0 + quotient * e.n1) (e.d0 + quotient * e.d1)) :
    ∃ t, Largest request e t := by
  induction quotient with
  | zero => simp [before] at exceeds
  | succ quotient inductionHypothesis =>
    by_cases within : Within request (e.n0 + quotient * e.n1) (e.d0 + quotient * e.d1)
    · exact ⟨quotient, within, exceeds⟩
    · exact inductionHypothesis within

/-- The largest semi-convergent comes before the next convergent. -/
theorem Largest.lt
    {e : Expansion}
    {quotient : ℕ}
    (largest : Largest request e t)
    (exceeds : ¬ Within request (e.n0 + quotient * e.n1) (e.d0 + quotient * e.d1)) :
    t < quotient := by
  by_contra notBelow
  have numerator := Nat.mul_le_mul_right e.n1 (Nat.le_of_not_lt notBelow)
  have denominator := Nat.mul_le_mul_right e.d1 (Nat.le_of_not_lt notBelow)
  obtain ⟨atMost, atMost'⟩ := largest.within
  exact exceeds ⟨by omega, by omega⟩

end

/-- The coordinates of a fraction in two unimodular ones. -/
theorem exists_coordinates
    {n1 d1 n2 d2 unit : ℤ}
    (isUnit : unit * unit = 1)
    (unimodular : n1 * d2 - n2 * d1 = unit)
    (n d : ℤ) :
    ∃ u w, n = u * n1 + w * n2 ∧ d = u * d1 + w * d2 := by
  refine ⟨unit * (n * d2 - d * n2), unit * (n1 * d - d1 * n), ?_, ?_⟩
  · linear_combination (-n) * isUnit - unit * n * unimodular
  · linear_combination (-d) * isUnit - unit * d * unimodular

/--
A fraction outside the cone of two that enclose the target is no nearer than
the first of them, if the second is not.
-/
theorem mul_le_abs_of_outside
    {d1 d2 rest far u w : ℤ}
    (first : 1 ≤ d1)
    (second : 0 ≤ d2)
    (restPos : 0 ≤ rest)
    (farPos : 0 ≤ far)
    (noFarther : rest * d2 ≤ far * d1)
    (outside : ¬ (1 ≤ u ∧ 1 ≤ w)) :
    rest * (u * d1 + w * d2) ≤ |u * rest - w * far| * d1 := by
  by_cases behind : 1 ≤ w
  · -- the fraction is on the far side of the second one
    have notFirst : u ≤ 0 := by omega
    have bound : (w * far - u * rest) * d1 ≤ |u * rest - w * far| * d1 := by
      refine mul_le_mul_of_nonneg_right ?_ (by omega)
      rw [abs_sub_comm]
      exact le_abs_self _
    have scaled := mul_le_mul_of_nonneg_left noFarther (show 0 ≤ w by omega)
    have negative : u * (rest * d1) ≤ 0 :=
      mul_nonpos_of_nonpos_of_nonneg notFirst (mul_nonneg restPos (by omega))
    linarith
  · have notSecond : w ≤ 0 := by omega
    have bound : (u * rest - w * far) * d1 ≤ |u * rest - w * far| * d1 :=
      mul_le_mul_of_nonneg_right (le_abs_self _) (by omega)
    have negative : w * (rest * d2) ≤ 0 :=
      mul_nonpos_of_nonpos_of_nonneg notSecond (mul_nonneg restPos second)
    have negative' : w * (far * d1) ≤ 0 :=
      mul_nonpos_of_nonpos_of_nonneg notSecond (mul_nonneg farPos (by omega))
    linarith

/-- Inside the cone, both parts are at least those of the sum. -/
theorem next_le
    {n0 n1 t total : ℕ}
    {u w : ℤ}
    (first : 1 ≤ u)
    (second : 1 ≤ w)
    (isTotal : (total : ℤ) = u * n1 + w * (n0 + t * n1 : ℕ)) :
    n0 + (t + 1) * n1 ≤ total := by
  have one := mul_le_mul_of_nonneg_right first (Int.natCast_nonneg n1)
  have other := mul_le_mul_of_nonneg_right second (Int.natCast_nonneg (n0 + t * n1))
  have sum : n0 + (t + 1) * n1 = n0 + t * n1 + n1 := by ring
  omega

section
variable {request : Request} {k t : ℕ}

/-- The distance of a fraction with given coordinates. -/
theorem distance_eq
    {n d : ℕ}
    {u w : ℤ}
    (isNumerator : (n : ℤ) =
      u * (expansion request k).n1 + w *
      ((expansion request k).n0 + t * (expansion request k).n1 : ℕ))
    (isDenominator : (d : ℤ) =
      u * (expansion request k).d1 + w *
      ((expansion request k).d0 + t * (expansion request k).d1 : ℕ)) :
    (distance request n d : ℤ) =
      |u * (expansion request k).d -
        w * ((expansion request k).n - t * (expansion request k).d)| := by
  obtain ⟨numerator, denominator, unit⟩ := @expansion_recovers request k
  rw [distance, Int.natCast_natAbs, isNumerator, isDenominator, ← numerator, ← denominator]
  generalize expansion request k = e at *
  push_cast
  rcases unit with unit | unit
  · refine congrArg _ ?_
    linear_combination (u * e.d - w * (e.n - t * e.d)) * unit
  · rw [← abs_neg]
    refine congrArg _ ?_
    linear_combination -(u * e.d - w * (e.n - t * e.d)) * unit

/-- The convergent is nearest if it is no farther than the largest semi-convergent. -/
theorem NoFarther.nearest
    (noFarther : NoFarther request (expansion request k) t)
    (largest : Largest request (expansion request k) t)
    (early : t * (expansion request k).d ≤ (expansion request k).n)
    {n d : ℕ}
    (within : Within request n d) :
    distance request (expansion request k).n1 (expansion request k).d1 * d ≤
      distance request n d * (expansion request k).d1 := by
  obtain ⟨isFraction, noFarther⟩ := noFarther
  obtain ⟨-, -, unit⟩ := @expansion_recovers request k
  have own := @distance_eq request k t (expansion request k).n1 (expansion request k).d1 1 0
    (by ring) (by ring)
  have semi := @distance_eq request k t _ _ 0 1
    (show (((expansion request k).n0 + t * (expansion request k).n1 : ℕ) : ℤ) = _ by ring)
    (show (((expansion request k).d0 + t * (expansion request k).d1 : ℕ) : ℤ) = _ by ring)
  have isUnit : ((expansion request k).n1 *
      ((expansion request k).d0 + t * (expansion request k).d1 : ℕ) -
      ((expansion request k).n0 + t * (expansion request k).n1 : ℕ) *
      (expansion request k).d1 : ℤ) = (expansion request k).n1 * (expansion request k).d0 -
      (expansion request k).n0 * (expansion request k).d1 := by
    push_cast
    ring
  obtain ⟨u, w, isNumerator, isDenominator⟩ := exists_coordinates
    (by rcases unit with unit | unit <;> rw [unit] <;> decide) isUnit n d
  have other := distance_eq isNumerator isDenominator
  have far : (0 : ℤ) ≤ (expansion request k).n - t * (expansion request k).d := by
    have cast : (t * (expansion request k).d : ℤ) ≤ (expansion request k).n := by
      exact_mod_cast early
    omega
  rw [Int.one_mul, Int.zero_mul, Int.sub_zero, abs_of_nonneg (Int.natCast_nonneg _)] at own
  rw [Int.zero_mul, Int.one_mul, Int.zero_sub, abs_neg, abs_of_nonneg far] at semi
  have outside : ¬ (1 ≤ u ∧ 1 ≤ w) := by
    -- such a fraction is at least the next semi-convergent
    rintro ⟨first, second⟩
    exact largest.exceeds ⟨(next_le first second isNumerator).trans within.1,
      (next_le first second isDenominator).trans within.2⟩
  have cast : (distance request (expansion request k).n1 (expansion request k).d1 : ℤ) *
      ((expansion request k).d0 + t * (expansion request k).d1 : ℕ) ≤
      distance request ((expansion request k).n0 + t * (expansion request k).n1)
        ((expansion request k).d0 + t * (expansion request k).d1) * (expansion request k).d1 := by
    exact_mod_cast noFarther
  rw [own, semi] at cast
  have bound := mul_le_abs_of_outside (Int.ofNat_le.mpr isFraction) (Int.natCast_nonneg _)
    (Int.natCast_nonneg _) far cast outside
  rw [← isDenominator, ← other] at bound
  zify
  rwa [own]

/-- Nothing is nearer than the fraction itself. -/
theorem nearest_of_ended
    (ended : (expansion request k).d = 0)
    (n d : ℕ) :
    distance request (expansion request k).n1 (expansion request k).d1 * d ≤
      distance request n d * (expansion request k).d1 := by
  have own := @distance_eq request k 0 (expansion request k).n1 (expansion request k).d1 1 0
    (by ring) (by ring)
  rw [ended, Int.one_mul, Int.zero_mul, Int.sub_zero, Nat.cast_zero, abs_zero,
    Nat.cast_eq_zero] at own
  rw [own, Nat.zero_mul]
  exact Nat.zero_le _

end

/--
Nothing overflows, and the result is nearest iff the continued fraction ends
within the bounds or its last convergent within them is a fraction that is no
farther than the largest semi-convergent within them.
-/
theorem nearest_iff
    {request : Request}
    (positive : 1 ≤ request.givenDenominator.toNat)
    (numerators : 1 ≤ request.maxNumerator.toNat)
    (denominators : 1 ≤ request.maxDenominator.toNat) :
    NoOverflow request (start request) ∧
      (Nearest request (rationalBestApproximation request) ↔
        ∃ k, Last request k ∧ ((expansion request k).d = 0 ∨
          ∃ t, Largest request (expansion request k) t ∧
            NoFarther request (expansion request k) t)) := by
  refine ⟨recovers_start.noOverflow, ?_⟩
  obtain ⟨k, last, isNumerator, isDenominator⟩ := recovers_start.exists_last (k := 0) rfl
    (fun _ below => absurd below (Nat.not_lt_zero _)) fun j below => by
      rw [Nat.le_zero.mp below]
      exact ⟨numerators, Nat.zero_le _⟩
  rw [rationalBestApproximation]
  generalize approximate request (start request) = result at *
  constructor
  · intro nearest
    refine ⟨k, last, last.ends.imp_right fun exceeds => ?_⟩
    obtain ⟨t, largest⟩ := exists_largest (last.within_before denominators) exceeds
    refine ⟨t, largest, isDenominator ▸ nearest.positive, ?_⟩
    rcases Nat.eq_zero_or_pos ((expansion request k).d0 + t * (expansion request k).d1)
      with isZero | isFraction
    · rw [isZero, Nat.mul_zero]
      exact Nat.zero_le _
    · have noNearer := nearest.nearest _ _ isFraction largest.within.2 largest.within.1
      rwa [isNumerator, isDenominator] at noNearer
  · rintro ⟨other, isLast, near⟩
    obtain rfl := last.unique isLast
    obtain ⟨-, whole, -⟩ := @expansion_recovers request k
    have within := last.within k le_rfl
    refine ⟨?_, isNumerator ▸ within.1, isDenominator ▸ within.2, ?_⟩
    · rw [isDenominator]
      rcases near with ended | ⟨t, -, noFarther⟩
      · -- the denominator is then a factor of the given one
        rw [ended, Nat.mul_zero, Nat.add_zero] at whole
        exact Nat.pos_of_mul_pos_right (whole ▸ positive)
      · exact noFarther.1
    · intro n d _ atMost atMost'
      rw [isNumerator, isDenominator]
      rcases near with ended | ⟨t, largest, noFarther⟩
      · exact nearest_of_ended ended n d
      · refine noFarther.nearest largest ?_ ⟨atMost', atMost⟩
        rcases last.ends with ended | exceeds
        · rw [ended]
          exact Nat.zero_le _
        · exact Nat.mul_le_of_le_div _ _ _ (largest.lt exceeds).le

/-- The approximation of pi that the comment names is nearest. -/
theorem nearest_iff_pi :
    Nearest ⟨31415, 10000, 255, 31⟩ (rationalBestApproximation ⟨31415, 10000, 255, 31⟩) :=
  (nearest_iff (by decide) (by decide) (by decide)).2.mpr
    ⟨2, ⟨by decide, by decide, .inr (by decide)⟩, .inr ⟨4, ⟨by decide, by decide⟩, by decide⟩⟩

/-- A third is approximated by zero although a half is allowed. -/
theorem not_nearest_third : ¬ Nearest ⟨1, 3, 1, 2⟩ (rationalBestApproximation ⟨1, 3, 1, 2⟩) := by
  have isZero : rationalBestApproximation ⟨1, 3, 1, 2⟩ = (0, 1) := by
    simp [rationalBestApproximation, start, approximate, Exceeds, advance]
  rw [isZero]
  intro nearest
  exact absurd (nearest.nearest 1 2 (by decide) (by decide) (by decide)) (by decide)

end EchoKernel.RationalBest
