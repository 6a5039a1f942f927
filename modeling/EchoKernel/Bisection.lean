import Mathlib.Data.Nat.Notation

namespace EchoKernel.Bisection

/-!
# Binary search between two indexes

The loop halves the distance of two indexes. The lower one stays before and
the upper one at or after the place where a predicate becomes false.
-/

/-- Halve the distance until the indexes are neighbours. -/
def bisect (before : ℕ → Bool) : ℕ → ℕ → ℕ → ℕ × ℕ
  | 0, lo, hi => (lo, hi)
  | fuel + 1, lo, hi =>
    if 1 < hi - lo then
      if before ((lo + hi) / 2) then bisect before fuel ((lo + hi) / 2) hi
      else bisect before fuel lo ((lo + hi) / 2)
    else (lo, hi)

/-- The search ends where the predicate becomes false. -/
theorem bisect_eq
    {before : ℕ → Bool}
    {place fuel lo hi : ℕ}
    (enough : hi - lo ≤ fuel + 1)
    (above : lo < place)
    (below : place ≤ hi)
    (divides : ∀ index, lo < index → index < hi → (before index = true ↔ index < place)) :
    bisect before fuel lo hi = (place - 1, place) := by
  induction fuel generalizing lo hi with
  | zero =>
    rw [bisect]
    congr 1 <;> omega
  | succ fuel inductionHypothesis =>
    rw [bisect]
    by_cases apart : 1 < hi - lo
    · rw [if_pos apart]
      have middle := divides ((lo + hi) / 2) (by omega) (by omega)
      by_cases isBefore : before ((lo + hi) / 2) = true
      · rw [if_pos isBefore]
        have inLower := middle.mp isBefore
        exact inductionHypothesis (by omega) inLower below (fun index fromMiddle toHigh =>
          divides index (by omega) toHigh)
      · rw [if_neg isBefore]
        have notLower := mt middle.mpr isBefore
        exact inductionHypothesis (by omega) above (by omega) (fun index fromLow toMiddle =>
          divides index fromLow (by omega))
    · rw [if_neg apart]
      congr 1 <;> omega

end EchoKernel.Bisection
