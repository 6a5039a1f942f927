import Mathlib.Tactic.Linarith

namespace EchoKernel.LoadAvg

/-!
# The utilisation of a scheduling entity

The part of `__update_load_avg` in `fair.c` for `util_sum` and `util_avg`. An
addition that does not fit into 32 bits has no result.
-/

/-- The fields of `struct sched_avg` for the utilisation. -/
structure SchedAvg where
  lastUpdateTime : BitVec 64
  utilSum : ℕ
  periodContrib : ℕ
  utilAvg : ℕ

/-- The arguments of a call and the capacities it reads. -/
structure Call where
  now : BitVec 64
  running : Bool
  scaleFreq : Fin 1025
  scaleCpu : Fin 1025

/-- `runnable_avg_yN_inv`: the powers of the decay factor, scaled by 2³². -/
def runnableAvgYNInv : List ℕ := [
  0xffffffff, 0xfa83b2da, 0xf5257d14, 0xefe4b99a, 0xeac0c6e6, 0xe5b906e6,
  0xe0ccdeeb, 0xdbfbb796, 0xd744fcc9, 0xd2a81d91, 0xce248c14, 0xc9b9bd85,
  0xc5672a10, 0xc12c4cc9, 0xbd08a39e, 0xb8fbaf46, 0xb504f333, 0xb123f581,
  0xad583ee9, 0xa9a15ab4, 0xa5fed6a9, 0xa2704302, 0x9ef5325f, 0x9b8d39b9,
  0x9837f050, 0x94f4efa8, 0x91c3d373, 0x8ea4398a, 0x8b95c1e3, 0x88980e80,
  0x85aac367, 0x82cd8698]

/-- `runnable_avg_yN_sum`: the sums of up to 32 whole periods. -/
def runnableAvgYNSum : List ℕ := [
  0, 1002, 1982, 2941, 3880, 4798, 5697, 6576, 7437, 8279, 9103,
  9909, 10698, 11470, 12226, 12966, 13690, 14398, 15091, 15769, 16433, 17082,
  17718, 18340, 18949, 19545, 20128, 20698, 21256, 21802, 22336, 22859, 23371]

/-- `__accumulated_sum_N32`: the sums of multiples of 32 periods. -/
def accumulatedSumN32 : List ℕ := [
  0, 23371, 35056, 40899, 43820, 45281, 46011, 46376, 46559, 46650, 46696, 46719]

/-- `decay_load`: a value after `n` periods. -/
def decayLoad (val n : ℕ) : ℕ :=
  if n = 0 then val
  else if 32 * 63 < n then 0
  else val / 2 ^ (n / 32) * runnableAvgYNInv.getD (n % 32) 0 / 2 ^ 32

/-- `__compute_runnable_contrib`: the contribution of `n` whole periods. -/
def computeRunnableContrib (n : ℕ) : ℕ :=
  if n ≤ 32 then runnableAvgYNSum.getD n 0
  else if 345 ≤ n then 47742
  else decayLoad (accumulatedSumN32.getD (n / 32) 0) (n % 32) + runnableAvgYNSum.getD (n % 32) 0

/-- `util_sum` with the time of a running entity added. -/
def Call.accrue (call : Call) (utilSum delta : ℕ) : Option ℕ :=
  if call.running then
    let next := utilSum + delta * call.scaleFreq / 1024 * call.scaleCpu
    if next < 2 ^ 32 then some next else none
  else some utilSum

/-- The whole periods between the first and the current one of a call. -/
def wholePeriods (sa : SchedAvg) (call : Call) : ℕ :=
  ((call.now - sa.lastUpdateTime).toNat / 1024 - (1024 - sa.periodContrib)) / 1024

/-- `__update_load_avg`, for `util_sum` and `util_avg`. -/
def updateLoadAvg (sa : SchedAvg) (call : Call) : Option SchedAvg :=
  let elapsed := call.now - sa.lastUpdateTime
  let delta := elapsed.toNat / 1024
  if elapsed.msb then some { sa with lastUpdateTime := call.now }
  else if delta = 0 then some sa
  else if delta + sa.periodContrib < 1024 then do
    let utilSum ← call.accrue sa.utilSum delta
    return ⟨call.now, utilSum, sa.periodContrib + delta, sa.utilAvg⟩
  else do
    let utilSum ← call.accrue sa.utilSum (1024 - sa.periodContrib)
    let delta := delta - (1024 - sa.periodContrib)
    let periods := delta / 1024
    let utilSum := decayLoad utilSum (periods + 1)
    let utilSum ← call.accrue utilSum (computeRunnableContrib periods)
    let utilSum ← call.accrue utilSum (delta % 1024)
    return ⟨call.now, utilSum, delta % 1024, utilSum / 47742⟩

/-- The sum is at most that of a history and of the current period. -/
structure Bounded (history most : ℕ) (sa : SchedAvg) : Prop where
  current : sa.periodContrib < 1024
  sum : sa.utilSum ≤ 1024 * (history + sa.periodContrib)
  avg : sa.utilAvg ≤ most

/-- A full history stays at most the same history after whole periods. -/
def Saturates (history n : ℕ) : Prop :=
  ∀ utilSum ≤ 1024 * (history + 1024),
    decayLoad utilSum (n + 1) + 1024 * computeRunnableContrib n ≤ 1024 * history

/-- The calls have fewer than 345 whole periods, while time does not go back. -/
def Short : SchedAvg → List Call → Prop
  | _, [] => True
  | sa, call :: calls =>
    ((call.now - sa.lastUpdateTime).msb = false → wholePeriods sa call < 345) ∧
      ∀ next, updateLoadAvg sa call = some next → Short next calls

variable {call : Call} {sa : SchedAvg} {utilSum delta n history most : ℕ}

/-- Added time is scaled down, so it is at most 1024 for a unit. -/
theorem exists_accrue
    (fits : utilSum + 1024 * delta < 2 ^ 32) :
    ∃ next, call.accrue utilSum delta = some next ∧ next ≤ utilSum + 1024 * delta := by
  have scaled : delta * call.scaleFreq / 1024 ≤ delta :=
    Nat.div_le_of_le_mul (Nat.mul_comm 1024 delta ▸ Nat.mul_le_mul_left _ (by omega))
  have product : delta * call.scaleFreq / 1024 * call.scaleCpu ≤ delta * 1024 :=
    Nat.mul_le_mul scaled (by omega)
  unfold Call.accrue
  split
  · exact ⟨_, if_pos (by omega), by omega⟩
  · exact ⟨utilSum, rfl, by omega⟩

/-- Below 345 periods a sum decays most if it is largest. -/
theorem decayLoad_le
    {largest : ℕ}
    (short : n < 345)
    (bounded : utilSum ≤ largest) :
    decayLoad utilSum (n + 1) ≤ decayLoad largest (n + 1) := by
  simp only [decayLoad, if_neg (Nat.succ_ne_zero n), if_neg (by omega : ¬ 32 * 63 < n + 1)]
  exact Nat.div_le_div_right (Nat.mul_le_mul_right _ (Nat.div_le_div_right bounded))

/-- Without a saturated contribution the current period has its room. -/
theorem saturates_of_short
    (short : n < 345) :
    Saturates 46765 n := by
  intro utilSum bounded
  have largest : ∀ n < 345, decayLoad (1024 * (46765 + 1024)) (n + 1) +
      1024 * computeRunnableContrib n ≤ 1024 * 46765 := by decide +kernel
  have monotone := decayLoad_le short bounded
  have atLargest := largest n short
  omega

/-- `LOAD_AVG_MAX` and what is left of the sum are at most 47790. -/
theorem saturates (n : ℕ) : Saturates 47790 n := by
  intro utilSum bounded
  have least : ∀ i < 32, runnableAvgYNInv.getD i 0 ≤ 2 ^ 32 := by decide
  by_cases long : 345 ≤ n
  · have isMax : computeRunnableContrib n = 47742 := by
      rw [computeRunnableContrib, if_neg (by omega), if_pos long]
    have decayed : decayLoad utilSum (n + 1) ≤ utilSum / 2 ^ 10 := by
      rw [decayLoad, if_neg (by omega)]
      split
      · omega
      · refine Nat.div_le_of_le_mul ?_
        rw [Nat.mul_comm (2 ^ 32)]
        refine Nat.mul_le_mul (Nat.div_le_div_left ?_ (by decide)) (least _ (by omega))
        exact Nat.pow_le_pow_right (by decide) (by omega)
    omega
  · have largest : ∀ n < 345, decayLoad (1024 * (47790 + 1024)) (n + 1) +
        1024 * computeRunnableContrib n ≤ 1024 * 47790 := by decide +kernel
    have monotone := decayLoad_le (Nat.not_le.mp long) bounded
    have atLargest := largest n (by omega)
    omega

/-- A call stays inside of the bounds of a history that its periods saturate. -/
theorem Bounded.update
    (bounded : Bounded history most sa)
    (call : Call)
    (small : history ≤ 47790)
    (average : 1024 * (history + 1023) / 47742 ≤ most)
    (full : (call.now - sa.lastUpdateTime).msb = false → Saturates history (wholePeriods sa call)) :
    ∃ next, updateLoadAvg sa call = some next ∧ Bounded history most next := by
  obtain ⟨current, sum, avg⟩ := bounded
  simp only [wholePeriods] at full
  simp only [updateLoadAvg]
  generalize (call.now - sa.lastUpdateTime).toNat / 1024 = delta at full
  split
  · exact ⟨_, rfl, current, sum, avg⟩
  case isFalse forward =>
  split
  · exact ⟨sa, rfl, current, sum, avg⟩
  split
  · obtain ⟨next, isNext, least⟩ := @exists_accrue call sa.utilSum delta (by omega)
    refine ⟨⟨call.now, next, sa.periodContrib + delta, sa.utilAvg⟩, by simp [isNext], ?_, ?_, avg⟩
    all_goals
      dsimp only
      omega
  · obtain ⟨whole, isWhole, wholeMost⟩ :=
      @exists_accrue call sa.utilSum (1024 - sa.periodContrib) (by omega)
    generalize delta - (1024 - sa.periodContrib) = rest at full
    have past := full (Bool.eq_false_of_not_eq_true forward) whole (by omega)
    obtain ⟨decayed, isDecayed, decayedMost⟩ := @exists_accrue call
      (decayLoad whole (rest / 1024 + 1)) (computeRunnableContrib (rest / 1024)) (by omega)
    obtain ⟨next, isNext, nextMost⟩ := @exists_accrue call decayed (rest % 1024) (by omega)
    refine ⟨⟨call.now, next, rest % 1024, next / 47742⟩, ?_, ?_, ?_, ?_⟩
    · simp [isWhole, isDecayed, isNext]
    · dsimp only
      omega
    · dsimp only
      omega
    · refine Nat.le_trans (Nat.div_le_div_right ?_) average
      omega

/--
From empty sums the sum always fits into 32 bits. The average is at most 1024
while no call has 345 whole periods, and at most 1046 otherwise.
-/
theorem utilAvg_le
    (start : BitVec 64)
    (contrib : Fin 1024)
    (calls : List Call) :
    ∃ sa, calls.foldlM updateLoadAvg ⟨start, 0, contrib, 0⟩ = some sa ∧
      (Short ⟨start, 0, contrib, 0⟩ calls → sa.utilAvg ≤ 1024) ∧
      sa.utilAvg ≤ 1046 := by
  have run : ∀ sa, Bounded 47790 1046 sa → ∃ next, calls.foldlM updateLoadAvg sa = some next ∧
      (Bounded 46765 1024 sa → Short sa calls → Bounded 46765 1024 next) ∧
      Bounded 47790 1046 next := by
    induction calls with
    | nil => exact fun sa bounded => ⟨sa, rfl, fun tight _ => tight, bounded⟩
    | cons call calls inductionHypothesis =>
      intro sa bounded
      obtain ⟨next, isNext, nextBounded⟩ := bounded.update call (by decide) (by decide)
        fun _ => saturates _
      obtain ⟨last, isLast, tightLast, lastBounded⟩ := inductionHypothesis next nextBounded
      refine ⟨last, by rw [List.foldlM_cons, isNext]; exact isLast, ?_, lastBounded⟩
      rintro tight ⟨short, later⟩
      obtain ⟨same, isSame, tightNext⟩ := tight.update call (by decide) (by decide)
        fun forward => saturates_of_short (short forward)
      rw [isNext, Option.some.injEq] at isSame
      subst isSame
      exact tightLast tightNext (later next isNext)
  obtain ⟨sa, isRun, tight, bounded⟩ := run ⟨start, 0, contrib, 0⟩
    ⟨contrib.isLt, Nat.zero_le _, Nat.zero_le _⟩
  refine ⟨sa, isRun, fun short => ?_, bounded.avg⟩
  exact (tight ⟨contrib.isLt, Nat.zero_le _, Nat.zero_le _⟩ short).avg

/-- An entity that runs for 346 periods and almost another between updates. -/
theorem updateLoadAvg_longRun :
    (updateLoadAvg ⟨0, 0, 0, 0⟩ ⟨(346 * 1024 + 1023) * 1024, true, 1024, 1024⟩).map (·.utilAvg) =
      some 1045 := by
  decide +kernel

end EchoKernel.LoadAvg
