import Mathlib.Tactic.Ring
import EchoKernel.TimerWheel

namespace EchoKernel.TimerWheel

open BitVec Nat

/-!
# When a timer expires

A bucket is visited at the multiples of its level's granularity whose level
clock has the bucket's number. For all but the last level the first such jiffy
is the one after the expiry.
-/

section
variable {clk expires : BitVec 32} {lvl bucket count : ℕ}

theorem toNat_and_lvlMask (word : BitVec 32) : (word &&& lvlMask).toNat = word.toNat % 64 := by
  exact and_two_pow_sub_one_eq_mod _ 6

theorem and_lvlClkMask_eq_zero_iff
    (word : BitVec 32) :
    word &&& lvlClkMask = 0 ↔ word.toNat % 8 = 0 := by
  rw [← toNat_inj]
  have isMod := and_two_pow_sub_one_eq_mod word.toNat 3
  change word.toNat &&& 7 = 0 ↔ _
  rw [isMod]

theorem toNat_shift (word : BitVec 32) : (word >>> lvlClkShift).toNat = word.toNat / 8 := by
  rw [toNat_ushiftRight, shiftRight_eq_div_pow]
  rfl

/-- The loop never returns to a level. -/
theorem visits_eq_false
    {left i : ℕ}
    (below : bucket < i * 64) :
    visits left i clk bucket = false := by
  induction left generalizing i clk with
  | zero => rfl
  | succ left inductionHypothesis =>
    rw [visits, inductionHypothesis (by omega), Bool.and_false, Bool.or_false, beq_eq_false_iff_ne]
    change (clk &&& lvlMask).toNat + i * 64 ≠ bucket
    omega

/-- A level is visited at its granularity's multiples. -/
theorem visits_iff
    {left i : ℕ}
    (notBefore : i ≤ lvl)
    (inside : lvl < i + left)
    (small : bucket < 64) :
    visits left i clk (lvl * 64 + bucket) = true ↔
    clk.toNat % 8 ^ (lvl - i) = 0 ∧ clk.toNat / 8 ^ (lvl - i) % 64 = bucket := by
  induction left generalizing i clk with
  | zero => omega
  | succ left inductionHypothesis =>
    have isFirst : ((clk &&& lvlMask).toNat + i * lvlSize.toNat == lvl * 64 + bucket) = true ↔
        clk.toNat % 64 + i * 64 = lvl * 64 + bucket := by
      rw [beq_iff_eq, toNat_and_lvlMask]
      rfl
    rw [visits, Bool.or_eq_true, isFirst]
    rcases Nat.eq_or_lt_of_le notBefore with rfl | later
    · rw [visits_eq_false (by omega), Bool.and_false, Nat.sub_self, Nat.pow_zero, mod_one]
      constructor
      · rintro (here | never)
        · exact ⟨rfl, by omega⟩
        · exact absurd never (by decide)
      · rintro ⟨_, here⟩
        exact .inl (by omega)
    rw [Bool.and_eq_true, beq_iff_eq, and_lvlClkMask_eq_zero_iff,
      inductionHypothesis (by omega) (by omega), toNat_shift]
    have isPower : 8 ^ (lvl - i) = 8 * 8 ^ (lvl - (i + 1)) := by
      rw [← Nat.pow_succ']
      congr 1
      omega
    rw [isPower, mod_mul, ← Nat.div_div_eq_div_mul]
    constructor
    · rintro (here | ⟨isZero, isMultiple, isBucket⟩)
      · omega
      · exact ⟨by omega, isBucket⟩
    · rintro ⟨isMultiple, isBucket⟩
      exact .inr ⟨by omega, by omega, isBucket⟩

section
variable (inside : lvl < 9)
include inside

/-- The jiffies at which a bucket is visited. -/
theorem visited_iff
    (small : bucket < 64) :
    visited clk (lvl * 64 + bucket) = true ↔ clk.toNat % (8 ^ lvl * 64) = 8 ^ lvl * bucket := by
  have visitsIff := @visits_iff clk lvl bucket lvlDepth 0 (Nat.zero_le _) (by exact inside) small
  rw [visited, visitsIff, Nat.sub_zero, mod_mul]
  have positive : 0 < 8 ^ lvl := Nat.pow_pos (by decide)
  constructor
  · rintro ⟨isZero, isBucket⟩
    rw [isZero, isBucket, Nat.zero_add]
  intro same
  have isZero : clk.toNat % 8 ^ lvl = 0 := by
    have residue := congrArg (· % 8 ^ lvl) same
    rw [add_mul_mod_self_left, mul_mod_right, mod_mod] at residue
    exact residue
  rw [isZero, Nat.zero_add] at same
  exact ⟨isZero, Nat.eq_of_mul_eq_mul_left positive same⟩

theorem turn_dvd : 8 ^ lvl * 64 ∣ 2 ^ 32 := by
  have isPower : 8 ^ lvl * 64 = 2 ^ (3 * lvl + 6) := by rw [Nat.pow_add, Nat.pow_mul]
  rw [isPower]
  exact Nat.pow_dvd_pow 2 (by omega)

theorem visited_add_iff
    (small : bucket < 64) :
    visited (clk + BitVec.ofNat 32 count) (lvl * 64 + bucket) = true ↔
    (clk.toNat + count) % (8 ^ lvl * 64) = 8 ^ lvl * bucket := by
  rw [visited_iff inside small, toNat_add, toNat_ofNat,
    add_mod_mod, mod_mod_of_dvd _ (turn_dvd inside)]

theorem toNat_lvlGran : (lvlGran lvl).toNat = 8 ^ lvl := by
  have isPower : 8 ^ lvl = 2 ^ (3 * lvl) := by rw [Nat.pow_mul]
  have less : 2 ^ (3 * lvl) < 2 ^ 32 := Nat.pow_lt_pow_right (by decide) (by omega)
  rw [lvlGran, toNat_shiftLeft, Nat.shiftLeft_eq, isPower]
  change 1 * 2 ^ (lvl * 3) % 2 ^ 32 = _
  rw [Nat.one_mul, Nat.mul_comm lvl, mod_eq_of_lt less]

/-- An expiry's bucket is that of the next multiple of the granularity. -/
theorem calcIndex_eq : calcIndex expires lvl = lvl * 64 + (expires.toNat / 8 ^ lvl + 1) % 64 := by
  have positive : 0 < 8 ^ lvl := Nat.pow_pos (by decide)
  have isShift : 2 ^ lvlShift lvl = 8 ^ lvl := by
    rw [lvlShift, Nat.mul_comm]
    exact Nat.pow_mul 2 3 lvl
  rw [calcIndex, toNat_and_lvlMask, toNat_ushiftRight,
    shiftRight_eq_div_pow, isShift, toNat_add,
    toNat_lvlGran inside, ← mod_mul_right_div_self,
    mod_mod_of_dvd _ (turn_dvd inside), mod_mul_right_div_self,
    add_div_right _ positive]
  rfl

end

end

section
variable {clk expires : BitVec 32}

/-- The first level from a level on that a timeout fits. -/
def levelFrom (delta : BitVec 32) : (left lvl : ℕ) → ℕ
  | 0, lvl => lvl
  | left + 1, lvl =>
    if delta < lvlStart (lvl + 1) then lvl
    else levelFrom delta left (lvl + 1)

def level (delta : BitVec 32) : ℕ := levelFrom delta (lvlDepth - 1) 0

/-- The expiry that the last level uses. -/
def clamped (expires : BitVec 32) : BitVec 32 :=
  if wheelTimeoutCutoff ≤ expires then wheelTimeoutMax else expires

theorem toNat_lvlStart
    {lvl : ℕ}
    (inside : lvl < 9) :
    (lvlStart (lvl + 1)).toNat = 63 * 8 ^ lvl := by
  revert lvl
  decide

/-- A timeout fits into its level, or is past the last one's start. -/
theorem levelFrom_spec
    {delta : BitVec 32}
    {left lvl : ℕ} :
    levelFrom delta left lvl < lvl + left ∧
    delta < lvlStart (levelFrom delta left lvl + 1) ∨ levelFrom delta left lvl = lvl + left ∧
    (0 < left → ¬delta < lvlStart (lvl + left)) := by
  induction left generalizing lvl with
  | zero => exact .inr ⟨rfl, fun positive => absurd positive (by decide)⟩
  | succ left inductionHypothesis =>
    rw [levelFrom]
    by_cases fits : delta < lvlStart (lvl + 1)
    · rw [if_pos fits]
      exact .inl ⟨by omega, fits⟩
    rw [if_neg fits]
    rcases @inductionHypothesis (lvl + 1) with inner | last
    · exact .inl ⟨by omega, inner.2⟩
    refine .inr ⟨by omega, fun _ => ?_⟩
    have isLast : lvl + (left + 1) = lvl + 1 + left := by omega
    rw [isLast]
    rcases Nat.eq_zero_or_pos left with rfl | positive
    · exact fits
    · exact last.2 positive

/-- Timeouts below the cutoff are under 63 units of their level. -/
theorem level_spec
    {delta : BitVec 32}
    (below : delta < wheelTimeoutCutoff) :
    level delta < 9 ∧
    delta.toNat < 63 * 8 ^ level delta ∧
    (level delta < 8 ∨ level delta = 8 ∧ ¬delta < lvlStart 8) := by
  rcases levelFrom_spec with inner | last
  · have inside : level delta < 8 := inner.1
    refine ⟨by omega, ?_, .inl inside⟩
    rw [← toNat_lvlStart (by omega)]
    exact lt_def.mp inner.2
  · have isLast : level delta = 8 := last.1
    rw [isLast]
    exact ⟨by decide, lt_def.mp below, .inr ⟨rfl, last.2 (by decide)⟩⟩

theorem level_eq
    (delta : BitVec 32) :
    level delta = if delta < lvlStart 1 then 0
    else if delta < lvlStart 2 then 1 else if delta < lvlStart 3 then 2
    else if delta < lvlStart 4 then 3 else if delta < lvlStart 5 then 4
    else if delta < lvlStart 6 then 5 else if delta < lvlStart 7 then 6
    else if delta < lvlStart 8 then 7 else 8 :=
  rfl

theorem ite_calcIndex
    {p : Prop}
    [Decidable p]
    {other : BitVec 32}
    {lvl next idx : ℕ}
    (inner : lvl < 8)
    (later : idx = calcIndex (if next < 8 then expires else other) next) :
    (if p then calcIndex expires lvl else idx) = calcIndex
    (if (if p then lvl else next) < 8 then expires else other) (if p then lvl else next) := by
  by_cases holds : p
  · rw [if_pos holds, if_pos holds, if_pos inner]
  · rw [if_neg holds, if_neg holds, later]

/-- The bucket is the expiry's, which the last level may replace. -/
theorem calcWheelIndex_eq
    (below : expires - clk < wheelTimeoutCutoff) :
    calcWheelIndex expires clk = calcIndex
    (if level (expires - clk) < 8 then expires else clamped expires) (level (expires - clk)) := by
  have positive : ¬(expires - clk).toInt < 0 := by
    change _ < 63 * 2 ^ 24 at below
    rw [toInt_eq_toNat_cond]
    omega
  rw [calcWheelIndex, level_eq]
  generalize expires - clk = delta at *
  iterate 7 refine ite_calcIndex (by decide) ?_
  by_cases eighth : delta < lvlStart 8
  · rw [if_pos ⟨by decide, eighth⟩, if_pos eighth, if_pos (by decide)]
  rw [if_neg (fun both => eighth both.2), if_neg eighth, if_neg positive]
  rfl

end

section
variable {τ : Type*} {base : TimerBase τ} {timer : τ} {expires : BitVec 32}

theorem first_residue
    {start target turn : ℕ}
    (notBefore : start ≤ target)
    (near : target - start < turn) :
    ∀ earlier, earlier < target - start → (start + earlier) % turn ≠ target % turn := by
  intro earlier less same
  have isMultiple := sub_mod_eq_zero_of_mod_eq same.symm
  rw [mod_eq_of_lt (by omega)] at isMultiple
  omega

/-- A timer is first collected in time. -/
def ExpiresInTime (base : TimerBase τ) (timer : τ) (delta : BitVec 32) : Prop :=
  ∃ count, (timer ∈ collectedAt base count ∧
      ∀ earlier, earlier < count → timer ∉ collectedAt base earlier) ∧ delta.toNat ≤ count ∧
    count ≤ delta.toNat + (lvlGran (level delta)).toNat

/-- The first visit of a bucket at a given jiffy. -/
theorem first_visit_iff
    {clk : BitVec 32}
    {lvl bucket count : ℕ}
    (inside : lvl < 9)
    (small : bucket < 64) :
    (visited (clk + BitVec.ofNat 32 count) (lvl * 64 + bucket) = true ∧
    ∀ earlier, earlier < count → visited (clk + BitVec.ofNat 32 earlier) (lvl * 64 + bucket) =
    false) ↔ (clk.toNat + count) % (8 ^ lvl * 64) = 8 ^ lvl * bucket ∧
    ∀ earlier, earlier < count → (clk.toNat + earlier) % (8 ^ lvl * 64) ≠ 8 ^ lvl * bucket := by
  have notVisited (earlier : ℕ) :
      visited (clk + BitVec.ofNat 32 earlier) (lvl * 64 + bucket) = false ↔
      (clk.toNat + earlier) % (8 ^ lvl * 64) ≠ 8 ^ lvl * bucket := by
    rw [← Bool.not_eq_true, visited_add_iff inside small]
  rw [visited_add_iff inside small]
  simp only [notVisited]

/-- A timer is in time when its bucket is. -/
theorem expiresInTime_iff
    {lvl bucket : ℕ}
    {delta : BitVec 32}
    (inBucket : InBucket base timer (lvl * 64 + bucket))
    (isLevel : level delta = lvl)
    (inside : lvl < 9)
    (small : bucket < 64)
    (short : delta.toNat < 63 * 8 ^ lvl) :
    ExpiresInTime base timer delta ↔ ∃ count, (base.clk.toNat + count) % (8 ^ lvl * 64) =
    8 ^ lvl * bucket ∧ delta.toNat ≤ count ∧ count ≤ delta.toNat + 8 ^ lvl := by
  rw [ExpiresInTime, isLevel, toNat_lvlGran inside]
  constructor
  · rintro ⟨count, first, notBefore, notLate⟩
    rw [inBucket.first_iff, first_visit_iff inside small] at first
    exact ⟨count, first.1, notBefore, notLate⟩
  rintro ⟨count, isResidue, notBefore, notLate⟩
  refine ⟨count, ?_, notBefore, notLate⟩
  rw [inBucket.first_iff, first_visit_iff inside small]
  refine ⟨isResidue, ?_⟩
  intro earlier less
  rw [← isResidue]
  exact first_residue (Nat.le_add_right _ _) (by omega) earlier (by omega)

/-- The last level keeps the expiry, or its bucket is visited in time. -/
def InTime (expires clk : BitVec 32) : Prop :=
  expires - clk < lvlStart 8 ∨ expires < wheelTimeoutCutoff ∨ expires.toNat / 2 ^ 24 % 64 = 62 ∨
    expires.toNat / 2 ^ 24 % 64 = 63 ∧ expires.toNat % 2 ^ 24 = 0

theorem toNat_expires
    (clk : BitVec 32)
    {lvl : ℕ}
    (inside : lvl < 9) :
    expires.toNat % (8 ^ lvl * 64) = (clk.toNat + (expires - clk).toNat) % (8 ^ lvl * 64) := by
  have isSum : clk + (expires - clk) = expires := by rw [BitVec.add_comm, BitVec.sub_add_cancel]
  rw [← mod_mod_of_dvd (clk.toNat + _) (turn_dvd inside), ← toNat_add, isSum]

/-- The right bucket is visited in time. -/
theorem exists_visit
    {clk : BitVec 32}
    {lvl : ℕ}
    (inside : lvl < 9) :
    ∃ count,
    (clk.toNat + count) % (8 ^ lvl * 64) = 8 ^ lvl * ((expires.toNat / 8 ^ lvl + 1) % 64) ∧
    (expires - clk).toNat ≤ count ∧ count ≤ (expires - clk).toNat + 8 ^ lvl := by
  have same := @toNat_expires expires clk lvl inside
  have isQuotient : expires.toNat / 8 ^ lvl % 64 =
      (clk.toNat + (expires - clk).toNat) / 8 ^ lvl % 64 := by
    rw [← mod_mul_right_div_self, same, mod_mul_right_div_self]
  generalize (expires - clk).toNat = delta at *
  have split := div_add_mod (clk.toNat + delta) (8 ^ lvl)
  have isNext : 8 ^ lvl * ((clk.toNat + delta) / 8 ^ lvl + 1) =
    8 ^ lvl * ((clk.toNat + delta) / 8 ^ lvl) + 8 ^ lvl := by ring
  refine ⟨8 ^ lvl * ((clk.toNat + delta) / 8 ^ lvl + 1) - clk.toNat, ?_, by omega, by omega⟩
  have isSum : clk.toNat + (8 ^ lvl * ((clk.toNat + delta) / 8 ^ lvl + 1) - clk.toNat) =
    8 ^ lvl * ((clk.toNat + delta) / 8 ^ lvl + 1) := by omega
  rw [isSum, mul_mod_mul_left, add_mod, ← isQuotient, ← add_mod]

theorem expiresInTime_of_calcIndex
    {lvl : ℕ}
    (inBucket : InBucket base timer (calcIndex expires lvl))
    (isLevel : level (expires - base.clk) = lvl)
    (inside : lvl < 9)
    (short : (expires - base.clk).toNat < 63 * 8 ^ lvl) :
    ExpiresInTime base timer (expires - base.clk) := by
  rw [calcIndex_eq inside] at inBucket
  rw [expiresInTime_iff inBucket isLevel inside (mod_lt _ (by decide)) short]
  exact exists_visit inside

/-- The bucket of a replaced expiry is visited in time for some only. -/
theorem expiresInTime_of_clamped
    (inBucket : InBucket base timer (calcIndex wheelTimeoutMax 8))
    (isLevel : level (expires - base.clk) = 8)
    (short : (expires - base.clk).toNat < 63 * 8 ^ 8) :
    ExpiresInTime base timer (expires - base.clk) ↔ expires.toNat / 2 ^ 24 % 64 = 62 ∨
    expires.toNat / 2 ^ 24 % 64 = 63 ∧ expires.toNat % 2 ^ 24 = 0 := by
  have isIndex : calcIndex wheelTimeoutMax 8 = 8 * 64 + 63 := by decide
  have same := @toNat_expires expires base.clk 8 (by decide)
  rw [isIndex] at inBucket
  rw [expiresInTime_iff inBucket isLevel (by decide) (by decide) short]
  constructor
  · omega
  rintro (isNext | ⟨isBucket, isMultiple⟩)
  · refine ⟨(expires - base.clk).toNat + (2 ^ 24 - expires.toNat % 2 ^ 24), ?_, by omega, by omega⟩
    omega
  · refine ⟨(expires - base.clk).toNat, ?_, by omega, by omega⟩
    omega

theorem lt_lvlStart_of_level
    {delta : BitVec 32}
    (below : delta < wheelTimeoutCutoff)
    (inner : level delta < 8) :
    delta < lvlStart 8 := by
  have short := (level_spec below).2.1
  change delta.toNat < 63 * 8 ^ 7
  have power : 8 ^ level delta ≤ 8 ^ 7 := Nat.pow_le_pow_right (by decide) (by omega)
  omega

/-- A timer in the bucket that the wheel chooses. -/
theorem expiresInTime_iff_inTime
    {idx : ℕ}
    (inBucket : InBucket base timer idx)
    (isIndex : idx = calcWheelIndex expires base.clk)
    (below : expires - base.clk < wheelTimeoutCutoff) :
    ExpiresInTime base timer (expires - base.clk) ↔ InTime expires base.clk := by
  obtain ⟨inside, short, isInner⟩ := level_spec below
  rw [isIndex, calcWheelIndex_eq below] at inBucket
  rcases isInner with inner | ⟨last, long⟩
  · rw [if_pos inner] at inBucket
    exact iff_of_true (expiresInTime_of_calcIndex inBucket rfl inside short)
      (.inl (lt_lvlStart_of_level below inner))
  rw [last, clamped] at inBucket
  rw [last] at short
  by_cases early : expires < wheelTimeoutCutoff
  · rw [if_neg (BitVec.not_le.mpr early)] at inBucket
    exact iff_of_true (expiresInTime_of_calcIndex inBucket last (by decide) short)
      (.inr (.inl early))
  · rw [if_pos (BitVec.not_lt.mp early)] at inBucket
    rw [expiresInTime_of_clamped inBucket last short, InTime, or_iff_right long, or_iff_right early]

end

/--
An enqueued timer is collected first between its expiry and one unit of its
level later, unless the last level replaces its expiry and its bucket is
visited at another time.
-/
theorem enqueued_expiresInTime_iff
    {τ : Type*}
    {base : TimerBase τ}
    {timer : τ}
    {expires : BitVec 32}
    (fresh : ∀ idx, timer ∉ base.vectors idx)
    (below : expires - base.clk < wheelTimeoutCutoff) :
    ExpiresInTime
    (enqueueTimer base timer (calcWheelIndex expires base.clk)) timer (expires - base.clk) ↔
    InTime expires base.clk := by
  exact expiresInTime_iff_inTime (inBucket_enqueueTimer fresh) rfl below

def emptyWheel (clk : BitVec 32) : TimerBase ℕ :=
  { clk := clk
    pendingMap := fun _ => false
    vectors := fun _ => [] }

theorem enqueued_expiresInTime_wrap :
    ExpiresInTime
    (enqueueTimer (emptyWheel (BitVec.ofNat 32 (2 ^ 32 - 5))) 1
    (calcWheelIndex 95 (BitVec.ofNat 32 (2 ^ 32 - 5)))) 1 (95 - BitVec.ofNat 32 (2 ^ 32 - 5)) := by
  have fresh : ∀ idx, 1 ∉ (emptyWheel (BitVec.ofNat 32 (2 ^ 32 - 5))).vectors idx :=
    fun _ => List.not_mem_nil
  exact (enqueued_expiresInTime_iff fresh (by decide)).mpr (.inl (by decide))

/-- A timeout of a day is replaced, as the clock is past the cutoff. -/
theorem not_expiresInTime_lateClock :
    BitVec.ofNat 32 (2 ^ 30 + 63 * 2 ^ 21) - BitVec.ofNat 32 (2 ^ 30) < wheelTimeoutCutoff ∧
    ¬ExpiresInTime (enqueueTimer (emptyWheel (BitVec.ofNat 32 (2 ^ 30))) 1
    (calcWheelIndex (BitVec.ofNat 32 (2 ^ 30 + 63 * 2 ^ 21)) (BitVec.ofNat 32 (2 ^ 30)))) 1
    (BitVec.ofNat 32 (2 ^ 30 + 63 * 2 ^ 21) - BitVec.ofNat 32 (2 ^ 30)) := by
  have below : BitVec.ofNat 32 (2 ^ 30 + 63 * 2 ^ 21) - BitVec.ofNat 32 (2 ^ 30) <
    wheelTimeoutCutoff := by decide
  have inBucket := @inBucket_enqueueTimer _ (emptyWheel (BitVec.ofNat 32 (2 ^ 30))) 1
    (calcWheelIndex (BitVec.ofNat 32 (2 ^ 30 + 63 * 2 ^ 21))
      (BitVec.ofNat 32 (2 ^ 30))) (fun _ => List.not_mem_nil)
  refine ⟨below, ?_⟩
  intro inTime
  have isInTime := (expiresInTime_iff_inTime inBucket rfl below).mp inTime
  rw [InTime] at isInTime
  revert isInTime
  decide

end EchoKernel.TimerWheel
