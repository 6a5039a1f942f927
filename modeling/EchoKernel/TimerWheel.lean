import Mathlib.Logic.Function.Basic
import Mathlib.Data.Nat.Notation

namespace EchoKernel.TimerWheel

open Function List

/-!
# The timer wheel

`calc_wheel_index` and `__collect_expired_timers` of `timer.c`, for `HZ` above
100 and an `unsigned long` of 32 bits. Vectors are lists of timers.
-/

section
variable {τ : Type*}

def lvlClkShift : ℕ := 3

def lvlClkMask : BitVec 32 := ((1 : BitVec 32) <<< lvlClkShift) - 1

def lvlShift (n : ℕ) : ℕ := n * lvlClkShift

/-- `LVL_GRAN`. -/
def lvlGran (n : ℕ) : BitVec 32 := (1 : BitVec 32) <<< lvlShift n

def lvlSize : BitVec 32 := (1 : BitVec 32) <<< 6

def lvlMask : BitVec 32 := lvlSize - 1

/-- `LVL_START`. -/
def lvlStart (n : ℕ) : BitVec 32 := (lvlSize - 1) <<< ((n - 1) * lvlClkShift)

def lvlOffs (n : ℕ) : ℕ := n * lvlSize.toNat

def lvlDepth : ℕ := 9

def wheelTimeoutCutoff : BitVec 32 := lvlStart lvlDepth

def wheelTimeoutMax : BitVec 32 := wheelTimeoutCutoff - lvlGran (lvlDepth - 1)

/-- `calc_index`. -/
def calcIndex (expires : BitVec 32) (lvl : ℕ) : ℕ :=
  lvlOffs lvl + ((expires + lvlGran lvl) >>> lvlShift lvl &&& lvlMask).toNat

/-- `calc_wheel_index`. -/
def calcWheelIndex (expires clk : BitVec 32) : ℕ :=
  let delta := expires - clk
  if delta < lvlStart 1 then calcIndex expires 0
  else if delta < lvlStart 2 then calcIndex expires 1
  else if delta < lvlStart 3 then calcIndex expires 2
  else if delta < lvlStart 4 then calcIndex expires 3
  else if delta < lvlStart 5 then calcIndex expires 4
  else if delta < lvlStart 6 then calcIndex expires 5
  else if delta < lvlStart 7 then calcIndex expires 6
  else if 8 < lvlDepth ∧ delta < lvlStart 8 then calcIndex expires 7
  else if delta.toInt < 0 then (clk &&& lvlMask).toNat
  else
    let expires := if wheelTimeoutCutoff ≤ expires then wheelTimeoutMax else expires
    calcIndex expires (lvlDepth - 1)

/-- `struct timer_base`, as far as the wheel uses it. -/
structure TimerBase (τ : Type*) where
  clk : BitVec 32
  pendingMap : ℕ → Bool
  vectors : ℕ → List τ

/-- `enqueue_timer`, apart from the flags of the timer. -/
def enqueueTimer (base : TimerBase τ) (timer : τ) (idx : ℕ) : TimerBase τ :=
  { base with
    vectors := update base.vectors idx (timer :: base.vectors idx)
    pendingMap := update base.pendingMap idx true }

/-- One bucket is collected when it is pending. -/
def collectBucket (base : TimerBase τ) (heads : List (List τ)) (idx : ℕ) :
    TimerBase τ × List (List τ) :=
  if base.pendingMap idx then
    ({ base with
        pendingMap := update base.pendingMap idx false
        vectors := update base.vectors idx [] },
      heads ++ [base.vectors idx])
  else (base, heads)

/-- The loop of `__collect_expired_timers`, over the levels left. -/
def collectLevels : (left i : ℕ) → (clk : BitVec 32) → (base : TimerBase τ) →
      (heads : List (List τ)) → TimerBase τ × List (List τ)
  | 0, _, _, base, heads => (base, heads)
  | left + 1, i, clk, base, heads =>
    let idx := (clk &&& lvlMask).toNat + i * lvlSize.toNat
    let next := collectBucket base heads idx
    if clk &&& lvlClkMask ≠ 0 then next
    else collectLevels left (i + 1) (clk >>> lvlClkShift) next.1 next.2

/-- `__collect_expired_timers`: the lists that are moved. -/
def collectExpiredTimers (base : TimerBase τ) : TimerBase τ × List (List τ) :=
  collectLevels lvlDepth 0 base.clk base []

/-- The timers are collected and the clock advances. -/
def tick (base : TimerBase τ) : TimerBase τ :=
  { (collectExpiredTimers base).1 with clk := base.clk + 1 }

/-- The base after a number of jiffies. -/
def ticks (base : TimerBase τ) : ℕ → TimerBase τ
  | 0 => base
  | count + 1 => tick (ticks base count)

/-- The timers collected after a number of jiffies. -/
def collectedAt (base : TimerBase τ) (count : ℕ) : List τ :=
  (collectExpiredTimers (ticks base count)).2.flatten

end

variable {τ : Type*} {base : TimerBase τ} {timer : τ} {idx : ℕ}

/-- The loop looks at a bucket. -/
def visits : (left i : ℕ) → (clk : BitVec 32) → (idx : ℕ) → Bool
  | 0, _, _, _ => false
  | left + 1, i, clk, idx =>
    (clk &&& lvlMask).toNat + i * lvlSize.toNat == idx ||
      (clk &&& lvlClkMask == 0) && visits left (i + 1) (clk >>> lvlClkShift) idx

/-- A timer is in one bucket only, which is pending. -/
structure InBucket (base : TimerBase τ) (timer : τ) (idx : ℕ) : Prop where
  pending : base.pendingMap idx = true
  inside : timer ∈ base.vectors idx
  elsewhere : ∀ other, other ≠ idx → timer ∉ base.vectors other

theorem inBucket_enqueueTimer
    (fresh : ∀ other, timer ∉ base.vectors other) :
    InBucket (enqueueTimer base timer idx) timer idx := by
  refine ⟨update_self _ _ _, ?_, ?_⟩
  · rw [enqueueTimer]
    dsimp only
    rw [update_self]
    exact mem_cons_self
  · intro other differs
    rw [enqueueTimer]
    dsimp only
    rw [update_of_ne differs]
    exact fresh other

theorem InBucket.collectBucket_of_ne
    {heads : List (List τ)}
    {other : ℕ}
    (inBucket : InBucket base timer idx)
    (differs : other ≠ idx)
    (notYet : timer ∉ heads.flatten) :
    InBucket (collectBucket base heads other).1 timer idx ∧
    timer ∉ (collectBucket base heads other).2.flatten := by
  rw [collectBucket]
  split
  · refine ⟨⟨?_, ?_, ?_⟩, ?_⟩
    · dsimp only
      rw [update_of_ne differs.symm]
      exact inBucket.pending
    · dsimp only
      rw [update_of_ne differs.symm]
      exact inBucket.inside
    · intro third apart
      dsimp only
      by_cases same : third = other
      · rw [same, update_self]
        exact not_mem_nil
      · rw [update_of_ne same]
        exact inBucket.elsewhere third apart
    · rw [flatten_append, mem_append, flatten_singleton]
      rintro (old | new)
      · exact notYet old
      · exact inBucket.elsewhere other differs new
  · exact ⟨inBucket, notYet⟩

theorem mem_collectLevels_of_mem
    {heads : List (List τ)}
    {left i : ℕ}
    {clk : BitVec 32}
    (collected : timer ∈ heads.flatten) :
    timer ∈ (collectLevels left i clk base heads).2.flatten := by
  have kept (base : TimerBase τ) (heads : List (List τ)) (idx : ℕ)
      (collected : timer ∈ heads.flatten) : timer ∈ (collectBucket base heads idx).2.flatten := by
    rw [collectBucket]
    split
    · rw [flatten_append, mem_append]
      exact .inl collected
    · exact collected
  induction left generalizing i clk base heads with
  | zero => exact collected
  | succ left inductionHypothesis =>
    rw [collectLevels]
    split
    · exact kept _ _ _ collected
    · exact inductionHypothesis (kept _ _ _ collected)

/-- A timer is collected when its bucket is visited, else stays. -/
theorem InBucket.collectLevels
    {heads : List (List τ)}
    {left i : ℕ}
    {clk : BitVec 32}
    (inBucket : InBucket base timer idx)
    (notYet : timer ∉ heads.flatten) :
    (visits left i clk idx = true → timer ∈ (collectLevels left i clk base heads).2.flatten) ∧
    (visits left i clk idx = false → InBucket (collectLevels left i clk base heads).1 timer idx ∧
    timer ∉ (collectLevels left i clk base heads).2.flatten) := by
  induction left generalizing i clk base heads with
  | zero => exact ⟨fun visited => absurd visited (by simp [visits]), fun _ => ⟨inBucket, notYet⟩⟩
  | succ left inductionHypothesis =>
    rw [TimerWheel.collectLevels, visits]
    by_cases here : (clk &&& lvlMask).toNat + i * lvlSize.toNat = idx
    · have collected : timer ∈ (collectBucket base heads
          ((clk &&& lvlMask).toNat + i * lvlSize.toNat)).2.flatten := by
        rw [here, collectBucket, if_pos inBucket.pending,
          flatten_append, mem_append, flatten_singleton]
        exact .inr inBucket.inside
      constructor
      · intro _
        split
        · exact collected
        · exact mem_collectLevels_of_mem collected
      · intro notVisited
        rw [beq_iff_eq.mpr here, Bool.true_or] at notVisited
        exact absurd notVisited (by decide)
    · obtain ⟨stays, notCollected⟩ := inBucket.collectBucket_of_ne here notYet
      rw [beq_eq_false_iff_ne.mpr here]
      by_cases stops : clk &&& lvlClkMask = 0
      · rw [if_neg (not_not.mpr stops), beq_iff_eq.mpr stops]
        exact inductionHypothesis stays notCollected
      · rw [if_pos stops, beq_eq_false_iff_ne.mpr stops, Bool.false_and]
        exact ⟨fun visited => absurd visited (by decide), fun _ => ⟨stays, notCollected⟩⟩

theorem clk_ticks (count : ℕ) : (ticks base count).clk = base.clk + BitVec.ofNat 32 count := by
  induction count with
  | zero => exact (BitVec.add_zero _).symm
  | succ count inductionHypothesis =>
    rw [ticks, tick, inductionHypothesis, BitVec.ofNat_add, ← BitVec.add_assoc]
    rfl

/-- A jiffy looks at a bucket. -/
def visited (clk : BitVec 32) (idx : ℕ) : Bool := visits lvlDepth 0 clk idx

/-- A timer stays in its bucket until that is visited. -/
theorem InBucket.ticks
    (inBucket : InBucket base timer idx)
    {count : ℕ}
    (notVisited : ∀ earlier, earlier < count →
      visited (base.clk + BitVec.ofNat 32 earlier) idx = false) :
    InBucket (ticks base count) timer idx := by
  induction count with
  | zero => exact inBucket
  | succ count inductionHypothesis =>
    have stays :=
      inductionHypothesis fun earlier less => notVisited earlier (Nat.lt_succ_of_lt less)
    have notNow := notVisited count (Nat.lt_succ_self count)
    rw [← clk_ticks] at notNow
    have nothingYet : timer ∉ ([] : List (List τ)).flatten := by simp
    have next := ((stays.collectLevels nothingYet).2 notNow).1
    exact { next with }

/-- A timer is collected at its bucket's first visit. -/
theorem InBucket.first_iff
    (inBucket : InBucket base timer idx)
    (count : ℕ) :
    (timer ∈ collectedAt base count ∧
    ∀ earlier, earlier < count → timer ∉ collectedAt base earlier) ↔
    visited (base.clk + BitVec.ofNat 32 count) idx = true ∧ ∀ earlier, earlier < count →
    visited (base.clk + BitVec.ofNat 32 earlier) idx = false := by
  have collects (count : ℕ) (notVisited : ∀ earlier, earlier < count →
      visited (base.clk + BitVec.ofNat 32 earlier) idx = false) :
      timer ∈ collectedAt base count ↔ visited (base.clk + BitVec.ofNat 32 count) idx = true := by
    have step := @InBucket.collectLevels _ _ _ _ [] lvlDepth 0
      (TimerWheel.ticks base count).clk (inBucket.ticks notVisited) (by simp)
    rw [← clk_ticks]
    constructor
    · intro collected
      by_contra notNow
      rw [Bool.not_eq_true] at notNow
      exact (step.2 notNow).2 collected
    · exact step.1
  constructor
  · rintro ⟨collected, notBefore⟩
    have never : ∀ earlier, earlier < count →
        visited (base.clk + BitVec.ofNat 32 earlier) idx = false := by
      intro earlier
      induction earlier using Nat.strongRecOn with
      | ind earlier inductionHypothesis =>
        intro less
        have before := collects earlier fun first isBefore =>
          inductionHypothesis first isBefore (by omega)
        have notCollected := notBefore earlier less
        rw [before, Bool.not_eq_true] at notCollected
        exact notCollected
    exact ⟨(collects count never).mp collected, never⟩
  · rintro ⟨now, never⟩
    refine ⟨(collects count never).mpr now, ?_⟩
    intro earlier less
    rw [collects earlier fun first isBefore => never first (by omega), never earlier less]
    decide

end EchoKernel.TimerWheel
