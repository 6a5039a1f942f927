import Mathlib.Data.List.Basic
import Mathlib.Algebra.Group.Nat.Defs

namespace EchoKernel.WinMinmax

open List

/-!
# Windowed minimum and maximum

`win_minmax.c` keeps the best three measurements of a window. A sample has the
whole time at which it was taken, of which the code has 32 bits.
-/

/-- `struct minmax_sample`. -/
structure MinmaxSample where
  time : Nat
  v : BitVec 32
  deriving Repr, DecidableEq

def MinmaxSample.t (sample : MinmaxSample) : BitVec 32 := BitVec.ofNat 32 sample.time

/-- `struct minmax`. -/
structure Minmax where
  s0 : MinmaxSample
  s1 : MinmaxSample
  s2 : MinmaxSample
  deriving Repr, DecidableEq

/-- `minmax_reset`, with the value that is returned. -/
def minmaxReset (val : MinmaxSample) : Minmax × BitVec 32 := (⟨val, val, val⟩, val.v)

/-- The second and third choice move up. -/
def Minmax.shift (m : Minmax) (val : MinmaxSample) : Minmax := ⟨m.s1, m.s2, val⟩

/-- The choices after `minmax_subwin_update`. -/
def Minmax.subwin (m : Minmax) (win : BitVec 32) (val : MinmaxSample) : Minmax :=
  let dt := val.t - m.s0.t
  if win < dt then
    let m := m.shift val
    if win < val.t - m.s0.t then m.shift val else m
  else if m.s1.t = m.s0.t ∧ win / 4 < dt then ⟨m.s0, val, val⟩
  else if m.s2.t = m.s1.t ∧ win / 2 < dt then ⟨m.s0, m.s1, val⟩
  else m

/-- `minmax_subwin_update`. -/
def minmaxSubwinUpdate (m : Minmax) (win : BitVec 32) (val : MinmaxSample) : Minmax × BitVec 32 :=
  (m.subwin win val, (m.subwin win val).s0.v)

/-- A new measurement updates the choices that it beats. -/
def minmaxRunning (beats : BitVec 32 → BitVec 32 → Bool) (m : Minmax) (win : BitVec 32)
    (val : MinmaxSample) : Minmax × BitVec 32 :=
  if beats val.v m.s0.v ∨ win < val.t - m.s2.t then minmaxReset val
  else
    let m :=
      if beats val.v m.s1.v then ⟨m.s0, val, val⟩
      else if beats val.v m.s2.v then ⟨m.s0, m.s1, val⟩
      else m
    minmaxSubwinUpdate m win val

/-- `minmax_running_max`. -/
def minmaxRunningMax : Minmax → BitVec 32 → MinmaxSample → Minmax × BitVec 32 :=
  minmaxRunning fun new old => old ≤ new

/-- `minmax_running_min`. -/
def minmaxRunningMin : Minmax → BitVec 32 → MinmaxSample → Minmax × BitVec 32 :=
  minmaxRunning fun new old => new ≤ old

/-- What is tracked. -/
inductive Extremum where
  | max
  | min
  deriving Repr, DecidableEq

/-- A value is at least as good as another one. -/
def Extremum.beats : Extremum → BitVec 32 → BitVec 32 → Bool
  | .max, new, old => old ≤ new
  | .min, new, old => new ≤ old

/-- The call that takes a measurement. -/
def Extremum.running : Extremum → Minmax → BitVec 32 → MinmaxSample → Minmax × BitVec 32
  | .max => minmaxRunningMax
  | .min => minmaxRunningMin

/-- A measurement not older than the others and near the kept ones. -/
structure Next (history : List MinmaxSample) (m : Minmax) (val : MinmaxSample) : Prop where
  ordered : ∀ old ∈ history, old.time ≤ val.time
  near : val.time < m.s0.time + 2 ^ 32

/-- The choices after measurements, the newest one first. -/
inductive Measured (side : Extremum) : List MinmaxSample → Minmax → Prop
  | reset (val : MinmaxSample) : Measured side [val] (minmaxReset val).1
  | running {history : List MinmaxSample} {m : Minmax} {val : MinmaxSample} (win : BitVec 32)
      (measured : Measured side history m) (next : Next history m val) :
      Measured side (val :: history) (side.running m win val).1

/-- A measurement as good as every later one. -/
def Covers (side : Extremum) (history : List MinmaxSample) (sample : MinmaxSample) : Prop :=
  ∃ later earlier, history = later ++ sample :: earlier ∧
    ∀ other ∈ later, side.beats sample.v other.v

/-- The kept samples are the best since their times, in order of values and times. -/
structure Tracks (side : Extremum) (history : List MinmaxSample) (m : Minmax) : Prop where
  covers : ∀ sample ∈ [m.s0, m.s1, m.s2], Covers side history sample
  values : side.beats m.s0.v m.s1.v ∧ side.beats m.s1.v m.s2.v
  times : m.s0.time ≤ m.s1.time ∧ m.s1.time ≤ m.s2.time

/-- A call returns the best value of its window. -/
structure Returns (side : Extremum) (history : List MinmaxSample) (win : BitVec 32)
    (val : MinmaxSample) (result : Minmax × BitVec 32) : Prop where
  tracks : Tracks side (val :: history) result.1
  value : result.2 = result.1.s0.v
  inWindow : val.time ≤ result.1.s0.time + win.toNat

variable {side : Extremum} {history : List MinmaxSample} {m : Minmax} {win : BitVec 32}
variable {sample val : MinmaxSample}

theorem Extremum.running_eq : side.running = minmaxRunning side.beats := by
  cases side <;> rfl

theorem Extremum.beats_of_not
    {new old : BitVec 32}
    (not : ¬ side.beats new old) :
    side.beats old new := by
  cases side with
  | max | min =>
    rw [beats, decide_eq_true_eq, BitVec.not_le] at not
    exact decide_eq_true (BitVec.le_of_lt not)

theorem Extremum.beats_self {value : BitVec 32} : side.beats value value := by
  cases side with
  | max | min => exact decide_eq_true (BitVec.le_refl value)

/-- Near times have the difference that the code computes. -/
theorem toNat_t_sub
    (order : sample.time ≤ val.time)
    (near : val.time < sample.time + 2 ^ 32) :
    (val.t - sample.t).toNat = val.time - sample.time := by
  simp only [MinmaxSample.t, BitVec.toNat_sub, BitVec.toNat_ofNat]
  omega

theorem Covers.mem (covers : Covers side history sample) : sample ∈ history := by
  obtain ⟨later, earlier, rfl, -⟩ := covers
  simp

theorem covers_self : Covers side (val :: history) val := ⟨[], history, rfl, by simp⟩

theorem Covers.cons
    (covers : Covers side history sample)
    (beats : side.beats sample.v val.v) :
    Covers side (val :: history) sample := by
  obtain ⟨later, earlier, rfl, best⟩ := covers
  exact ⟨val :: later, earlier, rfl, forall_mem_cons.mpr ⟨beats, best⟩⟩

theorem Covers.beats_head
    (covers : Covers side (val :: history) sample) :
    side.beats sample.v val.v := by
  obtain ⟨later, earlier, shape, best⟩ := covers
  cases later with
  | nil =>
    cases shape
    exact Extremum.beats_self
  | cons first later =>
    cases shape
    exact best val mem_cons_self

section
variable {s0 s1 : MinmaxSample} (first : Covers side (val :: history) s0)
variable (newest : ∀ old ∈ val :: history, old.time ≤ val.time)
include first newest

theorem Tracks.last
    (second : Covers side (val :: history) s1)
    (values : side.beats s0.v s1.v)
    (times : s0.time ≤ s1.time) :
    Tracks side (val :: history) ⟨s0, s1, val⟩ :=
  ⟨by simp [first, second, covers_self], ⟨values, second.beats_head⟩, times, newest s1 second.mem⟩

/-- The newest one as the second and last choice. -/
theorem Tracks.lastTwo : Tracks side (val :: history) ⟨s0, val, val⟩ :=
  .last first newest covers_self first.beats_head (newest s0 first.mem)

end

theorem Tracks.covers_each
    (tracks : Tracks side history m) :
    Covers side history m.s0 ∧ Covers side history m.s1 ∧ Covers side history m.s2 := by
  simpa using tracks.covers

/-- The choices of a window, when the last one is in the window. -/
theorem Tracks.subwin
    (tracks : Tracks side (val :: history) m)
    (newest : ∀ old ∈ val :: history, old.time ≤ val.time)
    (near : val.time < m.s0.time + 2 ^ 32)
    (inWindow : val.time ≤ m.s2.time + win.toNat) :
    Returns side history win val (minmaxSubwinUpdate m win val) := by
  obtain ⟨first, second, third⟩ := tracks.covers_each
  obtain ⟨firstBeats, secondBeats⟩ := tracks.values
  obtain ⟨firstTime, secondTime⟩ := tracks.times
  have dt := toNat_t_sub (newest _ first.mem) near
  have secondDt := toNat_t_sub (newest _ second.mem) (by omega)
  obtain ⟨moved, movedIn⟩ : Tracks side (val :: history) (m.subwin win val) ∧
      val.time ≤ (m.subwin win val).s0.time + win.toNat := by
    unfold Minmax.subwin
    simp only [Minmax.shift, BitVec.lt_def, secondDt]
    split
    case isTrue =>
      split
      case isTrue => exact ⟨.lastTwo third newest, inWindow⟩
      case isFalse recent =>
        exact ⟨.last second newest third secondBeats secondTime, by dsimp only; omega⟩
    case isFalse recent =>
      have firstIn : val.time ≤ m.s0.time + win.toNat := by omega
      split
      case isTrue => exact ⟨.lastTwo first newest, firstIn⟩
      case isFalse =>
        split
        case isTrue => exact ⟨.last first newest second firstBeats firstTime, firstIn⟩
        case isFalse => exact ⟨tracks, firstIn⟩
  exact ⟨moved, rfl, movedIn⟩

/-- A call keeps the samples as they should be. -/
theorem Tracks.running
    (tracks : Tracks side history m)
    (next : Next history m val) :
    Returns side history win val (side.running m win val) := by
  obtain ⟨first, second, third⟩ := tracks.covers_each
  obtain ⟨-, values, times⟩ := tracks
  have near := next.near
  have newest : ∀ old ∈ val :: history, old.time ≤ val.time :=
    forall_mem_cons.mpr ⟨Nat.le_refl _, next.ordered⟩
  have thirdDt := toNat_t_sub (next.ordered _ third.mem) (by omega)
  rw [Extremum.running_eq, minmaxRunning]
  simp only [BitVec.lt_def]
  split
  case isTrue => exact ⟨.lastTwo covers_self newest, rfl, Nat.le_add_right ..⟩
  case isFalse kept =>
    rw [not_or] at kept
    replace first := first.cons (Extremum.beats_of_not kept.1)
    split
    case isTrue => exact (Tracks.lastTwo first newest).subwin newest near (Nat.le_add_right ..)
    case isFalse notSecond =>
      replace second := second.cons (Extremum.beats_of_not notSecond)
      split
      case isTrue =>
        exact (Tracks.last first newest second values.1 times.1).subwin newest near
          (Nat.le_add_right ..)
      case isFalse notThird =>
        replace third := third.cons (Extremum.beats_of_not notThird)
        have inWindow : val.time ≤ m.s2.time + win.toNat := by omega
        exact Tracks.subwin ⟨by simp [first, second, third], values, times⟩ newest near inWindow

/-- Every call returns a best measurement of its window. -/
theorem returns_of_measured
    (measured : Measured side history m)
    (next : Next history m val) :
    Returns side history win val (side.running m win val) := by
  have tracks : Tracks side history m := by
    clear next
    induction measured with
    | reset val => exact .lastTwo covers_self (by simp)
    | running win measured next inductionHypothesis =>
      exact (inductionHypothesis.running next).tracks
  exact tracks.running next

theorem returns_of_measured_wrapped :
    Returns .max [⟨2 ^ 32 - 1, 7⟩] 10 ⟨2 ^ 32 + 3, 5⟩
    (minmaxRunningMax (minmaxReset ⟨2 ^ 32 - 1, 7⟩).1 10 ⟨2 ^ 32 + 3, 5⟩) :=
  returns_of_measured (.reset _) ⟨by simp, by decide⟩

end EchoKernel.WinMinmax
