import EchoKernel.BadblocksEntries

namespace EchoKernel.Block

open RangeList List
open BitVec hiding and_self append_assoc

/-!
# Setting a range of blocks, on entries

The code follows the algorithm on ranges while block numbers fit into entries.
-/

section
variable {sectors : BitVec 32}

theorem toNat_signExtend
    (positive : sectors.toNat < 2 ^ 31) :
    (sectors.signExtend 64).toNat = sectors.toNat := by
  have notNegative : sectors.msb = false := by
    rw [msb_eq_decide, decide_eq_false_iff_not]
    omega
  rw [signExtend_eq_setWidth_of_msb_false notNegative, toNat_setWidth]
  exact Nat.mod_eq_of_lt (by omega)

theorem toNat_target
    {state : SetState}
    (positive : state.sectors.toNat < 2 ^ 31)
    (fits : state.s.toNat + state.sectors.toNat < 2 ^ 64) :
    state.target.toNat = state.s.toNat + state.sectors.toNat := by
  rw [SetState.target, toNat_add, toNat_signExtend positive]
  exact Nat.mod_eq_of_lt fits

theorem toNat_pos (some : sectors ≠ 0) : 0 < sectors.toNat := by
  rw [Nat.pos_iff_ne_zero]
  exact fun isZero => some (eq_of_toNat_eq isZero)

/-- At most one full range is added at a time. -/
theorem toNat_thisSectors
    (positive : sectors.toNat < 2 ^ 31) :
    (thisSectors sectors).toNat = min bbMaxLen sectors.toNat := by
  have compared : (BitVec.ofNat 32 bbMaxLen).slt sectors = true ↔ bbMaxLen < sectors.toNat := by
    have limit : (BitVec.ofNat 32 bbMaxLen).toInt = 512 := by decide
    rw [slt_iff_toInt_lt, limit, toInt_eq_toNat_of_lt (by omega), bbMaxLen]
    omega
  rw [thisSectors]
  by_cases long : bbMaxLen < sectors.toNat
  · rw [if_pos (compared.mpr long), Nat.min_eq_left (Nat.le_of_lt long)]
    rfl
  · rw [if_neg (fun isLong => long (compared.mp isLong)), Nat.min_eq_right (Nat.not_lt.mp long)]

/-- The length of two combined ranges, which can be negative. -/
theorem toInt_newlen
    {lolen hilen s a : BitVec 64}
    (loShort : lolen.toNat ≤ 512)
    (hiShort : hilen.toNat ≤ 512)
    (touches : a.toNat ≤ s.toNat)
    (near : s.toNat - a.toNat ≤ lolen.toNat + hilen.toNat + 512) :
    ((lolen + hilen - (s - a)).setWidth 32).toInt =
    lolen.toNat + hilen.toNat + a.toNat - (s.toNat : Int) := by
  have difference : (lolen + hilen - (s - a)).toNat =
      if s.toNat - a.toNat ≤ lolen.toNat + hilen.toNat then
      lolen.toNat + hilen.toNat - (s.toNat - a.toNat) else
      2 ^ 64 + lolen.toNat + hilen.toNat - (s.toNat - a.toNat) := by
    split <;> bv_omega
  rw [toInt_eq_toNat_cond, toNat_setWidth, difference]
  by_cases positive : s.toNat - a.toNat ≤ lolen.toNat + hilen.toNat
  · rw [if_pos positive]
    omega
  · rw [if_neg positive]
    omega

theorem toNat_signExtend_of_toInt
    {length : BitVec 32}
    (positive : 0 < length.toInt) :
    (((length.signExtend 64).toNat : Nat) : Int) = length.toInt := by
  have small : length.toNat < 2 ^ 31 := by
    rw [toInt_eq_toNat_cond] at positive
    omega
  rw [toNat_signExtend small, toInt_eq_toNat_of_lt (by omega)]

theorem toNat_signExtend_sub_one
    {length : BitVec 32}
    (negative : length.toInt ≤ 0) :
    (((length.signExtend 64 - 1).toNat : Nat) : Int) = 2 ^ 64 + length.toInt - 1 := by
  have extended : (length.signExtend 64).toInt = length.toInt := toInt_signExtend_of_le (by decide)
  rw [toInt_eq_toNat_cond] at extended
  bv_omega

end

variable {acknowledged : Bool} {front back : List (BitVec 64)}

theorem insertIdx_length
    (entry : BitVec 64) :
    (front ++ back).insertIdx front.length entry = front ++ entry :: back := by
  induction front with
  | nil => rfl
  | cons first rest inductionHypothesis =>
    simpa using inductionHypothesis

theorem addRanges_zero
    (hi room : Nat)
    (page : List (BitVec 64))
    (s : BitVec 64) :
    addRanges acknowledged hi room page s 0 = (page, 0) := by
  cases room <;> rfl

/-- Ranges are added as the algorithm on ranges does. -/
theorem exists_addRanges
    {room : Nat}
    {s : BitVec 64}
    {sectors : BitVec 32}
    (positive : sectors.toNat < 2 ^ 31)
    (limited : s.toNat + sectors.toNat ≤ blockLimit) :
    ∃ after,
    addRanges acknowledged front.length room (front ++ back) s sectors = (front ++ after,
    if (addChunks room s.toNat (s.toNat + sectors.toNat) (back.map rangeOf)).2 then 1 else 0) ∧
    after.map rangeOf = (addChunks room s.toNat (s.toNat + sectors.toNat)
    (back.map rangeOf)).1 := by
  induction room generalizing back s sectors with
  | zero =>
    refine ⟨back, ?_, rfl⟩
    simp only [addRanges, addChunks, decide_eq_true_eq]
    by_cases nothing : sectors = 0
    · subst nothing
      simp
    have some : 0 < sectors.toNat := by
      rw [Nat.pos_iff_ne_zero]
      exact fun isZero => nothing (eq_of_toNat_eq isZero)
    rw [if_neg nothing, if_pos (by omega)]
  | succ room inductionHypothesis =>
    rw [addRanges, addChunks]
    by_cases nothing : sectors = 0
    · subst nothing
      exact ⟨back, by simp, by simp⟩
    have some := toNat_pos nothing
    have size := toNat_thisSectors positive
    have extended : ((thisSectors sectors).signExtend 64).toNat = min bbMaxLen sectors.toNat := by
      rw [toNat_signExtend (by omega), size]
    have length : min bbMaxLen sectors.toNat ≤ bbMaxLen := by omega
    have added : rangeOf (bbMake s ((thisSectors sectors).signExtend 64) acknowledged) =
        ⟨s.toNat, min (s.toNat + bbMaxLen) (s.toNat + sectors.toNat)⟩ := by
      rw [rangeOf_bbMake (by omega) (by rw [extended]; simp only [bbMaxLen]; omega)
        (by rw [extended]; exact length)]
      congr 1
      omega
    have nextStart : (s + (thisSectors sectors).signExtend 64).toNat =
        min (s.toNat + bbMaxLen) (s.toNat + sectors.toNat) := by
      simp only [blockLimit] at *
      bv_omega
    have nextSectors : (sectors - thisSectors sectors).toNat =
        sectors.toNat - min bbMaxLen sectors.toNat := by
      bv_omega
    obtain ⟨after, adds, ranges⟩ :=
      @inductionHypothesis (bbMake s ((thisSectors sectors).signExtend 64) acknowledged :: back)
        (s + (thisSectors sectors).signExtend 64) (sectors - thisSectors sectors) (by omega)
        (by omega)
    have sameEnd : (s + (thisSectors sectors).signExtend 64).toNat +
        (sectors - thisSectors sectors).toNat = s.toNat + sectors.toNat := by
      omega
    rw [sameEnd, nextStart, map_cons, added] at adds ranges
    have left : s.toNat < s.toNat + sectors.toNat := by omega
    rw [if_neg nothing, if_pos left, insertIdx_length]
    exact ⟨after, adds, ranges⟩

variable {s : BitVec 64}

section
variable {sectors : BitVec 32} {low high : BitVec 64}

theorem set_middle
    (entry : BitVec 64) :
    (front ++ low :: back).set front.length entry = front ++ entry :: back := by
  simp

theorem eraseIdx_middle :
    (front ++ low :: high :: back).eraseIdx (front.length + 1) = front ++ low :: back := by
  rw [eraseIdx_append_of_length_le (Nat.le_add_right _ 1), Nat.add_sub_cancel_left]
  rfl

/-- The last entry is combined as on ranges. -/
theorem exists_combine
    (ends : (rangeOf low).stop = s.toNat)
    (near : ∀ entry ∈ back, (rangeOf low).start < (rangeOf entry).start + bbMaxLen) :
    ∃ after,
    combine ⟨front ++ low :: back, s, 0, front.length, front.length + 1⟩ =
    ⟨front ++ after, s, 0, front.length, front.length + 1⟩ ∧
    after.map rangeOf = joinNext (rangeOf low).start s.toNat (back.map rangeOf) := by
  cases back with
  | nil =>
    refine ⟨[low], ?_, ?_⟩
    · simp [combine]
    · simp [joinNext, ← ends]
  | cons high rest =>
    have nearHigh := near high (by simp)
    have second : entryAt (front ++ low :: high :: rest) (front.length + 1) = high := by
      rw [entryAt_append_right]
      rfl
    have lowBounds := rangeOf_bounds low
    have highBounds := rangeOf_bounds high
    have lowStop : (rangeOf low).stop = (rangeOf low).start + (bbLen low).toNat := rfl
    have highStop : (rangeOf high).stop = (rangeOf high).start + (bbLen high).toNat := rfl
    have highStart : (rangeOf high).start = (bbOffset high).toNat := rfl
    have lowStart : (rangeOf low).start = (bbOffset low).toNat := rfl
    have inside : front.length + 1 < (front ++ low :: high :: rest).length := by simp
    rw [map_cons, joinNext]
    unfold combine
    simp only [inside, and_self, ↓reduceIte, entryAt_middle, second]
    generalize newlen : (bbLen low + bbLen high - (s - bbOffset high)).setWidth 32 = length
    by_cases touches : bbOffset high ≤ s
    · have touchesNat : (rangeOf high).start ≤ s.toNat := touches
      have value : length.toInt = (rangeOf high).stop - ((rangeOf low).start : Int) := by
        simp only [bbMaxLen] at *
        rw [← newlen, toInt_newlen (by omega) (by omega) touches (by omega)]
        omega
      have compared : length.slt (BitVec.ofNat 32 bbMaxLen) = true ↔
          (rangeOf high).stop < (rangeOf low).start + bbMaxLen := by
        have limit : (BitVec.ofNat 32 bbMaxLen).toInt = 512 := by decide
        rw [slt_iff_toInt_lt, limit, bbMaxLen]
        omega
      by_cases short : (rangeOf high).stop < (rangeOf low).start + bbMaxLen
      · rw [if_pos ⟨touches, compared.mpr short⟩,
          if_pos ⟨touchesNat, short⟩, set_middle, eraseIdx_middle]
        refine ⟨_, rfl, ?_⟩
        rw [map_cons, joined]
        congr 1
        by_cases later : (rangeOf low).start < (rangeOf high).stop
        · have size := @toNat_signExtend_of_toInt length (by omega)
          rw [if_pos later, rangeOf_bbMake lowBounds.2.2 (by omega) (by omega)]
          congr 1
          omega
        · have size := @toNat_signExtend_sub_one length (by omega)
          simp only [bbMaxLen] at *
          rw [if_neg later, rangeOf_bbMake_of_negative (by omega)]
          congr 1
          omega
      · rw [if_neg (fun both => short (compared.mp both.2)), if_neg (fun both => short both.2)]
        refine ⟨low :: high :: rest, rfl, ?_⟩
        rw [map_cons, map_cons, ← ends]
    · have touchesNat : ¬ (rangeOf high).start ≤ s.toNat := touches
      rw [if_neg (fun both => touches both.1), if_neg (fun both => touchesNat both.1)]
      refine ⟨low :: high :: rest, rfl, ?_⟩
      rw [map_cons, map_cons, ← ends]

theorem addRest_zero
    (page : List (BitVec 64))
    (lo hi : Nat) :
    addRest acknowledged ⟨page, s, 0, lo, hi⟩ = (page, 0) :=
  addRanges_zero hi _ page s

theorem combine_of_ne_zero
    {state : SetState}
    (some : state.sectors ≠ 0) :
    combine state = state := by
  rw [combine, if_neg (fun both => some both.1)]

section
variable {a e : BitVec 64} (order : a < e) (limited : e.toNat ≤ 2 ^ 54)
include order limited

/-- An entry from an offset to an end that is near. -/
theorem rangeOf_upTo
    {ack : Bool}
    (short : e - a ≤ BitVec.ofNat 64 512) :
    rangeOf (bbMake a (e - a) ack) = ⟨a.toNat, e.toNat⟩ := by
  have length : (e - a).toNat = e.toNat - a.toNat := by bv_omega
  rw [rangeOf_bbMake (by simp only [blockLimit]; bv_omega) (by bv_omega)
    (by simp only [bbMaxLen]; bv_omega), length]
  congr 1
  bv_omega

/-- What the longest entry leaves of a far request. -/
theorem left_of_far
    (reaches : e.toNat < a.toNat + 2 ^ 32)
    (far : ¬ e - a ≤ BitVec.ofNat 64 512) :
    a.toNat + 512 < e.toNat ∧ (a + BitVec.ofNat 64 512).toNat = a.toNat + 512 ∧
    ((e - (a + BitVec.ofNat 64 512)).setWidth 32).toNat = e.toNat - (a.toNat + 512) := by
  have rest : (e - (a + BitVec.ofNat 64 512)).toNat = e.toNat - (a.toNat + 512) := by bv_omega
  refine ⟨by bv_omega, by bv_omega, ?_⟩
  rw [toNat_setWidth, rest]
  omega

end

section
variable {lo : Nat} (positive : sectors.toNat < 2 ^ 31) (some : sectors ≠ 0)
  (limited : s.toNat + sectors.toNat ≤ blockLimit)
include positive some limited

/-- Adding ranges where nothing merges any more. -/
theorem exists_addRest :
    ∃ after, addRest acknowledged
    (combine ⟨front ++ back, s, sectors, lo, front.length⟩) = (front ++ after,
    if (addChunks (maxBadblocks - (front ++ back).length) s.toNat
    (s.toNat + sectors.toNat) (back.map rangeOf)).2 then 1 else 0) ∧
    after.map rangeOf = (addChunks (maxBadblocks - (front ++ back).length) s.toNat
    (s.toNat + sectors.toNat) (back.map rangeOf)).1 := by
  rw [combine_of_ne_zero (by exact some)]
  exact exists_addRanges positive limited

/-- The first entry after the request, as left by it. -/
theorem exists_mergeHigh
    {rest : List (BitVec 64)}
    (highLimited : (rangeOf high).stop ≤ blockLimit)
    (touches : (rangeOf high).start ≤ s.toNat + sectors.toNat)
    {e : Nat}
    (reached : max (rangeOf high).stop (s.toNat + sectors.toNat) = e) :
    ∃ entry next left,
    mergeHigh acknowledged ⟨front ++ high :: rest, s, sectors, lo, front.length⟩ =
    ⟨front ++ entry :: rest, next, left, front.length, front.length + 1⟩ ∧ rangeOf entry =
    ⟨s.toNat, next.toNat⟩ ∧ next.toNat = min e (s.toNat + bbMaxLen) ∧ next.toNat + left.toNat = e ∧
    left.toNat < 2 ^ 31 := by
  have bounds := rangeOf_bounds high
  have start : (rangeOf high).start = (bbOffset high).toNat := rfl
  have stop : (rangeOf high).stop = (bbOffset high).toNat + (bbLen high).toNat := rfl
  have amount := toNat_pos some
  have target := @toNat_target ⟨front ++ high :: rest, s, sectors, lo, front.length⟩ positive
    (by simp only [blockLimit] at *; omega)
  simp only [blockLimit, bbMaxLen] at *
  generalize targetIs : SetState.target ⟨front ++ high :: rest, s, sectors, lo,
    front.length⟩ = t at target
  have inside : front.length < (front ++ high :: rest).length := by simp
  have highEnd : (bbOffset high + bbLen high).toNat = (rangeOf high).stop := by bv_omega
  have touchesTarget : bbOffset high ≤ t := by
    rw [le_def]
    omega
  unfold mergeHigh
  simp only [ne_eq, some, inside, entryAt_middle, targetIs, touchesTarget]
  generalize endIs : (if bbOffset high + bbLen high ≤ t then t
    else bbOffset high + bbLen high) = finish
  have finishNat : finish.toNat = e := by
    rw [← endIs]
    split
    case isTrue order | isFalse order =>
      rw [le_def] at order
      omega
  have order : s < finish := by
    rw [lt_def]
    omega
  by_cases short : finish - s ≤ BitVec.ofNat 64 512
  · simp only [bbMaxLen, short, set_middle]
    refine ⟨_, finish, 0, rfl, rangeOf_upTo order (by omega) short, ?_, ?_, by decide⟩
    · bv_omega
    · simp [finishNat]
  · simp only [bbMaxLen, short, set_middle]
    obtain ⟨far, next, left⟩ := left_of_far order (by omega) (by omega) short
    refine ⟨_, _, _, rfl, ?_, by omega, by omega, by omega⟩
    rw [rangeOf_bbMake (by simp only [blockLimit]; omega) (by decide) (by decide), next]
    rfl

/-- What is left of a request is added as on ranges. -/
theorem exists_setRest
    (backLimited : ∀ entry ∈ back, (rangeOf entry).stop ≤ blockLimit)
    (near : ∀ entry ∈ back, s.toNat < (rangeOf entry).start + bbMaxLen) :
    ∃ after, addRest acknowledged
    (combine (mergeHigh acknowledged ⟨front ++ back, s, sectors, lo, front.length⟩)) =
    (front ++ after, if (setRest (maxBadblocks - (front ++ back).length) s.toNat
    (s.toNat + sectors.toNat) (back.map rangeOf)).2 then 1 else 0) ∧
    after.map rangeOf = (setRest (maxBadblocks - (front ++ back).length) s.toNat
    (s.toNat + sectors.toNat) (back.map rangeOf)).1 := by
  cases back with
  | nil =>
    have unmerged : mergeHigh acknowledged ⟨front ++ [], s, sectors, lo, front.length⟩ =
        ⟨front ++ [], s, sectors, lo, front.length⟩ := by
      rw [mergeHigh, if_neg]
      simp
    rw [unmerged]
    exact exists_addRest positive some limited
  | cons high rest =>
    have highLimited := backLimited high (by simp)
    rw [map_cons, setRest]
    by_cases touches : (rangeOf high).start ≤ s.toNat + sectors.toNat
    · obtain ⟨entry, next, left, merges, range, reaches, total, small⟩ :=
        @exists_mergeHigh acknowledged front s sectors high lo positive some limited rest
          highLimited touches _ rfl
      generalize reached : max (rangeOf high).stop (s.toNat + sectors.toNat) = e at *
      rw [if_pos touches, merges]
      by_cases short : e ≤ s.toNat + bbMaxLen
      · have nothing : left = 0 := by
          refine eq_of_toNat_eq ?_
          show left.toNat = 0
          omega
        subst nothing
        obtain ⟨after, combines, ranges⟩ :=
          @exists_combine front rest next entry (by rw [range]) (by
            intro later member
            rw [range]
            exact near later (mem_cons_of_mem _ member))
        rw [if_pos short, combines, addRest_zero]
        refine ⟨after, by simp, ?_⟩
        have nextIs : next.toNat = e := by omega
        rw [ranges, range, nextIs]
      · have notDone : left ≠ 0 := by
          rintro rfl
          change next.toNat + 0 = e at total
          omega
        obtain ⟨after, adds, ranges⟩ :=
          @exists_addRest acknowledged (front ++ [entry]) rest next left
            front.length small notDone (by omega)
        have nextIs : next.toNat = s.toNat + bbMaxLen := by omega
        have position : front.length + 1 = (front ++ [entry]).length := by simp
        have sameLength : ((front ++ [entry]) ++ rest).length = (front ++ high :: rest).length := by
          simp
        rw [if_neg short, append_cons, position, adds, sameLength]
        rw [total, nextIs, sameLength] at ranges
        rw [total, nextIs]
        refine ⟨entry :: after, by simp, ?_⟩
        rw [map_cons, ranges, range, nextIs]
    · have target := @toNat_target ⟨front ++ high :: rest, s, sectors, lo, front.length⟩ positive
        (by simp only [blockLimit] at *; omega)
      have unmerged : mergeHigh acknowledged ⟨front ++ high :: rest, s, sectors, lo, front.length⟩ =
          ⟨front ++ high :: rest, s, sectors, lo, front.length⟩ := by
        have notTouching : ¬ bbOffset high ≤
            SetState.target ⟨front ++ high :: rest, s, sectors, lo, front.length⟩ := by
          rw [le_def, target]
          exact touches
        unfold mergeHigh
        simp [entryAt_middle, notTouching, ite_self]
      rw [if_neg touches, unmerged]
      exact exists_addRest positive some limited

end

/-- The last entry before the request, as left by it. -/
theorem exists_mergeLow
    (positive : sectors.toNat < 2 ^ 31)
    (limited : s.toNat + sectors.toNat ≤ blockLimit)
    (lowLimited : (rangeOf low).stop ≤ blockLimit)
    (starts : (rangeOf low).start ≤ s.toNat)
    (touches : s.toNat ≤ (rangeOf low).stop)
    {e : Nat}
    (reached : max (rangeOf low).stop (s.toNat + sectors.toNat) = e) :
    ∃ entry next left,
    mergeLow acknowledged ⟨front ++ low :: back, s, sectors, front.length, front.length + 1⟩ =
    ⟨front ++ entry :: back, next, left, front.length, front.length + 1⟩ ∧ rangeOf entry =
    ⟨(rangeOf low).start, next.toNat⟩ ∧ next.toNat = min e ((rangeOf low).start + bbMaxLen) ∧
    next.toNat + left.toNat = e ∧ left.toNat < 2 ^ 31 := by
  have bounds := rangeOf_bounds low
  have start : (rangeOf low).start = (bbOffset low).toNat := rfl
  have stop : (rangeOf low).stop = (bbOffset low).toNat + (bbLen low).toNat := rfl
  have target := @toNat_target ⟨front ++ low :: back, s, sectors, front.length, front.length + 1⟩
    positive (by simp only [blockLimit] at *; omega)
  simp only [blockLimit, bbMaxLen] at *
  generalize targetIs : SetState.target ⟨front ++ low :: back, s, sectors, front.length,
    front.length + 1⟩ = t at target
  have lowEnd : (bbOffset low + bbLen low).toNat = (rangeOf low).stop := by bv_omega
  have touchesLow : s ≤ bbOffset low + bbLen low := by
    rw [le_def, lowEnd]
    exact touches
  unfold mergeLow
  simp only [Nat.lt_add_one, ↓reduceIte, entryAt_middle, targetIs, touchesLow]
  generalize endIs : (if bbOffset low + bbLen low < t then t else bbOffset low + bbLen low) = finish
  have finishNat : finish.toNat = e := by
    rw [← endIs]
    split
    case isTrue order | isFalse order =>
      rw [lt_def] at order
      omega
  have order : bbOffset low < finish := by
    rw [lt_def]
    omega
  by_cases short : finish - bbOffset low ≤ BitVec.ofNat 64 512
  · simp only [bbMaxLen, short, ↓reduceIte, set_middle]
    refine ⟨_, finish, 0, rfl, rangeOf_upTo order (by omega) short, ?_, ?_, by decide⟩
    · bv_omega
    · simp [finishNat]
  simp only [bbMaxLen, short, ↓reduceIte, set_middle]
  obtain ⟨far, next, left⟩ := left_of_far order (by omega) (by omega) short
  by_cases maximal : bbLen low = BitVec.ofNat 64 512
  · have size : (bbLen low).toNat = 512 := by rw [maximal]; rfl
    simp only [maximal, not_true_eq_false, ↓reduceIte, ne_eq]
    refine ⟨low, _, _, rfl, ?_, by omega, by omega, by omega⟩
    rw [next, rangeOf, size]
  · simp only [maximal, not_false_eq_true, ↓reduceIte, ne_eq]
    refine ⟨_, _, _, rfl, ?_, by omega, by omega, by omega⟩
    rw [rangeOf_bbMake bounds.2.2 (by decide) (by decide), next]
    rfl

end

variable {before : List (BitVec 64)} {sectors : BitVec 32}

/-- With no entry before the request the indexes stay at the start. -/
theorem setBlocks_of_none
    (backStarts : ∀ entry ∈ back, s.toNat < (rangeOf entry).start) :
    setBlocks back s sectors acknowledged =
    addRest acknowledged (combine (mergeHigh acknowledged ⟨back, s, sectors, 0, 0⟩)) := by
  have unmerged : mergeLow acknowledged ⟨back, s, sectors, 0, 0⟩ = ⟨back, s, sectors, 0, 0⟩ := by
    simp [mergeLow]
  unfold setBlocks
  cases back with
  | nil =>
    have found : lastBefore (fun a => decide (a ≤ s)) [] = (0, 0) := rfl
    simp [found, unmerged]
  | cons first rest =>
    have later : s < bbOffset first := backStarts first (by simp)
    have found := @lastBefore_eq (fun a => decide (a ≤ s)) [] (first :: rest)
      (by simp)
      (by
        intro entry member
        rw [decide_eq_false_iff_not, BitVec.not_le]
        exact backStarts entry member)
      (by simp)
    simp only [nil_append, length_nil] at found
    have both : s < bbOffset (entryAt (first :: rest) 0) := later
    simp [found, both, unmerged]

/-- With one before the request the indexes are around its end. -/
theorem setBlocks_of_some
    {low : BitVec 64}
    (beforeStarts : ∀ entry ∈ before, (rangeOf entry).start ≤ s.toNat)
    (lowStarts : (rangeOf low).start ≤ s.toNat)
    (backStarts : ∀ entry ∈ back, s.toNat < (rangeOf entry).start) :
    setBlocks (before ++ low :: back) s sectors acknowledged = addRest acknowledged (combine
    (mergeHigh acknowledged (mergeLow acknowledged
    ⟨before ++ low :: back, s, sectors, before.length, before.length + 1⟩))) := by
  have found := @lastBefore_eq (fun a => decide (a ≤ s)) (before ++ [low]) back (by
      intro entry member
      rw [decide_eq_true_iff]
      rcases mem_append.mp member with inBefore | isLow
      · exact beforeStarts entry inBefore
      · rw [mem_singleton.mp isLow]
        exact lowStarts)
    (by
      intro entry member
      rw [decide_eq_false_iff_not, BitVec.not_le]
      exact backStarts entry member)
    (by simp)
  have notLater : ¬ s < bbOffset low := BitVec.not_lt.mpr (show bbOffset low ≤ s from lowStarts)
  simp only [append_assoc, singleton_append, length_append,
    length_singleton, Nat.le_add_left, Nat.max_eq_left, Nat.add_sub_cancel] at found
  unfold setBlocks
  simp [found, entryAt_middle, notLater, ↓reduceIte]

/-- A request is added as on ranges. -/
theorem exists_setBlocks
    {low : Option (BitVec 64)}
    (noLow : low = none → before = [])
    (frontStarts : ∀ entry ∈ before ++ low.toList, (rangeOf entry).start ≤ s.toNat)
    (backStarts : ∀ entry ∈ back, s.toNat < (rangeOf entry).start)
    (allLimited : ∀ entry ∈ before ++ low.toList ++ back, (rangeOf entry).stop ≤ blockLimit)
    (positive : sectors.toNat < 2 ^ 31)
    (some : sectors ≠ 0)
    (limited : s.toNat + sectors.toNat ≤ blockLimit) :
    ∃ after,
    setBlocks (before ++ low.toList ++ back) s sectors acknowledged = (before ++ after,
    if (setRanges (maxBadblocks - (before ++ low.toList ++ back).length)
    s.toNat (s.toNat + sectors.toNat) (low.map rangeOf) (back.map rangeOf)).2 then 1 else 0) ∧
    after.map rangeOf = (setRanges (maxBadblocks - (before ++ low.toList ++ back).length)
    s.toNat (s.toNat + sectors.toNat) (low.map rangeOf) (back.map rangeOf)).1 := by
  have backLimited : ∀ entry ∈ back, (rangeOf entry).stop ≤ blockLimit :=
    fun entry member => allLimited entry (mem_append_right _ member)
  have backNear : ∀ entry ∈ back, s.toNat < (rangeOf entry).start + bbMaxLen :=
    fun entry member => Nat.lt_of_lt_of_le (backStarts entry member) (Nat.le_add_right ..)
  cases low with
  | none =>
    have noBefore := noLow rfl
    subst noBefore
    simp only [Option.toList_none, append_nil, nil_append, Option.map_none, setRanges]
    rw [setBlocks_of_none backStarts]
    exact @exists_setRest acknowledged [] back s sectors 0 positive some
      limited backLimited backNear
  | some low =>
    have lowStarts := frontStarts low (by simp)
    have lowLimited := allLimited low (by simp)
    have lowBounds := rangeOf_bounds low
    have shape : before ++ (Option.some low).toList ++ back = before ++ low :: back := by simp
    rw [shape, setBlocks_of_some
      (fun entry member => frontStarts entry (by simp [member])) lowStarts
      backStarts, Option.map_some, setRanges]
    by_cases touches : s.toNat ≤ (rangeOf low).stop
    · obtain ⟨entry, next, left, merges, range, reaches, total, small⟩ :=
        @exists_mergeLow acknowledged before back s sectors low positive
          limited lowLimited lowStarts touches _ rfl
      generalize reached : max (rangeOf low).stop (s.toNat + sectors.toNat) = e at *
      rw [if_pos touches, merges]
      by_cases short : e ≤ (rangeOf low).start + bbMaxLen
      · have nothing : left = 0 := by
          refine eq_of_toNat_eq ?_
          show left.toNat = 0
          omega
        subst nothing
        have unmerged : mergeHigh acknowledged ⟨before ++ entry :: back, next, 0, before.length,
            before.length + 1⟩ = ⟨before ++ entry :: back, next, 0, before.length,
            before.length + 1⟩ := by
          rw [mergeHigh, if_neg]
          simp
        obtain ⟨after, combines, ranges⟩ :=
          @exists_combine before back next entry (by rw [range]) (by
            intro later member
            rw [range]
            have starts := backStarts later member
            show (rangeOf low).start < _
            omega)
        rw [if_pos short, unmerged, combines, addRest_zero]
        refine ⟨after, by simp, ?_⟩
        have nextIs : next.toNat = e := by omega
        rw [ranges, range, nextIs]
      · have notDone : left ≠ 0 := by
          rintro rfl
          change next.toNat + 0 = e at total
          omega
        have nextIs : next.toNat = (rangeOf low).start + bbMaxLen := by
          omega
        have sameEnd : next.toNat + left.toNat = s.toNat + sectors.toNat := by
          omega
        obtain ⟨after, adds, ranges⟩ :=
          @exists_setRest acknowledged (before ++ [entry]) back next left
            before.length small notDone (by omega) backLimited (by
              intro later member
              have starts := backStarts later member
              omega)
        have position : before.length + 1 = (before ++ [entry]).length := by simp
        have sameLength : ((before ++ [entry]) ++ back).length =
            (before ++ low :: back).length := by
          simp
        rw [if_neg short, append_cons, position, adds, sameLength, sameEnd, nextIs]
        rw [sameLength, sameEnd, nextIs] at ranges
        refine ⟨entry :: after, by simp, ?_⟩
        rw [map_cons, ranges, range, nextIs]
    · have notTouching : ¬ s ≤ bbOffset low + bbLen low := by
        have sum : (bbOffset low + bbLen low).toNat = (rangeOf low).stop := by
          refine Nat.mod_eq_of_lt ?_
          change (rangeOf low).stop < 2 ^ 64
          omega
        rw [le_def, sum]
        exact touches
      have unmerged : mergeLow acknowledged ⟨before ++ low :: back, s, sectors, before.length,
          before.length + 1⟩ = ⟨before ++ low :: back, s, sectors, before.length,
          before.length + 1⟩ := by
        unfold mergeLow
        simp [entryAt_middle, notTouching]
      obtain ⟨after, adds, ranges⟩ := @exists_setRest acknowledged (before ++ [low]) back s sectors
        before.length positive some limited backLimited backNear
      have position : before.length + 1 = (before ++ [low]).length := by simp
      rw [if_neg touches, unmerged, append_cons, position, adds]
      refine ⟨low :: after, by simp, ?_⟩
      rw [map_cons, ranges]

end EchoKernel.Block
