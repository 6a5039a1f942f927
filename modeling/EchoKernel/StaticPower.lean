import Mathlib.Tactic.Linarith

namespace EchoKernel.StaticPower

open List

/-!
# The leakage for a voltage and a temperature

`sptab_lookup` of `mtk_static_power.c`. A read outside the table has no result.
The kernel is compiled with `-fno-strict-overflow`, so sums and products of
`int` wrap.
-/

/--
The axes of `struct sptbl_t`, its columns' voltages and its rows' temperatures.
An axis is no longer than `2 ^ 30` millivolts or degrees.
-/
structure Sptbl where
  mV : List ℤ
  deg : List ℤ
  isWide : 2 ≤ mV.length ∧ 2 ≤ deg.length
  isSorted : mV.Pairwise (· < ·) ∧ deg.Pairwise (· < ·)
  isNarrow : (∀ x ∈ mV, ∀ y ∈ mV, y - x ≤ 2 ^ 30) ∧ ∀ x ∈ deg, ∀ y ∈ deg, y - x ≤ 2 ^ 30

/-- The value that an `int` holds. -/
def int (value : ℤ) : ℤ := value.bmod (2 ^ 32)

/-- `interpolate`. -/
def interpolate (x1 x2 x3 y1 y2 : ℤ) : ℤ :=
  if x1 = x2 then (int (y1 + y2)).tdiv 2
  else int ((int (int (x3 - x1) * int (y2 - y1))).tdiv (int (x2 - x1)) + y1)

/-- The indices that `sptab_lookup` chooses on one axis. -/
def axis (row : List ℤ) (x : ℤ) : Option (ℕ × ℕ) := do
  let i := row.findIdx (x ≤ ·)
  -- the entry is read before the index is compared with the size
  if x = (← row[i]?) then return (i, i)
  else if i = row.length then return (row.length - 2, row.length - 1)
  else if i = 0 then return (0, 1)
  else return (i - 1, i)

/-- Adjacent entries, or one entry twice, around a query. -/
structure Neighbours (row : List ℤ) (x : ℤ) (i j : ℕ) : Prop where
  isI : i < row.length
  isJ : j < row.length
  next : j = i ∧ row[i] = x ∨ j = i + 1 ∧ row[i] < x ∧ x < row[j]

/-- Cells hold an `int` each, and differ by at most `spread`. -/
structure Cells (spread : ℕ) (mA : ℕ → ℕ → ℤ) : Prop where
  isInt : ∀ v t, -2 ^ 31 ≤ mA v t ∧ mA v t < 2 ^ 31
  close : ∀ v t w u, mA v t - mA w u ≤ spread

/-- Between two entries, the way from the lower one times the spread is an `int`. -/
def Fits (row : List ℤ) (x : ℤ) (spread : ℕ) : Prop :=
  ∀ i, (isNext : i + 1 < row.length) → row[i] < x → x < row[i + 1] →
    (x - row[i]) * spread < 2 ^ 31

section
variable {low high x1 x2 x3 y1 y2 x : ℤ} {row : List ℤ} {spread : ℕ}

/-- What an `int` can hold is kept. -/
theorem int_eq (lower : -2 ^ 31 ≤ x) (upper : x < 2 ^ 31) : int x = x :=
  Int.bmod_eq_of_le (by omega) (by omega)

/-- A quotient is between the bounds of its dividend. -/
theorem tdiv_between
    (positive : 0 < x3)
    (lower : low * x3 ≤ x)
    (upper : x ≤ high * x3) :
    low ≤ x.tdiv x3 ∧ x.tdiv x3 ≤ high := by
  refine ⟨Int.le_tdiv_of_mul_le positive lower, ?_⟩
  exact (Int.tdiv_le_tdiv positive upper).trans_eq (Int.mul_tdiv_cancel _ positive.ne')

/-- An interpolation whose product fits stays between its two values. -/
theorem interpolate_between
    (isSmall : spread < 2 ^ 31)
    (from1 : x1 < x3)
    (to2 : x3 < x2)
    (narrow : x2 - x1 ≤ 2 ^ 30)
    (fits : (x3 - x1) * spread < 2 ^ 31)
    (isInt : -2 ^ 31 ≤ low ∧ high < 2 ^ 31)
    (close : high - low ≤ spread)
    (first : low ≤ y1 ∧ y1 ≤ high)
    (second : low ≤ y2 ∧ y2 ≤ high) :
    low ≤ interpolate x1 x2 x3 y1 y2 ∧ interpolate x1 x2 x3 y1 y2 ≤ high := by
  have width : 0 < x2 - x1 := by omega
  have lower : (low - y1) * (x2 - x1) ≤ (x3 - x1) * (y2 - y1) := by nlinarith
  have upper : (x3 - x1) * (y2 - y1) ≤ (high - y1) * (x2 - x1) := by nlinarith
  have moved := tdiv_between width lower upper
  have most : (x3 - x1) * (y2 - y1) ≤ (x3 - x1) * spread :=
    mul_le_mul_of_nonneg_left (by omega) (by omega)
  have least : (x3 - x1) * -spread ≤ (x3 - x1) * (y2 - y1) :=
    mul_le_mul_of_nonneg_left (by omega) (by omega)
  rw [mul_neg] at least
  rw [interpolate, if_neg (by omega), int_eq (x := x3 - x1) (by omega) (by omega),
    int_eq (x := y2 - y1) (by omega) (by omega), int_eq (x := x2 - x1) (by omega) (by omega),
    int_eq (x := (x3 - x1) * (y2 - y1)) (by omega) (by omega), int_eq (by omega) (by omega)]
  omega

/-- Equal values are kept, whatever wraps. -/
theorem interpolate_same
    (apart : x1 ≠ x2)
    (lower : -2 ^ 31 ≤ x)
    (upper : x < 2 ^ 31) :
    interpolate x1 x2 x3 x x = x := by
  have isZero : int (x - x) = 0 := by rw [sub_self]; rfl
  have isProduct : int (int (x3 - x1) * 0) = 0 := by rw [mul_zero]; rfl
  rw [interpolate, if_neg apart, isZero, isProduct, Int.zero_tdiv, zero_add, int_eq lower upper]

/-- If the product does not fit, some value above zero gives one below. -/
theorem exists_interpolate_neg
    (isSmall : spread < 2 ^ 31)
    (from1 : x1 < x3)
    (to2 : x3 < x2)
    (narrow : x2 - x1 ≤ 2 ^ 30)
    (overflows : 2 ^ 31 ≤ (x3 - x1) * spread) :
    ∃ r : ℤ, 0 ≤ r ∧ r ≤ spread ∧ -2 ^ 31 ≤ interpolate x1 x2 x3 0 r ∧
      interpolate x1 x2 x3 0 r < 0 := by
  have gap : 0 < x3 - x1 := by omega
  -- the least value whose product is too large
  generalize isR : (2 ^ 31 + (x3 - x1) - 1) / (x3 - x1) = r
  have atLeast : 2 ^ 31 ≤ (x3 - x1) * r := by
    have division := Int.lt_mul_ediv_self_add gap (x := 2 ^ 31 + (x3 - x1) - 1)
    rw [isR] at division
    omega
  have atMost : (x3 - x1) * r < 2 ^ 31 + (x3 - x1) := by
    have division := Int.mul_ediv_self_le gap.ne' (x := 2 ^ 31 + (x3 - x1) - 1)
    rw [isR] at division
    omega
  have nonneg : 0 ≤ r := by nlinarith
  have within : r ≤ spread := by
    rw [← isR, ← Int.lt_add_one_iff]
    refine Int.ediv_lt_of_lt_mul gap ?_
    nlinarith
  have large : r < 2 ^ 31 := by omega
  have isValue : interpolate x1 x2 x3 0 r = int ((int ((x3 - x1) * r)).tdiv (x2 - x1)) := by
    rw [interpolate, if_neg (by omega), sub_zero, add_zero,
      int_eq (x := x3 - x1) (by omega) (by omega), int_eq (x := r) (by omega) large,
      int_eq (x := x2 - x1) (by omega) (by omega)]
  generalize (x3 - x1) * r = product at *
  have wraps : int product = product - 2 ^ 32 := by
    rw [int, ← Int.sub_bmod_right]
    exact Int.bmod_eq_of_le (by omega) (by omega)
  have quotient := @tdiv_between (-2 ^ 31) (-1) (x2 - x1) (product - 2 ^ 32) (by omega)
    (by nlinarith) (by omega)
  rw [wraps, int_eq quotient.1 (by omega)] at isValue
  exact ⟨r, nonneg, within, by omega, by omega⟩

/-- Beyond the end of an axis, the entry behind it is read. -/
theorem axis_eq_none (ends : ¬ ∃ last ∈ row, x ≤ last) : axis row x = none := by
  have isEnd : row.findIdx (x ≤ ·) = row.length := by
    rw [findIdx_eq_length]
    simpa using ends
  simp only [axis, isEnd, getElem?_eq_none_iff.mpr (Nat.le_refl row.length)]
  rfl

/-- Otherwise two entries are chosen, for a query in the grid those around it. -/
theorem exists_axis
    (wide : 2 ≤ row.length)
    (sorted : row.Pairwise (· < ·))
    (reached : ∃ last ∈ row, x ≤ last) :
    ∃ i j, axis row x = some (i, j) ∧ i < row.length ∧
    j < row.length ∧ ((∃ first ∈ row, first ≤ x) → Neighbours row x i j) := by
  obtain ⟨last, member, above⟩ := reached
  have isIndex : row.findIdx (x ≤ ·) < row.length :=
    findIdx_lt_length_of_exists ⟨last, member, decide_eq_true above⟩
  generalize found : row.findIdx (x ≤ ·) = i at isIndex
  have high : x ≤ row[i] := by
    subst found
    exact of_decide_eq_true (findIdx_getElem (w := isIndex))
  simp only [axis, found, getElem?_eq_getElem isIndex]
  by_cases isEntry : x = row[i]
  · exact ⟨i, i, if_pos isEntry, isIndex, isIndex,
      fun _ => ⟨isIndex, isIndex, .inl ⟨rfl, isEntry.symm⟩⟩⟩
  by_cases isFirst : i = 0
  · subst isFirst
    refine ⟨0, 1, ?_, isIndex, wide, ?_⟩
    · exact (if_neg isEntry).trans ((if_neg isIndex.ne).trans (if_pos rfl))
    rintro ⟨first, isMember, below⟩
    obtain ⟨k, isK, rfl⟩ := mem_iff_getElem.mp isMember
    rcases Nat.eq_zero_or_pos k with rfl | later
    · omega
    · have order := pairwise_iff_getElem.mp sorted _ _ isIndex isK later
      omega
  · have isBefore : i - 1 < row.length := by omega
    have low : ¬ x ≤ row[i - 1] := by
      have passed := @not_of_lt_findIdx _ (x ≤ ·) row (i - 1) (by omega)
      simpa using passed
    refine ⟨i - 1, i, ?_, isBefore, isIndex,
      fun _ => ⟨isBefore, isIndex, .inr ⟨by omega, by omega, by omega⟩⟩⟩
    exact (if_neg isEntry).trans ((if_neg isIndex.ne).trans (if_neg isFirst))

/-- Different neighbours are different entries. -/
theorem Neighbours.ne
    {i j : ℕ}
    (neighbours : Neighbours row x i j)
    (differ : i ≠ j)
    (isI : i < row.length)
    (isJ : j < row.length) :
    row[i] ≠ row[j] := by
  rcases neighbours.next with ⟨rfl, -⟩ | ⟨rfl, above, below⟩
  · exact absurd rfl differ
  · exact (above.trans below).ne

/-- Between two entries, these are the neighbours. -/
theorem Neighbours.eq_of_between
    {i j k : ℕ}
    (sorted : row.Pairwise (· < ·))
    (neighbours : Neighbours row x i j)
    (isNext : k + 1 < row.length)
    (above : row[k] < x)
    (below : x < row[k + 1]) :
    i = k ∧ j = k + 1 := by
  have order {m n : ℕ} (isM : m < row.length) (isN : n < row.length) (less : row[m] < row[n]) :
      m < n := by
    by_contra notLess
    rcases Nat.lt_or_eq_of_le (Nat.le_of_not_lt notLess) with greater | rfl
    · have reversed := pairwise_iff_getElem.mp sorted _ _ isN isM greater
      omega
    · omega
  obtain ⟨isI, isJ, ⟨rfl, isEntry⟩ | ⟨rfl, low, high⟩⟩ := neighbours
  · have first := order (by omega) isI (isEntry ▸ above)
    have second := order isI isNext (isEntry ▸ below)
    omega
  · have first := order (by omega) isJ (above.trans high)
    have second := order isI isNext (low.trans below)
    omega

end

namespace Sptbl

section
variable (tab : Sptbl) (mA : ℕ → ℕ → ℤ)

/-- A cell of the table. -/
def cell (v t : ℕ) : Option ℤ :=
  if v < tab.mV.length ∧ t < tab.deg.length then some (mA v t) else none

/-- The leakage at a voltage of the table. -/
def column (v t1 t2 : ℕ) (degree : ℤ) : Option ℤ :=
  if t1 = t2 then tab.cell mA v t1
  else do
    return interpolate (← tab.deg[t1]?) (← tab.deg[t2]?) degree (← tab.cell mA v t1)
      (← tab.cell mA v t2)

/-- `interpolate_2d`. -/
def interpolate2d (v1 v2 t1 t2 : ℕ) (voltage degree : ℤ) : Option ℤ :=
  if v1 = v2 then tab.column mA v1 t1 t2 degree
  else do
    let p1 ← tab.column mA v1 t1 t2 degree
    let p2 ← tab.column mA v2 t1 t2 degree
    return interpolate (← tab.mV[v1]?) (← tab.mV[v2]?) voltage p1 p2

variable (voltage degree : ℤ)

/-- `sptab_lookup`. -/
def sptabLookup : Option ℤ := do
  let (x1, x2) ← axis tab.mV voltage
  let (y1, y2) ← axis tab.deg degree
  tab.interpolate2d mA x1 x2 y1 y2 voltage degree

/-- No axis ends before the query. -/
def Reached : Prop := (∃ last ∈ tab.mV, voltage ≤ last) ∧ ∃ last ∈ tab.deg, degree ≤ last

/-- The query lies in the grid. -/
def Inside : Prop := tab.Reached voltage degree ∧
  (∃ first ∈ tab.mV, first ≤ voltage) ∧ ∃ first ∈ tab.deg, first ≤ degree

/-- The value is between the least and the greatest cell around the query. -/
def Surrounds (value : ℤ) : Prop :=
  ∃ v1 v2 t1 t2, Neighbours tab.mV voltage v1 v2 ∧ Neighbours tab.deg degree t1 t2 ∧
    ∀ low high, (∀ v ∈ [v1, v2], ∀ t ∈ [t1, t2], low ≤ mA v t ∧ mA v t ≤ high) →
      low ≤ value ∧ value ≤ high

/-- Only the table is read, and a query in the grid gets a value between the cells around it. -/
structure Right : Prop where
  reads : (tab.sptabLookup mA voltage degree).isSome = true
  surrounds : tab.Inside voltage degree → ∃ value,
    tab.sptabLookup mA voltage degree = some value ∧ tab.Surrounds mA voltage degree value

end

section
variable {tab : Sptbl} {mA : ℕ → ℕ → ℤ} {voltage degree low high : ℤ} {spread v v1 v2 t1 t2 : ℕ}

/-- The leakage at a voltage, from two entries of the axis. -/
theorem column_eq
    (isV : v < tab.mV.length)
    (isT1 : t1 < tab.deg.length)
    (isT2 : t2 < tab.deg.length) :
    tab.column mA v t1 t2 degree = some (if t1 = t2 then mA v t1
      else interpolate tab.deg[t1] tab.deg[t2] degree (mA v t1) (mA v t2)) := by
  simp only [column, cell, isV, isT1, isT2, and_self, if_true, getElem?_eq_getElem]
  split <;> rfl

/-- The leakage, from two entries of each axis. -/
theorem interpolate2d_eq
    (isV1 : v1 < tab.mV.length)
    (isV2 : v2 < tab.mV.length)
    {p1 p2 : ℤ}
    (isP1 : tab.column mA v1 t1 t2 degree = some p1)
    (isP2 : tab.column mA v2 t1 t2 degree = some p2) :
    tab.interpolate2d mA v1 v2 t1 t2 voltage degree = some (if v1 = v2 then p1
      else interpolate tab.mV[v1] tab.mV[v2] voltage p1 p2) := by
  simp only [interpolate2d, isP1, isP2, getElem?_eq_getElem, isV1, isV2]
  split <;> rfl

/-- A query that both axes reach reads the table only. -/
theorem exists_sptabLookup (reached : tab.Reached voltage degree) :
    ∃ v1 v2 t1 t2, ∃ (isV1 : v1 < tab.mV.length) (isV2 : v2 < tab.mV.length)
      (isT1 : t1 < tab.deg.length) (isT2 : t2 < tab.deg.length),
      ((∃ first ∈ tab.mV, first ≤ voltage) → Neighbours tab.mV voltage v1 v2) ∧
      ((∃ first ∈ tab.deg, first ≤ degree) → Neighbours tab.deg degree t1 t2) ∧
      ∀ mA, tab.sptabLookup mA voltage degree =
        let column := fun v => if t1 = t2 then mA v t1
          else interpolate tab.deg[t1] tab.deg[t2] degree (mA v t1) (mA v t2)
        some (if v1 = v2 then column v1
          else interpolate tab.mV[v1] tab.mV[v2] voltage (column v1) (column v2)) := by
  obtain ⟨v1, v2, isV, isV1, isV2, voltages⟩ := exists_axis tab.isWide.1 tab.isSorted.1 reached.1
  obtain ⟨t1, t2, isT, isT1, isT2, degrees⟩ := exists_axis tab.isWide.2 tab.isSorted.2 reached.2
  refine ⟨v1, v2, t1, t2, isV1, isV2, isT1, isT2, voltages, degrees, fun mA => ?_⟩
  rw [sptabLookup, isV, isT]
  exact interpolate2d_eq isV1 isV2 (column_eq isV1 isT1 isT2) (column_eq isV2 isT1 isT2)

/-- One interpolation between neighbours on an axis. -/
theorem between_of_neighbours
    {row : List ℤ}
    {x y1 y2 : ℤ}
    {i j : ℕ}
    (isI : i < row.length)
    (isJ : j < row.length)
    (neighbours : Neighbours row x i j)
    (isSmall : spread < 2 ^ 31)
    (narrow : ∀ x ∈ row, ∀ y ∈ row, y - x ≤ 2 ^ 30)
    (fits : Fits row x spread)
    (isInt : -2 ^ 31 ≤ low ∧ high < 2 ^ 31)
    (close : high - low ≤ spread)
    (first : low ≤ y1 ∧ y1 ≤ high)
    (second : low ≤ y2 ∧ y2 ≤ high) :
    low ≤ (if i = j then y1 else interpolate row[i] row[j] x y1 y2) ∧
      (if i = j then y1 else interpolate row[i] row[j] x y1 y2) ≤ high := by
  rcases neighbours.next with ⟨rfl, -⟩ | ⟨rfl, above, below⟩
  · rwa [if_pos rfl]
  · rw [if_neg (Nat.succ_ne_self i).symm]
    exact interpolate_between isSmall above below
      (narrow _ (getElem_mem _) _ (getElem_mem _)) (fits i isJ above below) isInt close first second

/-- The least and the greatest of four cells. -/
theorem exists_bounds
    (cells : Cells spread mA)
    (v1 v2 t1 t2 : ℕ) :
    ∃ low high : ℤ,
    (-2 ^ 31 ≤ low ∧ high < 2 ^ 31) ∧ high - low ≤ spread ∧
    (∀ v ∈ [v1, v2], ∀ t ∈ [t1, t2], low ≤ mA v t ∧ mA v t ≤ high) ∧
    ∀ least most, (∀ v ∈ [v1, v2], ∀ t ∈ [t1, t2], least ≤ mA v t ∧ mA v t ≤ most) →
      least ≤ low ∧ high ≤ most := by
  have close := cells.close
  refine ⟨min (min (mA v1 t1) (mA v1 t2)) (min (mA v2 t1) (mA v2 t2)),
    max (max (mA v1 t1) (mA v1 t2)) (max (mA v2 t1) (mA v2 t2)), ?_, ?_, ?_, ?_⟩
  · have := cells.isInt v1 t1
    have := cells.isInt v1 t2
    have := cells.isInt v2 t1
    have := cells.isInt v2 t2
    omega
  · have nonneg : (0 : ℤ) ≤ spread := Int.natCast_nonneg _
    have := close v1 t1 v1 t2
    have := close v1 t1 v2 t1
    have := close v1 t1 v2 t2
    have := close v1 t2 v1 t1
    have := close v1 t2 v2 t1
    have := close v1 t2 v2 t2
    have := close v2 t1 v1 t1
    have := close v2 t1 v1 t2
    have := close v2 t1 v2 t2
    have := close v2 t2 v1 t1
    have := close v2 t2 v1 t2
    have := close v2 t2 v2 t1
    omega
  · simp only [mem_cons, not_mem_nil, or_false]
    rintro v (rfl | rfl) t (rfl | rfl) <;> omega
  · intro least most bounds
    have := bounds v1 (by simp) t1 (by simp)
    have := bounds v1 (by simp) t2 (by simp)
    have := bounds v2 (by simp) t1 (by simp)
    have := bounds v2 (by simp) t2 (by simp)
    omega

/-- If nothing overflows, a query in the grid gets a value between the cells around it. -/
theorem right_of_fits
    (isSmall : spread < 2 ^ 31)
    (cells : Cells spread mA)
    (reached : tab.Reached voltage degree)
    (fits : tab.Inside voltage degree → Fits tab.mV voltage spread ∧ Fits tab.deg degree spread) :
    tab.Right mA voltage degree := by
  obtain ⟨v1, v2, t1, t2, isV1, isV2, isT1, isT2, voltages, degrees, isLookup⟩ :=
    exists_sptabLookup reached
  refine ⟨by rw [isLookup]; rfl, fun inside => ⟨_, isLookup mA, v1, v2, t1, t2,
    voltages inside.2.1, degrees inside.2.2, fun least most bounds => ?_⟩⟩
  obtain ⟨low, high, isInt, close, within, tight⟩ := exists_bounds cells v1 v2 t1 t2
  obtain ⟨fitsV, fitsT⟩ := fits inside
  obtain ⟨above, below⟩ := tight least most bounds
  have column {v : ℕ} (isV : v ∈ [v1, v2]) :=
    @between_of_neighbours low high spread tab.deg degree (mA v t1) (mA v t2) t1 t2 isT1 isT2
      (degrees inside.2.2) isSmall tab.isNarrow.2 fitsT isInt close (within v isV t1 (by simp))
      (within v isV t2 (by simp))
  have value := between_of_neighbours isV1 isV2 (voltages inside.2.1) isSmall tab.isNarrow.1 fitsV
    isInt close (column (v := v1) (by simp)) (column (v := v2) (by simp))
  exact ⟨above.trans value.1, value.2.trans below⟩

/-- Cells of two values, by the voltage or by the temperature. -/
theorem cells_of_step
    {r : ℤ}
    (isSmall : spread < 2 ^ 31)
    (nonneg : 0 ≤ r)
    (within : r ≤ spread)
    (step : ℕ → ℕ → Bool) :
    Cells spread fun v t => if step v t then r else 0 := by
  refine ⟨fun v t => ?_, fun v t w u => ?_⟩
  · split <;> omega
  · split <;> split <;> omega

/-- A value below zero is not between cells that are not. -/
theorem not_right_of_neg
    {r value : ℤ}
    {step : ℕ → ℕ → Bool}
    (nonneg : 0 ≤ r)
    (inside : tab.Inside voltage degree)
    (isLookup : tab.sptabLookup (fun v t => if step v t then r else 0) voltage degree = some value)
    (negative : value < 0) :
    ¬ tab.Right (fun v t => if step v t then r else 0) voltage degree := by
  intro right
  obtain ⟨other, isOther, v1, v2, t1, t2, -, -, bounds⟩ := right.surrounds inside
  rw [isLookup, Option.some.injEq] at isOther
  have between := bounds 0 r fun v _ t _ => by
    dsimp only
    split <;> omega
  omega

/-- A lookup that stays in the table reaches the query on both axes. -/
theorem reached_of_isSome
    (reads : (tab.sptabLookup mA voltage degree).isSome = true) :
    tab.Reached voltage degree := by
  have reachedV : ∃ last ∈ tab.mV, voltage ≤ last := by
    by_contra ends
    rw [sptabLookup, axis_eq_none ends] at reads
    cases reads
  refine ⟨reachedV, ?_⟩
  obtain ⟨v1, v2, isV, -⟩ := exists_axis tab.isWide.1 tab.isSorted.1 reachedV
  by_contra ends
  rw [sptabLookup, isV, axis_eq_none ends] at reads
  cases reads

end

/-- Two voltages and two temperatures. -/
def smallTable : Sptbl := ⟨[1, 3], [1, 3], by decide, by decide, by decide⟩

/-- In the middle of these axes, no product overflows. -/
theorem fits_smallTable : Fits [1, 3] 2 700 := by
  intro i isNext _ _
  obtain rfl : i = 0 := by
    change i + 1 < 2 at isNext
    omega
  change (2 - 1) * 700 < 2 ^ 31
  decide

end Sptbl

end EchoKernel.StaticPower
