import Mathlib.Data.List.TakeWhile
import Mathlib.Data.Nat.Digits.Defs
import EchoKernel.Div64
import EchoKernel.Errno

namespace EchoKernel.Kstrtox

open List Nat Div64
open BitVec hiding not_not

/-!
# Integers in strings

The conversions of `kstrtox.c`. A string is the list of its characters before
the terminator. One word has the count of the digits and the flag of an
overflow, so a very long run of digits looks like an overflow.
-/

/-- A string without its terminator. -/
structure CString where
  chars : List (BitVec 8)
  noNul : 0 ∉ chars

section
variable (c : BitVec 8) (s : List (BitVec 8)) (base : BitVec 32)

/-- The character at a position; the terminator after the last. -/
def charAt (index : Nat) : BitVec 8 := s.getD index 0

/-- `_tolower`. -/
def tolower : BitVec 8 := c ||| 0x20

/-- `isxdigit`: the flags `_D` and `_X` of `_ctype`. -/
def isxdigit : Bool := (0x30 ≤ c && c ≤ 0x39) || (0x41 ≤ c && c ≤ 0x46) || (0x61 ≤ c && c ≤ 0x66)

/-- The base that base zero stands for. -/
def detectBase : BitVec 32 :=
  if base = 0 then
    if charAt s 0 = 0x30 then
      if tolower (charAt s 1) = 0x78 ∧ isxdigit (charAt s 2) = true then 16
      else 8
    else 10
  else base

/-- `_parse_integer_fixup_radix`: the string's rest and the base. -/
def parseIntegerFixupRadix : List (BitVec 8) × BitVec 32 :=
  if detectBase s base = 16 ∧ charAt s 0 = 0x30 ∧ tolower (charAt s 1) = 0x78 then
    (s.drop 2, detectBase s base)
  else (s, detectBase s base)

def kstrtoxOverflow : BitVec 32 := 1 <<< 31

/-- The value of a character in `_parse_integer`. -/
def charVal : Option (BitVec 32) :=
  if 0x30 ≤ c ∧ c ≤ 0x39 then some (c.setWidth 32 - 0x30)
  else if 0x61 ≤ tolower c ∧ tolower c ≤ 0x66 then some ((tolower c).setWidth 32 - 0x61 + 10)
  else none

/-- The test for an overflow before a digit is added. -/
def overflows (res : BitVec 64) (val : BitVec 32) : Bool :=
  res &&& (allOnes 64 <<< 60) ≠ 0 && divU64 (allOnes 64 - val.setWidth 64) base < res

/-- `_parse_integer`: the number, and the digit count with the flag. -/
def parseInteger (base : BitVec 32) : (s : List (BitVec 8)) → (res : BitVec 64) → (rv : BitVec 32) →
      BitVec 64 × BitVec 32
  | [], res, rv => (res, rv)
  | c :: s, res, rv =>
    match charVal c with
    | none => (res, rv)
    | some val =>
      if base ≤ val then (res, rv)
      else
        let rv := if overflows base res val then rv ||| kstrtoxOverflow else rv
        parseInteger base s (res * base.setWidth 64 + val.setWidth 64) (rv + 1)

/-- What a conversion leaves, and how it ends. -/
abbrev Outcome := BitVec 64 × Except Errno Unit

/-- `_kstrtoull`. -/
def kstrtoullText (res : BitVec 64) : Outcome :=
  let fixed := parseIntegerFixupRadix s base
  let parsed := parseInteger fixed.2 fixed.1 0 0
  if parsed.2 &&& kstrtoxOverflow ≠ 0 then (res, .error .erange)
  else if parsed.2 = 0 then (res, .error .einval)
  else
    let s := fixed.1.drop parsed.2.toNat
    let s := if charAt s 0 = 0x0a then s.drop 1 else s
    if charAt s 0 ≠ 0 then (res, .error .einval)
    else (parsed.1, .ok ())

/-- `kstrtoull`. -/
def kstrtoull (s : CString) (base : BitVec 32) (res : BitVec 64) : Outcome :=
  if charAt s.chars 0 = 0x2b then kstrtoullText (s.chars.drop 1) base res
  else kstrtoullText s.chars base res

/-- `kstrtoll`. -/
def kstrtoll (s : CString) (base : BitVec 32) (res : BitVec 64) : Outcome :=
  if charAt s.chars 0 = 0x2d then
    let tmp := kstrtoullText (s.chars.drop 1) base 0
    match tmp.2 with
    | .error errno => (res, .error errno)
    | .ok () =>
      if 0 < (-tmp.1).toInt then (res, .error .erange)
      else (-tmp.1, .ok ())
  else
    let tmp := kstrtoull s base 0
    match tmp.2 with
    | .error errno => (res, .error errno)
    | .ok () =>
      if tmp.1.toInt < 0 then (res, .error .erange)
      else (tmp.1, .ok ())

/-- The digit that a character stands for. -/
def digitOf : Option ℕ :=
  if 0x30 ≤ c ∧ c ≤ 0x39 then some (c.toNat - 0x30)
  else if 0x41 ≤ c ∧ c ≤ 0x46 then some (c.toNat - 0x41 + 10)
  else if 0x61 ≤ c ∧ c ≤ 0x66 then some (c.toNat - 0x61 + 10)
  else none

/-- A character is a digit in a base. -/
def isDigit (radix : ℕ) (c : BitVec 8) : Bool :=
  match digitOf c with
  | none => false
  | some digit => digit < radix

/-- The number that digits denote. -/
def denoted (radix : ℕ) (digits : List (BitVec 8)) : ℕ :=
  ofDigits radix (digits.reverse.filterMap digitOf)

theorem charVal_eq : (charVal c).map BitVec.toNat = digitOf c := by
  revert c
  decide +kernel

end

theorem length_filterMap_digitOf
    {radix : ℕ}
    {digits : List (BitVec 8)}
    (allDigits : ∀ c ∈ digits, isDigit radix c = true) :
    (digits.filterMap digitOf).length = digits.length := by
  rw [length_filterMap_eq_countP, countP_eq_length]
  intro c member
  have digit := allDigits c member
  rw [isDigit] at digit
  cases isDigitOf : digitOf c with
  | none =>
    rw [isDigitOf] at digit
    exact absurd digit (by simp)
  | some value => rfl

/-- The first digit counts most. -/
theorem denoted_cons
    {radix digit : ℕ}
    {c : BitVec 8}
    {digits : List (BitVec 8)}
    (isDigitOf : digitOf c = some digit)
    (allDigits : ∀ c ∈ digits, isDigit radix c = true) :
    denoted radix (c :: digits) = digit * radix ^ digits.length + denoted radix digits := by
  have isLength : (digits.reverse.filterMap digitOf).length = digits.length := by
    rw [filterMap_reverse, length_reverse]
    exact length_filterMap_digitOf allDigits
  rw [denoted, reverse_cons, filterMap_append, ofDigits_append,
    isLength, filterMap_cons_some isDigitOf, filterMap_nil, Nat.mul_comm]
  exact Nat.add_comm _ _

section
variable {base val : BitVec 32} {res : BitVec 64} {rv : BitVec 32} {number count : ℕ}

theorem toNat_lt_of_high_eq_zero
    (isZero : res &&& (allOnes 64 <<< 60) = 0) :
    res.toNat < 2 ^ 60 := by
  refine lt_pow_two_of_testBit _ ?_
  intro index above
  by_cases inside : index < 64
  · have bit := congrArg (fun word => word.getLsbD index) isZero
    have isSet : (allOnes 64 <<< 60).getLsbD index = true := by
      rw [getLsbD_shiftLeft, getLsbD_allOnes]
      simp only [Bool.and_eq_true, Bool.not_eq_true', decide_eq_false_iff_not, decide_eq_true_iff]
      omega
    rw [getLsbD_and, isSet, Bool.and_true] at bit
    exact bit.trans getLsbD_zero
  · exact getLsbD_of_ge _ _ (by omega)

/-- The test is exact, though skipped for small numbers. -/
theorem overflows_iff
    (isDigit : val.toNat < base.toNat)
    (largest : base.toNat ≤ 16) :
    overflows base res val = true ↔ 2 ^ 64 ≤ res.toNat * base.toNat + val.toNat := by
  have isDifference : (allOnes 64 - val.setWidth 64).toNat = 2 ^ 64 - 1 - val.toNat := by
    rw [toNat_sub, toNat_setWidth_of_le (by decide), toNat_allOnes]
    omega
  have isQuotient : divU64 (allOnes 64 - val.setWidth 64) base < res ↔
      2 ^ 64 ≤ res.toNat * base.toNat + val.toNat := by
    rw [lt_def, divU64, divU64Rem, toNat_udiv,
      toNat_setWidth_of_le (by decide), Nat.div_lt_iff_lt_mul (by omega)]
    omega
  rw [overflows, Bool.and_eq_true, decide_eq_true_iff, decide_eq_true_iff,
    isQuotient, and_iff_right_iff_imp]
  intro large isZero
  have small := toNat_lt_of_high_eq_zero isZero
  have product : res.toNat * base.toNat ≤ (2 ^ 60 - 1) * 16 := Nat.mul_le_mul (by omega) largest
  omega

theorem toNat_or_kstrtoxOverflow
    (small : rv.toNat < 2 ^ 31) :
    (rv ||| kstrtoxOverflow).toNat = 2 ^ 31 + rv.toNat := by
  rw [toNat_or, Nat.or_comm]
  exact (two_pow_add_eq_or_of_lt small 1).symm

/--
After some digits of a number the loop holds the number and the count, or an
overflow is flagged.
-/
structure Tracks (number count : ℕ) (res : BitVec 64) (rv : BitVec 32) : Prop where
  exact : number < 2 ^ 64 → res.toNat = number ∧ rv.toNat = count
  flagged : 2 ^ 64 ≤ number → rv.toNat = 2 ^ 31 + count

theorem tracks_zero : Tracks 0 0 0 0 := ⟨fun _ => ⟨rfl, rfl⟩, fun large => absurd large (by decide)⟩

theorem Tracks.step
    (tracks : Tracks number count res rv)
    (isDigit : val.toNat < base.toNat)
    (largest : base.toNat ≤ 16)
    (room : count + 1 < 2 ^ 31) :
    Tracks (number * base.toNat + val.toNat) (count + 1) (res * base.setWidth 64 + val.setWidth 64)
    ((if overflows base res val then rv ||| kstrtoxOverflow else rv) + 1) := by
  have isNext (word : BitVec 32) (fits : word.toNat + 1 < 2 ^ 32) :
      (word + 1).toNat = word.toNat + 1 := by
    exact mod_eq_of_lt fits
  by_cases small : number < 2 ^ 64
  · obtain ⟨isNumber, isCount⟩ := tracks.exact small
    have isOverflow := @overflows_iff base val res isDigit largest
    rw [isNumber] at isOverflow
    constructor
    · intro fits
      rw [if_neg (by rw [isOverflow]; omega), isNext _ (by omega), isCount]
      refine ⟨?_, rfl⟩
      rw [toNat_add, toNat_mul, isNumber, mod_add_mod]
      exact mod_eq_of_lt fits
    · intro large
      have isFlagged := @toNat_or_kstrtoxOverflow rv (by omega)
      rw [if_pos (isOverflow.mpr large), isNext _ (by omega), isFlagged]
      omega
  · have isFlagged := tracks.flagged (by omega)
    have grows : number ≤ number * base.toNat := Nat.le_mul_of_pos_right _ (by omega)
    refine ⟨fun fits => absurd fits (by omega), fun _ => ?_⟩
    have isSame : (rv ||| kstrtoxOverflow).toNat = 2 ^ 31 + count := by
      have isOr : 2 ^ 31 + count = 2 ^ 31 ||| count :=
        two_pow_add_eq_or_of_lt (lt_of_succ_lt room) 1
      rw [toNat_or, isFlagged, isOr, Nat.or_comm]
      change 2 ^ 31 ||| (2 ^ 31 ||| count) = _
      rw [← Nat.or_assoc, Nat.or_self]
    split
    · rw [isNext _ (by omega)]
      omega
    · rw [isNext _ (by omega)]
      omega

/-- The digits at the start of a text. -/
def leadingDigits (radix : ℕ) (s : List (BitVec 8)) : List (BitVec 8) := s.takeWhile (isDigit radix)

theorem isDigit_of_mem_leadingDigits
    {radix : ℕ}
    {s : List (BitVec 8)} :
    ∀ c ∈ leadingDigits radix s, isDigit radix c = true :=
  fun _ member => mem_takeWhile_imp member

/-- The loop reads the leading digits and stops. -/
theorem Tracks.parseInteger
    {s : List (BitVec 8)}
    (tracks : Tracks number count res rv)
    (largest : base.toNat ≤ 16)
    (room : count + (leadingDigits base.toNat s).length < 2 ^ 31) :
    Tracks (number * base.toNat ^ (leadingDigits base.toNat s).length +
    denoted base.toNat (leadingDigits base.toNat s)) (count + (leadingDigits base.toNat s).length)
    (parseInteger base s res rv).1 (parseInteger base s res rv).2 := by
  induction s generalizing number count res rv with
  | nil =>
    rw [leadingDigits, takeWhile_nil, length_nil, Nat.pow_zero, Nat.mul_one]
    exact tracks
  | cons c s inductionHypothesis =>
    have isValue := charVal_eq c
    rw [Kstrtox.parseInteger]
    cases isChar : charVal c with
    | none =>
      rw [isChar] at isValue
      have noDigit : leadingDigits base.toNat (c :: s) = [] := by
        rw [leadingDigits, takeWhile_cons_of_neg]
        rw [isDigit, ← isValue]
        simp
      rw [noDigit, length_nil, Nat.pow_zero, Nat.mul_one]
      exact tracks
    | some val =>
      rw [isChar] at isValue
      dsimp only
      by_cases tooLarge : base ≤ val
      · have noDigit : leadingDigits base.toNat (c :: s) = [] := by
          rw [leadingDigits, takeWhile_cons_of_neg]
          rw [isDigit, ← isValue]
          rw [le_def] at tooLarge
          simpa using tooLarge
        rw [noDigit, length_nil, Nat.pow_zero, Nat.mul_one, if_pos tooLarge]
        exact tracks
      have smaller : val.toNat < base.toNat := by
        rw [le_def] at tooLarge
        omega
      have isFirst : leadingDigits base.toNat (c :: s) = c :: leadingDigits base.toNat s := by
        rw [leadingDigits, takeWhile_cons_of_pos, ← leadingDigits]
        rw [isDigit, ← isValue]
        simpa using smaller
      rw [isFirst, length_cons] at room
      rw [if_neg tooLarge, isFirst, length_cons,
        denoted_cons isValue.symm isDigit_of_mem_leadingDigits]
      have next := inductionHypothesis (tracks.step smaller largest (by omega)) (by omega)
      have isNumber : number * base.toNat ^ ((leadingDigits base.toNat s).length + 1) +
          (val.toNat * base.toNat ^ (leadingDigits base.toNat s).length +
          denoted base.toNat (leadingDigits base.toNat s)) = (number * base.toNat + val.toNat) *
          base.toNat ^ (leadingDigits base.toNat s).length +
          denoted base.toNat (leadingDigits base.toNat s) := by
        ring
      rw [isNumber]
      rw [Nat.add_right_comm] at next
      exact next

theorem and_kstrtoxOverflow_eq_zero_iff : rv &&& kstrtoxOverflow = 0 ↔ rv.toNat < 2 ^ 31 := by
  have isPower : kstrtoxOverflow = twoPow 32 31 := by decide
  have isTop : rv.getLsbD 31 = decide (2 ^ 31 ≤ rv.toNat) := msb_eq_decide rv
  rw [isPower, and_twoPow, isTop]
  by_cases flagged : 2 ^ 31 ≤ rv.toNat
  · rw [if_pos (decide_eq_true flagged)]
    exact ⟨fun isZero => absurd isZero (by decide), fun small => by omega⟩
  · rw [if_neg (by simpa using flagged)]
    exact ⟨fun _ => by omega, fun _ => rfl⟩

end

variable {s : List (BitVec 8)} {base : BitVec 32} {res : BitVec 64}

theorem charAt_zero_eq_zero_iff (noNul : 0 ∉ s) : charAt s 0 = 0 ↔ s = [] := by
  cases s with
  | nil => exact ⟨fun _ => rfl, fun _ => rfl⟩
  | cons c s =>
    refine ⟨fun isZero => ?_, fun isNil => absurd isNil (by simp)⟩
    exact absurd (isZero ▸ mem_cons_self) noNul

/-- A text ends after a newline at most. -/
def Ended (rest : List (BitVec 8)) : Prop := rest = [] ∨ rest = [0x0a]

instance (rest : List (BitVec 8)) : Decidable (Ended rest) :=
  inferInstanceAs (Decidable (rest = [] ∨ rest = [0x0a]))

theorem ended_iff
    (noNul : 0 ∉ s) :
    charAt (if charAt s 0 = 0x0a then s.drop 1 else s) 0 = 0 ↔ Ended s := by
  cases s with
  | nil => exact ⟨fun _ => .inl rfl, fun _ => rfl⟩
  | cons c s =>
    have noNulRest : 0 ∉ s := fun member => noNul (mem_cons_of_mem _ member)
    have isFirst : charAt (c :: s) 0 = c := rfl
    rw [isFirst, Ended]
    by_cases newline : c = 0x0a
    · rw [if_pos newline, drop_one, tail_cons, charAt_zero_eq_zero_iff noNulRest, newline]
      simp
    rw [if_neg newline, charAt_zero_eq_zero_iff noNul]
    refine ⟨.inl, ?_⟩
    rintro (isNil | isLine)
    · exact isNil
    · exact absurd (cons.inj isLine).1 newline

/-- The base, digits and rest that a text is read as. -/
structure Reading where
  radix : ℕ
  digits : List (BitVec 8)
  rest : List (BitVec 8)

/-- How a text is read. -/
def reading (s : List (BitVec 8)) (base : BitVec 32) : Reading where
  radix := (parseIntegerFixupRadix s base).2.toNat
  digits := leadingDigits (parseIntegerFixupRadix s base).2.toNat (parseIntegerFixupRadix s base).1
  rest :=
    (parseIntegerFixupRadix s base).1.drop (leadingDigits (parseIntegerFixupRadix s base).2.toNat
        (parseIntegerFixupRadix s base).1).length

/-- The bases that the callers may use. -/
def Supported (base : BitVec 32) : Prop := base = 0 ∨ 2 ≤ base.toNat ∧ base.toNat ≤ 16

theorem fixed_snd : (parseIntegerFixupRadix s base).2 = detectBase s base := by
  rw [parseIntegerFixupRadix]
  split
  · rfl
  · rfl

theorem radix_le (supported : Supported base) : (reading s base).radix ≤ 16 := by
  rw [reading]
  dsimp only
  rw [fixed_snd, detectBase]
  split
  · split
    · split
      · decide
      · decide
    · decide
  · rcases supported with isZero | ⟨_, small⟩
    · contradiction
    · exact small

theorem not_mem_fixed (noNul : 0 ∉ s) : 0 ∉ (parseIntegerFixupRadix s base).1 := by
  rw [parseIntegerFixupRadix]
  split
  · exact fun member => noNul (mem_of_mem_drop member)
  · exact noNul

/-- `_kstrtoull` in terms of what the text is read as. -/
theorem kstrtoullText_eq
    (noNul : 0 ∉ s)
    (supported : Supported base)
    (short : (reading s base).digits.length < 2 ^ 31) :
    kstrtoullText s base res =
    if 2 ^ 64 ≤ denoted (reading s base).radix (reading s base).digits then (res, .error .erange)
    else if (reading s base).digits = [] then (res, .error .einval)
    else if Ended (reading s base).rest then
    (BitVec.ofNat 64 (denoted (reading s base).radix (reading s base).digits), .ok ())
    else (res, .error .einval) := by
  have tracks := Tracks.parseInteger tracks_zero (radix_le supported)
    (by rw [Nat.zero_add]; exact short)
  rw [Nat.zero_mul, Nat.zero_add, Nat.zero_add] at tracks
  change Tracks (denoted (reading s base).radix (reading s base).digits)
    (reading s base).digits.length _ _ at tracks
  rw [kstrtoullText]
  generalize isParsed : parseInteger (parseIntegerFixupRadix s base).2
    (parseIntegerFixupRadix s base).1 0 0 = parsed at *
  by_cases large : 2 ^ 64 ≤ denoted (reading s base).radix (reading s base).digits
  · have isFlagged := tracks.flagged large
    rw [if_pos large, if_pos]
    rw [Ne, and_kstrtoxOverflow_eq_zero_iff]
    omega
  obtain ⟨isNumber, isCount⟩ := tracks.exact (by omega)
  rw [if_neg large, if_neg (by
    rw [not_not, and_kstrtoxOverflow_eq_zero_iff]
    omega)]
  have isZero : parsed.2 = 0 ↔ (reading s base).digits = [] := by
    rw [← length_eq_zero_iff, ← isCount, ← toNat_inj]
    rfl
  by_cases noDigits : (reading s base).digits = []
  · rw [if_pos noDigits, if_pos (isZero.mpr noDigits)]
  rw [if_neg noDigits, if_neg (by rwa [isZero])]
  have isRest : (parseIntegerFixupRadix s base).1.drop parsed.2.toNat = (reading s base).rest := by
    rw [isCount]
    rfl
  have noNulRest : 0 ∉ (reading s base).rest :=
    fun member => not_mem_fixed noNul (mem_of_mem_drop member)
  have isEnded := ended_iff noNulRest
  rw [isRest]
  by_cases ended : Ended (reading s base).rest
  · rw [if_neg (not_not.mpr (isEnded.mpr ended)), if_pos ended,
      ← isNumber, ofNat_toNat, setWidth_eq]
  · rw [if_pos (fun isZero => ended (isEnded.mp isZero)), if_neg ended]

end EchoKernel.Kstrtox
