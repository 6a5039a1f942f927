import Mathlib.Data.List.GetD
import EchoKernel.Kstrtox

namespace EchoKernel.Kstrtox

open BitVec List

/-!
# The strings that are integers

The grammar that `kstrtoull` and `kstrtoll` accept: a sign, the prefix of a
radix, digits and a newline.
-/

/-- The prefixes that a base allows, and the base after them. -/
inductive Prefixed : (base : ℕ) → (lead digits : List (BitVec 8)) → (radix : ℕ) → Prop where
  | plain (given : base ≠ 0) : Prefixed base [] digits base
  | hex (allowed : base = 0 ∨ base = 16) (x : BitVec 8)
      (isX : x = 0x78 ∨ x = 0x58) : Prefixed base [0x30, x] digits 16
  | octal (isZero : digits.head? = some 0x30) : Prefixed 0 [] digits 8
  | decimal (notZero : digits.head? ≠ some 0x30) : Prefixed 0 [] digits 10

/-- The parts of a text that denotes a number. -/
structure Parts (base : ℕ) (s : List (BitVec 8)) (value : ℕ)
    (lead digits tail : List (BitVec 8)) (radix : ℕ) : Prop where
  isText : s = lead ++ (digits ++ tail)
  isPrefixed : Prefixed base lead digits radix
  notEmpty : digits ≠ []
  allDigits : ∀ c ∈ digits, isDigit radix c = true
  isEnded : Ended tail
  isValue : value = denoted radix digits

/-- A text without a sign denotes a number. -/
def Denotes (base : ℕ) (s : List (BitVec 8)) (value : ℕ) : Prop :=
  ∃ lead digits tail radix, Parts base s value lead digits tail radix

/-- A text with an optional plus denotes a number. -/
def Unsigned (base : ℕ) (s : List (BitVec 8)) (value : ℕ) : Prop :=
  Denotes base s value ∨ ∃ t, s = 0x2b :: t ∧ Denotes base t value

/-- A text with an optional sign denotes an integer. -/
def Signed (base : ℕ) (s : List (BitVec 8)) (value : ℤ) : Prop :=
  (∃ number : ℕ, Unsigned base s number ∧ value = number) ∨
    ∃ t, ∃ number : ℕ, s = 0x2d :: t ∧ Denotes base t number ∧ value = -number

section
variable {s lead digits tail : List (BitVec 8)} {base : BitVec 32} {radix value : ℕ}

/-- The characters of a number are digits or a newline. -/
def Plain (c : BitVec 8) : Bool := (digitOf c).isSome || c == 0x0a || c == 0

theorem tolower_ne_of_plain (c : BitVec 8) : Plain c = true → tolower c ≠ 0x78 := by
  revert c
  decide +kernel

theorem isxdigit_of_digitOf (c : BitVec 8) : (digitOf c).isSome = true ↔ isxdigit c = true := by
  revert c
  decide +kernel

theorem tolower_eq_iff (c : BitVec 8) : tolower c = 0x78 ↔ c = 0x78 ∨ c = 0x58 := by
  revert c
  decide +kernel

theorem digitOf_isSome
    {c : BitVec 8}
    (digit : isDigit radix c = true) :
    (digitOf c).isSome = true := by
  rw [isDigit] at digit
  cases isDigitOf : digitOf c with
  | none =>
    rw [isDigitOf] at digit
    exact absurd digit (by simp)
  | some value => rfl

theorem plain_charAt
    (allDigits : ∀ c ∈ digits, isDigit radix c = true)
    (isEnded : Ended tail)
    (index : ℕ) :
    Plain (charAt (digits ++ tail) index) = true := by
  rw [charAt]
  by_cases inside : index < (digits ++ tail).length
  · rw [getD_eq_getElem _ _ inside]
    have member := getElem_mem inside
    rw [mem_append] at member
    rcases member with isDigit | isTail
    · rw [Plain, digitOf_isSome (allDigits _ isDigit)]
      rfl
    rcases isEnded with rfl | rfl
    · exact absurd isTail (by simp)
    · rw [mem_singleton.mp isTail]
      decide
  · rw [getD_eq_default _ _ (by omega)]
    decide

theorem leadingDigits_append
    (allDigits : ∀ c ∈ digits, isDigit radix c = true)
    (isEnded : Ended tail) :
    leadingDigits radix (digits ++ tail) = digits := by
  rw [leadingDigits, takeWhile_append_of_pos allDigits]
  rcases isEnded with rfl | rfl
  · rw [takeWhile_nil, append_nil]
  rw [takeWhile_cons_of_neg, append_nil]
  have noDigit : digitOf 0x0a = none := by decide
  rw [isDigit, noDigit]
  simp

theorem reading_of_fixed
    {fixed : BitVec 32}
    (isFixed : parseIntegerFixupRadix s base = (digits ++ tail, fixed))
    (isRadix : fixed.toNat = radix)
    (allDigits : ∀ c ∈ digits, isDigit radix c = true)
    (isEnded : Ended tail) :
    reading s base = ⟨radix, digits, tail⟩ := by
  rw [reading, isFixed]
  rw [isRadix, leadingDigits_append allDigits isEnded, drop_left]

theorem charAt_zero_append
    (notEmpty : digits ≠ []) :
    some (charAt (digits ++ tail) 0) = digits.head? := by
  cases digits with
  | nil => exact absurd rfl notEmpty
  | cons c digits => rfl

/-- A text that denotes a number is read as its parts. -/
theorem reading_of_parts
    {given : ℕ}
    (isBase : base.toNat = given)
    (parts : Parts given s value lead digits tail radix) :
    reading s base = ⟨radix, digits, tail⟩ := by
  obtain ⟨isText, isPrefixed, notEmpty, allDigits, isEnded, _⟩ := parts
  have isZero (zero : base.toNat = 0) : base = 0 := eq_of_toNat_eq zero
  cases isPrefixed with
  | plain notZero =>
    rw [nil_append] at isText
    have notX := tolower_ne_of_plain _ (plain_charAt allDigits isEnded 1)
    have notGiven : base ≠ 0 := by
      rintro rfl
      exact notZero isBase.symm
    refine reading_of_fixed ?_ isBase allDigits isEnded
    rw [parseIntegerFixupRadix, detectBase, if_neg notGiven, isText,
      if_neg (fun isHex => notX isHex.2.2)]
  | hex allowed x isX =>
    have isDetected : detectBase s base = 16 := by
      rw [detectBase]
      rcases allowed with rfl | rfl
      · have isDigit : isxdigit (charAt s 2) = true := by
          have isFirst : charAt s 2 = charAt (digits ++ tail) 0 := by
            rw [isText]
            rfl
          rw [isFirst, ← isxdigit_of_digitOf]
          obtain ⟨c, rest, rfl⟩ := exists_cons_of_ne_nil notEmpty
          exact digitOf_isSome (allDigits c mem_cons_self)
        have isHead : charAt s 0 = 0x30 := by
          rw [isText]
          rfl
        have isSecond : tolower (charAt s 1) = 0x78 := by
          rw [isText]
          exact (tolower_eq_iff x).mpr isX
        rw [if_pos (isZero isBase), if_pos isHead, if_pos ⟨isSecond, isDigit⟩]
      · rw [if_neg (by rintro rfl; exact absurd isBase (by decide))]
        exact eq_of_toNat_eq isBase
    refine reading_of_fixed ?_ (by decide : (16 : BitVec 32).toNat = 16) allDigits isEnded
    rw [parseIntegerFixupRadix, isDetected, isText, if_pos ⟨rfl, rfl, (tolower_eq_iff x).mpr isX⟩]
    rfl
  | octal isOctal =>
    rw [nil_append] at isText
    have notX := tolower_ne_of_plain _ (plain_charAt allDigits isEnded 1)
    have isHead : charAt (digits ++ tail) 0 = 0x30 :=
      Option.some.inj ((charAt_zero_append notEmpty).trans isOctal)
    refine reading_of_fixed ?_ (by decide : (8 : BitVec 32).toNat = 8) allDigits isEnded
    have isDetected : detectBase (digits ++ tail) base = 8 := by
      rw [detectBase, if_pos (isZero isBase), if_pos isHead, if_neg (fun isHex => notX isHex.1)]
    rw [parseIntegerFixupRadix, isText, isDetected, if_neg (fun isHex => notX isHex.2.2)]
  | decimal notOctal =>
    rw [nil_append] at isText
    have notX := tolower_ne_of_plain _ (plain_charAt allDigits isEnded 1)
    have notHead : charAt (digits ++ tail) 0 ≠ 0x30 := by
      intro isHead
      rw [← charAt_zero_append notEmpty, isHead] at notOctal
      exact notOctal rfl
    refine reading_of_fixed ?_ (by decide : (10 : BitVec 32).toNat = 10) allDigits isEnded
    rw [parseIntegerFixupRadix, detectBase, if_pos (isZero isBase), isText,
      if_neg notHead, if_neg (fun isHex => notX isHex.2.2)]

theorem digits_append_rest :
    (reading s base).digits ++ (reading s base).rest = (parseIntegerFixupRadix s base).1 :=
  prefix_iff_eq_append.mp ( takeWhile_prefix _)

theorem isDigit_of_mem_digits :
    ∀ c ∈ (reading s base).digits, isDigit (reading s base).radix c = true :=
  isDigit_of_mem_leadingDigits

theorem eq_cons_cons
    (isHead : charAt s 0 = 0x30)
    (isX : tolower (charAt s 1) = 0x78) :
    s = [0x30, charAt s 1] ++ s.drop 2 := by
  match s with
  | [] => exact absurd isHead (by decide)
  | [_] =>
    change tolower 0 = 0x78 at isX
    exact absurd isX (by decide)
  | first :: second :: rest =>
    change first = 0x30 at isHead
    rw [isHead]
    rfl

/-- The skipped prefix is one that the base allows. -/
theorem exists_prefixed
    (notEmpty : (reading s base).digits ≠ []) :
    ∃ lead, s = lead ++ (parseIntegerFixupRadix s base).1 ∧
    Prefixed base.toNat lead (reading s base).digits (reading s base).radix := by
  have isRadix : (reading s base).radix = (detectBase s base).toNat :=
    congrArg BitVec.toNat fixed_snd
  have isSplit := @digits_append_rest s base
  rw [isRadix]
  by_cases isHex : detectBase s base = 16 ∧ charAt s 0 = 0x30 ∧ tolower (charAt s 1) = 0x78
  · refine ⟨[0x30, charAt s 1], ?_, ?_⟩
    · rw [parseIntegerFixupRadix, if_pos isHex]
      exact eq_cons_cons isHex.2.1 isHex.2.2
    rw [isHex.1]
    refine .hex ?_ _ ((tolower_eq_iff _).mp isHex.2.2)
    by_cases isZero : base = 0
    · exact .inl (congrArg BitVec.toNat isZero)
    have isBase := isHex.1
    rw [detectBase, if_neg isZero] at isBase
    exact .inr (congrArg BitVec.toNat isBase)
  rw [parseIntegerFixupRadix, if_neg isHex] at isSplit ⊢
  refine ⟨[], rfl, ?_⟩
  have isHead : some (charAt s 0) = (reading s base).digits.head? := by
    rw [← charAt_zero_append notEmpty, isSplit]
  by_cases isZero : base = 0
  · have zero : base.toNat = 0 := congrArg BitVec.toNat isZero
    rw [zero]
    by_cases isOctal : charAt s 0 = 0x30
    · by_cases isX : tolower (charAt s 1) = 0x78 ∧ isxdigit (charAt s 2) = true
      · refine absurd ⟨?_, isOctal, isX.1⟩ isHex
        rw [detectBase, if_pos isZero, if_pos isOctal, if_pos isX]
      · rw [detectBase, if_pos isZero, if_pos isOctal, if_neg isX]
        exact .octal (by rw [← isHead, isOctal])
    · rw [detectBase, if_pos isZero, if_neg isOctal]
      refine .decimal ?_
      rw [← isHead]
      exact fun same => isOctal (Option.some.inj same)
  · rw [detectBase, if_neg isZero]
    refine .plain ?_
    exact fun zero => isZero (eq_of_toNat_eq zero)

/-- A text denotes what it is read as. -/
theorem denotes_iff :
    Denotes base.toNat s value ↔ (reading s base).digits ≠ [] ∧
    Ended (reading s base).rest ∧
    value = denoted (reading s base).radix (reading s base).digits := by
  constructor
  · rintro ⟨lead, digits, tail, radix, parts⟩
    rw [reading_of_parts rfl parts]
    exact ⟨parts.notEmpty, parts.isEnded, parts.isValue⟩
  · rintro ⟨notEmpty, isEnded, isValue⟩
    obtain ⟨lead, isText, isPrefixed⟩ := exists_prefixed notEmpty
    rw [← digits_append_rest] at isText
    exact ⟨lead, _, _, _, isText, isPrefixed, notEmpty, isDigit_of_mem_digits, isEnded, isValue⟩

end

section
variable {s : List (BitVec 8)} {base : BitVec 32} {res : BitVec 64} {value : ℕ}

/-- Fewer than 2³¹ digits stand in a row. -/
def ShortRuns (s : List (BitVec 8)) : Prop :=
  ∀ digits, digits <:+: s → (∀ c ∈ digits, (digitOf c).isSome = true) → digits.length < 2 ^ 31

theorem ShortRuns.tail {c : BitVec 8} (short : ShortRuns (c :: s)) : ShortRuns s :=
  fun digits inside => short digits (infix_cons inside)

theorem ShortRuns.digits (short : ShortRuns s) : (reading s base).digits.length < 2 ^ 31 := by
  refine short _ ?_ ?_
  · have inFixed : (reading s base).digits <+: (parseIntegerFixupRadix s base).1 :=
      takeWhile_prefix _
    refine inFixed.isInfix.trans ?_
    rw [parseIntegerFixupRadix]
    split
    · exact (drop_suffix _ _).isInfix
    · exact infix_refl _
  · intro c member
    exact digitOf_isSome (isDigit_of_mem_digits c member)

/--
How an unsigned conversion ends: it accepts numbers that fit, reports others,
and leaves its result alone unless it succeeds.
-/
structure Converts (outcome : Outcome) (res : BitVec 64) (denotes : ℕ → Prop) : Prop where
  accepted : ∀ value : BitVec 64, outcome = (value, .ok ()) ↔ denotes value.toNat
  outOfRange : ∀ number, denotes number → 2 ^ 64 ≤ number → outcome = (res, .error .erange)
  refused : outcome.2 ≠ .ok () → outcome.1 = res

/-- How a signed conversion ends. -/
structure ConvertsSigned (outcome : Outcome) (res : BitVec 64) (denotes : ℤ → Prop) : Prop where
  accepted : ∀ value : BitVec 64, outcome = (value, .ok ()) ↔ denotes value.toInt
  outOfRange : ∀ number, denotes number →
    ¬(-2 ^ 63 ≤ number ∧ number < 2 ^ 63) → outcome = (res, .error .erange)
  refused : outcome.2 ≠ .ok () → outcome.1 = res

/-- A failing conversion is right if no number fits. -/
theorem Converts.of_error
    {errno : Errno}
    {denotes : ℕ → Prop}
    (tooLarge : ∀ number, denotes number → 2 ^ 64 ≤ number ∧ errno = .erange) :
    Converts (res, .error errno) res denotes := by
  refine ⟨fun value => ⟨nofun, fun isNumber => ?_⟩, fun number isNumber _ => ?_, fun _ => rfl⟩
  · exact absurd value.isLt (Nat.not_lt.mpr (tooLarge _ isNumber).1)
  · rw [(tooLarge number isNumber).2]

theorem converts_text
    (noNul : 0 ∉ s)
    (supported : Supported base)
    (short : ShortRuns s) :
    Converts (kstrtoullText s base res) res (Denotes base.toNat s) := by
  rw [kstrtoullText_eq noNul supported short.digits]
  by_cases large : 2 ^ 64 ≤ denoted (reading s base).radix (reading s base).digits
  · rw [if_pos large]
    exact .of_error fun number denotes => ⟨(denotes_iff.mp denotes).2.2 ▸ large, rfl⟩
  rw [if_neg large]
  by_cases noDigits : (reading s base).digits = []
  · rw [if_pos noDigits]
    exact .of_error fun number denotes => absurd noDigits (denotes_iff.mp denotes).1
  rw [if_neg noDigits]
  by_cases isEnded : Ended (reading s base).rest
  · rw [if_pos isEnded]
    refine ⟨fun value => ?_, fun number denotes tooLarge => ?_, fun failed => absurd rfl failed⟩
    · rw [denotes_iff, Prod.mk.injEq, ← toNat_inj, toNat_ofNat, Nat.mod_eq_of_lt (by omega)]
      exact ⟨fun isOk => ⟨noDigits, isEnded, isOk.1.symm⟩, fun denotes => ⟨denotes.2.2.symm, rfl⟩⟩
    · rw [denotes_iff] at denotes
      omega
  · rw [if_neg isEnded]
    exact .of_error fun number denotes => absurd (denotes_iff.mp denotes).2.1 isEnded

theorem Denotes.unique
    {other : ℕ}
    (denotes : Denotes base.toNat s value)
    (again : Denotes base.toNat s other) :
    other = value := by
  rw [denotes_iff] at denotes again
  rw [denotes.2.2, again.2.2]

/-- A text without a sign starts with a digit. -/
theorem Denotes.isSome_charAt
    {given : ℕ}
    (denotes : Denotes given s value) :
    (digitOf (charAt s 0)).isSome = true := by
  obtain ⟨lead, digits, tail, radix, parts⟩ := denotes
  have inDigits : (digitOf (charAt (digits ++ tail) 0)).isSome = true := by
    obtain ⟨c, rest, rfl⟩ := exists_cons_of_ne_nil parts.notEmpty
    exact digitOf_isSome (parts.allDigits c mem_cons_self)
  rw [parts.isText]
  cases parts.isPrefixed with
  | plain | octal | decimal => exact inDigits
  | hex => rfl

theorem eq_cons_of_charAt
    {c : BitVec 8}
    (isHead : charAt s 0 = c)
    (notNul : c ≠ 0) :
    s = c :: s.drop 1 := by
  cases s with
  | nil => exact absurd isHead.symm notNul
  | cons first rest =>
    change first = c at isHead
    rw [isHead]
    rfl

theorem unsigned_plus_iff
    {t : List (BitVec 8)} :
    Unsigned base.toNat (0x2b :: t) value ↔ Denotes base.toNat t value := by
  constructor
  · rintro (denotes | ⟨rest, isText, denotes⟩)
    · have noDigit : ¬(digitOf 0x2b).isSome = true := by decide
      exact absurd denotes.isSome_charAt noDigit
    · rw [(cons.inj isText).2]
      exact denotes
  · exact fun denotes => .inr ⟨t, rfl, denotes⟩

theorem unsigned_iff
    (noPlus : charAt s 0 ≠ 0x2b) :
    Unsigned base.toNat s value ↔ Denotes base.toNat s value := by
  constructor
  · rintro (denotes | ⟨rest, rfl, _⟩)
    · exact denotes
    · exact absurd rfl noPlus
  · exact .inl

theorem Converts.congr
    {outcome : Outcome}
    {denotes denotes' : ℕ → Prop}
    (converts : Converts outcome res denotes)
    (same : ∀ number, denotes' number ↔ denotes number) :
    Converts outcome res denotes' := by
  rw [show denotes' = denotes from funext fun number => propext (same number)]
  exact converts

theorem converts_kstrtoull
    {s : CString}
    (supported : Supported base)
    (short : ShortRuns s.chars) :
    Converts (kstrtoull s base res) res (Unsigned base.toNat s.chars) := by
  rw [kstrtoull]
  by_cases plus : charAt s.chars 0 = 0x2b
  · have isText := eq_cons_of_charAt plus (by decide)
    have noNul := s.noNul
    rw [if_pos plus]
    rw [isText] at short noNul
    refine (converts_text (fun member => noNul (mem_cons_of_mem _ member)) supported
      short.tail).congr ?_
    intro number
    rw [isText]
    exact unsigned_plus_iff
  · rw [if_neg plus]
    refine (converts_text s.noNul supported short).congr ?_
    intro number
    exact unsigned_iff plus

theorem signed_minus_iff
    {t : List (BitVec 8)}
    {number : ℤ} :
    Signed base.toNat (0x2d :: t) number ↔
    ∃ value : ℕ, Denotes base.toNat t value ∧ number = -value := by
  constructor
  · rintro (⟨value, unsigned, _⟩ | ⟨rest, value, isText, denotes, isNumber⟩)
    · have noDigit : ¬(digitOf 0x2d).isSome = true := by decide
      have notPlus : charAt (0x2d :: t) 0 ≠ 0x2b := by
        change (0x2d : BitVec 8) ≠ 0x2b
        decide
      rw [unsigned_iff notPlus] at unsigned
      exact absurd unsigned.isSome_charAt noDigit
    · rw [(cons.inj isText).2]
      exact ⟨value, denotes, isNumber⟩
  · rintro ⟨value, denotes, isNumber⟩
    exact .inr ⟨t, value, rfl, denotes, isNumber⟩

theorem signed_iff
    {number : ℤ}
    (noMinus : charAt s 0 ≠ 0x2d) :
    Signed base.toNat s number ↔ ∃ value : ℕ, Unsigned base.toNat s value ∧ number = value := by
  constructor
  · rintro (unsigned | ⟨rest, value, rfl, _⟩)
    · exact unsigned
    · exact absurd rfl noMinus
  · exact .inl

theorem Unsigned.unique
    {other : ℕ}
    (unsigned : Unsigned base.toNat s value)
    (again : Unsigned base.toNat s other) :
    other = value := by
  by_cases plus : charAt s 0 = 0x2b
  · rw [eq_cons_of_charAt plus (by decide), unsigned_plus_iff] at unsigned again
    exact unsigned.unique again
  · rw [unsigned_iff plus] at unsigned again
    exact unsigned.unique again

/-- The end of `kstrtoll` for a text without minus. -/
def asSigned (tmp : Outcome) (res : BitVec 64) : Outcome :=
  match tmp.2 with
  | .error errno => (res, .error errno)
  | .ok () => if tmp.1.toInt < 0 then (res, .error .erange) else (tmp.1, .ok ())

/-- The end of `kstrtoll` for a text with a minus. -/
def asNegative (tmp : Outcome) (res : BitVec 64) : Outcome :=
  match tmp.2 with
  | .error errno => (res, .error errno)
  | .ok () => if 0 < (-tmp.1).toInt then (res, .error .erange) else (-tmp.1, .ok ())

section
variable {tmp : Outcome} {start : BitVec 64} {denotes : ℕ → Prop}

section
variable (converts : Converts tmp start denotes)
include converts

/-- A failing conversion refuses a number only if it is too large. -/
theorem Converts.erange_of_error
    {errno : Errno}
    {number : ℕ}
    (isError : tmp.2 = .error errno)
    (isDenoted : denotes number) :
    errno = .erange ∧ 2 ^ 64 ≤ number := by
  by_cases large : 2 ^ 64 ≤ number
  · rw [converts.outOfRange number isDenoted large] at isError
    exact ⟨(Except.error.inj isError).symm, large⟩
  have isNumber : (BitVec.ofNat 64 number).toNat = number := by
    rw [toNat_ofNat]
    omega
  rw [← isNumber, ← converts.accepted] at isDenoted
  rw [isDenoted] at isError
  exact absurd isError (by simp)

theorem Converts.denoted_of_ok (isOk : tmp.2 = .ok ()) : denotes tmp.1.toNat := by
  rw [← converts.accepted, ← isOk]

/-- An error is passed on when a number too large has no signed value. -/
theorem Converts.signed_error
    {errno : Errno}
    {image : ℕ → ℤ}
    (isError : tmp.2 = .error errno)
    (outside : ∀ number, 2 ^ 64 ≤ number → ¬(-2 ^ 63 ≤ image number ∧ image number < 2 ^ 63)) :
    ConvertsSigned (res, .error errno) res
    (fun number => ∃ value, denotes value ∧ number = image value) := by
  refine ⟨?_, ?_, fun _ => rfl⟩
  · intro value
    refine ⟨fun isOk => absurd (Prod.mk.inj isOk).2 (by simp), ?_⟩
    rintro ⟨number, isDenoted, isValue⟩
    have lower := @le_two_mul_toInt 64 value
    have upper := @two_mul_toInt_lt 64 value
    exact absurd ⟨by omega, by omega⟩
      (outside number (converts.erange_of_error isError isDenoted).2)
  · rintro number ⟨value, isDenoted, _⟩ _
    rw [(converts.erange_of_error isError isDenoted).1]

end

/-- A number is accepted with its signed value, or has none. -/
theorem convertsSigned_ite
    {refuse : Prop}
    [Decidable refuse]
    {bits : BitVec 64}
    {image : ℕ → ℤ}
    {number : ℕ}
    (isDenoted : denotes number)
    (unique : ∀ {number other}, denotes number → denotes other → other = number)
    (accepts : ¬refuse → bits.toInt = image number)
    (refuses : refuse → ¬(-2 ^ 63 ≤ image number ∧ image number < 2 ^ 63)) :
    ConvertsSigned (if refuse then (res, .error .erange) else (bits, .ok ())) res
      (fun number => ∃ value, denotes value ∧ number = image value) := by
  split
  case isTrue refused =>
    refine ⟨?_, fun _ _ _ => rfl, fun _ => rfl⟩
    intro value
    refine ⟨fun isOk => absurd (Prod.mk.inj isOk).2 (by simp), ?_⟩
    rintro ⟨other, again, isValue⟩
    rw [unique isDenoted again] at isValue
    have lower := @le_two_mul_toInt 64 value
    have upper := @two_mul_toInt_lt 64 value
    exact absurd ⟨by omega, by omega⟩ (refuses refused)
  case isFalse accepted =>
    have same := accepts accepted
    refine ⟨?_, ?_, fun failed => absurd rfl failed⟩
    · intro value
      rw [Prod.mk.injEq, ← toInt_inj, same]
      constructor
      · rintro ⟨isValue, _⟩
        exact ⟨_, isDenoted, isValue.symm⟩
      rintro ⟨other, again, isValue⟩
      rw [isValue, unique isDenoted again]
      exact ⟨rfl, rfl⟩
    · rintro _ ⟨value, again, rfl⟩ outside
      rw [unique isDenoted again] at outside
      have lower := @le_two_mul_toInt 64 bits
      have upper := @two_mul_toInt_lt 64 bits
      exact absurd ⟨by omega, by omega⟩ outside

section
variable (converts : Converts tmp start denotes)
  (unique : ∀ {number other}, denotes number → denotes other → other = number)
include converts unique

theorem convertsSigned_asSigned :
    ConvertsSigned (asSigned tmp res) res
    (fun number => ∃ value : ℕ, denotes value ∧ number = value) := by
  rw [asSigned]
  cases isOutcome : tmp.2 with
  | error errno => exact converts.signed_error isOutcome (by omega)
  | ok =>
    have isInt := toInt_eq_toNat_cond tmp.1
    refine convertsSigned_ite (converts.denoted_of_ok isOutcome) unique ?_ ?_
    · intro positive
      split at isInt
      · exact isInt
      · omega
    · omega

theorem convertsSigned_asNegative :
    ConvertsSigned (asNegative tmp res) res
    (fun number => ∃ value : ℕ, denotes value ∧ number = -value) := by
  rw [asNegative]
  cases isOutcome : tmp.2 with
  | error errno => exact converts.signed_error isOutcome (by omega)
  | ok =>
    have isInt := toInt_eq_toNat_cond (-tmp.1)
    have isNat := toNat_neg tmp.1
    refine convertsSigned_ite (converts.denoted_of_ok isOutcome) unique ?_ ?_
    · omega
    · omega

end

end

theorem kstrtoll_eq
    {s : CString} :
    kstrtoll s base res = if charAt s.chars 0 = 0x2d then
    asNegative (kstrtoullText (s.chars.drop 1) base 0) res else asSigned (kstrtoull s base 0) res :=
  rfl

theorem ConvertsSigned.congr
    {outcome : Outcome}
    {denotes denotes' : ℤ → Prop}
    (converts : ConvertsSigned outcome res denotes)
    (same : ∀ number, denotes' number ↔ denotes number) :
    ConvertsSigned outcome res denotes' := by
  rw [show denotes' = denotes from funext fun number => propext (same number)]
  exact converts

theorem convertsSigned_kstrtoll
    {s : CString}
    (supported : Supported base)
    (short : ShortRuns s.chars) :
    ConvertsSigned (kstrtoll s base res) res (Signed base.toNat s.chars) := by
  rw [kstrtoll_eq]
  by_cases minus : charAt s.chars 0 = 0x2d
  · have isText := eq_cons_of_charAt minus (by decide)
    have noNul := s.noNul
    rw [if_pos minus]
    rw [isText] at short noNul
    have converts := @converts_text _ _ 0
      (fun member => noNul (mem_cons_of_mem _ member)) supported short.tail
    refine (convertsSigned_asNegative converts Denotes.unique).congr ?_
    intro number
    rw [isText]
    exact signed_minus_iff
  · rw [if_neg minus]
    have converts := @converts_kstrtoull _ 0 s supported short
    refine (convertsSigned_asSigned converts Unsigned.unique).congr ?_
    intro number
    exact signed_iff minus

end

/--
Both conversions accept the strings of the grammar whose numbers fit, report
the range error for the other ones, fail for all others, and leave the result
alone when they fail.
-/
theorem kstrto_correct
    {s : CString}
    {base : BitVec 32}
    {res : BitVec 64}
    (supported : Supported base)
    (short : ShortRuns s.chars) :
    Converts (kstrtoull s base res) res (Unsigned base.toNat s.chars) ∧
    ConvertsSigned (kstrtoll s base res) res (Signed base.toNat s.chars) :=
  ⟨converts_kstrtoull supported short, convertsSigned_kstrtoll supported short⟩

def plusHex : CString := ⟨[0x2b, 0x30, 0x78, 0x31, 0x66, 0x0a], by decide⟩

theorem kstrto_correct_plusHex :
    ShortRuns plusHex.chars ∧ kstrtoull plusHex 0 7 = (31, .ok ()) ∧
    Unsigned 0 plusHex.chars 31 := by
  have short : ShortRuns plusHex.chars := by
    intro digits inside _
    have atMost : digits.length ≤ 6 := inside.length_le
    omega
  refine ⟨short, by decide +kernel, ?_⟩
  exact ((kstrto_correct (.inl rfl) short).1.accepted 31).mp
    (by decide +kernel : kstrtoull plusHex 0 7 = (31, .ok ()))

def zeros (count : ℕ) : CString where
  chars := List.replicate count 0x30
  noNul := fun member => absurd (eq_of_mem_replicate member) (by decide)

/-- Each zero is counted. -/
theorem parseInteger_zeros
    (count : ℕ)
    (rv : BitVec 32) :
    parseInteger 10 (List.replicate count 0x30) 0 rv = (0, rv + BitVec.ofNat 32 count) := by
  induction count generalizing rv with
  | zero => simp [parseInteger]
  | succ count inductionHypothesis =>
    rw [List.replicate_succ, parseInteger]
    change parseInteger 10 _ 0 _ = _
    rw [inductionHypothesis, BitVec.add_assoc, Nat.add_comm count, BitVec.ofNat_add]
    rfl

theorem isDigit_of_mem_zeros
    (count : ℕ) :
    ∀ c ∈ List.replicate count (0x30 : BitVec 8), isDigit 10 c = true := by
  intro c member
  rw [eq_of_mem_replicate member]
  decide

theorem denoted_zeros (count : ℕ) : denoted 10 (List.replicate count 0x30) = 0 := by
  induction count with
  | zero => rfl
  | succ count inductionHypothesis =>
    have isZero : digitOf 0x30 = some 0 := by decide
    rw [List.replicate_succ, denoted_cons isZero (isDigit_of_mem_zeros count), Nat.zero_mul,
      Nat.zero_add]
    exact inductionHypothesis

theorem denotes_zeros {count : ℕ} (positive : 0 < count) : Denotes 10 (zeros count).chars 0 := by
  refine ⟨[], List.replicate count 0x30, [], 10, ?_, .plain (by decide), ?_,
    isDigit_of_mem_zeros count, .inl rfl, ?_⟩
  · rw [append_nil]
    rfl
  · rw [Ne, replicate_eq_nil_iff]
    omega
  · exact (denoted_zeros count).symm

/-- The count of 2³¹ zeros is taken for an overflow. -/
theorem not_converts_manyZeros :
    Unsigned 10 (zeros (2 ^ 31)).chars 0 ∧
    kstrtoull (zeros (2 ^ 31)) 10 0 = (0, .error .erange) := by
  have isFixed : parseIntegerFixupRadix (zeros (2 ^ 31)).chars 10 =
      ((zeros (2 ^ 31)).chars, 10) := by
    have isDetected : detectBase (zeros (2 ^ 31)).chars 10 = 10 := by
      rw [detectBase, if_neg (by decide)]
    rw [parseIntegerFixupRadix, isDetected, if_neg (fun isHex => absurd isHex.1 (by decide))]
  have isParsed := parseInteger_zeros (2 ^ 31) 0
  constructor
  · exact .inl (denotes_zeros (by decide))
  rw [kstrtoull, if_neg (by decide), kstrtoullText, isFixed]
  have isZeros : (zeros (2 ^ 31)).chars = List.replicate (2 ^ 31) 0x30 := rfl
  rw [isZeros, isParsed, if_pos (by decide)]

end EchoKernel.Kstrtox
