import EchoKernel.KstrtoxSpec

namespace EchoKernel.Kstrtox

open List CString

/-!
# Integers in user texts

The `_from_user` conversions copy the text to a buffer with room for a sign,
the digits in base two and a newline, and cut the rest.
-/

/-- The conversions; `long` has 32 bits. -/
inductive Conversion where
  | kstrtoull | kstrtoll | kstrtoul | kstrtol | kstrtouint
  | kstrtoint | kstrtou16 | kstrtos16 | kstrtou8 | kstrtos8
  deriving Repr, DecidableEq

/-- A conversion to a narrower type, by `tmp` and its value in that type. -/
def narrowed (tmp : Outcome) (inType : BitVec 64) (res : BitVec 64) : Outcome :=
  match tmp.2 with
  | .error errno => (res, .error errno)
  | .ok () => if tmp.1 ≠ inType then (res, .error .erange) else (tmp.1, .ok ())

/-- A conversion to an unsigned type. -/
def kstrtoUnsigned (width : Nat) (s : CString) (base : BitVec 32) (res : BitVec 64) : Outcome :=
  let tmp := kstrtoull s base 0
  narrowed tmp ((tmp.1.setWidth width).setWidth 64) res

/-- A conversion to a signed type. -/
def kstrtoSigned (width : Nat) (s : CString) (base : BitVec 32) (res : BitVec 64) : Outcome :=
  let tmp := kstrtoll s base 0
  narrowed tmp ((tmp.1.setWidth width).signExtend 64) res

namespace Conversion

def kstrto : Conversion → CString → BitVec 32 → BitVec 64 → Outcome
  | kstrtoull => Kstrtox.kstrtoull
  | kstrtoll => Kstrtox.kstrtoll
  | kstrtoul => kstrtoUnsigned 32
  | kstrtol => kstrtoSigned 32
  | kstrtouint => kstrtoUnsigned 32
  | kstrtoint => kstrtoSigned 32
  | kstrtou16 => kstrtoUnsigned 16
  | kstrtos16 => kstrtoSigned 16
  | kstrtou8 => kstrtoUnsigned 8
  | kstrtos8 => kstrtoSigned 8

def size : Conversion → Nat
  | kstrtoull | kstrtoll => 8
  | kstrtoul | kstrtol | kstrtouint | kstrtoint => 4
  | kstrtou16 | kstrtos16 => 2
  | kstrtou8 | kstrtos8 => 1

/-- `sizeof(buf)`: sign, digits in base 2, newline, terminator. -/
def bufSize (conversion : Conversion) : Nat := 1 + conversion.size * 8 + 1 + 1

end Conversion

/-- The first characters of a string. -/
def CString.cut (s : CString) (count : Nat) : CString :=
  ⟨s.chars.take count, fun member => s.noNul (mem_of_mem_take member)⟩

/-- `kstrto_from_user`; the copy may fault. -/
def Conversion.fromUser (conversion : Conversion) (faults : Bool) (s : CString) (base : BitVec 32)
    (res : BitVec 64) : Outcome :=
  let count := min s.chars.length (conversion.bufSize - 1)
  if faults then (res, .error .efault)
  else conversion.kstrto (s.cut count) base res

/-- Zeros, and characters behind them that are no digits. -/
def zerosThen (count junk : Nat) : CString where
  chars := replicate count 0x30 ++ replicate junk 0x7a
  noNul := by simp [mem_replicate]

section
variable {count junk : Nat} {res : BitVec 64}

theorem reading_zerosThen :
    reading (zerosThen count junk).chars 10 = ⟨10, replicate count 0x30, replicate junk 0x7a⟩ := by
  have isDetected : detectBase (zerosThen count junk).chars 10 = 10 := by
    rw [detectBase, if_neg (by decide)]
  have isFixed : parseIntegerFixupRadix (zerosThen count junk).chars 10 =
      (replicate count 0x30 ++ replicate junk 0x7a, 10) := by
    rw [parseIntegerFixupRadix, isDetected, if_neg (fun isHex => absurd isHex.1 (by decide))]
    rfl
  have isDigits : leadingDigits 10 (replicate count 0x30 ++ replicate junk 0x7a) =
      replicate count 0x30 := by
    rw [leadingDigits, takeWhile_append_of_pos (isDigit_of_mem_zeros count)]
    have noDigit : isDigit 10 0x7a = false := by decide
    rw [takeWhile_replicate, noDigit]
    exact append_nil _
  rw [reading, isFixed]
  change Reading.mk 10 (leadingDigits 10 _) (drop (leadingDigits 10 _).length _) = _
  rw [isDigits, drop_left]

theorem charAt_zerosThen (positive : 0 < count) : charAt (zerosThen count junk).chars 0 = 0x30 := by
  obtain ⟨before, rfl⟩ := Nat.exists_eq_succ_of_ne_zero positive.ne'
  rfl

theorem kstrtoull_zerosThen
    (positive : 0 < count)
    (few : count < 2 ^ 31) :
    kstrtoull (zerosThen count junk) 10 res =
    if junk = 0 then (0, .ok ()) else (res, .error .einval) := by
  have isReading := @reading_zerosThen count junk
  have isText := @kstrtoullText_eq (zerosThen count junk).chars 10 res (zerosThen count junk).noNul
    (.inr (by decide)) (by rw [isReading, length_replicate]; exact few)
  rw [kstrtoull, charAt_zerosThen positive, if_neg (by decide), isText, isReading, denoted_zeros,
    if_neg (by decide), if_neg (by rw [replicate_eq_nil_iff]; omega)]
  cases junk with
  | zero => rfl
  | succ junk =>
    rw [if_neg, if_neg (by omega)]
    simp [Ended, replicate_succ]

/-- Every conversion accepts the zeros alone. -/
theorem kstrto_zerosThen
    (conversion : Conversion)
    (positive : 0 < count)
    (few : count < 2 ^ 31) :
    (conversion.kstrto (zerosThen count junk) 10 res).2 =
    if junk = 0 then .ok () else .error .einval := by
  have isUnsigned {res : BitVec 64} := @kstrtoull_zerosThen count junk res positive few
  have isSigned {res : BitVec 64} : kstrtoll (zerosThen count junk) 10 res =
      if junk = 0 then (0, .ok ()) else (res, .error .einval) := by
    rw [kstrtoll, charAt_zerosThen positive, if_neg (by decide), isUnsigned]
    by_cases alone : junk = 0
    · simp only [if_pos alone]
      rfl
    · simp only [if_neg alone]
  by_cases alone : junk = 0
  · simp only [if_pos alone] at isUnsigned isSigned ⊢
    cases conversion <;>
      simp only [Conversion.kstrto, kstrtoUnsigned, kstrtoSigned, narrowed, isUnsigned,
        isSigned] <;> rfl
  · simp only [if_neg alone] at isUnsigned isSigned ⊢
    cases conversion <;>
      simp only [Conversion.kstrto, kstrtoUnsigned, kstrtoSigned, narrowed, isUnsigned, isSigned]

end

/-- Conversions of user texts of a length are those of the whole texts if they fit. -/
theorem fromUser_iff
    (conversion : Conversion)
    (length : Nat) :
    (∀ (s : CString) (base : BitVec 32) (res : BitVec 64), s.chars.length = length →
    Supported base → conversion.fromUser false s base res = conversion.kstrto s base res) ↔
    length ≤ conversion.size * 8 + 2 := by
  have isRoom : conversion.bufSize - 1 = conversion.size * 8 + 2 := by
    rw [Conversion.bufSize]
    omega
  have few : conversion.size ≤ 8 := by cases conversion <;> decide
  constructor
  · intro agree
    by_contra long
    have isCut : (zerosThen (conversion.size * 8 + 2) (length - (conversion.size * 8 + 2))).cut
        (min length (conversion.size * 8 + 2)) = zerosThen (conversion.size * 8 + 2) 0 := by
      rw [cut, zerosThen, zerosThen, mk.injEq, Nat.min_eq_right (by omega)]
      rw [take_left' length_replicate, replicate_zero, append_nil]
    have isLength : (zerosThen (conversion.size * 8 + 2)
        (length - (conversion.size * 8 + 2))).chars.length = length := by
      rw [zerosThen, length_append, length_replicate, length_replicate]
      omega
    have same := congrArg Prod.snd (agree _ 10 0 isLength (.inr (by decide)))
    rw [Conversion.fromUser, isLength, isRoom, isCut] at same
    change (conversion.kstrto _ 10 0).2 = _ at same
    rw [kstrto_zerosThen conversion (by omega) (by omega),
      kstrto_zerosThen conversion (by omega) (by omega), if_pos rfl, if_neg (by omega)] at same
    cases same
  · intro fits s base res isLength _
    have isWhole : s.cut s.chars.length = s := by
      rw [cut, mk.injEq]
      exact take_length
    rw [Conversion.fromUser, isRoom, Nat.min_eq_left (by omega), isWhole]
    rfl

def zerosOne : CString := ⟨replicate 10 0x30 ++ [0x31], by decide⟩

/-- The last digit is cut, and another number is read. -/
theorem kstrtou8_fromUser_cut :
    Conversion.kstrtou8.fromUser false zerosOne 10 7 = (0, .ok ()) ∧
    Conversion.kstrtou8.kstrto zerosOne 10 7 = (1, .ok ()) := by
  decide +kernel

end EchoKernel.Kstrtox
