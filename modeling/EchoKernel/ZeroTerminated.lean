import Mathlib.Data.BitVec

namespace EchoKernel.ZeroTerminated

open Function List

/-!
# Strings that end with a zero

A memory is a function from addresses to values. A string is a list without
zeros, followed by a zero in memory. Several nonempty strings may follow each
other, with another zero behind the last one.
-/

variable {α : Type*} [Zero α] [DecidableEq α]

section
omit [Zero α] [DecidableEq α]

variable {memory other : Nat → α} {start : Nat} {values rest : List α}

/-- A memory holds a list of values from an address on. -/
def Holds (memory : Nat → α) : Nat → List α → Prop
  | _, [] => True
  | start, value :: rest => memory start = value ∧ Holds memory (start + 1) rest

theorem holds_append :
    Holds memory start (values ++ rest) ↔ Holds memory start values ∧
    Holds memory (start + values.length) rest := by
  induction values generalizing start with
  | nil => simp [Holds]
  | cons value values inductionHypothesis =>
    rw [cons_append, Holds, Holds, inductionHypothesis, and_assoc,
      length_cons, Nat.add_assoc, Nat.add_comm 1]

/-- What is held depends on the values' addresses only. -/
theorem Holds.congr
    (held : Holds memory start values)
    (same : ∀ address, start ≤ address → address < start + values.length →
      other address = memory address) :
    Holds other start values := by
  induction values generalizing start with
  | nil => trivial
  | cons value values inductionHypothesis =>
    rw [length_cons] at same
    refine ⟨?_, inductionHypothesis held.2 ?_⟩
    · rw [same start le_rfl (by omega)]
      exact held.1
    · intro address above below
      exact same address (by omega) (by omega)

end

section
variable {memory : Nat → α} {start fuel : Nat} {text : List α}

/-- The address of the zero at the end of a string. -/
def endOfString (memory : Nat → α) : Nat → Nat → Option Nat
  | 0, _ => none
  | fuel + 1, address =>
    if memory address = 0 then some address
    else endOfString memory fuel (address + 1)

def readString (memory : Nat → α) : Nat → Nat → Option (List α)
  | 0, _ => none
  | fuel + 1, address =>
    if memory address = 0 then some []
    else (readString memory fuel (address + 1)).map fun rest => memory address :: rest

/-- A string is written; the address is that of its zero. -/
def writeString (memory : Nat → α) : Nat → List α → (Nat → α) × Nat
  | address, [] => (update memory address 0, address)
  | address, value :: rest => writeString (update memory address value) (address + 1) rest

section
variable (held : Holds memory start (text ++ [0])) (isText : 0 ∉ text) (enough : text.length < fuel)
include held isText enough

theorem endOfString_eq : endOfString memory fuel start = some (start + text.length) := by
  induction text generalizing start fuel with
  | nil =>
    obtain ⟨fuel, rfl⟩ := Nat.exists_eq_add_of_lt enough
    rw [length_nil, endOfString, if_pos held.1]
    rfl
  | cons value text inductionHypothesis =>
    rw [length_cons] at enough
    obtain _ | fuel := fuel
    · omega
    rw [mem_cons, not_or] at isText
    have nonzero : memory start ≠ 0 := by
      rw [held.1]
      exact Ne.symm isText.1
    rw [endOfString, if_neg nonzero, inductionHypothesis held.2 isText.2 (by omega), length_cons,
      Nat.add_assoc, Nat.add_comm 1]

theorem readString_eq : readString memory fuel start = some text := by
  induction text generalizing start fuel with
  | nil =>
    obtain _ | fuel := fuel
    · omega
    rw [readString, if_pos held.1]
  | cons value text inductionHypothesis =>
    rw [length_cons] at enough
    obtain _ | fuel := fuel
    · omega
    rw [mem_cons, not_or] at isText
    have nonzero : memory start ≠ 0 := by
      rw [held.1]
      exact Ne.symm isText.1
    rw [readString, if_neg nonzero, inductionHypothesis held.2 isText.2 (by omega), held.1,
      Option.map_some]

end

omit [DecidableEq α] in
theorem writeString_snd : (writeString memory start text).2 = start + text.length := by
  induction text generalizing memory start with
  | nil => rfl
  | cons value text inductionHypothesis =>
    rw [writeString, inductionHypothesis, length_cons, Nat.add_assoc, Nat.add_comm 1]

omit [DecidableEq α] in
/-- A write leaves the other addresses alone. -/
theorem writeString_outside
    {address : Nat}
    (outside : address < start ∨ start + text.length < address) :
    (writeString memory start text).1 address = memory address := by
  induction text generalizing memory start with
  | nil =>
    exact update_of_ne (by omega) _ _
  | cons value text inductionHypothesis =>
    rw [length_cons] at outside
    rw [writeString, inductionHypothesis (by omega)]
    exact update_of_ne (by omega) _ _

omit [DecidableEq α] in
theorem holds_writeString : Holds (writeString memory start text).1 start (text ++ [0]) := by
  induction text generalizing memory start with
  | nil => exact ⟨update_self _ _ _, trivial⟩
  | cons value text inductionHypothesis =>
    refine ⟨?_, inductionHypothesis⟩
    rw [writeString, writeString_outside (by omega)]
    exact update_self _ _ _

end

variable {memory : Nat → α} {start fuel : Nat} {values : List α}

/-- Strings one after the other, each with its zero. -/
def joined (strings : List (List α)) : List α := (strings.map fun text => text ++ [0]).flatten

/-- The last value is a zero, and no two zeros touch. -/
def NoGap : List α → Prop
  | [] => False
  | [value] => value = 0
  | value :: next :: rest => (value = 0 → next ≠ 0) ∧ NoGap (next :: rest)

/-- Two zeros are searched for; the address is the first one's. -/
def endOfStrings (memory : Nat → α) : Nat → Nat → Option Nat
  | 0, _ => none
  | fuel + 1, address =>
    if memory address = 0 ∧ memory (address + 1) = 0 then some address
    else endOfStrings memory fuel (address + 1)

/--
Values are moved to a lower address until two zeros are found; the result is
the first one's address.
-/
def moveStrings : Nat → (Nat → α) → Nat → Nat → Option ((Nat → α) × Nat)
  | 0, _, _, _ => none
  | fuel + 1, memory, target, source =>
    let moved := update memory target (memory source)
    if moved target = 0 ∧ moved (source + 1) = 0 then some (moved, target)
    else moveStrings fuel moved (target + 1) (source + 1)

omit [DecidableEq α] in
theorem NoGap.ne_nil (noGap : NoGap values) : values ≠ [] := by
  rintro rfl
  exact noGap

omit [DecidableEq α] in
/-- A string is put before strings. -/
theorem noGap_string_append
    {text rest : List α}
    (isText : 0 ∉ text)
    (ends : rest = [] ∨ NoGap rest ∧ ∀ value ∈ rest.head?, value ≠ 0) :
    NoGap (text ++ [0] ++ rest) := by
  induction text with
  | nil =>
    cases rest with
    | nil => exact rfl
    | cons next rest =>
      rcases ends with isNil | ⟨noGap, nonzero⟩
      · cases isNil
      · exact ⟨fun _ => nonzero next rfl, noGap⟩
  | cons value text inductionHypothesis =>
    rw [mem_cons, not_or] at isText
    have further := inductionHypothesis isText.2
    cases isRest : text ++ [0] ++ rest with
    | nil =>
      rw [isRest] at further
      exact further.elim
    | cons next behind =>
      rw [isRest] at further
      rw [cons_append, cons_append, isRest]
      exact ⟨fun isZero => absurd isZero.symm isText.1, further⟩

omit [DecidableEq α] in
/-- Strings that are not empty have no gap. -/
theorem noGap_joined
    {strings : List (List α)}
    (some : strings ≠ [])
    (areTexts : ∀ text ∈ strings, text ≠ [] ∧ 0 ∉ text) :
    NoGap (joined strings) := by
  induction strings with
  | nil => exact absurd rfl some
  | cons text strings inductionHypothesis =>
    obtain ⟨_, isText⟩ := areTexts text mem_cons_self
    refine noGap_string_append isText ?_
    cases strings with
    | nil => exact .inl rfl
    | cons next strings =>
      refine .inr ⟨?_, ?_⟩
      · refine inductionHypothesis (by simp) ?_
        intro other member
        exact areTexts other (mem_cons_of_mem _ member)
      obtain ⟨nonempty, isNext⟩ := areTexts next (mem_cons_of_mem _ mem_cons_self)
      cases next with
      | nil => exact absurd rfl nonempty
      | cons value next =>
        rintro first ⟨⟩
        rintro rfl
        exact isNext mem_cons_self

/-- The end of strings is at the first of two zeros. -/
theorem endOfStrings_eq
    (noGap : NoGap values)
    (held : Holds memory start (values ++ [0]))
    (enough : values.length ≤ fuel) :
    endOfStrings memory fuel start = some (start + values.length - 1) := by
  induction values generalizing start fuel with
  | nil => exact noGap.elim
  | cons value values inductionHypothesis =>
    rw [length_cons] at enough
    obtain _ | fuel := fuel
    · omega
    rw [endOfStrings]
    cases values with
    | nil =>
      have isZero : memory start = 0 := held.1.trans noGap
      rw [if_pos ⟨isZero, held.2.1⟩]
      rfl
    | cons next values =>
      have apart : ¬ (memory start = 0 ∧ memory (start + 1) = 0) := by
        rw [held.1, held.2.1]
        exact fun both => noGap.1 both.1 both.2
      rw [if_neg apart, inductionHypothesis noGap.2 held.2 (by omega)]
      simp only [length_cons]
      congr 1
      omega

/-- Strings are moved as a whole, and nothing else changes. -/
theorem moveStrings_eq
    {target source : Nat}
    (noGap : NoGap values)
    (held : Holds memory source (values ++ [0]))
    (lower : target < source)
    (enough : values.length ≤ fuel) :
    ∃ moved, moveStrings fuel memory target source =
    some (moved, target + values.length - 1) ∧ Holds moved target values ∧ ∀ address, address <
    target ∨ target + values.length ≤ address → moved address = memory address := by
  induction values generalizing memory target source fuel with
  | nil => exact noGap.elim
  | cons value values inductionHypothesis =>
    rw [length_cons] at enough
    obtain _ | fuel := fuel
    · omega
    have isTarget : update memory target (memory source) target = value := by
      rw [update_self]
      exact held.1
    have behind : Holds (update memory target (memory source)) (source + 1) (values ++ [0]) := by
      refine held.2.congr ?_
      intro address above _
      exact update_of_ne (by omega) _ _
    rw [moveStrings]
    cases values with
    | nil =>
      rw [if_pos ⟨isTarget.trans noGap, behind.1⟩]
      refine ⟨_, rfl, ⟨isTarget, trivial⟩, ?_⟩
      intro address outside
      rw [length_singleton] at outside
      exact update_of_ne (by omega) _ _
    | cons next values =>
      have apart : ¬ (update memory target (memory source) target = 0 ∧
          update memory target (memory source) (source + 1) = 0) := by
        rw [isTarget, behind.1]
        exact fun both => noGap.1 both.1 both.2
      obtain ⟨moved, isMoved, holds, frame⟩ :=
        @inductionHypothesis (update memory target (memory source)) fuel
          (target + 1) (source + 1) noGap.2 behind (by omega) (by omega)
      rw [if_neg apart, isMoved]
      refine ⟨moved, ?_, ⟨?_, holds⟩, ?_⟩
      · simp only [length_cons]
        congr 2
        omega
      · rw [frame target (by omega)]
        exact isTarget
      intro address outside
      rw [length_cons] at outside
      rw [frame address (by omega)]
      exact update_of_ne (by omega) _ _

end EchoKernel.ZeroTerminated
