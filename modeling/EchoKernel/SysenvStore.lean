import EchoKernel.Sysenv
import Mathlib.Data.List.Lookmap
import Mathlib.Data.List.TakeWhile

namespace EchoKernel.Sysenv

open ZeroTerminated List

/-!
# Environments as lists of names and values

The strings of a well-formed environment are names with their values.
Searching and reading find the first one with a name, and an update removes it
and adds another behind the others.
-/

abbrev Entry := Text × Text

/-- A string that can be a name. -/
def IsName (name : Text) : Prop := 0 ∉ name ∧ equals ∉ name

def Entry.text (entry : Entry) : Text := entry.1 ++ equals :: entry.2

/-- The strings of entries, each with its zero. -/
def encoded (entries : List Entry) : Text := joined (entries.map Entry.text)

/-- The names are names, and the values are strings. -/
def Proper (entries : List Entry) : Prop := ∀ entry ∈ entries, IsName entry.1 ∧ 0 ∉ entry.2

/-- A buffer holds entries, and two zeros are behind them. -/
structure Layout (envData : Nat → BitVec 8) (entries : List Entry) : Prop where
  proper : Proper entries
  held : Holds envData 0 (encoded entries ++ [0])
  empty : entries = [] → envData 1 = 0
  fits : (encoded entries).length < cfgEnvDataSize

variable {envData : Nat → BitVec 8} {start fuel : Nat} {name value : Text}
variable {entry : Entry} {entries before after : List Entry}

theorem encoded_cons : encoded (entry :: entries) = entry.text ++ [0] ++ encoded entries := rfl

theorem encoded_append : encoded (before ++ after) = encoded before ++ encoded after := by
  rw [encoded, joined, map_append, map_append, flatten_append]
  rfl

theorem length_text : entry.text.length = entry.1.length + entry.2.length + 1 := by
  rw [Entry.text, length_append, length_cons, Nat.add_assoc]

theorem length_encoded_cons :
    (encoded (entry :: entries)).length = entry.text.length + 1 + (encoded entries).length := by
  rw [encoded_cons, length_append, length_append, length_singleton]

theorem zero_notMem_text (isName : IsName entry.1) (isText : 0 ∉ entry.2) : 0 ∉ entry.text := by
  intro member
  rcases mem_append.mp member with inName | behind
  · exact isName.1 inName
  rcases mem_cons.mp behind with isEquals | inValue
  · exact absurd isEquals (by decide)
  · exact isText inValue

theorem Proper.tail (proper : Proper (entry :: entries)) : Proper entries := by
  intro other member
  exact proper other (mem_cons_of_mem _ member)

theorem Proper.noGap (proper : Proper entries) (some : entries ≠ []) : NoGap (encoded entries) := by
  refine noGap_joined (by simpa using some) ?_
  intro text member
  obtain ⟨entry, isEntry, rfl⟩ := mem_map.mp member
  obtain ⟨isName, isText⟩ := proper entry isEntry
  refine ⟨?_, zero_notMem_text isName isText⟩
  simp [Entry.text]

theorem length_le_encoded : entries.length ≤ (encoded entries).length := by
  induction entries with
  | nil => exact Nat.zero_le _
  | cons entry entries inductionHypothesis =>
    rw [length_cons, length_encoded_cons]
    omega

/-- What is compared of a name: what is before a separator. -/
def nameKey (name : Text) : Text := name.takeWhile (· ≠ equals)

theorem IsName.nameKey (isName : IsName name) : nameKey name = name := by
  refine takeWhile_eq_self_iff.mpr ?_
  intro letter member
  simp only [decide_eq_true_eq]
  rintro rfl
  exact isName.2 member

/-- A string matches its own name only. -/
theorem envmatch_eq
    {key : Text}
    (isKey : IsName key)
    (held : Holds envData start (key ++ [equals])) :
    envmatch envData name start =
    some (if nameKey name = key then some (start + key.length + 1) else none) := by
  induction name generalizing key start with
  | nil =>
    cases key with
    | nil =>
      have isEquals : envData start = equals := held.1
      rw [envmatch, isEquals]
      rfl
    | cons first key =>
      have nonzero : first ≠ 0 := by
        rintro rfl
        exact isKey.1 mem_cons_self
      have other : first ≠ equals := by
        rintro rfl
        exact isKey.2 mem_cons_self
      rw [envmatch, held.1, if_neg nonzero, if_neg other, if_neg (by simp [nameKey])]
  | cons letter name inductionHypothesis =>
    by_cases separates : letter = equals
    · have isNil : nameKey (letter :: name) = [] := by simp [nameKey, separates]
      rw [envmatch, isNil]
      cases key with
      | nil =>
        have isEquals : envData start = equals := held.1
        rw [if_pos (separates.trans isEquals.symm), if_pos separates]
        rfl
      | cons first key =>
        have other : letter ≠ first := by
          rintro rfl
          exact isKey.2 (separates ▸ mem_cons_self)
        rw [held.1, if_neg other, if_neg (by simp)]
    have isCons : nameKey (letter :: name) = letter :: nameKey name := by
      simp [nameKey, separates]
    rw [envmatch, isCons]
    cases key with
    | nil =>
      have isEquals : envData start = equals := held.1
      rw [isEquals, if_neg separates, if_neg (by simp)]
    | cons first key =>
      rw [held.1]
      by_cases same : letter = first
      · have rest :=
          inductionHypothesis ⟨fun zero => isKey.1 (mem_cons_of_mem _ zero),
            fun separator => isKey.2 (mem_cons_of_mem _ separator)⟩ held.2
        rw [if_pos same, if_neg separates, rest, same, length_cons,
          Nat.add_assoc start 1, Nat.add_comm 1]
        simp
      · rw [if_neg same, if_neg]
        intro equal
        exact same (cons.inj equal).1

/-- What the loops find at the beginning of a string. -/
structure AtEntry (envData : Nat → BitVec 8) (name : Text) (start : Nat) (entry : Entry)
    (entries : List Entry) : Prop where
  nonzero : envData start ≠ 0
  text : Holds envData start (entry.text ++ [0])
  noZero : 0 ∉ entry.text
  matched : envmatch envData name start =
      some (if nameKey name = entry.1 then some (start + entry.1.length + 1) else none)
  rest : Holds envData (start + entry.text.length + 1) (encoded entries ++ [0])

theorem atEntry_of_holds
    (proper : Proper (entry :: entries))
    (held : Holds envData start (encoded (entry :: entries) ++ [0])) :
    AtEntry envData name start entry entries := by
  obtain ⟨isKey, isText⟩ := proper entry mem_cons_self
  have noZero := zero_notMem_text isKey isText
  rw [encoded_cons, append_assoc, holds_append, length_append, ← Nat.add_assoc] at held
  obtain ⟨text, rest⟩ := held
  refine ⟨?_, text, noZero, ?_, rest⟩
  · have isFirst : ∃ first more, entry.text = first :: more := by
      cases isEntry : entry.text with
      | nil => simp [Entry.text] at isEntry
      | cons first more => exact ⟨first, more, rfl⟩
    obtain ⟨first, more, isCons⟩ := isFirst
    rw [isCons] at text noZero
    rw [text.1]
    rintro rfl
    exact noZero mem_cons_self
  · refine envmatch_eq isKey ?_
    rw [Entry.text, ← singleton_append, ← append_assoc,
      append_assoc (entry.1 ++ [equals]), holds_append] at text
    exact text.1

/-- A name that no entry has is not found. -/
theorem searchEnv_absent
    (proper : Proper entries)
    (held : Holds envData start (encoded entries ++ [0]))
    (absent : ∀ entry ∈ entries, nameKey name ≠ entry.1)
    (small : (encoded entries).length ≤ cfgEnvSize)
    (enough : entries.length < fuel) :
    searchEnv envData name fuel start = some none := by
  induction entries generalizing start fuel with
  | nil =>
    obtain _ | fuel := fuel
    · omega
    rw [searchEnv, if_pos held.1]
  | cons entry entries inductionHypothesis =>
    rw [length_cons] at enough
    rw [length_encoded_cons] at small
    obtain _ | fuel := fuel
    · omega
    have atEntry := @atEntry_of_holds _ _ name _ _ proper held
    rw [searchEnv, if_neg atEntry.nonzero, endOfString_eq atEntry.text atEntry.noZero (by omega),
      atEntry.matched, if_neg (absent entry mem_cons_self)]
    refine inductionHypothesis proper.tail atEntry.rest ?_ (by omega) (by omega)
    intro other member
    exact absent other (mem_cons_of_mem _ member)

/-- The first entry with a name is found. -/
theorem searchEnv_present
    (proper : Proper (before ++ (nameKey name, value) :: after))
    (held : Holds envData start (encoded (before ++ (nameKey name, value) :: after) ++ [0]))
    (first : ∀ entry ∈ before, nameKey name ≠ entry.1)
    (small : (encoded (before ++ (nameKey name, value) :: after)).length ≤ cfgEnvSize)
    (enough : before.length < fuel) :
    searchEnv envData name fuel start = some (some (start + (encoded before).length,
    start + (encoded before).length + (Entry.text (nameKey name, value)).length)) := by
  induction before generalizing start fuel with
  | nil =>
    obtain _ | fuel := fuel
    · omega
    rw [nil_append] at proper held small
    rw [length_encoded_cons] at small
    have atEntry := @atEntry_of_holds _ _ name _ _ proper held
    rw [searchEnv, if_neg atEntry.nonzero, endOfString_eq atEntry.text atEntry.noZero (by omega),
      atEntry.matched, if_pos rfl]
    rfl
  | cons entry before inductionHypothesis =>
    rw [length_cons] at enough
    rw [cons_append] at proper held small
    rw [length_encoded_cons] at small
    obtain _ | fuel := fuel
    · omega
    have atEntry := @atEntry_of_holds _ _ name _ _ proper held
    have further := @inductionHypothesis _ fuel proper.tail atEntry.rest
      (fun other member => first other (mem_cons_of_mem _ member))
      (by omega) (by omega)
    rw [searchEnv, if_neg atEntry.nonzero, endOfString_eq atEntry.text atEntry.noZero (by omega),
      atEntry.matched, if_neg (first entry mem_cons_self)]
    dsimp only [Option.bind_some]
    rw [further, length_encoded_cons]
    simp only [Nat.add_assoc]

/-- Inside the buffer the loop of `findenv` finds a string's end. -/
theorem findEnd_eq
    {text : Text}
    (held : Holds envData start (text ++ [0]))
    (isText : 0 ∉ text)
    (inside : start + text.length ≤ cfgEnvSize)
    (enough : text.length < fuel) :
    findEnd envData fuel start = some (start + text.length) := by
  induction text generalizing start fuel with
  | nil =>
    obtain _ | fuel := fuel
    · omega
    rw [findEnd, if_pos held.1]
    rfl
  | cons value text inductionHypothesis =>
    rw [length_cons] at enough inside
    obtain _ | fuel := fuel
    · omega
    rw [mem_cons, not_or] at isText
    have nonzero : envData start ≠ 0 := by
      rw [held.1]
      exact Ne.symm isText.1
    rw [findEnd, if_neg nonzero, if_neg (by omega),
      inductionHypothesis held.2 isText.2 (by omega) (by omega),
      length_cons, Nat.add_assoc, Nat.add_comm 1]

/-- The value of the first entry with a name is found. -/
theorem findenv_eq
    (isName : IsName name)
    (proper : Proper entries)
    (held : Holds envData start (encoded entries ++ [0]))
    (inside : start + (encoded entries).length ≤ cfgEnvSize)
    (enough : entries.length < fuel) :
    (entries.lookup name = none ∧ findenv envData name fuel start = some none) ∨ ∃ value position,
    entries.lookup name = some value ∧ findenv envData name fuel start = some (some position) ∧
    Holds envData position (value ++ [0]) ∧ 0 ∉ value ∧ value.length < cfgEnvSize := by
  induction entries generalizing start fuel with
  | nil =>
    obtain _ | fuel := fuel
    · omega
    refine .inl ⟨rfl, ?_⟩
    rw [findenv, if_pos held.1]
  | cons entry entries inductionHypothesis =>
    rw [length_cons] at enough
    rw [length_encoded_cons] at inside
    obtain _ | fuel := fuel
    · omega
    have atEntry := @atEntry_of_holds _ _ name _ _ proper held
    have isEnd :=
      @findEnd_eq _ _ (cfgEnvSize + 1) _ atEntry.text atEntry.noZero (by omega) (by omega)
    obtain ⟨key, value⟩ := entry
    have matched := atEntry.matched
    rw [isName.nameKey] at matched
    by_cases same : name = key
    · refine .inr ⟨value, start + key.length + 1, ?_, ?_, ?_, ?_, ?_⟩
      · rw [lookup_cons, same, beq_self_eq_true]
      · rw [findenv, if_neg atEntry.nonzero, isEnd]
        rw [matched, if_pos same]
        rfl
      · have text := atEntry.text
        rw [Entry.text, append_assoc, holds_append] at text
        exact text.2.2
      · exact (proper _ mem_cons_self).2
      rw [length_text] at inside
      dsimp only at inside
      omega
    · have further := @inductionHypothesis _ fuel proper.tail atEntry.rest (by omega) (by omega)
      have skips : findenv envData name (fuel + 1) start = findenv envData name fuel
          (start + (Entry.text (key, value)).length + 1) := by
        rw [findenv, if_neg atEntry.nonzero, isEnd]
        rw [matched, if_neg same]
        rfl
      have isLookup : lookup name ((key, value) :: entries) = entries.lookup name := by
        rw [lookup_cons, beq_eq_false_iff_ne.mpr same]
      rw [skips, isLookup]
      exact further

/-- `get_env` gives the value of a name's first entry. -/
theorem Layout.getEnv
    {env : SysEnv}
    (layout : Layout env.envData entries)
    (valid : env.envValid = false → entries = [])
    (isName : IsName name) :
    env.getEnv name = some (entries.lookup name) := by
  have fits := layout.fits
  rw [cfgEnvDataSize] at fits
  unfold SysEnv.getEnv
  cases isValid : env.envValid with
  | false =>
    rw [valid isValid]
    rfl
  | true =>
    rw [if_neg (by simp)]
    have few := @length_le_encoded entries
    rcases @findenv_eq env.envData 0 (cfgEnvSize + 2) name entries isName
        layout.proper layout.held (by omega) (by omega) with
      ⟨absent, isNone⟩ |
        ⟨value, position, present, isFound, held, isText, small⟩
    · rw [isNone, absent]
      rfl
    rw [isFound, present]
    dsimp only [Option.bind_some]
    rw [readString_eq held isText small, Option.map_some]

end EchoKernel.Sysenv
