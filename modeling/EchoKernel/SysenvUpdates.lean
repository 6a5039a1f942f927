import EchoKernel.SysenvStore

namespace EchoKernel.Sysenv

open ZeroTerminated Function List Sysenv

/-!
# The parts of an update

What the loops of `set_env` do to a well-formed environment: an entry is
removed, the end is found, and an entry is added. The buffer determines its
entries.
-/

variable {envData : Nat → BitVec 8} {name value : Text} {entries before after : List Entry}

theorem proper_append : Proper (before ++ after) ↔ Proper before ∧ Proper after := forall_mem_append

theorem Proper.first_ne_zero
    {start : Nat}
    (proper : Proper entries)
    (some : entries ≠ [])
    (held : Holds envData start (encoded entries ++ [0])) :
    envData start ≠ 0 := by
  cases entries with
  | nil => exact absurd rfl some
  | cons entry entries =>
    exact (@atEntry_of_holds _ _ [] _ _ proper held).nonzero

/-- One entry is removed, the others and what is behind the data stay. -/
theorem Layout.deleteEnv
    {entry : Entry}
    (layout : Layout envData (before ++ entry :: after)) :
    ∃ left,
    Sysenv.deleteEnv envData (encoded before).length ((encoded before).length + entry.text.length) =
    some left ∧ Layout left (before ++ after) ∧ ∀ address, cfgEnvDataSize ≤ address →
    left address = envData address := by
  obtain ⟨properBefore, properBehind⟩ := proper_append.mp layout.proper
  have properAfter := properBehind.tail
  have proper := proper_append.mpr ⟨properBefore, properAfter⟩
  have held := layout.held
  have fits := layout.fits
  rw [encoded_append, length_append, length_encoded_cons] at fits
  rw [encoded_append, append_assoc, holds_append, Nat.zero_add] at held
  obtain ⟨heldBefore, heldBehind⟩ := held
  rw [encoded_cons, append_assoc, holds_append, length_append,
    length_singleton, ← Nat.add_assoc] at heldBehind
  have heldAfter := heldBehind.2
  have encodedLeft : encoded (before ++ after) ++ [0] =
      encoded before ++ (encoded after ++ [0]) := by
    rw [encoded_append, append_assoc]
  have fitsLeft : (encoded (before ++ after)).length < cfgEnvDataSize := by
    rw [encoded_append, length_append]
    omega
  unfold Sysenv.deleteEnv
  cases after with
  | nil =>
    rw [if_pos heldAfter.1]
    cases before with
    | nil =>
      refine ⟨_, if_neg (Nat.lt_irrefl 0), ⟨proper, ⟨rfl, trivial⟩, fun _ => rfl, fitsLeft⟩, ?_⟩
      intro address behind
      rw [update_of_ne (by omega), update_of_ne (by omega)]
    | cons first before =>
      have longer : 0 < (encoded (first :: before)).length := by
        rw [length_encoded_cons]
        omega
      refine ⟨_, if_pos longer, ⟨proper, ?_, by simp, fitsLeft⟩, ?_⟩
      · rw [encodedLeft, holds_append]
        refine ⟨heldBefore.congr ?_, ?_⟩
        · intro address _ below
          exact update_of_ne (by omega) _ _
        · rw [Nat.zero_add]
          exact ⟨update_self _ _ _, trivial⟩
      · intro address behind
        exact update_of_ne (by omega) _ _
  | cons second after =>
    rw [if_neg (properAfter.first_ne_zero (by simp) heldAfter)]
    have noGap := properAfter.noGap (by simp)
    rw [cfgEnvDataSize] at fits
    obtain ⟨moved, isMoved, heldMoved, frame⟩ :=
      @moveStrings_eq _ _ _ _ cfgEnvSize _ (encoded before).length _ noGap
        heldAfter (by omega) (by omega)
    have some : 0 < (encoded (second :: after)).length := length_pos_iff.mpr noGap.ne_nil
    rw [isMoved, Option.map_some]
    have last : (encoded before).length + (encoded (second :: after)).length - 1 + 1 =
        (encoded before).length + (encoded (second :: after)).length := by
      omega
    rw [last]
    refine ⟨_, rfl, ⟨proper, ?_, by simp, fitsLeft⟩, ?_⟩
    · rw [encodedLeft, holds_append, holds_append, Nat.zero_add]
      refine ⟨heldBefore.congr ?_, heldMoved.congr ?_, update_self _ _ _, trivial⟩
      · intro address _ below
        rw [update_of_ne (by omega)]
        exact frame address (by omega)
      · intro address _ below
        exact update_of_ne (by omega) _ _
    · intro address behind
      rw [cfgEnvDataSize] at behind
      rw [update_of_ne (by omega)]
      exact frame address (by omega)

theorem Layout.endOfStrings
    (layout : Layout envData entries) :
    ∃ last,
    ZeroTerminated.endOfStrings envData cfgEnvSize 0 = some last ∧
    (if 0 < last then last + 1 else last) = (encoded entries).length := by
  cases entries with
  | nil =>
    refine ⟨0, ?_, rfl⟩
    exact if_pos ⟨layout.held.1, layout.empty rfl⟩
  | cons entry entries =>
    have noGap := layout.proper.noGap (by simp)
    have fits := layout.fits
    rw [cfgEnvDataSize] at fits
    have isLast := @endOfStrings_eq _ _ _ _ _ cfgEnvSize _ noGap layout.held (by omega)
    refine ⟨_, isLast, ?_⟩
    rw [length_encoded_cons, length_text]
    rw [if_pos (by omega)]
    omega

theorem Layout.writeEnv
    (layout : Layout envData entries) :
    Layout (writeEnv envData (encoded entries).length) entries := by
  refine ⟨layout.proper, layout.held.congr ?_, ?_, layout.fits⟩
  · intro address _ below
    rw [length_append, length_singleton] at below
    exact if_neg (by omega)
  · rintro rfl
    exact if_pos (.inl rfl)

/-- The buffer after an entry was written behind a text. -/
theorem holds_added
    {text : Text}
    (held : Holds envData 0 text) :
    Holds (writeEnv
    (writeString (update (writeString envData text.length name).1
    (text.length + name.length) equals) (text.length + name.length + 1) value).1
    (text.length + name.length + 1 + value.length))
    0 (text ++ (name ++ (equals :: (value ++ [0]))) ++ [0]) := by
  have named := @holds_writeString _ _ envData text.length name
  generalize isMiddle : update (writeString envData text.length name).1
    (text.length + name.length) equals = middle
  have valued := @holds_writeString _ _ middle (text.length + name.length + 1) value
  have below : ∀ address, address ≤ text.length + name.length → writeEnv
      (writeString middle (text.length + name.length + 1) value).1
      (text.length + name.length + 1 + value.length) address = middle address := by
    intro address atMost
    rw [writeEnv, if_neg (by omega), writeString_outside (.inl (by omega))]
  rw [append_assoc, holds_append, append_assoc, holds_append, Nat.zero_add]
  refine ⟨held.congr ?_, (holds_append.mp named).1.congr ?_, ?_, ?_⟩
  · intro address _ inside
    rw [below address (by omega), ← isMiddle, update_of_ne (by omega),
      writeString_outside (.inl (by omega))]
  · intro address _ inside
    rw [below address (by omega), ← isMiddle, update_of_ne (by omega)]
  · rw [below _ le_rfl, ← isMiddle, update_self]
  refine holds_append.mpr ⟨valued.congr ?_, ?_, trivial⟩
  · intro address _ inside
    rw [length_append, length_singleton] at inside
    exact if_neg (by omega)
  · rw [length_append, length_singleton]
    exact if_pos (.inl (by omega))

/-- An entry that fits is added behind the others. -/
theorem Layout.addEnv
    (layout : Layout envData entries)
    (isName : IsName name)
    (isText : 0 ∉ value)
    (some : value ≠ [])
    (fits : (encoded entries).length + name.length + value.length + 3 ≤ cfgEnvDataSize) :
    (Sysenv.addEnv envData (encoded entries).length name value).2 = 0 ∧
    Layout (Sysenv.addEnv envData (encoded entries).length name value).1
    (entries ++ [(name, value)]) := by
  have proper : Proper (entries ++ [(name, value)]) := by
    refine proper_append.mpr ⟨layout.proper, ?_⟩
    intro entry member
    rw [mem_singleton] at member
    rw [member]
    exact ⟨isName, isText⟩
  have isEncoded : encoded (entries ++ [(name, value)]) =
      encoded entries ++ (name ++ (equals :: (value ++ [0]))) := by
    rw [encoded_append, encoded_cons, Entry.text]
    simp [encoded, joined]
  have length : (encoded (entries ++ [(name, value)])).length =
      (encoded entries).length + name.length + value.length + 2 := by
    rw [isEncoded]
    simp only [length_append, length_cons, length_nil]
    omega
  unfold Sysenv.addEnv
  rw [if_neg some, if_neg (by omega)]
  refine ⟨rfl, proper, ?_, by simp, by omega⟩
  dsimp only
  rw [isEncoded, writeString_snd, writeString_snd]
  exact holds_added (holds_append.mp layout.held).1

theorem addEnv_of_overflow
    {position : Nat}
    (some : value ≠ [])
    (past : cfgEnvDataSize < position + name.length + value.length + 3) :
    Sysenv.addEnv envData position name value = (envData, -1) := by
  unfold Sysenv.addEnv
  rw [if_neg some, if_pos (by omega)]

/-- The entries without the first one that has a name. -/
def removed (entries : List Entry) (name : Text) : List Entry :=
  entries.eraseP fun entry => entry.1 == name

def names (entries : List Entry) : List Text := entries.map Prod.fst

/-- A name is missing, or there is a first entry with it. -/
theorem removed_cases
    (entries : List Entry)
    (name : Text) :
    (∀ entry ∈ entries, name ≠ entry.1) ∧
    removed entries name = entries ∨ ∃ before value after, entries = before ++ (name, value) ::
    after ∧ (∀ entry ∈ before, name ≠ entry.1) ∧ removed entries name = before ++ after := by
  by_cases present : ∃ entry ∈ entries, entry.1 = name
  · obtain ⟨entry, member, isName⟩ := present
    obtain ⟨⟨key, value⟩, before, after, first, isKey, isEntries, isRemoved⟩ :=
      @exists_of_eraseP _ (fun entry : Entry => entry.1 == name) _ _ member (by simpa using isName)
    obtain rfl : key = name := by simpa using isKey
    refine .inr ⟨before, value, after, isEntries, ?_, isRemoved⟩
    intro other inBefore same
    exact first other inBefore (by simp [same])
  · have absent : ∀ entry ∈ entries, name ≠ entry.1 := by
      intro entry member same
      exact present ⟨entry, member, same.symm⟩
    refine .inl ⟨absent, eraseP_of_forall_not ?_⟩
    intro entry member isKey
    have same : entry.1 = name := by simpa using isKey
    exact absent entry member same.symm

theorem lookup_removed
    {other : Text}
    (differs : other ≠ name) :
    (removed entries name).lookup other = entries.lookup other := by
  rcases removed_cases entries name with
    ⟨_, isRemoved⟩ | ⟨before, value, after, rfl, _, isRemoved⟩
  · rw [isRemoved]
  · rw [isRemoved, lookup_append, lookup_append, lookup_cons, beq_eq_false_iff_ne.mpr differs]

theorem lookup_eq_none_iff_names : entries.lookup name = none ↔ name ∉ names entries := by
  rw [lookup_eq_none_iff, names, mem_map]
  constructor
  · rintro absent ⟨entry, member, rfl⟩
    exact absurd (absent entry member) (by simp)
  intro absent entry member
  have differs : name ≠ entry.1 := by
    intro same
    exact absent ⟨entry, member, same.symm⟩
  simpa using differs

/-- Every name occurs once iff the removed one does not occur again. -/
theorem nodup_names_iff :
    (names entries).Nodup ↔ (names (removed entries name)).Nodup ∧
    name ∉ names (removed entries name) := by
  rcases removed_cases entries name with
    ⟨absent, isRemoved⟩ | ⟨before, value, after, rfl, _, isRemoved⟩
  · have missing : name ∉ names entries := by
      rw [names, mem_map]
      rintro ⟨entry, member, same⟩
      exact absent entry member same.symm
    rw [isRemoved]
    exact (and_iff_left missing).symm
  · rw [isRemoved, names, map_append, map_cons,
      perm_middle.nodup_iff, nodup_cons, names, map_append, and_comm]

/-- Equally long lists at one address are equal. -/
theorem holds_unique
    {start : Nat}
    {first second : Text}
    (heldFirst : Holds envData start first)
    (heldSecond : Holds envData start second)
    (sameLength : first.length = second.length) :
    first = second := by
  induction first generalizing start second with
  | nil => exact (length_eq_zero_iff.mp sameLength.symm).symm
  | cons letter first inductionHypothesis =>
    cases second with
    | nil => cases sameLength
    | cons other second =>
      rw [← heldFirst.1, ← heldSecond.1, inductionHypothesis heldFirst.2 heldSecond.2
        (Nat.succ.inj sameLength)]

/-- A string has one name and one value. -/
theorem text_injective
    {first second : Entry}
    (isFirst : equals ∉ first.1)
    (isSecond : equals ∉ second.1)
    (same : first.text = second.text) :
    first = second := by
  obtain ⟨key, value⟩ := first
  obtain ⟨otherKey, otherValue⟩ := second
  simp only [Entry.text] at same isFirst isSecond
  induction key generalizing otherKey with
  | nil =>
    cases otherKey with
    | nil => rw [(cons.inj same).2]
    | cons letter otherKey =>
      have isEquals := (cons.inj same).1
      exact absurd (isEquals ▸ mem_cons_self) isSecond
  | cons letter key inductionHypothesis =>
    cases otherKey with
    | nil =>
      have isEquals := (cons.inj same).1
      exact absurd (isEquals ▸ mem_cons_self) isFirst
    | cons other otherKey =>
      obtain ⟨rfl, rest⟩ := cons.inj same
      rw [mem_cons, not_or] at isFirst isSecond
      have equal := inductionHypothesis isFirst.2 otherKey isSecond.2 rest
      rw [Prod.mk.injEq] at equal ⊢
      exact ⟨by rw [equal.1], equal.2⟩

/-- A buffer holds one list of entries only. -/
theorem entries_unique
    {start : Nat}
    {others : List Entry}
    (proper : Proper entries)
    (properOthers : Proper others)
    (held : Holds envData start (encoded entries ++ [0]))
    (heldOthers : Holds envData start (encoded others ++ [0])) :
    entries = others := by
  induction entries generalizing start others with
  | nil =>
    cases others with
    | nil => rfl
    | cons other others => exact absurd held.1 (properOthers.first_ne_zero (by simp) heldOthers)
  | cons entry entries inductionHypothesis =>
    cases others with
    | nil => exact absurd heldOthers.1 (proper.first_ne_zero (by simp) held)
    | cons other others =>
      have atEntry := @atEntry_of_holds _ _ [] _ _ proper held
      have atOther := @atEntry_of_holds _ _ [] _ _ properOthers heldOthers
      have isEnd :=
        @endOfString_eq _ _ _ _ _ (entry.text.length + other.text.length + 1) _ atEntry.text
          atEntry.noZero (by omega)
      rw [endOfString_eq atOther.text atOther.noZero (by omega), Option.some.injEq] at isEnd
      have sameText := holds_unique (holds_append.mp atEntry.text).1
        (holds_append.mp atOther.text).1 (by omega)
      have same : entry = other := text_injective (proper entry mem_cons_self).1.2
        (properOthers other mem_cons_self).1.2 sameText
      subst same
      rw [inductionHypothesis proper.tail properOthers.tail atEntry.rest atOther.rest]

end EchoKernel.Sysenv
