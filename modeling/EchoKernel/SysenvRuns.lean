import EchoKernel.LabelledRun
import EchoKernel.SysenvUpdates

namespace EchoKernel.Sysenv

open LabelledRun ZeroTerminated List Option SysEnv

/-!
# Updates of the environment

`set_env` removes the first entry with a name and adds the new one behind the
others. That is right when every name occurs at most once, as in every
environment that the module has built, and the module is initialised. The
second zero is written behind the last byte when a name is cleared in a full
environment, and the old entry is gone when the new one does not fit.
-/

/-- An environment has entries, none before it is valid. -/
structure WellFormed (env : SysEnv) (entries : List Entry) : Prop where
  layout : Layout env.envData entries
  valid : env.envValid = false → entries = []

/-- What a name has after it was set to a value. -/
def wanted (value : Text) : Option Text := if value = [] then none else some value

/-- The entries after a name was set to a value. -/
def updated (entries : List Entry) (name value : Text) : List Entry :=
  removed entries name ++ if value = [] then [] else [(name, value)]

/-- A name has a value, and nothing else has changed. -/
structure Updated (env : SysEnv) (name value : Text) (next : SysEnv) : Prop where
  stored : ∃ entries, WellFormed next entries ∧ (names entries).Nodup
  yields : next.getEnv name = some (wanted value)
  others : ∀ other, IsName other → other ≠ name → next.getEnv other = env.getEnv other

variable {env next : SysEnv} {name value : Text} {entries : List Entry} {ret : Int}

section
variable (wellFormed : WellFormed env entries)
include wellFormed

theorem WellFormed.getEnv (isName : IsName name) : env.getEnv name = some (entries.lookup name) :=
  wellFormed.layout.getEnv wellFormed.valid isName

/-- The entry is added to the rest of the environment. -/
theorem WellFormed.setEnv_eq
    (initialised : env.envInitState ≠ .envUninit)
    (hasBuffer : env.hasEnvBuffer = true) :
    ∃ left, Layout left (removed entries (nameKey name)) ∧
    (∀ address, cfgEnvDataSize ≤ address → left address = env.envData address) ∧
    env.setEnv name value = some (env.finish
    (addEnv left (encoded (removed entries (nameKey name))).length name value)) := by
  have layout := wellFormed.layout
  have fits := layout.fits
  have few := @length_le_encoded entries
  rw [cfgEnvDataSize] at fits
  unfold SysEnv.setEnv
  rw [if_neg initialised, hasBuffer, if_neg (by simp)]
  cases isValid : env.envValid with
  | false =>
    have isNil := wellFormed.valid isValid
    subst isNil
    exact ⟨env.envData, layout, fun _ _ => rfl, rfl⟩
  | true =>
    rw [if_neg (by simp)]
    rcases removed_cases entries (nameKey name) with
      ⟨absent, isRemoved⟩ |
        ⟨before, old, after, rfl, first, isRemoved⟩
    · obtain ⟨last, isLast, isEnd⟩ := layout.endOfStrings
      have notFound := @searchEnv_absent _ 0 cfgEnvSize _ _ layout.proper
        layout.held absent (by omega) (by omega)
      refine ⟨env.envData, ?_, fun _ _ => rfl, ?_⟩
      · rw [isRemoved]
        exact layout
      rw [notFound, isRemoved]
      dsimp only [bind_some]
      rw [isLast, map_some, isEnd]
    obtain ⟨left, isLeft, layoutLeft, kept⟩ := layout.deleteEnv
    obtain ⟨last, isLast, isEnd⟩ := layoutLeft.endOfStrings
    rw [length_append] at few
    have found := @searchEnv_present _ 0 cfgEnvSize _ _ _ _ layout.proper
      layout.held first (by omega) (by omega)
    rw [Nat.zero_add] at found
    refine ⟨left, ?_, kept, ?_⟩
    · rw [isRemoved]
      exact layoutLeft
    rw [found, isRemoved]
    dsimp only [bind_some]
    rw [isLeft]
    dsimp only [bind_some]
    rw [isLast, map_some, isEnd]

theorem WellFormed.refused
    {left : Nat → BitVec 8}
    (layout : Layout left (removed entries name)) :
    WellFormed (env.finish (left, -1)).1 (removed entries name) := by
  refine ⟨layout, ?_⟩
  intro invalid
  rw [wellFormed.valid invalid]
  rfl

/-- What `set_env` returns and leaves in an initialised module. -/
theorem WellFormed.setEnv_cases
    (initialised : env.envInitState ≠ .envUninit)
    (hasBuffer : env.hasEnvBuffer = true)
    (isName : IsName name)
    (isText : 0 ∉ value) :
    ∃ next ret,
    env.setEnv name value = some (next, ret) ∧ next.envInitState = env.envInitState ∧
    next.hasEnvBuffer = env.hasEnvBuffer ∧ (ret = 0 ∧ WellFormed next (updated entries name value) ∨
    ret = -1 ∧ WellFormed next (removed entries name)) := by
  obtain ⟨left, layout, _, isSet⟩ := WellFormed.setEnv_eq wellFormed initialised hasBuffer
  rw [isName.nameKey] at layout isSet
  refine ⟨_, _, isSet, rfl, rfl, ?_⟩
  by_cases isNil : value = []
  · subst isNil
    refine .inl ⟨rfl, ?_, nofun⟩
    rw [updated, if_pos rfl, append_nil]
    exact layout.writeEnv
  by_cases fits : (encoded (removed entries name)).length + name.length +
    value.length + 3 ≤ cfgEnvDataSize
  · obtain ⟨isZero, added⟩ := layout.addEnv isName isText isNil fits
    refine .inl ⟨isZero, ?_, ?_⟩
    · rw [updated, if_neg isNil]
      exact added
    intro invalid
    rw [if_pos isZero] at invalid
    cases invalid
  · rw [addEnv_of_overflow isNil (by omega)]
    exact .inr ⟨rfl, wellFormed.refused layout⟩

end

theorem WellFormed.unique
    {others : List Entry}
    (wellFormed : WellFormed env entries)
    (wellFormedOthers : WellFormed env others) :
    entries = others :=
  entries_unique wellFormed.layout.proper wellFormedOthers.layout.proper
    wellFormed.layout.held wellFormedOthers.layout.held

/-- The updated entries are right iff no name occurred twice. -/
theorem nodup_names_updated_iff :
    (names (updated entries name value)).Nodup ∧
    (updated entries name value).lookup name = wanted value ↔ (names entries).Nodup := by
  rw [@nodup_names_iff name entries, updated, wanted]
  by_cases isNil : value = []
  · rw [if_pos isNil, if_pos isNil, append_nil, lookup_eq_none_iff_names]
  rw [if_neg isNil, if_neg isNil, names, map_append, map_singleton, nodup_append]
  constructor
  · rintro ⟨⟨nodup, _, apart⟩, _⟩
    refine ⟨nodup, ?_⟩
    intro member
    exact apart name member name (by simp) rfl
  rintro ⟨nodup, absent⟩
  refine ⟨⟨nodup, by simp, ?_⟩, ?_⟩
  · intro other member last isLast same
    rw [mem_singleton] at isLast
    rw [same, isLast] at member
    exact absent member
  · rw [lookup_append, lookup_eq_none_iff_names.mpr absent, lookup_cons, beq_self_eq_true]
    rfl

theorem lookup_updated
    {other : Text}
    (differs : other ≠ name) :
    (updated entries name value).lookup other = entries.lookup other := by
  rw [updated, lookup_append, lookup_removed differs]
  by_cases isNil : value = []
  · rw [if_pos isNil, lookup_nil, or_none]
  · rw [if_neg isNil, lookup_cons, beq_eq_false_iff_ne.mpr differs, lookup_nil, or_none]

/--
`set_env` returns, and with zero the name has the value iff no name occurred
twice and, when the module is not initialised, the name had the value before.
-/
theorem setEnv_updated_iff
    (wellFormed : WellFormed env entries)
    (isName : IsName name)
    (isText : 0 ∉ value) :
    (∃ result, env.setEnv name value = some result) ∧
    ∀ next, env.setEnv name value = some (next, 0) →
      (Updated env name value next ↔
        (names entries).Nodup ∧
          (env.envInitState = .envUninit → env.getEnv name = some (wanted value))) := by
  by_cases uninit : env.envInitState = .envUninit
  · have isSet : env.setEnv name value = some (env, 0) := if_pos uninit
    refine ⟨⟨_, isSet⟩, ?_⟩
    rw [isSet]
    rintro next ⟨⟩
    constructor
    · rintro ⟨⟨others, stored, nodup⟩, yields, _⟩
      rw [wellFormed.unique stored]
      exact ⟨nodup, fun _ => yields⟩
    · rintro ⟨nodup, yields⟩
      exact ⟨⟨entries, wellFormed, nodup⟩, yields uninit, fun _ _ _ => rfl⟩
  cases hasBuffer : env.hasEnvBuffer with
  | false =>
    have isSet : env.setEnv name value = some (env, -1) := by
      unfold SysEnv.setEnv
      rw [if_neg uninit, if_pos hasBuffer]
    rw [isSet]
    exact ⟨⟨_, rfl⟩, nofun⟩
  | true =>
    obtain ⟨after, ret, isSet, _, _, outcome⟩ :=
      wellFormed.setEnv_cases uninit hasBuffer isName isText
    rw [isSet]
    refine ⟨⟨_, rfl⟩, ?_⟩
    rintro next ⟨⟩
    rcases outcome with ⟨_, stored⟩ | ⟨negative, _⟩
    · have isNext := stored.getEnv isName
      constructor
      · rintro ⟨⟨others, storedOthers, nodup⟩, yields, _⟩
        rw [← stored.unique storedOthers] at nodup
        rw [isNext, some.injEq] at yields
        exact ⟨nodup_names_updated_iff.mp ⟨nodup, yields⟩, fun isUninit => absurd isUninit uninit⟩
      rintro ⟨nodup, _⟩
      obtain ⟨nodupUpdated, yields⟩ := nodup_names_updated_iff.mpr nodup
      refine ⟨⟨_, stored, nodupUpdated⟩, ?_, ?_⟩
      · rw [isNext, yields]
      · intro other isOther differs
        rw [stored.getEnv isOther, wellFormed.getEnv isOther, lookup_updated differs]
    · cases negative

/-- The environment after `env_init` and `ENV_USER_INIT`. -/
def initialised : SysEnv := { initial with envInitState := .envInit }

theorem wellFormed_initialised : WellFormed initialised [] :=
  ⟨⟨nofun, ⟨rfl, trivial⟩, fun _ => rfl, by decide⟩, fun _ => rfl⟩

/-- An initialised module with its first entry. -/
theorem setEnv_first
    (isName : IsName name)
    (isText : 0 ∉ value)
    (isSome : value ≠ [])
    (fits : 0 + name.length + value.length + 3 ≤ cfgEnvDataSize) :
    ∃ next,
    initialised.setEnv name value = some (next, 0) ∧ next.envInitState = .envInit ∧
    next.hasEnvBuffer = true ∧ WellFormed next [(name, value)] := by
  obtain ⟨isZero, layout⟩ := wellFormed_initialised.layout.addEnv isName isText isSome fits
  refine ⟨(initialised.finish (addEnv initialised.envData 0 name value)).1, ?_, rfl, rfl, layout,
    fun invalid => ?_⟩
  · rw [← isZero]
    rfl
  · exact absurd ((if_pos isZero).symm.trans invalid) (by decide)

/-- A first name, a second one and a new value of the first. -/
theorem setEnv_updated_iff_initialised :
    ∃ one two three,
    initialised.setEnv [97] [49] = some (one, 0) ∧
    one.setEnv [98] [50] = some (two, 0) ∧ Updated one [98] [50] two ∧
    two.setEnv [97] [51] = some (three, 0) ∧ Updated two [97] [51] three := by
  have rets : ((initialised.setEnv [97] [49]).bind fun one =>
      (one.1.setEnv [98] [50]).bind fun two =>
        (two.1.setEnv [97] [51]).map fun three => (two.2, three.2)) = some (0, 0) := by
    decide +kernel
  have isFirst : IsName [97] := ⟨by decide, by decide⟩
  have isSecond : IsName [98] := ⟨by decide, by decide⟩
  have isText : 0 ∉ ([50] : Text) := by decide
  obtain ⟨one, isOne, isInit, hasBuffer, wellFormed⟩ :=
    @setEnv_first [97] [49] isFirst (by decide) (by decide) (by decide)
  obtain ⟨two, ret, isTwo, sameInit, _, outcome⟩ :=
    wellFormed.setEnv_cases (by rw [isInit]; decide) hasBuffer isSecond isText
  rw [isOne, Option.bind_some, isTwo, Option.bind_some] at rets
  obtain ⟨⟨three, last⟩, isThree, isPair⟩ := map_eq_some_iff.mp rets
  cases isPair
  rcases outcome with ⟨_, stored⟩ | ⟨negative, _⟩
  · refine ⟨one, two, three, isOne, isTwo, ?_, isThree, ?_⟩
    · refine ((setEnv_updated_iff wellFormed isSecond isText).2 _ isTwo).mpr ⟨by decide, ?_⟩
      exact fun uninit => nomatch isInit.symm.trans uninit
    · refine ((setEnv_updated_iff stored isFirst (by decide)).2 _ isThree).mpr ⟨by decide, ?_⟩
      exact fun uninit => nomatch (sameInit.trans isInit).symm.trans uninit
  · cases negative

/-- Before the module is initialised, nothing is stored. -/
theorem not_updated_uninitialised :
    WellFormed initial [] ∧ initial.setEnv [97] [49] =
    some (initial, 0) ∧ ¬ Updated initial [97] [49] initial := by
  refine ⟨⟨⟨nofun, ⟨rfl, trivial⟩, fun _ => rfl, by decide⟩, fun _ => rfl⟩, rfl, ?_⟩
  intro isUpdated
  have yields := isUpdated.yields
  cases yields

/-- The environment with other bytes behind its data. -/
def SysEnv.behind (env : SysEnv) (outside : Nat → BitVec 8) : SysEnv :=
  { env with
    envData := fun address =>
      if address < cfgEnvDataSize then env.envData address else outside address }

/--
`set_env` returns and changes nothing behind the data, and with -1 every
variable keeps its value.
-/
def Contained (env : SysEnv) (name value : Text) : Prop :=
  ∀ outside, ∃ next ret, (env.behind outside).setEnv name value = some (next, ret) ∧
    (∀ address, cfgEnvDataSize ≤ address → next.envData address = outside address) ∧
    (ret = -1 → ∀ other, IsName other → next.getEnv other = env.getEnv other)

/--
A cleared name leaves over one byte free, and a value that does not fit is not
given to a name that has another.
-/
structure Roomy (entries : List Entry) (name value : Text) : Prop where
  cleared : value = [] → (encoded (removed entries (nameKey name))).length + 1 < cfgEnvDataSize
  refused : value ≠ [] →
      cfgEnvDataSize < (encoded (removed entries (nameKey name))).length + name.length +
          value.length + 3 →
        (removed entries (nameKey name)).lookup (nameKey name) = entries.lookup (nameKey name)

theorem WellFormed.behind
    (wellFormed : WellFormed env entries)
    (outside : Nat → BitVec 8) :
    WellFormed (env.behind outside) entries := by
  have layout := wellFormed.layout
  have fits := layout.fits
  refine ⟨⟨layout.proper, layout.held.congr ?_, ?_, fits⟩, wellFormed.valid⟩
  · intro address _ below
    rw [length_append, length_singleton] at below
    exact if_pos (by omega)
  · intro isNil
    have inside : 1 < cfgEnvDataSize := by decide
    show (if 1 < cfgEnvDataSize then env.envData 1 else outside 1) = 0
    rw [if_pos inside, layout.empty isNil]

/-- What is behind the data stays, unless a full one is cleared. -/
theorem addEnv_outside
    {envData : Nat → BitVec 8}
    {position address : Nat}
    (isBehind : cfgEnvDataSize ≤ address)
    (cleared : value = [] → position + 1 < cfgEnvDataSize) :
    (addEnv envData position name value).1 address = envData address := by
  unfold addEnv
  split
  case isTrue isNil =>
    have room := cleared isNil
    exact if_neg (by omega)
  case isFalse =>
    split
    · rfl
    dsimp only
    rw [writeString_snd, writeString_snd, writeEnv, if_neg (by omega),
      writeString_outside (by omega), Function.update_of_ne (by omega),
      writeString_outside (by omega)]

theorem addEnv_refused
    {envData : Nat → BitVec 8}
    {position : Nat}
    (isRefused : (addEnv envData position name value).2 = -1) :
    value ≠ [] ∧ cfgEnvDataSize < position + name.length + value.length + 3 := by
  unfold addEnv at isRefused
  split at isRefused
  · cases isRefused
  split at isRefused
  case isTrue isSome past => exact ⟨isSome, by omega⟩
  case isFalse => cases isRefused

theorem WellFormed.contained_iff
    (wellFormed : WellFormed env entries)
    (initialised : env.envInitState ≠ .envUninit)
    (hasBuffer : env.hasEnvBuffer = true)
    (isText : 0 ∉ name) :
    Contained env name value ↔ Roomy entries name value := by
  have isSet := fun outside =>
    @WellFormed.setEnv_eq _ name value _ (wellFormed.behind outside) initialised hasBuffer
  constructor
  · intro contained
    refine ⟨?_, ?_⟩
    · rintro rfl
      obtain ⟨next, ret, isNext, kept, _⟩ := contained fun _ => 1
      obtain ⟨left, layout, _, isLeft⟩ := isSet fun _ => 1
      cases isNext.symm.trans isLeft
      have fits := layout.fits
      by_contra full
      have written := kept cfgEnvDataSize le_rfl
      exact absurd ((if_pos (.inl (by omega))).symm.trans written) (by decide)
    · intro isSome past
      obtain ⟨next, ret, isNext, _, keeps⟩ := contained fun _ => 0
      obtain ⟨left, layout, _, isLeft⟩ := isSet fun _ => 0
      rw [addEnv_of_overflow isSome past] at isLeft
      cases isNext.symm.trans isLeft
      have isKey : IsName (nameKey name) :=
        ⟨fun zero => isText (takeWhile_subset _ zero), fun separator => by
          simpa using mem_takeWhile_imp separator⟩
      have stored := ((wellFormed.behind fun _ => 0).refused layout).getEnv isKey
      exact some.inj (stored.symm.trans ((keeps rfl _ isKey).trans (wellFormed.getEnv isKey)))
  · intro roomy outside
    obtain ⟨left, layout, kept, isLeft⟩ := isSet outside
    refine ⟨_, _, isLeft, ?_, ?_⟩
    · intro address isBehind
      exact (addEnv_outside isBehind roomy.cleared).trans
        ((kept address isBehind).trans (if_neg (by omega)))
    intro isRefused other isOther
    obtain ⟨isSome, past⟩ := addEnv_refused isRefused
    rw [addEnv_of_overflow isSome past, wellFormed.getEnv isOther]
    refine (((wellFormed.behind outside).refused layout).getEnv isOther).trans ?_
    by_cases same : other = nameKey name
    · rw [same, roomy.refused isSome past]
    · rw [lookup_removed same]

/--
All bytes that `set_env` writes are in the data, and a call that returns -1
changes no variable, iff the environment is roomy or the module does nothing.
-/
theorem setEnv_contained_iff
    (wellFormed : WellFormed env entries)
    (isText : 0 ∉ name) :
    Contained env name value ↔
    (env.envInitState ≠ .envUninit → env.hasEnvBuffer = true → Roomy entries name value) := by
  have unchanged : ∀ ret, (∀ outside, (env.behind outside).setEnv name value =
      some (env.behind outside, ret)) → Contained env name value := by
    intro ret isSet outside
    refine ⟨_, ret, isSet outside, fun address isBehind => if_neg (by omega), ?_⟩
    intro _ other isOther
    rw [(wellFormed.behind outside).getEnv isOther, wellFormed.getEnv isOther]
  by_cases uninit : env.envInitState = .envUninit
  · refine iff_of_true (unchanged 0 fun _ => if_pos uninit) ?_
    exact fun initialised => absurd uninit initialised
  cases hasBuffer : env.hasEnvBuffer with
  | false =>
    refine iff_of_true (unchanged (-1) fun _ => ?_) nofun
    exact (if_neg uninit).trans (if_pos hasBuffer)
  | true =>
    rw [wellFormed.contained_iff uninit hasBuffer isText]
    exact ⟨fun roomy _ _ => roomy, fun roomy => roomy uninit rfl⟩

/-- A second name and a new value of the first, in an environment with one entry. -/
theorem setEnv_contained_iff_initialised :
    ∃ one,
    initialised.setEnv [97] [49] = some (one, 0) ∧ Contained one [98] [50] ∧
    Contained one [97] [51] := by
  obtain ⟨one, isOne, _, _, wellFormed⟩ :=
    @setEnv_first [97] [49] ⟨by decide, by decide⟩ (by decide) (by decide) (by decide)
  refine ⟨one, isOne, (setEnv_contained_iff wellFormed (by decide)).mpr fun _ _ => ?_,
    (setEnv_contained_iff wellFormed (by decide)).mpr fun _ _ => ?_⟩
  · exact ⟨nofun, fun _ past => absurd past (by decide)⟩
  · exact ⟨nofun, fun _ past => absurd past (by decide)⟩

/--
A missing name is cleared in a full environment, and too long a value is given
to a name that has one.
-/
theorem not_contained_full :
    (∃ full,
    initialised.setEnv [97] (replicate 16360 49) = some (full, 0) ∧
    ¬ Contained full [98] []) ∧ ∃ small, initialised.setEnv [97] [49] = some (small, 0) ∧
    ¬ Contained small [97] (replicate 16384 49) := by
  have size : cfgEnvDataSize = 16364 := rfl
  refine ⟨?_, ?_⟩
  · obtain ⟨count, isCount⟩ : ∃ count, count = 16360 := ⟨_, rfl⟩
    rw [← isCount]
    obtain ⟨full, isSet, isInit, hasBuffer, wellFormed⟩ :=
      @setEnv_first [97] (replicate count 49) ⟨by decide, by decide⟩
        (by simp [mem_replicate]) (by simp; omega) (by simp; omega)
    refine ⟨full, isSet, ?_⟩
    rw [wellFormed.contained_iff (by rw [isInit]; decide) hasBuffer (by decide)]
    intro roomy
    have room := roomy.cleared rfl
    have isRemoved : removed [([97], replicate count 49)] (nameKey [98]) =
      [([97], replicate count 49)] := rfl
    rw [isRemoved, length_encoded_cons, length_text, length_replicate, isCount] at room
    exact absurd room (by decide)
  · obtain ⟨small, isSet, isInit, hasBuffer, wellFormed⟩ :=
      @setEnv_first [97] [49] ⟨by decide, by decide⟩ (by decide) (by decide) (by decide)
    obtain ⟨count, isCount⟩ : ∃ count, count = 16384 := ⟨_, rfl⟩
    rw [← isCount]
    refine ⟨small, isSet, ?_⟩
    rw [wellFormed.contained_iff (by rw [isInit]; decide) hasBuffer (by decide)]
    intro roomy
    have same := roomy.refused (by simp; omega) (by rw [length_replicate]; omega)
    exact absurd same (by decide)

inductive Call where
  | setEnv (name value : Text)
  | userInit
  | setPid

inductive Step : SysEnv → Call → SysEnv → Prop
  | setEnv {env next : SysEnv} {name value : Text} {ret : Int} (isName : IsName name)
      (isText : 0 ∉ value) (isSet : env.setEnv name value = some (next, ret)) :
      Step env (.setEnv name value) next
  | userInit {env : SysEnv} : Step env .userInit { env with envInitState := .envInit }
  | setPid {env : SysEnv} : Step env .setPid { env with envInitState := .envReady }

/-- No name occurs twice in an environment. -/
def Distinct (env : SysEnv) : Prop :=
  env.hasEnvBuffer = true ∧ ∃ entries, WellFormed env entries ∧ (names entries).Nodup

theorem Distinct.step
    {call : Call}
    (distinct : Distinct env)
    (step : Step env call next) :
    Distinct next := by
  obtain ⟨hasBuffer, entries, wellFormed, nodup⟩ := distinct
  cases step with
  | setEnv isName isText isSet =>
    by_cases uninit : env.envInitState = .envUninit
    · rw [SysEnv.setEnv, if_pos uninit, some.injEq, Prod.mk.injEq] at isSet
      rw [← isSet.1]
      exact ⟨hasBuffer, entries, wellFormed, nodup⟩
    obtain ⟨after, ret, isAfter, _, sameBuffer, outcome⟩ :=
      wellFormed.setEnv_cases uninit hasBuffer isName isText
    rw [isSet] at isAfter
    cases isAfter
    refine ⟨sameBuffer.trans hasBuffer, ?_⟩
    rcases outcome with ⟨_, stored⟩ | ⟨_, stored⟩
    · exact ⟨_, stored, (nodup_names_updated_iff.mpr nodup).1⟩
    · exact ⟨_, stored, (nodup_names_iff.mp nodup).1⟩
  | userInit => exact ⟨hasBuffer, entries, ⟨wellFormed.layout, wellFormed.valid⟩, nodup⟩
  | setPid =>
    exact ⟨hasBuffer, entries, ⟨wellFormed.layout, wellFormed.valid⟩, nodup⟩

theorem distinct_of_run {calls : List Call} (run : Run Step initial calls env) : Distinct env := by
  refine run.always ?_ fun _ _ _ before step => before.step step
  refine ⟨rfl, [], ⟨⟨nofun, ⟨rfl, trivial⟩, fun _ => rfl, by decide⟩, ?_⟩, ?_⟩
  · exact fun _ => rfl
  · exact nodup_nil

end EchoKernel.Sysenv
