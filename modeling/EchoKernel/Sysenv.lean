import EchoKernel.ZeroTerminated

namespace EchoKernel.Sysenv

open ZeroTerminated Function

/-!
# The environment of the system

`mtk_sysenv.c`. The environment is a sequence of strings `name=value` in one
buffer, with addresses counted from `env_data`. Loops without a bound have
fuel here, and no result means that a loop has left the buffer.
-/

/-- The characters of a string before its zero. -/
abbrev Text := List (BitVec 8)

inductive EnvInitState where
  | envUninit
  | envInit
  | envReady
  deriving Repr, DecidableEq

def cfgEnvSize : Nat := 0x4000

/-- `CFG_ENV_DATA_SIZE`, without checksum and signatures. -/
def cfgEnvDataSize : Nat := cfgEnvSize - 4 - 8 - 8

def equals : BitVec 8 := 61

/-- The variables of the module. -/
structure SysEnv where
  envInitState : EnvInitState
  hasEnvBuffer : Bool
  envValid : Bool
  envData : Nat → BitVec 8

section
variable (envData : Nat → BitVec 8)

/--
`envmatch`; the outer option is empty when name and string end together, as
the source then compares what is behind both.
-/
def envmatch : Text → Nat → Option (Option Nat)
  | [], i2 =>
    if envData i2 = 0 then none
    else if envData i2 = equals then some (some (i2 + 1))
    else some none
  | s1 :: rest, i2 =>
    if s1 = envData i2 then if s1 = equals then some (some (i2 + 1)) else envmatch rest (i2 + 1)
    else some none

/-- The inner loop of `findenv`; none behind the buffer. -/
def findEnd : Nat → Nat → Option Nat
  | 0, _ => none
  | fuel + 1, nxt =>
    if envData nxt = 0 then some nxt
    else if cfgEnvSize ≤ nxt then none
    else findEnd fuel (nxt + 1)

/-- `findenv`. -/
def findenv (name : Text) : Nat → Nat → Option (Option Nat)
  | 0, _ => none
  | fuel + 1, i =>
    if envData i = 0 then some none
    else
      match findEnd envData (cfgEnvSize + 1) i with
      | none => some none
      | some nxt =>
        (envmatch envData name i).bind fun val =>
          match val with
          | some val => some (some val)
          | none => findenv name fuel (nxt + 1)

end

/-- `get_env`, with the string it points to. -/
def SysEnv.getEnv (env : SysEnv) (name : Text) : Option (Option Text) :=
  if env.envValid = false then some none
  else
    (findenv env.envData name (cfgEnvSize + 2) 0).bind fun val =>
      match val with
      | none => some none
      | some val => (readString env.envData cfgEnvSize val).map some

section
variable (envData : Nat → BitVec 8)

/-- The first string with a name: its start and its zero. -/
def searchEnv (name : Text) : Nat → Nat → Option (Option (Nat × Nat))
  | 0, _ => none
  | fuel + 1, env =>
    if envData env = 0 then some none
    else
      (endOfString envData cfgEnvSize env).bind fun nxt =>
        (envmatch envData name env).bind fun oldval =>
          match oldval with
          | some _ => some (some (env, nxt))
          | none => searchEnv name fuel (nxt + 1)

/-- A string is removed. -/
def deleteEnv (env nxt : Nat) : Option (Nat → BitVec 8) :=
  if envData (nxt + 1) = 0 then
    if 0 < env then some (update envData env 0)
    else some (update (update envData env 0) (env + 1) 0)
  else
    (moveStrings cfgEnvSize envData env (nxt + 1)).map fun moved =>
      update moved.1 (moved.2 + 1) 0

/-- The second zero is written, and the buffer cleared behind it. -/
def writeEnv (env : Nat) : Nat → BitVec 8 :=
  fun address =>
    if address = env + 1 ∨ env + 1 ≤ address ∧ address < cfgEnvDataSize then 0
    else envData address

/-- A string is added, if the buffer has room. -/
def addEnv (env : Nat) (name value : Text) : (Nat → BitVec 8) × Int :=
  if value = [] then (writeEnv envData env, 0)
  else if cfgEnvDataSize - env < name.length + 2 + (value.length + 1) then (envData, -1)
  else
    let named := writeString envData env name
    let separated := update named.1 named.2 equals
    let valued := writeString separated (named.2 + 1) value
    (writeEnv valued.1 valued.2, 0)

end

/-- The end of `set_env`. -/
def SysEnv.finish (env : SysEnv) (added : (Nat → BitVec 8) × Int) : SysEnv × Int :=
  ({ env with
      envData := added.1
      envValid := if added.2 = 0 then true else env.envValid }, added.2)

/-- `set_env`. -/
def SysEnv.setEnv (env : SysEnv) (name value : Text) : Option (SysEnv × Int) :=
  if env.envInitState = .envUninit then some (env, 0)
  else if env.hasEnvBuffer = false then some (env, -1)
  else if env.envValid = false then some (env.finish (addEnv env.envData 0 name value))
  else
    (searchEnv env.envData name cfgEnvSize 0).bind fun found =>
      (match found with
        | none => some env.envData
        | some (entry, nxt) => deleteEnv env.envData entry nxt).bind
          fun envData =>
            (endOfStrings envData cfgEnvSize 0).map fun last =>
              env.finish (addEnv envData (if 0 < last then last + 1 else last) name value)

/-- `env_init`, when the buffer is allocated. -/
def SysEnv.initial : SysEnv := ⟨.envUninit, true, false, fun _ => 0⟩

end EchoKernel.Sysenv
