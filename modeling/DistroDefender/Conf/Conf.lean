import DistroDefender.Base.Paths
import DistroDefender.Conf.Unit
import DistroDefender.Lib.Map

/-!
# The configuration

`conf::Conf` registers units by key and loads a document once; `get` reads the variable of a unit,
then the document at its key, then its default. A key is a JSON pointer in its text form
(`PointerReader`). The log line of `get` renders what it returns, and rendering an empty list takes
the last character of an empty string.
-/

namespace DistroDefender.Conf

open Base Lib

/-- How a call ends that gives no value: it throws, or it pops the back of an empty string. -/
inductive Abort where
  | throws (e : Throw)
  | undefined
  deriving DecidableEq

def orAbort {α : Type} : Except Throw α → Except Abort α
  | .ok a => .ok a
  | .error e => .error (.throws e)

/-- The key of a unit, and the unit. -/
abbrev Units := Map String UConf

set_option linter.dupNamespace false in
structure Conf where
  config : Json
  units : Units

/-! ## Registration -/

/-- The loop of `addUnit` over the units there are. -/
def checkUnits (key env : String) : List (Sigma fun _ : String => UConf) → Except Throw Unit
  | [] => .ok ()
  | ⟨k, unit⟩ :: rest =>
    if k = key then .error (.invalidArgument s!"The key '{key}' is already registered.")
    else if unit.env = env then
      .error (.invalidArgument s!"The environment variable '{env}' is already registered.")
    else checkUnits key env rest

/-- `addUnit<T>`. The unit is kept under `key.data()`. -/
def addUnit (c : Conf) (key env : String) (T : UnitType) (defaultValue : T.Val) :
    Except Throw Conf := do
  match c.config with
  | .null =>
    if key = "" then .error (.logicError "The key cannot be empty.")
    checkUnits key env c.units.entries
    let unit ← UConf.make T env defaultValue
    return { c with units := c.units.insert (cstr key) unit }
  | _ => .error (.logicError "The configuration is already loaded.")

def LOG_LEVEL : String := "/engine/logger/level"

def KVDB_PATH : String := "/engine/kvdb/path"

def STORE_PATH : String := "/engine/store/path"

def SERVER_API_SOCKET : String := "/engine/server/api_socket"

def SERVER_EVENT_SOCKET : String := "/engine/server/event_socket"

/-- `Conf::Conf`, with a loader that is there. -/
def construct : Except Throw Conf := do
  let c ← addUnit ⟨.null, ∅⟩ LOG_LEVEL "DD_LOG_LEVEL" .string "info"
  let c ← addUnit c KVDB_PATH "DD_KVDB_PATH" .string "/var/lib/distro_defender/engine/kvdb"
  let c ← addUnit c SERVER_API_SOCKET "DD_SERVER_API_SOCKET" .string "/tmp/distro_defender_api.sock"
  let c ← addUnit c SERVER_EVENT_SOCKET "DD_SERVER_EVENT_SOCKET" .string
      "/tmp/distro_defender_event.sock"
  addUnit c STORE_PATH "DD_STORE_PATH" .string "/var/lib/distro_defender/engine/store"

/-! ## Loading -/

section Load

variable (J : Rapidjson) (P : PointerReader)

/-- The pointer of a path, as `exists` takes it. -/
def existsPointer (path : String) : Except Throw Pointer :=
  match P (cstr path) with
  | .ok p => .ok p
  | .error _ => .error (.runtimeError "..")

/-- The pointer of a path, after `validatePointer`. -/
def validPointer (path : String) : Except Throw Pointer :=
  match P (cstr path) with
  | .ok p => .ok p
  | .error (offset, message) =>
    .error (.runtimeError s!"Could not parse '{path}' at offset {offset}: {message}")

def invalidType (expected key got : String) : Throw :=
  .runtimeError s!"Invalid configuration type for key '{key}'. Expected {expected}, got '{got}'."

/-- The first item that is no string is refused. -/
def validateItems (key : String) : List Json → Except Throw Unit
  | [] => .ok ()
  | .str _ :: items => validateItems key items
  | item :: _ => .error (invalidType "string" key (cstr (J.print item)))

/-- What `validate` makes of a value that is there. -/
def validateValue (key : String) (unit : UConf) (v : Json) : Except Throw Unit :=
  match unit.getType, v with
  | .INTEGER, v =>
    if v.isInt ∨ v.isInt64 then .ok () else .error (invalidType "integer" key (cstr (J.print v)))
  | .STRING, .str _ => .ok ()
  | .STRING, v => .error (invalidType "string" key (cstr (J.print v)))
  | .STRING_LIST, .arr items => validateItems J key items
  | .STRING_LIST, v => .error (invalidType "array of strings" key (cstr (J.print v)))
  | .BOOL, .bool _ => .ok ()
  | .BOOL, v => .error (invalidType "boolean" key (cstr (J.print v)))

/-- `validate`. The order of the units is the map's own; it decides only which refusal is thrown. -/
def validate (config : Json) : List (Sigma fun _ : String => UConf) → Except Throw Unit
  | [] => .ok ()
  | ⟨key, unit⟩ :: rest => do
    match config.get (← existsPointer P key) with
    | none => validate config rest
    | some v =>
      validateValue J key unit v
      validate config rest

/-- `load`, with what the loader gives. -/
def load (loader : Except Throw Json) (c : Conf) : Except Throw Conf := do
  match c.config with
  | .null =>
    let config ← loader
    validate J P config c.units.entries
    return { c with config := config }
  | _ => .error (.logicError "The configuration is already loaded.")

end Load

/-! ## Reading -/

/-- `toStr<T>`, for the log line. -/
def toStr : (T : UnitType) → T.Val → Except Abort String
  | .strings, value =>
    let res := value.foldl (fun res item => res ++ (item ++ ",")) ""
    if res = "" then .error .undefined else .ok (String.ofList res.toList.dropLast)
  | .bool, value => .ok (if value then "true" else "false")
  | .string, value => .ok value
  | .int, value => .ok (toString value.toInt)
  | .int64, value => .ok (toString value.toInt)

section Get

variable (P : PointerReader) (getenv : String → Option String)

/-- `getValueAndOrigin`: what the document has, or the default. -/
def getValueAndOrigin {T : UnitType} (unit : UConf) (opt : Option T.Val) : Except Abort T.Val :=
  match opt with
  | some v => .ok v
  | none => orAbort (unit.getDefaultValue T)

/-- `get<T>` below the environment. -/
def getConfigured (c : Conf) (unit : UConf) (key : String) : (T : UnitType) → Except Abort T.Val
  | .string => do
    let p ← orAbort (validPointer P key)
    getValueAndOrigin unit (c.config.getString p)
  | .int => do
    let p ← orAbort (validPointer P key)
    getValueAndOrigin unit ((c.config.getIntAsInt64 p).map Int64.toInt32)
  | .int64 => do
    let p ← orAbort (validPointer P key)
    getValueAndOrigin unit (c.config.getIntAsInt64 p)
  | .bool => do
    let p ← orAbort (validPointer P key)
    getValueAndOrigin unit (c.config.getBool p)
  | .strings => do
    let p ← orAbort (validPointer P key)
    match c.config.getArray p with
    | none =>
      let value ← orAbort (unit.getDefaultValue .strings)
      let _ ← toStr .strings value
      return value
    | some jArr =>
      let result := jArr.map fun item => (item.getString []).getD "ERROR_VALUE"
      let _ ← toStr .strings result
      return result

def get (c : Conf) (T : UnitType) (key : String) : Except Abort T.Val :=
  match c.units.lookup (cstr key) with
  | none =>
    .error (.throws (.runtimeError s!"The key '{key}' is not found in the configuration options."))
  | some unit => do
    match ← orAbort (unit.getEnvValue getenv T) with
    | some envValue =>
      let _ ← toStr T envValue
      return envValue
    | none => getConfigured P c unit key T

end Get

end DistroDefender.Conf
