import DistroDefender.Base.Error
import DistroDefender.Base.StringUtils
import Mathlib.Algebra.Group.Int.Defs

/-!
# Units of the configuration

A unit is an option of one of five types, with its environment variable and its default value.
`getEnvValue` reads the variable, and throws where its text is no value of the type.
-/

namespace DistroDefender.Conf

open Base

/-- The `T` of a `UConf<T>`: `int`, `int64_t`, `bool`, `std::string` or
`std::vector<std::string>`. -/
inductive UnitType where
  | int
  | int64
  | bool
  | string
  | strings
  deriving DecidableEq

abbrev UnitType.Val : UnitType → Type
  | .int => Int32
  | .int64 => Int64
  | .bool => Bool
  | .string => String
  | .strings => List String

inductive UnitConfType where
  | INTEGER
  | STRING
  | STRING_LIST
  | BOOL
  deriving DecidableEq

/-- `UConf<T>`. -/
structure UConf where
  T : UnitType
  env : String
  defaultValue : T.Val

namespace UConf

/-- `UConf<T>::make`. -/
def make (T : UnitType) (env : String) (defaultValue : T.Val) : Except Throw UConf :=
  if env = "" then .error (.invalidArgument "The environment variable name cannot be empty.")
  else .ok ⟨T, env, defaultValue⟩

/-- `getType`. -/
def getType (unit : UConf) : UnitConfType :=
  match unit.T with
  | .int | .int64 => .INTEGER
  | .string => .STRING
  | .strings => .STRING_LIST
  | .bool => .BOOL

end UConf

/-- What gcc calls `UConf<T>`. -/
def UnitType.typeName : UnitType → String
  | .int => "N4conf8internal5UConfIiEE"
  | .int64 => "N4conf8internal5UConfIlEE"
  | .bool => "N4conf8internal5UConfIbEE"
  | .string => "N4conf8internal5UConfINSt7__cxx1112basic_stringIcSt11char_traitsIcESaIcEEEEE"
  | .strings =>
    "N4conf8internal5UConfISt6vectorINSt7__cxx1112basic_stringIcSt11char_traitsIcESaIcEEESaIS7_EEEE"

/-- The cast of a unit to another type. -/
def castError (T : UnitType) : Throw :=
  .logicError s!"Cannot cast the unit config to '{T.typeName}', the type is not supported."

def UConf.getDefaultValue (unit : UConf) (T : UnitType) : Except Throw T.Val :=
  if h : unit.T = T then .ok (h ▸ unit.defaultValue) else .error (castError T)

theorem UConf.getDefaultValue_self (unit : UConf) :
    unit.getDefaultValue unit.T = .ok unit.defaultValue := by
  unfold getDefaultValue
  rw [dif_pos rfl]

/-! ## Environment variables -/

/-- `std::stoll` where there is no space: a sign, if any, and digits. It gives the number and where
it ends. -/
def stoll (value : String) : Except Throw (Int × Nat) :=
  let cs := value.toList
  let sign := cs.take (if cs.head? = some '-' ∨ cs.head? = some '+' then 1 else 0)
  let digits := (cs.drop sign.length).takeWhile Char.isDigit
  let n : Int := (digits.foldl (fun n d => 10 * n + (d.toNat - '0'.toNat)) 0 : Nat)
  let number := if sign = ['-'] then -n else n
  if digits = [] then .error (.invalidArgument "stoll")
  else if number < -2 ^ 63 ∨ 2 ^ 63 ≤ number then .error .outOfRange
  else .ok (number, sign.length + digits.length)

def isSpace (c : Char) : Bool := c = ' ' ∨ 9 ≤ c.toNat ∧ c.toNat ≤ 13

def invalidNumber (env value : String) : Throw :=
  .runtimeError s!"Invalid number value for environment variable '{env}' (value: '{value}')."

def numberOutOfRange (env value : String) : Throw :=
  .runtimeError s!"Number value out of range for environment variable '{env}' (value: '{value}')."

/-- What the two integer types share. -/
def readNumber (env value : String) : Except Throw Int :=
  if value.toList.any isSpace then .error (invalidNumber env value)
  else
    match stoll value with
    | .error .outOfRange => .error (numberOutOfRange env value)
    | .error _ => .error (invalidNumber env value)
    | .ok (number, pos) =>
      if pos ≠ value.length then .error (invalidNumber env value) else .ok number

/-- The value of a variable that is set. No text is both `true` and `false`, so a `bool` is never
read. -/
def readEnv (env value : String) : (T : UnitType) → Except Throw T.Val
  | .int => do
    let number ← readNumber env value
    if number < -2 ^ 31 ∨ 2 ^ 31 ≤ number then .error (numberOutOfRange env value)
    else return Int32.ofInt number
  | .int64 => do return Int64.ofInt (← readNumber env value)
  | .string => .ok value
  | .strings => .ok (splitEscaped value ',' (Char.ofNat 92))
  | .bool =>
    let lowerValue := toLowerCase value
    if lowerValue ≠ "true" ∨ lowerValue ≠ "false" then
      .error (.runtimeError
        s!"Invalid boolean value for environment variable '{env}' (value: '{value}').")
    else .ok (lowerValue = "true")

/-- `getEnvValue<T>`, where `getenv` gives the environment. -/
def UConf.getEnvValue (getenv : String → Option String) (unit : UConf) (T : UnitType) :
    Except Throw (Option T.Val) :=
  if unit.T ≠ T then .error (castError T)
  else
    match getenv (cstr unit.env) with
    | none => .ok none
    | some value => (readEnv unit.env value T).map some

theorem UConf.getEnvValue_unset {getenv : String → Option String} {unit : UConf}
    (h : getenv (cstr unit.env) = none) : unit.getEnvValue getenv unit.T = .ok none := by
  unfold getEnvValue
  rw [if_neg (not_not.mpr rfl), h]

end DistroDefender.Conf
