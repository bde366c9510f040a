import DistroDefender.Lib.Effect

/-!
# Errors and exceptions

`base::Error` is the error the engine returns; `Throw` is what a C++ call may throw instead of
returning. A call on a state `σ` is `Call σ`.
-/

namespace DistroDefender.Base

structure Error where
  message : String
  deriving DecidableEq, Repr

/-- `base::OptError`: `none` is `noError()`. -/
abbrev OptError := Option Error

abbrev RespOrError (α : Type) := Except Error α

/-- The exceptions the modelled code can raise, with what their `what()` says where it is used. -/
inductive Throw where
  | runtimeError (what : String)
  | logicError (what : String)
  | invalidArgument (what : String)
  | filesystemError (what : String)
  | badVariantAccess
  | badOptionalAccess
  | outOfRange
  | outOfFuel
  deriving DecidableEq, Repr

/-- `e.what()`. -/
def Throw.what : Throw → String
  | .runtimeError what | .logicError what | .invalidArgument what | .filesystemError what => what
  | .badVariantAccess => "std::get: wrong index for variant"
  | .badOptionalAccess => "bad optional access"
  | .outOfRange => "map::at"
  | .outOfFuel => ""

/-- A call on a state: it returns or throws, and keeps what it wrote before a throw. -/
abbrev Call (σ : Type) := EStateM Throw σ

/-- `base::getResponse`: `std::get` on the variant. -/
def getResponse {α : Type} : RespOrError α → Except Throw α
  | .ok a => .ok a
  | .error _ => .error .badVariantAccess

def value {α : Type} : Option α → Except Throw α
  | some a => .ok a
  | none => .error .badOptionalAccess

@[simp] theorem getResponse_ok {α : Type} (a : α) : getResponse (.ok a) = .ok a := rfl

@[simp] theorem getResponse_error {α : Type} (e : Error) :
    getResponse (.error e : RespOrError α) = .error .badVariantAccess := rfl

@[simp] theorem value_some {α : Type} (a : α) : value (some a) = .ok a := rfl

@[simp] theorem value_none {α : Type} : value (none : Option α) = .error .badOptionalAccess := rfl

end DistroDefender.Base
