import DistroDefender.Base.Json
import Mathlib.Algebra.Group.Int.Defs
import Mathlib.Data.List.Basic

/-!
# Typed reads and appends

The getters of `JsonDOM` that read a value of one type, and the setters the request handlers build
their answers with. An integer is an `int` or an `int64_t` by its value, as rapidjson's `IsInt` and
`IsInt64` say; a double is neither.
-/

namespace DistroDefender.Base.Json

/-- `Value::IsInt`. -/
def isInt : Json → Bool
  | .num (.int i) => -2 ^ 31 ≤ i ∧ i < 2 ^ 31
  | _ => false

/-- `Value::IsInt64`. -/
def isInt64 : Json → Bool
  | .num (.int i) => -2 ^ 63 ≤ i ∧ i < 2 ^ 63
  | _ => false

/-- `Value::GetInt` and `GetInt64`. -/
def intValue : Json → Int
  | .num (.int i) => i
  | _ => 0

def getBool (j : Json) (path : Pointer) : Option Bool :=
  match j.get path with
  | some (.bool b) => some b
  | _ => none

def getInt32 (j : Json) (path : Pointer) : Option Int32 :=
  match j.get path with
  | some v => if v.isInt then some (Int32.ofInt v.intValue) else none
  | none => none

def getIntAsInt64 (j : Json) (path : Pointer) : Option Int64 :=
  match j.get path with
  | some v =>
    if v.isInt64 then some (Int64.ofInt v.intValue)
    else if v.isInt then some (Int64.ofInt v.intValue)
    else none
  | none => none

def getArray (j : Json) (path : Pointer) : Option (List Json) :=
  match j.get path with
  | some (.arr xs) => some xs
  | _ => none

def appendJson (j : Json) (path : Pointer) (value : Json) : Json :=
  match j.get path with
  | some (.arr xs) => j.set path (.arr (xs ++ [value]))
  | _ => j.set path (.arr [value])

/-- `JsonDOM(std::initializer_list)` and `setTypeMany`: the values are set one after another. -/
def setTypeMany (items : List (Pointer × Json)) (j : Json) : Json :=
  items.foldl (fun j item => j.set item.1 item.2) j

def ofItems (items : List (Pointer × Json)) : Json := setTypeMany items .null

/-! ## Reads that give a value -/

theorem getString_some_iff {j : Json} {path : Pointer} {text : String} :
    j.getString path = some text ↔ ∃ s, j.get path = some (.str s) ∧ cstr s = text := by
  unfold getString
  cases j.get path with
  | none => simp
  | some v => cases v <;> simp

theorem getInt32_isSome_iff {j : Json} {path : Pointer} :
    (j.getInt32 path).isSome = true ↔ ∃ v, j.get path = some v ∧ v.isInt = true := by
  unfold getInt32
  cases j.get path with
  | none => simp
  | some v => by_cases hv : v.isInt = true <;> simp [hv]

@[simp] theorem get_nil (j : Json) : j.get [] = some j := by
  cases j <;> rfl

theorem get_obj_cons (ms : List (String × Json)) (t : String) (ts : Pointer) :
    (obj ms).get (t :: ts) = (ms.lookup t).bind fun j => j.get ts := by
  rw [get.eq_def]
  dsimp only
  cases ms.lookup t <;> rfl

theorem get_arr_cons (xs : List Json) (t : String) (ts : Pointer) :
    (arr xs).get (t :: ts) = ((tokenIndex t).bind (xs[·]?)).bind fun j => j.get ts := by
  rw [get.eq_def]
  dsimp only
  cases (tokenIndex t).bind (xs[·]?) <;> rfl

/-- A pointer goes on from what its first token finds. -/
theorem get_cons_of_get {j v : Json} {t : String} (h : j.get [t] = some v) (ts : Pointer) :
    j.get (t :: ts) = v.get ts := by
  cases j with
  | obj ms =>
    rw [get_obj_cons] at h ⊢
    obtain ⟨w, hw, hv⟩ := Option.bind_eq_some_iff.mp h
    rw [get_nil] at hv
    cases hv
    rw [hw]
    rfl
  | arr xs =>
    rw [get_arr_cons] at h ⊢
    obtain ⟨w, hw, hv⟩ := Option.bind_eq_some_iff.mp h
    rw [get_nil] at hv
    cases hv
    rw [hw]
    rfl
  | null => cases h
  | bool b => cases h
  | num n => cases h
  | str s => cases h

end DistroDefender.Base.Json
