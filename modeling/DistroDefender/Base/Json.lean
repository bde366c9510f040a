import DistroDefender.Base.Error
import DistroDefender.Base.StringUtils

/-!
# JSON documents

`json::Json` wraps a rapidjson document. A document is a value whose objects keep their members in
order, repeated names included. A pointer is the list of its reference tokens; `Json.get` and
`Json.set` follow rapidjson's `Pointer::Get` and `Pointer::Set`. Parsing and printing text are
rapidjson's own (`Rapidjson`).
-/

namespace DistroDefender.Base

/-- A JSON number: an integer of any of rapidjson's widths, or the bits of a double. -/
inductive Number where
  | int (i : Int)
  | dbl (bits : UInt64)
  deriving DecidableEq, Repr

/-- A rapidjson value. -/
inductive Json where
  | null
  | bool (b : Bool)
  | num (n : Number)
  | str (s : String)
  | arr (xs : List Json)
  | obj (ms : List (String × Json))
  deriving Repr

/-- The reference tokens of a valid JSON pointer. -/
abbrev Pointer := List String

namespace Json

/-- The array index a token denotes: digits without a leading zero. -/
def tokenIndex (t : String) : Option Nat :=
  match t.toList with
  | [] => none
  | c :: cs =>
    if (c :: cs).all Char.isDigit ∧ (c ≠ '0' ∨ cs = []) then
      some ((c :: cs).foldl (fun n d => 10 * n + (d.toNat - '0'.toNat)) 0)
    else none

/-- `Pointer::Get`. -/
def get : Json → Pointer → Option Json
  | j, [] => some j
  | .obj ms, t :: ts =>
    match ms.lookup t with
    | some j => get j ts
    | none => none
  | .arr xs, t :: ts =>
    match (tokenIndex t).bind (xs[·]?) with
    | some j => get j ts
    | none => none
  | _, _ :: _ => none

/-- The members with the first one named `t` given the value `v`, or `t` added at the end. -/
def setMember (t : String) (v : Json) : List (String × Json) → List (String × Json)
  | [] => [(t, v)]
  | (k, w) :: ms => if k = t then (k, v) :: ms else (k, w) :: setMember t v ms

/-- `Pointer::Set`: the containers on the way are created, or replaced where they have the wrong
type for the token. -/
def set : Json → Pointer → Json → Json
  | _, [], v => v
  | j, t :: ts, v =>
    match tokenIndex t, j with
    | _, .obj ms => .obj (setMember t (set ((ms.lookup t).getD .null) ts v) ms)
    | none, .arr xs =>
      if t = "-" then .arr (xs ++ [set .null ts v]) else .obj [(t, set .null ts v)]
    | none, _ => .obj [(t, set .null ts v)]
    | some i, .arr xs =>
      let ys := xs ++ List.replicate (i + 1 - xs.length) .null
      .arr (ys.set i (set ((ys[i]?).getD .null) ts v))
    | some i, _ => .arr ((List.replicate (i + 1) .null).set i (set .null ts v))

/-- `JsonDOM::exists`. -/
def existsAt (j : Json) (path : Pointer) : Bool := (j.get path).isSome

/-- `JsonDOM::getString`: a `const char*` is returned, so the text ends at its first NUL. -/
def getString (j : Json) (path : Pointer) : Option String :=
  match j.get path with
  | some (.str s) => some (cstr s)
  | _ => none

/-- What is read as a string is a C string. -/
theorem cstr_of_getString {j : Json} {path : Pointer} {s : String} (h : j.getString path = some s) :
    cstr s = s := by
  unfold getString at h
  split at h
  · cases h
    exact cstr_of_not_mem (not_mem_cstr _)
  · cases h

def appendString (j : Json) (path : Pointer) (value : String) : Json :=
  match j.get path with
  | some (.arr xs) => j.set path (.arr (xs ++ [.str value]))
  | _ => j.set path (.arr [.str value])

/-- Strings appended one after another to an array. -/
theorem foldl_appendString {α : Type} (f : α → String) (l : List α) (xs : List Json) :
    l.foldl (fun (j : Json) a => j.appendString [] (f a)) (.arr xs) =
      .arr (xs ++ l.map fun a => .str (f a)) := by
  induction l generalizing xs with
  | nil => simp
  | cons a l ih =>
    have happend : (Json.arr xs).appendString [] (f a) = .arr (xs ++ [.str (f a)]) := rfl
    rw [List.foldl_cons, happend, ih, List.append_assoc, List.map_cons, List.singleton_append]

/-- The first name that repeats an earlier one. -/
def firstRepeated : List String → List String → Option String
  | _, [] => none
  | seen, key :: keys =>
    if key ∈ seen then some key else firstRepeated (key :: seen) keys

mutual

/-- `Checker::visit`: the names of an object, then the objects among its members' values. -/
def visit : Json → OptError
  | .obj ms =>
    match firstRepeated [] (ms.map (fun m => cstr m.1)) with
    | some key => some ⟨s!"Duplicate JSON key '{key}'"⟩
    | none => visitMembers ms
  | _ => none

/-- The second loop of `Checker::visit`: nothing is visited after an error. -/
def visitMembers : List (String × Json) → OptError
  | [] => none
  | (_, v) :: ms =>
    match visit v with
    | some e => some e
    | none => visitMembers ms

end

def checkDuplicateKeys (j : Json) : OptError := visit j

end Json

/-- What rapidjson does with text: `parse` reads the text up to its NUL and reports its error as
`getParseError` formats it, `print` is the compact writer. -/
structure Rapidjson where
  parse : String → RespOrError Json
  print : Json → String

/-- The value of a document built from a C string: null after a parse error. -/
def Rapidjson.document (R : Rapidjson) (text : String) : Json :=
  match R.parse (cstr text) with
  | .ok j => j
  | .error _ => .null

end DistroDefender.Base
