import DistroDefender.Base.Getters
import DistroDefender.Base.View

/-!
# Operations at paths

The operations of `JsonDOM` that take a path as a view. Each hands `path.data()` to
`rapidjson::Pointer`, and works at the pointer it makes of that C string; only the texts of errors,
and the empty path of `erase`, come from the view itself. What rapidjson does with values beyond the
model of documents is in `RapidDom`.
-/

namespace DistroDefender.Base

/-- What `rapidjson::Pointer` makes of a C string: a pointer, or where it is not valid and why. -/
abbrev PointerReader := String → Except (Nat × String) Pointer

/-- rapidjson: text, pointers, the comparison of values, and the doubles a `float` holds, with that
`float`. -/
structure RapidDom where
  json : Rapidjson
  pointer : PointerReader
  equal : Json → Json → Bool
  isFloat : UInt64 → Bool
  toFloat : UInt64 → UInt32

/-- `json::Type`. -/
inductive JsonType where
  | Null
  | Object
  | Array
  | String
  | Boolean
  | Number
  | Int
  | Uint
  | Int64
  | Uint64
  | Float
  | Double
  | Unknown

/-- What an operation gives, besides the document. -/
inductive Reply where
  | done
  | flag (b : Bool)
  | boolean (b : Option Bool)
  | number (i : Option Int)
  | float (bits : Option UInt32)
  | double (bits : Option UInt64)
  | text (s : Option String)
  | items (xs : Option (List Json))
  | members (ms : Option (List (String × Json)))
  | json (j : Option Json)
  | size (n : Nat)
  /-- A reference to the value in the document. -/
  | value (j : Json)

namespace Json

/-- `Value::IsUint`. -/
def isUint : Json → Bool
  | .num (.int i) => 0 ≤ i ∧ i < 2 ^ 32
  | _ => false

/-- `Value::IsUint64`. -/
def isUint64 : Json → Bool
  | .num (.int i) => 0 ≤ i ∧ i < 2 ^ 64
  | _ => false

/-- The members without the first one named `t`. -/
def eraseMember (t : String) : List (String × Json) → List (String × Json)
  | [] => []
  | (k, w) :: ms => if k = t then ms else (k, w) :: eraseMember t ms

/-- `Pointer::Erase`: whether there was something, and the document without it. -/
def erase : Json → Pointer → Bool × Json
  | j, [] => (false, j)
  | .obj ms, [t] => ((ms.lookup t).isSome, .obj (eraseMember t ms))
  | .arr xs, [t] =>
    match tokenIndex t with
    | some i => if i < xs.length then (true, .arr (xs.eraseIdx i)) else (false, .arr xs)
    | none => (false, .arr xs)
  | .obj ms, t :: ts =>
    match ms.lookup t with
    | some j => ((erase j ts).1, .obj (setMember t (erase j ts).2 ms))
    | none => (false, .obj ms)
  | .arr xs, t :: ts =>
    match (tokenIndex t).bind fun i => (xs[i]?).map fun j => (i, j) with
    | some (i, j) => ((erase j ts).1, .arr (xs.set i (erase j ts).2))
    | none => (false, .arr xs)
  | j, _ :: _ => (false, j)

end Json

/-- How an operation ends that has its pointer and gives no value. -/
inductive Fault where
  | throws (e : Throw)
  | nullDereference

def Fault.stop : Fault → Stop
  | .throws e => .throws e
  | .nullDereference => .nullDereference

namespace JsonDOM

variable (D : RapidDom)

/-- `isTypeHelper`. -/
def isTypeHelper (v : Json) : JsonType → Except Fault Bool
  | .Null => .ok (v matches .null)
  | .Object => .ok (v matches .obj _)
  | .Array => .ok (v matches .arr _)
  | .String => .ok (v matches .str _)
  | .Boolean => .ok (v matches .bool _)
  | .Number => .ok (v matches .num _)
  | .Int => .ok v.isInt
  | .Uint => .ok v.isUint
  | .Int64 => .ok v.isInt64
  | .Uint64 => .ok v.isUint64
  | .Float => .ok (match v with
    | .num (.dbl bits) => D.isFloat bits
    | _ => false)
  | .Double => .ok (v matches .num (.dbl _))
  | .Unknown => .error (.throws (.runtimeError "Unknown json::Type"))

/-- The operations with one path. -/
inductive PathOp where
  | existsAt
  | equals (value : Json)
  | set (value : Json)
  | getString
  | getBool
  | getInt32
  | getUint32
  | getInt64
  | getUint64
  | getIntAsInt64
  | getUintAsUint64
  | getFloat
  | getDouble
  | getArray
  | getObject
  | getJson
  | toStr
  | isType (type : JsonType)
  | isEmpty
  | size
  | setNull
  | setEmpty
  | setObject
  | setAndGetObject
  | setArray
  | setAndGetArray
  | setType (value : Json)
  | setAndGetType (value : Json)
  | appendString (value : String)
  | appendJson (value : Json)
  | erase

/-- The operations with two paths. -/
inductive PathsOp where
  | equals
  | set

/-- `validatePointer`. -/
def validatePointer (path : String) : Except (Nat × String) Pointer → Except Fault Pointer
  | .ok p => .ok p
  | .error (offset, message) =>
    .error (.throws (.runtimeError s!"Could not parse '{path}' at offset {offset}: {message}"))

/-- A number, where the value at the pointer is one the test lets through. -/
def numberAt (j : Json) (p : Pointer) (test : Json → Bool) : Reply :=
  .number ((j.get p).bind fun v => if test v then some v.intValue else none)

/-- The reference a `setAndGet` returns. -/
def setAndGet (j : Json) (p : Pointer) (value : Json) : Except Fault (Reply × Json) :=
  match (j.set p value).get p with
  | some v => .ok (.value v, j.set p value)
  | none => .error .nullDereference

/-- `getUintAsUint64` takes the `int` of a number that is no `uint64_t`. -/
def uintValue (v : Json) : Option Int :=
  if v.isUint64 then some v.intValue else if v.isUint then some v.intValue else none

/-- The operations at a valid pointer. -/
def applyOp (j : Json) (path : String) (p : Pointer) : PathOp → Except Fault (Reply × Json)
  | .existsAt => .ok (.flag (j.existsAt p), j)
  | .equals value => .ok (.flag ((j.get p).any fun v => D.equal v value), j)
  | .set value => .ok (.done, j.set p value)
  | .getString => .ok (.text (j.getString p), j)
  | .getBool => .ok (.boolean (j.getBool p), j)
  | .getInt32 => .ok (numberAt j p Json.isInt, j)
  | .getUint32 => .ok (numberAt j p Json.isUint, j)
  | .getInt64 => .ok (numberAt j p Json.isInt64, j)
  | .getUint64 => .ok (numberAt j p Json.isUint64, j)
  | .getIntAsInt64 => .ok (numberAt j p fun v => v.isInt64 || v.isInt, j)
  | .getUintAsUint64 => .ok (.number ((j.get p).bind uintValue), j)
  | .getFloat => .ok (.float (match j.get p with
    | some (.num (.dbl bits)) => if D.isFloat bits then some (D.toFloat bits) else none
    | _ => none), j)
  | .getDouble => .ok (.double (match j.get p with
    | some (.num (.dbl bits)) => some bits
    | _ => none), j)
  | .getArray => .ok (.items (j.getArray p), j)
  | .getObject => .ok (.members (match j.get p with
    | some (.obj ms) => some (ms.map fun m => (cstr m.1, m.2))
    | _ => none), j)
  | .getJson => .ok (.json (j.get p), j)
  | .toStr => .ok (.text ((j.get p).map fun v => cstr (D.json.print v)), j)
  | .isType type =>
    match j.get p with
    | none => .ok (.flag false, j)
    | some v => (isTypeHelper D v type).map fun b => (.flag b, j)
  | .isEmpty =>
    match j.get p with
    | none => .ok (.flag false, j)
    | some (.arr xs) => .ok (.flag xs.isEmpty, j)
    | some (.obj ms) => .ok (.flag ms.isEmpty, j)
    | some .null => .ok (.flag true, j)
    | some _ => .error (.throws
        (.runtimeError s!"Field '{path}' is not an array, object, or null."))
  | .size =>
    match j.get p with
    | none => .error (.throws (.runtimeError s!"INVALID pointer path '{path}'"))
    | some (.arr xs) => .ok (.size xs.length, j)
    | some (.obj ms) => .ok (.size ms.length, j)
    | some (.str s) => .ok (.size s.utf8ByteSize, j)
    | some _ => .error (.throws (.runtimeError s!"Size of field '{path}' is not measurable."))
  | .setNull | .setEmpty => .ok (.done, j.set p .null)
  | .setObject => .ok (.done, j.set p (.obj []))
  | .setAndGetObject => setAndGet j p (.obj [])
  | .setArray => .ok (.done, j.set p (.arr []))
  | .setAndGetArray => setAndGet j p (.arr [])
  | .setType value => .ok (.done, j.set p value)
  | .setAndGetType value => setAndGet j p value
  | .appendString value => .ok (.done, j.appendString p value)
  | .appendJson value => .ok (.done, j.appendJson p value)
  | .erase => .ok (.flag (j.erase p).1, (j.erase p).2)

/-- An operation, after its path was read: `exists` has an error of its own. -/
def afterRead (op : PathOp) (j : Json) (path text : String) : Except Fault (Reply × Json) :=
  match op, D.pointer text with
  | .existsAt, .error _ => .error (.throws (.runtimeError ".."))
  | op, parsed => do applyOp D j path (← validatePointer path parsed) op

def orStop {α : Type} : Except Fault α → Except Stop α
  | .ok a => .ok a
  | .error f => .error f.stop

/-- An operation with one path. An empty path of `erase` is not read. -/
def run (op : PathOp) (j : Json) (path : View) : Except Stop (Reply × Json) :=
  match op, path.chars with
  | .erase, "" => .ok (.flag true, .null)
  | op, chars => do orStop (afterRead D op j chars (← path.read))

/-- The operations with two valid pointers. -/
def applyPaths (j : Json) (base reference : Pointer) : PathsOp → Reply × Json
  | .equals => (.flag (match j.get base, j.get reference with
    | some v, some w => D.equal v w
    | _, _ => false), j)
  | .set => (.done, j.set base ((j.get reference).getD .null))

/-- An operation with two paths. -/
def runPaths (op : PathsOp) (j : Json) (basePtrPath referencePtrPath : View) :
    Except Stop (Reply × Json) := do
  let base_text ← basePtrPath.read
  let reference_text ← referencePtrPath.read
  orStop (do
    let base_ptr ← validatePointer basePtrPath.chars (D.pointer base_text)
    let reference_ptr ← validatePointer referencePtrPath.chars (D.pointer reference_text)
    return applyPaths D j base_ptr reference_ptr op)

/-- `setTypeMany`. -/
def setTypeMany : List (View × Json) → Json → Except Stop Json
  | [], j => .ok j
  | (path, value) :: items, j => do
    let (_, j) ← run D (.setType value) j path
    setTypeMany items j

/-- `JsonDOM(std::string_view)`: the document, and its parse error. -/
def ofView (json : View) : Except Stop (Json × OptError) := do
  match D.json.parse (← json.read) with
  | .ok j => return (j, none)
  | .error e => return (.null, some e)

end JsonDOM

end DistroDefender.Base
