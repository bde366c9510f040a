import DistroDefender.Geo.Locator
import DistroDefender.Base.Paths

/-!
# Dumping an entry list

libmaxminddb hands a value over as a linked list of its nodes. `dumpEntryDataList` takes the nodes
of one value from the front of the list, writes them to a document below a path, and returns what is
left of the list. It calls itself through `dumpMap` and `dumpArray` on shorter lists; `fuel` bounds
the depth of these calls.
-/

namespace DistroDefender.Geo

open Base

def MMDB_INVALID_DATA_ERROR : Int := 7

/-- A value of a known type that is neither a map nor an array. -/
abbrev Scalar := {data : EntryData // data ≠ .map ∧ data ≠ .array ∧ data ≠ .other}

/-- A node of `MMDB_entry_data_list_s`. The `data_size` of a text or of bytes is part of the
value. -/
inductive EntryNode where
  | map (data_size : UInt32)
  | array (data_size : UInt32)
  | scalar (data : Scalar)
  | other
  deriving DecidableEq

/-- A call on the document; `none` when the fuel does not last. -/
abbrev Dumping := StateT Json (ExceptT Stop Option)

namespace Dumping

variable {α β : Type}

def raise (message : String) : Dumping α := throw (.throws (.runtimeError message))

/-- What comes after a call that ended. -/
def next (f : α → Dumping β) : Except Stop (α × Json) → Option (Except Stop (β × Json))
  | .ok (a, j) => f a j
  | .error e => some (.error e)

theorem run_bind {x : Dumping α} {j : Json} {r : Except Stop (α × Json)} (h : x j = some r)
    (f : α → Dumping β) : (x >>= f) j = next f r := by
  have hbind : (x >>= f) j = Option.bind (x j) (next f) := by
    show Option.bind _ _ = _
    congr 1
    funext r
    cases r <;> rfl
  rw [hbind, h, Option.bind_some]

/-- A call that changes the document and returns `a`, and what comes after it. -/
theorem run_then {x : Dumping α} {j : Json} {r : Except Stop Json} {a : α}
    (h : x j = some (r.map fun j => (a, j))) {f : α → Dumping β}
    {finish : Json → Except Stop (β × Json)} (hf : ∀ j, f a j = some (finish j)) :
    (x >>= f) j = some (r >>= finish) := by
  rw [run_bind h]
  cases r with
  | ok j => exact hf j
  | error e => rfl

end Dumping

section

variable (D : RapidDom) (strerror : Int → String)

/-- An operation of the document at a path. -/
def setAt (path : String) (op : JsonDOM.PathOp) : Dumping Unit := fun j =>
  some ((JsonDOM.run D op j (.ofString path)).map fun r => ((), r.2))

/-- The value that `setType` gets for a node that is no container. -/
def typeValue : EntryData → Json
  | .utf8_string s => .str s
  | .bytes bs => .str (bytesToHexString bs)
  | .double_value bits | .float_value bits => .num (.dbl bits)
  | .uint16 n => .num (.int n.toNat)
  | .uint32 n => .num (.int n.toNat)
  | .boolean b => .bool b
  | .uint64 n => .str (toString n.toNat)
  | .uint128 n => .str (uint128toHexString n)
  | .int32 n => .num (.int n.toInt)
  | .map | .array | .other => .null

/-- The loop of `dumpMap`. It ends with the list, too. -/
def mapLoop (dump : List EntryNode → String → Dumping (List EntryNode)) (path : String) :
    Nat → List EntryNode → Dumping (List EntryNode)
  | size + 1, key :: eDataList =>
    match key with
    | .scalar ⟨.utf8_string key, _⟩ => do
      let eDataList ← dump eDataList (path ++ "/" ++ key)
      mapLoop dump path size eDataList
    | _ => .raise s!"Error dumping map: {strerror MMDB_INVALID_DATA_ERROR}"
  | _, eDataList => pure eDataList

def dumpMap (dump : List EntryNode → String → Dumping (List EntryNode)) (eDataList : List EntryNode)
    (path : String) : Dumping (List EntryNode) :=
  match eDataList with
  | .map data_size :: eDataList => do
    setAt D path .setObject
    mapLoop strerror dump path data_size.toNat eDataList
  | _ => .raise "Error dumping map"

/-- The loop of `dumpArray`. -/
def arrayLoop (dump : List EntryNode → String → Dumping (List EntryNode)) (path : String) :
    Nat → Nat → List EntryNode → Dumping (List EntryNode)
  | size + 1, index, node :: eDataList => do
    let eDataList ← dump (node :: eDataList) (path ++ "/" ++ toString index)
    arrayLoop dump path size (index + 1) eDataList
  | _, _, eDataList => pure eDataList

def dumpArray (dump : List EntryNode → String → Dumping (List EntryNode))
    (eDataList : List EntryNode) (path : String) : Dumping (List EntryNode) :=
  match eDataList with
  | .array data_size :: eDataList => do
    setAt D path .setArray
    arrayLoop dump path data_size.toNat 0 eDataList
  | _ => .raise s!"Error dumping array: {strerror MMDB_INVALID_DATA_ERROR}"

/-- `dumpEntryDataList`. The type of the first node is read without a look at the pointer. -/
def dumpEntryDataList : Nat → List EntryNode → String → Dumping (List EntryNode)
  | 0, _, _ => fun _ => none
  | fuel + 1, eDataList, path =>
    match eDataList with
    | [] => throw .nullDereference
    | .map _ :: _ => dumpMap D strerror (dumpEntryDataList fuel) eDataList path
    | .array _ :: _ => dumpArray D strerror (dumpEntryDataList fuel) eDataList path
    | .scalar data :: eDataList => do
      setAt D path (.setType (typeValue data.1))
      return eDataList
    | .other :: _ => .raise s!"Error dumping entry data list: {strerror MMDB_INVALID_DATA_ERROR}"

/-! ## Writes -/

/-- What `setType` does to the document, and `setObject` and `setArray` with an empty container. -/
def setType (path : String) (value : Json) (j : Json) : Except Stop Json :=
  match D.pointer (cstr path) with
  | .ok p => .ok (j.set p value)
  | .error (offset, message) =>
    .error (.throws (.runtimeError s!"Could not parse '{path}' at offset {offset}: {message}"))

theorem run_setAt {op : JsonDOM.PathOp} {value : Json}
    (hop : op = .setType value ∨ op = .setObject ∧ value = .obj [] ∨
    op = .setArray ∧ value = .arr []) (path : String) (j : Json) :
    setAt D path op j = some ((setType D path value j).map fun j => ((), j)) := by
  have hrun : JsonDOM.run D op j (.ofString path) = JsonDOM.orStop
      (JsonDOM.validatePointer path (D.pointer (cstr path)) >>= fun p =>
        JsonDOM.applyOp D j path p op) := by
    unfold JsonDOM.run
    rw [View.read, View.cString_ofString]
    rcases hop with rfl | ⟨rfl, -⟩ | ⟨rfl, -⟩ <;> rfl
  have happly : ∀ p, JsonDOM.applyOp D j path p op = .ok (.done, j.set p value) := by
    intro p
    rcases hop with rfl | ⟨rfl, rfl⟩ | ⟨rfl, rfl⟩ <;> rfl
  unfold setAt setType
  rw [hrun]
  cases D.pointer (cstr path) with
  | ok p =>
    show some ((JsonDOM.orStop (JsonDOM.applyOp D j path p op)).map _) = _
    rw [happly]
    rfl
  | error e => rfl

/-- The values of a run of writes are set one after another. -/
def setTypes : List (String × Json) → Json → Except Stop Json
  | [], j => .ok j
  | (path, value) :: writes, j => setType D path value j >>= setTypes writes

theorem setTypes_append (writes writes' : List (String × Json)) (j : Json) :
    setTypes D (writes ++ writes') j = setTypes D writes j >>= setTypes D writes' := by
  induction writes generalizing j with
  | nil => rfl
  | cons w writes ih =>
    rw [List.cons_append, setTypes, setTypes]
    cases setType D w.1 w.2 j with
    | ok j => exact ih j
    | error e => rfl

/-- What a write throws is a `std::runtime_error`. -/
theorem setType_error {path : String} {value j : Json} {e : Stop}
    (h : setType D path value j = .error e) : ∃ message, e = .throws (.runtimeError message) := by
  unfold setType at h
  split at h
  · cases h
  · cases h
    exact ⟨_, rfl⟩

theorem setTypes_error {writes : List (String × Json)} {j : Json} {e : Stop}
    (h : setTypes D writes j = .error e) : ∃ message, e = .throws (.runtimeError message) := by
  induction writes generalizing j with
  | nil => cases h
  | cons w writes ih =>
    rw [setTypes] at h
    cases hw : setType D w.1 w.2 j with
    | ok j' =>
      rw [hw] at h
      exact ih h
    | error f =>
      rw [hw] at h
      cases h
      exact setType_error D hw

end

end DistroDefender.Geo
