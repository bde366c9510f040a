import DistroDefender.Base.Json
import DistroDefender.Kvdb.RefCount
import DistroDefender.Kvdb.RocksDB
import DistroDefender.Lib.Prog

/-!
# The key-value manager

`KVDBManager` keeps a map from database names to column family handles beside RocksDB and the
collection that counts its handlers. An operation is a program of calls (`KvdbCall`): a call reads
or changes the map, the collection or RocksDB, and `handle` answers it. Operations of different
threads interleave between calls. `initialize` and `finalize` are not meant to run beside others and
are calls of their own.
-/

namespace DistroDefender.Kvdb

open Base Lib

/-- `KVDBHandler`, with what its destructor reads and the column family it works on. -/
structure KVDBHandler (η : Type) where
  weakCFHandle : η
  dbName : String
  scopeName : String
  deriving DecidableEq

structure KVDBManager (σ η : Type) where
  mapCFHandles : Map String η
  kvdbHandlerCollection : KVDBHandlerCollection
  isInitialized : Bool
  /-- `pRocksDB_` is not null. -/
  pRocksDB : Bool
  rocksDB : σ

/-- The calls an operation makes. `lookup` is `count` followed by `[]`. -/
inductive KvdbCall (η : Type) where
  | count (name : String)
  | lookup (name : String)
  | find (name : String)
  | emplace (name : String) (h : η)
  | erase (name : String)
  | addKVDBHandler (dbName scopeName : String)
  | removeKVDBHandler (dbName scopeName : String)
  | getKVDBHandlersCount (dbName : String)
  | CreateColumnFamily (name : String)
  | DropColumnFamily (h : η)
  | Put (h : η) (key value : String)
  | readFile (path : String)

/-- What a call answers. `DropColumnFamily` is called in a `try` block: its exceptions are
answers. -/
def KvdbCall.Answer {η : Type} : KvdbCall η → Type
  | .count _ => Bool
  | .lookup _ | .find _ => Option η
  | .emplace .. | .erase _ | .addKVDBHandler .. | .removeKVDBHandler .. => Unit
  | .getKVDBHandlersCount _ => UInt32
  | .CreateColumnFamily _ => Status η
  | .DropColumnFamily _ => Except Throw (Status Unit)
  | .Put .. => Status Unit
  | .readFile _ => Option String

abbrev KvdbM (η : Type) := Prog Throw (KvdbCall η) KvdbCall.Answer

def call {η : Type} (c : KvdbCall η) : KvdbM η c.Answer := .call c .ret

/-- Opening and reading a file: nothing when it cannot be opened. -/
abbrev Files := String → Except Throw (Option String)

section

variable {σ η : Type}

/-- A call of RocksDB. -/
def onRocksDB {α : Type} (x : Call σ α) : Call (KVDBManager σ η) α :=
  onPart KVDBManager.rocksDB (fun s m => { m with rocksDB := s }) x

/-- A call whose exceptions are caught. -/
def caught {α : Type} (x : Call σ α) : Call σ (Except Throw α) := fun s =>
  match EStateM.run x s with
  | .ok a s' => .ok (.ok a) s'
  | .error e s' => .ok (.error e) s'

/-- The manager answers a call. -/
def handle (R : RocksDB σ η) (files : Files) : (c : KvdbCall η) → Call (KVDBManager σ η) c.Answer
  | .count name => do return decide (name ∈ (← get).mapCFHandles)
  | .lookup name => do return (← get).mapCFHandles.lookup name
  | .find name => do return (← get).mapCFHandles.lookup name
  | .emplace name h => modify fun m => { m with mapCFHandles := m.mapCFHandles.emplace name h }
  | .erase name => modify fun m => { m with mapCFHandles := m.mapCFHandles.erase name }
  | .addKVDBHandler dbName scopeName =>
    modify fun m => { m with
      kvdbHandlerCollection := m.kvdbHandlerCollection.addKVDBHandler dbName scopeName }
  | .removeKVDBHandler dbName scopeName =>
    modify fun m => { m with
      kvdbHandlerCollection := m.kvdbHandlerCollection.removeKVDBHandler dbName scopeName }
  | .getKVDBHandlersCount dbName => do
    return (← get).kvdbHandlerCollection.getKVDBHandlersCount dbName
  | .CreateColumnFamily name => onRocksDB (R.CreateColumnFamily name)
  | .DropColumnFamily h => onRocksDB (caught (R.DropColumnFamily h))
  | .Put h key value => onRocksDB (R.Put h key value)
  | .readFile path => orThrow (files path)

/-! ## The operations -/

/-- `std::runtime_error` and what derives from it. -/
def isRuntimeError : Throw → Bool
  | .runtimeError _ | .filesystemError _ => true
  | _ => false

def getKVDBHandler (dbName scopeName : String) : KvdbM η (RespOrError (KVDBHandler η)) := do
  match ← call (.lookup dbName) with
  | none => return .error ⟨s!"The DB '{dbName}' does not exist."⟩
  | some cfHandle =>
    call (.addKVDBHandler dbName scopeName)
    return .ok ⟨cfHandle, dbName, scopeName⟩

/-- `~KVDBHandler`. -/
def destroy (h : KVDBHandler η) : KvdbM η Unit := call (.removeKVDBHandler h.dbName h.scopeName)

def existsDB (name : String) : KvdbM η Bool := call (.count name)

def deleteDB (name : String) : KvdbM η OptError := do
  let refCount : UInt32 ← call (.getKVDBHandlersCount name)
  if refCount ≠ 0 then
    return some ⟨s!"Could not remove the DB '{name}'. Usage reference count: {refCount}"⟩
  else
    match ← call (.find name) with
    | none => return some ⟨s!"The DB '{name}' does not exist."⟩
    | some cfHandle =>
      match ← call (.DropColumnFamily cfHandle) with
      | .ok (.ok ()) =>
        call (.erase name)
        return none
      | .ok (.error opStatus) =>
        return some ⟨s!"Database '{name}' could not be removed: {opStatus}."⟩
      | .error e =>
        if isRuntimeError e then
          return some ⟨s!"Database '{name}' could not be removed: {e.what}."⟩
        else .raise e

def createColumnFamily (name : String) : KvdbM η OptError := do
  match ← call (.CreateColumnFamily name) with
  | .error status => return some ⟨s!"Could not create DB '{name}', RocksDB status: {status}."⟩
  | .ok cfHandle =>
    call (.emplace name cfHandle)
    return none

def createDB (name : String) : KvdbM η OptError := do
  if ← existsDB name then
    return none
  else
    createColumnFamily name

/-- The members of an object, with names as C strings. -/
def getObject : Json → Option (List (String × Json))
  | .obj ms => some (ms.map fun m => (cstr m.1, m.2))
  | _ => none

/-- The loop of `loadDBFromJson`: it ends at the first `Put` that fails. -/
def putAll (h : η) : List (String × String) → KvdbM η OptError
  | [] => return none
  | (key, value) :: entries => do
    match ← call (.Put h key value) with
    | .error status =>
      return some ⟨s!"An error occurred while inserting data key{key}, value {value}: {status}"⟩
    | .ok () => putAll h entries

/-- The entries a content stands for, as they are written. -/
def entriesOf (J : Rapidjson) (content : List (String × Json)) : List (String × String) :=
  content.map fun m => (m.1, J.print m.2)

def loadDBFromJson (J : Rapidjson) (name : String) (content : Json) : KvdbM η OptError := do
  match ← call (.lookup name) with
  | none => return some ⟨s!"The DB '{name}' does not exist."⟩
  | some cfHandle =>
    let entries ← Prog.ofExcept (value (getObject content))
    putAll cfHandle (entriesOf J entries)

def getContentFromJsonFile (J : Rapidjson) (path : String) : KvdbM η (RespOrError Json) := do
  if path = "" then
    return .error ⟨"The path is empty."⟩
  else
    match ← call (.readFile (cstr path)) with
    | none => return .error ⟨s!"An error occurred while opening the file '{cstr path}'"⟩
    | some contents =>
      match J.document contents with
      | .obj ms => return .ok (.obj ms)
      | _ =>
        return .error
          ⟨s!"An error occurred while parsing the JSON file '{cstr path}': JSON is not an object"⟩

/-- `createDB(name, path)`. -/
def createDBFromFile (J : Rapidjson) (name path : String) : KvdbM η OptError := do
  match ← getContentFromJsonFile J path with
  | .error e => return some e
  | .ok content =>
    match ← createDB name with
    | some errorCreate => return some errorCreate
    | none =>
      match ← loadDBFromJson J name content with
      | none => return none
      | some errorLoad =>
        match ← deleteDB name with
        | some errorDelete => return some errorDelete
        | none => return some errorLoad

/-- The keys of the map, in its order. -/
def listDBs (m : KVDBManager σ η) : List String := sortedSet m.mapCFHandles.keys

/-! ## Opening and closing -/

/-- The handle of a descriptor goes into the map, that of the default family does not. -/
def register (map : Map String η) (p : String × η) : Map String η :=
  if p.1 = kDefaultColumnFamilyName then map else map.emplace p.1 p.2

/-- The families to open: those listed, and the default one in any case. -/
def cfDescriptors : Status (List String) → List String
  | .ok columnNames =>
    if kDefaultColumnFamilyName ∈ columnNames then columnNames
    else columnNames ++ [kDefaultColumnFamilyName]
  | .error _ => [kDefaultColumnFamilyName]

/-- `initializeMainDB`. `dirs` is what `create_directories` throws, if it does. -/
def initializeMainDB (R : RocksDB σ η) (dirs : Option Throw) : Call (KVDBManager σ η) Unit := do
  if let some e := dirs then
    throw e
  let listStatus ← onRocksDB R.ListColumnFamilies
  match ← onRocksDB (R.DBOpen (cfDescriptors listStatus)) with
  | .error statusOpen =>
    throw (.runtimeError s!"An error occurred while trying to open the database: {statusOpen}")
  | .ok cfHandles =>
    modify fun m => { m with
      pRocksDB := true
      mapCFHandles := ((cfDescriptors listStatus).zip cfHandles).foldl register m.mapCFHandles }

/-- `initialize`. -/
def initializeManager (R : RocksDB σ η) (dirs : Option Throw) : Call (KVDBManager σ η) Unit := do
  if !(← get).isInitialized then
    initializeMainDB R dirs
    modify fun m => { m with isInitialized := true }

/-- `finalizeMainDB`. -/
def finalizeMainDB (R : RocksDB σ η) : Call (KVDBManager σ η) Unit :=
  modify fun m => { m with mapCFHandles := ∅, pRocksDB := false, rocksDB := R.close m.rocksDB }

def finalize (R : RocksDB σ η) : Call (KVDBManager σ η) Unit := do
  if (← get).isInitialized then
    finalizeMainDB R
    modify fun m => { m with isInitialized := false }

end

end DistroDefender.Kvdb
