import DistroDefender.Kvdb.Data

/-!
# Databases behind grants

What the key-value store is for. `Databases` holds contents by name, and grants: a grant is of the
era in which it was given, and an era ends when the store is closed. A call through a grant of the
current era reads and writes the contents under its name; one through an older grant is refused and
changes nothing. `Databases.Step` says what each call may answer and do.

Every run of the manager and its handlers is a run of `Databases` (`databases_refined`): over any
RocksDB that is a persistent set of families, with any of its calls failing, across closings and
openings.
-/

namespace DistroDefender.Kvdb

open Base Lib

structure Databases where
  isOpen : Bool
  /-- How often the store was closed. -/
  era : Nat
  contents : String → Option Contents
  grants : List Grant

namespace Databases

/-- The contents under a name, and none where there is no database. -/
def contentsAt (a : Databases) (name : String) : Contents := (a.contents name).getD fun _ => none

def write (a : Databases) (name : String) (c : Contents) : Databases :=
  { a with contents := Function.update a.contents name (some c) }

def drop (a : Databases) (name : String) : Databases :=
  { a with contents := Function.update a.contents name none }

/-- No grant is for the name. -/
def Unused (a : Databases) (name : String) : Prop := ∀ g ∈ a.grants, g.dbName ≠ name

/-- The grant is one of this era, for the contents `c`. -/
structure Grants (a : Databases) (g : Grant) (c : Contents) : Prop where
  held : g ∈ a.grants
  current : g.era = a.era
  contents : a.contents g.dbName = some c

/-- The grant is one of an era that has ended. -/
structure Expired (a : Databases) (g : Grant) : Prop where
  held : g ∈ a.grants
  ended : g.era ≠ a.era

/-- The database can no longer be accessed. -/
def unavailable : Error := ⟨"Cannot access RocksDB::DB!"⟩

inductive Step (J : Rapidjson) : Databases → DataOp × DataAnswer → Databases → Prop
  | opened {a : Databases} (dirs : Option Throw) (h : a.isOpen = false) :
      Step J a (.setUp dirs, .unit (.ok ())) { a with isOpen := true }
  | notOpened {a : Databases} (dirs : Option Throw) (e : Throw) (h : a.isOpen = false) :
      Step J a (.setUp dirs, .unit (.error e)) a
  | opensAgain {a : Databases} (dirs : Option Throw) (h : a.isOpen = true) :
      Step J a (.setUp dirs, .unit (.ok ())) a
  | closed {a : Databases} (h : a.isOpen = true) :
      Step J a (.finalize, .unit (.ok ())) { a with isOpen := false, era := a.era + 1 }
  | closesAgain {a : Databases} (h : a.isOpen = false) : Step J a (.finalize, .unit (.ok ())) a
  | created {a : Databases} (name : String) (h : a.isOpen = true)
      (hname : name ≠ kDefaultColumnFamilyName) (hnew : a.contents name = none) :
      Step J a (.createDB name, .error (.ok none)) (a.write name fun _ => none)
  | found {a : Databases} (name : String) (h : a.contents name ≠ none) :
      Step J a (.createDB name, .error (.ok none)) a
  | notCreated {a : Databases} (name : String) {r : Except Throw OptError}
      (hnew : a.contents name = none) (hr : r ≠ .ok none) : Step J a (.createDB name, .error r) a
  | loaded {a : Databases} (name path : String) (files : Files) {ms : List (String × Json)}
      (hname : name ≠ kDefaultColumnFamilyName) (hfile : fileMembers J files path = some ms) :
      Step J a (.createDBFromFile name path files, .error (.ok none))
        (a.write name (written (a.contentsAt name) (memberEntries J ms)))
  | notLoaded {a : Databases} (name path : String) (files : Files) {r : Except Throw OptError}
      (hr : r ≠ .ok none) : Step J a (.createDBFromFile name path files, .error r) a
  /-- A write failed, and what was written before it stays. -/
  | partlyLoaded {a : Databases} (name path : String) (files : Files) {ms : List (String × Json)}
      {done rest : List (String × String)} {r : Except Throw OptError}
      (hname : name ≠ kDefaultColumnFamilyName)
      (hfile : fileMembers J files path = some ms) (hentries : memberEntries J ms = done ++ rest)
      (hr : r ≠ .ok none) :
      Step J a (.createDBFromFile name path files, .error r)
        (a.write name (written (a.contentsAt name) done))
  /-- A write failed, and the database was deleted. -/
  | takenBack {a : Databases} (name path : String) (files : Files) {r : Except Throw OptError}
      (hunused : a.Unused name) (hr : r ≠ .ok none) :
      Step J a (.createDBFromFile name path files, .error r) (a.drop name)
  | deleted {a : Databases} (name : String) (h : a.contents name ≠ none) (hunused : a.Unused name) :
      Step J a (.deleteDB name, .error (.ok none)) (a.drop name)
  | notDeleted {a : Databases} (name : String) {r : Except Throw OptError} (hr : r ≠ .ok none) :
      Step J a (.deleteDB name, .error r) a
  | granted {a : Databases} (dbName scopeName : String) (h : a.isOpen = true)
      (hdb : a.contents dbName ≠ none) :
      Step J a (.getKVDBHandler dbName scopeName, .handler (.ok ⟨dbName, scopeName, a.era⟩))
        { a with grants := ⟨dbName, scopeName, a.era⟩ :: a.grants }
  | refused {a : Databases} (dbName scopeName : String)
      (h : a.isOpen = false ∨ a.contents dbName = none) :
      Step J a (.getKVDBHandler dbName scopeName,
        .handler (.error ⟨s!"The DB '{dbName}' does not exist."⟩)) a
  | destroyed {a : Databases} (g : Grant) {before behind : List Grant}
      (h : a.grants = before ++ g :: behind) :
      Step J a (.destroy g, .unit (.ok ())) { a with grants := before ++ behind }
  | set {a : Databases} {g : Grant} {c : Contents} (h : a.Grants g c) (key value : String) :
      Step J a (.set g key value, .error (.ok none))
        (a.write g.dbName (Function.update c key (some value)))
  | notSet {a : Databases} {g : Grant} {c : Contents} (h : a.Grants g c) (key value : String)
      {r : Except Throw OptError} (hr : r ≠ .ok none) : Step J a (.set g key value, .error r) a
  | setExpired {a : Databases} {g : Grant} (h : a.Expired g) (key value : String) :
      Step J a (.set g key value, .error (.ok (some unavailable))) a
  | removed {a : Databases} {g : Grant} {c : Contents} (h : a.Grants g c) (key : String) :
      Step J a (.remove g key, .error (.ok none)) (a.write g.dbName (Function.update c key none))
  | notRemoved {a : Databases} {g : Grant} {c : Contents} (h : a.Grants g c) (key : String)
      {r : Except Throw OptError} (hr : r ≠ .ok none) : Step J a (.remove g key, .error r) a
  | removeExpired {a : Databases} {g : Grant} (h : a.Expired g) (key : String) :
      Step J a (.remove g key, .error (.ok (some unavailable))) a
  | got {a : Databases} {g : Grant} {c : Contents} (h : a.Grants g c) (key : String) :
      Step J a (.get g key, .value (match c key with
        | some value => .ok value
        | none => .error (Handler.KVDBHandler.keyNotFound key))) a
  /-- A read failed. -/
  | notGot {a : Databases} {g : Grant} {c : Contents} (h : a.Grants g c) (key : String)
      (state : Option String) :
      Step J a (.get g key, .value (.error
        ⟨s!"Cannot get key '{key}'. Error: {Handler.KVDBHandler.stateText state}"⟩)) a
  | getExpired {a : Databases} {g : Grant} (h : a.Expired g) (key : String) :
      Step J a (.get g key, .value (.error unavailable)) a
  /-- A key whose value is not in memory, or cannot be read, may be missed. -/
  | contains {a : Databases} {g : Grant} {c : Contents} (h : a.Grants g c) (key : String)
      {found : Bool}
      (hfound : found = true → c key ≠ none) : Step J a (.contains g key, .flag (.ok found)) a
  | notProbed {a : Databases} {g : Grant} {c : Contents} (h : a.Grants g c) (key : String)
      (ex : Throw) :
      Step J a (.contains g key,
        .flag (.error ⟨s!"Cannot validate existence of key {key}. Error: {ex.what}"⟩)) a
  | containsExpired {a : Databases} {g : Grant} (h : a.Expired g) (key : String) :
      Step J a (.contains g key, .flag (.error unavailable)) a
  /-- The entries in key order, between the bounds as they are computed. -/
  | page {a : Databases} {g : Grant} {c : Contents} (h : a.Grants g c)
      (q : Handler.KVDBHandler.Listing)
      (page records : UInt32) {m : Map String String} (hm : ∀ key, m.lookup key = c key) :
      Step J a (.page g q page records, .entries (.ok (window (q.entries m)
        (Handler.KVDBHandler.fromRecords page records).toNat
          (Handler.KVDBHandler.toRecords page records).toNat))) a
  | notListed {a : Databases} {g : Grant} {c : Contents} (h : a.Grants g c)
      (q : Handler.KVDBHandler.Listing) (page records : UInt32) (text : String) :
      Step J a (.page g q page records, .entries (.error
        ⟨s!"Database '{g.dbName}': Could not iterate over database: '{text}'"⟩)) a
  | pageExpired {a : Databases} {g : Grant} (h : a.Expired g) (q : Handler.KVDBHandler.Listing)
      (page records : UInt32) : Step J a (.page g q page records, .entries (.error unavailable)) a

/-- The runs from any databases that are closed. -/
def system (J : Rapidjson) : System Databases (DataOp × DataAnswer) where
  init a := a.isOpen = false ∧ a.era = 0 ∧ a.grants = [] ∧
    a.contents kDefaultColumnFamilyName = none
  step := Step J

end Databases

end DistroDefender.Kvdb
