import DistroDefender.Geo.Locator
import DistroDefender.Lib.Map
import DistroDefender.Os.Path
import DistroDefender.Store.Store

/-!
# The manager of the geo databases

`geo::Manager` registers databases by file name (`dbs`) and by type (`dbTypes`). Its state is kept
together with what its operations read and write outside: the store of internal documents and the
files at paths. How the calls of one operation to the downloader, to the file system and to
libmaxminddb go is part of its `Outcomes`; the store is anything behind `IStoreInternal`.
-/

namespace DistroDefender.Geo

open Base Lib Os Store

def MAX_RETRIES : Nat := 3

def INTERNAL_NAME : String := "geo"

/-- `store::IStoreInternal`, over the state `τ` of the store. -/
structure IStoreInternal (τ : Type) where
  readInternalCol : Name → τ → Except Throw (RespOrError Col)
  readInternalDoc : Name → τ → RespOrError Doc
  upsertInternalDoc : Name → Doc → Call τ OptError
  deleteInternalDoc : Name → Call τ OptError

/-- The store over a driver. -/
def IStoreInternal.ofStore {σ : Type} (d : IDriver σ) : IStoreInternal (Store σ) where
  readInternalCol name s := Store.readInternalCol d s name
  readInternalDoc name s := Store.readInternalDoc d s name
  upsertInternalDoc := Store.upsertInternalDoc d
  deleteInternalDoc := Store.deleteInternalDoc d

/-- What a manager is built with: the store, libmaxminddb, and `toStrPretty`. -/
structure Deps (τ : Type) where
  store : IStoreInternal τ
  mmdb : Maxminddb
  toStrPretty : Json → String

/-- How the calls of one operation go. -/
structure Outcomes where
  downloadMD5 : String → RespOrError String
  /-- The download of the `i`-th attempt. -/
  downloadHTTPS : Nat → String → RespOrError String
  /-- The hash of the `i`-th attempt; `MAX_RETRIES` is the one of the store entry. -/
  computeMD5 : Nat → String → RespOrError String
  /-- What `create_directories` throws. -/
  createDirectories : Option Throw
  /-- The file can be opened for writing. -/
  openWrite : Bool
  /-- How many characters a write stores, when not all of them. -/
  shortWrite : Option Nat
  /-- The file can be opened for reading. -/
  openRead : Bool
  /-- The failure of the `k`-th `MMDB_open`, whatever the file holds. -/
  mmdbOpen : Nat → Option Int

/-- What a write of `content` stores. -/
def Outcomes.stored (o : Outcomes) (content : String) : String :=
  match o.shortWrite with
  | none => content
  | some k => String.ofList (content.toList.take k)

/-- `geo::Manager` with the store and the files. `openings` counts the databases opened. -/
structure World (τ : Type) where
  dbs : Map String DbEntry
  dbTypes : Map DbType String
  store : τ
  /-- What the file at a path holds. Paths have no NUL, which the handlers of the API cut them at,
  and a file is reached by one path: links are not modelled. -/
  files : Path → Option String
  openings : Nat

structure DbInfo where
  name : String
  path : String
  type : DbType
  deriving DecidableEq

variable {τ : Type}

/-- A call of the store. -/
def onStore {α : Type} (x : Call τ α) : Call (World τ) α :=
  onPart World.store (fun t w => { w with store := t }) x

namespace Manager

variable (deps : Deps τ) (o : Outcomes)

/-- `MMDB_open` in its `k`-th call: the content opened, or the status. -/
def MMDB_open (k : Nat) (path : String) (w : World τ) : Except Int String :=
  match o.mmdbOpen k with
  | some status => .error status
  | none =>
    match w.files path with
    | none => .error MMDB_FILE_OPEN_ERROR
    | some content =>
      if deps.mmdb.status content = MMDB_SUCCESS then .ok content
      else .error (deps.mmdb.status content)

/-- The document `upsertStoreEntry` writes. -/
def entryDoc (path hash : String) (type : DbType) : Doc :=
  ((Json.null.set ["path"] (.str path)).set ["hash"] (.str hash)).set
    ["type"] (.str (typeName type))

/-- `upsertStoreEntry`; `k` numbers its call of `computeMD5`. -/
def upsertStoreEntry (k : Nat) (path : String) : Call (World τ) OptError := do
  let w ← get
  match (if o.openRead then w.files path else none) with
  | none => return some ⟨s!"Cannot open file '{path}'"⟩
  | some content =>
    match o.computeMD5 k content with
    | .error hashError => return some ⟨s!"Error computing MD5 hash: {hashError.message}"⟩
    | .ok hash =>
      let internalName ← orThrow (Name.ofParts [INTERNAL_NAME, filename path])
      match w.dbs.lookup (filename path) with
      | none => throw .outOfRange
      | some entry =>
        onStore (deps.store.upsertInternalDoc internalName (entryDoc path hash entry.type))

/-- The name of the internal document of a database. -/
def internalName (name : String) : Except Throw Name :=
  Name.ofString s!"{INTERNAL_NAME}{SEPARATOR_S}{name}"

def removeInternalEntry (path : String) : Call (World τ) OptError := do
  let name ← orThrow (internalName (filename path))
  onStore (deps.store.deleteInternalDoc name)

/-- A new database under a name and a type. -/
def register (w : World τ) (path : String) (type : DbType) (content : String) : World τ :=
  { w with
    dbs := w.dbs.insert (filename path) ⟨w.openings, path, type, w.openings, content⟩
    dbTypes := w.dbTypes.insert type (filename path)
    openings := w.openings + 1 }

/-- `addDbUnsafe`; `k` numbers its call of `MMDB_open`. -/
def addDbUnsafe (k : Nat) (path : String) (type : DbType) (upsertStore : Bool) :
    Call (World τ) OptError := do
  let w ← get
  match w.dbTypes.lookup type with
  | some db => return some ⟨s!"Type '{typeName type}' already has the database '{db}'"⟩
  | none =>
    if (w.dbs.lookup (filename path)).isSome then
      return some ⟨s!"Database with name '{filename path}' already exists"⟩
    match MMDB_open deps o k path w with
    | .error status =>
      return some ⟨s!"Cannot add database '{path}': {deps.mmdb.strerror status}"⟩
    | .ok content =>
      set (register w path type content)
      if upsertStore then
        let _ ← upsertStoreEntry deps o k path
      return none

/-- The first type, in their order, whose database is `name`. -/
def typeOf (dbTypes : Map DbType String) (name : String) : Option DbType :=
  [DbType.CITY, DbType.ASN].find? fun type => dbTypes.lookup type = some name

/-- The maps without the database `name`. -/
def unregister (w : World τ) (name : String) : World τ :=
  { w with
    dbs := w.dbs.erase name
    dbTypes := match typeOf w.dbTypes name with
      | some type => w.dbTypes.erase type
      | none => w.dbTypes }

def removeDbUnsafe (path : String) : Call (World τ) OptError := do
  let w ← get
  match w.dbs.lookup (filename path) with
  | none => return some ⟨s!"Database '{filename path}' not found"⟩
  | some _ =>
    set (unregister w (filename path))
    removeInternalEntry deps path

/-- The files after `content` was written at `path`. -/
def wrote (w : World τ) (path content : String) : World τ :=
  { w with files := Function.update w.files path (some (o.stored content)) }

/-- `writeDb`. A path without a file name cannot be opened for writing; the state of the stream
after the write is not looked at. -/
def writeDb (path content : String) : Call (World τ) OptError := do
  match o.createDirectories with
  | some e => return some ⟨s!"Cannot create directories for '{path}': {e.what}"⟩
  | none =>
    if !o.openWrite ∨ filename path = "" then
      return some ⟨s!"Cannot open file '{path}'"⟩
    modify fun w => wrote o w path content
    return none

def addDb (path : String) (type : DbType) : Call (World τ) OptError :=
  addDbUnsafe deps o 0 path type true

def removeDb (path : String) : Call (World τ) OptError := removeDbUnsafe deps path

/-! ## The remote upsert -/

/-- The first check of `remoteUpsertDb`: the type has a database of another name. -/
def typeConflict (w : World τ) (name : String) (type : DbType) : OptError :=
  match w.dbTypes.lookup type with
  | none => none
  | some db =>
    if db ≠ name then
      some ⟨s!"The name '{name}' does not correspond to any databse for type '{typeName type}' " ++
        "If you want it to correspond, please delete the existing databse " ++
        "and recreate it with this name."⟩
    else none

/-- The second check: the database is registered and stored with this hash. -/
def alreadyStored (w : World τ) (name hash : String) : Except Throw Bool :=
  match w.dbs.lookup name with
  | none => .ok false
  | some _ => do
    match deps.store.readInternalDoc (← internalName name) w.store with
    | .error _ => return false
    | .ok doc =>
      let storedHash ← value (doc.getString ["hash"])
      return decide (storedHash = hash)

/-- The loop over the attempts: `n` are left, the next one is number `i`. -/
def attempts (dbUrl hash : String) : Nat → Nat → String → OptError →
    Except Throw (String × OptError)
  | 0, _, content, error => .ok (content, error)
  | n + 1, i, content, error =>
    match o.downloadHTTPS i dbUrl with
    | .error e =>
      attempts dbUrl hash n (i + 1) content
        (some ⟨s!"Cannot download database from '{dbUrl}': {e.message}"⟩)
    | .ok content => do
      let computedHashResp := o.computeMD5 i content
      let error := match computedHashResp with
        | .error e =>
          some ⟨s!"Cannot compute hash from database downloaded at '{dbUrl}' : {e.message}"⟩
        | .ok _ => error
      -- there is no `continue` after the error
      let computedHash ← getResponse computedHashResp
      if computedHash = hash then return (content, none)
      else attempts dbUrl hash n (i + 1) content error

/-- The database under `name` opened again, with another content. -/
def reopen (w : World τ) (name : String) (entry : DbEntry) (content : String) : World τ :=
  { w with
    dbs := w.dbs.insert name { entry with opening := w.openings, content }
    openings := w.openings + 1 }

/-- The branch of a registered name: the file is written and the database opened again. -/
def refreshDb (path content : String) (entry : DbEntry) : Call (World τ) OptError := do
  match ← writeDb o path content with
  | some writeError => return some writeError
  | none =>
    match MMDB_open deps o 0 path (← get) with
    | .error status =>
      let _ ← removeDbUnsafe deps path
      return some ⟨s!"Cannot add database '{path}': {deps.mmdb.strerror status}"⟩
    | .ok content =>
      modify fun w => reopen w (filename path) entry content
      return none

/-- The branch of a new name: the file is written and the database added. -/
def newDb (path : String) (type : DbType) (content : String) : Call (World τ) OptError := do
  match ← writeDb o path content with
  | some writeError => return some writeError
  | none => addDbUnsafe deps o 0 path type false

/-- The content is written, and the database opened again or added. -/
def openDb (path : String) (type : DbType) (content : String) : Call (World τ) OptError := do
  match (← get).dbs.lookup (filename path) with
  | some entry => refreshDb deps o path content entry
  | none => newDb deps o path type content

/-- What `remoteUpsertDb` does with the content it downloaded. -/
def install (path : String) (type : DbType) (content : String) : Call (World τ) OptError := do
  match ← openDb deps o path type content with
  | some e => return some e
  | none =>
    let _ ← upsertStoreEntry deps o MAX_RETRIES path
    return none

def remoteUpsertDb (path : String) (type : DbType) (dbUrl hashUrl : String) :
    Call (World τ) OptError := do
  let w ← get
  match typeConflict w (filename path) type with
  | some e => return some e
  | none =>
    match o.downloadMD5 hashUrl with
    | .error e => return some ⟨s!"Cannot download hash from '{hashUrl}': {e.message}"⟩
    | .ok hash =>
      if ← orThrow (alreadyStored deps w (filename path) hash) then
        return none
      match ← orThrow (attempts o dbUrl hash MAX_RETRIES 0 "" none) with
      | (_, some e) => return some e
      | (content, none) => install deps o path type content

/-! ## Reads -/

/-- `getLocator`; `memory` is what the new locator finds in memory. -/
def getLocator (w : World τ) (type : DbType) (memory : LookupResult) :
    Except Throw (RespOrError Locator) :=
  match w.dbTypes.lookup type with
  | none => .ok (.error ⟨s!"Type '{typeName type}' does not have a database"⟩)
  | some name =>
    match w.dbs.lookup name with
    | none => .error .outOfRange
    | some entry => .ok (.ok (Locator.new entry memory))

/-- `listDbs`, in the order of the names. -/
def listDbs (w : World τ) : List DbInfo :=
  (sortedSet w.dbs.keys).filterMap fun name =>
    (w.dbs.lookup name).map fun entry => ⟨name, entry.path, entry.type⟩

/-! ## Construction -/

/-- A string of a stored document, as the constructor reads it. -/
def docString (doc : Doc) (what path : String) : Except Throw String :=
  match value (doc.getString [path]) with
  | .ok s => .ok s
  | .error e => .error (.runtimeError
      (s!"Could not get {what} from document at '/{path}': {e.what}\n" ++
        s!"Document: {deps.toStrPretty doc}"))

/-- One turn of the constructor: the `k`-th document of the collection. -/
def loadDb (db : Name) (k : Nat) : Call (World τ) Unit := do
  match deps.store.readInternalDoc db (← get).store with
  | .error _ => return
  | .ok doc =>
    let path ← orThrow (docString deps doc "path" "path")
    let typeStr ← orThrow (docString deps doc "type" "type")
    let type ← orThrow (typeFromName typeStr)
    match ← addDbUnsafe deps o k path type false with
    | none => return
    | some _ =>
      let _ ← onStore (deps.store.deleteInternalDoc db)
      return

/-- `Manager::Manager`. -/
def construct : Call (World τ) Unit := do
  let name ← orThrow (Name.ofString INTERNAL_NAME)
  match ← orThrow (deps.store.readInternalCol name (← get).store) with
  | .error _ => return
  | .ok dbs => dbs.zipIdx.forM fun db => loadDb deps o db.1 db.2

/-! ## What writing does -/

/-- `writeDb` writes. -/
def Writable (o : Outcomes) (path : String) : Prop :=
  o.createDirectories = none ∧ o.openWrite = true ∧ filename path ≠ ""

variable {o} in
theorem run_writeDb (w : World τ) (path content : String) :
    (Writable o path ∧ (writeDb o path content).run w = .ok none (wrote o w path content)) ∨
    (¬ Writable o path ∧ ∃ e, (writeDb o path content).run w = .ok (some e) w) := by
  unfold Writable writeDb
  cases hdirs : o.createDirectories with
  | some e => exact .inr ⟨(fun h => by cases h.1), _, rfl⟩
  | none =>
    by_cases hopen : (!o.openWrite) = true ∨ filename path = ""
    · refine .inr ⟨fun h => ?_, ⟨s!"Cannot open file '{path}'"⟩, ?_⟩
      · simp [h.2.1, h.2.2] at hopen
      · simp only [if_pos hopen]
        rfl
    · refine .inl ⟨?_, ?_⟩
      · simpa using hopen
      · simp only [if_neg hopen]
        rfl

end Manager

/-- Before the constructor. -/
def World.start (store : τ) (files : Path → Option String) : World τ := ⟨∅, ∅, store, files, 0⟩

end DistroDefender.Geo
