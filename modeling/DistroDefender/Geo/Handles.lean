import DistroDefender.Geo.Entries
import DistroDefender.Lib.Paired

/-!
# Database handles

The operations of the manager once more, with the calls of `MMDB_open` and `MMDB_close` in the order
they are made (`Use`). The destructor of an entry closes its handle whether or not it was opened, so
a run pairs its calls exactly when no `MMDB_open` of it fails (`Pairing`). Without the events the
operations are those of `Manager` (`follows_exec`, `follows_construct`).
-/

namespace DistroDefender.Geo

open Base Lib Os Store

/-- `geo::Manager` with its handles. A locator holds an entry while it reads from it (`held`, once
for each reader); what is held when the manager lets go of it is an orphan. -/
structure Handles (τ : Type) where
  world : World τ
  /-- The manager was built, and not destroyed yet. -/
  alive : Bool
  held : List Nat
  orphans : List Nat
  events : List (Use Nat)

namespace Handles

variable {τ : Type}

def log (s : Handles τ) (e : Use Nat) : Handles τ := { s with events := e :: s.events }

/-- The manager lets go of an entry: `~DbEntry` closes its handle, unless a locator still holds
it. -/
def drop (s : Handles τ) (id : Nat) : Handles τ :=
  if id ∈ s.held then { s with orphans := id :: s.orphans } else s.log (.closed id)

/-- A call that opens and closes nothing. -/
def onWorld {α : Type} (x : Call (World τ) α) : Call (Handles τ) α :=
  onPart Handles.world (fun w s => { s with world := w }) x

/-! ## The operations -/

section

variable (deps : Deps τ) (o : Outcomes)

/-- `addDbUnsafe`: an entry that is not registered goes at the end of the call. It leaves its number
to the next one. -/
def addDbUnsafe (k : Nat) (path : String) (type : DbType) (upsertStore : Bool) :
    Call (Handles τ) OptError := do
  let s ← get
  match s.world.dbTypes.lookup type with
  | some db => return some ⟨s!"Type '{typeName type}' already has the database '{db}'"⟩
  | none =>
    if (s.world.dbs.lookup (filename path)).isSome then
      return some ⟨s!"Database with name '{filename path}' already exists"⟩
    match Manager.MMDB_open deps o k path s.world with
    | .error status =>
      set ((s.log (.opened s.world.openings false)).log (.closed s.world.openings))
      return some ⟨s!"Cannot add database '{path}': {deps.mmdb.strerror status}"⟩
    | .ok content =>
      set { s.log (.opened s.world.openings true) with
        world := Manager.register s.world path type content }
      if upsertStore then
        let _ ← onWorld (Manager.upsertStoreEntry deps o k path)
      return none

def removeDbUnsafe (path : String) : Call (Handles τ) OptError := do
  let s ← get
  match s.world.dbs.lookup (filename path) with
  | none => return some ⟨s!"Database '{filename path}' not found"⟩
  | some entry =>
    set (drop { s with world := Manager.unregister s.world (filename path) } entry.id)
    onWorld (Manager.removeInternalEntry deps path)

/-- The branch of a registered name: `MMDB_close`, then `MMDB_open` on the same handle. -/
def refreshDb (path content : String) (entry : DbEntry) : Call (Handles τ) OptError := do
  match ← onWorld (Manager.writeDb o path content) with
  | some writeError => return some writeError
  | none =>
    match Manager.MMDB_open deps o 0 path (← get).world with
    | .error status =>
      modify fun s => (s.log (.closed entry.id)).log (.opened entry.id false)
      let _ ← removeDbUnsafe deps path
      return some ⟨s!"Cannot add database '{path}': {deps.mmdb.strerror status}"⟩
    | .ok content =>
      modify fun s => { (s.log (.closed entry.id)).log (.opened entry.id true) with
        world := Manager.reopen s.world (filename path) entry content }
      return none

def newDb (path : String) (type : DbType) (content : String) : Call (Handles τ) OptError := do
  match ← onWorld (Manager.writeDb o path content) with
  | some writeError => return some writeError
  | none => addDbUnsafe deps o 0 path type false

def openDb (path : String) (type : DbType) (content : String) : Call (Handles τ) OptError := do
  match (← get).world.dbs.lookup (filename path) with
  | some entry => refreshDb deps o path content entry
  | none => newDb deps o path type content

def install (path : String) (type : DbType) (content : String) : Call (Handles τ) OptError := do
  match ← openDb deps o path type content with
  | some e => return some e
  | none =>
    let _ ← onWorld (Manager.upsertStoreEntry deps o MAX_RETRIES path)
    return none

def remoteUpsertDb (path : String) (type : DbType) (dbUrl hashUrl : String) :
    Call (Handles τ) OptError := do
  let s ← get
  match Manager.typeConflict s.world (filename path) type with
  | some e => return some e
  | none =>
    match o.downloadMD5 hashUrl with
    | .error e => return some ⟨s!"Cannot download hash from '{hashUrl}': {e.message}"⟩
    | .ok hash =>
      if ← orThrow (Manager.alreadyStored deps s.world (filename path) hash) then
        return none
      match ← orThrow (Manager.attempts o dbUrl hash MAX_RETRIES 0 "" none) with
      | (_, some e) => return some e
      | (content, none) => install deps o path type content

def exec : Op → Call (Handles τ) OptError
  | .addDb path type => addDbUnsafe deps o 0 path type true
  | .removeDb path => removeDbUnsafe deps path
  | .remoteUpsertDb path type dbUrl hashUrl => remoteUpsertDb deps o path type dbUrl hashUrl

def loadDb (db : Name) (k : Nat) : Call (Handles τ) Unit := do
  match deps.store.readInternalDoc db (← get).world.store with
  | .error _ => return
  | .ok doc =>
    let path ← orThrow (Manager.docString deps doc "path" "path")
    let typeStr ← orThrow (Manager.docString deps doc "type" "type")
    let type ← orThrow (typeFromName typeStr)
    match ← addDbUnsafe deps o k path type false with
    | none => return
    | some _ =>
      let _ ← onWorld (onStore (deps.store.deleteInternalDoc db))
      return

/-- `Manager::Manager`. -/
def construct : Call (Handles τ) Unit := do
  let name ← orThrow (Name.ofString INTERNAL_NAME)
  match ← orThrow (deps.store.readInternalCol name (← get).world.store) with
  | .error _ => return
  | .ok dbs => dbs.zipIdx.forM fun db => loadDb deps o db.1 db.2

end

/-- The entry of a name goes with `dbs_`. -/
def forget (s : Handles τ) (name : String) : Handles τ :=
  match s.world.dbs.lookup name with
  | none => s
  | some entry => drop { s with world := Manager.unregister s.world name } entry.id

/-- `~Manager`, or what is left when the constructor throws. -/
def destroy (s : Handles τ) : Handles τ :=
  let s := (sortedSet s.world.dbs.keys).foldl forget s
  { s with world := { s.world with dbs := ∅, dbTypes := ∅ } }

/-- A locator lets go of an entry; the last one closes the handle of an orphan. -/
def release (s : Handles τ) (id : Nat) : Handles τ :=
  let s := { s with held := s.held.erase id }
  if id ∈ s.orphans ∧ id ∉ s.held then
    ({ s with orphans := s.orphans.erase id } : Handles τ).log (.closed id)
  else s

/-- The entry exists: it is registered or an orphan. -/
def Exists (s : Handles τ) (id : Nat) : Prop :=
  (∃ name entry, s.world.dbs.lookup name = some entry ∧ entry.id = id) ∨ id ∈ s.orphans

/-! ## Without the events -/

section World

variable (deps : Deps τ) (o : Outcomes) (s : Handles τ)

@[simp] theorem log_world (e : Use Nat) : (s.log e).world = s.world := rfl

@[simp] theorem drop_world (id : Nat) : (s.drop id).world = s.world := by
  unfold drop
  split <;> rfl

theorem follows_onWorld {α : Type} (x : Call (World τ) α) : Follows world (onWorld x) x s :=
  .onPart (fun _ _ => rfl) x

theorem follows_addDbUnsafe (k : Nat) (path : String) (type : DbType) (upsertStore : Bool) :
    Follows world (addDbUnsafe deps o k path type upsertStore)
      (Manager.addDbUnsafe deps o k path type upsertStore) s := by
  refine .get_bind ?_
  cases htype : s.world.dbTypes.lookup type with
  | some db => exact .pure _
  | none =>
    dsimp only
    split
    · exact .pure _
    · cases hopen : Manager.MMDB_open deps o k path s.world with
      | error status => exact .skip rfl rfl (.pure _)
      | ok content =>
        refine .bind (.set rfl) fun _ s' _ => ?_
        cases upsertStore with
        | false => exact .pure _
        | true => exact .bind (follows_onWorld s' _) fun _ _ _ => .pure _

theorem follows_removeDbUnsafe (path : String) :
    Follows world (removeDbUnsafe deps path) (Manager.removeDbUnsafe deps path) s := by
  refine .get_bind ?_
  cases h : s.world.dbs.lookup (filename path) with
  | none => exact .pure _
  | some entry => exact .bind (.set (drop_world _ _)) fun _ s' _ => follows_onWorld s' _

theorem follows_refreshDb (path content : String) (entry : DbEntry) :
    Follows world (refreshDb deps o path content entry)
      (Manager.refreshDb deps o path content entry) s := by
  refine .bind (follows_onWorld s _) fun writeError s' _ => ?_
  cases writeError with
  | some e => exact .pure _
  | none =>
    refine .get_bind ?_
    cases Manager.MMDB_open deps o 0 path s'.world with
    | error status =>
      exact .skip rfl rfl (.bind (follows_removeDbUnsafe deps _ path) fun _ _ _ => .pure _)
    | ok content => exact .bind (.modify rfl) fun _ _ _ => .pure _

theorem follows_newDb (path : String) (type : DbType) (content : String) :
    Follows world (newDb deps o path type content) (Manager.newDb deps o path type content) s := by
  refine .bind (follows_onWorld s _) fun writeError s' _ => ?_
  cases writeError with
  | some e => exact .pure _
  | none => exact follows_addDbUnsafe deps o s' 0 path type false

theorem follows_openDb (path : String) (type : DbType) (content : String) :
    Follows world (openDb deps o path type content)
      (Manager.openDb deps o path type content) s := by
  refine .get_bind ?_
  cases s.world.dbs.lookup (filename path) with
  | some entry => exact follows_refreshDb deps o s path content entry
  | none => exact follows_newDb deps o s path type content

theorem follows_install (path : String) (type : DbType) (content : String) :
    Follows world (install deps o path type content)
      (Manager.install deps o path type content) s := by
  refine .bind (follows_openDb deps o s path type content) fun error s' _ => ?_
  cases error with
  | some e => exact .pure _
  | none => exact .bind (follows_onWorld s' _) fun _ _ _ => .pure _

theorem follows_remoteUpsertDb (path : String) (type : DbType) (dbUrl hashUrl : String) :
    Follows world (remoteUpsertDb deps o path type dbUrl hashUrl)
      (Manager.remoteUpsertDb deps o path type dbUrl hashUrl) s := by
  refine .get_bind ?_
  cases Manager.typeConflict s.world (filename path) type with
  | some e => exact .pure _
  | none =>
    dsimp only
    cases o.downloadMD5 hashUrl with
    | error e => exact .pure _
    | ok hash =>
      refine .bind (.orThrow _) fun stored s' _ => ?_
      cases stored with
      | true => exact .pure _
      | false =>
        refine .bind (.orThrow _) fun found s' _ => ?_
        obtain ⟨content, error⟩ := found
        cases error with
        | some e => exact .pure _
        | none => exact follows_install deps o s' path type content

/-- Without its events an operation is the operation of the manager. -/
theorem follows_exec (op : Op) : Follows world (exec deps o op) (Geo.exec deps o op) s := by
  cases op with
  | addDb path type => exact follows_addDbUnsafe deps o s 0 path type true
  | removeDb path => exact follows_removeDbUnsafe deps s path
  | remoteUpsertDb path type dbUrl hashUrl =>
    exact follows_remoteUpsertDb deps o s path type dbUrl hashUrl

theorem follows_loadDb (db : Name) (k : Nat) :
    Follows world (loadDb deps o db k) (Manager.loadDb deps o db k) s := by
  refine .get_bind ?_
  cases deps.store.readInternalDoc db s.world.store with
  | error e => exact .pure _
  | ok doc =>
    refine .bind (.orThrow _) fun path s' _ => .bind (.orThrow _) fun typeStr s' _ =>
      .bind (.orThrow _) fun type s' _ =>
        .bind (follows_addDbUnsafe deps o s' k path type false) fun error s' _ => ?_
    cases error with
    | none => exact .pure _
    | some e => exact .bind (follows_onWorld s' _) fun _ _ _ => .pure _

theorem follows_construct : Follows world (construct deps o) (Manager.construct deps o) s := by
  refine .bind (.orThrow _) fun name s' _ => .get_bind (.bind (.orThrow _) fun dbs s' _ => ?_)
  cases dbs with
  | error e => exact .pure _
  | ok dbs => exact .forM _ (fun db s => follows_loadDb deps o s db.1 db.2) s'

end World

end Handles

end DistroDefender.Geo
