import DistroDefender.Kvdb.AllOrNothing
import DistroDefender.Kvdb.Counts
import DistroDefender.Kvdb.Handler
import DistroDefender.Lib.Section

/-!
# The data behind the handlers

The calls of the handlers next to those of the manager. A handler has weak pointers to the database
and to its column family: the one expires when the database is closed, the other when its handle
leaves the map. `Data` keeps the manager, the handlers that are alive, and how often the database
was closed; a `Grant` is what the holder of a handler knows of it.

Every call of RocksDB may fail: a `Get`, a probe of a key and an iterator as well as a write
(`ColumnFamily.Answers`).
-/

namespace DistroDefender.Kvdb

open Base Lib

/-! ## RocksDB with its data -/

/-- The key goes from a family with these contents. -/
def View.del {η : Type} (v : View η) (name : String) (c : Contents) (key : String) : View η :=
  { v with families := Function.update v.families name (some (Function.update c key none)) }

namespace Handler

/-- An iterator through the entries that ends with the status. -/
def Iter.upTo (status : Status Unit) : List (String × String) → Iter
  | [] => .done status
  | (key, value) :: rest => .entry key value (upTo status rest)

/-- RocksDB answers for a family with the contents `c`, but each read may fail: a `Get` with a
status, a probe with a throw, and an iterator before it is through. -/
structure ColumnFamily.Answers (cf : ColumnFamily) (c : Map String String) : Prop where
  get : ∀ key, (∃ state, cf.Get key = .failed state) ∨
    cf.Get key = match c.lookup key with
      | some value => .ok value
      | none => .notFound
  mayExist : ∀ key, (∃ ex, cf.KeyMayExist key = .error ex) ∨
    ∃ may found, cf.KeyMayExist key = .ok (may, found) ∧ (may = false → c.lookup key = none)
  iterator : ∃ seen rest status, inKeyOrder c = seen ++ rest ∧ cf.NewIterator = .upTo status seen ∧
    (rest = [] ∧ status = .ok () ∨ ∃ text, status = .error text)

theorem Iter.upTo_ok (l : List (String × String)) : Iter.upTo (.ok ()) l = .through l := by
  induction l with
  | nil => rfl
  | cons e l ih => exact congrArg (Iter.entry e.1 e.2) ih

/-- Reads that do not fail. -/
theorem ColumnFamily.Holds.answers {cf : ColumnFamily} {c : Map String String} (h : cf.Holds c) :
    cf.Answers c where
  get key := .inr (h.get key)
  mayExist key := .inr (h.mayExist key)
  iterator := ⟨inKeyOrder c, [], .ok (), (List.append_nil _).symm,
    h.iterator.trans (Iter.upTo_ok _).symm, .inl ⟨rfl, rfl⟩⟩

namespace KVDBHandler

/-- The loop meets the failure of its iterator, or never gets there. -/
theorem pageLoop_upTo (filter : String → Bool) (start stop i : UInt32)
    (seen : List (String × String)) {rest : List (String × String)} {status : Status Unit}
    (h : rest = [] ∧ status = .ok () ∨ ∃ text, status = .error text) :
    (∃ text, (pageLoop filter start stop i (.upTo status seen)).2 = .error text) ∨
      pageLoop filter start stop i (.upTo status seen) =
        pageLoop filter start stop i (.through (seen ++ rest)) := by
  induction seen generalizing i with
  | nil =>
    rcases h with ⟨rfl, rfl⟩ | ⟨text, rfl⟩
    · exact .inr rfl
    · exact .inl ⟨text, rfl⟩
  | cons e seen ih =>
    obtain ⟨key, value⟩ := e
    simp only [Iter.upTo, Iter.through, List.cons_append, pageLoop]
    by_cases hstop : i < stop
    · by_cases hkey : filter key = true
      · simp only [if_pos hstop, if_pos hkey]
        rcases ih (i + 1) with ⟨text, htext⟩ | hloop
        · refine .inl ⟨text, ?_⟩
          split <;> exact htext
        · rw [hloop]
          exact .inr rfl
      · simp only [if_pos hstop, if_neg hkey]
        exact ih i
    · refine .inr ?_
      simp only [if_neg hstop]

/-- A page is read as from a family that does not fail, or the iteration fails. -/
theorem Listing.page_answers (q : Listing) {h : KVDBHandler} (hl : h.Live) {cf : ColumnFamily}
    {c : Map String String} (hcf : cf.Answers c) (page records : UInt32) :
    (∃ text : String, q.page h cf page records =
      .error ⟨s!"Database '{h.dbName}': Could not iterate over database: '{text}'"⟩) ∨
      q.page h cf page records = .ok (window (q.entries c) (fromRecords page records).toNat
        (toRecords page records).toNat) := by
  have hcontent : ∀ filter : Option (String → Bool),
      (∃ text : String, h.pageContent cf page records filter =
        .error ⟨s!"Database '{h.dbName}': Could not iterate over database: '{text}'"⟩) ∨
        h.pageContent cf page records filter =
          h.pageContent (family c true) page records filter := by
    intro filter
    obtain ⟨seen, rest, status, hentries, hiter, hend⟩ := hcf.iterator
    have hthrough : (family c true).NewIterator = .through (seen ++ rest) := by
      rw [← hentries]
      rfl
    unfold pageContent
    rw [locked_of_live hl, locked_of_live hl, hiter, hthrough]
    rcases pageLoop_upTo (filter.getD fun _ => true) (fromRecords page records)
      (toRecords page records) 0 seen hend with ⟨text, htext⟩ | hloop
    · refine .inl ⟨text, ?_⟩
      simp only [htext]
    · rw [hloop]
      exact .inr rfl
  have hexact := (q.page_eq h (family_holds c true) page records).trans (locked_of_live hl _)
  rw [← hexact]
  cases q with
  | dump => exact hcontent none
  | search keyPrefix => exact hcontent _

end KVDBHandler

end Handler

/-- A persistent set of column families whose keys can be deleted, and whose reads are exact unless
they fail. -/
structure DataStore (σ η : Type) [DecidableEq η] extends FamilyStore σ η where
  Delete : η → String → Call σ (Status Unit)
  /-- What the reads of a family may answer. -/
  reads : σ → η → Handler.ColumnFamily → Prop
  /-- `getState()` of the status with this text. -/
  getState : String → Option String
  delete_does : ∀ s h key, Does view s ((Delete h key).run s) fun _ v =>
    ∃ name c, (view s).ref h = .names name ∧ (view s).families name = some c ∧
      v = (view s).del name c key
  reads_answer : ∀ s h cf name c, reads s h cf → (view s).ref h = .names name →
    (view s).families name = some c →
    ∃ m : Map String String, (∀ key, m.lookup key = c key) ∧ cf.Answers m

/-- The deletion of a key, beside `memRocksDB`. -/
def MemRocks.Delete (h : Nat) (key : String) (s : MemRocks) : Status (Unit × MemRocks) :=
  match s.ref h with
  | .names name =>
    match s.families.lookup name with
    | some c => .ok ((), s.setFamily name (c.erase key))
    | none => .error "Invalid argument: Invalid column family specified in write batch"
  | _ => .error "Invalid argument: Invalid column family specified in write batch"

/-- The contents of the family of a handle. -/
def MemRocks.contents (s : MemRocks) (h : Nat) : Map String String :=
  match s.ref h with
  | .names name => (s.families.lookup name).getD ∅
  | _ => ∅

/-- RocksDB in memory, whose reads may fail; its statuses have no state. -/
def memDataStore : DataStore MemRocks Nat where
  toFamilyStore := memRocksDB
  Delete h key := MemRocks.scripted (MemRocks.Delete h key)
  reads s h cf := cf.Answers (s.contents h)
  getState _ := none
  delete_does s h key := by
    apply MemRocks.scripted_does
    intro u s' hact
    unfold MemRocks.Delete at hact
    split at hact
    · rename_i name href
      split at hact
      · rename_i c hc
        cases hact
        refine ⟨name, fun k => c.lookup k, href, ?_, ?_⟩
        · show (s.families.lookup name).map _ = _
          rw [hc]
          rfl
        · show (s.setFamily name (c.erase key)).view = _
          rw [MemRocks.view_setFamily]
          refine View.ext (congrArg (fun c => Function.update s.view.families name (some c)) ?_) rfl
          funext k
          rw [Map.lookup_erase_eq, Function.update_apply]
      · cases hact
    · cases hact
  reads_answer s h cf name c hcf href hc := by
    obtain ⟨m, hm, rfl⟩ := Option.map_eq_some_iff.mp (hc : (s.families.lookup name).map _ = some c)
    have hcontents : s.contents h = m := by
      unfold MemRocks.contents
      rw [show s.ref h = .names name from href]
      simp only [hm, Option.getD_some]
    rw [hcontents] at hcf
    exact ⟨m, fun _ => rfl, hcf⟩

/-! ## Handlers -/

/-- A handler as its holder knows it, with how often the database had been closed when it was
obtained. -/
structure Grant where
  dbName : String
  scopeName : String
  era : Nat
  deriving DecidableEq, Repr

/-- A live handler. -/
structure Held (η : Type) where
  handler : KVDBHandler η
  era : Nat

def Held.grant {η : Type} (x : Held η) : Grant := ⟨x.handler.dbName, x.handler.scopeName, x.era⟩

/-- A manager with its live handlers; `era` counts how often the database was closed. -/
structure Data (σ η : Type) where
  manager : KVDBManager σ η
  era : Nat
  live : List (Held η)

namespace Data

variable {σ η : Type}

/-- The session of the manager. -/
def session (s : Data σ η) : Session σ η := ⟨s.manager, s.live.map Held.handler⟩

/-- What the weak pointers of a handler give. -/
def locks [DecidableEq η] (s : Data σ η) (x : Held η) : Handler.KVDBHandler where
  weakDB := x.era = s.era
  weakCFHandle := s.manager.mapCFHandles.keys.any fun n =>
    s.manager.mapCFHandles.lookup n = some x.handler.weakCFHandle
  dbName := x.handler.dbName

/-- A call of RocksDB. -/
def onRocksDB {α : Type} (x : Call σ α) : Call (Data σ η) α :=
  onPart (fun s => s.manager.rocksDB)
    (fun t s => { s with manager := { s.manager with rocksDB := t } }) x

variable [DecidableEq η] (D : DataStore σ η) (x : Held η)

/-- A write: the two pointers are locked, and a status that is no success is reported. -/
def writing (x : Held η) (call : η → Call σ (Status Unit)) (report : String → Error) :
    Call (Data σ η) OptError := do
  let h := (← get).locks x
  if !h.weakDB then
    return some ⟨"Cannot access RocksDB::DB!"⟩
  if !h.weakCFHandle then
    return some ⟨"Cannot access RocksDB Column Family Handle!"⟩
  match ← onRocksDB (call x.handler.weakCFHandle) with
  | .error status => return some (report (Handler.KVDBHandler.stateText (D.getState status)))
  | .ok () => return none

def set (key value : String) : Call (Data σ η) OptError :=
  writing D x (fun pCFHandle => D.Put pCFHandle key value) fun error =>
    ⟨s!"Cannot save value '{value}' in key '{key}'. Error: {error}"⟩

def remove (key : String) : Call (Data σ η) OptError :=
  writing D x (fun pCFHandle => D.Delete pCFHandle key) fun error =>
    ⟨s!"Cannot remove key '{key}'. Error: {error}"⟩

/-- What RocksDB may answer about the family of the handler, where the handler can be locked. -/
def Reads (s : Data σ η) (cf : Handler.ColumnFamily) : Prop :=
  (s.locks x).Live → D.reads s.manager.rocksDB x.handler.weakCFHandle cf

end Data

/-! ## Runs -/

/-- The calls of a manager and of its handlers. `add` sets the empty value. -/
inductive DataOp where
  | setUp (dirs : Option Throw)
  | finalize
  | createDB (name : String)
  | createDBFromFile (name path : String) (files : Files)
  | deleteDB (name : String)
  | getKVDBHandler (dbName scopeName : String)
  | destroy (g : Grant)
  | set (g : Grant) (key value : String)
  | remove (g : Grant) (key : String)
  | get (g : Grant) (key : String)
  | contains (g : Grant) (key : String)
  | page (g : Grant) (q : Handler.KVDBHandler.Listing) (page records : UInt32)

/-- What a call answers, if it does not throw. -/
inductive DataAnswer where
  | unit (r : Except Throw Unit)
  | error (r : Except Throw OptError)
  | handler (r : RespOrError Grant)
  | value (r : RespOrError String)
  | flag (r : RespOrError Bool)
  | entries (r : RespOrError (List (String × String)))

section Steps

variable {σ η : Type} [DecidableEq η]

/-- A creation is no step when `pRocksDB_` is null, which it would dereference. -/
inductive DataStep (D : DataStore σ η) (J : Rapidjson) : Data σ η → DataOp × DataAnswer →
    Data σ η → Prop
  | setUp {m : KVDBManager σ η} {era : Nat} {live : List (Held η)} (dirs : Option Throw) :
      DataStep D J ⟨m, era, live⟩
        (.setUp dirs, .unit (answer ((initializeManager D.toRocksDB dirs).run m)))
        ⟨resultState ((initializeManager D.toRocksDB dirs).run m), era, live⟩
  | finalize {m : KVDBManager σ η} {era : Nat} {live : List (Held η)} :
      DataStep D J ⟨m, era, live⟩ (.finalize, .unit (answer ((finalize D.toRocksDB).run m)))
        ⟨resultState ((finalize D.toRocksDB).run m), if m.isInitialized then era + 1 else era, live⟩
  | createDB {m : KVDBManager σ η} {era : Nat} {live : List (Held η)} (name : String)
      (h : m.pRocksDB = true) : DataStep D J ⟨m, era, live⟩
        (.createDB name, .error (answer (runOp D.toRocksDB noFiles (createDB name) m)))
        ⟨after D.toRocksDB noFiles (createDB name) m, era, live⟩
  | createDBFromFile {m : KVDBManager σ η} {era : Nat} {live : List (Held η)} (name path : String)
      (files : Files) (h : m.pRocksDB = true) :
      DataStep D J ⟨m, era, live⟩ (.createDBFromFile name path files,
          .error (answer (runOp D.toRocksDB files (createDBFromFile J name path) m)))
        ⟨after D.toRocksDB files (createDBFromFile J name path) m, era, live⟩
  | deleteDB {m : KVDBManager σ η} {era : Nat} {live : List (Held η)} (name : String) :
      DataStep D J ⟨m, era, live⟩
        (.deleteDB name, .error (answer (runOp D.toRocksDB noFiles (deleteDB name) m)))
        ⟨after D.toRocksDB noFiles (deleteDB name) m, era, live⟩
  | obtained {m m' : KVDBManager σ η} {era : Nat} {live : List (Held η)} {dbName scopeName : String}
      {h : KVDBHandler η}
      (hrun : runOp D.toRocksDB noFiles (getKVDBHandler dbName scopeName) m = .ok (.ok h) m') :
      DataStep D J ⟨m, era, live⟩ (.getKVDBHandler dbName scopeName,
        .handler (.ok (Held.grant ⟨h, era⟩))) ⟨m', era, ⟨h, era⟩ :: live⟩
  | refused {m m' : KVDBManager σ η} {era : Nat} {live : List (Held η)} {dbName scopeName : String}
      {e : Error}
      (hrun : runOp D.toRocksDB noFiles (getKVDBHandler dbName scopeName) m = .ok (.error e) m') :
      DataStep D J ⟨m, era, live⟩ (.getKVDBHandler dbName scopeName, .handler (.error e))
        ⟨m', era, live⟩
  | destroy {m : KVDBManager σ η} {era : Nat} {before behind : List (Held η)} (x : Held η) :
      DataStep D J ⟨m, era, before ++ x :: behind⟩ (.destroy x.grant, .unit (.ok ()))
        ⟨after D.toRocksDB noFiles (destroy x.handler) m, era, before ++ behind⟩
  | set {s : Data σ η} {x : Held η} (hx : x ∈ s.live) (key value : String) :
      DataStep D J s (.set x.grant key value, .error (answer ((Data.set D x key value).run s)))
        (resultState ((Data.set D x key value).run s))
  | remove {s : Data σ η} {x : Held η} (hx : x ∈ s.live) (key : String) :
      DataStep D J s (.remove x.grant key, .error (answer ((Data.remove D x key).run s)))
        (resultState ((Data.remove D x key).run s))
  | get {s : Data σ η} {x : Held η} {cf : Handler.ColumnFamily} (hx : x ∈ s.live)
      (hcf : Data.Reads D x s cf) (key : String) :
      DataStep D J s (.get x.grant key, .value ((s.locks x).get cf key)) s
  | contains {s : Data σ η} {x : Held η} {cf : Handler.ColumnFamily} (hx : x ∈ s.live)
      (hcf : Data.Reads D x s cf) (key : String) :
      DataStep D J s (.contains x.grant key, .flag ((s.locks x).contains cf key)) s
  | page {s : Data σ η} {x : Held η} {cf : Handler.ColumnFamily} (hx : x ∈ s.live)
      (hcf : Data.Reads D x s cf) (q : Handler.KVDBHandler.Listing) (page records : UInt32) :
      DataStep D J s (.page x.grant q page records, .entries (q.page (s.locks x) cf page records)) s

/-- The runs from a manager that was not initialized yet, over any storage. -/
def dataRuns (D : DataStore σ η) (J : Rapidjson) : System (Data σ η) (DataOp × DataAnswer) where
  init s := ∃ storage, s = ⟨.new storage, 0, []⟩
  step := DataStep D J

/-- A handler is obtained only below 2³² live ones. -/
def FewHandlers (s : Data σ η) (l : DataOp × DataAnswer) : Prop :=
  ∀ db scope, l.1 = .getKVDBHandler db scope → s.live.length + 1 < UInt32.size

end Steps

end DistroDefender.Kvdb
