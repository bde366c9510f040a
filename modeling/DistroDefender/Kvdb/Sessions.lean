import DistroDefender.Kvdb.Manager
import DistroDefender.Kvdb.MemRocksDB
import DistroDefender.Lib.Transition

/-!
# Runs of the manager

A session is a manager with the handlers that are alive: those `getKVDBHandler` returned and that
were not destroyed since. Its steps are whole operations, one after the other, in any order. A
creation is no step when `pRocksDB_` is null, which it would dereference.
-/

namespace DistroDefender.Kvdb

open Base Lib

/-- The operations; `dirs` and `files` say how the file system answers. -/
inductive Op (η : Type) where
  | setUp (dirs : Option Throw)
  | finalize
  | createDB (name : String)
  | createDBFromFile (name path : String) (files : Files)
  | deleteDB (name : String)
  | getKVDBHandler (dbName scopeName : String)
  | destroy (h : KVDBHandler η)

structure Session (σ η : Type) where
  manager : KVDBManager σ η
  live : List (KVDBHandler η)

/-- A manager that was not initialized yet. -/
def KVDBManager.new {σ η : Type} (s : σ) : KVDBManager σ η := ⟨∅, .empty, false, false, s⟩

/-- No text is JSON; for runs that parse none. -/
def noJson : Rapidjson :=
  ⟨fun _ => .error ⟨"Parse error at offset 0: The document is empty."⟩, fun _ => ""⟩

/-- No file can be opened; for the operations that open none. -/
def noFiles : Files := fun _ => .ok none

section

variable {σ η α : Type}

/-- An operation run on its own. -/
def runOp (R : RocksDB σ η) (files : Files) (p : KvdbM η α) (m : KVDBManager σ η) :
    EStateM.Result Throw (KVDBManager σ η) α :=
  (p.run (handle R files)).run m

/-- The manager an operation leaves. -/
def after (R : RocksDB σ η) (files : Files) (p : KvdbM η α) (m : KVDBManager σ η) :
    KVDBManager σ η :=
  resultState (runOp R files p m)

inductive Step (R : RocksDB σ η) (J : Rapidjson) : Session σ η → Op η → Session σ η → Prop
  | setUp {m : KVDBManager σ η} {live : List (KVDBHandler η)} (dirs : Option Throw) :
      Step R J ⟨m, live⟩ (.setUp dirs) ⟨resultState ((initializeManager R dirs).run m), live⟩
  | finalize {m : KVDBManager σ η} {live : List (KVDBHandler η)} :
      Step R J ⟨m, live⟩ .finalize ⟨resultState ((finalize R).run m), live⟩
  | createDB {m : KVDBManager σ η} {live : List (KVDBHandler η)} (name : String)
      (h : m.pRocksDB = true) :
      Step R J ⟨m, live⟩ (.createDB name) ⟨after R noFiles (createDB name) m, live⟩
  | createDBFromFile {m : KVDBManager σ η} {live : List (KVDBHandler η)} (name path : String)
      (files : Files) (h : m.pRocksDB = true) :
      Step R J ⟨m, live⟩ (.createDBFromFile name path files)
        ⟨after R files (createDBFromFile J name path) m, live⟩
  | deleteDB {m : KVDBManager σ η} {live : List (KVDBHandler η)} (name : String) :
      Step R J ⟨m, live⟩ (.deleteDB name) ⟨after R noFiles (deleteDB name) m, live⟩
  | obtained {m m' : KVDBManager σ η} {live : List (KVDBHandler η)} {dbName scopeName : String}
      {h : KVDBHandler η}
      (hrun : runOp R noFiles (getKVDBHandler dbName scopeName) m = .ok (.ok h) m') :
      Step R J ⟨m, live⟩ (.getKVDBHandler dbName scopeName) ⟨m', h :: live⟩
  | refused {m m' : KVDBManager σ η} {live : List (KVDBHandler η)} {dbName scopeName : String}
      {e : Error} (hrun : runOp R noFiles (getKVDBHandler dbName scopeName) m = .ok (.error e) m') :
      Step R J ⟨m, live⟩ (.getKVDBHandler dbName scopeName) ⟨m', live⟩
  | destroy {m : KVDBManager σ η} {before behind : List (KVDBHandler η)} (h : KVDBHandler η) :
      Step R J ⟨m, before ++ h :: behind⟩ (.destroy h)
        ⟨after R noFiles (destroy h) m, before ++ behind⟩

/-- The runs from a manager that was not initialized yet, over any storage. -/
def sessions (R : RocksDB σ η) (J : Rapidjson) : System (Session σ η) (Op η) where
  init s := ∃ storage, s = ⟨.new storage, []⟩
  step := Step R J

/-- A handler is obtained only below 2³² live ones. -/
def BelowRange (s : Session σ η) (o : Op η) : Prop :=
  ∀ db scope, o = .getKVDBHandler db scope → s.live.length + 1 < UInt32.size

/-! ## One operation at a time -/

theorem runOp_call_ok {R : RocksDB σ η} {files : Files} {c : KvdbCall η} {f : c.Answer → KvdbM η α}
    {m m' : KVDBManager σ η} {a : c.Answer} (h : (handle R files c).run m = .ok a m') :
    runOp R files (call c >>= f) m = runOp R files (f a) m' := Prog.run_call_ok h

theorem runOp_call_error {R : RocksDB σ η} {files : Files} {c : KvdbCall η}
    {f : c.Answer → KvdbM η α} {m m' : KVDBManager σ η} {e : Throw}
    (h : (handle R files c).run m = .error e m') :
    runOp R files (call c >>= f) m = .error e m' := Prog.run_call_error h

theorem run_onRocksDB_ok {x : Call σ α} {m : KVDBManager σ η} {a : α} {s : σ}
    (hrun : x.run m.rocksDB = .ok a s) : (onRocksDB x).run m = .ok a { m with rocksDB := s } := by
  unfold onRocksDB
  rw [run_onPart, hrun]

theorem run_onRocksDB_error {x : Call σ α} {m : KVDBManager σ η} {e : Throw} {s : σ}
    (hrun : x.run m.rocksDB = .error e s) :
    (onRocksDB x).run m = .error e { m with rocksDB := s } := by
  unfold onRocksDB
  rw [run_onPart, hrun]

theorem run_caught (x : Call σ α) (s : σ) :
    (caught x).run s =
      match x.run s with
      | .ok a s' => .ok (.ok a) s'
      | .error e s' => .ok (.error e) s' := rfl

theorem resultState_onRocksDB (x : Call σ α) (m : KVDBManager σ η) :
    resultState ((onRocksDB x).run m) = { m with rocksDB := resultState (x.run m.rocksDB) } := by
  unfold onRocksDB
  rw [run_onPart]
  cases x.run m.rocksDB <;> rfl

theorem onRocksDB_mapCFHandles (x : Call σ α) (m : KVDBManager σ η) :
    (resultState ((onRocksDB x).run m)).mapCFHandles = m.mapCFHandles := by
  rw [resultState_onRocksDB]

theorem onRocksDB_collection (x : Call σ α) (m : KVDBManager σ η) :
    (resultState ((onRocksDB x).run m)).kvdbHandlerCollection = m.kvdbHandlerCollection := by
  rw [resultState_onRocksDB]

theorem resultState_caught (x : Call σ α) (s : σ) :
    resultState ((caught x).run s) = resultState (x.run s) := by
  rw [run_caught]
  cases x.run s <;> rfl

theorem runOp_getKVDBHandler (R : RocksDB σ η) (files : Files) (db scope : String)
    (m : KVDBManager σ η) :
    runOp R files (getKVDBHandler db scope) m =
      match m.mapCFHandles.lookup db with
      | none => .ok (.error ⟨s!"The DB '{db}' does not exist."⟩) m
      | some h => .ok (.ok ⟨h, db, scope⟩)
        { m with kvdbHandlerCollection := m.kvdbHandlerCollection.addKVDBHandler db scope } := by
  refine (runOp_call_ok (c := .lookup db) rfl).trans ?_
  cases m.mapCFHandles.lookup db <;> rfl

/-- The counts a destructor takes one off. -/
theorem after_destroy (R : RocksDB σ η) (files : Files) (h : KVDBHandler η) (m : KVDBManager σ η) :
    after R files (destroy h) m =
      { m with kvdbHandlerCollection :=
        m.kvdbHandlerCollection.removeKVDBHandler h.dbName h.scopeName } := rfl

/-- `deleteDB`: refused, or the result of the drop. -/
theorem runOp_deleteDB (R : RocksDB σ η) (files : Files) (name : String) (m : KVDBManager σ η) :
    runOp R files (deleteDB name) m =
      if m.kvdbHandlerCollection.getKVDBHandlersCount name ≠ 0 then
        .ok (some ⟨s!"Could not remove the DB '{name}'. Usage reference count: {
          m.kvdbHandlerCollection.getKVDBHandlersCount name}"⟩) m
      else
        match m.mapCFHandles.lookup name with
        | none => .ok (some ⟨s!"The DB '{name}' does not exist."⟩) m
        | some h =>
          match (R.DropColumnFamily h).run m.rocksDB with
          | .ok (.ok ()) s =>
            .ok none { m with mapCFHandles := m.mapCFHandles.erase name, rocksDB := s }
          | .ok (.error status) s =>
            .ok (some ⟨s!"Database '{name}' could not be removed: {status}."⟩)
              { m with rocksDB := s }
          | .error e s =>
            if isRuntimeError e then
              .ok (some ⟨s!"Database '{name}' could not be removed: {e.what}."⟩)
                { m with rocksDB := s }
            else .error e { m with rocksDB := s } := by
  refine (runOp_call_ok (c := .getKVDBHandlersCount name) rfl).trans ?_
  split
  · rfl
  · refine (runOp_call_ok (c := .find name) rfl).trans ?_
    cases m.mapCFHandles.lookup name with
    | none => rfl
    | some h =>
      have hcaught := run_caught (R.DropColumnFamily h) m.rocksDB
      dsimp only
      cases hdrop : (R.DropColumnFamily h).run m.rocksDB with
      | ok status s =>
        rw [hdrop] at hcaught
        refine (runOp_call_ok (c := .DropColumnFamily h) (run_onRocksDB_ok hcaught)).trans ?_
        cases status <;> rfl
      | error e s =>
        rw [hdrop] at hcaught
        refine (runOp_call_ok (c := .DropColumnFamily h) (run_onRocksDB_ok hcaught)).trans ?_
        dsimp only
        split <;> rfl

section

variable {R : RocksDB σ η} {files : Files} {name : String} {m : KVDBManager σ η}

/-- A database in use or unknown is not deleted, and nothing changes. -/
theorem deleteDB_refused (R : RocksDB σ η) (files : Files)
    (h : ¬ (name ∈ m.mapCFHandles ∧ m.kvdbHandlerCollection.getKVDBHandlersCount name = 0)) :
    ∃ e, runOp R files (deleteDB name) m = .ok (some e) m := by
  rw [runOp_deleteDB]
  split
  · exact ⟨_, rfl⟩
  · rename_i hcount
    have hmem : name ∉ m.mapCFHandles := fun hmem => h ⟨hmem, not_not.mp hcount⟩
    rw [AList.lookup_eq_none.mpr hmem]
    exact ⟨_, rfl⟩

theorem deleteDB_dropped {h : η} {t : σ}
    (hcount : m.kvdbHandlerCollection.getKVDBHandlersCount name = 0)
    (hfind : m.mapCFHandles.lookup name = some h)
    (hdrop : (R.DropColumnFamily h).run m.rocksDB = .ok (.ok ()) t) :
    runOp R files (deleteDB name) m =
      .ok none { m with mapCFHandles := m.mapCFHandles.erase name, rocksDB := t } := by
  rw [runOp_deleteDB, if_neg (not_not.mpr hcount), hfind]
  dsimp only
  rw [hdrop]

/-- A drop that does not succeed is reported, and the map stays. -/
theorem deleteDB_failed (files : Files) {h : η}
    (hcount : m.kvdbHandlerCollection.getKVDBHandlersCount name = 0)
    (hfind : m.mapCFHandles.lookup name = some h)
    (hdrop : ∀ t, (R.DropColumnFamily h).run m.rocksDB ≠ .ok (.ok ()) t) :
    after R files (deleteDB name) m =
        { m with rocksDB := resultState ((R.DropColumnFamily h).run m.rocksDB) } ∧
      ∀ m', runOp R files (deleteDB name) m ≠ .ok none m' := by
  unfold after
  rw [runOp_deleteDB, if_neg (not_not.mpr hcount), hfind]
  dsimp only
  cases hrun : (R.DropColumnFamily h).run m.rocksDB with
  | ok status t =>
    cases status with
    | ok u => exact absurd hrun (hdrop t)
    | error text => exact ⟨rfl, nofun⟩
  | error e t =>
    dsimp only
    split
    · exact ⟨rfl, nofun⟩
    · exact ⟨rfl, nofun⟩

end

/-- `createDB(name)`: nothing to do, or the result of the creation. -/
theorem runOp_createDB (R : RocksDB σ η) (files : Files) (name : String) (m : KVDBManager σ η) :
    runOp R files (createDB name) m =
      if name ∈ m.mapCFHandles then .ok none m
      else
        match (R.CreateColumnFamily name).run m.rocksDB with
        | .ok (.ok h) s =>
          .ok none { m with mapCFHandles := m.mapCFHandles.emplace name h, rocksDB := s }
        | .ok (.error status) s =>
          .ok (some ⟨s!"Could not create DB '{name}', RocksDB status: {status}."⟩)
            { m with rocksDB := s }
        | .error e s => .error e { m with rocksDB := s } := by
  refine (runOp_call_ok (c := .count name) rfl).trans ?_
  by_cases hmem : name ∈ m.mapCFHandles
  · simp only [hmem, decide_true, if_true]
    rfl
  · simp only [hmem, decide_false, Bool.false_eq_true, if_false]
    cases hcreate : (R.CreateColumnFamily name).run m.rocksDB with
    | ok status s =>
      refine (runOp_call_ok (c := .CreateColumnFamily name) (run_onRocksDB_ok hcreate)).trans ?_
      cases status <;> rfl
    | error e s =>
      exact runOp_call_error (c := .CreateColumnFamily name) (run_onRocksDB_error hcreate)

section

variable {R : RocksDB σ η} {files : Files} {name : String} {m : KVDBManager σ η}

theorem createDB_present (h : name ∈ m.mapCFHandles) :
    runOp R files (createDB name) m = .ok none m := by
  rw [runOp_createDB, if_pos h]

theorem createDB_created {h : η} {t : σ} (habsent : name ∉ m.mapCFHandles)
    (hcreate : (R.CreateColumnFamily name).run m.rocksDB = .ok (.ok h) t) :
    runOp R files (createDB name) m =
      .ok none { m with mapCFHandles := m.mapCFHandles.insert name h, rocksDB := t } := by
  rw [runOp_createDB, if_neg habsent, hcreate]
  dsimp only
  rw [Map.emplace_of_none (AList.lookup_eq_none.mpr habsent)]

/-- A creation that does not succeed is reported, and the map stays. -/
theorem createDB_failed (habsent : name ∉ m.mapCFHandles)
    (hcreate : ∀ h t, (R.CreateColumnFamily name).run m.rocksDB ≠ .ok (.ok h) t) :
    after R files (createDB name) m =
        { m with rocksDB := resultState ((R.CreateColumnFamily name).run m.rocksDB) } ∧
      ∀ m', runOp R files (createDB name) m ≠ .ok none m' := by
  unfold after
  rw [runOp_createDB, if_neg habsent]
  cases hrun : (R.CreateColumnFamily name).run m.rocksDB with
  | ok status t =>
    cases status with
    | ok h => exact absurd hrun (hcreate h t)
    | error text => exact ⟨rfl, nofun⟩
  | error e t => exact ⟨rfl, nofun⟩

end

/-! ## Opening and closing -/

section

variable {m : KVDBManager σ η}

theorem mem_foldl_register {ps : List (String × η)} {map : Map String η} {n : String} :
    n ∈ ps.foldl register map ↔ n ∈ map ∨ n ≠ kDefaultColumnFamilyName ∧ n ∈ ps.map Prod.fst := by
  induction ps generalizing map with
  | nil => simp
  | cons p ps ih =>
    rw [List.foldl_cons, ih, List.map_cons, List.mem_cons]
    have hreg : n ∈ register map p ↔ n ∈ map ∨ n ≠ kDefaultColumnFamilyName ∧ n = p.1 := by
      unfold register
      split
      · rename_i hd
        rw [← hd]
        tauto
      · rename_i hd
        cases hp : map.lookup p.1 with
        | some w =>
          rw [Map.emplace_of_some hp]
          have hmem : p.1 ∈ map := AList.lookup_isSome.mp (by rw [hp]; rfl)
          constructor
          · exact .inl
          · rintro (h | ⟨-, rfl⟩)
            · exact h
            · exact hmem
        | none =>
          rw [Map.emplace_of_none hp, AList.mem_insert]
          constructor
          · rintro (rfl | h)
            · exact .inr ⟨hd, rfl⟩
            · exact .inl h
          · rintro (h | ⟨-, rfl⟩)
            · exact .inr h
            · exact .inl rfl
    rw [hreg]
    tauto

theorem lookup_foldl_register {ps : List (String × η)} {map : Map String η} {n : String} {h : η}
    (hn : (ps.foldl register map).lookup n = some h) : map.lookup n = some h ∨ (n, h) ∈ ps := by
  induction ps generalizing map with
  | nil => exact .inl hn
  | cons p ps ih =>
    rcases ih hn with hreg | hmem
    · unfold register at hreg
      split at hreg
      · exact .inl hreg
      · cases hp : map.lookup p.1 with
        | some w =>
          rw [Map.emplace_of_some hp] at hreg
          exact .inl hreg
        | none =>
          rw [Map.emplace_of_none hp, Map.lookup_insert_eq] at hreg
          split at hreg
          · rename_i he
            cases hreg
            rw [he]
            exact .inr List.mem_cons_self
          · exact .inl hreg
    · exact .inr (List.mem_cons_of_mem _ hmem)

theorem initializeManager_again (R : RocksDB σ η) (dirs : Option Throw)
    (hm : m.isInitialized = true) : (initializeManager R dirs).run m = .ok () m := by
  show EStateM.run (if !m.isInitialized then _ else _) m = _
  rw [hm]
  rfl

theorem initializeManager_first (R : RocksDB σ η) (dirs : Option Throw)
    (hm : m.isInitialized = false) : (initializeManager R dirs).run m =
      (initializeMainDB R dirs >>= fun _ => modify fun m =>
        { m with isInitialized := true }).run m := by
  show EStateM.run (if !m.isInitialized then _ else _) m = _
  rw [hm]
  rfl

theorem run_finalize (R : RocksDB σ η) (m : KVDBManager σ η) :
    (finalize R).run m =
      if m.isInitialized then
        .ok () { m with
          mapCFHandles := ∅
          isInitialized := false
          pRocksDB := false
          rocksDB := R.close m.rocksDB }
      else .ok () m := by
  show EStateM.run (if m.isInitialized then _ else _) m = _
  cases m.isInitialized <;> rfl

theorem mem_listDBs {n : String} : n ∈ listDBs m ↔ n ∈ m.mapCFHandles := mem_sortedSet

end

/-! ## What every part keeps, `createDB(name, path)` keeps -/

section

variable {R : RocksDB σ η} {J : Rapidjson} {files : Files} {I : KVDBManager σ η → Prop}

theorem after_of_run {p : KvdbM η α} {a : α} {m m' : KVDBManager σ η}
    (h : runOp R files p m = .ok a m') : after R files p m = m' := by
  unfold after
  rw [h]
  rfl

theorem keeps_readFile (path : String) : Prog.Keeps (handle R files) I (call (.readFile path)) := by
  refine .call (fun m h => ?_) fun _ => .ret _
  show I (resultState ((orThrow (files path)).run m))
  cases files path <;> exact h

theorem keeps_getContentFromJsonFile (path : String) :
    Prog.Keeps (handle R files) I (getContentFromJsonFile J path) := by
  unfold getContentFromJsonFile
  split
  · exact .ret _
  · refine .bind (keeps_readFile _) fun contents => ?_
    cases contents with
    | none => exact .ret _
    | some text =>
      dsimp only
      split
      · exact .ret _
      · exact .ret _

theorem keeps_loadDBFromJson
    (hput : ∀ h key value m, I m → I (resultState ((handle R files (.Put h key value)).run m)))
    (name : String) (content : Json) :
    Prog.Keeps (handle R files) I (loadDBFromJson J name content) := by
  refine .bind (.call (fun _ h => h) fun _ => .ret _) fun found => ?_
  cases found with
  | none => exact .ret _
  | some h =>
    dsimp only
    cases getObject content with
    | none => exact .raise _
    | some entries =>
      show Prog.Keeps _ _ (putAll h (entriesOf J entries))
      induction entriesOf J entries with
      | nil => exact .ret _
      | cons e rest ih =>
        refine .bind (.call (hput h e.1 e.2) fun _ => .ret _) fun status => ?_
        cases status with
        | error text => exact .ret _
        | ok u => exact ih

theorem keeps_createDBFromFile {name : String}
    (hcreate : Prog.Keeps (handle R files) I (createDB name))
    (hput : ∀ h key value m, I m → I (resultState ((handle R files (.Put h key value)).run m)))
    (hdelete : Prog.Keeps (handle R files) I (deleteDB name)) (path : String) :
    Prog.Keeps (handle R files) I (createDBFromFile J name path) := by
  refine .bind (keeps_getContentFromJsonFile path) fun content => ?_
  cases content with
  | error e => exact .ret _
  | ok content =>
    refine .bind hcreate fun errorCreate => ?_
    cases errorCreate with
    | some e => exact .ret _
    | none =>
      refine .bind (keeps_loadDBFromJson hput name content) fun errorLoad => ?_
      cases errorLoad with
      | none => exact .ret _
      | some e =>
        refine .bind hdelete fun errorDelete => ?_
        cases errorDelete <;> exact .ret _

end

end

/-! ## Managers in memory -/

/-- A manager that opened an empty storage; the calls after that go as `script` says. -/
def openedManager (script : List Outcome) : KVDBManager MemRocks Nat :=
  resultState ((initializeManager memRocksDB.toRocksDB none).run
    (.new (.fresh (.works :: .works :: script))))

/-- And then created a database. -/
def managerWith (name : String) (script : List Outcome) : KVDBManager MemRocks Nat :=
  after memRocksDB.toRocksDB noFiles (createDB name) (openedManager (.works :: script))

theorem reachable_openedManager (script : List Outcome) (J : Rapidjson) :
    ((sessions memRocksDB.toRocksDB J).guarded BelowRange).Reachable
      ⟨openedManager script, []⟩ := by
  refine .step (l := .setUp none) (.init ⟨_, rfl⟩) ⟨?_, .setUp none⟩
  nofun

theorem reachable_managerWith (name : String) (script : List Outcome) (J : Rapidjson)
    (h : (openedManager (.works :: script)).pRocksDB = true) :
    ((sessions memRocksDB.toRocksDB J).guarded BelowRange).Reachable
      ⟨managerWith name script, []⟩ := by
  refine .step (l := .createDB name) (reachable_openedManager _ J) ⟨?_, .createDB name h⟩
  nofun

end DistroDefender.Kvdb
