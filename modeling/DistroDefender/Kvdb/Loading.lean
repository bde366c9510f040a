import DistroDefender.Kvdb.AllOrNothing
import DistroDefender.Lib.Section

/-!
# What the calls of the manager leave

For the databases behind the handlers: the handle of a database that is in use stays in the map
(`Stay`), and a creation from a file loads the entries, some of them, or none (`Loading`), where it
may take the database back.
-/

namespace DistroDefender.Kvdb

open Base Lib

section Programs

variable {σ η : Type}

/-- The collection is `c`, and the handles of the handlers are in the map. -/
def Stay (c : KVDBHandlerCollection) (xs : List (KVDBHandler η)) (m : KVDBManager σ η) : Prop :=
  m.kvdbHandlerCollection = c ∧ ∀ x ∈ xs, m.mapCFHandles.lookup x.dbName = some x.weakCFHandle

variable {R : RocksDB σ η} {J : Rapidjson} {files : Files} {c : KVDBHandlerCollection}
  {xs : List (KVDBHandler η)}

theorem stay_rocksDB {m : KVDBManager σ η} (h : Stay c xs m) (t : σ) :
    Stay c xs { m with rocksDB := t } := h

theorem stay_createDB (name : String) :
    Prog.Keeps (handle R files) (Stay c xs) (createDB name) := by
  intro m hm
  show Stay c xs (resultState (runOp R files (createDB name) m))
  rw [runOp_createDB]
  split
  · exact hm
  · rename_i habsent
    cases (R.CreateColumnFamily name).run m.rocksDB with
    | error e t => exact stay_rocksDB hm t
    | ok status t =>
      cases status with
      | error text => exact stay_rocksDB hm t
      | ok h =>
        refine ⟨hm.1, fun x hx => ?_⟩
        show (m.mapCFHandles.emplace name h).lookup x.dbName = _
        have hfound := hm.2 x hx
        have hne : x.dbName ≠ name := by
          rintro rfl
          exact habsent (AList.lookup_isSome.mp (by rw [hfound]; rfl))
        rw [Map.emplace_of_none (AList.lookup_eq_none.mpr habsent), Map.lookup_insert_eq,
          if_neg hne]
        exact hfound

theorem stay_deleteDB (hused : ∀ x ∈ xs, c.getKVDBHandlersCount x.dbName ≠ 0) (name : String) :
    Prog.Keeps (handle R files) (Stay c xs) (deleteDB name) := by
  intro m hm
  show Stay c xs (resultState (runOp R files (deleteDB name) m))
  rw [runOp_deleteDB]
  split
  · exact hm
  rename_i hcount
  cases hfind : m.mapCFHandles.lookup name with
  | none => exact hm
  | some h =>
    dsimp only
    cases (R.DropColumnFamily h).run m.rocksDB with
    | error e t =>
      dsimp only
      split <;> exact stay_rocksDB hm t
    | ok status t =>
      cases status with
      | error text => exact stay_rocksDB hm t
      | ok u =>
        refine ⟨hm.1, fun x hx => ?_⟩
        show (m.mapCFHandles.erase name).lookup x.dbName = _
        have hne : x.dbName ≠ name := by
          rintro rfl
          exact hused x hx (hm.1 ▸ not_not.mp hcount)
        rw [Map.lookup_erase_eq, if_neg hne]
        exact hm.2 x hx

theorem stay_createDBFromFile (hused : ∀ x ∈ xs, c.getKVDBHandlersCount x.dbName ≠ 0)
    (name path : String) :
    Prog.Keeps (handle R files) (Stay c xs) (createDBFromFile J name path) := by
  refine keeps_createDBFromFile (stay_createDB name) (fun h key value m hm => ?_)
    (stay_deleteDB hused name) path
  show Stay c xs (resultState ((onRocksDB (R.Put h key value)).run m))
  rw [resultState_onRocksDB]
  exact stay_rocksDB hm _

theorem answer_ne_of_run {α : Type} {r : EStateM.Result Throw (KVDBManager σ η) α} {a : α}
    (h : ∀ m', r ≠ .ok a m') : answer r ≠ .ok a := by
  intro ha
  cases r with
  | ok b m' =>
    cases ha
    exact h m' rfl
  | error e m' => cases ha

/-- A call that gets no object from the file does not succeed. -/
theorem createDBFromFile_noFile_fails (R : RocksDB σ η) {path : String} {m : KVDBManager σ η}
    (hfile : fileMembers J files path = none) (name : String) :
    ∀ m', runOp R files (createDBFromFile J name path) m ≠ .ok none m' := by
  intro m' hrun
  rcases runOp_getContentFromJsonFile R J files path m with ⟨ms, hms, -⟩ | ⟨-, hnot⟩
  · cases hfile.symm.trans hms
  cases hget : runOp R files (getContentFromJsonFile J path) m with
  | ok content m₁ =>
    cases content with
    | error e => cases (runOp_bind_ok hget).symm.trans hrun
    | ok content => exact hnot content m₁ hget
  | error e m₁ => cases (runOp_bind_error hget).symm.trans hrun

/-- Nor does one that cannot create the database. -/
theorem createDBFromFile_notCreated_fails {name path : String} {m : KVDBManager σ η}
    (hcreate : ∀ m', runOp R files (createDB name) m ≠ .ok none m') :
    ∀ m', runOp R files (createDBFromFile J name path) m ≠ .ok none m' := by
  intro m' hrun
  rcases runOp_getContentFromJsonFile R J files path m with ⟨ms, -, hget⟩ | ⟨hnone, -⟩
  · have hrest := (runOp_bind_ok hget).symm.trans hrun
    cases hc : runOp R files (createDB name) m with
    | ok e m₁ =>
      cases e with
      | none => exact hcreate m₁ hc
      | some e => cases (runOp_bind_ok hc).symm.trans hrest
    | error e m₁ => cases (runOp_bind_error hc).symm.trans hrest
  · exact createDBFromFile_noFile_fails R hnone name m' hrun

end Programs

section Contents

variable {σ η : Type} [DecidableEq η] {F : FamilyStore σ η} {J : Rapidjson} {files : Files}
  {name path : String} {m : KVDBManager σ η}

/-- The contents of a family, and none where it is not there. -/
def View.contentsAt (v : View η) (name : String) : Contents := (v.families name).getD fun _ => none

/-- The family the entries are written into. -/
theorem Target.contents (hm : MirrorsOpen F m) {h : η} {t : σ}
    (ht : Target F.toRocksDB m name h t) :
    name ≠ kDefaultColumnFamilyName ∧ (F.view t).ref h = .names name ∧
      (F.view t).families name = some ((F.view m.rocksDB).contentsAt name) ∧
      (F.view t).families =
        Function.update (F.view m.rocksDB).families name
          (some ((F.view m.rocksDB).contentsAt name)) := by
  cases ht with
  | present hfind =>
    obtain ⟨hsome, hname⟩ := hm.1.families_of_lookup hfind
    obtain ⟨c, hc⟩ := Option.ne_none_iff_exists'.mp hsome
    have hat : (F.view m.rocksDB).contentsAt name = c := by
      unfold View.contentsAt
      rw [hc]
      rfl
    refine ⟨hname, hm.1.refs name h hfind, ?_, ?_⟩
    · rw [hat]
      exact hc
    · rw [hat, ← hc, Function.update_eq_self]
  | created habsent hcreate =>
    obtain ⟨hnew, -, hview⟩ := (F.create_does m.rocksDB name).of_ok hcreate
    have hname : name ≠ kDefaultColumnFamilyName := by
      rintro rfl
      exact F.default_mem _ hnew
    have hat : (F.view m.rocksDB).contentsAt name = fun _ => none := by
      unfold View.contentsAt
      rw [hnew]
      rfl
    refine ⟨hname, ?_, ?_, ?_⟩
    · rw [hview, View.create_ref, if_pos rfl]
    · rw [hview, View.create_families, if_pos rfl, hat]
    · rw [hview, hat]
      rfl

/-- What a creation from a file did, with the answer it gave. -/
inductive Loading (F : FamilyStore σ η) (J : Rapidjson) (files : Files) (name path : String)
    (m : KVDBManager σ η) : Except Throw OptError → (String → Option Contents) → Prop
  | loaded {ms : List (String × Json)} (hname : name ≠ kDefaultColumnFamilyName)
      (hfile : fileMembers J files path = some ms) :
      Loading F J files name path m (.ok none) (Function.update (F.view m.rocksDB).families name
        (some (written ((F.view m.rocksDB).contentsAt name) (memberEntries J ms))))
  | notLoaded {r : Except Throw OptError} (hr : r ≠ .ok none) :
      Loading F J files name path m r (F.view m.rocksDB).families
  | partlyLoaded {ms : List (String × Json)} {done rest : List (String × String)}
      {r : Except Throw OptError} (hname : name ≠ kDefaultColumnFamilyName)
      (hfile : fileMembers J files path = some ms) (hentries : memberEntries J ms = done ++ rest)
      (hr : r ≠ .ok none) :
      Loading F J files name path m r (Function.update (F.view m.rocksDB).families name
        (some (written ((F.view m.rocksDB).contentsAt name) done)))
  | takenBack {r : Except Throw OptError}
      (hcount : m.kvdbHandlerCollection.getKVDBHandlersCount name = 0)
      (hname : name ≠ kDefaultColumnFamilyName) (hr : r ≠ .ok none) :
      Loading F J files name path m r (Function.update (F.view m.rocksDB).families name none)

theorem createDBFromFile_loading (hm : MirrorsOpen F m) (files : Files) (name path : String) :
    Loading F J files name path m
      (answer (runOp F.toRocksDB files (createDBFromFile J name path) m))
      (F.view (after F.toRocksDB files (createDBFromFile J name path) m).rocksDB).families := by
  cases hfile : fileMembers J files path with
  | none =>
    have hafter : after F.toRocksDB files (createDBFromFile J name path) m = m :=
      createDBFromFile_noFile hfile
    rw [hafter]
    exact .notLoaded (answer_ne_of_run (createDBFromFile_noFile_fails F.toRocksDB hfile name))
  | some ms =>
    by_cases hcreate : ∃ m', runOp F.toRocksDB files (createDB name) m = .ok none m'
    · obtain ⟨m', hrun⟩ := hcreate
      obtain ⟨h, t, ht⟩ := exists_target hrun
      obtain ⟨map, hfind, -, hcreated⟩ := ht.run files
      obtain ⟨hname, href, hc, hfamilies⟩ := ht.contents hm
      rcases putAll_cases F.toRocksDB h (memberEntries J ms) t with
        ⟨t', hs⟩ | ⟨done, entry, rest, t', hentries, hs, hfail⟩
      · have hstored := createDBFromFile_stored hfile hfind hcreated hs
        obtain ⟨-, hwritten⟩ := stored_view hs href hc
        rw [hfamilies, Function.update_idem] at hwritten
        rw [after_of_run hstored, hstored]
        show Loading F J files name path m (.ok none) (F.view t').families
        rw [hwritten]
        exact .loaded hname hfile
      · obtain ⟨href', hwritten⟩ := stored_view hs href hc
        rw [hfamilies, Function.update_idem] at hwritten
        obtain ⟨hnot, t₃, hdropped, hkept⟩ :=
          createDBFromFile_failed hfile hfind hcreated hentries hs hfail
          ((congrFun href' h).trans href)
        by_cases hdrops : Drops F.toRocksDB m name h t' entry
        · rw [(hdropped hdrops).2]
          show Loading F J files name path m _ (F.view t₃).families
          have hfam : (F.view t₃).families = Function.update
              (F.view m.rocksDB).families name none := by
            rw [(hdropped hdrops).1]
            unfold View.drop
            rw [hwritten, Function.update_idem]
          rw [hfam]
          exact .takenBack hdrops.1 hname (answer_ne_of_run hnot)
        · rw [(hkept hdrops).2]
          show Loading F J files name path m _ (F.view t₃).families
          rw [(hkept hdrops).1, hwritten]
          exact .partlyLoaded hname hfile hentries (answer_ne_of_run hnot)
    · rw [createDBFromFile_notCreated hfile (not_exists.mp hcreate)]
      obtain ⟨t, hview, ht⟩ := createDB_not_ok (not_exists.mp hcreate)
      rw [ht]
      show Loading F J files name path m _ (F.view t).families
      rw [hview]
      exact .notLoaded
        (answer_ne_of_run (createDBFromFile_notCreated_fails (not_exists.mp hcreate)))

end Contents

end DistroDefender.Kvdb
