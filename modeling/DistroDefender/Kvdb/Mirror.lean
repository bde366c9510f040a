import DistroDefender.Kvdb.Sessions

/-!
# The map mirrors the storage

While the manager is initialized the keys of `mapCFHandles` are the column families other than the
default one, in every run (`mirrored`): a creation or a deletion changes both or neither, and
opening rebuilds the map from what the storage lists. The invariant (`Mirrors`) also says that the
handle under a name refers to the family of that name.
-/

namespace DistroDefender.Kvdb

open Base Lib

section

variable {σ η : Type} [DecidableEq η] {F : FamilyStore σ η} {J : Rapidjson}

/-- The map and the storage agree. -/
structure Mirrors (F : FamilyStore σ η) (m : KVDBManager σ η) : Prop where
  pRocksDB : m.pRocksDB = m.isInitialized
  closed : m.isInitialized = false → m.mapCFHandles = ∅
  keys : m.isInitialized = true → ∀ n, n ∈ m.mapCFHandles ↔
    (F.view m.rocksDB).families n ≠ none ∧ n ≠ kDefaultColumnFamilyName
  refs : ∀ n h, m.mapCFHandles.lookup n = some h → (F.view m.rocksDB).ref h = .names n

namespace Mirrors

variable {m : KVDBManager σ η}

/-- An initialized manager has a database. -/
theorem isInitialized_of_mem (h : Mirrors F m) {n : String} (hn : n ∈ m.mapCFHandles) :
    m.isInitialized = true := by
  by_contra hnot
  rw [h.closed (Bool.eq_false_iff.mpr hnot)] at hn
  exact AList.notMem_empty n hn

theorem families_of_lookup (h : Mirrors F m) {n : String} {hd : η}
    (hn : m.mapCFHandles.lookup n = some hd) :
    (F.view m.rocksDB).families n ≠ none ∧ n ≠ kDefaultColumnFamilyName := by
  have hmem : n ∈ m.mapCFHandles := AList.lookup_isSome.mp (by rw [hn]; rfl)
  exact (h.keys (h.isInitialized_of_mem hmem) n).mp hmem

/-- Only the view of the storage matters. -/
theorem of_view (h : Mirrors F m) {t : σ} (ht : F.view t = F.view m.rocksDB) :
    Mirrors F { m with rocksDB := t } where
  pRocksDB := h.pRocksDB
  closed := h.closed
  keys hi n := by
    show _ ↔ (F.view t).families n ≠ none ∧ _
    rw [ht]
    exact h.keys hi n
  refs n hd hn := by
    show (F.view t).ref hd = _
    rw [ht]
    exact h.refs n hd hn

/-- The collection does not matter. -/
theorem of_collection (h : Mirrors F m) (c : KVDBHandlerCollection) :
    Mirrors F { m with kvdbHandlerCollection := c } := ⟨h.pRocksDB, h.closed, h.keys, h.refs⟩

theorem created (h : Mirrors F m) (hi : m.isInitialized = true) {name : String} {hd : η} {t : σ}
    (hnew : (F.view m.rocksDB).families name = none) (hunused : (F.view m.rocksDB).ref hd = .unused)
    (ht : F.view t = (F.view m.rocksDB).create name hd) :
    Mirrors F { m with mapCFHandles := m.mapCFHandles.insert name hd, rocksDB := t } where
  pRocksDB := h.pRocksDB
  closed hf := by
    cases hi.symm.trans hf
  keys _ n := by
    have hdefault : name ≠ kDefaultColumnFamilyName := by
      rintro rfl
      exact F.default_mem _ hnew
    show n ∈ m.mapCFHandles.insert name hd ↔ (F.view t).families n ≠ none ∧ _
    rw [ht, AList.mem_insert, h.keys hi n, View.create_families]
    by_cases hn : n = name
    · simp [hn, hdefault]
    · simp [hn]
  refs n hd' hn := by
    rw [Map.lookup_insert_eq] at hn
    show (F.view t).ref hd' = _
    rw [ht, View.create_ref]
    split at hn
    · rename_i he
      cases hn
      rw [if_pos rfl, he]
    · have hold := h.refs n hd' hn
      rw [if_neg]
      · exact hold
      · rintro rfl
        cases hunused.symm.trans hold

theorem dropped (h : Mirrors F m) {name : String} {t : σ}
    (ht : F.view t = (F.view m.rocksDB).drop name) :
    Mirrors F { m with mapCFHandles := m.mapCFHandles.erase name, rocksDB := t } where
  pRocksDB := h.pRocksDB
  closed hf := by
    show m.mapCFHandles.erase name = ∅
    rw [h.closed hf]
    rfl
  keys hi n := by
    show n ∈ m.mapCFHandles.erase name ↔ (F.view t).families n ≠ none ∧ _
    rw [ht, AList.mem_erase, h.keys hi n, View.drop_families]
    by_cases hn : n = name
    · simp [hn]
    · simp [hn]
  refs n hd hn := by
    rw [Map.lookup_erase_eq] at hn
    split at hn
    · cases hn
    · rename_i hne
      have hold := h.refs n hd hn
      show (F.view t).ref hd = _
      rw [ht, View.drop_ref, hold, if_neg]
      rintro ⟨⟩
      exact hne rfl

theorem put (h : Mirrors F m) {name : String} {c : Contents} {key value : String} {t : σ}
    (hc : (F.view m.rocksDB).families name = some c)
    (ht : F.view t = (F.view m.rocksDB).put name c key value) :
    Mirrors F { m with rocksDB := t } where
  pRocksDB := h.pRocksDB
  closed := h.closed
  keys hi n := by
    show _ ↔ (F.view t).families n ≠ none ∧ _
    rw [ht, View.put_families]
    refine (h.keys hi n).trans (and_congr_left' ?_)
    split
    · rename_i hn
      rw [hn, hc]
      simp
    · rfl
  refs n hd hn := by
    show (F.view t).ref hd = _
    rw [ht]
    exact h.refs n hd hn

end Mirrors

/-! ## The operations keep the mirror -/

variable {m : KVDBManager σ η} {files : Files} {name : String}

/-- A deletion that succeeds drops the family of that name. -/
theorem deleteDB_ok (h : Mirrors F m) {m' : KVDBManager σ η}
    (hrun : runOp F.toRocksDB files (deleteDB name) m = .ok none m') :
    ∃ t, F.view t = (F.view m.rocksDB).drop name ∧
      m' = { m with mapCFHandles := m.mapCFHandles.erase name, rocksDB := t } := by
  by_cases hok : name ∈ m.mapCFHandles ∧ m.kvdbHandlerCollection.getKVDBHandlersCount name = 0
  · obtain ⟨hmem, hcount⟩ := hok
    obtain ⟨hd, hfind⟩ := Option.isSome_iff_exists.mp (AList.lookup_isSome.mpr hmem)
    rcases (F.drop_does m.rocksDB hd).cases with ⟨_, t, hdrop, n, -, hnames, hview⟩ | ⟨hfail, -⟩
    · rw [deleteDB_dropped hcount hfind hdrop] at hrun
      cases hrun
      rw [h.refs name hd hfind] at hnames
      cases hnames
      exact ⟨t, hview, rfl⟩
    · exact absurd hrun ((deleteDB_failed files hcount hfind (hfail ())).2 m')
  · obtain ⟨e, he⟩ := deleteDB_refused F.toRocksDB files hok
    cases he.symm.trans hrun

/-- A deletion that does not succeed leaves the map and what the storage shows. -/
theorem deleteDB_not_ok (hrun : ∀ m', runOp F.toRocksDB files (deleteDB name) m ≠ .ok none m') :
    ∃ t, F.view t = F.view m.rocksDB ∧
      after F.toRocksDB files (deleteDB name) m = { m with rocksDB := t } := by
  by_cases hok : name ∈ m.mapCFHandles ∧ m.kvdbHandlerCollection.getKVDBHandlersCount name = 0
  · obtain ⟨hmem, hcount⟩ := hok
    obtain ⟨hd, hfind⟩ := Option.isSome_iff_exists.mp (AList.lookup_isSome.mpr hmem)
    rcases (F.drop_does m.rocksDB hd).cases with ⟨_, t, hdrop, -⟩ | ⟨hfail, hview⟩
    · exact absurd (deleteDB_dropped hcount hfind hdrop) (hrun _)
    · exact ⟨_, hview, (deleteDB_failed files hcount hfind (hfail ())).1⟩
  · obtain ⟨e, he⟩ := deleteDB_refused F.toRocksDB files hok
    refine ⟨m.rocksDB, rfl, ?_⟩
    unfold after
    rw [he]
    rfl

/-- A creation that succeeds finds the database, or adds an empty family. -/
theorem createDB_ok {m' : KVDBManager σ η}
    (hrun : runOp F.toRocksDB files (createDB name) m = .ok none m') :
    (name ∈ m.mapCFHandles ∧ m' = m) ∨
      (name ∉ m.mapCFHandles ∧ ∃ hd t, (F.view m.rocksDB).families name = none ∧
        (F.view m.rocksDB).ref hd = .unused ∧ F.view t = (F.view m.rocksDB).create name hd ∧
        m' = { m with mapCFHandles := m.mapCFHandles.insert name hd, rocksDB := t }) := by
  by_cases hmem : name ∈ m.mapCFHandles
  · rw [createDB_present hmem] at hrun
    cases hrun
    exact .inl ⟨hmem, rfl⟩
  · rcases (F.create_does m.rocksDB name).cases with ⟨hd, t, hcreate, hnew, hunused, hview⟩ |
        ⟨hfail, -⟩
    · rw [createDB_created hmem hcreate] at hrun
      cases hrun
      exact .inr ⟨hmem, hd, t, hnew, hunused, hview, rfl⟩
    · exact absurd hrun ((createDB_failed hmem hfail).2 m')

theorem createDB_not_ok (hrun : ∀ m', runOp F.toRocksDB files (createDB name) m ≠ .ok none m') :
    ∃ t, F.view t = F.view m.rocksDB ∧
      after F.toRocksDB files (createDB name) m = { m with rocksDB := t } := by
  by_cases hmem : name ∈ m.mapCFHandles
  · exact absurd (createDB_present hmem) (hrun m)
  · rcases (F.create_does m.rocksDB name).cases with ⟨hd, t, hcreate, -⟩ | ⟨hfail, hview⟩
    · exact absurd (createDB_created hmem hcreate) (hrun _)
    · exact ⟨_, hview, (createDB_failed hmem hfail).1⟩

/-- The manager is initialized and mirrors the storage. -/
def MirrorsOpen (F : FamilyStore σ η) (m : KVDBManager σ η) : Prop :=
  Mirrors F m ∧ m.isInitialized = true

theorem mirrorsOpen_deleteDB (name : String) :
    Prog.Keeps (handle F.toRocksDB files) (MirrorsOpen F) (deleteDB name) := by
  intro m hm
  show MirrorsOpen F (after F.toRocksDB files (deleteDB name) m)
  by_cases hok : ∃ m', runOp F.toRocksDB files (deleteDB name) m = .ok none m'
  · obtain ⟨m', hrun⟩ := hok
    obtain ⟨t, hview, rfl⟩ := deleteDB_ok hm.1 hrun
    rw [after_of_run hrun]
    exact ⟨hm.1.dropped hview, hm.2⟩
  · obtain ⟨t, hview, ht⟩ := deleteDB_not_ok (not_exists.mp hok)
    rw [ht]
    exact ⟨hm.1.of_view hview, hm.2⟩

theorem mirrorsOpen_createDB (name : String) :
    Prog.Keeps (handle F.toRocksDB files) (MirrorsOpen F) (createDB name) := by
  intro m hm
  show MirrorsOpen F (after F.toRocksDB files (createDB name) m)
  by_cases hok : ∃ m', runOp F.toRocksDB files (createDB name) m = .ok none m'
  · obtain ⟨m', hrun⟩ := hok
    rw [after_of_run hrun]
    rcases createDB_ok hrun with ⟨-, rfl⟩ | ⟨-, hd, t, hnew, hunused, hview, rfl⟩
    · exact hm
    · exact ⟨hm.1.created hm.2 hnew hunused hview, hm.2⟩
  · obtain ⟨t, hview, ht⟩ := createDB_not_ok (not_exists.mp hok)
    rw [ht]
    exact ⟨hm.1.of_view hview, hm.2⟩

theorem mirrorsOpen_put (h : η) (key value : String) (m : KVDBManager σ η) (hm : MirrorsOpen F m) :
    MirrorsOpen F (resultState ((handle F.toRocksDB files (.Put h key value)).run m)) := by
  show MirrorsOpen F (resultState ((onRocksDB (F.Put h key value)).run m))
  rw [resultState_onRocksDB]
  rcases (F.put_does m.rocksDB h key value).cases with ⟨_, t, hput, n, c, -, hc, hview⟩ | ⟨-, hview⟩
  · rw [hput]
    exact ⟨hm.1.put hc hview, hm.2⟩
  · exact ⟨hm.1.of_view hview, hm.2⟩

theorem mirrorsOpen_createDBFromFile (name path : String) :
    Prog.Keeps (handle F.toRocksDB files) (MirrorsOpen F) (createDBFromFile J name path) :=
  keeps_createDBFromFile (mirrorsOpen_createDB name) mirrorsOpen_put
    (mirrorsOpen_deleteDB name) path

/-! ## Opening and closing -/

/-- The manager after the families `names` were opened. -/
structure OpenedFrom (F : FamilyStore σ η) (m m' : KVDBManager σ η) : Prop where
  isInitialized : m'.isInitialized = true
  pRocksDB : m'.pRocksDB = true
  mirrors : m.mapCFHandles = ∅ → Mirrors F m'
  families : (F.view m'.rocksDB).families = (F.view m.rocksDB).families

theorem openedFrom {names : List String} {handles : List η} {t : σ}
    (h : (F.view m.rocksDB).Opened (F.view t) names handles) :
    OpenedFrom F m { m with
      mapCFHandles := (names.zip handles).foldl register m.mapCFHandles
      isInitialized := true
      pRocksDB := true
      rocksDB := t } where
  isInitialized := rfl
  pRocksDB := rfl
  families := h.families
  mirrors hempty := {
    pRocksDB := rfl
    closed := nofun
    keys := by
      intro _ n
      rw [hempty]
      show n ∈ (names.zip handles).foldl register ∅ ↔ (F.view t).families n ≠ none ∧ _
      rw [mem_foldl_register, h.families, ← h.all n,
        List.map_fst_zip (Nat.le_of_eq h.length_eq.symm)]
      simp [and_comm]
    refs := by
      intro n hd hn
      rw [hempty] at hn
      rcases lookup_foldl_register hn with hnone | hmem
      · cases (AList.lookup_empty n).symm.trans hnone
      · exact h.refs (n, hd) hmem }

/-- Opening works, or leaves everything but the state of RocksDB in the process. -/
theorem initializeManager_cases (dirs : Option Throw) (hm : m.isInitialized = false) :
    (∃ m', (initializeManager F.toRocksDB dirs).run m = .ok () m' ∧ OpenedFrom F m m') ∨
      ∃ e t, F.view t = F.view m.rocksDB ∧
        (initializeManager F.toRocksDB dirs).run m = .error e { m with rocksDB := t } := by
  rw [initializeManager_first _ dirs hm, EStateM.run_bind]
  cases dirs with
  | some e => exact .inr ⟨e, m.rocksDB, rfl, rfl⟩
  | none =>
    unfold initializeMainDB
    dsimp only
    rw [EStateM.run_bind]
    have hlist := F.list_does m.rocksDB
    cases hl : F.ListColumnFamilies.run m.rocksDB with
    | error e t =>
      rw [hl] at hlist
      rw [run_onRocksDB_error hl]
      exact .inr ⟨e, t, hlist, rfl⟩
    | ok listStatus s =>
      have hs : F.view s = F.view m.rocksDB := by
        rw [hl] at hlist
        cases listStatus with
        | ok names => exact hlist.1
        | error text => exact hlist
      rw [run_onRocksDB_ok hl]
      dsimp only
      rw [EStateM.run_bind]
      have hopen := F.open_does s (cfDescriptors listStatus)
      cases ho : (F.DBOpen (cfDescriptors listStatus)).run s with
      | error e t =>
        rw [ho] at hopen
        rw [run_onRocksDB_error (m := { m with rocksDB := s }) ho]
        exact .inr ⟨e, t, hopen.trans hs, rfl⟩
      | ok statusOpen t =>
        rw [run_onRocksDB_ok (m := { m with rocksDB := s }) ho]
        rw [ho] at hopen
        cases statusOpen with
        | error text => exact .inr ⟨_, t, hopen.trans hs, rfl⟩
        | ok handles => exact .inl ⟨_, rfl, openedFrom (hs ▸ hopen)⟩

theorem Mirrors.setUp (h : Mirrors F m) (dirs : Option Throw) :
    Mirrors F (resultState ((initializeManager F.toRocksDB dirs).run m)) := by
  cases hi : m.isInitialized with
  | true =>
    rw [initializeManager_again _ dirs hi]
    exact h
  | false =>
    rcases initializeManager_cases (F := F) dirs hi with ⟨m', hrun, hopened⟩ | ⟨e, t, hview, hrun⟩
    · rw [hrun]
      exact hopened.mirrors (h.closed hi)
    · rw [hrun]
      exact h.of_view hview

theorem Mirrors.finalize (h : Mirrors F m) :
    Mirrors F (resultState ((finalize F.toRocksDB).run m)) := by
  rw [run_finalize]
  split
  · exact ⟨rfl, fun _ => rfl, nofun, fun n hd hn => by cases (AList.lookup_empty n).symm.trans hn⟩
  · exact h

/-! ## Runs -/

theorem mirrors_step {s s' : Session σ η} {o : Op η} (h : Mirrors F s.manager)
    (hs : Step F.toRocksDB J s o s') : Mirrors F s'.manager := by
  cases hs with
  | setUp dirs => exact h.setUp dirs
  | finalize => exact h.finalize
  | createDB name hdb => exact (mirrorsOpen_createDB name _ ⟨h, h.pRocksDB.symm.trans hdb⟩).1
  | createDBFromFile name path files hdb =>
    exact (mirrorsOpen_createDBFromFile name path _ ⟨h, h.pRocksDB.symm.trans hdb⟩).1
  | @deleteDB m live name =>
    show Mirrors F (after F.toRocksDB noFiles (Kvdb.deleteDB name) m)
    by_cases hok : ∃ m', runOp F.toRocksDB noFiles (Kvdb.deleteDB name) m = .ok none m'
    · obtain ⟨m', hrun⟩ := hok
      obtain ⟨t, hview, rfl⟩ := deleteDB_ok h hrun
      rw [after_of_run hrun]
      exact h.dropped hview
    · obtain ⟨t, hview, ht⟩ := deleteDB_not_ok (not_exists.mp hok)
      rw [ht]
      exact h.of_view hview
  | obtained hrun =>
    rw [runOp_getKVDBHandler] at hrun
    split at hrun
    · cases hrun
    · cases hrun
      exact h.of_collection _
  | refused hrun =>
    rw [runOp_getKVDBHandler] at hrun
    split at hrun
    · cases hrun
      exact h
    · cases hrun
  | destroy hd => exact h.of_collection _

theorem mirrors_of_reachable {s : Session σ η} (h : (sessions F.toRocksDB J).Reachable s) :
    Mirrors F s.manager := by
  have hind : (sessions F.toRocksDB J).Inductive fun s => Mirrors F s.manager := {
    init := by
      rintro s ⟨storage, rfl⟩
      exact ⟨rfl, fun _ => rfl, nofun, fun n hd hn => by cases (AList.lookup_empty n).symm.trans hn⟩
    step := fun s o s' hI hs => mirrors_step hI hs }
  exact hind.holds h

/-- What an initialized manager says of the databases is what RocksDB keeps, across restarts. -/
structure RegistryMirrors (F : FamilyStore σ η) (m : KVDBManager σ η) : Prop where
  keys : ∀ n, n ∈ m.mapCFHandles ↔
    (F.view m.rocksDB).families n ≠ none ∧ n ≠ kDefaultColumnFamilyName
  mem_listDBs : ∀ n, n ∈ listDBs m ↔
    (F.view m.rocksDB).families n ≠ none ∧ n ≠ kDefaultColumnFamilyName
  listDBs_sorted : (listDBs m).Pairwise (· < ·)
  existsDB : ∀ n, ∃ b, runOp F.toRocksDB noFiles (existsDB n) m = .ok b m ∧
    (b = true ↔ (F.view m.rocksDB).families n ≠ none ∧ n ≠ kDefaultColumnFamilyName)
  /-- A restart that works changes neither the databases nor their contents. -/
  restart : ∀ dirs m', (initializeManager F.toRocksDB dirs).run
      (resultState ((Kvdb.finalize F.toRocksDB).run m)) = .ok () m' →
    m'.isInitialized = true ∧ listDBs m' = listDBs m ∧
      (F.view m'.rocksDB).families = (F.view m.rocksDB).families
  /-- What is created anew is empty. -/
  created : ∀ n m', n ∉ m.mapCFHandles →
    runOp F.toRocksDB noFiles (Kvdb.createDB n) m = .ok none m' →
    (F.view m'.rocksDB).families n = some fun _ => none
  recreated : ∀ n m₁ m₂, runOp F.toRocksDB noFiles (Kvdb.deleteDB n) m = .ok none m₁ →
    runOp F.toRocksDB noFiles (Kvdb.createDB n) m₁ = .ok none m₂ →
    (F.view m₁.rocksDB).families n = none ∧ (F.view m₂.rocksDB).families n = some fun _ => none

theorem createDB_empty {m' : KVDBManager σ η}
    (hn : name ∉ m.mapCFHandles) (hrun : runOp F.toRocksDB files (createDB name) m = .ok none m') :
    (F.view m'.rocksDB).families name = some fun _ => none := by
  rcases createDB_ok hrun with ⟨hmem, -⟩ | ⟨-, hd, t, -, -, hview, rfl⟩
  · exact absurd hmem hn
  · show (F.view t).families name = _
    rw [hview, View.create_families, if_pos rfl]

theorem Mirrors.restart (h : Mirrors F m) (hi : m.isInitialized = true) {dirs : Option Throw}
    {m' : KVDBManager σ η} (hrun : (initializeManager F.toRocksDB dirs).run
      (resultState ((Kvdb.finalize F.toRocksDB).run m)) = .ok () m') :
    m'.isInitialized = true ∧ listDBs m' = listDBs m ∧
      (F.view m'.rocksDB).families = (F.view m.rocksDB).families := by
  rw [run_finalize, if_pos hi, resultState_ok] at hrun
  rcases initializeManager_cases (F := F) dirs (m := { m with
      mapCFHandles := ∅, isInitialized := false, pRocksDB := false
      rocksDB := F.close m.rocksDB }) rfl with ⟨m₁, hok, hopened⟩ | ⟨e, t, -, herr⟩
  · cases hok.symm.trans hrun
    have hfamilies : (F.view m'.rocksDB).families = (F.view m.rocksDB).families :=
      hopened.families.trans (congrArg View.families (F.close_view m.rocksDB) :)
    have hmirrors := hopened.mirrors rfl
    refine ⟨hopened.isInitialized, sortedSet_congr fun n => ?_, hfamilies⟩
    show n ∈ m'.mapCFHandles ↔ n ∈ m.mapCFHandles
    rw [hmirrors.keys hopened.isInitialized, h.keys hi, hfamilies]
  · cases herr.symm.trans hrun

/-- In every run the registry of an initialized manager mirrors RocksDB. -/
theorem mirrored {s : Session σ η} (h : (sessions F.toRocksDB J).Reachable s)
    (hi : s.manager.isInitialized = true) : RegistryMirrors F s.manager := by
  have hm := mirrors_of_reachable h
  exact {
    keys := hm.keys hi
    mem_listDBs := fun n => mem_listDBs.trans (hm.keys hi n)
    listDBs_sorted := pairwise_sortedSet _
    existsDB := fun n => ⟨_, rfl, (decide_eq_true_iff).trans (hm.keys hi n)⟩
    restart := fun _ _ => hm.restart hi
    created := fun _ _ => createDB_empty
    recreated := by
      intro n m₁ m₂ hdelete hcreate
      obtain ⟨t, hview, rfl⟩ := deleteDB_ok hm hdelete
      refine ⟨?_, createDB_empty ?_ hcreate⟩
      · show (F.view t).families n = none
        rw [hview, View.drop_families, if_pos rfl]
      · exact fun hmem => (AList.mem_erase.mp hmem).1 rfl }

end

/-- A run that creates a database. -/
theorem mirrored_once : listDBs (managerWith "geo" []) = ["geo"] ∧
    RegistryMirrors memRocksDB (managerWith "geo" []) :=
  ⟨rfl, mirrored (reachable_managerWith "geo" [] noJson rfl).of_guarded rfl⟩

end DistroDefender.Kvdb
