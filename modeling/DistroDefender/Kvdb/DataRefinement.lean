import DistroDefender.Kvdb.Databases
import DistroDefender.Kvdb.Loading

/-!
# The manager and its handlers keep databases

`Shows` relates a manager with its handlers to `Databases`: a name has the contents of its family,
and the live handlers are the grants. A current handler still has its handle in the map, since a
database with a live handler is not deleted (`current`). Each call is a step of `Databases`, so
every run is one (`databases_refined`).
-/

namespace DistroDefender.Kvdb

open Base Lib

variable {σ η : Type}

/-! ## The databases among the families -/

/-- The default family is no database. -/
def View.databases (v : View η) : String → Option Contents :=
  Function.update v.families kDefaultColumnFamilyName none

theorem View.databases_congr {v v' : View η} (h : v'.families = v.families) :
    v'.databases = v.databases := by
  unfold View.databases
  rw [h]

theorem View.databases_of_ne {v : View η} {name : String} (h : name ≠ kDefaultColumnFamilyName) :
    v.databases name = v.families name := by
  unfold View.databases
  rw [Function.update_of_ne h]

theorem View.databases_update {v v' : View η} {name : String}
    (hname : name ≠ kDefaultColumnFamilyName) {o : Option Contents}
    (h : v'.families = Function.update v.families name o) :
    v'.databases = Function.update v.databases name o := by
  unfold View.databases
  rw [h, Function.update_comm hname]

/-- The handlers of this era. -/
def Data.current (s : Data σ η) : List (KVDBHandler η) :=
  (s.live.filter fun x => x.era = s.era).map Held.handler

theorem Data.mem_current {s : Data σ η} {y : KVDBHandler η} :
    y ∈ s.current ↔ ∃ x ∈ s.live, x.era = s.era ∧ x.handler = y := by
  simp [Data.current, and_assoc]

variable [DecidableEq η] {D : DataStore σ η} {J : Rapidjson}

structure Shows (D : DataStore σ η) (s : Data σ η) (a : Databases) : Prop where
  mirrors : Mirrors D.toFamilyStore s.manager
  counts : s.manager.kvdbHandlerCollection.Counts (s.session.live.map KVDBHandler.pair)
  few : s.live.length < UInt32.size
  isOpen : a.isOpen = s.manager.isInitialized
  era : a.era = s.era
  contents : a.contents = (D.view s.manager.rocksDB).databases
  grants : a.grants = s.live.map Held.grant
  current : ∀ y ∈ s.current, s.manager.mapCFHandles.lookup y.dbName = some y.weakCFHandle
  past : ∀ x ∈ s.live, x.era ≤ s.era

namespace Shows

variable {s : Data σ η} {m m' : KVDBManager σ η} {era : Nat} {live : List (Held η)} {a : Databases}

theorem mem_iff (h : Shows D s a) (hi : s.manager.isInitialized = true) {name : String} :
    name ∈ s.manager.mapCFHandles ↔ a.contents name ≠ none := by
  rw [h.mirrors.keys hi, h.contents]
  unfold View.databases
  rw [Function.update_apply]
  split
  · simp [*]
  · simp [*]

/-- A name in the map has contents. -/
theorem of_lookup (h : Shows D s a) {name : String} {hd : η}
    (hfind : s.manager.mapCFHandles.lookup name = some hd) :
    name ≠ kDefaultColumnFamilyName ∧ (D.view s.manager.rocksDB).ref hd = .names name ∧
      ∃ c, (D.view s.manager.rocksDB).families name = some c ∧ a.contents name = some c := by
  obtain ⟨hsome, hname⟩ := h.mirrors.families_of_lookup hfind
  obtain ⟨c, hc⟩ := Option.ne_none_iff_exists'.mp hsome
  refine ⟨hname, h.mirrors.refs name hd hfind, c, hc, ?_⟩
  rw [h.contents, View.databases_of_ne hname]
  exact hc

theorem count_eq_zero_iff (h : Shows D s a) (name : String) :
    s.manager.kvdbHandlerCollection.getKVDBHandlersCount name = 0 ↔ a.Unused name := by
  have hfew : (s.session.live.map KVDBHandler.pair).length < UInt32.size := by
    rw [List.length_map]
    show (s.live.map Held.handler).length < _
    rw [List.length_map]
    exact h.few
  rw [h.counts.getKVDBHandlersCount_eq_zero hfew]
  unfold Databases.Unused
  rw [h.grants]
  constructor
  · intro hnone g hg hname
    obtain ⟨x, hx, rfl⟩ := List.mem_map.mp hg
    refine hnone x.handler.scopeName (List.mem_map.mpr ⟨x.handler, List.mem_map_of_mem hx, ?_⟩)
    rw [← hname]
    rfl
  · intro hunused scope hmem
    obtain ⟨y, hy, hpair⟩ := List.mem_map.mp hmem
    obtain ⟨x, hx, rfl⟩ := List.mem_map.mp hy
    exact hunused x.grant (List.mem_map_of_mem hx) (congrArg Prod.fst hpair)

theorem stay (h : Shows D s a) : Stay s.manager.kvdbHandlerCollection s.current s.manager :=
  ⟨rfl, h.current⟩

/-- A database with a current handler is in use. -/
theorem used (h : Shows D s a) :
    ∀ y ∈ s.current, s.manager.kvdbHandlerCollection.getKVDBHandlersCount y.dbName ≠ 0 := by
  intro y hy hzero
  obtain ⟨x, hx, -, rfl⟩ := Data.mem_current.mp hy
  have hunused := (h.count_eq_zero_iff _).mp hzero x.grant
  rw [h.grants] at hunused
  exact hunused (List.mem_map_of_mem hx) rfl

/-- A call of the manager that does not touch the handlers. -/
theorem moved (h : Shows D ⟨m, era, live⟩ a) (hmirrors : Mirrors D.toFamilyStore m')
    (hinit : m'.isInitialized = m.isInitialized)
    (hstay : Stay m.kvdbHandlerCollection (Data.current ⟨m, era, live⟩) m')
    {contents : String → Option Contents} (hcontents : contents = (D.view m'.rocksDB).databases) :
    Shows D ⟨m', era, live⟩ { a with contents := contents } where
  mirrors := hmirrors
  counts := by
    show m'.kvdbHandlerCollection.Counts _
    rw [hstay.1]
    exact h.counts
  few := h.few
  isOpen := h.isOpen.trans hinit.symm
  era := h.era
  contents := hcontents
  grants := h.grants
  current := hstay.2
  past := h.past

/-- A call after which the databases are the same. -/
theorem same (h : Shows D ⟨m, era, live⟩ a) (hmirrors : Mirrors D.toFamilyStore m')
    (hinit : m'.isInitialized = m.isInitialized)
    (hstay : Stay m.kvdbHandlerCollection (Data.current ⟨m, era, live⟩) m')
    (hfamilies : (D.view m'.rocksDB).families = (D.view m.rocksDB).families) :
    Shows D ⟨m', era, live⟩ a :=
  h.moved hmirrors hinit hstay (h.contents.trans (View.databases_congr hfamilies).symm)

/-! ## Opening and closing -/

/-- While the manager is closed there is no handler of this era. -/
theorem no_current (h : Shows D s a) (hi : s.manager.isInitialized = false) {y : KVDBHandler η} :
    y ∉ s.current := by
  intro hy
  have hfind := h.current y hy
  rw [h.mirrors.closed hi, AList.lookup_empty] at hfind
  cases hfind

theorem setUp (h : Shows D ⟨m, era, live⟩ a) (dirs : Option Throw) :
    ∃ a', Databases.Step J a
      (.setUp dirs, .unit (answer ((initializeManager D.toRocksDB dirs).run m))) a' ∧
      Shows D ⟨resultState ((initializeManager D.toRocksDB dirs).run m), era, live⟩ a' := by
  cases hi : m.isInitialized with
  | true =>
    rw [initializeManager_again _ dirs hi]
    exact ⟨a, .opensAgain dirs (h.isOpen.trans hi), h⟩
  | false =>
    have hmirrors := h.mirrors.setUp dirs
    have hcoll := initializeManager_collection (R := D.toRocksDB) dirs m
    rcases initializeManager_cases (F := D.toFamilyStore) dirs hi with
        ⟨m', hrun, hopened⟩ | ⟨e, t, hview, hrun⟩
    · rw [hrun] at hmirrors hcoll ⊢
      refine ⟨{ a with isOpen := true }, .opened dirs (h.isOpen.trans hi), ?_⟩
      exact {
        mirrors := hmirrors
        counts := by
          show m'.kvdbHandlerCollection.Counts _
          rw [show m'.kvdbHandlerCollection = m.kvdbHandlerCollection from hcoll]
          exact h.counts
        few := h.few
        isOpen := hopened.isInitialized.symm
        era := h.era
        contents := h.contents.trans (View.databases_congr hopened.families).symm
        grants := h.grants
        current := fun y hy => absurd hy (h.no_current hi)
        past := h.past }
    · rw [hrun]
      exact ⟨a, .notOpened dirs e (h.isOpen.trans hi),
        h.same (h.mirrors.of_view hview) rfl h.stay (congrArg View.families hview)⟩

theorem finalize (h : Shows D ⟨m, era, live⟩ a) :
    ∃ a', Databases.Step J a (.finalize, .unit (answer ((Kvdb.finalize D.toRocksDB).run m))) a' ∧
      Shows D ⟨resultState ((Kvdb.finalize D.toRocksDB).run m), if m.isInitialized then era + 1
        else era, live⟩ a' := by
  have hmirrors := h.mirrors.finalize
  have hcoll := finalize_collection (R := D.toRocksDB) m
  rw [run_finalize] at hmirrors hcoll ⊢
  cases hi : m.isInitialized with
  | false => exact ⟨a, .closesAgain (h.isOpen.trans hi), h⟩
  | true =>
    rw [hi] at hmirrors hcoll
    refine ⟨{ a with isOpen := false, era := a.era + 1 }, .closed (h.isOpen.trans hi), ?_⟩
    exact {
      mirrors := hmirrors
      counts := h.counts
      few := h.few
      isOpen := rfl
      era := congrArg (· + 1) h.era
      contents := h.contents.trans
        (View.databases_congr (congrArg View.families (D.close_view m.rocksDB) :)).symm
      grants := h.grants
      current := by
        intro y hy
        obtain ⟨x, hx, he, -⟩ := Data.mem_current.mp hy
        have hpast : x.era ≤ era := h.past x hx
        have heq : x.era = era + 1 := he
        omega
      past := fun x hx => Nat.le_succ_of_le (h.past x hx) }

/-! ## Creating and deleting -/

theorem createDB (h : Shows D ⟨m, era, live⟩ a) (name : String) (hdb : m.pRocksDB = true) :
    ∃ a', Databases.Step J a
      (.createDB name, .error (answer (runOp D.toRocksDB noFiles (createDB name) m))) a' ∧
      Shows D ⟨after D.toRocksDB noFiles (Kvdb.createDB name) m, era, live⟩ a' := by
  have hi : m.isInitialized = true := h.mirrors.pRocksDB.symm.trans hdb
  have hopen : MirrorsOpen D.toFamilyStore (after D.toRocksDB noFiles (Kvdb.createDB name) m) :=
    mirrorsOpen_createDB name m ⟨h.mirrors, hi⟩
  have hstay : Stay _ _ (after D.toRocksDB noFiles (Kvdb.createDB name) m) :=
    stay_createDB name m h.stay
  by_cases hok : ∃ m', runOp D.toRocksDB noFiles (Kvdb.createDB name) m = .ok none m'
  · obtain ⟨m', hrun⟩ := hok
    have hafter := after_of_run hrun
    rw [hafter, hrun]
    rcases createDB_ok (F := D.toFamilyStore) hrun with
        ⟨hmem, rfl⟩ | ⟨habsent, hd, t, hnew, -, hview, rfl⟩
    · exact ⟨a, .found name ((h.mem_iff hi).mp hmem), h⟩
    · have hname : name ≠ kDefaultColumnFamilyName := by
        rintro rfl
        exact D.default_mem _ hnew
      refine ⟨a.write name fun _ => none, .created name (h.isOpen.trans hi) hname ?_, ?_⟩
      · rw [h.contents, View.databases_of_ne hname]
        exact hnew
      · refine h.moved (hafter ▸ hopen.1) (hi ▸ rfl) (hafter ▸ hstay) ?_
        show Function.update a.contents name _ = (D.view t).databases
        rw [View.databases_update hname (congrArg View.families hview), h.contents]
  · obtain ⟨t, hview, ht⟩ := createDB_not_ok (F := D.toFamilyStore) (not_exists.mp hok)
    have habsent : name ∉ m.mapCFHandles := fun hmem => hok ⟨m, createDB_present hmem⟩
    rw [ht]
    refine ⟨a, .notCreated name (not_not.mp fun hsome => habsent ((h.mem_iff hi).mpr hsome))
      (answer_ne_of_run (not_exists.mp hok)), ?_⟩
    exact h.same (h.mirrors.of_view hview) rfl h.stay (congrArg View.families hview)

theorem createDBFromFile (h : Shows D ⟨m, era, live⟩ a) (name path : String) (files : Files)
    (hdb : m.pRocksDB = true) :
    ∃ a', Databases.Step J a (.createDBFromFile name path files,
        .error (answer (runOp D.toRocksDB files (createDBFromFile J name path) m))) a' ∧
      Shows D ⟨after D.toRocksDB files (Kvdb.createDBFromFile J name path) m, era, live⟩ a' := by
  have hi : m.isInitialized = true := h.mirrors.pRocksDB.symm.trans hdb
  have hopen :
      MirrorsOpen D.toFamilyStore (after D.toRocksDB files (Kvdb.createDBFromFile J name path) m) :=
    mirrorsOpen_createDBFromFile name path m ⟨h.mirrors, hi⟩
  have hstay : Stay _ _ (after D.toRocksDB files (Kvdb.createDBFromFile J name path) m) :=
    stay_createDBFromFile h.used name path m h.stay
  have hload :=
    createDBFromFile_loading (F := D.toFamilyStore) (J := J) ⟨h.mirrors, hi⟩ files name path
  have hat : name ≠ kDefaultColumnFamilyName →
      a.contentsAt name = (D.view m.rocksDB).contentsAt name := by
    intro hname
    unfold Databases.contentsAt View.contentsAt
    rw [h.contents, View.databases_of_ne hname]
  have hmoved : ∀ contents, contents = (D.view (after D.toRocksDB files _ m).rocksDB).databases →
      Shows D ⟨after D.toRocksDB files (Kvdb.createDBFromFile J name path) m, era, live⟩
        { a with contents := contents } :=
    fun contents hcontents => h.moved hopen.1 (hopen.2.trans hi.symm) hstay hcontents
  generalize hm' : after D.toRocksDB files (Kvdb.createDBFromFile J name path) m =
    m' at hload hmoved ⊢
  generalize hr : answer (runOp D.toRocksDB files (Kvdb.createDBFromFile J name path) m) =
    r at hload ⊢
  generalize hf : (D.view m'.rocksDB).families = f at hload
  cases hload with
  | loaded hname hfile =>
    refine ⟨_, .loaded name path files hname hfile, hmoved _ ?_⟩
    rw [View.databases_update hname hf, h.contents, hat hname]
  | notLoaded hr =>
    exact ⟨a, .notLoaded name path files hr,
      hmoved _ (h.contents.trans (View.databases_congr hf).symm)⟩
  | partlyLoaded hname hfile hentries hr =>
    refine ⟨_, .partlyLoaded name path files hname hfile hentries hr, hmoved _ ?_⟩
    rw [View.databases_update hname hf, h.contents, hat hname]
  | takenBack hcount hname hr =>
    refine ⟨_, .takenBack name path files ((h.count_eq_zero_iff name).mp hcount) hr, hmoved _ ?_⟩
    rw [View.databases_update hname hf, h.contents]

theorem deleteDB (h : Shows D ⟨m, era, live⟩ a) (name : String) :
    ∃ a', Databases.Step J a
      (.deleteDB name, .error (answer (runOp D.toRocksDB noFiles (deleteDB name) m))) a' ∧
      Shows D ⟨after D.toRocksDB noFiles (Kvdb.deleteDB name) m, era, live⟩ a' := by
  have hstay : Stay _ _ (after D.toRocksDB noFiles (Kvdb.deleteDB name) m) :=
    stay_deleteDB h.used name m h.stay
  by_cases hok : ∃ m', runOp D.toRocksDB noFiles (Kvdb.deleteDB name) m = .ok none m'
  · obtain ⟨m', hrun⟩ := hok
    have hafter := after_of_run hrun
    obtain ⟨hmem, hcount⟩ : name ∈ m.mapCFHandles ∧
        m.kvdbHandlerCollection.getKVDBHandlersCount name = 0 := by
      by_contra hnot
      obtain ⟨e, he⟩ := deleteDB_refused D.toRocksDB noFiles hnot
      cases he.symm.trans hrun
    have hi : m.isInitialized = true := h.mirrors.isInitialized_of_mem hmem
    have hname := ((h.mirrors.keys hi name).mp hmem).2
    rw [hafter, hrun]
    obtain ⟨t, hview, rfl⟩ := deleteDB_ok (F := D.toFamilyStore) h.mirrors hrun
    refine ⟨a.drop name, .deleted name ((h.mem_iff hi).mp hmem)
      ((h.count_eq_zero_iff name).mp hcount), ?_⟩
    refine h.moved (h.mirrors.dropped hview) rfl (hafter ▸ hstay) ?_
    show Function.update a.contents name none = (D.view t).databases
    rw [View.databases_update hname (congrArg View.families hview), h.contents]
  · obtain ⟨t, hview, ht⟩ := deleteDB_not_ok (F := D.toFamilyStore) (not_exists.mp hok)
    rw [ht]
    exact ⟨a, .notDeleted name (answer_ne_of_run (not_exists.mp hok)),
      h.same (h.mirrors.of_view hview) rfl h.stay (congrArg View.families hview)⟩

/-! ## Handlers -/

theorem counts_below (h : Shows D s a) (p : String × String) :
    (s.session.live.map KVDBHandler.pair).count p < UInt32.size := by
  refine Nat.lt_of_le_of_lt (List.count_le_length.trans_eq ?_) h.few
  rw [List.length_map]
  exact List.length_map ..

theorem getKVDBHandler (h : Shows D ⟨m, era, live⟩ a) {dbName scopeName : String}
    {hd : KVDBHandler η} (hfew : live.length + 1 < UInt32.size)
    (hrun : runOp D.toRocksDB noFiles (getKVDBHandler dbName scopeName) m = .ok (.ok hd) m') :
    ∃ a', Databases.Step J a (.getKVDBHandler dbName scopeName,
      .handler (.ok (Held.grant ⟨hd, era⟩))) a' ∧ Shows D ⟨m', era, ⟨hd, era⟩ :: live⟩ a' := by
  have hcounts := counts_step (J := J) (s := ⟨m, _⟩) h.counts h.counts_below (.obtained hrun)
  rw [runOp_getKVDBHandler] at hrun
  cases hfind : m.mapCFHandles.lookup dbName with
  | none =>
    rw [hfind] at hrun
    cases hrun
  | some cfHandle =>
    rw [hfind] at hrun
    cases hrun
    obtain ⟨-, -, c, -, hc⟩ := h.of_lookup hfind
    have hi : m.isInitialized = true :=
      h.mirrors.isInitialized_of_mem (AList.lookup_isSome.mp (by rw [hfind]; rfl))
    refine ⟨{ a with grants := ⟨dbName, scopeName, a.era⟩ :: a.grants }, ?_, ?_⟩
    · show Databases.Step J a (_, .handler (.ok ⟨dbName, scopeName, era⟩)) _
      rw [show era = a.era from h.era.symm]
      refine .granted dbName scopeName (h.isOpen.trans hi) ?_
      rw [hc]
      exact Option.some_ne_none c
    · exact {
        mirrors := h.mirrors.of_collection _
        counts := hcounts
        few := hfew
        isOpen := h.isOpen
        era := h.era
        contents := h.contents
        grants := by
          show _ :: a.grants = Held.grant ⟨⟨cfHandle, dbName, scopeName⟩, era⟩ ::
            live.map Held.grant
          rw [h.grants, h.era]
          rfl
        current := by
          intro y hy
          obtain ⟨x, hx, he, rfl⟩ := Data.mem_current.mp hy
          rcases List.mem_cons.mp hx with rfl | hx
          · exact hfind
          · exact h.current _ (Data.mem_current.mpr ⟨x, hx, he, rfl⟩)
        past := List.forall_mem_cons.mpr ⟨Nat.le_refl era, h.past⟩ }

theorem getKVDBHandler_refused (h : Shows D ⟨m, era, live⟩ a) {dbName scopeName : String}
    {e : Error} (hrun : runOp D.toRocksDB noFiles (Kvdb.getKVDBHandler dbName scopeName) m =
      .ok (.error e) m') :
    Databases.Step J a (.getKVDBHandler dbName scopeName, .handler (.error e)) a ∧
    Shows D ⟨m', era, live⟩ a := by
  rw [runOp_getKVDBHandler] at hrun
  cases hfind : m.mapCFHandles.lookup dbName with
  | some cfHandle =>
    rw [hfind] at hrun
    cases hrun
  | none =>
    rw [hfind] at hrun
    cases hrun
    refine ⟨.refused dbName scopeName ?_, h⟩
    cases hi : m.isInitialized with
    | false => exact .inl (h.isOpen.trans hi)
    | true => exact .inr (not_not.mp fun hsome => AList.lookup_eq_none.mp hfind
      ((h.mem_iff hi).mpr hsome))

theorem destroy {before behind : List (Held η)} {x : Held η}
    (h : Shows D ⟨m, era, before ++ x :: behind⟩ a) :
    ∃ a', Databases.Step J a (.destroy x.grant, .unit (.ok ())) a' ∧
      Shows D ⟨after D.toRocksDB noFiles (destroy x.handler) m, era, before ++ behind⟩ a' := by
  have hlive : ∀ {y : Held η}, y ∈ before ++ behind → y ∈ before ++ x :: behind := fun hy =>
    (List.perm_middle (a := x)).mem_iff.mpr (List.mem_cons_of_mem x hy)
  have hgrants : a.grants = before.map Held.grant ++ x.grant :: behind.map Held.grant :=
    h.grants.trans (List.map_append ..)
  have hcounts := h.counts
  have hbelow := h.counts_below
  unfold Data.session at hcounts hbelow
  rw [List.map_append, List.map_cons] at hcounts hbelow
  have hless :=
    counts_step (R := D.toRocksDB) (J := J) (s := ⟨m, _⟩) hcounts hbelow (.destroy x.handler)
  refine ⟨_, .destroyed x.grant hgrants, ?_⟩
  exact {
    mirrors := h.mirrors.of_collection _
    counts := by
      unfold Data.session
      rw [List.map_append]
      exact hless
    few := by
      have hfew : (before ++ x :: behind).length < UInt32.size := h.few
      show (before ++ behind).length < _
      rw [List.length_append] at hfew ⊢
      exact Nat.lt_of_succ_lt hfew
    isOpen := h.isOpen
    era := h.era
    contents := h.contents
    grants := (List.map_append ..).symm
    current := by
      intro y hy
      obtain ⟨z, hz, he, rfl⟩ := Data.mem_current.mp hy
      exact h.current _ (Data.mem_current.mpr ⟨z, hlive hz, he, rfl⟩)
    past := fun y hy => h.past y (hlive hy) }

/-! ## The calls of a handler -/

/-- A live handler can be locked, and is a grant of this era, or its database was closed. -/
theorem locks (h : Shows D s a) {x : Held η} (hx : x ∈ s.live) :
    ((s.locks x).weakDB = false ∧ a.Expired x.grant) ∨
      ((s.locks x).Live ∧ s.manager.mapCFHandles.lookup x.handler.dbName =
        some x.handler.weakCFHandle) := by
  by_cases he : x.era = s.era
  · have hfind := h.current _ (Data.mem_current.mpr ⟨x, hx, he, rfl⟩)
    refine .inr ⟨⟨decide_eq_true he,
      List.any_eq_true.mpr ⟨x.handler.dbName, ?_, decide_eq_true hfind⟩⟩, hfind⟩
    exact AList.mem_keys.mp (AList.lookup_isSome.mp (by rw [hfind]; rfl))
  · refine .inl ⟨decide_eq_false he, ?_, ?_⟩
    · rw [h.grants]
      exact List.mem_map_of_mem hx
    · rw [h.era]
      exact he

theorem grants_of_lookup (h : Shows D s a) {x : Held η} (hx : x ∈ s.live) (hl : (s.locks x).Live)
    {c : Contents} (hc : a.contents x.handler.dbName = some c) : a.Grants x.grant c where
  held := by
    rw [h.grants]
    exact List.mem_map_of_mem hx
  current := (of_decide_eq_true hl.1).trans h.era.symm
  contents := hc

end Shows

/-! ### Writes -/

section Writes

variable {s : Data σ η} {a : Databases} {x : Held η}

theorem run_writing_expired (h : (s.locks x).weakDB = false) (call : η → Call σ (Status Unit))
    (report : String → Error) :
    (Data.writing D x call report).run s = .ok (some Databases.unavailable) s := by
  show EStateM.run (if !(s.locks x).weakDB then _ else _) s = _
  rw [h]
  rfl

/-- Through pointers that can be locked, a write is the call of RocksDB. -/
theorem run_writing (h : (s.locks x).Live) (call : η → Call σ (Status Unit))
    (report : String → Error) : (Data.writing D x call report).run s =
      match (call x.handler.weakCFHandle).run s.manager.rocksDB with
      | .ok (.ok ()) t => .ok none { s with manager := { s.manager with rocksDB := t } }
      | .ok (.error status) t =>
        .ok (some (report (Handler.KVDBHandler.stateText (D.getState status))))
          { s with manager := { s.manager with rocksDB := t } }
      | .error e t => .error e { s with manager := { s.manager with rocksDB := t } } := by
  have hcall : (Data.onRocksDB (call x.handler.weakCFHandle)).run s = _ := run_onPart ..
  show EStateM.run (if !(s.locks x).weakDB then _ else if !(s.locks x).weakCFHandle then _
    else _) s = _
  rw [h.1, h.2]
  simp only [Bool.not_true, Bool.false_eq_true, if_false]
  rw [EStateM.run_bind, hcall]
  cases (call x.handler.weakCFHandle).run s.manager.rocksDB with
  | error e t => rfl
  | ok status t => cases status <;> rfl

/-- The family of a name gets other contents. -/
theorem Mirrors.rewritten {F : FamilyStore σ η} {m : KVDBManager σ η} (h : Mirrors F m)
    {name : String} {c c' : Contents} {t : σ} (hc : (F.view m.rocksDB).families name = some c)
    (ht : F.view t =
      { F.view m.rocksDB with
        families := Function.update (F.view m.rocksDB).families name (some c') }) :
    Mirrors F { m with rocksDB := t } where
  pRocksDB := h.pRocksDB
  closed := h.closed
  keys hi n := by
    show _ ↔ (F.view t).families n ≠ none ∧ _
    rw [ht]
    show _ ↔ Function.update (F.view m.rocksDB).families name (some c') n ≠ none ∧ _
    rw [Function.update_apply]
    refine (h.keys hi n).trans (and_congr_left' ?_)
    split
    · rename_i hn
      rw [hn, hc]
      simp
    · rfl
  refs n hd hn := by
    show (F.view t).ref hd = _
    rw [ht]
    exact h.refs n hd hn

/-- A write through a live handler is refused, fails without a trace, or changes the contents as `f`
does. -/
theorem Shows.writing (h : Shows D s a) (hx : x ∈ s.live) {call : η → Call σ (Status Unit)}
    {report : String → Error} {f : Contents → Contents}
    (hdoes : ∀ t hd, Does D.view t ((call hd).run t) fun _ v => ∃ name c,
      (D.view t).ref hd = .names name ∧ (D.view t).families name = some c ∧
      v = { D.view t with families := Function.update (D.view t).families name (some (f c)) }) :
    (a.Expired x.grant ∧ (Data.writing D x call report).run s =
      .ok (some Databases.unavailable) s) ∨ ∃ c, a.Grants x.grant c ∧
        ((answer ((Data.writing D x call report).run s) = .ok none ∧
            Shows D (resultState ((Data.writing D x call report).run s))
              (a.write x.handler.dbName (f c))) ∨
          (answer ((Data.writing D x call report).run s) ≠ .ok none ∧
            Shows D (resultState ((Data.writing D x call report).run s)) a)) := by
  rcases h.locks hx with ⟨hdb, hexpired⟩ | ⟨hl, hfind⟩
  · exact .inl ⟨hexpired, run_writing_expired hdb call report⟩
  obtain ⟨hname, href, c, hfam, hc⟩ := h.of_lookup hfind
  refine .inr ⟨c, h.grants_of_lookup hx hl hc, ?_⟩
  rw [run_writing hl]
  obtain ⟨m, era, live⟩ := s
  have hcall := hdoes m.rocksDB x.handler.weakCFHandle
  cases hput : (call x.handler.weakCFHandle).run m.rocksDB with
  | error e t =>
    rw [hput] at hcall
    exact .inr ⟨nofun, h.same (h.mirrors.of_view hcall) rfl h.stay (congrArg View.families hcall)⟩
  | ok status t =>
    rw [hput] at hcall
    cases status with
    | error text =>
      exact .inr ⟨nofun, h.same (h.mirrors.of_view hcall) rfl h.stay (congrArg View.families hcall)⟩
    | ok u =>
      obtain ⟨n, c', hn, hc', hview⟩ := hcall
      cases href.symm.trans hn
      cases hfam.symm.trans hc'
      refine .inl ⟨rfl, h.moved (h.mirrors.rewritten hfam hview) rfl h.stay ?_⟩
      show Function.update a.contents x.handler.dbName _ = (D.view t).databases
      rw [View.databases_update hname (congrArg View.families hview), h.contents]

theorem Shows.set (h : Shows D s a) (hx : x ∈ s.live) (key value : String) :
    ∃ a', Databases.Step J a
      (.set x.grant key value, .error (answer ((Data.set D x key value).run s))) a' ∧
      Shows D (resultState ((Data.set D x key value).run s)) a' := by
  rcases h.writing hx (fun t hd => D.put_does t hd key value) with
    ⟨hexpired, hrun⟩ | ⟨c, hc, ⟨hok, hs⟩ | ⟨hnot, hs⟩⟩
  · refine ⟨a, ?_, ?_⟩
    · unfold Data.set
      rw [hrun]
      exact .setExpired hexpired key value
    · unfold Data.set
      rw [hrun]
      exact h
  · refine ⟨_, ?_, hs⟩
    unfold Data.set
    rw [hok]
    exact .set hc key value
  · exact ⟨a, .notSet hc key value hnot, hs⟩

theorem Shows.remove (h : Shows D s a) (hx : x ∈ s.live) (key : String) :
    ∃ a', Databases.Step J a
      (.remove x.grant key, .error (answer ((Data.remove D x key).run s))) a' ∧
      Shows D (resultState ((Data.remove D x key).run s)) a' := by
  rcases h.writing hx (fun t hd => D.delete_does t hd key) with
    ⟨hexpired, hrun⟩ | ⟨c, hc, ⟨hok, hs⟩ | ⟨hnot, hs⟩⟩
  · refine ⟨a, ?_, ?_⟩
    · unfold Data.remove
      rw [hrun]
      exact .removeExpired hexpired key
    · unfold Data.remove
      rw [hrun]
      exact h
  · refine ⟨_, ?_, hs⟩
    unfold Data.remove
    rw [hok]
    exact .removed hc key
  · exact ⟨a, .notRemoved hc key hnot, hs⟩

end Writes

/-! ### Reads -/

section Reads

open Handler.KVDBHandler

variable {s : Data σ η} {a : Databases} {x : Held η}

theorem locked_of_expired {α : Type} {h : Handler.KVDBHandler} (hdb : h.weakDB = false)
    (r : RespOrError α) : h.locked r = .error Databases.unavailable := by
  unfold locked
  rw [hdb]
  rfl

/-- A read through a live handler is refused, or reads the contents under the name of the grant. -/
theorem Shows.reading (h : Shows D s a) (hx : x ∈ s.live) {cf : Handler.ColumnFamily}
    (hcf : Data.Reads D x s cf) :
    (a.Expired x.grant ∧ ∀ {α : Type} (r : RespOrError α),
      (s.locks x).locked r = .error Databases.unavailable) ∨
      ∃ c m, a.Grants x.grant c ∧ (∀ key, m.lookup key = c key) ∧ cf.Answers m ∧
      (s.locks x).Live := by
  rcases h.locks hx with ⟨hdb, hexpired⟩ | ⟨hl, hfind⟩
  · exact .inl ⟨hexpired, fun r => locked_of_expired hdb r⟩
  · obtain ⟨-, href, c, hfam, hc⟩ := h.of_lookup hfind
    obtain ⟨m, hm, hanswers⟩ := D.reads_answer _ _ cf _ _ (hcf hl) href hfam
    exact .inr ⟨c, m, h.grants_of_lookup hx hl hc, hm, hanswers, hl⟩

theorem Shows.get (h : Shows D s a) (hx : x ∈ s.live) {cf : Handler.ColumnFamily}
    (hcf : Data.Reads D x s cf) (key : String) :
    Databases.Step J a (.get x.grant key, .value ((s.locks x).get cf key)) a := by
  rcases h.reading hx hcf with ⟨hexpired, hlocked⟩ | ⟨c, m, hc, hm, hanswers, hl⟩
  · unfold Handler.KVDBHandler.get
    rw [hlocked]
    exact .getExpired hexpired key
  · unfold Handler.KVDBHandler.get
    rw [locked_of_live hl]
    rcases hanswers.get key with ⟨state, hfailed⟩ | hread
    · rw [hfailed]
      exact .notGot hc key state
    · have hgot := Databases.Step.got (J := J) hc key
      rw [hread, hm]
      cases hkey : c key with
      | none =>
        rw [hkey] at hgot
        exact hgot
      | some value =>
        rw [hkey] at hgot
        exact hgot

theorem Shows.contains (h : Shows D s a) (hx : x ∈ s.live) {cf : Handler.ColumnFamily}
    (hcf : Data.Reads D x s cf) (key : String) :
    Databases.Step J a (.contains x.grant key, .flag ((s.locks x).contains cf key)) a := by
  rcases h.reading hx hcf with ⟨hexpired, hlocked⟩ | ⟨c, m, hc, hm, hanswers, hl⟩
  · unfold Handler.KVDBHandler.contains
    rw [hlocked]
    exact .containsExpired hexpired key
  · unfold Handler.KVDBHandler.contains
    rw [locked_of_live hl]
    rcases hanswers.mayExist key with ⟨ex, hthrown⟩ | ⟨may, found, hprobe, -⟩
    · rw [hthrown]
      exact .notProbed hc key ex
    · rw [hprobe]
      cases found with
      | false => exact .contains hc key nofun
      | true =>
        -- what the probe found is read
        rcases hanswers.get key with ⟨state, hfailed⟩ | hread
        · simp only [hfailed]
          exact .contains hc key nofun
        · simp only [hread, hm]
          cases hkey : c key with
          | none => exact .contains hc key nofun
          | some value =>
            refine .contains hc key fun _ => ?_
            rw [hkey]
            exact Option.some_ne_none value

theorem Shows.page (h : Shows D s a) (hx : x ∈ s.live) {cf : Handler.ColumnFamily}
    (hcf : Data.Reads D x s cf) (q : Listing) (page records : UInt32) :
    Databases.Step J a
      (.page x.grant q page records, .entries (q.page (s.locks x) cf page records)) a := by
  rcases h.reading hx hcf with ⟨hexpired, hlocked⟩ | ⟨c, m, hc, hm, hanswers, hl⟩
  · have hpage : q.page (s.locks x) cf page records = .error Databases.unavailable := by
      cases q <;> exact hlocked _
    rw [hpage]
    exact .pageExpired hexpired q page records
  · rcases q.page_answers hl hanswers page records with ⟨text, hfailed⟩ | hpage
    · rw [hfailed]
      exact .notListed hc q page records text
    · rw [hpage]
      exact .page hc q page records hm

end Reads

/-! ## Runs -/

theorem shows_step {s s' : Data σ η} {a : Databases} {l : DataOp × DataAnswer} (h : Shows D s a)
    (hfew : FewHandlers s l) (hs : DataStep D J s l s') : ∃ a', Databases.Step J a l a' ∧
    Shows D s' a' := by
  cases hs with
  | setUp dirs => exact h.setUp dirs
  | finalize => exact h.finalize
  | createDB name hdb => exact h.createDB name hdb
  | createDBFromFile name path files hdb => exact h.createDBFromFile name path files hdb
  | deleteDB name => exact h.deleteDB name
  | obtained hrun => exact h.getKVDBHandler (hfew _ _ rfl) hrun
  | refused hrun => exact ⟨a, h.getKVDBHandler_refused hrun⟩
  | destroy x => exact h.destroy
  | set hx key value => exact h.set hx key value
  | remove hx key => exact h.remove hx key
  | get hx hcf key => exact ⟨a, h.get hx hcf key, h⟩
  | contains hx hcf key => exact ⟨a, h.contains hx hcf key, h⟩
  | page hx hcf q page records => exact ⟨a, h.page hx hcf q page records, h⟩

theorem shows_simulation (D : DataStore σ η) (J : Rapidjson) :
    Simulation ((dataRuns D J).guarded FewHandlers) (Databases.system J) (Shows D) where
  init := by
    rintro s ⟨storage, rfl⟩
    refine ⟨⟨false, 0, (D.view storage).databases, []⟩, ⟨rfl, rfl, rfl, ?_⟩, ?_⟩
    · exact Function.update_self kDefaultColumnFamilyName none (D.view storage).families
    · exact {
        mirrors := ⟨rfl, fun _ => rfl, nofun,
          fun n hd hn => by cases (AList.lookup_empty n).symm.trans hn⟩
        counts := .empty
        few := by
          show 0 < UInt32.size
          decide
        isOpen := rfl
        era := rfl
        contents := rfl
        grants := rfl
        current := nofun
        past := nofun }
  step := fun _ _ _ _ h hs => shows_step h hs.1 hs.2

/-- Every run of the manager and its handlers is a run of databases behind grants, with the same
calls and answers. -/
theorem databases_refined {ls : List (DataOp × DataAnswer)} {s : Data σ η}
    (h : ((dataRuns D J).guarded FewHandlers).Trace ls s) :
    ∃ a, (Databases.system J).Trace ls a ∧ Shows D s a :=
  (shows_simulation D J).trace h

def heldOnce : Held Nat := ⟨⟨1, "geo", "decoder"⟩, 0⟩

/-- The family with the value `v` under `k`, and the same one when no read of it succeeds. -/
def oneValue : Map String String := (∅ : Map String String).insert "k" "v"

def unreadable : Handler.ColumnFamily where
  Get _ := .failed (some "IO error")
  KeyMayExist _ := .error (.runtimeError "IO error")
  NewIterator := .done (.error "IO error")

theorem unreadable_answers (c : Map String String) : unreadable.Answers c where
  get _ := .inl ⟨_, rfl⟩
  mayExist _ := .inl ⟨_, rfl⟩
  iterator := ⟨[], _, _, rfl, rfl, .inr ⟨_, rfl⟩⟩

/-- A value is set and got, not got when the read fails, and refused once the manager was closed. -/
theorem databases_refined_once : ∃ a, (Databases.system noJson).Trace [
    (.setUp none, .unit (.ok ())), (.createDB "geo", .error (.ok none)),
    (.getKVDBHandler "geo" "decoder", .handler (.ok heldOnce.grant)),
    (.set heldOnce.grant "k" "v", .error (.ok none)), (.get heldOnce.grant "k", .value (.ok "v")),
    (.get heldOnce.grant "k", .value (.error ⟨"Cannot get key 'k'. Error: IO error"⟩)),
    (.finalize, .unit (.ok ())),
    (.get heldOnce.grant "k", .value (.error Databases.unavailable))] a := by
  have hstart : ((dataRuns memDataStore noJson).guarded FewHandlers).Trace []
      ⟨.new (.fresh [.works, .works, .works]), 0, []⟩ := .nil ⟨_, rfl⟩
  have hsetUp := hstart.snoc (l := (.setUp none, .unit (.ok ()))) ⟨nofun, .setUp none⟩
  have hcreated := hsetUp.snoc (l := (.createDB "geo", .error (.ok none)))
    ⟨nofun, .createDB "geo" rfl⟩
  have hget : DataStep memDataStore noJson ⟨managerWith "geo" [], 0, []⟩
      (.getKVDBHandler "geo" "decoder", .handler (.ok heldOnce.grant)) ⟨_, 0, [heldOnce]⟩ :=
    .obtained (h := heldOnce.handler) rfl
  have hfew : FewHandlers (⟨managerWith "geo" [], 0, []⟩ : Data MemRocks Nat)
      (.getKVDBHandler "geo" "decoder", .handler (.ok heldOnce.grant)) := by
    intro db scope _
    show 1 < UInt32.size
    decide
  have hset := (hcreated.snoc ⟨hfew, hget⟩).snoc
    (l := (.set heldOnce.grant "k" "v", .error (.ok none)))
    ⟨nofun, .set (x := heldOnce) List.mem_cons_self "k" "v"⟩
  have hread : ∀ {s : Data MemRocks Nat} {r : RespOrError String} (cf : Handler.ColumnFamily),
      Data.Reads memDataStore heldOnce s cf → heldOnce ∈ s.live →
        (s.locks heldOnce).get cf "k" = r →
      DataStep memDataStore noJson s (.get heldOnce.grant "k", .value r) s := by
    rintro s r cf hcf hx rfl
    exact .get hx hcf "k"
  have hone := (Handler.KVDBHandler.family_holds oneValue true).answers
  have hgot := hset.snoc (l := (.get heldOnce.grant "k", .value (.ok "v")))
    ⟨nofun, hread _ (fun _ => hone) List.mem_cons_self rfl⟩
  have hfailed := hgot.snoc
    (l := (.get heldOnce.grant "k", .value (.error ⟨"Cannot get key 'k'. Error: IO error"⟩)))
    ⟨nofun, hread unreadable (fun _ => unreadable_answers _) List.mem_cons_self rfl⟩
  have hclosed := hfailed.snoc (l := (.finalize, .unit (.ok ()))) ⟨nofun, .finalize⟩
  have hexpired := hclosed.snoc
    (l := (.get heldOnce.grant "k", .value (.error Databases.unavailable)))
    ⟨nofun, hread unreadable (fun hl => by cases hl.1) List.mem_cons_self rfl⟩
  obtain ⟨a, ha, -⟩ := databases_refined hexpired
  exact ⟨a, ha⟩

end DistroDefender.Kvdb
