import DistroDefender.Geo.Records

/-!
# A manager constructed again

A run is made of calls, of changes outside the manager and of managers constructed again. Where
every call of the store has succeeded and the registered files are valid databases, a manager
constructed from the store lists what the running one lists and deletes no document
(`reconstructed`), in every run whose calls meet `Recordable`. Without it a database opened again
from another directory is stored under a path it is not listed with (`moved_not_reconstructed`).
-/

namespace DistroDefender.Geo

open Base Lib Os Store Manager

variable {τ : Type}

/-! ## Runs -/

/-- Every registered file is a valid database. -/
def ValidFiles (mmdb : Maxminddb) (w : World τ) : Prop :=
  ∀ name entry, w.dbs.lookup name = some entry →
    ∃ content, w.files entry.path = some content ∧ mmdb.status content = MMDB_SUCCESS

/-- What happens in a run. -/
inductive Happening where
  | call (op : Op) (o : Outcomes)
  | outside
  | restart (o : Outcomes)

section

variable (S : InternalStore τ) (mmdb : Maxminddb) (toStrPretty : Json → String)

/-- One step of a run in which the calls of the file system go well. -/
inductive Happens : World (τ × Bool) → Happening → World (τ × Bool) → Prop
  | call {w : World (τ × Bool)} (op : Op) {o : Outcomes} (ho : FilesSucceed o) :
      Happens w (.call op o) (resultState ((exec (auditedDeps S mmdb toStrPretty) o op).run w))
  /-- The files change, and the documents outside `geo`. -/
  | outside {w : World (τ × Bool)} (t : τ) (files : Path → Option String) (hfiles : Regular files)
      (hdocs : ∀ n : Name, n.first = INTERNAL_NAME → S.docs t n = S.docs w.store.1 n) :
      Happens w .outside { w with store := (t, w.store.2), files }
  /-- Another manager takes over. -/
  | restart {w w' : World (τ × Bool)} {o : Outcomes} (ho : FilesSucceed o) (hok : w.store.2 = true)
      (hvalid : ValidFiles mmdb w)
      (hrun : (construct (auditedDeps S mmdb toStrPretty) o).run (World.start w.store w.files) =
        .ok () w') :
      Happens w (.restart o) w'

/-- The runs of managers, from a store without documents under `geo`. -/
def runs : System (World (τ × Bool)) Happening where
  init w := ∃ o t files, Regular files ∧ (∀ n : Name, n.first = INTERNAL_NAME → S.docs t n = none) ∧
    (construct (auditedDeps S mmdb toStrPretty) o).run (World.start (t, true) files) = .ok () w
  step := Happens S mmdb toStrPretty

/-- The condition on a step. -/
def Recorded (w : World (τ × Bool)) : Happening → Prop
  | .call op o => Recordable (auditedDeps S mmdb toStrPretty) o w op
  | .outside | .restart _ => True

end

/-! ## The constructor -/

section Construct

variable {S : InternalStore τ} {mmdb : Maxminddb} {toStrPretty : Json → String} {o : Outcomes}
  {w w' : World (τ × Bool)}

def geoName : Name := ⟨[INTERNAL_NAME], by decide, by decide, by decide⟩

theorem ofString_internalName : Name.ofString INTERNAL_NAME = .ok geoName := by
  decide +kernel

theorem typeFromName_typeName (type : DbType) : typeFromName (typeName type) = .ok type := by
  cases type <;> decide +kernel

/-- One turn of the constructor, where nothing is in the way of the database. -/
theorem run_loadDb {deps : Deps τ} {w : World τ} {db : Name} {k : Nat} {doc : Doc}
    {path content : String} {type : DbType} (hdoc : deps.store.readInternalDoc db w.store = .ok doc)
    (hpath : doc.getString ["path"] = some path)
    (htype : doc.getString ["type"] = some (typeName type)) (hslot : w.dbTypes.lookup type = none)
    (hname : w.dbs.lookup (filename path) = none)
    (hopen : MMDB_open deps o k path w = .ok content) :
    (loadDb deps o db k).run w = .ok () (register w path type content) := by
  unfold loadDb
  rw [EStateM.run_bind, EStateM.run_get]
  simp only [hdoc, docString, hpath, htype, value_some]
  rw [EStateM.run_bind, run_orThrow_ok]
  simp only
  rw [EStateM.run_bind, run_orThrow_ok]
  simp only
  rw [EStateM.run_bind, typeFromName_typeName, run_orThrow_ok]
  simp only
  unfold addDbUnsafe
  rw [EStateM.run_bind, EStateM.run_bind, EStateM.run_get]
  simp only [hslot, hname, hopen]
  rfl

/-- Without documents under `geo` the constructor finds nothing. -/
theorem run_construct_none {t : τ × Bool} {files : Path → Option String}
    (h : ¬ ∃ n, S.docs t.1 n ≠ none ∧ geoName.Below n) :
    (construct (auditedDeps S mmdb toStrPretty) o).run (World.start t files) =
      .ok () (World.start t files) := by
  obtain ⟨e, he⟩ := S.readCol_none t.1 geoName h
  have hread : (auditedDeps S mmdb toStrPretty).store.readInternalCol geoName t = .ok (.error e) :=
    he
  unfold construct
  rw [EStateM.run_bind, ofString_internalName, run_orThrow_ok]
  simp only
  rw [EStateM.run_bind, EStateM.run_get]
  simp only [World.start, hread]
  rfl

/-- After some of the documents were loaded: their databases are registered. -/
structure Loaded (w : World (τ × Bool)) (done : List (Name × Nat)) (w' : World (τ × Bool)) :
    Prop where
  inverse : Inverse w'
  store : w'.store = w.store
  files : w'.files = w.files
  loaded : ∀ name path type, w'.listing name = some (path, type) ↔
    w.listing name = some (path, type) ∧ ∃ d ∈ done, d.1.parts = [INTERNAL_NAME, name]

/-- A database of the listing is registered. -/
theorem lookup_of_listing {w : World τ} {name path : String} {type : DbType}
    (h : w.listing name = some (path, type)) :
    ∃ entry, w.dbs.lookup name = some entry ∧ entry.path = path ∧ entry.type = type := by
  obtain ⟨entry, hentry, heq⟩ := Option.map_eq_some_iff.mp h
  cases heq
  exact ⟨entry, hentry, rfl, rfl⟩

theorem listing_of_lookup {w : World τ} {name : String} {entry : DbEntry}
    (h : w.dbs.lookup name = some entry) : w.listing name = some (entry.path, entry.type) := by
  unfold World.listing
  rw [h]
  rfl

/-- The document loaded next registers its database. -/
theorem Loaded.step (hinv : Inverse w) (hrec : Records (S.docs w.store.1) w.listing)
    (hvalid : ValidFiles mmdb w) (ho : FilesSucceed o) {done : List (Name × Nat)} {db : Name}
    {k : Nat} (hdb : S.docs w.store.1 db ≠ none) (hfirst : db.first = INTERNAL_NAME)
    (hnew : ∀ d ∈ done, d.1 ≠ db) (h : Loaded w done w') :
    ∃ w'', (loadDb (auditedDeps S mmdb toStrPretty) o db k).run w' = .ok () w'' ∧
      Loaded w (done ++ [(db, k)]) w'' := by
  obtain ⟨name, hparts, hlisted⟩ := hrec.only db hfirst hdb
  obtain ⟨⟨path, type⟩, hlisted⟩ := Option.ne_none_iff_exists'.mp hlisted
  obtain ⟨rfl, hne, n, doc, hn, hdoc, hpath, htype⟩ := hrec.stored name path type hlisted
  cases Name.ext (hn.trans hparts.symm)
  obtain ⟨entry, hentry, rfl, rfl⟩ := lookup_of_listing hlisted
  have hother : ∀ name' path' type', w'.listing name' = some (path', type') →
      name' ≠ filename entry.path := by
    rintro _ path' type' hname' rfl
    obtain ⟨-, d, hd, hdparts⟩ := (h.loaded _ path' type').mp hname'
    exact hnew d hd (Name.ext (hdparts.trans hparts.symm))
  have hslot : w'.dbTypes.lookup entry.type = none := by
    cases hslot : w'.dbTypes.lookup entry.type with
    | none => rfl
    | some name' =>
      obtain ⟨entry', hentry', hsame⟩ := (h.inverse entry.type name').mp hslot
      have hlisted' := listing_of_lookup hentry'
      obtain ⟨hrunning, -⟩ := (h.loaded _ _ _).mp hlisted'
      obtain ⟨e, he, -, het⟩ := lookup_of_listing hrunning
      -- two databases of one type have one name
      have hone := hinv.consistent.one name' _ e entry he hentry (het.trans hsame)
      exact absurd hone (hother _ _ _ hlisted')
  have hname : w'.dbs.lookup (filename entry.path) = none := by
    cases hname : w'.dbs.lookup (filename entry.path) with
    | none => rfl
    | some e => exact absurd rfl (hother _ _ _ (listing_of_lookup hname))
  obtain ⟨content, hfile, hstatus⟩ := hvalid _ entry hentry
  have hopen : MMDB_open (auditedDeps S mmdb toStrPretty) o k entry.path w' = .ok content := by
    unfold MMDB_open
    rw [ho.mmdbOpen k, h.files, hfile]
    exact if_pos hstatus
  have hread : (auditedDeps S mmdb toStrPretty).store.readInternalDoc db w'.store = .ok doc := by
    rw [h.store]
    exact (S.readDoc_eq_ok w.store.1 db doc).mpr hdoc
  refine ⟨_, run_loadDb hread hpath htype hslot hname hopen,
    inverse_register h.inverse hslot hname, h.store, h.files, fun name' path' type' => ?_⟩
  rw [listing_register, Function.update_apply]
  simp only [List.mem_append, List.mem_singleton, or_and_right, exists_or, exists_eq_left, hparts]
  by_cases hsame : name' = filename entry.path
  · subst hsame
    rw [if_pos rfl, hlisted]
    simp
  · rw [if_neg hsame, h.loaded]
    simp [Ne.symm hsame]

theorem below_geoName {n : Name} {name : String} (hn : n.parts = [INTERNAL_NAME, name]) :
    geoName.Below n := by
  unfold Name.Below
  rw [hn]
  exact ⟨by simp [geoName], by simp [geoName]⟩

/-- A child of the collection is a document. -/
theorem doc_of_child {docs : Name → Option Doc} {listing : String → Option (String × DbType)}
    (hrec : Records docs listing) {m n : Name} (hm : ChildOf m geoName)
    (hn : docs n ≠ none) (hmn : m.parts <+: n.parts) : docs m ≠ none ∧ m.first = INTERNAL_NAME := by
  obtain ⟨hgeo, hlen⟩ := hm
  obtain ⟨tail, htail⟩ := hgeo.trans hmn
  have hfirst : n.first = INTERNAL_NAME := by simp [Name.first, ← htail, geoName]
  obtain ⟨name, hparts, -⟩ := hrec.only n hfirst hn
  have hsame : m = n := by
    refine Name.ext (hmn.eq_of_length ?_)
    rw [hlen, hparts]
    rfl
  rw [hsame]
  exact ⟨hn, hfirst⟩

/-- With documents under `geo` the constructor loads them one after another. -/
theorem run_construct_some {t : τ × Bool} {files : Path → Option String} {l : List Name}
    (hread : (auditedDeps S mmdb toStrPretty).store.readInternalCol geoName t = .ok (.ok l)) :
    (construct (auditedDeps S mmdb toStrPretty) o).run (World.start t files) =
      (l.zipIdx.forM fun db => loadDb (auditedDeps S mmdb toStrPretty) o db.1 db.2).run
      (World.start t files) := by
  unfold construct
  rw [EStateM.run_bind, ofString_internalName, run_orThrow_ok]
  simp only
  rw [EStateM.run_bind, EStateM.run_get]
  simp only [World.start, hread]
  rfl

/-- The constructor registers every database of the listing, and changes nothing else. -/
theorem run_construct (h : Agrees S w) (hok : w.store.2 = true) (hvalid : ValidFiles mmdb w)
    (ho : FilesSucceed o) :
    ∃ w', (construct (auditedDeps S mmdb toStrPretty) o).run (World.start w.store w.files) =
      .ok () w' ∧
      Inverse w' ∧ w'.store = w.store ∧ w'.files = w.files ∧ w'.listing = w.listing := by
  have hrec := h.records hok
  by_cases hany : ∃ n, S.docs w.store.1 n ≠ none ∧ geoName.Below n
  swap
  · refine ⟨_, run_construct_none hany, inverse_start _ _, rfl, rfl, ?_⟩
    funext name
    symm
    show w.listing name = none
    rw [Option.eq_none_iff_forall_ne_some]
    rintro ⟨path, type⟩ hlisted
    obtain ⟨-, -, n, doc, hn, hdoc, -⟩ := hrec.stored name path type hlisted
    exact hany ⟨n, by rw [hdoc]; exact Option.some_ne_none _, below_geoName hn⟩
  obtain ⟨l, hl, hnodup, hmem⟩ := S.readCol_below w.store.1 geoName hany
  rw [run_construct_some hl]
  obtain ⟨w', hw', hloaded⟩ := run_forM (I := Loaded w) (l := l.zipIdx)
    (f := fun db => loadDb (auditedDeps S mmdb toStrPretty) o db.1 db.2)
    (fun done db rest w₁ hl hloaded => by
      have hfst : l = done.map Prod.fst ++ db.1 :: rest.map Prod.fst := by
        rw [← List.zipIdx_map_fst 0 l, hl]
        simp
      have hdb : db.1 ∈ l := by
        rw [hfst]
        simp
      obtain ⟨hchild, n, hn, hbelow⟩ := (hmem db.1).mp hdb
      obtain ⟨hdoc, hfirst⟩ := doc_of_child hrec hchild hn hbelow
      refine hloaded.step h.inverse hrec hvalid ho hdoc hfirst fun d hd heq => ?_
      rw [hfst] at hnodup
      have hdisjoint :=
        (List.nodup_append.mp hnodup).2.2 d.1 (List.mem_map_of_mem hd) db.1 List.mem_cons_self
      exact hdisjoint heq)
    ⟨inverse_start _ _, rfl, rfl, fun name path type => by simp [World.listing, World.start]⟩
  refine ⟨w', hw', hloaded.inverse, hloaded.store, hloaded.files, ?_⟩
  funext name
  apply Option.ext
  rintro ⟨path, type⟩
  rw [hloaded.loaded]
  refine ⟨fun hlisted => hlisted.1, fun hlisted => ⟨hlisted, ?_⟩⟩
  obtain ⟨-, -, n, doc, hn, hdoc, -⟩ := hrec.stored name path type hlisted
  have hnl : n ∈ l := by
    have hb := below_geoName hn
    refine (hmem n).mpr
      ⟨⟨hb.1, by rw [hn]; rfl⟩, n, by rw [hdoc]; exact Option.some_ne_none _, List.prefix_rfl⟩
  rw [← List.zipIdx_map_fst 0 l] at hnl
  obtain ⟨d, hd, rfl⟩ := List.mem_map.mp hnl
  exact ⟨d, hd, hn⟩

/-- The triples listed are those of the listing. -/
theorem listDbs_congr {w w' : World τ} (h : w'.listing = w.listing) : listDbs w' = listDbs w := by
  have hkeys : ∀ name, name ∈ w'.dbs.keys ↔ name ∈ w.dbs.keys := by
    intro name
    rw [← AList.mem_keys, ← AList.mem_keys, ← AList.lookup_isSome, ← AList.lookup_isSome]
    have hname := congrFun h name
    unfold World.listing at hname
    rw [← Option.isSome_map (f := fun entry : DbEntry => (entry.path, entry.type)), hname,
      Option.isSome_map]
  unfold listDbs
  rw [sortedSet_congr hkeys]
  refine List.filterMap_congr fun name _ => ?_
  have hname :=
    congrArg (Option.map fun p : String × DbType => (⟨name, p.1, p.2⟩ : DbInfo)) (congrFun h name)
  simp only [World.listing, Option.map_map] at hname
  exact hname

end Construct

/-! ## Runs of managers -/

section Reconstructed

variable {S : InternalStore τ} {mmdb : Maxminddb} {toStrPretty : Json → String}

theorem agrees_inductive :
    ((runs S mmdb toStrPretty).guarded (Recorded S mmdb toStrPretty)).Inductive (Agrees S) where
  init w := by
    rintro ⟨o, t, files, hregular, hdocs, hrun⟩
    have hnone : ¬ ∃ n, S.docs t n ≠ none ∧ geoName.Below n := by
      rintro ⟨n, hn, hb⟩
      obtain ⟨tail, htail⟩ := hb.1
      exact hn (hdocs n (by simp [Name.first, ← htail, geoName]))
    rw [run_construct_none hnone] at hrun
    cases hrun
    refine ⟨inverse_start _ _, hregular, fun _ => ⟨fun name path type h => ?_, fun n hn hdoc => ?_⟩⟩
    · cases h
    · exact absurd (hdocs n hn) hdoc
  step w e w' h := by
    rintro ⟨hg, hs⟩
    cases hs with
    | call op ho => exact agrees_call h ho hg
    | outside t files hfiles hdocs =>
      refine ⟨inverse_change (.outside rfl rfl rfl) h.inverse, hfiles, fun hok => ?_⟩
      exact (h.records hok).congr hdocs
    | restart ho hok hvalid hrun =>
      obtain ⟨w₁, hrun₁, hinv, hstore, hfiles, hlisting⟩ :=
        run_construct h hok hvalid ho
      cases hrun.symm.trans hrun₁
      refine ⟨hinv, ?_, fun hok => ?_⟩
      · rw [hfiles]
        exact h.regular
      · rw [hstore] at hok ⊢
        rw [hlisting]
        exact h.records hok

/-- In every run whose calls meet the condition, where every call of the store has succeeded and the
registered files are valid databases, a manager constructed from the store lists what the running
manager lists and changes no document. -/
theorem reconstructed (S : InternalStore τ) (mmdb : Maxminddb) (toStrPretty : Json → String)
    (w : World (τ × Bool))
    (h : ((runs S mmdb toStrPretty).guarded (Recorded S mmdb toStrPretty)).Reachable w)
    (hok : w.store.2 = true) (hvalid : ValidFiles mmdb w) (o : Outcomes) (ho : FilesSucceed o) :
    ∃ w', (construct (auditedDeps S mmdb toStrPretty) o).run (World.start w.store w.files) =
      .ok () w' ∧ listDbs w' = listDbs w ∧ w'.store = w.store := by
  obtain ⟨w', hrun, -, hstore, -, hlisting⟩ :=
    run_construct (agrees_inductive.holds h) hok hvalid ho
  exact ⟨w', hrun, listDbs_congr hlisting, hstore⟩

end Reconstructed

/-! ## A database that moves to another directory -/

section Moved

def sampleStore : InternalStore (Store MemTree) :=
  .ofStore memDriver fun s c h => by
    have hnil : s.children c = [] := by simpa [memDriver] using h
    exact ⟨_, if_pos hnil⟩

def sampleRuns : System (World (Store MemTree × Bool)) Happening :=
  runs sampleStore sampleLib fun _ => ""

def auditedSample : Deps (Store MemTree × Bool) := auditedDeps sampleStore sampleLib fun _ => ""

theorem well_succeeds (content hash : String) : FilesSucceed (.well content hash) :=
  ⟨rfl, rfl, rfl, rfl, fun _ => rfl⟩

/-- A manager without databases, beside one file. -/
def auditedStart : World (Store MemTree × Bool) :=
  .start (⟨.empty, .empty⟩, true) fun path => if path = samplePath then some "old" else none

theorem auditedStart_init : sampleRuns.init auditedStart := by
  refine ⟨.well "" "", ⟨.empty, .empty⟩, auditedStart.files, fun path hname => ?_,
    fun _ _ => rfl, ?_⟩
  · refine if_neg ?_
    rintro rfl
    revert hname
    decide +kernel
  · exact run_construct_none (S := sampleStore) (by rintro ⟨n, hn, -⟩; exact hn rfl)

def addSample : Op := .addDb samplePath .CITY

/-- The manager after the file was added. -/
def auditedWorld : World (Store MemTree × Bool) :=
  resultState ((exec auditedSample (.well "old" "hash") addSample).run auditedStart)

theorem auditedWorld_happens :
    sampleRuns.step auditedStart (.call addSample (.well "old" "hash")) auditedWorld :=
  .call addSample (well_succeeds "old" "hash")

/-- A manager with one database, at the sample path. -/
theorem validFiles_of_lookup {w : World (Store MemTree × Bool)} {entry : DbEntry}
    (hdbs : w.dbs = (∅ : Map String DbEntry).insert "city.mmdb" entry)
    (hpath : entry.path = samplePath) (hfile : w.files samplePath = some "old") :
    ValidFiles sampleLib w := by
  intro name e he
  rw [hdbs, Map.lookup_insert_eq] at he
  split at he
  · cases he
    refine ⟨"old", hpath ▸ hfile, ?_⟩
    decide
  · cases he

/-- The manager of one database, constructed again. -/
theorem reconstructed_once : ∃ w', (construct auditedSample (.well "" "")).run
    (World.start auditedWorld.store auditedWorld.files) = .ok () w' ∧
      listDbs w' = listDbs auditedWorld ∧ w'.store = auditedWorld.store := by
  have hrecorded : Recorded sampleStore sampleLib (fun _ => "") auditedStart
      (.call addSample (.well "old" "hash")) := by
    intro content _ _ _
    exact ⟨by decide +kernel, _, rfl⟩
  refine reconstructed sampleStore sampleLib (fun _ => "") auditedWorld ?_ ?_ ?_ (.well "" "")
    (well_succeeds "" "")
  · exact .step (.init auditedStart_init) ⟨hrecorded, auditedWorld_happens⟩
  · decide +kernel
  · exact validFiles_of_lookup rfl rfl rfl

/-- The database is downloaded again, to another directory. -/
def moveSample : Op := .remoteUpsertDb "/other/city.mmdb" .CITY "db" "md5"

def movedWorld : World (Store MemTree × Bool) :=
  resultState ((exec auditedSample (.well "new" "md5") moveSample).run auditedWorld)

/-- The manager lists the database where it was, and its document says where it is now: a manager
constructed again lists it there. -/
theorem moved_not_reconstructed : sampleRuns.Reachable movedWorld ∧ movedWorld.store.2 = true ∧
    ValidFiles sampleLib movedWorld ∧
    ∃ w', (construct auditedSample (.well "" "")).run
        (World.start movedWorld.store movedWorld.files) = .ok () w' ∧
      listDbs w' ≠ listDbs movedWorld := by
  refine ⟨?_, by decide +kernel, validFiles_of_lookup rfl rfl rfl, _, rfl, by decide +kernel⟩
  have hadded : sampleRuns.Reachable auditedWorld :=
    .step (.init auditedStart_init) auditedWorld_happens
  exact hadded.step (.call moveSample (well_succeeds "new" "md5"))

end Moved

end DistroDefender.Geo
