import DistroDefender.Kvdb.Mirror

/-!
# Creating a database from a file

`createDB(name, path)` creates the database, writes the entries one by one and, when a write fails,
deletes the database. `allOrNothing_iff` says exactly when a call that does not succeed leaves the
databases and their contents as they were: whenever a write fails, the database was new and the
deletion works, or it was there before, it is not deleted, and the entries written until then were
already in it. A database that was there before is deleted otherwise (`allOrNothing_fails`).
-/

namespace DistroDefender.Kvdb

open Base Lib

section

variable {σ η : Type}

/-- The members of the object in a file. -/
def fileMembers (J : Rapidjson) (files : Files) (path : String) : Option (List (String × Json)) :=
  if path = "" then none
  else
    match files (cstr path) with
    | .ok (some contents) =>
      match J.document contents with
      | .obj ms => some ms
      | _ => none
    | _ => none

/-- The entries they are written as. -/
def memberEntries (J : Rapidjson) (ms : List (String × Json)) : List (String × String) :=
  entriesOf J (ms.map fun m => (cstr m.1, m.2))

/-- The handle the entries are written through, and RocksDB then. -/
inductive Target (R : RocksDB σ η) (m : KVDBManager σ η) (name : String) : η → σ → Prop
  | present {h : η} (hfind : m.mapCFHandles.lookup name = some h) : Target R m name h m.rocksDB
  | created {h : η} {t : σ} (habsent : name ∉ m.mapCFHandles)
      (hcreate : (R.CreateColumnFamily name).run m.rocksDB = .ok (.ok h) t) : Target R m name h t

/-- The entries are stored one after the other. -/
inductive Stored (R : RocksDB σ η) (h : η) : σ → List (String × String) → σ → Prop
  | nil {t : σ} : Stored R h t [] t
  | cons {t t₁ t₂ : σ} {key value : String} {rest : List (String × String)}
      (hput : (R.Put h key value).run t = .ok (.ok ()) t₁) (hrest : Stored R h t₁ rest t₂) :
      Stored R h t ((key, value) :: rest) t₂

/-- A `Put` that answers with a status, after which the family is not in use and can be dropped. -/
def Drops (R : RocksDB σ η) (m : KVDBManager σ η) (name : String) (h : η) (t : σ)
    (entry : String × String) : Prop :=
  m.kvdbHandlerCollection.getKVDBHandlersCount name = 0 ∧
    ∃ text t' t'', (R.Put h entry.1 entry.2).run t = .ok (.error text) t' ∧
      (R.DropColumnFamily h).run t' = .ok (.ok ()) t''

/-- Contents with the entries written into them. -/
def written (c : Contents) (entries : List (String × String)) : Contents :=
  entries.foldl (fun c e => Function.update c e.1 (some e.2)) c

/-! ## The run -/

variable {R : RocksDB σ η} {J : Rapidjson} {files : Files} {name path : String}
  {m : KVDBManager σ η}

/-- Reading the file gives an object, or ends the call. -/
theorem runOp_getContentFromJsonFile (R : RocksDB σ η) (J : Rapidjson) (files : Files)
    (path : String) (m : KVDBManager σ η) :
    (∃ ms, fileMembers J files path = some ms ∧
        runOp R files (getContentFromJsonFile J path) m = .ok (.ok (.obj ms)) m) ∨
      (fileMembers J files path = none ∧
        ∀ content m', runOp R files (getContentFromJsonFile J path) m ≠ .ok (.ok content) m') := by
  unfold getContentFromJsonFile fileMembers
  by_cases hpath : path = ""
  · rw [if_pos hpath, if_pos hpath]
    exact .inr ⟨rfl, nofun⟩
  rw [if_neg hpath, if_neg hpath]
  have hread : (handle R files (.readFile (cstr path))).run m =
      (orThrow (files (cstr path))).run m := rfl
  cases hfile : files (cstr path) with
  | error e =>
    rw [hfile] at hread
    rw [runOp_call_error (c := .readFile (cstr path)) hread]
    exact .inr ⟨rfl, nofun⟩
  | ok contents =>
    rw [hfile] at hread
    rw [runOp_call_ok (c := .readFile (cstr path)) hread]
    cases contents with
    | none => exact .inr ⟨rfl, nofun⟩
    | some text =>
      dsimp only
      cases J.document text with
      | obj ms => exact .inl ⟨ms, rfl, rfl⟩
      | null | bool b | num n | str s | arr xs => exact .inr ⟨rfl, nofun⟩

theorem runOp_bind_ok {α β : Type} {p : KvdbM η α} {f : α → KvdbM η β}
    {m' : KVDBManager σ η} {a : α} (h : runOp R files p m = .ok a m') :
    runOp R files (p >>= f) m = runOp R files (f a) m' := by
  unfold runOp at h ⊢
  rw [Prog.run_bind, EStateM.run_bind, h]

theorem runOp_bind_congr {α β : Type} {p q : KvdbM η α} {f : α → KvdbM η β} {m' : KVDBManager σ η}
    (h : runOp R files p m = runOp R files q m') :
    runOp R files (p >>= f) m = runOp R files (q >>= f) m' := by
  unfold runOp at h ⊢
  rw [Prog.run_bind, Prog.run_bind, EStateM.run_bind, EStateM.run_bind, h]

theorem runOp_bind_error {α β : Type} {p : KvdbM η α} {f : α → KvdbM η β} {m' : KVDBManager σ η}
    {e : Throw} (h : runOp R files p m = .error e m') :
    runOp R files (p >>= f) m = .error e m' := by
  unfold runOp at h ⊢
  rw [Prog.run_bind, EStateM.run_bind, h]

/-- Either every entry is stored, or there is a first one that is not. -/
theorem putAll_cases (R : RocksDB σ η) (h : η) (entries : List (String × String)) (t₀ : σ) :
    (∃ t, Stored R h t₀ entries t) ∨
      ∃ done entry rest t, entries = done ++ entry :: rest ∧ Stored R h t₀ done t ∧
        ∀ t', (R.Put h entry.1 entry.2).run t ≠ .ok (.ok ()) t' := by
  induction entries generalizing t₀ with
  | nil => exact .inl ⟨t₀, .nil⟩
  | cons entry rest ih =>
    by_cases hput : ∃ t', (R.Put h entry.1 entry.2).run t₀ = .ok (.ok ()) t'
    · obtain ⟨t₁, ht₁⟩ := hput
      rcases ih t₁ with ⟨t, ht⟩ | ⟨done, e, rest', t, rfl, hdone, hfail⟩
      · exact .inl ⟨t, .cons ht₁ ht⟩
      · exact .inr ⟨entry :: done, e, rest', t, rfl, .cons ht₁ hdone, hfail⟩
    · exact .inr ⟨[], entry, rest, t₀, rfl, .nil, not_exists.mp hput⟩

theorem putAll_stored (files : Files) {h : η} {t t' : σ} {done : List (String × String)}
    (rest : List (String × String)) (hs : Stored R h t done t') (m : KVDBManager σ η) :
    runOp R files (putAll h (done ++ rest)) { m with rocksDB := t } =
      runOp R files (putAll h rest) { m with rocksDB := t' } := by
  induction hs with
  | nil => rfl
  | @cons t t₁ t₂ key value rest' hput _ ih =>
    refine Eq.trans ?_ ih
    exact runOp_call_ok (c := .Put h key value)
      (run_onRocksDB_ok (m := { m with rocksDB := t }) hput)

/-- What is left of the call when a `Put` does not succeed. -/
theorem putAll_failed {h : η} {t t' : σ} {done : List (String × String)}
    {entry : String × String} (rest : List (String × String)) (hs : Stored R h t done t')
    (hfail : ∀ t'', (R.Put h entry.1 entry.2).run t' ≠ .ok (.ok ()) t'') (m : KVDBManager σ η) :
    (∃ text t'' e, (R.Put h entry.1 entry.2).run t' = .ok (.error text) t'' ∧
        runOp R files (putAll h (done ++ entry :: rest)) { m with rocksDB := t } =
          .ok (some e) { m with rocksDB := t'' }) ∨
      ∃ e t'', (R.Put h entry.1 entry.2).run t' = .error e t'' ∧
        runOp R files (putAll h (done ++ entry :: rest)) { m with rocksDB := t } =
          .error e { m with rocksDB := t'' } := by
  rw [putAll_stored files _ hs]
  cases hput : (R.Put h entry.1 entry.2).run t' with
  | ok status t'' =>
    cases status with
    | ok u => exact absurd hput (hfail t'')
    | error text =>
      refine .inl ⟨text, t'',
        ⟨s!"An error occurred while inserting data key{entry.1}, value {entry.2}: {text}"⟩, rfl, ?_⟩
      exact runOp_call_ok (c := .Put h entry.1 entry.2)
        (run_onRocksDB_ok (m := { m with rocksDB := t' }) hput)
  | error e t'' =>
    refine .inr ⟨e, t'', rfl, ?_⟩
    exact runOp_call_error (c := .Put h entry.1 entry.2)
      (run_onRocksDB_error (m := { m with rocksDB := t' }) hput)

theorem drops_iff_of_status (m : KVDBManager σ η) (name : String) {h : η} {t t' : σ}
    {entry : String × String} {text : String}
    (hput : (R.Put h entry.1 entry.2).run t = .ok (.error text) t') :
    Drops R m name h t entry ↔ m.kvdbHandlerCollection.getKVDBHandlersCount name = 0 ∧
      ∃ t'', (R.DropColumnFamily h).run t' = .ok (.ok ()) t'' := by
  constructor
  · rintro ⟨hcount, text', u, u', hstatus, hdrop⟩
    cases hput.symm.trans hstatus
    exact ⟨hcount, u', hdrop⟩
  · rintro ⟨hcount, t'', hdrop⟩
    exact ⟨hcount, text, t', t'', hput, hdrop⟩

theorem not_drops_of_throw {h : η} {t t' : σ} {entry : String × String} {e : Throw}
    (hput : (R.Put h entry.1 entry.2).run t = .error e t') : ¬ Drops R m name h t entry := by
  rintro ⟨-, text, u, u', hstatus, -⟩
  cases hput.symm.trans hstatus

end

section

variable {σ η : Type} [DecidableEq η] {F : FamilyStore σ η} {J : Rapidjson} {files : Files}
  {name path : String} {m : KVDBManager σ η}

/-- The databases and their contents are the same. -/
def SameDBs (F : FamilyStore σ η) (m m' : KVDBManager σ η) : Prop :=
  listDBs m' = listDBs m ∧ (F.view m'.rocksDB).families = (F.view m.rocksDB).families

/-- A call that does not succeed changes no database. -/
def AllOrNothing (F : FamilyStore σ η) (J : Rapidjson) (files : Files) (name path : String)
    (m : KVDBManager σ η) : Prop :=
  (∀ m', runOp F.toRocksDB files (createDBFromFile J name path) m ≠ .ok none m') →
    SameDBs F m (after F.toRocksDB files (createDBFromFile J name path) m)

/-- A write that fails is undone: of a new database everything, of one that was there nothing. -/
def Undone (F : FamilyStore σ η) (J : Rapidjson) (files : Files) (name path : String)
    (m : KVDBManager σ η) : Prop :=
  ∀ ms h t done entry rest t', fileMembers J files path = some ms → Target F.toRocksDB m name h t →
    memberEntries J ms = done ++ entry :: rest → Stored F.toRocksDB h t done t' →
    (∀ t'', (F.Put h entry.1 entry.2).run t' ≠ .ok (.ok ()) t'') →
    if name ∈ m.mapCFHandles then
      ¬ Drops F.toRocksDB m name h t' entry ∧
        ∀ c, (F.view m.rocksDB).families name = some c → written c done = c
    else Drops F.toRocksDB m name h t' entry

/-! ## What the parts do to the storage -/

theorem stored_view {h : η} {t t' : σ} {done : List (String × String)} {c : Contents}
    (hs : Stored F.toRocksDB h t done t') (href : (F.view t).ref h = .names name)
    (hc : (F.view t).families name = some c) :
    (F.view t').ref = (F.view t).ref ∧
      (F.view t').families = Function.update (F.view t).families name (some (written c done)) := by
  induction hs generalizing c with
  | nil =>
    refine ⟨rfl, ?_⟩
    rw [show written c [] = c from rfl, ← hc]
    exact (Function.update_eq_self name _).symm
  | @cons t t₁ t₂ key value rest hput _ ih =>
    obtain ⟨n, c', hn, hc', hview⟩ := (F.put_does t h key value).of_ok hput
    cases href.symm.trans hn
    cases hc.symm.trans hc'
    have href₁ : (F.view t₁).ref h = .names name := by rw [hview]; exact href
    have hc₁ : (F.view t₁).families name = some (Function.update c key (some value)) := by
      rw [hview, View.put_families, if_pos rfl]
    obtain ⟨href₂, hfam₂⟩ := ih href₁ hc₁
    refine ⟨href₂.trans (by rw [hview]; rfl), hfam₂.trans ?_⟩
    rw [hview]
    unfold View.put
    exact Function.update_idem ..

/-- The manager with the target's handle in its map. -/
theorem Target.run (files : Files) {h : η} {t : σ} (ht : Target F.toRocksDB m name h t) :
    ∃ map : Map String η, map.lookup name = some h ∧
      (∀ n, n ∈ map ↔ n = name ∨ n ∈ m.mapCFHandles) ∧
      runOp F.toRocksDB files (createDB name) m =
        .ok none { m with mapCFHandles := map, rocksDB := t } := by
  cases ht with
  | present hfind =>
    have hmem : name ∈ m.mapCFHandles := AList.lookup_isSome.mp (by rw [hfind]; rfl)
    refine ⟨m.mapCFHandles, hfind, fun n => ?_, createDB_present hmem⟩
    constructor
    · exact .inr
    · rintro (rfl | h)
      · exact hmem
      · exact h
  | created habsent hcreate =>
    refine ⟨m.mapCFHandles.insert name h, ?_, fun n => AList.mem_insert _,
      createDB_created habsent hcreate⟩
    rw [Map.lookup_insert_eq, if_pos rfl]

/-- What the storage shows under the target's name. -/
theorem Target.view (hm : MirrorsOpen F m) {h : η} {t : σ} (ht : Target F.toRocksDB m name h t) :
    ∃ c, (F.view t).ref h = .names name ∧ (F.view t).families name = some c ∧
      (name ∈ m.mapCFHandles → F.view t = F.view m.rocksDB) ∧
      (name ∉ m.mapCFHandles → (F.view m.rocksDB).families name = none ∧
        (F.view t).families = Function.update (F.view m.rocksDB).families name (some c)) := by
  cases ht with
  | present hfind =>
    have hmem : name ∈ m.mapCFHandles := AList.lookup_isSome.mp (by rw [hfind]; rfl)
    obtain ⟨c, hc⟩ := Option.ne_none_iff_exists'.mp (hm.1.families_of_lookup hfind).1
    exact ⟨c, hm.1.refs name h hfind, hc, fun _ => rfl, fun hnot => absurd hmem hnot⟩
  | created habsent hcreate =>
    obtain ⟨hnew, -, hview⟩ := (F.create_does m.rocksDB name).of_ok hcreate
    refine ⟨fun _ => none, ?_, ?_, fun hmem => absurd hmem habsent, fun _ => ⟨hnew, ?_⟩⟩
    · rw [hview, View.create_ref, if_pos rfl]
    · rw [hview, View.create_families, if_pos rfl]
    · rw [hview]
      rfl

/-- The call up to the loop that writes. -/
theorem createDBFromFile_load {ms : List (String × Json)} {h : η} {t : σ} {map : Map String η}
    (hfile : fileMembers J files path = some ms) (hfind : map.lookup name = some h)
    (hcreate : runOp F.toRocksDB files (createDB name) m =
      .ok none { m with mapCFHandles := map, rocksDB := t }) :
    runOp F.toRocksDB files (createDBFromFile J name path) m =
      runOp F.toRocksDB files (putAll h (memberEntries J ms) >>= fun errorLoad =>
        match errorLoad with
        | none => return none
        | some errorLoad => do
          match ← deleteDB name with
          | some errorDelete => return some errorDelete
          | none => return some errorLoad) { m with mapCFHandles := map, rocksDB := t } := by
  rcases runOp_getContentFromJsonFile F.toRocksDB J files path m with ⟨ms', hms', hrun⟩ | ⟨hnone, -⟩
  · cases hfile.symm.trans hms'
    refine (runOp_bind_ok hrun).trans ?_
    refine (runOp_bind_ok hcreate).trans ?_
    apply runOp_bind_congr
    refine (runOp_call_ok (c := .lookup name) rfl).trans ?_
    dsimp only
    rw [hfind]
    rfl
  · cases hfile.symm.trans hnone

/-- With every entry stored the call succeeds. -/
theorem createDBFromFile_stored {ms : List (String × Json)} {h : η} {t t' : σ} {map : Map String η}
    (hfile : fileMembers J files path = some ms) (hfind : map.lookup name = some h)
    (hcreate : runOp F.toRocksDB files (createDB name) m =
      .ok none { m with mapCFHandles := map, rocksDB := t })
    (hs : Stored F.toRocksDB h t (memberEntries J ms) t') :
    runOp F.toRocksDB files (createDBFromFile J name path) m =
      .ok none { m with mapCFHandles := map, rocksDB := t' } := by
  rw [createDBFromFile_load hfile hfind hcreate]
  have hput := putAll_stored files [] hs { m with mapCFHandles := map }
  rw [List.append_nil] at hput
  exact runOp_bind_ok hput

/-- A deletion drops the family when it is not in use and the drop works, and changes nothing of
what the storage shows otherwise. -/
theorem deleteDB_outcome (files : Files) {h : η} (hfind : m.mapCFHandles.lookup name = some h)
    (href : (F.view m.rocksDB).ref h = .names name) :
    (m.kvdbHandlerCollection.getKVDBHandlersCount name = 0 ∧
        ∃ t₁, (F.DropColumnFamily h).run m.rocksDB = .ok (.ok ()) t₁ ∧
          F.view t₁ = (F.view m.rocksDB).drop name ∧
          runOp F.toRocksDB files (deleteDB name) m =
            .ok none { m with mapCFHandles := m.mapCFHandles.erase name, rocksDB := t₁ }) ∨
      (¬ (m.kvdbHandlerCollection.getKVDBHandlersCount name = 0 ∧
          ∃ t₁, (F.DropColumnFamily h).run m.rocksDB = .ok (.ok ()) t₁) ∧
        ∃ t₁, F.view t₁ = F.view m.rocksDB ∧
          ((∃ e, runOp F.toRocksDB files (deleteDB name) m =
            .ok (some e) { m with rocksDB := t₁ }) ∨
            ∃ e, runOp F.toRocksDB files (deleteDB name) m =
              .error e { m with rocksDB := t₁ })) := by
  by_cases hcount : m.kvdbHandlerCollection.getKVDBHandlersCount name = 0
  · rcases (F.drop_does m.rocksDB h).cases with ⟨_, t₁, hdrop, n, -, hn, hview⟩ | ⟨hfail, hview⟩
    · cases href.symm.trans hn
      exact .inl ⟨hcount, t₁, hdrop, hview, deleteDB_dropped hcount hfind hdrop⟩
    · refine .inr ⟨fun hdrops => hfail () hdrops.2.choose hdrops.2.choose_spec, _, hview, ?_⟩
      obtain ⟨hafter, hnot⟩ := deleteDB_failed files hcount hfind (hfail ())
      unfold after at hafter
      cases hrun : runOp F.toRocksDB files (deleteDB name) m with
      | ok r m' =>
        rw [hrun] at hafter
        cases r with
        | none => exact absurd hrun (hnot m')
        | some e => exact .inl ⟨e, congrArg _ hafter⟩
      | error e m' =>
        rw [hrun] at hafter
        exact .inr ⟨e, congrArg _ hafter⟩
  · obtain ⟨e, he⟩ := deleteDB_refused (m := m) F.toRocksDB files
      fun hok => hcount hok.2
    exact .inr ⟨fun hdrops => hcount hdrops.1, m.rocksDB, rfl, .inl ⟨e, he⟩⟩

/-- A write that fails: the database is deleted when that works, and left with what was written
otherwise. The call does not succeed. -/
theorem createDBFromFile_failed {ms : List (String × Json)} {h : η} {t t' : σ} {map : Map String η}
    {done rest : List (String × String)} {entry : String × String}
    (hfile : fileMembers J files path = some ms) (hfind : map.lookup name = some h)
    (hcreate : runOp F.toRocksDB files (createDB name) m =
      .ok none { m with mapCFHandles := map, rocksDB := t })
    (hentries : memberEntries J ms = done ++ entry :: rest) (hs : Stored F.toRocksDB h t done t')
    (hfail : ∀ t'', (F.Put h entry.1 entry.2).run t' ≠ .ok (.ok ()) t'')
    (href : (F.view t').ref h = .names name) :
    (∀ m', runOp F.toRocksDB files (createDBFromFile J name path) m ≠ .ok none m') ∧
      ∃ t₃, (Drops F.toRocksDB m name h t' entry → F.view t₃ = (F.view t').drop name ∧
          after F.toRocksDB files (createDBFromFile J name path) m =
            { m with mapCFHandles := map.erase name, rocksDB := t₃ }) ∧
        (¬ Drops F.toRocksDB m name h t' entry → F.view t₃ = F.view t' ∧
          after F.toRocksDB files (createDBFromFile J name path) m =
            { m with mapCFHandles := map, rocksDB := t₃ }) := by
  have hload := createDBFromFile_load hfile hfind hcreate
  rw [hentries] at hload
  have hkeep := F.put_does t' h entry.1 entry.2
  unfold after
  rw [hload]
  rcases putAll_failed rest hs hfail { m with mapCFHandles := map } with
    ⟨text, t'', e, hput, hrun⟩ | ⟨e, t'', hput, hrun⟩
  · rw [hput] at hkeep
    rw [runOp_bind_ok hrun]
    have hiff := drops_iff_of_status m name hput
    have href'' : (F.view t'').ref h = .names name := by
      rw [show F.view t'' = F.view t' from hkeep]
      exact href
    rcases deleteDB_outcome files (m := { m with mapCFHandles := map, rocksDB := t'' })
      hfind href'' with ⟨hcount, t₃, hdrop, hview, hdel⟩ | ⟨hnot, t₃, hview, hdel⟩
    · rw [hkeep] at hview
      have hall := runOp_bind_ok (f := fun errorDelete => match errorDelete with
        | some errorDelete => return some errorDelete
        | none => return some e) hdel
      refine ⟨fun m' hm' => ?_, t₃, fun _ => ⟨hview, ?_⟩, fun hnot => ?_⟩
      · cases hall.symm.trans hm'
      · exact congrArg resultState hall
      · exact absurd (hiff.mpr ⟨hcount, t₃, hdrop⟩) hnot
    · rw [hkeep] at hview
      refine ⟨fun m' hm' => ?_, t₃, fun hdrops => absurd (hiff.mp hdrops) hnot,
        fun _ => ⟨hview, ?_⟩⟩
      · rcases hdel with ⟨e', hdel⟩ | ⟨e', hdel⟩
        · cases (runOp_bind_ok hdel).symm.trans hm'
        · cases (runOp_bind_error hdel).symm.trans hm'
      · rcases hdel with ⟨e', hdel⟩ | ⟨e', hdel⟩
        · exact congrArg resultState (runOp_bind_ok hdel)
        · exact congrArg resultState (runOp_bind_error hdel)
  · rw [hput] at hkeep
    rw [runOp_bind_error hrun]
    exact ⟨nofun, t'', fun hdrops => absurd hdrops (not_drops_of_throw hput), fun _ => ⟨hkeep, rfl⟩⟩

/-- A call that gets no object from the file changes nothing. -/
theorem createDBFromFile_noFile (hfile : fileMembers J files path = none) :
    after F.toRocksDB files (createDBFromFile J name path) m = m := by
  rcases runOp_getContentFromJsonFile F.toRocksDB J files path m with ⟨ms, hms, -⟩ | ⟨-, hnot⟩
  · cases hfile.symm.trans hms
  have hsame : after F.toRocksDB files (getContentFromJsonFile J path) m = m :=
    keeps_getContentFromJsonFile (I := fun m' => m' = m) path m rfl
  unfold after at hsame ⊢
  cases hrun : runOp F.toRocksDB files (getContentFromJsonFile J path) m with
  | ok content m' =>
    rw [hrun] at hsame
    cases content with
    | error e => exact (congrArg resultState (runOp_bind_ok hrun)).trans hsame
    | ok content => exact absurd hrun (hnot content m')
  | error e m' =>
    rw [hrun] at hsame
    exact (congrArg resultState (runOp_bind_error hrun)).trans hsame

/-- A call that cannot create the database ends there. -/
theorem createDBFromFile_notCreated {ms : List (String × Json)}
    (hfile : fileMembers J files path = some ms)
    (hcreate : ∀ m', runOp F.toRocksDB files (createDB name) m ≠ .ok none m') :
    after F.toRocksDB files (createDBFromFile J name path) m =
      after F.toRocksDB files (createDB name) m := by
  rcases runOp_getContentFromJsonFile F.toRocksDB J files path m with ⟨ms', -, hrun⟩ | ⟨hnone, -⟩
  · refine (congrArg resultState (runOp_bind_ok hrun)).trans ?_
    unfold after
    cases hc : runOp F.toRocksDB files (createDB name) m with
    | ok e m' =>
      cases e with
      | none => exact absurd hc (hcreate m')
      | some e => exact congrArg resultState (runOp_bind_ok hc)
    | error e m' => exact congrArg resultState (runOp_bind_error hc)
  · cases hfile.symm.trans hnone

/-- A creation that works gives the target of the entries. -/
theorem exists_target {m' : KVDBManager σ η}
    (hrun : runOp F.toRocksDB files (createDB name) m = .ok none m') :
    ∃ h t, Target F.toRocksDB m name h t := by
  by_cases hmem : name ∈ m.mapCFHandles
  · obtain ⟨h, hfind⟩ := Option.isSome_iff_exists.mp (AList.lookup_isSome.mpr hmem)
    exact ⟨h, _, .present hfind⟩
  · rcases (F.create_does m.rocksDB name).cases with ⟨h, t, hcreate, -⟩ | ⟨hfail, -⟩
    · exact ⟨h, t, .created hmem hcreate⟩
    · exact absurd hrun ((createDB_failed hmem hfail).2 m')

theorem sameDBs_of_view {t : σ} (ht : F.view t = F.view m.rocksDB) :
    SameDBs F m { m with rocksDB := t } := ⟨rfl, congrArg View.families ht⟩

section Listed

variable {map : Map String η} (hmap : ∀ n, n ∈ map ↔ n = name ∨ n ∈ m.mapCFHandles)
include hmap

/-- A database that was there before keeps its place; its content decides. -/
theorem sameDBs_kept_iff (hmem : name ∈ m.mapCFHandles) {c c' : Contents} {t : σ}
    (hc : (F.view m.rocksDB).families name = some c)
    (hview : (F.view t).families = Function.update (F.view m.rocksDB).families name (some c')) :
    SameDBs F m { m with mapCFHandles := map, rocksDB := t } ↔ c' = c := by
  constructor
  · intro hsame
    have hname := congrFun (hview.symm.trans hsame.2) name
    rw [Function.update_self, hc] at hname
    exact Option.some.inj hname
  · rintro rfl
    refine ⟨sortedSet_congr fun n => ?_, ?_⟩
    · refine (hmap n).trans ⟨?_, .inr⟩
      rintro (rfl | hn)
      · exact hmem
      · exact hn
    · refine hview.trans ?_
      rw [← hc]
      exact Function.update_eq_self name _

/-- A new database that stays is listed. -/
theorem not_sameDBs_added (hmem : name ∉ m.mapCFHandles) (t : σ) :
    ¬ SameDBs F m { m with mapCFHandles := map, rocksDB := t } := by
  intro hsame
  have hin : name ∈ listDBs { m with mapCFHandles := map, rocksDB := t } :=
    mem_listDBs.mpr ((hmap name).mpr (.inl rfl))
  rw [hsame.1, mem_listDBs] at hin
  exact absurd hin hmem

/-- A new database that is erased again leaves the databases that were there. -/
theorem sameDBs_erased (hmem : name ∉ m.mapCFHandles) {t : σ}
    (hview : (F.view t).families = (F.view m.rocksDB).families) :
    SameDBs F m { m with mapCFHandles := map.erase name, rocksDB := t } := by
  refine ⟨sortedSet_congr fun n => ?_, hview⟩
  refine AList.mem_erase.trans ((and_congr_right' (hmap n)).trans ?_)
  constructor
  · rintro ⟨hne, rfl | hn⟩
    · exact absurd rfl hne
    · exact hn
  · exact fun hn => ⟨fun he => hmem (he ▸ hn), .inr hn⟩

end Listed

/-- A database that was there and is erased is not listed. -/
theorem not_sameDBs_erased (hmem : name ∈ m.mapCFHandles) (map : Map String η) (t : σ) :
    ¬ SameDBs F m { m with mapCFHandles := map.erase name, rocksDB := t } := by
  intro hsame
  have hin := mem_listDBs.mpr hmem
  rw [← hsame.1, mem_listDBs] at hin
  exact absurd rfl (AList.mem_erase.mp hin).1

/-- After a write that fails, the databases are the same exactly when the write is undone. -/
theorem sameDBs_failed (hm : MirrorsOpen F m) {ms : List (String × Json)} {h : η} {t t' : σ}
    {done rest : List (String × String)} {entry : String × String}
    (hfile : fileMembers J files path = some ms) (ht : Target F.toRocksDB m name h t)
    (hentries : memberEntries J ms = done ++ entry :: rest) (hs : Stored F.toRocksDB h t done t')
    (hfail : ∀ t'', (F.Put h entry.1 entry.2).run t' ≠ .ok (.ok ()) t'') :
    (∀ m', runOp F.toRocksDB files (createDBFromFile J name path) m ≠ .ok none m') ∧
      (SameDBs F m (after F.toRocksDB files (createDBFromFile J name path) m) ↔
        if name ∈ m.mapCFHandles then
          ¬ Drops F.toRocksDB m name h t' entry ∧
            ∀ c, (F.view m.rocksDB).families name = some c → written c done = c
        else Drops F.toRocksDB m name h t' entry) := by
  obtain ⟨map, hfind, hmap, hcreate⟩ := ht.run files
  obtain ⟨c, href, hc, hpresent, habsent⟩ := ht.view hm
  obtain ⟨href', hfamilies⟩ := stored_view hs href hc
  obtain ⟨hnot, t₃, hdropped, hkept⟩ :=
    createDBFromFile_failed hfile hfind hcreate hentries hs hfail ((congrFun href' h).trans href)
  refine ⟨hnot, ?_⟩
  by_cases hmem : name ∈ m.mapCFHandles
  · rw [if_pos hmem]
    by_cases hdrops : Drops F.toRocksDB m name h t' entry
    · rw [(hdropped hdrops).2]
      exact iff_of_false (not_sameDBs_erased hmem map t₃) fun hundone => hundone.1 hdrops
    · have hview : (F.view t₃).families =
          Function.update (F.view m.rocksDB).families name (some (written c done)) := by
        rw [(hkept hdrops).1, hfamilies, hpresent hmem]
      have hc' : (F.view m.rocksDB).families name = some c := by
        rw [← hpresent hmem]
        exact hc
      rw [(hkept hdrops).2, sameDBs_kept_iff hmap hmem hc' hview]
      refine ⟨fun hsame => ⟨hdrops, fun c₁ hc₁ => ?_⟩, fun hundone => hundone.2 c hc'⟩
      cases hc'.symm.trans hc₁
      exact hsame
  · rw [if_neg hmem]
    obtain ⟨hnone, hfam⟩ := habsent hmem
    by_cases hdrops : Drops F.toRocksDB m name h t' entry
    · rw [(hdropped hdrops).2]
      refine iff_of_true (sameDBs_erased hmap hmem ?_) hdrops
      rw [(hdropped hdrops).1]
      unfold View.drop
      rw [hfamilies, hfam, Function.update_idem, Function.update_idem, ← hnone]
      exact Function.update_eq_self name _
    · rw [(hkept hdrops).2]
      exact iff_of_false (not_sameDBs_added hmap hmem t₃) hdrops

theorem allOrNothing_of_mirrors (hm : MirrorsOpen F m) (files : Files) (name path : String) :
    AllOrNothing F J files name path m ↔ Undone F J files name path m := by
  constructor
  · intro hall ms h t done entry rest t' hfile ht hentries hs hfail
    obtain ⟨hnot, hiff⟩ := sameDBs_failed hm hfile ht hentries hs hfail
    exact hiff.mp (hall hnot)
  · intro hundone hnot
    cases hfile : fileMembers J files path with
    | none =>
      rw [createDBFromFile_noFile hfile]
      exact ⟨rfl, rfl⟩
    | some ms =>
      by_cases hcreate : ∃ m', runOp F.toRocksDB files (createDB name) m = .ok none m'
      · obtain ⟨m', hrun⟩ := hcreate
        obtain ⟨h, t, ht⟩ := exists_target hrun
        rcases putAll_cases F.toRocksDB h (memberEntries J ms) t with
          ⟨t', hs⟩ | ⟨done, entry, rest, t', hentries, hs, hfail⟩
        · obtain ⟨map, hfind, -, hc⟩ := ht.run files
          exact absurd (createDBFromFile_stored hfile hfind hc hs) (hnot _)
        · exact (sameDBs_failed hm hfile ht hentries hs hfail).2.mpr
            (hundone ms h t done entry rest t' hfile ht hentries hs hfail)
      · rw [createDBFromFile_notCreated hfile (not_exists.mp hcreate)]
        obtain ⟨t, hview, ht⟩ := createDB_not_ok (not_exists.mp hcreate)
        rw [ht]
        exact sameDBs_of_view hview

/-- In every initialized state a run reaches, `createDB(name, path)` is all-or-nothing exactly when
a write that fails is undone. -/
theorem allOrNothing_iff {s : Session σ η} (h : (sessions F.toRocksDB J).Reachable s)
    (hi : s.manager.isInitialized = true) (files : Files) (name path : String) :
    AllOrNothing F J files name path s.manager ↔ Undone F J files name path s.manager :=
  allOrNothing_of_mirrors ⟨mirrors_of_reachable h, hi⟩ files name path

end

/-! ## A file with one entry -/

def oneEntry : Rapidjson where
  parse text :=
    if text = "\x7b\"k\":1\x7d" then .ok (.obj [("k", .num (.int 1))])
    else .error ⟨"Parse error at offset 0: Invalid value."⟩
  print _ := "1"

def oneFile : Files := fun path =>
  .ok (if path = "geo.json" then some "\x7b\"k\":1\x7d" else none)

/-- A new database whose only write fails is taken back. -/
theorem allOrNothing_once : Undone memRocksDB oneEntry oneFile "geo" "geo.json"
    (openedManager [.works, .fails "IO error: No space left on device"]) :=
  (allOrNothing_iff (reachable_openedManager _ oneEntry).of_guarded rfl oneFile "geo" "geo.json").mp
    fun _ => ⟨rfl, rfl⟩

/-- A database that was there before is deleted when a write into it fails. -/
theorem allOrNothing_fails : ∃ s : Session MemRocks Nat,
    (sessions memRocksDB.toRocksDB oneEntry).Reachable s ∧ s.manager.isInitialized = true ∧
      ¬ AllOrNothing memRocksDB oneEntry oneFile "geo" "geo.json" s.manager := by
  refine ⟨_, (reachable_managerWith "geo" [.fails "IO error: No space left on device"] oneEntry
    rfl).of_guarded, rfl, fun hall => ?_⟩
  have hsame := (hall (by intro m' h; cases h)).1
  exact absurd hsame (by decide +kernel)

end DistroDefender.Kvdb
