import DistroDefender.Geo.Entries
import DistroDefender.Geo.Upsert

/-!
# After a remote upsert

`Postcondition` is what a caller of `remoteUpsertDb` expects when there is no error: the database is
listed as it was asked for, the locator of its type reads the file at its path, and the databases of
other types are as they were. The maps are keyed by the file name alone, so a registered name is
opened again whatever directory and type were asked for; `postcondition_iff` says when this shows.
-/

namespace DistroDefender.Geo

open Base Lib Os Store Manager

variable {τ : Type} {deps : Deps τ} {o : Outcomes} {w w' : World τ} {path : String} {type : DbType}
  {dbUrl hashUrl : String}

/-- What the caller expects of the state after the call. -/
structure Postcondition (w : World τ) (path : String) (type : DbType) (w' : World τ) : Prop where
  listed : ⟨filename path, path, type⟩ ∈ listDbs w'
  /-- There is a locator of the type, and what it reads is the file at the path. -/
  located : ∀ memory, ∃ l entry, getLocator w' type memory = .ok (.ok l) ∧
    w'.lock l.weakDbEntry = some entry ∧ w'.files path = some entry.content
  /-- A database of another type is not served from what was downloaded: it is as it was. -/
  others : ∀ name entry, w'.dbs.lookup name = some entry → entry.type ≠ type →
    w.dbs.lookup name = some entry

/-- The name has no database, or one of the path and type asked for; where this has the advertised
hash already, it has the file at the path open. -/
def Placed (deps : Deps τ) (o : Outcomes) (w : World τ) (path : String) (type : DbType)
    (hashUrl : String) : Prop :=
  w.dbs.lookup (filename path) = none ∨
    ∃ entry, w.dbs.lookup (filename path) = some entry ∧ entry.path = path ∧ entry.type = type ∧
      ∀ hash, o.downloadMD5 hashUrl = .ok hash → StoredHash deps w (filename path) (some hash) →
        w.files path = some entry.content

/-- The postcondition in terms of the entry of the name. -/
theorem postcondition_iff_entry {entry : DbEntry} (hinv : Inverse w') (hdistinct : Distinct w')
    (hentry : w'.dbs.lookup (filename path) = some entry) :
    Postcondition w path type w' ↔
      entry.path = path ∧ entry.type = type ∧ w'.files path = some entry.content ∧
        ∀ name e, w'.dbs.lookup name = some e → e.type ≠ type → w.dbs.lookup name = some e := by
  constructor
  · rintro ⟨hlisted, hlocated, hothers⟩
    obtain ⟨e, he, hpath, htype⟩ := mem_listDbs.mp hlisted
    cases hentry.symm.trans he
    obtain ⟨l, e, hl, hlock, hfile⟩ := hlocated ⟨false, 0⟩
    -- the locator is the one of the entry
    have hlocator := hinv.getLocator_eq hentry ⟨false, 0⟩
    rw [show entry.type = type from htype] at hlocator
    cases hlocator.symm.trans hl
    cases (hdistinct.lock_eq hentry).symm.trans hlock
    exact ⟨hpath, htype, hfile, hothers⟩
  · rintro ⟨hpath, rfl, hfile, hothers⟩
    refine ⟨mem_listDbs.mpr ⟨entry, hentry, hpath, rfl⟩, fun memory => ?_, hothers⟩
    exact ⟨_, entry, hinv.getLocator_eq hentry memory, hdistinct.lock_eq hentry, hfile⟩

/-- The call that returns no error was up to date or has opened the database. -/
theorem run_remoteUpsertDb_none
    (h : (remoteUpsertDb deps o path type dbUrl hashUrl).run w = .ok none w') :
    (∃ hash, o.downloadMD5 hashUrl = .ok hash ∧ StoredHash deps w (filename path) (some hash) ∧
      typeConflict w (filename path) type = none ∧ w' = w) ∨
    (∃ content w₁ t, (∀ hash, o.downloadMD5 hashUrl = .ok hash →
        ¬ StoredHash deps w (filename path) (some hash)) ∧
      Opened deps o w path type content (.ok none w₁) ∧ w' = { w₁ with store := t }) := by
  have hupserted := remoteUpsertDb_upserted deps o w path type dbUrl hashUrl
  rw [h] at hupserted
  cases hupserted with
  | upToDate htype hhash hstored => exact .inl ⟨_, hhash, hstored, htype, rfl⟩
  | @attempted hash _ htype hhash hstored hread hrun =>
    have hnew : ∀ hash', o.downloadMD5 hashUrl = .ok hash' →
        ¬ StoredHash deps w (filename path) (some hash') := by
      intro hash' hhash'
      cases hhash.symm.trans hhash'
      exact hstored
    split at hrun
    · cases hrun
    · cases hrun
    · rename_i content _
      rcases run_install deps o w path type content with ⟨-, w₁, t, hopened, hinstall⟩ |
        ⟨-, e, w₁, -, hinstall⟩ | ⟨-, e, w₁, hinstall⟩
      · cases hrun.trans hinstall
        exact .inr ⟨content, w₁, t, hnew, hopened, rfl⟩
      · cases hrun.trans hinstall
      · cases hrun.trans hinstall

/-- Opening again leaves the other names alone, and so does adding. -/
theorem Opened.others {content name : String} {w₁ : World τ}
    (h : Opened deps o w path type content (.ok none w₁)) (hname : name ≠ filename path) :
    w₁.dbs.lookup name = w.dbs.lookup name := by
  cases h with
  | refreshed _ _ _ => exact AList.lookup_insert_ne hname
  | added _ _ _ _ => exact AList.lookup_insert_ne hname

/-- Without an error the postcondition holds exactly when the database is placed. -/
theorem postcondition_iff (deps : Deps τ) (o : Outcomes) (w w' : World τ) (path : String)
    (type : DbType) (dbUrl hashUrl : String) (hw : (system deps).Reachable w)
    (hrun : (remoteUpsertDb deps o path type dbUrl hashUrl).run w = .ok none w') :
    Postcondition w path type w' ↔ Placed deps o w path type hashUrl := by
  have hw' : (system deps).Reachable w' := by
    have hstep := hw.step (.call (.remoteUpsertDb path type dbUrl hashUrl) o)
    have hres : resultState ((exec deps o (.remoteUpsertDb path type dbUrl hashUrl)).run w) = w' :=
      congrArg resultState hrun
    rw [hres] at hstep
    exact hstep
  have hinv := inverse_of_reachable hw'
  have hdistinct := distinct_of_reachable hw'
  rcases run_remoteUpsertDb_none hrun with ⟨hash, hhash, hstored, -, rfl⟩ |
    ⟨content, w₁, t, hnew, hopened, rfl⟩
  · obtain ⟨entry, hentry⟩ := Option.ne_none_iff_exists'.mp hstored.1
    rw [postcondition_iff_entry hinv hdistinct hentry]
    constructor
    · rintro ⟨hpath, htype, hfile, -⟩
      exact .inr ⟨entry, hentry, hpath, htype, fun _ _ _ => hfile⟩
    · rintro (hnone | ⟨e, he, hpath, htype, hfile⟩)
      · cases hentry.symm.trans hnone
      · cases hentry.symm.trans he
        exact ⟨hpath, htype, hfile hash hhash hstored, fun _ _ h _ => h⟩
  · have hothers : ∀ name, name ≠ filename path → ∀ e, w₁.dbs.lookup name = some e →
        w.dbs.lookup name = some e := by
      intro name hname e he
      rwa [hopened.others hname] at he
    have hrest : ∀ entry', w₁.dbs.lookup (filename path) = some entry' → entry'.type = type →
        ∀ name e, w₁.dbs.lookup name = some e → e.type ≠ type → w.dbs.lookup name = some e := by
      intro entry' hentry' htype name e he hne
      by_cases hname : name = filename path
      · subst hname
        cases hentry'.symm.trans he
        exact absurd htype hne
      · exact hothers name hname e he
    cases hopened with
    | @refreshed entry hwrite hentry hopen =>
      have hentry' :=
        lookup_reopen (wrote o w path content) (filename path) entry (o.stored content)
      rw [postcondition_iff_entry hinv hdistinct hentry']
      constructor
      · rintro ⟨hpath, htype, -, -⟩
        refine .inr ⟨entry, hentry, hpath, htype, fun hash hhash hstored => ?_⟩
        exact absurd hstored (hnew hash hhash)
      · rintro (hnone | ⟨e, he, hpath, htype, -⟩)
        · cases hentry.symm.trans hnone
        · cases hentry.symm.trans he
          exact ⟨hpath, htype, Function.update_self .., hrest _ hentry' htype⟩
    | added hwrite hname htype hopen =>
      have hentry' := lookup_register (wrote o w path content) path type (o.stored content)
      rw [postcondition_iff_entry hinv hdistinct hentry']
      constructor
      · exact fun _ => .inl hname
      · exact fun _ => ⟨rfl, rfl, Function.update_self .., hrest _ hentry' rfl⟩

section Sample

/-- The call that replaces the content of the registered database. -/
theorem sampleWorld_postcondition : ∃ w', (remoteUpsertDb sampleDeps (.well "new" "md5") samplePath
    .CITY "db" "md5").run sampleWorld = .ok none w' ∧
      (Postcondition sampleWorld samplePath .CITY w' ↔
        Placed sampleDeps (.well "new" "md5") sampleWorld samplePath .CITY "md5") ∧
      Placed sampleDeps (.well "new" "md5") sampleWorld samplePath .CITY "md5" := by
  refine ⟨_, rfl, ?_, ?_⟩
  · exact postcondition_iff _ _ _ _ _ _ "db" _ sampleWorld_reachable rfl
  · exact .inr ⟨_, sampleWorld_lookup, rfl, rfl, fun _ _ _ => rfl⟩

/-- The name of a city database is taken for one of the other type, and nothing is listed under
it. -/
theorem otherType_not_postcondition :
    ∃ w', (remoteUpsertDb sampleDeps (.well "new" "md5") samplePath .ASN "db" "md5").run
        sampleWorld = .ok none w' ∧
      ¬ Postcondition sampleWorld samplePath .ASN w' := by
  refine ⟨_, rfl, fun h => ?_⟩
  have hlisted := h.listed
  revert hlisted
  decide +kernel

end Sample

end DistroDefender.Geo
