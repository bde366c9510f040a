import DistroDefender.Geo.Manager
import DistroDefender.Lib.Transition
import DistroDefender.Store.MemDriver

/-!
# The two maps of the manager

`geo::Manager` changes its maps in four ways only, whatever its calls return or throw (`Change`,
`exec_moves`). Each keeps `dbTypes` the inverse of the types in `dbs` (`inverse_change`), so this
holds of every reachable manager, and `getLocator` finds the database it looks for (`registry`).
-/

namespace DistroDefender.Geo

open Base Lib Os Store Manager

variable {τ : Type}

/-! ## What an operation changes -/

/-- One change of the maps. -/
inductive Change (w : World τ) : World τ → Prop
  /-- The store and the files alone. -/
  | outside {w' : World τ} (hdbs : w'.dbs = w.dbs) (htypes : w'.dbTypes = w.dbTypes)
      (hopenings : w'.openings = w.openings) : Change w w'
  | register {path content : String} {type : DbType} (htype : w.dbTypes.lookup type = none)
      (hname : w.dbs.lookup (filename path) = none) : Change w (register w path type content)
  | unregister {name : String} {entry : DbEntry} (h : w.dbs.lookup name = some entry) :
      Change w (unregister w name)
  | reopen {name content : String} {entry : DbEntry} (h : w.dbs.lookup name = some entry) :
      Change w (reopen w name entry content)

section Stored

variable (deps : Deps τ) (o : Outcomes)

-- a relation that a change of the store alone meets
variable {R : World τ → World τ → Prop} (hR : ∀ w store, R w { w with store })
include hR

theorem onStore_moves {α : Type} (x : Call τ α) (w : World τ) : Moves R (onStore x) w :=
  .onPart (hR w) x

theorem upsertStoreEntry_moves (k : Nat) (path : String) (w : World τ) :
    Moves R (upsertStoreEntry deps o k path) w := by
  refine .get_bind ?_
  split
  · exact .pure _
  · split
    · exact .pure _
    · refine .bind (.orThrow _) fun name w' _ => ?_
      split
      · exact .raise _
      · exact onStore_moves hR _ w'

theorem removeInternalEntry_moves (path : String) (w : World τ) :
    Moves R (removeInternalEntry deps path) w :=
  .bind (.orThrow _) fun _ w' _ => onStore_moves hR _ w'

end Stored

theorem Change.stored (w : World τ) (store : τ) : Change w { w with store } := .outside rfl rfl rfl

section Moves

variable (deps : Deps τ) (o : Outcomes) (w : World τ)

theorem removeDbUnsafe_moves (path : String) : Moves Change (removeDbUnsafe deps path) w := by
  refine .get_bind ?_
  split
  · exact .pure _
  · rename_i entry h
    refine .bind (.set (.unregister h)) fun _ w' _ => ?_
    exact removeInternalEntry_moves deps Change.stored path w'

theorem addDbUnsafe_moves (k : Nat) (path : String) (type : DbType) (upsertStore : Bool) :
    Moves Change (addDbUnsafe deps o k path type upsertStore) w := by
  refine .get_bind ?_
  split
  · exact .pure _
  · rename_i htype
    split
    · exact .pure _
    · rename_i hname
      split
      · exact .pure _
      · have hnone := Option.not_isSome_iff_eq_none.mp hname
        refine .bind (.set (.register htype hnone)) fun _ w' _ => ?_
        split
        · exact .bind (upsertStoreEntry_moves deps o Change.stored k path w') fun _ w' _ => .pure _
        · exact .pure _

theorem refreshDb_moves (path content : String) {entry : DbEntry}
    (h : w.dbs.lookup (filename path) = some entry) :
    Moves Change (refreshDb deps o path content entry) w := by
  rcases run_writeDb (o := o) w path content with ⟨-, hrun⟩ | ⟨-, e, hrun⟩
  · have hwrote : Change w (wrote o w path content) := .outside rfl rfl rfl
    refine .bind (by rw [Moves, hrun]; exact .single hwrote) fun a w' ha => ?_
    cases hrun.symm.trans ha
    refine .get_bind ?_
    split
    · exact .bind (removeDbUnsafe_moves deps _ path) fun _ w' _ => .pure _
    · exact .bind (.modify (.reopen h)) fun _ w' _ => .pure _
  · refine .bind (by rw [Moves, hrun]; exact .refl) fun a w' ha => ?_
    cases hrun.symm.trans ha
    exact .pure _

theorem newDb_moves (path : String) (type : DbType) (content : String) :
    Moves Change (newDb deps o path type content) w := by
  rcases run_writeDb (o := o) w path content with ⟨-, hrun⟩ | ⟨-, e, hrun⟩
  · have hwrote : Change w (wrote o w path content) := .outside rfl rfl rfl
    refine .bind (by rw [Moves, hrun]; exact .single hwrote) fun a w' ha => ?_
    cases hrun.symm.trans ha
    exact addDbUnsafe_moves deps o _ 0 path type false
  · refine .bind (by rw [Moves, hrun]; exact .refl) fun a w' ha => ?_
    cases hrun.symm.trans ha
    exact .pure _

theorem openDb_moves (path : String) (type : DbType) (content : String) :
    Moves Change (openDb deps o path type content) w := by
  refine .get_bind ?_
  split
  · rename_i entry h
    exact refreshDb_moves deps o w path content h
  · exact newDb_moves deps o w path type content

theorem install_moves (path : String) (type : DbType) (content : String) :
    Moves Change (install deps o path type content) w := by
  refine .bind (openDb_moves deps o w path type content) fun error w' _ => ?_
  split
  · exact .pure _
  · exact .bind (upsertStoreEntry_moves deps o Change.stored _ path w') fun _ w' _ => .pure _

theorem remoteUpsertDb_moves (path : String) (type : DbType) (dbUrl hashUrl : String) :
    Moves Change (remoteUpsertDb deps o path type dbUrl hashUrl) w := by
  refine .get_bind ?_
  split
  · exact .pure _
  · split
    · exact .pure _
    · refine .bind (.orThrow _) fun stored w' _ => ?_
      split
      · exact .pure _
      · refine .bind (.orThrow _) fun found w' _ => ?_
        split
        · exact .pure _
        · exact install_moves deps o w' path type _

theorem loadDb_moves (db : Name) (k : Nat) : Moves Change (loadDb deps o db k) w := by
  refine .get_bind ?_
  split
  · exact .pure _
  · refine .bind (.orThrow _) fun path w' _ => .bind (.orThrow _) fun typeStr w' _ =>
      .bind (.orThrow _) fun type w' _ => .bind (addDbUnsafe_moves deps o w' k path type false)
        fun error w' _ => ?_
    split
    · exact .pure _
    · exact .bind (onStore_moves Change.stored _ w') fun _ w' _ => .pure _

theorem construct_moves : Moves Change (construct deps o) w := by
  refine .bind (.orThrow _) fun name w' _ => .get_bind (.bind (.orThrow _) fun dbs w' _ => ?_)
  split
  · exact .pure _
  · exact .forM _ (fun (db : Name × Nat) w => loadDb_moves deps o w db.1 db.2) w'

end Moves

/-! ## Runs -/

/-- The operations of a manager. -/
inductive Op where
  | addDb (path : String) (type : DbType)
  | removeDb (path : String)
  | remoteUpsertDb (path : String) (type : DbType) (dbUrl hashUrl : String)

/-- The call an operation stands for. -/
def exec (deps : Deps τ) (o : Outcomes) : Op → Call (World τ) OptError
  | .addDb path type => addDb deps o path type
  | .removeDb path => removeDb deps path
  | .remoteUpsertDb path type dbUrl hashUrl => remoteUpsertDb deps o path type dbUrl hashUrl

/-- What happens in a run: a call, or something outside changes the store and the files. -/
inductive Act where
  | call (op : Op) (o : Outcomes)
  | outside

/-- One step of a manager. -/
inductive Step (deps : Deps τ) : World τ → Act → World τ → Prop
  | call {w : World τ} (op : Op) (o : Outcomes) :
      Step deps w (.call op o) (resultState ((exec deps o op).run w))
  | outside {w : World τ} (store : τ) (files : Path → Option String) :
      Step deps w .outside { w with store, files }

/-- A manager, from any store and any files. -/
def system (deps : Deps τ) : System (World τ) Act where
  init w := ∃ o store files, (construct deps o).run (World.start store files) = .ok () w
  step := Step deps

theorem exec_moves (deps : Deps τ) (o : Outcomes) (op : Op) (w : World τ) :
    Moves Change (exec deps o op) w := by
  cases op with
  | addDb path type => exact addDbUnsafe_moves deps o w 0 path type true
  | removeDb path => exact removeDbUnsafe_moves deps w path
  | remoteUpsertDb path type dbUrl hashUrl =>
    exact remoteUpsertDb_moves deps o w path type dbUrl hashUrl

/-- What every change keeps, every step keeps. -/
theorem step_keeps {deps : Deps τ} {I : World τ → Prop} (hI : ∀ w w', Change w w' → I w → I w')
    {w w' : World τ} {a : Act} (hs : Step deps w a w') (h : I w) : I w' := by
  cases hs with
  | call op o => exact (exec_moves deps o op w).keeps hI h
  | outside store files => exact hI w _ (.outside rfl rfl rfl) h

/-- What holds without databases and what every change keeps holds of every reachable manager. -/
theorem holds_of_reachable {deps : Deps τ} {I : World τ → Prop}
    (hstart : ∀ store files, I (World.start store files))
    (hI : ∀ w w', Change w w' → I w → I w') {w : World τ} (h : (system deps).Reachable w) :
    I w := by
  refine System.Inductive.holds (S := system deps) ⟨fun w hw => ?_, fun w a w' hw hs => ?_⟩ h
  · obtain ⟨o, store, files, hrun⟩ := hw
    have hkeeps := (construct_moves deps o _).keeps hI (hstart store files)
    rw [hrun] at hkeeps
    exact hkeeps
  · exact step_keeps hI hs hw

/-! ## The maps are inverse to each other -/

/-- `dbTypes` maps a type to a name exactly when the name has a database of that type. -/
def Inverse (w : World τ) : Prop :=
  ∀ type name, w.dbTypes.lookup type = some name ↔
    ∃ entry, w.dbs.lookup name = some entry ∧ entry.type = type

theorem inverse_start (store : τ) (files : Path → Option String) :
    Inverse (World.start store files) := by
  intro type name
  constructor
  · intro h
    cases h
  · rintro ⟨entry, h, -⟩
    cases h

theorem inverse_register {w : World τ} (h : Inverse w) {path content : String} {type : DbType}
    (htype : w.dbTypes.lookup type = none) (hname : w.dbs.lookup (filename path) = none) :
    Inverse (register w path type content) := by
  intro type' name
  simp only [register, Map.lookup_insert_eq]
  by_cases ht : type' = type
  · subst ht
    rw [if_pos rfl]
    by_cases hn : name = filename path
    · rw [if_pos hn, hn]
      exact ⟨fun _ => ⟨_, rfl, rfl⟩, fun _ => rfl⟩
    · rw [if_neg hn, ← h type' name, htype]
      constructor
      · intro he
        exact absurd (Option.some.inj he).symm hn
      · intro he
        cases he
  · rw [if_neg ht]
    by_cases hn : name = filename path
    · rw [if_pos hn, h type' name, hn, hname]
      constructor
      · rintro ⟨entry, he, -⟩
        cases he
      · rintro ⟨entry, he, hentry⟩
        cases he
        exact absurd hentry.symm ht
    · rw [if_neg hn]
      exact h type' name

theorem typeOf_eq {dbTypes : Map DbType String} {name : String} {type : DbType}
    (h : ∀ t, dbTypes.lookup t = some name ↔ t = type) : typeOf dbTypes name = some type := by
  unfold typeOf
  cases type with
  | CITY => simp [List.find?, h]
  | ASN => simp [List.find?, h]

theorem inverse_unregister {w : World τ} (h : Inverse w) {name : String} {entry : DbEntry}
    (hentry : w.dbs.lookup name = some entry) : Inverse (unregister w name) := by
  have htype : typeOf w.dbTypes name = some entry.type := by
    refine typeOf_eq fun t => ?_
    rw [h t name, hentry]
    constructor
    · rintro ⟨e, he, ht⟩
      cases he
      exact ht.symm
    · intro ht
      exact ⟨entry, rfl, ht.symm⟩
  intro type' name'
  simp only [unregister, htype, Map.lookup_erase_eq]
  by_cases hn : name' = name
  · subst hn
    rw [if_pos rfl]
    constructor
    · intro he
      split at he
      · cases he
      · rename_i hne
        obtain ⟨e, he, ht⟩ := (h type' name').mp he
        cases hentry.symm.trans he
        exact absurd ht.symm hne
    · rintro ⟨e, he, -⟩
      cases he
  · rw [if_neg hn]
    split
    · rename_i ht
      constructor
      · intro he
        cases he
      · rintro ⟨e, he, hte⟩
        have hname' := (h type' name').mpr ⟨e, he, hte⟩
        have hname := (h type' name).mpr ⟨entry, hentry, ht.symm⟩
        exact absurd (Option.some.inj (hname'.symm.trans hname)) hn
    · exact h type' name'

theorem inverse_reopen {w : World τ} (h : Inverse w) {name content : String} {entry : DbEntry}
    (hentry : w.dbs.lookup name = some entry) : Inverse (reopen w name entry content) := by
  intro type name'
  simp only [reopen, Map.lookup_insert_eq]
  rw [h type name']
  split
  · rename_i hn
    rw [hn, hentry]
    constructor
    · rintro ⟨e, he, ht⟩
      cases he
      exact ⟨_, rfl, ht⟩
    · rintro ⟨e, he, ht⟩
      cases he
      exact ⟨entry, rfl, ht⟩
  · rfl

theorem inverse_change {w w' : World τ} (hc : Change w w') (h : Inverse w) : Inverse w' := by
  cases hc with
  | outside hdbs htypes _ =>
    intro type name
    rw [hdbs, htypes]
    exact h type name
  | register htype hname => exact inverse_register h htype hname
  | unregister hentry => exact inverse_unregister h hentry
  | reopen hentry => exact inverse_reopen h hentry

/-- What holds of the maps of a manager. -/
structure Registry (w : World τ) : Prop where
  inverse : Inverse w
  /-- A type has at most one database. -/
  one : ∀ name name' entry entry', w.dbs.lookup name = some entry →
    w.dbs.lookup name' = some entry' → entry.type = entry'.type → name = name'
  /-- A database has the slot of its type. -/
  slot : ∀ name entry, w.dbs.lookup name = some entry → w.dbTypes.lookup entry.type = some name
  /-- `getLocator` does not throw. -/
  found : ∀ type memory, ∃ r, getLocator w type memory = .ok r

theorem Inverse.consistent {w : World τ} (h : Inverse w) : Registry w where
  inverse := h
  one name name' entry entry' he he' ht := by
    have hname := (h entry.type name).mpr ⟨entry, he, rfl⟩
    have hname' := (h entry.type name').mpr ⟨entry', he', ht.symm⟩
    exact Option.some.inj (hname.symm.trans hname')
  slot name entry he := (h entry.type name).mpr ⟨entry, he, rfl⟩
  found type memory := by
    unfold getLocator
    cases htype : w.dbTypes.lookup type with
    | none => exact ⟨_, rfl⟩
    | some name =>
      obtain ⟨entry, he, -⟩ := (h type name).mp htype
      simp only [he]
      exact ⟨_, rfl⟩

/-- The maps of every reachable manager. -/
theorem registry (deps : Deps τ) (w : World τ) (h : (system deps).Reachable w) : Registry w :=
  (holds_of_reachable inverse_start (fun _ _ => inverse_change) h).consistent

/-! ## A manager with one database -/

section Sample

/-- A libmaxminddb where a content has one entry, at the offset of its length, that holds the
content itself. -/
def sampleLib : Maxminddb where
  status content := if content = "" then 2 else MMDB_SUCCESS
  strerror status := if status = 2 then "The MaxMind DB file's search tree is corrupt" else ""
  gai_strerror _ := "Name or service not known"
  lookup_string content ip :=
    if ip = "" then (⟨false, 0⟩, -2, MMDB_SUCCESS) else (⟨true, content.length⟩, 0, MMDB_SUCCESS)
  aget_value content entry _ :=
    if entry = content.length then .ok (.utf8_string content) else .error 3

def sampleDeps : Deps (Store MemTree) := ⟨.ofStore memDriver.toIDriver, sampleLib, fun _ => ""⟩

/-- Every call goes well; the download is `content`, with the hash `hash`. -/
def Outcomes.well (content hash : String) : Outcomes where
  downloadMD5 _ := .ok hash
  downloadHTTPS _ _ := .ok content
  computeMD5 _ c := .ok (if c = content then hash else "")
  createDirectories := none
  openWrite := true
  shortWrite := none
  openRead := true
  mmdbOpen _ := none

def samplePath : String := "/geo/city.mmdb"

/-- A manager without databases, beside one file. -/
def sampleStart : World (Store MemTree) :=
  .start ⟨.empty, .empty⟩ fun path => if path = samplePath then some "old" else none

theorem sampleStart_reachable : (system sampleDeps).Reachable sampleStart := by
  refine .init ⟨.well "" "", sampleStart.store, sampleStart.files, ?_⟩
  have hname : Name.ofString INTERNAL_NAME = .ok ⟨["geo"], by decide, by decide, by decide⟩ := by
    decide +kernel
  unfold construct
  rw [hname]
  rfl

/-- The manager after the file was added. -/
def sampleWorld : World (Store MemTree) :=
  resultState ((addDb sampleDeps (.well "old" "hash") samplePath .CITY).run sampleStart)

theorem sampleWorld_reachable : (system sampleDeps).Reachable sampleWorld :=
  sampleStart_reachable.step (.call (.addDb samplePath .CITY) (.well "old" "hash"))

theorem sampleWorld_lookup : sampleWorld.dbs.lookup "city.mmdb" =
    some ⟨0, samplePath, .CITY, 0, "old"⟩ := by
  decide +kernel

theorem sampleWorld_registry : Registry sampleWorld ∧
    sampleWorld.dbs.lookup "city.mmdb" = some ⟨0, samplePath, .CITY, 0, "old"⟩ :=
  ⟨registry sampleDeps sampleWorld sampleWorld_reachable, sampleWorld_lookup⟩

end Sample

end DistroDefender.Geo
