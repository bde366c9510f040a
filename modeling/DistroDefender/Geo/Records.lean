import DistroDefender.Geo.Entries
import DistroDefender.Geo.Internal
import DistroDefender.Geo.Upsert

/-!
# The documents of the registered databases

Under `geo` the store has one document for each registered database, with the path and the type the
database is registered with (`Records`). A database that is added, opened again or removed changes
the maps and the store together, as long as the hash of an added one is computed and one that is
opened again is at the path it was at (`agrees_call`).
-/

namespace DistroDefender.Geo

open Base Lib Os Store Manager

/-! ## Listings and documents -/

/-- The path and the type of each registered database. -/
def World.listing {τ : Type} (w : World τ) (name : String) : Option (String × DbType) :=
  (w.dbs.lookup name).map fun entry => (entry.path, entry.type)

/-- Under `geo` there is a document for each database of the listing, and nothing else. -/
structure Records (docs : Name → Option Doc) (listing : String → Option (String × DbType)) :
    Prop where
  stored : ∀ name path type, listing name = some (path, type) → filename path = name ∧ name ≠ "" ∧
    ∃ n doc, n.parts = [INTERNAL_NAME, name] ∧ docs n = some doc ∧
      doc.getString ["path"] = some path ∧ doc.getString ["type"] = some (typeName type)
  only : ∀ n : Name, n.first = INTERNAL_NAME → docs n ≠ none →
    ∃ name, n.parts = [INTERNAL_NAME, name] ∧ listing name ≠ none

namespace Records

variable {docs docs' : Name → Option Doc} {listing : String → Option (String × DbType)} {n : Name}

/-- Documents outside `geo` do not matter. -/
theorem congr (h : Records docs listing)
    (heq : ∀ n : Name, n.first = INTERNAL_NAME → docs' n = docs n) : Records docs' listing where
  stored name path type hname := by
    obtain ⟨hfile, hne, n, doc, hn, hdoc, hrest⟩ := h.stored name path type hname
    refine ⟨hfile, hne, n, doc, hn, ?_, hrest⟩
    rw [heq n (by simp [Name.first, hn]), hdoc]
  only n hn hdoc := h.only n hn (by rw [← heq n hn]; exact hdoc)

/-- A database of the listing, and its document. -/
theorem put (h : Records docs listing) {path : String} {type : DbType} {doc : Doc}
    (hn : n.parts = [INTERNAL_NAME, filename path]) (hne : filename path ≠ "")
    (hpath : doc.getString ["path"] = some path)
    (htype : doc.getString ["type"] = some (typeName type)) :
    Records (Function.update docs n (some doc))
      (Function.update listing (filename path) (some (path, type))) where
  stored name path' type' hname := by
    rw [Function.update_apply] at hname
    split at hname
    · rename_i heq
      cases hname
      exact ⟨heq.symm, heq ▸ hne, n, doc, heq ▸ hn, Function.update_self .., hpath, htype⟩
    · rename_i hother
      obtain ⟨hfile, hne', n', doc', hn', hdoc', hrest⟩ := h.stored name path' type' hname
      refine ⟨hfile, hne', n', doc', hn', ?_, hrest⟩
      rw [Function.update_of_ne, hdoc']
      rintro rfl
      rw [hn] at hn'
      simp only [List.cons.injEq, true_and, and_true] at hn'
      exact hother hn'.symm
  only n' hn' hdoc := by
    by_cases heq : n' = n
    · subst heq
      exact ⟨filename path, hn, by simp⟩
    · rw [Function.update_of_ne heq] at hdoc
      obtain ⟨name, hparts, hname⟩ := h.only n' hn' hdoc
      refine ⟨name, hparts, ?_⟩
      rw [Function.update_apply]
      split
      · exact Option.some_ne_none _
      · exact hname

/-- A database that leaves the listing, and its document. -/
theorem del (h : Records docs listing) {name : String} (hn : n.parts = [INTERNAL_NAME, name]) :
    Records (Function.update docs n none) (Function.update listing name none) where
  stored name' path type hname := by
    rw [Function.update_apply] at hname
    split at hname
    · cases hname
    · rename_i hother
      obtain ⟨hfile, hne, n', doc, hn', hdoc, hrest⟩ := h.stored name' path type hname
      refine ⟨hfile, hne, n', doc, hn', ?_, hrest⟩
      rw [Function.update_of_ne, hdoc]
      rintro rfl
      rw [hn] at hn'
      simp only [List.cons.injEq, true_and, and_true] at hn'
      exact hother hn'.symm
  only n' hn' hdoc := by
    by_cases heq : n' = n
    · subst heq
      rw [Function.update_self] at hdoc
      exact absurd rfl hdoc
    · rw [Function.update_of_ne heq] at hdoc
      obtain ⟨name', hparts, hname⟩ := h.only n' hn' hdoc
      refine ⟨name', hparts, ?_⟩
      rw [Function.update_of_ne]
      · exact hname
      · rintro rfl
        exact heq (Name.ext (hparts.trans hn.symm))

end Records

theorem entryDoc_path (path hash : String) (type : DbType) :
    (entryDoc path hash type).getString ["path"] = some (cstr path) := by
  simp [entryDoc, Json.getString, Json.set, Json.get, Json.setMember, Json.tokenIndex]

theorem entryDoc_type (path hash : String) (type : DbType) :
    (entryDoc path hash type).getString ["type"] = some (typeName type) := by
  have htype : cstr (typeName type) = typeName type := by
    cases type <;> decide +kernel
  simp [entryDoc, Json.getString, Json.set, Json.get, Json.setMember, Json.tokenIndex,
    List.lookup_cons, htype]

/-! ## The listing after a change -/

section Listing

variable {τ : Type} (w : World τ)

theorem listing_register (path : String) (type : DbType) (content : String) :
    (register w path type content).listing =
      Function.update w.listing (filename path) (some (path, type)) := by
  funext name
  unfold World.listing register
  rw [Map.lookup_insert_eq, Function.update_apply]
  split <;> rfl

theorem listing_unregister (name : String) :
    (unregister w name).listing = Function.update w.listing name none := by
  funext name'
  unfold World.listing unregister
  rw [Map.lookup_erase_eq, Function.update_apply]
  split <;> rfl

/-- A database that is opened again stays listed as it was. -/
theorem listing_reopen {name content : String} {entry : DbEntry}
    (h : w.dbs.lookup name = some entry) : (reopen w name entry content).listing = w.listing := by
  funext name'
  unfold World.listing reopen
  rw [Map.lookup_insert_eq]
  split
  · rename_i heq
    rw [heq, h]
    rfl
  · rfl

end Listing

/-! ## Managers over an audited store -/

section Agrees

variable {τ : Type}

/-- What a manager over the store is built with; the success of the calls of the store is
recorded. -/
def auditedDeps (S : InternalStore τ) (mmdb : Maxminddb) (toStrPretty : Json → String) :
    Deps (τ × Bool) :=
  ⟨S.toIStoreInternal.audited, mmdb, toStrPretty⟩

/-- A path without a file name is no file. -/
def Regular (files : Path → Option String) : Prop := ∀ path, filename path = "" → files path = none

/-- The maps are inverse to each other, and as long as every call of the store has succeeded the
store has a document for each database. -/
structure Agrees (S : InternalStore τ) (w : World (τ × Bool)) : Prop where
  inverse : Inverse w
  regular : Regular w.files
  records : w.store.2 = true → Records (S.docs w.store.1) w.listing

variable {S : InternalStore τ} {mmdb : Maxminddb} {toStrPretty : Json → String} {o : Outcomes}
  {w : World (τ × Bool)} {path content : String}

theorem Regular.filename_ne {files : Path → Option String} (h : Regular files)
    (hfile : files path = some content) : filename path ≠ "" := by
  intro hname
  cases (h path hname).symm.trans hfile

theorem Regular.wrote (h : Regular w.files) (o : Outcomes) (hname : filename path ≠ "") :
    Regular (wrote o w path content).files := by
  intro path' hname'
  have hne : path' ≠ path := by
    rintro rfl
    exact hname hname'
  exact (Function.update_of_ne hne _ _).trans (h path' hname')

theorem resultState_onStore {α : Type} (x : Call τ α) (w : World τ) :
    resultState ((onStore x).run w) = { w with store := resultState (x.run w.store) } := by
  unfold onStore
  rw [run_onPart]
  cases x.run w.store <;> rfl

/-- The store entry of a registered database: nothing when its hash is not computed, else a call of
the store. -/
theorem upsertStoreEntry_cases (deps : Deps τ) {k : Nat} {w : World τ} {entry : DbEntry}
    (hread : o.openRead = true) (hname : filename path ≠ "") (hfile : w.files path = some content)
    (hentry : w.dbs.lookup (filename path) = some entry) :
    ((∃ e, o.computeMD5 k content = .error e) ∧
      resultState ((upsertStoreEntry deps o k path).run w) = w) ∨
    ∃ hash n, o.computeMD5 k content = .ok hash ∧ n.parts = [INTERNAL_NAME, filename path] ∧
      resultState ((upsertStoreEntry deps o k path).run w) = { w with
        store := resultState
          ((deps.store.upsertInternalDoc n (entryDoc path hash entry.type)).run w.store) } := by
  obtain ⟨n, hn⟩ : ∃ n, Name.ofParts [INTERNAL_NAME, filename path] = .ok n :=
    ⟨_, Name.ofParts_ok (by simp) (by simp [MAX_PARTS]) (by simp [INTERNAL_NAME, hname])⟩
  unfold upsertStoreEntry
  rw [EStateM.run_bind, EStateM.run_get]
  simp only [hread, hfile, if_true]
  cases hmd5 : o.computeMD5 k content with
  | error e => exact .inl ⟨⟨e, rfl⟩, rfl⟩
  | ok hash =>
    refine .inr ⟨hash, n, rfl, Name.ofParts_eq_ok.mp hn, ?_⟩
    simp only [hn, hentry]
    rw [EStateM.run_bind, run_orThrow_ok]
    exact resultState_onStore _ w

/-- A database that leaves the maps, and the call of the store for its document. -/
theorem removeDbUnsafe_result (deps : Deps τ) {w : World τ} {entry : DbEntry}
    (h : w.dbs.lookup (filename path) = some entry) :
    ∃ n, (filename path ≠ "" → n.parts = [INTERNAL_NAME, filename path]) ∧
      resultState ((removeDbUnsafe deps path).run w) = { unregister w (filename path) with
        store := resultState ((deps.store.deleteInternalDoc n).run w.store) } := by
  obtain ⟨n, hn⟩ := internalName_ok path
  refine ⟨n, fun hname => ?_, ?_⟩
  · have hparts := Name.ofString_eq_ok.mp hn
    rw [split_internalName (not_mem_filename path), if_neg hname] at hparts
    exact hparts
  · unfold removeDbUnsafe removeInternalEntry
    rw [EStateM.run_bind, EStateM.run_get]
    simp only [h, hn]
    exact resultState_onStore _ (unregister w (filename path))

/-- The records after the store entry of a listed database was written. -/
theorem records_upsert {listing : String → Option (String × DbType)} {t : τ × Bool} {n : Name}
    {hash : String} {type : DbType} (h : t.2 = true → Records (S.docs t.1) listing)
    (hn : n.parts = [INTERNAL_NAME, filename path]) (hne : filename path ≠ "")
    (hnul : cstr path = path)
    (hok : (resultState (((auditedDeps S mmdb toStrPretty).store.upsertInternalDoc n
      (entryDoc path hash type)).run t)).2 = true) :
    Records (S.docs (resultState (((auditedDeps S mmdb toStrPretty).store.upsertInternalDoc n
      (entryDoc path hash type)).run t)).1)
      (Function.update listing (filename path) (some (path, type))) := by
  obtain ⟨ht, hdocs⟩ := audit_succeeded (S.upsert_applies t.1 n (entryDoc path hash type)) hok
  have hput := (h ht).put hn hne ((entryDoc_path path hash type).trans (by rw [hnul]))
    (entryDoc_type path hash type)
  rw [← hdocs] at hput
  exact hput

/-- The records after the document of a database was deleted. -/
theorem records_delete {listing : String → Option (String × DbType)} {t : τ × Bool} {n : Name}
    {name : String} (h : t.2 = true → Records (S.docs t.1) listing)
    (hn : n.parts = [INTERNAL_NAME, name])
    (hok : (resultState (((auditedDeps S mmdb toStrPretty).store.deleteInternalDoc n).run t)).2 =
      true) :
    Records (S.docs
      (resultState (((auditedDeps S mmdb toStrPretty).store.deleteInternalDoc n).run t)).1)
      (Function.update listing name none) := by
  obtain ⟨ht, hdocs⟩ := audit_succeeded (S.delete_applies t.1 n) hok
  have hdel := (h ht).del hn
  rw [← hdocs] at hdel
  exact hdel

/-! ## What the calls come down to -/

theorem MMDB_open_ok {deps : Deps τ} {k : Nat} {w : World τ}
    (h : MMDB_open deps o k path w = .ok content) :
    w.files path = some content ∧ deps.mmdb.status content = MMDB_SUCCESS := by
  unfold MMDB_open at h
  split at h
  · cases h
  · split at h
    · cases h
    · rename_i c hfile
      split at h
      · rename_i hstatus
        cases h
        exact ⟨hfile, hstatus⟩
      · cases h

theorem addDb_result (deps : Deps τ) (o : Outcomes) (path : String) (type : DbType) (w : World τ) :
    resultState ((addDb deps o path type).run w) = w ∨
    ∃ content, w.dbTypes.lookup type = none ∧ w.dbs.lookup (filename path) = none ∧
      MMDB_open deps o 0 path w = .ok content ∧
      resultState ((addDb deps o path type).run w) =
        resultState ((upsertStoreEntry deps o 0 path).run (register w path type content)) := by
  unfold addDb addDbUnsafe
  rw [EStateM.run_bind, EStateM.run_get]
  simp only
  cases htype : w.dbTypes.lookup type with
  | some db => exact .inl rfl
  | none =>
    simp only
    cases hname : w.dbs.lookup (filename path) with
    | some entry => exact .inl rfl
    | none =>
      simp only [Option.isSome_none, Bool.false_eq_true, if_false]
      cases hopen : MMDB_open deps o 0 path w with
      | error status => exact .inl rfl
      | ok content =>
        refine .inr ⟨content, trivial, trivial, rfl, ?_⟩
        exact resultState_then_pure (upsertStoreEntry deps o 0 path) none
          (register w path type content)

theorem removeDb_result (deps : Deps τ) (path : String) (w : World τ) :
    (w.dbs.lookup (filename path) = none ∧ resultState ((removeDb deps path).run w) = w) ∨
    ∃ entry, w.dbs.lookup (filename path) = some entry := by
  cases hname : w.dbs.lookup (filename path) with
  | some entry => exact .inr ⟨entry, rfl⟩
  | none =>
    refine .inl ⟨rfl, ?_⟩
    unfold removeDb removeDbUnsafe
    rw [EStateM.run_bind, EStateM.run_get]
    simp only [hname]
    rfl

/-- Where the content cannot be opened, the database is removed. -/
theorem openDb_removes (deps : Deps τ) {w : World τ} {entry : DbEntry} (type : DbType)
    (hwrite : Writable o path) (hentry : w.dbs.lookup (filename path) = some entry)
    (hopen : ¬ Opens deps o content) :
    resultState ((openDb deps o path type content).run w) =
      resultState ((removeDbUnsafe deps path).run (wrote o w path content)) := by
  unfold openDb
  rw [EStateM.run_bind, EStateM.run_get]
  simp only [hentry]
  unfold refreshDb
  rcases run_writeDb (o := o) w path content with ⟨-, hrun⟩ | ⟨hnot, -⟩
  swap
  · exact absurd hwrite hnot
  rw [EStateM.run_bind, hrun]
  simp only
  rw [EStateM.run_bind, EStateM.run_get]
  simp only
  rcases MMDB_open_wrote deps o w path content with ⟨hyes, -⟩ | ⟨-, status, herror⟩
  · exact absurd hyes hopen
  rw [herror]
  exact resultState_then_pure (removeDbUnsafe deps path) _ (wrote o w path content)

/-- What is left after a content was installed. -/
inductive Installed (deps : Deps τ) (o : Outcomes) (w : World τ) (path : String) (type : DbType)
    (content : String) : World τ → Prop
  | unwritten : Installed deps o w path type content w
  | refreshed {entry : DbEntry} (hwrite : Writable o path)
      (hentry : w.dbs.lookup (filename path) = some entry) (hopen : Opens deps o content) :
      Installed deps o w path type content
        (resultState ((upsertStoreEntry deps o MAX_RETRIES path).run
        (reopen (wrote o w path content) (filename path) entry (o.stored content))))
  | removed {entry : DbEntry} (hwrite : Writable o path)
      (hentry : w.dbs.lookup (filename path) = some entry) :
      Installed deps o w path type content
        (resultState ((removeDbUnsafe deps path).run (wrote o w path content)))
  | added (hwrite : Writable o path) (hname : w.dbs.lookup (filename path) = none)
      (htype : w.dbTypes.lookup type = none) (hopen : Opens deps o content) :
      Installed deps o w path type content
        (resultState ((upsertStoreEntry deps o MAX_RETRIES path).run
        (register (wrote o w path content) path type (o.stored content))))
  | refused (hwrite : Writable o path) :
      Installed deps o w path type content (wrote o w path content)

theorem install_result (deps : Deps τ) (o : Outcomes) (w : World τ) (path : String) (type : DbType)
    (content : String) :
    Installed deps o w path type content
      (resultState ((install deps o path type content).run w)) := by
  have hrun : resultState ((install deps o path type content).run w) =
      match (openDb deps o path type content).run w with
      | .ok (some _) w₁ => w₁
      | .ok none w₁ => resultState ((upsertStoreEntry deps o MAX_RETRIES path).run w₁)
      | .error _ w₁ => w₁ := by
    unfold install
    rw [EStateM.run_bind]
    rcases (openDb deps o path type content).run w with ⟨_ | e, w₁⟩ | ⟨e, w₁⟩
    · exact resultState_then_pure (upsertStoreEntry deps o MAX_RETRIES path) none w₁
    · rfl
    · rfl
  have hopened := openDb_opened deps o w path type content
  have hremoves : ∀ entry, Writable o path → w.dbs.lookup (filename path) = some entry →
      ¬ Opens deps o content → resultState ((openDb deps o path type content).run w) =
        resultState ((removeDbUnsafe deps path).run (wrote o w path content)) :=
    fun entry => openDb_removes deps type
  rw [hrun]
  generalize (openDb deps o path type content).run w = r at hopened hremoves
  cases hopened with
  | unwritable e h => exact .unwritten
  | refreshed hwrite hentry hopen => exact .refreshed hwrite hentry hopen
  | dropped e t hwrite hentry hopen _ =>
    have hremoved : Installed deps o w path type content _ := .removed hwrite hentry
    rw [← hremoves _ hwrite hentry hopen] at hremoved
    exact hremoved
  | threw e w' hwrite hentry hopen _ =>
    have hremoved : Installed deps o w path type content _ := .removed hwrite hentry
    rw [← hremoves _ hwrite hentry hopen] at hremoved
    exact hremoved
  | added hwrite hname htype hopen => exact .added hwrite hname htype hopen
  | refused e hwrite _ _ => exact .refused hwrite

/-- `remoteUpsertDb` comes to install the content. -/
def Downloads (deps : Deps τ) (o : Outcomes) (w : World τ) (path : String) (type : DbType)
    (dbUrl hashUrl content : String) : Prop :=
  typeConflict w (filename path) type = none ∧ ∃ hash, o.downloadMD5 hashUrl = .ok hash ∧
    alreadyStored deps w (filename path) hash = .ok false ∧
    attempts o dbUrl hash MAX_RETRIES 0 "" none = .ok (content, none)

theorem remoteUpsertDb_result (deps : Deps τ) (o : Outcomes) (w : World τ) (path : String)
    (type : DbType) (dbUrl hashUrl : String) :
    resultState ((remoteUpsertDb deps o path type dbUrl hashUrl).run w) = w ∨
    ∃ content, Downloads deps o w path type dbUrl hashUrl content ∧
      resultState ((remoteUpsertDb deps o path type dbUrl hashUrl).run w) =
        resultState ((install deps o path type content).run w) := by
  rw [run_remoteUpsertDb]
  unfold Downloads
  cases htype : typeConflict w (filename path) type with
  | some e => exact .inl rfl
  | none =>
    cases hhash : o.downloadMD5 hashUrl with
    | error e => exact .inl rfl
    | ok hash =>
      simp only
      cases hstored : alreadyStored deps w (filename path) hash with
      | error e => exact .inl rfl
      | ok b =>
        cases b with
        | true => exact .inl rfl
        | false =>
          simp only
          cases hattempts : attempts o dbUrl hash MAX_RETRIES 0 "" none with
          | error e => exact .inl rfl
          | ok found =>
            obtain ⟨content, _ | e⟩ := found
            · exact .inr ⟨content, ⟨trivial, hash, rfl, hstored, hattempts⟩, rfl⟩
            · exact .inl rfl

/-! ## What the calls keep -/

/-- The calls of the file system go well. -/
structure FilesSucceed (o : Outcomes) : Prop where
  createDirectories : o.createDirectories = none
  openWrite : o.openWrite = true
  shortWrite : o.shortWrite = none
  openRead : o.openRead = true
  mmdbOpen : ∀ k, o.mmdbOpen k = none

/-- The entry of a database that is added can be stored: a C string holds its path, and its hash is
computed. -/
def Storable (o : Outcomes) (k : Nat) (path content : String) : Prop :=
  cstr path = path ∧ ∃ hash, o.computeMD5 k content = .ok hash

/-- The condition on a call: the entry of a database it adds can be stored, and a database it opens
again and stores is at the path it was at. -/
def Recordable (deps : Deps τ) (o : Outcomes) (w : World τ) : Op → Prop
  | .addDb path type => ∀ content, w.dbTypes.lookup type = none →
      w.dbs.lookup (filename path) = none → MMDB_open deps o 0 path w = .ok content →
      Storable o 0 path content
  | .removeDb _ => True
  | .remoteUpsertDb path type dbUrl hashUrl => ∀ content,
      Downloads deps o w path type dbUrl hashUrl content → Opens deps o content →
      (w.dbs.lookup (filename path) = none → Storable o MAX_RETRIES path (o.stored content)) ∧
      ∀ entry hash, w.dbs.lookup (filename path) = some entry →
        o.computeMD5 MAX_RETRIES (o.stored content) = .ok hash → entry.path = path

theorem Agrees.wrote (h : Agrees S w) (hwrite : Writable o path) :
    Agrees S (wrote o w path content) where
  inverse := inverse_change (.outside rfl rfl rfl) h.inverse
  regular := h.regular.wrote o hwrite.2.2
  records := h.records

variable (mmdb toStrPretty) in
/-- A database that is added, and its entry. -/
theorem Agrees.register (h : Agrees S w) {k : Nat} {type : DbType} (hread : o.openRead = true)
    (htype : w.dbTypes.lookup type = none) (hname : w.dbs.lookup (filename path) = none)
    (hfile : w.files path = some content) (hstorable : Storable o k path content) :
    Agrees S (resultState ((upsertStoreEntry (auditedDeps S mmdb toStrPretty) o k path).run
      (register w path type content))) := by
  have hne := h.regular.filename_ne hfile
  obtain ⟨hnul, hash, hhash⟩ := hstorable
  have hfile' : (Manager.register w path type content).files path = some content := hfile
  rcases upsertStoreEntry_cases (auditedDeps S mmdb toStrPretty) (k := k) hread hne hfile'
    (lookup_register w path type content) with ⟨⟨e, he⟩, -⟩ | ⟨hash', n, -, hn, hres⟩
  · cases hhash.symm.trans he
  rw [hres]
  refine ⟨inverse_change (.outside rfl rfl rfl) (inverse_register h.inverse htype hname), h.regular,
    fun hok => ?_⟩
  show Records _ (Manager.register w path type content).listing
  rw [listing_register]
  exact records_upsert h.records hn hne hnul hok

variable (mmdb toStrPretty) in
/-- A database that is opened again, and its entry. -/
theorem Agrees.reopen (h : Agrees S w) {k : Nat} {entry : DbEntry} (hread : o.openRead = true)
    (hentry : w.dbs.lookup (filename path) = some entry) (hfile : w.files path = some content)
    (hpath : ∀ hash, o.computeMD5 k content = .ok hash → entry.path = path) :
    Agrees S (resultState ((upsertStoreEntry (auditedDeps S mmdb toStrPretty) o k path).run
      (reopen w (filename path) entry content))) := by
  have hne := h.regular.filename_ne hfile
  have hinv : Inverse (Manager.reopen w (filename path) entry content) :=
    inverse_reopen h.inverse hentry
  have hfile' : (Manager.reopen w (filename path) entry content).files path = some content := hfile
  rcases upsertStoreEntry_cases (auditedDeps S mmdb toStrPretty) (k := k) hread hne hfile'
    (lookup_reopen w (filename path) entry content) with ⟨-, hres⟩ | ⟨hash, n, hhash, hn, hres⟩
  · rw [hres]
    refine ⟨hinv, h.regular, fun hok => ?_⟩
    rw [listing_reopen w hentry]
    exact h.records hok
  · rw [hres]
    refine ⟨inverse_change (.outside rfl rfl rfl) hinv, h.regular, fun hok => ?_⟩
    -- the document is written with the path it had
    have hlisted : w.listing (filename path) = some (path, entry.type) := by
      simp only [World.listing, hentry, Option.map_some, hpath hash hhash]
    have hnul : cstr path = path := by
      obtain ⟨ht, -⟩ := audit_succeeded (S.upsert_applies _ n _) hok
      obtain ⟨-, -, n', doc, -, -, hget, -⟩ := (h.records ht).stored _ _ _ hlisted
      exact Json.cstr_of_getString hget
    have hrec := records_upsert h.records hn hne hnul hok
    rw [← hlisted, Function.update_eq_self] at hrec
    show Records _ (Manager.reopen w (filename path) entry content).listing
    rw [listing_reopen w hentry]
    exact hrec

variable (mmdb toStrPretty) in
/-- A database that is removed, and its entry. -/
theorem Agrees.remove (h : Agrees S w) {entry : DbEntry}
    (hentry : w.dbs.lookup (filename path) = some entry) :
    Agrees S (resultState ((removeDbUnsafe (auditedDeps S mmdb toStrPretty) path).run w)) := by
  obtain ⟨n, hn, hres⟩ := removeDbUnsafe_result (auditedDeps S mmdb toStrPretty) hentry
  rw [hres]
  refine ⟨inverse_change (.outside rfl rfl rfl) (inverse_unregister h.inverse hentry), h.regular,
    fun hok => ?_⟩
  have hlisted : w.listing (filename path) = some (entry.path, entry.type) := by
    simp only [World.listing, hentry, Option.map_some]
  have hne : filename path ≠ "" := by
    obtain ⟨ht, -⟩ := audit_succeeded (S.delete_applies _ n) hok
    exact ((h.records ht).stored _ _ _ hlisted).2.1
  show Records _ (unregister w (filename path)).listing
  rw [listing_unregister]
  exact records_delete h.records (hn hne) hok

/-- A call that meets the condition keeps the maps and the documents together. -/
theorem agrees_call (h : Agrees S w) (ho : FilesSucceed o) {op : Op}
    (hop : Recordable (auditedDeps S mmdb toStrPretty) o w op) :
    Agrees S (resultState ((exec (auditedDeps S mmdb toStrPretty) o op).run w)) := by
  cases op with
  | addDb path type =>
    simp only [exec]
    rcases addDb_result (auditedDeps S mmdb toStrPretty) o path type w with hres |
      ⟨content, htype, hname, hopen, hres⟩
    · rw [hres]
      exact h
    · rw [hres]
      exact h.register mmdb toStrPretty ho.openRead htype hname (MMDB_open_ok hopen).1
        (hop content htype hname hopen)
  | removeDb path =>
    simp only [exec]
    rcases removeDb_result (auditedDeps S mmdb toStrPretty) path w with ⟨-, hres⟩ | ⟨entry, hentry⟩
    · rw [hres]
      exact h
    · exact h.remove mmdb toStrPretty hentry
  | remoteUpsertDb path type dbUrl hashUrl =>
    simp only [exec]
    rcases remoteUpsertDb_result (auditedDeps S mmdb toStrPretty) o w path type dbUrl hashUrl with
      hres | ⟨content, hdownloads, hres⟩
    · rw [hres]
      exact h
    rw [hres]
    have hinstalled := install_result (auditedDeps S mmdb toStrPretty) o w path type content
    generalize resultState ((install (auditedDeps S mmdb toStrPretty) o path type content).run w) =
      w' at hinstalled
    cases hinstalled with
    | unwritten => exact h
    | refreshed hwrite hentry hopen =>
      exact (h.wrote hwrite).reopen mmdb toStrPretty ho.openRead hentry (Function.update_self ..)
        fun hash hhash => (hop content hdownloads hopen).2 _ hash hentry hhash
    | removed hwrite hentry => exact (h.wrote hwrite).remove mmdb toStrPretty hentry
    | added hwrite hname htype hopen =>
      exact (h.wrote hwrite).register mmdb toStrPretty ho.openRead htype hname
        (Function.update_self ..) ((hop content hdownloads hopen).1 hname)
    | refused hwrite => exact h.wrote hwrite

end Agrees

end DistroDefender.Geo
