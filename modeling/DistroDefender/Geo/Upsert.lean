import DistroDefender.Geo.Manager

/-!
# What the remote upsert does

`remoteUpsertDb` checks, downloads and installs (`run_remoteUpsertDb`). The lemmas below say for
each part what it does: the check of the stored hash (`alreadyStored_cases`), the loop over the
attempts (`attempts_ends`), the database opened (`openDb_opened`), and the store entry
(`run_upsertStoreEntry`).
-/

namespace DistroDefender.Geo

open Base Lib Os Store Manager

variable {τ : Type} {deps : Deps τ} {o : Outcomes} {w : World τ}

/-! ## Names of internal documents -/

theorem not_mem_filename (path : String) : '/' ∉ (filename path).toList := by
  unfold filename
  rw [String.toList_ofList, List.mem_reverse]
  intro h
  simpa using List.mem_takeWhile_imp h

theorem split_internalName {name : String} (h : SEPARATOR_C ∉ name.toList) :
    split s!"{INTERNAL_NAME}{SEPARATOR_S}{name}" SEPARATOR_C =
      INTERNAL_NAME :: if name = "" then [] else [name] := by
  have htext : s!"{INTERNAL_NAME}{SEPARATOR_S}{name}".toList = 'g' :: 'e' :: 'o' :: '/' ::
      name.toList := by
    simp [INTERNAL_NAME, SEPARATOR_S, toString]
  have hloop : splitLoop SEPARATOR_C [] name.toList = if name = "" then [] else [name] := by
    have happ := splitLoop_append [] h []
    rw [List.append_nil, List.nil_append] at happ
    rw [happ]
    simp [splitLoop]
  unfold split
  rw [htext]
  simp [splitLoop, SEPARATOR_C, INTERNAL_NAME] at hloop ⊢
  exact hloop

/-- A file name always makes an internal name. -/
theorem internalName_ok (path : String) : ∃ n, internalName (filename path) = .ok n := by
  unfold internalName Name.ofString
  rw [split_internalName (not_mem_filename path)]
  refine ⟨_, Name.ofParts_ok (by simp) ?_ ?_⟩
  · split <;> simp [MAX_PARTS]
  · intro p hp
    split at hp
    · rw [List.mem_singleton.mp hp]
      decide
    · rename_i hne
      simp only [List.mem_cons, List.not_mem_nil, or_false] at hp
      rcases hp with rfl | rfl
      · decide
      · exact hne

/-! ## The stored hash -/

/-- The database is registered and its internal document has the string `hash` at `/hash`; `none` is
that it has no string there. -/
def StoredHash (deps : Deps τ) (w : World τ) (name : String) (hash : Option String) : Prop :=
  w.dbs.lookup name ≠ none ∧ ∃ n doc, internalName name = .ok n ∧
    deps.store.readInternalDoc n w.store = .ok doc ∧ doc.getString ["hash"] = hash

theorem alreadyStored_cases (deps : Deps τ) (w : World τ) (path hash : String) :
    (StoredHash deps w (filename path) (some hash) ∧
      alreadyStored deps w (filename path) hash = .ok true) ∨
    (StoredHash deps w (filename path) none ∧
      alreadyStored deps w (filename path) hash = .error .badOptionalAccess) ∨
    (¬ StoredHash deps w (filename path) (some hash) ∧ ¬ StoredHash deps w (filename path) none ∧
      alreadyStored deps w (filename path) hash = .ok false) := by
  obtain ⟨n, hn⟩ := internalName_ok path
  unfold alreadyStored
  cases hdbs : w.dbs.lookup (filename path) with
  | none => exact .inr (.inr ⟨fun h => h.1 hdbs, fun h => h.1 hdbs, rfl⟩)
  | some entry =>
    have hreg : w.dbs.lookup (filename path) ≠ none := by rw [hdbs]; exact Option.some_ne_none _
    have hcheck : ∀ h, StoredHash deps w (filename path) h ↔
        ∃ doc, deps.store.readInternalDoc n w.store = .ok doc ∧ doc.getString ["hash"] = h := by
      intro h
      constructor
      · rintro ⟨-, n', doc, hn', hdoc, hh⟩
        cases hn.symm.trans hn'
        exact ⟨doc, hdoc, hh⟩
      · rintro ⟨doc, hdoc, hh⟩
        exact ⟨hreg, n, doc, hn, hdoc, hh⟩
    rw [hcheck, hcheck]
    simp only [hn, bind, Except.bind]
    cases hdoc : deps.store.readInternalDoc n w.store with
    | error e => simp [pure, Except.pure]
    | ok doc =>
      cases hstored : doc.getString ["hash"] with
      | none => simp [hstored]
      | some storedHash =>
        by_cases hsame : storedHash = hash
        · simp [hstored, hsame, pure, Except.pure]
        · simp [hstored, hsame, pure, Except.pure]

/-! ## The attempts -/

/-- How an attempt goes. -/
inductive Attempt where
  | failed
  | unhashed
  | mismatched (content : String)
  | verified (content : String)

/-- The `i`-th attempt. -/
def attempt (o : Outcomes) (dbUrl hash : String) (i : Nat) : Attempt :=
  match o.downloadHTTPS i dbUrl with
  | .error _ => .failed
  | .ok content =>
    match o.computeMD5 i content with
    | .error _ => .unhashed
    | .ok computedHash => if computedHash = hash then .verified content else .mismatched content

theorem attempt_eq_verified {dbUrl hash content : String} {i : Nat} :
    attempt o dbUrl hash i = .verified content ↔
      o.downloadHTTPS i dbUrl = .ok content ∧ o.computeMD5 i content = .ok hash := by
  constructor
  · intro h
    unfold attempt at h
    split at h
    · cases h
    · rename_i c hdownload
      split at h
      · cases h
      · rename_i computedHash hmd5
        split at h
        · rename_i hsame
          cases h
          exact ⟨hdownload, hsame ▸ hmd5⟩
        · cases h
  · rintro ⟨hdownload, hmd5⟩
    simp [attempt, hdownload, hmd5]

/-- One turn of the loop. -/
theorem attempts_succ (o : Outcomes) (dbUrl hash : String) (n i : Nat) (content : String)
    (error : OptError) :
    match attempt o dbUrl hash i with
    | .failed => ∃ e, attempts o dbUrl hash (n + 1) i content error =
        attempts o dbUrl hash n (i + 1) content (some e)
    | .unhashed => attempts o dbUrl hash (n + 1) i content error = .error .badVariantAccess
    | .mismatched c => o.downloadHTTPS i dbUrl = .ok c ∧
        attempts o dbUrl hash (n + 1) i content error = attempts o dbUrl hash n (i + 1) c error
    | .verified c => attempts o dbUrl hash (n + 1) i content error = .ok (c, none) := by
  unfold attempt
  rw [attempts]
  cases o.downloadHTTPS i dbUrl with
  | error e => exact ⟨_, rfl⟩
  | ok c =>
    simp only
    cases o.computeMD5 i c with
    | error e => rfl
    | ok computedHash =>
      by_cases hsame : computedHash = hash
      · simp [hsame, bind, Except.bind, pure, Except.pure]
      · simp [hsame, bind, Except.bind]

/-- Attempts number `i` to `k - 1` neither verify a content nor break. -/
def Unsettled (o : Outcomes) (dbUrl hash : String) (i k : Nat) : Prop :=
  ∀ j, i ≤ j → j < k → attempt o dbUrl hash j ≠ .unhashed ∧
    ∀ c, attempt o dbUrl hash j ≠ .verified c

theorem Unsettled.cons {dbUrl hash : String} {i k : Nat}
    (hi : attempt o dbUrl hash i ≠ .unhashed ∧ ∀ c, attempt o dbUrl hash i ≠ .verified c)
    (h : Unsettled o dbUrl hash (i + 1) k) : Unsettled o dbUrl hash i k := by
  intro j hij hjk
  rcases Nat.eq_or_lt_of_le hij with rfl | hlt
  · exact hi
  · exact h j hlt hjk

/-- How `n` attempts from number `i` on end. -/
inductive Ends (o : Outcomes) (dbUrl hash : String) (n i : Nat) (content : String)
    (error : OptError) : Except Throw (String × OptError) → Prop
  | broken {k : Nat} (hik : i ≤ k) (hkn : k < i + n) (before : Unsettled o dbUrl hash i k)
      (h : attempt o dbUrl hash k = .unhashed) :
      Ends o dbUrl hash n i content error (.error .badVariantAccess)
  | verified {k : Nat} {c : String} (hik : i ≤ k) (hkn : k < i + n)
      (before : Unsettled o dbUrl hash i k) (h : attempt o dbUrl hash k = .verified c) :
      Ends o dbUrl hash n i content error (.ok (c, none))
  /-- All are over: the error is the one from before or that of a failed download, and with neither
  the content is the one of the last attempt. -/
  | finished {c : String} {e : OptError} (all : Unsettled o dbUrl hash i (i + n))
      (herror : e = none ↔ error = none ∧ ∀ j, i ≤ j → j < i + n → attempt o dbUrl hash j ≠ .failed)
      (hcontent : e = none → n = 0 ∧ c = content ∨ o.downloadHTTPS (i + n - 1) dbUrl = .ok c) :
      Ends o dbUrl hash n i content error (.ok (c, e))

/-- An attempt that settles nothing comes before the others. -/
theorem Ends.cons {dbUrl hash content content' : String} {n i : Nat} {error error' : OptError}
    {r : Except Throw (String × OptError)} (h : Ends o dbUrl hash n (i + 1) content' error' r)
    (hi : attempt o dbUrl hash i ≠ .unhashed ∧ ∀ c, attempt o dbUrl hash i ≠ .verified c)
    (herror : error' = none ↔ error = none ∧ attempt o dbUrl hash i ≠ .failed)
    (hcontent : error' = none → o.downloadHTTPS i dbUrl = .ok content') :
    Ends o dbUrl hash (n + 1) i content error r := by
  cases h with
  | broken hik hkn before h => exact .broken (by omega) (by omega) (before.cons hi) h
  | verified hik hkn before h => exact .verified (by omega) (by omega) (before.cons hi) h
  | finished all he hc =>
    have hbound : i + 1 + n = i + (n + 1) := by omega
    rw [hbound] at all he hc
    refine .finished (all.cons hi) ?_ fun hnone => .inr ?_
    · rw [he, herror]
      constructor
      · rintro ⟨⟨hnone, hfirst⟩, hrest⟩
        refine ⟨hnone, fun j hij hj => ?_⟩
        rcases Nat.eq_or_lt_of_le hij with rfl | hlt
        · exact hfirst
        · exact hrest j hlt hj
      · rintro ⟨hnone, hj⟩
        exact ⟨⟨hnone, hj i (Nat.le_refl i) (by omega)⟩, fun j hij hjn => hj j (by omega) hjn⟩
    · rcases hc hnone with ⟨rfl, rfl⟩ | hlast
      · exact hcontent (he.mp hnone).1
      · exact hlast

theorem attempts_ends (o : Outcomes) (dbUrl hash : String) (n i : Nat) (content : String)
    (error : OptError) :
    Ends o dbUrl hash n i content error (attempts o dbUrl hash n i content error) := by
  induction n generalizing i content error with
  | zero =>
    refine .finished (fun j hij hj => by omega) ?_ fun _ => .inl ⟨rfl, rfl⟩
    constructor
    · exact fun he => ⟨he, fun j hij hj => by omega⟩
    · exact fun he => he.1
  | succ n ih =>
    have hturn := attempts_succ o dbUrl hash n i content error
    cases hattempt : attempt o dbUrl hash i with
    | failed =>
      rw [hattempt] at hturn
      obtain ⟨e, hrun⟩ := hturn
      rw [hrun]
      exact (ih (i + 1) content (some e)).cons (by simp [hattempt]) (by simp [hattempt]) (by simp)
    | unhashed =>
      rw [hattempt] at hturn
      rw [hturn]
      exact .broken (Nat.le_refl i) (by omega) (fun j hij hj => by omega) hattempt
    | mismatched c =>
      rw [hattempt] at hturn
      rw [hturn.2]
      exact (ih (i + 1) c error).cons (by simp [hattempt]) (by simp [hattempt]) fun _ => hturn.1
    | verified c =>
      rw [hattempt] at hturn
      rw [hturn]
      exact .verified (Nat.le_refl i) (by omega) (fun j hij hj => by omega) hattempt

/-! ## The store -/

/-- The store throws when it deletes the internal document of a path. -/
def RemovalThrows (deps : Deps τ) (store : τ) (path : String) : Prop :=
  ∃ n e t, internalName (filename path) = .ok n ∧
    (deps.store.deleteInternalDoc n).run store = .error e t

/-- The store throws when it upserts the entry of a path whose file holds `content`. -/
def EntryThrows (deps : Deps τ) (o : Outcomes) (k : Nat) (store : τ) (path : String) (type : DbType)
    (content : String) : Prop :=
  o.openRead = true ∧ ∃ hash n e t, o.computeMD5 k content = .ok hash ∧
    Name.ofParts [INTERNAL_NAME, filename path] = .ok n ∧
    (deps.store.upsertInternalDoc n (entryDoc path hash type)).run store = .error e t

/-- A call of the store changes the store alone. -/
theorem run_onStore {α : Type} (x : Call τ α) (w : World τ) :
    (∃ r t, x.run w.store = .ok r t ∧ (onStore x).run w = .ok r { w with store := t }) ∨
    ∃ e t, x.run w.store = .error e t ∧ (onStore x).run w = .error e { w with store := t } := by
  unfold onStore
  rw [run_onPart]
  cases x.run w.store with
  | ok r t => exact .inl ⟨r, t, rfl, rfl⟩
  | error e t => exact .inr ⟨e, t, rfl, rfl⟩

/-- A removed database leaves the maps, and its internal document is deleted. -/
theorem run_removeDbUnsafe (deps : Deps τ) {w : World τ} {path : String} {entry : DbEntry}
    (h : w.dbs.lookup (filename path) = some entry) :
    (¬ RemovalThrows deps w.store path ∧ ∃ r t, (removeDbUnsafe deps path).run w =
      .ok r { unregister w (filename path) with store := t }) ∨
    (RemovalThrows deps w.store path ∧ ∃ e t, (removeDbUnsafe deps path).run w =
      .error e { unregister w (filename path) with store := t }) := by
  obtain ⟨n, hn⟩ := internalName_ok path
  have hrun : (removeDbUnsafe deps path).run w =
      (onStore (deps.store.deleteInternalDoc n)).run (unregister w (filename path)) := by
    unfold removeDbUnsafe removeInternalEntry
    rw [EStateM.run_bind, EStateM.run_get]
    simp only [h, hn]
    rfl
  rw [hrun]
  rcases run_onStore (deps.store.deleteInternalDoc n) (unregister w (filename path)) with
    ⟨r, t, hok, hres⟩ | ⟨e, t, herror, hres⟩
  · refine .inl ⟨?_, r, t, hres⟩
    rintro ⟨n', e, t', hn', herror⟩
    cases hn.symm.trans hn'
    cases hok.symm.trans herror
  · exact .inr ⟨⟨n, e, t, hn, herror⟩, e, t, hres⟩

/-- The store entry of a registered database changes the store alone. -/
theorem run_upsertStoreEntry (deps : Deps τ) (o : Outcomes) (k : Nat) {w : World τ}
    {path content : String} {entry : DbEntry} (hname : filename path ≠ "")
    (h : w.dbs.lookup (filename path) = some entry) (hfile : w.files path = some content) :
    (¬ EntryThrows deps o k w.store path entry.type content ∧
      ∃ r t, (upsertStoreEntry deps o k path).run w = .ok r { w with store := t }) ∨
    (EntryThrows deps o k w.store path entry.type content ∧
      ∃ e t, (upsertStoreEntry deps o k path).run w = .error e { w with store := t }) := by
  obtain ⟨n, hn⟩ : ∃ n, Name.ofParts [INTERNAL_NAME, filename path] = .ok n :=
    ⟨_, Name.ofParts_ok (by simp) (by simp [MAX_PARTS]) (by simp [INTERNAL_NAME, hname])⟩
  unfold upsertStoreEntry EntryThrows
  rw [EStateM.run_bind, EStateM.run_get]
  simp only [hfile]
  cases o.openRead with
  | false =>
    refine .inl ⟨?_, _, w.store, rfl⟩
    rintro ⟨hread, -⟩
    cases hread
  | true =>
    simp only [if_true]
    cases hmd5 : o.computeMD5 k content with
    | error e =>
      refine .inl ⟨?_, _, w.store, rfl⟩
      rintro ⟨-, hash, n', e', t, hhash, -⟩
      cases hhash
    | ok hash =>
      simp only [hn, h]
      rw [EStateM.run_bind, run_orThrow_ok]
      rcases run_onStore (deps.store.upsertInternalDoc n (entryDoc path hash entry.type)) w with
        ⟨r, t, hok, hres⟩ | ⟨e, t, herror, hres⟩
      · refine .inl ⟨?_, r, t, hres⟩
        rintro ⟨-, hash', n', e, t', hhash, hn', herror⟩
        cases hhash
        cases hn'
        cases hok.symm.trans herror
      · exact .inr ⟨⟨trivial, hash, n, e, t, rfl, rfl, herror⟩, e, t, hres⟩

/-! ## The database opened -/

/-- libmaxminddb opens what was written of `content`. -/
def Opens (deps : Deps τ) (o : Outcomes) (content : String) : Prop :=
  o.mmdbOpen 0 = none ∧ deps.mmdb.status (o.stored content) = MMDB_SUCCESS

theorem MMDB_open_wrote (deps : Deps τ) (o : Outcomes) (w : World τ) (path content : String) :
    (Opens deps o content ∧ MMDB_open deps o 0 path (wrote o w path content) =
      .ok (o.stored content)) ∨
    (¬ Opens deps o content ∧ ∃ status, MMDB_open deps o 0 path (wrote o w path content) =
      .error status) := by
  unfold MMDB_open Opens wrote
  simp only [Function.update_self]
  cases hfault : o.mmdbOpen 0 with
  | some status => exact .inr ⟨fun h => by simp at h, status, rfl⟩
  | none =>
    by_cases hstatus : deps.mmdb.status (o.stored content) = MMDB_SUCCESS
    · exact .inl ⟨⟨rfl, hstatus⟩, if_pos hstatus⟩
    · exact .inr ⟨fun h => hstatus h.2, _, if_neg hstatus⟩

/-- What `openDb` does. -/
inductive Opened (deps : Deps τ) (o : Outcomes) (w : World τ) (path : String) (type : DbType)
    (content : String) : EStateM.Result Throw (World τ) OptError → Prop
  | unwritable (e : Error) (h : ¬ Writable o path) :
      Opened deps o w path type content (.ok (some e) w)
  | refreshed {entry : DbEntry} (hwrite : Writable o path)
      (hentry : w.dbs.lookup (filename path) = some entry) (hopen : Opens deps o content) :
      Opened deps o w path type content
        (.ok none (reopen (wrote o w path content) (filename path) entry (o.stored content)))
  | dropped {entry : DbEntry} (e : Error) (t : τ) (hwrite : Writable o path)
      (hentry : w.dbs.lookup (filename path) = some entry) (hopen : ¬ Opens deps o content)
      (h : ¬ RemovalThrows deps w.store path) :
      Opened deps o w path type content
        (.ok (some e) { unregister (wrote o w path content) (filename path) with store := t })
  | threw {entry : DbEntry} (e : Throw) (w' : World τ) (hwrite : Writable o path)
      (hentry : w.dbs.lookup (filename path) = some entry) (hopen : ¬ Opens deps o content)
      (h : RemovalThrows deps w.store path) :
      Opened deps o w path type content (.error e w')
  | added (hwrite : Writable o path) (hname : w.dbs.lookup (filename path) = none)
      (htype : w.dbTypes.lookup type = none) (hopen : Opens deps o content) :
      Opened deps o w path type content
        (.ok none (register (wrote o w path content) path type (o.stored content)))
  | refused (e : Error) (hwrite : Writable o path) (hname : w.dbs.lookup (filename path) = none)
      (h : ¬ (w.dbTypes.lookup type = none ∧ Opens deps o content)) :
      Opened deps o w path type content (.ok (some e) (wrote o w path content))

/-- The branch of a registered name. -/
theorem refreshDb_opened (deps : Deps τ) (o : Outcomes) {w : World τ} {path : String}
    (type : DbType) (content : String) {entry : DbEntry}
    (hentry : w.dbs.lookup (filename path) = some entry) :
    Opened deps o w path type content ((refreshDb deps o path content entry).run w) := by
  unfold refreshDb
  rw [EStateM.run_bind]
  rcases run_writeDb (o := o) w path content with ⟨hwrite, hrun⟩ | ⟨hwrite, e, hrun⟩
  · rw [hrun]
    simp only
    rw [EStateM.run_bind, EStateM.run_get]
    simp only
    rcases MMDB_open_wrote deps o w path content with ⟨hopen, hok⟩ | ⟨hopen, status, herror⟩
    · rw [hok]
      exact .refreshed hwrite hentry hopen
    · rw [herror]
      simp only
      have hentry' : (wrote o w path content).dbs.lookup (filename path) = some entry := hentry
      rw [EStateM.run_bind]
      rcases run_removeDbUnsafe deps hentry' with ⟨hreturns, r, t, hremove⟩ |
        ⟨hthrows, e, t, hremove⟩
      · rw [hremove]
        exact .dropped _ t hwrite hentry hopen hreturns
      · rw [hremove]
        exact .threw e _ hwrite hentry hopen hthrows
  · rw [hrun]
    exact .unwritable e hwrite

/-- The branch of a new name. -/
theorem newDb_opened (deps : Deps τ) (o : Outcomes) {w : World τ} {path : String} (type : DbType)
    (content : String) (hname : w.dbs.lookup (filename path) = none) :
    Opened deps o w path type content ((newDb deps o path type content).run w) := by
  unfold newDb
  rw [EStateM.run_bind]
  rcases run_writeDb (o := o) w path content with ⟨hwrite, hrun⟩ | ⟨hwrite, e, hrun⟩
  · rw [hrun]
    have hname' : (wrote o w path content).dbs.lookup (filename path) = none := hname
    show Opened deps o w path type content
      ((addDbUnsafe deps o 0 path type false).run (wrote o w path content))
    unfold addDbUnsafe
    rw [EStateM.run_bind, EStateM.run_get]
    simp only
    cases htype : (wrote o w path content).dbTypes.lookup type with
    | some db =>
      refine .refused _ hwrite hname fun h => ?_
      cases htype.symm.trans h.1
    | none =>
      simp only [hname', Option.isSome_none, Bool.false_eq_true, if_false]
      rcases MMDB_open_wrote deps o w path content with ⟨hopen, hok⟩ | ⟨hopen, status, herror⟩
      · rw [hok]
        exact .added hwrite hname htype hopen
      · rw [herror]
        exact .refused _ hwrite hname fun h => hopen h.2
  · rw [hrun]
    exact .unwritable e hwrite

theorem openDb_opened (deps : Deps τ) (o : Outcomes) (w : World τ) (path : String) (type : DbType)
    (content : String) :
    Opened deps o w path type content ((openDb deps o path type content).run w) := by
  unfold openDb
  rw [EStateM.run_bind, EStateM.run_get]
  simp only
  cases hentry : w.dbs.lookup (filename path) with
  | some entry => exact refreshDb_opened deps o type content hentry
  | none => exact newDb_opened deps o type content hentry

/-- A database that was opened is registered under the name of the path. -/
theorem lookup_reopen (w : World τ) (name : String) (entry : DbEntry) (content : String) :
    (reopen w name entry content).dbs.lookup name =
      some { entry with opening := w.openings, content } := AList.lookup_insert _

theorem lookup_register (w : World τ) (path : String) (type : DbType) (content : String) :
    (register w path type content).dbs.lookup (filename path) =
      some ⟨w.openings, path, type, w.openings, content⟩ := AList.lookup_insert _

/-! ## The installation -/

/-- `content` is written and the database opened. -/
def Installs (deps : Deps τ) (o : Outcomes) (w : World τ) (path : String) (type : DbType)
    (content : String) : Prop :=
  Writable o path ∧ Opens deps o content ∧
    (w.dbs.lookup (filename path) ≠ none ∨ w.dbTypes.lookup type = none)

/-- The type of the database at a path, when one of `type` is added where there is none. -/
def entryType (w : World τ) (path : String) (type : DbType) : DbType :=
  match w.dbs.lookup (filename path) with
  | some entry => entry.type
  | none => type

/-- The store throws in the call that the installation of `content` makes. -/
def StoreThrows (deps : Deps τ) (o : Outcomes) (w : World τ) (path : String) (type : DbType)
    (content : String) : Prop :=
  Installs deps o w path type content ∧
      EntryThrows deps o MAX_RETRIES w.store path (entryType w path type) (o.stored content) ∨
    Writable o path ∧ w.dbs.lookup (filename path) ≠ none ∧ ¬ Opens deps o content ∧
      RemovalThrows deps w.store path

/-- What is installed is at the path, and registered under its name. -/
theorem Opened.installs {path content : String} {type : DbType} {w₁ : World τ}
    (h : Opened deps o w path type content (.ok none w₁)) :
    Installs deps o w path type content ∧ w₁.store = w.store ∧
      w₁.files path = some (o.stored content) ∧
      ∃ entry, w₁.dbs.lookup (filename path) = some entry ∧
        entry.type = entryType w path type ∧ entry.content = o.stored content := by
  unfold entryType
  cases h with
  | refreshed hwrite hentry hopen =>
    rw [hentry]
    exact ⟨⟨hwrite, hopen, .inl (by simp [hentry])⟩, rfl, Function.update_self .., _,
      lookup_reopen _ _ _ _, rfl, rfl⟩
  | added hwrite hname htype hopen =>
    rw [hname]
    exact ⟨⟨hwrite, hopen, .inr htype⟩, rfl, Function.update_self .., _,
      lookup_register _ _ _ _, rfl, rfl⟩

theorem Opened.not_installs {path content : String} {type : DbType} {e : Error} {w₁ : World τ}
    (h : Opened deps o w path type content (.ok (some e) w₁)) :
    ¬ Installs deps o w path type content := by
  rintro ⟨hwrite, hopen, hplace⟩
  cases h with
  | unwritable e h => exact h hwrite
  | dropped e t _ hentry h _ => exact h hopen
  | refused e _ hname h =>
    rcases hplace with hne | htype
    · exact hne hname
    · exact h ⟨htype, hopen⟩

/-- Where the database is not opened, the store does not throw. -/
theorem Opened.not_storeThrows {path content : String} {type : DbType} {e : Error} {w₁ : World τ}
    (h : Opened deps o w path type content (.ok (some e) w₁)) :
    ¬ StoreThrows deps o w path type content := by
  rintro (⟨hinstalls, -⟩ | ⟨hwrite, hreg, -, hthrows⟩)
  · exact h.not_installs hinstalls
  · cases h with
    | unwritable e h => exact h hwrite
    | dropped e t _ _ _ h => exact h hthrows
    | refused e _ hname _ => exact hreg hname

/-- What `install` does: what `openDb` does, and the store entry where this succeeded. -/
theorem run_install (deps : Deps τ) (o : Outcomes) (w : World τ) (path : String) (type : DbType)
    (content : String) :
    (¬ StoreThrows deps o w path type content ∧
      ∃ w₁ t, Opened deps o w path type content (.ok none w₁) ∧
        (install deps o path type content).run w = .ok none { w₁ with store := t }) ∨
    (¬ StoreThrows deps o w path type content ∧
      ∃ e w₁, Opened deps o w path type content (.ok (some e) w₁) ∧
        (install deps o path type content).run w = .ok (some e) w₁) ∨
    (StoreThrows deps o w path type content ∧
      ∃ e w₁, (install deps o path type content).run w = .error e w₁) := by
  have hopened := openDb_opened deps o w path type content
  have hrun : (install deps o path type content).run w =
      match (openDb deps o path type content).run w with
      | .ok (some e) w₁ => .ok (some e) w₁
      | .ok none w₁ => EStateM.run (do
          let _ ← upsertStoreEntry deps o MAX_RETRIES path
          return none) w₁
      | .error e w₁ => .error e w₁ := by
    unfold install
    rw [EStateM.run_bind]
    rcases (openDb deps o path type content).run w with ⟨_ | e, w₁⟩ | ⟨e, w₁⟩ <;> rfl
  rw [hrun]
  generalize (openDb deps o path type content).run w = res at hopened
  rcases res with ⟨_ | e, w₁⟩ | ⟨e, w₁⟩
  · obtain ⟨hinstalls, hstore, hfile, entry, hlookup, htype, -⟩ := hopened.installs
    simp only
    rw [EStateM.run_bind]
    rcases run_upsertStoreEntry deps o MAX_RETRIES hinstalls.1.2.2 hlookup hfile with
      ⟨hreturns, r, t, hrun⟩ | ⟨hthrows, e, t, hrun⟩
    · rw [hrun]
      refine .inl ⟨?_, w₁, t, hopened, rfl⟩
      rintro (⟨-, hthrows⟩ | ⟨-, -, hnot, -⟩)
      · rw [hstore, htype] at hreturns
        exact hreturns hthrows
      · exact hnot hinstalls.2.1
    · rw [hrun]
      rw [hstore, htype] at hthrows
      exact .inr (.inr ⟨.inl ⟨hinstalls, hthrows⟩, e, _, rfl⟩)
  · exact .inr (.inl ⟨hopened.not_storeThrows, e, w₁, hopened, rfl⟩)
  · cases hopened with
    | threw _ _ hwrite hentry hopen h =>
      exact .inr (.inr ⟨.inr ⟨hwrite, by simp [hentry], hopen, h⟩, e, w₁, rfl⟩)

/-! ## The whole call -/

theorem run_remoteUpsertDb (deps : Deps τ) (o : Outcomes) (path : String) (type : DbType)
    (dbUrl hashUrl : String) (w : World τ) :
    (remoteUpsertDb deps o path type dbUrl hashUrl).run w =
      match typeConflict w (filename path) type with
      | some e => .ok (some e) w
      | none =>
        match o.downloadMD5 hashUrl with
        | .error e => .ok (some ⟨s!"Cannot download hash from '{hashUrl}': {e.message}"⟩) w
        | .ok hash =>
          match alreadyStored deps w (filename path) hash with
          | .error e => .error e w
          | .ok true => .ok none w
          | .ok false =>
            match attempts o dbUrl hash MAX_RETRIES 0 "" none with
            | .error e => .error e w
            | .ok (_, some e) => .ok (some e) w
            | .ok (content, none) => (install deps o path type content).run w := by
  unfold remoteUpsertDb
  rw [EStateM.run_bind, EStateM.run_get]
  simp only
  cases typeConflict w (filename path) type with
  | some e => rfl
  | none =>
    cases o.downloadMD5 hashUrl with
    | error e => rfl
    | ok hash =>
      simp only
      rcases alreadyStored deps w (filename path) hash with e | _ | _
      · rfl
      · rcases attempts o dbUrl hash MAX_RETRIES 0 "" none with e | ⟨content, _ | e⟩ <;> rfl
      · rfl

/-- No attempt before number `k` is verified. -/
def NoneBefore (o : Outcomes) (dbUrl hash : String) (k : Nat) : Prop :=
  ∀ j < k, ∀ c, attempt o dbUrl hash j ≠ .verified c

theorem Unsettled.noneBefore {dbUrl hash : String} {k : Nat} (h : Unsettled o dbUrl hash 0 k) :
    NoneBefore o dbUrl hash k := fun j hj => (h j (Nat.zero_le j) hj).2

/-- How a call goes: refused at once, up to date, broken off, given up, or installed. -/
inductive Upserted (deps : Deps τ) (o : Outcomes) (w : World τ) (path : String) (type : DbType)
    (dbUrl hashUrl : String) : EStateM.Result Throw (World τ) OptError → Prop
  | refused (e : Error)
      (h : typeConflict w (filename path) type ≠ none ∨ ∀ hash, o.downloadMD5 hashUrl ≠ .ok hash) :
      Upserted deps o w path type dbUrl hashUrl (.ok (some e) w)
  | upToDate {hash : String} (htype : typeConflict w (filename path) type = none)
      (hhash : o.downloadMD5 hashUrl = .ok hash)
      (h : StoredHash deps w (filename path) (some hash)) :
      Upserted deps o w path type dbUrl hashUrl (.ok none w)
  | unreadable {hash : String} (htype : typeConflict w (filename path) type = none)
      (hhash : o.downloadMD5 hashUrl = .ok hash) (h : StoredHash deps w (filename path) none) :
      Upserted deps o w path type dbUrl hashUrl (.error .badOptionalAccess w)
  | attempted {hash : String} {r : EStateM.Result Throw (World τ) OptError}
      (htype : typeConflict w (filename path) type = none)
      (hhash : o.downloadMD5 hashUrl = .ok hash)
      (hstored : ¬ StoredHash deps w (filename path) (some hash))
      (hread : ¬ StoredHash deps w (filename path) none)
      (h : match attempts o dbUrl hash MAX_RETRIES 0 "" none with
        | .error e => r = .error e w
        | .ok (_, some e) => r = .ok (some e) w
        | .ok (content, none) => r = (install deps o path type content).run w) :
      Upserted deps o w path type dbUrl hashUrl r

theorem remoteUpsertDb_upserted (deps : Deps τ) (o : Outcomes) (w : World τ) (path : String)
    (type : DbType) (dbUrl hashUrl : String) :
    Upserted deps o w path type dbUrl hashUrl
      ((remoteUpsertDb deps o path type dbUrl hashUrl).run w) := by
  rw [run_remoteUpsertDb]
  cases htype : typeConflict w (filename path) type with
  | some e => exact .refused e (.inl (by rw [htype]; exact Option.some_ne_none e))
  | none =>
    cases hhash : o.downloadMD5 hashUrl with
    | error e => exact .refused _ (.inr fun hash h => by cases hhash.symm.trans h)
    | ok hash =>
      simp only
      rcases alreadyStored_cases deps w path hash with ⟨h, hrun⟩ | ⟨h, hrun⟩ |
          ⟨hstored, hread, hrun⟩
      · rw [hrun]
        exact .upToDate htype hhash h
      · rw [hrun]
        exact .unreadable htype hhash h
      · rw [hrun]
        refine .attempted htype hhash hstored hread ?_
        rcases attempts o dbUrl hash MAX_RETRIES 0 "" none with e | ⟨content, _ | e⟩ <;> rfl

end DistroDefender.Geo
