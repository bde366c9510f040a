import DistroDefender.Geo.Handles

/-!
# Calls on handles come in pairs

Whatever its calls return or throw, an operation turns the handles in few ways only (`Turn`,
`exec_moves`). Each keeps the balance between the entries that exist and the events (`Sound`), so a
run pairs its calls while no `MMDB_open` of it fails, and only then if it comes to its end
(`handles_paired`).
-/

namespace DistroDefender.Geo

open Base Lib Os Store

namespace Handles

variable {τ : Type}

/-! ## What an operation turns -/

inductive Turn (s : Handles τ) : Handles τ → Prop
  | outside {s' : Handles τ} (hdbs : s'.world.dbs = s.world.dbs)
      (hopenings : s'.world.openings = s.world.openings) (halive : s'.alive = s.alive)
      (hheld : s'.held = s.held) (horphans : s'.orphans = s.orphans)
      (hevents : s'.events = s.events) : Turn s s'
  | fail : Turn s ((s.log (.opened s.world.openings false)).log (.closed s.world.openings))
  | register {path content : String} {type : DbType} (htype : s.world.dbTypes.lookup type = none)
      (hname : s.world.dbs.lookup (filename path) = none) :
      Turn s { s.log (.opened s.world.openings true) with
        world := Manager.register s.world path type content }
  | unregister {name : String} {entry : DbEntry} (h : s.world.dbs.lookup name = some entry) :
      Turn s (drop { s with world := Manager.unregister s.world name } entry.id)
  | reopen {name content : String} {entry : DbEntry} (h : s.world.dbs.lookup name = some entry) :
      Turn s { (s.log (.closed entry.id)).log (.opened entry.id true) with
        world := Manager.reopen s.world name entry content }
  | reopenFail {name : String} {entry : DbEntry} (h : s.world.dbs.lookup name = some entry) :
      Turn s ((s.log (.closed entry.id)).log (.opened entry.id false))
  | clear (h : ∀ name, s.world.dbs.lookup name = none) :
      Turn s { s with world := { s.world with dbs := ∅, dbTypes := ∅ } }
  | acquire {id : Nat} (h : s.Exists id) : Turn s { s with held := id :: s.held }
  | release {id : Nat} : Turn s (s.release id)

/-- A call that leaves the maps of the manager alone. -/
def Quiet (w w' : World τ) : Prop := w'.dbs = w.dbs ∧ w'.openings = w.openings

theorem Quiet.stored (w : World τ) (store : τ) : Quiet w { w with store } := ⟨rfl, rfl⟩

theorem quiet_of_moves {α : Type} {x : Call (World τ) α} {w : World τ} (h : Moves Quiet x w) :
    Quiet w (resultState (x.run w)) :=
  h.keeps (fun _ _ hstep hw => ⟨hstep.1.trans hw.1, hstep.2.trans hw.2⟩) ⟨rfl, rfl⟩

theorem writeDb_quiet (o : Outcomes) (path content : String) (w : World τ) :
    Moves Quiet (Manager.writeDb o path content) w := by
  rcases Manager.run_writeDb (o := o) w path content with ⟨-, hrun⟩ | ⟨-, e, hrun⟩
  · rw [Moves, hrun]
    exact .single ⟨rfl, rfl⟩
  · rw [Moves, hrun]
    exact .refl

theorem resultState_onWorld {α : Type} (x : Call (World τ) α) (s : Handles τ) :
    resultState ((onWorld x).run s) = { s with world := resultState (x.run s.world) } := by
  unfold onWorld
  rw [run_onPart]
  cases x.run s.world <;> rfl

theorem onWorld_moves {α : Type} {x : Call (World τ) α} {s : Handles τ}
    (h : Moves Quiet x s.world) : Moves Turn (onWorld x) s := by
  obtain ⟨hdbs, hopenings⟩ := quiet_of_moves h
  unfold Moves
  rw [resultState_onWorld]
  exact .single (.outside hdbs hopenings rfl rfl rfl rfl)

theorem onWorld_dbs {α : Type} {x : Call (World τ) α} {s s' : Handles τ} {a : α}
    (h : Moves Quiet x s.world) (hrun : (onWorld x).run s = .ok a s') :
    s'.world.dbs = s.world.dbs := by
  have hresult := resultState_onWorld x s
  rw [hrun, resultState_ok] at hresult
  rw [hresult]
  exact (quiet_of_moves h).1

section Moves

variable (deps : Deps τ) (o : Outcomes) (s : Handles τ)

theorem upsertStoreEntry_moves (k : Nat) (path : String) :
    Moves Turn (onWorld (Manager.upsertStoreEntry deps o k path)) s :=
  onWorld_moves (Geo.upsertStoreEntry_moves deps o Quiet.stored k path s.world)

theorem addDbUnsafe_moves (k : Nat) (path : String) (type : DbType) (upsertStore : Bool) :
    Moves Turn (addDbUnsafe deps o k path type upsertStore) s := by
  refine .get_bind ?_
  split
  · exact .pure _
  · rename_i htype
    dsimp only
    split
    · exact .pure _
    · rename_i hname
      split
      · exact .bind (.set .fail) fun _ s' _ => .pure _
      · refine .bind (.set (.register htype (Option.not_isSome_iff_eq_none.mp hname))) fun _ s' _ =>
          ?_
        split
        · exact .bind (upsertStoreEntry_moves deps o s' k path) fun _ s' _ => .pure _
        · exact .pure _

theorem removeDbUnsafe_moves (path : String) : Moves Turn (removeDbUnsafe deps path) s := by
  refine .get_bind ?_
  split
  · exact .pure _
  · rename_i entry h
    refine .bind (.set (.unregister h)) fun _ s' _ => ?_
    exact onWorld_moves (removeInternalEntry_moves deps Quiet.stored path s'.world)

theorem refreshDb_moves (path content : String) {entry : DbEntry}
    (h : s.world.dbs.lookup (filename path) = some entry) :
    Moves Turn (refreshDb deps o path content entry) s := by
  have hquiet := writeDb_quiet o path content s.world
  refine .bind (onWorld_moves hquiet) fun writeError s' hrun => ?_
  have hentry : s'.world.dbs.lookup (filename path) = some entry := by
    rw [onWorld_dbs hquiet hrun]
    exact h
  split
  · exact .pure _
  · refine .get_bind ?_
    split
    · refine .bind (.modify (.reopenFail hentry)) fun _ s' _ => ?_
      exact .bind (removeDbUnsafe_moves deps s' path) fun _ s' _ => .pure _
    · exact .bind (.modify (.reopen hentry)) fun _ s' _ => .pure _

theorem openDb_moves (path : String) (type : DbType) (content : String) :
    Moves Turn (openDb deps o path type content) s := by
  refine .get_bind ?_
  split
  · rename_i entry h
    exact refreshDb_moves deps o s path content h
  · refine .bind (onWorld_moves (writeDb_quiet o path content s.world)) fun writeError s' _ => ?_
    split
    · exact .pure _
    · exact addDbUnsafe_moves deps o s' 0 path type false

theorem install_moves (path : String) (type : DbType) (content : String) :
    Moves Turn (install deps o path type content) s := by
  refine .bind (openDb_moves deps o s path type content) fun error s' _ => ?_
  split
  · exact .pure _
  · exact .bind (upsertStoreEntry_moves deps o s' _ path) fun _ s' _ => .pure _

theorem remoteUpsertDb_moves (path : String) (type : DbType) (dbUrl hashUrl : String) :
    Moves Turn (remoteUpsertDb deps o path type dbUrl hashUrl) s := by
  refine .get_bind ?_
  split
  · exact .pure _
  · split
    · exact .pure _
    · refine .bind (.orThrow _) fun stored s' _ => ?_
      split
      · exact .pure _
      · refine .bind (.orThrow _) fun found s' _ => ?_
        split
        · exact .pure _
        · exact install_moves deps o s' path type _

theorem exec_moves (op : Op) : Moves Turn (exec deps o op) s := by
  cases op with
  | addDb path type => exact addDbUnsafe_moves deps o s 0 path type true
  | removeDb path => exact removeDbUnsafe_moves deps s path
  | remoteUpsertDb path type dbUrl hashUrl =>
    exact remoteUpsertDb_moves deps o s path type dbUrl hashUrl

theorem loadDb_moves (db : Name) (k : Nat) : Moves Turn (loadDb deps o db k) s := by
  refine .get_bind ?_
  split
  · exact .pure _
  · refine .bind (.orThrow _) fun path s' _ => .bind (.orThrow _) fun typeStr s' _ =>
      .bind (.orThrow _) fun type s' _ => .bind (addDbUnsafe_moves deps o s' k path type false)
        fun error s' _ => ?_
    split
    · exact .pure _
    · exact .bind (onWorld_moves (onStore_moves Quiet.stored _ s'.world)) fun _ s' _ => .pure _

theorem construct_moves : Moves Turn (construct deps o) s := by
  refine .bind (.orThrow _) fun name s' _ => .get_bind (.bind (.orThrow _) fun dbs s' _ => ?_)
  split
  · exact .pure _
  · exact .forM _ (fun (db : Name × Nat) s => loadDb_moves deps o s db.1 db.2) s'

end Moves

/-! ## The end of the manager -/

theorem lookup_unregister (w : World τ) (name name' : String) :
    (Manager.unregister w name).dbs.lookup name' = if name' = name then none
    else w.dbs.lookup name' :=
  Map.lookup_erase_eq _ _ _

theorem lookup_unregister_eq_some {w : World τ} {name name' : String} {entry : DbEntry} :
    (Manager.unregister w name).dbs.lookup name' = some entry ↔
      name' ≠ name ∧ w.dbs.lookup name' = some entry := by
  rw [lookup_unregister]
  split
  · rename_i heq
    exact iff_of_false nofun fun h => h.1 heq
  · rename_i hne
    exact (and_iff_right hne).symm

theorem lookup_forget (s : Handles τ) (name name' : String) :
    (s.forget name).world.dbs.lookup name' = if name' = name then none
    else s.world.dbs.lookup name' := by
  unfold forget
  split
  · rename_i hnone
    split
    · rename_i heq
      rw [heq, hnone]
    · rfl
  · rw [drop_world]
    exact lookup_unregister _ _ _

theorem lookup_foldl_forget (names : List String) (s : Handles τ) (name : String) :
    (names.foldl forget s).world.dbs.lookup name = if name ∈ names then none
    else s.world.dbs.lookup name := by
  induction names generalizing s with
  | nil => simp
  | cons n names ih =>
    rw [List.foldl_cons, ih, lookup_forget]
    by_cases hn : name = n
    · simp [hn]
    · simp [hn]

theorem foldl_forget_turns (names : List String) (s : Handles τ) :
    Relation.ReflTransGen Turn s (names.foldl forget s) := by
  induction names generalizing s with
  | nil => exact .refl
  | cons n names ih =>
    refine Relation.ReflTransGen.trans ?_ (ih (s.forget n))
    unfold forget
    split
    · exact .refl
    · rename_i entry h
      exact .single (.unregister h)

theorem destroy_turns (s : Handles τ) : Relation.ReflTransGen Turn s s.destroy := by
  refine (foldl_forget_turns _ s).tail (.clear fun name => ?_)
  rw [lookup_foldl_forget]
  split
  · rfl
  · rename_i hname
    rw [mem_sortedSet, ← AList.mem_keys] at hname
    exact AList.lookup_eq_none.mpr hname

/-! ## The invariant -/

/-- What holds of the numbers of the entries and of the events. -/
structure Sound (s : Handles τ) : Prop where
  distinct : Distinct s.world
  orphan_lt : ∀ id ∈ s.orphans, id < s.world.openings
  orphan_held : ∀ id ∈ s.orphans, id ∈ s.held
  nodup : s.orphans.Nodup
  /-- An orphan is not registered. -/
  apart : ∀ name entry, s.world.dbs.lookup name = some entry → entry.id ∉ s.orphans
  /-- A number that was not given out has no open handle. -/
  fresh : ∀ id, s.world.openings ≤ id → isOpen id s.events = false
  balanced : Balanced s.Exists s.events

namespace Sound

variable {s : Handles τ}

theorem exists_lt (h : Sound s) {id : Nat} (hid : s.Exists id) : id < s.world.openings := by
  rcases hid with ⟨name, entry, hentry, rfl⟩ | horphan
  · exact h.distinct.id_lt name entry hentry
  · exact h.orphan_lt id horphan

theorem outside (h : Sound s) {s' : Handles τ} (hdbs : s'.world.dbs = s.world.dbs)
    (hopenings : s'.world.openings = s.world.openings) (hheld : s'.held = s.held)
    (horphans : s'.orphans = s.orphans) (hevents : s'.events = s.events) : Sound s' where
  distinct := h.distinct.congr hdbs hopenings
  orphan_lt := by
    rw [horphans, hopenings]
    exact h.orphan_lt
  orphan_held := by
    rw [horphans, hheld]
    exact h.orphan_held
  nodup := by
    rw [horphans]
    exact h.nodup
  apart := by
    rw [hdbs, horphans]
    exact h.apart
  fresh := by
    rw [hopenings, hevents]
    exact h.fresh
  balanced := by
    rw [hevents]
    refine h.balanced.congr fun id => ?_
    unfold Exists
    rw [hdbs, horphans]

theorem fail (h : Sound s) :
    Sound ((s.log (.opened s.world.openings false)).log (.closed s.world.openings)) where
  distinct := h.distinct
  orphan_lt := h.orphan_lt
  orphan_held := h.orphan_held
  nodup := h.nodup
  apart := h.apart
  fresh id hid := by
    show isOpen id (.closed s.world.openings :: .opened s.world.openings false :: s.events) = false
    rw [isOpen_closed, isOpen_opened, h.fresh id hid]
    split <;> rfl
  balanced := .fail _

theorem register (h : Sound s) {path : String} (content : String) {type : DbType}
    (htype : s.world.dbTypes.lookup type = none)
    (hname : s.world.dbs.lookup (filename path) = none) :
    Sound { s.log (.opened s.world.openings true) with
      world := Manager.register s.world path type content } where
  distinct := distinct_change (.register htype hname) h.distinct
  orphan_lt id hid := Nat.lt_succ_of_lt (h.orphan_lt id hid)
  orphan_held := h.orphan_held
  nodup := h.nodup
  apart name entry hentry horphan := by
    simp only [Manager.register, Map.lookup_insert_eq] at hentry
    split at hentry
    · cases hentry
      exact Nat.lt_irrefl _ (h.orphan_lt _ horphan)
    · exact h.apart name entry hentry horphan
  fresh id hid := by
    have hlt : s.world.openings < id := hid
    show isOpen id (.opened s.world.openings true :: s.events) = false
    rw [isOpen_opened, if_neg (Nat.ne_of_lt hlt), h.fresh id (Nat.le_of_lt hlt)]
  balanced := by
    have hnew : ¬ s.Exists s.world.openings := fun hid => Nat.lt_irrefl _ (h.exists_lt hid)
    refine (h.balanced.add hnew (h.fresh _ (Nat.le_refl _))).congr fun id => ?_
    constructor
    · rintro (⟨name, entry, hentry, rfl⟩ | horphan)
      · simp only [Manager.register, Map.lookup_insert_eq] at hentry
        split at hentry
        · cases hentry
          exact .inl rfl
        · exact .inr (.inl ⟨name, entry, hentry, rfl⟩)
      · exact .inr (.inr horphan)
    · rintro (rfl | ⟨name, entry, hentry, rfl⟩ | horphan)
      · refine .inl ⟨filename path, ⟨s.world.openings, path, type, s.world.openings, content⟩,
          ?_, rfl⟩
        exact (Map.lookup_insert_eq _ _ _ _).trans (if_pos rfl)
      · have hne : name ≠ filename path := by
          rintro rfl
          rw [hname] at hentry
          cases hentry
        refine .inl ⟨name, entry, ?_, rfl⟩
        exact (Map.lookup_insert_eq _ _ _ _).trans ((if_neg hne).trans hentry)
      · exact .inr horphan

/-- An entry that is let go of while a locator holds it is an orphan. -/
theorem orphan (h : Sound s) {name : String} {entry : DbEntry}
    (hentry : s.world.dbs.lookup name = some entry) (hheld : entry.id ∈ s.held) :
    Sound { s with
      world := Manager.unregister s.world name, orphans := entry.id :: s.orphans } where
  distinct := distinct_change (.unregister hentry) h.distinct
  orphan_lt id hid := by
    rcases List.mem_cons.mp hid with rfl | hid
    · exact h.distinct.id_lt name entry hentry
    · exact h.orphan_lt id hid
  orphan_held id hid := by
    rcases List.mem_cons.mp hid with rfl | hid
    · exact hheld
    · exact h.orphan_held id hid
  nodup := List.nodup_cons.mpr ⟨h.apart name entry hentry, h.nodup⟩
  apart name' entry' hentry' hid := by
    obtain ⟨hne, hentry'⟩ := lookup_unregister_eq_some.mp hentry'
    rcases List.mem_cons.mp hid with hsame | hid
    · exact hne (h.distinct.id_inj name' name entry' entry hentry' hentry hsame)
    · exact h.apart name' entry' hentry' hid
  fresh := h.fresh
  balanced := by
    refine h.balanced.congr fun id => ?_
    constructor
    · rintro (⟨name', entry', hentry', rfl⟩ | hid)
      · exact .inl ⟨name', entry', (lookup_unregister_eq_some.mp hentry').2, rfl⟩
      · rcases List.mem_cons.mp hid with rfl | hid
        · exact .inl ⟨name, entry, hentry, rfl⟩
        · exact .inr hid
    · rintro (⟨name', entry', hentry', rfl⟩ | hid)
      · by_cases hname : name' = name
        · rw [hname, hentry] at hentry'
          cases hentry'
          exact .inr List.mem_cons_self
        · exact .inl ⟨name', entry', lookup_unregister_eq_some.mpr ⟨hname, hentry'⟩, rfl⟩
      · exact .inr (List.mem_cons_of_mem _ hid)

/-- An entry that nobody holds goes with its name. -/
theorem erase (h : Sound s) {name : String} {entry : DbEntry}
    (hentry : s.world.dbs.lookup name = some entry) :
    Sound ({ s with world := Manager.unregister s.world name }.log (.closed entry.id)) where
  distinct := distinct_change (.unregister hentry) h.distinct
  orphan_lt := h.orphan_lt
  orphan_held := h.orphan_held
  nodup := h.nodup
  apart name' entry' hentry' := h.apart name' entry' (lookup_unregister_eq_some.mp hentry').2
  fresh id hid := by
    show isOpen id (.closed entry.id :: s.events) = false
    rw [isOpen_closed, h.fresh id hid, ite_self]
  balanced := by
    refine (h.balanced.remove (n := entry.id) (.inl ⟨name, entry, hentry, rfl⟩)).congr fun id => ?_
    constructor
    · rintro (⟨name', entry', hentry', rfl⟩ | hid)
      · obtain ⟨hne, hentry'⟩ := lookup_unregister_eq_some.mp hentry'
        refine ⟨.inl ⟨name', entry', hentry', rfl⟩, fun hsame => hne ?_⟩
        exact h.distinct.id_inj name' name entry' entry hentry' hentry hsame
      · exact ⟨.inr hid, fun hsame => h.apart name entry hentry (hsame ▸ hid)⟩
    · rintro ⟨⟨name', entry', hentry', rfl⟩ | hid, hne⟩
      · have hname : name' ≠ name := by
          rintro rfl
          rw [hentry] at hentry'
          cases hentry'
          exact hne rfl
        exact .inl ⟨name', entry', lookup_unregister_eq_some.mpr ⟨hname, hentry'⟩, rfl⟩
      · exact .inr hid

theorem unregister (h : Sound s) {name : String} {entry : DbEntry}
    (hentry : s.world.dbs.lookup name = some entry) :
    Sound (drop { s with world := Manager.unregister s.world name } entry.id) := by
  unfold drop
  split
  · rename_i hheld
    exact h.orphan hentry hheld
  · exact h.erase hentry

theorem exists_reopen {name : String} {entry : DbEntry}
    (hentry : s.world.dbs.lookup name = some entry) (content : String) (es : List (Use Nat))
    (id : Nat) :
    Exists { s with world := Manager.reopen s.world name entry content, events := es } id ↔
    s.Exists id := by
  refine or_congr ⟨?_, ?_⟩ Iff.rfl
  · rintro ⟨name', entry', hentry', rfl⟩
    simp only [Manager.reopen, Map.lookup_insert_eq] at hentry'
    split at hentry'
    · cases hentry'
      exact ⟨name, entry, hentry, rfl⟩
    · exact ⟨name', entry', hentry', rfl⟩
  · rintro ⟨name', entry', hentry', rfl⟩
    by_cases hname : name' = name
    · rw [hname, hentry] at hentry'
      cases hentry'
      refine ⟨name, { entry with opening := s.world.openings, content }, ?_, rfl⟩
      exact (Map.lookup_insert_eq _ _ _ _).trans (if_pos rfl)
    · refine ⟨name', entry', ?_, rfl⟩
      exact (Map.lookup_insert_eq _ _ _ _).trans ((if_neg hname).trans hentry')

theorem reopen (h : Sound s) {name : String} {entry : DbEntry}
    (hentry : s.world.dbs.lookup name = some entry) (content : String) :
    Sound { (s.log (.closed entry.id)).log (.opened entry.id true) with
      world := Manager.reopen s.world name entry content } where
  distinct := distinct_change (.reopen hentry) h.distinct
  orphan_lt id hid := Nat.lt_succ_of_lt (h.orphan_lt id hid)
  orphan_held := h.orphan_held
  nodup := h.nodup
  apart name' entry' hentry' := by
    simp only [Manager.reopen, Map.lookup_insert_eq] at hentry'
    split at hentry'
    · cases hentry'
      exact h.apart name entry hentry
    · exact h.apart name' entry' hentry'
  fresh id hid := by
    have hlt : s.world.openings < id := hid
    have hne : entry.id ≠ id := Nat.ne_of_lt ((h.distinct.id_lt name entry hentry).trans hlt)
    show isOpen id (.opened entry.id true :: .closed entry.id :: s.events) = false
    rw [isOpen_opened, if_neg hne, isOpen_closed, if_neg hne, h.fresh id (Nat.le_of_lt hlt)]
  balanced := (h.balanced.reopen (.inl ⟨name, entry, hentry, rfl⟩)).congr
    (exists_reopen hentry content _)

theorem reopenFail (h : Sound s) {name : String} {entry : DbEntry}
    (hentry : s.world.dbs.lookup name = some entry) :
    Sound ((s.log (.closed entry.id)).log (.opened entry.id false)) where
  distinct := h.distinct
  orphan_lt := h.orphan_lt
  orphan_held := h.orphan_held
  nodup := h.nodup
  apart := h.apart
  fresh id hid := by
    show isOpen id (.opened entry.id false :: .closed entry.id :: s.events) = false
    rw [isOpen_opened, isOpen_closed, h.fresh id hid, ite_self, ite_self]
  balanced := .reopenFail (.inl ⟨name, entry, hentry, rfl⟩)

theorem clear (h : Sound s) (hnone : ∀ name, s.world.dbs.lookup name = none) :
    Sound { s with world := { s.world with dbs := ∅, dbTypes := ∅ } } where
  distinct := ⟨nofun, nofun, nofun⟩
  orphan_lt := h.orphan_lt
  orphan_held := h.orphan_held
  nodup := h.nodup
  apart := nofun
  fresh := h.fresh
  balanced := by
    refine h.balanced.congr fun id => or_congr ⟨?_, ?_⟩ Iff.rfl
    · rintro ⟨name, entry, hentry, -⟩
      cases hentry
    · rintro ⟨name, entry, hentry, -⟩
      rw [hnone] at hentry
      cases hentry

theorem acquire (h : Sound s) (id : Nat) : Sound { s with held := id :: s.held } where
  distinct := h.distinct
  orphan_lt := h.orphan_lt
  orphan_held id' hid := List.mem_cons_of_mem id (h.orphan_held id' hid)
  nodup := h.nodup
  apart := h.apart
  fresh := h.fresh
  balanced := h.balanced

/-- The last locator of an orphan lets go of it. -/
theorem bury (h : Sound s) {id : Nat} (hid : id ∈ s.orphans) :
    Sound (log { s with held := s.held.erase id, orphans := s.orphans.erase id } (.closed id)) where
  distinct := h.distinct
  orphan_lt id' hid' := h.orphan_lt id' (List.mem_of_mem_erase hid')
  orphan_held id' hid' := by
    obtain ⟨hne, hmem⟩ := h.nodup.mem_erase_iff.mp hid'
    exact (List.mem_erase_of_ne hne).mpr (h.orphan_held id' hmem)
  nodup := h.nodup.erase id
  apart name entry hentry hid' := h.apart name entry hentry (List.mem_of_mem_erase hid')
  fresh id' hid' := by
    show isOpen id' (.closed id :: s.events) = false
    rw [isOpen_closed, h.fresh id' hid', ite_self]
  balanced := by
    refine (h.balanced.remove (n := id) (.inr hid)).congr fun id' => ?_
    constructor
    · rintro (⟨name, entry, hentry, rfl⟩ | hid')
      · exact ⟨.inl ⟨name, entry, hentry, rfl⟩,
          fun hsame => h.apart name entry hentry (hsame ▸ hid)⟩
      · obtain ⟨hne, hmem⟩ := h.nodup.mem_erase_iff.mp hid'
        exact ⟨.inr hmem, hne⟩
    · rintro ⟨hregistered | hmem, hne⟩
      · exact .inl hregistered
      · exact .inr (h.nodup.mem_erase_iff.mpr ⟨hne, hmem⟩)

theorem release (h : Sound s) (id : Nat) : Sound (s.release id) := by
  unfold Handles.release
  dsimp only
  split
  · rename_i hlast
    exact h.bury hlast.1
  · rename_i hlast
    refine ⟨h.distinct, h.orphan_lt, fun id' hid' => ?_, h.nodup, h.apart, h.fresh, h.balanced⟩
    by_cases hsame : id' = id
    · subst hsame
      by_contra hheld
      exact hlast ⟨hid', hheld⟩
    · exact (List.mem_erase_of_ne hsame).mpr (h.orphan_held id' hid')

/-- Every turn keeps it. -/
theorem turn {s' : Handles τ} (ht : Turn s s') (h : Sound s) : Sound s' := by
  cases ht with
  | outside hdbs hopenings _ hheld horphans hevents =>
    exact h.outside hdbs hopenings hheld horphans hevents
  | fail => exact h.fail
  | register htype hname => exact h.register _ htype hname
  | unregister hentry => exact h.unregister hentry
  | reopen hentry => exact h.reopen hentry _
  | reopenFail hentry => exact h.reopenFail hentry
  | clear hnone => exact h.clear hnone
  | acquire _ => exact h.acquire _
  | release => exact h.release _

theorem turns {s' : Handles τ} (ht : Relation.ReflTransGen Turn s s') (h : Sound s) : Sound s' := by
  induction ht with
  | refl => exact h
  | tail _ hstep ih => exact ih.turn hstep

end Sound

/-! ## Runs -/

/-- What happens in a run. -/
inductive Act where
  | construct (o : Outcomes)
  | destroy
  | call (op : Op) (o : Outcomes)
  /-- A locator locks its weak pointer, for one read. -/
  | acquire (id : Nat)
  | release (id : Nat)
  /-- Something outside changes the store and the files. -/
  | outside

inductive Step (deps : Deps τ) : Handles τ → Act → Handles τ → Prop
  | constructed {s s' : Handles τ} {o : Outcomes} (h : s.alive = false)
      (hrun : (Handles.construct deps o).run s = .ok () s') :
      Step deps s (.construct o) { s' with alive := true }
  | thrown {s s' : Handles τ} {o : Outcomes} {e : Throw} (h : s.alive = false)
      (hrun : (Handles.construct deps o).run s = .error e s') :
      Step deps s (.construct o) { s'.destroy with alive := false }
  | destroy {s : Handles τ} (h : s.alive = true) :
      Step deps s .destroy { s.destroy with alive := false }
  | call {s : Handles τ} (op : Op) (o : Outcomes) (h : s.alive = true) :
      Step deps s (.call op o) (resultState ((exec deps o op).run s))
  | acquire {s : Handles τ} {id : Nat} (h : s.Exists id) :
      Step deps s (.acquire id) { s with held := id :: s.held }
  | release {s : Handles τ} {id : Nat} (h : id ∈ s.held) : Step deps s (.release id) (s.release id)
  | outside {s : Handles τ} (store : τ) (files : Path → Option String) :
      Step deps s .outside { s with world := { s.world with store, files } }

def start (store : τ) (files : Path → Option String) : Handles τ :=
  ⟨.start store files, false, [], [], []⟩

/-- The managers of a process, one after the other, with their locators. -/
def system (deps : Deps τ) : System (Handles τ) Act where
  init s := ∃ store files, s = start store files
  step := Step deps

theorem Sound.start (store : τ) (files : Path → Option String) : Sound (start store files) where
  distinct := distinct_start store files
  orphan_lt := nofun
  orphan_held := nofun
  nodup := .nil
  apart := nofun
  fresh _ _ := rfl
  balanced := Balanced.nil.congr fun id => iff_of_false
    (by rintro (⟨name, entry, hentry, -⟩ | hid) <;> contradiction) not_false

/-- Whether there is a manager does not matter to the handles. -/
theorem Sound.withAlive {s : Handles τ} (h : Sound s) (alive : Bool) : Sound { s with alive } :=
  ⟨h.distinct, h.orphan_lt, h.orphan_held, h.nodup, h.apart, h.fresh, h.balanced⟩

/-- What holds in every run: between two managers no name is registered. -/
structure Inv (s : Handles τ) : Prop where
  sound : Sound s
  gone : s.alive = false → ∀ name, s.world.dbs.lookup name = none

theorem drop_alive (s : Handles τ) (id : Nat) : (s.drop id).alive = s.alive := by
  unfold drop
  split <;> rfl

theorem release_world (s : Handles τ) (id : Nat) : (s.release id).world = s.world := by
  unfold Handles.release
  dsimp only
  split <;> rfl

theorem release_alive (s : Handles τ) (id : Nat) : (s.release id).alive = s.alive := by
  unfold Handles.release
  dsimp only
  split <;> rfl

theorem turn_alive {s s' : Handles τ} (ht : Turn s s') : s'.alive = s.alive := by
  cases ht with
  | outside _ _ halive => exact halive
  | unregister => exact drop_alive _ _
  | release => exact release_alive s _
  | fail | register | reopen | reopenFail | clear | acquire => rfl

theorem exec_alive (deps : Deps τ) (o : Outcomes) (op : Op) (s : Handles τ) :
    (resultState ((exec deps o op).run s)).alive = s.alive :=
  (exec_moves deps o s op).keeps (I := fun s' => s'.alive = s.alive)
    (fun _ _ ht hs => (turn_alive ht).trans hs) rfl

theorem inv_start (store : τ) (files : Path → Option String) : Inv (start store files) :=
  ⟨.start store files, fun _ _ => rfl⟩

theorem Sound.destroy {s : Handles τ} (h : Sound s) : Inv { s.destroy with alive := false } :=
  ⟨(h.turns (destroy_turns s)).withAlive false, fun _ _ => rfl⟩

theorem inv_step {deps : Deps τ} {s s' : Handles τ} {a : Act} (h : Inv s) (hs : Step deps s a s') :
    Inv s' := by
  cases hs with
  | @constructed _ o _ hrun =>
    have hsound := h.sound.turns (construct_moves deps o s)
    rw [hrun] at hsound
    exact ⟨hsound.withAlive true, nofun⟩
  | @thrown _ o _ _ hrun =>
    have hsound := h.sound.turns (construct_moves deps o s)
    rw [hrun] at hsound
    exact hsound.destroy
  | destroy => exact h.sound.destroy
  | call op o halive =>
    refine ⟨h.sound.turns (exec_moves deps o s op), fun hgone => ?_⟩
    rw [exec_alive, halive] at hgone
    cases hgone
  | acquire hid => exact ⟨h.sound.acquire _, h.gone⟩
  | release hid =>
    refine ⟨h.sound.release _, ?_⟩
    rw [release_alive, release_world]
    exact h.gone
  | outside store files => exact ⟨h.sound.outside rfl rfl rfl rfl rfl, h.gone⟩

theorem inv_of_reachable {deps : Deps τ} {s : Handles τ} (h : (system deps).Reachable s) :
    Inv s := by
  refine System.Inductive.holds (S := system deps) ⟨?_, fun s a s' => inv_step⟩ h
  rintro _ ⟨store, files, rfl⟩
  exact inv_start store files

/-- Without a manager only orphans exist, and somebody holds them. -/
theorem Inv.not_exists {s : Handles τ} (h : Inv s) (halive : s.alive = false) (hheld : s.held = [])
    (id : Nat) : ¬ s.Exists id := by
  rintro (⟨name, entry, hentry, -⟩ | horphan)
  · rw [h.gone halive name] at hentry
    cases hentry
  · have hmem := h.sound.orphan_held id horphan
    rw [hheld] at hmem
    cases hmem

/-- While no `MMDB_open` of a run fails, a handle is closed only if it is open, and opened only if
it is not. A run in which the managers and their locators are gone pairs its calls exactly when none
failed. -/
theorem handles_paired (deps : Deps τ) (s : Handles τ) (h : (system deps).Reachable s) :
    (AllOpened s.events → Paired s.events) ∧
    (s.alive = false → s.held = [] →
      (Paired s.events ∧ (∀ id, isOpen id s.events = false) ↔ AllOpened s.events)) := by
  have hinv := inv_of_reachable h
  refine ⟨fun hall => (hinv.sound.balanced.opened hall).1, fun halive hheld => ?_⟩
  have hnone := hinv.not_exists halive hheld
  constructor
  · rintro ⟨hpaired, -⟩
    by_contra hall
    rcases hinv.sound.balanced.failed hall with hbad | ⟨id, hid, -⟩
    · exact hbad hpaired
    · exact hnone id hid
  · intro hall
    obtain ⟨hpaired, hopen⟩ := hinv.sound.balanced.opened hall
    refine ⟨hpaired, fun id => ?_⟩
    rw [Bool.eq_false_iff]
    exact fun h => hnone id ((hopen id).mp h)

/-! ## A manager that adds one database -/

section Sample

/-- The manager right after its construction. -/
def sampleBuilt : Handles (Store MemTree) :=
  { start sampleStart.store sampleStart.files with alive := true }

theorem sampleBuilt_reachable : (system sampleDeps).Reachable sampleBuilt := by
  have hstart : (system sampleDeps).Reachable (start sampleStart.store sampleStart.files) :=
    .init ⟨_, _, rfl⟩
  refine hstart.step (.constructed (o := .well "" "") rfl ?_)
  have hname : Name.ofString INTERNAL_NAME = .ok ⟨["geo"], by decide, by decide, by decide⟩ := by
    decide +kernel
  unfold construct
  rw [hname]
  rfl

/-- It adds a file and is destroyed. -/
def sampleRun (o : Outcomes) : Handles (Store MemTree) :=
  { destroy (resultState
    ((exec sampleDeps o (.addDb samplePath .CITY)).run sampleBuilt)) with alive := false }

theorem sampleRun_reachable (o : Outcomes) : (system sampleDeps).Reachable (sampleRun o) := by
  refine (sampleBuilt_reachable.step (.call (.addDb samplePath .CITY) o rfl)).step (.destroy ?_)
  exact exec_alive sampleDeps o (.addDb samplePath .CITY) sampleBuilt

/-- `MMDB_open` finds the file corrupt. -/
def corrupt : Outcomes := { Outcomes.well "old" "hash" with mmdbOpen := fun _ => some 2 }

theorem handles_paired_sample :
    (sampleRun (.well "old" "hash")).events = [.closed 0, .opened 0 true] ∧
    Paired (sampleRun (.well "old" "hash")).events ∧
    (Paired (sampleRun (.well "old" "hash")).events ∧
        (∀ id, isOpen id (sampleRun (.well "old" "hash")).events = false) ↔
      AllOpened (sampleRun (.well "old" "hash")).events) := by
  have hevents : (sampleRun (.well "old" "hash")).events = [.closed 0, .opened 0 true] := by
    decide +kernel
  have hall : AllOpened (sampleRun (.well "old" "hash")).events := by
    rw [hevents]
    simp [AllOpened]
  obtain ⟨hpaired, hended⟩ := handles_paired sampleDeps _ (sampleRun_reachable (.well "old" "hash"))
  exact ⟨hevents, hpaired hall, hended rfl (by decide +kernel)⟩

/-- The handle of a file that cannot be opened is closed. -/
theorem handles_unpaired : (system sampleDeps).Reachable (sampleRun corrupt) ∧
    (sampleRun corrupt).events = [.closed 0, .opened 0 false] ∧ ¬ Paired
    (sampleRun corrupt).events := by
  have hevents : (sampleRun corrupt).events = [.closed 0, .opened 0 false] := by decide +kernel
  refine ⟨sampleRun_reachable corrupt, hevents, ?_⟩
  rw [hevents]
  simp [Paired, isOpen]

end Sample

end Handles

end DistroDefender.Geo
