import DistroDefender.Kvdb.Counts
import DistroDefender.Kvdb.Mirror

/-!
# Threads that share a manager

Any number of threads call `getKVDBHandler`, `createDB` and `deleteDB` and destroy handlers. Every
call of `KvdbCall` is one step, and the steps of different threads interleave. `mutexScopes_` is
locked nowhere, so a deletion may read a count of zero, another thread look the database up, and the
column family be dropped all the same (`inUse_dropped`).

`never_dropped` says what holds of the runs in which no database is looked up for a handler between
the count and the drop of its deletion, and none is counted for a deletion between the look-up and
the registration of a handler: no handler refers to a family that was dropped while it was being
obtained or alive. The invariant (`Inv`) is that a database under deletion has no handler and none
on its way; `inv_step` carries it over every step of every thread.
-/

namespace DistroDefender.Kvdb

open Base Lib

/-- The operations a thread calls. -/
inductive Req where
  | getKVDBHandler (dbName scopeName : String)
  | createDB (name : String)
  | createDBFromFile (name path : String) (files : Files)
  | deleteDB (name : String)

/-- What an operation returns. -/
inductive Reply (η : Type) where
  | handler (r : RespOrError (KVDBHandler η))
  | done (e : OptError)

/-- Where a thread is in an operation that looks a database up for a handler, or deletes one. -/
inductive Phase (η : Type) where
  | idle
  /-- From the look-up on: the family was dropped meanwhile, or not. A look-up between
  `DropColumnFamily` and `erase` finds a family that was dropped before, and is not marked for
  it. -/
  | obtaining (h : KVDBHandler η) (dropped : Bool)
  /-- The count was zero, and the family is not dropped yet. -/
  | deleting (name : String)

section

variable {ι σ η : Type}

namespace Req

def prog (J : Rapidjson) : Req → KvdbM η (Reply η)
  | .getKVDBHandler dbName scopeName => do return .handler (← Kvdb.getKVDBHandler dbName scopeName)
  | .createDB name => do return .done (← Kvdb.createDB name)
  | .createDBFromFile name path _ => do return .done (← Kvdb.createDBFromFile J name path)
  | .deleteDB name => do return .done (← Kvdb.deleteDB name)

def files : Req → Files
  | .createDBFromFile _ _ files => files
  | _ => noFiles

end Req

/-- Where a call that was answered leaves the thread. -/
def Phase.next (q : Req) : (c : KvdbCall η) → c.Answer → Phase η → Phase η
  | .lookup _, (found : Option η), _ =>
    match q, found with
    | .getKVDBHandler dbName scopeName, some h => .obtaining ⟨h, dbName, scopeName⟩ false
    | _, _ => .idle
  | .getKVDBHandlersCount name, (refCount : UInt32), _ =>
    if refCount ≠ 0 then .idle else .deleting name
  | .find _, (found : Option η), ph => if found.isSome then ph else .idle
  | _, _, _ => .idle

def Phase.after (q : Req) (c : KvdbCall η) (ph : Phase η) :
    EStateM.Result Throw (KVDBManager σ η) c.Answer → Phase η
  | .ok a _ => Phase.next q c a ph
  | .error _ _ => .idle

/-- A manager shared by threads. `live` has the handlers that were returned and not destroyed, with
whether their family was dropped meanwhile; `task` has what is left of every thread's operation. -/
structure Threads (ι σ η : Type) where
  manager : KVDBManager σ η
  live : List (KVDBHandler η × Bool)
  task : ι → Option (Req × KvdbM η (Reply η))
  phase : ι → Phase η

/-- The steps of a thread. -/
inductive Act (η : Type) where
  | start (q : Req)
  | call
  | finish
  | destroy (h : KVDBHandler η)

/-- The family a call drops. -/
def dropOf (R : RocksDB σ η) (m : KVDBManager σ η) : KvdbCall η → Option η
  | .DropColumnFamily h =>
    match (R.DropColumnFamily h).run m.rocksDB with
    | .ok (.ok ()) _ => some h
    | _ => none
  | _ => none

/-- The handler a thread returns when nothing is left but that, with what its phase knows of it. -/
def returned (ph : Phase η) : KvdbM η (Reply η) → List (KVDBHandler η × Bool)
  | .ret (.handler (.ok h)) =>
    match ph with
    | .obtaining _ dropped => [(h, dropped)]
    | _ => [(h, false)]
  | _ => []

variable [DecidableEq ι] [DecidableEq η]

/-- The handlers of a dropped family, alive or on their way, are marked. -/
def mark (d : Option η) (x : KVDBHandler η × Bool) : KVDBHandler η × Bool :=
  (x.1, x.2 || decide (d = some x.1.weakCFHandle))

def Phase.mark (d : Option η) : Phase η → Phase η
  | .obtaining h dropped => .obtaining h (dropped || decide (d = some h.weakCFHandle))
  | ph => ph

/-- One step of thread `i`. A handler counts as returned once it is registered: nothing but the
return is left to do then. -/
inductive ThreadStep (R : RocksDB σ η) (J : Rapidjson) :
    Threads ι σ η → ι × Act η → Threads ι σ η → Prop
  | start {M : Threads ι σ η} {i : ι} (q : Req) (h : M.task i = none) :
      ThreadStep R J M (i, .start q)
        { M with task := Function.update M.task i (some (q, q.prog J)) }
  | call {M : Threads ι σ η} {i : ι} {q : Req} {c : KvdbCall η} {k : c.Answer → KvdbM η (Reply η)}
      (h : M.task i = some (q, .call c k)) :
      ThreadStep R J M (i, .call)
        { manager := resultState ((handle R q.files c).run M.manager)
          live := returned (M.phase i) (Prog.resume k ((handle R q.files c).run M.manager)) ++
            M.live.map (mark (dropOf R M.manager c))
          task := Function.update M.task i
            (some (q, Prog.resume k ((handle R q.files c).run M.manager)))
          phase := Function.update (fun j => (M.phase j).mark (dropOf R M.manager c)) i
            ((M.phase i).after q c ((handle R q.files c).run M.manager)) }
  | finish {M : Threads ι σ η} {i : ι} {q : Req} {p : KvdbM η (Reply η)}
      (h : M.task i = some (q, p)) (hp : p.Over) :
      ThreadStep R J M (i, .finish) { M with task := Function.update M.task i none }
  | destroy {M : Threads ι σ η} {i : ι} {before behind : List (KVDBHandler η × Bool)}
      (h : KVDBHandler η) (dropped : Bool) (hi : M.task i = none)
      (hlive : M.live = before ++ (h, dropped) :: behind) :
      ThreadStep R J M (i, .destroy h)
        { M with
          manager := Kvdb.after R noFiles (Kvdb.destroy h) M.manager
          live := before ++ behind }

/-- The threads of an initialized manager that has given out no handler yet. -/
def threads (R : RocksDB σ η) (J : Rapidjson) : System (Threads ι σ η) (ι × Act η) where
  init M := ∃ s, ((sessions R J).guarded BelowRange).Reachable s ∧ s.manager.isInitialized = true ∧
    s.live = [] ∧ M = ⟨s.manager, [], fun _ => none, fun _ => .idle⟩
  step := ThreadStep R J

/-- No handler that was returned had its family dropped while it was being obtained or alive. -/
def NeverDropped (M : Threads ι σ η) : Prop := ∀ x ∈ M.live, x.2 = false

/-- The condition on a step: no look-up for a handler between the count and the drop of a deletion
of the database, no count for a deletion between the look-up and the registration of a handler of
the database, and no registration beyond the range of the counters. -/
structure Orderly (M : Threads ι σ η) (l : ι × Act η) : Prop where
  lookup : ∀ dbName scopeName name k, l.2 = .call →
    M.task l.1 = some (.getKVDBHandler dbName scopeName, .call (.lookup name) k) →
    ∀ j, M.phase j ≠ .deleting name
  count : ∀ q name k, l.2 = .call → M.task l.1 = some (q, .call (.getKVDBHandlersCount name) k) →
    ∀ j h dropped, M.phase j = .obtaining h dropped → h.dbName ≠ name
  range : ∀ q dbName scopeName k, l.2 = .call →
    M.task l.1 = some (q, .call (.addKVDBHandler dbName scopeName) k) →
    M.live.length + 1 < UInt32.size

end

/-! ## What the programs rely on -/

section

variable {η α β : Type}

/-- The handle was given out for the family `name`; that family may be dropped by now. -/
def Fits (v : View η) (h : η) (name : String) : Prop := v.ref h = .names name ∨ v.ref h = .stale

/-- A handle that fits two names, one of them of a family that is there. -/
theorem Fits.unique {v : View η} {h : η} {n n' : String} (hf : Fits v h n)
    (href : v.ref h = .names n') : n = n' := by
  rcases hf with hf | hf
  · cases hf.symm.trans href
    rfl
  · cases hf.symm.trans href

/-- What fits goes on to fit. -/
def Grows (v v' : View η) : Prop := ∀ h name, Fits v h name → Fits v' h name

theorem Grows.refl (v : View η) : Grows v v := fun _ _ h => h

theorem Grows.of_eq {v v' : View η} (h : v' = v) : Grows v v' := by
  rw [h]
  exact .refl v

theorem Grows.trans {v v' v'' : View η} (h : Grows v v') (h' : Grows v' v'') : Grows v v'' :=
  fun hd name hf => h' hd name (h hd name hf)

theorem Grows.drop (v : View η) (name : String) : Grows v (v.drop name) := by
  intro hd n hf
  unfold Fits
  rw [View.drop_ref]
  split
  · exact .inr rfl
  · exact hf

/-- Before a call: a drop is for the database that is being deleted, through a handle to its
family. -/
def Pre (v : View η) (ph : Phase η) : KvdbCall η → Prop
  | .emplace name h => Fits v h name
  | .find name => ph = .deleting name
  | .DropColumnFamily h => ∃ name, ph = .deleting name ∧ Fits v h name
  | .addKVDBHandler .. | .removeKVDBHandler .. => False
  | _ => True

/-- After a call: the handle it answers fits the name. -/
def Post (v : View η) : (c : KvdbCall η) → c.Answer → Prop
  | .lookup name, (found : Option η) => ∀ h, found = some h → Fits v h name
  | .find name, (found : Option η) => ∀ h, found = some h → Fits v h name
  | .CreateColumnFamily name, (status : Status η) => ∀ h, status = .ok h → Fits v h name
  | _, _ => True

/-- Every call of the program is made where it may be, and what it returns is `ok`. -/
def Safe (q : Req) (ok : α → Prop) : View η → Phase η → KvdbM η α → Prop
  | _, _, .ret a => ok a
  | _, _, .raise _ => True
  | v, ph, .call c k =>
    Pre v ph c ∧ ∀ a v', Grows v v' → Post v' c a → Safe q ok v' (Phase.next q c a ph) (k a)

variable {q : Req} {ok : α → Prop} {ok' : β → Prop} {v v' : View η} {ph : Phase η}

theorem Pre.mono (hv : Grows v v') {c : KvdbCall η} (h : Pre v ph c) : Pre v' ph c := by
  cases c with
  | emplace name hd => exact hv hd name h
  | DropColumnFamily hd =>
    obtain ⟨name, hph, hfits⟩ := h
    exact ⟨name, hph, hv hd name hfits⟩
  | count name | lookup name | find name | erase name | addKVDBHandler db scope
  | removeKVDBHandler db scope | getKVDBHandlersCount db | CreateColumnFamily name
  | Put hd key value | readFile path => exact h

theorem Safe.mono (hv : Grows v v') {p : KvdbM η α} (h : Safe q ok v ph p) : Safe q ok v' ph p := by
  cases p with
  | ret a => exact h
  | raise e => trivial
  | call c k => exact ⟨h.1.mono hv, fun a v'' hv'' => h.2 a v'' (hv.trans hv'')⟩

theorem Safe.bind {p : KvdbM η α} {f : α → KvdbM η β} (hp : Safe q ok v ph p)
    (hf : ∀ a v' ph', ok a → Safe q ok' v' ph' (f a)) : Safe q ok' v ph (p >>= f) := by
  induction p generalizing v ph with
  | ret a => exact hf a v ph hp
  | raise e => trivial
  | call c k ih => exact ⟨hp.1, fun a v' hv hpost => ih a (hp.2 a v' hv hpost)⟩

theorem Safe.call {c : KvdbCall η} {f : c.Answer → KvdbM η α} (hpre : Pre v ph c)
    (hf : ∀ a v', Grows v v' → Post v' c a → Safe q ok v' (Phase.next q c a ph) (f a)) :
    Safe q ok v ph (Kvdb.call c >>= f) := ⟨hpre, hf⟩

theorem safe_deleteDB (q : Req) (v : View η) (ph : Phase η) (name : String) :
    Safe q (fun _ => True) v ph (deleteDB name) := by
  refine .call trivial fun (refCount : UInt32) v₁ _ _ => ?_
  show Safe q _ v₁ (if refCount ≠ 0 then _ else _) (if refCount ≠ 0 then _ else _)
  by_cases hcount : refCount ≠ 0
  · rw [if_pos hcount, if_pos hcount]
    trivial
  · rw [if_neg hcount, if_neg hcount]
    refine .call rfl fun found v₂ _ hfound => ?_
    cases found with
    | none => trivial
    | some h =>
      refine .call ⟨name, rfl, hfound h rfl⟩ fun dropped v₃ _ _ => ?_
      rcases dropped with e | text | u
      · dsimp only
        split
        · trivial
        · trivial
      · trivial
      · exact .call trivial fun _ _ _ _ => trivial

theorem safe_createDB (q : Req) (v : View η) (ph : Phase η) (name : String) :
    Safe q (fun _ => True) v ph (createDB name) := by
  refine .call trivial fun found v₁ _ _ => ?_
  split
  · trivial
  · refine .call trivial fun status v₂ _ hstatus => ?_
    cases status with
    | error text => trivial
    | ok h => exact .call (hstatus h rfl) fun _ _ _ _ => trivial

theorem safe_putAll (q : Req) (v : View η) (ph : Phase η) (h : η)
    (entries : List (String × String)) : Safe q (fun _ => True) v ph (putAll h entries) := by
  induction entries generalizing v ph with
  | nil => trivial
  | cons e entries ih =>
    refine .call trivial fun status v₁ _ _ => ?_
    cases status with
    | error text => trivial
    | ok u => exact ih v₁ _

theorem safe_loadDBFromJson (q : Req) (J : Rapidjson) (v : View η) (ph : Phase η) (name : String)
    (content : Json) : Safe q (fun _ => True) v ph (loadDBFromJson J name content) := by
  refine .call trivial fun found v₁ _ _ => ?_
  cases found with
  | none => trivial
  | some h =>
    dsimp only
    cases getObject content with
    | none => trivial
    | some entries => exact safe_putAll q v₁ _ h _

theorem safe_getContentFromJsonFile (q : Req) (J : Rapidjson) (v : View η) (ph : Phase η)
    (path : String) : Safe q (fun _ => True) v ph (getContentFromJsonFile J path) := by
  unfold getContentFromJsonFile
  split
  · trivial
  · refine .call trivial fun contents v₁ _ _ => ?_
    cases contents with
    | none => trivial
    | some text =>
      dsimp only
      split
      · trivial
      · trivial

theorem safe_createDBFromFile (q : Req) (J : Rapidjson) (v : View η) (ph : Phase η)
    (name path : String) : Safe q (fun _ => True) v ph (createDBFromFile J name path) := by
  refine (safe_getContentFromJsonFile q J v ph path).bind fun content v₁ ph₁ _ => ?_
  cases content with
  | error e => trivial
  | ok content =>
    refine (safe_createDB q v₁ ph₁ name).bind fun errorCreate v₂ ph₂ _ => ?_
    cases errorCreate with
    | some e => trivial
    | none =>
      refine (safe_loadDBFromJson q J v₂ ph₂ name content).bind fun errorLoad v₃ ph₃ _ => ?_
      cases errorLoad with
      | none => trivial
      | some e =>
        refine (safe_deleteDB q v₃ ph₃ name).bind fun errorDelete v₄ ph₄ _ => ?_
        cases errorDelete <;> trivial

/-- The reply is no handler. -/
def NoHandler (r : Reply η) : Prop := ∀ h, r ≠ .handler (.ok h)

theorem returned_eq_nil {p : KvdbM η (Reply η)} {ph' : Phase η} (h : Safe q NoHandler v ph p) :
    returned ph' p = [] := by
  cases p with
  | raise e => rfl
  | call c k => rfl
  | ret r =>
    cases r with
    | done e => rfl
    | handler r =>
      cases r with
      | error e => rfl
      | ok hd => exact absurd rfl (h hd)

/-- A handler is on its way after its look-up. -/
theorem next_eq_obtaining {c : KvdbCall η} {a : c.Answer} {h : KVDBHandler η} {dropped : Bool}
    (hn : Phase.next q c a ph = .obtaining h dropped) :
    (∃ dbName scopeName, q = .getKVDBHandler dbName scopeName) ∨
      ∃ name, c = .find name ∧ ph = .obtaining h dropped := by
  cases c with
  | lookup name =>
    cases q with
    | getKVDBHandler dbName scopeName => exact .inl ⟨dbName, scopeName, rfl⟩
    | createDB name | createDBFromFile name path files | deleteDB name => cases hn
  | find name =>
    change (if Option.isSome (α := η) a then ph else .idle) = _ at hn
    split at hn
    · exact .inr ⟨name, rfl, hn⟩
    · cases hn
  | getKVDBHandlersCount name =>
    change (if (show UInt32 from a) ≠ 0 then Phase.idle else .deleting name) = _ at hn
    split at hn
    · cases hn
    · cases hn
  | count name | emplace name hd | erase name | addKVDBHandler db scope | removeKVDBHandler db scope
  | CreateColumnFamily name | DropColumnFamily hd | Put hd key value | readFile path => cases hn

/-- A deletion is under way after its count. -/
theorem next_eq_deleting {σ : Type} {R : RocksDB σ η} {files : Files} {m m' : KVDBManager σ η}
    {c : KvdbCall η} {a : c.Answer} {name : String} (hrun : (handle R files c).run m = .ok a m')
    (hn : Phase.next q c a ph = .deleting name) :
    (c = .getKVDBHandlersCount name ∧ m.kvdbHandlerCollection.getKVDBHandlersCount name = 0) ∨
      ∃ n, c = .find n ∧ ph = .deleting name := by
  cases c with
  | lookup n =>
    change Option η at a
    cases q with
    | getKVDBHandler dbName scopeName => cases a <;> cases hn
    | createDB name | createDBFromFile name path files | deleteDB name => cases hn
  | find n =>
    change (if Option.isSome (α := η) a then ph else .idle) = _ at hn
    split at hn
    · exact .inr ⟨n, rfl, hn⟩
    · cases hn
  | getKVDBHandlersCount n =>
    cases hrun
    change (if m.kvdbHandlerCollection.getKVDBHandlersCount n ≠ 0 then Phase.idle
      else .deleting n) = _ at hn
    split at hn
    · cases hn
    · rename_i hzero
      cases hn
      exact .inl ⟨rfl, not_not.mp hzero⟩
  | count n | emplace n hd | erase n | addKVDBHandler db scope | removeKVDBHandler db scope
  | CreateColumnFamily n | DropColumnFamily hd | Put hd key value | readFile path => cases hn

/-- What is left of an operation, where the storage shows `v`. -/
inductive Stage (J : Rapidjson) (v : View η) : Req → Phase η → KvdbM η (Reply η) → Prop
  | finished {q : Req} {ph : Phase η} {p : KvdbM η (Reply η)} (h : p.Over) : Stage J v q ph p
  /-- It obtains no handler. -/
  | safe {q : Req} {ph : Phase η} {p : KvdbM η (Reply η)}
      (hq : ∀ dbName scopeName, q ≠ .getKVDBHandler dbName scopeName)
      (h : Safe q NoHandler v ph p) : Stage J v q ph p
  | looking {dbName scopeName : String} {ph : Phase η} :
      Stage J v (.getKVDBHandler dbName scopeName) ph ((Req.getKVDBHandler dbName scopeName).prog J)
  | adding {h : KVDBHandler η} {dropped : Bool} :
      Stage J v (.getKVDBHandler h.dbName h.scopeName) (.obtaining h dropped)
        (.call (.addKVDBHandler h.dbName h.scopeName) fun _ => .ret (.handler (.ok h)))

theorem Stage.mono {J : Rapidjson} {p : KvdbM η (Reply η)} (hv : Grows v v')
    (h : Stage J v q ph p) : Stage J v' q ph p := by
  cases h with
  | finished h => exact .finished h
  | safe hq h => exact .safe hq (h.mono hv)
  | looking => exact .looking
  | adding => exact .adding

/-- An operation begins in its stage. -/
theorem stage_prog (J : Rapidjson) (v : View η) (ph : Phase η) (q : Req) :
    Stage J v q ph (q.prog J) := by
  cases q with
  | getKVDBHandler dbName scopeName => exact .looking
  | createDB name =>
    exact .safe nofun ((safe_createDB _ v ph name).bind fun _ _ _ _ => nofun)
  | createDBFromFile name path files =>
    exact .safe nofun ((safe_createDBFromFile _ J v ph name path).bind fun _ _ _ _ => nofun)
  | deleteDB name =>
    exact .safe nofun ((safe_deleteDB _ v ph name).bind fun _ _ _ _ => nofun)

end

/-! ## What a call does -/

section

variable {ι σ η : Type} [DecidableEq η] {F : FamilyStore σ η} {files : Files}
  {m : KVDBManager σ η}

/-- What the storage shows of a manager. -/
def shown (F : FamilyStore σ η) (m : KVDBManager σ η) : View η := F.view m.rocksDB

theorem Grows.create {v : View η} {name : String} {h : η} (hunused : v.ref h = .unused) :
    Grows v (v.create name h) := by
  intro hd n hf
  have hne : hd ≠ h := by
    rintro rfl
    rcases hf with hf | hf
    · cases hunused.symm.trans hf
    · cases hunused.symm.trans hf
  unfold Fits
  rw [View.create_ref, if_neg hne]
  exact hf

theorem handle_grows (F : FamilyStore σ η) (files : Files) (m : KVDBManager σ η) (c : KvdbCall η) :
    Grows (shown F m) (shown F (resultState ((handle F.toRocksDB files c).run m))) := by
  unfold shown
  cases c with
  | count name | lookup name | find name | emplace name h | erase name | addKVDBHandler db scope
  | removeKVDBHandler db scope | getKVDBHandlersCount db => exact .refl _
  | readFile path =>
    show Grows _ (F.view (resultState ((orThrow (files path)).run m)).rocksDB)
    cases files path <;> exact .refl _
  | CreateColumnFamily name =>
    show Grows _ (F.view (resultState ((onRocksDB (F.CreateColumnFamily name)).run m)).rocksDB)
    rw [resultState_onRocksDB]
    rcases (F.create_does m.rocksDB name).cases with ⟨h, t, hrun, -, hunused, hview⟩ | ⟨-, hview⟩
    · rw [hrun]
      show Grows _ (F.view t)
      rw [hview]
      exact .create hunused
    · exact .of_eq hview
  | DropColumnFamily h =>
    show Grows _ (F.view (resultState ((onRocksDB (caught (F.DropColumnFamily h))).run m)).rocksDB)
    rw [resultState_onRocksDB, resultState_caught]
    rcases (F.drop_does m.rocksDB h).cases with ⟨_, t, hrun, name, -, -, hview⟩ | ⟨-, hview⟩
    · rw [hrun]
      show Grows _ (F.view t)
      rw [hview]
      exact .drop _ name
    · exact .of_eq hview
  | Put h key value =>
    show Grows _ (F.view (resultState ((onRocksDB (F.Put h key value)).run m)).rocksDB)
    rw [resultState_onRocksDB]
    rcases (F.put_does m.rocksDB h key value).cases with
        ⟨_, t, hrun, n, c, -, -, hview⟩ | ⟨-, hview⟩
    · rw [hrun]
      show Grows _ (F.view t)
      rw [hview]
      exact .refl _
    · exact .of_eq hview

/-- Every handle in the map fits its name. -/
def MapFits (F : FamilyStore σ η) (m : KVDBManager σ η) : Prop :=
  ∀ name h, m.mapCFHandles.lookup name = some h → Fits (shown F m) h name

theorem handle_post {c : KvdbCall η} {a : c.Answer} {m' : KVDBManager σ η} (hm : MapFits F m)
    (hrun : (handle F.toRocksDB files c).run m = .ok a m') : Post (shown F m') c a := by
  cases c with
  | lookup name | find name =>
    cases hrun
    exact hm name
  | CreateColumnFamily name =>
    intro h ha
    have hdoes := F.create_does m.rocksDB name
    change (onRocksDB (F.CreateColumnFamily name)).run m = .ok a m' at hrun
    unfold onRocksDB at hrun
    rw [run_onPart] at hrun
    cases hc : (F.CreateColumnFamily name).run m.rocksDB with
    | error e t =>
      rw [hc] at hrun
      cases hrun
    | ok status t =>
      rw [hc] at hrun
      cases hrun
      obtain ⟨-, -, hview⟩ := hdoes.of_ok (hc.trans (by rw [ha]))
      refine .inl ?_
      show (F.view t).ref h = _
      rw [hview, View.create_ref, if_pos rfl]
  | count name | emplace name h | erase name | addKVDBHandler db scope | removeKVDBHandler db scope
  | getKVDBHandlersCount db | DropColumnFamily h | Put h key value | readFile path => trivial

theorem handle_mapFits (files : Files) {c : KvdbCall η} {ph : Phase η} (hm : MapFits F m)
    (hpre : Pre (shown F m) ph c) :
    MapFits F (resultState ((handle F.toRocksDB files c).run m)) := by
  have hgrows := handle_grows F files m c
  have hsame : (resultState ((handle F.toRocksDB files c).run m)).mapCFHandles = m.mapCFHandles →
      MapFits F (resultState ((handle F.toRocksDB files c).run m)) := by
    intro he name h hn
    rw [he] at hn
    exact hgrows h name (hm name h hn)
  cases c with
  | count name | lookup name | find name | getKVDBHandlersCount db => exact hsame rfl
  | addKVDBHandler db scope | removeKVDBHandler db scope => exact hpre.elim
  | CreateColumnFamily name | DropColumnFamily h | Put h key value =>
    exact hsame (onRocksDB_mapCFHandles _ m)
  | readFile path =>
    apply hsame
    show (resultState ((orThrow (files path)).run m)).mapCFHandles = _
    cases files path <;> rfl
  | emplace name h =>
    intro n hd hn
    change (m.mapCFHandles.emplace name h).lookup n = some hd at hn
    cases hl : m.mapCFHandles.lookup name with
    | some w =>
      rw [Map.emplace_of_some hl] at hn
      exact hm n hd hn
    | none =>
      rw [Map.emplace_of_none hl, Map.lookup_insert_eq] at hn
      split at hn
      · rename_i he
        cases hn
        rw [he]
        exact hpre
      · exact hm n hd hn
  | erase name =>
    intro n hd hn
    change (m.mapCFHandles.erase name).lookup n = some hd at hn
    rw [Map.lookup_erase_eq] at hn
    split at hn
    · cases hn
    · exact hm n hd hn

/-- A drop that works was of a handle to a family. -/
theorem dropOf_eq_some {c : KvdbCall η} {h : η} (hd : dropOf F.toRocksDB m c = some h) :
    c = .DropColumnFamily h ∧ ∃ name, (shown F m).ref h = .names name := by
  cases c with
  | DropColumnFamily h' =>
    unfold dropOf at hd
    dsimp only at hd
    split at hd
    · rename_i t hrun
      cases hd
      obtain ⟨name, -, href, -⟩ := (F.drop_does m.rocksDB h).of_ok hrun
      exact ⟨rfl, name, href⟩
    · cases hd
  | count name | lookup name | find name | emplace name h | erase name | addKVDBHandler db scope
  | removeKVDBHandler db scope | getKVDBHandlersCount db | CreateColumnFamily name
  | Put h key value | readFile path => cases hd

/-! ## The invariant -/

variable {J : Rapidjson}

/-- A database under deletion has no handler, and none on its way. -/
structure Inv (F : FamilyStore σ η) (J : Rapidjson) (M : Threads ι σ η) : Prop where
  range : M.live.length < UInt32.size
  counts : M.manager.kvdbHandlerCollection.Counts (M.live.map fun x => x.1.pair)
  live_kept : ∀ x ∈ M.live, x.2 = false
  phase_kept : ∀ i h dropped, M.phase i = .obtaining h dropped → dropped = false
  live_window : ∀ j name, M.phase j = .deleting name → ∀ x ∈ M.live, x.1.dbName ≠ name
  phase_window : ∀ j name i h dropped, M.phase j = .deleting name →
    M.phase i = .obtaining h dropped → h.dbName ≠ name
  map_fits : MapFits F M.manager
  live_fits : ∀ x ∈ M.live, Fits (shown F M.manager) x.1.weakCFHandle x.1.dbName
  phase_fits : ∀ i h dropped, M.phase i = .obtaining h dropped →
    Fits (shown F M.manager) h.weakCFHandle h.dbName
  stage : ∀ i q p, M.task i = some (q, p) → Stage J (shown F M.manager) q (M.phase i) p

theorem map_mark_none (l : List (KVDBHandler η × Bool)) : l.map (mark none) = l := by
  refine (List.map_congr_left fun x _ => ?_).trans (List.map_id l)
  unfold mark
  simp

theorem mark_none (ph : Phase η) : ph.mark none = ph := by
  cases ph <;> simp [Phase.mark]

variable {M : Threads ι σ η} {i : ι}

/-- A drop meets no handler of the family, alive or on its way. -/
theorem Inv.drop_meets_none (hI : Inv F J M) {c : KvdbCall η} {h : η}
    (hpre : Pre (shown F M.manager) (M.phase i) c) (hd : dropOf F.toRocksDB M.manager c = some h) :
    (∀ x ∈ M.live, x.1.weakCFHandle ≠ h) ∧
      ∀ j hh dropped, M.phase j = .obtaining hh dropped → hh.weakCFHandle ≠ h := by
  obtain ⟨rfl, n, href⟩ := dropOf_eq_some hd
  obtain ⟨name, hphase, hfits⟩ := hpre
  cases hfits.unique href
  constructor
  · rintro x hx rfl
    exact hI.live_window i n hphase x hx ((hI.live_fits x hx).unique href)
  · rintro j hh dropped hj rfl
    exact hI.phase_window i n j hh dropped hphase hj ((hI.phase_fits j hh dropped hj).unique href)

/-- So nothing is marked. -/
theorem Inv.mark_live (hI : Inv F J M) {c : KvdbCall η}
    (hpre : Pre (shown F M.manager) (M.phase i) c) :
    M.live.map (mark (dropOf F.toRocksDB M.manager c)) = M.live := by
  cases hd : dropOf F.toRocksDB M.manager c with
  | none => exact map_mark_none M.live
  | some h =>
    refine (List.map_congr_left fun x hx => ?_).trans (List.map_id M.live)
    have hne := (hI.drop_meets_none hpre hd).1 x hx
    unfold mark
    simp [Ne.symm hne]

theorem Inv.mark_phase (hI : Inv F J M) {c : KvdbCall η}
    (hpre : Pre (shown F M.manager) (M.phase i) c) :
    (fun j => (M.phase j).mark (dropOf F.toRocksDB M.manager c)) = M.phase := by
  cases hd : dropOf F.toRocksDB M.manager c with
  | none =>
    funext j
    exact mark_none _
  | some h =>
    funext j
    cases hj : M.phase j with
    | idle | deleting name => rfl
    | obtaining hh dropped =>
      have hne := (hI.drop_meets_none hpre hd).2 j hh dropped hj
      simp [Phase.mark, Ne.symm hne]

theorem inv_destroy (hI : Inv F J M) {before behind : List (KVDBHandler η × Bool)}
    {h : KVDBHandler η} {dropped : Bool} (hlive : M.live = before ++ (h, dropped) :: behind) :
    Inv F J { M with
      manager := Kvdb.after F.toRocksDB noFiles (Kvdb.destroy h) M.manager
      live := before ++ behind } := by
  have hperm : (M.live.map fun x => x.1.pair).Perm
      (h.pair :: (before ++ behind).map fun x => x.1.pair) := by
    rw [hlive]
    exact List.perm_middle.map _
  have hsub : ∀ x ∈ before ++ behind, x ∈ M.live := by
    intro x hx
    rw [hlive]
    rcases List.mem_append.mp hx with hx | hx
    · exact List.mem_append_left _ hx
    · exact List.mem_append_right _ (List.mem_cons_of_mem _ hx)
  have hlen : (before ++ behind).length + 1 = M.live.length := by
    rw [hlive]
    simp only [List.length_append, List.length_cons]
    omega
  have hrange := hI.range
  exact {
    range := show (before ++ behind).length < UInt32.size by omega
    counts := by
      show KVDBHandlerCollection.Counts (M.manager.kvdbHandlerCollection.removeKVDBHandler _ _) _
      apply (hI.counts.perm hperm).removeKVDBHandler
      refine Nat.lt_of_le_of_lt List.count_le_length ?_
      rw [List.length_map]
      omega
    live_kept := fun x hx => hI.live_kept x (hsub x hx)
    phase_kept := hI.phase_kept
    live_window := fun j name hj x hx => hI.live_window j name hj x (hsub x hx)
    phase_window := hI.phase_window
    map_fits := hI.map_fits
    live_fits := fun x hx => hI.live_fits x (hsub x hx)
    phase_fits := hI.phase_fits
    stage := hI.stage }

variable [DecidableEq ι]

/-- A step that leaves the live handlers. -/
theorem Inv.transfer (hI : Inv F J M) {m' : KVDBManager σ η} {q : Req} {ph' : Phase η}
    {rest : KvdbM η (Reply η)}
    (hcoll : m'.kvdbHandlerCollection = M.manager.kvdbHandlerCollection) (hmap : MapFits F m')
    (hgrows : Grows (shown F M.manager) (shown F m')) (hstage : Stage J (shown F m') q ph' rest)
    (hobtaining : ∀ h dropped, ph' = .obtaining h dropped → dropped = false ∧
      Fits (shown F m') h.weakCFHandle h.dbName ∧
        ∀ j name, M.phase j = .deleting name → h.dbName ≠ name)
    (hdeleting : ∀ name, ph' = .deleting name → (∀ x ∈ M.live, x.1.dbName ≠ name) ∧
      ∀ j h dropped, M.phase j = .obtaining h dropped → h.dbName ≠ name) :
    Inv F J ⟨m', M.live, Function.update M.task i (some (q, rest)),
      Function.update M.phase i ph'⟩ where
  range := hI.range
  counts := by
    rw [hcoll]
    exact hI.counts
  live_kept := hI.live_kept
  phase_kept j h dropped hj := by
    change Function.update M.phase i ph' j = _ at hj
    rw [Function.update_apply] at hj
    split at hj
    · exact (hobtaining h dropped hj).1
    · exact hI.phase_kept j h dropped hj
  live_window j name hj := by
    change Function.update M.phase i ph' j = _ at hj
    rw [Function.update_apply] at hj
    split at hj
    · exact (hdeleting name hj).1
    · exact hI.live_window j name hj
  phase_window j name j' h dropped hj hj' := by
    change Function.update M.phase i ph' j = _ at hj
    change Function.update M.phase i ph' j' = _ at hj'
    rw [Function.update_apply] at hj hj'
    split at hj
    · split at hj'
      · cases hj.symm.trans hj'
      · exact (hdeleting name hj).2 j' h dropped hj'
    · split at hj'
      · exact (hobtaining h dropped hj').2.2 j name hj
      · exact hI.phase_window j name j' h dropped hj hj'
  map_fits := hmap
  live_fits x hx := hgrows _ _ (hI.live_fits x hx)
  phase_fits j h dropped hj := by
    change Function.update M.phase i ph' j = _ at hj
    rw [Function.update_apply] at hj
    split at hj
    · exact (hobtaining h dropped hj).2.1
    · exact hgrows _ _ (hI.phase_fits j h dropped hj)
  stage j q' p' hj := by
    change Function.update M.task i _ j = _ at hj
    show Stage J (shown F m') q' (Function.update M.phase i ph' j) p'
    rw [Function.update_apply] at hj ⊢
    split at hj
    · rename_i he
      cases hj
      rw [if_pos he]
      exact hstage
    · rename_i he
      rw [if_neg he]
      exact (hI.stage j q' p' hj).mono hgrows

/-- A call of an operation that obtains no handler. -/
theorem inv_call_safe (hI : Inv F J M) {q : Req} {c : KvdbCall η} {k : c.Answer → KvdbM η (Reply η)}
    (hq : ∀ dbName scopeName, q ≠ .getKVDBHandler dbName scopeName)
    (hsafe : Safe q NoHandler (shown F M.manager) (M.phase i) (.call c k))
    (hg : Orderly M (i, .call)) (htask : M.task i = some (q, .call c k)) :
    Inv F J
      { manager := resultState ((handle F.toRocksDB q.files c).run M.manager)
        live := returned (M.phase i)
          (Prog.resume k ((handle F.toRocksDB q.files c).run M.manager)) ++
          M.live.map (mark (dropOf F.toRocksDB M.manager c))
        task := Function.update M.task i
          (some (q, Prog.resume k ((handle F.toRocksDB q.files c).run M.manager)))
        phase := Function.update (fun j => (M.phase j).mark (dropOf F.toRocksDB M.manager c)) i
          ((M.phase i).after q c ((handle F.toRocksDB q.files c).run M.manager)) } := by
  have hpre := hsafe.1
  have hgrows := handle_grows F q.files M.manager c
  have hmap := handle_mapFits q.files hI.map_fits hpre
  have hcounts : c.counts = false := by
    cases c with
    | addKVDBHandler db scope | removeKVDBHandler db scope => exact hpre.elim
    | count name | lookup name | find name | emplace name h | erase name | getKVDBHandlersCount db
    | CreateColumnFamily name | DropColumnFamily h | Put h key value | readFile path => rfl
  have hcoll := handle_collection F.toRocksDB q.files hcounts M.manager
  rw [hI.mark_live hpre, hI.mark_phase hpre]
  cases hrun : (handle F.toRocksDB q.files c).run M.manager with
  | error e m' =>
    rw [hrun] at hgrows hmap hcoll
    exact hI.transfer hcoll hmap hgrows (.finished (.raise e)) nofun nofun
  | ok a m' =>
    rw [hrun] at hgrows hmap hcoll
    have hrest := hsafe.2 a (shown F m') hgrows (handle_post hI.map_fits hrun)
    rw [show returned (M.phase i) (Prog.resume k (.ok a m')) = [] from returned_eq_nil hrest]
    refine hI.transfer hcoll hmap hgrows (.safe hq hrest) (fun h dropped hph => ?_) fun name hph =>
      ?_
    · rcases next_eq_obtaining hph with ⟨db, scope, he⟩ | ⟨name, rfl, hold⟩
      · exact absurd he (hq db scope)
      · cases hold.symm.trans hpre
    · rcases next_eq_deleting hrun hph with ⟨rfl, hzero⟩ | ⟨n, rfl, hold⟩
      · refine ⟨fun x hx he => ?_, hg.count q name k rfl htask⟩
        refine (hI.counts.getKVDBHandlersCount_eq_zero ?_ name).mp hzero x.1.scopeName ?_
        · rw [List.length_map]
          exact hI.range
        · exact List.mem_map.mpr ⟨x, hx, Prod.ext he rfl⟩
      · exact ⟨hI.live_window i name hold, fun j h dropped =>
          hI.phase_window i name j h dropped hold⟩

/-- The look-up of an operation that obtains a handler. -/
theorem inv_call_lookup (hI : Inv F J M) {dbName scopeName : String} {c : KvdbCall η}
    {k : c.Answer → KvdbM η (Reply η)} (hg : Orderly M (i, .call))
    (htask : M.task i = some (.getKVDBHandler dbName scopeName, .call c k))
    (hprog : (Req.getKVDBHandler dbName scopeName).prog J = .call c k) :
    Inv F J
      { manager := resultState ((handle F.toRocksDB noFiles c).run M.manager)
        live := returned (M.phase i)
          (Prog.resume k ((handle F.toRocksDB noFiles c).run M.manager)) ++
          M.live.map (mark (dropOf F.toRocksDB M.manager c))
        task := Function.update M.task i (some (.getKVDBHandler dbName scopeName,
          Prog.resume k ((handle F.toRocksDB noFiles c).run M.manager)))
        phase := Function.update (fun j => (M.phase j).mark (dropOf F.toRocksDB M.manager c)) i
          ((M.phase i).after (.getKVDBHandler dbName scopeName) c
            ((handle F.toRocksDB noFiles c).run M.manager)) } := by
  have hpre : Pre (shown F M.manager) (M.phase i) c := by
    cases hprog
    trivial
  rw [hI.mark_live hpre, hI.mark_phase hpre]
  cases hprog
  have hrun : (handle F.toRocksDB noFiles (.lookup dbName)).run M.manager =
    .ok (M.manager.mapCFHandles.lookup dbName) M.manager := rfl
  rw [hrun]
  cases hfind : M.manager.mapCFHandles.lookup dbName with
  | none => exact hI.transfer rfl hI.map_fits (.refl _) (.finished (.ret _)) nofun nofun
  | some h =>
    refine hI.transfer rfl hI.map_fits (.refl _) (.adding (h := ⟨h, dbName, scopeName⟩))
      (fun hh dropped hph => ?_) nofun
    cases hph
    refine ⟨rfl, hI.map_fits dbName h hfind, fun j name hj he => ?_⟩
    cases he
    exact hg.lookup dbName scopeName dbName _ rfl htask j hj

/-- The registration of a handler. -/
theorem inv_call_add (hI : Inv F J M) {h : KVDBHandler η} {dropped : Bool}
    (hg : Orderly M (i, .call)) (hphase : M.phase i = .obtaining h dropped)
    (htask : M.task i = some (.getKVDBHandler h.dbName h.scopeName,
      .call (.addKVDBHandler h.dbName h.scopeName) fun _ => .ret (.handler (.ok h)))) :
    Inv F J
      { manager := { M.manager with
          kvdbHandlerCollection :=
            M.manager.kvdbHandlerCollection.addKVDBHandler h.dbName h.scopeName }
        live := (h, dropped) :: M.live
        task := Function.update M.task i
          (some (.getKVDBHandler h.dbName h.scopeName, .ret (.handler (.ok h))))
        phase := Function.update M.phase i .idle } := by
  have hmoved : Inv F J ⟨M.manager, M.live,
      Function.update M.task i
        (some (.getKVDBHandler h.dbName h.scopeName, .ret (.handler (.ok h)))),
      Function.update M.phase i .idle⟩ :=
    hI.transfer rfl hI.map_fits (.refl _) (.finished (.ret _)) nofun nofun
  exact { hmoved with
    range := hg.range _ _ _ _ rfl htask
    counts := hI.counts.addKVDBHandler _ _
    live_kept := by
      intro x hx
      rcases List.mem_cons.mp hx with rfl | hx
      · exact hI.phase_kept i h dropped hphase
      · exact hI.live_kept x hx
    live_window := by
      intro j name hj x hx
      change Function.update M.phase i .idle j = _ at hj
      rcases List.mem_cons.mp hx with rfl | hx
      · rw [Function.update_apply] at hj
        split at hj
        · cases hj
        · exact hI.phase_window j name i h dropped hj hphase
      · exact hmoved.live_window j name hj x hx
    live_fits := by
      intro x hx
      rcases List.mem_cons.mp hx with rfl | hx
      · exact hI.phase_fits i h dropped hphase
      · exact hI.live_fits x hx }

/-- A thread that takes up a request, or is done with one, keeps the invariant. -/
theorem inv_task (hI : Inv F J M) {t : Option (Req × KvdbM η (Reply η))}
    (ht : ∀ q p, t = some (q, p) → Stage J (shown F M.manager) q (M.phase i) p) :
    Inv F J { M with task := Function.update M.task i t } :=
  { hI with
    stage := by
      intro j q p hj
      change Function.update M.task i t j = _ at hj
      rw [Function.update_apply] at hj
      split at hj
      · rename_i hji
        rw [hji]
        exact ht q p hj
      · exact hI.stage j q p hj }

/-- Every step of every thread keeps the invariant, where the runs meet the condition. -/
theorem inv_step (hI : Inv F J M) {l : ι × Act η} {M' : Threads ι σ η} (hg : Orderly M l)
    (hs : ThreadStep F.toRocksDB J M l M') : Inv F J M' := by
  cases hs with
  | @start i q htask =>
    refine inv_task hI fun q' p hq => ?_
    cases hq
    exact stage_prog J _ _ q
  | finish htask hp => exact inv_task hI nofun
  | destroy h dropped htask hlive => exact inv_destroy hI hlive
  | @call i q c k htask =>
    have hstage := hI.stage i q _ htask
    generalize hp : Prog.call c k = p at hstage
    generalize hph : M.phase i = ph at hstage
    cases hstage with
    | finished h =>
      rw [← hp] at h
      exact absurd h Prog.not_over_call
    | safe hq h =>
      subst hph
      rw [← hp] at h
      exact inv_call_safe hI hq h hg htask
    | looking =>
      subst hph
      exact inv_call_lookup hI hg htask hp.symm
    | @adding h dropped =>
      cases hp
      rw [show dropOf F.toRocksDB M.manager (.addKVDBHandler h.dbName h.scopeName) = none from rfl,
        map_mark_none]
      simp only [mark_none]
      exact inv_call_add hI hg hph htask

theorem inv_init (hM : (threads F.toRocksDB J).init M) : Inv F J M := by
  obtain ⟨s, hs, hi, hlive, rfl⟩ := hM
  obtain ⟨hrange, hcounts⟩ := inductive_counts.holds hs
  rw [hlive] at hrange hcounts
  have hmirrors := mirrors_of_reachable hs.of_guarded
  exact {
    range := hrange
    counts := hcounts
    live_kept := nofun
    phase_kept := nofun
    live_window := nofun
    phase_window := nofun
    map_fits := fun name h hn => .inl (hmirrors.refs name h hn)
    live_fits := nofun
    phase_fits := nofun
    stage := nofun }

/-- In every run whose steps meet the condition, no handler's family was dropped while the handler
was being obtained or alive. -/
theorem never_dropped
    (h : ((threads (ι := ι) F.toRocksDB J).guarded Orderly).Reachable M) : NeverDropped M := by
  have hind : ((threads (ι := ι) F.toRocksDB J).guarded Orderly).Inductive (Inv F J) := {
    init := fun _ hM => inv_init hM
    step := fun _ _ _ hI hs => inv_step hI hs.1 hs.2 }
  exact (hind.holds h).live_kept

end

/-! ## Two threads -/

theorem threads_init : (threads (ι := Bool) memRocksDB.toRocksDB noJson).init
    ⟨managerWith "geo" [], [], fun _ => none, fun _ => .idle⟩ :=
  ⟨_, reachable_managerWith "geo" [] noJson rfl, rfl, rfl, rfl⟩

section Sample

/-- The runs of two threads that meet the condition. -/
def orderlyRuns : System (Threads Bool MemRocks Nat) (Bool × Act Nat) :=
  (threads memRocksDB.toRocksDB noJson).guarded Orderly

variable {M : Threads Bool MemRocks Nat} {i : Bool} {q : Req} {c : KvdbCall Nat}
  {k : c.Answer → KvdbM Nat (Reply Nat)} {p : KvdbM Nat (Reply Nat)}

theorem orderly_of_ne {a : Act Nat} (ha : a ≠ .call) : Orderly M (i, a) :=
  ⟨fun _ _ _ _ h => absurd h ha, fun _ _ _ h => absurd h ha, fun _ _ _ _ h => absurd h ha⟩

theorem started (h : orderlyRuns.Reachable M) (hidle : M.task i = none) :
    orderlyRuns.Reachable { M with task := Function.update M.task i (some (q, q.prog noJson)) } :=
  h.step ⟨orderly_of_ne (by simp), .start q hidle⟩

theorem finished (h : orderlyRuns.Reachable M) (htask : M.task i = some (q, p)) (hp : p.Over) :
    orderlyRuns.Reachable { M with task := Function.update M.task i none } :=
  h.step ⟨orderly_of_ne (by simp), .finish htask hp⟩

theorem destroyed {h : KVDBHandler Nat} {behind : List (KVDBHandler Nat × Bool)}
    (hM : orderlyRuns.Reachable M) (hidle : M.task i = none)
    (hlive : M.live = (h, false) :: behind) : orderlyRuns.Reachable { M with
      manager := after memRocksDB.toRocksDB noFiles (destroy h) M.manager, live := behind } := by
  have hfirst : M.live = [] ++ (h, false) :: behind := hlive
  exact hM.step ⟨orderly_of_ne (by simp), .destroy (i := i) h false hidle hfirst⟩

/-- What the manager is after a call. -/
def called (M : Threads Bool MemRocks Nat) (i : Bool) (q : Req) (c : KvdbCall Nat)
    (k : c.Answer → KvdbM Nat (Reply Nat)) : Threads Bool MemRocks Nat where
  manager := resultState ((handle memRocksDB.toRocksDB q.files c).run M.manager)
  live := returned (M.phase i)
      (Prog.resume k ((handle memRocksDB.toRocksDB q.files c).run M.manager)) ++
    M.live.map (mark (dropOf memRocksDB.toRocksDB M.manager c))
  task := Function.update M.task i
    (some (q, Prog.resume k ((handle memRocksDB.toRocksDB q.files c).run M.manager)))
  phase := Function.update (fun j => (M.phase j).mark (dropOf memRocksDB.toRocksDB M.manager c)) i
    ((M.phase i).after q c ((handle memRocksDB.toRocksDB q.files c).run M.manager))

/-- A call that nobody's look-up or deletion is in the way of. -/
theorem called_idle (h : orderlyRuns.Reachable M) (htask : M.task i = some (q, .call c k))
    (hfirst : M.phase true = .idle) (hsecond : M.phase false = .idle)
    (hfew : M.live.length + 1 < UInt32.size) : orderlyRuns.Reachable (called M i q c k) := by
  have hidle : ∀ j, M.phase j = .idle := by
    intro j
    cases j with
    | true => exact hfirst
    | false => exact hsecond
  refine h.step (l := (i, .call))
    ⟨⟨fun _ _ _ _ _ _ j => ?_, fun _ _ _ _ _ j h dropped hj => ?_, fun _ _ _ _ _ _ => hfew⟩,
      .call htask⟩
  · simp [hidle j]
  · cases (hidle j).symm.trans hj

/-- A call that is no look-up and no count. -/
theorem called_other (h : orderlyRuns.Reachable M) (htask : M.task i = some (q, .call c k))
    (hlookup : ∀ name, c ≠ .lookup name) (hcount : ∀ name, c ≠ .getKVDBHandlersCount name)
    (hfew : M.live.length + 1 < UInt32.size) : orderlyRuns.Reachable (called M i q c k) := by
  refine h.step (l := (i, .call))
    ⟨⟨fun _ _ name _ _ hother => ?_, fun _ name _ _ hother => ?_, fun _ _ _ _ _ _ => hfew⟩,
      .call htask⟩
  · cases htask.symm.trans hother
    exact absurd rfl (hlookup name)
  · cases htask.symm.trans hother
    exact absurd rfl (hcount name)

/-- While one thread holds a handler another one fails to delete the database. It is deleted once
the handler is destroyed, and meanwhile a second database is created, of which a handler is
obtained. -/
theorem never_dropped_between : ∃ M : Threads Bool MemRocks Nat,
    M.manager.mapCFHandles.lookup "geo" = none ∧ M.live ≠ [] ∧ NeverDropped M := by
  have h0 : orderlyRuns.Reachable ⟨managerWith "geo" [], [], fun _ => none, fun _ => .idle⟩ :=
    .init threads_init
  have h1 := started (i := true) (q := .getKVDBHandler "geo" "decoder") h0 rfl
  have h2 := called_idle (i := true) h1 rfl rfl rfl (by decide)
  have h3 := started (i := false) (q := .deleteDB "geo") h2 rfl
  have h4 := called_other (i := true) h3 rfl (by simp) (by simp) (by decide)
  have h5 := called_idle (i := false) h4 rfl rfl rfl (by decide)
  have h6 := finished (i := true) h5 rfl (.ret _)
  have h7 := finished (i := false) h6 rfl (.ret _)
  have h8 := destroyed (i := true) h7 rfl rfl
  have h9 := started (i := false) (q := .deleteDB "geo") h8 rfl
  have h10 := called_idle (i := false) h9 rfl rfl rfl (by decide)
  have h11 := started (i := true) (q := .createDB "pack") h10 rfl
  have h12 := called_other (i := true) h11 rfl (by simp) (by simp) (by decide)
  have h13 := called_other (i := false) h12 rfl (by simp) (by simp) (by decide)
  have h14 := called_other (i := true) h13 rfl (by simp) (by simp) (by decide)
  have h15 := called_other (i := false) h14 rfl (by simp) (by simp) (by decide)
  have h16 := called_other (i := true) h15 rfl (by simp) (by simp) (by decide)
  have h17 := called_other (i := false) h16 rfl (by simp) (by simp) (by decide)
  have h18 := finished (i := true) h17 rfl (.ret _)
  have h19 := started (i := true) (q := .getKVDBHandler "pack" "decoder") h18 rfl
  have h20 := called_idle (i := true) h19 rfl rfl rfl (by decide)
  have h21 := called_other (i := true) h20 rfl (by simp) (by simp) (by decide)
  refine ⟨_, ?_, ?_, never_dropped h21⟩
  · rfl
  · exact List.cons_ne_nil _ _

end Sample

/-- One thread looks a database up for a handler, another one deletes it, and the first registers
the handler it returns. -/
theorem inUse_dropped : ∃ M : Threads Bool MemRocks Nat,
    (threads memRocksDB.toRocksDB noJson).Reachable M ∧ ¬ NeverDropped M := by
  have h₁ := (System.Reachable.init threads_init).step
    (ThreadStep.start (i := true) (.getKVDBHandler "geo" "decoder") rfl)
  have h₂ := h₁.step (ThreadStep.call (i := true) rfl)
  have h₃ := h₂.step (ThreadStep.start (i := false) (.deleteDB "geo") rfl)
  have h₄ := h₃.step (ThreadStep.call (i := false) rfl)
  have h₅ := h₄.step (ThreadStep.call (i := false) rfl)
  have h₆ := h₅.step (ThreadStep.call (i := false) rfl)
  have h₇ := h₆.step (ThreadStep.call (i := true) rfl)
  refine ⟨_, h₇, fun h => ?_⟩
  exact absurd (h _ (List.mem_append_left _ (List.mem_singleton.mpr rfl))) (by decide)

end DistroDefender.Kvdb
