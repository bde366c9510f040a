import DistroDefender.Lib.Section
import DistroDefender.Store.Store

/-!
# The store in steps

Every call of the store but those on internal documents holds `mutex_` from its first statement to
its end, and works in steps: on the cache, and on the driver, whose operations are programs of calls
of their own (`DriverProg`). `locked` is the store with clients that take these steps interleaved;
`run_body` says that a call that runs alone does what `Store` says of it.

`updateDoc` takes the lock shared (`mode`) and writes (`need`). Where no other call overlaps it the
histories of the clients are linearizable for the store that answers one call at a time
(`locked_linearizable`).
-/

namespace DistroDefender.Store

open Base Lib

/-- What a locked call asks of the cache. -/
inductive CacheCall where
  | getNamespaceId (name : Name)
  | existsName (name : Name)
  | getNamespaceIds
  | filterByPrefix (pre : Name) (namespaceId : NamespaceId)
  | add (name : Name) (namespaceId : NamespaceId)
  | del (name : Name)
  | delCol (name : Name) (namespaceId : NamespaceId)

def CacheCall.Answer : CacheCall → Type
  | .getNamespaceId _ => Option NamespaceId
  | .existsName _ => Bool
  | .getNamespaceIds => List NamespaceId
  | .filterByPrefix .. => List Name
  | .add .. => Bool
  | .del _ | .delCol .. => Unit

/-- The cache answers. -/
def CacheCall.handle : (c : CacheCall) → Call DBDocNames c.Answer
  | .getNamespaceId name => do return (← get).getNamespaceId name
  | .existsName name => do return (← get).existsName name
  | .getNamespaceIds => do return (← get).getNamespaceIds
  | .filterByPrefix pre namespaceId => do return (← get).filterByPrefix pre namespaceId
  | .add name namespaceId => do
    let (added, cache) := (← get).add name namespaceId
    set cache
    return added
  | .del name => modify fun cache => cache.del name
  | .delCol name namespaceId => modify fun cache => cache.delCol name namespaceId

/-- A driver whose operations are programs of finer calls: those a locked call of the store uses. -/
structure DriverProg (C : Type) (A : C → Type) where
  createDoc : Name → Doc → Prog Throw C A OptError
  readDoc : Name → Prog Throw C A (RespOrError Doc)
  updateDoc : Name → Doc → Prog Throw C A OptError
  upsertDoc : Name → Doc → Prog Throw C A OptError
  deleteDoc : Name → Prog Throw C A OptError
  deleteCol : Name → Prog Throw C A OptError

variable {C : Type} {A : C → Type} {σ E : Type}

/-- Run alone, the programs are the operations of the driver, and reading only reads. -/
structure DriverProg.Implements (P : DriverProg C A) (handle : (c : C) → Call σ (A c))
    (d : IDriver σ) : Prop where
  createDoc : ∀ n c s, (Prog.run handle (P.createDoc n c)).run s = (d.createDoc n c).run s
  updateDoc : ∀ n c s, (Prog.run handle (P.updateDoc n c)).run s = (d.updateDoc n c).run s
  upsertDoc : ∀ n c s, (Prog.run handle (P.upsertDoc n c)).run s = (d.upsertDoc n c).run s
  deleteDoc : ∀ n s, (Prog.run handle (P.deleteDoc n)).run s = (d.deleteDoc n).run s
  deleteCol : ∀ n s, (Prog.run handle (P.deleteCol n)).run s = (d.deleteCol n).run s
  readDoc : ∀ n s, (Prog.run handle (P.readDoc n)).run s = .ok (d.readDoc n s) s
  reads : ∀ n, Prog.Reads handle (P.readDoc n)

/-! A driver whose operations are single calls. -/

/-- The operations of a driver a locked call of the store uses. -/
inductive DriverCall where
  | createDoc (name : Name) (content : Doc)
  | readDoc (name : Name)
  | updateDoc (name : Name) (content : Doc)
  | upsertDoc (name : Name) (content : Doc)
  | deleteDoc (name : Name)
  | deleteCol (name : Name)

def DriverCall.Answer : DriverCall → Type
  | .readDoc _ => RespOrError Doc
  | .createDoc .. | .updateDoc .. | .upsertDoc .. | .deleteDoc _ | .deleteCol _ => OptError

/-- The driver answers. -/
def DriverCall.handle (d : IDriver σ) : (c : DriverCall) → Call σ c.Answer
  | .createDoc name content => d.createDoc name content
  | .readDoc name => do return d.readDoc name (← get)
  | .updateDoc name content => d.updateDoc name content
  | .upsertDoc name content => d.upsertDoc name content
  | .deleteDoc name => d.deleteDoc name
  | .deleteCol name => d.deleteCol name

def DriverProg.whole : DriverProg DriverCall DriverCall.Answer where
  createDoc name content := .call (.createDoc name content) .ret
  readDoc name := .call (.readDoc name) .ret
  updateDoc name content := .call (.updateDoc name content) .ret
  upsertDoc name content := .call (.upsertDoc name content) .ret
  deleteDoc name := .call (.deleteDoc name) .ret
  deleteCol name := .call (.deleteCol name) .ret

theorem DriverProg.whole_implements (d : IDriver σ) : whole.Implements (DriverCall.handle d) d where
  createDoc name content := Prog.run_single (DriverCall.handle d) (.createDoc name content)
  readDoc name := Prog.run_single (DriverCall.handle d) (.readDoc name)
  updateDoc name content := Prog.run_single (DriverCall.handle d) (.updateDoc name content)
  upsertDoc name content := Prog.run_single (DriverCall.handle d) (.upsertDoc name content)
  deleteDoc name := Prog.run_single (DriverCall.handle d) (.deleteDoc name)
  deleteCol name := Prog.run_single (DriverCall.handle d) (.deleteCol name)
  reads _ := .call (fun _ => rfl) .ret

/-- The calls that hold the lock. -/
inductive LockedCall where
  | getNamespace (name : Name)
  | readDoc (name : Name)
  | listNamespaces
  | readCol (name : Name) (namespaceId : NamespaceId)
  | existsDoc (name : Name)
  | existsCol (name : Name) (namespaceId : NamespaceId)
  | createDoc (name : Name) (namespaceId : NamespaceId) (content : Doc)
  | updateDoc (name : Name) (content : Doc)
  | upsertDoc (name : Name) (namespaceId : NamespaceId) (content : Doc)
  | deleteDoc (name : Name)
  | deleteCol (name : Name) (namespaceId : NamespaceId)

/-- What they answer. -/
inductive LockedAnswer where
  | namespaceId (r : Option NamespaceId)
  | doc (r : RespOrError Doc)
  | namespaces (r : List NamespaceId)
  | col (r : RespOrError Col)
  | found (r : Bool)
  | done (r : OptError)

namespace LockedCall

/-- How the code takes the lock: `std::shared_lock` or `std::unique_lock`. -/
def mode : LockedCall → Mode
  | .getNamespace _ | .readDoc _ | .listNamespaces | .readCol .. | .existsDoc _ | .existsCol ..
  | .updateDoc .. => .shared
  | .createDoc .. | .upsertDoc .. | .deleteDoc _ | .deleteCol .. => .exclusive

/-- Shared for the calls that only read. -/
def need : LockedCall → Mode
  | .updateDoc .. => .exclusive
  | q => q.mode

end LockedCall

/-! ## The calls as programs -/

namespace Stepwise

/-- The steps of a call of the store: on the cache or by the driver. -/
inductive Step (C : Type) where
  | cache (c : CacheCall)
  | driver (c : C)

def Step.Answer (A : C → Type) : Step C → Type
  | .cache c => c.Answer
  | .driver c => A c

abbrev StoreProg (A : C → Type) := Prog Throw (Step C) (Step.Answer A)

/-! Calls of `cache_`. -/

def getNamespaceId (name : Name) : StoreProg A (Option NamespaceId) :=
  .call (.cache (.getNamespaceId name)) .ret

def existsName (name : Name) : StoreProg A Bool := .call (.cache (.existsName name)) .ret

def getNamespaceIds : StoreProg A (List NamespaceId) := .call (.cache .getNamespaceIds) .ret

def filterByPrefix (pre : Name) (namespaceId : NamespaceId) : StoreProg A (List Name) :=
  .call (.cache (.filterByPrefix pre namespaceId)) .ret

def add (name : Name) (namespaceId : NamespaceId) : StoreProg A Bool :=
  .call (.cache (.add name namespaceId)) .ret

def del (name : Name) : StoreProg A Unit := .call (.cache (.del name)) .ret

def delCol (name : Name) (namespaceId : NamespaceId) : StoreProg A Unit :=
  .call (.cache (.delCol name namespaceId)) .ret

/-- One call of the driver's. -/
def driverCall (c : C) : StoreProg A (A c) := .call (.driver c) .ret

/-- An operation of the driver. -/
def driver {α : Type} (p : Prog Throw C A α) : StoreProg A α := .expand driverCall p

variable (P : DriverProg C A)

def getNamespace (name : Name) : StoreProg A (Option NamespaceId) := getNamespaceId name

def readDoc (name : Name) : StoreProg A (RespOrError Doc) := do
  match ← getNamespaceId name with
  | none => return .error ⟨"Document does not exist"⟩
  | some namespaceId =>
    let rname ← Prog.ofExcept (virtualToRealName name namespaceId)
    driver (P.readDoc rname)

def listNamespaces : StoreProg A (List NamespaceId) := getNamespaceIds

def readCol (name : Name) (namespaceId : NamespaceId) : StoreProg A (RespOrError Col) := do
  let vcol ← filterByPrefix name namespaceId
  if vcol = [] then
    return .error
      ⟨s!"Collection '{name.toStr}' does not exist on namespace '{namespaceId.id.toStr}'"⟩
  return .ok (cutName vcol name.parts.length)

def existsDoc (name : Name) : StoreProg A Bool := existsName name

def existsCol (name : Name) (namespaceId : NamespaceId) : StoreProg A Bool := do
  let col ← filterByPrefix name namespaceId
  return !col.isEmpty

def createDoc (name : Name) (namespaceId : NamespaceId) (content : Doc) : StoreProg A OptError := do
  if ← existsName name then
    return some ⟨"Document already exists"⟩
  let rName ← Prog.ofExcept (virtualToRealName name namespaceId)
  let error ← driver (P.createDoc rName content)
  if error.isSome then
    return error
  let _ ← add name namespaceId
  return none

def updateDoc (name : Name) (content : Doc) : StoreProg A OptError := do
  match ← getNamespaceId name with
  | none => return some ⟨"Document does not exist"⟩
  | some namespaceId =>
    let rName ← Prog.ofExcept (virtualToRealName name namespaceId)
    driver (P.updateDoc rName content)

def upsertDoc (name : Name) (namespaceId : NamespaceId) (content : Doc) : StoreProg A OptError := do
  let namespaceIdCache ← getNamespaceId name
  if namespaceIdCache.isSome ∧ namespaceIdCache ≠ some namespaceId then
    return some ⟨"Document already exists in another namespace"⟩
  let rName ← Prog.ofExcept (virtualToRealName name namespaceId)
  let error ← driver (P.upsertDoc rName content)
  if error.isSome then
    return error
  if namespaceIdCache.isNone then
    let _ ← add name namespaceId
  return none

def deleteDoc (name : Name) : StoreProg A OptError := do
  match ← getNamespaceId name with
  | none => return some ⟨"Document does not exist"⟩
  | some namespaceId =>
    let rName ← Prog.ofExcept (virtualToRealName name namespaceId)
    let error ← driver (P.deleteDoc rName)
    if error.isSome then
      return error
    del name
    return none

def deleteCol (name : Name) (namespaceId : NamespaceId) : StoreProg A OptError := do
  if (← filterByPrefix name namespaceId) = [] then
    return some ⟨"Collection does not exist"⟩
  let rName ← Prog.ofExcept (virtualToRealName name namespaceId)
  let error ← driver (P.deleteCol rName)
  if error.isSome then
    return error
  delCol name namespaceId
  return none

/-- The program of a call. -/
def body : LockedCall → StoreProg A LockedAnswer
  | .getNamespace name => .namespaceId <$> getNamespace name
  | .readDoc name => .doc <$> readDoc P name
  | .listNamespaces => .namespaces <$> listNamespaces
  | .readCol name namespaceId => .col <$> readCol name namespaceId
  | .existsDoc name => .found <$> existsDoc name
  | .existsCol name namespaceId => .found <$> existsCol name namespaceId
  | .createDoc name namespaceId content => .done <$> createDoc P name namespaceId content
  | .updateDoc name content => .done <$> updateDoc P name content
  | .upsertDoc name namespaceId content => .done <$> upsertDoc P name namespaceId content
  | .deleteDoc name => .done <$> deleteDoc P name
  | .deleteCol name namespaceId => .done <$> deleteCol P name namespaceId

/-- A step of a call. -/
def handle (h : (c : C) → Call σ (A c)) : (c : Step C) → Call (Store σ) (c.Answer A)
  | .cache c => onPart Store.cache (fun t s => { s with cache := t }) c.handle
  | .driver c => onDriver (h c)

end Stepwise

/-- A call, run alone. -/
def perform (d : IDriver σ) : LockedCall → Call (Store σ) LockedAnswer
  | .getNamespace name => do return .namespaceId (Store.getNamespace (← get) name)
  | .readDoc name => do return .doc (← orThrow (Store.readDoc d (← get) name))
  | .listNamespaces => do return .namespaces (Store.listNamespaces (← get))
  | .readCol name namespaceId => do return .col (Store.readCol (← get) name namespaceId)
  | .existsDoc name => do return .found (Store.existsDoc (← get) name)
  | .existsCol name namespaceId => do return .found (Store.existsCol (← get) name namespaceId)
  | .createDoc name namespaceId content => .done <$> createDoc d name namespaceId content
  | .updateDoc name content => .done <$> updateDoc d name content
  | .upsertDoc name namespaceId content => .done <$> upsertDoc d name namespaceId content
  | .deleteDoc name => .done <$> deleteDoc d name
  | .deleteCol name namespaceId => .done <$> deleteCol d name namespaceId

/-! ## A call run alone -/

namespace Stepwise

section

variable {h : (c : C) → Call σ (A c)} {P : DriverProg C A} {d : IDriver σ}

theorem run_map {α β : Type} (f : α → β) (p : StoreProg A α) (s : Store σ) :
    (Prog.run (handle h) (f <$> p)).run s = (f <$> Prog.run (handle h) p).run s := by
  show (Prog.run (handle h) (p >>= fun a => .ret (f a))).run s = _
  rw [Prog.run_bind]
  rfl

theorem run_getNamespaceId {α : Type} (name : Name) (f : Option NamespaceId → StoreProg A α)
    (s : Store σ) :
    (Prog.run (handle h) (getNamespaceId name >>= f)).run s =
      (Prog.run (handle h) (f (s.cache.getNamespaceId name))).run s := rfl

theorem run_existsName {α : Type} (name : Name) (f : Bool → StoreProg A α) (s : Store σ) :
    (Prog.run (handle h) (existsName name >>= f)).run s =
      (Prog.run (handle h) (f (s.cache.existsName name))).run s := rfl

theorem run_filterByPrefix {α : Type} (pre : Name) (ns : NamespaceId)
    (f : List Name → StoreProg A α) (s : Store σ) :
    (Prog.run (handle h) (filterByPrefix pre ns >>= f)).run s =
      (Prog.run (handle h) (f (s.cache.filterByPrefix pre ns))).run s := rfl

/-- An operation of the driver runs on the driver. -/
theorem run_driver {α : Type} (p : Prog Throw C A α) (s : Store σ) :
    (Prog.run (handle h) (driver p)).run s = (onDriver (Prog.run h p)).run s := by
  unfold driver onDriver
  refine (Prog.run_expand
    (g := fun c => onPart Store.driver (fun t s => { s with driver := t }) (h c))
    (fun c s => ?_) p s).trans ?_
  · exact Prog.run_single (handle h) (.driver c) s
  · refine Prog.run_onPart ?_ ?_ ?_ h p s
    · exact fun _ _ => rfl
    · exact fun _ _ _ => rfl
    · exact fun _ => rfl

/-- An operation of the driver in the middle of a call. -/
theorem run_driver_bind {β : Type} {p : Prog Throw C A OptError} {x : Call σ OptError}
    (hp : ∀ t, (Prog.run h p).run t = x.run t) (f : OptError → StoreProg A β) (s : Store σ) :
    (Prog.run (handle h) (driver p >>= f)).run s =
      (onDriver x >>= fun e => Prog.run (handle h) (f e)).run s := by
  rw [Prog.run_bind, EStateM.run_bind, EStateM.run_bind, run_driver]
  unfold onDriver
  rw [run_onPart, run_onPart, hp]

theorem run_readDoc (hP : P.Implements h d) (name : Name) (s : Store σ) :
    (Prog.run (handle h) (readDoc P name)).run s = (orThrow (Store.readDoc d s name)).run s := by
  unfold readDoc Store.readDoc
  rw [run_getNamespaceId]
  cases s.cache.getNamespaceId name with
  | none => rfl
  | some ns =>
    simp only
    cases hr : virtualToRealName name ns with
    | error e => rfl
    | ok r =>
      show (Prog.run (handle h) (driver (P.readDoc r))).run s = .ok (d.readDoc r s.driver) s
      rw [run_driver]
      unfold onDriver
      rw [run_onPart, hP.readDoc]

theorem run_readCol (name : Name) (ns : NamespaceId) (s : Store σ) :
    (Prog.run (handle h) (readCol name ns : StoreProg A _)).run s =
      .ok (Store.readCol s name ns) s := by
  unfold readCol Store.readCol
  rw [run_filterByPrefix]
  by_cases hcol : s.cache.filterByPrefix name ns = []
  · simp only [hcol, if_true]
    rfl
  · simp only [hcol, if_false]
    rfl

theorem run_existsCol (name : Name) (ns : NamespaceId) (s : Store σ) :
    (Prog.run (handle h) (existsCol name ns : StoreProg A _)).run s =
      .ok (Store.existsCol s name ns) s := by
  unfold existsCol
  rw [run_filterByPrefix]
  rfl

/-- The end of a mutating call: the operation of the driver, and the cache when it succeeded. -/
theorem run_driver_then {p : Prog Throw C A OptError} {x : Call σ OptError}
    (hp : ∀ t, (Prog.run h p).run t = x.run t) {f : OptError → StoreProg A OptError}
    {u : DBDocNames → DBDocNames} (hfail : ∀ e, f (some e) = .ret (some e))
    (hdone : ∀ s : Store σ, (Prog.run (handle h) (f none)).run s =
      .ok none { s with cache := u s.cache })
    (s : Store σ) :
    (Prog.run (handle h) (driver p >>= f)).run s = finish s (u s.cache) (x.run s.driver) := by
  rw [run_driver_bind hp, EStateM.run_bind, run_onDriver]
  rcases x.run s.driver with ⟨_ | e, t⟩ | ⟨e, t⟩
  · exact hdone _
  · show (Prog.run (handle h) (f (some e))).run _ = _
    rw [hfail]
    rfl
  · rfl

theorem run_createDoc (hP : P.Implements h d) (name : Name) (ns : NamespaceId) (content : Doc)
    (s : Store σ) :
    (Prog.run (handle h) (createDoc P name ns content)).run s =
      (Store.createDoc d name ns content).run s := by
  rw [Store.run_createDoc]
  unfold createDoc
  rw [run_existsName]
  cases s.cache.existsName name with
  | true => rfl
  | false =>
    simp only [Bool.false_eq_true, if_false]
    cases virtualToRealName name ns with
    | error e => rfl
    | ok r =>
      refine run_driver_then (u := fun c => (c.add name ns).2) (hP.createDoc r content) ?_ ?_ s
      · exact fun _ => rfl
      · exact fun _ => rfl

theorem run_updateDoc (hP : P.Implements h d) (name : Name) (content : Doc) (s : Store σ) :
    (Prog.run (handle h) (updateDoc P name content)).run s =
      (Store.updateDoc d name content).run s := by
  rw [Store.run_updateDoc]
  unfold updateDoc
  rw [run_getNamespaceId]
  cases s.cache.getNamespaceId name with
  | none => rfl
  | some ns =>
    simp only
    cases virtualToRealName name ns with
    | error e => rfl
    | ok r =>
      show (Prog.run (handle h) (driver (P.updateDoc r content))).run s = _
      rw [run_driver, run_onDriver, hP.updateDoc]

theorem run_upsertDoc (hP : P.Implements h d) (name : Name) (ns : NamespaceId) (content : Doc)
    (s : Store σ) :
    (Prog.run (handle h) (upsertDoc P name ns content)).run s =
      (Store.upsertDoc d name ns content).run s := by
  rw [Store.run_upsertDoc]
  unfold upsertDoc
  rw [run_getNamespaceId]
  show (Prog.run (handle h) (if (s.cache.getNamespaceId name).isSome ∧
    s.cache.getNamespaceId name ≠ some ns then _ else _)).run s = _
  split
  · rfl
  · cases virtualToRealName name ns with
    | error e => rfl
    | ok r =>
      cases hc : s.cache.getNamespaceId name with
      | none =>
        refine run_driver_then (u := fun c => (c.add name ns).2) (hP.upsertDoc r content) ?_ ?_ s
        · exact fun _ => rfl
        · exact fun _ => rfl
      | some ns' =>
        have hadd : (s.cache.add name ns).2 = s.cache :=
          DBDocNames.add_of_exists (by
            simp only [DBDocNames.existsName, DBDocNames.getNamespaceId] at hc ⊢
            simp [hc])
        rw [hadd]
        refine run_driver_then (u := id) (hP.upsertDoc r content) ?_ ?_ s
        · exact fun _ => rfl
        · exact fun _ => rfl

theorem run_deleteDoc (hP : P.Implements h d) (name : Name) (s : Store σ) :
    (Prog.run (handle h) (deleteDoc P name)).run s = (Store.deleteDoc d name).run s := by
  rw [Store.run_deleteDoc]
  unfold deleteDoc
  rw [run_getNamespaceId]
  cases s.cache.getNamespaceId name with
  | none => rfl
  | some ns =>
    simp only
    cases virtualToRealName name ns with
    | error e => rfl
    | ok r =>
      refine run_driver_then (u := fun c => c.del name) (hP.deleteDoc r) ?_ ?_ s
      · exact fun _ => rfl
      · exact fun _ => rfl

theorem run_deleteCol (hP : P.Implements h d) (name : Name) (ns : NamespaceId) (s : Store σ) :
    (Prog.run (handle h) (deleteCol P name ns)).run s = (Store.deleteCol d name ns).run s := by
  rw [Store.run_deleteCol]
  unfold deleteCol
  rw [run_filterByPrefix]
  show (Prog.run (handle h) (if s.cache.filterByPrefix name ns = [] then _ else _)).run s = _
  split
  · rfl
  · cases virtualToRealName name ns with
    | error e => rfl
    | ok r =>
      refine run_driver_then (u := fun c => c.delCol name ns) (hP.deleteCol r) ?_ ?_ s
      · exact fun _ => rfl
      · exact fun _ => rfl

/-- A call that runs alone does what the store says of it. -/
theorem run_body (hP : P.Implements h d) (q : LockedCall) (s : Store σ) :
    (Prog.run (handle h) (body P q)).run s = (perform d q).run s := by
  cases q with
  | getNamespace name => rfl
  | readDoc name =>
    show (Prog.run (handle h) (LockedAnswer.doc <$> readDoc P name)).run s = _
    rw [run_map, run_fmap, run_readDoc hP]
    show _ = (orThrow (Store.readDoc d s name) >>= fun r => pure (LockedAnswer.doc r)).run s
    cases Store.readDoc d s name <;> rfl
  | listNamespaces => rfl
  | readCol name ns =>
    show (Prog.run (handle h) (LockedAnswer.col <$> readCol name ns)).run s = _
    rw [run_map, run_fmap, run_readCol]
    rfl
  | existsDoc name => rfl
  | existsCol name ns =>
    show (Prog.run (handle h) (LockedAnswer.found <$> existsCol name ns)).run s = _
    rw [run_map, run_fmap, run_existsCol]
    rfl
  | createDoc name ns content =>
    show (Prog.run (handle h) (LockedAnswer.done <$> createDoc P name ns content)).run s = _
    rw [run_map, run_fmap, run_createDoc hP]
    rfl
  | updateDoc name content =>
    show (Prog.run (handle h) (LockedAnswer.done <$> updateDoc P name content)).run s = _
    rw [run_map, run_fmap, run_updateDoc hP]
    rfl
  | upsertDoc name ns content =>
    show (Prog.run (handle h) (LockedAnswer.done <$> upsertDoc P name ns content)).run s = _
    rw [run_map, run_fmap, run_upsertDoc hP]
    rfl
  | deleteDoc name =>
    show (Prog.run (handle h) (LockedAnswer.done <$> deleteDoc P name)).run s = _
    rw [run_map, run_fmap, run_deleteDoc hP]
    rfl
  | deleteCol name ns =>
    show (Prog.run (handle h) (LockedAnswer.done <$> deleteCol P name ns)).run s = _
    rw [run_map, run_fmap, run_deleteCol hP]
    rfl

/-! ## The calls that only read -/

theorem reads_getNamespaceId (name : Name) :
    Prog.Reads (handle h) (getNamespaceId name : StoreProg A _) := .call (fun _ => rfl) .ret

theorem reads_filterByPrefix (pre : Name) (ns : NamespaceId) :
    Prog.Reads (handle h) (filterByPrefix pre ns : StoreProg A _) := .call (fun _ => rfl) .ret

theorem reads_driver {α : Type} {p : Prog Throw C A α} (hp : Prog.Reads h p) :
    Prog.Reads (handle h) (driver p) := by
  have hpart : Prog.Reads (fun c => onDriver (h c)) p := by
    refine Prog.Reads.onPart ?_ hp
    exact fun s => rfl
  refine hpart.expand fun c hc => ?_
  exact .call (c := Step.driver c) hc .ret

theorem reads_readDoc (hP : ∀ n, Prog.Reads h (P.readDoc n)) (name : Name) :
    Prog.Reads (handle h) (readDoc P name) := by
  refine .bind (reads_getNamespaceId name) fun found => ?_
  cases found with
  | none => exact .ret _
  | some ns => exact .bind (.ofExcept _) fun r => reads_driver (hP r)

theorem reads_readCol (name : Name) (ns : NamespaceId) :
    Prog.Reads (handle h) (readCol name ns : StoreProg A _) := by
  refine .bind (reads_filterByPrefix name ns) fun vcol => ?_
  split <;> exact .ret _

/-- A call that does not need the lock for itself only reads. -/
theorem reads_body (hP : ∀ n, Prog.Reads h (P.readDoc n)) {q : LockedCall} (hq : q.need = .shared) :
    Prog.Reads (handle h) (body P q) := by
  cases q with
  | getNamespace name => exact .bind (reads_getNamespaceId name) fun _ => .ret _
  | readDoc name => exact .bind (reads_readDoc hP name) fun _ => .ret _
  | listNamespaces => exact .bind (.call (fun _ => rfl) .ret) fun _ => .ret _
  | readCol name ns => exact .bind (reads_readCol name ns) fun _ => .ret _
  | existsDoc name => exact .bind (.call (fun _ => rfl) .ret) fun _ => .ret _
  | existsCol name ns =>
    exact .bind (.bind (reads_filterByPrefix name ns) fun _ => .ret _) fun _ => .ret _
  | createDoc | updateDoc | upsertDoc | deleteDoc | deleteCol => cases hq

end

end Stepwise

/-! ## The histories of the clients -/

/-- The store with its clients, from the state `s₀`. A call comes with how what the driver asks of
its surroundings goes. -/
def locked (P : E → DriverProg C A) (h : (c : C) → Call σ (A c)) (s₀ : Store σ) :
    Locked Throw (Stepwise.Step C) (Stepwise.Step.Answer A) (Store σ)
      (LockedCall × E) LockedAnswer where
  init s := s = s₀
  handle := Stepwise.handle h
  mode q := q.1.mode
  body q := Stepwise.body (P q.2) q.1

/-- The store, one call at a time. -/
def sequential (d : E → IDriver σ) (s₀ : Store σ) :
    Object (Store σ) (LockedCall × E) (Except Throw LockedAnswer) where
  init s := s = s₀
  step s q r s' :=
    answer ((perform (d q.2) q.1).run s) = r ∧ resultState ((perform (d q.2) q.1).run s) = s'

/-- The runs in which an `updateDoc` that holds the lock shares it with nobody. -/
abbrev UpdatesApart {ι : Type} (x : Store σ × (ι → Locked.Phase Throw (Stepwise.Step C)
    (Stepwise.Step.Answer A) (LockedCall × E) LockedAnswer))
    (l : ι × Locked.Act Throw (LockedCall × E) LockedAnswer) : Prop :=
  Locked.Apart (fun q => q.1.need) x l

section

variable {P : E → DriverProg C A} {h : (c : C) → Call σ (A c)} {d : E → IDriver σ} {s₀ : Store σ}

theorem locked_refines (hP : ∀ e, (P e).Implements h (d e)) :
    Object.Refines (locked P h s₀).object (sequential d s₀) Eq where
  init s hs := ⟨s, hs, rfl⟩
  step := by
    rintro s _ q r s' rfl ⟨hr, hs'⟩
    have hrun := Stepwise.run_body (hP q.2) q.1 s
    refine ⟨s', ⟨?_, ?_⟩, rfl⟩
    · rw [← hrun]
      exact hr
    · rw [← hrun]
      exact hs'

/-- What the clients see of interleaved calls, calls that run one at a time show them, too. -/
theorem locked_linearizable (hP : ∀ e, (P e).Implements h (d e)) {ι : Type} [DecidableEq ι]
    {ls : List (ι × Locked.Act Throw (LockedCall × E) LockedAnswer)} {x}
    (hls : (((locked P h s₀).system ι).guarded UpdatesApart).Trace ls x) :
    (sequential d s₀).Linearizable (Locked.history ls) :=
  (locked_refines hP).linearizable
    (Locked.linearizable (fun q hq => Stepwise.reads_body (hP q.2).reads hq) hls)

end

end DistroDefender.Store
