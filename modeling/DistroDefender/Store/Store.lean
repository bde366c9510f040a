import DistroDefender.Store.DBDocNames
import DistroDefender.Store.Driver

/-!
# The store

`store::Store` keeps documents in a driver under their real names and the cache of their virtual
names beside it. Reads answer from the cache and fetch content from the driver; every mutating call
asks the driver first and touches the cache only when the driver succeeded.

The run equations (`run_createDoc` and its siblings) say what each mutating call does for every
answer of the driver; everything about the store below is derived from them.
-/

namespace DistroDefender.Store

open Base Lib

set_option linter.dupNamespace false in
/-- `store::Store`: the cache and the state of the driver. -/
structure Store (σ : Type) where
  cache : DBDocNames
  driver : σ

variable {σ : Type}

/-- A driver call of the store. -/
def onDriver {α : Type} (x : Call σ α) : Call (Store σ) α :=
  onPart Store.driver (fun t s => { s with driver := t }) x

variable (d : IDriver σ)

/-! ## Reads -/

def getNamespace (s : Store σ) (name : Name) : Option NamespaceId := s.cache.getNamespaceId name

def readDoc (s : Store σ) (name : Name) : Except Throw (RespOrError Doc) :=
  match s.cache.getNamespaceId name with
  | none => .ok (.error ⟨"Document does not exist"⟩)
  | some namespaceId => do
    let rname ← virtualToRealName name namespaceId
    return d.readDoc rname s.driver

def listNamespaces (s : Store σ) : List NamespaceId := s.cache.getNamespaceIds

/-- The first `k + 1` parts of a name. -/
def takeParts (n : Name) (k : Nat) : Name where
  parts := n.parts.take (k + 1)
  parts_ne := by simp [n.parts_ne]
  parts_le := (List.length_take_le' _ _).trans n.parts_le
  parts_nonempty p hp := n.parts_nonempty p (List.mem_of_mem_take hp)

/-- `cutName` with its default depth: the beginnings of `size + 1` parts, as a set. -/
def cutName (names : List Name) (size : Nat) : List Name :=
  sortedSet ((names.filter fun n => n.parts.length ≥ size + 1).map fun n => takeParts n size)

def readCol (s : Store σ) (name : Name) (namespaceId : NamespaceId) : RespOrError Col :=
  let vcol := s.cache.filterByPrefix name namespaceId
  if vcol = [] then
    .error ⟨s!"Collection '{name.toStr}' does not exist on namespace '{namespaceId.id.toStr}'"⟩
  else .ok (cutName vcol name.parts.length)

def existsDoc (s : Store σ) (name : Name) : Bool := s.cache.existsName name

def existsCol (s : Store σ) (name : Name) (namespaceId : NamespaceId) : Bool :=
  !(s.cache.filterByPrefix name namespaceId).isEmpty

/-! ## Documents -/

def createDoc (name : Name) (namespaceId : NamespaceId) (content : Doc) :
    Call (Store σ) OptError := do
  let s ← get
  if s.cache.existsName name then
    return some ⟨"Document already exists"⟩
  let rName ← orThrow (virtualToRealName name namespaceId)
  let error ← onDriver (d.createDoc rName content)
  if error.isSome then
    return error
  modify fun s => { s with cache := (s.cache.add name namespaceId).2 }
  return none

def updateDoc (name : Name) (content : Doc) : Call (Store σ) OptError := do
  let s ← get
  match s.cache.getNamespaceId name with
  | none => return some ⟨"Document does not exist"⟩
  | some namespaceId =>
    let rName ← orThrow (virtualToRealName name namespaceId)
    onDriver (d.updateDoc rName content)

def upsertDoc (name : Name) (namespaceId : NamespaceId) (content : Doc) :
    Call (Store σ) OptError := do
  let s ← get
  let namespaceIdCache := s.cache.getNamespaceId name
  if namespaceIdCache.isSome ∧ namespaceIdCache ≠ some namespaceId then
    return some ⟨"Document already exists in another namespace"⟩
  let rName ← orThrow (virtualToRealName name namespaceId)
  let error ← onDriver (d.upsertDoc rName content)
  if error.isSome then
    return error
  if namespaceIdCache.isNone then
    modify fun s => { s with cache := (s.cache.add name namespaceId).2 }
  return none

def deleteDoc (name : Name) : Call (Store σ) OptError := do
  let s ← get
  match s.cache.getNamespaceId name with
  | none => return some ⟨"Document does not exist"⟩
  | some namespaceId =>
    let rName ← orThrow (virtualToRealName name namespaceId)
    let error ← onDriver (d.deleteDoc rName)
    if error.isSome then
      return error
    modify fun s => { s with cache := s.cache.del name }
    return none

def deleteCol (name : Name) (namespaceId : NamespaceId) : Call (Store σ) OptError := do
  let s ← get
  if s.cache.filterByPrefix name namespaceId = [] then
    return some ⟨"Collection does not exist"⟩
  let rName ← orThrow (virtualToRealName name namespaceId)
  let error ← onDriver (d.deleteCol rName)
  if error.isSome then
    return error
  modify fun s => { s with cache := s.cache.delCol name namespaceId }
  return none

/-! ## Internal documents -/

/-- The check the internal writes share: a name under `namespaces` is refused. -/
def internalNameError (verb : String) (name : Name) : OptError :=
  if name.first = prefixNS.first then
    some ⟨s!"Invalid {verb} internal document name '{name.toStr}', " ++
      s!"cannot start with '{prefixNS.first}'"⟩
  else none

/-- An internal write: the check, then the driver. -/
def internalWrite (verb : String) (name : Name) (x : Call σ OptError) : Call (Store σ) OptError :=
  match internalNameError verb name with
  | some e => return some e
  | none => onDriver x

def createInternalDoc (name : Name) (content : Doc) : Call (Store σ) OptError :=
  internalWrite "write" name (d.createDoc name content)

def readInternalDoc (s : Store σ) (name : Name) : RespOrError Doc := d.readDoc name s.driver

def updateInternalDoc (name : Name) (content : Doc) : Call (Store σ) OptError :=
  internalWrite "update" name (d.updateDoc name content)

def upsertInternalDoc (name : Name) (content : Doc) : Call (Store σ) OptError :=
  internalWrite "update" name do
    if d.existsDoc name (← get) then d.updateDoc name content
    else d.createDoc name content

def deleteInternalDoc (name : Name) : Call (Store σ) OptError :=
  internalWrite "delete" name (d.deleteDoc name)

def readInternalCol (s : Store σ) (name : Name) : Except Throw (RespOrError Col) :=
  d.readCol name s.driver

def existsInternalDoc (s : Store σ) (name : Name) : Bool := d.existsDoc name s.driver

/-! ## What each mutating call does -/

/-- The driver's answer, with the cache changed when the driver succeeded. -/
def finish (s : Store σ) (cache : DBDocNames) :
    EStateM.Result Throw σ OptError → EStateM.Result Throw (Store σ) OptError
  | .ok none t => .ok none ⟨cache, t⟩
  | .ok (some e) t => .ok (some e) ⟨s.cache, t⟩
  | .error e t => .error e ⟨s.cache, t⟩

@[simp] theorem succeeded_finish (s : Store σ) (cache : DBDocNames)
    (r : EStateM.Result Throw σ OptError) : succeeded (finish s cache r) = succeeded r := by
  rcases r with ⟨_ | e, t⟩ | ⟨e, t⟩ <;> rfl

/-- A call whose driver call failed leaves the cache alone. -/
theorem finish_of_failed {r : EStateM.Result Throw σ OptError} (h : succeeded r = false)
    (s : Store σ) (cache : DBDocNames) :
    resultState (finish s cache r) = ⟨s.cache, resultState r⟩ := by
  rcases r with ⟨_ | e, t⟩ | ⟨e, t⟩
  · cases h
  · rfl
  · rfl

theorem run_onDriver (x : Call σ OptError) (s : Store σ) :
    (onDriver x).run s = finish s s.cache (x.run s.driver) := by
  unfold onDriver
  rw [run_onPart]
  rcases x.run s.driver with ⟨_ | e, t⟩ | ⟨e, t⟩ <;> rfl

/-- The driver call of a mutating operation, followed by its cache update. -/
theorem run_onDriver_then (x : Call σ OptError) (upd : DBDocNames → DBDocNames) (s : Store σ) :
    (do
      let error ← onDriver x
      if error.isSome then
        return error
      modify fun s => { s with cache := upd s.cache }
      return none : Call (Store σ) OptError).run s = finish s (upd s.cache) (x.run s.driver) := by
  rw [EStateM.run_bind, run_onDriver]
  rcases x.run s.driver with ⟨_ | e, t⟩ | ⟨e, t⟩ <;> rfl

theorem run_createDoc (name : Name) (ns : NamespaceId) (content : Doc) (s : Store σ) :
    (createDoc d name ns content).run s =
      if s.cache.existsName name then .ok (some ⟨"Document already exists"⟩) s
      else match virtualToRealName name ns with
        | .error e => .error e s
        | .ok r => finish s (s.cache.add name ns).2 ((d.createDoc r content).run s.driver) := by
  unfold createDoc
  rw [EStateM.run_bind, EStateM.run_get]
  simp only
  split
  · rfl
  · cases h : virtualToRealName name ns with
    | error e => rfl
    | ok r => exact run_onDriver_then _ (fun c => (c.add name ns).2) s

theorem run_updateDoc (name : Name) (content : Doc) (s : Store σ) :
    (updateDoc d name content).run s =
      match s.cache.getNamespaceId name with
      | none => .ok (some ⟨"Document does not exist"⟩) s
      | some ns => match virtualToRealName name ns with
        | .error e => .error e s
        | .ok r => finish s s.cache ((d.updateDoc r content).run s.driver) := by
  unfold updateDoc
  rw [EStateM.run_bind, EStateM.run_get]
  simp only
  cases s.cache.getNamespaceId name with
  | none => rfl
  | some ns =>
    simp only
    cases h : virtualToRealName name ns with
    | error e => rfl
    | ok r => exact run_onDriver _ s

theorem run_upsertDoc (name : Name) (ns : NamespaceId) (content : Doc) (s : Store σ) :
    (upsertDoc d name ns content).run s =
      if (s.cache.getNamespaceId name).isSome ∧ s.cache.getNamespaceId name ≠ some ns then
        .ok (some ⟨"Document already exists in another namespace"⟩) s
      else match virtualToRealName name ns with
        | .error e => .error e s
        | .ok r => finish s (s.cache.add name ns).2 ((d.upsertDoc r content).run s.driver) := by
  unfold upsertDoc
  rw [EStateM.run_bind, EStateM.run_get]
  simp only
  split
  · rfl
  · cases h : virtualToRealName name ns with
    | error e => rfl
    | ok r =>
      cases hc : s.cache.getNamespaceId name with
      | none =>
        simp only [Option.isNone_none, ite_true]
        exact run_onDriver_then _ (fun c => (c.add name ns).2) s
      | some ns' =>
        have hadd : (s.cache.add name ns).2 = s.cache :=
          DBDocNames.add_of_exists (by
            simp only [DBDocNames.existsName, DBDocNames.getNamespaceId] at hc ⊢
            simp [hc])
        rw [hadd]
        simp only [Option.isNone_some, Bool.false_eq_true, ite_false]
        show EStateM.run (onDriver (d.upsertDoc r content) >>= _) s = _
        rw [EStateM.run_bind, run_onDriver]
        rcases (d.upsertDoc r content).run s.driver with ⟨_ | e, t⟩ | ⟨e, t⟩ <;> rfl

theorem run_deleteDoc (name : Name) (s : Store σ) :
    (deleteDoc d name).run s =
      match s.cache.getNamespaceId name with
      | none => .ok (some ⟨"Document does not exist"⟩) s
      | some ns => match virtualToRealName name ns with
        | .error e => .error e s
        | .ok r => finish s (s.cache.del name) ((d.deleteDoc r).run s.driver) := by
  unfold deleteDoc
  rw [EStateM.run_bind, EStateM.run_get]
  simp only
  cases s.cache.getNamespaceId name with
  | none => rfl
  | some ns =>
    simp only
    cases h : virtualToRealName name ns with
    | error e => rfl
    | ok r => exact run_onDriver_then _ (fun c => c.del name) s

theorem run_deleteCol (name : Name) (ns : NamespaceId) (s : Store σ) :
    (deleteCol d name ns).run s =
      if s.cache.filterByPrefix name ns = [] then .ok (some ⟨"Collection does not exist"⟩) s
      else match virtualToRealName name ns with
        | .error e => .error e s
        | .ok r => finish s (s.cache.delCol name ns) ((d.deleteCol r).run s.driver) := by
  unfold deleteCol
  rw [EStateM.run_bind, EStateM.run_get]
  simp only
  split
  · rfl
  · cases h : virtualToRealName name ns with
    | error e => rfl
    | ok r => exact run_onDriver_then _ (fun c => c.delCol name ns) s

theorem run_internalWrite (verb : String) (name : Name) (x : Call σ OptError) (s : Store σ) :
    (internalWrite verb name x).run s =
      match internalNameError verb name with
      | some e => .ok (some e) s
      | none => finish s s.cache (x.run s.driver) := by
  unfold internalWrite
  cases internalNameError verb name with
  | some e => rfl
  | none => exact run_onDriver x s

end DistroDefender.Store
