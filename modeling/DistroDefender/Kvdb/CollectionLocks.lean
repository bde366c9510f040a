import DistroDefender.Kvdb.RefCount
import DistroDefender.Lib.StripedRuns

/-!
# The handler collection under its locks

`KVDBHandlerCollection` as its methods lock it: `mutex_` of the collection, shared or exclusive, and
the mutex of each `KVDBHandlerInstance`. A handler of a database that is in use is added under the
shared lock, beside others; only the first one takes the exclusive lock, after it left the shared
one. The calls of several clients interleave between every look into a map and every change of a
counter. `collection_linearizable` says that the clients see the collection of `RefCount` answer one
call at a time, `KVDBManager::getKVDBHandlersCount` included, which is made of several calls.
-/

namespace DistroDefender.Kvdb

open Lib

/-- What is done with the `RefCounter` of an instance. -/
inductive ScopeOp where
  | find (scopeName : String)
  | assign (scopeName : String) (count : UInt32)
  | erase (scopeName : String)
  | empty
  | getRefMap

def ScopeOp.Answer : ScopeOp → Type
  | .find _ => Option UInt32
  | .assign .. | .erase _ => Unit
  | .empty => Bool
  | .getRefMap => RefInfo

def ScopeOp.run : (op : ScopeOp) → KVDBHandlerInstance → op.Answer × KVDBHandlerInstance
  | .find scopeName, i => (i.scopeCounter.refMap.lookup scopeName, i)
  | .assign scopeName count, i => ((), ⟨⟨i.scopeCounter.refMap.insert scopeName count⟩⟩)
  | .erase scopeName, i => ((), ⟨⟨i.scopeCounter.refMap.erase scopeName⟩⟩)
  | .empty, i => (i.emptyScopes, i)
  | .getRefMap, i => (i.getRefMap, i)

def scopeOps : ItemOps KVDBHandlerInstance where
  Op := ScopeOp
  Answer := ScopeOp.Answer
  run := ScopeOp.run
  new := .empty

abbrev CollectionM (α : Type) := Striped.M String scopeOps α

/-! ## The methods -/

namespace Locks

abbrev scopeCall (dbName : String) (op : ScopeOp) : Striped.Call String scopeOps := .item dbName op

def onScopes (dbName : String) (op : ScopeOp) : CollectionM op.Answer :=
  .call (scopeCall dbName op) .ret

/-- `RefCounter::addRef`, with `times` one. -/
def addRef (dbName name : String) : CollectionM Unit := do
  let count : Option UInt32 ← onScopes dbName (.find name)
  onScopes dbName (.assign name (count.getD 0 + 1))

/-- `RefCounter::removeRef`. -/
def removeRef (dbName name : String) : CollectionM Unit := do
  let found : Option UInt32 ← onScopes dbName (.find name)
  match found with
  | none => return ()
  | some val =>
    onScopes dbName (.assign name (val - 1))
    if val - 1 = 0 then
      onScopes dbName (.erase name)
    else return ()

/-- `KVDBHandlerInstance::addScope`. -/
def addScope (dbName scopeName : String) : CollectionM Unit := do
  Striped.lockItem dbName
  addRef dbName scopeName
  Striped.unlockItem

/-- `KVDBHandlerInstance::removeScope`. -/
def removeScope (dbName scopeName : String) : CollectionM Unit := do
  Striped.lockItem dbName
  removeRef dbName scopeName
  Striped.unlockItem

/-- `KVDBHandlerInstance::emptyScopes`. -/
def emptyScopes (dbName : String) : CollectionM Bool := do
  Striped.lockItem dbName
  let empty : Bool ← onScopes dbName .empty
  Striped.unlockItem
  return empty

/-- Where the shared lock finds no instance, the exclusive one may. -/
def addKVDBHandler (dbName scopeName : String) : CollectionM Unit := do
  Striped.lock .shared
  if ← Striped.find dbName then
    addScope dbName scopeName
    Striped.unlock
  else
    Striped.unlock
    Striped.lock .exclusive
    Striped.emplace dbName
    addScope dbName scopeName
    Striped.unlock

def removeKVDBHandler (dbName scopeName : String) : CollectionM Unit := do
  Striped.lock .exclusive
  if ← Striped.find dbName then
    removeScope dbName scopeName
    if ← emptyScopes dbName then
      Striped.erase dbName
      Striped.unlock
    else Striped.unlock
  else Striped.unlock

def getDBNames : CollectionM (List String) := do
  Striped.lock .shared
  let dbNames ← Striped.keys
  Striped.unlock
  return dbNames

def getRefMap (dbName : String) : CollectionM RefInfo := do
  Striped.lock .shared
  if ← Striped.find dbName then
    Striped.lockItem dbName
    let refMap : RefInfo ← onScopes dbName .getRefMap
    Striped.unlockItem
    Striped.unlock
    return refMap
  else
    Striped.unlock
    return ∅

/-- The loop of `getKVDBHandlersInfo`. -/
def refMaps : List String → Map String RefInfo → CollectionM (Map String RefInfo)
  | [], retValue => return retValue
  | dbName :: dbNames, retValue => do
    let refInfo ← getRefMap dbName
    refMaps dbNames (Map.emplace retValue dbName refInfo)

/-- `KVDBManager::getKVDBHandlersInfo`. -/
def getKVDBHandlersInfo : CollectionM (Map String RefInfo) := do
  let dbNames ← getDBNames
  refMaps dbNames ∅

/-- `KVDBManager::getKVDBHandlersCount`. -/
def getKVDBHandlersCount (dbName : String) : CollectionM UInt32 := do
  let handlersInfo ← getKVDBHandlersInfo
  return match handlersInfo.lookup dbName with
    | some scopes => total scopes
    | none => 0

end Locks

/-! ## Requests -/

inductive CollectionReq where
  | addKVDBHandler (dbName scopeName : String)
  | removeKVDBHandler (dbName scopeName : String)
  | getDBNames
  | getRefMap (dbName : String)
  | getKVDBHandlersCount (dbName : String)

inductive CollectionReply where
  | done
  | names (dbNames : List String)
  | refMap (refInfo : RefInfo)
  | count (n : UInt32)

namespace CollectionReq

def body : CollectionReq → CollectionM CollectionReply
  | .addKVDBHandler dbName scopeName => do
    Locks.addKVDBHandler dbName scopeName
    return .done
  | .removeKVDBHandler dbName scopeName => do
    Locks.removeKVDBHandler dbName scopeName
    return .done
  | .getDBNames => do return .names (← Locks.getDBNames)
  | .getRefMap dbName => do return .refMap (← Locks.getRefMap dbName)
  | .getKVDBHandlersCount dbName => do return .count (← Locks.getKVDBHandlersCount dbName)

/-- The request on the collection, at once. -/
def apply (c : KVDBHandlerCollection) : CollectionReq → CollectionReply × KVDBHandlerCollection
  | .addKVDBHandler dbName scopeName => (.done, c.addKVDBHandler dbName scopeName)
  | .removeKVDBHandler dbName scopeName => (.done, c.removeKVDBHandler dbName scopeName)
  | .getDBNames => (.names c.getDBNames, c)
  | .getRefMap dbName => (.refMap (c.getRefMap dbName), c)
  | .getKVDBHandlersCount dbName => (.count (c.getKVDBHandlersCount dbName), c)

end CollectionReq

/-- The collection, one call at a time. -/
def collectionObject : Object KVDBHandlerCollection CollectionReq CollectionReply where
  init c := c = .empty
  step c q r c' := q.apply c = (r, c')

/-- The instance of a database. -/
def instances (c : KVDBHandlerCollection) (dbName : String) : Option KVDBHandlerInstance :=
  c.mapInstances.lookup dbName

abbrev CollectionAwaits (q : CollectionReq) :
    Option Mode → Option String → Option String → CollectionM CollectionReply → Prop :=
  Striped.Awaits collectionObject instances q

/-! ## The counters -/

section Counters

variable {α : Type} {m : Map String KVDBHandlerInstance} {v : KVDBHandlerInstance}
  {dbName scopeName : String}

theorem lookup_insert_same (hm : m.lookup dbName = some v) (j : String) :
    (m.insert dbName v).lookup j = m.lookup j := by
  rw [Map.lookup_insert_eq]
  split
  · rename_i hj
    rw [hj, hm]
  · rfl

theorem lookup_insert_again (v' : KVDBHandlerInstance) (j : String) :
    ((m.insert dbName v).insert dbName v').lookup j = (m.insert dbName v').lookup j := by
  simp only [Map.lookup_insert_eq]
  split <;> rfl

/-- An operation on the counter of a database that is there. -/
theorem leave_scopeCall {op : ScopeOp} {k : op.Answer → CollectionM α}
    (hm : m.lookup dbName = some v) (j : String) :
    (Striped.leave (.call (Locks.scopeCall dbName op) k) m).lookup j =
      (Striped.leave (k (op.run v).1) (m.insert dbName (op.run v).2)).lookup j :=
  Striped.leave_item (I := scopeOps) hm j

theorem lookup_insert_self (v : KVDBHandlerInstance) :
    (m.insert dbName v).lookup dbName = some v := by
  rw [Map.lookup_insert_eq, if_pos rfl]

theorem leave_addScope (scopeName : String) (hm : m.lookup dbName = some v)
    (k : Unit → CollectionM α) (j : String) :
    (Striped.leave (Locks.addScope dbName scopeName >>= k) m).lookup j =
      (Striped.leave (k ()) (m.insert dbName (v.addScope scopeName))).lookup j := by
  show (Striped.leave (Locks.addRef dbName scopeName >>= fun _ => Prog.call .unlockItem k) m).lookup
    j = _
  refine Eq.trans (leave_scopeCall hm j) ((leave_scopeCall (lookup_insert_self v) j).trans ?_)
  exact Striped.leave_congr (k ()) (lookup_insert_again (v.addScope scopeName)) j

theorem erase_insert (refMap : Map String UInt32) (n : UInt32) :
    (refMap.insert scopeName n).erase scopeName = refMap.erase scopeName :=
  AList.ext (List.kerase_cons_eq rfl)

theorem leave_removeScope (scopeName : String) (hm : m.lookup dbName = some v)
    (k : Unit → CollectionM α) (j : String) :
    (Striped.leave (Locks.removeScope dbName scopeName >>= k) m).lookup j =
      (Striped.leave (k ()) (m.insert dbName (v.removeScope scopeName))).lookup j := by
  show (Striped.leave ((Locks.removeRef dbName scopeName >>= fun _ => Striped.unlockItem) >>=
    k) m).lookup j = _
  refine Eq.trans (leave_scopeCall hm j) ?_
  cases hn : v.scopeCounter.refMap.lookup scopeName with
  | none =>
    have hsame : v.removeScope scopeName = v := by
      unfold KVDBHandlerInstance.removeScope RefCounter.removeRef countDown
      rw [hn]
    rw [hsame, show (ScopeOp.run (.find scopeName) v).1 = none from hn]
    rfl
  | some n =>
    rw [show (ScopeOp.run (.find scopeName) v).1 = some n from hn]
    refine Eq.trans (leave_scopeCall (lookup_insert_self v) j) ?_
    have hdown : v.removeScope scopeName =
        ⟨⟨if n - 1 = 0 then v.scopeCounter.refMap.erase scopeName
          else v.scopeCounter.refMap.insert scopeName (n - 1)⟩⟩ := by
      unfold KVDBHandlerInstance.removeScope RefCounter.removeRef countDown
      rw [hn]
    show (Striped.leave
      (((if n - 1 = 0 then Locks.onScopes dbName (.erase scopeName) else pure ()) >>=
      fun _ => Striped.unlockItem) >>= k) ((m.insert dbName v).insert dbName
        ⟨⟨v.scopeCounter.refMap.insert scopeName (n - 1)⟩⟩)).lookup j = _
    rw [hdown]
    split
    · refine Eq.trans (leave_scopeCall (lookup_insert_self _) j) ?_
      refine Striped.leave_congr (k ()) (fun a => (lookup_insert_again _ a).trans ?_) j
      refine (lookup_insert_again _ a).trans ?_
      rw [show (ScopeOp.run (.erase scopeName)
        ⟨⟨v.scopeCounter.refMap.insert scopeName (n - 1)⟩⟩).2 =
        ⟨⟨(v.scopeCounter.refMap.insert scopeName (n - 1)).erase scopeName⟩⟩ from rfl, erase_insert]
    · exact Striped.leave_congr (k ()) (lookup_insert_again _) j

theorem leave_emptyScopes (hm : m.lookup dbName = some v) (k : Bool → CollectionM α) (j : String) :
    (Striped.leave (Locks.emptyScopes dbName >>= k) m).lookup j =
      (Striped.leave (k v.emptyScopes) m).lookup j := by
  show (Striped.leave (Locks.onScopes dbName .empty >>= fun empty : Bool =>
    Prog.call .unlockItem fun _ => k empty) m).lookup j = _
  refine Eq.trans (leave_scopeCall hm j) ?_
  exact Striped.leave_congr (k v.emptyScopes) (lookup_insert_same hm) j

end Counters

/-! ## Where the requests take effect -/

section Requests

variable {c : KVDBHandlerCollection} {dbName scopeName : String}

theorem instances_addKVDBHandler (c : KVDBHandlerCollection) (dbName scopeName j : String) :
    instances (c.addKVDBHandler dbName scopeName) j =
      if j = dbName then some (((instances c dbName).getD .empty).addScope scopeName)
      else instances c j := by
  unfold instances KVDBHandlerCollection.addKVDBHandler
  cases c.mapInstances.lookup dbName <;> exact Map.lookup_insert_eq ..

theorem instances_removeKVDBHandler (c : KVDBHandlerCollection) (dbName scopeName j : String) :
    instances (c.removeKVDBHandler dbName scopeName) j =
      match instances c dbName with
      | none => instances c j
      | some i =>
        if j = dbName then
          if (i.removeScope scopeName).emptyScopes then none else some (i.removeScope scopeName)
        else instances c j := by
  unfold instances KVDBHandlerCollection.removeKVDBHandler
  cases c.mapInstances.lookup dbName with
  | none => rfl
  | some i =>
    dsimp only
    split
    · exact Map.lookup_erase_eq ..
    · exact Map.lookup_insert_eq ..

theorem getRefMap_eq (c : KVDBHandlerCollection) (dbName : String) :
    c.getRefMap dbName = ((instances c dbName).getD .empty).getRefMap := by
  unfold instances KVDBHandlerCollection.getRefMap
  cases c.mapInstances.lookup dbName <;> rfl

theorem getKVDBHandlersCount_eq (c : KVDBHandlerCollection) (dbName : String) :
    c.getKVDBHandlersCount dbName = total ((instances c dbName).getD .empty).getRefMap := by
  unfold KVDBHandlerCollection.getKVDBHandlersCount
  rw [KVDBHandlerCollection.lookup_getKVDBHandlersInfo]
  by_cases hmem : dbName ∈ c.getDBNames
  · rw [if_pos hmem]
    exact congrArg total (getRefMap_eq c dbName)
  · rw [if_neg hmem]
    unfold KVDBHandlerCollection.getDBNames at hmem
    rw [mem_sortedSet] at hmem
    rw [show instances c dbName = none from AList.lookup_eq_none.mpr hmem]
    rfl

/-! ### Adding and removing -/

theorem inItem_addScope {α : Type} {r : α} {k : Unit → CollectionM α}
    (hk : Striped.Settled r (k ())) : Striped.InItem r dbName
      ((Locks.addRef dbName scopeName >>= fun _ => Striped.unlockItem) >>= k) :=
  .item fun _ => .item fun _ => .unlockItem hk

theorem awaits_addKVDBHandler (dbName scopeName : String) :
    CollectionAwaits (.addKVDBHandler dbName scopeName) none none none
      (CollectionReq.body (.addKVDBHandler dbName scopeName)) := by
  have hdone : Striped.Settled CollectionReply.done
      (.call .unlock fun _ => .ret .done : CollectionM CollectionReply) :=
        .call trivial fun _ => .ret
  refine .lock (.find (.commitItem fun m t v hm ht => ?_) fun t ht _ =>
    .unlock (.commit fun m t h => ?_))
  · refine ⟨.done, t.addKVDBHandler dbName scopeName, rfl, inItem_addScope hdone,
      fun j hj => ?_, ?_⟩
    · rw [instances_addKVDBHandler, if_neg hj]
    · rw [instances_addKVDBHandler, if_pos rfl, ht]
      refine Eq.trans ?_ (leave_addScope scopeName hm
        (fun _ => Prog.call .unlock fun _ => .ret CollectionReply.done) dbName).symm
      exact (lookup_insert_self _).symm
  · refine ⟨.done, t.addKVDBHandler dbName scopeName, rfl, ?_, fun j => ?_⟩
    · exact .call trivial fun _ => .call trivial fun _ => .call trivial fun _ =>
        .call trivial fun _ =>
        .call trivial fun _ => .unlock .ret
    · have hemplaced : ∀ a, (Map.emplace m dbName KVDBHandlerInstance.empty).lookup a =
          if a = dbName then some ((m.lookup dbName).getD .empty) else m.lookup a := by
        intro a
        cases hm : m.lookup dbName with
        | none =>
          rw [Map.emplace_of_none hm]
          exact Map.lookup_insert_eq ..
        | some v =>
          rw [Map.emplace_of_some hm]
          split
          · rename_i ha
            rw [ha]
            exact hm
          · rfl
      have hleft := leave_addScope scopeName ((hemplaced dbName).trans (if_pos rfl))
        (fun _ => Prog.call .unlock fun _ => .ret CollectionReply.done) j
      refine Eq.trans ?_ hleft.symm
      show _ = ((Map.emplace m dbName KVDBHandlerInstance.empty).insert dbName _).lookup j
      rw [instances_addKVDBHandler, Map.lookup_insert_eq, hemplaced j, h dbName, h j]
      split <;> rfl

theorem staying_removeScope (dbName scopeName : String) :
    Striped.Only Striped.Call.Stays (Locks.removeScope dbName scopeName) := by
  refine .call trivial fun _ => .call trivial fun (found : Option UInt32) => ?_
  cases found with
  | none => exact .call trivial .ret
  | some val =>
    refine .call trivial fun _ => ?_
    show Striped.Only _ ((if val - 1 = 0 then Locks.onScopes dbName (.erase scopeName)
      else pure ()) >>= fun _ => Striped.unlockItem)
    split
    · exact .call trivial fun _ => .call trivial .ret
    · exact .call trivial .ret

theorem staying_emptyScopes (dbName : String) :
    Striped.Only Striped.Call.Stays (Locks.emptyScopes dbName) :=
  .call trivial fun _ => .call trivial fun _ => .call trivial fun _ => .ret _

/-- What `removeKVDBHandler` does with an instance it found. -/
def removeFound (dbName scopeName : String) : CollectionM CollectionReply :=
  Locks.removeScope dbName scopeName >>= fun _ => Locks.emptyScopes dbName >>= fun empty =>
    (if empty then Striped.erase dbName >>= fun _ => Striped.unlock else Striped.unlock) >>=
      fun _ => .ret .done

theorem leave_removeFound {m : Map String KVDBHandlerInstance} {v : KVDBHandlerInstance}
    (hm : m.lookup dbName = some v) (scopeName j : String) :
    (Striped.leave (removeFound dbName scopeName) m).lookup j =
      if j = dbName then
        if (v.removeScope scopeName).emptyScopes then none else some (v.removeScope scopeName)
      else m.lookup j := by
  refine (leave_removeScope scopeName hm _ j).trans
    ((leave_emptyScopes (lookup_insert_self _) _ j).trans ?_)
  cases (v.removeScope scopeName).emptyScopes with
  | false => exact Map.lookup_insert_eq ..
  | true =>
    show ((m.insert dbName (v.removeScope scopeName)).erase dbName).lookup j = _
    rw [Map.lookup_erase_eq, Map.lookup_insert_eq]
    split <;> rfl

theorem inside_removeFound (dbName scopeName : String) :
    Striped.Inside CollectionReply.done (removeFound dbName scopeName) := by
  refine (staying_removeScope dbName scopeName).inside fun _ =>
    (staying_emptyScopes dbName).inside fun empty => ?_
  cases empty with
  | false => exact .unlock .ret
  | true => exact .call trivial fun _ => .unlock .ret

theorem removeFound_eq (dbName scopeName : String) :
    ((Locks.removeScope dbName scopeName >>= fun _ => Locks.emptyScopes dbName >>= fun empty =>
      if empty then Striped.erase dbName >>= fun _ => Striped.unlock
      else Striped.unlock) >>= fun _ => .ret .done) = removeFound dbName scopeName := by
  rw [Prog.bind_assoc]
  exact congrArg _ (funext fun _ => Prog.bind_assoc ..)

theorem awaits_removeKVDBHandler (dbName scopeName : String) :
    CollectionAwaits (.removeKVDBHandler dbName scopeName) none none none
      (CollectionReq.body (.removeKVDBHandler dbName scopeName)) := by
  refine .commit fun m t h => ⟨.done, t.removeKVDBHandler dbName scopeName, rfl, ?_, fun j => ?_⟩
  · refine .call trivial fun found => ?_
    cases found with
    | false => exact .unlock .ret
    | true =>
      have hinside := inside_removeFound dbName scopeName
      rw [← removeFound_eq] at hinside
      exact hinside
  · rw [instances_removeKVDBHandler, h dbName, h j]
    show _ = (Striped.leave
      ((if decide (dbName ∈ m) = true then Locks.removeScope dbName scopeName >>= fun _ =>
        Locks.emptyScopes dbName >>= fun empty =>
          if empty then Striped.erase dbName >>= fun _ => Striped.unlock else Striped.unlock
      else Striped.unlock) >>= fun _ => .ret CollectionReply.done) m).lookup j
    cases hm : m.lookup dbName with
    | none =>
      rw [decide_eq_false (AList.lookup_eq_none.mp hm)]
      rfl
    | some v =>
      rw [decide_eq_true (AList.lookup_isSome.mp (by rw [hm]; rfl)), if_pos rfl, removeFound_eq]
      exact (leave_removeFound hm scopeName j).symm

/-! ### Reading -/

theorem reading_getRefMap (dbName : String) :
    Striped.Only Striped.Call.Reads (Locks.getRefMap dbName) := by
  refine .call trivial fun _ => .call trivial fun found => ?_
  cases found with
  | false => exact .call trivial fun _ => .ret _
  | true =>
    exact .call trivial fun _ => .call (fun _ => rfl) fun _ => .call trivial fun _ =>
      .call trivial fun _ => .ret _

theorem awaits_getDBNames :
    CollectionAwaits .getDBNames none none none (CollectionReq.body .getDBNames) := by
  refine .lock (.keys fun m t hkeys hnot => ?_)
  have hnames : t.getDBNames = sortedSet m.keys := sortedSet_congr fun dbName => by
    have hkey := hkeys dbName
    rw [Bool.eq_iff_iff] at hkey
    exact AList.lookup_isSome.symm.trans (hkey.trans AList.lookup_isSome)
  refine absurd ⟨.names (sortedSet m.keys), ?_, .call trivial fun _ => .ret⟩ hnot
  show (CollectionReply.names t.getDBNames, t) = _
  rw [hnames]

/-- A program that asks for the scopes of a database and answers `reply` of them. -/
theorem awaits_refMap {q : CollectionReq} (reply : RefInfo → CollectionReply)
    (hreply : ∀ c, q.apply c = (reply (c.getRefMap dbName), c))
    {k : RefInfo → CollectionM CollectionReply}
    (hk : ∀ refMap, Striped.Settled (reply refMap) (k refMap)) :
    CollectionAwaits q none none none (Locks.getRefMap dbName >>= k) := by
  have hstep : ∀ t v, (instances t dbName).getD .empty = v →
      collectionObject.step t q (reply v.getRefMap) t := by
    intro t v hv
    show q.apply t = _
    rw [hreply, getRefMap_eq, hv]
  refine .lock (.find (.lockItem (.item (fun _ => rfl) fun v t hv hnot => ?_)) fun t ht hnot => ?_)
  · exact absurd ⟨_, hstep t v hv, .call trivial fun _ => .call trivial fun _ => hk _⟩ hnot
  · refine absurd ⟨_, hstep t .empty ?_, .call trivial fun _ => hk _⟩ hnot
    rw [ht]
    rfl

theorem awaits_getRefMap (dbName : String) :
    CollectionAwaits (.getRefMap dbName) none none none (CollectionReq.body (.getRefMap dbName)) :=
  awaits_refMap .refMap (fun _ => rfl) fun _ => .ret

/-! ### Counting -/

/-- What `getKVDBHandlersCount` makes of the handlers' infos. -/
def countOf (dbName : String) (handlersInfo : Map String RefInfo) : UInt32 :=
  match handlersInfo.lookup dbName with
  | some scopes => total scopes
  | none => 0

/-- The count, with some of the databases read. -/
def counting (dbName : String) (dbNames : List String) (retValue : Map String RefInfo) :
    CollectionM CollectionReply :=
  Locks.refMaps dbNames retValue >>= fun handlersInfo => .ret (.count (countOf dbName handlersInfo))

theorem counting_cons (dbName name : String) (dbNames : List String)
    (retValue : Map String RefInfo) : counting dbName (name :: dbNames) retValue =
      Locks.getRefMap name >>= fun refInfo =>
        counting dbName dbNames (Map.emplace retValue name refInfo) :=
  Prog.bind_assoc ..

theorem body_getKVDBHandlersCount (dbName : String) :
    CollectionReq.body (.getKVDBHandlersCount dbName) =
      Locks.getDBNames >>= fun dbNames => counting dbName dbNames ∅ := by
  show ((Locks.getDBNames >>= fun dbNames => Locks.refMaps dbNames ∅) >>= fun handlersInfo =>
    (.ret (countOf dbName handlersInfo) : CollectionM UInt32)) >>= _ = _
  rw [Prog.bind_assoc, Prog.bind_assoc]
  rfl

theorem lookup_emplace_of_ne {ν : Type} {m : Map String ν} {key j : String} (h : j ≠ key) (v : ν) :
    (Map.emplace m key v).lookup j = m.lookup j := by
  cases hm : m.lookup key with
  | none => rw [Map.emplace_of_none hm, Map.lookup_insert_eq, if_neg h]
  | some w => rw [Map.emplace_of_some hm]

/-- A database that is read is not read again, and one that is not to be read stays without
scopes. -/
theorem settled_counting {dbNames : List String} {retValue : Map String RefInfo}
    (h : dbName ∈ retValue ∨ dbName ∉ dbNames) :
    Striped.Settled (.count (countOf dbName retValue)) (counting dbName dbNames retValue) := by
  induction dbNames generalizing retValue with
  | nil => exact .ret
  | cons name dbNames ih =>
    rw [counting_cons]
    refine (reading_getRefMap name).settled fun refInfo => ?_
    have hkept : (Map.emplace retValue name refInfo).lookup dbName = retValue.lookup dbName := by
      rcases h with hmem | hnot
      · by_cases hname : dbName = name
        · subst hname
          obtain ⟨w, hw⟩ := Option.isSome_iff_exists.mp (AList.lookup_isSome.mpr hmem)
          rw [Map.emplace_of_some hw]
        · exact lookup_emplace_of_ne hname refInfo
      · refine lookup_emplace_of_ne (fun hname => hnot ?_) refInfo
        rw [hname]
        exact List.mem_cons_self
    have hcount : countOf dbName (Map.emplace retValue name refInfo) = countOf dbName retValue := by
      unfold countOf
      rw [hkept]
    rw [← hcount]
    refine ih ?_
    rcases h with hmem | hnot
    · refine .inl ?_
      rw [← AList.lookup_isSome, hkept]
      exact AList.lookup_isSome.mpr hmem
    · exact .inr fun hmem => hnot (List.mem_cons_of_mem name hmem)

/-- A database yet to be read decides the count where it is read. -/
theorem awaits_counting {dbNames : List String} {retValue : Map String RefInfo}
    (hmem : dbName ∈ dbNames) (hnew : retValue.lookup dbName = none) :
    CollectionAwaits (.getKVDBHandlersCount dbName) none none none
      (counting dbName dbNames retValue) := by
  induction dbNames generalizing retValue with
  | nil => cases hmem
  | cons name dbNames ih =>
    rw [counting_cons]
    by_cases hname : dbName = name
    · subst hname
      refine awaits_refMap (fun refMap => .count (total refMap)) (fun c => ?_) fun refMap => ?_
      · show (CollectionReply.count (c.getKVDBHandlersCount dbName), c) = _
        rw [getKVDBHandlersCount_eq, getRefMap_eq]
      · have hread : (Map.emplace retValue dbName refMap).lookup dbName = some refMap := by
          rw [Map.emplace_of_none hnew, Map.lookup_insert_eq, if_pos rfl]
        have hcount : countOf dbName (Map.emplace retValue dbName refMap) = total refMap := by
          unfold countOf
          rw [hread]
        rw [← hcount]
        exact settled_counting (.inl (AList.lookup_isSome.mp (by rw [hread]; rfl)))
    · have hrest : ∀ refInfo, CollectionAwaits (.getKVDBHandlersCount dbName) none none none
          (counting dbName dbNames (Map.emplace retValue name refInfo)) := fun refInfo =>
        ih ((List.mem_cons.mp hmem).resolve_left hname)
          ((lookup_emplace_of_ne hname refInfo).trans hnew)
      refine .lock (.find (.lockItem (.item (fun _ => rfl) fun v t hv _ => ?_)) fun t ht _ => ?_)
      · exact .unlockItem (.unlock (hrest _))
      · exact .unlock (hrest _)

theorem awaits_getKVDBHandlersCount (dbName : String) :
    CollectionAwaits (.getKVDBHandlersCount dbName) none none none
      (CollectionReq.body (.getKVDBHandlersCount dbName)) := by
  rw [body_getKVDBHandlersCount]
  refine .lock (.keys fun m t hkeys hnot => ?_)
  by_cases hmem : dbName ∈ sortedSet m.keys
  · exact .unlock (awaits_counting hmem rfl)
  · have hsettled : Striped.Settled (.count (countOf dbName ∅))
        (counting dbName (sortedSet m.keys) ∅) :=
      settled_counting (.inr hmem)
    refine absurd ⟨.count 0, ?_, .call trivial fun _ => hsettled⟩ hnot
    have hnone : instances t dbName = none := by
      rw [mem_sortedSet] at hmem
      have hkey := hkeys dbName
      rw [AList.lookup_eq_none.mpr hmem] at hkey
      exact Option.isNone_iff_eq_none.mp (by rw [← Option.not_isSome, hkey]; rfl)
    show (CollectionReply.count (t.getKVDBHandlersCount dbName), t) = _
    rw [getKVDBHandlersCount_eq, hnone]
    rfl

theorem awaits_body : ∀ q : CollectionReq, CollectionAwaits q none none none q.body
  | .addKVDBHandler dbName scopeName => awaits_addKVDBHandler dbName scopeName
  | .removeKVDBHandler dbName scopeName => awaits_removeKVDBHandler dbName scopeName
  | .getDBNames => awaits_getDBNames
  | .getRefMap dbName => awaits_getRefMap dbName
  | .getKVDBHandlersCount dbName => awaits_getKVDBHandlersCount dbName

end Requests

/-- The clients of the collection under its locks see the collection answer one call at a time. -/
theorem collection_linearizable {ι : Type} [DecidableEq ι]
    {ls : List (ι × Striped.Act CollectionReq CollectionReply)}
    {x : Map String KVDBHandlerInstance × (ι → Striped.Phase String scopeOps CollectionReply)}
    (h : (Striped.system CollectionReq.body ι).Trace ls x) :
    collectionObject.Linearizable (Striped.history ls) :=
  Striped.linearizable ⟨.empty, rfl, fun dbName => AList.lookup_empty dbName⟩ awaits_body h

section Sample

theorem free_lock {f : Bool → Striped.Phase String scopeOps CollectionReply}
    (hfalse : (f false).outer = none) (htrue : (f true).outer = none) (mode : Mode) :
    Striped.Free f (.lock mode) := by
  intro j a hj
  cases j with
  | false => cases hfalse.symm.trans hj
  | true => cases htrue.symm.trans hj

theorem free_lockItem {f : Bool → Striped.Phase String scopeOps CollectionReply}
    (hfalse : (f false).inner = none) (htrue : (f true).inner = none) (key : String) :
    Striped.Free f (.lockItem key) := by
  intro j hj
  cases j with
  | false => cases hfalse.symm.trans hj
  | true => cases htrue.symm.trans hj

/-- The first handler of a database, and a second one. -/
theorem collection_linearizable_added : collectionObject.Linearizable
    [(false, .invoke (.addKVDBHandler "geo" "a")), (true, .invoke (.addKVDBHandler "geo" "b")),
      (false, .respond .done), (true, .respond .done)] := by
  have h0 : (Striped.system CollectionReq.body Bool).Trace [] (∅, fun _ => .idle) :=
    .nil ⟨rfl, fun _ => rfl⟩
  have h2 := (h0.snoc (.invoke (i := false) (.addKVDBHandler "geo" "a") rfl)).snoc
    (.invoke (i := true) (.addKVDBHandler "geo" "b") rfl)
  have h3 := ((h2.snoc (.call (i := false) rfl (free_lock rfl rfl .shared))).snoc
    (.call (i := false) rfl trivial)).snoc (.call (i := false) rfl trivial)
  have h4 := (h3.snoc (.call (i := false) rfl (free_lock rfl rfl .exclusive))).snoc
    (.call (i := false) rfl trivial)
  have h5 := (((h4.snoc (.call (i := false) rfl (free_lockItem rfl rfl "geo"))).snoc
    (.call (i := false) rfl trivial)).snoc (.call (i := false) rfl trivial)).snoc
      (.call (i := false) rfl trivial)
  have h6 := (h5.snoc (.call (i := false) rfl trivial)).snoc (.respond (i := false) rfl)
  have h7 := (h6.snoc (.call (i := true) rfl (free_lock rfl rfl .shared))).snoc
    (.call (i := true) rfl trivial)
  have h8 := (((h7.snoc (.call (i := true) rfl (free_lockItem rfl rfl "geo"))).snoc
    (.call (i := true) rfl trivial)).snoc (.call (i := true) rfl trivial)).snoc
      (.call (i := true) rfl trivial)
  have h9 := (h8.snoc (.call (i := true) rfl trivial)).snoc (.respond (i := true) rfl)
  exact collection_linearizable h9

end Sample

end DistroDefender.Kvdb
