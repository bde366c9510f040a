import DistroDefender.Lib.Tally
import Mathlib.Data.String.Basic

/-!
# Reference counts of databases

`RefCounter` counts the uses of a name in 32 bits, `KVDBHandlerCollection` keeps one counter of
scopes for every database that is in use. `Counts` says that a collection counts a list of
(database, scope) pairs: `Counts.addKVDBHandler` and `Counts.removeKVDBHandler` say that the two
calls count one pair more and one less, and what the collection answers is then read off the list.
-/

namespace DistroDefender.Kvdb

open Lib

structure RefCounter where
  refMap : Map String UInt32

namespace RefCounter

def addRef (c : RefCounter) (name : String) (times : UInt32) : RefCounter :=
  ⟨countUp c.refMap name times⟩

def removeRef (c : RefCounter) (name : String) : RefCounter := ⟨countDown c.refMap name⟩

def isEmpty (c : RefCounter) : Bool := c.refMap.keys.isEmpty

def getRefMap (c : RefCounter) : Map String UInt32 := c.refMap

end RefCounter

structure KVDBHandlerInstance where
  scopeCounter : RefCounter

namespace KVDBHandlerInstance

def empty : KVDBHandlerInstance := ⟨⟨∅⟩⟩

def addScope (i : KVDBHandlerInstance) (scopeName : String) : KVDBHandlerInstance :=
  ⟨i.scopeCounter.addRef scopeName 1⟩

def removeScope (i : KVDBHandlerInstance) (scopeName : String) : KVDBHandlerInstance :=
  ⟨i.scopeCounter.removeRef scopeName⟩

def emptyScopes (i : KVDBHandlerInstance) : Bool := i.scopeCounter.isEmpty

def getRefMap (i : KVDBHandlerInstance) : Map String UInt32 := i.scopeCounter.getRefMap

end KVDBHandlerInstance

structure KVDBHandlerCollection where
  mapInstances : Map String KVDBHandlerInstance

/-- `RefInfo`: how often each scope uses a database. -/
abbrev RefInfo := Map String UInt32

namespace KVDBHandlerCollection

def empty : KVDBHandlerCollection := ⟨∅⟩

def addKVDBHandler (c : KVDBHandlerCollection) (dbName scopeName : String) :
    KVDBHandlerCollection :=
  match c.mapInstances.lookup dbName with
  | some i => ⟨c.mapInstances.insert dbName (i.addScope scopeName)⟩
  | none => ⟨c.mapInstances.insert dbName (KVDBHandlerInstance.empty.addScope scopeName)⟩

def removeKVDBHandler (c : KVDBHandlerCollection) (dbName scopeName : String) :
    KVDBHandlerCollection :=
  match c.mapInstances.lookup dbName with
  | some i =>
    let i' := i.removeScope scopeName
    if i'.emptyScopes then ⟨c.mapInstances.erase dbName⟩ else ⟨c.mapInstances.insert dbName i'⟩
  | none => c

/-- The keys of a `std::map`, in its order. -/
def getDBNames (c : KVDBHandlerCollection) : List String := sortedSet c.mapInstances.keys

def getRefMap (c : KVDBHandlerCollection) (dbName : String) : RefInfo :=
  match c.mapInstances.lookup dbName with
  | some i => i.getRefMap
  | none => ∅

/-- `KVDBManager::getKVDBHandlersInfo`. -/
def getKVDBHandlersInfo (c : KVDBHandlerCollection) : Map String RefInfo :=
  c.getDBNames.foldl (fun retValue dbName => retValue.emplace dbName (c.getRefMap dbName)) ∅

/-- `KVDBManager::getKVDBHandlersCount`. -/
def getKVDBHandlersCount (c : KVDBHandlerCollection) (dbName : String) : UInt32 :=
  match c.getKVDBHandlersInfo.lookup dbName with
  | some scopes => total scopes
  | none => 0

/-- The collection counts the (database, scope) pairs. -/
def Counts (c : KVDBHandlerCollection) (l : List (String × String)) : Prop :=
  Tallies₂ KVDBHandlerInstance.getRefMap c.mapInstances l

variable {c : KVDBHandlerCollection} {l l' : List (String × String)} {db scope : String}

theorem Counts.empty : Counts empty [] := Tallies₂.nil

theorem Counts.perm (h : Counts c l) (hp : l.Perm l') : Counts c l' := Tallies₂.perm h hp

theorem Counts.addKVDBHandler (h : Counts c l) (db scope : String) :
    Counts (c.addKVDBHandler db scope) ((db, scope) :: l) := by
  unfold KVDBHandlerCollection.addKVDBHandler
  cases hi : c.mapInstances.lookup db with
  | some i =>
    apply Tallies₂.insert h
    exact (h.present db i hi).2.up scope
  | none =>
    apply Tallies₂.insert h
    rw [h.absent db hi]
    exact Tallies.nil.up scope

theorem Counts.removeKVDBHandler (h : Counts c ((db, scope) :: l))
    (hl : l.count (db, scope) < UInt32.size) : Counts (c.removeKVDBHandler db scope) l := by
  unfold KVDBHandlerCollection.removeKVDBHandler
  cases hi : c.mapInstances.lookup db with
  | none =>
    have hnil := h.absent db hi
    rw [under_cons_self] at hnil
    cases hnil
  | some i =>
    have hcounts : Tallies i.getRefMap (scope :: under db l) := by
      rw [← under_cons_self]
      exact (h.present db i hi).2
    rw [← count_under] at hl
    have hdown : Tallies (i.removeScope scope).getRefMap (under db l) := hcounts.down hl
    show Counts (if (i.removeScope scope).getRefMap.keys.isEmpty then _ else _) l
    split
    · rename_i hempty
      exact Tallies₂.erase h (hdown.keys_eq_nil.mp (List.isEmpty_iff.mp hempty))
    · rename_i hempty
      exact Tallies₂.lower h hdown fun hnil =>
        hempty (List.isEmpty_iff.mpr (hdown.keys_eq_nil.mpr hnil))

/-! ## What the collection answers -/

theorem Counts.mem_getDBNames (h : Counts c l) : db ∈ c.getDBNames ↔ ∃ scope, (db, scope) ∈ l := by
  unfold getDBNames
  rw [mem_sortedSet]
  exact Tallies₂.mem_keys h

theorem Counts.getRefMap (h : Counts c l) (db : String) :
    Tallies (c.getRefMap db) (under db l) := by
  unfold KVDBHandlerCollection.getRefMap
  cases hi : c.mapInstances.lookup db with
  | none =>
    rw [h.absent db hi]
    exact .nil
  | some i => exact (h.present db i hi).2

/-- Filling a map from a list of keys. -/
theorem lookup_foldl_emplace {ν : Type} (f : String → ν) (ks : List String) (m : Map String ν)
    (k : String) :
    (ks.foldl (fun m k => m.emplace k (f k)) m).lookup k =
      (m.lookup k).or (if k ∈ ks then some (f k) else none) := by
  induction ks generalizing m with
  | nil => simp
  | cons a ks ih =>
    rw [List.foldl_cons, ih]
    cases ha : m.lookup a with
    | some w =>
      rw [Map.emplace_of_some ha]
      by_cases hk : k = a
      · rw [hk, ha]
        rfl
      · simp only [List.mem_cons, hk, false_or]
    | none =>
      rw [Map.emplace_of_none ha, Map.lookup_insert_eq]
      by_cases hk : k = a
      · rw [hk, ha, if_pos rfl, if_pos List.mem_cons_self]
        rfl
      · simp only [List.mem_cons, hk, false_or, if_false]

theorem lookup_getKVDBHandlersInfo (c : KVDBHandlerCollection) (db : String) :
    c.getKVDBHandlersInfo.lookup db = if db ∈ c.getDBNames then some (c.getRefMap db)
    else none := by
  unfold getKVDBHandlersInfo
  rw [lookup_foldl_emplace, AList.lookup_empty]
  rfl

/-- The count of a database is the number of its pairs. -/
theorem Counts.getKVDBHandlersCount (h : Counts c l) (db : String) :
    c.getKVDBHandlersCount db = UInt32.ofNat (under db l).length := by
  unfold KVDBHandlerCollection.getKVDBHandlersCount
  rw [lookup_getKVDBHandlersInfo]
  by_cases hdb : db ∈ c.getDBNames
  · rw [if_pos hdb]
    exact (h.getRefMap db).total
  · rw [if_neg hdb]
    have hnil : under db l = [] := by
      rw [List.eq_nil_iff_forall_not_mem]
      intro scope hs
      exact hdb (h.mem_getDBNames.mpr ⟨scope, mem_under.mp hs⟩)
    rw [hnil]
    rfl

/-- Below the range of the counter, the count is zero exactly when the database is not in use. -/
theorem Counts.getKVDBHandlersCount_eq_zero (h : Counts c l) (hl : l.length < UInt32.size)
    (db : String) : c.getKVDBHandlersCount db = 0 ↔ ∀ scope, (db, scope) ∉ l := by
  have hlen : (under db l).length < UInt32.size := Nat.lt_of_le_of_lt (length_under_le db l) hl
  rw [h.getKVDBHandlersCount db, ofNat_eq_zero hlen, List.length_eq_zero_iff,
    List.eq_nil_iff_forall_not_mem]
  simp only [mem_under]

end KVDBHandlerCollection

end DistroDefender.Kvdb
