import DistroDefender.Base.Error
import Mathlib.Logic.Function.Basic

/-!
# RocksDB

`RocksDB` is what the key-value manager calls of RocksDB, for one storage path. `FamilyStore` is
what the manager relies on: a persistent set of column families with the default one always among
them, handles that name a family until it is dropped or the database is closed, and calls that
change nothing unless they succeed. What a successful call does is stated on the `View` of the
storage.
-/

namespace DistroDefender.Kvdb

open Base

/-- `rocksdb::kDefaultColumnFamilyName`. -/
def kDefaultColumnFamilyName : String := "default"

/-- A `rocksdb::Status` with what a successful call gives, or the text of `ToString()`. -/
abbrev Status (α : Type) := Except String α

/-- The calls, over the state `σ` of the storage; `η` is a column family handle. -/
structure RocksDB (σ η : Type) where
  ListColumnFamilies : Call σ (Status (List String))
  /-- `DB::Open` with `create_if_missing`, one handle for each descriptor. -/
  DBOpen : List String → Call σ (Status (List η))
  CreateColumnFamily : String → Call σ (Status η)
  DropColumnFamily : η → Call σ (Status Unit)
  Put : η → String → String → Call σ (Status Unit)
  /-- The last `shared_ptr` to the `rocksdb::DB` goes. -/
  close : σ → σ

/-- The keys of a column family with their values. -/
abbrev Contents := String → Option String

/-- What a handle refers to. -/
inductive Ref where
  | unused
  | names (family : String)
  | stale
  deriving DecidableEq, Repr

/-- The column families, and what every handle refers to. -/
@[ext] structure View (η : Type) where
  families : String → Option Contents
  ref : η → Ref

namespace View

variable {η : Type}

def create [DecidableEq η] (v : View η) (name : String) (h : η) : View η :=
  ⟨Function.update v.families name (some fun _ => none), Function.update v.ref h (.names name)⟩

/-- The family goes, and the handles to it are of no use any more. -/
def drop (v : View η) (name : String) : View η :=
  ⟨Function.update v.families name none, fun h => if v.ref h = .names name then .stale else v.ref h⟩

def put (v : View η) (name : String) (c : Contents) (key value : String) : View η :=
  { v with families := Function.update v.families name (some (Function.update c key (some value))) }

def closed (v : View η) : View η :=
  { v with ref := fun h => if v.ref h = .unused then .unused else .stale }

theorem create_families [DecidableEq η] (v : View η) (name n : String) (h : η) :
    (v.create name h).families n = if n = name then some fun _ => none else v.families n := by
  unfold create
  exact Function.update_apply ..

theorem create_ref [DecidableEq η] (v : View η) (name : String) (h h' : η) :
    (v.create name h).ref h' = if h' = h then .names name else v.ref h' := by
  unfold create
  exact Function.update_apply ..

theorem drop_families (v : View η) (name n : String) :
    (v.drop name).families n = if n = name then none else v.families n := by
  unfold drop
  exact Function.update_apply ..

theorem drop_ref (v : View η) (name : String) (h : η) :
    (v.drop name).ref h = if v.ref h = .names name then .stale else v.ref h := rfl

theorem put_families (v : View η) (name n : String) (c : Contents) (key value : String) :
    (v.put name c key value).families n =
      if n = name then some (Function.update c key (some value)) else v.families n := by
  unfold put
  exact Function.update_apply ..

@[simp] theorem put_ref (v : View η) (name : String) (c : Contents) (key value : String) :
    (v.put name c key value).ref = v.ref := rfl

@[simp] theorem closed_families (v : View η) : v.closed.families = v.families := rfl

/-- The view after the families were opened with these handles. -/
structure Opened (v v' : View η) (names : List String) (handles : List η) : Prop where
  all : ∀ name, name ∈ names ↔ v.families name ≠ none
  length_eq : handles.length = names.length
  families : v'.families = v.families
  refs : ∀ p ∈ names.zip handles, v'.ref p.2 = .names p.1
  others : ∀ h, h ∉ handles → v'.ref h = v.ref h
  fresh : ∀ h ∈ handles, v.ref h = .unused

end View

/-- A call succeeds with `post` for its answer and the view it leaves, or changes nothing. -/
def Does {σ η α : Type} (view : σ → View η) (s : σ) (r : EStateM.Result Throw σ (Status α))
    (post : α → View η → Prop) : Prop :=
  match r with
  | .ok (.ok a) s' => post a (view s')
  | .ok (.error _) s' | .error _ s' => view s' = view s

/-- A result is one of the two. -/
theorem Does.cases {σ η α : Type} {view : σ → View η} {s : σ}
    {r : EStateM.Result Throw σ (Status α)} {post : α → View η → Prop} (h : Does view s r post) :
    (∃ a t, r = .ok (.ok a) t ∧ post a (view t)) ∨
      ((∀ a t, r ≠ .ok (.ok a) t) ∧ view (Lib.resultState r) = view s) := by
  rcases r with ⟨e | a, t⟩ | ⟨e, t⟩
  · exact .inr ⟨nofun, h⟩
  · exact .inl ⟨a, t, rfl, h⟩
  · exact .inr ⟨nofun, h⟩

theorem Does.of_ok {σ η α : Type} {view : σ → View η} {s t : σ} {a : α}
    {r : EStateM.Result Throw σ (Status α)} {post : α → View η → Prop} (h : Does view s r post)
    (hr : r = .ok (.ok a) t) : post a (view t) := by
  rw [hr] at h
  exact h

/-- A RocksDB whose column families are a persistent set. -/
structure FamilyStore (σ η : Type) [DecidableEq η] extends RocksDB σ η where
  view : σ → View η
  default_mem : ∀ s, (view s).families kDefaultColumnFamilyName ≠ none
  list_does : ∀ s, Does view s (ListColumnFamilies.run s) fun names v =>
    v = view s ∧ ∀ name, name ∈ names ↔ (view s).families name ≠ none
  open_does : ∀ s names, Does view s ((DBOpen names).run s) fun handles v =>
    (view s).Opened v names handles
  create_does : ∀ s name, Does view s ((CreateColumnFamily name).run s) fun h v =>
    (view s).families name = none ∧ (view s).ref h = .unused ∧ v = (view s).create name h
  drop_does : ∀ s h, Does view s ((DropColumnFamily h).run s) fun _ v =>
    ∃ name, name ≠ kDefaultColumnFamilyName ∧ (view s).ref h = .names name ∧ v = (view s).drop name
  put_does : ∀ s h key value, Does view s ((Put h key value).run s) fun _ v =>
    ∃ name c, (view s).ref h = .names name ∧ (view s).families name = some c ∧
      v = (view s).put name c key value
  close_view : ∀ s, view (close s) = (view s).closed

end DistroDefender.Kvdb
