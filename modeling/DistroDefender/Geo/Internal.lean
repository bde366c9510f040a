import DistroDefender.Geo.Manager
import DistroDefender.Store.MemDriver
import DistroDefender.Store.Refinement

/-!
# Stores of internal documents

`InternalStore` is what the manager relies on: a tree of documents keyed by name, where a call that
does not succeed changes nothing, and a collection lists its children. A store over a driver is one
(`InternalStore.ofStore`). `audited` records beside the store whether every call that writes has
succeeded.
-/

namespace DistroDefender.Geo

open Base Lib Store

/-- A store that keeps internal documents keyed by name. -/
structure InternalStore (τ : Type) extends IStoreInternal τ where
  docs : τ → Name → Option Doc
  upsert_applies : ∀ t n c, Applies docs t ((upsertInternalDoc n c).run t) True
    (Function.update (docs t) n (some c))
  delete_applies : ∀ t n, Applies docs t ((deleteInternalDoc n).run t) (docs t n ≠ none)
    (Function.update (docs t) n none)
  readDoc_eq_ok : ∀ t n c, readInternalDoc n t = .ok c ↔ docs t n = some c
  readCol_below : ∀ t c, (∃ n, docs t n ≠ none ∧ c.Below n) →
    ∃ l, readInternalCol c t = .ok (.ok l) ∧ l.Nodup ∧
      ∀ m, m ∈ l ↔ ChildOf m c ∧ ∃ n, docs t n ≠ none ∧ m.parts <+: n.parts
  readCol_none : ∀ t c, (¬ ∃ n, docs t n ≠ none ∧ c.Below n) →
    ∃ e, readInternalCol c t = .ok (.error e)

section OfStore

variable {σ : Type}

/-- An internal write changes the documents as its driver call does. -/
theorem internalWrite_applies (d : TreeDriver σ) {verb : String} {name : Name} {x : Call σ OptError}
    {s : Store σ} {pre : Prop} {post : Name → Option Doc}
    (h : Applies d.docs s.driver (x.run s.driver) pre post) :
    Applies (fun s : Store σ => d.docs s.driver) s
      ((internalWrite verb name x).run s) pre post := by
  rw [run_internalWrite]
  cases internalNameError verb name with
  | some e => rfl
  | none =>
    simp only
    rcases h.cases with ⟨t, ht, hpre, hpost⟩ | ⟨hf, hdocs⟩
    · rw [ht]
      exact ⟨hpre, hpost⟩
    · generalize x.run s.driver = r at hf hdocs
      rcases r with ⟨_ | e, t⟩ | ⟨e, t⟩
      · cases hf
      · exact hdocs
      · exact hdocs

/-- The internal documents of a store, over a driver that reports a collection that is not there. -/
def InternalStore.ofStore (d : ColDriver σ)
    (hnone : ∀ s c, d.existsCol c s = false → ∃ e, d.readCol c s = .ok (.error e)) :
    InternalStore (Store σ) where
  toIStoreInternal := .ofStore d.toIDriver
  docs s := d.docs s.driver
  upsert_applies s n c := internalWrite_applies d.toTreeDriver (applies_upsertInternal n c s.driver)
  delete_applies s n := internalWrite_applies d.toTreeDriver (d.deleteDoc_applies s.driver n)
  readDoc_eq_ok s n c := d.readDoc_eq_ok s.driver n c
  readCol_below s c h := d.readCol_of_exists s.driver c ((d.existsCol_iff s.driver c).mpr h)
  readCol_none s c h := hnone s.driver c (by rw [← Bool.not_eq_true, d.existsCol_iff]; exact h)

end OfStore

/-! ## Calls whose success is recorded -/

variable {τ : Type}

/-- The call, with a record of whether it and every one before it succeeded. -/
def audit (x : Call τ OptError) : Call (τ × Bool) OptError := fun t =>
  match x.run t.1 with
  | .ok none t' => .ok none (t', t.2)
  | .ok (some e) t' => .ok (some e) (t', false)
  | .error e t' => .error e (t', false)

/-- The store with a record of whether every call that writes has succeeded. -/
def IStoreInternal.audited (S : IStoreInternal τ) : IStoreInternal (τ × Bool) where
  readInternalCol name t := S.readInternalCol name t.1
  readInternalDoc name t := S.readInternalDoc name t.1
  upsertInternalDoc name doc := audit (S.upsertInternalDoc name doc)
  deleteInternalDoc name := audit (S.deleteInternalDoc name)

/-- A call after which all have succeeded did what it is for. -/
theorem audit_succeeded {docs : τ → Name → Option Doc} {x : Call τ OptError} {t : τ × Bool}
    {pre : Prop} {post : Name → Option Doc} (h : Applies docs t.1 (x.run t.1) pre post)
    (hok : (resultState ((audit x).run t)).2 = true) :
    t.2 = true ∧ docs (resultState ((audit x).run t)).1 = post := by
  unfold audit at hok ⊢
  simp only [EStateM.run] at hok ⊢
  rcases h.cases with ⟨t', ht', -, hpost⟩ | ⟨hf, -⟩
  · simp only [EStateM.run] at ht'
    rw [ht'] at hok ⊢
    exact ⟨hok, hpost⟩
  · simp only [EStateM.run] at hf
    generalize x t.1 = r at hf hok
    rcases r with ⟨_ | e, t'⟩ | ⟨e, t'⟩
    · cases hf
    · cases hok
    · cases hok

end DistroDefender.Geo
