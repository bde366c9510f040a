import DistroDefender.Base.Json
import DistroDefender.Base.Name
import Mathlib.Logic.Function.Basic

/-!
# Storage drivers

`IDriver` is the interface the store calls, over the driver's own state. `TreeDriver` is what the
store relies on: the driver keeps a tree of documents keyed by real name, a call that does not
succeed leaves the tree as it was, and a call that succeeds has the effect its name says.
`ColDriver` adds that a collection exists exactly when a document lies strictly below it, and that
reading it lists its children.
-/

namespace DistroDefender.Store

open Base

abbrev Doc := Json

abbrev Col := List Name

/-- `store::IDriver`, over the state `σ` of the driver. -/
structure IDriver (σ : Type) where
  createDoc : Name → Doc → Call σ OptError
  readDoc : Name → σ → RespOrError Doc
  updateDoc : Name → Doc → Call σ OptError
  upsertDoc : Name → Doc → Call σ OptError
  deleteDoc : Name → Call σ OptError
  readCol : Name → σ → Except Throw (RespOrError Col)
  deleteCol : Name → Call σ OptError
  existsDoc : Name → σ → Bool
  existsCol : Name → σ → Bool

/-- The call returned `noError()`. -/
def succeeded {σ : Type} : EStateM.Result Throw σ OptError → Bool
  | .ok none _ => true
  | _ => false

/-- A result is a success with precondition `pre` and effect `post` on the documents, or a failure
without effect. -/
def Applies {σ : Type} (docs : σ → Name → Option Doc) (s : σ)
    (r : EStateM.Result Throw σ OptError) (pre : Prop) (post : Name → Option Doc) : Prop :=
  match r with
  | .ok none s' => pre ∧ docs s' = post
  | .ok (some _) s' | .error _ s' => docs s' = docs s

/-- A result is one of the two. -/
theorem Applies.cases {σ : Type} {docs : σ → Name → Option Doc} {s : σ}
    {r : EStateM.Result Throw σ OptError} {pre : Prop} {post : Name → Option Doc}
    (h : Applies docs s r pre post) :
    (∃ t, r = .ok none t ∧ pre ∧ docs t = post) ∨
      (succeeded r = false ∧ docs (Lib.resultState r) = docs s) := by
  rcases r with ⟨_ | e, t⟩ | ⟨e, t⟩
  · exact .inl ⟨t, rfl, h⟩
  · exact .inr ⟨rfl, h⟩
  · exact .inr ⟨rfl, h⟩

theorem Applies.mono {σ : Type} {docs : σ → Name → Option Doc} {s : σ}
    {r : EStateM.Result Throw σ OptError} {pre pre' : Prop} {post : Name → Option Doc}
    (h : Applies docs s r pre post) (hpre : pre → pre') : Applies docs s r pre' post := by
  rcases r with ⟨_ | e, t⟩ | ⟨e, t⟩
  · exact ⟨hpre h.1, h.2⟩
  · exact h
  · exact h

/-- A driver that keeps a tree of documents keyed by real name. -/
structure TreeDriver (σ : Type) extends IDriver σ where
  docs : σ → Name → Option Doc
  /-- No name is both a document and a collection. -/
  tree : ∀ s n m, docs s n ≠ none → docs s m ≠ none → ¬ n.Below m
  createDoc_applies : ∀ s n c, Applies docs s ((createDoc n c).run s)
    (docs s n = none) (Function.update (docs s) n (some c))
  updateDoc_applies : ∀ s n c, Applies docs s ((updateDoc n c).run s)
    (docs s n ≠ none) (Function.update (docs s) n (some c))
  upsertDoc_applies : ∀ s n c, Applies docs s ((upsertDoc n c).run s)
    True (Function.update (docs s) n (some c))
  deleteDoc_applies : ∀ s n, Applies docs s ((deleteDoc n).run s)
    (docs s n ≠ none) (Function.update (docs s) n none)
  deleteCol_applies : ∀ s c, Applies docs s ((deleteCol c).run s)
    True (fun n => if c.Below n then none else docs s n)
  readDoc_eq_ok : ∀ s n c, readDoc n s = .ok c ↔ docs s n = some c
  existsDoc_iff : ∀ s n, existsDoc n s = true ↔ docs s n ≠ none

/-- `m` is a child of `c`: one part longer. -/
def ChildOf (m c : Name) : Prop := c.parts <+: m.parts ∧ m.parts.length = c.parts.length + 1

/-- A tree driver whose collections are exactly the names with a document strictly below. -/
structure ColDriver (σ : Type) extends TreeDriver σ where
  existsCol_iff : ∀ s c, existsCol c s = true ↔ ∃ n, docs s n ≠ none ∧ c.Below n
  readCol_of_exists : ∀ s c, existsCol c s = true →
    ∃ l, readCol c s = .ok (.ok l) ∧ l.Nodup ∧
      ∀ m, m ∈ l ↔ ChildOf m c ∧ ∃ n, docs s n ≠ none ∧ m.parts <+: n.parts

end DistroDefender.Store
