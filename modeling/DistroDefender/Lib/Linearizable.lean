import DistroDefender.Lib.Transition
import Mathlib.Logic.Function.Basic

/-!
# Objects and the histories of their clients

An object says what a request may answer and what it makes of the state. Its clients make requests
and get their answers, and in between each request takes effect in one step (`Object.clients`). What
the clients see is a history of calls and answers; a history is linearizable for an object when the
clients of the object can see it.

`Object.Refines.linearizable` carries linearizability along a refinement of objects, and
`Matches.linearizable` shows it for a system whose steps are matched by steps of those clients.
-/

namespace DistroDefender.Lib

/-- What a client sees: a call it makes and the answer it gets. -/
inductive Event (Q ρ : Type) where
  | invoke (q : Q)
  | respond (r : ρ)

/-- `step s q r s'`: on `s` the request `q` may answer `r` and leave `s'`. -/
structure Object (σ Q ρ : Type) where
  init : σ → Prop
  step : σ → Q → ρ → σ → Prop

variable {ι σ τ Q ρ : Type}

namespace Object

/-- Where a client is. -/
inductive Stage (Q ρ : Type) where
  | idle
  | asked (q : Q)
  | answered (r : ρ)

/-- The steps of a client. -/
inductive Act (Q ρ : Type) where
  | invoke (q : Q)
  | commit
  | respond (r : ρ)

def Act.event : Act Q ρ → Option (Event Q ρ)
  | .invoke q => some (.invoke q)
  | .commit => none
  | .respond r => some (.respond r)

/-- What the clients see of a run. -/
def history (ls : List (ι × Act Q ρ)) : List (ι × Event Q ρ) :=
  ls.filterMap fun l => l.2.event.map fun e => (l.1, e)

@[simp] theorem history_append (ls ls' : List (ι × Act Q ρ)) :
    history (ls ++ ls') = history ls ++ history ls' := List.filterMap_append

section

variable [DecidableEq ι]

/-- One step of client `i`. -/
inductive Step (O : Object σ Q ρ) : σ × (ι → Stage Q ρ) → ι × Act Q ρ → σ × (ι → Stage Q ρ) → Prop
  | invoke {s : σ} {f : ι → Stage Q ρ} {i : ι} (q : Q) (h : f i = .idle) :
      Step O (s, f) (i, .invoke q) (s, Function.update f i (.asked q))
  /-- The request takes effect. -/
  | commit {s s' : σ} {f : ι → Stage Q ρ} {i : ι} {q : Q} {r : ρ} (h : f i = .asked q)
      (ho : O.step s q r s') : Step O (s, f) (i, .commit) (s', Function.update f i (.answered r))
  | respond {s : σ} {f : ι → Stage Q ρ} {i : ι} {r : ρ} (h : f i = .answered r) :
      Step O (s, f) (i, .respond r) (s, Function.update f i .idle)

/-- The clients of an object. -/
def clients (O : Object σ Q ρ) (ι : Type) [DecidableEq ι] :
    System (σ × (ι → Stage Q ρ)) (ι × Act Q ρ) where
  init x := O.init x.1 ∧ ∀ i, x.2 i = .idle
  step := Step O

/-- The clients of the object can see this history. -/
def Linearizable (O : Object σ Q ρ) (h : List (ι × Event Q ρ)) : Prop :=
  ∃ ls x, (O.clients ι).Trace ls x ∧ history ls = h

end

/-! ## Refinement of objects -/

/-- Every answer of `O` is one of `P`, on states that `R` relates. -/
structure Refines (O : Object σ Q ρ) (P : Object τ Q ρ) (R : σ → τ → Prop) : Prop where
  init : ∀ s, O.init s → ∃ t, P.init t ∧ R s t
  step : ∀ s t q r s', R s t → O.step s q r s' → ∃ t', P.step t q r t' ∧ R s' t'

section

variable [DecidableEq ι] {O : Object σ Q ρ} {P : Object τ Q ρ} {R : σ → τ → Prop}

/-- The clients of the two objects go through the same stages. -/
theorem Refines.simulation (h : Refines O P R) :
    Simulation (O.clients ι) (P.clients ι) fun x y => R x.1 y.1 ∧ x.2 = y.2 where
  init := by
    rintro ⟨s, f⟩ ⟨hs, hf⟩
    obtain ⟨t, ht, hR⟩ := h.init s hs
    exact ⟨(t, f), ⟨ht, hf⟩, hR, rfl⟩
  step := by
    rintro ⟨s, f⟩ ⟨t, g⟩ l x' ⟨hR, hfg⟩ hstep
    cases hfg
    cases hstep with
    | invoke q hi => exact ⟨_, .invoke q hi, hR, rfl⟩
    | commit hi ho =>
      obtain ⟨t', ht', hR'⟩ := h.step _ _ _ _ _ hR ho
      exact ⟨_, .commit hi ht', hR', rfl⟩
    | respond hi => exact ⟨_, .respond hi, hR, rfl⟩

theorem Refines.linearizable (h : Refines O P R) {es : List (ι × Event Q ρ)}
    (hes : O.Linearizable es) : P.Linearizable es := by
  obtain ⟨ls, x, hls, rfl⟩ := hes
  obtain ⟨y, hy, -⟩ := h.simulation.trace hls
  exact ⟨ls, y, hy, rfl⟩

end

/-! ## Systems whose clients see what the clients of an object see -/

section

variable [DecidableEq ι] {κ Λ : Type}

/-- Every step of `S` is a step of the clients of `O` that shows the same, or shows nothing and is
no step of theirs. -/
structure Matches (S : System κ Λ) (event : Λ → Option (ι × Event Q ρ)) (O : Object σ Q ρ)
    (R : κ → σ × (ι → Stage Q ρ) → Prop) : Prop where
  init : ∀ a, S.init a → ∃ x, (O.clients ι).init x ∧ R a x
  step : ∀ a x l a', R a x → S.step a l a' →
    event l = none ∧ R a' x ∨
      ∃ m x', Step O x m x' ∧ m.2.event.map (fun e => (m.1, e)) = event l ∧ R a' x'

/-- Every history of `S` is linearizable. -/
theorem Matches.linearizable {S : System κ Λ} {event : Λ → Option (ι × Event Q ρ)}
    {O : Object σ Q ρ} {R : κ → σ × (ι → Stage Q ρ) → Prop} (h : Matches S event O R)
    {ls : List Λ} {a : κ} (hls : S.Trace ls a) : O.Linearizable (ls.filterMap event) := by
  suffices hgen : ∃ ms x, (O.clients ι).Trace ms x ∧ history ms = ls.filterMap event ∧ R a x by
    obtain ⟨ms, x, hms, heq, -⟩ := hgen
    exact ⟨ms, x, hms, heq⟩
  induction hls with
  | nil hi =>
    obtain ⟨x, hx, hR⟩ := h.init _ hi
    exact ⟨[], x, .nil hx, rfl, hR⟩
  | @snoc ls a a' l _ hstep ih =>
    obtain ⟨ms, x, hms, heq, hR⟩ := ih
    rw [List.filterMap_append, ← heq]
    rcases h.step _ _ _ _ hR hstep with ⟨hnone, hR'⟩ | ⟨m, x', hm, hev, hR'⟩
    · refine ⟨ms, x, hms, ?_, hR'⟩
      rw [List.filterMap_cons_none hnone, List.filterMap_nil, List.append_nil]
    · refine ⟨ms ++ [m], x', hms.snoc hm, ?_, hR'⟩
      rw [history_append]
      congr 1
      unfold history
      simp only [List.filterMap_cons, List.filterMap_nil, hev]

end

end Object

end DistroDefender.Lib
