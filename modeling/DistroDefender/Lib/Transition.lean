import Mathlib.Logic.Basic

/-!
# Labelled transition systems

A system is a set of initial states and a labelled step relation. Three rules are used below:

* the invariant rule (`System.Inductive.holds`): what holds initially and is kept by every step
  holds in every reachable state;
* the guarded rule (`System.guarded`): the runs whose steps all meet a condition are the runs of a
  system of their own, so invariants of such runs are ordinary invariants;
* the simulation rule (`Simulation.trace`): a relation matched step by step carries every trace of
  the concrete system to a trace of the abstract one, with the same labels.
-/

namespace DistroDefender.Lib

universe u v w

/-- A labelled transition system. -/
structure System (σ : Type u) (Λ : Type v) where
  init : σ → Prop
  step : σ → Λ → σ → Prop

namespace System

variable {σ : Type u} {Λ : Type v} {S : System σ Λ}

/-- The states some run reaches. -/
inductive Reachable (S : System σ Λ) : σ → Prop
  | init {s : σ} (h : S.init s) : Reachable S s
  | step {s s' : σ} {l : Λ} (hs : Reachable S s) (h : S.step s l s') : Reachable S s'

/-- The runs, with the labels of their steps in order. -/
inductive Trace (S : System σ Λ) : List Λ → σ → Prop
  | nil {s : σ} (h : S.init s) : Trace S [] s
  | snoc {ls : List Λ} {s s' : σ} {l : Λ} (hs : Trace S ls s) (h : S.step s l s') :
      Trace S (ls ++ [l]) s'

/-- `I` holds initially and every step keeps it. -/
structure Inductive (S : System σ Λ) (I : σ → Prop) : Prop where
  init : ∀ s, S.init s → I s
  step : ∀ s l s', I s → S.step s l s' → I s'

/-- The invariant rule. -/
theorem Inductive.holds {I : σ → Prop} (hI : S.Inductive I) {s : σ} (h : S.Reachable s) : I s := by
  induction h with
  | init h => exact hI.init _ h
  | step _ h ih => exact hI.step _ _ _ ih h

/-- The runs of `S` whose steps all meet `g`. -/
def guarded (S : System σ Λ) (g : σ → Λ → Prop) : System σ Λ where
  init := S.init
  step s l s' := g s l ∧ S.step s l s'

/-- A guarded run is a run. -/
theorem Reachable.of_guarded {g : σ → Λ → Prop} {s : σ} (h : (S.guarded g).Reachable s) :
    S.Reachable s := by
  induction h with
  | init h => exact .init h
  | step _ h ih => exact ih.step h.2

/-- A run that meets a condition meets a weaker one. -/
theorem Reachable.weaken {g g' : σ → Λ → Prop} {s : σ} (h : (S.guarded g).Reachable s)
    (hg : ∀ s l, g s l → g' s l) : (S.guarded g').Reachable s := by
  induction h with
  | init h => exact .init h
  | step _ h ih => exact ih.step ⟨hg _ _ h.1, h.2⟩

end System

/-- `R` relates the initial states and every concrete step is matched by an abstract step with the
same label. -/
structure Simulation {σ : Type u} {τ : Type w} {Λ : Type v} (C : System σ Λ) (A : System τ Λ)
    (R : σ → τ → Prop) : Prop where
  init : ∀ s, C.init s → ∃ t, A.init t ∧ R s t
  step : ∀ s t l s', R s t → C.step s l s' → ∃ t', A.step t l t' ∧ R s' t'

/-- The simulation rule: every concrete trace is an abstract trace, ending in related states. -/
theorem Simulation.trace {σ : Type u} {τ : Type w} {Λ : Type v} {C : System σ Λ} {A : System τ Λ}
    {R : σ → τ → Prop} (h : Simulation C A R) {ls : List Λ} {s : σ} (hs : C.Trace ls s) :
    ∃ t, A.Trace ls t ∧ R s t := by
  induction hs with
  | nil hi =>
    obtain ⟨t, ht, hR⟩ := h.init _ hi
    exact ⟨t, .nil ht, hR⟩
  | snoc _ hstep ih =>
    obtain ⟨t, ht, hR⟩ := ih
    obtain ⟨t', ht', hR'⟩ := h.step _ _ _ _ hR hstep
    exact ⟨t', ht.snoc ht', hR'⟩

end DistroDefender.Lib
