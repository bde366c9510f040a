import Mathlib.Logic.Relation

/-!
# Calls that may throw

A call is an `EStateM`: it reads and writes a state, returns or throws, and what it wrote before a
throw stays written. The state a call leaves behind is `resultState`; the equations below push `run`
through the ways calls are built. `Moves` says that a call changes its state by steps of a relation
only, however it ends.
-/

namespace DistroDefender.Lib

variable {ε σ τ α β : Type}

/-- The state a call leaves behind, returned or thrown. -/
def resultState : EStateM.Result ε σ α → σ
  | .ok _ s => s
  | .error _ s => s

@[simp] theorem resultState_ok (a : α) (s : σ) :
    resultState (.ok a s : EStateM.Result ε σ α) = s := rfl

@[simp] theorem resultState_error (e : ε) (s : σ) :
    resultState (.error e s : EStateM.Result ε σ α) = s := rfl

@[simp] theorem run_raise (e : ε) (s : σ) :
    EStateM.run (throw e : EStateM ε σ α) s = .error e s := rfl

@[simp] theorem run_fmap (f : α → β) (x : EStateM ε σ α) (s : σ) :
    EStateM.run (f <$> x) s =
      match EStateM.run x s with
      | .ok a s => .ok (f a) s
      | .error e s => .error e s := rfl

/-- What a call answers does not matter to the state it leaves behind. -/
theorem resultState_then_pure (x : EStateM ε σ α) (b : β) (s : σ) :
    resultState ((x >>= fun _ => pure b).run s) = resultState (x.run s) := by
  rw [EStateM.run_bind]
  cases x.run s <;> rfl

/-- Nor does what is made of it. -/
theorem resultState_bind_pure (x : EStateM ε σ α) (f : α → β) (s : σ) :
    resultState ((x >>= fun a => pure (f a)).run s) = resultState (x.run s) := by
  rw [EStateM.run_bind]
  cases x.run s <;> rfl

/-- A call of a pure function that may throw. -/
def orThrow : Except ε α → EStateM ε σ α
  | .ok a => pure a
  | .error e => throw e

@[simp] theorem run_orThrow_ok (a : α) (s : σ) :
    EStateM.run (orThrow (.ok a : Except ε α)) s = .ok a s := rfl

@[simp] theorem run_orThrow_error (e : ε) (s : σ) :
    EStateM.run (orThrow (.error e : Except ε α)) s = .error e s := rfl

/-- A call on the part of the state that `get` reads and `put` writes. -/
def onPart (part : σ → τ) (put : τ → σ → σ) (x : EStateM ε τ α) : EStateM ε σ α := fun s =>
  match EStateM.run x (part s) with
  | .ok a t => .ok a (put t s)
  | .error e t => .error e (put t s)

theorem run_onPart (part : σ → τ) (put : τ → σ → σ) (x : EStateM ε τ α) (s : σ) :
    EStateM.run (onPart part put x) s =
      match EStateM.run x (part s) with
      | .ok a t => .ok a (put t s)
      | .error e t => .error e (put t s) := rfl

/-! ## Loops -/

/-- The rule for a loop that returns: `I` speaks of the elements already done. -/
theorem run_forM {f : α → EStateM ε σ Unit} {I : List α → σ → Prop} {l : List α}
    (step : ∀ done a rest s, l = done ++ a :: rest → I done s →
      ∃ s', (f a).run s = .ok () s' ∧ I (done ++ [a]) s')
    {s : σ} (h : I [] s) : ∃ s', (forM l f).run s = .ok () s' ∧ I l s' := by
  suffices hgen : ∀ rest done s, l = done ++ rest → I done s →
      ∃ s', (forM rest f).run s = .ok () s' ∧ I l s' from hgen l [] s rfl h
  intro rest
  induction rest with
  | nil =>
    intro done s hl hs
    rw [List.append_nil] at hl
    exact ⟨s, rfl, hl ▸ hs⟩
  | cons a rest ih =>
    intro done s hl hs
    obtain ⟨s₁, hrun, hs₁⟩ := step done a rest s hl hs
    obtain ⟨s₂, hrest, hs₂⟩ := ih (done ++ [a]) s₁ (by simp [hl]) hs₁
    refine ⟨s₂, ?_, hs₂⟩
    rw [List.forM_cons, EStateM.run_bind, hrun]
    exact hrest

/-- What every turn keeps, the loop keeps. -/
theorem forM_keeps {f : α → EStateM ε σ Unit} {I : σ → Prop} {l : List α}
    (step : ∀ a ∈ l, ∀ s s', I s → (f a).run s = .ok () s' → I s') {s s' : σ} (h : I s)
    (hrun : (forM l f).run s = .ok () s') : I s' := by
  induction l generalizing s with
  | nil =>
    cases hrun
    exact h
  | cons a l ih =>
    rw [List.forM_cons, EStateM.run_bind] at hrun
    cases ha : (f a).run s with
    | ok u s₁ =>
      rw [ha] at hrun
      exact ih (fun b hb => step b (List.mem_cons_of_mem a hb))
        (step a List.mem_cons_self s s₁ h ha) hrun
    | error e s₁ =>
      rw [ha] at hrun
      cases hrun

/-- What one turn brings about and every turn keeps holds after the loop. -/
theorem forM_reaches {f : α → EStateM ε σ Unit} {I : σ → Prop} {l : List α} {a : α} (ha : a ∈ l)
    (hself : ∀ s s', (f a).run s = .ok () s' → I s')
    (step : ∀ b ∈ l, ∀ s s', I s → (f b).run s = .ok () s' → I s') {s s' : σ}
    (hrun : (forM l f).run s = .ok () s') : I s' := by
  induction l generalizing s with
  | nil => cases ha
  | cons b l ih =>
    rw [List.forM_cons, EStateM.run_bind] at hrun
    have hrest : ∀ c ∈ l, ∀ s s', I s → (f c).run s = .ok () s' → I s' :=
      fun c hc => step c (List.mem_cons_of_mem b hc)
    cases hb : (f b).run s with
    | ok u s₁ =>
      rw [hb] at hrun
      rcases List.mem_cons.mp ha with rfl | hmem
      · exact forM_keeps hrest (hself s s₁ hb) hrun
      · exact ih hmem hrest hrun
    | error e s₁ =>
      rw [hb] at hrun
      cases hrun

/-! ## Calls that move along a relation -/

/-- The call, run in the state, leads along `R`, returned or thrown. -/
def Moves (R : σ → σ → Prop) (x : EStateM ε σ α) (s : σ) : Prop :=
  Relation.ReflTransGen R s (resultState (x.run s))

namespace Moves

variable {R : σ → σ → Prop} {s : σ}

protected theorem pure (a : α) : Moves R (pure a : EStateM ε σ α) s := .refl

protected theorem raise (e : ε) : Moves R (throw e : EStateM ε σ α) s := .refl

protected theorem orThrow (x : Except ε α) : Moves R (orThrow x) s := by
  cases x <;> exact .refl

protected theorem set {s' : σ} (h : R s s') : Moves R (set s' : EStateM ε σ PUnit) s := .single h

protected theorem modify {f : σ → σ} (h : R s (f s)) : Moves R (modify f : EStateM ε σ PUnit) s :=
  .single h

/-- Calls in sequence. -/
protected theorem bind {x : EStateM ε σ α} {f : α → EStateM ε σ β} (hx : Moves R x s)
    (hf : ∀ a s', x.run s = .ok a s' → Moves R (f a) s') : Moves R (x >>= f) s := by
  unfold Moves at hx ⊢
  rw [EStateM.run_bind]
  cases h : x.run s with
  | ok a s' =>
    rw [h] at hx
    exact hx.trans (hf a s' h)
  | error e s' =>
    rw [h] at hx
    exact hx

/-- A call that looks at the state first. -/
protected theorem get_bind {f : σ → EStateM ε σ α} (h : Moves R (f s) s) :
    Moves R (get >>= f) s := h

protected theorem forM {f : α → EStateM ε σ Unit} (l : List α) (h : ∀ a s, Moves R (f a) s)
    (s : σ) : Moves R (forM l f) s := by
  induction l generalizing s with
  | nil => exact .pure ()
  | cons a l ih =>
    rw [List.forM_cons]
    exact .bind (h a s) fun _ s' _ => ih s'

/-- A call on a part of the state. -/
protected theorem onPart {part : σ → τ} {put : τ → σ → σ} (h : ∀ t, R s (put t s))
    (x : EStateM ε τ α) : Moves R (onPart part put x) s := by
  unfold Moves
  rw [run_onPart]
  cases x.run (part s) <;> exact .single (h _)

/-- What every step keeps, the call keeps. -/
theorem keeps {I : σ → Prop} (hI : ∀ s s', R s s' → I s → I s') {x : EStateM ε σ α}
    (h : Moves R x s) (hs : I s) : I (resultState (x.run s)) := by
  unfold Moves at h
  generalize resultState (x.run s) = s' at h
  induction h with
  | refl => exact hs
  | tail _ hstep ih => exact hI _ _ hstep ih

end Moves

/-! ## Calls on a larger state -/

/-- The result with the state seen through `part`. -/
def mapResult (part : σ → τ) : EStateM.Result ε σ α → EStateM.Result ε τ α
  | .ok a s => .ok a (part s)
  | .error e s => .error e (part s)

/-- On the part of the state, the call does what another call does. -/
def Follows (part : σ → τ) (x : EStateM ε σ α) (y : EStateM ε τ α) (s : σ) : Prop :=
  mapResult part (x.run s) = y.run (part s)

namespace Follows

variable {part : σ → τ} {s : σ}

protected theorem pure (a : α) : Follows part (pure a : EStateM ε σ α) (pure a) s := rfl

protected theorem raise (e : ε) : Follows part (throw e : EStateM ε σ α) (throw e) s := rfl

protected theorem orThrow (x : Except ε α) : Follows part (orThrow x) (orThrow x) s := by
  cases x <;> rfl

protected theorem set {s' : σ} {t : τ} (h : part s' = t) :
    Follows part (set s' : EStateM ε σ PUnit) (set t) s := by
  rw [← h]
  rfl

protected theorem modify {f : σ → σ} {g : τ → τ} (h : part (f s) = g (part s)) :
    Follows part (modify f : EStateM ε σ PUnit) (modify g) s := by
  show EStateM.Result.ok PUnit.unit (part (f s)) = .ok PUnit.unit (g (part s))
  rw [h]

protected theorem bind {x : EStateM ε σ α} {y : EStateM ε τ α} {f : α → EStateM ε σ β}
    {g : α → EStateM ε τ β} (hx : Follows part x y s)
    (hf : ∀ a s', x.run s = .ok a s' → Follows part (f a) (g a) s') :
    Follows part (x >>= f) (y >>= g) s := by
  unfold Follows at hx ⊢
  rw [EStateM.run_bind, EStateM.run_bind, ← hx]
  cases h : x.run s with
  | ok a s' => exact hf a s' h
  | error e s' => rfl

protected theorem get_bind {f : σ → EStateM ε σ α} {g : τ → EStateM ε τ α}
    (h : Follows part (f s) (g (part s)) s) : Follows part (get >>= f) (get >>= g) s := h

/-- A call that changes nothing of the part. -/
protected theorem skip {x : EStateM ε σ β} {b : β} {s' : σ} {f : β → EStateM ε σ α}
    {y : EStateM ε τ α} (hx : x.run s = .ok b s') (hpart : part s' = part s)
    (h : Follows part (f b) y s') :
    Follows part (x >>= f) y s := by
  unfold Follows at h ⊢
  rw [EStateM.run_bind, hx, ← hpart]
  exact h

protected theorem onPart {put : τ → σ → σ} (h : ∀ t s, part (put t s) = t) (x : EStateM ε τ α) :
    Follows part (onPart part put x) x s := by
  unfold Follows
  rw [run_onPart]
  cases x.run (part s) with
  | ok a t => exact congrArg (EStateM.Result.ok a) (h t s)
  | error e t => exact congrArg (EStateM.Result.error e) (h t s)

protected theorem forM {f : α → EStateM ε σ Unit} {g : α → EStateM ε τ Unit} (l : List α)
    (h : ∀ a s, Follows part (f a) (g a) s) (s : σ) : Follows part (forM l f) (forM l g) s := by
  induction l generalizing s with
  | nil => exact .pure ()
  | cons a l ih =>
    rw [List.forM_cons, List.forM_cons]
    exact .bind (h a s) fun _ s' _ => ih s'

end Follows

end DistroDefender.Lib
