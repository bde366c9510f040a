import DistroDefender.Lib.Effect

/-!
# Programs that make calls

A `Prog` returns, throws, or makes a call and goes on with the answer. Given a handler for the calls
a program runs to its end (`Prog.run`). Where several programs run interleaved, one call at a time,
`Prog.resume` is what one call leaves of its program.
-/

namespace DistroDefender.Lib

/-- A program making calls `c : C` that are answered by `A c`. -/
inductive Prog (ε C : Type) (A : C → Type) (α : Type) where
  | ret (a : α)
  | raise (e : ε)
  | call (c : C) (k : A c → Prog ε C A α)

namespace Prog

variable {ε C : Type} {A : C → Type} {α β σ : Type}

def bind : Prog ε C A α → (α → Prog ε C A β) → Prog ε C A β
  | .ret a, f => f a
  | .raise e, _ => .raise e
  | .call c k, f => .call c fun a => bind (k a) f

instance : Monad (Prog ε C A) where
  pure := .ret
  bind := bind

@[simp] theorem pure_eq (a : α) : (pure a : Prog ε C A α) = .ret a := rfl

@[simp] theorem ret_bind (a : α) (f : α → Prog ε C A β) : (Prog.ret a >>= f) = f a := rfl

@[simp] theorem raise_bind (e : ε) (f : α → Prog ε C A β) : (Prog.raise e >>= f) = .raise e := rfl

@[simp] theorem call_bind (c : C) (k : A c → Prog ε C A α) (f : α → Prog ε C A β) :
    (Prog.call c k >>= f) = .call c fun a => k a >>= f := rfl

theorem bind_assoc {γ : Type} (p : Prog ε C A α) (f : α → Prog ε C A β) (g : β → Prog ε C A γ) :
    (p >>= f) >>= g = p >>= fun a => f a >>= g := by
  induction p with
  | ret a => rfl
  | raise e => rfl
  | call c k ih => exact congrArg (Prog.call c) (funext ih)

/-- A pure function that may throw. -/
def ofExcept : Except ε α → Prog ε C A α
  | .ok a => .ret a
  | .error e => .raise e

/-- The program run alone. -/
def run (handle : (c : C) → EStateM ε σ (A c)) : Prog ε C A α → EStateM ε σ α
  | .ret a => pure a
  | .raise e => throw e
  | .call c k => handle c >>= fun a => run handle (k a)

@[simp] theorem run_ret (handle : (c : C) → EStateM ε σ (A c)) (a : α) (s : σ) :
    (run handle (.ret a)).run s = .ok a s := rfl

@[simp] theorem run_raise (handle : (c : C) → EStateM ε σ (A c)) (e : ε) (s : σ) :
    (run handle (.raise e : Prog ε C A α)).run s = .error e s := rfl

theorem run_call_ok {handle : (c : C) → EStateM ε σ (A c)} {c : C} {k : A c → Prog ε C A α}
    {s s' : σ} {a : A c} (h : (handle c).run s = .ok a s') :
    (run handle (.call c k)).run s = (run handle (k a)).run s' := by
  show EStateM.run (handle c >>= _) s = _
  rw [EStateM.run_bind, h]

theorem run_call_error {handle : (c : C) → EStateM ε σ (A c)} {c : C} {k : A c → Prog ε C A α}
    {s s' : σ} {e : ε} (h : (handle c).run s = .error e s') :
    (run handle (.call c k)).run s = .error e s' := by
  show EStateM.run (handle c >>= _) s = _
  rw [EStateM.run_bind, h]

/-- A program of one call. -/
theorem run_single (handle : (c : C) → EStateM ε σ (A c)) (c : C) (s : σ) :
    (run handle (.call c .ret)).run s = (handle c).run s := by
  cases h : (handle c).run s with
  | ok a s' => exact run_call_ok h
  | error e s' => exact run_call_error h

theorem run_bind (handle : (c : C) → EStateM ε σ (A c)) (p : Prog ε C A α) (f : α → Prog ε C A β)
    (s : σ) :
    (run handle (p >>= f)).run s = (run handle p >>= fun a => run handle (f a)).run s := by
  induction p generalizing s with
  | ret a => rfl
  | raise e => rfl
  | call c k ih =>
    rw [call_bind, EStateM.run_bind]
    cases h : (handle c).run s with
    | ok a s' =>
      rw [run_call_ok h, run_call_ok h, ih a s', EStateM.run_bind]
    | error e s' => rw [run_call_error h, run_call_error h]

/-- The program, run to its end, keeps `I`. -/
def Keeps (handle : (c : C) → EStateM ε σ (A c)) (I : σ → Prop) (p : Prog ε C A α) : Prop :=
  ∀ s, I s → I (resultState ((run handle p).run s))

namespace Keeps

variable {handle : (c : C) → EStateM ε σ (A c)} {I : σ → Prop}

theorem ret (a : α) : Keeps handle I (.ret a) := fun _ h => h

theorem raise (e : ε) : Keeps handle I (.raise e : Prog ε C A α) := fun _ h => h

theorem call {c : C} {k : A c → Prog ε C A α} (hc : ∀ s, I s → I (resultState ((handle c).run s)))
    (hk : ∀ a, Keeps handle I (k a)) : Keeps handle I (.call c k) := by
  intro s hs
  have h := hc s hs
  cases hr : (handle c).run s with
  | ok a s' =>
    rw [run_call_ok hr]
    rw [hr] at h
    exact hk a s' h
  | error e s' =>
    rw [run_call_error hr]
    rw [hr] at h
    exact h

theorem bind {p : Prog ε C A α} {f : α → Prog ε C A β} (hp : Keeps handle I p)
    (hf : ∀ a, Keeps handle I (f a)) : Keeps handle I (p >>= f) := by
  intro s hs
  have h := hp s hs
  rw [run_bind, EStateM.run_bind]
  cases hr : (run handle p).run s with
  | ok a s' =>
    rw [hr] at h
    exact hf a s' h
  | error e s' =>
    rw [hr] at h
    exact h

end Keeps

/-- What is left of a program after its call was answered. -/
def resume (k : A c → Prog ε C A α) : EStateM.Result ε σ (A c) → Prog ε C A α
  | .ok a _ => k a
  | .error e _ => .raise e

/-- A program that will make no more calls. -/
inductive Over : Prog ε C A α → Prop
  | ret (a : α) : Over (.ret a)
  | raise (e : ε) : Over (.raise e)

theorem not_over_call {c : C} {k : A c → Prog ε C A α} : ¬ Over (.call c k) := nofun

theorem Over.resume {c : C} {k : A c → Prog ε C A α} (h : ∀ a, Over (k a))
    (r : EStateM.Result ε σ (A c)) : Over (resume k r) := by
  cases r with
  | ok a s => exact h a
  | error e s => exact .raise e

/-! ## Calls that are programs themselves -/

section

variable {D : Type} {B : D → Type} {τ : Type}

/-- The program with every call made by a program. -/
def expand (f : (c : D) → Prog ε C A (B c)) : Prog ε D B α → Prog ε C A α
  | .ret a => .ret a
  | .raise e => .raise e
  | .call c k => f c >>= fun a => expand f (k a)

theorem run_expand {handle : (c : C) → EStateM ε σ (A c)} {f : (c : D) → Prog ε C A (B c)}
    {g : (c : D) → EStateM ε σ (B c)} (hf : ∀ c s, (run handle (f c)).run s = (g c).run s)
    (p : Prog ε D B α) (s : σ) : (run handle (expand f p)).run s = (run g p).run s := by
  induction p generalizing s with
  | ret a => rfl
  | raise e => rfl
  | call c k ih =>
    show (run handle (f c >>= fun a => expand f (k a))).run s = _
    rw [run_bind, EStateM.run_bind, hf]
    cases hr : (g c).run s with
    | ok a s' =>
      rw [run_call_ok hr]
      exact ih a s'
    | error e s' => rw [run_call_error hr]

/-- A program whose calls concern a part of the state runs on that part. -/
theorem run_onPart {part : σ → τ} {put : τ → σ → σ} (hget : ∀ t s, part (put t s) = t)
    (hput : ∀ t t' s, put t' (put t s) = put t' s) (hself : ∀ s, put (part s) s = s)
    (g : (c : D) → EStateM ε τ (B c)) (p : Prog ε D B α) (s : σ) :
    (run (fun c => onPart part put (g c)) p).run s = (onPart part put (run g p)).run s := by
  induction p generalizing s with
  | ret a => exact congrArg (EStateM.Result.ok a) (hself s).symm
  | raise e => exact congrArg (EStateM.Result.error e) (hself s).symm
  | call c k ih =>
    have hcall := Lib.run_onPart part put (g c) s
    rw [Lib.run_onPart]
    cases hr : (g c).run (part s) with
    | ok a t =>
      rw [hr] at hcall
      rw [run_call_ok hr, run_call_ok (k := k) hcall, ih, Lib.run_onPart, hget]
      cases (run g (k a)).run t with
      | ok b t' => exact congrArg (EStateM.Result.ok b) (hput t t' s)
      | error e t' => exact congrArg (EStateM.Result.error e) (hput t t' s)
    | error e t =>
      rw [hr] at hcall
      rw [run_call_error hr, run_call_error (k := k) hcall]

end

end Prog

end DistroDefender.Lib
