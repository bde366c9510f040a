import DistroDefender.Lib.Linearizable
import DistroDefender.Lib.Prog
import DistroDefender.Lib.RwLock

/-!
# Requests under a readers-writer lock

A component answers a request by a program of calls that it runs under one readers-writer lock. Its
clients run interleaved, one call at a time (`Locked.system`). The requests take effect when they
get the lock: `Locked.linearizable` says that the histories of the component are linearizable for
the object that runs each program at once (`Locked.object`), in the runs in which a program that
writes overlaps no other.

`mode` is how the component takes the lock and `need` how it should: a program that `need` calls
shared only reads (`Prog.Reads`). Where the two agree every run will do.
-/

namespace DistroDefender.Lib

namespace Prog

variable {ε C : Type} {A : C → Type} {α β σ : Type} {handle : (c : C) → EStateM ε σ (A c)}

/-- No call of the program changes the state. -/
inductive Reads (handle : (c : C) → EStateM ε σ (A c)) : Prog ε C A α → Prop
  | ret (a : α) : Reads handle (.ret a)
  | raise (e : ε) : Reads handle (.raise e)
  | call {c : C} {k : A c → Prog ε C A α} (hc : ∀ s, resultState ((handle c).run s) = s)
      (hk : ∀ a, Reads handle (k a)) : Reads handle (.call c k)

namespace Reads

theorem bind {p : Prog ε C A α} {f : α → Prog ε C A β} (hp : Reads handle p)
    (hf : ∀ a, Reads handle (f a)) : Reads handle (p >>= f) := by
  induction hp with
  | ret a => exact hf a
  | raise e => exact .raise e
  | call hc _ ih => exact .call hc ih

theorem ofExcept (r : Except ε α) : Reads handle (Prog.ofExcept r) := by
  cases r with
  | ok a => exact .ret a
  | error e => exact .raise e

theorem expand {D : Type} {B : D → Type} {g : (c : D) → EStateM ε σ (B c)}
    {f : (c : D) → Prog ε C A (B c)}
    (hf : ∀ c, (∀ s, resultState ((g c).run s) = s) → Reads handle (f c)) {p : Prog ε D B α}
    (hp : Reads g p) : Reads handle (Prog.expand f p) := by
  induction hp with
  | ret a => exact .ret a
  | raise e => exact .raise e
  | call hc _ ih => exact .bind (hf _ hc) ih

/-- What reads a part reads the state. -/
theorem onPart {τ : Type} {part : σ → τ} {put : τ → σ → σ} (hself : ∀ s, put (part s) s = s)
    {g : (c : C) → EStateM ε τ (A c)} {p : Prog ε C A α} (hp : Reads g p) :
    Reads (fun c => onPart part put (g c)) p := by
  induction hp with
  | ret a => exact .ret a
  | raise e => exact .raise e
  | @call c k hc _ ih =>
    refine .call (fun s => ?_) ih
    have hs := hc (part s)
    rw [Lib.run_onPart]
    cases hr : (g c).run (part s) with
    | ok a t =>
      rw [hr] at hs
      exact (congrArg (put · s) hs).trans (hself s)
    | error e t =>
      rw [hr] at hs
      exact (congrArg (put · s) hs).trans (hself s)

theorem resume {c : C} {k : A c → Prog ε C A α} (h : Reads handle (.call c k))
    (r : EStateM.Result ε σ (A c)) : Reads handle (resume k r) := by
  cases h with
  | call _ hk =>
    cases r with
    | ok a s => exact hk a
    | error e s => exact .raise e

theorem call_keeps {c : C} {k : A c → Prog ε C A α} (h : Reads handle (.call c k)) (s : σ) :
    resultState ((handle c).run s) = s := by
  cases h with
  | call hc _ => exact hc s

/-- Run to its end, it leaves the state as it was. -/
theorem run {p : Prog ε C A α} (hp : Reads handle p) (s : σ) :
    resultState ((Prog.run handle p).run s) = s := by
  induction hp with
  | ret a => rfl
  | raise e => rfl
  | @call c k hc _ ih =>
    have hs := hc s
    cases hr : (handle c).run s with
    | ok a s' =>
      rw [hr] at hs
      cases hs
      rw [run_call_ok hr]
      exact ih a
    | error e s' =>
      rw [hr] at hs
      rw [run_call_error hr]
      exact hs

end Reads

/-- A call, and the rest of its program after it. -/
theorem run_resume (c : C) (k : A c → Prog ε C A α) (s : σ) :
    (run handle (.call c k)).run s =
      (run handle (resume k ((handle c).run s))).run (resultState ((handle c).run s)) := by
  cases hr : (handle c).run s with
  | ok a s' => exact run_call_ok hr
  | error e s' => exact run_call_error hr

end Prog

/-- What a call returned or threw. -/
def answer {ε σ α : Type} : EStateM.Result ε σ α → Except ε α
  | .ok a _ => .ok a
  | .error e _ => .error e

/-- A component under a lock: the mode a request takes it in and the program it runs. -/
structure Locked (ε C : Type) (A : C → Type) (σ Q α : Type) where
  init : σ → Prop
  handle : (c : C) → EStateM ε σ (A c)
  mode : Q → Mode
  body : Q → Prog ε C A α

namespace Locked

variable {ε C : Type} {A : C → Type} {σ Q α : Type}

/-- The component, one request at a time. -/
def object (K : Locked ε C A σ Q α) : Object σ Q (Except ε α) where
  init := K.init
  step s q r s' :=
    answer ((Prog.run K.handle (K.body q)).run s) = r ∧
      resultState ((Prog.run K.handle (K.body q)).run s) = s'

/-- Where a client is: `inside` with what is left of its program. -/
inductive Phase (ε C : Type) (A : C → Type) (Q α : Type) where
  | idle
  | waiting (q : Q)
  | inside (q : Q) (p : Prog ε C A α)
  | left (r : Except ε α)

/-- How a client holds the lock when requests take it as `m` says. -/
def Phase.held (m : Q → Mode) : Phase ε C A Q α → Option Mode
  | .inside q _ => some (m q)
  | .idle | .waiting _ | .left _ => none

/-- The steps of a client. -/
inductive Act (ε Q α : Type) where
  | invoke (q : Q)
  | acquire
  | call
  | release
  | respond (r : Except ε α)

/-- What a step shows. -/
def event {ι : Type} : ι × Act ε Q α → Option (ι × Event Q (Except ε α))
  | (i, .invoke q) => some (i, .invoke q)
  | (i, .respond r) => some (i, .respond r)
  | (_, .acquire) | (_, .call) | (_, .release) => none

/-- What the clients see of a run. -/
def history {ι : Type} (ls : List (ι × Act ε Q α)) : List (ι × Event Q (Except ε α)) :=
  ls.filterMap event

section

variable {ι : Type} [DecidableEq ι]

/-- One step of client `i`. The lock is released when the program is at its end, returned or
thrown. -/
inductive Step (K : Locked ε C A σ Q α) : σ × (ι → Phase ε C A Q α) → ι × Act ε Q α →
    σ × (ι → Phase ε C A Q α) → Prop
  | invoke {s : σ} {f : ι → Phase ε C A Q α} {i : ι} (q : Q) (h : f i = .idle) :
      Step K (s, f) (i, .invoke q) (s, Function.update f i (.waiting q))
  | acquire {s : σ} {f : ι → Phase ε C A Q α} {i : ι} {q : Q} (h : f i = .waiting q)
      (free : RwLock.Grants (fun j => (f j).held K.mode) (K.mode q)) :
      Step K (s, f) (i, .acquire) (s, Function.update f i (.inside q (K.body q)))
  | call {s : σ} {f : ι → Phase ε C A Q α} {i : ι} {q : Q} {c : C} {k : A c → Prog ε C A α}
      (h : f i = .inside q (.call c k)) :
      Step K (s, f) (i, .call) (resultState ((K.handle c).run s),
        Function.update f i (.inside q (Prog.resume k ((K.handle c).run s))))
  | release {s : σ} {f : ι → Phase ε C A Q α} {i : ι} {q : Q} {r : Except ε α}
      (h : f i = .inside q (.ofExcept r)) :
      Step K (s, f) (i, .release) (s, Function.update f i (.left r))
  | respond {s : σ} {f : ι → Phase ε C A Q α} {i : ι} {r : Except ε α} (h : f i = .left r) :
      Step K (s, f) (i, .respond r) (s, Function.update f i .idle)

/-- The clients of the component. -/
def system (K : Locked ε C A σ Q α) (ι : Type) [DecidableEq ι] :
    System (σ × (ι → Phase ε C A Q α)) (ι × Act ε Q α) where
  init x := K.init x.1 ∧ ∀ i, x.2 i = .idle
  step := Step K

/-- A request that gets the lock overlaps no other against `need`. -/
def Apart (need : Q → Mode) (x : σ × (ι → Phase ε C A Q α)) (l : ι × Act ε Q α) : Prop :=
  l.2 = .acquire → ∀ q, x.2 l.1 = .waiting q →
    RwLock.Grants (fun j => (x.2 j).held need) (need q)

/-! ## The simulation -/

variable {K : Locked ε C A σ Q α} {need : Q → Mode}

/-- A client inside has taken effect: the state of the object is the one its program will leave, and
its answer the one its program will give. -/
def Counterpart (K : Locked ε C A σ Q α) (need : Q → Mode) (s t : σ) :
    Phase ε C A Q α → Object.Stage Q (Except ε α) → Prop
  | .idle, g => g = .idle
  | .waiting q, g => g = .asked q
  | .inside q p, g =>
    g = .answered (answer ((Prog.run K.handle p).run s)) ∧
      t = resultState ((Prog.run K.handle p).run s) ∧ (need q = .shared → Prog.Reads K.handle p)
  | .left r, g => g = .answered r

/-- The relation between the component and the object. -/
structure Committed (K : Locked ε C A σ Q α) (need : Q → Mode) (x : σ × (ι → Phase ε C A Q α))
    (y : σ × (ι → Object.Stage Q (Except ε α))) : Prop where
  exclusion : RwLock.Exclusion fun j => (x.2 j).held need
  client : ∀ i, Counterpart K need x.1 y.1 (x.2 i) (y.2 i)
  /-- With nobody inside the two states agree. -/
  rest : (∀ i, (x.2 i).held need = none) → y.1 = x.1

theorem held_update (f : ι → Phase ε C A Q α) (i : ι) (p : Phase ε C A Q α) :
    (fun j => (Function.update f i p j).held need) =
      Function.update (fun j => (f j).held need) i (p.held need) := by
  funext j
  rw [Function.update_apply, Function.update_apply]
  split <;> rfl

theorem held_keep {f : ι → Phase ε C A Q α} {i : ι} {m : Option Mode} (h : (f i).held need = m) :
    Function.update (fun j => (f j).held need) i m = fun j => (f j).held need := by
  rw [← h]
  exact Function.update_eq_self i _

omit [DecidableEq ι] in
theorem Phase.inside_of_held {p : Phase ε C A Q α} {m : Mode} (h : p.held need = some m) :
    ∃ q p', p = .inside q p' ∧ need q = m := by
  cases p with
  | inside q p' => exact ⟨q, p', rfl, Option.some.inj h⟩
  | idle | waiting q | left r => cases h

namespace Committed

variable {s t : σ} {f : ι → Phase ε C A Q α} {g : ι → Object.Stage Q (Except ε α)}

omit [DecidableEq ι] in
/-- Beside a reader the two states agree. -/
theorem of_reader (h : Committed K need (s, f) (t, g)) {i : ι} {q : Q} {p : Prog ε C A α}
    (hi : f i = .inside q p) (hq : need q = .shared) : t = s := by
  have hc : Counterpart K need s t (f i) (g i) := h.client i
  rw [hi] at hc
  obtain ⟨-, ht, hreads⟩ := hc
  rw [ht]
  exact (hreads hq).run s

omit [DecidableEq ι] in
/-- Where the lock may be had, the two states agree. -/
theorem of_grants (h : Committed K need (s, f) (t, g)) {m : Mode}
    (hm : RwLock.Grants (fun j => (f j).held need) m) : t = s := by
  by_cases hnone : ∀ j, (f j).held need = none
  · exact h.rest hnone
  · obtain ⟨j, hj⟩ := not_forall.mp hnone
    obtain ⟨a, ha⟩ := Option.ne_none_iff_exists'.mp hj
    obtain ⟨q, p, hp, hq⟩ := Phase.inside_of_held ha
    exact h.of_reader hp (hq.trans (hm j a ha).2)

/-- Client `i` moves on; for the others nothing changes. -/
theorem move (h : Committed K need (s, f) (t, g)) {s' t' : σ} {i : ι} {p : Phase ε C A Q α}
    {st : Object.Stage Q (Except ε α)}
    (hex : RwLock.Exclusion (Function.update (fun j => (f j).held need) i (p.held need)))
    (hi : Counterpart K need s' t' p st)
    (hothers : ∀ j, j ≠ i → Counterpart K need s t (f j) (g j) →
      Counterpart K need s' t' (f j) (g j))
    (hrest : (∀ j, Function.update (fun j => (f j).held need) i (p.held need) j = none) → t' = s') :
    Committed K need (s', Function.update f i p) (t', Function.update g i st) where
  exclusion := by
    show RwLock.Exclusion fun j => (Function.update f i p j).held need
    rw [held_update]
    exact hex
  client j := by
    show Counterpart K need s' t' (Function.update f i p j) (Function.update g i st j)
    by_cases hj : j = i
    · subst hj
      rw [Function.update_self, Function.update_self]
      exact hi
    · rw [Function.update_of_ne hj, Function.update_of_ne hj]
      exact hothers j hj (h.client j)
  rest hno := by
    refine hrest fun j => ?_
    rw [← held_update]
    exact hno j

/-- The same, with the state as it was and the lock held as before. -/
theorem stay (h : Committed K need (s, f) (t, g)) {i : ι} {p : Phase ε C A Q α}
    {st : Object.Stage Q (Except ε α)} (hheld : (f i).held need = p.held need)
    (hi : Counterpart K need s t p st) :
    Committed K need (s, Function.update f i p) (t, Function.update g i st) := by
  refine h.move ?_ hi (fun _ _ hj => hj) ?_
  · rw [held_keep hheld]
    exact h.exclusion
  · rw [held_keep hheld]
    exact h.rest

omit [DecidableEq ι] in
theorem outside {s' t' : σ} {p : Phase ε C A Q α} {st : Object.Stage Q (Except ε α)}
    (hp : p.held need = none) (h : Counterpart K need s t p st) :
    Counterpart K need s' t' p st := by
  cases p with
  | inside q p => cases hp
  | idle | waiting q | left r => exact h

/-- The request takes effect. -/
theorem acquire (h : Committed K need (s, f) (t, g)) {i : ι} {q : Q}
    (hreads : need q = .shared → Prog.Reads K.handle (K.body q))
    (hm : RwLock.Grants (fun j => (f j).held need) (need q)) :
    Committed K need (s, Function.update f i (.inside q (K.body q)))
      (resultState ((Prog.run K.handle (K.body q)).run t),
        Function.update g i (.answered (answer ((Prog.run K.handle (K.body q)).run t)))) := by
  have hts : t = s := h.of_grants hm
  subst hts
  refine h.move (h.exclusion.acquire hm) ⟨rfl, rfl, hreads⟩ (fun j _ hj => ?_) fun hno => ?_
  · cases hq : need q with
    | shared =>
      rw [(hreads hq).run t]
      exact hj
    | exclusive =>
      refine outside ?_ hj
      by_contra hheld
      obtain ⟨a, ha⟩ := Option.ne_none_iff_exists'.mp hheld
      cases hq.symm.trans (hm j a ha).1
  · have hself := hno i
    rw [Function.update_self] at hself
    cases hself

/-- A call of a client inside: what its program will leave and answer stays the same. -/
theorem call (h : Committed K need (s, f) (t, g)) {i : ι} {q : Q} {c : C} {k : A c → Prog ε C A α}
    (hi : f i = .inside q (.call c k)) :
    Committed K need (resultState ((K.handle c).run s),
      Function.update f i (.inside q (Prog.resume k ((K.handle c).run s)))) (t, g) := by
  have hc : Counterpart K need s t (f i) (g i) := h.client i
  rw [hi] at hc
  obtain ⟨hg, ht, hreads⟩ := hc
  rw [Prog.run_resume] at hg ht
  have hheld : (f i).held need = some (need q) := by rw [hi]; rfl
  rw [← Function.update_eq_self i g]
  refine h.move ?_ ⟨hg, ht, fun hq => (hreads hq).resume _⟩ (fun j hji hj => ?_) fun hno => ?_
  · show RwLock.Exclusion (Function.update _ i (some (need q)))
    rw [held_keep hheld]
    exact h.exclusion
  · cases hj' : (f j).held need with
    | none => exact outside hj' hj
    | some m =>
      have hshared := (h.exclusion i j _ _ (Ne.symm hji) hheld hj').1
      rw [(hreads hshared).call_keeps s]
      exact hj
  · have hself := hno i
    rw [Function.update_self] at hself
    cases hself

/-- A client leaves with the answer it already has. -/
theorem release (h : Committed K need (s, f) (t, g)) {i : ι} {q : Q} {r : Except ε α}
    (hi : f i = .inside q (.ofExcept r)) :
    Committed K need (s, Function.update f i (.left r)) (t, g) := by
  have hc : Counterpart K need s t (f i) (g i) := h.client i
  rw [hi] at hc
  obtain ⟨hg, ht, -⟩ := hc
  have hanswer : answer ((Prog.run K.handle (.ofExcept r)).run s) = r ∧
      resultState ((Prog.run K.handle (.ofExcept r)).run s) = s := by
    cases r <;> exact ⟨rfl, rfl⟩
  rw [hanswer.1] at hg
  rw [hanswer.2] at ht
  rw [← Function.update_eq_self i g]
  exact h.move (h.exclusion.release i) hg (fun _ _ hj => hj) fun _ => ht

end Committed

/-- Every step of the component is a step of the clients of its object. -/
theorem committed_matches (hreads : ∀ q, need q = .shared → Prog.Reads K.handle (K.body q)) :
    Object.Matches ((K.system ι).guarded (Apart need)) event K.object (Committed K need) where
  init := by
    rintro ⟨s, f⟩ ⟨hs, hf⟩
    refine ⟨(s, fun _ => .idle), ⟨hs, fun _ => rfl⟩, .of_free fun i => ?_, fun i => ?_,
      fun _ => rfl⟩
    · rw [hf i]
      rfl
    · rw [hf i]
      rfl
  step := by
    rintro ⟨s, f⟩ ⟨t, g⟩ l x' h ⟨hapart, hstep⟩
    have hclient : ∀ i, Counterpart K need s t (f i) (g i) := h.client
    cases hstep with
    | @invoke _ _ i q hi =>
      have hg := hclient i
      rw [hi] at hg
      refine .inr ⟨(i, .invoke q), _, .invoke q hg, rfl, h.stay ?_ rfl⟩
      rw [hi]
      rfl
    | @acquire _ _ i q hi _ =>
      have hg := hclient i
      rw [hi] at hg
      refine .inr ⟨(i, .commit), _, .commit hg ⟨rfl, rfl⟩, rfl, ?_⟩
      exact h.acquire (hreads q) (hapart rfl q hi)
    | call hi => exact .inl ⟨rfl, h.call hi⟩
    | release hi => exact .inl ⟨rfl, h.release hi⟩
    | @respond _ _ i r hi =>
      have hg := hclient i
      rw [hi] at hg
      refine .inr ⟨(i, .respond r), _, .respond hg, rfl, h.stay ?_ rfl⟩
      rw [hi]
      rfl

/-- The histories of the component are linearizable for its object, in the runs in which a program
that may write overlaps no other. -/
theorem linearizable (hreads : ∀ q, need q = .shared → Prog.Reads K.handle (K.body q))
    {ls : List (ι × Act ε Q α)} {x : σ × (ι → Phase ε C A Q α)}
    (h : ((K.system ι).guarded (Apart need)).Trace ls x) : K.object.Linearizable (history ls) :=
  (committed_matches hreads).linearizable h

/-! ## A client alone -/

/-- A client inside runs its program to its end. -/
theorem trace_inside {ls : List (ι × Act ε Q α)} {s : σ} {f : ι → Phase ε C A Q α} {i : ι} {q : Q}
    {p : Prog ε C A α} (h : ((K.system ι).guarded (Apart need)).Trace ls (s, f))
    (hi : f i = .inside q p) :
    ∃ ls' f', ((K.system ι).guarded (Apart need)).Trace (ls ++ ls')
        (resultState ((Prog.run K.handle p).run s), f') ∧ history ls' = [] ∧
      f' i = .inside q (.ofExcept (answer ((Prog.run K.handle p).run s))) ∧
      ∀ j, j ≠ i → f' j = f j := by
  induction p generalizing ls s f with
  | ret a => exact ⟨[], f, by rwa [List.append_nil], rfl, hi, fun _ _ => rfl⟩
  | raise e => exact ⟨[], f, by rwa [List.append_nil], rfl, hi, fun _ _ => rfl⟩
  | call c k ih =>
    have hstep := h.snoc (l := (i, .call)) ⟨nofun, .call hi⟩
    rw [Prog.run_resume]
    cases hr : (K.handle c).run s with
    | ok a s' =>
      rw [hr] at hstep
      obtain ⟨ls', f', hls', hhist, hfi, hfj⟩ := ih a hstep (Function.update_self ..)
      rw [List.append_assoc] at hls'
      refine ⟨(i, .call) :: ls', f', hls', hhist, hfi, fun j hj => ?_⟩
      rw [hfj j hj, Function.update_of_ne hj]
    | error e s' =>
      rw [hr] at hstep
      exact ⟨[(i, .call)], _, hstep, rfl, Function.update_self ..,
        fun j hj => Function.update_of_ne hj ..⟩

/-- A client that waits for a lock it can get runs its request to the end. -/
theorem trace_waiting {ls : List (ι × Act ε Q α)} {s : σ} {f : ι → Phase ε C A Q α} {i : ι} {q : Q}
    (h : ((K.system ι).guarded (Apart need)).Trace ls (s, f)) (hi : f i = .waiting q)
    (hfree : RwLock.Grants (fun j => (f j).held K.mode) (K.mode q))
    (hneed : RwLock.Grants (fun j => (f j).held need) (need q)) :
    ∃ ls' f', ((K.system ι).guarded (Apart need)).Trace (ls ++ ls')
        (resultState ((Prog.run K.handle (K.body q)).run s), f') ∧
      history ls' = [(i, .respond (answer ((Prog.run K.handle (K.body q)).run s)))] ∧
      f' i = .idle ∧ ∀ j, j ≠ i → f' j = f j := by
  have hapart : Apart need (s, f) (i, Act.acquire) := by
    intro _ q' hq'
    cases hi.symm.trans hq'
    exact hneed
  have hinside := h.snoc (l := (i, Act.acquire)) ⟨hapart, .acquire hi hfree⟩
  obtain ⟨ls', f', hls', hhist, hfi, hfj⟩ := trace_inside hinside (Function.update_self ..)
  have hleft := hls'.snoc (l := (i, Act.release)) ⟨nofun, .release hfi⟩
  have hdone := hleft.snoc (l := (i, Act.respond _)) ⟨nofun, .respond (Function.update_self ..)⟩
  simp only [List.append_assoc] at hdone
  refine ⟨_, _, hdone, ?_, Function.update_self .., fun j hj => ?_⟩
  · unfold history at hhist ⊢
    simp only [List.filterMap_append, hhist, List.nil_append]
    rfl
  · rw [Function.update_of_ne hj, Function.update_of_ne hj, hfj j hj, Function.update_of_ne hj]

theorem held_waiting (m : Q → Mode) {f : ι → Phase ε C A Q α} {i : ι} (hi : f i = .idle) (q : Q) :
    (fun j => (Function.update f i (.waiting q) j).held m) = fun j => (f j).held m := by
  rw [held_update]
  exact held_keep (by rw [hi]; rfl)

/-- A client that can get the lock at once gets its answer. -/
theorem trace_call {ls : List (ι × Act ε Q α)} {s : σ} {f : ι → Phase ε C A Q α} {i : ι}
    (h : ((K.system ι).guarded (Apart need)).Trace ls (s, f)) (hi : f i = .idle) (q : Q)
    (hfree : RwLock.Grants (fun j => (f j).held K.mode) (K.mode q))
    (hneed : RwLock.Grants (fun j => (f j).held need) (need q)) :
    ∃ ls' f', ((K.system ι).guarded (Apart need)).Trace (ls ++ ls')
        (resultState ((Prog.run K.handle (K.body q)).run s), f') ∧
      history ls' =
        [(i, .invoke q), (i, .respond (answer ((Prog.run K.handle (K.body q)).run s)))] ∧
      f' i = .idle ∧ ∀ j, j ≠ i → f' j = f j := by
  have hasked := h.snoc (l := (i, Act.invoke q)) ⟨nofun, .invoke q hi⟩
  obtain ⟨ls', f', hls', hhist, hfi, hfj⟩ := trace_waiting hasked (Function.update_self ..)
    (by rw [held_waiting K.mode hi]; exact hfree) (by rw [held_waiting need hi]; exact hneed)
  rw [List.append_assoc] at hls'
  refine ⟨_, f', hls', ?_, hfi, fun j hj => ?_⟩
  · unfold history at hhist ⊢
    rw [List.filterMap_append, hhist]
    rfl
  · rw [hfj j hj, Function.update_of_ne hj]

omit [DecidableEq ι] in
theorem grants_idle {m : Q → Mode} {f : ι → Phase ε C A Q α} (hf : ∀ j, f j = .idle) (a : Mode) :
    RwLock.Grants (fun j => (f j).held m) a := by
  intro j b hb
  simp only [hf j] at hb
  cases hb

/-- At rest any client can make any call, and gets the answer of the object. -/
theorem trace_alone {ls : List (ι × Act ε Q α)} {s : σ} {f : ι → Phase ε C A Q α}
    (h : ((K.system ι).guarded (Apart need)).Trace ls (s, f)) (hf : ∀ j, f j = .idle) (i : ι)
    (q : Q) :
    ∃ ls' f', ((K.system ι).guarded (Apart need)).Trace (ls ++ ls')
        (resultState ((Prog.run K.handle (K.body q)).run s), f') ∧ (∀ j, f' j = .idle) ∧
      history ls' =
        [(i, .invoke q), (i, .respond (answer ((Prog.run K.handle (K.body q)).run s)))] := by
  obtain ⟨ls', f', hls', hhist, hfi, hfj⟩ :=
    trace_call h (hf i) q (grants_idle hf _) (grants_idle hf _)
  refine ⟨ls', f', hls', fun j => ?_, hhist⟩
  by_cases hj : j = i
  · rw [hj, hfi]
  · rw [hfj j hj, hf j]

/-- At rest a client that shares the lock can make its whole call between two calls of the program
of another that shares it. -/
theorem trace_between (hreads : ∀ q, need q = .shared → Prog.Reads K.handle (K.body q))
    {ls : List (ι × Act ε Q α)} {s : σ} {f : ι → Phase ε C A Q α}
    (h : ((K.system ι).guarded (Apart need)).Trace ls (s, f)) (hf : ∀ j, f j = .idle) {i j : ι}
    (hij : i ≠ j) (q q' : Q) (hq : K.mode q = .shared) (hqneed : need q = .shared)
    (hq' : K.mode q' = .shared) (hqneed' : need q' = .shared) {c : C} {k : A c → Prog ε C A α}
    (hbody : K.body q = .call c k) :
    ∃ ls' f', ((K.system ι).guarded (Apart need)).Trace (ls ++ ls') (s, f') ∧ (∀ j, f' j = .idle) ∧
      history ls' =
        [(i, .invoke q), (j, .invoke q'),
          (j, .respond (answer ((Prog.run K.handle (K.body q')).run s))),
          (i, .respond (answer ((Prog.run K.handle (K.body q)).run s)))] := by
  have hasked := h.snoc (l := (i, Act.invoke q)) ⟨nofun, .invoke q (hf i)⟩
  have hgrants : ∀ m : Q → Mode,
      RwLock.Grants (fun j => (Function.update f i (.waiting q) j).held m) (m q) := by
    intro m
    rw [held_waiting m (hf i)]
    exact grants_idle hf _
  have hapart : Apart need (s, Function.update f i (.waiting q)) (i, Act.acquire) := by
    intro _ q₁ hq₁
    cases (Function.update_self i _ f).symm.trans hq₁
    exact hgrants need
  have hinside := hasked.snoc (l := (i, Act.acquire))
    ⟨hapart, .acquire (Function.update_self ..) (hgrants K.mode)⟩
  rw [Function.update_idem, hbody] at hinside
  have hread : Prog.Reads K.handle (.call c k) := hbody ▸ hreads q hqneed
  have hcalled := hinside.snoc (l := (i, Act.call)) ⟨nofun, .call (Function.update_self ..)⟩
  rw [Function.update_idem, hread.call_keeps s] at hcalled
  -- the other one shares the lock with the client inside
  have hshared : ∀ (m : Q → Mode) (p : Prog ε C A α), m q = .shared → m q' = .shared →
      RwLock.Grants (fun j => (Function.update f i (.inside q p) j).held m) (m q') := by
    intro m p hm hm' l b hb
    simp only [Function.update_apply] at hb
    split at hb
    · exact ⟨hm', (Option.some.inj hb).symm.trans hm⟩
    · rw [hf l] at hb
      cases hb
  obtain ⟨ls₁, f₁, hls₁, hhist₁, hfj, hfk⟩ := trace_call hcalled
    (by rw [Function.update_of_ne hij.symm]; exact hf j) q' (hshared K.mode _ hq hq')
    (hshared need _ hqneed hqneed')
  rw [(hreads q' hqneed').run s] at hls₁
  have hi : f₁ i = .inside q (Prog.resume k ((K.handle c).run s)) := by
    rw [hfk i hij, Function.update_self]
  obtain ⟨ls₂, f₂, hls₂, hhist₂, hfi, hfl⟩ := trace_inside hls₁ hi
  rw [(hread.resume _).run s] at hls₂
  have hleft := hls₂.snoc (l := (i, Act.release)) ⟨nofun, .release hfi⟩
  have hdone := hleft.snoc (l := (i, Act.respond _)) ⟨nofun, .respond (Function.update_self ..)⟩
  simp only [List.append_assoc] at hdone
  refine ⟨_, _, hdone, fun l => ?_, ?_⟩
  · by_cases hl : l = i
    · rw [hl, Function.update_self]
    rw [Function.update_of_ne hl, Function.update_of_ne hl, hfl l hl]
    by_cases hlj : l = j
    · rw [hlj, hfj]
    · rw [hfk l hlj, Function.update_of_ne hl, hf l]
  · have hanswer : answer ((Prog.run K.handle (K.body q)).run s) =
        answer ((Prog.run K.handle (Prog.resume k ((K.handle c).run s))).run s) := by
      rw [hbody, Prog.run_resume, hread.call_keeps s]
    unfold history at hhist₁ hhist₂ ⊢
    simp only [List.filterMap_append, hhist₁, hhist₂, hanswer]
    rfl

end

end Locked

end DistroDefender.Lib
