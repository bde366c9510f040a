import DistroDefender.Lib.Linearizable
import DistroDefender.Lib.Map
import DistroDefender.Lib.Prog
import DistroDefender.Lib.RwLock

/-!
# Maps under a lock, with items under locks of their own

A map has a readers-writer lock, and each of its items a mutex. The keys change only under the
exclusive lock; an item changes under it, or under the shared lock and its mutex. Clients run
programs of calls, where taking and leaving a lock are calls like the others, and the calls of
different clients interleave (`Striped.system`).

A request takes effect in one call of its program: where it gets the exclusive lock, where it gets
the mutex of the item it changes, or where it reads what decides its answer. `Awaits` says so of a
program, against the object that the component should be; `Striped.linearizable` then gives that
every history is linearizable for this object.
-/

namespace DistroDefender.Lib

/-- The operations on an item of type `ν`. -/
structure ItemOps (ν : Type) where
  Op : Type
  Answer : Op → Type
  run : (op : Op) → ν → Answer op × ν
  /-- A new item. -/
  new : ν

namespace Striped

variable {κ ν : Type}

/-- The calls. A mutex is left by its holder. -/
inductive Call (κ : Type) (I : ItemOps ν) where
  | lock (mode : Mode)
  | unlock
  | lockItem (key : κ)
  | unlockItem
  | keys
  | find (key : κ)
  | emplace (key : κ)
  | erase (key : κ)
  | item (key : κ) (op : I.Op)

namespace Call

variable {I : ItemOps ν}

def Answer : Call κ I → Type
  | .lock _ | .unlock | .lockItem _ | .unlockItem | .emplace _ | .erase _ => Unit
  | .keys => List κ
  | .find _ => Bool
  | .item _ op => I.Answer op

/-- The lock of the map after a call. -/
def outer : Call κ I → Option Mode → Option Mode
  | .lock mode, _ => some mode
  | .unlock, _ => none
  | _, o => o

/-- The mutex held after a call. -/
def inner : Call κ I → Option κ → Option κ
  | .lockItem key, _ => some key
  | .unlockItem, _ => none
  | _, n => n

/-- An operation on an item. It is for items that are there. -/
def onItem [DecidableEq κ] (I : ItemOps ν) (key : κ) (op : I.Op) (m : Map κ ν) :
    I.Answer op × Map κ ν :=
  match m.lookup key with
  | some v => ((I.run op v).1, m.insert key (I.run op v).2)
  | none => ((I.run op I.new).1, m)

/-- What a call answers and leaves of the map. -/
def perform [LinearOrder κ] : (c : Call κ I) → Map κ ν → c.Answer × Map κ ν
  | .lock _, m | .unlock, m | .lockItem _, m | .unlockItem, m => ((), m)
  | .keys, m => (sortedSet m.keys, m)
  | .find key, m => (decide (key ∈ m), m)
  | .emplace key, m => ((), Map.emplace m key I.new)
  | .erase key, m => ((), m.erase key)
  | .item key op, m => onItem I key op m

/-- A call that changes neither the map nor an item. -/
def Reads : Call κ I → Prop
  | .emplace _ | .erase _ => False
  | .item _ op => ∀ v, (I.run op v).2 = v
  | _ => True

/-- A call that is not about the lock of the map. -/
def Stays : Call κ I → Prop
  | .lock _ | .unlock => False
  | _ => True

end Call

/-- The programs of the component. -/
abbrev M (κ : Type) (I : ItemOps ν) (α : Type) := Prog Empty (Call κ I) Call.Answer α

section

variable {I : ItemOps ν}

def lock (mode : Mode) : M κ I Unit := .call (.lock mode) .ret

def unlock : M κ I Unit := .call .unlock .ret

def lockItem (key : κ) : M κ I Unit := .call (.lockItem key) .ret

def unlockItem : M κ I Unit := .call .unlockItem .ret

def keys : M κ I (List κ) := .call .keys .ret

def find (key : κ) : M κ I Bool := .call (.find key) .ret

def emplace (key : κ) : M κ I Unit := .call (.emplace key) .ret

def erase (key : κ) : M κ I Unit := .call (.erase key) .ret

end

/-- Where a client is: in a request, with the locks it holds and what is left of its program. -/
inductive Phase (κ : Type) (I : ItemOps ν) (α : Type) where
  | idle
  | running (outer : Option Mode) (inner : Option κ) (p : M κ I α)

namespace Phase

variable {I : ItemOps ν} {α : Type}

def outer : Phase κ I α → Option Mode
  | .idle => none
  | .running o _ _ => o

def inner : Phase κ I α → Option κ
  | .idle => none
  | .running _ n _ => n

end Phase

inductive Act (Q α : Type) where
  | invoke (q : Q)
  | call
  | respond (r : α)

def event {ι Q α : Type} : ι × Act Q α → Option (ι × Event Q α)
  | (i, .invoke q) => some (i, .invoke q)
  | (_, .call) => none
  | (i, .respond r) => some (i, .respond r)

/-- What the clients see of a run. -/
def history {ι Q α : Type} (ls : List (ι × Act Q α)) : List (ι × Event Q α) := ls.filterMap event

variable {ι Q α τ : Type} {I : ItemOps ν}

/-- A lock can be taken. -/
def Free (f : ι → Phase κ I α) : Call κ I → Prop
  | .lock mode => RwLock.Grants (fun j => (f j).outer) mode
  | .lockItem key => ∀ j, (f j).inner ≠ some key
  | _ => True

variable [LinearOrder κ] [DecidableEq ι]

/-- One step of client `i`; `body` has the program of every request. -/
inductive Step (body : Q → M κ I α) : Map κ ν × (ι → Phase κ I α) → ι × Act Q α →
    Map κ ν × (ι → Phase κ I α) → Prop
  | invoke {m : Map κ ν} {f : ι → Phase κ I α} {i : ι} (q : Q) (h : f i = .idle) :
      Step body (m, f) (i, .invoke q) (m, Function.update f i (.running none none (body q)))
  | call {m : Map κ ν} {f : ι → Phase κ I α} {i : ι} {o : Option Mode} {n : Option κ} {c : Call κ I}
      {k : c.Answer → M κ I α} (h : f i = .running o n (.call c k)) (free : Free f c) :
      Step body (m, f) (i, .call)
        ((c.perform m).2,
          Function.update f i (.running (c.outer o) (c.inner n) (k (c.perform m).1)))
  | respond {m : Map κ ν} {f : ι → Phase κ I α} {i : ι} {r : α}
      (h : f i = .running none none (.ret r)) :
      Step body (m, f) (i, .respond r) (m, Function.update f i .idle)

/-- The clients of the component. -/
def system (body : Q → M κ I α) (ι : Type) [DecidableEq ι] :
    System (Map κ ν × (ι → Phase κ I α)) (ι × Act Q α) where
  init x := x.1 = ∅ ∧ ∀ i, x.2 i = .idle
  step := Step body

/-! ## Programs -/

/-- What a program leaves when it is run alone. -/
def leave : M κ I α → Map κ ν → Map κ ν
  | .ret _, m => m
  | .raise _, m => m
  | .call c k, m => leave (k (c.perform m).1) (c.perform m).2

/-- The answer is `r` whatever is read from here on, and nothing is written. -/
inductive Settled (r : α) : M κ I α → Prop
  | ret : Settled r (.ret r)
  | call {c : Call κ I} {k : c.Answer → M κ I α} (hc : c.Reads) (hk : ∀ a, Settled r (k a)) :
      Settled r (.call c k)

/-- The mutex of `key` is held, and `r` is answered when the operations on this item are made. -/
inductive InItem (r : α) (key : κ) : M κ I α → Prop
  | unlockItem {k : Unit → M κ I α} (h : Settled r (k ())) : InItem r key (.call .unlockItem k)
  | item {op : I.Op} {k : I.Answer op → M κ I α} (hk : ∀ a, InItem r key (k a)) :
      InItem r key (.call (.item key op) k)

/-- The exclusive lock is held, and `r` is answered when it is left. -/
inductive Inside (r : α) : M κ I α → Prop
  | unlock {k : Unit → M κ I α} (h : Settled r (k ())) : Inside r (.call .unlock k)
  | call {c : Call κ I} {k : c.Answer → M κ I α} (hc : c.Stays) (hk : ∀ a, Inside r (k a)) :
      Inside r (.call c k)

/-- A program that has not taken effect, by the locks it holds and the key it has found under the
shared lock. -/
inductive Awaits (O : Object τ Q α) (view : τ → κ → Option ν) (q : Q) :
    Option Mode → Option κ → Option κ → M κ I α → Prop
  | lock {k : Unit → M κ I α} (hk : Awaits O view q (some .shared) none none (k ())) :
      Awaits O view q none none none (.call (.lock .shared) k)
  | unlock {found : Option κ} {k : Unit → M κ I α} (hk : Awaits O view q none none none (k ())) :
      Awaits O view q (some .shared) none found (.call .unlock k)
  | lockItem {found : Option κ} {key : κ} {k : Unit → M κ I α}
      (hk : Awaits O view q (some .shared) (some key) found (k ())) :
      Awaits O view q (some .shared) none found (.call (.lockItem key) k)
  | unlockItem {n found : Option κ} {k : Unit → M κ I α}
      (hk : Awaits O view q (some .shared) none found (k ())) :
      Awaits O view q (some .shared) n found (.call .unlockItem k)
  | keys {found : Option κ} {k : List κ → M κ I α}
      (hk : ∀ (m : Map κ ν) t, (∀ key, (view t key).isSome = (m.lookup key).isSome) →
        ¬ (∃ r, O.step t q r t ∧ Settled r (k (sortedSet m.keys))) →
        Awaits O view q (some .shared) none found (k (sortedSet m.keys))) :
      Awaits O view q (some .shared) none found (.call .keys k)
  | find {found : Option κ} {key : κ} {k : Bool → M κ I α}
      (htrue : Awaits O view q (some .shared) none (some key) (k true))
      (hfalse : ∀ t, view t key = none → ¬ (∃ r, O.step t q r t ∧ Settled r (k false)) →
        Awaits O view q (some .shared) none none (k false)) :
      Awaits O view q (some .shared) none found (.call (.find key) k)
  | item {found : Option κ} {key : κ} {op : I.Op} {k : I.Answer op → M κ I α}
      (hop : Call.Reads (.item key op : Call κ I))
      (hk : ∀ v t, (view t key).getD I.new = v →
        ¬ (∃ r, O.step t q r t ∧ Settled r (k (I.run op v).1)) →
        Awaits O view q (some .shared) (some key) found (k (I.run op v).1)) :
      Awaits O view q (some .shared) (some key) found (.call (.item key op) k)
  /-- The request takes effect on an item that is there. -/
  | commitItem {key : κ} {k : Unit → M κ I α}
      (hk : ∀ (m : Map κ ν) t v, m.lookup key = some v → view t key = some v →
        ∃ r t', O.step t q r t' ∧ InItem r key (k ()) ∧ (∀ j, j ≠ key → view t' j = view t j) ∧
        view t' key = (leave (k ()) m).lookup key) :
      Awaits O view q (some .shared) none (some key) (.call (.lockItem key) k)
  /-- The request takes effect on the map. -/
  | commit {k : Unit → M κ I α}
      (hk : ∀ (m : Map κ ν) t, (∀ j, view t j = m.lookup j) → ∃ r t', O.step t q r t' ∧
        Inside r (k ()) ∧ ∀ j, view t' j = (leave (k ()) m).lookup j) :
      Awaits O view q none none none (.call (.lock .exclusive) k)

section Programs

variable {r : α} {key : κ} {p : M κ I α}

/-- An operation on an item, by what the item was. -/
theorem perform_item {op : I.Op} {m : Map κ ν} {v : ν} (hv : m.lookup key = some v) :
    (Call.item key op : Call κ I).perform m = ((I.run op v).1, m.insert key (I.run op v).2) := by
  show Call.onItem I key op m = _
  unfold Call.onItem
  rw [hv]

theorem perform_item_answer (op : I.Op) (m : Map κ ν) :
    ((Call.item key op : Call κ I).perform m).1 = (I.run op ((m.lookup key).getD I.new)).1 := by
  show (Call.onItem I key op m).1 = _
  unfold Call.onItem
  cases m.lookup key <;> rfl

/-- An operation on an item leaves the others, and the keys. -/
theorem perform_item_others (op : I.Op) (m : Map κ ν) {j : κ} (hj : j ≠ key) :
    ((Call.item key op : Call κ I).perform m).2.lookup j = m.lookup j := by
  show (Call.onItem I key op m).2.lookup j = _
  unfold Call.onItem
  cases m.lookup key with
  | none => rfl
  | some v =>
    dsimp only
    rw [Map.lookup_insert_eq, if_neg hj]

theorem perform_of_reads {c : Call κ I} (hc : c.Reads) (m : Map κ ν) (j : κ) :
    (c.perform m).2.lookup j = m.lookup j := by
  cases c with
  | lock mode | unlock | lockItem key | unlockItem | keys | find key => rfl
  | emplace key | erase key => exact absurd hc id
  | item key op =>
    by_cases hj : j = key
    · subst hj
      cases hv : m.lookup j with
      | none =>
        show (Call.onItem I j op m).2.lookup j = _
        unfold Call.onItem
        rw [hv]
        exact hv
      | some v =>
        rw [perform_item hv, Map.lookup_insert_eq, if_pos rfl]
        exact congrArg some (hc v)
    · exact perform_item_others op m hj

theorem Settled.leave (h : Settled r p) (m : Map κ ν) (j : κ) :
    (leave p m).lookup j = m.lookup j := by
  induction h generalizing m with
  | ret => rfl
  | call hc _ ih => exact (ih _ _).trans (perform_of_reads hc m j)

/-- Under a mutex a program goes by its item, which it keeps. -/
theorem InItem.leave (h : InItem r key p) (v : ν) :
    ∃ v', ∀ m : Map κ ν, m.lookup key = some v → (leave p m).lookup key = some v' := by
  induction h generalizing v with
  | unlockItem h => exact ⟨v, fun m hm => (h.leave m key).trans hm⟩
  | @item op k hk ih =>
    obtain ⟨v', hv'⟩ := ih (I.run op v).1 (I.run op v).2
    refine ⟨v', fun m hm => ?_⟩
    show (Striped.leave (k ((Call.item key op : Call κ I).perform m).1) _).lookup key = _
    rw [perform_item hm]
    exact hv' _ (by rw [Map.lookup_insert_eq, if_pos rfl])

/-- A call goes by what is at the keys, and so does what it leaves. -/
theorem perform_congr (c : Call κ I) {m m' : Map κ ν} (h : ∀ j, m'.lookup j = m.lookup j) :
    (c.perform m').1 = (c.perform m).1 ∧
    ∀ j, (c.perform m').2.lookup j = (c.perform m).2.lookup j := by
  have hmem : ∀ j, j ∈ m' ↔ j ∈ m := fun j => by
    rw [← AList.lookup_isSome, h j, AList.lookup_isSome]
  cases c with
  | lock mode | unlock | lockItem key | unlockItem => exact ⟨rfl, h⟩
  | keys => exact ⟨sortedSet_congr hmem, h⟩
  | find key => exact ⟨decide_eq_decide.mpr (hmem key), h⟩
  | emplace key =>
    refine ⟨rfl, fun j => ?_⟩
    show (Map.emplace m' key I.new).lookup j = (Map.emplace m key I.new).lookup j
    have hkey := h key
    cases hv : m.lookup key with
    | none =>
      rw [hv] at hkey
      rw [Map.emplace_of_none hv, Map.emplace_of_none hkey, Map.lookup_insert_eq,
        Map.lookup_insert_eq, h j]
    | some v =>
      rw [hv] at hkey
      rw [Map.emplace_of_some hv, Map.emplace_of_some hkey, h j]
  | erase key =>
    refine ⟨rfl, fun j => ?_⟩
    show (m'.erase key).lookup j = (m.erase key).lookup j
    rw [Map.lookup_erase_eq, Map.lookup_erase_eq, h j]
  | item key op =>
    refine ⟨?_, fun j => ?_⟩
    · rw [perform_item_answer, perform_item_answer, h key]
    · by_cases hj : j = key
      · subst hj
        have hkey := h j
        cases hv : m.lookup j with
        | none =>
          rw [hv] at hkey
          show (Call.onItem I j op m').2.lookup j = (Call.onItem I j op m).2.lookup j
          unfold Call.onItem
          rw [hv, hkey]
          exact hkey.trans hv.symm
        | some v =>
          rw [hv] at hkey
          rw [perform_item hv, perform_item hkey, Map.lookup_insert_eq, Map.lookup_insert_eq,
            if_pos rfl, if_pos rfl]
      · rw [perform_item_others op m' hj, perform_item_others op m hj, h j]

theorem leave_congr (p : M κ I α) {m m' : Map κ ν} (h : ∀ j, m'.lookup j = m.lookup j) (j : κ) :
    (leave p m').lookup j = (leave p m).lookup j := by
  induction p generalizing m m' with
  | ret a => exact h j
  | raise e => exact h j
  | call c k ih =>
    obtain ⟨hanswer, hleft⟩ := perform_congr c h
    show (leave (k (c.perform m').1) (c.perform m').2).lookup j = _
    rw [hanswer]
    exact ih _ hleft

/-- Every call of the program is one of these. -/
inductive Only (P : Call κ I → Prop) : M κ I α → Prop
  | ret (a : α) : Only P (.ret a)
  | call {c : Call κ I} {k : c.Answer → M κ I α} (hc : P c) (hk : ∀ a, Only P (k a)) :
      Only P (.call c k)

omit [LinearOrder κ] in
/-- What only reads settles nothing else. -/
theorem Only.settled {β : Type} {p : M κ I β} (hp : Only Call.Reads p) {k : β → M κ I α}
    (hk : ∀ a, Settled r (k a)) : Settled r (p >>= k) := by
  induction hp with
  | ret a => exact hk a
  | call hc _ ih => exact .call hc ih

omit [LinearOrder κ] in
/-- What leaves the lock of the map alone stays inside. -/
theorem Only.inside {β : Type} {p : M κ I β} (hp : Only Call.Stays p) {k : β → M κ I α}
    (hk : ∀ a, Inside r (k a)) : Inside r (p >>= k) := by
  induction hp with
  | ret a => exact hk a
  | call hc _ ih => exact .call hc ih

/-- An operation on an item that is there, and what comes after it. -/
theorem leave_item {op : I.Op} {k : I.Answer op → M κ I α} {m : Map κ ν} {v : ν}
    (hv : m.lookup key = some v) (j : κ) : (leave (.call (.item key op) k) m).lookup j =
      (leave (k (I.run op v).1) (m.insert key (I.run op v).2)).lookup j := by
  show (leave (k ((Call.item key op : Call κ I).perform m).1)
    ((Call.item key op : Call κ I).perform m).2).lookup j = _
  rw [perform_item hv]

end Programs

end Striped

end DistroDefender.Lib
