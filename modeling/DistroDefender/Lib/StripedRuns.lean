import DistroDefender.Lib.Striped

/-!
# Maps with locked items are linearizable

The simulation behind `Striped.linearizable`. A client that has taken effect may have something yet
to write: the item whose mutex it holds, or the map under the exclusive lock (`Work`). `Linked` says
that the object already has what is to be written, and that what nobody has yet to write is the same
on both sides.
-/

namespace DistroDefender.Lib

namespace Striped

variable {κ ν ι Q α τ : Type} {I : ItemOps ν} [LinearOrder κ] [DecidableEq ι]

/-- What a client has yet to write. -/
inductive Work (κ : Type) where
  | quiet
  | item (key : κ)
  | all

section Simulation

variable {O : Object τ Q α} {view : τ → κ → Option ν}

/-- A client beside the client of the object. What it has yet to write is written in the object. -/
inductive Client (O : Object τ Q α) (view : τ → κ → Option ν) (m : Map κ ν) (t : τ) :
    Work κ → Phase κ I α → Object.Stage Q α → Prop
  | idle : Client O view m t .quiet .idle .idle
  | awaits {q : Q} {o : Option Mode} {n found : Option κ} {p : M κ I α}
      (h : Awaits O view q o n found p)
      (hfound : ∀ key, found = some key → o = some .shared ∧ key ∈ m) :
      Client O view m t .quiet (.running o n p) (.asked q)
  | settled {o : Option Mode} {n : Option κ} {p : M κ I α} {r : α} (h : Settled r p) :
      Client O view m t .quiet (.running o n p) (.answered r)
  | item {key : κ} {p : M κ I α} {r : α} (h : InItem r key p) (hmem : key ∈ m)
      (ht : view t key = (leave p m).lookup key) :
      Client O view m t (.item key) (.running (some .shared) (some key) p) (.answered r)
  | all {n : Option κ} {p : M κ I α} {r : α} (h : Inside r p)
      (ht : ∀ key, view t key = (leave p m).lookup key) :
      Client O view m t .all (.running (some .exclusive) n p) (.answered r)

/-- The component and its object: what nobody has yet to write is the same. -/
structure Linked (O : Object τ Q α) (view : τ → κ → Option ν) (work : ι → Work κ)
    (x : Map κ ν × (ι → Phase κ I α)) (y : τ × (ι → Object.Stage Q α)) : Prop where
  outer : RwLock.Exclusion fun i => (x.2 i).outer
  inner : ∀ i j key, (x.2 i).inner = some key → (x.2 j).inner = some key → i = j
  client : ∀ i, Client O view x.1 y.1 (work i) (x.2 i) (y.2 i)
  agree : (∀ i, work i ≠ .all) → ∀ key, (∀ i, work i ≠ .item key) → view y.1 key = x.1.lookup key

namespace Client

variable {m m' : Map κ ν} {t t' : τ} {w : Work κ} {ph : Phase κ I α} {st : Object.Stage Q α}

theorem outer_of_all (h : Client O view m t .all ph st) : ph.outer = some .exclusive := by
  cases h
  rfl

theorem of_item {key : κ} (h : Client O view m t (.item key) ph st) :
    ph.outer = some .shared ∧ ph.inner = some key ∧ key ∈ m ∧ (view t key).isSome = true := by
  cases h with
  | @item _ p r hp hmem ht =>
    refine ⟨rfl, rfl, hmem, ?_⟩
    obtain ⟨v, hv⟩ := Option.isSome_iff_exists.mp (AList.lookup_isSome.mpr hmem)
    obtain ⟨v', hv'⟩ := hp.leave v
    rw [ht, hv' m hv]
    rfl

/-- Who does not write the whole map goes by the keys under the shared lock, and by the item it
holds. -/
theorem frame (h : Client O view m t w ph st) (hall : w ≠ .all)
    (hkeys : ph.outer = some .shared → ∀ key, key ∈ m → key ∈ m')
    (hitem : ∀ key, w = .item key → m'.lookup key = m.lookup key ∧ view t' key = view t key) :
    Client O view m' t' w ph st := by
  cases h with
  | idle => exact .idle
  | awaits h hfound =>
    exact .awaits h fun key hk => ⟨(hfound key hk).1, hkeys (hfound key hk).1 key (hfound key hk).2⟩
  | settled h => exact .settled h
  | @item key p r hp hmem ht =>
    obtain ⟨hm, hv⟩ := hitem key rfl
    refine .item hp (hkeys rfl key hmem) ?_
    obtain ⟨v, hv₀⟩ := Option.isSome_iff_exists.mp (AList.lookup_isSome.mpr hmem)
    obtain ⟨v', hv'⟩ := hp.leave v
    rw [hv, ht, hv' m hv₀, hv' m' (hm.trans hv₀)]
  | all h ht => exact absurd rfl hall

theorem congr (h : Client O view m t w ph st) (hm : ∀ j, m'.lookup j = m.lookup j) :
    Client O view m' t w ph st := by
  have hmem : ∀ key, key ∈ m → key ∈ m' := by
    intro key hk
    rw [← AList.lookup_isSome, hm key]
    exact AList.lookup_isSome.mpr hk
  by_cases hall : w = .all
  · subst hall
    cases h with
    | all h ht => exact .all h fun key => (ht key).trans (leave_congr _ hm key).symm
  · exact h.frame hall (fun _ => hmem) fun key _ => ⟨hm key, rfl⟩

end Client

namespace Linked

variable {m m' : Map κ ν} {t t' : τ} {f : ι → Phase κ I α} {g : ι → Object.Stage Q α}
  {work : ι → Work κ} {i : ι}

omit [DecidableEq ι] in
/-- Beside a shared holder nobody writes the whole map. -/
theorem not_all (h : Linked O view work (m, f) (t, g)) (hi : (f i).outer = some .shared) (j : ι) :
    work j ≠ .all := by
  intro hj
  have hclient : Client O view m t (work j) (f j) (g j) := h.client j
  rw [hj] at hclient
  have hex := hclient.outer_of_all
  by_cases hij : i = j
  · rw [← hij, hi] at hex
    cases hex
  · cases (h.outer i j _ _ hij hi hex).2

omit [DecidableEq ι] in
theorem item_of_work (h : Linked O view work (m, f) (t, g)) {j : ι} {key : κ}
    (hj : work j = .item key) :
    (f j).outer = some .shared ∧ (f j).inner = some key ∧ key ∈ m ∧ (view t key).isSome = true := by
  have hclient : Client O view m t (work j) (f j) (g j) := h.client j
  rw [hj] at hclient
  exact hclient.of_item

omit [DecidableEq ι] in
/-- Under the shared lock the keys are the same. -/
theorem agree_keys (h : Linked O view work (m, f) (t, g)) (hi : (f i).outer = some .shared)
    (key : κ) : (view t key).isSome = (m.lookup key).isSome := by
  by_cases hj : ∃ j, work j = .item key
  · obtain ⟨j, hj⟩ := hj
    obtain ⟨-, -, hmem, hsome⟩ := h.item_of_work hj
    rw [hsome, AList.lookup_isSome.mpr hmem]
  · exact congrArg Option.isSome (h.agree (h.not_all hi) key (not_exists.mp hj))

omit [DecidableEq ι] in
/-- Under the shared lock an item that no writer holds is the same. -/
theorem agree_item (h : Linked O view work (m, f) (t, g)) (hi : (f i).outer = some .shared)
    {key : κ} (hfree : ∀ j, (f j).inner = some key → work j = .quiet) :
    view t key = m.lookup key := by
  refine h.agree (h.not_all hi) key fun j hj => ?_
  cases hj.symm.trans (hfree j (h.item_of_work hj).2.1)

omit [DecidableEq ι] in
/-- Where the exclusive lock is free, the two are the same. -/
theorem agree_all (h : Linked O view work (m, f) (t, g)) (hfree : ∀ j, (f j).outer = none)
    (key : κ) : view t key = m.lookup key := by
  refine h.agree (fun j hj => ?_) key fun j hj => ?_
  · have hclient : Client O view m t (work j) (f j) (g j) := h.client j
    rw [hj] at hclient
    cases (hfree j).symm.trans hclient.outer_of_all
  · cases (hfree j).symm.trans (h.item_of_work hj).1

/-- Client `i` moves on. -/
theorem move (h : Linked O view work (m, f) (t, g)) {w : Work κ} {ph : Phase κ I α}
    {st : Object.Stage Q α} (hclient : Client O view m' t' w ph st)
    (houter : RwLock.Exclusion (Function.update (fun j => (f j).outer) i ph.outer))
    (hinner : ∀ key, ph.inner = some key → ∀ j, j ≠ i → (f j).inner ≠ some key)
    (hothers : ∀ j, j ≠ i → Client O view m t (work j) (f j) (g j) →
      Client O view m' t' (work j) (f j) (g j))
    (hagree : (∀ j, Function.update work i w j ≠ .all) →
      ∀ key, (∀ j, Function.update work i w j ≠ .item key) → view t' key = m'.lookup key) :
    Linked O view (Function.update work i w) (m', Function.update f i ph)
      (t', Function.update g i st) where
  outer := by
    have hsame : (fun j => (Function.update f i ph j).outer) =
        Function.update (fun j => (f j).outer) i ph.outer := by
      funext j
      simp only [Function.update_apply]
      split <;> rfl
    show RwLock.Exclusion fun j => (Function.update f i ph j).outer
    rw [hsame]
    exact houter
  inner := by
    intro j j' key hj hj'
    simp only [Function.update_apply] at hj hj'
    split at hj
    · rename_i hji
      split at hj'
      · rename_i hji'
        exact hji.trans hji'.symm
      · rename_i hji'
        exact absurd hj' (hinner key hj j' hji')
    · rename_i hji
      split at hj'
      · exact absurd hj (hinner key hj' j hji)
      · exact h.inner j j' key hj hj'
  client j := by
    show Client O view m' t' (Function.update work i w j) (Function.update f i ph j)
      (Function.update g i st j)
    by_cases hj : j = i
    · subst hj
      simpa only [Function.update_self] using hclient
    · simp only [Function.update_of_ne hj]
      exact hothers j hj (h.client j)
  agree := hagree

/-- Client `i`, who has nothing to write, moves on without writing. -/
theorem read (h : Linked O view work (m, f) (t, g)) (hi : work i = .quiet) {ph : Phase κ I α}
    {st : Object.Stage Q α} (hclient : Client O view m' t .quiet ph st)
    (houter : RwLock.Exclusion (Function.update (fun j => (f j).outer) i ph.outer))
    (hinner : ∀ key, ph.inner = some key → ∀ j, j ≠ i → (f j).inner ≠ some key)
    (hm : ∀ j, m'.lookup j = m.lookup j) :
    Linked O view work (m', Function.update f i ph) (t, Function.update g i st) := by
  have hmove := h.move hclient houter hinner (fun j _ hj => hj.congr hm) fun hall key hkey => ?_
  · rwa [← hi, Function.update_eq_self] at hmove
  · rw [← hi, Function.update_eq_self] at hall hkey
    rw [hm key]
    exact h.agree hall key hkey

/-! ### One call -/

section Calls

variable {o : Option Mode} {n : Option κ} {c : Call κ I} {k : c.Answer → M κ I α} {q : Q} {r : α}
  {key : κ}

omit [LinearOrder κ] in
theorem stays_outer (hc : c.Stays) : c.outer o = o := by
  cases c with
  | lock mode | unlock => exact absurd hc id
  | lockItem key | unlockItem | keys | find key | emplace key | erase key | item key op => rfl

theorem outer_call (h : Linked O view work (m, f) (t, g)) (hi : f i = .running o n (.call c k))
    (free : Free f c) :
    RwLock.Exclusion (Function.update (fun j => (f j).outer) i (c.outer o)) := by
  have hout : (f i).outer = o := by rw [hi]; rfl
  by_cases hc : c.Stays
  · rw [stays_outer hc, ← hout, Function.update_eq_self i fun j => (f j).outer]
    exact h.outer
  · cases c with
    | lock mode => exact h.outer.acquire free
    | unlock => exact h.outer.release i
    | lockItem key | unlockItem | keys | find key | emplace key | erase key | item key op =>
      exact absurd trivial hc

omit [DecidableEq ι] in
theorem inner_call (h : Linked O view work (m, f) (t, g)) (hi : f i = .running o n (.call c k))
    (free : Free f c) (key : κ) (hkey : c.inner n = some key) (j : ι) (hj : j ≠ i) :
    (f j).inner ≠ some key := by
  have hin : (f i).inner = n := by rw [hi]; rfl
  cases c with
  | lockItem a =>
    cases hkey
    exact free j
  | unlockItem => cases hkey
  | lock mode | unlock | keys | find a | emplace a | erase a | item a op =>
    exact fun hj' => hj (h.inner j i key hj' (hin.trans hkey))

/-- Client `i` is asked and has not taken effect. -/
theorem waits (h : Linked O view work (m, f) (t, g)) (hi : f i = .running o n (.call c k))
    (free : Free f c) (hw : work i = .quiet) (hg : g i = .asked q) (hc : c.Reads)
    (hnext : Client O view m t .quiet (.running (c.outer o) (c.inner n) (k (c.perform m).1))
      (.asked q)) :
    Linked O view work
      ((c.perform m).2, Function.update f i (.running (c.outer o) (c.inner n) (k (c.perform m).1)))
      (t, g) := by
  have hread :=
    h.read hw (hnext.congr (perform_of_reads hc m)) (h.outer_call hi free) (h.inner_call hi free)
    (perform_of_reads hc m)
  rwa [← hg, Function.update_eq_self] at hread

/-- Client `i` takes effect by what it reads. -/
theorem decides (h : Linked O view work (m, f) (t, g)) (hi : f i = .running o n (.call c k))
    (free : Free f c) (hw : work i = .quiet) (hc : c.Reads) (hr : Settled r (k (c.perform m).1)) :
    Linked O view work
      ((c.perform m).2, Function.update f i (.running (c.outer o) (c.inner n) (k (c.perform m).1)))
      (t, Function.update g i (.answered r)) :=
  h.read hw (.settled hr) (h.outer_call hi free) (h.inner_call hi free) (perform_of_reads hc m)

/-- Client `i` takes effect on an item. -/
theorem commitItem {k : Unit → M κ I α} (h : Linked O view work (m, f) (t, g))
    (hi : f i = .running (some .shared) none (.call (.lockItem key) k))
    (free : Free f (.lockItem key)) (hw : work i = .quiet) (hmem : key ∈ m)
    (hr : InItem r key (k ())) (hothers : ∀ j, j ≠ key → view t' j = view t j)
    (hkey : view t' key = (leave (k ()) m).lookup key) :
    Linked O view (Function.update work i (.item key))
      (m, Function.update f i (.running (some .shared) (some key) (k ())))
      (t', Function.update g i (.answered r)) := by
  have hshared : (f i).outer = some .shared := by rw [hi]; rfl
  have hfree : ∀ j, work j ≠ .item key := fun j hj => free j (h.item_of_work hj).2.1
  refine h.move (.item hr hmem hkey) (h.outer_call hi free) (h.inner_call hi free)
    (fun j _ hj => ?_) ?_
  · refine hj.frame (h.not_all hshared j) (fun _ _ ha => ha) fun a ha => ⟨rfl, hothers a ?_⟩
    rintro rfl
    exact hfree j ha
  · intro _ a ha
    have hne : a ≠ key := by
      rintro rfl
      exact ha i (Function.update_self ..)
    refine (hothers a hne).trans (h.agree (h.not_all hshared) a fun j hj => ?_)
    by_cases hji : j = i
    · rw [hji, hw] at hj
      cases hj
    · refine ha j ?_
      rw [Function.update_of_ne hji]
      exact hj

/-- Client `i` takes effect on the map. -/
theorem commit {k : Unit → M κ I α} (h : Linked O view work (m, f) (t, g))
    (hi : f i = .running none none (.call (.lock .exclusive) k))
    (free : Free f (.lock .exclusive : Call κ I)) (hr : Inside r (k ()))
    (ht : ∀ j, view t' j = (leave (k ()) m).lookup j) :
    Linked O view (Function.update work i .all)
      (m, Function.update f i (.running (some .exclusive) none (k ())))
      (t', Function.update g i (.answered r)) := by
  have hnone : ∀ j, (f j).outer = none := by
    intro j
    cases hj : (f j).outer with
    | none => rfl
    | some a => cases (free j a hj).1
  refine h.move (.all hr ht) (h.outer_call hi free) (h.inner_call hi free) (fun j _ hj => ?_) ?_
  · refine hj.frame (fun hall => ?_) (fun hs => ?_) fun a ha => ?_
    · rw [hall] at hj
      cases (hnone j).symm.trans hj.outer_of_all
    · cases (hnone j).symm.trans hs
    · cases (hnone j).symm.trans (h.item_of_work ha).1
  · intro hall
    exact absurd (Function.update_self ..) (hall i)

/-- Client `i` goes on with the item it holds. -/
theorem onItem {op : I.Op} {k : I.Answer op → M κ I α} (h : Linked O view work (m, f) (t, g))
    (hi : f i = .running (some .shared) (some key) (.call (.item key op) k))
    (hw : work i = .item key) (hg : g i = .answered r) (hr : ∀ a, InItem r key (k a))
    (hmem : key ∈ m) (ht : view t key = (leave (.call (.item key op) k) m).lookup key) :
    Linked O view work (((Call.item key op : Call κ I).perform m).2, Function.update f i
      (.running (some .shared) (some key) (k ((Call.item key op : Call κ I).perform m).1)))
      (t, g) := by
  have hshared : (f i).outer = some .shared := by rw [hi]; rfl
  have hinner : (f i).inner = some key := by rw [hi]; rfl
  have hkeep : ∀ a, a ∈ m → a ∈ ((Call.item key op : Call κ I).perform m).2 := by
    intro a ha
    obtain ⟨v, hv⟩ := Option.isSome_iff_exists.mp (AList.lookup_isSome.mpr hmem)
    rw [perform_item hv]
    exact AList.mem_insert _ |>.mpr (.inr ha)
  have hmove :=
    h.move (.item (hr _) (hkeep key hmem) ht) (h.outer_call (c := .item key op) hi trivial)
    (h.inner_call (c := .item key op) hi trivial) (fun j hji hj => ?_) fun hall a ha => ?_
  · rw [← hw, ← hg, Function.update_eq_self, Function.update_eq_self] at hmove
    exact hmove
  · refine hj.frame (h.not_all hshared j) (fun _ => hkeep) fun a ha =>
      ⟨perform_item_others op m ?_, rfl⟩
    rintro rfl
    exact hji (h.inner j i a (h.item_of_work ha).2.1 hinner)
  · rw [← hw, Function.update_eq_self] at ha
    have hne : a ≠ key := by
      rintro rfl
      exact ha i hw
    rw [perform_item_others op m hne]
    exact h.agree (h.not_all hshared) a ha

/-- Client `i` has written its item and leaves the mutex. -/
theorem leaveItem {k : Unit → M κ I α} (h : Linked O view work (m, f) (t, g))
    (hi : f i = .running (some .shared) (some key) (.call .unlockItem k)) (hw : work i = .item key)
    (hg : g i = .answered r) (hr : Settled r (k ()))
    (ht : view t key = (leave (.call .unlockItem k) m).lookup key) :
    Linked O view (Function.update work i .quiet)
      (m, Function.update f i (.running (some .shared) none (k ()))) (t, g) := by
  have hshared : (f i).outer = some .shared := by rw [hi]; rfl
  have hclient : Client O view m t .quiet (.running (some .shared) none (k ())) (.answered r) :=
    .settled hr
  have hmove := h.move hclient (h.outer_call (c := .unlockItem) hi trivial)
    (h.inner_call (c := .unlockItem) hi trivial) (fun j _ hj => hj) fun _ a ha => ?_
  · rw [← hg, Function.update_eq_self] at hmove
    exact hmove
  · by_cases hkey : a = key
    · subst hkey
      exact ht.trans (hr.leave m a)
    · refine h.agree (h.not_all hshared) a fun j hj => ?_
      by_cases hji : j = i
      · rw [hji, hw] at hj
        cases hj
        exact hkey rfl
      · refine ha j ?_
        rw [Function.update_of_ne hji]
        exact hj

omit [DecidableEq ι] in
/-- Beside the exclusive holder the others hold nothing. -/
theorem alone (h : Linked O view work (m, f) (t, g)) (hi : (f i).outer = some .exclusive) {j : ι}
    (hj : j ≠ i) : (f j).outer = none ∧ work j = .quiet := by
  have hnone : (f j).outer = none := by
    by_contra hsome
    exact hj (h.outer.alone hi hsome)
  refine ⟨hnone, ?_⟩
  have hclient : Client O view m t (work j) (f j) (g j) := h.client j
  cases hw : work j with
  | quiet => rfl
  | item a => cases hnone.symm.trans (h.item_of_work hw).1
  | all =>
    rw [hw] at hclient
    cases hnone.symm.trans hclient.outer_of_all

/-- Client `i` goes on under the exclusive lock. -/
theorem onAll (h : Linked O view work (m, f) (t, g))
    (hi : f i = .running (some .exclusive) n (.call c k)) (free : Free f c) (hw : work i = .all)
    (hg : g i = .answered r) (hc : c.Stays) (hr : ∀ a, Inside r (k a))
    (ht : ∀ key, view t key = (leave (.call c k) m).lookup key) :
    Linked O view work ((c.perform m).2, Function.update f i
      (.running (c.outer (some .exclusive)) (c.inner n) (k (c.perform m).1))) (t, g) := by
  have hex : (f i).outer = some .exclusive := by rw [hi]; rfl
  have hclient : Client O view (c.perform m).2 t .all
      (.running (c.outer (some .exclusive)) (c.inner n) (k (c.perform m).1)) (.answered r) := by
    rw [stays_outer hc]
    exact .all (hr _) ht
  have hmove :=
    h.move hclient (h.outer_call hi free) (h.inner_call hi free) (fun j hji hj => ?_) fun hall => ?_
  · rw [← hw, ← hg, Function.update_eq_self, Function.update_eq_self] at hmove
    exact hmove
  · obtain ⟨hnone, hquiet⟩ := h.alone hex hji
    rw [hquiet] at hj ⊢
    refine hj.frame nofun (fun hs => ?_) nofun
    cases hnone.symm.trans hs
  · exact absurd (Function.update_self ..) (hall i)

/-- Client `i` has written the map and leaves the lock. -/
theorem leaveAll {k : Unit → M κ I α} (h : Linked O view work (m, f) (t, g))
    (hi : f i = .running (some .exclusive) n (.call .unlock k)) (hg : g i = .answered r)
    (hr : Settled r (k ())) (ht : ∀ key, view t key = (leave (.call .unlock k) m).lookup key) :
    Linked O view (Function.update work i .quiet) (m, Function.update f i (.running none n (k ())))
      (t, g) := by
  have hclient : Client O view m t .quiet (.running none n (k ())) (.answered r) := .settled hr
  have hmove :=
    h.move hclient (h.outer_call (c := .unlock) hi trivial) (h.inner_call (c := .unlock) hi trivial)
    (fun j _ hj => hj) fun _ a _ => (ht a).trans (hr.leave m a)
  rw [← hg, Function.update_eq_self] at hmove
  exact hmove

/-- A call of a client that has not taken effect: it still has not, or it does so. -/
theorem call_awaits (h : Linked O view work (m, f) (t, g)) (hi : f i = .running o n (.call c k))
    (free : Free f c) (hw : work i = .quiet) (hg : g i = .asked q) {found : Option κ}
    (hp : Awaits O view q o n found (.call c k))
    (hfound : ∀ key, found = some key → o = some .shared ∧ key ∈ m) {f' : ι → Phase κ I α}
    (hf' : f' = Function.update f i (.running (c.outer o) (c.inner n) (k (c.perform m).1))) :
    Linked O view work ((c.perform m).2, f') (t, g) ∨
      ∃ r t' work', O.step t q r t' ∧
      Linked O view work' ((c.perform m).2, f') (t', Function.update g i (.answered r)) := by
  subst hf'
  cases hp with
  | lock hk => exact .inl (h.waits hi free hw hg trivial (.awaits hk nofun))
  | unlock hk => exact .inl (h.waits hi free hw hg trivial (.awaits hk nofun))
  | lockItem hk => exact .inl (h.waits hi free hw hg trivial (.awaits hk hfound))
  | unlockItem hk => exact .inl (h.waits hi free hw hg trivial (.awaits hk hfound))
  | @keys _ k hk =>
    have hshared : (f i).outer = some .shared := by rw [hi]; rfl
    by_cases hdecides : ∃ r, O.step t q r t ∧ Settled r (k (sortedSet m.keys))
    · obtain ⟨r, hstep, hr⟩ := hdecides
      exact .inr ⟨r, t, work, hstep, h.decides hi free hw trivial hr⟩
    · have hnext := hk m t (h.agree_keys hshared) hdecides
      exact .inl (h.waits hi free hw hg trivial (.awaits hnext hfound))
  | @find _ key k htrue hfalse =>
    have hshared : (f i).outer = some .shared := by rw [hi]; rfl
    by_cases hmem : key ∈ m
    · have hanswer : ((Call.find key : Call κ I).perform m).1 = true := decide_eq_true hmem
      refine .inl (h.waits hi free hw hg trivial ?_)
      rw [hanswer]
      refine .awaits htrue fun a ha => ⟨rfl, ?_⟩
      cases ha
      exact hmem
    · have hanswer : ((Call.find key : Call κ I).perform m).1 = false := decide_eq_false hmem
      have hnone : view t key = none := by
        have hkeys := h.agree_keys hshared key
        rw [AList.lookup_eq_none.mpr hmem] at hkeys
        exact Option.isNone_iff_eq_none.mp (by rw [← Option.not_isSome, hkeys]; rfl)
      by_cases hdecides : ∃ r, O.step t q r t ∧ Settled r (k false)
      · obtain ⟨r, hstep, hr⟩ := hdecides
        refine .inr ⟨r, t, work, hstep, h.decides hi free hw trivial ?_⟩
        rw [hanswer]
        exact hr
      · refine .inl (h.waits hi free hw hg trivial ?_)
        rw [hanswer]
        exact .awaits (hfalse t hnone hdecides) nofun
  | @item _ key op k hop hk =>
    have hshared : (f i).outer = some .shared := by rw [hi]; rfl
    have hinner : (f i).inner = some key := by rw [hi]; rfl
    have hview : view t key = m.lookup key := h.agree_item hshared fun j hj => by
      rw [h.inner j i key hj hinner]
      exact hw
    have hnext := hk _ t rfl
    rw [hview, ← perform_item_answer] at hnext
    by_cases hdecides : ∃ r, O.step t q r t ∧
      Settled r (k ((Call.item key op : Call κ I).perform m).1)
    · obtain ⟨r, hstep, hr⟩ := hdecides
      exact .inr ⟨r, t, work, hstep, h.decides hi free hw hop hr⟩
    · exact .inl (h.waits hi free hw hg hop (.awaits (hnext hdecides) hfound))
  | @commitItem key k hk =>
    have hshared : (f i).outer = some .shared := by rw [hi]; rfl
    have hmem := (hfound key rfl).2
    obtain ⟨v, hv⟩ := Option.isSome_iff_exists.mp (AList.lookup_isSome.mpr hmem)
    have hview : view t key = m.lookup key := h.agree_item hshared fun j hj => absurd hj (free j)
    obtain ⟨r, t', hstep, hr, hothers, hkey⟩ := hk m t v hv (hview.trans hv)
    exact .inr ⟨r, t', _, hstep, h.commitItem hi free hw hmem hr hothers hkey⟩
  | @commit k hk =>
    have hnone : ∀ j, (f j).outer = none := by
      intro j
      cases hj : (f j).outer with
      | none => rfl
      | some a => cases (free j a hj).1
    obtain ⟨r, t', hstep, hr, ht⟩ := hk m t (h.agree_all hnone)
    exact .inr ⟨r, t', _, hstep, h.commit hi free hr ht⟩

/-- A call of any client. -/
theorem call (h : Linked O view work (m, f) (t, g)) (hi : f i = .running o n (.call c k))
    (free : Free f c) {f' : ι → Phase κ I α}
    (hf' : f' = Function.update f i (.running (c.outer o) (c.inner n) (k (c.perform m).1))) :
    (∃ work', Linked O view work' ((c.perform m).2, f') (t, g)) ∨
      ∃ q r t' work', g i = .asked q ∧ O.step t q r t' ∧
        Linked O view work' ((c.perform m).2, f') (t', Function.update g i (.answered r)) := by
  have hclient : Client O view m t (work i) (f i) (g i) := h.client i
  rw [hi] at hclient
  generalize hw : work i = w at hclient
  generalize hg : g i = st at hclient
  cases hclient with
  | awaits hp hfound =>
    rcases h.call_awaits hi free hw hg hp hfound hf' with hlinked | ⟨r, t', work', hstep, hlinked⟩
    · exact .inl ⟨work, hlinked⟩
    · exact .inr ⟨_, r, t', work', rfl, hstep, hlinked⟩
  | settled hp =>
    subst hf'
    cases hp with
    | call hc hk =>
      have hlinked := h.decides hi free hw hc (hk (c.perform m).1)
      rw [← hg, Function.update_eq_self] at hlinked
      exact .inl ⟨work, hlinked⟩
  | item hp hmem ht =>
    subst hf'
    cases hp with
    | unlockItem hr => exact .inl ⟨_, h.leaveItem hi hw hg hr ht⟩
    | item hr => exact .inl ⟨_, h.onItem hi hw hg hr hmem ht⟩
  | all hp ht =>
    subst hf'
    cases hp with
    | unlock hr => exact .inl ⟨_, h.leaveAll hi hg hr ht⟩
    | call hc hr => exact .inl ⟨_, h.onAll hi free hw hg hc hr ht⟩

end Calls

end Linked

/-- Every step of the component is a step of the clients of its object. -/
theorem linked_matches {body : Q → M κ I α} (hinit : ∃ t, O.init t ∧ ∀ key, view t key = none)
    (hbody : ∀ q, Awaits O view q none none none (body q)) :
    Object.Matches (system body ι) event O fun x y => ∃ work, Linked O view work x y where
  init := by
    rintro ⟨m, f⟩ ⟨hm, hf⟩
    obtain ⟨t, ht, hview⟩ := hinit
    have hidle : ∀ i, f i = .idle := hf
    refine ⟨(t, fun _ => .idle), ⟨ht, fun _ => rfl⟩, fun _ => .quiet, ?_⟩
    exact {
      outer := .of_free fun i => by
        show (f i).outer = none
        rw [hidle i]
        rfl
      inner := by
        intro i j key hi
        rw [hf i] at hi
        cases hi
      client := fun i => by
        rw [hf i]
        exact .idle
      agree := by
        intro _ key _
        rw [hview key, hm]
        rfl }
  step := by
    rintro ⟨m, f⟩ ⟨t, g⟩ l x' ⟨work, h⟩ hstep
    cases hstep with
    | @invoke _ _ i q hi =>
      have hclient : Client O view m t (work i) (f i) (g i) := h.client i
      rw [hi] at hclient
      generalize hw : work i = w at hclient
      generalize hg : g i = st at hclient
      cases hclient
      have hout : (f i).outer = none := by rw [hi]; rfl
      refine .inr ⟨(i, .invoke q), _, .invoke q hg, rfl, work, ?_⟩
      refine h.read hw (.awaits (hbody q) nofun) ?_ nofun fun _ => rfl
      show RwLock.Exclusion (Function.update _ i none)
      rw [← hout, Function.update_eq_self i fun j => (f j).outer]
      exact h.outer
    | @call _ _ i o n c k hi free =>
      rcases h.call hi free rfl with ⟨work', hlinked⟩ | ⟨q, r, t', work', hg, ho, hlinked⟩
      · exact .inl ⟨rfl, work', hlinked⟩
      · exact .inr ⟨(i, .commit), _, .commit hg ho, rfl, work', hlinked⟩
    | @respond _ _ i r hi =>
      have hclient : Client O view m t (work i) (f i) (g i) := h.client i
      rw [hi] at hclient
      generalize hw : work i = w at hclient
      generalize hg : g i = st at hclient
      have hout : (f i).outer = none := by rw [hi]; rfl
      cases hclient with
      | awaits hp _ => cases hp
      | settled hp =>
        cases hp
        refine .inr ⟨(i, .respond r), _, .respond hg, rfl, work, ?_⟩
        refine h.read hw .idle ?_ nofun fun _ => rfl
        show RwLock.Exclusion (Function.update _ i none)
        rw [← hout, Function.update_eq_self i fun j => (f j).outer]
        exact h.outer

/-- Every history of the component is linearizable. -/
theorem linearizable {body : Q → M κ I α} (hinit : ∃ t, O.init t ∧ ∀ key, view t key = none)
    (hbody : ∀ q, Awaits O view q none none none (body q)) {ls : List (ι × Act Q α)}
    {x : Map κ ν × (ι → Phase κ I α)} (h : (system body ι).Trace ls x) :
    O.Linearizable (history ls) :=
  (linked_matches hinit hbody).linearizable h

end Simulation

end Striped

end DistroDefender.Lib
