import DistroDefender.Geo.Registry
import DistroDefender.Lib.Owners
import DistroDefender.Lib.RwLock
import DistroDefender.Lib.Transition

/-!
# Lookups beside a removal

Any number of locators look up strings in one database while `removeDbUnsafe` removes it. The entry
is shared: the manager's map, the removal and every lookup that has locked its weak pointer own it,
and its use count counts them. A lookup takes the entry to be gone when the count is one. Another
lookup raises the count too, so a lookup that starts after the removal may still be answered; it is
not where no other lookup holds the entry at its check (`unavailable_of_alone`), and it is where one
does (`Inv.check_iff`).
-/

namespace DistroDefender.Geo.Lookups

open Base Lib

/-- Where a lookup is. -/
inductive Pc where
  | idle
  | called (ip : String) (path : List String)
  /-- The weak pointer is locked. -/
  | owned (ip : String) (path : List String)
  /-- The mutex of the entry is held too. -/
  | shared (ip : String) (path : List String)
  | checked (ip : String) (path : List String)
  /-- The answer is there; the mutex and the entry are still held. -/
  | leaving (res : RespOrError String)
  | unlocked (res : RespOrError String)
  | done (res : RespOrError String)

def Pc.owns : Pc → Bool
  | .owned .. | .shared .. | .checked .. | .leaving _ | .unlocked _ => true
  | _ => false

def Pc.mode : Pc → Option Mode
  | .shared .. | .checked .. | .leaving _ => some .shared
  | _ => none

/-- Where `removeDbUnsafe` is. -/
inductive Removal where
  | registered
  /-- `entry` is copied from the map. -/
  | found
  | locked
  | erased
  | unlocked
  | reset
  | returned
  deriving DecidableEq

def Removal.inMap : Removal → Bool
  | .registered | .found | .locked => true
  | _ => false

def Removal.owns : Removal → Bool
  | .found | .locked | .erased | .unlocked => true
  | _ => false

def Removal.mode : Removal → Option Mode
  | .locked | .erased => some .exclusive
  | _ => none

/-- The entry's count and owners. `late` is not in the source: the lookup of the locator started
after the removal had returned. -/
structure State (ι : Type) where
  useCount : Nat
  removal : Removal
  pc : ι → Pc
  late : ι → Bool
  locators : ι → Locator

variable {ι : Type} [DecidableEq ι]

/-- Who may own the entry besides the lookups. -/
inductive Party where
  | dbs
  | removal

def Removal.Holds (r : Removal) : Party → Prop
  | .dbs => r.inMap = true
  | .removal => r.owns = true

namespace State

def Owns (s : State ι) : Party ⊕ ι → Prop := Holders s.removal.Holds Pc.owns s.pc

/-- Who holds the mutex of the entry. -/
def held (s : State ι) : Option ι → Option Mode
  | none => s.removal.mode
  | some i => (s.pc i).mode

def goto (s : State ι) (i : ι) (pc : Pc) : State ι := { s with pc := Function.update s.pc i pc }

end State

/-! ## Steps -/

inductive Act where
  | call (ip : String) (path : List String)
  | weakLock
  | sharedLock
  | check
  | read
  | unlock
  | release

inductive RemoveAct where
  | find
  | lock
  | erase
  | unlock
  | reset
  | ret

inductive Label (ι : Type) where
  | look (i : ι) (a : Act)
  | remove (a : RemoveAct)

def unavailable : RespOrError String := .error ⟨"Database is not available"⟩

/-- `Locator::getString` and `removeDbUnsafe`, one step at a time. -/
inductive Step (lib : Maxminddb) (entry : DbEntry) (s : State ι) : Label ι → State ι → Prop
  | call (i : ι) (ip : String) (path : List String)
      (h : s.pc i = .idle ∨ ∃ res, s.pc i = .done res) :
      Step lib entry s (.look i (.call ip path)) { s.goto i (.called ip path) with
        late := Function.update s.late i (decide (s.removal = .returned)) }
  | expired {i : ι} {ip : String} {path : List String} (h : s.pc i = .called ip path)
      (hcount : s.useCount = 0) :
      Step lib entry s (.look i .weakLock) (s.goto i (.done unavailable))
  | weakLock {i : ι} {ip : String} {path : List String} (h : s.pc i = .called ip path)
      (hcount : 0 < s.useCount) : Step lib entry s (.look i .weakLock)
        { s.goto i (.owned ip path) with useCount := s.useCount + 1 }
  | sharedLock {i : ι} {ip : String} {path : List String} (h : s.pc i = .owned ip path)
      (hfree : RwLock.Grants s.held .shared) :
      Step lib entry s (.look i .sharedLock) (s.goto i (.shared ip path))
  | gone {i : ι} {ip : String} {path : List String} (h : s.pc i = .shared ip path)
      (hcount : s.useCount ≤ 1) :
      Step lib entry s (.look i .check) (s.goto i (.leaving unavailable))
  | check {i : ι} {ip : String} {path : List String} (h : s.pc i = .shared ip path)
      (hcount : 1 < s.useCount) : Step lib entry s (.look i .check) (s.goto i (.checked ip path))
  | read {i : ι} {ip : String} {path : List String} (h : s.pc i = .checked ip path) :
      Step lib entry s (.look i .read)
        { s.goto i (.leaving ((getString lib ip path (some entry)).run (s.locators i)).1) with
          locators := Function.update s.locators i
            ((getString lib ip path (some entry)).run (s.locators i)).2 }
  | unlock {i : ι} {res : RespOrError String} (h : s.pc i = .leaving res) :
      Step lib entry s (.look i .unlock) (s.goto i (.unlocked res))
  | release {i : ι} {res : RespOrError String} (h : s.pc i = .unlocked res) :
      Step lib entry s (.look i .release) { s.goto i (.done res) with useCount := s.useCount - 1 }
  | find (h : s.removal = .registered) :
      Step lib entry s (.remove .find) { s with removal := .found, useCount := s.useCount + 1 }
  | lock (h : s.removal = .found) (hfree : RwLock.Grants s.held .exclusive) :
      Step lib entry s (.remove .lock) { s with removal := .locked }
  | erase (h : s.removal = .locked) :
      Step lib entry s (.remove .erase) { s with removal := .erased, useCount := s.useCount - 1 }
  | unlockRemoval (h : s.removal = .erased) :
      Step lib entry s (.remove .unlock) { s with removal := .unlocked }
  | reset (h : s.removal = .unlocked) :
      Step lib entry s (.remove .reset) { s with removal := .reset, useCount := s.useCount - 1 }
  | ret (h : s.removal = .reset) : Step lib entry s (.remove .ret) { s with removal := .returned }

/-- The database is registered, and no lookup has started. -/
def Initial (s : State ι) : Prop :=
  s.useCount = 1 ∧ s.removal = .registered ∧ (∀ i, s.pc i = .idle) ∧ ∀ i, s.late i = false

def lookups (lib : Maxminddb) (entry : DbEntry) : System (State ι) (Label ι) where
  init := Initial
  step := Step lib entry

/-! ## The count -/

section Invariant

variable {lib : Maxminddb} {entry : DbEntry} {s s' : State ι} {l : Label ι} {i : ι} {pc : Pc}
  {n : Nat}

/-- The count is right, and a late lookup finds the removal returned. -/
structure Inv (s : State ι) : Prop where
  counts : Counts s.useCount s.Owns
  late : ∀ i, s.late i = true → s.removal = .returned ∧ s.pc i ≠ .idle

theorem late_goto (h : ∀ j, s.late j = true → s.removal = .returned ∧ s.pc j ≠ .idle)
    (hpc : pc ≠ .idle) (j : ι) (hj : s.late j = true) :
    s.removal = .returned ∧ (s.goto i pc).pc j ≠ .idle := by
  obtain ⟨hreturned, hidle⟩ := h j hj
  refine ⟨hreturned, ?_⟩
  show Function.update s.pc i pc j ≠ .idle
  rw [Function.update_apply]
  split
  · exact hpc
  · exact hidle

omit [DecidableEq ι] in
/-- While the removal runs there is no late lookup. -/
theorem Inv.not_late (h : Inv s) (hr : s.removal ≠ .returned) {r : Removal} (j : ι)
    (hj : s.late j = true) : r = .returned ∧ s.pc j ≠ .idle :=
  absurd (h.late j hj).1 hr

omit [DecidableEq ι] in
/-- The removal goes on to a place where it owns what it did. -/
theorem counts_removal (h : Counts n s.Owns) {r : Removal} (hmap : r.inMap = s.removal.inMap)
    (howns : r.owns = s.removal.owns) : Counts n (State.Owns { s with removal := r }) := by
  refine h.stay fun k => ?_
  cases k with
  | dbs => simp [Removal.Holds, hmap]
  | removal => simp [Removal.Holds, howns]

theorem Inv.step (h : Inv s) (hstep : Step lib entry s l s') : Inv s' := by
  cases hstep with
  | call i ip path hpc =>
    have hold : (s.pc i).owns = false := by
      rcases hpc with hpc | ⟨res, hpc⟩ <;> rw [hpc] <;> rfl
    have hcounts : Counts s.useCount (s.goto i (.called ip path)).Owns := h.counts.keep hold.symm
    refine ⟨hcounts, fun j hj => ?_⟩
    simp only [Function.update_apply, State.goto] at hj ⊢
    split at hj
    · rename_i hji
      subst hji
      simpa using hj
    · rename_i hji
      rw [if_neg hji]
      exact h.late j hj
  | expired hpc => exact ⟨h.counts.keep (by rw [hpc]; rfl), late_goto h.late (by simp)⟩
  | @weakLock i ip path hpc _ =>
    have hcounts : Counts (s.useCount + 1) (s.goto i (.owned ip path)).Owns :=
      h.counts.hold (by rw [hpc]; rfl) rfl
    exact ⟨hcounts, late_goto h.late (by simp)⟩
  | sharedLock hpc => exact ⟨h.counts.keep (by rw [hpc]; rfl), late_goto h.late (by simp)⟩
  | gone hpc => exact ⟨h.counts.keep (by rw [hpc]; rfl), late_goto h.late (by simp)⟩
  | check hpc => exact ⟨h.counts.keep (by rw [hpc]; rfl), late_goto h.late (by simp)⟩
  | @read i ip path hpc =>
    have hcounts : Counts s.useCount
        (s.goto i (.leaving ((getString lib ip path (some entry)).run (s.locators i)).1)).Owns :=
      h.counts.keep (by rw [hpc]; rfl)
    exact ⟨hcounts, late_goto h.late (by simp)⟩
  | unlock hpc => exact ⟨h.counts.keep (by rw [hpc]; rfl), late_goto h.late (by simp)⟩
  | @release i res hpc =>
    have hcounts : Counts (s.useCount - 1) (s.goto i (.done res)).Owns :=
      h.counts.letGo (by rw [hpc]; rfl) rfl
    exact ⟨hcounts, late_goto h.late (by simp)⟩
  | find hr =>
    refine ⟨h.counts.enter (k := .removal) (by simp [Removal.Holds, hr, Removal.owns])
      fun k => ?_, h.not_late (by simp [hr])⟩
    cases k <;> simp [Removal.Holds, hr, Removal.owns, Removal.inMap]
  | lock hr => exact ⟨counts_removal h.counts (by rw [hr]; rfl) (by rw [hr]; rfl),
      h.not_late (by simp [hr])⟩
  | erase hr =>
    refine ⟨h.counts.exit (k := .dbs) (by simp [Removal.Holds, hr, Removal.inMap])
      fun k => ?_, h.not_late (by simp [hr])⟩
    cases k <;> simp [Removal.Holds, hr, Removal.owns, Removal.inMap]
  | unlockRemoval hr => exact ⟨counts_removal h.counts (by rw [hr]; rfl) (by rw [hr]; rfl),
      h.not_late (by simp [hr])⟩
  | reset hr =>
    refine ⟨h.counts.exit (k := .removal) (by simp [Removal.Holds, hr, Removal.owns])
      fun k => ?_, h.not_late (by simp [hr])⟩
    cases k <;> simp [Removal.Holds, hr, Removal.owns, Removal.inMap]
  | ret hr => exact ⟨counts_removal h.counts (by rw [hr]; rfl) (by rw [hr]; rfl),
      h.not_late (by simp [hr])⟩

theorem inv_inductive (lib : Maxminddb) (entry : DbEntry) :
    (lookups (ι := ι) lib entry).Inductive Inv where
  init s hs := by
    obtain ⟨hcount, hremoval, hidle, hlate⟩ := hs
    refine ⟨?_, fun i hi => ?_⟩
    · rw [hcount]
      refine Counts.single (k := .dbs) (fun k => ?_) fun i => by rw [hidle]; rfl
      cases k <;> simp [Removal.Holds, hremoval, Removal.inMap, Removal.owns]
    · cases (hlate i).symm.trans hi
  step _ _ _ hs hstep := hs.step hstep

omit [DecidableEq ι] in
/-- After the removal only lookups own the entry: the check of a late lookup passes exactly when
another one holds it. -/
theorem Inv.check_iff (h : Inv s) {ip : String} {path : List String} (hlate : s.late i = true)
    (hpc : s.pc i = .shared ip path) : 1 < s.useCount ↔ ∃ j, j ≠ i ∧ (s.pc j).owns = true := by
  have hi : s.Owns (.inr i) := by simp [State.Owns, Holders, hpc, Pc.owns]
  rw [h.counts.one_lt_iff hi]
  constructor
  · rintro ⟨o, hne, ho⟩
    rcases o with (_ | _) | j
    · simp [State.Owns, Holders, Removal.Holds, (h.late i hlate).1, Removal.inMap] at ho
    · simp [State.Owns, Holders, Removal.Holds, (h.late i hlate).1, Removal.owns] at ho
    · exact ⟨j, fun hj => hne (by rw [hj]), ho⟩
  · rintro ⟨j, hne, hj⟩
    exact ⟨.inr j, by simpa using hne, hj⟩

end Invariant

/-! ## Lookups after the removal -/

/-- Every lookup that started after the removal had returned answers that the database is not
available, and none of them is stuck. -/
structure Unavailable (lib : Maxminddb) (entry : DbEntry) (s : State ι) : Prop where
  answer : ∀ i res, s.late i = true → s.pc i = .done res → res = unavailable
  proceeds : ∀ i, s.late i = true → (∃ res, s.pc i = .done res) ∨
    ∃ a s', Step lib entry s (.look i a) s'

/-- No late lookup checks the count while another lookup holds the entry. -/
def Alone (s : State ι) (l : Label ι) : Prop :=
  ∀ i, l = .look i .check → s.late i = true → ∀ j, j ≠ i → (s.pc j).owns = false

/-- A lookup that has not passed the check, and answers that the database is not available. -/
def Pc.Refused : Pc → Prop
  | .checked .. => False
  | .leaving res | .unlocked res | .done res => res = unavailable
  | _ => True

section Late

variable {lib : Maxminddb} {entry : DbEntry} {s s' : State ι} {l : Label ι}

/-- Late lookups are refused. -/
structure Refuses (s : State ι) : Prop where
  inv : Inv s
  refused : ∀ i, s.late i = true → (s.pc i).Refused

theorem refused_goto {i : ι} {pc : Pc} (h : ∀ j, s.late j = true → (s.pc j).Refused)
    (hpc : s.late i = true → pc.Refused) (j : ι) (hj : s.late j = true) :
    ((s.goto i pc).pc j).Refused := by
  show (Function.update s.pc i pc j).Refused
  rw [Function.update_apply]
  split
  · rename_i hji
    exact hpc (hji ▸ hj)
  · exact h j hj

theorem Refuses.step (h : Refuses s) (halone : Alone s l) (hstep : Step lib entry s l s') :
    Refuses s' := by
  refine ⟨h.inv.step hstep, ?_⟩
  cases hstep with
  | call i ip path hpc =>
    intro j hj
    simp only [State.goto, Function.update_apply] at hj ⊢
    split
    · trivial
    · rename_i hji
      rw [if_neg hji] at hj
      exact h.refused j hj
  | expired hpc => exact refused_goto h.refused fun _ => rfl
  | weakLock hpc => exact refused_goto h.refused fun _ => trivial
  | sharedLock hpc => exact refused_goto h.refused fun _ => trivial
  | gone hpc => exact refused_goto h.refused fun _ => rfl
  | check hpc hcount =>
    refine refused_goto h.refused fun hi => ?_
    obtain ⟨j, hne, hj⟩ := (h.inv.check_iff hi hpc).mp hcount
    cases hj.symm.trans (halone _ rfl hi j hne)
  | read hpc =>
    refine refused_goto h.refused fun hi => ?_
    have hchecked := h.refused _ hi
    rw [hpc] at hchecked
    cases hchecked
  | unlock hpc =>
    refine refused_goto h.refused fun hi => ?_
    have hleaving := h.refused _ hi
    rw [hpc] at hleaving
    exact hleaving
  | release hpc =>
    refine refused_goto h.refused fun hi => ?_
    have hunlocked := h.refused _ hi
    rw [hpc] at hunlocked
    exact hunlocked
  | find hr => exact h.refused
  | lock hr => exact h.refused
  | erase hr => exact h.refused
  | unlockRemoval hr => exact h.refused
  | reset hr => exact h.refused
  | ret hr => exact h.refused

theorem refuses_inductive (lib : Maxminddb) (entry : DbEntry) :
    ((lookups (ι := ι) lib entry).guarded Alone).Inductive Refuses where
  init s hs := by
    refine ⟨(inv_inductive lib entry).init s hs, fun i hi => ?_⟩
    cases (hs.2.2.2 i).symm.trans hi
  step _ _ _ hs hstep := hs.step hstep.1 hstep.2

omit [DecidableEq ι] in
/-- After the removal the mutex is only ever shared. -/
theorem Inv.grants (h : Inv s) {i : ι} (hi : s.late i = true) : RwLock.Grants s.held .shared := by
  intro o m ho
  refine ⟨rfl, ?_⟩
  cases o with
  | none =>
    simp only [State.held, (h.late i hi).1] at ho
    cases ho
  | some j =>
    simp only [State.held] at ho
    cases hpc : s.pc j <;> rw [hpc] at ho <;> cases ho <;> rfl

/-- A late lookup can take its next step. -/
theorem Inv.proceeds (h : Inv s) (lib : Maxminddb) (entry : DbEntry) {i : ι}
    (hi : s.late i = true) :
    (∃ res, s.pc i = .done res) ∨ ∃ a s', Step lib entry s (.look i a) s' := by
  cases hpc : s.pc i with
  | idle => exact absurd hpc (h.late i hi).2
  | called ip path =>
    rcases Nat.eq_zero_or_pos s.useCount with hzero | hpos
    · exact .inr ⟨_, _, .expired hpc hzero⟩
    · exact .inr ⟨_, _, .weakLock hpc hpos⟩
  | owned ip path => exact .inr ⟨_, _, .sharedLock hpc (h.grants hi)⟩
  | shared ip path =>
    rcases Nat.lt_or_ge 1 s.useCount with hmany | hone
    · exact .inr ⟨_, _, .check hpc hmany⟩
    · exact .inr ⟨_, _, .gone hpc hone⟩
  | checked ip path => exact .inr ⟨_, _, .read hpc⟩
  | leaving res => exact .inr ⟨_, _, .unlock hpc⟩
  | unlocked res => exact .inr ⟨_, _, .release hpc⟩
  | done res => exact .inl ⟨res, rfl⟩

end Late

/-- Where no late lookup checks the count while another one holds the entry, the removed database is
not available to any of them. -/
theorem unavailable_of_alone (lib : Maxminddb) (entry : DbEntry) (s : State ι)
    (h : ((lookups lib entry).guarded Alone).Reachable s) : Unavailable lib entry s := by
  have hs := (refuses_inductive lib entry).holds h
  constructor
  · intro i res hi hdone
    have hrefused := hs.refused i hi
    rw [hdone] at hrefused
    exact hrefused
  · intro i hi
    exact hs.inv.proceeds lib entry hi

section Sample

def sampleEntry : DbEntry := ⟨0, samplePath, .CITY, 0, "old"⟩

/-- Two locators, before any call. -/
def sampleState : State Bool :=
  ⟨1, .registered, fun _ => .idle, fun _ => false, fun _ => .new sampleEntry ⟨false, 0⟩⟩

theorem alone_of_ne {s : State Bool} {l : Label Bool} (h : ∀ i, l ≠ .look i .check) : Alone s l :=
  fun i hi => absurd hi (h i)

/-- Nobody holds the mutex. -/
theorem grants_of_free {s : State Bool} (hremoval : s.removal.mode = none)
    (hfirst : (s.pc false).mode = none) (hsecond : (s.pc true).mode = none) (m : Mode) :
    RwLock.Grants s.held m := by
  intro o a ho
  rcases o with _ | _ | _
  · cases hremoval.symm.trans ho
  · cases hfirst.symm.trans ho
  · cases hsecond.symm.trans ho

/-- A lookup after a removal that met none. -/
theorem late_unavailable : ∃ s : State Bool, s.late true = true ∧ s.pc true = .done unavailable ∧
    Unavailable sampleLib sampleEntry s := by
  have h0 : ((lookups sampleLib sampleEntry).guarded Alone).Reachable sampleState :=
    .init ⟨rfl, rfl, fun _ => rfl, fun _ => rfl⟩
  have h1 := h0.step (l := .remove .find) ⟨alone_of_ne nofun, .find rfl⟩
  have h2 := h1.step (l := .remove .lock)
    ⟨alone_of_ne nofun, .lock rfl (grants_of_free rfl rfl rfl _)⟩
  have h3 := h2.step (l := .remove .erase) ⟨alone_of_ne nofun, .erase rfl⟩
  have h4 := h3.step (l := .remove .unlock) ⟨alone_of_ne nofun, .unlockRemoval rfl⟩
  have h5 := h4.step (l := .remove .reset) ⟨alone_of_ne nofun, .reset rfl⟩
  have h6 := h5.step (l := .remove .ret) ⟨alone_of_ne nofun, .ret rfl⟩
  have h7 := h6.step (l := .look true (.call "10.0.0.1" ["city"]))
    ⟨alone_of_ne nofun, .call true "10.0.0.1" ["city"] (.inl rfl)⟩
  have h8 := h7.step (l := .look true .weakLock) ⟨alone_of_ne nofun, .expired (i := true) rfl rfl⟩
  exact ⟨_, rfl, rfl, unavailable_of_alone sampleLib sampleEntry _ h8⟩

/-- A lookup that has locked its weak pointer before the removal lets a later one through. -/
theorem removed_is_read : ∃ s : State Bool, (lookups sampleLib sampleEntry).Reachable s ∧
    s.removal = .returned ∧ s.late true = true ∧ s.pc true = .done (.ok "old") ∧
    ¬ Unavailable sampleLib sampleEntry s := by
  have h0 : (lookups sampleLib sampleEntry).Reachable sampleState :=
    .init ⟨rfl, rfl, fun _ => rfl, fun _ => rfl⟩
  have h1 := h0.step (.call false "10.0.0.1" ["city"] (.inl rfl))
  have h2 := h1.step (.weakLock (i := false) rfl (by decide))
  have h3 := h2.step (.find rfl)
  have h4 := h3.step (.lock rfl (grants_of_free rfl rfl rfl _))
  have h5 := h4.step (.erase rfl)
  have h6 := h5.step (.unlockRemoval rfl)
  have h7 := h6.step (.reset rfl)
  have h8 := h7.step (.ret rfl)
  have h9 := h8.step (.call true "10.0.0.1" ["city"] (.inl rfl))
  have h10 := h9.step (.weakLock (i := true) rfl (by decide))
  have h11 := h10.step (.sharedLock (i := true) rfl (grants_of_free rfl rfl rfl _))
  have h12 := h11.step (.check (i := true) rfl (by decide))
  have h13 := h12.step (.read (i := true) rfl)
  have h14 := h13.step (.unlock (i := true) rfl)
  have h15 := h14.step (.release (i := true) rfl)
  refine ⟨_, h15, rfl, rfl, rfl, fun h => ?_⟩
  cases h.answer true (.ok "old") rfl rfl

end Sample

end DistroDefender.Geo.Lookups
