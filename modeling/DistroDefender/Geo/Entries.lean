import DistroDefender.Geo.Registry

/-!
# The entries behind the databases

A locator holds a weak pointer to an entry, and what it reads is what this entry has open
(`World.lock`). Entries are told apart by their `id`, databases that were opened by their `opening`.
`Distinct` says that no registered entry shares its `id` with another and that both numbers lie
below the count of openings; every reachable manager meets it.
-/

namespace DistroDefender.Geo

open Base Lib Os Store Manager

variable {τ : Type} {w : World τ}

/-- `weak_ptr::lock`: the entry while it is registered. -/
def World.lock (w : World τ) (id : Nat) : Option DbEntry :=
  (w.dbs.toList.map (·.2)).find? fun entry => entry.id = id

theorem lock_some {id : Nat} {entry : DbEntry} (h : w.lock id = some entry) :
    entry.id = id ∧ ∃ name, w.dbs.lookup name = some entry := by
  have hid := List.find?_some h
  obtain ⟨⟨name, e⟩, hmem, rfl⟩ := List.mem_map.mp (List.mem_of_find?_eq_some h)
  exact ⟨by simpa using hid, name, Map.mem_toList.mp hmem⟩

/-- What holds of the numbers of the entries. -/
structure Distinct (w : World τ) : Prop where
  id_lt : ∀ name entry, w.dbs.lookup name = some entry → entry.id < w.openings
  opening_lt : ∀ name entry, w.dbs.lookup name = some entry → entry.opening < w.openings
  id_inj : ∀ name name' entry entry', w.dbs.lookup name = some entry →
    w.dbs.lookup name' = some entry' → entry.id = entry'.id → name = name'

theorem distinct_start (store : τ) (files : Path → Option String) :
    Distinct (World.start store files) where
  id_lt name entry h := by cases h
  opening_lt name entry h := by cases h
  id_inj name name' entry entry' h := by cases h

/-- An entry put under a name with an opening of its own, whose `id` no other name has. -/
theorem Distinct.insert (h : Distinct w) {w' : World τ} {name : String} {entry : DbEntry}
    (hdbs : w'.dbs = w.dbs.insert name entry) (hopenings : w'.openings = w.openings + 1)
    (hid : entry.id ≤ w.openings) (hopening : entry.opening = w.openings)
    (hother : ∀ name' entry', w.dbs.lookup name' = some entry' → entry'.id = entry.id →
      name' = name) :
    Distinct w' := by
  have hcases : ∀ name' entry', w'.dbs.lookup name' = some entry' →
      name' = name ∧ entry' = entry ∨ name' ≠ name ∧ w.dbs.lookup name' = some entry' := by
    intro name' entry' he
    rw [hdbs, Map.lookup_insert_eq] at he
    split at he
    · rename_i hname
      exact .inl ⟨hname, (Option.some.inj he).symm⟩
    · rename_i hname
      exact .inr ⟨hname, he⟩
  refine ⟨fun name' entry' he => ?_, fun name' entry' he => ?_, fun n n' e e' he he' hsame => ?_⟩
  · rcases hcases name' entry' he with ⟨-, rfl⟩ | ⟨-, he⟩
    · omega
    · have hlt := h.id_lt name' entry' he
      omega
  · rcases hcases name' entry' he with ⟨-, rfl⟩ | ⟨-, he⟩
    · omega
    · have hlt := h.opening_lt name' entry' he
      omega
  · rcases hcases n e he with ⟨rfl, rfl⟩ | ⟨hn, he⟩
    · rcases hcases n' e' he' with ⟨rfl, rfl⟩ | ⟨hn', he'⟩
      · rfl
      · exact absurd (hother n' e' he' hsame.symm) hn'
    · rcases hcases n' e' he' with ⟨rfl, rfl⟩ | ⟨hn', he'⟩
      · exact absurd (hother n e he hsame) hn
      · exact h.id_inj n n' e e' he he' hsame

/-- `Distinct` speaks of the databases and of the count of openings only. -/
theorem Distinct.congr (h : Distinct w) {w' : World τ} (hdbs : w'.dbs = w.dbs)
    (hopenings : w'.openings = w.openings) : Distinct w' := by
  refine ⟨?_, ?_, ?_⟩
  · rw [hdbs, hopenings]
    exact h.id_lt
  · rw [hdbs, hopenings]
    exact h.opening_lt
  · rw [hdbs]
    exact h.id_inj

theorem distinct_change {w w' : World τ} (hc : Change w w') (h : Distinct w) : Distinct w' := by
  cases hc with
  | outside hdbs _ hopenings => exact h.congr hdbs hopenings
  | register _ _ =>
    refine h.insert rfl rfl (Nat.le_refl _) rfl fun name' entry' he hid => ?_
    have hlt := h.id_lt name' entry' he
    exact absurd hid (Nat.ne_of_lt hlt)
  | @unregister name entry _ =>
    have hsub : ∀ name' entry', (unregister w name).dbs.lookup name' = some entry' →
        w.dbs.lookup name' = some entry' := by
      intro name' entry' he
      simp only [unregister, Map.lookup_erase_eq] at he
      split at he
      · cases he
      · exact he
    exact ⟨fun n e he => h.id_lt n e (hsub n e he), fun n e he => h.opening_lt n e (hsub n e he),
      fun n n' e e' he he' => h.id_inj n n' e e' (hsub n e he) (hsub n' e' he')⟩
  | @reopen name content entry hentry =>
    refine h.insert rfl rfl
      (Nat.le_of_lt (h.id_lt name entry hentry)) rfl fun name' entry' he hid => ?_
    exact h.id_inj name' name entry' entry he hentry hid

theorem distinct_of_reachable {deps : Deps τ} (h : (system deps).Reachable w) : Distinct w :=
  holds_of_reachable distinct_start (fun _ _ => distinct_change) h

theorem inverse_of_reachable {deps : Deps τ} (h : (system deps).Reachable w) : Inverse w :=
  holds_of_reachable inverse_start (fun _ _ => inverse_change) h

/-- A registered entry is found by its `id`. -/
theorem Distinct.lock_eq (h : Distinct w) {name : String} {entry : DbEntry}
    (hentry : w.dbs.lookup name = some entry) : w.lock entry.id = some entry := by
  cases hlock : w.lock entry.id with
  | none =>
    have hmem : entry ∈ w.dbs.toList.map (·.2) :=
      List.mem_map.mpr ⟨(name, entry), Map.mem_toList.mpr hentry, rfl⟩
    have hnone := List.find?_eq_none.mp hlock entry hmem
    exact absurd (decide_eq_true rfl) hnone
  | some entry' =>
    obtain ⟨hid, name', he'⟩ := lock_some hlock
    cases h.id_inj name' name entry' entry he' hentry hid
    cases hentry.symm.trans he'
    rfl

theorem mem_listDbs {info : DbInfo} : info ∈ listDbs w ↔
    ∃ entry, w.dbs.lookup info.name = some entry ∧ entry.path = info.path ∧
      entry.type = info.type := by
  unfold listDbs
  rw [List.mem_filterMap]
  constructor
  · rintro ⟨name, -, h⟩
    obtain ⟨entry, hentry, rfl⟩ := Option.map_eq_some_iff.mp h
    exact ⟨entry, hentry, rfl, rfl⟩
  · rintro ⟨entry, hentry, hpath, htype⟩
    have hmem : info.name ∈ w.dbs :=
      AList.lookup_isSome.mp (by rw [hentry]; rfl)
    refine ⟨info.name, mem_sortedSet.mpr (AList.mem_keys.mp hmem), ?_⟩
    rw [hentry, Option.map_some, hpath, htype]

/-- The locator of a type is one of the entry registered under it. -/
theorem Inverse.getLocator_eq (h : Inverse w) {name : String} {entry : DbEntry}
    (hentry : w.dbs.lookup name = some entry) (memory : LookupResult) :
    getLocator w entry.type memory = .ok (.ok (Locator.new entry memory)) := by
  have htype := (h entry.type name).mpr ⟨entry, hentry, rfl⟩
  simp [getLocator, htype, hentry]

end DistroDefender.Geo
