import DistroDefender.Geo.Entries

/-!
# The cache of a locator

A locator asks libmaxminddb for an address only when it is not the one of its last lookup. `direct`
is the answer without a cache. The two agree where the cached result is from the database that is
open (`getValue_eq_direct`); the manager can replace this database behind the locator, so `Current`
asks that an address is not repeated across a replacement. In the runs where it is not, every answer
is the direct one (`transparent`).
-/

namespace DistroDefender.Geo

open Base Lib Os Store Manager

/-! ## One call -/

section Call

variable {α : Type} (lib : Maxminddb) (convert : EntryData → RespOrError α) (ip : String)
  (path : List String)

/-- The answer from the result of a lookup in `content`. -/
def answer (content : String) (result : LookupResult) : RespOrError α :=
  if !result.found_entry then .error ⟨"No data found for the IP address"⟩
  else
    match lib.aget_value content result.entry (path.map cstr) with
    | .error status => .error ⟨s!"Error getting value: {lib.strerror status}"⟩
    | .ok eData => convert eData

/-- What is answered from `content` without a cache. -/
def direct (content : String) : RespOrError α :=
  match lib.lookup_string content (cstr ip) with
  | (result, gai_error, mmdb_error) =>
    if gai_error ≠ 0 then
      .error ⟨s!"Error translating IP address {ip}: {lib.gai_strerror gai_error}"⟩
    else if mmdb_error ≠ MMDB_SUCCESS then
      .error ⟨s!"Error from libmaxminddb: {lib.strerror mmdb_error}"⟩
    else answer lib convert path content result

/-- The lookup of `ip` in `content` succeeds with `result`. -/
def LooksUp (content ip : String) (result : LookupResult) : Prop :=
  lib.lookup_string content (cstr ip) = (result, 0, MMDB_SUCCESS)

variable {lib convert ip path} in
theorem direct_of_looksUp {content : String} {result : LookupResult}
    (h : LooksUp lib content ip result) :
    direct lib convert ip path content = answer lib convert path content result := by
  unfold direct
  rw [h]
  simp

/-- A lookup is skipped, fails as the direct one does, or succeeds and is kept. -/
theorem run_lookup (entry : DbEntry) (l : Locator) :
    (ip = l.cachedIp ∧ (lookup lib ip entry).run l = (none, l)) ∨
    (ip ≠ l.cachedIp ∧ ∃ e, (∀ path, direct lib convert ip path entry.content = .error e) ∧
      (lookup lib ip entry).run l = (some e, l)) ∨
    (ip ≠ l.cachedIp ∧ ∃ result, LooksUp lib entry.content ip result ∧
      (lookup lib ip entry).run l = (none, ⟨l.weakDbEntry, ip, result, some entry.opening⟩)) := by
  unfold lookup direct LooksUp
  rw [StateT.run_bind]
  by_cases hip : ip = l.cachedIp
  · refine .inl ⟨hip, ?_⟩
    simp [hip]
    rfl
  · refine .inr ?_
    obtain ⟨result, gai_error, mmdb_error⟩ := lib.lookup_string entry.content (cstr ip)
    by_cases hgai : gai_error = 0
    · by_cases hmmdb : mmdb_error = MMDB_SUCCESS
      · refine .inr ⟨hip, result, by rw [hgai, hmmdb], ?_⟩
        simp [hip, hgai, hmmdb]
        rfl
      · refine .inl ⟨hip, ⟨s!"Error from libmaxminddb: {lib.strerror mmdb_error}"⟩,
          fun path => ?_, ?_⟩
        · simp [hgai, hmmdb]
        · simp [hip, hgai, hmmdb]
          rfl
    · refine .inl ⟨hip, ⟨s!"Error translating IP address {ip}: {lib.gai_strerror gai_error}"⟩,
        fun path => ?_, ?_⟩
      · simp [hgai]
      · simp [hip, hgai]
        rfl

/-- The value is the one of the cached result, in what the entry has open. -/
theorem run_getEData (entry : DbEntry) (l : Locator) :
    ∃ r, (getEData lib path entry).run l = (r, l) ∧
      (match r with
        | .error e => .error e
        | .ok eData => convert eData) = answer lib convert path entry.content l.cachedResult := by
  unfold getEData answer
  cases hfound : l.cachedResult.found_entry with
  | false =>
    refine ⟨.error ⟨"No data found for the IP address"⟩, ?_, rfl⟩
    simp [hfound]
    rfl
  | true =>
    cases hvalue : lib.aget_value entry.content l.cachedResult.entry (path.map cstr) with
    | error status =>
      refine ⟨.error ⟨s!"Error getting value: {lib.strerror status}"⟩, ?_, rfl⟩
      simp [hfound, hvalue]
      rfl
    | ok eData =>
      refine ⟨.ok eData, ?_, rfl⟩
      simp [hfound, hvalue]
      rfl

/-- A call is a lookup and, where this succeeds, the answer of the result that is cached then. -/
theorem run_getValue_eq (entry : DbEntry) (l : Locator) :
    (getValue lib convert ip path (some entry)).run l =
      match (lookup lib ip entry).run l with
      | (some e, l') => (.error e, l')
      | (none, l') => (answer lib convert path entry.content l'.cachedResult, l') := by
  unfold getValue
  rw [StateT.run_bind]
  rcases (lookup lib ip entry).run l with ⟨_ | e, l'⟩
  · obtain ⟨r, hrun, hr⟩ := run_getEData lib convert path entry l'
    show (getEData lib path entry >>= _ : StateM Locator _).run l' = _
    rw [StateT.run_bind, hrun]
    simp only
    rw [← hr]
    cases r <;> rfl
  · rfl

/-- A call answers from the cache, or as the direct one; it keeps a result that it looked up. -/
theorem run_getValue (entry : DbEntry) (l : Locator) :
    (ip = l.cachedIp ∧ (getValue lib convert ip path (some entry)).run l =
      (answer lib convert path entry.content l.cachedResult, l)) ∨
    (ip ≠ l.cachedIp ∧ ∃ l', (getValue lib convert ip path (some entry)).run l =
        (direct lib convert ip path entry.content, l') ∧
      (l' = l ∨ ∃ result, LooksUp lib entry.content ip result ∧
        l' = ⟨l.weakDbEntry, ip, result, some entry.opening⟩)) := by
  rw [run_getValue_eq]
  rcases run_lookup lib convert ip entry l with
    ⟨hip, hlookup⟩ | ⟨hip, e, he, hlookup⟩ | ⟨hip, result, hresult, hlookup⟩
  · rw [hlookup]
    exact .inl ⟨hip, rfl⟩
  · rw [hlookup, he path]
    exact .inr ⟨hip, l, rfl, .inl rfl⟩
  · rw [hlookup, direct_of_looksUp hresult]
    exact .inr ⟨hip, _, rfl, .inr ⟨result, hresult, rfl⟩⟩

/-- Where a cached result is from what the entry has open, the cache does not show. -/
theorem getValue_eq_direct (entry : DbEntry) (l : Locator)
    (h : ip = l.cachedIp → LooksUp lib entry.content l.cachedIp l.cachedResult) :
    ((getValue lib convert ip path (some entry)).run l).1 =
      direct lib convert ip path entry.content := by
  rcases run_getValue lib convert ip path entry l with
    ⟨hip, hrun⟩ | ⟨-, l', hrun, -⟩
  · have hcached := h hip
    rw [← hip] at hcached
    rw [hrun, direct_of_looksUp hcached]
  · rw [hrun]

/-- A fresh locator answers directly, but for the empty address. -/
theorem getValue_new (entry : DbEntry) (memory : LookupResult) (h : ip ≠ "") :
    ((getValue lib convert ip path (some entry)).run (Locator.new entry memory)).1 =
      direct lib convert ip path entry.content :=
  getValue_eq_direct lib convert ip path entry _ fun hip => absurd hip h

end Call

/-! ## The four getters -/

/-- The calls of a locator. -/
inductive Getter where
  | getString
  | getUint32
  | getDouble
  | getAsJson

/-- The type of the values. -/
def Getter.Value : Getter → Type
  | .getString => String
  | .getUint32 => UInt32
  | .getDouble => UInt64
  | .getAsJson => Json

def Getter.convert : (g : Getter) → EntryData → RespOrError g.Value
  | .getString => asString
  | .getUint32 => asUint32
  | .getDouble => asDouble
  | .getAsJson => asJson

/-- The call a getter stands for. -/
def Getter.call (lib : Maxminddb) :
    (g : Getter) → String → List String → Option DbEntry → StateM Locator (RespOrError g.Value)
  | .getString => Geo.getString lib
  | .getUint32 => Geo.getUint32 lib
  | .getDouble => Geo.getDouble lib
  | .getAsJson => Geo.getAsJson lib

theorem Getter.call_eq (lib : Maxminddb) (g : Getter) : g.call lib = getValue lib g.convert := by
  cases g <;> rfl

/-! ## Runs -/

section Runs

variable {τ : Type}

/-- What happens in a run: a step of the manager, or a call of the locator with its result. -/
inductive Event where
  | manager (a : Act)
  | call (g : Getter) (ip : String) (path : List String) (r : RespOrError g.Value)

/-- One step of a manager beside one locator. -/
inductive Looking (deps : Deps τ) : World τ × Locator → Event → World τ × Locator → Prop
  | manager {w w' : World τ} {l : Locator} {a : Act} (h : Step deps w a w') :
      Looking deps (w, l) (.manager a) (w', l)
  | call {w : World τ} {l l' : Locator} {g : Getter} {ip : String} {path : List String}
      {r : RespOrError g.Value}
      (h : (g.call deps.mmdb ip path (w.lock l.weakDbEntry)).run l = (r, l')) :
      Looking deps (w, l) (.call g ip path r) (w, l')

/-- A manager in any state it can reach, and a locator it has just handed out. -/
def looking (deps : Deps τ) : System (World τ × Locator) Event where
  init s := (system deps).Reachable s.1 ∧
    ∃ type memory, getLocator s.1 type memory = .ok (.ok s.2)
  step := Looking deps

/-- A call repeats the address of the last lookup only while the database is the one it was in. -/
def Current (s : World τ × Locator) : Event → Prop
  | .manager _ => True
  | .call _ ip _ _ => ∀ entry, s.1.lock s.2.weakDbEntry = some entry → ip = s.2.cachedIp →
      s.2.cachedFrom = some entry.opening

/-- The cached result is from the opening it was taken in. -/
structure Cached (lib : Maxminddb) (s : World τ × Locator) : Prop where
  distinct : Distinct s.1
  opening_lt : ∀ k, s.2.cachedFrom = some k → k < s.1.openings
  looksUp : ∀ entry, s.1.lock s.2.weakDbEntry = some entry →
    s.2.cachedFrom = some entry.opening → LooksUp lib entry.content s.2.cachedIp s.2.cachedResult

theorem cachedFrom_getLocator {w : World τ} {type : DbType} {memory : LookupResult} {l : Locator}
    (h : getLocator w type memory = .ok (.ok l)) : l.cachedFrom = none := by
  unfold getLocator at h
  split at h
  · cases h
  · split at h
    · cases h
    · cases h
      rfl

/-- An entry whose database was open before a change was registered before it. -/
theorem lock_of_change {w w' : World τ} (hc : Change w w') (hdistinct : Distinct w) {id : Nat}
    {entry : DbEntry} (hlock : w'.lock id = some entry) (hopening : entry.opening < w.openings) :
    w.lock id = some entry := by
  obtain ⟨rfl, name, he⟩ := lock_some hlock
  suffices he : w.dbs.lookup name = some entry from hdistinct.lock_eq he
  cases hc with
  | outside hdbs _ _ => rwa [hdbs] at he
  | register _ _ =>
    simp only [register, Map.lookup_insert_eq] at he
    split at he
    · cases he
      exact absurd hopening (Nat.lt_irrefl _)
    · exact he
  | unregister _ =>
    simp only [unregister, Map.lookup_erase_eq] at he
    split at he
    · cases he
    · exact he
  | reopen _ =>
    simp only [reopen, Map.lookup_insert_eq] at he
    split at he
    · cases he
      exact absurd hopening (Nat.lt_irrefl _)
    · exact he

theorem openings_le_of_change {w w' : World τ} (hc : Change w w') : w.openings ≤ w'.openings := by
  cases hc with
  | outside _ _ hopenings => exact Nat.le_of_eq hopenings.symm
  | register _ _ => exact Nat.le_succ _
  | unregister _ => exact Nat.le_refl _
  | reopen _ => exact Nat.le_succ _

theorem cached_change {lib : Maxminddb} {w w' : World τ} {l : Locator} (hc : Change w w')
    (h : Cached lib (w, l)) : Cached lib (w', l) where
  distinct := distinct_change hc h.distinct
  opening_lt k hk := Nat.lt_of_lt_of_le (h.opening_lt k hk) (openings_le_of_change hc)
  looksUp entry hlock hfrom :=
    h.looksUp entry (lock_of_change hc h.distinct hlock (h.opening_lt _ hfrom)) hfrom

theorem cached_call {deps : Deps τ} {w : World τ} {l l' : Locator} {g : Getter} {ip : String}
    {path : List String} {r : RespOrError g.Value} (h : Cached deps.mmdb (w, l))
    (hrun : (g.call deps.mmdb ip path (w.lock l.weakDbEntry)).run l = (r, l')) :
    Cached deps.mmdb (w, l') := by
  rw [Getter.call_eq] at hrun
  cases hlock : w.lock l.weakDbEntry with
  | none =>
    rw [hlock] at hrun
    cases hrun
    exact h
  | some entry =>
    rw [hlock] at hrun
    rcases run_getValue deps.mmdb g.convert ip path entry l with
      ⟨-, hsame⟩ | ⟨-, l'', hlooked, hl⟩
    · cases hrun.symm.trans hsame
      exact h
    · cases hrun.symm.trans hlooked
      rcases hl with rfl | ⟨result, hresult, rfl⟩
      · exact h
      · obtain ⟨-, name, he⟩ := lock_some hlock
        refine ⟨h.distinct, fun k hk => ?_, fun entry' hlock' _ => ?_⟩
        · cases hk
          exact h.distinct.opening_lt name entry he
        · cases hlock.symm.trans hlock'
          exact hresult

theorem cached_of_reachable {deps : Deps τ} {s : World τ × Locator}
    (h : (looking deps).Reachable s) : Cached deps.mmdb s := by
  refine System.Inductive.holds (S := looking deps) ⟨?_, ?_⟩ h
  · rintro ⟨w, l⟩ ⟨hw, type, memory, hl⟩
    have hnone := cachedFrom_getLocator hl
    refine ⟨distinct_of_reachable hw, fun k hk => ?_, fun entry _ hfrom => ?_⟩
    · cases hnone.symm.trans hk
    · cases hnone.symm.trans hfrom
  · intro s e s' hs hstep
    cases hstep with
    | @manager w w' l a hstep =>
      exact step_keeps (I := fun w => Cached deps.mmdb (w, l)) (fun _ _ hc h => cached_change hc h)
        hstep hs
    | call hrun => exact cached_call hs hrun

/-- In the runs where no address is repeated across a replacement, a call that finds the database
answers as one without a cache. -/
theorem transparent (deps : Deps τ) (s s' : World τ × Locator) (g : Getter) (ip : String)
    (path : List String) (r : RespOrError g.Value) (entry : DbEntry)
    (hs : ((looking deps).guarded Current).Reachable s)
    (hstep : ((looking deps).guarded Current).step s (.call g ip path r) s')
    (hlock : s.1.lock s.2.weakDbEntry = some entry) :
    r = direct deps.mmdb g.convert ip path entry.content := by
  obtain ⟨hcurrent, hstep⟩ := hstep
  have hcached := cached_of_reachable hs.of_guarded
  cases hstep with
  | @call w l l' _ _ _ _ hrun =>
    have hanswer := getValue_eq_direct deps.mmdb g.convert ip path entry l fun hip =>
      hcached.looksUp entry hlock (hcurrent entry hlock hip)
    rw [Getter.call_eq, hlock] at hrun
    rw [hrun] at hanswer
    exact hanswer

end Runs

section Sample

/-- A locator of the database in `sampleWorld`. -/
def sampleLocator : Locator := ⟨0, "", ⟨false, 0⟩, none⟩

/-- After a lookup. -/
def sampleLocator' : Locator := ⟨0, "192.0.2.1", ⟨true, 3⟩, some 0⟩

theorem sample_init : (looking sampleDeps).init (sampleWorld, sampleLocator) :=
  ⟨sampleWorld_reachable, .CITY, ⟨false, 0⟩, rfl⟩

theorem sample_lookup : (looking sampleDeps).step (sampleWorld, sampleLocator)
    (.call .getString "192.0.2.1" [] (.ok "old")) (sampleWorld, sampleLocator') :=
  .call rfl

/-- The address asked again is answered from the cache. -/
theorem sample_transparent : ∃ r, r = direct sampleDeps.mmdb Getter.getString.convert "192.0.2.1" []
    "old" ∧ ((looking sampleDeps).guarded Current).step (sampleWorld, sampleLocator')
      (.call .getString "192.0.2.1" [] r) (sampleWorld, sampleLocator') := by
  have hlookup : ((looking sampleDeps).guarded Current).Reachable
      (sampleWorld, sampleLocator') := by
    have hcurrent : Current (sampleWorld, sampleLocator)
        (.call .getString "192.0.2.1" [] (.ok "old")) := by
      intro entry _ hip
      have hempty : "192.0.2.1" = "" := hip
      exact absurd hempty (by decide)
    exact .step (.init sample_init) ⟨hcurrent, sample_lookup⟩
  have hstep : ((looking sampleDeps).guarded Current).step (sampleWorld, sampleLocator')
      (.call .getString "192.0.2.1" [] (.ok "old")) (sampleWorld, sampleLocator') := by
    refine ⟨fun entry hlock _ => ?_, .call rfl⟩
    cases hlock
    rfl
  exact ⟨_, transparent sampleDeps _ _ _ _ _ _ ⟨0, samplePath, .CITY, 0, "old"⟩ hlookup hstep rfl,
    hstep⟩

/-- The database is replaced, and the address asked again. -/
theorem stale_not_direct : ∃ s s' r entry, (looking sampleDeps).Reachable s ∧
    (looking sampleDeps).step s (.call .getString "192.0.2.1" [] r) s' ∧
    s.1.lock s.2.weakDbEntry = some entry ∧
    r ≠ direct sampleDeps.mmdb Getter.getString.convert "192.0.2.1" [] entry.content := by
  have hreplaced := ((System.Reachable.init sample_init).step sample_lookup).step
    (.manager (.call (.remoteUpsertDb samplePath .CITY "db" "md5") (.well "newer" "md5")))
  refine ⟨_, (_, sampleLocator'), .error ⟨"Error getting value: "⟩,
    ⟨0, samplePath, .CITY, 1, "newer"⟩, hreplaced, .call rfl, rfl, ?_⟩
  intro h
  have hnewer : (Except.error _ : RespOrError String) = .ok "newer" := h
  cases hnewer

end Sample

end DistroDefender.Geo
