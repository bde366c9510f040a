import DistroDefender.Geo.Registry
import DistroDefender.Geo.Upsert

/-!
# Only verified content is installed

`OnlyVerified` says what `remoteUpsertDb` promises of the hash: it returns, what it installs has the
advertised hash, and where no attempt has, it changes nothing. The loop breaks this when a hash
cannot be computed, and when every attempt delivers content with another hash: no error is set, so
the last content is installed. `onlyVerified_iff` says exactly when the promise holds.
-/

namespace DistroDefender.Geo

open Base Lib Os Store Manager

variable {τ : Type} {deps : Deps τ} {o : Outcomes} {w : World τ} {path : String} {type : DbType}
  {dbUrl hashUrl : String}

/-- The `i`-th attempt delivers `content`, and its hash is the advertised one. -/
def Verifies (o : Outcomes) (dbUrl hashUrl : String) (i : Nat) (content : String) : Prop :=
  ∃ hash, o.downloadMD5 hashUrl = .ok hash ∧ o.downloadHTTPS i dbUrl = .ok content ∧
    o.computeMD5 i content = .ok hash

/-- The database is registered and stored with the advertised hash. -/
def UpToDate (deps : Deps τ) (o : Outcomes) (w : World τ) (name hashUrl : String) : Prop :=
  ∃ hash, o.downloadMD5 hashUrl = .ok hash ∧ StoredHash deps w name (some hash)

/-- What a result of the call owes to the hash. -/
structure OnlyVerified (deps : Deps τ) (o : Outcomes) (w : World τ) (path dbUrl hashUrl : String)
    (r : EStateM.Result Throw (World τ) OptError) : Prop where
  returns : ∃ a w', r = .ok a w'
  /-- Without an error nothing was to do, or the first verified content is at the path. -/
  installed : ∀ w', r = .ok none w' →
    (UpToDate deps o w (filename path) hashUrl ∧ w' = w) ∨
    ∃ i content, i < MAX_RETRIES ∧ Verifies o dbUrl hashUrl i content ∧
      (∀ j < i, ∀ c, ¬ Verifies o dbUrl hashUrl j c) ∧ w'.files path = some content
  /-- Without a verified attempt there is an error and nothing changes. -/
  refused : ¬ UpToDate deps o w (filename path) hashUrl →
    (∀ i < MAX_RETRIES, ∀ c, ¬ Verifies o dbUrl hashUrl i c) →
    ∃ e w', r = .ok (some e) w' ∧ w'.dbs = w.dbs ∧ w'.dbTypes = w.dbTypes ∧ w'.store = w.store ∧
      w'.files path = w.files path

/-- Installing `content` is refused and changes nothing: it is not written, or it is what the file
holds and the new database is refused. -/
def Harmless (deps : Deps τ) (o : Outcomes) (w : World τ) (path : String) (type : DbType)
    (content : String) : Prop :=
  ¬ Writable o path ∨ w.dbs.lookup (filename path) = none ∧
    ¬ (w.dbTypes.lookup type = none ∧ Opens deps o content) ∧
    w.files path = some (o.stored content)

/-- When the promise holds, where attempts are made. -/
structure Sound (deps : Deps τ) (o : Outcomes) (w : World τ) (path : String) (type : DbType)
    (dbUrl hash : String) : Prop where
  /-- A stored document of a registered database has a hash. -/
  readable : ¬ StoredHash deps w (filename path) none
  /-- Up to the first verified attempt every hash can be computed. -/
  hashed : ∀ i < MAX_RETRIES, NoneBefore o dbUrl hash i → attempt o dbUrl hash i ≠ .unhashed
  /-- The store does not throw when the verified content is installed. -/
  stored : ∀ i < MAX_RETRIES, ∀ c, NoneBefore o dbUrl hash i →
    attempt o dbUrl hash i = .verified c → ¬ StoreThrows deps o w path type c
  /-- The verified content, if it is installed, is written in full. -/
  full : ∀ i < MAX_RETRIES, ∀ c, NoneBefore o dbUrl hash i → attempt o dbUrl hash i = .verified c →
    Installs deps o w path type c → o.stored c = c
  /-- Some attempt is verified or some download fails, or the last content does no harm. -/
  settled : (∃ i < MAX_RETRIES, attempt o dbUrl hash i = .failed ∨
      ∃ c, attempt o dbUrl hash i = .verified c) ∨
    ∀ c, o.downloadHTTPS (MAX_RETRIES - 1) dbUrl = .ok c → Harmless deps o w path type c

theorem verifies_iff {hash : String} (hhash : o.downloadMD5 hashUrl = .ok hash) (i : Nat)
    (c : String) : Verifies o dbUrl hashUrl i c ↔ attempt o dbUrl hash i = .verified c := by
  rw [attempt_eq_verified]
  constructor
  · rintro ⟨hash', hhash', h⟩
    cases hhash.symm.trans hhash'
    exact h
  · exact fun h => ⟨hash, hhash, h⟩

theorem upToDate_iff {hash : String} (hhash : o.downloadMD5 hashUrl = .ok hash) (name : String) :
    UpToDate deps o w name hashUrl ↔ StoredHash deps w name (some hash) := by
  constructor
  · rintro ⟨hash', hhash', h⟩
    cases hhash.symm.trans hhash'
    exact h
  · exact fun h => ⟨hash, hhash, h⟩

/-! ## What is installed -/

theorem Harmless.not_installs {content : String} (h : Harmless deps o w path type content) :
    ¬ Installs deps o w path type content := by
  rintro ⟨hwrite, hopen, hplace⟩
  rcases h with hnot | ⟨hname, hnot, -⟩
  · exact hnot hwrite
  · rcases hplace with hne | htype
    · exact hne hname
    · exact hnot ⟨htype, hopen⟩

theorem Harmless.not_storeThrows {content : String} (h : Harmless deps o w path type content) :
    ¬ StoreThrows deps o w path type content := by
  rintro (⟨hinstalls, -⟩ | ⟨hwrite, hreg, -, -⟩)
  · exact h.not_installs hinstalls
  · rcases h with hnot | ⟨hname, -, -⟩
    · exact hnot hwrite
    · exact hreg hname

theorem not_onlyVerified_error (e : Throw) (w' : World τ) :
    ¬ OnlyVerified deps o w path dbUrl hashUrl (.error e w') := by
  intro h
  obtain ⟨a, w'', hr⟩ := h.returns
  cases hr

/-- Where nothing is verified, a returned error keeps the promise when nothing changed. -/
theorem onlyVerified_refused_iff (hup : ¬ UpToDate deps o w (filename path) hashUrl)
    (hverifies : ∀ i < MAX_RETRIES, ∀ c, ¬ Verifies o dbUrl hashUrl i c) (e : Error)
    (w₁ : World τ) : OnlyVerified deps o w path dbUrl hashUrl (.ok (some e) w₁) ↔
      w₁.dbs = w.dbs ∧ w₁.dbTypes = w.dbTypes ∧ w₁.store = w.store ∧
      w₁.files path = w.files path := by
  constructor
  · intro h
    obtain ⟨e', w', hw', hsame⟩ := h.refused hup hverifies
    cases hw'
    exact hsame
  · intro hsame
    refine ⟨⟨_, _, rfl⟩, fun w' hw' => ?_, fun _ _ => ⟨e, w₁, rfl, hsame⟩⟩
    cases hw'

/-- An installation that returned an error did no harm when nothing changed. -/
theorem Opened.harmless_iff {content : String} {e : Error} {w₁ : World τ}
    (h : Opened deps o w path type content (.ok (some e) w₁)) :
    (w₁.dbs = w.dbs ∧ w₁.dbTypes = w.dbTypes ∧ w₁.store = w.store ∧ w₁.files path = w.files path) ↔
      Harmless deps o w path type content := by
  cases h with
  | unwritable e h => exact ⟨fun _ => .inl h, fun _ => ⟨rfl, rfl, rfl, rfl⟩⟩
  | dropped e t hwrite hentry hopen _ =>
    constructor
    · rintro ⟨hdbs, -⟩
      have hgone := Map.lookup_erase_eq w.dbs (filename path) (filename path)
      rw [if_pos rfl] at hgone
      have hsame : w.dbs.erase (filename path) = w.dbs := hdbs
      rw [hsame, hentry] at hgone
      cases hgone
    · rintro (h | ⟨hname, -, -⟩)
      · exact absurd hwrite h
      · cases hentry.symm.trans hname
  | refused e hwrite hname h =>
    have hfile : (wrote o w path content).files path = some (o.stored content) :=
      Function.update_self ..
    rw [hfile]
    constructor
    · exact fun hsame => .inr ⟨hname, h, hsame.2.2.2.symm⟩
    · rintro (hnot | ⟨-, -, hsame⟩)
      · exact absurd hwrite hnot
      · exact ⟨rfl, rfl, rfl, hsame.symm⟩

/-- The first verified content: the promise holds when the store does not throw and the content is
written in full, or not installed. -/
theorem onlyVerified_verified {hash content : String} {k : Nat}
    (hhash : o.downloadMD5 hashUrl = .ok hash)
    (hstored : ¬ StoredHash deps w (filename path) (some hash)) (hk : k < MAX_RETRIES)
    (hbefore : NoneBefore o dbUrl hash k) (hverified : attempt o dbUrl hash k = .verified content) :
    OnlyVerified deps o w path dbUrl hashUrl ((install deps o path type content).run w) ↔
      ¬ StoreThrows deps o w path type content ∧
        (Installs deps o w path type content → o.stored content = content) := by
  have hverifies : Verifies o dbUrl hashUrl k content :=
    (verifies_iff hhash k content).mpr hverified
  have hfirst : ∀ j < k, ∀ c, ¬ Verifies o dbUrl hashUrl j c := by
    intro j hj c h
    exact hbefore j hj c ((verifies_iff hhash j c).mp h)
  rcases run_install deps o w path type content with ⟨hreturns, w₁, t, hopened, hrun⟩ |
    ⟨hreturns, e, w₁, hopened, hrun⟩ | ⟨hthrows, e, w₁, hrun⟩
  · obtain ⟨hinstalls, -, hfile, -⟩ := hopened.installs
    rw [hrun]
    constructor
    · refine fun h => ⟨hreturns, fun _ => ?_⟩
      rcases h.installed _ rfl with ⟨hup, -⟩ | ⟨i, c, -, hic, hbefore', hc⟩
      · exact absurd ((upToDate_iff hhash _).mp hup) hstored
      · have hik : i = k := by
          rcases Nat.lt_trichotomy i k with hlt | heq | hlt
          · exact absurd hic (hfirst i hlt c)
          · exact heq
          · exact absurd hverifies (hbefore' k hlt content)
        subst hik
        have hcontent := (verifies_iff hhash i c).mp hic
        cases hverified.symm.trans hcontent
        exact Option.some.inj (hfile.symm.trans hc)
    · intro h
      refine ⟨⟨_, _, rfl⟩, fun w' hw' => .inr ?_, fun _ hnone => ?_⟩
      · cases hw'
        refine ⟨k, content, hk, hverifies, hfirst, ?_⟩
        show w₁.files path = some content
        rw [hfile, h.2 hinstalls]
      · exact absurd hverifies (hnone k hk content)
  · rw [hrun]
    constructor
    · exact fun _ => ⟨hreturns, fun hinstalls => absurd hinstalls hopened.not_installs⟩
    · intro _
      refine ⟨⟨_, _, rfl⟩, fun w' hw' => ?_, fun _ hnone => ?_⟩
      · cases hw'
      · exact absurd hverifies (hnone k hk content)
  · rw [hrun]
    exact iff_of_false (not_onlyVerified_error e w₁) fun h => absurd hthrows h.1

/-- A content that is not verified: the promise holds when it does no harm. -/
theorem onlyVerified_unverified {hash content : String} (hhash : o.downloadMD5 hashUrl = .ok hash)
    (hstored : ¬ StoredHash deps w (filename path) (some hash))
    (hnone : NoneBefore o dbUrl hash MAX_RETRIES) :
    OnlyVerified deps o w path dbUrl hashUrl ((install deps o path type content).run w) ↔
      Harmless deps o w path type content := by
  have hup : ¬ UpToDate deps o w (filename path) hashUrl := fun h =>
    hstored ((upToDate_iff hhash _).mp h)
  have hverifies : ∀ i < MAX_RETRIES, ∀ c, ¬ Verifies o dbUrl hashUrl i c := fun i hi c h =>
    hnone i hi c ((verifies_iff hhash i c).mp h)
  rcases run_install deps o w path type content with ⟨-, w₁, t, hopened, hrun⟩ |
    ⟨-, e, w₁, hopened, hrun⟩ | ⟨hthrows, e, w₁, hrun⟩
  · rw [hrun]
    constructor
    · intro h
      obtain ⟨e, w', hw', -⟩ := h.refused hup hverifies
      cases hw'
    · exact fun h => absurd hopened.installs.1 h.not_installs
  · -- the error is returned; what is left is whether anything changed
    rw [hrun, onlyVerified_refused_iff hup hverifies, hopened.harmless_iff]
  · rw [hrun]
    exact iff_of_false (not_onlyVerified_error e w₁) fun h => absurd hthrows h.not_storeThrows

/-! ## The attempts of a sound call -/

/-- Where attempt number `k` is the first that is verified, what is left to ask for is that the
store does not throw and that its content is written in full. -/
theorem Unsettled.sound_iff {hash content : String} {k : Nat} (before : Unsettled o dbUrl hash 0 k)
    (hk : k < MAX_RETRIES) (hverified : attempt o dbUrl hash k = .verified content)
    (hread : ¬ StoredHash deps w (filename path) none) :
    Sound deps o w path type dbUrl hash ↔
      ¬ StoreThrows deps o w path type content ∧
        (Installs deps o w path type content → o.stored content = content) := by
  constructor
  · exact fun hsound => ⟨hsound.stored k hk content before.noneBefore hverified,
      hsound.full k hk content before.noneBefore hverified⟩
  · rintro ⟨hreturns, hfull⟩
    -- an attempt with only unverified ones before it is at most number `k`
    have hle : ∀ i, NoneBefore o dbUrl hash i → i ≤ k := by
      intro i hi
      by_contra hlt
      exact hi k (by omega) content hverified
    -- and a verified one has its content
    have hcontent : ∀ i c, NoneBefore o dbUrl hash i → attempt o dbUrl hash i = .verified c →
        c = content := by
      intro i c hi hic
      rcases Nat.eq_or_lt_of_le (hle i hi) with rfl | hlt
      · cases hverified.symm.trans hic
        rfl
      · exact absurd hic ((before i (Nat.zero_le i) hlt).2 c)
    refine ⟨hread, fun i _ hi => ?_, fun i _ c hi hic => ?_, fun i _ c hi hic => ?_,
      .inl ⟨k, hk, .inr ⟨content, hverified⟩⟩⟩
    · rcases Nat.eq_or_lt_of_le (hle i hi) with rfl | hlt
      · rw [hverified]
        exact Attempt.noConfusion
      · exact (before i (Nat.zero_le i) hlt).1
    · rw [hcontent i c hi hic]
      exact hreturns
    · rw [hcontent i c hi hic]
      exact hfull

/-- Where no attempt is verified and every hash can be computed, what is left to ask for is that the
attempts settle the call. -/
theorem NoneBefore.sound {hash : String} (hnone : NoneBefore o dbUrl hash MAX_RETRIES)
    (hread : ¬ StoredHash deps w (filename path) none)
    (hhashed : ∀ i < MAX_RETRIES, attempt o dbUrl hash i ≠ .unhashed)
    (hsettled : (∃ i < MAX_RETRIES, attempt o dbUrl hash i = .failed ∨
        ∃ c, attempt o dbUrl hash i = .verified c) ∨
      ∀ c, o.downloadHTTPS (MAX_RETRIES - 1) dbUrl = .ok c → Harmless deps o w path type c) :
    Sound deps o w path type dbUrl hash :=
  ⟨hread, fun i hi _ => hhashed i hi, fun i hi c _ hic => absurd hic (hnone i hi c),
    fun i hi c _ hic => absurd hic (hnone i hi c), hsettled⟩

theorem StoredHash.unique {name : String} {h h' : Option String} (hs : StoredHash deps w name h)
    (hs' : StoredHash deps w name h') : h = h' := by
  obtain ⟨-, n, doc, hn, hdoc, rfl⟩ := hs
  obtain ⟨-, n', doc', hn', hdoc', rfl⟩ := hs'
  cases hn.symm.trans hn'
  cases hdoc.symm.trans hdoc'
  rfl

/-- Where attempts are made, the promise holds exactly when the call is sound. -/
theorem onlyVerified_attempted {hash : String} {r : EStateM.Result Throw (World τ) OptError}
    (hhash : o.downloadMD5 hashUrl = .ok hash)
    (hstored : ¬ StoredHash deps w (filename path) (some hash))
    (hread : ¬ StoredHash deps w (filename path) none)
    (h : match attempts o dbUrl hash MAX_RETRIES 0 "" none with
      | .error e => r = .error e w
      | .ok (_, some e) => r = .ok (some e) w
      | .ok (content, none) => r = (install deps o path type content).run w) :
    OnlyVerified deps o w path dbUrl hashUrl r ↔ Sound deps o w path type dbUrl hash := by
  have hends := attempts_ends o dbUrl hash MAX_RETRIES 0 "" none
  generalize attempts o dbUrl hash MAX_RETRIES 0 "" none = ended at hends h
  cases hends with
  | @broken k _ hk before hattempt =>
    subst h
    refine iff_of_false (not_onlyVerified_error _ w) fun hsound => ?_
    exact absurd hattempt (hsound.hashed k (by omega) before.noneBefore)
  | @verified k content _ hk before hattempt =>
    subst h
    have hlt : k < MAX_RETRIES := by omega
    rw [onlyVerified_verified hhash hstored hlt before.noneBefore hattempt]
    exact (before.sound_iff hlt hattempt hread).symm
  | @finished content e all herror hcontent =>
    have hnone : NoneBefore o dbUrl hash MAX_RETRIES := Unsettled.noneBefore (by simpa using all)
    have hunhashed : ∀ i < MAX_RETRIES, attempt o dbUrl hash i ≠ .unhashed :=
      fun i hi => (all i (Nat.zero_le i) (by omega)).1
    cases e with
    | some e =>
      subst h
      have hfailed : ∃ i < MAX_RETRIES, attempt o dbUrl hash i = .failed := by
        by_contra hno
        refine Option.some_ne_none e
          (herror.mpr ⟨rfl, fun j _ hj hattempt => hno ⟨j, ?_, hattempt⟩⟩)
        omega
      constructor
      · intro _
        obtain ⟨i, hi, hattempt⟩ := hfailed
        exact hnone.sound hread hunhashed (.inl ⟨i, hi, .inl hattempt⟩)
      · intro _
        exact ⟨⟨_, _, rfl⟩, nofun, fun _ _ => ⟨e, w, rfl, rfl, rfl, rfl, rfl⟩⟩
    | none =>
      subst h
      have hdownload : o.downloadHTTPS (MAX_RETRIES - 1) dbUrl = .ok content := by
        rcases hcontent rfl with ⟨hzero, -⟩ | hlast
        · cases hzero
        · simpa using hlast
      rw [onlyVerified_unverified hhash hstored hnone]
      constructor
      · intro hharmless
        refine hnone.sound hread hunhashed (.inr fun c hc => ?_)
        cases hdownload.symm.trans hc
        exact hharmless
      · intro hsound
        rcases hsound.settled with ⟨i, hi, hfailed | ⟨c, hverified⟩⟩ | hharmless
        · exact absurd hfailed ((herror.mp rfl).2 i (Nat.zero_le i) (by omega))
        · exact absurd hverified (hnone i hi c)
        · exact hharmless content hdownload

/-- `remoteUpsertDb` keeps its promise exactly when the call is refused at once, up to date, or
sound. -/
theorem onlyVerified_iff (deps : Deps τ) (o : Outcomes) (w : World τ) (path : String)
    (type : DbType) (dbUrl hashUrl : String) :
    OnlyVerified deps o w path dbUrl hashUrl
        ((remoteUpsertDb deps o path type dbUrl hashUrl).run w) ↔
      ∀ hash, typeConflict w (filename path) type = none → o.downloadMD5 hashUrl = .ok hash →
        ¬ StoredHash deps w (filename path) (some hash) → Sound deps o w path type dbUrl hash := by
  have hupserted := remoteUpsertDb_upserted deps o w path type dbUrl hashUrl
  generalize (remoteUpsertDb deps o path type dbUrl hashUrl).run w = r at hupserted
  cases hupserted with
  | refused e h =>
    constructor
    · intro _ hash htype hhash
      rcases h with h | h
      · exact absurd htype h
      · exact absurd hhash (h hash)
    · intro _
      exact ⟨⟨_, _, rfl⟩, nofun, fun _ _ => ⟨e, w, rfl, rfl, rfl, rfl, rfl⟩⟩
  | @upToDate hash htype hhash h =>
    constructor
    · intro _ hash' _ hhash' hstored
      cases hhash.symm.trans hhash'
      exact absurd h hstored
    · intro _
      have hup : UpToDate deps o w (filename path) hashUrl := ⟨hash, hhash, h⟩
      refine ⟨⟨_, _, rfl⟩, fun w' hw' => .inl ?_, fun hnot _ => absurd hup hnot⟩
      cases hw'
      exact ⟨hup, rfl⟩
  | @unreadable hash htype hhash h =>
    refine iff_of_false (not_onlyVerified_error _ w) fun hsound => ?_
    refine absurd h (hsound hash htype hhash fun hs => ?_).readable
    cases hs.unique h
  | @attempted hash r htype hhash hstored hread h =>
    have hiff : (∀ hash, typeConflict w (filename path) type = none →
        o.downloadMD5 hashUrl = .ok hash →
        ¬ StoredHash deps w (filename path) (some hash) → Sound deps o w path type dbUrl hash) ↔
          Sound deps o w path type dbUrl hash := by
      constructor
      · exact fun hs => hs hash htype hhash hstored
      · intro hs hash' _ hhash' _
        cases hhash.symm.trans hhash'
        exact hs
    rw [hiff]
    exact onlyVerified_attempted hhash hstored hread h

section Sample

/-- Every attempt delivers the same content, and no hash is the advertised one. -/
def Outcomes.mismatching : Outcomes :=
  { Outcomes.well "new" "hash" with computeMD5 _ _ := .ok "other" }

theorem run_mismatching : ∃ w', (remoteUpsertDb sampleDeps .mismatching samplePath .CITY "db"
    "md5").run sampleStart = .ok none w' ∧ w'.files samplePath = some "new" := by
  refine ⟨_, rfl, ?_⟩
  rfl

/-- Three mismatches, and the content is installed without an error. -/
theorem mismatching_not_onlyVerified :
    ¬ OnlyVerified sampleDeps .mismatching sampleStart samplePath "db" "md5"
      ((remoteUpsertDb sampleDeps .mismatching samplePath .CITY "db" "md5").run sampleStart) := by
  intro h
  have hup : ¬ UpToDate sampleDeps .mismatching sampleStart (filename samplePath) "md5" := by
    rintro ⟨hash, -, hreg, -⟩
    exact hreg rfl
  have hnone : ∀ i < MAX_RETRIES, ∀ c, ¬ Verifies .mismatching "db" "md5" i c := by
    rintro i - c ⟨hash, hhash, -, hmd5⟩
    have hsame : "other" = "hash" := Except.ok.inj (hmd5.trans hhash.symm)
    exact absurd hsame (by decide)
  obtain ⟨e, w', hw', -⟩ := h.refused hup hnone
  obtain ⟨w'', hrun, -⟩ := run_mismatching
  cases hrun.symm.trans hw'

end Sample

end DistroDefender.Geo
