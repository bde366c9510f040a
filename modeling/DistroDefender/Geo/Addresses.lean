import DistroDefender.Base.Paths
import DistroDefender.Geo.Cache
import DistroDefender.Store.Locking

/-!
# Views that are not terminated

`Locator::getString` hands the `data()` of an address to libmaxminddb, as `JsonDOM` hands texts and
paths to rapidjson. Over the views of two buffers that agree on their characters, the constructor,
every operation at a path and the lookup do the same exactly where the C strings that are read are
the same (`readsAlike_iff`).
-/

namespace DistroDefender.Geo

open Base Lib

/-! ## Lookups of a view -/

section Lookup

variable (lib : Maxminddb)

/-- `Locator::lookup`. The address is compared and kept as a view, and looked up as a C string. -/
def lookupAt (ip : View) (entry : DbEntry) (l : Locator) : Except Stop (OptError × Locator) :=
  if ip.chars = l.cachedIp then .ok (none, l)
  else do
    let text ← ip.read
    let (result, gai_error, mmdb_error) := lib.lookup_string entry.content text
    if gai_error ≠ 0 then
      return (some ⟨s!"Error translating IP address {ip.chars}: {lib.gai_strerror gai_error}"⟩, l)
    if mmdb_error ≠ MMDB_SUCCESS then
      return (some ⟨s!"Error from libmaxminddb: {lib.strerror mmdb_error}"⟩, l)
    return (none,
      { l with cachedIp := ip.chars, cachedResult := result, cachedFrom := some entry.opening })

/-- `Locator::getString`. -/
def getStringAt (ip : View) (path : List String) (entry : Option DbEntry) (l : Locator) :
    Except Stop (RespOrError String × Locator) := do
  match entry with
  | none => return (.error ⟨"Database is not available"⟩, l)
  | some entry =>
    match ← lookupAt lib ip entry l with
    | (some lookError, l) => return (.error lookError, l)
    | (none, l) =>
      let (eDataResp, l) := (getEData lib path entry).run l
      match eDataResp with
      | .error eDataError => return (.error eDataError, l)
      | .ok eData => return (asString eData, l)

theorem ok_bind {ε α β : Type} (a : α) (f : α → Except ε β) : (Except.ok a >>= f) = f a := by
  rfl

theorem getStringAt_error {ip : View} {entry : DbEntry} {l : Locator} {e : Stop}
    (path : List String) (h : lookupAt lib ip entry l = .error e) :
    getStringAt lib ip path (some entry) l = .error e := by
  unfold getStringAt
  simp only [h]
  rfl

theorem getStringAt_failed {ip : View} {entry : DbEntry} {l l' : Locator} {e : Error}
    (path : List String) (h : lookupAt lib ip entry l = .ok (some e, l')) :
    getStringAt lib ip path (some entry) l = .ok (.error e, l') := by
  unfold getStringAt
  simp only [h, ok_bind]
  rfl

/-- After its lookup, a call gives the answer of the cached result. -/
theorem getStringAt_found {ip : View} {entry : DbEntry} {l l' : Locator} (path : List String)
    (h : lookupAt lib ip entry l = .ok (none, l')) :
    getStringAt lib ip path (some entry) l =
      .ok (answer lib asString path entry.content l'.cachedResult, l') := by
  obtain ⟨value, hrun, hvalue⟩ := run_getEData lib asString path entry l'
  unfold getStringAt
  simp only [h, ok_bind, hrun]
  rw [← hvalue]
  cases value with
  | error e => rfl
  | ok eData => rfl

/-- A whole string is looked up as before. -/
theorem lookupAt_ofString (ip : String) (entry : DbEntry) (l : Locator) :
    lookupAt lib (.ofString ip) entry l = .ok ((lookup lib ip entry).run l) := by
  have hread : (View.ofString ip).read = .ok (cstr ip) := by
    unfold View.read
    rw [View.cString_ofString]
  have hchars : (View.ofString ip).chars = ip := rfl
  unfold lookupAt lookup
  rw [hread, hchars, StateT.run_bind]
  by_cases hcached : ip = l.cachedIp
  · simp [hcached]
    rfl
  · rcases hresult : lib.lookup_string entry.content (cstr ip) with ⟨result, gai_error, mmdb_error⟩
    by_cases hgai : gai_error = 0
    · by_cases hmmdb : mmdb_error = MMDB_SUCCESS
      · simp [hcached, hresult, hgai, hmmdb, ok_bind]
        rfl
      · simp [hcached, hresult, hgai, hmmdb, ok_bind]
        rfl
    · simp [hcached, hresult, hgai, ok_bind]
      rfl

theorem getStringAt_ofString (ip : String) (path : List String) (entry : DbEntry) (l : Locator) :
    getStringAt lib (.ofString ip) path (some entry) l =
      .ok ((getString lib ip path (some entry)).run l) := by
  have hlookup := lookupAt_ofString lib ip entry l
  unfold getString
  rw [run_getValue_eq]
  rcases hrun : (lookup lib ip entry).run l with ⟨_ | e, l'⟩
  · rw [hrun] at hlookup
    exact getStringAt_found lib path hlookup
  · rw [hrun] at hlookup
    exact getStringAt_failed lib path hlookup

end Lookup

/-! ## Two buffers -/

/-- Two runs end alike, and neither reads past its buffer. -/
def Same {α : Type} (x y : Except Stop α) : Prop := x = y ∧ x ≠ .error .pastBuffer

/-- A path is in a buffer that goes on to a NUL. -/
def Terminated (v : View) : Prop := v.cString ≠ none

/-- Whatever takes a view does the same with the two. -/
structure ReadsAlike (D : RapidDom) (v v' : View) : Prop where
  document : Same (JsonDOM.ofView D v) (JsonDOM.ofView D v')
  operation : ∀ op j, Same (JsonDOM.run D op j v) (JsonDOM.run D op j v')
  base : ∀ op j r, Terminated r → Same (JsonDOM.runPaths D op j v r) (JsonDOM.runPaths D op j v' r)
  reference : ∀ op j r, Terminated r →
    Same (JsonDOM.runPaths D op j r v) (JsonDOM.runPaths D op j r v')
  many : ∀ before later value j, (∀ item ∈ before ++ later, Terminated item.1) →
    Same (JsonDOM.setTypeMany D (before ++ (v, value) :: later) j)
      (JsonDOM.setTypeMany D (before ++ (v', value) :: later) j)
  address : ∀ lib path entry l, Same (getStringAt lib v path entry l)
    (getStringAt lib v' path entry l)

section Alike

variable {D : RapidDom} {v v' : View} {text : String}

theorem orStop_read {α : Type} (x : Except Fault α) : JsonDOM.orStop x ≠ .error .pastBuffer := by
  cases x with
  | ok a => nofun
  | error f => cases f <;> nofun

theorem read_ok (h : v.cString = some text) : v.read = .ok text := by
  unfold View.read
  rw [h]

theorem Terminated.read (h : Terminated v) : ∃ text, v.read = .ok text := by
  obtain ⟨text, htext⟩ := Option.ne_none_iff_exists'.mp h
  exact ⟨text, read_ok htext⟩

theorem run_read (h : v.read = .ok text) (op : JsonDOM.PathOp) (j : Json) :
    JsonDOM.run D op j v ≠ .error .pastBuffer := by
  unfold JsonDOM.run
  split
  · nofun
  · rw [h]
    exact orStop_read _

theorem runPaths_read {r : View} {text' : String} (h : v.read = .ok text) (h' : r.read = .ok text')
    (op : JsonDOM.PathsOp) (j : Json) : JsonDOM.runPaths D op j v r ≠ .error .pastBuffer := by
  unfold JsonDOM.runPaths
  rw [h, h']
  exact orStop_read _

theorem setTypeMany_cons (path : View) (value : Json) (items : List (View × Json)) (j : Json) :
    JsonDOM.setTypeMany D ((path, value) :: items) j =
      JsonDOM.run D (.setType value) j path >>= fun r => JsonDOM.setTypeMany D items r.2 := by
  rfl

theorem setTypeMany_read {items : List (View × Json)} (h : ∀ item ∈ items, Terminated item.1)
    (j : Json) : JsonDOM.setTypeMany D items j ≠ .error .pastBuffer := by
  induction items generalizing j with
  | nil => nofun
  | cons item items ih =>
    obtain ⟨path, value⟩ := item
    obtain ⟨text, htext⟩ := (h _ List.mem_cons_self).read
    have hfirst := run_read (D := D) htext (.setType value) j
    rw [setTypeMany_cons]
    cases hrun : JsonDOM.run D (.setType value) j path with
    | error e =>
      rw [hrun] at hfirst
      exact fun he => hfirst (by cases he; rfl)
    | ok r => exact ih (fun item hitem => h item (List.mem_cons_of_mem _ hitem)) r.2

theorem setTypeMany_append (before later : List (View × Json)) (j : Json) :
    JsonDOM.setTypeMany D (before ++ later) j =
      JsonDOM.setTypeMany D before j >>= JsonDOM.setTypeMany D later := by
  induction before generalizing j with
  | nil => rfl
  | cons item before ih =>
    obtain ⟨path, value⟩ := item
    rw [List.cons_append, setTypeMany_cons, setTypeMany_cons]
    cases JsonDOM.run D (.setType value) j path with
    | error e => rfl
    | ok r => exact ih r.2

theorem lookupAt_ok (lib : Maxminddb) (h : v.read = .ok text) (entry : DbEntry) (l : Locator) :
    ∃ r, lookupAt lib v entry l = .ok r := by
  unfold lookupAt
  rw [h, ok_bind]
  split
  · exact ⟨_, rfl⟩
  · rcases lib.lookup_string entry.content text with ⟨result, gai_error, mmdb_error⟩
    by_cases hgai : gai_error ≠ 0
    · simp only [if_pos hgai]
      exact ⟨_, rfl⟩
    · simp only [if_neg hgai]
      by_cases hmmdb : mmdb_error ≠ MMDB_SUCCESS
      · simp only [if_pos hmmdb]
        exact ⟨_, rfl⟩
      · simp only [if_neg hmmdb]
        exact ⟨_, rfl⟩

/-- Views that are read as one text, and have the same characters, are not told apart. -/
theorem readsAlike_of_read (hchars : v.chars = v'.chars) (h : v.cString = some text)
    (h' : v'.cString = some text) : ReadsAlike D v v' := by
  have hread := read_ok h
  have hread' := read_ok h'
  have hrun : ∀ op j, JsonDOM.run D op j v = JsonDOM.run D op j v' := by
    intro op j
    unfold JsonDOM.run
    rw [hchars, hread, hread']
  refine ⟨⟨?_, ?_⟩, fun op j => ⟨hrun op j, run_read hread op j⟩, fun op j r hr => ?_,
    fun op j r hr => ?_,
    fun before later value j hitems => ⟨?_, ?_⟩, fun lib path entry l => ⟨?_, ?_⟩⟩
  · unfold JsonDOM.ofView
    rw [hread, hread']
  · unfold JsonDOM.ofView
    rw [hread, ok_bind]
    split <;> nofun
  · obtain ⟨text', hr⟩ := hr.read
    refine ⟨?_, runPaths_read hread hr op j⟩
    unfold JsonDOM.runPaths
    rw [hread, hread', hchars]
  · obtain ⟨text', hr⟩ := hr.read
    refine ⟨?_, runPaths_read hr hread op j⟩
    unfold JsonDOM.runPaths
    rw [hread, hread', hchars]
  · have hsame : ∀ j, JsonDOM.setTypeMany D ((v, value) :: later) j =
        JsonDOM.setTypeMany D ((v', value) :: later) j := by
      intro j
      unfold JsonDOM.setTypeMany
      rw [hrun]
    rw [setTypeMany_append, setTypeMany_append, funext hsame]
  · refine setTypeMany_read (fun item hitem => ?_) j
    rcases List.mem_append.mp hitem with hitem | hitem
    · exact hitems item (List.mem_append_left _ hitem)
    · rcases List.mem_cons.mp hitem with rfl | hitem
      · exact Option.ne_none_iff_exists'.mpr ⟨text, h⟩
      · exact hitems item (List.mem_append_right _ hitem)
  · unfold getStringAt lookupAt
    rw [hchars, hread, hread']
  · cases entry with
    | none => nofun
    | some entry =>
      obtain ⟨⟨_ | e, l'⟩, hlookup⟩ := lookupAt_ok lib hread entry l
      · rw [getStringAt_found lib path hlookup]
        nofun
      · rw [getStringAt_failed lib path hlookup]
        nofun

/-- A library that has an entry for one address. -/
def oneAddress (address : String) : Maxminddb where
  status _ := MMDB_SUCCESS
  strerror _ := ""
  gai_strerror _ := ""
  lookup_string _ ip := (⟨decide (ip = address), 0⟩, 0, MMDB_SUCCESS)
  aget_value _ _ _ := .error 3

/-- An address that is not the cached one is looked up as it is read. -/
theorem lookupAt_oneAddress {l : Locator} (address : String) (entry : DbEntry)
    (hnew : v.chars ≠ l.cachedIp) : lookupAt (oneAddress address) v entry l = v.read.map fun text =>
      (none, { l with
        cachedIp := v.chars, cachedResult := ⟨decide (text = address), 0⟩,
        cachedFrom := some entry.opening }) := by
  unfold lookupAt
  rw [if_neg hnew]
  cases v.read with
  | error e => rfl
  | ok text => rfl

/-- The address is read in both buffers, and it is one text, where the lookups are the same. -/
theorem address_read (hchars : v.chars = v'.chars)
    (h : ∀ lib path entry l, Same (getStringAt lib v path entry l)
      (getStringAt lib v' path entry l)) :
    ∃ text, v.cString = some text ∧ v'.cString = some text := by
  let entry : DbEntry := ⟨0, "", .CITY, 0, ""⟩
  let l : Locator := ⟨0, v.chars ++ "x", ⟨false, 0⟩, none⟩
  have hnew : v.chars ≠ l.cachedIp := by
    intro hc
    have hlen : v.chars.length = v.chars.length + 1 :=
      (congrArg String.length hc).trans (String.length_append ..)
    omega
  have hlookup := fun address => lookupAt_oneAddress (v := v) address entry hnew
  have hlookup' := fun address => lookupAt_oneAddress (v := v') address entry (hchars ▸ hnew)
  cases hread : v.cString with
  | none =>
    have hfault := hlookup ""
    unfold View.read at hfault
    rw [hread] at hfault
    exact absurd (getStringAt_error _ [] hfault) (h _ [] (some entry) l).2
  | some text =>
    refine ⟨text, rfl, ?_⟩
    have hsame := (h (oneAddress text) [] (some entry) l).1
    rw [getStringAt_found _ [] ((hlookup text).trans (by rw [read_ok hread]; rfl))] at hsame
    cases hread' : v'.cString with
    | none =>
      have hfault := hlookup' text
      unfold View.read at hfault
      rw [hread'] at hfault
      rw [getStringAt_error _ [] hfault] at hsame
      cases hsame
    | some text' =>
      rw [getStringAt_found _ [] ((hlookup' text).trans (by rw [read_ok hread']; rfl))] at hsame
      have hfound := congrArg (fun r => r.map fun (_, l) => l.cachedResult.found_entry) hsame
      simp [Except.map] at hfound
      rw [hfound]

/-- Views are told apart by what follows them, up to the first NUL. -/
theorem readsAlike_iff (D : RapidDom) (v v' : View) (hchars : v.chars = v'.chars) :
    ReadsAlike D v v' ↔ v.SameTail v' := by
  rw [← View.cString_eq_iff hchars]
  constructor
  · intro h
    exact address_read hchars h.address
  · intro ⟨text, h, h'⟩
    exact readsAlike_of_read hchars h h'

end Alike

/-! ## A path and an address that go on -/

section Sample

open View (NUL)

/-- rapidjson on literals, and on pointers with at most one token. -/
def sampleDom : RapidDom where
  json := Store.literals
  pointer text :=
    match text.toList with
    | [] => .ok []
    | '/' :: token => .ok [String.ofList token]
    | _ => .error (0, "A token must begin with a '/' after the first token")
  equal v w := v matches .null && w matches .null
  isFloat _ := false
  toFloat _ := 0

/-- Two buffers that go on with their terminator. -/
theorem terminated_alike : ReadsAlike sampleDom ⟨"/a", [NUL]⟩ ⟨"/a", [NUL, 'b', NUL]⟩ :=
  (readsAlike_iff sampleDom ⟨"/a", [NUL]⟩ ⟨"/a", [NUL, 'b', NUL]⟩ rfl).mpr (.inr ⟨[], rfl, rfl⟩)

def sampleObject : Json := .obj [("a", .bool true)]

/-- The view of `/a` in a buffer with `/ab` names another member, the one of `true` in `truex` is
not parsed, and the one of an address in a longer address finds an entry for that one. -/
theorem view_read_on :
    JsonDOM.run sampleDom .existsAt sampleObject ⟨"/a", [NUL]⟩ = .ok (.flag true, sampleObject) ∧
    JsonDOM.run sampleDom .existsAt sampleObject ⟨"/a", ['b', NUL]⟩ =
      .ok (.flag false, sampleObject) ∧
    JsonDOM.ofView sampleDom ⟨"true", [NUL]⟩ = .ok (.bool true, none) ∧
    JsonDOM.ofView sampleDom ⟨"true", ['x', NUL]⟩ = .ok (.null, some ⟨"Parse error"⟩) ∧
    (∀ entry l, "10.0.0.1" ≠ l.cachedIp →
      lookupAt (oneAddress "10.0.0.17") ⟨"10.0.0.1", ['7', NUL]⟩ entry l =
        .ok (none, ⟨l.weakDbEntry, "10.0.0.1", ⟨true, 0⟩, some entry.opening⟩)) ∧
    ¬ ∀ D v v', v.chars = v'.chars → ReadsAlike D v v' := by
  have hshort : JsonDOM.run sampleDom .existsAt sampleObject ⟨"/a", [NUL]⟩ =
      .ok (.flag true, sampleObject) := by
    rfl
  have hlong : JsonDOM.run sampleDom .existsAt sampleObject ⟨"/a", ['b', NUL]⟩ =
      .ok (.flag false, sampleObject) := by
    rfl
  refine ⟨hshort, hlong, rfl, rfl, fun entry l hnew => ?_, fun h => ?_⟩
  · exact lookupAt_oneAddress "10.0.0.17" entry hnew
  · have hsame :=
      ((h sampleDom ⟨"/a", [NUL]⟩ ⟨"/a", ['b', NUL]⟩ rfl).operation .existsAt sampleObject).1
    rw [hshort, hlong] at hsame
    cases hsame

end Sample

end DistroDefender.Geo
