import DistroDefender.Conf.Conf

/-!
# The configuration file is honoured

After a document is loaded, `get` of a registered key gives the value the document has there, or the
default. It does exactly where an `int` fits 32 bits, a list is not empty, and no string has a NUL
(`honoured_iff`): `load` takes every 64 bit integer for an `int`, the log line of `get` pops the
back of an empty list, and strings are read as C strings.
-/

namespace DistroDefender.Conf

open Base Lib

/-- The states of a configuration before it is loaded. -/
inductive Registered : Conf → Prop
  | construct {c : Conf} (h : construct = .ok c) : Registered c
  | addUnit {c c' : Conf} {key env : String} {T : UnitType} {defaultValue : T.Val}
      (h : Registered c) (hadd : addUnit c key env T defaultValue = .ok c') : Registered c'

/-- The value in the document, as a value of the type. -/
def Represents : (T : UnitType) → Json → T.Val → Prop
  | .int, v, t => v = .num (.int t.toInt)
  | .int64, v, t => v = .num (.int t.toInt)
  | .bool, v, t => v = .bool t
  | .string, v, t => v = .str t
  | .strings, v, t => v = .arr (t.map .str)

/-- `get` gives the value at the key, or the default where there is none. -/
def Honoured (P : PointerReader) (getenv : String → Option String) (c : Conf) (key : String)
    (unit : UConf) : Prop :=
  ∃ p, P key = .ok p ∧
    match c.config.get p with
    | none => get P getenv c unit.T key = .ok unit.defaultValue
    | some v => ∃ t, Represents unit.T v t ∧ get P getenv c unit.T key = .ok t

def NoNul (s : String) : Prop := Char.ofNat 0 ∉ s.toList

/-- A value that `get` gives as it is. -/
def Fits : UnitType → Json → Prop
  | .int, v => v.isInt = true
  | .int64, _ => True
  | .bool, _ => True
  | .string, v => ∀ s, v = .str s → NoNul s
  | .strings, v => v ≠ .arr [] ∧ ∀ items s, v = .arr items → .str s ∈ items → NoNul s

/-- A default that can be rendered. -/
def Printable : (T : UnitType) → T.Val → Prop
  | .strings, value => value ≠ []
  | _, _ => True

/-- The value at the key fits its type; the default is printable, where there is none. -/
def KeyFits (P : PointerReader) (c : Conf) (key : String) (unit : UConf) : Prop :=
  ∀ p, P key = .ok p →
    match c.config.get p with
    | none => Printable unit.T unit.defaultValue
    | some v => Fits unit.T v

/-! ## Registered keys -/

section Keys

/-- Keys are C strings. -/
def CKeys (c : Conf) : Prop := ∀ key unit, c.units.lookup key = some unit → cstr key = key

theorem bind_eq_ok {ε α β : Type} {x : Except ε α} {f : α → Except ε β} {b : β} :
    x >>= f = .ok b ↔ ∃ a, x = .ok a ∧ f a = .ok b := by
  cases x with
  | error e => simp [bind, Except.bind]
  | ok a => simp [bind, Except.bind]

theorem addUnit_ckeys {c c' : Conf} {key env : String} {T : UnitType} {defaultValue : T.Val}
    (h : CKeys c) (hadd : addUnit c key env T defaultValue = .ok c') : CKeys c' := by
  unfold addUnit at hadd
  split at hadd
  · split at hadd
    · cases hadd
    · obtain ⟨-, -, hadd⟩ := bind_eq_ok.mp hadd
      obtain ⟨unit, -, hadd⟩ := bind_eq_ok.mp hadd
      cases hadd
      intro k u hk
      simp only [Map.lookup_insert_eq] at hk
      split at hk
      · rename_i hkey
        rw [hkey]
        exact cstr_of_not_mem (not_mem_cstr key)
      · exact h k u hk
  · cases hadd

theorem Registered.ckeys {c : Conf} (h : Registered c) : CKeys c := by
  induction h with
  | construct h =>
    unfold Conf.construct at h
    obtain ⟨c₁, h₁, h⟩ := bind_eq_ok.mp h
    obtain ⟨c₂, h₂, h⟩ := bind_eq_ok.mp h
    obtain ⟨c₃, h₃, h⟩ := bind_eq_ok.mp h
    obtain ⟨c₄, h₄, h⟩ := bind_eq_ok.mp h
    have hempty : CKeys ⟨.null, ∅⟩ := by
      intro key unit hkey
      cases hkey
    exact addUnit_ckeys
      (addUnit_ckeys (addUnit_ckeys (addUnit_ckeys (addUnit_ckeys hempty h₁) h₂) h₃) h₄) h
  | addUnit _ hadd ih => exact addUnit_ckeys ih hadd

end Keys

/-! ## Accepted documents -/

section Accepted

variable {J : Rapidjson} {P : PointerReader} {config : Json} {key : String} {unit : UConf}
  {v : Json}

/-- What `load` takes for a value of the type. -/
def Accepts : UnitType → Json → Prop
  | .int, v => v.isInt64 = true
  | .int64, v => v.isInt64 = true
  | .bool, v => ∃ b, v = .bool b
  | .string, v => ∃ s, v = .str s
  | .strings, v => ∃ ss : List String, v = .arr (ss.map .str)

theorem validateItems_ok {items : List Json} (h : validateItems J key items = .ok ()) :
    ∃ ss : List String, items = ss.map .str := by
  induction items with
  | nil => exact ⟨[], rfl⟩
  | cons item items ih =>
    cases item with
    | str s =>
      obtain ⟨ss, rfl⟩ := ih h
      exact ⟨s :: ss, rfl⟩
    | null => cases h
    | bool b => cases h
    | num n => cases h
    | arr xs => cases h
    | obj ms => cases h

theorem isInt64_of_isInt (h : v.isInt = true) : v.isInt64 = true := by
  unfold Json.isInt at h
  unfold Json.isInt64
  split at h
  · simp only [decide_eq_true_eq] at h ⊢
    omega
  · cases h

theorem isInt64_iff : v.isInt64 = true ↔ ∃ i : Int, v = .num (.int i) ∧ -2 ^ 63 ≤ i ∧
    i < 2 ^ 63 := by
  constructor
  · intro h
    unfold Json.isInt64 at h
    split at h
    · exact ⟨_, rfl, by simpa using h⟩
    · cases h
  · rintro ⟨i, rfl, h⟩
    unfold Json.isInt64
    simpa using h

theorem validateValue_ok (h : validateValue J key unit v = .ok ()) : Accepts unit.T v := by
  obtain ⟨T, env, defaultValue⟩ := unit
  have hinteger : (if v.isInt ∨ v.isInt64 then .ok ()
      else .error (invalidType "integer" key (cstr (J.print v)))) =
      (.ok () : Except Throw Unit) → v.isInt64 = true := by
    intro h
    split at h
    · rename_i hint
      exact hint.elim isInt64_of_isInt id
    · cases h
  cases T with
  | int => exact hinteger h
  | int64 => exact hinteger h
  | bool =>
    cases v with
    | bool b => exact ⟨b, rfl⟩
    | null | num | str | arr | obj => cases h
  | string =>
    cases v with
    | str s => exact ⟨s, rfl⟩
    | null | num | bool | arr | obj => cases h
  | strings =>
    cases v with
    | arr items =>
      obtain ⟨ss, rfl⟩ := validateItems_ok h
      exact ⟨ss, rfl⟩
    | null | num | bool | str | obj => cases h

/-- In a document that validates every unit has a valid key, and a value of its type or none. -/
theorem validate_ok {units : List (Sigma fun _ : String => UConf)}
    (h : validate J P config units = .ok ()) (hmem : ⟨key, unit⟩ ∈ units) :
    ∃ p, P (cstr key) = .ok p ∧ ∀ v, config.get p = some v → Accepts unit.T v := by
  induction units with
  | nil => cases hmem
  | cons e units ih =>
    obtain ⟨k, u⟩ := e
    obtain ⟨p, hp, hrest⟩ := bind_eq_ok.mp h
    rcases List.mem_cons.mp hmem with heq | hmem
    · cases heq
      refine ⟨p, ?_, fun v hv => ?_⟩
      · unfold existsPointer at hp
        split at hp
        · rename_i hok
          cases hp
          exact hok
        · cases hp
      · rw [hv] at hrest
        obtain ⟨u, hvalue, -⟩ := bind_eq_ok.mp hrest
        exact validateValue_ok hvalue
    · cases hget : config.get p with
      | none =>
        rw [hget] at hrest
        exact ih hrest hmem
      | some v =>
        rw [hget] at hrest
        obtain ⟨-, -, hrest⟩ := bind_eq_ok.mp hrest
        exact ih hrest hmem

end Accepted

/-! ## Reads -/

section Reads

variable {P : PointerReader} {c : Conf} {key : String} {unit : UConf} {p : Pointer} {v : Json}

theorem length_le_rendered (value : List String) (res : String) :
    res.length ≤ (value.foldl (fun res item => res ++ (item ++ ",")) res).length := by
  induction value generalizing res with
  | nil => exact Nat.le_refl _
  | cons item value ih =>
    have hrest := ih (res ++ (item ++ ","))
    rw [List.foldl_cons]
    rw [String.length_append] at hrest
    omega

/-- A list renders unless it is empty. -/
theorem toStr_strings {value : List String} (h : value ≠ []) :
    ∃ text, toStr .strings value = .ok text := by
  unfold toStr
  cases value with
  | nil => exact absurd rfl h
  | cons item value =>
    have hlen := length_le_rendered value ("" ++ (item ++ ","))
    rw [String.length_append, String.length_append] at hlen
    have hcomma : ",".length = 1 := rfl
    have hne : (item :: value).foldl (fun res item => res ++ (item ++ ",")) "" ≠ "" := by
      intro hempty
      rw [List.foldl_cons] at hempty
      rw [hempty, hcomma] at hlen
      simp at hlen
    simp only [if_neg hne]
    exact ⟨_, rfl⟩

theorem toStr_nil : toStr .strings [] = .error .undefined := by
  rfl

theorem validPointer_ok (hp : P (cstr key) = .ok p) : orAbort (validPointer P key) = .ok p := by
  unfold validPointer
  rw [hp]
  rfl

/-- The scalar getters, by type. -/
def scalarAt (config : Json) (p : Pointer) : (T : UnitType) → Option T.Val
  | .int => (config.getIntAsInt64 p).map Int64.toInt32
  | .int64 => config.getIntAsInt64 p
  | .bool => config.getBool p
  | .string => config.getString p
  | .strings => none

theorem getConfigured_scalar {T : UnitType} (hT : T ≠ .strings) (hp : P (cstr key) = .ok p) :
    getConfigured P c unit key T = getValueAndOrigin unit (scalarAt c.config p T) := by
  have hpointer := validPointer_ok hp
  cases T with
  | strings => exact absurd rfl hT
  | int | int64 | bool | string =>
    unfold getConfigured
    rw [hpointer]
    rfl

theorem getConfigured_strings (hp : P (cstr key) = .ok p) : getConfigured P c unit key .strings =
    match c.config.getArray p with
    | none => orAbort (unit.getDefaultValue .strings) >>= fun value =>
      toStr .strings value >>= fun _ => .ok value
    | some jArr =>
      toStr .strings (jArr.map fun item => (item.getString []).getD "ERROR_VALUE") >>= fun _ =>
        .ok (jArr.map fun item => (item.getString []).getD "ERROR_VALUE") := by
  unfold getConfigured
  rw [validPointer_ok hp]
  rfl

/-- A list is given where it can be rendered. -/
theorem rendered_iff {value t : List String} :
    (toStr .strings value >>= fun _ => (.ok value : Except Abort (List String))) = .ok t ↔
    value ≠ [] ∧ value = t := by
  by_cases hempty : value = []
  · subst hempty
    rw [toStr_nil]
    exact iff_of_false nofun fun h => h.1 rfl
  · obtain ⟨text, htext⟩ := toStr_strings hempty
    rw [htext]
    show (Except.ok value : Except Abort (List String)) = .ok t ↔ _
    rw [Except.ok.injEq]
    exact (and_iff_right hempty).symm

theorem getValueAndOrigin_none : getValueAndOrigin unit (none : Option unit.T.Val) =
    .ok unit.defaultValue := by
  unfold getValueAndOrigin
  rw [unit.getDefaultValue_self]
  rfl

theorem printable_scalar {T : UnitType} (hT : T ≠ .strings) (value : T.Val) :
    Printable T value := by
  cases T with
  | strings => exact absurd rfl hT
  | int | int64 | bool | string => trivial

/-- Where the document has nothing, the default is given if it can be rendered. -/
theorem getConfigured_none_iff (hp : P (cstr key) = .ok p) (hget : c.config.get p = none) :
    getConfigured P c unit key unit.T = .ok unit.defaultValue ↔
    Printable unit.T unit.defaultValue := by
  by_cases hT : unit.T = .strings
  · obtain ⟨T, env, defaultValue⟩ := unit
    subst hT
    have harray : c.config.getArray p = none := by
      unfold Json.getArray
      rw [hget]
    have hdefault : (UConf.mk .strings env defaultValue).getDefaultValue .strings =
        .ok defaultValue :=
      UConf.getDefaultValue_self ⟨.strings, env, defaultValue⟩
    rw [getConfigured_strings hp, harray]
    simp only [hdefault]
    exact rendered_iff.trans (and_iff_left rfl)
  · have hscalar : scalarAt c.config p unit.T = none := by
      unfold scalarAt
      cases unit.T with
      | int => simp [Json.getIntAsInt64, hget]
      | int64 => simp [Json.getIntAsInt64, hget]
      | bool => simp [Json.getBool, hget]
      | string => simp [Json.getString, hget]
      | strings => rfl
    rw [getConfigured_scalar hT hp, hscalar, getValueAndOrigin_none]
    exact iff_of_true rfl (printable_scalar hT _)

/-- A scalar that is read is what `get` gives. -/
theorem scalar_given_iff {T : UnitType} (hT : T ≠ .strings) (hp : P (cstr key) = .ok p) {x : T.Val}
    (hx : scalarAt c.config p T = some x) :
    (∃ t, Represents T v t ∧ getConfigured P c unit key T = .ok t) ↔ Represents T v x := by
  rw [getConfigured_scalar hT hp, hx]
  constructor
  · rintro ⟨t, hrep, hval⟩
    cases hval
    exact hrep
  · intro hrep
    exact ⟨x, hrep, rfl⟩

/-- The lower half of a 64 bit integer is all of it where 32 bits hold it. -/
theorem toInt32_toInt_iff (i : Int) : i = (Int64.ofInt i).toInt32.toInt ↔ -2 ^ 31 ≤ i ∧
    i < 2 ^ 31 := by
  constructor
  · intro h
    have hlow := (Int64.ofInt i).toInt32.le_toInt
    have hhigh := (Int64.ofInt i).toInt32.toInt_lt
    omega
  · rintro ⟨hlow, hhigh⟩
    rw [Int64.toInt_toInt32, Int64.toInt_ofInt_of_le (by omega) (by omega),
      Int.bmod_eq_of_le (by omega) (by omega)]

theorem cstr_eq_iff {s : String} : cstr s = s ↔ NoNul s := by
  constructor
  · intro h
    unfold NoNul
    rw [← h]
    exact not_mem_cstr s
  · exact cstr_of_not_mem

theorem map_cstr_eq_iff {ss : List String} : ss.map cstr = ss ↔ ∀ s ∈ ss, NoNul s := by
  have hmap : ss.map cstr = ss.map id ↔ ∀ s ∈ ss, cstr s = id s := List.map_inj_left
  rw [List.map_id] at hmap
  exact hmap.trans (forall₂_congr fun s _ => cstr_eq_iff)

theorem fits_strings {ss : List String} : Fits .strings (.arr (ss.map .str)) ↔ ss ≠ [] ∧
    ∀ s ∈ ss, NoNul s := by
  unfold Fits
  simp only [ne_eq, Json.arr.injEq, List.map_eq_nil_iff, and_congr_right_iff]
  intro hne
  constructor
  · intro h s hs
    exact h _ s rfl (List.mem_map_of_mem hs)
  · rintro h items s rfl hs
    obtain ⟨s', hs', heq⟩ := List.mem_map.mp hs
    cases heq
    exact h s hs'

/-- A value that was accepted is given exactly where it fits. -/
theorem getConfigured_some_iff {T : UnitType} (hp : P (cstr key) = .ok p)
    (hget : c.config.get p = some v) (hacc : Accepts T v) :
    (∃ t, Represents T v t ∧ getConfigured P c unit key T = .ok t) ↔ Fits T v := by
  cases T with
  | int =>
    have hread : scalarAt c.config p .int = some (Int64.ofInt v.intValue).toInt32 := by
      simp only [scalarAt, Json.getIntAsInt64, hget]
      rw [if_pos (show v.isInt64 = true from hacc)]
      rfl
    rw [scalar_given_iff (by decide) hp hread]
    obtain ⟨i, rfl, -, -⟩ := isInt64_iff.mp hacc
    unfold Represents Fits Json.isInt
    simp only [Json.num.injEq, Number.int.injEq, decide_eq_true_eq]
    exact toInt32_toInt_iff i
  | int64 =>
    have hread : scalarAt c.config p .int64 = some (Int64.ofInt v.intValue) := by
      simp only [scalarAt, Json.getIntAsInt64, hget]
      rw [if_pos (show v.isInt64 = true from hacc)]
    rw [scalar_given_iff (by decide) hp hread]
    obtain ⟨i, rfl, hlow, hhigh⟩ := isInt64_iff.mp hacc
    refine iff_of_true ?_ trivial
    show Json.num (.int i) = .num (.int (Int64.ofInt i).toInt)
    rw [Int64.toInt_ofInt_of_le hlow hhigh]
  | bool =>
    obtain ⟨b, rfl⟩ := hacc
    have hread : scalarAt c.config p .bool = some b := by simp [scalarAt, Json.getBool, hget]
    rw [scalar_given_iff (by decide) hp hread]
    exact iff_of_true rfl trivial
  | string =>
    obtain ⟨s, rfl⟩ := hacc
    have hread : scalarAt c.config p .string = some (cstr s) := by
      simp [scalarAt, Json.getString, hget]
    rw [scalar_given_iff (by decide) hp hread]
    unfold Represents Fits
    simp only [Json.str.injEq, forall_eq']
    exact eq_comm.trans cstr_eq_iff
  | strings =>
    obtain ⟨ss, rfl⟩ := hacc
    have hread : c.config.getArray p = some (ss.map .str) := by
      unfold Json.getArray
      rw [hget]
    have hitems : (ss.map Json.str).map (fun item => (item.getString []).getD "ERROR_VALUE") =
        ss.map cstr := by
      rw [List.map_map]
      rfl
    rw [getConfigured_strings hp, hread]
    simp only [hitems]
    rw [fits_strings, ← map_cstr_eq_iff]
    constructor
    · rintro ⟨t, hrep, hval⟩
      obtain ⟨hne, rfl⟩ := rendered_iff.mp hval
      have hmap : ss.map Json.str = (ss.map cstr).map .str := Json.arr.inj hrep
      have hss : ss = ss.map cstr := List.map_injective_iff.mpr (fun a b => Json.str.inj) hmap
      exact ⟨fun hnil => hne (by rw [hnil]; rfl), hss.symm⟩
    · rintro ⟨hne, hss⟩
      rw [hss]
      exact ⟨ss, rfl, rendered_iff.mpr ⟨hne, rfl⟩⟩

end Reads

/-! ## The theorem -/

section Theorem

variable {J : Rapidjson} {P : PointerReader} {getenv : String → Option String} {c c' : Conf}
  {loader : Except Throw Json} {key : String} {unit : UConf}

theorem load_ok (h : load J P loader c = .ok c') :
    c'.units = c.units ∧ validate J P c'.config c.units.entries = .ok () := by
  unfold load at h
  split at h
  · obtain ⟨config, -, h⟩ := bind_eq_ok.mp h
    obtain ⟨u, hvalid, h⟩ := bind_eq_ok.mp h
    cases h
    exact ⟨rfl, hvalid⟩
  · cases h

/-- With its variable unset, a registered key is read from the document. -/
theorem get_unset (hkey : cstr key = key) (hunit : c.units.lookup key = some unit)
    (hunset : getenv (cstr unit.env) = none) :
    get P getenv c unit.T key = getConfigured P c unit key unit.T := by
  unfold get
  rw [hkey, hunit]
  simp only [UConf.getEnvValue_unset hunset]
  rfl

end Theorem

/-- A key of a loaded configuration is honoured exactly where the value it has in the document fits
its type, or, where it has none, its default can be rendered. -/
theorem honoured_iff (J : Rapidjson) (P : PointerReader) (getenv : String → Option String)
    (c c' : Conf) (loader : Except Throw Json) (hreg : Registered c)
    (hload : load J P loader c = .ok c') (key : String) (unit : UConf)
    (hunit : c.units.lookup key = some unit) (hunset : getenv (cstr unit.env) = none) :
    Honoured P getenv c' key unit ↔ KeyFits P c' key unit := by
  obtain ⟨hunits, hvalid⟩ := load_ok hload
  have hkey : cstr key = key := hreg.ckeys key unit hunit
  obtain ⟨p, hp, hacc⟩ := validate_ok hvalid (AList.mem_lookup_iff.mp hunit)
  have hunit' : c'.units.lookup key = some unit := by rw [hunits, hunit]
  have hp' : P key = .ok p := by rw [← hkey, hp]
  unfold Honoured KeyFits
  rw [get_unset hkey hunit' hunset, hp']
  simp only [Except.ok.injEq, exists_eq_left', forall_eq']
  cases hget : c'.config.get p with
  | none => exact getConfigured_none_iff hp hget
  | some v => exact getConfigured_some_iff hp hget (hacc v hget)

section Sample

/-- What rapidjson makes of pointers without escapes. -/
def plainPointer (text : String) : Except (Nat × String) Pointer :=
  match text.toList with
  | [] => .ok []
  | '/' :: cs =>
    if '~' ∈ cs then .error (cs.idxOf '~' + 1, "Invalid escape.")
    else .ok ((cs.splitOn '/').map String.ofList)
  | _ => .error (0, "A token must begin with a '/'.")

def noPrint : Rapidjson := ⟨fun _ => .error ⟨"Parse error"⟩, fun _ => ""⟩

/-- A number and a list beside the units of the constructor. -/
def registerSample : Except Throw Conf := do
  let c ← construct
  let c ← addUnit c "/port" "DD_PORT" .int 80
  addUnit c "/hosts" "DD_HOSTS" .strings ["localhost"]

def sampleConf : Conf :=
  match registerSample with
  | .ok c => c
  | .error _ => ⟨.null, ∅⟩

theorem sampleConf_registered : Registered sampleConf := by
  have hok : registerSample = .ok sampleConf := by
    unfold sampleConf
    rfl
  obtain ⟨c₁, h₁, hrest⟩ := bind_eq_ok.mp hok
  obtain ⟨c₂, h₂, h₃⟩ := bind_eq_ok.mp hrest
  exact .addUnit (.addUnit (.construct h₁) h₂) h₃

def portUnit : UConf := ⟨.int, "DD_PORT", 80⟩

def hostsUnit : UConf := ⟨.strings, "DD_HOSTS", ["localhost"]⟩

def portDoc : Json := .obj [("port", .num (.int 8080))]

/-- The port fits 32 bits. -/
theorem honoured_port :
    Honoured plainPointer (fun _ => none)
      { sampleConf with config := portDoc } "/port" portUnit := by
  refine (honoured_iff noPrint plainPointer (fun _ => none) sampleConf
    { sampleConf with config := portDoc }
      (.ok portDoc) sampleConf_registered rfl "/port" portUnit rfl
    rfl).mpr fun p hp => ?_
  cases hp
  rfl

/-- A port beyond 32 bits, and no hosts. -/
def wideDoc : Json := .obj [("port", .num (.int 2147483648)), ("hosts", .arr [])]

/-- The document is loaded; its port wraps around, and the empty list is popped. -/
theorem load_truncates :
    load noPrint plainPointer (.ok wideDoc) sampleConf = .ok { sampleConf with config := wideDoc } ∧
    get plainPointer (fun _ => none) { sampleConf with config := wideDoc } .int "/port" =
      .ok (-2147483648) ∧
    get plainPointer (fun _ => none) { sampleConf with config := wideDoc } .strings "/hosts" =
      .error .undefined ∧
    ¬ Honoured plainPointer (fun _ => none) { sampleConf with config := wideDoc } "/port" portUnit ∧
    ¬ Honoured plainPointer (fun _ => none)
      { sampleConf with config := wideDoc } "/hosts" hostsUnit := by
  have hport : get plainPointer (fun _ => none) { sampleConf with config := wideDoc } .int "/port" =
      .ok (-2147483648) := by
    rfl
  have hhosts : get plainPointer (fun _ => none)
      { sampleConf with config := wideDoc } .strings "/hosts" = .error .undefined := by
    rfl
  refine ⟨rfl, hport, hhosts, ?_, ?_⟩
  · rintro ⟨p, hp, hval⟩
    cases (show plainPointer "/port" = .ok ["port"] from rfl).symm.trans hp
    obtain ⟨t, hrep, hget⟩ := hval
    cases hport.symm.trans hget
    have hwrapped : (2147483648 : Int) = (-2147483648 : Int32).toInt :=
      Number.int.inj (Json.num.inj hrep)
    revert hwrapped
    decide
  · rintro ⟨p, hp, hval⟩
    cases (show plainPointer "/hosts" = .ok ["hosts"] from rfl).symm.trans hp
    obtain ⟨t, -, hget⟩ := hval
    cases hhosts.symm.trans hget

end Sample

end DistroDefender.Conf
