import DistroDefender.Base.Getters

/-!
# JSON schemas

`JsonDOM::validate` checks a document against a schema document. `accepts` is what rapidjson's
validator makes of the keywords `type`, `required` and `properties`; a schema that is no object
constrains nothing. Every member of the name is checked, also where a name is repeated.
-/

namespace DistroDefender.Base

/-- The parts of rapidjson's validator the schemas leave open: which numbers `"integer"` admits, and
the text that reports a violation. -/
structure SchemaValidator where
  admitsInteger : Number → Bool
  report : Json → Json → String

namespace SchemaValidator

variable (V : SchemaValidator)

/-- The type a schema names. -/
def isOfType (type : String) (j : Json) : Bool :=
  match j with
  | .null => type = "null"
  | .bool _ => type = "boolean"
  | .num n => type = "number" ∨ type = "integer" ∧ V.admitsInteger n = true
  | .str _ => type = "string"
  | .arr _ => type = "array"
  | .obj _ => type = "object"

theorem isOfType_object {j : Json} (h : V.isOfType "object" j = true) : ∃ ms, j = .obj ms := by
  cases j with
  | obj ms => exact ⟨ms, rfl⟩
  | null => simp [isOfType] at h
  | bool b => simp [isOfType] at h
  | num n => simp [isOfType] at h
  | str s => simp [isOfType] at h
  | arr xs => simp [isOfType] at h

/-- The values of the members of a name. -/
def valuesOf (name : String) : Json → List Json
  | .obj ms => (ms.filter fun m => m.1 = name).map Prod.snd
  | _ => []

/-- `"required"`: an object has a member for every name. -/
def hasAll (names : List Json) (j : Json) : Bool :=
  match j with
  | .obj ms => names.all fun
    | .str name => (ms.map Prod.fst).contains name
    | _ => true
  | _ => true

mutual

def accepts : Json → Json → Bool
  | .obj keywords, j => acceptsKeywords keywords j
  | _, _ => true

def acceptsKeywords : List (String × Json) → Json → Bool
  | [], _ => true
  | (keyword, arg) :: keywords, j =>
    (match keyword, arg with
      | "type", .str type => V.isOfType type j
      | "required", .arr names => hasAll names j
      | "properties", properties => acceptsProperties properties j
      | _, _ => true) && acceptsKeywords keywords j

def acceptsProperties : Json → Json → Bool
  | .obj schemas, j => acceptsMembers schemas j
  | _, _ => true

def acceptsMembers : List (String × Json) → Json → Bool
  | [], _ => true
  | (name, schema) :: schemas, j =>
    (valuesOf name j).all (accepts schema) && acceptsMembers schemas j

end

/-- `JsonDOM::validate`. -/
def validate (j schema : Json) : OptError :=
  if accepts V schema j then none
  else some ⟨s!"Schema validation failed: {V.report schema j}\n"⟩

/-! ## What an accepted document looks like -/

section Accepted

variable {V}

theorem acceptsMembers_iff {schemas : List (String × Json)} {j : Json} :
    V.acceptsMembers schemas j = true ↔
      ∀ name schema, (name, schema) ∈ schemas → ∀ v ∈ valuesOf name j,
        V.accepts schema v = true := by
  induction schemas with
  | nil => simp [acceptsMembers]
  | cons m schemas ih =>
    obtain ⟨name, schema⟩ := m
    simp only [acceptsMembers, Bool.and_eq_true, List.all_eq_true, ih, List.mem_cons, Prod.mk.injEq]
    constructor
    · rintro ⟨hhead, htail⟩ n s (⟨rfl, rfl⟩ | hmem) v hv
      · exact hhead v hv
      · exact htail n s hmem v hv
    · intro h
      exact ⟨h name schema (.inl ⟨rfl, rfl⟩), fun n s hmem => h n s (.inr hmem)⟩

theorem mem_valuesOf {name : String} {ms : List (String × Json)} {v : Json} :
    v ∈ valuesOf name (.obj ms) ↔ (name, v) ∈ ms := by
  unfold valuesOf
  simp

/-- What a pointer to a member finds is one of the values of its name. -/
theorem mem_valuesOf_of_get {name : String} {j v : Json} {ms : List (String × Json)}
    (hj : j = .obj ms) (h : j.get [name] = some v) : v ∈ valuesOf name j := by
  rw [hj] at h ⊢
  rw [mem_valuesOf]
  rw [Json.get_obj_cons] at h
  obtain ⟨w, hw, hv⟩ := Option.bind_eq_some_iff.mp h
  rw [Json.get_nil] at hv
  cases hv
  obtain ⟨l₁, l₂, rfl, -⟩ := List.lookup_eq_some_iff.mp hw
  exact List.mem_append_right l₁ List.mem_cons_self

/-- A member that is there is found. -/
theorem get_of_mem {name : String} {ms : List (String × Json)} (h : name ∈ ms.map Prod.fst) :
    ∃ v, (Json.obj ms).get [name] = some v := by
  obtain ⟨m, hm, rfl⟩ := List.mem_map.mp h
  have hsome : (ms.lookup m.1).isSome = true := List.lookup_isSome_iff.mpr ⟨m, hm, by simp⟩
  obtain ⟨v, hv⟩ := Option.isSome_iff_exists.mp hsome
  refine ⟨v, ?_⟩
  rw [Json.get_obj_cons, hv]
  exact Json.get_nil v

end Accepted

end SchemaValidator

end DistroDefender.Base
