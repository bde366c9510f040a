import DistroDefender.Api.Adapter

/-!
# Request schemas

The schema texts of `schemas::kvdb` and `schemas::geo`, and the documents they spell. rapidjson
makes the documents of the texts (`Spelled`); the text of the remote upsert has a comma before a
closing brace, so it is no JSON and its document is null.
-/

namespace DistroDefender.Api

open Base

/-! ## Schema documents -/

/-- An object schema. -/
def objectSchema (required : List String) (properties : List (String × Json)) : Json :=
  .obj [("type", .str "object"), ("required", .arr (required.map .str)),
    ("properties", .obj properties)]

/-- A schema of one type. -/
def typed (type : String) : Json := .obj [("type", .str type)]

section Accepted

variable {V : SchemaValidator} {required : List String} {properties : List (String × Json)}
  {j : Json}

theorem accepts_typed {type : String} : V.accepts (typed type) j = V.isOfType type j := by
  unfold typed SchemaValidator.accepts SchemaValidator.acceptsKeywords
    SchemaValidator.acceptsKeywords
  exact Bool.and_true _

/-- What an object schema accepts is an object with the required members, whose members have their
schemas. -/
theorem accepts_objectSchema (h : V.accepts (objectSchema required properties) j = true) :
    ∃ ms, j = .obj ms ∧ (∀ name ∈ required, name ∈ ms.map Prod.fst) ∧
      ∀ name schema, (name, schema) ∈ properties →
        ∀ v ∈ SchemaValidator.valuesOf name j, V.accepts schema v = true := by
  unfold objectSchema SchemaValidator.accepts at h
  simp only [SchemaValidator.acceptsKeywords, SchemaValidator.acceptsProperties, Bool.and_eq_true,
    Bool.and_true] at h
  obtain ⟨htype, hrequired, hproperties⟩ := h
  obtain ⟨ms, rfl⟩ := V.isOfType_object htype
  refine ⟨ms, rfl, fun name hname => ?_, SchemaValidator.acceptsMembers_iff.mp hproperties⟩
  unfold SchemaValidator.hasAll at hrequired
  simp only [List.all_map, List.all_eq_true] at hrequired
  simpa using hrequired name hname

/-- A string member of an accepted document is read as a string. -/
theorem getString_of_typed {name : String}
    (h : V.accepts (objectSchema required properties) j = true)
    (hproperty : (name, typed "string") ∈ properties) {v : Json} (hv : j.get [name] = some v) :
    (j.getString [name]).isSome = true := by
  obtain ⟨ms, hj, -, hmembers⟩ := accepts_objectSchema h
  have htype := hmembers _ _ hproperty v (SchemaValidator.mem_valuesOf_of_get hj hv)
  rw [accepts_typed] at htype
  unfold Json.getString
  rw [hv]
  cases v with
  | str s => rfl
  | null => simp [SchemaValidator.isOfType] at htype
  | bool b => simp [SchemaValidator.isOfType] at htype
  | num n => simp [SchemaValidator.isOfType] at htype
  | obj ms => simp [SchemaValidator.isOfType] at htype
  | arr xs => simp [SchemaValidator.isOfType] at htype

theorem getString_of_required {name : String}
    (h : V.accepts (objectSchema required properties) j = true) (hrequired : name ∈ required)
    (hproperty : (name, typed "string") ∈ properties) :
    (j.getString [name]).isSome = true := by
  obtain ⟨ms, hj, hall, -⟩ := accepts_objectSchema h
  obtain ⟨v, hv⟩ := SchemaValidator.get_of_mem (hall name hrequired)
  rw [← hj] at hv
  exact getString_of_typed h hproperty hv

end Accepted

namespace Schemas.Kvdb

def DB_GET_REQUEST_SCHEMA : String := "\x7b
    \"type\": \"object\",
    \"required\": [\"name\", \"key\"],
    \"properties\": \x7b
        \"name\": \x7b \"type\": \"string\" \x7d,
        \"key\": \x7b \"type\": \"string\" \x7d
    \x7d
\x7d"

def dbGet : Json := objectSchema ["name", "key"] [("name", typed "string"), ("key", typed "string")]

def DB_SEARCH_REQUEST_SCHEMA : String := "\x7b
    \"type\": \"object\",
    \"required\": [\"name\", \"prefix\"],
    \"properties\": \x7b
        \"name\": \x7b \"type\": \"string\" \x7d,
        \"prefix\": \x7b \"type\": \"string\" \x7d,
        \"page\": \x7b \"type\": \"integer\" \x7d,
        \"records\": \x7b \"type\": \"integer\" \x7d
    \x7d
\x7d"

def dbSearch : Json := objectSchema ["name", "prefix"]
  [("name", typed "string"), ("prefix", typed "string"), ("page", typed "integer"),
    ("records", typed "integer")]

def DB_DELETE_REQUEST_SCHEMA : String := "\x7b
    \"type\": \"object\",
    \"required\": [\"name\", \"key\"],
    \"properties\": \x7b
        \"name\": \x7b \"type\": \"string\" \x7d,
        \"key\": \x7b \"type\": \"string\" \x7d
    \x7d
\x7d"

def dbDelete : Json :=
  objectSchema ["name", "key"] [("name", typed "string"), ("key", typed "string")]

def DB_PUT_REQUEST_SCHEMA : String := "\x7b
    \"type\": \"object\",
    \"required\": [\"name\", \"entry\"],
    \"properties\": \x7b
        \"name\": \x7b \"type\": \"string\" \x7d,
        \"entry\": \x7b
            \"type\": \"object\",
            \"required\": [\"key\", \"value\"],
            \"properties\": \x7b
                \"key\": \x7b \"type\": \"string\" \x7d,
                \"value\": \x7b\x7d
            \x7d
        \x7d
    \x7d
\x7d"

def dbPut : Json := objectSchema ["name", "entry"] [("name", typed "string"),
  ("entry", objectSchema ["key", "value"] [("key", typed "string"), ("value", .obj [])])]

def MANAGER_GET_REQUEST_SCHEMA : String := "\x7b
    \"type\": \"object\",
    \"properties\": \x7b
        \"must_be_loaded\": \x7b \"type\": \"boolean\" \x7d,
        \"filter_by_name\": \x7b \"type\": \"string\" \x7d
    \x7d
\x7d"

def managerGet : Json := .obj [("type", .str "object"),
  ("properties", .obj [("must_be_loaded", typed "boolean"), ("filter_by_name", typed "string")])]

def MANAGER_POST_REQUEST_SCHEMA : String := "\x7b
    \"type\": \"object\",
    \"required\": [\"name\"],
    \"properties\": \x7b
        \"name\": \x7b \"type\": \"string\" \x7d,
        \"path\": \x7b \"type\": \"string\" \x7d
    \x7d
\x7d"

def managerPost : Json := objectSchema ["name"] [("name", typed "string"), ("path", typed "string")]

def MANAGER_DELETE_REQUEST_SCHEMA : String := "\x7b
    \"type\": \"object\",
    \"required\": [\"name\"],
    \"properties\": \x7b
        \"name\": \x7b \"type\": \"string\" \x7d
    \x7d
\x7d"

def managerDelete : Json := objectSchema ["name"] [("name", typed "string")]

def MANAGER_DUMP_REQUEST_SCHEMA : String := "\x7b
    \"type\": \"object\",
    \"required\": [\"name\"],
    \"properties\": \x7b
        \"name\": \x7b \"type\": \"string\" \x7d,
        \"page\": \x7b \"type\": \"integer\" \x7d,
        \"records\": \x7b \"type\": \"integer\" \x7d
    \x7d
\x7d"

def managerDump : Json := objectSchema ["name"]
  [("name", typed "string"), ("page", typed "integer"), ("records", typed "integer")]

end Schemas.Kvdb

namespace Schemas.Geo

def DB_POST_REQUEST_SCHEMA : String := "\x7b
    \"type\": \"object\",
    \"required\": [\"path\", \"type\"],
    \"properties\": \x7b
        \"path\": \x7b \"type\": \"string\" \x7d,
        \"type\": \x7b \"type\": \"string\" \x7d
    \x7d
\x7d"

def dbPost : Json :=
  objectSchema ["path", "type"] [("path", typed "string"), ("type", typed "string")]

def DB_DELETE_REQUEST_SCHEMA : String := "\x7b
    \"type\": \"object\",
    \"required\": [\"path\"],
    \"properties\": \x7b
        \"path\": \x7b \"type\": \"string\" \x7d
    \x7d
\x7d"

def dbDelete : Json := objectSchema ["path"] [("path", typed "string")]

def DB_LIST_REQUEST_SCHEMA : String := "\x7b\x7d"

def dbList : Json := .obj []

/-- The comma after the last property makes it no JSON. -/
def DB_REMOTE_UPSERT_REQUEST_SCHEMA : String := "\x7b
    \"type\": \"object\",
    \"required\": [\"path\", \"type\", \"dbUrl\", \"hashUrl\"],
    \"properties\": \x7b
        \"path\": \x7b \"type\": \"string\" \x7d,
        \"type\": \x7b \"type\": \"string\" \x7d,
        \"dbUrl\": \x7b \"type\": \"string\" \x7d,
        \"hashUrl\": \x7b \"type\": \"string\" \x7d,
    \x7d
\x7d"

end Schemas.Geo

/-- The flag of an accepted request is a boolean. -/
theorem Schemas.Kvdb.getBool_of_accepts {V : SchemaValidator} {j v : Json}
    (h : V.accepts managerGet j = true) (hv : j.get ["must_be_loaded"] = some v) :
    (j.getBool ["must_be_loaded"]).isSome = true := by
  unfold managerGet SchemaValidator.accepts at h
  simp only [SchemaValidator.acceptsKeywords, SchemaValidator.acceptsProperties, Bool.and_eq_true,
    Bool.and_true] at h
  obtain ⟨htype, hproperties⟩ := h
  obtain ⟨ms, rfl⟩ := V.isOfType_object htype
  have hmember :=
    SchemaValidator.acceptsMembers_iff.mp hproperties "must_be_loaded" (typed "boolean")
    List.mem_cons_self v (SchemaValidator.mem_valuesOf_of_get rfl hv)
  rw [accepts_typed] at hmember
  unfold Json.getBool
  rw [hv]
  cases v with
  | bool b => rfl
  | null => simp [SchemaValidator.isOfType] at hmember
  | num n => simp [SchemaValidator.isOfType] at hmember
  | str s => simp [SchemaValidator.isOfType] at hmember
  | arr xs => simp [SchemaValidator.isOfType] at hmember
  | obj ms => simp [SchemaValidator.isOfType] at hmember

/-- The key of the entry of an accepted request is a string. -/
theorem Schemas.Kvdb.entryKey_of_accepts {V : SchemaValidator} {j : Json}
    (h : V.accepts dbPut j = true) : (j.getString ["entry", "key"]).isSome = true := by
  obtain ⟨ms, rfl, hall, hmembers⟩ := accepts_objectSchema h
  obtain ⟨entry, hentry⟩ := SchemaValidator.get_of_mem (hall "entry" (by simp))
  have haccepts := hmembers "entry" _ (List.mem_cons_of_mem _ List.mem_cons_self) entry
    (SchemaValidator.mem_valuesOf_of_get rfl hentry)
  have hkey := getString_of_required haccepts List.mem_cons_self List.mem_cons_self
  unfold Json.getString at hkey ⊢
  rw [Json.get_cons_of_get hentry]
  exact hkey

/-- `json::Json schema(TEXT.data())`: the document of a schema text, which has no NUL in it. -/
def JsonLib.schema (L : JsonLib) (text : String) : Json :=
  match L.rapidjson.parse text with
  | .ok j => j
  | .error _ => .null

/-- rapidjson reads the schema texts as the documents they spell, and does not read the one that is
no JSON. -/
structure Spelled (L : JsonLib) : Prop where
  dbGet : L.schema Schemas.Kvdb.DB_GET_REQUEST_SCHEMA = Schemas.Kvdb.dbGet
  dbSearch : L.schema Schemas.Kvdb.DB_SEARCH_REQUEST_SCHEMA = Schemas.Kvdb.dbSearch
  dbDelete : L.schema Schemas.Kvdb.DB_DELETE_REQUEST_SCHEMA = Schemas.Kvdb.dbDelete
  dbPut : L.schema Schemas.Kvdb.DB_PUT_REQUEST_SCHEMA = Schemas.Kvdb.dbPut
  managerGet : L.schema Schemas.Kvdb.MANAGER_GET_REQUEST_SCHEMA = Schemas.Kvdb.managerGet
  managerPost : L.schema Schemas.Kvdb.MANAGER_POST_REQUEST_SCHEMA = Schemas.Kvdb.managerPost
  managerDelete : L.schema Schemas.Kvdb.MANAGER_DELETE_REQUEST_SCHEMA = Schemas.Kvdb.managerDelete
  managerDump : L.schema Schemas.Kvdb.MANAGER_DUMP_REQUEST_SCHEMA = Schemas.Kvdb.managerDump
  geoPost : L.schema Schemas.Geo.DB_POST_REQUEST_SCHEMA = Schemas.Geo.dbPost
  geoDelete : L.schema Schemas.Geo.DB_DELETE_REQUEST_SCHEMA = Schemas.Geo.dbDelete
  geoList : L.schema Schemas.Geo.DB_LIST_REQUEST_SCHEMA = Schemas.Geo.dbList
  geoRemoteUpsert : ∃ err, L.rapidjson.parse Schemas.Geo.DB_REMOTE_UPSERT_REQUEST_SCHEMA =
    .error err

end DistroDefender.Api
