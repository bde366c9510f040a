import DistroDefender.Api.Geo
import DistroDefender.Api.Kvdb

/-!
# Routes that answer

A route answers every request with a user response or a user error response, as long as its manager
is there and no optional is empty where it is dereferenced outside a `try` block. The schemas see to
that for nine of the twelve routes. They do not for `/page` and `/records`, which `"integer"` admits
beyond an `int`, nor for the fields of a remote upsert, whose schema constrains nothing
(`route_answers_iff`).
-/

namespace DistroDefender.Api

open Base Lib

/-- The managers the routes were registered with; `none` is one that is gone. -/
structure Managers (σ : Type) where
  kvdb : Option (IKVDBManager σ)
  geo : Option (IGeoManager σ)

/-- The routes, by their handlers. -/
inductive Route where
  | managerGet
  | managerPost
  | managerDelete
  | managerDump
  | dbGet
  | dbDelete
  | dbPut
  | dbSearch
  | addDb
  | delDb
  | listDb
  | remoteUpsertDb
  deriving DecidableEq

namespace Route

variable {σ : Type}

/-- A request served; the scope of the database handlers is `kvdb`. -/
def serve (L : JsonLib) (M : Managers σ) (body : String) : Route → Call σ Response
  | .managerGet => Kvdb.managerGet L M.kvdb body
  | .managerPost => Kvdb.managerPost L M.kvdb body
  | .managerDelete => Kvdb.managerDelete L M.kvdb body
  | .managerDump => Kvdb.managerDump L "kvdb" M.kvdb body
  | .dbGet => Kvdb.dbGet L "kvdb" M.kvdb body
  | .dbDelete => Kvdb.dbDelete L "kvdb" M.kvdb body
  | .dbPut => Kvdb.dbPut L "kvdb" M.kvdb body
  | .dbSearch => Kvdb.dbSearch L "kvdb" M.kvdb body
  | .addDb => Geo.addDb L M.geo body
  | .delDb => Geo.delDb L M.geo body
  | .listDb => Geo.listDb L M.geo body
  | .remoteUpsertDb => Geo.remoteUpsertDb L M.geo body

/-- The manager of the route is there. -/
def Managed (M : Managers σ) : Route → Prop
  | .addDb | .delDb | .listDb | .remoteUpsertDb => M.geo ≠ none
  | _ => M.kvdb ≠ none

/-- A field that is absent or an `int`. -/
def Int32Field (jsonReq : Json) (path : Pointer) : Prop :=
  ∀ v, jsonReq.get path = some v → v.isInt = true

/-- What the route reads outside a `try` block and its schema does not promise is there. -/
def Reads (L : JsonLib) (body : String) : Route → Prop
  | .managerDump => ∀ jsonReq, parseRequest L body = .ok jsonReq →
      L.validator.accepts Schemas.Kvdb.managerDump jsonReq = true →
      Int32Field jsonReq ["page"] ∧ Int32Field jsonReq ["records"]
  | .dbSearch => ∀ jsonReq, parseRequest L body = .ok jsonReq →
      L.validator.accepts Schemas.Kvdb.dbSearch jsonReq = true →
      Int32Field jsonReq ["page"] ∧ Int32Field jsonReq ["records"]
  | .remoteUpsertDb => ∀ jsonReq, parseRequest L body = .ok jsonReq →
      ∀ field ∈ ["path", "dbUrl", "hashUrl"], (jsonReq.getString [field]).isSome = true
  | _ => True

end Route

/-! ## The key-value databases -/

section Kvdb

open DistroDefender.Api.Kvdb

variable {σ : Type} {L : JsonLib} {s : σ}

theorem answers_withHandler {kvdb : IKVDBManager σ} {scope name : String}
    {work : IKVDBHandler σ → Call σ Response} (h : ∀ handler s', Answers ((work handler).run s')) :
    Answers ((withHandler kvdb scope name work).run s) := by
  unfold withHandler
  refine answers_ask fun isThere s' => ?_
  cases isThere with
  | false => exact answers_userError _
  | true =>
    refine answers_ask fun a s'' => ?_
    cases a with
    | error err => exact answers_userError _
    | ok handler => exact h handler s''

theorem answers_int32Field {jsonReq : Json} {path : Pointer} {byDefault : UInt32}
    {k : Int32 → Call σ Response} (hfield : Route.Int32Field jsonReq path)
    (h : ∀ i, Answers ((k i).run s)) :
    Answers ((orThrow (int32Field jsonReq path byDefault) >>= k).run s) := by
  unfold int32Field Json.existsAt
  cases hget : jsonReq.get path with
  | none => exact h _
  | some v =>
    have hsome : (jsonReq.getInt32 path).isSome = true :=
      Json.getInt32_isSome_iff.mpr ⟨v, hget, hfield v hget⟩
    exact answers_value hsome fun i _ => h i

/-- A field that is no `int` is dereferenced all the same. -/
theorem not_answers_int32Field {jsonReq : Json} {path : Pointer} {byDefault : UInt32}
    {k : Int32 → Call σ Response} (hfield : ¬ Route.Int32Field jsonReq path) :
    ¬ Answers ((orThrow (int32Field jsonReq path byDefault) >>= k).run s) := by
  unfold Route.Int32Field at hfield
  push Not at hfield
  obtain ⟨v, hget, hv⟩ := hfield
  have hnone : jsonReq.getInt32 path = none := by
    unfold Json.getInt32
    rw [hget]
    simp only [if_neg hv]
  unfold int32Field Json.existsAt
  rw [hget]
  exact not_answers_value hnone

theorem managerGet_answers_iff (hL : Spelled L) (wKvdb : Option (IKVDBManager σ)) (body : String) :
    Answers ((managerGet L wKvdb body).run s) ↔ wKvdb ≠ none := by
  unfold managerGet
  rw [answers_parseWith, hL.managerGet]
  refine and_iff_left_of_imp fun _ kvdb jsonReq hadmitted => ?_
  unfold Json.existsAt
  cases hget : jsonReq.get ["must_be_loaded"] with
  | none => exact answers_ask fun dbs s' => answers_user _
  | some v =>
    refine answers_value (Schemas.Kvdb.getBool_of_accepts hadmitted.2.2 hget) fun b hb => ?_
    exact answers_ask fun dbs s' => answers_user _

theorem postNamed_answers (kvdb : IKVDBManager σ) (path name : String) :
    Answers ((postNamed kvdb path name).run s) := by
  unfold postNamed
  refine answers_ask fun isThere s' => ?_
  cases isThere with
  | true => exact answers_userError _
  | false =>
    refine answers_ask fun err s'' => ?_
    cases err with
    | none => exact answers_user _
    | some err => exact answers_userError _

theorem managerPost_answers_iff (hL : Spelled L) (wKvdb : Option (IKVDBManager σ)) (body : String) :
    Answers ((managerPost L wKvdb body).run s) ↔ wKvdb ≠ none := by
  unfold managerPost
  rw [answers_parseWith, hL.managerPost]
  refine and_iff_left_of_imp fun _ kvdb jsonReq hadmitted => ?_
  unfold Json.existsAt
  cases hget : jsonReq.get ["path"] with
  | none => exact answers_orUserError fun name _ => postNamed_answers kvdb "" name
  | some v =>
    have hpath := getString_of_typed hadmitted.2.2 (List.mem_cons_of_mem _ List.mem_cons_self) hget
    exact answers_value hpath fun path _ => answers_orUserError fun name _ =>
      postNamed_answers kvdb path name

theorem managerDelete_answers_iff (hL : Spelled L) (wKvdb : Option (IKVDBManager σ))
    (body : String) : Answers ((managerDelete L wKvdb body).run s) ↔ wKvdb ≠ none := by
  unfold managerDelete
  rw [answers_parseWith, hL.managerDelete]
  refine and_iff_left_of_imp fun _ kvdb jsonReq _ => ?_
  refine answers_orUserError fun name _ => answers_ask fun isThere s' => ?_
  cases isThere with
  | false => exact answers_userError _
  | true =>
    refine answers_ask fun err s'' => ?_
    cases err with
    | none => exact answers_user _
    | some err => exact answers_userError _

/-- The loop of a dump ends in an answer for the user. -/
theorem dumpEntries_isUser {dump : List (String × String)} {resJson : Json} {res : Response}
    (h : dumpEntries L dump resJson = .error res) : res.IsUser := by
  induction dump generalizing resJson with
  | nil => cases h
  | cons e rest ih =>
    obtain ⟨key, value⟩ := e
    unfold dumpEntries at h
    split at h
    · cases h
      exact .inr rfl
    · exact ih h

theorem dumpAnswer_isUser (a : RespOrError (List (String × String))) : (dumpAnswer L a).IsUser := by
  unfold dumpAnswer
  cases a with
  | error err => exact .inr rfl
  | ok dump =>
    simp only
    split
    · rename_i hdump
      exact dumpEntries_isUser hdump
    · exact .inl rfl

theorem dumpPage_answers (kvdb : IKVDBManager σ) (scope : String) (jsonReq : Json)
    (page_t records_t : Int32) :
    Answers ((dumpPage L kvdb scope jsonReq page_t records_t).run s) := by
  unfold dumpPage
  by_cases hpage : page_t ≤ 0
  · rw [if_pos hpage]
    exact answers_userError _
  rw [if_neg hpage]
  by_cases hrecords : records_t ≤ 0
  · simp only [if_pos hrecords]
    exact answers_userError _
  simp only [if_neg hrecords]
  exact answers_orUserError fun name _ => answers_withHandler fun handler s' =>
    answers_ask fun a s'' => ⟨_, s'', rfl, dumpAnswer_isUser a⟩

theorem searchPage_answers (kvdb : IKVDBManager σ) (scope : String) (jsonReq : Json)
    (page_t records_t : Int32) :
    Answers ((searchPage L kvdb scope jsonReq page_t records_t).run s) := by
  unfold searchPage
  refine answers_orUserError fun found _ => answers_withHandler fun handler s' =>
    answers_ask fun a s'' => ?_
  refine ⟨_, s'', rfl, ?_⟩
  cases a with
  | error err => exact .inr rfl
  | ok searchResult => exact .inl rfl

/-- A route that reads a page and goes on to answer, answers exactly when the page can be read. -/
theorem answers_paged {jsonReq : Json} {work : Int32 → Int32 → Call σ Response}
    (h : ∀ page_t records_t s', Answers ((work page_t records_t).run s')) :
    Answers ((do
      let page_t ← orThrow (int32Field jsonReq ["page"] DEFAULT_HANDLER_PAGE)
      let records_t ← orThrow (int32Field jsonReq ["records"] DEFAULT_HANDLER_RECORDS)
      work page_t records_t : Call σ Response).run s) ↔
    Route.Int32Field jsonReq ["page"] ∧ Route.Int32Field jsonReq ["records"] := by
  by_cases hpage : Route.Int32Field jsonReq ["page"]
  · by_cases hrecords : Route.Int32Field jsonReq ["records"]
    · refine iff_of_true ?_ ⟨hpage, hrecords⟩
      exact answers_int32Field hpage fun page_t => answers_int32Field hrecords fun records_t =>
        h page_t records_t s
    · refine iff_of_false (fun hans => ?_) (fun hboth => hrecords hboth.2)
      cases hread : int32Field jsonReq ["page"] DEFAULT_HANDLER_PAGE with
      | error e =>
        rw [hread] at hans
        exact not_answers_error e hans
      | ok page_t =>
        rw [hread] at hans
        exact not_answers_int32Field hrecords hans
  · exact iff_of_false (not_answers_int32Field hpage) (fun hboth => hpage hboth.1)

theorem managerDump_answers_iff (hL : Spelled L) (scope : String) (wKvdb : Option (IKVDBManager σ))
    (body : String) :
    Answers ((managerDump L scope wKvdb body).run s) ↔
      wKvdb ≠ none ∧ Route.managerDump.Reads L body := by
  unfold managerDump
  rw [answers_parseWith, hL.managerDump]
  refine and_congr_right fun hsome => ?_
  obtain ⟨kvdb, hkvdb⟩ := Option.ne_none_iff_exists'.mp hsome
  constructor
  · intro h jsonReq hreq haccepts
    exact (answers_paged fun page_t records_t s' =>
      dumpPage_answers kvdb scope jsonReq page_t records_t).mp
      (h kvdb jsonReq ⟨hkvdb, hreq, haccepts⟩)
  · rintro h kvdb' jsonReq ⟨-, hreq, haccepts⟩
    exact (answers_paged fun page_t records_t s' =>
      dumpPage_answers kvdb' scope jsonReq page_t records_t).mpr (h jsonReq hreq haccepts)

theorem dbSearch_answers_iff (hL : Spelled L) (scope : String) (wKvdb : Option (IKVDBManager σ))
    (body : String) :
    Answers ((dbSearch L scope wKvdb body).run s) ↔ wKvdb ≠ none ∧ Route.dbSearch.Reads L body := by
  unfold dbSearch
  rw [answers_parseWith, hL.dbSearch]
  refine and_congr_right fun hsome => ?_
  obtain ⟨kvdb, hkvdb⟩ := Option.ne_none_iff_exists'.mp hsome
  constructor
  · intro h jsonReq hreq haccepts
    exact (answers_paged fun page_t records_t s' =>
      searchPage_answers kvdb scope jsonReq page_t records_t).mp
      (h kvdb jsonReq ⟨hkvdb, hreq, haccepts⟩)
  · rintro h kvdb' jsonReq ⟨-, hreq, haccepts⟩
    exact (answers_paged fun page_t records_t s' =>
      searchPage_answers kvdb' scope jsonReq page_t records_t).mpr (h jsonReq hreq haccepts)

theorem dbGet_answers_iff (scope : String) (wKvdb : Option (IKVDBManager σ)) (body : String) :
    Answers ((dbGet L scope wKvdb body).run s) ↔ wKvdb ≠ none := by
  unfold dbGet
  rw [answers_parseWith]
  refine and_iff_left_of_imp fun _ kvdb jsonReq _ => ?_
  refine answers_orUserError fun found _ => answers_withHandler fun handler s' =>
    answers_ask fun a s'' => ?_
  refine ⟨_, s'', rfl, ?_⟩
  unfold getAnswer
  cases a with
  | error err => exact .inr rfl
  | ok getValue =>
    simp only
    split
    · exact .inr rfl
    · exact .inl rfl

theorem dbDelete_answers_iff (scope : String) (wKvdb : Option (IKVDBManager σ)) (body : String) :
    Answers ((dbDelete L scope wKvdb body).run s) ↔ wKvdb ≠ none := by
  unfold dbDelete
  rw [answers_parseWith]
  refine and_iff_left_of_imp fun _ kvdb jsonReq _ => ?_
  exact answers_orUserError fun found _ => answers_withHandler fun handler s' =>
    answers_ask fun a s'' => answers_reportError a

/-- The checks of a PUT leave a value behind. -/
theorem putChecks_value {jsonReq : Json} {name : String} (h : putChecks jsonReq = .ok name) :
    (jsonReq.get ["entry", "value"]).isSome = true := by
  unfold putChecks at h
  cases hname : nonEmpty jsonReq ["name"] MESSAGE_NAME_EMPTY with
  | error e =>
    rw [hname] at h
    cases h
  | ok name' =>
    simp only [hname, bind, Except.bind] at h
    split at h
    · cases h
    · split at h
      · cases h
      · rename_i hvalue
        simpa [Json.existsAt, Option.isSome_iff_ne_none] using hvalue

theorem dbPut_answers_iff (hL : Spelled L) (scope : String) (wKvdb : Option (IKVDBManager σ))
    (body : String) : Answers ((dbPut L scope wKvdb body).run s) ↔ wKvdb ≠ none := by
  unfold dbPut
  rw [answers_parseWith, hL.dbPut]
  refine and_iff_left_of_imp fun _ kvdb jsonReq hadmitted => ?_
  refine answers_orUserError fun name hname => ?_
  refine answers_value (Schemas.Kvdb.entryKey_of_accepts hadmitted.2.2) fun entryKey _ => ?_
  refine answers_value (putChecks_value hname) fun entryValueJson _ => ?_
  by_cases hkey : entryKey = ""
  · simp only [if_pos hkey]
    exact answers_userError _
  simp only [if_neg hkey]
  by_cases hvalue : L.rapidjson.print entryValueJson = ""
  · simp only [if_pos hvalue]
    exact answers_userError _
  simp only [if_neg hvalue]
  exact answers_withHandler fun handler s' => answers_ask fun a s'' => answers_reportError a

end Kvdb

/-! ## The geo databases -/

section Geo

open DistroDefender.Api.Geo

variable {σ : Type} {L : JsonLib} {s : σ}

theorem addDb_answers_iff (hL : Spelled L) (weak : Option (IGeoManager σ)) (body : String) :
    Answers ((addDb L weak body).run s) ↔ weak ≠ none := by
  unfold addDb
  rw [answers_parseWith, hL.geoPost]
  refine and_iff_left_of_imp fun _ geoManager jsonReq hadmitted => ?_
  refine answers_value
    (getString_of_required hadmitted.2.2 List.mem_cons_self List.mem_cons_self) fun path _ => ?_
  by_cases hpath : path = ""
  · simp only [if_pos hpath]
    exact answers_userError _
  simp only [if_neg hpath]
  exact answers_orUserError fun type _ => answers_ask fun a s' => answers_reportError a

theorem delDb_answers_iff (hL : Spelled L) (weak : Option (IGeoManager σ)) (body : String) :
    Answers ((delDb L weak body).run s) ↔ weak ≠ none := by
  unfold delDb
  rw [answers_parseWith, hL.geoDelete]
  refine and_iff_left_of_imp fun _ geoManager jsonReq hadmitted => ?_
  refine answers_value
    (getString_of_required hadmitted.2.2 List.mem_cons_self List.mem_cons_self) fun path _ => ?_
  by_cases hpath : path = ""
  · simp only [if_pos hpath]
    exact answers_userError _
  simp only [if_neg hpath]
  exact answers_ask fun a s' => answers_reportError a

theorem listDb_answers_iff (weak : Option (IGeoManager σ)) (body : String) :
    Answers ((listDb L weak body).run s) ↔ weak ≠ none := by
  unfold listDb
  rw [answers_parseWith]
  exact and_iff_left_of_imp fun _ geoManager jsonReq _ => answers_ask fun dbs s' => answers_user _

/-- The schema of a remote upsert constrains nothing. -/
theorem remoteUpsert_accepts (hL : Spelled L) (jsonReq : Json) :
    L.validator.accepts (L.schema Schemas.Geo.DB_REMOTE_UPSERT_REQUEST_SCHEMA) jsonReq = true := by
  obtain ⟨err, herr⟩ := hL.geoRemoteUpsert
  unfold JsonLib.schema
  rw [herr]
  exact SchemaValidator.accepts.eq_2 _ _ _ (by simp)

theorem remoteUpsertFields_answers (geoManager : IGeoManager σ) (jsonReq : Json)
    (path dbUrl hashUrl : String) :
    Answers ((remoteUpsertFields geoManager jsonReq path dbUrl hashUrl).run s) := by
  unfold remoteUpsertFields
  by_cases hpath : path = ""
  · rw [if_pos hpath]
    exact answers_userError _
  rw [if_neg hpath]
  by_cases hdbUrl : dbUrl = ""
  · simp only [if_pos hdbUrl]
    exact answers_userError _
  simp only [if_neg hdbUrl]
  by_cases hhashUrl : hashUrl = ""
  · simp only [if_pos hhashUrl]
    exact answers_userError _
  simp only [if_neg hhashUrl]
  exact answers_orUserError fun type _ => answers_ask fun a s' => answers_reportError a

theorem remoteUpsertDb_answers_iff (hL : Spelled L) (weak : Option (IGeoManager σ))
    (body : String) : Answers ((remoteUpsertDb L weak body).run s) ↔
      weak ≠ none ∧ Route.remoteUpsertDb.Reads L body := by
  unfold remoteUpsertDb
  rw [answers_parseWith]
  refine and_congr_right fun hsome => ?_
  obtain ⟨geoManager, hweak⟩ := Option.ne_none_iff_exists'.mp hsome
  constructor
  · intro h jsonReq hreq
    obtain ⟨path, hpath, hrest⟩ := answers_value_iff.mp
      (h geoManager jsonReq ⟨hweak, hreq, remoteUpsert_accepts hL jsonReq⟩)
    obtain ⟨dbUrl, hdbUrl, hrest⟩ := answers_value_iff.mp hrest
    obtain ⟨hashUrl, hhashUrl, -⟩ := answers_value_iff.mp hrest
    simp [hpath, hdbUrl, hhashUrl]
  · rintro h manager jsonReq ⟨-, hreq, -⟩
    have hall := h jsonReq hreq
    simp only [List.mem_cons, List.not_mem_nil, or_false, forall_eq_or_imp, forall_eq] at hall
    obtain ⟨hpath, hdbUrl, hhashUrl⟩ := hall
    refine answers_value hpath fun path _ => ?_
    refine answers_value hdbUrl fun dbUrl _ => ?_
    refine answers_value hhashUrl fun hashUrl _ => ?_
    exact remoteUpsertFields_answers manager jsonReq path dbUrl hashUrl

end Geo

/-- A route answers exactly when its manager is there and it reads nothing that is not. -/
theorem route_answers_iff {σ : Type} (L : JsonLib) (hL : Spelled L) (M : Managers σ)
    (body : String) (s : σ) (route : Route) :
    Answers ((route.serve L M body).run s) ↔ route.Managed M ∧ route.Reads L body := by
  cases route with
  | managerGet => exact (managerGet_answers_iff hL M.kvdb body).trans (and_iff_left trivial).symm
  | managerPost => exact (managerPost_answers_iff hL M.kvdb body).trans (and_iff_left trivial).symm
  | managerDelete =>
    exact (managerDelete_answers_iff hL M.kvdb body).trans (and_iff_left trivial).symm
  | managerDump => exact managerDump_answers_iff hL "kvdb" M.kvdb body
  | dbGet => exact (dbGet_answers_iff "kvdb" M.kvdb body).trans (and_iff_left trivial).symm
  | dbDelete => exact (dbDelete_answers_iff "kvdb" M.kvdb body).trans (and_iff_left trivial).symm
  | dbPut => exact (dbPut_answers_iff hL "kvdb" M.kvdb body).trans (and_iff_left trivial).symm
  | dbSearch => exact dbSearch_answers_iff hL "kvdb" M.kvdb body
  | addDb => exact (addDb_answers_iff hL M.geo body).trans (and_iff_left trivial).symm
  | delDb => exact (delDb_answers_iff hL M.geo body).trans (and_iff_left trivial).symm
  | listDb => exact (listDb_answers_iff M.geo body).trans (and_iff_left trivial).symm
  | remoteUpsertDb => exact remoteUpsertDb_answers_iff hL M.geo body

section Sample

def pageBody : String := "\x7b\"name\":\"db\",\"page\":2147483648\x7d"

def pageRequest : Json := .obj [("name", .str "db"), ("page", .num (.int 2147483648))]

/-- What rapidjson makes of the schema texts and of `pageBody`. The text of the list schema is also
the body of a request. -/
def sampleParse (text : String) : RespOrError Json :=
  if text = Schemas.Kvdb.DB_GET_REQUEST_SCHEMA then .ok Schemas.Kvdb.dbGet
  else if text = Schemas.Kvdb.DB_SEARCH_REQUEST_SCHEMA then .ok Schemas.Kvdb.dbSearch
  else if text = Schemas.Kvdb.DB_PUT_REQUEST_SCHEMA then .ok Schemas.Kvdb.dbPut
  else if text = Schemas.Kvdb.MANAGER_GET_REQUEST_SCHEMA then .ok Schemas.Kvdb.managerGet
  else if text = Schemas.Kvdb.MANAGER_POST_REQUEST_SCHEMA then .ok Schemas.Kvdb.managerPost
  else if text = Schemas.Kvdb.MANAGER_DELETE_REQUEST_SCHEMA then .ok Schemas.Kvdb.managerDelete
  else if text = Schemas.Kvdb.MANAGER_DUMP_REQUEST_SCHEMA then .ok Schemas.Kvdb.managerDump
  else if text = Schemas.Geo.DB_POST_REQUEST_SCHEMA then .ok Schemas.Geo.dbPost
  else if text = Schemas.Geo.DB_DELETE_REQUEST_SCHEMA then .ok Schemas.Geo.dbDelete
  else if text = Schemas.Geo.DB_LIST_REQUEST_SCHEMA then .ok Schemas.Geo.dbList
  else if text = pageBody then .ok pageRequest
  else .error ⟨"Parse error at offset 0: Invalid value."⟩

def sampleLib : JsonLib where
  rapidjson := { parse := sampleParse, print := fun _ => "null" }
  validator :=
    { admitsInteger := fun
        | .int _ => true
        | .dbl _ => false
      report := fun _ _ => "" }

theorem sample_schema {text : String} {j : Json} (h : sampleParse text = .ok j) :
    sampleLib.schema text = j := by
  unfold JsonLib.schema sampleLib
  simp only [h]

theorem sampleLib_spelled : Spelled sampleLib := by
  constructor
  case geoRemoteUpsert =>
    refine ⟨⟨"Parse error at offset 0: Invalid value."⟩, ?_⟩
    unfold sampleLib
    simp [sampleParse, pageBody, Schemas.Kvdb.DB_GET_REQUEST_SCHEMA,
      Schemas.Kvdb.DB_SEARCH_REQUEST_SCHEMA, Schemas.Kvdb.DB_PUT_REQUEST_SCHEMA,
      Schemas.Kvdb.MANAGER_GET_REQUEST_SCHEMA, Schemas.Kvdb.MANAGER_POST_REQUEST_SCHEMA,
      Schemas.Kvdb.MANAGER_DELETE_REQUEST_SCHEMA, Schemas.Kvdb.MANAGER_DUMP_REQUEST_SCHEMA,
      Schemas.Geo.DB_POST_REQUEST_SCHEMA, Schemas.Geo.DB_DELETE_REQUEST_SCHEMA,
      Schemas.Geo.DB_LIST_REQUEST_SCHEMA, Schemas.Geo.DB_REMOTE_UPSERT_REQUEST_SCHEMA]
  case dbDelete =>
    have hsame : Schemas.Kvdb.DB_DELETE_REQUEST_SCHEMA = Schemas.Kvdb.DB_GET_REQUEST_SCHEMA := by
      unfold Schemas.Kvdb.DB_DELETE_REQUEST_SCHEMA Schemas.Kvdb.DB_GET_REQUEST_SCHEMA
      rfl
    rw [hsame]
    exact sample_schema (if_pos rfl)
  all_goals
    apply sample_schema
    simp [sampleParse, Schemas.Kvdb.DB_GET_REQUEST_SCHEMA,
      Schemas.Kvdb.DB_SEARCH_REQUEST_SCHEMA, Schemas.Kvdb.DB_PUT_REQUEST_SCHEMA,
      Schemas.Kvdb.MANAGER_GET_REQUEST_SCHEMA, Schemas.Kvdb.MANAGER_POST_REQUEST_SCHEMA,
      Schemas.Kvdb.MANAGER_DELETE_REQUEST_SCHEMA, Schemas.Kvdb.MANAGER_DUMP_REQUEST_SCHEMA,
      Schemas.Geo.DB_POST_REQUEST_SCHEMA, Schemas.Geo.DB_DELETE_REQUEST_SCHEMA,
      Schemas.Geo.DB_LIST_REQUEST_SCHEMA]

theorem parse_empty : sampleLib.rapidjson.parse "\x7b\x7d" = .ok (.obj []) := by
  unfold sampleLib
  simp [sampleParse, Schemas.Geo.dbList, Schemas.Kvdb.DB_GET_REQUEST_SCHEMA,
    Schemas.Kvdb.DB_SEARCH_REQUEST_SCHEMA, Schemas.Kvdb.DB_PUT_REQUEST_SCHEMA,
    Schemas.Kvdb.MANAGER_GET_REQUEST_SCHEMA, Schemas.Kvdb.MANAGER_POST_REQUEST_SCHEMA,
    Schemas.Kvdb.MANAGER_DELETE_REQUEST_SCHEMA, Schemas.Kvdb.MANAGER_DUMP_REQUEST_SCHEMA,
    Schemas.Geo.DB_POST_REQUEST_SCHEMA, Schemas.Geo.DB_DELETE_REQUEST_SCHEMA,
      Schemas.Geo.DB_LIST_REQUEST_SCHEMA]

theorem parse_page : sampleLib.rapidjson.parse pageBody = .ok pageRequest := by
  unfold sampleLib
  simp [sampleParse, pageBody, Schemas.Kvdb.DB_GET_REQUEST_SCHEMA,
    Schemas.Kvdb.DB_SEARCH_REQUEST_SCHEMA, Schemas.Kvdb.DB_PUT_REQUEST_SCHEMA,
    Schemas.Kvdb.MANAGER_GET_REQUEST_SCHEMA, Schemas.Kvdb.MANAGER_POST_REQUEST_SCHEMA,
    Schemas.Kvdb.MANAGER_DELETE_REQUEST_SCHEMA, Schemas.Kvdb.MANAGER_DUMP_REQUEST_SCHEMA,
    Schemas.Geo.DB_POST_REQUEST_SCHEMA, Schemas.Geo.DB_DELETE_REQUEST_SCHEMA,
      Schemas.Geo.DB_LIST_REQUEST_SCHEMA]

/-- Managers that answer an error to everything. -/
def refusingManagers : Managers Unit where
  kvdb := some
    { listDBs := fun _ => pure []
      createDB := fun _ => pure (some ⟨"no"⟩)
      createDBFrom := fun _ _ => pure (some ⟨"no"⟩)
      deleteDB := fun _ => pure (some ⟨"no"⟩)
      existsDB := fun _ => pure false
      getKVDBHandler := fun _ _ => pure (.error ⟨"no"⟩) }
  geo := some
    { addDb := fun _ _ => pure (some ⟨"no"⟩)
      removeDb := fun _ => pure (some ⟨"no"⟩)
      listDbs := pure []
      remoteUpsertDb := fun _ _ _ _ => pure (some ⟨"no"⟩) }

/-- The schema of a search refuses a request without a prefix, whose page is not read then; that of
a dump does not. -/
theorem route_answers_page :
    Answers ((Route.dbSearch.serve sampleLib refusingManagers pageBody).run ()) ∧
    ¬ Answers ((Route.managerDump.serve sampleLib refusingManagers pageBody).run ()) := by
  have hiff := route_answers_iff sampleLib sampleLib_spelled refusingManagers pageBody ()
  have hreq : parseRequest sampleLib pageBody = .ok pageRequest :=
    parseRequest_of_parse sampleLib (by simp [pageBody]) (by simp [pageBody]) parse_page
  constructor
  · refine (hiff .dbSearch).mpr ⟨Option.some_ne_none _, fun jsonReq hparsed haccepts => ?_⟩
    cases hreq.symm.trans hparsed
    have hrefused : sampleLib.validator.accepts Schemas.Kvdb.dbSearch pageRequest = false := by
      decide +kernel
    cases haccepts.symm.trans hrefused
  · intro h
    have hfields := ((hiff .managerDump).mp h).2 _ hreq (by decide +kernel)
    have hpage := hfields.1 (.num (.int 2147483648)) rfl
    revert hpage
    decide

/-- An empty object passes the schema of a remote upsert, and a page beyond an `int` that of a
dump. -/
theorem routes_throw :
    ¬ Answers ((Route.remoteUpsertDb.serve sampleLib refusingManagers "\x7b\x7d").run ()) ∧
    ¬ Answers ((Route.managerDump.serve sampleLib refusingManagers pageBody).run ()) := by
  constructor
  · intro h
    have hreq := parseRequest_of_parse sampleLib (by decide) (by simp) parse_empty
    have hpath :=
      ((remoteUpsertDb_answers_iff sampleLib_spelled refusingManagers.geo _).mp h).2 _ hreq "path"
      (by simp)
    cases hpath
  · intro h
    have hreq :=
      parseRequest_of_parse sampleLib (by simp [pageBody]) (by simp [pageBody]) parse_page
    have hanswers := (managerDump_answers_iff sampleLib_spelled "kvdb" refusingManagers.kvdb _).mp h
    have hpage := (hanswers.2 _ hreq (by decide +kernel)).1 (.num (.int 2147483648)) rfl
    revert hpage
    decide

end Sample

end DistroDefender.Api
