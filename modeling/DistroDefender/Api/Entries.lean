import DistroDefender.Api.Kvdb
import DistroDefender.Kvdb.Handler

/-!
# One entry through three routes

`dbGet`, `dbSearch` and `managerDump` decode the same stored texts. Over the handlers of
`Kvdb.Handler` the answers of the three are compared key by key (`endpointsAgree_iff`): what is
valid JSON under a key that is not empty and has no NUL is read alike. A text that is no JSON is an
error to a GET and to a dump, but a null to a search; and a GET asks for its key up to the first NUL
only.
-/

namespace DistroDefender.Api

open Base Lib DistroDefender.Kvdb.Handler DistroDefender.Api.Kvdb

/-! ## The handler and the manager behind the routes -/

/-- The interface of a handler, over the contents of its family. -/
def handlerOver (h : KVDBHandler) (family : Map String String → ColumnFamily)
    (put delete : Except (Option String) Unit) : IKVDBHandler (Map String String) where
  set key value := fun c => h.set put c key value
  remove key := fun c => h.remove delete c key
  get key := fun c => (h.get (family c) key, c)
  dump page records := fun c => (h.dump (family c) page records, c)
  search keyPrefix page records := fun c => (h.search (family c) keyPrefix page records, c)

/-- A manager with the one database `name`. -/
def managerOver (name : String) (handler : IKVDBHandler (Map String String)) :
    IKVDBManager (Map String String) where
  listDBs _ := pure [name]
  createDB _ := pure (some ⟨"not created"⟩)
  createDBFrom _ _ := pure (some ⟨"not created"⟩)
  deleteDB _ := pure (some ⟨"not deleted"⟩)
  existsDB n := pure (n = name)
  getKVDBHandler n _ :=
    pure (if n = name then .ok handler else .error ⟨s!"The DB '{n}' does not exist."⟩)

/-! ## Requests -/

/-- A body that parses, has the schema, and names the database. -/
structure Requests (L : JsonLib) (schema body name : String) (jsonReq : Json) : Prop where
  parsed : parseRequest L body = .ok jsonReq
  accepted : L.validator.accepts (L.schema schema) jsonReq = true
  named : jsonReq.getString ["name"] = some name
  given : name ≠ ""

/-- The body of a GET of the key, whatever characters the key has. -/
def GetRequest (L : JsonLib) (body name key : String) : Prop :=
  ∃ jsonReq, Requests L Schemas.Kvdb.DB_GET_REQUEST_SCHEMA body name jsonReq ∧
    jsonReq.get ["key"] = some (.str key)

/-- The body of a PUT of the value under the key. -/
def PutRequest (L : JsonLib) (body name key : String) (v : Json) : Prop :=
  ∃ jsonReq, Requests L Schemas.Kvdb.DB_PUT_REQUEST_SCHEMA body name jsonReq ∧
    jsonReq.get ["entry", "key"] = some (.str key) ∧ jsonReq.get ["entry", "value"] = some v

/-- A page number as `dbSearch` takes it. -/
def clamped (i : Int32) : UInt32 := if i < 0 then 0 else i.toUInt32

/-- The body of a request that lists a page. -/
inductive ListRequest (L : JsonLib) (body name : String) : KVDBHandler.Listing → UInt32 →
    UInt32 → Prop
  | dump {jsonReq : Json} {page_t records_t : Int32}
      (h : Requests L Schemas.Kvdb.MANAGER_DUMP_REQUEST_SCHEMA body name jsonReq)
      (hpage : int32Field jsonReq ["page"] DEFAULT_HANDLER_PAGE = .ok page_t)
      (hrecords : int32Field jsonReq ["records"] DEFAULT_HANDLER_RECORDS = .ok records_t)
      (hpos : ¬ page_t ≤ 0) (hpos' : ¬ records_t ≤ 0) :
      ListRequest L body name .dump page_t.toUInt32 records_t.toUInt32
  | search {jsonReq : Json} {page_t records_t : Int32} {keyPrefix : String}
      (h : Requests L Schemas.Kvdb.DB_SEARCH_REQUEST_SCHEMA body name jsonReq)
      (hpage : int32Field jsonReq ["page"] DEFAULT_HANDLER_PAGE = .ok page_t)
      (hrecords : int32Field jsonReq ["records"] DEFAULT_HANDLER_RECORDS = .ok records_t)
      (hsearched : jsonReq.getString ["prefix"] = some keyPrefix) (hgiven : keyPrefix ≠ "") :
      ListRequest L body name (.search keyPrefix) (clamped page_t) (clamped records_t)

/-- The route that lists. -/
def listRoute (L : JsonLib) (m : IKVDBManager (Map String String)) (body : String) :
    KVDBHandler.Listing → Call (Map String String) Response
  | .dump => managerDump L "kvdb" (some m) body
  | .search _ => dbSearch L "kvdb" (some m) body

/-! ## What a route answers -/

section Runs

variable {L : JsonLib} {name body key : String} {handler : IKVDBHandler (Map String String)}
  {c : Map String String}

theorem run_parseWith {σ μ : Type} {schema : String} {jsonReq : Json} {m : μ}
    {route : μ → Json → Call σ Response} (hreq : Requests L schema body name jsonReq) (s : σ) :
    (parseWith L (L.schema schema) (some m) body route).run s = (route m jsonReq).run s := by
  unfold parseWith getReqAndHandler SchemaValidator.validate
  simp only [hreq.parsed, hreq.accepted, if_true]

theorem nonEmpty_ok {jsonReq : Json} {path : Pointer} {message text : String}
    (h : jsonReq.getString path = some text) (hne : text ≠ "") :
    nonEmpty jsonReq path message = .ok text := by
  unfold nonEmpty
  rw [h]
  simp only [value_some, bind, Except.bind, if_neg hne]
  rfl

theorem nonEmpty_empty {jsonReq : Json} {path : Pointer} {message : String}
    (h : jsonReq.getString path = some "") :
    nonEmpty jsonReq path message = .error (.runtimeError message) := by
  unfold nonEmpty
  rw [h]
  rfl

theorem nameAnd_ok {jsonReq : Json} {path : Pointer} {message text : String}
    (hname : jsonReq.getString ["name"] = some name) (hgiven : name ≠ "")
    (h : jsonReq.getString path = some text) (hne : text ≠ "") :
    nameAnd jsonReq path message = .ok (name, text) := by
  unfold nameAnd
  rw [nonEmpty_ok hname hgiven, nonEmpty_ok h hne]
  rfl

theorem nameAnd_empty {jsonReq : Json} {path : Pointer} {message : String}
    (hname : jsonReq.getString ["name"] = some name) (hgiven : name ≠ "")
    (h : jsonReq.getString path = some "") :
    nameAnd jsonReq path message = .error (.runtimeError message) := by
  unfold nameAnd
  rw [nonEmpty_ok hname hgiven, nonEmpty_empty h]
  rfl

theorem run_withHandler
    (work : IKVDBHandler (Map String String) → Call (Map String String) Response) :
    (withHandler (managerOver name handler) "kvdb" name work).run c = (work handler).run c := by
  have hthere : (managerOver name handler).existsDB name = pure true := by
    unfold managerOver
    simp
  have hgiven : (managerOver name handler).getKVDBHandler name "kvdb" = pure (.ok handler) := by
    unfold managerOver
    simp
  unfold withHandler
  rw [EStateM.run_bind, run_ask, hthere]
  show EStateM.run (ask ((managerOver name handler).getKVDBHandler name "kvdb") >>= _) c = _
  rw [EStateM.run_bind, run_ask, hgiven]
  rfl

/-- The handlers read a string up to its first NUL. -/
theorem getString_of_get {jsonReq : Json} {path : Pointer}
    (h : jsonReq.get path = some (.str key)) : jsonReq.getString path = some (cstr key) :=
  Json.getString_some_iff.mpr ⟨key, h, rfl⟩

theorem orUserError_ok {σ α : Type} {x : Except Throw α} {a : α} {k : α → Call σ Response}
    (h : x = .ok a) : orUserError x k = k a := by
  rw [h]
  rfl

/-- A GET of a key that does not begin with a NUL is answered with what is stored under the key up
to its first NUL. -/
theorem run_dbGet (hreq : GetRequest L body name key) (hkey : cstr key ≠ "") :
    (dbGet L "kvdb" (some (managerOver name handler)) body).run c =
      .ok (getAnswer L ((handler.get (cstr key)).run c).1) ((handler.get (cstr key)).run c).2 := by
  obtain ⟨jsonReq, hreq, hgetKey⟩ := hreq
  have hnamed : nameAnd jsonReq ["key"] MESSAGE_KEY_EMPTY = .ok (name, cstr key) :=
    nameAnd_ok hreq.named hreq.given (getString_of_get hgetKey) hkey
  unfold dbGet
  rw [run_parseWith hreq, orUserError_ok hnamed]
  exact run_withHandler _

/-- A GET of the empty key is refused. -/
theorem run_dbGet_empty (hreq : GetRequest L body name key) (hkey : cstr key = "") :
    (dbGet L "kvdb" (some (managerOver name handler)) body).run c =
      .ok (userErrorResponse MESSAGE_KEY_EMPTY) c := by
  obtain ⟨jsonReq, hreq, hgetKey⟩ := hreq
  have hread := getString_of_get hgetKey
  rw [hkey] at hread
  unfold dbGet
  rw [run_parseWith hreq, nameAnd_empty hreq.named hreq.given hread]
  rfl

/-- What the listing route makes of the answer of the handler. -/
def listAnswer (L : JsonLib) : KVDBHandler.Listing → RespOrError (List (String × String)) → Response
  | .dump => dumpAnswer L
  | .search _ => searchAnswer L

/-- The page is asked of the handler as the request says. -/
def askPage (handler : IKVDBHandler (Map String String)) (page records : UInt32) :
    KVDBHandler.Listing → StateM (Map String String) (RespOrError (List (String × String)))
  | .dump => handler.dump page records
  | .search keyPrefix => handler.search keyPrefix page records

theorem run_listRoute {q : KVDBHandler.Listing} {page records : UInt32}
    (hreq : ListRequest L body name q page records) :
    (listRoute L (managerOver name handler) body q).run c =
      .ok (listAnswer L q ((askPage handler page records q).run c).1)
        ((askPage handler page records q).run c).2 := by
  cases hreq with
  | dump h hpage hrecords hpos hpos' =>
    unfold listRoute managerDump
    rw [run_parseWith h, hpage, hrecords]
    show (dumpPage L (managerOver name handler) "kvdb" _ _ _).run c = _
    unfold dumpPage
    rw [if_neg hpos]
    simp only [if_neg hpos']
    rw [orUserError_ok (nonEmpty_ok h.named h.given)]
    exact run_withHandler _
  | search h hpage hrecords hsearched hgiven =>
    unfold listRoute dbSearch
    rw [run_parseWith h, hpage, hrecords]
    show (searchPage L (managerOver name handler) "kvdb" _ _ _).run c = _
    unfold searchPage
    rw [orUserError_ok (nameAnd_ok h.named h.given hsearched hgiven)]
    exact run_withHandler _

/-- A PUT asks the handler, unless the key or the printed value is empty. -/
theorem run_dbPut {v : Json} (hreq : PutRequest L body name key v) :
    (dbPut L "kvdb" (some (managerOver name handler)) body).run c =
      if cstr key = "" then .ok (userErrorResponse MESSAGE_KEY_EMPTY) c
      else if L.rapidjson.print v = "" then .ok (userErrorResponse "Field /value is empty") c
      else .ok (reportError ((handler.set (cstr key) (L.rapidjson.print v)).run c).1)
        ((handler.set (cstr key) (L.rapidjson.print v)).run c).2 := by
  obtain ⟨jsonReq, hreq, hputKey, hputValue⟩ := hreq
  have hexists : jsonReq.existsAt ["entry", "key"] = true := by
    unfold Json.existsAt
    rw [hputKey]
    rfl
  have hvalue : jsonReq.existsAt ["entry", "value"] = true := by
    unfold Json.existsAt
    rw [hputValue]
    rfl
  have hchecks : putChecks jsonReq = .ok name := by
    unfold putChecks
    rw [nonEmpty_ok hreq.named hreq.given]
    simp only [bind, Except.bind, hexists, hvalue]
    rfl
  unfold dbPut
  rw [run_parseWith hreq, orUserError_ok hchecks, getString_of_get hputKey, hputValue]
  simp only [value_some]
  show (if cstr key = "" then _ else _ : Call (Map String String) Response).run c = _
  by_cases hkey : cstr key = ""
  · rw [if_pos hkey, if_pos hkey]
    rfl
  rw [if_neg hkey, if_neg hkey]
  by_cases hprint : L.rapidjson.print v = ""
  · simp only [if_pos hprint]
    rfl
  simp only [if_neg hprint]
  exact run_withHandler _

end Runs

/-! ## The content of an answer -/

section Content

variable {L : JsonLib}

/-- The content of an answer that lists entries. -/
def entriesJson (xs : List Json) : Json :=
  .obj [("status", ReturnStatus.OK.toJson), ("entries", .arr xs)]

theorem entriesJson_nil : okStatus.set ["entries"] (.arr []) = entriesJson [] := by
  rfl

theorem appendJson_entriesJson (xs : List Json) (v : Json) :
    (entriesJson xs).appendJson ["entries"] v = entriesJson (xs ++ [v]) := by
  rfl

/-- The entry a stored one is listed as. -/
def decoded (L : JsonLib) (e : String × String) : Json := entryJson e.1 (L.rapidjson.document e.2)

/-- The text is JSON. -/
def Valid (L : JsonLib) (text : String) : Prop := ∃ j, L.rapidjson.parse (cstr text) = .ok j

theorem document_of_parse {text : String} {j : Json} (h : L.rapidjson.parse (cstr text) = .ok j) :
    L.rapidjson.document text = j := by
  unfold Rapidjson.document
  rw [h]

theorem foldl_decoded (l : List (String × String)) (xs : List Json) :
    l.foldl (fun resJson e => resJson.appendJson ["entries"]
      (entryJson e.1 (L.rapidjson.document e.2)))
        (entriesJson xs) =
      entriesJson (xs ++ l.map (decoded L)) := by
  induction l generalizing xs with
  | nil => simp
  | cons e l ih =>
    rw [List.foldl_cons, appendJson_entriesJson, ih, List.map_cons, List.append_assoc]
    rfl

theorem dumpEntries_of_valid {l : List (String × String)} (h : ∀ e ∈ l, Valid L e.2)
    (xs : List Json) :
    dumpEntries L l (entriesJson xs) = .ok (entriesJson (xs ++ l.map (decoded L))) := by
  induction l generalizing xs with
  | nil => simp [dumpEntries]
  | cons e l ih =>
    obtain ⟨key, value⟩ := e
    obtain ⟨j, hj⟩ := h (key, value) List.mem_cons_self
    have hdecoded : decoded L (key, value) = entryJson key j := by
      unfold decoded
      rw [document_of_parse hj]
    unfold dumpEntries
    simp only [hj]
    rw [appendJson_entriesJson, ih (fun e he => h e (List.mem_cons_of_mem _ he)), List.map_cons,
      hdecoded, List.append_assoc]
    rfl

theorem dumpEntries_of_invalid {l : List (String × String)} {e : String × String} (he : e ∈ l)
    (h : ¬ Valid L e.2) (resJson : Json) :
    ∃ message, dumpEntries L l resJson = .error (userErrorResponse message) := by
  induction l generalizing resJson with
  | nil => cases he
  | cons e' l ih =>
    obtain ⟨key, value⟩ := e'
    unfold dumpEntries
    cases hparse : L.rapidjson.parse (cstr value) with
    | error err => exact ⟨_, rfl⟩
    | ok j =>
      simp only
      rcases List.mem_cons.mp he with rfl | hrest
      · exact absurd ⟨j, hparse⟩ h
      · exact ih hrest _

/-- The listing answers OK unless it is a dump that meets a text that is no JSON. -/
theorem listAnswer_ok {q : KVDBHandler.Listing} {l : List (String × String)}
    (h : q = .dump → ∀ e ∈ l, Valid L e.2) :
    listAnswer L q (.ok l) = userResponse (entriesJson (l.map (decoded L))) := by
  cases q with
  | dump =>
    show dumpAnswer L (.ok l) = _
    unfold dumpAnswer
    rw [entriesJson_nil]
    simp only [dumpEntries_of_valid (h rfl), List.nil_append]
  | search keyPrefix =>
    show searchAnswer L (.ok l) = _
    unfold searchAnswer
    rw [entriesJson_nil]
    simp only [foldl_decoded, List.nil_append]

theorem listAnswer_invalid {l : List (String × String)} {e : String × String} (he : e ∈ l)
    (h : ¬ Valid L e.2) : ∃ message, listAnswer L .dump (.ok l) = userErrorResponse message := by
  show ∃ message, dumpAnswer L (.ok l) = _
  unfold dumpAnswer
  obtain ⟨message, hm⟩ := dumpEntries_of_invalid he h (okStatus.set ["entries"] (.arr []))
  simp only [hm]
  exact ⟨message, rfl⟩

/-- The answer lists the value under the key. -/
def Lists (res : Response) (key : String) (v : Json) : Prop :=
  ∃ xs, res.content.get ["entries"] = some (.arr xs) ∧ entryJson key v ∈ xs

/-- The answer is OK and carries the value. -/
def Carries (res : Response) (v : Json) : Prop := res.status = .OK_200 ∧
  res.content.get ["value"] = some v

theorem entryJson_inj {key key' : String} {v v' : Json} (h : entryJson key v = entryJson key' v') :
    key = key' ∧ v = v' := by
  have hobj : Json.obj [("key", .str key), ("value", v)] =
      .obj [("key", .str key'), ("value", v')] := h
  simpa using hobj

theorem lists_entriesJson {l : List (String × String)} {key : String} {v : Json} :
    Lists (userResponse (entriesJson (l.map (decoded L)))) key v ↔
      ∃ text, (key, text) ∈ l ∧ v = L.rapidjson.document text := by
  have hget : (entriesJson (l.map (decoded L))).get ["entries"] =
      some (.arr (l.map (decoded L))) := by rfl
  constructor
  · rintro ⟨xs, hxs, hmem⟩
    cases hget.symm.trans hxs
    obtain ⟨⟨key', text⟩, he, heq⟩ := List.mem_map.mp hmem
    obtain ⟨rfl, rfl⟩ := entryJson_inj heq
    exact ⟨text, he, rfl⟩
  · rintro ⟨text, he, rfl⟩
    exact ⟨_, hget, List.mem_map.mpr ⟨(key, text), he, rfl⟩⟩

theorem carries_getAnswer {a : RespOrError String} {v : Json} :
    Carries (getAnswer L a) v ↔ ∃ text, a = .ok text ∧ L.rapidjson.parse (cstr text) = .ok v := by
  unfold getAnswer
  cases a with
  | error err =>
    refine iff_of_false ?_ (by simp)
    rintro ⟨h, -⟩
    cases h
  | ok text =>
    cases hparse : L.rapidjson.parse (cstr text) with
    | error err =>
      refine iff_of_false ?_ (by simp [hparse])
      simp only [hparse]
      rintro ⟨h, -⟩
      cases h
    | ok j =>
      simp only [hparse, document_of_parse hparse]
      constructor
      · rintro ⟨-, hv⟩
        cases hv
        exact ⟨text, rfl, hparse⟩
      · rintro ⟨text', ht, hv⟩
        cases ht
        cases hparse.symm.trans hv
        exact ⟨rfl, rfl⟩

end Content

/-! ## The three routes agree -/

/-- The entries on the page, with its bounds as they are computed. -/
def onPage (q : KVDBHandler.Listing) (c : Map String String) (page records : UInt32) :
    List (String × String) :=
  window (q.entries c) (KVDBHandler.fromRecords page records).toNat
    (KVDBHandler.toRecords page records).toNat

/-- The route answered OK. -/
def Succeeds (r : EStateM.Result Throw (Map String String) Response) : Prop :=
  ∃ res c, r = .ok res c ∧ res.status = .OK_200

/-- The listing, the GET and the PUT of a key agree, on the contents `c`: what is listed is what a
GET answers, a text that is no JSON is an error to both or to none, and after a PUT the GET answers
the value that was put (where rapidjson reads back what it printed). -/
structure EndpointsAgree (L : JsonLib) (m : IKVDBManager (Map String String))
    (c : Map String String) (name key getBody listBody : String) (q : KVDBHandler.Listing)
    (page records : UInt32) : Prop where
  same : ∀ res c' v, (listRoute L m listBody q).run c = .ok res c' → res.status = .OK_200 →
    Lists res key v →
    ∃ res' c'', (dbGet L "kvdb" (some m) getBody).run c = .ok res' c'' ∧ Carries res' v
  invalid : ∀ text, (key, text) ∈ onPage q c page records → ¬ Valid L text →
    (Succeeds ((listRoute L m listBody q).run c) ↔
      Succeeds ((dbGet L "kvdb" (some m) getBody).run c))
  put : ∀ putBody v res c', PutRequest L putBody name key v →
    L.rapidjson.parse (cstr (L.rapidjson.print v)) = .ok v →
    (dbPut L "kvdb" (some m) putBody).run c = .ok res c' → res.status = .OK_200 →
    ∃ res' c'', (dbGet L "kvdb" (some m) getBody).run c' = .ok res' c'' ∧ Carries res' v

/-- A GET of the key finds JSON: it asks for the key up to its first NUL. -/
def Readable (L : JsonLib) (c : Map String String) (key : String) : Prop :=
  cstr key ≠ "" ∧ ∃ text, c.lookup (cstr key) = some text ∧ Valid L text

/-- A GET of the key reads the document that a listing makes of the text under the key. -/
def ReadAlike (L : JsonLib) (c : Map String String) (key : String) : Prop :=
  cstr key ≠ "" ∧ ∀ text, c.lookup key = some text →
    ∃ text', c.lookup (cstr key) = some text' ∧
      L.rapidjson.parse (cstr text') = .ok (L.rapidjson.document text)

/-- A key without a NUL is read alike where it is not empty and its text is JSON. -/
theorem readAlike_iff {L : JsonLib} {c : Map String String} {key : String}
    (hnul : Char.ofNat 0 ∉ key.toList) :
    ReadAlike L c key ↔ key ≠ "" ∧ ∀ text, c.lookup key = some text → Valid L text := by
  unfold ReadAlike
  rw [cstr_of_not_mem hnul]
  refine and_congr_right fun _ => forall₂_congr fun text htext => ?_
  constructor
  · rintro ⟨text', htext', hparse⟩
    cases htext.symm.trans htext'
    exact ⟨_, hparse⟩
  · rintro ⟨j, hj⟩
    refine ⟨text, htext, ?_⟩
    rw [document_of_parse hj]
    exact hj

/-- The listing is a dump, and some text on its page is no JSON. -/
def DumpFails (L : JsonLib) (q : KVDBHandler.Listing) (c : Map String String)
    (page records : UInt32) : Prop :=
  q = .dump ∧ ∃ e ∈ onPage q c page records, ¬ Valid L e.2

section Agree

variable {L : JsonLib} {name key getBody listBody : String} {h : KVDBHandler}
  {family : Map String String → ColumnFamily} {put delete : Except (Option String) Unit}
  {c : Map String String} {q : KVDBHandler.Listing} {page records : UInt32}

theorem succeeds_ok {res : Response} : Succeeds (.ok res c) ↔ res.status = .OK_200 := by
  unfold Succeeds
  constructor
  · rintro ⟨res', c', heq, hstatus⟩
    cases heq
    exact hstatus
  · intro hstatus
    exact ⟨res, c, rfl, hstatus⟩

/-- The page is on the answer of the handler. -/
theorem askPage_eq (hcf : ∀ c, (family c).Holds c) :
    (askPage (handlerOver h family put delete) page records q).run c =
      (h.locked (.ok (onPage q c page records)), c) := by
  unfold onPage
  rw [← q.page_eq h (hcf c)]
  cases q <;> rfl

theorem get_eq (hcf : ∀ c, (family c).Holds c) (key : String) :
    ((handlerOver h family put delete).get key).run c =
      (h.locked (match c.lookup key with
        | some value => .ok value
        | none => .error (KVDBHandler.keyNotFound key)), c) := by
  show (h.get (family c) key, c) = _
  unfold KVDBHandler.get
  rw [(hcf c).get]
  cases c.lookup key <;> rfl

/-- The answer to a list request. -/
theorem list_run (hcf : ∀ c, (family c).Holds c)
    (hlist : ListRequest L listBody name q page records) :
    (listRoute L (managerOver name (handlerOver h family put delete)) listBody q).run c =
      .ok (listAnswer L q (h.locked (.ok (onPage q c page records)))) c := by
  rw [run_listRoute hlist, askPage_eq hcf]

/-- The answer to a GET of a key that is not empty. -/
theorem get_run (hcf : ∀ c, (family c).Holds c) (hget : GetRequest L getBody name key)
    (hkey : cstr key ≠ "") :
    (dbGet L "kvdb" (some (managerOver name (handlerOver h family put delete))) getBody).run c =
      .ok (getAnswer L (h.locked (match c.lookup (cstr key) with
        | some value => .ok value
        | none => .error (KVDBHandler.keyNotFound (cstr key))))) c := by
  rw [run_dbGet hget hkey, get_eq hcf]

theorem mem_onPage {text : String} (hmem : (key, text) ∈ onPage q c page records) :
    c.lookup key = some text :=
  mem_inKeyOrder.mp (List.mem_filter.mp (mem_of_mem_window hmem)).1

theorem listAnswer_error (err : Error) :
    listAnswer L q (.error err) = userErrorResponse err.message := by
  cases q <;> rfl

theorem reportError_ok {e : OptError} : (reportError e).status = .OK_200 ↔ e = none := by
  cases e with
  | none => exact iff_of_true rfl rfl
  | some err => exact iff_of_false nofun nofun

theorem getAnswer_ok {a : RespOrError String} : (getAnswer L a).status = .OK_200 ↔
    ∃ v, Carries (getAnswer L a) v := by
  constructor
  · intro hok
    unfold getAnswer at hok
    cases a with
    | error err => cases hok
    | ok text =>
      cases hparse : L.rapidjson.parse (cstr text) with
      | error err =>
        simp only [hparse] at hok
        cases hok
      | ok j => exact ⟨j, carries_getAnswer.mpr ⟨text, rfl, hparse⟩⟩
  · rintro ⟨v, hok, -⟩
    exact hok

theorem not_succeeds_userError (message : String) :
    ¬ Succeeds (.ok (userErrorResponse message) c) := by
  rw [succeeds_ok]
  nofun

/-- After a PUT that succeeded, the value is what a GET answers. -/
theorem put_get (hcf : ∀ c, (family c).Holds c) (hget : GetRequest L getBody name key)
    {putBody : String} {v : Json} {res : Response} {c' : Map String String}
    (hput : PutRequest L putBody name key v)
    (hround : L.rapidjson.parse (cstr (L.rapidjson.print v)) = .ok v)
    (hrun : (dbPut L "kvdb" (some (managerOver name (handlerOver h family put delete))) putBody).run
      c = .ok res c')
    (hok : res.status = .OK_200) :
    ∃ res' c'', (dbGet L "kvdb"
      (some (managerOver name (handlerOver h family put delete))) getBody).run c' =
      .ok res' c'' ∧ Carries res' v := by
  rw [run_dbPut hput] at hrun
  split at hrun
  · cases hrun
    cases hok
  rename_i hkey
  split at hrun
  · cases hrun
    cases hok
  have hset : ((handlerOver h family put delete).set (cstr key) (L.rapidjson.print v)).run c =
      h.set put c (cstr key) (L.rapidjson.print v) := rfl
  rw [hset] at hrun
  cases hrun
  obtain ⟨hl, hwritten⟩ := KVDBHandler.set_written (reportError_ok.mp hok)
  rw [hwritten]
  refine ⟨_, _, get_run hcf hget hkey, carries_getAnswer.mpr ⟨L.rapidjson.print v, ?_, hround⟩⟩
  rw [KVDBHandler.locked_of_live hl, AList.lookup_insert]

/-- The listing answers OK where a handler is there, unless it is a dump that meets a text that is
no JSON. -/
theorem list_succeeds_iff (hcf : ∀ c, (family c).Holds c)
    (hlist : ListRequest L listBody name q page records) :
    Succeeds ((listRoute L (managerOver name (handlerOver h family put delete)) listBody q).run c) ↔
      h.Live ∧ (q = .dump → ∀ e ∈ onPage q c page records, Valid L e.2) := by
  rw [list_run hcf hlist]
  by_cases hl : h.Live
  · rw [KVDBHandler.locked_of_live hl]
    by_cases hvalid : q = .dump → ∀ e ∈ onPage q c page records, Valid L e.2
    · rw [listAnswer_ok hvalid, succeeds_ok]
      exact iff_of_true rfl ⟨hl, hvalid⟩
    · refine iff_of_false ?_ fun h => hvalid h.2
      push Not at hvalid
      obtain ⟨rfl, e, he, hinvalid⟩ := hvalid
      obtain ⟨message, hm⟩ := listAnswer_invalid he hinvalid
      rw [hm]
      exact not_succeeds_userError message
  · obtain ⟨err, herr, -⟩ := KVDBHandler.locked_of_not_live hl (.ok (onPage q c page records)) ""
    rw [herr, listAnswer_error]
    exact iff_of_false (not_succeeds_userError _) fun h => hl h.1

/-- What a listing that answers OK lists is on the page. -/
theorem listed (key : String) (hcf : ∀ c, (family c).Holds c)
    (hlist : ListRequest L listBody name q page records) (hok : Succeeds
      ((listRoute L (managerOver name (handlerOver h family put delete)) listBody q).run c)) :
    ∃ res, (listRoute L (managerOver name (handlerOver h family put delete)) listBody q).run c =
      .ok res c ∧ ∀ v, Lists res key v ↔
        ∃ text, (key, text) ∈ onPage q c page records ∧ v = L.rapidjson.document text := by
  obtain ⟨hl, hvalid⟩ := (list_succeeds_iff hcf hlist).mp hok
  refine ⟨_, list_run hcf hlist, fun v => ?_⟩
  rw [KVDBHandler.locked_of_live hl, listAnswer_ok hvalid]
  exact lists_entriesJson

/-- What a GET of a key carries. -/
theorem get_carries_iff (hcf : ∀ c, (family c).Holds c) (hget : GetRequest L getBody name key)
    (v : Json) :
    (∃ res c', (dbGet L "kvdb"
      (some (managerOver name (handlerOver h family put delete))) getBody).run c =
      .ok res c' ∧ Carries res v) ↔
      h.Live ∧ cstr key ≠ "" ∧
        ∃ text, c.lookup (cstr key) = some text ∧ L.rapidjson.parse (cstr text) = .ok v := by
  by_cases hkey : cstr key = ""
  · refine iff_of_false ?_ fun hall => hall.2.1 hkey
    rintro ⟨res, c', hrun, hcarries, -⟩
    rw [run_dbGet_empty hget hkey] at hrun
    cases hrun
    cases hcarries
  rw [get_run hcf hget hkey]
  by_cases hl : h.Live
  · rw [KVDBHandler.locked_of_live hl]
    constructor
    · rintro ⟨res, c', heq, hcarries⟩
      cases heq
      obtain ⟨text, ht, hparse⟩ := carries_getAnswer.mp hcarries
      cases hlookup : c.lookup (cstr key) with
      | none =>
        rw [hlookup] at ht
        cases ht
      | some value =>
        rw [hlookup] at ht
        cases ht
        exact ⟨hl, hkey, text, rfl, hparse⟩
    · rintro ⟨-, -, text, htext, hparse⟩
      refine ⟨_, _, rfl, carries_getAnswer.mpr ⟨text, ?_, hparse⟩⟩
      rw [htext]
  · obtain ⟨err, herr, -⟩ := KVDBHandler.locked_of_not_live hl (match c.lookup (cstr key) with
      | some value => .ok value
      | none => .error (KVDBHandler.keyNotFound (cstr key))) ""
    refine iff_of_false ?_ fun hall => hl hall.1
    rintro ⟨res, c', heq, hcarries⟩
    cases heq
    obtain ⟨text, ht, -⟩ := carries_getAnswer.mp hcarries
    cases herr.symm.trans ht

/-- A GET that answers OK carries a value. -/
theorem get_succeeds_iff (hcf : ∀ c, (family c).Holds c) (hget : GetRequest L getBody name key) :
    Succeeds ((dbGet L "kvdb"
      (some (managerOver name (handlerOver h family put delete))) getBody).run c) ↔
      h.Live ∧ Readable L c key := by
  constructor
  · intro hok
    by_cases hkey : cstr key = ""
    · rw [run_dbGet_empty hget hkey] at hok
      exact absurd hok (not_succeeds_userError _)
    rw [get_run hcf hget hkey, succeeds_ok] at hok
    obtain ⟨v, hv⟩ := getAnswer_ok.mp hok
    have hcarries : ∃ res c',
        (dbGet L "kvdb" (some (managerOver name (handlerOver h family put delete))) getBody).run c =
          .ok res c' ∧ Carries res v := ⟨_, _, get_run hcf hget hkey, hv⟩
    obtain ⟨hl, -, text, htext, hparse⟩ := (get_carries_iff hcf hget v).mp hcarries
    exact ⟨hl, hkey, text, htext, v, hparse⟩
  · rintro ⟨hl, hkey, text, htext, v, hparse⟩
    obtain ⟨res, c', hrun, hcarries⟩ :=
      (get_carries_iff hcf hget v).mpr ⟨hl, hkey, text, htext, hparse⟩
    rw [hrun]
    exact ⟨res, c', rfl, hcarries.1⟩

/-- The routes agree about a key exactly where nothing can be read, the key is not on the page, the
dump fails and a GET of the key fails where the key's own text is no JSON, or the dump does not fail
and the text is read alike. -/
theorem endpointsAgree_iff (L : JsonLib) (name key getBody listBody : String) (h : KVDBHandler)
    (family : Map String String → ColumnFamily) (put delete : Except (Option String) Unit)
    (c : Map String String) (q : KVDBHandler.Listing) (page records : UInt32)
    (hcf : ∀ c, (family c).Holds c) (hget : GetRequest L getBody name key)
    (hlist : ListRequest L listBody name q page records) :
    EndpointsAgree L (managerOver name (handlerOver h family put delete)) c name key getBody
      listBody q page records ↔
      ¬ h.Live ∨ (∀ text, (key, text) ∉ onPage q c page records) ∨
      (DumpFails L q c page records ∧
        ∀ text, (key, text) ∈ onPage q c page records → ¬ Valid L text → ¬ Readable L c key) ∨
      (¬ DumpFails L q c page records ∧ ReadAlike L c key) := by
  constructor
  · intro hagree
    by_contra hnone
    push Not at hnone
    obtain ⟨hl, ⟨text, hmem⟩, hfail, hbad⟩ := hnone
    have hdump : ¬ DumpFails L q c page records := by
      -- a dump that fails is an error to the GET as well
      intro hdump
      obtain ⟨text', hmem', hinvalid, hread⟩ := hfail hdump
      have hget' : Succeeds
          ((dbGet L "kvdb" (some (managerOver name (handlerOver h family put delete))) getBody).run
            c) :=
        (get_succeeds_iff hcf hget).mpr ⟨hl, hread⟩
      have hlisted := (hagree.invalid text' hmem' hinvalid).mpr hget'
      exact hinvalid (((list_succeeds_iff hcf hlist).mp hlisted).2 hdump.1 _ hmem')
    have hvalid : q = .dump → ∀ e ∈ onPage q c page records, Valid L e.2 := by
      intro hq e he
      by_contra hinvalid
      exact hdump ⟨hq, e, he, hinvalid⟩
    have hok : Succeeds
        ((listRoute L (managerOver name (handlerOver h family put delete)) listBody q).run c) :=
      (list_succeeds_iff hcf hlist).mpr ⟨hl, hvalid⟩
    -- what is listed is what a GET answers
    obtain ⟨res, hrun, hlists⟩ := listed key hcf hlist hok
    have hstatus := hok
    rw [hrun, succeeds_ok] at hstatus
    have hcarries := hagree.same res c _ hrun hstatus ((hlists _).mpr ⟨text, hmem, rfl⟩)
    obtain ⟨-, hkey, text', htext', hparse⟩ := (get_carries_iff hcf hget _).mp hcarries
    refine hbad hdump ⟨hkey, fun text₁ h₁ => ?_⟩
    cases (mem_onPage hmem).symm.trans h₁
    exact ⟨text', htext', hparse⟩
  · intro hcases
    refine ⟨?_, ?_, fun putBody v res c' hput hround hrun hok =>
      put_get hcf hget hput hround hrun hok⟩
    · intro res c' v hrun hstatus hlists
      have hok : Succeeds
          ((listRoute L (managerOver name (handlerOver h family put delete)) listBody q).run c) :=
        ⟨res, c', hrun, hstatus⟩
      obtain ⟨hl, hvalid⟩ := (list_succeeds_iff hcf hlist).mp hok
      obtain ⟨res', hrun', hlisted⟩ := listed key hcf hlist hok
      cases hrun.symm.trans hrun'
      obtain ⟨text, hmem, rfl⟩ := (hlisted v).mp hlists
      rcases hcases with hdead | hoff | ⟨⟨hq, e, he, hinvalid⟩, -⟩ | ⟨-, hkey, halike⟩
      · exact absurd hl hdead
      · exact absurd hmem (hoff text)
      · exact absurd (hvalid hq e he) hinvalid
      · exact (get_carries_iff hcf hget _).mpr ⟨hl, hkey, halike text (mem_onPage hmem)⟩
    · intro text hmem hinvalid
      rw [list_succeeds_iff hcf hlist, get_succeeds_iff hcf hget]
      rcases hcases with hdead | hoff | ⟨hdump, hfail⟩ | ⟨hdump, hkey, halike⟩
      · exact iff_of_false (fun hall => hdead hall.1) fun hall => hdead hall.1
      · exact absurd hmem (hoff text)
      · refine iff_of_false (fun hall => hinvalid (hall.2 hdump.1 _ hmem)) fun hall => ?_
        exact hfail text hmem hinvalid hall.2
      · -- a search lists the null that the GET answers
        obtain ⟨text', htext', hparse⟩ := halike text (mem_onPage hmem)
        refine and_congr_right fun _ => iff_of_true (fun hq => ?_) ⟨hkey, text', htext', _, hparse⟩
        exact absurd ⟨hq, _, hmem, hinvalid⟩ hdump

end Agree

section Sample

def getBody : String := "\x7b\"name\":\"db\",\"key\":\"key\"\x7d"

def getRequest : Json := .obj [("name", .str "db"), ("key", .str "key")]

def searchBody : String := "\x7b\"name\":\"db\",\"prefix\":\"k\"\x7d"

def searchRequest : Json := .obj [("name", .str "db"), ("prefix", .str "k")]

/-- What rapidjson makes of the two bodies, of their schemas, of `1` and of the empty text. -/
def entriesParse (text : String) : RespOrError Json :=
  if text = Schemas.Kvdb.DB_GET_REQUEST_SCHEMA then .ok Schemas.Kvdb.dbGet
  else if text = Schemas.Kvdb.DB_SEARCH_REQUEST_SCHEMA then .ok Schemas.Kvdb.dbSearch
  else if text = getBody then .ok getRequest
  else if text = searchBody then .ok searchRequest
  else if text = "1" then .ok (.num (.int 1))
  else .error ⟨"Parse error at offset 0: The document is empty."⟩

def entriesLib : JsonLib where
  rapidjson :=
    { parse := entriesParse
      print := fun
        | .num (.int 1) => "1"
        | _ => "null" }
  validator :=
    { admitsInteger := fun
        | .int _ => true
        | .dbl _ => false
      report := fun _ _ => "" }

theorem entriesLib_schema {text : String} {j : Json} (hparse : entriesParse text = .ok j) :
    entriesLib.schema text = j := by
  unfold JsonLib.schema entriesLib
  simp only [hparse]

theorem getBody_request : GetRequest entriesLib getBody "db" "key" := by
  have hparse : entriesLib.rapidjson.parse getBody = .ok getRequest := by
    unfold entriesLib
    simp [entriesParse, getBody, Schemas.Kvdb.DB_GET_REQUEST_SCHEMA,
      Schemas.Kvdb.DB_SEARCH_REQUEST_SCHEMA]
  have hparsed : parseRequest entriesLib getBody = .ok getRequest :=
    parseRequest_of_parse entriesLib (by simp [getBody]) (by simp [getBody]) hparse
  refine ⟨getRequest, ⟨hparsed, ?_, by decide +kernel, by decide⟩, rfl⟩
  rw [entriesLib_schema (if_pos rfl)]
  decide +kernel

theorem searchBody_request : ListRequest entriesLib searchBody "db" (.search "k") 1 50 := by
  have hparse : entriesLib.rapidjson.parse searchBody = .ok searchRequest := by
    unfold entriesLib
    simp [entriesParse, searchBody, getBody, Schemas.Kvdb.DB_GET_REQUEST_SCHEMA,
      Schemas.Kvdb.DB_SEARCH_REQUEST_SCHEMA]
  have hparsed : parseRequest entriesLib searchBody = .ok searchRequest :=
    parseRequest_of_parse entriesLib (by simp [searchBody]) (by simp [searchBody]) hparse
  have hschema : entriesLib.schema Schemas.Kvdb.DB_SEARCH_REQUEST_SCHEMA =
      Schemas.Kvdb.dbSearch := by
    apply entriesLib_schema
    simp [entriesParse, Schemas.Kvdb.DB_GET_REQUEST_SCHEMA, Schemas.Kvdb.DB_SEARCH_REQUEST_SCHEMA]
  have haccepts :
      entriesLib.validator.accepts (entriesLib.schema Schemas.Kvdb.DB_SEARCH_REQUEST_SCHEMA)
      searchRequest = true := by
    rw [hschema]
    decide +kernel
  have hrequest : ListRequest entriesLib searchBody "db" (.search "k") (clamped 1) (clamped 50) :=
    .search ⟨hparsed, haccepts, by decide +kernel, by decide⟩ (by decide +kernel)
      (by decide +kernel) (by decide +kernel) (by decide)
  exact hrequest

/-- The manager of the database `db`, with every probe exact and every write made. -/
def sampleManager : IKVDBManager (Map String String) :=
  managerOver "db"
    (handlerOver KVDBHandler.openHandler (KVDBHandler.family · true) (.ok ()) (.ok ()))

theorem entriesLib_valid : Valid entriesLib "1" := by
  have hone : cstr "1" = "1" := cstr_of_not_mem (by simp)
  refine ⟨.num (.int 1), ?_⟩
  unfold entriesLib
  rw [hone]
  simp [entriesParse, getBody, searchBody, Schemas.Kvdb.DB_GET_REQUEST_SCHEMA,
    Schemas.Kvdb.DB_SEARCH_REQUEST_SCHEMA]

/-- The value `1` under `key` is read alike. -/
theorem endpointsAgree_one :
    EndpointsAgree entriesLib sampleManager KVDBHandler.oneKey "db" "key" getBody searchBody
      (.search "k") 1 50 := by
  have halike : ReadAlike entriesLib KVDBHandler.oneKey "key" := by
    refine (readAlike_iff (by decide)).mpr ⟨by decide, fun text htext => ?_⟩
    have hone : KVDBHandler.oneKey.lookup "key" = some "1" := by rfl
    cases hone.symm.trans htext
    exact entriesLib_valid
  refine (endpointsAgree_iff entriesLib "db" "key" getBody searchBody KVDBHandler.openHandler
    (KVDBHandler.family · true) (.ok ()) (.ok ()) KVDBHandler.oneKey (.search "k") 1 50
    (fun c => KVDBHandler.family_holds c true) getBody_request searchBody_request).mpr ?_
  refine .inr (.inr (.inr ⟨fun hdump => ?_, halike⟩))
  cases hdump.1

/-- The contents after a key was added without a value. -/
def addedKey : Map String String := (KVDBHandler.openHandler.add (.ok ()) ∅ "key").2

/-- The empty text an `add` writes is a null to a search, and an error to a GET. -/
theorem search_lists_null :
    (KVDBHandler.openHandler.add (.ok ()) ∅ "key").1 = none ∧
    Succeeds ((listRoute entriesLib sampleManager searchBody (.search "k")).run addedKey) ∧
    ¬ Succeeds ((dbGet entriesLib "kvdb" (some sampleManager) getBody).run addedKey) ∧
    ¬ EndpointsAgree entriesLib sampleManager addedKey "db" "key" getBody searchBody
      (.search "k") 1 50 := by
  have hcf : ∀ c, (KVDBHandler.family c true).Holds c := fun c => KVDBHandler.family_holds c true
  have hinvalid : ¬ Valid entriesLib "" := by
    have hempty : cstr "" = "" := cstr_of_not_mem (by simp)
    unfold Valid entriesLib
    rw [hempty]
    simp [entriesParse, getBody, searchBody, Schemas.Kvdb.DB_GET_REQUEST_SCHEMA,
      Schemas.Kvdb.DB_SEARCH_REQUEST_SCHEMA]
  have hstored : addedKey.lookup "key" = some "" := by rfl
  have hsearch :
      Succeeds ((listRoute entriesLib sampleManager searchBody (.search "k")).run addedKey) := by
    unfold sampleManager
    exact (list_succeeds_iff hcf searchBody_request).mpr ⟨⟨rfl, rfl⟩, nofun⟩
  have hget : ¬ Succeeds ((dbGet entriesLib "kvdb" (some sampleManager) getBody).run addedKey) := by
    unfold sampleManager
    rw [get_succeeds_iff hcf getBody_request]
    rintro ⟨-, -, text, htext, hvalid⟩
    have hkey : cstr "key" = "key" := cstr_of_not_mem (by decide)
    rw [hkey] at htext
    cases hstored.symm.trans htext
    exact hinvalid hvalid
  refine ⟨rfl, hsearch, hget, fun hagree => hget ?_⟩
  exact (hagree.invalid "" (by decide +kernel) hinvalid).mp hsearch

end Sample

end DistroDefender.Api
