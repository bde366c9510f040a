import DistroDefender.Api.Schemas

/-!
# Routes of the key-value databases

`api::kvdb::handlers`, over any manager: `IKVDBManager` and `IKVDBHandler` are its interface, whose
calls answer a value or an error. A field read in a `try` block with what the block checks of it is
`nonEmpty`; an optional dereferenced outside one is `orThrow (value ..)`.
-/

namespace DistroDefender.Api

open Base Lib

/-- `kvdbManager::IKVDBHandler`, the calls the routes make. -/
structure IKVDBHandler (σ : Type) where
  set : String → String → StateM σ OptError
  remove : String → StateM σ OptError
  get : String → StateM σ (RespOrError String)
  dump : UInt32 → UInt32 → StateM σ (RespOrError (List (String × String)))
  search : String → UInt32 → UInt32 → StateM σ (RespOrError (List (String × String)))

/-- `kvdbManager::IKVDBManager`, the calls the routes make; `createDBFrom` is the overload with a
path. -/
structure IKVDBManager (σ : Type) where
  listDBs : Bool → StateM σ (List String)
  createDB : String → StateM σ OptError
  createDBFrom : String → String → StateM σ OptError
  deleteDB : String → StateM σ OptError
  existsDB : String → StateM σ Bool
  getKVDBHandler : String → String → StateM σ (RespOrError (IKVDBHandler σ))

namespace Kvdb

variable {σ : Type} (L : JsonLib)

def MESSAGE_DB_NOT_EXISTS (name : String) : String := s!"The KVDB '{name}' does not exist."

def MESSAGE_NAME_EMPTY : String := "Field /name is empty"

def MESSAGE_KEY_EMPTY : String := "Field /key is empty"

def DEFAULT_HANDLER_PAGE : UInt32 := 1

def DEFAULT_HANDLER_RECORDS : UInt32 := 50

/-- A string field that must not be empty. -/
def nonEmpty (jsonReq : Json) (path : Pointer) (message : String) : Except Throw String := do
  let text ← value (jsonReq.getString path)
  if text = "" then .error (.runtimeError message)
  else return text

/-- The name of the database and another string field, read in one `try` block. -/
def nameAnd (jsonReq : Json) (path : Pointer) (message : String) :
    Except Throw (String × String) := do
  let name ← nonEmpty jsonReq ["name"] MESSAGE_NAME_EMPTY
  let text ← nonEmpty jsonReq path message
  return (name, text)

/-- `existsDB` and `getKVDBHandler`, then the route's own work. -/
def withHandler (kvdb : IKVDBManager σ) (kvdbScopeName name : String)
    (work : IKVDBHandler σ → Call σ Response) : Call σ Response := do
  if !(← ask (kvdb.existsDB name)) then
    return userErrorResponse (MESSAGE_DB_NOT_EXISTS name)
  match ← ask (kvdb.getKVDBHandler name kvdbScopeName) with
  | .error err => return userErrorResponse err.message
  | .ok handler => work handler

/-! ## Databases -/

def managerGet (wKvdb : Option (IKVDBManager σ)) (body : String) : Call σ Response :=
  parseWith L (L.schema Schemas.Kvdb.MANAGER_GET_REQUEST_SCHEMA) wKvdb body fun kvdb jsonReq => do
    let must_be_loaded ←
      if jsonReq.existsAt ["must_be_loaded"] then
        orThrow (value (jsonReq.getBool ["must_be_loaded"]))
      else pure false
    let kvdbLists ← ask (kvdb.listDBs must_be_loaded)
    let resJson := okStatus.set ["dbs"] (.arr [])
    return userResponse
      (kvdbLists.foldl (fun res dbName => res.appendString ["dbs"] dbName) resJson)

/-- The rest of `managerPost`, with the name and the path. -/
def postNamed (kvdb : IKVDBManager σ) (path name : String) : Call σ Response := do
  if ← ask (kvdb.existsDB name) then
    return userErrorResponse "The Database already exists."
  match ← ask (if path ≠ "" then kvdb.createDBFrom name path else kvdb.createDB name) with
  | some err =>
    return userErrorResponse s!"The Database could not be created. Error: {err.message}."
  | none => return userResponse okStatus

def managerPost (wKvdb : Option (IKVDBManager σ)) (body : String) : Call σ Response :=
  parseWith L (L.schema Schemas.Kvdb.MANAGER_POST_REQUEST_SCHEMA) wKvdb body fun kvdb jsonReq => do
    let path ← if jsonReq.existsAt ["path"] then orThrow (value (jsonReq.getString ["path"]))
        else pure ""
    orUserError (nonEmpty jsonReq ["name"] MESSAGE_NAME_EMPTY) (postNamed kvdb path)

def managerDelete (wKvdb : Option (IKVDBManager σ)) (body : String) : Call σ Response :=
  parseWith L (L.schema Schemas.Kvdb.MANAGER_DELETE_REQUEST_SCHEMA) wKvdb body fun kvdb jsonReq =>
    orUserError (nonEmpty jsonReq ["name"] MESSAGE_NAME_EMPTY) fun name => do
      if !(← ask (kvdb.existsDB name)) then
        return userErrorResponse (MESSAGE_DB_NOT_EXISTS name)
      match ← ask (kvdb.deleteDB name) with
      | some err =>
        return userErrorResponse s!"The Database could not be deleted. Error: {err.message}"
      | none => return userResponse okStatus

/-! ## Entries -/

/-- `/page` and `/records` of a request, with the default where one is missing. -/
def int32Field (jsonReq : Json) (path : Pointer) (byDefault : UInt32) : Except Throw Int32 :=
  if jsonReq.existsAt path then value (jsonReq.getInt32 path) else .ok byDefault.toInt32

/-- One entry of an answer. -/
def entryJson (key : String) (value : Json) : Json :=
  Json.ofItems [(["key"], .str key), (["value"], value)]

/-- The loop of `managerDump`: a value that is no JSON ends it with an error. -/
def dumpEntries : List (String × String) → Json → Except Response Json
  | [], resJson => .ok resJson
  | (key, value) :: rest, resJson =>
    match L.rapidjson.parse (cstr value) with
    | .error err => .error (userErrorResponse s!"{err.message} For key '{key}' and value {value}")
    | .ok valueJson => dumpEntries rest (resJson.appendJson ["entries"] (entryJson key valueJson))

/-- What `managerDump` makes of the answer of the handler. -/
def dumpAnswer : RespOrError (List (String × String)) → Response
  | .error err => userErrorResponse err.message
  | .ok dump =>
    match dumpEntries L dump (okStatus.set ["entries"] (.arr [])) with
    | .error res => res
    | .ok resJson => userResponse resJson

/-- The rest of `managerDump`, with the page and the records. -/
def dumpPage (kvdb : IKVDBManager σ) (kvdbScopeName : String) (jsonReq : Json)
    (page_t records_t : Int32) : Call σ Response := do
  if page_t ≤ 0 then return userErrorResponse "Field /page must be greater than 0"
  if records_t ≤ 0 then return userErrorResponse "Field /records must be greater than 0"
  orUserError (nonEmpty jsonReq ["name"] MESSAGE_NAME_EMPTY) fun name =>
    withHandler kvdb kvdbScopeName name fun handler => do
      return dumpAnswer L (← ask (handler.dump page_t.toUInt32 records_t.toUInt32))

def managerDump (kvdbScopeName : String) (wKvdb : Option (IKVDBManager σ)) (body : String) :
    Call σ Response :=
  parseWith L (L.schema Schemas.Kvdb.MANAGER_DUMP_REQUEST_SCHEMA) wKvdb body fun kvdb jsonReq => do
    let page_t ← orThrow (int32Field jsonReq ["page"] DEFAULT_HANDLER_PAGE)
    let records_t ← orThrow (int32Field jsonReq ["records"] DEFAULT_HANDLER_RECORDS)
    dumpPage L kvdb kvdbScopeName jsonReq page_t records_t

/-- What `dbGet` makes of the answer of the handler. -/
def getAnswer : RespOrError String → Response
  | .error err => userErrorResponse err.message
  | .ok getValue =>
    match L.rapidjson.parse (cstr getValue) with
    | .error err => userErrorResponse s!"{err.message} For value {getValue}"
    | .ok _ =>
      userResponse (Json.ofItems
        [(["status"], ReturnStatus.OK.toJson), (["value"], L.rapidjson.document getValue)])

def dbGet (kvdbScopeName : String) (wKvdb : Option (IKVDBManager σ)) (body : String) :
    Call σ Response :=
  parseWith L (L.schema Schemas.Kvdb.DB_GET_REQUEST_SCHEMA) wKvdb body fun kvdb jsonReq =>
    orUserError (nameAnd jsonReq ["key"] MESSAGE_KEY_EMPTY) fun (name, key) =>
      withHandler kvdb kvdbScopeName name fun handler => do
        return getAnswer L (← ask (handler.get key))

def dbDelete (kvdbScopeName : String) (wKvdb : Option (IKVDBManager σ)) (body : String) :
    Call σ Response :=
  parseWith L (L.schema Schemas.Kvdb.DB_DELETE_REQUEST_SCHEMA) wKvdb body fun kvdb jsonReq =>
    orUserError (nameAnd jsonReq ["key"] MESSAGE_KEY_EMPTY) fun (name, key) =>
      withHandler kvdb kvdbScopeName name fun handler => do
        return reportError (← ask (handler.remove key))

/-- The checks of `dbPut` in its `try` block. -/
def putChecks (jsonReq : Json) : Except Throw String := do
  let name ← nonEmpty jsonReq ["name"] MESSAGE_NAME_EMPTY
  if !jsonReq.existsAt ["entry", "key"] then .error (.runtimeError "Missing /entry/key")
  else if !jsonReq.existsAt ["entry", "value"] then .error (.runtimeError "Missing /entry/value")
  else return name

/-- `dbPut`. The value of a parsed request is no document with a parse error. -/
def dbPut (kvdbScopeName : String) (wKvdb : Option (IKVDBManager σ)) (body : String) :
    Call σ Response :=
  parseWith L (L.schema Schemas.Kvdb.DB_PUT_REQUEST_SCHEMA) wKvdb body fun kvdb jsonReq =>
    orUserError (putChecks jsonReq) fun name => do
      let entryKey ← orThrow (value (jsonReq.getString ["entry", "key"]))
      let entryValueJson ← orThrow (value (jsonReq.get ["entry", "value"]))
      let entryValue := L.rapidjson.print entryValueJson
      if entryKey = "" then return userErrorResponse MESSAGE_KEY_EMPTY
      if entryValue = "" then return userErrorResponse "Field /value is empty"
      withHandler kvdb kvdbScopeName name fun handler => do
        return reportError (← ask (handler.set entryKey entryValue))

/-- What `dbSearch` makes of the answer of the handler: what is no JSON becomes a null document, and
its parse error is not looked at. -/
def searchAnswer : RespOrError (List (String × String)) → Response
  | .error err => userErrorResponse err.message
  | .ok searchResult =>
    userResponse (searchResult.foldl (fun resJson e =>
      resJson.appendJson ["entries"] (entryJson e.1 (L.rapidjson.document e.2)))
        (okStatus.set ["entries"] (.arr [])))

/-- The rest of `dbSearch`, with the page and the records. A negative one counts as zero. -/
def searchPage (kvdb : IKVDBManager σ) (kvdbScopeName : String) (jsonReq : Json)
    (page_t records_t : Int32) : Call σ Response :=
  let page : UInt32 := if page_t < 0 then 0 else page_t.toUInt32
  let records : UInt32 := if records_t < 0 then 0 else records_t.toUInt32
  orUserError (nameAnd jsonReq ["prefix"] "Field /prefix is empty") fun (name, keyPrefix) =>
    withHandler kvdb kvdbScopeName name fun handler => do
      return searchAnswer L (← ask (handler.search keyPrefix page records))

def dbSearch (kvdbScopeName : String) (wKvdb : Option (IKVDBManager σ)) (body : String) :
    Call σ Response :=
  parseWith L (L.schema Schemas.Kvdb.DB_SEARCH_REQUEST_SCHEMA) wKvdb body fun kvdb jsonReq => do
    let page_t ← orThrow (int32Field jsonReq ["page"] DEFAULT_HANDLER_PAGE)
    let records_t ← orThrow (int32Field jsonReq ["records"] DEFAULT_HANDLER_RECORDS)
    searchPage L kvdb kvdbScopeName jsonReq page_t records_t

end Kvdb

end DistroDefender.Api
