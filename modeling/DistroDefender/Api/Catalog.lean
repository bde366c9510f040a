import DistroDefender.Api.Schemas
import DistroDefender.Catalog.Validated

/-!
# Routes of the catalog

`api::catalog::handlers`, over any catalog: `ICatalog` is its interface, whose calls may throw. Five
routes read the name of a resource, build the resource and ask the catalog (`withResource`); the
sixth lists the namespaces. `server` is the API server with these routes: a handler that throws is
answered by the exception handler of `httpserver::Server`.
-/

namespace DistroDefender.Api

open Base Lib Store DistroDefender.Catalog

namespace Schemas.Catalog

def RESOURCE_POST_REQUEST_SCHEMA : String := "\x7b
    \"type\": \"object\",
    \"required\": [\"type\", \"content\", \"namespaceid\"],
    \"properties\": \x7b
        \"type\": \x7b \"type\": \"string\" \x7d,
        \"content\": \x7b \"type\": \"string\" \x7d,
        \"namespaceid\": \x7b \"type\": \"string\" \x7d
    \x7d
\x7d"

def resourcePost : Json := objectSchema ["type", "content", "namespaceid"]
  [("type", typed "string"), ("content", typed "string"), ("namespaceid", typed "string")]

def RESOURCE_GET_REQUEST_SCHEMA : String := "\x7b
    \"type\": \"object\",
    \"required\": [\"name\", \"namespaceid\"],
    \"properties\": \x7b 
        \"name\": \x7b \"type\": \"string\" \x7d,
        \"namespaceid\": \x7b \"type\": \"string\" \x7d
    \x7d
\x7d"

def resourceGet : Json := objectSchema ["name", "namespaceid"]
  [("name", typed "string"), ("namespaceid", typed "string")]

def RESOURCE_PUT_REQUEST_SCHEMA : String := "\x7b
    \"type\": \"object\",
    \"required\": [\"name\", \"content\", \"namespaceid\"],
    \"properties\": \x7b 
        \"name\": \x7b \"type\": \"string\" \x7d,
        \"content\": \x7b \"type\": \"string\" \x7d,
        \"namespaceid\": \x7b \"type\": \"string\" \x7d
    \x7d
\x7d"

def resourcePut : Json := objectSchema ["name", "content", "namespaceid"]
  [("name", typed "string"), ("content", typed "string"), ("namespaceid", typed "string")]

/-- The text of the GET. -/
def RESOURCE_DELETE_REQUEST_SCHEMA : String := RESOURCE_GET_REQUEST_SCHEMA

/-- The text of the PUT. -/
def RESOURCE_VALIDATE_SCHEMA : String := RESOURCE_PUT_REQUEST_SCHEMA

def RESOURCE_NAMESPACE_GET_REQUEST_SCHEMA : String := "\x7b
\x7d"

end Schemas.Catalog

/-- rapidjson reads the schema texts of the resources as the documents they spell. -/
structure SpelledCatalog (L : JsonLib) : Prop where
  resourcePost : L.schema Schemas.Catalog.RESOURCE_POST_REQUEST_SCHEMA =
    Schemas.Catalog.resourcePost
  resourceGet : L.schema Schemas.Catalog.RESOURCE_GET_REQUEST_SCHEMA = Schemas.Catalog.resourceGet
  resourcePut : L.schema Schemas.Catalog.RESOURCE_PUT_REQUEST_SCHEMA = Schemas.Catalog.resourcePut

/-- `api::catalog::ICatalog`. -/
structure ICatalog (σ : Type) where
  postResource : Resource → String → String → Call σ OptError
  putResource : Resource → String → String → Call σ OptError
  getResource : Resource → String → Call σ (RespOrError String)
  deleteResource : Resource → String → Call σ OptError
  validateResource : Resource → String → String → Call σ OptError
  getAllNamespaces : Call σ (List NamespaceId)

/-- `api::catalog::Catalog` over a store and its driver. -/
def catalogOf {σ : Type} (cfg : Config) (d : IDriver σ) : ICatalog (Store σ) where
  postResource collection namespaceStr content :=
    (postResource cfg collection namespaceStr content).run (handle d)
  putResource item content namespaceId := (putResource cfg item content namespaceId).run (handle d)
  getResource resource namespaceId := (getResource cfg resource namespaceId).run (handle d)
  deleteResource resource namespaceId := (deleteResource resource namespaceId).run (handle d)
  validateResource item namespaceId content := return validateResource cfg item namespaceId content
  getAllNamespaces := do return Store.listNamespaces (← get)

namespace Catalog

variable {σ : Type} (L : JsonLib)

/-- The beginning of the routes of a resource: the request, the name in its field, and the resource
of that name. -/
def withResource (schema field : String) (readName : Json → Except Throw Name)
    (wCatalog : Option (ICatalog σ)) (body : String)
    (work : ICatalog σ → Json → Resource → Call σ Response) : Call σ Response :=
  parseWith L (L.schema schema) wCatalog body fun catalog jsonReq =>
    match readName jsonReq with
    | .error e => return userErrorResponse s!"Invalid /{field} field: {e.what}"
    | .ok name => orUserError (Resource.ofName name) (work catalog jsonReq)

/-- The collection a POST names by its type. -/
def typeName (jsonReq : Json) : Except Throw Name := do
  let type := strToType (← value (jsonReq.getString ["type"]))
  Name.ofString (typeToStr type)

def resourceName (jsonReq : Json) : Except Throw Name := do
  Name.ofString (← value (jsonReq.getString ["name"]))

def resourcePost (wCatalog : Option (ICatalog σ)) (body : String) : Call σ Response :=
  withResource L Schemas.Catalog.RESOURCE_POST_REQUEST_SCHEMA "type" typeName wCatalog body
    fun catalog jsonReq targetResource => do
      let namespaceid ← orThrow (value (jsonReq.getString ["namespaceid"]))
      let content ← orThrow (value (jsonReq.getString ["content"]))
      return reportError (← catalog.postResource targetResource namespaceid content)

/-- What `resourceGet` makes of the answer of the catalog. -/
def contentAnswer : RespOrError String → Response
  | .error err => userErrorResponse err.message
  | .ok content =>
    userResponse (Json.ofItems [(["status"], ReturnStatus.OK.toJson), (["content"], .str content)])

def resourceGet (wCatalog : Option (ICatalog σ)) (body : String) : Call σ Response :=
  withResource L Schemas.Catalog.RESOURCE_GET_REQUEST_SCHEMA "name" resourceName wCatalog body
    fun catalog jsonReq targetResource => do
      let namespaceid ← orThrow (value (jsonReq.getString ["namespaceid"]))
      return contentAnswer (← catalog.getResource targetResource namespaceid)

def resourceDelete (wCatalog : Option (ICatalog σ)) (body : String) : Call σ Response :=
  withResource L Schemas.Catalog.RESOURCE_DELETE_REQUEST_SCHEMA "name" resourceName wCatalog body
    fun catalog jsonReq targetResource => do
      let namespaceid ← orThrow (value (jsonReq.getString ["namespaceid"]))
      return reportError (← catalog.deleteResource targetResource namespaceid)

def resourcePut (wCatalog : Option (ICatalog σ)) (body : String) : Call σ Response :=
  withResource L Schemas.Catalog.RESOURCE_PUT_REQUEST_SCHEMA "name" resourceName wCatalog body
    fun catalog jsonReq targetResource => do
      let content ← orThrow (value (jsonReq.getString ["content"]))
      let namespaceid ← orThrow (value (jsonReq.getString ["namespaceid"]))
      return reportError (← catalog.putResource targetResource content namespaceid)

def resourceValidate (wCatalog : Option (ICatalog σ)) (body : String) : Call σ Response :=
  withResource L Schemas.Catalog.RESOURCE_VALIDATE_SCHEMA "name" resourceName wCatalog body
    fun catalog jsonReq targetResource => do
      let namespaceid ← orThrow (value (jsonReq.getString ["namespaceid"]))
      let content ← orThrow (value (jsonReq.getString ["content"]))
      return reportError (← catalog.validateResource targetResource namespaceid content)

def getNamespaces (wCatalog : Option (ICatalog σ)) (body : String) : Call σ Response :=
  parseWith L (L.schema Schemas.Catalog.RESOURCE_NAMESPACE_GET_REQUEST_SCHEMA) wCatalog body
    fun catalog _ => do
    let jsonRes := okStatus.set ["namespaces"] (.arr [])
    let namespaces ← catalog.getAllNamespaces
    return userResponse
      (namespaces.foldl (fun res ns => res.appendString ["namespaces"] ns.str) jsonRes)

end Catalog

/-! ## The server -/

/-- `httpserver::Method`. -/
inductive Method where
  | GET
  | POST
  | PUT
  | DELETE
  | ERROR_METHOD
  deriving DecidableEq, Repr

/-- What the handlers read of `httplib::Request`, and what it is dispatched by. -/
structure Request where
  method : Method
  path : String
  body : String

/-- What the server sends. -/
inductive Reply where
  | response (res : Response)
  /-- The exception handler: 500 and `Internal Server Error`. -/
  | uncaught
  /-- No route: 404. -/
  | notFound

/-- The routes of the catalog, by their handlers. -/
inductive CatalogRoute where
  | resourcePost
  | resourceGet
  | resourceDelete
  | resourcePut
  | resourceValidate
  | getNamespaces
  deriving DecidableEq, Repr

namespace CatalogRoute

/-- `registerHandlers`. -/
def registered : List (Method × String × CatalogRoute) :=
  [(.POST, "/catalog/resource/post", .resourcePost),
    (.GET, "/catalog/resource/get", .resourceGet),
    (.DELETE, "/catalog/resource/delete", .resourceDelete),
    (.PUT, "/catalog/resource/put", .resourcePut),
    (.POST, "/catalog/resource/validate", .resourceValidate),
    (.GET, "/catalog/namespaces/get", .getNamespaces)]

/-- The handler of a request. -/
def find (req : Request) : Option CatalogRoute :=
  (registered.find? fun r => r.1 = req.method ∧ r.2.1 = req.path).map (·.2.2)

def serve {σ : Type} (L : JsonLib) (wCatalog : Option (ICatalog σ)) (body : String) :
    CatalogRoute → Call σ Response
  | .resourcePost => Catalog.resourcePost L wCatalog body
  | .resourceGet => Catalog.resourceGet L wCatalog body
  | .resourceDelete => Catalog.resourceDelete L wCatalog body
  | .resourcePut => Catalog.resourcePut L wCatalog body
  | .resourceValidate => Catalog.resourceValidate L wCatalog body
  | .getNamespaces => Catalog.getNamespaces L wCatalog body

end CatalogRoute

/-- A request served: the reply and the state it leaves. -/
def reply {σ : Type} (L : JsonLib) (wCatalog : Option (ICatalog σ)) (req : Request) (s : σ) :
    Reply × σ :=
  match CatalogRoute.find req with
  | none => (.notFound, s)
  | some route =>
    match (route.serve L wCatalog req.body).run s with
    | .ok res s' => (.response res, s')
    | .error _ s' => (.uncaught, s')

/-- The API server, one request after another, over a store without documents at first. -/
def server {σ : Type} (L : JsonLib) (cfg : Config) (d : TreeDriver σ) :
    System (Store σ) (Request × Reply) where
  init := (Store.system d).init
  step s l s' := reply L (some (catalogOf cfg d.toIDriver)) l.1 s = (l.2, s')

end DistroDefender.Api
