import DistroDefender.Api.Schemas
import DistroDefender.Geo.Manager

/-!
# Routes of the geo databases

`api::geo::handlers`, over any manager. The schemas stand for what is read outside a `try` block.
-/

namespace DistroDefender.Api

open Base Lib DistroDefender.Geo

/-- `geo::IManager`, the calls the routes make. -/
structure IGeoManager (σ : Type) where
  addDb : String → DbType → StateM σ OptError
  removeDb : String → StateM σ OptError
  listDbs : StateM σ (List DbInfo)
  remoteUpsertDb : String → DbType → String → String → StateM σ OptError

namespace Geo

variable {σ : Type} (L : JsonLib)

/-- `typeFromName` of the `/type` of a request. -/
def typeField (jsonReq : Json) : Except Throw DbType := do
  typeFromName (← value (jsonReq.getString ["type"]))

def addDb (weakGeoManager : Option (IGeoManager σ)) (body : String) : Call σ Response :=
  parseWith L (L.schema Schemas.Geo.DB_POST_REQUEST_SCHEMA) weakGeoManager body
    fun geoManager jsonReq => do
      let path ← orThrow (value (jsonReq.getString ["path"]))
      if path = "" then return userErrorResponse "Path cannot be empty"
      orUserError (typeField jsonReq) fun type => do
        return reportError (← ask (geoManager.addDb path type))

def delDb (weakGeoManager : Option (IGeoManager σ)) (body : String) : Call σ Response :=
  parseWith L (L.schema Schemas.Geo.DB_DELETE_REQUEST_SCHEMA) weakGeoManager body
    fun geoManager jsonReq => do
      let path ← orThrow (value (jsonReq.getString ["path"]))
      if path = "" then return userErrorResponse "Path cannot be empty"
      return reportError (← ask (geoManager.removeDb path))

/-- One entry of an answer. -/
def dbJson (db : DbInfo) : Json :=
  Json.ofItems [(["path"], .str db.path), (["name"], .str db.name),
    (["type"], .str (typeName db.type))]

def listDb (weakGeoManager : Option (IGeoManager σ)) (body : String) : Call σ Response :=
  parseWith L (L.schema Schemas.Geo.DB_LIST_REQUEST_SCHEMA) weakGeoManager body
    fun geoManager _ => do
      let dbs ← ask geoManager.listDbs
      return userResponse (dbs.foldl (fun res db => res.appendJson ["entries"] (dbJson db))
        (okStatus.set ["entries"] (.arr [])))

/-- The rest of `remoteUpsertDb`, with the fields it has read. -/
def remoteUpsertFields (geoManager : IGeoManager σ) (jsonReq : Json) (path dbUrl hashUrl : String) :
    Call σ Response := do
  if path = "" then return userErrorResponse "path cannot be empty"
  if dbUrl = "" then return userErrorResponse "dbUrl cannot be empty"
  if hashUrl = "" then return userErrorResponse "hashUrl cannot be empty"
  orUserError (typeField jsonReq) fun type => do
    return reportError (← ask (geoManager.remoteUpsertDb path type dbUrl hashUrl))

def remoteUpsertDb (weakGeoManager : Option (IGeoManager σ)) (body : String) : Call σ Response :=
  parseWith L (L.schema Schemas.Geo.DB_REMOTE_UPSERT_REQUEST_SCHEMA) weakGeoManager body
    fun geoManager jsonReq => do
      let path ← orThrow (value (jsonReq.getString ["path"]))
      let dbUrl ← orThrow (value (jsonReq.getString ["dbUrl"]))
      let hashUrl ← orThrow (value (jsonReq.getString ["hashUrl"]))
      remoteUpsertFields geoManager jsonReq path dbUrl hashUrl

end Geo

end DistroDefender.Api
