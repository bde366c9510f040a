import DistroDefender.Lib.Prog
import DistroDefender.Store.Store

/-!
# Calls to a store

The catalog reaches the store through `IStore`: a request is a program of store calls. `handle`
answers a call with the store over a driver. `utils` is `store::utils`.
-/

namespace DistroDefender.Catalog

open Base Lib Store

/-- The calls of `store::IStore` the catalog makes. -/
inductive StoreCall where
  | readDoc (name : Name)
  | readCol (name : Name) (namespaceId : NamespaceId)
  | getNamespace (name : Name)
  | createDoc (name : Name) (namespaceId : NamespaceId) (content : Doc)
  | updateDoc (name : Name) (content : Doc)
  | deleteDoc (name : Name)
  | deleteCol (name : Name) (namespaceId : NamespaceId)

/-- What a call answers. -/
def StoreCall.Answer : StoreCall → Type
  | .readDoc _ => RespOrError Doc
  | .readCol _ _ => RespOrError Col
  | .getNamespace _ => Option NamespaceId
  | .createDoc .. | .updateDoc .. | .deleteDoc _ | .deleteCol .. => OptError

/-- A program of store calls. -/
abbrev StoreM := Prog Throw StoreCall StoreCall.Answer

namespace IStore

def readDoc (name : Name) : StoreM (RespOrError Doc) := .call (.readDoc name) .ret

def readCol (name : Name) (ns : NamespaceId) : StoreM (RespOrError Col) :=
  .call (.readCol name ns) .ret

def getNamespace (name : Name) : StoreM (Option NamespaceId) := .call (.getNamespace name) .ret

def createDoc (name : Name) (ns : NamespaceId) (content : Doc) : StoreM OptError :=
  .call (.createDoc name ns content) .ret

def updateDoc (name : Name) (content : Doc) : StoreM OptError :=
  .call (.updateDoc name content) .ret

def deleteDoc (name : Name) : StoreM OptError := .call (.deleteDoc name) .ret

def deleteCol (name : Name) (ns : NamespaceId) : StoreM OptError := .call (.deleteCol name ns) .ret

end IStore

/-- The store over a driver answers a call. -/
def handle {σ : Type} (d : IDriver σ) : (c : StoreCall) → Call (Store σ) c.Answer
  | .readDoc name => do orThrow (Store.readDoc d (← get) name)
  | .readCol name namespaceId => do return Store.readCol (← get) name namespaceId
  | .getNamespace name => do return Store.getNamespace (← get) name
  | .createDoc name namespaceId content => Store.createDoc d name namespaceId content
  | .updateDoc name content => Store.updateDoc d name content
  | .deleteDoc name => Store.deleteDoc d name
  | .deleteCol name namespaceId => Store.deleteCol d name namespaceId

namespace utils

def jsonGenerator (contentJson : Json) (original : String) : Json :=
  ((Json.obj []).set ["json"] contentJson).set ["original"] (.str original)

def get (name : Name) (original : Bool) : StoreM (RespOrError Json) := do
  match ← IStore.readDoc name with
  | .error e =>
    return .error
      ⟨s!"Engine utils: '{name.toStr}' could not be obtained from the store: {e.message}."⟩
  | .ok json =>
    if original || !json.existsAt ["json"] then
      return .ok json
    match json.get ["json"] with
    | none => return .error ⟨"/json path not found in JSON."⟩
    | some jsonValue => return .ok jsonValue

def add (name : Name) (namespaceId : NamespaceId) (contentJson : Json) (original : String) :
    StoreM OptError :=
  IStore.createDoc name namespaceId (jsonGenerator contentJson original)

/-- `update`: what `updateDoc` answers is dropped. -/
def update (name : Name) (contentJson : Json) (original : String) : StoreM OptError := do
  let result : OptError := none
  let _ ← IStore.updateDoc name (jsonGenerator contentJson original)
  return result

end utils

theorem get_jsonGenerator (j : Json) (content : String) :
    (utils.jsonGenerator j content).get ["json"] = some j := rfl

end DistroDefender.Catalog
