import DistroDefender.Base.Json
import DistroDefender.Lib.RwLock
import DistroDefender.Lib.Transition
import DistroDefender.Store.DBDocNames
import DistroDefender.Store.Driver

/-!
# Clients of one store

Any number of clients call `readDoc`, `createDoc`, `updateDoc`, `upsertDoc` and `deleteDoc`. A call
takes the lock of the store in the mode the code takes it, works on the files of the driver in steps
(opening a file for writing truncates it, the whole text is written, the whole text is read) and
releases the lock. Steps of different clients interleave freely where the lock modes allow it.

`updateDoc` takes the lock shared, like the reads.
-/

namespace DistroDefender.Store

open Base Lib

/-- The calls of a client. -/
inductive Req where
  | readDoc (name : Name)
  | createDoc (name : Name) (namespaceId : NamespaceId) (content : Doc)
  | updateDoc (name : Name) (content : Doc)
  | upsertDoc (name : Name) (namespaceId : NamespaceId) (content : Doc)
  | deleteDoc (name : Name)

namespace Req

/-- How each call takes the lock: `std::shared_lock` or `std::unique_lock`. -/
def mode : Req → Mode
  | .readDoc _ => .shared
  | .createDoc .. => .exclusive
  | .updateDoc .. => .shared
  | .upsertDoc .. => .exclusive
  | .deleteDoc _ => .exclusive

def name : Req → Name
  | .readDoc n | .createDoc n _ _ | .updateDoc n _ | .upsertDoc n _ _ | .deleteDoc n => n

/-- The content a call writes. -/
def content : Req → Option Doc
  | .createDoc _ _ c | .updateDoc _ c | .upsertDoc _ _ c => some c
  | .readDoc _ | .deleteDoc _ => none

end Req

/-- How a call ends. -/
inductive Res where
  | ok
  | error
  | threw
  | doc (content : Doc)

/-- Where a client is in a call. -/
inductive Pc where
  | idle
  | waiting (q : Req)
  | locked (q : Req)
  | opened (q : Req) (r : Name)
  | finished (q : Req) (res : Res)
  | done (q : Req) (res : Res)

/-- How a client holds the lock. -/
def Pc.held : Pc → Option Mode
  | .locked q | .opened q _ | .finished q _ => some q.mode
  | .idle | .waiting _ | .done .. => none

/-- The store under its clients. `files` are the files of the driver by real name; `written` are the
contents the calls have written to each name. -/
structure Clients (ι : Type) where
  cache : DBDocNames
  files : Name → Option String
  pc : ι → Pc
  written : Name → List Doc

/-- The real name of a document in a namespace; a name that is too long throws. -/
def targetIn (name : Name) (namespaceId : NamespaceId) : Except Res Name :=
  match virtualToRealName name namespaceId with
  | .ok r => .ok r
  | .error _ => .error .threw

/-- The real name a call works on, or how it ends before it asks the driver. -/
def target (cache : DBDocNames) (q : Req) : Except Res Name :=
  match q with
  | .readDoc name | .updateDoc name _ | .deleteDoc name =>
    match cache.getNamespaceId name with
    | none => .error .error
    | some namespaceId => targetIn name namespaceId
  | .createDoc name namespaceId _ =>
    if cache.existsName name then .error .error else targetIn name namespaceId
  | .upsertDoc name namespaceId _ =>
    let namespaceIdCache := cache.getNamespaceId name
    if namespaceIdCache.isSome ∧ namespaceIdCache ≠ some namespaceId then .error .error
    else targetIn name namespaceId

/-- The driver lets a call open the file `file` for writing: `createDoc` and `updateDoc` of the
driver check the content and the file. -/
def MayOpen (q : Req) (file : Option String) : Prop :=
  (∃ c, q.content = some c ∧ c.checkDuplicateKeys = none) ∧
    match q with
    | .createDoc .. => file = none
    | .updateDoc .. => file ≠ none
    | _ => True

/-- A text written at the start of a file overlays what the file holds. -/
def overlay (text old : String) : String :=
  String.ofList (text.toList ++ old.toList.drop text.toList.length)

/-- The cache after a call that wrote its document. -/
def cacheAfterWrite (cache : DBDocNames) : Req → DBDocNames
  | .createDoc name ns _ | .upsertDoc name ns _ => (cache.add name ns).2
  | _ => cache

/-- The steps of a call. -/
inductive Act where
  | invoke
  | acquire
  | reject
  | refuse
  | read
  | truncate
  | write
  | remove
  | release
  deriving DecidableEq

section

variable {ι : Type} [DecidableEq ι]

namespace Clients

/-- Client `i` moves on. -/
def goto (M : Clients ι) (i : ι) (p : Pc) : Clients ι := { M with pc := Function.update M.pc i p }

def setFile (M : Clients ι) (r : Name) (text : Option String) : Clients ι :=
  { M with files := Function.update M.files r text }

def wrote (M : Clients ι) (n : Name) (c : Doc) : Clients ι :=
  { M with written := Function.update M.written n (c :: M.written n) }

end Clients

/-- One step of client `i`. `R` prints contents to texts and parses texts. -/
inductive Step (R : Rapidjson) : Clients ι → ι × Act → Clients ι → Prop
  /-- A client that is in no call makes one. -/
  | invoke {M : Clients ι} {i : ι} (q : Req)
      (h : M.pc i = .idle ∨ ∃ q' res, M.pc i = .done q' res) :
      Step R M (i, .invoke) (M.goto i (.waiting q))
  | acquire {M : Clients ι} {i : ι} {q : Req} (h : M.pc i = .waiting q)
      (free : RwLock.Grants (fun j => (M.pc j).held) q.mode) :
      Step R M (i, .acquire) (M.goto i (.locked q))
  /-- The store ends the call by itself. -/
  | reject {M : Clients ι} {i : ι} {q : Req} {res : Res} (h : M.pc i = .locked q)
      (ht : target M.cache q = .error res) : Step R M (i, .reject) (M.goto i (.finished q res))
  /-- The driver answers an error before it touches a file. -/
  | refuse {M : Clients ι} {i : ι} {q : Req} {r : Name} (h : M.pc i = .locked q)
      (ht : target M.cache q = .ok r) : Step R M (i, .refuse) (M.goto i (.finished q .error))
  | read {M : Clients ι} {i : ι} {n r : Name} {t : String}
      (h : M.pc i = .locked (.readDoc n)) (ht : target M.cache (.readDoc n) = .ok r)
      (hf : M.files r = some t) :
      Step R M (i, .read) (M.goto i (.finished (.readDoc n) (.doc (R.document t))))
  /-- Opening for writing truncates. -/
  | truncate {M : Clients ι} {i : ι} {q : Req} {r : Name} (h : M.pc i = .locked q)
      (ht : target M.cache q = .ok r) (hf : MayOpen q (M.files r)) :
      Step R M (i, .truncate) ((M.setFile r (some "")).goto i (.opened q r))
  | write {M : Clients ι} {i : ι} {q : Req} {r : Name} {c : Doc} (h : M.pc i = .opened q r)
      (hc : q.content = some c) :
      Step R M (i, .write)
        ({ ((M.setFile r (some (overlay (R.print c) ((M.files r).getD "")))).wrote q.name c).goto i
            (.finished q .ok) with cache := cacheAfterWrite M.cache q })
  /-- The file is removed; its empty parent directories may fail to be, which is an error. -/
  | remove {M : Clients ι} {i : ι} {name r : Name} (dirs : Bool)
      (h : M.pc i = .locked (.deleteDoc name)) (ht : target M.cache (.deleteDoc name) = .ok r)
      (hf : M.files r ≠ none) :
      Step R M (i, .remove)
        ({ (M.setFile r none).goto i
          (.finished (.deleteDoc name) (if dirs then .ok else .error)) with
            cache := if dirs then M.cache.del name else M.cache })
  | release {M : Clients ι} {i : ι} {q : Req} {res : Res} (h : M.pc i = .finished q res) :
      Step R M (i, .release) (M.goto i (.done q res))

/-- The clients of a store without documents. -/
def clients (R : Rapidjson) : System (Clients ι) (ι × Act) where
  init M := M.cache = .empty ∧ (∀ r, M.files r = none) ∧ (∀ i, M.pc i = .idle) ∧
    ∀ n, M.written n = []
  step := Step R

end

end DistroDefender.Store
