import DistroDefender.Api.Catalog
import DistroDefender.Lib.Section
import DistroDefender.Store.Listing

/-!
# What the routes of the catalog do

A route leaves the store as it was, or does to it what one request to the catalog does, whose
resource a constructor made (`Effect`, `serve_effect`). So every run of the server is a run of such
requests (`server_ledger`), and whatever arrives over HTTP every document of the store is vetted
(`http_all_vetted`).
-/

namespace DistroDefender.Api

open Base Lib Store DistroDefender.Catalog

/-! ## A GET only reads -/

section Reads

variable {σ : Type} {d : IDriver σ} {cfg : Config}

theorem reads_storeDoc (name : Name) : Prog.Reads (handle d) (IStore.readDoc name) := by
  refine .call (fun s => ?_) .ret
  show resultState ((orThrow (Store.readDoc d s name)).run s) = s
  cases Store.readDoc d s name <;> rfl

theorem reads_check (item : Resource) (namespaceId operation : String) :
    Prog.Reads (handle d) (checkResourceInNamespace item namespaceId operation) := by
  rcases checkResourceInNamespace_shape item namespaceId operation with
      ⟨-, e, he⟩ | ⟨-, answer, hcheck, -⟩
  · rw [he]
    exact .ret _
  · rw [hcheck]
    exact .call (fun _ => rfl) fun a => .ret _

theorem reads_utilsGet (name : Name) (original : Bool) :
    Prog.Reads (handle d) (utils.get name original) := by
  refine .bind (reads_storeDoc name) fun found => ?_
  cases found with
  | error e => exact .ret _
  | ok json =>
    simp only
    split
    · exact .ret _
    · split <;> exact .ret _

theorem reads_getResource (resource : Resource) (namespaceId : String) :
    Prog.Reads (handle d) (getResource cfg resource namespaceId) := by
  unfold getResource
  split
  · refine .bind (.ofExcept _) fun ns => .bind (.call (fun _ => rfl) .ret) fun found => ?_
    cases found with
    | error e => exact .ret _
    | ok col => exact .ret _
  · refine .bind (reads_check resource namespaceId "GET") fun checked => ?_
    cases checked with
    | some e => exact .ret _
    | none =>
      refine .bind (reads_utilsGet resource.name true) fun found => ?_
      cases found with
      | error e => exact .ret _
      | ok doc => exact .bind (.ofExcept _) fun json => .ret _

end Reads

/-! ## The effect of a route -/

/-- The resource of the request is one a constructor made of a name. -/
def Built : Catalog.Req → Prop
  | .post r _ _ | .put r _ _ | .delete r _ => Resource.ofName r.name = .ok r

/-- A call left the store as it was, or did to it what a request does. -/
inductive Effect {σ α : Type} (cfg : Config) (d : IDriver σ) (s : Store σ) :
    EStateM.Result Throw (Store σ) α → Prop
  | nothing {r : EStateM.Result Throw (Store σ) α} (h : resultState r = s) : Effect cfg d s r
  | request {r : EStateM.Result Throw (Store σ) α} {q : Catalog.Req} (hq : Built q)
      (h : resultState r = resultState ((q.serve d cfg).run s)) : Effect cfg d s r

section Effects

variable {σ α β : Type} {L : JsonLib} {cfg : Config} {d : IDriver σ} {s : Store σ}

theorem effect_value {o : Option α} {k : α → Call (Store σ) β}
    (h : ∀ a, o = some a → Effect cfg d s ((k a).run s)) :
    Effect cfg d s ((orThrow (value o) >>= k).run s) := by
  cases hx : o with
  | none => exact .nothing rfl
  | some a => exact h a hx

/-- A request to the catalog, and an answer made of its answer. -/
theorem effect_request {q : Catalog.Req} (hq : Built q) (f : OptError → Response) :
    Effect cfg d s
      ((do return f (← (q.prog cfg).run (handle d)) : Call (Store σ) Response).run s) :=
  .request hq (resultState_bind_pure _ f s)

/-- A resource has the name it is made of. -/
theorem built_of_ofName {name : Name} {r : Resource} (h : Resource.ofName name = .ok r) :
    Resource.ofName r.name = .ok r ∧ name = r.name := by
  have hname : r.name = name := by
    obtain ⟨-, ⟨-, rfl⟩ | ⟨-, -, rfl⟩⟩ := Resource.ofName_cases h <;> rfl
  rw [hname]
  exact ⟨h, rfl⟩

/-- The beginning of a route, and what it goes on to. -/
theorem withResource_cases {schema field : String} {readName : Json → Except Throw Name}
    {wCatalog : Option (ICatalog (Store σ))} {body : String}
    {work : ICatalog (Store σ) → Json → Resource → Call (Store σ) Response} (s : Store σ) :
    (∃ res, res.status ≠ .OK_200 ∧
      (Catalog.withResource L schema field readName wCatalog body work).run s = .ok res s) ∨
    ∃ catalog jsonReq r, Admitted L (L.schema schema) wCatalog body catalog jsonReq ∧
    readName jsonReq = .ok r.name ∧ Resource.ofName r.name = .ok r ∧
      (Catalog.withResource L schema field readName wCatalog body work).run s =
        (work catalog jsonReq r).run s := by
  have herror : ∀ message, (userErrorResponse message).status ≠ .OK_200 :=
    fun message h => by cases h
  unfold Catalog.withResource parseWith getReqAndHandler Admitted
  cases wCatalog with
  | none => exact .inl ⟨_, fun h => (by cases h), rfl⟩
  | some catalog =>
    cases hreq : parseRequest L body with
    | error res =>
      refine .inl ⟨res, ?_, rfl⟩
      unfold parseRequest at hreq
      split at hreq
      · cases hreq
      split at hreq
      · cases hreq
        exact herror _
      · cases hreq
    | ok jsonReq =>
      simp only [SchemaValidator.validate]
      cases hvalid : L.validator.accepts (L.schema schema) jsonReq with
      | false => exact .inl ⟨_, herror _, rfl⟩
      | true =>
        cases hname : readName jsonReq with
        | error e => exact .inl ⟨_, herror _, by simp; rfl⟩
        | ok name =>
          cases hr : Resource.ofName name with
          | error e => exact .inl ⟨_, herror _, by simp [orUserError, hr]; rfl⟩
          | ok r =>
            obtain ⟨hbuilt, rfl⟩ := built_of_ofName hr
            exact .inr ⟨catalog, jsonReq, r, ⟨rfl, rfl, hvalid⟩, hname,
              hbuilt, by simp [orUserError, hr]⟩

/-- A route of a resource has the effect of what it goes on to. -/
theorem effect_withResource {schema field : String} {readName : Json → Except Throw Name}
    {wCatalog : Option (ICatalog (Store σ))} {body : String}
    {work : ICatalog (Store σ) → Json → Resource → Call (Store σ) Response}
    (h : ∀ catalog jsonReq r, wCatalog = some catalog → Resource.ofName r.name = .ok r →
      Effect cfg d s ((work catalog jsonReq r).run s)) :
    Effect cfg d s ((Catalog.withResource L schema field readName wCatalog body work).run s) := by
  rcases withResource_cases s with ⟨res, -, hres⟩ | ⟨catalog, jsonReq, r, hadmitted, -, hr, hrun⟩
  · rw [hres]
    exact .nothing rfl
  · rw [hrun]
    exact h catalog jsonReq r hadmitted.1 hr

theorem serve_effect (L : JsonLib) (cfg : Config) (d : IDriver σ) (route : CatalogRoute)
    (body : String) (s : Store σ) :
    Effect cfg d s ((route.serve L (some (catalogOf cfg d)) body).run s) := by
  cases route with
  | resourcePost =>
    refine effect_withResource fun catalog jsonReq r hcatalog hr => ?_
    cases hcatalog
    refine effect_value fun namespaceid _ => effect_value fun content _ => ?_
    exact effect_request (q := .post r namespaceid content) hr reportError
  | resourceGet =>
    refine effect_withResource fun catalog jsonReq r hcatalog hr => ?_
    cases hcatalog
    refine effect_value fun namespaceid _ => .nothing ?_
    have hstate :=
      resultState_bind_pure ((getResource cfg r namespaceid).run (handle d)) Catalog.contentAnswer s
    exact hstate.trans ((reads_getResource r namespaceid).run s)
  | resourceDelete =>
    refine effect_withResource fun catalog jsonReq r hcatalog hr => ?_
    cases hcatalog
    refine effect_value fun namespaceid _ => ?_
    exact effect_request (q := .delete r namespaceid) hr reportError
  | resourcePut =>
    refine effect_withResource fun catalog jsonReq r hcatalog hr => ?_
    cases hcatalog
    refine effect_value fun content _ => effect_value fun namespaceid _ => ?_
    exact effect_request (q := .put r content namespaceid) hr reportError
  | resourceValidate =>
    refine effect_withResource fun catalog jsonReq r hcatalog hr => ?_
    cases hcatalog
    refine effect_value fun namespaceid _ => effect_value fun content _ => ?_
    exact .nothing rfl
  | getNamespaces =>
    refine .nothing ?_
    show resultState ((Catalog.getNamespaces L (some (catalogOf cfg d)) body).run s) = s
    unfold Catalog.getNamespaces parseWith getReqAndHandler
    cases parseRequest L body with
    | error res => rfl
    | ok jsonReq =>
      simp only
      cases L.validator.validate jsonReq _ <;> rfl

end Effects

/-! ## What a GET sends -/

/-- The content sent for a resource of a namespace: the document that is stored under its name, as
it was accepted there unless it is a schema, or the children of a collection, in order. -/
inductive Sent {σ : Type} (cfg : Config) (d : IDriver σ) (s : Store σ) (r : Resource)
    (namespaceId : String) : String → Prop
  | document {ns : NamespaceId} {j : Json} {original : String} (htype : r.type ≠ .COLLECTION)
      (hns : Store.getNamespace s r.name = some ns) (htext : namespaceId = ns.str)
      (stored : Store.readDoc d s r.name = .ok (.ok (utils.jsonGenerator j original)))
      (named : WellNamed r.name j)
      (accepted : r.name.first ≠ typeToStr .SCHEMA → Accepted cfg.validator r.name ns j) :
      Sent cfg d s r namespaceId (cfg.rapidjson.print j)
  | collection {ns : NamespaceId} {col : Col} (htype : r.type = .COLLECTION)
      (hns : parseNamespace namespaceId = .ok ns) (sorted : col.Pairwise (· < ·))
      (lists : ∀ k, k ∈ col ↔ ChildOf k r.name ∧ ∃ n, Store.getNamespace s n = some ns ∧
        k.parts <+: n.parts) :
      Sent cfg d s r namespaceId (cfg.rapidjson.print (.arr (col.map fun k => .str k.toStr)))

/-- The request is of the schema of a GET and asks for the resource in the namespace. -/
def AsksFor (L : JsonLib) (req : Request) (r : Resource) (namespaceId : String) : Prop :=
  ∃ jsonReq, parseRequest L req.body = .ok jsonReq ∧
    L.validator.accepts (L.schema Schemas.Catalog.RESOURCE_GET_REQUEST_SCHEMA) jsonReq = true ∧
    Catalog.resourceName jsonReq = .ok r.name ∧ Resource.ofName r.name = .ok r ∧
    jsonReq.getString ["namespaceid"] = some namespaceId

/-- A collection in a namespace that does not parse. -/
def MalformedIn (r : Resource) (namespaceId : String) : Prop :=
  r.type = .COLLECTION ∧ ∀ ns, parseNamespace namespaceId ≠ .ok ns

section Sent

variable {σ : Type} {cfg : Config} {d : TreeDriver σ} {s : Store σ} {m : DocMap} {r : Resource}
  {namespaceId : String}

theorem getCol_sent (h : Holds d s m) (htype : r.type = .COLLECTION) {ns : NamespaceId}
    (hns : parseNamespace namespaceId = .ok ns) :
    ∃ a, ((getResource cfg r namespaceId).run (handle d.toIDriver)).run s = .ok a s ∧
      ∀ content, a = .ok content → Sent cfg d.toIDriver s r namespaceId content := by
  have hread : (handle d.toIDriver (.readCol r.name ns)).run s =
      .ok (Store.readCol s r.name ns) s := rfl
  unfold getResource
  simp only [if_pos htype, hns]
  show ∃ a, (Prog.run _ (Prog.call (StoreCall.readCol r.name ns) _)).run s = _ ∧ _
  rw [Prog.run_call_ok hread]
  cases hcol : Store.readCol s r.name ns with
  | error e => exact ⟨.error e, rfl, fun content hc => by cases hc⟩
  | ok col =>
    obtain ⟨hsorted, hmem⟩ := readCol_ok h.wf hcol
    refine ⟨_, rfl, fun content hc => ?_⟩
    cases hc
    rw [Json.foldl_appendString Name.toStr col [], List.nil_append]
    exact .collection htype hns hsorted hmem

theorem getDoc_sent (h : Holds d s m) {postedTo : Name → Option Resource}
    (hvetted : MapVetted cfg.validator m postedTo) (htype : r.type ≠ .COLLECTION) :
    ∃ a, ((getResource cfg r namespaceId).run (handle d.toIDriver)).run s = .ok a s ∧
      ∀ content, a = .ok content → Sent cfg d.toIDriver s r namespaceId content := by
  have hasked : (handle d.toIDriver (.getNamespace r.name)).run s = .ok (m.owner r.name) s :=
    congrArg (fun a => EStateM.Result.ok a s) (h.cached r.name)
  unfold getResource
  simp only [if_neg htype]
  rcases checkResourceInNamespace_shape r namespaceId "GET" with
      ⟨-, e, he⟩ | ⟨-, answer, hcheck, hanswer⟩
  · rw [he]
    exact ⟨.error e, rfl, fun content hc => by cases hc⟩
  rw [hcheck, Prog.call_bind, Prog.run_call_ok hasked, Prog.ret_bind]
  cases ha : answer (m.owner r.name) with
  | some e => exact ⟨.error e, rfl, fun content hc => by cases hc⟩
  | none =>
    obtain ⟨ns, howner, htext⟩ := (hanswer _).mp ha
    obtain ⟨doc, hdoc⟩ := OwnedMap.owner_eq_some.mp howner
    obtain ⟨j, original, collection, rfl, -, hv⟩ := hvetted r.name ns doc hdoc
    have hstored : Store.readDoc d.toIDriver s r.name =
        .ok (.ok (utils.jsonGenerator j original)) := by
      rw [h.answers.readDoc, hdoc]
    have hread : (handle d.toIDriver (.readDoc r.name)).run s =
        .ok (.ok (utils.jsonGenerator j original)) s := by
      show (orThrow (Store.readDoc d.toIDriver s r.name)).run s = _
      rw [hstored]
      rfl
    refine ⟨.ok (cfg.rapidjson.print j), ?_, fun content hc => ?_⟩
    · show (Prog.run _ (Prog.call (StoreCall.readDoc r.name) _)).run s = _
      rw [Prog.run_call_ok hread]
      rfl
    · cases hc
      refine .document htype ?_ htext hstored hv.toWellNamed hv.accepted
      rw [h.answers.getNamespace]
      exact howner

theorem get_throws_of_malformed {d : IDriver σ} (h : MalformedIn r namespaceId) :
    ∃ e, ((getResource cfg r namespaceId).run (handle d)).run s = .error e s := by
  cases hns : parseNamespace namespaceId with
  | ok ns => exact absurd hns (h.2 ns)
  | error e =>
    refine ⟨e, ?_⟩
    unfold getResource
    simp only [if_pos h.1, hns]
    rfl

/-- Every other GET answers. -/
theorem get_sent (h : Holds d s m) {postedTo : Name → Option Resource}
    (hvetted : MapVetted cfg.validator m postedTo) (hwell : ¬ MalformedIn r namespaceId) :
    ∃ a, ((getResource cfg r namespaceId).run (handle d.toIDriver)).run s = .ok a s ∧
      ∀ content, a = .ok content → Sent cfg d.toIDriver s r namespaceId content := by
  by_cases htype : r.type = .COLLECTION
  · cases hns : parseNamespace namespaceId with
    | ok ns => exact getCol_sent h htype hns
    | error e => exact absurd ⟨htype, fun ns hparsed => by cases hns.symm.trans hparsed⟩ hwell
  · exact getDoc_sent h hvetted htype

end Sent

/-! ## Runs -/

section Runs

variable {σ : Type} {L : JsonLib} {cfg : Config} {d : TreeDriver σ}

/-- What the server keeps is what the catalog keeps, whose PUTs then carry constructed items. -/
theorem server_ledger {s : Store σ} (h : (server L cfg d).Reachable s) :
    ∃ P, ((ledger d cfg).guarded PutsConstructed).Reachable P ∧ P.store = s := by
  induction h with
  | @init s hs => exact ⟨⟨s, fun _ => none⟩, .init ⟨hs, fun _ => rfl⟩, rfl⟩
  | @step s s' l _ hstep ih =>
    obtain ⟨P, hP, rfl⟩ := ih
    obtain ⟨req, rep⟩ := l
    have hs' : s' = (reply L (some (catalogOf cfg d.toIDriver)) req P.store).2 := by
      rw [show reply L (some (catalogOf cfg d.toIDriver)) req P.store = (rep, s') from hstep]
    unfold reply at hs'
    cases hfind : CatalogRoute.find req with
    | none =>
      rw [hfind] at hs'
      exact ⟨P, hP, hs'.symm⟩
    | some route =>
      have heffect := serve_effect L cfg d.toIDriver route req.body P.store
      have hleft : s' = resultState
          ((route.serve L (some (catalogOf cfg d.toIDriver)) req.body).run P.store) := by
        rw [hs', hfind]
        simp only
        split <;> rename_i hrun <;> rw [hrun] <;> rfl
      cases heffect with
      | nothing hnothing => exact ⟨P, hP, (hleft.trans hnothing).symm⟩
      | @request q hq heq =>
        refine ⟨P.after d.toIDriver cfg q, hP.step ⟨?_, Ledger.step_after d cfg P q⟩,
          (hleft.trans heq).symm⟩
        cases q with
        | put item content namespaceId => exact .inr hq
        | post collection namespaceStr content => trivial
        | delete resource namespaceId => trivial

/-- The documents of a store that HTTP requests made. -/
theorem server_vetted {s : Store σ} (h : (server L cfg d).Reachable s) :
    ∃ m postedTo, Holds d s m ∧ MapVetted cfg.validator m postedTo := by
  obtain ⟨P, hP, rfl⟩ := server_ledger h
  obtain ⟨m, hm, hvetted⟩ := ledger_inductive.holds hP
  exact ⟨m, P.postedTo, hm, hvetted⟩

/-- Over every run of the server, the content a GET sends is the document stored under that name in
that namespace, which the validator accepted unless it is a schema, or lists the collection exactly;
the store stays as it was. -/
theorem http_get_sent (L : JsonLib) (cfg : Config) (d : TreeDriver σ) (s s' : Store σ)
    (h : (server L cfg d).Reachable s) (req : Request)
    (hfind : CatalogRoute.find req = some .resourceGet) (res : Response)
    (hstep : (server L cfg d).step s (req, .response res) s') (hok : res.status = .OK_200) :
    s' = s ∧ ∃ r namespaceId content, AsksFor L req r namespaceId ∧
      res = Catalog.contentAnswer (.ok content) ∧ Sent cfg d.toIDriver s r namespaceId content := by
  obtain ⟨m, postedTo, hm, hvetted⟩ := server_vetted h
  have hrun : (Catalog.resourceGet L (some (catalogOf cfg d.toIDriver)) req.body).run s =
      .ok res s' := by
    have hreply : reply L (some (catalogOf cfg d.toIDriver)) req s = (.response res, s') := hstep
    unfold reply at hreply
    rw [hfind] at hreply
    simp only [CatalogRoute.serve] at hreply
    split at hreply
    · rename_i hres
      cases hreply
      exact hres
    · cases hreply
  unfold Catalog.resourceGet at hrun
  rcases withResource_cases s with ⟨res', hstatus, hres⟩ |
      ⟨catalog, jsonReq, r, hadmitted, hname, hr, hwork⟩
  · rw [hres] at hrun
    cases hrun
    exact absurd hok hstatus
  rw [hwork] at hrun
  obtain ⟨hcatalog, hparsed, haccepts⟩ := hadmitted
  cases hcatalog
  cases htext : jsonReq.getString ["namespaceid"] with
  | none =>
    rw [htext] at hrun
    cases hrun
  | some namespaceId =>
    rw [htext] at hrun
    have hroute :
        (Catalog.contentAnswer <$> (getResource cfg r namespaceId).run (handle d.toIDriver)).run s =
        .ok res s' := hrun
    rw [run_fmap] at hroute
    have hwell : ¬ MalformedIn r namespaceId := by
      intro hmalformed
      obtain ⟨e, he⟩ := @get_throws_of_malformed σ cfg s r namespaceId d.toIDriver hmalformed
      rw [he] at hroute
      cases hroute
    obtain ⟨a, hanswer, hsent⟩ := get_sent hm hvetted hwell
    rw [hanswer] at hroute
    cases hroute
    refine ⟨rfl, r, namespaceId, ?_⟩
    cases a with
    | error e => cases hok
    | ok content =>
      exact ⟨content, ⟨jsonReq, hparsed, haccepts, hname, hr, htext⟩, rfl, hsent content rfl⟩

end Runs

section Sample

def resourcePostBody : String :=
  "\x7b\"type\":\"decoder\",\"content\":\"\x7b\\\"name\\\":\\\"decoder/a/0\\\"\x7d\"" ++
    ",\"namespaceid\":\"user\"\x7d"

def resourceGetBody : String := "\x7b\"name\":\"decoder/a/0\",\"namespaceid\":\"user\"\x7d"

/-- What rapidjson makes of the schema texts and of two bodies. -/
def catalogParse (text : String) : RespOrError Json :=
  if text = Schemas.Catalog.RESOURCE_POST_REQUEST_SCHEMA then .ok Schemas.Catalog.resourcePost
  else if text = Schemas.Catalog.RESOURCE_GET_REQUEST_SCHEMA then .ok Schemas.Catalog.resourceGet
  else if text = Schemas.Catalog.RESOURCE_PUT_REQUEST_SCHEMA then .ok Schemas.Catalog.resourcePut
  else if text = resourcePostBody then
    .ok (.obj [("type", .str "decoder"), ("content", .str docText), ("namespaceid", .str "user")])
  else if text = resourceGetBody then
    .ok (.obj [("name", .str "decoder/a/0"), ("namespaceid", .str "user")])
  else .error ⟨"Parse error at offset 0: Invalid value."⟩

def catalogLib : JsonLib where
  rapidjson := ⟨catalogParse, fun _ => "null"⟩
  validator := ⟨fun _ => false, fun _ _ => ""⟩

def memServer : System (Store MemTree) (Request × Reply) :=
  server catalogLib accepting memDriver.toTreeDriver

/-- A request served over the memory driver. -/
def memReply (req : Request) (s : Store MemTree) : Reply × Store MemTree :=
  reply catalogLib (some (catalogOf accepting memDriver.toIDriver)) req s

theorem step_memReply (req : Request) (s : Store MemTree) :
    memServer.step s (req, (memReply req s).1) (memReply req s).2 := rfl

theorem freshStore_server : memServer.Reachable freshStore :=
  .init ⟨rfl, fun _ _ => rfl⟩

def resourcePostRequest : Request := ⟨.POST, "/catalog/resource/post", resourcePostBody⟩

def resourceGetRequest : Request := ⟨.GET, "/catalog/resource/get", resourceGetBody⟩

def postedStore : Store MemTree := (memReply resourcePostRequest freshStore).2

theorem postedStore_server : memServer.Reachable postedStore :=
  freshStore_server.step (step_memReply resourcePostRequest freshStore)

/-- The content of a reply that is OK. -/
def Reply.isOk : Reply → Bool
  | .response res => res.status = .OK_200
  | .uncaught | .notFound => false

/-- The document, posted and got. -/
theorem http_get_sent_posted :
    ∃ res s', memServer.step postedStore (resourceGetRequest, .response res) s' ∧
    s' = postedStore ∧ ∃ r namespaceId content,
      AsksFor catalogLib resourceGetRequest r namespaceId ∧
      res = Catalog.contentAnswer (.ok content) ∧
      Sent accepting memDriver.toIDriver postedStore r namespaceId content := by
  have hok : (memReply resourceGetRequest postedStore).1.isOk = true := by decide +kernel
  cases hreply : memReply resourceGetRequest postedStore with
  | mk rep s' =>
    rw [hreply] at hok
    cases rep with
    | uncaught => cases hok
    | notFound => cases hok
    | response res =>
      refine ⟨res, s', hreply, ?_⟩
      exact http_get_sent catalogLib accepting memDriver.toTreeDriver postedStore s'
        postedStore_server resourceGetRequest rfl res hreply (of_decide_eq_true hok)

end Sample

end DistroDefender.Api
