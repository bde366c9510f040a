import DistroDefender.Api.CatalogRuns
import DistroDefender.Catalog.Answered

/-!
# Requests to the catalog that are answered

Over every run of the server each request of a registered route gets a response for the user, as
long as the calls of the driver return. The exception handler is left with one kind of request: a
GET or a DELETE of a collection whose namespace does not parse (`http_answers_iff`). The loop of a
POST that reads past the end of a name is out of reach, since the collections the route makes have
names of one part.
-/

namespace DistroDefender.Api

open Base Lib Store DistroDefender.Catalog

section Returning

variable {σ : Type} {d : TreeDriver σ} {cfg : Config} {s : Store σ} {m : DocMap}

theorem known_of_holds (h : Holds d s m) : Known s.cache where
  wf := h.wf
  fits n ns hn := h.fits n (by
    obtain ⟨v, hv⟩ := OwnedMap.owner_eq_some.mp ((h.cached n).symm.trans hn)
    rw [hv]
    exact Option.some_ne_none _)

/-- A call that returns, and what is made of its answer. -/
theorem answers_of_returns {σ α : Type} {x : Call σ α} {f : α → Response} {s : σ}
    (hx : ∃ a s', x.run s = .ok a s') (hf : ∀ a, (f a).IsUser) : Answers ((f <$> x).run s) := by
  obtain ⟨a, s', hrun⟩ := hx
  rw [run_fmap, hrun]
  exact ⟨f a, s', rfl, hf a⟩

theorem isUser_reportError (err : OptError) : (reportError err).IsUser := by
  cases err with
  | none => exact .inl rfl
  | some err => exact .inr rfl

theorem isUser_contentAnswer (a : RespOrError String) : (Catalog.contentAnswer a).IsUser := by
  cases a with
  | error err => exact .inr rfl
  | ok content => exact .inl rfl

/-- The calls that report what the store answers return when the call does. -/
theorem returns_of_reports {d : IDriver σ} {k : OptError → StoreM OptError} (hk : Reports k)
    {x : Call (Store σ) OptError} (hx : ∃ e s', x.run s = .ok e s') :
    ∃ e s', (x >>= fun a => (k a).run (handle d)).run s = .ok e s' := by
  obtain ⟨e, s', hrun⟩ := hx
  rw [EStateM.run_bind, hrun]
  cases e with
  | none =>
    simp only [hk.done]
    exact ⟨none, s', rfl⟩
  | some e =>
    obtain ⟨e', he'⟩ := hk.failed e
    simp only [he']
    exact ⟨some e', s', rfl⟩

/-- A POST into a collection whose name is no document's returns. -/
theorem post_returns (hd : Returns d.toIDriver) {collection : Resource}
    (hlen : collection.name.parts.length < 3) (namespaceStr content : String) :
    ∃ e s', ((postResource cfg collection namespaceStr content).run (handle d.toIDriver)).run s =
      .ok e s' := by
  rcases postResource_shape cfg collection namespaceStr content with
      hrefused | ⟨r, ns, j, k, hacc, hcall, hk⟩
  · have hraise := @postResource_raise_iff cfg collection namespaceStr content
    generalize postResource cfg collection namespaceStr content = p at hrefused hraise
    cases hrefused with
    | ret e => exact ⟨some e, s, rfl⟩
    | raise e =>
      obtain ⟨j, text, r, -, -, -, hr, htype, hbelow⟩ := (hraise.mp ⟨e, rfl⟩).overrun
      obtain ⟨-, ⟨-, heq⟩ | ⟨hthree, -, -⟩⟩ := Resource.ofName_cases hr
      · exact absurd (congrArg Resource.type heq) htype
      · have hshorter := hbelow.2
        omega
  · have hfits : FitsReal r.name := by
      obtain ⟨text, hposted⟩ := hacc.posted
      have hthree := hposted.cases.1
      unfold FitsReal MAX_PARTS
      omega
    rw [hcall]
    exact returns_of_reports hk (createDoc_returns hd hfits ns _)

theorem delete_throws_of_malformed {d : IDriver σ} {r : Resource} {namespaceId : String}
    (h : MalformedIn r namespaceId) :
    ∃ e, ((deleteResource r namespaceId).run (handle d)).run s = .error e s := by
  cases hns : parseNamespace namespaceId with
  | ok ns => exact absurd hns (h.2 ns)
  | error e =>
    refine ⟨e, ?_⟩
    unfold deleteResource
    simp only [if_pos h.1, hns]
    rfl

/-- Every other DELETE returns. -/
theorem delete_returns (hd : Returns d.toIDriver) (h : Holds d s m) {r : Resource}
    {namespaceId : String} (hwell : ¬ MalformedIn r namespaceId) :
    ∃ e s', ((deleteResource r namespaceId).run (handle d.toIDriver)).run s = .ok e s' := by
  by_cases htype : r.type = .COLLECTION
  · rcases deleteResource_shape_col htype namespaceId with hrefused | ⟨ns, k, -, hcall, hk⟩
    · generalize hp : deleteResource r namespaceId = p at hrefused
      cases hrefused with
      | ret e => exact ⟨some e, s, rfl⟩
      | raise e =>
        refine absurd ⟨htype, fun ns hns => ?_⟩ hwell
        unfold deleteResource at hp
        simp only [if_pos htype, hns] at hp
        cases hp
    · rw [hcall]
      exact returns_of_reports hk (deleteCol_returns hd (known_of_holds h) r.name ns)
  · have hasked : (handle d.toIDriver (.getNamespace r.name)).run s =
        .ok (getNamespace s r.name) s := rfl
    unfold deleteResource
    simp only [if_neg htype]
    rcases checkResourceInNamespace_shape r namespaceId "DELETE" with
        ⟨-, e, he⟩ | ⟨-, answer, hcheck, -⟩
    · rw [he]
      exact ⟨some e, s, rfl⟩
    rw [hcheck, Prog.call_bind, Prog.run_call_ok hasked, Prog.ret_bind]
    cases answer (getNamespace s r.name) with
    | some e => exact ⟨some e, s, rfl⟩
    | none =>
      have hreports : Reports (.ret : OptError → StoreM OptError) := ⟨rfl, fun e => ⟨e, rfl⟩⟩
      exact returns_of_reports hreports (deleteDoc_returns hd (known_of_holds h) r.name)

theorem put_returns (hd : Returns d.toIDriver) (h : Holds d s m) (item : Resource)
    (content namespaceId : String) :
    ∃ e s', ((putResource cfg item content namespaceId).run (handle d.toIDriver)).run s =
      .ok e s' :=
  (put_answers hd (known_of_holds h) item content namespaceId).returns

end Returning

/-! ## The routes -/

section Routes

variable {σ : Type} {L : JsonLib} {s : σ}

theorem run_withResource {schema field : String} {readName : Json → Except Throw Name}
    {catalog : ICatalog σ} {body : String} {work : ICatalog σ → Json → Resource → Call σ Response}
    {jsonReq : Json} {r : Resource} (hreq : parseRequest L body = .ok jsonReq)
    (haccepts : L.validator.accepts (L.schema schema) jsonReq = true)
    (hname : readName jsonReq = .ok r.name) (hr : Resource.ofName r.name = .ok r) :
    (Catalog.withResource L schema field readName (some catalog) body work).run s =
      (work catalog jsonReq r).run s := by
  unfold Catalog.withResource parseWith getReqAndHandler
  simp [hreq, SchemaValidator.validate, haccepts, hname, orUserError, hr]

/-- A route of a resource answers when what it goes on to answers. -/
theorem answers_withResource {schema field : String} {readName : Json → Except Throw Name}
    {catalog : ICatalog σ} {body : String} {work : ICatalog σ → Json → Resource → Call σ Response}
    (h : ∀ jsonReq r, parseRequest L body = .ok jsonReq →
      L.validator.accepts (L.schema schema) jsonReq = true →
      readName jsonReq = .ok r.name → Resource.ofName r.name = .ok r →
      Answers ((work catalog jsonReq r).run s)) :
    Answers ((Catalog.withResource L schema field readName (some catalog) body work).run s) := by
  refine (answers_parseWith L).mpr ⟨by simp, ?_⟩
  rintro catalog' jsonReq ⟨hcatalog, hreq, haccepts⟩
  cases hcatalog
  cases hname : readName jsonReq with
  | error e => exact answers_userError _
  | ok name =>
    refine answers_orUserError fun r hr => ?_
    obtain ⟨hbuilt, rfl⟩ := built_of_ofName hr
    exact h jsonReq r hreq haccepts hname hbuilt

/-- The collections a POST names have names of one part. -/
theorem typeName_length {jsonReq : Json} {name : Name} (h : Catalog.typeName jsonReq = .ok name) :
    name.parts.length < 3 := by
  have hall : ∀ t : ResourceType, (Name.ofString (typeToStr t)).toOption.all (·.parts.length < 3) =
      true := by
    intro t
    cases t <;> decide +kernel
  unfold Catalog.typeName at h
  cases htext : jsonReq.getString ["type"] with
  | none =>
    rw [htext] at h
    cases h
  | some text =>
    rw [htext] at h
    have hname : Name.ofString (typeToStr (strToType text)) = .ok name := h
    have hlen := hall (strToType text)
    rw [hname] at hlen
    simpa [Except.toOption] using hlen

end Routes

/-! ## Runs -/

/-- A GET or a DELETE of a collection in a namespace that does not parse. -/
def Malformed (L : JsonLib) (req : Request) : Prop :=
  (CatalogRoute.find req = some .resourceGet ∨ CatalogRoute.find req = some .resourceDelete) ∧
    ∃ r namespaceId, AsksFor L req r namespaceId ∧ MalformedIn r namespaceId

section Runs

variable {σ : Type} {L : JsonLib} {cfg : Config} {d : TreeDriver σ} {s : Store σ} {m : DocMap}
  {req : Request}

/-- A route that reads the namespace, asks the catalog and answers with what it says. -/
def asking {α : Type} (f : α → Response)
    (ask : ICatalog (Store σ) → Resource → String → Call (Store σ) α)
    (catalog : ICatalog (Store σ)) (jsonReq : Json) (r : Resource) : Call (Store σ) Response := do
  let namespaceid ← orThrow (value (jsonReq.getString ["namespaceid"]))
  return f (← ask catalog r namespaceid)

theorem throws_asking {α : Type} {catalog : ICatalog (Store σ)} (f : α → Response)
    (ask : ICatalog (Store σ) → Resource → String → Call (Store σ) α)
    (hthrows : ∀ r namespaceId, MalformedIn r namespaceId →
      ∃ e, (ask catalog r namespaceId).run s = .error e s)
    (h : ∃ r namespaceId, AsksFor L req r namespaceId ∧ MalformedIn r namespaceId) :
    ∃ e, (Catalog.withResource L Schemas.Catalog.RESOURCE_GET_REQUEST_SCHEMA "name"
      Catalog.resourceName (some catalog) req.body (asking f ask)).run s = .error e s := by
  obtain ⟨r, namespaceId, ⟨jsonReq, hreq, haccepts, hname, hr, htext⟩, hmalformed⟩ := h
  obtain ⟨e, he⟩ := hthrows r namespaceId hmalformed
  refine ⟨e, ?_⟩
  rw [run_withResource hreq haccepts hname hr]
  unfold asking
  rw [htext]
  show (f <$> ask catalog r namespaceId).run s = _
  rw [run_fmap, he]

theorem answers_asking {α : Type} (hL : SpelledCatalog L) {catalog : ICatalog (Store σ)}
    {f : α → Response} (ask : ICatalog (Store σ) → Resource → String → Call (Store σ) α)
    (hf : ∀ a, (f a).IsUser)
    (hreturns : ∀ r namespaceId, ¬ MalformedIn r namespaceId →
      ∃ a s', (ask catalog r namespaceId).run s = .ok a s')
    (hwell : ¬ ∃ r namespaceId, AsksFor L req r namespaceId ∧ MalformedIn r namespaceId) :
    Answers ((Catalog.withResource L Schemas.Catalog.RESOURCE_GET_REQUEST_SCHEMA "name"
      Catalog.resourceName (some catalog) req.body (asking f ask)).run s) := by
  refine answers_withResource fun jsonReq r hreq haccepts hname hr => ?_
  have hfield : (jsonReq.getString ["namespaceid"]).isSome = true := by
    rw [hL.resourceGet] at haccepts
    exact getString_of_required haccepts (List.mem_cons_of_mem _ List.mem_cons_self)
      (List.mem_cons_of_mem _ List.mem_cons_self)
  refine answers_value hfield fun namespaceId htext =>
    answers_of_returns (hreturns r namespaceId ?_) hf
  intro hmalformed
  exact hwell ⟨r, namespaceId, ⟨jsonReq, hreq, haccepts, hname, hr, htext⟩, hmalformed⟩

/-- The texts a route with a content reads are strings. -/
theorem texts_of_accepts {V : SchemaValidator} {first : String} {jsonReq : Json}
    (h : V.accepts (objectSchema [first, "content", "namespaceid"]
      [(first, typed "string"), ("content", typed "string"),
        ("namespaceid", typed "string")]) jsonReq = true) :
    (jsonReq.getString ["content"]).isSome = true ∧
    (jsonReq.getString ["namespaceid"]).isSome = true :=
  ⟨getString_of_required h (by simp) (by simp), getString_of_required h (by simp) (by simp)⟩

theorem serve_throws {d : IDriver σ} {route : CatalogRoute}
    (hfind : CatalogRoute.find req = some route) (h : Malformed L req) :
    ∃ e, (route.serve L (some (catalogOf cfg d)) req.body).run s =
      .error e s := by
  obtain ⟨hroute, hasked⟩ := h
  rw [hfind] at hroute
  rcases hroute with hroute | hroute
  · cases hroute
    exact throws_asking Catalog.contentAnswer ICatalog.getResource
      (fun r namespaceId hmalformed => get_throws_of_malformed hmalformed) hasked
  · cases hroute
    exact throws_asking reportError ICatalog.deleteResource
      (fun r namespaceId hmalformed => delete_throws_of_malformed hmalformed) hasked

theorem serve_answers (hL : SpelledCatalog L) (hd : Returns d.toIDriver) (hm : Holds d s m)
    {postedTo : Name → Option Resource} (hvetted : MapVetted cfg.validator m postedTo)
    {route : CatalogRoute} (hfind : CatalogRoute.find req = some route)
    (hwell : ¬ Malformed L req) :
    Answers ((route.serve L (some (catalogOf cfg d.toIDriver)) req.body).run s) := by
  have hasked (hroute : route = .resourceGet ∨ route = .resourceDelete) :
      ¬ ∃ r namespaceId, AsksFor L req r namespaceId ∧ MalformedIn r namespaceId := by
    intro hasked
    refine hwell ⟨?_, hasked⟩
    rw [hfind]
    exact hroute.imp (congrArg some) (congrArg some)
  cases route with
  | resourcePost =>
    refine answers_withResource fun jsonReq r _ haccepts hname _ => ?_
    rw [hL.resourcePost] at haccepts
    obtain ⟨hcontent, hnamespace⟩ := texts_of_accepts haccepts
    refine answers_value hnamespace fun namespaceid _ => answers_value hcontent fun content _ => ?_
    exact answers_of_returns
      (post_returns hd (typeName_length hname) namespaceid content) isUser_reportError
  | resourceGet =>
    refine answers_asking hL ICatalog.getResource isUser_contentAnswer (fun r namespaceId h => ?_)
      (hasked (.inl rfl))
    obtain ⟨a, ha, -⟩ := get_sent hm hvetted h
    exact ⟨a, s, ha⟩
  | resourceDelete =>
    exact answers_asking hL ICatalog.deleteResource isUser_reportError
      (fun r namespaceId h => delete_returns hd hm h) (hasked (.inr rfl))
  | resourcePut =>
    refine answers_withResource fun jsonReq r _ haccepts _ _ => ?_
    rw [hL.resourcePut] at haccepts
    obtain ⟨hcontent, hnamespace⟩ := texts_of_accepts haccepts
    refine answers_value hcontent fun content _ => answers_value hnamespace fun namespaceid _ => ?_
    exact answers_of_returns (put_returns hd hm r content namespaceid) isUser_reportError
  | resourceValidate =>
    refine answers_withResource fun jsonReq r _ haccepts _ _ => ?_
    rw [Schemas.Catalog.RESOURCE_VALIDATE_SCHEMA, hL.resourcePut] at haccepts
    obtain ⟨hcontent, hnamespace⟩ := texts_of_accepts haccepts
    refine answers_value hnamespace fun namespaceid _ => answers_value hcontent fun content _ => ?_
    exact answers_of_returns ⟨_, s, rfl⟩ isUser_reportError
  | getNamespaces =>
    show Answers ((Catalog.getNamespaces L (some (catalogOf cfg d.toIDriver)) req.body).run s)
    unfold Catalog.getNamespaces
    rw [answers_parseWith]
    refine ⟨by simp, ?_⟩
    rintro catalog jsonReq ⟨hcatalog, -, -⟩
    cases hcatalog
    exact answers_user _

/-- Over every run of the server over a driver whose calls return, a request without a route gets no
handler, the exception handler gets the malformed requests, and every other one a response for the
user. -/
theorem http_answers_iff (L : JsonLib) (hL : SpelledCatalog L) (cfg : Config) (d : TreeDriver σ)
    (hd : Returns d.toIDriver) (s s' : Store σ) (h : (server L cfg d).Reachable s) (req : Request)
    (rep : Reply) (hstep : (server L cfg d).step s (req, rep) s') :
    (rep = .notFound ↔ CatalogRoute.find req = none) ∧ (rep = .uncaught ↔ Malformed L req) ∧
      ∀ res, rep = .response res → res.IsUser := by
  obtain ⟨m, postedTo, hm, hvetted⟩ := server_vetted h
  have hreply : reply L (some (catalogOf cfg d.toIDriver)) req s = (rep, s') := hstep
  unfold reply at hreply
  cases hfind : CatalogRoute.find req with
  | none =>
    rw [hfind] at hreply
    cases hreply
    simp [Malformed, hfind]
  | some route =>
    rw [hfind] at hreply
    by_cases hmalformed : Malformed L req
    · obtain ⟨e, he⟩ := @serve_throws σ L cfg s req d.toIDriver route hfind hmalformed
      simp only [he] at hreply
      cases hreply
      simp [hmalformed]
    · obtain ⟨res, s₁, hrun, huser⟩ := serve_answers hL hd hm hvetted hfind hmalformed
      simp only [hrun] at hreply
      cases hreply
      simp [hmalformed, huser]

end Runs

section Sample

theorem catalogLib_spelled : SpelledCatalog catalogLib where
  resourcePost := by
    simp [JsonLib.schema, catalogLib, catalogParse]
  resourceGet := by
    simp [JsonLib.schema, catalogLib, catalogParse, Schemas.Catalog.RESOURCE_POST_REQUEST_SCHEMA,
      Schemas.Catalog.RESOURCE_GET_REQUEST_SCHEMA]
  resourcePut := by
    simp [JsonLib.schema, catalogLib, catalogParse, Schemas.Catalog.RESOURCE_POST_REQUEST_SCHEMA,
      Schemas.Catalog.RESOURCE_GET_REQUEST_SCHEMA, Schemas.Catalog.RESOURCE_PUT_REQUEST_SCHEMA]

/-- The GET of the posted document. -/
theorem http_answers_posted :
    ((memReply resourceGetRequest postedStore).1 = .notFound ↔
      CatalogRoute.find resourceGetRequest = none) ∧
    ((memReply resourceGetRequest postedStore).1 = .uncaught ↔
      Malformed catalogLib resourceGetRequest) ∧
    ∀ res, (memReply resourceGetRequest postedStore).1 = .response res → res.IsUser :=
  http_answers_iff catalogLib catalogLib_spelled accepting memDriver.toTreeDriver memDriver_returns
    postedStore (memReply resourceGetRequest postedStore).2 postedStore_server resourceGetRequest
    (memReply resourceGetRequest postedStore).1 (step_memReply resourceGetRequest postedStore)

end Sample

end DistroDefender.Api
