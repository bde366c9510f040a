import DistroDefender.Catalog.Catalog
import DistroDefender.Store.FileDriver

/-!
# What a successful PUT leaves behind

`putResource` ends with `utils::update`, which drops the answer of the store (`run_putResource`). So
it answers no error whether the document was written or not: a PUT is durable (`Durable`) exactly
when its own checks refuse the request, or the file driver can write the document and what it then
stores reads back (`durable_iff`).
-/

namespace DistroDefender.Catalog

open Base Lib Store Os

/-! ## Requests on a store -/

section Requests

variable {σ : Type} {d : IDriver σ} {cfg : Config} {item : Resource} {content namespaceId : String}
  {s : Store σ}

/-- The answer of a call, dropped. -/
def dropped : EStateM.Result Throw (Store σ) OptError → EStateM.Result Throw (Store σ) OptError
  | .ok _ s => .ok none s
  | .error e s => .error e s

/-- A PUT changes nothing and answers an error, or does what `updateDoc` does and drops its
answer. -/
theorem run_putResource (d : IDriver σ) (cfg : Config) (item : Resource)
    (content namespaceId : String) (s : Store σ) :
    ((∃ e, ((putResource cfg item content namespaceId).run (handle d)).run s = .ok (some e) s) ∧
      ∀ c j, ¬ PutAccepts cfg item content namespaceId (getNamespace s item.name) c j) ∨
    ∃ c j, PutAccepts cfg item content namespaceId (getNamespace s item.name) c j ∧
      ((putResource cfg item content namespaceId).run (handle d)).run s =
        dropped ((updateDoc d item.name (utils.jsonGenerator j content)).run s) := by
  rcases putResource_shape cfg item content namespaceId with ⟨⟨e, he⟩, hnot⟩ | ⟨next, hput, hnext⟩
  · rw [he]
    exact .inl ⟨⟨e, rfl⟩, hnot _⟩
  · have hns : (handle d (.getNamespace item.name)).run s = .ok (getNamespace s item.name) s := rfl
    rw [hput, Prog.run_call_ok hns]
    rcases hnext (getNamespace s item.name) with ⟨⟨e, he⟩, hnot⟩ | ⟨c, j, haccepts, hcall⟩
    · rw [he]
      exact .inl ⟨⟨e, rfl⟩, hnot⟩
    · refine .inr ⟨c, j, haccepts, ?_⟩
      rw [hcall]
      cases hupdate : (updateDoc d item.name (utils.jsonGenerator j content)).run s with
      | ok a s' => exact Prog.run_call_ok (c := StoreCall.updateDoc item.name _) hupdate
      | error e s' => exact Prog.run_call_error (c := StoreCall.updateDoc item.name _) hupdate

/-- A GET of a document in its namespace prints the `/json` of the document. -/
theorem run_getResource {doc json : Json} (htype : item.type ≠ .COLLECTION)
    (hgiven : namespaceId ≠ "") {ns : NamespaceId} (hns : getNamespace s item.name = some ns)
    (hsame : namespaceId = ns.str) (hdoc : Store.readDoc d s item.name = .ok (.ok doc))
    (hjson : doc.get ["json"] = some json) :
    ((getResource cfg item namespaceId).run (handle d)).run s =
      .ok (.ok (cfg.rapidjson.print json)) s := by
  have hasked : (handle d (.getNamespace item.name)).run s = .ok (some ns) s :=
    congrArg (fun a => EStateM.Result.ok a s) hns
  have hread : (handle d (.readDoc item.name)).run s = .ok (.ok doc) s := by
    show (orThrow (Store.readDoc d s item.name)).run s = _
    rw [hdoc]
    rfl
  unfold getResource
  rw [if_neg htype]
  rcases checkResourceInNamespace_shape item namespaceId "GET" with ⟨hempty, -⟩ |
    ⟨-, answer, hcheck, hanswer⟩
  · exact absurd hempty hgiven
  · have hans : answer (some ns) = none := (hanswer _).mpr ⟨ns, rfl, hsame⟩
    rw [hcheck, Prog.call_bind, Prog.run_call_ok hasked, Prog.ret_bind, hans]
    show (Prog.run (handle d) (.call (.readDoc item.name) _)).run s = _
    rw [Prog.run_call_ok hread]
    show (Prog.run (handle d) (Prog.ofExcept (value (doc.get ["json"])) >>= _)).run s = _
    rw [hjson]
    rfl

end Requests

/-! ## Durability -/

section Durability

variable (d : FileDriver) (io : Io) (validator : IValidator)

/-- The catalog and the file driver print and parse with one rapidjson. -/
def config : Config := ⟨validator, d.rapidjson⟩

/-- A PUT over the file driver, whose system calls go as `io` says. -/
def put (item : Resource) (content namespaceId : String) : Call (Store Fs) OptError :=
  (putResource (config d validator) item content namespaceId).run (handle (d.driver io))

/-- A GET over the file driver. -/
def getBack (item : Resource) (namespaceId : String) : Call (Store Fs) (RespOrError String) :=
  (getResource (config d validator) item namespaceId).run (handle (d.driver io))

/-- A PUT that answers no error left the document behind, and a PUT whose `updateDoc` answers an
error answers one too and leaves the document as it was. -/
structure Durable (item : Resource) (content namespaceId : String) (s : Store Fs) : Prop where
  stored : ∀ s', (put d io validator item content namespaceId).run s = .ok none s' →
    ∃ j, d.rapidjson.parse (cstr content) = .ok j ∧
      Store.readDoc (d.driver io) s' item.name = .ok (.ok (utils.jsonGenerator j content)) ∧
      (getBack d io validator item namespaceId).run s' = .ok (.ok (d.rapidjson.print j)) s'
  reported : ∀ j e s₁, d.rapidjson.parse (cstr content) = .ok j →
    (updateDoc (d.driver io) item.name (utils.jsonGenerator j content)).run s = .ok (some e) s₁ →
    ∃ e' s', (put d io validator item content namespaceId).run s = .ok (some e') s' ∧
      Store.readDoc (d.driver io) s' item.name = Store.readDoc (d.driver io) s item.name

variable {d io validator} {item : Resource} {content namespaceId : String} {s : Store Fs}

variable (d io) in
/-- What the store's `updateDoc` of a document does over the file driver. -/
theorem updateDoc_cases {name : Name} {ns : NamespaceId} (hns : getNamespace s name = some ns)
    (wrapped : Json) :
    (∃ e, virtualToRealName name ns = .error e ∧
      (updateDoc (d.driver io) name wrapped).run s = .error e s) ∨
    ∃ r, virtualToRealName name ns = .ok r ∧
      ((¬ FileDriver.MayUpdate d io s.driver r wrapped ∧
          ∃ e, (updateDoc (d.driver io) name wrapped).run s = .ok (some e) s) ∨
        (FileDriver.MayUpdate d io s.driver r wrapped ∧
          ∃ s', (updateDoc (d.driver io) name wrapped).run s = .ok none s' ∧
            getNamespace s' name = some ns ∧ Store.readDoc (d.driver io) s' name =
              .ok (.ok (d.rapidjson.document (io.stored (d.rapidjson.print wrapped)))))) := by
  have hcache : s.cache.getNamespaceId name = some ns := hns
  cases hr : virtualToRealName name ns with
  | error e =>
    refine .inl ⟨e, rfl, ?_⟩
    simp only [run_updateDoc, hcache, hr]
  | ok r =>
    have hrun : (updateDoc (d.driver io) name wrapped).run s =
        finish s s.cache ((FileDriver.updateDoc d io r wrapped).run s.driver) := by
      simp only [run_updateDoc, hcache, hr]
      rfl
    refine .inr ⟨r, rfl, ?_⟩
    rcases FileDriver.updateDoc_cases d io s.driver r wrapped with ⟨hnot, e, he⟩ |
      ⟨hmay, fs', hfs, hstatus⟩
    · refine .inl ⟨hnot, e, ?_⟩
      rw [hrun, he]
      rfl
    · refine .inr ⟨hmay, ⟨s.cache, fs'⟩, ?_, hns, ?_⟩
      · rw [hrun, hfs]
        rfl
      · unfold Store.readDoc
        simp only [hcache, hr]
        exact congrArg Except.ok (FileDriver.readDoc_of_file hstatus)

/-- What the document holds after a PUT is the wrapper of the content: the file driver can write
it, and what it stores reads back. -/
def Stores (d : FileDriver) (io : Io) (fs : Fs) (real : Name) (wrapped : Json) : Prop :=
  FileDriver.MayUpdate d io fs real wrapped ∧
    d.rapidjson.document (io.stored (d.rapidjson.print wrapped)) = wrapped

/-- A PUT is durable exactly when, if its own checks pass, the file driver writes the document. -/
theorem durable_iff (d : FileDriver) (io : Io) (validator : IValidator) (item : Resource)
    (content namespaceId : String) (s : Store Fs) :
    Durable d io validator item content namespaceId s ↔
      ∀ c j ns r, PutAccepts (config d validator) item content namespaceId (some ns) c j →
        getNamespace s item.name = some ns → virtualToRealName item.name ns = .ok r →
        Stores d io s.driver r (utils.jsonGenerator j content) := by
  have hput := run_putResource (d.driver io) (config d validator) item content namespaceId s
  constructor
  · intro h c j ns r haccepts hns hr
    rw [hns] at hput
    rcases hput with ⟨-, hnot⟩ | ⟨c', j', haccepts', hput⟩
    · exact absurd haccepts (hnot c j)
    have hj := (putContent_ok haccepts.content).parsed
    cases hj.symm.trans (putContent_ok haccepts'.content).parsed
    rcases updateDoc_cases d io hns (utils.jsonGenerator j content) with
      ⟨e, he, -⟩ | ⟨r', hr', hcases⟩
    · cases hr.symm.trans he
    cases hr.symm.trans hr'
    rcases hcases with ⟨hnot, e, he⟩ | ⟨hmay, s', hs', -, hread⟩
    · obtain ⟨e', s', hreported, -⟩ := h.reported j e s hj he
      rw [he] at hput
      cases hreported.symm.trans hput
    · rw [hs'] at hput
      obtain ⟨j', hj', hstored, -⟩ := h.stored s' hput
      cases hj.symm.trans hj'
      rw [hread] at hstored
      exact ⟨hmay, Except.ok.inj (Except.ok.inj hstored)⟩
  · intro h
    rcases hput with ⟨⟨e, hput⟩, -⟩ | ⟨c, j, haccepts, hput⟩
    · refine ⟨fun s' hs' => ?_, fun _ _ _ _ _ => ⟨e, s, hput, rfl⟩⟩
      cases hput.symm.trans hs'
    obtain ⟨ns, hns, hsame⟩ := haccepts.same
    rw [hns] at haccepts
    have hj := (putContent_ok haccepts.content).parsed
    rcases updateDoc_cases d io hns (utils.jsonGenerator j content) with
      ⟨e, -, he⟩ | ⟨r, hr, hcases⟩
    · -- the name does not fit: the call throws, and so does the request
      rw [he] at hput
      refine ⟨fun s' hs' => ?_, fun j' e' s₁ hj' he' => ?_⟩
      · cases hput.symm.trans hs'
      · cases hj.symm.trans hj'
        cases he.symm.trans he'
    obtain ⟨hmay, hback⟩ := h c j ns r haccepts hns hr
    rcases hcases with ⟨hnot, -⟩ | ⟨-, s₂, hs₂, hns₂, hread⟩
    · exact absurd hmay hnot
    rw [hs₂] at hput
    rw [hback] at hread
    refine ⟨fun s' hs' => ?_, fun j' e' s₁ hj' he' => ?_⟩
    · cases hput.symm.trans hs'
      have htype : item.type ≠ .COLLECTION := by
        intro ht
        have hasset := haccepts.asset
        rw [ht] at hasset
        cases hasset
      exact ⟨j, hj, hread,
        run_getResource htype haccepts.given hns₂ hsame hread (get_jsonGenerator j content)⟩
    · cases hj.symm.trans hj'
      cases hs₂.symm.trans he'

end Durability

/-! ## A PUT whose error is lost -/

/-- A content with a repeated member, and its JSON. -/
def repeated : String := "\x7b\"name\":\"decoder/a/0\",\"a\":1,\"a\":2\x7d"

def repeatedJson : Json :=
  .obj [("name", .str "decoder/a/0"), ("a", .num (.int 1)), ("a", .num (.int 2))]

/-- A document was created in a store over an empty directory. The store refuses the new content of
it, and the PUT answers no error. -/
theorem put_loses_error :
    let name : Name := ⟨["decoder", "a", "0"], by decide, by decide, by decide⟩
    let ns : NamespaceId := ⟨⟨["user"], by decide, by decide, by decide⟩, rfl⟩
    let d : FileDriver := ⟨"/store",
      ⟨fun text => if text = repeated then .ok repeatedJson else .error ⟨"Parse error"⟩,
        fun _ => "null"⟩⟩
    let s : Store Fs := resultState ((createDoc (d.driver .calm) name ns .null).run
      ⟨.empty, Fs.set ⟨∅, []⟩ ["store"] .dir⟩)
    let accepting : IValidator := ⟨fun _ _ => none, fun _ => none⟩
    (∃ e, (updateDoc (d.driver .calm) name (utils.jsonGenerator repeatedJson repeated)).run s =
        .ok (some e) s) ∧
      (put d .calm accepting ⟨name, .DECODER, true⟩ repeated "user").run s = .ok none s ∧
      ¬ Durable d .calm accepting ⟨name, .DECODER, true⟩ repeated "user" s := by
  intro name ns d s accepting
  have hns : getNamespace s name = some ns := by decide +kernel
  have hkeys : (utils.jsonGenerator repeatedJson repeated).checkDuplicateKeys ≠ none := by
    decide +kernel
  have hupdate : ∃ e, (updateDoc (d.driver .calm) name
      (utils.jsonGenerator repeatedJson repeated)).run s = .ok (some e) s := by
    rcases updateDoc_cases d .calm hns (utils.jsonGenerator repeatedJson repeated) with
      ⟨e, he, -⟩ | ⟨r, -, ⟨-, e, he⟩ | ⟨hmay, -⟩⟩
    · have hfits : name.parts.length + 2 ≤ MAX_PARTS := by decide
      obtain ⟨r, hr⟩ := virtualToRealName_ok_iff.mpr hfits
      cases hr.symm.trans he
    · exact ⟨e, he⟩
    · exact absurd hmay.keys hkeys
  have hparse : d.rapidjson.parse (cstr repeated) = .ok repeatedJson := by
    have htext : cstr repeated = repeated := by decide +kernel
    rw [htext]
    simp [d]
  have hname : Name.ofString "decoder/a/0" = .ok name := by
    have hsplit : split "decoder/a/0" SEPARATOR_C = name.parts := by decide +kernel
    unfold Name.ofString
    rw [hsplit, Name.ofParts_parts]
  have haccepts : PutAccepts (config d accepting) ⟨name, .DECODER, true⟩ repeated "user"
      (getNamespace s name) "decoder/a/0" repeatedJson := by
    refine ⟨rfl, by decide, ⟨ns, hns, rfl⟩, ?_⟩
    have hget : repeatedJson.getString ["name"] = some "decoder/a/0" := by decide +kernel
    unfold putContent
    simp only [config, hparse, hget, hname]
    rfl
  have hput : (put d .calm accepting ⟨name, .DECODER, true⟩ repeated "user").run s =
      .ok none s := by
    rcases run_putResource (d.driver .calm) (config d accepting) ⟨name, .DECODER, true⟩ repeated
      "user" s with ⟨-, hnot⟩ | ⟨c, j, hc, hrun⟩
    · exact absurd haccepts (hnot _ _)
    · cases hparse.symm.trans (putContent_ok hc.content).parsed
      obtain ⟨e, he⟩ := hupdate
      rw [he] at hrun
      exact hrun
  refine ⟨hupdate, hput, fun h => ?_⟩
  obtain ⟨e, he⟩ := hupdate
  obtain ⟨e', s', hs', -⟩ := h.reported repeatedJson e s hparse he
  cases hput.symm.trans hs'

end DistroDefender.Catalog
