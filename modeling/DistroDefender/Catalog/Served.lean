import DistroDefender.Catalog.Interleaving

/-!
# Requests served one after another

A request served to its end does to the map of the store nothing, or the one operation it asks for
(`serve_holds`). `Asks` says which operation that is and what the request has checked by then. A
request that answers no error did its operation, but for a PUT, whose store error is lost.

From a store without documents every document then is one a POST wrapped: its name has three parts
and is the name in its content (`stored_inductive`).
-/

namespace DistroDefender.Catalog

open Base Lib Store

/-! ## What a request asks of the map -/

/-- The operation a request asks for once its checks pass, where the map is `m`. -/
inductive Asks (cfg : Config) (m : DocMap) : Req → OwnedMap.Op Name NamespaceId Doc → Prop
  | post {collection r : Resource} {namespaceStr content : String} {ns : NamespaceId} {j : Json}
      (h : PostAccepts cfg collection namespaceStr content r ns j) :
      Asks cfg m (.post collection namespaceStr content)
        (.create r.name ns (utils.jsonGenerator j content))
  | put {item : Resource} {content namespaceId text : String} {j : Json}
      (h : PutAccepts cfg item content namespaceId (m.owner item.name) text j) :
      Asks cfg m (.put item content namespaceId) (.update item.name (utils.jsonGenerator j content))
  | deleteDoc {resource : Resource} {namespaceId : String} {ns : NamespaceId}
      (htype : resource.type ≠ .COLLECTION) (howner : m.owner resource.name = some ns)
      (hsame : namespaceId = ns.str) :
      Asks cfg m (.delete resource namespaceId) (.delete resource.name)
  | deleteCol {resource : Resource} {namespaceId : String} {ns : NamespaceId}
      (htype : resource.type = .COLLECTION) (hns : parseNamespace namespaceId = .ok ns) :
      Asks cfg m (.delete resource namespaceId) (.deleteBelow resource.name ns)

/-- A PUT. -/
def Req.IsPut : Req → Prop
  | .put .. => True
  | .post .. | .delete .. => False

section Serve

variable {σ : Type}

/-- The request, served to its end. -/
def Req.serve (d : IDriver σ) (cfg : Config) (q : Req) : Call (Store σ) OptError :=
  (q.prog cfg).run (handle d)

/-- What a served request did to the map: nothing, or the operation it asks for. Only a PUT answers
no error without its operation. -/
inductive Did (cfg : Config) (d : TreeDriver σ) (m : DocMap) (q : Req) :
    EStateM.Result Throw (Store σ) OptError → Prop
  | nothing {r : EStateM.Result Throw (Store σ) OptError} (h : Holds d (resultState r) m)
      (hr : succeeded r = true → q.IsPut) : Did cfg d m q r
  | done {s' : Store σ} {a : OwnedMap.Op Name NamespaceId Doc} (ha : Asks cfg m q a)
      (hen : a.Enabled Name.Below m) (h : Holds d s' (a.effect Name.Below m)) :
      Did cfg d m q (.ok none s')

variable {cfg : Config} {d : TreeDriver σ} {s : Store σ} {m : DocMap}

/-- An operation of the store is done, or fails and leaves the map as it was. -/
theorem exec_cases (h : Holds d s m) (op : Store.Op) {a : OwnedMap.Op Name NamespaceId Doc}
    (ha : op.onMap = some a) :
    (∃ s', (exec d.toIDriver op).run s = .ok none s' ∧ a.Enabled Name.Below m ∧
      Holds d s' (a.effect Name.Below m)) ∨
    (succeeded ((exec d.toIDriver op).run s) = false ∧
      Holds d (resultState ((exec d.toIDriver op).run s)) m) := by
  have heffect : op.effect m = a.effect Name.Below m := by
    unfold Op.effect
    rw [ha]
  have hanswered := exec_answered h op
  generalize (exec d.toIDriver op).run s = r at hanswered ⊢
  cases hanswered with
  | asked hx hr =>
    cases hr with
    | done _ hm => exact .inl ⟨_, rfl, hx.enabled ha, heffect ▸ hm⟩
    | failed _ hf hcache hdocs => exact .inr ⟨hf, by rw [Holds, hcache, hdocs]; exact h⟩
  | refused _ hf hstate => exact .inr ⟨hf, by rw [hstate]; exact h⟩

theorem Refused.did {q : Req} {p : StoreM OptError} (h : Refused p) (hm : Holds d s m) :
    Did cfg d m q ((p.run (handle d.toIDriver)).run s) := by
  cases h with
  | ret e => exact .nothing hm (fun hr => by cases hr)
  | raise e => exact .nothing hm (fun hr => by cases hr)

/-- A call that writes, and the report of its answer. -/
theorem Reports.did {q : Req} {a : OwnedMap.Op Name NamespaceId Doc}
    {k : OptError → StoreM OptError} (hk : Reports k) (h : Holds d s m) (op : Store.Op)
    (ha : op.onMap = some a) (hasks : Asks cfg m q a) :
    Did cfg d m q
      ((exec d.toIDriver op >>= fun r => (k r).run (handle d.toIDriver)).run s) := by
  rw [EStateM.run_bind]
  rcases exec_cases h op ha with ⟨s', hs', hen, hm⟩ | ⟨hf, hm⟩
  · rw [hs']
    simp only [hk.done]
    exact .done hasks hen hm
  · cases hrun : (exec d.toIDriver op).run s with
    | ok r s' =>
      rw [hrun] at hf hm
      cases r with
      | none => cases hf
      | some e =>
        obtain ⟨e', he'⟩ := hk.failed e
        simp only [he']
        exact .nothing hm (fun hr => by cases hr)
    | error e s' =>
      rw [hrun] at hm
      exact .nothing hm (fun hr => by cases hr)

variable (cfg) in
theorem serve_did (h : Holds d s m) (q : Req) :
    Did cfg d m q ((q.serve d.toIDriver cfg).run s) := by
  unfold Req.serve
  have hns : ∀ n, (handle d.toIDriver (.getNamespace n)).run s = .ok (m.owner n) s := fun n =>
    congrArg (fun a => EStateM.Result.ok a s) (h.cached n)
  cases q with
  | post collection namespaceStr content =>
    simp only [Req.prog]
    rcases postResource_shape cfg collection namespaceStr content with hrefused |
      ⟨r, ns, j, k, haccepts, hp, hk⟩
    · exact hrefused.did h
    · rw [hp]
      exact hk.did h (.createDoc _ _ _) rfl (.post haccepts)
  | put item content namespaceId =>
    simp only [Req.prog]
    rcases putResource_shape cfg item content namespaceId with ⟨⟨e, he⟩, -⟩ | ⟨next, hp, hnext⟩
    · rw [he]
      exact (Refused.ret e).did h
    rw [hp, Prog.run_call_ok (hns item.name)]
    rcases hnext (m.owner item.name) with ⟨⟨e, he⟩, -⟩ | ⟨text, j, haccepts, hcall⟩
    · rw [he]
      exact (Refused.ret e).did h
    rw [hcall]
    -- the answer of the store is dropped
    show Did cfg d m _ ((exec d.toIDriver (.updateDoc item.name (utils.jsonGenerator j content)) >>=
      fun _ => pure none).run s)
    rw [EStateM.run_bind]
    rcases exec_cases h (.updateDoc item.name (utils.jsonGenerator j content)) rfl with
      ⟨s', hs', hen, hm⟩ | ⟨-, hm⟩
    · rw [hs']
      exact .done (.put haccepts) hen hm
    · cases hrun :
        (exec d.toIDriver (.updateDoc item.name (utils.jsonGenerator j content))).run s with
      | ok r s' | error e s' =>
        rw [hrun] at hm
        exact .nothing hm fun _ => trivial
  | delete resource namespaceId =>
    simp only [Req.prog]
    by_cases htype : resource.type = .COLLECTION
    · rcases deleteResource_shape_col htype namespaceId with hrefused | ⟨ns, k, hparse, hp, hk⟩
      · exact hrefused.did h
      · rw [hp]
        exact hk.did h (.deleteCol _ _) rfl (.deleteCol htype hparse)
    · rcases deleteResource_shape_doc htype namespaceId with hrefused | ⟨next, hp, hnext⟩
      · exact hrefused.did h
      rw [hp, Prog.run_call_ok (hns resource.name)]
      rcases hnext (m.owner resource.name) with hrefused | ⟨⟨ns, howner, hsame⟩, hcall⟩
      · exact hrefused.did h
      · rw [hcall]
        exact Reports.did ⟨rfl, fun e => ⟨e, rfl⟩⟩ h (.deleteDoc _) rfl
          (.deleteDoc htype howner hsame)

end Serve

/-! ## Runs -/

/-- Requests served one after another, from a store without documents. -/
def served {σ : Type} (d : TreeDriver σ) (cfg : Config) : System (Store σ) Req where
  init := (Store.system d).init
  step s q s' := resultState ((q.serve d.toIDriver cfg).run s) = s'

/-- The types whose resources are documents. -/
def documentTypes : List String := ["decoder", "rule", "filter", "output", "integration", "schema"]

theorem mem_documentTypes {text : String} (hunknown : strToType text ≠ .UNKNOWN)
    (hcol : strToType text ≠ .COLLECTION) : text ∈ documentTypes := by
  have htext := typeToStr_strToType hunknown
  cases htype : strToType text with
  | UNKNOWN => exact absurd htype hunknown
  | COLLECTION => exact absurd htype hcol
  | DECODER | RULE | FILTER | OUTPUT | SCHEMA | INTEGRATION =>
    rw [htype] at htext
    rw [← htext]
    decide

/-- A name of a document that is the name in its content. -/
structure WellNamed (n : Name) (contentJson : Json) : Prop where
  three : n.parts.length = 3
  typed : n.first ∈ documentTypes
  named : ∃ text, contentJson.getString ["name"] = some text ∧ Name.ofString text = .ok n

theorem Posted.wellNamed {collection r : Resource} {j : Json} {text : String}
    (h : Posted collection j text r) : WellNamed r.name j := by
  obtain ⟨hlen, hunknown, hcol, -⟩ := h.cases
  exact ⟨hlen, mem_documentTypes hunknown hcol, text, h.named, h.parsed⟩

/-- Every document wraps a content that names it, and its namespace was read from a text. -/
def Wrapped (m : DocMap) : Prop :=
  ∀ n ns doc, m n = some (ns, doc) → (∃ text, parseNamespace text = .ok ns) ∧
    ∃ j content, doc = utils.jsonGenerator j content ∧ WellNamed n j

theorem Wrapped.effect {cfg : Config} {m : DocMap} {q : Req} {a : OwnedMap.Op Name NamespaceId Doc}
    (h : Wrapped m) (ha : Asks cfg m q a) : Wrapped (a.effect Name.Below m) := by
  intro n ns doc hn
  cases ha with
  | post hpost =>
    simp only [OwnedMap.Op.effect, Function.update_apply] at hn
    split at hn
    · rename_i hname
      cases hn
      obtain ⟨text, hposted⟩ := hpost.posted
      exact ⟨⟨_, hpost.parsedNs⟩, _, _, rfl, hname ▸ hposted.wellNamed⟩
    · exact h n ns doc hn
  | put hput =>
    simp only [OwnedMap.Op.effect, Function.update_apply] at hn
    split at hn
    · rename_i item content namespaceId text j hname
      subst hname
      obtain ⟨⟨ns', doc'⟩, hold, heq⟩ := Option.map_eq_some_iff.mp hn
      cases heq
      obtain ⟨htext, j', -, -, hnamed⟩ := h _ _ _ hold
      have hcontent := putContent_ok hput.content
      exact ⟨htext, _, _, rfl, hnamed.three, hnamed.typed, _, hcontent.named, hcontent.sameName⟩
    · exact h n ns doc hn
  | deleteDoc htype howner hsame =>
    simp only [OwnedMap.Op.effect, Function.update_apply] at hn
    split at hn
    · cases hn
    · exact h n ns doc hn
  | deleteCol htype hns =>
    rw [OwnedMap.effect_deleteBelow] at hn
    split at hn
    · cases hn
    · exact h n ns doc hn

section Runs

variable {σ : Type} {d : TreeDriver σ} {cfg : Config} {s : Store σ}

/-- What holds of every store that requests made. -/
theorem served_inductive :
    (served d cfg).Inductive fun s => ∃ m, Holds d s m ∧ Wrapped m where
  init s hs := by
    obtain ⟨m, hm, hholds⟩ := (simulates d).init s hs
    refine ⟨m, hholds, fun n ns doc hn => ?_⟩
    rw [show m = OwnedMap.empty from hm] at hn
    cases hn
  step s q s' := by
    rintro ⟨m, hm, hw⟩ rfl
    have hdid := serve_did cfg hm q
    generalize (q.serve d.toIDriver cfg).run s = r at hdid ⊢
    cases hdid with
    | nothing h => exact ⟨m, h, hw⟩
    | done ha hen h => exact ⟨_, h, hw.effect ha⟩

end Runs

end DistroDefender.Catalog
