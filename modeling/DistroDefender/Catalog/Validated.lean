import DistroDefender.Catalog.Served
import DistroDefender.Store.MemDriver

/-!
# Stored documents are named and validated

A ledger keeps, beside the store, the collection each document was posted to. Over every run of
requests whose PUTs carry an item as the constructors of `Resource` make it, every document in the
store is named as its content says, lies in its collection, and has a content the validator accepted
(`all_vetted`). The fields of a resource are public: a PUT of an item with another flag or another
type than its name says stores what the validator refused (`put_unvalidated`).
-/

namespace DistroDefender.Catalog

open Base Lib Store

/-- The validator accepted the content of the document `n` of `ns`. -/
def Accepted (validator : IValidator) (n : Name) (ns : NamespaceId) (contentJson : Json) : Prop :=
  if n.first = typeToStr .INTEGRATION then
    ∃ text, (parseNamespace text = .ok ns ∨ text = ns.str) ∧
      validator.validateIntegration contentJson text = none
  else validator.validateAsset contentJson = none

/-- What the catalog makes sure of for a document posted to a collection. -/
structure Vetted (validator : IValidator) (n : Name) (ns : NamespaceId) (collection : Resource)
    (contentJson : Json) : Prop extends WellNamed n contentJson where
  within : collection.name.parts <+: n.parts
  below : collection.Constructed → collection.name.Below n
  accepted : n.first ≠ typeToStr .SCHEMA → Accepted validator n ns contentJson

theorem documentTypes_cases {text : String} (h : text ∈ documentTypes) :
    cstr text = text ∧ strToType text ≠ .UNKNOWN ∧ strToType text ≠ .COLLECTION := by
  have hall : ∀ t ∈ documentTypes,
      cstr t = t ∧ strToType t ≠ .UNKNOWN ∧ strToType t ≠ .COLLECTION := by decide +kernel
  exact hall text h

/-- A resource of the type its name says is validated as that type. -/
theorem accepted_of_validate {cfg : Config} {r : Resource} {text : String} {ns : NamespaceId}
    {contentJson : Json} (htype : strToType r.name.first ≠ .UNKNOWN)
    (hr : r.type = strToType r.name.first)
    (hns : parseNamespace text = .ok ns ∨ text = ns.str)
    (h : validate cfg r text contentJson = none) :
    Accepted cfg.validator r.name ns contentJson := by
  have hfirst := typeToStr_strToType htype
  unfold validate at h
  unfold Accepted
  split at h
  · cases h
  split at h
  · rename_i hint
    split at h
    · cases h
    rw [if_pos (by rw [← hfirst, ← hr, hint])]
    exact ⟨text, hns, h⟩
  · rename_i hint
    rw [if_neg]
    · exact h
    · intro heq
      apply hint
      rw [hr, heq]
      rfl

/-- A store, and the collection each of its documents was posted to. -/
structure Ledger (σ : Type) where
  store : Store σ
  postedTo : Name → Option Resource

/-- The collection a request posts to. -/
def Req.collection : Req → Option Resource
  | .post collection .. => some collection
  | .put .. | .delete .. => none

section

variable {σ : Type}

/-- Requests served one after another, from a store without documents. -/
def ledger (d : TreeDriver σ) (cfg : Config) : System (Ledger σ) Req where
  init L := (Store.system d).init L.store ∧ ∀ n, L.postedTo n = none
  step L q L' :=
    L'.store = resultState ((q.serve d.toIDriver cfg).run L.store) ∧
      L'.postedTo = fun n =>
        if Store.existsDoc L.store n = false ∧ Store.existsDoc L'.store n = true then q.collection
        else L.postedTo n

/-- The item of a PUT is as a constructor of `Resource` makes it. -/
def PutsConstructed (_ : Ledger σ) : Req → Prop
  | .put item _ _ => item.Constructed
  | .post .. | .delete .. => True

/-- Every document of the store is vetted. -/
def AllVetted (d : IDriver σ) (validator : IValidator) (L : Ledger σ) : Prop :=
  ∀ n, Store.existsDoc L.store n = true → ∃ ns doc contentJson collection,
    Store.getNamespace L.store n = some ns ∧ Store.readDoc d L.store n = .ok (.ok doc) ∧
      doc.get ["json"] = some contentJson ∧ L.postedTo n = some collection ∧
      Vetted validator n ns collection contentJson

end

/-! ## Runs -/

/-- The documents of the map are vetted. -/
def MapVetted (validator : IValidator) (m : DocMap) (postedTo : Name → Option Resource) : Prop :=
  ∀ n ns doc, m n = some (ns, doc) → ∃ contentJson original collection,
    doc = utils.jsonGenerator contentJson original ∧ postedTo n = some collection ∧
      Vetted validator n ns collection contentJson

/-- What a request posts is vetted. -/
theorem PostAccepts.vetted {cfg : Config} {collection r : Resource} {namespaceStr content : String}
    {ns : NamespaceId} {j : Json} (h : PostAccepts cfg collection namespaceStr content r ns j) :
    Vetted cfg.validator r.name ns collection j := by
  obtain ⟨text, hposted⟩ := h.posted
  obtain ⟨hlen, hunknown, -, hr⟩ := hposted.cases
  refine ⟨hposted.wellNamed, hposted.within, fun hcon => ⟨hposted.within, ?_⟩, fun hschema => ?_⟩
  · -- a constructed collection has one or two parts
    rcases hcon with hdef | hbuilt
    · have htype := h.intoCollection
      rw [hdef] at htype
      cases htype
    · obtain ⟨-, ⟨hle, -⟩ | ⟨-, hcol, heq⟩⟩ := Resource.ofName_cases hbuilt
      · omega
      · exact absurd ((congrArg Resource.type heq).symm.trans h.intoCollection) hcol
  · have htype : r.type = strToType r.name.first := congrArg Resource.type hr
    refine accepted_of_validate hunknown htype (.inl h.parsedNs) (h.validated ?_)
    have hval : r.validation = (strToType r.name.first).isAsset := congrArg Resource.validation hr
    rw [hval]
    have hne : strToType r.name.first ≠ .SCHEMA := fun he => hschema (by
      rw [← he, typeToStr_strToType hunknown])
    have hdoc := hposted.document
    rw [htype] at hdoc
    cases he : strToType r.name.first with
    | UNKNOWN => exact absurd he hunknown
    | SCHEMA => exact absurd he hne
    | COLLECTION => exact absurd he hdoc
    | DECODER | RULE | FILTER | OUTPUT | INTEGRATION => rfl

/-- What a PUT of a constructed item stores is vetted as before. -/
theorem PutAccepts.vetted {cfg : Config} {item collection : Resource}
    {content namespaceId text : String} {ns : NamespaceId} {j j' : Json}
    (h : PutAccepts cfg item content namespaceId (some ns) text j) (hcon : item.Constructed)
    (hold : Vetted cfg.validator item.name ns collection j') :
    Vetted cfg.validator item.name ns collection j := by
  have hcontent := putContent_ok h.content
  have hnamed : WellNamed item.name j :=
    ⟨hold.three, hold.typed, text, hcontent.named, hcontent.sameName⟩
  refine ⟨hnamed, hold.within, hold.below, fun _ => ?_⟩
  obtain ⟨hcstr, htype, -⟩ := documentTypes_cases hold.typed
  have hasset := h.asset
  rcases hcon with hdef | hbuilt
  · rw [hdef] at hasset
    cases hasset
  obtain ⟨-, ⟨-, heq⟩ | ⟨-, -, heq⟩⟩ := Resource.ofName_cases hbuilt
  · rw [heq] at hasset
    cases hasset
  rw [hcstr] at heq
  have hitem : item.type = strToType item.name.first := congrArg Resource.type heq
  have hvalidation : item.validation = true := by
    rw [show item.validation =
      (strToType item.name.first).isAsset from congrArg Resource.validation heq, ← hitem, hasset]
  obtain ⟨ns', hns', hsame⟩ := h.same
  cases hns'
  exact accepted_of_validate htype hitem (.inr hsame) (hcontent.validated hvalidation)

section Runs

variable {σ : Type} {d : TreeDriver σ} {cfg : Config} {L L' : Ledger σ} {m m' : DocMap} {q : Req}

/-- A document that was there keeps its collection. -/
theorem postedTo_of_some (hm : Holds d L.store m) (hs : (ledger d cfg).step L q L') {n : Name}
    (hn : m n ≠ none) : L'.postedTo n = L.postedTo n := by
  rw [hs.2]
  have hex : Store.existsDoc L.store n = true := hm.answers.existsDoc n |>.mpr hn
  simp only [hex, Bool.true_eq_false, false_and, if_false]

/-- A document that is new has the collection of the request. -/
theorem postedTo_of_new (hm : Holds d L.store m) (hm' : Holds d L'.store m')
    (hs : (ledger d cfg).step L q L') {n : Name} (hn : m n = none) (hn' : m' n ≠ none) :
    L'.postedTo n = q.collection := by
  rw [hs.2]
  have hex : Store.existsDoc L.store n = false := by
    rw [← Bool.not_eq_true, hm.answers.existsDoc]
    exact not_not.mpr hn
  have hex' : Store.existsDoc L'.store n = true := hm'.answers.existsDoc n |>.mpr hn'
  simp only [hex, hex', true_and, if_true]

/-- Documents that stay as they were stay vetted. -/
theorem MapVetted.keep (h : MapVetted cfg.validator m L.postedTo) (hm : Holds d L.store m)
    (hs : (ledger d cfg).step L q L') (hsub : ∀ n p, m' n = some p → m n = some p) :
    MapVetted cfg.validator m' L'.postedTo := by
  intro n ns doc hn
  have hold := hsub n _ hn
  rw [postedTo_of_some hm hs (by rw [hold]; exact Option.some_ne_none _)]
  exact h n ns doc hold

theorem MapVetted.step (h : MapVetted cfg.validator m L.postedTo) (hm : Holds d L.store m)
    (hg : PutsConstructed L q) (hs : (ledger d cfg).step L q L')
    {a : OwnedMap.Op Name NamespaceId Doc} (ha : Asks cfg m q a) (hen : a.Enabled Name.Below m)
    (hm' : Holds d L'.store (a.effect Name.Below m)) :
    MapVetted cfg.validator (a.effect Name.Below m) L'.postedTo := by
  cases ha with
  | @post collection r namespaceStr content ns j hpost =>
    intro n ns' doc hn
    by_cases hname : n = r.name
    · subst hname
      have hnew := postedTo_of_new hm hm' hs hen (by rw [hn]; exact Option.some_ne_none _)
      rw [OwnedMap.Op.effect, Function.update_self] at hn
      cases hn
      exact ⟨j, content, collection, rfl, hnew, hpost.vetted⟩
    · rw [OwnedMap.Op.effect, Function.update_of_ne hname] at hn
      rw [postedTo_of_some hm hs (by rw [hn]; exact Option.some_ne_none _)]
      exact h n ns' doc hn
  | @put item content namespaceId text j hput =>
    intro n ns' doc hn
    by_cases hname : n = item.name
    · subst hname
      rw [OwnedMap.Op.effect, Function.update_self] at hn
      obtain ⟨⟨ns, old⟩, hold, heq⟩ := Option.map_eq_some_iff.mp hn
      cases heq
      obtain ⟨j', -, collection, -, hposted, hvetted⟩ := h _ _ _ hold
      rw [OwnedMap.owner_eq_some.mpr ⟨_, hold⟩] at hput
      refine ⟨j, content, collection, rfl, ?_, hput.vetted hg hvetted⟩
      rw [postedTo_of_some hm hs (by rw [hold]; exact Option.some_ne_none _)]
      exact hposted
    · rw [OwnedMap.Op.effect, Function.update_of_ne hname] at hn
      rw [postedTo_of_some hm hs (by rw [hn]; exact Option.some_ne_none _)]
      exact h n ns' doc hn
  | deleteDoc htype howner hsame =>
    refine h.keep hm hs fun n p hn => ?_
    simp only [OwnedMap.Op.effect, Function.update_apply] at hn
    split at hn
    · cases hn
    · exact hn
  | deleteCol htype hns =>
    refine h.keep hm hs fun n p hn => ?_
    rw [OwnedMap.effect_deleteBelow] at hn
    split at hn
    · cases hn
    · exact hn

theorem ledger_inductive : ((ledger d cfg).guarded PutsConstructed).Inductive
    fun L => ∃ m, Holds d L.store m ∧ MapVetted cfg.validator m L.postedTo where
  init L hL := by
    obtain ⟨m, hm, hholds⟩ := (simulates d).init _ hL.1
    refine ⟨m, hholds, fun n ns doc hn => ?_⟩
    rw [show m = OwnedMap.empty from hm] at hn
    cases hn
  step L q L' := by
    rintro ⟨m, hm, hv⟩ ⟨hg, hs⟩
    have hdid := serve_did cfg hm q
    have hstore : L'.store = resultState ((q.serve d.toIDriver cfg).run L.store) := hs.1
    generalize (q.serve d.toIDriver cfg).run L.store = r at hdid hstore
    cases hdid with
    | nothing h => exact ⟨m, hstore ▸ h, hv.keep hm hs fun _ _ hn => hn⟩
    | @done s' a ha hen h =>
      have h' : Holds d L'.store (a.effect Name.Below m) := by
        rw [hstore]
        exact h
      exact ⟨_, h', hv.step hm hg hs ha hen h'⟩

/-- Over every run of requests whose PUTs carry a constructed item, every document of the store is
vetted. -/
theorem all_vetted (cfg : Config) (d : TreeDriver σ) (L : Ledger σ)
    (h : ((ledger d cfg).guarded PutsConstructed).Reachable L) :
    AllVetted d.toIDriver cfg.validator L := by
  obtain ⟨m, hm, hv⟩ := ledger_inductive.holds h
  intro n hn
  have hsome := (hm.answers.existsDoc n).mp hn
  obtain ⟨⟨ns, doc⟩, hdoc⟩ := Option.ne_none_iff_exists'.mp hsome
  obtain ⟨j, original, collection, rfl, hposted, hvetted⟩ := hv n ns doc hdoc
  refine ⟨ns, _, j, collection, ?_, ?_, get_jsonGenerator j original, hposted, hvetted⟩
  · rw [hm.answers.getNamespace]
    exact OwnedMap.owner_eq_some.mpr ⟨_, hdoc⟩
  · rw [hm.answers.readDoc, hdoc]

end Runs

/-! ## A PUT that is not validated -/

section Unvalidated

def refusedText : String := "\x7b\"name\":\"decoder/a/0\",\"bad\":1\x7d"

def refusedJson : Json := .obj [("name", .str "decoder/a/0"), ("bad", .num (.int 1))]

/-- A catalog that accepts the assets without a member `bad`; its rapidjson knows two texts. -/
def picky : Config :=
  ⟨⟨fun _ _ => none, fun j => if j.existsAt ["bad"] then some ⟨"bad"⟩ else none⟩,
    ⟨fun text => if text = docText then .ok docJson
      else if text = refusedText then .ok refusedJson else .error ⟨"Parse error"⟩, fun _ =>
        docText⟩⟩

/-- A POST of the document, and a PUT of the refused content as an item that is not validated. -/
def postUser : Req := .post ⟨decoderName, .COLLECTION, false⟩ "user" docText

def putRefused : Req := .put ⟨docName, .DECODER, false⟩ refusedText "user"

/-- The ledger after a request. -/
def Ledger.after {σ : Type} (d : IDriver σ) (cfg : Config) (L : Ledger σ) (q : Req) : Ledger σ :=
  let store := resultState ((q.serve d cfg).run L.store)
  ⟨store, fun n =>
    if Store.existsDoc L.store n = false ∧ Store.existsDoc store n = true then q.collection
    else L.postedTo n⟩

theorem Ledger.step_after {σ : Type} (d : TreeDriver σ) (cfg : Config) (L : Ledger σ) (q : Req) :
    (ledger d cfg).step L q (L.after d.toIDriver cfg q) := ⟨rfl, rfl⟩

def newLedger : Ledger MemTree := ⟨⟨.empty, .empty⟩, fun _ => none⟩

theorem newLedger_init (cfg : Config) : (ledger memDriver.toTreeDriver cfg).init newLedger :=
  ⟨⟨rfl, fun _ _ => rfl⟩, fun _ => rfl⟩

def postedLedger : Ledger MemTree := newLedger.after memDriver.toIDriver picky postUser

def putLedger : Ledger MemTree := postedLedger.after memDriver.toIDriver picky putRefused

/-- What the validator refuses is in the store. -/
theorem put_unvalidated : (ledger memDriver.toTreeDriver picky).Reachable putLedger ∧
    ¬ AllVetted memDriver.toIDriver picky.validator putLedger := by
  have hposted :=
    (System.Reachable.init (newLedger_init picky)).step (Ledger.step_after _ _ _ postUser)
  refine ⟨hposted.step (Ledger.step_after _ _ _ putRefused), fun h => ?_⟩
  have hex : Store.existsDoc putLedger.store docName = true := by decide +kernel
  have hbad : ((Store.readDoc memDriver.toIDriver putLedger.store docName).toOption.bind
      Except.toOption).any (fun doc => (doc.get ["json"]).any (Json.existsAt · ["bad"])) =
        true := by
    decide +kernel
  obtain ⟨ns, doc, j, c, -, hdoc, hj, -, hvetted⟩ := h docName hex
  rw [hdoc] at hbad
  simp only [Except.toOption, Option.bind_some, hj, Option.any_some] at hbad
  have haccepted := hvetted.accepted (by decide)
  unfold Accepted at haccepted
  rw [if_neg (by decide)] at haccepted
  simp only [picky, hbad, if_true] at haccepted
  cases haccepted

/-- The document, posted alone. -/
theorem all_vetted_once : Store.existsDoc postedLedger.store docName = true ∧
    AllVetted memDriver.toIDriver picky.validator postedLedger := by
  refine ⟨by decide +kernel, all_vetted picky memDriver.toTreeDriver postedLedger ?_⟩
  exact System.Reachable.step (l := postUser) (.init (newLedger_init picky))
    ⟨trivial, Ledger.step_after _ _ _ postUser⟩

end Unvalidated

end DistroDefender.Catalog
