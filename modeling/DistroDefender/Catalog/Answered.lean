import DistroDefender.Catalog.Catalog
import DistroDefender.Catalog.Durability
import DistroDefender.Catalog.Interleaving
import DistroDefender.Store.LongNames

/-!
# Calls of the catalog that answer

A call of the catalog should return a value or an error, and leave the store as it was when it
answers an error. Three things keep it from that: a namespace that does not parse, which only POST
catches; a document without `/json`, which GET dereferences; and a POST to a collection whose name
is longer than the name in the content. What the driver does before it answers an error, the store
keeps. `answers_iff` says that nothing else does.
-/

namespace DistroDefender.Catalog

open Base Lib Store

/-! ## The calls -/

/-- The calls of the catalog. -/
inductive Query where
  | post (collection : Resource) (namespaceStr content : String)
  | put (item : Resource) (content namespaceId : String)
  | get (resource : Resource) (namespaceId : String)
  | delete (resource : Resource) (namespaceId : String)
  | validate (item : Resource) (namespaceId content : String)

/-- The error a call answers, if it answers one. -/
def errorOf {α : Type} : RespOrError α → OptError
  | .ok _ => none
  | .error e => some e

/-- The program of a call, with the value a GET returns dropped. -/
def Query.prog (cfg : Config) : Query → StoreM OptError
  | .post collection namespaceStr content => postResource cfg collection namespaceStr content
  | .put item content namespaceId => putResource cfg item content namespaceId
  | .get resource namespaceId => getResource cfg resource namespaceId >>= fun a => .ret (errorOf a)
  | .delete resource namespaceId => deleteResource resource namespaceId
  | .validate item namespaceId content => .ret (validateResource cfg item namespaceId content)

/-- The result of a call made in `t`: it returned, and where it answers an error `t` is as it
was. -/
structure Returned {τ : Type} (t : τ) (r : EStateM.Result Throw τ OptError) : Prop where
  returns : ∃ e t', r = .ok e t'
  unchanged : ∀ e t', r = .ok (some e) t' → t' = t

variable {σ : Type}

/-- The call returns, and changes nothing when it answers an error. -/
def Answers (d : IDriver σ) (cfg : Config) (s : Store σ) (q : Query) : Prop :=
  Returned s (((q.prog cfg).run (handle d)).run s)

/-! ## What keeps a call from answering -/

/-- The loop of a POST reads past the end of the content's name. -/
structure Misindexed (cfg : Config) (collection : Resource) (namespaceStr content : String) :
    Prop where
  intoCollection : collection.type = .COLLECTION
  parsedNs : ∃ ns, parseNamespace namespaceStr = .ok ns
  overrun : ∃ j text r, cfg.rapidjson.parse (cstr content) = .ok j ∧
    j.getString ["name"] = some text ∧
    Name.ofString text = .ok r.name ∧ Resource.ofName r.name = .ok r ∧ r.type ≠ .COLLECTION ∧
    r.name.Below collection.name

/-- The document is in the cache, in a namespace of this text. -/
def InNamespace (s : Store σ) (resource : Resource) (namespaceId : String) : Prop :=
  namespaceId ≠ "" ∧ ∃ ns, getNamespace s resource.name = some ns ∧ namespaceId = ns.str

/-- The call does not read what is not there and parses no malformed namespace outside a `try`. -/
def WellAsked (d : IDriver σ) (cfg : Config) (s : Store σ) : Query → Prop
  | .post collection namespaceStr content => ¬ Misindexed cfg collection namespaceStr content
  | .put .. | .validate .. => True
  | .get resource namespaceId =>
    if resource.type = .COLLECTION then ∃ ns, parseNamespace namespaceId = .ok ns
    else InNamespace s resource namespaceId →
      ∀ doc, Store.readDoc d s resource.name = .ok (.ok doc) → doc.get ["json"] ≠ none
  | .delete resource namespaceId =>
    resource.type = .COLLECTION → ∃ ns, parseNamespace namespaceId = .ok ns

/-- The driver's call that a call of the catalog comes to, whose error is answered. -/
inductive ComesTo (d : IDriver σ) (cfg : Config) (s : Store σ) : Query → Call σ OptError → Prop
  | post {collection r : Resource} {namespaceStr content : String} {ns : NamespaceId} {j : Json}
      {real : Name} (h : PostAccepts cfg collection namespaceStr content r ns j)
      (hfree : s.cache.existsName r.name = false) (hreal : virtualToRealName r.name ns = .ok real) :
      ComesTo d cfg s (.post collection namespaceStr content)
        (d.createDoc real (utils.jsonGenerator j content))
  | deleteDoc {resource : Resource} {namespaceId : String} {ns : NamespaceId} {real : Name}
      (htype : resource.type ≠ .COLLECTION) (hin : InNamespace s resource namespaceId)
      (hns : getNamespace s resource.name = some ns)
      (hreal : virtualToRealName resource.name ns = .ok real) :
      ComesTo d cfg s (.delete resource namespaceId) (d.deleteDoc real)
  | deleteCol {resource : Resource} {namespaceId : String} {ns : NamespaceId} {real : Name}
      (htype : resource.type = .COLLECTION) (hns : parseNamespace namespaceId = .ok ns)
      (hsome : s.cache.filterByPrefix resource.name ns ≠ [])
      (hreal : virtualToRealName resource.name ns = .ok real) :
      ComesTo d cfg s (.delete resource namespaceId) (d.deleteCol real)

/-- The driver's call, made in `t`, changes nothing when it answers an error. -/
def Intact (x : Call σ OptError) (t : σ) : Prop := ∀ e t', x.run t = .ok (some e) t' → t' = t

/-- The call is well asked, and the driver changes nothing where it answers it with an error. -/
structure Answerable (d : IDriver σ) (cfg : Config) (s : Store σ) (q : Query) : Prop where
  asked : WellAsked d cfg s q
  spared : ∀ x, ComesTo d cfg s q x → Intact x s.driver

/-! ## Results -/

section Results

variable {s : Store σ}

theorem Returned.ret {τ : Type} (t : τ) (e : OptError) : Returned t (.ok e t) where
  returns := ⟨e, t, rfl⟩
  unchanged e' t' h := by
    cases h
    rfl

theorem not_returned_error {τ : Type} (t t' : τ) (e : Throw) : ¬ Returned t (.error e t') := by
  intro h
  obtain ⟨e', t₁, h⟩ := h.returns
  cases h

theorem returned_run {x : Call σ OptError} {t : σ} (hx : ∃ e t', x.run t = .ok e t') :
    Returned t (x.run t) ↔ Intact x t :=
  ⟨fun h => h.unchanged, fun h => ⟨hx, h⟩⟩

theorem returned_finish {cache : DBDocNames} {r : EStateM.Result Throw σ OptError} :
    Returned s (finish s cache r) ↔ Returned s.driver r := by
  rcases r with ⟨_ | e, t⟩ | ⟨e, t⟩
  · refine iff_of_true ⟨⟨_, _, rfl⟩, fun e t' h => ?_⟩ ⟨⟨_, _, rfl⟩, fun e t' h => ?_⟩
    · cases h
    · cases h
  · constructor
    · intro h
      refine ⟨⟨_, _, rfl⟩, fun e' t' ht => ?_⟩
      cases ht
      exact congrArg Store.driver (h.unchanged e _ rfl)
    · intro h
      refine ⟨⟨_, _, rfl⟩, fun e' t' ht => ?_⟩
      cases ht
      rw [h.unchanged e t rfl]
  · exact iff_of_false (not_returned_error _ _ e) (not_returned_error _ _ e)

/-- A reported call answers as the call does. -/
theorem Reports.returned {d : IDriver σ} {k : OptError → StoreM OptError} (hk : Reports k)
    (x : Call (Store σ) OptError) :
    Returned s ((x >>= fun a => (k a).run (handle d)).run s) ↔ Returned s (x.run s) := by
  rw [EStateM.run_bind]
  rcases x.run s with ⟨_ | e, s'⟩ | ⟨e, s'⟩
  · simp only [hk.done]
    rfl
  · obtain ⟨e', he'⟩ := hk.failed e
    simp only [he']
    constructor
    · intro h
      refine ⟨⟨_, _, rfl⟩, fun e₁ s₁ hs => ?_⟩
      cases hs
      exact h.unchanged e' s' rfl
    · intro h
      refine ⟨⟨_, _, rfl⟩, fun e₁ s₁ hs => ?_⟩
      cases hs
      exact h.unchanged e s' rfl
  · rfl

end Results

/-! ## Calls of the store -/

section Calls

variable {d : IDriver σ} {s : Store σ} {n : Name} {ns : NamespaceId}

theorem createDoc_returned (hd : Returns d) (hn : FitsReal n) (content : Doc) :
    Returned s ((createDoc d n ns content).run s) ↔ (s.cache.existsName n = false →
      ∀ real, virtualToRealName n ns = .ok real → Intact (d.createDoc real content) s.driver) := by
  obtain ⟨real, hreal⟩ := exists_real hn ns
  rw [run_createDoc]
  cases hex : s.cache.existsName n with
  | true => exact iff_of_true (.ret s _) (fun h => by cases h)
  | false =>
    simp only [Bool.false_eq_true, if_false, hreal, returned_finish,
      returned_run (hd.createDoc real content s.driver)]
    simp

theorem deleteDoc_returned (hd : Returns d) (h : Known s.cache) :
    Returned s ((deleteDoc d n).run s) ↔ ∀ ns, getNamespace s n = some ns →
      ∀ real, virtualToRealName n ns = .ok real → Intact (d.deleteDoc real) s.driver := by
  rw [run_deleteDoc]
  unfold getNamespace
  cases hns : s.cache.getNamespaceId n with
  | none => exact iff_of_true (.ret s _) (fun ns h => by cases h)
  | some ns =>
    obtain ⟨real, hreal⟩ := exists_real (h.fits n ns hns) ns
    simp only [hreal, returned_finish, returned_run (hd.deleteDoc real s.driver)]
    simp [hreal]

theorem deleteCol_returned (hd : Returns d) (h : Known s.cache) :
    Returned s ((deleteCol d n ns).run s) ↔ (s.cache.filterByPrefix n ns ≠ [] →
      ∀ real, virtualToRealName n ns = .ok real → Intact (d.deleteCol real) s.driver) := by
  rw [run_deleteCol]
  split
  · rename_i hnone
    exact iff_of_true (.ret s _) (fun hsome => absurd hnone hsome)
  · rename_i hsome
    obtain ⟨m, hm⟩ := List.exists_mem_of_ne_nil _ hsome
    obtain ⟨real, hreal⟩ := exists_real (fits_of_below h hm) ns
    simp only [hreal, returned_finish, returned_run (hd.deleteCol real s.driver)]
    simp [hsome]

end Calls

/-! ## POST -/

/-- The loop reads past the end of `qs` when `qs` is a strict beginning of `ps`. -/
theorem sameBeginning_error_iff {ps qs : List String} :
    (∃ e, sameBeginning ps qs = .error e) ↔ qs <+: ps ∧ qs.length < ps.length := by
  induction ps generalizing qs with
  | nil => simp [sameBeginning]
  | cons p ps ih =>
    cases qs with
    | nil => simp [sameBeginning]
    | cons q qs =>
      simp only [sameBeginning]
      split
      · rename_i hpq
        refine iff_of_false (by simp) (fun h => hpq ?_)
        exact ((List.cons_prefix_cons.mp h.1).1).symm
      · rename_i hpq
        rw [ih, not_not.mp hpq, List.prefix_cons_inj, List.length_cons, List.length_cons,
          Nat.add_lt_add_iff_right]

theorem sameBeginning_of_prefix {ps qs : List String} (h : ps <+: qs) :
    sameBeginning ps qs = .ok true := by
  induction ps generalizing qs with
  | nil => simp [sameBeginning]
  | cons p ps ih =>
    cases qs with
    | nil => simp at h
    | cons q qs =>
      obtain ⟨rfl, hrest⟩ := List.cons_prefix_cons.mp h
      simp only [sameBeginning, ne_eq, not_true, if_false]
      exact ih hrest

section Post

variable {collection r : Resource} {contentJson : Json} {text : String}

/-- The empty text names nothing. -/
theorem ne_empty_of_name {name : Name} (h : Name.ofString text = .ok name) : text ≠ "" := by
  rintro rfl
  have hparts := Name.ofString_eq_ok.mp h
  exact name.parts_ne hparts

/-- The name of the content, once it names a document. -/
theorem postedResource_named (htext : contentJson.getString ["name"] = some text)
    (hname : Name.ofString text = .ok r.name) (hbuilt : Resource.ofName r.name = .ok r)
    (htype : r.type ≠ .COLLECTION) :
    (∃ e, postedResource collection contentJson = .error e) ↔ r.name.Below collection.name := by
  unfold postedResource
  simp only [htext, if_neg (ne_empty_of_name hname), hname, bind, Except.bind, hbuilt, if_neg htype]
  rw [Name.Below, ← sameBeginning_error_iff]
  cases sameBeginning collection.name.parts r.name.parts with
  | error e => simp
  | ok b => cases b <;> simp [pure, Except.pure]

/-- A name in the content that is no document's is an error, not an exception. -/
theorem named_of_error {e : Throw} (h : postedResource collection contentJson = .error e) :
    ∃ text r, contentJson.getString ["name"] = some text ∧ Name.ofString text = .ok r.name ∧
      Resource.ofName r.name = .ok r ∧ r.type ≠ .COLLECTION := by
  unfold postedResource at h
  cases htext : contentJson.getString ["name"] with
  | none =>
    rw [htext] at h
    cases h
  | some text =>
    simp only [htext] at h
    split at h
    · cases h
    cases hname : Name.ofString text with
    | error e' =>
      simp only [hname] at h
      cases h
    | ok name =>
      cases hbuilt : Resource.ofName name with
      | error e' =>
        simp only [hname, bind, Except.bind, hbuilt] at h
        cases h
      | ok r =>
        simp only [hname, bind, Except.bind, hbuilt] at h
        split at h
        · cases h
        rename_i htype
        have hn : r.name = name := by
          obtain ⟨-, ⟨-, rfl⟩ | ⟨-, -, rfl⟩⟩ := Resource.ofName_cases hbuilt <;> rfl
        exact ⟨text, r, rfl, hn ▸ hname, hn ▸ hbuilt, htype⟩

theorem postedResource_of_posted (h : Posted collection contentJson text r) :
    postedResource collection contentJson = .ok (.ok (text, r)) := by
  unfold postedResource
  simp only [h.named, if_neg (ne_empty_of_name h.parsed), h.parsed, bind, Except.bind, h.built,
    if_neg h.document, sameBeginning_of_prefix h.within]
  rfl

end Post

section Requests

variable {cfg : Config} {collection : Resource} {namespaceStr content : String}

theorem postResource_raise_iff :
    (∃ e, postResource cfg collection namespaceStr content = .raise e) ↔
      Misindexed cfg collection namespaceStr content := by
  constructor
  · rintro ⟨e, he⟩
    unfold postResource at he
    split at he
    · cases he
    rename_i hcol
    cases hns : parseNamespace namespaceStr with
    | error e' =>
      rw [hns] at he
      cases he
    | ok ns =>
      cases hparse : cfg.rapidjson.parse (cstr content) with
      | error e' =>
        simp only [hns, hparse] at he
        cases he
      | ok j =>
        simp only [hns, hparse] at he
        cases hposted : postedResource collection j with
        | error e' =>
          obtain ⟨text, r, htext, hname, hbuilt, htype⟩ := named_of_error hposted
          exact ⟨not_not.mp hcol, ⟨ns, hns⟩, j, text, r, hparse, htext, hname, hbuilt, htype,
            (postedResource_named htext hname hbuilt htype).mp ⟨e', hposted⟩⟩
        | ok posted =>
          rw [hposted] at he
          cases posted with
          | error e' => cases he
          | ok found =>
            simp only [Prog.ofExcept, Prog.ret_bind] at he
            split at he <;> cases he
  · rintro ⟨hcol, ⟨ns, hns⟩, j, text, r, hparse, htext, hname, hbuilt, htype, hbelow⟩
    obtain ⟨e, he⟩ :=
      (@postedResource_named collection r j text htext hname hbuilt htype).mpr hbelow
    refine ⟨e, ?_⟩
    unfold postResource
    rw [if_neg (not_not.mpr hcol), hns]
    simp only [hparse, he]
    rfl

/-- An accepted POST creates its document. -/
theorem postResource_of_accepts {r : Resource} {ns : NamespaceId} {j : Json}
    (h : PostAccepts cfg collection namespaceStr content r ns j) :
    ∃ k, postResource cfg collection namespaceStr content =
      .call (.createDoc r.name ns (utils.jsonGenerator j content)) k ∧ Reports k := by
  obtain ⟨text, hposted⟩ := h.posted
  have hvalid : (if r.validation = true then validate cfg r namespaceStr j else none) = none := by
    split
    · rename_i hv
      exact h.validated hv
    · rfl
  unfold postResource
  rw [if_neg (not_not.mpr h.intoCollection), h.parsedNs]
  simp only [h.parsed, postedResource_of_posted hposted, Prog.ofExcept, Prog.ret_bind, hvalid]
  exact ⟨_, rfl, rfl, fun e => ⟨_, rfl⟩⟩

end Requests

/-! ## The calls answer -/

section Answers

variable {d : IDriver σ} {cfg : Config} {s : Store σ}

theorem answers_iff_run {q : Query} {p : StoreM OptError} (h : q.prog cfg = p) :
    Answers d cfg s q ↔ Returned s ((p.run (handle d)).run s) := by
  unfold Answers
  rw [h]

/-- A program that returns an error without a call answers. -/
theorem answers_of_ret {q : Query} {e : OptError} (h : q.prog cfg = .ret e) :
    Answers d cfg s q := by
  unfold Answers
  rw [h]
  exact .ret s e

theorem not_answers_of_raise {q : Query} {e : Throw} (h : q.prog cfg = .raise e) :
    ¬ Answers d cfg s q := by
  unfold Answers
  rw [h]
  exact not_returned_error s s e

theorem post_answers_iff (hd : Returns d) (collection : Resource) (namespaceStr content : String) :
    Answers d cfg s (.post collection namespaceStr content) ↔
      Answerable d cfg s (.post collection namespaceStr content) := by
  have hraise : (∃ e, postResource cfg collection namespaceStr content = .raise e) ↔
      Misindexed cfg collection namespaceStr content := postResource_raise_iff
  rcases postResource_shape cfg collection namespaceStr content with
      hrefused | ⟨r, ns, j, k, hacc, hcall, hk⟩
  · generalize hp : postResource cfg collection namespaceStr content = p at hrefused hraise
    cases hrefused with
    | raise e =>
      refine iff_of_false (not_answers_of_raise hp) (fun h => ?_)
      exact h.asked (hraise.mp ⟨e, rfl⟩)
    | ret e =>
      refine iff_of_true (answers_of_ret hp) ⟨fun hmis => ?_, fun x hx => ?_⟩
      · obtain ⟨e', he'⟩ := hraise.mpr hmis
        cases he'
      · cases hx with
        | post h _ _ =>
          obtain ⟨k, hk, -⟩ := postResource_of_accepts h
          cases hp.symm.trans hk
  · have hwell : ¬ Misindexed cfg collection namespaceStr content := by
      intro hmis
      obtain ⟨e, he⟩ := hraise.mpr hmis
      cases hcall.symm.trans he
    have hfits : FitsReal r.name := by
      obtain ⟨text, hposted⟩ := hacc.posted
      have hlen := hposted.cases.1
      unfold FitsReal MAX_PARTS
      omega
    have hrun : Answers d cfg s (.post collection namespaceStr content) ↔
        Returned s ((createDoc d r.name ns (utils.jsonGenerator j content)).run s) := by
      rw [answers_iff_run (q := .post collection namespaceStr content) hcall]
      exact hk.returned (createDoc d r.name ns (utils.jsonGenerator j content))
    rw [hrun, createDoc_returned hd hfits]
    constructor
    · intro h
      refine ⟨hwell, fun x hx => ?_⟩
      cases hx with
      | post h' hfree hreal =>
        obtain ⟨k', hk', -⟩ := postResource_of_accepts h'
        have hsame := hcall.symm.trans hk'
        injection hsame with hsame _
        injection hsame with hname hns hdoc
        rw [← hname] at hfree hreal
        rw [← hns] at hreal
        rw [← hdoc]
        exact h hfree _ hreal
    · intro h hfree real hreal
      exact h.spared _ (.post hacc hfree hreal)

/-- A PUT answers no error of the store. -/
theorem put_answers (hd : Returns d) (h : Known s.cache) (item : Resource)
    (content namespaceId : String) : Answers d cfg s (.put item content namespaceId) := by
  show Returned s (((putResource cfg item content namespaceId).run (handle d)).run s)
  rcases run_putResource d cfg item content namespaceId s with ⟨⟨e, he⟩, -⟩ | ⟨c, j, -, hrun⟩
  · rw [he]
    exact .ret s _
  · obtain ⟨e, s', hs'⟩ := updateDoc_returns hd h item.name (utils.jsonGenerator j content)
    rw [hrun, hs']
    exact ⟨⟨none, s', rfl⟩, fun e t' ht => by cases ht⟩

theorem getCol_answers_iff {resource : Resource} (htype : resource.type = .COLLECTION)
    (namespaceId : String) :
    Answers d cfg s (.get resource namespaceId) ↔ ∃ ns, parseNamespace namespaceId = .ok ns := by
  unfold Answers Query.prog getResource
  simp only [if_pos htype]
  cases hns : parseNamespace namespaceId with
  | error e => exact iff_of_false (not_returned_error s s e) (by simp)
  | ok ns =>
    refine iff_of_true ?_ ⟨ns, rfl⟩
    have hread : (handle d (.readCol resource.name ns)).run s =
        .ok (Store.readCol s resource.name ns) s := rfl
    show Returned s ((Prog.run (handle d) (.call (.readCol resource.name ns) _)).run s)
    rw [Prog.run_call_ok hread]
    cases Store.readCol s resource.name ns with
    | error e => exact .ret s _
    | ok col => exact .ret s _

theorem getDoc_answers_iff (h : Known s.cache) {resource : Resource}
    (htype : resource.type ≠ .COLLECTION) (namespaceId : String) :
    Answers d cfg s (.get resource namespaceId) ↔ (InNamespace s resource namespaceId →
      ∀ doc, Store.readDoc d s resource.name = .ok (.ok doc) → doc.get ["json"] ≠ none) := by
  have hasked : (handle d (.getNamespace resource.name)).run s =
      .ok (getNamespace s resource.name) s := rfl
  unfold Answers Query.prog getResource
  simp only [if_neg htype]
  rcases checkResourceInNamespace_shape resource namespaceId "GET" with ⟨hempty, e, he⟩ |
    ⟨hgiven, answer, hcheck, hanswer⟩
  · rw [he]
    exact iff_of_true (.ret s _) (fun hin => absurd hempty hin.1)
  rw [hcheck, Prog.call_bind, Prog.call_bind, Prog.run_call_ok hasked, Prog.ret_bind]
  cases ha : answer (getNamespace s resource.name) with
  | some e =>
    refine iff_of_true (.ret s _) (fun hin => ?_)
    cases ha.symm.trans ((hanswer _).mpr hin.2)
  | none =>
    have hin : InNamespace s resource namespaceId := ⟨hgiven, (hanswer _).mp ha⟩
    obtain ⟨a, hread⟩ := readDoc_returns (d := d) (n := resource.name) h
    have hrun : (handle d (.readDoc resource.name)).run s = .ok a s := by
      show (orThrow (Store.readDoc d s resource.name)).run s = _
      rw [hread]
      rfl
    show Returned s ((Prog.run (handle d) (.call (.readDoc resource.name) _)).run s) ↔ _
    rw [Prog.run_call_ok hrun, hread]
    cases a with
    | error e => exact iff_of_true (.ret s _) (fun _ doc hdoc => by cases hdoc)
    | ok doc =>
      cases hjson : doc.get ["json"] with
      | none =>
        have hraise : Prog.ofExcept (ε := Throw) (C := StoreCall) (A := StoreCall.Answer)
            (value (doc.get ["json"])) = .raise .badOptionalAccess := by
          rw [hjson]
          rfl
        refine iff_of_false ?_ (fun hall => hall hin doc rfl hjson)
        show ¬ Returned s
          ((Prog.run (handle d) ((Prog.ofExcept (value (doc.get ["json"])) >>= _) >>= _)).run s)
        rw [hraise]
        exact not_returned_error s s _
      | some json =>
        refine iff_of_true ?_ (fun _ doc' hdoc => ?_)
        · show Returned s
            ((Prog.run (handle d) ((Prog.ofExcept (value (doc.get ["json"])) >>= _) >>= _)).run s)
          rw [hjson]
          exact .ret s _
        · cases hdoc
          rw [hjson]
          simp

theorem get_answers_iff (h : Known s.cache) (resource : Resource) (namespaceId : String) :
    Answers d cfg s (.get resource namespaceId) ↔
    Answerable d cfg s (.get resource namespaceId) := by
  have hasked : Answers d cfg s (.get resource namespaceId) ↔
      WellAsked d cfg s (.get resource namespaceId) := by
    unfold WellAsked
    simp only
    split
    · rename_i htype
      exact getCol_answers_iff htype namespaceId
    · rename_i htype
      exact getDoc_answers_iff h htype namespaceId
  exact ⟨fun ha => ⟨hasked.mp ha, fun x hx => by cases hx⟩, fun ha => hasked.mpr ha.asked⟩

theorem deleteCol_answers_iff (hd : Returns d) (h : Known s.cache) {resource : Resource}
    (htype : resource.type = .COLLECTION) (namespaceId : String) :
    Answers d cfg s (.delete resource namespaceId) ↔
    Answerable d cfg s (.delete resource namespaceId) := by
  cases hns : parseNamespace namespaceId with
  | error e =>
    have hprog : deleteResource resource namespaceId = .raise e := by
      unfold deleteResource
      rw [if_pos htype, hns]
      rfl
    refine iff_of_false (not_answers_of_raise hprog) (fun ha => ?_)
    obtain ⟨ns, hns'⟩ := ha.asked htype
    cases hns.symm.trans hns'
  | ok ns =>
    obtain ⟨k, hprog, hk⟩ : ∃ k, deleteResource resource namespaceId =
        .call (.deleteCol resource.name ns) k ∧ Reports k := by
      unfold deleteResource
      rw [if_pos htype, hns]
      exact ⟨_, rfl, rfl, fun e => ⟨_, rfl⟩⟩
    have hrun : Answers d cfg s (.delete resource namespaceId) ↔
        Returned s ((deleteCol d resource.name ns).run s) := by
      rw [answers_iff_run (q := .delete resource namespaceId) hprog]
      exact hk.returned (deleteCol d resource.name ns)
    rw [hrun, deleteCol_returned hd h]
    constructor
    · intro hintact
      refine ⟨fun _ => ⟨ns, hns⟩, fun x hx => ?_⟩
      cases hx with
      | deleteDoc htype' _ _ _ => exact absurd htype htype'
      | deleteCol _ hns' hsome hreal =>
        cases hns.symm.trans hns'
        exact hintact hsome _ hreal
    · intro ha hsome real hreal
      exact ha.spared _ (.deleteCol htype hns hsome hreal)

theorem deleteDoc_answers_iff (hd : Returns d) (h : Known s.cache) {resource : Resource}
    (htype : resource.type ≠ .COLLECTION) (namespaceId : String) :
    Answers d cfg s (.delete resource namespaceId) ↔
    Answerable d cfg s (.delete resource namespaceId) := by
  have hasked : (handle d (.getNamespace resource.name)).run s =
      .ok (getNamespace s resource.name) s := rfl
  have hwell : WellAsked d cfg s (.delete resource namespaceId) := fun hcol => absurd hcol htype
  have hspares : Answerable d cfg s (.delete resource namespaceId) ↔
      (InNamespace s resource namespaceId → ∀ ns, getNamespace s resource.name = some ns →
        ∀ real, virtualToRealName resource.name ns = .ok real →
        Intact (d.deleteDoc real) s.driver) := by
    constructor
    · intro ha hin ns hns real hreal
      exact ha.spared _ (.deleteDoc htype hin hns hreal)
    · intro hall
      refine ⟨hwell, fun x hx => ?_⟩
      cases hx with
      | deleteDoc _ hin hns hreal => exact hall hin _ hns _ hreal
      | deleteCol hcol _ _ _ => exact absurd hcol htype
  rw [hspares]
  unfold Answers Query.prog deleteResource
  simp only [if_neg htype]
  rcases checkResourceInNamespace_shape resource namespaceId "DELETE" with ⟨hempty, e, he⟩ |
    ⟨hgiven, answer, hcheck, hanswer⟩
  · rw [he]
    exact iff_of_true (.ret s _) (fun hin => absurd hempty hin.1)
  rw [hcheck, Prog.call_bind, Prog.run_call_ok hasked, Prog.ret_bind]
  cases ha : answer (getNamespace s resource.name) with
  | some e =>
    refine iff_of_true (.ret s _) (fun hin => ?_)
    cases ha.symm.trans ((hanswer _).mpr hin.2)
  | none =>
    have hin : InNamespace s resource namespaceId := ⟨hgiven, (hanswer _).mp ha⟩
    have hret : Reports (.ret : OptError → StoreM OptError) := ⟨rfl, fun e => ⟨e, rfl⟩⟩
    have hrun :=
      (hret.returned (s := s) (d := d) (deleteDoc d resource.name)).trans (deleteDoc_returned hd h)
    exact hrun.trans ⟨fun hall _ => hall, fun hall => hall hin⟩

end Answers

/-- In every reachable store, a call of the catalog answers exactly when it is answerable. -/
theorem answers_iff (d : IDriver σ) (hd : Returns d) (cfg : Config) (s : Store σ)
    (h : (stores d).Reachable s) (q : Query) : Answers d cfg s q ↔ Answerable d cfg s q := by
  have hknown := (known_inductive d).holds h
  cases q with
  | post collection namespaceStr content =>
    exact post_answers_iff hd collection namespaceStr content
  | put item content namespaceId =>
    exact iff_of_true (put_answers hd hknown item content namespaceId)
      ⟨trivial, fun x hx => by cases hx⟩
  | get resource namespaceId => exact get_answers_iff hknown resource namespaceId
  | delete resource namespaceId =>
    by_cases htype : resource.type = .COLLECTION
    · exact deleteCol_answers_iff hd hknown htype namespaceId
    · exact deleteDoc_answers_iff hd hknown htype namespaceId
  | validate item namespaceId content =>
    exact iff_of_true (answers_of_ret rfl) ⟨trivial, fun x hx => by cases hx⟩

section Sample

/-- The document is created in the store directly, without the catalog's `/json`. -/
def bareStore : Store MemTree :=
  resultState ((createDoc memDriver.toIDriver docName userNs docJson).run freshStore)

theorem bareStore_reachable : (stores memDriver.toIDriver).Reachable bareStore :=
  .step freshStore_reachable
    (show (stores memDriver.toIDriver).step freshStore
      (.createDoc docName userNs docJson) bareStore from rfl)

/-- The document without `/json` is not answered in its namespace, and is in another one. -/
theorem answers_get_bare :
    ¬ Answers memDriver.toIDriver accepting bareStore (.get ⟨docName, .DECODER, true⟩ "user") ∧
    Answers memDriver.toIDriver accepting bareStore (.get ⟨docName, .DECODER, true⟩ "system") := by
  have hiff :=
    answers_iff memDriver.toIDriver memDriver_returns accepting bareStore bareStore_reachable
  constructor
  · intro h
    have hasked := ((hiff _).mp h).asked
    rw [WellAsked, if_neg (by decide)] at hasked
    exact hasked ⟨by decide, userNs, by decide +kernel, by decide +kernel⟩ docJson rfl
      (by decide +kernel)
  · refine (hiff _).mpr ⟨?_, fun x hx => by cases hx⟩
    rw [WellAsked, if_neg (by decide)]
    rintro ⟨-, ns, hns, htext⟩
    have huser : getNamespace bareStore docName = some userNs := by decide +kernel
    cases hns.symm.trans huser
    exact absurd htext (by decide)

/-- A malformed namespace throws out of GET and DELETE of a collection, and a document without
`/json` is dereferenced. -/
theorem get_throws :
    ¬ Answers memDriver.toIDriver accepting freshStore (.get ⟨decoderName, .COLLECTION, false⟩ "") ∧
    ¬ Answers memDriver.toIDriver accepting freshStore
      (.delete ⟨decoderName, .COLLECTION, false⟩ "a/b") ∧
    (stores memDriver.toIDriver).Reachable bareStore ∧
    ¬ Answers memDriver.toIDriver accepting bareStore (.get ⟨docName, .DECODER, true⟩ "user") := by
  refine ⟨fun h => ?_, fun h => ?_, bareStore_reachable, fun h => ?_⟩
  · exact not_returned_error _ _ _ h
  · exact not_returned_error _ _ _ h
  · have hknown := (known_inductive memDriver.toIDriver).holds bareStore_reachable
    have hall := (getDoc_answers_iff hknown (by decide) "user").mp h
    exact hall ⟨by decide, userNs, by decide +kernel, by decide +kernel⟩ docJson rfl
      (by decide +kernel)

end Sample

end DistroDefender.Catalog
