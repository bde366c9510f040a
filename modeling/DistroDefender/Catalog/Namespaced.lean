import DistroDefender.Catalog.Durability
import DistroDefender.Catalog.Served
import DistroDefender.Store.MemDriver

/-!
# POST, GET and DELETE form a namespaced map

After a POST that answers no error, a GET of the document with the same namespace text prints the
posted content until a PUT or a DELETE of it, with a text of another namespace it is an error, the
collections above list the document once, and a DELETE of the document or of a collection above it
ends this (`NamespacedMap`). A POST parses its namespace text, while the requests on documents
compare theirs with the text of the namespace: so this holds exactly when the text of the POST is
that of the namespace it is parsed to (`namespacedMap_iff`).
-/

namespace DistroDefender.Catalog

open Base Lib Store

/-! ## The texts of a namespace -/

theorem parseNamespace_parts {text : String} {ns : NamespaceId} (h : parseNamespace text = .ok ns) :
    [ns.str] = split text SEPARATOR_C := by
  unfold parseNamespace at h
  cases hname : Name.ofString text with
  | error e =>
    rw [hname] at h
    cases h
  | ok name =>
    simp only [hname, bind, Except.bind] at h
    have hid : ns.id = name := by
      unfold NamespaceId.ofName at h
      split at h
      · cases h
        rfl
      · cases h
    rw [← ns.parts_eq, hid, Name.ofString_eq_ok.mp hname]

/-- The text of a namespace that was parsed is parsed to it. -/
theorem parseNamespace_str {text : String} {ns : NamespaceId} (h : parseNamespace text = .ok ns) :
    parseNamespace ns.str = .ok ns := by
  have hmem : ns.str ∈ split text SEPARATOR_C := parseNamespace_parts h ▸ List.mem_singleton_self _
  have hne : ns.str ≠ "" :=
    ns.id.parts_nonempty _ (by rw [ns.parts_eq]; exact List.mem_singleton_self _)
  have hsplit : split ns.str SEPARATOR_C = [ns.str] :=
    split_of_not_mem hne (not_mem_of_mem_split hmem)
  have hname : Name.ofString ns.str = .ok ns.id :=
    Name.ofString_eq_ok.mpr (by rw [ns.parts_eq, hsplit])
  unfold parseNamespace
  rw [hname]
  exact NamespaceId.ofName_id ns

/-- A text that is parsed to one namespace is not the text of another. -/
theorem ne_str_of_parseNamespace {text text' : String} {ns ns' : NamespaceId}
    (h : parseNamespace text = .ok ns) (h' : parseNamespace text' = .ok ns') (hne : ns ≠ ns') :
    text ≠ ns'.str := by
  rintro rfl
  cases h.symm.trans (parseNamespace_str h')
  exact hne rfl

/-! ## What follows a POST -/

/-- A PUT or a DELETE of the document. -/
def Req.Of (name : Name) (ns : NamespaceId) : Req → Prop
  | .post .. => False
  | .put item _ _ => item.name = name
  | .delete resource namespaceId =>
    if resource.type = .COLLECTION then
      resource.name.Below name ∧ parseNamespace namespaceId = .ok ns
    else resource.name = name

/-- A POST of a content that names the document. -/
def Req.Posts (cfg : Config) (name : Name) : Req → Prop
  | .post _ _ content => ∃ j text, cfg.rapidjson.parse (cstr content) = .ok j ∧
    j.getString ["name"] = some text ∧ Name.ofString text = .ok name
  | .put .. | .delete .. => False

section

variable {σ : Type} (d : IDriver σ) (cfg : Config)

/-- The store after a sequence of requests. -/
def later (s : Store σ) (qs : List Req) : Store σ :=
  qs.foldl (fun s q => resultState ((q.serve d cfg).run s)) s

/-- A GET, served to its end. -/
def serveGet (resource : Resource) (namespaceId : String) : Call (Store σ) (RespOrError String) :=
  (getResource cfg resource namespaceId).run (handle d)

/-- The GET answers an error. -/
def GetFails (s : Store σ) (resource : Resource) (namespaceId : String) : Prop :=
  ∃ e, (serveGet d cfg resource namespaceId).run s = .ok (.error e) s

/-- What holds after the document `r` was posted with the JSON `j` in `ns`, which the POST gave as
`namespaceStr`, and left the store `s` behind. -/
structure NamespacedMap (s : Store σ) (r : Resource) (ns : NamespaceId) (namespaceStr : String)
    (j : Json) : Prop where
  get : ∀ qs, (∀ q ∈ qs, ¬ q.Of r.name ns) →
    (serveGet d cfg r namespaceStr).run (later d cfg s qs) =
      .ok (.ok (cfg.rapidjson.print j)) (later d cfg s qs)
  elsewhere : ∀ qs, (∀ q ∈ qs, ¬ q.Of r.name ns) → ∀ text ns', parseNamespace text = .ok ns' →
    ns' ≠ ns → GetFails d cfg (later d cfg s qs) r text
  listed : ∀ qs, (∀ q ∈ qs, ¬ q.Of r.name ns) → ∀ c collection text, c.Below r.name →
    Resource.ofName c = .ok collection → parseNamespace text = .ok ns →
    ∃ col : Col, (serveGet d cfg collection text).run (later d cfg s qs) =
        .ok (.ok (cfg.rapidjson.print (.arr (col.map fun n => .str n.toStr)))) (later d cfg s qs) ∧
      (col.map Name.toStr).count (takeParts r.name c.parts.length).toStr = 1
  deleted : ∀ qs target text s', (target = r ∨ ∃ c, c.Below r.name ∧
      Resource.ofName c = .ok target ∧ parseNamespace text = .ok ns) →
    ((Req.delete target text).serve d cfg).run (later d cfg s qs) = .ok none s' →
    ∀ qs', (∀ q ∈ qs', ¬ q.Posts cfg r.name) → GetFails d cfg (later d cfg s' qs') r namespaceStr
  untouched : ∀ qs q, Untouched d q (later d cfg s qs) (later d cfg s (qs ++ [q]))

end

/-! ## GET -/

section Get

variable {σ : Type} {d : TreeDriver σ} {cfg : Config} {s : Store σ} {m : DocMap}

/-- A GET of a document whose namespace does not have this text is an error. -/
theorem getFails_of_owner (h : Holds d s m) {r : Resource} {text : String}
    (htype : r.type ≠ .COLLECTION) (howner : ¬ ∃ ns, m.owner r.name = some ns ∧ text = ns.str) :
    GetFails d.toIDriver cfg s r text := by
  have hasked : (handle d.toIDriver (.getNamespace r.name)).run s = .ok (m.owner r.name) s :=
    congrArg (fun a => EStateM.Result.ok a s) (h.cached r.name)
  unfold GetFails serveGet getResource
  rw [if_neg htype]
  rcases checkResourceInNamespace_shape r text "GET" with ⟨-, e, he⟩ | ⟨-, answer, hcheck, hanswer⟩
  · rw [he]
    exact ⟨e, rfl⟩
  · rw [hcheck, Prog.call_bind, Prog.run_call_ok hasked, Prog.ret_bind]
    cases ha : answer (m.owner r.name) with
    | none => exact absurd ((hanswer _).mp ha) howner
    | some e => exact ⟨e, rfl⟩

/-- A GET of a collection prints the names it lists. -/
theorem get_collection {r : Resource} {text : String} {ns : NamespaceId} {col : Col}
    (htype : r.type = .COLLECTION) (hns : parseNamespace text = .ok ns)
    (hcol : Store.readCol s r.name ns = .ok col) :
    (serveGet d.toIDriver cfg r text).run s =
      .ok (.ok (cfg.rapidjson.print (.arr (col.map fun n => .str n.toStr)))) s := by
  have hread : (handle d.toIDriver (.readCol r.name ns)).run s = .ok (.ok col) s :=
    congrArg (fun a => EStateM.Result.ok a s) hcol
  unfold serveGet getResource
  rw [if_pos htype, hns]
  show (Prog.run (handle d.toIDriver) (.call (.readCol r.name ns) _)).run s = _
  rw [Prog.run_call_ok hread]
  show EStateM.Result.ok _ _ = _
  rw [Json.foldl_appendString Name.toStr col [], List.nil_append]

end Get

/-! ## Requests and the map -/

section Later

variable {σ : Type} {d : TreeDriver σ} {cfg : Config} {s : Store σ} {m : DocMap}

/-- What the operations of the requests keep, a sequence of requests keeps. -/
theorem later_keeps {P : DocMap → Prop} (qs : List Req)
    (hP : ∀ q ∈ qs, ∀ m a, P m → Asks cfg m q a → a.Enabled Name.Below m →
      P (a.effect Name.Below m))
    (h : ∃ m, Holds d s m ∧ Wrapped m ∧ P m) :
    ∃ m, Holds d (later d.toIDriver cfg s qs) m ∧ Wrapped m ∧ P m := by
  induction qs generalizing s with
  | nil => exact h
  | cons q qs ih =>
    refine ih (fun q' hq' => hP q' (List.mem_cons_of_mem q hq')) ?_
    obtain ⟨m, hm, hw, hPm⟩ := h
    have hdid := serve_did cfg hm q
    show ∃ m, Holds d (resultState ((q.serve d.toIDriver cfg).run s)) m ∧ Wrapped m ∧ P m
    generalize (q.serve d.toIDriver cfg).run s = r at hdid ⊢
    cases hdid with
    | nothing h => exact ⟨m, h, hw, hPm⟩
    | done ha hen h => exact ⟨_, h, hw.effect ha, hP q List.mem_cons_self m _ hPm ha hen⟩

/-- A document that no request is a PUT or a DELETE of stays as it was. -/
theorem Asks.keeps_doc {q : Req} {a : OwnedMap.Op Name NamespaceId Doc} {n : Name}
    {ns : NamespaceId} {doc : Doc} (hq : ¬ q.Of n ns) (hn : m n = some (ns, doc))
    (ha : Asks cfg m q a) (hen : a.Enabled Name.Below m) :
    a.effect Name.Below m n = some (ns, doc) := by
  rw [OwnedMap.effect_frame, hn]
  intro htouch
  cases ha with
  | post hpost =>
    cases htouch
    cases hn.symm.trans hen
  | put hput =>
    cases htouch
    exact hq rfl
  | deleteDoc htype howner hsame =>
    cases htouch
    apply hq
    simp only [Req.Of, if_neg htype]
  | deleteCol htype hns =>
    apply hq
    simp only [Req.Of, if_pos htype]
    have howner := OwnedMap.owner_eq_some.mpr ⟨doc, hn⟩
    cases howner.symm.trans htouch.1
    exact ⟨htouch.2, hns⟩

/-- A document that no request posts has no namespace it did not have. -/
theorem Asks.keeps_absent {q : Req} {a : OwnedMap.Op Name NamespaceId Doc} {n : Name}
    {ns : NamespaceId} (hq : ¬ q.Posts cfg n) (hn : m.owner n ≠ some ns) (ha : Asks cfg m q a) :
    OwnedMap.owner (a.effect Name.Below m) n ≠ some ns := by
  intro howner
  rcases OwnedMap.owner_effect _ howner with hold | hgives
  · exact hn hold
  cases ha with
  | post hpost =>
    obtain ⟨rfl, -⟩ := hgives
    obtain ⟨text, hposted⟩ := hpost.posted
    exact hq ⟨_, text, hpost.parsed, hposted.named, hposted.parsed⟩
  | put hput => cases hgives
  | deleteDoc htype howner hsame => cases hgives
  | deleteCol htype hns => cases hgives

/-- A request touches no document outside the namespace it carries. -/
theorem untouched_serve (h : Holds d s m) (q : Req) :
    Untouched d.toIDriver q s (resultState ((q.serve d.toIDriver cfg).run s)) := by
  intro n ns hns hcarries
  rw [h.answers.getNamespace] at hns
  obtain ⟨doc, hn⟩ := OwnedMap.owner_eq_some.mp hns
  have hdid := serve_did cfg h q
  generalize (q.serve d.toIDriver cfg).run s = r at hdid ⊢
  have hsame : ∃ m', Holds d (resultState r) m' ∧ m' n = m n := by
    cases hdid with
    | nothing h' => exact ⟨m, h', rfl⟩
    | done ha hen h' =>
      refine ⟨_, h', OwnedMap.effect_frame _ fun htouch => ?_⟩
      cases ha with
      | post hpost =>
        cases htouch
        cases hn.symm.trans hen
      | put hput =>
        cases htouch
        obtain ⟨ns', hns', hsame⟩ := hput.same
        cases hns.symm.trans hns'
        exact hcarries hsame
      | deleteDoc htype howner hsame =>
        cases htouch
        cases hns.symm.trans howner
        apply hcarries
        simp only [Req.Carries, if_neg htype]
        exact hsame
      | deleteCol htype hparse =>
        cases hns.symm.trans htouch.1
        apply hcarries
        simp only [Req.Carries, if_pos htype]
        exact hparse
  obtain ⟨m', hm', hmn⟩ := hsame
  rw [hm'.answers.getNamespace, hm'.answers.readDoc, h.answers.readDoc, hmn]
  refine ⟨?_, rfl⟩
  unfold OwnedMap.owner at hns ⊢
  rw [hmn]
  exact hns

/-- The parts of the names of documents have no separator in them. -/
theorem Wrapped.no_separator (h : Wrapped m) {n : Name} (hn : m n ≠ none) :
    ∀ p ∈ n.parts, SEPARATOR_C ∉ p.toList := by
  obtain ⟨⟨ns, doc⟩, hdoc⟩ := Option.ne_none_iff_exists'.mp hn
  obtain ⟨-, j, content, -, hnamed⟩ := h n ns doc hdoc
  obtain ⟨text, -, htext⟩ := hnamed.named
  intro p hp
  rw [Name.ofString_eq_ok.mp htext] at hp
  exact not_mem_of_mem_split hp

/-- A text that is parsed to a namespace is that of the namespace of a document only where the
document is in it. -/
theorem Wrapped.owner_of_text (h : Wrapped m) {n : Name} {ns : NamespaceId} {text : String}
    (hns : parseNamespace text = .ok ns) (hn : ∃ ns', m.owner n = some ns' ∧ text = ns'.str) :
    m.owner n = some ns := by
  obtain ⟨ns', howner, htext⟩ := hn
  obtain ⟨doc, hdoc⟩ := OwnedMap.owner_eq_some.mp howner
  obtain ⟨⟨text', htext'⟩, -⟩ := h n ns' doc hdoc
  by_cases hsame : ns = ns'
  · rw [hsame]
    exact howner
  · exact absurd htext (ne_str_of_parseNamespace hns htext' hsame)

end Later

/-! ## After a POST -/

section Posted

variable {σ : Type} {d : TreeDriver σ} {cfg : Config} {s s' : Store σ}

/-- Where requests made the store, a POST that answers no error brought in its document. -/
theorem posted_holds (h : (served d cfg).Reachable s) {collection : Resource}
    {namespaceStr content : String}
    (hpost : ((Req.post collection namespaceStr content).serve d.toIDriver cfg).run s =
      .ok none s') :
    ∃ r ns j m, PostAccepts cfg collection namespaceStr content r ns j ∧ Holds d s' m ∧ Wrapped m ∧
      m r.name = some (ns, utils.jsonGenerator j content) := by
  obtain ⟨m, hm, hw⟩ := served_inductive.holds h
  have hdid := serve_did cfg hm (.post collection namespaceStr content)
  rw [hpost] at hdid
  cases hdid with
  | nothing h hput => exact (hput rfl).elim
  | done ha hen h =>
    have hw' := hw.effect ha
    cases ha with
    | post haccepts => exact ⟨_, _, _, _, haccepts, h, hw', Function.update_self _ _ _⟩

variable {collection r : Resource} {namespaceStr content : String} {ns : NamespaceId} {j : Json}
  {m : DocMap}

/-- The GET succeeds only where the text of the POST is that of the namespace. -/
theorem NamespacedMap.text_eq (hm : Holds d s m)
    (hr : m r.name = some (ns, utils.jsonGenerator j content)) (htype : r.type ≠ .COLLECTION)
    (h : NamespacedMap d.toIDriver cfg s r ns namespaceStr j) :
    namespaceStr = ns.str := by
  by_contra hne
  have hget := h.get [] (fun q hq => by cases hq)
  have hfails : GetFails d.toIDriver cfg s r namespaceStr := by
    apply getFails_of_owner hm htype
    rintro ⟨ns', howner, htext⟩
    cases (OwnedMap.owner_eq_some.mpr ⟨_, hr⟩).symm.trans howner
    exact hne htext
  obtain ⟨e, he⟩ := hfails
  cases hget.symm.trans he

/-- The collections above the document list it once. -/
theorem listed_once (hm : Holds d s m) (hw : Wrapped m)
    (hr : m r.name = some (ns, utils.jsonGenerator j content)) {c : Name} {above : Resource}
    {text : String} (hthree : r.name.parts.length = 3) (hc : c.Below r.name)
    (habove : Resource.ofName c = .ok above) (hns : parseNamespace text = .ok ns) :
    ∃ col : Col, (serveGet d.toIDriver cfg above text).run s =
        .ok (.ok (cfg.rapidjson.print (.arr (col.map fun n => .str n.toStr)))) s ∧
      (col.map Name.toStr).count (takeParts r.name c.parts.length).toStr = 1 := by
  obtain ⟨-, ⟨-, rfl⟩ | ⟨hlen, -⟩⟩ := Resource.ofName_cases habove
  swap
  · have := hc.2
    omega
  obtain ⟨col, hcol, hnodup, hmem, hbelow⟩ :=
    hm.readCol (OwnedMap.owner_eq_some.mpr ⟨_, hr⟩) hc
  refine ⟨col, get_collection rfl hns hcol, ?_⟩
  have hseparated : ∀ k ∈ col, ∀ p ∈ k.parts, SEPARATOR_C ∉ p.toList := by
    intro k hk p hp
    obtain ⟨n, hn, hkn⟩ := hbelow k hk
    exact hw.no_separator hn p (hkn.subset hp)
  have hinj : (col.map Name.toStr).Nodup :=
    hnodup.map_on fun a ha b hb => Name.toStr_inj (hseparated a ha) (hseparated b hb)
  exact List.count_eq_one_of_mem hinj (List.mem_map_of_mem hmem)

/-- A DELETE that answers no error, of the document or of a collection above it, leaves its
namespace without the document. -/
theorem deleted_holds (hm : Holds d s m) (hw : Wrapped m) {target : Resource} {text : String}
    (htype : r.type ≠ .COLLECTION) (hthree : r.name.parts.length = 3)
    (htarget : target = r ∨ ∃ c, c.Below r.name ∧ Resource.ofName c = .ok target ∧
      parseNamespace text = .ok ns)
    (hdelete : ((Req.delete target text).serve d.toIDriver cfg).run s = .ok none s') :
    ∃ m', Holds d s' m' ∧ Wrapped m' ∧ m'.owner r.name ≠ some ns := by
  have hdid := serve_did cfg hm (.delete target text)
  rw [hdelete] at hdid
  cases hdid with
  | nothing h hput => exact (hput rfl).elim
  | done ha hen h =>
    refine ⟨_, h, hw.effect ha, ?_⟩
    cases ha with
    | deleteDoc htype' howner hsame =>
      rcases htarget with rfl | ⟨c, hc, hbuilt, -⟩
      · rw [OwnedMap.Op.effect, OwnedMap.owner_update, if_pos rfl]
        simp
      · -- a resource with fewer parts than the document is a collection
        obtain ⟨-, ⟨-, heq⟩ | ⟨hlen, -⟩⟩ := Resource.ofName_cases hbuilt
        · exact absurd (congrArg Resource.type heq) htype'
        · have := hc.2
          omega
    | deleteCol htype' hns =>
      rcases htarget with rfl | ⟨c, hc, hbuilt, hparse⟩
      · exact absurd htype' htype
      · cases hns.symm.trans hparse
        have hname : target.name = c := by
          obtain ⟨-, ⟨-, heq⟩ | ⟨-, -, heq⟩⟩ := Resource.ofName_cases hbuilt <;>
            exact congrArg Resource.name heq
        rw [OwnedMap.owner_deleteBelow, hname]
        split
        · simp
        · rename_i hnot
          exact fun howner => hnot ⟨howner, hc⟩

/-- Where the text is that of the namespace, the document behaves as in a namespaced map. -/
theorem namespacedMap_of_text (hm : Holds d s m) (hw : Wrapped m)
    (hr : m r.name = some (ns, utils.jsonGenerator j content)) (htype : r.type ≠ .COLLECTION)
    (hthree : r.name.parts.length = 3) (hns : parseNamespace namespaceStr = .ok ns)
    (htext : namespaceStr = ns.str) : NamespacedMap d.toIDriver cfg s r ns namespaceStr j := by
  have hkept : ∀ qs : List Req, (∀ q ∈ qs, ¬ q.Of r.name ns) →
      ∃ m, Holds d (later d.toIDriver cfg s qs) m ∧ Wrapped m ∧
        m r.name = some (ns, utils.jsonGenerator j content) := fun qs hqs =>
    later_keeps qs (fun q hq m a hn ha hen => ha.keeps_doc (hqs q hq) hn hen) ⟨m, hm, hw, hr⟩
  have hlater : ∀ qs : List Req, ∃ m, Holds d (later d.toIDriver cfg s qs) m ∧ Wrapped m :=
    fun qs =>
    (later_keeps (P := fun _ => True) qs (fun _ _ _ _ _ _ _ => trivial) ⟨m, hm, hw, trivial⟩).imp
      fun _ h => ⟨h.1, h.2.1⟩
  refine ⟨fun qs hqs => ?_, fun qs hqs text ns' hparse hne => ?_,
    fun qs hqs c above text hc habove hparse => ?_,
    fun qs target text s' htarget hdelete qs' hqs' => ?_, fun qs q => ?_⟩
  · obtain ⟨m', hm', -, hr'⟩ := hkept qs hqs
    have howner : Store.getNamespace (later d.toIDriver cfg s qs) r.name = some ns := by
      rw [hm'.answers.getNamespace, OwnedMap.owner_eq_some.mpr ⟨_, hr'⟩]
    have hdoc : Store.readDoc d.toIDriver (later d.toIDriver cfg s qs) r.name =
        .ok (.ok (utils.jsonGenerator j content)) := by
      rw [hm'.answers.readDoc, hr']
    have hgiven : namespaceStr ≠ "" := by
      rw [htext]
      exact ns.id.parts_nonempty _ (by rw [ns.parts_eq]; exact List.mem_singleton_self _)
    exact run_getResource htype hgiven howner htext hdoc (get_jsonGenerator j content)
  · obtain ⟨m', hm', hw', hr'⟩ := hkept qs hqs
    refine getFails_of_owner hm' htype fun howner => ?_
    cases (hw'.owner_of_text hparse howner).symm.trans (OwnedMap.owner_eq_some.mpr ⟨_, hr'⟩)
    exact hne rfl
  · obtain ⟨m', hm', hw', hr'⟩ := hkept qs hqs
    exact listed_once hm' hw' hr' hthree hc habove hparse
  · obtain ⟨m', hm', hw'⟩ := hlater qs
    obtain ⟨m₁, hm₁, hw₁, hgone⟩ := deleted_holds hm' hw' htype hthree htarget hdelete
    obtain ⟨m₂, hm₂, hw₂, hgone₂⟩ := later_keeps qs'
      (fun q hq m a hn ha _ => ha.keeps_absent (hqs' q hq) hn) ⟨m₁, hm₁, hw₁, hgone⟩
    exact getFails_of_owner hm₂ htype fun howner => hgone₂ (hw₂.owner_of_text hns howner)
  · obtain ⟨m', hm', -⟩ := hlater qs
    have hstep : later d.toIDriver cfg s (qs ++ [q]) =
        resultState ((q.serve d.toIDriver cfg).run (later d.toIDriver cfg s qs)) := by
      unfold later
      rw [List.foldl_append]
      rfl
    rw [hstep]
    exact untouched_serve hm' q

/-- After a POST that answers no error, the document behaves as in a namespaced map exactly when the
text of the POST is that of the namespace it is parsed to. -/
theorem namespacedMap_iff (cfg : Config) (d : TreeDriver σ) (s s' : Store σ)
    (h : (served d cfg).Reachable s) (collection : Resource) (namespaceStr content : String)
    (hpost : ((Req.post collection namespaceStr content).serve d.toIDriver cfg).run s =
      .ok none s') :
    ∃ r ns j, PostAccepts cfg collection namespaceStr content r ns j ∧
      (NamespacedMap d.toIDriver cfg s' r ns namespaceStr j ↔ namespaceStr = ns.str) := by
  obtain ⟨r, ns, j, m, haccepts, hm, hw, hr⟩ := posted_holds h hpost
  obtain ⟨text, hposted⟩ := haccepts.posted
  exact ⟨r, ns, j, haccepts, NamespacedMap.text_eq hm hr hposted.document,
    namespacedMap_of_text hm hw hr hposted.document hposted.wellNamed.three haccepts.parsedNs⟩

end Posted

/-! ## A namespace text with a trailing separator -/

section Trailing

/-- A POST of the document with a text of its namespace. -/
def postAs (namespaceStr : String) : Req :=
  .post ⟨decoderName, .COLLECTION, false⟩ namespaceStr docText

def newStore : Store MemTree := ⟨.empty, .empty⟩

theorem newStore_reachable : (served memDriver.toTreeDriver accepting).Reachable newStore :=
  .init ⟨rfl, fun _ _ => rfl⟩

theorem postAs_run {n : String}
    (h : succeeded (((postAs n).serve memDriver.toIDriver accepting).run newStore) = true) :
    ∃ s', ((postAs n).serve memDriver.toIDriver accepting).run newStore = .ok none s' := by
  generalize ((postAs n).serve memDriver.toIDriver accepting).run newStore = r at h ⊢
  rcases r with ⟨_ | e, s'⟩ | ⟨e, s'⟩
  · exact ⟨s', rfl⟩
  · cases h
  · cases h

/-- A document posted with the text `user/` is in the namespace `user`, where a GET with the text
`user/` does not find it. -/
theorem get_trailing : ∃ s' r ns j,
    ((postAs "user/").serve memDriver.toIDriver accepting).run newStore = .ok none s' ∧
      PostAccepts accepting ⟨decoderName, .COLLECTION, false⟩ "user/" docText r ns j ∧
      ¬ NamespacedMap memDriver.toIDriver accepting s' r ns "user/" j := by
  obtain ⟨s', hs'⟩ := postAs_run (n := "user/") (by decide +kernel)
  obtain ⟨r, ns, j, m, haccepts, hm, -, hr⟩ := posted_holds newStore_reachable hs'
  refine ⟨s', r, ns, j, hs', haccepts, fun h => ?_⟩
  obtain ⟨text, hposted⟩ := haccepts.posted
  have htext := h.text_eq hm hr hposted.document
  have hsplit : split "user/" SEPARATOR_C = ["user"] := by decide +kernel
  have hns := parseNamespace_parts haccepts.parsedNs
  rw [hsplit, ← htext] at hns
  exact absurd (List.cons.inj hns).1 (by decide)

/-- A document posted with the text `user`. -/
theorem namespacedMap_once : ∃ s' r ns j,
    ((postAs "user").serve memDriver.toIDriver accepting).run newStore = .ok none s' ∧
      NamespacedMap memDriver.toIDriver accepting s' r ns "user" j := by
  obtain ⟨s', hs'⟩ := postAs_run (n := "user") (by decide +kernel)
  obtain ⟨r, ns, j, haccepts, hiff⟩ :=
    namespacedMap_iff accepting memDriver.toTreeDriver newStore s'
    newStore_reachable ⟨decoderName, .COLLECTION, false⟩ "user" docText hs'
  have hsplit : split "user" SEPARATOR_C = ["user"] := by decide +kernel
  have hns := parseNamespace_parts haccepts.parsedNs
  rw [hsplit] at hns
  exact ⟨s', r, ns, j, hs', hiff.mpr (List.cons.inj hns).1.symm⟩

end Trailing

end DistroDefender.Catalog
