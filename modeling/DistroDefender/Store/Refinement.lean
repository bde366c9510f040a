import DistroDefender.Store.MemDriver
import DistroDefender.Store.Represents
import DistroDefender.Store.Store

/-!
# The store is a namespaced map

Over any tree driver the store behaves as a partial map from document names to a namespace and a
content. Every call of the store asks the driver what the map allows and does what the driver
answers (`exec_answered`), so one call is one step of the map (`exec_step`) and every run of the
store is a run of the map (`store_refines_map`). The reads answer from the map (`Holds.answers`),
and a call that fails changes nothing (`Holds.obeys`).
-/

namespace DistroDefender.Store

open Base Lib

/-- The mutating calls of the store. -/
inductive Op where
  | createDoc (name : Name) (namespaceId : NamespaceId) (content : Doc)
  | updateDoc (name : Name) (content : Doc)
  | upsertDoc (name : Name) (namespaceId : NamespaceId) (content : Doc)
  | deleteDoc (name : Name)
  | deleteCol (name : Name) (namespaceId : NamespaceId)
  | createInternalDoc (name : Name) (content : Doc)
  | updateInternalDoc (name : Name) (content : Doc)
  | upsertInternalDoc (name : Name) (content : Doc)
  | deleteInternalDoc (name : Name)

variable {σ : Type}

/-- The call an operation stands for. -/
def exec (d : IDriver σ) : Op → Call (Store σ) OptError
  | .createDoc name ns content => createDoc d name ns content
  | .updateDoc name content => updateDoc d name content
  | .upsertDoc name ns content => upsertDoc d name ns content
  | .deleteDoc name => deleteDoc d name
  | .deleteCol name ns => deleteCol d name ns
  | .createInternalDoc name content => createInternalDoc d name content
  | .updateInternalDoc name content => updateInternalDoc d name content
  | .upsertInternalDoc name content => upsertInternalDoc d name content
  | .deleteInternalDoc name => deleteInternalDoc d name

/-- What an operation asks of the map: the internal documents are outside it. -/
def Op.onMap : Op → Option (OwnedMap.Op Name NamespaceId Doc)
  | .createDoc name ns content => some (.create name ns content)
  | .updateDoc name content => some (.update name content)
  | .upsertDoc name ns content => some (.upsert name ns content)
  | .deleteDoc name => some (.delete name)
  | .deleteCol name ns => some (.deleteBelow name ns)
  | .createInternalDoc .. | .updateInternalDoc .. | .upsertInternalDoc ..
  | .deleteInternalDoc .. => none

/-- `x` is the driver call an operation comes down to when the map allows the operation and the
sizes of the names allow its real name. -/
def Op.Requests (d : IDriver σ) (m : DocMap) : Op → Call σ OptError → Prop
  | .createDoc name ns content, x =>
    m name = none ∧ ∃ r, virtualToRealName name ns = .ok r ∧ x = d.createDoc r content
  | .updateDoc name content, x => ∃ ns r, m.owner name = some ns ∧
    virtualToRealName name ns = .ok r ∧ x = d.updateDoc r content
  | .upsertDoc name ns content, x => (m name = none ∨ m.owner name = some ns) ∧
    ∃ r, virtualToRealName name ns = .ok r ∧ x = d.upsertDoc r content
  | .deleteDoc name, x => ∃ ns r, m.owner name = some ns ∧
    virtualToRealName name ns = .ok r ∧ x = d.deleteDoc r
  | .deleteCol name ns, x => (∃ n, name.Below n ∧ m.owner n = some ns) ∧
    ∃ r, virtualToRealName name ns = .ok r ∧ x = d.deleteCol r
  | .createInternalDoc name content, x =>
    name.first ≠ prefixNS.first ∧ x = d.createDoc name content
  | .updateInternalDoc name content, x =>
    name.first ≠ prefixNS.first ∧ x = d.updateDoc name content
  | .upsertInternalDoc name content, x => name.first ≠ prefixNS.first ∧
    x = do if d.existsDoc name (← get) then d.updateDoc name content else d.createDoc name content
  | .deleteInternalDoc name, x => name.first ≠ prefixNS.first ∧ x = d.deleteDoc name

/-- The map after an operation that succeeds. -/
def Op.effect (m : DocMap) (op : Op) : DocMap :=
  match op.onMap with
  | some a => a.effect Name.Below m
  | none => m

/-- The store holds what the map says. -/
def Holds (d : TreeDriver σ) (s : Store σ) (m : DocMap) : Prop :=
  Represents s.cache (d.docs s.driver) m

/-! ## What a call does -/

section Calls

variable {d : TreeDriver σ} {s : Store σ} {m : DocMap}

theorem Op.Requests.unique {op : Op} {x y : Call σ OptError} (hx : op.Requests d.toIDriver m x)
    (hy : op.Requests d.toIDriver m y) : x = y := by
  cases op with
  | createDoc name ns content | upsertDoc name ns content | deleteCol name ns =>
    obtain ⟨-, r, hr, rfl⟩ := hx
    obtain ⟨-, r', hr', rfl⟩ := hy
    cases hr.symm.trans hr'
    rfl
  | updateDoc name content | deleteDoc name =>
    obtain ⟨ns, r, hns, hr, rfl⟩ := hx
    obtain ⟨ns', r', hns', hr', rfl⟩ := hy
    cases hns.symm.trans hns'
    cases hr.symm.trans hr'
    rfl
  | createInternalDoc name content | updateInternalDoc name content
  | upsertInternalDoc name content | deleteInternalDoc name => exact hx.2.trans hy.2.symm

/-- What a call did that reached the driver by `x`: it succeeded and the store holds the next map,
or it failed and nothing changed. -/
inductive Reached (d : TreeDriver σ) (s : Store σ) (m' : DocMap) (x : Call σ OptError) :
    EStateM.Result Throw (Store σ) OptError → Prop
  | done {s' : Store σ} (hx : succeeded (x.run s.driver) = true) (h : Holds d s' m') :
      Reached d s m' x (.ok none s')
  | failed {r : EStateM.Result Throw (Store σ) OptError} (hx : succeeded (x.run s.driver) = false)
      (hr : succeeded r = false) (hcache : (resultState r).cache = s.cache)
      (hdocs : d.docs (resultState r).driver = d.docs s.driver) : Reached d s m' x r

theorem Reached.of_finish {x : Call σ OptError} {cache : DBDocNames} {pre : Prop}
    {post : Name → Option Doc} {m' : DocMap}
    (hx : Applies d.docs s.driver (x.run s.driver) pre post)
    (hm : pre → Represents cache post m') :
    Reached d s m' x (finish s cache (x.run s.driver)) := by
  rcases hx.cases with ⟨t, ht, hpre, hpost⟩ | ⟨hf, hdocs⟩
  · rw [ht]
    refine .done (by rw [ht]; rfl) ?_
    have hrep := hm hpre
    rw [← hpost] at hrep
    exact hrep
  · have hstate := finish_of_failed hf s cache
    refine .failed hf (by rw [succeeded_finish, hf]) (by rw [hstate]) ?_
    rw [hstate]
    exact hdocs

/-- A driver call of an internal write changes its own name alone. -/
theorem applies_upsertInternal (name : Name) (content : Doc) (t : σ) :
    Applies d.docs t
      ((do if d.existsDoc name (← get) then d.updateDoc name content
           else d.createDoc name content : Call σ OptError).run t) True
      (Function.update (d.docs t) name (some content)) := by
  rw [EStateM.run_bind, EStateM.run_get]
  simp only
  split
  · exact (d.updateDoc_applies t name content).mono fun _ => trivial
  · exact (d.createDoc_applies t name content).mono fun _ => trivial

/-- What a call does: it asks the driver what the map allows and does what the driver answers, or
the map allows nothing, and it fails and changes nothing. -/
inductive Answered (d : TreeDriver σ) (s : Store σ) (m : DocMap) (op : Op) :
    EStateM.Result Throw (Store σ) OptError → Prop
  | asked {x : Call σ OptError} {r : EStateM.Result Throw (Store σ) OptError}
      (hx : op.Requests d.toIDriver m x) (hr : Reached d s (op.effect m) x r) : Answered d s m op r
  | refused {r : EStateM.Result Throw (Store σ) OptError} (hno : ∀ x, ¬ op.Requests d.toIDriver m x)
      (hf : succeeded r = false) (hstate : resultState r = s) : Answered d s m op r

theorem createDoc_answered (h : Holds d s m) (name : Name) (ns : NamespaceId) (content : Doc) :
    Answered d s m (.createDoc name ns content)
      ((createDoc d.toIDriver name ns content).run s) := by
  rw [run_createDoc]
  by_cases hm : m name = none
  · have hex : ¬ s.cache.existsName name = true := fun he => h.existsName_iff.mp he hm
    rw [if_neg hex]
    cases hr : virtualToRealName name ns with
    | error e =>
      refine .refused ?_ rfl rfl
      rintro x ⟨-, r, hr', -⟩
      cases hr.symm.trans hr'
    | ok r =>
      refine .asked ⟨hm, r, hr, rfl⟩ (.of_finish (d.createDoc_applies s.driver r content) ?_)
      exact fun _ => h.put (.inl hm) hr content
  · rw [if_pos (h.existsName_iff.mpr hm)]
    exact .refused (fun x hx => hm hx.1) rfl rfl

theorem updateDoc_answered (h : Holds d s m) (name : Name) (content : Doc) :
    Answered d s m (.updateDoc name content) ((updateDoc d.toIDriver name content).run s) := by
  rw [run_updateDoc, h.cached]
  cases ho : m.owner name with
  | none =>
    refine .refused ?_ rfl rfl
    rintro x ⟨ns, r, hns, -⟩
    cases ho.symm.trans hns
  | some ns =>
    obtain ⟨c, hc⟩ := OwnedMap.owner_eq_some.mp ho
    simp only
    cases hr : virtualToRealName name ns with
    | error e =>
      refine .refused ?_ rfl rfl
      rintro x ⟨ns', r, hns, hr', -⟩
      cases ho.symm.trans hns
      cases hr.symm.trans hr'
    | ok r =>
      refine .asked ⟨ns, r, ho, hr, rfl⟩
        (.of_finish (d.updateDoc_applies s.driver r content) fun _ => ?_)
      have hput := h.put (.inr ho) hr content
      have hex : s.cache.existsName name = true := by
        rw [h.existsName_iff, hc]
        exact Option.some_ne_none _
      rw [DBDocNames.add_of_exists hex] at hput
      have heff : (Op.updateDoc name content).effect m =
          Function.update m name (some (ns, content)) := by
        simp only [Op.effect, Op.onMap, OwnedMap.Op.effect, hc, Option.map_some]
      rw [heff]
      exact hput

theorem upsertDoc_answered (h : Holds d s m) (name : Name) (ns : NamespaceId) (content : Doc) :
    Answered d s m (.upsertDoc name ns content)
      ((upsertDoc d.toIDriver name ns content).run s) := by
  rw [run_upsertDoc, h.cached]
  by_cases hm : m name = none ∨ m.owner name = some ns
  · have hif : ¬ ((m.owner name).isSome ∧ m.owner name ≠ some ns) := by
      rintro ⟨hs, hne⟩
      rcases hm with hm | hm
      · rw [OwnedMap.owner_eq_none.mpr hm] at hs
        cases hs
      · exact hne hm
    rw [if_neg hif]
    cases hr : virtualToRealName name ns with
    | error e =>
      refine .refused ?_ rfl rfl
      rintro x ⟨-, r, hr', -⟩
      cases hr.symm.trans hr'
    | ok r =>
      refine .asked ⟨hm, r, hr, rfl⟩ (.of_finish (d.upsertDoc_applies s.driver r content) ?_)
      exact fun _ => h.put hm hr content
  · have hif : (m.owner name).isSome ∧ m.owner name ≠ some ns := by
      refine ⟨?_, fun he => hm (.inr he)⟩
      rw [Option.isSome_iff_ne_none, Ne, OwnedMap.owner_eq_none]
      exact fun he => hm (.inl he)
    rw [if_pos hif]
    exact .refused (fun x hx => hm hx.1) rfl rfl

theorem deleteDoc_answered (h : Holds d s m) (name : Name) :
    Answered d s m (.deleteDoc name) ((deleteDoc d.toIDriver name).run s) := by
  rw [run_deleteDoc, h.cached]
  cases ho : m.owner name with
  | none =>
    refine .refused ?_ rfl rfl
    rintro x ⟨ns, r, hns, -⟩
    cases ho.symm.trans hns
  | some ns =>
    simp only
    cases hr : virtualToRealName name ns with
    | error e =>
      refine .refused ?_ rfl rfl
      rintro x ⟨ns', r, hns, hr', -⟩
      cases ho.symm.trans hns
      cases hr.symm.trans hr'
    | ok r =>
      refine .asked ⟨ns, r, ho, hr, rfl⟩ (.of_finish (d.deleteDoc_applies s.driver r) fun _ => ?_)
      exact h.del ho hr

theorem deleteCol_answered (h : Holds d s m) (name : Name) (ns : NamespaceId) :
    Answered d s m (.deleteCol name ns) ((deleteCol d.toIDriver name ns).run s) := by
  rw [run_deleteCol]
  have hcol : s.cache.filterByPrefix name ns = [] ↔ ¬ ∃ n, name.Below n ∧ m.owner n = some ns := by
    rw [List.eq_nil_iff_forall_not_mem, not_exists]
    refine forall_congr' fun n => not_congr ?_
    rw [h.wf.mem_filterByPrefix, h.cached]
    exact And.comm
  by_cases hm : ∃ n, name.Below n ∧ m.owner n = some ns
  · rw [if_neg fun he => hcol.mp he hm]
    cases hr : virtualToRealName name ns with
    | error e =>
      refine .refused ?_ rfl rfl
      rintro x ⟨-, r, hr', -⟩
      cases hr.symm.trans hr'
    | ok r =>
      refine .asked ⟨hm, r, hr, rfl⟩ (.of_finish (d.deleteCol_applies s.driver r) ?_)
      exact fun _ => h.delCol hr
  · rw [if_pos (hcol.mpr hm)]
    exact .refused (fun x hx => hm hx.1) rfl rfl

/-- An internal write is refused under `namespaces`, and otherwise reaches the driver without
touching what the map says. -/
theorem internalWrite_answered {verb : String} {name : Name} {x : Call σ OptError} {pre : Prop}
    {v : Option Doc} {op : Op} (h : Holds d s m)
    (hx : Applies d.docs s.driver (x.run s.driver) pre (Function.update (d.docs s.driver) name v))
    (hop : ∀ y, op.Requests d.toIDriver m y ↔ name.first ≠ prefixNS.first ∧ y = x)
    (heff : op.effect m = m) : Answered d s m op ((internalWrite verb name x).run s) := by
  rw [run_internalWrite]
  unfold internalNameError
  by_cases hname : name.first = prefixNS.first
  · rw [if_pos hname]
    exact .refused (fun y hy => ((hop y).mp hy).1 hname) rfl rfl
  · rw [if_neg hname]
    refine .asked ((hop x).mpr ⟨hname, rfl⟩) (.of_finish hx fun _ => ?_)
    rw [heff]
    refine h.internal fun y hy => Function.update_of_ne ?_ _ _
    rintro rfl
    exact hname hy

theorem exec_answered (h : Holds d s m) (op : Op) :
    Answered d s m op ((exec d.toIDriver op).run s) := by
  cases op with
  | createDoc name ns content => exact createDoc_answered h name ns content
  | updateDoc name content => exact updateDoc_answered h name content
  | upsertDoc name ns content => exact upsertDoc_answered h name ns content
  | deleteDoc name => exact deleteDoc_answered h name
  | deleteCol name ns => exact deleteCol_answered h name ns
  | createInternalDoc name content =>
    exact internalWrite_answered h (d.createDoc_applies s.driver name content) (fun _ => .rfl) rfl
  | updateInternalDoc name content =>
    exact internalWrite_answered h (d.updateDoc_applies s.driver name content) (fun _ => .rfl) rfl
  | upsertInternalDoc name content =>
    exact internalWrite_answered h (applies_upsertInternal name content s.driver)
      (fun _ => .rfl) rfl
  | deleteInternalDoc name =>
    exact internalWrite_answered h (d.deleteDoc_applies s.driver name) (fun _ => .rfl) rfl

/-- A successful call was one the map allows. -/
theorem Op.Requests.enabled {op : Op} {x : Call σ OptError} (hx : op.Requests d.toIDriver m x)
    {a : OwnedMap.Op Name NamespaceId Doc} (ha : op.onMap = some a) : a.Enabled Name.Below m := by
  cases op with
  | createDoc name ns content | upsertDoc name ns content | deleteCol name ns =>
    cases ha
    exact hx.1
  | updateDoc name content | deleteDoc name =>
    cases ha
    obtain ⟨ns, -, hns, -⟩ := hx
    obtain ⟨c, hc⟩ := OwnedMap.owner_eq_some.mp hns
    exact fun he => Option.some_ne_none _ (hc.symm.trans he)
  | createInternalDoc name content | updateInternalDoc name content
  | upsertInternalDoc name content | deleteInternalDoc name => cases ha

end Calls

/-! ## Runs -/

/-- The map under the same calls. -/
def mapSystem : System DocMap (Op × Bool) := OwnedMap.system Name.Below Op.onMap

/-- The store over a driver: calls and whether they succeeded, from a store without documents. -/
def system (d : TreeDriver σ) : System (Store σ) (Op × Bool) where
  init s := s.cache = .empty ∧ ∀ n : Name, n.first = prefixNS.first → d.docs s.driver n = none
  step s l s' :=
    succeeded ((exec d.toIDriver l.1).run s) = l.2 ∧
      resultState ((exec d.toIDriver l.1).run s) = s'

/-- One call of the store is one step of the map. -/
theorem exec_step {d : TreeDriver σ} {s : Store σ} {m : DocMap} (h : Holds d s m) {l : Op × Bool}
    {s' : Store σ} (hs : (system d).step s l s') :
    ∃ m', mapSystem.step m l m' ∧ Holds d s' m' := by
  obtain ⟨op, b⟩ := l
  obtain ⟨hb, rfl⟩ := hs
  have hanswered := exec_answered h op
  simp only at hb ⊢
  generalize (exec d.toIDriver op).run s = res at hanswered hb ⊢
  cases hanswered with
  | asked hx hr =>
    have hen := fun a => hx.enabled (a := a)
    cases hr with
    | done _ hm =>
      cases hb
      refine ⟨op.effect m, ?_, hm⟩
      simp only [mapSystem, OwnedMap.system, succeeded, Op.effect]
      cases ha : op.onMap with
      | none => rfl
      | some a => exact ⟨hen a ha, rfl⟩
    | failed _ hf hcache hdocs =>
      cases hf.symm.trans hb
      exact ⟨m, rfl, by rw [Holds, hcache, hdocs]; exact h⟩
  | refused _ hf hstate =>
    cases hf.symm.trans hb
    exact ⟨m, rfl, by rw [hstate]; exact h⟩

theorem simulates (d : TreeDriver σ) : Simulation (system d) mapSystem (Holds d) where
  init s hs := ⟨OwnedMap.empty, rfl, by rw [Holds, hs.1]; exact .empty hs.2⟩
  step _ _ _ _ h hs := exec_step h hs

/-- Every reachable store holds some map. -/
theorem holds_of_reachable {d : TreeDriver σ} {s : Store σ} (h : (system d).Reachable s) :
    ∃ m, Holds d s m := by
  induction h with
  | init hi => exact ((simulates d).init _ hi).imp fun _ hm => hm.2
  | step _ hstep ih =>
    obtain ⟨m, hm⟩ := ih
    exact (exec_step hm hstep).imp fun _ hm => hm.2

/-- The reads answer what the map says. -/
structure Answers (d : TreeDriver σ) (s : Store σ) (m : DocMap) : Prop where
  readDoc : ∀ n, Store.readDoc d.toIDriver s n =
    match m n with
    | some (_, content) => .ok (.ok content)
    | none => .ok (.error ⟨"Document does not exist"⟩)
  existsDoc : ∀ n, Store.existsDoc s n = true ↔ m n ≠ none
  existsCol : ∀ c ns, Store.existsCol s c ns = true ↔ ∃ n, c.Below n ∧ m.owner n = some ns
  getNamespace : ∀ n, Store.getNamespace s n = m.owner n
  listNamespaces : ∀ ns, ns ∈ Store.listNamespaces s ↔ ∃ n, m.owner n = some ns
  listNamespaces_sorted : (Store.listNamespaces s).Pairwise (· < ·)
  /-- The cache holds `n ↦ ns` exactly when the driver holds a document at `namespaces/ns/n`. -/
  cached_iff : ∀ n ns, s.cache.getNamespaceId n = some ns ↔
    ∃ r, virtualToRealName n ns = .ok r ∧ d.existsDoc r s.driver = true

/-- A call succeeds exactly when the map allows it and the driver does what it is asked, and one
that does not succeed changes nothing. -/
structure Obeys (d : TreeDriver σ) (s : Store σ) (m : DocMap) : Prop where
  succeeded_iff : ∀ op, succeeded ((exec d.toIDriver op).run s) = true ↔
    ∃ x, op.Requests d.toIDriver m x ∧ succeeded (x.run s.driver) = true
  unchanged : ∀ op, succeeded ((exec d.toIDriver op).run s) = false →
    (resultState ((exec d.toIDriver op).run s)).cache = s.cache ∧
      d.docs (resultState ((exec d.toIDriver op).run s)).driver = d.docs s.driver

theorem Holds.answers {d : TreeDriver σ} {s : Store σ} {m : DocMap} (h : Holds d s m) :
    Answers d s m where
  readDoc n := by
    unfold Store.readDoc
    rw [h.cached]
    cases hn : m n with
    | none => rw [OwnedMap.owner_eq_none.mpr hn]
    | some p =>
      obtain ⟨ns, c⟩ := p
      obtain ⟨r, hr⟩ :=
        virtualToRealName_ok_iff.mpr (h.fits n (by rw [hn]; exact Option.some_ne_none _))
      have hdoc : d.docs s.driver r = some c := by
        rw [h.stored n ns r hr, hn, Option.bind_some, if_pos rfl]
      have howner : m.owner n = some ns := OwnedMap.owner_eq_some.mpr ⟨c, hn⟩
      simp only [howner, hr]
      exact congrArg Except.ok ((d.readDoc_eq_ok _ _ _).mpr hdoc)
  existsDoc n := h.existsName_iff
  existsCol c ns := by
    unfold Store.existsCol
    rw [Bool.not_eq_true', List.isEmpty_eq_false_iff_exists_mem]
    refine exists_congr fun n => ?_
    rw [h.wf.mem_filterByPrefix, h.cached]
    exact And.comm
  getNamespace n := h.cached n
  listNamespaces ns := by
    unfold Store.listNamespaces
    rw [h.wf.mem_getNamespaceIds]
    exact exists_congr fun n => by rw [h.cached]
  listNamespaces_sorted := pairwise_sortedSet _
  cached_iff n ns := by
    rw [h.cached, OwnedMap.owner_eq_some]
    constructor
    · rintro ⟨c, hc⟩
      obtain ⟨r, hr⟩ :=
        virtualToRealName_ok_iff.mpr (h.fits n (by rw [hc]; exact Option.some_ne_none _))
      refine ⟨r, hr, (d.existsDoc_iff _ _).mpr ?_⟩
      rw [h.stored n ns r hr, hc, Option.bind_some, if_pos rfl]
      exact Option.some_ne_none _
    · rintro ⟨r, hr, hex⟩
      have hne := (d.existsDoc_iff _ _).mp hex
      rw [h.stored n ns r hr] at hne
      cases hn : m n with
      | none =>
        rw [hn] at hne
        exact absurd rfl hne
      | some p =>
        rw [hn, Option.bind_some] at hne
        by_cases hp : p.1 = ns
        · exact ⟨p.2, by rw [← hp]⟩
        · rw [if_neg hp] at hne
          exact absurd rfl hne

theorem Holds.obeys {d : TreeDriver σ} {s : Store σ} {m : DocMap} (h : Holds d s m) :
    Obeys d s m where
  succeeded_iff op := by
    have hanswered := exec_answered h op
    generalize (exec d.toIDriver op).run s = res at hanswered ⊢
    cases hanswered with
    | @asked x _ hx hr =>
      constructor
      · intro hs
        refine ⟨x, hx, ?_⟩
        cases hr with
        | done hdone _ => exact hdone
        | failed _ hf => cases hf.symm.trans hs
      · rintro ⟨y, hy, hys⟩
        cases hx.unique hy
        cases hr with
        | done _ _ => rfl
        | failed hx' => cases hx'.symm.trans hys
    | refused hno hf _ =>
      constructor
      · intro hs
        cases hf.symm.trans hs
      · rintro ⟨y, hy, -⟩
        exact absurd hy (hno y)
  unchanged op hf := by
    have hanswered := exec_answered h op
    generalize (exec d.toIDriver op).run s = res at hanswered hf ⊢
    cases hanswered with
    | asked _ hr =>
      cases hr with
      | done _ _ => cases hf
      | failed _ _ hcache hdocs => exact ⟨hcache, hdocs⟩
    | refused _ _ hstate =>
      rw [hstate]
      exact ⟨rfl, rfl⟩

/-- The collection above a document lists the beginning of its name, each name once, and the names
it lists are beginnings of names of the namespace. -/
theorem Holds.readCol {d : TreeDriver σ} {s : Store σ} {m : DocMap} (h : Holds d s m) {c n : Name}
    {ns : NamespaceId} (hn : m.owner n = some ns) (hb : c.Below n) :
    ∃ col, Store.readCol s c ns = .ok col ∧ col.Nodup ∧ takeParts n c.parts.length ∈ col ∧
      ∀ k ∈ col, ∃ n', m n' ≠ none ∧ k.parts <+: n'.parts := by
  have hmem : ∀ k, k ∈ s.cache.filterByPrefix c ns ↔ m.owner k = some ns ∧ c.Below k := fun k => by
    rw [h.wf.mem_filterByPrefix, h.cached]
  have hfound := (hmem n).mpr ⟨hn, hb⟩
  unfold Store.readCol
  rw [if_neg (List.ne_nil_of_mem hfound)]
  refine ⟨_, rfl, (pairwise_sortedSet _).imp ne_of_lt, ?_, fun k hk => ?_⟩
  · unfold cutName
    rw [mem_sortedSet, List.mem_map]
    exact ⟨n, List.mem_filter.mpr ⟨hfound, decide_eq_true hb.2⟩, rfl⟩
  · unfold cutName at hk
    rw [mem_sortedSet, List.mem_map] at hk
    obtain ⟨n', hn', rfl⟩ := hk
    have howner := ((hmem n').mp (List.mem_filter.mp hn').1).1
    refine ⟨n', ?_, List.take_prefix _ _⟩
    obtain ⟨v, hv⟩ := OwnedMap.owner_eq_some.mp howner
    rw [hv]
    exact Option.some_ne_none _

section Sequences

variable (d : TreeDriver σ)

/-- The store after a call. -/
def after (s : Store σ) (op : Op) : Store σ := resultState ((exec d.toIDriver op).run s)

/-- The calls of a sequence with whether each succeeded. -/
def outcomes : Store σ → List Op → List (Op × Bool)
  | _, [] => []
  | s, op :: ops =>
    (op, succeeded ((exec d.toIDriver op).run s)) :: outcomes (after d s op) ops

theorem Trace.foldl_after {d : TreeDriver σ} {ls : List (Op × Bool)} {s : Store σ}
    (h : (system d).Trace ls s) (ops : List Op) :
    (system d).Trace (ls ++ outcomes d s ops) (ops.foldl (after d) s) := by
  induction ops generalizing ls s with
  | nil => simpa [outcomes] using h
  | cons op ops ih =>
    have hstep := h.snoc (l := (op, succeeded ((exec d.toIDriver op).run s))) ⟨rfl, rfl⟩
    have hrest := ih hstep
    rw [List.append_assoc, List.singleton_append] at hrest
    exact hrest

/-- Every sequence of calls on a store without documents is a run of the map, with the same calls
succeeding, and ends in a store that reads and obeys as the map says. -/
theorem store_refines_map (s : Store σ) (h : (system d).init s) (ops : List Op) :
    ∃ m, mapSystem.Trace (outcomes d s ops) m ∧
      Answers d (ops.foldl (after d) s) m ∧ Obeys d (ops.foldl (after d) s) m := by
  have htrace := Trace.foldl_after (.nil h) ops
  obtain ⟨m, hm, hs⟩ := (simulates d).trace htrace
  exact ⟨m, hm, hs.answers, hs.obeys⟩

end Sequences

/-- A document created in two namespaces: the second call fails. -/
theorem store_refines_map_twice :
    let n : Name := ⟨["decoder"], by decide, by decide, by decide⟩
    let ops : List Op := [.createDoc n ⟨⟨["system"], by decide, by decide, by decide⟩, rfl⟩ .null,
      .createDoc n ⟨⟨["user"], by decide, by decide, by decide⟩, rfl⟩ .null]
    let s := ops.foldl (after memDriver.toTreeDriver) ⟨.empty, .empty⟩
    ∃ m, mapSystem.Trace (ops.zip [true, false]) m ∧
      Answers memDriver.toTreeDriver s m ∧ Obeys memDriver.toTreeDriver s m := by
  intro n ops s
  have hout : outcomes memDriver.toTreeDriver ⟨.empty, .empty⟩ ops = ops.zip [true, false] := rfl
  rw [← hout]
  exact store_refines_map memDriver.toTreeDriver ⟨.empty, .empty⟩ ⟨rfl, fun _ _ => rfl⟩ ops

end DistroDefender.Store
