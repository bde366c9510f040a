import DistroDefender.Base.StringUtils
import DistroDefender.Store.Refinement

/-!
# The constructor of the store

The constructor rebuilds the cache from the driver: it visits the tree below `namespaces`, derives
the virtual name of every document from its real name, and takes the namespace from the second part
of the real name. That part is read again as a text.

`visitor_loads` says what a visit adds to the cache. Where no namespace of the map has a separator
in its name the whole map is loaded (`construct_loads`), and a constructor that returns has loaded
no other namespace (`construct_plain`).
-/

namespace DistroDefender.Store

open Base Lib

variable {σ : Type}

/-! ## The constructor -/

/-- The store under construction: the cache, and the documents ignored as duplicates. -/
structure Loading where
  cache : DBDocNames
  ignored : List Name

/-- The recursive visitor. `fuel` bounds its depth. -/
def visitor (d : IDriver σ) (t : σ) : Nat → Name → NamespaceId → Call Loading Unit
  | 0, _, _ => throw .outOfFuel
  | fuel + 1, name, nsid => do
    if d.existsDoc name t then
      match ← orThrow (realToVirtualName name) with
      | .error _ => throw (.runtimeError s!"Invalid document name '{name.toStr}'")
      | .ok virtualName =>
        modify fun l =>
          let (added, cache) := l.cache.add virtualName nsid
          ⟨cache, if added then l.ignored else l.ignored ++ [name]⟩
    else
      match ← orThrow (d.readCol name t) with
      | .error err =>
        throw (.runtimeError s!"Error loading collection '{name.toStr}': {err.message}")
      | .ok list => forM list fun subname => visitor d t fuel subname nsid

/-- One namespace of the constructor's loop. -/
def loadNamespace (d : IDriver σ) (t : σ) (fuel : Nat) (name : Name) : Call Loading Unit := do
  if name.parts.length = prefixNS.parts.length + PARTS_NAMESPACE_SIZE ∧ d.existsCol name t then
    let id ← orThrow (Name.ofString (name.parts.getLast name.parts_ne))
    let nsid ← orThrow (NamespaceId.ofName id)
    visitor d t fuel name nsid
  else
    throw (.runtimeError (s!"Invalid namespace '{name.toStr}', part size: {name.parts.length}, " ++
      s!"is collection: {d.existsCol name t}"))

/-- `Store::Store` over a driver in the state `t`. -/
def construct (d : IDriver σ) (t : σ) (fuel : Nat) : Call Loading Unit := do
  if d.existsCol prefixNS t then
    match ← orThrow (d.readCol prefixNS t) with
    | .error err => throw (.runtimeError s!"Error loading namespaces: {err.message}")
    | .ok list => forM list (loadNamespace d t fuel)

/-! ## Loading a collection -/

/-- The parts of the real name of `v` in `ns`. -/
def realParts (v : Name) (ns : NamespaceId) : List String := "namespaces" :: ns.str :: v.parts

/-- The document `v` of the map lies at or below one of `cs`. -/
def Covered (m : DocMap) (cs : List Name) (v : Name) : Prop :=
  ∃ ns, m.owner v = some ns ∧ ∃ c ∈ cs, c.parts <+: realParts v ns

/-- `l'` is `l` with the documents of the map at or below `cs`. -/
structure Loads (m : DocMap) (cs : List Name) (l l' : Loading) : Prop where
  wf : l'.cache.WF
  ignored : l'.ignored = l.ignored
  covered : ∀ v, Covered m cs v → l'.cache.getNamespaceId v = m.owner v
  other : ∀ v, ¬ Covered m cs v → l'.cache.getNamespaceId v = l.cache.getNamespaceId v

namespace Loads

variable {m : DocMap} {cs cs' : List Name} {l l₁ l₂ : Loading}

theorem nil (h : l.cache.WF) : Loads m [] l l where
  wf := h
  ignored := rfl
  covered v hv := by
    obtain ⟨ns, -, c, hc, -⟩ := hv
    cases hc
  other _ _ := rfl

theorem covered_append {v : Name} : Covered m (cs ++ cs') v ↔ Covered m cs v ∨ Covered m cs' v := by
  unfold Covered
  simp only [List.mem_append, or_and_right, exists_or, and_or_left]

theorem append (h₁ : Loads m cs l l₁) (h₂ : Loads m cs' l₁ l₂) : Loads m (cs ++ cs') l l₂ where
  wf := h₂.wf
  ignored := h₂.ignored.trans h₁.ignored
  covered v hv := by
    by_cases h : Covered m cs' v
    · exact h₂.covered v h
    · rw [h₂.other v h]
      exact h₁.covered v ((covered_append.mp hv).resolve_right h)
  other v hv := by
    rw [covered_append, not_or] at hv
    rw [h₂.other v hv.2, h₁.other v hv.1]

theorem congr (h : ∀ v, Covered m cs v ↔ Covered m cs' v) (hl : Loads m cs l l₁) :
    Loads m cs' l l₁ where
  wf := hl.wf
  ignored := hl.ignored
  covered v hv := hl.covered v ((h v).mpr hv)
  other v hv := hl.other v fun hh => hv ((h v).mp hh)

end Loads

section Visit

variable {d : ColDriver σ} {s : Store σ} {m : DocMap}

theorem Holds.docs_real (h : Holds d.toTreeDriver s m) {v r : Name} {ns : NamespaceId}
    (hr : virtualToRealName v ns = .ok r) : d.docs s.driver r ≠ none ↔ m.owner v = some ns := by
  have hc := h.answers.cached_iff v ns
  rw [h.cached] at hc
  rw [hc]
  constructor
  · intro hd
    exact ⟨r, hr, (d.existsDoc_iff _ _).mpr hd⟩
  · rintro ⟨r', hr', hex⟩
    cases hr.symm.trans hr'
    exact (d.existsDoc_iff _ _).mp hex

/-- Every document of the map is kept under its real name. -/
theorem Holds.real_of_owner (h : Holds d.toTreeDriver s m) {v : Name} {ns : NamespaceId}
    (hv : m.owner v = some ns) : ∃ r, virtualToRealName v ns = .ok r ∧ r.parts = realParts v ns ∧
      d.docs s.driver r ≠ none := by
  obtain ⟨c, hc⟩ := OwnedMap.owner_eq_some.mp hv
  obtain ⟨r, hr⟩ :=
    virtualToRealName_ok_iff.mpr (h.fits v (by rw [hc]; exact Option.some_ne_none _))
  exact ⟨r, hr, virtualToRealName_eq_ok.mp hr, (h.docs_real hr).mpr hv⟩

/-- Every document under `namespaces` is a document of the map. -/
theorem Holds.owner_of_doc (h : Holds d.toTreeDriver s m) {r : Name}
    (hfirst : r.first = prefixNS.first) (hr : d.docs s.driver r ≠ none) :
    ∃ v ns, virtualToRealName v ns = .ok r ∧ r.parts = realParts v ns ∧ m.owner v = some ns := by
  have hdeep := h.deep r hfirst hr
  have hne := r.parts_nonempty
  have hle := r.parts_le
  unfold Name.first at hfirst
  match hp : r.parts, hdeep with
  | a :: p :: q :: tl, _ =>
    simp only [hp] at hfirst hne hle
    simp only [List.length_cons] at hle
    have ha : a = "namespaces" := hfirst
    let ns : NamespaceId := ⟨⟨[p], by simp, by simp [MAX_PARTS], by simpa using hne p⟩, rfl⟩
    let v : Name := ⟨q :: tl, by simp, by simp only [List.length_cons]; omega,
      fun x hx => hne x (List.mem_cons_of_mem _ (List.mem_cons_of_mem _ hx))⟩
    have hreal : virtualToRealName v ns = .ok r := by
      rw [virtualToRealName_eq_ok, hp, ha]
      rfl
    exact ⟨v, ns, hreal, by rw [ha]; rfl, (h.docs_real hreal).mp hr⟩

theorem first_eq_of_beginning {c r : Name} (h : c.parts <+: r.parts) : r.first = c.first := by
  obtain ⟨t, ht⟩ := h
  unfold Name.first
  simp only [← ht]
  rw [List.head_append_of_ne_nil c.parts_ne]

/-- A collection with a document of the map below it exists, and its children cover what it
covers. -/
theorem Holds.readCol_covers (h : Holds d.toTreeDriver s m) {c : Name}
    (hfirst : c.first = prefixNS.first) (hdoc : d.docs s.driver c = none)
    (hc : ∃ v, Covered m [c] v) :
    ∃ list, d.existsCol c s.driver = true ∧ d.readCol c s.driver = .ok (.ok list) ∧ list.Nodup ∧
      (∀ c' ∈ list, c.parts <+: c'.parts ∧ c'.parts.length = c.parts.length + 1 ∧
        ∃ v, Covered m [c'] v) ∧
      ∀ v, Covered m list v ↔ Covered m [c] v := by
  -- a document at or below `c` lies strictly below it, since `c` holds none
  have hbelow : ∀ r : Name, d.docs s.driver r ≠ none → c.parts <+: r.parts → c.Below r := by
    intro r hr hp
    refine ⟨hp, lt_of_le_of_ne hp.length_le fun he => hr ?_⟩
    rw [← Name.ext (hp.eq_of_length he)]
    exact hdoc
  have hex : d.existsCol c s.driver = true := by
    obtain ⟨v, ns, hv, c', hc', hp⟩ := hc
    rw [List.mem_singleton] at hc'
    subst hc'
    obtain ⟨r, -, hparts, hr⟩ := h.real_of_owner hv
    exact (d.existsCol_iff _ _).mpr ⟨r, hr, hbelow r hr (hparts ▸ hp)⟩
  obtain ⟨list, hread, hnodup, hmem⟩ := d.readCol_of_exists s.driver c hex
  refine ⟨list, hex, hread, hnodup, fun c' hc' => ?_, fun v => ?_⟩
  · obtain ⟨⟨hp, hlen⟩, r, hr, hpr⟩ := (hmem c').mp hc'
    obtain ⟨v, ns, -, hparts, hv⟩ :=
      h.owner_of_doc ((first_eq_of_beginning (hp.trans hpr)).trans hfirst) hr
    exact ⟨hp, hlen, v, ns, hv, c', List.mem_singleton_self c', hparts ▸ hpr⟩
  · constructor
    · rintro ⟨ns, hv, c', hc', hp⟩
      exact ⟨ns, hv, c, List.mem_singleton_self c, ((hmem c').mp hc').1.1.trans hp⟩
    · rintro ⟨ns, hv, c', hc', hp⟩
      rw [List.mem_singleton] at hc'
      subst hc'
      obtain ⟨r, -, hparts, hr⟩ := h.real_of_owner hv
      rw [← hparts] at hp
      have hb := hbelow r hr hp
      let child : Name := ⟨r.parts.take (c'.parts.length + 1), by simp [r.parts_ne],
        (List.length_take_le' _ _).trans r.parts_le,
        fun q hq => r.parts_nonempty q (List.mem_of_mem_take hq)⟩
      have hchild : child ∈ list := by
        refine (hmem child).mpr ⟨⟨List.prefix_take_iff.mpr ⟨hp, by omega⟩, ?_⟩, r, hr,
          List.take_prefix _ _⟩
        exact List.length_take_of_le hb.2
      exact ⟨ns, hv, child, hchild, hparts ▸ List.take_prefix _ _⟩

/-- What a sibling covers was not covered before. -/
theorem Covered.not_before {list done rest : List Name} {c v : Name} {k : Nat}
    (hlist : list = done ++ c :: rest) (hnodup : list.Nodup)
    (hlen : ∀ c' ∈ list, c'.parts.length = k) (hv : Covered m [c] v) : ¬ Covered m done v := by
  rintro ⟨ns₂, hown₂, c₂, hc₂, hp₂⟩
  obtain ⟨ns₁, hown₁, c₁, hc₁, hp₁⟩ := hv
  cases hown₁.symm.trans hown₂
  rw [List.mem_singleton] at hc₁
  subst hc₁
  have hl₁ := hlen c₁ (by simp [hlist])
  have hl₂ := hlen c₂ (by simp [hlist, hc₂])
  have heq : c₂.parts = c₁.parts :=
    (List.prefix_of_prefix_length_le hp₂ hp₁ (by omega)).eq_of_length (by omega)
  rw [hlist, List.nodup_append] at hnodup
  exact hnodup.2.2 c₂ hc₂ c₁ List.mem_cons_self (Name.ext heq)

theorem Covered.of_mem {cs : List Name} {c v : Name} (hc : c ∈ cs) (hv : Covered m [c] v) :
    Covered m cs v := by
  obtain ⟨ns, hown, c', hc', hp⟩ := hv
  exact ⟨ns, hown, c, hc, List.mem_singleton.mp hc' ▸ hp⟩

/-- A document covers itself alone. -/
theorem Holds.covered_doc (h : Holds d.toTreeDriver s m) {c : Name}
    (hfirst : c.first = prefixNS.first) (hdoc : d.docs s.driver c ≠ none) :
    ∃ v ns, virtualToRealName v ns = .ok c ∧ m.owner v = some ns ∧
      ∀ w, Covered m [c] w ↔ w = v := by
  obtain ⟨v, ns, hreal, hparts, hv⟩ := h.owner_of_doc hfirst hdoc
  refine ⟨v, ns, hreal, hv, fun w => ⟨?_, ?_⟩⟩
  · rintro ⟨ns', hw, c', hc', hp⟩
    rw [List.mem_singleton] at hc'
    subst hc'
    obtain ⟨r, hr, hrparts, hrdoc⟩ := h.real_of_owner hw
    rw [← hrparts] at hp
    have heq : c' = r := by
      refine Name.ext (hp.eq_of_length ?_)
      by_contra hne
      exact d.tree s.driver c' r hdoc hrdoc ⟨hp, lt_of_le_of_ne hp.length_le hne⟩
    subst heq
    exact (virtualToRealName_inj hr hreal).1
  · rintro rfl
    exact ⟨ns, hv, c, List.mem_singleton_self c, hparts ▸ List.prefix_rfl⟩

/-- What lies in the tree of `ns` belongs to `ns`. -/
theorem owner_of_covered {c v : Name} {ns : NamespaceId} (hc : ["namespaces", ns.str] <+: c.parts)
    (hv : Covered m [c] v) : m.owner v = some ns := by
  obtain ⟨ns', hown, c', hc', hp⟩ := hv
  rw [List.mem_singleton] at hc'
  subst hc'
  have hpre := hc.trans hp
  unfold realParts at hpre
  simp only [List.cons_prefix_cons, true_and, List.nil_prefix, and_true] at hpre
  rw [hown, NamespaceId.str_inj.mp hpre]

/-- A visit adds what its name covers, where nothing of that is in the cache yet. -/
theorem visitor_loads (h : Holds d.toTreeDriver s m) {ns : NamespaceId} (fuel : Nat) (c : Name)
    (l : Loading) (hc : ["namespaces", ns.str] <+: c.parts) (hcov : ∃ v, Covered m [c] v)
    (hfuel : MAX_PARTS < fuel + c.parts.length) (hl : l.cache.WF)
    (hnew : ∀ v, Covered m [c] v → l.cache.getNamespaceId v = none) :
    ∃ l', (visitor d.toIDriver s.driver fuel c ns).run l = .ok () l' ∧ Loads m [c] l l' := by
  induction fuel generalizing c l with
  | zero =>
    have := c.parts_le
    omega
  | succ fuel ih =>
    have hfirst : c.first = prefixNS.first := by
      obtain ⟨t, ht⟩ := hc
      unfold Name.first
      simp only [← ht]
      rfl
    unfold visitor
    by_cases hex : d.existsDoc c s.driver = true
    · -- a document: it is the only one `c` covers
      obtain ⟨v, ns', hreal, hv, hcovers⟩ := h.covered_doc hfirst ((d.existsDoc_iff _ _).mp hex)
      have hself : Covered m [c] v := (hcovers v).mpr rfl
      cases hv.symm.trans (owner_of_covered hc hself)
      have hno : l.cache.existsName v = false := by
        have hnone := hnew v hself
        unfold DBDocNames.getNamespaceId at hnone
        simp only [DBDocNames.existsName, hnone, Option.isSome_none]
      rw [if_pos hex, realToVirtualName_real hreal]
      refine ⟨⟨(l.cache.add v ns).2, l.ignored⟩, ?_, ?_⟩
      · have hadd : (l.cache.add v ns).1 = true := by rw [DBDocNames.add_fst, hno, Bool.not_false]
        show EStateM.Result.ok () _ = _
        simp only [hadd, if_true]
      · refine ⟨hl.add, rfl, fun w hw => ?_, fun w hw => ?_⟩
        · rw [(hcovers w).mp hw, DBDocNames.lookup_add hno, if_pos rfl, hv]
        · rw [DBDocNames.lookup_add hno, if_neg fun he => hw ((hcovers w).mpr he)]
    · -- a collection: its children are visited in turn
      have hdoc : d.docs s.driver c = none := by
        by_contra hne
        exact hex ((d.existsDoc_iff _ _).mpr hne)
      obtain ⟨list, -, hread, hnodup, hchild, hcovers⟩ := h.readCol_covers hfirst hdoc hcov
      rw [if_neg hex, hread]
      have hloop := run_forM (f := fun subname => visitor d.toIDriver s.driver fuel subname ns)
        (I := fun done l' => Loads m done l l') (l := list) (s := l) ?_ (.nil hl)
      · obtain ⟨l', hrun, hloads⟩ := hloop
        exact ⟨l', hrun, hloads.congr hcovers⟩
      · intro done c' rest l₁ hlist hdone
        have hmem : c' ∈ list := by simp [hlist]
        obtain ⟨hp, hlen, hcov'⟩ := hchild c' hmem
        have hfresh : ∀ v, Covered m [c'] v → l₁.cache.getNamespaceId v = none := by
          intro v hv
          rw [hdone.other v (hv.not_before hlist hnodup fun c₂ hc₂ => (hchild c₂ hc₂).2.1)]
          exact hnew v ((hcovers v).mp (hv.of_mem hmem))
        obtain ⟨l₂, hrun, hloads⟩ :=
          ih c' l₁ (hc.trans hp) hcov' (by omega) hdone.wf hfresh
        exact ⟨l₂, hrun, hdone.append hloads⟩

theorem ofString_of_not_mem {p : String} {n : Name} (hn : n.parts = [p])
    (hp : SEPARATOR_C ∉ p.toList) : Name.ofString p = .ok n := by
  have hne : p ≠ "" := n.parts_nonempty p (hn ▸ List.mem_singleton_self p)
  unfold Name.ofString
  rw [split_of_not_mem hne hp, ← hn, Name.ofParts_parts]

/-- Where no namespace has a separator in its name, the constructor loads the whole map. -/
theorem construct_loads (h : Holds d.toTreeDriver s m)
    (hsep : ∀ v ns, m.owner v = some ns → SEPARATOR_C ∉ ns.str.toList) {fuel : Nat}
    (hfuel : MAX_PARTS ≤ fuel) :
    ∃ l', (construct d.toIDriver s.driver fuel).run ⟨.empty, []⟩ = .ok () l' ∧
      Loads m [prefixNS] ⟨.empty, []⟩ l' := by
  have hnone : ∀ c : Name, c.first = prefixNS.first → c.parts.length ≤ 2 →
      d.docs s.driver c = none := by
    intro c hfirst hlen
    by_contra hne
    have := h.deep c hfirst hne
    omega
  unfold construct
  by_cases hex : d.existsCol prefixNS s.driver = true
  · obtain ⟨r, hr, hb⟩ := (d.existsCol_iff _ _).mp hex
    obtain ⟨v, ns, -, hparts, hv⟩ := h.owner_of_doc (first_eq_of_beginning hb.1) hr
    obtain ⟨list, -, hread, hnodup, hchild, hcovers⟩ := h.readCol_covers (c := prefixNS) rfl
      (hnone prefixNS rfl (by decide)) ⟨v, ns, hv, prefixNS, List.mem_singleton_self _,
        hparts ▸ hb.1⟩
    rw [if_pos hex, hread]
    have hloop := run_forM (f := loadNamespace d.toIDriver s.driver fuel)
      (I := fun done l' => Loads m done ⟨.empty, []⟩ l') (l := list) (s := ⟨.empty, []⟩) ?_
      (.nil .empty)
    · obtain ⟨l', hrun, hloads⟩ := hloop
      exact ⟨l', hrun, hloads.congr hcovers⟩
    · intro done c rest l₁ hlist hdone
      have hmem : c ∈ list := by simp [hlist]
      obtain ⟨hp, hlen, hcov⟩ := hchild c hmem
      obtain ⟨w, ns', hw, c', hc', hpc⟩ := hcov
      rw [List.mem_singleton] at hc'
      subst hc'
      have hcparts : c'.parts = ["namespaces", ns'.str] := by
        have heq := List.prefix_iff_eq_take.mp hpc
        rw [hlen] at heq
        exact heq
      have hself : Covered m [c'] w := ⟨ns', hw, c', List.mem_singleton_self _, hpc⟩
      obtain ⟨-, hcol, -⟩ := h.readCol_covers (first_eq_of_beginning hp)
        (hnone c' (first_eq_of_beginning hp) (by rw [hcparts]; rfl)) ⟨w, hself⟩
      have hlast : c'.parts.getLast c'.parts_ne = ns'.str := by simp only [hcparts]; rfl
      have hpre : ["namespaces", ns'.str] <+: c'.parts := hcparts ▸ List.prefix_rfl
      obtain ⟨l₂, hrun, hloads⟩ := visitor_loads h fuel c' l₁ hpre ⟨w, hself⟩
        (by rw [hcparts, List.length_cons]; omega) hdone.wf fun x hx => by
          rw [hdone.other x (hx.not_before hlist hnodup fun c₂ hc₂ => (hchild c₂ hc₂).2.1)]
          rfl
      refine ⟨l₂, ?_, hdone.append hloads⟩
      unfold loadNamespace
      rw [if_pos ⟨hlen, hcol⟩, hlast, ofString_of_not_mem ns'.parts_eq (hsep w ns' hw)]
      show EStateM.run (orThrow (NamespaceId.ofName ns'.id) >>= _) l₁ = _
      rw [NamespaceId.ofName_id]
      exact hrun
  · rw [if_neg hex]
    refine ⟨⟨.empty, []⟩, rfl, .empty, rfl, fun v hv => ?_, fun v _ => rfl⟩
    obtain ⟨ns, hown, c, hc, -⟩ := hv
    obtain ⟨r, -, hparts, hr⟩ := h.real_of_owner hown
    refine absurd ((d.existsCol_iff _ _).mpr ⟨r, hr, ?_⟩) hex
    exact ⟨hparts ▸ List.cons_prefix_cons.mpr
      ⟨rfl, List.nil_prefix⟩, by simp [hparts, realParts, prefixNS]⟩

end Visit

/-! ## What a constructor that returns has loaded -/

/-- No namespace of the cache has a separator in its name. -/
def Plain (c : DBDocNames) : Prop :=
  ∀ n ns, c.getNamespaceId n = some ns → SEPARATOR_C ∉ ns.str.toList

theorem Plain.add {c : DBDocNames} (h : Plain c) {n : Name} {ns : NamespaceId}
    (hns : SEPARATOR_C ∉ ns.str.toList) : Plain (c.add n ns).2 := by
  intro k ns' hk
  cases hex : c.existsName n with
  | true =>
    rw [DBDocNames.add_of_exists hex] at hk
    exact h k ns' hk
  | false =>
    rw [DBDocNames.lookup_add hex] at hk
    split at hk
    · cases hk
      exact hns
    · exact h k ns' hk

/-! ## What every load keeps -/

/-- A visit that returns has added the document of the name, or visited what the collection
lists. -/
theorem visitor_cases {d : IDriver σ} {t : σ} {fuel : Nat} {name : Name} {ns : NamespaceId}
    {l l' : Loading} (hrun : (visitor d t (fuel + 1) name ns).run l = .ok () l') :
    (d.existsDoc name t = true ∧ ∃ v, realToVirtualName name = .ok (.ok v) ∧
      l'.cache = (l.cache.add v ns).2) ∨
      (d.existsDoc name t = false ∧ ∃ list, d.readCol name t = .ok (.ok list) ∧
        (forM list fun subname => visitor d t fuel subname ns).run l = .ok () l') := by
  unfold visitor at hrun
  split at hrun
  · rename_i hex
    cases hv : realToVirtualName name with
    | error e =>
      rw [hv] at hrun
      cases hrun
    | ok r =>
      rw [hv] at hrun
      cases r with
      | error e => cases hrun
      | ok v =>
        cases hrun
        exact .inl ⟨hex, v, rfl, rfl⟩
  · rename_i hex
    cases hv : d.readCol name t with
    | error e =>
      rw [hv] at hrun
      cases hrun
    | ok r =>
      rw [hv] at hrun
      cases r with
      | error e => cases hrun
      | ok list => exact .inr ⟨Bool.eq_false_iff.mpr hex, list, rfl, hrun⟩

/-- A namespace that is loaded is a collection of two parts, and the second read as a text is the
namespace. -/
theorem loadNamespace_cases {d : IDriver σ} {t : σ} {fuel : Nat} {name : Name} {l l' : Loading}
    (hrun : (loadNamespace d t fuel name).run l = .ok () l') :
    name.parts.length = prefixNS.parts.length + PARTS_NAMESPACE_SIZE ∧ ∃ ns : NamespaceId,
      Name.ofString (name.parts.getLast name.parts_ne) = .ok ns.id ∧
        (visitor d t fuel name ns).run l = .ok () l' := by
  unfold loadNamespace at hrun
  split at hrun
  · rename_i hcol
    cases hid : Name.ofString (name.parts.getLast name.parts_ne) with
    | error e =>
      rw [hid] at hrun
      cases hrun
    | ok id =>
      rw [hid] at hrun
      change (orThrow (NamespaceId.ofName id) >>= _ : Call Loading Unit).run l = _ at hrun
      cases hns : NamespaceId.ofName id with
      | error e =>
        rw [hns] at hrun
        cases hrun
      | ok ns =>
        rw [hns] at hrun
        unfold NamespaceId.ofName at hns
        split at hns
        · cases hns
          exact ⟨hcol.1, _, rfl, hrun⟩
        · cases hns
  · cases hrun

/-- A constructor that returns found no namespaces, or has loaded those the driver lists. -/
theorem construct_cases {d : IDriver σ} {t : σ} {fuel : Nat} {l' : Loading}
    (hrun : (construct d t fuel).run ⟨.empty, []⟩ = .ok () l') :
    (d.existsCol prefixNS t = false ∧ l' = ⟨.empty, []⟩) ∨
      ∃ list, d.readCol prefixNS t = .ok (.ok list) ∧
        (forM list (loadNamespace d t fuel)).run ⟨.empty, []⟩ = .ok () l' := by
  unfold construct at hrun
  split at hrun
  · cases hv : d.readCol prefixNS t with
    | error e =>
      rw [hv] at hrun
      cases hrun
    | ok r =>
      rw [hv] at hrun
      cases r with
      | error e => cases hrun
      | ok list => exact .inr ⟨list, rfl, hrun⟩
  · rename_i hex
    cases hrun
    exact .inl ⟨Bool.eq_false_iff.mpr hex, rfl⟩

/-- The second part read as a text has no separator. -/
theorem plain_of_ofString {text : String} {ns : NamespaceId} (h : Name.ofString text = .ok ns.id) :
    SEPARATOR_C ∉ ns.str.toList := by
  have hmem : ns.str ∈ split text SEPARATOR_C := by
    rw [← Name.ofString_eq_ok.mp h]
    exact List.head_mem ns.id.parts_ne
  exact not_mem_of_mem_split hmem

/-- What adding a loaded document keeps, the visitor keeps. -/
theorem visitor_keeps (d : IDriver σ) (t : σ) {I : DBDocNames → Prop} {fuel : Nat} {name : Name}
    {ns : NamespaceId}
    (hadd : ∀ c real v, realToVirtualName real = .ok (.ok v) → I c → I (c.add v ns).2)
    {l l' : Loading} (hl : I l.cache) (hrun : (visitor d t fuel name ns).run l = .ok () l') :
    I l'.cache := by
  induction fuel generalizing name l l' with
  | zero => cases hrun
  | succ fuel ih =>
    rcases visitor_cases hrun with ⟨-, v, hv, hcache⟩ | ⟨-, list, -, hloop⟩
    · rw [hcache]
      exact hadd _ name v hv hl
    · exact forM_keeps (I := fun l => I l.cache) (fun c _ l₁ l₂ hl₁ hrun₁ => ih hl₁ hrun₁) hl hloop

theorem construct_keeps (d : IDriver σ) (t : σ) {I : DBDocNames → Prop} (hempty : I .empty)
    (hadd : ∀ c real v ns, SEPARATOR_C ∉ ns.str.toList → realToVirtualName real = .ok (.ok v) →
      I c → I (c.add v ns).2)
    {fuel : Nat} {l' : Loading} (hrun : (construct d t fuel).run ⟨.empty, []⟩ = .ok () l') :
    I l'.cache := by
  rcases construct_cases hrun with ⟨-, rfl⟩ | ⟨list, -, hloop⟩
  · exact hempty
  · refine forM_keeps (I := fun l => I l.cache) (fun c _ l₁ l₂ hl₁ hrun₁ => ?_) hempty hloop
    obtain ⟨-, ns, hns, hvisit⟩ := loadNamespace_cases hrun₁
    exact visitor_keeps d t (fun c real v => hadd c real v ns (plain_of_ofString hns)) hl₁ hvisit

theorem construct_plain (d : IDriver σ) (t : σ) {fuel : Nat} {l' : Loading}
    (hrun : (construct d t fuel).run ⟨.empty, []⟩ = .ok () l') : Plain l'.cache :=
  construct_keeps d t (fun n ns h => by cases h) (fun _ _ _ _ hns _ hc => hc.add hns) hrun

end DistroDefender.Store
