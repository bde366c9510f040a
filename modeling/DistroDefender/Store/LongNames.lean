import DistroDefender.Store.Load

/-!
# Names that are too long

A name of `MAX_PARTS - 1` or `MAX_PARTS` parts has no real name, and asking for it throws. The names
in a cache always have one (`known_inductive`), so the calls that look the name up first refuse such
a name. `createDoc` and `upsertDoc` do not: they throw (`refuses_long_iff`).
-/

namespace DistroDefender.Store

open Base Lib

variable {σ : Type}

/-! ## The calls -/

/-- The public calls of the store on documents and collections. -/
inductive Operation where
  | createDoc (name : Name) (namespaceId : NamespaceId) (content : Doc)
  | updateDoc (name : Name) (content : Doc)
  | upsertDoc (name : Name) (namespaceId : NamespaceId) (content : Doc)
  | deleteDoc (name : Name)
  | deleteCol (name : Name) (namespaceId : NamespaceId)
  | readDoc (name : Name)
  | readCol (name : Name) (namespaceId : NamespaceId)
  | existsDoc (name : Name)
  | existsCol (name : Name) (namespaceId : NamespaceId)

def Operation.name : Operation → Name
  | .createDoc name .. | .updateDoc name _ | .upsertDoc name .. | .deleteDoc
      name | .deleteCol name _
  | .readDoc name | .readCol name _ | .existsDoc name | .existsCol name _ => name

/-- How a call ends: with a result, with a `base::Error` or a plain no, or with an exception. -/
inductive Outcome where
  | done
  | refused
  | threw
  deriving DecidableEq

def Outcome.ofResult {τ : Type} : EStateM.Result Throw τ OptError → Outcome × τ
  | .ok none t => (.done, t)
  | .ok (some _) t => (.refused, t)
  | .error _ t => (.threw, t)

/-- What a call answers, and the store after it. -/
def outcome (d : IDriver σ) (s : Store σ) : Operation → Outcome × Store σ
  | .createDoc name ns content => Outcome.ofResult ((createDoc d name ns content).run s)
  | .updateDoc name content => Outcome.ofResult ((updateDoc d name content).run s)
  | .upsertDoc name ns content => Outcome.ofResult ((upsertDoc d name ns content).run s)
  | .deleteDoc name => Outcome.ofResult ((deleteDoc d name).run s)
  | .deleteCol name ns => Outcome.ofResult ((deleteCol d name ns).run s)
  | .readDoc name =>
    match readDoc d s name with
    | .error _ => (.threw, s)
    | .ok (.error _) => (.refused, s)
    | .ok (.ok _) => (.done, s)
  | .readCol name ns =>
    match readCol s name ns with
    | .error _ => (.refused, s)
    | .ok _ => (.done, s)
  | .existsDoc name => (if existsDoc s name then .done else .refused, s)
  | .existsCol name ns => (if existsCol s name ns then .done else .refused, s)

/-- The driver's calls return. -/
structure Returns (d : IDriver σ) : Prop where
  createDoc : ∀ n c t, ∃ e t', (d.createDoc n c).run t = .ok e t'
  updateDoc : ∀ n c t, ∃ e t', (d.updateDoc n c).run t = .ok e t'
  upsertDoc : ∀ n c t, ∃ e t', (d.upsertDoc n c).run t = .ok e t'
  deleteDoc : ∀ n t, ∃ e t', (d.deleteDoc n).run t = .ok e t'
  deleteCol : ∀ n t, ∃ e t', (d.deleteCol n).run t = .ok e t'

/-! ## The names in the cache -/

/-- The name has a real name. -/
def FitsReal (n : Name) : Prop := n.parts.length + 2 ≤ MAX_PARTS

instance (n : Name) : Decidable (FitsReal n) := inferInstanceAs (Decidable (_ ≤ _))

/-- The indexes of the cache agree, and its names have real names. -/
structure Known (c : DBDocNames) : Prop where
  wf : c.WF
  fits : ∀ n ns, c.getNamespaceId n = some ns → FitsReal n

theorem Known.add {c : DBDocNames} (h : Known c) {n : Name} {ns : NamespaceId} (hn : FitsReal n) :
    Known (c.add n ns).2 := by
  refine ⟨h.wf.add, fun m ns' hm => ?_⟩
  cases hex : c.existsName n with
  | true =>
    rw [DBDocNames.add_of_exists hex] at hm
    exact h.fits m ns' hm
  | false =>
    rw [DBDocNames.lookup_add hex] at hm
    split at hm
    · rename_i hmn
      exact hmn ▸ hn
    · exact h.fits m ns' hm

theorem Known.del {c : DBDocNames} (h : Known c) (n : Name) : Known (c.del n) := by
  refine ⟨h.wf.del, fun m ns hm => ?_⟩
  rw [DBDocNames.lookup_del h.wf] at hm
  split at hm
  · cases hm
  · exact h.fits m ns hm

theorem Known.delCol {c : DBDocNames} (h : Known c) (n : Name) (ns : NamespaceId) :
    Known (c.delCol n ns) := by
  refine ⟨h.wf.delCol, fun m ns' hm => ?_⟩
  rw [DBDocNames.lookup_delCol h.wf] at hm
  split at hm
  · cases hm
  · exact h.fits m ns' hm

/-- The virtual name of a real name leaves room for the two parts before it. -/
theorem fits_of_real {real v : Name} (h : realToVirtualName real = .ok (.ok v)) : FitsReal v := by
  unfold realToVirtualName at h
  simp only at h
  split at h
  · cases h
  rename_i hlen
  split at h
  · cases h
  cases hns : Name.ofParts ((real.parts.drop prefixNS.parts.length).take PARTS_NAMESPACE_SIZE) with
  | error e =>
    rw [hns] at h
    cases h
  | ok namespaceName =>
    simp only [hns, bind, Except.bind] at h
    cases hfrom : NamespaceId.fromName namespaceName with
    | error e =>
      rw [hfrom] at h
      cases h
    | ok resp =>
      rw [hfrom] at h
      cases resp with
      | error e => cases h
      | ok ns =>
        simp only at h
        cases hv : Name.ofParts
          (real.parts.drop (prefixNS.parts.length + PARTS_NAMESPACE_SIZE)) with
        | error e =>
          rw [hv] at h
          cases h
        | ok v' =>
          rw [hv] at h
          cases h
          have hparts := congrArg List.length (Name.ofParts_eq_ok.mp hv)
          have hle := real.parts_le
          rw [List.length_drop] at hparts
          unfold FitsReal
          simp only [prefixNS, PARTS_NAMESPACE_SIZE, List.length_cons,
            List.length_nil] at hlen hparts
          omega

/-! ## Every reachable store -/

/-- The stores over a driver: what the constructor loads, and every call. -/
def stores (d : IDriver σ) : System (Store σ) Op where
  init s := ∃ fuel l, (construct d s.driver fuel).run ⟨.empty, []⟩ = .ok () l ∧ s.cache = l.cache
  step s op s' := s' = resultState ((exec d op).run s)

theorem cache_finish (s : Store σ) (cache : DBDocNames) (r : EStateM.Result Throw σ OptError) :
    (resultState (finish s cache r)).cache = s.cache ∨
    (resultState (finish s cache r)).cache = cache := by
  rcases r with ⟨_ | e, t⟩ | ⟨e, t⟩
  · exact .inr rfl
  · exact .inl rfl
  · exact .inl rfl

/-- A call that ends by `finish` leaves a known cache. -/
theorem Known.finish {s : Store σ} (h : Known s.cache) {cache : DBDocNames} (hcache : Known cache)
    (r : EStateM.Result Throw σ OptError) : Known (resultState (finish s cache r)).cache := by
  rcases cache_finish s cache r with heq | heq
  · rw [heq]
    exact h
  · rw [heq]
    exact hcache

/-- A call at a real name leaves a known cache, if the one it goes on with is known when there is
such a name. -/
theorem known_atReal {s : Store σ} (h : Known s.cache) {name : Name} {ns : NamespaceId}
    {cache : DBDocNames} (hcache : (∃ r, virtualToRealName name ns = .ok r) → Known cache)
    (x : Name → EStateM.Result Throw σ OptError) :
    Known (resultState (match virtualToRealName name ns with
      | .error e => .error e s
      | .ok r => finish s cache (x r))).cache := by
  cases hr : virtualToRealName name ns with
  | error e => exact h
  | ok r => exact h.finish (hcache ⟨r, hr⟩) _

theorem internalWrite_known {s : Store σ} (h : Known s.cache) (verb : String) (n : Name)
    (x : Call σ OptError) : Known (resultState ((internalWrite verb n x).run s)).cache := by
  rw [run_internalWrite]
  cases internalNameError verb n with
  | some e => exact h
  | none => exact h.finish h _

theorem known_inductive (d : IDriver σ) : (stores d).Inductive fun s => Known s.cache where
  init s := by
    rintro ⟨fuel, l, hrun, hcache⟩
    rw [hcache]
    refine construct_keeps d s.driver ⟨.empty, fun n ns h => ?_⟩
      (fun c real v ns _ hv hc => hc.add (fits_of_real hv)) hrun
    cases h
  step s op s' := by
    rintro h rfl
    cases op with
    | createDoc name ns content =>
      show Known (resultState ((createDoc d name ns content).run s)).cache
      rw [run_createDoc]
      split
      · exact h
      · exact known_atReal h (fun hr => h.add (virtualToRealName_ok_iff.mp hr)) _
    | updateDoc name content =>
      show Known (resultState ((updateDoc d name content).run s)).cache
      rw [run_updateDoc]
      cases s.cache.getNamespaceId name with
      | none => exact h
      | some ns => exact known_atReal h (fun _ => h) _
    | upsertDoc name ns content =>
      show Known (resultState ((upsertDoc d name ns content).run s)).cache
      rw [run_upsertDoc]
      split
      · exact h
      · exact known_atReal h (fun hr => h.add (virtualToRealName_ok_iff.mp hr)) _
    | deleteDoc name =>
      show Known (resultState ((deleteDoc d name).run s)).cache
      rw [run_deleteDoc]
      cases s.cache.getNamespaceId name with
      | none => exact h
      | some ns => exact known_atReal h (fun _ => h.del name) _
    | deleteCol name ns =>
      show Known (resultState ((deleteCol d name ns).run s)).cache
      rw [run_deleteCol]
      split
      · exact h
      · exact known_atReal h (fun _ => h.delCol name ns) _
    | createInternalDoc name content => exact internalWrite_known h _ name _
    | updateInternalDoc name content => exact internalWrite_known h _ name _
    | upsertInternalDoc name content => exact internalWrite_known h _ name _
    | deleteInternalDoc name => exact internalWrite_known h _ name _

/-! ## What the calls answer -/

/-- The call returns, and refuses a name that has no real name, changing nothing. -/
structure RefusesLong (d : IDriver σ) (s : Store σ) (op : Operation) : Prop where
  returns : (outcome d s op).1 ≠ .threw
  refuses : ¬ FitsReal op.name → outcome d s op = (.refused, s)

/-- A call that brings a name to the store gives one that has a real name. -/
def Operation.Brings : Operation → Prop
  | .createDoc name .. | .upsertDoc name .. => FitsReal name
  | _ => True

section Answers

variable {d : IDriver σ} {s : Store σ} {n : Name} {ns : NamespaceId}

theorem ofResult_returns {τ : Type} {r : EStateM.Result Throw τ OptError}
    (hr : ∃ e t, r = .ok e t) : (Outcome.ofResult r).1 ≠ .threw := by
  obtain ⟨_ | e, t, rfl⟩ := hr <;> simp [Outcome.ofResult]

theorem finish_returns (s : Store σ) (cache : DBDocNames) {r : EStateM.Result Throw σ OptError}
    (hr : ∃ e t, r = .ok e t) : ∃ e t, finish s cache r = .ok e t := by
  obtain ⟨_ | e, t, rfl⟩ := hr <;> exact ⟨_, _, rfl⟩

theorem unknown_of_long (h : Known s.cache) (hn : ¬ FitsReal n) :
    s.cache.getNamespaceId n = none := by
  cases hns : s.cache.getNamespaceId n with
  | none => rfl
  | some ns => exact absurd (h.fits n ns hns) hn

theorem exists_real (hn : FitsReal n) (ns : NamespaceId) : ∃ r, virtualToRealName n ns = .ok r :=
  virtualToRealName_ok_iff.mpr hn

/-- What is created under a name without a real name is an exception. -/
theorem real_of_long (hn : ¬ FitsReal n) (ns : NamespaceId) :
    ∃ e, virtualToRealName n ns = .error e := by
  cases hr : virtualToRealName n ns with
  | error e => exact ⟨e, rfl⟩
  | ok r => exact absurd (virtualToRealName_ok_iff.mp ⟨r, hr⟩) hn

theorem createDoc_returns (hd : Returns d) (hn : FitsReal n) (ns : NamespaceId) (content : Doc) :
    ∃ e s', (createDoc d n ns content).run s = .ok e s' := by
  obtain ⟨r, hr⟩ := exists_real hn ns
  rw [run_createDoc]
  split
  · exact ⟨_, _, rfl⟩
  · rw [hr]
    exact finish_returns s _ (hd.createDoc r content s.driver)

theorem createDoc_refusesLong (hd : Returns d) (h : Known s.cache) (content : Doc) :
    RefusesLong d s (.createDoc n ns content) ↔ FitsReal n := by
  constructor
  · intro hop
    by_contra hn
    obtain ⟨e, he⟩ := real_of_long hn ns
    refine hop.returns ?_
    have hfree : s.cache.existsName n = false := by
      show (s.cache.getNamespaceId n).isSome = false
      rw [unknown_of_long h hn]
      rfl
    show (Outcome.ofResult ((createDoc d n ns content).run s)).1 = _
    rw [run_createDoc, if_neg (by rw [hfree]; exact Bool.false_ne_true), he]
    rfl
  · intro hn
    exact ⟨ofResult_returns (createDoc_returns hd hn ns content), fun hlong => absurd hn hlong⟩

theorem upsertDoc_refusesLong (hd : Returns d) (h : Known s.cache) (content : Doc) :
    RefusesLong d s (.upsertDoc n ns content) ↔ FitsReal n := by
  constructor
  · intro hop
    by_contra hn
    obtain ⟨e, he⟩ := real_of_long hn ns
    refine hop.returns ?_
    show (Outcome.ofResult ((upsertDoc d n ns content).run s)).1 = _
    rw [run_upsertDoc, if_neg (by rw [unknown_of_long h hn]; simp), he]
    rfl
  · intro hn
    obtain ⟨r, hr⟩ := exists_real hn ns
    refine ⟨ofResult_returns ?_, fun hlong => absurd hn hlong⟩
    rw [run_upsertDoc]
    split
    · exact ⟨_, _, rfl⟩
    · rw [hr]
      exact finish_returns s _ (hd.upsertDoc r content s.driver)

theorem updateDoc_returns (hd : Returns d) (h : Known s.cache) (n : Name) (content : Doc) :
    ∃ e s', (updateDoc d n content).run s = .ok e s' := by
  rw [run_updateDoc]
  cases hns : s.cache.getNamespaceId n with
  | none => exact ⟨_, _, rfl⟩
  | some ns =>
    obtain ⟨r, hr⟩ := exists_real (h.fits n ns hns) ns
    simp only [hr]
    exact finish_returns s _ (hd.updateDoc r content s.driver)

theorem updateDoc_refusesLong (hd : Returns d) (h : Known s.cache) (content : Doc) :
    RefusesLong d s (.updateDoc n content) := by
  refine ⟨ofResult_returns (updateDoc_returns hd h n content), fun (hlong : ¬ FitsReal n) => ?_⟩
  show Outcome.ofResult ((updateDoc d n content).run s) = _
  rw [run_updateDoc, unknown_of_long h hlong]
  rfl

theorem deleteDoc_returns (hd : Returns d) (h : Known s.cache) (n : Name) :
    ∃ e s', (deleteDoc d n).run s = .ok e s' := by
  rw [run_deleteDoc]
  cases hns : s.cache.getNamespaceId n with
  | none => exact ⟨_, _, rfl⟩
  | some ns =>
    obtain ⟨r, hr⟩ := exists_real (h.fits n ns hns) ns
    simp only [hr]
    exact finish_returns s _ (hd.deleteDoc r s.driver)

theorem deleteDoc_refusesLong (hd : Returns d) (h : Known s.cache) :
    RefusesLong d s (.deleteDoc n) := by
  refine ⟨ofResult_returns (deleteDoc_returns hd h n), fun (hlong : ¬ FitsReal n) => ?_⟩
  show Outcome.ofResult ((deleteDoc d n).run s) = _
  rw [run_deleteDoc, unknown_of_long h hlong]
  rfl

/-- What lies below a name leaves room for the name. -/
theorem fits_of_below (h : Known s.cache) {m : Name} (hm : m ∈ s.cache.filterByPrefix n ns) :
    FitsReal n := by
  obtain ⟨hns, -, hlen⟩ := h.wf.mem_filterByPrefix.mp hm
  have hfits := h.fits m ns hns
  unfold FitsReal at *
  omega

theorem filter_of_long (h : Known s.cache) (hn : ¬ FitsReal n) :
    s.cache.filterByPrefix n ns = [] := by
  by_contra hne
  obtain ⟨m, hm⟩ := List.exists_mem_of_ne_nil _ hne
  exact hn (fits_of_below h hm)

theorem deleteCol_returns (hd : Returns d) (h : Known s.cache) (n : Name) (ns : NamespaceId) :
    ∃ e s', (deleteCol d n ns).run s = .ok e s' := by
  rw [run_deleteCol]
  split
  · exact ⟨_, _, rfl⟩
  · rename_i hsome
    obtain ⟨m, hm⟩ := List.exists_mem_of_ne_nil _ hsome
    obtain ⟨r, hr⟩ := exists_real (fits_of_below h hm) ns
    rw [hr]
    exact finish_returns s _ (hd.deleteCol r s.driver)

theorem deleteCol_refusesLong (hd : Returns d) (h : Known s.cache) :
    RefusesLong d s (.deleteCol n ns) := by
  refine ⟨ofResult_returns (deleteCol_returns hd h n ns), fun (hlong : ¬ FitsReal n) => ?_⟩
  show Outcome.ofResult ((deleteCol d n ns).run s) = _
  rw [run_deleteCol, if_pos (filter_of_long h hlong)]
  rfl

theorem readDoc_returns (h : Known s.cache) : ∃ a, readDoc d s n = .ok a := by
  unfold readDoc
  cases hns : s.cache.getNamespaceId n with
  | none => exact ⟨_, rfl⟩
  | some ns =>
    obtain ⟨r, hr⟩ := exists_real (h.fits n ns hns) ns
    simp only [hr]
    exact ⟨_, rfl⟩

theorem readDoc_refusesLong (h : Known s.cache) : RefusesLong d s (.readDoc n) := by
  refine ⟨?_, fun (hlong : ¬ FitsReal n) => ?_⟩
  · obtain ⟨a, ha⟩ := readDoc_returns (d := d) (n := n) h
    unfold outcome
    simp only [ha]
    cases a <;> simp
  · have hno : readDoc d s n = .ok (.error ⟨"Document does not exist"⟩) := by
      unfold readDoc
      rw [unknown_of_long h hlong]
    unfold outcome
    simp only [hno]

theorem reads_refuseLong (h : Known s.cache) : RefusesLong d s (.readCol n ns) ∧
    RefusesLong d s (.existsDoc n) ∧ RefusesLong d s (.existsCol n ns) := by
  refine ⟨⟨?_, fun (hlong : ¬ FitsReal n) => ?_⟩, ⟨?_, fun (hlong : ¬ FitsReal n) => ?_⟩,
    ⟨?_, fun (hlong : ¬ FitsReal n) => ?_⟩⟩
  · unfold outcome
    simp only
    split <;> simp
  · unfold outcome readCol
    have hnil : s.cache.filterByPrefix n ns = [] := filter_of_long h hlong
    simp only [hnil, if_true]
  · unfold outcome
    simp only
    split <;> simp
  · have hno : existsDoc s n = false := by
      show (s.cache.getNamespaceId n).isSome = false
      rw [unknown_of_long h hlong]
      rfl
    unfold outcome
    simp only [hno, Bool.false_eq_true, if_false]
  · unfold outcome
    simp only
    split <;> simp
  · have hno : existsCol s n ns = false := by
      unfold existsCol
      rw [filter_of_long h hlong]
      rfl
    unfold outcome
    simp only [hno, Bool.false_eq_true, if_false]

end Answers

/-- In every reachable store, a call returns and refuses a name without a real name exactly when it
does not bring such a name to the store. -/
theorem refuses_long_iff (d : IDriver σ) (hd : Returns d) (s : Store σ) (h : (stores d).Reachable s)
    (op : Operation) : RefusesLong d s op ↔ op.Brings := by
  have hknown := (known_inductive d).holds h
  cases op with
  | createDoc name ns content => exact createDoc_refusesLong hd hknown content
  | upsertDoc name ns content => exact upsertDoc_refusesLong hd hknown content
  | updateDoc name content => exact iff_of_true (updateDoc_refusesLong hd hknown content) trivial
  | deleteDoc name => exact iff_of_true (deleteDoc_refusesLong hd hknown) trivial
  | deleteCol name ns => exact iff_of_true (deleteCol_refusesLong hd hknown) trivial
  | readDoc name => exact iff_of_true (readDoc_refusesLong hknown) trivial
  | readCol name ns => exact iff_of_true (reads_refuseLong hknown).1 trivial
  | existsDoc name => exact iff_of_true (@reads_refuseLong _ d s name systemNs hknown).2.1 trivial
  | existsCol name ns => exact iff_of_true (reads_refuseLong hknown).2.2 trivial

section Sample

/-- A name of `MAX_PARTS - 1` parts. -/
def longName : Name :=
  ⟨["a", "b", "c", "d", "e", "f", "g", "h", "i"], by decide, by decide, by decide⟩

def freshStore : Store MemTree := ⟨.empty, .empty⟩

theorem freshStore_reachable : (stores memDriver.toIDriver).Reachable freshStore :=
  .init ⟨0, ⟨.empty, []⟩, rfl, rfl⟩

def oneDocStore : Store MemTree :=
  resultState ((createDoc memDriver.toIDriver decoderName systemNs .null).run freshStore)

theorem oneDocStore_reachable : (stores memDriver.toIDriver).Reachable oneDocStore := by
  refine freshStore_reachable.step (l := .createDoc decoderName systemNs .null) ?_
  rfl

theorem memDriver_returns : Returns memDriver.toIDriver where
  createDoc n c t := by
    show ∃ e t', (MemTree.createDoc n c).run t = .ok e t'
    unfold MemTree.createDoc MemTree.put
    rw [EStateM.run_bind, EStateM.run_get]
    simp only
    split
    · exact ⟨_, _, rfl⟩
    · rw [EStateM.run_bind, EStateM.run_get]
      simp only
      split <;> exact ⟨_, _, rfl⟩
  updateDoc n c t := by
    show ∃ e t', (MemTree.updateDoc n c).run t = .ok e t'
    unfold MemTree.updateDoc MemTree.put
    rw [EStateM.run_bind, EStateM.run_get]
    simp only
    split
    · rw [EStateM.run_bind, EStateM.run_get]
      simp only
      split <;> exact ⟨_, _, rfl⟩
    · exact ⟨_, _, rfl⟩
  upsertDoc n c t := by
    show ∃ e t', (MemTree.put n c).run t = .ok e t'
    unfold MemTree.put
    rw [EStateM.run_bind, EStateM.run_get]
    simp only
    split <;> exact ⟨_, _, rfl⟩
  deleteDoc n t := by
    show ∃ e t', (MemTree.deleteDoc n).run t = .ok e t'
    unfold MemTree.deleteDoc
    rw [EStateM.run_bind, EStateM.run_get]
    simp only
    split <;> exact ⟨_, _, rfl⟩
  deleteCol n t := ⟨_, _, rfl⟩

/-- A long name is refused by an update, and not where it is brought to the store. -/
theorem refuses_long_update :
    RefusesLong memDriver.toIDriver oneDocStore (.updateDoc longName .null) ∧
    ¬ RefusesLong memDriver.toIDriver oneDocStore (.createDoc longName systemNs .null) := by
  have hiff :=
    refuses_long_iff memDriver.toIDriver memDriver_returns oneDocStore oneDocStore_reachable
  constructor
  · exact (hiff (.updateDoc longName .null)).mpr trivial
  · intro h
    have hfits : FitsReal longName := (hiff _).mp h
    exact absurd hfits (by decide)

/-- A long name is not refused but thrown at. -/
theorem long_name_throws : (stores memDriver.toIDriver).Reachable freshStore ∧
    outcome memDriver.toIDriver freshStore (.createDoc longName systemNs .null) =
      (.threw, freshStore) ∧
    outcome memDriver.toIDriver freshStore (.upsertDoc longName systemNs .null) =
      (.threw, freshStore) :=
  ⟨freshStore_reachable, rfl, rfl⟩

end Sample

end DistroDefender.Store
