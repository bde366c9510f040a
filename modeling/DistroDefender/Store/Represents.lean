import DistroDefender.Lib.OwnedMap
import DistroDefender.Store.DBDocNames
import DistroDefender.Store.Driver

/-!
# What a cache and a driver hold

`DocMap` says what the store is for: each document name has at most one namespace, and a content.
`Represents` relates a cache and the documents of a driver to such a map: the cache holds the
namespaces of the map and the driver its contents, under real names. Writing a document
(`Represents.put`), removing one (`Represents.del`) and removing a collection
(`Represents.delCol`) keep the relation when cache, driver and map change together, and documents
outside `namespaces` do not matter to it (`Represents.internal`).
-/

namespace DistroDefender.Store

open Base Lib

/-- What the store is for: each document name has at most one namespace, and a content. -/
abbrev DocMap := OwnedMap Name NamespaceId Doc

/-- The cache holds the namespaces of the map, and the driver its contents under real names. -/
structure Represents (c : DBDocNames) (docs : Name → Option Doc) (m : DocMap) : Prop where
  wf : c.WF
  cached : ∀ n, c.getNamespaceId n = m.owner n
  stored : ∀ n ns r, virtualToRealName n ns = .ok r →
    docs r = (m n).bind fun p => if p.1 = ns then some p.2 else none
  fits : ∀ n, m n ≠ none → n.parts.length + 2 ≤ MAX_PARTS
  /-- Under `namespaces` there is nothing but documents of namespaces. -/
  deep : ∀ x : Name, x.first = prefixNS.first → docs x ≠ none → 3 ≤ x.parts.length

namespace Represents

variable {c : DBDocNames} {docs docs' : Name → Option Doc} {m : DocMap} {n : Name}
  {ns : NamespaceId} {r : Name}

/-! ## What keeps the relation -/

theorem real_first {v r : Name} {ns : NamespaceId} (h : virtualToRealName v ns = .ok r) :
    r.first = prefixNS.first := by
  have hp := virtualToRealName_eq_ok.mp h
  unfold Name.first
  simp only [hp, List.head_cons, prefixNS]

theorem real_fits {v r : Name} {ns : NamespaceId} (h : virtualToRealName v ns = .ok r) :
    v.parts.length + 2 ≤ MAX_PARTS := virtualToRealName_ok_iff.mp ⟨r, h⟩

theorem real_deep {v r : Name} {ns : NamespaceId} (h : virtualToRealName v ns = .ok r) :
    3 ≤ r.parts.length := by
  have := v.length_pos
  rw [virtualToRealName_eq_ok.mp h, List.length_cons, List.length_cons]
  omega

theorem existsName_iff (h : Represents c docs m) : c.existsName n = true ↔ m n ≠ none := by
  show (c.getNamespaceId n).isSome = true ↔ _
  rw [h.cached, Option.isSome_iff_ne_none, Ne, OwnedMap.owner_eq_none]

/-- The documents changed at the real name of `n` in `ns`, where no other namespace holds `n`. -/
theorem stored_update (h : Represents c docs m) (hfree : m n = none ∨ m.owner n = some ns)
    (hr : virtualToRealName n ns = .ok r) (v : Option Doc) :
    ∀ n' ns' r', virtualToRealName n' ns' = .ok r' →
      Function.update docs r v r' =
        (Function.update m n (v.map fun c => (ns, c)) n').bind
          fun p => if p.1 = ns' then some p.2 else none := by
  intro n' ns' r' hr'
  by_cases hn : n' = n
  · subst hn
    rw [Function.update_self]
    by_cases hns : ns' = ns
    · subst hns
      cases hr.symm.trans hr'
      rw [Function.update_self]
      cases v <;> simp
    · have hne : r' ≠ r := by
        rintro rfl
        exact hns (virtualToRealName_inj hr' hr).2
      rw [Function.update_of_ne hne, h.stored n' ns' r' hr']
      have hold : ((m n').bind fun p => if p.1 = ns' then some p.2 else none) = none := by
        rcases hfree with hf | hf
        · rw [hf]; rfl
        · obtain ⟨c', hc'⟩ := OwnedMap.owner_eq_some.mp hf
          rw [hc']
          simp [Ne.symm hns]
      rw [hold]
      cases v <;> simp [Ne.symm hns]
  · have hne : r' ≠ r := by
      rintro rfl
      exact hn (virtualToRealName_inj hr' hr).1
    rw [Function.update_of_ne hne, Function.update_of_ne hn, h.stored n' ns' r' hr']

/-- A document written in its namespace. -/
theorem put (h : Represents c docs m) (hfree : m n = none ∨ m.owner n = some ns)
    (hr : virtualToRealName n ns = .ok r) (v : Doc) :
    Represents (c.add n ns).2 (Function.update docs r (some v))
      (Function.update m n (some (ns, v))) where
  wf := h.wf.add
  cached k := by
    rw [OwnedMap.owner_update]
    rcases hfree with hf | hf
    · have hex : c.existsName n = false := by
        rw [← Bool.not_eq_true, h.existsName_iff]
        exact fun hh => hh hf
      rw [DBDocNames.lookup_add hex, h.cached]
      rfl
    · have hex : c.existsName n = true := by
        rw [h.existsName_iff, Ne, ← OwnedMap.owner_eq_none, hf]
        exact Option.some_ne_none _
      rw [DBDocNames.add_of_exists hex, h.cached]
      split
      · rename_i hk
        rw [hk, hf]
        rfl
      · rfl
  stored := h.stored_update hfree hr (some v)
  fits k hk := by
    rw [Function.update_apply] at hk
    split at hk
    · rename_i hkn
      rw [hkn]
      exact real_fits hr
    · exact h.fits k hk
  deep x hx hd := by
    rw [Function.update_apply] at hd
    split at hd
    · rename_i hxr
      rw [hxr]
      exact real_deep hr
    · exact h.deep x hx hd

/-- A document removed from its namespace. -/
theorem del (h : Represents c docs m) (hn : m.owner n = some ns)
    (hr : virtualToRealName n ns = .ok r) :
    Represents (c.del n) (Function.update docs r none) (Function.update m n none) where
  wf := h.wf.del
  cached k := by
    rw [DBDocNames.lookup_del h.wf, h.cached, OwnedMap.owner_update]
    rfl
  stored := h.stored_update (.inr hn) hr none
  fits k hk := by
    rw [Function.update_apply] at hk
    split at hk
    · exact absurd rfl hk
    · exact h.fits k hk
  deep x hx hd := by
    rw [Function.update_apply] at hd
    split at hd
    · exact absurd rfl hd
    · exact h.deep x hx hd

/-- A collection removed from a namespace. -/
theorem delCol (h : Represents c docs m) (hr : virtualToRealName n ns = .ok r) :
    Represents (c.delCol n ns) (fun x => if r.Below x then none else docs x)
      ((OwnedMap.Op.deleteBelow n ns).effect Name.Below m) where
  wf := h.wf.delCol
  cached k := by
    rw [DBDocNames.lookup_delCol h.wf, h.cached, OwnedMap.owner_deleteBelow]
  stored k ns' r' hr' := by
    simp only [OwnedMap.effect_deleteBelow, below_real_iff hr hr', h.stored k ns' r' hr']
    cases hk : m k with
    | none => simp
    | some p =>
      by_cases hp : p.1 = ns'
      · have ho : m.owner k = some ns' := by simp [OwnedMap.owner, hk, hp]
        simp only [ho, Option.some.injEq, eq_comm (a := ns'), Option.bind_some, hp, if_true]
        split <;> simp [hp]
      · have hb : ((if m.owner k = some ns ∧ n.Below k then none else some p).bind
            fun p => if p.1 = ns' then some p.2 else none) = none := by
          split <;> simp [hp]
        rw [hb]
        simp [hp]
  fits k hk := by
    rw [OwnedMap.effect_deleteBelow] at hk
    split at hk
    · exact absurd rfl hk
    · exact h.fits k hk
  deep x hx hd := by
    split at hd
    · exact absurd rfl hd
    · exact h.deep x hx hd

/-- Documents outside the namespaces do not matter. -/
theorem internal (h : Represents c docs m)
    (heq : ∀ x : Name, x.first = prefixNS.first → docs' x = docs x) : Represents c docs' m where
  wf := h.wf
  cached := h.cached
  stored n ns r hr := by rw [heq r (real_first hr), h.stored n ns r hr]
  fits := h.fits
  deep x hx hd := h.deep x hx (heq x hx ▸ hd)

/-- Without documents under `namespaces` the cache without names represents the map without keys. -/
theorem empty {docs : Name → Option Doc}
    (h : ∀ n : Name, n.first = prefixNS.first → docs n = none) :
    Represents .empty docs OwnedMap.empty where
  wf := .empty
  cached _ := rfl
  stored _ _ _ hr := h _ (real_first hr)
  fits _ hn := absurd rfl hn
  deep x hx hd := absurd (h x hx) hd

end Represents

end DistroDefender.Store
