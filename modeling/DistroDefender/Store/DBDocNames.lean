import DistroDefender.Lib.Map
import DistroDefender.Store.NamespaceId

/-!
# The name cache of the store

`Store::DBDocNames` keeps two indexes: the namespace of every document name, and the names of every
namespace. The two agree when `DBDocNames.WF` holds: a pair is listed exactly once when its name
has that namespace. `add`, `del` and `delCol` keep this and change exactly the names they are asked
to change (`lookup_add`, `lookup_del`, `lookup_delCol`).
-/

namespace DistroDefender.Store

open Base Lib

/-- `Store::DBDocNames`. The multimap is the list of its pairs. -/
structure DBDocNames where
  nameToNs : Map Name NamespaceId
  nsToNames : List (NamespaceId × Name)

namespace DBDocNames

/-- The cache of a store without documents. -/
def empty : DBDocNames := ⟨∅, []⟩

def getNamespaceId (c : DBDocNames) (name : Name) : Option NamespaceId := c.nameToNs.lookup name

def existsName (c : DBDocNames) (name : Name) : Bool := (c.nameToNs.lookup name).isSome

def isPrefix (pre name : Name) (strict : Bool := true) : Bool :=
  if strict then
    if pre.parts.length ≥ name.parts.length then false else pre.parts.isPrefixOf name.parts
  else if pre.parts.length > name.parts.length then false
  else pre.parts.isPrefixOf name.parts

def filterByPrefix (c : DBDocNames) (pre : Name) (namespaceId : NamespaceId)
    (strict : Bool := true) : List Name :=
  (c.nsToNames.filter fun p => p.1 = namespaceId ∧ isPrefix pre p.2 strict).map (·.2)

def getNamespaceIds (c : DBDocNames) : List NamespaceId := sortedSet (c.nsToNames.map (·.1))

/-- `add` answers whether the name was new. -/
def add (c : DBDocNames) (name : Name) (namespaceId : NamespaceId) : Bool × DBDocNames :=
  if (c.nameToNs.lookup name).isSome then (false, c)
  else (true, ⟨c.nameToNs.insert name namespaceId, (namespaceId, name) :: c.nsToNames⟩)

/-- `del`: nothing is erased when the second index does not list the name. -/
def del (c : DBDocNames) (name : Name) : DBDocNames :=
  match c.nameToNs.lookup name with
  | none => c
  | some namespaceId =>
    if (namespaceId, name) ∈ c.nsToNames then
      ⟨c.nameToNs.erase name, c.nsToNames.erase (namespaceId, name)⟩
    else c

/-- `delCol`: the listed names of the namespace strictly below `name` leave both indexes. -/
def delCol (c : DBDocNames) (name : Name) (namespaceId : NamespaceId) : DBDocNames :=
  ⟨Map.eraseAll (c.filterByPrefix name namespaceId) c.nameToNs,
    c.nsToNames.filter fun p => ¬ (p.1 = namespaceId ∧ isPrefix name p.2)⟩

theorem isPrefix_iff {pre name : Name} : isPrefix pre name = true ↔ pre.Below name := by
  unfold isPrefix Name.Below
  split
  · split
    · simp only [Bool.false_eq_true, false_iff, not_and]
      omega
    · rename_i h
      rw [List.isPrefixOf_iff_prefix]
      exact ⟨fun hp => ⟨hp, by omega⟩, fun hp => hp.1⟩
  · rename_i h
    exact absurd rfl h

theorem mem_filterByPrefix {c : DBDocNames} {pre n : Name} {ns : NamespaceId} :
    n ∈ c.filterByPrefix pre ns ↔ (ns, n) ∈ c.nsToNames ∧ pre.Below n := by
  unfold filterByPrefix
  simp only [List.mem_map, List.mem_filter, decide_eq_true_eq, isPrefix_iff, Prod.exists,
    exists_eq_right]
  constructor
  · rintro ⟨ns', hmem, rfl, hb⟩
    exact ⟨hmem, hb⟩
  · rintro ⟨hmem, hb⟩
    exact ⟨ns, hmem, rfl, hb⟩

theorem mem_getNamespaceIds {c : DBDocNames} {ns : NamespaceId} :
    ns ∈ c.getNamespaceIds ↔ ∃ n, (ns, n) ∈ c.nsToNames := by
  unfold getNamespaceIds
  rw [mem_sortedSet, List.mem_map]
  constructor
  · rintro ⟨⟨ns', n⟩, hmem, rfl⟩
    exact ⟨n, hmem⟩
  · rintro ⟨n, hmem⟩
    exact ⟨(ns, n), hmem, rfl⟩

/-- The two indexes agree: a pair is listed, once, exactly when its name has that namespace. -/
structure WF (c : DBDocNames) : Prop where
  mem_iff : ∀ ns n, (ns, n) ∈ c.nsToNames ↔ c.nameToNs.lookup n = some ns
  nodup : c.nsToNames.Nodup

theorem WF.empty : empty.WF where
  mem_iff := by simp [DBDocNames.empty]
  nodup := List.nodup_nil

section Add

variable {c : DBDocNames} {name : Name} {ns : NamespaceId}

theorem add_fst : (c.add name ns).1 = !c.existsName name := by
  unfold add existsName
  cases h : c.nameToNs.lookup name <;> simp

/-- Adding a known name changes nothing. -/
theorem add_of_exists (h : c.existsName name = true) : (c.add name ns).2 = c := by
  unfold existsName at h
  simp only [add, h, ite_true]

theorem lookup_add (h : c.existsName name = false) (n : Name) :
    (c.add name ns).2.getNamespaceId n = if n = name then some ns else c.getNamespaceId n := by
  unfold existsName at h
  simp only [add, h, Bool.false_eq_true, ite_false, getNamespaceId]
  exact Map.lookup_insert_eq _ _ _ _

theorem WF.add (hc : c.WF) : (c.add name ns).2.WF := by
  cases h : c.nameToNs.lookup name with
  | some ns' =>
    rw [add_of_exists (by simp [existsName, h])]
    exact hc
  | none =>
    have heq : (c.add name ns).2 = ⟨c.nameToNs.insert name ns, (ns, name) :: c.nsToNames⟩ := by
      simp [DBDocNames.add, h]
    rw [heq]
    refine ⟨fun ns' n => ?_, List.nodup_cons.mpr ⟨fun hmem => ?_, hc.nodup⟩⟩
    · simp only [List.mem_cons, Prod.mk.injEq, Map.lookup_insert_eq, hc.mem_iff]
      split
      · rename_i hn
        subst hn
        simp [h, eq_comm]
      · rename_i hn
        simp [hn]
    · rw [hc.mem_iff, h] at hmem
      cases hmem

end Add

section Del

variable {c : DBDocNames} {name : Name}

theorem lookup_del (hc : c.WF) (n : Name) :
    (c.del name).getNamespaceId n = if n = name then none else c.getNamespaceId n := by
  unfold del getNamespaceId
  cases h : c.nameToNs.lookup name with
  | none =>
    simp only
    split
    · rename_i hn
      rw [hn, h]
    · rfl
  | some ns =>
    simp only [(hc.mem_iff ns name).mpr h, ite_true]
    exact Map.lookup_erase_eq _ _ _

theorem WF.del (hc : c.WF) : (c.del name).WF := by
  unfold DBDocNames.del
  cases h : c.nameToNs.lookup name with
  | none => exact hc
  | some ns =>
    simp only [(hc.mem_iff ns name).mpr h, ite_true]
    refine ⟨fun ns' n => ?_, hc.nodup.erase _⟩
    rw [hc.nodup.mem_erase_iff, hc.mem_iff, Map.lookup_erase_eq]
    split
    · rename_i hn
      subst hn
      rw [h]
      simp only [ne_eq, Prod.mk.injEq, and_true, Option.some.injEq]
      exact ⟨fun hh => absurd hh.2.symm hh.1, fun hh => by cases hh⟩
    · rename_i hn
      simp [hn]

end Del

section DelCol

variable {c : DBDocNames} {name : Name} {ns : NamespaceId}

theorem lookup_delCol (hc : c.WF) (n : Name) :
    (c.delCol name ns).getNamespaceId n =
      if c.getNamespaceId n = some ns ∧ name.Below n then none else c.getNamespaceId n := by
  unfold delCol getNamespaceId
  simp only [Map.lookup_eraseAll, mem_filterByPrefix, hc.mem_iff]

theorem WF.delCol (hc : c.WF) : (c.delCol name ns).WF := by
  refine ⟨fun ns' n => ?_, hc.nodup.filter _⟩
  have hl : (c.delCol name ns).getNamespaceId n = _ := lookup_delCol hc n
  unfold getNamespaceId at hl
  rw [hl]
  simp only [DBDocNames.delCol, List.mem_filter, hc.mem_iff, isPrefix_iff, decide_eq_true_eq]
  split
  · rename_i h
    rw [h.1]
    simp only [Option.some.injEq, reduceCtorEq, iff_false, not_and]
    rintro rfl hn
    exact hn rfl h.2
  · rename_i h
    refine ⟨fun hh => hh.1, fun hh => ⟨hh, fun hb => h ⟨?_, hb.2⟩⟩⟩
    rw [hh, hb.1]

end DelCol

/-- The names of a namespace below a collection, when the indexes agree. -/
theorem WF.mem_filterByPrefix {c : DBDocNames} (hc : c.WF) {pre n : Name} {ns : NamespaceId} :
    n ∈ c.filterByPrefix pre ns ↔ c.getNamespaceId n = some ns ∧ pre.Below n := by
  rw [DBDocNames.mem_filterByPrefix, hc.mem_iff]
  rfl

theorem WF.mem_getNamespaceIds {c : DBDocNames} (hc : c.WF) {ns : NamespaceId} :
    ns ∈ c.getNamespaceIds ↔ ∃ n, c.getNamespaceId n = some ns := by
  rw [DBDocNames.mem_getNamespaceIds]
  exact exists_congr fun n => hc.mem_iff ns n

end DBDocNames

end DistroDefender.Store
