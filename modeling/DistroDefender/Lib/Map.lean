import Mathlib.Data.List.AList
import Mathlib.Data.List.Dedup
import Mathlib.Data.List.Sort

/-!
# Finite maps

`Map κ ν` is Mathlib's association list without repeated keys. The lookups after an insertion and
an erasure are stated as one conditional each, filtering by key and value is added, and
`sortedSet` is the increasing list of the members of a list, as an ordered set lists them.
-/

namespace DistroDefender.Lib

/-- A finite map. -/
abbrev Map (κ ν : Type) := AList fun _ : κ => ν

namespace Map

variable {κ ν : Type} [DecidableEq κ]

theorem lookup_insert_eq (m : Map κ ν) (k k' : κ) (v : ν) :
    (m.insert k v).lookup k' = if k' = k then some v else m.lookup k' := by
  split
  · rename_i h
    rw [h, AList.lookup_insert]
  · rename_i h
    rw [AList.lookup_insert_ne h]

theorem lookup_erase_eq (m : Map κ ν) (k k' : κ) :
    (m.erase k).lookup k' = if k' = k then none else m.lookup k' := by
  split
  · rename_i h
    rw [h, AList.lookup_erase]
  · rename_i h
    rw [AList.lookup_erase_ne h]

/-- `std::map::emplace` and `insert`: a key that is there keeps its value. -/
def emplace (m : Map κ ν) (k : κ) (v : ν) : Map κ ν :=
  match m.lookup k with
  | some _ => m
  | none => m.insert k v

theorem emplace_of_none {m : Map κ ν} {k : κ} (h : m.lookup k = none) (v : ν) :
    emplace m k v = m.insert k v := by
  unfold emplace
  rw [h]

theorem emplace_of_some {m : Map κ ν} {k : κ} {w : ν} (h : m.lookup k = some w) (v : ν) :
    emplace m k v = m := by
  unfold emplace
  rw [h]

/-- Erase the keys of a list, in order. -/
def eraseAll (ks : List κ) (m : Map κ ν) : Map κ ν := ks.foldl (fun m k => m.erase k) m

theorem lookup_eraseAll (ks : List κ) (m : Map κ ν) (k : κ) :
    (eraseAll ks m).lookup k = if k ∈ ks then none else m.lookup k := by
  induction ks generalizing m with
  | nil => simp [eraseAll]
  | cons a ks ih =>
    have h := ih (m.erase a)
    unfold eraseAll at h ⊢
    rw [List.foldl_cons, h, lookup_erase_eq]
    by_cases hk : k ∈ ks
    · simp [hk]
    · by_cases ha : k = a <;> simp [hk, ha]

/-- The entries that meet `p`. -/
def filter (p : κ → ν → Bool) (m : Map κ ν) : Map κ ν where
  entries := m.entries.filter fun e => p e.1 e.2
  nodupKeys := m.nodupKeys.sublist List.filter_sublist

theorem lookup_filter (p : κ → ν → Bool) (m : Map κ ν) (k : κ) :
    (filter p m).lookup k = (m.lookup k).filter (p k) := by
  apply Option.ext
  intro v
  rw [Option.filter_eq_some_iff]
  show v ∈ (filter p m).lookup k ↔ v ∈ m.lookup k ∧ p k v = true
  rw [AList.mem_lookup_iff, AList.mem_lookup_iff]
  exact List.mem_filter

/-- The entries, as pairs. -/
def toList (m : Map κ ν) : List (κ × ν) := m.entries.map fun e => (e.1, e.2)

theorem mem_toList {m : Map κ ν} {k : κ} {v : ν} : (k, v) ∈ toList m ↔ m.lookup k = some v := by
  unfold toList
  rw [List.mem_map]
  constructor
  · rintro ⟨e, he, heq⟩
    obtain ⟨a, b⟩ := e
    cases heq
    exact AList.mem_lookup_iff.mpr he
  · intro h
    exact ⟨⟨k, v⟩, AList.mem_lookup_iff.mp h, rfl⟩

end Map

/-- The members of a list in increasing order, each once. -/
def sortedSet {α : Type} [LinearOrder α] (l : List α) : List α :=
  l.dedup.insertionSort (· ≤ ·)

theorem mem_sortedSet {α : Type} [LinearOrder α] {l : List α} {a : α} :
    a ∈ sortedSet l ↔ a ∈ l := by
  unfold sortedSet
  rw [List.mem_insertionSort, List.mem_dedup]

theorem pairwise_sortedSet {α : Type} [LinearOrder α] (l : List α) :
    (sortedSet l).Pairwise (· < ·) := by
  have hnodup : (sortedSet l).Nodup :=
    (List.perm_insertionSort _ _).nodup_iff.mpr l.nodup_dedup
  exact (List.pairwise_insertionSort (· ≤ ·) l.dedup).imp₂
    (fun _ _ hle hne => lt_of_le_of_ne hle hne) hnodup

/-- Two lists with the same members have the same sorted set. -/
theorem sortedSet_congr {α : Type} [LinearOrder α] {l l' : List α} (h : ∀ a, a ∈ l ↔ a ∈ l') :
    sortedSet l = sortedSet l' := by
  unfold sortedSet
  have hperm : l.dedup.Perm l'.dedup :=
    (List.perm_ext_iff_of_nodup l.nodup_dedup l'.nodup_dedup).mpr fun a => by
      rw [List.mem_dedup, List.mem_dedup, h a]
  exact ((List.perm_insertionSort _ _).trans
    (hperm.trans (List.perm_insertionSort _ _).symm)).eq_of_pairwise
    (fun a b _ _ hab hba => le_antisymm hab hba)
    (List.pairwise_insertionSort _ _) (List.pairwise_insertionSort _ _)

namespace Map

section InOrder

variable {κ ν : Type} [DecidableEq κ] [LinearOrder κ]

/-- The entries, in the order of their keys. -/
def inOrder (m : Map κ ν) : List (κ × ν) := (sortedSet m.keys).filterMap fun k =>
  (m.lookup k).map (k, ·)

theorem mem_inOrder {m : Map κ ν} {k : κ} {v : ν} : (k, v) ∈ inOrder m ↔ m.lookup k = some v := by
  unfold inOrder
  rw [List.mem_filterMap]
  constructor
  · rintro ⟨k', -, h⟩
    obtain ⟨v', hv', heq⟩ := Option.map_eq_some_iff.mp h
    cases heq
    exact hv'
  · intro h
    refine ⟨k, mem_sortedSet.mpr (AList.lookup_isSome.mp (by rw [h]; rfl)), ?_⟩
    rw [h]
    rfl

theorem nodup_inOrder (m : Map κ ν) : ((inOrder m).map Prod.fst).Nodup := by
  have hsub : ((inOrder m).map Prod.fst).Sublist (sortedSet m.keys) := by
    unfold inOrder
    induction sortedSet m.keys with
    | nil => exact .slnil
    | cons k ks ih =>
      rw [List.filterMap_cons]
      cases m.lookup k with
      | none => exact .cons k ih
      | some v => exact .cons_cons k ih
  exact hsub.nodup ((pairwise_sortedSet m.keys).imp fun hlt => ne_of_lt hlt)

/-- Copying a map, entry by entry. -/
theorem lookup_foldl_inOrder {μ : Type} (f : ν → μ) (m : Map κ ν) (k : κ) :
    ((inOrder m).foldl (fun r e => emplace r e.1 (f e.2)) (∅ : Map κ μ)).lookup k =
      (m.lookup k).map f := by
  have hall : ∀ (es : List (κ × ν)) (r : Map κ μ), (∀ v, (k, v) ∈ es → m.lookup k = some v) →
      (r.lookup k = none ∨ r.lookup k = (m.lookup k).map f) →
        (es.foldl (fun r e => emplace r e.1 (f e.2)) r).lookup k =
          if k ∈ es.map Prod.fst then (m.lookup k).map f else r.lookup k := by
    intro es
    induction es with
    | nil => exact fun r _ _ => rfl
    | cons e es ih =>
      intro r hes hr
      obtain ⟨a, w⟩ := e
      have hrest : ∀ v, (k, v) ∈ es → m.lookup k = some v :=
        fun v hv => hes v (List.mem_cons_of_mem _ hv)
      have hcopied : (emplace r a (f w)).lookup k = if k = a then (m.lookup k).map f
          else r.lookup k := by
        cases ha : r.lookup a with
        | some x =>
          rw [emplace_of_some ha]
          split
          · rename_i hk
            rw [hk, ha] at hr
            rw [hk, ha]
            exact hr.resolve_left (Option.some_ne_none x)
          · rfl
        | none =>
          rw [emplace_of_none ha, lookup_insert_eq]
          split
          · rename_i hk
            rw [hes w (hk ▸ List.mem_cons_self)]
            rfl
          · rfl
      rw [List.foldl_cons, ih _ hrest, hcopied]
      · by_cases hk : k = a
        · simp only [hk, List.map_cons, List.mem_cons_self, if_true, ite_self]
        · simp only [hk, List.map_cons, List.mem_cons, false_or, if_false]
      · rw [hcopied]
        split
        · exact .inr rfl
        · exact hr
  rw [hall _ _ (fun v hv => mem_inOrder.mp hv) (.inl (AList.lookup_empty k))]
  split
  · rfl
  · rename_i hk
    cases hm : m.lookup k with
    | none => exact AList.lookup_empty k
    | some v => exact absurd (List.mem_map_of_mem (f := Prod.fst) (mem_inOrder.mpr hm)) hk

end InOrder

end Map

end DistroDefender.Lib
