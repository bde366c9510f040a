import DistroDefender.Lib.Map
import Mathlib.Algebra.BigOperators.Group.List.Lemmas
import Mathlib.Data.UInt

/-!
# Counters in maps

A map of 32-bit counters tallies a list when it has exactly the list's members as keys, each with
the number of its occurrences (`Tallies`). Counting up and counting down with removal at zero keep
this (`Tallies.up`, `Tallies.down`) as long as no counter wraps, and the sum of the counters is the
length of the list (`Tallies.total`). `Tallies₂` is the same for a map whose values carry a map of
counters each: it tallies a list of pairs.
-/

namespace DistroDefender.Lib

section

variable {δ κ : Type} [DecidableEq δ]

/-- The second components of the pairs that begin with `d`. -/
def under (d : δ) (l : List (δ × κ)) : List κ := l.filterMap fun p => if p.1 = d then some p.2
  else none

@[simp] theorem under_nil (d : δ) : under d ([] : List (δ × κ)) = [] := rfl

theorem under_cons_self (d : δ) (k : κ) (l : List (δ × κ)) :
    under d ((d, k) :: l) = k :: under d l := by
  simp [under]

theorem under_cons_of_ne {d d' : δ} (h : d' ≠ d) (k : κ) (l : List (δ × κ)) :
    under d ((d', k) :: l) = under d l := by
  simp [under, h]

theorem length_under_le (d : δ) (l : List (δ × κ)) : (under d l).length ≤ l.length :=
  List.length_filterMap_le _ _

theorem count_under [DecidableEq κ] (d : δ) (k : κ) (l : List (δ × κ)) :
    (under d l).count k = l.count (d, k) := by
  induction l with
  | nil => rfl
  | cons p l ih =>
    obtain ⟨d', k'⟩ := p
    by_cases hd : d' = d
    · rw [hd, under_cons_self, List.count_cons, List.count_cons, ih]
      simp
    · rw [under_cons_of_ne hd, ih, List.count_cons_of_ne]
      simp [hd]

theorem mem_under {d : δ} {k : κ} {l : List (δ × κ)} : k ∈ under d l ↔ (d, k) ∈ l := by
  unfold under
  rw [List.mem_filterMap]
  constructor
  · rintro ⟨⟨d', k'⟩, hp, he⟩
    split at he
    · rename_i hd
      cases hd
      cases he
      exact hp
    · cases he
  · intro h
    exact ⟨(d, k), h, if_pos rfl⟩

end

theorem foldl_ofNat {κ : Type} {f : κ → Nat} (ks : List κ) (a : Nat) :
    (ks.map fun k => UInt32.ofNat (f k)).foldl (· + ·) (UInt32.ofNat a) =
      UInt32.ofNat (a + (ks.map f).sum) := by
  induction ks generalizing a with
  | nil => rfl
  | cons k ks ih =>
    rw [List.map_cons, List.foldl_cons, ← UInt32.ofNat_add, ih, List.map_cons, List.sum_cons,
      Nat.add_assoc]

variable {δ κ ν : Type} [DecidableEq δ] [DecidableEq κ]

/-- Add to a counter, absent counters being zero. -/
def countUp (m : Map κ UInt32) (k : κ) (times : UInt32) : Map κ UInt32 :=
  m.insert k ((m.lookup k).getD 0 + times)

/-- Take one off a counter; a counter that gets to zero is removed. -/
def countDown (m : Map κ UInt32) (k : κ) : Map κ UInt32 :=
  match m.lookup k with
  | none => m
  | some n => if n - 1 = 0 then m.erase k else m.insert k (n - 1)

/-- The map has the number of occurrences of every member of the list, and no other key. -/
def Tallies (m : Map κ UInt32) (l : List κ) : Prop :=
  ∀ k, m.lookup k = if k ∈ l then some (UInt32.ofNat (l.count k)) else none

theorem ofNat_succ_sub_one (n : Nat) : UInt32.ofNat (n + 1) - 1 = UInt32.ofNat n := by
  rw [UInt32.ofNat_add]
  exact UInt32.add_sub_cancel _ _

theorem ofNat_eq_zero {n : Nat} (h : n < UInt32.size) : UInt32.ofNat n = 0 ↔ n = 0 := by
  constructor
  · intro h0
    have hn := UInt32.toNat_ofNat_of_lt' h
    rw [h0] at hn
    exact hn.symm
  · rintro rfl
    rfl

namespace Tallies

variable {m : Map κ UInt32} {l l' : List κ}

theorem nil : Tallies (∅ : Map κ UInt32) [] := by
  intro k
  simp

theorem perm (h : Tallies m l) (hp : l.Perm l') : Tallies m l' := by
  intro k
  rw [h k]
  simp only [hp.mem_iff, hp.count_eq k]

theorem up (h : Tallies m l) (k : κ) : Tallies (countUp m k 1) (k :: l) := by
  intro k'
  unfold countUp
  rw [Map.lookup_insert_eq, h k, h k']
  by_cases hk : k' = k
  · subst hk
    simp only [if_true, List.mem_cons_self, List.count_cons_self]
    by_cases hmem : k' ∈ l
    · rw [if_pos hmem, Option.getD_some, UInt32.ofNat_add]
      rfl
    · rw [if_neg hmem, List.count_eq_zero_of_not_mem hmem]
      rfl
  · rw [if_neg hk, List.count_cons_of_ne (Ne.symm hk)]
    simp only [List.mem_cons, hk, false_or]

theorem down {k : κ} (h : Tallies m (k :: l)) (hcount : l.count k < UInt32.size) :
    Tallies (countDown m k) l := by
  have hk : m.lookup k = some (UInt32.ofNat (l.count k + 1)) := by
    rw [h k, if_pos List.mem_cons_self, List.count_cons_self]
  unfold countDown
  rw [hk]
  simp only [ofNat_succ_sub_one, ofNat_eq_zero hcount, List.count_eq_zero]
  intro k'
  have hother : k' ≠ k → m.lookup k' = if k' ∈ l then some (UInt32.ofNat (l.count k'))
      else none := by
    intro hne
    rw [h k', List.count_cons_of_ne (Ne.symm hne)]
    simp only [List.mem_cons, hne, false_or]
  split
  · rename_i hnot
    rw [Map.lookup_erase_eq]
    split
    · rename_i he
      rw [he, if_neg hnot]
    · rename_i hne
      exact hother hne
  · rename_i hin
    rw [Map.lookup_insert_eq]
    split
    · rename_i he
      rw [he, if_pos (not_not.mp hin)]
    · rename_i hne
      exact hother hne

theorem mem_keys (h : Tallies m l) {k : κ} : k ∈ m.keys ↔ k ∈ l := by
  show k ∈ m ↔ k ∈ l
  rw [← AList.lookup_isSome, h k]
  split <;> simp [*]

theorem keys_eq_nil (h : Tallies m l) : m.keys = [] ↔ l = [] := by
  rw [List.eq_nil_iff_forall_not_mem, List.eq_nil_iff_forall_not_mem]
  simp only [h.mem_keys]

end Tallies

/-! ## The sum of the counters -/

/-- The sum of the counters. -/
def total (m : Map κ UInt32) : UInt32 := (m.entries.map (·.2)).foldl (· + ·) 0

/-- The values of a map, by its keys. -/
theorem entries_map_snd {m : Map κ UInt32} {f : κ → UInt32}
    (h : ∀ k ∈ m.keys, m.lookup k = some (f k)) : m.entries.map (·.2) = m.keys.map f := by
  show m.entries.map (·.2) = (m.entries.map Sigma.fst).map f
  rw [List.map_map]
  apply List.map_congr_left
  intro e he
  obtain ⟨k, n⟩ := e
  have hk := h k (List.mem_map_of_mem (f := Sigma.fst) he)
  rw [AList.mem_lookup_iff.mpr he] at hk
  exact Option.some.inj hk

theorem Tallies.total {m : Map κ UInt32} {l : List κ} (h : Tallies m l) :
    total m = UInt32.ofNat l.length := by
  have hvalues := entries_map_snd (m := m) (f := fun k => UInt32.ofNat (l.count k)) (by
    intro k hk
    rw [h k, if_pos (h.mem_keys.mp hk)])
  have hkeys : m.keys.Perm l.dedup := by
    apply (List.perm_ext_iff_of_nodup m.nodupKeys l.nodup_dedup).mpr
    intro k
    rw [List.mem_dedup]
    exact h.mem_keys
  have hsum : (m.keys.map fun k => l.count k).sum = l.length := by
    rw [(hkeys.map _).sum_eq]
    exact List.sum_map_count_dedup_eq_length l
  unfold Lib.total
  rw [hvalues]
  refine (foldl_ofNat m.keys 0).trans ?_
  rw [hsum, Nat.zero_add]

/-! ## Counters under keys of their own -/

/-- The maps of counters that the values of `M` carry tally the pairs, key by key, and a key without
pairs is absent. -/
structure Tallies₂ (counters : ν → Map κ UInt32) (M : Map δ ν) (l : List (δ × κ)) : Prop where
  absent : ∀ d, M.lookup d = none → under d l = []
  present : ∀ d v, M.lookup d = some v → under d l ≠ [] ∧ Tallies (counters v) (under d l)

namespace Tallies₂

variable {counters : ν → Map κ UInt32} {M : Map δ ν} {l l' : List (δ × κ)}

theorem nil : Tallies₂ counters (∅ : Map δ ν) [] where
  absent _ _ := rfl
  present d v hv := by cases (AList.lookup_empty d).symm.trans hv

theorem perm (h : Tallies₂ counters M l) (hp : l.Perm l') : Tallies₂ counters M l' where
  absent d hd := by
    have hperm : (under d l).Perm (under d l') := hp.filterMap _
    rw [h.absent d hd] at hperm
    exact hperm.symm.eq_nil
  present d v hv := by
    obtain ⟨hne, ht⟩ := h.present d v hv
    have hperm : (under d l).Perm (under d l') := hp.filterMap _
    exact ⟨fun he => hne (he ▸ hperm).eq_nil, ht.perm hperm⟩

/-- The value under one key is replaced, or put there. -/
theorem insert {d : δ} {k : κ} {v : ν} (h : Tallies₂ counters M l)
    (hv : Tallies (counters v) (k :: under d l)) :
    Tallies₂ counters (M.insert d v) ((d, k) :: l) where
  absent d' hd' := by
    rw [Map.lookup_insert_eq] at hd'
    split at hd'
    · cases hd'
    · rename_i hne
      rw [under_cons_of_ne (Ne.symm hne)]
      exact h.absent d' hd'
  present d' v' hv' := by
    rw [Map.lookup_insert_eq] at hv'
    split at hv'
    · rename_i he
      cases hv'
      rw [he, under_cons_self]
      exact ⟨List.cons_ne_nil _ _, hv⟩
    · rename_i hne
      rw [under_cons_of_ne (Ne.symm hne)]
      exact h.present d' v' hv'

/-- The value under one key is replaced by one with a pair less, which is not the last. -/
theorem lower {d : δ} {k : κ} {v : ν} (h : Tallies₂ counters M ((d, k) :: l))
    (hv : Tallies (counters v) (under d l)) (hne : under d l ≠ []) :
    Tallies₂ counters (M.insert d v) l where
  absent d' hd' := by
    rw [Map.lookup_insert_eq] at hd'
    split at hd'
    · cases hd'
    · rename_i hd
      rw [← under_cons_of_ne (Ne.symm hd) k l]
      exact h.absent d' hd'
  present d' v' hv' := by
    rw [Map.lookup_insert_eq] at hv'
    split at hv'
    · rename_i he
      cases hv'
      rw [he]
      exact ⟨hne, hv⟩
    · rename_i hd
      rw [← under_cons_of_ne (Ne.symm hd) k l]
      exact h.present d' v' hv'

/-- With the last pair of a key, the key goes. -/
theorem erase {d : δ} {k : κ} (h : Tallies₂ counters M ((d, k) :: l)) (hnil : under d l = []) :
    Tallies₂ counters (M.erase d) l where
  absent d' hd' := by
    rw [Map.lookup_erase_eq] at hd'
    split at hd'
    · rename_i he
      rw [he]
      exact hnil
    · rename_i hd
      rw [← under_cons_of_ne (Ne.symm hd) k l]
      exact h.absent d' hd'
  present d' v' hv' := by
    rw [Map.lookup_erase_eq] at hv'
    split at hv'
    · cases hv'
    · rename_i hd
      rw [← under_cons_of_ne (Ne.symm hd) k l]
      exact h.present d' v' hv'

theorem mem_keys (h : Tallies₂ counters M l) {d : δ} : d ∈ M.keys ↔ ∃ k, (d, k) ∈ l := by
  show d ∈ M ↔ _
  rw [← AList.lookup_isSome]
  cases hv : M.lookup d with
  | none =>
    have hnil := h.absent d hv
    constructor
    · intro hf
      cases hf
    · rintro ⟨k, hk⟩
      have := mem_under.mpr hk
      rw [hnil] at this
      cases this
  | some v =>
    obtain ⟨k, hk⟩ := List.exists_mem_of_ne_nil _ (h.present d v hv).1
    exact ⟨fun _ => ⟨k, mem_under.mp hk⟩, fun _ => rfl⟩

end Tallies₂

end DistroDefender.Lib
