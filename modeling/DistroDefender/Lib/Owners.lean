import Mathlib.Data.Set.Card

/-!
# Counted owners

A shared pointer counts its owners. `Counts n owns` says that the count is right; it stays right
when an owner is added and counted, or dropped and discounted, and tells whether there is an owner
besides a given one. `Holders` are the owners where clients take part whose place tells whether they
hold the pointer.
-/

namespace DistroDefender.Lib

variable {ω : Type} {owns owns' : ω → Prop} {n : Nat} {o : ω}

/-- There are `n` owners. -/
def Counts (n : Nat) (owns : ω → Prop) : Prop := {o | owns o}.encard = n

namespace Counts

theorem congr (h : Counts n owns) (hsame : ∀ x, owns' x ↔ owns x) : Counts n owns' := by
  have heq : owns' = owns := funext fun x => propext (hsame x)
  rw [heq]
  exact h

theorem take (h : Counts n owns) (ho : ¬ owns o) (htake : ∀ x, owns' x ↔ x = o ∨ owns x) :
    Counts (n + 1) owns' := by
  unfold Counts at h ⊢
  have hset : {x | owns' x} = insert o {x | owns x} := Set.ext htake
  have hnew : o ∉ {x | owns x} := ho
  rw [hset, Set.encard_insert_of_notMem hnew, h]
  rfl

theorem drop (h : Counts n owns) (ho : owns o) (hdrop : ∀ x, owns' x ↔ x ≠ o ∧ owns x) :
    Counts (n - 1) owns' := by
  unfold Counts at h ⊢
  have hset : {x | owns' x} = {x | owns x} \ {o} := Set.ext fun x => (hdrop x).trans and_comm
  have hold : o ∈ {x | owns x} := ho
  rw [hset, Set.encard_sdiff_singleton_of_mem hold, h]
  rfl

/-- More than one owner: one besides `o`. -/
theorem one_lt_iff (h : Counts n owns) (ho : owns o) : 1 < n ↔ ∃ x, x ≠ o ∧ owns x := by
  unfold Counts at h
  have hle : n ≤ 1 ↔ ∀ a b, owns a → owns b → a = b := by
    rw [← Nat.cast_le (α := ℕ∞), ← h, Nat.cast_one]
    exact Set.encard_le_one_iff
  rw [← not_le, hle]
  push Not
  constructor
  · rintro ⟨a, b, ha, hb, hne⟩
    by_cases hao : a = o
    · exact ⟨b, fun hbo => hne (hao.trans hbo.symm), hb⟩
    · exact ⟨a, hao, ha⟩
  · rintro ⟨x, hne, hx⟩
    exact ⟨x, o, hx, ho, hne⟩

end Counts

/-! ## Clients among the owners -/

section Holders

variable {κ ι π : Type} {fixed fixed' : κ → Prop} {owned : π → Bool} {pc : ι → π} {p : π} {i : ι}
  {k : κ}

/-- The owners: the parties of `fixed`, and the clients at a place that owns. -/
def Holders (fixed : κ → Prop) (owned : π → Bool) (pc : ι → π) : κ ⊕ ι → Prop
  | .inl k => fixed k
  | .inr i => owned (pc i) = true

/-- One party owns at first, and no client. -/
theorem Counts.single (hone : ∀ x, fixed x ↔ x = k) (hfree : ∀ i, owned (pc i) = false) :
    Counts 1 (Holders fixed owned pc) := by
  have hset : {x | Holders fixed owned pc x} = {.inl k} := by
    ext x
    cases x with
    | inl x => exact (hone x).trans (by simp)
    | inr i => simp [Holders, hfree i]
  unfold Counts
  rw [hset, Set.encard_singleton, Nat.cast_one]

/-- The parties own what they did. -/
theorem Counts.stay (h : Counts n (Holders fixed owned pc)) (hsame : ∀ x, fixed' x ↔ fixed x) :
    Counts n (Holders fixed' owned pc) := by
  refine h.congr fun x => ?_
  cases x with
  | inl x => exact hsame x
  | inr i => exact Iff.rfl

/-- A party becomes an owner. -/
theorem Counts.enter (h : Counts n (Holders fixed owned pc)) (hold : ¬ fixed k)
    (hnew : ∀ x, fixed' x ↔ x = k ∨ fixed x) : Counts (n + 1) (Holders fixed' owned pc) := by
  refine h.take (o := .inl k) hold fun x => ?_
  cases x with
  | inl x => exact (hnew x).trans (by simp [Holders])
  | inr i => simp [Holders]

/-- A party is an owner no longer. -/
theorem Counts.exit (h : Counts n (Holders fixed owned pc)) (hold : fixed k)
    (hnew : ∀ x, fixed' x ↔ x ≠ k ∧ fixed x) : Counts (n - 1) (Holders fixed' owned pc) := by
  refine h.drop (o := .inl k) hold fun x => ?_
  cases x with
  | inl x => exact (hnew x).trans (by simp [Holders])
  | inr i => simp [Holders]

variable [DecidableEq ι]

theorem holders_update (x : κ ⊕ ι) : Holders fixed owned (Function.update pc i p) x ↔
    x = .inr i ∧ owned p = true ∨ x ≠ .inr i ∧ Holders fixed owned pc x := by
  cases x with
  | inl k => simp [Holders]
  | inr j =>
    by_cases hj : j = i
    · subst hj
      simp [Holders]
    · simp [Holders, hj]

/-- A client goes to a place that owns as the one it leaves does. -/
theorem Counts.keep (h : Counts n (Holders fixed owned pc)) (hsame : owned p = owned (pc i)) :
    Counts n (Holders fixed owned (Function.update pc i p)) := by
  refine h.congr fun x => ?_
  rw [holders_update, hsame]
  by_cases hx : x = .inr i
  · subst hx
    simp [Holders]
  · simp [hx]

/-- A client becomes an owner. -/
theorem Counts.hold (h : Counts n (Holders fixed owned pc)) (hold : owned (pc i) = false)
    (hnew : owned p = true) : Counts (n + 1) (Holders fixed owned (Function.update pc i p)) := by
  refine h.take (o := .inr i) (by simp [Holders, hold]) fun x => ?_
  rw [holders_update]
  by_cases hx : x = .inr i <;> simp [hx, hnew]

/-- A client is an owner no longer. -/
theorem Counts.letGo (h : Counts n (Holders fixed owned pc)) (hold : owned (pc i) = true)
    (hnew : owned p = false) : Counts (n - 1) (Holders fixed owned (Function.update pc i p)) := by
  refine h.drop (o := .inr i) hold fun x => ?_
  rw [holders_update]
  by_cases hx : x = .inr i <;> simp [hx, hnew]

end Holders

end DistroDefender.Lib
