import Mathlib.Data.List.Basic

/-!
# Runs

The runs of a list are the longest stretches without an element of `p`. A stretch that began at a
run's first place and went on without such an element is a run where it ends, and the only one there
(`Stretch.isRun_iff`).
-/

namespace DistroDefender.Lib.Runs

variable {α : Type}

/-- A run can begin here: at the head, or behind an element of `p`. -/
def Begins (p : α → Prop) (l : List α) (a : Nat) : Prop :=
  a = 0 ∨ ∃ i c, a = i + 1 ∧ l[i]? = some c ∧ p c

/-- A run can end here: at the end, or in front of an element of `p`. -/
def Stops (p : α → Prop) (l : List α) (b : Nat) : Prop := b = l.length ∨ ∃ c, l[b]? = some c ∧ p c

/-- From `a` up to `b` there is no element of `p`. -/
def Free (p : α → Prop) (l : List α) (a b : Nat) : Prop :=
  ∀ i c, a ≤ i → i < b → l[i]? = some c → ¬ p c

/-- A maximal stretch without an element of `p`. -/
structure IsRun (p : α → Prop) (l : List α) (a b : Nat) : Prop where
  nonempty : a < b
  within : b ≤ l.length
  free : Free p l a b
  begins : Begins p l a
  stops : Stops p l b

/-- From `a` on a run may be under way. -/
structure Stretch (p : α → Prop) (l : List α) (a i : Nat) : Prop where
  le : a ≤ i
  within : i ≤ l.length
  free : Free p l a i
  begins : Begins p l a

namespace Stretch

variable {p : α → Prop} {l : List α} {a i : Nat}

theorem zero (p : α → Prop) (l : List α) : Stretch p l 0 0 where
  le := Nat.le_refl 0
  within := Nat.zero_le _
  free j _ _ hj := absurd hj (Nat.not_lt_zero j)
  begins := .inl rfl

theorem lt_length {c : α} (hc : l[i]? = some c) : i < l.length :=
  (List.getElem?_eq_some_iff.mp hc).1

/-- Another element goes on with the stretch. -/
theorem step (h : Stretch p l a i) {c : α} (hc : l[i]? = some c) (hp : ¬ p c) :
    Stretch p l a (i + 1) where
  le := Nat.le_succ_of_le h.le
  within := lt_length hc
  free j d hj hji hd := by
    by_cases hlt : j < i
    · exact h.free j d hj hlt hd
    · have hsame : j = i := by omega
      rw [hsame, hc] at hd
      cases hd
      exact hp
  begins := h.begins

/-- Behind an element of `p` a new one begins. -/
theorem restart {c : α} (hc : l[i]? = some c) (hp : p c) : Stretch p l (i + 1) (i + 1) where
  le := Nat.le_refl _
  within := lt_length hc
  free j _ hj hji := by omega
  begins := .inr ⟨i, c, rfl, hc, hp⟩

/-- Where the stretch stops, it is the only run that ends behind its first place. -/
theorem isRun_iff (h : Stretch p l a i) (hstops : Stops p l i) {b e : Nat} (hae : a < e)
    (hei : e ≤ i) : IsRun p l b e ↔ b = a ∧ e = i := by
  have hwithin := h.within
  constructor
  · intro hrun
    have hnonempty := hrun.nonempty
    have he : e = i := by
      rcases hrun.stops with hlen | ⟨c, hc, hp⟩
      · omega
      · by_cases hlt : e < i
        · exact absurd hp (h.free e c (Nat.le_of_lt hae) hlt hc)
        · omega
    refine ⟨?_, he⟩
    by_cases hlt : b < a
    · -- the run would go on over what the stretch began behind
      rcases h.begins with hzero | ⟨j, c, hj, hc, hp⟩
      · omega
      · exact absurd hp (hrun.free j c (by omega) (by omega) hc)
    · rcases hrun.begins with hzero | ⟨j, c, hj, hc, hp⟩
      · omega
      · by_cases hle : a ≤ j
        · exact absurd hp (h.free j c hle (by omega) hc)
        · omega
  · rintro ⟨rfl, rfl⟩
    exact ⟨hae, hwithin, h.free, h.begins, hstops⟩

end Stretch

end DistroDefender.Lib.Runs
