import Mathlib.Logic.Function.Basic

/-!
# Shared and exclusive holders

A reader-writer lock is the set of its holders with their modes: it is granted in a mode when that
mode is compatible with every holder's. Granting and releasing keep `Exclusion`: two holders at once
are both shared.
-/

namespace DistroDefender.Lib

/-- How a holder holds the lock. -/
inductive Mode where
  | shared
  | exclusive
  deriving DecidableEq, Repr

namespace RwLock

variable {ι : Type}

/-- The lock may be taken in mode `m`: two modes are compatible when both are shared. -/
def Grants (held : ι → Option Mode) (m : Mode) : Prop :=
  ∀ j a, held j = some a → m = .shared ∧ a = .shared

/-- Two holders at once are both shared. -/
def Exclusion (held : ι → Option Mode) : Prop :=
  ∀ i j a b, i ≠ j → held i = some a → held j = some b → a = .shared ∧ b = .shared

variable {held : ι → Option Mode}

theorem Exclusion.of_free (h : ∀ i, held i = none) : Exclusion held := by
  intro i j a b _ hi
  cases (h i).symm.trans hi

/-- Beside an exclusive holder there is no other. -/
theorem Exclusion.alone (h : Exclusion held) {i j : ι} (hi : held i = some .exclusive)
    (hj : held j ≠ none) : j = i := by
  by_contra hne
  obtain ⟨b, hb⟩ := Option.ne_none_iff_exists'.mp hj
  cases (h i j _ _ (Ne.symm hne) hi hb).1

variable [DecidableEq ι]

theorem Exclusion.acquire (h : Exclusion held) {i : ι} {m : Mode} (hm : Grants held m) :
    Exclusion (Function.update held i (some m)) := by
  intro j k a b hjk hj hk
  rw [Function.update_apply] at hj hk
  split at hj
  · cases hj
    rw [if_neg (by rename_i hji; exact fun hki => hjk (hji.trans hki.symm))] at hk
    exact hm k b hk
  · split at hk
    · cases hk
      exact (hm j a hj).symm
    · exact h j k a b hjk hj hk

theorem Exclusion.release (h : Exclusion held) (i : ι) :
    Exclusion (Function.update held i none) := by
  intro j k a b hjk hj hk
  rw [Function.update_apply] at hj hk
  split at hj
  · cases hj
  · split at hk
    · cases hk
    · exact h j k a b hjk hj hk

end RwLock

end DistroDefender.Lib
