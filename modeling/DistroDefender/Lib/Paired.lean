import Mathlib.Logic.Basic

/-!
# Resources that are opened and closed

A run is told as the calls it makes on its resources, the newest first. `Paired` says that opening
and closing alternate. `Balanced` relates the owners that are left to the calls made: while no
opening failed, the calls are paired and the open resources are those that have an owner; after one
failed, a resource was closed that was not open, or its owner is still to do so.
-/

namespace DistroDefender.Lib

variable {κ : Type}

/-- A use of a resource; opening it with whether it succeeds. -/
inductive Use (κ : Type) where
  | opened (k : κ) (success : Bool)
  | closed (k : κ)
  deriving DecidableEq

/-- No opening fails. -/
def AllOpened (es : List (Use κ)) : Prop := ∀ k, .opened k false ∉ es

theorem allOpened_opened {i : κ} {es : List (Use κ)} : AllOpened (.opened i true :: es) ↔
    AllOpened es := by
  simp [AllOpened]

theorem allOpened_closed {i : κ} {es : List (Use κ)} : AllOpened (.closed i :: es) ↔
    AllOpened es := by
  simp [AllOpened]

theorem not_allOpened_failed (i : κ) (es : List (Use κ)) : ¬ AllOpened (.opened i false :: es) :=
  fun h => h i List.mem_cons_self

variable [DecidableEq κ]

/-- The last call on the resource opened it. -/
def isOpen (k : κ) : List (Use κ) → Bool
  | [] => false
  | .opened i success :: es => if i = k then success else isOpen k es
  | .closed i :: es => if i = k then false else isOpen k es

/-- Only what is open is closed, and it is closed before it is opened again. -/
def Paired : List (Use κ) → Prop
  | [] => True
  | .opened i _ :: es => isOpen i es = false ∧ Paired es
  | .closed i :: es => isOpen i es = true ∧ Paired es

theorem isOpen_opened (k i : κ) (success : Bool) (es : List (Use κ)) :
    isOpen k (.opened i success :: es) = if i = k then success else isOpen k es := rfl

theorem isOpen_closed (k i : κ) (es : List (Use κ)) :
    isOpen k (.closed i :: es) = if i = k then false else isOpen k es := rfl

/-- What the calls say of the resources that have an owner. -/
structure Balanced (E : κ → Prop) (es : List (Use κ)) : Prop where
  opened : AllOpened es → Paired es ∧ ∀ k, isOpen k es = true ↔ E k
  failed : ¬ AllOpened es → ¬ Paired es ∨ ∃ k, E k ∧ isOpen k es = false

namespace Balanced

variable {E E' : κ → Prop} {es : List (Use κ)}

theorem nil : Balanced (κ := κ) (fun _ => False) [] where
  opened _ := ⟨trivial, fun _ => by simp [isOpen]⟩
  failed h := absurd (fun _ => List.not_mem_nil) h

theorem congr (h : Balanced E es) (hE : ∀ k, E' k ↔ E k) : Balanced E' es := by
  have heq : E' = E := funext fun k => propext (hE k)
  rw [heq]
  exact h

/-- The owner of a resource that could not be opened goes, and closes it. -/
theorem fail (n : κ) : Balanced E (.closed n :: .opened n false :: es) where
  opened h := absurd (allOpened_closed.mp h) (not_allOpened_failed n es)
  failed _ := by
    left
    rintro ⟨hopen, -⟩
    rw [isOpen_opened, if_pos rfl] at hopen
    cases hopen

/-- A new owner of an open resource. -/
theorem add (h : Balanced E es) {n : κ} (hn : ¬ E n) (hclosed : isOpen n es = false) :
    Balanced (fun k => k = n ∨ E k) (.opened n true :: es) where
  opened hall := by
    obtain ⟨hpaired, hopen⟩ := h.opened (allOpened_opened.mp hall)
    refine ⟨⟨hclosed, hpaired⟩, fun k => ?_⟩
    rw [isOpen_opened]
    by_cases hk : n = k
    · rw [if_pos hk]
      exact iff_of_true rfl (.inl hk.symm)
    · rw [if_neg hk, hopen k, or_iff_right (Ne.symm hk)]
  failed hall := by
    rcases h.failed (fun hes => hall (allOpened_opened.mpr hes)) with hbad | ⟨k, hk, hshut⟩
    · exact .inl fun hpaired => hbad hpaired.2
    · have hne : n ≠ k := fun heq => hn (heq ▸ hk)
      exact .inr ⟨k, .inr hk, by rw [isOpen_opened, if_neg hne, hshut]⟩

/-- An owner goes, and closes its resource. -/
theorem remove (h : Balanced E es) {n : κ} (hn : E n) :
    Balanced (fun k => E k ∧ k ≠ n) (.closed n :: es) where
  opened hall := by
    obtain ⟨hpaired, hopen⟩ := h.opened (allOpened_closed.mp hall)
    refine ⟨⟨(hopen n).mpr hn, hpaired⟩, fun k => ?_⟩
    rw [isOpen_closed]
    by_cases hk : n = k
    · rw [if_pos hk]
      exact iff_of_false Bool.false_ne_true fun hE => hE.2 hk.symm
    · rw [if_neg hk, hopen k, and_iff_left (Ne.symm hk)]
  failed hall := by
    rcases h.failed (fun hes => hall (allOpened_closed.mpr hes)) with hbad | ⟨k, hk, hshut⟩
    · exact .inl fun hpaired => hbad hpaired.2
    · by_cases hne : n = k
      · left
        rintro ⟨hopen, -⟩
        rw [hne, hshut] at hopen
        cases hopen
      · exact .inr ⟨k, ⟨hk, Ne.symm hne⟩, by rw [isOpen_closed, if_neg hne, hshut]⟩

/-- A resource is closed and opened again. -/
theorem reopen (h : Balanced E es) {n : κ} (hn : E n) :
    Balanced E (.opened n true :: .closed n :: es) := by
  have hshut : isOpen n (.closed n :: es) = false := by rw [isOpen_closed, if_pos rfl]
  refine ((h.remove hn).add (fun hE => hE.2 rfl) hshut).congr fun k => ?_
  by_cases hk : k = n
  · exact iff_of_true (hk ▸ hn) (.inl hk)
  · simp [hk]

/-- It is closed and cannot be opened again. -/
theorem reopenFail {n : κ} (hn : E n) : Balanced E (.opened n false :: .closed n :: es) where
  opened h := absurd h (not_allOpened_failed n _)
  failed _ := .inr ⟨n, hn, by rw [isOpen_opened, if_pos rfl]⟩

end Balanced

end DistroDefender.Lib
