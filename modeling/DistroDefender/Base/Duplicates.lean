import DistroDefender.Base.Json
import Mathlib.Data.List.Nodup

/-!
# Repeated member names

`checkDuplicateKeys` visits the objects that are reached through members only, and compares their
names as C strings (`visit_ne_none_iff`). So it misses an object inside an array, and takes two
names for one when they agree up to a NUL (`checkDuplicateKeys_exact_iff`).
-/

namespace DistroDefender.Base.Json

/-- A value occurs in a document, at the root or below it. -/
inductive Occurs : Json → Json → Prop where
  | root {j : Json} : Occurs j j
  | member {j v : Json} {k : String} {ms : List (String × Json)} : (k, v) ∈ ms → Occurs j v →
      Occurs j (.obj ms)
  | element {j v : Json} {xs : List Json} : v ∈ xs → Occurs j v → Occurs j (.arr xs)

/-- It occurs with only objects above it. -/
inductive ThroughObjects : Json → Json → Prop where
  | root {j : Json} : ThroughObjects j j
  | member {j v : Json} {k : String} {ms : List (String × Json)} :
    (k, v) ∈ ms → ThroughObjects j v → ThroughObjects j (.obj ms)

/-- It occurs with an array above it. -/
inductive InArray : Json → Json → Prop where
  | member {j v : Json} {k : String} {ms : List (String × Json)} : (k, v) ∈ ms → InArray j v →
      InArray j (.obj ms)
  | element {j v : Json} {xs : List Json} : v ∈ xs → Occurs j v → InArray j (.arr xs)

theorem occurs_iff {j doc : Json} : Occurs j doc ↔ ThroughObjects j doc ∨ InArray j doc := by
  constructor
  · intro h
    induction h with
    | root => exact .inl .root
    | member hm _ ih =>
      rcases ih with ih | ih
      · exact .inl (.member hm ih)
      · exact .inr (.member hm ih)
    | element hv h _ => exact .inr (.element hv h)
  · intro h
    rcases h with h | h
    · induction h with
      | root => exact .root
      | member hm _ ih => exact .member hm ih
    · induction h with
      | member hm _ ih => exact .member hm ih
      | element hv h => exact .element hv h

/-! ## What is visited -/

/-- An object two of whose members have one name. -/
def Repeats (ms : List (String × Json)) : Prop := ¬ (ms.map Prod.fst).Nodup

/-- An object two of whose names are different and agree up to their first NUL. -/
def Clashes (ms : List (String × Json)) : Prop :=
  ∃ a ∈ ms.map Prod.fst, ∃ b ∈ ms.map Prod.fst, a ≠ b ∧ cstr a = cstr b

theorem firstRepeated_eq_none_iff (seen keys : List String) :
    firstRepeated seen keys = none ↔ keys.Nodup ∧ ∀ key ∈ keys, key ∉ seen := by
  induction keys generalizing seen with
  | nil => simp [firstRepeated]
  | cons key keys ih =>
    rw [firstRepeated]
    by_cases hseen : key ∈ seen
    · rw [if_pos hseen]
      refine iff_of_false (Option.some_ne_none key) ?_
      intro h
      exact h.2 key List.mem_cons_self hseen
    · rw [if_neg hseen, ih, List.nodup_cons]
      constructor
      · intro h
        obtain ⟨hnodup, hnew⟩ := h
        refine ⟨⟨fun hmem => hnew key hmem List.mem_cons_self, hnodup⟩, ?_⟩
        intro k hk
        rcases List.mem_cons.mp hk with rfl | hk
        · exact hseen
        · exact fun hmem => hnew k hk (List.mem_cons_of_mem key hmem)
      · intro h
        obtain ⟨⟨hkey, hnodup⟩, hnew⟩ := h
        refine ⟨hnodup, fun k hk hmem => ?_⟩
        rcases List.mem_cons.mp hmem with rfl | hmem
        · exact hkey hk
        · exact hnew k (List.mem_cons_of_mem key hk) hmem

/-- The names of an object are told apart as C strings unless two are the same or clash. -/
theorem firstRepeated_cstr_ne_none_iff (ms : List (String × Json)) :
    firstRepeated [] (ms.map fun m => cstr m.1) ≠ none ↔ Repeats ms ∨ Clashes ms := by
  have hmap : (ms.map fun m => cstr m.1) = (ms.map Prod.fst).map cstr := by
    rw [List.map_map]
    rfl
  rw [ne_eq, firstRepeated_eq_none_iff, and_iff_left (by simp), hmap]
  unfold Repeats Clashes
  by_cases hnodup : (ms.map Prod.fst).Nodup
  · rw [List.nodup_map_iff_inj_on hnodup]
    simp only [hnodup, not_true_eq_false, false_or]
    push Not
    constructor
    · rintro ⟨a, ha, b, hb, hcstr, hne⟩
      exact ⟨a, ha, b, hb, hne, hcstr⟩
    · rintro ⟨a, ha, b, hb, hne, hcstr⟩
      exact ⟨a, ha, b, hb, hcstr, hne⟩
  · exact iff_of_true (fun h => hnodup h.of_map) (.inl hnodup)

theorem visitMembers_ne_none_iff (ms : List (String × Json)) :
    visitMembers ms ≠ none ↔ ∃ m ∈ ms, visit m.2 ≠ none := by
  induction ms with
  | nil => simp [visitMembers]
  | cons m ms ih =>
    obtain ⟨k, v⟩ := m
    rw [visitMembers]
    cases hv : visit v with
    | none => simp [hv, ih]
    | some e => simp [hv]

theorem visit_obj_ne_none_iff (ms : List (String × Json)) :
    visit (.obj ms) ≠ none ↔ (Repeats ms ∨ Clashes ms) ∨ ∃ m ∈ ms, visit m.2 ≠ none := by
  rw [← firstRepeated_cstr_ne_none_iff, ← visitMembers_ne_none_iff, visit]
  cases firstRepeated [] (ms.map fun m => cstr m.1) with
  | none => simp
  | some key => simp

theorem exists_of_visit_ne_none (doc : Json) (h : visit doc ≠ none) :
    ∃ ms, ThroughObjects (.obj ms) doc ∧ (Repeats ms ∨ Clashes ms) := by
  match doc with
  | .obj ms =>
    rcases (visit_obj_ne_none_iff ms).mp h with hms | ⟨⟨k, v⟩, hm, hv⟩
    · exact ⟨ms, .root, hms⟩
    · have hlt := List.sizeOf_lt_of_mem hm
      obtain ⟨ms', hreached, hms'⟩ := exists_of_visit_ne_none v hv
      exact ⟨ms', .member hm hreached, hms'⟩
  | .null | .bool _ | .num _ | .str _ | .arr _ => exact absurd rfl h
  termination_by sizeOf doc
  decreasing_by
    simp only [Json.obj.sizeOf_spec, Prod.mk.sizeOf_spec] at hlt ⊢
    omega

theorem visit_ne_none_iff (doc : Json) :
    visit doc ≠ none ↔ ∃ ms, ThroughObjects (.obj ms) doc ∧ (Repeats ms ∨ Clashes ms) := by
  constructor
  · exact exists_of_visit_ne_none doc
  · rintro ⟨ms, hreached, hms⟩
    induction hreached with
    | root => exact (visit_obj_ne_none_iff ms).mpr (.inl hms)
    | member hm _ ih => exact (visit_obj_ne_none_iff _).mpr (.inr ⟨_, hm, ih⟩)

/-! ## What is reported -/

/-- The check is an error on the documents with a repeated name exactly when an object reached
through objects repeats one, or two names clash in such an object just when one inside an array
repeats a name. -/
theorem checkDuplicateKeys_exact_iff (doc : Json) :
    (doc.checkDuplicateKeys ≠ none ↔ ∃ ms, Occurs (.obj ms) doc ∧ Repeats ms) ↔
      (∃ ms, ThroughObjects (.obj ms) doc ∧ Repeats ms) ∨
        ((∃ ms, ThroughObjects (.obj ms) doc ∧ Clashes ms) ↔
          ∃ ms, InArray (.obj ms) doc ∧ Repeats ms) := by
  unfold checkDuplicateKeys
  rw [visit_ne_none_iff]
  simp only [occurs_iff, and_or_left, or_and_right, exists_or]
  by_cases hrepeats : ∃ ms, ThroughObjects (.obj ms) doc ∧ Repeats ms
  · simp only [hrepeats, true_or]
  · simp only [hrepeats, false_or]

/-- A repeated name inside an array is not seen, and two names that agree up to a NUL are taken for
one. -/
theorem checkDuplicateKeys_misses :
    ¬ ((Json.arr [.obj [("a", .null), ("a", .null)]]).checkDuplicateKeys ≠ none ↔
      ∃ ms, Occurs (.obj ms) (.arr [.obj [("a", .null), ("a", .null)]]) ∧ Repeats ms) ∧
    ¬ ((Json.obj [(String.ofList ['a', Char.ofNat 0, 'b'], .null),
      ("a", .null)]).checkDuplicateKeys ≠ none ↔ ∃ ms, Occurs (.obj ms)
        (.obj [(String.ofList ['a', Char.ofNat 0, 'b'], .null), ("a", .null)]) ∧ Repeats ms) := by
  constructor
  · intro h
    refine h.mpr ⟨_, .element List.mem_cons_self .root, ?_⟩ rfl
    unfold Repeats
    decide
  · intro h
    obtain ⟨ms, hoccurs, hrepeats⟩ := h.mp (by
      rw [checkDuplicateKeys, visit_obj_ne_none_iff]
      refine .inl (.inr ⟨_, List.mem_cons_self, "a", by simp, by decide, by decide⟩))
    cases hoccurs with
    | root => exact hrepeats (by decide)
    | member hm hv =>
      have hnull : ∀ m ∈ [(String.ofList ['a', Char.ofNat 0, 'b'], Json.null), ("a", Json.null)],
          m.2 = .null := by
        simp
      have hvalue := hnull _ hm
      dsimp only at hvalue
      rw [hvalue] at hv
      cases hv

end DistroDefender.Base.Json
