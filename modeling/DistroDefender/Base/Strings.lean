import DistroDefender.Base.Paths

/-!
# Strings in documents

What is written to a document with its length is read back as a C string. A string survives
`setType` and `appendString` exactly when it has no NUL and the value written is the one the pointer
reads (`get_set`: no token "-" comes to an array, where it writes past the end); the names of an
object exactly when none has a NUL.
-/

namespace DistroDefender.Base.Json

/-! ## What is written is found -/

/-- No token "-" of the pointer comes to an array of the document. -/
def NoDash (j : Json) (p : Pointer) : Prop := ∀ q r xs, p = q ++ "-" :: r → j.get q ≠ some (.arr xs)

theorem noDash_nil (j : Json) : NoDash j [] := by
  intro q r xs h
  simp at h

theorem noDash_cons_iff {j : Json} {t : String} {ts : Pointer} :
    NoDash j (t :: ts) ↔ (t = "-" → ∀ xs, j ≠ .arr xs) ∧
      ∀ q r xs, ts = q ++ "-" :: r → j.get (t :: q) ≠ some (.arr xs) := by
  constructor
  · intro h
    refine ⟨fun ht xs hj => h [] ts xs (by rw [ht]; rfl) (by rw [get_nil, hj]), ?_⟩
    intro q r xs hts
    exact h (t :: q) r xs (by rw [hts]; rfl)
  · intro h q r xs hp
    cases q with
    | nil =>
      obtain ⟨ht, -⟩ := List.cons.inj hp
      rw [get_nil]
      exact fun hj => h.1 ht xs (Option.some.inj hj)
    | cons t' q =>
      obtain ⟨ht, hts⟩ := List.cons.inj hp
      rw [← ht]
      exact h.2 q r xs hts

/-- Where one token finds a child, the rest of the pointer goes on from it. -/
theorem noDash_of_get {j v : Json} {t : String} {ts : Pointer} (ht : t = "-" → ∀ xs, j ≠ .arr xs)
    (h : j.get [t] = some v) : NoDash j (t :: ts) ↔ NoDash v ts := by
  rw [noDash_cons_iff, and_iff_right ht]
  simp only [get_cons_of_get h]
  rfl

theorem get_cons_of_get_none {j : Json} {t : String} (h : j.get [t] = none) (q : Pointer) :
    j.get (t :: q) = none := by
  cases j with
  | obj ms =>
    rw [get_obj_cons] at h ⊢
    cases hl : ms.lookup t with
    | none => rfl
    | some v =>
      rw [hl, Option.bind_some, get_nil] at h
      cases h
  | arr xs =>
    rw [get_arr_cons] at h ⊢
    cases hl : (tokenIndex t).bind (xs[·]?) with
    | none => rfl
    | some v =>
      rw [hl, Option.bind_some, get_nil] at h
      cases h
  | null => rfl
  | bool b => rfl
  | num n => rfl
  | str s => rfl

/-- Where it finds none there is nothing to come to. -/
theorem noDash_of_get_none {j : Json} {t : String} {ts : Pointer} (ht : t = "-" → ∀ xs, j ≠ .arr xs)
    (h : j.get [t] = none) : NoDash j (t :: ts) := by
  rw [noDash_cons_iff]
  refine ⟨ht, fun q r xs _ => ?_⟩
  rw [get_cons_of_get_none h]
  exact (Option.some_ne_none (arr xs)).symm

theorem noDash_null (p : Pointer) : NoDash .null p := by
  cases p with
  | nil => exact noDash_nil .null
  | cons t ts => exact noDash_of_get_none (fun _ _ => Json.noConfusion) rfl

theorem lookup_setMember (t : String) (v : Json) (ms : List (String × Json)) :
    (setMember t v ms).lookup t = some v := by
  induction ms with
  | nil => simp [setMember]
  | cons m ms ih =>
    obtain ⟨k, w⟩ := m
    rw [setMember]
    by_cases hk : k = t
    · rw [if_pos hk, hk, List.lookup_cons_self]
    · rw [if_neg hk, List.lookup_cons, beq_false_of_ne (Ne.symm hk)]
      exact ih

section Set

variable {t : String} {ts : Pointer} {v : Json}

theorem set_obj (ms : List (String × Json)) :
    (obj ms).set (t :: ts) v = obj (setMember t (set ((ms.lookup t).getD .null) ts v) ms) := by
  rw [set.eq_def]

theorem set_dash {xs : List Json} (h : tokenIndex t = none) (hdash : t = "-") :
    (arr xs).set (t :: ts) v = arr (xs ++ [set .null ts v]) := by
  rw [set.eq_def]
  simp only [h, if_pos hdash]

/-- The array with nulls up to the index. -/
def padded (xs : List Json) (i : Nat) : List Json := xs ++ List.replicate (i + 1 - xs.length) .null

theorem set_index {xs : List Json} {i : Nat} (h : tokenIndex t = some i) :
    (arr xs).set (t :: ts) v = arr
    ((padded xs i).set i (set (((padded xs i)[i]?).getD .null) ts v)) := by
  rw [set.eq_def]
  simp only [h]
  rfl

/-- A container of the kind the token asks for is made where there is none. -/
theorem get_set_fresh {j : Json} (hobj : ∀ ms, j ≠ .obj ms)
    (harr : ∀ xs, j = .arr xs → tokenIndex t = none ∧ t ≠ "-")
    (h : (set .null ts v).get ts = some v) : (j.set (t :: ts) v).get (t :: ts) = some v := by
  have hnew : (obj [(t, set .null ts v)]).get (t :: ts) = some v := by
    rw [get_obj_cons, List.lookup_cons_self, Option.bind_some, h]
  have hfresh : ∀ i, tokenIndex t = some i →
      (arr ((List.replicate (i + 1) null).set i (set .null ts v))).get (t :: ts) = some v := by
    intro i hi
    rw [get_arr_cons, hi, Option.bind_some, List.getElem?_set_self (by simp), Option.bind_some, h]
  cases j with
  | obj ms => exact absurd rfl (hobj ms)
  | arr xs =>
    obtain ⟨hi, hdash⟩ := harr xs rfl
    have hset : (arr xs).set (t :: ts) v = obj [(t, set .null ts v)] := by
      rw [set.eq_def]
      simp only [hi, if_neg hdash]
    rw [hset]
    exact hnew
  | null | bool _ | num _ | str _ =>
    rw [set.eq_def]
    cases hi : tokenIndex t with
    | none =>
      simp only [hi]
      exact hnew
    | some i =>
      simp only [hi]
      exact hfresh i hi

end Set

theorem get_padded (xs : List Json) (i : Nat) :
    (padded xs i)[i]? = some (xs[i]?.getD .null) ∧ i < (padded xs i).length := by
  unfold padded
  rw [List.length_append, List.length_replicate]
  refine ⟨?_, by omega⟩
  by_cases hin : i < xs.length
  · rw [List.getElem?_append_left hin, List.getElem?_eq_getElem hin, Option.getD_some]
  · rw [List.getElem?_append_right (by omega), List.getElem?_replicate, if_pos (by omega),
      List.getElem?_eq_none (by omega), Option.getD_none]

/-- A value is found where it was set, unless it was put at the end of an array; then nothing is. -/
theorem get_set (j : Json) (p : Pointer) (v : Json) :
    NoDash j p ∧ (j.set p v).get p = some v ∨ ¬ NoDash j p ∧ (j.set p v).get p = none := by
  induction p generalizing j with
  | nil => exact .inl ⟨noDash_nil j, by rw [set, get_nil]⟩
  | cons t ts ih =>
    have hnull : (set .null ts v).get ts = some v := by
      rcases ih .null with h | h
      · exact h.2
      · exact absurd (noDash_null ts) h.1
    cases j with
    | obj ms =>
      rw [set_obj, get_obj_cons, lookup_setMember, Option.bind_some]
      cases hl : ms.lookup t with
      | none =>
        have hget : (obj ms).get [t] = none := by rw [get_obj_cons, hl]; rfl
        exact .inl ⟨noDash_of_get_none (fun _ _ => Json.noConfusion) hget, hnull⟩
      | some w =>
        have hget : (obj ms).get [t] = some w := by rw [get_obj_cons, hl, Option.bind_some, get_nil]
        rw [noDash_of_get (fun _ _ => Json.noConfusion) hget]
        exact ih w
    | arr xs =>
      cases hi : tokenIndex t with
      | none =>
        have hget : (arr xs).get [t] = none := by rw [get_arr_cons, hi]; rfl
        by_cases hdash : t = "-"
        · rw [set_dash hi hdash, get_arr_cons, hi]
          exact .inr ⟨fun h => (noDash_cons_iff.mp h).1 hdash xs rfl, rfl⟩
        · refine .inl ⟨noDash_of_get_none (fun h => absurd h hdash) hget, ?_⟩
          exact get_set_fresh (fun _ => Json.noConfusion) (fun _ _ => ⟨hi, hdash⟩) hnull
      | some i =>
        have hdash : t = "-" → ∀ ys, arr xs ≠ .arr ys := by
          intro ht
          rw [ht] at hi
          cases hi
        obtain ⟨hat, hlen⟩ := get_padded xs i
        rw [set_index hi, get_arr_cons, hi, Option.bind_some, List.getElem?_set_self hlen,
          Option.bind_some, hat, Option.getD_some]
        cases hx : xs[i]? with
        | none =>
          have hget : (arr xs).get [t] = none := by
            rw [get_arr_cons, hi, Option.bind_some, hx]
            rfl
          exact .inl ⟨noDash_of_get_none hdash hget, hnull⟩
        | some w =>
          have hget : (arr xs).get [t] = some w := by
            rw [get_arr_cons, hi, Option.bind_some, hx, Option.bind_some, get_nil]
          rw [noDash_of_get hdash hget]
          exact ih w
    | null | bool _ | num _ | str _ =>
      refine .inl ⟨noDash_of_get_none (fun _ _ => Json.noConfusion) rfl, ?_⟩
      exact get_set_fresh (fun _ => Json.noConfusion) (fun _ h => Json.noConfusion h) hnull

/-! ## What is read back -/

theorem cstr_eq_iff {s : String} : cstr s = s ↔ Char.ofNat 0 ∉ s.toList := by
  constructor
  · intro h
    rw [← h]
    exact not_mem_cstr s
  · exact cstr_of_not_mem

/-- A string of a document, as a request carries one, is read in full. -/
theorem getString_eq_iff {j : Json} {p : Pointer} {s : String} (h : j.get p = some (.str s)) :
    j.getString p = some s ↔ Char.ofNat 0 ∉ s.toList := by
  unfold getString
  rw [h, Option.some.injEq]
  exact cstr_eq_iff

/-- `getObject` at a valid pointer. -/
def getObject (j : Json) (p : Pointer) : Option (List (String × Json)) :=
  match j.get p with
  | some (.obj ms) => some (ms.map fun m => (cstr m.1, m.2))
  | _ => none

theorem getObject_eq_iff {j : Json} {p : Pointer} {ms : List (String × Json)}
    (h : j.get p = some (.obj ms)) :
    j.getObject p = some ms ↔ ∀ m ∈ ms, Char.ofNat 0 ∉ m.1.toList := by
  unfold getObject
  rw [h, Option.some.injEq]
  constructor
  · intro hmap m hm
    have hsame : ms.map (fun m => (cstr m.1, m.2)) = ms.map id := by rw [hmap, List.map_id]
    have heq := List.map_inj_left.mp hsame m hm
    exact cstr_eq_iff.mp (congrArg Prod.fst heq)
  · intro hnul
    have hid : ms.map (fun m => (cstr m.1, m.2)) = ms.map id :=
      List.map_congr_left fun m hm => Prod.ext (cstr_of_not_mem (hnul m hm)) rfl
    rw [hid, List.map_id]

/-- After `setType(p, s)`, `getString(p)` returns `s`. -/
def SetReads (j : Json) (p : Pointer) (s : String) : Prop := (j.set p (.str s)).getString p = some s

/-- After `appendString(p, s)`, the last element of `getArray(p)` reads as `s`. -/
def AppendReads (j : Json) (p : Pointer) (s : String) : Prop :=
  ∃ xs x, (j.appendString p s).getArray p = some xs ∧ xs.getLast? = some x ∧ x.getString [] = some s

/-- `getObject(p)` returns every member under its full name. -/
def ObjectReads (j : Json) (p : Pointer) : Prop := ∀ ms, j.get p = some (.obj ms) →
  j.getObject p = some ms

theorem setReads_iff (j : Json) (p : Pointer) (s : String) :
    SetReads j p s ↔ Char.ofNat 0 ∉ s.toList ∧ NoDash j p := by
  unfold SetReads
  rcases get_set j p (.str s) with ⟨hdash, hget⟩ | ⟨hdash, hget⟩
  · rw [getString_eq_iff hget, and_iff_left hdash]
  · unfold getString
    rw [hget]
    exact iff_of_false (Option.some_ne_none s).symm (fun h => hdash h.2)

/-- `appendString` sets an array that ends with the string. -/
theorem appendString_eq (j : Json) (p : Pointer) (s : String) :
    ∃ xs, j.appendString p s = j.set p (.arr (xs ++ [.str s])) := by
  unfold appendString
  split
  · exact ⟨_, rfl⟩
  · exact ⟨[], rfl⟩

theorem appendReads_iff (j : Json) (p : Pointer) (s : String) :
    AppendReads j p s ↔ Char.ofNat 0 ∉ s.toList ∧ NoDash j p := by
  obtain ⟨xs, hset⟩ := appendString_eq j p s
  have hlast : (xs ++ [str s]).getLast? = some (.str s) := List.getLast?_concat
  unfold AppendReads getArray
  rw [hset]
  rcases get_set j p (.arr (xs ++ [.str s])) with ⟨hdash, hget⟩ | ⟨hdash, hget⟩
  · rw [hget, and_iff_left hdash, ← getString_eq_iff (get_nil (str s))]
    constructor
    · rintro ⟨ys, x, hys, hx, hread⟩
      cases hys
      rw [hlast] at hx
      cases hx
      exact hread
    · intro hread
      exact ⟨_, _, rfl, hlast, hread⟩
  · rw [hget]
    refine iff_of_false ?_ (fun h => hdash h.2)
    rintro ⟨ys, x, hys, -, -⟩
    cases hys

theorem objectReads_iff (j : Json) (p : Pointer) :
    ObjectReads j p ↔ ∀ ms, j.get p = some (.obj ms) → ∀ m ∈ ms, Char.ofNat 0 ∉ m.1.toList := by
  constructor
  · intro h ms hms
    exact (getObject_eq_iff hms).mp (h ms hms)
  · intro h ms hms
    exact (getObject_eq_iff hms).mpr (h ms hms)

/-- Strings survive exactly when no NUL is in them, and what was written is what the path reads. -/
theorem strings_survive_iff (j : Json) (p : Pointer) (s : String) :
    (SetReads j p s ↔ Char.ofNat 0 ∉ s.toList ∧ NoDash j p) ∧
    (AppendReads j p s ↔ Char.ofNat 0 ∉ s.toList ∧ NoDash j p) ∧
    (ObjectReads j p ↔ ∀ ms, j.get p = some (.obj ms) → ∀ m ∈ ms, Char.ofNat 0 ∉ m.1.toList) ∧
    (j.get p = some (.str s) → (j.getString p = some s ↔ Char.ofNat 0 ∉ s.toList)) :=
  ⟨setReads_iff j p s, appendReads_iff j p s, objectReads_iff j p, getString_eq_iff⟩

/-- A text with a NUL is read up to it, and two members come back under one name. -/
theorem nul_is_lost :
    ¬ SetReads .null ["a"] (String.ofList ['k', Char.ofNat 0, 'x']) ∧
    ¬ AppendReads .null ["a"] (String.ofList ['k', Char.ofNat 0, 'x']) ∧
    (obj [(String.ofList ['k', Char.ofNat 0, 'x'], .null), ("k", .bool true)]).getObject [] =
      some [("k", .null), ("k", .bool true)] := by
  have hnul : Char.ofNat 0 ∈ (String.ofList ['k', Char.ofNat 0, 'x']).toList := by decide
  refine ⟨?_, ?_, rfl⟩
  · rw [setReads_iff]
    exact fun h => h.1 hnul
  · rw [appendReads_iff]
    exact fun h => h.1 hnul

end DistroDefender.Base.Json
