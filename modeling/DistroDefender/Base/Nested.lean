import DistroDefender.Base.Strings
import Mathlib.Data.List.Nodup

/-!
# Documents written from the top

What is written below a pointer is written into the value found there (`set_append`). Where no token
"-" comes to an array, a value that was set is replaced by the next one (`set_set`), so that a run
of writes below a pointer leaves one value there (`setTypeMany_below`). A member is added at the end
of an object, an element under its index at the end of an array.
-/

namespace DistroDefender.Base.Json

/-! ## One token -/

section Child

variable {t : String} {ts : Pointer} {v : Json}

/-- What a token finds, or the null a write starts from. -/
def child (j : Json) (t : String) : Json := (j.get [t]).getD .null

theorem child_obj (ms : List (String × Json)) (t : String) :
    (obj ms).child t = (ms.lookup t).getD .null := by
  unfold child
  rw [get_obj_cons]
  cases ms.lookup t <;> rfl

theorem child_index {xs : List Json} {i : Nat} (h : tokenIndex t = some i) :
    (arr xs).child t = (xs[i]?).getD .null := by
  unfold child
  rw [get_arr_cons, h, Option.bind_some]
  cases xs[i]? <;> rfl

theorem child_none {xs : List Json} (h : tokenIndex t = none) : (arr xs).child t = .null := by
  unfold child
  rw [get_arr_cons, h]
  rfl

/-- The container a token asks for, with one value. -/
def fresh (t : String) (v : Json) : Json :=
  match tokenIndex t with
  | none => .obj [(t, v)]
  | some i => .arr ((List.replicate (i + 1) null).set i v)

theorem set_fresh (ts : Pointer) (v : Json) {j : Json} (hobj : ∀ ms, j ≠ .obj ms)
    (harr : ∀ xs, j = .arr xs → tokenIndex t = none ∧ t ≠ "-") :
    j.set (t :: ts) v = fresh t (set .null ts v) ∧ j.child t = .null := by
  unfold fresh
  cases j with
  | obj ms => exact absurd rfl (hobj ms)
  | arr xs =>
    obtain ⟨hi, hdash⟩ := harr xs rfl
    rw [set.eq_def]
    simp only [hi, if_neg hdash]
    exact ⟨trivial, child_none hi⟩
  | null | bool _ | num _ | str _ =>
    rw [set.eq_def]
    cases hi : tokenIndex t with
    | none =>
      simp only [hi]
      exact ⟨trivial, rfl⟩
    | some i =>
      simp only [hi]
      exact ⟨trivial, rfl⟩

/-- A write goes on in what the first token finds. -/
theorem set_cons (j : Json) (t : String) (ts : Pointer) (v : Json) :
    j.set (t :: ts) v = j.set [t] ((j.child t).set ts v) := by
  have hother : (∀ ms, j ≠ .obj ms) → (∀ xs, j = .arr xs → tokenIndex t = none ∧ t ≠ "-") →
      j.set (t :: ts) v = j.set [t] ((j.child t).set ts v) := by
    intro hobj harr
    rw [(set_fresh _ _ hobj harr).1, (set_fresh _ _ hobj harr).1, (set_fresh ts v hobj harr).2,
      set.eq_def .null []]
  cases j with
  | obj ms => rw [set_obj, set_obj, child_obj, set.eq_def _ []]
  | arr xs =>
    cases hi : tokenIndex t with
    | none =>
      by_cases hdash : t = "-"
      · rw [set_dash hi hdash, set_dash hi hdash, child_none hi, set.eq_def .null []]
      · exact hother (fun _ => Json.noConfusion) fun _ _ => ⟨hi, hdash⟩
    | some i => rw [set_index hi, set_index hi, child_index hi, (get_padded xs i).1,
      Option.getD_some, set.eq_def _ []]
  | null | bool _ | num _ | str _ =>
    exact hother (fun _ => Json.noConfusion) fun _ h => Json.noConfusion h

end Child

theorem get_getD_cons (j : Json) (t : String) (ts : Pointer) :
    (j.get (t :: ts)).getD .null = ((j.child t).get ts).getD .null := by
  unfold child
  cases h : j.get [t] with
  | none =>
    rw [get_cons_of_get_none h]
    cases ts <;> rfl
  | some w => rw [get_cons_of_get h, Option.getD_some]

/-- A write below a pointer is a write in the value found there. -/
theorem set_append (j : Json) (p q : Pointer) (v : Json) :
    j.set (p ++ q) v = j.set p (((j.get p).getD .null).set q v) := by
  induction p generalizing j with
  | nil => rw [List.nil_append, get_nil, Option.getD_some, set]
  | cons t p ih =>
    rw [List.cons_append, set_cons, ih, set_cons j t p, get_getD_cons]

/-! ## Writing twice -/

theorem noDash_child {j : Json} {t : String} {ts : Pointer} (h : NoDash j (t :: ts)) :
    NoDash (j.child t) ts := by
  have hdash := (noDash_cons_iff.mp h).1
  unfold child
  cases hget : j.get [t] with
  | none => exact noDash_null ts
  | some w => exact (noDash_of_get hdash hget).mp h

theorem noDash_of_get_some {j w : Json} {p : Pointer} (h : j.get p = some w) : NoDash j p := by
  induction p generalizing j with
  | nil => exact noDash_nil j
  | cons t p ih =>
    cases hget : j.get [t] with
    | none =>
      rw [get_cons_of_get_none hget] at h
      cases h
    | some u =>
      have hdash : t = "-" → ∀ xs, j ≠ .arr xs := by
        rintro rfl xs rfl
        rw [get_arr_cons] at hget
        cases hget
      rw [get_cons_of_get hget] at h
      exact (noDash_of_get hdash hget).mpr (ih h)

theorem setMember_setMember (t : String) (v w : Json) (ms : List (String × Json)) :
    setMember t w (setMember t v ms) = setMember t w ms := by
  induction ms with
  | nil => simp [setMember]
  | cons m ms ih =>
    obtain ⟨k, u⟩ := m
    by_cases hk : k = t
    · simp [setMember, hk]
    · simp [setMember, hk, ih]

theorem padded_of_lt {xs : List Json} {i : Nat} (h : i < xs.length) : padded xs i = xs := by
  unfold padded
  rw [Nat.sub_eq_zero_of_le h, List.replicate_zero, List.append_nil]

theorem set_one_index {t : String} {xs : List Json} {i : Nat} (hi : tokenIndex t = some i)
    (v : Json) : (arr xs).set [t] v = arr ((padded xs i).set i v) := by
  rw [set_index hi, set]

theorem set_one_obj (ms : List (String × Json)) (t : String) (v : Json) :
    (obj ms).set [t] v = obj (setMember t v ms) := by
  rw [set_obj, set]

theorem fresh_set (t : String) (v w : Json) : (fresh t v).set [t] w = fresh t w := by
  unfold fresh
  cases hi : tokenIndex t with
  | none => simp [set_one_obj, setMember]
  | some i =>
    dsimp only
    rw [set_one_index hi, padded_of_lt (by simp), List.set_set]

/-- Where a token is no "-" of an array, what it set is replaced. -/
theorem set_one_set {j : Json} {t : String} (hdash : t = "-" → ∀ xs, j ≠ .arr xs) (v w : Json) :
    (j.set [t] v).set [t] w = j.set [t] w := by
  have hother : (∀ ms, j ≠ .obj ms) → (∀ xs, j = .arr xs → tokenIndex t = none ∧ t ≠ "-") →
      (j.set [t] v).set [t] w = j.set [t] w := by
    intro hobj harr
    rw [(set_fresh _ _ hobj harr).1, (set_fresh _ _ hobj harr).1, set.eq_def .null [],
      set.eq_def .null [], fresh_set]
  cases j with
  | obj ms => rw [set_one_obj, set_one_obj, set_one_obj, setMember_setMember]
  | arr xs =>
    cases hi : tokenIndex t with
    | none => exact hother (fun _ => Json.noConfusion) fun ys hys => ⟨hi, fun ht => hdash ht ys hys⟩
    | some i =>
      have hlt : i < ((padded xs i).set i v).length := by
        rw [List.length_set]
        exact (get_padded xs i).2
      rw [set_one_index hi, set_one_index hi, set_one_index hi, padded_of_lt hlt, List.set_set]
  | null | bool _ | num _ | str _ =>
    exact hother (fun _ => Json.noConfusion) fun _ h => Json.noConfusion h

theorem get_set_one {j : Json} {t : String} (hdash : t = "-" → ∀ xs, j ≠ .arr xs) (v : Json) :
    (j.set [t] v).get [t] = some v := by
  have hno : NoDash j [t] := noDash_cons_iff.mpr ⟨hdash, fun q r xs h => by simp at h⟩
  rcases get_set j [t] v with ⟨-, hget⟩ | ⟨hnot, -⟩
  · exact hget
  · exact absurd hno hnot

theorem child_set_one {j : Json} {t : String} (hdash : t = "-" → ∀ xs, j ≠ .arr xs) (v : Json) :
    (j.set [t] v).child t = v := by
  unfold child
  rw [get_set_one hdash, Option.getD_some]

/-- A write with "-" makes an array of an array only. -/
theorem set_one_dash {j : Json} {t : String} (hdash : t = "-" → ∀ xs, j ≠ .arr xs) (v : Json) :
    t = "-" → ∀ xs, j.set [t] v ≠ .arr xs := by
  rintro rfl xs h
  have hj := hdash rfl
  cases j with
  | obj ms =>
    rw [set_one_obj] at h
    cases h
  | arr ys => exact hj ys rfl
  | null | bool _ | num _ | str _ =>
    rw [(set_fresh _ _ (fun _ => Json.noConfusion) fun _ h => Json.noConfusion h).1] at h
    cases h

/-- What was set is replaced by the next write. -/
theorem set_set {j : Json} {p : Pointer} (h : NoDash j p) (v w : Json) :
    (j.set p v).set p w = j.set p w := by
  induction p generalizing j with
  | nil => rw [set, set.eq_def j []]
  | cons t p ih =>
    have hdash := (noDash_cons_iff.mp h).1
    rw [set_cons j t p v, set_cons _ t p w, child_set_one hdash, ih (noDash_child h),
      set_one_set hdash, ← set_cons]

/-- Below a value that was set, the arrays are those of the value. -/
theorem noDash_set_append {j : Json} {p : Pointer} (h : NoDash j p) (v : Json) (q : Pointer) :
    NoDash (j.set p v) (p ++ q) ↔ NoDash v q := by
  induction p generalizing j with
  | nil => rw [set, List.nil_append]
  | cons t p ih =>
    have hdash := (noDash_cons_iff.mp h).1
    rw [set_cons, List.cons_append, noDash_of_get (set_one_dash hdash _) (get_set_one hdash _)]
    exact ih (noDash_child h)

theorem noDash_set {j : Json} {p : Pointer} (h : NoDash j p) (v : Json) : NoDash (j.set p v) p := by
  have hnil := (noDash_set_append h v []).mpr (noDash_nil v)
  rwa [List.append_nil] at hnil

/-- A write into a value that was set. -/
theorem set_set_append {j : Json} {p : Pointer} (h : NoDash j p) (v : Json) (q : Pointer)
    (w : Json) : (j.set p v).set (p ++ q) w = j.set p (v.set q w) := by
  rcases get_set j p v with ⟨-, hget⟩ | ⟨hnot, -⟩
  · rw [set_append, hget, Option.getD_some, set_set h]
  · exact absurd h hnot

theorem get_set_of_noDash {j : Json} {p : Pointer} (h : NoDash j p) (v : Json) :
    (j.set p v).get p = some v := by
  rcases get_set j p v with ⟨-, hget⟩ | ⟨hnot, -⟩
  · exact hget
  · exact absurd h hnot

/-- Once a "-" of a pointer came to an array, it does so after every write below the pointer. -/
theorem not_noDash_set {j : Json} {p : Pointer} (h : ¬ NoDash j p) (q : Pointer) (v : Json) :
    ¬ NoDash (j.set (p ++ q) v) p := by
  unfold NoDash at h ⊢
  push Not at h ⊢
  obtain ⟨p', r, xs, rfl, hget⟩ := h
  refine ⟨p', r, xs ++ [set .null (r ++ q) v], rfl, ?_⟩
  have hset : (j.set (p' ++ "-" :: r ++ q) v).get p' = some ((arr xs).set ("-" :: (r ++ q)) v) := by
    rw [List.append_assoc, List.cons_append, set_append, hget, Option.getD_some]
    exact get_set_of_noDash (noDash_of_get_some hget) _
  rw [hset, set_dash rfl rfl]

/-! ## Runs of writes -/

theorem setTypeMany_append (items items' : List (Pointer × Json)) (j : Json) :
    setTypeMany (items ++ items') j = setTypeMany items' (setTypeMany items j) := List.foldl_append

/-- A run of writes below a pointer leaves one value there. -/
theorem setTypeMany_below {p : Pointer} {items : List (Pointer × Json)}
    (hp : ∀ item ∈ items, p <+: item.1) (hne : items ≠ []) {j : Json} (h : NoDash j p) :
    ∃ v, setTypeMany items j = j.set p v := by
  suffices hgen : ∀ (items : List (Pointer × Json)) (v : Json), (∀ item ∈ items, p <+: item.1) →
      ∃ w, setTypeMany items (j.set p v) = j.set p w by
    cases items with
    | nil => exact absurd rfl hne
    | cons item items =>
      obtain ⟨⟨q, hq⟩, hitems⟩ := List.forall_mem_cons.mp hp
      have hfirst : setTypeMany (item :: items) j = setTypeMany items (j.set item.1 item.2) := rfl
      rw [hfirst, ← hq, set_append]
      exact hgen items _ hitems
  intro items
  induction items with
  | nil => exact fun v _ => ⟨v, rfl⟩
  | cons item items ih =>
    intro v hp
    obtain ⟨⟨q, hq⟩, hitems⟩ := List.forall_mem_cons.mp hp
    have hfirst : setTypeMany (item :: items) (j.set p v) =
        setTypeMany items ((j.set p v).set item.1 item.2) := rfl
    rw [hfirst, ← hq, set_set_append h]
    exact ih _ hitems

/-- Where a "-" comes to an array, nothing is found after a run of writes below. -/
theorem get_setTypeMany_of_not_noDash {p : Pointer} {items : List (Pointer × Json)}
    (hp : ∀ item ∈ items, p <+: item.1) {j : Json} (h : ¬ NoDash j p) :
    (setTypeMany items j).get p = none := by
  induction items generalizing j with
  | nil =>
    cases hget : j.get p with
    | none => exact hget
    | some v => exact absurd (noDash_of_get_some hget) h
  | cons item items ih =>
    obtain ⟨⟨q, hq⟩, hitems⟩ := List.forall_mem_cons.mp hp
    have hfirst : setTypeMany (item :: items) j = setTypeMany items (j.set item.1 item.2) := rfl
    rw [hfirst, ← hq]
    exact ih hitems (not_noDash_set h q item.2)

/-- Of writes at one pointer one is left. -/
theorem setTypeMany_same {p : Pointer} {items : List (Pointer × Json)}
    (hp : ∀ item ∈ items, item.1 = p) (hne : items ≠ []) {j : Json} (h : NoDash j p) :
    ∃ item ∈ items,
      setTypeMany items j = j.set p item.2 := by
  induction items generalizing j with
  | nil => exact absurd rfl hne
  | cons item items ih =>
    obtain ⟨hitem, hitems⟩ := List.forall_mem_cons.mp hp
    have hfirst : setTypeMany (item :: items) j = setTypeMany items (j.set item.1 item.2) := rfl
    rw [hfirst, hitem]
    by_cases hnil : items = []
    · rw [hnil]
      exact ⟨item, List.mem_cons_self, rfl⟩
    · obtain ⟨last, hmem, hlast⟩ := ih hitems hnil (noDash_set h item.2)
      rw [hlast, set_set h]
      exact ⟨last, List.mem_cons_of_mem _ hmem, rfl⟩

/-- What was set at a pointer tells what was set. -/
theorem set_inj {j : Json} {p : Pointer} (h : NoDash j p) {v w : Json}
    (heq : j.set p v = j.set p w) : v = w := by
  have hget := get_set_of_noDash h v
  rw [heq, get_set_of_noDash h w] at hget
  exact (Option.some.inj hget).symm

/-! ## Members and elements -/

theorem setMember_of_not_mem {t : String} {ms : List (String × Json)} (h : t ∉ ms.map Prod.fst)
    (v : Json) : setMember t v ms = ms ++ [(t, v)] := by
  induction ms with
  | nil => rfl
  | cons m ms ih =>
    obtain ⟨k, w⟩ := m
    rw [List.map_cons, List.mem_cons, not_or] at h
    rw [setMember, if_neg (Ne.symm h.1), ih h.2, List.cons_append]

theorem map_fst_setMember_of_mem {t : String} {ms : List (String × Json)} (h : t ∈ ms.map Prod.fst)
    (v : Json) : (setMember t v ms).map Prod.fst = ms.map Prod.fst := by
  induction ms with
  | nil => cases h
  | cons m ms ih =>
    obtain ⟨k, w⟩ := m
    rw [setMember]
    by_cases hk : k = t
    · rw [if_pos hk]
      rfl
    · rw [if_neg hk, List.map_cons, List.map_cons, ih]
      rw [List.map_cons] at h
      exact (List.mem_cons.mp h).resolve_left (Ne.symm hk)

/-- The members after the given ones were set, in their order. -/
def setMembers : List (String × Json) → List (String × Json) → List (String × Json)
  | [], ms => ms
  | m :: items, ms => setMembers items (setMember m.1 m.2 ms)

theorem setMembers_of_nodup {items : List (String × Json)} (ms : List (String × Json))
    (h : ((ms ++ items).map Prod.fst).Nodup) :
    setMembers items ms = ms ++ items := by
  induction items generalizing ms with
  | nil => rw [setMembers, List.append_nil]
  | cons m items ih =>
    have hm : m.1 ∉ ms.map Prod.fst := by
      rw [List.map_append, List.map_cons] at h
      exact fun hmem => (List.nodup_append.mp h).2.2 _ hmem _ List.mem_cons_self rfl
    have hsplit : ms ++ m :: items = ms ++ [m] ++ items := by rw [List.append_assoc]; rfl
    rw [setMembers, setMember_of_not_mem hm, hsplit]
    exact ih _ (hsplit ▸ h)

/-- Setting members adds at most as many, and all of them only if no name comes again. -/
theorem length_setMembers (items ms : List (String × Json)) :
    (setMembers items ms).length ≤ ms.length + items.length ∧
      ((setMembers items ms).length = ms.length + items.length → (ms.map Prod.fst).Nodup →
        ((ms ++ items).map Prod.fst).Nodup) := by
  induction items generalizing ms with
  | nil =>
    refine ⟨Nat.le_refl _, fun _ h => ?_⟩
    rwa [List.append_nil]
  | cons m items ih =>
    obtain ⟨hle, hnodup⟩ := ih (setMember m.1 m.2 ms)
    rw [setMembers, List.length_cons]
    by_cases hmem : m.1 ∈ ms.map Prod.fst
    · have hlen := congrArg List.length (map_fst_setMember_of_mem hmem m.2)
      rw [List.length_map, List.length_map] at hlen
      exact ⟨by omega, fun heq => by omega⟩
    · rw [setMember_of_not_mem hmem] at hle hnodup ⊢
      rw [List.length_append, List.length_singleton] at hle hnodup
      refine ⟨by omega, fun heq hms => ?_⟩
      have hms' : ((ms ++ [(m.1, m.2)]).map Prod.fst).Nodup := by
        rw [List.map_append, List.map_singleton, List.nodup_append]
        refine ⟨hms, List.nodup_singleton _, fun a ha b hb hab => hmem ?_⟩
        rw [← List.mem_singleton.mp hb, ← hab]
        exact ha
      have hall := hnodup (by omega) hms'
      rwa [List.append_assoc] at hall

/-- An object comes out with as many members exactly when their names are distinct. -/
theorem setMembers_eq_iff {items items' : List (String × Json)}
    (hlen : items.length = items'.length) :
    setMembers items [] = items' ↔ items = items' ∧ (items'.map Prod.fst).Nodup := by
  constructor
  · intro h
    have hnodup : (items.map Prod.fst).Nodup := by
      refine (length_setMembers items []).2 ?_ List.nodup_nil
      rw [h, hlen, List.length_nil, Nat.zero_add]
    rw [setMembers_of_nodup [] hnodup, List.nil_append] at h
    exact ⟨h, h ▸ hnodup⟩
  · rintro ⟨rfl, hnodup⟩
    exact setMembers_of_nodup [] hnodup

/-- The decimal digits of a number do not start with a zero, unless there is only one. -/
theorem head?_toDigits {n : Nat} (h : 0 < n) : (Nat.toDigits 10 n).head? ≠ some '0' := by
  induction n using Nat.strongRecOn with
  | ind n ih =>
    by_cases hlt : n < 10
    · have hdigit : ∀ m < 10, 0 < m → m.digitChar ≠ '0' := by decide
      rw [Nat.toDigits_of_lt_base hlt, List.head?_cons]
      exact fun hc => hdigit n hlt h (Option.some.inj hc)
    · rw [Nat.toDigits_of_base_le (by decide) (by omega), List.head?_append]
      have hhead := ih (n / 10) (by omega) (by omega)
      cases hdigits : (Nat.toDigits 10 (n / 10)).head? with
      | none => exact absurd (List.head?_eq_none_iff.mp hdigits) Nat.toDigits_ne_nil
      | some c =>
        rw [hdigits] at hhead
        exact hhead

theorem tokenIndex_toString (n : Nat) : tokenIndex (toString n) = some n := by
  have hdigits : ∀ c ∈ Nat.toDigits 10 n, c.isDigit = true :=
    fun c hc => Nat.isDigit_of_mem_toDigits (by decide) (by decide) hc
  unfold tokenIndex
  rw [Nat.toString_eq_ofList_toDigits, String.toList_ofList]
  have hvalue := Nat.ofDigitChars_ten_toDigits (n := n)
  cases hcs : Nat.toDigits 10 n with
  | nil => exact absurd hcs Nat.toDigits_ne_nil
  | cons c cs =>
    rw [hcs] at hdigits hvalue
    have hzero : c ≠ '0' ∨ cs = [] := by
      rcases Nat.eq_zero_or_pos n with rfl | hpos
      · rw [Nat.toDigits_zero] at hcs
        exact .inr (List.cons.inj hcs).2.symm
      · have hhead := head?_toDigits hpos
        rw [hcs] at hhead
        exact .inl fun hc => hhead (congrArg some hc)
    dsimp only
    rw [if_pos ⟨List.all_eq_true.mpr hdigits, hzero⟩, ← hvalue]
    rfl

/-- An element is added under the next index. -/
theorem set_next (xs : List Json) (v : Json) :
    (arr xs).set [toString xs.length] v = arr (xs ++ [v]) := by
  rw [set_one_index (tokenIndex_toString _), padded, Nat.add_sub_cancel_left, List.replicate_one,
    List.set_append_right _ _ (Nat.le_refl _), Nat.sub_self, List.set_cons_zero]

end DistroDefender.Base.Json
