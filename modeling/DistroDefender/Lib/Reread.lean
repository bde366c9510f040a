import DistroDefender.Lib.Escape

/-!
# Texts read again

What `remember` read is written out, a pair is replaced in it, and `unescape` reads the result. No
step adds weight to what is read, so the symbols are those of the first text exactly when no step
takes any (`unescape_again_iff`). For lists written one after another the length does the same
(`unescape_intercalate_iff`).
-/

namespace DistroDefender.Lib.Escape

variable {α : Type} [DecidableEq α]

/-! ## Reading twice -/

/-- Runs whose escapes are half as many after the first one is dropped. -/
def Even (d : α) (r : Nat × Option α) : Prop := if r.2 = some d then r.1 = 0 else r.1 % 2 = 0

instance (d : α) (r : Nat × Option α) : Decidable (Even d r) := by
  unfold Even
  infer_instance

section Twice

variable {d e : α}

/-- What the first reader leaves, read by the second one. -/
theorem unescape_flat_remember (hde : d ≠ e) (l : List α) :
    unescape d e (flat d (remember d e false l)) =
      (runs e 0 l).flatMap fun r => skipped d e (r.1 - 1, r.2) := by
  have hall : ∀ n, unescape d e (flat d ((runs e n l).flatMap (remembered d e))) =
      (runs e n l).flatMap fun r => skipped d e (r.1 - 1, r.2) := by
    induction l with
    | nil =>
      intro n
      rw [runs, List.flatMap_singleton, List.flatMap_singleton, ← unescape_end hde]
      simp [flat, remembered]
    | cons c l ih =>
      intro n
      rw [runs]
      by_cases hc : c = e
      · rw [if_pos hc]
        exact ih (n + 1)
      · rw [if_neg hc, List.flatMap_cons, List.flatMap_cons, ← ih, ← unescape_run hde _ hc]
        have hflat : flat d (remembered d e (n, some c)) = List.replicate (n - 1) e ++ [c] := by
          by_cases hcd : c = d ∧ n = 0 <;> simp [flat, remembered, hcd]
        rw [flat, List.map_append]
        change unescape d e (flat d _ ++ flat d _) = _
        rw [hflat, List.append_assoc, List.singleton_append]
  have hremember := remember_eq_runs hde 0 l
  rw [List.replicate_zero, List.nil_append] at hremember
  rw [hremember]
  exact hall 0

theorem weight_skipped (r : Nat × Option α) :
    weight (skipped d e (r.1 - 1, r.2)) ≤ weight (skipped d e r) ∧
      (weight (skipped d e (r.1 - 1, r.2)) = weight (skipped d e r) → Even d r) := by
  obtain ⟨n, x⟩ := r
  cases x with
  | none =>
    simp only [skipped, weight_replicate, Even]
    rw [if_neg (by simp)]
    omega
  | some c =>
    by_cases hcd : c = d
    · subst hcd
      simp only [skipped, if_true, weight_append, weight_replicate, weight_cons, weight_nil, Even]
      by_cases hn : n % 2 = 0 <;> by_cases hm : (n - 1) % 2 = 0 <;> simp [hn, hm] <;> omega
    · simp only [skipped, if_neg hcd, weight_append, weight_replicate, Even, Option.some.injEq]
      omega

theorem skipped_pred {r : Nat × Option α} (h : Even d r) :
    skipped d e (r.1 - 1, r.2) = skipped d e r := by
  obtain ⟨n, x⟩ := r
  unfold Even at h
  cases x with
  | none =>
    rw [if_neg (by simp)] at h
    have hhalf : (n - 1 + 1) / 2 = (n + 1) / 2 := by dsimp only at h; omega
    simp only [skipped, hhalf]
  | some c =>
    by_cases hcd : c = d
    · rw [if_pos (congrArg some hcd)] at h
      dsimp only at h
      rw [h]
      rfl
    · rw [if_neg (fun e => hcd (Option.some.inj e))] at h
      have hhalf : (n - 1 + 1) / 2 = (n + 1) / 2 := by dsimp only at h; omega
      simp only [skipped, if_neg hcd, hhalf]

/-- Reading what the first reader left adds no weight, and keeps it exactly when all the symbols are
kept. -/
theorem weight_unescape_flat_remember (hde : d ≠ e) (l : List α) :
    weight (unescape d e (flat d (remember d e false l))) ≤ weight (unescape d e l) ∧
      (weight (unescape d e (flat d (remember d e false l))) = weight (unescape d e l) →
        ∀ r ∈ runs e 0 l, Even d r) := by
  have hskip := unescape_eq_runs hde 0 l
  rw [List.replicate_zero, List.nil_append] at hskip
  rw [hskip, unescape_flat_remember hde]
  have hruns : ∀ r ∈ runs e 0 l, weight (skipped d e (r.1 - 1, r.2)) ≤ weight (skipped d e r) :=
    fun r _ => (weight_skipped r).1
  obtain ⟨hle, heq⟩ := weight_flatMap hruns
  exact ⟨hle, fun h r hr => (weight_skipped r).2 (heq h r hr)⟩

theorem unescape_flat_remember_of_even (hde : d ≠ e) {l : List α} (h : ∀ r ∈ runs e 0 l, Even d r) :
    unescape d e (flat d (remember d e false l)) = unescape d e l := by
  have hskip := unescape_eq_runs hde 0 l
  rw [List.replicate_zero, List.nil_append] at hskip
  rw [hskip, unescape_flat_remember hde, List.flatMap_def, List.flatMap_def]
  refine congrArg _ (List.map_congr_left fun r hr => skipped_pred (h r hr))

end Twice

section Again

variable {a b c d e : α}

/-! ## What a reading keeps -/

/-- A reading is as long as its text when no escape is consumed. -/
theorem length_unescape : ∀ l : List α, (unescape d e l).length ≤ l.length ∧
    ((unescape d e l).length = l.length → ¬ [e, e] <:+: l ∧ ¬ [e, d] <:+: l)
  | [] => ⟨Nat.le_refl _, fun _ => ⟨not_pair_infix_short (by simp), not_pair_infix_short (by simp)⟩⟩
  | [x] => by
    refine ⟨?_, fun _ => ⟨not_pair_infix_short (by simp), not_pair_infix_short (by simp)⟩⟩
    rw [unescape]
    split <;> exact Nat.le_refl _
  | x :: y :: l => by
    have ih := length_unescape l
    have ih' := length_unescape (y :: l)
    rw [unescape]
    by_cases hx : x = e
    · by_cases hy : y = e ∨ y = d
      · rw [if_pos hx, if_pos hy]
        simp only [List.length_cons]
        exact ⟨by omega, fun h => by omega⟩
      · rw [if_pos hx, if_neg hy, pair_infix_cons (b := e), pair_infix_cons (b := d),
          List.length_cons, List.length_cons]
        refine ⟨by omega, fun h => ?_⟩
        obtain ⟨hee, hed⟩ := ih'.2 (by omega)
        rw [not_or] at hy
        exact ⟨not_or.mpr ⟨fun h => hy.1 (Option.some.inj h.2), hee⟩,
          not_or.mpr ⟨fun h => hy.2 (Option.some.inj h.2), hed⟩⟩
    · rw [if_neg hx, pair_infix_cons (b := e), pair_infix_cons (b := d), List.length_cons]
      have hlen : (if x = d then none :: unescape d e (y :: l)
          else some x :: unescape d e (y :: l)).length = (unescape d e (y :: l)).length + 1 := by
        split <;> rfl
      rw [hlen]
      refine ⟨by omega, fun h => ?_⟩
      obtain ⟨hee, hed⟩ := ih'.2 (by omega)
      exact ⟨not_or.mpr ⟨fun h => hx h.1, hee⟩, not_or.mpr ⟨fun h => hx h.1, hed⟩⟩

theorem unescape_eq_plain (hde : d ≠ e) : ∀ {l : List α}, ¬ [e, e] <:+: l → ¬ [e, d] <:+: l →
    unescape d e l = plain d l
  | [], _, _ => rfl
  | [x], _, _ => by
    by_cases hx : x = d <;> simp [unescape, plain, hx]
  | x :: y :: l, hee, hed => by
    rw [pair_infix_cons, not_or] at hee hed
    have ih := unescape_eq_plain hde hee.2 hed.2
    rw [unescape]
    by_cases hx : x = e
    · have hy : ¬ (y = e ∨ y = d) := by
        intro hy
        rcases hy with hy | hy
        · exact hee.1 ⟨hx, congrArg some hy⟩
        · exact hed.1 ⟨hx, congrArg some hy⟩
      rw [if_pos hx, if_neg hy, ih, hx]
      simp [plain, hde.symm]
    · rw [if_neg hx, ih]
      by_cases hxd : x = d <;> simp [plain, hxd]

/-- The escape before nothing that it lets through stays. -/
theorem unescape_escape (hde : d ≠ e) {l : List α} (he : l.head? ≠ some e) (hd : l.head? ≠ some d) :
    unescape d e (e :: l) = some e :: unescape d e l := by
  cases l with
  | nil => simp [unescape, hde.symm]
  | cons y l =>
    have hy : ¬ (y = e ∨ y = d) := by
      intro hy
      rcases hy with hy | hy
      · exact he (congrArg some hy)
      · exact hd (congrArg some hy)
    rw [unescape, if_pos rfl, if_neg hy]

theorem unescape_consumed {y : α} (hy : y = e ∨ y = d) (l : List α) :
    unescape d e (e :: y :: l) = some y :: unescape d e l := by
  rw [unescape, if_pos rfl, if_pos hy]

section Apart

variable (hde : d ≠ e) (had : a ≠ d) (hae : a ≠ e)

include hde had hae in
/-- Each replaced pair takes one character off the text and off its reading. -/
theorem weight_unescape_replacePair (hbd : b ≠ d) (hbe : b ≠ e) (hcd : c ≠ d) (hce : c ≠ e) :
    ∀ l : List α, weight (unescape d e (replacePair a b c l)) + 2 * l.length =
      weight (unescape d e l) + 2 * (replacePair a b c l).length
  | [] => rfl
  | [x] => rfl
  | x :: y :: l => by
    have ih := weight_unescape_replacePair hbd hbe hcd hce l
    have ih' := weight_unescape_replacePair hbd hbe hcd hce (y :: l)
    by_cases hxy : x = a ∧ y = b
    · rw [replacePair, if_pos hxy, hxy.1, hxy.2, unescape_cons hcd hce, unescape_cons had hae,
        unescape_cons hbd hbe]
      simp only [weight_cons, List.length_cons, reduceCtorEq, if_false]
      omega
    · rw [replacePair, if_neg hxy]
      by_cases hx : x = e
      · by_cases hy : y = e ∨ y = d
        · have hya : y ≠ a := by
            intro hya
            rcases hy with hy | hy
            · exact hae (hya.symm.trans hy)
            · exact had (hya.symm.trans hy)
          rw [hx, replacePair_cons hya, unescape_consumed hy, unescape_consumed hy]
          simp only [weight_cons, List.length_cons, reduceCtorEq, if_false]
          omega
        · rw [not_or] at hy
          have hhead : (replacePair a b c (y :: l)).head? ≠ some e ∧
              (replacePair a b c (y :: l)).head? ≠ some d := by
            rcases head?_replacePair (a := a) (b := b) (c := c) y l with h | h
            · rw [h]
              simp [hy]
            · rw [h]
              simp [hcd, hce]
          rw [hx, unescape_escape hde hhead.1 hhead.2,
            unescape_escape hde (by simp [hy.1]) (by simp [hy.2])]
          simp only [weight_cons, List.length_cons, reduceCtorEq, if_false] at ih' ⊢
          omega
      · by_cases hxd : x = d
        · rw [hxd, unescape_delim hde, unescape_delim hde]
          simp only [weight_cons, List.length_cons, if_true] at ih' ⊢
          omega
        · rw [unescape_cons hxd hx, unescape_cons hxd hx]
          simp only [weight_cons, List.length_cons, reduceCtorEq, if_false] at ih' ⊢
          omega

include hde in
theorem weight_unescape_strip (l : List α) :
    weight (unescape d e (strip d l)) ≤ weight (unescape d e l) ∧
    (weight (unescape d e (strip d l)) = weight (unescape d e l) → strip d l = l) := by
  cases l with
  | nil => exact ⟨Nat.le_refl _, fun _ => rfl⟩
  | cons x l =>
    by_cases hx : x = d
    · rw [strip, if_pos hx, hx, unescape_delim hde, weight_cons, if_pos rfl]
      exact ⟨by omega, fun h => by omega⟩
    · rw [strip, if_neg hx]
      exact ⟨Nat.le_refl _, fun _ => rfl⟩

include hde in
theorem head?_unescape (hbd : b ≠ d) (hbe : b ≠ e) (l : List α) :
    (unescape d e l).head? = some (some b) ↔ l.head? = some b := by
  cases l with
  | nil => simp [unescape]
  | cons x l =>
    by_cases hx : x = e
    · rw [hx]
      cases l with
      | nil => simp [unescape, hde.symm]
      | cons y l =>
        rw [unescape, if_pos rfl]
        by_cases hy : y = e ∨ y = d
        · rw [if_pos hy]
          rcases hy with hy | hy
          · simp [hy, hbe.symm]
          · simp [hy, hbd.symm, hbe.symm]
        · rw [if_neg hy]
          simp
    · by_cases hxd : x = d
      · rw [hxd, unescape_delim hde]
        simp [hbd.symm]
      · rw [unescape_cons hxd hx]
        simp

include hde had hae in
/-- Two characters that are neither the delimiter nor the escape stand side by side in the text when
they do in its reading. -/
theorem pair_infix_unescape (hbd : b ≠ d) (hbe : b ≠ e) : ∀ l : List α,
    [some a, some b] <:+: unescape d e l ↔ [a, b] <:+: l
  | [] => by simp [unescape]
  | [x] => by
    have hlen : (unescape d e [x]).length < 2 := by
      rw [unescape]
      split <;> simp
    exact iff_of_false (not_pair_infix_short hlen) (not_pair_infix_short (by simp))
  | x :: y :: l => by
    have ih := pair_infix_unescape hbd hbe l
    have ih' := pair_infix_unescape hbd hbe (y :: l)
    have hnext := head?_unescape hde hbd hbe (y :: l)
    by_cases hx : x = e
    · rw [hx]
      by_cases hy : y = e ∨ y = d
      · have hya : y ≠ a := by
          intro hya
          rcases hy with hy | hy
          · exact hae (hya.symm.trans hy)
          · exact had (hya.symm.trans hy)
        rw [unescape_consumed hy, pair_infix_cons, ih, pair_infix_cons (x := e),
          pair_infix_cons (x := y)]
        simp [hya, hae.symm]
      · rw [not_or] at hy
        rw [unescape_escape hde (by simp [hy.1]) (by simp [hy.2]), pair_infix_cons, ih',
          pair_infix_cons (x := e)]
        simp [hae.symm]
    · by_cases hxd : x = d
      · rw [hxd, unescape_delim hde, pair_infix_cons, ih', pair_infix_cons (x := d)]
        simp [had.symm]
      · rw [unescape_cons hxd hx, pair_infix_cons, ih', hnext, pair_infix_cons (x := x)]
        simp

include hde in
theorem head?_unescape_eq_none (l : List α) : (unescape d e l).head? = some none ↔
    l.head? = some d := by
  cases l with
  | nil => simp [unescape]
  | cons x l =>
    by_cases hxd : x = d
    · rw [hxd, unescape_delim hde]
      simp
    · by_cases hx : x = e
      · rw [hx]
        cases l with
        | nil => simp [unescape, hde.symm]
        | cons y l =>
          rw [unescape, if_pos rfl]
          split <;> simp [hde.symm]
      · rw [unescape_cons hxd hx]
        simp [hxd]

include hde in
/-- A reading that ends with an escape is of a text that does. -/
theorem getLast?_unescape {l : List α} (h : (unescape d e l).getLast? = some (some e)) :
    l.getLast? = some e := by
  have hruns : ∀ n, ((runs e n l).flatMap (skipped d e)).getLast? = some (some e) →
      (List.replicate n e ++ l).getLast? = some e := by
    clear h
    induction l with
    | nil =>
      intro n hlast
      rw [runs, List.flatMap_singleton, skipped, List.getLast?_replicate] at hlast
      rw [List.append_nil, List.getLast?_replicate]
      split at hlast
      · cases hlast
      · rw [if_neg (by omega)]
    | cons c l ih =>
      intro n hlast
      rw [runs] at hlast
      by_cases hc : c = e
      · rw [if_pos hc] at hlast
        have hrest := ih (n + 1) hlast
        rw [List.replicate_succ', List.append_assoc, List.singleton_append] at hrest
        rw [hc]
        exact hrest
      · rw [if_neg hc, List.flatMap_cons, List.getLast?_append] at hlast
        cases hrest : ((runs e 0 l).flatMap (skipped d e)).getLast? with
        | some x =>
          rw [hrest] at hlast
          cases hlast
          have hl := ih 0 hrest
          rw [List.replicate_zero, List.nil_append] at hl
          rw [List.getLast?_append, List.getLast?_cons, hl]
          rfl
        | none =>
          rw [hrest, Option.none_or] at hlast
          unfold skipped at hlast
          by_cases hcd : c = d
          · simp only [if_pos hcd, List.getLast?_concat, Option.some.injEq] at hlast
            split at hlast
            · cases hlast
            · exact absurd (Option.some.inj hlast) hde
          · simp only [if_neg hcd, List.getLast?_concat, Option.some.injEq] at hlast
            exact absurd hlast hc
  have hread := unescape_eq_runs hde 0 l
  rw [List.replicate_zero, List.nil_append] at hread
  rw [hread] at h
  exact hruns 0 h

theorem runs_cases (n : Nat) (l : List α) :
    (∃ k, runs e n l = [(k, none)]) ∨ ∃ k c rs, runs e n l = (k, some c) :: rs := by
  induction l generalizing n with
  | nil => exact .inl ⟨n, rfl⟩
  | cons c l ih =>
    rw [runs]
    split
    · exact ih (n + 1)
    · exact .inr ⟨n, c, _, rfl⟩

include hde in
/-- Where the first reader ends with a separator the second one does, or has one more escape to
read. -/
theorem getLast?_remember {l : List α} (h : (remember d e false l).getLast? = some none) :
    (unescape d e l).getLast? = some none ∨ (unescape d e l).getLast? = some (some e) := by
  have hruns : ∀ n, ((runs e n l).flatMap (remembered d e)).getLast? = some none →
      ((runs e n l).flatMap (skipped d e)).getLast? = some none ∨
        ((runs e n l).flatMap (skipped d e)).getLast? = some (some e) := by
    clear h
    induction l with
    | nil =>
      intro n hlast
      rw [runs, List.flatMap_singleton, remembered, List.getLast?_replicate] at hlast
      split at hlast <;> cases hlast
    | cons c l ih =>
      intro n hlast
      rw [runs] at hlast ⊢
      by_cases hc : c = e
      · rw [if_pos hc] at hlast ⊢
        exact ih (n + 1) hlast
      · rw [if_neg hc, List.flatMap_cons, List.getLast?_append] at hlast ⊢
        cases hrest : ((runs e 0 l).flatMap (remembered d e)).getLast? with
        | some x =>
          rw [hrest] at hlast
          cases hlast
          rcases ih 0 hrest with h | h
          · exact .inl (by rw [h]; rfl)
          · exact .inr (by rw [h]; rfl)
        | none =>
          rw [hrest, Option.none_or] at hlast
          rw [List.getLast?_eq_none_iff] at hrest
          have hsep : c = d ∧ n = 0 := by
            by_contra hne
            unfold remembered at hlast
            simp only [if_neg hne, List.getLast?_concat, Option.some.injEq] at hlast
            cases hlast
          have hskip : (skipped d e (n, some c)).getLast? = some none := by
            rw [hsep.1, hsep.2]
            simp [skipped]
          rcases runs_cases (e := e) 0 l with ⟨k, hk⟩ | ⟨k, c', rs, hk⟩
          · rw [hk, List.flatMap_singleton, skipped, List.getLast?_replicate]
            split
            · exact .inl hskip
            · exact .inr rfl
          · rw [hk, List.flatMap_cons] at hrest
            have hnil := (List.append_eq_nil_iff.mp hrest).1
            simp [remembered] at hnil
  have hremember := remember_eq_runs hde 0 l
  have hread := unescape_eq_runs hde 0 l
  rw [List.replicate_zero, List.nil_append] at hremember hread
  rw [hremember] at h
  rw [hread]
  exact hruns 0 h

/-- The first reader never separates after an escape it kept. -/
theorem not_infix_remember (l : List α) : ∀ prev, ¬ [some e, none] <:+: remember d e prev l ∧
    (prev = true → (remember d e prev l).head? ≠ some none) := by
  induction l with
  | nil => intro prev; exact ⟨not_pair_infix_short (by simp [remember]),
    fun _ => by simp [remember]⟩
  | cons c l ih =>
    intro prev
    obtain ⟨hin, hhead⟩ := ih (c = e)
    rw [remember]
    by_cases hsep : c = d ∧ prev = false
    · rw [if_pos hsep, List.singleton_append, pair_infix_cons, not_or]
      refine ⟨⟨fun h => Option.some_ne_none e h.1.symm, hin⟩, fun hprev => ?_⟩
      rw [hsep.2] at hprev
      cases hprev
    · rw [if_neg hsep]
      by_cases hdrop : c = e ∧ prev = false
      · rw [if_pos hdrop, List.nil_append]
        refine ⟨hin, fun hprev => ?_⟩
        rw [hdrop.2] at hprev
        cases hprev
      · rw [if_neg hdrop, List.singleton_append, pair_infix_cons, not_or]
        refine ⟨⟨fun h => hhead (decide_eq_true (Option.some.inj h.1)) h.2, hin⟩, fun _ => ?_⟩
        simp

/-! ## A text read, substituted and read again -/

include hde had hae in
/-- A text the first reader read and a pair was replaced in gives the second reader the same symbols
exactly when every run is even and the pair does not occur. -/
theorem unescape_again_iff (hbd : b ≠ d) (hbe : b ≠ e) (hcd : c ≠ d) (hce : c ≠ e) {l : List α}
    (hl : l.head? ≠ some d) :
    unescape d e (strip d (replacePair a b c (flat d (remember d e false l)))) = unescape d e l ↔
      (∀ r ∈ runs e 0 l, Even d r) ∧ ¬ [a, b] <:+: l := by
  have hpair := fun l => pair_infix_unescape hde had hae hbd hbe l
  constructor
  · intro h
    have hweight := congrArg weight h
    have hstrip := (weight_unescape_strip hde (replacePair a b c (flat d (remember d e false l)))).1
    have hreplace :=
      weight_unescape_replacePair hde had hae hbd hbe hcd hce (flat d (remember d e false l))
    obtain ⟨hlen, hinfix⟩ :=
      length_replacePair (a := a) (b := b) (c := c) (flat d (remember d e false l))
    obtain ⟨hread, heven⟩ := weight_unescape_flat_remember hde l
    have hruns := heven (by omega)
    refine ⟨hruns, ?_⟩
    rw [← hpair, ← unescape_flat_remember_of_even hde hruns, hpair]
    exact hinfix (by omega)
  · intro h
    obtain ⟨hruns, hinfix⟩ := h
    have hread := unescape_flat_remember_of_even hde hruns
    rw [← hpair, ← hread, hpair] at hinfix
    have hfirst := mt (head?_unescape_eq_none hde l).mp hl
    rw [← hread] at hfirst
    have hhead := mt (head?_unescape_eq_none hde _).mpr hfirst
    rw [replacePair_of_absent hinfix, strip_of_head? hhead, hread]

include hde in
/-- A separator the first reader ends with, and the second one does not, is not read again when it
is lost. -/
theorem unescape_again_end (hce : c ≠ e) {l : List α} {l' : List (Option α)}
    (hend : remember d e false l = l' ++ [none]) (hread : (unescape d e l).getLast? ≠ some none) :
    (¬ ∀ r ∈ runs e 0 l, Even d r) ∧ unescape d e
    (strip d (replacePair a b c (flat d l'))) ≠ unescape d e l := by
  have hlast : (remember d e false l).getLast? = some none := by
    rw [hend, List.getLast?_concat]
  have hescape : (unescape d e l).getLast? = some (some e) :=
    (getLast?_remember hde hlast).resolve_left hread
  constructor
  · intro heven
    rw [← unescape_flat_remember_of_even hde heven, hend] at hescape
    have hchar := getLast?_unescape hde hescape
    rw [flat_append, flat, flat, List.map_singleton, List.getLast?_concat] at hchar
    exact hde (Option.some.inj hchar)
  · intro hsame
    rw [← hsame] at hescape
    have hchar := getLast?_replacePair hce.symm (getLast?_strip (getLast?_unescape hde hescape))
    rw [flat, List.getLast?_map, Option.map_eq_some_iff] at hchar
    obtain ⟨s, hs, hse⟩ := hchar
    cases s with
    | none => exact hde hse
    | some x =>
      have hx : x = e := hse
      rw [hx] at hs
      apply (not_infix_remember (d := d) (e := e) l false).1
      rw [hend, List.infix_append_iff]
      refine .inr (.inr ⟨[some e], [none], rfl, ?_, List.prefix_refl _⟩)
      obtain ⟨init, rfl⟩ := List.getLast?_eq_some_iff.mp hs
      exact List.suffix_append init [some e]

include hde in
/-- Lists written one after another with a delimiter between them are read as they were exactly when
nothing in them is special. -/
theorem unescape_join_iff {ts : List (List α)} (hts : ∀ t ∈ ts, t ≠ []) :
    unescape d e (strip d ([d].intercalate ts)) = join ts ↔
      (∀ t ∈ ts, d ∉ t) ∧ ¬ [e, e] <:+: [d].intercalate ts ∧ ¬ [e, d] <:+: [d].intercalate ts := by
  have hflat := flat_join d ts
  constructor
  · intro h
    have hlen : (join ts).length = ([d].intercalate ts).length := by
      rw [← hflat, flat, List.length_map]
    have hreadlen := congrArg List.length h
    obtain ⟨hread, hescape⟩ := length_unescape (d := d) (e := e) (strip d ([d].intercalate ts))
    obtain ⟨hstrip, hstripped⟩ := length_strip (d := d) ([d].intercalate ts)
    have hescapes := hescape (by omega)
    rw [hstripped (by omega)] at hescapes h
    refine ⟨fun t ht hd => ?_, hescapes⟩
    rw [unescape_eq_plain hde hescapes.1 hescapes.2] at h
    apply not_mem_plain d ([d].intercalate ts)
    rw [h]
    exact some_mem_join.mpr ⟨t, ht, hd⟩
  · rintro ⟨hdelim, hee, hed⟩
    have hhead : ([d].intercalate ts).head? ≠ some d := by
      cases ts with
      | nil => simp
      | cons t ts =>
        have ht := hts t List.mem_cons_self
        have hnot := hdelim t List.mem_cons_self
        cases t with
        | nil => exact absurd rfl ht
        | cons x t =>
          have hx : x ≠ d := fun h => hnot (h ▸ List.mem_cons_self)
          cases ts <;> simp [List.intercalate_cons_cons, hx]
    have hsome : some d ∉ join ts := by
      rw [some_mem_join]
      rintro ⟨t, ht, hd⟩
      exact hdelim t ht hd
    rw [strip_of_head? hhead, unescape_eq_plain hde hee hed, ← hflat, plain_flat hsome]

include hde in
/-- The same where a pair is replaced in the text: it does not occur then. -/
theorem unescape_intercalate_iff {ts : List (List α)} (hts : ∀ t ∈ ts, t ≠ []) :
    unescape d e (strip d (replacePair a b c ([d].intercalate ts))) = join ts ↔
      (∀ t ∈ ts, d ∉ t) ∧ ¬ [a, b] <:+: [d].intercalate ts ∧ ¬ [e, e] <:+: [d].intercalate ts ∧
        ¬ [e, d] <:+: [d].intercalate ts := by
  constructor
  · intro h
    have hlen : (join ts).length = ([d].intercalate ts).length := by
      rw [← flat_join d ts, flat, List.length_map]
    have hreadlen := congrArg List.length h
    have hread :=
      (length_unescape (d := d) (e := e) (strip d (replacePair a b c ([d].intercalate ts)))).1
    have hstrip := (length_strip (d := d) (replacePair a b c ([d].intercalate ts))).1
    obtain ⟨hreplace, hinfix⟩ := length_replacePair (a := a) (b := b) (c := c) ([d].intercalate ts)
    have hpair := hinfix (by omega)
    rw [replacePair_of_absent hpair] at h
    obtain ⟨hdelim, hescapes⟩ := (unescape_join_iff hde hts).mp h
    exact ⟨hdelim, hpair, hescapes⟩
  · rintro ⟨hdelim, hpair, hescapes⟩
    rw [replacePair_of_absent hpair]
    exact (unescape_join_iff hde hts).mpr ⟨hdelim, hescapes⟩

end Apart

end Again

end DistroDefender.Lib.Escape
