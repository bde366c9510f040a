import Mathlib.Data.List.Infix

/-!
# Lists in lists

`find` is the place where a list first occurs in another one (`find_eq_none_iff`, `find_eq_some`).
`Rewrites` is what becomes of a list when its first `s` is replaced by `r`, then the first `s` from
the place of the last `r` on, and so on until there is none. Each replacement takes something of
what is right of the last one (`length_lt_of_first`). What is left has an `s` exactly where some
replacement completes one that begins left of it (`Rewrites.infix_iff`).
-/

namespace DistroDefender.Lib.Occurs

variable {α : Type}

/-! ## The first occurrence -/

/-- In `x` with `s` behind it, the first `s` is behind `x`. -/
def First (s x : List α) : Prop := ∀ a b, x ++ s = a ++ s ++ b → x.length ≤ a.length

/-- Where the list first occurs. -/
def find [DecidableEq α] (s : List α) : List α → Option Nat
  | [] => if s.isEmpty then some 0 else none
  | c :: cs => if s.isPrefixOf (c :: cs) then some 0 else (find s cs).map (· + 1)

section Find

variable [DecidableEq α]

theorem find_at_head {s l : List α} (h : s <+: l) : find s l = some 0 := by
  cases l with
  | nil =>
    rw [List.prefix_nil.mp h]
    rfl
  | cons c cs => rw [find, if_pos (List.isPrefixOf_iff_prefix.mpr h)]

theorem find_nil_of_ne {s : List α} (h : s ≠ []) : find s [] = none := by
  rw [find, if_neg (fun he => h (List.isEmpty_iff.mp he))]

theorem find_cons_of_not_head {s cs : List α} {c : α} (h : ¬ s <+: c :: cs) :
    find s (c :: cs) = (find s cs).map (· + 1) := by
  rw [find, if_neg (fun hp => h (List.isPrefixOf_iff_prefix.mp hp))]

theorem find_eq_none_iff {s l : List α} : find s l = none ↔ ¬ s <:+: l := by
  induction l with
  | nil =>
    rw [List.infix_nil]
    by_cases h : s = []
    · rw [find_at_head (List.prefix_nil.mpr h)]
      exact iff_of_false nofun (not_not.mpr h)
    · exact iff_of_true (find_nil_of_ne h) h
  | cons c cs ih =>
    rw [List.infix_cons_iff]
    by_cases h : s <+: c :: cs
    · rw [find_at_head h]
      exact iff_of_false nofun (not_not.mpr (.inl h))
    · rw [find_cons_of_not_head h, Option.map_eq_none_iff, ih, not_or, and_iff_right h]

end Find

theorem First.length_le {s x y a b : List α} (h : First s x) (heq : x ++ s ++ y = a ++ s ++ b) :
    x.length ≤ a.length := by
  by_cases hle : x.length ≤ a.length
  · exact hle
  have hprefix : a ++ s <+: x ++ s := by
    apply List.prefix_of_prefix_length_le ⟨b, heq.symm⟩ ⟨y, rfl⟩
    rw [List.length_append, List.length_append]
    omega
  obtain ⟨c, hc⟩ := hprefix
  exact h a c hc.symm

theorem First.unique {s x y a b : List α} (hx : First s x) (ha : First s a)
    (heq : x ++ s ++ y = a ++ s ++ b) : x = a ∧ y = b := by
  have hlen : x.length = a.length := Nat.le_antisymm (hx.length_le heq) (ha.length_le heq.symm)
  obtain ⟨hsame, hrest⟩ :=
    List.append_inj heq (by rw [List.length_append, List.length_append, hlen])
  exact ⟨(List.append_inj hsame hlen).1, hrest⟩

theorem First.suffix {s x u : List α} (h : First s x) (hu : u <:+ x) : First s u := by
  obtain ⟨w, rfl⟩ := hu
  intro a b heq
  have hle := h (w ++ a) b
    (by rw [List.append_assoc, heq, List.append_assoc, List.append_assoc, List.append_assoc])
  rw [List.length_append, List.length_append] at hle
  omega

/-- Left of the first occurrence there is none. -/
theorem First.not_infix {s x : List α} (h : First s x) (hs : s ≠ []) : ¬ s <:+: x := by
  rintro ⟨a, b, heq⟩
  have hpos := List.length_pos_of_ne_nil hs
  have hle := h a (b ++ s) (by rw [← heq, List.append_assoc])
  rw [← heq, List.length_append, List.length_append] at hle
  omega

theorem first_nil (s : List α) : First s [] := fun _ _ _ => Nat.zero_le _

theorem find_eq_some [DecidableEq α] {s l : List α} {i : Nat} (h : find s l = some i) :
    ∃ x y, x.length = i ∧ l = x ++ s ++ y ∧ First s x := by
  induction l generalizing i with
  | nil =>
    by_cases hs : s = []
    · rw [hs] at h ⊢
      cases h
      exact ⟨[], [], rfl, rfl, first_nil []⟩
    · rw [find_nil_of_ne hs] at h
      cases h
  | cons c cs ih =>
    by_cases hp : s <+: c :: cs
    · obtain ⟨y, hy⟩ := hp
      rw [find_at_head ⟨y, hy⟩] at h
      cases h
      exact ⟨[], y, rfl, hy.symm, first_nil s⟩
    · rw [find_cons_of_not_head hp] at h
      obtain ⟨j, hj, rfl⟩ := Option.map_eq_some_iff.mp h
      obtain ⟨x, y, rfl, rfl, hx⟩ := ih hj
      refine ⟨c :: x, y, rfl, rfl, fun a b heq => ?_⟩
      cases a with
      | nil =>
        -- it would be at the head of the list
        refine absurd ⟨b ++ y, ?_⟩ hp
        rw [← List.append_assoc, ← List.nil_append s, ← heq]
        rfl
      | cons d a => exact Nat.succ_le_succ (hx a b (List.cons.inj heq).2)

/-! ## Replacing the first occurrence -/

variable {s r l x y : List α}

/-- A first occurrence in `r` and what is behind it takes some of this, unless it is in `r`. -/
theorem length_lt_of_first {y' : List α} (hr : ¬ s <:+: r) (heq : r ++ y = x ++ s ++ y') :
    y'.length < y.length := by
  by_cases hlt : y'.length < y.length
  · exact hlt
  have hlen := congrArg List.length heq
  rw [List.length_append, List.length_append] at hlen
  have hprefix : x ++ s <+: r := List.prefix_of_prefix_length_le ⟨y', heq.symm⟩ ⟨y, rfl⟩ (by omega)
  exact absurd ((List.infix_append_right).trans hprefix.isInfix) hr

/-- From `l` with `r` and `y` behind it: the first `s` behind `l` is replaced by `r`, until there is
none. -/
inductive Rewrites (s r : List α) : List α → List α → List α → Prop
  | done {l y : List α} (h : ¬ s <:+: r ++ y) : Rewrites s r l y (l ++ (r ++ y))
  | next {l y x y' out : List α} (heq : r ++ y = x ++ s ++ y') (hx : First s x)
      (h : Rewrites s r (l ++ x) y' out) : Rewrites s r l y out

theorem Rewrites.unique {out out' : List α} (h : Rewrites s r l y out)
    (h' : Rewrites s r l y out') : out = out' := by
  induction h with
  | done hnot =>
    cases h' with
    | done _ => rfl
    | next heq _ _ => exact absurd ⟨_, _, heq.symm⟩ hnot
  | next heq hx _ ih =>
    cases h' with
    | done hnot => exact absurd ⟨_, _, heq.symm⟩ hnot
    | next heq' hx' h' =>
      obtain ⟨rfl, rfl⟩ := hx.unique hx' (heq.symm.trans heq')
      exact ih h'

/-- An `s` begins in `l` and ends in `t`, in front of the first `s` of `t`. -/
def Joins (s l t : List α) : Prop :=
  ∃ u v, u ≠ [] ∧ v ≠ [] ∧ s = u ++ v ∧ u <:+ l ∧ v <+: t ∧ ∀ a b, t = a ++ s ++ b →
    v.length ≤ a.length

/-- Some replacement, that of the `r` behind `l` or a later one, completes an `s` that begins left
of it. -/
inductive Joined (s r : List α) : List α → List α → Prop
  | here {l y : List α} (h : Joins s l (r ++ y)) : Joined s r l y
  | later {l y x y' : List α} (heq : r ++ y = x ++ s ++ y') (hx : First s x)
      (h : Joined s r (l ++ x) y') : Joined s r l y

theorem joins_iff_of_not_infix {t : List α} (ht : ¬ s <:+: t) :
    Joins s l t ↔ ∃ u v, u ≠ [] ∧ v ≠ [] ∧ s = u ++ v ∧ u <:+ l ∧ v <+: t := by
  constructor
  · rintro ⟨u, v, hu, hv, hs, hul, hvt, -⟩
    exact ⟨u, v, hu, hv, hs, hul, hvt⟩
  · rintro ⟨u, v, hu, hv, hs, hul, hvt⟩
    exact ⟨u, v, hu, hv, hs, hul, hvt, fun a b heq => absurd ⟨a, b, heq.symm⟩ ht⟩

theorem joins_iff_of_first (hx : First s x) :
    Joins s l (x ++ s ++ y) ↔ ∃ u v, u ≠ [] ∧ v ≠ [] ∧ s = u ++ v ∧ u <:+ l ∧ v <+: x := by
  have hprefix : x <+: x ++ s ++ y := ⟨s ++ y, (List.append_assoc ..).symm⟩
  constructor
  · rintro ⟨u, v, hu, hv, hs, hul, hvt, hbefore⟩
    exact ⟨u, v, hu, hv, hs, hul, List.prefix_of_prefix_length_le hvt hprefix (hbefore x y rfl)⟩
  · rintro ⟨u, v, hu, hv, hs, hul, hvx⟩
    exact ⟨u, v, hu, hv, hs, hul, hvx.trans hprefix,
      fun a b heq => hvx.length_le.trans (hx.length_le heq)⟩

theorem joined_iff_of_first {y' : List α} (heq : r ++ y = x ++ s ++ y') (hx : First s x) :
    Joined s r l y ↔ Joins s l (r ++ y) ∨ Joined s r (l ++ x) y' := by
  constructor
  · intro h
    cases h with
    | here h => exact .inl h
    | later heq' hx' h =>
      obtain ⟨rfl, rfl⟩ := hx.unique hx' (heq.symm.trans heq')
      exact .inr h
  · intro h
    cases h with
    | inl h => exact .here h
    | inr h => exact .later heq hx h

/-- What is left has an `s` where one was left of the replacements, or is completed by one. -/
theorem Rewrites.infix_iff {out : List α} (h : Rewrites s r l y out) (hs : s ≠ []) :
    s <:+: out ↔ s <:+: l ∨ Joined s r l y := by
  induction h with
  | @done l y h =>
    have hhere : Joined s r l y ↔ Joins s l (r ++ y) := by
      refine ⟨fun hj => ?_, .here⟩
      cases hj with
      | here hj => exact hj
      | later heq _ _ => exact absurd ⟨_, _, heq.symm⟩ h
    rw [hhere, joins_iff_of_not_infix h, List.infix_append_iff_ne_nil, or_iff_right h]
  | @next l y x y' out heq hx _ ih =>
    rw [ih, joined_iff_of_first heq hx, heq, joins_iff_of_first hx, List.infix_append_iff_ne_nil,
      or_iff_right (hx.not_infix hs), or_assoc]

/-! ## Lists in which this happens -/

/-- An `s` can be cut in two, so that the first `s` in the first part with `s` behind it is this
`s`, and the second part goes on as `r` does. -/
def Breakable (s r : List α) : Prop :=
  ∃ u v, u ≠ [] ∧ v ≠ [] ∧ s = u ++ v ∧ (v <+: r ∨ r <+: v) ∧ First s u

/-- Every end of `l` that an `s` can begin with, and that goes on as `r` does, is one that `s` can
be cut at. -/
def Ends (s r l : List α) : Prop :=
  ∀ u v, u ≠ [] → v ≠ [] → s = u ++ v → (v <+: r ∨ r <+: v) → u <:+ l → Breakable s r

theorem ends_of_first (hx : First s x) : Ends s r x :=
  fun u v hu hv hs hr hux => ⟨u, v, hu, hv, hs, hr, hx.suffix hux⟩

/-- An end that reaches back over the last replacement comes with a shorter one there. -/
theorem Ends.next {y' : List α} (h : Ends s r l) (heq : r ++ y = x ++ s ++ y') (hx : First s x) :
    Ends s r (l ++ x) := by
  intro u v hu hv hs hr hul
  by_cases hfirst : First s u
  · exact ⟨u, v, hu, hv, hs, hr, hfirst⟩
  obtain ⟨w, hw⟩ := hul
  rcases List.append_eq_append_iff.mp hw with ⟨u₀, hl, rfl⟩ | ⟨c, -, hxu⟩
  · unfold First at hfirst
    push Not at hfirst
    obtain ⟨a, b, hab, hlt⟩ := hfirst
    have hpos := List.length_pos_of_ne_nil hv
    have hlen := congrArg List.length hs
    rw [List.append_assoc, List.append_assoc] at hab
    simp only [List.length_append] at hlen hlt
    rcases List.append_eq_append_iff.mp hab with ⟨a', rfl, hxs⟩ | ⟨u₁, rfl, hsb⟩
    · -- it begins in `u₀`: behind it there is none before that behind `x`
      have hle := hx a' b (by rw [hxs, List.append_assoc])
      rw [List.length_append] at hlt
      omega
    · rw [List.length_append] at hlen hlt
      rcases List.append_eq_append_iff.mp hsb with ⟨c, hu₁, -⟩ | ⟨v₁, hs₁, hxs⟩
      · have hlong := congrArg List.length hu₁
        rw [List.length_append] at hlong
        omega
      · have hlen₁ := congrArg List.length hs₁
        rw [List.length_append] at hlen₁
        have hne : u₁ ≠ [] := by
          rintro rfl
          have hle := hx [] b (by rw [hxs, ← List.nil_append v₁, ← hs₁]; rfl)
          rw [List.length_nil] at hle hlt
          omega
        have hne₁ : v₁ ≠ [] := by
          apply List.ne_nil_of_length_pos
          omega
        have hprefix : v₁ <+: r ++ y := ⟨b ++ y', by rw [heq, hxs, List.append_assoc]⟩
        apply h u₁ v₁ hne hne₁ hs₁
          (List.prefix_or_prefix_of_prefix hprefix (List.prefix_append r y))
        exact ⟨w ++ a, by rw [hl, List.append_assoc]⟩
  · exact absurd (hx.suffix ⟨c, hxu.symm⟩) hfirst

theorem Joined.breakable (h : Joined s r l y) (hl : Ends s r l) : Breakable s r := by
  induction h with
  | @here l y h =>
    obtain ⟨u, v, hu, hv, hs, hul, hvr, -⟩ := h
    exact hl u v hu hv hs (List.prefix_or_prefix_of_prefix hvr (List.prefix_append r y)) hul
  | later heq hx _ ih => exact ih (hl.next heq hx)

/-- Some list has a replacement that completes an `s` exactly when `s` can be broken. -/
theorem exists_joined_iff (hr : ¬ s <:+: r) : (∃ x y, First s x ∧ Joined s r x y) ↔
    Breakable s r := by
  constructor
  · rintro ⟨x, y, hx, h⟩
    exact h.breakable (ends_of_first hx)
  · rintro ⟨u, v, hu, hv, hs, hrv, hfirst⟩
    rcases hrv with hvr | ⟨w, hw⟩
    · refine ⟨u, [], hfirst, .here ⟨u, v, hu, hv, hs, List.suffix_rfl, ?_, fun a b heq => ?_⟩⟩
      · rw [List.append_nil]
        exact hvr
      · rw [List.append_nil] at heq
        exact absurd ⟨a, b, heq.symm⟩ hr
    · refine ⟨u, w, hfirst, .here ⟨u, v, hu, hv, hs, List.suffix_rfl, ?_, fun a b heq => ?_⟩⟩
      · rw [hw]
      · -- the second part is too short for an `s`
        have hpos := List.length_pos_of_ne_nil hu
        have hlen := congrArg List.length heq
        have hlen' := congrArg List.length hs
        rw [hw, List.length_append, List.length_append] at hlen
        rw [List.length_append] at hlen'
        omega

end DistroDefender.Lib.Occurs
