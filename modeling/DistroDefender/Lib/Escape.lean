import DistroDefender.Lib.Symbols
import Mathlib.Data.List.DropRight

/-!
# Texts with an escape character

Two readers of a text over a delimiter `d` and an escape `e`. `unescape` skips the character after
an escape it consumes; `remember` remembers only whether the last character was an escape. Both are
maps over the runs of escapes of the text (`runs`), so that they are compared run by run
(`unescape_eq_remember_iff`). What is written with escapes `unescape` reads back
(`unescape_intercalate_escaped`).
-/

namespace DistroDefender.Lib.Escape

variable {α : Type} [DecidableEq α]

/-! ## Two readers -/

/-- An escape before itself or a delimiter lets that character through, and is dropped. -/
def unescape (d e : α) : List α → List (Option α)
  | [] => []
  | [c] => if c = d then [none] else [some c]
  | c :: next :: rest =>
    if c = e then
      if next = e ∨ next = d then some next :: unescape d e rest
      else some c :: unescape d e (next :: rest)
    else if c = d then none :: unescape d e (next :: rest)
    else some c :: unescape d e (next :: rest)

/-- A delimiter separates unless an escape stands before it, and an escape is dropped unless one
stands before it; `prev` says that the last character was an escape. -/
def remember (d e : α) : Bool → List α → List (Option α)
  | _, [] => []
  | prev, c :: cs =>
    (if c = d ∧ prev = false then [none] else if c = e ∧ prev = false then [] else [some c]) ++
      remember d e (c = e) cs

/-- The characters other than the escape, and the end, each with the number of escapes directly
before it. -/
def runs (e : α) : Nat → List α → List (Nat × Option α)
  | n, [] => [(n, none)]
  | n, c :: cs => if c = e then runs e (n + 1) cs else (n, some c) :: runs e 0 cs

/-- What `unescape` reads of `n` escapes and what follows them. -/
def skipped (d e : α) (r : Nat × Option α) : List (Option α) :=
  match r.2 with
  | none => List.replicate ((r.1 + 1) / 2) (some e)
  | some c =>
    if c = d then List.replicate (r.1 / 2) (some e) ++ [if r.1 % 2 = 0 then none else some d]
    else List.replicate ((r.1 + 1) / 2) (some e) ++ [some c]

/-- What `remember` reads of `n` escapes and what follows them. -/
def remembered (d e : α) (r : Nat × Option α) : List (Option α) :=
  match r.2 with
  | none => List.replicate (r.1 - 1) (some e)
  | some c => List.replicate (r.1 - 1) (some e) ++ [if c = d ∧ r.1 = 0 then none else some c]

section Readers

variable {d e : α}

theorem unescape_cons {c : α} (hd : c ≠ d) (he : c ≠ e) (l : List α) :
    unescape d e (c :: l) = some c :: unescape d e l := by
  cases l with
  | nil => simp [unescape, hd]
  | cons next rest => rw [unescape, if_neg he, if_neg hd]

theorem unescape_delim (hde : d ≠ e) (l : List α) :
    unescape d e (d :: l) = none :: unescape d e l := by
  cases l with
  | nil => simp [unescape]
  | cons next rest => rw [unescape, if_neg hde, if_pos rfl]

theorem unescape_replicate (k : Nat) (l : List α) :
    unescape d e (List.replicate (2 * k) e ++ l) = List.replicate k (some e) ++ unescape d e l := by
  induction k with
  | zero => rfl
  | succ k ih =>
    have hrep : List.replicate (2 * (k + 1)) e ++ l = e :: e ::
        (List.replicate (2 * k) e ++ l) := by
      rw [show 2 * (k + 1) = 2 * k + 1 + 1 from rfl, List.replicate_succ, List.replicate_succ]
      rfl
    rw [hrep, unescape, if_pos rfl, if_pos (Or.inl rfl), ih]
    rfl

/-- Half of the escapes of a run are read, and the odd one goes with what follows. -/
theorem unescape_run (hde : d ≠ e) (n : Nat) {c : α} (hc : c ≠ e) (l : List α) :
    unescape d e (List.replicate n e ++ c :: l) = skipped d e (n, some c) ++ unescape d e l := by
  have hhalf : n = 2 * (n / 2) ∨ n = 2 * (n / 2) + 1 := by omega
  unfold skipped
  rcases hhalf with heven | hodd
  · have hmod : n % 2 = 0 := by omega
    have hsucc : (n + 1) / 2 = n / 2 := by omega
    rw [show List.replicate n e =
      List.replicate (2 * (n / 2)) e by rw [← heven], unescape_replicate]
    by_cases hcd : c = d
    · rw [hcd, unescape_delim hde]
      simp [hmod]
    · rw [unescape_cons hcd hc]
      simp [hcd, hsucc]
  · have hmod : n % 2 ≠ 0 := by omega
    have hsucc : (n + 1) / 2 = n / 2 + 1 := by omega
    have hrep : List.replicate n e = List.replicate (2 * (n / 2)) e ++ [e] := by
      rw [← List.replicate_succ', ← hodd]
    rw [hrep, List.append_assoc, unescape_replicate, List.singleton_append, unescape, if_pos rfl]
    by_cases hcd : c = d
    · rw [if_pos (Or.inr hcd), hcd]
      simp [hmod]
    · have hother : ¬ (c = e ∨ c = d) := by
        intro h
        rcases h with h | h
        · exact hc h
        · exact hcd h
      rw [if_neg hother, unescape_cons hcd hc]
      simp [hcd, hsucc, List.replicate_succ']

theorem unescape_end (hde : d ≠ e) (n : Nat) :
    unescape d e (List.replicate n e) = skipped d e (n, none) := by
  have hhalf : n = 2 * (n / 2) ∨ n = 2 * (n / 2) + 1 := by omega
  have htwice := unescape_replicate (d := d) (e := e) (n / 2)
  unfold skipped
  rcases hhalf with heven | hodd
  · have hsucc : (n + 1) / 2 = n / 2 := by omega
    have hnil := htwice []
    rw [List.append_nil, unescape, List.append_nil, ← heven] at hnil
    rw [hnil, hsucc]
  · have hsucc : (n + 1) / 2 = n / 2 + 1 := by omega
    have hrep : List.replicate n e = List.replicate (2 * (n / 2)) e ++ [e] := by
      rw [← List.replicate_succ', ← hodd]
    rw [hrep, htwice, unescape, if_neg hde.symm, hsucc, List.replicate_succ']

theorem unescape_eq_runs (hde : d ≠ e) (n : Nat) (l : List α) :
    unescape d e (List.replicate n e ++ l) = (runs e n l).flatMap (skipped d e) := by
  induction l generalizing n with
  | nil => rw [List.append_nil, unescape_end hde, runs, List.flatMap_singleton]
  | cons c l ih =>
    rw [runs]
    by_cases hc : c = e
    · rw [if_pos hc, hc, ← ih, List.replicate_succ', List.append_assoc]
      rfl
    · rw [if_neg hc, unescape_run hde n hc, List.flatMap_cons, ← ih]
      rfl

theorem remember_cons {c : α} (hd : c ≠ d) (he : c ≠ e) (prev : Bool) (l : List α) :
    remember d e prev (c :: l) = some c :: remember d e false l := by
  rw [remember]
  simp [hd, he]

theorem remember_true (m : Nat) (l : List α) :
    remember d e true (List.replicate m e ++ l) = List.replicate m (some e) ++
      remember d e true l := by
  induction m with
  | zero => rfl
  | succ m ih =>
    rw [List.replicate_succ, List.replicate_succ, List.cons_append, List.cons_append, remember]
    simp [ih]

theorem remember_eq_runs (hde : d ≠ e) (n : Nat) (l : List α) :
    remember d e false (List.replicate n e ++ l) = (runs e n l).flatMap (remembered d e) := by
  have hfirst : ∀ m (l : List α), remember d e false (List.replicate (m + 1) e ++ l) =
      List.replicate m (some e) ++ remember d e true l := by
    intro m l
    rw [List.replicate_succ, List.cons_append, remember, if_neg (fun h => hde h.1.symm),
      if_pos ⟨rfl, rfl⟩]
    simp [remember_true]
  induction l generalizing n with
  | nil =>
    rw [runs, List.flatMap_singleton]
    cases n with
    | zero => rfl
    | succ m => rw [hfirst, remember, List.append_nil]; rfl
  | cons c l ih =>
    rw [runs]
    by_cases hc : c = e
    · rw [if_pos hc, hc, ← ih, List.replicate_succ', List.append_assoc]
      rfl
    · rw [if_neg hc, List.flatMap_cons, ← ih]
      cases n with
      | zero => by_cases hcd : c = d <;> simp [remember, remembered, hc, hcd, hde]
      | succ m => rw [hfirst]; simp [remember, remembered, hc]

theorem head?_remember (hde : d ≠ e) (l : List α) : (remember d e false l).head? = some none ↔
    l.head? = some d := by
  cases l with
  | nil => simp [remember]
  | cons c l =>
    by_cases hcd : c = d
    · simp [remember, hcd]
    · by_cases hc : c = e
      · rw [hc, remember, if_neg (fun h => hde h.1.symm), if_pos ⟨rfl, rfl⟩]
        cases l with
        | nil => simp [remember, hde.symm]
        | cons c' l => simp [remember, hde.symm]
      · simp [remember, hcd, hc]

theorem remember_delim (hde : d ≠ e) (l : List α) :
    remember d e false (d :: l) = none :: remember d e false l := by
  rw [remember]
  simp [hde]

/-- Only escapes are dropped. -/
theorem length_remember (hde : d ≠ e) (prev : Bool) (l : List α) :
    (remember d e prev l).length ≤ l.length ∧
    (prev = false → (remember d e prev l).length = l.length → e ∉ l) := by
  induction l generalizing prev with
  | nil => exact ⟨Nat.le_refl _, fun _ _ => List.not_mem_nil⟩
  | cons c l ih =>
    obtain ⟨hle, heq⟩ := ih (c = e)
    rw [remember, List.length_append, List.length_cons]
    refine ⟨?_, fun hprev hlen => ?_⟩
    · split
      · simp only [List.length_singleton]
        omega
      · split <;> simp only [List.length_singleton, List.length_nil] <;> omega
    · by_cases hc : c = e
      · rw [if_neg (fun h => hde (h.1.symm.trans hc)), if_pos ⟨hc, hprev⟩, List.length_nil] at hlen
        omega
      · have hone : (if c = d ∧ prev = false then [none] else if c = e ∧ prev = false then []
            else [some c]).length = 1 := by
          rw [if_neg (c := c = e ∧ prev = false) (fun h => hc h.1)]
          split <;> rfl
        rw [hone] at hlen
        have hrest := heq (decide_eq_false hc) (by omega)
        rw [List.mem_cons, not_or]
        exact ⟨Ne.symm hc, hrest⟩

/-- Without an escape every delimiter separates. -/
theorem remember_eq_plain {l : List α} (h : e ∉ l) : remember d e false l = plain d l := by
  induction l with
  | nil => rfl
  | cons c l ih =>
    rw [List.mem_cons, not_or] at h
    have hc : c ≠ e := Ne.symm h.1
    rw [remember, decide_eq_false hc, ih h.2]
    by_cases hcd : c = d <;> simp [plain, hcd, hc]

theorem runs_delim (hde : d ≠ e) (l : List α) : runs e 0 (d :: l) = (0, some d) :: runs e 0 l := by
  rw [runs, if_neg hde]

theorem unescape_ne_nil {l : List α} (h : l ≠ []) : unescape d e l ≠ [] := by
  intro hnil
  cases l with
  | nil => exact h rfl
  | cons c l =>
    cases l with
    | nil =>
      rw [unescape] at hnil
      split at hnil <;> cases hnil
    | cons next rest =>
      rw [unescape] at hnil
      split at hnil
      · split at hnil <;> cases hnil
      · split at hnil <;> cases hnil

end Readers

/-! ## Writing with escapes -/

/-- A symbol written so that it is read back: a separator as the delimiter, a delimiter or an escape
after an escape. -/
def spelled (d e : α) : Option α → List α
  | none => [d]
  | some c => if c = d ∨ c = e then [e, c] else [c]

/-- The characters of a piece, written as symbols. -/
def escaped (d e : α) (p : List α) : List α := p.flatMap fun c => spelled d e (some c)

/-- The text with every odd run of escapes made one longer, but for those before a delimiter. -/
def canonical (d e : α) (l : List α) : List α :=
  (runs e 0 l).flatMap fun r =>
    List.replicate (if r.2 = some d then r.1 else 2 * ((r.1 + 1) / 2)) e ++ r.2.toList

section Writing

variable {d e : α}

theorem unescape_spelled (hde : d ≠ e) (l : List (Option α)) :
    unescape d e (l.flatMap (spelled d e)) = l := by
  induction l with
  | nil => rfl
  | cons s l ih =>
    rw [List.flatMap_cons]
    cases s with
    | none => rw [spelled, List.singleton_append, unescape_delim hde, ih]
    | some c =>
      rw [spelled]
      by_cases hc : c = d ∨ c = e
      · rw [if_pos hc, List.cons_append, List.singleton_append, unescape, if_pos rfl,
          if_pos hc.symm, ih]
      · obtain ⟨hd, he⟩ := not_or.mp hc
        rw [if_neg hc, List.singleton_append, unescape_cons hd he, ih]

theorem flatMap_spelled_join (ps : List (List α)) :
    (join ps).flatMap (spelled d e) = [d].intercalate (ps.map (escaped d e)) := by
  induction ps with
  | nil => rfl
  | cons p ps ih =>
    cases ps with
    | nil =>
      rw [join, List.flatMap_map, List.map_singleton, List.intercalate_singleton]
      rfl
    | cons q ps =>
      rw [List.map_cons] at ih
      rw [join, List.flatMap_append, List.flatMap_map, List.flatMap_cons, ih, List.map_cons,
        List.map_cons, List.intercalate_cons_cons, List.append_assoc]
      rfl

/-- Pieces that are escaped and written with delimiters between them are read back. -/
theorem unescape_intercalate_escaped (hde : d ≠ e) (ps : List (List α)) :
    unescape d e ([d].intercalate (ps.map (escaped d e))) = join ps := by
  rw [← flatMap_spelled_join, unescape_spelled hde]

theorem flatMap_spelled_replicate (n : Nat) :
    (List.replicate n (some e)).flatMap (spelled d e) = List.replicate (2 * n) e := by
  induction n with
  | zero => rfl
  | succ n ih =>
    have hone : spelled d e (some e) = [e, e] := if_pos (.inr rfl)
    rw [List.replicate_succ, List.flatMap_cons, ih, hone, show 2 * (n + 1) = 2 * n + 1 + 1 from rfl,
      List.replicate_succ, List.replicate_succ]
    rfl

theorem ne_of_mem_runs {n m : Nat} {c : α} {l : List α} (h : (n, some c) ∈ runs e m l) : c ≠ e := by
  induction l generalizing m with
  | nil =>
    rw [runs, List.mem_singleton] at h
    cases h
  | cons c' l ih =>
    rw [runs] at h
    split at h
    · exact ih h
    · rename_i hc
      rcases List.mem_cons.mp h with h | h
      · cases h
        exact hc
      · exact ih h

/-- One run, read and written again. -/
theorem flatMap_spelled_skipped {n : Nat} {c : α} (hc : c ≠ e) :
    (skipped d e (n, some c)).flatMap (spelled d e) =
      List.replicate (if c = d then n else 2 * ((n + 1) / 2)) e ++ [c] := by
  unfold skipped
  by_cases hcd : c = d
  · simp only [if_pos hcd]
    rw [List.flatMap_append, flatMap_spelled_replicate, List.flatMap_singleton]
    have hhalf : n = 2 * (n / 2) ∨ n = 2 * (n / 2) + 1 := by omega
    rcases hhalf with heven | hodd
    · rw [if_pos (by omega), ← heven, spelled, hcd]
    · have hrep : List.replicate n e = List.replicate (2 * (n / 2)) e ++ [e] := by
        rw [← List.replicate_succ', ← hodd]
      rw [if_neg (by omega), spelled, if_pos (.inl rfl), hrep, List.append_assoc, hcd]
      rfl
  · simp only [if_neg hcd]
    rw [List.flatMap_append, flatMap_spelled_replicate, List.flatMap_singleton, spelled,
      if_neg (not_or.mpr ⟨hcd, hc⟩)]

/-- What is read, written again, is the canonical text. -/
theorem flatMap_spelled_unescape (hde : d ≠ e) (l : List α) :
    (unescape d e l).flatMap (spelled d e) = canonical d e l := by
  have hread := unescape_eq_runs hde 0 l
  rw [List.replicate_zero, List.nil_append] at hread
  have hrun : ∀ r ∈ runs e 0 l, (skipped d e r).flatMap (spelled d e) =
      List.replicate (if r.2 = some d then r.1 else 2 * ((r.1 + 1) / 2)) e ++ r.2.toList := by
    intro r hr
    obtain ⟨n, x⟩ := r
    cases x with
    | none =>
      rw [skipped, flatMap_spelled_replicate, if_neg (by simp)]
      exact (List.append_nil _).symm
    | some c =>
      rw [flatMap_spelled_skipped (ne_of_mem_runs hr)]
      simp
  rw [hread, List.flatMap_assoc]
  exact List.flatMap_congr hrun

/-- Two texts are read alike exactly when they have one canonical text. -/
theorem unescape_eq_iff (hde : d ≠ e) {l l' : List α} :
    unescape d e l = unescape d e l' ↔ canonical d e l = canonical d e l' := by
  rw [← flatMap_spelled_unescape hde, ← flatMap_spelled_unescape hde]
  constructor
  · intro h
    rw [h]
  · intro h
    rw [← unescape_spelled hde (unescape d e l), h, unescape_spelled hde]

end Writing

/-! ## A text, a delimiter, and a text -/

/-- The number of escapes at the end of a text. -/
def trailing (e : α) (l : List α) : Nat := (l.rtakeWhile (· = e)).length

section Concat

variable {d e : α}

/-- A character other than the escape ends a run. -/
theorem runs_append_cons {c : α} (hc : c ≠ e) (n : Nat) (l l' : List α) :
    ∃ rs, runs e n (l ++ [c]) = rs ++ [(0, none)] ∧
    runs e n (l ++ c :: l') = rs ++ runs e 0 l' := by
  induction l generalizing n with
  | nil => exact ⟨[(n, some c)], by simp [runs, hc], by simp [runs, hc]⟩
  | cons a l ih =>
    simp only [List.cons_append, runs]
    split
    · exact ih (n + 1)
    · obtain ⟨rs, hone, hrest⟩ := ih 0
      exact ⟨(n, some a) :: rs, by rw [hone]; rfl, by rw [hrest]; rfl⟩

theorem unescape_append_cons (hde : d ≠ e) {c : α} (hc : c ≠ e) (l l' : List α) :
    unescape d e (l ++ c :: l') = unescape d e (l ++ [c]) ++ unescape d e l' := by
  have hread := fun l => unescape_eq_runs hde 0 l
  simp only [List.replicate_zero, List.nil_append] at hread
  obtain ⟨rs, hone, hrest⟩ := runs_append_cons hc 0 l l'
  rw [hread, hread, hread, hone, hrest, List.flatMap_append, List.flatMap_append]
  simp [skipped]

/-- A text without its escapes at the end, and what comes after it. -/
theorem unescape_rdropWhile_append (hde : d ≠ e) (l l' : List α) :
    unescape d e (l.rdropWhile (· = e) ++ l') = unescape d e (l.rdropWhile (· = e)) ++
      unescape d e l' := by
  rcases List.eq_nil_or_concat (l.rdropWhile (· = e)) with hnil | ⟨q, c, hq⟩
  · rw [hnil]
    rfl
  · have hne : l.rdropWhile (· = e) ≠ [] := by rw [hq]; simp
    have hlast := List.rdropWhile_last_not (· = e) l hne
    simp only [hq, List.concat_eq_append, List.getLast_append_singleton, decide_eq_true_eq] at hlast
    rw [hq, List.concat_eq_append, List.append_assoc, List.singleton_append,
      unescape_append_cons hde hlast]

theorem append_replicate_trailing (e : α) (l : List α) :
    l.rdropWhile (· = e) ++ List.replicate (trailing e l) e = l := by
  have hrep : l.rtakeWhile (· = e) = List.replicate (trailing e l) e := by
    refine List.eq_replicate_iff.mpr ⟨rfl, fun c hc => ?_⟩
    simpa using List.mem_rtakeWhile_imp hc
  rw [← hrep, List.rdropWhile_append_rtakeWhile]

theorem unescape_trailing (hde : d ≠ e) (l : List α) :
    unescape d e l = unescape d e (l.rdropWhile (· = e)) ++ skipped d e (trailing e l, none) := by
  rw [← unescape_end hde, ← unescape_rdropWhile_append hde, append_replicate_trailing]

theorem unescape_trailing_delim (hde : d ≠ e) (l l' : List α) :
    unescape d e (l ++ d :: l') =
      unescape d e (l.rdropWhile (· = e)) ++
        (skipped d e (trailing e l, some d) ++ unescape d e l') := by
  rw [← unescape_run hde _ hde, ← unescape_rdropWhile_append hde, ← List.append_assoc,
    append_replicate_trailing]

/-- A delimiter after a text separates exactly when the text ends in an even number of escapes. -/
theorem unescape_append_delim_iff (hde : d ≠ e) {l l' : List α} :
    unescape d e (l ++ d :: l') = unescape d e l ++ none :: unescape d e l' ↔
    trailing e l % 2 = 0 := by
  rw [unescape_trailing_delim hde, unescape_trailing hde l, List.append_assoc,
    List.append_cancel_left_eq]
  simp only [skipped, if_true]
  constructor
  · intro h
    have hlen := congrArg List.length h
    simp only [List.length_append, List.length_replicate, List.length_cons, List.length_nil] at hlen
    omega
  · intro h
    have hhalf : (trailing e l + 1) / 2 = trailing e l / 2 := by omega
    rw [if_pos h, hhalf, List.append_assoc]
    rfl

/-- A delimiter at the end is never lost. -/
theorem unescape_concat_delim_ne (hde : d ≠ e) (l : List α) :
    unescape d e (l ++ [d]) ≠ unescape d e l := by
  rw [unescape_trailing_delim hde, unescape_trailing hde l]
  intro h
  have hlast := congrArg List.getLast? (List.append_cancel_left h)
  simp only [skipped, if_true, unescape, List.append_nil, List.getLast?_concat,
    List.getLast?_replicate] at hlast
  by_cases hnone : (trailing e l + 1) / 2 = 0
  · rw [if_pos hnone] at hlast
    cases hlast
  · rw [if_neg hnone, Option.some.injEq] at hlast
    split at hlast
    · cases hlast
    · exact hde (Option.some.inj hlast)

end Concat

/-! ## Where the readers agree -/

/-- The runs both readers take for the same symbols. -/
def Alike (d : α) (r : Nat × Option α) : Prop :=
  r.1 = 0 ∨ if r.2 = some d then r.1 = 1 else r.1 = 2 ∨ r.1 = 3

instance (d : α) (r : Nat × Option α) : Decidable (Alike d r) := by
  unfold Alike
  infer_instance

section Agreement

variable {β : Type} {d e : α}

/-- A list is known by how often it starts with `s` and what comes then. -/
theorem replicate_append_inj {s x y : β} (hx : x ≠ s) (hy : y ≠ s) {m n : Nat} {l l' : List β} :
    List.replicate m s ++ x :: l = List.replicate n s ++ y :: l' ↔ m = n ∧ x = y ∧ l = l' := by
  induction m generalizing n with
  | zero =>
    cases n with
    | zero => simp
    | succ n => simp [List.replicate_succ, hx]
  | succ m ih =>
    cases n with
    | zero => simp [List.replicate_succ, Ne.symm hy]
    | succ n => simp [List.replicate_succ, ih]

/-- One run and what is read after it. -/
theorem skipped_append_eq_iff (hde : d ≠ e) {n : Nat} {c : α} (hc : c ≠ e)
    {l l' : List (Option α)} :
    skipped d e (n, some c) ++ l = remembered d e (n, some c) ++ l' ↔ Alike d (n, some c) ∧
    l = l' := by
  unfold skipped remembered Alike
  by_cases hcd : c = d
  · subst hcd
    have hskip : (if n % 2 = 0 then none else some c) ≠ some e := by
      split
      · exact Option.some_ne_none e |>.symm
      · exact fun h => hde (Option.some.inj h)
    have hremember : (if n = 0 then none else some c) ≠ some e := by
      split
      · exact Option.some_ne_none e |>.symm
      · exact fun h => hde (Option.some.inj h)
    simp only [if_true, true_and, List.append_assoc, List.singleton_append]
    rw [replicate_append_inj hskip hremember, ← and_assoc]
    refine and_congr_left fun _ => ?_
    by_cases hn : n % 2 = 0 <;> by_cases hz : n = 0 <;> simp [hn, hz] <;> omega
  · have hsome : (some c : Option α) ≠ some e := fun h => hc (Option.some.inj h)
    simp only [hcd, false_and, if_false, Option.some.injEq, List.append_assoc,
      List.singleton_append]
    rw [replicate_append_inj hsome hsome, ← and_assoc]
    refine and_congr_left fun _ => ?_
    rw [and_iff_left rfl]
    omega

theorem flatMap_skipped_eq_iff (hde : d ≠ e) (n : Nat) (l : List α) :
    (runs e n l).flatMap (skipped d e) = (runs e n l).flatMap (remembered d e) ↔
      ∀ r ∈ runs e n l, Alike d r := by
  induction l generalizing n with
  | nil =>
    have hlen : ∀ i j, List.replicate i (some e) = List.replicate j (some e) ↔ i = j :=
      fun i j => ⟨fun h => by simpa using congrArg List.length h, fun h => h ▸ rfl⟩
    simp only [runs, List.flatMap_singleton, List.mem_singleton, forall_eq]
    unfold skipped remembered Alike
    rw [hlen, if_neg (by simp)]
    omega
  | cons c l ih =>
    rw [runs]
    by_cases hc : c = e
    · rw [if_pos hc]
      exact ih (n + 1)
    · rw [if_neg hc, List.flatMap_cons, List.flatMap_cons, skipped_append_eq_iff hde hc, ih,
        List.forall_mem_cons]

/-- The readers agree on a text exactly when they agree on each of its runs. -/
theorem unescape_eq_remember_iff (hde : d ≠ e) (l : List α) :
    unescape d e l = remember d e false l ↔ ∀ r ∈ runs e 0 l, Alike d r := by
  have hskip := unescape_eq_runs hde 0 l
  have hremember := remember_eq_runs hde 0 l
  rw [List.replicate_zero, List.nil_append] at hskip hremember
  rw [hskip, hremember]
  exact flatMap_skipped_eq_iff hde 0 l

end Agreement

end DistroDefender.Lib.Escape
