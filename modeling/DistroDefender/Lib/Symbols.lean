import Mathlib.Data.List.Basic

/-!
# Symbols of a text

A text with separators is a list of symbols: a separator (`none`) or a character. Its pieces and its
symbols determine one another (`pieces_inj`, `pieces_join`). Two characters side by side are an
infix `[a, b]`.
-/

namespace DistroDefender.Lib.Escape

variable {α : Type}

/-! ## Symbols and pieces -/

/-- The lists between the separators; `cur` is what was read since the last one. -/
def piecesFrom : List α → List (Option α) → List (List α)
  | cur, [] => [cur]
  | cur, none :: l => cur :: piecesFrom [] l
  | cur, some a :: l => piecesFrom (cur ++ [a]) l

def pieces (l : List (Option α)) : List (List α) := piecesFrom [] l

/-- The symbols of lists with separators between them. -/
def join : List (List α) → List (Option α)
  | [] => []
  | [p] => p.map some
  | p :: q :: ps => p.map some ++ none :: join (q :: ps)

theorem piecesFrom_ne_nil (cur : List α) (l : List (Option α)) : piecesFrom cur l ≠ [] := by
  induction l generalizing cur with
  | nil => exact List.cons_ne_nil _ _
  | cons s l ih =>
    cases s with
    | none => exact List.cons_ne_nil _ _
    | some a => exact ih _

theorem pieces_ne_nil (l : List (Option α)) : pieces l ≠ [] := piecesFrom_ne_nil [] l

theorem join_cons {p : List α} {ps : List (List α)} (h : ps ≠ []) :
    join (p :: ps) = p.map some ++ none :: join ps := by
  cases ps with
  | nil => exact absurd rfl h
  | cons q ps => rfl

theorem join_piecesFrom (cur : List α) (l : List (Option α)) :
    join (piecesFrom cur l) = cur.map some ++ l := by
  induction l generalizing cur with
  | nil => simp [piecesFrom, join]
  | cons s l ih =>
    cases s with
    | none => rw [piecesFrom, join_cons (piecesFrom_ne_nil _ _), ih, List.map_nil, List.nil_append]
    | some a => rw [piecesFrom, ih, List.map_append, List.append_assoc]; rfl

@[simp] theorem join_pieces (l : List (Option α)) : join (pieces l) = l := by
  rw [pieces, join_piecesFrom, List.map_nil, List.nil_append]

theorem some_mem_join {x : α} {ts : List (List α)} : some x ∈ join ts ↔ ∃ t ∈ ts, x ∈ t := by
  induction ts with
  | nil => simp [join]
  | cons t ts ih =>
    cases ts with
    | nil => simp [join]
    | cons t' ts =>
      rw [join, List.mem_append, List.mem_cons, ih]
      simp

theorem piecesFrom_some_append (cur p : List α) (l : List (Option α)) :
    piecesFrom cur (p.map some ++ l) = piecesFrom (cur ++ p) l := by
  induction p generalizing cur with
  | nil => rw [List.map_nil, List.nil_append, List.append_nil]
  | cons a p ih =>
    rw [List.map_cons, List.cons_append, piecesFrom, ih, List.append_assoc, List.singleton_append]

theorem pieces_join {ps : List (List α)} (h : ps ≠ []) : pieces (join ps) = ps := by
  induction ps with
  | nil => exact absurd rfl h
  | cons p ps ih =>
    unfold pieces
    cases ps with
    | nil =>
      have hpieces := piecesFrom_some_append [] p []
      rw [List.append_nil] at hpieces
      rw [join, hpieces, piecesFrom, List.nil_append]
    | cons q ps =>
      rw [join, piecesFrom_some_append, List.nil_append, piecesFrom]
      exact congrArg (p :: ·) (ih (List.cons_ne_nil q ps))

theorem piecesFrom_append_none (cur : List α) (l l' : List (Option α)) :
    piecesFrom cur (l ++ none :: l') = piecesFrom cur l ++ pieces l' := by
  induction l generalizing cur with
  | nil => rfl
  | cons s l ih =>
    cases s with
    | none => rw [List.cons_append, piecesFrom, ih, piecesFrom, List.cons_append]
    | some a => rw [List.cons_append, piecesFrom, ih, piecesFrom]

/-- The last piece is empty after a separator only. -/
theorem getLast?_pieces {l : List (Option α)} (h : (pieces l).getLast? = some []) :
    l = [] ∨ ∃ l', l = l' ++ [none] := by
  have hsome : ∀ (cur : List α) (l : List (Option α)) (a : α),
      (piecesFrom cur (l ++ [some a])).getLast? ≠ some [] := by
    intro cur l a
    induction l generalizing cur with
    | nil => simp [piecesFrom]
    | cons s l ih =>
      cases s with
      | none =>
        rw [List.cons_append, piecesFrom]
        cases hps : piecesFrom [] (l ++ [some a]) with
        | nil => exact absurd hps (piecesFrom_ne_nil _ _)
        | cons p ps =>
          rw [List.getLast?_cons_cons, ← hps]
          exact ih []
      | some b =>
        rw [List.cons_append, piecesFrom]
        exact ih (cur ++ [b])
  rcases List.eq_nil_or_concat l with hnil | ⟨l', s, hl⟩
  · exact .inl hnil
  · rw [List.concat_eq_append] at hl
    cases s with
    | none => exact .inr ⟨l', hl⟩
    | some a =>
      rw [hl] at h
      exact absurd h (hsome [] l' a)

/-- The first piece is empty before a separator only. -/
theorem head?_pieces {l : List (Option α)} (h : (pieces l).head? = some []) : l = [] ∨
    l.head? = some none := by
  have hsome : ∀ (cur : List α) (l : List (Option α)), cur ≠ [] →
      (piecesFrom cur l).head? ≠ some [] := by
    intro cur l hcur
    induction l generalizing cur with
    | nil => simpa [piecesFrom] using hcur
    | cons s l ih =>
      cases s with
      | none => simpa [piecesFrom] using hcur
      | some a => exact ih (cur ++ [a]) (by simp)
  cases l with
  | nil => exact .inl rfl
  | cons s l =>
    cases s with
    | none => exact .inr rfl
    | some a => exact absurd h (hsome [a] l (List.cons_ne_nil a []))

theorem pieces_inj {l l' : List (Option α)} : pieces l = pieces l' ↔ l = l' := by
  constructor
  · intro h
    rw [← join_pieces l, h, join_pieces]
  · intro h
    rw [h]

/-- The text of symbols when the separator is written `d`. -/
def flat (d : α) (l : List (Option α)) : List α := l.map (·.getD d)

@[simp] theorem flat_map_some (d : α) (p : List α) : flat d (p.map some) = p := by
  unfold flat
  rw [List.map_map]
  exact List.map_id p

@[simp] theorem flat_append (d : α) (l l' : List (Option α)) :
    flat d (l ++ l') = flat d l ++ flat d l' :=
  List.map_append

@[simp] theorem flat_cons_none (d : α) (l : List (Option α)) :
    flat d (none :: l) = d :: flat d l := rfl

theorem flat_join (d : α) (ps : List (List α)) : flat d (join ps) = [d].intercalate ps := by
  induction ps with
  | nil => rfl
  | cons p ps ih =>
    cases ps with
    | nil => rw [join, flat_map_some, List.intercalate_singleton]
    | cons q ps =>
      rw [join, List.intercalate_cons_cons, ← ih]
      simp

/-- A separator weighs less than a character. -/
def weight (l : List (Option α)) : Nat := l.length + l.countP Option.isSome

@[simp] theorem weight_nil : weight ([] : List (Option α)) = 0 := rfl

theorem weight_cons (s : Option α) (l : List (Option α)) :
    weight (s :: l) = (if s = none then 1 else 2) + weight l := by
  unfold weight
  rw [List.length_cons, List.countP_cons]
  cases s with
  | none =>
    simp only [Option.isSome_none, Bool.false_eq_true, if_false, if_true]
    omega
  | some c =>
    simp only [Option.isSome_some, if_true, reduceCtorEq, if_false]
    omega

theorem weight_append (l l' : List (Option α)) : weight (l ++ l') = weight l + weight l' := by
  unfold weight
  rw [List.length_append, List.countP_append]
  omega

theorem weight_replicate (n : Nat) (c : α) : weight (List.replicate n (some c)) = 2 * n := by
  unfold weight
  rw [List.length_replicate, List.countP_replicate, if_pos (Option.isSome_some)]
  omega

theorem weight_flatMap {β : Type} {rs : List β} {f g : β → List (Option α)}
    (hle : ∀ r ∈ rs, weight (f r) ≤ weight (g r)) :
    weight (rs.flatMap f) ≤ weight (rs.flatMap g) ∧
      (weight (rs.flatMap f) = weight (rs.flatMap g) → ∀ r ∈ rs, weight (f r) = weight (g r)) := by
  induction rs with
  | nil => simp
  | cons r rs ih =>
    obtain ⟨hr, hrs⟩ := List.forall_mem_cons.mp hle
    obtain ⟨hsum, heq⟩ := ih hrs
    rw [List.flatMap_cons, List.flatMap_cons, weight_append, weight_append]
    refine ⟨by omega, fun h => ?_⟩
    rw [List.forall_mem_cons]
    exact ⟨by omega, heq (by omega)⟩

/-! ## Pairs -/

theorem pair_infix_cons {a b x : α} {l : List α} :
    [a, b] <:+: x :: l ↔ (x = a ∧ l.head? = some b) ∨ [a, b] <:+: l := by
  rw [List.infix_cons_iff]
  refine or_congr_left ?_
  cases l with
  | nil => simp
  | cons y l => simp [List.cons_prefix_cons, eq_comm]

theorem not_pair_infix_short {a b : α} {l : List α} (h : l.length < 2) : ¬ [a, b] <:+: l := by
  intro hinfix
  have hlen := hinfix.length_le
  simp only [List.length_cons, List.length_nil] at hlen
  omega

theorem pair_infix_append_cons {d x y : α} {p l : List α} : [x, y] <:+: p ++ d :: l ↔
    [x, y] <:+: p ∨ (p.getLast? = some x ∧ y = d) ∨ (x = d ∧ l.head? = some y) ∨ [x, y] <:+: l := by
  induction p with
  | nil =>
    rw [List.nil_append, pair_infix_cons]
    simp [eq_comm (a := d)]
  | cons z p ih =>
    rw [List.cons_append, pair_infix_cons, ih, pair_infix_cons]
    cases p with
    | nil => simp [eq_comm (a := d)]
    | cons z' p => simp [or_assoc]

/-- A pair without the delimiter stands within one of the lists. -/
theorem pair_infix_intercalate {d x y : α} (hx : x ≠ d) (hy : y ≠ d) {ts : List (List α)} :
    [x, y] <:+: [d].intercalate ts ↔ ∃ t ∈ ts, [x, y] <:+: t := by
  induction ts with
  | nil => simp
  | cons t ts ih =>
    cases ts with
    | nil => simp
    | cons t' ts =>
      rw [List.intercalate_cons_cons, List.append_assoc, List.singleton_append,
        pair_infix_append_cons, ih]
      simp [hx, hy]

/-- A character stands before a delimiter at the end of every list but the last. -/
theorem last_infix_intercalate {d x : α} (hx : x ≠ d) {ts : List (List α)} (hts : ∀ t ∈ ts, d ∉ t) :
    [x, d] <:+: [d].intercalate ts ↔ ∃ t ∈ ts.dropLast, t.getLast? = some x := by
  induction ts with
  | nil => simp
  | cons t ts ih =>
    obtain ⟨ht, hts'⟩ := List.forall_mem_cons.mp hts
    have hin : ¬ [x, d] <:+: t := fun h => ht (h.subset (by simp))
    cases ts with
    | nil => simpa using hin
    | cons t' ts =>
      rw [List.intercalate_cons_cons, List.append_assoc, List.singleton_append,
        pair_infix_append_cons, ih hts']
      simp [hx, hin]

variable [DecidableEq α]

/-- Every delimiter separates. -/
def plain (d : α) (l : List α) : List (Option α) := l.map fun c => if c = d then none else some c

theorem plain_flat {d : α} {l : List (Option α)} (h : some d ∉ l) : plain d (flat d l) = l := by
  unfold plain flat
  rw [List.map_map]
  conv => rhs; rw [← List.map_id l]
  apply List.map_congr_left
  intro s hs
  cases s with
  | none => simp
  | some a =>
    have ha : a ≠ d := fun e => h (e ▸ hs)
    simp [ha]

theorem flat_plain (d : α) (l : List α) : flat d (plain d l) = l := by
  unfold plain flat
  rw [List.map_map]
  conv => rhs; rw [← List.map_id l]
  apply List.map_congr_left
  intro c _
  by_cases hc : c = d <;> simp [hc]

theorem not_mem_plain (d : α) (l : List α) : some d ∉ plain d l := by
  unfold plain
  intro h
  obtain ⟨c, -, hc⟩ := List.mem_map.mp h
  by_cases hcd : c = d
  · rw [if_pos hcd] at hc
    cases hc
  · rw [if_neg hcd] at hc
    exact hcd (Option.some.inj hc)

/-- No piece has the delimiter. -/
theorem not_mem_of_mem_pieces {d : α} {l p : List α} (hp : p ∈ pieces (plain d l)) : d ∉ p := by
  intro hd
  apply not_mem_plain d l
  rw [← join_pieces (plain d l)]
  exact some_mem_join.mpr ⟨p, hp, hd⟩

/-! ## Substitution -/

/-- From the left, every `a` directly before a `b` becomes `c`, and the `b` goes. -/
def replacePair (a b c : α) : List α → List α
  | [] => []
  | [x] => [x]
  | x :: y :: l =>
    if x = a ∧ y = b then c :: replacePair a b c l else x :: replacePair a b c (y :: l)

/-- The text without one delimiter at its start. -/
def strip (d : α) : List α → List α
  | [] => []
  | c :: l => if c = d then l else c :: l

variable {a b c d : α}

theorem replacePair_cons {x : α} (hx : x ≠ a) (l : List α) :
    replacePair a b c (x :: l) = x :: replacePair a b c l := by
  cases l with
  | nil => rfl
  | cons y l => rw [replacePair, if_neg (fun h => hx h.1)]

theorem replacePair_of_absent : ∀ {l : List α}, ¬ [a, b] <:+: l → replacePair a b c l = l
  | [], _ => rfl
  | [x], _ => rfl
  | x :: y :: l, h => by
    rw [pair_infix_cons, not_or] at h
    rw [replacePair, if_neg (fun hxy => h.1 ⟨hxy.1, congrArg some hxy.2⟩),
      replacePair_of_absent h.2]

theorem head?_replacePair (y : α) (l : List α) :
    (replacePair a b c (y :: l)).head? = some y ∨ (replacePair a b c (y :: l)).head? = some c := by
  cases l with
  | nil => exact .inl rfl
  | cons z l =>
    rw [replacePair]
    split
    · exact .inr rfl
    · exact .inl rfl

theorem getLast?_replacePair {x : α} (hx : x ≠ c) : ∀ {l : List α},
    (replacePair a b c l).getLast? = some x → l.getLast? = some x
  | [], h => h
  | [_], h => h
  | y :: z :: l, h => by
    have ih := getLast?_replacePair hx (l := l)
    have ih' := getLast?_replacePair hx (l := z :: l)
    rw [replacePair] at h
    rw [List.getLast?_cons_cons]
    split at h
    · rw [List.getLast?_cons] at h
      cases hlast : (replacePair a b c l).getLast? with
      | none =>
        rw [hlast] at h
        exact absurd (Option.some.inj h).symm hx
      | some w =>
        rw [hlast] at h
        cases h
        rw [List.getLast?_cons, ih hlast]
        rfl
    · rw [List.getLast?_cons] at h
      cases hlast : (replacePair a b c (z :: l)).getLast? with
      | none =>
        rw [List.getLast?_eq_none_iff] at hlast
        have hhead := head?_replacePair (a := a) (b := b) (c := c) z l
        rw [hlast] at hhead
        rcases hhead with hhead | hhead <;> cases hhead
      | some w =>
        rw [hlast] at h
        cases h
        exact ih' hlast

theorem getLast?_strip {x : α} {l : List α} (h : (strip d l).getLast? = some x) :
    l.getLast? = some x := by
  cases l with
  | nil => exact h
  | cons y l =>
    rw [strip] at h
    split at h
    · rw [List.getLast?_cons, h]
      rfl
    · exact h

/-- A pair does not reach over a character that is in neither place. -/
theorem replacePair_append_cons {x : α} (ha : x ≠ a) (hb : x ≠ b) : ∀ p l : List α,
    replacePair a b c (p ++ x :: l) = replacePair a b c p ++ x :: replacePair a b c l
  | [], l => replacePair_cons ha l
  | [y], l => by
    rw [List.singleton_append, replacePair.eq_def]
    dsimp only
    rw [if_neg (fun h => hb h.2), replacePair_cons ha]
    rfl
  | y :: z :: p, l => by
    have ih := replacePair_append_cons ha hb p l
    have ih' := replacePair_append_cons ha hb (z :: p) l
    rw [List.cons_append, List.cons_append, replacePair, replacePair]
    split
    · rw [ih]
      rfl
    · rw [← List.cons_append, ih']
      rfl

theorem replacePair_intercalate {x : α} (ha : x ≠ a) (hb : x ≠ b) (ts : List (List α)) :
    replacePair a b c ([x].intercalate ts) = [x].intercalate (ts.map (replacePair a b c)) := by
  induction ts with
  | nil => rfl
  | cons t ts ih =>
    cases ts with
    | nil => simp
    | cons t' ts =>
      rw [List.intercalate_cons_cons, List.append_assoc, List.singleton_append,
        replacePair_append_cons ha hb, ih]
      simp [List.intercalate_cons_cons]

theorem length_replacePair : ∀ l : List α, (replacePair a b c l).length ≤ l.length ∧
    ((replacePair a b c l).length = l.length → ¬ [a, b] <:+: l)
  | [] => ⟨Nat.le_refl _, fun _ => not_pair_infix_short (by simp)⟩
  | [x] => ⟨Nat.le_refl _, fun _ => not_pair_infix_short (by simp)⟩
  | x :: y :: l => by
    rw [replacePair]
    by_cases hxy : x = a ∧ y = b
    · have ih := (length_replacePair l).1
      rw [if_pos hxy]
      simp only [List.length_cons]
      exact ⟨by omega, fun h => by omega⟩
    · have ih := length_replacePair (y :: l)
      rw [if_neg hxy, pair_infix_cons, List.length_cons, List.length_cons]
      refine ⟨by omega, fun h => ?_⟩
      rw [not_or]
      refine ⟨fun hpair => hxy ⟨hpair.1, ?_⟩, ih.2 (by omega)⟩
      simpa using hpair.2

theorem length_strip (l : List α) :
    (strip d l).length ≤ l.length ∧ ((strip d l).length = l.length → strip d l = l) := by
  cases l with
  | nil => exact ⟨Nat.le_refl _, fun _ => rfl⟩
  | cons x l =>
    by_cases hx : x = d <;> simp [strip, hx]

theorem strip_of_head? {l : List α} (h : l.head? ≠ some d) : strip d l = l := by
  cases l with
  | nil => rfl
  | cons x l => exact if_neg fun hx => h (congrArg some hx)

end DistroDefender.Lib.Escape
