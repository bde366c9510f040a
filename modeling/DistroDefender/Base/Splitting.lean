import DistroDefender.Base.StringUtils
import DistroDefender.Lib.Escape

/-!
# Splitting and joining

`split` and `splitEscaped` cut a text at the separators among its symbols, `split` without an empty
piece at the end. `splitEscaped` gives back what was joined with escapes (`splitEscaped_inverts`).
-/

namespace DistroDefender.Base

open Lib.Escape

/-! ## Pieces -/

theorem ofList_map_inj {ps qs : List (List Char)} : ps.map String.ofList = qs.map String.ofList ↔
    ps = qs := by
  constructor
  · intro h
    have hlists := congrArg (List.map String.toList) h
    simpa using hlists
  · intro h
    rw [h]

theorem splitEscapedLoop_eq (d e : Char) : ∀ cur cs : List Char,
    splitEscapedLoop d e cur cs = (piecesFrom cur (unescape d e cs)).map String.ofList
  | cur, [] => rfl
  | cur, [c] => by
    rw [splitEscapedLoop, unescape]
    split <;> rfl
  | cur, c :: next :: rest => by
    have hrest := fun cur => splitEscapedLoop_eq d e cur rest
    have hnext := fun cur => splitEscapedLoop_eq d e cur (next :: rest)
    rw [splitEscapedLoop, unescape]
    by_cases hc : c = e
    · rw [if_pos hc, if_pos hc]
      split
      · exact hrest _
      · exact hnext _
    · rw [if_neg hc, if_neg hc]
      split
      · rw [hnext]
        rfl
      · exact hnext _

theorem splitEscaped_eq (input : String) (d e : Char) :
    splitEscaped input d e = (pieces (unescape d e input.toList)).map String.ofList :=
  splitEscapedLoop_eq d e [] input.toList

/-- The list without an empty one at its end. -/
def dropEmptyLast (ps : List (List Char)) : List (List Char) :=
  if ps.getLast? = some [] then ps.dropLast else ps

theorem splitLoop_eq (delim : Char) (cur cs : List Char) :
    splitLoop delim cur cs =
      (dropEmptyLast (piecesFrom cur (plain delim cs))).map String.ofList := by
  induction cs generalizing cur with
  | nil =>
    unfold splitLoop dropEmptyLast
    by_cases hcur : cur = [] <;> simp [plain, piecesFrom, hcur]
  | cons c cs ih =>
    rw [splitLoop]
    by_cases hc : c = delim
    · have hplain : plain delim (c :: cs) = none :: plain delim cs := by simp [plain, hc]
      rw [if_pos hc, ih, hplain, piecesFrom]
      cases hps : piecesFrom [] (plain delim cs) with
      | nil => exact absurd hps (piecesFrom_ne_nil _ _)
      | cons p ps =>
        unfold dropEmptyLast
        rw [List.getLast?_cons_cons]
        split <;> simp
    · have hplain : plain delim (c :: cs) = some c :: plain delim cs := by simp [plain, hc]
      rw [if_neg hc, ih, hplain, piecesFrom]

/-- A delimiter at the start is dropped. -/
theorem split_eq (s : String) (delim : Char) :
    split s delim = splitLoop delim [] (strip delim s.toList) := by
  unfold split
  cases s.toList with
  | nil => rfl
  | cons c cs => rw [strip]

theorem split_of_head? {s : String} {delim : Char} (h : s.toList.head? ≠ some delim) :
    split s delim = splitLoop delim [] s.toList := by
  rw [split_eq, strip_of_head? h]

/-- A list cut at the delimiters. -/
theorem pieces_plain (delim : Char) (cs : List Char) :
    pieces (plain delim cs) = cs.splitOn delim := by
  have hjoin : [delim].intercalate (pieces (plain delim cs)) = cs := by
    rw [← flat_join, join_pieces, flat_plain]
  have hsplit := List.splitOn_intercalate delim (fun p hp => not_mem_of_mem_pieces hp)
    (pieces_ne_nil (plain delim cs))
  rw [hjoin] at hsplit
  exact hsplit.symm

/-! ## Joining with escapes -/

/-- The parts with `escape` before every `escape` and separator in them, and separators between. -/
def joinEscaped (parts : List String) (splitChar escape : Char) : String :=
  String.ofList
    ([splitChar].intercalate (parts.map fun part => escaped splitChar escape part.toList))

theorem splitEscaped_joinEscaped {parts : List String} (h : parts ≠ []) {d e : Char} (hde : d ≠ e) :
    splitEscaped (joinEscaped parts d e) d e = parts := by
  have hlists : parts.map (fun part => escaped d e part.toList) =
      (parts.map String.toList).map (escaped d e) :=
    (List.map_map).symm
  have hne : parts.map String.toList ≠ [] := by simpa using h
  unfold joinEscaped
  rw [splitEscaped_eq, String.toList_ofList, hlists, unescape_intercalate_escaped hde,
    pieces_join hne]
  simp

theorem splitEscaped_ne_nil (input : String) (d e : Char) : splitEscaped input d e ≠ [] := by
  rw [splitEscaped_eq]
  exact fun h => pieces_ne_nil _ (List.map_eq_nil_iff.mp h)

/-- What was joined with escapes is split as it was, and a text that was split and joined again is
split as before. -/
theorem splitEscaped_inverts (splitChar escape : Char) (h : splitChar ≠ escape) :
    (∀ parts, parts ≠ [] →
      splitEscaped (joinEscaped parts splitChar escape) splitChar escape = parts) ∧
    ∀ input,
      splitEscaped (joinEscaped (splitEscaped input splitChar escape) splitChar escape)
        splitChar escape = splitEscaped input splitChar escape :=
  ⟨fun _ hparts => splitEscaped_joinEscaped hparts h,
    fun input => splitEscaped_joinEscaped (splitEscaped_ne_nil input splitChar escape) h⟩

/-- A comma, and a backslash. -/
theorem splitEscaped_inverts_comma :
    (∀ parts, parts ≠ [] →
      splitEscaped (joinEscaped parts ',' (Char.ofNat 92)) ',' (Char.ofNat 92) = parts) ∧
      ∀ input, splitEscaped
        (joinEscaped (splitEscaped input ',' (Char.ofNat 92)) ',' (Char.ofNat 92)) ','
        (Char.ofNat 92) = splitEscaped input ',' (Char.ofNat 92) :=
  splitEscaped_inverts ',' (Char.ofNat 92) (by decide)

end DistroDefender.Base
