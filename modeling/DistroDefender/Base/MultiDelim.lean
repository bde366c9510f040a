import DistroDefender.Base.StringUtils
import DistroDefender.Lib.Runs
import Mathlib.Data.List.Nodup

/-!
# Splitting at several delimiters

`splitMultiDelim` keeps the place where the pending token began. Its tokens are the runs of the text
between the delimiters and the delimiters that are kept, in the order of their places
(`splitMultiDelim_spans`).
-/

namespace DistroDefender.Base

open Lib.Runs

/-- `Delimiter`: a character, and whether it is kept in the output. -/
abbrev Delimiter := Char × Bool

/-- `std::string_view::substr`. -/
def substr (str : List Char) (pos count : Nat) : String := .ofList ((str.drop pos).take count)

/-- The loop over the delimiters at the character `c` in place `i`. It breaks at the first that is
this character. -/
def delimLoop (str : List Char) (i : Nat) (c : Char) : List Delimiter → Nat → List String →
    Nat × List String
  | [], last, ret => (last, ret)
  | (delimChar, keepInOutput) :: delimList, last, ret =>
    if c = delimChar then
      let ret := if i > last then ret ++ [substr str last (i - last)] else ret
      let ret := if keepInOutput then ret ++ [String.ofList [delimChar]] else ret
      (i + 1, ret)
    else delimLoop str i c delimList last ret

/-- The loop over the characters from place `i` on. -/
def charLoop (str : List Char) (delimList : List Delimiter) :
    List Char → Nat → Nat → List String → Nat × List String
  | [], _, last, ret => (last, ret)
  | c :: cs, i, last, ret =>
    let (last, ret) := delimLoop str i c delimList last ret
    charLoop str delimList cs (i + 1) last ret

def splitMultiDelim (str : String) (delimList : List Delimiter) : List String :=
  let (last, ret) := charLoop str.toList delimList str.toList 0 0 []
  if last < str.toList.length then ret ++ [substr str.toList last (str.toList.length - last)]
  else ret

/-! ## Tokens -/

/-- The character is that of a delimiter. -/
def IsDelim (delimList : List Delimiter) (c : Char) : Prop := c ∈ delimList.map Prod.fst

/-- A maximal run of characters that are no delimiters, or one delimiter that is kept. -/
inductive Token (delimList : List Delimiter) (str : List Char) : Nat → Nat → Prop
  | run {a b : Nat} (h : IsRun (IsDelim delimList) str a b) : Token delimList str a b
  | kept {i : Nat} {c : Char} (hc : str[i]? = some c) (h : (c, true) ∈ delimList) :
      Token delimList str i (i + 1)

/-- The text of a token. -/
def span (str : List Char) (s : Nat × Nat) : String := substr str s.1 (s.2 - s.1)

section

variable {delimList : List Delimiter} {str : List Char} {i last a b : Nat} {c : Char}
  {ret : List String} {spans : List (Nat × Nat)}

theorem Token.lt (h : Token delimList str a b) : a < b := by
  cases h with
  | run h => exact h.nonempty
  | kept _ _ => exact Nat.lt_succ_self a

theorem Token.le_length (h : Token delimList str a b) : b ≤ str.length := by
  cases h with
  | run h => exact h.within
  | kept hc _ => exact Stretch.lt_length hc

/-- A token that ends behind a stretch's first place, where this stops, is the stretch. -/
theorem token_iff_of_stretch (h : Stretch (IsDelim delimList) str last i)
    (hstops : Stops (IsDelim delimList) str i) (hb : last < b) (hbi : b ≤ i) :
    Token delimList str a b ↔ a = last ∧ b = i := by
  rw [← h.isRun_iff hstops hb hbi]
  refine ⟨fun htoken => ?_, .run⟩
  cases htoken with
  | run hrun => exact hrun
  | kept hc hmem =>
    -- there is no delimiter in the stretch
    have hdelim : IsDelim delimList _ := List.mem_map_of_mem hmem
    exact absurd hdelim (h.free _ _ (Nat.le_of_lt_succ hb) hbi hc)

/-- A token that ends right behind a delimiter is this delimiter, kept. -/
theorem token_iff_of_delim (hc : str[i]? = some c) (hdelim : IsDelim delimList c) :
    Token delimList str a (i + 1) ↔ a = i ∧ (c, true) ∈ delimList := by
  constructor
  · intro htoken
    cases htoken with
    | run hrun =>
      exact absurd hdelim (hrun.free i c (Nat.le_of_lt_succ hrun.nonempty) (Nat.lt_succ_self i) hc)
    | kept hc' hmem =>
      cases hc.symm.trans hc'
      exact ⟨rfl, hmem⟩
  · rintro ⟨rfl, hmem⟩
    exact .kept hc hmem

/-! ## The loops -/

/-- `ret` has the texts of the tokens that end up to `last`. -/
structure Spans (delimList : List Delimiter) (str : List Char) (last : Nat) (ret : List String)
    (spans : List (Nat × Nat)) : Prop where
  texts : ret = spans.map (span str)
  ordered : spans.Pairwise fun s t => s.2 ≤ t.1
  tokens : ∀ a b, (a, b) ∈ spans ↔ Token delimList str a b ∧ b ≤ last
  /-- Nothing is lost of the text while all delimiters are kept. -/
  joined : (∀ d ∈ delimList, d.2 = true) → (String.join ret).toList = str.take last

theorem spans_nil (delimList : List Delimiter) (str : List Char) : Spans delimList str 0 [] [] where
  texts := rfl
  ordered := .nil
  tokens a b := by
    refine iff_of_false List.not_mem_nil fun h => ?_
    have hlt := h.1.lt
    omega
  joined _ := rfl

theorem Spans.concat (h : Spans delimList str last ret spans) {s : Nat × Nat} (hs : last ≤ s.1)
    (htokens : ∀ a b, Token delimList str a b ∧ b ≤ i ↔ Token delimList str a b ∧ b ≤ last ∨
      (a, b) = s)
    (hjoined : (∀ d ∈ delimList, d.2 = true) → str.take last ++ (span str s).toList = str.take i) :
    Spans delimList str i (ret ++ [span str s]) (spans ++ [s]) where
  texts := by rw [h.texts, List.map_append, List.map_singleton]
  ordered := by
    rw [List.pairwise_append]
    refine ⟨h.ordered, List.pairwise_singleton _ _, fun t ht s' hs' => ?_⟩
    rw [List.mem_singleton.mp hs']
    exact ((h.tokens t.1 t.2).mp ht).2.trans hs
  tokens a b := by rw [List.mem_append, List.mem_singleton, h.tokens, htokens]
  joined hkept := by
    rw [String.join_append, String.toList_append, h.joined hkept, String.join_cons, String.join_nil,
      String.append_empty, hjoined hkept]

/-- The pending token is put out where the stretch stops. -/
theorem Spans.pending (h : Spans delimList str last ret spans)
    (hstretch : Stretch (IsDelim delimList) str last i) (hstops : Stops (IsDelim delimList) str i) :
    ∃ spans', Spans delimList str i (if i > last then ret ++ [substr str last (i - last)]
      else ret) spans' := by
  have hle := hstretch.le
  split
  · rename_i hlt
    refine ⟨_, h.concat (s := (last, i)) (Nat.le_refl _) (fun a b => ?_) fun _ => ?_⟩
    · by_cases hb : last < b
      · by_cases hbi : b ≤ i
        · rw [token_iff_of_stretch hstretch hstops hb hbi]
          simp [Nat.not_le_of_lt hb, hbi]
        · have hne : b ≠ i := by omega
          simp [Nat.not_le_of_lt hb, hbi, hne]
      · have hbl : b ≤ last := Nat.le_of_not_lt hb
        have hne : b ≠ i := by omega
        simp [hbl, Nat.le_trans hbl hle, hne]
    · have htake : str.take i = str.take last ++ (str.drop last).take (i - last) := by
        rw [← List.take_add, Nat.add_sub_cancel' hle]
      rw [htake, span, substr, String.toList_ofList]
  · rename_i hlt
    have hsame : i = last := by omega
    rw [hsame]
    exact ⟨spans, h⟩

/-- A delimiter is put out if it is kept. -/
theorem Spans.delim (h : Spans delimList str i ret spans) (hnodup : (delimList.map Prod.fst).Nodup)
    (hc : str[i]? = some c) {keep : Bool} (hmem : (c, keep) ∈ delimList) :
    ∃ spans', Spans delimList str (i + 1) (if keep then ret ++ [String.ofList [c]]
      else ret) spans' := by
  have hdelim : IsDelim delimList c := List.mem_map_of_mem hmem
  have hkeep : (c, true) ∈ delimList ↔ keep = true := by
    constructor
    · intro htrue
      exact congrArg Prod.snd (List.inj_on_of_nodup_map hnodup hmem htrue rfl)
    · rintro rfl
      exact hmem
  have hnext : ∀ a b, Token delimList str a b ∧ b ≤ i + 1 ↔
      Token delimList str a b ∧ b ≤ i ∨ (a = i ∧ b = i + 1 ∧ keep = true) := by
    intro a b
    by_cases hb : b = i + 1
    · subst hb
      have hnot : ¬ i + 1 ≤ i := Nat.not_succ_le_self i
      rw [token_iff_of_delim hc hdelim, hkeep]
      simp only [hnot, Nat.le_refl, and_true, and_false, false_or, true_and]
    · have hle : b ≤ i + 1 ↔ b ≤ i := by omega
      simp [hb, hle]
  have hone : (str.drop i).take 1 = [c] := by
    rw [List.take_one, List.head?_drop, hc]
    rfl
  split
  · rename_i hk
    have hspan : String.ofList [c] = span str (i, i + 1) := by
      rw [span, substr, Nat.add_sub_cancel_left, hone]
    rw [hspan]
    refine ⟨_, h.concat (Nat.le_refl i) (fun a b => ?_) fun _ => ?_⟩
    · rw [hnext, Prod.mk.injEq]
      simp [hk]
    · rw [List.take_add, hone, ← hspan, String.toList_ofList]
  · rename_i hk
    refine ⟨spans, h.texts, h.ordered, fun a b => ?_, fun hall => absurd (hall _ hmem) hk⟩
    rw [h.tokens, hnext]
    simp [hk]

theorem delimLoop_of_not_delim (h : ¬ IsDelim delimList c) :
    delimLoop str i c delimList last ret = (last, ret) := by
  induction delimList with
  | nil => rfl
  | cons d delimList ih =>
    unfold IsDelim at h
    rw [List.map_cons, List.mem_cons, not_or] at h
    rw [delimLoop, if_neg h.1]
    exact ih h.2

theorem delimLoop_of_mem (hnodup : (delimList.map Prod.fst).Nodup) {keep : Bool}
    (hmem : (c, keep) ∈ delimList) : delimLoop str i c delimList last ret =
      (i + 1,
        if keep then (if i > last then ret ++ [substr str last (i - last)] else ret) ++
          [String.ofList [c]]
        else if i > last then ret ++ [substr str last (i - last)] else ret) := by
  induction delimList with
  | nil => cases hmem
  | cons d delimList ih =>
    rw [List.map_cons, List.nodup_cons] at hnodup
    rw [delimLoop]
    rcases List.mem_cons.mp hmem with rfl | hmem
    · rw [if_pos rfl]
    · have hne : c ≠ d.1 := by
        intro heq
        apply hnodup.1
        rw [← heq]
        exact List.mem_map_of_mem hmem
      rw [if_neg hne]
      exact ih hnodup.2 hmem

/-- One character: the stretch goes on, or the tokens up to the delimiter are put out and a new one
begins. -/
theorem delimLoop_spans (hnodup : (delimList.map Prod.fst).Nodup)
    (hstretch : Stretch (IsDelim delimList) str last i) (h : Spans delimList str last ret spans)
    (hc : str[i]? = some c) :
    ∃ last' ret' spans', delimLoop str i c delimList last ret = (last', ret') ∧
      Stretch (IsDelim delimList) str last' (i + 1) ∧ Spans delimList str last' ret' spans' := by
  by_cases hdelim : IsDelim delimList c
  · obtain ⟨⟨c', keep⟩, hmem, rfl⟩ := List.mem_map.mp hdelim
    obtain ⟨spans₁, h₁⟩ := h.pending hstretch (.inr ⟨_, hc, hdelim⟩)
    obtain ⟨spans₂, h₂⟩ := h₁.delim hnodup hc hmem
    exact ⟨_, _, spans₂, delimLoop_of_mem hnodup hmem, .restart hc hdelim, h₂⟩
  · exact ⟨last, ret, spans, delimLoop_of_not_delim hdelim, hstretch.step hc hdelim, h⟩

theorem charLoop_spans (hnodup : (delimList.map Prod.fst).Nodup) {cs : List Char}
    (hcs : str.drop i = cs) (hstretch : Stretch (IsDelim delimList) str last i)
    (h : Spans delimList str last ret spans) :
    ∃ last' ret' spans', charLoop str delimList cs i last ret = (last', ret') ∧
      Stretch (IsDelim delimList) str last' str.length ∧ Spans delimList str last' ret' spans' := by
  induction cs generalizing i last ret spans with
  | nil =>
    have hlen := List.drop_eq_nil_iff.mp hcs
    have hi : i = str.length := Nat.le_antisymm hstretch.within hlen
    exact ⟨last, ret, spans, rfl, hi ▸ hstretch, h⟩
  | cons c cs ih =>
    have hc : str[i]? = some c := by
      rw [← List.head?_drop, hcs]
      rfl
    have hrest : str.drop (i + 1) = cs := by
      rw [← List.drop_drop, hcs]
      rfl
    obtain ⟨last₁, ret₁, spans₁, hloop, hstretch₁, h₁⟩ := delimLoop_spans hnodup hstretch h hc
    obtain ⟨last', ret', spans', hrun, hstretch', h'⟩ := ih hrest hstretch₁ h₁
    refine ⟨last', ret', spans', ?_, hstretch', h'⟩
    rw [charLoop, hloop]
    exact hrun

end

/-! ## All tokens -/

/-- With delimiters of distinct characters the tokens put out are all there are, in the order of
their places; with all delimiters kept they are the whole text. -/
theorem splitMultiDelim_spans (str : String) (delimList : List Delimiter)
    (hnodup : (delimList.map Prod.fst).Nodup) :
    ∃ spans : List (Nat × Nat), splitMultiDelim str delimList = spans.map (span str.toList) ∧
      spans.Pairwise (fun s t => s.2 ≤ t.1) ∧
      (∀ a b, (a, b) ∈ spans ↔ Token delimList str.toList a b) ∧
      ((∀ d ∈ delimList, d.2 = true) → String.join (splitMultiDelim str delimList) = str) := by
  obtain ⟨last, ret, spans, hloop, hstretch, h⟩ :=
    charLoop_spans hnodup List.drop_zero (.zero _ _) (spans_nil delimList str.toList)
  obtain ⟨spans', h'⟩ := h.pending hstretch (.inl rfl)
  have hsplit : splitMultiDelim str delimList =
      if last < str.toList.length then ret ++ [substr str.toList last (str.toList.length - last)]
      else ret := by
    unfold splitMultiDelim
    rw [hloop]
  refine ⟨spans', hsplit.trans h'.texts, h'.ordered, fun a b => ?_, fun hkept => ?_⟩
  · rw [h'.tokens]
    exact and_iff_left_of_imp Token.le_length
  · apply String.toList_injective
    rw [hsplit, h'.joined hkept, List.take_length]

/-- Two delimiters that are kept. -/
theorem splitMultiDelim_spans_kept :
    ∃ spans : List (Nat × Nat),
      splitMultiDelim "by-hand " [('-', true), (' ', true)] = spans.map (span "by-hand ".toList) ∧
      spans.Pairwise (fun s t => s.2 ≤ t.1) ∧
      (∀ a b, (a, b) ∈ spans ↔ Token [('-', true), (' ', true)] "by-hand ".toList a b) ∧
      String.join (splitMultiDelim "by-hand " [('-', true), (' ', true)]) = "by-hand " := by
  obtain ⟨spans, htexts, hordered, htokens, hjoined⟩ :=
    splitMultiDelim_spans "by-hand " [('-', true), (' ', true)] (by decide)
  exact ⟨spans, htexts, hordered, htokens, hjoined (by decide)⟩

example : splitMultiDelim "to split, by-hand" [('-', true), (',', false), (' ', false)] =
    ["to", "split", "by", "-", "hand"] := by decide

end DistroDefender.Base
