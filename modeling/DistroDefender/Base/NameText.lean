import DistroDefender.Base.Name
import DistroDefender.Base.Splitting

/-!
# The texts of names

A name is constructed from a text exactly when the text is 1 to `MAX_PARTS` nonempty parts with
separators between them, and perhaps one more at either end (`ofString_iff`). Its own text is one of
them, so it is read back, and says which name it is.
-/

namespace DistroDefender.Base.Name

open Lib.Escape

/-- A text without one separator at its start and one at its end. -/
def trimmed (name : String) : List Char :=
  let cs := strip SEPARATOR_C name.toList
  if cs.getLast? = some SEPARATOR_C then cs.dropLast else cs

/-- The parts between the separators of a text, when a name can have them. -/
def Spells (name : String) (parts : List String) : Prop :=
  parts = ((trimmed name).splitOn SEPARATOR_C).map String.ofList ∧ parts.length ≤ MAX_PARTS ∧
    "" ∉ parts

/-- The pieces without an empty one at the end are those of the text without a delimiter at its
end. -/
theorem dropEmptyLast_pieces {delim : Char} {cs : List Char} (h : cs ≠ []) :
    dropEmptyLast (pieces (plain delim cs)) =
      (if cs.getLast? = some delim then cs.dropLast else cs).splitOn delim := by
  rw [← pieces_plain]
  by_cases hlast : cs.getLast? = some delim
  · obtain ⟨init, rfl⟩ := List.getLast?_eq_some_iff.mp hlast
    have hpieces : pieces (plain delim (init ++ [delim])) = pieces (plain delim init) ++ [[]] := by
      unfold plain
      rw [List.map_append, List.map_singleton, if_pos rfl, pieces, piecesFrom_append_none]
      rfl
    rw [if_pos hlast, List.dropLast_concat, hpieces, dropEmptyLast, if_pos List.getLast?_concat,
      List.dropLast_concat]
  · have hkeep : (pieces (plain delim cs)).getLast? ≠ some [] := by
      intro hnil
      rcases getLast?_pieces hnil with hplain | ⟨l, hplain⟩
      · exact h (List.map_eq_nil_iff.mp hplain)
      · have hflat := flat_plain delim cs
        rw [hplain, flat_append, flat_cons_none] at hflat
        rw [← hflat] at hlast
        exact hlast List.getLast?_concat
    rw [if_neg hlast, dropEmptyLast, if_neg hkeep]

theorem ofString_iff {name : String} {n : Name} : ofString name = .ok n ↔ Spells name n.parts := by
  have hne : "" ∉ n.parts := fun hmem => n.parts_nonempty "" hmem rfl
  rw [ofString_eq_ok, split_eq, splitLoop_eq]
  unfold Spells trimmed
  rw [and_iff_left ⟨n.parts_le, hne⟩]
  by_cases hnil : strip SEPARATOR_C name.toList = []
  · rw [hnil]
    refine iff_of_false (fun h => n.parts_ne h) (fun h => hne ?_)
    rw [h]
    exact List.mem_cons_self
  · change n.parts = (dropEmptyLast (pieces _)).map String.ofList ↔ _
    rw [dropEmptyLast_pieces hnil]

/-- The parts of a name that is read from a text have no separator. -/
theorem not_mem_parts {name : String} {n : Name} (h : ofString name = .ok n) :
    ∀ p ∈ n.parts, SEPARATOR_C ∉ p.toList := by
  intro p hp
  rw [ofString_eq_ok.mp h] at hp
  exact not_mem_of_mem_split hp

/-- Nothing is trimmed off a text without empty pieces. -/
theorem trimmed_eq {name : String} (h : [] ∉ name.toList.splitOn SEPARATOR_C) :
    trimmed name = name.toList := by
  rw [← pieces_plain] at h
  have hhead : name.toList.head? ≠ some SEPARATOR_C := by
    intro hfirst
    obtain ⟨cs, hcs⟩ := List.head?_eq_some_iff.mp hfirst
    apply h
    rw [hcs]
    exact List.mem_cons_self
  have hlast : name.toList.getLast? ≠ some SEPARATOR_C := by
    intro hend
    obtain ⟨cs, hcs⟩ := List.getLast?_eq_some_iff.mp hend
    apply h
    rw [hcs]
    unfold plain
    rw [List.map_append, List.map_singleton, if_pos rfl, pieces, piecesFrom_append_none]
    exact List.mem_append_right _ List.mem_cons_self
  unfold trimmed
  rw [strip_of_head? hhead]
  exact if_neg hlast

theorem ofString_toStr {n : Name} (h : ∀ p ∈ n.parts, SEPARATOR_C ∉ p.toList) :
    ofString n.toStr = .ok n := by
  have hparts := splitOn_toStr h
  have hempty : [] ∉ n.toStr.toList.splitOn SEPARATOR_C := by
    rw [hparts, List.mem_map]
    rintro ⟨p, hp, hnil⟩
    exact n.parts_nonempty p hp (String.toList_injective hnil)
  rw [ofString_iff]
  refine ⟨?_, n.parts_le, fun hmem => n.parts_nonempty "" hmem rfl⟩
  rw [trimmed_eq hempty, hparts, List.map_map]
  simp

theorem toStr_append {l r n : Name} (h : l.append r = .ok n) :
    n.toStr = l.toStr ++ SEPARATOR_S ++ r.toStr := by
  unfold toStr
  rw [append_eq_ok.mp h, String.intercalate_append_of_ne_nil l.parts_ne r.parts_ne]

/-- A text with the parts of a name is the text of one. -/
theorem exists_ofString_iff {name : String} {parts : List String} :
    (∃ n, ofString name = .ok n ∧ n.parts = parts) ↔ Spells name parts := by
  constructor
  · rintro ⟨n, hn, rfl⟩
    exact ofString_iff.mp hn
  · intro h
    obtain ⟨hparts, hle, hempty⟩ := h
    have hne : parts ≠ [] := by
      rw [hparts, ← pieces_plain]
      exact fun hnil => pieces_ne_nil _ (List.map_eq_nil_iff.mp hnil)
    refine ⟨⟨parts, hne, hle, fun p hp he => hempty (he ▸ hp)⟩,
      ofString_iff.mpr ⟨hparts, hle, hempty⟩, rfl⟩

/-- Names are read from their texts, their texts tell them apart, and `operator+` joins parts and
texts. -/
theorem names_parse_and_print (s t : String) (parts : List String) (n m : Name) :
    ((∃ k, ofString s = .ok k ∧ k.parts = parts) ↔ Spells s parts) ∧
    (ofString s = .ok n → ofString n.toStr = .ok n) ∧
    (ofString s = .ok n → ofString t = .ok m → (n = m ↔ n.toStr = m.toStr)) ∧
    ((∃ k, n.append m = .ok k) ↔ n.parts.length + m.parts.length ≤ MAX_PARTS) ∧
    ∀ k, n.append m = .ok k →
      k.parts = n.parts ++ m.parts ∧ k.toStr = n.toStr ++ SEPARATOR_S ++ m.toStr := by
  refine ⟨exists_ofString_iff, fun hs => ofString_toStr (not_mem_parts hs), ?_, append_ok_iff, ?_⟩
  · intro hs ht
    constructor
    · intro h
      rw [h]
    · exact toStr_inj (not_mem_parts hs) (not_mem_parts ht)
  · intro k hk
    exact ⟨append_eq_ok.mp hk, toStr_append hk⟩

section Sample

def outputB : Name := ⟨["output", "b"], by decide, by decide, by decide⟩

def zero : Name := ⟨["0"], by decide, by decide, by decide⟩

def outputB0 : Name := ⟨["output", "b", "0"], by decide, by decide, by decide⟩

/-- "/output/b", "0/", and their sum. -/
theorem names_parse_and_print_sum : ofString outputB.toStr = .ok outputB ∧
    (outputB = zero ↔ outputB.toStr = zero.toStr) ∧
    outputB0.parts = outputB.parts ++ zero.parts ∧
    outputB0.toStr = outputB.toStr ++ SEPARATOR_S ++ zero.toStr := by
  have h := names_parse_and_print "/output/b" "0/" [] outputB zero
  exact ⟨h.2.1 rfl, h.2.2.1 rfl rfl, h.2.2.2.2 outputB0 rfl⟩

end Sample

end DistroDefender.Base.Name
