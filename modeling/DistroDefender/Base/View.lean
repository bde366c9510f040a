import DistroDefender.Base.Error
import DistroDefender.Base.StringUtils

/-!
# String views

A `std::string_view` is a stretch of a buffer. A C interface that is given its `data()` reads on to
the first NUL (`View.cString`), in the view or after it, and past the buffer where there is none.
Two buffers that agree on the view are read alike exactly where a NUL ends the text in the view, or
the same text stands after it up to a NUL (`cString_eq_iff`).
-/

namespace DistroDefender.Base

/-- A view of a buffer: its characters, and what follows them to the end of the buffer. -/
structure View where
  chars : String
  after : List Char

/-- How a call ends that gives no value: it throws, follows a null pointer, or reads past a
buffer. -/
inductive Stop where
  | throws (e : Throw)
  | nullDereference
  | pastBuffer

namespace View

def NUL : Char := Char.ofNat 0

/-- What a C interface reads from `data()`. -/
def cString (v : View) : Option String :=
  if NUL ∈ v.chars.toList ++ v.after then some (cstr (String.ofList (v.chars.toList ++ v.after)))
  else none

def read (v : View) : Except Stop String :=
  match v.cString with
  | some text => .ok text
  | none => .error .pastBuffer

/-- What follows the view, up to the first NUL. -/
def tail (v : View) : Option (List Char) :=
  if NUL ∈ v.after then some (v.after.takeWhile (· ≠ NUL)) else none

/-- The view of a whole string, with its terminator. -/
def ofString (s : String) : View := ⟨s, [NUL]⟩

/-- A NUL ends the text in the view, or the same text follows both views. -/
def SameTail (v v' : View) : Prop := NUL ∈ v.chars.toList ∨ ∃ t, v.tail = some t ∧ v'.tail = some t

section Read

variable {v v' : View}

theorem toList_cstr_ofList (cs : List Char) :
    (cstr (String.ofList cs)).toList = cs.takeWhile (· ≠ NUL) := by
  rw [toList_cstr, String.toList_ofList]
  rfl

theorem cString_of_mem (h : NUL ∈ v.chars.toList) : v.cString = some (cstr v.chars) := by
  unfold cString
  rw [if_pos (List.mem_append_left _ h), Option.some.injEq]
  apply String.toList_injective
  have hshort : (v.chars.toList.takeWhile (· ≠ NUL)).length ≠ v.chars.toList.length := by
    intro hlen
    have hall := (List.takeWhile_prefix (· ≠ NUL)).eq_of_length hlen
    simpa using (List.takeWhile_eq_self_iff.mp hall) NUL h
  rw [toList_cstr_ofList, toList_cstr, List.takeWhile_append, if_neg hshort]
  rfl

/-- Without a NUL in the view, its tail is read too. -/
theorem cString_of_not_mem (h : NUL ∉ v.chars.toList) :
    v.cString = v.tail.map fun t => String.ofList (v.chars.toList ++ t) := by
  unfold cString tail
  by_cases hafter : NUL ∈ v.after
  · rw [if_pos (List.mem_append_right _ hafter), if_pos hafter, Option.map_some, Option.some.injEq]
    apply String.toList_injective
    rw [toList_cstr_ofList, String.toList_ofList, List.takeWhile_append_of_pos]
    intro c hc
    simp only [ne_eq, decide_eq_true_eq]
    rintro rfl
    exact h hc
  · have hnone : NUL ∉ v.chars.toList ++ v.after := by
      rw [List.mem_append]
      exact fun hmem => hmem.elim h hafter
    rw [if_neg hnone, if_neg hafter]
    rfl

/-- Two buffers that agree on a view are read alike exactly where the view ends its text, or its
tails agree. -/
theorem cString_eq_iff (hchars : v.chars = v'.chars) :
    (∃ text, v.cString = some text ∧ v'.cString = some text) ↔ v.SameTail v' := by
  unfold SameTail
  by_cases hnul : NUL ∈ v.chars.toList
  · refine iff_of_true ⟨cstr v.chars, cString_of_mem hnul, ?_⟩ (.inl hnul)
    rw [hchars] at hnul ⊢
    exact cString_of_mem hnul
  · rw [cString_of_not_mem hnul, cString_of_not_mem (hchars ▸ hnul), or_iff_right hnul]
    constructor
    · rintro ⟨text, h, h'⟩
      obtain ⟨t, ht, rfl⟩ := Option.map_eq_some_iff.mp h
      obtain ⟨t', ht', heq⟩ := Option.map_eq_some_iff.mp h'
      rw [← hchars, String.ofList_inj, List.append_cancel_left_eq] at heq
      exact ⟨t, ht, heq ▸ ht'⟩
    · rintro ⟨t, ht, ht'⟩
      refine ⟨String.ofList (v.chars.toList ++ t), ?_, ?_⟩
      · rw [ht, Option.map_some]
      · rw [ht', Option.map_some, hchars]

/-- A whole string is read to its first NUL. -/
theorem cString_ofString (s : String) : (ofString s).cString = some (cstr s) := by
  by_cases hnul : NUL ∈ s.toList
  · exact cString_of_mem hnul
  · have htail : (ofString s).tail = some [] := by rfl
    rw [cString_of_not_mem hnul, htail, Option.map_some, List.append_nil, cstr_of_not_mem hnul]
    exact congrArg some String.ofList_toList

end Read

end View

end DistroDefender.Base
