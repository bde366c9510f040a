import DistroDefender.Base.Error
import DistroDefender.Base.Splitting

/-!
# Dotted paths

A `DotPath` keeps its text without one leading dot and the parts `splitEscaped` cuts it into. The
constructor refuses a text with an empty part, but for the text "." (`partsOf`); however a path is
built, its parts are those of the text it keeps, so only that text has empty parts
(`no_empty_part_iff`).
-/

namespace DistroDefender.Base

open Lib.Escape (pieces piecesFrom unescape replacePair)

/-- The escape of a dotted path. -/
abbrev backslash : Char := Char.ofNat 92

/-! ## The class -/

/-- What `parse` makes of the text it keeps. -/
def partsOf (str : String) : Except Throw (List String) :=
  if str = "" then .ok []
  else
    let parts := splitEscaped str '.' backslash
    if ∃ part ∈ parts, part = "" ∧ str ≠ "." then
      .error (.runtimeError "DotPath cannot have empty parts.")
    else .ok parts

structure DotPath where
  str : String
  parts : List String
  parsed : partsOf str = .ok parts

/-- The text without one leading dot. -/
def dropDot (str : String) : String :=
  if startsWith str "." then String.ofList (str.toList.drop 1) else str

namespace DotPath

/-- `DotPath()`. -/
def root : DotPath := ⟨"", [], rfl⟩

/-- `DotPath(std::string_view)`, with `parse`. -/
def ofString (text : String) : Except Throw DotPath :=
  match h : partsOf (dropDot text) with
  | .ok parts => .ok ⟨dropDot text, parts, h⟩
  | .error e => .error e

/-- `DotPath(begin, end)`. -/
def ofRange (parts : List String) : Except Throw DotPath := ofString (".".intercalate parts)

/-- The escapes of one token of a pointer, as `fromJsonPath` takes them out: first every "~0", then
every "~1". -/
def decodeToken (part : String) : String :=
  String.ofList (replacePair '~' '1' '/' (replacePair '~' '0' '~' part.toList))

/-- The tokens of a pointer: one `/` at the start is dropped before `split` drops another. -/
def decodedTokens (jsonPath : String) : List String :=
  let path := if jsonPath.toList.head? = some '/' then String.ofList (jsonPath.toList.drop 1)
    else jsonPath
  (split path '/').map decodeToken

def fromJsonPath (jsonPath : String) : Except Throw DotPath :=
  if jsonPath = "" then .ok root else ofRange (decodedTokens jsonPath)

def append (rhs lhs : DotPath) : Except Throw DotPath := ofString (lhs.str ++ "." ++ rhs.str)

end DotPath

/-- The ways to make a path that are not a copy of one. -/
inductive Construction where
  | default
  | text (text : String)
  | range (parts : List String)
  | jsonPath (jsonPath : String)
  | append (rhs lhs : DotPath)

namespace Construction

def run : Construction → Except Throw DotPath
  | default => .ok DotPath.root
  | text s => DotPath.ofString s
  | range parts => DotPath.ofRange parts
  | jsonPath s => DotPath.fromJsonPath s
  | append rhs lhs => DotPath.append rhs lhs

/-- The text handed to `parse`. -/
def parsed : Construction → String
  | default => ""
  | text s => s
  | range parts => ".".intercalate parts
  | jsonPath s => ".".intercalate (DotPath.decodedTokens s)
  | append rhs lhs => lhs.str ++ "." ++ rhs.str

end Construction

/-! ## What is accepted -/

/-- A leading dot and the text without it. -/
theorem toList_of_head? {s : String} (h : s.toList.head? = some '.') :
    s.toList = '.' :: (dropDot s).toList := by
  unfold dropDot startsWith
  cases hs : s.toList with
  | nil => simp [hs] at h
  | cons c cs =>
    rw [hs] at h
    cases h
    simp

theorem dropDot_of_head?_ne {s : String} (h : s.toList.head? ≠ some '.') : dropDot s = s := by
  unfold dropDot startsWith
  cases hs : s.toList with
  | nil => rfl
  | cons c cs =>
    have hc : c ≠ '.' := fun e => h (by rw [hs, e]; rfl)
    simp [hc]

theorem dropDot_eq_dot_iff {s : String} : dropDot s = "." ↔ s = ".." := by
  constructor
  · intro h
    by_cases hs : s.toList.head? = some '.'
    · have hlist := toList_of_head? hs
      rw [h] at hlist
      exact String.toList_injective hlist
    · rw [dropDot_of_head?_ne hs] at h
      rw [h] at hs
      exact absurd rfl hs
  · intro h
    rw [h]
    rfl

theorem dropDot_eq_empty_iff {s : String} : dropDot s = "" ↔ s = "" ∨ s = "." := by
  constructor
  · intro h
    by_cases hs : s.toList.head? = some '.'
    · have hlist := toList_of_head? hs
      rw [h] at hlist
      exact .inr (String.toList_injective hlist)
    · rw [dropDot_of_head?_ne hs] at h
      exact .inl h
  · rintro (rfl | rfl)
    · rfl
    · rfl

theorem ofString_eq_ok {s : String} {d : DotPath} (h : DotPath.ofString s = .ok d) :
    d.str = dropDot s := by
  unfold DotPath.ofString at h
  split at h
  · cases h
    rfl
  · cases h

theorem ofString_of_partsOf {s : String} {parts : List String}
    (h : partsOf (dropDot s) = .ok parts) :
    ∃ d, DotPath.ofString s = .ok d ∧ d.str = dropDot s ∧ d.parts = parts := by
  refine ⟨⟨dropDot s, parts, h⟩, ?_, rfl, rfl⟩
  unfold DotPath.ofString
  split
  · rename_i heq
    rw [h] at heq
    cases heq
    rfl
  · rename_i heq
    rw [h] at heq
    cases heq

theorem ofString_of_error {s : String} {e : Throw} (h : partsOf (dropDot s) = .error e) :
    DotPath.ofString s = .error e := by
  unfold DotPath.ofString
  split
  · rename_i heq
    rw [h] at heq
    cases heq
  · rename_i heq
    rw [h] at heq
    cases heq
    rfl

theorem partsOf_of_ne {str : String} (hempty : str ≠ "") (hdot : str ≠ ".") : partsOf str =
    if "" ∈ splitEscaped str '.' backslash then
      .error (.runtimeError "DotPath cannot have empty parts.")
    else .ok (splitEscaped str '.' backslash) := by
  unfold partsOf
  simp only [if_neg hempty, ne_eq, hdot, not_false_eq_true, and_true, exists_eq_right]

theorem partsOf_dot : partsOf "." = .ok ["", ""] := by decide

/-- Only the path that keeps the text "." has an empty part. -/
theorem no_empty_part_iff (d : DotPath) : "" ∉ d.parts ↔ d.str ≠ "." := by
  have hparsed := d.parsed
  by_cases hdot : d.str = "."
  · rw [hdot, partsOf_dot] at hparsed
    rw [← Except.ok.inj hparsed]
    simp [hdot]
  · refine iff_of_true ?_ hdot
    by_cases hempty : d.str = ""
    · rw [hempty] at hparsed
      rw [← Except.ok.inj hparsed]
      exact List.not_mem_nil
    · rw [partsOf_of_ne hempty hdot] at hparsed
      split at hparsed
      · cases hparsed
      · rename_i hmem
        rw [← Except.ok.inj hparsed]
        exact hmem

theorem fromJsonPath_eq (s : String) :
    DotPath.fromJsonPath s = DotPath.ofString (".".intercalate (DotPath.decodedTokens s)) := by
  unfold DotPath.fromJsonPath
  split
  · rename_i hs
    rw [hs]
    rfl
  · rfl

theorem Construction.run_eq (c : Construction) : c.run = DotPath.ofString c.parsed := by
  cases c with
  | default => rfl
  | text s => rfl
  | range parts => rfl
  | append rhs lhs => rfl
  | jsonPath s => exact fromJsonPath_eq s

/-- `DotPath(s)` is constructed exactly when nothing is left of the text or no piece of it is empty,
and has those pieces then. -/
def AcceptsExactly (s : String) : Prop :=
  if dropDot s = "" then ∃ d, DotPath.ofString s = .ok d ∧ d.parts = []
  else if "" ∈ splitEscaped (dropDot s) '.' backslash then ∃ e, DotPath.ofString s = .error e
  else ∃ d, DotPath.ofString s = .ok d ∧ d.parts = splitEscaped (dropDot s) '.' backslash

theorem acceptsExactly_iff (s : String) : AcceptsExactly s ↔ s ≠ ".." := by
  unfold AcceptsExactly
  rw [ne_eq, ← dropDot_eq_dot_iff]
  by_cases hdot : dropDot s = "."
  · have hempty : "" ∈ splitEscaped "." '.' backslash := by decide
    rw [if_neg (by rw [hdot]; decide), hdot, if_pos hempty]
    refine iff_of_false ?_ (fun h => h rfl)
    rintro ⟨e, he⟩
    obtain ⟨d, hd, -⟩ := ofString_of_partsOf (hdot.symm ▸ partsOf_dot)
    rw [hd] at he
    cases he
  · refine iff_of_true ?_ hdot
    split
    · rename_i hempty
      have hparts : partsOf (dropDot s) = .ok [] := by
        rw [hempty]
        rfl
      obtain ⟨d, hd, -, hp⟩ := ofString_of_partsOf hparts
      exact ⟨d, hd, hp⟩
    · rename_i hempty
      have hparts := partsOf_of_ne hempty hdot
      split
      · rename_i hmem
        rw [if_pos hmem] at hparts
        exact ⟨_, ofString_of_error hparts⟩
      · rename_i hmem
        rw [if_neg hmem] at hparts
        obtain ⟨d, hd, -, hp⟩ := ofString_of_partsOf hparts
        exact ⟨d, hd, hp⟩

/-- A text is accepted as `AcceptsExactly` says, and a path that was built has no empty part, unless
`parse` is given "..": the special case for "." comes after the leading dot is gone. -/
theorem accepted_unless_two_dots (s : String) (c : Construction) :
    (AcceptsExactly s ↔ s ≠ "..") ∧ ((∀ d, c.run = .ok d → "" ∉ d.parts) ↔ c.parsed ≠ "..") := by
  refine ⟨acceptsExactly_iff s, ?_⟩
  rw [Construction.run_eq, ne_eq, ← dropDot_eq_dot_iff]
  constructor
  · intro h hdot
    obtain ⟨d, hd, hstr, -⟩ := ofString_of_partsOf (hdot.symm ▸ partsOf_dot)
    exact (no_empty_part_iff d).mp (h d hd) (hstr.trans hdot)
  · intro h d hd
    rw [no_empty_part_iff, ofString_eq_ok hd]
    exact h

/-- "..": constructed, with two empty parts. -/
theorem two_dots_accepted : ¬ AcceptsExactly ".." ∧
    ∃ d, DotPath.ofString ".." = .ok d ∧ d.parts = ["", ""] :=
  ⟨fun h => (acceptsExactly_iff "..").mp h rfl, ⟨".", ["", ""], partsOf_dot⟩, rfl, rfl⟩

end DistroDefender.Base
