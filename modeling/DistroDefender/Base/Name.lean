import DistroDefender.Base.Error
import DistroDefender.Base.StringUtils
import Mathlib.Data.List.Infix
import Mathlib.Order.Lattice
import Mathlib.Data.List.Lex
import Mathlib.Data.String.Basic

/-!
# Names

`base::Name` is a list of 1 to `MAX_PARTS` nonempty parts. The constructors check this and throw
otherwise; a value of `Name` carries it. Parts are not filtered any further: the constructor from a
vector takes every nonempty string as a part, the one from a text every string without the
separator.
-/

namespace DistroDefender.Base

def MAX_PARTS : Nat := 10

def SEPARATOR_C : Char := '/'

def SEPARATOR_S : String := "/"

structure Name where
  parts : List String
  parts_ne : parts ≠ []
  parts_le : parts.length ≤ MAX_PARTS
  parts_nonempty : ∀ p ∈ parts, p ≠ ""
  deriving DecidableEq

namespace Name

@[ext] theorem ext {n m : Name} (h : n.parts = m.parts) : n = m := by
  cases n; cases m; cases h; rfl

/-- The constructor from a vector, with `assertSize`. -/
def ofParts (parts : List String) : Except Throw Name :=
  if h0 : parts = [] then .error (.runtimeError "Name cannot be empty.")
  else if h1 : MAX_PARTS < parts.length then
    .error (.runtimeError
      s!"Name must have at most {MAX_PARTS} parts; currently is {parts.length} parts.")
  else if h2 : ∃ p ∈ parts, p = "" then .error (.runtimeError "Name cannot have empty parts.")
  else .ok ⟨parts, h0, Nat.not_lt.mp h1, fun p hp hpe => h2 ⟨p, hp, hpe⟩⟩

/-- The constructor from a text. -/
def ofString (name : String) : Except Throw Name := ofParts (split name SEPARATOR_C)

def toStr (n : Name) : String := SEPARATOR_S.intercalate n.parts

/-- `operator+`. -/
def append (lhs rhs : Name) : Except Throw Name := ofParts (lhs.parts ++ rhs.parts)

/-- `parts()[0]`. -/
def first (n : Name) : String := n.parts.head n.parts_ne

/-- `operator<` is the lexicographic order on the parts. -/
instance : LinearOrder Name where
  le n m := n.parts ≤ m.parts
  lt n m := n.parts < m.parts
  le_refl n := le_refl n.parts
  le_trans n m k := le_trans (a := n.parts) (b := m.parts) (c := k.parts)
  lt_iff_le_not_ge n m := lt_iff_le_not_ge (a := n.parts) (b := m.parts)
  le_antisymm _ _ h h' := ext (le_antisymm h h')
  le_total n m := le_total n.parts m.parts
  toDecidableLE n m := inferInstanceAs (Decidable (n.parts ≤ m.parts))
  toDecidableEq := inferInstance

@[simp] theorem ofParts_parts (n : Name) : ofParts n.parts = .ok n := by
  have h2 : ¬ ∃ p ∈ n.parts, p = "" := fun ⟨p, hp, he⟩ => n.parts_nonempty p hp he
  simp only [ofParts, dif_neg n.parts_ne, dif_neg (Nat.not_lt.mpr n.parts_le), dif_neg h2]

theorem ofParts_eq_ok {parts : List String} {n : Name} :
    ofParts parts = .ok n ↔ n.parts = parts := by
  constructor
  · intro h
    unfold ofParts at h
    split at h
    · cases h
    · split at h
      · cases h
      · split at h
        · cases h
        · cases h; rfl
  · rintro rfl
    exact ofParts_parts n

/-- What the constructor accepts. -/
theorem ofParts_ok {parts : List String} (h0 : parts ≠ []) (h1 : parts.length ≤ MAX_PARTS)
    (h2 : ∀ p ∈ parts, p ≠ "") : ofParts parts = .ok ⟨parts, h0, h1, h2⟩ :=
  ofParts_eq_ok.mpr rfl

theorem append_eq_ok {l r n : Name} : l.append r = .ok n ↔ n.parts = l.parts ++ r.parts :=
  ofParts_eq_ok

/-- `operator+` succeeds exactly when the parts fit. -/
theorem append_ok_iff {l r : Name} :
    (∃ n, l.append r = .ok n) ↔ l.parts.length + r.parts.length ≤ MAX_PARTS := by
  constructor
  · rintro ⟨n, hn⟩
    have := n.parts_le
    rw [append_eq_ok.mp hn, List.length_append] at this
    exact this
  · intro h
    refine ⟨⟨l.parts ++ r.parts, by simp [l.parts_ne], by simpa using h, fun p hp => ?_⟩,
      append_eq_ok.mpr rfl⟩
    rcases List.mem_append.mp hp with hp | hp
    · exact l.parts_nonempty p hp
    · exact r.parts_nonempty p hp

theorem ofString_eq_ok {text : String} {n : Name} :
    ofString text = .ok n ↔ n.parts = split text SEPARATOR_C := ofParts_eq_ok

/-- The text of a name whose parts have no separator in them, cut at the separators. -/
theorem splitOn_toStr {n : Name} (h : ∀ p ∈ n.parts, SEPARATOR_C ∉ p.toList) :
    n.toStr.toList.splitOn SEPARATOR_C = n.parts.map String.toList := by
  unfold toStr
  rw [String.toList_intercalate]
  refine List.splitOn_intercalate _ (fun l hl => ?_) (by simp [n.parts_ne])
  obtain ⟨p, hp, rfl⟩ := List.mem_map.mp hl
  exact h p hp

/-- The text of a name whose parts have no separator in them says which name it is. -/
theorem toStr_inj {n m : Name} (hn : ∀ p ∈ n.parts, SEPARATOR_C ∉ p.toList)
    (hm : ∀ p ∈ m.parts, SEPARATOR_C ∉ p.toList) (h : n.toStr = m.toStr) : n = m := by
  have hlists : n.parts.map String.toList = m.parts.map String.toList := by
    rw [← splitOn_toStr hn, ← splitOn_toStr hm, h]
  exact ext (List.map_injective_iff.mpr (fun _ _ => String.toList_injective) hlists)

theorem length_pos (n : Name) : 0 < n.parts.length := List.length_pos_of_ne_nil n.parts_ne

/-- `n` lies strictly below `c`: `c`'s parts are a strict beginning of `n`'s. -/
def Below (c n : Name) : Prop := c.parts <+: n.parts ∧ c.parts.length < n.parts.length

instance (c n : Name) : Decidable (Below c n) := inferInstanceAs (Decidable (_ ∧ _))

theorem Below.ne {c n : Name} (h : Below c n) : c ≠ n := by
  rintro rfl
  exact Nat.lt_irrefl _ h.2

end Name

end DistroDefender.Base
