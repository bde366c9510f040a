import DistroDefender.Base.JsonPath

/-!
# Paths made of parts

The parts of a path are written without escapes when a path is made of them, so a range of parts is
kept exactly when nothing in it is special (`keepsRange_iff`). `append` writes a dot between two
texts (`appends_iff`), and two paths are compared by their texts, which tell them apart where the
parts do not (`comparesByParts_iff`).
-/

namespace DistroDefender.Base

open Lib.Escape

namespace DotPath

/-- The parts between two iterators. -/
def range (d : DotPath) (begin count : Nat) : List String := (d.parts.drop begin).take count

/-- `operator==`. -/
def equals (lhs rhs : DotPath) : Bool := lhs.str = rhs.str

end DotPath

/-! ## Ranges -/

/-- The path of a range of parts has these parts. -/
def KeepsRange (d : DotPath) (begin count : Nat) : Prop :=
  ∃ d', DotPath.ofRange (d.range begin count) = .ok d' ∧ d'.parts = d.range begin count

/-- Parts that are read as they are written, with dots between them. -/
structure Joins (ts : List String) : Prop where
  nonempty : "" ∉ ts
  noDot : ∀ t ∈ ts, '.' ∉ t.toList
  noEscape : ∀ t ∈ ts, ¬ [backslash, backslash] <:+: t.toList
  noneBefore : ∀ t ∈ ts.dropLast, t.toList.getLast? ≠ some backslash

theorem toList_map_ofList (ts : List String) : (ts.map String.toList).map String.ofList = ts := by
  simp

theorem ne_nil_of_mem_map {ts : List String} (h : "" ∉ ts) :
    ∀ t ∈ ts.map String.toList, t ≠ [] := by
  intro p hp hnil
  obtain ⟨t, ht, rfl⟩ := List.mem_map.mp hp
  have hempty : t = "" := String.toList_injective hnil
  exact h (hempty ▸ ht)

/-- The parts of what `DotPath` makes of a text, when there are some and none is empty. -/
theorem ofString_parts_eq_iff {v : List Char} {ts : List String} (hne : ts ≠ []) (hts : "" ∉ ts) :
    (∃ d, DotPath.ofString (String.ofList v) = .ok d ∧ d.parts = ts) ↔
      unescape '.' backslash (strip '.' v) = join (ts.map String.toList) := by
  have hparts : (∃ d, DotPath.ofString (String.ofList v) = .ok d ∧
      d.parts = (ts.map String.toList).map String.ofList) ↔ _ :=
    ofString_parts_iff (by simpa using hne) (ne_nil_of_mem_map hts)
  rw [toList_map_ofList] at hparts
  exact hparts

theorem parts_of_empty {d : DotPath} (h : d.str = "") : d.parts = [] := by
  have hparsed := d.parsed
  rw [h] at hparsed
  exact (Except.ok.inj hparsed).symm

theorem parts_of_dot {d : DotPath} (h : d.str = ".") : d.parts = ["", ""] := by
  have hparsed := d.parsed
  rw [h, partsOf_dot] at hparsed
  exact (Except.ok.inj hparsed).symm

/-- Of no range with an empty part are the parts kept: such a path would have the text ".". -/
theorem not_keeps_empty {ts : List String} (h : "" ∈ ts) : ¬ ∃ d, DotPath.ofRange ts = .ok d ∧
    d.parts = ts := by
  rintro ⟨d, hd, hparts⟩
  have hdot : d.str = "." := by
    by_contra hne
    exact (no_empty_part_iff d).mpr hne (hparts.symm ▸ h)
  have hstored := parts_of_dot hdot
  rw [hparts] at hstored
  rw [hstored] at hd
  have hstr := ofString_eq_ok hd
  rw [hdot] at hstr
  exact absurd hstr (by decide)

theorem keepsRange_iff (d : DotPath) (begin count : Nat) :
    KeepsRange d begin count ↔ Joins (d.range begin count) := by
  unfold KeepsRange
  generalize d.range begin count = ts
  by_cases hempty : "" ∈ ts
  · exact iff_of_false (not_keeps_empty hempty) (fun h => h.nonempty hempty)
  by_cases hnil : ts = []
  · rw [hnil]
    exact iff_of_true ⟨.root, rfl, rfl⟩ ⟨by simp, by simp, by simp, by simp⟩
  have hcond : Joins ts ↔ (∀ t ∈ ts, '.' ∉ t.toList) ∧
      (∀ t ∈ ts, ¬ [backslash, backslash] <:+: t.toList) ∧
      ∀ t ∈ ts.dropLast, t.toList.getLast? ≠ some backslash :=
    ⟨fun h => ⟨h.noDot, h.noEscape, h.noneBefore⟩, fun h => ⟨hempty, h.1, h.2.1, h.2.2⟩⟩
  have htext : ".".intercalate ts = String.ofList (['.'].intercalate (ts.map String.toList)) := by
    have hdot : ".".toList = ['.'] := rfl
    apply String.toList_injective
    rw [String.toList_intercalate, hdot, String.toList_ofList]
  unfold DotPath.ofRange
  rw [htext, ofString_parts_eq_iff hnil hempty,
    unescape_join_iff dot_ne_backslash (ne_nil_of_mem_map hempty), hcond, joined_iff]

/-! ## Appending -/

/-- `append` gives the parts of both paths, and the path itself where the other one is the root. -/
def Appends (rhs lhs : DotPath) : Prop :=
  ∃ d, DotPath.append rhs lhs = .ok d ∧ d.parts = lhs.parts ++ rhs.parts ∧
    (lhs = .root → d = rhs) ∧ (rhs = .root → d = lhs)

/-- Two texts that are read one after the other when a dot is written between them. -/
def Separates (rhs lhs : DotPath) : Prop :=
  lhs.str = "" ∨ (lhs.str = "." ∧ rhs.str = "") ∨
    (lhs.str ≠ "." ∧ rhs.str ≠ "" ∧ rhs.str ≠ "." ∧ trailing backslash lhs.str.toList % 2 = 0)

theorem DotPath.ext {a b : DotPath} (h : a.str = b.str) : a = b := by
  obtain ⟨s, parts, hparsed⟩ := a
  obtain ⟨s', parts', hparsed'⟩ := b
  cases h
  cases hparsed.symm.trans hparsed'
  rfl

theorem DotPath.eq_root_iff {d : DotPath} : d = .root ↔ d.str = "" := by
  constructor
  · intro h
    rw [h]
    rfl
  · intro h
    exact DotPath.ext h

section Append

variable {rhs lhs : DotPath}

/-- A path after the root is itself. -/
theorem append_root (h : lhs.str = "") : DotPath.append rhs lhs = .ok rhs := by
  have hdrop : dropDot (lhs.str ++ "." ++ rhs.str) = rhs.str := by
    have htext : (lhs.str ++ "." ++ rhs.str).toList = '.' :: rhs.str.toList := by
      rw [h, String.toList_append, String.toList_append]
      rfl
    have hlist := toList_of_head? (s := lhs.str ++ "." ++ rhs.str) (by rw [htext]; rfl)
    rw [htext] at hlist
    exact String.toList_injective (List.cons.inj hlist).2.symm
  obtain ⟨d, hd, hstr, -⟩ := ofString_of_partsOf (hdrop.symm ▸ rhs.parsed)
  rw [hdrop] at hstr
  unfold DotPath.append
  rw [hd, DotPath.ext hstr]

/-- Nothing is appended to the path with the text ".". -/
theorem append_to_dot (h : lhs.str = ".") (hr : rhs.str ≠ "") :
    ∃ e, DotPath.append rhs lhs = .error e := by
  have htext : (lhs.str ++ "." ++ rhs.str).toList = '.' :: '.' :: rhs.str.toList := by
    rw [h, String.toList_append, String.toList_append]
    rfl
  have hdrop : (dropDot (lhs.str ++ "." ++ rhs.str)).toList = '.' :: rhs.str.toList := by
    have hlist := toList_of_head? (s := lhs.str ++ "." ++ rhs.str) (by rw [htext]; rfl)
    rw [htext] at hlist
    exact (List.cons.inj hlist).2.symm
  have hempty : dropDot (lhs.str ++ "." ++ rhs.str) ≠ "" := by
    intro hnil
    rw [hnil] at hdrop
    cases hdrop
  have hdot : dropDot (lhs.str ++ "." ++ rhs.str) ≠ "." := by
    intro hdot
    rw [hdot] at hdrop
    exact hr (String.toList_injective (List.cons.inj hdrop).2.symm)
  have hmem : "" ∈ splitEscaped (dropDot (lhs.str ++ "." ++ rhs.str)) '.' backslash := by
    rw [splitEscaped_eq, hdrop, unescape_delim dot_ne_backslash]
    exact List.mem_cons_self
  have hparts := partsOf_of_ne hempty hdot
  rw [if_pos hmem] at hparts
  exact ⟨_, ofString_of_error hparts⟩

variable (hl : lhs.str ≠ "") (hdot : lhs.str ≠ ".")

include hl hdot in
theorem append_eq (rhs : DotPath) : DotPath.append rhs lhs =
    DotPath.ofString (String.ofList (lhs.str.toList ++ '.' :: rhs.str.toList)) ∧
      strip '.' (lhs.str.toList ++ '.' :: rhs.str.toList) = lhs.str.toList ++ '.' ::
        rhs.str.toList := by
  constructor
  · have hone : ".".toList = ['.'] := rfl
    unfold DotPath.append
    congr 1
    apply String.toList_injective
    rw [String.toList_append, String.toList_append, hone, String.toList_ofList, List.append_assoc,
      List.singleton_append]
  · apply strip_of_head?
    have hhead := head?_of_path lhs hl hdot
    cases hs : lhs.str.toList with
    | nil => exact absurd (String.toList_injective hs) hl
    | cons c cs =>
      rw [hs] at hhead
      exact hhead

include hl hdot in
/-- The root cannot be appended to any other path. -/
theorem not_append_empty (hr : rhs.str = "") :
    ¬ ∃ d, DotPath.append rhs lhs = .ok d ∧ d.parts = lhs.parts ++ rhs.parts := by
  obtain ⟨happend, hstrip⟩ := append_eq hl hdot rhs
  obtain ⟨hparts, -⟩ := pieces_of_path lhs hl hdot
  have hne : lhs.parts ≠ [] := by
    rw [hparts]
    exact fun h => pieces_ne_nil _ (List.map_eq_nil_iff.mp h)
  have hjoin : join (lhs.parts.map String.toList) = unescape '.' backslash lhs.str.toList := by
    rw [hparts, List.map_map]
    simp
  rw [parts_of_empty hr, List.append_nil, happend,
    ofString_parts_eq_iff hne ((no_empty_part_iff lhs).mpr hdot), hstrip, hjoin, hr]
  exact unescape_concat_delim_ne dot_ne_backslash lhs.str.toList

include hl hdot in
/-- Nor can the path with the text ".". -/
theorem not_append_dot (hr : rhs.str = ".") :
    ¬ ∃ d, DotPath.append rhs lhs = .ok d ∧ d.parts = lhs.parts ++ rhs.parts := by
  rintro ⟨d, hd, hparts⟩
  have hstr : d.str = "." := by
    by_contra hne
    apply (no_empty_part_iff d).mpr hne
    rw [hparts, parts_of_dot hr]
    simp
  obtain ⟨happend, hstrip⟩ := append_eq hl hdot rhs
  rw [happend] at hd
  have hlist := congrArg String.toList (ofString_eq_ok hd)
  rw [hstr, toList_dropDot, hstrip, hr] at hlist
  have hlen := congrArg List.length hlist
  simp at hlen

include hl hdot in
/-- Other paths are appended where the dot between them separates. -/
theorem append_iff (hr : rhs.str ≠ "") (hrdot : rhs.str ≠ ".") :
    (∃ d, DotPath.append rhs lhs = .ok d ∧ d.parts = lhs.parts ++ rhs.parts) ↔
      trailing backslash lhs.str.toList % 2 = 0 := by
  obtain ⟨happend, hstrip⟩ := append_eq hl hdot rhs
  obtain ⟨hlparts, -⟩ := pieces_of_path lhs hl hdot
  obtain ⟨hrparts, -⟩ := pieces_of_path rhs hr hrdot
  have hboth : lhs.parts ++ rhs.parts = (pieces (unescape '.' backslash lhs.str.toList ++
      none :: unescape '.' backslash rhs.str.toList)).map String.ofList := by
    rw [pieces, piecesFrom_append_none, List.map_append, hlparts, hrparts]
    rfl
  have hne : lhs.parts ++ rhs.parts ≠ [] := by
    rw [hboth]
    exact fun h => pieces_ne_nil _ (List.map_eq_nil_iff.mp h)
  have hempty : "" ∉ lhs.parts ++ rhs.parts := by
    rw [List.mem_append, not_or]
    exact ⟨(no_empty_part_iff lhs).mpr hdot, (no_empty_part_iff rhs).mpr hrdot⟩
  have hjoin : join ((lhs.parts ++ rhs.parts).map String.toList) =
      unescape '.' backslash lhs.str.toList ++ none :: unescape '.' backslash rhs.str.toList := by
    rw [hboth, List.map_map]
    simp
  rw [happend, ofString_parts_eq_iff hne hempty, hstrip, hjoin]
  exact unescape_append_delim_iff dot_ne_backslash

end Append

theorem appends_iff (rhs lhs : DotPath) : Appends rhs lhs ↔ Separates rhs lhs := by
  unfold Separates
  by_cases hl : lhs.str = ""
  · refine iff_of_true ⟨rhs, append_root hl, ?_, fun _ => rfl, fun h => ?_⟩ (.inl hl)
    · rw [parts_of_empty hl, List.nil_append]
    · rw [h, DotPath.eq_root_iff.mpr hl]
  have hroot : lhs ≠ .root := fun h => hl (DotPath.eq_root_iff.mp h)
  by_cases hdot : lhs.str = "."
  · by_cases hr : rhs.str = ""
    · refine iff_of_true ⟨lhs, ?_, ?_, fun h => absurd h hroot, fun _ => rfl⟩
        (.inr (.inl ⟨hdot, hr⟩))
      · have hparts := partsOf_dot
        rw [← parts_of_dot hdot] at hparts
        obtain ⟨d, hd, hstr, -⟩ := ofString_of_partsOf (s := "..") hparts
        unfold DotPath.append
        rw [hdot, hr]
        exact hd.trans (congrArg Except.ok (DotPath.ext (hstr.trans hdot.symm)))
      · rw [parts_of_empty hr, List.append_nil]
    · obtain ⟨e, he⟩ := append_to_dot hdot hr
      refine iff_of_false ?_ (by simp [hdot, hr])
      rintro ⟨d, hd, -⟩
      cases he.symm.trans hd
  have happends : Appends rhs lhs → ∃ d, DotPath.append rhs lhs = .ok d ∧
      d.parts = lhs.parts ++ rhs.parts := by
    rintro ⟨d, hd, hparts, -⟩
    exact ⟨d, hd, hparts⟩
  by_cases hr : rhs.str = ""
  · exact iff_of_false (fun h => not_append_empty hl hdot hr (happends h)) (by simp [hl, hdot, hr])
  by_cases hrdot : rhs.str = "."
  · exact iff_of_false (fun h => not_append_dot hl hdot hrdot (happends h))
      (by simp [hl, hdot, hrdot])
  rw [← append_iff hl hdot hr hrdot]
  simp only [hl, hdot, hr, hrdot, false_and, false_or, ne_eq, not_false_eq_true, true_and]
  constructor
  · exact happends
  · rintro ⟨d, hd, hparts⟩
    exact ⟨d, hd, hparts, fun h => absurd h hroot, fun h => absurd (DotPath.eq_root_iff.mp h) hr⟩

/-! ## Comparing -/

/-- Two paths compare equal exactly when they have the same parts. -/
def ComparesByParts (a b : DotPath) : Prop := a.equals b = true ↔ a.parts = b.parts

/-- The texts are equal, or differ in more than the length of odd runs of backslashes that no dot
follows. -/
def ToldApart (a b : DotPath) : Prop :=
  a.str = b.str ∨ canonical '.' backslash a.str.toList ≠ canonical '.' backslash b.str.toList

/-- Paths have the same parts exactly when their texts are read alike. -/
theorem parts_eq_iff {a b : DotPath} :
    a.parts = b.parts ↔ canonical '.' backslash a.str.toList =
      canonical '.' backslash b.str.toList := by
  rw [← unescape_eq_iff dot_ne_backslash]
  have hempty : ∀ {a b : DotPath}, a.str = "" → (a.parts = b.parts ↔
      unescape '.' backslash a.str.toList = unescape '.' backslash b.str.toList) := by
    intro a b ha
    rw [parts_of_empty ha, ha]
    by_cases hb : b.str = ""
    · rw [parts_of_empty hb, hb]
      exact iff_of_true rfl rfl
    · rw [parts_of_partsOf hb b.parsed]
      refine iff_of_false (fun h => pieces_ne_nil _ (List.map_eq_nil_iff.mp h.symm)) (fun h => ?_)
      exact unescape_ne_nil (fun hnil => hb (String.toList_injective hnil)) h.symm
  by_cases ha : a.str = ""
  · exact hempty ha
  by_cases hb : b.str = ""
  · rw [eq_comm, hempty hb, eq_comm]
  rw [parts_of_partsOf ha a.parsed, parts_of_partsOf hb b.parsed, ofList_map_inj, pieces_inj]

theorem comparesByParts_iff (a b : DotPath) : ComparesByParts a b ↔ ToldApart a b := by
  unfold ComparesByParts ToldApart DotPath.equals
  rw [decide_eq_true_eq, parts_eq_iff]
  by_cases h : a.str = b.str
  · rw [h]
    simp
  · simp [h]

/-! ## What parts tell -/

/-- A range of parts is kept, two paths are appended and two are compared by their parts, in the
cases described. -/
theorem parts_are_kept (a b : DotPath) (begin count : Nat) :
    (KeepsRange a begin count ↔ Joins (a.range begin count)) ∧ (Appends a b ↔ Separates a b) ∧
      (ComparesByParts a b ↔ ToldApart a b) :=
  ⟨keepsRange_iff a begin count, appends_iff a b, comparesByParts_iff a b⟩

section Sample

/-- The path "a" with the one part "a". -/
def pathA : DotPath := ⟨"a", ["a"], by decide⟩

/-- An escaped dot. -/
def pathADotB : DotPath := ⟨String.ofList ['a', backslash, '.', 'b'], ["a.b"], by decide⟩

/-- A backslash that escapes nothing, and an escaped one. -/
def pathAB : DotPath :=
  ⟨String.ofList ['a', backslash, 'b'], [String.ofList ['a', backslash, 'b']], by decide⟩

def pathABB : DotPath :=
  ⟨String.ofList ['a', backslash, backslash, 'b'], [String.ofList ['a', backslash, 'b']], by decide⟩

/-- The part "a.b" becomes two; the root is not appended; two texts of one part are not equal. -/
theorem parts_are_lost : ¬ KeepsRange pathADotB 0 1 ∧ (∃ e, DotPath.append .root pathA = .error e) ∧
    ¬ ComparesByParts pathAB pathABB := by
  refine ⟨?_, ⟨.runtimeError "DotPath cannot have empty parts.", by rfl⟩, ?_⟩
  · rintro ⟨d, hd, hparts⟩
    have hread : DotPath.ofRange ["a.b"] = .ok ⟨"a.b", ["a", "b"], by decide⟩ := by rfl
    cases hread.symm.trans hd
    revert hparts
    decide
  · intro h
    have hequal := h.mpr rfl
    revert hequal
    decide

end Sample

end DistroDefender.Base
