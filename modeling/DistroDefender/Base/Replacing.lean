import DistroDefender.Base.StringUtils
import DistroDefender.Lib.Occurs

/-!
# Replacing

`replaceAll` replaces a text until its search finds no more, and each search starts where the last
replacement was put. The loop ends, since each replacement takes a character that stood in the text
from the beginning (`replaceLoop_rewrites`). A search string that begins left of a replacement is
not found again (`replaceAll_iff`).
-/

namespace DistroDefender.Base

open Lib.Occurs

/-- `std::string::find`. -/
def findFrom (data toSearch : List Char) (pos : Nat) : Option Nat :=
  if pos ≤ data.length then (find toSearch (data.drop pos)).map (pos + ·) else none

/-- `std::string::replace`. -/
def replaceAt (data : List Char) (pos count : Nat) (toReplace : List Char) : List Char :=
  data.take pos ++ toReplace ++ data.drop (pos + count)

/-- The loop of `replaceAll`, for as many replacements as `fuel` allows. -/
def replaceLoop (toSearch toReplace : List Char) : Nat → List Char → Option Nat → Option (List Char)
  | _, data, none => some data
  | 0, _, some _ => none
  | fuel + 1, data, some pos =>
    let data := replaceAt data pos toSearch.length toReplace
    replaceLoop toSearch toReplace fuel data (findFrom data toSearch pos)

/-- `replaceAll`: what it returns, and the text it leaves. -/
def replaceAll (fuel : Nat) (data toSearch toReplace : String) : Option (Bool × String) :=
  if toSearch = "" ∨ toSearch =
    toReplace ∨ (findFrom toReplace.toList toSearch.toList 0).isSome then some (false, data)
  else
    match findFrom data.toList toSearch.toList 0 with
    | none => some (false, data)
    | some pos =>
      (replaceLoop toSearch.toList toReplace.toList fuel data.toList (some pos)).map fun data =>
        (true, .ofList data)

/-- The text contains the other one. -/
def Contains (data toSearch : String) : Prop := toSearch.toList <:+: data.toList

/-! ## The loop -/

theorem findFrom_zero (data toSearch : List Char) :
    findFrom data toSearch 0 = find toSearch data := by
  unfold findFrom
  rw [if_pos (Nat.zero_le _), List.drop_zero]
  cases find toSearch data with
  | none => rfl
  | some i => rw [Option.map_some, Nat.zero_add]

theorem findFrom_append (l t toSearch : List Char) :
    findFrom (l ++ t) toSearch l.length = (find toSearch t).map (l.length + ·) := by
  unfold findFrom
  rw [List.length_append, if_pos (Nat.le_add_right _ _), List.drop_left]

theorem replaceAt_append (x s y r : List Char) :
    replaceAt (x ++ s ++ y) x.length s.length r = x ++ r ++ y := by
  unfold replaceAt
  rw [List.append_assoc x s y, List.take_left, ← List.append_assoc x s y, ← List.length_append,
    List.drop_left]

section Loop

variable {s r : List Char} (hr : ¬ s <:+: r)
include hr

/-- The search behind `l` fails, or finds an `s` that takes something of `y`. -/
theorem findFrom_behind (l y : List Char) :
    findFrom (l ++ (r ++ y)) s l.length = none ∧ ¬ s <:+: r ++ y ∨
    ∃ x y', findFrom (l ++ (r ++ y)) s l.length = some (l ++ x).length ∧ r ++ y = x ++ s ++ y' ∧
    First s x ∧ y'.length < y.length := by
  rw [findFrom_append]
  cases hfind : find s (r ++ y) with
  | none => exact .inl ⟨rfl, find_eq_none_iff.mp hfind⟩
  | some i =>
    obtain ⟨x, y', rfl, heq, hx⟩ := find_eq_some hfind
    refine .inr ⟨x, y', ?_, heq, hx, length_lt_of_first hr heq⟩
    rw [Option.map_some, List.length_append]

/-- Behind `l` with `r` and `y`, the loop makes at most as many replacements as `y` has
characters. -/
theorem replaceLoop_rewrites (fuel : Nat) (l y : List Char) (hfuel : y.length ≤ fuel) :
    ∃ out, replaceLoop s r fuel (l ++ (r ++ y)) (findFrom (l ++ (r ++ y)) s l.length) = some out ∧
      Rewrites s r l y out := by
  induction fuel generalizing l y with
  | zero =>
    rcases findFrom_behind hr l y with ⟨hnone, hnot⟩ | ⟨x, y', -, -, -, hlt⟩
    · rw [hnone]
      exact ⟨_, rfl, .done hnot⟩
    · omega
  | succ fuel ih =>
    rcases findFrom_behind hr l y with ⟨hnone, hnot⟩ | ⟨x, y', hsome, heq, hx, hlt⟩
    · rw [hnone]
      exact ⟨_, rfl, .done hnot⟩
    · obtain ⟨out, hout, hrewrites⟩ := ih (l ++ x) y' (by omega)
      refine ⟨out, ?_, .next heq hx hrewrites⟩
      have hplace : replaceAt (l ++ (r ++ y)) (l ++ x).length s.length r = l ++ x ++ (r ++ y') := by
        rw [heq, ← List.append_assoc, ← List.append_assoc, replaceAt_append, List.append_assoc]
      rw [hsome, replaceLoop, hplace]
      exact hout

/-- The whole loop: the first replacement takes the search string, the others one character each at
least. -/
theorem replaceLoop_first (fuel : Nat) (x y : List Char) (hs : s ≠ [])
    (hfuel : (x ++ s ++ y).length ≤ fuel) :
    ∃ out, replaceLoop s r fuel (x ++ s ++ y) (some x.length) = some out ∧
    Rewrites s r x y out := by
  have hpos := List.length_pos_of_ne_nil hs
  rw [List.length_append, List.length_append] at hfuel
  obtain ⟨fuel, rfl⟩ : ∃ n, fuel = n + 1 := ⟨fuel - 1, by omega⟩
  obtain ⟨out, hout, hrewrites⟩ := replaceLoop_rewrites hr fuel x y (by omega)
  refine ⟨out, ?_, hrewrites⟩
  rw [replaceLoop, replaceAt_append, List.append_assoc]
  exact hout

end Loop

/-! ## What is left -/

variable {data toSearch toReplace : String}

/-- The three checks come down to one. -/
theorem refused_iff :
    (toSearch = "" ∨ toSearch = toReplace ∨ (findFrom toReplace.toList toSearch.toList 0).isSome) ↔
      Contains toReplace toSearch := by
  unfold Contains
  rw [findFrom_zero]
  constructor
  · rintro (rfl | rfl | h)
    · exact List.nil_infix
    · exact List.infix_rfl
    · by_contra hnot
      rw [find_eq_none_iff.mpr hnot] at h
      cases h
  · intro h
    refine .inr (.inr ?_)
    cases hfind : find toSearch.toList toReplace.toList with
    | none => exact absurd h (find_eq_none_iff.mp hfind)
    | some i => rfl

theorem replaceAll_refused (h : Contains toReplace toSearch) (fuel : Nat) :
    replaceAll fuel data toSearch toReplace = some (false, data) := by
  unfold replaceAll
  rw [if_pos (refused_iff.mpr h)]

theorem replaceAll_absent (h : ¬ Contains data toSearch) (fuel : Nat) :
    replaceAll fuel data toSearch toReplace = some (false, data) := by
  unfold replaceAll
  split
  · rfl
  · rw [findFrom_zero, find_eq_none_iff.mpr h]

/-- Otherwise the text is rewritten from the first occurrence on. -/
theorem replaceAll_rewrites (hr : ¬ Contains toReplace toSearch) (h : Contains data toSearch) :
    ∃ x y out, data.toList = x ++ toSearch.toList ++ y ∧ First toSearch.toList x ∧
      Rewrites toSearch.toList toReplace.toList x y out ∧
      ∀ fuel, data.length ≤ fuel → replaceAll fuel data toSearch toReplace =
        some (true, .ofList out) := by
  have hs : toSearch.toList ≠ [] := by
    intro hs
    apply hr
    unfold Contains
    rw [hs]
    exact List.nil_infix
  cases hfind : find toSearch.toList data.toList with
  | none => exact absurd h (find_eq_none_iff.mp hfind)
  | some i =>
    obtain ⟨x, y, rfl, hdata, hx⟩ := find_eq_some hfind
    obtain ⟨out, -, hout⟩ := replaceLoop_first hr _ x y hs (Nat.le_refl _)
    refine ⟨x, y, out, hdata, hx, hout, fun fuel hfuel => ?_⟩
    rw [← String.length_toList, hdata] at hfuel
    obtain ⟨out', hrun, hout'⟩ := replaceLoop_first hr fuel x y hs hfuel
    unfold replaceAll
    rw [if_neg (fun hrefused => hr (refused_iff.mp hrefused)), findFrom_zero, hfind, hdata,
      hout.unique hout']
    dsimp only
    rw [hrun]
    rfl

/-- What `replaceAll` promises. -/
structure RemovesAll (data toSearch toReplace : String) (result : Bool × String) : Prop where
  /-- It returns false and leaves the text exactly when it is told nothing to do. -/
  unchanged : result = (false, data) ↔ toSearch = "" ∨ Contains toReplace toSearch ∨
    ¬ Contains data toSearch
  removed : result.1 = true → ¬ Contains result.2 toSearch

/-- No replacement completes a search string that begins left of it. -/
def NoneCompleted (data toSearch toReplace : String) : Prop :=
  ¬ Contains toReplace toSearch → ∀ x y, data.toList = x ++ toSearch.toList ++ y →
    First toSearch.toList x → ¬ Joined toSearch.toList toReplace.toList x y

theorem removesAll_of_nothing (h : Contains toReplace toSearch ∨ ¬ Contains data toSearch) :
    RemovesAll data toSearch toReplace (false, data) where
  unchanged := iff_of_true rfl (.inr h)
  removed := nofun

theorem removesAll_of_rewrites {x y out : List Char} (hr : ¬ Contains toReplace toSearch)
    (h : Contains data toSearch) (hx : First toSearch.toList x)
    (hout : Rewrites toSearch.toList toReplace.toList x y out) :
    RemovesAll data toSearch toReplace (true, .ofList out) ↔
    ¬ Joined toSearch.toList toReplace.toList x y := by
  have hs : toSearch ≠ "" := by
    rintro rfl
    exact hr List.nil_infix
  have hlist : toSearch.toList ≠ [] := fun hs' => hs (String.toList_injective hs')
  have hinfix : Contains (.ofList out) toSearch ↔ Joined toSearch.toList toReplace.toList x y := by
    unfold Contains
    rw [String.toList_ofList, hout.infix_iff hlist, or_iff_right (hx.not_infix hlist)]
  rw [← hinfix]
  constructor
  · exact fun hremoves => hremoves.removed rfl
  · intro hnot
    refine ⟨iff_of_false nofun ?_, fun _ => hnot⟩
    rintro (hempty | hrefused | habsent)
    · exact hs hempty
    · exact hr hrefused
    · exact habsent h

/-- A call does nothing, or rewrites the text from the first occurrence on. -/
theorem replaceAll_cases (data toSearch toReplace : String) :
    (Contains toReplace toSearch ∨ ¬ Contains data toSearch) ∧
      (∀ fuel, replaceAll fuel data toSearch toReplace = some (false, data)) ∨
    ¬ Contains toReplace toSearch ∧ ∃ x y out, data.toList = x ++ toSearch.toList ++ y ∧
    First toSearch.toList x ∧
      (∀ fuel, data.length ≤ fuel → replaceAll fuel data toSearch toReplace =
        some (true, .ofList out)) ∧
      (RemovesAll data toSearch toReplace (true, .ofList out) ↔
        ¬ Joined toSearch.toList toReplace.toList x y) := by
  by_cases hr : Contains toReplace toSearch
  · exact .inl ⟨.inl hr, replaceAll_refused hr⟩
  by_cases h : Contains data toSearch
  · obtain ⟨x, y, out, hdata, hx, hout, hrun⟩ := replaceAll_rewrites hr h
    exact .inr ⟨hr, x, y, out, hdata, hx, hrun, removesAll_of_rewrites hr h hx hout⟩
  · exact .inl ⟨.inr h, replaceAll_absent h⟩

/-- The loop ends after at most as many replacements as the text has characters, and `replaceAll`
keeps its promise exactly when no replacement completes a search string that begins left of it. -/
theorem replaceAll_iff (data toSearch toReplace : String) : ∃ result,
    (∀ fuel, data.length ≤ fuel → replaceAll fuel data toSearch toReplace = some result) ∧
      (RemovesAll data toSearch toReplace result ↔ NoneCompleted data toSearch toReplace) := by
  rcases replaceAll_cases data toSearch toReplace with ⟨hnothing, hrun⟩ |
      ⟨hr, x, y, out, hdata, hx, hrun, hiff⟩
  · refine ⟨_, fun fuel _ => hrun fuel,
      iff_of_true (removesAll_of_nothing hnothing) fun hr x y hdata _ => ?_⟩
    cases hnothing with
    | inl h => exact absurd h hr
    | inr h => exact absurd ⟨x, y, hdata.symm⟩ h
  · refine ⟨_, hrun,
      hiff.trans ⟨fun hnot _ x' y' hdata' hx' => ?_, fun hnone => hnone hr x y hdata hx⟩⟩
    obtain ⟨rfl, rfl⟩ := hx.unique hx' (hdata.symm.trans hdata')
    exact hnot

/-- The replacement completes the search string with the character left of it. -/
theorem replaceAll_leaves :
    replaceAll 3 "aab" "ab" "b" = some (true, "ab") ∧ ¬ RemovesAll "aab" "ab" "b" (true, "ab") :=
  ⟨by decide, fun h => h.removed rfl List.infix_rfl⟩

/-- A search string that cannot be broken, so that its end goes on as the replacement does, is
removed from every text. -/
theorem removesAll_of_not_breakable
    (h : ¬ Contains toReplace toSearch → ¬ Breakable toSearch.toList toReplace.toList) {fuel : Nat}
    {result : Bool × String} (hfuel : data.length ≤ fuel)
    (hresult : replaceAll fuel data toSearch toReplace = some result) :
    RemovesAll data toSearch toReplace result := by
  rcases replaceAll_cases data toSearch toReplace with ⟨hnothing, hrun⟩ |
      ⟨hr, x, y, out, -, hx, hrun, hiff⟩
  · cases (hrun fuel).symm.trans hresult
    exact removesAll_of_nothing hnothing
  · cases (hrun fuel hfuel).symm.trans hresult
    exact hiff.mpr fun hjoined => h hr ((exists_joined_iff hr).mp ⟨x, y, hx, hjoined⟩)

/-- For which search strings and replacements the promise is kept whatever the text. -/
theorem removesAll_forall_iff (toSearch toReplace : String) :
    (∀ data fuel result, data.length ≤ fuel →
      replaceAll fuel data toSearch toReplace = some result →
      RemovesAll data toSearch toReplace result) ↔
      Contains toReplace toSearch ∨ ¬ Breakable toSearch.toList toReplace.toList := by
  rw [or_iff_not_imp_left]
  constructor
  · intro h hr hbreak
    obtain ⟨x, y, hx, hjoined⟩ := (exists_joined_iff hr).mpr hbreak
    have htext : (String.ofList (x ++ toSearch.toList ++ y)).toList = x ++ toSearch.toList ++ y :=
      String.toList_ofList
    rcases replaceAll_cases (.ofList (x ++ toSearch.toList ++ y)) toSearch toReplace with
        ⟨hnothing, -⟩ |
      ⟨-, x', y', out, hdata, hx', hrun, hiff⟩
    · have hin : Contains (.ofList (x ++ toSearch.toList ++ y)) toSearch := ⟨x, y, htext.symm⟩
      cases hnothing with
      | inl hrefused => exact hr hrefused
      | inr habsent => exact habsent hin
    · obtain ⟨rfl, rfl⟩ := hx.unique hx' (htext.symm.trans hdata)
      exact hiff.mp (h _ _ _ (Nat.le_refl _) (hrun _ (Nat.le_refl _))) hjoined
  · exact fun h data fuel result hfuel hresult => removesAll_of_not_breakable h hfuel hresult

/-- A search string of one character, as `getCurrentDate` has it, is removed from every text. -/
theorem removesAll_singleton {c : Char} {fuel : Nat} {result : Bool × String}
    (hfuel : data.length ≤ fuel)
    (hresult : replaceAll fuel data (.ofList [c]) toReplace = some result) :
    RemovesAll data (.ofList [c]) toReplace result := by
  refine removesAll_of_not_breakable (fun _ => ?_) hfuel hresult
  rw [String.toList_ofList]
  rintro ⟨u, v, hu, hv, hs, -⟩
  have hlen := congrArg List.length hs
  have hu' := List.length_pos_of_ne_nil hu
  have hv' := List.length_pos_of_ne_nil hv
  rw [List.length_append, List.length_singleton] at hlen
  omega

end DistroDefender.Base
