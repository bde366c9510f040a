import Mathlib.Data.List.TakeWhile

/-!
# String utilities

`split` cuts a text at a delimiter. A leading delimiter and a trailing empty piece are dropped, so
a text without the delimiter is its own only piece (`split_of_not_mem`) and no piece contains the
delimiter (`not_mem_of_mem_split`).
-/

namespace DistroDefender.Base

/-- The text a C function sees: up to the first NUL. -/
def cstr (s : String) : String := String.ofList (s.toList.takeWhile (· ≠ Char.ofNat 0))

theorem toList_cstr (s : String) :
    (cstr s).toList = s.toList.takeWhile (· ≠ Char.ofNat 0) := String.toList_ofList

theorem not_mem_cstr (s : String) : Char.ofNat 0 ∉ (cstr s).toList := by
  rw [toList_cstr]
  intro h
  simpa using List.mem_takeWhile_imp h

theorem cstr_of_not_mem {s : String} (h : Char.ofNat 0 ∉ s.toList) : cstr s = s := by
  apply String.toList_injective
  rw [toList_cstr, List.takeWhile_eq_self_iff]
  intro c hc
  simp only [ne_eq, decide_eq_true_eq]
  rintro rfl
  exact h hc

/-- A C string is as long as the text only if it is the text. -/
theorem cstr_length_le (s : String) : (cstr s).toList.length ≤ s.toList.length ∧
    ((cstr s).toList.length = s.toList.length → cstr s = s) := by
  rw [toList_cstr]
  have hbefore := List.takeWhile_prefix (fun c => decide (c ≠ Char.ofNat 0)) (l := s.toList)
  refine ⟨hbefore.length_le, fun h => String.toList_injective ?_⟩
  rw [toList_cstr]
  exact hbefore.eq_of_length h

/-- The loop of `split`: `cur` is the piece read so far. -/
def splitLoop (delim : Char) : List Char → List Char → List String
  | cur, [] => if cur = [] then [] else [String.ofList cur]
  | cur, c :: cs =>
    if c = delim then String.ofList cur :: splitLoop delim [] cs
    else splitLoop delim (cur ++ [c]) cs

def split (str : String) (delim : Char) : List String :=
  match str.toList with
  | [] => []
  | c :: cs => splitLoop delim [] (if c = delim then cs else c :: cs)

/-- The loop of `splitEscaped`: an escape before itself or a delimiter lets that character
through. -/
def splitEscapedLoop (splitChar escape : Char) : List Char → List Char → List String
  | cur, [] => [String.ofList cur]
  | cur, [c] => if c = splitChar then [String.ofList cur, ""] else [String.ofList (cur ++ [c])]
  | cur, c :: next :: rest =>
    if c = escape then
      if next = escape ∨ next = splitChar then
        splitEscapedLoop splitChar escape (cur ++ [next]) rest
      else splitEscapedLoop splitChar escape (cur ++ [c]) (next :: rest)
    else if c = splitChar then String.ofList cur :: splitEscapedLoop splitChar escape []
      (next :: rest)
    else splitEscapedLoop splitChar escape (cur ++ [c]) (next :: rest)

def splitEscaped (input : String) (splitChar escape : Char) : List String :=
  splitEscapedLoop splitChar escape [] input.toList

def startsWith (str start : String) : Bool := str.toList.take start.toList.length = start.toList

def toLowerCase (str : String) : String := String.ofList (str.toList.map Char.toLower)

/-- The loop reads a stretch without the delimiter into the current piece. -/
theorem splitLoop_append {delim : Char} (cur : List Char) {p : List Char} (hp : delim ∉ p)
    (rest : List Char) :
    splitLoop delim cur (p ++ rest) = splitLoop delim (cur ++ p) rest := by
  induction p generalizing cur with
  | nil => simp
  | cons c cs ih =>
    obtain ⟨hc, hcs⟩ := List.ne_and_not_mem_of_not_mem_cons hp
    simp only [List.cons_append, splitLoop, if_neg hc.symm]
    rw [ih _ hcs, List.append_assoc, List.singleton_append]

theorem not_mem_of_mem_splitLoop {delim : Char} {cur cs : List Char} (hcur : delim ∉ cur)
    {p : String} (hp : p ∈ splitLoop delim cur cs) : delim ∉ p.toList := by
  induction cs generalizing cur with
  | nil =>
    simp only [splitLoop] at hp
    split at hp
    · cases hp
    · rw [List.mem_singleton] at hp
      subst hp
      simpa using hcur
  | cons c cs ih =>
    simp only [splitLoop] at hp
    split at hp
    · rcases List.mem_cons.mp hp with rfl | hp
      · simpa using hcur
      · exact ih (by simp) hp
    · rename_i hc
      exact ih (by simp [hcur, Ne.symm hc]) hp

/-- No piece contains the delimiter. -/
theorem not_mem_of_mem_split {delim : Char} {s p : String} (hp : p ∈ split s delim) :
    delim ∉ p.toList := by
  unfold split at hp
  split at hp
  · cases hp
  · exact not_mem_of_mem_splitLoop (by simp) hp

theorem mem_of_mem_splitLoop {delim c : Char} {cur cs : List Char} {p : String}
    (hp : p ∈ splitLoop delim cur cs) (hc : c ∈ p.toList) : c ∈ cur ∨ c ∈ cs := by
  induction cs generalizing cur with
  | nil =>
    simp only [splitLoop] at hp
    split at hp
    · cases hp
    · rw [List.mem_singleton] at hp
      subst hp
      rw [String.toList_ofList] at hc
      exact .inl hc
  | cons a cs ih =>
    simp only [splitLoop] at hp
    split at hp
    · rcases List.mem_cons.mp hp with rfl | hp
      · rw [String.toList_ofList] at hc
        exact .inl hc
      · rcases ih hp with h | h
        · cases h
        · exact .inr (List.mem_cons_of_mem a h)
    · rcases ih hp with h | h
      · rcases List.mem_append.mp h with h | h
        · exact .inl h
        · rw [List.mem_singleton] at h
          exact .inr (h ▸ List.mem_cons_self)
      · exact .inr (List.mem_cons_of_mem a h)

/-- The characters of a piece are characters of the text. -/
theorem mem_of_mem_split {delim c : Char} {s p : String} (hp : p ∈ split s delim)
    (hc : c ∈ p.toList) : c ∈ s.toList := by
  unfold split at hp
  split at hp
  · cases hp
  · rename_i a cs hs
    rw [hs]
    rcases mem_of_mem_splitLoop hp hc with h | h
    · cases h
    · split at h
      · exact List.mem_cons_of_mem a h
      · exact h

/-- A nonempty text without the delimiter is its own only piece. -/
theorem split_of_not_mem {delim : Char} {s : String} (hs : s ≠ "") (hd : delim ∉ s.toList) :
    split s delim = [s] := by
  unfold split
  cases h : s.toList with
  | nil => exact absurd (String.toList_injective h) hs
  | cons c cs =>
    rw [h] at hd
    have hc : c ≠ delim := fun e => hd (by simp [e])
    have hloop := splitLoop_append [] hd []
    simp only [List.append_nil, List.nil_append] at hloop
    simp only [if_neg hc, hloop, splitLoop, if_neg (List.cons_ne_nil c cs)]
    rw [← h, String.ofList_toList]

end DistroDefender.Base
