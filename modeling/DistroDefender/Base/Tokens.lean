import DistroDefender.Base.Paths
import DistroDefender.Base.JsonPath

/-!
# Keys at the end of a pointer

A key put after the text of a pointer is read as one more token, or not: what `rapidjson::Pointer`
documents of its two forms of text is in `Documented`, and `Unescaped` are the keys that it reads as
they stand (`reads_unescaped`, `unescaped_of_reads`).
-/

namespace DistroDefender.Base

open Lib

/-- The text is a URI fragment. -/
def isFragment (text : String) : Bool := text.toList.head? = some '#'

/-- A character that a URI fragment neither escapes nor encodes. -/
def Unreserved (c : Char) : Prop := c.isAlphanum = true ∨ c = '-' ∨ c = '.' ∨ c = '_'

instance : DecidablePred Unreserved := fun _ => inferInstanceAs (Decidable (_ ∨ _))

/-- What `rapidjson::Pointer` documents: a text is read as the sequence of its tokens, in a URI
fragment with percent encoding, where every other character than `Unreserved` is encoded or escaped,
and decoded into fewer. -/
structure Documented (reader : PointerReader) : Prop where
  plain : ∀ text p, isFragment text = false → (reader text = .ok p ↔ Pointer.ofText text = some p)
  fragment : ∀ text key p, isFragment text = true → reader text = .ok p →
    (∀ c ∈ key.toList, Unreserved c) → reader (text ++ "/" ++ key) = .ok (p ++ [key])
  decodes : ∀ text key p q, isFragment text = true → reader text = .ok p →
    reader (text ++ "/" ++ key) = .ok q →
    ∃ t ts, q = p ++ t :: ts ∧ t.length ≤ key.length ∧ (t = key → ∀ c ∈ key.toList, Unreserved c)

/-- After a text of this form, the key is read as it stands. -/
def Unescaped (fragment : Bool) (key : String) : Prop :=
  if fragment then ∀ c ∈ key.toList, Unreserved c
  else '/' ∉ key.toList ∧ '~' ∉ key.toList ∧ Char.ofNat 0 ∉ key.toList

/-! ## Texts -/

theorem isFragment_below (text key : String) :
    isFragment (text ++ "/" ++ key) = isFragment text := by
  unfold isFragment
  rw [String.toList_append, String.toList_append]
  cases text.toList with
  | nil => rfl
  | cons c cs => rfl

/-- A key after a NUL is not read at all. -/
theorem cstr_below_of_mem {text : String} (h : Char.ofNat 0 ∈ text.toList) (key : String) :
    cstr (text ++ "/" ++ key) = cstr text := by
  have hshort : (text.toList.takeWhile fun c => decide (c ≠ Char.ofNat 0)).length ≠
      text.toList.length := by
    intro hlen
    have hall := (List.takeWhile_prefix _).eq_of_length hlen
    simpa using (List.takeWhile_eq_self_iff.mp hall) _ h
  apply String.toList_injective
  rw [toList_cstr, toList_cstr, String.toList_append, String.toList_append, List.append_assoc,
    List.takeWhile_append, if_neg hshort]

theorem cstr_below_of_not_mem {text : String} (h : Char.ofNat 0 ∉ text.toList) (key : String) :
    cstr (text ++ "/" ++ key) = text ++ "/" ++ cstr key := by
  have hall : ∀ c ∈ (text ++ "/").toList, decide (c ≠ Char.ofNat 0) = true := by
    intro c hc
    rw [String.toList_append, List.mem_append] at hc
    rcases hc with hc | hc
    · exact decide_eq_true fun heq => h (heq ▸ hc)
    · rw [List.mem_singleton.mp hc]
      decide
  have hright : (text ++ "/" ++ cstr key).toList = (text ++ "/").toList ++ (cstr key).toList :=
    String.toList_append
  apply String.toList_injective
  rw [toList_cstr, String.toList_append, List.takeWhile_append_of_pos hall, hright, toList_cstr]

/-! ## Tokens -/

theorem encodeToken_eq_self {t : List Char} (hslash : '/' ∉ t) (htilde : '~' ∉ t) :
    encodeToken t = t := by
  induction t with
  | nil => rfl
  | cons c t ih =>
    rw [List.mem_cons, not_or] at hslash htilde
    have hc : encodeChar c = [c] := by
      unfold encodeChar
      rw [if_neg (Ne.symm htilde.1), if_neg (Ne.symm hslash.1)]
    unfold encodeToken at ih ⊢
    rw [List.flatMap_cons, hc, ih hslash.2 htilde.2]
    rfl

/-- An encoded token is as long as the token exactly when nothing in it is escaped. -/
theorem length_encodeToken (t : List Char) :
    t.length ≤ (encodeToken t).length ∧
    ((encodeToken t).length = t.length → '/' ∉ t ∧ '~' ∉ t) := by
  induction t with
  | nil => exact ⟨Nat.le_refl _, fun _ => ⟨List.not_mem_nil, List.not_mem_nil⟩⟩
  | cons c t ih =>
    have hcons : encodeToken (c :: t) = encodeChar c ++ encodeToken t := List.flatMap_cons
    rw [hcons, List.length_append, List.length_cons]
    by_cases hc : c = '~' ∨ c = '/'
    · have hlen : (encodeChar c).length = 2 := by rcases hc with rfl | rfl <;> rfl
      exact ⟨by omega, fun heq => by omega⟩
    · rw [not_or] at hc
      have hlen : (encodeChar c).length = 1 := by
        unfold encodeChar
        rw [if_neg hc.1, if_neg hc.2]
        rfl
      refine ⟨by omega, fun heq => ?_⟩
      obtain ⟨hslash, htilde⟩ := ih.2 (by omega)
      rw [List.mem_cons, List.mem_cons, not_or, not_or]
      exact ⟨⟨Ne.symm hc.2, hslash⟩, Ne.symm hc.1, htilde⟩

theorem encodeToken_inj {s t : List Char} (h : encodeToken s = encodeToken t) : s = t := by
  have hdecode := decodeChars_encodeToken s
  rw [h, decodeChars_encodeToken t] at hdecode
  exact (Option.some.inj hdecode).symm

theorem toList_text_cons (t : String) (ts : Pointer) :
    (Pointer.text (t :: ts)).toList = '/' :: encodeToken t.toList ++ (Pointer.text ts).toList := by
  unfold Pointer.text
  rw [String.toList_ofList, String.toList_ofList, List.flatMap_cons]

theorem toList_text_concat (p : Pointer) (t : String) :
    (Pointer.text (p ++ [t])).toList = (Pointer.text p).toList ++ '/' :: encodeToken t.toList := by
  unfold Pointer.text
  rw [String.toList_ofList, String.toList_ofList, List.flatMap_append, List.flatMap_singleton]

/-- What is before the first slash. -/
theorem takeWhile_encoded (t : List Char) {rest : List Char} (h : ∀ c ∈ rest.head?, c = '/') :
    (encodeToken t ++ rest).takeWhile (· ≠ '/') = encodeToken t := by
  have hall : ∀ c ∈ encodeToken t, decide (c ≠ '/') = true :=
    fun c hc => decide_eq_true fun heq => slash_not_mem_encodeToken t (heq ▸ hc)
  rw [List.takeWhile_append_of_pos hall]
  cases rest with
  | nil => rw [List.takeWhile_nil, List.append_nil]
  | cons c rest =>
    rw [h c rfl]
    simp

theorem head?_text (ts : Pointer) : ∀ c ∈ (Pointer.text ts).toList.head?, c = '/' := by
  intro c hc
  cases ts with
  | nil => cases hc
  | cons t ts =>
    rw [toList_text_cons] at hc
    cases hc
    rfl

/-- A text that goes on after the text of a pointer is the text of a longer pointer, if it is
one. -/
theorem text_below {p q : Pointer} {key : String}
    (h : Pointer.text q = Pointer.text p ++ "/" ++ key) :
    ∃ t ts, q = p ++ t :: ts ∧ encodeToken t.toList ++ (Pointer.text ts).toList = key.toList := by
  have hlist : (Pointer.text q).toList = (Pointer.text p).toList ++ '/' :: key.toList := by
    rw [h, String.toList_append, String.toList_append, List.append_assoc]
    rfl
  clear h
  induction p generalizing q with
  | nil =>
    cases q with
    | nil => cases hlist
    | cons t ts =>
      rw [toList_text_cons] at hlist
      exact ⟨t, ts, rfl, (List.cons.inj hlist).2⟩
  | cons s p ih =>
    cases q with
    | nil =>
      rw [toList_text_cons] at hlist
      cases hlist
    | cons t q =>
      rw [toList_text_cons, toList_text_cons, List.cons_append, List.cons_append, List.cons_append,
        List.append_assoc] at hlist
      have htail := (List.cons.inj hlist).2
      have hrest : ∀ c ∈ ((Pointer.text p).toList ++ '/' :: key.toList).head?, c = '/' := by
        intro c hc
        have hp := head?_text p
        cases htext : (Pointer.text p).toList with
        | nil =>
          rw [htext] at hc
          cases hc
          rfl
        | cons d ds =>
          rw [htext] at hc hp
          exact hp c hc
      have hfirst := congrArg (List.takeWhile (· ≠ '/')) htail
      rw [takeWhile_encoded _ (head?_text q), takeWhile_encoded _ hrest] at hfirst
      rw [hfirst, List.append_cancel_left_eq] at htail
      obtain ⟨t', ts, rfl, hkey⟩ := ih htail
      have hst : t = s := String.toList_injective (encodeToken_inj hfirst)
      exact ⟨t', ts, by rw [hst]; rfl, hkey⟩

/-- The token is no longer than what it is read from, and the same only where nothing is escaped. -/
theorem token_of_encoded {t key : List Char} {rest : List Char} (h : encodeToken t ++ rest = key) :
    t.length ≤ key.length ∧ (t = key → '/' ∉ key ∧ '~' ∉ key) := by
  obtain ⟨hlen, hescaped⟩ := length_encodeToken t
  have hkey := congrArg List.length h
  rw [List.length_append] at hkey
  refine ⟨by omega, ?_⟩
  rintro rfl
  exact hescaped (by omega)

theorem text_concat {p : Pointer} {key : String} (hslash : '/' ∉ key.toList)
    (htilde : '~' ∉ key.toList) : Pointer.text p ++ "/" ++ key = Pointer.text (p ++ [key]) := by
  apply String.toList_injective
  rw [String.toList_append, String.toList_append, toList_text_concat,
    encodeToken_eq_self hslash htilde, List.append_assoc]
  rfl

/-! ## Keys -/

/-- An unescaped key has no NUL. -/
theorem nul_not_mem {fragment : Bool} {key : String} (h : Unescaped fragment key) :
    Char.ofNat 0 ∉ key.toList := by
  unfold Unescaped at h
  cases fragment with
  | true =>
    rw [if_pos rfl] at h
    intro hmem
    rcases h _ hmem with hc | hc | hc | hc <;> revert hc <;> decide
  | false =>
    rw [if_neg Bool.false_ne_true] at h
    exact h.2.2

section Keys

variable {reader : PointerReader} (hreader : Documented reader) {text key : String} {p : Pointer}
include hreader

/-- An unescaped key is one more token. -/
theorem reads_unescaped (hnul : Char.ofNat 0 ∉ text.toList) (hp : reader (cstr text) = .ok p)
    (h : Unescaped (isFragment text) key) :
    reader (cstr (text ++ "/" ++ key)) = .ok (p ++ [key]) := by
  rw [cstr_of_not_mem hnul] at hp
  rw [cstr_below_of_not_mem hnul]
  cases hfragment : isFragment text with
  | true =>
    rw [hfragment] at h
    rw [cstr_of_not_mem (nul_not_mem h)]
    rw [Unescaped, if_pos rfl] at h
    exact hreader.fragment text key p hfragment hp h
  | false =>
    rw [hfragment, Unescaped, if_neg Bool.false_ne_true] at h
    obtain ⟨hslash, htilde, hkeynul⟩ := h
    have htext := Pointer.ofText_eq_some_iff.mp ((hreader.plain text p hfragment).mp hp)
    rw [cstr_of_not_mem hkeynul, hreader.plain _ _ (by rw [isFragment_below, hfragment]),
      Pointer.ofText_eq_some_iff, htext]
    exact text_concat hslash htilde

/-- A key whose text is read adds tokens; where its first token is the key, the key is unescaped. -/
theorem unescaped_of_reads (hnul : Char.ofNat 0 ∉ text.toList) (hp : reader (cstr text) = .ok p)
    {q : Pointer} (hq : reader (cstr (text ++ "/" ++ key)) = .ok q) :
    ∃ t ts, q = p ++ t :: ts ∧ (t = key → Unescaped (isFragment text) key) := by
  rw [cstr_of_not_mem hnul] at hp
  rw [cstr_below_of_not_mem hnul] at hq
  obtain ⟨hle, hwhole⟩ := cstr_length_le key
  -- what is read is no longer than the key up to its NUL
  suffices hread : ∃ t ts, q = p ++ t :: ts ∧ t.length ≤ (cstr key).length ∧
      (t = cstr key → Unescaped (isFragment text) (cstr key)) by
    obtain ⟨t, ts, hqt, hlen, hlit⟩ := hread
    refine ⟨t, ts, hqt, fun htk => ?_⟩
    rw [htk, ← String.length_toList, ← String.length_toList] at hlen
    have hkey := hwhole (Nat.le_antisymm hle hlen)
    rw [hkey] at hlit
    exact hlit htk
  unfold Unescaped
  cases hfragment : isFragment text with
  | true => exact hreader.decodes text (cstr key) p q hfragment hp hq
  | false =>
    have htext := Pointer.ofText_eq_some_iff.mp ((hreader.plain text p hfragment).mp hp)
    have hbelow := (hreader.plain _ q (by rw [isFragment_below, hfragment])).mp hq
    rw [Pointer.ofText_eq_some_iff, htext] at hbelow
    obtain ⟨t, ts, hqt, hkey⟩ := text_below hbelow.symm
    obtain ⟨hlen, hescaped⟩ := token_of_encoded hkey
    rw [String.length_toList, String.length_toList] at hlen
    refine ⟨t, ts, hqt, hlen, fun htk => ?_⟩
    obtain ⟨hslash, htilde⟩ := hescaped (congrArg String.toList htk)
    exact ⟨hslash, htilde, not_mem_cstr key⟩

end Keys

/-- An index is an unescaped key in both forms. -/
theorem unescaped_toString (fragment : Bool) (n : Nat) : Unescaped fragment (toString n) := by
  have hdigit : ∀ c ∈ (toString n).toList, c.isDigit = true := by
    intro c hc
    rw [Nat.toString_eq_ofList_toDigits, String.toList_ofList] at hc
    exact Nat.isDigit_of_mem_toDigits (by decide) (by decide) hc
  have hnot : ∀ c : Char, c.isDigit = false → c ∉ (toString n).toList := by
    intro c hc hmem
    rw [hdigit c hmem] at hc
    cases hc
  unfold Unescaped
  cases fragment with
  | true =>
    rw [if_pos rfl]
    intro c hc
    left
    unfold Char.isAlphanum
    rw [hdigit c hc, Bool.or_true]
  | false =>
    rw [if_neg Bool.false_ne_true]
    exact ⟨hnot _ (by decide), hnot _ (by decide), hnot _ (by decide)⟩

/-! ## A reader -/

def readText (text : String) : Except (Nat × String) Pointer :=
  match Pointer.ofText text with
  | some p => .ok p
  | none => .error (0, "A token must begin with a '/'")

theorem readText_eq_ok_iff {text : String} {p : Pointer} : readText text = .ok p ↔
    text = Pointer.text p := by
  rw [← Pointer.ofText_eq_some_iff]
  unfold readText
  cases Pointer.ofText text with
  | some q => exact ⟨fun h => congrArg some (Except.ok.inj h),
    fun h => congrArg Except.ok (Option.some.inj h)⟩
  | none => exact ⟨nofun, nofun⟩

/-- What follows the `#` of a URI fragment. -/
def fragmentText (text : String) : String := String.ofList (text.toList.drop 1)

theorem fragmentText_below {text : String} (h : isFragment text = true) (key : String) :
    fragmentText (text ++ "/" ++ key) = fragmentText text ++ "/" ++ key := by
  unfold isFragment at h
  unfold fragmentText
  apply String.toList_injective
  cases htext : text.toList with
  | nil =>
    rw [htext] at h
    cases h
  | cons c cs => simp [String.toList_append, htext]

/-- The reader of both forms, but for the URI fragments in which something is encoded or escaped. -/
def unencoded : PointerReader := fun text =>
  if isFragment text then
    if (fragmentText text).toList.all fun c =>
      c = '/' ∨ Unreserved c then readText (fragmentText text)
    else .error (1, "A character must be percent encoded in a URI fragment")
  else readText text

theorem unencoded_fragment {text : String} (h : isFragment text = true) {p : Pointer} :
    unencoded text = .ok p ↔ (∀ c ∈ (fragmentText text).toList, c = '/' ∨ Unreserved c) ∧
    fragmentText text = Pointer.text p := by
  unfold unencoded
  rw [if_pos h, ← readText_eq_ok_iff]
  split
  · rename_i hall
    exact (and_iff_right (by simpa using hall)).symm
  · rename_i hall
    exact iff_of_false (fun h => by cases h) fun h => hall (by simpa using h.1)

theorem documented_unencoded : Documented unencoded where
  plain text p h := by
    unfold unencoded
    rw [h, if_neg Bool.false_ne_true, readText_eq_ok_iff, Pointer.ofText_eq_some_iff]
  fragment text key p h hp hkey := by
    obtain ⟨hall, htext⟩ := (unencoded_fragment h).mp hp
    rw [unencoded_fragment (by rw [isFragment_below, h]), fragmentText_below h]
    constructor
    · intro c hc
      rw [String.toList_append, String.toList_append, List.mem_append, List.mem_append] at hc
      rcases hc with (hc | hc) | hc
      · exact hall c hc
      · exact .inl (List.mem_singleton.mp hc)
      · exact .inr (hkey c hc)
    · rw [htext]
      have hnot : ∀ c, ¬ Unreserved c → c ∉ key.toList := fun c hc hmem => hc (hkey c hmem)
      exact text_concat (hnot _ (by decide)) (hnot _ (by decide))
  decodes text key p q h hp hq := by
    obtain ⟨-, htext⟩ := (unencoded_fragment h).mp hp
    obtain ⟨hall, hbelow⟩ := (unencoded_fragment (by rw [isFragment_below, h])).mp hq
    rw [fragmentText_below h] at hall hbelow
    rw [htext] at hbelow
    obtain ⟨t, ts, hqt, hkey⟩ := text_below hbelow.symm
    obtain ⟨hlen, hescaped⟩ := token_of_encoded hkey
    rw [String.length_toList, String.length_toList] at hlen
    refine ⟨t, ts, hqt, hlen, fun htk c hc => ?_⟩
    have hslash := (hescaped (congrArg String.toList htk)).1
    have hmem : c ∈ (fragmentText text ++ "/" ++ key).toList := by
      rw [String.toList_append]
      exact List.mem_append_right _ hc
    rcases hall c hmem with rfl | hc'
    · exact absurd hc hslash
    · exact hc'

end DistroDefender.Base
