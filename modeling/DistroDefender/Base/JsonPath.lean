import DistroDefender.Base.DotPath
import DistroDefender.Base.Json
import DistroDefender.Lib.Reread

/-!
# JSON pointers of dotted paths

`formatJsonPath` writes a dotted path as a JSON pointer, and `DotPath::fromJsonPath` reads a pointer
as a dotted path. The text of a pointer and its reference tokens determine one another
(`Pointer.ofText_eq_some_iff`), so both are compared with the parts of a path on the symbols of the
text.
-/

namespace DistroDefender.Base

open Lib.Escape

/-! ## Pointers -/

/-- A character of a reference token, as RFC 6901 writes it. -/
def encodeChar (c : Char) : List Char :=
  if c = '~' then ['~', '0'] else if c = '/' then ['~', '1'] else [c]

def encodeToken (t : List Char) : List Char := t.flatMap encodeChar

/-- A reference token read back. -/
def decodeChars : List Char → Option (List Char)
  | [] => some []
  | [c] => if c = '~' then none else some [c]
  | c :: next :: rest =>
    if c = '~' then
      if next = '0' then (decodeChars rest).map ('~' :: ·)
      else if next = '1' then (decodeChars rest).map ('/' :: ·)
      else none
    else (decodeChars (next :: rest)).map (c :: ·)

/-- The text of a pointer. -/
def Pointer.text (ts : Pointer) : String :=
  String.ofList (ts.flatMap fun t => '/' :: encodeToken t.toList)

/-- The reference tokens of the text of a pointer. -/
def Pointer.ofText (text : String) : Option Pointer :=
  match text.toList with
  | [] => some []
  | c :: cs =>
    if c = '/' then ((pieces (plain '/' cs)).mapM decodeChars).map (·.map String.ofList) else none

/-- A symbol of a dotted path in the text of a pointer. -/
def written : Option Char → List Char
  | none => ['/']
  | some c => encodeChar c

theorem slash_not_mem_encodeChar (c : Char) : '/' ∉ encodeChar c := by
  unfold encodeChar
  by_cases ht : c = '~'
  · rw [if_pos ht]
    decide
  · rw [if_neg ht]
    by_cases hs : c = '/'
    · rw [if_pos hs]
      decide
    · rw [if_neg hs]
      simp [Ne.symm hs]

theorem slash_not_mem_encodeToken (t : List Char) : '/' ∉ encodeToken t := by
  unfold encodeToken
  rw [List.mem_flatMap]
  rintro ⟨c, -, hc⟩
  exact slash_not_mem_encodeChar c hc

theorem decodeChars_encodeToken (t : List Char) : decodeChars (encodeToken t) = some t := by
  induction t with
  | nil => rfl
  | cons c t ih =>
    have hcons : encodeToken (c :: t) = encodeChar c ++ encodeToken t := rfl
    rw [hcons]
    unfold encodeChar
    by_cases ht : c = '~'
    · rw [if_pos ht, ht]
      simp [decodeChars, ih]
    · rw [if_neg ht]
      by_cases hs : c = '/'
      · rw [if_pos hs, hs]
        simp [decodeChars, ih]
      · rw [if_neg hs, List.singleton_append]
        cases hrest : encodeToken t with
        | nil =>
          rw [hrest] at ih
          cases ih
          simp [decodeChars, ht]
        | cons c' rest =>
          rw [hrest] at ih
          simp [decodeChars, ht, ih]

theorem encodeToken_of_decodeChars : ∀ {p t : List Char}, '/' ∉ p → decodeChars p = some t →
    encodeToken t = p
  | [], t, _, h => by
    cases h
    rfl
  | [c], t, hp, h => by
    have hs : c ≠ '/' := fun e => hp (e ▸ List.mem_cons_self)
    rw [decodeChars] at h
    split at h
    · cases h
    · rename_i ht
      cases h
      simp [encodeToken, encodeChar, ht, hs]
  | c :: next :: rest, t, hp, h => by
    have hs : c ≠ '/' := fun e => hp (e ▸ List.mem_cons_self)
    have hnext : '/' ∉ next :: rest := fun hmem => hp (List.mem_cons_of_mem c hmem)
    have hrest : '/' ∉ rest := fun hmem => hnext (List.mem_cons_of_mem next hmem)
    rw [decodeChars] at h
    by_cases ht : c = '~'
    · rw [if_pos ht] at h
      by_cases h0 : next = '0'
      · rw [if_pos h0] at h
        obtain ⟨t', ht', rfl⟩ := Option.map_eq_some_iff.mp h
        have ih := encodeToken_of_decodeChars hrest ht'
        rw [ht, h0, ← ih]
        rfl
      · rw [if_neg h0] at h
        by_cases h1 : next = '1'
        · rw [if_pos h1] at h
          obtain ⟨t', ht', rfl⟩ := Option.map_eq_some_iff.mp h
          have ih := encodeToken_of_decodeChars hrest ht'
          rw [ht, h1, ← ih]
          rfl
        · rw [if_neg h1] at h
          cases h
    · rw [if_neg ht] at h
      obtain ⟨t', ht', rfl⟩ := Option.map_eq_some_iff.mp h
      have ih := encodeToken_of_decodeChars hnext ht'
      rw [← ih]
      simp [encodeToken, encodeChar, ht, hs]

/-- The symbols of the text of a pointer after its first slash. -/
def symbols (ts : Pointer) : List (Option Char) := join (ts.map fun t => encodeToken t.toList)

theorem text_eq {ts : Pointer} (h : ts ≠ []) :
    (Pointer.text ts).toList = '/' :: flat '/' (symbols ts) := by
  unfold Pointer.text symbols
  rw [String.toList_ofList, flat_join]
  induction ts with
  | nil => exact absurd rfl h
  | cons t ts ih =>
    cases ts with
    | nil => simp
    | cons t' ts =>
      rw [List.flatMap_cons, ih (List.cons_ne_nil t' ts)]
      simp [List.intercalate_cons_cons]

theorem plain_symbols (ts : Pointer) : plain '/' (flat '/' (symbols ts)) = symbols ts := by
  apply plain_flat
  unfold symbols
  rw [some_mem_join]
  rintro ⟨p, hp, hslash⟩
  obtain ⟨t, -, rfl⟩ := List.mem_map.mp hp
  exact slash_not_mem_encodeToken t.toList hslash

theorem ofText_text (ts : Pointer) : Pointer.ofText (Pointer.text ts) = some ts := by
  unfold Pointer.ofText
  by_cases hts : ts = []
  · rw [hts]
    rfl
  · have hmap : ts.map (fun t => encodeToken t.toList) ≠ [] := by simpa using hts
    have hdecode : (ts.map fun t => encodeToken t.toList).mapM decodeChars =
        some (ts.map String.toList) := by
      rw [List.mapM_map]
      have hone : ∀ t : String, (decodeChars ∘ fun t : String => encodeToken t.toList) t =
          some t.toList :=
        fun t => decodeChars_encodeToken t.toList
      rw [funext hone]
      exact List.mapM_pure
    rw [text_eq hts]
    simp only [if_true]
    rw [plain_symbols, symbols, pieces_join hmap, hdecode]
    simp

theorem eq_map_of_mapM {qs ps : List (List Char)} (hqs : ∀ q ∈ qs, '/' ∉ q)
    (h : qs.mapM decodeChars = some ps) : qs = ps.map encodeToken := by
  induction qs generalizing ps with
  | nil =>
    cases h
    rfl
  | cons q qs ih =>
    obtain ⟨hq, hrest⟩ := List.forall_mem_cons.mp hqs
    rw [List.mapM_cons] at h
    obtain ⟨t, ht, h⟩ := Option.bind_eq_some_iff.mp h
    obtain ⟨ts, hts, h⟩ := Option.bind_eq_some_iff.mp h
    cases h
    rw [List.map_cons, ← ih hrest hts, encodeToken_of_decodeChars hq ht]

theorem text_of_ofText {text : String} {ts : Pointer} (h : Pointer.ofText text = some ts) :
    text = Pointer.text ts := by
  unfold Pointer.ofText at h
  apply String.toList_injective
  split at h
  · rename_i htext
    cases h
    rw [htext]
    rfl
  · rename_i c cs htext
    split at h
    · rename_i hc
      obtain ⟨ps, hps, rfl⟩ := Option.map_eq_some_iff.mp h
      have hpieces := eq_map_of_mapM (fun q hq => not_mem_of_mem_pieces hq) hps
      have hne : ps.map String.ofList ≠ [] := by
        intro hnil
        rw [List.map_eq_nil_iff.mp hnil] at hpieces
        exact piecesFrom_ne_nil _ _ hpieces
      have hsymbols : symbols (ps.map String.ofList) = plain '/' cs := by
        unfold symbols
        rw [List.map_map, ← join_pieces (plain '/' cs), hpieces]
        exact congrArg join (List.map_congr_left fun t _ => by simp)
      rw [text_eq hne, hsymbols, flat_plain, htext, hc]
    · cases h

/-- The text of a pointer and its reference tokens determine one another. -/
theorem Pointer.ofText_eq_some_iff {text : String} {ts : Pointer} :
    Pointer.ofText text = some ts ↔ text = Pointer.text ts := by
  constructor
  · exact text_of_ofText
  · intro h
    rw [h, ofText_text]

/-! ## Formatting -/

/-- Every `c` is replaced, and the search goes on after what was put in its place. -/
def replaceChar (c : Char) (out s : List Char) : List Char :=
  s.flatMap fun x => if x = c then out else [x]

/-- The loop that turns dots into slashes. -/
def dotLoop : Bool → List Char → List Char
  | _, [] => []
  | prevCharWasSlash, c :: cs =>
    (if c = '.' ∧ prevCharWasSlash = false then ['/']
    else if c ≠ backslash ∨ ((c = '.' ∨ c = backslash) ∧ prevCharWasSlash = true) then [c]
    else []) ++ dotLoop (c = backslash) cs

/-- `none` is a call of `front()` on an empty string. -/
def formatJsonPath (dotPath : String) (skipDot : Bool) : Option String :=
  if dotPath = "." then some ""
  else
    let path := replaceChar '/' ['~', '1'] (replaceChar '~' ['~', '0'] dotPath.toList)
    let path := if skipDot then path else dotLoop false path
    match path with
    | [] => none
    | c :: cs => some (String.ofList (if c ≠ '/' then '/' :: c :: cs else c :: cs))

theorem replaceChar_both (s : List Char) :
    replaceChar '/' ['~', '1'] (replaceChar '~' ['~', '0'] s) = s.flatMap encodeChar := by
  unfold replaceChar
  rw [List.flatMap_assoc]
  refine List.flatMap_congr fun c _ => ?_
  unfold encodeChar
  by_cases ht : c = '~'
  · rw [if_pos ht, if_pos ht]
    rfl
  · rw [if_neg ht, if_neg ht, List.flatMap_singleton]

theorem dotLoop_cons {c : Char} (hd : c ≠ '.') (hb : c ≠ backslash) (prev : Bool) (cs : List Char) :
    dotLoop prev (c :: cs) = c :: dotLoop false cs := by
  rw [dotLoop]
  simp [hd, hb]

/-- The loop reads the escaped text as `remember` reads the text. -/
theorem dotLoop_eq (prev : Bool) (s : List Char) :
    dotLoop prev (s.flatMap encodeChar) = (remember '.' backslash prev s).flatMap written := by
  induction s generalizing prev with
  | nil => rfl
  | cons c s ih =>
    rw [List.flatMap_cons]
    by_cases ht : c = '~'
    · rw [ht, remember_cons (by decide) (by decide), List.flatMap_cons, ← ih]
      have henc : encodeChar '~' = ['~', '0'] := rfl
      rw [written, henc, List.cons_append, List.cons_append, dotLoop_cons (by decide) (by decide),
        dotLoop_cons (by decide) (by decide)]
      rfl
    · by_cases hs : c = '/'
      · rw [hs, remember_cons (by decide) (by decide), List.flatMap_cons, ← ih]
        have henc : encodeChar '/' = ['~', '1'] := rfl
        rw [written, henc, List.cons_append, List.cons_append, dotLoop_cons (by decide) (by decide),
          dotLoop_cons (by decide) (by decide)]
        rfl
      · have henc : encodeChar c = [c] := by
          unfold encodeChar
          rw [if_neg ht, if_neg hs]
        rw [henc, List.singleton_append, dotLoop, remember, List.flatMap_append, ← ih]
        congr 1
        by_cases hdot : c = '.' ∧ prev = false
        · rw [if_pos hdot, if_pos hdot]
          rfl
        · rw [if_neg hdot, if_neg hdot]
          by_cases hc : c = backslash
          · cases prev <;> simp [hc, written, hc ▸ henc]
          · simp [hc, written, henc]

/-- The text of a path other than ".": a slash and the symbols `remember` reads, but for a separator
at the start. -/
theorem formatJsonPath_eq {s : String} (hdot : s ≠ ".")
    (hsome : remember '.' backslash false s.toList ≠ []) : formatJsonPath s false =
      some (String.ofList
        ('/' :: (remember '.' backslash false (dropDot s).toList).flatMap written)) := by
  unfold formatJsonPath
  rw [if_neg hdot]
  simp only [Bool.false_eq_true, if_false]
  rw [replaceChar_both, dotLoop_eq]
  have hde : '.' ≠ backslash := by decide
  by_cases hhead : s.toList.head? = some '.'
  · rw [toList_of_head? hhead, remember_delim hde]
    simp [written]
  · rw [dropDot_of_head?_ne hhead]
    have hfirst := mt (head?_remember hde s.toList).mp hhead
    cases hr : remember '.' backslash false s.toList with
    | nil => exact absurd hr hsome
    | cons x l =>
      cases x with
      | none => simp [hr] at hfirst
      | some c =>
        rw [List.flatMap_cons]
        have hslash := slash_not_mem_encodeChar c
        cases he : encodeChar c with
        | nil =>
          unfold encodeChar at he
          split at he
          · cases he
          · split at he <;> cases he
        | cons c' cs' =>
          rw [he] at hslash
          have hc' : c' ≠ '/' := fun e => hslash (e ▸ List.mem_cons_self)
          simp [written, he, hc']

/-! ## The parts of a path -/

theorem dot_ne_backslash : '.' ≠ backslash := by decide

theorem parts_ofString {s : String} {d : DotPath} (h : DotPath.ofString s = .ok d) :
    partsOf (dropDot s) = .ok d.parts :=
  (ofString_eq_ok h).symm ▸ d.parsed

/-- The parts of a nonempty text are its pieces. -/
theorem parts_of_partsOf {str : String} {parts : List String} (hstr : str ≠ "")
    (h : partsOf str = .ok parts) :
    parts = (pieces (unescape '.' backslash str.toList)).map String.ofList := by
  unfold partsOf at h
  rw [if_neg hstr] at h
  dsimp only at h
  split at h
  · cases h
  · cases h
    exact splitEscaped_eq str '.' backslash

theorem flat_join_encodeToken (ps : List (List Char)) :
    flat '/' (join (ps.map encodeToken)) = (join ps).flatMap written := by
  have hone : ∀ p : List Char, (p.map some).flatMap written = encodeToken p := fun p => by
    rw [List.flatMap_map]
    rfl
  induction ps with
  | nil => rfl
  | cons p ps ih =>
    cases ps with
    | nil => simp [join, hone]
    | cons q ps =>
      rw [List.map_cons, join_cons (by simp), join, List.flatMap_append, List.flatMap_cons,
        ← ih, hone]
      simp [written]

/-- A pointer whose tokens are the pieces of symbols. -/
theorem text_pieces (l : List (Option Char)) :
    Pointer.text ((pieces l).map String.ofList) = String.ofList ('/' :: l.flatMap written) := by
  have hne : (pieces l).map String.ofList ≠ [] :=
    fun h => pieces_ne_nil l (List.map_eq_nil_iff.mp h)
  have htokens : ((fun t : String => encodeToken t.toList) ∘ String.ofList) = encodeToken := by
    funext t
    simp
  apply String.toList_injective
  rw [text_eq hne, String.toList_ofList, symbols, List.map_map, htokens, flat_join_encodeToken,
    join_pieces]

/-- `formatJsonPath` writes the tokens `parts`. -/
def FormatsAs (s : String) (parts : List String) : Prop :=
  ∃ text, formatJsonPath s false = some text ∧ Pointer.ofText text = some parts

theorem formatsAs_pieces {s : String} (hdot : s ≠ ".")
    (hsome : remember '.' backslash false s.toList ≠ []) {l : List (Option Char)} :
    FormatsAs s ((pieces l).map String.ofList) ↔
    remember '.' backslash false (dropDot s).toList = l := by
  unfold FormatsAs
  rw [formatJsonPath_eq hdot hsome]
  constructor
  · rintro ⟨text, htext, hparts⟩
    rw [← Option.some.inj htext, ← text_pieces, ofText_text, Option.some.injEq, ofList_map_inj,
      pieces_inj] at hparts
    exact hparts
  · intro h
    refine ⟨_, rfl, ?_⟩
    rw [← text_pieces, ofText_text, h]

/-- A leading dot does not matter to the two readers. -/
theorem remember_dropDot_eq_iff (s : String) :
    remember '.' backslash false (dropDot s).toList = unescape '.' backslash (dropDot s).toList ↔
      ∀ r ∈ runs backslash 0 s.toList, Alike '.' r := by
  rw [eq_comm, unescape_eq_remember_iff dot_ne_backslash]
  by_cases hhead : s.toList.head? = some '.'
  · rw [toList_of_head? hhead, runs_delim dot_ne_backslash, List.forall_mem_cons]
    simp [Alike]
  · rw [dropDot_of_head?_ne hhead]

/-- `front()` is called on an empty string where nothing is read. -/
theorem formatJsonPath_eq_none {s : String} (hdot : s ≠ ".")
    (hnil : remember '.' backslash false s.toList = []) : formatJsonPath s false = none := by
  unfold formatJsonPath
  rw [if_neg hdot]
  simp only [Bool.false_eq_true, if_false]
  rw [replaceChar_both, dotLoop_eq, hnil]
  rfl

/-- For a text `DotPath` accepts, `formatJsonPath` writes its parts exactly when the text is not
empty and every run of backslashes in it is one that both readers take alike: one backslash before a
dot, two or three before anything else or at the end. -/
theorem formatJsonPath_reads_alike {s : String} {d : DotPath} (h : DotPath.ofString s = .ok d) :
    FormatsAs s d.parts ↔ s ≠ "" ∧ ∀ r ∈ runs backslash 0 s.toList, Alike '.' r := by
  have hparts := parts_ofString h
  by_cases hempty : s = ""
  · refine iff_of_false ?_ (fun h => h.1 hempty)
    rintro ⟨text, htext, -⟩
    rw [hempty] at htext
    cases htext
  by_cases hdot : s = "."
  · rw [hdot] at hparts ⊢
    have hroot : d.parts = [] := (Except.ok.inj hparts).symm
    rw [hroot]
    exact iff_of_true ⟨"", rfl, rfl⟩ ⟨by decide, by decide⟩
  have hrest : dropDot s ≠ "" := fun hnil => (dropDot_eq_empty_iff.mp hnil).elim hempty hdot
  rw [parts_of_partsOf hrest hparts, ← remember_dropDot_eq_iff]
  by_cases hnil : remember '.' backslash false s.toList = []
  · have hhead : s.toList.head? ≠ some '.' := by
      rw [ne_eq, ← head?_remember dot_ne_backslash, hnil]
      simp
    have hchars : s.toList ≠ [] := fun h => hempty (String.toList_injective h)
    rw [dropDot_of_head?_ne hhead, hnil]
    refine iff_of_false ?_ (fun hcond => unescape_ne_nil hchars hcond.2.symm)
    rintro ⟨text, htext, -⟩
    rw [formatJsonPath_eq_none hdot hnil] at htext
    cases htext
  · rw [formatsAs_pieces hdot hnil]
    exact ⟨fun heq => ⟨hempty, heq⟩, fun hcond => hcond.2⟩

/-- "a.b", without a backslash. -/
theorem formatJsonPath_reads_ab : FormatsAs "a.b" ["a", "b"] := by
  refine (formatJsonPath_reads_alike (d := ⟨"a.b", ["a", "b"], by decide⟩) (by rfl)).mpr ⟨?_, ?_⟩
  · decide
  · decide +kernel

/-- One backslash that escapes nothing is dropped by `formatJsonPath` and kept by `DotPath`; on the
empty text `front()` is undefined. -/
theorem formatJsonPath_drops_backslash :
    (∃ d, DotPath.ofString (String.ofList ['a', backslash, 'b']) = .ok d ∧
      ¬ FormatsAs (String.ofList ['a', backslash, 'b']) d.parts) ∧
      ∃ d, DotPath.ofString "" = .ok d ∧ ¬ FormatsAs "" d.parts := by
  have hformat : formatJsonPath (String.ofList ['a', backslash, 'b']) false = some "/ab" := by
    decide
  have hread : Pointer.ofText "/ab" = some ["ab"] := by decide
  refine ⟨⟨⟨String.ofList ['a', backslash, 'b'],
    [String.ofList ['a', backslash, 'b']], by decide⟩, by rfl, ?_⟩, .root, rfl, ?_⟩
  · rintro ⟨text, htext, htokens⟩
    cases hformat.symm.trans htext
    rw [hread] at htokens
    revert htokens
    decide
  · rintro ⟨text, htext, -⟩
    cases htext

/-! ## Reading a pointer -/

/-- What is left of an encoded token once "~0" is decoded. -/
def slashEncoded (t : List Char) : List Char := t.flatMap fun c => if c = '/' then ['~', '1']
  else [c]

theorem replacePair_zero (t : List Char) :
    replacePair '~' '0' '~' (encodeToken t) = slashEncoded t := by
  induction t with
  | nil => rfl
  | cons c t ih =>
    have hcons : encodeToken (c :: t) = encodeChar c ++ encodeToken t := rfl
    rw [hcons, slashEncoded, List.flatMap_cons]
    unfold encodeChar
    by_cases ht : c = '~'
    · rw [if_pos ht, ht, List.cons_append, List.cons_append, replacePair, if_pos ⟨rfl, rfl⟩,
        List.nil_append, ih]
      rfl
    · rw [if_neg ht]
      by_cases hs : c = '/'
      · rw [if_pos hs, List.cons_append, List.cons_append, replacePair, if_neg (by decide),
          replacePair_cons (by decide), List.nil_append, ih]
        rfl
      · rw [if_neg hs, List.singleton_append, replacePair_cons ht, ih]
        rfl

theorem slashEncoded_head? (c : Char) (t : List Char) :
    (slashEncoded (c :: t)).head? = some (if c = '/' then '~' else c) := by
  unfold slashEncoded
  rw [List.flatMap_cons]
  split <;> rfl

theorem slashEncoded_cons {c : Char} (hs : c ≠ '/') (t : List Char) :
    slashEncoded (c :: t) = c :: slashEncoded t := by
  unfold slashEncoded
  rw [List.flatMap_cons, if_neg hs, List.singleton_append]

/-- The second substitution does not tell an encoded slash from "~1". -/
theorem replacePair_one : ∀ t : List Char, replacePair '~' '1' '/' (slashEncoded t) =
    replacePair '~' '1' '/' t
  | [] => rfl
  | [c] => by
    by_cases hs : c = '/'
    · rw [hs]
      rfl
    · rw [slashEncoded_cons hs]
      rfl
  | c :: next :: rest => by
    have ih := replacePair_one rest
    have ih' := replacePair_one (next :: rest)
    by_cases hs : c = '/'
    · have hhead : slashEncoded (c :: next :: rest) = '~' :: '1' ::
          slashEncoded (next :: rest) := by
        rw [hs]
        rfl
      rw [hhead, replacePair, if_pos ⟨rfl, rfl⟩, ih', hs]
      exact (replacePair_cons (by decide) (next :: rest)).symm
    · rw [slashEncoded_cons hs]
      by_cases ht : c = '~'
      · rw [ht, replacePair]
        by_cases h1 : next = '1'
        · rw [if_pos ⟨rfl, h1⟩, h1, slashEncoded_cons (by decide), replacePair,
            if_pos ⟨rfl, rfl⟩, ih]
        · rw [if_neg (fun h => h1 h.2), ← ih']
          have hhead := slashEncoded_head? next rest
          cases hrest : slashEncoded (next :: rest) with
          | nil => simp [hrest] at hhead
          | cons x l =>
            have hx : x ≠ '1' := by
              rw [hrest, List.head?_cons, Option.some.injEq] at hhead
              rw [hhead]
              split
              · decide
              · exact h1
            rw [replacePair, if_neg (fun h => hx h.2)]
      · rw [replacePair_cons ht, replacePair_cons ht, ih']

theorem decodeToken_encodeToken (t : List Char) :
    DotPath.decodeToken (String.ofList (encodeToken t)) =
      String.ofList (replacePair '~' '1' '/' t) := by
  unfold DotPath.decodeToken
  rw [String.toList_ofList, replacePair_zero, replacePair_one]

theorem encodeToken_eq_nil {t : List Char} : encodeToken t = [] ↔ t = [] := by
  constructor
  · intro h
    have hdecode := decodeChars_encodeToken t
    rw [h] at hdecode
    exact (Option.some.inj hdecode).symm
  · intro h
    rw [h]
    rfl

theorem dropEmptyLast_encode (ts : List (List Char)) :
    dropEmptyLast (ts.map encodeToken) = (dropEmptyLast ts).map encodeToken := by
  have hlast : (ts.map encodeToken).getLast? = some [] ↔ ts.getLast? = some [] := by
    rw [List.getLast?_map, Option.map_eq_some_iff]
    constructor
    · rintro ⟨t, ht, hnil⟩
      rw [ht, encodeToken_eq_nil.mp hnil]
    · intro h
      exact ⟨[], h, rfl⟩
  unfold dropEmptyLast
  by_cases h : ts.getLast? = some []
  · rw [if_pos h, if_pos (hlast.mpr h), List.map_dropLast]
  · rw [if_neg h, if_neg (mt hlast.mp h)]

/-- The tokens `fromJsonPath` reads of a pointer whose first token is not empty: an empty one at the
end is lost. -/
theorem decodedTokens_text {ts : List (List Char)} (hne : ts ≠ []) (hhead : ts.head? ≠ some []) :
    DotPath.decodedTokens (Pointer.text (ts.map String.ofList)) =
      (dropEmptyLast ts).map fun t => String.ofList (replacePair '~' '1' '/' t) := by
  have hstrings : ts.map String.ofList ≠ [] := by simpa using hne
  have hencoded : ts.map encodeToken ≠ [] := by simpa using hne
  have hsymbols : symbols (ts.map String.ofList) = join (ts.map encodeToken) := by
    unfold symbols
    rw [List.map_map]
    exact congrArg join (List.map_congr_left fun t _ => by simp)
  have hplain := plain_symbols (ts.map String.ofList)
  have hpieces : pieces (plain '/' (flat '/' (symbols (ts.map String.ofList)))) =
      ts.map encodeToken := by
    rw [hplain, hsymbols, pieces_join hencoded]
  have hfirst : (flat '/' (symbols (ts.map String.ofList))).head? ≠ some '/' := by
    intro hslash
    cases hl : flat '/' (symbols (ts.map String.ofList)) with
    | nil => simp [hl] at hslash
    | cons c cs =>
      rw [hl] at hslash hpieces
      cases hslash
      cases ts with
      | nil => exact hne rfl
      | cons t ts =>
        have ht : [] = encodeToken t := (List.cons.inj hpieces).1
        exact hhead (congrArg some (encodeToken_eq_nil.mp ht.symm))
  unfold DotPath.decodedTokens
  rw [text_eq hstrings]
  simp only [List.head?_cons, if_true, List.drop_one, List.tail_cons]
  rw [split_of_head? (by rwa [String.toList_ofList]), String.toList_ofList, splitLoop_eq]
  change ((dropEmptyLast (pieces _)).map String.ofList).map DotPath.decodeToken = _
  rw [hpieces, dropEmptyLast_encode, List.map_map, List.map_map]
  exact List.map_congr_left fun t _ => decodeToken_encodeToken t

/-- `fromJsonPath` parses the tokens joined with dots, every "~1" in them a slash. -/
theorem fromJsonPath_text {ts : List (List Char)} (hne : ts ≠ []) (hhead : ts.head? ≠ some []) :
    DotPath.fromJsonPath (Pointer.text (ts.map String.ofList)) =
      DotPath.ofString
        (String.ofList (replacePair '~' '1' '/' (['.'].intercalate (dropEmptyLast ts)))) := by
  rw [fromJsonPath_eq, decodedTokens_text hne hhead]
  congr 1
  apply String.toList_injective
  have hdot : ".".toList = ['.'] := rfl
  rw [String.toList_intercalate, hdot, replacePair_intercalate (by decide) (by decide),
    String.toList_ofList, List.map_map]
  exact congrArg _ (List.map_congr_left fun t _ => String.toList_ofList)

theorem toList_dropDot (v : List Char) : (dropDot (String.ofList v)).toList = strip '.' v := by
  cases v with
  | nil => rfl
  | cons c v =>
    by_cases hc : c = '.'
    · have hlist := toList_of_head? (s := String.ofList (c :: v)) (by simp [hc])
      rw [String.toList_ofList] at hlist
      rw [strip, if_pos hc]
      exact (List.cons.inj hlist).2.symm
    · rw [dropDot_of_head?_ne (by simp [hc]), String.toList_ofList, strip, if_neg hc]

/-- The parts of what `DotPath` makes of a text, when none of them is empty. -/
theorem ofString_parts_iff {v : List Char} {ts : List (List Char)} (hne : ts ≠ [])
    (hts : ∀ t ∈ ts, t ≠ []) :
    (∃ d, DotPath.ofString (String.ofList v) = .ok d ∧ d.parts = ts.map String.ofList) ↔
      unescape '.' backslash (strip '.' v) = join ts := by
  have hstrip := toList_dropDot v
  have hcut : ts.map String.ofList =
      (pieces (unescape '.' backslash (strip '.' v))).map String.ofList ↔
      unescape '.' backslash (strip '.' v) = join ts := by
    rw [ofList_map_inj]
    constructor
    · intro h
      rw [h, join_pieces]
    · intro h
      rw [h, pieces_join hne]
  have hstrings : ts.map String.ofList ≠ [] := by simpa using hne
  constructor
  · rintro ⟨d, hd, hparts⟩
    have hdparts := parts_ofString hd
    rw [hparts] at hdparts
    have hrest : dropDot (String.ofList v) ≠ "" := by
      intro hnil
      rw [hnil] at hdparts
      exact hstrings (Except.ok.inj hdparts).symm
    have hpieces := parts_of_partsOf hrest hdparts
    rw [hstrip] at hpieces
    exact hcut.mp hpieces
  · intro h
    have hpieces := hcut.mpr h
    have hsplit : splitEscaped (dropDot (String.ofList v)) '.' backslash =
        ts.map String.ofList := by
      rw [splitEscaped_eq, hstrip, hpieces]
    have hempty : "" ∉ ts.map String.ofList := by
      intro hmem
      obtain ⟨t, ht, hnil⟩ := List.mem_map.mp hmem
      have hlist := congrArg String.toList hnil
      rw [String.toList_ofList] at hlist
      exact hts t ht hlist
    have hparts : partsOf (dropDot (String.ofList v)) = .ok (ts.map String.ofList) := by
      have hrest : dropDot (String.ofList v) ≠ "" := by
        intro hnil
        rw [hnil] at hsplit
        exact hempty (hsplit ▸ List.mem_cons_self)
      have hdot : dropDot (String.ofList v) ≠ "." := by
        intro hdot
        rw [hdot] at hsplit
        exact hempty (hsplit ▸ List.mem_cons_self)
      rw [partsOf_of_ne hrest hdot, hsplit, if_neg hempty]
    obtain ⟨d, hd, -, hp⟩ := ofString_of_partsOf hparts
    exact ⟨d, hd, hp⟩

/-- Tokens that are decoded and parsed as they are. -/
structure Verbatim (ts : Pointer) : Prop where
  noDot : ∀ t ∈ ts, '.' ∉ t.toList
  noTilde : ∀ t ∈ ts, ¬ ['~', '1'] <:+: t.toList
  noEscape : ∀ t ∈ ts, ¬ [backslash, backslash] <:+: t.toList
  noneBefore : ∀ t ∈ ts.dropLast, t.toList.getLast? ≠ some backslash

/-- Nothing stands in the joined tokens that stands in none of them. -/
theorem joined_iff (ts : List String) :
    ((∀ t ∈ ts, '.' ∉ t.toList) ∧ (∀ t ∈ ts, ¬ [backslash, backslash] <:+: t.toList) ∧
        ∀ t ∈ ts.dropLast, t.toList.getLast? ≠ some backslash) ↔
      (∀ t ∈ ts.map String.toList, '.' ∉ t) ∧
        ¬ [backslash, backslash] <:+: ['.'].intercalate (ts.map String.toList) ∧
        ¬ [backslash, '.'] <:+: ['.'].intercalate (ts.map String.toList) := by
  rw [← List.forall_mem_map (P := fun t => '.' ∉ t), pair_infix_intercalate (by decide) (by decide)]
  refine and_congr_right fun hdots => ?_
  rw [last_infix_intercalate (by decide) hdots, ← List.map_dropLast]
  simp only [List.mem_map, exists_exists_and_eq_and, not_exists, not_and, ne_eq]

theorem verbatim_iff (ts : Pointer) : Verbatim ts ↔ (∀ t ∈ ts.map String.toList, '.' ∉ t) ∧
    ¬ ['~', '1'] <:+: ['.'].intercalate (ts.map String.toList) ∧
    ¬ [backslash, backslash] <:+: ['.'].intercalate (ts.map String.toList) ∧
    ¬ [backslash, '.'] <:+: ['.'].intercalate (ts.map String.toList) := by
  have htilde : (¬ ['~', '1'] <:+: ['.'].intercalate (ts.map String.toList)) ↔
      ∀ t ∈ ts, ¬ ['~', '1'] <:+: t.toList := by
    rw [pair_infix_intercalate (by decide) (by decide)]
    simp only [List.mem_map, exists_exists_and_eq_and, not_exists, not_and]
  rw [htilde, and_left_comm, ← joined_iff]
  constructor
  · intro h
    exact ⟨h.noTilde, h.noDot, h.noEscape, h.noneBefore⟩
  · rintro ⟨htilde, hdot, hescape, hbefore⟩
    exact ⟨hdot, htilde, hescape, hbefore⟩

/-- The parts of what `fromJsonPath` makes of a text. -/
def ReadsAs (text : String) (parts : List String) : Prop :=
  ∃ d, DotPath.fromJsonPath text = .ok d ∧ d.parts = parts

/-- Nonempty tokens are the parts of their pointer exactly when they are `Verbatim`. -/
theorem readsAs_text_iff {ts : Pointer} (hts : ∀ t ∈ ts, t ≠ "") : ReadsAs (Pointer.text ts) ts ↔
    Verbatim ts := by
  unfold ReadsAs
  by_cases hnil : ts = []
  · rw [hnil]
    exact iff_of_true ⟨.root, rfl, rfl⟩ ⟨by simp, by simp, by simp, by simp⟩
  have hlists : (ts.map String.toList).map String.ofList = ts := by simp
  have hne : ts.map String.toList ≠ [] := by simpa using hnil
  have hnonempty : ∀ t ∈ ts.map String.toList, t ≠ [] := by
    intro p hp hpnil
    obtain ⟨t, ht, rfl⟩ := List.mem_map.mp hp
    exact hts t ht (String.toList_injective hpnil)
  have hhead : (ts.map String.toList).head? ≠ some [] :=
    fun h => hnonempty [] (List.mem_of_head? h) rfl
  have hlast : (ts.map String.toList).getLast? ≠ some [] :=
    fun h => hnonempty [] (List.mem_of_getLast? h) rfl
  have htext := fromJsonPath_text hne hhead
  have hparts := fun v => ofString_parts_iff (v := v) hne hnonempty
  rw [dropEmptyLast, if_neg hlast, hlists] at htext
  simp only [hlists] at hparts
  rw [htext, hparts, unescape_intercalate_iff dot_ne_backslash hnonempty, verbatim_iff]

/-- The pointer of some symbols, read as the pieces of others. -/
theorem readsAs_written_iff {l l' : List (Option Char)} (hnil : l ≠ [])
    (hhead : l.head? ≠ some none) (hpieces : ∀ p ∈ pieces l', p ≠ []) :
    ReadsAs (String.ofList ('/' :: l.flatMap written)) ((pieces l').map String.ofList) ↔
      unescape '.' backslash
        (strip '.' (replacePair '~' '1' '/' (['.'].intercalate (dropEmptyLast (pieces l))))) =
        l' := by
  have hfirst : (pieces l).head? ≠ some [] := by
    intro h
    rcases head?_pieces h with h | h
    · exact hnil h
    · exact hhead h
  unfold ReadsAs
  rw [← text_pieces, fromJsonPath_text (pieces_ne_nil l) hfirst,
    ofString_parts_iff (pieces_ne_nil l') hpieces, join_pieces]

/-- Texts that are written as a pointer and read back to the same parts. -/
structure Returns (str : String) : Prop where
  nonempty : str ≠ ""
  notDot : str ≠ "."
  noTilde : ¬ ['~', '1'] <:+: str.toList
  even : ∀ r ∈ runs backslash 0 str.toList, Even '.' r

/-- The parts of a path with a nonempty text other than ".", as lists. -/
theorem pieces_of_path (d : DotPath) (hempty : d.str ≠ "") (hdot : d.str ≠ ".") :
    d.parts = (pieces (unescape '.' backslash d.str.toList)).map String.ofList ∧
      ∀ p ∈ pieces (unescape '.' backslash d.str.toList), p ≠ [] := by
  have hparts := parts_of_partsOf hempty d.parsed
  refine ⟨hparts, fun p hp hnil => (no_empty_part_iff d).mpr hdot ?_⟩
  rw [hparts, List.mem_map]
  exact ⟨p, hp, by rw [hnil]⟩

/-- Such a text does not begin with a dot. -/
theorem head?_of_path (d : DotPath) (hempty : d.str ≠ "") (hdot : d.str ≠ ".") :
    d.str.toList.head? ≠ some '.' := by
  have hnonempty := (pieces_of_path d hempty hdot).2
  intro h
  have hx := (head?_unescape_eq_none dot_ne_backslash d.str.toList).mpr h
  obtain ⟨l, hl⟩ := List.head?_eq_some_iff.mp hx
  rw [hl] at hnonempty
  exact hnonempty [] List.mem_cons_self rfl

/-- A path is written and read back to the same parts exactly when its text is neither empty nor
".", has no "~1", no backslash directly before a dot, and an even number of them everywhere else. -/
theorem readsAs_formatJsonPath_iff (d : DotPath) :
    (∃ text, formatJsonPath d.str false = some text ∧ ReadsAs text d.parts) ↔ Returns d.str := by
  have hde := dot_ne_backslash
  by_cases hempty : d.str = ""
  · refine iff_of_false ?_ (fun h => h.nonempty hempty)
    rintro ⟨text, htext, -⟩
    rw [hempty] at htext
    cases htext
  by_cases hdot : d.str = "."
  · refine iff_of_false ?_ (fun h => h.notDot hdot)
    rintro ⟨text, htext, d', hd', hparts⟩
    have hstored := d.parsed
    rw [hdot] at htext hstored
    cases htext
    cases hd'
    rw [← hparts] at hstored
    cases hstored
  obtain ⟨hparts, hnonempty⟩ := pieces_of_path d hempty hdot
  have hread := unescape_ne_nil (d := '.') (e := backslash) fun h =>
    hempty (String.toList_injective h)
  have hhead := head?_of_path d hempty hdot
  have hcond : Returns d.str ↔
      (∀ r ∈ runs backslash 0 d.str.toList, Even '.' r) ∧ ¬ ['~', '1'] <:+: d.str.toList :=
    ⟨fun h => ⟨h.even, h.noTilde⟩, fun h => ⟨hempty, hdot, h.2, h.1⟩⟩
  rw [hcond, hparts]
  by_cases hnil : remember '.' backslash false d.str.toList = []
  · refine iff_of_false ?_ ?_
    · rintro ⟨text, htext, -⟩
      rw [formatJsonPath_eq_none hdot hnil] at htext
      cases htext
    · intro h
      have hsame := unescape_flat_remember_of_even hde h.1
      rw [hnil] at hsame
      exact hread hsame.symm
  have hformat := formatJsonPath_eq hdot hnil
  rw [dropDot_of_head?_ne hhead] at hformat
  simp only [hformat, Option.some.injEq, exists_eq_left']
  rw [readsAs_written_iff hnil (mt (head?_remember hde d.str.toList).mp hhead) hnonempty,
    dropEmptyLast]
  by_cases hlast : (pieces (remember '.' backslash false d.str.toList)).getLast? = some []
  · obtain ⟨l', hend⟩ := (getLast?_pieces hlast).resolve_left hnil
    have hunread : (unescape '.' backslash d.str.toList).getLast? ≠ some none := by
      intro h
      obtain ⟨init, hinit⟩ := List.getLast?_eq_some_iff.mp h
      rw [hinit] at hnonempty
      refine hnonempty [] ?_ rfl
      rw [pieces, piecesFrom_append_none]
      exact List.mem_append_right _ List.mem_cons_self
    have hlost := unescape_again_end (a := '~') (b := '1') (c := '/') hde (by decide) hend hunread
    have hdrop : (pieces (remember '.' backslash false d.str.toList)).dropLast = pieces l' := by
      rw [hend, pieces, piecesFrom_append_none]
      exact List.dropLast_concat
    rw [if_pos hlast, hdrop, ← flat_join, join_pieces]
    exact iff_of_false hlost.2 (fun h => hlost.1 h.1)
  · rw [if_neg hlast, ← flat_join, join_pieces]
    exact unescape_again_iff hde (by decide) (by decide) (by decide) (by decide) (by decide)
      (by decide) hhead

/-- Both ways from a pointer to a path: the tokens `fromJsonPath` keeps, and the paths it reads
back. -/
theorem fromJsonPath_decodes (ts : Pointer) (d : DotPath) :
    ((∀ t ∈ ts, t ≠ "") → (ReadsAs (Pointer.text ts) ts ↔ Verbatim ts)) ∧
      ((∃ text, formatJsonPath d.str false = some text ∧ ReadsAs text d.parts) ↔ Returns d.str) :=
  ⟨readsAs_text_iff, readsAs_formatJsonPath_iff d⟩

/-- The token "~1", written "~01", is read as "/"; the token "a.b" as two parts; and a path
whose one dot is escaped is written "/a.b". -/
theorem fromJsonPath_misreads :
    ¬ ReadsAs (Pointer.text ["~1"]) ["~1"] ∧ ¬ ReadsAs (Pointer.text ["a.b"]) ["a.b"] ∧
      ∃ d : DotPath, d.str = String.ofList ['a', backslash, '.', 'b'] ∧
        ¬ ∃ text, formatJsonPath d.str false = some text ∧ ReadsAs text d.parts := by
  refine ⟨?_, ?_, ⟨String.ofList ['a', backslash, '.', 'b'], ["a.b"], by decide⟩, rfl, ?_⟩
  · rw [readsAs_text_iff (by decide)]
    intro h
    exact h.noTilde "~1" (by simp) (List.infix_refl _)
  · rw [readsAs_text_iff (by decide)]
    intro h
    exact h.noDot "a.b" (by simp) (by decide)
  · rw [readsAs_formatJsonPath_iff]
    intro h
    have heven := h.even
    revert heven
    decide

end DistroDefender.Base
