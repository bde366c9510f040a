import DistroDefender.Base.JsonPath
import DistroDefender.Base.Duplicates

/-!
# The names of the leaves

`getFields` joins the names on the way to a leaf with dots, as C strings and without an escape. The
text is the path of the leaf when no name needs one: the length of what `formatJsonPath` reads of it
decides (`formatsAs_dotted_iff`).
-/

namespace DistroDefender.Base

open Lib.Escape

namespace Json

/-! ## The source's recursion -/

/-- `new_path`: an empty path takes no dot. -/
def newPath (path name : String) : String := if path = "" then cstr name
  else path ++ "." ++ cstr name

/-- `collectFields`, over the members of the object it is given. -/
def collectFields : List (String × Json) → String → List String → List String
  | [], _, out => out
  | (name, value) :: ms, path, out =>
    match value with
    | .obj fields => collectFields ms path (collectFields fields (newPath path name) out)
    | _ => collectFields ms path (out ++ [newPath path name])

/-- `JsonDOM::getFields`. -/
def getFields : Json → Option (List String)
  | .obj ms => some (collectFields ms "" [])
  | _ => none

/-! ## Leaves -/

/-- A value that is no object, with only objects above it, and the names on the way to it. -/
inductive LeafAt : Json → List String → Json → Prop where
  | leaf {ms : List (String × Json)} {name : String} {v : Json} :
    (name, v) ∈ ms → (∀ fields, v ≠ .obj fields) → LeafAt (.obj ms) [name] v
  | inner {ms fields : List (String × Json)} {name : String} {names : List String} {v : Json} :
    (name, .obj fields) ∈ ms → LeafAt (.obj fields) names v → LeafAt (.obj ms) (name :: names) v

/-- The leaves below the members of an object, in the order of the document. -/
def leaves : List (String × Json) → List (List String × Json)
  | [] => []
  | (name, value) :: ms =>
    match value with
    | .obj fields => (leaves fields).map (fun l => (name :: l.1, l.2)) ++ leaves ms
    | v => ([name], v) :: leaves ms

theorem leaves_cons_obj (name : String) (fields ms : List (String × Json)) :
    leaves ((name, .obj fields) :: ms) = (leaves fields).map (fun l => (name :: l.1, l.2)) ++
      leaves ms := by
  rw [leaves]

theorem leaves_cons_of_ne {v : Json} (h : ∀ fields, v ≠ .obj fields) (name : String)
    (ms : List (String × Json)) : leaves ((name, v) :: ms) = ([name], v) :: leaves ms := by
  rw [leaves]
  exact h

theorem collectFields_cons_obj (name : String) (fields ms : List (String × Json)) (path : String)
    (out : List String) : collectFields ((name, .obj fields) :: ms) path out =
      collectFields ms path (collectFields fields (newPath path name) out) := by
  rw [collectFields]

theorem collectFields_cons_of_ne {v : Json} (h : ∀ fields, v ≠ .obj fields) (name : String)
    (ms : List (String × Json)) (path : String) (out : List String) :
    collectFields ((name, v) :: ms) path out = collectFields ms path
      (out ++ [newPath path name]) := by
  rw [collectFields]
  exact h

/-- One path for each leaf, in their order. -/
theorem collectFields_eq (ms : List (String × Json)) (path : String) (out : List String) :
    collectFields ms path out = out ++ (leaves ms).map fun l => l.1.foldl newPath path := by
  induction ms using leaves.induct generalizing path out with
  | case1 => simp [collectFields, leaves]
  | case2 name ms fields ihfields ihms =>
    rw [collectFields_cons_obj, ihfields, ihms, leaves_cons_obj, List.map_append, List.map_map,
      List.append_assoc]
    rfl
  | case3 name ms v hv ih =>
    rw [collectFields_cons_of_ne hv, ih, leaves_cons_of_ne hv, List.append_assoc]
    rfl

/-- A leaf of an object is below its first member, or below the others. -/
theorem leafAt_cons_iff {name : String} {w v : Json} {ms : List (String × Json)}
    {names : List String} : LeafAt (.obj ((name, w) :: ms)) names v ↔
      ((∀ fields, w ≠ .obj fields) ∧ names = [name] ∧ v = w ∨
        ∃ fields rest, w = .obj fields ∧ names = name :: rest ∧ LeafAt (.obj fields) rest v) ∨
      LeafAt (.obj ms) names v := by
  constructor
  · intro h
    cases h with
    | leaf hm hv =>
      rcases List.mem_cons.mp hm with heq | hm
      · cases heq
        exact .inl (.inl ⟨hv, rfl, rfl⟩)
      · exact .inr (.leaf hm hv)
    | inner hm hl =>
      rcases List.mem_cons.mp hm with heq | hm
      · cases heq
        exact .inl (.inr ⟨_, _, rfl, rfl, hl⟩)
      · exact .inr (.inner hm hl)
  · rintro ((⟨hw, rfl, rfl⟩ | ⟨fields, rest, rfl, rfl, hl⟩) | h)
    · exact .leaf List.mem_cons_self hw
    · exact .inner List.mem_cons_self hl
    · cases h with
      | leaf hm hv => exact .leaf (List.mem_cons_of_mem _ hm) hv
      | inner hm hl => exact .inner (List.mem_cons_of_mem _ hm) hl

theorem not_leafAt_nil (names : List String) (v : Json) : ¬ LeafAt (.obj []) names v := by
  intro h
  cases h with
  | leaf hm _ => cases hm
  | inner hm _ => cases hm

theorem mem_leaves_iff {ms : List (String × Json)} {names : List String} {v : Json} :
    (names, v) ∈ leaves ms ↔ LeafAt (.obj ms) names v := by
  induction ms using leaves.induct generalizing names with
  | case1 => exact iff_of_false (by simp [leaves]) (not_leafAt_nil names v)
  | case2 name ms fields ihfields ihms =>
    rw [leaves_cons_obj, List.mem_append, leafAt_cons_iff, ihms, List.mem_map]
    refine or_congr_left ⟨?_, ?_⟩
    · rintro ⟨l, hl, heq⟩
      cases heq
      exact .inr ⟨fields, _, rfl, rfl, ihfields.mp hl⟩
    · rintro (⟨hw, -⟩ | ⟨fields', rest, heq, rfl, hl⟩)
      · exact absurd rfl (hw fields)
      · cases heq
        exact ⟨(rest, v), ihfields.mpr hl, rfl⟩
  | case3 name ms w hw ih =>
    rw [leaves_cons_of_ne hw, List.mem_cons, leafAt_cons_iff, ih, Prod.mk.injEq]
    refine or_congr_left ⟨fun h => .inl ⟨hw, h⟩, ?_⟩
    rintro (⟨-, h⟩ | ⟨fields, rest, rfl, -⟩)
    · exact h
    · exact absurd rfl (hw fields)

/-! ## Distinct names -/

theorem lookup_of_mem {ms : List (String × Json)} (hnodup : ¬ Repeats ms) {name : String} {v : Json}
    (h : (name, v) ∈ ms) : ms.lookup name = some v := by
  unfold Repeats at hnodup
  rw [not_not] at hnodup
  induction ms with
  | nil => cases h
  | cons m ms ih =>
    rw [List.map_cons, List.nodup_cons] at hnodup
    rcases List.mem_cons.mp h with rfl | h
    · exact List.lookup_cons_self
    · have hne : name ≠ m.1 := by
        intro heq
        exact hnodup.1 (heq ▸ List.mem_map_of_mem h)
      rw [List.lookup_cons, beq_false_of_ne hne]
      exact ih hnodup.2 h

/-- The names on the way to a leaf are a pointer to it. -/
theorem get_of_leafAt {doc : Json} {names : List String} {v : Json} (h : LeafAt doc names v)
    (hnodup : ∀ ms, Occurs (.obj ms) doc → ¬ Repeats ms) : doc.get names = some v := by
  induction h with
  | leaf hm hv =>
    rw [get, lookup_of_mem (hnodup _ .root) hm]
    rfl
  | inner hm _ ih =>
    rw [get, lookup_of_mem (hnodup _ .root) hm]
    exact ih fun ms hms => hnodup ms (.member hm hms)

theorem head?_of_leafAt {ms : List (String × Json)} {names : List String} {v : Json}
    (h : LeafAt (.obj ms) names v) : ∃ name ∈ ms.map Prod.fst, names.head? = some name := by
  cases h with
  | leaf hm _ => exact ⟨_, List.mem_map_of_mem hm, rfl⟩
  | inner hm _ => exact ⟨_, List.mem_map_of_mem hm, rfl⟩

/-- No two leaves are reached by the same names. -/
theorem nodup_leaves {ms : List (String × Json)}
    (hnodup : ∀ o, Occurs (.obj o) (.obj ms) → ¬ Repeats o) : ((leaves ms).map Prod.fst).Nodup := by
  have hhead : ∀ {name : String} {v : Json} {rest : List (String × Json)},
      ¬ Repeats ((name, v) :: rest) → ∀ names, name :: names ∉ (leaves rest).map Prod.fst := by
    intro name v rest hrest names hmem
    obtain ⟨l, hl, heq⟩ := List.mem_map.mp hmem
    obtain ⟨first, hfirst, hsome⟩ := head?_of_leafAt (mem_leaves_iff.mp hl)
    rw [heq, List.head?_cons] at hsome
    cases hsome
    unfold Repeats at hrest
    rw [not_not, List.map_cons, List.nodup_cons] at hrest
    exact hrest.1 hfirst
  have htail : ∀ {m : String × Json} {rest : List (String × Json)},
      (∀ o, Occurs (.obj o) (.obj (m :: rest)) → ¬ Repeats o) →
        ∀ o, Occurs (.obj o) (.obj rest) → ¬ Repeats o := by
    intro m rest h o ho
    cases ho with
    | root =>
      have hall := h _ .root
      unfold Repeats at hall ⊢
      rw [not_not, List.map_cons, List.nodup_cons] at hall
      exact not_not.mpr hall.2
    | member hm ho => exact h o (.member (List.mem_cons_of_mem m hm) ho)
  induction ms using leaves.induct with
  | case1 => simp [leaves]
  | case2 name ms fields ihfields ihms =>
    rw [leaves_cons_obj, List.map_append, List.nodup_append']
    refine ⟨?_, ihms (htail hnodup), ?_⟩
    · have hfields := ihfields fun o ho => hnodup o (.member List.mem_cons_self ho)
      rw [List.map_map]
      have hmap : (Prod.fst ∘ fun l : List String × Json => (name :: l.1, l.2)) =
          (name :: ·) ∘ Prod.fst := rfl
      rw [hmap, ← List.map_map]
      exact hfields.map (fun _ _ h => (List.cons.inj h).2)
    · intro names hnames hms
      rw [List.map_map] at hnames
      obtain ⟨l, -, rfl⟩ := List.mem_map.mp hnames
      exact hhead (hnodup _ .root) l.1 hms
  | case3 name ms v hv ih =>
    rw [leaves_cons_of_ne hv, List.map_cons, List.nodup_cons]
    exact ⟨hhead (hnodup _ .root) [], ih (htail hnodup)⟩

/-! ## The text of a path -/

/-- The text `getFields` gives a leaf with these names. -/
def dotted (names : List String) : String := names.foldl newPath ""

end Json

open Json

/-- A dot and a name, for each name. -/
def dots (names : List String) : List Char := names.flatMap fun name => '.' :: name.toList

theorem length_dots_cons (name : String) (names : List String) :
    (dots (name :: names)).length = name.toList.length + 1 + (dots names).length := by
  unfold dots
  rw [List.flatMap_cons, List.length_append, List.length_cons]

theorem flat_join_cons (name : String) (names : List String) :
    flat '.' (join ((name :: names).map String.toList)) = name.toList ++ dots names := by
  induction names generalizing name with
  | nil => simp [join, dots]
  | cons next names ih =>
    rw [List.map_cons, join_cons (by simp), flat_append, flat_map_some, flat_cons_none, ih]
    rfl

/-- Below a path that is not empty every name adds a dot. -/
theorem toList_foldl_newPath {path : String} (h : path ≠ "") (names : List String) :
    (names.foldl newPath path).toList = path.toList ++ dots (names.map cstr) := by
  induction names generalizing path with
  | nil => simp [dots]
  | cons name names ih =>
    have hnew : (newPath path name).toList = path.toList ++ '.' :: (cstr name).toList := by
      unfold newPath
      rw [if_neg h, String.toList_append, String.toList_append, List.append_assoc]
      rfl
    have hne : newPath path name ≠ "" := by
      intro hempty
      rw [hempty] at hnew
      simp at hnew
    rw [List.foldl_cons, ih hne, hnew, List.append_assoc]
    rfl

theorem dots_cstr_length (names : List String) :
    (dots (names.map cstr)).length ≤ (dots names).length ∧
    ((dots (names.map cstr)).length = (dots names).length → ∀ name ∈ names, cstr name = name) := by
  induction names with
  | nil => exact ⟨Nat.le_refl _, fun _ => by simp⟩
  | cons name names ih =>
    obtain ⟨hle, heq⟩ := ih
    obtain ⟨hname, hsame⟩ := cstr_length_le name
    rw [List.map_cons, length_dots_cons, length_dots_cons, List.forall_mem_cons]
    exact ⟨by omega, fun h => ⟨hsame (by omega), heq (by omega)⟩⟩

/-- The text is at most as long as the names with dots between them, and shorter where a name is cut
or the first one is empty. -/
theorem dotted_length (name : String) (names : List String) :
    (dotted (name :: names)).toList.length ≤ (name.toList ++ dots names).length ∧
      ((dotted (name :: names)).toList.length = (name.toList ++ dots names).length →
        (∀ n ∈ name :: names, cstr n = n) ∧ (name = "" → names = [])) := by
  induction names generalizing name with
  | nil =>
    obtain ⟨hle, heq⟩ := cstr_length_le name
    have hone : dotted [name] = cstr name := rfl
    simp only [hone, dots, List.flatMap_nil, List.append_nil, List.mem_singleton, forall_eq]
    exact ⟨hle, fun h => ⟨heq h, fun _ => trivial⟩⟩
  | cons next names ih =>
    have hfirst : newPath "" name = cstr name := rfl
    by_cases hname : cstr name = ""
    · -- the dot before the next name is missing
      have hskip : dotted (name :: next :: names) = dotted (next :: names) := by
        unfold dotted
        rw [List.foldl_cons, hfirst, hname]
      obtain ⟨hle, -⟩ := ih next
      have hlen : (name.toList ++ dots (next :: names)).length =
          name.toList.length + 1 + (next.toList ++ dots names).length := by
        rw [List.length_append, List.length_append, length_dots_cons]
        omega
      rw [hskip, hlen]
      exact ⟨by omega, fun h => by omega⟩
    · have htext : (dotted (name :: next :: names)).toList =
          (cstr name).toList ++ dots ((next :: names).map cstr) := by
        unfold dotted
        rw [List.foldl_cons, hfirst, toList_foldl_newPath hname]
      obtain ⟨hle, hsame⟩ := cstr_length_le name
      obtain ⟨hdots, hnames⟩ := dots_cstr_length (next :: names)
      rw [htext, List.length_append, List.length_append]
      refine ⟨by omega, fun h => ?_⟩
      have hfull := hsame (by omega)
      rw [List.forall_mem_cons]
      refine ⟨⟨hfull, hnames (by omega)⟩, fun hempty => ?_⟩
      rw [hempty] at hfull hname
      exact absurd hfull hname

/-! ## Paths of the leaves -/

/-- Names that need no escape and do not end early, the first of them not empty. -/
structure PlainNames (names : List String) : Prop where
  first : names.head? ≠ some ""
  noDot : ∀ name ∈ names, '.' ∉ name.toList
  noBackslash : ∀ name ∈ names, backslash ∉ name.toList
  noNul : ∀ name ∈ names, Char.ofNat 0 ∉ name.toList

/-- Plain names are joined to a text that does not begin with a dot. -/
theorem dotted_of_plain {name : String} {names : List String} (h : PlainNames (name :: names)) :
    (dotted (name :: names)).toList = name.toList ++ dots names ∧
      (dotted (name :: names)).toList.head? ≠ some '.' ∧ dotted (name :: names) ≠ "" := by
  have hnul : ∀ n ∈ name :: names, cstr n = n := fun n hn => cstr_of_not_mem (h.noNul n hn)
  have hname : cstr name = name := hnul name List.mem_cons_self
  have hne : name ≠ "" := fun hempty => h.first (congrArg some hempty)
  have hfirst : newPath "" name = name := by
    unfold newPath
    rw [if_pos rfl, hname]
  have hmap : names.map cstr = names := by
    conv => rhs; rw [← List.map_id names]
    exact List.map_congr_left fun n hn => hnul n (List.mem_cons_of_mem name hn)
  have htext : (dotted (name :: names)).toList = name.toList ++ dots names := by
    unfold dotted
    rw [List.foldl_cons, hfirst, toList_foldl_newPath hne, hmap]
  refine ⟨htext, ?_, ?_⟩
  · have hdot := h.noDot name List.mem_cons_self
    rw [htext]
    cases hchars : name.toList with
    | nil => exact absurd (String.toList_injective hchars) hne
    | cons c cs =>
      rw [hchars] at hdot
      rw [List.cons_append, List.head?_cons]
      exact fun hc => hdot (Option.some.inj hc ▸ List.mem_cons_self)
  · intro hempty
    rw [hempty] at htext
    have hnil : name.toList = [] := (List.append_eq_nil_iff.mp htext.symm).1
    exact hne (String.toList_injective hnil)

theorem mem_dots {c : Char} (hc : c ≠ '.') {name : String} {names : List String} :
    c ∈ name.toList ++ dots names ↔ ∃ n ∈ name :: names, c ∈ n.toList := by
  unfold dots
  rw [List.mem_append, List.mem_flatMap, List.exists_mem_cons_iff]
  simp [hc]

/-- What is read of the text leads along these names exactly when it is their join. -/
theorem formatsAs_dotted_iff_remember {name : String} {names : List String}
    (hdot : dotted (name :: names) ≠ ".")
    (hread : remember '.' backslash false (dotted (name :: names)).toList ≠ []) :
    FormatsAs (dotted (name :: names)) (name :: names) ↔
      remember '.' backslash false (dropDot (dotted (name :: names))).toList =
        join ((name :: names).map String.toList) := by
  have hpieces : (pieces (join ((name :: names).map String.toList))).map String.ofList = name ::
      names := by
    rw [pieces_join (by simp)]
    simp
  have hformat := formatsAs_pieces hdot hread (l := join ((name :: names).map String.toList))
  rwa [hpieces] at hformat

/-- A text whose pointer leads along its names has plain ones: no step from the names to what is
read adds a character, so none drops one. -/
theorem plain_of_formatsAs_dotted {name : String} {names : List String}
    (h : FormatsAs (dotted (name :: names)) (name :: names)) : PlainNames (name :: names) := by
  have hdot : dotted (name :: names) ≠ "." := by
    intro hdot
    obtain ⟨text, htext, htokens⟩ := h
    rw [hdot] at htext
    cases htext
    cases htokens
  have hread : remember '.' backslash false (dotted (name :: names)).toList ≠ [] := by
    intro hread
    obtain ⟨text, htext, -⟩ := h
    rw [formatJsonPath_eq_none hdot hread] at htext
    cases htext
  have hjoin := (formatsAs_dotted_iff_remember hdot hread).mp h
  have hflat := flat_join_cons name names
  obtain ⟨hremember, hescape⟩ :=
    length_remember dot_ne_backslash false (dropDot (dotted (name :: names))).toList
  obtain ⟨hstrip, hkept⟩ := length_strip (d := '.') (dotted (name :: names)).toList
  obtain ⟨hdotted, hsame⟩ := dotted_length name names
  have hlen : (join ((name :: names).map String.toList)).length =
      (name.toList ++ dots names).length := by
    rw [← hflat, flat, List.length_map]
  have hdrop := toList_dropDot (dotted (name :: names)).toList
  rw [String.ofList_toList] at hdrop
  rw [hjoin] at hremember hescape
  rw [hdrop] at hremember hescape hjoin
  have hwhole := hkept (by omega)
  rw [hwhole] at hescape hjoin
  have hbackslash := hescape rfl (by omega)
  obtain ⟨hnul, hfirst⟩ := hsame (by omega)
  rw [remember_eq_plain hbackslash] at hjoin
  have htext : (dotted (name :: names)).toList = name.toList ++ dots names := by
    rw [← hflat, ← hjoin, flat_plain]
  refine ⟨?_, ?_, ?_, ?_⟩
  · intro hempty
    have hname : name = "" := Option.some.inj hempty
    apply hread
    rw [hname, hfirst hname]
    rfl
  · intro n hn hmem
    apply not_mem_plain '.' (dotted (name :: names)).toList
    rw [hjoin, some_mem_join]
    exact ⟨n.toList, List.mem_map_of_mem hn, hmem⟩
  · intro n hn hmem
    rw [htext, mem_dots (Ne.symm dot_ne_backslash)] at hbackslash
    exact hbackslash ⟨n, hn, hmem⟩
  · intro n hn
    rw [← hnul n hn]
    exact not_mem_cstr n

theorem formatsAs_dotted_of_plain {name : String} {names : List String}
    (h : PlainNames (name :: names)) : FormatsAs (dotted (name :: names)) (name :: names) := by
  obtain ⟨htext, hhead, hempty⟩ := dotted_of_plain h
  have hbackslash : backslash ∉ (dotted (name :: names)).toList := by
    rw [htext, mem_dots (Ne.symm dot_ne_backslash)]
    rintro ⟨n, hn, hmem⟩
    exact h.noBackslash n hn hmem
  have hnoDot : some '.' ∉ join ((name :: names).map String.toList) := by
    rw [some_mem_join]
    rintro ⟨p, hp, hmem⟩
    obtain ⟨n, hn, rfl⟩ := List.mem_map.mp hp
    exact h.noDot n hn hmem
  have hread : remember '.' backslash false (dotted (name :: names)).toList =
      join ((name :: names).map String.toList) := by
    rw [remember_eq_plain hbackslash, htext, ← flat_join_cons name names, plain_flat hnoDot]
  have hdot : dotted (name :: names) ≠ "." := by
    intro heq
    rw [heq] at hhead
    exact hhead rfl
  have hsome : remember '.' backslash false (dotted (name :: names)).toList ≠ [] := by
    rw [remember_eq_plain hbackslash]
    exact fun h => hempty (String.toList_injective (List.map_eq_nil_iff.mp h))
  rw [← dropDot_of_head?_ne hhead] at hread
  exact (formatsAs_dotted_iff_remember hdot hsome).mpr hread

/-- The pointer of the text leads along these names exactly when they are plain. -/
theorem formatsAs_dotted_iff {names : List String} (hnil : names ≠ []) :
    FormatsAs (dotted names) names ↔ PlainNames names := by
  obtain ⟨name, names, rfl⟩ := List.exists_cons_of_ne_nil hnil
  exact ⟨plain_of_formatsAs_dotted, formatsAs_dotted_of_plain⟩

/-- Every leaf has a path of its own, whose pointer leads along its names to it. -/
def NamesLeaves (ms : List (String × Json)) : Prop :=
  ∃ paths, (Json.obj ms).getFields = some paths ∧ paths.Nodup ∧
    List.Forall₂ (fun path l => FormatsAs path l.1 ∧ (Json.obj ms).get l.1 = some l.2) paths
      (leaves ms)

theorem formatsAs_inj {s : String} {names names' : List String} (h : FormatsAs s names)
    (h' : FormatsAs s names') : names = names' := by
  obtain ⟨text, htext, htokens⟩ := h
  obtain ⟨text', htext', htokens'⟩ := h'
  cases htext.symm.trans htext'
  exact Option.some.inj (htokens.symm.trans htokens')

theorem names_ne_nil_of_leafAt {ms : List (String × Json)} {names : List String} {v : Json}
    (h : LeafAt (.obj ms) names v) : names ≠ [] := by
  cases h <;> exact List.cons_ne_nil _ _

theorem getFields_eq (ms : List (String × Json)) :
    (Json.obj ms).getFields = some ((leaves ms).map fun l => dotted l.1) := by
  have hall := collectFields_eq ms "" []
  rw [List.nil_append] at hall
  exact congrArg some hall

theorem plain_of_namesLeaves {ms : List (String × Json)} (h : NamesLeaves ms) {names : List String}
    {v : Json} (hl : LeafAt (.obj ms) names v) : PlainNames names := by
  obtain ⟨paths, hpaths, -, hleads⟩ := h
  rw [getFields_eq] at hpaths
  rw [← Option.some.inj hpaths, List.forall₂_map_left_iff, List.forall₂_same] at hleads
  have hformats := (hleads (names, v) (mem_leaves_iff.mpr hl)).1
  exact (formatsAs_dotted_iff (names_ne_nil_of_leafAt hl)).mp hformats

theorem namesLeaves_of_plain {ms : List (String × Json)}
    (hnodup : ∀ o, Occurs (.obj o) (.obj ms) → ¬ Repeats o)
    (h : ∀ names v, LeafAt (.obj ms) names v → PlainNames names) : NamesLeaves ms := by
  have hformats : ∀ l ∈ leaves ms, FormatsAs (dotted l.1) l.1 := by
    intro l hl
    have hleaf := mem_leaves_iff.mp hl
    exact (formatsAs_dotted_iff (names_ne_nil_of_leafAt hleaf)).mpr (h l.1 l.2 hleaf)
  refine ⟨_, getFields_eq ms, ?_, ?_⟩
  · -- equal paths are read as the same names
    have hnames := nodup_leaves hnodup
    rw [List.nodup_map_iff_inj_on hnames.of_map]
    intro l hl l' hl' heq
    have hsame : l.1 = l'.1 := formatsAs_inj (hformats l hl) (heq ▸ hformats l' hl')
    exact List.inj_on_of_nodup_map hnames hl hl' hsame
  · rw [List.forall₂_map_left_iff, List.forall₂_same]
    exact fun l hl => ⟨hformats l hl, get_of_leafAt (mem_leaves_iff.mp hl) hnodup⟩

/-- Where no object repeats a name, the paths lead to the leaves exactly when the names on the way
to each are plain. -/
theorem getFields_names_leaves {ms : List (String × Json)}
    (hnodup : ∀ o, Occurs (.obj o) (.obj ms) → ¬ Repeats o) :
    NamesLeaves ms ↔ ∀ names v, LeafAt (.obj ms) names v → PlainNames names :=
  ⟨fun h _ _ hl => plain_of_namesLeaves h hl, namesLeaves_of_plain hnodup⟩

/-- An object in an object. -/
theorem getFields_names_leaves_nested : NamesLeaves [("a", .obj [("b", .null)])] := by
  refine (getFields_names_leaves ?_).mpr ?_
  · intro o ho
    cases ho with
    | root => simp [Repeats]
    | member hm ho =>
      cases List.mem_singleton.mp hm
      cases ho with
      | root => simp [Repeats]
      | member hm ho =>
        cases List.mem_singleton.mp hm
        cases ho
  · intro names v hl
    have hmem := mem_leaves_iff.mpr hl
    have hleaves : leaves [("a", .obj [("b", .null)])] = [(["a", "b"], .null)] := by simp [leaves]
    rw [hleaves] at hmem
    cases List.mem_singleton.mp hmem
    exact ⟨by decide, by decide, by decide, by decide⟩

/-- No object repeats a name, and still a path fails. -/
def Misnamed (ms : List (String × Json)) : Prop :=
  (∀ o, Occurs (.obj o) (.obj ms) → ¬ Repeats o) ∧ ¬ NamesLeaves ms

theorem misnamed_of_not_plain {name : String} (h : ¬ PlainNames [name]) :
    Misnamed [(name, .null)] := by
  refine ⟨fun o ho => ?_, fun hnames => ?_⟩
  · cases ho with
    | root => simp [Repeats]
    | member hm ho =>
      cases List.mem_singleton.mp hm
      cases ho
  · exact h (plain_of_namesLeaves hnames (.leaf List.mem_cons_self fun _ => by simp))

/-- The name "a.b" is read as two, the empty name is no path, a backslash is dropped, and a name is
cut at a NUL. -/
theorem getFields_misnames : Misnamed [("a.b", .null)] ∧ Misnamed [("", .null)] ∧
    Misnamed [(String.ofList ['a', backslash], .null)] ∧
    Misnamed [(String.ofList ['a', Char.ofNat 0], .null)] := by
  refine ⟨misnamed_of_not_plain fun h => ?_, misnamed_of_not_plain fun h => ?_,
    misnamed_of_not_plain fun h => ?_, misnamed_of_not_plain fun h => ?_⟩
  · exact h.noDot _ List.mem_cons_self (by decide)
  · exact h.first rfl
  · exact h.noBackslash _ List.mem_cons_self (by decide)
  · exact h.noNul _ List.mem_cons_self (by decide)

end DistroDefender.Base
