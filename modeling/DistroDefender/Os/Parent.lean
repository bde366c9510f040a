import DistroDefender.Os.Calls

/-!
# Parents of paths

`parent_path` cuts the last component off, or the separators after it (`components_parentPath`), so
a path is at most one step from its parent (`resolve_parentPath`). A path that `rmdir` takes has a
shorter parent (`length_parentPath`). Paths that compare equal have the same components
(`components_of_samePath`).
-/

namespace DistroDefender.Os

open Base Lib

/-! ## The text of a parent -/

/-- A path as its parent, the separators and the filename. -/
structure Parted (p : List Char) (par seps name : List Char) : Prop where
  text : p = par ++ seps ++ name
  noSep : '/' ∉ name
  slashes : ∀ c ∈ seps, c = '/'
  last : par.getLast? ≠ some '/'
  apart : seps = [] → par = []

theorem parted (p : Path) : ∃ par seps name, Parted p.toList par seps name ∧
    (parentPath p).toList = (if par = [] then seps else par) ∧ (filename p).toList = name := by
  let dir := p.toList.reverse.dropWhile (· ≠ '/')
  have hdir : p.toList = dir.reverse ++ (p.toList.reverse.takeWhile (· ≠ '/')).reverse := by
    rw [← List.reverse_append, List.takeWhile_append_dropWhile, List.reverse_reverse]
  have hpar : dir.reverse = (dir.dropWhile (· = '/')).reverse ++
      (dir.takeWhile (· = '/')).reverse := by
    rw [← List.reverse_append, List.takeWhile_append_dropWhile]
  refine ⟨_, _, _, ⟨hdir.trans (congrArg (· ++ _) hpar), ?_, ?_, ?_, ?_⟩, ?_, String.toList_ofList⟩
  · intro hmem
    simpa using List.mem_takeWhile_imp (List.mem_reverse.mp hmem)
  · intro c hc
    simpa using List.mem_takeWhile_imp (List.mem_reverse.mp hc)
  · rw [List.getLast?_reverse]
    intro hhead
    have hnot := List.head?_dropWhile_not (fun c : Char => decide (c = '/')) dir
    rw [hhead] at hnot
    simp at hnot
  · intro hseps
    have hfirst : ∀ hne : dir ≠ [], dir.head hne = '/' := by
      intro hne
      have hnot := List.head_dropWhile_not (fun c : Char => decide (c ≠ '/')) hne
      rwa [decide_eq_false_iff_not, not_not] at hnot
    cases hd : dir with
    | nil => rfl
    | cons c cs =>
      have hc : c = '/' := by simpa [hd] using hfirst
      rw [hd, hc] at hseps
      simp at hseps
  · unfold parentPath
    simp only [String.toList_ofList, List.reverse_eq_nil_iff]
    split
    · rename_i hnil
      have hnil' : dir.dropWhile (· = '/') = [] := hnil
      rw [hnil', List.reverse_nil, List.nil_append] at hpar
      exact hpar
    · rfl

theorem componentsLoop_seps {seps : List Char} (h : ∀ c ∈ seps, c = '/') (rest : List Char) :
    componentsLoop [] (seps ++ rest) = componentsLoop [] rest := by
  induction seps with
  | nil => rfl
  | cons c cs ih =>
    rw [List.cons_append, h c List.mem_cons_self]
    simp only [componentsLoop, if_true]
    exact ih fun x hx => h x (List.mem_cons_of_mem c hx)

/-- The components of a path are those of its parent, and the filename. -/
theorem Parted.components {p par seps name : List Char} (h : Parted p par seps name) :
    componentsLoop [] p =
      componentsLoop [] (if par = [] then seps else par) ++ if name = [] then []
      else [String.ofList name] := by
  have hname : componentsLoop [] name = if name = [] then [] else [String.ofList name] := by
    have hloop : componentsLoop [] (name ++ []) = componentsLoop ([] ++ name) [] :=
      componentsLoop_append h.noSep []
    rw [List.append_nil, List.nil_append] at hloop
    rw [hloop]
    rfl
  rw [← hname, h.text]
  have hseps : componentsLoop [] seps = [] := by
    have hloop := componentsLoop_seps h.slashes []
    rwa [List.append_nil] at hloop
  split
  · rename_i hpar
    rw [hpar, List.nil_append, componentsLoop_seps h.slashes, hseps, List.nil_append]
  · rename_i hpar
    obtain ⟨s, ss, rfl⟩ := List.exists_cons_of_ne_nil fun he => hpar (h.apart he)
    rw [h.slashes s List.mem_cons_self, List.append_assoc, List.cons_append,
      componentsLoop_separator,
      componentsLoop_seps fun x hx => h.slashes x (List.mem_cons_of_mem s hx)]

theorem components_parentPath (p : Path) :
    components p = components (parentPath p) ++ if filename p = "" then [] else [filename p] := by
  obtain ⟨par, seps, name, hparted, hparent, hname⟩ := parted p
  unfold components
  rw [hparted.components, hparent, ← hname, String.ofList_toList]
  simp only [String.toList_eq_nil_iff]

/-- A parent ends in no separator, unless it has nothing else. -/
theorem filename_parentPath {p : Path} (h : filename (parentPath p) = "") :
    components (parentPath p) = [] := by
  obtain ⟨par, seps, name, hparted, hparent, -⟩ := parted p
  rw [components_eq_nil, hparent]
  split
  · exact hparted.slashes
  · rename_i hpar
    rw [if_neg hpar] at hparent
    have htake : par.reverse.takeWhile (· ≠ '/') = [] := by
      have hchars := congrArg String.toList h
      rwa [filename, hparent, String.toList_ofList, String.toList_empty,
        List.reverse_eq_nil_iff] at hchars
    obtain ⟨q, c, rfl⟩ := (List.eq_nil_or_concat' par).resolve_left hpar
    have hlast := hparted.last
    rw [List.getLast?_concat, ne_eq, Option.some.injEq] at hlast
    rw [List.reverse_concat, List.takeWhile_cons_of_pos (by simpa using hlast)] at htake
    cases htake

theorem isAbsolute_parentPath (p : Path) : isAbsolute (parentPath p) = isAbsolute p := by
  obtain ⟨par, seps, name, hparted, hparent, -⟩ := parted p
  unfold isAbsolute
  rw [hparent, hparted.text]
  cases par with
  | cons c cs => rfl
  | nil =>
    cases seps with
    | cons c cs => rfl
    | nil =>
      -- a filename alone starts with no separator
      cases name with
      | nil => rfl
      | cons c cs =>
        have hc : c ≠ '/' := fun he => hparted.noSep (he ▸ List.mem_cons_self)
        simp [hc]

theorem parentPath_above (p : Path) : (parentPath p).toList <+: p.toList := by
  obtain ⟨par, seps, name, hparted, hparent, -⟩ := parted p
  rw [hparent, hparted.text]
  split
  · rename_i hpar
    rw [hpar, List.nil_append]
    exact List.prefix_append _ _
  · rw [List.append_assoc]
    exact List.prefix_append _ _

/-- Where the parent has a NUL, the system reads the same of both. -/
theorem cstr_parentPath_of_mem {p : Path} (h : Char.ofNat 0 ∈ (parentPath p).toList) :
    cstr (parentPath p) = cstr p := by
  obtain ⟨rest, hrest⟩ := parentPath_above p
  apply String.toList_injective
  rw [toList_cstr, toList_cstr, ← hrest, List.takeWhile_append, if_neg]
  intro hlen
  have heq := (List.takeWhile_prefix (l := (parentPath p).toList)
    (· ≠ Char.ofNat 0)).eq_of_length hlen
  rw [List.takeWhile_eq_self_iff] at heq
  simpa using heq _ h

/-- Where it has none, the system reads the parent and a part of the filename. -/
theorem components_cstr {p : Path} (h : Char.ofNat 0 ∉ (parentPath p).toList) :
    ∃ name, components (cstr p) = components (parentPath p) ++ if name = [] then []
    else [String.ofList name] := by
  obtain ⟨par, seps, name, hparted, hparent, -⟩ := parted p
  refine ⟨name.takeWhile (· ≠ Char.ofNat 0), ?_⟩
  have hkeep : ∀ l : List Char, Char.ofNat 0 ∉ l → ∀ x ∈ l, decide (x ≠ Char.ofNat 0) = true := by
    intro l hl x hx
    rw [decide_eq_true_eq]
    rintro rfl
    exact hl hx
  have hpar : Char.ofNat 0 ∉ par := by
    intro hmem
    rw [hparent, if_neg (List.ne_nil_of_mem hmem)] at h
    exact h hmem
  have hseps : Char.ofNat 0 ∉ seps := by
    intro hmem
    have hslash := hparted.slashes _ hmem
    revert hslash
    decide
  have hcut : Parted (cstr p).toList par seps (name.takeWhile (· ≠ Char.ofNat 0)) := by
    refine ⟨?_, fun hmem => ?_, hparted.slashes, hparted.last, hparted.apart⟩
    · rw [toList_cstr, hparted.text, List.append_assoc,
        List.takeWhile_append_of_pos (hkeep par hpar),
        List.takeWhile_append_of_pos (hkeep seps hseps), List.append_assoc]
    · exact hparted.noSep ((List.takeWhile_prefix _).mem hmem)
  unfold components
  rw [hcut.components, hparent]

theorem start_parentPath (cwd : Loc) (p : Path) : start cwd (parentPath p) = start cwd p := by
  unfold start
  simp only [isAbsolute_cstr, isAbsolute_parentPath]

/-- A path is where its parent is, or one step from there. -/
theorem resolve_parentPath (cwd : Loc) (p : Path) : resolve cwd p = resolve cwd (parentPath p) ∨
    ∃ w c, components (cstr p) = w ++ [c] ∧
    resolve cwd p = stepTo (resolve cwd (parentPath p)) c := by
  by_cases hnul : Char.ofNat 0 ∈ (parentPath p).toList
  · left
    unfold resolve
    rw [cstr_parentPath_of_mem hnul]
  obtain ⟨name, hname⟩ := components_cstr hnul
  have hres : resolve cwd p =
      walk (resolve cwd (parentPath p)) (if name = [] then [] else [String.ofList name]) := by
    rw [resolve_eq_walk, resolve_eq_walk, ← walk_append, hname, start_parentPath,
      cstr_of_not_mem hnul]
  split at hres
  · rw [walk_nil] at hres
    exact .inl hres
  · rename_i hne
    rw [if_neg hne] at hname
    rw [walk_singleton] at hres
    exact .inr ⟨_, _, hname, hres⟩

theorem length_parentPath {p : Path} (h : rmdirError p = none) :
    (parentPath p).length < p.length := by
  obtain ⟨par, seps, name, hparted, hparent, -⟩ := parted p
  rw [← String.length_toList, ← String.length_toList, hparent, hparted.text, List.length_append,
    List.length_append]
  split
  · rename_i hpar
    have hname : name ≠ [] := by
      rintro rfl
      -- separators alone lead to the root
      obtain ⟨w, c, hcs, -⟩ := rmdirError_eq_none h
      have hnil : components (cstr p) = [] := by
        rw [components_eq_nil, toList_cstr]
        intro x hx
        have hmem := (List.takeWhile_prefix _).mem hx
        rw [hparted.text, hpar, List.nil_append, List.append_nil] at hmem
        exact hparted.slashes x hmem
      rw [hnil] at hcs
      simp at hcs
    have hpos := List.length_pos_of_ne_nil hname
    omega
  · rename_i hpar
    have hpos := List.length_pos_of_ne_nil fun he => hpar (hparted.apart he)
    omega

/-! ## Paths without a separator at their end -/

/-- A path the system reads whole, and that ends in its last component. -/
structure Bare (p : Path) : Prop where
  whole : Char.ofNat 0 ∉ p.toList
  ended : filename p = "" → components p = []

theorem Bare.parentPath {p : Path} (h : Bare p) : Bare (parentPath p) :=
  ⟨fun hmem => h.whole ((parentPath_above p).mem hmem), filename_parentPath⟩

theorem Bare.components_parentPath {p : Path} (h : Bare p) :
    components (Os.parentPath p) = (components p).dropLast := by
  have heq := Os.components_parentPath p
  by_cases hname : filename p = ""
  · rw [if_pos hname, List.append_nil] at heq
    rw [← heq, h.ended hname]
    rfl
  · rw [if_neg hname] at heq
    rw [heq, List.dropLast_concat]

/-- Such a path leads to where its components lead, through directories. -/
theorem Bare.locate {p : Path} (h : Bare p) (hne : p ≠ "") {fs : Fs} {l : Loc} :
    fs.locate p = some l ↔ l = walk (start fs.cwd p) (components p) ∧
      ∀ w, w <+: components p → w ≠ components p →
      fs.node (walk (start fs.cwd p) w) = some .dir := by
  rw [Fs.locate_eq_some, resolve_eq_walk, cstr_of_not_mem h.whole]
  constructor
  · rintro ⟨-, hl, hway, -⟩
    exact ⟨hl, hway⟩
  · rintro ⟨hl, hway⟩
    refine ⟨hne, hl, hway, fun hlast => ?_⟩
    -- only a path of separators ends in one
    have hname : filename p = "" := by
      obtain ⟨q, hq⟩ : ∃ q, p.toList = q ++ ['/'] := by
        obtain ⟨q, c, hq⟩ := (List.eq_nil_or_concat' p.toList).resolve_left fun he => by
          simp [he] at hlast
        rw [hq, List.getLast?_concat, Option.some.injEq] at hlast
        exact ⟨q, hlast ▸ hq⟩
      apply String.toList_injective
      simp [filename, hq]
    have hcs := h.ended hname
    have habs : isAbsolute p = true := by
      have hall := components_eq_nil.mp hcs
      unfold isAbsolute
      cases hchars : p.toList with
      | nil => exact absurd (String.toList_injective hchars) hne
      | cons c cs =>
        rw [hchars] at hall
        simp [hall c List.mem_cons_self]
    rw [hl, hcs, walk_nil]
    unfold start
    rw [cstr_of_not_mem h.whole, if_pos habs, Fs.node_nil]

theorem isAbsolute_plain {c : String} (hc : Plain c) : isAbsolute c = false := by
  unfold isAbsolute
  rw [decide_eq_false_iff_not]
  exact fun h => hc.2.2.2.1 (List.mem_of_mem_head? h)

theorem filename_append_plain {p c : Path} (hc : Plain c) : filename (append p c) = c := by
  have hcut : ∀ q : List Char, (q.reverse.head? = some '/' ∨ q = []) →
      String.ofList ((q ++ c.toList).reverse.takeWhile (· ≠ '/')).reverse = c := by
    intro q hq
    have hkeep : ∀ x ∈ c.toList.reverse, decide (x ≠ '/') = true := by
      intro x hx
      rw [decide_eq_true_eq]
      rintro rfl
      exact hc.2.2.2.1 (List.mem_reverse.mp hx)
    rw [List.reverse_append, List.takeWhile_append_of_pos hkeep]
    have hstop : q.reverse.takeWhile (· ≠ '/') = [] := by
      rcases hq with hq | rfl
      · obtain ⟨t, ht⟩ := List.head?_eq_some_iff.mp hq
        rw [ht]
        simp
      · rfl
    rw [hstop, List.append_nil, List.reverse_reverse, String.ofList_toList]
  unfold append
  rw [if_neg (by rw [isAbsolute_plain hc]; exact Bool.false_ne_true)]
  split
  · rename_i hname
    unfold filename
    rw [String.toList_append]
    refine hcut _ ?_
    have htake : p.toList.reverse.takeWhile (· ≠ '/') = [] := by
      have hchars := congrArg String.toList hname
      rwa [filename, String.toList_ofList, String.toList_empty, List.reverse_eq_nil_iff] at hchars
    cases hrev : p.toList.reverse with
    | nil => exact .inr (List.reverse_eq_nil_iff.mp hrev)
    | cons x xs =>
      left
      rw [hrev] at htake
      by_cases hx : x = '/'
      · rw [hx]
        rfl
      · rw [List.takeWhile_cons_of_pos (by simpa using hx)] at htake
        cases htake
  · unfold filename
    rw [String.toList_append, String.toList_append]
    exact hcut _ (.inl (by simp))

/-- Plain components appended to a path. -/
structure AppendsAll (p : Path) (cs : List String) (q : Path) : Prop where
  whole : Char.ofNat 0 ∉ q.toList
  components : components q = Os.components p ++ cs
  absolute : isAbsolute q = isAbsolute p
  ended : cs ≠ [] → filename q ≠ ""

theorem append_plain_all {p : Path} (hp : Char.ofNat 0 ∉ p.toList) {cs : List String}
    (hcs : ∀ c ∈ cs, Plain c) : AppendsAll p cs (cs.foldl append p) := by
  induction cs using List.reverseRecOn with
  | nil => exact ⟨hp, (List.append_nil _).symm, rfl, fun h => absurd rfl h⟩
  | append_singleton cs c ih =>
    have hc := hcs c (by simp)
    have h := ih fun x hx => hcs x (List.mem_append_left _ hx)
    rw [List.foldl_append, List.foldl_cons, List.foldl_nil]
    refine ⟨not_mem_append h.whole hc, ?_, ?_, fun _ => ?_⟩
    · rw [components_append (isAbsolute_plain hc), components_plain hc, h.components,
        List.append_assoc]
    · rw [isAbsolute_append (isAbsolute_plain hc), h.absolute]
    · rw [filename_append_plain hc]
      exact hc.1

theorem AppendsAll.bare {p q : Path} {cs : List String} (h : AppendsAll p cs q) (hne : cs ≠ []) :
    Bare q :=
  ⟨h.whole, fun hname => absurd hname (h.ended hne)⟩

/-! ## Comparing paths -/

theorem components_eq_filter (p : Path) :
    components p = (elements p).filter fun c => c ≠ "" ∧ c ≠ "/" := by
  have hself : (components p).filter (fun c => c ≠ "" ∧ c ≠ "/") = components p := by
    rw [List.filter_eq_self]
    intro c hc
    obtain ⟨hne, hslash, -⟩ := mem_componentsLoop hc (by simp)
    rw [decide_eq_true_eq]
    refine ⟨hne, ?_⟩
    rintro rfl
    exact hslash (by decide)
  have hroot : ((if isAbsolute p then ["/"] else [] : List String)).filter
      (fun c => c ≠ "" ∧ c ≠ "/") = [] := by
    split <;> rfl
  have hend : ((if components p ≠ [] ∧ filename p = "" then [""] else [] : List String)).filter
      (fun c => c ≠ "" ∧ c ≠ "/") = [] := by
    split <;> rfl
  unfold elements
  rw [List.filter_append, List.filter_append, hself, hroot, hend, List.nil_append, List.append_nil]

theorem components_of_samePath {p q : Path} (h : samePath p q = true) :
    components p = components q := by
  rw [components_eq_filter, components_eq_filter, of_decide_eq_true h]

end DistroDefender.Os
