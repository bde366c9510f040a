import DistroDefender.Base.StringUtils
import Mathlib.Data.List.TakeWhile

/-!
# Paths and the locations they denote

A `std::filesystem::path` is its text. Appending (`append`) follows `operator/=`: an absolute text
replaces the path, any other one comes after a separator. The operating system reads a path up to
its first NUL and walks its components from the root or from the working directory, where `.` stays
and `..` goes up (`resolve`); a location is the list of the components walked, without links.

A text is a plain component when the system takes it as one name (`Plain`). Appending a plain
component goes one component down (`resolve_append_plain`); what any other path adds to where it
starts are plain components too (`resolve_shape`).
-/

namespace DistroDefender.Os

open Base

/-- The text of a `std::filesystem::path`. -/
abbrev Path := String

/-- Where a path leads: the components from the root of the file system. -/
abbrev Loc := List String

/-- `path::is_absolute`. -/
def isAbsolute (p : Path) : Bool := p.toList.head? = some '/'

/-- `path::filename`: what follows the last separator. -/
def filename (p : Path) : String :=
  String.ofList (p.toList.reverse.takeWhile (· ≠ '/')).reverse

/-- `path::parent_path`: the path without its filename and the separators before it. -/
def parentPath (p : Path) : Path :=
  let dir := p.toList.reverse.dropWhile (· ≠ '/')
  let parent := dir.dropWhile (· = '/')
  String.ofList (if parent = [] then dir.reverse else parent.reverse)

/-- `operator/=`. -/
def append (p q : Path) : Path :=
  if isAbsolute q then q
  else if filename p = "" then p ++ q
  else p ++ "/" ++ q

/-- The loop of `components`: `cur` is the component read so far. -/
def componentsLoop : List Char → List Char → List String
  | cur, [] => if cur = [] then [] else [String.ofList cur]
  | cur, c :: cs =>
    if c = '/' then
      if cur = [] then componentsLoop [] cs else String.ofList cur :: componentsLoop [] cs
    else componentsLoop (cur ++ [c]) cs

/-- The nonempty components of a path. -/
def components (p : Path) : List String := componentsLoop [] p.toList

/-- The elements a path compares by: the root, the components, and nothing after a last
separator. -/
def elements (p : Path) : List String :=
  (if isAbsolute p then ["/"] else []) ++ components p ++
    (if components p ≠ [] ∧ filename p = "" then [""] else [])

/-- `operator==` of paths. -/
def samePath (p q : Path) : Bool := elements p = elements q

/-- One component of a path, walked from a location. -/
def stepTo (loc : Loc) (c : String) : Loc :=
  if c = "." then loc else if c = ".." then loc.dropLast else loc ++ [c]

/-- Components walked in turn. -/
def walk (loc : Loc) (cs : List String) : Loc := cs.foldl stepTo loc

/-- The location a path denotes, in the working directory `cwd`. -/
def resolve (cwd : Loc) (p : Path) : Loc :=
  walk (if isAbsolute (cstr p) then [] else cwd) (components (cstr p))

/-- A text the system takes as the name of one file. The bound on its length is not here: a call
with an over-long name is one that fails in `Io`. -/
def Plain (c : String) : Prop :=
  c ≠ "" ∧ c ≠ "." ∧ c ≠ ".." ∧ '/' ∉ c.toList ∧ Char.ofNat 0 ∉ c.toList

instance (c : String) : Decidable (Plain c) := inferInstanceAs (Decidable (_ ∧ _))

/-! ## Components -/

/-- A stretch without a separator is read into the current component. -/
theorem componentsLoop_append {cur p : List Char} (hp : '/' ∉ p) (rest : List Char) :
    componentsLoop cur (p ++ rest) = componentsLoop (cur ++ p) rest := by
  induction p generalizing cur with
  | nil => simp
  | cons c cs ih =>
    obtain ⟨hc, hcs⟩ := List.ne_and_not_mem_of_not_mem_cons hp
    simp only [List.cons_append, componentsLoop, if_neg hc.symm]
    rw [ih hcs, List.append_assoc, List.singleton_append]

/-- A separator ends the current component. -/
theorem componentsLoop_separator (cur p rest : List Char) :
    componentsLoop cur (p ++ '/' :: rest) = componentsLoop cur p ++ componentsLoop [] rest := by
  induction p generalizing cur with
  | nil =>
    simp only [List.nil_append, componentsLoop, if_true]
    split <;> simp
  | cons c cs ih =>
    simp only [List.cons_append, componentsLoop]
    split
    · split
      · exact ih []
      · rw [ih [], List.cons_append]
    · exact ih (cur ++ [c])

/-- After a separator, or at the start, a new component begins. -/
theorem componentsLoop_dir (cur p rest : List Char) (h : p.reverse.head? = some '/') :
    componentsLoop cur (p ++ rest) = componentsLoop cur p ++ componentsLoop [] rest := by
  obtain ⟨q, rfl⟩ : ∃ q, p = q ++ ['/'] := by
    cases hp : p.reverse with
    | nil =>
      rw [hp] at h
      cases h
    | cons c cs =>
      rw [hp] at h
      cases h
      exact ⟨cs.reverse, by rw [← List.reverse_reverse p, hp, List.reverse_cons]⟩
  rw [List.append_assoc, List.singleton_append, componentsLoop_separator,
    componentsLoop_separator cur q []]
  simp [componentsLoop]

theorem mem_componentsLoop {cur p : List Char} {c : String} (h : c ∈ componentsLoop cur p)
    (hcur : '/' ∉ cur) : c ≠ "" ∧ '/' ∉ c.toList ∧ ∀ x ∈ c.toList, x ∈ cur ∨ x ∈ p := by
  induction p generalizing cur with
  | nil =>
    simp only [componentsLoop] at h
    split at h
    · cases h
    · rename_i hne
      rw [List.mem_singleton] at h
      subst h
      refine ⟨fun he => hne ?_, by simpa using hcur, fun x hx => .inl (by simpa using hx)⟩
      simpa using congrArg String.toList he
  | cons d ds ih =>
    simp only [componentsLoop] at h
    split at h
    · rename_i hd
      have hrest : c ∈ componentsLoop [] ds → _ := fun hc => ih hc (by simp)
      split at h
      · obtain ⟨h1, h2, h3⟩ := hrest h
        exact ⟨h1, h2, fun x hx => .inr (by simpa using (h3 x hx).imp_left (by simp))⟩
      · rename_i hne
        rcases List.mem_cons.mp h with rfl | h
        · refine ⟨fun he => hne ?_, by simpa using hcur, fun x hx => .inl (by simpa using hx)⟩
          simpa using congrArg String.toList he
        · obtain ⟨h1, h2, h3⟩ := hrest h
          refine ⟨h1, h2, fun x hx => .inr ?_⟩
          rcases h3 x hx with h3 | h3
          · cases h3
          · exact List.mem_cons_of_mem d h3
    · rename_i hd
      obtain ⟨h1, h2, h3⟩ := ih h (by simp [hcur, Ne.symm hd])
      refine ⟨h1, h2, fun x hx => ?_⟩
      rcases h3 x hx with h3 | h3
      · rcases List.mem_append.mp h3 with h3 | h3
        · exact .inl h3
        · exact .inr (by rw [List.mem_singleton] at h3; rw [h3]; exact List.mem_cons_self)
      · exact .inr (List.mem_cons_of_mem d h3)

/-- A plain component is its own only component. -/
theorem components_plain {c : String} (h : Plain c) : components c = [c] := by
  unfold components
  have hloop := @componentsLoop_append [] c.toList h.2.2.2.1 []
  rw [List.append_nil, List.nil_append] at hloop
  rw [hloop]
  have hne : c.toList ≠ [] := fun he => h.1 (String.toList_injective he)
  simp only [componentsLoop, if_neg hne, String.ofList_toList]

/-- What a path appends to another one comes after its components. -/
theorem components_append {p q : Path} (hq : isAbsolute q = false) :
    components (append p q) = components p ++ components q := by
  unfold append components
  rw [if_neg (by rw [hq]; exact Bool.false_ne_true)]
  split
  · rename_i hf
    rw [String.toList_append]
    cases hp : p.toList with
    | nil => rfl
    | cons c cs =>
      refine componentsLoop_dir _ _ _ ?_
      have htake : (p.toList.reverse.takeWhile (· ≠ '/')) = [] := by
        have := congrArg String.toList hf
        simpa [filename] using this
      rw [hp] at htake
      cases hrev : (c :: cs).reverse with
      | nil => simp at hrev
      | cons d ds =>
        rw [hrev] at htake
        by_cases hd : d = '/'
        · rw [hd]
          rfl
        · simp [hd] at htake
  · rw [String.toList_append, String.toList_append, List.append_assoc]
    exact componentsLoop_separator [] p.toList q.toList

/-! ## Appending -/

theorem append_absolute {p q : Path} (hq : isAbsolute q = true) : append p q = q := if_pos hq

theorem isAbsolute_append {p q : Path} (hq : isAbsolute q = false) :
    isAbsolute (append p q) = isAbsolute p := by
  have hne : ¬ isAbsolute q = true := by rw [hq]; exact Bool.false_ne_true
  unfold append
  rw [if_neg hne]
  cases hp : p.toList with
  | nil =>
    have hempty : p = "" := String.toList_injective hp
    have hfile : filename "" = "" := by decide
    rw [hempty, if_pos hfile, String.empty_append, hq]
    rfl
  | cons c cs =>
    unfold isAbsolute
    split <;> simp [String.toList_append, hp]

theorem isAbsolute_cstr (q : Path) : isAbsolute (cstr q) = isAbsolute q := by
  unfold isAbsolute
  rw [toList_cstr]
  cases q.toList with
  | nil => rfl
  | cons c cs =>
    by_cases hc : c = Char.ofNat 0
    · subst hc
      rfl
    · simp [hc]

/-- The system reads an appended path up to the NUL of what was appended. -/
theorem cstr_append {p q : Path} (hp : Char.ofNat 0 ∉ p.toList) (hq : isAbsolute q = false) :
    cstr (append p q) = append p (cstr q) := by
  have hq' : ¬ isAbsolute (cstr q) = true := by
    rw [isAbsolute_cstr, hq]
    exact Bool.false_ne_true
  have htake : ∀ l, (p.toList ++ l).takeWhile (· ≠ Char.ofNat 0) =
      p.toList ++ l.takeWhile (· ≠ Char.ofNat 0) := fun l =>
    List.takeWhile_append_of_pos fun c hc => by
      simp only [ne_eq, decide_eq_true_eq]
      rintro rfl
      exact hp hc
  unfold append
  rw [if_neg hq', if_neg (by rw [hq]; exact Bool.false_ne_true)]
  apply String.toList_injective
  split
  · rw [toList_cstr, String.toList_append, htake, String.toList_append, toList_cstr]
  · rw [toList_cstr, String.toList_append, String.toList_append, List.append_assoc, htake,
      String.toList_append, String.toList_append, toList_cstr, List.append_assoc]
    rfl

/-- What is appended after a NUL is not read. -/
theorem resolve_append_of_mem {cwd : Loc} {p q : Path} (hp : Char.ofNat 0 ∈ p.toList)
    (hq : isAbsolute q = false) : resolve cwd (append p q) = resolve cwd p := by
  have hcstr : cstr (append p q) = cstr p := by
    apply String.toList_injective
    have htake : ∀ l : List Char, (p.toList ++ l).takeWhile (· ≠ Char.ofNat 0) =
        p.toList.takeWhile (· ≠ Char.ofNat 0) := by
      intro l
      rw [List.takeWhile_append, if_neg]
      intro hlen
      have heq := (List.takeWhile_prefix (l := p.toList) (· ≠ Char.ofNat 0)).eq_of_length hlen
      rw [List.takeWhile_eq_self_iff] at heq
      simpa using heq _ hp
    unfold append
    rw [if_neg (by rw [hq]; exact Bool.false_ne_true), toList_cstr, toList_cstr]
    split
    · rw [String.toList_append, htake]
    · rw [String.toList_append, String.toList_append, List.append_assoc, htake]
  unfold resolve
  rw [hcstr]

theorem resolve_append {cwd : Loc} {p q : Path} (hp : Char.ofNat 0 ∉ p.toList)
    (hq : isAbsolute q = false) :
    resolve cwd (append p q) = walk (resolve cwd p) (components (cstr q)) := by
  have hq' : isAbsolute (cstr q) = false := by rw [isAbsolute_cstr, hq]
  unfold resolve
  rw [cstr_append hp hq, isAbsolute_append hq', components_append hq', cstr_of_not_mem hp]
  exact List.foldl_append

/-- A plain component leads one component down. -/
theorem resolve_append_plain {cwd : Loc} {p c : Path} (hp : Char.ofNat 0 ∉ p.toList)
    (hc : Plain c) : resolve cwd (append p c) = resolve cwd p ++ [c] := by
  have habs : isAbsolute c = false := by
    unfold isAbsolute
    rw [decide_eq_false_iff_not]
    intro h
    exact hc.2.2.2.1 (List.mem_of_mem_head? h)
  rw [resolve_append hp habs, cstr_of_not_mem hc.2.2.2.2, components_plain hc]
  unfold walk stepTo
  rw [List.foldl_cons, List.foldl_nil, if_neg hc.2.1, if_neg hc.2.2.1]

theorem not_mem_append {p c : Path} (hp : Char.ofNat 0 ∉ p.toList) (hc : Plain c) :
    Char.ofNat 0 ∉ (append p c).toList := by
  have hn := hc.2.2.2.2
  unfold append
  split
  · exact hn
  · split
    · rw [String.toList_append, List.mem_append, not_or]
      exact ⟨hp, hn⟩
    · rw [String.toList_append, String.toList_append, List.mem_append, List.mem_append,
        not_or, not_or]
      exact ⟨⟨hp, by decide⟩, hn⟩

/-! ## Where a path leads -/

/-- `b` goes up from `a` and then down through plain components. -/
def Shape (a b : Loc) : Prop :=
  ∃ k pushed, b = a.take k ++ pushed ∧ ∀ c ∈ pushed, Plain c

theorem Shape.refl (a : Loc) : Shape a a :=
  ⟨a.length, [], by simp, by simp⟩

theorem Shape.trans {a b c : Loc} (h₁ : Shape a b) (h₂ : Shape b c) : Shape a c := by
  obtain ⟨k, pushed, rfl, hp⟩ := h₁
  obtain ⟨k', pushed', rfl, hp'⟩ := h₂
  refine ⟨min k' k, pushed.take (k' - (a.take k).length) ++ pushed', ?_, fun c hc => ?_⟩
  · rw [List.take_append, List.take_take, List.append_assoc]
  · rcases List.mem_append.mp hc with hc | hc
    · exact hp c (List.mem_of_mem_take hc)
    · exact hp' c hc

theorem Shape.of_root (a : Loc) {b : Loc} (h : Shape [] b) : Shape a b := by
  obtain ⟨k, pushed, rfl, hp⟩ := h
  exact ⟨0, pushed, by simp, hp⟩

theorem Shape.stepTo (a : Loc) {c : String}
    (h : c ≠ "" ∧ '/' ∉ c.toList ∧ Char.ofNat 0 ∉ c.toList) : Shape a (stepTo a c) := by
  unfold Os.stepTo
  split
  · exact .refl a
  · split
    · exact ⟨a.length - 1, [], by rw [List.append_nil, List.dropLast_eq_take], by simp⟩
    · rename_i h1 h2
      refine ⟨a.length, [c], by simp, fun x hx => ?_⟩
      rw [List.mem_singleton] at hx
      subst hx
      exact ⟨h.1, h1, h2, h.2.1, h.2.2⟩

theorem Shape.walk (a : Loc) {cs : List String}
    (h : ∀ c ∈ cs, c ≠ "" ∧ '/' ∉ c.toList ∧ Char.ofNat 0 ∉ c.toList) : Shape a (walk a cs) := by
  induction cs generalizing a with
  | nil => exact .refl a
  | cons c cs ih =>
    exact (Shape.stepTo a (h c List.mem_cons_self)).trans
      (ih (Os.stepTo a c) fun x hx => h x (List.mem_cons_of_mem c hx))

theorem Shape.components (a : Loc) (p : Path) : Shape a (Os.walk a (components (cstr p))) := by
  refine .walk a fun c hc => ?_
  obtain ⟨h1, h2, h3⟩ := mem_componentsLoop hc (by simp)
  refine ⟨h1, h2, fun hz => ?_⟩
  rcases h3 _ hz with h3 | h3
  · cases h3
  · exact not_mem_cstr p h3

/-- Whatever is appended, the path leads up from where it started and down through plain
components. -/
theorem resolve_shape (cwd : Loc) (p q : Path) :
    Shape (resolve cwd p) (resolve cwd (append p q)) := by
  cases hq : isAbsolute q with
  | true =>
    rw [append_absolute hq]
    unfold resolve
    rw [isAbsolute_cstr q, hq]
    exact .of_root _ (.components [] q)
  | false =>
    by_cases hp : Char.ofNat 0 ∈ p.toList
    · rw [resolve_append_of_mem hp hq]
      exact .refl _
    · rw [resolve_append hp hq]
      exact .components _ q

/-- Below its start, a location of this shape has plain components only. -/
theorem Shape.plain_below {a b : Loc} (h : Shape a b) : ∀ c ∈ b.drop a.length, Plain c := by
  obtain ⟨k, pushed, rfl, hp⟩ := h
  intro c hc
  rw [List.drop_append, List.drop_eq_nil_of_le (by simp only [List.length_take]; omega),
    List.nil_append] at hc
  exact hp c (List.mem_of_mem_drop hc)

end DistroDefender.Os
