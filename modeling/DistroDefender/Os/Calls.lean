import DistroDefender.Os.Tree

/-!
# What the calls do to the tree

`create_directories` adds directories on its way (`mkdirs_made`), and all of them where no file is
in the way and no call fails (`mkdirs_calm`). A file is opened in a directory that is there
(`openWrite_cases`). `remove_all` takes a part of a tree that keeps the rest a tree
(`removeAll_cases`), `remove` one directory.
-/

namespace DistroDefender.Os

open Base Lib

namespace Fs

/-! ## Growing -/

/-- What was there is there, files with other texts perhaps. -/
structure Grows (fs fs' : Fs) : Prop where
  cwd : fs'.cwd = fs.cwd
  tree : fs.Tree → fs'.Tree
  dir : ∀ l, fs.node l = some .dir → fs'.node l = some .dir
  file : ∀ l text, fs.node l = some (.file text) → ∃ text', fs'.node l = some (.file text')

namespace Grows

theorem refl (fs : Fs) : Grows fs fs := ⟨rfl, id, fun _ h => h, fun _ text h => ⟨text, h⟩⟩

theorem trans {fs₁ fs₂ fs₃ : Fs} (h₁ : Grows fs₁ fs₂) (h₂ : Grows fs₂ fs₃) : Grows fs₁ fs₃ := by
  refine ⟨h₂.cwd.trans h₁.cwd, fun h => h₂.tree (h₁.tree h), fun l h => h₂.dir l (h₁.dir l h), ?_⟩
  intro l text h
  obtain ⟨text', h'⟩ := h₁.file l text h
  exact h₂.file l text' h'

theorem keeps {fs fs' : Fs} (h : Grows fs fs') {l : Loc} (hl : fs.node l ≠ none) :
    fs'.node l ≠ none := by
  rcases hn : fs.node l with _ | _ | text
  · exact absurd hn hl
  · rw [h.dir l hn]
    exact Option.some_ne_none _
  · obtain ⟨text', h'⟩ := h.file l text hn
    rw [h']
    exact Option.some_ne_none _

/-- A file in the place of what is no directory. -/
theorem set {fs : Fs} {dir : Loc} {c : String} (hdir : fs.node dir = some .dir)
    (hold : fs.node (dir ++ [c]) ≠ some .dir) (text : String) :
    Grows fs (fs.set (dir ++ [c]) (.file text)) := by
  have hnode : ∀ x, (fs.set (dir ++ [c]) (.file text)).node x =
      if x = dir ++ [c] then some (.file text) else fs.node x := node_set fs (by simp) _
  refine ⟨rfl, fun h => h.set hdir hold _, fun x hx => ?_, fun x text' hx => ?_⟩
  · rw [hnode, if_neg]
    · exact hx
    · rintro rfl
      exact hold hx
  · rw [hnode]
    split
    · exact ⟨text, rfl⟩
    · exact ⟨text', hx⟩

end Grows

/-- `create_directories` has made some of the directories from `loc` along `cs`. -/
structure Made (fs fs' : Fs) (loc : Loc) (cs : List String) : Prop where
  cwd : fs'.cwd = fs.cwd
  tree : fs'.Tree
  node : ∀ l, fs'.node l = fs.node l ∨
    fs.node l = none ∧ fs'.node l = some .dir ∧ ∃ w, w <+: cs ∧ l = walk loc w

theorem Made.grows {fs fs' : Fs} {loc : Loc} {cs : List String} (h : Made fs fs' loc cs) :
    Grows fs fs' := by
  have hkeep : ∀ l n, fs.node l = some n → fs'.node l = some n := by
    intro l n hl
    rcases h.node l with heq | ⟨hnone, -⟩
    · rw [heq, hl]
    · rw [hl] at hnone
      cases hnone
  exact ⟨h.cwd, fun _ => h.tree, fun l hl => hkeep l _ hl, fun l text hl => ⟨text, hkeep l _ hl⟩⟩

end Fs

/-! ## Creating directories -/

section Mkdirs

variable {io : Io} {fs : Fs} {loc : Loc}

/-- One component of `create_directories`. -/
theorem mkdirs_cons_cases (io : Io) (fs : Fs) (loc : Loc) (c : String) (cs : List String)
    (k : Nat) : ((c = "." ∨ c = ".." ∨ fs.node (stepTo loc c) = some .dir) ∧
      (mkdirs io loc (c :: cs) k).run fs = (mkdirs io (stepTo loc c) cs k).run fs) ∨
    (¬ (c = "." ∨ c = "..") ∧ fs.node (stepTo loc c) ≠ some .dir ∧
      ((∃ text, fs.node (stepTo loc c) = some (.file text)) ∨ fs.node loc ≠ some .dir ∨
        io.mkdir k ≠ none) ∧
      ∃ ec, (mkdirs io loc (c :: cs) k).run fs = .ok (some ec) fs) ∨
    (¬ (c = "." ∨ c = "..") ∧ fs.node (stepTo loc c) = none ∧ fs.node loc = some .dir ∧
      (mkdirs io loc (c :: cs) k).run fs =
        (mkdirs io (stepTo loc c) cs (k + 1)).run (fs.set (stepTo loc c) .dir)) := by
  by_cases hdot : c = "." ∨ c = ".."
  · refine .inl ⟨or_assoc.mp (.inl hdot), ?_⟩
    simp only [mkdirs, if_pos hdot]
  simp only [mkdirs, if_neg hdot, EStateM.run_bind, EStateM.run_get]
  rcases hn : fs.node (stepTo loc c) with _ | _ | text
  · by_cases hloc : fs.node loc = some .dir
    · rcases hk : io.mkdir k with _ | ec
      · refine .inr (.inr ⟨hdot, rfl, hloc, ?_⟩)
        simp only [hloc, ne_eq, not_true_eq_false, if_false]
        rfl
      · refine .inr (.inl ⟨hdot, by simp, .inr (.inr (by simp)), ec, ?_⟩)
        simp only [hloc, ne_eq, not_true_eq_false, if_false]
        rfl
    · refine .inr (.inl ⟨hdot, by simp, .inr (.inl hloc), ⟨2, "No such file or directory"⟩, ?_⟩)
      simp only [if_pos hloc]
      rfl
  · exact .inl ⟨.inr (.inr rfl), rfl⟩
  · exact .inr (.inl ⟨hdot, by simp, .inl ⟨text, rfl⟩, _, rfl⟩)

theorem stepTo_name {c : String} (hc : ¬ (c = "." ∨ c = "..")) (loc : Loc) :
    stepTo loc c = loc ++ [c] := by
  rw [not_or] at hc
  unfold stepTo
  rw [if_neg hc.1, if_neg hc.2]

/-- Walking up from a directory leads to one. -/
theorem Fs.Tree.dir_stepTo (h : fs.Tree) (hloc : fs.node loc = some .dir) {c : String}
    (hc : c = "." ∨ c = "..") : fs.node (stepTo loc c) = some .dir := by
  rcases hc with rfl | rfl
  · exact hloc
  · show fs.node loc.dropLast = some .dir
    rcases List.eq_nil_or_concat' loc with rfl | ⟨dir, c, rfl⟩
    · rfl
    · rw [List.dropLast_concat]
      exact h dir c (by rw [hloc]; exact Option.some_ne_none _)

theorem mkdirs_made (io : Io) {fs : Fs} (htree : fs.Tree) (loc : Loc) (cs : List String) (k : Nat) :
    ∃ e fs', (mkdirs io loc cs k).run fs = .ok e fs' ∧ fs.Made fs' loc cs ∧
      (e = none → fs.node loc = some .dir → fs'.node (walk loc cs) = some .dir) := by
  induction cs generalizing fs loc k with
  | nil =>
    refine ⟨none, fs, rfl, ⟨rfl, htree, fun _ => .inl rfl⟩, fun _ h => h⟩
  | cons c cs ih =>
    have hlift : ∀ {fs₁ fs' : Fs} , fs₁.Made fs' (stepTo loc c) cs → ∀ l, fs'.node l = fs₁.node l ∨
        fs₁.node l = none ∧ fs'.node l = some .dir ∧ ∃ w, w <+: c :: cs ∧ l = walk loc w := by
      intro fs₁ fs' hmade l
      rcases hmade.node l with heq | ⟨hnone, hdir, w, hw, rfl⟩
      · exact .inl heq
      · exact .inr ⟨hnone, hdir, c :: w, List.cons_prefix_cons.mpr ⟨rfl, hw⟩, rfl⟩
    rcases mkdirs_cons_cases io fs loc c cs k with ⟨hc, hrun⟩ | ⟨-, -, -, ec, hrun⟩ |
        ⟨hc, hnone, hloc, hrun⟩
    · obtain ⟨e, fs', hrun', hmade, hend⟩ := ih htree (stepTo loc c) k
      refine ⟨e, fs', hrun.trans hrun', ⟨hmade.cwd, hmade.tree, hlift hmade⟩,
        fun he hloc => hend he ?_⟩
      rcases or_assoc.mpr hc with hdot | hdir
      · exact htree.dir_stepTo hloc hdot
      · exact hdir
    · exact ⟨some ec, fs, hrun, ⟨rfl, htree, fun _ => .inl rfl⟩, fun he => by cases he⟩
    · have hstep := stepTo_name hc loc
      rw [hstep] at hnone hrun hlift
      have hset : (fs.set (loc ++ [c]) .dir).Tree := htree.set hloc (by rw [hnone]; simp) .dir
      obtain ⟨e, fs', hrun', hmade, hend⟩ := ih hset (loc ++ [c]) (k + 1)
      have hnode : ∀ l, (fs.set (loc ++ [c]) .dir).node l = if l = loc ++ [c] then some .dir
          else fs.node l :=
        Fs.node_set fs (by simp) _
      refine ⟨e, fs', hrun.trans hrun', ⟨hmade.cwd, hmade.tree, fun l => ?_⟩, fun he _ => ?_⟩
      · by_cases hl : l = loc ++ [c]
        · subst hl
          refine .inr ⟨hnone, ?_, [c], by simp, ?_⟩
          · exact hmade.grows.dir _ (by rw [hnode, if_pos rfl])
          · exact hstep.symm
        · have hl' := hlift hmade l
          rw [hnode, if_neg hl] at hl'
          exact hl'
      · have hdir := hend he (by rw [hnode, if_pos rfl])
        show fs'.node (walk (stepTo loc c) cs) = _
        rw [hstep]
        exact hdir

/-- Where no call fails and no file is in the way, all of the directories are made. -/
theorem mkdirs_calm (hio : ∀ k, io.mkdir k = none) {fs : Fs} (htree : fs.Tree) {loc : Loc}
    (hloc : fs.node loc = some .dir) {cs : List String}
    (hclear : ∀ w, w <+: cs → ∀ text, fs.node (walk loc w) ≠ some (.file text)) (k : Nat) :
    ∃ fs', (mkdirs io loc cs k).run fs = .ok none fs' := by
  induction cs generalizing fs loc k with
  | nil => exact ⟨fs, rfl⟩
  | cons c cs ih =>
    have hnext : ∀ w, w <+: cs → ∀ text, fs.node (walk (stepTo loc c) w) ≠ some (.file text) :=
      fun w hw =>
      hclear (c :: w) (List.cons_prefix_cons.mpr ⟨rfl, hw⟩)
    rcases mkdirs_cons_cases io fs loc c cs k with ⟨hc, hrun⟩ | ⟨-, -, hfail, -⟩ |
        ⟨hc, hnone, -, hrun⟩
    · have hdir : fs.node (stepTo loc c) = some .dir := by
        rcases or_assoc.mpr hc with hdot | hdir
        · exact htree.dir_stepTo hloc hdot
        · exact hdir
      rw [hrun]
      exact ih htree hdir hnext k
    · rcases hfail with ⟨text, htext⟩ | hfail | hfail
      · exact absurd htext (hnext [] List.nil_prefix text)
      · exact absurd hloc hfail
      · exact absurd (hio k) hfail
    · have hstep := stepTo_name hc loc
      rw [hstep] at hnone hrun hnext
      have hnode : ∀ l, (fs.set (loc ++ [c]) .dir).node l = if l = loc ++ [c] then some .dir
          else fs.node l :=
        Fs.node_set fs (by simp) _
      rw [hrun]
      refine ih (htree.set hloc (by rw [hnone]; simp) .dir) (by rw [hnode, if_pos rfl])
        (fun w hw text => ?_) _
      rw [hnode]
      split
      · simp
      · exact hnext w hw text

end Mkdirs

/-- `create_directories` makes some of the directories of its path, and without an error all. -/
theorem createDirectories_made (io : Io) {fs : Fs} (htree : fs.Tree) (p : Path) :
    ∃ e fs', (createDirectories io p).run fs = .ok e fs' ∧
      fs.Made fs' (start fs.cwd p) (components (cstr p)) ∧
      (e = none → cstr p ≠ "" ∧
        (fs.node (start fs.cwd p) = some .dir → fs'.node (resolve fs.cwd p) = some .dir)) := by
  unfold createDirectories
  rw [EStateM.run_bind, EStateM.run_get]
  simp only
  by_cases hp : cstr p = ""
  · rw [if_pos hp]
    exact ⟨_, fs, rfl, ⟨rfl, htree, fun _ => .inl rfl⟩, fun he => by cases he⟩
  · rw [if_neg hp]
    obtain ⟨e, fs', hrun, hmade, hend⟩ :=
      mkdirs_made io htree (start fs.cwd p) (components (cstr p)) 0
    exact ⟨e, fs', hrun, hmade, fun he => ⟨hp, hend he⟩⟩

/-! ## Opening a file -/

theorem componentsLoop_eq_nil {cur p : List Char} : componentsLoop cur p = [] ↔ cur = [] ∧
    ∀ c ∈ p, c = '/' := by
  induction p generalizing cur with
  | nil =>
    unfold componentsLoop
    split <;> simp [*]
  | cons c cs ih =>
    unfold componentsLoop
    split
    · rename_i hc
      split
      · rename_i hcur
        rw [ih]
        simp [hc, hcur]
      · rename_i hcur
        simp [hcur]
    · rename_i hc
      rw [ih]
      simp [hc]

/-- Only separators. -/
theorem components_eq_nil {p : Path} : components p = [] ↔ ∀ c ∈ p.toList, c = '/' := by
  unfold components
  rw [componentsLoop_eq_nil]
  simp

/-- A path to what is no directory ends in a name, of an entry of a directory. -/
theorem Fs.locate_entry {fs : Fs} (htree : fs.Tree) {p : Path} {l : Loc} (h : fs.locate p = some l)
    (hl : fs.node l ≠ some .dir) : ∃ dir c, l = dir ++ [c] ∧ fs.node dir = some .dir := by
  obtain ⟨hne, rfl, hway, -⟩ := Fs.locate_eq_some.mp h
  rw [resolve_eq_walk] at hl ⊢
  rcases List.eq_nil_or_concat' (components (cstr p)) with hcs | ⟨w, c, hcs⟩
  · -- without components the path is absolute, and leads to the root
    have habs : isAbsolute (cstr p) = true := by
      have hall := components_eq_nil.mp hcs
      unfold isAbsolute
      cases hchars : (cstr p).toList with
      | nil => exact absurd (String.toList_injective hchars) hne
      | cons c cs =>
        rw [hchars] at hall
        simp [hall c List.mem_cons_self]
    rw [hcs] at hl
    refine absurd ?_ hl
    show fs.node (start fs.cwd p) = _
    unfold start
    rw [if_pos habs, node_nil]
  · have hdir := hway w (hcs ▸ List.prefix_append _ _) (by rw [hcs]; simp)
    rw [hcs, walk_append] at hl ⊢
    by_cases hc : c = "." ∨ c = ".."
    · exact absurd (htree.dir_stepTo hdir hc) hl
    · exact ⟨walk (start fs.cwd p) w, c, stepTo_name hc _, hdir⟩

/-- A file is opened, truncated, or nothing happens. -/
theorem openWrite_cases (io : Io) (fs : Fs) (p : Path) :
    ((openWrite io p).run fs = .ok none fs ∧
      (fs.locate p = none ∨ io.openFile = false ∨ ∃ l, fs.locate p = some l ∧
        fs.node l = some .dir)) ∨
    ∃ l, fs.locate p = some l ∧ fs.node l ≠ some .dir ∧ io.openFile = true ∧
      (openWrite io p).run fs = .ok (some l) (fs.set l (.file "")) := by
  unfold openWrite
  rw [EStateM.run_bind, EStateM.run_get]
  simp only
  rcases hl : fs.locate p with _ | l
  · exact .inl ⟨rfl, .inl rfl⟩
  · by_cases hdir : fs.node l = some .dir
    · exact .inl ⟨by simp [hdir], .inr (.inr ⟨l, rfl, hdir⟩)⟩
    · rcases ho : io.openFile
      · exact .inl ⟨by simp, .inr (.inl rfl)⟩
      · refine .inr ⟨l, rfl, hdir, rfl, ?_⟩
        simp only [hdir, ne_eq, not_false_eq_true, and_self, if_true]
        rfl

/-! ## Removing -/

/-- `rmdir` takes a path that ends in a name. -/
theorem rmdirError_eq_none {p : Path} (h : rmdirError p = none) :
    ∃ w c, components (cstr p) = w ++ [c] ∧ ¬ (c = "." ∨ c = "..") := by
  unfold rmdirError at h
  rcases List.eq_nil_or_concat' (components (cstr p)) with hcs | ⟨w, c, hcs⟩
  · rw [hcs] at h
    cases h
  · refine ⟨w, c, hcs, ?_⟩
    rw [hcs, List.getLast?_concat] at h
    rintro (rfl | rfl) <;> cases h

theorem rmdirError_of_name {p : Path} {w : List String} {c : String}
    (h : components (cstr p) = w ++ [c]) (hc : ¬ (c = "." ∨ c = "..")) : rmdirError p = none := by
  rw [not_or] at hc
  unfold rmdirError
  rw [h, List.getLast?_concat]
  simp [hc]

/-- What ends in a name is no root. -/
theorem resolve_ne_nil {p : Path} (h : rmdirError p = none) (cwd : Loc) : resolve cwd p ≠ [] := by
  obtain ⟨w, c, hcs, hc⟩ := rmdirError_eq_none h
  rw [resolve_eq_walk, hcs, walk_append]
  show stepTo _ c ≠ []
  rw [stepTo_name hc]
  simp

namespace Fs

variable {fs : Fs} {io : Io} {p : Path} {l : Loc}

/-- `remove_all` of the tree at `l` takes the entry `x`. -/
structure Taken (fs : Fs) (io : Io) (p : Path) (l x : Loc) : Prop where
  inside : l <+: x
  named : x ≠ l ∨ rmdirError p = none
  gone : ∀ gone ec, io.removeAll = some (gone, ec) → ∀ k, fs.node k ≠ none → x <+: k → k ∈ gone

/-- The locations `remove_all` takes. -/
def takenAt (fs : Fs) (io : Io) (p : Path) (l : Loc) : List Loc :=
  taken io p l (fs.nodes.keys.filter fun x => l.isPrefixOf x)

theorem mem_keys_iff {x : Loc} (hx : x ≠ []) : x ∈ fs.nodes.keys ↔ fs.node x ≠ none := by
  unfold node
  rw [if_neg hx, ← Option.isSome_iff_ne_none, AList.lookup_isSome, AList.mem_keys]

theorem mem_takenAt {x : Loc} (hx : x ≠ []) :
    x ∈ fs.takenAt io p l ↔ fs.node x ≠ none ∧ fs.Taken io p l x := by
  have hgone : ∀ gone : List Loc, l <+: x →
      (((fs.nodes.keys.filter fun x => l.isPrefixOf x).all fun k => !x.isPrefixOf k ||
        gone.contains k) = true ↔ ∀ k, fs.node k ≠ none → x <+: k → k ∈ gone) := by
    intro gone hlx
    simp only [List.all_eq_true, List.mem_filter, List.isPrefixOf_iff_prefix, Bool.or_eq_true,
      Bool.not_eq_true', List.contains_iff_mem]
    constructor
    · intro hall k hk hxk
      have hkne : k ≠ [] := fun he => hx (List.prefix_nil.mp (he ▸ hxk))
      rcases hall k ⟨(mem_keys_iff hkne).mpr hk, hlx.trans hxk⟩ with hno | hmem
      · rw [List.isPrefixOf_iff_prefix.mpr hxk] at hno
        cases hno
      · exact hmem
    · rintro hall k ⟨hk, -⟩
      by_cases hxk : x <+: k
      · have hkne : k ≠ [] := fun he => hx (List.prefix_nil.mp (he ▸ hxk))
        exact .inr (hall k ((mem_keys_iff hkne).mp hk) hxk)
      · exact .inl (Bool.eq_false_iff.mpr fun h => hxk (List.isPrefixOf_iff_prefix.mp h))
  unfold takenAt taken
  simp only [List.mem_filter, mem_keys_iff hx, List.isPrefixOf_iff_prefix, Bool.and_eq_true,
    decide_eq_true_eq]
  constructor
  · rintro ⟨⟨hn, hlx⟩, hname, hio⟩
    refine ⟨hn, hlx, hname, fun gone ec hr => ?_⟩
    rw [hr] at hio
    exact (hgone gone hlx).mp hio
  · rintro ⟨hn, hlx, hname, hio⟩
    refine ⟨⟨hn, hlx⟩, hname, ?_⟩
    rcases hr : io.removeAll with _ | ⟨gone, ec⟩
    · rfl
    · exact (hgone gone hlx).mpr (hio gone ec hr)

/-- What `remove_all` takes is gone. -/
theorem node_taken {x : Loc} (hx : x ≠ []) (h : fs.Taken io p l x) :
    (fs.without (fs.takenAt io p l)).node x = none := by
  rw [node_without]
  split
  · rfl
  · rename_i hnot
    by_contra hn
    exact hnot ⟨(mem_takenAt hx).mpr ⟨hn, h⟩, hx⟩

/-- The rest stays. -/
theorem node_not_taken {x : Loc} (h : ¬ fs.Taken io p l x) :
    (fs.without (fs.takenAt io p l)).node x = fs.node x := by
  rw [node_without, if_neg]
  rintro ⟨hmem, hx⟩
  exact h ((mem_takenAt hx).mp hmem).2

theorem Taken.below {x y : Loc} (h : fs.Taken io p l x) (hxy : x <+: y) : fs.Taken io p l y := by
  refine ⟨h.inside.trans hxy, ?_, fun gone ec hio k hk hyk =>
    h.gone gone ec hio k hk (hxy.trans hyk)⟩
  rcases h.named with hne | hname
  · refine .inl fun hy => hne ?_
    subst hy
    exact hxy.eq_of_length_le h.inside.length_le
  · exact .inr hname

theorem Tree.takenAt (h : fs.Tree) : (fs.without (fs.takenAt io p l)).Tree := by
  intro loc c hn
  have hkept : ¬ fs.Taken io p l (loc ++ [c]) := fun ht => hn (node_taken (by simp) ht)
  rw [node_not_taken hkept] at hn
  rw [node_not_taken fun ht => hkept (ht.below (List.prefix_append _ _))]
  exact h loc c hn

/-- What `remove_all` does: nothing where the path leads nowhere, else it takes what `Taken` says,
and answers zero only where nothing was there. -/
theorem removeAll_cases (io : Io) (fs : Fs) (p : Path) :
    (fs.locate p = none ∧ (removeAll io p).run fs = .ok (0, none) fs) ∨
    ∃ l n ec, fs.locate p = some l ∧ (n = 0 → fs.node l = none) ∧
      (removeAll io p).run fs = .ok (n, ec) (fs.without (fs.takenAt io p l)) := by
  unfold removeAll
  rw [EStateM.run_bind, EStateM.run_get]
  simp only
  rcases hl : fs.locate p with _ | l
  · exact .inl ⟨rfl, rfl⟩
  have hmax : UInt64.size - 1 = 0 → fs.node l = none := fun h => by cases h
  rcases hio : io.removeAll with _ | ⟨gone, ec⟩
  · rcases herr : rmdirError p with _ | ec
    · refine .inr ⟨l, (fs.takenAt io p l).length, none, rfl, fun hn => ?_, rfl⟩
      by_contra hnode
      have hne : l ≠ [] := by
        rw [(locate_eq_some.mp hl).2.1]
        exact resolve_ne_nil herr _
      have hmem := (mem_takenAt hne).mpr ⟨hnode, List.prefix_rfl, .inr herr, fun gone ec h => by
        rw [hio] at h
        cases h⟩
      rw [List.length_eq_zero_iff.mp hn] at hmem
      cases hmem
    · rcases hafter : (fs.without (fs.takenAt io p l)).locate p with _ | l'
      · refine .inr ⟨l, (fs.takenAt io p l).length, none, rfl, fun hn => ?_, ?_⟩
        · rw [List.length_eq_zero_iff.mp hn] at hafter
          cases hl.symm.trans hafter
        · unfold takenAt at hafter
          simp only [hafter]
          rfl
      · refine .inr ⟨l, UInt64.size - 1, some ec, rfl, hmax, ?_⟩
        unfold takenAt at hafter
        simp only [hafter]
        rfl
  · exact .inr ⟨l, UInt64.size - 1, some ec, rfl, hmax, rfl⟩

/-! ## Emptied directories -/

/-- `is_empty` holds of what is at `l`. -/
def Vacant (fs : Fs) (l : Loc) : Prop :=
  fs.node l = some .dir ∧ (∀ c, fs.node (l ++ [c]) = none) ∨ fs.node l = some (.file "")

/-- `is_empty` answers whether the path leads to something empty, and throws where it leads
nowhere. -/
theorem isEmpty_cases (fs : Fs) (p : Path) :
    (fs.status p = none ∧ ∃ what, (isEmpty p).run fs = .error (.filesystemError what) fs) ∨
    ∃ l, fs.locate p = some l ∧ fs.node l ≠ none ∧
      (fs.Vacant l ∧ (isEmpty p).run fs = .ok true fs ∨ ¬ fs.Vacant l ∧
        (isEmpty p).run fs = .ok false fs) := by
  unfold isEmpty status Vacant
  rw [EStateM.run_bind, EStateM.run_get]
  simp only
  rcases hl : fs.locate p with _ | l
  · exact .inl ⟨rfl, _, rfl⟩
  rcases hn : fs.node l with _ | _ | text
  · exact .inl ⟨by simp [hn], _, by simp [hn]; rfl⟩
  · refine .inr ⟨l, rfl, by simp [hn], ?_⟩
    simp only [hn, Option.bind_some, Option.map_some, true_and]
    rcases hents : fs.entries l with _ | ⟨c, cs⟩
    · exact .inl ⟨.inl (entries_eq_nil.mp hents), rfl⟩
    · refine .inr ⟨?_, rfl⟩
      rintro (hnone | hfile)
      · rw [← entries_eq_nil, hents] at hnone
        cases hnone
      · cases hfile
  · refine .inr ⟨l, rfl, by simp [hn], ?_⟩
    simp only [hn, Option.bind_some, Option.map_some, Option.some.injEq, reduceCtorEq, false_and,
      false_or, Node.file.injEq]
    by_cases ht : text = ""
    · subst ht
      exact .inl ⟨rfl, rfl⟩
    · refine .inr ⟨ht, ?_⟩
      have hempty : text.isEmpty = false := by
        rw [Bool.eq_false_iff]
        exact fun h => ht (String.isEmpty_iff.mp h)
      show EStateM.Result.ok text.isEmpty fs = _
      rw [hempty]

/-- `remove` of an emptied directory. -/
theorem removeDir_cases {fs : Fs} {p : Path} {l : Loc} (hl : fs.locate p = some l) (io : Io)
    (k : Nat) : ((rmdirError p ≠ none ∨ io.rmdir k ≠ none) ∧
      ∃ ec, (removeDir io k p).run fs = .ok (some ec) fs) ∨
    (rmdirError p = none ∧ io.rmdir k = none ∧
      (removeDir io k p).run fs = .ok none (fs.without [l])) := by
  unfold removeDir
  rw [EStateM.run_bind, EStateM.run_get]
  simp only [hl]
  rcases herr : rmdirError p with _ | ec
  · rcases hk : io.rmdir k with _ | ec
    · exact .inr ⟨rfl, rfl, rfl⟩
    · exact .inl ⟨.inr (by simp), ec, rfl⟩
  · exact .inl ⟨.inl (by simp), ec, rfl⟩

/-- Taking away what is empty leaves a tree. -/
theorem Tree.without_vacant (h : fs.Tree) (hl : fs.Vacant l) : (fs.without [l]).Tree := by
  refine h.without fun x hx c hn => ?_
  rw [List.mem_singleton] at hx
  subst hx
  rcases hl with ⟨-, hnone⟩ | hfile
  · exact absurd (hnone c) hn
  · have hdir := h x c hn
    rw [hfile] at hdir
    cases hdir

end Fs

end DistroDefender.Os
