import DistroDefender.Store.FileDocs

/-!
# The collections of the file driver

In a run on names of plain components from an empty root, with no failing system call, the
directories below the root are the collections (`Shape`): every file there is a document, and every
directory lies above one. A deletion first leaves directories on the way up without a document
(`Emptying`), and its pruning removes exactly these. `collections_agree` is what follows for the
driver's answers.
-/

namespace DistroDefender.Store

open Base Lib Os

namespace FileDriver

variable {d : FileDriver} {io : Io} {cwd : Loc} {fs : Fs} {n c : Name}

/-! ## The shape of the tree -/

/-- Every file below the root is the document of a plain name. -/
def Named (d : FileDriver) (cwd : Loc) (fs : Fs) : Prop :=
  ∀ x, Under d cwd x → IsFile fs x → ∃ n, PlainName n ∧ x = d.rootLocation cwd ++ n.parts

/-- A document lies at or below `x`. -/
def Filled (fs : Fs) (x : Loc) : Prop := ∃ y, IsFile fs y ∧ x <+: y

/-- Below the root there are documents, and the directories above them. -/
structure Shape (d : FileDriver) (cwd : Loc) (fs : Fs) : Prop where
  kept : Kept d cwd fs
  named : Named d cwd fs
  filled : ∀ x, Under d cwd x → fs.node x = some .dir → Filled fs x

/-- Every entry below the root lies at or above a document. -/
theorem Shape.exists_doc (h : Shape d cwd fs) {x : Loc} (hx : Under d cwd x)
    (hn : fs.node x ≠ none) : ∃ n, PlainName n ∧ IsFile fs (d.rootLocation cwd ++ n.parts) ∧
    x <+: d.rootLocation cwd ++ n.parts := by
  obtain ⟨y, hfile, hxy⟩ : Filled fs x := by
    rcases hnode : fs.node x with _ | _ | text
    · exact absurd hnode hn
    · exact h.filled x hx hnode
    · exact ⟨x, ⟨text, hnode⟩, List.prefix_rfl⟩
  obtain ⟨n, hplain, heq⟩ := h.named y (hx.below hxy) hfile
  rw [heq] at hfile hxy
  exact ⟨n, hplain, hfile, hxy⟩

/-! ## Writing -/

/-- A new document keeps the shape. -/
theorem Shape.wrote (h : Shape d cwd fs) (hn : PlainName n) {fs' : Fs}
    (hwrote : Wrote d cwd n fs fs') : Shape d cwd fs' := by
  refine ⟨hwrote.kept, fun x hx hfile => ?_, fun x hx hdir => ?_⟩
  · rcases (hwrote.files x).mp hfile with hold | hnew
    · exact h.named x hx hold
    · exact ⟨n, hn, hnew⟩
  · rcases hwrote.dirs x hx hdir with hold | habove
    · obtain ⟨y, hfile, hxy⟩ := h.filled x hx hold
      exact ⟨y, (hwrote.files y).mpr (.inl hfile), hxy⟩
    · exact ⟨_, (hwrote.files _).mpr (.inr rfl), habove⟩

/-- Where files stay files and no directory is made below the root, the shape is kept. -/
theorem Shape.of_same (h : Shape d cwd fs) {fs' : Fs} (hkept : Kept d cwd fs')
    (hfiles : ∀ x, Under d cwd x → (IsFile fs' x ↔ IsFile fs x))
    (hdirs : ∀ x, Under d cwd x → fs'.node x = some .dir → fs.node x = some .dir) :
    Shape d cwd fs' := by
  refine ⟨hkept, fun x hx hfile => h.named x hx ((hfiles x hx).mp hfile), fun x hx hdir => ?_⟩
  obtain ⟨y, hfile, hxy⟩ := h.filled x hx (hdirs x hx hdir)
  exact ⟨y, (hfiles y (hx.below hxy)).mpr hfile, hxy⟩

theorem Shape.createDoc (hs : Straight d cwd) (h : Shape d cwd fs) (hn : PlainName n)
    (content : Doc) : Shape d cwd (resultState ((createDoc d .calm n content).run fs)) := by
  rcases createDoc_calm hs h.kept hn content with ⟨-, -, -, hwrote⟩ | ⟨-, -, hkept, hsame⟩
  · exact h.wrote hn hwrote
  · refine h.of_same hkept (fun x hx => ?_) fun x hx hdir => ?_
    · unfold IsFile
      rw [hsame x hx]
    · rw [← hsame x hx, hdir]

theorem Shape.updateDoc (hs : Straight d cwd) (h : Shape d cwd fs) (hn : PlainName n)
    (content : Doc) : Shape d cwd (resultState ((updateDoc d .calm n content).run fs)) := by
  obtain ⟨hunwritten, hdirs⟩ := updateDoc_plain hs h.kept hn content .calm
  exact h.of_same hunwritten.kept (fun x _ => hunwritten.files x) fun x _ => hdirs x

/-! ## Deleting -/

/-- Where the pruning has come to: directories on the way up may have no document below. -/
structure Emptying (d : FileDriver) (cwd : Loc) (cs : List String) (current : Path) (fs : Fs) :
    Prop where
  ascends : Ascends d cwd cs current fs
  named : Named d cwd fs
  filled : ∀ x, Under d cwd x → fs.node x = some .dir → Filled fs x ∨ x <+: resolve cwd current

theorem Emptying.step (hs : Straight d cwd) {cs : List String} (hcs : ∀ c ∈ cs, Plain c) {k : Nat}
    {current : Path} {l : Loc} (h : Emptying d cwd cs current fs)
    (hremoves : Removes d io k current fs l) :
    Emptying d cwd cs (parentPath current) (fs.without [l]) := by
  have hfiles := h.ascends.files hs hcs hremoves
  obtain ⟨hl, -⟩ := h.ascends.dir hs hcs hremoves
  refine ⟨h.ascends.step hs hcs hremoves, fun x hx hfile => h.named x hx ((hfiles x).mp hfile),
    fun x hx hdir => ?_⟩
  rw [Fs.node_without] at hdir
  split at hdir
  · cases hdir
  rename_i hnot
  rcases h.filled x hx hdir with ⟨y, hfile, hxy⟩ | habove
  · exact .inl ⟨y, (hfiles y).mpr hfile, hxy⟩
  · -- the directory removed is the only one that lies above itself and not above its parent
    obtain ⟨c, hc⟩ := h.ascends.climbs.resolve_parent hremoves.named cwd
    rw [hc] at habove
    rcases List.prefix_concat_iff.mp habove with heq | habove
    · have hne : x ≠ [] := by
        rw [heq]
        simp
      exact absurd ⟨List.mem_singleton.mpr (by rw [hl, hc, heq]), hne⟩ hnot
    · exact .inr habove

/-- A pruning in which no call fails ends where a document is left, or at the root. -/
theorem Emptying.done (hs : Straight d cwd) {cs : List String} (hcs : ∀ c ∈ cs, Plain c) {k : Nat}
    {current : Path} {clean : Bool} (h : Emptying d cwd cs current fs)
    (hhalts : Halts d .calm k current fs clean) :
    Shape d cwd fs := by
  refine ⟨h.ascends.kept, h.named, fun x hx hdir => ?_⟩
  rcases h.filled x hx hdir with hfilled | habove
  · exact hfilled
  have hunder : Under d cwd (resolve cwd current) := hx.below habove
  have hthere := h.ascends.there hunder
  -- below the root the path is one of the document's
  obtain ⟨cs', hne, hplain, hleads⟩ : ∃ cs', cs' ≠ [] ∧ (∀ c ∈ cs', Plain c) ∧
      Leads d current cs' := by
    rcases h.ascends.climbs.cases with hway | ⟨cs', hne, hcs', hleads⟩
    · exact absurd hunder (hs.outside _ ⟨_, hway, h.ascends.climbs.resolve⟩)
    · exact ⟨cs', hne, fun c hc => hcs c (hcs'.mem hc), hleads⟩
  cases hhalts with
  | root hroot =>
    have heq := hleads.components
    rw [components_of_samePath hroot] at heq
    exact absurd (List.self_eq_append_right.mp heq) hne
  | busy hl hn hbusy =>
    rename_i l
    have hloc : l = resolve cwd current := by
      rw [(Fs.locate_eq_some.mp hl).2.1, h.ascends.kept.cwd_eq]
    rw [hloc] at hl hn hbusy
    obtain ⟨c, hchild⟩ : ∃ c, fs.node (resolve cwd current ++ [c]) ≠ none := by
      by_contra hno
      exact hbusy (.inl ⟨hthere, fun c => by_contra fun hc => hno ⟨c, hc⟩⟩)
    have hlonger : ¬ resolve cwd current ++ [c] <+: resolve cwd current := by
      intro hp
      have hlen := hp.length_le
      rw [List.length_append] at hlen
      exact Nat.not_succ_le_self _ hlen
    have hbelow : x <+: resolve cwd current ++ [c] := habove.trans (List.prefix_append _ _)
    rcases hnode : fs.node (resolve cwd current ++ [c]) with _ | _ | text
    · exact absurd hnode hchild
    · obtain ⟨y, hfile, hy⟩ := (h.filled _ (hx.below hbelow) hnode).resolve_right hlonger
      exact ⟨y, hfile, hbelow.trans hy⟩
    · exact ⟨_, ⟨text, hnode⟩, hbelow⟩
  | gone hroot hst =>
    rw [hleads.status hs h.ascends.kept hplain, ← hleads.resolve hs hplain, hthere] at hst
    cases hst
  | stuck hroot hl hvac herr =>
    rcases herr with herr | herr
    · exact absurd (hleads.rmdirError hplain hne) herr
    · exact absurd rfl herr

/-- A deletion of what is there keeps the shape. -/
theorem Shape.deletes (hs : Straight d cwd) (h : Shape d cwd fs) (hn : PlainName n) {l : Loc}
    {r : EStateM.Result Throw Fs OptError} (hdeletes : Deletes d .calm (d.nameToPath n) l fs r)
    (hl : fs.node l ≠ none) : Shape d cwd (resultState r) := by
  obtain ⟨hloc, hascends⟩ := hdeletes.ascends hs h.kept hn hl
  have hname := (leads_nameToPath hs.whole hn).rmdirError hn n.parts_ne
  -- `remove_all` takes all of the tree
  have htaken : ∀ x, l <+: x → fs.Taken .calm (d.nameToPath n) l x := fun x hx =>
    ⟨hx, .inr hname, fun gone ec hgone => by cases hgone⟩
  have hnode : ∀ x, ¬ l <+: x → (fs.without (fs.takenAt .calm (d.nameToPath n) l)).node x =
      fs.node x := fun x hx =>
    Fs.node_not_taken fun ht => hx ht.inside
  have hgone : ∀ x, Under d cwd x → l <+: x →
      (fs.without (fs.takenAt .calm (d.nameToPath n) l)).node x = none := by
    intro x hx hlx
    refine Fs.node_taken ?_ (htaken x hlx)
    rintro rfl
    rw [List.prefix_nil.mp hlx] at hloc
    exact n.parts_ne (List.append_eq_nil_iff.mp hloc.symm).2
  obtain ⟨c, hc⟩ := resolve_parent_plain hs hn
  have hstart : Emptying d cwd n.parts (parentPath (d.nameToPath n))
      (fs.without (fs.takenAt .calm (d.nameToPath n) l)) := by
    refine ⟨hascends, fun x hx hfile => ?_, fun x hx hdir => ?_⟩
    · by_cases hlx : l <+: x
      · exact absurd (hgone x hx hlx) hfile.exists
      · unfold IsFile at hfile
        rw [hnode x hlx] at hfile
        exact h.named x hx hfile
    · by_cases hlx : l <+: x
      · rw [hgone x hx hlx] at hdir
        cases hdir
      rw [hnode x hlx] at hdir
      obtain ⟨y, hfile, hxy⟩ := h.filled x hx hdir
      by_cases hly : l <+: y
      · -- the document below was taken: what lay above it lies above what was deleted
        right
        have hxl := (List.prefix_or_prefix_of_prefix hxy hly).resolve_right hlx
        rw [hloc, hc] at hxl hlx
        rcases List.prefix_concat_iff.mp hxl with heq | hxl
        · exact absurd (heq ▸ List.prefix_rfl) hlx
        · exact hxl
      · left
        refine ⟨y, ?_, hxy⟩
        unfold IsFile
        rw [hnode y hly]
        exact hfile
  obtain ⟨k, current, hemptying, hhalts⟩ :=
    hdeletes.prunes.keeps (I := fun _ => Emptying d cwd n.parts)
      (fun k current fs' l hI hremoves => hI.step hs hn hremoves) hstart
  exact hemptying.done hs hn hhalts

/-! ## What the driver answers -/

/-- The collections are the strict beginnings of the documents' names. -/
theorem Shape.existsCol_iff (hs : Straight d cwd) (h : Shape d cwd fs) (hc : PlainName c) :
    d.existsCol c fs = true ↔ ∃ n, PlainName n ∧ d.existsDoc n fs = true ∧ c.Below n := by
  rw [existsCol_plain hs h.kept hc]
  constructor
  · intro hdir
    obtain ⟨n, hn, hfile, hp⟩ :=
      h.exists_doc (under_append c.parts_ne) (by rw [hdir]; exact Option.some_ne_none _)
    have hparts := (List.prefix_append_right_inj _).mp hp
    refine ⟨n, hn, (existsDoc_plain hs h.kept hn).mpr hfile, hparts, ?_⟩
    refine lt_of_le_of_ne hparts.length_le fun hlen => ?_
    rw [← hparts.eq_of_length hlen] at hfile
    exact hfile.not_dir hdir
  · rintro ⟨n, hn, hex, hp, hlen⟩
    have hfile := (existsDoc_plain hs h.kept hn).mp hex
    refine h.kept.tree.dir_above hfile.exists ((List.prefix_append_right_inj _).mpr hp) fun heq =>
      ?_
    rw [List.append_cancel_left heq] at hlen
    exact Nat.lt_irrefl _ hlen

/-- The names `readCol` makes of entries. -/
theorem mapM_children {es : List String}
    (hes : ∀ e ∈ es, ∃ m : Name, PlainName m ∧ m.parts = c.parts ++ [e]) :
    ∃ l : Col, es.mapM (fun entry => do c.append (← Name.ofString entry)) = .ok l ∧
      l.map Name.parts = es.map fun e => c.parts ++ [e] := by
  induction es with
  | nil => exact ⟨[], rfl, rfl⟩
  | cons e es ih =>
    obtain ⟨l, hl, hparts⟩ := ih fun x hx => hes x (List.mem_cons_of_mem e hx)
    obtain ⟨m, hm, heq⟩ := hes e List.mem_cons_self
    have he : Plain e := hm e (by rw [heq]; simp)
    have hsingle : Name.ofString e = .ok ⟨[e], by simp, Nat.le_add_left 1 9, by simpa using he.1⟩ :=
      Name.ofString_eq_ok.mpr (split_of_not_mem he.1 he.2.2.2.1).symm
    have happend : c.append ⟨[e], by simp, Nat.le_add_left 1 9, by simpa using he.1⟩ = .ok m :=
      Name.append_eq_ok.mpr heq
    refine ⟨m :: l, ?_, by rw [List.map_cons, List.map_cons, hparts, heq]⟩
    rw [List.mapM_cons, hsingle, hl]
    show (do let m ← c.append _; pure (m :: l)) = _
    rw [happend]
    rfl

theorem parts_injective : Function.Injective Name.parts := fun _ _ h => Name.ext h

/-- Every entry lies at or above a document, so it is the last part of a name. -/
theorem Shape.mem_entries_iff (hs : Straight d cwd) (h : Shape d cwd fs) {c : Name} {e : String} :
    e ∈ fs.entries (d.rootLocation cwd ++ c.parts) ↔
      ∃ n, PlainName n ∧ d.existsDoc n fs = true ∧ c.parts ++ [e] <+: n.parts := by
  have hbelow : Under d cwd (d.rootLocation cwd ++ c.parts ++ [e]) :=
    (under_append c.parts_ne).below (List.prefix_append _ _)
  rw [Fs.mem_entries]
  constructor
  · intro he
    obtain ⟨n, hn, hfile, hp⟩ := h.exists_doc hbelow he
    rw [List.append_assoc, List.prefix_append_right_inj] at hp
    exact ⟨n, hn, (existsDoc_plain hs h.kept hn).mpr hfile, hp⟩
  · rintro ⟨n, hn, hex, hp⟩
    have hfile := (existsDoc_plain hs h.kept hn).mp hex
    rw [List.append_assoc]
    by_cases hsame : c.parts ++ [e] = n.parts
    · rw [hsame]
      exact hfile.exists
    · rw [h.kept.tree.dir_above hfile.exists ((List.prefix_append_right_inj _).mpr hp)
        (by simpa using hsame)]
      exact Option.some_ne_none _

theorem childOf_iff {m : Name} : ChildOf m c ↔ ∃ e, c.parts ++ [e] = m.parts := by
  constructor
  · rintro ⟨⟨t, ht⟩, hlen⟩
    rw [← ht, List.length_append, Nat.add_left_cancel_iff, List.length_eq_one_iff] at hlen
    obtain ⟨e, rfl⟩ := hlen
    exact ⟨e, ht⟩
  · rintro ⟨e, hm⟩
    exact ⟨hm ▸ List.prefix_append _ _, by rw [← hm]; simp⟩

/-- `readCol` lists the immediate children, each once. -/
theorem Shape.readCol (hs : Straight d cwd) (h : Shape d cwd fs) (hc : PlainName c)
    (hcol : d.existsCol c fs = true) : ∃ l, readCol d c fs = .ok (.ok l) ∧ l.Nodup ∧ ∀ m, m ∈ l ↔
      ChildOf m c ∧ ∃ n, PlainName n ∧ d.existsDoc n fs = true ∧ m.parts <+: n.parts := by
  have hst := FileDriver.existsCol_iff.mp hcol
  obtain ⟨loc, hloc, -⟩ := Option.bind_eq_some_iff.mp hst
  have heq : loc = d.rootLocation cwd ++ c.parts := by
    rw [(Fs.locate_eq_some.mp hloc).2.1, h.kept.cwd_eq,
      (leads_nameToPath hs.whole hc).resolve hs hc]
  rw [heq] at hloc
  have hchild : ∀ e ∈ fs.entries (d.rootLocation cwd ++ c.parts),
      ∃ m : Name, PlainName m ∧ m.parts = c.parts ++ [e] := by
    intro e he
    obtain ⟨n, hn, -, hp⟩ := (h.mem_entries_iff hs).mp he
    refine ⟨⟨c.parts ++
      [e], by simp, hp.length_le.trans n.parts_le, fun p hp' => n.parts_nonempty p (hp.mem hp')⟩,
      fun p hp' => hn p (hp.mem hp'), rfl⟩
  obtain ⟨l, hl, hparts⟩ := mapM_children hchild
  refine ⟨l, ?_, ?_, fun m => ?_⟩
  · unfold FileDriver.readCol
    rcases Fs.status_cases fs (d.nameToPath c) with ⟨hno, -⟩ | ⟨-, hex, hisdir⟩ | ⟨text, hno, -⟩
    · rw [hst] at hno
      cases hno
    · simp only [hex, hisdir, Bool.not_true, Bool.false_eq_true, if_false, hloc, Option.elim_some]
      rw [hl]
      rfl
    · rw [hst] at hno
      cases hno
  · refine List.Nodup.of_map Name.parts ?_
    rw [hparts]
    exact (fs.nodup_entries _).map fun e e' he => by simpa using he
  · have hmem : m ∈ l ↔ ∃ e ∈ fs.entries (d.rootLocation cwd ++ c.parts),
        c.parts ++ [e] = m.parts := by
      rw [← List.mem_map_of_injective parts_injective, hparts, List.mem_map]
    rw [hmem, childOf_iff]
    constructor
    · rintro ⟨e, he, hm⟩
      rw [h.mem_entries_iff hs, hm] at he
      exact ⟨⟨e, hm⟩, he⟩
    · rintro ⟨⟨e, hm⟩, hdoc⟩
      rw [← hm] at hdoc
      exact ⟨e, (h.mem_entries_iff hs).mpr hdoc, hm⟩

/-- A place is free exactly when the name is no document and no collection, and no document lies
above. -/
theorem Shape.free_iff (hs : Straight d cwd) (h : Shape d cwd fs) (hn : PlainName n) :
    Free d cwd fs n ↔ d.existsDoc n fs = false ∧ d.existsCol n fs = false ∧
      ∀ m : Name, PlainName m → m.Below n → d.existsDoc m fs = false := by
  constructor
  · rintro ⟨hnone, hway⟩
    refine ⟨?_, ?_, fun m hm hbelow => ?_⟩
    · rw [Bool.eq_false_iff, ne_eq, existsDoc_plain hs h.kept hn]
      exact fun hfile => hfile.exists hnone
    · rw [Bool.eq_false_iff, ne_eq, existsCol_plain hs h.kept hn, hnone]
      exact fun hdir => by cases hdir
    · rw [Bool.eq_false_iff, ne_eq, existsDoc_plain hs h.kept hm]
      exact hway m.parts hbelow.1
  · rintro ⟨hdoc, hcol, habove⟩
    rw [Bool.eq_false_iff, ne_eq, existsDoc_plain hs h.kept hn] at hdoc
    rw [Bool.eq_false_iff, ne_eq, existsCol_plain hs h.kept hn] at hcol
    refine ⟨?_, fun cs hcs hfile => ?_⟩
    · rcases hnode : fs.node (d.rootLocation cwd ++ n.parts) with _ | _ | text
      · rfl
      · exact absurd hnode hcol
      · exact absurd ⟨text, hnode⟩ hdoc
    · by_cases hnil : cs = []
      · rw [hnil, List.append_nil] at hfile
        exact h.kept.not_file hs.onWay_root hfile
      by_cases hall : cs = n.parts
      · exact hdoc (hall ▸ hfile)
      · -- a shorter beginning of the name is a name itself
        let m : Name :=
          ⟨cs, hnil, hcs.length_le.trans n.parts_le, fun p hp => n.parts_nonempty p (hcs.mem hp)⟩
        have hm : PlainName m := fun p hp => hn p (hcs.mem hp)
        have hbelow : m.Below n :=
          ⟨hcs, lt_of_le_of_ne hcs.length_le fun hlen => hall (hcs.eq_of_length hlen)⟩
        have hno := habove m hm hbelow
        rw [Bool.eq_false_iff, ne_eq, existsDoc_plain hs h.kept hm] at hno
        exact hno hfile

/-! ## Every run -/

/-- The runs on names of plain components from an empty root, in which no system call fails. -/
def plainRuns (d : FileDriver) : System Fs Op where
  init fs := Constructed d fs ∧ ∀ x, Under d fs.cwd x → fs.node x = none
  step fs op fs' := PlainName op.name ∧ fs' = resultState ((exec d .calm op).run fs)

/-- From an empty root, the way to it leads through nothing below. -/
theorem Constructed.shape (h : Constructed d fs) (hwhole : Char.ofNat 0 ∉ d.path.toList)
    (hempty : ∀ x, Under d fs.cwd x → fs.node x = none) :
    Straight d fs.cwd ∧ Shape d fs.cwd fs := by
  obtain ⟨htree, hst⟩ := h.status
  obtain ⟨l, hl, hn⟩ := Option.bind_eq_some_iff.mp hst
  obtain ⟨hne, hloc, hway, -⟩ := Fs.locate_eq_some.mp hl
  rw [cstr_of_not_mem hwhole] at hne hway
  have hdir : ∀ x, OnWay d fs.cwd x → fs.node x = some .dir := by
    rintro x ⟨w, hw, rfl⟩
    by_cases hall : w = components d.path
    · rw [hall, ← cstr_of_not_mem hwhole]
      rw [hloc, resolve_eq_walk] at hn
      rw [cstr_of_not_mem hwhole] at hn ⊢
      exact hn
    · exact hway w hw hall
  refine ⟨⟨hwhole, hne, fun x hx hunder => ?_⟩, ⟨htree, rfl, fun x hx => .inl (hdir x hx), .inl ?_⟩,
    fun x hx hfile => absurd (hempty x hx) hfile.exists, fun x hx hfile => ?_⟩
  · have hnone := hempty x hunder
    rw [hdir x hx] at hnone
    cases hnone
  · exact hdir _ (onWay_start d fs.cwd)
  · rw [hempty x hx] at hfile
    cases hfile

theorem shape_inductive (d : FileDriver) (hwhole : Char.ofNat 0 ∉ d.path.toList) :
    (plainRuns d).Inductive fun fs => ∃ cwd, Straight d cwd ∧ Shape d cwd fs where
  init fs := fun ⟨hconstructed, hempty⟩ => ⟨fs.cwd, hconstructed.shape hwhole hempty⟩
  step fs op fs' := by
    rintro ⟨cwd, hs, h⟩ ⟨hn, rfl⟩
    refine ⟨cwd, hs, ?_⟩
    cases op with
    | createDoc name content => exact h.createDoc hs hn content
    | updateDoc name content => exact h.updateDoc hs hn content
    | upsertDoc name content =>
      show Shape d cwd (resultState ((upsertDoc d .calm name content).run fs))
      unfold upsertDoc
      rw [EStateM.run_bind, EStateM.run_get]
      simp only
      split
      · exact h.updateDoc hs hn content
      · exact h.createDoc hs hn content
    | deleteDoc name =>
      rcases deleteDoc_cases d .calm name fs with ⟨-, e, hrun⟩ | ⟨l, text, hl, hdeletes⟩
      · show Shape d cwd (resultState ((deleteDoc d .calm name).run fs))
        rw [hrun]
        exact h
      · exact h.deletes hs hn hdeletes (by rw [hl]; exact Option.some_ne_none _)
    | deleteCol name =>
      rcases deleteCol_cases d .calm name fs with ⟨-, e, hrun⟩ | ⟨l, hl, hdeletes⟩
      · show Shape d cwd (resultState ((deleteCol d .calm name).run fs))
        rw [hrun]
        exact h
      · exact h.deletes hs hn hdeletes (by rw [hl]; exact Option.some_ne_none _)

/-- The driver's collections are the beginnings of its documents' names. -/
structure Agrees (d : FileDriver) (fs : Fs) : Prop where
  existsCol_iff : ∀ c, PlainName c →
    (d.existsCol c fs = true ↔ ∃ n, PlainName n ∧ d.existsDoc n fs = true ∧ c.Below n)
  not_both : ∀ n, PlainName n → ¬ (d.existsDoc n fs = true ∧ d.existsCol n fs = true)
  readCol : ∀ c, PlainName c → d.existsCol c fs = true → ∃ l, readCol d c fs = .ok (.ok l) ∧
    l.Nodup ∧
    ∀ m, m ∈ l ↔ ChildOf m c ∧ ∃ n, PlainName n ∧ d.existsDoc n fs = true ∧ m.parts <+: n.parts
  createDoc_iff : ∀ n content, PlainName n → content.checkDuplicateKeys = none →
    (succeeded ((createDoc d .calm n content).run fs) = true ↔
      d.existsDoc n fs = false ∧ d.existsCol n fs = false ∧
        ∀ m : Name, PlainName m → m.Below n → d.existsDoc m fs = false)

/-- No empty collections linger, in any run on plain names from an empty root. -/
theorem collections_agree (d : FileDriver) (hwhole : Char.ofNat 0 ∉ d.path.toList) (fs : Fs)
    (h : (plainRuns d).Reachable fs) : Agrees d fs := by
  obtain ⟨cwd, hs, hshape⟩ := (shape_inductive d hwhole).holds h
  refine ⟨fun c hc => hshape.existsCol_iff hs hc, fun n _ => not_both d n fs,
    fun c hc hcol => hshape.readCol hs hc hcol, fun n content hn hkeys => ?_⟩
  rw [← hshape.free_iff hs hn]
  rcases createDoc_calm hs hshape.kept hn content with ⟨hyes, -, hfree, -⟩ | ⟨hno, hnot, -⟩
  · exact ⟨fun _ => hfree, fun _ => hyes⟩
  · rw [hno]
    refine ⟨fun hfalse => ?_, fun hfree => absurd ⟨hkeys, hfree⟩ hnot⟩
    cases hfalse

section Sample

def nestedName : Name := ⟨["a", "b"], by decide, by decide, by decide⟩

/-- The files after a document was created two levels down. -/
def nested : Fs :=
  resultState ((createDoc (rootedDriver "/store") .calm nestedName .null).run emptyRoot)

theorem emptyRoot_empty {x : Loc} (hx : Under (rootedDriver "/store") emptyRoot.cwd x) :
    emptyRoot.node x = none := by
  have hroot : (rootedDriver "/store").rootLocation emptyRoot.cwd = ["store"] := by decide +kernel
  obtain ⟨hp, hne⟩ := hx
  rw [hroot] at hp hne
  have hnil : x ≠ [] := by
    rintro rfl
    exact absurd hp (by decide)
  unfold emptyRoot
  rw [Fs.node_set _ (by simp), if_neg (Ne.symm hne)]
  unfold Fs.node
  rw [if_neg hnil]
  rfl

theorem collections_agree_nested : Agrees (rootedDriver "/store") nested := by
  refine collections_agree (rootedDriver "/store") (by decide) nested ?_
  have hplain : ∀ p ∈ nestedName.parts, Plain p := by decide
  have hconstructed :=
    constructed_of_status (d := rootedDriver "/store") emptyRoot_tree (by decide +kernel)
  exact .step (l := .createDoc nestedName .null) (.init ⟨hconstructed, fun _ => emptyRoot_empty⟩)
    ⟨hplain, rfl⟩

end Sample

end FileDriver

end DistroDefender.Store
