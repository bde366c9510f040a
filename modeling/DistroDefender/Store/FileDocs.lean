import DistroDefender.Store.FileTree

/-!
# The documents in the files

Below a root that `Kept` describes, the documents of plain names are the files at their parts
(`existsDoc_plain`, `existsCol_plain`). `createDoc` puts one file there or none (`createDoc_plain`),
`updateDoc` keeps which locations have files (`updateDoc_plain`), and a deletion takes files away
before it prunes, which takes directories only (`Ascends.step`).
-/

namespace DistroDefender.Store

open Base Lib Os

namespace FileDriver

variable {d : FileDriver} {io : Io} {cwd : Loc} {fs : Fs} {n : Name}

/-- A regular file is at `l`. -/
def IsFile (fs : Fs) (l : Loc) : Prop := ∃ text, fs.node l = some (.file text)

theorem IsFile.not_dir {l : Loc} (h : IsFile fs l) : fs.node l ≠ some .dir := by
  obtain ⟨text, h⟩ := h
  rw [h]
  simp

theorem IsFile.exists {l : Loc} (h : IsFile fs l) : fs.node l ≠ none := by
  obtain ⟨text, h⟩ := h
  rw [h]
  simp

/-- A name of plain components leads to its parts below the root. -/
theorem status_plain (hs : Straight d cwd) (hk : Kept d cwd fs) (hn : PlainName n) :
    fs.status (d.nameToPath n) = fs.node (d.rootLocation cwd ++ n.parts) :=
  (leads_nameToPath hs.whole hn).status hs hk hn

theorem existsDoc_plain (hs : Straight d cwd) (hk : Kept d cwd fs) (hn : PlainName n) :
    d.existsDoc n fs = true ↔ IsFile fs (d.rootLocation cwd ++ n.parts) := by
  rw [existsDoc_iff, status_plain hs hk hn]
  rfl

theorem existsCol_plain (hs : Straight d cwd) (hk : Kept d cwd fs) (hn : PlainName n) :
    d.existsCol n fs = true ↔ fs.node (d.rootLocation cwd ++ n.parts) = some .dir := by
  rw [existsCol_iff, status_plain hs hk hn]

/-- No name is both a document and a collection, in any file system. -/
theorem not_both (d : FileDriver) (n : Name) (fs : Fs) :
    ¬ (d.existsDoc n fs = true ∧ d.existsCol n fs = true) := by
  rintro ⟨hdoc, hcol⟩
  obtain ⟨text, hst⟩ := existsDoc_iff.mp hdoc
  rw [existsCol_iff.mp hcol] at hst
  cases hst

theorem Kept.not_file (h : Kept d cwd fs) {l : Loc} (hl : OnWay d cwd l) : ¬ IsFile fs l := by
  rintro ⟨text, hfile⟩
  exact h.node_ne_file hl text hfile

/-- The parts of a name, and the directory it lies in. -/
theorem exists_parent (n : Name) : ∃ cs c, n.parts = cs ++ [c] :=
  (List.eq_nil_or_concat' n.parts).resolve_left n.parts_ne

/-! ## Creating -/

/-- A document has been written: its file is there, with the directories above it. -/
structure Wrote (d : FileDriver) (cwd : Loc) (n : Name) (fs fs' : Fs) : Prop where
  kept : Kept d cwd fs'
  files : ∀ x, IsFile fs' x ↔ IsFile fs x ∨ x = d.rootLocation cwd ++ n.parts
  dirs : ∀ x, Under d cwd x → fs'.node x = some .dir → fs.node x = some .dir ∨
    x <+: d.rootLocation cwd ++ n.parts

/-- Nothing has been written: the files are where they were. -/
structure Unwritten (d : FileDriver) (cwd : Loc) (fs fs' : Fs) : Prop where
  kept : Kept d cwd fs'
  files : ∀ x, IsFile fs' x ↔ IsFile fs x

theorem MadeBelow.unwritten {fs' : Fs} {cs : List String} (h : MadeBelow d cwd fs fs' cs) :
    Unwritten d cwd fs fs' := by
  refine ⟨h.kept, fun x => ⟨?_, ?_⟩⟩
  · rintro ⟨text, hfile⟩
    rcases h.node x with heq | ⟨-, hdir, -⟩
    · exact ⟨text, heq ▸ hfile⟩
    · rw [hdir] at hfile
      cases hfile
  · rintro ⟨text, hfile⟩
    exact ⟨text, h.keep hfile⟩

/-- Whether `createDoc` finds its place free: nothing is there, and no document is on the way. -/
def Free (d : FileDriver) (cwd : Loc) (fs : Fs) (n : Name) : Prop :=
  fs.node (d.rootLocation cwd ++ n.parts) = none ∧
    ∀ cs, cs <+: n.parts → ¬ IsFile fs (d.rootLocation cwd ++ cs)

theorem Unwritten.refl (h : Kept d cwd fs) : Unwritten d cwd fs fs := ⟨h, fun _ => .rfl⟩

/-- Where a file is written below the root. -/
theorem writeFile_plain (hs : Straight d cwd) (hk : Kept d cwd fs) (hn : PlainName n)
    (content : Doc) (io : Io) : let r := (writeFile d io (d.nameToPath n) content).run fs
    (succeeded r = false ∧ resultState r = fs ∧ (fs.status (d.nameToPath n) = some .dir ∨
      io.openFile = false ∨ fs.locate (d.nameToPath n) = none)) ∨
    (succeeded r = true ∧ Kept d cwd (resultState r) ∧ ∃ text, ∀ x, (resultState r).node x =
      if x = d.rootLocation cwd ++ n.parts then some (.file text) else fs.node x) := by
  have hgrows := writeFile_grows d io (d.nameToPath n) content hk.tree
  rcases writeFile_cases d io (d.nameToPath n) content fs with
      ⟨⟨e, hrun⟩, hwhy⟩ | ⟨l, hl, hdir, -, hrun⟩
  · rw [hrun]
    refine .inl ⟨rfl, rfl, ?_⟩
    rcases hwhy with hnone | hopen | ⟨l, hl, hn⟩
    · exact .inr (.inr hnone)
    · exact .inr (.inl hopen)
    · exact .inl (Option.bind_eq_some_iff.mpr ⟨l, hl, hn⟩)
  · right
    rw [hrun] at hgrows ⊢
    have hloc : l = d.rootLocation cwd ++ n.parts := by
      rw [(Fs.locate_eq_some.mp hl).2.1, hk.cwd_eq, (leads_nameToPath hs.whole hn).resolve hs hn]
    subst hloc
    have hne : d.rootLocation cwd ++ n.parts ≠ [] := by simp [n.parts_ne]
    have hnode : ∀ x,
        ((fs.set (d.rootLocation cwd ++ n.parts) (.file "")).set (d.rootLocation cwd ++ n.parts)
        (.file (io.stored (d.rapidjson.print content)))).node x = if x = d.rootLocation cwd ++
          n.parts then some (.file (io.stored (d.rapidjson.print content))) else fs.node x := by
      intro x
      rw [Fs.node_set _ hne, Fs.node_set _ hne]
      split <;> rfl
    refine ⟨rfl, hk.grows hgrows fun x hx text hfile => ?_,
      io.stored (d.rapidjson.print content), hnode⟩
    rw [resultState_ok, hnode] at hfile
    split at hfile
    · rename_i heq
      exact hs.outside x hx (heq ▸ under_append n.parts_ne)
    · exact hk.not_file hx ⟨text, hfile⟩

/-- Above a directory of the tree there are directories. -/
theorem Kept.dir_of_prefix (hk : Kept d cwd fs) {cs cs' : List String}
    (hlast : fs.node (d.rootLocation cwd ++ cs) = some .dir) (hcs' : cs' <+: cs) :
    fs.node (d.rootLocation cwd ++ cs') = some .dir := by
  by_cases heq : cs' = cs
  · rw [heq, hlast]
  · exact hk.tree.dir_above (by rw [hlast]; simp) ((List.prefix_append_right_inj _).mpr hcs')
      (by simpa using heq)

theorem createDoc_plain (hs : Straight d cwd) (hk : Kept d cwd fs) (hn : PlainName n)
    (content : Doc) (io : Io) : let r := (createDoc d io n content).run fs
    (succeeded r = true ∧ content.checkDuplicateKeys = none ∧ Free d cwd fs n ∧
      Wrote d cwd n fs (resultState r)) ∨
    (succeeded r = false ∧ Unwritten d cwd fs (resultState r)) := by
  rcases createDoc_cases d io n content fs with ⟨-, e, hrun⟩ | ⟨hkeys, hex, hrest⟩
  · rw [hrun]
    exact .inr ⟨rfl, .refl hk⟩
  have hnone : fs.node (d.rootLocation cwd ++ n.parts) = none := by
    rw [← status_plain hs hk hn]
    unfold Fs.pathExists at hex
    exact Option.not_isSome_iff_eq_none.mp (by rw [hex]; exact Bool.false_ne_true)
  obtain ⟨cs, c, hparts⟩ := exists_parent n
  have hleads : Leads d (parentPath (d.nameToPath n)) cs :=
    (hparts ▸ leads_nameToPath hs.whole hn).parentPath
  have hcs : ∀ x ∈ cs, Plain x := fun x hx => hn x (by rw [hparts]; exact List.mem_append_left _ hx)
  obtain ⟨ec, fs₁, hdirs, hmade, hend, -⟩ := createDirectories_leads hs hk hleads hcs io
  rcases hrest ec fs₁ hdirs with ⟨-, e, hrun⟩ | ⟨hec, hrun⟩
  · rw [hrun]
    exact .inr ⟨rfl, hmade.unwritten⟩
  rw [hrun]
  rcases writeFile_plain hs hmade.kept hn content io with
      ⟨hno, hstate, -⟩ | ⟨hyes, hkept, text, hnode⟩
  · exact .inr ⟨hno, by rw [hstate]; exact hmade.unwritten⟩
  refine .inl ⟨hyes, hkeys, ⟨hnone, fun cs' hcs' hfile => ?_⟩, hkept, fun x => ?_,
    fun x hx hdir => ?_⟩
  · -- a file on the way would have stopped `create_directories`
    rcases List.prefix_concat_iff.mp (hparts ▸ hcs') with rfl | hcs'
    · rw [← hparts] at hfile
      exact hfile.exists hnone
    · exact ((hmade.unwritten.files _).mpr hfile).not_dir (hmade.kept.dir_of_prefix (hend hec) hcs')
  · have hiff : IsFile (resultState ((writeFile d io (d.nameToPath n) content).run fs₁)) x ↔
        x = d.rootLocation cwd ++ n.parts ∨ IsFile fs₁ x := by
      unfold IsFile
      rw [hnode]
      by_cases hx : x = d.rootLocation cwd ++ n.parts <;> simp [hx]
    rw [hiff, hmade.unwritten.files, or_comm]
  · rw [hnode] at hdir
    split at hdir
    · cases hdir
    · rcases hmade.node x with heq | ⟨-, -, hway | ⟨cs', hcs', rfl⟩⟩
      · exact .inl (heq ▸ hdir)
      · exact absurd hx (hs.outside x hway)
      · refine .inr ((List.prefix_append_right_inj _).mpr (hcs'.trans ?_))
        rw [hparts]
        exact List.prefix_append _ _

/-- A document on the way is what stops `create_directories` where no call fails, and then none was
made. -/
theorem MadeBelow.unchanged {fs' : Fs} {cs : List String} (hs : Straight d cwd) (hk : Kept d cwd fs)
    (h : MadeBelow d cwd fs fs' cs) {cs₁ : List String} (hcs₁ : cs₁ <+: cs)
    (hfile : IsFile fs (d.rootLocation cwd ++ cs₁)) {x : Loc} (hx : Under d cwd x) :
    fs'.node x = fs.node x := by
  rcases h.node x with heq | ⟨hnone, hnew, hway | ⟨cs₂, hcs₂, rfl⟩⟩
  · exact heq
  · exact absurd hx (hs.outside x hway)
  have hfile' := (h.unwritten.files _).mpr hfile
  rcases List.prefix_or_prefix_of_prefix hcs₁ hcs₂ with hp | hp
  · exact absurd (h.kept.dir_of_prefix hnew hp) hfile'.not_dir
  · by_cases heq : cs₂ = cs₁
    · exact absurd hnone (heq ▸ hfile.exists)
    · have hdir :=
        hk.tree.dir_above hfile.exists ((List.prefix_append_right_inj (d.rootLocation cwd)).mpr hp)
        (by simpa using heq)
      rw [hnone] at hdir
      cases hdir

/-- With the directories there and the place free, the file is written. -/
theorem writeFile_made {fs₁ : Fs} {cs : List String} {c : String} (hs : Straight d cwd)
    (hk : Kept d cwd fs) (hn : PlainName n) (content : Doc) (hparts : n.parts = cs ++ [c])
    (hmade : MadeBelow d cwd fs fs₁ cs) (hlast : fs₁.node (d.rootLocation cwd ++ cs) = some .dir)
    (hex : fs.pathExists (d.nameToPath n) = false) :
    succeeded ((writeFile d .calm (d.nameToPath n) content).run fs₁) = true := by
  have hst := status_plain hs hk hn
  rcases writeFile_plain hs hmade.kept hn content .calm with ⟨-, -, hwhy⟩ | ⟨hyes, -⟩
  · rcases hwhy with hdir | hopen | hlocate
    · rw [status_plain hs hmade.kept hn] at hdir
      rcases hmade.node (d.rootLocation cwd ++ n.parts) with heq | ⟨-, -, hway | ⟨cs', hcs', heq⟩⟩
      · unfold Fs.pathExists at hex
        rw [hst, ← heq, hdir] at hex
        cases hex
      · exact absurd (under_append n.parts_ne) (hs.outside _ hway)
      · have hlen := hcs'.length_le
        rw [← List.append_cancel_left heq, hparts, List.length_append] at hlen
        exact absurd hlen (Nat.not_succ_le_self _)
    · cases hopen
    · have hroot := hmade.kept.dir_of_prefix hlast List.nil_prefix
      rw [List.append_nil] at hroot
      rw [(leads_nameToPath hs.whole hn).locate hs hmade.kept hn (by rw [hroot]; simp)
        fun cs' hcs' hne => ?_] at hlocate
      · cases hlocate
      · rcases List.prefix_concat_iff.mp (hparts ▸ hcs') with heq | hcs'
        · exact absurd (heq.trans hparts.symm) hne
        · exact hmade.kept.dir_of_prefix hlast hcs'
  · exact hyes

/-- Where no system call fails, `createDoc` succeeds exactly when its place is free. -/
theorem createDoc_calm (hs : Straight d cwd) (hk : Kept d cwd fs) (hn : PlainName n)
    (content : Doc) : let r := (createDoc d .calm n content).run fs
    (succeeded r = true ∧ content.checkDuplicateKeys = none ∧ Free d cwd fs n ∧
      Wrote d cwd n fs (resultState r)) ∨
    (succeeded r = false ∧ ¬ (content.checkDuplicateKeys = none ∧ Free d cwd fs n) ∧
      Kept d cwd (resultState r) ∧ ∀ x, Under d cwd x → (resultState r).node x = fs.node x) := by
  rcases createDoc_plain hs hk hn content .calm with hyes | ⟨hno, hunwritten⟩
  · exact .inl hyes
  refine .inr ⟨hno, ?_⟩
  have hst := status_plain hs hk hn
  rcases createDoc_cases d .calm n content fs with ⟨hwhy, e, hrun⟩ | ⟨-, hex, hrest⟩
  · rw [hrun]
    refine ⟨?_, hk, fun _ _ => rfl⟩
    rintro ⟨hkeys, hnone, -⟩
    rcases hwhy with hwhy | hex
    · exact hwhy hkeys
    · unfold Fs.pathExists at hex
      rw [hst, hnone] at hex
      cases hex
  obtain ⟨cs, c, hparts⟩ := exists_parent n
  have hleads : Leads d (parentPath (d.nameToPath n)) cs :=
    (hparts ▸ leads_nameToPath hs.whole hn).parentPath
  have hcs : ∀ x ∈ cs, Plain x := fun x hx => hn x (by rw [hparts]; exact List.mem_append_left _ hx)
  obtain ⟨ec, fs₁, hdirs, hmade, hend, hcalm⟩ := createDirectories_leads hs hk hleads hcs .calm
  rcases hrest ec fs₁ hdirs with ⟨hec, e, hrun⟩ | ⟨hec, hrun⟩
  · rw [hrun] at hunwritten ⊢
    -- a file is in the way
    obtain ⟨cs₁, hcs₁, hfile⟩ : ∃ cs₁, cs₁ <+: cs ∧ IsFile fs (d.rootLocation cwd ++ cs₁) := by
      by_contra hno
      refine hec (hcalm (fun _ => rfl) fun cs₁ hcs₁ text hfile => hno ⟨cs₁, hcs₁, text, hfile⟩)
    refine ⟨fun hfree => ?_, hunwritten.kept, fun x hx => hmade.unchanged hs hk hcs₁ hfile hx⟩
    refine hfree.2.2 cs₁ (hcs₁.trans ?_) hfile
    rw [hparts]
    exact List.prefix_append _ _
  · rw [hrun, writeFile_made hs hk hn content hparts hmade (hend hec) hex] at hno
    cases hno

/-! ## Updating -/

/-- `updateDoc` keeps what kind of entry is where. -/
theorem updateDoc_plain (hs : Straight d cwd) (hk : Kept d cwd fs) (hn : PlainName n)
    (content : Doc) (io : Io) : let fs' := resultState ((updateDoc d io n content).run fs)
    Unwritten d cwd fs fs' ∧ ∀ x, fs'.node x = some .dir → fs.node x = some .dir := by
  have hsame : Unwritten d cwd fs fs ∧ ∀ x, fs.node x = some .dir → fs.node x = some .dir :=
    ⟨.refl hk, fun _ h => h⟩
  rw [run_updateDoc]
  cases content.checkDuplicateKeys with
  | some e => exact hsame
  | none =>
    simp only
    split
    · exact hsame
    rename_i hex
    split
    · exact hsame
    rename_i hdir
    -- the path leads to a file, so a file is written in its place
    have hfile : IsFile fs (d.rootLocation cwd ++ n.parts) := by
      rw [← existsDoc_plain hs hk hn, existsDoc_iff]
      rcases Fs.status_cases fs (d.nameToPath n) with ⟨-, hno, -⟩ | ⟨-, -, hyes⟩ | ⟨text, hst, -⟩
      · exact absurd hno hex
      · exact absurd hyes hdir
      · exact ⟨text, hst⟩
    rcases writeFile_plain hs hk hn content io with ⟨-, hstate, -⟩ | ⟨-, hkept, text, hnode⟩
    · rw [hstate]
      exact hsame
    · refine ⟨⟨hkept, fun x => ?_⟩, fun x hx => ?_⟩
      · unfold IsFile
        rw [hnode]
        by_cases hx : x = d.rootLocation cwd ++ n.parts
        · rw [if_pos hx, hx]
          exact ⟨fun _ => hfile, fun _ => ⟨text, rfl⟩⟩
        · rw [if_neg hx]
      · rw [hnode] at hx
        split at hx
        · cases hx
        · exact hx

/-! ## Deleting -/

/-- A path below the root ends in a name. -/
theorem Leads.rmdirError {q : Path} {cs : List String} (h : Leads d q cs) (hcs : ∀ c ∈ cs, Plain c)
    (hne : cs ≠ []) : rmdirError q = none := by
  obtain ⟨w, c, rfl⟩ := (List.eq_nil_or_concat' cs).resolve_left hne
  have hc := hcs c (by simp)
  have hcomponents : Os.components (cstr q) = Os.components d.path ++ w ++ [c] := by
    rw [cstr_of_not_mem h.bare.whole, h.components, List.append_assoc]
  exact rmdirError_of_name hcomponents (not_or.mpr ⟨hc.2.1, hc.2.2.1⟩)

/-- Where a pruning below the root has come to. -/
structure Ascends (d : FileDriver) (cwd : Loc) (cs : List String) (current : Path) (fs : Fs) :
    Prop where
  kept : Kept d cwd fs
  climbs : Climbs d cs current
  above : resolve cwd current <+: d.rootLocation cwd ++ cs
  there : Under d cwd (resolve cwd current) → fs.node (resolve cwd current) = some .dir

/-- What a turn removes lies one below its parent. -/
theorem Climbs.resolve_parent {cs : List String} {current : Path} (h : Climbs d cs current)
    (hname : rmdirError current = none) (cwd : Loc) :
    ∃ c, Os.resolve cwd current = Os.resolve cwd (Os.parentPath current) ++ [c] := by
  obtain ⟨w, c, hw, hc⟩ := rmdirError_eq_none hname
  rw [cstr_of_not_mem h.bare.whole] at hw
  refine ⟨c, ?_⟩
  rw [h.resolve, h.parentPath.resolve, h.bare.components_parentPath, hw, List.dropLast_concat,
    walk_append, walk_singleton, stepTo_name hc]

/-- A turn removes a directory. -/
theorem Ascends.dir (hs : Straight d cwd) {cs : List String} (hcs : ∀ c ∈ cs, Plain c) {k : Nat}
    {current : Path} {l : Loc} (h : Ascends d cwd cs current fs)
    (hremoves : Removes d io k current fs l) :
    l = resolve cwd current ∧ fs.node l = some .dir := by
  have hl : l = resolve cwd current := by
    rw [(Fs.locate_eq_some.mp hremoves.located).2.1, h.kept.cwd_eq]
  refine ⟨hl, ?_⟩
  rcases hremoves.vacant with ⟨hdir, -⟩ | hfile
  · exact hdir
  · -- on the way to the root there are no files
    rcases h.climbs.cases with hway | ⟨cs', hne, hcs', hleads⟩
    · refine absurd ⟨"", hfile⟩ (h.kept.not_file (l := l) ⟨_, hway, ?_⟩)
      rw [hl, h.climbs.resolve]
    · rw [hl, hleads.resolve hs fun c hc => hcs c (hcs'.mem hc)] at hfile
      have hdir := h.there
      rw [hleads.resolve hs fun c hc => hcs c (hcs'.mem hc)] at hdir
      rw [hdir (under_append hne)] at hfile
      cases hfile

theorem Ascends.step (hs : Straight d cwd) {cs : List String} (hcs : ∀ c ∈ cs, Plain c) {k : Nat}
    {current : Path} {l : Loc} (h : Ascends d cwd cs current fs)
    (hremoves : Removes d io k current fs l) :
    Ascends d cwd cs (parentPath current) (fs.without [l]) := by
  obtain ⟨hl, hdir⟩ := h.dir hs hcs hremoves
  obtain ⟨c, hc⟩ := h.climbs.resolve_parent hremoves.named cwd
  have habove : resolve cwd (parentPath current) <+: resolve cwd current := by
    rw [hc]
    exact List.prefix_append _ _
  refine ⟨h.kept.turn hs hcs h.climbs h.above hremoves, h.climbs.parentPath, habove.trans h.above,
    fun hunder => ?_⟩
  rw [Fs.node_without, if_neg]
  · refine h.kept.tree (resolve cwd (parentPath current)) c ?_
    rw [← hc, ← hl, hdir]
    exact Option.some_ne_none _
  · rintro ⟨hmem, -⟩
    rw [List.mem_singleton, hl, hc] at hmem
    simp at hmem

/-- The files stay where they are. -/
theorem Ascends.files (hs : Straight d cwd) {cs : List String} (hcs : ∀ c ∈ cs, Plain c) {k : Nat}
    {current : Path} {l : Loc} (h : Ascends d cwd cs current fs)
    (hremoves : Removes d io k current fs l) (x : Loc) :
    IsFile (fs.without [l]) x ↔ IsFile fs x := by
  obtain ⟨-, hdir⟩ := h.dir hs hcs hremoves
  unfold IsFile
  rw [Fs.node_without]
  split
  · rename_i hmem
    rw [List.mem_singleton.mp hmem.1, hdir]
    simp
  · rfl

/-- The parent of a plain name's path leads one up. -/
theorem resolve_parent_plain (hs : Straight d cwd) (hn : PlainName n) :
    ∃ c, d.rootLocation cwd ++ n.parts = resolve cwd (parentPath (d.nameToPath n)) ++ [c] := by
  obtain ⟨cs, c, hparts⟩ := exists_parent n
  have hup : Leads d (parentPath (d.nameToPath n)) cs :=
    (hparts ▸ leads_nameToPath hs.whole hn).parentPath
  refine ⟨c, ?_⟩
  rw [hup.resolve hs fun x hx => hn x (by rw [hparts]; exact List.mem_append_left _ hx), hparts,
    List.append_assoc]

/-- A deletion of a plain name: `remove_all` at its location, and a pruning that starts below it. -/
theorem Deletes.ascends (hs : Straight d cwd) (hk : Kept d cwd fs) (hn : PlainName n) {l : Loc}
    {r : EStateM.Result Throw Fs OptError} (h : Deletes d io (d.nameToPath n) l fs r)
    (hl : fs.node l ≠ none) : l = d.rootLocation cwd ++ n.parts ∧
      Ascends d cwd n.parts (parentPath (d.nameToPath n))
        (fs.without (fs.takenAt io (d.nameToPath n) l)) := by
  have hleads := leads_nameToPath hs.whole hn
  have hloc : l = d.rootLocation cwd ++ n.parts := by
    rw [(Fs.locate_eq_some.mp h.located).2.1, hk.cwd_eq, hleads.resolve hs hn]
  obtain ⟨cs, c, hparts⟩ := exists_parent n
  have hup : Leads d (parentPath (d.nameToPath n)) cs := (hparts ▸ hleads).parentPath
  have hres : resolve cwd (parentPath (d.nameToPath n)) = d.rootLocation cwd ++ cs :=
    hup.resolve hs fun x hx => hn x (by rw [hparts]; exact List.mem_append_left _ hx)
  have hcs : cs <+: n.parts := hparts ▸ List.prefix_append _ _
  have hlonger : ¬ n.parts <+: cs := by
    intro hp
    have hlen := hp.length_le
    rw [hparts, List.length_append] at hlen
    exact Nat.not_succ_le_self _ hlen
  refine ⟨hloc, hk.taken hs (hloc ▸ under_append n.parts_ne), ⟨hup.bare, ?_, hup.absolute⟩, ?_,
    fun _ => ?_⟩
  · rw [hup.components]
    exact (List.prefix_append_right_inj _).mpr hcs
  · rw [hres]
    exact (List.prefix_append_right_inj _).mpr hcs
  · rw [hres, hloc, Fs.node_not_taken fun ht =>
      hlonger ((List.prefix_append_right_inj _).mp ht.inside)]
    refine hk.tree.dir_above (hloc ▸ hl) ((List.prefix_append_right_inj _).mpr hcs) fun heq => ?_
    exact hlonger (List.append_cancel_left heq ▸ List.prefix_rfl)

end FileDriver

end DistroDefender.Store
