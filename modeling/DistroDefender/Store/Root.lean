import DistroDefender.Lib.Transition
import DistroDefender.Store.Isolation
import DistroDefender.Store.Pruning

/-!
# The root of the file driver

The pruning of a deletion ends at the root path by comparing paths (`Halts.root`), so a root path
that ends in a separator is passed. In every run whose deletions meet `Spared` the root stays,
nothing outside is removed, and every call ends (`root_stays`). A root spelled with a separator at
its end is removed with its last document (`root_removed`).
-/

namespace DistroDefender.Store

open Base Lib Os

namespace FileDriver

/-! ## Runs -/

/-- `FileDriver::FileDriver`. A directory that is not there has something to create. -/
def construct (io : Io) (path : Path) (create : Bool) (rapidjson : Rapidjson) :
    Call Fs FileDriver := do
  if !(← get).pathExists path then
    if !create then
      throw (.runtimeError s!"Path '{path}' does not exist")
    if let some ec ← createDirectories io path then
      throw (.filesystemError
        s!"filesystem error: cannot create directories: {ec.message} [{path}]")
  if !(← get).isDirectory path then
    throw (.runtimeError s!"Path '{path}' is not a directory")
  return ⟨path, rapidjson⟩

/-- The mutating calls of the driver. -/
inductive Op where
  | createDoc (name : Name) (content : Doc)
  | updateDoc (name : Name) (content : Doc)
  | upsertDoc (name : Name) (content : Doc)
  | deleteDoc (name : Name)
  | deleteCol (name : Name)

def Op.name : Op → Name
  | .createDoc name _ | .updateDoc name _ | .upsertDoc name _ | .deleteDoc name
  | .deleteCol name => name

/-- The call an operation stands for. -/
def exec (d : FileDriver) (io : Io) : Op → Call Fs OptError
  | .createDoc name content => createDoc d io name content
  | .updateDoc name content => updateDoc d io name content
  | .upsertDoc name content => upsertDoc d io name content
  | .deleteDoc name => deleteDoc d io name
  | .deleteCol name => deleteCol d io name

/-- The constructor, on some tree, has left these files. -/
def Constructed (d : FileDriver) (fs : Fs) : Prop :=
  ∃ io create before, before.Tree ∧ (construct io d.path create d.rapidjson).run before = .ok d fs

/-- The runs of the driver from the files `fs₀`, however the system calls go. -/
def runs (d : FileDriver) (fs₀ : Fs) : System Fs (Op × Io) where
  init fs := fs = fs₀ ∧ Constructed d fs₀
  step fs l fs' := fs' = resultState ((exec d l.2 l.1).run fs)

/-! ## The condition -/

/-- The paths the pruning of `path` comes to. -/
def ancestor (path : Path) : Nat → Path
  | 0 => path
  | k + 1 => parentPath (ancestor path k)

/-- Below `p` an entry is left that is not on the way up from `path`. -/
def Busy (io : Io) (fs : Fs) (path p : Path) : Prop :=
  ∃ x, fs.node x ≠ none ∧ resolve fs.cwd p <+: x ∧ ¬ x <+: resolve fs.cwd (parentPath path) ∧
    ¬ fs.Taken io path (resolve fs.cwd path) x

/-- The pruning of `path` comes to a stop before it removes the root: the first parent that leads to
the root is not reached, or is the root path, or ends in no name, or has something else below. -/
def Stops (d : FileDriver) (io : Io) (fs : Fs) (path : Path) : Prop :=
  ∃ k, (samePath (ancestor path (k + 1)) d.path = true ∨ rmdirError (ancestor path (k + 1)) ≠ none ∨
      Busy io fs path (ancestor path (k + 1))) ∧
    ∀ j, j < k → resolve fs.cwd (ancestor path (j + 1)) ≠ d.rootLocation fs.cwd

/-- What is deleted lies below the root, and the pruning stops. -/
structure Inside (d : FileDriver) (io : Io) (fs : Fs) (path : Path) : Prop where
  below : d.rootLocation fs.cwd <+: resolve fs.cwd path
  strictly : resolve fs.cwd path = d.rootLocation fs.cwd → rmdirError path ≠ none
  stops : Stops d io fs path

/-- The condition on a step: a deletion that finds something is inside the root. -/
def Spared (d : FileDriver) (fs : Fs) : Op × Io → Prop
  | (.deleteDoc name, io) => d.existsDoc name fs = true → Inside d io fs (d.nameToPath name)
  | (.deleteCol name, io) => d.existsCol name fs = true → Inside d io fs (d.nameToPath name)
  | _ => True

/-! ## Creating -/

section Creating

variable {d : FileDriver} {io : Io} {fs : Fs}

theorem createDoc_grows (name : Name) (content : Doc) (htree : fs.Tree) :
    fs.Grows (resultState ((createDoc d io name content).run fs)) := by
  rcases createDoc_cases d io name content fs with ⟨-, e, hrun⟩ | ⟨-, -, hrest⟩
  · rw [hrun]
    exact .refl fs
  · obtain ⟨ec, fs₁, hdirs, hmade, -⟩ :=
      createDirectories_made io htree (parentPath (d.nameToPath name))
    rcases hrest ec fs₁ hdirs with ⟨-, e, hrun⟩ | ⟨-, hrun⟩
    · rw [hrun]
      exact hmade.grows
    · rw [hrun]
      exact hmade.grows.trans (writeFile_grows d io _ content hmade.tree)

theorem updateDoc_grows (name : Name) (content : Doc) (htree : fs.Tree) :
    fs.Grows (resultState ((updateDoc d io name content).run fs)) := by
  rw [run_updateDoc]
  cases content.checkDuplicateKeys with
  | some e => exact .refl fs
  | none =>
    simp only
    split
    · exact .refl fs
    · split
      · exact .refl fs
      · exact writeFile_grows d io _ content htree

theorem upsertDoc_grows (name : Name) (content : Doc) (htree : fs.Tree) :
    fs.Grows (resultState ((upsertDoc d io name content).run fs)) := by
  unfold upsertDoc
  rw [EStateM.run_bind, EStateM.run_get]
  simp only
  split
  · exact updateDoc_grows name content htree
  · exact createDoc_grows name content htree

/-- A write that returns an error or nothing has ended. -/
theorem writeFile_ends (path : Path) (content : Doc) (fs s : Fs) :
    (writeFile d io path content).run fs ≠ .error .outOfFuel s := by
  rcases writeFile_cases d io path content fs with ⟨⟨e, hrun⟩, -⟩ | ⟨l, -, -, -, hrun⟩ <;>
    simp [hrun]

theorem createDoc_ends (name : Name) (content : Doc) (htree : fs.Tree) (s : Fs) :
    (createDoc d io name content).run fs ≠ .error .outOfFuel s := by
  rcases createDoc_cases d io name content fs with ⟨-, e, hrun⟩ | ⟨-, -, hrest⟩
  · simp [hrun]
  · obtain ⟨ec, fs₁, hdirs, -, -⟩ :=
      createDirectories_made io htree (parentPath (d.nameToPath name))
    rcases hrest ec fs₁ hdirs with ⟨-, e, hrun⟩ | ⟨-, hrun⟩
    · simp [hrun]
    · rw [hrun]
      exact writeFile_ends _ content fs₁ s

theorem updateDoc_ends (name : Name) (content : Doc) (fs s : Fs) :
    (updateDoc d io name content).run fs ≠ .error .outOfFuel s := by
  rcases updateDoc_cases d io fs name content with ⟨-, e, hrun⟩ | ⟨-, fs', hrun, -⟩ <;> simp [hrun]

/-- Every call ends. -/
theorem exec_ends (htree : fs.Tree) (op : Op) (s : Fs) :
    (exec d io op).run fs ≠ .error .outOfFuel s := by
  cases op with
  | createDoc name content => exact createDoc_ends name content htree s
  | updateDoc name content => exact updateDoc_ends name content fs s
  | upsertDoc name content =>
    show (upsertDoc d io name content).run fs ≠ _
    unfold upsertDoc
    rw [EStateM.run_bind, EStateM.run_get]
    simp only
    split
    · exact updateDoc_ends name content fs s
    · exact createDoc_ends name content htree s
  | deleteDoc name =>
    rcases deleteDoc_cases d io name fs with ⟨-, e, hrun⟩ | ⟨l, text, -, h⟩
    · simp [exec, hrun]
    · exact h.ends s
  | deleteCol name =>
    rcases deleteCol_cases d io name fs with ⟨-, e, hrun⟩ | ⟨l, -, h⟩
    · simp [exec, hrun]
    · exact h.ends s

end Creating

/-! ## Deleting -/

section Deleting

variable {d : FileDriver} {io : Io} {fs₀ fs : Fs}

/-- The root is there, and what was outside. -/
structure Rooted (d : FileDriver) (fs₀ fs : Fs) : Prop where
  tree : fs.Tree
  cwd : fs.cwd = fs₀.cwd
  root : fs.node (d.rootLocation fs₀.cwd) = some .dir
  outside : ∀ l, ¬ d.rootLocation fs₀.cwd <+: l → fs₀.node l ≠ none → fs.node l ≠ none

theorem Rooted.grows {fs' : Fs} (h : Rooted d fs₀ fs) (hgrows : fs.Grows fs') : Rooted d fs₀ fs' :=
  ⟨hgrows.tree h.tree, hgrows.cwd.trans h.cwd, hgrows.dir _ h.root,
    fun l hl h₀ => hgrows.keeps (h.outside l hl h₀)⟩

/-- One lies above the other. -/
def Aligned (a b : Loc) : Prop := a <+: b ∨ b <+: a

theorem Aligned.of_concat {a b : Loc} {c : String} (h : Aligned (a ++ [c]) b) : Aligned a b := by
  rcases h with h | h
  · exact .inl ((List.prefix_append _ _).trans h)
  · rcases List.prefix_concat_iff.mp h with rfl | h
    · exact .inl (List.prefix_append _ _)
    · exact .inr h

/-- The parent of what is removed lies above it. -/
theorem resolve_parent_prefix {p : Path} (h : rmdirError p = none) (cwd : Loc) :
    resolve cwd p = resolve cwd (parentPath p) ∨
    ∃ c, resolve cwd p = resolve cwd (parentPath p) ++ [c] := by
  rcases resolve_parentPath cwd p with heq | ⟨w, c, hcs, heq⟩
  · exact .inl heq
  · obtain ⟨w', c', hcs', hname⟩ := rmdirError_eq_none h
    obtain ⟨-, hc⟩ := List.append_inj' (hcs.symm.trans hcs') rfl
    cases hc
    rw [stepTo_name hname] at heq
    exact .inr ⟨c, heq⟩

/-- Where the pruning has come to: the paths before were passed, and what keeps the root is left. -/
structure Passing (d : FileDriver) (io : Io) (fs₀ before : Fs) (path : Path) (k : Nat)
    (current : Path) (fs : Fs) : Prop where
  rooted : Rooted d fs₀ fs
  reached : current = ancestor path (k + 1)
  aligned : Aligned (resolve fs₀.cwd current) (resolve fs₀.cwd path)
  above : resolve fs₀.cwd current <+: resolve fs₀.cwd (parentPath path)
  left : ∀ x, before.node x ≠ none → ¬ x <+: resolve fs₀.cwd (parentPath path) →
    ¬ before.Taken io path (resolve fs₀.cwd path) x → fs.node x ≠ none
  passed : ∀ j, j < k → samePath (ancestor path (j + 1)) d.path = false ∧
    rmdirError (ancestor path (j + 1)) = none ∧ ¬ Busy io before path (ancestor path (j + 1))

/-- A directory with something below it is not empty. -/
theorem not_vacant_of_below {l x : Loc} (htree : fs.Tree) (hx : fs.node x ≠ none) (hp : l <+: x)
    (hne : l ≠ x) : ¬ fs.Vacant l := by
  obtain ⟨t, rfl⟩ := hp
  cases t with
  | nil => simp at hne
  | cons c cs =>
    have hdir := htree.dir_above hx (List.prefix_append _ _) hne
    have hchild : fs.node (l ++ [c]) ≠ none := by
      by_cases hcs : cs = []
      · rwa [← hcs]
      · rw [htree.dir_above hx (a := l ++ [c]) (by simp) (by simpa using hcs)]
        exact Option.some_ne_none _
    rintro (⟨-, hnone⟩ | hfile)
    · exact hchild (hnone c)
    · rw [hdir] at hfile
      cases hfile

/-- The paths of the turns made, the one that removes the directory among them, are passed. -/
theorem Passing.passes {before : Fs} {path : Path} (hcwd : before.cwd = fs₀.cwd) {k : Nat}
    {current : Path} (h : Passing d io fs₀ before path k current fs)
    (hremoves : Removes d io k current fs (resolve fs₀.cwd current)) (j : Nat) (hj : j < k + 1) :
    samePath (ancestor path (j + 1)) d.path = false ∧ rmdirError (ancestor path (j + 1)) = none ∧
      ¬ Busy io before path (ancestor path (j + 1)) := by
  have hbusy : ¬ Busy io before path current := by
    rintro ⟨x, hx, hp, habove, htaken⟩
    rw [hcwd] at hp habove htaken
    refine not_vacant_of_below h.rooted.tree (h.left x hx habove htaken) hp
      (fun heq => ?_) hremoves.vacant
    rw [← heq] at habove
    exact habove h.above
  rcases Nat.lt_succ_iff_lt_or_eq.mp hj with hj | rfl
  · exact h.passed j hj
  · rw [← h.reached]
    exact ⟨hremoves.root, hremoves.named, hbusy⟩

/-- The paths up to the stop are passed before the root is removed. -/
theorem Passing.ne_root {before : Fs} {path : Path} (hcwd : before.cwd = fs₀.cwd)
    (hstops : Stops d io before path) {k : Nat} {current : Path}
    (h : Passing d io fs₀ before path k current fs)
    (hremoves : Removes d io k current fs (resolve fs₀.cwd current)) :
    resolve fs₀.cwd current ≠ d.rootLocation fs₀.cwd := by
  intro heq
  obtain ⟨k₀, hstop, hfirst⟩ := hstops
  rcases Nat.lt_or_ge k k₀ with hk | hk
  · have hne := hfirst k hk
    rw [hcwd, ← h.reached] at hne
    exact hne heq
  · obtain ⟨hsame, hname, hnot⟩ := h.passes hcwd hremoves k₀ (Nat.lt_succ_of_le hk)
    rcases hstop with hstop | hstop | hstop
    · rw [hsame] at hstop
      cases hstop
    · exact hstop hname
    · exact hnot hstop

theorem Passing.step {before : Fs} {path : Path} (hcwd : before.cwd = fs₀.cwd)
    (hbelow : d.rootLocation fs₀.cwd <+: resolve fs₀.cwd path) (hstops : Stops d io before path)
    {k : Nat} {current : Path} {l : Loc} (h : Passing d io fs₀ before path k current fs)
    (hremoves : Removes d io k current fs l) :
    Passing d io fs₀ before path (k + 1) (parentPath current) (fs.without [l]) := by
  have hl : l = resolve fs₀.cwd current := by
    rw [(Fs.locate_eq_some.mp hremoves.located).2.1, h.rooted.cwd]
  rw [hl] at hremoves ⊢
  have hroot := h.ne_root hcwd hstops hremoves
  have hnode : ∀ x, x ≠ resolve fs₀.cwd current →
      (fs.without [resolve fs₀.cwd current]).node x = fs.node x :=
        fun x hx => Fs.node_without_of_ne hx
  refine ⟨⟨h.rooted.tree.without_vacant hremoves.vacant, h.rooted.cwd, ?_, fun x hx h₀ => ?_⟩,
    ?_, ?_, ?_, fun x hx habove htaken => ?_, h.passes hcwd hremoves⟩
  · rw [hnode _ (Ne.symm hroot)]
    exact h.rooted.root
  · rw [hnode]
    · exact h.rooted.outside x hx h₀
    · -- outside, the pruning would have to remove what is above the root
      rintro rfl
      have habove : resolve fs₀.cwd current <+: d.rootLocation fs₀.cwd := by
        rcases h.aligned with hal | hal
        · exact (List.prefix_or_prefix_of_prefix hal hbelow).resolve_right hx
        · exact absurd (hbelow.trans hal) hx
      refine not_vacant_of_below h.rooted.tree ?_ habove hroot hremoves.vacant
      rw [h.rooted.root]
      exact Option.some_ne_none _
  · rw [h.reached]
    rfl
  · rcases resolve_parent_prefix hremoves.named fs₀.cwd with heq | ⟨c, heq⟩
    · rw [← heq]
      exact h.aligned
    · have haligned := h.aligned
      rw [heq] at haligned
      exact haligned.of_concat
  · refine List.IsPrefix.trans ?_ h.above
    rcases resolve_parent_prefix hremoves.named fs₀.cwd with heq | ⟨c, heq⟩
    · rw [← heq]
    · rw [heq]
      exact List.prefix_append _ _
  · rw [hnode]
    · exact h.left x hx habove htaken
    · intro heq
      rw [heq] at habove
      exact habove h.above

/-- A path and its parent lie above one another. -/
theorem aligned_parentPath (cwd : Loc) (p : Path) :
    Aligned (resolve cwd (parentPath p)) (resolve cwd p) := by
  rcases resolve_parentPath cwd p with heq | ⟨w, c, -, heq⟩
  · rw [heq]
    exact .inl List.prefix_rfl
  · rw [heq]
    unfold stepTo
    split
    · exact .inl List.prefix_rfl
    · split
      · exact .inr (List.dropLast_prefix _)
      · exact .inl (List.prefix_append _ _)

/-- A deletion inside the root keeps it. -/
theorem Rooted.deletes (h : Rooted d fs₀ fs) {path : Path} {l : Loc}
    {r : EStateM.Result Throw Fs OptError} (hdeletes : Deletes d io path l fs r)
    (hinside : Inside d io fs path) :
    Rooted d fs₀ (resultState r) := by
  obtain ⟨hbelow, hstrictly, hstops⟩ := hinside
  have hl : l = resolve fs₀.cwd path := by
    rw [(Fs.locate_eq_some.mp hdeletes.located).2.1, h.cwd]
  rw [h.cwd] at hbelow hstrictly
  subst hl
  have hkept : ∀ x, ¬ fs.Taken io path (resolve fs₀.cwd path) x →
      (fs.without (fs.takenAt io path (resolve fs₀.cwd path))).node x = fs.node x :=
        fun x hx => Fs.node_not_taken hx
  have hroot : ¬ fs.Taken io path (resolve fs₀.cwd path) (d.rootLocation fs₀.cwd) := by
    intro htaken
    -- the root lies below what is deleted only when it is deleted itself
    have heq : d.rootLocation fs₀.cwd = resolve fs₀.cwd path :=
      hbelow.eq_of_length_le htaken.inside.length_le
    exact hstrictly heq.symm (htaken.named.resolve_left fun hne => hne heq)
  have hstart : Passing d io fs₀ fs path 0 (parentPath path)
      (fs.without (fs.takenAt io path (resolve fs₀.cwd path))) := by
    refine ⟨⟨h.tree.takenAt, h.cwd, by rw [hkept _ hroot, h.root], fun x hx h₀ => ?_⟩, rfl,
      aligned_parentPath _ _, List.prefix_rfl, fun x hx _ htaken => ?_, fun j hj =>
        absurd hj (Nat.not_lt_zero j)⟩
    · rw [hkept x fun htaken => hx (hbelow.trans htaken.inside)]
      exact h.outside x hx h₀
    · rw [hkept x htaken]
      exact hx
  obtain ⟨k, current, hpassing, -⟩ :=
    hdeletes.prunes.keeps
      (fun k current fs' l hI hremoves => hI.step h.cwd hbelow hstops hremoves) hstart
  exact hpassing.rooted

end Deleting

/-! ## Every run -/

/-- The end of the constructor: the root is a directory. -/
theorem status_of_isDirectory {path : Path} {d : FileDriver} {rapidjson : Rapidjson} {fs fs' : Fs}
    (h : (do
      if !(← get).isDirectory path then
        throw (.runtimeError s!"Path '{path}' is not a directory")
      return ⟨path, rapidjson⟩ : Call Fs FileDriver).run fs = .ok d fs') :
    fs' = fs ∧ fs.status path = some .dir := by
  rw [EStateM.run_bind, EStateM.run_get] at h
  rcases Fs.status_cases fs path with ⟨-, -, hdir⟩ | ⟨hst, -, hdir⟩ | ⟨text, -, -, hdir⟩
  · simp only [hdir] at h
    cases h
  · simp only [hdir] at h
    cases h
    exact ⟨rfl, hst⟩
  · simp only [hdir] at h
    cases h

/-- The constructor leaves a tree with a directory at the root path. -/
theorem Constructed.status {d : FileDriver} {fs : Fs} (h : Constructed d fs) :
    fs.Tree ∧ fs.status d.path = some .dir := by
  obtain ⟨io, create, before, htree, hrun⟩ := h
  unfold construct at hrun
  rw [EStateM.run_bind, EStateM.run_get] at hrun
  cases hex : before.pathExists d.path with
  | true =>
    simp only [hex, Bool.not_true, Bool.false_eq_true, if_false] at hrun
    obtain ⟨rfl, hst⟩ := status_of_isDirectory hrun
    exact ⟨htree, hst⟩
  | false =>
    obtain ⟨ec, fs₁, hdirs, hmade, -⟩ := createDirectories_made io htree d.path
    cases create with
    | false =>
      simp only [hex] at hrun
      cases hrun
    | true =>
      simp only [hex, Bool.not_false, if_true, Bool.not_true, Bool.false_eq_true, if_false] at hrun
      rw [EStateM.run_bind, hdirs] at hrun
      cases ec with
      | some ec => cases hrun
      | none =>
        obtain ⟨rfl, hst⟩ := status_of_isDirectory hrun
        exact ⟨hmade.tree, hst⟩

theorem rooted_inductive (d : FileDriver) (fs₀ : Fs) :
    ((runs d fs₀).guarded (Spared d)).Inductive (Rooted d fs₀) where
  init fs := by
    rintro ⟨rfl, hconstructed⟩
    obtain ⟨htree, hst⟩ := hconstructed.status
    obtain ⟨l, hl, hn⟩ := Option.bind_eq_some_iff.mp hst
    refine ⟨htree, rfl, ?_, fun _ _ h => h⟩
    rw [(Fs.locate_eq_some.mp hl).2.1] at hn
    exact hn
  step fs op fs' h := by
    rintro ⟨hspared, rfl⟩
    obtain ⟨op, io⟩ := op
    cases op with
    | createDoc name content => exact h.grows (createDoc_grows name content h.tree)
    | updateDoc name content => exact h.grows (updateDoc_grows name content h.tree)
    | upsertDoc name content => exact h.grows (upsertDoc_grows name content h.tree)
    | deleteDoc name =>
      rcases deleteDoc_cases d io name fs with ⟨-, e, hrun⟩ | ⟨l, text, hn, hdeletes⟩
      · show Rooted d fs₀ (resultState ((deleteDoc d io name).run fs))
        rw [hrun]
        exact h
      · refine h.deletes hdeletes (hspared (existsDoc_iff.mpr ⟨text, ?_⟩))
        exact Option.bind_eq_some_iff.mpr ⟨l, hdeletes.located, hn⟩
    | deleteCol name =>
      rcases deleteCol_cases d io name fs with ⟨-, e, hrun⟩ | ⟨l, hn, hdeletes⟩
      · show Rooted d fs₀ (resultState ((deleteCol d io name).run fs))
        rw [hrun]
        exact h
      · refine h.deletes hdeletes (hspared (existsCol_iff.mpr ?_))
        exact Option.bind_eq_some_iff.mpr ⟨l, hdeletes.located, hn⟩

/-- In every run whose deletions meet the condition, the root is there, nothing outside has been
removed, and every call ends. -/
theorem root_stays (d : FileDriver) (fs₀ fs : Fs)
    (h : ((runs d fs₀).guarded (Spared d)).Reachable fs) :
    fs.node (d.rootLocation fs₀.cwd) = some .dir ∧
    (∀ l, ¬ d.rootLocation fs₀.cwd <+: l → fs₀.node l ≠ none → fs.node l ≠ none) ∧
    ∀ op io s, (exec d io op).run fs ≠ .error .outOfFuel s := by
  have hrooted := (rooted_inductive d fs₀).holds h
  exact ⟨hrooted.root, hrooted.outside, fun op io s => exec_ends hrooted.tree op s⟩

/-! ## A root path with a separator at its end -/

section Sample

/-- A directory at the root path is taken as it is. -/
theorem constructed_of_status {d : FileDriver} {fs : Fs} (htree : fs.Tree)
    (h : fs.status d.path = some .dir) : Constructed d fs := by
  refine ⟨.calm, false, fs, htree, ?_⟩
  have hex : fs.pathExists d.path = true := by
    unfold Fs.pathExists
    rw [h]
    rfl
  have hdir : fs.isDirectory d.path = true := decide_eq_true h
  unfold construct
  rw [EStateM.run_bind, EStateM.run_get]
  simp only [hex, Bool.not_true, Bool.false_eq_true, if_false]
  rw [EStateM.run_bind, EStateM.run_get]
  simp only [hdir, Bool.not_true, Bool.false_eq_true, if_false]
  rfl

def rootedDriver (path : Path) : FileDriver := ⟨path, fun _ => .ok .null, fun _ => "null"⟩

/-- One empty directory. -/
def emptyRoot : Fs := Fs.set ⟨∅, []⟩ ["store"] .dir

theorem emptyRoot_tree : emptyRoot.Tree := by
  have hbare : (⟨∅, []⟩ : Fs).Tree := by
    intro loc c h
    refine absurd ?_ h
    unfold Fs.node
    rw [if_neg (by simp)]
    rfl
  show (Fs.set ⟨∅, []⟩ ([] ++ ["store"]) .dir).Tree
  exact hbare.set rfl (by decide) .dir

def onlyName : Name := ⟨["a"], by decide, by decide, by decide⟩

/-- The files after the only document was created. -/
def filled (path : Path) : Fs :=
  resultState ((createDoc (rootedDriver path) .calm onlyName .null).run emptyRoot)

/-- The files after it was deleted. -/
def emptied (path : Path) : Fs :=
  resultState ((deleteDoc (rootedDriver path) .calm onlyName).run (filled path))

theorem filled_reachable {path : Path} (h : emptyRoot.status path = some .dir) :
    ((runs (rootedDriver path) emptyRoot).guarded (Spared (rootedDriver path))).Reachable
    (filled path) :=
  .step (l := (.createDoc onlyName .null, .calm))
    (.init ⟨rfl, constructed_of_status emptyRoot_tree h⟩) ⟨trivial, rfl⟩

/-- The last document of a root without a separator at its end. -/
theorem root_stays_emptied :
    (emptied "/store").node ((rootedDriver "/store").rootLocation emptyRoot.cwd) = some .dir ∧
    (∀ l, ¬ (rootedDriver "/store").rootLocation emptyRoot.cwd <+: l → emptyRoot.node l ≠ none →
      (emptied "/store").node l ≠ none) ∧
    ∀ op io s, (exec (rootedDriver "/store") io op).run (emptied "/store") ≠
      .error .outOfFuel s := by
  refine root_stays (rootedDriver "/store") emptyRoot (emptied "/store") ?_
  refine .step (l := (.deleteDoc onlyName, .calm)) (filled_reachable (by decide +kernel))
    ⟨fun _ => ?_, rfl⟩
  refine ⟨by decide +kernel, fun h => ?_, 0, .inl (by decide +kernel),
    fun j hj => absurd hj (Nat.not_lt_zero j)⟩
  revert h
  decide +kernel

/-- A root path that ends in a separator: the directory goes with its last document. -/
theorem root_removed : ∃ fs, (runs (rootedDriver "/store/") emptyRoot).Reachable fs ∧
    fs.node ((rootedDriver "/store/").rootLocation emptyRoot.cwd) = none := by
  refine ⟨emptied "/store/", ?_, by decide +kernel⟩
  exact .step (l := (.deleteDoc onlyName, .calm))
    (filled_reachable (by decide +kernel)).of_guarded rfl

end Sample

end FileDriver

end DistroDefender.Store
