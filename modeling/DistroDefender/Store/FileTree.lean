import DistroDefender.Store.Root

/-!
# The tree below the root

A root path can be removed and made again (`Store.Root`), so the files of a driver are described
from the start of the walk along the root path: `Kept` says that the directories on it are there, or
above the root and gone with it. It is kept by creating (`Kept.grows`), by `remove_all` below the
root (`Kept.taken`) and by every turn of the pruning (`Kept.turn`). Where it holds, a name of plain
components leads to its parts below the root (`Leads.status`).
-/

namespace DistroDefender.Store

open Base Lib Os

namespace FileDriver

variable {d : FileDriver} {io : Io} {cwd : Loc} {fs : Fs}

/-! ## The way to the root -/

/-- `l` lies strictly below the root. -/
def Under (d : FileDriver) (cwd l : Loc) : Prop := d.rootLocation cwd <+: l ∧ d.rootLocation cwd ≠ l

/-- The walk along the root path comes by `l`. -/
def OnWay (d : FileDriver) (cwd l : Loc) : Prop :=
  ∃ w, w <+: components d.path ∧ l = walk (start cwd d.path) w

/-- The system reads the root path whole, and it leads through no directory below the root. -/
structure Straight (d : FileDriver) (cwd : Loc) : Prop where
  whole : Char.ofNat 0 ∉ d.path.toList
  nonempty : d.path ≠ ""
  outside : ∀ l, OnWay d cwd l → ¬ Under d cwd l

/-- The path goes up before it goes down. -/
def LeadsUp (p : Path) : Prop := ∃ k rest, components p = List.replicate k "." ++ ".." :: rest

/-- The directories on the way to the root are there, or above the root and gone. Where the walk
starts in a directory that is gone, it first goes up to one that is there. -/
structure Kept (d : FileDriver) (cwd : Loc) (fs : Fs) : Prop where
  tree : fs.Tree
  cwd_eq : fs.cwd = cwd
  way : ∀ l, OnWay d cwd l → fs.node l = some .dir ∨ fs.node l = none ∧ l <+: d.rootLocation cwd
  start : fs.node (start cwd d.path) = some .dir ∨
    LeadsUp d.path ∧ fs.node (Os.start cwd d.path).dropLast = some .dir

theorem Kept.node_ne_file (h : Kept d cwd fs) {l : Loc} (hl : OnWay d cwd l) (text : String) :
    fs.node l ≠ some (.file text) := by
  intro hfile
  rcases h.way l hl with hdir | ⟨hnone, -⟩
  · rw [hdir] at hfile
    cases hfile
  · rw [hnone] at hfile
    cases hfile

theorem Straight.root (h : Straight d cwd) :
    d.rootLocation cwd = walk (start cwd d.path) (components d.path) := by
  unfold rootLocation
  rw [resolve_eq_walk, cstr_of_not_mem h.whole]

theorem Straight.onWay_root (h : Straight d cwd) : OnWay d cwd (d.rootLocation cwd) :=
  ⟨_, List.prefix_rfl, h.root⟩

theorem onWay_start (d : FileDriver) (cwd : Loc) : OnWay d cwd (start cwd d.path) :=
  ⟨[], List.nil_prefix, rfl⟩

theorem under_append {cs : List String} (hne : cs ≠ []) : Under d cwd (d.rootLocation cwd ++ cs) :=
  ⟨List.prefix_append _ _, fun h => hne (List.self_eq_append_right.mp h)⟩

theorem Under.below {l x : Loc} (h : Under d cwd l) (hp : l <+: x) : Under d cwd x := by
  refine ⟨h.1.trans hp, fun he => h.2 ?_⟩
  exact h.1.eq_of_length_le (he ▸ hp.length_le)

/-- Where the root is, the whole way is. -/
theorem Kept.opened (h : Kept d cwd fs) (hroot : fs.node (d.rootLocation cwd) ≠ none) {l : Loc}
    (hl : OnWay d cwd l) : fs.node l = some .dir := by
  rcases h.way l hl with hdir | ⟨hnone, habove⟩
  · exact hdir
  · by_cases heq : l = d.rootLocation cwd
    · exact absurd (heq ▸ hnone) hroot
    · exact h.tree.dir_above hroot habove heq

/-! ## Paths below the root -/

/-- `q` is the root path followed by `cs`. -/
structure Leads (d : FileDriver) (q : Path) (cs : List String) : Prop where
  bare : Bare q
  components : components q = components d.path ++ cs
  absolute : isAbsolute q = isAbsolute d.path

theorem leads_nameToPath (hd : Char.ofNat 0 ∉ d.path.toList) {n : Name} (hn : PlainName n) :
    Leads d (d.nameToPath n) n.parts := by
  have h := append_plain_all hd hn
  exact ⟨h.bare n.parts_ne, h.components, h.absolute⟩

theorem Leads.parentPath {q : Path} {cs : List String} {c : String} (h : Leads d q (cs ++ [c])) :
    Leads d (parentPath q) cs := by
  refine ⟨h.bare.parentPath, ?_, (isAbsolute_parentPath q).trans h.absolute⟩
  rw [h.bare.components_parentPath, h.components, ← List.append_assoc, List.dropLast_concat]

theorem start_eq (habs : isAbsolute q = isAbsolute d.path) : start cwd q = start cwd d.path := by
  unfold start
  rw [isAbsolute_cstr, isAbsolute_cstr, habs]

theorem walk_plain_parts (loc : Loc) {cs : List String} (hcs : ∀ c ∈ cs, Plain c) :
    walk loc cs = loc ++ cs :=
  walk_plain loc fun c hc => ⟨(hcs c hc).2.1, (hcs c hc).2.2.1⟩

theorem Leads.resolve (hs : Straight d cwd) {q : Path} {cs : List String} (h : Leads d q cs)
    (hcs : ∀ c ∈ cs, Plain c) : resolve cwd q = d.rootLocation cwd ++ cs := by
  rw [resolve_eq_walk, start_eq h.absolute, cstr_of_not_mem h.bare.whole, h.components, walk_append,
    ← hs.root, walk_plain_parts _ hcs]

theorem Leads.ne_empty (hs : Straight d cwd) {q : Path} {cs : List String} (h : Leads d q cs) :
    q ≠ "" := by
  rintro rfl
  have hcs := h.components
  have habs := h.absolute
  have hnil : Os.components d.path = [] := (List.append_eq_nil_iff.mp hcs.symm).1
  have hall := components_eq_nil.mp hnil
  unfold isAbsolute at habs
  cases hchars : d.path.toList with
  | nil => exact hs.nonempty (String.toList_injective hchars)
  | cons c cs' =>
    have hc := hall c (by rw [hchars]; exact List.mem_cons_self)
    rw [hchars, hc] at habs
    simp at habs

/-- A path below the root leads there, when the directories above are there. -/
theorem Leads.locate (hs : Straight d cwd) (hk : Kept d cwd fs) {q : Path} {cs : List String}
    (h : Leads d q cs) (hcs : ∀ c ∈ cs, Plain c) (hroot : fs.node (d.rootLocation cwd) ≠ none)
    (habove : ∀ cs', cs' <+: cs → cs' ≠ cs → fs.node (d.rootLocation cwd ++ cs') = some .dir) :
    fs.locate q = some (d.rootLocation cwd ++ cs) := by
  rw [h.bare.locate (h.ne_empty hs), hk.cwd_eq, start_eq h.absolute, h.components]
  refine ⟨by rw [walk_append, ← hs.root, walk_plain_parts _ hcs], fun w hw hne => ?_⟩
  rcases prefix_append_cases hw with hw | ⟨cs', hcs', rfl⟩
  · exact hk.opened hroot ⟨w, hw, rfl⟩
  · rw [walk_append, ← hs.root, walk_plain_parts _ fun c hc => hcs c (hcs'.mem hc)]
    exact habove cs' hcs' fun he => hne (by rw [he])

/-- A path below the root leads to what is there. -/
theorem Leads.status (hs : Straight d cwd) (hk : Kept d cwd fs) {q : Path} {cs : List String}
    (h : Leads d q cs) (hcs : ∀ c ∈ cs, Plain c) :
    fs.status q = fs.node (d.rootLocation cwd ++ cs) := by
  cases hn : fs.node (d.rootLocation cwd ++ cs) with
  | none =>
    unfold Fs.status
    cases hloc : fs.locate q with
    | none => rfl
    | some l =>
      have hl : l = d.rootLocation cwd ++ cs := by
        rw [(Fs.locate_eq_some.mp hloc).2.1, hk.cwd_eq, h.resolve hs hcs]
      rw [Option.bind_some, hl, hn]
  | some node =>
    have hthere : fs.node (d.rootLocation cwd ++ cs) ≠ none := by
      rw [hn]
      exact Option.some_ne_none _
    have habove : ∀ cs', cs' <+: cs → cs' ≠ cs → fs.node (d.rootLocation cwd ++ cs') = some .dir :=
      fun cs' hcs' hne =>
      hk.tree.dir_above hthere ((List.prefix_append_right_inj _).mpr hcs') (by simpa using hne)
    have hroot : fs.node (d.rootLocation cwd) ≠ none := by
      by_cases hnil : cs = []
      · rwa [hnil, List.append_nil] at hthere
      · have hdir := habove [] List.nil_prefix (Ne.symm hnil)
        rw [List.append_nil] at hdir
        rw [hdir]
        exact Option.some_ne_none _
    unfold Fs.status
    rw [h.locate hs hk hcs hroot habove, Option.bind_some, hn]

/-! ## What keeps the way -/

/-- Creating keeps the way, where no file is put on it. -/
theorem Kept.grows {fs' : Fs} (h : Kept d cwd fs) (hgrows : fs.Grows fs')
    (hclear : ∀ l, OnWay d cwd l → ∀ text, fs'.node l ≠ some (.file text)) : Kept d cwd fs' := by
  refine ⟨hgrows.tree h.tree, hgrows.cwd.trans h.cwd_eq, fun l hl => ?_, ?_⟩
  · rcases h.way l hl with hdir | ⟨-, habove⟩
    · exact .inl (hgrows.dir l hdir)
    · rcases hn : fs'.node l with _ | _ | text
      · exact .inr ⟨rfl, habove⟩
      · exact .inl rfl
      · exact absurd hn (hclear l hl text)
  · rcases h.start with hdir | ⟨hup, hdir⟩
    · exact .inl (hgrows.dir _ hdir)
    · exact .inr ⟨hup, hgrows.dir _ hdir⟩

/-- What is below the root is off the way, and above the working directory there is none of it. -/
theorem Straight.off (hs : Straight d cwd) {l x : Loc} (hl : Under d cwd l) (hx : OnWay d cwd x) :
    ¬ l <+: x :=
  fun hp => hs.outside x hx (hl.below hp)

/-- Where the entries below the root change, the way stays. -/
theorem Kept.of_under (hs : Straight d cwd) {fs' : Fs} (h : Kept d cwd fs) (htree : fs'.Tree)
    (hcwd : fs'.cwd = fs.cwd) {l : Loc} (hl : Under d cwd l)
    (hnode : ∀ x, ¬ l <+: x → fs'.node x = fs.node x) : Kept d cwd fs' := by
  have hway : ∀ x, OnWay d cwd x → fs'.node x = fs.node x := fun x hx => hnode x (hs.off hl hx)
  refine ⟨htree, hcwd.trans h.cwd_eq, fun x hx => hway x hx ▸ h.way x hx, ?_⟩
  have hdrop : fs'.node (Os.start cwd d.path).dropLast =
      fs.node (Os.start cwd d.path).dropLast := by
    refine hnode _ fun hp => hs.off hl (onWay_start d cwd) (hp.trans (List.dropLast_prefix _))
  rw [hway _ (onWay_start d cwd), hdrop]
  exact h.start

/-- `remove_all` below the root. -/
theorem Kept.taken (hs : Straight d cwd) (h : Kept d cwd fs) {p : Path} {l : Loc}
    (hl : Under d cwd l) : Kept d cwd (fs.without (fs.takenAt io p l)) :=
  h.of_under hs h.tree.takenAt rfl hl fun _ hx => Fs.node_not_taken fun ht => hx ht.inside

/-- `q` is on the way up from the root path followed by `cs`. -/
structure Climbs (d : FileDriver) (cs : List String) (q : Path) : Prop where
  bare : Bare q
  components : components q <+: components d.path ++ cs
  absolute : isAbsolute q = isAbsolute d.path

theorem Climbs.parentPath {cs : List String} {q : Path} (h : Climbs d cs q) :
    Climbs d cs (parentPath q) := by
  refine ⟨h.bare.parentPath, ?_, (isAbsolute_parentPath q).trans h.absolute⟩
  rw [h.bare.components_parentPath]
  exact (List.dropLast_prefix _).trans h.components

theorem Climbs.resolve {cs : List String} {q : Path} (h : Climbs d cs q) :
    resolve cwd q = walk (start cwd d.path) (Os.components q) := by
  rw [resolve_eq_walk, start_eq h.absolute, cstr_of_not_mem h.bare.whole]

/-- A climbing path is on the way to the root, or leads below it. -/
theorem Climbs.cases {cs : List String} {q : Path} (h : Climbs d cs q) :
    Os.components q <+: Os.components d.path ∨ ∃ cs', cs' ≠ [] ∧ cs' <+: cs ∧ Leads d q cs' := by
  rcases prefix_append_cases h.components with hw | ⟨cs', hcs', heq⟩
  · exact .inl hw
  · by_cases hnil : cs' = []
    · rw [hnil, List.append_nil] at heq
      exact .inl (heq ▸ List.prefix_rfl)
    · exact .inr ⟨cs', hnil, hcs', h.bare, heq, h.absolute⟩

theorem walk_dots (loc : Loc) (k : Nat) : walk loc (List.replicate k ".") = loc := by
  induction k with
  | zero => rfl
  | succ k ih =>
    rw [List.replicate_succ']
    rw [walk_append, ih, walk_singleton]
    exact if_pos rfl

/-- Up to the first component that is not `.`. -/
theorem exists_after_dots {w : List String} (h : ∃ c ∈ w, c ≠ ".") :
    ∃ k x rest, w = List.replicate k "." ++ x :: rest ∧ x ≠ "." := by
  induction w with
  | nil => simp at h
  | cons c w ih =>
    by_cases hc : c = "."
    · subst hc
      obtain ⟨k, x, rest, rfl, hx⟩ := ih (by simpa using h)
      exact ⟨k + 1, x, rest, rfl, hx⟩
    · exact ⟨0, c, w, rfl, hc⟩

/-- A walk along the root path that comes back to its start, an emptied directory, first goes up. -/
theorem leadsUp_of_walk {w : List String} (hw : w <+: components d.path) (hname : ∃ c ∈ w, c ≠ ".")
    {s : Loc} (hback : walk s w = s) (hnone : ∀ c, fs.node (s ++ [c]) = none)
    (hway : ∀ v, v <+: w → v ≠ w → fs.node (walk s v) = some .dir) : LeadsUp d.path := by
  obtain ⟨k, x, rest, rfl, hx⟩ := exists_after_dots hname
  by_cases hup : x = ".."
  · obtain ⟨t, ht⟩ := hw
    refine ⟨k, rest ++ t, ?_⟩
    rw [← ht, hup, List.append_assoc, List.cons_append]
  · -- a name leads to a directory below the start
    have hdown : walk s (List.replicate k "." ++ [x]) = s ++ [x] := by
      rw [walk_append, walk_dots, walk_singleton]
      exact stepTo_name (not_or.mpr ⟨hx, hup⟩) s
    by_cases hrest : rest = []
    · rw [hrest, hdown] at hback
      simp at hback
    · have hdir := hway (List.replicate k "." ++ [x]) (by simp) (by simpa using Ne.symm hrest)
      rw [hdown, hnone] at hdir
      cases hdir

/-- Above the end of a path below the root: at or above the root, or below it. -/
theorem under_or_above {l : Loc} {cs : List String} (h : l <+: d.rootLocation cwd ++ cs) :
    l <+: d.rootLocation cwd ∨ Under d cwd l := by
  rcases prefix_append_cases h with hroot | ⟨cs', -, rfl⟩
  · exact .inl hroot
  · by_cases hnil : cs' = []
    · rw [hnil, List.append_nil]
      exact .inl List.prefix_rfl
    · exact .inr (under_append hnil)

/-- A turn of the pruning. -/
theorem Kept.turn (hs : Straight d cwd) (h : Kept d cwd fs) {cs : List String}
    (hcs : ∀ c ∈ cs, Plain c) {k : Nat} {current : Path} {l : Loc} (hclimbs : Climbs d cs current)
    (habove : Os.resolve cwd current <+: d.rootLocation cwd ++ cs)
    (hremoves : Removes d io k current fs l) : Kept d cwd (fs.without [l]) := by
  obtain ⟨-, hl, hlocated, -⟩ := Fs.locate_eq_some.mp hremoves.located
  obtain ⟨w₀, c, hw, hc⟩ := rmdirError_eq_none hremoves.named
  rw [h.cwd_eq, start_eq hclimbs.absolute] at hlocated
  rw [h.cwd_eq] at hl
  rw [cstr_of_not_mem hclimbs.bare.whole] at hlocated hw
  have htree := h.tree.without_vacant hremoves.vacant
  have hnode : ∀ x, x ≠ l → (fs.without [l]).node x = fs.node x :=
    fun x hx => Fs.node_without_of_ne hx
  rw [← hl] at habove
  rcases under_or_above habove with hroot | hunder
  swap
  · refine h.of_under hs htree rfl hunder fun x hx => hnode x ?_
    rintro rfl
    exact hx List.prefix_rfl
  have hne : l ≠ [] := hl ▸ resolve_ne_nil hremoves.named cwd
  have hstart : fs.node (Os.start cwd d.path) = some .dir :=
    hlocated [] List.nil_prefix (by rw [hw]; simp)
  refine ⟨htree, h.cwd_eq, fun x hx => ?_, ?_⟩
  · by_cases hxl : x = l
    · refine .inr ⟨?_, hxl ▸ hroot⟩
      rw [Fs.node_without, if_pos ⟨List.mem_singleton.mpr hxl, hxl ▸ hne⟩]
    · rw [hnode x hxl]
      exact h.way x hx
  · by_cases hsl : Os.start cwd d.path = l
    · -- the directory the walk starts in is the one removed
      rw [hsl] at hstart hlocated ⊢
      obtain ⟨dir, c', rfl⟩ := (List.eq_nil_or_concat' l).resolve_left hne
      have hnone : ∀ c, fs.node (dir ++ [c'] ++ [c]) = none := by
        rcases hremoves.vacant with ⟨-, hnone⟩ | hfile
        · exact hnone
        · rw [hstart] at hfile
          cases hfile
      refine .inr ⟨?_, ?_⟩
      · refine leadsUp_of_walk (w := Os.components current) ?_
          ⟨c, by rw [hw]; simp, fun he => hc (.inl he)⟩ (s := dir ++ [c']) ?_ hnone hlocated
        · rcases hclimbs.cases with hway | ⟨cs', hnil, hcs', hleads⟩
          · exact hway
          · rw [hl, hleads.resolve hs fun c hc => hcs c (hcs'.mem hc)] at hroot
            exact absurd (hroot.eq_of_length_le (List.prefix_append _ _).length_le).symm
              (under_append hnil).2
        · rw [← hsl, ← hclimbs.resolve, ← hl, hsl]
      · rw [List.dropLast_concat, hnode _ (by simp)]
        exact h.tree dir c' (by rw [hstart]; exact Option.some_ne_none _)
    · exact .inl (by rw [hnode _ hsl, hstart])

/-! ## Making the directories of a document -/

theorem mkdirs_dots (io : Io) (loc : Loc) (k : Nat) (cs : List String) (j : Nat) :
    mkdirs io loc (List.replicate k "." ++ cs) j = mkdirs io loc cs j := by
  induction k with
  | zero => rfl
  | succ k ih =>
    rw [List.replicate_succ, List.cons_append]
    simp only [mkdirs, true_or, if_true]
    exact ih

/-- The directories along the root path, and what follows it, are made from a directory that is
there. -/
theorem Kept.exists_start (h : Kept d cwd fs) (cs : List String) : ∃ s rest, fs.node s = some .dir ∧
    (∀ io k, mkdirs io (Os.start cwd d.path) (components d.path ++ cs) k = mkdirs io s rest k) ∧
    walk (Os.start cwd d.path) (components d.path ++ cs) = walk s rest ∧
    ∀ v, v <+: rest →
      ∃ w, w <+: components d.path ++ cs ∧ walk s v = walk (Os.start cwd d.path) w := by
  rcases h.start with hdir | ⟨⟨k, rest, hup⟩, hdir⟩
  · exact ⟨_, _, hdir, fun _ _ => rfl, rfl, fun v hv => ⟨v, hv, rfl⟩⟩
  · have hwalk : ∀ v, walk (Os.start cwd d.path) (List.replicate k "." ++ ".." :: v) =
        walk (Os.start cwd d.path).dropLast v := by
      intro v
      rw [walk_append, walk_dots]
      rfl
    refine ⟨_, rest ++ cs, hdir, fun io j => ?_, ?_, fun v hv => ?_⟩
    · rw [hup, List.append_assoc, mkdirs_dots, List.cons_append]
      simp only [mkdirs, or_true, if_true]
      rfl
    · rw [hup, List.append_assoc, List.cons_append, hwalk]
    · refine ⟨List.replicate k "." ++ ".." :: v, ?_, (hwalk v).symm⟩
      rw [hup, List.append_assoc, List.cons_append, List.prefix_append_right_inj,
        List.cons_prefix_cons]
      exact ⟨rfl, hv⟩

/-- What `create_directories` of a path below the root has made of the files. -/
structure MadeBelow (d : FileDriver) (cwd : Loc) (fs fs' : Fs) (cs : List String) : Prop where
  kept : Kept d cwd fs'
  node : ∀ x, fs'.node x = fs.node x ∨
    fs.node x = none ∧ fs'.node x = some .dir ∧
      (OnWay d cwd x ∨ ∃ cs', cs' <+: cs ∧ x = d.rootLocation cwd ++ cs')

theorem MadeBelow.keep {fs' : Fs} {cs : List String} (h : MadeBelow d cwd fs fs' cs) {x : Loc}
    {n : Node} (hx : fs.node x = some n) : fs'.node x = some n := by
  rcases h.node x with heq | ⟨hnone, -⟩
  · rw [heq, hx]
  · rw [hx] at hnone
    cases hnone

theorem createDirectories_leads (hs : Straight d cwd) (h : Kept d cwd fs) {q : Path}
    {cs : List String} (hq : Leads d q cs) (hcs : ∀ c ∈ cs, Plain c) (io : Io) :
    ∃ e fs', (createDirectories io q).run fs = .ok e fs' ∧ MadeBelow d cwd fs fs' cs ∧
      (e = none → fs'.node (d.rootLocation cwd ++ cs) = some .dir) ∧
      ((∀ k, io.mkdir k = none) →
        (∀ cs', cs' <+: cs → ∀ text, fs.node (d.rootLocation cwd ++ cs') ≠ some (.file text)) →
        e = none) := by
  obtain ⟨s, rest, hdir, hrun, hend, hway⟩ := h.exists_start cs
  obtain ⟨e, fs', hmk, hmade, hlast⟩ := mkdirs_made io h.tree s rest 0
  have hcall : (createDirectories io q).run fs = .ok e fs' := by
    unfold createDirectories
    rw [EStateM.run_bind, EStateM.run_get]
    simp only [cstr_of_not_mem hq.bare.whole, if_neg (hq.ne_empty hs)]
    have hstart : (if isAbsolute q = true then [] else fs.cwd) = Os.start cwd d.path := by
      rw [← start_eq hq.absolute, ← h.cwd_eq]
      unfold Os.start
      rw [cstr_of_not_mem hq.bare.whole]
    rw [hstart, hq.components, hrun, hmk]
  -- the directories made are on the way to the root, or below it
  have hwhere : ∀ v, v <+: rest →
      OnWay d cwd (walk s v) ∨ ∃ cs', cs' <+: cs ∧ walk s v = d.rootLocation cwd ++ cs' := by
    intro v hv
    obtain ⟨w, hw, heq⟩ := hway v hv
    rcases prefix_append_cases hw with hw | ⟨cs', hcs', rfl⟩
    · exact .inl ⟨w, hw, heq⟩
    · refine .inr ⟨cs', hcs', ?_⟩
      rw [heq, walk_append, ← hs.root, walk_plain_parts _ fun c hc => hcs c (hcs'.mem hc)]
  have hnode : ∀ x, fs'.node x = fs.node x ∨ fs.node x = none ∧ fs'.node x = some .dir ∧
      (OnWay d cwd x ∨ ∃ cs', cs' <+: cs ∧ x = d.rootLocation cwd ++ cs') := by
    intro x
    rcases hmade.node x with heq | ⟨hnone, hnew, v, hv, rfl⟩
    · exact .inl heq
    · exact .inr ⟨hnone, hnew, hwhere v hv⟩
  have hkept : Kept d cwd fs' := by
    refine h.grows hmade.grows fun x hx text hfile => ?_
    rcases hmade.node x with heq | ⟨-, hnew, -⟩
    · exact h.node_ne_file hx text (heq ▸ hfile)
    · rw [hnew] at hfile
      cases hfile
  refine ⟨e, fs', hcall, ⟨hkept, hnode⟩, fun he => ?_, fun hio hclear => ?_⟩
  · have hdir' := hlast he hdir
    rwa [← hend, walk_append, ← hs.root, walk_plain_parts _ hcs] at hdir'
  · have hway : ∀ v, v <+: rest → ∀ text, fs.node (walk s v) ≠ some (.file text) := by
      intro v hv text hfile
      rcases hwhere v hv with hx | ⟨cs', hcs', heq⟩
      · exact h.node_ne_file hx text hfile
      · exact hclear cs' hcs' text (heq ▸ hfile)
    obtain ⟨fs₂, hcalm⟩ := mkdirs_calm hio h.tree hdir hway 0
    rw [hmk] at hcalm
    cases hcalm
    rfl

end FileDriver

end DistroDefender.Store
