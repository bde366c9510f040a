import DistroDefender.Store.Collections
import DistroDefender.Store.Load

/-!
# The cache and the files

The store takes an error of the driver for "nothing happened" and an answer without one for "done".
A deletion breaks both: the pruning reports an error after the file is gone, and `remove_all` that
stopped half way answers a number that is not zero. `Whole` says when a deletion does neither, and
in every run whose deletions are whole the cache has exactly the documents whose files are there
(`cache_agrees`).
-/

namespace DistroDefender.Store

open Base Lib Os

namespace FileDriver

variable {d : FileDriver} {io : Io} {cwd : Loc} {fs : Fs} {n : Name}

/-! ## Whole deletions -/

/-- The pruning of `path` comes to a directory with something else below, or to the root path, and
removes the directories before, none of which is the root. -/
def Ends (d : FileDriver) (io : Io) (fs : Fs) (path : Path) : Prop :=
  ∃ k, (samePath (ancestor path (k + 1)) d.path = true ∨ Busy io fs path (ancestor path (k + 1))) ∧
    ∀ j, j < k → io.rmdir j = none ∧ resolve fs.cwd (ancestor path (j + 1)) ≠ d.rootLocation fs.cwd

/-- The deletion of `path` takes every file there, and ends without an error. -/
structure Whole (d : FileDriver) (io : Io) (fs : Fs) (path : Path) : Prop where
  taken : ∀ x, IsFile fs x → resolve fs.cwd path <+: x → fs.Taken io path (resolve fs.cwd path) x
  ends : Ends d io fs path

/-- A deletion keeps the way to the root, and takes the files `remove_all` takes. -/
theorem Deletes.files (hs : Straight d cwd) (hk : Kept d cwd fs) (hn : PlainName n) {l : Loc}
    {r : EStateM.Result Throw Fs OptError} (h : Deletes d io (d.nameToPath n) l fs r)
    (hl : fs.node l ≠ none) : Kept d cwd (resultState r) ∧
      ∀ x, IsFile (resultState r) x ↔ IsFile fs x ∧ ¬ fs.Taken io (d.nameToPath n) l x := by
  obtain ⟨hloc, hascends⟩ := h.ascends hs hk hn hl
  have hstart : ∀ x, IsFile (fs.without (fs.takenAt io (d.nameToPath n) l)) x ↔
      IsFile fs x ∧ ¬ fs.Taken io (d.nameToPath n) l x := by
    intro x
    by_cases htaken : fs.Taken io (d.nameToPath n) l x
    · have hne : x ≠ [] := by
        rintro rfl
        have hin := htaken.inside
        rw [hloc, List.prefix_nil, List.append_eq_nil_iff] at hin
        exact n.parts_ne hin.2
      refine ⟨fun hfile => absurd (Fs.node_taken hne htaken) hfile.exists,
        fun hfile => absurd htaken hfile.2⟩
    · unfold IsFile
      rw [Fs.node_not_taken htaken]
      exact ⟨fun hfile => ⟨hfile, htaken⟩, fun hfile => hfile.1⟩
  obtain ⟨k, current, ⟨hascends', hfiles⟩, -⟩ := h.prunes.keeps
    (I := fun _ current fs' => Ascends d cwd n.parts current fs' ∧
      ∀ x, IsFile fs' x ↔ IsFile fs x ∧ ¬ fs.Taken io (d.nameToPath n) l x)
    (fun k current fs' l' hI hremoves =>
      ⟨hI.1.step hs hn hremoves, fun x => (hI.1.files hs hn hremoves x).trans (hI.2 x)⟩)
        ⟨hascends, hstart⟩
  exact ⟨hascends'.kept, hfiles⟩

/-- Where the pruning has come to: the paths before were passed, and what is not on the way up is
left. -/
structure Rising (d : FileDriver) (io : Io) (before : Fs) (path : Path) (cwd : Loc)
    (cs : List String) (k : Nat) (current : Path) (fs : Fs) : Prop where
  ascends : Ascends d cwd cs current fs
  reached : current = ancestor path (k + 1)
  leads : ∃ cs', cs' <+: cs ∧ Leads d current cs'
  left : ∀ x, before.node x ≠ none → ¬ x <+: resolve cwd (parentPath path) →
    ¬ before.Taken io path (resolve cwd path) x → fs.node x ≠ none
  above : resolve cwd current <+: resolve cwd (parentPath path)
  passed : ∀ j, j < k → samePath (ancestor path (j + 1)) d.path = false ∧
    ¬ Busy io before path (ancestor path (j + 1))

section Rising

variable {before : Fs} {path : Path} {cs : List String} {k : Nat} {current : Path}

/-- Where something else is below, the directory is there and not empty. -/
theorem Rising.not_vacant (h : Rising d io before path cwd cs k current fs)
    (hcwd : before.cwd = cwd) (hbusy : Busy io before path current) :
    fs.node (resolve cwd current) = some .dir ∧ ¬ fs.Vacant (resolve cwd current) := by
  obtain ⟨x, hx, hp, habove, htaken⟩ := hbusy
  rw [hcwd] at hp habove htaken
  have hleft := h.left x hx habove htaken
  have hne : resolve cwd current ≠ x := by
    rintro rfl
    exact habove h.above
  exact ⟨h.ascends.kept.tree.dir_above hleft hp hne,
    not_vacant_of_below h.ascends.kept.tree hleft hp hne⟩

theorem Rising.removes (hs : Straight d cwd) (hcs : ∀ c ∈ cs, Os.Plain c) (hcwd : before.cwd = cwd)
    {l : Loc} (h : Rising d io before path cwd cs k current fs)
    (hremoves : Removes d io k current fs l) :
    ¬ Busy io before path current := by
  intro hbusy
  obtain ⟨hl, -⟩ := h.ascends.dir hs hcs hremoves
  exact (h.not_vacant hcwd hbusy).2 (hl ▸ hremoves.vacant)

/-- The path the pruning stops at has not been passed. -/
theorem Rising.le (h : Rising d io before path cwd cs k current fs) {k₀ : Nat}
    (hstop : samePath (ancestor path (k₀ + 1)) d.path = true ∨
      Busy io before path (ancestor path (k₀ + 1))) :
    k ≤ k₀ := by
  by_contra hlt
  obtain ⟨hsame, hfree⟩ := h.passed k₀ (Nat.lt_of_not_le hlt)
  rcases hstop with hstop | hstop
  · rw [hsame] at hstop
    cases hstop
  · exact hfree hstop

/-- A path that does not lead to the root leads below it. -/
theorem Rising.below (hs : Straight d cwd) (hcs : ∀ c ∈ cs, Os.Plain c)
    (h : Rising d io before path cwd cs k current fs)
    (hroot : resolve cwd current ≠ d.rootLocation cwd) :
    ∃ cs' c, cs' ++ [c] <+: cs ∧ Leads d current (cs' ++ [c]) := by
  obtain ⟨cs', hcs', hleads⟩ := h.leads
  rcases List.eq_nil_or_concat' cs' with rfl | ⟨cs'', c, rfl⟩
  · rw [hleads.resolve hs fun c hc => hcs c (hcs'.mem hc), List.append_nil] at hroot
    exact absurd rfl hroot
  · exact ⟨cs'', c, hcs', hleads⟩

theorem Rising.step (hs : Straight d cwd) (hcs : ∀ c ∈ cs, Os.Plain c) (hcwd : before.cwd = cwd)
    (hends : Ends d io before path) {l : Loc} (h : Rising d io before path cwd cs k current fs)
    (hremoves : Removes d io k current fs l) :
    Rising d io before path cwd cs (k + 1) (parentPath current) (fs.without [l]) := by
  obtain ⟨k₀, hstop, hbefore⟩ := hends
  have hfree := h.removes hs hcs hcwd hremoves
  have hroot : resolve cwd current ≠ d.rootLocation cwd := by
    rcases Nat.lt_or_eq_of_le (h.le hstop) with hlt | rfl
    · have hne := (hbefore k hlt).2
      rwa [hcwd, ← h.reached] at hne
    · rw [← h.reached] at hstop
      rcases hstop with hstop | hstop
      · rw [hremoves.root] at hstop
        cases hstop
      · exact absurd hstop hfree
  obtain ⟨cs', c, hcs', hleads⟩ := h.below hs hcs hroot
  obtain ⟨c', hc'⟩ := h.ascends.climbs.resolve_parent hremoves.named cwd
  obtain ⟨hl, -⟩ := h.ascends.dir hs hcs hremoves
  refine ⟨h.ascends.step hs hcs hremoves, ?_,
    ⟨cs', (List.prefix_append _ _).trans hcs', hleads.parentPath⟩,
    fun x hx habove htaken => ?_, ?_, fun j hj => ?_⟩
  · rw [h.reached]
    rfl
  · rw [Fs.node_without_of_ne]
    · exact h.left x hx habove htaken
    · intro heq
      rw [heq, hl] at habove
      exact habove h.above
  · refine List.IsPrefix.trans ?_ h.above
    rw [hc']
    exact List.prefix_append _ _
  · rcases Nat.lt_succ_iff_lt_or_eq.mp hj with hj | rfl
    · exact h.passed j hj
    · rw [← h.reached]
      exact ⟨hremoves.root, hfree⟩

/-- Before the pruning has passed its stop, it ends without an error. -/
theorem Rising.clean (hs : Straight d cwd) (hcs : ∀ c ∈ cs, Os.Plain c) (hcwd : before.cwd = cwd)
    (hends : Ends d io before path) (h : Rising d io before path cwd cs k current fs) {clean : Bool}
    (hhalts : Halts d io k current fs clean) : clean = true := by
  obtain ⟨k₀, hstop, hbefore⟩ := hends
  by_contra hunclean
  have hsame : samePath current d.path = false := by
    cases hhalts with
    | root => exact absurd rfl hunclean
    | busy => exact absurd rfl hunclean
    | gone hroot => exact hroot
    | stuck hroot => exact hroot
  -- at the stop the directory is there and not empty; before it, it is there and can be removed
  have hcase : (fs.node (resolve cwd current) = some .dir ∧ ¬ fs.Vacant (resolve cwd current)) ∨
      (io.rmdir k = none ∧ ∃ cs' c, cs' ++ [c] <+: cs ∧ Leads d current (cs' ++ [c])) := by
    rcases Nat.lt_or_eq_of_le (h.le hstop) with hlt | rfl
    · obtain ⟨hio, hne⟩ := hbefore k hlt
      rw [hcwd, ← h.reached] at hne
      exact .inr ⟨hio, h.below hs hcs hne⟩
    · rw [← h.reached, hsame] at hstop
      exact .inl (h.not_vacant hcwd (hstop.resolve_left Bool.false_ne_true))
  obtain ⟨cs', hcs', hleads⟩ := h.leads
  have hplain : ∀ c ∈ cs', Os.Plain c := fun c hc => hcs c (hcs'.mem hc)
  have hres := hleads.resolve hs hplain
  have hdir : fs.node (resolve cwd current) = some .dir := by
    rcases hcase with ⟨hdir, -⟩ | ⟨-, cs'', c, hcs'', hleads'⟩
    · exact hdir
    · refine h.ascends.there ?_
      rw [hleads'.resolve hs fun c hc => hcs c (hcs''.mem hc)]
      exact under_append (by simp)
  cases hhalts with
  | root => exact hunclean rfl
  | busy => exact hunclean rfl
  | gone hroot hst =>
    rw [hleads.status hs h.ascends.kept hplain, ← hres, hdir] at hst
    cases hst
  | stuck hroot hl hvac herr =>
    rename_i l
    have hloc : l = resolve cwd current := by
      rw [(Fs.locate_eq_some.mp hl).2.1, h.ascends.kept.cwd_eq]
    rcases hcase with ⟨-, hnot⟩ | ⟨hio, cs'', c, hcs'', hleads'⟩
    · exact hnot (hloc ▸ hvac)
    · rcases herr with herr | herr
      · exact herr (hleads'.rmdirError (fun c hc => hcs c (hcs''.mem hc)) (by simp))
      · exact herr hio

end Rising

/-- A deletion whose pruning comes to its stop ends without an error. -/
theorem Deletes.clean (hs : Straight d cwd) (hk : Kept d cwd fs) (hn : PlainName n) {l : Loc}
    {r : EStateM.Result Throw Fs OptError} (h : Deletes d io (d.nameToPath n) l fs r)
    (hl : fs.node l ≠ none) (hends : Ends d io fs (d.nameToPath n)) : succeeded r = true := by
  obtain ⟨hloc, hascends⟩ := h.ascends hs hk hn hl
  obtain ⟨cs, c, hparts⟩ := exists_parent n
  have hleads := leads_nameToPath hs.whole hn
  have hstart : Rising d io fs (d.nameToPath n) cwd n.parts 0 (parentPath (d.nameToPath n))
      (fs.without (fs.takenAt io (d.nameToPath n) l)) := by
    refine ⟨hascends, rfl, ⟨cs, ?_, (hparts ▸ hleads).parentPath⟩, fun x hx _ htaken => ?_,
      List.prefix_rfl, fun j hj => absurd hj (Nat.not_lt_zero j)⟩
    · rw [hparts]
      exact List.prefix_append _ _
    · rw [hleads.resolve hs hn, ← hloc] at htaken
      rw [Fs.node_not_taken htaken]
      exact hx
  obtain ⟨k, current, hrising, hhalts⟩ :=
    h.prunes.keeps (I := Rising d io fs (d.nameToPath n) cwd n.parts)
    (fun k current fs' l' hI hremoves => hI.step hs hn hk.cwd_eq hends hremoves) hstart
  exact hrising.clean hs hn hk.cwd_eq hends hhalts

/-! ## Documents and their files -/

/-- The driver has a regular file for `n` in `ns`: at the path of its own plain components. -/
def HasFile (d : FileDriver) (fs : Fs) (n : Name) (ns : NamespaceId) : Prop :=
  ∃ r, virtualToRealName n ns = .ok r ∧ PlainName r ∧ d.existsDoc r fs = true

/-- The cache has the documents whose files are there. -/
structure Settled (d : FileDriver) (cwd : Loc) (s : Store Fs) : Prop where
  kept : Kept d cwd s.driver
  wf : s.cache.WF
  agree : ∀ n ns, s.cache.getNamespaceId n = some ns ↔ HasFile d s.driver n ns

section Settled

variable {s : Store Fs} {r : Name} {ns : NamespaceId} {content : Doc}

theorem plain_real (hr : virtualToRealName n ns = .ok r) (hn : PlainName n)
    (hns : PlainName ns.id) : PlainName r := by
  intro p hp
  rw [virtualToRealName_eq_ok.mp hr] at hp
  rcases List.mem_cons.mp hp with rfl | hp
  · decide
  rcases List.mem_cons.mp hp with rfl | hp
  · refine hns _ ?_
    rw [ns.parts_eq]
    exact List.mem_singleton_self _
  · exact hn p hp

theorem hasFile_iff (hs : Straight d cwd) (hk : Kept d cwd fs) : HasFile d fs n ns ↔
    ∃ r, virtualToRealName n ns = .ok r ∧ PlainName r ∧
    IsFile fs (d.rootLocation cwd ++ r.parts) := by
  refine exists_congr fun r => and_congr_right fun _ => and_congr_right fun hr => ?_
  rw [existsDoc_plain hs hk hr]

/-- A call of the driver's whose files below `namespaces` stay. -/
theorem Settled.same (hs : Straight d cwd) (h : Settled d cwd s) {fs' : Fs} (hk : Kept d cwd fs')
    (hfiles : ∀ r : Name, r.first = prefixNS.first →
      (IsFile fs' (d.rootLocation cwd ++ r.parts) ↔
        IsFile s.driver (d.rootLocation cwd ++ r.parts))) :
    Settled d cwd ⟨s.cache, fs'⟩ := by
  refine ⟨hk, h.wf, fun n ns => (h.agree n ns).trans ?_⟩
  rw [hasFile_iff hs h.kept, hasFile_iff hs hk]
  refine exists_congr fun r => and_congr_right fun hr => and_congr_right fun _ => ?_
  exact (hfiles r (Represents.real_first hr)).symm

theorem Settled.unwritten (hs : Straight d cwd) (h : Settled d cwd s) {fs' : Fs}
    (hunwritten : Unwritten d cwd s.driver fs') : Settled d cwd ⟨s.cache, fs'⟩ :=
  h.same hs hunwritten.kept fun _ _ => hunwritten.files _

theorem resultState_finish (s : Store Fs) (cache : DBDocNames)
    (r : EStateM.Result Throw Fs OptError) :
    resultState (finish s cache r) = ⟨if succeeded r = true then cache
      else s.cache, resultState r⟩ := by
  rcases r with ⟨_ | e, t⟩ | ⟨e, t⟩ <;> rfl

/-- What `createDoc` of the driver leaves of a store that did not know the name. -/
theorem Settled.created (hs : Straight d cwd) (h : Settled d cwd s)
    (hfree : s.cache.existsName n = false) (hr : virtualToRealName n ns = .ok r)
    (hplain : PlainName r) :
    Settled d cwd
      (resultState (finish s (s.cache.add n ns).2 ((createDoc d io r content).run s.driver))) := by
  rw [resultState_finish]
  rcases createDoc_plain hs h.kept hplain content io with ⟨hyes, -, -, hwrote⟩ | ⟨hno, hunwritten⟩
  swap
  · rw [if_neg (by rw [hno]; exact Bool.false_ne_true)]
    exact h.unwritten hs hunwritten
  rw [if_pos hyes]
  refine ⟨hwrote.kept, h.wf.add, fun n' ns' => ?_⟩
  have hnone : s.cache.getNamespaceId n = none := 
    Option.not_isSome_iff_eq_none.mp (Bool.eq_false_iff.mp hfree)
  show (s.cache.add n ns).2.getNamespaceId n' = some ns' ↔ HasFile d _ n' ns'
  rw [DBDocNames.lookup_add hfree, hasFile_iff hs hwrote.kept]
  have hnew : ∀ r', virtualToRealName n' ns' = .ok r' →
      (IsFile (resultState ((createDoc d io r content).run s.driver))
        (d.rootLocation cwd ++ r'.parts) ↔
        IsFile s.driver (d.rootLocation cwd ++ r'.parts) ∨ n' = n ∧ ns' = ns) := by
    intro r' hr'
    rw [hwrote.files, List.append_cancel_left_eq]
    refine or_congr_right ⟨fun heq => ?_, ?_⟩
    · rw [Name.ext heq] at hr'
      exact virtualToRealName_inj hr' hr
    · rintro ⟨rfl, rfl⟩
      cases hr'.symm.trans hr
      rfl
  by_cases hn : n' = n
  · subst hn
    rw [if_pos rfl, Option.some.injEq]
    constructor
    · rintro rfl
      exact ⟨r, hr, hplain, (hnew r hr).mpr (.inr ⟨rfl, rfl⟩)⟩
    · rintro ⟨r', hr', hplain', hfile⟩
      rcases (hnew r' hr').mp hfile with hold | ⟨-, heq⟩
      · have hknown := (h.agree n' ns').mpr ((hasFile_iff hs h.kept).mpr ⟨r', hr', hplain', hold⟩)
        rw [hnone] at hknown
        cases hknown
      · exact heq.symm
  · rw [if_neg hn, h.agree, hasFile_iff hs h.kept]
    refine exists_congr fun r' => and_congr_right fun hr' => and_congr_right fun _ => ?_
    rw [hnew r' hr']
    exact ⟨.inl, fun hor => hor.resolve_right fun heq => hn heq.1⟩

/-- A deletion of the driver's that takes the files of the names the cache drops, and tells so. -/
theorem Settled.removed (hs : Straight d cwd) (h : Settled d cwd s) {cache : DBDocNames}
    (hwf : cache.WF) {fs' : Fs} (hk : Kept d cwd fs') (gone : Name → NamespaceId → Prop)
    (hcache : ∀ n ns, cache.getNamespaceId n = some ns ↔ s.cache.getNamespaceId n = some ns ∧
      ¬ gone n ns)
    (hfiles : ∀ n ns r, virtualToRealName n ns = .ok r → PlainName r →
      (IsFile fs' (d.rootLocation cwd ++ r.parts) ↔
      IsFile s.driver (d.rootLocation cwd ++ r.parts) ∧ ¬ gone n ns)) :
      Settled d cwd ⟨cache, fs'⟩ := by
  refine ⟨hk, hwf, fun n ns => ?_⟩
  show cache.getNamespaceId n = some ns ↔ HasFile d fs' n ns
  rw [hcache, h.agree, hasFile_iff hs h.kept, hasFile_iff hs hk]
  constructor
  · rintro ⟨⟨r, hr, hplain, hfile⟩, hkept⟩
    exact ⟨r, hr, hplain, (hfiles n ns r hr hplain).mpr ⟨hfile, hkept⟩⟩
  · rintro ⟨r, hr, hplain, hfile⟩
    obtain ⟨hold, hkept⟩ := (hfiles n ns r hr hplain).mp hfile
    exact ⟨⟨r, hr, hplain, hold⟩, hkept⟩

/-! ## The calls of the store -/

theorem createDoc_settled (hs : Straight d cwd) (h : Settled d cwd s) (hn : PlainName n)
    (hns : PlainName ns.id) :
    Settled d cwd (resultState ((Store.createDoc (d.driver io) n ns content).run s)) := by
  rw [run_createDoc]
  split
  · exact h
  rename_i hfree
  cases hr : virtualToRealName n ns with
  | error e => exact h
  | ok r => exact h.created hs (Bool.eq_false_iff.mpr hfree) hr (plain_real hr hn hns)

theorem updateDoc_settled (hs : Straight d cwd) (h : Settled d cwd s) :
    Settled d cwd (resultState ((Store.updateDoc (d.driver io) n content).run s)) := by
  rw [Store.run_updateDoc]
  cases hns : s.cache.getNamespaceId n with
  | none => exact h
  | some ns =>
    obtain ⟨r, hr, hplain, -⟩ := (h.agree n ns).mp hns
    simp only [hr]
    rw [resultState_finish, ite_self]
    exact h.unwritten hs (updateDoc_plain hs h.kept hplain content io).1

theorem upsertDoc_settled (hs : Straight d cwd) (h : Settled d cwd s) (hn : PlainName n)
    (hns : PlainName ns.id) :
    Settled d cwd (resultState ((Store.upsertDoc (d.driver io) n ns content).run s)) := by
  rw [run_upsertDoc]
  split
  · exact h
  rename_i hother
  cases hr : virtualToRealName n ns with
  | error e => exact h
  | ok r =>
    have hplain := plain_real hr hn hns
    show Settled d cwd (resultState (finish s _ ((upsertDoc d io r content).run s.driver)))
    unfold upsertDoc
    rw [EStateM.run_bind, EStateM.run_get]
    simp only
    -- the driver updates what the cache knows in this namespace, and creates what it does not know
    split
    · rename_i hex
      have hknown := (h.agree n ns).mpr ⟨r, hr, hplain, hex⟩
      have hadd : (s.cache.add n ns).2 = s.cache :=
        DBDocNames.add_of_exists (congrArg Option.isSome hknown)
      rw [hadd, resultState_finish, ite_self]
      exact h.unwritten hs (updateDoc_plain hs h.kept hplain content io).1
    · rename_i hex
      refine h.created hs ?_ hr hplain
      refine Bool.eq_false_iff.mpr fun hknown => hex ?_
      obtain ⟨ns', hns'⟩ := Option.isSome_iff_exists.mp hknown
      have heq : s.cache.getNamespaceId n = some ns := by
        by_contra hne
        exact hother ⟨hknown, hne⟩
      obtain ⟨r', hr', -, hex'⟩ := (h.agree n ns).mp heq
      cases hr.symm.trans hr'
      exact hex'

/-- A whole deletion takes all files at or below its path, and succeeds. -/
theorem Deletes.whole (hs : Straight d cwd) (hk : Kept d cwd fs) (hn : PlainName n) {l : Loc}
    {r : EStateM.Result Throw Fs OptError} (h : Deletes d io (d.nameToPath n) l fs r)
    (hl : fs.node l ≠ none) (hwhole : Whole d io fs (d.nameToPath n)) :
    succeeded r = true ∧ Kept d cwd (resultState r) ∧
      ∀ cs, IsFile (resultState r) (d.rootLocation cwd ++ cs) ↔
        IsFile fs (d.rootLocation cwd ++ cs) ∧ ¬ n.parts <+: cs := by
  obtain ⟨hloc, -⟩ := h.ascends hs hk hn hl
  obtain ⟨hkept, hfiles⟩ := h.files hs hk hn hl
  refine ⟨h.clean hs hk hn hl hwhole.ends, hkept, fun cs => ?_⟩
  have htaken := hwhole.taken (d.rootLocation cwd ++ cs)
  rw [hk.cwd_eq, (leads_nameToPath hs.whole hn).resolve hs hn, ← hloc] at htaken
  rw [hfiles]
  refine and_congr_right fun hfile => not_congr ⟨fun ht => ?_, fun hp => htaken hfile ?_⟩
  · have hin := ht.inside
    rwa [hloc, List.prefix_append_right_inj] at hin
  · rwa [hloc, List.prefix_append_right_inj]

theorem deleteDoc_settled (hs : Straight d cwd) (h : Settled d cwd s)
    (hwhole : ∀ ns r, s.cache.getNamespaceId n = some ns → virtualToRealName n ns = .ok r →
      Whole d io s.driver (d.nameToPath r)) :
    Settled d cwd (resultState ((Store.deleteDoc (d.driver io) n).run s)) := by
  rw [run_deleteDoc]
  cases hns : s.cache.getNamespaceId n with
  | none => exact h
  | some ns =>
    obtain ⟨r, hr, hplain, hex⟩ := (h.agree n ns).mp hns
    have hfile := (existsDoc_plain hs h.kept hplain).mp hex
    simp only [hr]
    rcases deleteDoc_cases d io r s.driver with ⟨hno, -⟩ | ⟨l, text, hl, hdeletes⟩
    · rw [hex] at hno
      cases hno
    obtain ⟨hyes, hkept, hfiles⟩ :=
      hdeletes.whole hs h.kept hplain (by rw [hl]; exact Option.some_ne_none _) (hwhole ns r hns hr)
    show Settled d cwd (resultState (finish s _ ((deleteDoc d io r).run s.driver)))
    rw [resultState_finish, if_pos hyes]
    refine h.removed hs h.wf.del hkept (fun n' _ => n' = n)
      (fun n' ns' => ?_) fun n' ns' r' hr' hplain' => ?_
    · rw [DBDocNames.lookup_del h.wf]
      by_cases heq : n' = n <;> simp [heq]
    · rw [hfiles]
      refine and_congr_right fun hfile' => not_congr ⟨fun hp => ?_, ?_⟩
      · -- below a file there are no others
        by_cases hsame : r.parts = r'.parts
        · rw [Name.ext hsame] at hr
          exact (virtualToRealName_inj hr' hr).1
        · have habove := (List.prefix_append_right_inj (d.rootLocation cwd)).mpr hp
          refine absurd (h.kept.tree.dir_above hfile'.exists habove ?_) hfile.not_dir
          simpa using hsame
      · rintro rfl
        have hns' := (h.agree n' ns').mpr ((hasFile_iff hs h.kept).mpr ⟨r', hr', hplain', hfile'⟩)
        rw [hns, Option.some.injEq] at hns'
        subst hns'
        cases hr.symm.trans hr'
        exact List.prefix_rfl

theorem deleteCol_settled (hs : Straight d cwd) (h : Settled d cwd s)
    (hwhole : s.cache.filterByPrefix n ns ≠ [] → ∀ r, virtualToRealName n ns = .ok r →
      d.existsCol r s.driver = true → Whole d io s.driver (d.nameToPath r)) :
    Settled d cwd (resultState ((Store.deleteCol (d.driver io) n ns).run s)) := by
  rw [run_deleteCol]
  split
  · exact h
  rename_i hsome
  cases hr : virtualToRealName n ns with
  | error e => exact h
  | ok r =>
    show Settled d cwd (resultState (finish s _ ((deleteCol d io r).run s.driver)))
    -- a name below is in the cache, so the collection's name is plain
    obtain ⟨m, hm⟩ := List.exists_mem_of_ne_nil _ hsome
    obtain ⟨hmns, hbelow⟩ := h.wf.mem_filterByPrefix.mp hm
    obtain ⟨rm, hrm, hmplain, -⟩ := (h.agree m ns).mp hmns
    have hplain : PlainName r :=
      fun p hp => hmplain p (((below_real_iff hr hrm).mpr ⟨rfl, hbelow⟩).1.mem hp)
    rcases deleteCol_cases d io r s.driver with ⟨-, e, hrun⟩ | ⟨l, hl, hdeletes⟩
    · rw [hrun]
      exact h
    have hcol : d.existsCol r s.driver = true :=
      existsCol_iff.mpr (Option.bind_eq_some_iff.mpr ⟨l, hdeletes.located, hl⟩)
    obtain ⟨hyes, hkept, hfiles⟩ :=
      hdeletes.whole hs h.kept hplain (by rw [hl]; exact Option.some_ne_none _)
        (hwhole hsome r hr hcol)
    rw [resultState_finish, if_pos hyes]
    refine h.removed hs h.wf.delCol hkept (fun n' ns' => ns' = ns ∧ n.Below n') (fun n' ns' => ?_)
      fun n' ns' r' hr' _ => ?_
    · rw [DBDocNames.lookup_delCol h.wf]
      by_cases hb : s.cache.getNamespaceId n' = some ns ∧ n.Below n'
      · rw [if_pos hb, hb.1, Option.some.injEq]
        refine ⟨fun hno => ?_, fun hstay => absurd ⟨hstay.1.symm, hb.2⟩ hstay.2⟩
        cases hno
      · rw [if_neg hb]
        refine ⟨fun heq => ⟨heq, fun hgone => hb ⟨?_, hgone.2⟩⟩, fun heq => heq.1⟩
        rw [heq, hgone.1]
    · rw [hfiles]
      refine and_congr_right fun hfile => not_congr ⟨fun hp => ?_, fun hgone => ?_⟩
      · -- the collection itself is no file
        have hne : r.parts ≠ r'.parts := by
          intro heq
          rw [← heq, ← existsDoc_plain hs h.kept hplain] at hfile
          exact not_both d r s.driver ⟨hfile, hcol⟩
        have hb : r.Below r' :=
          ⟨hp, lt_of_le_of_ne hp.length_le fun hlen => hne (hp.eq_of_length hlen)⟩
        obtain ⟨hns, hb⟩ := (below_real_iff hr hr').mp hb
        exact ⟨hns.symm, hb⟩
      · exact ((below_real_iff hr hr').mpr ⟨hgone.1.symm, hgone.2⟩).1

/-! ## Internal documents -/

/-- What lies at or below a name lies under the same first part. -/
theorem first_of_beginning {a b : Name} (h : a.parts <+: b.parts) : a.first = b.first := by
  obtain ⟨t, ht⟩ := h
  unfold Name.first
  simp only [← ht]
  exact (List.head_append_of_ne_nil a.parts_ne).symm

/-- An internal write is refused, or touches no file below `namespaces`. -/
theorem internalWrite_settled (hs : Straight d cwd) (h : Settled d cwd s) (verb : String)
    {x : Call Fs OptError}
    (hx : n.first ≠ prefixNS.first → Kept d cwd (resultState (x.run s.driver)) ∧
      ∀ r : Name, r.first = prefixNS.first →
      (IsFile (resultState (x.run s.driver)) (d.rootLocation cwd ++ r.parts) ↔
        IsFile s.driver (d.rootLocation cwd ++ r.parts))) :
    Settled d cwd (resultState ((internalWrite verb n x).run s)) := by
  rw [run_internalWrite]
  unfold internalNameError
  split
  · rename_i e he
    exact h
  · rename_i he
    obtain ⟨hkept, hfiles⟩ := hx (by
      intro hfirst
      rw [if_pos hfirst] at he
      cases he)
    rw [resultState_finish, ite_self]
    exact h.same hs hkept hfiles

theorem createDoc_outside (hs : Straight d cwd) (hk : Kept d cwd fs) (hn : PlainName n)
    (hfirst : n.first ≠ prefixNS.first) (content : Doc) :
    Kept d cwd (resultState ((createDoc d io n content).run fs)) ∧
      ∀ r : Name, r.first = prefixNS.first →
        (IsFile (resultState ((createDoc d io n content).run fs)) (d.rootLocation cwd ++ r.parts) ↔
          IsFile fs (d.rootLocation cwd ++ r.parts)) := by
  rcases createDoc_plain hs hk hn content io with ⟨-, -, -, hwrote⟩ | ⟨-, hunwritten⟩
  · refine ⟨hwrote.kept, fun r hr => ?_⟩
    rw [hwrote.files, List.append_cancel_left_eq]
    refine ⟨fun hor => hor.resolve_right fun heq => hfirst ?_, .inl⟩
    rw [← Name.ext heq, hr]
  · exact ⟨hunwritten.kept, fun r _ => hunwritten.files _⟩

theorem updateDoc_outside (hs : Straight d cwd) (hk : Kept d cwd fs) (hn : PlainName n)
    (content : Doc) : Kept d cwd (resultState ((updateDoc d io n content).run fs)) ∧
      ∀ r : Name, r.first = prefixNS.first →
        (IsFile (resultState ((updateDoc d io n content).run fs)) (d.rootLocation cwd ++ r.parts) ↔
          IsFile fs (d.rootLocation cwd ++ r.parts)) := by
  have hunwritten := (updateDoc_plain hs hk hn content io).1
  exact ⟨hunwritten.kept, fun r _ => hunwritten.files _⟩

theorem deleteDoc_outside (hs : Straight d cwd) (hk : Kept d cwd fs) (hn : PlainName n)
    (hfirst : n.first ≠ prefixNS.first) :
    Kept d cwd (resultState ((deleteDoc d io n).run fs)) ∧
      ∀ r : Name, r.first = prefixNS.first →
        (IsFile (resultState ((deleteDoc d io n).run fs)) (d.rootLocation cwd ++ r.parts) ↔
          IsFile fs (d.rootLocation cwd ++ r.parts)) := by
  rcases deleteDoc_cases d io n fs with ⟨-, e, hrun⟩ | ⟨l, text, hl, hdeletes⟩
  · rw [hrun]
    exact ⟨hk, fun _ _ => .rfl⟩
  have hthere : fs.node l ≠ none := by
    rw [hl]
    exact Option.some_ne_none _
  obtain ⟨hloc, -⟩ := hdeletes.ascends hs hk hn hthere
  obtain ⟨hkept, hfiles⟩ := hdeletes.files hs hk hn hthere
  refine ⟨hkept, fun r hr => ?_⟩
  rw [hfiles, and_iff_left]
  intro htaken
  have hin := htaken.inside
  rw [hloc, List.prefix_append_right_inj] at hin
  exact hfirst ((first_of_beginning hin).trans hr)

end Settled

/-! ## Every run -/

/-- The condition on a step: what is written has plain components, and what is deleted is deleted
whole. -/
def Undivided (d : FileDriver) (s : Store Fs) : Store.Op × Io → Prop
  | (.createDoc name ns _, _) | (.upsertDoc name ns _, _) => PlainName name ∧ PlainName ns.id
  | (.updateDoc _ _, _) => True
  | (.deleteDoc name, io) =>
    ∀ ns r, s.cache.getNamespaceId name = some ns → virtualToRealName name ns = .ok r →
    Whole d io s.driver (d.nameToPath r)
  | (.deleteCol name ns, io) =>
    s.cache.filterByPrefix name ns ≠ [] → ∀ r, virtualToRealName name ns = .ok r →
    d.existsCol r s.driver = true → Whole d io s.driver (d.nameToPath r)
  | (.createInternalDoc name _, _) | (.updateInternalDoc name _, _) | (.upsertInternalDoc name _, _)
  | (.deleteInternalDoc name, _) => PlainName name

/-- The runs of a store over the driver, from a store in agreement, however the system calls go. -/
def storeRuns (d : FileDriver) : System (Store Fs) (Store.Op × Io) where
  init s := ∃ cwd, Straight d cwd ∧ Settled d cwd s
  step s l s' := s' = resultState ((Store.exec (d.driver l.2) l.1).run s)

theorem settled_inductive (d : FileDriver) : ((storeRuns d).guarded (Undivided d)).Inductive
    fun s => ∃ cwd, Straight d cwd ∧ Settled d cwd s where
  init _ h := h
  step s l s' := by
    rintro ⟨cwd, hs, h⟩ ⟨hl, rfl⟩
    refine ⟨cwd, hs, ?_⟩
    obtain ⟨op, io⟩ := l
    cases op with
    | createDoc name ns content => exact createDoc_settled hs h hl.1 hl.2
    | updateDoc name content => exact updateDoc_settled hs h
    | upsertDoc name ns content => exact upsertDoc_settled hs h hl.1 hl.2
    | deleteDoc name => exact deleteDoc_settled hs h hl
    | deleteCol name ns => exact deleteCol_settled hs h hl
    | createInternalDoc name content =>
      exact internalWrite_settled hs h _ fun hfirst => createDoc_outside hs h.kept hl hfirst content
    | updateInternalDoc name content =>
      exact internalWrite_settled hs h _ fun _ => updateDoc_outside hs h.kept hl content
    | upsertInternalDoc name content =>
      refine internalWrite_settled hs h _ fun hfirst => ?_
      rw [EStateM.run_bind, EStateM.run_get]
      simp only
      split
      · exact updateDoc_outside hs h.kept hl content
      · exact createDoc_outside hs h.kept hl hfirst content
    | deleteInternalDoc name =>
      exact internalWrite_settled hs h _ fun hfirst => deleteDoc_outside hs h.kept hl hfirst

/-- The store's answers are those of the files. -/
def CacheAgrees (d : FileDriver) (s : Store Fs) : Prop :=
  ∀ n, (Store.existsDoc s n = true ↔ ∃ ns, HasFile d s.driver n ns) ∧
    ∀ ns, Store.getNamespace s n = some ns ↔ HasFile d s.driver n ns

/-- In every run whose steps meet the condition, `existsDoc` holds exactly of the names whose file
is there. -/
theorem cache_agrees (d : FileDriver) (s : Store Fs)
    (h : ((storeRuns d).guarded (Undivided d)).Reachable s) : CacheAgrees d s := by
  obtain ⟨cwd, -, hsettled⟩ := (settled_inductive d).holds h
  refine fun n => ⟨?_, hsettled.agree n⟩
  show (s.cache.getNamespaceId n).isSome = true ↔ _
  rw [Option.isSome_iff_exists]
  exact exists_congr fun ns => hsettled.agree n ns

/-! ## A new store -/

/-- The constructor over an empty root loads nothing, and leaves a store in agreement. -/
theorem fresh_settled (hwhole : Char.ofNat 0 ∉ d.path.toList) (hconstructed : Constructed d fs)
    (hempty : ∀ x, Under d fs.cwd x → fs.node x = none) (io : Io) (fuel : Nat) :
    (Store.construct (d.driver io) fs fuel).run ⟨.empty, []⟩ = .ok () ⟨.empty, []⟩ ∧
      Straight d fs.cwd ∧ Settled d fs.cwd ⟨.empty, fs⟩ := by
  obtain ⟨hs, hshape⟩ := hconstructed.shape hwhole hempty
  have hplain : PlainName prefixNS := by
    intro p hp
    rw [List.mem_singleton.mp hp]
    decide
  have hcol : d.existsCol prefixNS fs = false := by
    refine Bool.eq_false_iff.mpr fun hcol => ?_
    rw [existsCol_plain hs hshape.kept hplain, hempty _ (under_append prefixNS.parts_ne)] at hcol
    cases hcol
  refine ⟨?_, hs, hshape.kept, .empty, fun n ns => ⟨fun hn => ?_, fun hn => ?_⟩⟩
  · have hdriver : (d.driver io).existsCol = d.existsCol := rfl
    unfold Store.construct
    rw [hdriver, hcol, if_neg Bool.false_ne_true]
    rfl
  · cases hn
  · obtain ⟨r, -, -, hfile⟩ := (hasFile_iff hs hshape.kept).mp hn
    exact absurd (hempty _ (under_append r.parts_ne)) hfile.exists

section Sample

/-- The store after a document was created two levels down. -/
def stored : Store Fs :=
  resultState
    ((Store.createDoc ((rootedDriver "/store").driver .calm) nestedName systemNs .null).run
      ⟨.empty, emptyRoot⟩)

theorem stored_reachable :
    ((storeRuns (rootedDriver "/store")).guarded (Undivided (rootedDriver "/store"))).Reachable
    stored := by
  have hplain : ∀ p ∈ nestedName.parts, Os.Plain p := by decide
  have hns : ∀ p ∈ systemNs.id.parts, Os.Plain p := by decide
  refine .step (l := (.createDoc nestedName systemNs .null, .calm)) (.init ⟨[], ?_⟩)
    ⟨⟨hplain, hns⟩, rfl⟩
  have hconstructed :=
    constructed_of_status (d := rootedDriver "/store") emptyRoot_tree (by decide +kernel)
  exact (fresh_settled (by decide) hconstructed (fun _ => emptyRoot_empty) .calm 0).2

/-- The store after the document was deleted. -/
def cleared (io : Io) : Store Fs :=
  resultState ((Store.deleteDoc ((rootedDriver "/store").driver io) nestedName).run stored)

/-- No system call fails, and the pruning comes to the root path. -/
theorem cache_agrees_cleared : CacheAgrees (rootedDriver "/store") (cleared .calm) := by
  refine cache_agrees (rootedDriver "/store") (cleared .calm) ?_
  refine .step (l := (.deleteDoc nestedName, .calm)) stored_reachable ⟨fun ns r hns hr => ?_, rfl⟩
  have hsystem : stored.cache.getNamespaceId nestedName = some systemNs := by decide +kernel
  rw [hsystem, Option.some.injEq] at hns
  subst hns
  have hparts := virtualToRealName_eq_ok.mp hr
  have hpath : (rootedDriver "/store").nameToPath r = "/store/namespaces/system/a/b" := by
    unfold nameToPath
    rw [hparts]
    decide +kernel
  rw [hpath]
  refine ⟨fun x _ hx => ⟨hx, .inr (by decide +kernel), fun gone ec hgone => ?_⟩, 3,
    .inl (by decide +kernel), fun j hj => ⟨rfl, ?_⟩⟩
  · cases hgone
  · revert j
    decide +kernel

/-- The removal of an emptied directory fails. -/
def rmdirFails : Io := { Io.calm with rmdir := fun _ => some ⟨13, "Permission denied"⟩ }

/-- `remove_all` fails and has removed nothing. -/
def removeAllFails : Io := { Io.calm with removeAll := some ([], ⟨13, "Permission denied"⟩) }

/-- A deletion that fails after the file is gone keeps the name; one that leaves the file drops
it. -/
theorem cache_disagrees :
    (∃ s, (storeRuns (rootedDriver "/store")).Reachable s ∧ Store.existsDoc s nestedName = true ∧
      ∀ ns, ¬ HasFile (rootedDriver "/store") s.driver nestedName ns) ∧
    ∃ s, (storeRuns (rootedDriver "/store")).Reachable s ∧ Store.existsDoc s nestedName = false ∧
      HasFile (rootedDriver "/store") s.driver nestedName systemNs := by
  have hkept : Store.existsDoc (cleared rmdirFails) nestedName = true ∧
      ∀ e ∈ (cleared rmdirFails).driver.nodes.entries, e.2 = .dir := by decide +kernel
  refine ⟨⟨cleared rmdirFails, ?_, hkept.1, ?_⟩,
    ⟨cleared removeAllFails, ?_, by decide +kernel, ?_⟩⟩
  · exact .step (l := (.deleteDoc nestedName, rmdirFails)) stored_reachable.of_guarded rfl
  · rintro ns ⟨r, -, -, hex⟩
    obtain ⟨text, hst⟩ := existsDoc_iff.mp hex
    obtain ⟨l, -, hne, hnode⟩ := Fs.status_eq_file hst
    unfold Fs.node at hnode
    rw [if_neg hne, ← Option.mem_def, AList.mem_lookup_iff] at hnode
    cases hkept.2 _ hnode
  · exact .step (l := (.deleteDoc nestedName, removeAllFails)) stored_reachable.of_guarded rfl
  · refine ⟨⟨["namespaces", "system", "a",
      "b"], by decide, by decide, by decide⟩, by decide +kernel, ?_, by decide +kernel⟩
    have hplain : ∀ p ∈ ["namespaces", "system", "a", "b"], Os.Plain p := by decide
    exact hplain

end Sample

end FileDriver

end DistroDefender.Store
