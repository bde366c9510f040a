import DistroDefender.Store.LongNames
import DistroDefender.Store.RealNames

/-!
# Listing a collection

`Store::readCol` filters the cache, cuts the names one part below the collection and puts them in an
ordered set. In every store the constructor can build, and after any calls, that is an exact listing
of the documents of the store (`listsExactly`). The driver lists the collection of the real name
from its own tree; the two agree as long as the cache and the driver are in step
(`Holds.listsAsDriver`). A constructor over a clean driver leaves them in step (`Clean.holds`): one
that holds no name in two namespaces, where the second document is ignored, and no namespace with a
separator in its name, which is read as another one.
-/

namespace DistroDefender.Store

open Base Lib

variable {σ : Type}

/-! ## The listing of the store -/

/-- `c` lists the documents of `ns`: an error when none lies strictly below it, and otherwise its
children that are a document of `ns` or the beginning of one, in increasing order. -/
structure ListsExactly (s : Store σ) (c : Name) (ns : NamespaceId) : Prop where
  refuses : (∃ e, readCol s c ns = .error e) ↔ ¬ ∃ n, getNamespace s n = some ns ∧ c.Below n
  lists : ∀ col, readCol s c ns = .ok col → col.Pairwise (· < ·) ∧
    ∀ k, k ∈ col ↔ ChildOf k c ∧ ∃ n, getNamespace s n = some ns ∧ (k = n ∨ k.Below n)

theorem beginning_iff {k n : Name} : k = n ∨ k.Below n ↔ k.parts <+: n.parts := by
  constructor
  · rintro (rfl | h)
    · exact List.prefix_rfl
    · exact h.1
  · intro h
    rcases h.length_le.eq_or_lt with heq | hlt
    · exact .inl (Name.ext (h.eq_of_length heq))
    · exact .inr ⟨h, hlt⟩

theorem childOf_takeParts {c n : Name} (h : c.Below n) : ChildOf (takeParts n c.parts.length) c :=
  ⟨List.prefix_take_iff.mpr ⟨h.1, Nat.le_succ _⟩, List.length_take_of_le h.2⟩

/-- A child of `c` that begins a name is the cut of that name. -/
theorem takeParts_of_childOf {c k n : Name} (hk : ChildOf k c) (hn : k.parts <+: n.parts) :
    takeParts n c.parts.length = k := by
  refine Name.ext ?_
  show n.parts.take (c.parts.length + 1) = k.parts
  rw [← hk.2]
  exact (List.prefix_iff_eq_take.mp hn).symm

theorem below_of_childOf {c k n : Name} (hk : ChildOf k c) (hn : k.parts <+: n.parts) : c.Below n :=
  ⟨hk.1.trans hn, Nat.lt_of_lt_of_le (by rw [hk.2]; exact Nat.lt_succ_self _) hn.length_le⟩

theorem mem_cutName {names : List Name} {c k : Name} (hnames : ∀ n ∈ names, c.Below n) :
    k ∈ cutName names c.parts.length ↔ ChildOf k c ∧ ∃ n ∈ names, k.parts <+: n.parts := by
  unfold cutName
  rw [mem_sortedSet, List.mem_map]
  constructor
  · rintro ⟨n, hn, rfl⟩
    have hmem := (List.mem_filter.mp hn).1
    exact ⟨childOf_takeParts (hnames n hmem), n, hmem, List.take_prefix _ _⟩
  · rintro ⟨hk, n, hn, hkn⟩
    refine ⟨n, List.mem_filter.mpr ⟨hn, decide_eq_true ?_⟩, takeParts_of_childOf hk hkn⟩
    exact (below_of_childOf hk hkn).2

section Cache

variable {s : Store σ} {c : Name} {ns : NamespaceId}

theorem mem_filter_iff (h : s.cache.WF) {n : Name} :
    n ∈ s.cache.filterByPrefix c ns ↔ getNamespace s n = some ns ∧ c.Below n := h.mem_filterByPrefix

theorem readCol_error_iff (h : s.cache.WF) :
    (∃ e, readCol s c ns = .error e) ↔ ¬ ∃ n, getNamespace s n = some ns ∧ c.Below n := by
  have hnil : s.cache.filterByPrefix c ns = [] ↔ ¬ ∃ n, getNamespace s n = some ns ∧ c.Below n := by
    rw [List.eq_nil_iff_forall_not_mem, not_exists]
    exact forall_congr' fun n => not_congr (mem_filter_iff h)
  rw [← hnil]
  unfold readCol
  constructor
  · rintro ⟨e, he⟩
    by_contra hne
    rw [if_neg hne] at he
    cases he
  · intro hempty
    rw [if_pos hempty]
    exact ⟨_, rfl⟩

theorem readCol_ok (h : s.cache.WF) {col : Col} (hcol : readCol s c ns = .ok col) :
    col.Pairwise (· < ·) ∧
      ∀ k, k ∈ col ↔ ChildOf k c ∧ ∃ n, getNamespace s n = some ns ∧ k.parts <+: n.parts := by
  unfold readCol at hcol
  simp only at hcol
  split at hcol
  · cases hcol
  cases hcol
  refine ⟨pairwise_sortedSet _, fun k => ?_⟩
  rw [mem_cutName fun n hn => ((mem_filter_iff h).mp hn).2]
  refine and_congr_right fun hk => exists_congr fun n => ?_
  rw [mem_filter_iff h, and_assoc]
  exact and_congr_right fun _ => and_iff_right_of_imp (below_of_childOf hk)

theorem listsExactly_of_wf (h : s.cache.WF) (c : Name) (ns : NamespaceId) :
    ListsExactly s c ns where
  refuses := readCol_error_iff h
  lists col hcol := by
    simp only [beginning_iff]
    exact readCol_ok h hcol

end Cache

/-- Every store lists exactly, whatever the driver and whatever the constructor found in it. -/
theorem listsExactly {d : IDriver σ} {s : Store σ} (h : (stores d).Reachable s) (c : Name)
    (ns : NamespaceId) :
    ListsExactly s c ns := listsExactly_of_wf ((known_inductive d).holds h).wf c ns

/-! ## The listing of the driver -/

/-- A driver where reading what is no collection is an error. -/
structure ListDriver (σ : Type) extends ColDriver σ where
  readCol_of_not_exists : ∀ s c, existsCol c s = false → ∃ e, readCol c s = .ok (.error e)

theorem MemTree.readCol_of_not_exists (t : MemTree) (c : Name)
    (h : memDriver.existsCol c t = false) : ∃ e, memDriver.readCol c t = .ok (.error e) := by
  have hempty : (!(t.children c).isEmpty) = false := h
  rw [Bool.not_eq_false', List.isEmpty_iff] at hempty
  exact ⟨_, if_pos hempty⟩

/-- The driver in memory. -/
def memListDriver : ListDriver MemTree where
  toColDriver := memDriver
  readCol_of_not_exists := MemTree.readCol_of_not_exists

/-- The store and the driver list alike: both refuse, or the driver's list is the store's under real
names. -/
inductive Agree (ns : NamespaceId) : RespOrError Col → RespOrError Col → Prop
  | refused (e e' : Error) : Agree ns (.error e) (.error e')
  | listed {col l : Col} (h : (col.map fun v => virtualToRealName v ns).Perm (l.map .ok)) :
      Agree ns (.ok col) (.ok l)

/-- The listing of `c` in `ns` is the driver's listing of the real name of `c`; a name without one
lists nothing. -/
def ListsAsDriver (d : IDriver σ) (s : Store σ) (c : Name) (ns : NamespaceId) : Prop :=
  match virtualToRealName c ns with
  | .ok r => ∃ a, d.readCol r s.driver = .ok a ∧ Agree ns (readCol s c ns) a
  | .error _ => ∃ e, readCol s c ns = .error e

theorem prefix_real_iff {c v rc rv : Name} {a b : NamespaceId} (hc : virtualToRealName c a = .ok rc)
    (hv : virtualToRealName v b = .ok rv) :
    rc.parts <+: rv.parts ↔ a = b ∧ c.parts <+: v.parts := by
  rw [virtualToRealName_eq_ok.mp hc, virtualToRealName_eq_ok.mp hv]
  simp only [List.cons_prefix_cons, true_and, NamespaceId.str_inj]

theorem childOf_real_iff {c v rc rv : Name} {ns : NamespaceId}
    (hc : virtualToRealName c ns = .ok rc) (hv : virtualToRealName v ns = .ok rv) :
    ChildOf rv rc ↔ ChildOf v c := by
  unfold ChildOf
  rw [prefix_real_iff hc hv, virtualToRealName_eq_ok.mp hc, virtualToRealName_eq_ok.mp hv]
  simp only [true_and, List.length_cons, Nat.add_right_cancel_iff]

/-- What lies at or below a child of a real name is a real name, and so is the child. -/
theorem exists_real_of_childOf {c v r rv k : Name} {ns ns' : NamespaceId}
    (hc : virtualToRealName c ns = .ok r) (hv : virtualToRealName v ns' = .ok rv) (hk : ChildOf k r)
    (hkv : k.parts <+: rv.parts) :
    ns' = ns ∧ c.Below v ∧ virtualToRealName (takeParts v c.parts.length) ns = .ok k := by
  obtain ⟨rfl, hbelow⟩ := (below_real_iff hc hv).mp (below_of_childOf hk hkv)
  refine ⟨rfl, hbelow, virtualToRealName_eq_ok.mpr ?_⟩
  have hparts := congrArg Name.parts (takeParts_of_childOf hk hkv)
  rw [← hparts]
  show rv.parts.take (r.parts.length + 1) = _
  rw [virtualToRealName_eq_ok.mp hv, virtualToRealName_eq_ok.mp hc]
  rfl

section Holds

variable {d : ListDriver σ} {s : Store σ} {m : DocMap} {c r : Name} {ns : NamespaceId}

theorem Holds.existsCol_iff (h : Holds d.toTreeDriver s m) (hr : virtualToRealName c ns = .ok r) :
    d.existsCol r s.driver = true ↔ ∃ n, getNamespace s n = some ns ∧ c.Below n := by
  rw [d.existsCol_iff]
  constructor
  · rintro ⟨x, hx, hbelow⟩
    have hfirst := (first_eq_of_beginning hbelow.1).trans (Represents.real_first hr)
    obtain ⟨v, ns', hreal, -, hown⟩ := h.owner_of_doc hfirst hx
    obtain ⟨rfl, hb⟩ := (below_real_iff hr hreal).mp hbelow
    exact ⟨v, (h.cached v).trans hown, hb⟩
  · rintro ⟨n, hn, hb⟩
    obtain ⟨x, hreal, -, hx⟩ := h.real_of_owner ((h.cached n).symm.trans hn)
    exact ⟨x, hx, (below_real_iff hr hreal).mpr ⟨rfl, hb⟩⟩

/-- The children of a real name that begin a document are those the store lists, under real
names. -/
theorem Holds.child_iff (h : Holds d.toTreeDriver s m) (hr : virtualToRealName c ns = .ok r)
    (k : Name) : (ChildOf k r ∧ ∃ x, d.docs s.driver x ≠ none ∧ k.parts <+: x.parts) ↔
      ∃ v, (ChildOf v c ∧ ∃ n, getNamespace s n = some ns ∧ v.parts <+: n.parts) ∧
        virtualToRealName v ns = .ok k := by
  constructor
  · rintro ⟨hk, x, hx, hkx⟩
    have hfirst := (first_eq_of_beginning (hk.1.trans hkx)).trans (Represents.real_first hr)
    obtain ⟨n, ns', hreal, -, hown⟩ := h.owner_of_doc hfirst hx
    obtain ⟨rfl, hbelow, hcut⟩ := exists_real_of_childOf hr hreal hk hkx
    exact ⟨_, ⟨childOf_takeParts hbelow, n, (h.cached n).trans hown, List.take_prefix _ _⟩, hcut⟩
  · rintro ⟨v, ⟨hv, n, hn, hvn⟩, hk⟩
    obtain ⟨x, hreal, -, hx⟩ := h.real_of_owner ((h.cached n).symm.trans hn)
    exact ⟨(childOf_real_iff hr hk).mpr hv, x, hx, (prefix_real_iff hk hreal).mpr ⟨rfl, hvn⟩⟩

/-- What the store lists has a real name. -/
theorem Holds.listed_real (h : Holds d.toTreeDriver s m) {v n : Name}
    (hn : getNamespace s n = some ns) (hv : v.parts <+: n.parts) :
    ∃ k, virtualToRealName v ns = .ok k := by
  obtain ⟨x, hreal, -⟩ := h.real_of_owner ((h.cached n).symm.trans hn)
  have hfits := virtualToRealName_ok_iff.mp ⟨x, hreal⟩
  exact virtualToRealName_ok_iff.mpr (Nat.le_trans (Nat.add_le_add_right hv.length_le 2) hfits)

/-- A store in step with its driver lists as the driver does. -/
theorem Holds.listsAsDriver (h : Holds d.toTreeDriver s m) (c : Name) (ns : NamespaceId) :
    ListsAsDriver d.toIDriver s c ns := by
  unfold ListsAsDriver
  cases hr : virtualToRealName c ns with
  | error e =>
    refine (readCol_error_iff h.wf).mpr ?_
    rintro ⟨n, hn, hb⟩
    obtain ⟨k, hk⟩ := h.listed_real hn hb.1
    cases hr.symm.trans hk
  | ok r =>
    cases hcol : Store.readCol s c ns with
    | error e =>
      have hno := (readCol_error_iff h.wf).mp ⟨e, hcol⟩
      rw [← h.existsCol_iff hr, Bool.not_eq_true] at hno
      obtain ⟨e', he'⟩ := d.readCol_of_not_exists s.driver r hno
      exact ⟨_, he', .refused e e'⟩
    | ok col =>
      have hsome : ∃ n, getNamespace s n = some ns ∧ c.Below n := by
        by_contra hno
        obtain ⟨e, he⟩ := (readCol_error_iff h.wf).mpr hno
        cases hcol.symm.trans he
      obtain ⟨l, hl, hnodup, hmem⟩ :=
        d.readCol_of_exists s.driver r ((h.existsCol_iff hr).mpr hsome)
      obtain ⟨hsorted, hlisted⟩ := readCol_ok h.wf hcol
      refine ⟨_, hl, .listed ?_⟩
      have hreals : (col.map fun v => virtualToRealName v ns).Nodup := by
        refine (List.nodup_map_iff_inj_on (hsorted.imp ne_of_lt)).mpr fun v hv w _ heq => ?_
        obtain ⟨-, n, hn, hvn⟩ := (hlisted v).mp hv
        obtain ⟨k, hk⟩ := h.listed_real hn hvn
        exact (virtualToRealName_inj hk (heq.symm.trans hk)).1
      have hoks : (l.map (Except.ok : Name → Except Throw Name)).Nodup :=
        hnodup.map fun a b hab => Except.ok.inj hab
      refine (List.perm_ext_iff_of_nodup hreals hoks).mpr fun x => ?_
      rw [List.mem_map, List.mem_map]
      constructor
      · rintro ⟨v, hv, rfl⟩
        have hlv := (hlisted v).mp hv
        obtain ⟨-, n, hn, hvn⟩ := hlv
        obtain ⟨k, hk⟩ := h.listed_real hn hvn
        exact ⟨k, (hmem k).mpr ((h.child_iff hr k).mpr ⟨v, (hlisted v).mp hv, hk⟩), hk.symm⟩
      · rintro ⟨k, hk, rfl⟩
        obtain ⟨v, hv, hreal⟩ := (h.child_iff hr k).mp ((hmem k).mp hk)
        exact ⟨v, (hlisted v).mpr hv, hreal⟩

end Holds

/-! ## What a constructor over a clean driver leaves -/

/-- The documents under `namespaces` are kept under real names, no name is in two namespaces, and no
namespace has a separator in its name. -/
structure Clean (d : TreeDriver σ) (t : σ) : Prop where
  keyed : ∀ r : Name, r.first = prefixNS.first → d.docs t r ≠ none →
    ∃ v ns, virtualToRealName v ns = .ok r
  single : ∀ v a b ra rb, virtualToRealName v a = .ok ra → virtualToRealName v b = .ok rb →
    d.docs t ra ≠ none → d.docs t rb ≠ none → a = b
  plain : ∀ v ns r, virtualToRealName v ns = .ok r → d.docs t r ≠ none → SEPARATOR_C ∉ ns.str.toList

section Load

variable {d : ListDriver σ} {t : σ}

/-- A list the driver reads is the children of the collection that begin a document. -/
theorem mem_of_readCol {c : Name} {list : Col} (h : d.readCol c t = .ok (.ok list)) (m : Name) :
    m ∈ list ↔ ChildOf m c ∧ ∃ n, d.docs t n ≠ none ∧ m.parts <+: n.parts := by
  cases hex : d.existsCol c t with
  | false =>
    obtain ⟨e, he⟩ := d.readCol_of_not_exists t c hex
    rw [h] at he
    cases he
  | true =>
    obtain ⟨l, hl, -, hmem⟩ := d.readCol_of_exists t c hex
    rw [h] at hl
    cases hl
    exact hmem m

/-- What adding a document below `pre` keeps, a visit below `pre` keeps. -/
theorem visitor_keeps_docs {I : DBDocNames → Prop} {ns : NamespaceId} {pre : List String}
    (hadd : ∀ c real v, d.docs t real ≠ none → pre <+: real.parts →
      realToVirtualName real = .ok (.ok v) → I c → I (c.add v ns).2)
    {fuel : Nat} {name : Name} (hpre : pre <+: name.parts) {l l' : Loading} (hl : I l.cache)
    (hrun : (visitor d.toIDriver t fuel name ns).run l = .ok () l') : I l'.cache := by
  induction fuel generalizing name l l' with
  | zero => cases hrun
  | succ fuel ih =>
    rcases visitor_cases hrun with ⟨hex, v, hv, hcache⟩ | ⟨-, list, hread, hloop⟩
    · rw [hcache]
      exact hadd _ name v ((d.existsDoc_iff _ _).mp hex) hpre hv hl
    · refine forM_keeps (I := fun l => I l.cache)
        (fun c hc l₁ l₂ hl₁ hrun₁ => ih ?_ hl₁ hrun₁) hl hloop
      exact hpre.trans ((mem_of_readCol hread c).mp hc).1.1

theorem existsName_add {c : DBDocNames} {v w : Name} {ns : NamespaceId}
    (h : c.existsName v = true) : (c.add w ns).2.existsName v = true := by
  cases hw : c.existsName w with
  | true =>
    rw [DBDocNames.add_of_exists hw]
    exact h
  | false =>
    show ((c.add w ns).2.getNamespaceId v).isSome = true
    rw [DBDocNames.lookup_add hw]
    split
    · rfl
    · exact h

theorem existsName_add_self (c : DBDocNames) (v : Name) (ns : NamespaceId) :
    (c.add v ns).2.existsName v = true := by
  cases hv : c.existsName v with
  | true => exact existsName_add hv
  | false =>
    show ((c.add v ns).2.getNamespaceId v).isSome = true
    rw [DBDocNames.lookup_add hv, if_pos rfl]
    rfl

/-- A visit that returns has every document at or below its name in the cache. -/
theorem visitor_finds {ns : NamespaceId} {r v : Name} (hr : d.docs t r ≠ none)
    (hv : realToVirtualName r = .ok (.ok v)) {fuel : Nat} {name : Name}
    (hname : name.parts <+: r.parts) {l l' : Loading}
    (hrun : (visitor d.toIDriver t fuel name ns).run l = .ok () l') :
    l'.cache.existsName v = true := by
  induction fuel generalizing name l l' with
  | zero => cases hrun
  | succ fuel ih =>
    rcases visitor_cases hrun with ⟨hex, w, hw, hcache⟩ | ⟨hex, list, hread, hloop⟩
    · -- nothing lies strictly below a document
      have hself : name = r := (beginning_iff.mpr hname).resolve_right
        (d.tree t name r ((d.existsDoc_iff _ _).mp hex) hr)
      rw [hself, hv] at hw
      cases hw
      rw [hcache]
      exact existsName_add_self _ v ns
    · have hbelow : name.Below r := (beginning_iff.mpr hname).resolve_left fun heq => by
        rw [heq, (d.existsDoc_iff _ _).mpr hr] at hex
        cases hex
      have hmem : takeParts r name.parts.length ∈ list :=
        (mem_of_readCol hread _).mpr ⟨childOf_takeParts hbelow, r, hr, List.take_prefix _ _⟩
      exact forM_reaches (I := fun l => l.cache.existsName v = true) hmem
        (fun l₁ l₂ hrun₁ => ih (List.take_prefix _ _) hrun₁)
        (fun c _ l₁ l₂ hl₁ hrun₁ => visitor_keeps d.toIDriver t
          (I := fun c => c.existsName v = true) (fun _ _ _ _ => existsName_add) hl₁ hrun₁) hloop

/-- A constructor that returns has every document below `namespaces` in the cache. -/
theorem construct_finds {fuel : Nat} {l : Loading}
    (hrun : (construct d.toIDriver t fuel).run ⟨.empty, []⟩ = .ok () l) {v r : Name}
    {ns : NamespaceId} (hreal : virtualToRealName v ns = .ok r) (hr : d.docs t r ≠ none) :
    l.cache.existsName v = true := by
  have hbelow : prefixNS.Below r :=
    ⟨(virtualToRealName_eq_ok.mp hreal) ▸ List.cons_prefix_cons.mpr ⟨rfl, List.nil_prefix⟩,
      Nat.lt_of_lt_of_le (by decide) (Represents.real_deep hreal)⟩
  rcases construct_cases hrun with ⟨hex, -⟩ | ⟨list, hread, hloop⟩
  · rw [(d.existsCol_iff t prefixNS).mpr ⟨r, hr, hbelow⟩] at hex
    cases hex
  · have hmem : takeParts r prefixNS.parts.length ∈ list :=
      (mem_of_readCol hread _).mpr ⟨childOf_takeParts hbelow, r, hr, List.take_prefix _ _⟩
    refine forM_reaches (I := fun l => l.cache.existsName v = true) hmem (fun l₁ l₂ hrun₁ => ?_)
      (fun c _ l₁ l₂ hl₁ hrun₁ => ?_) hloop
    · obtain ⟨-, ns', -, hvisit⟩ := loadNamespace_cases hrun₁
      exact visitor_finds hr (realToVirtualName_real hreal) (List.take_prefix _ _) hvisit
    · obtain ⟨-, ns', -, hvisit⟩ := loadNamespace_cases hrun₁
      exact visitor_keeps d.toIDriver t (I := fun c => c.existsName v = true)
        (fun _ _ _ _ => existsName_add) hl₁ hvisit

/-- Every name in the cache has a document under its real name. -/
def Kept (d : TreeDriver σ) (t : σ) (c : DBDocNames) : Prop :=
  ∀ v ns, c.getNamespaceId v = some ns → ∃ r, virtualToRealName v ns = .ok r ∧ d.docs t r ≠ none

theorem Kept.add {c : DBDocNames} (h : Kept d.toTreeDriver t c) {v r : Name} {ns : NamespaceId}
    (hreal : virtualToRealName v ns = .ok r) (hr : d.docs t r ≠ none) :
    Kept d.toTreeDriver t (c.add v ns).2 := by
  intro w ns' hw
  cases hex : c.existsName v with
  | true =>
    rw [DBDocNames.add_of_exists hex] at hw
    exact h w ns' hw
  | false =>
    rw [DBDocNames.lookup_add hex] at hw
    split at hw
    · rename_i hwv
      cases hw
      exact ⟨r, hwv ▸ hreal, hr⟩
    · exact h w ns' hw

/-- A name of two parts that begins a real name has the namespace for its second part. -/
theorem getLast_of_beginning {name v r : Name} {ns : NamespaceId} (hlen : name.parts.length = 2)
    (hreal : virtualToRealName v ns = .ok r) (hp : name.parts <+: r.parts) :
    name.parts.getLast name.parts_ne = ns.str := by
  rw [virtualToRealName_eq_ok.mp hreal] at hp
  have hparts : name.parts = ["namespaces", ns.str] := by
    rw [List.prefix_iff_eq_take.mp hp, hlen]
    rfl
  simp only [hparts]
  rfl

theorem Clean.construct_kept (h : Clean d.toTreeDriver t) {fuel : Nat} {l : Loading}
    (hrun : (construct d.toIDriver t fuel).run ⟨.empty, []⟩ = .ok () l) :
    Kept d.toTreeDriver t l.cache := by
  rcases construct_cases hrun with ⟨-, rfl⟩ | ⟨list, -, hloop⟩
  · intro v ns hv
    cases hv
  · refine forM_keeps (I := fun l => Kept d.toTreeDriver t l.cache)
      (fun name _ l₁ l₂ hl₁ hrun₁ => ?_) (fun v ns hv => by cases hv) hloop
    obtain ⟨hlen, ns, hns, hvisit⟩ := loadNamespace_cases hrun₁
    refine visitor_keeps_docs (fun c real v hreal hpre hv hc => ?_) List.prefix_rfl hl₁ hvisit
    -- the part read again is the part itself
    obtain ⟨ns', hreal'⟩ := realToVirtualName_eq_ok_iff.mp hv
    have hplain := h.plain v ns' real hreal' hreal
    rw [getLast_of_beginning hlen hreal' hpre, ofString_of_not_mem ns'.parts_eq hplain] at hns
    cases NamespaceId.ext (Except.ok.inj hns)
    exact hc.add hreal' hreal

/-- Over a clean driver the cache holds exactly the documents of the driver. -/
theorem Clean.cached_iff (h : Clean d.toTreeDriver t) {fuel : Nat} {l : Loading}
    (hrun : (construct d.toIDriver t fuel).run ⟨.empty, []⟩ = .ok () l) (v : Name)
    (ns : NamespaceId) : l.cache.getNamespaceId v = some ns ↔
      ∃ r, virtualToRealName v ns = .ok r ∧ d.docs t r ≠ none := by
  refine ⟨h.construct_kept hrun v ns, ?_⟩
  rintro ⟨r, hreal, hr⟩
  obtain ⟨ns', hns'⟩ := Option.isSome_iff_exists.mp (construct_finds hrun hreal hr)
  obtain ⟨r', hreal', hr'⟩ := h.construct_kept hrun v ns' hns'
  rw [h.single v ns ns' r r' hreal hreal' hr hr']
  exact hns'

end Load

/-- The map of a cache and the documents under the real names of its names. -/
def contents (c : DBDocNames) (docs : Name → Option Doc) : DocMap := fun v =>
  (c.getNamespaceId v).bind fun ns =>
    match virtualToRealName v ns with
    | .ok r => (docs r).map fun x => (ns, x)
    | .error _ => none

theorem owner_contents {c : DBDocNames} {docs : Name → Option Doc} {v : Name} {ns : NamespaceId} :
    (contents c docs).owner v = some ns ↔
      c.getNamespaceId v = some ns ∧ ∃ r, virtualToRealName v ns = .ok r ∧ docs r ≠ none := by
  rw [OwnedMap.owner_eq_some]
  unfold contents
  cases hc : c.getNamespaceId v with
  | none => simp
  | some ns' =>
    cases hr : virtualToRealName v ns' with
    | error e =>
      simp only [Option.bind_some, hr, reduceCtorEq, exists_false, Option.some.injEq, false_iff,
        not_and]
      rintro rfl ⟨r, hr', -⟩
      cases hr.symm.trans hr'
    | ok r =>
      simp only [Option.bind_some, hr, Option.map_eq_some_iff, Prod.mk.injEq, Option.some.injEq]
      constructor
      · rintro ⟨x, y, hy, rfl, rfl⟩
        exact ⟨rfl, r, hr, by rw [hy]; exact Option.some_ne_none _⟩
      · rintro ⟨rfl, r', hr', hne⟩
        cases hr.symm.trans hr'
        obtain ⟨x, hx⟩ := Option.ne_none_iff_exists'.mp hne
        exact ⟨x, x, hx, rfl, rfl⟩

/-- A store constructed over a clean driver holds the documents of the driver. -/
theorem Clean.holds {d : ListDriver σ} {s : Store σ} (h : Clean d.toTreeDriver s.driver)
    {fuel : Nat} {l : Loading}
    (hrun : (construct d.toIDriver s.driver fuel).run ⟨.empty, []⟩ = .ok () l)
    (hcache : s.cache = l.cache) (hwf : s.cache.WF) :
    Holds d.toTreeDriver s (contents s.cache (d.docs s.driver)) := by
  have hiff : ∀ v ns, s.cache.getNamespaceId v = some ns ↔
      ∃ r, virtualToRealName v ns = .ok r ∧ d.docs s.driver r ≠ none := by
    rw [hcache]
    exact h.cached_iff hrun
  refine ⟨hwf, fun n => Option.ext fun ns => ?_, fun n ns r hr => ?_, fun n hn => ?_,
    fun x hx hd => ?_⟩
  · rw [owner_contents]
    exact (and_iff_left_of_imp (hiff n ns).mp).symm
  · cases hdoc : d.docs s.driver r with
    | none =>
      symm
      rw [Option.bind_eq_none_iff]
      rintro ⟨ns', x⟩ hx
      rw [if_neg]
      rintro rfl
      obtain ⟨-, r', hr', hne⟩ := owner_contents.mp (OwnedMap.owner_eq_some.mpr ⟨x, hx⟩)
      cases hr.symm.trans hr'
      exact hne hdoc
    | some x =>
      have hc := (hiff n ns).mpr ⟨r, hr, by rw [hdoc]; exact Option.some_ne_none _⟩
      unfold contents
      simp only [hc, Option.bind_some, hr, hdoc, Option.map_some, if_true]
  · cases hc : s.cache.getNamespaceId n with
    | none =>
      refine absurd ?_ hn
      unfold contents
      rw [hc]
      rfl
    | some ns =>
      obtain ⟨r, hr, -⟩ := (hiff n ns).mp hc
      exact virtualToRealName_ok_iff.mp ⟨r, hr⟩
  · obtain ⟨v, ns, hr⟩ := h.keyed x hx hd
    exact Represents.real_deep hr

/-! ## Every reachable store -/

/-- The stores over a driver that was clean when they were constructed. -/
def cleanStores (d : TreeDriver σ) : System (Store σ) Op where
  init s := (stores d.toIDriver).init s ∧ Clean d s.driver
  step := (stores d.toIDriver).step

theorem holds_inductive (d : ListDriver σ) :
    (cleanStores d.toTreeDriver).Inductive fun s => ∃ m, Holds d.toTreeDriver s m where
  init s := by
    rintro ⟨hs, hclean⟩
    have hknown := (known_inductive d.toIDriver).init s hs
    obtain ⟨fuel, l, hrun, hcache⟩ := hs
    exact ⟨_, hclean.holds hrun hcache hknown.wf⟩
  step s op s' := by
    rintro ⟨m, hm⟩ rfl
    obtain ⟨m', -, hm'⟩ :=
      exec_step hm (l := (op, succeeded ((exec d.toIDriver op).run s))) ⟨rfl, rfl⟩
    exact ⟨m', hm'⟩

/-- A driver without documents under `namespaces` is clean, and a store over it starts without
names. -/
theorem cleanStores_of_empty {d : ListDriver σ} {s : Store σ} (h : (system d.toTreeDriver).init s) :
    (cleanStores d.toTreeDriver).init s := by
  obtain ⟨hcache, hno⟩ := h
  have hcol : d.existsCol prefixNS s.driver = false := by
    rw [Bool.eq_false_iff, Ne, d.existsCol_iff]
    rintro ⟨n, hn, hb⟩
    exact hn (hno n (first_eq_of_beginning hb.1))
  refine ⟨⟨0, ⟨.empty, []⟩, ?_, hcache⟩, fun r hr hd => absurd (hno r hr) hd, ?_, ?_⟩
  · unfold construct
    rw [hcol]
    rfl
  · intro v a b ra rb hra _ hd
    exact absurd (hno ra (Represents.real_first hra)) hd
  · intro v ns r hr hd
    exact absurd (hno r (Represents.real_first hr)) hd

theorem cleanStores_of_system {d : ListDriver σ} {s : Store σ}
    (h : (system d.toTreeDriver).Reachable s) : (cleanStores d.toTreeDriver).Reachable s := by
  induction h with
  | init h => exact .init (cleanStores_of_empty h)
  | @step s s' l _ h ih => exact ih.step (l := l.1) h.2.symm

/-- Every store lists its documents exactly, and every store constructed over a clean driver lists
as the driver does: among them those that started without documents. -/
theorem readCol_lists :
    (∀ (d : IDriver σ) (s : Store σ), (stores d).Reachable s → ∀ c ns, ListsExactly s c ns) ∧
    (∀ (d : ListDriver σ) (s : Store σ), (cleanStores d.toTreeDriver).Reachable s →
      ∀ c ns, ListsAsDriver d.toIDriver s c ns) ∧
    ∀ (d : ListDriver σ) (s : Store σ), (system d.toTreeDriver).Reachable s →
      ∀ c ns, ListsAsDriver d.toIDriver s c ns := by
  have hclean : ∀ (d : ListDriver σ) (s : Store σ), (cleanStores d.toTreeDriver).Reachable s →
      ∀ c ns, ListsAsDriver d.toIDriver s c ns := by
    intro d s hs c ns
    obtain ⟨m, hm⟩ := (holds_inductive d).holds hs
    exact hm.listsAsDriver c ns
  exact ⟨fun d s hs => listsExactly hs, hclean, fun d s hs => hclean d s (cleanStores_of_system hs)⟩

section Sample

def ruleX : Name := ⟨["rules", "x"], by decide, by decide, by decide⟩

def ruleY : Name := ⟨["rules", "y"], by decide, by decide, by decide⟩

def customNs : NamespaceId := ⟨⟨["custom"], by decide, by decide, by decide⟩, rfl⟩

/-- A namespace whose one part ends in a separator. -/
def slashNs : NamespaceId := ⟨⟨["system/"], by decide, by decide, by decide⟩, rfl⟩

def rulesName : Name := ⟨["rules"], by decide, by decide, by decide⟩

/-- The real name of the collection `rules` in `system`. -/
def rulesReal : Name := ⟨["namespaces", "system", "rules"], by decide, by decide, by decide⟩

def rulesStore : Store MemTree :=
  after memDriver.toTreeDriver freshStore (.createDoc ruleX systemNs .null)

/-- A store with one document lists it, as its driver does. -/
theorem readCol_lists_rules : readCol rulesStore rulesName systemNs = .ok [ruleX] ∧
    ListsExactly rulesStore rulesName systemNs ∧
    ListsAsDriver memListDriver.toIDriver rulesStore rulesName systemNs := by
  obtain ⟨hexact, -, hdriver⟩ := readCol_lists (σ := MemTree)
  have hstart : (system memListDriver.toTreeDriver).Reachable freshStore :=
    .init ⟨rfl, fun _ _ => rfl⟩
  have hcreated : (system memListDriver.toTreeDriver).Reachable rulesStore := by
    refine hstart.step (l := (.createDoc ruleX systemNs .null, true)) ⟨?_, rfl⟩
    rfl
  have hstores : (stores memListDriver.toIDriver).Reachable rulesStore := by
    refine freshStore_reachable.step (l := .createDoc ruleX systemNs .null) ?_
    rfl
  refine ⟨?_, hexact _ _ hstores _ _, hdriver _ _ hcreated _ _⟩
  decide +kernel

/-- The driver after documents were created in it, in order. -/
def keeping (docs : List (Name × NamespaceId)) : MemTree :=
  docs.foldl (fun t p =>
    match virtualToRealName p.1 p.2 with
    | .ok r => resultState ((MemTree.createDoc r .null).run t)
    | .error _ => t) .empty

def reopening (t : MemTree) : EStateM.Result Throw Loading Unit :=
  (construct memDriver.toIDriver t MAX_PARTS).run ⟨.empty, []⟩

/-- A store constructed over the driver. -/
def reopened (t : MemTree) : Store MemTree := ⟨(resultState (reopening t)).cache, t⟩

theorem reopened_reachable {t : MemTree}
    (h : (match reopening t with | .ok _ _ => true | .error _ _ => false) = true) :
    (stores memListDriver.toIDriver).Reachable (reopened t) := by
  refine .init ⟨MAX_PARTS, (resultState (reopening t)), ?_, rfl⟩
  show reopening t = _
  cases hres : reopening t with
  | ok u l => rfl
  | error e l =>
    rw [hres] at h
    cases h

/-- A driver with `rules/x` in two namespaces: the one that is loaded first has it. -/
def twiceTree : MemTree := keeping [(ruleX, systemNs), (ruleY, systemNs), (ruleX, customNs)]

/-- What a store leaves in the driver when it creates `rules/x` in the namespace `system/`. -/
def slashTree : MemTree :=
  (after memDriver.toTreeDriver freshStore (.createDoc ruleX slashNs .null)).driver

/-- The second copy of a document is not listed; and a document of the namespace `system/` is listed
in `system`, where the driver has nothing. -/
theorem listing_misses :
    ((stores memListDriver.toIDriver).Reachable (reopened twiceTree) ∧
      ¬ ListsAsDriver memListDriver.toIDriver (reopened twiceTree) rulesName systemNs) ∧
    (stores memListDriver.toIDriver).Reachable (reopened slashTree) ∧
      ¬ ListsAsDriver memListDriver.toIDriver (reopened slashTree) rulesName systemNs := by
  have hreal : virtualToRealName rulesName systemNs = .ok rulesReal := rfl
  refine ⟨⟨reopened_reachable (by decide +kernel), fun h => ?_⟩,
    reopened_reachable (by decide +kernel), fun h => ?_⟩
  · have hcol : readCol (reopened twiceTree) rulesName systemNs = .ok [ruleY] := by decide +kernel
    have hlen : (twiceTree.children rulesReal).length = 2 := by decide +kernel
    unfold ListsAsDriver at h
    rw [hreal, hcol] at h
    obtain ⟨a, ha, hagree⟩ := h
    change MemTree.readCol rulesReal twiceTree = _ at ha
    unfold MemTree.readCol at ha
    rw [if_neg (by intro hnil; rw [hnil] at hlen; cases hlen)] at ha
    cases ha
    cases hagree with
    | listed hperm =>
      have heq := hperm.length_eq
      rw [List.length_map, List.length_map, hlen] at heq
      cases heq
  · have hcol : readCol (reopened slashTree) rulesName systemNs = .ok [ruleX] := by decide +kernel
    have hnil : slashTree.children rulesReal = [] := by decide +kernel
    unfold ListsAsDriver at h
    rw [hreal, hcol] at h
    obtain ⟨a, ha, hagree⟩ := h
    change MemTree.readCol rulesReal slashTree = _ at ha
    unfold MemTree.readCol at ha
    rw [if_pos hnil] at ha
    cases ha
    cases hagree

end Sample

end DistroDefender.Store
