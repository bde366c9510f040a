import DistroDefender.Os.Fs
import Mathlib.Data.List.Infix

/-!
# The tree of directories

Every entry of a file system lies in a directory (`Fs.Tree`). A path leads to the location it
resolves to when the directories on its way are there (`Fs.locate_eq_some`).
-/

namespace DistroDefender.Os

open Base Lib

/-! ## Walks -/

/-- Where the walk along a path starts. -/
def start (cwd : Loc) (p : Path) : Loc := if isAbsolute (cstr p) then [] else cwd

theorem resolve_eq_walk (cwd : Loc) (p : Path) :
    resolve cwd p = walk (start cwd p) (components (cstr p)) := rfl

@[simp] theorem walk_nil (loc : Loc) : walk loc [] = loc := rfl

@[simp] theorem walk_singleton (loc : Loc) (c : String) : walk loc [c] = stepTo loc c := rfl

theorem walk_append (loc : Loc) (cs ds : List String) :
    walk loc (cs ++ ds) = walk (walk loc cs) ds :=
  List.foldl_append

theorem walk_plain (loc : Loc) {cs : List String} (h : ∀ c ∈ cs, c ≠ "." ∧ c ≠ "..") :
    walk loc cs = loc ++ cs := by
  induction cs generalizing loc with
  | nil => simp [walk]
  | cons c cs ih =>
    have hc := h c List.mem_cons_self
    have hstep : stepTo loc c = loc ++ [c] := by
      unfold stepTo
      rw [if_neg hc.1, if_neg hc.2]
    show walk (stepTo loc c) cs = _
    rw [hstep, ih _ fun x hx => h x (List.mem_cons_of_mem c hx), List.append_assoc,
      List.singleton_append]

/-- A beginning of two lists in sequence. -/
theorem prefix_append_cases {w a b : List String} (h : w <+: a ++ b) : w <+: a ∨ ∃ b', b' <+: b ∧
    w = a ++ b' := by
  rcases List.prefix_or_prefix_of_prefix h (List.prefix_append a b) with hw | ⟨b', rfl⟩
  · exact .inl hw
  · exact .inr ⟨b', (List.prefix_append_right_inj a).mp h, rfl⟩

namespace Fs

variable {fs : Fs}

/-! ## Entries and their directories -/

/-- Every entry lies in a directory. -/
def Tree (fs : Fs) : Prop := ∀ loc c, fs.node (loc ++ [c]) ≠ none → fs.node loc = some .dir

@[simp] theorem node_nil (fs : Fs) : fs.node [] = some .dir := if_pos rfl

/-- Above an entry there are directories. -/
theorem Tree.dir_above (h : fs.Tree) {a b : Loc} (hb : fs.node b ≠ none) (hp : a <+: b)
    (hne : a ≠ b) : fs.node a = some .dir := by
  obtain ⟨t, rfl⟩ := hp
  induction t using List.reverseRecOn with
  | nil => simp at hne
  | append_singleton t c ih =>
    rw [← List.append_assoc] at hb
    have hdir := h _ c hb
    by_cases ht : t = []
    · simpa [ht] using hdir
    · exact ih (by rw [hdir]; simp) (by simpa using ht)

theorem node_without (fs : Fs) (ls : List Loc) (l : Loc) :
    (fs.without ls).node l = if l ∈ ls ∧ l ≠ [] then none else fs.node l := by
  unfold node without
  by_cases hl : l = []
  · simp [hl]
  · simp [hl, Map.lookup_eraseAll]

/-- Without one location the others are as they were. -/
theorem node_without_of_ne {l x : Loc} (hx : x ≠ l) : (fs.without [l]).node x = fs.node x := by
  rw [node_without, if_neg fun hmem => hx (List.mem_singleton.mp hmem.1)]

theorem Tree.without (h : fs.Tree) {ls : List Loc}
    (hls : ∀ l ∈ ls, ∀ c, fs.node (l ++ [c]) ≠ none → l ++ [c] ∈ ls) : (fs.without ls).Tree := by
  intro loc c hn
  rw [node_without] at hn ⊢
  split at hn
  · exact absurd rfl hn
  · rename_i hnot
    rw [if_neg]
    · exact h loc c hn
    · rintro ⟨hmem, -⟩
      exact hnot ⟨hls loc hmem c hn, by simp⟩

/-- A new entry of a directory, or one in the place of a file. -/
theorem Tree.set (h : fs.Tree) {dir : Loc} {c : String} (hdir : fs.node dir = some .dir)
    (hold : fs.node (dir ++ [c]) ≠ some .dir) (n : Node) : (fs.set (dir ++ [c]) n).Tree := by
  intro loc d hn
  rw [node_set fs (by simp)] at hn ⊢
  by_cases heq : loc ++ [d] = dir ++ [c]
  · obtain ⟨rfl, -⟩ := List.append_inj' heq rfl
    rw [if_neg (by simp)]
    exact hdir
  · rw [if_neg heq] at hn
    have hloc := h loc d hn
    rw [if_neg]
    · exact hloc
    · rintro rfl
      exact hold hloc

theorem mem_entries {loc : Loc} {c : String} : c ∈ fs.entries loc ↔
    fs.node (loc ++ [c]) ≠ none := by
  have hnode : fs.node (loc ++ [c]) ≠ none ↔ loc ++ [c] ∈ fs.nodes.keys := by
    unfold node
    rw [if_neg (by simp), ← Option.isSome_iff_ne_none, AList.lookup_isSome, AList.mem_keys]
  rw [hnode]
  unfold entries
  simp only [List.mem_filterMap, List.mem_filter, Bool.and_eq_true, List.isPrefixOf_iff_prefix,
    beq_iff_eq]
  constructor
  · rintro ⟨l, ⟨hl, ⟨t, rfl⟩, hlen⟩, hlast⟩
    rw [List.length_append, Nat.add_left_cancel_iff, List.length_eq_one_iff] at hlen
    obtain ⟨x, rfl⟩ := hlen
    simp only [List.getLast?_append, List.getLast?_singleton, Option.some_or,
      Option.some.injEq] at hlast
    subst hlast
    exact hl
  · intro hl
    exact ⟨_, ⟨hl, List.prefix_append _ _, by simp⟩, by simp⟩

theorem nodup_entries (fs : Fs) (loc : Loc) : (fs.entries loc).Nodup := by
  have hmap : ∀ ks : List Loc, (∀ k ∈ ks, ∃ c, k = loc ++ [c]) →
      (ks.filterMap List.getLast?).map (fun c => loc ++ [c]) = ks := by
    intro ks hks
    induction ks with
    | nil => rfl
    | cons k ks ih =>
      obtain ⟨c, rfl⟩ := hks k List.mem_cons_self
      have hlast : (loc ++ [c]).getLast? = some c := by simp
      rw [List.filterMap_cons_some hlast, List.map_cons,
        ih fun x hx => hks x (List.mem_cons_of_mem _ hx)]
  unfold entries
  refine List.Nodup.of_map (fun c => loc ++ [c]) ?_
  rw [hmap]
  · exact fs.nodes.keys_nodup.filter _
  · intro k hk
    rw [List.mem_filter, Bool.and_eq_true, List.isPrefixOf_iff_prefix, beq_iff_eq] at hk
    obtain ⟨-, ⟨t, rfl⟩, hlen⟩ := hk
    rw [List.length_append, Nat.add_left_cancel_iff, List.length_eq_one_iff] at hlen
    obtain ⟨c, rfl⟩ := hlen
    exact ⟨c, rfl⟩

theorem entries_eq_nil {loc : Loc} : fs.entries loc = [] ↔ ∀ c, fs.node (loc ++ [c]) = none := by
  rw [List.eq_nil_iff_forall_not_mem]
  refine forall_congr' fun c => ?_
  rw [mem_entries, not_not]

/-! ## Where a path leads -/

theorem descend_eq_some {loc l : Loc} {cs : List String} : fs.descend loc cs = some l ↔
    l = walk loc cs ∧ ∀ w, w <+: cs → w ≠ cs → fs.node (walk loc w) = some .dir := by
  induction cs generalizing loc with
  | nil =>
    simp only [descend, walk, List.foldl_nil, Option.some.injEq, List.prefix_nil]
    constructor
    · rintro rfl
      exact ⟨rfl, fun w hw hne => absurd hw hne⟩
    · exact fun h => h.1.symm
  | cons c cs ih =>
    unfold descend
    constructor
    · intro h
      split at h
      · rename_i hdir
        obtain ⟨rfl, hway⟩ := ih.mp h
        refine ⟨rfl, fun w hw hne => ?_⟩
        cases w with
        | nil => exact hdir
        | cons d w =>
          obtain ⟨rfl, hw'⟩ := List.cons_prefix_cons.mp hw
          exact hway w hw' fun he => hne (by rw [he])
      · cases h
    · rintro ⟨rfl, hway⟩
      have hdir : fs.node loc = some .dir := hway [] List.nil_prefix (by simp)
      rw [if_pos hdir]
      refine ih.mpr ⟨rfl, fun w hw hne => ?_⟩
      exact hway (c :: w) (List.cons_prefix_cons.mpr ⟨rfl, hw⟩) (by simpa using hne)

theorem descend_dot {loc l : Loc} {cs : List String} : fs.descend loc (cs ++ ["."]) = some l ↔
    l = walk loc cs ∧ (∀ w, w <+: cs → w ≠ cs → fs.node (walk loc w) = some .dir) ∧
      fs.node l = some .dir := by
  have hdot : walk loc (cs ++ ["."]) = walk loc cs := by
    rw [walk_append, walk_singleton]
    exact if_pos rfl
  rw [descend_eq_some, hdot]
  constructor
  · rintro ⟨rfl, hway⟩
    refine ⟨rfl, fun w hw _ => ?_, hway cs (List.prefix_append _ _) (by simp)⟩
    refine hway w (hw.trans (List.prefix_append _ _)) ?_
    rintro rfl
    have hlen := hw.length_le
    rw [List.length_append] at hlen
    exact Nat.not_succ_le_self _ hlen
  · rintro ⟨rfl, hway, hdir⟩
    refine ⟨rfl, fun w hw hne => ?_⟩
    rcases List.prefix_concat_iff.mp hw with rfl | hw
    · exact absurd rfl hne
    · by_cases heq : w = cs
      · exact heq ▸ hdir
      · exact hway w hw heq

/-- A path leads to the location it resolves to, through directories; after a separator at its end
to a directory. -/
theorem locate_eq_some {p : Path} {l : Loc} : fs.locate p = some l ↔
    cstr p ≠ "" ∧ l = resolve fs.cwd p ∧
      (∀ w, w <+: components (cstr p) → w ≠ components (cstr p) →
        fs.node (walk (start fs.cwd p) w) = some .dir) ∧
      ((cstr p).toList.getLast? = some '/' → fs.node l = some .dir) := by
  rw [resolve_eq_walk]
  unfold locate start
  simp only
  by_cases hne : cstr p = ""
  · simp [hne]
  rw [if_neg hne]
  by_cases hlast : (cstr p).toList.getLast? = some '/'
  · simp only [hlast, if_true, forall_const, ne_eq, hne, not_false_eq_true, true_and]
    exact descend_dot
  · simp only [hlast, if_false, List.append_nil, false_implies, and_true, ne_eq, hne,
      not_false_eq_true, true_and]
    exact descend_eq_some

end Fs

end DistroDefender.Os
