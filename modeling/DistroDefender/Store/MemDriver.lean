import DistroDefender.Lib.Map
import DistroDefender.Store.Driver

/-!
# A driver in memory

`memDriver` keeps its documents in a finite map that is a tree by construction (`MemTree`). It is
the smallest implementation of what the store relies on: every law of `ColDriver` holds of it.
-/

namespace DistroDefender.Store

open Base Lib

/-- Documents keyed by name, none strictly below another. -/
structure MemTree where
  docs : Map Name Doc
  tree : ∀ n m, n ∈ docs → m ∈ docs → ¬ n.Below m

namespace MemTree

/-- No document. -/
def empty : MemTree := ⟨∅, fun n _ hn => absurd hn (AList.notMem_empty n)⟩

/-- A document strictly above or below `n` leaves no room for one at `n`. -/
def blocked (t : MemTree) (n : Name) : Bool :=
  t.docs.keys.any fun m => decide (n.Below m) || decide (m.Below n)

theorem not_below_of_not_blocked {t : MemTree} {n m : Name} (h : t.blocked n = false)
    (hm : m ∈ t.docs) : ¬ n.Below m ∧ ¬ m.Below n := by
  unfold blocked at h
  rw [List.any_eq_false] at h
  have hk := h m (AList.mem_keys.mp hm)
  simpa using hk

theorem not_below_self (n : Name) : ¬ n.Below n := fun h => h.ne rfl

/-- The tree with `c` at `n`. -/
def insert (t : MemTree) (n : Name) (c : Doc) (h : t.blocked n = false) : MemTree where
  docs := t.docs.insert n c
  tree a b ha hb := by
    rcases (AList.mem_insert _).mp ha with rfl | ha'
    · rcases (AList.mem_insert _).mp hb with rfl | hb'
      · exact not_below_self _
      · exact (not_below_of_not_blocked h hb').1
    · rcases (AList.mem_insert _).mp hb with rfl | hb'
      · exact (not_below_of_not_blocked h ha').2
      · exact t.tree a b ha' hb'

/-- The tree without `n`. -/
def erase (t : MemTree) (n : Name) : MemTree where
  docs := t.docs.erase n
  tree a b ha hb := t.tree a b (AList.mem_erase.mp ha).2 (AList.mem_erase.mp hb).2

theorem mem_of_mem_filter {p : Name → Doc → Bool} {m : Map Name Doc} {n : Name}
    (h : n ∈ Map.filter p m) : n ∈ m := by
  rw [← AList.lookup_isSome, Map.lookup_filter] at h
  exact AList.lookup_isSome.mp (Option.isSome_of_isSome_filter _ _ h)

/-- The tree without what lies strictly below `c`. -/
def eraseBelow (t : MemTree) (c : Name) : MemTree where
  docs := Map.filter (fun n _ => !decide (c.Below n)) t.docs
  tree a b ha hb := t.tree a b (mem_of_mem_filter ha) (mem_of_mem_filter hb)

/-- Write `c` at `n` when nothing blocks it. -/
def put (n : Name) (c : Doc) : Call MemTree OptError := do
  let t ← get
  if h : t.blocked n = false then
    set (t.insert n c h)
    return none
  else return some ⟨"Name in use"⟩

/-- The first `k` parts of a name that has more. -/
def firstParts (n : Name) (k : Nat) (hk : 0 < k) : Name where
  parts := n.parts.take k
  parts_ne := by simp [n.parts_ne, Nat.pos_iff_ne_zero.mp hk]
  parts_le := (List.length_take_le' _ _).trans n.parts_le
  parts_nonempty p hp := n.parts_nonempty p (List.mem_of_mem_take hp)

/-- The children of `c`. -/
def children (t : MemTree) (c : Name) : List Name :=
  ((t.docs.keys.filter fun n => decide (c.Below n)).map fun n =>
    firstParts n (c.parts.length + 1) (Nat.succ_pos _)).dedup

def createDoc (n : Name) (c : Doc) : Call MemTree OptError := do
  if ((← get).docs.lookup n).isSome then return some ⟨"Document already exists"⟩
  else put n c

def updateDoc (n : Name) (c : Doc) : Call MemTree OptError := do
  if ((← get).docs.lookup n).isSome then put n c
  else return some ⟨"Document does not exist"⟩

def deleteDoc (n : Name) : Call MemTree OptError := do
  let t ← get
  if (t.docs.lookup n).isSome then
    set (t.erase n)
    return none
  else return some ⟨"Document does not exist"⟩

def deleteCol (c : Name) : Call MemTree OptError := do
  set ((← get).eraseBelow c)
  return none

def readDoc (n : Name) (t : MemTree) : RespOrError Doc :=
  match t.docs.lookup n with
  | some c => .ok c
  | none => .error ⟨"Document does not exist"⟩

def readCol (c : Name) (t : MemTree) : Except Throw (RespOrError Col) :=
  if t.children c = [] then .ok (.error ⟨"Collection does not exist"⟩) else .ok (.ok (t.children c))

/-! ## The laws -/

theorem lookup_insert (t : MemTree) (n : Name) (c : Doc) (h : t.blocked n = false) :
    (t.insert n c h).docs.lookup = Function.update t.docs.lookup n (some c) := by
  funext m
  rw [Function.update_apply]
  exact Map.lookup_insert_eq _ _ _ _

theorem lookup_erase (t : MemTree) (n : Name) :
    (t.erase n).docs.lookup = Function.update t.docs.lookup n none := by
  funext m
  rw [Function.update_apply]
  exact Map.lookup_erase_eq _ _ _

theorem lookup_eraseBelow (t : MemTree) (c : Name) :
    (t.eraseBelow c).docs.lookup = fun n => if c.Below n then none else t.docs.lookup n := by
  funext n
  show (Map.filter _ t.docs).lookup n = _
  rw [Map.lookup_filter]
  by_cases h : c.Below n
  · simp [h]
  · cases hl : t.docs.lookup n <;> simp [h, Option.filter]

theorem put_applies (t : MemTree) (n : Name) (c : Doc) :
    Applies (fun t => t.docs.lookup) t ((put n c).run t) True
      (Function.update t.docs.lookup n (some c)) := by
  unfold put
  rw [EStateM.run_bind, EStateM.run_get]
  simp only
  split
  · rename_i h
    exact ⟨trivial, lookup_insert t n c h⟩
  · rfl

theorem createDoc_applies (t : MemTree) (n : Name) (c : Doc) :
    Applies (fun t => t.docs.lookup) t ((createDoc n c).run t) (t.docs.lookup n = none)
      (Function.update t.docs.lookup n (some c)) := by
  unfold createDoc
  rw [EStateM.run_bind, EStateM.run_get]
  simp only
  split
  · rfl
  · rename_i h
    exact (put_applies t n c).mono fun _ => Option.not_isSome_iff_eq_none.mp h

theorem updateDoc_applies (t : MemTree) (n : Name) (c : Doc) :
    Applies (fun t => t.docs.lookup) t ((updateDoc n c).run t) (t.docs.lookup n ≠ none)
      (Function.update t.docs.lookup n (some c)) := by
  unfold updateDoc
  rw [EStateM.run_bind, EStateM.run_get]
  simp only
  split
  · rename_i h
    exact (put_applies t n c).mono fun _ => Option.isSome_iff_ne_none.mp h
  · rfl

theorem deleteDoc_applies (t : MemTree) (n : Name) :
    Applies (fun t => t.docs.lookup) t ((deleteDoc n).run t) (t.docs.lookup n ≠ none)
      (Function.update t.docs.lookup n none) := by
  unfold deleteDoc
  rw [EStateM.run_bind, EStateM.run_get]
  simp only
  split
  · rename_i h
    exact ⟨Option.isSome_iff_ne_none.mp h, lookup_erase t n⟩
  · rfl

theorem mem_children {t : MemTree} {c m : Name} :
    m ∈ t.children c ↔ ChildOf m c ∧ ∃ n, t.docs.lookup n ≠ none ∧ m.parts <+: n.parts := by
  unfold children ChildOf
  simp only [List.mem_dedup, List.mem_map, List.mem_filter, decide_eq_true_eq]
  constructor
  · rintro ⟨n, ⟨hn, hb⟩, rfl⟩
    have hlen : c.parts.length + 1 ≤ n.parts.length := hb.2
    refine ⟨⟨?_, List.length_take_of_le hlen⟩, n, ?_, List.take_prefix _ _⟩
    · exact List.prefix_take_iff.mpr ⟨hb.1, by omega⟩
    · exact Option.isSome_iff_ne_none.mp (AList.lookup_isSome.mpr (AList.mem_keys.mpr hn))
  · rintro ⟨⟨hp, hlen⟩, n, hn, hmn⟩
    have hmem := AList.mem_keys.mp (AList.lookup_isSome.mp (Option.isSome_iff_ne_none.mpr hn))
    have hle := hmn.length_le
    refine ⟨n, ⟨hmem, hp.trans hmn, by omega⟩, Name.ext ?_⟩
    show n.parts.take (c.parts.length + 1) = m.parts
    rw [← hlen]
    exact (List.prefix_iff_eq_take.mp hmn).symm

theorem exists_children {t : MemTree} {c : Name} :
    t.children c ≠ [] ↔ ∃ n, t.docs.lookup n ≠ none ∧ c.Below n := by
  constructor
  · intro hne
    obtain ⟨m, hm⟩ := List.exists_mem_of_ne_nil _ hne
    obtain ⟨⟨hp, hlen⟩, n, hn, hmn⟩ := mem_children.mp hm
    have := hmn.length_le
    exact ⟨n, hn, hp.trans hmn, by omega⟩
  · rintro ⟨n, hn, hb⟩
    have hmem := AList.mem_keys.mp (AList.lookup_isSome.mp (Option.isSome_iff_ne_none.mpr hn))
    refine List.ne_nil_of_mem (a := firstParts n (c.parts.length + 1) (Nat.succ_pos _)) ?_
    simp only [children, List.mem_dedup, List.mem_map, List.mem_filter, decide_eq_true_eq]
    exact ⟨n, ⟨hmem, hb⟩, rfl⟩

end MemTree

open MemTree in
/-- The driver in memory. -/
def memDriver : ColDriver MemTree where
  createDoc := createDoc
  readDoc := readDoc
  updateDoc := updateDoc
  upsertDoc := put
  deleteDoc := deleteDoc
  readCol := readCol
  deleteCol := deleteCol
  existsDoc n t := (t.docs.lookup n).isSome
  existsCol c t := !(t.children c).isEmpty
  docs t := t.docs.lookup
  tree t n m hn hm := t.tree n m (AList.lookup_isSome.mp (Option.isSome_iff_ne_none.mpr hn))
    (AList.lookup_isSome.mp (Option.isSome_iff_ne_none.mpr hm))
  createDoc_applies := createDoc_applies
  updateDoc_applies := updateDoc_applies
  upsertDoc_applies := put_applies
  deleteDoc_applies := deleteDoc_applies
  deleteCol_applies t c := ⟨trivial, lookup_eraseBelow t c⟩
  readDoc_eq_ok t n c := by
    unfold readDoc
    cases t.docs.lookup n <;> simp
  existsDoc_iff t n := Option.isSome_iff_ne_none
  existsCol_iff t c := by
    rw [← exists_children]
    simp
  readCol_of_exists t c h := by
    have hne : t.children c ≠ [] := by simpa using h
    refine ⟨t.children c, by simp only [readCol,
      if_neg hne], List.nodup_dedup _, fun m => mem_children⟩

end DistroDefender.Store
