import DistroDefender.Kvdb.RocksDB
import DistroDefender.Lib.Map

/-!
# A RocksDB in memory

`memRocksDB` keeps its column families in finite maps and hands out numbers as handles. Its state
carries a script of outcomes: the calls go as the script says, and work once it is over. Every law
of `FamilyStore` holds of it.
-/

namespace DistroDefender.Kvdb

open Base Lib

/-- How a call goes. -/
inductive Outcome where
  | works
  | fails (text : String)
  | throws (e : Throw)
  deriving DecidableEq, Repr

structure MemRocks where
  families : Map String (Map String String)
  /-- The handles in use. -/
  handles : Map Nat String
  /-- No handle from here on has been given out. -/
  next : Nat
  script : List Outcome
  default_mem : families.lookup kDefaultColumnFamilyName ≠ none

namespace MemRocks

/-- Only the default family, and it is empty. -/
def fresh (script : List Outcome) : MemRocks where
  families := (∅ : Map String (Map String String)).insert kDefaultColumnFamilyName ∅
  handles := ∅
  next := 0
  script := script
  default_mem := by
    rw [Map.lookup_insert_eq, if_pos rfl]
    exact Option.some_ne_none _

def ref (s : MemRocks) (h : Nat) : Ref :=
  if s.next ≤ h then .unused
  else
    match s.handles.lookup h with
    | some name => .names name
    | none => .stale

def view (s : MemRocks) : View Nat := ⟨fun n => (s.families.lookup n).map fun c => c.lookup, s.ref⟩

/-- The family is put there or replaced. -/
def setFamily (s : MemRocks) (name : String) (c : Map String String) : MemRocks :=
  { s with
    families := s.families.insert name c
    default_mem := by
      rw [Map.lookup_insert_eq]
      split
      · exact Option.some_ne_none _
      · exact s.default_mem }

/-- A new handle for the family. -/
def issue (s : MemRocks) (name : String) : MemRocks :=
  { s with handles := s.handles.insert s.next name, next := s.next + 1 }

def issueAll : List String → MemRocks → List Nat × MemRocks
  | [], s => ([], s)
  | name :: names, s =>
    let r := issueAll names (s.issue name)
    (s.next :: r.1, r.2)

/-- A call that goes as the script says. -/
def scripted {α : Type} (act : MemRocks → Status (α × MemRocks)) : Call MemRocks (Status α) := do
  let s ← get
  set { s with script := s.script.tail }
  match s.script.head? with
  | some (.fails text) => return .error text
  | some (.throws e) => throw e
  | _ =>
    match act s with
    | .error text => return .error text
    | .ok (a, s') =>
      set { s' with script := s.script.tail }
      return .ok a

def ListColumnFamilies (s : MemRocks) : Status (List String × MemRocks) := .ok (s.families.keys, s)

def DBOpen (names : List String) (s : MemRocks) : Status (List Nat × MemRocks) :=
  if (∀ name ∈ names, name ∈ s.families) ∧ ∀ name ∈ s.families.keys, name ∈ names then
    .ok (s.issueAll names)
  else .error "Invalid argument: Column families not opened"

def CreateColumnFamily (name : String) (s : MemRocks) : Status (Nat × MemRocks) :=
  match s.families.lookup name with
  | some _ => .error "Invalid argument: Column family already exists"
  | none => .ok (s.next, (s.setFamily name ∅).issue name)

def DropColumnFamily (h : Nat) (s : MemRocks) : Status (Unit × MemRocks) :=
  match s.ref h with
  | .names name =>
    if hd : name = kDefaultColumnFamilyName then
      .error "Invalid argument: Can't drop default column family"
    else
      .ok ((), { s with
        families := s.families.erase name
        handles := s.handles.filter fun _ n => decide (n ≠ name)
        default_mem := by
          rw [Map.lookup_erase_eq, if_neg (Ne.symm hd)]
          exact s.default_mem })
  | _ => .error "Invalid argument: Column family already dropped!"

def Put (h : Nat) (key value : String) (s : MemRocks) : Status (Unit × MemRocks) :=
  match s.ref h with
  | .names name =>
    match s.families.lookup name with
    | some c => .ok ((), s.setFamily name (c.insert key value))
    | none => .error "Invalid argument: Invalid column family specified in write batch"
  | _ => .error "Invalid argument: Invalid column family specified in write batch"

/-! ## What the calls do to the view -/

variable {s : MemRocks}

theorem scripted_does {α : Type} {act : MemRocks → Status (α × MemRocks)}
    {post : α → View Nat → Prop} (h : ∀ a s', act s = .ok (a, s') → post a s'.view) :
    Does view s ((scripted act).run s) post := by
  unfold scripted
  simp only [EStateM.run_bind, EStateM.run_get, EStateM.run_set]
  split
  · rfl
  · rfl
  · cases ha : act s with
    | error text => rfl
    | ok p => exact h p.1 p.2 ha

theorem view_setFamily (s : MemRocks) (name : String) (c : Map String String) :
    (s.setFamily name c).view =
      ⟨Function.update s.view.families name (some fun k => c.lookup k), s.view.ref⟩ := by
  refine View.ext ?_ rfl
  funext n
  show ((s.families.insert name c).lookup n).map _ = Function.update s.view.families name _ n
  rw [Map.lookup_insert_eq, Function.update_apply]
  split <;> rfl

theorem ref_issue (s : MemRocks) (name : String) :
    (s.issue name).ref = Function.update s.ref s.next (.names name) := by
  funext h
  rw [Function.update_apply]
  unfold ref issue
  dsimp only
  rw [Map.lookup_insert_eq]
  by_cases hh : h = s.next
  · subst hh
    rw [if_neg (by omega), if_pos rfl, if_pos rfl]
  · rw [if_neg hh, if_neg hh]
    by_cases hle : s.next ≤ h
    · rw [if_pos (by omega), if_pos hle]
    · rw [if_neg (by omega), if_neg hle]

theorem ref_next (s : MemRocks) : s.ref s.next = .unused := if_pos (le_refl _)

theorem families_issueAll (names : List String) (s : MemRocks) :
    (s.issueAll names).2.families = s.families := by
  induction names generalizing s with
  | nil => rfl
  | cons name names ih => exact ih (s.issue name)

theorem length_issueAll (names : List String) (s : MemRocks) :
    (s.issueAll names).1.length = names.length := by
  induction names generalizing s with
  | nil => rfl
  | cons name names ih => exact congrArg (· + 1) (ih (s.issue name))

/-- New handles come after those given out. -/
theorem next_le_of_mem_issueAll {names : List String} {s : MemRocks} {h : Nat}
    (hh : h ∈ (s.issueAll names).1) : s.next ≤ h := by
  induction names generalizing s with
  | nil => cases hh
  | cons name names ih =>
    rcases List.mem_cons.mp hh with rfl | hh
    · exact le_refl _
    · exact Nat.le_of_succ_le (ih hh)

theorem ref_issueAll_of_not_mem {names : List String} {s : MemRocks} {h : Nat}
    (hh : h ∉ (s.issueAll names).1) : (s.issueAll names).2.ref h = s.ref h := by
  induction names generalizing s with
  | nil => rfl
  | cons name names ih =>
    obtain ⟨hne, hrest⟩ := List.ne_and_not_mem_of_not_mem_cons hh
    refine (ih hrest).trans ?_
    rw [ref_issue, Function.update_of_ne hne]

theorem ref_issueAll {names : List String} {s : MemRocks} :
    ∀ p ∈ names.zip (s.issueAll names).1, (s.issueAll names).2.ref p.2 = .names p.1 := by
  induction names generalizing s with
  | nil => nofun
  | cons name names ih =>
    intro p hp
    rcases List.mem_cons.mp hp with rfl | hp
    · have hnot : s.next ∉ ((s.issue name).issueAll names).1 := fun hin =>
        Nat.not_succ_le_self _ (next_le_of_mem_issueAll hin)
      refine (ref_issueAll_of_not_mem hnot).trans ?_
      rw [ref_issue, Function.update_self]
    · exact ih p hp

theorem opened {names : List String} (h : ∀ name ∈ names, name ∈ s.families)
    (h' : ∀ name ∈ s.families.keys, name ∈ names) :
    s.view.Opened (s.issueAll names).2.view names (s.issueAll names).1 where
  all name := by
    show _ ↔ (s.families.lookup name).map _ ≠ none
    rw [ne_eq, Option.map_eq_none_iff, AList.lookup_eq_none, not_not]
    exact ⟨h name, h' name⟩
  length_eq := length_issueAll names s
  families := by
    funext n
    show ((s.issueAll names).2.families.lookup n).map _ = _
    rw [families_issueAll]
    rfl
  refs := ref_issueAll
  others _ hh := ref_issueAll_of_not_mem hh
  fresh _ hh := if_pos (next_le_of_mem_issueAll hh)

theorem view_create {name : String} (h : s.families.lookup name = none) :
    s.view.families name = none ∧ s.view.ref s.next = .unused ∧
      ((s.setFamily name ∅).issue name).view = s.view.create name s.next := by
  refine ⟨?_, ref_next s, View.ext ?_ (ref_issue _ name)⟩
  · show (s.families.lookup name).map _ = none
    rw [h]
    rfl
  · refine (congrArg View.families (view_setFamily s name ∅)).trans ?_
    simp only [AList.lookup_empty]
    rfl

end MemRocks

/-- RocksDB in memory, with scripted failures. -/
def memRocksDB : FamilyStore MemRocks Nat where
  ListColumnFamilies := MemRocks.scripted MemRocks.ListColumnFamilies
  DBOpen names := MemRocks.scripted (MemRocks.DBOpen names)
  CreateColumnFamily name := MemRocks.scripted (MemRocks.CreateColumnFamily name)
  DropColumnFamily h := MemRocks.scripted (MemRocks.DropColumnFamily h)
  Put h key value := MemRocks.scripted (MemRocks.Put h key value)
  close s := { s with handles := ∅ }
  view := MemRocks.view
  default_mem s := by
    show (s.families.lookup _).map _ ≠ none
    rw [ne_eq, Option.map_eq_none_iff]
    exact s.default_mem
  list_does s := by
    apply MemRocks.scripted_does
    intro names s' h
    cases h
    refine ⟨rfl, fun name => ?_⟩
    show name ∈ s.families ↔ (s.families.lookup name).map _ ≠ none
    rw [ne_eq, Option.map_eq_none_iff, AList.lookup_eq_none, not_not]
  open_does s names := by
    apply MemRocks.scripted_does
    intro handles s' h
    unfold MemRocks.DBOpen at h
    split at h
    · rename_i hall
      have hopened := MemRocks.opened hall.1 hall.2
      rw [Except.ok.inj h] at hopened
      exact hopened
    · cases h
  create_does s name := by
    apply MemRocks.scripted_does
    intro h s' hact
    unfold MemRocks.CreateColumnFamily at hact
    split at hact
    · cases hact
    · rename_i hnone
      cases hact
      exact MemRocks.view_create hnone
  drop_does s h := by
    apply MemRocks.scripted_does
    intro u s' hact
    unfold MemRocks.DropColumnFamily at hact
    split at hact
    · rename_i name href
      split at hact
      · cases hact
      · rename_i hd
        cases hact
        refine ⟨name, hd, href, View.ext ?_ ?_⟩
        · funext n
          show ((s.families.erase name).lookup n).map _ =
            Function.update s.view.families name none n
          rw [Map.lookup_erase_eq, Function.update_apply]
          split <;> rfl
        · funext h'
          show (if s.next ≤ h' then Ref.unused else _) = if s.ref h' = .names name then .stale
            else s.ref h'
          unfold MemRocks.ref
          rw [Map.lookup_filter]
          by_cases hle : s.next ≤ h'
          · rw [if_pos hle, if_pos hle]
            rfl
          · rw [if_neg hle, if_neg hle]
            cases s.handles.lookup h' with
            | none => rfl
            | some n =>
              by_cases hn : n = name <;> simp [hn, Option.filter]
    · cases hact
  put_does s h key value := by
    apply MemRocks.scripted_does
    intro u s' hact
    unfold MemRocks.Put at hact
    split at hact
    · rename_i name href
      split at hact
      · rename_i c hc
        cases hact
        refine ⟨name, fun k => c.lookup k, href, ?_, ?_⟩
        · show (s.families.lookup name).map _ = _
          rw [hc]
          rfl
        · rw [MemRocks.view_setFamily]
          refine View.ext (congrArg (fun c => Function.update s.view.families name (some c)) ?_) rfl
          funext k
          rw [Map.lookup_insert_eq, Function.update_apply]
      · cases hact
    · cases hact
  close_view s := by
    refine View.ext rfl ?_
    funext h
    show (if s.next ≤ h then Ref.unused else _) = if s.ref h = .unused then Ref.unused else .stale
    unfold MemRocks.ref
    by_cases hle : s.next ≤ h
    · rw [if_pos hle, if_pos hle]
      rfl
    · rw [if_neg hle, if_neg hle]
      cases s.handles.lookup h <;> simp

end DistroDefender.Kvdb
