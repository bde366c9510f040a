import DistroDefender.Kvdb.Sessions

/-!
# Handlers are counted

In every run with fewer than 2³² live handlers, the collection counts exactly the live handlers
(`counted`): by database and scope, and as a total. The invariant is `Kvdb.Counts` of the pairs of
the live handlers; only obtaining and destroying a handler touch the collection, and each changes
the list by one pair (`counts_step`).
-/

namespace DistroDefender.Kvdb

open Base Lib

/-- The database and the scope a handler was obtained for. -/
def KVDBHandler.pair {η : Type} (h : KVDBHandler η) : String × String := (h.dbName, h.scopeName)

section

variable {σ η : Type} {R : RocksDB σ η} {J : Rapidjson}

/-! ## The calls that do not count -/

/-- The manager's collection is `c`. -/
def CollectionIs (c : KVDBHandlerCollection) (m : KVDBManager σ η) : Prop :=
  m.kvdbHandlerCollection = c

/-- The calls that change the collection. -/
def KvdbCall.counts : KvdbCall η → Bool
  | .addKVDBHandler .. | .removeKVDBHandler .. => true
  | _ => false

theorem handle_collection (R : RocksDB σ η) (files : Files) {c : KvdbCall η} (hc : c.counts = false)
    (m : KVDBManager σ η) :
    (resultState ((handle R files c).run m)).kvdbHandlerCollection = m.kvdbHandlerCollection := by
  cases c with
  | addKVDBHandler db scope | removeKVDBHandler db scope => cases hc
  | CreateColumnFamily name | DropColumnFamily h | Put h key value =>
    exact onRocksDB_collection _ m
  | readFile path =>
    show (resultState ((orThrow (files path)).run m)).kvdbHandlerCollection = _
    cases files path <;> rfl
  | count name | lookup name | find name | emplace name h | erase name
  | getKVDBHandlersCount db => rfl

variable {files : Files} {c : KVDBHandlerCollection}

theorem keeps_call {k : KvdbCall η} (hk : k.counts = false) :
    Prog.Keeps (handle R files) (CollectionIs c) (call k) :=
  .call (fun m hm => (handle_collection R files hk m).trans hm) fun _ => .ret _

theorem keeps_createDB (name : String) :
    Prog.Keeps (handle R files) (CollectionIs c) (createDB name) := by
  refine .bind (keeps_call rfl) fun found => ?_
  split
  · exact .ret _
  · refine .bind (keeps_call rfl) fun status => ?_
    cases status with
    | error text => exact .ret _
    | ok h => exact .bind (keeps_call rfl) fun _ => .ret _

theorem keeps_deleteDB (name : String) :
    Prog.Keeps (handle R files) (CollectionIs c) (deleteDB name) := by
  refine .bind (keeps_call rfl) fun refCount => ?_
  split
  · exact .ret _
  · refine .bind (keeps_call rfl) fun found => ?_
    cases found with
    | none => exact .ret _
    | some h =>
      refine .bind (keeps_call rfl) fun dropped => ?_
      rcases dropped with e | text | u
      · dsimp only
        split
        · exact .ret _
        · exact .raise _
      · exact .ret _
      · exact .bind (keeps_call rfl) fun _ => .ret _

theorem after_collection {α : Type} {p : KvdbM η α}
    (hp : ∀ c, Prog.Keeps (handle R files) (CollectionIs c) p) (m : KVDBManager σ η) :
    (after R files p m).kvdbHandlerCollection = m.kvdbHandlerCollection :=
  hp m.kvdbHandlerCollection m rfl

def SameCollection (m m' : KVDBManager σ η) : Prop :=
  m'.kvdbHandlerCollection = m.kvdbHandlerCollection

/-- Opening and closing do not count. -/
theorem initializeManager_collection (dirs : Option Throw) (m : KVDBManager σ η) :
    (resultState ((initializeManager R dirs).run m)).kvdbHandlerCollection =
      m.kvdbHandlerCollection := by
  have hmoves : Moves SameCollection (initializeManager R dirs) m := by
    refine .get_bind ?_
    split
    · refine .bind ?_ fun _ _ _ => .modify rfl
      unfold initializeMainDB
      cases dirs with
      | some e =>
        refine .bind (.raise e) fun _ _ h => ?_
        cases h
      | none =>
        refine .bind (.onPart (fun _ => rfl) _) fun listStatus _ _ => ?_
        refine .bind (.onPart (fun _ => rfl) _) fun statusOpen _ _ => ?_
        cases statusOpen with
        | error status => exact .raise _
        | ok cfHandles => exact .modify rfl
    · exact .pure _
  exact hmoves.keeps (I := CollectionIs m.kvdbHandlerCollection) (fun _ _ h h' => h.trans h') rfl

theorem finalize_collection (m : KVDBManager σ η) :
    (resultState ((finalize R).run m)).kvdbHandlerCollection = m.kvdbHandlerCollection := by
  show (resultState (EStateM.run (if m.isInitialized then _ else _) m)).kvdbHandlerCollection = _
  cases m.isInitialized <;> rfl

/-! ## Runs -/

theorem counts_step {s s' : Session σ η} {o : Op η}
    (hcoll : s.manager.kvdbHandlerCollection.Counts (s.live.map KVDBHandler.pair))
    (hcount : ∀ p, (s.live.map KVDBHandler.pair).count p < UInt32.size) (hs : Step R J s o s') :
    s'.manager.kvdbHandlerCollection.Counts (s'.live.map KVDBHandler.pair) := by
  cases hs with
  | setUp dirs => rwa [initializeManager_collection]
  | finalize => rwa [finalize_collection]
  | createDB name h => rwa [after_collection fun c => keeps_createDB name]
  | createDBFromFile name path files h =>
    rwa [after_collection fun c => keeps_createDBFromFile (keeps_createDB name)
      (fun h key value m hm => (handle_collection R files (c := .Put h key value) rfl m).trans hm)
      (keeps_deleteDB name) path]
  | deleteDB name => rwa [after_collection fun c => keeps_deleteDB name]
  | obtained hrun =>
    rw [runOp_getKVDBHandler] at hrun
    split at hrun
    · cases hrun
    · cases hrun
      exact hcoll.addKVDBHandler _ _
  | refused hrun =>
    rw [runOp_getKVDBHandler] at hrun
    split at hrun
    · cases hrun
      exact hcoll
    · cases hrun
  | @destroy m before behind h =>
    rw [after_destroy]
    have hperm : ((before ++ h :: behind).map KVDBHandler.pair).Perm
        (h.pair :: (before ++ behind).map KVDBHandler.pair) :=
      (List.perm_middle).map _
    have hless := hcount h.pair
    rw [hperm.count_eq, List.count_cons_self] at hless
    exact (hcoll.perm hperm).removeKVDBHandler (Nat.lt_of_succ_lt hless)

/-- The live handlers for a database and a scope. -/
def Session.liveFor (s : Session σ η) (db scope : String) : Nat :=
  s.live.countP fun h => decide (h.dbName = db ∧ h.scopeName = scope)

/-- The live handlers for a database. -/
def Session.liveOf (s : Session σ η) (db : String) : Nat :=
  s.live.countP fun h => decide (h.dbName = db)

/-- The collection, and with it `deleteDB`, go by the live handlers. -/
structure CountsLive (R : RocksDB σ η) (s : Session σ η) : Prop where
  refMap : ∀ db scope,
    ((s.manager.kvdbHandlerCollection.getRefMap db).lookup scope).map UInt32.toNat =
    if s.liveFor db scope = 0 then none else some (s.liveFor db scope)
  dbNames : ∀ db, db ∈ s.manager.kvdbHandlerCollection.getDBNames ↔ s.liveOf db ≠ 0
  dbNames_sorted : s.manager.kvdbHandlerCollection.getDBNames.Pairwise (· < ·)
  count : ∀ db, (s.manager.kvdbHandlerCollection.getKVDBHandlersCount db).toNat = s.liveOf db
  /-- Where dropping the column family works, `deleteDB` does when the database exists unused. -/
  deleteDB_iff : ∀ name, (∀ h, s.manager.mapCFHandles.lookup name = some h →
      ∃ t, (R.DropColumnFamily h).run s.manager.rocksDB = .ok (.ok ()) t) →
    ((∃ m, runOp R noFiles (deleteDB name) s.manager = .ok none m) ↔
      name ∈ s.manager.mapCFHandles ∧ s.liveOf name = 0)
  deleteDB_refused : ∀ name, ¬ (name ∈ s.manager.mapCFHandles ∧ s.liveOf name = 0) →
    after R noFiles (deleteDB name) s.manager = s.manager

theorem inductive_counts : ((sessions R J).guarded BelowRange).Inductive fun s =>
    s.live.length < UInt32.size ∧
      s.manager.kvdbHandlerCollection.Counts (s.live.map KVDBHandler.pair) where
  init s hs := by
    obtain ⟨storage, rfl⟩ := hs
    refine ⟨?_, .empty⟩
    show 0 < UInt32.size
    decide
  step s o s' hI hs := by
    obtain ⟨hlen, hcoll⟩ := hI
    obtain ⟨hguard, hs⟩ := hs
    have hcount : ∀ p, (s.live.map KVDBHandler.pair).count p < UInt32.size := fun p =>
      Nat.lt_of_le_of_lt (List.count_le_length.trans_eq (List.length_map _)) hlen
    refine ⟨?_, counts_step hcoll hcount hs⟩
    cases hs with
    | setUp dirs | finalize | createDB name h | createDBFromFile name path files h | deleteDB name
    | refused hrun => exact hlen
    | obtained hrun => exact hguard _ _ rfl
    | destroy h =>
      simp only [List.length_append, List.length_cons] at hlen ⊢
      omega

theorem count_pair_eq (s : Session σ η) (db scope : String) :
    (under db (s.live.map KVDBHandler.pair)).count scope = s.liveFor db scope := by
  rw [count_under, List.count_eq_countP, List.countP_map]
  refine List.countP_congr fun h _ => ?_
  simp [KVDBHandler.pair]

theorem length_under_eq (s : Session σ η) (db : String) :
    (under db (s.live.map KVDBHandler.pair)).length = s.liveOf db := by
  unfold Session.liveOf
  induction s.live with
  | nil => rfl
  | cons h live ih =>
    rw [List.map_cons, List.countP_cons, ← ih]
    by_cases hdb : h.dbName = db
    · have hpair : h.pair = (db, h.scopeName) := by rw [← hdb]; rfl
      rw [hpair, under_cons_self, List.length_cons, decide_eq_true hdb, if_pos rfl]
    · rw [show h.pair = (h.dbName, h.scopeName) from rfl, under_cons_of_ne hdb, decide_eq_false hdb,
        if_neg Bool.false_ne_true, Nat.add_zero]

/-- What the counts of the live handlers say. -/
theorem countsLive {s : Session σ η} (hlen : s.live.length < UInt32.size)
    (h : s.manager.kvdbHandlerCollection.Counts (s.live.map KVDBHandler.pair)) :
    CountsLive R s := by
  have hsize : ∀ n, n ≤ s.live.length → (UInt32.ofNat n).toNat = n := fun n hn =>
    UInt32.toNat_ofNat_of_lt' (Nat.lt_of_le_of_lt hn hlen)
  have hcount : ∀ db, (s.manager.kvdbHandlerCollection.getKVDBHandlersCount db).toNat =
      s.liveOf db := by
    intro db
    rw [h.getKVDBHandlersCount db, length_under_eq]
    exact hsize _ List.countP_le_length
  have hzero : ∀ db, s.manager.kvdbHandlerCollection.getKVDBHandlersCount db = 0 ↔
      s.liveOf db = 0 := by
    intro db
    rw [← hcount db]
    exact ⟨fun h0 => by rw [h0]; rfl, fun h0 => UInt32.toNat_inj.mp h0⟩
  exact {
    refMap := by
      intro db scope
      rw [h.getRefMap db scope, count_pair_eq, ← count_pair_eq s db scope]
      by_cases hmem : scope ∈ under db (s.live.map KVDBHandler.pair)
      · rw [if_pos hmem, if_neg (fun h0 => List.count_eq_zero.mp h0 hmem), count_pair_eq,
          Option.map_some]
        exact congrArg some (hsize _ List.countP_le_length)
      · rw [if_neg hmem, if_pos (List.count_eq_zero.mpr hmem)]
        rfl
    dbNames := by
      intro db
      rw [h.mem_getDBNames, ← length_under_eq, ne_eq, List.length_eq_zero_iff,
        List.eq_nil_iff_forall_not_mem, not_forall]
      simp only [mem_under, not_not]
    dbNames_sorted := pairwise_sortedSet _
    count := hcount
    deleteDB_iff := by
      intro name hdrop
      constructor
      · rintro ⟨m, hrun⟩
        by_contra hnot
        rw [← hzero name] at hnot
        obtain ⟨e, he⟩ := deleteDB_refused R noFiles hnot
        cases he.symm.trans hrun
      · rintro ⟨hmem, hunused⟩
        obtain ⟨h, hfind⟩ := Option.isSome_iff_exists.mp (AList.lookup_isSome.mpr hmem)
        obtain ⟨t, ht⟩ := hdrop h hfind
        exact ⟨_, deleteDB_dropped ((hzero name).mpr hunused) hfind ht⟩
    deleteDB_refused := by
      intro name hnot
      rw [← hzero name] at hnot
      obtain ⟨e, he⟩ := deleteDB_refused R noFiles hnot
      unfold after
      rw [he]
      rfl }

/-- The collection counts the live handlers, in every run that keeps below 2³² of them. -/
theorem counted {s : Session σ η} (h : ((sessions R J).guarded BelowRange).Reachable s) :
    CountsLive R s := by
  obtain ⟨hlen, hcoll⟩ := inductive_counts.holds h
  exact countsLive hlen hcoll

end

/-- A run that obtains a handler. -/
theorem counted_once : ∃ s : Session MemRocks Nat, s.liveFor "geo" "decoder" = 1 ∧
    CountsLive memRocksDB.toRocksDB s := by
  have hget : Step memRocksDB.toRocksDB noJson ⟨managerWith "geo" [], []⟩
      (.getKVDBHandler "geo" "decoder") ⟨_, [⟨1, "geo", "decoder"⟩]⟩ := .obtained rfl
  refine ⟨_, rfl,
    counted ((reachable_managerWith "geo" [] noJson rfl).step ⟨fun _ _ _ => ?_, hget⟩)⟩
  show 1 < UInt32.size
  decide

end DistroDefender.Kvdb
