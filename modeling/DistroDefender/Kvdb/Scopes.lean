import DistroDefender.Kvdb.Counts

/-!
# The scopes report

`getKVDBScopesInfo` adds every count of the handlers report to a counter of its scope. Each scope
meets a database once, so the counters are the report turned over (`getKVDBScopesInfo_transposes`).
What the reports sum to is the number of live handlers as long as no counter wraps.
-/

namespace DistroDefender.Kvdb

open Base Lib

namespace KVDBHandlerCollection

/-- A count of the handlers report is added to the counter of its scope. `counterMap` refers into
the map, and assigning it to its own entry changes nothing. -/
def addScopeRef (dbName : String) (refCounterMap : Map String RefCounter)
    (scope : String × UInt32) : Map String RefCounter :=
  let counterMap := (refCounterMap.lookup scope.1).getD ⟨∅⟩
  refCounterMap.insert scope.1 (counterMap.addRef dbName scope.2)

/-- `KVDBManager::getKVDBScopesInfo`. -/
def getKVDBScopesInfo (c : KVDBHandlerCollection) : Map String RefInfo :=
  let refCounterMap := (Map.inOrder c.getKVDBHandlersInfo).foldl
    (fun m e => (Map.inOrder e.2).foldl (addScopeRef e.1) m) ∅
  (Map.inOrder refCounterMap).foldl (fun retValue e => retValue.emplace e.1 e.2.getRefMap) ∅

end KVDBHandlerCollection

open KVDBHandlerCollection

/-! ## Reports as lists -/

/-- The counts of a report, with their outer and inner keys. -/
def rows (info : Map String RefInfo) : List ((String × String) × UInt32) :=
  (Map.inOrder info).flatMap fun e => (Map.inOrder e.2).map fun x => ((e.1, x.1), x.2)

theorem mem_rows {info : Map String RefInfo} {a b : String} {k : UInt32} :
    ((a, b), k) ∈ rows info ↔ (info.lookup a).bind (·.lookup b) = some k := by
  unfold rows
  rw [List.mem_flatMap, Option.bind_eq_some_iff]
  constructor
  · rintro ⟨⟨a', inner⟩, ha, hx⟩
    obtain ⟨⟨b', k'⟩, hb, heq⟩ := List.mem_map.mp hx
    cases heq
    exact ⟨inner, Map.mem_inOrder.mp ha, Map.mem_inOrder.mp hb⟩
  · rintro ⟨inner, ha, hb⟩
    exact ⟨(a, inner), Map.mem_inOrder.mpr ha, List.mem_map_of_mem (Map.mem_inOrder.mpr hb)⟩

theorem nodup_rows (info : Map String RefInfo) : ((rows info).map Prod.fst).Nodup := by
  have hnodup := Map.nodup_inOrder info
  unfold rows
  generalize Map.inOrder info = es at hnodup ⊢
  induction es with
  | nil => exact List.nodup_nil
  | cons e es ih =>
    rw [List.map_cons, List.nodup_cons] at hnodup
    rw [List.flatMap_cons, List.map_append, List.nodup_append']
    refine ⟨?_, ih hnodup.2, ?_⟩
    · rw [List.map_map]
      have hmap : (Prod.fst ∘ fun x : String × UInt32 => ((e.1, x.1), x.2)) = (e.1, ·) ∘ Prod.fst :=
        rfl
      rw [hmap, ← List.map_map]
      exact (Map.nodup_inOrder e.2).map fun _ _ h => (Prod.mk.inj h).2
    · -- the outer keys are apart
      intro p hp hrest
      obtain ⟨x, hx, rfl⟩ := List.mem_map.mp hp
      obtain ⟨y, hy, heq⟩ := List.mem_map.mp hrest
      obtain ⟨e', he', hy⟩ := List.mem_flatMap.mp hy
      obtain ⟨i, -, rfl⟩ := List.mem_map.mp hx
      obtain ⟨i', -, rfl⟩ := List.mem_map.mp hy
      exact hnodup.1 ((Prod.mk.inj heq).1 ▸ List.mem_map_of_mem he')

/-! ## Turning the report over -/

/-- The counters hold these counts, and no counter is empty. -/
structure Collects (m : Map String RefCounter) (T : List ((String × String) × UInt32)) : Prop where
  counts : ∀ s d k, (m.lookup s).bind (·.refMap.lookup d) = some k ↔ ((d, s), k) ∈ T
  inhabited : ∀ s r, m.lookup s = some r → ∃ d k, r.refMap.lookup d = some k

theorem Collects.nil : Collects ∅ [] where
  counts s d k := by simp
  inhabited s r h := by cases (AList.lookup_empty s).symm.trans h

/-- A count for a pair that is not there yet is added as it is. -/
theorem Collects.snoc {m : Map String RefCounter} {T : List ((String × String) × UInt32)}
    (h : Collects m T) {d s : String} {k : UInt32} (hnew : (d, s) ∉ T.map Prod.fst) :
    Collects (addScopeRef d m (s, k)) (T ++ [((d, s), k)]) := by
  have hfresh : ((m.lookup s).getD ⟨∅⟩).refMap.lookup d = none := by
    cases hs : m.lookup s with
    | none => exact AList.lookup_empty d
    | some r =>
      rw [Option.getD_some, Option.eq_none_iff_forall_ne_some]
      intro k' hk'
      apply hnew
      have hmem := (h.counts s d k').mp (by rw [hs]; exact hk')
      exact List.mem_map_of_mem (f := Prod.fst) hmem
  have hadded : ∀ d', (((m.lookup s).getD ⟨∅⟩).addRef d k).refMap.lookup d' =
      if d' = d then some k else ((m.lookup s).getD ⟨∅⟩).refMap.lookup d' := by
    intro d'
    unfold RefCounter.addRef countUp
    rw [Map.lookup_insert_eq, hfresh, Option.getD_none, UInt32.zero_add]
  have hother : ∀ d', ((m.lookup s).getD ⟨∅⟩).refMap.lookup d' =
      (m.lookup s).bind (·.refMap.lookup d') := by
    intro d'
    cases m.lookup s with
    | none => exact AList.lookup_empty d'
    | some r => rfl
  constructor
  · intro s' d' k'
    unfold addScopeRef
    rw [Map.lookup_insert_eq, List.mem_append, ← h.counts, List.mem_singleton]
    by_cases hs : s' = s
    · rw [if_pos hs, hs, Option.bind_some, hadded]
      by_cases hd : d' = d
      · rw [if_pos hd, hd, ← hother, hfresh]
        simp [eq_comm]
      · rw [if_neg hd, hother]
        simp [hd]
    · rw [if_neg hs]
      simp [hs]
  · intro s' r hr
    unfold addScopeRef at hr
    rw [Map.lookup_insert_eq] at hr
    split at hr
    · cases hr
      exact ⟨d, k, by rw [hadded, if_pos rfl]⟩
    · exact h.inhabited s' r hr

theorem collects_rows {T : List ((String × String) × UInt32)} (hnodup : (T.map Prod.fst).Nodup) :
    Collects (T.foldl (fun m t => addScopeRef t.1.1 m (t.1.2, t.2)) ∅) T := by
  induction T using List.reverseRecOn with
  | nil => exact .nil
  | append_singleton T t ih =>
    obtain ⟨⟨d, s⟩, k⟩ := t
    rw [List.map_append, List.nodup_append'] at hnodup
    rw [List.foldl_append]
    refine (ih hnodup.1).snoc fun hmem => ?_
    exact hnodup.2.2 hmem List.mem_cons_self

/-- The two loops are one over the rows of the handlers report. -/
theorem lookup_getKVDBScopesInfo (c : KVDBHandlerCollection) (scope : String) :
    c.getKVDBScopesInfo.lookup scope =
      (((rows c.getKVDBHandlersInfo).foldl (fun m t => addScopeRef t.1.1 m (t.1.2, t.2)) ∅).lookup
        scope).map RefCounter.getRefMap := by
  unfold getKVDBScopesInfo rows
  rw [Map.lookup_foldl_inOrder, List.foldl_flatMap]
  simp only [List.foldl_map]

/-- The scopes report has the counts of the handlers report under the keys turned around, and no
scope without a database. -/
structure Transposes (scopes handlers : Map String RefInfo) : Prop where
  counts : ∀ s d k, (scopes.lookup s).bind (·.lookup d) = some k ↔
    (handlers.lookup d).bind (·.lookup s) = some k
  inhabited : ∀ s info, scopes.lookup s = some info → ∃ d k, info.lookup d = some k

theorem getKVDBScopesInfo_transposes (c : KVDBHandlerCollection) :
    Transposes c.getKVDBScopesInfo c.getKVDBHandlersInfo := by
  have hcollects := collects_rows (nodup_rows c.getKVDBHandlersInfo)
  constructor
  · intro s d k
    rw [lookup_getKVDBScopesInfo, Option.bind_map, ← mem_rows, ← hcollects.counts]
    rfl
  · intro s info hinfo
    rw [lookup_getKVDBScopesInfo] at hinfo
    obtain ⟨r, hr, rfl⟩ := Option.map_eq_some_iff.mp hinfo
    exact hcollects.inhabited s r hr

/-! ## What the reports sum to -/

/-- The sum of the counts of a report. -/
def reportTotal (info : Map String RefInfo) : Nat := ((rows info).map fun r => r.2.toNat).sum

/-- The report has the number of occurrences of every pair, in 32 bits. -/
def Reports (info : Map String RefInfo) (l : List (String × String)) : Prop :=
  ∀ a b, (info.lookup a).bind (·.lookup b) =
    if (a, b) ∈ l then some (UInt32.ofNat (l.count (a, b))) else none

theorem Reports.total {info : Map String RefInfo} {l : List (String × String)}
    (h : Reports info l) :
    reportTotal info = (l.dedup.map fun p => l.count p % UInt32.size).sum := by
  have hrows : (rows info).Perm (l.dedup.map fun p => (p, UInt32.ofNat (l.count p))) := by
    apply (List.perm_ext_iff_of_nodup (nodup_rows info).of_map ?_).mpr
    · rintro ⟨⟨a, b⟩, k⟩
      rw [mem_rows, h a b, List.mem_map]
      constructor
      · intro hk
        split at hk
        · rename_i hmem
          cases hk
          exact ⟨(a, b), List.mem_dedup.mpr hmem, rfl⟩
        · cases hk
      · rintro ⟨p, hp, heq⟩
        cases heq
        rw [if_pos (List.mem_dedup.mp hp)]
    · exact l.nodup_dedup.map fun _ _ heq => (Prod.mk.inj heq).1
  unfold reportTotal
  rw [(hrows.map _).sum_eq, List.map_map]
  exact congrArg List.sum (List.map_congr_left fun p _ => UInt32.toNat_ofNat' ..)

/-- Where no counter wraps, the report sums to the number of pairs. -/
theorem Reports.total_eq_length {info : Map String RefInfo} {l : List (String × String)}
    (h : Reports info l) (hcount : ∀ p, l.count p < UInt32.size) : reportTotal info = l.length := by
  have hsum : (l.dedup.map fun p => l.count p).sum = l.length := by
    convert List.sum_map_count_dedup_eq_length l
    rfl
  rw [h.total, ← hsum]
  exact congrArg List.sum (List.map_congr_left fun p _ => Nat.mod_eq_of_lt (hcount p))

section Reported

variable {c : KVDBHandlerCollection} {l : List (String × String)}

theorem reports_handlers (h : c.Counts l) : Reports c.getKVDBHandlersInfo l := by
  intro db scope
  rw [lookup_getKVDBHandlersInfo]
  by_cases hdb : db ∈ c.getDBNames
  · rw [if_pos hdb, Option.bind_some, h.getRefMap db scope, count_under]
    simp only [mem_under]
  · rw [if_neg hdb, if_neg fun hmem => hdb (h.mem_getDBNames.mpr ⟨scope, hmem⟩)]
    rfl

theorem reports_scopes (h : c.Counts l) : Reports c.getKVDBScopesInfo (l.map Prod.swap) := by
  intro scope db
  have hcount : (l.map Prod.swap).count (scope, db) = l.count (db, scope) :=
    List.count_map_of_injective l Prod.swap Prod.swap_injective (db, scope)
  have hmem : (scope, db) ∈ l.map Prod.swap ↔ (db, scope) ∈ l := by
    rw [← List.count_pos_iff, hcount, List.count_pos_iff]
  simp only [hmem, hcount]
  rw [← reports_handlers h db scope]
  exact Option.ext fun k => (getKVDBScopesInfo_transposes c).counts scope db k

/-- Both reports sum to the number of pairs. -/
theorem reportTotal_eq (h : c.Counts l) (hcount : ∀ p, l.count p < UInt32.size) :
    reportTotal c.getKVDBHandlersInfo = l.length ∧ reportTotal c.getKVDBScopesInfo = l.length := by
  refine ⟨(reports_handlers h).total_eq_length hcount, ?_⟩
  rw [(reports_scopes h).total_eq_length, List.length_map]
  rintro ⟨scope, db⟩
  exact (List.count_map_of_injective l Prod.swap Prod.swap_injective (db, scope)).trans_lt
    (hcount (db, scope))

end Reported

/-! ## Runs -/

section Runs

variable {σ η : Type} {R : RocksDB σ η} {J : Rapidjson}

/-- A handler is obtained only while fewer than 2³² of its database and scope are live. -/
def PairBelowRange (s : Session σ η) (o : Op η) : Prop :=
  ∀ db scope, o = .getKVDBHandler db scope → s.liveFor db scope + 1 < UInt32.size

theorem belowRange_pair {s : Session σ η} {o : Op η} (h : BelowRange s o) : PairBelowRange s o := by
  intro db scope ho
  have hfew := h db scope ho
  have hle : s.liveFor db scope ≤ s.live.length := List.countP_le_length
  omega

theorem count_pair (s : Session σ η) (db scope : String) :
    (s.live.map KVDBHandler.pair).count (db, scope) = s.liveFor db scope := by
  rw [← count_under, count_pair_eq]

theorem inductive_pairs : ((sessions R J).guarded PairBelowRange).Inductive fun s =>
    (∀ p, (s.live.map KVDBHandler.pair).count p < UInt32.size) ∧
      s.manager.kvdbHandlerCollection.Counts (s.live.map KVDBHandler.pair) where
  init s hs := by
    obtain ⟨storage, rfl⟩ := hs
    refine ⟨fun p => ?_, .empty⟩
    show List.count p [] < UInt32.size
    rw [List.count_nil]
    decide
  step s o s' hI hs := by
    obtain ⟨hcount, hcoll⟩ := hI
    obtain ⟨hguard, hs⟩ := hs
    refine ⟨?_, counts_step hcoll hcount hs⟩
    cases hs with
    | setUp dirs | finalize | createDB name h | createDBFromFile name path files h | deleteDB name
    | refused hrun => exact hcount
    | @obtained m m' live db scope h hrun =>
      rw [runOp_getKVDBHandler] at hrun
      split at hrun
      · cases hrun
      · cases hrun
        intro p
        rw [List.map_cons, List.count_cons]
        split
        · rename_i hp
          have hguard' := hguard db scope rfl
          rw [← count_pair] at hguard'
          rw [← eq_of_beq hp]
          exact hguard'
        · exact hcount p
    | @destroy m before behind h =>
      intro p
      refine Nat.lt_of_le_of_lt (List.Sublist.count_le p ?_) (hcount p)
      exact (List.Sublist.append_left (List.sublist_cons_self h behind) before).map _

/-- In every state of the collection the scopes report is the handlers report turned over; and both
sum to the number of live handlers in every run that keeps below 2³² of them for each database and
scope. -/
theorem scopes_report (R : RocksDB σ η) (J : Rapidjson) :
    (∀ c : KVDBHandlerCollection, Transposes c.getKVDBScopesInfo c.getKVDBHandlersInfo) ∧
      ∀ s, ((sessions R J).guarded PairBelowRange).Reachable s →
        reportTotal s.manager.kvdbHandlerCollection.getKVDBHandlersInfo = s.live.length ∧
          reportTotal s.manager.kvdbHandlerCollection.getKVDBScopesInfo = s.live.length := by
  refine ⟨getKVDBScopesInfo_transposes, fun s h => ?_⟩
  obtain ⟨hcount, hcoll⟩ := inductive_pairs.holds h
  have htotal := reportTotal_eq hcoll hcount
  rw [List.length_map] at htotal
  exact htotal

end Runs

/-- The manager after a handler was obtained. -/
def scopedManager : KVDBManager MemRocks Nat :=
  after memRocksDB.toRocksDB noFiles (getKVDBHandler "geo" "decoder") (managerWith "geo" [])

/-- Two handlers of one database, for two scopes. -/
theorem scopes_report_two : ∃ s : Session MemRocks Nat, s.live.length = 2 ∧
    Transposes s.manager.kvdbHandlerCollection.getKVDBScopesInfo
      s.manager.kvdbHandlerCollection.getKVDBHandlersInfo ∧
    reportTotal s.manager.kvdbHandlerCollection.getKVDBHandlersInfo = 2 ∧
    reportTotal s.manager.kvdbHandlerCollection.getKVDBScopesInfo = 2 := by
  obtain ⟨htransposes, htotals⟩ := scopes_report memRocksDB.toRocksDB noJson
  have hfirst : Step memRocksDB.toRocksDB noJson ⟨managerWith "geo" [], []⟩
      (.getKVDBHandler "geo" "decoder") ⟨scopedManager, [⟨1, "geo", "decoder"⟩]⟩ := .obtained rfl
  have hsecond : Step memRocksDB.toRocksDB noJson ⟨scopedManager, [⟨1, "geo", "decoder"⟩]⟩
      (.getKVDBHandler "geo" "rule") ⟨_, [⟨1, "geo", "rule"⟩, ⟨1, "geo", "decoder"⟩]⟩ :=
    .obtained rfl
  have hopened := (reachable_managerWith "geo" [] noJson rfl).weaken fun s o => belowRange_pair
  have hreach := (hopened.step ⟨belowRange_pair fun _ _ _ => by decide, hfirst⟩).step
    ⟨belowRange_pair fun _ _ _ => by decide, hsecond⟩
  exact ⟨_, rfl, htransposes _, htotals _ hreach⟩

/-- `n` handlers of one database and scope. -/
theorem reachable_many (n : Nat) : ∃ s : Session MemRocks Nat,
    (sessions memRocksDB.toRocksDB noJson).Reachable s ∧ "geo" ∈ s.manager.mapCFHandles ∧
      s.live.map KVDBHandler.pair = List.replicate n ("geo", "decoder") ∧
      s.manager.kvdbHandlerCollection.Counts (List.replicate n ("geo", "decoder")) := by
  induction n with
  | zero => exact ⟨_,
    (reachable_managerWith "geo" [] noJson rfl).of_guarded, by decide, rfl, .empty⟩
  | succ n ih =>
    obtain ⟨⟨m, live⟩, hreach, hmem, hlive, hcounts⟩ := ih
    obtain ⟨cf, hcf⟩ := Option.isSome_iff_exists.mp (AList.lookup_isSome.mpr hmem)
    have hrun : runOp memRocksDB.toRocksDB noFiles (getKVDBHandler "geo" "decoder") m =
        .ok (.ok ⟨cf, "geo", "decoder"⟩)
        { m with
          kvdbHandlerCollection := m.kvdbHandlerCollection.addKVDBHandler "geo" "decoder" } := by
      rw [runOp_getKVDBHandler, hcf]
    refine ⟨_, hreach.step (.obtained hrun), hmem, ?_, ?_⟩
    · rw [List.map_cons, hlive, List.replicate_succ]
      rfl
    · rw [List.replicate_succ]
      exact hcounts.addKVDBHandler "geo" "decoder"

/-- With 2³² handlers of one database and scope its counter is zero, and so is the sum. -/
theorem report_wraps : ∃ s : Session MemRocks Nat,
    (sessions memRocksDB.toRocksDB noJson).Reachable s ∧
    s.live.length = 2 ^ 32 ∧ reportTotal s.manager.kvdbHandlerCollection.getKVDBHandlersInfo = 0 ∧
      reportTotal s.manager.kvdbHandlerCollection.getKVDBScopesInfo = 0 := by
  obtain ⟨s, hreach, -, hlive, hcounts⟩ := reachable_many (2 ^ 32)
  have hwrapped : ∀ (info : Map String RefInfo) (p : String × String),
      Reports info (List.replicate (2 ^ 32) p) → reportTotal info = 0 := by
    intro info p h
    rw [h.total, List.sum_eq_zero]
    intro k hk
    obtain ⟨q, hq, rfl⟩ := List.mem_map.mp hk
    rw [List.eq_of_mem_replicate (List.mem_dedup.mp hq), List.count_replicate_self]
    rfl
  refine ⟨s, hreach, ?_, hwrapped _ _ (reports_handlers hcounts), hwrapped _ ("decoder", "geo") ?_⟩
  · have hlen := congrArg List.length hlive
    rw [List.length_map, List.length_replicate] at hlen
    exact hlen
  · have hscopes := reports_scopes hcounts
    rw [List.map_replicate] at hscopes
    exact hscopes

end DistroDefender.Kvdb
