import DistroDefender.Store.Refinement
import DistroDefender.Store.Stepwise

/-!
# The store under its clients is a namespaced map

The clients of a store over any tree driver see the histories of a namespaced map that answers one
call at a time (`map_linearizable`): the lock joined to the refinement of single calls. `MapStep`
says what the map answers. The driver may refuse what the map allows, and then nothing changes.
-/

namespace DistroDefender.Store

open Base Lib

/-- The mutating call of the store behind a locked call. -/
def LockedCall.op : LockedCall → Option Op
  | .createDoc name ns content => some (.createDoc name ns content)
  | .updateDoc name content => some (.updateDoc name content)
  | .upsertDoc name ns content => some (.upsertDoc name ns content)
  | .deleteDoc name => some (.deleteDoc name)
  | .deleteCol name ns => some (.deleteCol name ns)
  | .getNamespace _ | .readDoc _ | .listNamespaces | .readCol .. | .existsDoc _
  | .existsCol .. => none

/-- What the map answers to a call, and what it becomes. -/
inductive MapStep (m : DocMap) : LockedCall → Except Throw LockedAnswer → DocMap → Prop
  | getNamespace (n : Name) : MapStep m (.getNamespace n) (.ok (.namespaceId (m.owner n))) m
  | readDoc {n : Name} {ns : NamespaceId} {content : Doc} (h : m n = some (ns, content)) :
      MapStep m (.readDoc n) (.ok (.doc (.ok content))) m
  | noDoc {n : Name} (h : m n = none) :
      MapStep m (.readDoc n) (.ok (.doc (.error ⟨"Document does not exist"⟩))) m
  | listNamespaces {l : List NamespaceId} (sorted : l.Pairwise (· < ·))
      (hmem : ∀ ns, ns ∈ l ↔ ∃ n, m.owner n = some ns) :
      MapStep m .listNamespaces (.ok (.namespaces l)) m
  /-- The beginnings, one part longer than the collection, of the names below it. -/
  | readCol {c : Name} {ns : NamespaceId} {col : Col} (hne : col ≠ [])
      (sorted : col.Pairwise (· < ·)) (hmem : ∀ k, k ∈ col ↔ ∃ n, m.owner n = some ns ∧ c.Below n ∧
        takeParts n c.parts.length = k) :
      MapStep m (.readCol c ns) (.ok (.col (.ok col))) m
  | noCol {c : Name} {ns : NamespaceId} {e : Error} (h : ∀ n, m.owner n = some ns → ¬ c.Below n) :
      MapStep m (.readCol c ns) (.ok (.col (.error e))) m
  | existsDoc (n : Name) : MapStep m (.existsDoc n) (.ok (.found (m n).isSome)) m
  | existsCol {c : Name} {ns : NamespaceId} {b : Bool}
      (h : b = true ↔ ∃ n, c.Below n ∧ m.owner n = some ns) :
      MapStep m (.existsCol c ns) (.ok (.found b)) m
  | done {q : LockedCall} {op : Op} {a : OwnedMap.Op Name NamespaceId Doc} (hq : q.op = some op)
      (ha : op.onMap = some a) (enabled : a.Enabled Name.Below m) :
      MapStep m q (.ok (.done none)) (a.effect Name.Below m)
  | failed {q : LockedCall} {op : Op} {r : Except Throw LockedAnswer} (hq : q.op = some op)
      (hr : r ≠ .ok (.done none)) : MapStep m q r m

/-- The map that starts as `m₀`. -/
def mapObject (E : Type) (m₀ : DocMap) :
    Object DocMap (LockedCall × E) (Except Throw LockedAnswer) where
  init m := m = m₀
  step m q r m' := MapStep m q.1 r m'

section

variable {σ : Type} {d : TreeDriver σ} {s : Store σ} {m : DocMap}

/-- What a call does to a store that holds the map. -/
def Stepped (d : TreeDriver σ) (m : DocMap) (q : LockedCall)
    (x : EStateM.Result Throw (Store σ) LockedAnswer) : Prop :=
  ∃ m', MapStep m q (answer x) m' ∧ Holds d (resultState x) m'

theorem LockedCall.perform_op {q : LockedCall} {op : Op} (h : q.op = some op) (d : IDriver σ) :
    perform d q = LockedAnswer.done <$> exec d op := by
  cases q <;> cases h <;> rfl

theorem LockedCall.onMap_ne_none {q : LockedCall} {op : Op} (h : q.op = some op) :
    op.onMap ≠ none := by
  cases q <;> cases h <;> exact Option.some_ne_none _

/-- A call that may change the map. -/
theorem Holds.writes (h : Holds d s m) {q : LockedCall} {op : Op} (hq : q.op = some op) :
    Stepped d m q ((perform d.toIDriver q).run s) := by
  rw [LockedCall.perform_op hq, run_fmap]
  obtain ⟨m', hm', hs'⟩ :=
    exec_step h (l := (op, succeeded ((exec d.toIDriver op).run s))) ⟨rfl, rfl⟩
  obtain ⟨a, ha⟩ := Option.ne_none_iff_exists'.mp (LockedCall.onMap_ne_none hq)
  simp only [mapSystem, OwnedMap.system, ha] at hm'
  generalize (exec d.toIDriver op).run s = res at hm' hs' ⊢
  rcases res with ⟨_ | e, s'⟩ | ⟨e, s'⟩
  · obtain ⟨hen, rfl⟩ := hm'
    exact ⟨_, .done hq ha hen, hs'⟩
  · cases hm'
    exact ⟨m, .failed hq (fun hr => by cases hr), hs'⟩
  · cases hm'
    exact ⟨m, .failed hq (fun hr => by cases hr), hs'⟩

theorem Holds.steps_readDoc (h : Holds d s m) (n : Name) :
    Stepped d m (.readDoc n) ((perform d.toIDriver (.readDoc n)).run s) := by
  have hanswer := h.answers.readDoc n
  show Stepped d m (.readDoc n) ((orThrow (Store.readDoc d.toIDriver s n) >>= fun r =>
    pure (LockedAnswer.doc r)).run s)
  rw [hanswer]
  cases hn : m n with
  | none => exact ⟨m, .noDoc hn, h⟩
  | some p => exact ⟨m, .readDoc hn, h⟩

theorem Holds.mem_filterByPrefix (h : Holds d s m) {c n : Name} {ns : NamespaceId} :
    n ∈ s.cache.filterByPrefix c ns ↔ m.owner n = some ns ∧ c.Below n := by
  rw [h.wf.mem_filterByPrefix, h.cached]

theorem Holds.steps_readCol (h : Holds d s m) (c : Name) (ns : NamespaceId) :
    Stepped d m (.readCol c ns) (.ok (.col (Store.readCol s c ns)) s) := by
  refine ⟨m, ?_, h⟩
  unfold Store.readCol
  by_cases hnil : s.cache.filterByPrefix c ns = []
  · simp only [hnil, if_true]
    refine .noCol fun n hn hb => ?_
    have hmem := h.mem_filterByPrefix.mpr ⟨hn, hb⟩
    rw [hnil] at hmem
    cases hmem
  · simp only [hnil, if_false]
    have hmem : ∀ k, k ∈ cutName (s.cache.filterByPrefix c ns) c.parts.length ↔
        ∃ n, m.owner n = some ns ∧ c.Below n ∧ takeParts n c.parts.length = k := by
      intro k
      unfold cutName
      rw [mem_sortedSet, List.mem_map]
      constructor
      · rintro ⟨n, hn, rfl⟩
        have hf := h.mem_filterByPrefix.mp (List.mem_filter.mp hn).1
        exact ⟨n, hf.1, hf.2, rfl⟩
      · rintro ⟨n, hn, hb, rfl⟩
        exact ⟨n, List.mem_filter.mpr ⟨h.mem_filterByPrefix.mpr ⟨hn, hb⟩, decide_eq_true hb.2⟩, rfl⟩
    refine .readCol ?_ (pairwise_sortedSet _) hmem
    obtain ⟨n, hn⟩ := List.exists_mem_of_ne_nil _ hnil
    have hf := h.mem_filterByPrefix.mp hn
    exact List.ne_nil_of_mem ((hmem _).mpr ⟨n, hf.1, hf.2, rfl⟩)

/-- Every call steps as the map does. -/
theorem Holds.steps (h : Holds d s m) (q : LockedCall) :
    Stepped d m q ((perform d.toIDriver q).run s) := by
  cases q with
  | getNamespace n =>
    refine ⟨m, ?_, h⟩
    show MapStep m _ (.ok (.namespaceId (Store.getNamespace s n))) m
    rw [h.answers.getNamespace]
    exact .getNamespace n
  | readDoc n => exact h.steps_readDoc n
  | listNamespaces =>
    exact ⟨m, .listNamespaces h.answers.listNamespaces_sorted h.answers.listNamespaces, h⟩
  | readCol c ns => exact h.steps_readCol c ns
  | existsDoc n =>
    refine ⟨m, ?_, h⟩
    show MapStep m _ (.ok (.found (Store.existsDoc s n))) m
    have hfound : Store.existsDoc s n = (m n).isSome := by
      rw [Bool.eq_iff_iff, h.answers.existsDoc, Option.isSome_iff_ne_none]
    rw [hfound]
    exact .existsDoc n
  | existsCol c ns => exact ⟨m, .existsCol (h.answers.existsCol c ns), h⟩
  | createDoc | updateDoc | upsertDoc | deleteDoc | deleteCol => exact h.writes rfl

end

section

variable {σ C E : Type} {A : C → Type} {P : E → DriverProg C A} {h : (c : C) → Call σ (A c)}
  {d : E → TreeDriver σ} {docs : σ → Name → Option Doc} {s₀ : Store σ} {m₀ : DocMap}

/-- The drivers differ in how what they ask of their surroundings goes, not in what they keep. -/
theorem sequential_refines (hdocs : ∀ e, (d e).docs = docs)
    (h₀ : Represents s₀.cache (docs s₀.driver) m₀) :
    Object.Refines (sequential (fun e => (d e).toIDriver) s₀) (mapObject E m₀)
      fun s m => Represents s.cache (docs s.driver) m where
  init s hs := ⟨m₀, rfl, by rw [hs]; exact h₀⟩
  step := by
    rintro s m q r s' hm ⟨rfl, rfl⟩
    have hholds : Holds (d q.2) s m := by
      unfold Holds
      rw [hdocs]
      exact hm
    obtain ⟨m', hstep, hm'⟩ := hholds.steps q.1
    refine ⟨m', hstep, ?_⟩
    rw [← hdocs q.2]
    exact hm'

/-- The clients of a store that holds a map see what a map answers one call at a time, in every run
in which no other call overlaps an `updateDoc`. -/
theorem map_linearizable (hP : ∀ e, (P e).Implements h (d e).toIDriver)
    (hdocs : ∀ e, (d e).docs = docs) (h₀ : Represents s₀.cache (docs s₀.driver) m₀) {ι : Type}
    [DecidableEq ι] {ls : List (ι × Locked.Act Throw (LockedCall × E) LockedAnswer)} {x}
    (hls : (((locked P h s₀).system ι).guarded UpdatesApart).Trace ls x) :
    (mapObject E m₀).Linearizable (Locked.history ls) :=
  (sequential_refines hdocs h₀).linearizable (locked_linearizable hP hls)

end

section Sample

/-- A client of an empty store creates a document and reads it again; before the driver is asked for
it another client asks whether it is there. -/
theorem map_linearizable_between :
    (mapObject Unit OwnedMap.empty).Linearizable
      [(true, .invoke (.createDoc decoderName systemNs .null, ())),
        (true, .respond (.ok (.done none))), (true, .invoke (.readDoc decoderName, ())),
        (false, .invoke (.existsDoc decoderName, ())), (false, .respond (.ok (.found true))),
        (true, .respond (.ok (.doc (.ok .null))))] := by
  have hrest : (((locked (fun _ : Unit => DriverProg.whole) (DriverCall.handle memDriver.toIDriver)
      ⟨.empty, .empty⟩).system Bool).guarded UpdatesApart).Trace []
      (⟨.empty, .empty⟩, fun _ => .idle) :=
    .nil ⟨rfl, fun _ => rfl⟩
  obtain ⟨ls, f, hls, hidle, hhist⟩ :=
    Locked.trace_alone hrest (fun _ => rfl) true (.createDoc decoderName systemNs .null, ())
  have hreads : ∀ q : LockedCall × Unit, q.1.need = .shared →
      Prog.Reads (Stepwise.handle (DriverCall.handle memDriver.toIDriver))
        (Stepwise.body DriverProg.whole q.1) :=
    fun _ hq => Stepwise.reads_body (DriverProg.whole_implements memDriver.toIDriver).reads hq
  obtain ⟨ls', f', hls', -, hhist'⟩ := Locked.trace_between hreads hls hidle
    (show true ≠ false by decide) (.readDoc decoderName, ())
      (.existsDoc decoderName, ()) rfl rfl rfl rfl rfl
  have h₀ : Represents DBDocNames.empty (memDriver.docs .empty) OwnedMap.empty :=
    .empty fun _ _ => rfl
  have hlin := map_linearizable (fun _ => DriverProg.whole_implements memDriver.toIDriver)
    (fun _ => rfl) h₀ hls'
  unfold Locked.history at hlin hhist hhist'
  rw [List.nil_append, List.filterMap_append] at hlin
  rw [hhist, hhist'] at hlin
  exact hlin

end Sample

end DistroDefender.Store
