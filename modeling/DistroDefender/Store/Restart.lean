import DistroDefender.Store.Load

/-!
# Restarting the store

A second store over the same driver answers as the first one exactly when no document is in a
namespace with a separator in its name (`Holds.restarts_iff`): the constructor reads such a name as
another one, or throws. In runs that bring no such namespace a restart is invisible (`restart_iff`).
-/

namespace DistroDefender.Store

open Base Lib

variable {σ : Type}

/-- Two stores answer alike. -/
structure SameAnswers (a b : Store σ) : Prop where
  existsDoc : ∀ n, Store.existsDoc b n = Store.existsDoc a n
  getNamespace : ∀ n, Store.getNamespace b n = Store.getNamespace a n
  listNamespaces : Store.listNamespaces b = Store.listNamespaces a
  existsCol : ∀ c ns, Store.existsCol b c ns = Store.existsCol a c ns
  readCol : ∀ c ns, Store.readCol b c ns = Store.readCol a c ns

theorem SameAnswers.of_lookup {a b : Store σ} (ha : a.cache.WF) (hb : b.cache.WF)
    (h : ∀ n, b.cache.getNamespaceId n = a.cache.getNamespaceId n) : SameAnswers a b := by
  have hmem : ∀ c ns n, n ∈ b.cache.filterByPrefix c ns ↔ n ∈ a.cache.filterByPrefix c ns := by
    intro c ns n
    rw [hb.mem_filterByPrefix, ha.mem_filterByPrefix, h n]
  have hnil : ∀ c ns, b.cache.filterByPrefix c ns = [] ↔ a.cache.filterByPrefix c ns = [] := by
    intro c ns
    rw [List.eq_nil_iff_forall_not_mem, List.eq_nil_iff_forall_not_mem]
    exact forall_congr' fun n => not_congr (hmem c ns n)
  refine ⟨fun n => congrArg Option.isSome (h n), h, sortedSet_congr fun ns => ?_, fun c ns => ?_,
    fun c ns => ?_⟩
  · rw [← mem_sortedSet, ← mem_sortedSet (l := a.cache.nsToNames.map _)]
    show ns ∈ b.cache.getNamespaceIds ↔ ns ∈ a.cache.getNamespaceIds
    rw [hb.mem_getNamespaceIds, ha.mem_getNamespaceIds]
    exact exists_congr fun n => by rw [h n]
  · unfold Store.existsCol
    rw [Bool.eq_iff_iff]
    simp only [Bool.not_eq_true', ← Bool.not_eq_true, List.isEmpty_iff, hnil c ns]
  · unfold Store.readCol cutName
    simp only [hnil c ns]
    split
    · rfl
    · refine congrArg Except.ok (sortedSet_congr fun n => ?_)
      simp only [List.mem_map, List.mem_filter, hmem c ns]

/-- A second store over the same driver: the constructor returns, ignores no document, and the new
store answers as the old one. -/
def Restarts (d : IDriver σ) (fuel : Nat) (s : Store σ) : Prop :=
  ∃ l, (construct d s.driver fuel).run ⟨.empty, []⟩ = .ok () l ∧ l.ignored = [] ∧
    SameAnswers s ⟨l.cache, s.driver⟩

theorem Holds.restarts_iff {d : ColDriver σ} {s : Store σ} {m : DocMap}
    (h : Holds d.toTreeDriver s m) {fuel : Nat} (hfuel : MAX_PARTS ≤ fuel) :
    Restarts d.toIDriver fuel s ↔ Plain s.cache := by
  constructor
  · rintro ⟨l, hrun, -, hsame⟩ n ns hn
    have hplain := construct_plain d.toIDriver s.driver hrun
    exact hplain n ns ((hsame.getNamespace n).trans hn)
  · intro hplain
    obtain ⟨l, hrun, hloads⟩ := construct_loads h
      (fun v ns hv => hplain v ns ((h.cached v).trans hv)) hfuel
    refine ⟨l, hrun, hloads.ignored, .of_lookup h.wf hloads.wf fun n => ?_⟩
    show l.cache.getNamespaceId n = s.cache.getNamespaceId n
    rw [h.cached]
    by_cases hcov : Covered m [prefixNS] n
    · exact hloads.covered n hcov
    · rw [hloads.other n hcov]
      cases hown : m.owner n with
      | none => rfl
      | some ns =>
        refine absurd ⟨ns, hown, prefixNS, List.mem_singleton_self _, ?_⟩ hcov
        exact List.cons_prefix_cons.mpr ⟨rfl, List.nil_prefix⟩

/-- The namespace an operation brings to the store has no separator in its name. -/
def Op.PlainNamespace : Op → Prop
  | .createDoc _ ns _ | .upsertDoc _ ns _ => SEPARATOR_C ∉ ns.str.toList
  | _ => True

theorem mapSystem_plain {m m' : DocMap} {l : Op × Bool} (hl : l.1.PlainNamespace)
    (hstep : mapSystem.step m l m')
    (h : ∀ n ns, m.owner n = some ns → SEPARATOR_C ∉ ns.str.toList) :
    ∀ n ns, m'.owner n = some ns → SEPARATOR_C ∉ ns.str.toList := by
  intro n ns hn
  obtain ⟨op, b⟩ := l
  simp only [mapSystem, OwnedMap.system] at hstep
  split at hstep
  · rename_i a hb ha
    obtain ⟨-, rfl⟩ := hstep
    rcases OwnedMap.owner_effect _ hn with hold | hgives
    · exact h n ns hold
    · cases op with
      | createDoc name ns' c | upsertDoc name ns' c =>
        cases ha
        rw [hgives.2]
        exact hl
      | updateDoc | deleteDoc | deleteCol =>
        cases ha
        cases hgives
      | createInternalDoc | updateInternalDoc | upsertInternalDoc | deleteInternalDoc => cases ha
  · subst hstep
    exact h n ns hn
  · subst hstep
    exact h n ns hn

/-- A restart is invisible in every run whose operations bring only namespaces without a separator
in their names; and in any reachable state it is invisible exactly when no document is in another
namespace. -/
theorem restart_iff (d : ColDriver σ) {fuel : Nat} (hfuel : MAX_PARTS ≤ fuel) :
    (∀ s, ((system d.toTreeDriver).guarded fun _ l => l.1.PlainNamespace).Reachable s →
      Restarts d.toIDriver fuel s) ∧
    ∀ s, (system d.toTreeDriver).Reachable s →
      (Restarts d.toIDriver fuel s ↔
        ∀ n ns, getNamespace s n = some ns → SEPARATOR_C ∉ ns.str.toList) := by
  constructor
  · intro s hs
    have hinv : ∃ m, Holds d.toTreeDriver s m ∧
        ∀ n ns, m.owner n = some ns → SEPARATOR_C ∉ ns.str.toList := by
      induction hs with
      | init hi =>
        obtain ⟨m, hm, hholds⟩ := (simulates d.toTreeDriver).init _ hi
        refine ⟨m, hholds, fun n ns hn => ?_⟩
        cases hm
        cases hn
      | step _ hstep ih =>
        obtain ⟨m, hholds, hplain⟩ := ih
        obtain ⟨m', hm', hholds'⟩ := exec_step hholds hstep.2
        exact ⟨m', hholds', mapSystem_plain hstep.1 hm' hplain⟩
    obtain ⟨m, hholds, hplain⟩ := hinv
    rw [hholds.restarts_iff hfuel]
    exact fun n ns hn => hplain n ns ((hholds.cached n).symm.trans hn)
  · intro s hs
    obtain ⟨m, hholds⟩ := holds_of_reachable hs
    exact hholds.restarts_iff hfuel

/-- A document in the namespace `system`. -/
theorem restart_iff_system :
    let op : Op := .createDoc ⟨["decoder"], by decide, by decide, by decide⟩
      ⟨⟨["system"], by decide, by decide, by decide⟩, rfl⟩ .null
    Restarts memDriver.toIDriver MAX_PARTS (after memDriver.toTreeDriver ⟨.empty, .empty⟩ op) := by
  intro op
  have hplain : op.PlainNamespace := by
    show SEPARATOR_C ∉ "system".toList
    decide
  exact (restart_iff memDriver (Nat.le_refl MAX_PARTS)).1 _
    (.step (s := ⟨.empty, .empty⟩) (l := (op, true)) (.init ⟨rfl, fun _ _ => rfl⟩)
      ⟨hplain, rfl, rfl⟩)

/-- A document in the namespace of the one part `a/b`: the constructor throws. -/
theorem restart_throws :
    let s := after memDriver.toTreeDriver ⟨.empty, .empty⟩
      (.createDoc ⟨["decoder"], by decide, by decide, by decide⟩
        ⟨⟨["a/b"], by decide, by decide, by decide⟩, rfl⟩ .null)
    (system memDriver.toTreeDriver).Reachable s ∧
      ∀ fuel, ¬ Restarts memDriver.toIDriver fuel s := by
  refine ⟨.step (l := (_, true)) (.init ⟨rfl, fun _ _ => rfl⟩) ⟨rfl, rfl⟩, ?_⟩
  rintro fuel ⟨l, hrun, -⟩
  cases hrun

end DistroDefender.Store
