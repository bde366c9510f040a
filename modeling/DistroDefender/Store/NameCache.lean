import DistroDefender.Store.DBDocNames

/-!
# Runs of the name cache

Every run of `add`, `del`, `delCol` and `changeNamespaceId` leaves the two indexes inverse to each
other: each edit keeps `DBDocNames.WF` and does to the namespaces of the names what `Edit.effect`
says.
-/

namespace DistroDefender.Store.DBDocNames

open Base Lib

/-! ## The remaining edits -/

/-- `changeNamespaceId` answers whether the name is known. -/
def changeNamespaceId (c : DBDocNames) (name : Name) (namespaceId : NamespaceId) :
    Bool × DBDocNames :=
  match c.nameToNs.lookup name with
  | none => (false, c)
  | some oldNamespaceId =>
    (true, ⟨c.nameToNs.insert name namespaceId,
      (namespaceId, name) :: c.nsToNames.erase (oldNamespaceId, name)⟩)

/-- The loop of `delCol` over what is left of the range. -/
def delColLoop (name : Name) : List (NamespaceId × Name) → DBDocNames → DBDocNames
  | [], c => c
  | it :: range, c =>
    if isPrefix name it.2 then delColLoop name range ⟨c.nameToNs.erase it.2, c.nsToNames.erase it⟩
    else delColLoop name range c

/-- `delCol`, entry by entry of its range. -/
def delColRange (c : DBDocNames) (name : Name) (namespaceId : NamespaceId) : DBDocNames :=
  delColLoop name (c.nsToNames.filter fun p => p.1 = namespaceId) c

theorem diff_filter {α : Type} [BEq α] [LawfulBEq α] (p : α → Bool) (l : List α) :
    l.diff (l.filter p) = l.filter fun x => ¬ p x := by
  induction l with
  | nil => rfl
  | cons x l ih =>
    cases hx : p x with
    | true => simp [hx, ih]
    | false =>
      have hmem : x ∉ l.filter p := by simp [hx]
      rw [List.filter_cons_of_neg (by simp [hx]), List.cons_diff_of_not_mem hmem, ih]
      simp [hx]

theorem delColLoop_eq (name : Name) (range : List (NamespaceId × Name)) (c : DBDocNames) :
    delColLoop name range c =
      ⟨Map.eraseAll ((range.filter fun p => isPrefix name p.2).map (·.2)) c.nameToNs,
      c.nsToNames.diff (range.filter fun p => isPrefix name p.2)⟩ := by
  induction range generalizing c with
  | nil => rfl
  | cons it range ih =>
    rw [delColLoop]
    cases hit : isPrefix name it.2 with
    | true =>
      rw [if_pos rfl, ih, List.filter_cons, if_pos hit, List.diff_cons]
      rfl
    | false => rw [if_neg Bool.false_ne_true, ih, List.filter_cons, if_neg (by simp [hit])]

/-- What the loop erases are the listed names below the collection, all of them. -/
theorem delColRange_eq (c : DBDocNames) (name : Name) (ns : NamespaceId) :
    c.delColRange name ns = c.delCol name ns := by
  have hfilter : (c.nsToNames.filter fun p => p.1 = ns).filter (fun p => isPrefix name p.2) =
      c.nsToNames.filter fun p => p.1 = ns ∧ isPrefix name p.2 := by
    rw [List.filter_filter]
    exact List.filter_congr fun p _ => by simp [Bool.and_comm]
  unfold delColRange delCol filterByPrefix
  rw [delColLoop_eq, hfilter, diff_filter]
  simp

theorem changeNamespaceId_of_none {c : DBDocNames} {name : Name} (h : c.nameToNs.lookup name = none)
    (ns : NamespaceId) : c.changeNamespaceId name ns = (false, c) := by
  unfold changeNamespaceId
  rw [h]

theorem changeNamespaceId_of_some {c : DBDocNames} {name : Name} {old : NamespaceId}
    (h : c.nameToNs.lookup name = some old) (ns : NamespaceId) :
    c.changeNamespaceId name ns =
      (true, ⟨c.nameToNs.insert name ns, (ns, name) :: c.nsToNames.erase (old, name)⟩) := by
  unfold changeNamespaceId
  rw [h]

theorem lookup_changeNamespaceId (c : DBDocNames) (name : Name) (ns : NamespaceId) (n : Name) :
    (c.changeNamespaceId name ns).2.getNamespaceId n =
      if n = name ∧ (c.getNamespaceId name).isSome then some ns else c.getNamespaceId n := by
  unfold getNamespaceId
  cases h : c.nameToNs.lookup name with
  | none =>
    rw [changeNamespaceId_of_none h]
    simp
  | some old =>
    rw [changeNamespaceId_of_some h, Map.lookup_insert_eq]
    simp

theorem WF.changeNamespaceId {c : DBDocNames} (hc : c.WF) (name : Name) (ns : NamespaceId) :
    (c.changeNamespaceId name ns).2.WF := by
  cases h : c.nameToNs.lookup name with
  | none =>
    rw [changeNamespaceId_of_none h]
    exact hc
  | some old =>
    -- no other pair lists the name
    have honly : ∀ ns', (ns', name) ∉ c.nsToNames.erase (old, name) := by
      intro ns' hmem
      obtain ⟨hne, hmem⟩ := hc.nodup.mem_erase_iff.mp hmem
      rw [hc.mem_iff, h] at hmem
      cases hmem
      exact hne rfl
    rw [changeNamespaceId_of_some h]
    refine ⟨fun ns' n => ?_, List.nodup_cons.mpr ⟨honly ns, hc.nodup.erase _⟩⟩
    rw [List.mem_cons, Map.lookup_insert_eq]
    by_cases hn : n = name
    · rw [if_pos hn, hn, or_iff_left (honly ns')]
      simp [eq_comm]
    · rw [if_neg hn, ← hc.mem_iff, hc.nodup.mem_erase_iff]
      simp [hn]

/-! ## Runs -/

inductive Edit where
  | add (name : Name) (namespaceId : NamespaceId)
  | del (name : Name)
  | delCol (name : Name) (namespaceId : NamespaceId)
  | changeNamespaceId (name : Name) (namespaceId : NamespaceId)

namespace Edit

/-- The cache after the edit. -/
def apply (c : DBDocNames) : Edit → DBDocNames
  | .add name ns => (c.add name ns).2
  | .del name => c.del name
  | .delCol name ns => c.delColRange name ns
  | .changeNamespaceId name ns => (c.changeNamespaceId name ns).2

/-- What an edit is for: the namespaces of the names, before it and after. -/
def effect (f : Name → Option NamespaceId) : Edit → Name → Option NamespaceId
  | .add name ns, n => if n = name ∧ f name = none then some ns else f n
  | .del name, n => if n = name then none else f n
  | .delCol name ns, n => if f n = some ns ∧ name.Below n then none else f n
  | .changeNamespaceId name ns, n => if n = name ∧ (f name).isSome then some ns else f n

/-- The names an edit is asked to change. -/
def Concerns (c : DBDocNames) : Edit → Name → Prop
  | .add name _, n | .del name, n | .changeNamespaceId name _, n => n = name
  | .delCol name ns, n => c.getNamespaceId n = some ns ∧ name.Below n

end Edit

theorem WF.apply {c : DBDocNames} (hc : c.WF) (e : Edit) : (e.apply c).WF := by
  cases e with
  | add name ns => exact hc.add
  | del name => exact hc.del
  | delCol name ns =>
    rw [Edit.apply, delColRange_eq]
    exact hc.delCol
  | changeNamespaceId name ns => exact hc.changeNamespaceId name ns

/-- The cache does to the namespaces what the edit is for. -/
theorem getNamespaceId_apply {c : DBDocNames} (hc : c.WF) (e : Edit) (n : Name) :
    (e.apply c).getNamespaceId n = e.effect c.getNamespaceId n := by
  cases e with
  | add name ns =>
    rw [Edit.apply, Edit.effect]
    cases h : c.existsName name with
    | true =>
      unfold existsName at h
      obtain ⟨old, hold⟩ := Option.isSome_iff_exists.mp h
      rw [add_of_exists h]
      simp [getNamespaceId, hold]
    | false =>
      have hnone : c.getNamespaceId name = none := by
        unfold existsName at h
        exact Option.isNone_iff_eq_none.mp (Option.isSome_eq_false_iff.mp h)
      rw [lookup_add h, hnone]
      simp
  | del name => exact lookup_del hc n
  | delCol name ns =>
    rw [Edit.apply, delColRange_eq]
    exact lookup_delCol hc n
  | changeNamespaceId name ns => exact lookup_changeNamespaceId c name ns n

theorem effect_of_not_concerns {c : DBDocNames} {e : Edit} {n : Name} (h : ¬ e.Concerns c n) :
    e.effect c.getNamespaceId n = c.getNamespaceId n := by
  cases e with
  | add name ns => exact if_neg fun hn => h hn.1
  | del name => exact if_neg h
  | delCol name ns => exact if_neg h
  | changeNamespaceId name ns => exact if_neg fun hn => h hn.1

/-- A pair is listed once or not at all. -/
theorem WF.count {c : DBDocNames} (hc : c.WF) (ns : NamespaceId) (n : Name) :
    c.nsToNames.count (ns, n) = if c.nameToNs.lookup n = some ns then 1 else 0 := by
  rw [hc.nodup.count]
  simp only [hc.mem_iff]

/-- The cache after a run of edits. -/
def run (es : List Edit) : DBDocNames := es.foldl Edit.apply empty

theorem wf_run (es : List Edit) : (run es).WF := by
  have hall : ∀ c : DBDocNames, c.WF → (es.foldl Edit.apply c).WF := by
    induction es with
    | nil => exact fun c hc => hc
    | cons e es ih => exact fun c hc => ih _ (hc.apply e)
  exact hall empty WF.empty

/-- After every run the indexes are inverse to each other, `delCol` takes what is strictly below its
collection out of both, `add` refuses a name that is there, no edit changes another name, and each
has its effect on its own. -/
theorem run_inverse (es : List Edit) :
    (∀ ns n, (run es).nsToNames.count (ns, n) =
      if (run es).nameToNs.lookup n = some ns then 1 else 0) ∧
    (∀ name ns,
      (∀ n, ((run es).delColRange name ns).nameToNs.lookup n =
        if (run es).nameToNs.lookup n = some ns ∧ name.Below n then none
        else (run es).nameToNs.lookup n) ∧
      ∀ p, p ∈ ((run es).delColRange name ns).nsToNames ↔
        p ∈ (run es).nsToNames ∧ ¬ (p.1 = ns ∧ name.Below p.2)) ∧
    (∀ name ns, (run es).existsName name = true → (run es).add name ns = (false, run es)) ∧
    (∀ (e : Edit) (n : Name), ¬ e.Concerns (run es) n →
      (e.apply (run es)).nameToNs.lookup n = (run es).nameToNs.lookup n ∧
      ∀ ns, (e.apply (run es)).nsToNames.count (ns, n) = (run es).nsToNames.count (ns, n)) ∧
    ∀ (e : Edit) (n : Name),
      (e.apply (run es)).getNamespaceId n = e.effect (run es).getNamespaceId n := by
  have hwf := wf_run es
  refine ⟨hwf.count, fun name ns => ⟨fun n => ?_, fun p => ?_⟩, fun name ns h => ?_,
    fun e n h => ?_, getNamespaceId_apply hwf⟩
  · rw [delColRange_eq]
    exact lookup_delCol hwf n
  · rw [delColRange_eq, delCol, List.mem_filter, decide_eq_true_eq, isPrefix_iff]
  · unfold existsName at h
    unfold add
    rw [if_pos h]
  · have hsame : (e.apply (run es)).getNamespaceId n = (run es).getNamespaceId n := by
      rw [getNamespaceId_apply hwf, effect_of_not_concerns h]
    unfold getNamespaceId at hsame
    refine ⟨hsame, fun ns => ?_⟩
    rw [(hwf.apply e).count, hwf.count, hsame]

end DistroDefender.Store.DBDocNames
