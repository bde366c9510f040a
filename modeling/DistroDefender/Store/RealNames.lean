import DistroDefender.Store.NamespaceId

/-!
# Real names back to virtual names

`realToVirtualName` is the inverse of `virtualToRealName`: it gives a name exactly for the real
names, an error for every other name, and throws on none (`realToVirtualName_eq_ok_iff`,
`realToVirtualName_total`). It never meets the exception of `NamespaceId::fromName`, which is not
the one that is caught: a name of several parts is thrown on (`fromName_of_parts`).
-/

namespace DistroDefender.Store

open Base

/-- The namespace of one part. -/
def NamespaceId.ofPart (part : String) (h : part ≠ "") : NamespaceId :=
  ⟨⟨[part], List.cons_ne_nil part [], by simp [MAX_PARTS], by simpa using h⟩, rfl⟩

/-- A name that starts with `namespaces` and has two parts more. -/
theorem realToVirtualName_of_parts {r : Name} {ns part : String} {parts : List String}
    (h : r.parts = "namespaces" :: ns :: part :: parts) :
    ∃ v : Name, realToVirtualName r = .ok (.ok v) ∧ v.parts = part :: parts := by
  have hns : ns ≠ "" := r.parts_nonempty ns (by simp [h])
  have hrest : ∀ p ∈ part :: parts, p ≠ "" := fun p hp => r.parts_nonempty p (by
    rw [h]
    exact List.mem_cons_of_mem _ (List.mem_cons_of_mem _ hp))
  have hlen := r.parts_le
  rw [h, List.length_cons, List.length_cons] at hlen
  have hid : Name.ofParts [ns] = .ok (NamespaceId.ofPart ns hns).id :=
    Name.ofParts_parts (NamespaceId.ofPart ns hns).id
  have hname :=
    Name.ofParts_ok (List.cons_ne_nil part parts) (Nat.le_trans (Nat.le_add_right _ 2) hlen) hrest
  have hfrom : NamespaceId.fromName (NamespaceId.ofPart ns hns).id =
      .ok (.ok (NamespaceId.ofPart ns hns)) := by
    simp only [NamespaceId.fromName, NamespaceId.ofName_id]
  refine ⟨_, ?_, Name.ofParts_eq_ok.mp hname⟩
  unfold realToVirtualName
  simp only [h, prefixNS, PARTS_NAMESPACE_SIZE, List.length_cons, List.length_nil,
    List.take_succ_cons,
    List.take_zero, List.drop_succ_cons, List.drop_zero, ne_eq, not_true_eq_false, ite_false]
  rw [if_neg (by omega)]
  simp only [hid, hname, bind, Except.bind, hfrom]

/-- Every other name is an error. -/
theorem realToVirtualName_of_other {r : Name}
    (h : ¬ ∃ ns part parts, r.parts = "namespaces" :: ns :: part :: parts) :
    ∃ e, realToVirtualName r = .ok (.error e) := by
  unfold realToVirtualName
  by_cases hshort : r.parts.length < prefixNS.parts.length + PARTS_NAMESPACE_SIZE + 1
  · rw [if_pos hshort]
    exact ⟨_, rfl⟩
  · rw [if_neg hshort]
    have hstart : r.parts.take prefixNS.parts.length ≠ prefixNS.parts := by
      intro hstart
      apply h
      simp only [prefixNS, PARTS_NAMESPACE_SIZE, List.length_cons, List.length_nil] at hshort hstart
      rcases hparts : r.parts with _ | ⟨first, _ | ⟨ns, _ | ⟨part, parts⟩⟩⟩
      · exact absurd hparts r.parts_ne
      · rw [hparts] at hshort
        simp at hshort
      · rw [hparts] at hshort
        simp at hshort
      · rw [hparts] at hstart
        have hfirst : first = "namespaces" := by simpa using hstart
        exact ⟨ns, part, parts, by rw [hfirst]⟩
    rw [if_pos hstart]
    exact ⟨_, rfl⟩

theorem exists_real_iff (r : Name) : (∃ v ns, virtualToRealName v ns = .ok r) ↔
    ∃ ns part parts, r.parts = "namespaces" :: ns :: part :: parts := by
  constructor
  · rintro ⟨v, ns, h⟩
    rw [virtualToRealName_eq_ok] at h
    cases hv : v.parts with
    | nil => exact absurd hv v.parts_ne
    | cons part parts => exact ⟨ns.str, part, parts, by rw [h, hv]⟩
  · rintro ⟨ns, part, parts, h⟩
    obtain ⟨v, -, hv⟩ := realToVirtualName_of_parts h
    have hns : ns ≠ "" := r.parts_nonempty ns (by simp [h])
    exact ⟨v, NamespaceId.ofPart ns hns, virtualToRealName_eq_ok.mpr (by rw [h, hv]; rfl)⟩

/-- The decoder gives `v` exactly for the real names of `v`. -/
theorem realToVirtualName_eq_ok_iff {r v : Name} :
    realToVirtualName r = .ok (.ok v) ↔ ∃ ns, virtualToRealName v ns = .ok r := by
  constructor
  · intro h
    by_cases hreal : ∃ v ns, virtualToRealName v ns = .ok r
    · obtain ⟨w, ns, hw⟩ := hreal
      have hback := realToVirtualName_real hw
      rw [h] at hback
      cases hback
      exact ⟨ns, hw⟩
    · obtain ⟨e, he⟩ := realToVirtualName_of_other (mt (exists_real_iff r).mpr hreal)
      rw [h] at he
      cases he
  · rintro ⟨ns, h⟩
    exact realToVirtualName_real h

/-- The decoder throws on no name. -/
theorem realToVirtualName_total (r : Name) :
    (∃ v ns, virtualToRealName v ns = .ok r) ∨ ∃ e, realToVirtualName r = .ok (.error e) := by
  by_cases hreal : ∃ v ns, virtualToRealName v ns = .ok r
  · exact .inl hreal
  · exact .inr (realToVirtualName_of_other (mt (exists_real_iff r).mpr hreal))

/-- `fromName` on a name of several parts: the exception is a `std::runtime_error`. -/
theorem fromName_of_parts {n : Name} (h : n.parts.length ≠ PARTS_NAMESPACE_SIZE) :
    NamespaceId.fromName n =
      .error (.runtimeError "NamespaceId must have only one part and cannot be empty") := by
  unfold NamespaceId.fromName NamespaceId.ofName
  rw [dif_neg h]

/-- `fromName` gives the namespace of a name of one part, and returns an error on every other
name. -/
def ReportsOtherNames (n : Name) : Prop :=
  if h : n.parts.length = PARTS_NAMESPACE_SIZE then NamespaceId.fromName n = .ok (.ok ⟨n, h⟩)
  else ∃ e, NamespaceId.fromName n = .ok (.error e)

theorem reportsOtherNames_iff (n : Name) : ReportsOtherNames n ↔
    n.parts.length = PARTS_NAMESPACE_SIZE := by
  unfold ReportsOtherNames
  by_cases h : n.parts.length = PARTS_NAMESPACE_SIZE
  · rw [dif_pos h]
    refine iff_of_true ?_ h
    unfold NamespaceId.fromName NamespaceId.ofName
    rw [dif_pos h]
  · rw [dif_neg h]
    refine iff_of_false ?_ h
    rintro ⟨e, he⟩
    rw [fromName_of_parts h] at he
    cases he

/-- Real and virtual names are inverse to each other; `fromName` reports no name of several parts,
it throws. -/
theorem real_names_inverse (v w r n : Name) (a b : NamespaceId) :
    (v.parts.length ≤ MAX_PARTS - 2 → ∃ r, virtualToRealName v a = .ok r ∧
      realToVirtualName r = .ok (.ok v)) ∧
    (realToVirtualName r = .ok (.ok v) ↔ ∃ ns, virtualToRealName v ns = .ok r) ∧
    ((∃ v, realToVirtualName r = .ok (.ok v)) ∨ ∃ e, realToVirtualName r = .ok (.error e)) ∧
    (virtualToRealName v a = .ok r → virtualToRealName w b = .ok r → v = w ∧ a = b) ∧
    (ReportsOtherNames n ↔ n.parts.length = PARTS_NAMESPACE_SIZE) := by
  refine ⟨?_, realToVirtualName_eq_ok_iff, ?_, virtualToRealName_inj, reportsOtherNames_iff n⟩
  · intro hv
    have hfits : v.parts.length + 2 ≤ MAX_PARTS := by
      unfold MAX_PARTS at hv ⊢
      omega
    obtain ⟨r, hr⟩ := virtualToRealName_ok_iff.mpr hfits
    exact ⟨r, hr, realToVirtualName_real hr⟩
  · rcases realToVirtualName_total r with ⟨v, ns, h⟩ | h
    · exact .inl ⟨v, realToVirtualName_real h⟩
    · exact .inr h

/-- "a/b" is thrown on. -/
theorem fromName_throws : ¬ ReportsOtherNames ⟨["a", "b"], by decide, by decide, by decide⟩ :=
  fun h => absurd ((reportsOtherNames_iff _).mp h) (by decide)

end DistroDefender.Store
