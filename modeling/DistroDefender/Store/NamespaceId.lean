import DistroDefender.Base.Name

/-!
# Namespaces and real names

The document `v` of namespace `ns` is kept by the driver under its real name
`namespaces/ns/v` (`virtualToRealName`). Real names are injective in the pair
(`virtualToRealName_inj`), and a name below the real name of a collection is the real name of a
document of the same namespace below that collection (`below_real_iff`).
-/

namespace DistroDefender.Store

open Base

def PARTS_NAMESPACE_SIZE : Nat := 1

/-- `store::NamespaceId`: a name of one part. -/
structure NamespaceId where
  id : Name
  one : id.parts.length = PARTS_NAMESPACE_SIZE
  deriving DecidableEq

namespace NamespaceId

@[ext] theorem ext {a b : NamespaceId} (h : a.id = b.id) : a = b := by
  cases a; cases b; cases h; rfl

/-- The constructor, with `assertValid`. -/
def ofName (id : Name) : Except Throw NamespaceId :=
  if h : id.parts.length = PARTS_NAMESPACE_SIZE then .ok ⟨id, h⟩
  else .error (.runtimeError "NamespaceId must have only one part and cannot be empty")

/-- `fromName`: only `std::invalid_argument` is caught. -/
def fromName (name : Name) : Except Throw (RespOrError NamespaceId) :=
  match ofName name with
  | .ok ns => .ok (.ok ns)
  | .error (.invalidArgument what) => .ok (.error ⟨what⟩)
  | .error e => .error e

/-- `str()`. -/
def str (ns : NamespaceId) : String := ns.id.first

/-- `operator<` is the order of the names. -/
instance : LinearOrder NamespaceId where
  le a b := a.id ≤ b.id
  lt a b := a.id < b.id
  le_refl a := le_refl a.id
  le_trans a b c := le_trans (a := a.id) (b := b.id) (c := c.id)
  lt_iff_le_not_ge a b := lt_iff_le_not_ge (a := a.id) (b := b.id)
  le_antisymm _ _ h h' := ext (le_antisymm h h')
  le_total a b := le_total a.id b.id
  toDecidableLE a b := inferInstanceAs (Decidable (a.id ≤ b.id))
  toDecidableEq := inferInstance

@[simp] theorem ofName_id (ns : NamespaceId) : ofName ns.id = .ok ns := by
  simp only [ofName, dif_pos ns.one]

theorem parts_eq (ns : NamespaceId) : ns.id.parts = [ns.str] := by
  unfold str Name.first
  match h : ns.id.parts, ns.one, ns.id.parts_ne with
  | [p], _, _ => simp

theorem str_inj {a b : NamespaceId} : a.str = b.str ↔ a = b := by
  refine ⟨fun h => ext (Name.ext ?_), fun h => h ▸ rfl⟩
  rw [a.parts_eq, b.parts_eq, h]

end NamespaceId

/-- `Store::prefixNS_s`. -/
def prefixNS : Name := ⟨["namespaces"], by decide, by decide, by decide⟩

/-- `Store::virtualToRealName`: `prefixNS_s + namespaceId.name() + virtualName`. -/
def virtualToRealName (virtualName : Name) (namespaceId : NamespaceId) : Except Throw Name := do
  let collection ← prefixNS.append namespaceId.id
  collection.append virtualName

def realToVirtualName (realName : Name) : Except Throw (RespOrError Name) :=
  let partsRN := realName.parts
  let prefixNSParts := prefixNS.parts
  if partsRN.length < prefixNSParts.length + PARTS_NAMESPACE_SIZE + 1 then
    .ok (.error ⟨"Invalid real name, too short"⟩)
  else if partsRN.take prefixNSParts.length ≠ prefixNSParts then
    .ok (.error ⟨"Invalid real name, prefix does not match"⟩)
  else do
    let namespaceName ←
      Name.ofParts ((partsRN.drop prefixNSParts.length).take PARTS_NAMESPACE_SIZE)
    let resp ← NamespaceId.fromName namespaceName
    match resp with
    | .error _ => .ok (.error ⟨"Invalid real name, namespace does not match"⟩)
    | .ok _ => do
      let virtualName ← Name.ofParts (partsRN.drop (prefixNSParts.length + PARTS_NAMESPACE_SIZE))
      .ok (.ok virtualName)

theorem prefixNS_append (ns : NamespaceId) :
    ∃ r : Name, prefixNS.append ns.id = .ok r ∧ r.parts = ["namespaces", ns.str] := by
  have hlen : prefixNS.parts.length + ns.id.parts.length ≤ MAX_PARTS := by
    rw [ns.one]; decide
  obtain ⟨r, hr⟩ := Name.append_ok_iff.mpr hlen
  refine ⟨r, hr, ?_⟩
  rw [Name.append_eq_ok.mp hr, ns.parts_eq]
  rfl

/-- The real name of `v` in `ns` has the parts of `v` after `namespaces` and `ns`. -/
theorem virtualToRealName_eq_ok {v r : Name} {ns : NamespaceId} :
    virtualToRealName v ns = .ok r ↔ r.parts = "namespaces" :: ns.str :: v.parts := by
  obtain ⟨c, hc, hparts⟩ := prefixNS_append ns
  have h : virtualToRealName v ns = c.append v := by
    unfold virtualToRealName
    rw [hc]
    rfl
  rw [h, Name.append_eq_ok, hparts]
  rfl

/-- A name has a real name exactly when the two parts before it still fit. -/
theorem virtualToRealName_ok_iff {v : Name} {ns : NamespaceId} :
    (∃ r, virtualToRealName v ns = .ok r) ↔ v.parts.length + 2 ≤ MAX_PARTS := by
  constructor
  · rintro ⟨r, hr⟩
    have hle := r.parts_le
    rw [virtualToRealName_eq_ok.mp hr, List.length_cons, List.length_cons] at hle
    exact hle
  · intro h
    have hle : ("namespaces" :: ns.str :: v.parts).length ≤ MAX_PARTS := by
      rw [List.length_cons, List.length_cons]
      exact h
    refine ⟨⟨"namespaces" :: ns.str :: v.parts, by simp, hle, fun p hp => ?_⟩,
      virtualToRealName_eq_ok.mpr rfl⟩
    rcases List.mem_cons.mp hp with rfl | hp
    · decide
    · rcases List.mem_cons.mp hp with rfl | hp
      · exact ns.id.parts_nonempty _ (by rw [ns.parts_eq]; simp)
      · exact v.parts_nonempty p hp

/-- Real names are injective in the virtual name and the namespace. -/
theorem virtualToRealName_inj {v w r : Name} {a b : NamespaceId}
    (hv : virtualToRealName v a = .ok r) (hw : virtualToRealName w b = .ok r) :
    v = w ∧ a = b := by
  have h := (virtualToRealName_eq_ok.mp hv).symm.trans (virtualToRealName_eq_ok.mp hw)
  simp only [List.cons.injEq, true_and] at h
  exact ⟨Name.ext h.2, NamespaceId.str_inj.mp h.1⟩

/-- What lies below the real name of a collection is a document of its namespace below it. -/
theorem below_real_iff {c v rc rv : Name} {a b : NamespaceId}
    (hc : virtualToRealName c a = .ok rc) (hv : virtualToRealName v b = .ok rv) :
    rc.Below rv ↔ a = b ∧ c.Below v := by
  unfold Name.Below
  rw [virtualToRealName_eq_ok.mp hc, virtualToRealName_eq_ok.mp hv]
  simp only [List.cons_prefix_cons, List.length_cons, true_and, Nat.add_lt_add_iff_right,
    NamespaceId.str_inj]
  tauto

theorem realToVirtualName_real {v r : Name} {ns : NamespaceId}
    (h : virtualToRealName v ns = .ok r) : realToVirtualName r = .ok (.ok v) := by
  have hparts := virtualToRealName_eq_ok.mp h
  have hpos := v.length_pos
  have hns : Name.ofParts [ns.str] = .ok ns.id := by rw [← ns.parts_eq, Name.ofParts_parts]
  have hfrom : NamespaceId.fromName ns.id = .ok (.ok ns) := by
    simp only [NamespaceId.fromName, NamespaceId.ofName_id]
  unfold realToVirtualName
  simp only [hparts, prefixNS, PARTS_NAMESPACE_SIZE, List.length_cons, List.length_nil,
    List.take_succ_cons, List.take_zero, List.drop_succ_cons, List.drop_zero, ne_eq,
    not_true_eq_false, ite_false]
  rw [if_neg (by omega)]
  simp only [hns, bind, Except.bind, hfrom, Name.ofParts_parts]

section Sample

def decoderName : Name := ⟨["decoder"], by decide, by decide, by decide⟩

def systemNs : NamespaceId := ⟨⟨["system"], by decide, by decide, by decide⟩, rfl⟩

end Sample

end DistroDefender.Store
