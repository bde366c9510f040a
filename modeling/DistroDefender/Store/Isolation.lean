import DistroDefender.Store.FileDriver
import DistroDefender.Store.NamespaceId

/-!
# Path isolation of the file driver

`FileDriver::nameToPath` appends the parts of a name to the root path as they are. For names of
plain components the location is the root's followed by the parts (`location_plain`), so locations
are apart where names are. Any other part leads elsewhere: a name all of whose parts are plain is
the only kind that is isolated from the plain names (`isolated_iff_plain`).
-/

namespace DistroDefender.Store

open Base Os

namespace FileDriver

variable (d : FileDriver) (cwd : Loc)

/-- The location of the root. -/
def rootLocation : Loc := resolve cwd d.path

/-- The location a name denotes. -/
def location (n : Name) : Loc := resolve cwd (d.nameToPath n)

/-- Every part of the name is a plain component. -/
def PlainName (n : Name) : Prop := ∀ p ∈ n.parts, Plain p

/-- Neither location lies at or beneath the other. -/
def Apart (a b : Loc) : Prop := ¬ a <+: b ∧ ¬ b <+: a

/-- Two names that may not meet: one outside `namespaces` and one in it, or names in two
namespaces. -/
def Foreign (n m : Name) : Prop :=
  (n.first ≠ prefixNS.first ∧ m.first = prefixNS.first) ∨
    ∃ a b : NamespaceId, a ≠ b ∧ ["namespaces", a.str] <+: n.parts ∧
      ["namespaces", b.str] <+: m.parts

/-- `n` is kept apart from `m`. -/
structure Isolated (n m : Name) : Prop where
  inside : d.rootLocation cwd <+: d.location cwd n ∧ d.rootLocation cwd ≠ d.location cwd n
  same : d.location cwd n = d.location cwd m → n = m
  beneath : d.location cwd m <+: d.location cwd n → m.parts <+: n.parts
  foreign : Foreign n m → Apart (d.location cwd n) (d.location cwd m)

variable {d cwd}

/-! ## Plain names -/

theorem resolve_appendAll {p : Path} (hp : Char.ofNat 0 ∉ p.toList) {cs : List String}
    (hcs : ∀ c ∈ cs, Plain c) : resolve cwd (cs.foldl append p) = resolve cwd p ++ cs := by
  induction cs generalizing p with
  | nil => rw [List.foldl_nil, List.append_nil]
  | cons c cs ih =>
    have hc := hcs c List.mem_cons_self
    rw [List.foldl_cons, ih (not_mem_append hp hc) fun x hx => hcs x (List.mem_cons_of_mem c hx),
      resolve_append_plain hp hc, List.append_assoc, List.singleton_append]

/-- A plain name denotes its parts below the root. -/
theorem location_plain (hd : Char.ofNat 0 ∉ d.path.toList) {n : Name} (hn : PlainName n) :
    d.location cwd n = d.rootLocation cwd ++ n.parts := resolve_appendAll hd hn

theorem first_eq_of_isPrefix {n m : Name} (h : n.parts <+: m.parts) : m.first = n.first := by
  obtain ⟨t, ht⟩ := h
  unfold Name.first
  simp only [← ht]
  rw [List.head_append_of_ne_nil n.parts_ne]

/-- Foreign names do not begin one another. -/
theorem Foreign.not_begins {n m : Name} (h : Foreign n m) :
    ¬ n.parts <+: m.parts ∧ ¬ m.parts <+: n.parts := by
  rcases h with ⟨hn, hm⟩ | ⟨a, b, hab, ha, hb⟩
  · constructor
    · intro hp
      exact hn ((first_eq_of_isPrefix hp).symm.trans hm)
    · intro hp
      exact hn ((first_eq_of_isPrefix hp).trans hm)
  · have hclash : ∀ l, ["namespaces", a.str] <+: l → ["namespaces", b.str] <+: l → False := by
      intro l hla hlb
      have heq := (List.prefix_of_prefix_length_le hla hlb (Nat.le_refl 2)).eq_of_length rfl
      simp only [List.cons.injEq, true_and, and_true] at heq
      exact hab (NamespaceId.str_inj.mp heq)
    exact ⟨fun hp => hclash _ (ha.trans hp) hb, fun hp => hclash _ ha (hb.trans hp)⟩

/-- Plain names are isolated from each other. -/
theorem isolated_plain (hd : Char.ofNat 0 ∉ d.path.toList) {n m : Name} (hn : PlainName n)
    (hm : PlainName m) : Isolated d cwd n m := by
  have hln : d.location cwd n = d.rootLocation cwd ++ n.parts := location_plain hd hn
  have hlm : d.location cwd m = d.rootLocation cwd ++ m.parts := location_plain hd hm
  refine ⟨⟨hln ▸ List.prefix_append _ _, fun he => ?_⟩, fun he => ?_, fun hp => ?_, fun hf => ?_⟩
  · rw [hln] at he
    exact n.parts_ne (List.self_eq_append_right.mp he)
  · rw [hln, hlm] at he
    exact Name.ext (List.append_cancel_left he)
  · rw [hln, hlm] at hp
    exact (List.prefix_append_right_inj _).mp hp
  · unfold Apart
    rw [hln, hlm, List.prefix_append_right_inj, List.prefix_append_right_inj]
    exact hf.not_begins

/-! ## Any name -/

/-- Every name leads up from the root and down through plain components. -/
theorem location_shape (n : Name) : Shape (d.rootLocation cwd) (d.location cwd n) := by
  have h : ∀ (cs : List String) (p : Path),
      Shape (resolve cwd p) (resolve cwd (cs.foldl append p)) := by
    intro cs
    induction cs with
    | nil => exact fun p => .refl _
    | cons c cs ih => exact fun p => (resolve_shape cwd p c).trans (ih (append p c))
  exact h n.parts d.path

/-- Below the root every location is also that of a plain name, or beneath one of `MAX_PARTS`
parts. -/
theorem exists_plain_above (hd : Char.ofNat 0 ∉ d.path.toList) {n : Name}
    (hin : d.rootLocation cwd <+: d.location cwd n) (hne : d.rootLocation cwd ≠ d.location cwd n) :
    ∃ m : Name, PlainName m ∧ d.location cwd m <+: d.location cwd n ∧
      (d.location cwd n = d.location cwd m ∨ m.parts.length = MAX_PARTS) := by
  obtain ⟨q, hq⟩ := hin
  have hplain : ∀ c ∈ q, Plain c := by
    have hshape : Shape (d.rootLocation cwd) (d.location cwd n) := location_shape n
    have h := hshape.plain_below
    rwa [← hq, List.drop_left] at h
  have hqne : q ≠ [] := by
    rintro rfl
    exact hne (by rw [← hq, List.append_nil])
  let m : Name := ⟨q.take MAX_PARTS, by simp [hqne, MAX_PARTS], List.length_take_le _ _,
    fun p hp => (hplain p (List.mem_of_mem_take hp)).1⟩
  have hm : PlainName m := fun p hp => hplain p (List.mem_of_mem_take hp)
  have hlm : d.location cwd m = d.rootLocation cwd ++ q.take MAX_PARTS := location_plain hd hm
  refine ⟨m, hm, ?_, ?_⟩
  · rw [hlm, ← hq, List.prefix_append_right_inj]
    exact List.take_prefix _ _
  · rcases Nat.le_total q.length MAX_PARTS with hle | hle
    · refine .inl ?_
      rw [hlm, List.take_of_length_le hle, hq]
    · exact .inr (List.length_take_of_le hle)

/-- A name is isolated from every plain name, both ways, exactly when its own parts are plain (and
the root path has no NUL, where the system would stop reading). -/
theorem isolated_iff_plain (d : FileDriver) (cwd : Loc) (n : Name) :
    (∀ m, PlainName m → Isolated d cwd n m ∧ Isolated d cwd m n) ↔
      Char.ofNat 0 ∉ d.path.toList ∧ PlainName n := by
  constructor
  · intro h
    let a : Name := ⟨["a"], by decide, by decide, by decide⟩
    have ha : PlainName a := by
      intro p hp
      rw [List.mem_singleton.mp hp]
      decide
    have hd : Char.ofNat 0 ∉ d.path.toList := by
      intro hz
      have habs : isAbsolute "a" = false := by decide
      have hpath : d.nameToPath a = append d.path "a" := by rfl
      have hloc := (h a ha).2.inside.2
      unfold location at hloc
      rw [hpath, resolve_append_of_mem hz habs] at hloc
      exact hloc rfl
    refine ⟨hd, ?_⟩
    obtain ⟨hin, hne⟩ := (h a ha).1.inside
    obtain ⟨m, hm, hbeneath, hmax⟩ := exists_plain_above hd hin hne
    have heq : n = m := by
      rcases hmax with heq | hlen
      · exact (h m hm).1.same heq
      · refine Name.ext (((h m hm).1.beneath hbeneath).eq_of_length_le ?_).symm
        rw [hlen]
        exact n.parts_le
    rw [heq]
    exact hm
  · rintro ⟨hd, hn⟩ m hm
    exact ⟨isolated_plain hd hn hm, isolated_plain hd hm hn⟩

/-- An internal name that denotes the file of a namespaced document. -/
theorem internal_name_meets_document :
    let d : FileDriver := ⟨"/store", ⟨fun _ => .ok .null, fun _ => "null"⟩⟩
    let v : Name := ⟨["decoder"], by decide, by decide, by decide⟩
    let ns : NamespaceId := ⟨⟨["system"], by decide, by decide, by decide⟩, rfl⟩
    let n : Name :=
      ⟨["geo", "..", "namespaces", "system", "decoder"], by decide, by decide, by decide⟩
    n.first ≠ prefixNS.first ∧
      ∃ r, virtualToRealName v ns = .ok r ∧ d.location [] n = d.location [] r ∧
        ¬ Isolated d [] n r := by
  intro d v ns n
  let r : Name := ⟨["namespaces", "system", "decoder"], by decide, by decide, by decide⟩
  have hloc : d.location [] n = d.location [] r := by decide +kernel
  refine ⟨by decide, r, virtualToRealName_eq_ok.mpr rfl, hloc, fun h => ?_⟩
  have hparts := congrArg Name.parts (h.same hloc)
  revert hparts
  decide

end FileDriver

end DistroDefender.Store
