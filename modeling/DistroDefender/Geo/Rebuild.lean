import DistroDefender.Base.Nested
import DistroDefender.Base.Tokens
import DistroDefender.Geo.EntryTree
import Mathlib.Algebra.Group.Nat.Defs

/-!
# A dump rebuilds the value

The writes of a dump leave the image of the value at its path exactly when the pointer of every path
leads to its place: the keys are read as they stand, and no map repeats one (`setTypes_iff`). With
what a dump does on lists that end too early this says when it keeps its promise (`rebuilds_iff`).
-/

namespace DistroDefender.Geo

open Base

namespace EntryTree

/-! ## Images -/

/-- The json image of a value that is no container: 64-bit integers in decimal digits, 128-bit
values and bytes in hexadecimal ones. -/
def scalarImage : EntryData → Json
  | .utf8_string s => .str s
  | .bytes bs => .str (String.join (bs.map fun b => hexDigits 2 b.toNat))
  | .double_value bits | .float_value bits => .num (.dbl bits)
  | .uint16 n => .num (.int n.toNat)
  | .uint32 n => .num (.int n.toNat)
  | .boolean b => .bool b
  | .uint64 n => .str (toString n.toNat)
  | .uint128 n => .str ("0x" ++ hexDigits 32 n.toNat)
  | .int32 n => .num (.int n.toInt)
  | .map | .array | .other => .null

mutual

def image : EntryTree → Json
  | .scalar data => scalarImage data.1
  | .map ms => .obj (imageMembers ms)
  | .array vs => .arr (imageItems vs)

def imageMembers : List (String × EntryTree) → List (String × Json)
  | [] => []
  | (key, v) :: ms => (key, image v) :: imageMembers ms

def imageItems : List EntryTree → List Json
  | [] => []
  | v :: vs => image v :: imageItems vs

end

theorem map_fst_imageMembers (ms : List (String × EntryTree)) :
    (imageMembers ms).map Prod.fst = ms.map Prod.fst := by
  induction ms with
  | nil => rfl
  | cons m ms ih => rw [imageMembers, List.map_cons, List.map_cons, ih]

theorem length_imageMembers (ms : List (String × EntryTree)) :
    (imageMembers ms).length = ms.length := by
  have hlen := congrArg List.length (map_fst_imageMembers ms)
  rwa [List.length_map, List.length_map] at hlen

/-- One digit more is the last one. -/
theorem hexDigits_succ {width : Nat} (h : 0 < width) (n : Nat) :
    (hexDigits (width + 1) n).toList = (hexDigits width (n / 16)).toList ++
      [(n % 16).digitChar] := by
  unfold hexDigits
  rw [String.toList_ofList, String.toList_ofList]
  by_cases hn : n < 16
  · rw [Nat.toDigits_of_lt_base hn, Nat.div_eq_of_lt hn, Nat.toDigits_zero, Nat.mod_eq_of_lt hn,
      List.length_singleton, List.length_singleton, Nat.add_sub_cancel]
    obtain ⟨width, rfl⟩ : ∃ w, width = w + 1 := ⟨width - 1, by omega⟩
    rw [List.replicate_succ', Nat.add_sub_cancel]
  · rw [Nat.toDigits_of_base_le (by decide) (by omega), List.length_append, List.length_singleton,
      Nat.add_sub_add_right, List.append_assoc]

theorem hexDigits_append (high : Nat) (hhigh : 0 < high) (low n : Nat) :
    (hexDigits (high + (low + 1)) n).toList =
      (hexDigits high (n / 16 ^ (low + 1))).toList ++
        (hexDigits (low + 1) (n % 16 ^ (low + 1))).toList := by
  induction low generalizing n with
  | zero =>
    have hone : (hexDigits 1 (n % 16)).toList = [(n % 16).digitChar] := by
      unfold hexDigits
      rw [String.toList_ofList, Nat.toDigits_of_lt_base (Nat.mod_lt n (Nat.succ_pos 15))]
      rfl
    rw [hexDigits_succ hhigh, Nat.zero_add, Nat.pow_one, hone]
  | succ low ih =>
    have hdiv : n / 16 / 16 ^ (low + 1) = n / 16 ^ (low + 1 + 1) := by
      rw [Nat.div_div_eq_div_mul, ← Nat.pow_succ']
    have hmod : n % 16 ^ (low + 1 + 1) / 16 = n / 16 % 16 ^ (low + 1) := by
      rw [Nat.pow_succ', Nat.mod_mul_right_div_self]
    have hlast : n % 16 ^ (low + 1 + 1) % 16 = n % 16 := by
      rw [Nat.pow_succ', Nat.mod_mul_right_mod]
    rw [← Nat.add_assoc high, hexDigits_succ (by omega), ih, hexDigits_succ (Nat.succ_pos low),
      hdiv, hmod, hlast, List.append_assoc]

/-- The two halves of a 128-bit value are its 32 digits. -/
theorem uint128toHexString_eq (n : BitVec 128) :
    uint128toHexString n = "0x" ++ hexDigits 32 n.toNat := by
  have hlt := n.isLt
  have hhigh : ((n >>> 64).setWidth 64).toNat = n.toNat / 16 ^ (15 + 1) := by
    rw [BitVec.toNat_setWidth, BitVec.toNat_ushiftRight, Nat.shiftRight_eq_div_pow]
    omega
  have hlow : (n.setWidth 64).toNat = n.toNat % 16 ^ (15 + 1) := by
    rw [BitVec.toNat_setWidth]
    rfl
  have hdigits := hexDigits_append 16 (by decide) 15 n.toNat
  unfold uint128toHexString
  dsimp only
  apply String.toList_injective
  rw [hhigh, hlow, String.append_assoc, String.toList_append, String.toList_append,
    String.toList_append, hdigits]

/-- A node that is no container is written as its image. -/
theorem typeValue_eq (data : EntryData) : typeValue data = scalarImage data := by
  cases data with
  | uint128 n => rw [typeValue, scalarImage, uint128toHexString_eq]
  | utf8_string | bytes | double_value | float_value | uint16 | uint32 | boolean | uint64 | int32
  | map | array | other => rfl

/-! ## Values that are read as they stand -/

/-- No map repeats a key, and every key is read as it stands. -/
inductive Unescaped (fragment : Bool) : EntryTree → Prop
  | scalar (data : Scalar) : Unescaped fragment (.scalar data)
  | map {ms : List (String × EntryTree)} (hnodup : (ms.map Prod.fst).Nodup)
      (hkeys : ∀ m ∈ ms, Base.Unescaped fragment m.1) (h : ∀ m ∈ ms, Unescaped fragment m.2) :
      Unescaped fragment (.map ms)
  | array {vs : List EntryTree} (h : ∀ v ∈ vs, Unescaped fragment v) :
      Unescaped fragment (.array vs)

/-- The value under a key or an index. -/
inductive Child : EntryTree → String → EntryTree → Prop
  | member {ms : List (String × EntryTree)} {key : String} {v : EntryTree} (h : (key, v) ∈ ms) :
      Child (.map ms) key v
  | item {vs : List EntryTree} {i : Nat} {v : EntryTree} (h : vs[i]? = some v) :
      Child (.array vs) (toString i) v

/-- A value, from its children. -/
@[elab_as_elim] theorem descend {motive : EntryTree → Prop} (v : EntryTree)
    (h : ∀ v, (∀ key u, Child v key u → motive u) → motive v) : motive v := by
  induction v using EntryTree.induction with
  | scalar data => exact h _ fun key u hchild => by cases hchild
  | map ms ih =>
    refine h _ fun key u hchild => ?_
    cases hchild with | member hmem => exact ih _ hmem
  | array vs ih =>
    refine h _ fun key u hchild => ?_
    cases hchild with | item hi => exact ih u (List.mem_of_getElem? hi)

theorem Unescaped.of_child {fragment : Bool} {v u : EntryTree} {key : String}
    (h : Unescaped fragment v) (hu : Child v key u) :
    Base.Unescaped fragment key ∧ Unescaped fragment u := by
  cases hu with
  | member hmem =>
    cases h with | map _ hkeys hms => exact ⟨hkeys _ hmem, hms _ hmem⟩
  | item hi =>
    cases h with | array hvs => exact ⟨unescaped_toString _ _, hvs _ (List.mem_of_getElem? hi)⟩

/-- A value with no value below it. -/
def Bare : EntryTree → Prop
  | .scalar _ => True
  | .map ms => ms = []
  | .array vs => vs = []

/-- Below this path the value is rebuilt. A path is read up to its NUL, and so all paths below it
are. -/
def Kept (path : String) (v : EntryTree) : Prop :=
  v.Bare ∨ Char.ofNat 0 ∉ path.toList ∧ v.Unescaped (isFragment path)

end EntryTree

section

open EntryTree

/-! ## The writes of a value -/

/-- The writes of a dump. -/
def writes (v : EntryTree) (path : String) : List (String × Json) := (steps v path).reduceOption

/-- What is written for the first node. -/
def top : EntryTree → Json
  | .scalar data => scalarImage data.1
  | .map _ => .obj []
  | .array _ => .arr []

def memberWrites (ms : List (String × EntryTree)) (path : String) : List (String × Json) :=
  (memberSteps ms path).reduceOption

def itemWrites (vs : List EntryTree) (path : String) (index : Nat) : List (String × Json) :=
  (itemSteps vs path index).reduceOption

/-- The writes below the first one. -/
def below (v : EntryTree) (path : String) : List (String × Json) :=
  match v with
  | .scalar _ => []
  | .map ms => memberWrites ms path
  | .array vs => itemWrites vs path 0

theorem writes_eq (v : EntryTree) (path : String) :
    writes v path = (path, top v) :: below v path := by
  cases v with
  | scalar data => rw [writes, steps, List.reduceOption_cons_of_some, typeValue_eq]; rfl
  | map ms => rw [writes, steps, List.reduceOption_cons_of_some]; rfl
  | array vs => rw [writes, steps, List.reduceOption_cons_of_some]; rfl

theorem memberWrites_cons (key : String) (v : EntryTree) (ms : List (String × EntryTree))
    (path : String) :
    memberWrites ((key, v) :: ms) path = writes v (path ++ "/" ++ key) ++ memberWrites ms path := by
  rw [memberWrites, memberSteps, List.reduceOption_cons_of_none, List.reduceOption_append]
  rfl

theorem itemWrites_cons (v : EntryTree) (vs : List EntryTree) (path : String) (index : Nat) :
    itemWrites (v :: vs) path index = writes v (path ++ "/" ++ toString index) ++
      itemWrites vs path (index + 1) := by
  rw [itemWrites, itemSteps, List.reduceOption_append]
  rfl

theorem mem_memberWrites {ms : List (String × EntryTree)} {path : String} {w : String × Json} :
    w ∈ memberWrites ms path ↔ ∃ key v, (key, v) ∈ ms ∧ w ∈ writes v (path ++ "/" ++ key) := by
  induction ms with
  | nil => simp [memberWrites, memberSteps]
  | cons m ms ih =>
    obtain ⟨key, v⟩ := m
    rw [memberWrites_cons, List.mem_append, ih]
    constructor
    · rintro (h | ⟨key', v', hmem, h⟩)
      · exact ⟨key, v, List.mem_cons_self, h⟩
      · exact ⟨key', v', List.mem_cons_of_mem _ hmem, h⟩
    · rintro ⟨key', v', hmem, h⟩
      rcases List.mem_cons.mp hmem with heq | hmem
      · cases heq
        exact .inl h
      · exact .inr ⟨key', v', hmem, h⟩

theorem mem_itemWrites {vs : List EntryTree} {path : String} {index : Nat} {w : String × Json} :
    w ∈ itemWrites vs path index ↔
      ∃ i v, vs[i]? = some v ∧ w ∈ writes v (path ++ "/" ++ toString (index + i)) := by
  induction vs generalizing index with
  | nil => simp [itemWrites, itemSteps]
  | cons v vs ih =>
    rw [itemWrites_cons, List.mem_append, ih]
    constructor
    · rintro (h | ⟨i, u, hi, h⟩)
      · exact ⟨0, v, rfl, h⟩
      · exact ⟨i + 1, u, hi, by rwa [Nat.add_assoc, Nat.add_comm 1 i] at h⟩
    · rintro ⟨i, u, hi, h⟩
      cases i with
      | zero =>
        cases hi
        exact .inl h
      | succ i => exact .inr ⟨i, u, hi, by rwa [Nat.add_assoc, Nat.add_comm 1 i]⟩

/-- A write below the first one is a write of a child. -/
theorem mem_below {v : EntryTree} {path : String} {w : String × Json} :
    w ∈ below v path ↔ ∃ key u, Child v key u ∧ w ∈ writes u (path ++ "/" ++ key) := by
  cases v with
  | scalar data => exact iff_of_false List.not_mem_nil fun ⟨_, _, hchild, _⟩ => by cases hchild
  | map ms =>
    rw [below, mem_memberWrites]
    constructor
    · rintro ⟨key, u, hmem, h⟩
      exact ⟨key, u, .member hmem, h⟩
    · rintro ⟨key, u, hchild, h⟩
      cases hchild with | member hmem => exact ⟨key, u, hmem, h⟩
  | array vs =>
    rw [below, mem_itemWrites]
    constructor
    · rintro ⟨i, u, hi, h⟩
      rw [Nat.zero_add] at h
      exact ⟨_, u, .item hi, h⟩
    · rintro ⟨key, u, hchild, h⟩
      cases hchild with | @item _ i _ hi =>
      exact ⟨i, u, hi, by rwa [Nat.zero_add]⟩

/-- A value writes its first node and what its children write. -/
theorem mem_writes {v : EntryTree} {path : String} {w : String × Json} :
    w ∈ writes v path ↔
      w = (path, top v) ∨ ∃ key u, Child v key u ∧ w ∈ writes u (path ++ "/" ++ key) := by
  rw [writes_eq, List.mem_cons, mem_below]

/-! ## Reading the paths -/

variable {D : RapidDom}

variable (D) in
/-- Every path is read as a pointer. -/
def Readable (ws : List (String × Json)) : Prop := ∀ w ∈ ws, ∃ p, D.pointer (cstr w.1) = .ok p

variable (D) in
/-- The writes at the pointers read. -/
def resolve (ws : List (String × Json)) : List (Pointer × Json) :=
  ws.filterMap fun w =>
    match D.pointer (cstr w.1) with
    | .ok p => some (p, w.2)
    | .error _ => none

theorem resolve_append (ws ws' : List (String × Json)) :
    resolve D (ws ++ ws') = resolve D ws ++ resolve D ws' :=
  List.filterMap_append

theorem mem_resolve {ws : List (String × Json)} {item : Pointer × Json} :
    item ∈ resolve D ws ↔ ∃ w ∈ ws, D.pointer (cstr w.1) = .ok item.1 ∧ w.2 = item.2 := by
  unfold resolve
  rw [List.mem_filterMap]
  refine exists_congr fun w => and_congr_right fun _ => ?_
  cases D.pointer (cstr w.1) with
  | ok q => simp [Prod.ext_iff]
  | error e => simp

theorem resolve_cons {path : String} {p : Pointer} (hp : D.pointer (cstr path) = .ok p)
    (value : Json) (ws : List (String × Json)) :
    resolve D ((path, value) :: ws) = (p, value) :: resolve D ws := by
  unfold resolve
  rw [List.filterMap_cons, hp]

/-- The writes are made, or the first path that is not read throws. -/
theorem setTypes_eq_ok_iff {ws : List (String × Json)} {j j' : Json} :
    setTypes D ws j = .ok j' ↔ Readable D ws ∧ j' = Json.setTypeMany (resolve D ws) j := by
  induction ws generalizing j with
  | nil =>
    constructor
    · intro h
      cases h
      exact ⟨fun w hw => absurd hw List.not_mem_nil, rfl⟩
    · rintro ⟨-, rfl⟩
      rfl
  | cons w ws ih =>
    obtain ⟨path, value⟩ := w
    rw [setTypes, Readable, List.forall_mem_cons]
    unfold setType
    dsimp only
    cases hp : D.pointer (cstr path) with
    | ok p =>
      rw [resolve_cons hp]
      exact (ih (j := j.set p value)).trans
        (and_congr_left fun _ => ⟨fun h => ⟨⟨p, rfl⟩, h⟩, fun h => h.2⟩)
    | error e =>
      refine iff_of_false (fun h => ?_) fun h => ?_
      · cases h
      · obtain ⟨p, hread⟩ := h.1.1
        cases hread

/-- The key of a value that is read as it stands ends no path early. -/
theorem nul_not_mem_below {path : String} {fragment : Bool} {key : String}
    (hnul : Char.ofNat 0 ∉ path.toList) (hkey : Base.Unescaped fragment key) :
    Char.ofNat 0 ∉ (path ++ "/" ++ key).toList := by
  rw [String.toList_append, String.toList_append, List.mem_append, List.mem_append]
  rintro ((h | h) | h)
  · exact hnul h
  · revert h
    decide
  · exact nul_not_mem hkey h

theorem resolve_ne_nil {path : String} {p : Pointer} (hp : D.pointer (cstr path) = .ok p)
    (v : EntryTree) : resolve D (writes v path) ≠ [] := by
  rw [writes_eq, resolve_cons hp]
  exact List.cons_ne_nil _ _

section Paths

variable (hD : Documented D.pointer) {path : String} {p : Pointer}
  (hp : D.pointer (cstr path) = .ok p)
include hD hp

/-- A path with one key more leads to the same place or below. -/
theorem pointer_below {key : String} {q : Pointer}
    (hq : D.pointer (cstr (path ++ "/" ++ key)) = .ok q) : p <+: q := by
  by_cases hnul : Char.ofNat 0 ∈ path.toList
  · rw [cstr_below_of_mem hnul, hp] at hq
    cases hq
    exact List.prefix_rfl
  · obtain ⟨t, ts, rfl, -⟩ := unescaped_of_reads hD hnul hp hq
    exact List.prefix_append _ _

theorem readable_of_unescaped {v : EntryTree} (hnul : Char.ofNat 0 ∉ path.toList)
    (h : v.Unescaped (isFragment path)) : Readable D (writes v path) := by
  induction v using EntryTree.descend generalizing path p with
  | h v ih =>
    intro w hw
    rcases mem_writes.mp hw with rfl | ⟨key, u, hu, hw⟩
    · exact ⟨p, hp⟩
    · obtain ⟨hkey, hlit⟩ := h.of_child hu
      rw [← isFragment_below path key] at hlit
      exact ih key u hu (reads_unescaped hD hnul hp hkey) (nul_not_mem_below hnul hkey) hlit w hw

theorem prefix_of_mem_writes {v : EntryTree} (h : Readable D (writes v path)) {w : String × Json}
    (hw : w ∈ writes v path) {q : Pointer} (hq : D.pointer (cstr w.1) = .ok q) : p <+: q := by
  induction v using EntryTree.descend generalizing path p with
  | h v ih =>
    rcases mem_writes.mp hw with rfl | ⟨key, u, hu, hw⟩
    · rw [hp] at hq
      cases hq
      exact List.prefix_rfl
    · have hchild : Readable D (writes u (path ++ "/" ++ key)) :=
        fun w' hw' => h w' (mem_writes.mpr (.inr ⟨key, u, hu, hw'⟩))
      obtain ⟨r, hr⟩ := hchild _ (mem_writes.mpr (.inl rfl))
      exact (pointer_below hD hp hr).trans (ih key u hu hr hchild hw)

theorem prefix_of_mem_resolve {v : EntryTree} (h : Readable D (writes v path)) :
    ∀ item ∈ resolve D (writes v path), p <+: item.1 := by
  intro item hitem
  obtain ⟨w, hw, hq, -⟩ := mem_resolve.mp hitem
  exact prefix_of_mem_writes hD hp h hw hq

/-- The writes of a value leave one value where its path leads, or below a place on the way
there. -/
theorem setTypeMany_writes {v : EntryTree} (h : Readable D (writes v path)) {q : Pointer}
    (hq : q <+: p) {j : Json} (hdash : j.NoDash q) :
    ∃ x, Json.setTypeMany (resolve D (writes v path)) j = j.set q x := by
  exact Json.setTypeMany_below
    (fun item hitem => hq.trans (prefix_of_mem_resolve hD hp h item hitem))
    (resolve_ne_nil hp v) hdash

end Paths

/-! ## What the writes leave -/

variable (D) in
/-- The writes of the value leave its image exactly when it is read as it stands. -/
def LeavesImage (v : EntryTree) : Prop := ∀ path p j, D.pointer (cstr path) = .ok p →
  Char.ofNat 0 ∉ path.toList → j.NoDash p → Readable D (writes v path) →
    (Json.setTypeMany (resolve D (writes v path)) j = j.set p (image v) ↔
      v.Unescaped (isFragment path))

section Loops

variable (hD : Documented D.pointer) {path : String} {p : Pointer}
  (hp : D.pointer (cstr path) = .ok p) (hnul : Char.ofNat 0 ∉ path.toList) {j : Json}
  (hdash : j.NoDash p)
include hD hp hnul hdash

/-- The writes of a member set one member of the object; it has the key and the image exactly when
both are read as they stand. -/
theorem member_left {key : String} {v : EntryTree} (hv : LeavesImage D v)
    (hread : Readable D (writes v (path ++ "/" ++ key))) (ms : List (String × Json)) :
    ∃ t x, Json.setTypeMany (resolve D (writes v (path ++ "/" ++ key))) (j.set p (.obj ms)) =
        j.set p (.obj (Json.setMember t x ms)) ∧
      ((t, x) = (key, image v) ↔ Base.Unescaped (isFragment path) key ∧
        v.Unescaped (isFragment path)) := by
  obtain ⟨q, hq⟩ := hread _ (mem_writes.mpr (.inl rfl))
  obtain ⟨t, ts, rfl, hkey⟩ := unescaped_of_reads hD hnul hp hq
  have hbelow : p ++ [t] <+: p ++ t :: ts := ⟨ts, by simp⟩
  have hobj : Json.NoDash (.obj ms) [t] :=
    Json.noDash_cons_iff.mpr ⟨fun _ _ => Json.noConfusion, fun q r xs h => by simp at h⟩
  have hmember : (j.set p (.obj ms)).NoDash (p ++ [t]) :=
    (Json.noDash_set_append hdash _ _).mpr hobj
  obtain ⟨x, hx⟩ := setTypeMany_writes hD hq hread hbelow hmember
  refine ⟨t, x, ?_, ?_⟩
  · rw [hx, Json.set_set_append hdash, Json.set_one_obj]
  · constructor
    · intro heq
      obtain ⟨ht, himage⟩ := Prod.mk.inj heq
      have hlit := hkey ht
      have hread' := reads_unescaped hD hnul hp hlit
      rw [hq] at hread'
      have hpointer := Except.ok.inj hread'
      rw [ht, himage] at hx
      rw [ht] at hmember
      rw [hpointer] at hq
      have hleaves := hv _ _ _ hq (nul_not_mem_below hnul hlit) hmember hread
      rw [isFragment_below] at hleaves
      exact ⟨hlit, hleaves.mp hx⟩
    · rintro ⟨hlit, hvlit⟩
      have hread' := reads_unescaped hD hnul hp hlit
      rw [hq] at hread'
      have ht := (List.cons.inj (List.append_cancel_left (Except.ok.inj hread'))).1
      rw [Except.ok.inj hread'] at hq
      rw [ht] at hx hmember
      have hleaves := hv _ _ _ hq (nul_not_mem_below hnul hlit) hmember hread
      rw [isFragment_below] at hleaves
      rw [hleaves.mpr hvlit] at hx
      rw [ht, Json.set_inj hmember hx]

theorem members_left {ms : List (String × EntryTree)} (hms : ∀ m ∈ ms, LeavesImage D m.2)
    (hread : Readable D (memberWrites ms path)) (ns : List (String × Json)) :
    ∃ items, items.length = ms.length ∧
      Json.setTypeMany (resolve D (memberWrites ms path)) (j.set p (.obj ns)) =
        j.set p (.obj (Json.setMembers items ns)) ∧
      (items = imageMembers ms ↔
        (∀ m ∈ ms, Base.Unescaped (isFragment path) m.1) ∧ ∀ m ∈ ms, m.2.Unescaped
        (isFragment path)) := by
  induction ms generalizing ns with
  | nil => exact ⟨[], rfl, rfl, by simp [imageMembers]⟩
  | cons m ms ih =>
    obtain ⟨key, v⟩ := m
    obtain ⟨hv, hms⟩ := List.forall_mem_cons.mp hms
    rw [memberWrites_cons] at hread
    obtain ⟨hfirst, hrest⟩ := List.forall_mem_append.mp hread
    obtain ⟨t, x, hset, hiff⟩ := member_left hD hp hnul hdash hv hfirst ns
    obtain ⟨items, hlen, hitems, hiffs⟩ := ih hms hrest (Json.setMember t x ns)
    refine ⟨(t, x) :: items, by rw [List.length_cons, List.length_cons, hlen], ?_, ?_⟩
    · rw [memberWrites_cons, resolve_append, Json.setTypeMany_append, hset, hitems]
      rfl
    · rw [imageMembers, List.cons.injEq, hiff, hiffs, List.forall_mem_cons, List.forall_mem_cons]
      exact and_and_and_comm

/-- The writes of an element add it to the array; it is the image exactly when this is read as it
stands. -/
theorem item_left {v : EntryTree} (hv : LeavesImage D v) (xs : List Json)
    (hread : Readable D (writes v (path ++ "/" ++ toString xs.length))) :
    ∃ x, Json.setTypeMany (resolve D (writes v (path ++ "/" ++ toString xs.length)))
      (j.set p (.arr xs)) =
        j.set p (.arr (xs ++ [x])) ∧ (x = image v ↔ v.Unescaped (isFragment path)) := by
  have hlit := unescaped_toString (isFragment path) xs.length
  have hq := reads_unescaped hD hnul hp hlit
  have harr : Json.NoDash (.arr xs) [toString xs.length] := by
    refine Json.noDash_cons_iff.mpr ⟨fun ht => ?_, fun q r xs h => by simp at h⟩
    have hindex := Json.tokenIndex_toString xs.length
    rw [ht] at hindex
    cases hindex
  have hitem : (j.set p (.arr xs)).NoDash (p ++ [toString xs.length]) :=
    (Json.noDash_set_append hdash _ _).mpr harr
  obtain ⟨x, hx⟩ := setTypeMany_writes hD hq hread List.prefix_rfl hitem
  have hleaves := hv _ _ _ hq (nul_not_mem_below hnul hlit) hitem hread
  rw [isFragment_below, hx] at hleaves
  refine ⟨x, ?_, ?_⟩
  · rw [hx, Json.set_set_append hdash, Json.set_next]
  · rw [← hleaves]
    exact ⟨fun heq => by rw [heq], Json.set_inj hitem⟩

theorem items_left {vs : List EntryTree} (hvs : ∀ v ∈ vs, LeavesImage D v) (xs : List Json)
    (hread : Readable D (itemWrites vs path xs.length)) :
    ∃ ys, Json.setTypeMany (resolve D (itemWrites vs path xs.length)) (j.set p (.arr xs)) =
      j.set p (.arr (xs ++ ys)) ∧
      (ys = imageItems vs ↔ ∀ v ∈ vs, v.Unescaped (isFragment path)) := by
  induction vs generalizing xs with
  | nil => exact ⟨[], by rw [List.append_nil]; rfl, by simp [imageItems]⟩
  | cons v vs ih =>
    obtain ⟨hv, hvs⟩ := List.forall_mem_cons.mp hvs
    rw [itemWrites_cons] at hread
    obtain ⟨hfirst, hrest⟩ := List.forall_mem_append.mp hread
    obtain ⟨x, hset, hiff⟩ := item_left hD hp hnul hdash hv xs hfirst
    have hlen : xs.length + 1 = (xs ++ [x]).length := by
      rw [List.length_append, List.length_singleton]
    rw [hlen] at hrest
    obtain ⟨ys, hitems, hiffs⟩ := ih hvs (xs ++ [x]) hrest
    refine ⟨x :: ys, ?_, ?_⟩
    · rw [itemWrites_cons, resolve_append, Json.setTypeMany_append, hset, hlen, hitems,
        List.append_assoc]
      rfl
    · rw [imageItems, List.cons.injEq, hiff, hiffs, List.forall_mem_cons]

end Loops

theorem leavesImage (hD : Documented D.pointer) (v : EntryTree) : LeavesImage D v := by
  induction v using EntryTree.induction with
  | scalar data =>
    intro path p j hp _ _ _
    rw [writes_eq, resolve_cons hp]
    exact iff_of_true rfl (.scalar data)
  | map ms ih =>
    intro path p j hp hnul hdash hread
    rw [writes_eq] at hread
    obtain ⟨items, hlen, hset, hiff⟩ :=
      members_left hD hp hnul hdash ih (fun w hw => hread w (List.mem_cons_of_mem _ hw)) []
    have hall : Json.setTypeMany (resolve D (writes (.map ms) path)) j =
        j.set p (.obj (Json.setMembers items [])) := by
      rw [writes_eq, resolve_cons hp]
      exact hset
    have himage : j.set p (.obj (Json.setMembers items [])) = j.set p (image (.map ms)) ↔
        Json.setMembers items [] = imageMembers ms :=
      ⟨fun heq => Json.obj.inj (Json.set_inj hdash heq), fun heq => by rw [heq, image]⟩
    rw [hall, himage, Json.setMembers_eq_iff (by rw [hlen, length_imageMembers]), hiff,
      map_fst_imageMembers]
    constructor
    · rintro ⟨⟨hkeys, hms⟩, hnodup⟩
      exact .map hnodup hkeys hms
    · intro h
      cases h with | map hnodup hkeys hms => exact ⟨⟨hkeys, hms⟩, hnodup⟩
  | array vs ih =>
    intro path p j hp hnul hdash hread
    rw [writes_eq] at hread
    obtain ⟨ys, hset, hiff⟩ :=
      items_left hD hp hnul hdash ih [] fun w hw => hread w (List.mem_cons_of_mem _ hw)
    have hall : Json.setTypeMany (resolve D (writes (.array vs) path)) j = j.set p (.arr ys) := by
      rw [writes_eq, resolve_cons hp]
      exact hset
    have himage : j.set p (.arr ys) = j.set p (image (.array vs)) ↔ ys = imageItems vs :=
      ⟨fun heq => Json.arr.inj (Json.set_inj hdash heq), fun heq => by rw [heq, image]⟩
    rw [hall, himage, hiff]
    constructor
    · exact .array
    · intro h
      cases h with | array hvs => exact hvs

/-! ## Paths with a NUL -/

/-- All paths below a path with a NUL are read as this path. -/
theorem cstr_of_mem_writes {v : EntryTree} {path : String} (hnul : Char.ofNat 0 ∈ path.toList)
    {w : String × Json} (hw : w ∈ writes v path) : cstr w.1 = cstr path := by
  induction v using EntryTree.descend generalizing path with
  | h v ih =>
    rcases mem_writes.mp hw with rfl | ⟨key, u, hu, hw⟩
    · rfl
    · have hmem : Char.ofNat 0 ∈ (path ++ "/" ++ key).toList := by
        rw [String.toList_append, String.toList_append]
        exact List.mem_append_left _ (List.mem_append_left _ hnul)
      rw [ih key u hu hmem hw, cstr_below_of_mem hnul]

theorem exists_top {v : EntryTree} {path : String} {w : String × Json} (hw : w ∈ writes v path) :
    ∃ u, w.2 = top u := by
  induction v using EntryTree.descend generalizing path with
  | h v ih =>
    rcases mem_writes.mp hw with rfl | ⟨key, u, hu, hw⟩
    · exact ⟨v, rfl⟩
    · exact ih key u hu hw

theorem bare_of_image_eq {v u : EntryTree} (h : image v = top u) : v.Bare := by
  have hscalar : ∀ data ms, scalarImage data ≠ .obj ms := by
    intro data ms
    cases data <;> exact Json.noConfusion
  have hscalar' : ∀ data xs, scalarImage data ≠ .arr xs := by
    intro data xs
    cases data <;> exact Json.noConfusion
  cases v with
  | scalar data => trivial
  | map ms =>
    have hms : imageMembers ms = [] := by
      cases u with
      | scalar data => exact absurd h.symm (hscalar _ _)
      | map us => exact Json.obj.inj h
      | array us => exact Json.noConfusion h
    have hlen := length_imageMembers ms
    rw [hms] at hlen
    exact List.length_eq_zero_iff.mp hlen.symm
  | array vs =>
    have hvs : imageItems vs = [] := by
      cases u with
      | scalar data => exact absurd h.symm (hscalar' _ _)
      | map us => exact Json.noConfusion h
      | array us => exact Json.arr.inj h
    cases vs with
    | nil => rfl
    | cons v vs =>
      rw [imageItems] at hvs
      cases hvs

theorem EntryTree.Bare.writes {v : EntryTree} (h : v.Bare) (path : String) :
    writes v path = [(path, image v)] := by
  rw [writes_eq]
  cases v with
  | scalar data => rfl
  | map ms =>
    cases h
    rfl
  | array vs =>
    cases h
    rfl

theorem EntryTree.Bare.unescaped {v : EntryTree} (h : v.Bare) (fragment : Bool) :
    v.Unescaped fragment := by
  cases v with
  | scalar data => exact .scalar data
  | map ms =>
    cases h
    exact .map List.nodup_nil (by simp) (by simp)
  | array vs =>
    cases h
    exact .array (by simp)

/-! ## When the image is left -/

section Kept

variable (hD : Documented D.pointer) {v : EntryTree} {path : String} {p : Pointer}
  (hp : D.pointer (cstr path) = .ok p)
include hD hp

theorem readable_of_kept (h : Kept path v) : Readable D (writes v path) := by
  rcases h with hbare | ⟨hnul, hlit⟩
  · rw [hbare.writes]
    exact fun w hw => ⟨p, by rw [List.mem_singleton.mp hw]; exact hp⟩
  · exact readable_of_unescaped hD hp hnul hlit

theorem leaves_iff_kept {j : Json} (hdash : j.NoDash p) (hread : Readable D (writes v path)) :
    Json.setTypeMany (resolve D (writes v path)) j = j.set p (image v) ↔ Kept path v := by
  by_cases hnul : Char.ofNat 0 ∈ path.toList
  · have hsame : ∀ item ∈ resolve D (writes v path), item.1 = p := by
      intro item hitem
      obtain ⟨w, hw, hq, -⟩ := mem_resolve.mp hitem
      rw [cstr_of_mem_writes hnul hw, hp] at hq
      exact (Except.ok.inj hq).symm
    constructor
    · intro hset
      obtain ⟨item, hitem, hlast⟩ := Json.setTypeMany_same hsame (resolve_ne_nil hp v) hdash
      obtain ⟨w, hw, -, hvalue⟩ := mem_resolve.mp hitem
      obtain ⟨u, hu⟩ := exists_top hw
      rw [hset] at hlast
      exact .inl (bare_of_image_eq ((Json.set_inj hdash hlast).trans (hvalue.symm.trans hu)))
    · rintro (hbare | ⟨hnot, -⟩)
      · rw [hbare.writes, resolve_cons hp]
        rfl
      · exact absurd hnul hnot
  · rw [leavesImage hD v path p j hp hnul hdash hread]
    constructor
    · exact fun h => .inr ⟨hnul, h⟩
    · rintro (hbare | ⟨-, hlit⟩)
      · exact hbare.unescaped _
      · exact hlit

/-- Then nothing else of the document changes. -/
theorem setTypes_of_kept {j : Json} (hdash : j.NoDash p) (h : Kept path v) :
    setTypes D (writes v path) j = .ok (j.set p (image v)) := by
  have hread := readable_of_kept hD hp h
  exact setTypes_eq_ok_iff.mpr ⟨hread, ((leaves_iff_kept hD hp hdash hread).mpr h).symm⟩

theorem setTypes_iff (j : Json) :
    (∃ j', setTypes D (writes v path) j = .ok j' ∧ j'.get p = some (image v)) ↔
    j.NoDash p ∧ Kept path v := by
  constructor
  · rintro ⟨j', hset, hget⟩
    obtain ⟨hread, rfl⟩ := setTypes_eq_ok_iff.mp hset
    by_cases hdash : j.NoDash p
    · obtain ⟨x, hx⟩ := setTypeMany_writes hD hp hread List.prefix_rfl hdash
      rw [hx, Json.get_set_of_noDash hdash] at hget
      rw [Option.some.inj hget] at hx
      exact ⟨hdash, (leaves_iff_kept hD hp hdash hread).mp hx⟩
    · rw [Json.get_setTypeMany_of_not_noDash (prefix_of_mem_resolve hD hp hread) hdash] at hget
      cases hget
  · rintro ⟨hdash, h⟩
    exact ⟨_, setTypes_of_kept hD hp hdash h, Json.get_set_of_noDash hdash _⟩

end Kept

/-! ## The promise of the dump -/

/-- A dump of the list rebuilds the value it starts with and returns what follows; a list that
starts with none makes it throw. -/
structure Rebuilds (l : List EntryNode) (p : Pointer)
    (r : Option (Except Stop (List EntryNode × Json))) : Prop where
  complete : ∀ v rest, v.Sized → l = flatten v ++ rest → ∃ j, r = some (.ok (rest, j)) ∧
    j.get p = some (image v)
  other : ¬ Complete l → Throws r

variable (D) in
/-- The value is read as it stands; a list that ends inside a value has a path that is not read at
all before. -/
structure Rebuildable (l : List EntryNode) (path : String) (p : Pointer) (j : Json) : Prop where
  complete : ∀ v rest, v.Sized → l = flatten v ++ rest → j.NoDash p ∧ Kept path v
  unfinished : ¬ Complete l → ∀ v l', v.Sized → l' ≠ [] → flatten v = l ++ l' →
    ¬ Readable D ((steps v path).take l.length).reduceOption

variable {strerror : Int → String}

theorem dump_complete {v : EntryTree} (hv : v.Sized) {rest : List EntryNode} {fuel : Nat}
    (hfuel : (flatten v ++ rest).length < fuel) (path : String) (j : Json) :
    dumpEntryDataList D strerror fuel (flatten v ++ rest) path j =
      some ((setTypes D (writes v path) j).map fun j => (rest, j)) := by
  rw [List.length_append] at hfuel
  exact dump_flatten hv (by omega) rest path j

/-- A list that ends inside a value makes the dump throw only where a path is not read. -/
theorem throws_iff_of_unfinished {v : EntryTree} (hv : v.Sized) {l l' : List EntryNode}
    (hl' : l' ≠ []) (hl : flatten v = l ++ l') {fuel : Nat} (hfuel : l.length < fuel)
    (path : String) (j : Json) :
    Throws (dumpEntryDataList D strerror fuel l path j) ↔
      ¬ Readable D ((steps v path).take l.length).reduceOption := by
  obtain ⟨finish, hfinish, hrun⟩ := dump_truncated hv fuel l l' path hl hl' hfuel
  rw [hrun]
  cases hset : setTypes D ((steps v path).take l.length).reduceOption j with
  | ok j' =>
    refine iff_of_false ?_ (not_not.mpr (setTypes_eq_ok_iff.mp hset).1)
    rintro ⟨message, hthrows⟩
    rcases hfinish with rfl | rfl
    · cases hthrows
    · cases hthrows
  | error e =>
    obtain ⟨message, rfl⟩ := setTypes_error D hset
    refine iff_of_true ⟨message, rfl⟩ fun hread => ?_
    rw [setTypes_eq_ok_iff.mpr ⟨hread, rfl⟩] at hset
    cases hset

/-- The dump ends on every list. -/
theorem dump_isSome (l : List EntryNode) (path : String) (j : Json) {fuel : Nat}
    (hfuel : l.length < fuel) : (dumpEntryDataList D strerror fuel l path j).isSome = true := by
  rcases dump_recognised fuel l path j hfuel with ⟨message, hrun⟩ | ⟨v, rest, hv, rfl⟩ |
      ⟨v, l', hv, hl', hl⟩
  · rw [hrun]
    rfl
  · rw [dump_complete hv hfuel]
    rfl
  · obtain ⟨finish, -, hrun⟩ := dump_truncated hv fuel l l' path hl hl' hfuel
    rw [hrun]
    rfl

section Promise

variable (hD : Documented D.pointer) {l : List EntryNode} {path : String} {p : Pointer}
  (hp : D.pointer (cstr path) = .ok p) {j : Json} {fuel : Nat} (hfuel : l.length < fuel)
include hD hp hfuel

theorem rebuildable_of_rebuilds (h : Rebuilds l p (dumpEntryDataList D strerror fuel l path j)) :
    Rebuildable D l path p j where
  complete v rest hv hl := by
    obtain ⟨j', hrun, hget⟩ := h.complete v rest hv hl
    subst hl
    rw [dump_complete hv hfuel] at hrun
    refine (setTypes_iff hD hp j).mp ⟨j', ?_, hget⟩
    cases hset : setTypes D (writes v path) j with
    | ok j'' =>
      rw [hset] at hrun
      cases hrun
      rfl
    | error e =>
      rw [hset] at hrun
      cases hrun
  unfinished hnot v l' hv hl' hl :=
    (throws_iff_of_unfinished hv hl' hl hfuel path j).mp (h.other hnot)

theorem dump_kept {v : EntryTree} {rest : List EntryNode} (hv : v.Sized)
    (hl : l = flatten v ++ rest) (hdash : j.NoDash p) (h : Kept path v) :
    dumpEntryDataList D strerror fuel l path j = some (.ok (rest, j.set p (image v))) := by
  subst hl
  rw [dump_complete hv hfuel, setTypes_of_kept hD hp hdash h]
  rfl

theorem rebuilds_of_rebuildable (h : Rebuildable D l path p j) :
    Rebuilds l p (dumpEntryDataList D strerror fuel l path j) where
  complete v rest hv hl := by
    obtain ⟨hdash, hkept⟩ := h.complete v rest hv hl
    exact ⟨_, dump_kept hD hp hfuel hv hl hdash hkept, Json.get_set_of_noDash hdash _⟩
  other hnot := by
    rcases dump_recognised fuel l path j hfuel with hthrows | hcomplete | ⟨v, l', hv, hl', hl⟩
    · exact hthrows
    · exact absurd hcomplete hnot
    · exact (throws_iff_of_unfinished hv hl' hl hfuel path j).mpr (h.unfinished hnot v l' hv hl' hl)

end Promise

/-- A dump of a list keeps its promise exactly under `Rebuildable`; where it rebuilds a value,
nothing else of the document changes; and it ends on every list. -/
theorem rebuilds_iff (strerror : Int → String) (hD : Documented D.pointer) (l : List EntryNode)
    (path : String) (p : Pointer) (hp : D.pointer (cstr path) = .ok p) (j : Json) (fuel : Nat)
    (hfuel : l.length < fuel) :
    (Rebuilds l p (dumpEntryDataList D strerror fuel l path j) ↔ Rebuildable D l path p j) ∧
    (∀ v rest, v.Sized → l = flatten v ++ rest → j.NoDash p → Kept path v →
      dumpEntryDataList D strerror fuel l path j = some (.ok (rest, j.set p (image v)))) ∧
    (dumpEntryDataList D strerror fuel l path j).isSome = true :=
  ⟨⟨rebuildable_of_rebuilds hD hp hfuel, rebuilds_of_rebuildable hD hp hfuel⟩,
    fun _ _ hv hl hdash hkept => dump_kept hD hp hfuel hv hl hdash hkept,
      dump_isSome l path j hfuel⟩

/-! ## A value with a map and an array -/

section Sample

/-- A document that reads its pointers. -/
def pointerDom : RapidDom where
  json := ⟨fun _ => .error ⟨"Parse error"⟩, fun _ => ""⟩
  pointer := unencoded
  equal _ _ := false
  isFloat _ := false
  toFloat _ := 0

def namesTree : EntryTree :=
  .map [("names",
    .array [.scalar ⟨.utf8_string "Madrid", nofun, nofun, nofun⟩,
      .scalar ⟨.uint64 40, nofun, nofun, nofun⟩])]

theorem namesTree_sized : namesTree.Sized := by
  refine .map (by decide) (List.forall_mem_singleton.mpr (.array (by decide) ?_))
  exact List.forall_mem_cons.mpr ⟨.scalar _, List.forall_mem_singleton.mpr (.scalar _)⟩

theorem namesTree_kept : Kept "" namesTree := by
  have hkey : Base.Unescaped false "names" := ⟨by decide, by decide, by decide⟩
  refine .inr ⟨by decide, .map (List.nodup_singleton _) (List.forall_mem_singleton.mpr hkey) ?_⟩
  refine List.forall_mem_singleton.mpr (.array ?_)
  exact List.forall_mem_cons.mpr ⟨.scalar _, List.forall_mem_singleton.mpr (.scalar _)⟩

/-- A dump of the list into an empty document. -/
def dumpSample (l : List EntryNode) : Option (Except Stop (List EntryNode × Json)) :=
  dumpEntryDataList pointerDom (fun _ => "invalid data") 8 l "" .null

theorem rebuilds_names :
    (Rebuilds (flatten namesTree ++ [.other]) [] (dumpSample (flatten namesTree ++ [.other])) ↔
      Rebuildable pointerDom (flatten namesTree ++ [.other]) "" [] .null) ∧
    dumpSample (flatten namesTree ++ [.other]) =
      some (.ok ([.other], .obj [("names", .arr [.str "Madrid", .str "40"])])) := by
  obtain ⟨hiff, hkept, -⟩ :=
    rebuilds_iff (D := pointerDom) (fun _ => "invalid data") documented_unencoded
    (flatten namesTree ++ [.other]) "" [] rfl .null 8 (by decide)
  exact ⟨hiff, hkept namesTree [.other] namesTree_sized rfl (Json.noDash_null []) namesTree_kept⟩

/-- A map under a key with a slash. -/
def slashTree : EntryTree := .map [("a/b", .scalar ⟨.boolean true, nofun, nofun, nofun⟩)]

/-- A key with a slash is read as two tokens; a map without its members is returned; and a key
without its value is followed through the null pointer. -/
theorem dump_breaks :
    (dumpSample (flatten slashTree) = some (.ok ([], .obj [("a", .obj [("b", .bool true)])])) ∧
      ¬ Rebuilds (flatten slashTree) [] (dumpSample (flatten slashTree))) ∧
    (dumpSample [.map 1] = some (.ok ([], .obj [])) ∧
      ¬ Rebuilds [.map 1] [] (dumpSample [.map 1])) ∧
    dumpSample [.map 1, keyNode "a"] = some (.error .nullDereference) ∧
    ¬ Rebuilds [.map 1, keyNode "a"] [] (dumpSample [.map 1, keyNode "a"]) := by
  have hslash : dumpSample (flatten slashTree) =
      some (.ok ([], .obj [("a", .obj [("b", .bool true)])])) := rfl
  have hmap : dumpSample [.map 1] = some (.ok ([], .obj [])) := rfl
  have hkey : dumpSample [.map 1, keyNode "a"] = some (.error .nullDereference) := rfl
  refine ⟨⟨hslash, fun h => ?_⟩, ⟨hmap, fun h => ?_⟩, hkey, fun h => ?_⟩
  · have hsized : slashTree.Sized := .map (by decide) (List.forall_mem_singleton.mpr (.scalar _))
    obtain ⟨j, hrun, hget⟩ := h.complete slashTree [] hsized (List.append_nil _).symm
    rw [hslash] at hrun
    cases hrun
    exact absurd (Option.some.inj hget) (by simp [slashTree, image, imageMembers])
  · have hnot : ¬ Complete [.map 1] := by
      rintro ⟨v, rest, -, hl⟩
      cases v with
      | scalar data => cases hl
      | array vs => cases hl
      | map ms =>
        rw [flatten, List.cons_append] at hl
        obtain ⟨hsize, hnil⟩ := List.cons.inj hl
        cases ms with
        | nil => cases hsize
        | cons m ms => cases hnil
    obtain ⟨message, hthrows⟩ := h.other hnot
    rw [hmap] at hthrows
    cases hthrows
  · by_cases hcomplete : Complete [.map 1, keyNode "a"]
    · obtain ⟨v, rest, hv, hl⟩ := hcomplete
      obtain ⟨j, hrun, -⟩ := h.complete v rest hv hl
      rw [hkey] at hrun
      cases hrun
    · obtain ⟨message, hthrows⟩ := h.other hcomplete
      rw [hkey] at hthrows
      cases hthrows

end Sample

end

end DistroDefender.Geo
