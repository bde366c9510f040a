import DistroDefender.Geo.Dump
import Mathlib.Data.List.ReduceOption

/-!
# Values and their entry lists

An MMDB value is a tree; its entry list has the nodes of the tree in preorder, a key before the
value it belongs to (`flatten`). On the list of a value, whatever follows it, a dump makes the
writes of `steps` and returns what follows (`dump_flatten`). On a list that ends too early it makes
the writes of the nodes that are there, and then returns or follows the null pointer
(`dump_truncated`). On any other list it throws (`dump_recognised`).
-/

namespace DistroDefender.Geo

open Base

/-- An MMDB value. -/
inductive EntryTree where
  | scalar (data : Scalar)
  | map (ms : List (String × EntryTree))
  | array (vs : List EntryTree)

namespace EntryTree

/-- A value, from the values below it. -/
@[elab_as_elim] theorem induction {motive : EntryTree → Prop}
    (scalar : ∀ data, motive (.scalar data))
    (map : ∀ ms : List (String × EntryTree), (∀ m ∈ ms, motive m.2) → motive (.map ms))
    (array : ∀ vs : List EntryTree, (∀ v ∈ vs, motive v) → motive (.array vs)) (v : EntryTree) :
    motive v :=
  @EntryTree.rec motive (fun ms => ∀ m ∈ ms, motive m.2) (fun vs => ∀ v ∈ vs, motive v)
    (fun m => motive m.2) scalar map array
    (fun _ h => absurd h List.not_mem_nil)
    (fun _ _ hm hms => List.forall_mem_cons.mpr ⟨hm, hms⟩)
    (fun _ h => absurd h List.not_mem_nil)
    (fun _ _ hv hvs => List.forall_mem_cons.mpr ⟨hv, hvs⟩)
    (fun _ _ hv => hv) v

/-- `data_size` can hold the size of every map and array. -/
inductive Sized : EntryTree → Prop
  | scalar (data : Scalar) : Sized (.scalar data)
  | map {ms : List (String × EntryTree)} (hlen : ms.length < UInt32.size)
      (h : ∀ m ∈ ms, Sized m.2) : Sized (.map ms)
  | array {vs : List EntryTree} (hlen : vs.length < UInt32.size) (h : ∀ v ∈ vs, Sized v) :
      Sized (.array vs)

/-! ## Lists -/

def keyNode (key : String) : EntryNode := .scalar ⟨.utf8_string key, nofun, nofun, nofun⟩

mutual

/-- The entry list of a value. -/
def flatten : EntryTree → List EntryNode
  | .scalar data => [.scalar data]
  | .map ms => .map (.ofNat ms.length) :: flattenMembers ms
  | .array vs => .array (.ofNat vs.length) :: flattenItems vs

def flattenMembers : List (String × EntryTree) → List EntryNode
  | [] => []
  | (key, v) :: ms => keyNode key :: (flatten v ++ flattenMembers ms)

def flattenItems : List EntryTree → List EntryNode
  | [] => []
  | v :: vs => flatten v ++ flattenItems vs

end

mutual

/-- What a dump writes for each node of the list: the path and the value, and nothing for a key. -/
def steps : EntryTree → String → List (Option (String × Json))
  | .scalar data, path => [some (path, typeValue data.1)]
  | .map ms, path => some (path, .obj []) :: memberSteps ms path
  | .array vs, path => some (path, .arr []) :: itemSteps vs path 0

def memberSteps : List (String × EntryTree) → String → List (Option (String × Json))
  | [], _ => []
  | (key, v) :: ms, path => none :: (steps v (path ++ "/" ++ key) ++ memberSteps ms path)

def itemSteps : List EntryTree → String → Nat → List (Option (String × Json))
  | [], _, _ => []
  | v :: vs, path, index => steps v (path ++ "/" ++ toString index) ++ itemSteps vs path (index + 1)

end

theorem length_steps (v : EntryTree) (path : String) :
    (steps v path).length = (flatten v).length := by
  induction v using EntryTree.induction generalizing path with
  | scalar data => rfl
  | map ms ih =>
    have hmembers : (memberSteps ms path).length = (flattenMembers ms).length := by
      induction ms with
      | nil => rfl
      | cons m ms ihms =>
        obtain ⟨hm, hms⟩ := List.forall_mem_cons.mp ih
        rw [memberSteps, flattenMembers, List.length_cons, List.length_cons, List.length_append,
          List.length_append, hm, ihms hms]
    rw [steps, flatten, List.length_cons, List.length_cons, hmembers]
  | array vs ih =>
    have hitems : ∀ index, (itemSteps vs path index).length = (flattenItems vs).length := by
      induction vs with
      | nil => exact fun _ => rfl
      | cons v vs ihvs =>
        intro index
        obtain ⟨hv, hvs⟩ := List.forall_mem_cons.mp ih
        rw [itemSteps, flattenItems, List.length_append, List.length_append, hv, ihvs hvs]
    rw [steps, flatten, List.length_cons, List.length_cons, hitems]

end EntryTree

section

variable (D : RapidDom) (strerror : Int → String)

open EntryTree

/-! ## Complete lists -/

/-- The dump takes the list of the value, makes its writes and returns what follows. -/
def Dumps (dump : List EntryNode → String → Dumping (List EntryNode)) (v : EntryTree) : Prop :=
  ∀ rest path j, dump (flatten v ++ rest) path j =
    some ((setTypes D (steps v path).reduceOption j).map fun j => (rest, j))

theorem bind_map {α β γ : Type} (x : Except Stop α) (f : α → Except Stop β) (g : β → γ) :
    (x >>= fun a => (f a).map g) = (x >>= f).map g := by
  cases x <;> rfl

variable {D strerror}

theorem mapLoop_members {dump : List EntryNode → String → Dumping (List EntryNode)}
    {ms : List (String × EntryTree)} (h : ∀ m ∈ ms, Dumps D dump m.2) (rest : List EntryNode)
    (path : String) (j : Json) :
    mapLoop strerror dump path ms.length (flattenMembers ms ++ rest) j =
      some ((setTypes D (memberSteps ms path).reduceOption j).map fun j => (rest, j)) := by
  induction ms generalizing j with
  | nil => rfl
  | cons m ms ih =>
    obtain ⟨key, v⟩ := m
    obtain ⟨hv, hms⟩ := List.forall_mem_cons.mp h
    have hloop : mapLoop strerror dump path ((key, v) :: ms).length
        (flattenMembers ((key, v) :: ms) ++ rest) =
        dump (flatten v ++ (flattenMembers ms ++ rest)) (path ++ "/" ++ key) >>=
          mapLoop strerror dump path ms.length := by
      rw [flattenMembers, List.cons_append, List.append_assoc]
      rfl
    rw [hloop, Dumping.run_then (hv _ _ _) fun j => ih hms j, memberSteps,
      List.reduceOption_cons_of_none, List.reduceOption_append, setTypes_append, bind_map]

theorem arrayLoop_items {dump : List EntryNode → String → Dumping (List EntryNode)}
    {vs : List EntryTree} (h : ∀ v ∈ vs, Dumps D dump v) (rest : List EntryNode) (path : String)
    (index : Nat) (j : Json) : arrayLoop dump path vs.length index (flattenItems vs ++ rest) j =
      some ((setTypes D (itemSteps vs path index).reduceOption j).map fun j => (rest, j)) := by
  induction vs generalizing index j with
  | nil => rfl
  | cons v vs ih =>
    obtain ⟨hv, hvs⟩ := List.forall_mem_cons.mp h
    have hloop : arrayLoop dump path (v :: vs).length index (flattenItems (v :: vs) ++ rest) =
        dump (flatten v ++ (flattenItems vs ++ rest)) (path ++ "/" ++ toString index) >>=
          arrayLoop dump path vs.length (index + 1) := by
      rw [flattenItems, List.append_assoc]
      cases v <;> rfl
    rw [hloop, Dumping.run_then (hv _ _ _) fun j => ih hvs (index + 1) j, itemSteps,
      List.reduceOption_append, setTypes_append, bind_map]

theorem dumpMap_then {dump : List EntryNode → String → Dumping (List EntryNode)}
    {data_size : UInt32} {eDataList : List EntryNode} {path : String}
    {finish : Json → Except Stop (List EntryNode × Json)}
    (h : ∀ j, mapLoop strerror dump path data_size.toNat eDataList j = some (finish j)) (j : Json) :
    dumpMap D strerror dump (.map data_size :: eDataList) path j =
      some (setType D path (.obj []) j >>= finish) :=
  Dumping.run_then (run_setAt D (.inr (.inl ⟨rfl, rfl⟩)) path j) h

variable (strerror) in
theorem dumpArray_then {dump : List EntryNode → String → Dumping (List EntryNode)}
    {data_size : UInt32} {eDataList : List EntryNode} {path : String}
    {finish : Json → Except Stop (List EntryNode × Json)}
    (h : ∀ j, arrayLoop dump path data_size.toNat 0 eDataList j = some (finish j)) (j : Json) :
    dumpArray D strerror dump (.array data_size :: eDataList) path j =
      some (setType D path (.arr []) j >>= finish) :=
  Dumping.run_then (run_setAt D (.inr (.inr ⟨rfl, rfl⟩)) path j) h

theorem dump_scalar (fuel : Nat) (data : Scalar) (eDataList : List EntryNode) (path : String)
    (j : Json) : dumpEntryDataList D strerror (fuel + 1) (.scalar data :: eDataList) path j =
      some ((setType D path (typeValue data.1) j).map fun j => (eDataList, j)) := by
  have hset := run_setAt D (.inl (rfl : JsonDOM.PathOp.setType (typeValue data.1) = _)) path j
  have hrest : ∀ j, (pure eDataList : Dumping _) j = some (.ok (eDataList, j)) := fun _ => rfl
  refine (Dumping.run_then hset fun j => hrest j).trans ?_
  cases setType D path (typeValue data.1) j <;> rfl

theorem toNat_ofNat {n : Nat} (h : n < UInt32.size) : (UInt32.ofNat n).toNat = n :=
  UInt32.toNat_ofNat_of_lt' h

theorem length_flattenMembers {ms : List (String × EntryTree)} {m : String × EntryTree}
    (hm : m ∈ ms) : (flatten m.2).length ≤ (flattenMembers ms).length := by
  induction ms with
  | nil => cases hm
  | cons n ms ih =>
    rw [flattenMembers, List.length_cons, List.length_append]
    rcases List.mem_cons.mp hm with rfl | hm
    · omega
    · have hle := ih hm
      omega

theorem length_flattenItems {vs : List EntryTree} {v : EntryTree} (hv : v ∈ vs) :
    (flatten v).length ≤ (flattenItems vs).length := by
  induction vs with
  | nil => cases hv
  | cons w vs ih =>
    rw [flattenItems, List.length_append]
    rcases List.mem_cons.mp hv with rfl | hv
    · omega
    · have hle := ih hv
      omega

/-- On the list of a value a dump makes its writes and returns what follows. -/
theorem dump_flatten {v : EntryTree} (hv : v.Sized) {fuel : Nat}
    (hfuel : (flatten v).length ≤ fuel) : Dumps D (dumpEntryDataList D strerror fuel) v := by
  have hpos : 0 < (flatten v).length := by cases v <;> simp [flatten]
  obtain ⟨fuel, rfl⟩ : ∃ n, fuel = n + 1 := ⟨fuel - 1, by omega⟩
  clear hpos
  induction v using EntryTree.induction generalizing fuel with
  | scalar data =>
    intro rest path j
    refine (dump_scalar fuel data rest path j).trans ?_
    rw [steps, List.reduceOption_cons_of_some, List.reduceOption_nil, setTypes]
    cases setType D path (typeValue data.1) j <;> rfl
  | map ms ih =>
    cases hv with | map hlen hms =>
    intro rest path j
    rw [flatten, List.length_cons] at hfuel
    have hmembers : ∀ m ∈ ms, Dumps D (dumpEntryDataList D strerror fuel) m.2 := by
      intro m hm
      have hpos : 0 < (flatten m.2).length := by cases m.2 <;> simp [flatten]
      have hle := length_flattenMembers hm
      obtain ⟨fuel, rfl⟩ : ∃ n, fuel = n + 1 := ⟨fuel - 1, by omega⟩
      exact ih m hm (hms m hm) fuel (by omega)
    rw [flatten, List.cons_append, steps, List.reduceOption_cons_of_some, setTypes, ← bind_map]
    refine dumpMap_then (fun j => ?_) j
    rw [toNat_ofNat hlen]
    exact mapLoop_members hmembers rest path j
  | array vs ih =>
    cases hv with | array hlen hvs =>
    intro rest path j
    rw [flatten, List.length_cons] at hfuel
    have hitems : ∀ v ∈ vs, Dumps D (dumpEntryDataList D strerror fuel) v := by
      intro v hv
      have hpos : 0 < (flatten v).length := by cases v <;> simp [flatten]
      have hle := length_flattenItems hv
      obtain ⟨fuel, rfl⟩ : ∃ n, fuel = n + 1 := ⟨fuel - 1, by omega⟩
      exact ih v hv (hvs v hv) fuel (by omega)
    rw [flatten, List.cons_append, steps, List.reduceOption_cons_of_some, setTypes, ← bind_map]
    refine dumpArray_then strerror (fun j => ?_) j
    rw [toNat_ofNat hlen]
    exact arrayLoop_items hitems rest path 0 j

/-! ## Lists that end too early -/

variable (D) in
/-- The call makes the writes, and then comes to the end of the list: it returns, or follows the
null pointer. -/
def RunsOut (x : Dumping (List EntryNode)) (writes : List (String × Json)) : Prop :=
  ∃ finish : Json → Except Stop (List EntryNode × Json),
    ((finish = fun j => .ok ([], j)) ∨ finish = fun _ => .error .nullDereference) ∧
    ∀ j, x j = some (setTypes D writes j >>= finish)

theorem bind_setTypes (writes writes' : List (String × Json)) (j : Json)
    (finish : Json → Except Stop (List EntryNode × Json)) :
    (setTypes D writes j >>= fun j => setTypes D writes' j >>= finish) =
      setTypes D (writes ++ writes') j >>= finish := by
  rw [setTypes_append]
  cases setTypes D writes j <;> rfl

/-- A call that runs out, and what comes after it, if this ends with the list, too. -/
theorem RunsOut.bind {x : Dumping (List EntryNode)} {writes : List (String × Json)}
    (h : RunsOut D x writes) {f : List EntryNode → Dumping (List EntryNode)}
    (hf : ∀ j, f [] j = some (.ok ([], j))) :
    RunsOut D (x >>= f) writes := by
  obtain ⟨finish, hfinish, hx⟩ := h
  refine ⟨finish, hfinish, fun j => ?_⟩
  rw [Dumping.run_bind (hx j)]
  cases setTypes D writes j with
  | error e => rfl
  | ok j =>
    rcases hfinish with rfl | rfl
    · exact hf j
    · rfl

/-- A call that takes its part of the list, and one that runs out on the rest. -/
theorem RunsOut.after {x : Dumping (List EntryNode)} {writes writes' : List (String × Json)}
    {rest : List EntryNode} (hx : ∀ j, x j = some ((setTypes D writes j).map fun j => (rest, j)))
    {f : List EntryNode → Dumping (List EntryNode)} (hf : RunsOut D (f rest) writes') :
    RunsOut D (x >>= f) (writes ++ writes') := by
  obtain ⟨finish, hfinish, hrest⟩ := hf
  refine ⟨finish, hfinish, fun j => ?_⟩
  rw [Dumping.run_then (hx j) hrest, bind_setTypes]

/-- A list is cut inside its first part, or after it. -/
theorem append_eq_append_cases {α : Type} {a c l l' : List α} (h : a ++ c = l ++ l') :
    (∃ b, b ≠ [] ∧ a = l ++ b) ∨ ∃ b, l = a ++ b ∧ c = b ++ l' := by
  rcases List.append_eq_append_iff.mp h with ⟨b, hl, hc⟩ | ⟨b, ha, hl'⟩
  · exact .inr ⟨b, hl, hc⟩
  · by_cases hb : b = []
    · rw [hb, List.append_nil] at ha
      rw [hb, List.nil_append] at hl'
      exact .inr ⟨[], by rw [ha, List.append_nil], by rw [hl', List.nil_append]⟩
    · exact .inl ⟨b, hb, ha⟩

variable (D strerror) in
/-- On what is there of the list of the value the dump runs out, after the writes of these nodes. -/
def Truncates (fuel : Nat) (v : EntryTree) : Prop :=
  ∀ l l' path, flatten v = l ++ l' → l' ≠ [] → l.length < fuel →
    RunsOut D (dumpEntryDataList D strerror fuel l path) ((steps v path).take l.length).reduceOption

theorem take_steps_of_le {v : EntryTree} {path : String} {n : Nat} (hn : n ≤ (flatten v).length)
    (rest : List (Option (String × Json))) :
    (steps v path ++ rest).take n = (steps v path).take n := by
  rw [List.take_append_of_le_length]
  rw [length_steps]
  exact hn

theorem take_steps_append (v : EntryTree) (path : String) (rest : List (Option (String × Json)))
    (n : Nat) :
    (steps v path ++ rest).take ((flatten v).length + n) = steps v path ++ rest.take n := by
  rw [← length_steps v path, List.take_length_add_append]

theorem mapLoop_truncated {fuel : Nat} {ms : List (String × EntryTree)} (hms : ∀ m ∈ ms, m.2.Sized)
    (h : ∀ m ∈ ms, Truncates D strerror fuel m.2) {l l' : List EntryNode} (path : String)
    (hl : flattenMembers ms = l ++ l') (hl' : l' ≠ []) (hfuel : l.length < fuel + 1) :
    RunsOut D (mapLoop strerror (dumpEntryDataList D strerror fuel) path ms.length l)
      ((memberSteps ms path).take l.length).reduceOption := by
  induction ms generalizing l with
  | nil =>
    rw [flattenMembers] at hl
    exact absurd (List.append_eq_nil_iff.mp hl.symm).2 hl'
  | cons m ms ih =>
    obtain ⟨key, v⟩ := m
    obtain ⟨hv, hms⟩ := List.forall_mem_cons.mp hms
    obtain ⟨hm, htail⟩ := List.forall_mem_cons.mp h
    cases l with
    | nil => exact ⟨_, .inl rfl, fun j => rfl⟩
    | cons node l =>
      rw [flattenMembers, List.cons_append] at hl
      obtain ⟨rfl, hmembers⟩ := List.cons.inj hl
      rw [List.length_cons] at hfuel
      rw [memberSteps, List.length_cons (a := keyNode key), List.take_succ_cons,
        List.reduceOption_cons_of_none]
      -- the list ends inside the first value, or with it or behind it
      rcases append_eq_append_cases hmembers with ⟨b, hb, hcut⟩ | ⟨b, rfl, hrest⟩
      · have hle := congrArg List.length hcut
        rw [List.length_append] at hle
        rw [take_steps_of_le (by omega)]
        exact (hm l b _ hcut hb (by omega)).bind fun j => by cases ms <;> rfl
      · rw [List.length_append] at hfuel ⊢
        have hfit : (flatten v).length ≤ fuel := by omega
        rw [take_steps_append, List.reduceOption_append]
        exact .after (dump_flatten hv hfit b (path ++ "/" ++ key)) (ih hms htail hrest (by omega))

theorem arrayLoop_truncated {fuel : Nat} {vs : List EntryTree} (hvs : ∀ v ∈ vs, v.Sized)
    (h : ∀ v ∈ vs, Truncates D strerror fuel v) {l l' : List EntryNode} (path : String)
    (index : Nat) (hl : flattenItems vs = l ++ l') (hl' : l' ≠ []) (hfuel : l.length < fuel) :
    RunsOut D (arrayLoop (dumpEntryDataList D strerror fuel) path vs.length index l)
      ((itemSteps vs path index).take l.length).reduceOption := by
  induction vs generalizing l index with
  | nil =>
    rw [flattenItems] at hl
    exact absurd (List.append_eq_nil_iff.mp hl.symm).2 hl'
  | cons v vs ih =>
    obtain ⟨hv, hvs⟩ := List.forall_mem_cons.mp hvs
    obtain ⟨hm, htail⟩ := List.forall_mem_cons.mp h
    cases l with
    | nil => exact ⟨_, .inl rfl, fun j => rfl⟩
    | cons node l =>
      have hloop : arrayLoop (dumpEntryDataList D strerror fuel) path (v :: vs).length index
          (node :: l) =
          dumpEntryDataList D strerror fuel (node :: l) (path ++ "/" ++ toString index) >>=
            arrayLoop (dumpEntryDataList D strerror fuel) path vs.length (index + 1) := rfl
      rw [hloop, itemSteps]
      rw [flattenItems] at hl
      rcases append_eq_append_cases hl with ⟨b, hb, hcut⟩ | ⟨b, hnode, hrest⟩
      · have hle := congrArg List.length hcut
        rw [List.length_append] at hle
        rw [take_steps_of_le (by omega)]
        exact (hm _ b _ hcut hb hfuel).bind fun j => by cases vs <;> rfl
      · rw [hnode] at hfuel ⊢
        rw [List.length_append] at hfuel ⊢
        rw [take_steps_append, List.reduceOption_append]
        exact .after (dump_flatten hv (by omega) b _) (ih hvs htail (index + 1) hrest (by omega))

/-- On a list that ends inside a value a dump runs out. -/
theorem dump_truncated {v : EntryTree} (hv : v.Sized) (fuel : Nat) :
    Truncates D strerror fuel v := by
  induction v using EntryTree.induction generalizing fuel with
  | scalar data =>
    intro l l' path hl hl' hfuel
    obtain ⟨fuel, rfl⟩ : ∃ n, fuel = n + 1 := ⟨fuel - 1, by omega⟩
    cases l with
    | nil => exact ⟨_, .inr rfl, fun j => rfl⟩
    | cons node l =>
      rw [flatten, List.cons_append] at hl
      exact absurd (List.append_eq_nil_iff.mp (List.cons.inj hl).2.symm).2 hl'
  | map ms ih =>
    cases hv with | map hlen hms =>
    intro l l' path hl hl' hfuel
    obtain ⟨fuel, rfl⟩ : ∃ n, fuel = n + 1 := ⟨fuel - 1, by omega⟩
    cases l with
    | nil => exact ⟨_, .inr rfl, fun j => rfl⟩
    | cons node l =>
      rw [flatten, List.cons_append] at hl
      obtain ⟨rfl, hmembers⟩ := List.cons.inj hl
      rw [List.length_cons] at hfuel
      obtain ⟨finish, hfinish, hloop⟩ :=
        mapLoop_truncated hms (fun m hm => ih m hm (hms m hm) fuel) path hmembers hl' (by omega)
      rw [← toNat_ofNat hlen] at hloop
      refine ⟨finish, hfinish, fun j => (dumpMap_then hloop j).trans ?_⟩
      rw [steps, List.length_cons, List.take_succ_cons, List.reduceOption_cons_of_some, setTypes]
      cases setType D path (.obj []) j <;> rfl
  | array vs ih =>
    cases hv with | array hlen hvs =>
    intro l l' path hl hl' hfuel
    obtain ⟨fuel, rfl⟩ : ∃ n, fuel = n + 1 := ⟨fuel - 1, by omega⟩
    cases l with
    | nil => exact ⟨_, .inr rfl, fun j => rfl⟩
    | cons node l =>
      rw [flatten, List.cons_append] at hl
      obtain ⟨rfl, hitems⟩ := List.cons.inj hl
      rw [List.length_cons] at hfuel
      obtain ⟨finish, hfinish, hloop⟩ :=
        arrayLoop_truncated hvs (fun v hv => ih v hv (hvs v hv) fuel) path 0 hitems hl' (by omega)
      rw [← toNat_ofNat hlen] at hloop
      refine ⟨finish, hfinish, fun j => (dumpArray_then strerror hloop j).trans ?_⟩
      rw [steps, List.length_cons, List.take_succ_cons, List.reduceOption_cons_of_some, setTypes]
      cases setType D path (.arr []) j <;> rfl

/-! ## Any other list -/

/-- The list starts with the list of a value. -/
def Complete (l : List EntryNode) : Prop := ∃ v rest, EntryTree.Sized v ∧ l = flatten v ++ rest

/-- The list ends inside the list of a value. -/
def Unfinished (l : List EntryNode) : Prop := ∃ v l', EntryTree.Sized v ∧ l' ≠ [] ∧
  flatten v = l ++ l'

/-- The call throws a `std::runtime_error`. -/
def Throws {α : Type} (r : Option (Except Stop α)) : Prop :=
  ∃ message, r = some (.error (.throws (.runtimeError message)))

theorem Throws.bind {x : Dumping (List EntryNode)} {j : Json} (h : Throws (x j))
    (f : List EntryNode → Dumping (List EntryNode)) : Throws ((x >>= f) j) := by
  obtain ⟨message, h⟩ := h
  exact ⟨message, by rw [Dumping.run_bind h]; rfl⟩

/-- A call throws, or what comes after it decides. -/
theorem throws_or_after {α : Type} {x : Dumping α} {r : Except Stop Json} {a : α} {j : Json}
    (hx : x j = some (r.map fun j => (a, j)))
    (hr : ∀ e, r = .error e → ∃ message, e = .throws (.runtimeError message))
    (f : α → Dumping (List EntryNode)) : Throws ((x >>= f) j) ∨ ∃ j', (x >>= f) j = f a j' := by
  rw [Dumping.run_bind hx]
  cases r with
  | ok j' => exact .inr ⟨j', rfl⟩
  | error e =>
    obtain ⟨message, rfl⟩ := hr e rfl
    exact .inl ⟨message, rfl⟩

/-- A value to finish a list with. -/
def filler : EntryTree := .scalar ⟨.boolean false, nofun, nofun, nofun⟩

theorem sized_filler : filler.Sized := .scalar _

/-- The first node is a key, or the loop over a map throws. -/
theorem key_or_throws (node : EntryNode) : (∃ key, node = keyNode key) ∨
    ∀ dump path size l j, Throws (mapLoop strerror dump path (size + 1) (node :: l) j) := by
  rcases node with data_size | data_size | ⟨data, hdata⟩ | _
  · exact .inr fun _ _ _ _ _ => ⟨_, rfl⟩
  · exact .inr fun _ _ _ _ _ => ⟨_, rfl⟩
  · cases data with
    | utf8_string key => exact .inl ⟨key, rfl⟩
    | bytes | double_value | float_value | uint16 | uint32 | boolean | uint64 | uint128 | int32
    | map | array | other =>
      exact .inr fun _ _ _ _ _ => ⟨_, rfl⟩
  · exact .inr fun _ _ _ _ _ => ⟨_, rfl⟩

variable (D strerror) in
/-- A dump throws, or its list is that of a value, at least as far as it goes. -/
def Recognised (fuel : Nat) : Prop := ∀ l path j, l.length < fuel →
  Throws (dumpEntryDataList D strerror fuel l path j) ∨ Complete l ∨ Unfinished l

/-- A dump throws, or what comes after it decides, or the list ends inside its value. -/
theorem Recognised.bind {fuel : Nat} (h : Recognised D strerror fuel) (l : List EntryNode)
    (hfuel : l.length < fuel) (path : String) (j : Json)
    (f : List EntryNode → Dumping (List EntryNode)) :
    Throws ((dumpEntryDataList D strerror fuel l path >>= f) j) ∨
      (∃ v rest j', EntryTree.Sized v ∧ l = flatten v ++ rest ∧
        (dumpEntryDataList D strerror fuel l path >>= f) j = f rest j') ∨
      Unfinished l := by
  rcases h l path j hfuel with hthrows | ⟨v, rest, hv, rfl⟩ | hcut
  · exact .inl (hthrows.bind f)
  · rw [List.length_append] at hfuel
    have hfit : (flatten v).length ≤ fuel := by omega
    rcases throws_or_after (dump_flatten hv hfit rest path j) (fun _ => setTypes_error D) f with
        hthrows | ⟨j', hafter⟩
    · exact .inl hthrows
    · exact .inr (.inl ⟨v, rest, j', hv, rfl, hafter⟩)
  · exact .inr (.inr hcut)

theorem mapLoop_recognised {fuel : Nat} (h : Recognised D strerror fuel) (path : String)
    (size : Nat) (l : List EntryNode) (hfuel : l.length < fuel + 1) (j : Json) :
    Throws (mapLoop strerror (dumpEntryDataList D strerror fuel) path size l j) ∨
      (∃ ms rest, ms.length = size ∧ (∀ m ∈ ms, EntryTree.Sized m.2) ∧
        l = flattenMembers ms ++ rest) ∨
      ∃ ms l', ms.length = size ∧ (∀ m ∈ ms, EntryTree.Sized m.2) ∧ l' ≠ [] ∧
      flattenMembers ms = l ++ l' := by
  induction size generalizing l j with
  | zero => exact .inr (.inl ⟨[], l, rfl, by simp, rfl⟩)
  | succ size ih =>
    have hfillers : ∀ m ∈ List.replicate size ("", filler), EntryTree.Sized m.2 := by
      intro m hm
      rw [List.eq_of_mem_replicate hm]
      exact sized_filler
    cases l with
    | nil =>
      refine .inr (.inr ⟨("", filler) :: List.replicate size ("", filler),
        _, by simp, ?_, List.cons_ne_nil _ _, rfl⟩)
      exact List.forall_mem_cons.mpr ⟨sized_filler, hfillers⟩
    | cons node l =>
      rw [List.length_cons] at hfuel
      rcases key_or_throws node with ⟨key, rfl⟩ | hthrows
      · have hloop : mapLoop strerror (dumpEntryDataList D strerror fuel) path (size + 1)
            (keyNode key :: l) = dumpEntryDataList D strerror fuel l (path ++ "/" ++ key) >>=
              mapLoop strerror (dumpEntryDataList D strerror fuel) path size := rfl
        rw [hloop]
        rcases h.bind l (by omega) (path ++ "/" ++ key) j _ with
            hthrows | ⟨v, rest, j', hv, rfl, hafter⟩ |
          ⟨v, l', hv, hl', hcut⟩
        · exact .inl hthrows
        · rw [List.length_append] at hfuel
          rw [hafter]
          rcases ih rest (by omega) j' with hthrows | ⟨ms, rest', hlen, hms, rfl⟩ |
              ⟨ms, l', hlen, hms, hl', hcut⟩
          · exact .inl hthrows
          · refine .inr (.inl ⟨(key, v) :: ms, rest', by rw [List.length_cons, hlen], ?_, ?_⟩)
            · exact List.forall_mem_cons.mpr ⟨hv, hms⟩
            · rw [flattenMembers, List.cons_append, List.append_assoc]
          · refine .inr (.inr ⟨(key, v) :: ms, l', by rw [List.length_cons, hlen], ?_, hl', ?_⟩)
            · exact List.forall_mem_cons.mpr ⟨hv, hms⟩
            · rw [flattenMembers, hcut, List.cons_append, List.append_assoc]
        · refine .inr (.inr ⟨(key, v) :: List.replicate size ("", filler),
            l' ++ flattenMembers (.replicate size ("", filler)), by simp, ?_,
            List.append_ne_nil_of_left_ne_nil hl' _, ?_⟩)
          · exact List.forall_mem_cons.mpr ⟨hv, hfillers⟩
          · rw [flattenMembers, hcut, List.cons_append, List.append_assoc]
      · exact .inl (hthrows _ _ _ _ _)

theorem arrayLoop_recognised {fuel : Nat} (h : Recognised D strerror fuel) (path : String)
    (size index : Nat) (l : List EntryNode) (hfuel : l.length < fuel) (j : Json) :
    Throws (arrayLoop (dumpEntryDataList D strerror fuel) path size index l j) ∨
      (∃ vs rest, vs.length = size ∧ (∀ v ∈ vs, EntryTree.Sized v) ∧ l = flattenItems vs ++ rest) ∨
      ∃ vs l', vs.length = size ∧ (∀ v ∈ vs, EntryTree.Sized v) ∧ l' ≠ [] ∧
      flattenItems vs = l ++ l' := by
  induction size generalizing index l j with
  | zero => exact .inr (.inl ⟨[], l, rfl, by simp, rfl⟩)
  | succ size ih =>
    have hfillers : ∀ v ∈ List.replicate size filler, EntryTree.Sized v := by
      intro v hv
      rw [List.eq_of_mem_replicate hv]
      exact sized_filler
    cases l with
    | nil =>
      refine .inr (.inr ⟨filler :: List.replicate size filler, _, by simp, ?_, ?_, rfl⟩)
      · exact List.forall_mem_cons.mpr ⟨sized_filler, hfillers⟩
      · simp [filler]
    | cons node l =>
      have hloop : arrayLoop (dumpEntryDataList D strerror fuel) path (size + 1) index (node :: l) =
          dumpEntryDataList D strerror fuel (node :: l) (path ++ "/" ++ toString index) >>=
            arrayLoop (dumpEntryDataList D strerror fuel) path size (index + 1) := rfl
      rw [hloop]
      rcases h.bind _ hfuel (path ++ "/" ++ toString index) j _ with
          hthrows | ⟨v, rest, j', hv, hl, hafter⟩ |
        ⟨v, l', hv, hl', hcut⟩
      · exact .inl hthrows
      · rw [hafter]
        rw [hl, List.length_append] at hfuel
        rw [hl]
        rcases ih (index + 1) rest (by omega) j' with hthrows | ⟨vs, rest', hlen, hvs, rfl⟩ |
          ⟨vs, l', hlen, hvs, hl', hcut⟩
        · exact .inl hthrows
        · refine .inr (.inl ⟨v :: vs, rest', by rw [List.length_cons, hlen],
            List.forall_mem_cons.mpr ⟨hv, hvs⟩, ?_⟩)
          rw [flattenItems, List.append_assoc]
        · refine .inr (.inr ⟨v :: vs, l', by rw [List.length_cons, hlen], ?_, hl', ?_⟩)
          · exact List.forall_mem_cons.mpr ⟨hv, hvs⟩
          · rw [flattenItems, hcut, List.append_assoc]
      · refine .inr (.inr ⟨v :: List.replicate size filler,
          l' ++ flattenItems (.replicate size filler), by simp,
          List.forall_mem_cons.mpr ⟨hv, hfillers⟩, List.append_ne_nil_of_left_ne_nil hl' _, ?_⟩)
        rw [flattenItems, hcut, List.append_assoc]

/-- On a list that is not that of a value, as far as it goes, a dump throws. -/
theorem dump_recognised (fuel : Nat) : Recognised D strerror fuel := by
  induction fuel with
  | zero => exact fun l path j h => absurd h (Nat.not_lt_zero _)
  | succ fuel ih =>
    intro l path j hfuel
    cases l with
    | nil => exact .inr (.inr
      ⟨filler, flatten filler, sized_filler, by simp [filler, flatten], rfl⟩)
    | cons node l =>
      rw [List.length_cons] at hfuel
      have hlist : l.length < fuel + 1 := by omega
      have hlist' : l.length < fuel := by omega
      cases node with
      | scalar data => exact .inr (.inl ⟨.scalar data, l, .scalar data, rfl⟩)
      | other => exact .inl ⟨_, rfl⟩
      | map data_size =>
        have hsize : data_size.toNat < UInt32.size := data_size.toNat_lt
        have hset := run_setAt D (.inr (.inl ⟨rfl, rfl⟩)) path j
        have hdump : dumpEntryDataList D strerror (fuel + 1) (.map data_size :: l) path =
            setAt D path .setObject >>= fun _ =>
              mapLoop strerror (dumpEntryDataList D strerror fuel) path data_size.toNat l := rfl
        rw [hdump]
        rcases throws_or_after hset (fun _ => setType_error D) _ with hthrows | ⟨j', hafter⟩
        · exact .inl hthrows
        · rw [hafter]
          rcases mapLoop_recognised ih path data_size.toNat l hlist j' with
              hthrows | ⟨ms, rest, hlen, hms, rfl⟩ |
            ⟨ms, l', hlen, hms, hl', hcut⟩
          · exact .inl hthrows
          · refine .inr (.inl ⟨.map ms, rest, .map (hlen ▸ hsize) hms, ?_⟩)
            rw [flatten, hlen, UInt32.ofNat_toNat, List.cons_append]
          · refine .inr (.inr ⟨.map ms, l', .map (hlen ▸ hsize) hms, hl', ?_⟩)
            rw [flatten, hlen, UInt32.ofNat_toNat, hcut, List.cons_append]
      | array data_size =>
        have hsize : data_size.toNat < UInt32.size := data_size.toNat_lt
        have hset := run_setAt D (.inr (.inr ⟨rfl, rfl⟩)) path j
        have hdump : dumpEntryDataList D strerror (fuel + 1) (.array data_size :: l) path =
            setAt D path .setArray >>= fun _ =>
              arrayLoop (dumpEntryDataList D strerror fuel) path data_size.toNat 0 l := rfl
        rw [hdump]
        rcases throws_or_after hset (fun _ => setType_error D) _ with hthrows | ⟨j', hafter⟩
        · exact .inl hthrows
        · rw [hafter]
          rcases arrayLoop_recognised ih path data_size.toNat 0 l hlist' j' with
              hthrows | ⟨vs, rest, hlen, hvs, rfl⟩ |
            ⟨vs, l', hlen, hvs, hl', hcut⟩
          · exact .inl hthrows
          · refine .inr (.inl ⟨.array vs, rest, .array (hlen ▸ hsize) hvs, ?_⟩)
            rw [flatten, hlen, UInt32.ofNat_toNat, List.cons_append]
          · refine .inr (.inr ⟨.array vs, l', .array (hlen ▸ hsize) hvs, hl', ?_⟩)
            rw [flatten, hlen, UInt32.ofNat_toNat, hcut, List.cons_append]

end

end DistroDefender.Geo
