import DistroDefender.Lib.Transition
import Mathlib.Logic.Function.Basic

/-!
# Maps whose keys have owners

An owned map gives some keys a value and exactly one owner. Keys are ordered by a relation
`below`, along which the values of one owner can be dropped together. Five operations change it;
each is a guarded update (`Op.Enabled`, `Op.effect`), and an operation that is refused changes
nothing. `system` runs requests, of which some concern the map.
-/

namespace DistroDefender.Lib

/-- A partial map whose keys each have one owner. -/
abbrev OwnedMap (κ ο ν : Type) := κ → Option (ο × ν)

namespace OwnedMap

variable {κ ο ν : Type}

def empty : OwnedMap κ ο ν := fun _ => none

/-- The owner of a key. -/
def owner (m : OwnedMap κ ο ν) (k : κ) : Option ο := (m k).map Prod.fst

theorem owner_eq_none {m : OwnedMap κ ο ν} {k : κ} : m.owner k = none ↔ m k = none :=
  Option.map_eq_none_iff

theorem owner_eq_some {m : OwnedMap κ ο ν} {k : κ} {o : ο} :
    m.owner k = some o ↔ ∃ v, m k = some (o, v) := by
  unfold owner
  rw [Option.map_eq_some_iff]
  constructor
  · rintro ⟨⟨o', v⟩, h, rfl⟩
    exact ⟨v, h⟩
  · rintro ⟨v, h⟩
    exact ⟨(o, v), h, rfl⟩

/-- The operations. -/
inductive Op (κ ο ν : Type) where
  | create (k : κ) (o : ο) (v : ν)
  | update (k : κ) (v : ν)
  | upsert (k : κ) (o : ο) (v : ν)
  | delete (k : κ)
  | deleteBelow (k : κ) (o : ο)

/-- When an operation may succeed. -/
def Op.Enabled (below : κ → κ → Prop) (m : OwnedMap κ ο ν) : Op κ ο ν → Prop
  | .create k _ _ => m k = none
  | .update k _ => m k ≠ none
  | .upsert k o _ => m k = none ∨ m.owner k = some o
  | .delete k => m k ≠ none
  | .deleteBelow k o => ∃ k', below k k' ∧ m.owner k' = some o

variable [DecidableEq κ] [DecidableEq ο] (below : κ → κ → Prop) [DecidableRel below]

/-- What a successful operation makes of the map. -/
def Op.effect (m : OwnedMap κ ο ν) : Op κ ο ν → OwnedMap κ ο ν
  | .create k o v | .upsert k o v => Function.update m k (some (o, v))
  | .update k v => Function.update m k ((m k).map fun p => (p.1, v))
  | .delete k => Function.update m k none
  | .deleteBelow k o => fun k' => if m.owner k' = some o ∧ below k k' then none else m k'

@[simp] theorem effect_deleteBelow (m : OwnedMap κ ο ν) (k k' : κ) (o : ο) :
    (Op.deleteBelow k o).effect below m k' =
      if m.owner k' = some o ∧ below k k' then none else m k' := rfl

theorem owner_deleteBelow (m : OwnedMap κ ο ν) (k k' : κ) (o : ο) :
    owner ((Op.deleteBelow k o).effect below m) k' =
      if m.owner k' = some o ∧ below k k' then none else m.owner k' := by
  show ((Op.deleteBelow k o).effect below m k').map Prod.fst = _
  rw [effect_deleteBelow, apply_ite (Option.map Prod.fst)]
  rfl

omit [DecidableEq ο] in
theorem owner_update (m : OwnedMap κ ο ν) (k k' : κ) (p : Option (ο × ν)) :
    owner (Function.update m k p) k' = if k' = k then p.map Prod.fst else m.owner k' := by
  unfold owner
  rw [Function.update_apply]
  split <;> rfl

/-- Requests over an owned map. `op` says what a request asks of the map, if anything; a request
that fails changes nothing. -/
def system {R : Type} (op : R → Option (Op κ ο ν)) : System (OwnedMap κ ο ν) (R × Bool) where
  init m := m = empty
  step m l m' :=
    match l.2, op l.1 with
    | true, some a => a.Enabled below m ∧ m' = a.effect below m
    | true, none | false, _ => m' = m

/-- The keys an operation is about. -/
def Op.Touches (m : OwnedMap κ ο ν) : Op κ ο ν → κ → Prop
  | .create k _ _, k' | .update k _, k' | .upsert k _ _, k' | .delete k, k' => k' = k
  | .deleteBelow k o, k' => m.owner k' = some o ∧ below k k'

/-- An operation changes only what it is about. -/
theorem effect_frame {m : OwnedMap κ ο ν} {a : Op κ ο ν} {k : κ} (h : ¬ a.Touches below m k) :
    a.effect below m k = m k := by
  cases a with
  | create k' o v => exact Function.update_of_ne h _ _
  | update k' v => exact Function.update_of_ne h _ _
  | upsert k' o v => exact Function.update_of_ne h _ _
  | delete k' => exact Function.update_of_ne h _ _
  | deleteBelow k' o => exact if_neg h

omit [DecidableEq κ] [DecidableEq ο] in
/-- The key and the owner an operation brings in. -/
def Op.Gives : Op κ ο ν → κ → ο → Prop
  | .create k o _, k', o' | .upsert k o _, k', o' => k' = k ∧ o' = o
  | .update .., _, _ | .delete _, _, _ | .deleteBelow .., _, _ => False

/-- A key has the owner it had, or the one an operation gave it. -/
theorem owner_effect {m : OwnedMap κ ο ν} {a : Op κ ο ν} {k : κ} {o : ο}
    (h : owner (a.effect below m) k = some o) : m.owner k = some o ∨ a.Gives k o := by
  cases a with
  | create k' o' v | upsert k' o' v =>
    simp only [Op.effect, owner_update] at h
    split at h
    · rename_i hk
      exact .inr ⟨hk, (Option.some.inj h).symm⟩
    · exact .inl h
  | update k' v =>
    simp only [Op.effect, owner_update] at h
    split at h
    · rename_i hk
      rw [Option.map_map] at h
      exact .inl (hk ▸ h)
    · exact .inl h
  | delete k' =>
    simp only [Op.effect, owner_update] at h
    split at h
    · cases h
    · exact .inl h
  | deleteBelow k' o' =>
    rw [owner_deleteBelow] at h
    split at h
    · cases h
    · exact .inl h

end OwnedMap

end DistroDefender.Lib
