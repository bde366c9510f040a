import Mathlib.Data.List.Basic
import Mathlib.Data.List.Nodup

/-!
# Windows of a list

`window l a b` is what stands at the positions from `a` up to, not including, `b`. Windows of a list
without repetitions that start apart are equal only when both are empty, and consecutive windows of
one length make up the list.
-/

namespace DistroDefender.Lib

variable {α : Type}

def window (l : List α) (a b : Nat) : List α := (l.take b).drop a

theorem window_eq_nil_iff {l : List α} {a b : Nat} : window l a b = [] ↔ b ≤ a ∨ l.length ≤ a := by
  unfold window
  rw [List.drop_eq_nil_iff, List.length_take]
  omega

theorem mem_of_mem_window {l : List α} {a b : Nat} {x : α} (h : x ∈ window l a b) : x ∈ l :=
  List.mem_of_mem_take (List.mem_of_mem_drop h)

theorem head?_window {l : List α} {a b : Nat} (h : a < b) : (window l a b).head? = l[a]? := by
  unfold window
  rw [List.head?_drop, List.getElem?_take_of_lt h]

/-- Windows that start apart share no first element. -/
theorem window_eq_iff {l : List α} (hl : l.Nodup) {a b a' b' : Nat} (ha : a ≠ a') :
    window l a b = window l a' b' ↔ window l a b = [] ∧ window l a' b' = [] := by
  constructor
  · intro h
    by_contra hne
    have hsome : window l a b ≠ [] := fun hnil => hne ⟨hnil, h ▸ hnil⟩
    have hsome' : window l a' b' ≠ [] := h ▸ hsome
    rw [ne_eq, window_eq_nil_iff] at hsome hsome'
    have hheads := congrArg List.head? h
    rw [head?_window (by omega), head?_window (by omega)] at hheads
    exact ha ((List.getElem?_inj (by omega) hl).mp hheads)
  · intro h
    rw [h.1, h.2]

/-- Pages of `r` entries, one after another. -/
theorem flatMap_window (l : List α) (r k : Nat) :
    (List.range k).flatMap (fun p => window l (p * r) ((p + 1) * r)) = l.take (k * r) := by
  induction k with
  | zero => simp
  | succ k ih =>
    rw [List.range_succ, List.flatMap_append, ih, List.flatMap_singleton]
    unfold window
    have hle : k * r ≤ (k + 1) * r := Nat.mul_le_mul_right r (Nat.le_succ k)
    calc l.take (k * r) ++ (l.take ((k + 1) * r)).drop (k * r)
        = (l.take ((k + 1) * r)).take (k * r) ++ (l.take ((k + 1) * r)).drop (k * r) := by
          rw [List.take_take, Nat.min_eq_left hle]
      _ = l.take ((k + 1) * r) := List.take_append_drop _ _

/-! ## Windows found by a loop -/

/-- A loop over a list that counts the elements meeting `p` from `i` on, keeps those counted from
`a` on, and stops when the count reaches `b`. -/
def scan (p : α → Bool) (a b : Nat) : Nat → List α → List α
  | _, [] => []
  | i, x :: xs =>
    if i < b then
      if p x then if a ≤ i then x :: scan p a b (i + 1) xs else scan p a b (i + 1) xs
      else scan p a b i xs
    else []

theorem scan_eq (p : α → Bool) (a b i : Nat) (l : List α) :
    scan p a b i l = window (l.filter p) (a - i) (b - i) := by
  induction l generalizing i with
  | nil => simp [scan, window]
  | cons x xs ih =>
    simp only [scan]
    split
    · rename_i hi
      cases hx : p x with
      | false => simp only [Bool.false_eq_true, if_false, ih, List.filter_cons, hx]
      | true =>
        have hb : b - i = (b - (i + 1)) + 1 := by omega
        simp only [if_true, ih, List.filter_cons, hx]
        unfold window
        rw [hb, List.take_succ_cons]
        split
        · rename_i ha
          rw [Nat.sub_eq_zero_of_le ha, Nat.sub_eq_zero_of_le (Nat.le_succ_of_le ha)]
          rfl
        · rename_i ha
          have hpos : a - i = (a - (i + 1)) + 1 := by omega
          rw [hpos, List.drop_succ_cons]
    · rename_i hi
      rw [window, Nat.sub_eq_zero_of_le (Nat.not_lt.mp hi), List.take_zero, List.drop_nil]

/-- The loop from the start finds the window. -/
theorem scan_zero (p : α → Bool) (a b : Nat) (l : List α) :
    scan p a b 0 l = window (l.filter p) a b :=
  scan_eq p a b 0 l

end DistroDefender.Lib
