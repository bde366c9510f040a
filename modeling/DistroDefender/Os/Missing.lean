import DistroDefender.Os.Calls

/-!
# The directories a path lacks

`create_directories` makes the directories that are missing on the way (`Fs.missing`), in the order
in which they are needed. The first one whose creation fails ends it, and so does a file in the way,
after the directories before it (`createDirectories_makes`). What was made is no longer missing
(`Fs.missing_withDirs`).
-/

namespace DistroDefender.Os

open Base Lib

namespace Fs

/-- The directories missing on the way from `loc`, in the order in which they are needed, up to a
file in the way. -/
def missing (fs : Fs) (loc : Loc) : List String → List Loc
  | [] => []
  | c :: cs =>
    if c = "." ∨ c = ".." then fs.missing (stepTo loc c) cs
    else
      match fs.node (stepTo loc c) with
      | some .dir => fs.missing (stepTo loc c) cs
      | some (.file _) => []
      | none =>
        if fs.node loc = some .dir then
          stepTo loc c :: (fs.set (stepTo loc c) .dir).missing (stepTo loc c) cs
        else []

/-- The directories missing on the way along a path. -/
def missingTo (fs : Fs) (p : Path) : List Loc := fs.missing (start fs.cwd p) (components (cstr p))

/-- With these directories made, in order. -/
def withDirs (fs : Fs) (ls : List Loc) : Fs := ls.foldl (fun fs l => fs.set l .dir) fs

@[simp] theorem withDirs_nil (fs : Fs) : fs.withDirs [] = fs := rfl

@[simp] theorem withDirs_cons (fs : Fs) (l : Loc) (ls : List Loc) :
    fs.withDirs (l :: ls) = (fs.set l .dir).withDirs ls := rfl

@[simp] theorem cwd_withDirs (fs : Fs) (ls : List Loc) : (fs.withDirs ls).cwd = fs.cwd := by
  induction ls generalizing fs with
  | nil => rfl
  | cons l ls ih => exact ih (fs.set l .dir)

theorem node_setDir (fs : Fs) (l x : Loc) :
    (fs.set l .dir).node x = if x = l then some .dir else fs.node x := by
  by_cases hl : l = []
  · subst hl
    by_cases hx : x = []
    · subst hx
      simp
    · unfold node Fs.set
      simp only [hx, if_false, Map.lookup_insert_eq]
  · exact node_set fs hl .dir x

theorem dir_withDirs {fs : Fs} {x : Loc} (h : fs.node x = some .dir) (ls : List Loc) :
    (fs.withDirs ls).node x = some .dir := by
  induction ls generalizing fs with
  | nil => exact h
  | cons l ls ih =>
    refine ih ?_
    rw [node_setDir]
    split
    · rfl
    · exact h

section Missing

variable {fs : Fs} {loc : Loc} {c : String} {cs : List String}

theorem missing_dot (h : c = "." ∨ c = "..") :
    fs.missing loc (c :: cs) = fs.missing (stepTo loc c) cs := by
  rw [missing, if_pos h]

theorem missing_dir (h : fs.node (stepTo loc c) = some .dir) :
    fs.missing loc (c :: cs) = fs.missing (stepTo loc c) cs := by
  rw [missing, h]
  split <;> rfl

theorem missing_none (hc : ¬ (c = "." ∨ c = "..")) (hnone : fs.node (stepTo loc c) = none)
    (hloc : fs.node loc = some .dir) :
    fs.missing loc (c :: cs) = stepTo loc c :: (fs.set (stepTo loc c) .dir).missing
      (stepTo loc c) cs := by
  rw [missing, if_neg hc, hnone]
  exact if_pos hloc

/-- At a file, or below what is no directory, the way ends. -/
theorem missing_blocked (hc : ¬ (c = "." ∨ c = "..")) (hdir : fs.node (stepTo loc c) ≠ some .dir)
    (h : (∃ text, fs.node (stepTo loc c) = some (.file text)) ∨ fs.node loc ≠ some .dir) :
    fs.missing loc (c :: cs) = [] := by
  rw [missing, if_neg hc]
  rcases hn : fs.node (stepTo loc c) with _ | _ | text
  · rcases h with ⟨text, htext⟩ | hloc
    · rw [hn] at htext
      cases htext
    · exact if_neg hloc
  · exact absurd hn hdir
  · rfl

/-- What has been made is no longer missing. -/
theorem missing_withDirs (fs : Fs) (loc : Loc) (cs : List String) (n : Nat) :
    (fs.withDirs ((fs.missing loc cs).take n)).missing loc cs = (fs.missing loc cs).drop n := by
  induction cs generalizing fs loc n with
  | nil => simp [missing]
  | cons c cs ih =>
    by_cases hc : c = "." ∨ c = ".."
    · rw [missing_dot hc, missing_dot hc, ih]
    by_cases hdir : fs.node (stepTo loc c) = some .dir
    · rw [missing_dir hdir, missing_dir (dir_withDirs hdir _), ih]
    by_cases hstop : (∃ text, fs.node (stepTo loc c) = some (.file text)) ∨ fs.node loc ≠ some .dir
    · have hnil : fs.missing loc (c :: cs) = [] := missing_blocked hc hdir hstop
      rw [hnil, List.take_nil, withDirs_nil, List.drop_nil, hnil]
    · rw [not_or, not_exists, not_not] at hstop
      have hnone : fs.node (stepTo loc c) = none := by
        rcases hn : fs.node (stepTo loc c) with _ | _ | text
        · rfl
        · exact absurd hn hdir
        · exact absurd hn (hstop.1 text)
      rw [missing_none hc hnone hstop.2]
      cases n with
      | zero =>
        rw [List.take_zero, withDirs_nil, List.drop_zero]
        exact missing_none hc hnone hstop.2
      | succ n =>
        rw [List.take_succ_cons, withDirs_cons, List.drop_succ_cons]
        have hmade : (fs.set (stepTo loc c) .dir).node (stepTo loc c) = some .dir := by
          rw [node_setDir, if_pos rfl]
        rw [missing_dir (dir_withDirs hmade _), ih]

end Missing

end Fs

/-! ## How far `create_directories` comes -/

/-- The codes for a path that leads nowhere. -/
def wayErrors : List ErrorCode :=
  [⟨20, "Not a directory"⟩, ⟨2, "No such file or directory"⟩, ⟨22, "Invalid argument"⟩]

/-- `create_directories` has made the first `n` of the `size` directories that were missing: the
creation of the next one failed, or nothing was left to make. -/
inductive Makes (mkdir : Nat → Option ErrorCode) (size : Nat) : Nat → Option ErrorCode → Prop
  | stopped {n : Nat} {ec : ErrorCode} (hn : n < size) (hec : mkdir n = some ec) :
      Makes mkdir size n (some ec)
  | ended {e : Option ErrorCode} (he : ∀ ec, e = some ec → ec ∈ wayErrors) : Makes mkdir size size e

theorem Makes.stopped_or_ended {mkdir : Nat → Option ErrorCode} {size n : Nat}
    {e : Option ErrorCode} (h : Makes mkdir size n e) : (n < size ∧ mkdir n ≠ none) ∨ n = size := by
  cases h with
  | stopped hn hec => exact .inl ⟨hn, by rw [hec]; exact Option.some_ne_none _⟩
  | ended _ => exact .inr rfl

theorem Makes.succ {mkdir : Nat → Option ErrorCode} {size n : Nat} {e : Option ErrorCode}
    (h : Makes (fun j => mkdir (j + 1)) size n e) : Makes mkdir (size + 1) (n + 1) e := by
  cases h with
  | stopped hn hec => exact .stopped (Nat.succ_lt_succ hn) hec
  | ended he => exact .ended he

/-- The loop, from the `k`-th missing directory on. -/
theorem mkdirs_makes (io : Io) (fs : Fs) (loc : Loc) (cs : List String) (k : Nat) :
    ∃ n e, (∀ j, j < n → io.mkdir (k + j) = none) ∧
    Makes (fun j => io.mkdir (k + j)) (fs.missing loc cs).length n e ∧
      (mkdirs io loc cs k).run fs = .ok e (fs.withDirs ((fs.missing loc cs).take n)) := by
  have hnothing : ∀ j, j < 0 → io.mkdir (k + j) = none := fun j hj => absurd hj (Nat.not_lt_zero j)
  induction cs generalizing fs loc k with
  | nil => exact ⟨0, none, hnothing, .ended (fun ec h => by cases h), rfl⟩
  | cons c cs ih =>
    by_cases hc : c = "." ∨ c = ".."
    · rw [Fs.missing_dot hc]
      simp only [mkdirs, if_pos hc]
      exact ih fs (stepTo loc c) k hnothing
    simp only [mkdirs, if_neg hc, EStateM.run_bind, EStateM.run_get]
    rcases hn : fs.node (stepTo loc c) with _ | _ | text
    · by_cases hloc : fs.node loc = some .dir
      · rw [Fs.missing_none hc hn hloc]
        simp only [hloc, ne_eq, not_true_eq_false, if_false]
        rcases hk : io.mkdir k with _ | ec
        · obtain ⟨n, e, hmade, hmakes, hrun⟩ :=
            ih (fs.set (stepTo loc c) .dir) (stepTo loc c) (k + 1)
            (fun j hj => absurd hj (Nat.not_lt_zero j))
          refine ⟨n + 1, e, fun j hj => ?_, .succ ?_, ?_⟩
          · cases j with
            | zero => exact hk
            | succ j =>
              rw [show k + (j + 1) = k + 1 + j by omega]
              exact hmade j (Nat.lt_of_succ_lt_succ hj)
          · rw [show (fun j => io.mkdir (k + (j + 1))) = fun j => io.mkdir (k + 1 + j) from
              funext fun j => by rw [Nat.add_assoc, Nat.add_comm 1 j]]
            exact hmakes
          · rw [List.take_succ_cons, Fs.withDirs_cons]
            exact hrun
        · exact ⟨0, some ec, hnothing, .stopped (Nat.succ_pos _) hk, rfl⟩
      · rw [Fs.missing_blocked hc (by rw [hn]; simp) (.inr hloc)]
        simp only [if_pos hloc]
        refine ⟨0, _, hnothing, .ended fun ec hec => ?_, rfl⟩
        cases hec
        decide
    · rw [Fs.missing_dir hn]
      exact ih fs (stepTo loc c) k hnothing
    · rw [Fs.missing_blocked hc (by rw [hn]; simp) (.inl ⟨text, hn⟩)]
      refine ⟨0, _, hnothing, .ended fun ec hec => ?_, rfl⟩
      cases hec
      decide

theorem createDirectories_makes (io : Io) (fs : Fs) (p : Path) :
    ∃ n e, (∀ j, j < n → io.mkdir j = none) ∧ Makes io.mkdir (fs.missingTo p).length n e ∧
      (createDirectories io p).run fs = .ok e (fs.withDirs ((fs.missingTo p).take n)) := by
  unfold createDirectories
  rw [EStateM.run_bind, EStateM.run_get]
  simp only
  by_cases hp : cstr p = ""
  · rw [if_pos hp]
    have hnil : fs.missingTo p = [] := by
      unfold Fs.missingTo
      rw [hp]
      rfl
    rw [hnil]
    refine ⟨0, some ⟨22, "Invalid argument"⟩, fun j hj => absurd hj (Nat.not_lt_zero j),
      .ended fun ec hec => ?_, rfl⟩
    cases hec
    decide
  · rw [if_neg hp]
    have h := mkdirs_makes io fs (start fs.cwd p) (components (cstr p)) 0
    simp only [Nat.zero_add] at h
    exact h

end DistroDefender.Os
