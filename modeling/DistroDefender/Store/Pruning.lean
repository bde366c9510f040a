import DistroDefender.Os.Parent
import DistroDefender.Store.FileDriver

/-!
# Pruning emptied directories

`removeEmptyParentDirs` goes up from a path and removes the directories that are empty. `Prunes`
says what it does turn by turn; every run of the loop is one and ends
(`removeEmptyParentDirs_prunes`), since the paths it comes to grow shorter. A deletion is
`remove_all` followed by it (`deleteDoc_cases`, `deleteCol_cases`).
-/

namespace DistroDefender.Store

open Base Lib Os

namespace FileDriver

variable {d : FileDriver} {io : Io}

/-- The loop ends at a path: whether without an error. -/
inductive Halts (d : FileDriver) (io : Io) (k : Nat) (current : Path) (fs : Fs) : Bool → Prop
  | root (hroot : samePath current d.path = true) : Halts d io k current fs true
  | busy {l : Loc} (hl : fs.locate current = some l) (hn : fs.node l ≠ none)
      (hbusy : ¬ fs.Vacant l) : Halts d io k current fs true
  | gone (hroot : samePath current d.path = false) (hst : fs.status current = none) :
      Halts d io k current fs false
  | stuck {l : Loc} (hroot : samePath current d.path = false) (hl : fs.locate current = some l)
      (hvac : fs.Vacant l) (herr : rmdirError current ≠ none ∨ io.rmdir k ≠ none) :
      Halts d io k current fs false

/-- The turn that removes the directory at `l`. -/
structure Removes (d : FileDriver) (io : Io) (k : Nat) (current : Path) (fs : Fs) (l : Loc) :
    Prop where
  root : samePath current d.path = false
  located : fs.locate current = some l
  vacant : fs.Vacant l
  named : rmdirError current = none
  calm : io.rmdir k = none

/-- The loop from its `k`-th turn: whether it ends without an error, and the files after it. -/
inductive Prunes (d : FileDriver) (io : Io) : Nat → Path → Fs → Bool → Fs → Prop
  | halt {k : Nat} {current : Path} {fs : Fs} {clean : Bool} (h : Halts d io k current fs clean) :
      Prunes d io k current fs clean fs
  | turn {k : Nat} {current : Path} {fs fs' : Fs} {l : Loc} {clean : Bool}
      (h : Removes d io k current fs l)
      (hrest : Prunes d io (k + 1) (parentPath current) (fs.without [l]) clean fs') :
      Prunes d io k current fs clean fs'

/-- The rule for the loop: what every turn keeps holds where it ends. -/
theorem Prunes.keeps {I : Nat → Path → Fs → Prop}
    (step : ∀ k current fs l, I k current fs → Removes d io k current fs l →
      I (k + 1) (parentPath current) (fs.without [l]))
    {k : Nat} {current : Path} {fs fs' : Fs} {clean : Bool} (h : Prunes d io k current fs clean fs')
    (hI : I k current fs) : ∃ k' current', I k' current' fs' ∧
    Halts d io k' current' fs' clean := by
  induction h with
  | halt h => exact ⟨_, _, hI, h⟩
  | turn h _ ih => exact ih (step _ _ _ _ hI h)

/-- A run of the loop, with fuel for the length of the path, prunes and ends. -/
theorem removeEmptyLoop_prunes (path : Path) (name : Name) {fuel : Nat} {current : Path}
    (hfuel : current.length < fuel) (k : Nat) (fs : Fs) :
    let r := (removeEmptyLoop d io path name fuel k current).run fs
    Prunes d io k current fs (succeeded r) (resultState r) ∧ ∀ s, r ≠ .error .outOfFuel s := by
  induction fuel generalizing k current fs with
  | zero => omega
  | succ fuel ih =>
    unfold removeEmptyLoop
    cases hroot : samePath current d.path with
    | true => exact ⟨.halt (.root hroot), by simp⟩
    | false =>
      simp only [Bool.false_eq_true, if_false]
      rw [EStateM.run_bind]
      rcases Fs.isEmpty_cases fs current with ⟨hst, what, hrun⟩ |
          ⟨l, hl, hn, ⟨hvac, hrun⟩ | ⟨hbusy, hrun⟩⟩
      · rw [hrun]
        exact ⟨.halt (.gone hroot hst), by simp⟩
      · rw [hrun]
        simp only [if_true]
        rw [EStateM.run_bind]
        rcases Fs.removeDir_cases hl io k with ⟨herr, ec, hdir⟩ | ⟨hname, hio, hdir⟩
        · rw [hdir]
          exact ⟨.halt (.stuck hroot hl hvac herr), by simp⟩
        · rw [hdir]
          have hshort : (parentPath current).length < fuel := by
            have hlen := length_parentPath hname
            omega
          have hrest := ih hshort (k + 1) (fs.without [l])
          exact ⟨.turn ⟨hroot, hl, hvac, hname, hio⟩ hrest.1, hrest.2⟩
      · rw [hrun]
        exact ⟨.halt (.busy hl hn hbusy), by simp⟩

/-- `removeEmptyParentDirs` prunes from the parent of the path, and ends. -/
theorem removeEmptyParentDirs_prunes (d : FileDriver) (io : Io) (path : Path) (name : Name)
    (fs : Fs) : let r := (removeEmptyParentDirs d io path name).run fs
    Prunes d io 0 (parentPath path) fs (succeeded r) (resultState r) ∧
      ∀ s, r ≠ .error .outOfFuel s := by
  refine removeEmptyLoop_prunes path name ?_ 0 fs
  have hlen := (parentPath_above path).length_le
  rw [String.length_toList, String.length_toList] at hlen
  omega

/-! ## Deletions -/

/-- What a deletion of what is at `l` does: `remove_all`, and the pruning. -/
structure Deletes (d : FileDriver) (io : Io) (path : Path) (l : Loc) (fs : Fs)
    (r : EStateM.Result Throw Fs OptError) : Prop where
  located : fs.locate path = some l
  prunes : Prunes d io 0 (parentPath path) (fs.without (fs.takenAt io path l)) (succeeded r)
    (resultState r)
  ends : ∀ s, r ≠ .error .outOfFuel s

theorem existsDoc_iff {name : Name} {fs : Fs} : d.existsDoc name fs = true ↔
    ∃ text, fs.status (d.nameToPath name) = some (.file text) := by
  unfold existsDoc Fs.pathExists Fs.isRegularFile
  rcases hst : fs.status (d.nameToPath name) with _ | _ | text <;> simp [hst]

theorem existsCol_iff {name : Name} {fs : Fs} : d.existsCol name fs = true ↔
    fs.status (d.nameToPath name) = some .dir := by
  unfold existsCol Fs.pathExists Fs.isDirectory
  rcases hst : fs.status (d.nameToPath name) with _ | _ | text <;> simp [hst]

/-- `remove_all` of what is there answers more than zero. -/
theorem removeAll_located {path : Path} {l : Loc} {fs : Fs} (io : Io) (hl : fs.locate path = some l)
    (hn : fs.node l ≠ none) : ∃ n ec, n ≠ 0 ∧
      (removeAll io path).run fs = .ok (n, ec) (fs.without (fs.takenAt io path l)) := by
  rcases Fs.removeAll_cases io fs path with ⟨hnone, -⟩ | ⟨l', n, ec, hl', hzero, hrun⟩
  · cases hl.symm.trans hnone
  · cases hl.symm.trans hl'
    exact ⟨n, ec, fun h => hn (hzero h), hrun⟩

theorem deleteDoc_cases (d : FileDriver) (io : Io) (name : Name) (fs : Fs) :
    (d.existsDoc name fs = false ∧ ∃ e, (deleteDoc d io name).run fs = .ok (some e) fs) ∨
    ∃ l text, fs.node l = some (.file text) ∧
      Deletes d io (d.nameToPath name) l fs ((deleteDoc d io name).run fs) := by
  unfold deleteDoc
  rw [EStateM.run_bind, EStateM.run_get]
  simp only
  cases hex : d.existsDoc name fs with
  | false => exact .inl ⟨rfl, _, rfl⟩
  | true =>
    obtain ⟨text, hst⟩ := existsDoc_iff.mp hex
    obtain ⟨l, hl, -, hn⟩ := Fs.status_eq_file hst
    obtain ⟨n, ec, hzero, hrun⟩ := removeAll_located io hl (by rw [hn]; exact Option.some_ne_none _)
    refine .inr ⟨l, text, hn, ?_⟩
    simp only [Bool.not_true, Bool.false_eq_true, if_false]
    rw [EStateM.run_bind, hrun]
    simp only [if_neg hzero]
    have h := removeEmptyParentDirs_prunes d io (d.nameToPath name) name
      (fs.without (fs.takenAt io (d.nameToPath name) l))
    exact ⟨hl, h.1, h.2⟩

theorem deleteCol_cases (d : FileDriver) (io : Io) (name : Name) (fs : Fs) :
    (d.existsCol name fs = false ∧ ∃ e, (deleteCol d io name).run fs = .ok (some e) fs) ∨
    ∃ l, fs.node l = some .dir ∧
      Deletes d io (d.nameToPath name) l fs ((deleteCol d io name).run fs) := by
  unfold deleteCol existsCol
  rw [EStateM.run_bind, EStateM.run_get]
  simp only
  rcases Fs.status_cases fs (d.nameToPath name) with ⟨-, hex, hdir⟩ | ⟨hst, hex, hdir⟩ |
      ⟨text, -, hex, hdir⟩
  · exact .inl ⟨by rw [hex]; rfl, _, by rw [hex]; rfl⟩
  · obtain ⟨l, hl, hn⟩ := Option.bind_eq_some_iff.mp hst
    obtain ⟨n, ec, hzero, hrun⟩ := removeAll_located io hl (by rw [hn]; exact Option.some_ne_none _)
    refine .inr ⟨l, hn, ?_⟩
    simp only [hex, Bool.not_true, Bool.false_eq_true, if_false]
    rw [EStateM.run_bind, EStateM.run_get]
    simp only [hdir, Bool.not_true, Bool.false_eq_true, if_false]
    rw [EStateM.run_bind, hrun]
    simp only [if_neg hzero]
    have h := removeEmptyParentDirs_prunes d io (d.nameToPath name) name
      (fs.without (fs.takenAt io (d.nameToPath name) l))
    exact ⟨hl, h.1, h.2⟩
  · refine .inl ⟨by rw [hex, hdir]; rfl, ⟨s!"File '{d.nameToPath name}' is not a directory"⟩, ?_⟩
    simp only [hex, Bool.not_true, Bool.false_eq_true, if_false]
    rw [EStateM.run_bind, EStateM.run_get]
    simp only [hdir]
    rfl

end FileDriver

end DistroDefender.Store
