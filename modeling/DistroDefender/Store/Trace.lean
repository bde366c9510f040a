import DistroDefender.Os.Missing
import DistroDefender.Store.Collections

/-!
# The trace of a failed `createDoc`

`createDoc` makes the directories on the way before it opens the file, and nothing removes them when
the creation of a later one, or the opening, fails. The call leaves no trace exactly when no
directory was made before the failure (`createDoc_traceless_iff`).
-/

namespace DistroDefender.Store

open Base Lib Os

namespace FileDriver

/-- What a call answers. -/
def answer {ε τ α : Type} : EStateM.Result ε τ α → Except ε α
  | .ok a _ => .ok a
  | .error e _ => .error e

/-- Between the two states nothing was left: below the root everything is the same, and every call
on the name or a beginning of it answers the same, however its own system calls go. -/
structure NoTrace (d : FileDriver) (name : Name) (fs fs' : Fs) : Prop where
  below : ∀ l, d.rootLocation fs.cwd <+: l → fs'.node l = fs.node l
  createDoc : ∀ io (n : Name) content, n.parts <+: name.parts →
    answer ((d.createDoc io n content).run fs') = answer ((d.createDoc io n content).run fs)
  existsCol : ∀ n : Name, n.parts <+: name.parts → d.existsCol n fs' = d.existsCol n fs
  readCol : ∀ n : Name, n.parts <+: name.parts → d.readCol n fs' = d.readCol n fs

theorem NoTrace.refl (d : FileDriver) (name : Name) (fs : Fs) : NoTrace d name fs fs :=
  ⟨fun _ _ => rfl, fun _ _ _ _ => rfl, fun _ _ => rfl, fun _ _ => rfl⟩

/-- The directories missing on the way to a document. -/
def missingFor (d : FileDriver) (name : Name) (fs : Fs) : List Loc :=
  fs.missingTo (parentPath (d.nameToPath name))

/-- Those that have been made are no longer missing. -/
theorem missingFor_withDirs (d : FileDriver) (name : Name) (fs : Fs) (n : Nat) :
    d.missingFor name (fs.withDirs ((d.missingFor name fs).take n)) =
      (d.missingFor name fs).drop n := by
  unfold missingFor Fs.missingTo
  rw [Fs.cwd_withDirs, Fs.missing_withDirs]

/-! ## What `createDoc` answers -/

section Run

variable {d : FileDriver} {io : Io} {name : Name} {content : Doc} {fs : Fs}

/-- The answer when the creation of a directory fails. -/
def directoryError (path : Path) (ec : ErrorCode) : Error :=
  ⟨s!"Directory '{parentPath path}' could not be created: {codeStr ec}"⟩

/-- What follows `create_directories`. -/
def afterDirectories (d : FileDriver) (io : Io) (path : Path) (content : Doc) (fs : Fs) :
    Option ErrorCode → EStateM.Result Throw Fs OptError
  | some ec => .ok (some (directoryError path ec)) fs
  | none => (writeFile d io path content).run fs

theorem run_createDoc (hkeys : content.checkDuplicateKeys = none)
    (hno : fs.pathExists (d.nameToPath name) = false) {e : Option ErrorCode} {fs₁ : Fs}
    (hrun : (createDirectories io (parentPath (d.nameToPath name))).run fs = .ok e fs₁) :
    (createDoc d io name content).run fs = afterDirectories d io
    (d.nameToPath name) content fs₁ e := by
  unfold createDoc
  simp only [hkeys]
  rw [EStateM.run_bind, EStateM.run_get]
  simp only [hno, Bool.false_eq_true, if_false]
  rw [EStateM.run_bind, hrun]
  cases e <;> rfl

/-- A call that fails refused before it did anything, or has made the first `n` of the missing
directories. -/
theorem createDoc_failed {e : Error} {fs' : Fs}
    (h : (createDoc d io name content).run fs = .ok (some e) fs') :
    ((content.checkDuplicateKeys ≠ none ∨ fs.pathExists (d.nameToPath name) = true) ∧ fs' = fs) ∨
    (content.checkDuplicateKeys = none ∧ fs.pathExists (d.nameToPath name) = false ∧ ∃ n ec,
      (∀ j, j < n → io.mkdir j = none) ∧
      Makes io.mkdir (d.missingFor name fs).length n ec ∧
      fs' = fs.withDirs ((d.missingFor name fs).take n)) := by
  rcases createDoc_cases d io name content fs with ⟨hwhy, e', hrun⟩ | ⟨hkeys, hno, -⟩
  · rw [h] at hrun
    cases hrun
    exact .inl ⟨hwhy, rfl⟩
  · obtain ⟨n, ec, hmade, hmakes, hrun⟩ :=
      createDirectories_makes io fs (parentPath (d.nameToPath name))
    refine .inr ⟨hkeys, hno, n, ec, hmade, hmakes, ?_⟩
    rw [run_createDoc hkeys hno hrun] at h
    cases ec with
    | some ec =>
      cases h
      rfl
    | none =>
      rcases writeFile_cases d io (d.nameToPath name) content _ with
          ⟨⟨e', hwrite⟩, -⟩ | ⟨l, -, -, -, hwrite⟩
      · exact (EStateM.Result.ok.inj (h.symm.trans hwrite)).2
      · cases h.symm.trans hwrite

theorem run_createDoc_exists (hkeys : content.checkDuplicateKeys = none)
    (hex : fs.pathExists (d.nameToPath name) = true) :
    (createDoc d io name content).run fs =
      .ok (some ⟨s!"File '{d.nameToPath name}' already exists"⟩) fs := by
  unfold createDoc
  simp only [hkeys]
  rw [EStateM.run_bind, EStateM.run_get]
  simp only [hex, if_true]
  rfl

end Run

/-! ## What a later call sees -/

/-- No text about a file is one about a directory. -/
theorem file_ne_directory (text : String) (path : Path) (ec : ErrorCode) :
    (⟨"File '" ++ text⟩ : Error) ≠ directoryError path ec := by
  intro h
  have hchars := congrArg (fun e => e.message.toList.head?) h
  unfold directoryError at hchars
  simp only [String.toList_append, List.append_assoc] at hchars
  cases hchars

/-- The texts about two codes differ where the codes do. -/
theorem directoryError_ne {path : Path} {ec ec' : ErrorCode} (h : codeStr ec ≠ codeStr ec') :
    directoryError path ec ≠ directoryError path ec' := by
  intro heq
  have hchars := congrArg (fun e => e.message.toList) heq
  unfold directoryError at hchars
  simp only [String.toList_append] at hchars
  exact h (String.toList_injective (List.append_cancel_left hchars))

def ioError : ErrorCode := ⟨5, "Input/output error"⟩

/-- A failure of the creation of the `k`-th missing directory. -/
def failingAt (k : Nat) : Io :=
  { Io.calm with mkdir := fun j => if j = k then some ioError else none }

section Later

variable {d : FileDriver} {name : Name} {content : Doc} {fs : Fs} {k : Nat}

theorem failingAt_eq_some {j : Nat} {ec : ErrorCode} (h : (failingAt k).mkdir j = some ec) :
    j = k ∧ ec = ioError := by
  unfold failingAt at h
  simp only at h
  split at h
  · rename_i hj
    cases h
    exact ⟨hj, rfl⟩
  · cases h

/-- Where more than `k` directories are missing, the call fails at the `k`-th. -/
theorem answer_of_missing (hkeys : content.checkDuplicateKeys = none)
    (hno : fs.pathExists (d.nameToPath name) = false)
    (hk : k < (d.missingFor name fs).length) :
    answer ((createDoc d (failingAt k) name content).run fs) =
      .ok (some (directoryError (d.nameToPath name) ioError)) := by
  obtain ⟨n, e, hmade, hmakes, hrun⟩ :=
    createDirectories_makes (failingAt k) fs (parentPath (d.nameToPath name))
  rw [run_createDoc hkeys hno hrun]
  cases hmakes with
  | stopped hn hec =>
    obtain ⟨rfl, rfl⟩ := failingAt_eq_some hec
    rfl
  | ended he =>
    have hfail := hmade k hk
    unfold failingAt at hfail
    simp at hfail

theorem writeFile_answer (d : FileDriver) (io : Io) (path : Path) (content : Doc) (fs : Fs) :
    answer ((writeFile d io path content).run fs) = .ok none ∨
      ∃ text, answer ((writeFile d io path content).run fs) = .ok (some ⟨"File '" ++ text⟩) := by
  unfold writeFile
  rw [EStateM.run_bind]
  rcases openWrite_cases io fs path with ⟨hrun, -⟩ | ⟨l, -, -, -, hrun⟩
  · rw [hrun]
    refine .inr ⟨path ++ "' could not be opened on writing mode", ?_⟩
    rw [← String.append_assoc]
    rfl
  · rw [hrun]
    exact .inl rfl

/-- Where no more than `k` are missing, it does not. -/
theorem answer_of_made (hkeys : content.checkDuplicateKeys = none)
    (hk : (d.missingFor name fs).length = k) :
    answer ((createDoc d (failingAt k) name content).run fs) ≠
      .ok (some (directoryError (d.nameToPath name) ioError)) := by
  cases hex : fs.pathExists (d.nameToPath name) with
  | true =>
    rw [run_createDoc_exists hkeys hex]
    intro heq
    have htext := Option.some.inj (Except.ok.inj heq)
    refine file_ne_directory (d.nameToPath name ++ "' already exists") _ _ (Eq.trans ?_ htext)
    rw [← String.append_assoc]
    rfl
  | false =>
    obtain ⟨n, e, hmade, hmakes, hrun⟩ :=
      createDirectories_makes (failingAt k) fs (parentPath (d.nameToPath name))
    rw [run_createDoc hkeys hex hrun]
    cases hmakes with
    | stopped hn hec =>
      obtain ⟨rfl, -⟩ := failingAt_eq_some hec
      exact absurd (hk ▸ hn) (Nat.lt_irrefl _)
    | ended he =>
      cases e with
      | some ec =>
        intro heq
        have hways : ∀ ec ∈ wayErrors, codeStr ec ≠ codeStr ioError := by decide +kernel
        exact directoryError_ne (hways ec (he ec rfl)) (Option.some.inj (Except.ok.inj heq))
      | none =>
        intro heq
        unfold afterDirectories at heq
        rcases writeFile_answer d (failingAt k) (d.nameToPath name) content _ with
            hdone | ⟨text, hfailed⟩
        · cases hdone.symm.trans heq
        · exact file_ne_directory text _ _ (Option.some.inj
            (Except.ok.inj (hfailed.symm.trans heq)))

/-- A directory made on the way to a name shows in a later call. -/
theorem trace_of_made {n : Nat} (hno : fs.pathExists (d.nameToPath name) = false)
    (hn : n ≠ 0) (hle : n ≤ (d.missingFor name fs).length) :
    ¬ NoTrace d name fs (fs.withDirs ((d.missingFor name fs).take n)) := by
  intro h
  have hkeys : Json.null.checkDuplicateKeys = none := by decide
  -- the later call fails at the directory that is the first too many
  have hlater := h.createDoc (failingAt ((d.missingFor name fs).length - n)) name .null
    List.prefix_rfl
  rw [answer_of_missing hkeys hno (by omega)] at hlater
  refine answer_of_made hkeys ?_ hlater
  rw [missingFor_withDirs, List.length_drop]

end Later

/-- A call that fails leaves no trace exactly when it refuses the content or the path, when no
directory is missing on the way, or when the creation of the first missing one fails. -/
theorem createDoc_traceless_iff (d : FileDriver) (io : Io) (name : Name) (content : Doc)
    (fs fs' : Fs) (e : Error) (h : (createDoc d io name content).run fs = .ok (some e) fs') :
    NoTrace d name fs fs' ↔
      content.checkDuplicateKeys ≠ none ∨ fs.pathExists (d.nameToPath name) = true ∨
        d.missingFor name fs = [] ∨ io.mkdir 0 ≠ none := by
  rcases createDoc_failed h with ⟨hrefused, rfl⟩ | ⟨hkeys, hno, n, ec, hmade, hmakes, rfl⟩
  · exact iff_of_true (.refl d name fs') (or_assoc.mp (.inl hrefused))
  constructor
  · intro htrace
    by_contra hcond
    simp only [not_or, not_not] at hcond
    obtain ⟨-, -, hmissing, hfirst⟩ := hcond
    rcases hmakes.stopped_or_ended with ⟨hn, hec⟩ | hn
    · refine trace_of_made hno (fun hzero => ?_) (Nat.le_of_lt hn) htrace
      rw [hzero] at hec
      exact hec hfirst
    · refine trace_of_made hno (fun hzero => ?_) (Nat.le_of_eq hn) htrace
      exact hmissing (List.length_eq_zero_iff.mp (hn.symm.trans hzero))
  · rintro (hdup | hex | hmissing | hfirst)
    · exact absurd hkeys hdup
    · rw [hno] at hex
      cases hex
    · rw [hmissing, List.take_nil]
      exact .refl d name fs
    · have hzero : n = 0 := by
        by_contra hn
        exact hfirst (hmade 0 (Nat.pos_of_ne_zero hn))
      rw [hzero]
      exact .refl d name fs

section Sample

/-- The creation of the first directory fails. -/
theorem createDoc_traceless_first :
    NoTrace (rootedDriver "/store") nestedName emptyRoot emptyRoot := by
  refine (createDoc_traceless_iff (rootedDriver "/store")
    (failingAt 0) nestedName .null emptyRoot emptyRoot
    (directoryError "/store/a/b" ioError) rfl).mpr ?_
  exact .inr (.inr (.inr (by decide)))

/-- The file cannot be opened. -/
def unopened : Io := { Io.calm with openFile := false }

/-- A call that creates `a/b` and does not open it. -/
def unopenedCall : EStateM.Result Throw Fs OptError :=
  (createDoc (rootedDriver "/store") unopened nestedName .null).run emptyRoot

/-- The directory of the document stays, a collection of nothing. -/
theorem createDoc_leaves_directory : (∃ e fs', unopenedCall = .ok (some e) fs') ∧
    ∀ e fs', unopenedCall = .ok (some e) fs' →
    ¬ NoTrace (rootedDriver "/store") nestedName emptyRoot fs' := by
  have hanswer : answer unopenedCall =
      .ok (some ⟨s!"File '/store/a/b' could not be opened on writing mode"⟩) := by decide +kernel
  have hcol : (rootedDriver "/store").existsCol onlyName emptyRoot = false ∧
      (rootedDriver "/store").existsCol onlyName (resultState unopenedCall) = true := by
        decide +kernel
  refine ⟨?_, fun e fs' hrun h => ?_⟩
  · cases hrun : unopenedCall with
    | ok a fs' =>
      rw [hrun] at hanswer
      exact ⟨_, fs', congrArg (fun a => EStateM.Result.ok a fs') (Except.ok.inj hanswer)⟩
    | error e fs' =>
      rw [hrun] at hanswer
      cases hanswer
  · have hsame := h.existsCol onlyName (by decide)
    rw [hrun] at hcol
    rw [hcol.1] at hsame
    cases hsame.symm.trans hcol.2

end Sample

end FileDriver

end DistroDefender.Store
