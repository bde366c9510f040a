import DistroDefender.Os.Calls
import DistroDefender.Store.Driver

/-!
# The file driver

`FileDriver` keeps a document in the file its name denotes below a root path: every part of the name
is appended to the path as it is (`nameToPath`). The text of a file is the document as rapidjson
prints it. Each operation takes an `Io` for its system calls.
-/

namespace DistroDefender.Store

open Base Lib Os

/-- `drivers::FileDriver`: the root path, and rapidjson. -/
structure FileDriver where
  path : Path
  rapidjson : Rapidjson

namespace FileDriver

variable (d : FileDriver) (io : Io)

def nameToPath (name : Name) : Path := name.parts.foldl append d.path

/-- `fmt::format` of an error code. -/
def codeStr (ec : ErrorCode) : String := s!"({ec.value}) {ec.message}"

/-- The end of `createDoc` and `updateDoc`: the file is opened and written. -/
def writeFile (path : Path) (content : Doc) : Call Fs OptError := do
  match ← openWrite io path with
  | none => return some ⟨s!"File '{path}' could not be opened on writing mode"⟩
  | some loc =>
    writeText io loc (d.rapidjson.print content)
    return none

def createDoc (name : Name) (content : Doc) : Call Fs OptError := do
  let path := d.nameToPath name
  match content.checkDuplicateKeys with
  | some duplicateError =>
    return some ⟨s!"Content '{name.toStr}' has duplicate keys: {duplicateError.message}"⟩
  | none =>
    if (← get).pathExists path then
      return some ⟨s!"File '{path}' already exists"⟩
    match ← createDirectories io (parentPath path) with
    | some ec =>
      return some ⟨s!"Directory '{parentPath path}' could not be created: {codeStr ec}"⟩
    | none => writeFile d io path content

def readDoc (name : Name) (fs : Fs) : RespOrError Doc :=
  let path := d.nameToPath name
  if !fs.pathExists path then .error ⟨s!"File '{path}' does not exist"⟩
  else if fs.isDirectory path then .error ⟨s!"File '{path}' is a directory"⟩
  else .ok (d.rapidjson.document (fs.readText path))

def updateDoc (name : Name) (content : Doc) : Call Fs OptError := do
  let path := d.nameToPath name
  match content.checkDuplicateKeys with
  | some duplicateError =>
    return some ⟨s!"Content '{name.toStr}' has duplicate keys: {duplicateError.message}"⟩
  | none =>
    if !(← get).pathExists path then
      return some ⟨s!"File '{path}' does not exist"⟩
    if (← get).isDirectory path then
      return some ⟨s!"File '{path}' is a directory"⟩
    writeFile d io path content

def existsDoc (name : Name) (fs : Fs) : Bool :=
  let path := d.nameToPath name
  fs.pathExists path && fs.isRegularFile path

def existsCol (name : Name) (fs : Fs) : Bool :=
  let path := d.nameToPath name
  fs.pathExists path && fs.isDirectory path

def upsertDoc (name : Name) (content : Doc) : Call Fs OptError := do
  if d.existsDoc name (← get) then updateDoc d io name content
  else createDoc d io name content

/-- The loop of `removeEmptyParentDirs`; `k` counts its turns and `fuel` bounds them. -/
def removeEmptyLoop (path : Path) (name : Name) : Nat → Nat → Path → Call Fs OptError
  | 0, _, _ => throw .outOfFuel
  | fuel + 1, k, current => do
    if samePath current d.path then
      return none
    if ← isEmpty current then
      match ← removeDir io k current with
      | some ec =>
        return some ⟨s!"File '{name.toStr}' was sucessfully removed but its parent directory " ++
          s!"'{path}' could not be removed: {codeStr ec}"⟩
      | none => removeEmptyLoop path name fuel (k + 1) (parentPath current)
    else return none

/-- `removeEmptyParentDirs`. A path has fewer parents than characters. -/
def removeEmptyParentDirs (path : Path) (name : Name) : Call Fs OptError :=
  removeEmptyLoop d io path name (path.length + 1) 0 (parentPath path)

def deleteDoc (name : Name) : Call Fs OptError := do
  let path := d.nameToPath name
  if !d.existsDoc name (← get) then
    return some ⟨s!"File '{path}' does not exist"⟩
  let (count, _) ← removeAll io path
  if count = 0 then
    -- the format asks for one argument more than it is given
    throw (.runtimeError "argument not found")
  removeEmptyParentDirs d io path name

def readCol (name : Name) (fs : Fs) : Except Throw (RespOrError Col) :=
  let path := d.nameToPath name
  if !fs.pathExists path then return .error ⟨s!"File '{path}' does not exist"⟩
  else if !fs.isDirectory path then return .error ⟨s!"File '{path}' is not a directory"⟩
  else do
    let names ← ((fs.locate path).elim [] fs.entries).mapM fun entry => do
      name.append (← Name.ofString entry)
    return .ok names

def deleteCol (name : Name) : Call Fs OptError := do
  let path := d.nameToPath name
  if !(← get).pathExists path then
    return some ⟨s!"File '{path}' does not exist"⟩
  if !(← get).isDirectory path then
    return some ⟨s!"File '{path}' is not a directory"⟩
  let (count, ec) ← removeAll io path
  if count = 0 then
    let code := codeStr (ec.getD ⟨0, "Success"⟩)
    return some ⟨s!"File '{path}' could not be removed: {code}"⟩
  removeEmptyParentDirs d io path name

/-- The driver whose system calls go as `io` says. -/
def driver : IDriver Fs where
  createDoc := createDoc d io
  readDoc := readDoc d
  updateDoc := updateDoc d io
  upsertDoc := upsertDoc d io
  deleteDoc := deleteDoc d io
  readCol := readCol d
  deleteCol := deleteCol d io
  existsDoc := existsDoc d
  existsCol := existsCol d

/-! ## What `updateDoc` does -/

variable {d io}

/-- The driver's `updateDoc` can write `content`: no repeated keys, a regular file to replace, and a
file system that opens it. -/
structure MayUpdate (d : FileDriver) (io : Io) (fs : Fs) (name : Name) (content : Doc) : Prop where
  keys : content.checkDuplicateKeys = none
  file : ∃ text, fs.status (d.nameToPath name) = some (.file text)
  opens : io.openFile = true

theorem run_updateDoc (d : FileDriver) (io : Io) (fs : Fs) (name : Name) (content : Doc) :
    (updateDoc d io name content).run fs =
      match content.checkDuplicateKeys with
      | some e => .ok (some ⟨s!"Content '{name.toStr}' has duplicate keys: {e.message}"⟩) fs
      | none =>
        if fs.pathExists (d.nameToPath name) = false then
          .ok (some ⟨s!"File '{d.nameToPath name}' does not exist"⟩) fs
        else if fs.isDirectory (d.nameToPath name) = true then
          .ok (some ⟨s!"File '{d.nameToPath name}' is a directory"⟩) fs
        else (writeFile d io (d.nameToPath name) content).run fs := by
  unfold updateDoc
  cases content.checkDuplicateKeys with
  | some e => rfl
  | none =>
    simp only
    rw [EStateM.run_bind, EStateM.run_get]
    cases hex : fs.pathExists (d.nameToPath name) with
    | false => simp [hex]
    | true =>
      simp only [hex, Bool.not_true, Bool.false_eq_true, if_false]
      rw [EStateM.run_bind, EStateM.run_get]
      cases hdir : fs.isDirectory (d.nameToPath name) <;> simp [hdir]

/-- Opening a regular file and writing it. -/
theorem run_writeFile {fs : Fs} {path : Path} {text : String} (content : Doc)
    (h : fs.status path = some (.file text)) :
    (io.openFile = false ∧ ∃ e, (writeFile d io path content).run fs = .ok (some e) fs) ∨
    (io.openFile = true ∧ ∃ fs', (writeFile d io path content).run fs = .ok none fs' ∧
      fs'.status path = some (.file (io.stored (d.rapidjson.print content)))) := by
  obtain ⟨loc, hlocate, hloc, hnode⟩ := Fs.status_eq_file h
  have hfile : fs.node loc ≠ some .dir := by rw [hnode]; simp
  unfold writeFile openWrite
  rw [EStateM.run_bind, EStateM.run_bind, EStateM.run_get]
  simp only [hlocate]
  cases hopen : io.openFile with
  | false =>
    refine .inl ⟨rfl, ⟨s!"File '{path}' could not be opened on writing mode"⟩, ?_⟩
    simp
  | true =>
    have hset : (fs.set loc (.file "")).node loc = some (.file "") := by
      rw [Fs.node_set fs hloc, if_pos rfl]
    refine .inr ⟨rfl, (fs.set loc (.file "")).set loc
      (.file (io.stored (d.rapidjson.print content))), ?_, ?_⟩
    · simp only [hfile, ne_eq, not_false_eq_true, and_self, if_true]
      rfl
    · refine Fs.status_set ?_ hloc hset
      rw [Fs.locate_set fs hloc hnode, hlocate]

/-- `updateDoc` either answers an error and leaves the files alone, or stores what the write stores
of the text. -/
theorem updateDoc_cases (d : FileDriver) (io : Io) (fs : Fs) (name : Name) (content : Doc) :
    (¬ MayUpdate d io fs name content ∧
      ∃ e, (updateDoc d io name content).run fs = .ok (some e) fs) ∨
    (MayUpdate d io fs name content ∧ ∃ fs', (updateDoc d io name content).run fs = .ok none fs' ∧
      fs'.status (d.nameToPath name) = some (.file (io.stored (d.rapidjson.print content)))) := by
  rw [run_updateDoc]
  cases hkeys : content.checkDuplicateKeys with
  | some e =>
    refine .inl ⟨fun h => ?_, _, rfl⟩
    cases hkeys.symm.trans h.keys
  | none =>
    simp only
    rcases Fs.status_cases fs (d.nameToPath name) with ⟨hst, hex, -⟩ | ⟨hst, hex, hdir⟩ |
      ⟨text, hst, hex, hdir⟩
    · rw [if_pos hex]
      refine .inl ⟨fun h => ?_, _, rfl⟩
      obtain ⟨text, ht⟩ := h.file
      cases hst.symm.trans ht
    · rw [if_neg (by rw [hex]; simp), if_pos hdir]
      refine .inl ⟨fun h => ?_, _, rfl⟩
      obtain ⟨text, ht⟩ := h.file
      cases hst.symm.trans ht
    · rw [if_neg (by rw [hex]; simp), if_neg (by rw [hdir]; simp)]
      rcases run_writeFile (d := d) content hst with ⟨hopen, he⟩ | ⟨hopen, he⟩
      · refine .inl ⟨fun h => ?_, he⟩
        cases hopen.symm.trans h.opens
      · exact .inr ⟨⟨hkeys, ⟨text, hst⟩, hopen⟩, he⟩

/-- A regular file is read. -/
theorem readDoc_of_file {d : FileDriver} {name : Name} {fs : Fs} {text : String}
    (h : fs.status (d.nameToPath name) = some (.file text)) :
    readDoc d name fs = .ok (d.rapidjson.document text) := by
  unfold readDoc
  simp only [Fs.pathExists, Fs.isDirectory, Fs.readText, h]
  simp

/-! ## What the writes do -/

/-- A file is written, or an error answered. -/
theorem writeFile_cases (d : FileDriver) (io : Io) (path : Path) (content : Doc) (fs : Fs) :
    ((∃ e, (writeFile d io path content).run fs = .ok (some e) fs) ∧
      (fs.locate path = none ∨ io.openFile = false ∨ ∃ l, fs.locate path = some l ∧
        fs.node l = some .dir)) ∨
    ∃ l, fs.locate path = some l ∧ fs.node l ≠ some .dir ∧ io.openFile = true ∧
      (writeFile d io path content).run fs = .ok none
        ((fs.set l (.file "")).set l (.file (io.stored (d.rapidjson.print content)))) := by
  unfold writeFile
  rw [EStateM.run_bind]
  rcases openWrite_cases io fs path with ⟨hrun, hwhy⟩ | ⟨l, hl, hdir, hopen, hrun⟩
  · rw [hrun]
    exact .inl ⟨⟨_, rfl⟩, hwhy⟩
  · rw [hrun]
    exact .inr ⟨l, hl, hdir, hopen, rfl⟩

theorem writeFile_grows (d : FileDriver) (io : Io) (path : Path) (content : Doc) {fs : Fs}
    (htree : fs.Tree) : fs.Grows (resultState ((writeFile d io path content).run fs)) := by
  rcases writeFile_cases d io path content fs with ⟨⟨e, hrun⟩, -⟩ | ⟨l, hl, hdir, -, hrun⟩
  · rw [hrun]
    exact .refl fs
  · rw [hrun]
    obtain ⟨dir, c, rfl, hparent⟩ := Fs.locate_entry htree hl hdir
    have hopened := Fs.Grows.set hparent hdir ""
    refine hopened.trans (.set (hopened.dir dir hparent) ?_ _)
    rw [Fs.node_set fs (by simp), if_pos rfl]
    simp

/-- `createDoc` refuses, or makes the directories on the way and writes the file. -/
theorem createDoc_cases (d : FileDriver) (io : Io) (name : Name) (content : Doc) (fs : Fs) :
    ((content.checkDuplicateKeys ≠ none ∨ fs.pathExists (d.nameToPath name) = true) ∧
      ∃ e, (createDoc d io name content).run fs = .ok (some e) fs) ∨
    (content.checkDuplicateKeys = none ∧ fs.pathExists (d.nameToPath name) = false ∧
      ∀ ec fs₁, (createDirectories io (parentPath (d.nameToPath name))).run fs = .ok ec fs₁ →
        (ec ≠ none ∧ ∃ e, (createDoc d io name content).run fs = .ok (some e) fs₁) ∨
        (ec = none ∧ (createDoc d io name content).run fs =
          (writeFile d io (d.nameToPath name) content).run fs₁)) := by
  unfold createDoc
  simp only
  cases hkeys : content.checkDuplicateKeys with
  | some e => exact .inl ⟨.inl (Option.some_ne_none e), _, rfl⟩
  | none =>
    simp only
    rw [EStateM.run_bind, EStateM.run_get]
    cases hex : fs.pathExists (d.nameToPath name) with
    | true => exact .inl ⟨.inr rfl, _, by simp [hex]; rfl⟩
    | false =>
      refine .inr ⟨trivial, rfl, fun ec fs₁ hrun => ?_⟩
      simp only [hex, Bool.false_eq_true, if_false]
      rw [EStateM.run_bind, hrun]
      cases ec with
      | some ec => exact .inl ⟨by simp, _, rfl⟩
      | none => exact .inr ⟨rfl, rfl⟩

end FileDriver

end DistroDefender.Store
