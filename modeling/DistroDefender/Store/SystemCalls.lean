import DistroDefender.Store.FileDriver
import DistroDefender.Store.Locking
import DistroDefender.Store.Stepwise

/-!
# The store over files, one system call at a time

The operations of `FileDriver` as programs of the calls they make to the file system (`program`),
each of which is a step that steps of other clients may come between. Directories are created and
trees are removed one directory and one entry at a time; only the entries of a tree are read in one
step.

`Outcomes` says which of the calls of an operation fail. Unlike `Io` it has the questions about a
path fail, too, and what is read of a file. Where all of these are answered a program run alone is
the operation of `FileDriver` (`implements`). The histories of the clients of a store over files are
linearizable in the runs in which no other call overlaps an `updateDoc` (`files_linearizable`).
-/

namespace DistroDefender.Store

open Base Lib Os

/-- How the system calls of one operation go. -/
structure Outcomes extends Io where
  /-- The failure of the `k`-th question about a path. -/
  question : Nat → Option ErrorCode
  /-- How many characters are read of a file, when not all of them: none when it does not open. -/
  shortRead : Option Nat

namespace Outcomes

/-- Every question is answered, and files are read whole. -/
structure Answered (o : Outcomes) : Prop where
  question : ∀ k, o.question k = none
  read : o.shortRead = none

/-- No call fails. -/
def calm : Outcomes := { Io.calm with question := fun _ => none, shortRead := none }

end Outcomes

/-- What the driver asks of the file system. -/
inductive SysCall where
  | pathExists (fails : Option ErrorCode) (p : Path)
  | isDirectory (fails : Option ErrorCode) (p : Path)
  | isRegularFile (fails : Option ErrorCode) (p : Path)
  | readText (short : Option Nat) (p : Path)
  /-- The directory that a path starts from. -/
  | start (p : Path)
  /-- What there is at a location: `status` with an error code. -/
  | status (fails : Option ErrorCode) (loc : Loc)
  | mkdir (fails : Option ErrorCode) (loc : Loc) (c : String)
  | openWrite (io : Io) (p : Path)
  | writeText (io : Io) (loc : Loc) (text : String)
  /-- The entries that `remove_all` is going to take. -/
  | tree (io : Io) (p : Path)
  /-- `unlink` or `rmdir` of an entry of a tree. -/
  | unlink (loc : Loc)
  /-- The path still leads somewhere. -/
  | leads (p : Path)
  | isEmpty (fails : Option ErrorCode) (p : Path)
  | removeDir (io : Io) (k : Nat) (p : Path)

namespace SysCall

def Answer : SysCall → Type
  | .pathExists .. | .isDirectory .. | .isRegularFile .. | .leads _ | .isEmpty .. => Bool
  | .readText .. => String
  | .start _ => Loc
  | .status .. => Except ErrorCode (Option Node)
  | .mkdir .. | .removeDir .. => Option ErrorCode
  | .openWrite .. => Option Loc
  | .writeText .. | .unlink _ => Unit
  | .tree .. => Option (List Loc)

/-- The throw of a `std::filesystem` function without an error code. -/
def filesystemError (what : String) (ec : ErrorCode) (p : Path) : Throw :=
  .filesystemError s!"filesystem error: {what}: {ec.message} [{p}]"

/-- A question about a path that throws when it fails. -/
def ask {α : Type} (fails : Option ErrorCode) (p : Path) (f : Fs → α) : Call Fs α := do
  match fails with
  | some ec => throw (filesystemError "status" ec p)
  | none => do return f (← get)

/-- The characters that are read. -/
def cut (short : Option Nat) (text : String) : String :=
  match short with
  | none => text
  | some k => String.ofList (text.toList.take k)

/-- `mkdir` of `c` in the directory `loc`. -/
def mkdirIn (fails : Option ErrorCode) (loc : Loc) (c : String) : Call Fs (Option ErrorCode) := do
  let fs ← get
  if fs.node loc ≠ some .dir then
    return some ⟨2, "No such file or directory"⟩
  match fails with
  | some ec => return some ec
  | none =>
    match fs.node (stepTo loc c) with
    | some .dir => return none
    | some (.file _) => return some ⟨17, "File exists"⟩
    | none =>
      modify fun fs => fs.set (stepTo loc c) .dir
      return none

/-- The entries of a tree in the order they go: what is in a directory before the directory. -/
def innermost (ls : List Loc) : List Loc := ls.insertionSort fun a b => b.length ≤ a.length

/-- The file system answers. -/
def handle : (c : SysCall) → Call Fs c.Answer
  | .pathExists fails p => ask fails p fun fs => fs.pathExists p
  | .isDirectory fails p => ask fails p fun fs => fs.isDirectory p
  | .isRegularFile fails p => ask fails p fun fs => fs.isRegularFile p
  | .readText short p => do return cut short ((← get).readText p)
  | .start p => do
    let fs ← get
    return if isAbsolute p then [] else fs.cwd
  | .status fails loc => do
    match fails with
    | some ec => return .error ec
    | none => do return .ok ((← get).node loc)
  | .mkdir fails loc c => mkdirIn fails loc c
  | .openWrite io p => Os.openWrite io p
  | .writeText io loc text => Os.writeText io loc text
  | .tree io p => do
    let fs ← get
    return (fs.locate p).map fun loc =>
      innermost (taken io p loc (fs.nodes.keys.filter fun l => loc.isPrefixOf l))
  | .unlink loc => modify fun fs => fs.without [loc]
  | .leads p => do return ((← get).locate p).isSome
  | .isEmpty fails p => do
    match fails with
    | some ec => throw (filesystemError "cannot check if file is empty" ec p)
    | none => Os.isEmpty p
  | .removeDir io k p => Os.removeDir io k p

end SysCall

namespace FileDriver.Stepwise

abbrev FileProg := Prog Throw SysCall SysCall.Answer

/-! The calls, with the number of a question. -/

section

variable (o : Outcomes)

def pathExists (k : Nat) (p : Path) : FileProg Bool := .call (.pathExists (o.question k) p) .ret

def isDirectory (k : Nat) (p : Path) : FileProg Bool := .call (.isDirectory (o.question k) p) .ret

def isRegularFile (k : Nat) (p : Path) : FileProg Bool :=
  .call (.isRegularFile (o.question k) p) .ret

def readText (p : Path) : FileProg String := .call (.readText o.shortRead p) .ret

def start (p : Path) : FileProg Loc := .call (.start p) .ret

def status (k : Nat) (loc : Loc) : FileProg (Except ErrorCode (Option Node)) :=
  .call (.status (o.question k) loc) .ret

def mkdir (k : Nat) (loc : Loc) (c : String) : FileProg (Option ErrorCode) :=
  .call (.mkdir (o.mkdir k) loc c) .ret

def openWrite (p : Path) : FileProg (Option Loc) := .call (.openWrite o.toIo p) .ret

def writeText (loc : Loc) (text : String) : FileProg Unit :=
  .call (.writeText o.toIo loc text) .ret

def tree (p : Path) : FileProg (Option (List Loc)) := .call (.tree o.toIo p) .ret

def unlink (loc : Loc) : FileProg Unit := .call (.unlink loc) .ret

def leads (p : Path) : FileProg Bool := .call (.leads p) .ret

def isEmpty (k : Nat) (p : Path) : FileProg Bool := .call (.isEmpty (o.question k) p) .ret

def removeDir (k : Nat) (p : Path) : FileProg (Option ErrorCode) :=
  .call (.removeDir o.toIo k p) .ret

/-- The loop of `create_directories`; `k` counts the directories created and `n` the questions. -/
def mkdirs (loc : Loc) : List String → Nat → Nat → FileProg (Option ErrorCode)
  | [], _, _ => return none
  | c :: cs, k, n => do
    let next := stepTo loc c
    if c = "." ∨ c = ".." then
      mkdirs next cs k n
    else
      match ← status o n next with
      | .error ec => return some ec
      | .ok (some .dir) => mkdirs next cs k (n + 1)
      | .ok (some (.file _)) => return some ⟨20, "Not a directory"⟩
      | .ok none =>
        match ← mkdir o k loc c with
        | some ec => return some ec
        | none => mkdirs next cs (k + 1) (n + 1)

def createDirectories (n : Nat) (p : Path) : FileProg (Option ErrorCode) := do
  let path := cstr p
  if path = "" then
    return some ⟨22, "Invalid argument"⟩
  let loc ← start path
  mkdirs o loc (components path) 0 n

def unlinkAll : List Loc → FileProg Unit
  | [] => return ()
  | loc :: locs => do
    unlink loc
    unlinkAll locs

def removeAll (p : Path) : FileProg (Nat × Option ErrorCode) := do
  match ← tree o p with
  | none => return (0, none)
  | some locs =>
    unlinkAll locs
    match o.removeAll, rmdirError p with
    | some (_, ec), _ => return (UInt64.size - 1, some ec)
    | none, none => return (locs.length, none)
    | none, some ec =>
      if ← leads p then return (UInt64.size - 1, some ec)
      else return (locs.length, none)

end

variable (d : FileDriver) (o : Outcomes)

def writeFile (path : Path) (content : Doc) : FileProg OptError := do
  match ← openWrite o path with
  | none => return some ⟨s!"File '{path}' could not be opened on writing mode"⟩
  | some loc =>
    writeText o loc (d.rapidjson.print content)
    return none

/-! The operations, from question `k` on. -/

def createDoc (k : Nat) (name : Name) (content : Doc) : FileProg OptError := do
  let path := d.nameToPath name
  match content.checkDuplicateKeys with
  | some duplicateError =>
    return some ⟨s!"Content '{name.toStr}' has duplicate keys: {duplicateError.message}"⟩
  | none =>
    if ← pathExists o k path then
      return some ⟨s!"File '{path}' already exists"⟩
    match ← createDirectories o (k + 1) (parentPath path) with
    | some ec =>
      return some ⟨s!"Directory '{parentPath path}' could not be created: {codeStr ec}"⟩
    | none => writeFile d o path content

def readDoc (name : Name) : FileProg (RespOrError Doc) := do
  let path := d.nameToPath name
  if !(← pathExists o 0 path) then
    return .error ⟨s!"File '{path}' does not exist"⟩
  if ← isDirectory o 1 path then
    return .error ⟨s!"File '{path}' is a directory"⟩
  return .ok (d.rapidjson.document (← readText o path))

def updateDoc (k : Nat) (name : Name) (content : Doc) : FileProg OptError := do
  let path := d.nameToPath name
  match content.checkDuplicateKeys with
  | some duplicateError =>
    return some ⟨s!"Content '{name.toStr}' has duplicate keys: {duplicateError.message}"⟩
  | none =>
    if !(← pathExists o k path) then
      return some ⟨s!"File '{path}' does not exist"⟩
    if ← isDirectory o (k + 1) path then
      return some ⟨s!"File '{path}' is a directory"⟩
    writeFile d o path content

def existsDoc (name : Name) : FileProg Bool := do
  let path := d.nameToPath name
  if !(← pathExists o 0 path) then
    return false
  isRegularFile o 1 path

def upsertDoc (name : Name) (content : Doc) : FileProg OptError := do
  if ← existsDoc d o name then updateDoc d o 2 name content
  else createDoc d o 2 name content

/-- The loop of `removeEmptyParentDirs`; `k` counts its turns and `fuel` bounds them. -/
def removeEmptyLoop (path : Path) (name : Name) : Nat → Nat → Path → FileProg OptError
  | 0, _, _ => .raise .outOfFuel
  | fuel + 1, k, current => do
    if samePath current d.path then
      return none
    if ← isEmpty o (k + 2) current then
      match ← removeDir o k current with
      | some ec =>
        return some ⟨s!"File '{name.toStr}' was sucessfully removed but its parent directory " ++
          s!"'{path}' could not be removed: {codeStr ec}"⟩
      | none => removeEmptyLoop path name fuel (k + 1) (parentPath current)
    else return none

def removeEmptyParentDirs (path : Path) (name : Name) : FileProg OptError :=
  removeEmptyLoop d o path name (path.length + 1) 0 (parentPath path)

def deleteDoc (name : Name) : FileProg OptError := do
  let path := d.nameToPath name
  if !(← existsDoc d o name) then
    return some ⟨s!"File '{path}' does not exist"⟩
  let (count, _) ← removeAll o path
  if count = 0 then
    .raise (.runtimeError "argument not found")
  else removeEmptyParentDirs d o path name

def deleteCol (name : Name) : FileProg OptError := do
  let path := d.nameToPath name
  if !(← pathExists o 0 path) then
    return some ⟨s!"File '{path}' does not exist"⟩
  if !(← isDirectory o 1 path) then
    return some ⟨s!"File '{path}' is not a directory"⟩
  let (count, ec) ← removeAll o path
  if count = 0 then
    let code := codeStr (ec.getD ⟨0, "Success"⟩)
    return some ⟨s!"File '{path}' could not be removed: {code}"⟩
  removeEmptyParentDirs d o path name

/-- The operations the store uses. -/
def program : DriverProg SysCall SysCall.Answer where
  createDoc := createDoc d o 0
  readDoc := readDoc d o
  updateDoc := updateDoc d o 0
  upsertDoc := upsertDoc d o
  deleteDoc := deleteDoc d o
  deleteCol := deleteCol d o

/-! ## Run alone -/

variable {d o}

theorem run_openWrite (p : Path) (fs : Fs) :
    (Prog.run SysCall.handle (openWrite o p)).run fs = (Os.openWrite o.toIo p).run fs :=
  Prog.run_single SysCall.handle (.openWrite o.toIo p) fs

theorem run_removeDir (k : Nat) (p : Path) (fs : Fs) :
    (Prog.run SysCall.handle (removeDir o k p)).run fs = (Os.removeDir o.toIo k p).run fs :=
  Prog.run_single SysCall.handle (.removeDir o.toIo k p) fs

theorem run_isEmpty (ho : o.Answered) (k : Nat) (p : Path) (fs : Fs) :
    (Prog.run SysCall.handle (isEmpty o k p)).run fs = (Os.isEmpty p).run fs := by
  unfold isEmpty
  rw [ho.question]
  exact Prog.run_single SysCall.handle (.isEmpty none p) fs

/-- A question that is answered, and what follows. -/
theorem run_pathExists {α : Type} (ho : o.Answered) (k : Nat) (p : Path) (f : Bool → FileProg α)
    (fs : Fs) :
    (Prog.run SysCall.handle (pathExists o k p >>= f)).run fs =
      (Prog.run SysCall.handle (f (fs.pathExists p))).run fs := by
  unfold pathExists
  rw [ho.question]
  rfl

theorem run_isDirectory {α : Type} (ho : o.Answered) (k : Nat) (p : Path) (f : Bool → FileProg α)
    (fs : Fs) :
    (Prog.run SysCall.handle (isDirectory o k p >>= f)).run fs =
      (Prog.run SysCall.handle (f (fs.isDirectory p))).run fs := by
  unfold isDirectory
  rw [ho.question]
  rfl

theorem run_isRegularFile (ho : o.Answered) (k : Nat) (p : Path) (fs : Fs) :
    (Prog.run SysCall.handle (isRegularFile o k p)).run fs = .ok (fs.isRegularFile p) fs := by
  unfold isRegularFile
  rw [ho.question]
  rfl

theorem run_status {α : Type} (ho : o.Answered) (k : Nat) (loc : Loc)
    (f : Except ErrorCode (Option Node) → FileProg α) (fs : Fs) :
    (Prog.run SysCall.handle (status o k loc >>= f)).run fs =
      (Prog.run SysCall.handle (f (.ok (fs.node loc)))).run fs := by
  unfold status
  rw [ho.question]
  rfl

theorem run_mkdir {k : Nat} {loc : Loc} {c : String} {fs : Fs} (h : fs.node (stepTo loc c) = none) :
    (Prog.run SysCall.handle (mkdir o k loc c)).run fs =
      if fs.node loc ≠ some .dir then .ok (some ⟨2, "No such file or directory"⟩) fs
      else
        match o.mkdir k with
        | some ec => .ok (some ec) fs
        | none => .ok none (fs.set (stepTo loc c) .dir) := by
  refine (Prog.run_single SysCall.handle (.mkdir (o.mkdir k) loc c) fs).trans ?_
  show (SysCall.mkdirIn (o.mkdir k) loc c).run fs = _
  unfold SysCall.mkdirIn
  rw [EStateM.run_bind, EStateM.run_get]
  simp only [h]
  by_cases hloc : fs.node loc = some .dir
  · rw [if_neg (not_not.mpr hloc), if_neg (not_not.mpr hloc)]
    rcases o.mkdir k with _ | ec <;> rfl
  · rw [if_pos hloc, if_pos hloc]
    rfl

/-- The directories are created one at a time. -/
theorem run_mkdirs (ho : o.Answered) (cs : List String) (loc : Loc) (k n : Nat) (fs : Fs) :
    (Prog.run SysCall.handle (mkdirs o loc cs k n)).run fs =
      (Os.mkdirs o.toIo loc cs k).run fs := by
  induction cs generalizing loc k n fs with
  | nil => rfl
  | cons c cs ih =>
    unfold mkdirs Os.mkdirs
    simp only
    by_cases hdot : c = "." ∨ c = ".."
    · rw [if_pos hdot, if_pos hdot]
      exact ih _ _ _ _
    rw [if_neg hdot, if_neg hdot, run_status ho, EStateM.run_bind, EStateM.run_get]
    simp only
    rcases hnext : fs.node (stepTo loc c) with _ | _ | text
    · simp only
      rw [Prog.run_bind, EStateM.run_bind, run_mkdir hnext]
      by_cases hloc : fs.node loc = some .dir
      · rw [if_neg (not_not.mpr hloc), if_neg (not_not.mpr hloc)]
        rcases o.mkdir k with _ | ec
        · exact ih _ _ _ _
        · rfl
      · rw [if_pos hloc, if_pos hloc]
        rfl
    · exact ih _ _ _ _
    · rfl

theorem run_start {α : Type} (p : Path) (f : Loc → FileProg α) (fs : Fs) :
    (Prog.run SysCall.handle (start p >>= f)).run fs =
      (Prog.run SysCall.handle (f (if isAbsolute p then [] else fs.cwd))).run fs := rfl

theorem run_createDirectories (ho : o.Answered) (n : Nat) (p : Path) (fs : Fs) :
    (Prog.run SysCall.handle (createDirectories o n p)).run fs =
      (Os.createDirectories o.toIo p).run fs := by
  unfold createDirectories Os.createDirectories
  rw [EStateM.run_bind, EStateM.run_get]
  simp only
  by_cases hempty : cstr p = ""
  · rw [if_pos hempty, if_pos hempty]
    rfl
  · rw [if_neg hempty, if_neg hempty, run_start]
    exact run_mkdirs ho (components (cstr p)) _ 0 n fs

theorem run_unlinkAll (locs : List Loc) (fs : Fs) :
    (Prog.run SysCall.handle (unlinkAll locs)).run fs = .ok () (fs.without locs) := by
  induction locs generalizing fs with
  | nil => rfl
  | cons loc locs ih => exact ih (fs.without [loc])

/-- In which order the entries of a tree go does not matter. -/
theorem without_innermost (fs : Fs) (ls : List Loc) :
    fs.without (SysCall.innermost ls) = fs.without ls := by
  have hperm : (SysCall.innermost ls).Perm ls := List.perm_insertionSort _ _
  unfold Fs.without Map.eraseAll
  congr 1
  exact hperm.foldl_eq' (fun a _ b _ m => AList.erase_erase _ _ _) fs.nodes

/-- The tree goes one entry at a time. -/
theorem run_removeAll (p : Path) (fs : Fs) :
    (Prog.run SysCall.handle (removeAll o p)).run fs = (Os.removeAll o.toIo p).run fs := by
  have htree : (Prog.run SysCall.handle (tree o p)).run fs = .ok ((fs.locate p).map fun loc =>
      SysCall.innermost (taken o.toIo p loc (fs.nodes.keys.filter fun l => loc.isPrefixOf l))) fs :=
    Prog.run_single SysCall.handle (.tree o.toIo p) fs
  unfold removeAll Os.removeAll
  rw [Prog.run_bind, EStateM.run_bind, EStateM.run_bind, EStateM.run_get, htree]
  simp only
  rcases fs.locate p with _ | loc
  · rfl
  simp only [Option.map_some]
  rw [Prog.run_bind, EStateM.run_bind, run_unlinkAll, without_innermost]
  generalize taken o.toIo p loc (fs.nodes.keys.filter fun l => loc.isPrefixOf l) = ls
  have hlength : (SysCall.innermost ls).length = ls.length :=
    (List.perm_insertionSort _ _).length_eq
  rw [hlength]
  show _ = EStateM.run _ (fs.without ls)
  rcases o.removeAll with _ | ⟨gone, ec⟩
  · rcases rmdirError p with _ | ec
    · rfl
    · have hleads : (Prog.run SysCall.handle (leads p)).run (fs.without ls) =
          .ok ((fs.without ls).locate p).isSome (fs.without ls) :=
        Prog.run_single SysCall.handle (.leads p) _
      simp only
      rw [Prog.run_bind, EStateM.run_bind, hleads]
      rcases (fs.without ls).locate p with _ | l <;> rfl
  · rfl

theorem run_writeFile (path : Path) (content : Doc) (fs : Fs) :
    (Prog.run SysCall.handle (writeFile d o path content)).run fs =
      (FileDriver.writeFile d o.toIo path content).run fs := by
  unfold writeFile FileDriver.writeFile
  rw [Prog.run_bind, EStateM.run_bind, EStateM.run_bind, run_openWrite]
  rcases (Os.openWrite o.toIo path).run fs with ⟨_ | loc, fs'⟩ | ⟨e, fs'⟩ <;> rfl

theorem run_createDoc (ho : o.Answered) (k : Nat) (name : Name) (content : Doc) (fs : Fs) :
    (Prog.run SysCall.handle (createDoc d o k name content)).run fs =
      (FileDriver.createDoc d o.toIo name content).run fs := by
  unfold createDoc FileDriver.createDoc
  simp only
  cases content.checkDuplicateKeys with
  | some e => rfl
  | none =>
    simp only
    rw [run_pathExists ho, EStateM.run_bind, EStateM.run_get]
    cases hex : fs.pathExists (d.nameToPath name) with
    | true =>
      simp only [hex, if_true]
      rfl
    | false =>
      simp only [hex, Bool.false_eq_true, if_false]
      rw [Prog.run_bind, EStateM.run_bind, EStateM.run_bind, run_createDirectories ho]
      rcases (Os.createDirectories o.toIo (parentPath (d.nameToPath name))).run fs with
        ⟨_ | ec, fs'⟩ | ⟨e, fs'⟩
      · exact run_writeFile _ content fs'
      · rfl
      · rfl

theorem run_updateDoc (ho : o.Answered) (k : Nat) (name : Name) (content : Doc) (fs : Fs) :
    (Prog.run SysCall.handle (updateDoc d o k name content)).run fs =
      (FileDriver.updateDoc d o.toIo name content).run fs := by
  rw [FileDriver.run_updateDoc]
  unfold updateDoc
  simp only
  cases content.checkDuplicateKeys with
  | some e => rfl
  | none =>
    simp only
    rw [run_pathExists ho]
    cases hex : fs.pathExists (d.nameToPath name) with
    | false => rfl
    | true =>
      simp only [Bool.not_true, Bool.false_eq_true, if_false]
      rw [run_isDirectory ho]
      cases hdir : fs.isDirectory (d.nameToPath name) with
      | true => rfl
      | false =>
        simp only [Bool.true_eq_false, Bool.false_eq_true, if_false]
        exact run_writeFile _ content fs

theorem run_existsDoc (ho : o.Answered) (name : Name) (fs : Fs) :
    (Prog.run SysCall.handle (existsDoc d o name)).run fs = .ok (d.existsDoc name fs) fs := by
  unfold existsDoc FileDriver.existsDoc
  simp only
  rw [run_pathExists ho]
  cases fs.pathExists (d.nameToPath name) with
  | false => rfl
  | true =>
    simp only [Bool.not_true, Bool.false_eq_true, if_false, Bool.true_and]
    exact run_isRegularFile ho 1 _ fs

theorem run_upsertDoc (ho : o.Answered) (name : Name) (content : Doc) (fs : Fs) :
    (Prog.run SysCall.handle (upsertDoc d o name content)).run fs =
      (FileDriver.upsertDoc d o.toIo name content).run fs := by
  unfold upsertDoc FileDriver.upsertDoc
  rw [Prog.run_bind, EStateM.run_bind, EStateM.run_bind, EStateM.run_get, run_existsDoc ho]
  simp only
  cases d.existsDoc name fs with
  | true => exact run_updateDoc ho 2 name content fs
  | false => exact run_createDoc ho 2 name content fs

theorem run_removeEmptyLoop (ho : o.Answered) (path : Path) (name : Name) (fuel k : Nat)
    (current : Path) (fs : Fs) :
    (Prog.run SysCall.handle (removeEmptyLoop d o path name fuel k current)).run fs =
      (FileDriver.removeEmptyLoop d o.toIo path name fuel k current).run fs := by
  induction fuel generalizing k current fs with
  | zero => rfl
  | succ fuel ih =>
    unfold removeEmptyLoop FileDriver.removeEmptyLoop
    by_cases hsame : samePath current d.path = true
    · rw [if_pos hsame, if_pos hsame]
      rfl
    · rw [if_neg hsame, if_neg hsame, Prog.run_bind, EStateM.run_bind, EStateM.run_bind,
        run_isEmpty ho]
      rcases (Os.isEmpty current).run fs with ⟨_ | _, fs₁⟩ | ⟨e, fs₁⟩
      · rfl
      · simp only [if_true]
        rw [Prog.run_bind, EStateM.run_bind, EStateM.run_bind, run_removeDir]
        rcases (Os.removeDir o.toIo k current).run fs₁ with ⟨_ | ec, fs₂⟩ | ⟨e, fs₂⟩
        · exact ih (k + 1) (parentPath current) fs₂
        · rfl
        · rfl
      · rfl

/-- The end of both deletions: the tree goes, and the directories it leaves empty. -/
theorem run_removeTree (ho : o.Answered) (path : Path) (name : Name)
    {fails : Nat × Option ErrorCode → FileProg OptError}
    {fails' : Nat × Option ErrorCode → Call Fs OptError}
    (hfails : ∀ r fs, (Prog.run SysCall.handle (fails r)).run fs = (fails' r).run fs) (fs : Fs) :
    (Prog.run SysCall.handle (removeAll o path >>= fun r =>
      if r.1 = 0 then fails r else removeEmptyParentDirs d o path name)).run fs =
    (Os.removeAll o.toIo path >>= fun r =>
      if r.1 = 0 then fails' r
      else FileDriver.removeEmptyParentDirs d o.toIo path name).run fs := by
  rw [Prog.run_bind, EStateM.run_bind, EStateM.run_bind, run_removeAll]
  rcases (Os.removeAll o.toIo path).run fs with ⟨⟨count, ec⟩, fs'⟩ | ⟨e, fs'⟩
  · simp only
    by_cases hcount : count = 0
    · simp only [hcount, if_true]
      exact hfails _ fs'
    · simp only [hcount, if_false]
      exact run_removeEmptyLoop ho path name _ 0 _ fs'
  · rfl

theorem run_deleteDoc (ho : o.Answered) (name : Name) (fs : Fs) :
    (Prog.run SysCall.handle (deleteDoc d o name)).run fs =
      (FileDriver.deleteDoc d o.toIo name).run fs := by
  unfold deleteDoc FileDriver.deleteDoc
  simp only
  rw [Prog.run_bind, EStateM.run_bind, EStateM.run_bind, EStateM.run_get, run_existsDoc ho]
  simp only
  cases d.existsDoc name fs with
  | false => rfl
  | true =>
    simp only [Bool.not_true, Bool.false_eq_true, if_false]
    exact run_removeTree ho (d.nameToPath name) name (fun _ _ => rfl) fs

theorem run_deleteCol (ho : o.Answered) (name : Name) (fs : Fs) :
    (Prog.run SysCall.handle (deleteCol d o name)).run fs =
      (FileDriver.deleteCol d o.toIo name).run fs := by
  unfold deleteCol FileDriver.deleteCol
  simp only
  rw [run_pathExists ho, EStateM.run_bind, EStateM.run_get]
  simp only
  cases fs.pathExists (d.nameToPath name) with
  | false => rfl
  | true =>
    simp only [Bool.not_true, Bool.false_eq_true, if_false]
    rw [run_isDirectory ho, EStateM.run_bind, EStateM.run_get]
    simp only
    cases fs.isDirectory (d.nameToPath name) with
    | false => rfl
    | true =>
      simp only [Bool.not_true, Bool.false_eq_true, if_false]
      exact run_removeTree ho (d.nameToPath name) name (fun _ _ => rfl) fs

theorem run_readDoc (ho : o.Answered) (name : Name) (fs : Fs) :
    (Prog.run SysCall.handle (readDoc d o name)).run fs = .ok (d.readDoc name fs) fs := by
  unfold readDoc FileDriver.readDoc
  simp only
  rw [run_pathExists ho]
  cases fs.pathExists (d.nameToPath name) with
  | false => rfl
  | true =>
    simp only [Bool.not_true, Bool.false_eq_true, if_false]
    rw [run_isDirectory ho]
    cases fs.isDirectory (d.nameToPath name) with
    | true => rfl
    | false =>
      simp only [Bool.false_eq_true, if_false]
      unfold readText
      rw [ho.read]
      rfl

/-- A question changes nothing, answered or not. -/
theorem ask_keeps {α : Type} (fails : Option ErrorCode) (p : Path) (f : Fs → α) (fs : Fs) :
    resultState ((SysCall.ask fails p f).run fs) = fs := by
  cases fails <;> rfl

theorem reads_readDoc (name : Name) : Prog.Reads SysCall.handle (readDoc d o name) := by
  unfold readDoc
  refine .bind (.call (ask_keeps _ _ _) .ret) fun found => ?_
  split
  · exact .ret _
  · refine .bind (.call (ask_keeps _ _ _) .ret) fun isDir => ?_
    split
    · exact .ret _
    · exact .bind (.call (fun _ => rfl) .ret) fun _ => .ret _

/-- Run alone, with every question answered, the programs are the operations of the driver. -/
theorem implements (d : FileDriver) (ho : o.Answered) :
    (program d o).Implements SysCall.handle (FileDriver.driver d o.toIo) where
  createDoc := run_createDoc ho 0
  updateDoc := run_updateDoc ho 0
  upsertDoc := run_upsertDoc ho
  deleteDoc := run_deleteDoc ho
  deleteCol := run_deleteCol ho
  readDoc := run_readDoc ho
  reads := reads_readDoc

end FileDriver.Stepwise

/-! ## The clients of a store over files -/

/-- A call of the store with its system calls made in a row. -/
def alone (d : FileDriver) (o : Outcomes) (q : LockedCall) : Call (Store Fs) LockedAnswer :=
  Prog.run (Stepwise.handle SysCall.handle) (Stepwise.body (FileDriver.Stepwise.program d o) q)

/-- What the store over files answers to one call, and what it becomes. -/
inductive FileStep (d : FileDriver) (s : Store Fs) :
    LockedCall × Outcomes → Except Throw LockedAnswer → Store Fs → Prop
  /-- Every question is answered: the operations of `FileDriver`. -/
  | answered {q : LockedCall} {o : Outcomes} (h : o.Answered) :
      FileStep d s (q, o) (answer ((perform (FileDriver.driver d o.toIo) q).run s))
        (resultState ((perform (FileDriver.driver d o.toIo) q).run s))
  /-- Some question or read fails: what the system calls of the call make of the store. -/
  | failing {q : LockedCall} {o : Outcomes} (h : ¬ o.Answered) :
      FileStep d s (q, o) (answer ((alone d o q).run s)) (resultState ((alone d o q).run s))

/-- The store over files, one call at a time. -/
def filesObject (d : FileDriver) (s₀ : Store Fs) :
    Object (Store Fs) (LockedCall × Outcomes) (Except Throw LockedAnswer) where
  init s := s = s₀
  step s q r s' := FileStep d s q r s'

theorem files_refines (d : FileDriver) (s₀ : Store Fs) :
    Object.Refines (locked (FileDriver.Stepwise.program d) SysCall.handle s₀).object
      (filesObject d s₀) Eq where
  init s hs := ⟨s, hs, rfl⟩
  step := by
    rintro s _ ⟨q, o⟩ r s' rfl ⟨rfl, rfl⟩
    refine ⟨_, ?_, rfl⟩
    by_cases ho : o.Answered
    · have hrun := Stepwise.run_body (FileDriver.Stepwise.implements d ho) q s
      unfold locked
      simp only
      rw [hrun]
      exact .answered ho
    · exact .failing ho

/-- Clients of a store over files, whose system calls interleave and may fail, see a history that
calls answered one at a time show, in every run in which no other call overlaps an `updateDoc`. -/
theorem files_linearizable (d : FileDriver) (s₀ : Store Fs) {ι : Type} [DecidableEq ι]
    {ls : List (ι × Locked.Act Throw (LockedCall × Outcomes) LockedAnswer)} {x}
    (hls : (((locked (FileDriver.Stepwise.program d) SysCall.handle s₀).system ι).guarded
      UpdatesApart).Trace ls x) :
    (filesObject d s₀).Linearizable (Locked.history ls) :=
  (files_refines d s₀).linearizable (Locked.linearizable (fun _ hq =>
    Stepwise.reads_body (fun _ => FileDriver.Stepwise.reads_readDoc _) hq) hls)

section Sample

/-- The files of a store that holds `decoder` in the namespace `system`. -/
def decoderFiles : Fs :=
  (((Fs.set ⟨∅, []⟩ ["store"] .dir).set ["store", "namespaces"] .dir).set
    ["store", "namespaces", "system"] .dir).set
    ["store", "namespaces", "system", "decoder"] (.file "true")

def decoderStore : Store Fs := ⟨(DBDocNames.empty.add decoderName systemNs).2, decoderFiles⟩

/-- The second question of an operation fails. -/
def denied : Outcomes :=
  { Outcomes.calm with question := fun k => if k = 1 then some ⟨13, "Permission denied"⟩ else none }

/-- The throw of a question about the path of the document. -/
def deniedThrow : Throw :=
  .filesystemError
    "filesystem error: status: Permission denied [/store/namespaces/system/decoder]"

theorem decoder_read :
    answer ((alone ⟨"/store", literals⟩ .calm (.readDoc decoderName)).run decoderStore) =
      .ok (.doc (.ok (.bool true))) := by
  rfl

theorem decoder_denied :
    answer ((alone ⟨"/store", literals⟩ denied (.readDoc decoderName)).run decoderStore) =
      .error deniedThrow := by
  rfl

/-- A client asks whether the document is there; before it goes on another one reads it as well, and
is denied. -/
theorem files_linearizable_between :
    (filesObject ⟨"/store", literals⟩ decoderStore).Linearizable
      [(true, .invoke (.readDoc decoderName, .calm)),
        (false, .invoke (.readDoc decoderName, denied)), (false, .respond (.error deniedThrow)),
        (true, .respond (.ok (.doc (.ok (.bool true)))))] := by
  have hrest : (((locked (FileDriver.Stepwise.program ⟨"/store", literals⟩) SysCall.handle
      decoderStore).system Bool).guarded UpdatesApart).Trace [] (decoderStore, fun _ => .idle) :=
    .nil ⟨rfl, fun _ => rfl⟩
  have hreads : ∀ q : LockedCall × Outcomes, q.1.need = .shared →
      Prog.Reads (Stepwise.handle SysCall.handle)
        (Stepwise.body (FileDriver.Stepwise.program ⟨"/store", literals⟩ q.2) q.1) :=
    fun _ hq => Stepwise.reads_body (fun _ => FileDriver.Stepwise.reads_readDoc _) hq
  obtain ⟨ls, f, hls, -, hhist⟩ := Locked.trace_between hreads hrest (fun _ => rfl)
    (show true ≠ false by decide) (.readDoc decoderName, Outcomes.calm)
    (.readDoc decoderName, denied) rfl rfl rfl rfl rfl
  have hlin := files_linearizable ⟨"/store", literals⟩ decoderStore hls
  rw [List.nil_append, hhist] at hlin
  have hread := decoder_read
  have hdenied := decoder_denied
  unfold alone at hread hdenied
  unfold locked at hlin
  simp only at hlin
  rw [hread, hdenied] at hlin
  exact hlin

end Sample

end DistroDefender.Store
