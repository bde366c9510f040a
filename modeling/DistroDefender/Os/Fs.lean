import DistroDefender.Base.Error
import DistroDefender.Lib.Map
import DistroDefender.Os.Path

/-!
# The file system

A file system keeps directories and files by location. A path leads somewhere when every component
of it is looked up in a directory that exists (`Fs.locate`). The calls that change the file system
take an `Io`, which says which of their system calls fail and how; `Io.calm` is the one where none
does.
-/

namespace DistroDefender.Os

open Base Lib

/-- What is kept at a location. -/
inductive Node where
  | dir
  | file (text : String)
  deriving DecidableEq, Repr

/-- `std::error_code`. -/
structure ErrorCode where
  value : Int
  message : String
  deriving DecidableEq, Repr

/-- The files and directories below the root, and the working directory. -/
structure Fs where
  nodes : Map Loc Node
  cwd : Loc

/-- How the system calls of one operation go. -/
structure Io where
  /-- The failure of creating the `k`-th missing directory. -/
  mkdir : Nat → Option ErrorCode
  /-- A file can be opened for writing. -/
  openFile : Bool
  /-- How many characters a write stores, when not all of them. -/
  shortWrite : Option Nat
  /-- The failure of removing a tree, with what it had removed before. -/
  removeAll : Option (List Loc × ErrorCode)
  /-- The failure of removing the `k`-th emptied directory. -/
  rmdir : Nat → Option ErrorCode

/-- No system call fails. -/
def Io.calm : Io := ⟨fun _ => none, true, none, none, fun _ => none⟩

namespace Fs

def node (fs : Fs) (loc : Loc) : Option Node := if loc = [] then some .dir else fs.nodes.lookup loc

def set (fs : Fs) (loc : Loc) (n : Node) : Fs := { fs with nodes := fs.nodes.insert loc n }

/-- The entries of a list are gone. -/
def without (fs : Fs) (ls : List Loc) : Fs := { fs with nodes := Map.eraseAll ls fs.nodes }

/-- Components looked up in turn, each in a directory. -/
def descend (fs : Fs) (loc : Loc) : List String → Option Loc
  | [] => some loc
  | c :: cs => if fs.node loc = some .dir then fs.descend (stepTo loc c) cs else none

/-- The location a path leads to. A separator at its end asks for a directory. -/
def locate (fs : Fs) (p : Path) : Option Loc :=
  let path := cstr p
  if path = "" then none
  else
    fs.descend (if isAbsolute path then [] else fs.cwd)
      (components path ++ if path.toList.getLast? = some '/' then ["."] else [])

/-- What is at a path. -/
def status (fs : Fs) (p : Path) : Option Node := (fs.locate p).bind fs.node

def pathExists (fs : Fs) (p : Path) : Bool := (fs.status p).isSome

def isDirectory (fs : Fs) (p : Path) : Bool := fs.status p = some .dir

def isRegularFile (fs : Fs) (p : Path) : Bool :=
  match fs.status p with
  | some (.file _) => true
  | _ => false

/-- What the tests say: nothing is there, a directory, or a regular file. -/
theorem status_cases (fs : Fs) (p : Path) :
    (fs.status p = none ∧ fs.pathExists p = false ∧ fs.isDirectory p = false) ∨
    (fs.status p = some .dir ∧ fs.pathExists p = true ∧ fs.isDirectory p = true) ∨
    ∃ text, fs.status p = some (.file text) ∧ fs.pathExists p = true ∧
    fs.isDirectory p = false := by
  unfold pathExists isDirectory
  rcases h : fs.status p with _ | _ | text
  · exact .inl (by simp)
  · exact .inr (.inl (by simp))
  · exact .inr (.inr ⟨text, by simp⟩)

/-- The text `std::ifstream` reads: nothing when the file cannot be opened. -/
def readText (fs : Fs) (p : Path) : String :=
  match fs.status p with
  | some (.file text) => text
  | _ => ""

/-- The names in a directory. -/
def entries (fs : Fs) (loc : Loc) : List String :=
  (fs.nodes.keys.filter fun l => loc.isPrefixOf l && l.length == loc.length + 1).filterMap
    List.getLast?

end Fs

/-! ## Calls -/

/-- The loop of `create_directories`, with the number of directories created. `.` and `..` are no
directories to create, and a directory is created in one that is there. -/
def mkdirs (io : Io) (loc : Loc) : List String → Nat → Call Fs (Option ErrorCode)
  | [], _ => pure none
  | c :: cs, k => do
    let next := stepTo loc c
    if c = "." ∨ c = ".." then
      mkdirs io next cs k
    else
      let fs ← get
      match fs.node next with
      | some .dir => mkdirs io next cs k
      | some (.file _) => return some ⟨20, "Not a directory"⟩
      | none =>
        if fs.node loc ≠ some .dir then
          return some ⟨2, "No such file or directory"⟩
        match io.mkdir k with
        | some ec => return some ec
        | none =>
          modify fun fs => fs.set next .dir
          mkdirs io next cs (k + 1)

/-- `std::filesystem::create_directories`, its error code when it has one. -/
def createDirectories (io : Io) (p : Path) : Call Fs (Option ErrorCode) := do
  let fs ← get
  let path := cstr p
  if path = "" then
    return some ⟨22, "Invalid argument"⟩
  mkdirs io (if isAbsolute path then [] else fs.cwd) (components path) 0

/-- `std::ofstream file{path}`: the location opened and truncated, if it is. -/
def openWrite (io : Io) (p : Path) : Call Fs (Option Loc) := do
  let fs ← get
  match fs.locate p with
  | none => return none
  | some loc =>
    if io.openFile ∧ fs.node loc ≠ some .dir then
      modify fun fs => fs.set loc (.file "")
      return some loc
    else return none

/-- What a write of `text` stores. -/
def Io.stored (io : Io) (text : String) : String :=
  match io.shortWrite with
  | none => text
  | some k => String.ofList (text.toList.take k)

/-- `file << text` on a file just truncated; the stream's state is not looked at. -/
def writeText (io : Io) (loc : Loc) (text : String) : Call Fs Unit :=
  modify fun fs => fs.set loc (.file (io.stored text))

/-- Why `rmdir` does not take a path: it takes one that ends in the name of a directory. -/
def rmdirError (p : Path) : Option ErrorCode :=
  match (components (cstr p)).getLast? with
  | none => some ⟨16, "Device or resource busy"⟩
  | some c =>
    if c = "." then some ⟨22, "Invalid argument"⟩
    else if c = ".." then some ⟨39, "Directory not empty"⟩
    else none

/-- What `remove_all` takes of the tree at `loc`: all of it when no call fails, but the directory
itself only by its name. A directory goes only after what is in it. -/
def taken (io : Io) (p : Path) (loc : Loc) (tree : List Loc) : List Loc :=
  tree.filter fun l => (l ≠ loc ∨ rmdirError p = none) &&
    match io.removeAll with
    | none => true
    | some (gone, _) => tree.all fun k => !l.isPrefixOf k || gone.contains k

/-- `std::filesystem::remove_all`: how many were removed, or the greatest `uintmax_t` and the
error. -/
def removeAll (io : Io) (p : Path) : Call Fs (Nat × Option ErrorCode) := do
  let fs ← get
  match fs.locate p with
  | none => return (0, none)
  | some loc =>
    let removed := taken io p loc (fs.nodes.keys.filter fun l => loc.isPrefixOf l)
    set (fs.without removed)
    match io.removeAll with
    | some (_, ec) => return (UInt64.size - 1, some ec)
    | none =>
      -- the directory that has no name is removed last, unless the path led through what is gone
      match rmdirError p, (fs.without removed).locate p with
      | some ec, some _ => return (UInt64.size - 1, some ec)
      | _, _ => return (removed.length, none)

/-- `std::filesystem::is_empty`. -/
def isEmpty (p : Path) : Call Fs Bool := do
  let fs ← get
  match (fs.locate p).bind fun loc => (fs.node loc).map fun n => (loc, n) with
  | none => throw (.filesystemError s!"filesystem error: cannot check if file is empty: {p}")
  | some (loc, .dir) => return (fs.entries loc).isEmpty
  | some (_, .file text) => return text.isEmpty

/-- `std::filesystem::remove` of the `k`-th directory: its error, if it is not removed. -/
def removeDir (io : Io) (k : Nat) (p : Path) : Call Fs (Option ErrorCode) := do
  let fs ← get
  match fs.locate p with
  | none => return some ⟨0, "Success"⟩
  | some loc =>
    match (rmdirError p).or (io.rmdir k) with
    | some ec => return some ec
    | none =>
      set (fs.without [loc])
      return none

/-! ## Writing a file -/

namespace Fs

theorem node_set (fs : Fs) {loc : Loc} (hloc : loc ≠ []) (n : Node) (l : Loc) :
    (fs.set loc n).node l = if l = loc then some n else fs.node l := by
  unfold node Fs.set
  simp only [Map.lookup_insert_eq]
  by_cases hl : l = []
  · rw [if_pos hl, if_pos hl, if_neg (by rw [hl]; exact hloc.symm)]
  · rw [if_neg hl, if_neg hl]

/-- Replacing a file by a file changes no way through the directories. -/
theorem descend_set (fs : Fs) {loc : Loc} {old new : String} (hloc : loc ≠ [])
    (hnode : fs.node loc = some (.file old)) (from' : Loc) (cs : List String) :
    (fs.set loc (.file new)).descend from' cs = fs.descend from' cs := by
  induction cs generalizing from' with
  | nil => rfl
  | cons c cs ih =>
    have hdir : (fs.set loc (.file new)).node from' = some .dir ↔ fs.node from' = some .dir := by
      rw [node_set fs hloc]
      split
      · rename_i h
        rw [h, hnode]
        simp
      · rfl
    unfold descend
    simp only [hdir, ih]

theorem locate_set (fs : Fs) {loc : Loc} {old new : String} (hloc : loc ≠ [])
    (hnode : fs.node loc = some (.file old)) (p : Path) :
    (fs.set loc (.file new)).locate p = fs.locate p := by
  unfold locate
  simp only [descend_set fs hloc hnode]
  rfl

theorem status_eq_file {fs : Fs} {p : Path} {text : String} (h : fs.status p = some (.file text)) :
    ∃ loc, fs.locate p = some loc ∧ loc ≠ [] ∧ fs.node loc = some (.file text) := by
  obtain ⟨loc, hloc, hnode⟩ := Option.bind_eq_some_iff.mp h
  refine ⟨loc, hloc, ?_, hnode⟩
  rintro rfl
  cases hnode

theorem status_set {fs : Fs} {p : Path} {loc : Loc} {old new : String}
    (hlocate : fs.locate p = some loc) (hloc : loc ≠ []) (hnode : fs.node loc = some (.file old)) :
    (fs.set loc (.file new)).status p = some (.file new) := by
  unfold status
  rw [locate_set fs hloc hnode, hlocate, Option.bind_some, node_set fs hloc, if_pos rfl]

end Fs

end DistroDefender.Os
