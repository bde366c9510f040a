import DistroDefender.Os.Tree
import Mathlib.Data.String.Basic

/-!
# Output streams

A `std::ofstream` keeps a buffer before its file and records a failure in its state; nothing is
thrown. What one write and the close at the end leave in the file is `StreamIo.written`. It is the
whole text exactly when what fails first has nothing left to store (`written_eq_iff`), and a stream
in order after its close says so (`written_of_good`).
-/

namespace DistroDefender.Os

/-- How the operations of a stream go: whether the file opens, and how much of what it was given the
write, and the flush of the close, have stored when they fail. -/
structure StreamIo where
  opens : Bool
  write : Option Nat
  close : Option Nat

/-- `std::ofstream` on an open file: what the file has, what waits in the buffer, and the state. -/
structure Ofstream where
  file : String
  buffer : String
  failed : Bool

/-- The first `k` characters. -/
def keptOf (k : Nat) (text : String) : String := String.ofList (text.toList.take k)

namespace Ofstream

def opened : Ofstream := ⟨"", "", false⟩

/-- `operator<<` and `write`. A stream that has failed takes nothing. -/
def write (io : StreamIo) (s : Ofstream) (text : String) : Ofstream :=
  if s.failed then s
  else
    match io.write with
    | none => { s with buffer := s.buffer ++ text }
    | some k => ⟨s.file ++ keptOf k (s.buffer ++ text), "", true⟩

/-- The close of the destructor. -/
def close (io : StreamIo) (s : Ofstream) : Ofstream :=
  match io.close with
  | none => { s with file := s.file ++ s.buffer, buffer := "" }
  | some k => ⟨s.file ++ keptOf k s.buffer, "", true⟩

end Ofstream

theorem keptOf_eq_iff {k : Nat} {text : String} : keptOf k text = text ↔ text.length ≤ k := by
  unfold keptOf
  rw [← String.toList_inj, String.toList_ofList]
  constructor
  · intro h
    have hlen := congrArg List.length h
    rw [List.length_take, String.length_toList] at hlen
    omega
  · intro h
    exact List.take_of_length_le (by rw [String.length_toList]; exact h)

theorem keptOf_empty (k : Nat) : keptOf k "" = "" := by
  rw [keptOf_eq_iff]
  exact Nat.zero_le k

namespace StreamIo

variable {s : StreamIo} {text : String}

/-- The stream of `std::ofstream file{path}; file << text;`, at the end of its life. -/
def after (s : StreamIo) (text : String) : Ofstream := (Ofstream.opened.write s text).close s

def written (s : StreamIo) (text : String) : String := (s.after text).file

/-- How much the operation that fails first stores. -/
def short (s : StreamIo) : Option Nat := s.write.or s.close

/-- What fails has nothing left to store. -/
def Whole (s : StreamIo) (text : String) : Prop := ∀ k, s.short = some k → text.length ≤ k

theorem written_eq : s.written text = match s.short with
    | none => text
    | some k => keptOf k text := by
  unfold written after short Ofstream.write Ofstream.close Ofstream.opened
  cases s.write with
  | none => cases s.close <;> simp
  | some k => cases s.close <;> simp [keptOf_empty]

theorem written_eq_iff : s.written text = text ↔ s.Whole text := by
  rw [written_eq]
  unfold Whole
  cases s.short with
  | none => simp
  | some k => simp [keptOf_eq_iff]

theorem good_iff : (s.after text).failed = false ↔ s.write = none ∧ s.close = none := by
  unfold after Ofstream.write Ofstream.close Ofstream.opened
  cases s.write <;> cases s.close <;> simp

/-- The state after the close tells that everything is there. -/
theorem written_of_good (h : (s.after text).failed = false) : s.written text = text := by
  obtain ⟨hwrite, hclose⟩ := good_iff.mp h
  rw [written_eq]
  unfold short
  rw [hwrite, hclose]
  rfl

end StreamIo

/-- The calls of an operation whose writing goes as the stream does. -/
def Io.streaming (io : Io) (s : StreamIo) : Io :=
  { io with openFile := s.opens, shortWrite := s.short }

theorem Io.stored_streaming (io : Io) (s : StreamIo) (text : String) :
    (io.streaming s).stored text = s.written text := by
  rw [StreamIo.written_eq]
  rfl

namespace Fs

/-- A file made where a path leads is found there. -/
theorem locate_set_file {fs : Fs} {p : Path} {l : Loc} (h : fs.locate p = some l)
    (hdir : fs.node l ≠ some .dir) (text : String) : (fs.set l (.file text)).locate p = some l := by
  have hl : l ≠ [] := by
    rintro rfl
    exact hdir rfl
  have hway : ∀ l', fs.node l' = some .dir → (fs.set l (.file text)).node l' = some .dir := by
    intro l' hl'
    rw [node_set fs hl, if_neg (fun he => hdir (by rw [← he, hl']))]
    exact hl'
  rw [locate_eq_some] at h ⊢
  obtain ⟨hne, hresolve, hdirs, hslash⟩ := h
  exact ⟨hne, hresolve, fun w hw hproper => hway _ (hdirs w hw hproper),
    fun hlast => hway _ (hslash hlast)⟩

theorem status_set_file {fs : Fs} {p : Path} {l : Loc} (h : fs.locate p = some l)
    (hdir : fs.node l ≠ some .dir) (text : String) :
    (fs.set l (.file text)).status p = some (.file text) := by
  have hl : l ≠ [] := by
    rintro rfl
    exact hdir rfl
  unfold status
  rw [locate_set_file h hdir, Option.bind_some, node_set fs hl, if_pos rfl]

end Fs

end DistroDefender.Os
