import DistroDefender.Geo.Registry
import DistroDefender.Lib.Linearizable
import DistroDefender.Lib.Owners
import DistroDefender.Lib.RwLock

/-!
# Lookups beside refreshes and removals

The clients of one database entry look up values through their locators, bring it up to date with
`remoteUpsertDb` and remove it with `removeDb`, in any number and interleaved step by step. A
refresh writes the file, closes the database and opens it again under the mutex of the entry; a
lookup makes two calls of libmaxminddb under it, and nothing but the mutex and the use count keeps
the database open in between.

`MMDB_open` maps the file, so who writes to the file in place changes what an open database reads.
Once the entry is removed, an upsert of its name is about an entry of its own, and writes without
the mutex of the removed one.

As long as every file that is installed opens, and none is written over that a removed entry with
owners has mapped, no lookup finds the database closed, and what the clients see is what they would
see of a database whose operations are one step each (`Served`). An upsert of a file that does not
open leaves the closed entry registered and its mutex free before `removeDbUnsafe` takes the mutex
again: a lookup that takes it first goes on with a closed database (`closed_is_looked_up`). An
upsert after a removal can change the file between the two calls of a lookup that holds the removed
entry (`rewritten_is_torn`).
-/

namespace DistroDefender.Geo.Refreshing

open Base Lib Os

variable {α : Type}

/-- What a client asks about the name of the database. The getters differ in the conversion. An
upsert is given by what its write leaves in the file; one whose hash is stored already does nothing
here and is left out. A removal comes with the answer of the internal store. -/
inductive Query (α : Type) where
  | look (convert : EntryData → RespOrError α) (ip : String) (path : List String)
  | remoteUpsertDb (path content : String)
  | removeDb (path : String) (deleted : OptError)

inductive Reply (α : Type) where
  | value (res : RespOrError α)
  | answer (res : OptError)

/-- Where `removeDbUnsafe` is. -/
inductive Removing where
  | start
  /-- `entry` is copied from the map. -/
  | found
  | locked
  | erased
  | unlocked
  deriving DecidableEq

/-- Where a client is. From `chosen` and `removing` to `returning` it holds the mutex of the map. -/
inductive Pc (α : Type) where
  | idle
  | called (convert : EntryData → RespOrError α) (ip : String) (path : List String)
  /-- The weak pointer is locked. -/
  | owned (convert : EntryData → RespOrError α) (ip : String) (path : List String)
  /-- The mutex of the entry is held too. -/
  | shared (convert : EntryData → RespOrError α) (ip : String) (path : List String)
  | checked (convert : EntryData → RespOrError α) (ip : String) (path : List String)
  /-- `lookup` was made. -/
  | looked (convert : EntryData → RespOrError α) (path : List String) (lookError : OptError)
  | leaving (res : RespOrError α)
  | unlocked (res : RespOrError α)
  | upserting (path content : String)
  | chosen (path content : String)
  /-- The mutex of the entry is held too, down to `reopened` and `failed`. -/
  | writing (path content : String)
  | written (path content : String)
  | closed (path content : String)
  | reopened
  | failed (path : String) (status : Int)
  | abandoned (e : Error)
  | removal (path : String) (deleted : OptError)
  /-- For a removal, or for an upsert with the status of `MMDB_open`. -/
  | removing (path : String) (status : Option Int) (deleted : OptError) (r : Removing)
  | returning (res : OptError)
  | done (r : Reply α)

/-- The mutex of the entry. -/
def Removing.mode : Removing → Option Mode
  | .locked | .erased => some .exclusive
  | _ => none

namespace Pc

/-- A shared pointer to the entry is held. -/
def owns : Pc α → Bool
  | .owned .. | .shared .. | .checked .. | .looked .. | .leaving _ | .unlocked _ => true
  | .removing _ _ _ r => r ≠ .start
  | _ => false

def mode : Pc α → Option Mode
  | .shared .. | .checked .. | .looked .. | .leaving _ => some .shared
  | .writing .. | .written .. | .closed .. | .reopened | .failed .. | .abandoned _ =>
    some .exclusive
  | .removing _ _ _ r => r.mode
  | _ => none

def locksMap : Pc α → Bool
  | .chosen .. | .writing .. | .written .. | .closed .. | .reopened | .failed .. | .abandoned
      _ | .removing ..
  | .returning _ => true
  | _ => false

/-- The client has found the entry in the map. -/
def present : Pc α → Bool
  | .writing .. | .written .. | .closed .. | .reopened | .failed .. | .abandoned _ => true
  | .removing _ _ _ r => r = .found ∨ r = .locked
  | _ => false

/-- The content an upsert will open. -/
def content : Pc α → Option String
  | .upserting _ c | .chosen _ c | .writing _ c | .written _ c | .closed _ c => some c
  | _ => none

/-- The file was written, and `MMDB_open` was not made yet. -/
def replacing : Pc α → Bool
  | .written .. | .closed .. => true
  | _ => false

/-- `MMDB_open` failed. -/
def gaveUp : Pc α → Bool
  | .failed .. | .removing _ (some _) _ _ => true
  | _ => false

/-- The next call is one of libmaxminddb. -/
def reads : Pc α → Bool
  | .checked .. | .looked .. => true
  | _ => false

end Pc

/-- The entry with its owners. `entry` is what was opened last, also when it is closed. -/
structure State (ι α : Type) where
  useCount : Nat
  /-- `dbs_` has the entry. -/
  inMap : Bool
  /-- `dbs_` has another entry of the name. -/
  again : Bool
  isOpen : Bool
  entry : DbEntry
  /-- The path that was opened last. -/
  file : String
  /-- What the file that was opened last holds now. -/
  mapped : String
  locators : ι → Locator
  pc : ι → Pc α

variable {ι : Type} [DecidableEq ι]

def State.goto (s : State ι α) (i : ι) (pc : Pc α) : State ι α :=
  { s with pc := Function.update s.pc i pc }

inductive Act (α : Type) where
  | invoke (q : Query α)
  | run
  /-- A write to the file that the entry has mapped, without its mutex. -/
  | rewrite
  | respond (r : Reply α)

/-- What a client sees of a step; a request goes through the client's own locator. -/
def event : ι × Act α → Option (ι × Lib.Event (ι × Query α) (Reply α))
  | (i, .invoke q) => some (i, .invoke (i, q))
  | (_, .run) | (_, .rewrite) => none
  | (i, .respond r) => some (i, .respond r)

def unavailable : RespOrError α := .error ⟨"Database is not available"⟩

/-- The rest of a lookup: `getEData` and the conversion. -/
def finish (lib : Maxminddb) (convert : EntryData → RespOrError α) (path : List String)
    (entry : DbEntry) (l : Locator) : RespOrError α :=
  match ((getEData lib path entry).run l).1 with
  | .error e => .error e
  | .ok eData => convert eData

/-- What a lookup answers once `lookup` was made. -/
def result (lib : Maxminddb) (convert : EntryData → RespOrError α) (path : List String)
    (lookError : OptError) (entry : DbEntry) (l : Locator) : RespOrError α :=
  match lookError with
  | some e => .error e
  | none => finish lib convert path entry l

def cannotAdd (lib : Maxminddb) (path : String) (status : Int) : Error :=
  ⟨s!"Cannot add database '{path}': {lib.strerror status}"⟩

def notFound (path : String) : Error := ⟨s!"Database '{filename path}' not found"⟩

/-- What is answered where `removeDbUnsafe` ends with `res`. -/
def removed (lib : Maxminddb) (path : String) : Option Int → OptError → OptError
  | none, res => res
  | some status, _ => some (cannotAdd lib path status)

/-- What an upsert answers that has written a file of another entry. -/
def added (lib : Maxminddb) (path content : String) : OptError :=
  if lib.status content = MMDB_SUCCESS then none else some (cannotAdd lib path (lib.status content))

/-- Where a request begins. -/
def Query.start : Query α → Pc α
  | .look convert ip path => .called convert ip path
  | .remoteUpsertDb path content => .upserting path content
  | .removeDb path deleted => .removal path deleted

/-- The database as the mapped file has it. -/
def State.read (s : State ι α) : DbEntry := { s.entry with content := s.mapped }

/-- One owner less: `~DbEntry` closes the database with the last one. -/
def State.drop (s : State ι α) : State ι α :=
  { s with useCount := s.useCount - 1, isOpen := s.isOpen && decide (1 < s.useCount) }

/-- One step of client `i`. -/
inductive Step (lib : Maxminddb) (s : State ι α) : ι × Act α → State ι α → Prop
  | invoke (i : ι) (q : Query α) (h : s.pc i = .idle) : Step lib s (i, .invoke q) (s.goto i q.start)
  | respond {i : ι} {r : Reply α} (h : s.pc i = .done r) :
      Step lib s (i, .respond r) (s.goto i .idle)
  -- `Locator::getString` and the other getters
  | expired {i : ι} {convert : EntryData → RespOrError α} {ip : String} {path : List String}
      (h : s.pc i = .called convert ip path) (hcount : s.useCount = 0) :
      Step lib s (i, .run) (s.goto i (.done (.value unavailable)))
  | weakLock {i : ι} {convert : EntryData → RespOrError α} {ip : String} {path : List String}
      (h : s.pc i = .called convert ip path) (hcount : 0 < s.useCount) :
      Step lib s (i, .run) { s.goto i (.owned convert ip path) with useCount := s.useCount + 1 }
  | sharedLock {i : ι} {convert : EntryData → RespOrError α} {ip : String} {path : List String}
      (h : s.pc i = .owned convert ip path)
      (hfree : RwLock.Grants (fun j => (s.pc j).mode) .shared) :
      Step lib s (i, .run) (s.goto i (.shared convert ip path))
  | gone {i : ι} {convert : EntryData → RespOrError α} {ip : String} {path : List String}
      (h : s.pc i = .shared convert ip path) (hcount : s.useCount ≤ 1) :
      Step lib s (i, .run) (s.goto i (.leaving unavailable))
  | check {i : ι} {convert : EntryData → RespOrError α} {ip : String} {path : List String}
      (h : s.pc i = .shared convert ip path) (hcount : 1 < s.useCount) :
      Step lib s (i, .run) (s.goto i (.checked convert ip path))
  | look {i : ι} {convert : EntryData → RespOrError α} {ip : String} {path : List String}
      (h : s.pc i = .checked convert ip path) (hopen : s.isOpen = true) :
      Step lib s (i, .run)
        { s.goto i (.looked convert path ((lookup lib ip s.read).run (s.locators i)).1) with
          locators := Function.update s.locators i ((lookup lib ip s.read).run (s.locators i)).2 }
  | getEData {i : ι} {convert : EntryData → RespOrError α} {path : List String}
      {lookError : OptError}
      (h : s.pc i = .looked convert path lookError) (hopen : s.isOpen = true) :
      Step lib s (i, .run)
        (s.goto i (.leaving (result lib convert path lookError s.read (s.locators i))))
  | unlock {i : ι} {res : RespOrError α} (h : s.pc i = .leaving res) :
      Step lib s (i, .run) (s.goto i (.unlocked res))
  | release {i : ι} {res : RespOrError α} (h : s.pc i = .unlocked res) :
      Step lib s (i, .run) (s.goto i (.done (.value res))).drop
  -- `remoteUpsertDb`
  | lockMap {i : ι} {path content : String} (h : s.pc i = .upserting path content)
      (hfree : ∀ j, (s.pc j).locksMap = false) :
      Step lib s (i, .run) (s.goto i (.chosen path content))
  /-- An error before anything is written. -/
  | refuse {i : ι} {path content : String} (h : s.pc i = .chosen path content) (e : Error) :
      Step lib s (i, .run) (s.goto i (.returning (some e)))
  /-- The entry is not registered: the upsert is about an entry of its own, here with another
  file. -/
  | elsewhere {i : ι} {path content : String} (h : s.pc i = .chosen path content)
      (hmap : s.inMap = false) (hpath : path ≠ s.file) :
      Step lib s (i, .run) { s.goto i (.returning (added lib path content)) with
        again := (added lib path content).isNone }
  /-- As `elsewhere`, with the file that is mapped, under the same path or another one. -/
  | rewrite {i : ι} {path content : String} (h : s.pc i = .chosen path content)
      (hmap : s.inMap = false) :
      Step lib s (i, .rewrite) { s.goto i (.returning (added lib path content)) with
        again := (added lib path content).isNone, mapped := content }
  | lockEntry {i : ι} {path content : String} (h : s.pc i = .chosen path content)
      (hmap : s.inMap = true) (hfree : RwLock.Grants (fun j => (s.pc j).mode) .exclusive) :
      Step lib s (i, .run) (s.goto i (.writing path content))
  | write {i : ι} {path content : String} (h : s.pc i = .writing path content) (mapped : String)
      (hmapped : mapped = content ∨ path ≠ s.file ∧ mapped = s.mapped) :
      Step lib s (i, .run) { s.goto i (.written path content) with mapped }
  | writeFails {i : ι} {path content : String} (h : s.pc i = .writing path content) (e : Error) :
      Step lib s (i, .run) (s.goto i (.abandoned e))
  | close {i : ι} {path content : String} (h : s.pc i = .written path content) :
      Step lib s (i, .run) { s.goto i (.closed path content) with isOpen := false }
  | reopen {i : ι} {path content : String} (h : s.pc i = .closed path content)
      (hstatus : lib.status content = MMDB_SUCCESS) :
      Step lib s (i, .run) { s.goto i .reopened with
        isOpen := true, file := path, mapped := content,
        entry := { s.entry with opening := s.entry.opening + 1, content := content } }
  | openFails {i : ι} {path content : String} (h : s.pc i = .closed path content)
      (hstatus : lib.status content ≠ MMDB_SUCCESS) :
      Step lib s (i, .run) (s.goto i (.failed path (lib.status content)))
  | unlockEntry {i : ι} (h : s.pc i = .reopened) : Step lib s (i, .run) (s.goto i (.returning none))
  | unlockAbandoned {i : ι} {e : Error} (h : s.pc i = .abandoned e) :
      Step lib s (i, .run) (s.goto i (.returning (some e)))
  | unlockFailed {i : ι} {path : String} {status : Int} (h : s.pc i = .failed path status) :
      Step lib s (i, .run) (s.goto i (.removing path (some status) none .start))
  -- `removeDb`, and where an upsert gives the entry up
  | lockMapRemoval {i : ι} {path : String} {deleted : OptError} (h : s.pc i = .removal path deleted)
      (hfree : ∀ j, (s.pc j).locksMap = false) :
      Step lib s (i, .run) (s.goto i (.removing path none deleted .start))
  | absent {i : ι} {path : String} {status : Option Int} {deleted : OptError}
      (h : s.pc i = .removing path status deleted .start) (hmap : s.inMap = false)
      (hagain : s.again = false) :
      Step lib s (i, .run) (s.goto i (.returning (removed lib path status (some (notFound path)))))
  /-- The other entry is removed. -/
  | removeAgain {i : ι} {path : String} {status : Option Int} {deleted : OptError}
      (h : s.pc i = .removing path status deleted .start) (hmap : s.inMap = false)
      (hagain : s.again = true) :
      Step lib s (i, .run)
        { s.goto i (.returning (removed lib path status deleted)) with again := false }
  | find {i : ι} {path : String} {status : Option Int} {deleted : OptError}
      (h : s.pc i = .removing path status deleted .start) (hmap : s.inMap = true) :
      Step lib s (i, .run)
        { s.goto i (.removing path status deleted .found) with useCount := s.useCount + 1 }
  | lock {i : ι} {path : String} {status : Option Int} {deleted : OptError}
      (h : s.pc i = .removing path status deleted .found)
      (hfree : RwLock.Grants (fun j => (s.pc j).mode) .exclusive) :
      Step lib s (i, .run) (s.goto i (.removing path status deleted .locked))
  | erase {i : ι} {path : String} {status : Option Int} {deleted : OptError}
      (h : s.pc i = .removing path status deleted .locked) :
      Step lib s (i, .run)
        { (s.goto i (.removing path status deleted .erased)).drop with inMap := false }
  | unlockRemoval {i : ι} {path : String} {status : Option Int} {deleted : OptError}
      (h : s.pc i = .removing path status deleted .erased) :
      Step lib s (i, .run) (s.goto i (.removing path status deleted .unlocked))
  /-- `entry.reset()`, and the internal store. -/
  | reset {i : ι} {path : String} {status : Option Int} {deleted : OptError}
      (h : s.pc i = .removing path status deleted .unlocked) :
      Step lib s (i, .run) (s.goto i (.returning (removed lib path status deleted))).drop
  | unlockMap {i : ι} {res : OptError} (h : s.pc i = .returning res) :
      Step lib s (i, .run) (s.goto i (.done (.answer res)))

/-- The database is open, and its file is as it was opened. -/
def State.Intact (s : State ι α) : Prop := s.isOpen = true ∧ s.mapped = s.entry.content

/-- The database is registered and open, and nobody has asked anything. -/
def Initial (s : State ι α) : Prop :=
  s.useCount = 1 ∧ s.inMap = true ∧ s.again = false ∧ s.Intact ∧ ∀ i, s.pc i = .idle

/-- The clients of the entry. -/
def clients (lib : Maxminddb) (ι α : Type) [DecidableEq ι] : System (State ι α) (ι × Act α) where
  init := Initial
  step := Step lib

/-- The files that upserts install open, and none is written over that an owned entry has mapped and
that its mutex does not guard. -/
structure Careful (lib : Maxminddb) (s : State ι α) (l : ι × Act α) : Prop where
  opens : ∀ path content, l.2 = .invoke (.remoteUpsertDb path content) →
    lib.status content = MMDB_SUCCESS
  apart : l.2 = .rewrite → s.useCount = 0

/-! ## The invariant -/

section Invariant

variable {lib : Maxminddb} {s s' : State ι α} {l : ι × Act α} {i : ι} {pc : Pc α} {n : Nat}

/-- The owners of the entry: the map and the clients. -/
def State.Owns (s : State ι α) : Unit ⊕ ι → Prop := Holders (fun _ => s.inMap = true) Pc.owns s.pc

/-- What the places of the clients say on their own. -/
structure Places (lib : Maxminddb) (f : ι → Pc α) : Prop where
  entryLock : RwLock.Exclusion fun i => (f i).mode
  mapLock : ∀ i j, (f i).locksMap = true → (f j).locksMap = true → i = j
  opens : ∀ i c, (f i).content = some c → lib.status c = MMDB_SUCCESS
  keeps : ∀ i, (f i).gaveUp = false

structure Inv (lib : Maxminddb) (s : State ι α) : Prop where
  places : Places lib s.pc
  counts : Counts s.useCount s.Owns
  present : ∀ i, (s.pc i).present = true → s.inMap = true
  intact : s.Intact ∨ s.useCount = 0 ∨ ∃ i, (s.pc i).replacing = true

/-- Client `i` may go to `pc`. -/
structure Moves (lib : Maxminddb) (f : ι → Pc α) (i : ι) (pc : Pc α) : Prop where
  mode : pc.mode = (f i).mode ∨ pc.mode = none ∨ ∃ m, pc.mode = some m ∧
    RwLock.Grants (fun j => (f j).mode) m
  locksMap : pc.locksMap = true → (f i).locksMap = true ∨ ∀ j, (f j).locksMap = false
  opens : ∀ c, pc.content = some c → lib.status c = MMDB_SUCCESS
  keeps : pc.gaveUp = false

theorem Places.goto {f : ι → Pc α} (h : Places lib f) (hm : Moves lib f i pc) :
    Places lib (Function.update f i pc) := by
  refine ⟨?_, fun j k hj hk => ?_, fun j c hj => ?_, fun j => ?_⟩
  · have heq : (fun j => (Function.update f i pc j).mode) =
        Function.update (fun j => (f j).mode) i pc.mode := by
      funext j
      simp only [Function.update_apply]
      split <;> rfl
    rw [heq]
    rcases hm.mode with hsame | hnone | ⟨m, hsome, hgrants⟩
    · rw [hsame, Function.update_eq_self i fun j => (f j).mode]
      exact h.entryLock
    · rw [hnone]
      exact h.entryLock.release i
    · rw [hsome]
      exact h.entryLock.acquire hgrants
  · rw [Function.update_apply] at hj hk
    split at hj <;> split at hk
    · rename_i hji hki
      exact hji.trans hki.symm
    · rename_i hji hki
      rcases hm.locksMap hj with hi | hfree
      · exact hji.trans (h.mapLock i k hi hk)
      · cases hk.symm.trans (hfree k)
    · rename_i hji hki
      rcases hm.locksMap hk with hi | hfree
      · exact (h.mapLock j i hj hi).trans hki.symm
      · cases hj.symm.trans (hfree j)
    · exact h.mapLock j k hj hk
  · rw [Function.update_apply] at hj
    split at hj
    · exact hm.opens c hj
    · exact h.opens j c hj
  · rw [Function.update_apply]
    split
    · exact hm.keeps
    · exact h.keeps j

omit [DecidableEq ι] in
/-- Who owns the entry is counted. -/
theorem Inv.pos (h : Inv lib s) {o : Unit ⊕ ι} (ho : s.Owns o) : 0 < s.useCount := by
  refine Nat.pos_of_ne_zero fun hzero => ?_
  have hempty : {o | s.Owns o}.encard = (0 : Nat) := hzero ▸ h.counts
  have hmem : o ∈ {o | s.Owns o} := ho
  rw [Nat.cast_zero, Set.encard_eq_zero] at hempty
  rw [hempty] at hmem
  exact hmem

omit [DecidableEq ι] in
theorem locksMap_of_present {pc : Pc α} (h : pc.present = true) : pc.locksMap = true := by
  cases pc <;> first | rfl | cases h

theorem Inv.present_goto (h : Inv lib s) (hpresent : pc.present = true → s.inMap = true) (j : ι)
    (hj : ((s.goto i pc).pc j).present = true) : s.inMap = true := by
  simp only [State.goto, Function.update_apply] at hj
  split at hj
  · exact hpresent hj
  · exact h.present j hj

theorem Inv.intact_goto (h : Inv lib s)
    (hreplacing : (s.pc i).replacing = true → pc.replacing = true) :
    s.Intact ∨ s.useCount = 0 ∨ ∃ j, ((s.goto i pc).pc j).replacing = true := by
  rcases h.intact with hintact | hzero | ⟨j, hj⟩
  · exact .inl hintact
  · exact .inr (.inl hzero)
  · refine .inr (.inr ⟨j, ?_⟩)
    simp only [State.goto, Function.update_apply]
    split
    · rename_i hji
      exact hreplacing (hji ▸ hj)
    · exact hj

/-- A step that leaves the count, the map and the database alone. -/
theorem Inv.quiet (h : Inv lib s) (hm : Moves lib s.pc i pc) (howns : pc.owns = (s.pc i).owns)
    (hpresent : pc.present = true → s.inMap = true)
    (hreplacing : (s.pc i).replacing = true → pc.replacing = true) : Inv lib (s.goto i pc) :=
  ⟨h.places.goto hm, h.counts.keep howns, h.present_goto hpresent, h.intact_goto hreplacing⟩

/-- A client takes a shared pointer to the entry. -/
theorem Inv.take (h : Inv lib s) (hm : Moves lib s.pc i pc) (hold : (s.pc i).owns = false)
    (hnew : pc.owns = true) (hpos : 0 < s.useCount) (hpresent : pc.present = true → s.inMap = true)
    (hreplacing : (s.pc i).replacing = true → pc.replacing = true) :
    Inv lib { s.goto i pc with useCount := s.useCount + 1 } := by
  refine ⟨h.places.goto hm, h.counts.hold hold hnew, h.present_goto hpresent, ?_⟩
  rcases h.intact_goto hreplacing with hintact | hzero | hj
  · exact .inl hintact
  · omega
  · exact .inr (.inr hj)

omit [DecidableEq ι] in
/-- One owner less: the last one closes the database. -/
theorem intact_drop (h : s.Intact ∨ s.useCount = 0 ∨ ∃ j, (s.pc j).replacing = true) :
    s.drop.Intact ∨ s.drop.useCount = 0 ∨ ∃ j, (s.drop.pc j).replacing = true := by
  unfold State.drop
  rcases h with ⟨hopen, hmapped⟩ | hzero | hj
  · by_cases hlast : 1 < s.useCount
    · exact .inl ⟨by simp [hopen, hlast], hmapped⟩
    · refine .inr (.inl ?_)
      show s.useCount - 1 = 0
      omega
  · refine .inr (.inl ?_)
    show s.useCount - 1 = 0
    omega
  · exact .inr (.inr hj)

/-- A client lets its shared pointer go. -/
theorem Inv.letGo (h : Inv lib s) (hm : Moves lib s.pc i pc) (hold : (s.pc i).owns = true)
    (hnew : pc.owns = false) (hpresent : pc.present = true → s.inMap = true)
    (hreplacing : (s.pc i).replacing = true → pc.replacing = true) :
    Inv lib (s.goto i pc).drop := by
  have hcounts : Counts (s.useCount - 1) (s.goto i pc).Owns := h.counts.letGo hold hnew
  refine ⟨h.places.goto hm, hcounts, h.present_goto hpresent, ?_⟩
  exact intact_drop (s := s.goto i pc) (h.intact_goto hreplacing)

/-- The map lets its pointer go. -/
theorem Inv.erase (h : Inv lib s) (hm : Moves lib s.pc i pc) (howns : pc.owns = (s.pc i).owns)
    (hold : (s.pc i).present = true) (hnew : pc.present = false)
    (hreplacing : (s.pc i).replacing = true → pc.replacing = true) :
    Inv lib { (s.goto i pc).drop with inMap := false } := by
  refine ⟨h.places.goto hm, ?_, fun j hj => ?_, ?_⟩
  · have hkeep : Counts s.useCount (s.goto i pc).Owns := h.counts.keep howns
    exact hkeep.exit (k := ()) (h.present i hold) fun _ => by simp
  · -- another client that has found the entry would hold the mutex of the map
    simp only [State.drop, State.goto, Function.update_apply] at hj
    split at hj
    · cases hnew.symm.trans hj
    · rename_i hji
      exact absurd (h.places.mapLock j i (locksMap_of_present hj) (locksMap_of_present hold)) hji
  · exact intact_drop (s := s.goto i pc) (h.intact_goto hreplacing)

omit [DecidableEq ι] in
/-- A move that takes no lock and has nothing new to install. -/
theorem Places.moves {f : ι → Pc α} (h : Places lib f)
    (hmode : pc.mode = (f i).mode ∨ pc.mode = none)
    (hlocks : pc.locksMap = true → (f i).locksMap = true)
    (hcontent : pc.content = none ∨ pc.content = (f i).content) (hkeeps : pc.gaveUp = false) :
    Moves lib f i pc where
  mode := hmode.imp_right Or.inl
  locksMap hpc := .inl (hlocks hpc)
  opens c hc := by
    rcases hcontent with hnone | hsame
    · cases hnone.symm.trans hc
    · exact h.opens i c (hsame.symm.trans hc)
  keeps := hkeeps

omit [DecidableEq ι] in
theorem Places.status {f : ι → Pc α} (h : Places lib f) {path : String} {status : Option Int}
    {deleted : OptError} {r : Removing} (hpc : f i = .removing path status deleted r) :
    status = none := by
  cases status with
  | none => rfl
  | some code =>
    have hkeeps := h.keeps i
    rw [hpc] at hkeeps
    cases hkeeps

/-- Such a move, from `p`. -/
theorem Inv.plain {p : Pc α} (h : Inv lib s) (hpc : s.pc i = p)
    (hmode : pc.mode = p.mode ∨ pc.mode = none) (hlocks : pc.locksMap = true → p.locksMap = true)
    (hcontent : pc.content = none ∨ pc.content = p.content) (hkeeps : pc.gaveUp = false)
    (howns : pc.owns = p.owns) (hpresent : pc.present = true → p.present = true)
    (hreplacing : p.replacing = true → pc.replacing = true) : Inv lib (s.goto i pc) := by
  subst hpc
  exact h.quiet (h.places.moves hmode hlocks hcontent hkeeps) howns
    (fun hpc => h.present i (hpresent hpc)) hreplacing

theorem Inv.step (h : Inv lib s) (hcareful : Careful lib s l) (hstep : Step lib s l s') :
    Inv lib s' := by
  have hp := h.places
  cases hstep with
  | invoke i q hpc =>
    cases q with
    | look convert ip path => exact h.plain hpc (.inl rfl) id (.inl rfl) rfl rfl id id
    | remoteUpsertDb path content =>
      have hm : Moves lib s.pc i (.upserting path content) :=
        ⟨.inr (.inl rfl), nofun, fun c hc => by cases hc; exact hcareful.opens _ _ rfl, rfl⟩
      exact h.quiet hm (by rw [hpc]; rfl) nofun (by rw [hpc]; nofun)
    | removeDb path deleted => exact h.plain hpc (.inl rfl) id (.inl rfl) rfl rfl id id
  | respond hpc => exact h.plain hpc (.inl rfl) id (.inl rfl) rfl rfl id id
  | expired hpc => exact h.plain hpc (.inl rfl) id (.inl rfl) rfl rfl id id
  | @weakLock i convert ip path hpc hcount =>
    have hm : Moves lib s.pc i (.owned convert ip path) := hp.moves (.inr rfl) nofun (.inl rfl) rfl
    exact h.take hm (by rw [hpc]; rfl) rfl hcount nofun (by rw [hpc]; nofun)
  | @sharedLock i convert ip path hpc hfree =>
    have hm : Moves lib s.pc i (.shared convert ip path) :=
      ⟨.inr (.inr ⟨_, rfl, hfree⟩), nofun, nofun, rfl⟩
    exact h.quiet hm (by rw [hpc]; rfl) nofun (by rw [hpc]; nofun)
  | gone hpc => exact h.plain hpc (.inl rfl) id (.inl rfl) rfl rfl id id
  | check hpc => exact h.plain hpc (.inl rfl) id (.inl rfl) rfl rfl id id
  | @look i convert ip path hpc =>
    have hlooked : Inv lib
        (s.goto i (.looked convert path ((lookup lib ip s.read).run (s.locators i)).1)) :=
      h.plain hpc (.inl rfl) id (.inl rfl) rfl rfl id id
    exact ⟨hlooked.places, hlooked.counts, hlooked.present, hlooked.intact⟩
  | getEData hpc => exact h.plain hpc (.inl rfl) id (.inl rfl) rfl rfl id id
  | unlock hpc => exact h.plain hpc (.inr rfl) id (.inl rfl) rfl rfl id id
  | @release i res hpc =>
    have hm : Moves lib s.pc i (.done (.value res)) := hp.moves (.inr rfl) nofun (.inl rfl) rfl
    exact h.letGo hm (by rw [hpc]; rfl) rfl nofun (by rw [hpc]; nofun)
  | @lockMap i path content hpc hfree =>
    have hm : Moves lib s.pc i (.chosen path content) :=
      ⟨.inr (.inl rfl), fun _ => .inr hfree, fun c hc => hp.opens i c (by rw [hpc]; exact hc), rfl⟩
    exact h.quiet hm (by rw [hpc]; rfl) nofun (by rw [hpc]; nofun)
  | refuse hpc => exact h.plain hpc (.inl rfl) id (.inl rfl) rfl rfl id id
  | @elsewhere i path content hpc =>
    have hanswered : Inv lib (s.goto i (.returning (added lib path content))) :=
      h.plain hpc (.inl rfl) id (.inl rfl) rfl rfl id id
    exact ⟨hanswered.places, hanswered.counts, hanswered.present, hanswered.intact⟩
  | @rewrite i path content hpc =>
    -- nobody owns the entry whose file it is
    have hanswered : Inv lib (s.goto i (.returning (added lib path content))) :=
      h.plain hpc (.inl rfl) id (.inl rfl) rfl rfl id id
    exact ⟨hanswered.places, hanswered.counts, hanswered.present, .inr (.inl (hcareful.apart rfl))⟩
  | @lockEntry i path content hpc hmap hfree =>
    have hm : Moves lib s.pc i (.writing path content) :=
      ⟨.inr (.inr ⟨_, rfl, hfree⟩), fun _ => .inl (by rw [hpc]; rfl),
        fun c hc => hp.opens i c (by rw [hpc]; exact hc), rfl⟩
    exact h.quiet hm (by rw [hpc]; rfl) (fun _ => hmap) (by rw [hpc]; nofun)
  | @write i path content hpc mapped =>
    have hwritten : Inv lib (s.goto i (.written path content)) :=
      h.plain hpc (.inl rfl) id (.inr rfl) rfl rfl id nofun
    exact ⟨hwritten.places, hwritten.counts, hwritten.present,
      .inr (.inr ⟨i, by simp [State.goto, Pc.replacing]⟩)⟩
  | writeFails hpc => exact h.plain hpc (.inl rfl) id (.inl rfl) rfl rfl id id
  | @close i path content hpc =>
    have hclosed : Inv lib (s.goto i (.closed path content)) :=
      h.plain hpc (.inl rfl) id (.inr rfl) rfl rfl id fun _ => rfl
    exact ⟨hclosed.places, hclosed.counts, hclosed.present,
      .inr (.inr ⟨i, by simp [State.goto, Pc.replacing]⟩)⟩
  | @reopen i path content hpc =>
    have hm : Moves lib s.pc i .reopened :=
      hp.moves (.inl (by rw [hpc]; rfl)) (by rw [hpc]; exact id) (.inl rfl) rfl
    have hcounts : Counts s.useCount (s.goto i .reopened).Owns := h.counts.keep (by rw [hpc]; rfl)
    exact ⟨hp.goto hm, hcounts, h.present_goto fun _ => h.present i (by rw [hpc]; rfl),
      .inl ⟨rfl, rfl⟩⟩
  | @openFails i path content hpc hstatus =>
    exact absurd (hp.opens i content (by rw [hpc]; rfl)) hstatus
  | unlockEntry hpc => exact h.plain hpc (.inr rfl) id (.inl rfl) rfl rfl nofun id
  | unlockAbandoned hpc => exact h.plain hpc (.inr rfl) id (.inl rfl) rfl rfl nofun id
  | @unlockFailed i path status hpc =>
    have hkeeps := hp.keeps i
    rw [hpc] at hkeeps
    cases hkeeps
  | @lockMapRemoval i path deleted hpc hfree =>
    have hm : Moves lib s.pc i (.removing path none deleted .start) :=
      ⟨.inr (.inl rfl), fun _ => .inr hfree, nofun, rfl⟩
    exact h.quiet hm (by rw [hpc]; rfl) nofun (by rw [hpc]; nofun)
  | absent hpc => exact h.plain hpc (.inr rfl) id (.inl rfl) rfl rfl nofun id
  | @removeAgain i path status deleted hpc =>
    have hanswered : Inv lib (s.goto i (.returning (removed lib path status deleted))) :=
      h.plain hpc (.inr rfl) id (.inl rfl) rfl rfl nofun id
    exact ⟨hanswered.places, hanswered.counts, hanswered.present, hanswered.intact⟩
  | @find i path status deleted hpc hmap =>
    cases hp.status hpc
    have hm : Moves lib s.pc i (.removing path none deleted .found) :=
      hp.moves (.inr rfl) (by rw [hpc]; exact id) (.inl rfl) rfl
    exact h.take hm (by rw [hpc]; rfl) rfl (h.pos (o := .inl ()) hmap) (fun _ => hmap)
      (by rw [hpc]; nofun)
  | @lock i path status deleted hpc hfree =>
    cases hp.status hpc
    have hm : Moves lib s.pc i (.removing path none deleted .locked) :=
      ⟨.inr (.inr ⟨_, rfl, hfree⟩), fun _ => .inl (by rw [hpc]; rfl), nofun, rfl⟩
    exact h.quiet hm (by rw [hpc]; rfl) (fun _ => h.present i (by rw [hpc]; rfl))
      (by rw [hpc]; nofun)
  | @erase i path status deleted hpc =>
    cases hp.status hpc
    have hm : Moves lib s.pc i (.removing path none deleted .erased) :=
      hp.moves (.inl (by rw [hpc]; rfl)) (by rw [hpc]; exact id) (.inl rfl) rfl
    exact h.erase hm (by rw [hpc]; rfl) (by rw [hpc]; rfl) rfl (by rw [hpc]; nofun)
  | unlockRemoval hpc =>
    cases hp.status hpc
    exact h.plain hpc (.inr rfl) id (.inl rfl) rfl rfl id id
  | @reset i path status deleted hpc =>
    cases hp.status hpc
    have hm : Moves lib s.pc i (.returning (removed lib path none deleted)) :=
      hp.moves (.inr rfl) (by rw [hpc]; exact id) (.inl rfl) rfl
    exact h.letGo hm (by rw [hpc]; rfl) rfl nofun (by rw [hpc]; nofun)
  | unlockMap hpc => exact h.plain hpc (.inl rfl) nofun (.inl rfl) rfl rfl id id

theorem inv_inductive (lib : Maxminddb) (ι α : Type) [DecidableEq ι] :
    ((clients lib ι α).guarded (Careful lib)).Inductive (Inv lib) where
  init s hs := by
    obtain ⟨hcount, hmap, -, hintact, hidle⟩ := hs
    refine ⟨⟨?_, fun i j hi => ?_, fun i c hi => ?_, fun i => ?_⟩, ?_, fun i hi => ?_, .inl hintact⟩
    · exact RwLock.Exclusion.of_free fun i => by rw [hidle]; rfl
    · rw [hidle] at hi
      cases hi
    · rw [hidle] at hi
      cases hi
    · rw [hidle]
      rfl
    · rw [hcount]
      exact Counts.single (k := ()) (fun _ => by simp [hmap]) fun i => by rw [hidle]; rfl
    · exact hmap
  step _ _ _ hs hstep := hs.step hstep.1 hstep.2

end Invariant

end DistroDefender.Geo.Refreshing
