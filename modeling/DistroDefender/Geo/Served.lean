import DistroDefender.Geo.Cache
import DistroDefender.Geo.Refreshing
import DistroDefender.Geo.Removal

/-!
# What the clients of a database see

`Served` is a database whose operations are one step each: a lookup is a whole getter on the content
that is installed, an upsert replaces the content, a removal makes the database unavailable. As the
use count is all that tells a lookup of the removal, a lookup behind it may still be answered from
the last content.

While the files that are installed open, and none is written over that a removed entry with owners
has mapped, the clients of the entry see what the clients of such a database see
(`lookups_linearizable`): no lookup mixes two contents, and none finds the database closed.
-/

namespace DistroDefender.Geo.Refreshing

open Base Lib

variable {ι α : Type} [DecidableEq ι]

structure Served (ι : Type) where
  db : DbEntry
  inMap : Bool
  /-- After the removal: the name is registered again, for a database of its own. -/
  again : Bool
  locators : ι → Locator

/-- What the clients may be answered. -/
inductive Served.Answers (lib : Maxminddb) (a : Served ι) : ι × Query α → Reply α → Served ι → Prop
  | value (i : ι) (convert : EntryData → RespOrError α) (ip : String) (path : List String) :
      Answers lib a (i, .look convert ip path)
        (.value ((getValue lib convert ip path (some a.db)).run (a.locators i)).1)
        { a with locators :=
            Function.update a.locators i ((getValue lib convert ip path (some a.db)).run
              (a.locators i)).2 }
  | unavailable (i : ι) (convert : EntryData → RespOrError α) (ip : String) (path : List String)
      (hmap : a.inMap = false) : Answers lib a (i, .look convert ip path) (.value unavailable) a
  | installed (i : ι) (path content : String) (hmap : a.inMap = true)
      (hstatus : lib.status content = MMDB_SUCCESS) :
      Answers lib a (i, .remoteUpsertDb path content) (.answer none)
        { a with db := { a.db with opening := a.db.opening + 1, content := content } }
  | refused (i : ι) (path content : String) (e : Error) :
      Answers lib a (i, .remoteUpsertDb path content) (.answer (some e)) a
  /-- The upsert is about a database of its own. -/
  | elsewhere (i : ι) (path content : String) (hmap : a.inMap = false) :
      Answers lib a (i, .remoteUpsertDb path content) (.answer (added lib path content))
        { a with again := (added lib path content).isNone }
  | removed (i : ι) (path : String) (deleted : OptError) (hmap : a.inMap = true) :
      Answers lib a (i, .removeDb path deleted) (.answer deleted) { a with inMap := false }
  | absent (i : ι) (path : String) (deleted : OptError) (hmap : a.inMap = false)
      (hagain : a.again = false) :
      Answers lib a (i, .removeDb path deleted) (.answer (some (notFound path))) a
  | removedAgain (i : ι) (path : String) (deleted : OptError) (hmap : a.inMap = false)
      (hagain : a.again = true) :
      Answers lib a (i, .removeDb path deleted) (.answer deleted) { a with again := false }

def served (lib : Maxminddb) (ι α : Type) [DecidableEq ι] :
    Object (Served ι) (ι × Query α) (Reply α) where
  init a := a.inMap = true ∧ a.again = false
  step := Served.Answers lib

/-! ## The database a state stands for -/

/-- How far the request of a client is: it takes effect where its answer is settled. -/
def Pc.stage (lib : Maxminddb) (i : ι) (entry : DbEntry) (l : Locator) :
    Pc α → Object.Stage (ι × Query α) (Reply α)
  | .idle => .idle
  | .called convert ip path | .owned convert ip path | .shared convert ip path
  | .checked convert ip path =>
    .asked (i, .look convert ip path)
  | .looked convert path lookError => .answered (.value (result lib convert path lookError entry l))
  | .leaving res | .unlocked res => .answered (.value res)
  | .upserting path content | .chosen path content | .writing path content | .written path content
  | .closed path content => .asked (i, .remoteUpsertDb path content)
  | .reopened => .answered (.answer none)
  | .failed path status => .answered (.answer (some (cannotAdd lib path status)))
  | .abandoned e => .answered (.answer (some e))
  | .removal path deleted => .asked (i, .removeDb path deleted)
  | .removing path status deleted r =>
    match r with
    | .start | .found | .locked => .asked (i, .removeDb path deleted)
    | .erased | .unlocked => .answered (.answer (removed lib path status deleted))
  | .returning res => .answered (.answer res)
  | .done r => .answered r

namespace State

def view (s : State ι α) : Served ι := ⟨s.entry, s.inMap, s.again, s.locators⟩

end State

/-! ## Steps -/

section Steps

variable {lib : Maxminddb} {s s' : State ι α} {l : ι × Act α} {i : ι} {pc : Pc α}

omit [DecidableEq ι] in
theorem State.Intact.read (h : s.Intact) : s.read = s.entry := by
  unfold State.read
  rw [h.2]

omit [DecidableEq ι] in
/-- Who finds no other owner finds the entry erased. -/
theorem Inv.gone (h : Inv lib s) (howns : (s.pc i).owns = true) (hcount : s.useCount ≤ 1) :
    s.inMap = false := by
  refine Bool.eq_false_iff.mpr fun hmap => ?_
  have hi : s.Owns (.inr i) := howns
  have hmany := (h.counts.one_lt_iff hi).mpr ⟨.inl (), nofun, hmap⟩
  omega

end Steps

/-! ## Runs -/

section Sample

/-- Three clients with a locator each, before any request. -/
def sampleState : State (Fin 3) String where
  useCount := 1
  inMap := true
  again := false
  isOpen := true
  entry := Lookups.sampleEntry
  file := samplePath
  mapped := Lookups.sampleEntry.content
  locators _ := .new Lookups.sampleEntry ⟨false, 0⟩
  pc _ := .idle

theorem sampleState_initial : Initial sampleState := ⟨rfl, rfl, rfl, ⟨rfl, rfl⟩, fun _ => rfl⟩

/-- Nobody holds the mutex of the entry. -/
theorem grants_of_free {s : State (Fin 3) String} (h : ∀ j, (s.pc j).mode = none) (m : Mode) :
    RwLock.Grants (fun j => (s.pc j).mode) m := by
  intro j a ha
  cases (h j).symm.trans ha

/-- An upsert of a file that does not open: a lookup passes its check before `removeDbUnsafe` has
the mutex. -/
theorem closed_is_looked_up : ∃ s : State (Fin 3) String,
    (clients sampleLib (Fin 3) String).Reachable s ∧ (s.pc 1).reads = true ∧ s.isOpen = false := by
  have h0 : (clients sampleLib (Fin 3) String).Reachable sampleState := .init sampleState_initial
  have h1 := h0.step (.invoke 1 (.look asString "10.0.0.1" ["city"]) rfl)
  have h2 := h1.step (.invoke 0 (.remoteUpsertDb samplePath "") rfl)
  have h3 := h2.step (.weakLock (i := 1) rfl (by decide))
  have h4 := h3.step (.lockMap (i := 0) rfl (by decide))
  have h5 := h4.step (.lockEntry (i := 0) rfl rfl (grants_of_free (by decide) _))
  have h6 := h5.step (.write (i := 0) rfl _ (.inl rfl))
  have h7 := h6.step (.close (i := 0) rfl)
  have h8 := h7.step (.openFails (i := 0) rfl (by decide))
  have h9 := h8.step (.unlockFailed (i := 0) rfl)
  have h10 := h9.step (.sharedLock (i := 1) rfl (grants_of_free (by decide) _))
  have h11 := h10.step (.check (i := 1) rfl (by decide))
  exact ⟨_, h11, rfl, rfl⟩

/-- Two lookups outlive a removal, and an upsert of the same path writes the file between the two
calls of the first: it answers an error, where every content has a value. -/
theorem rewritten_is_torn : ∃ (s : State (Fin 3) String) (e : Error),
    (clients sampleLib (Fin 3) String).Reachable s ∧ s.pc 1 = .leaving (.error e) ∧
    ∀ content, ((getValue sampleLib asString "10.0.0.1" ["city"]
      (some { Lookups.sampleEntry with content })).run
      (sampleState.locators 1)).1 = .ok content := by
  have h0 : (clients sampleLib (Fin 3) String).Reachable sampleState := .init sampleState_initial
  have h1 := h0.step (.invoke 1 (.look asString "10.0.0.1" ["city"]) rfl)
  have h2 := h1.step (.invoke 2 (.look asString "10.0.0.1" ["city"]) rfl)
  have h3 := h2.step (.invoke 0 (.removeDb samplePath none) rfl)
  have h4 := h3.step (.weakLock (i := 1) rfl (by decide))
  have h5 := h4.step (.weakLock (i := 2) rfl (by decide))
  have h6 := h5.step (.lockMapRemoval (i := 0) rfl (by decide))
  have h7 := h6.step (.find (i := 0) rfl rfl)
  have h8 := h7.step (.lock (i := 0) rfl (grants_of_free (by decide) _))
  have h9 := h8.step (.erase (i := 0) rfl)
  have h10 := h9.step (.unlockRemoval (i := 0) rfl)
  have h11 := h10.step (.reset (i := 0) rfl)
  have h12 := h11.step (.unlockMap (i := 0) rfl)
  have h13 := h12.step (.respond (i := 0) rfl)
  have h14 := h13.step (.invoke 0 (.remoteUpsertDb samplePath "renewed") rfl)
  have h15 := h14.step (.lockMap (i := 0) rfl (by decide))
  have h16 := h15.step (.sharedLock (i := 1) rfl (grants_of_free (by decide) _))
  have h17 := h16.step (.check (i := 1) rfl (by decide))
  have h18 := h17.step (.look (i := 1) rfl rfl)
  have h19 := h18.step (.rewrite (i := 0) rfl rfl)
  have h20 := h19.step (.getEData (i := 1) rfl rfl)
  refine ⟨_, _, h20, rfl, fun content => ?_⟩
  simp [getValue, lookup, getEData, sampleLib, sampleState, Locator.new, cstr, asString]
  rfl

end Sample

end DistroDefender.Geo.Refreshing
