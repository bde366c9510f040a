import DistroDefender.Geo.Reconstruct

/-!
# Refused removals

`removeDb` takes the database out of both maps before it deletes the internal document, so an error
of the delete is returned for a database that is gone (`removeDb_settled_iff`). The removal does
what its answer says exactly when no database has the name, or the delete returns no error.
-/

namespace DistroDefender.Geo

open Base Lib Os Store Manager

variable {τ : Type}

/-- Every question finds what it found before. -/
structure Unchanged (S : InternalStore τ) (w w' : World τ) : Prop where
  listed : listDbs w' = listDbs w
  located : ∀ type memory, getLocator w' type memory = getLocator w type memory
  /-- What a locator obtained before holds on to. -/
  locked : ∀ id, w'.lock id = w.lock id
  stored : S.docs w'.store = S.docs w.store

/-- The database is gone, its type is free and its document does not exist. -/
structure Removed (S : InternalStore τ) (w : World τ) (path : String) (w' : World τ) : Prop where
  listed : ∀ info ∈ listDbs w', info.name ≠ filename path
  freed : ∀ entry, w.dbs.lookup (filename path) = some entry → w'.dbTypes.lookup entry.type = none
  deleted : ∀ n, internalName (filename path) = .ok n → S.docs w'.store n = none

/-- What `removeDb` leaves is what it answers. -/
def Settled (S : InternalStore τ) (w : World τ) (path : String) :
    EStateM.Result Throw (World τ) OptError → Prop
  | .ok (some _) w' => Unchanged S w w'
  | .ok none w' => Removed S w path w'
  | .error _ _ => True

/-- The internal delete returns an error. -/
def DeleteFails (S : InternalStore τ) (w : World τ) (path : String) : Prop :=
  ∃ n e t, internalName (filename path) = .ok n ∧
    (S.deleteInternalDoc n).run w.store = .ok (some e) t

section

variable {S : InternalStore τ} {mmdb : Maxminddb} {toStrPretty : Json → String} {w : World τ}
  {path : String}

def internalDeps (S : InternalStore τ) (mmdb : Maxminddb) (toStrPretty : Json → String) : Deps τ :=
  ⟨S.toIStoreInternal, mmdb, toStrPretty⟩

/-- A registered database leaves the maps, whatever the store answers. -/
theorem run_removeDb {entry : DbEntry} {n : Name} (h : w.dbs.lookup (filename path) = some entry)
    (hn : internalName (filename path) = .ok n) :
    (removeDb (internalDeps S mmdb toStrPretty) path).run w =
      match (S.deleteInternalDoc n).run w.store with
      | .ok r t => .ok r { unregister w (filename path) with store := t }
      | .error e t => .error e { unregister w (filename path) with store := t } := by
  unfold removeDb removeDbUnsafe removeInternalEntry
  rw [EStateM.run_bind, EStateM.run_get]
  simp only [h, hn]
  change (onStore (S.deleteInternalDoc n)).run (unregister w (filename path)) = _
  have hstore : (unregister w (filename path)).store = w.store := rfl
  unfold onStore
  rw [run_onPart, hstore]
  cases (S.deleteInternalDoc n).run w.store <;> rfl

theorem run_removeDb_unknown (h : w.dbs.lookup (filename path) = none) :
    (removeDb (internalDeps S mmdb toStrPretty) path).run w =
      .ok (some ⟨s!"Database '{filename path}' not found"⟩) w := by
  unfold removeDb removeDbUnsafe
  rw [EStateM.run_bind, EStateM.run_get]
  simp only [h]
  rfl

theorem Unchanged.refl (S : InternalStore τ) (w : World τ) : Unchanged S w w :=
  ⟨rfl, fun _ _ => rfl, fun _ => rfl, rfl⟩

theorem not_listed_unregister (t : τ) :
    ∀ info ∈ listDbs { unregister w (filename path) with store := t },
      info.name ≠ filename path := by
  intro info hinfo hname
  obtain ⟨entry, hentry, -⟩ := mem_listDbs.mp hinfo
  have hlookup : (w.dbs.erase (filename path)).lookup info.name = some entry := hentry
  rw [Map.lookup_erase_eq, if_pos hname] at hlookup
  cases hlookup

/-- A removal that succeeds in the store. -/
theorem removed_unregister (hinv : Inverse w) {entry : DbEntry} {n : Name} {t : τ}
    (h : w.dbs.lookup (filename path) = some entry) (hn : internalName (filename path) = .ok n)
    (hrun : (S.deleteInternalDoc n).run w.store = .ok none t) :
    Removed S w path { unregister w (filename path) with store := t } where
  listed := not_listed_unregister t
  freed entry' hentry' := by
    cases h.symm.trans hentry'
    cases htype : (unregister w (filename path)).dbTypes.lookup entry.type with
    | none => rfl
    | some name =>
      obtain ⟨entry', hentry', hsame⟩ := (inverse_unregister hinv h entry.type name).mp htype
      have hlookup : (w.dbs.erase (filename path)).lookup name = some entry' := hentry'
      rw [Map.lookup_erase_eq] at hlookup
      split at hlookup
      · cases hlookup
      · rename_i hne
        exact absurd (hinv.consistent.one name (filename path) entry' entry hlookup h hsame) hne
  deleted n' hn' := by
    cases hn.symm.trans hn'
    have happlies := S.delete_applies w.store n
    rw [hrun] at happlies
    change S.docs t n = none
    rw [happlies.2, Function.update_self]

/-- What `removeDb` leaves is what it answers exactly when no database has the name, or the internal
delete returns no error. -/
theorem removeDb_settled_iff (S : InternalStore τ) (mmdb : Maxminddb) (toStrPretty : Json → String)
    (w : World τ) (path : String)
    (hreach : (system (internalDeps S mmdb toStrPretty)).Reachable w) :
    Settled S w path ((removeDb (internalDeps S mmdb toStrPretty) path).run w) ↔
      w.dbs.lookup (filename path) = none ∨ ¬ DeleteFails S w path := by
  have hinv := inverse_of_reachable hreach
  cases hname : w.dbs.lookup (filename path) with
  | none =>
    rw [run_removeDb_unknown hname]
    exact iff_of_true (Unchanged.refl S w) (.inl rfl)
  | some entry =>
    obtain ⟨n, hn⟩ := internalName_ok path
    rw [run_removeDb hname hn, or_iff_right (Option.some_ne_none entry)]
    rcases hrun : (S.deleteInternalDoc n).run w.store with ⟨_ | e, t⟩ | ⟨e, t⟩
    · refine iff_of_true (removed_unregister hinv hname hn hrun) ?_
      rintro ⟨n', e, t', hn', hrun'⟩
      cases hn.symm.trans hn'
      cases hrun.symm.trans hrun'
    · refine iff_of_false ?_ (fun h => h ⟨n, e, t, hn, hrun⟩)
      intro h
      have hlisted : (⟨filename path, entry.path, entry.type⟩ : DbInfo) ∈ listDbs w :=
        mem_listDbs.mpr ⟨entry, hname, rfl, rfl⟩
      rw [← h.listed] at hlisted
      exact not_listed_unregister t _ hlisted rfl
    · refine iff_of_true trivial ?_
      rintro ⟨n', e', t', hn', hrun'⟩
      cases hn.symm.trans hn'
      cases hrun.symm.trans hrun'

end

section Sample

def plainDeps : Deps (Store MemTree) := internalDeps sampleStore sampleLib fun _ => ""

/-- The hash of the file cannot be computed when it is added, so that it has no document. -/
def unhashed : Outcomes :=
  { Outcomes.well "old" "hash" with computeMD5 := fun _ _ => .error ⟨"digest"⟩ }

def unhashedWorld : World (Store MemTree) :=
  resultState ((addDb plainDeps unhashed samplePath .CITY).run sampleStart)

theorem unhashedWorld_reachable : (system plainDeps).Reachable unhashedWorld :=
  sampleStart_reachable.step (.call (.addDb samplePath .CITY) unhashed)

/-- The database has a document, which is deleted. -/
theorem sampleWorld_settled : Settled sampleStore sampleWorld samplePath
    ((removeDb plainDeps samplePath).run sampleWorld) := by
  refine (removeDb_settled_iff sampleStore sampleLib (fun _ => "") sampleWorld samplePath
    sampleWorld_reachable).mpr (.inr ?_)
  rintro ⟨n, e, t, hn, hrun⟩
  have hname : internalName (filename samplePath) =
      .ok ⟨["geo", "city.mmdb"], by decide, by decide, by decide⟩ := by decide +kernel
  cases hname.symm.trans hn
  obtain ⟨t', hdeleted⟩ : ∃ t', (sampleStore.deleteInternalDoc
      ⟨["geo", "city.mmdb"], by decide, by decide, by decide⟩).run sampleWorld.store =
      .ok none t' := ⟨_, rfl⟩
  cases hdeleted.symm.trans hrun

/-- The delete finds no document: an error is returned, and the database is not listed any more. -/
theorem unhashed_removed : (system plainDeps).Reachable unhashedWorld ∧
    ¬ Settled sampleStore unhashedWorld samplePath
      ((removeDb plainDeps samplePath).run unhashedWorld) := by
  refine ⟨unhashedWorld_reachable, fun h => ?_⟩
  obtain ⟨e, w', hrun, hgone⟩ : ∃ e w', (removeDb plainDeps samplePath).run unhashedWorld =
      .ok (some e) w' ∧ listDbs w' = [] := ⟨_, _, rfl, by decide +kernel⟩
  have hlisted : listDbs unhashedWorld = [⟨"city.mmdb", samplePath, .CITY⟩] := by decide +kernel
  rw [hrun] at h
  have hsame := h.listed
  rw [hgone, hlisted] at hsame
  cases hsame

end Sample

end DistroDefender.Geo
