import DistroDefender.Geo.Registry
import DistroDefender.Os.Stream
import DistroDefender.Store.FileDriver
import DistroDefender.Store.Locking

/-!
# The writers of files

`FileDriver::createDoc`, `FileDriver::updateDoc` and `geo::Manager::writeDb` open a stream, write
their text and leave the close to the destructor. None of them looks at the state of the stream
after the write, so success means that the text is there only where the stream failed nowhere before
its end (`complete_iff`).
-/

namespace DistroDefender.Geo

open Base Lib Os Store

/-- The calls of an operation of the manager whose writing goes as the stream does. -/
def Outcomes.streaming (o : Outcomes) (s : StreamIo) : Outcomes :=
  { o with openWrite := s.opens, shortWrite := s.short }

theorem Outcomes.stored_streaming (o : Outcomes) (s : StreamIo) (text : String) :
    (o.streaming s).stored text = s.written text := by
  rw [StreamIo.written_eq]
  rfl

/-- A call of a writer, in the state it starts from. -/
inductive Write (τ : Type) where
  | createDoc (d : FileDriver) (fs : Fs) (name : Name) (content : Doc)
  | updateDoc (d : FileDriver) (fs : Fs) (name : Name) (content : Doc)
  | writeDb (w : World τ) (path content : String)

namespace Write

variable {τ : Type}

/-- The text to write. -/
def text : Write τ → String
  | .createDoc d _ _ content => d.rapidjson.print content
  | .updateDoc d _ _ content => d.rapidjson.print content
  | .writeDb _ _ content => content

/-- When no error is returned, the file at the path holds the text. -/
def Complete (io : Io) (o : Outcomes) (s : StreamIo) : Write τ → Prop
  | .createDoc d fs name content =>
    ∀ fs', (d.createDoc (io.streaming s) name content).run fs = .ok none fs' →
    fs'.status (d.nameToPath name) = some (.file (d.rapidjson.print content))
  | .updateDoc d fs name content =>
    ∀ fs', (d.updateDoc (io.streaming s) name content).run fs = .ok none fs' →
    fs'.status (d.nameToPath name) = some (.file (d.rapidjson.print content))
  | .writeDb w path content =>
    ∀ w', (Manager.writeDb (o.streaming s) path content).run w = .ok none w' →
    w'.files path = some content

/-- A path leads to something that can be opened as a file. -/
def FileOpens (s : StreamIo) (fs : Fs) (path : Path) : Prop :=
  s.opens = true ∧ ∃ l, fs.locate path = some l ∧ fs.node l ≠ some .dir

/-- The request is not refused, and its file opens. -/
def Opens (io : Io) (o : Outcomes) (s : StreamIo) : Write τ → Prop
  | .createDoc d fs name content =>
    content.checkDuplicateKeys = none ∧ fs.pathExists (d.nameToPath name) = false ∧
      ∃ fs₁, (createDirectories (io.streaming s) (parentPath (d.nameToPath name))).run fs =
        .ok none fs₁ ∧ FileOpens s fs₁ (d.nameToPath name)
  | .updateDoc d fs name content =>
    content.checkDuplicateKeys = none ∧ fs.pathExists (d.nameToPath name) = true ∧
      fs.isDirectory (d.nameToPath name) = false ∧ FileOpens s fs (d.nameToPath name)
  | .writeDb _ path _ => o.createDirectories = none ∧ s.opens = true ∧ filename path ≠ ""

/-! ## Each writer -/

section Writers

variable {d : FileDriver} {io : Io} {o : Outcomes} {s : StreamIo}

theorem writeFile_complete_iff (d : FileDriver) (io : Io) (s : StreamIo) (path : Path)
    (content : Doc) (fs : Fs) :
    (∀ fs', (d.writeFile (io.streaming s) path content).run fs = .ok none fs' →
      fs'.status path = some (.file (d.rapidjson.print content))) ↔
      ¬ FileOpens s fs path ∨ s.Whole (d.rapidjson.print content) := by
  rcases FileDriver.writeFile_cases d (io.streaming s) path content fs with
    ⟨⟨e, hrun⟩, hwhy⟩ | ⟨l, hl, hdir, hopen, hrun⟩
  · refine iff_of_true (fun fs' heq => ?_) (.inl ?_)
    · cases hrun.symm.trans heq
    · rintro ⟨hopens, l, hl, hdir⟩
      rcases hwhy with hnone | hclosed | ⟨l', hl', hdir'⟩
      · cases hnone.symm.trans hl
      · cases hclosed.symm.trans hopens
      · cases hl.symm.trans hl'
        exact hdir hdir'
  · have hopens : FileOpens s fs path := ⟨hopen, l, hl, hdir⟩
    have hfirst :
        ((fs.set l (.file "")).set l (.file (s.written (d.rapidjson.print content)))).status path =
        some (.file (s.written (d.rapidjson.print content))) := by
      refine Fs.status_set_file (Fs.locate_set_file hl hdir _) ?_ _
      rw [Fs.node_set fs (by rintro rfl; exact hdir rfl), if_pos rfl]
      simp
    rw [Io.stored_streaming] at hrun
    rw [hrun, ← StreamIo.written_eq_iff]
    constructor
    · intro h
      have hstatus := hfirst.symm.trans (h _ rfl)
      simp only [Option.some.injEq, Node.file.injEq] at hstatus
      exact .inr hstatus
    · intro h fs' heq
      cases heq
      rw [hfirst, h.resolve_left (not_not.mpr hopens)]

theorem createDoc_complete_iff (d : FileDriver) (io : Io) (o : Outcomes) (s : StreamIo) (fs : Fs)
    (name : Name) (content : Doc) :
    (createDoc d fs name content : Write τ).Complete io o s ↔
      ¬ (createDoc d fs name content : Write τ).Opens io o s ∨
      s.Whole (d.rapidjson.print content) := by
  simp only [Complete, Opens]
  rcases FileDriver.createDoc_cases d (io.streaming s) name content fs with
    ⟨hrefused, e, hrun⟩ | ⟨hkeys, hnew, hmade⟩
  · refine iff_of_true (fun fs' heq => ?_) (.inl ?_)
    · cases hrun.symm.trans heq
    · rintro ⟨hkeys, hnew, -⟩
      rcases hrefused with hkeys' | hexists
      · exact hkeys' hkeys
      · cases hnew.symm.trans hexists
  · cases hdirs : (createDirectories (io.streaming s) (parentPath (d.nameToPath name))).run fs with
    | error e fs₁ =>
      have hrun : (d.createDoc (io.streaming s) name content).run fs = .error e fs₁ := by
        unfold FileDriver.createDoc
        simp only [hkeys]
        rw [EStateM.run_bind, EStateM.run_get]
        simp only [hnew, Bool.false_eq_true, if_false]
        rw [EStateM.run_bind, hdirs]
      refine iff_of_true (fun fs' heq => ?_) (.inl ?_)
      · cases hrun.symm.trans heq
      · rintro ⟨-, -, fs₁, hok, -⟩
        cases hok
    | ok ec fs₁ =>
      rcases hmade ec fs₁ hdirs with ⟨hec, e, hrun⟩ | ⟨rfl, hrun⟩
      · refine iff_of_true (fun fs' heq => ?_) (.inl ?_)
        · cases hrun.symm.trans heq
        · rintro ⟨-, -, fs₂, hok, -⟩
          cases hok
          exact hec rfl
      · rw [hrun, writeFile_complete_iff]
        refine or_congr_left (not_congr ?_)
        constructor
        · intro hopens
          exact ⟨hkeys, hnew, fs₁, rfl, hopens⟩
        · rintro ⟨-, -, fs₂, hok, hopens⟩
          cases hok
          exact hopens

theorem updateDoc_complete_iff (d : FileDriver) (io : Io) (o : Outcomes) (s : StreamIo) (fs : Fs)
    (name : Name) (content : Doc) :
    (updateDoc d fs name content : Write τ).Complete io o s ↔
      ¬ (updateDoc d fs name content : Write τ).Opens io o s ∨
      s.Whole (d.rapidjson.print content) := by
  simp only [Complete, Opens]
  rw [FileDriver.run_updateDoc]
  cases hkeys : content.checkDuplicateKeys with
  | some e => exact iff_of_true nofun (.inl nofun)
  | none =>
    cases hexists : fs.pathExists (d.nameToPath name) with
    | false => exact iff_of_true nofun (.inl nofun)
    | true =>
      cases hdir : fs.isDirectory (d.nameToPath name) with
      | true => exact iff_of_true nofun (.inl nofun)
      | false =>
        simp only [Bool.true_eq_false, Bool.false_eq_true, if_false, true_and]
        exact writeFile_complete_iff d io s (d.nameToPath name) content fs

theorem writeDb_complete_iff (io : Io) (o : Outcomes) (s : StreamIo) (w : World τ)
    (path content : String) :
    (writeDb w path content).Complete io o s ↔
      ¬ (writeDb w path content).Opens io o s ∨ s.Whole content := by
  simp only [Complete, Opens]
  unfold Manager.writeDb
  have hdirs : (o.streaming s).createDirectories = o.createDirectories := rfl
  have hopen : (o.streaming s).openWrite = s.opens := rfl
  rw [hdirs, hopen]
  cases o.createDirectories with
  | some e => exact iff_of_true nofun (.inl nofun)
  | none =>
    by_cases hopens : s.opens = true ∧ filename path ≠ ""
    · have hrefused : ¬ ((!s.opens) = true ∨ filename path = "") := by simp [hopens.1, hopens.2]
      have hwrote : (Manager.wrote (o.streaming s) w path content).files path =
          some (s.written content) := by
        unfold Manager.wrote
        rw [Outcomes.stored_streaming]
        exact Function.update_self path _ w.files
      simp only [if_neg hrefused]
      rw [← StreamIo.written_eq_iff]
      constructor
      · intro h
        have hfiles := hwrote.symm.trans (h _ rfl)
        exact .inr (Option.some.inj hfiles)
      · intro h w' heq
        cases heq
        rw [hwrote, h.resolve_left (not_not.mpr ⟨trivial, hopens⟩)]
    · have hrefused : (!s.opens) = true ∨ filename path = "" := by
        cases hs : s.opens with
        | false => exact .inl rfl
        | true => exact .inr (by simpa [hs] using hopens)
      simp only [if_pos hrefused]
      exact iff_of_true nofun (.inl fun h => hopens h.2)

end Writers

/-- Success means that the text is there exactly where the file is not opened, or nothing fails
before the end of the text. -/
theorem complete_iff (io : Io) (o : Outcomes) (s : StreamIo) (x : Write τ) :
    x.Complete io o s ↔ ¬ x.Opens io o s ∨ s.Whole x.text := by
  cases x with
  | createDoc d fs name content => exact createDoc_complete_iff d io o s fs name content
  | updateDoc d fs name content => exact updateDoc_complete_iff d io o s fs name content
  | writeDb w path content => exact writeDb_complete_iff io o s w path content

section Sample

/-- The file opens, the write fits the buffer, and there is no space left when the close flushes
it. -/
def deviceFull : StreamIo := ⟨true, none, some 0⟩

def sampleDriver : FileDriver := ⟨"/store", literals⟩

/-- A file system with the directory of the store. -/
def storeDir : Fs := ⟨(∅ : Map Loc Node).insert ["store"] .dir, []⟩

def quiet : Outcomes := .well "mmdb" "md5"

def noDbs : World Unit := ⟨∅, ∅, (), fun _ => none, 0⟩

/-- The driver and the manager report success, and the file is empty. -/
theorem full_device_succeeds :
    (∃ fs, (sampleDriver.createDoc (Io.calm.streaming deviceFull) decoderName (.bool true)).run
      storeDir = .ok none fs ∧ fs.status "/store/decoder" = some (.file "")) ∧
    (∃ w, (Manager.writeDb (quiet.streaming deviceFull) "/geo.mmdb" "mmdb").run noDbs = .ok none w ∧
      w.files "/geo.mmdb" = some "") ∧
    ¬ (createDoc sampleDriver storeDir decoderName (.bool true) : Write Unit).Complete Io.calm quiet
      deviceFull ∧
    ¬ (writeDb noDbs "/geo.mmdb" "mmdb").Complete Io.calm quiet deviceFull := by
  have hshort : deviceFull.short = some 0 := rfl
  have hcreate :
      (createDoc sampleDriver storeDir decoderName (.bool true) : Write Unit).Opens Io.calm quiet
        deviceFull :=
    ⟨rfl, by decide +kernel, storeDir, rfl, rfl, ["store", "decoder"], by decide +kernel,
      by decide +kernel⟩
  have hdb : (writeDb noDbs "/geo.mmdb" "mmdb").Opens Io.calm quiet deviceFull :=
    ⟨rfl, rfl, by decide +kernel⟩
  refine ⟨⟨_, rfl, by decide +kernel⟩, ⟨_, rfl, by decide +kernel⟩, fun h => ?_, fun h => ?_⟩
  · have hwhole := ((createDoc_complete_iff _ _ _ _ _ _ _).mp h).resolve_left (not_not.mpr hcreate)
    exact absurd (hwhole 0 hshort) (by decide)
  · have hwhole := ((writeDb_complete_iff _ _ _ _ _ _).mp h).resolve_left (not_not.mpr hdb)
    exact absurd (hwhole 0 hshort) (by decide)

end Sample

end Write

end DistroDefender.Geo
