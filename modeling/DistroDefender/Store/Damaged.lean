import DistroDefender.Store.FileDriver
import DistroDefender.Store.Locking

/-!
# Damaged documents

`FileDriver::readDoc` catches exceptions, but the constructor of a document throws none: a parse
error is a state of the document, and the text is read as a C string. So a text that is not well
formed is read as null, or as the value in front of its first NUL (`readDoc_damaged`), and never
reported (`readDoc_reports_iff`).
-/

namespace DistroDefender.Store

open Base Lib Os

/-- The parser succeeds on the texts of the grammar `derives`, with the value derived; NUL is in
none of them. -/
structure Exact (R : Rapidjson) (derives : String → Json → Prop) : Prop where
  parse : ∀ text j, Char.ofNat 0 ∉ text.toList → (R.parse text = .ok j ↔ derives text j)
  noNul : ∀ text j, derives text j → Char.ofNat 0 ∉ text.toList

variable {R : Rapidjson} {derives : String → Json → Prop}

theorem document_of_derives (h : Exact R derives) {text : String} {j : Json}
    (hd : derives (cstr text) j) : R.document text = j := by
  unfold Rapidjson.document
  rw [(h.parse (cstr text) j (not_mem_cstr text)).mpr hd]

theorem document_of_not_derives (h : Exact R derives) {text : String}
    (hd : ¬ ∃ j, derives (cstr text) j) : R.document text = .null := by
  unfold Rapidjson.document
  cases hp : R.parse (cstr text) with
  | error e => rfl
  | ok j => exact absurd ⟨j, (h.parse (cstr text) j (not_mem_cstr text)).mp hp⟩ hd

namespace FileDriver

variable {d : FileDriver} {name : Name} {fs : Fs} {text : String}

/-- What is read of a file whose text is not well formed: the value before its first NUL, or
null. -/
theorem readDoc_damaged (h : Exact d.rapidjson derives)
    (hfile : fs.status (d.nameToPath name) = some (.file text)) :
    (∃ j, derives (cstr text) j ∧ d.readDoc name fs = .ok j) ∨
      (¬ ∃ j, derives (cstr text) j) ∧ d.readDoc name fs = .ok .null := by
  rw [readDoc_of_file hfile]
  by_cases hd : ∃ j, derives (cstr text) j
  · obtain ⟨j, hj⟩ := hd
    exact .inl ⟨j, hj, by rw [document_of_derives h hj]⟩
  · exact .inr ⟨hd, by rw [document_of_not_derives h hd]⟩

/-- `readDoc` returns the value of a well-formed text, and an error for every other text. -/
def Reports (d : FileDriver) (derives : String → Json → Prop) (name : Name) (fs : Fs)
    (text : String) : Prop :=
  (∀ j, d.readDoc name fs = .ok j ↔ derives text j) ∧
    ((¬ ∃ j, derives text j) → ∃ e, d.readDoc name fs = .error e)

/-- A file is read as it should be exactly when its text is well formed. -/
theorem readDoc_reports_iff (h : Exact d.rapidjson derives)
    (hfile : fs.status (d.nameToPath name) = some (.file text)) :
    d.Reports derives name fs text ↔ ∃ j, derives text j := by
  unfold Reports
  rw [readDoc_of_file hfile]
  constructor
  · intro hreports
    exact ⟨_, (hreports.1 (d.rapidjson.document text)).mp rfl⟩
  · rintro ⟨j, hj⟩
    have hwhole := cstr_of_not_mem (h.noNul text j hj)
    have hread := document_of_derives h (hwhole.symm ▸ hj)
    refine ⟨fun i => ⟨fun hi => ?_, fun hi => ?_⟩, fun hnone => absurd ⟨j, hj⟩ hnone⟩
    · cases hi
      rw [hread]
      exact hj
    · have hi' := document_of_derives h (hwhole.symm ▸ hi)
      rw [hi']

section Sample

/-- The texts of the three literals. -/
def Literal (text : String) (j : Json) : Prop :=
  (text = "true" ∧ j = .bool true) ∨ (text = "false" ∧ j = .bool false) ∨
  (text = "null" ∧ j = .null)

theorem literals_exact : Exact literals Literal where
  parse text j _ := by
    unfold literals Literal
    by_cases htrue : text = "true"
    · simp [htrue, eq_comm]
    · by_cases hfalse : text = "false"
      · simp [hfalse, eq_comm]
      · by_cases hnull : text = "null"
        · simp [hnull, eq_comm]
        · simp [htrue, hfalse, hnull]
  noNul text j h := by
    rcases h with ⟨rfl, -⟩ | ⟨rfl, -⟩ | ⟨rfl, -⟩ <;> decide

def literalDriver : FileDriver := ⟨"/store", literals⟩

/-- The file of a document with a text of one's own. -/
def holding (text : String) : Fs :=
  (Fs.set ⟨∅, []⟩ ["store"] .dir).set ["store", "decoder"] (.file text)

theorem status_holding (text : String) :
    (holding text).status (literalDriver.nameToPath decoderName) = some (.file text) := by
  rfl

/-- A file with the text "true". -/
theorem readDoc_reports_true : literalDriver.Reports Literal decoderName (holding "true") "true" :=
  (readDoc_reports_iff literals_exact (status_holding "true")).mpr ⟨.bool true, .inl ⟨rfl, rfl⟩⟩

theorem not_reports {text : String} (h : ¬ ∃ j, Literal text j) :
    ¬ literalDriver.Reports Literal decoderName (holding text) text := by
  intro hreports
  obtain ⟨e, he⟩ := hreports.2 h
  rw [readDoc_of_file (status_holding text)] at he
  cases he

/-- A file cut off after "tr", and one with more after a NUL: a document is returned for both. -/
theorem readDoc_returns_damaged :
    ¬ literalDriver.Reports Literal decoderName (holding "tr") "tr" ∧
      ¬ literalDriver.Reports Literal decoderName
        (holding (String.ofList ['t', 'r', 'u', 'e', Char.ofNat 0, 'x']))
        (String.ofList ['t', 'r', 'u', 'e', Char.ofNat 0, 'x']) := by
  refine ⟨not_reports ?_, not_reports ?_⟩
  · rintro ⟨j, hj⟩
    simp [Literal] at hj
  · rintro ⟨j, hj⟩
    exact literals_exact.noNul _ _ hj (by decide)

end Sample

end FileDriver

end DistroDefender.Store
