import DistroDefender.Base.Name
import DistroDefender.Base.StringUtils

/-!
# Catalog resources

A resource is a name with the type its first part says and whether its content is validated. The
constructor takes names of one to three parts.
-/

namespace DistroDefender.Catalog

open Base

inductive ResourceType where
  | UNKNOWN
  | DECODER
  | RULE
  | FILTER
  | OUTPUT
  | SCHEMA
  | COLLECTION
  | INTEGRATION
  deriving DecidableEq, Repr

def typeToStr : ResourceType → String
  | .DECODER => "decoder"
  | .RULE => "rule"
  | .FILTER => "filter"
  | .OUTPUT => "output"
  | .SCHEMA => "schema"
  | .COLLECTION => "collection"
  | .INTEGRATION => "integration"
  | .UNKNOWN => "unknown"

def strToType (type : String) : ResourceType :=
  if type = typeToStr .DECODER then .DECODER
  else if type = typeToStr .RULE then .RULE
  else if type = typeToStr .FILTER then .FILTER
  else if type = typeToStr .OUTPUT then .OUTPUT
  else if type = typeToStr .SCHEMA then .SCHEMA
  else if type = typeToStr .COLLECTION then .COLLECTION
  else if type = typeToStr .INTEGRATION then .INTEGRATION
  else .UNKNOWN

/-- The types whose content is an asset to validate. -/
def ResourceType.isAsset (type : ResourceType) : Bool :=
  type = .DECODER ∨ type = .RULE ∨ type = .FILTER ∨ type = .OUTPUT ∨ type = .INTEGRATION

/-- `Resource`. Its fields are public. -/
structure Resource where
  name : Name
  type : ResourceType
  validation : Bool
  deriving DecidableEq

/-- `Resource(const base::Name&)`. -/
def Resource.ofName (name : Name) : Except Throw Resource :=
  let type := strToType (cstr name.first)
  let invalid : Except Throw Resource :=
    .error (.runtimeError "Missing /type parameter or is invalid")
  match name.parts.length with
  | 1 | 2 => if type = .UNKNOWN then invalid else .ok ⟨name, .COLLECTION, false⟩
  | 3 =>
    if type = .UNKNOWN then invalid
    else if type = .COLLECTION then invalid
    else .ok ⟨name, type, type.isAsset⟩
  | _ => .error (.runtimeError
    s!"Invalid name \"{name.toStr}\" recieved, a name with 1, 2 or 3 parts was expected")

/-- A text that names a type is the text of that type. -/
theorem typeToStr_strToType {text : String} (h : strToType text ≠ .UNKNOWN) :
    typeToStr (strToType text) = text := by
  unfold strToType at h ⊢
  repeat' split at h
  all_goals simp_all

/-- What the constructor makes of a name. -/
theorem Resource.ofName_cases {name : Name} {r : Resource} (h : Resource.ofName name = .ok r) :
    strToType (cstr name.first) ≠ .UNKNOWN ∧
      ((name.parts.length ≤ 2 ∧ r = ⟨name, .COLLECTION, false⟩) ∨
        (name.parts.length = 3 ∧ strToType (cstr name.first) ≠ .COLLECTION ∧
          r = ⟨name, strToType (cstr name.first), (strToType (cstr name.first)).isAsset⟩)) := by
  unfold Resource.ofName at h
  split at h
  · rename_i hlen
    dsimp only at h
    split at h
    · cases h
    · rename_i htype
      cases h
      exact ⟨htype, .inl ⟨by omega, rfl⟩⟩
  · rename_i hlen
    dsimp only at h
    split at h
    · cases h
    · rename_i htype
      cases h
      exact ⟨htype, .inl ⟨by omega, rfl⟩⟩
  · rename_i hlen
    dsimp only at h
    split at h
    · cases h
    · split at h
      · cases h
      · rename_i htype hcol
        cases h
        exact ⟨htype, .inr ⟨hlen, hcol, rfl⟩⟩
  · cases h

/-- `Resource()`. -/
def Resource.default : Resource :=
  ⟨⟨["ERROR_NAME"], by decide, by decide, by decide⟩, .UNKNOWN, false⟩

/-- The resource is as a constructor makes it. -/
def Resource.Constructed (r : Resource) : Prop := r = .default ∨ Resource.ofName r.name = .ok r

end DistroDefender.Catalog
