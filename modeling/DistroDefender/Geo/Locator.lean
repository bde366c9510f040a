import DistroDefender.Base.Json

/-!
# Locators

A `geo::Locator` answers questions about ip addresses from one database entry. The entry holds the
database that was opened last; the locator keeps the result of its last lookup and asks for it again
only when the address differs. libmaxminddb is a family of functions of the content of the database
that is open (`Maxminddb`).
-/

namespace DistroDefender.Geo

open Base

/-- `geo::Type`. -/
inductive DbType where
  | CITY
  | ASN
  deriving DecidableEq, Repr

def typeName : DbType → String
  | .CITY => "city"
  | .ASN => "asn"

def typeFromName (name : String) : Except Throw DbType :=
  if name = typeName .CITY then .ok .CITY
  else if name = typeName .ASN then .ok .ASN
  else .error (.logicError s!"Invalid geo::Type name string '{name}'")

/-! ## libmaxminddb -/

/-- `MMDB_lookup_result_s`: the entry is an offset in the database that is open. -/
structure LookupResult where
  found_entry : Bool
  entry : Nat
  deriving DecidableEq, Repr

/-- `MMDB_entry_data_s`, with its type. A double is its bits, and so is a float, widened. -/
inductive EntryData where
  | utf8_string (s : String)
  | bytes (bs : List UInt8)
  | double_value (bits : UInt64)
  | float_value (bits : UInt64)
  | uint16 (n : UInt16)
  | uint32 (n : UInt32)
  | boolean (b : Bool)
  | uint64 (n : UInt64)
  | uint128 (n : BitVec 128)
  | int32 (n : Int32)
  | map
  | array
  | other
  deriving DecidableEq

def MMDB_SUCCESS : Int := 0

def MMDB_FILE_OPEN_ERROR : Int := 1

/-- What libmaxminddb does with the content of a database. -/
structure Maxminddb where
  /-- The status of opening a file with this content. -/
  status : String → Int
  strerror : Int → String
  gai_strerror : Int → String
  /-- The result for an address, with `gai_error` and `mmdb_error`. -/
  lookup_string : String → String → LookupResult × Int × Int
  /-- The value at a path in an entry, or a status. -/
  aget_value : String → Nat → List String → Except Int EntryData

/-! ## Locators -/

/-- `geo::DbEntry`: an object, and the database it has open. `opening` numbers the openings. -/
structure DbEntry where
  id : Nat
  path : String
  type : DbType
  opening : Nat
  content : String
  deriving DecidableEq

/-- `geo::Locator`. `cachedFrom` is not in the source: it is the opening of the database that the
cached result is from, if there was a lookup. -/
structure Locator where
  weakDbEntry : Nat
  cachedIp : String
  cachedResult : LookupResult
  cachedFrom : Option Nat
  deriving DecidableEq

/-- `Locator::Locator`. The constructor leaves `cachedResult_` as the memory was. -/
def Locator.new (dbEntry : DbEntry) (memory : LookupResult) : Locator :=
  ⟨dbEntry.id, "", memory, none⟩

variable (lib : Maxminddb)

def lookup (ip : String) (entry : DbEntry) : StateM Locator OptError := do
  if ip = (← get).cachedIp then
    return none
  let (result, gai_error, mmdb_error) := lib.lookup_string entry.content (cstr ip)
  if gai_error ≠ 0 then
    return some ⟨s!"Error translating IP address {ip}: {lib.gai_strerror gai_error}"⟩
  if mmdb_error ≠ MMDB_SUCCESS then
    return some ⟨s!"Error from libmaxminddb: {lib.strerror mmdb_error}"⟩
  modify fun l =>
    { l with cachedIp := ip, cachedResult := result, cachedFrom := some entry.opening }
  return none

/-- `Locator::getEData`: the offset of the cached result, in the database that is open now. -/
def getEData (path : List String) (entry : DbEntry) : StateM Locator (RespOrError EntryData) := do
  if !(← get).cachedResult.found_entry then
    return .error ⟨"No data found for the IP address"⟩
  match lib.aget_value entry.content (← get).cachedResult.entry (path.map cstr) with
  | .error status => return .error ⟨s!"Error getting value: {lib.strerror status}"⟩
  | .ok eData => return .ok eData

/-- What the four getters share: the entry is locked, the address looked up, and the value at the
path converted. -/
def getValue {α : Type} (convert : EntryData → RespOrError α) (ip : String) (path : List String)
    (entry : Option DbEntry) : StateM Locator (RespOrError α) := do
  match entry with
  | none => return .error ⟨"Database is not available"⟩
  | some entry =>
    match ← lookup lib ip entry with
    | some lookError => return .error lookError
    | none =>
      match ← getEData lib path entry with
      | .error eDataError => return .error eDataError
      | .ok eData => return convert eData

/-- A string. -/
def asString : EntryData → RespOrError String
  | .utf8_string s => .ok s
  | _ => .error ⟨"Data is not a string"⟩

/-- A `uint32_t`. -/
def asUint32 : EntryData → RespOrError UInt32
  | .uint32 n => .ok n
  | _ => .error ⟨"Data is not a uint32_t"⟩

/-- The bits of a double. -/
def asDouble : EntryData → RespOrError UInt64
  | .double_value bits => .ok bits
  | _ => .error ⟨"Data is not a double"⟩

/-- Hexadecimal digits, at least `width` of them. -/
def hexDigits (width n : Nat) : String :=
  let digits := Nat.toDigits 16 n
  String.ofList (List.replicate (width - digits.length) '0' ++ digits)

def bytesToHexString (bytes : List UInt8) : String :=
  String.join (bytes.map fun b => hexDigits 2 b.toNat)

def uint128toHexString (n : BitVec 128) : String :=
  let high := (n >>> 64).setWidth 64
  let low := n.setWidth 64
  "0x" ++ hexDigits 16 high.toNat ++ hexDigits 16 low.toNat

/-- Any value but a map or an array, as json. -/
def asJson : EntryData → RespOrError Json
  | .map | .array => .error ⟨"MMDB_DATA_TYPE is not a supported type"⟩
  | .utf8_string s => .ok (.str s)
  | .bytes bs => .ok (.str (bytesToHexString bs))
  | .double_value bits | .float_value bits => .ok (.num (.dbl bits))
  | .uint16 n => .ok (.num (.int n.toNat))
  | .uint32 n => .ok (.num (.int n.toNat))
  | .boolean b => .ok (.bool b)
  | .uint64 n => .ok (.str (toString n.toNat))
  | .uint128 n => .ok (.str (uint128toHexString n))
  | .int32 n => .ok (.num (.int n.toInt))
  | .other => .ok .null

def getString : String → List String → Option DbEntry → StateM Locator (RespOrError String) :=
  getValue lib asString

def getUint32 : String → List String → Option DbEntry → StateM Locator (RespOrError UInt32) :=
  getValue lib asUint32

def getDouble : String → List String → Option DbEntry → StateM Locator (RespOrError UInt64) :=
  getValue lib asDouble

def getAsJson : String → List String → Option DbEntry → StateM Locator (RespOrError Json) :=
  getValue lib asJson

end DistroDefender.Geo
