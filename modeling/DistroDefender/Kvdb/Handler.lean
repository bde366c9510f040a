import DistroDefender.Kvdb.RocksDB
import DistroDefender.Lib.Map
import DistroDefender.Lib.Window
import Mathlib.Data.String.Basic

/-!
# Handlers

The data calls of `KVDBHandler`, on what RocksDB answers about one column family (`ColumnFamily`).
`ColumnFamily.Holds` says that the answers are those of a family with these contents: reads are
exact, an iterator runs through the entries in key order, and `KeyMayExist` says no only of a key
that is not there.
-/

namespace DistroDefender.Kvdb.Handler

open Base Lib

/-- What `DB::Get` answers; an error has the text of `getState()`, if it has one. -/
inductive GetStatus where
  | ok (value : String)
  | notFound
  | failed (state : Option String)

/-- An iterator from where it stands: an entry and the rest, or its end with the status it ends
in. -/
inductive Iter where
  | entry (key value : String) (next : Iter)
  | done (status : Status Unit)

/-- What RocksDB answers about a column family. `KeyMayExist` answers whether the key may exist and
sets `value_found`, or throws. -/
structure ColumnFamily where
  Get : String → GetStatus
  KeyMayExist : String → Except Throw (Bool × Bool)
  NewIterator : Iter

/-- A handler, as its data calls see it: whether the database and the handle of the family can still
be locked, and its name. -/
structure KVDBHandler where
  weakDB : Bool
  weakCFHandle : Bool
  dbName : String

namespace KVDBHandler

/-- The beginning of every call: the two pointers are locked. -/
def locked {α : Type} (h : KVDBHandler) (x : RespOrError α) : RespOrError α :=
  if !h.weakDB then .error ⟨"Cannot access RocksDB::DB!"⟩
  else if !h.weakCFHandle then .error ⟨"Cannot access RocksDB Column Family Handle!"⟩
  else x

/-- The state of a status that is not ok. -/
def stateText (state : Option String) : String := state.getD "Unknown"

def keyNotFound (key : String) : Error := ⟨s!"Cannot get key '{key}'. Error: Key not found"⟩

def get (h : KVDBHandler) (cf : ColumnFamily) (key : String) : RespOrError String :=
  h.locked (match cf.Get key with
    | .ok value => .ok value
    | .notFound => .error (keyNotFound key)
    | .failed state => .error ⟨s!"Cannot get key '{key}'. Error: {stateText state}"⟩)

/-- `contains`: only `value_found` is looked at, and it is confirmed by a `Get`. -/
def contains (h : KVDBHandler) (cf : ColumnFamily) (key : String) : RespOrError Bool :=
  h.locked (match cf.KeyMayExist key with
    | .error ex => .error ⟨s!"Cannot validate existence of key {key}. Error: {ex.what}"⟩
    | .ok (_, valueFound) =>
      if valueFound then
        match cf.Get key with
        | .ok _ => .ok true
        | _ => .ok false
      else .ok false)

/-! ## Pages -/

/-- `(page-1) * records`, as `unsigned int`. -/
def fromRecords (page records : UInt32) : UInt32 := (page - 1) * records

def toRecords (page records : UInt32) : UInt32 := fromRecords page records + records

/-- The loop of `pageContent`: `i` counts the keys that passed the filter. It gives the content and
the status of the iterator where it stopped. -/
def pageLoop (filter : String → Bool) (start stop : UInt32) : UInt32 → Iter →
    List (String × String) × Status Unit
  | _, .done status => ([], status)
  | i, .entry key value next =>
    if i < stop then
      if filter key then
        let rest := pageLoop filter start stop (i + 1) next
        if start ≤ i then ((key, value) :: rest.1, rest.2) else rest
      else pageLoop filter start stop i next
    else ([], .ok ())

/-- `pageContent`. An empty `std::function` lets every key pass. -/
def pageContent (h : KVDBHandler) (cf : ColumnFamily) (page records : UInt32)
    (filter : Option (String → Bool)) : RespOrError (List (String × String)) :=
  h.locked (
    let content :=
      pageLoop (filter.getD fun _ => true) (fromRecords page records) (toRecords page records) 0
      cf.NewIterator
    match content.2 with
    | .error text => .error ⟨s!"Database '{h.dbName}': Could not iterate over database: '{text}'"⟩
    | .ok () => .ok content.1)

def dump (h : KVDBHandler) (cf : ColumnFamily) (page records : UInt32) :
    RespOrError (List (String × String)) :=
  h.pageContent cf page records none

/-- `rocksdb::Slice::starts_with`. -/
def startsWith (keyPrefix key : String) : Bool := keyPrefix.toList.isPrefixOf key.toList

def search (h : KVDBHandler) (cf : ColumnFamily) (keyPrefix : String) (page records : UInt32) :
    RespOrError (List (String × String)) :=
  h.pageContent cf page records (some fun key => if keyPrefix = "" then true
    else startsWith keyPrefix key)

/-! ### Writes -/

/-- `set`, where `Put` answers `status`, and the contents after it. -/
def set (h : KVDBHandler) (status : Except (Option String) Unit) (c : Map String String)
    (key value : String) : OptError × Map String String :=
  if !h.weakDB then (some ⟨"Cannot access RocksDB::DB!"⟩, c)
  else if !h.weakCFHandle then (some ⟨"Cannot access RocksDB Column Family Handle!"⟩, c)
  else
    match status with
    | .error state =>
      (some ⟨s!"Cannot save value '{value}' in key '{key}'. Error: {stateText state}"⟩, c)
    | .ok () => (none, c.insert key value)

/-- `remove`, where `Delete` answers `status`. -/
def remove (h : KVDBHandler) (status : Except (Option String) Unit) (c : Map String String)
    (key : String) : OptError × Map String String :=
  if !h.weakDB then (some ⟨"Cannot access RocksDB::DB!"⟩, c)
  else if !h.weakCFHandle then (some ⟨"Cannot access RocksDB Column Family Handle!"⟩, c)
  else
    match status with
    | .error state => (some ⟨s!"Cannot remove key '{key}'. Error: {stateText state}"⟩, c)
    | .ok () => (none, c.erase key)

def add (h : KVDBHandler) (status : Except (Option String) Unit) (c : Map String String)
    (key : String) : OptError × Map String String :=
  h.set status c key ""

end KVDBHandler

/-! ## Contents -/

/-- The entries of the contents, in key order. -/
def inKeyOrder (c : Map String String) : List (String × String) :=
  (sortedSet c.keys).map fun key => (key, (c.lookup key).getD "")

/-- An iterator through the entries. -/
def Iter.through : List (String × String) → Iter
  | [] => .done (.ok ())
  | (key, value) :: rest => .entry key value (through rest)

/-- RocksDB answers for a family with the contents `c`. -/
structure ColumnFamily.Holds (cf : ColumnFamily) (c : Map String String) : Prop where
  get : ∀ key, cf.Get key = match c.lookup key with
    | some value => .ok value
    | none => .notFound
  iterator : cf.NewIterator = .through (inKeyOrder c)
  mayExist : ∀ key, ∃ may found, cf.KeyMayExist key = .ok (may, found) ∧
    (may = false → c.lookup key = none)

section Contents

variable {c : Map String String}

theorem mem_inKeyOrder {key value : String} : (key, value) ∈ inKeyOrder c ↔
    c.lookup key = some value := by
  unfold inKeyOrder
  rw [List.mem_map]
  constructor
  · rintro ⟨k, hk, heq⟩
    rw [mem_sortedSet] at hk
    obtain ⟨v, hv⟩ := Option.isSome_iff_exists.mp (AList.lookup_isSome.mpr hk)
    rw [hv] at heq
    cases heq
    exact hv
  · intro h
    refine ⟨key, mem_sortedSet.mpr (AList.lookup_isSome.mp (by rw [h]; rfl)), ?_⟩
    rw [h]
    rfl

theorem nodup_inKeyOrder (c : Map String String) : (inKeyOrder c).Nodup := by
  unfold inKeyOrder
  refine List.Nodup.map (fun a b hab => congrArg Prod.fst hab) ?_
  exact (pairwise_sortedSet c.keys).imp fun hlt => ne_of_lt hlt

end Contents

namespace KVDBHandler

section Sample

/-- A family whose probes find the value of every key, or of none. -/
def family (c : Map String String) (found : Bool) : ColumnFamily where
  Get key := match c.lookup key with
    | some value => .ok value
    | none => .notFound
  KeyMayExist key := .ok ((c.lookup key).isSome, (c.lookup key).isSome && found)
  NewIterator := .through (inKeyOrder c)

theorem family_holds (c : Map String String) (found : Bool) : (family c found).Holds c where
  get _ := rfl
  iterator := rfl
  mayExist key :=
    ⟨_, _, rfl, fun hmay => Option.isNone_iff_eq_none.mp (by rw [← Option.not_isSome, hmay]; rfl)⟩

def oneKey : Map String String := (∅ : Map String String).insert "key" "1"

def openHandler : KVDBHandler := ⟨true, true, "db"⟩

end Sample

/-! ## Reads -/

/-- The database and the family can be locked. -/
def Live (h : KVDBHandler) : Prop := h.weakDB = true ∧ h.weakCFHandle = true

theorem locked_of_live {α : Type} {h : KVDBHandler} (hl : h.Live) (x : RespOrError α) :
    h.locked x = x := by
  unfold locked
  rw [hl.1, hl.2]
  rfl

theorem locked_ok_iff {α : Type} {h : KVDBHandler} {x : RespOrError α} {a : α} :
    h.locked x = .ok a ↔ h.Live ∧ x = .ok a := by
  unfold locked Live
  cases h.weakDB with
  | false => simp
  | true => cases h.weakCFHandle <;> simp

/-- A write that reports nothing was made. -/
theorem set_written {h : KVDBHandler} {status : Except (Option String) Unit} {c : Map String String}
    {key value : String} (hnone : (h.set status c key value).1 = none) :
    h.Live ∧ (h.set status c key value).2 = c.insert key value := by
  unfold set at hnone ⊢
  cases hdb : h.weakDB with
  | false => simp [hdb] at hnone
  | true =>
    cases hcf : h.weakCFHandle with
    | false => simp [hdb, hcf] at hnone
    | true =>
      cases status with
      | error state => simp [hdb, hcf] at hnone
      | ok u => exact ⟨⟨hdb, hcf⟩, rfl⟩

theorem take_keyNotFound (key : String) :
    (keyNotFound key).message.toList.take 9 = "Cannot ge".toList := by
  have htext : (keyNotFound key).message = "Cannot get key '" ++
      (key ++ "'. Error: Key not found") := rfl
  rw [htext, String.toList_append, List.take_append_of_le_length (by decide)]
  decide

theorem ne_keyNotFound {e : Error} (he : e.message.toList.take 9 ≠ "Cannot ge".toList)
    (key : String) : e ≠ keyNotFound key := by
  intro heq
  rw [heq] at he
  exact he (take_keyNotFound key)

/-- What cannot be locked is not reported as a missing key. -/
theorem locked_of_not_live {α : Type} {h : KVDBHandler} (hl : ¬ h.Live) (x : RespOrError α)
    (key : String) : ∃ e, h.locked x = .error e ∧ e ≠ keyNotFound key := by
  unfold locked
  cases hdb : h.weakDB with
  | false => exact ⟨_, rfl, ne_keyNotFound (by decide) key⟩
  | true =>
    cases hcf : h.weakCFHandle with
    | false => exact ⟨_, rfl, ne_keyNotFound (by decide) key⟩
    | true => exact absurd ⟨hdb, hcf⟩ hl

/-- `contains` answers yes when `get` gives a value, and no when `get` reports the key as
missing. -/
structure ContainsAgrees (h : KVDBHandler) (cf : ColumnFamily) (key : String) : Prop where
  yes : h.contains cf key = .ok true ↔ ∃ value, h.get cf key = .ok value
  no : h.contains cf key = .ok false ↔ h.get cf key = .error (keyNotFound key)

/-- The probe sees the value of the key. -/
def ValueFound (cf : ColumnFamily) (key : String) : Prop :=
  ∃ may, cf.KeyMayExist key = .ok (may, true)

/-- `contains` agrees with `get` exactly when nothing can be read, the key is missing, or the probe
finds its value. -/
theorem containsAgrees_iff (h : KVDBHandler) (cf : ColumnFamily) (c : Map String String)
    (hcf : cf.Holds c) (key : String) :
    h.ContainsAgrees cf key ↔ ¬ h.Live ∨ c.lookup key = none ∨ ValueFound cf key := by
  by_cases hl : h.Live
  · obtain ⟨may, found, hprobe, -⟩ := hcf.mayExist key
    have hfound : ValueFound cf key ↔ found = true := by
      unfold ValueFound
      simp [hprobe]
    have hget : h.get cf key = match c.lookup key with
        | some value => .ok value
        | none => .error (keyNotFound key) := by
      unfold get
      rw [locked_of_live hl, hcf.get]
      cases c.lookup key <;> rfl
    have hcontains : h.contains cf key = .ok (found && (c.lookup key).isSome) := by
      unfold contains
      rw [locked_of_live hl, hprobe, hcf.get]
      cases found with
      | false => rfl
      | true => cases c.lookup key <;> rfl
    rw [hfound]
    constructor
    · intro hagrees
      have hyes := hagrees.yes
      rw [hcontains, hget] at hyes
      cases hkey : c.lookup key with
      | none => exact .inr (.inl rfl)
      | some value =>
        rw [hkey] at hyes
        have hboth := hyes.mpr ⟨value, rfl⟩
        rw [Except.ok.injEq, Bool.and_eq_true] at hboth
        exact .inr (.inr hboth.1)
    · intro hcases
      cases hkey : c.lookup key with
      | none => constructor <;> simp [hcontains, hget, hkey]
      | some value =>
        have hseen : found = true := by simpa [hl, hkey] using hcases
        constructor <;> simp [hcontains, hget, hkey, hseen]
  · refine iff_of_true ⟨?_, ?_⟩ (.inl hl)
    · obtain ⟨e, he, -⟩ := locked_of_not_live hl _ key
      obtain ⟨e', he', -⟩ := locked_of_not_live hl _ key
      unfold contains get
      rw [he, he']
      simp
    · obtain ⟨e, he, -⟩ := locked_of_not_live hl _ key
      obtain ⟨e', he', hne⟩ := locked_of_not_live hl _ key
      unfold contains get
      rw [he, he']
      simp [hne]

/-- The probe finds the value. -/
theorem containsAgrees_found : openHandler.ContainsAgrees (family oneKey true) "key" :=
  (openHandler.containsAgrees_iff (family oneKey true) oneKey (family_holds oneKey true) "key").mpr
    (.inr (.inr ⟨true, rfl⟩))

/-- A key whose value is not in memory is reported as missing. -/
theorem contains_misses : (family oneKey false).Holds oneKey ∧
    openHandler.get (family oneKey false) "key" = .ok "1" ∧
    openHandler.contains (family oneKey false) "key" = .ok false ∧
    ¬ openHandler.ContainsAgrees (family oneKey false) "key" := by
  refine ⟨family_holds oneKey false, rfl, rfl, fun h => ?_⟩
  cases h.no.mp rfl

/-! ## Pages are windows -/

/-- The loop is a scan, and stops where the iterator is in order. -/
theorem pageLoop_through (filter : String → Bool) (start stop i : UInt32)
    (l : List (String × String)) : pageLoop filter start stop i (.through l) =
      (scan (fun e => filter e.1) start.toNat stop.toNat i.toNat l, .ok ()) := by
  induction l generalizing i with
  | nil => rfl
  | cons e l ih =>
    obtain ⟨key, value⟩ := e
    simp only [Iter.through, pageLoop, scan, UInt32.lt_iff_toNat_lt, UInt32.le_iff_toNat_le]
    split
    · rename_i hi
      have hsucc : (i + 1).toNat = i.toNat + 1 := by
        have hstop := stop.toNat_lt
        rw [UInt32.toNat_add, UInt32.toNat_one]
        omega
      simp only [ih, hsucc]
      split
      · split <;> rfl
      · rfl
    · rfl

/-- A page is the window between its two bounds, as they were computed. -/
theorem pageContent_eq {h : KVDBHandler} {cf : ColumnFamily} {c : Map String String}
    (hcf : cf.Holds c) (page records : UInt32) (filter : Option (String → Bool)) :
    h.pageContent cf page records filter = h.locked (.ok (window
      ((inKeyOrder c).filter fun e => filter.getD (fun _ => true) e.1)
      (fromRecords page records).toNat (toRecords page records).toNat)) := by
  unfold pageContent
  rw [hcf.iterator, pageLoop_through, UInt32.toNat_zero, scan_zero]

/-- The calls that list a page. -/
inductive Listing where
  | dump
  | search (keyPrefix : String)

namespace Listing

def page (q : Listing) (h : KVDBHandler) (cf : ColumnFamily) (page records : UInt32) :
    RespOrError (List (String × String)) :=
  match q with
  | .dump => h.dump cf page records
  | .search keyPrefix => h.search cf keyPrefix page records

/-- The keys the call lists. -/
def Lists : Listing → String → Bool
  | .dump, _ => true
  | .search keyPrefix, key => startsWith keyPrefix key

/-- The entries to list, in key order. -/
def entries (q : Listing) (c : Map String String) : List (String × String) :=
  (inKeyOrder c).filter fun e => q.Lists e.1

/-- The page has the entries at its positions, counted without bound. -/
def Exact (q : Listing) (h : KVDBHandler) (cf : ColumnFamily) (c : Map String String)
    (page records : UInt32) : Prop :=
  q.page h cf page records =
    .ok (window (q.entries c) ((page.toNat - 1) * records.toNat) (page.toNat * records.toNat))

theorem page_eq (q : Listing) (h : KVDBHandler) {cf : ColumnFamily} {c : Map String String}
    (hcf : cf.Holds c) (page records : UInt32) :
    q.page h cf page records = h.locked (.ok (window (q.entries c)
      (fromRecords page records).toNat (toRecords page records).toNat)) := by
  cases q with
  | dump => exact pageContent_eq hcf page records none
  | search keyPrefix =>
    have hfilter : (fun e : String × String => if keyPrefix = "" then true
        else startsWith keyPrefix e.1) = fun e => (search keyPrefix).Lists e.1 := by
      funext e
      show _ = startsWith keyPrefix e.1
      split
      · rename_i hempty
        rw [hempty]
        rfl
      · rfl
    refine (pageContent_eq hcf page records _).trans ?_
    simp only [Option.getD_some]
    rw [hfilter]
    rfl

/-- `n` entries on pages of `records` leave the bounds of `page` as they should be, or nothing to
get wrong. -/
def Fits (n page records : Nat) : Prop :=
  page * records < 2 ^ 32 ∨ n ≤ (page - 1) * records % 2 ^ 32 ∨
    n ≤ (page - 1) * records ∧ page * records % 2 ^ 32 ≤ (page - 1) * records % 2 ^ 32

/-- Windows with wrapped bounds. -/
theorem window_wrapped_iff {l : List (String × String)} (hl : l.Nodup) {page records : Nat}
    (hp : 1 ≤ page) (hr : 1 ≤ records) (hrecords : records < 2 ^ 32) :
    window l ((page - 1) * records % 2 ^ 32) (page * records % 2 ^ 32) =
      window l ((page - 1) * records) (page * records) ↔ Fits l.length page records := by
  have hnext : page * records = (page - 1) * records + records := by
    obtain ⟨k, rfl⟩ := Nat.exists_eq_add_of_le hp
    rw [Nat.add_sub_cancel_left, Nat.add_comm 1 k, Nat.succ_mul]
  unfold Fits
  generalize (page - 1) * records = a at *
  generalize page * records = b at *
  have hle : a % 2 ^ 32 ≤ a := Nat.mod_le _ _
  by_cases hb : b < 2 ^ 32
  · rw [Nat.mod_eq_of_lt hb, Nat.mod_eq_of_lt (by omega : a < 2 ^ 32)]
    exact iff_of_true rfl (.inl hb)
  · have hnil : window l a b = [] ↔ l.length ≤ a := by
      rw [window_eq_nil_iff]
      omega
    by_cases ha : a < 2 ^ 32
    · -- the upper bound wraps below the lower one: the page is empty
      have hempty : window l (a % 2 ^ 32) (b % 2 ^ 32) = [] := by
        rw [window_eq_nil_iff]
        omega
      rw [hempty, eq_comm, hnil]
      omega
    · -- both bounds wrap, so the page starts elsewhere
      rw [window_eq_iff hl (by omega), window_eq_nil_iff, hnil]
      omega

theorem toNat_fromRecords {page records : UInt32} (hp : 1 ≤ page) :
    (fromRecords page records).toNat = (page.toNat - 1) * records.toNat % 2 ^ 32 := by
  have hsub : (page - 1).toNat = page.toNat - 1 := UInt32.toNat_sub_of_le _ _ hp
  unfold fromRecords
  rw [UInt32.toNat_mul, hsub]

theorem toNat_toRecords {page records : UInt32} (hp : 1 ≤ page) :
    (toRecords page records).toNat = page.toNat * records.toNat % 2 ^ 32 := by
  unfold toRecords
  rw [UInt32.toNat_add, toNat_fromRecords hp, Nat.mod_add_mod]
  obtain ⟨k, hk⟩ := Nat.exists_eq_add_of_le (UInt32.le_iff_toNat_le.mp hp)
  have hone : (1 : UInt32).toNat = 1 := rfl
  rw [hk, hone, Nat.add_sub_cancel_left, Nat.add_comm 1 k, Nat.succ_mul]

/-- A page is exact exactly when the database is there and its bounds do not wrap into the
entries. -/
theorem page_exact_iff (q : Listing) (h : KVDBHandler) (cf : ColumnFamily) (c : Map String String)
    (hcf : cf.Holds c) (page records : UInt32) (hp : 1 ≤ page) (hr : 1 ≤ records) :
    q.Exact h cf c page records ↔ h.Live ∧ Fits (q.entries c).length page.toNat records.toNat := by
  have hp' : 1 ≤ page.toNat := UInt32.le_iff_toNat_le.mp hp
  have hr' : 1 ≤ records.toNat := UInt32.le_iff_toNat_le.mp hr
  have hnodup : (q.entries c).Nodup := (nodup_inKeyOrder c).filter _
  unfold Exact
  rw [q.page_eq h hcf, locked_ok_iff, toNat_fromRecords hp, toNat_toRecords hp, Except.ok.injEq,
    window_wrapped_iff hnodup hp' hr' records.toNat_lt]

/-- Successive pages give every entry once, in order. -/
theorem pages_once (q : Listing) {h : KVDBHandler} (hl : h.Live) {cf : ColumnFamily}
    {c : Map String String} (hcf : cf.Holds c) {records : UInt32} (hr : 1 ≤ records) (k : Nat)
    (hk : k * records.toNat < 2 ^ 32) : ∃ content : Nat → List (String × String),
      (∀ p < k, q.page h cf (UInt32.ofNat (p + 1)) records = .ok (content p)) ∧
      (List.range k).flatMap content = (q.entries c).take (k * records.toNat) := by
  refine ⟨fun p => window (q.entries c) (p * records.toNat) ((p + 1) * records.toNat),
    fun p hp => ?_, flatMap_window _ _ _⟩
  have hr' : 1 ≤ records.toNat := UInt32.le_iff_toNat_le.mp hr
  have hmul : (p + 1) * records.toNat < 2 ^ 32 := Nat.lt_of_le_of_lt (Nat.mul_le_mul_right _ hp) hk
  have hsmall : p + 1 < 2 ^ 32 := Nat.lt_of_le_of_lt (Nat.le_mul_of_pos_right _ hr') hmul
  have htoNat : (UInt32.ofNat (p + 1)).toNat = p + 1 := by
    rw [UInt32.toNat_ofNat']
    exact Nat.mod_eq_of_lt hsmall
  have hpage : 1 ≤ UInt32.ofNat (p + 1) := by
    rw [UInt32.le_iff_toNat_le, htoNat]
    exact Nat.le_add_left 1 p
  have hstop : p * records.toNat < 2 ^ 32 :=
    Nat.lt_of_le_of_lt (Nat.mul_le_mul_right _ p.le_succ) hmul
  rw [q.page_eq h hcf, locked_of_live hl, toNat_fromRecords hpage, toNat_toRecords hpage, htoNat,
    Nat.add_sub_cancel, Nat.mod_eq_of_lt hmul, Nat.mod_eq_of_lt hstop]

end Listing

section Sample

/-- The bounds of the first page are small. -/
theorem page_exact_first : Listing.dump.Exact openHandler (family oneKey true) oneKey 1 50 := by
  refine (Listing.dump.page_exact_iff openHandler (family oneKey true) oneKey
    (family_holds oneKey true) 1 50 (by decide) (by decide)).mpr ⟨⟨rfl, rfl⟩, .inl ?_⟩
  decide

/-- Page 65537 of 65536 entries each is page 1 again. -/
theorem page_wraps : (family oneKey true).Holds oneKey ∧
    openHandler.dump (family oneKey true) 65537 65536 = .ok [("key", "1")] ∧
    ¬ Listing.dump.Exact openHandler (family oneKey true) oneKey 65537 65536 := by
  have hdump : openHandler.dump (family oneKey true) 65537 65536 = .ok [("key", "1")] := by rfl
  refine ⟨family_holds oneKey true, hdump, fun h => ?_⟩
  have hpast : (Listing.dump.entries oneKey).length ≤
      ((65537 : UInt32).toNat - 1) * (65536 : UInt32).toNat := by
    decide +kernel
  have hpage := hdump.symm.trans h
  rw [window_eq_nil_iff.mpr (.inr hpast)] at hpage
  cases hpage

end Sample

/-! ## Without a page -/

/-- `dump()` of `IKVDBHandler`. -/
def dumpAll (h : KVDBHandler) (cf : ColumnFamily) : RespOrError (List (String × String)) :=
  h.dump cf 0 0

/-- `search(prefix)` of `IKVDBHandler`. -/
def searchAll (h : KVDBHandler) (cf : ColumnFamily) (keyPrefix : String) :
    RespOrError (List (String × String)) :=
  h.search cf keyPrefix 0 0

namespace Listing

def all (q : Listing) (h : KVDBHandler) (cf : ColumnFamily) :
    RespOrError (List (String × String)) :=
  match q with
  | .dump => h.dumpAll cf
  | .search keyPrefix => h.searchAll cf keyPrefix

/-- Page 0 of 0 records ends before it starts. -/
theorem all_eq (q : Listing) (h : KVDBHandler) {cf : ColumnFamily} {c : Map String String}
    (hcf : cf.Holds c) : q.all h cf = h.locked (.ok []) := by
  have hpage : q.all h cf = q.page h cf 0 0 := by cases q <;> rfl
  have hbounds : (toRecords 0 0).toNat ≤ (fromRecords 0 0).toNat := by decide
  rw [hpage, q.page_eq h hcf, window_eq_nil_iff.mpr (.inl hbounds)]

/-- The calls without a page give the entries exactly when the database is there and there are
none. -/
theorem all_entries_iff (q : Listing) (h : KVDBHandler) (cf : ColumnFamily) (c : Map String String)
    (hcf : cf.Holds c) : q.all h cf = .ok (q.entries c) ↔ h.Live ∧ q.entries c = [] := by
  rw [q.all_eq h hcf, locked_ok_iff, Except.ok.injEq]
  exact ⟨fun h => ⟨h.1, h.2.symm⟩, fun h => ⟨h.1, h.2.symm⟩⟩

end Listing

section Sample

/-- A prefix that no key has. -/
theorem all_entries_none : (Listing.search "other").all openHandler (family oneKey true) =
    .ok ((Listing.search "other").entries oneKey) := by
  refine ((Listing.search "other").all_entries_iff openHandler (family oneKey true) oneKey
    (family_holds oneKey true)).mpr ⟨⟨rfl, rfl⟩, ?_⟩
  decide +kernel

/-- The one entry is not given. -/
theorem all_is_empty : (family oneKey true).Holds oneKey ∧
    openHandler.dumpAll (family oneKey true) = .ok [] ∧
    Listing.dump.all openHandler (family oneKey true) ≠ .ok (Listing.dump.entries oneKey) ∧
    (Listing.search "k").all openHandler (family oneKey true) ≠
      .ok ((Listing.search "k").entries oneKey) := by
  refine ⟨family_holds oneKey true, rfl, fun h => ?_, fun h => ?_⟩
  · have hlen := congrArg (Except.map List.length) h
    revert hlen
    decide
  · have hlen := congrArg (Except.map List.length) h
    revert hlen
    decide

end Sample

end KVDBHandler

end DistroDefender.Kvdb.Handler
