import DistroDefender.Base.Splitting
import DistroDefender.Conf.Unit
import Mathlib.Data.Nat.Digits.Defs

/-!
# The values variables are read as

The integer types accept a sign and decimal digits, within the range (`readNumber_ok_iff`). A list
is split back from its join. `bool` reads nothing.
-/

namespace DistroDefender.Conf

open Base

/-! ## Numerals -/

/-- One or more decimal digits. -/
structure Digits (cs : List Char) : Prop where
  nonempty : cs ≠ []
  all : ∀ c ∈ cs, c.isDigit = true

/-- The number of decimal digits, the first one the highest. -/
def decimal (cs : List Char) : Nat := Nat.ofDigits 10 (cs.reverse.map fun c => c.toNat - '0'.toNat)

/-- An optional sign and digits denote a number. -/
inductive Denotes : List Char → Int → Prop where
  | unsigned {cs : List Char} : Digits cs → Denotes cs (decimal cs)
  | plus {cs : List Char} : Digits cs → Denotes ('+' :: cs) (decimal cs)
  | minus {cs : List Char} : Digits cs → Denotes ('-' :: cs) (-decimal cs)

theorem foldl_eq_decimal (cs : List Char) :
    cs.foldl (fun n d => 10 * n + (d.toNat - '0'.toNat)) 0 = decimal cs := by
  unfold decimal
  rw [Nat.ofDigits_eq_foldr, List.foldr_map, List.foldr_reverse]
  congr 1
  funext n c
  simp [Nat.add_comm]

theorem not_sign_of_isDigit {c : Char} (h : c.isDigit = true) : c ≠ '-' ∧ c ≠ '+' := by
  constructor
  · rintro rfl
    exact absurd h (by decide)
  · rintro rfl
    exact absurd h (by decide)

theorem isSpace_of_isDigit {c : Char} (h : c.isDigit = true) : isSpace c = false := by
  have hrange : 48 ≤ c.toNat ∧ c.toNat ≤ 57 := by
    simp only [Char.isDigit, Bool.and_eq_true, decide_eq_true_eq] at h
    exact h
  unfold isSpace
  rw [decide_eq_false_iff_not, not_or]
  refine ⟨fun hc => ?_, fun hc => by omega⟩
  rw [hc] at hrange
  exact absurd hrange (by decide)

theorem Digits.takeWhile_eq {cs : List Char} (h : Digits cs) : cs.takeWhile Char.isDigit = cs :=
  List.takeWhile_eq_self_iff.mpr h.all

/-- The text before the digits. -/
def signOf (cs : List Char) : List Char :=
  cs.take (if cs.head? = some '-' ∨ cs.head? = some '+' then 1 else 0)

theorem signOf_of_digits {cs : List Char} (h : Digits cs) : signOf cs = [] := by
  unfold signOf
  cases cs with
  | nil => exact absurd rfl h.nonempty
  | cons c cs =>
    obtain ⟨hminus, hplus⟩ := not_sign_of_isDigit (h.all c List.mem_cons_self)
    simp [hminus, hplus]

theorem signOf_cases (cs : List Char) :
    (signOf cs = [] ∧ cs.drop (signOf cs).length = cs) ∨
      ∃ c rest, (c = '-' ∨ c = '+') ∧ cs = c :: rest ∧ signOf cs = [c] := by
  unfold signOf
  cases cs with
  | nil => simp
  | cons c rest =>
    by_cases hc : c = '-' ∨ c = '+'
    · exact .inr ⟨c, rest, hc, rfl, by simp [hc]⟩
    · left
      simp [hc]

/-- `stoll` in terms of the sign. -/
theorem stoll_eq (value : String) {sign digits : List Char} (hsign : signOf value.toList = sign)
    (hdigits : (value.toList.drop sign.length).takeWhile Char.isDigit = digits) :
    stoll value =
      let number : Int := if sign = ['-'] then -(decimal digits : Int) else decimal digits
      if digits = [] then .error (.invalidArgument "stoll")
      else if number < -2 ^ 63 ∨ 2 ^ 63 ≤ number then .error .outOfRange
      else .ok (number, sign.length + digits.length) := by
  have hunfold : stoll value =
      let sign := signOf value.toList
      let digits := (value.toList.drop sign.length).takeWhile Char.isDigit
      let n : Int := (digits.foldl (fun n d => 10 * n + (d.toNat - '0'.toNat)) 0 : Nat)
      let number := if sign = ['-'] then -n else n
      if digits = [] then .error (.invalidArgument "stoll")
      else if number < -2 ^ 63 ∨ 2 ^ 63 ≤ number then .error .outOfRange
      else .ok (number, sign.length + digits.length) := rfl
  rw [hunfold, hsign]
  dsimp only
  rw [hdigits, foldl_eq_decimal]

/-- The digits after the sign are all of the text. -/
theorem denotes_of_whole (cs : List Char) {digits : List Char}
    (hdigits : (cs.drop (signOf cs).length).takeWhile Char.isDigit = digits)
    (hne : digits ≠ []) (hlen : (signOf cs).length + digits.length = cs.length) :
    Denotes cs (if signOf cs = ['-'] then -(decimal digits : Int) else decimal digits) := by
  have hbefore := List.takeWhile_prefix Char.isDigit (l := cs.drop (signOf cs).length)
  rw [hdigits] at hbefore
  have hwhole : digits = cs.drop (signOf cs).length := by
    apply hbefore.eq_of_length
    rw [List.length_drop]
    omega
  have hall : Digits digits :=
    ⟨hne, List.takeWhile_eq_self_iff.mp (by rw [← hdigits, List.takeWhile_takeWhile]; simp)⟩
  rcases signOf_cases cs with ⟨hsign, hdrop⟩ | ⟨c, rest, hc, rfl, hsign⟩
  · rw [hdrop] at hwhole
    rw [hsign, if_neg (by simp), ← hwhole]
    exact .unsigned hall
  · rw [hsign, List.length_singleton, List.drop_one, List.tail_cons] at hwhole
    rw [hsign, ← hwhole]
    rcases hc with rfl | rfl
    · exact .minus hall
    · exact .plus hall

/-- `stoll` reads the whole text exactly where it denotes a number in range. -/
theorem stoll_whole_iff {value : String} {n : Int} :
    stoll value = .ok (n, value.length) ↔ Denotes value.toList n ∧ -2 ^ 63 ≤ n ∧ n < 2 ^ 63 := by
  constructor
  · intro h
    have hdenotes := denotes_of_whole value.toList rfl
    rw [stoll_eq value rfl rfl] at h
    dsimp only at h
    generalize (if signOf value.toList = ['-'] then _ else _ : Int) = number at h hdenotes
    split at h
    · cases h
    · rename_i hne
      split at h
      · cases h
      · rename_i hrange
        rw [Except.ok.injEq, Prod.mk.injEq] at h
        obtain ⟨rfl, hlen⟩ := h
        rw [← String.length_toList] at hlen
        exact ⟨hdenotes hne hlen, by omega⟩
  · rintro ⟨h, hmin, hmax⟩
    have hok : ∀ sign digits : List Char, value.toList = sign ++ digits →
        signOf value.toList = sign →
        Digits digits → (if sign = ['-'] then -(decimal digits : Int) else decimal digits) = n →
          stoll value = .ok (n, value.length) := by
      intro sign digits htext hsign hdigits hn
      have hdrop : (value.toList.drop sign.length).takeWhile Char.isDigit = digits := by
        rw [htext, List.drop_left, hdigits.takeWhile_eq]
      have hlen : sign.length + digits.length = value.length := by
        rw [← String.length_toList, htext, List.length_append]
      rw [stoll_eq value hsign hdrop]
      dsimp only
      rw [hn, if_neg hdigits.nonempty, if_neg (by omega), hlen]
    generalize value.toList = cs at h hok
    cases h with
    | unsigned hdigits => exact hok [] cs rfl (signOf_of_digits hdigits) hdigits rfl
    | plus hdigits => exact hok ['+'] _ rfl rfl hdigits rfl
    | minus hdigits => exact hok ['-'] _ rfl rfl hdigits rfl

theorem isSpace_of_denotes {cs : List Char} {n : Int} (h : Denotes cs n) :
    cs.any isSpace = false := by
  have hdigits : ∀ {cs : List Char}, Digits cs → cs.any isSpace = false := by
    intro cs hcs
    rw [List.any_eq_false]
    intro c hc
    rw [isSpace_of_isDigit (hcs.all c hc)]
    exact Bool.false_ne_true
  cases h with
  | unsigned hcs => exact hdigits hcs
  | plus hcs => rw [List.any_cons, hdigits hcs]; rfl
  | minus hcs => rw [List.any_cons, hdigits hcs]; rfl

theorem readNumber_ok_iff {env value : String} {n : Int} :
    readNumber env value = .ok n ↔ Denotes value.toList n ∧ -2 ^ 63 ≤ n ∧ n < 2 ^ 63 := by
  rw [← stoll_whole_iff]
  unfold readNumber
  constructor
  · intro h
    split at h
    · cases h
    · split at h
      · cases h
      · cases h
      · rename_i number pos hstoll
        split at h
        · cases h
        · rename_i hpos
          cases h
          rw [hstoll, not_not.mp hpos]
  · intro h
    rw [isSpace_of_denotes (stoll_whole_iff.mp h).1, h]
    simp

/-- Whatever `stoll` throws is caught. -/
theorem readNumber_error {env value : String} {e : Throw} (h : readNumber env value = .error e) :
    ∃ what, e = .runtimeError what := by
  unfold readNumber at h
  split at h
  · cases h
    exact ⟨_, rfl⟩
  · split at h
    · cases h
      exact ⟨_, rfl⟩
    · cases h
      exact ⟨_, rfl⟩
    · split at h
      · cases h
        exact ⟨_, rfl⟩
      · cases h

/-! ## What is returned -/

/-- The value that is denoted is returned, and where there is none a `std::runtime_error` is
thrown. -/
def Parses {α : Type} (r : Except Throw (Option α)) (denotes : α → Prop) : Prop :=
  (∀ v, r = .ok (some v) ↔ denotes v) ∧
  ((∀ v, ¬ denotes v) → ∃ what, r = .error (.runtimeError what))

/-- The grammar of each type. Any text is a string. -/
def Exact : (T : UnitType) → String → Except Throw (Option T.Val) → Prop
  | .int, s, r => Parses r fun n : Int32 => Denotes s.toList n.toInt
  | .int64, s, r => Parses r fun n : Int64 => Denotes s.toList n.toInt
  | .bool, s, r => Parses r fun b : Bool => toLowerCase s = if b then "true" else "false"
  | .string, s, r => r = .ok (some s)
  | .strings, s, r => ∀ parts, s = joinEscaped parts ',' (Char.ofNat 92) → r = .ok (some parts)

/-- No `bool` is read, and the empty text is the join of no parts and of one. -/
def Readable : UnitType → String → Prop
  | .bool, s => toLowerCase s ≠ "true" ∧ toLowerCase s ≠ "false"
  | .strings, s => s ≠ ""
  | _, _ => True

theorem readEnv_int_ok_iff {env s : String} {n : Int32} : readEnv env s .int = .ok n ↔
    Denotes s.toList n.toInt := by
  have hmin := n.le_toInt
  have hmax := n.toInt_lt
  unfold readEnv
  constructor
  · intro h
    cases hnumber : readNumber env s with
    | error e =>
      rw [hnumber] at h
      cases h
    | ok number =>
      rw [hnumber] at h
      dsimp only [bind, Except.bind] at h
      split at h
      · cases h
      · rename_i hrange
        cases h
        rw [Int32.toInt_ofInt_of_le (by omega) (by omega)]
        exact (readNumber_ok_iff.mp hnumber).1
  · intro h
    rw [readNumber_ok_iff.mpr ⟨h, by omega, by omega⟩]
    dsimp only [bind, Except.bind]
    rw [if_neg (by omega), Int32.ofInt_toInt]
    rfl

theorem readEnv_int64_ok_iff {env s : String} {n : Int64} :
    readEnv env s .int64 = .ok n ↔ Denotes s.toList n.toInt := by
  have hmin := n.le_toInt
  have hmax := n.toInt_lt
  unfold readEnv
  constructor
  · intro h
    cases hnumber : readNumber env s with
    | error e =>
      rw [hnumber] at h
      cases h
    | ok number =>
      rw [hnumber] at h
      cases h
      obtain ⟨hdenotes, hlow, hhigh⟩ := readNumber_ok_iff.mp hnumber
      rw [Int64.toInt_ofInt_of_le hlow hhigh]
      exact hdenotes
  · intro h
    rw [readNumber_ok_iff.mpr ⟨h, hmin, hmax⟩]
    exact congrArg Except.ok (Int64.ofInt_toInt n)

/-- A text that is no value of its type is a runtime error. -/
theorem readEnv_error {env s : String} {T : UnitType} {e : Throw} (h : readEnv env s T = .error e) :
    ∃ what, e = .runtimeError what := by
  cases T with
  | int =>
    unfold readEnv at h
    cases hnumber : readNumber env s with
    | error e' =>
      rw [hnumber] at h
      cases h
      exact readNumber_error hnumber
    | ok number =>
      rw [hnumber] at h
      dsimp only [bind, Except.bind] at h
      split at h
      · cases h
        exact ⟨_, rfl⟩
      · cases h
  | int64 =>
    unfold readEnv at h
    cases hnumber : readNumber env s with
    | error e' =>
      rw [hnumber] at h
      cases h
      exact readNumber_error hnumber
    | ok number =>
      rw [hnumber] at h
      cases h
  | bool =>
    dsimp only [readEnv] at h
    split at h
    · cases h
      exact ⟨_, rfl⟩
    · cases h
  | string => cases h
  | strings => cases h

/-- No `bool` is ever read. -/
theorem readEnv_bool_error (env s : String) :
    ∃ what, readEnv env s .bool = .error (.runtimeError what) := by
  dsimp only [readEnv]
  rw [if_pos]
  · exact ⟨_, rfl⟩
  · by_cases h : toLowerCase s = "true"
    · right
      rw [h]
      decide
    · exact .inl h

/-- An integer type reads its grammar. -/
theorem parses_of_ok_iff {T : UnitType} {env s : String} {denotes : T.Val → Prop}
    (h : ∀ v, readEnv env s T = .ok v ↔ denotes v) :
    Parses ((readEnv env s T).map some) denotes := by
  cases hread : readEnv env s T with
  | ok v =>
    refine ⟨fun w => ?_, fun hnone => absurd ((h v).mp hread) (hnone v)⟩
    rw [← h w, hread]
    simp [Except.map]
  | error e =>
    obtain ⟨what, rfl⟩ := readEnv_error hread
    refine ⟨fun w => ?_, fun _ => ⟨what, rfl⟩⟩
    rw [← h w, hread]
    simp [Except.map]

theorem exact_iff (env s : String) (T : UnitType) : Exact T s ((readEnv env s T).map some) ↔
    Readable T s := by
  cases T with
  | int => exact iff_of_true (parses_of_ok_iff fun _ => readEnv_int_ok_iff) trivial
  | int64 => exact iff_of_true (parses_of_ok_iff fun _ => readEnv_int64_ok_iff) trivial
  | string => exact iff_of_true rfl trivial
  | bool =>
    obtain ⟨what, hwhat⟩ := readEnv_bool_error env s
    unfold Exact Readable Parses
    rw [hwhat]
    simp [Except.map, and_comm]
  | strings =>
    have hread : readEnv env s .strings = .ok (splitEscaped s ',' (Char.ofNat 92)) := rfl
    unfold Exact Readable
    rw [hread]
    constructor
    · intro h hs
      have hnone := h [] (by rw [hs]; rfl)
      cases hs
      cases hnone
    · rintro hs parts rfl
      have hparts : parts ≠ [] := by
        rintro rfl
        exact hs rfl
      rw [splitEscaped_joinEscaped hparts (by decide)]
      rfl

/-- The value of a variable that is set is read as its type's grammar says, but for a `bool`, and
for an empty list. -/
theorem getEnvValue_exact_iff {getenv : String → Option String} (unit : UConf) {s : String}
    (h : getenv (cstr unit.env) = some s) :
    Exact unit.T s (unit.getEnvValue getenv unit.T) ↔ Readable unit.T s := by
  unfold UConf.getEnvValue
  rw [if_neg (not_not.mpr rfl), h]
  exact exact_iff unit.env s unit.T

/-- A list. -/
theorem getEnvValue_exact_list :
    Exact .strings "a,b"
      (UConf.getEnvValue (fun _ => some "a,b")
        ⟨.strings, "LIST", ([] : List String)⟩ .strings) := by
  have hset : (fun _ => some "a,b" : String → Option String) (cstr "LIST") = some "a,b" := rfl
  refine (getEnvValue_exact_iff ⟨.strings, "LIST", ([] : List String)⟩ hset).mpr ?_
  exact (by decide : "a,b" ≠ "")

/-- "true" is refused, and the empty text is one empty part. -/
theorem getEnvValue_not_exact :
    ¬ Exact .bool "true" (UConf.getEnvValue (fun _ => some "true") ⟨.bool, "FLAG", false⟩ .bool) ∧
      UConf.getEnvValue (fun _ => some "") ⟨.strings, "LIST", ([] : List String)⟩ .strings =
        .ok (some [""]) := by
  refine ⟨fun h => ?_, rfl⟩
  obtain ⟨what, hwhat⟩ := readEnv_bool_error "FLAG" "true"
  have htrue := (h.1 true).mpr (by decide)
  have hread : UConf.getEnvValue (fun _ => some "true") ⟨.bool, "FLAG", false⟩ .bool =
      (readEnv "FLAG" "true" .bool).map some := rfl
  rw [hread, hwhat] at htrue
  cases htrue

end DistroDefender.Conf
