import Aevrix.Http.Bytes

/-!
# The configuration file (`config_parser.h`, `config_parser.cpp`)

Lines `key = value`; a later line for a key replaces the earlier one. The getters take what
they cannot read for absent.
-/

namespace Aevrix.Config

/-- The characters `trim` removes. -/
def isConfigSpace (c : Byte) : Bool := c == 32 || c == 9 || c == 13 || c == 10

/-- `values_`. -/
structure ConfigParser where
  values : List (Bytes × Bytes) := []
  deriving DecidableEq

/-- The digits `std::stoll` reads behind the sign; what comes after them does not matter. -/
def stollDigits (negative : Bool) (text : Bytes) : Option ℤ :=
  let digits := text.takeWhile isDigit
  let n : ℤ := if negative then -(decimalValue digits) else decimalValue digits
  if digits = [] then none else if -2 ^ 63 ≤ n ∧ n < 2 ^ 63 then some n else none

/-- `std::stoll`: blanks, a sign, digits. -/
def stoll (text : Bytes) : Option ℤ := match text.dropWhile isSpace with
  | 45 :: t => stollDigits true t
  | 43 :: t => stollDigits false t
  | t => stollDigits false t

theorem stollDigits_decimal {v : Bytes} {m : ℕ} {negative : Bool} {n : ℤ} (h : IsDecimal v m)
    (hn : n = if negative then -(m : ℤ) else m) :
    stollDigits negative v = if -2 ^ 63 ≤ n ∧ n < 2 ^ 63 then some n else none := by
  obtain ⟨hne, hdigits, rfl⟩ := h
  simp only [stollDigits, List.takeWhile_eq_self_iff.mpr hdigits, if_neg hne, ← hn]

theorem digit_class {c : Byte} (h : isDigit c = true) : isSpace c = false ∧ c ≠ 45 ∧ c ≠ 43 := by
  unfold isDigit at h
  unfold isSpace
  grind

theorem stoll_decimal {v : Bytes} {m : ℕ} (h : IsDecimal v m) :
    stoll v = if -2 ^ 63 ≤ (m : ℤ) ∧ (m : ℤ) < 2 ^ 63 then some (m : ℤ) else none := by
  cases v with
  | nil => exact absurd rfl h.1
  | cons c v =>
    obtain ⟨hspace, hminus, hplus⟩ := digit_class (h.2.1 c List.mem_cons_self)
    rw [stoll, List.dropWhile_cons_of_neg (by rw [hspace]; decide)]
    split
    · rename_i t ht
      exact absurd (List.cons.inj ht).1 hminus
    · rename_i t ht
      exact absurd (List.cons.inj ht).1 hplus
    · exact stollDigits_decimal h (by simp)

/-- The words that `get_bool` knows, in any case. -/
def boolWord (text : Bytes) : Option Bool :=
  let value := text.map toLower
  if value = ascii "true" ∨ value = ascii "yes" ∨ value = ascii "1" then some true
  else if value = ascii "false" ∨ value = ascii "no" ∨ value = ascii "0" then some false
  else none

namespace ConfigParser

/-- `values_[key] = value`. -/
def set (p : ConfigParser) (key value : Bytes) : ConfigParser :=
  { values := (p.values.filter fun e => e.1 != key) ++ [(key, value)] }

/-- `parse_line` (`config_parser.cpp:38-65`). -/
def parseLine (p : ConfigParser) (line : Bytes) : ConfigParser :=
  let trimmed := trimBy isConfigSpace line
  if trimmed = [] ∨ trimmed.head? = some 35 then p
  else if 61 ∈ trimmed then
    let key := trimBy isConfigSpace (trimmed.takeWhile (· != 61))
    let value := trimBy isConfigSpace ((trimmed.dropWhile (· != 61)).drop 1)
    if key = [] then p else p.set key value
  else p

/-- `parse_file` (`config_parser.cpp:20-36`) on the bytes of a file. -/
def parseFile (content : Bytes) : ConfigParser := (content.splitOn LF).foldl parseLine {}

/-- `get_string` (`config_parser.cpp:67-73`). -/
def getString (p : ConfigParser) (key defaultValue : Bytes) : Bytes :=
  (p.values.lookup key).getD defaultValue

/-- `get_int` (`config_parser.cpp:75-86`). -/
def getInt (p : ConfigParser) (key : Bytes) (defaultValue : ℤ) : ℤ :=
  ((p.values.lookup key).bind stoll).getD defaultValue

/-- `get_bool` (`config_parser.cpp:88-102`). -/
def getBool (p : ConfigParser) (key : Bytes) (defaultValue : Bool) : Bool :=
  ((p.values.lookup key).bind boolWord).getD defaultValue

end ConfigParser
end Aevrix.Config
