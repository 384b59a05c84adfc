import Mathlib.Algebra.BigOperators.Group.List.Basic
import Mathlib.Algebra.Order.Ring.Nat
import Mathlib.Data.List.DropRight
import Mathlib.Data.List.Nodup
import Mathlib.Data.Nat.Find
import Mathlib.Data.UInt
import Aevrix.Incremental.Lines

/-!
# Byte strings

`std::string` and `std::vector<char>` contents are lists of bytes. The character
classes are those of `<cctype>` in the C locale, which the server never changes.
-/

namespace Aevrix

abbrev Byte := UInt8
abbrev Bytes := List Byte

/-- A check of every byte of a string goes through the string, not through all bytes. -/
instance (priority := high) decidableAllBytes (p : Byte → Prop) [DecidablePred p] (s : Bytes) :
    Decidable (∀ c ∈ s, p c) := List.decidableBAll p s

/-- The law of the comparison behind a search for a string among strings. -/
instance lawfulBEqBytes : LawfulBEq Bytes := inferInstance

/-- Bytes of an ASCII literal of the source. -/
def ascii (s : String) : Bytes := s.toList.map fun c => c.toNat.toUInt8

abbrev CR : Byte := 13
abbrev LF : Byte := 10
abbrev crlf : Bytes := [CR, LF]

def isDigit (c : Byte) : Bool := decide (48 ≤ c) && decide (c ≤ 57)
def isUpper (c : Byte) : Bool := decide (65 ≤ c) && decide (c ≤ 90)
def isLower (c : Byte) : Bool := decide (97 ≤ c) && decide (c ≤ 122)
def isAlnum (c : Byte) : Bool := isDigit c || isUpper c || isLower c
/-- `std::isspace`: space and the controls HT, LF, VT, FF, CR. -/
def isSpace (c : Byte) : Bool := c == 32 || (decide (9 ≤ c) && decide (c ≤ 13))
/-- Optional whitespace: space and tab. -/
def isOws (c : Byte) : Bool := c == 32 || c == 9
theorem ows_nil : ∀ c ∈ ([] : Bytes), isOws c = true := by decide
theorem ows_space : ∀ c ∈ ascii " ", isOws c = true := by decide

def toLower (c : Byte) : Byte := if isUpper c then c + 32 else c
def toUpper (c : Byte) : Byte := if isLower c then c - 32 else c

/-! ### CRLF lines -/

/-- Index of the first CRLF (`find_crlf`). -/
def findCrlf (u : Bytes) : Option ℕ := Incremental.Lines.findPair CR LF u
/-- The line before the first CRLF and the bytes after it. -/
def splitLine (u : Bytes) : Option (Bytes × Bytes) := Incremental.Lines.splitPair CR LF u
/-- The line at the front of `u` up to and including its CR, or all of `u` while
the line is unfinished. -/
def frontLine (u : Bytes) : Bytes := Incremental.Lines.front CR LF u

theorem splitLine_eq (u : Bytes) :
    splitLine u = (findCrlf u).map fun k => (u.take k, u.drop (k + 2)) := rfl

theorem CR_ne_LF : CR ≠ LF := by decide

theorem splitLine_append_crlf {l : Bytes} (h : findCrlf l = none) (r : Bytes) :
    splitLine (l ++ crlf ++ r) = some (l, r) := by
  rw [List.append_assoc]
  exact Incremental.Lines.splitPair_line CR_ne_LF h r

theorem frontLine_crlf {l : Bytes} (h : findCrlf l = none) (r : Bytes) :
    (frontLine (l ++ crlf ++ r)).length = l.length + 1 := by
  rw [List.append_assoc]
  exact Incremental.Lines.front_line CR_ne_LF h r

theorem findCrlf_of_notMem {l : Bytes} (h : LF ∉ l) : findCrlf l = none := by
  cases hk : findCrlf l with
  | none => rfl
  | some k =>
    have hs := (Incremental.Lines.findPair_split hk).1
    rw [hs] at h
    simp at h

/-- Lines and the empty line that ends them. -/
def lineBlock (lines : List Bytes) : Bytes := lines.flatMap (· ++ crlf) ++ crlf

theorem lineBlock_cons (line : Bytes) (lines : List Bytes) (x : Bytes) :
    lineBlock (line :: lines) ++ x = line ++ crlf ++ (lineBlock lines ++ x) := by
  simp only [lineBlock, List.flatMap_cons, List.append_assoc]

theorem lineBlock_length (lines : List Bytes) :
    (lineBlock lines).length = (lines.map fun line => line.length + 2).sum + 2 := by
  simp [lineBlock, List.length_flatMap]

/-- The lines of a head: the first one, the others, the empty line. -/
def headBlock (first : Bytes) (lines : List Bytes) : Bytes := first ++ crlf ++ lineBlock lines

theorem headBlock_append (first : Bytes) (lines : List Bytes) (x : Bytes) :
    headBlock first lines ++ x = first ++ crlf ++ (lineBlock lines ++ x) := by
  simp only [headBlock, List.append_assoc]

/-! ### Trimming -/

def trimBy (p : Byte → Bool) (v : Bytes) : Bytes := (v.dropWhile p).rdropWhile p

/-- `trim_ows` (`proxy_response_parser.cpp:79-91`). -/
def trimOws (v : Bytes) : Bytes := trimBy isOws v

theorem trimBy_front (p : Byte → Bool) (v : Bytes) : trimBy p v <+: v.dropWhile p :=
  List.rdropWhile_prefix ..

theorem trimBy_inside (p : Byte → Bool) (v : Bytes) : trimBy p v <:+: v :=
  (trimBy_front p v).isInfix.trans (List.dropWhile_suffix p).isInfix

theorem mem_of_mem_trimBy {p : Byte → Bool} {v : Bytes} {c : Byte} (h : c ∈ trimBy p v) : c ∈ v :=
  (trimBy_inside p v).subset h

/-- What is kept of a value padded on both sides is what is kept of the value. -/
theorem trimBy_pad {p : Byte → Bool} {pre v post : Bytes} (hpre : ∀ c ∈ pre, p c)
    (hpost : ∀ c ∈ post, p c) : trimBy p (pre ++ v ++ post) = trimBy p v := by
  unfold trimBy
  rw [List.append_assoc, List.dropWhile_append_of_pos hpre]
  by_cases hv : v.dropWhile p = []
  · have hall : ∀ c ∈ v, p c := List.dropWhile_eq_nil_iff.mp hv
    rw [List.dropWhile_append_of_pos hall, List.dropWhile_eq_nil_iff.mpr hpost, hv]
  · rw [List.dropWhile_append, if_neg (by simpa using hv)]
    simp only [List.rdropWhile, List.reverse_append]
    rw [List.dropWhile_append_of_pos (by simpa using hpost)]

theorem trimBy_of_none {p : Byte → Bool} {v : Bytes} (h : ∀ c ∈ v, p c = false) :
    trimBy p v = v := by
  cases v with
  | nil => rfl
  | cons c t =>
    have hd : (c :: t).dropWhile p = c :: t := by
      rw [List.dropWhile_cons, h c (List.mem_cons_self ..)]
      rfl
    rw [trimBy, hd, List.rdropWhile_eq_self_iff]
    intro hl
    simp [h _ (List.getLast_mem hl)]

theorem trimBy_split (p : Byte → Bool) (v : Bytes) : ∃ pre post, v = pre ++ trimBy p v ++ post ∧
    (∀ c ∈ pre, p c = true) ∧ ∀ c ∈ post, p c = true := by
  have hr : trimBy p v ++ (v.dropWhile p).rtakeWhile p = v.dropWhile p := by
    simp only [trimBy, List.rdropWhile, List.rtakeWhile, ← List.reverse_append,
      List.takeWhile_append_dropWhile, List.reverse_reverse]
  refine ⟨v.takeWhile p, (v.dropWhile p).rtakeWhile p, ?_, fun c hc => List.mem_takeWhile_imp hc,
    fun c hc => List.mem_rtakeWhile_imp hc⟩
  rw [List.append_assoc, hr, List.takeWhile_append_dropWhile]

theorem trimBy_trimBy {p q : Byte → Bool} (hpq : ∀ c, p c → q c) (v : Bytes) :
    trimBy q (trimBy p v) = trimBy q v := by
  obtain ⟨pre, post, hsplit, hpre, hpost⟩ := trimBy_split p v
  conv_rhs => rw [hsplit]
  exact (trimBy_pad (fun c hc => hpq c (hpre c hc)) fun c hc => hpq c (hpost c hc)).symm

theorem trimBy_of_trimBy {p q : Byte → Bool} (hpq : ∀ c, p c → q c) {v : Bytes}
    (h : trimBy q v = v) : trimBy p v = v := by
  refine (trimBy_inside p v).eq_of_length_le ?_
  conv_lhs => rw [← h, ← trimBy_trimBy hpq]
  exact (trimBy_inside q _).length_le

theorem trimBy_idem (p : Byte → Bool) (v : Bytes) : trimBy p (trimBy p v) = trimBy p v :=
  trimBy_trimBy (fun _ h => h) v

/-! ### Numbers -/

/-- Value of a run of decimal digits, accumulated from the left. -/
def decimalValue (v : Bytes) : ℕ := v.foldl (fun n c => n * 10 + (c.toNat - 48)) 0

theorem decimalValue_lt {v : Bytes} (h : ∀ c ∈ v, isDigit c = true) :
    decimalValue v < 10 ^ v.length := by
  have key : ∀ (v : Bytes) (n : ℕ), (∀ c ∈ v, isDigit c = true) →
      v.foldl (fun n c => n * 10 + (c.toNat - 48)) n < (n + 1) * 10 ^ v.length := by
    intro v
    induction v with
    | nil => simp
    | cons c t ih =>
      intro n hd
      have hc := hd c (List.mem_cons_self ..)
      rw [isDigit, Bool.and_eq_true, decide_eq_true_eq, decide_eq_true_eq, UInt8.le_iff_toNat_le,
        UInt8.le_iff_toNat_le] at hc
      have hdigit : c.toNat - 48 + 1 ≤ 10 := by
        have h57 : c.toNat ≤ 57 := hc.2
        omega
      have ht := ih (n * 10 + (c.toNat - 48)) fun d hd' => hd d (List.mem_cons_of_mem _ hd')
      rw [List.foldl_cons, List.length_cons, Nat.pow_succ']
      refine ht.trans_le ?_
      rw [← Nat.mul_assoc]
      exact Nat.mul_le_mul_right _ (by omega)
  have hv := key v 0 h
  rwa [Nat.zero_add, Nat.one_mul] at hv

/-- `std::to_string` of an unsigned number. -/
def decimalText (n : ℕ) : Bytes := (Nat.toDigits 10 n).map fun c => c.toNat.toUInt8

/-- A run of decimal digits with value `n`. -/
def IsDecimal (v : Bytes) (n : ℕ) : Prop :=
  v ≠ [] ∧ (∀ c ∈ v, isDigit c = true) ∧ decimalValue v = n

instance (v : Bytes) (n : ℕ) : Decidable (IsDecimal v n) := by
  unfold IsDecimal
  infer_instance

theorem decimalText_digit {n : ℕ} (h : n < 10) : decimalText n = [48 + n.toUInt8] := by
  rw [decimalText, Nat.toDigits_of_lt_base h]
  revert n
  decide

theorem decimalText_step {n : ℕ} (h : 10 ≤ n) :
    decimalText n = decimalText (n / 10) ++ [48 + (n % 10).toUInt8] := by
  rw [decimalText, Nat.toDigits_of_base_le (by decide) h, List.map_append]
  have hd := decimalText_digit (Nat.mod_lt n (show 0 < 10 by decide))
  rw [decimalText, Nat.toDigits_of_lt_base (Nat.mod_lt n (by decide))] at hd
  rw [hd, decimalText]

theorem digit_spec {d : ℕ} (h : d < 10) :
    isDigit (48 + d.toUInt8) = true ∧ (48 + d.toUInt8).toNat - 48 = d := by
  revert d
  decide

theorem isDecimal_decimalText (n : ℕ) : IsDecimal (decimalText n) n := by
  induction n using Nat.strongRecOn with
  | ind n ih =>
    by_cases h : n < 10
    · obtain ⟨hdigit, hval⟩ := digit_spec h
      rw [decimalText_digit h]
      refine ⟨List.cons_ne_nil _ _, fun c hc => ?_, ?_⟩
      · rw [List.mem_singleton.mp hc]
        exact hdigit
      · rw [decimalValue, List.foldl_cons, List.foldl_nil, hval, Nat.zero_mul, Nat.zero_add]
    · obtain ⟨-, hall, hval⟩ := ih (n / 10) (Nat.div_lt_self (by omega) (by decide))
      obtain ⟨hdigit, hlast⟩ := digit_spec (Nat.mod_lt n (show 0 < 10 by decide))
      rw [decimalText_step (by omega)]
      refine ⟨by simp, fun c hc => ?_, ?_⟩
      · rcases List.mem_append.mp hc with hc | hc
        · exact hall c hc
        · rw [List.mem_singleton.mp hc]
          exact hdigit
      · unfold decimalValue at hval ⊢
        rw [List.foldl_append, hval, List.foldl_cons, List.foldl_nil, hlast]
        omega

theorem decimalText_length_le {n k : ℕ} (hk : 0 < k) :
    (decimalText n).length ≤ k ↔ n < 10 ^ k := by
  rw [decimalText, List.length_map]
  exact Nat.length_toDigits_le_iff (by decide) hk

end Aevrix
