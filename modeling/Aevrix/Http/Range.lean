import Aevrix.Http.RequestFraming
import Aevrix.Incremental.Search

/-!
# Range values (`http_cache.cpp`)

`parse_range_header` with both outputs, and the single byte ranges of RFC 7233 that it reads: the
bytes each of them selects, and where the code agrees.
-/

namespace Aevrix.Http
open Incremental

/-- `std::stoull` in base 10; `unsigned long long` is as wide as `unsigned long`. -/
def stoull : Bytes → Option ℕ := stoul

/-- `start_out` and `end_out`. -/
structure ByteRange where
  start : UInt64
  last : UInt64
  deriving DecidableEq

/-- One of the two numbers, `missing` where there is no text for it. -/
def rangeBound (text : Bytes) (missing : UInt64) : Option UInt64 :=
  if text = [] then some missing else (stoull text).map Nat.toUInt64

/-- `parse_range_header` (`http_cache.cpp:182-219`) from the outputs as they were. -/
def parseRangeHeader (rangeHeader : Bytes) (fileSize : UInt64) (out : ByteRange) :
    Bool × ByteRange :=
  if rangeHeader = [] then (false, out)
  else if rangeHeader.take 6 ≠ ascii "bytes=" then (false, out)
  else
    let rangeSpec := rangeHeader.drop 6
    if 45 ∉ rangeSpec then (false, out)
    else
      let startStr := rangeSpec.takeWhile (· != 45)
      let endStr := (rangeSpec.dropWhile (· != 45)).drop 1
      match rangeBound startStr 0 with
      | none => (false, out)
      | some start =>
        -- for an empty file this wraps around to the largest size
        match rangeBound endStr (fileSize - 1) with
        | none => (false, out)
        | some last =>
          if fileSize ≤ start ∨ fileSize ≤ last ∨ last < start then (false, out)
          else (true, ⟨start, last⟩)

/-! ### Byte ranges -/

/-- A single byte range: from one position to another, from a position on, or so many last bytes. -/
inductive RangeSpec where
  | between (first last : ℕ)
  | fromFirst (first : ℕ)
  | suffix (length : ℕ)

/-- The first and the last byte selected of `size` bytes, unless the range is unsatisfiable. -/
def RangeSpec.selects (size : ℕ) : RangeSpec → Option (ℕ × ℕ)
  | between first last =>
    if first ≤ last ∧ first < size then some (first, min last (size - 1)) else none
  | fromFirst first => if first < size then some (first, size - 1) else none
  | suffix length =>
    if 0 < length ∧ 0 < size then some (size - min length size, size - 1) else none

/-- How a range is written. -/
def RangeSpec.Denoted (header : Bytes) : RangeSpec → Prop
  | between first last => ∃ x y, header = ascii "bytes=" ++ (x ++ 45 :: y) ∧
      IsDecimal x first ∧ IsDecimal y last
  | fromFirst first => ∃ x, header = ascii "bytes=" ++ (x ++ [45]) ∧ IsDecimal x first
  | suffix length => ∃ y, header = ascii "bytes=" ++ 45 :: y ∧ IsDecimal y length

/-- What is selected lies in the file as it is written. -/
def RangeSpec.Inside (size : ℕ) : RangeSpec → Prop
  | between _ last => last < size
  | _ => True

/-- A range that names its first byte. -/
def RangeSpec.HasFirst : RangeSpec → Prop
  | suffix _ => False
  | _ => True

/-- The text of a number: blanks, a sign, a digit, anything. -/
def Numeric (text : Bytes) : Prop :=
  ∃ blanks sign digit rest, text = blanks ++ (sign ++ digit :: rest) ∧
    (∀ c ∈ blanks, isSpace c = true) ∧ sign ∈ [[], [43], [45]] ∧ isDigit digit = true

/-- Two numbers and the dash between them, where either may be missing. -/
def RangeShaped (header : Bytes) : Prop :=
  ∃ x y, header = ascii "bytes=" ++ (x ++ 45 :: y) ∧ 45 ∉ x ∧ (x = [] ∨ Numeric x) ∧
    (y = [] ∨ Numeric y)

section parse
variable {header x y : Bytes} {fileSize : UInt64} {out : ByteRange}

/-! ### Numbers -/

theorem rangeBound_digits {n : ℕ} (h : IsDecimal x n) {missing bound : UInt64} :
    rangeBound x missing = some bound ↔ bound.toNat = n := by
  rw [rangeBound, if_neg h.1, stoull, stoul_digits h]
  have hlt : bound.toNat < 2 ^ 64 := bound.toNat_lt
  split
  · rename_i hlarge
    simp only [Option.map_none, reduceCtorEq, false_iff]
    omega
  · rename_i hsmall
    rw [Option.map_some, Option.some.injEq]
    constructor
    · rintro rfl
      exact UInt64.toNat_ofNat_of_lt' (Nat.not_le.mp hsmall)
    · rintro rfl
      exact UInt64.ofNat_toNat

theorem exists_digit {t : Bytes} (h : t.takeWhile isDigit ≠ []) :
    ∃ digit rest, t = digit :: rest ∧ isDigit digit = true := by
  cases t with
  | nil => exact (h rfl).elim
  | cons digit rest =>
    by_cases hdigit : isDigit digit = true
    · exact ⟨digit, rest, rfl, hdigit⟩
    · exact (h (List.takeWhile_cons_of_neg hdigit)).elim

theorem numeric_of_stoull {n : ℕ} (h : stoull x = some n) : Numeric x := by
  have hsplit : x.takeWhile isSpace ++ x.dropWhile isSpace = x := List.takeWhile_append_dropWhile
  have hblanks : ∀ c ∈ x.takeWhile isSpace, isSpace c = true := fun c hc =>
    List.mem_takeWhile_imp hc
  have hnumber : ∃ sign t, x.dropWhile isSpace = sign ++ t ∧ sign ∈ [[], [43], [45]] ∧
      t.takeWhile isDigit ≠ [] := by
    simp only [stoull, stoul] at h
    split at h
    · rename_i t heq
      refine ⟨[45], t, heq, by decide, fun hnil => ?_⟩
      rw [if_pos hnil] at h
      cases h
    · rename_i t heq
      refine ⟨[43], t, heq, by decide, fun hnil => ?_⟩
      rw [if_pos hnil] at h
      cases h
    · refine ⟨[], x.dropWhile isSpace, rfl, by decide, fun hnil => ?_⟩
      rw [if_pos hnil] at h
      cases h
  obtain ⟨sign, t, ht, hsign, hdigits⟩ := hnumber
  obtain ⟨digit, rest, rfl, hdigit⟩ := exists_digit hdigits
  exact ⟨x.takeWhile isSpace, sign, digit, rest, by rw [← ht, hsplit], hblanks, hsign, hdigit⟩

theorem numeric_of_rangeBound {missing bound : UInt64} (h : rangeBound x missing = some bound) :
    x = [] ∨ Numeric x := by
  unfold rangeBound at h
  split at h
  · exact Or.inl ‹_›
  · obtain ⟨n, hn, -⟩ := Option.map_eq_some_iff.mp h
    exact Or.inr (numeric_of_stoull hn)

theorem dash_notMem {n : ℕ} (h : IsDecimal x n) : 45 ∉ x := by
  intro hmem
  have hdigit := h.2.1 45 hmem
  cases hdigit

/-! ### What is read -/

/-- The outcome of the two numbers. -/
def servedRange (fileSize : UInt64) (out : ByteRange) : Option UInt64 → Option UInt64 →
    Bool × ByteRange
  | some start, some last =>
    if fileSize ≤ start ∨ fileSize ≤ last ∨ last < start then (false, out) else (true, ⟨start, last⟩)
  | _, _ => (false, out)

theorem parseRangeHeader_shaped (hdash : 45 ∉ x) :
    parseRangeHeader (ascii "bytes=" ++ (x ++ 45 :: y)) fileSize out =
      servedRange fileSize out (rangeBound x 0) (rangeBound y (fileSize - 1)) := by
  have htake : (ascii "bytes=" ++ (x ++ 45 :: y)).take 6 = ascii "bytes=" := rfl
  have hdrop : (ascii "bytes=" ++ (x ++ 45 :: y)).drop 6 = x ++ 45 :: y := rfl
  unfold parseRangeHeader
  simp only [htake, hdrop, takeWhile_cut hdash, dropWhile_cut hdash, List.drop_one, List.tail_cons]
  rw [if_neg (by simp), if_neg (by simp), if_neg (by simp)]
  cases rangeBound x 0 with
  | none => rfl
  | some start =>
    cases rangeBound y (fileSize - 1) with
    | none => rfl
    | some last => rfl

theorem parseRangeHeader_unshaped
    (h : ∀ x y, 45 ∉ x → header ≠ ascii "bytes=" ++ (x ++ 45 :: y)) :
    parseRangeHeader header fileSize out = (false, out) := by
  unfold parseRangeHeader
  split
  · rfl
  split
  · rfl
  rename_i hunit
  simp only
  split
  · rfl
  rename_i hdash
  obtain ⟨x, y, hsplit, hx⟩ := List.eq_append_cons_of_mem (not_not.mp hdash)
  refine (h x y hx ?_).elim
  rw [← hsplit, ← not_not.mp hunit, List.take_append_drop]

theorem servedRange_iff {bound bound' : Option UInt64} {start last : UInt64} :
    servedRange fileSize out bound bound' = (true, ⟨start, last⟩) ↔
      bound = some start ∧ bound' = some last ∧ start ≤ last ∧ last < fileSize := by
  cases bound with
  | none => simp [servedRange]
  | some first =>
    cases bound' with
    | none => simp [servedRange]
    | some final =>
      by_cases hrange : fileSize ≤ first ∨ fileSize ≤ final ∨ final < first
      · simp only [servedRange, if_pos hrange, Prod.mk.injEq, Option.some.injEq, false_iff,
          Bool.false_eq_true, false_and]
        rintro ⟨rfl, rfl, hle, hlt⟩
        rw [UInt64.le_iff_toNat_le, UInt64.le_iff_toNat_le, UInt64.lt_iff_toNat_lt] at hrange
        rw [UInt64.le_iff_toNat_le] at hle
        rw [UInt64.lt_iff_toNat_lt] at hlt
        omega
      · simp only [servedRange, if_neg hrange, Prod.mk.injEq, ByteRange.mk.injEq,
          Option.some.injEq, true_and]
        rw [not_or, not_or] at hrange
        constructor
        · rintro ⟨rfl, rfl⟩
          exact ⟨rfl, rfl, UInt64.not_lt.mp hrange.2.2, UInt64.not_le.mp hrange.2.1⟩
        · rintro ⟨rfl, rfl, -, -⟩
          exact ⟨rfl, rfl⟩

theorem servedRange_fails {bound bound' : Option UInt64}
    (h : (servedRange fileSize out bound bound').1 = false) :
    (servedRange fileSize out bound bound').2 = out := by
  unfold servedRange at h ⊢
  split at h
  · split at h
    · rename_i hrange
      rw [if_pos hrange]
    · cases h
  · rfl

/-- What is read of a value: nothing, or the two numbers around its first dash. -/
theorem parseRangeHeader_cases (header : Bytes) (fileSize : UInt64) (out : ByteRange) :
    parseRangeHeader header fileSize out = (false, out) ∨
      ∃ x y, header = ascii "bytes=" ++ (x ++ 45 :: y) ∧ 45 ∉ x ∧
        parseRangeHeader header fileSize out =
          servedRange fileSize out (rangeBound x 0) (rangeBound y (fileSize - 1)) := by
  by_cases h : ∃ x y, 45 ∉ x ∧ header = ascii "bytes=" ++ (x ++ 45 :: y)
  · obtain ⟨x, y, hdash, rfl⟩ := h
    exact Or.inr ⟨x, y, rfl, hdash, parseRangeHeader_shaped hdash⟩
  · left
    exact parseRangeHeader_unshaped fun x y hdash heq => h ⟨x, y, hdash, heq⟩

theorem parseRangeHeader_fails (h : (parseRangeHeader header fileSize out).1 = false) :
    (parseRangeHeader header fileSize out).2 = out := by
  rcases parseRangeHeader_cases header fileSize out with hfail | ⟨x, y, -, -, hread⟩
  · rw [hfail]
  · rw [hread] at h ⊢
    exact servedRange_fails h

theorem parseRangeHeader_served {start last : UInt64}
    (h : parseRangeHeader header fileSize out = (true, ⟨start, last⟩)) :
    start ≤ last ∧ last < fileSize ∧ RangeShaped header := by
  rcases parseRangeHeader_cases header fileSize out with hfail | ⟨x, y, heq, hdash, hread⟩
  · rw [hfail] at h
    cases h
  · rw [hread] at h
    obtain ⟨hstart, hlast, hle, hlt⟩ := servedRange_iff.mp h
    exact ⟨hle, hlt, x, y, heq, hdash, numeric_of_rangeBound hstart, numeric_of_rangeBound hlast⟩

/-! ### The ranges that name their first byte -/

theorem between_served {first last : ℕ} (hx : IsDecimal x first) (hy : IsDecimal y last)
    (start stop : UInt64) :
    parseRangeHeader (ascii "bytes=" ++ (x ++ 45 :: y)) fileSize out = (true, ⟨start, stop⟩) ↔
      (RangeSpec.between first last).selects fileSize.toNat = some (start.toNat, stop.toNat) ∧
        last < fileSize.toNat := by
  rw [parseRangeHeader_shaped (dash_notMem hx), servedRange_iff, rangeBound_digits hx,
    rangeBound_digits hy, UInt64.le_iff_toNat_le, UInt64.lt_iff_toNat_lt, RangeSpec.selects]
  constructor
  · rintro ⟨rfl, rfl, hle, hlt⟩
    rw [if_pos ⟨hle, by omega⟩, Nat.min_eq_left (by omega)]
    exact ⟨rfl, hlt⟩
  · rintro ⟨hselects, hlt⟩
    split at hselects
    · rename_i hrange
      rw [Nat.min_eq_left (by omega), Option.some.injEq, Prod.mk.injEq] at hselects
      exact ⟨hselects.1.symm, hselects.2.symm, by omega, by omega⟩
    · cases hselects

theorem fromFirst_served {first : ℕ} (hx : IsDecimal x first) (start stop : UInt64) :
    parseRangeHeader (ascii "bytes=" ++ (x ++ [45])) fileSize out = (true, ⟨start, stop⟩) ↔
      (RangeSpec.fromFirst first).selects fileSize.toNat = some (start.toNat, stop.toNat) := by
  rw [parseRangeHeader_shaped (dash_notMem hx), servedRange_iff, rangeBound_digits hx,
    show rangeBound [] (fileSize - 1) = some (fileSize - 1) from rfl, Option.some.injEq,
    UInt64.le_iff_toNat_le, UInt64.lt_iff_toNat_lt, RangeSpec.selects]
  have hlast : 0 < fileSize.toNat → (fileSize - 1).toNat = fileSize.toNat - 1 := by
    intro hpos
    exact UInt64.toNat_sub_of_le _ _ (UInt64.le_iff_toNat_le.mpr hpos)
  constructor
  · rintro ⟨rfl, rfl, hle, hlt⟩
    rw [if_pos (by omega), hlast (by omega)]
  · intro hselects
    split at hselects
    · rename_i hrange
      obtain ⟨rfl, hstop⟩ := Prod.mk.inj (Option.some.inj hselects)
      have hstop : stop.toNat = fileSize.toNat - 1 := hstop.symm
      refine ⟨rfl, ?_, by omega, by omega⟩
      rw [← UInt64.toNat_inj, hlast (by omega), hstop]
    · cases hselects

end parse

/-- What is served lies in the file, what is not leaves the outputs as they were. Digits are served
as the range they denote, if it is satisfiable and does not reach past the end; what is not two
numbers around a dash is refused. -/
theorem parseRangeHeader_exact (header : Bytes) (fileSize : UInt64) (out : ByteRange) :
    ((parseRangeHeader header fileSize out).1 = false →
      (parseRangeHeader header fileSize out).2 = out) ∧
    ((parseRangeHeader header fileSize out).1 = true →
      (parseRangeHeader header fileSize out).2.start ≤
          (parseRangeHeader header fileSize out).2.last ∧
        (parseRangeHeader header fileSize out).2.last < fileSize) ∧
    (∀ range : RangeSpec, range.Denoted header → range.HasFirst → ∀ start last : UInt64,
      (parseRangeHeader header fileSize out = (true, ⟨start, last⟩) ↔
        range.selects fileSize.toNat = some (start.toNat, last.toNat) ∧
          range.Inside fileSize.toNat)) ∧
    (¬RangeShaped header → (parseRangeHeader header fileSize out).1 = false) := by
  refine ⟨parseRangeHeader_fails, ?_, ?_, ?_⟩
  · intro hserved
    have hout : parseRangeHeader header fileSize out =
        (true, ⟨(parseRangeHeader header fileSize out).2.start,
          (parseRangeHeader header fileSize out).2.last⟩) := Prod.ext hserved rfl
    obtain ⟨hle, hlt, -⟩ := parseRangeHeader_served hout
    exact ⟨hle, hlt⟩
  · intro range hdenoted hfirst start last
    cases range with
    | between first final =>
      obtain ⟨x, y, rfl, hx, hy⟩ := hdenoted
      exact between_served hx hy start last
    | fromFirst first =>
      obtain ⟨x, rfl, hx⟩ := hdenoted
      rw [fromFirst_served hx]
      exact (and_iff_left trivial).symm
    | suffix length => exact hfirst.elim
  · intro hshape
    rw [← Bool.not_eq_true]
    intro hserved
    exact hshape (parseRangeHeader_served (Prod.ext hserved rfl)).2.2

/-- A range past the end of the file is refused and not cut. -/
theorem range_past_end : ¬∀ (header : Bytes) (fileSize : UInt64) (out : ByteRange),
    (∀ start last : UInt64, parseRangeHeader header fileSize out = (true, ⟨start, last⟩) ↔
      ∃ range : RangeSpec, range.Denoted header ∧
        range.selects fileSize.toNat = some (start.toNat, last.toNat)) ∧
    ((parseRangeHeader header fileSize out).1 = false →
      (parseRangeHeader header fileSize out).2 = out) := by
  intro h
  have hserved := ((h (ascii "bytes=0-3000") 2048 ⟨0, 0⟩).1 0 2047).mpr
    ⟨.between 0 3000, ⟨ascii "0", ascii "3000", by decide, by decide, by decide⟩, by decide⟩
  have hrefused : parseRangeHeader (ascii "bytes=0-3000") 2048 ⟨0, 0⟩ = (false, ⟨0, 0⟩) := by
    decide
  rw [hrefused] at hserved
  cases hserved

end Aevrix.Http
