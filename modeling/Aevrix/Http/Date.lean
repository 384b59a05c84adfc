import Aevrix.Calendar.Gregorian
import Aevrix.Config.Parser

/-!
# HTTP dates (`http_cache.cpp`)

`format_http_date` and `parse_http_date`. The library's `gmtime` works in UTC and its `mktime` in
the local time of the server, whose zone is a parameter: the offset from UTC in seconds, east
positive.
-/

namespace Aevrix.Http
open Calendar

/-- `std::tm`, without the fields that are not read. -/
structure Tm where
  sec : ℤ := 0
  min : ℤ := 0
  hour : ℤ := 0
  mday : ℤ := 0
  mon : ℤ := 0
  year : ℤ := 0
  wday : ℤ := 0
  deriving DecidableEq

/-- `gmtime`: null where the year does not fit into an `int`. -/
def gmtime (time : ℤ) : Option Tm :=
  let day := date (time / 86400)
  let second := time % 86400
  if -2 ^ 31 ≤ day.year - 1900 ∧ day.year - 1900 < 2 ^ 31 then
    some
      { sec := second % 60
        min := second / 60 % 60
        hour := second / 3600
        mday := day.day
        mon := day.month
        year := day.year - 1900
        -- 1 January 1970 was a Thursday
        wday := (time / 86400 + 4) % 7 }
  else none

/-- `mktime` where local time is `offset` seconds ahead of UTC. -/
def mktime (offset : ℤ) (tm : Tm) : ℤ :=
  dayNumber (tm.year + 1900 + tm.mon / 12) (tm.mon % 12).toNat tm.mday * 86400 +
    tm.hour * 3600 + tm.min * 60 + tm.sec - offset

/-- `std::stoi`: as `std::stoll`, in the range of an `int`. -/
def stoi (text : Bytes) : Option ℤ :=
  (Config.stoll text).bind fun n => if -2 ^ 31 ≤ n ∧ n < 2 ^ 31 then some n else none

def dayNames : List Bytes :=
  [ascii "Sun", ascii "Mon", ascii "Tue", ascii "Wed", ascii "Thu", ascii "Fri", ascii "Sat"]

def months : List Bytes :=
  [ascii "Jan", ascii "Feb", ascii "Mar", ascii "Apr", ascii "May", ascii "Jun",
    ascii "Jul", ascii "Aug", ascii "Sep", ascii "Oct", ascii "Nov", ascii "Dec"]

/-- A number of at least two digits. -/
def twoDigits (n : ℕ) : Bytes := if n < 10 then 48 :: decimalText n else decimalText n

/-- `%Y`, not padded. -/
def yearText (year : ℤ) : Bytes :=
  if year < 0 then 45 :: decimalText year.natAbs else decimalText year.natAbs

/-- The format `%a, %d %b %Y %H:%M:%S GMT` from its parts. -/
def dateText (weekday day month year hour minute second : Bytes) : Bytes :=
  weekday ++ ascii ", " ++ day ++ ascii " " ++ month ++ ascii " " ++ year ++ ascii " " ++ hour ++
    ascii ":" ++ minute ++ ascii ":" ++ second ++ ascii " GMT"

/-- `format_http_date` (`http_cache.cpp:37-47`), in the C locale. -/
def formatHttpDate (time : ℤ) : Bytes := match gmtime time with
  | none => []
  | some tm =>
    dateText (dayNames.getD tm.wday.toNat (ascii "?")) (twoDigits tm.mday.toNat)
      (months.getD tm.mon.toNat (ascii "?")) (yearText (tm.year + 1900)) (twoDigits tm.hour.toNat)
      (twoDigits tm.min.toNat) (twoDigits tm.sec.toNat)

/-- The month whose name it is, or January. -/
def monthIndex (name : Bytes) : ℕ := (months.findIdx? (· == name)).getD 0

/-- `parse_http_date` (`http_cache.cpp:53-104`): what `stoi` refuses is caught. -/
def parseHttpDate (offset : ℤ) (dateStr : Bytes) : ℤ :=
  if dateStr = [] then -1
  else if dateStr.length < 29 then -1
  else
    let tm : Option Tm := do
      let mday ← stoi ((dateStr.drop 5).take 2)
      let mon := monthIndex ((dateStr.drop 8).take 3)
      let year ← stoi ((dateStr.drop 12).take 4)
      let hour ← stoi ((dateStr.drop 17).take 2)
      let min ← stoi ((dateStr.drop 20).take 2)
      let sec ← stoi ((dateStr.drop 23).take 2)
      return {
        sec := sec
        min := min
        hour := hour
        mday := mday
        mon := mon
        year := year - 1900 }
    (tm.map (mktime offset)).getD (-1)

example : formatHttpDate 1445412480 = ascii "Wed, 21 Oct 2015 07:28:00 GMT" := by decide

/-! ### What is read of a date -/

theorem stoi_decimal {v : Bytes} {n : ℕ} (h : IsDecimal v n) (hn : n < 2 ^ 31) :
    stoi v = some (n : ℤ) := by
  rw [stoi, Config.stoll_decimal h, if_pos (by omega), Option.bind_some, if_pos (by omega)]

theorem isDecimal_twoDigits (n : ℕ) : IsDecimal (twoDigits n) n := by
  obtain ⟨hne, hdigits, hvalue⟩ := isDecimal_decimalText n
  unfold twoDigits
  split
  · refine ⟨List.cons_ne_nil _ _, ?_, ?_⟩
    · intro c hc
      rcases List.mem_cons.mp hc with rfl | hc
      · decide
      · exact hdigits c hc
    · exact hvalue
  · exact ⟨hne, hdigits, hvalue⟩

theorem length_twoDigits {n : ℕ} (h : n < 100) : (twoDigits n).length = 2 := by
  unfold twoDigits
  split
  · rename_i hone
    rw [decimalText_digit hone]
    rfl
  · rename_i hone
    have hle : (decimalText n).length ≤ 2 := (decimalText_length_le (by decide)).mpr h
    have hge : ¬(decimalText n).length ≤ 1 := fun hshort =>
      hone ((decimalText_length_le (by decide)).mp hshort)
    omega

theorem length_year {n : ℕ} (hlow : 1000 ≤ n) (hhigh : n ≤ 9999) :
    (decimalText n).length = 4 := by
  have hle : (decimalText n).length ≤ 4 := (decimalText_length_le (by decide)).mpr (by omega)
  have hge : ¬(decimalText n).length ≤ 3 := fun hshort => by
    have hsmall := (decimalText_length_le (by decide)).mp hshort
    omega
  omega

theorem dateText_places {weekday day month year hour minute second : Bytes}
    (hweekday : weekday.length = 3) (hday : day.length = 2) (hmonth : month.length = 3)
    (hyear : year.length = 4) (hhour : hour.length = 2) (hminute : minute.length = 2)
    (hsecond : second.length = 2) {text : Bytes}
    (htext : text = dateText weekday day month year hour minute second) :
    text.length = 29 ∧ (text.drop 5).take 2 = day ∧ (text.drop 8).take 3 = month ∧
      (text.drop 12).take 4 = year ∧ (text.drop 17).take 2 = hour ∧
      (text.drop 20).take 2 = minute ∧ (text.drop 23).take 2 = second := by
  subst htext
  obtain ⟨a, b, c, rfl⟩ := List.length_eq_three.mp hweekday
  obtain ⟨d, d', rfl⟩ := List.length_eq_two.mp hday
  obtain ⟨e, f, g, rfl⟩ := List.length_eq_three.mp hmonth
  obtain ⟨z, tail, rfl⟩ := List.exists_cons_of_length_eq_add_one hyear
  obtain ⟨x, y, w, rfl⟩ := List.length_eq_three.mp (Nat.succ.inj hyear)
  obtain ⟨k, k', rfl⟩ := List.length_eq_two.mp hhour
  obtain ⟨n, n', rfl⟩ := List.length_eq_two.mp hminute
  obtain ⟨r, r', rfl⟩ := List.length_eq_two.mp hsecond
  have hcomma : ascii ", " = [44, 32] := rfl
  have hspace : ascii " " = [32] := rfl
  have hcolon : ascii ":" = [58] := rfl
  have hzone : ascii " GMT" = [32, 71, 77, 84] := rfl
  simp only [dateText, hcomma, hspace, hcolon, hzone, List.cons_append, List.nil_append]
  exact ⟨rfl, rfl, rfl, rfl, rfl, rfl, rfl⟩

theorem parseHttpDate_parts {text day month year hour minute second : Bytes}
    {mday y h m s : ℕ} (hlength : text.length = 29) (hday : (text.drop 5).take 2 = day)
    (hmonth : (text.drop 8).take 3 = month) (hyear : (text.drop 12).take 4 = year)
    (hhour : (text.drop 17).take 2 = hour) (hminute : (text.drop 20).take 2 = minute)
    (hsecond : (text.drop 23).take 2 = second) (hmday : stoi day = some (mday : ℤ))
    (hy : stoi year = some (y : ℤ)) (hh : stoi hour = some (h : ℤ))
    (hm : stoi minute = some (m : ℤ)) (hs : stoi second = some (s : ℤ)) (offset : ℤ) :
    parseHttpDate offset text = mktime offset
      { sec := s
        min := m
        hour := h
        mday := mday
        mon := monthIndex month
        year := y - 1900 } := by
  have hne : text ≠ [] := by
    rintro rfl
    cases hlength
  unfold parseHttpDate
  rw [if_neg hne, if_neg (by omega), hday, hmonth, hyear, hhour, hminute, hsecond, hmday, hy, hh, hm,
    hs]
  simp only [Option.bind_eq_bind, Option.bind_some, Option.pure_def, Option.map_some,
    Option.getD_some]

/-! ### There and back -/

theorem dayName_length {n : ℕ} (h : n < 7) : (dayNames.getD n (ascii "?")).length = 3 := by
  revert n
  decide

theorem month_length {n : ℕ} (h : n < 12) : (months.getD n (ascii "?")).length = 3 := by
  revert n
  decide

theorem monthIndex_month {n : ℕ} (h : n < 12) : monthIndex (months.getD n (ascii "?")) = n := by
  revert n
  decide

/-- A time whose year is written with four digits. -/
def FourDigitYear (time : ℤ) : Prop :=
  1000 ≤ (date (time / 86400)).year ∧ (date (time / 86400)).year ≤ 9999

instance (time : ℤ) : Decidable (FourDigitYear time) := by
  unfold FourDigitYear
  infer_instance

theorem mktime_gmtime (time offset : ℤ) :
    mktime offset
      { sec := time % 86400 % 60
        min := time % 86400 / 60 % 60
        hour := time % 86400 / 3600
        mday := (date (time / 86400)).day
        mon := (date (time / 86400)).month
        year := (date (time / 86400)).year - 1900 } = time - offset := by
  have hmonth := (date (time / 86400)).month_lt
  have hnumber := dayNumber_date (time / 86400)
  simp only [mktime]
  rw [show (date (time / 86400)).year - 1900 + 1900 + ((date (time / 86400)).month : ℤ) / 12 =
      (date (time / 86400)).year by omega,
    show (((date (time / 86400)).month : ℤ) % 12).toNat = (date (time / 86400)).month by omega,
    hnumber]
  omega

/-- The parts of a formatted date. -/
theorem formatHttpDate_eq {time : ℤ} {year hour min sec : ℕ} (hlow : 1000 ≤ year)
    (hhigh : year ≤ 9999) (hyear : (date (time / 86400)).year = year)
    (hhour : time % 86400 / 3600 = hour) (hmin : time % 86400 / 60 % 60 = min)
    (hsec : time % 86400 % 60 = sec) :
    formatHttpDate time = dateText (dayNames.getD ((time / 86400 + 4) % 7).toNat (ascii "?"))
      (twoDigits (date (time / 86400)).day) (months.getD (date (time / 86400)).month (ascii "?"))
      (decimalText year) (twoDigits hour) (twoDigits min) (twoDigits sec) := by
  have hgmtime : gmtime time = some
      { sec := sec
        min := min
        hour := hour
        mday := (date (time / 86400)).day
        mon := (date (time / 86400)).month
        year := year - 1900
        wday := (time / 86400 + 4) % 7 } := by
    unfold gmtime
    simp only [← hsec, ← hmin, ← hhour, ← hyear]
    rw [if_pos (by omega)]
  rw [formatHttpDate, hgmtime]
  simp only [Int.toNat_natCast, yearText]
  rw [if_neg (by omega), show (((year : ℤ) - 1900 + 1900).natAbs) = year by omega]

/-- A formatted date is read as if it were local time. -/
theorem parseHttpDate_formatHttpDate {time : ℤ} (h : FourDigitYear time) (offset : ℤ) :
    parseHttpDate offset (formatHttpDate time) = time - offset := by
  obtain ⟨hlow, hhigh⟩ := h
  have hday := (date (time / 86400)).day_le_31
  have hmonth := (date (time / 86400)).month_lt
  obtain ⟨year, hyear⟩ := Int.eq_ofNat_of_zero_le (show 0 ≤ (date (time / 86400)).year by omega)
  obtain ⟨hour, hhour⟩ := Int.eq_ofNat_of_zero_le (show 0 ≤ time % 86400 / 3600 by omega)
  obtain ⟨min, hmin⟩ := Int.eq_ofNat_of_zero_le (show 0 ≤ time % 86400 / 60 % 60 by omega)
  obtain ⟨sec, hsec⟩ := Int.eq_ofNat_of_zero_le (show 0 ≤ time % 86400 % 60 by omega)
  have hdayLength := length_twoDigits (show (date (time / 86400)).day < 100 by omega)
  have hhourLength := length_twoDigits (show hour < 100 by omega)
  have hminLength := length_twoDigits (show min < 100 by omega)
  have hsecLength := length_twoDigits (show sec < 100 by omega)
  obtain ⟨hlength, hatDay, hatMonth, hatYear, hatHour, hatMin, hatSec⟩ := dateText_places
    (dayName_length (show ((time / 86400 + 4) % 7).toNat < 7 by omega)) hdayLength
    (month_length hmonth) (length_year (by omega) (by omega)) hhourLength hminLength hsecLength
    (formatHttpDate_eq (by omega) (by omega) hyear hhour hmin hsec)
  rw [parseHttpDate_parts hlength hatDay hatMonth hatYear hatHour hatMin hatSec
    (stoi_decimal (isDecimal_twoDigits _) (by omega))
    (stoi_decimal (isDecimal_decimalText _) (by omega))
    (stoi_decimal (isDecimal_twoDigits _) (by omega))
    (stoi_decimal (isDecimal_twoDigits _) (by omega))
    (stoi_decimal (isDecimal_twoDigits _) (by omega)), monthIndex_month hmonth,
    ← mktime_gmtime time offset, hyear, hhour, hmin, hsec]

/-- A date survives just where local time is UTC. -/
theorem dates_roundTrip_iff {time : ℤ} (h : FourDigitYear time) (offset : ℤ) :
    parseHttpDate offset (formatHttpDate time) = time ↔ offset = 0 := by
  rw [parseHttpDate_formatHttpDate h]
  omega

theorem dates_roundTrip_utc :
    parseHttpDate 0 (formatHttpDate 1445412480) = 1445412480 :=
  (dates_roundTrip_iff (by decide) 0).mpr rfl

theorem date_shifted : ¬∀ time offset : ℤ, FourDigitYear time →
    parseHttpDate offset (formatHttpDate time) = time := by
  intro h
  have hsame := h 1445412480 3600 (by decide)
  have hshift : parseHttpDate 3600 (formatHttpDate 1445412480) = 1445408880 := by decide
  rw [hshift] at hsame
  cases hsame

end Aevrix.Http
