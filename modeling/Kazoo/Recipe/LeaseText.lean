import Kazoo.JsonText
import Kazoo.Lib.Gregorian
import Kazoo.Protocol.RoundTrip
import Kazoo.Recipe.Contenders
import Mathlib.Data.List.TakeWhile

/-!
# What a lease holder writes

`NonBlockingLease._encode` and `_decode` of `kazoo/recipe/lease.py`, and the text of the end of a
lease.  The format has no fraction of a second.
-/

namespace Kazoo

/-! ## Dates -/

/-- The microseconds of the years 1 to 9999. -/
def dateLimit : Nat := 3652059 * 86400000000

/-- A `datetime` without a time zone, in microseconds since the start of the year 1. -/
abbrev DateTime := Fin dateLimit

namespace DateTime

/-- `self + duration`; past the year 9999 that is an `OverflowError`. -/
def add (x : DateTime) (duration : Nat) : Option DateTime :=
  if h : x.val + duration < dateLimit then some ⟨x.val + duration, h⟩ else none

/-- `datetime(year, month, day, hour, minute, second)`; other arguments are a `ValueError`. -/
def ofFields (year month day hour minute second : Nat) : Option DateTime :=
  let days := Gregorian.toOrdinal year month day - 1
  let seconds := (days * 24 + hour) * 3600 + minute * 60 + second
  if Gregorian.Valid year month day ∧ hour < 24 ∧ minute < 60 ∧ second < 60 then
    if h : seconds * 1000000 < dateLimit then some ⟨seconds * 1000000, h⟩ else none
  else none

/-- The fields in the format `"%Y-%m-%dT%H:%M:%S"`. -/
def dateText (year month day hour minute second : Nat) : PyStr :=
  let number := FixedWidth.digits digitChar 10
  number 4 year ++ .ofChar '-' :: (number 2 month ++ .ofChar '-' :: (number 2 day ++
    .ofChar 'T' :: (number 2 hour ++ .ofChar ':' :: (number 2 minute ++
      .ofChar ':' :: (number 2 second ++ [])))))

/-- Year, month and day. -/
def date (x : DateTime) : Nat × Nat × Nat := Gregorian.ofOrdinal (x.val / 86400000000 + 1)

/-- `self.strftime("%Y-%m-%dT%H:%M:%S")`. -/
def strftime (x : DateTime) : PyStr :=
  let seconds := x.val / 1000000 % 86400
  dateText x.date.1 x.date.2.1 x.date.2.2 (seconds / 3600) (seconds / 60 % 60) (seconds % 60)

/-- A number of at least `least` and at most `most` digits, and what follows it. -/
def scanNumber (least most : Nat) (s : PyStr) : Option (Nat × PyStr) :=
  let digits := (s.take most).takeWhile CodePoint.isDigit
  if least ≤ digits.length then
    some (digits.foldl (fun n c => 10 * n + (c.val - 48)) 0, s.drop digits.length)
  else none

/-- `datetime.strptime(s, "%Y-%m-%dT%H:%M:%S")`. -/
def strptime (s : PyStr) : Option DateTime := do
  let (year, s) ← scanNumber 4 4 s
  let (month, s) ← scanNumber 1 2 (← expect (.ofChar '-') s)
  let (day, s) ← scanNumber 1 2 (← expect (.ofChar '-') s)
  let (hour, s) ← scanNumber 1 2 (← expect (.ofChar 'T') s)
  let (minute, s) ← scanNumber 1 2 (← expect (.ofChar ':') s)
  let (second, s) ← scanNumber 1 2 (← expect (.ofChar ':') s)
  if s = [] then ofFields year month day hour minute second else none

/-- Without the fraction of a second. -/
def wholeSeconds (x : DateTime) : DateTime := ⟨x.val - x.val % 1000000, by omega⟩

theorem scanNumber_digits {least most n : Nat} (hn : n < 10 ^ most) (hleast : least ≤ most)
    (rest : PyStr) :
    scanNumber least most (FixedWidth.digits digitChar 10 most n ++ rest) = some (n, rest) := by
  have hdigit : ∀ d < 10, (digitChar d).isDigit = true ∧ (digitChar d).val - 48 = d := by decide
  have hall : ∀ c ∈ FixedWidth.digits digitChar 10 most n, c.isDigit = true := by
    intro c hc
    obtain ⟨d, hd, rfl⟩ := FixedWidth.mem_digits digitChar 10 (by decide) hn c hc
    exact (hdigit d hd).1
  have htake : (FixedWidth.digits digitChar 10 most n ++ rest).take most =
      FixedWidth.digits digitChar 10 most n :=
    List.take_left' (FixedWidth.length_digits digitChar 10 most n)
  have hvalue : (FixedWidth.digits digitChar 10 most n).foldl (fun m c => 10 * m + (c.val - 48)) 0 =
      0 * 10 ^ most + n :=
    FixedWidth.foldl_digits digitChar 10 (fun d hd => (hdigit d hd).2) hn 0
  have hwhile : (FixedWidth.digits digitChar 10 most n).takeWhile CodePoint.isDigit =
      FixedWidth.digits digitChar 10 most n := List.takeWhile_eq_self_iff.mpr hall
  simp only [scanNumber, htake, hwhile, FixedWidth.length_digits,
    hleast, if_true, hvalue, Nat.zero_mul, Nat.zero_add]
  rw [List.drop_left' (FixedWidth.length_digits digitChar 10 most n)]

theorem strptime_dateText {year month day hour minute second : Nat} (hyear : year < 10 ^ 4)
    (hmonth : month < 10 ^ 2) (hday : day < 10 ^ 2) (hhour : hour < 10 ^ 2)
    (hminute : minute < 10 ^ 2) (hsecond : second < 10 ^ 2) :
    strptime (dateText year month day hour minute second) =
      ofFields year month day hour minute second := by
  simp only [strptime, dateText, Option.bind_eq_bind, Option.bind_some, expect, if_true,
    scanNumber_digits hyear (Nat.le_refl 4), scanNumber_digits hmonth (by decide : 1 ≤ 2),
    scanNumber_digits hday (by decide : 1 ≤ 2), scanNumber_digits hhour (by decide : 1 ≤ 2),
    scanNumber_digits hminute (by decide : 1 ≤ 2), scanNumber_digits hsecond (by decide : 1 ≤ 2)]

theorem date_spec (x : DateTime) :
    Gregorian.Valid x.date.1 x.date.2.1 x.date.2.2 ∧
      Gregorian.toOrdinal x.date.1 x.date.2.1 x.date.2.2 = x.val / 86400000000 + 1 :=
  Gregorian.ofOrdinal_spec (Nat.le_add_left 1 _)

theorem date_lt (x : DateTime) : x.date.1 < 10 ^ 4 ∧ x.date.2.1 < 10 ^ 2 ∧ x.date.2.2 < 10 ^ 2 := by
  have hx : x.val < 3652059 * 86400000000 := x.isLt
  have hvalid := x.date_spec.1
  have hdays : Gregorian.daysBeforeYear 10000 = 3652059 := by decide
  have hyear : x.date.1 ≤ 9999 :=
    Gregorian.ofOrdinal_year_le (Nat.le_add_left 1 _) (by rw [hdays]; omega)
  have hmonth := hvalid.2.2.1
  have hday := Gregorian.day_le hvalid
  omega

/-- Days, hours, minutes and seconds are all of the seconds. -/
theorem seconds_eq (n : Nat) :
    ((n / 86400000000 + 1 - 1) * 24 + n / 1000000 % 86400 / 3600) * 3600 +
      n / 1000000 % 86400 / 60 % 60 * 60 + n / 1000000 % 86400 % 60 = n / 1000000 := by
  omega

/-- A date is read back without the fraction of a second. -/
theorem strptime_strftime (x : DateTime) : strptime x.strftime = some x.wholeSeconds := by
  obtain ⟨hvalid, hordinal⟩ := x.date_spec
  obtain ⟨hyear, hmonth, hday⟩ := x.date_lt
  have hwhole : x.val / 1000000 * 1000000 = x.val - x.val % 1000000 :=
    Nat.div_mul_self_eq_mod_sub_self
  have hlimit : x.val / 1000000 * 1000000 < dateLimit := by
    rw [hwhole]
    exact x.wholeSeconds.isLt
  have htext : x.strftime = dateText x.date.1 x.date.2.1 x.date.2.2
      (x.val / 1000000 % 86400 / 3600) (x.val / 1000000 % 86400 / 60 % 60)
      (x.val / 1000000 % 86400 % 60) := rfl
  rw [htext, strptime_dateText hyear hmonth hday (by omega) (by omega) (by omega), ofFields,
    if_pos ⟨hvalid, by omega, by omega, by omega⟩, hordinal, seconds_eq]
  exact (dif_pos hlimit).trans (congrArg some (Fin.ext hwhole))

theorem ascii_strftime (x : DateTime) : ∀ c ∈ x.strftime, c.val < 128 := by
  have hascii : ∀ d < 10, (digitChar d).val < 128 := by decide
  have hnumber {width n : Nat} (hn : n < 10 ^ width) :
      ∀ c ∈ FixedWidth.digits digitChar 10 width n, c.val < 128 := by
    intro c hc
    obtain ⟨d, hd, rfl⟩ := FixedWidth.mem_digits digitChar 10 (by decide) hn c hc
    exact hascii d hd
  obtain ⟨hyear, hmonth, hday⟩ := x.date_lt
  have hminute : x.val / 1000000 % 86400 / 60 % 60 < 10 ^ 2 := by omega
  have hhour : x.val / 1000000 % 86400 / 3600 < 10 ^ 2 := by omega
  have hsecond : x.val / 1000000 % 86400 % 60 < 10 ^ 2 := by omega
  intro c hc
  simp only [strftime, dateText, List.mem_append, List.mem_cons, List.not_mem_nil, or_false] at hc
  rcases hc with hc | rfl | hc | rfl | hc | rfl | hc | rfl | hc | rfl | hc
  · exact hnumber hyear c hc
  · decide
  · exact hnumber hmonth c hc
  · decide
  · exact hnumber hday c hc
  · decide
  · exact hnumber hhour c hc
  · decide
  · exact hnumber hminute c hc
  · decide
  · exact hnumber hsecond c hc

end DateTime

/-! ## The data of the holder node -/

structure Lease where
  version : Int
  holder : PyStr
  endLease : PyStr
  deriving DecidableEq

namespace Lease

def members (l : Lease) : JsonObject :=
  [(str "version", .int l.version), (str "holder", .str l.holder), (str "end", .str l.endLease)]

/-- `_encode`. -/
def encode (l : Lease) : Except Exn Bytes := PyStr.encode (dumps l.members)

/-- `_decode`. -/
def decode (raw : Bytes) : Option JsonObject :=
  match Bytes.decode raw with
  | .ok s => loads s
  | .error _ => none

theorem decode_encode {l : Lease} (hholder : l.holder.NoSurrogates)
    (hend : l.endLease.NoSurrogates) : ∃ raw, l.encode = .ok raw ∧ decode raw = some l.members := by
  have hascii : (PyStr.encode (dumps l.members)).isOk = true := by
    exact (PyStr.encode_isOk_iff _).mpr (noSurrogates_of_ascii (ascii_dumps l.members))
  obtain ⟨raw, hraw⟩ := (isOk_iff_exists _).mp hascii
  refine ⟨raw, hraw, ?_⟩
  have hclean : l.members.Clean := by
    intro m hm
    simp only [members, List.mem_cons, List.not_mem_nil, or_false] at hm
    have hversion : (str "version").NoSurrogates :=
      noSurrogates_of_ascii (ascii_of_all (by decide))
    have hkey : (str "holder").NoSurrogates :=
      noSurrogates_of_ascii (ascii_of_all (by decide))
    have hkey' : (str "end").NoSurrogates :=
      noSurrogates_of_ascii (ascii_of_all (by decide))
    rcases hm with rfl | rfl | rfl
    · exact ⟨hversion, trivial⟩
    · exact ⟨hkey, hholder⟩
    · exact ⟨hkey', hend⟩
  rw [decode, PyStr.decode_encode hraw]
  exact loads_dumps hclean

end Lease

end Kazoo
