import Mathlib.Data.Nat.Basic
import Mathlib.Order.Monotone.Basic
import Mathlib.Tactic.ByContra

/-!
# Gregorian — the proleptic calendar

Days are counted from 1, the first day of the year 1.  `ofOrdinal` and `toOrdinal` convert between
that count and year, month and day.
-/

namespace Gregorian

def IsLeap (year : Nat) : Prop := 4 ∣ year ∧ (¬ 100 ∣ year ∨ 400 ∣ year)

instance (year : Nat) : Decidable (IsLeap year) := inferInstanceAs (Decidable (_ ∧ _))

/-- The days of the months before `month` in a year that is no leap year. -/
def daysBefore : Nat → Nat
  | 2 => 31 | 3 => 59 | 4 => 90 | 5 => 120 | 6 => 151 | 7 => 181 | 8 => 212 | 9 => 243
  | 10 => 273 | 11 => 304 | 12 => 334
  | _ => 0

def daysIn : Nat → Nat
  | 2 => 28
  | 4 | 6 | 9 | 11 => 30
  | _ => 31

def daysBeforeMonth (leap : Bool) (month : Nat) : Nat :=
  daysBefore month + if leap = true ∧ 2 < month then 1 else 0

def daysInMonth (leap : Bool) (month : Nat) : Nat :=
  daysIn month + if leap = true ∧ month = 2 then 1 else 0

/-- The days of the years before `year`. -/
def daysBeforeYear (year : Nat) : Nat :=
  let y := year - 1
  y * 365 + y / 4 - y / 100 + y / 400

def toOrdinal (year month day : Nat) : Nat :=
  daysBeforeYear year + daysBeforeMonth (decide (IsLeap year)) month + day

/-- Month and day of the `n`-th day of a year, counted from 0. -/
def ofDayOfYear (leap : Bool) (n : Nat) : Nat × Nat :=
  -- an estimate that is at most one month too late
  let month := (n + 50) / 32
  let month := if n < daysBeforeMonth leap month then month - 1 else month
  (month, n - daysBeforeMonth leap month + 1)

def ofOrdinal (ordinal : Nat) : Nat × Nat × Nat :=
  let n := ordinal - 1
  let (n400, n) := (n / 146097, n % 146097)
  let (n100, n) := (n / 36524, n % 36524)
  let (n4, n) := (n / 1461, n % 1461)
  let (n1, n) := (n / 365, n % 365)
  let year := n400 * 400 + n100 * 100 + n4 * 4 + n1 + 1
  if n1 = 4 ∨ n100 = 4 then (year - 1, 12, 31)
  else (year, ofDayOfYear (decide (IsLeap year)) n)

/-- A date of the calendar. -/
def Valid (year month day : Nat) : Prop :=
  1 ≤ year ∧ 1 ≤ month ∧ month ≤ 12 ∧ 1 ≤ day ∧
    day ≤ daysInMonth (decide (IsLeap year)) month

instance (year month day : Nat) : Decidable (Valid year month day) :=
  inferInstanceAs (Decidable (_ ∧ _))

theorem day_le {year month day : Nat} (h : Valid year month day) : day ≤ 31 := by
  have hall : ∀ leap : Bool, ∀ month < 13, daysInMonth leap month ≤ 31 := by decide
  exact Nat.le_trans h.2.2.2.2 (hall _ month (Nat.lt_succ_of_le h.2.2.1))

/-- The estimate is put right. -/
theorem ofDayOfYear_spec (leap : Bool) (n : Nat) (hn : n < if leap = true then 366 else 365) :
    1 ≤ (ofDayOfYear leap n).1 ∧ (ofDayOfYear leap n).1 ≤ 12 ∧ 1 ≤ (ofDayOfYear leap n).2 ∧
      (ofDayOfYear leap n).2 ≤ daysInMonth leap (ofDayOfYear leap n).1 ∧
      daysBeforeMonth leap (ofDayOfYear leap n).1 + (ofDayOfYear leap n).2 = n + 1 := by
  have hall : ∀ leap : Bool, ∀ n < if leap = true then 366 else 365,
      1 ≤ (ofDayOfYear leap n).1 ∧ (ofDayOfYear leap n).1 ≤ 12 ∧ 1 ≤ (ofDayOfYear leap n).2 ∧
        (ofDayOfYear leap n).2 ≤ daysInMonth leap (ofDayOfYear leap n).1 ∧
        daysBeforeMonth leap (ofDayOfYear leap n).1 + (ofDayOfYear leap n).2 = n + 1 := by
    decide +kernel
  exact hall leap n hn

/-! ## Year by year -/

/-- A year by its place in the cycles of 400, 100 and 4 years. -/
theorem daysBeforeYear_of_cycles {a b c e : Nat} (hb : b ≤ 3) (hc : c ≤ 24) (he : e ≤ 3) :
    daysBeforeYear (a * 400 + b * 100 + c * 4 + e + 1) =
      146097 * a + 36524 * b + 1461 * c + 365 * e := by
  have hy : a * 400 + b * 100 + c * 4 + e + 1 - 1 = a * 400 + b * 100 + c * 4 + e := by omega
  have h4 : (a * 400 + b * 100 + c * 4 + e) / 4 = 100 * a + 25 * b + c := by omega
  have h100 : (a * 400 + b * 100 + c * 4 + e) / 100 = 4 * a + b := by omega
  have h400 : (a * 400 + b * 100 + c * 4 + e) / 400 = a := by omega
  simp only [daysBeforeYear, hy, h4, h100, h400]
  omega

theorem isLeap_of_cycles {a b c e : Nat} (hb : b ≤ 3) (hc : c ≤ 24) (he : e ≤ 3) :
    IsLeap (a * 400 + b * 100 + c * 4 + e + 1) ↔ e = 3 ∧ (c ≠ 24 ∨ b = 3) := by
  unfold IsLeap
  omega

/-- The last day of a cycle belongs to the leap year at its end. -/
theorem toOrdinal_lastDay {a b c : Nat} (hb : b ≤ 3) (hc : c ≤ 24) (hleap : c ≠ 24 ∨ b = 3) :
    toOrdinal (a * 400 + b * 100 + c * 4 + 3 + 1) 12 31 =
      146097 * a + 36524 * b + 1461 * c + 1461 := by
  have hyear := (isLeap_of_cycles (a := a) hb hc (Nat.le_refl 3)).mpr ⟨rfl, hleap⟩
  have hdays : daysBeforeMonth true 12 = 335 := by decide
  rw [toOrdinal, decide_eq_true hyear, hdays, daysBeforeYear_of_cycles hb hc (Nat.le_refl 3)]

theorem valid_lastDay {year : Nat} (h : 1 ≤ year) : Valid year 12 31 := by
  refine ⟨h, by omega, by omega, by omega, ?_⟩
  have hdays : ∀ leap : Bool, 31 ≤ daysInMonth leap 12 := by decide
  exact hdays _

theorem ofOrdinal_spec {ordinal : Nat} (h : 1 ≤ ordinal) :
    Valid (ofOrdinal ordinal).1 (ofOrdinal ordinal).2.1 (ofOrdinal ordinal).2.2 ∧
      toOrdinal (ofOrdinal ordinal).1 (ofOrdinal ordinal).2.1 (ofOrdinal ordinal).2.2 = ordinal := by
  obtain ⟨a, r1, ha, hr1⟩ : ∃ a r1, ordinal = 146097 * a + r1 + 1 ∧ r1 < 146097 :=
    ⟨(ordinal - 1) / 146097, (ordinal - 1) % 146097, by omega, by omega⟩
  obtain ⟨b, r2, hb, hr2⟩ : ∃ b r2, r1 = 36524 * b + r2 ∧ r2 < 36524 :=
    ⟨r1 / 36524, r1 % 36524, by omega, by omega⟩
  obtain ⟨c, r3, hc, hr3⟩ : ∃ c r3, r2 = 1461 * c + r3 ∧ r3 < 1461 :=
    ⟨r2 / 1461, r2 % 1461, by omega, by omega⟩
  obtain ⟨e, n, he, hn⟩ : ∃ e n, r3 = 365 * e + n ∧ n < 365 :=
    ⟨r3 / 365, r3 % 365, by omega, by omega⟩
  have hq1 : (ordinal - 1) / 146097 = a := by omega
  have hm1 : (ordinal - 1) % 146097 = r1 := by omega
  have hq2 : r1 / 36524 = b := by omega
  have hm2 : r1 % 36524 = r2 := by omega
  have hq3 : r2 / 1461 = c := by omega
  have hm3 : r2 % 1461 = r3 := by omega
  have hq4 : r3 / 365 = e := by omega
  have hm4 : r3 % 365 = n := by omega
  simp only [ofOrdinal, hq1, hm1, hq2, hm2, hq3, hm3, hq4, hm4]
  by_cases hlast : e = 4 ∨ b = 4
  · rw [if_pos hlast]
    refine ⟨valid_lastDay (by omega), ?_⟩
    rcases hlast with rfl | rfl
    · have hyear : a * 400 + b * 100 + c * 4 + 4 + 1 - 1 = a * 400 + b * 100 + c * 4 + 3 + 1 := by
        omega
      rw [hyear, toOrdinal_lastDay (by omega) (by omega) (by omega)]
      omega
    · have hyear : a * 400 + 4 * 100 + c * 4 + e + 1 - 1 = a * 400 + 3 * 100 + 24 * 4 + 3 + 1 := by
        omega
      rw [hyear, toOrdinal_lastDay (a := a) (b := 3) (c := 24) (by omega) (by omega) (by omega)]
      omega
  · rw [if_neg hlast]
    have hb3 : b ≤ 3 := by omega
    have hc24 : c ≤ 24 := by omega
    have he3 : e ≤ 3 := by omega
    obtain ⟨hmonth, hmonth12, hday, hlength, hsum⟩ := ofDayOfYear_spec
      (decide (IsLeap (a * 400 + b * 100 + c * 4 + e + 1))) n (by split <;> omega)
    refine ⟨⟨by omega, hmonth, hmonth12, hday, hlength⟩, ?_⟩
    rw [toOrdinal, daysBeforeYear_of_cycles hb3 hc24 he3, Nat.add_assoc, hsum]
    omega

theorem daysBeforeYear_mono : Monotone daysBeforeYear := by
  refine monotone_nat_of_le_succ fun year => ?_
  simp only [daysBeforeYear]
  omega

/-- The year of a day before the end of the year `last`. -/
theorem ofOrdinal_year_le {ordinal : Nat} (h : 1 ≤ ordinal) {last : Nat}
    (hlast : ordinal ≤ daysBeforeYear (last + 1)) : (ofOrdinal ordinal).1 ≤ last := by
  obtain ⟨hvalid, hordinal⟩ := ofOrdinal_spec h
  by_contra hlt
  have hmono : daysBeforeYear (last + 1) ≤ daysBeforeYear (ofOrdinal ordinal).1 :=
    daysBeforeYear_mono (Nat.lt_of_not_le hlt)
  have hday := hvalid.2.2.2.1
  unfold toOrdinal at hordinal
  omega

end Gregorian
