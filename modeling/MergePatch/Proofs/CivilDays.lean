import Mathlib
import MergePatch.Time.Civil
/-!
# Day numbers and civil dates

`Date.ofDays` is the era algorithm on days since 1970-01-01. An era of 400 Gregorian years has
146097 days; the year is counted from March, so that a leap day ends it, and the month comes from
the day of that year. The parts of the algorithm are named here (`eraOf`, `dayOfEra`,
`yearOfEra`, `daysBeforeYear`, `ofMarchDay`) and `Date.ofDays_eq` puts them together again.

Main statements:

* `Date.toDays_ofDays`: counting the days of the date of a day number gives the number back;
* `Date.ofDays_shape`: that date has a month of the year and a day within the month, so
  `Date.isValid_ofDays` asks only for its year to be in range;
* `Timestamp.ofParts_date`: a moment is its date and its clock again, the leap part kept.

`Timestamp.IsRepresentable` is a moment the calendar can show. The day of an era is split as
`36524 c + 1461 k + s` (centuries, four-year cycles, days) by `Date.era_split`; once the
quotients are named, `omega` proves the year of the era exact.
-/

namespace MergePatch

namespace Date

/-- Days of an era before its year `yoe`, the years counted from March. -/
def daysBeforeYear (yoe : Int) : Int := 365 * yoe + yoe / 4 - yoe / 100

/-- The year of an era in which its day `doe` falls. -/
def yearOfEra (doe : Int) : Int := (doe - doe / 1460 + doe / 36524 - doe / 146096) / 365

/-- The date of day `doy` of the year `y` counted from March. -/
def ofMarchDay (y doy : Int) : Date :=
  let mp := (5 * doy + 2) / 153
  let month := if mp < 10 then mp + 3 else mp - 9
  ⟨y + (if month ≤ 2 then 1 else 0), month.toNat, (doy - (153 * mp + 2) / 5 + 1).toNat⟩

/-- The era of a day number. -/
def eraOf (z : Int) : Int := Int.fdiv (z + 719468) 146097

/-- The day of its era of a day number. -/
def dayOfEra (z : Int) : Int := z + 719468 - eraOf z * 146097

theorem ofDays_eq (z : Int) :
    ofDays z = ofMarchDay (yearOfEra (dayOfEra z) + eraOf z * 400)
      (dayOfEra z - daysBeforeYear (yearOfEra (dayOfEra z))) := rfl

theorem toDays_ofMarchDay {y doy : Int} (h0 : 0 ≤ doy) (h1 : doy ≤ 365) :
    (ofMarchDay y doy).toDays =
      y / 400 * 146097 + daysBeforeYear (y - y / 400 * 400) + doy - 719468 := by
  have hmp0 : 0 ≤ (5 * doy + 2) / 153 := by omega
  have hmp1 : (5 * doy + 2) / 153 ≤ 11 := by omega
  have hday : 0 ≤ doy - (153 * ((5 * doy + 2) / 153) + 2) / 5 + 1 := by omega
  simp only [ofMarchDay, toDays, daysBeforeYear,
    Int.fdiv_eq_ediv_of_nonneg _ (show (0 : Int) ≤ 400 by norm_num)]
  split_ifs <;> omega

theorem era_split {doe : Int} (h0 : 0 ≤ doe) (h1 : doe < 146096) :
    ∃ c k s, doe = 36524 * c + 1461 * k + s ∧ 0 ≤ c ∧ c ≤ 3 ∧ 0 ≤ k ∧ k ≤ 24 ∧ 0 ≤ s ∧ s ≤ 1460 ∧
      (k = 24 → s ≤ 1459) :=
  ⟨doe / 36524, doe % 36524 / 1461, doe % 36524 % 1461, by omega, by omega, by omega, by omega,
    by omega, by omega, by omega, by omega⟩

theorem yearOfEra_split {c k s : Int} (hc0 : 0 ≤ c) (hc3 : c ≤ 3) (hk0 : 0 ≤ k) (hk : k ≤ 24)
    (hs0 : 0 ≤ s) (hs : s ≤ 1460) (hks : k = 24 → s ≤ 1459) :
    yearOfEra (36524 * c + 1461 * k + s) = 100 * c + 4 * k + min (s / 365) 3 := by
  have h146096 : (36524 * c + 1461 * k + s) / 146096 = 0 := by omega
  have h36524 : (36524 * c + 1461 * k + s) / 36524 = c := by omega
  have h1460 : (36524 * c + 1461 * k + s) / 1460 = 25 * c + k + (24 * c + k + s) / 1460 := by
    omega
  unfold yearOfEra
  omega

theorem daysBeforeYear_split {c k j : Int} (hk0 : 0 ≤ k) (hk : k ≤ 24) (hj0 : 0 ≤ j)
    (hj : j ≤ 3) : daysBeforeYear (100 * c + 4 * k + j) = 36524 * c + 1461 * k + 365 * j := by
  unfold daysBeforeYear
  omega

/-- The year of an era is exact: the day falls within it, and only a year before a leap year
has a day 365 (its 29 February). -/
theorem yearOfEra_spec {doe : Int} (h0 : 0 ≤ doe) (h1 : doe < 146097) :
    0 ≤ yearOfEra doe ∧ yearOfEra doe ≤ 399 ∧
      0 ≤ doe - daysBeforeYear (yearOfEra doe) ∧ doe - daysBeforeYear (yearOfEra doe) ≤ 365 ∧
      (doe - daysBeforeYear (yearOfEra doe) = 365 →
        (yearOfEra doe + 1) % 4 = 0 ∧
          ((yearOfEra doe + 1) % 100 ≠ 0 ∨ (yearOfEra doe + 1) % 400 = 0)) := by
  rcases lt_or_eq_of_le (show doe ≤ 146096 by omega) with hlt | rfl
  · obtain ⟨c, k, s, rfl, hc0, hc3, hk0, hk, hs0, hs, hks⟩ := era_split h0 hlt
    rw [yearOfEra_split hc0 hc3 hk0 hk hs0 hs hks,
      daysBeforeYear_split hk0 hk (by omega) (by omega)]
    omega
  · -- the last day of an era is the leap day of its last year
    have hy : yearOfEra 146096 = 399 := by decide
    have hd : daysBeforeYear 399 = 145731 := by decide
    rw [hy, hd]
    omega

theorem eraOf_eq (z : Int) : eraOf z = (z + 719468) / 146097 :=
  Int.fdiv_eq_ediv_of_nonneg _ (by norm_num)

theorem dayOfEra_bounds (z : Int) : 0 ≤ dayOfEra z ∧ dayOfEra z < 146097 := by
  simp only [dayOfEra, eraOf_eq]
  omega

/-- Counting the days of the date of a day number gives the number back. -/
theorem toDays_ofDays (z : Int) : (ofDays z).toDays = z := by
  obtain ⟨h0, h1⟩ := dayOfEra_bounds z
  obtain ⟨hy0, hy1, hd0, hd1, -⟩ := yearOfEra_spec h0 h1
  rw [ofDays_eq, toDays_ofMarchDay hd0 hd1]
  have hera : (yearOfEra (dayOfEra z) + eraOf z * 400) / 400 = eraOf z := by omega
  rw [hera, add_sub_cancel_right]
  simp only [dayOfEra]
  omega

theorem ofMarchDay_shape {y doy : Int} (h0 : 0 ≤ doy) (h1 : doy ≤ 365)
    (hleap : doy = 365 → isLeap (y + 1) = true) :
    1 ≤ (ofMarchDay y doy).month ∧ (ofMarchDay y doy).month ≤ 12 ∧ 1 ≤ (ofMarchDay y doy).day ∧
      (ofMarchDay y doy).day ≤ monthLength (ofMarchDay y doy).year (ofMarchDay y doy).month := by
  -- the months from March run over `mp = 0..11`; only February (`mp = 11`) ends on a leap day
  have hmp0 : 0 ≤ (5 * doy + 2) / 153 := by omega
  have hmp1 : (5 * doy + 2) / 153 ≤ 11 := by omega
  simp only [ofMarchDay, monthLength]
  split_ifs <;> simp_all <;> omega

theorem isLeap_of_mod {y : Int} (h4 : y % 4 = 0) (h : y % 100 ≠ 0 ∨ y % 400 = 0) :
    isLeap y = true := by
  simp only [isLeap, Bool.or_eq_true, Bool.and_eq_true, beq_iff_eq, bne_iff_ne, ne_eq]
  omega

/-- Every day number names a real calendar date: a month of the year and a day of the month. -/
theorem ofDays_shape (z : Int) :
    1 ≤ (ofDays z).month ∧ (ofDays z).month ≤ 12 ∧ 1 ≤ (ofDays z).day ∧
      (ofDays z).day ≤ monthLength (ofDays z).year (ofDays z).month := by
  obtain ⟨h0, h1⟩ := dayOfEra_bounds z
  obtain ⟨-, -, hd0, hd1, hlast⟩ := yearOfEra_spec h0 h1
  rw [ofDays_eq]
  refine ofMarchDay_shape hd0 hd1 fun h365 => ?_
  -- whole eras of 400 years keep the residues that make a leap year
  obtain ⟨h4, h100⟩ := hlast h365
  apply isLeap_of_mod <;> omega

theorem isValid_ofDays {z : Int} (hlo : minYear ≤ (ofDays z).year)
    (hhi : (ofDays z).year ≤ maxYear) : (ofDays z).isValid = true := by
  obtain ⟨hm0, hm1, hd0, hd1⟩ := ofDays_shape z
  simp only [isValid, Bool.and_eq_true, decide_eq_true_eq]
  omega

theorem weekday_lt (d : Date) : d.weekday < 7 := by
  show ((d.toDays + 4) % 7).toNat < 7
  omega

theorem monthLength_le (y : Int) (m : Nat) : monthLength y m ≤ 31 := by
  unfold monthLength
  split_ifs <;> omega

theorem bounds_of_isValid {d : Date} (hv : d.isValid = true) :
    minYear ≤ d.year ∧ d.year ≤ maxYear ∧ 1 ≤ d.month ∧ d.month ≤ 12 ∧ 1 ≤ d.day ∧
      d.day ≤ 31 := by
  have := monthLength_le d.year d.month
  simp only [isValid, Bool.and_eq_true, decide_eq_true_eq] at hv
  omega

end Date

namespace Timestamp

theorem secondOfDay_eq (t : Timestamp) : (t.secondOfDay : Int) = t.secs % 86400 := by
  show ((t.secs % 86400).toNat : Int) = _
  omega

theorem secondOfDay_lt (t : Timestamp) : t.secondOfDay < 86400 := by
  have := secondOfDay_eq t
  omega

theorem toDays_date (t : Timestamp) : t.date.toDays = t.secs / 86400 := by
  rw [date, Date.toDays_ofDays, Int.fdiv_eq_ediv_of_nonneg _ (by norm_num)]

theorem secs_eq (t : Timestamp) : t.secs = t.date.toDays * 86400 + t.secondOfDay := by
  have := secondOfDay_eq t
  rw [toDays_date]
  omega

theorem hour_lt (t : Timestamp) : t.hour < 24 := by
  have := secondOfDay_lt t
  unfold hour
  omega

theorem minute_lt (t : Timestamp) : t.minute < 60 := by
  unfold minute
  omega

theorem clock_eq (t : Timestamp) :
    t.hour * 3600 + t.minute * 60 + t.secondOfDay % 60 = t.secondOfDay := by
  unfold hour minute
  omega

/-- A moment is rebuilt from its date and its clock, the leap part kept in the nanoseconds. -/
theorem ofParts_date (t : Timestamp) (n : Nat) :
    ofParts t.date t.hour t.minute (t.secondOfDay % 60) n = ⟨t.secs, n⟩ := by
  have h := secs_eq t
  rw [ofParts, clock_eq, ← h]

theorem second_truncSecs (t : Timestamp) : t.truncSecs.second = t.second := by
  have h : t.truncSecs.nanos / 1000000000 = t.nanos / 1000000000 := by
    show (t.nanos - t.nanos % 1000000000) / 1000000000 = _
    omega
  simp only [second, h]
  rfl

/-- A moment the calendar can show: its year is in range, and nanoseconds from `10^9` mark a
leap second only in the last second of a minute. -/
structure IsRepresentable (t : Timestamp) : Prop where
  year_ge : Date.minYear ≤ t.date.year
  year_le : t.date.year ≤ Date.maxYear
  leap : t.nanos < 1000000000 ∨ t.nanos < 2000000000 ∧ t.secondOfDay % 60 = 59

theorem IsRepresentable.isValid {t : Timestamp} (h : t.IsRepresentable) :
    t.date.isValid = true :=
  Date.isValid_ofDays h.year_ge h.year_le

end Timestamp

end MergePatch
