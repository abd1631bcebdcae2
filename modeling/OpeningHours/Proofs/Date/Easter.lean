import OpeningHours.Proofs.Date.Computus

/-! Easter as the church reckons it.

The full moon of Easter comes from tables: the golden number tells the place of the year in
the cycle of the moon, and the solar and the lunar correction shift the table from century to
century. Two epacts are exceptions, so that no cycle has a full moon twice. Easter is the
first Sunday after the full moon.

From year 0 on all quotients of the computus are floors, and it computes just this. Its moon
and the epact add up to a constant (`fullMoon_eq`), the Sunday is right by the calendar
(`number_sunday`), and the week back makes up for the exceptions (`weeksBack_eq`). -/
namespace OpeningHours

namespace Ecclesiastical

/-- The place of the year in the cycle of 19 years, counted from one. -/
def goldenNumber (year : Int) : Int := year % 19 + 1

/-- The century, counted from one. -/
def century (year : Int) : Int := year / 100 + 1

/-- The leap days that the centuries dropped. -/
def solarCorrection (year : Int) : Int := 3 * century year / 4 - 12

/-- The days by which the moon runs ahead of the cycle. -/
def lunarCorrection (year : Int) : Int := (8 * century year + 5) / 25 - 5

/-- The age of the moon at the start of the year. -/
def cyclicEpact (year : Int) : Int :=
  (11 * goldenNumber year + 20 + lunarCorrection year - solarCorrection year) % 30

/-- The epact, with its two exceptions. -/
def epact (year : Int) : Int :=
  let e := cyclicEpact year
  if e = 24 ∨ e = 25 ∧ 11 < goldenNumber year then e + 1 else e

/-- The day of the full moon, counted from the last day of February. -/
def fullMoon (year : Int) : Int :=
  let n := 44 - epact year
  if n < 21 then n + 30 else n

end Ecclesiastical

/-- The number of a day of a year, whether or not the year is in the calendar. The days of a month
may go on into the next. -/
def dayNumber (year : Int) (month : Nat) (day : Int) : Int :=
  Date.daysBeforeYear year + Date.daysBeforeMonth year month + day

theorem Date.number_eq_dayNumber (d : Date) : d.number = dayNumber d.year d.month d.day := by
  rw [Date.number, Date.ordinal, dayNumber]
  omega

/-- The first Sunday after a day, which is not the day itself. -/
structure IsFirstSundayAfter (day sunday : Int) : Prop where
  weekday : sunday % 7 = 0
  after : day < sunday
  first : ∀ other, other % 7 = 0 → day < other → sunday ≤ other

theorem isFirstSundayAfter_of_within {day sunday : Int} (hweekday : sunday % 7 = 0)
    (hafter : day < sunday) (hwithin : sunday ≤ day + 7) : IsFirstSundayAfter day sunday :=
  ⟨hweekday, hafter, fun other hother hday => by omega⟩

namespace Computus
open Ecclesiastical

variable {year : Int}

/-! ### Floors

From year 0 on every dividend is positive. -/

theorem drift_eq {century : Int} (h : 0 ≤ century) : drift century = (8 * century + 13) / 25 := by
  rw [drift, Int.tdiv_eq_ediv_of_nonneg (a := century + 8) (by omega),
    Int.tdiv_eq_ediv_of_nonneg (by omega)]
  omega

theorem moon_eq (h : 0 ≤ year) : moon year =
    (19 * (year % 19) + year / 100 - year / 100 / 4 - (8 * (year / 100) + 13) / 25 + 15) % 30 := by
  have hcentury : 0 ≤ year / 100 := by omega
  rw [moon, drift_eq hcentury, Int.tdiv_eq_ediv_of_nonneg hcentury]
  exact Int.tmod_eq_emod_of_nonneg (by omega)

theorem untilSunday_eq (h : 0 ≤ year) : untilSunday year =
    (32 + 2 * (year / 100 % 4) + 2 * (year % 100 / 4) - moon year - year % 100 % 4) % 7 := by
  have hmoon := moon_bounds year
  rw [untilSunday, Int.tmod_eq_emod_of_nonneg (a := year / 100) (by omega),
    Int.tdiv_eq_ediv_of_nonneg (a := year % 100) (by omega),
    Int.tmod_eq_emod_of_nonneg (a := year % 100) (by omega)]
  exact Int.tmod_eq_emod_of_nonneg (by omega)

theorem moon_nonneg (h : 0 ≤ year) : 0 ≤ moon year := by
  rw [moon_eq h]
  exact Int.emod_nonneg _ (by decide)

theorem untilSunday_mem (h : 0 ≤ year) : 0 ≤ untilSunday year ∧ untilSunday year ≤ 6 := by
  rw [untilSunday_eq h]
  omega

/-- The years whose epact is an exception. -/
def IsException (year : Int) : Prop := moon year = 29 ∨ moon year = 28 ∧ 11 ≤ year % 19

instance (year : Int) : Decidable (IsException year) := inferInstanceAs (Decidable (_ ∨ _))

/-- The moon of an exceptional year is a day late. The Sunday is late only if it is the day after
the full moon. -/
theorem weeksBack_eq (h : 0 ≤ year) :
    weeksBack year = if IsException year ∧ untilSunday year = 6 then 1 else 0 := by
  have hmoon := moon_bounds year
  have hmoon' := moon_nonneg h
  have hsunday := untilSunday_mem h
  rw [weeksBack, Int.tdiv_eq_ediv_of_nonneg (by omega)]
  unfold IsException
  split <;> omega

/-! ### The full moon -/

theorem solarCorrection_eq (year : Int) :
    solarCorrection year = year / 100 - year / 100 / 4 - 12 := by
  rw [solarCorrection, century]
  omega

theorem lunarCorrection_eq (year : Int) :
    lunarCorrection year = (8 * (year / 100) + 13) / 25 - 5 := by
  rw [lunarCorrection, century]
  omega

/-- The moon of the computus grows as the epact falls. -/
theorem cyclicEpact_add_moon (h : 0 ≤ year) : (cyclicEpact year + moon year) % 30 = 23 := by
  rw [cyclicEpact, goldenNumber, solarCorrection_eq, lunarCorrection_eq, moon_eq h]
  generalize year % 19 = a
  generalize year / 100 / 4 = leap
  generalize (8 * (year / 100) + 13) / 25 = lunar
  omega

theorem cyclicEpact_eq (h : 0 ≤ year) :
    cyclicEpact year = if moon year ≤ 23 then 23 - moon year else 53 - moon year := by
  have hsum := cyclicEpact_add_moon h
  have hmoon := moon_bounds year
  have hmoon' := moon_nonneg h
  have hepact : 0 ≤ cyclicEpact year ∧ cyclicEpact year < 30 :=
    ⟨Int.emod_nonneg _ (by decide), Int.emod_lt_of_pos _ (by decide)⟩
  split <;> omega

theorem isException_iff (h : 0 ≤ year) :
    cyclicEpact year = 24 ∨ cyclicEpact year = 25 ∧ 11 < goldenNumber year ↔
      IsException year := by
  have hmoon := moon_bounds year
  have hmoon' := moon_nonneg h
  have hepact := cyclicEpact_eq h
  unfold IsException goldenNumber
  split at hepact <;> omega

theorem fullMoon_eq (h : 0 ≤ year) :
    fullMoon year = 21 + moon year - if IsException year then 1 else 0 := by
  have hmoon := moon_bounds year
  have hmoon' := moon_nonneg h
  have hepact := cyclicEpact_eq h
  have hexception := isException_iff h
  simp only [fullMoon, epact, hexception]
  by_cases hyear : IsException year
  · have hlate := hexception.mpr hyear
    rw [if_pos hyear, if_pos hyear]
    split <;> omega
  · have hearly := mt hexception.mp hyear
    rw [if_neg hyear, if_neg hyear]
    split at hepact <;> split <;> omega

/-! ### The Sunday -/

theorem dayNumber_march (year day : Int) :
    dayNumber year 3 day = Date.daysBeforeYear (year + 1) - 306 + day := by
  rw [Date.daysBeforeYear_succ, dayNumber]
  simp only [Date.daysBeforeMonth, Date.daysInMonth, Date.daysInYear]
  split <;> omega

theorem dayNumber_april (year day : Int) : dayNumber year 4 day = dayNumber year 3 (day + 31) := by
  simp only [dayNumber, Date.daysBeforeMonth, Date.daysInMonth]
  omega

theorem daysBeforeYear_succ_eq (year : Int) : Date.daysBeforeYear (year + 1) =
    365 * year + year / 4 - year / 100 + year / 400 := by
  rw [Date.daysBeforeYear, Int.add_sub_cancel]

theorem number_sunday (h : 0 ≤ year) :
    dayNumber year 3 (22 + moon year + untilSunday year) % 7 = 0 := by
  have hyear : year = 100 * (year / 100) + 4 * (year % 100 / 4) + year % 100 % 4 := by omega
  have hcentury : year / 100 = 4 * (year / 100 / 4) + year / 100 % 4 := by omega
  have hleap : year / 4 = 25 * (year / 100) + year % 100 / 4 := by omega
  have hleap' : year / 400 = year / 100 / 4 := by omega
  rw [dayNumber_march, daysBeforeYear_succ_eq, untilSunday_eq h, hleap, hleap']
  generalize year / 100 / 4 = d at *
  generalize year / 100 % 4 = e at *
  generalize year % 100 / 4 = i at *
  generalize year % 100 % 4 = k at *
  generalize year / 100 = b at *
  omega

/-- The days of March and April are numbered as those of the computus. -/
theorem dayNumber_month_day {year : Int32} (h : 93 ≤ position year.toInt) :
    dayNumber year.toInt (month year).toNat (day year) =
      dayNumber year.toInt 3 (position year.toInt - 92) := by
  rcases month_day_cases year with ⟨-, hbounds⟩ | ⟨⟨hmonth, hday⟩, -⟩ | ⟨⟨hmonth, hday⟩, -⟩
  · omega
  · rw [hmonth, hday]
    rfl
  · rw [hmonth, hday]
    refine (dayNumber_april _ _).trans (congrArg _ ?_)
    omega

theorem position_ge_spring (h : 0 ≤ year) : 114 ≤ position year := by
  have hmoon := moon_nonneg h
  have hsunday := untilSunday_mem h
  have hweeks := weeksBack_eq h
  unfold IsException at hweeks
  rw [position]
  split at hweeks <;> omega

/-- Without the week back, an exceptional year would have its Easter up to eight days after the full
moon. -/
theorem position_mem (h : 0 ≤ year) :
    fullMoon year < position year - 92 ∧ position year - 92 ≤ fullMoon year + 7 := by
  have hsunday := untilSunday_mem h
  have hmoon := fullMoon_eq h
  have hweeks := weeksBack_eq h
  rw [position]
  by_cases hexception : IsException year
  · simp only [hexception, true_and, if_true] at hmoon hweeks
    split at hweeks <;> omega
  · simp only [hexception, false_and, if_false] at hmoon hweeks
    omega

theorem position_isFirstSundayAfter (h : 0 ≤ year) :
    IsFirstSundayAfter (dayNumber year 3 (fullMoon year))
      (dayNumber year 3 (position year - 92)) := by
  have hweekday := number_sunday h
  have hwithin := position_mem h
  unfold dayNumber at hweekday ⊢
  apply isFirstSundayAfter_of_within
  · rw [position]
    omega
  · omega
  · omega

end Computus

/-- **The computus gives the Easter of the church** in every year from 0 on: a day from the 22nd of
March to the 25th of April, the first Sunday after the full moon of the epact. If the year is in the
calendar, the day is a date. -/
theorem computus_ecclesiastical (year : Int32) (h : 0 ≤ year.toInt) :
    (Computus.month year = 3 ∧ 22 ≤ Computus.day year ∧ Computus.day year ≤ 31 ∨
        Computus.month year = 4 ∧ 1 ≤ Computus.day year ∧ Computus.day year ≤ 25) ∧
      IsFirstSundayAfter (dayNumber year.toInt 3 (Ecclesiastical.fullMoon year.toInt))
        (dayNumber year.toInt (Computus.month year).toNat (Computus.day year)) ∧
      (year.toInt ≤ Date.maxYear → ∃ d, easterSunday? year = some d ∧
        (d.year = year.toInt ∧ d.month = Computus.month year ∧ d.day = Computus.day year) ∧
        d.weekday = 0) := by
  have hspring := Computus.position_ge_spring h
  have hcases := Computus.month_day_cases year
  have hmonth : ((Computus.month year).toNat : Int) = Computus.month year := by omega
  have hday : ((Computus.day year).toNat : Int) = Computus.day year := by omega
  have hfirst : IsFirstSundayAfter (dayNumber year.toInt 3 (Ecclesiastical.fullMoon year.toInt))
      (dayNumber year.toInt (Computus.month year).toNat (Computus.day year)) := by
    rw [Computus.dayNumber_month_day (by omega)]
    exact Computus.position_isFirstSundayAfter h
  refine ⟨by omega, hfirst, fun hlast => ?_⟩
  have hpresent : ¬ Computus.IsMissing year := fun hmissing =>
    Computus.month_ne_february (Int.lt_of_lt_of_le (by decide) h) hmissing.1
  have hexists := (Computus.exists_iff year).mpr ⟨⟨Int.le_trans (by decide) h, hlast⟩, hpresent⟩
  refine ⟨⟨year.toInt, _, _, hexists⟩, dif_pos hexists, ⟨rfl, hmonth, hday⟩, ?_⟩
  rw [Date.weekday, Date.number_eq_dayNumber]
  show (dayNumber year.toInt (Computus.month year).toNat
    ((Computus.day year).toNat : Int) % 7).toNat = 0
  rw [hday, hfirst.weekday]
  rfl

/-- In 1954 the epact was an exception, and the computus goes a week back. -/
theorem computus_ecclesiastical_1954 : 0 ≤ (1954 : Int32).toInt ∧
    Ecclesiastical.fullMoon 1954 = 48 ∧ Computus.month 1954 = 4 ∧ Computus.day 1954 = 18 ∧
    IsFirstSundayAfter (dayNumber 1954 3 48) (dayNumber 1954 4 18) ∧
    ∃ d, easterSunday? 1954 = some d ∧ d.weekday = 0 := by
  obtain ⟨-, hfirst, hdate⟩ := computus_ecclesiastical 1954 (by decide)
  have hmoon : Ecclesiastical.fullMoon (1954 : Int32).toInt = 48 := by decide
  have hmonth : Computus.month 1954 = 4 := by decide
  have hday : Computus.day 1954 = 18 := by decide
  obtain ⟨d, hd, -, hweekday⟩ := hdate (by decide)
  rw [hmonth, hday, hmoon] at hfirst
  exact ⟨by decide, hmoon, hmonth, hday, hfirst, d, hd, hweekday⟩

end OpeningHours
