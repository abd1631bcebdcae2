import OpeningHours.Date.SpecialDay
import OpeningHours.Minute
import OpeningHours.Proofs.Date.Order

/-! The computus in exact integers.

No step of the computus leaves the machine numbers, for any year, so it computes what the
same formula gives in integers (`month_day_eq`): a number for the moon, the days from
the day after it to a Sunday, and a week back in years in which the moon would be late.
The quotients truncate, so before year 0 the first two may be negative. Their bounds put
the result between the 24th of February and the 25th of April (`month_day_cases`). In
February the result need not exist: it may be the 30th or the 31st, or the 29th of a common
year. That is the only way in which a year of the calendar lacks an Easter Sunday, and no
year after -8284 does. -/
namespace OpeningHours
open Minute (InRange)

namespace Computus

/-! ### Exact machine numbers -/

section
variable {x y : Int32} {m n : Int}

theorem toInt_add_of_inRange (hx : x.toInt = m) (hy : y.toInt = n) (h : InRange (m + n)) :
    (x + y).toInt = m + n := by
  rw [Int32.toInt_add, hx, hy]
  exact Int.bmod_eq_of_le h.1 (Int.lt_add_one_of_le h.2)

theorem toInt_sub_of_inRange (hx : x.toInt = m) (hy : y.toInt = n) (h : InRange (m - n)) :
    (x - y).toInt = m - n := by
  rw [Int32.toInt_sub, hx, hy]
  exact Int.bmod_eq_of_le h.1 (Int.lt_add_one_of_le h.2)

theorem toInt_mul_of_inRange (hx : x.toInt = m) (hy : y.toInt = n) (h : InRange (m * n)) :
    (x * y).toInt = m * n := by
  rw [Int32.toInt_mul, hx, hy]
  exact Int.bmod_eq_of_le h.1 (Int.lt_add_one_of_le h.2)

theorem toInt_div_of_inRange (hx : x.toInt = m) (hy : y.toInt = n) (h : InRange (m.tdiv n)) :
    (x / y).toInt = m.tdiv n := by
  rw [Int32.toInt_div, hx, hy]
  exact Int.bmod_eq_of_le h.1 (Int.lt_add_one_of_le h.2)

theorem toInt_mod_eq (hx : x.toInt = m) (hy : y.toInt = n) : (x % y).toInt = m.tmod n := by
  rw [Int32.toInt_mod, hx, hy]

end

/-- A truncating quotient and its remainder, which has the sign of the dividend. -/
theorem truncated (n : Int) {k : Int} (hk : 0 < k) : k * n.tdiv k + n.tmod k = n ∧
    -k < n.tmod k ∧ n.tmod k < k ∧ (0 ≤ n → 0 ≤ n.tmod k) ∧ (n ≤ 0 → n.tmod k ≤ 0) := by
  refine ⟨Int.mul_tdiv_add_tmod n k, Int.lt_tmod_of_pos n hk, Int.tmod_lt_of_pos n hk,
    fun hn => Int.tmod_nonneg k hn, fun hn => ?_⟩
  have hneg := Int.tmod_nonneg k (Int.neg_nonneg_of_nonpos hn)
  rw [Int.neg_tmod] at hneg
  omega

/-! ### The formula -/

/-- The months of the moon drift against the Julian calendar by this number of days up to a
century. -/
def drift (century : Int) : Int := (century - (century + 8).tdiv 25 + 1).tdiv 3

/-- The days from the 21st of March to the moon. -/
def moon (year : Int) : Int :=
  (19 * (year % 19) + year / 100 - (year / 100).tdiv 4 - drift (year / 100) + 15).tmod 30

/-- The days from the day after the moon to a Sunday. -/
def untilSunday (year : Int) : Int :=
  (32 + 2 * (year / 100).tmod 4 + 2 * (year % 100).tdiv 4 - moon year - (year % 100).tmod 4).tmod 7

/-- The weeks to go back, for a moon that would be late. -/
def weeksBack (year : Int) : Int :=
  (year % 19 + 11 * moon year + 22 * untilSunday year).tdiv 451

/-- The result as days of months that all have 31 days, from zero in month zero. -/
def position (year : Int) : Int := moon year + untilSunday year - 7 * weeksBack year + 114

theorem moon_bounds (year : Int) : -29 ≤ moon year ∧ moon year ≤ 29 := by
  obtain ⟨_, hlow, hhigh, _⟩ := truncated (k := 30)
    (19 * (year % 19) + year / 100 - (year / 100).tdiv 4 - drift (year / 100) + 15) (by decide)
  rw [moon]
  omega

theorem untilSunday_bounds (year : Int) : -6 ≤ untilSunday year ∧ untilSunday year ≤ 6 := by
  obtain ⟨_, hlow, hhigh, _⟩ := truncated (k := 7) (32 + 2 * (year / 100).tmod 4 +
    2 * (year % 100).tdiv 4 - moon year - (year % 100).tmod 4) (by decide)
  rw [untilSunday]
  omega

/-! ### Exact steps

Each step of the computus on machine numbers whose values are known. -/

section
variable {a b c d e g h i k l m : Int32} {n p q : Int}

theorem toInt_drift (hb : b.toInt = n) (hn : -21474837 ≤ n ∧ n ≤ 21474836) :
    ((b - (b + 8) / 25 + 1) / 3).toInt = drift n ∧ -8000000 ≤ drift n ∧ drift n ≤ 8000000 := by
  have hf := truncated (n + 8) (k := 25) (by decide)
  have hg := truncated (n - (n + 8).tdiv 25 + 1) (k := 3) (by decide)
  have h1 : (1 : Int32).toInt = 1 := by decide
  have h3 : (3 : Int32).toInt = 3 := by decide
  have h8 : (8 : Int32).toInt = 8 := by decide
  have h25 : (25 : Int32).toInt = 25 := by decide
  have hsum := toInt_add_of_inRange hb h8 ⟨by omega, by omega⟩
  have hquotient := toInt_div_of_inRange hsum h25 ⟨by omega, by omega⟩
  have hrest := toInt_sub_of_inRange hb hquotient ⟨by omega, by omega⟩
  have htotal := toInt_add_of_inRange hrest h1 ⟨by omega, by omega⟩
  rw [drift]
  exact ⟨toInt_div_of_inRange htotal h3 ⟨by omega, by omega⟩, by omega, by omega⟩

theorem toInt_moon {year : Int} (ha : a.toInt = year % 19) (hb : b.toInt = year / 100)
    (hd : d.toInt = (year / 100).tdiv 4) (hg : g.toInt = drift (year / 100))
    (hb' : -21474837 ≤ year / 100 ∧ year / 100 ≤ 21474836)
    (hg' : -8000000 ≤ drift (year / 100) ∧ drift (year / 100) ≤ 8000000) :
    ((19 * a + b - d - g + 15) % 30).toInt = moon year := by
  have hd' := truncated (year / 100) (k := 4) (by decide)
  have h15 : (15 : Int32).toInt = 15 := by decide
  have h19 : (19 : Int32).toInt = 19 := by decide
  have h30 : (30 : Int32).toInt = 30 := by decide
  have hcycle := toInt_mul_of_inRange h19 ha ⟨by omega, by omega⟩
  have hcentury := toInt_add_of_inRange hcycle hb ⟨by omega, by omega⟩
  have hleap := toInt_sub_of_inRange hcentury hd ⟨by omega, by omega⟩
  have hdrift := toInt_sub_of_inRange hleap hg ⟨by omega, by omega⟩
  exact toInt_mod_eq (toInt_add_of_inRange hdrift h15 ⟨by omega, by omega⟩) h30

theorem toInt_untilSunday {year : Int} (he : e.toInt = (year / 100).tmod 4)
    (hi : i.toInt = (year % 100).tdiv 4) (hh : h.toInt = moon year)
    (hk : k.toInt = (year % 100).tmod 4) :
    ((32 + 2 * e + 2 * i - h - k) % 7).toInt = untilSunday year := by
  have he' := truncated (year / 100) (k := 4) (by decide)
  have hi' := truncated (year % 100) (k := 4) (by decide)
  have hh' := moon_bounds year
  have h2 : (2 : Int32).toInt = 2 := by decide
  have h7 : (7 : Int32).toInt = 7 := by decide
  have h32 : (32 : Int32).toInt = 32 := by decide
  have htwo := toInt_mul_of_inRange h2 he ⟨by omega, by omega⟩
  have hcentury := toInt_add_of_inRange h32 htwo ⟨by omega, by omega⟩
  have hyears := toInt_mul_of_inRange h2 hi ⟨by omega, by omega⟩
  have hsum := toInt_add_of_inRange hcentury hyears ⟨by omega, by omega⟩
  have hmoon := toInt_sub_of_inRange hsum hh ⟨by omega, by omega⟩
  exact toInt_mod_eq (toInt_sub_of_inRange hmoon hk ⟨by omega, by omega⟩) h7

theorem toInt_weeksBack {year : Int} (ha : a.toInt = year % 19) (hh : h.toInt = moon year)
    (hl : l.toInt = untilSunday year) :
    ((a + 11 * h + 22 * l) / 451).toInt = weeksBack year ∧
      -1 ≤ weeksBack year ∧ weeksBack year ≤ 1 := by
  have hh' := moon_bounds year
  have hl' := untilSunday_bounds year
  have hm' := truncated (year % 19 + 11 * moon year + 22 * untilSunday year) (k := 451) (by decide)
  have h11 : (11 : Int32).toInt = 11 := by decide
  have h22 : (22 : Int32).toInt = 22 := by decide
  have h451 : (451 : Int32).toInt = 451 := by decide
  have hmoon := toInt_mul_of_inRange h11 hh ⟨by omega, by omega⟩
  have hsum := toInt_add_of_inRange ha hmoon ⟨by omega, by omega⟩
  have hdays := toInt_mul_of_inRange h22 hl ⟨by omega, by omega⟩
  have htotal := toInt_add_of_inRange hsum hdays ⟨by omega, by omega⟩
  rw [weeksBack]
  exact ⟨toInt_div_of_inRange htotal h451 ⟨by omega, by omega⟩, by omega, by omega⟩

theorem toInt_position {year : Int} (hh : h.toInt = moon year) (hl : l.toInt = untilSunday year)
    (hm : m.toInt = weeksBack year) (hm' : -1 ≤ weeksBack year ∧ weeksBack year ≤ 1) :
    (h + l - 7 * m + 114).toInt = position year ∧ -1000 ≤ position year ∧
      position year ≤ 1000 := by
  have hh' := moon_bounds year
  have hl' := untilSunday_bounds year
  have h7 : (7 : Int32).toInt = 7 := by decide
  have h114 : (114 : Int32).toInt = 114 := by decide
  have hsum := toInt_add_of_inRange hh hl ⟨by omega, by omega⟩
  have hweeks := toInt_mul_of_inRange h7 hm ⟨by omega, by omega⟩
  have hback := toInt_sub_of_inRange hsum hweeks ⟨by omega, by omega⟩
  rw [position]
  exact ⟨toInt_add_of_inRange hback h114 ⟨by omega, by omega⟩, by omega, by omega⟩

end

/-- The month of the result. -/
def month (year : Int32) : Int := (computus year).1.toInt

/-- The day of the month of the result. -/
def day (year : Int32) : Int := (computus year).2.toInt

/-- **The computus is exact**, because no intermediate result leaves the machine numbers. -/
theorem month_day_eq (year : Int32) : month year = (position year.toInt).tdiv 31 ∧
    day year = (position year.toInt).tmod 31 + 1 := by
  have hyear := Minute.inRange_toInt year
  unfold month day computus
  extract_lets a b c d e f g h i k l m
  unfold InRange at hyear
  have hcentury : -21474837 ≤ year.toInt / 100 ∧ year.toInt / 100 ≤ 21474836 := by omega
  have hb' := truncated (year.toInt / 100) (k := 4) (by decide)
  have hc' := truncated (year.toInt % 100) (k := 4) (by decide)
  have h4 : (4 : Int32).toInt = 4 := by decide
  have ha : a.toInt = year.toInt % 19 := Minute.toInt_ofInt ⟨by omega, by omega⟩
  have hb : b.toInt = year.toInt / 100 := Minute.toInt_ofInt ⟨by omega, by omega⟩
  have hc : c.toInt = year.toInt % 100 := Minute.toInt_ofInt ⟨by omega, by omega⟩
  have hd : d.toInt = (year.toInt / 100).tdiv 4 :=
    toInt_div_of_inRange hb h4 ⟨by omega, by omega⟩
  have he : e.toInt = (year.toInt / 100).tmod 4 := toInt_mod_eq hb h4
  have hi : i.toInt = (year.toInt % 100).tdiv 4 :=
    toInt_div_of_inRange hc h4 ⟨by omega, by omega⟩
  have hk : k.toInt = (year.toInt % 100).tmod 4 := toInt_mod_eq hc h4
  obtain ⟨hdrift, hg'⟩ := toInt_drift hb hcentury
  have hg : g.toInt = drift (year.toInt / 100) := hdrift
  have hh : h.toInt = moon year.toInt := toInt_moon ha hb hd hg hcentury hg'
  have hl : l.toInt = untilSunday year.toInt := toInt_untilSunday he hi hh hk
  obtain ⟨hweeks, hm'⟩ := toInt_weeksBack ha hh hl
  have hm : m.toInt = weeksBack year.toInt := hweeks
  obtain ⟨hn, hn'⟩ := toInt_position hh hl hm hm'
  have h1 : (1 : Int32).toInt = 1 := by decide
  have h31 : (31 : Int32).toInt = 31 := by decide
  have hmonth := truncated (position year.toInt) (k := 31) (by decide)
  exact ⟨toInt_div_of_inRange hn h31 ⟨by omega, by omega⟩,
    toInt_add_of_inRange (toInt_mod_eq hn h31) h1 ⟨by omega, by omega⟩⟩

/-! ### What days it names -/

theorem untilSunday_nonneg {year : Int} (h : moon year ≤ 23) : 0 ≤ untilSunday year := by
  have hcentury := truncated (year / 100) (k := 4) (by decide)
  have hyears := truncated (year % 100) (k := 4) (by decide)
  obtain ⟨_, _, _, hnonneg, _⟩ := truncated (k := 7) (32 + 2 * (year / 100).tmod 4 +
    2 * (year % 100).tdiv 4 - moon year - (year % 100).tmod 4) (by decide)
  rw [untilSunday]
  omega

/-- The result is no earlier than the day after the earliest moon. -/
theorem position_ge {year bound : Int} (h : bound ≤ moon year) (hbound : bound ≤ 0) :
    bound + 114 ≤ position year := by
  have hsunday := untilSunday_bounds year
  have hnonneg : moon year ≤ 23 → 0 ≤ untilSunday year := untilSunday_nonneg
  have hmoon := moon_bounds year
  have hweeks := truncated (year % 19 + 11 * moon year + 22 * untilSunday year) (k := 451)
    (by decide)
  rw [← weeksBack] at hweeks
  rw [position]
  omega

theorem position_le (year : Int) : position year ≤ 148 := by
  have hsunday := untilSunday_bounds year
  have hmoon := moon_bounds year
  have hweeks := truncated (year % 19 + 11 * moon year + 22 * untilSunday year) (k := 451)
    (by decide)
  rw [← weeksBack] at hweeks
  rw [position]
  omega

/-- A remainder that truncates is at least the lesser of zero and its dividend. -/
theorem le_moon {year bound : Int} (hbound : bound ≤ 0)
    (h : bound ≤ 19 * (year % 19) + year / 100 - (year / 100).tdiv 4 - drift (year / 100) + 15) :
    bound ≤ moon year := by
  obtain ⟨hsum, hlow, _, hnonneg, hnonpos⟩ := truncated (k := 30)
    (19 * (year % 19) + year / 100 - (year / 100).tdiv 4 - drift (year / 100) + 15) (by decide)
  rw [← moon] at hsum hlow hnonneg hnonpos
  omega

/-- The moon of these centuries is no earlier than the day before the 1st of March. -/
theorem moon_ge {year : Int} (h : -82 ≤ year / 100) : -21 ≤ moon year := by
  have hleap := truncated (year / 100) (k := 4) (by decide)
  have hlunar := truncated (year / 100 + 8) (k := 25) (by decide)
  have hdrift := truncated (year / 100 - (year / 100 + 8).tdiv 25 + 1) (k := 3) (by decide)
  rw [← drift] at hdrift
  have hcentury : -21 ≤ year / 100 - (year / 100).tdiv 4 - drift (year / 100) + 15 := by omega
  exact le_moon (by decide) (by omega)

/-- The year -8284 is the last in which the result is in February. -/
theorem position_ge_march {year : Int} (h : -8284 < year) : 93 ≤ position year := by
  by_cases hcentury : -82 ≤ year / 100
  · exact position_ge (moon_ge hcentury) (by decide)
  · have hlast : year / 100 = -83 := by omega
    by_cases hgolden : year % 19 = 0
    · -- The moon is as early as in -8284, but a Sunday does not follow at once.
      have hyears : year = -8265 ∨ year = -8246 ∨ year = -8227 ∨ year = -8208 := by omega
      rcases hyears with rfl | rfl | rfl | rfl <;> decide
    · have hlate : -3 ≤ moon year := by
        have hdrift : drift (-83) = -26 := by decide
        have hleap : (-83 : Int).tdiv 4 = -20 := by decide
        apply le_moon (by decide)
        rw [hlast, hdrift, hleap]
        omega
      exact Int.le_trans (by decide) (position_ge hlate (by decide))

/-- The result is in February, from the 24th on, or in March, or in April, up to the 25th. -/
theorem month_day_cases (year : Int32) :
    ((month year = 2 ∧ day year = position year.toInt - 61) ∧
        85 ≤ position year.toInt ∧ position year.toInt ≤ 92) ∨
      ((month year = 3 ∧ day year = position year.toInt - 92) ∧
        93 ≤ position year.toInt ∧ position year.toInt ≤ 123) ∨
      ((month year = 4 ∧ day year = position year.toInt - 123) ∧
        124 ≤ position year.toInt ∧ position year.toInt ≤ 148) := by
  obtain ⟨hmonth, hday⟩ := month_day_eq year
  have hfirst : -29 + 114 ≤ position year.toInt :=
    position_ge (moon_bounds year.toInt).1 (by decide)
  have hlast := position_le year.toInt
  have hparts := truncated (position year.toInt) (k := 31) (by decide)
  omega

theorem month_ne_february {year : Int32} (h : -8284 < year.toInt) : month year ≠ 2 := by
  have hmarch := position_ge_march h
  have hcases := month_day_cases year
  omega

/-- The result is a day that its month does not have. -/
def IsMissing (year : Int32) : Prop :=
  month year = 2 ∧ (Date.daysInMonth year.toInt 2 : Int) < day year

theorem exists_iff (year : Int32) :
    Date.Exists year.toInt (month year).toNat (day year).toNat ↔
      (Date.minYear ≤ year.toInt ∧ year.toInt ≤ Date.maxYear) ∧ ¬ IsMissing year := by
  unfold IsMissing
  rcases month_day_cases year with ⟨⟨hmonth, hday⟩, hbounds⟩ | ⟨⟨hmonth, hday⟩, hbounds⟩ |
    ⟨⟨hmonth, hday⟩, hbounds⟩
  · rw [hmonth, show (2 : Int).toNat = 2 from rfl]
    exact ⟨fun h => ⟨h.year_mem, by have hlast := h.day_mem.2; omega⟩,
      fun h => ⟨h.1, by decide, by omega⟩⟩
  · have hlast : (day year).toNat ≤ 31 := by omega
    rw [hmonth]
    exact ⟨fun h => ⟨h.year_mem, by omega⟩, fun h => ⟨h.1, by decide, by omega, hlast⟩⟩
  · have hlast : (day year).toNat ≤ 30 := by omega
    rw [hmonth]
    exact ⟨fun h => ⟨h.year_mem, by omega⟩, fun h => ⟨h.1, by decide, by omega, hlast⟩⟩

end Computus

theorem easterSunday?_eq (year : Int32) : easterSunday? year =
    Date.ofParts? year.toInt (Computus.month year).toNat (Computus.day year).toNat :=
  rfl

/-- **Years without an Easter Sunday.** The computus names a day from the 24th of February to the
25th of April. A year of the calendar lacks an Easter Sunday just if this is a day that February
does not have in that year: the 30th, the 31st, or the 29th of a common year. After the year -8284
it never is, and then only the years outside the calendar lack one. -/
theorem easterSunday?_eq_none_iff (year : Int32) :
    (Computus.month year = 2 ∧ 24 ≤ Computus.day year ∧ Computus.day year ≤ 31 ∨
        Computus.month year = 3 ∧ 1 ≤ Computus.day year ∧ Computus.day year ≤ 31 ∨
        Computus.month year = 4 ∧ 1 ≤ Computus.day year ∧ Computus.day year ≤ 25) ∧
      (easterSunday? year = none ↔
        ¬ (Date.minYear ≤ year.toInt ∧ year.toInt ≤ Date.maxYear) ∨
          Computus.month year = 2 ∧
            (Date.daysInMonth year.toInt 2 : Int) < Computus.day year) ∧
      (-8284 < year.toInt → (easterSunday? year = none ↔
        ¬ (Date.minYear ≤ year.toInt ∧ year.toInt ≤ Date.maxYear))) := by
  have hnone : easterSunday? year = none ↔
      ¬ (Date.minYear ≤ year.toInt ∧ year.toInt ≤ Date.maxYear) ∨ Computus.IsMissing year := by
    rw [easterSunday?_eq, Date.ofParts?_eq_none_iff, Computus.exists_iff,
      Decidable.not_and_iff_not_or_not, Classical.not_not]
  refine ⟨?_, hnone, fun hlate => hnone.trans ?_⟩
  · have hcases := Computus.month_day_cases year
    omega
  · have hmonth : Computus.month year ≠ 2 := Computus.month_ne_february hlate
    exact ⟨fun h => h.resolve_right fun hfebruary => hmonth hfebruary.1, Or.inl⟩

theorem easterSunday?_exists_in_8283_before_zero :
    -8284 < (-8283 : Int32).toInt ∧ easterSunday? (-8283) ≠ none :=
  ⟨by decide, fun h => ((easterSunday?_eq_none_iff (-8283)).2.2 (by decide)).mp h (by decide)⟩

/-- The year -8284 has no Easter Sunday: it would be the 31st of February. -/
theorem easterSunday?_thirty_first_of_february :
    computus (-8284) = (2, 31) ∧ easterSunday? (-8284) = none ∧
      ¬ ∀ year : Int32, easterSunday? year = none →
        ¬ (Date.minYear ≤ year.toInt ∧ year.toInt ≤ Date.maxYear) := by
  have hnone : easterSunday? (-8284) = none := by decide
  exact ⟨by decide, hnone, fun h => h (-8284) hnone (by decide)⟩

end OpeningHours
