import OpeningHours.Proofs.Date.CheckedComputus

/-! Special days of a year.

Easter Sunday is before May, so the days counted from it are days of the same year, and the
calendar has them (`date?_of_easter`). A date is therefore a special day of some year only if it
is that of its own year. -/
namespace OpeningHours

/-! ### Easter Sunday in its year -/

theorem easterSunday?_year {year : Int32} {d : Date} (h : easterSunday? year = some d) :
    d.year = year.toInt ∧ d.month ≤ 4 := by
  obtain ⟨hyear, hmonth, -⟩ := Date.ofParts?_eq_some_iff.mp h
  have hmonth' : d.month = (Computus.month year).toNat := hmonth
  have hcases := Computus.month_day_cases year
  exact ⟨hyear, by omega⟩

namespace Date

/-- The days of a year up to the end of April. -/
theorem ordinal_le_april {d : Date} (h : d.month ≤ 4) : d.ordinal ≤ 121 := by
  have hmonth : daysBeforeMonth d.year (d.month + 1) ≤ daysBeforeMonth d.year 5 :=
    daysBeforeMonth_mono d.year (Nat.succ_le_succ h)
  have hapril : daysBeforeMonth d.year 5 ≤ 121 := by
    simp only [daysBeforeMonth, daysInMonth]
    split <;> decide
  exact Nat.le_trans d.ordinal_le (Nat.le_trans hmonth hapril)

/-- The year of a date is a machine number. -/
theorem toInt_year (d : Date) : (Int32.ofInt d.year).toInt = d.year := by
  have hyear := d.exist.year_mem
  unfold minYear maxYear at hyear
  exact Minute.toInt_ofInt ⟨by omega, by omega⟩

end Date

namespace SpecialDay
variable {s : SpecialDay} {year : Int32} {d e : Date}

theorem offset_le (s : SpecialDay) : s.offset ≤ 88 := by cases s <;> decide

/-- A year that has an Easter Sunday has all special days. -/
theorem date?_of_easter (s : SpecialDay) (h : easterSunday? year = some e) :
    ∃ d, s.date? year = some d ∧ d.year = year.toInt ∧ d.number = e.number + s.offset := by
  obtain ⟨hyear, hmonth⟩ := easterSunday?_year h
  have hordinal := Date.ordinal_le_april hmonth
  have hoffset := s.offset_le
  have hdays : 365 ≤ Date.daysInYear e.year := by
    unfold Date.daysInYear
    split <;> decide
  obtain ⟨d, hd, hsame⟩ := Date.exists_addDays?_within_year (d := e) (n := s.offset) (by omega)
  refine ⟨d, ?_, hsame.trans hyear, Date.addDays?_eq_some_iff.mp hd⟩
  rw [date?, h, Option.bind_some, hd]

theorem year_eq_of_date? (h : s.date? year = some d) : d.year = year.toInt := by
  obtain ⟨e, he, _⟩ := Option.bind_eq_some_iff.mp h
  obtain ⟨d', hd', hyear, _⟩ := s.date?_of_easter he
  rw [h] at hd'
  rw [Option.some.inj hd', hyear]

theorem falls_eq_true_iff : s.falls d = true ↔ s.date? (Int32.ofInt d.year) = some d :=
  decide_eq_true_iff

/-- A date that is a special day of some year is that of its own year. -/
theorem date?_own_year (h : s.date? year = some d) : s.date? (Int32.ofInt d.year) = some d := by
  have hown : Int32.ofInt d.year = year :=
    Int32.toInt_inj.mp (d.toInt_year.trans (year_eq_of_date? h))
  rw [hown, h]

/-- **A special day is found in its own year.** A date is a special day just if it is that of some
year, before year 0 as well as after it. Every year with an Easter Sunday has the special day, as
many days after Easter as its offset says and in the same year; the computus leaves the machine
numbers on the way in no year at all; and no year has the special day twice. -/
theorem falls_iff_of_some_year (s : SpecialDay) :
    (∀ d, s.falls d = true ↔ ∃ year, s.date? year = some d) ∧
      (∀ year easter, easterSunday? year = some easter →
        ∃ d, s.date? year = some d ∧ d.year = year.toInt ∧
          d.number = easter.number + s.offset) ∧
      (∀ year, Computus.checked? year.toInt = some (Computus.month year, Computus.day year)) ∧
      ∀ d e, s.falls d = true → s.falls e = true → d.year = e.year → d = e := by
  refine ⟨fun d => ?_, fun year easter => s.date?_of_easter, Computus.checked?_eq,
    fun d e hd he hyear => ?_⟩
  · rw [falls_eq_true_iff]
    exact ⟨fun h => ⟨_, h⟩, fun h => h.elim fun year => date?_own_year⟩
  · rw [falls_eq_true_iff, hyear] at hd
    rw [falls_eq_true_iff, hd] at he
    exact Option.some.inj he

end SpecialDay

end OpeningHours
