import OpeningHours.Date.Basic

/-! Weeks of a year: counted from the first Sunday or the first Monday, and the
weeks of ISO 8601, which belong to the year of their Thursday. -/
namespace OpeningHours.Date

/-- The week of the year, where week one begins with the first Sunday. -/
def sundayWeek (d : Date) : Nat := (d.ordinal + 6 - d.weekday) / 7

/-- The week of the year, where week one begins with the first Monday. -/
def mondayWeek (d : Date) : Nat := (d.ordinal + 6 - d.weekdayFromMonday) / 7

/-- A year has 53 weeks when it begins on a Thursday, or on a Wednesday before a leap day. -/
def isoWeeksInYear (year : Int) : Nat :=
  let newYear := (daysBeforeYear year + 1) % 7
  if newYear = 4 ∨ newYear = 3 ∧ isLeap year = true then 53 else 52

/-- The year to which the week of a date belongs, and the week's number in it. -/
def isoYearWeek (d : Date) : Int × Nat :=
  let week := (d.ordinal + 9 - d.weekdayFromMonday) / 7
  if week = 0 then (d.year - 1, isoWeeksInYear (d.year - 1))
  else if isoWeeksInYear d.year < week then (d.year + 1, 1)
  else (d.year, week)

end OpeningHours.Date
