import OpeningHours.Date.Basic

/-! Special days: Easter Sunday and the days counted from it.

Easter Sunday comes from the computus of Meeus, Jones and Butcher on machine
numbers. The year is split with Euclidean quotients; every later quotient and
remainder truncates. From year 0 on the result is the Easter of the church; before,
it is what the same formula gives. -/
namespace OpeningHours

inductive SpecialDay where
  | easter
  | easterMonday
  | ascension
  | pentecost
  deriving DecidableEq, Repr

/-- The month and the day that the computus gives for a year. -/
def computus (year : Int32) : Int32 × Int32 :=
  let a := Int32.ofInt (year.toInt % 19)
  let b := Int32.ofInt (year.toInt / 100)
  let c := Int32.ofInt (year.toInt % 100)
  let d := b / 4
  let e := b % 4
  let f := (b + 8) / 25
  let g := (b - f + 1) / 3
  let h := (19 * a + b - d - g + 15) % 30
  let i := c / 4
  let k := c % 4
  let l := (32 + 2 * e + 2 * i - h - k) % 7
  let m := (a + 11 * h + 22 * l) / 451
  ((h + l - 7 * m + 114) / 31, (h + l - 7 * m + 114) % 31 + 1)

/-- Easter Sunday, if it is a date of the calendar. -/
def easterSunday? (year : Int32) : Option Date :=
  let (month, day) := computus year
  Date.ofParts? year.toInt month.toInt.toNat day.toInt.toNat

namespace SpecialDay

def all : List SpecialDay := [easter, easterMonday, ascension, pentecost]

/-- Days from Easter Sunday. -/
def offset : SpecialDay → Nat
  | easter => 0
  | easterMonday => 1
  | ascension => 39
  | pentecost => 88

/-- The date of a special day in a year. -/
def date? (s : SpecialDay) (year : Int32) : Option Date :=
  (easterSunday? year).bind fun d => d.addDays? s.offset

/-- Whether a date is the special day of its year. -/
def falls (s : SpecialDay) (d : Date) : Bool := s.date? (Int32.ofInt d.year) = some d

end SpecialDay

end OpeningHours
