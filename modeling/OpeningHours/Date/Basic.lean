/-! Dates of the proleptic Gregorian calendar.

A date is a year, a month and a day that exist; year 0 exists, and the years run
from -262143 to 262142. The day before, the day after and the order of dates are
those of the calendar. Every date has a number (`number`), one more for each day,
from which the day of the week follows. -/
namespace OpeningHours

namespace Date

def minYear : Int := -262143

def maxYear : Int := 262142

def isLeap (year : Int) : Bool := year % 4 == 0 && (year % 100 != 0 || year % 400 == 0)

/-- Zero for a month that does not exist. -/
def daysInMonth (year : Int) : Nat → Nat
  | 2 => if isLeap year then 29 else 28
  | 4 | 6 | 9 | 11 => 30
  | 1 | 3 | 5 | 7 | 8 | 10 | 12 => 31
  | _ => 0

/-- The days of a year before the first of a month. -/
def daysBeforeMonth (year : Int) : Nat → Nat
  | 0 => 0
  | month + 1 => daysBeforeMonth year month + daysInMonth year month

def daysInYear (year : Int) : Nat := if isLeap year then 366 else 365

/-- The days from the first of January of year 1 to that of `year`. -/
def daysBeforeYear (year : Int) : Int :=
  let past := year - 1
  365 * past + past / 4 - past / 100 + past / 400

/-- Whether the calendar has this day. -/
structure Exists (year : Int) (month day : Nat) : Prop where
  year_mem : minYear ≤ year ∧ year ≤ maxYear
  month_mem : 1 ≤ month ∧ month ≤ 12
  day_mem : 1 ≤ day ∧ day ≤ daysInMonth year month

instance (year : Int) (month day : Nat) : Decidable (Exists year month day) :=
  decidable_of_iff ((minYear ≤ year ∧ year ≤ maxYear) ∧ (1 ≤ month ∧ month ≤ 12) ∧
    1 ≤ day ∧ day ≤ daysInMonth year month)
    ⟨fun h => ⟨h.1, h.2.1, h.2.2⟩, fun h => ⟨h.year_mem, h.month_mem, h.day_mem⟩⟩

theorem isLeap_iff (year : Int) :
    isLeap year = true ↔ year % 4 = 0 ∧ (year % 100 ≠ 0 ∨ year % 400 = 0) := by
  simp [isLeap]

theorem daysBeforeYear_succ (year : Int) :
    daysBeforeYear (year + 1) = daysBeforeYear year + daysInYear year := by
  have hleap := isLeap_iff year
  unfold daysBeforeYear daysInYear
  cases h : isLeap year <;>
    simp only [h, true_iff, Bool.false_eq_true, false_iff, if_true, if_false] at hleap ⊢ <;> omega

theorem daysBeforeMonth_thirteen (year : Int) : daysBeforeMonth year 13 = daysInYear year := by
  simp only [daysBeforeMonth, daysInMonth, daysInYear]
  split <;> rfl

end Date

structure Date where
  year : Int
  month : Nat
  day : Nat
  exist : Date.Exists year month day
  deriving DecidableEq

namespace Date

instance : Hashable Date := ⟨fun d => hash (d.year, d.month, d.day)⟩

/-- The date with these parts, if the calendar has it. -/
def ofParts? (year : Int) (month day : Nat) : Option Date :=
  if h : Exists year month day then some ⟨year, month, day, h⟩ else none

/-- The first date of the calendar. -/
def first : Date := ⟨minYear, 1, 1, by decide⟩

/-- The last date of the calendar. -/
def last : Date := ⟨maxYear, 12, 31, by decide⟩

/-- The day after: the next day of the month, or the first of the next month, or of
the next year. -/
def next? (d : Date) : Option Date :=
  ofParts? d.year d.month (d.day + 1) <|> ofParts? d.year (d.month + 1) 1 <|>
    ofParts? (d.year + 1) 1 1

/-- The day before. -/
def previous? (d : Date) : Option Date :=
  ofParts? d.year d.month (d.day - 1) <|>
    ofParts? d.year (d.month - 1) (daysInMonth d.year (d.month - 1)) <|>
    ofParts? (d.year - 1) 12 31

def addDays? (d : Date) : Nat → Option Date
  | 0 => some d
  | n + 1 => d.next?.bind fun e => e.addDays? n

/-- Day of the year, counted from one. -/
def ordinal (d : Date) : Nat := daysBeforeMonth d.year d.month + d.day

/-- The number of a date; the first of January of year 1 has number one. -/
def number (d : Date) : Int := daysBeforeYear d.year + d.ordinal

/-- Day of the week, zero for Sunday. -/
def weekday (d : Date) : Nat := (d.number % 7).toNat

/-- Day of the week, zero for Monday. -/
def weekdayFromMonday (d : Date) : Nat := (d.weekday + 6) % 7

def Before (a b : Date) : Prop :=
  a.year < b.year ∨ a.year = b.year ∧ (a.month < b.month ∨ a.month = b.month ∧ a.day < b.day)

instance : LT Date := ⟨Before⟩

instance (a b : Date) : Decidable (a < b) := inferInstanceAs (Decidable (_ ∨ _))

/-- At most `n` days from `d` on. A day is listed only if it has a day after it, so the
last date of the calendar never is. -/
def daysFrom (d : Date) : Nat → List Date
  | 0 => []
  | n + 1 =>
    match d.next? with
    | none => []
    | some e => d :: e.daysFrom n

theorem ext {a b : Date} (hy : a.year = b.year) (hm : a.month = b.month) (hd : a.day = b.day) :
    a = b := by
  cases a; cases b; cases hy; cases hm; cases hd; rfl

theorem ofParts?_eq_some_iff {year : Int} {month day : Nat} {d : Date} :
    ofParts? year month day = some d ↔ d.year = year ∧ d.month = month ∧ d.day = day := by
  unfold ofParts?
  split
  · rename_i h
    constructor
    · rintro ⟨⟩; exact ⟨rfl, rfl, rfl⟩
    · rintro ⟨hy, hm, hd⟩; exact congrArg some (ext hy hm hd).symm
  · rename_i h
    refine ⟨nofun, ?_⟩
    rintro ⟨rfl, rfl, rfl⟩
    exact absurd d.exist h

@[simp] theorem ofParts?_parts (d : Date) : ofParts? d.year d.month d.day = some d :=
  ofParts?_eq_some_iff.mpr ⟨rfl, rfl, rfl⟩

end Date

end OpeningHours
