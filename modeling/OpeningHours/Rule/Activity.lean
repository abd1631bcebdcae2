import OpeningHours.Date.Format
import OpeningHours.Rule.Basic

/-! When a rule is active.

The filters of a rule look at a few facts about a day. A filter without values
admits every day, and one with values admits the days that some value admits. A
rule is active on a day that all its filters admit; then it contributes the
intervals of its periods clause, as they are written. -/
namespace OpeningHours

/-- What rules may ask about a day. -/
structure DayFacts where
  /-- Year, month and day without separators. -/
  date : String
  /-- Month and day. -/
  monthDay : String
  /-- Zero for Sunday. -/
  weekday : UInt32
  /-- Counted from one. -/
  yearDay : UInt32
  isSpecial : SpecialDay → Bool

/-- The facts about a date. -/
def Date.facts (d : Date) : DayFacts where
  date := d.toBasicISO
  monthDay := d.toMonthDay
  weekday := UInt32.ofNat d.weekday
  yearDay := UInt32.ofNat d.ordinal
  isSpecial s := s.falls d

/-- A list of constraints admits a value if it is empty or one of them does. -/
def Constraint.anyAdmits {α : Type} [LE α] [DecidableEq α] [∀ a b : α, Decidable (a ≤ b)]
    (values : List (Constraint α)) (x : α) : Bool :=
  values.isEmpty || values.any fun c => decide (c.Admits x)

/-- Whether a clause lets a rule be active on a day; the periods clause always does. -/
def Clause.admits (c : Clause) (f : DayFacts) : Bool :=
  match c with
  | .periods _ => true
  | .days values => Constraint.anyAdmits values f.date
  | .weekdays values => Constraint.anyAdmits values f.weekday
  | .birthdays values => Constraint.anyAdmits values f.monthDay
  | .yeardays values => Constraint.anyAdmits values f.yearDay
  | .specialdays values => values.isEmpty || values.any f.isSpecial

namespace Rule

def isActive (r : Rule) (f : DayFacts) : Bool := r.filters.all fun c => c.admits f

/-- The intervals that a rule contributes on a day, in the order of its text. -/
def activeIntervals (r : Rule) (f : DayFacts) : List Interval :=
  match r.periods? with
  | none => []
  | some values => if r.isActive f then values else []

end Rule

end OpeningHours
