import OpeningHours.Minute

/-! Intervals of minutes.

An interval runs from `start` up to and without `stop`. Its bounds are free: an
interval may be empty, run backwards or lie outside the day. What a list of
intervals means is the set of minutes it covers (`Covers`); a list in normal form
(`Normal`) has non-empty intervals of the day, ascending, with a gap between any
two. -/
namespace OpeningHours

structure Interval where
  start : Minute
  stop : Minute
  deriving DecidableEq, Hashable, Repr

namespace Interval

/-- Length in minutes, zero for an interval that runs backwards. -/
def duration (i : Interval) : Minute := Minute.later (i.stop - i.start) 0

/-- An interval is proper when it has a minute. -/
def isProper (i : Interval) : Bool := i.start < i.stop

def clamp (i : Interval) : Interval := ⟨i.start.clamp, i.stop.clamp⟩

/-- Order by start, then by stop. -/
def le (a b : Interval) : Bool := a.start < b.start || (a.start == b.start && a.stop ≤ b.stop)

def sort (l : List Interval) : List Interval := l.mergeSort le

/-- Order by start alone. -/
def startsBefore (a b : Interval) : Bool := a.start ≤ b.start

def Covers (i : Interval) (m : Int) : Prop := i.start.toInt ≤ m ∧ m < i.stop.toInt

instance (i : Interval) (m : Int) : Decidable (i.Covers m) := inferInstanceAs (Decidable (_ ∧ _))

/-- Some interval of the list covers the minute. -/
def CoveredBy (l : List Interval) (m : Int) : Prop := ∃ i ∈ l, i.Covers m

instance (l : List Interval) (m : Int) : Decidable (CoveredBy l m) :=
  inferInstanceAs (Decidable (∃ i ∈ l, i.Covers m))

/-- Non-empty intervals of the day, ascending, with a gap between any two. -/
structure Normal (l : List Interval) : Prop where
  inDay : ∀ i ∈ l, 0 ≤ i.start.toInt ∧ i.start.toInt < i.stop.toInt ∧ i.stop.toInt ≤ 1440
  apart : l.Pairwise fun a b => a.stop.toInt < b.start.toInt

end Interval

end OpeningHours
