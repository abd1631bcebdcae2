import OpeningHours.Interval.Basic

/-! The normal form of a list of intervals.

`reduce` pulls every interval into the day, drops what is left empty, sorts by
start and merges what overlaps or touches. -/
namespace OpeningHours.Interval

/-- Merges intervals sorted by start into the interval in hand. -/
def sweep (held : Interval) : List Interval → List Interval
  | [] => [held]
  | next :: rest =>
    if next.start ≤ held.stop ∧ held.stop < next.stop then
      sweep {held with stop := next.stop} rest
    else if held.start ≤ next.start ∧ next.stop ≤ held.stop then
      sweep held rest
    else
      held :: sweep next rest

def merge : List Interval → List Interval
  | [] => []
  | first :: rest => sweep first rest

/-- The intervals pulled into the day, without those left empty. -/
def withinDay (l : List Interval) : List Interval := (l.map clamp).filter isProper

def reduce (l : List Interval) : List Interval :=
  merge ((withinDay l).mergeSort startsBefore)

end OpeningHours.Interval
