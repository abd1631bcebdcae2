import OpeningHours.Date.Instant
import OpeningHours.Interval.Basic

/-! Windows of time.

A window runs from one instant up to and without another. It touches the days
from its first to its last; the day of an end at midnight is not touched. On its
first and last day a window may cut periods to its own times. -/
namespace OpeningHours

structure Window where
  start : Instant
  stop : Instant
  deriving DecidableEq

namespace Window

/-- The last day that the window touches, unless it is empty. -/
def lastDay? (w : Window) : Option Date :=
  if w.start < w.stop then
    if w.stop.isMidnight then w.stop.date.previous? else some w.stop.date
  else none

/-- The days of the window. -/
def days (w : Window) : List Date :=
  match w.lastDay? with
  | none => []
  | some last => w.start.date.daysFrom (last.number - w.start.date.number + 1).toNat

/-- The minute from which the first day is inside the window. -/
def startMinute (w : Window) : Minute := Int32.ofNat w.start.clock.minuteNotBefore

/-- The minute up to which the last day is inside the window. -/
def stopMinute (w : Window) : Minute :=
  if w.stop.isMidnight then Minute.perDay else Int32.ofNat w.stop.clock.minuteNotAfter

/-- Periods without what lies before a minute. -/
def trimStart (minute : Minute) (periods : List Interval) : List Interval :=
  (periods.filter fun i => minute < i.stop).map fun i => {i with start := i.start.later minute}

/-- Periods without what lies from a minute on. -/
def trimStop (minute : Minute) (periods : List Interval) : List Interval :=
  (periods.filter fun i => i.start < minute).map fun i => {i with stop := i.stop.earlier minute}

/-- The periods of a day, cut where it is the first or the last day of the window. -/
def trim (w : Window) (firstDay lastDay : Option Date) (d : Date) (periods : List Interval) :
    List Interval :=
  let fromStart := if some d = firstDay then trimStart w.startMinute periods else periods
  if some d = lastDay then trimStop w.stopMinute fromStart else fromStart

end Window

end OpeningHours
