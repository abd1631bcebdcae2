import OpeningHours.Memory
import OpeningHours.Timetable

/-! A calendar: a timetable that remembers its answers.

The calendar keeps what it computed for each day, and in three memories what it
computed for lists of intervals. A change of the rules or of what answers depend
on forgets all of it (`renew`); a change of the cache size only resizes the
memories. No answer depends on what is remembered: it is the timetable's own. -/
namespace OpeningHours

/-- What is remembered of a day. -/
structure DayState where
  periods : Option (List Interval) := none
  slots : Option (List Interval) := none
  deriving DecidableEq

structure Calendar where
  timetable : Timetable
  days : Std.HashMap Date DayState
  /-- Normal forms of lists of intervals. -/
  reductions : Memory (List Interval) (List Interval)
  /-- Differences of two lists of intervals. -/
  differences : Memory (List Interval × List Interval) (List Interval)
  /-- Slots of lists of periods on the timetable's grid. -/
  slicings : Memory (List Interval) (List Interval)

namespace Calendar

/-! ### Making a calendar -/

/-- A calendar that has computed nothing yet. -/
def ofTimetable (t : Timetable) : Calendar :=
  let capacity := t.config.cacheSize.toNat
  ⟨t, ∅, .empty capacity, .empty capacity, .empty capacity⟩

/-- A calendar without rules, with the default settings. -/
def empty : Calendar := ofTimetable (.ofConfig {})

def ofConfig (config : Config) : Except Fault Calendar := do
  config.check.mapError .config
  return ofTimetable (.ofConfig config)

/-! ### Changes -/

def clearCaches (c : Calendar) : Calendar :=
  {c with
    reductions := c.reductions.clear
    differences := c.differences.clear
    slicings := c.slicings.clear}

/-- Forgets what was computed for days and for lists of intervals. -/
def forget (c : Calendar) : Calendar := {c.clearCaches with days := ∅}

/-- Takes another timetable and forgets what was computed with the old one. -/
def renew (c : Calendar) (t : Timetable) : Calendar := {c.forget with timetable := t}

/-- Reads and adds opening rules, all of them or none. -/
def addOpening (c : Calendar) (texts : List String) : Except Fault Calendar :=
  (c.timetable.addOpening texts).map c.renew

/-- Reads and adds closing rules, all of them or none. -/
def addClosing (c : Calendar) (texts : List String) : Except Fault Calendar :=
  (c.timetable.addClosing texts).map c.renew

def clearOpening (c : Calendar) : Calendar := c.renew {c.timetable with opening := []}

def clearClosing (c : Calendar) : Calendar := c.renew {c.timetable with closing := []}

def clearRules (c : Calendar) : Calendar :=
  c.renew {c.timetable with opening := [], closing := []}

def setGranularity (c : Calendar) (minutes : UInt32) : Except Fault Calendar :=
  (c.timetable.setGranularity minutes).map c.renew

def setMidnightAlignment (c : Calendar) (enabled : Bool) : Calendar :=
  c.renew {c.timetable with config.midnightAlignment := enabled}

def setDateFormat (c : Calendar) (format : String) : Except Fault Calendar :=
  (c.timetable.setDateFormat format).map c.renew

/-- Resizes the memories; what still fits is kept, and so is what is known of days. -/
def setCacheSize (c : Calendar) (size : UInt64) : Calendar :=
  {c with
    timetable := {c.timetable with config.cacheSize := size}
    reductions := c.reductions.resize size.toNat
    differences := c.differences.resize size.toNat
    slicings := c.slicings.resize size.toNat}

/-- A calendar with the settings and the rules of a document. -/
def ofRuleFile (file : RuleFile) : Except Fault Calendar := do
  let c ← ofConfig file.config
  let c ← c.addOpening file.opening
  c.addClosing file.closing

/-! ### Remembered operations -/

/-- The number of remembered normal forms, differences and slicings. -/
def cacheSizes (c : Calendar) : Nat × Nat × Nat :=
  (c.reductions.size, c.differences.size, c.slicings.size)

def reduce (c : Calendar) (l : List Interval) : List Interval × Calendar :=
  let (value, reductions) := c.reductions.fetch Interval.reduce l
  (value, {c with reductions})

def subtract (c : Calendar) (opening closing : List Interval) : List Interval × Calendar :=
  match c.differences.get? (opening, closing) with
  | some value => (value, c)
  | none =>
    let (reducedOpening, c) := c.reduce opening
    let (reducedClosing, c) := c.reduce closing
    let value := Interval.subtractReduced reducedOpening reducedClosing
    (value, {c with differences := c.differences.put (opening, closing) value})

/-- The slots of any periods. -/
def slotsOfPeriods (c : Calendar) (periods : List Interval) : List Interval × Calendar :=
  let (value, slicings) := c.slicings.fetch c.timetable.grid.slice periods
  (value, {c with slicings})

def slotsOfPeriod (c : Calendar) (period : Interval) : List Interval × Calendar :=
  c.slotsOfPeriods [period]

/-! ### Single days -/

def dayState (c : Calendar) (d : Date) : DayState := (c.days[d]?).getD {}

/-- The open periods of a day, in normal form. -/
def periodsOfDay (c : Calendar) (d : Date) : List Interval × Calendar :=
  match (c.dayState d).periods with
  | some periods => (periods, c)
  | none =>
    let opening := Timetable.contributions c.timetable.opening d
    let closing := Timetable.contributions c.timetable.closing d
    let (periods, c) := c.subtract opening closing
    (periods, {c with days := c.days.insert d {c.dayState d with periods := some periods}})

/-- The slots of a day's open periods. -/
def slotsOfDay (c : Calendar) (d : Date) : List Interval × Calendar :=
  match (c.dayState d).slots with
  | some slots => (slots, c)
  | none =>
    let (periods, c) := c.periodsOfDay d
    let (slots, c) := c.slotsOfPeriods periods
    (slots, {c with days := c.days.insert d {c.dayState d with slots := some slots}})

/-! ### Windows -/

/-- Asks a question for each day in turn, and puts the answers under the days' keys. -/
def collect {α : Type} (c : Calendar) (days : List Date) (ask : Calendar → Date → α × Calendar) :
    DayTable α × Calendar :=
  days.foldl (fun (answers, c) d =>
    let (answer, c) := ask c d
    (answers.push (c.timetable.dayKey d) answer, c)) (.empty, c)

/-- Whether each day of a window has an open period. -/
def openDays (c : Calendar) (w : Window) : DayTable Bool × Calendar :=
  c.collect w.days fun c d =>
    let (periods, c) := c.periodsOfDay d
    (!periods.isEmpty, c)

/-- The open periods of each day of a window, cut to the window if `adjust`. -/
def periodsOfDays (c : Calendar) (w : Window) (adjust : Bool) :
    DayTable (List Interval) × Calendar :=
  let days := w.days
  let firstDay := days.head?
  let lastDay := days.getLast?
  c.collect days fun c d =>
    let (periods, c) := c.periodsOfDay d
    (if adjust then w.trim firstDay lastDay d periods else periods, c)

/-- The slots of each entry of `periodsOfDays`. -/
def slotsOfDays (c : Calendar) (w : Window) (adjust : Bool) : DayTable (List Interval) × Calendar :=
  let (periods, c) := c.periodsOfDays w adjust
  periods.entries.foldl (fun (answers, c) e =>
    let (slots, c) := c.slotsOfPeriods e.2
    (answers.push e.1 slots, c)) (.empty, c)

end Calendar

end OpeningHours
