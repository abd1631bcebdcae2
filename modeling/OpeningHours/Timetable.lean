import OpeningHours.Config
import OpeningHours.DayTable
import OpeningHours.Interval.Slots
import OpeningHours.Interval.Subtract
import OpeningHours.Rule.Activity
import OpeningHours.Rule.Parser
import OpeningHours.Window

/-! A timetable: settings, opening rules and closing rules.

The open periods of a day are what the active opening rules contribute less what
the active closing rules contribute. Nothing here is remembered: every answer is
computed from the rules and the settings alone. A change that is refused leaves
no timetable behind, so the old one stays. -/
namespace OpeningHours

structure Timetable where
  config : Config
  opening : List Rule
  closing : List Rule
  deriving DecidableEq

namespace Timetable

/-! ### Rules and settings -/

/-- A timetable without rules. -/
def ofConfig (config : Config) : Timetable := ⟨config, [], []⟩

/-- Reads rules; the first that cannot be read decides. -/
def readRules (texts : List String) : Except Fault (List Rule) :=
  (texts.mapM Rule.read).mapError .rule

def addOpening (t : Timetable) (texts : List String) : Except Fault Timetable := do
  let rules ← readRules texts
  return {t with opening := t.opening ++ rules}

def addClosing (t : Timetable) (texts : List String) : Except Fault Timetable := do
  let rules ← readRules texts
  return {t with closing := t.closing ++ rules}

def setGranularity (t : Timetable) (minutes : UInt32) : Except Fault Timetable := do
  (Config.checkGranularity minutes).mapError .config
  return {t with config.granularity := minutes}

def setDateFormat (t : Timetable) (format : String) : Except Fault Timetable := do
  (Config.checkDateFormat format).mapError .config
  return {t with config.dateFormat := format}

/-- The document from which the timetable can be made again. -/
def toRuleFile (t : Timetable) : RuleFile :=
  ⟨t.config, t.opening.map Rule.source, t.closing.map Rule.source⟩

/-! ### Answers -/

def grid (t : Timetable) : Grid := ⟨t.config.granularity, t.config.midnightAlignment⟩

def contributions (rules : List Rule) (d : Date) : List Interval :=
  let facts := d.facts
  rules.flatMap fun r => r.activeIntervals facts

/-- The open periods of a day. -/
def periodsOfDay (t : Timetable) (d : Date) : List Interval :=
  Interval.subtract (contributions t.opening d) (contributions t.closing d)

def slotsOfPeriods (t : Timetable) (periods : List Interval) : List Interval :=
  t.grid.slice periods

def slotsOfDay (t : Timetable) (d : Date) : List Interval := t.slotsOfPeriods (t.periodsOfDay d)

/-- The key of a day in results; the ISO form stands in for a format that does not
render. -/
def dayKey (t : Timetable) (d : Date) : String := (d.format? t.config.dateFormat).getD d.toISO

/-- The values of the days, under their keys. -/
def collect {α : Type} (t : Timetable) (days : List Date) (value : Date → α) : DayTable α :=
  DayTable.ofList (days.map fun d => (t.dayKey d, value d))

/-- Whether each day of a window has an open period. -/
def openDays (t : Timetable) (w : Window) : DayTable Bool :=
  t.collect w.days fun d => !(t.periodsOfDay d).isEmpty

/-- The open periods of a day of a window, cut to the window if `adjust`. -/
def periodsInWindow (t : Timetable) (w : Window) (adjust : Bool) (d : Date) : List Interval :=
  if adjust then w.trim w.days.head? w.days.getLast? d (t.periodsOfDay d) else t.periodsOfDay d

/-- The open periods of each day of a window. -/
def periodsOfDays (t : Timetable) (w : Window) (adjust : Bool) : DayTable (List Interval) :=
  t.collect w.days (t.periodsInWindow w adjust)

/-- The slots of each day of a window. -/
def slotsOfDays (t : Timetable) (w : Window) (adjust : Bool) : DayTable (List Interval) :=
  t.collect w.days fun d => t.slotsOfPeriods (t.periodsInWindow w adjust d)

end Timetable

end OpeningHours
