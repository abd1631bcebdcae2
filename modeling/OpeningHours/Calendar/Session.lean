import OpeningHours.Calendar.Basic

/-! Sessions: what is asked of a calendar, one request after the other.

A request is a change or a query. A change that is refused answers with its fault
and leaves the calendar as it was. -/
namespace OpeningHours.Calendar

inductive Request where
  | addOpening (texts : List String)
  | addClosing (texts : List String)
  | clearOpening
  | clearClosing
  | clearRules
  | setGranularity (minutes : UInt32)
  | setMidnightAlignment (enabled : Bool)
  | setCacheSize (size : UInt64)
  | setDateFormat (format : String)
  | clearCaches
  | periodsOfDay (day : Date)
  | slotsOfDay (day : Date)
  | slotsOfPeriods (periods : List Interval)
  | slotsOfPeriod (period : Interval)
  | openDays (window : Window)
  | periodsOfDays (window : Window) (adjust : Bool)
  | slotsOfDays (window : Window) (adjust : Bool)
  deriving DecidableEq

inductive Answer where
  /-- The change was made. -/
  | done
  /-- The change was not made. -/
  | refused (fault : Fault)
  | intervals (value : List Interval)
  | opens (value : DayTable Bool)
  | intervalsOfDays (value : DayTable (List Interval))
  deriving DecidableEq

/-- The answer to a change that can be refused. -/
def attempt (c : Calendar) : Except Fault Calendar → Answer × Calendar
  | .ok changed => (.done, changed)
  | .error fault => (.refused fault, c)

def answer (c : Calendar) : Request → Answer × Calendar
  | .addOpening texts => c.attempt (c.addOpening texts)
  | .addClosing texts => c.attempt (c.addClosing texts)
  | .clearOpening => (.done, c.clearOpening)
  | .clearClosing => (.done, c.clearClosing)
  | .clearRules => (.done, c.clearRules)
  | .setGranularity minutes => c.attempt (c.setGranularity minutes)
  | .setMidnightAlignment enabled => (.done, c.setMidnightAlignment enabled)
  | .setCacheSize size => (.done, c.setCacheSize size)
  | .setDateFormat format => c.attempt (c.setDateFormat format)
  | .clearCaches => (.done, c.clearCaches)
  | .periodsOfDay day => let (value, c) := c.periodsOfDay day; (.intervals value, c)
  | .slotsOfDay day => let (value, c) := c.slotsOfDay day; (.intervals value, c)
  | .slotsOfPeriods periods => let (value, c) := c.slotsOfPeriods periods; (.intervals value, c)
  | .slotsOfPeriod period => let (value, c) := c.slotsOfPeriod period; (.intervals value, c)
  | .openDays window => let (value, c) := c.openDays window; (.opens value, c)
  | .periodsOfDays window adjust =>
    let (value, c) := c.periodsOfDays window adjust; (.intervalsOfDays value, c)
  | .slotsOfDays window adjust =>
    let (value, c) := c.slotsOfDays window adjust; (.intervalsOfDays value, c)

/-- The answers to all requests in turn, and the calendar after them. -/
def answerAll (c : Calendar) : List Request → List Answer × Calendar
  | [] => ([], c)
  | request :: rest =>
    let (first, c) := c.answer request
    let (others, c) := c.answerAll rest
    (first :: others, c)

/-- The calendars that some session reaches. -/
inductive Reachable : Calendar → Prop
  | empty : Reachable empty
  | ofConfig {config : Config} {c : Calendar} : ofConfig config = .ok c → Reachable c
  | ofRuleFile {file : RuleFile} {c : Calendar} : ofRuleFile file = .ok c → Reachable c
  | answer {c : Calendar} (request : Request) : Reachable c → Reachable (c.answer request).2

end OpeningHours.Calendar
