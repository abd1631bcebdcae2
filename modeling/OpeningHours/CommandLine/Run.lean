import OpeningHours.Calendar.Basic
import OpeningHours.CommandLine.Command
import OpeningHours.Date.Reading
import OpeningHours.Document

/-! Running commands.

A command that runs prints one document. One that fails tells why, from the
outermost cause inwards. The options of a calendar are applied one after the
other to the calendar of the rule file: first the settings, then the rules. -/
namespace OpeningHours.CommandLine
open Text Json

/-- Why a command fails. -/
inductive Failure where
  | windowStart (text : String)
  | windowStop (text : String)
  | unreadableFile (name : String)
  | unreadableInput
  | ruleFile (name : String) (fault : ConfigFault)
  | rulesOfFile (fault : Fault)
  | granularity (fault : Fault)
  | dateFormat (fault : Fault)
  | opening (fault : Fault)
  | closing (fault : Fault)
  | periods
  deriving DecidableEq, Repr

namespace Failure

def unrecognized (text : String) : String :=
  "Unrecognized datetime: '" ++ String.ofList (trim text.toList) ++ "'"

/-- The texts of a failure, the outermost cause first. -/
def chain : Failure → List String
  | windowStart text => ["Invalid --from", unrecognized text]
  | windowStop text => ["Invalid --to", unrecognized text]
  | unreadableFile name => ["Failed to read file: " ++ name]
  | unreadableInput => ["Failed to read from stdin"]
  | ruleFile name fault => ["Failed to load rule file: " ++ name, (Fault.config fault).message]
  | rulesOfFile fault => ["Invalid rules in rule file", fault.message]
  | granularity fault => ["Invalid --granularity", fault.message]
  | dateFormat fault => ["Invalid --date-format", fault.message]
  | opening fault => ["Invalid --open rule", fault.message]
  | closing fault => ["Invalid --close rule", fault.message]
  | periods => ["Failed to parse periods JSON"]

end Failure

/-- What a command can read; a text that is missing cannot be read. -/
structure Sources where
  file : String → Option String
  input : Option String

/-- The text of a file, or of the standard input. -/
def Sources.read (sources : Sources) : Option String → Except Failure String
  | some name =>
    match sources.file name with
    | some text => .ok text
    | none => .error (.unreadableFile name)
  | none =>
    match sources.input with
    | some text => .ok text
    | none => .error .unreadableInput

namespace CalendarOptions

/-- The rule file that the options name; without one, an empty rule file. -/
def ruleFile (o : CalendarOptions) (sources : Sources) : Except Failure RuleFile :=
  match o.rules with
  | none => .ok {}
  | some name => do
    let text ← sources.read (some name)
    (RuleFile.read text).mapError (.ruleFile name)

/-- The calendar of a rule file, changed as the options tell. -/
def calendar (o : CalendarOptions) (file : RuleFile) : Except Failure Calendar := do
  let c ← (Calendar.ofRuleFile file).mapError .rulesOfFile
  let c ←
    match o.granularity with
    | none => .ok c
    | some minutes => (c.setGranularity minutes).mapError .granularity
  let c := if o.midnightAlignment then c.setMidnightAlignment true else c
  let c :=
    match o.cacheSize with
    | none => c
    | some size => c.setCacheSize size
  let c ←
    match o.dateFormat with
    | none => .ok c
    | some format => (c.setDateFormat format).mapError .dateFormat
  let c ← (c.addOpening o.opening).mapError .opening
  (c.addClosing o.closing).mapError .closing

end CalendarOptions

namespace Command

/-- The name and the version of the program. -/
def versionText : String := "timeslots 0.1.0"

def readWindow (start stop : String) : Except Failure Window := do
  let first ←
    match Instant.read? start with
    | some instant => .ok instant
    | none => .error (.windowStart start)
  let last ←
    match Instant.read? stop with
    | some instant => .ok instant
    | none => .error (.windowStop stop)
  return ⟨first, last⟩

/-- The document that answers a query. -/
def answer (topic : Topic) (c : Calendar) (w : Window) (adjust : Bool) : Value :=
  match topic with
  | .periods => (c.periodsOfDays w adjust).1.toValue Interval.listToValue
  | .slots => (c.slotsOfDays w adjust).1.toValue Interval.listToValue
  | .days => (c.openDays w).1.toValue .bool

/-- What a command prints, without the end of the line. -/
def run (sources : Sources) : Command → Except Failure String
  | version => .ok versionText
  | query topic start stop adjust options layout => do
    let window ← readWindow start stop
    let calendar ← options.calendar (← options.ruleFile sources)
    return (answer topic calendar window adjust).write layout
  | slice input options layout => do
    let calendar ← options.calendar (← options.ruleFile sources)
    let text ← sources.read input
    match Value.read? text with
    | none => .error .periods
    | some value =>
      let slots := (calendar.slotsOfPeriods (Interval.listOfValue value)).1
      return (Interval.listToValue slots).write layout

/-- The files that a command may read. -/
def files : Command → List String
  | version => []
  | query _ _ _ _ options _ => options.rules.toList
  | slice input options _ => options.rules.toList ++ input.toList

/-- Whether a command may read the standard input. -/
def readsInput : Command → Bool
  | slice none _ _ => true
  | _ => false

end Command

/-- How a command line ends. -/
inductive Outcome where
  | printed (text : String)
  | failed (failure : Failure)
  /-- The arguments are no command; a line that asks for help ends so, too. -/
  | misused
  deriving DecidableEq, Repr

/-- Runs a command line; what is printed ends with a line feed. -/
def run (args : List String) (sources : Sources) : Outcome :=
  match Command.read? args with
  | none => .misused
  | some command =>
    match command.run sources with
    | .ok text => .printed (text ++ "\n")
    | .error failure => .failed failure

end OpeningHours.CommandLine
