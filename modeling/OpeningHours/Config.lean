import OpeningHours.Date.Format
import OpeningHours.Rule.Fault
import OpeningHours.Text.Blank

/-! Settings of a calendar, and rule files.

A setting is checked before it is used: slots are one minute to one day wide, and
keys are made with a date format that renders. That is tried out on one date, the
first of the calendar. -/
namespace OpeningHours

structure Config where
  /-- Width of a slot in minutes. -/
  granularity : UInt32 := 30
  /-- Slots start at multiples of the granularity. -/
  midnightAlignment : Bool := false
  /-- Results remembered for each operation; zero for none. -/
  cacheSize : UInt64 := 0
  /-- Format of the keys of days. -/
  dateFormat : String := Date.isoFormat
  deriving DecidableEq, Repr

inductive ConfigFault where
  | granularity (minutes : UInt32)
  | emptyFormat
  | invalidFormat (format : String)
  | unrenderableFormat (format : String)
  | unreadableRuleFile
  deriving DecidableEq, Repr

def ConfigFault.detail : ConfigFault → String
  | granularity minutes =>
    "granularity must be between 1 and 1440 minutes, got " ++ toString minutes.toNat
  | emptyFormat => "date format must not be empty"
  | invalidFormat format => "invalid date format '" ++ format ++ "'"
  | unrenderableFormat format =>
    "date format '" ++ format ++ "' uses fields a calendar day cannot render"
  | unreadableRuleFile => "rule file:"

namespace Config

def checkGranularity (minutes : UInt32) : Except ConfigFault Unit :=
  if 1 ≤ minutes ∧ minutes ≤ 1440 then .ok () else .error (.granularity minutes)

def checkDateFormat (format : String) : Except ConfigFault Unit :=
  if Text.trim format.toList = [] then .error .emptyFormat
  else if DateFormat.items? format.toList = none then .error (.invalidFormat format)
  else if Date.first.format? format = none then .error (.unrenderableFormat format)
  else .ok ()

def check (c : Config) : Except ConfigFault Unit := do
  checkGranularity c.granularity
  checkDateFormat c.dateFormat

end Config

/-- A document with settings and the texts of rules. -/
structure RuleFile where
  config : Config := {}
  opening : List String := []
  closing : List String := []
  deriving DecidableEq, Repr

/-- Everything that a calendar can refuse. -/
inductive Fault where
  | rule (fault : RuleFault)
  | config (fault : ConfigFault)
  deriving DecidableEq, Repr

namespace Fault

inductive Kind where
  | ruleFormat
  | ruleParameter
  | configuration
  deriving DecidableEq, Repr

def kind : Fault → Kind
  | rule fault => if fault.isFormat then .ruleFormat else .ruleParameter
  | config _ => .configuration

def Kind.title : Kind → String
  | ruleFormat => "Invalid rule format"
  | ruleParameter => "Invalid rule parameter"
  | configuration => "Invalid configuration"

def detail : Fault → String
  | rule fault => fault.detail
  | config fault => fault.detail

def message (f : Fault) : String := f.kind.title ++ ": " ++ f.detail

end Fault

end OpeningHours
