import OpeningHours.CommandLine.Arguments
import OpeningHours.Json.Value
import OpeningHours.Text.Decimal

/-! Commands: what a command line asks for.

A query is about the days of a window; slicing is about periods from a document.
Both have options for the calendar, which go beside a rule file or in its place. Help
texts are left out: a line that asks for help is no command here. -/
namespace OpeningHours.CommandLine
open Text Json

/-- How a calendar is made from a rule file and from options. -/
structure CalendarOptions where
  /-- Name of the rule file. -/
  rules : Option String := none
  opening : List String := []
  closing : List String := []
  granularity : Option UInt32 := none
  /-- Alignment can be switched on, not off. -/
  midnightAlignment : Bool := false
  cacheSize : Option UInt64 := none
  dateFormat : Option String := none
  deriving DecidableEq, Repr

/-- What a query asks of each day. -/
inductive Topic where
  | periods
  | slots
  | days
  deriving DecidableEq, Repr

inductive Command where
  | version
  | query (topic : Topic) (start stop : String) (adjust : Bool) (options : CalendarOptions)
      (layout : Value.Layout)
  /-- Periods come from a file, or from the standard input. -/
  | slice (input : Option String) (options : CalendarOptions) (layout : Value.Layout)
  deriving DecidableEq, Repr

/-- The number of minutes that a text gives. -/
def granularity? (s : String) : Option UInt32 := do
  let n ← Decimal.readSigned? s.toList
  if 0 ≤ n ∧ n < UInt32.size then some (UInt32.ofNat n.toNat) else none

def cacheSize? (s : String) : Option UInt64 :=
  (Decimal.readUpTo? (UInt64.size - 1) s.toList).map UInt64.ofNat

def CalendarOptions.ofArguments? (a : Arguments) : Option CalendarOptions := do
  let granularity ← (a.value? .granularity).mapM granularity?
  let cacheSize ← (a.value? .cacheSize).mapM cacheSize?
  return {
    rules := a.value? .rules
    opening := a.values .opening
    closing := a.values .closing
    granularity
    midnightAlignment := a.has .midnightAlignment
    cacheSize
    dateFormat := a.value? .dateFormat }

namespace Command

def layout (a : Arguments) : Value.Layout := if a.has .pretty then .pretty else .compact

def query? (topic : Topic) (args : List String) : Option Command := do
  let a ← Arguments.read? Parameter.ofQuery args
  let start ← a.value? .windowStart
  let stop ← a.value? .windowStop
  let options ← CalendarOptions.ofArguments? a
  return query topic start stop (a.has .adjust) options (layout a)

def slice? (args : List String) : Option Command := do
  let a ← Arguments.read? Parameter.ofSlice args
  let options ← CalendarOptions.ofArguments? a
  return slice (a.value? .input) options (layout a)

/-- Whether an argument asks for the version, whatever follows it. -/
def asksVersion (arg : String) : Bool :=
  arg = "--version" || ['-', 'V'].isPrefixOf arg.toList

/-- The command of a command line, if it is one. -/
def read? : List String → Option Command
  | [] => none
  | arg :: rest =>
    if asksVersion arg then some version
    else
      match arg with
      | "periods" => query? .periods rest
      | "slots" => query? .slots rest
      | "days" => query? .days rest
      | "slice" => slice? rest
      | _ => none

end Command

end OpeningHours.CommandLine
