import OpeningHours.Text.Blank

/-! Arguments of a command.

An argument names a parameter after two hyphens, or the input after `-i`. A flag
stands alone; any other parameter takes a value, behind an equals sign or as the
next argument, which then may not begin with a hyphen unless it is one. Only rules
may be given more than once. -/
namespace OpeningHours.CommandLine
open Text

inductive Parameter where
  | windowStart
  | windowStop
  | adjust
  | rules
  | opening
  | closing
  | granularity
  | midnightAlignment
  | cacheSize
  | dateFormat
  | pretty
  | input
  deriving DecidableEq, Repr

namespace Parameter

def name : Parameter → String
  | windowStart => "from"
  | windowStop => "to"
  | adjust => "adjust"
  | rules => "rules"
  | opening => "open"
  | closing => "close"
  | granularity => "granularity"
  | midnightAlignment => "midnight-alignment"
  | cacheSize => "cache-size"
  | dateFormat => "date-format"
  | pretty => "pretty"
  | input => "input"

/-- Whether the parameter takes no value. -/
def isFlag (p : Parameter) : Bool := p ∈ [adjust, midnightAlignment, pretty]

/-- Whether the parameter may be given more than once. -/
def repeats (p : Parameter) : Bool := p ∈ [opening, closing]

/-- What a calendar is made from. -/
def ofCalendar : List Parameter :=
  [rules, opening, closing, granularity, midnightAlignment, cacheSize, dateFormat]

/-- What a query about a window has. -/
def ofQuery : List Parameter := [windowStart, windowStop, adjust, pretty] ++ ofCalendar

/-- What the slicing of given periods has. -/
def ofSlice : List Parameter := [input, pretty] ++ ofCalendar

end Parameter

/-- Parameters with their values, in the order of the arguments; the value of a flag is
empty. -/
abbrev Arguments := List (Parameter × String)

namespace Arguments

/-- The parameter that an argument names, and the value that it brings along. -/
def named? (allowed : List Parameter) : List Char → Option (Parameter × Option String)
  | '-' :: '-' :: text =>
    match cut? '=' text with
    | some (name, value) =>
      (allowed.find? (·.name.toList = name)).map (·, some (String.ofList value))
    | none => (allowed.find? (·.name.toList = text)).map (·, none)
  | '-' :: 'i' :: text =>
    if Parameter.input ∈ allowed then
      match text with
      | [] => some (.input, none)
      | '=' :: value => some (.input, some (String.ofList value))
      | value => some (.input, some (String.ofList value))
    else none
  | _ => none

/-- Whether an argument can be the value of the parameter before it. -/
def isValue (arg : String) : Bool := arg = "-" || arg.toList.head? ≠ some '-'

/-- The parameters among `allowed` that the arguments give. Two hyphens end them. -/
def scan? (allowed : List Parameter) : List String → Option Arguments
  | [] => some []
  | arg :: rest =>
    if arg = "--" then (if rest = [] then some [] else none)
    else
      match named? allowed arg.toList with
      | none => none
      | some (p, some value) =>
        if p.isFlag then none else (scan? allowed rest).map ((p, value) :: ·)
      | some (p, none) =>
        if p.isFlag then (scan? allowed rest).map ((p, "") :: ·)
        else
          match rest with
          | [] => none
          | value :: rest =>
            if isValue value then (scan? allowed rest).map ((p, value) :: ·) else none

/-- No parameter is given twice, apart from those that may be. -/
def Unrepeated (a : Arguments) : Prop := ((a.map Prod.fst).filter fun p => !p.repeats).Nodup

instance (a : Arguments) : Decidable a.Unrepeated := inferInstanceAs (Decidable (List.Nodup _))

def read? (allowed : List Parameter) (args : List String) : Option Arguments := do
  let a ← scan? allowed args
  if a.Unrepeated then some a else none

def has (a : Arguments) (p : Parameter) : Bool := a.any (·.1 = p)

def value? (a : Arguments) (p : Parameter) : Option String := (a.find? (·.1 = p)).map Prod.snd

def values (a : Arguments) (p : Parameter) : List String := (a.filter (·.1 = p)).map Prod.snd

end Arguments

end OpeningHours.CommandLine
