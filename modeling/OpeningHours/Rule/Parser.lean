import OpeningHours.Rule.Basic
import OpeningHours.Rule.Fault
import OpeningHours.Text.Blank
import OpeningHours.Text.Decimal

/-! Reading rules.

A rule is written as clauses with semicolons between them, a clause as a name, an
equals sign and values with commas between them, and a value as one text or as a
range of two with a hyphen. White space around each part and blank parts do not
count. Every clause is checked for its form first, then for its name, then for its
values, each from left to right; the leftmost faulty clause decides. -/
namespace OpeningHours
open Text

/-- A value as it is written. -/
inductive Written where
  | single (text : List Char)
  | range (least greatest : List Char)
  deriving DecidableEq, Repr

/-- The value that a text without white space around it writes. -/
def Written.read (text : List Char) : Except RuleFault Written :=
  match cut? '-' text with
  | none => .ok (.single text)
  | some (before, after) =>
    let least := trim before
    let greatest := trim after
    if least = [] ∨ greatest = [] ∨ '-' ∈ greatest then
      .error (.malformedRange (String.ofList text))
    else .ok (.range least greatest)

/-- The parts of a text between separators, trimmed, without the blank ones. -/
def parts (sep : Char) (s : List Char) : List (List Char) :=
  ((s.splitOn sep).map trim).filter (· ≠ [])

def Written.readAll (s : List Char) : Except RuleFault (List Written) :=
  (parts ',' s).mapM Written.read

/-- A number of at most `limit`; faults tell the clause by the name it was given. -/
def readNumber (name : String) (limit : Nat) (text : List Char) : Except RuleFault Nat :=
  match Decimal.readUpTo? limit text with
  | some n => .ok n
  | none => .error (.notInteger name (String.ofList text))

/-- A minute; a value never has a minus sign. -/
def readMinute (name : String) (text : List Char) : Except RuleFault Minute :=
  (readNumber name Minute.greatest text).map Int32.ofNat

def readUInt32 (name : String) (text : List Char) : Except RuleFault UInt32 :=
  (readNumber name (UInt32.size - 1) text).map UInt32.ofNat

def Written.period (name : String) : Written → Except RuleFault Interval
  | single _ => .error (.expectedRange name)
  | range least greatest => do
    let start ← readMinute name least
    let stop ← readMinute name greatest
    if start < stop then .ok ⟨start, stop⟩ else .error (.emptyRange name start stop)

def Written.text : Written → Constraint String
  | single s => .exactly (String.ofList s)
  | range least greatest => .between (String.ofList least) (String.ofList greatest)

def Written.number (name : String) : Written → Except RuleFault (Constraint UInt32)
  | single s => (readUInt32 name s).map .exactly
  | range least greatest => do
    let least ← readUInt32 name least
    let greatest ← readUInt32 name greatest
    return .between least greatest

/-- The special day with this name, in English or French. -/
def SpecialDay.read (name : String) : Except RuleFault SpecialDay :=
  if name ∈ ["easter", "paques", "pâques"] then .ok .easter
  else if name ∈ ["easterMonday", "lundiPaques", "lundiPâques"] then .ok .easterMonday
  else if name = "ascension" then .ok .ascension
  else if name ∈ ["pentecost", "pentecote", "pentecôte"] then .ok .pentecost
  else if name ∈ ["today", "aujourdhui", "tomorrow", "demain"] then .error (.relativeDay name)
  else .error (.unknownSpecialDay name)

def Written.specialDay (name : String) : Written → Except RuleFault SpecialDay
  | single s => SpecialDay.read (String.ofList s)
  | range least greatest =>
    .error (.unexpectedRange name (String.ofList least) (String.ofList greatest))

/-- The clause with this name and these values. -/
def Clause.ofValues (name : String) (values : List Written) : Except RuleFault Clause :=
  match Kind.ofName? name with
  | none => .error (.unknownClause name)
  | some .periods => (values.mapM (Written.period name)).map .periods
  | some .days => .ok (.days (values.map Written.text))
  | some .weekdays => (values.mapM (Written.number name)).map .weekdays
  | some .birthdays => .ok (.birthdays (values.map Written.text))
  | some .yeardays => (values.mapM (Written.number name)).map .yeardays
  | some .specialdays => (values.mapM (Written.specialDay name)).map .specialdays

/-- Reads a clause that has no white space around it. -/
def Clause.read (text : List Char) : Except RuleFault Clause :=
  match cut? '=' text with
  | none => .error (.missingEquals (String.ofList text))
  | some (before, after) =>
    let name := trim before
    if name = [] then .error (.missingName (String.ofList text))
    else do
      let values ← Written.readAll after
      Clause.ofValues (String.ofList name) values

/-- The clauses of a text one by one, in the order of the text. -/
def Clause.readAll (s : List Char) : Except RuleFault (List Clause) :=
  (parts ';' s).mapM Clause.read

/-- Reads a rule; clauses of one kind become one. -/
def Rule.read (text : String) : Except RuleFault Rule := do
  let clauses ← Clause.readAll text.toList
  return ⟨String.ofList (trim text.toList), Clause.insertAll [] clauses⟩

end OpeningHours
