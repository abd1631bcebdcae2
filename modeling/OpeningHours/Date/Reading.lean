import OpeningHours.Date.Instant
import OpeningHours.Text.Blank
import OpeningHours.Text.Decimal

/-! Reading instants.

An instant is written as a date, alone or with hour and minute, alone or with
second; between date and time stands a `T` or a blank. Each of these forms is a
pattern. White space before a number is skipped, and the whole text must be used.
No text has two forms, so the order of the patterns does not matter. -/
namespace OpeningHours
open Text

namespace Instant

/-- The numbers of a written instant; an instant without a time means midnight. -/
structure Parts where
  year : Int := 0
  month : Nat := 0
  day : Nat := 0
  hour : Nat := 0
  minute : Nat := 0
  second : Nat := 0
  deriving DecidableEq, Repr

/-- The instant with these numbers. Second 60 is a leap second, which any minute may
have. -/
def Parts.instant? (p : Parts) : Option Instant := do
  let date ← Date.ofParts? p.year p.month p.day
  let clock ←
    if p.second = 60 then Clock.ofParts? p.hour p.minute 59 1000000000
    else Clock.ofParts? p.hour p.minute p.second 0
  return ⟨date, clock⟩

inductive Piece where
  | year
  | month
  | day
  | hour
  | minute
  | second
  /-- This character. -/
  | exact (c : Char)
  /-- Any amount of white space. -/
  | blank
  deriving DecidableEq, Repr

abbrev Pattern := List Piece

/-- A number of at most `width` digits from the front of a text, and the rest. -/
def number? (width : Nat) (s : List Char) : Option (Nat × List Char) :=
  let digits := (s.take width).takeWhile Char.isDigit
  (Decimal.read? digits).map fun n => (n, s.drop digits.length)

/-- A number of any length from the front of a text, and the rest. -/
def longNumber? (s : List Char) : Option (Nat × List Char) := number? s.length s

/-- A year has one to four digits, or a sign and any number of them. -/
def year? : List Char → Option (Int × List Char)
  | '-' :: rest => (longNumber? rest).map fun (n, rest) => (-(n : Int), rest)
  | '+' :: rest => (longNumber? rest).map fun (n, rest) => ((n : Int), rest)
  | s => (number? 4 s).map fun (n, rest) => ((n : Int), rest)

/-- Reads one piece off the front of a text. -/
def Piece.read? (p : Parts) (s : List Char) : Piece → Option (Parts × List Char)
  | .year => (year? (trimStart s)).map fun (n, rest) => ({p with year := n}, rest)
  | .month => (number? 2 (trimStart s)).map fun (n, rest) => ({p with month := n}, rest)
  | .day => (number? 2 (trimStart s)).map fun (n, rest) => ({p with day := n}, rest)
  | .hour => (number? 2 (trimStart s)).map fun (n, rest) => ({p with hour := n}, rest)
  | .minute => (number? 2 (trimStart s)).map fun (n, rest) => ({p with minute := n}, rest)
  | .second => (number? 2 (trimStart s)).map fun (n, rest) => ({p with second := n}, rest)
  | .exact c =>
    match s with
    | [] => none
    | d :: rest => if d = c then some (p, rest) else none
  | .blank => some (p, trimStart s)

/-- The numbers of a text that has the form of a pattern, all of it. -/
def Pattern.read? (p : Parts) (s : List Char) : Pattern → Option Parts
  | [] => if s = [] then some p else none
  | piece :: rest => (piece.read? p s).bind fun (p, s) => Pattern.read? p s rest

def datePattern : Pattern := [.year, .exact '-', .month, .exact '-', .day]

def minutePattern : Pattern := [.hour, .exact ':', .minute]

def secondPattern : Pattern := minutePattern ++ [.exact ':', .second]

/-- The five forms of an instant. -/
def patterns : List Pattern :=
  [datePattern ++ .exact 'T' :: secondPattern, datePattern ++ .exact 'T' :: minutePattern,
    datePattern ++ .blank :: secondPattern, datePattern ++ .blank :: minutePattern, datePattern]

/-- The instant that a text gives in one form. -/
def ofPattern? (s : List Char) (pattern : Pattern) : Option Instant :=
  (Pattern.read? {} s pattern).bind Parts.instant?

/-- The instant that a text gives in some form, white space around it apart. -/
def read? (s : String) : Option Instant := patterns.findSome? (ofPattern? (trim s.toList))

end Instant

end OpeningHours
