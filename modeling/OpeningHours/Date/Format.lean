import OpeningHours.Date.Week
import OpeningHours.Text.Decimal

/-! Date formats: texts with fields after a percent sign.

A format is read into items (`items?`); a text that is no format has none. Fields
of the time of day or of a time zone are read too, but a date cannot render them
(`Item.render?`), so a format that has one renders for no date. -/
namespace OpeningHours.DateFormat
open Text.Decimal

/-- What fills a number up to its width. -/
inductive Pad where
  | none
  | blanks
  | zeros
  deriving DecidableEq, Repr

/-- The fields of a fixed width. -/
inductive Field where
  | century
  | yearOfCentury
  | isoYearOfCentury
  | month
  | day
  | ordinal
  | sundayWeek
  | mondayWeek
  | isoWeek
  deriving DecidableEq, Repr

/-- The fields of one digit. -/
inductive Digit where
  | quarter
  | weekdayFromSunday
  | weekdayFromMonday
  deriving DecidableEq, Repr

/-- The fields written as English words, in full or by their first three letters. -/
inductive Word where
  | month
  | weekday
  deriving DecidableEq, Repr

inductive Item where
  | literal (c : Char)
  | year (pad : Pad)
  | isoYear (pad : Pad)
  | field (f : Field) (pad : Pad)
  | digit (f : Digit)
  | word (f : Word)
  | shortWord (f : Word)
  /-- A field of the time of day or of a time zone. -/
  | clock
  deriving DecidableEq, Repr

/-! ### Rendering -/

def Field.width : Field → Nat
  | .ordinal => 3
  | _ => 2

def Field.value (d : Date) : Field → Int
  | .century => d.year / 100
  | .yearOfCentury => d.year % 100
  | .isoYearOfCentury => d.isoYearWeek.1 % 100
  | .month => d.month
  | .day => d.day
  | .ordinal => d.ordinal
  | .sundayWeek => d.sundayWeek
  | .mondayWeek => d.mondayWeek
  | .isoWeek => d.isoYearWeek.2

def Digit.value (d : Date) : Digit → Nat
  | .quarter => (d.month + 2) / 3
  | .weekdayFromSunday => d.weekday
  | .weekdayFromMonday => d.weekdayFromMonday + 1

def monthNames : List String :=
  ["January", "February", "March", "April", "May", "June", "July", "August", "September",
    "October", "November", "December"]

def weekdayNames : List String :=
  ["Sunday", "Monday", "Tuesday", "Wednesday", "Thursday", "Friday", "Saturday"]

def Word.value (d : Date) : Word → List Char
  | .month => (monthNames.getD (d.month - 1) "").toList
  | .weekday => (weekdayNames.getD d.weekday "").toList

def Pad.fill (pad : Pad) (width : Nat) (s : List Char) : List Char :=
  match pad with
  | .none => s
  | .blanks => padTo width ' ' s
  | .zeros => padTo width '0' s

/-- A sign and a number of a fixed width; the sign stands before the zeros and after the blanks. -/
def renderSigned (pad : Pad) (width : Nat) (sign : Char) (n : Nat) : List Char :=
  match pad with
  | .blanks => padTo (width + 1) ' ' (sign :: write n)
  | _ => sign :: pad.fill width (write n)

/-- A year has four digits; outside the years 0 to 9999 it has a sign before them. -/
def renderYear (pad : Pad) (year : Int) : List Char :=
  if 0 ≤ year ∧ year ≤ 9999 then pad.fill 4 (write year.natAbs)
  else renderSigned pad 4 (if year < 0 then '-' else '+') year.natAbs

/-- A field has its width with the sign, if it has one. -/
def renderField (pad : Pad) (width : Nat) (n : Int) : List Char :=
  if 0 ≤ n then pad.fill width (write n.natAbs) else renderSigned pad (width - 1) '-' n.natAbs

/-- The text of an item for a date, if a date has one. -/
def Item.render? (d : Date) : Item → Option (List Char)
  | .literal c => some [c]
  | .year pad => some (renderYear pad d.year)
  | .isoYear pad => some (renderYear pad d.isoYearWeek.1)
  | .field f pad => some (renderField pad f.width (f.value d))
  | .digit f => some (write (f.value d))
  | .word f => some (f.value d)
  | .shortWord f => some ((f.value d).take 3)
  | .clock => none

def renderItems? (d : Date) (items : List Item) : Option (List Char) :=
  (items.mapM (Item.render? d)).map List.flatten

/-! ### Reading a format -/

/-- The fields that take a padding, by their letter. -/
def numeral? (c : Char) (pad : Pad) : Option Item :=
  match c with
  | 'Y' => some (.year pad)
  | 'G' => some (.isoYear pad)
  | 'C' => some (.field .century pad)
  | 'y' => some (.field .yearOfCentury pad)
  | 'g' => some (.field .isoYearOfCentury pad)
  | 'm' => some (.field .month pad)
  | 'd' | 'e' => some (.field .day pad)
  | 'j' => some (.field .ordinal pad)
  | 'U' => some (.field .sundayWeek pad)
  | 'W' => some (.field .mondayWeek pad)
  | 'V' => some (.field .isoWeek pad)
  | 'q' => some (.digit .quarter)
  | 'w' => some (.digit .weekdayFromSunday)
  | 'u' => some (.digit .weekdayFromMonday)
  | 'H' | 'k' | 'I' | 'l' | 'M' | 'S' | 'f' | 's' => some .clock
  | _ => none

/-- Numbers are filled with zeros unless their letter asks for blanks. -/
def defaultPad (c : Char) : Pad := if c = 'e' then .blanks else .zeros

/-- The items of a letter that stands alone after the percent sign. -/
def letter? (c : Char) : Option (List Item) :=
  match numeral? c (defaultPad c) with
  | some item => some [item]
  | none =>
    match c with
    | 'b' | 'h' => some [.shortWord .month]
    | 'B' => some [.word .month]
    | 'a' => some [.shortWord .weekday]
    | 'A' => some [.word .weekday]
    | 'D' | 'x' =>
      some [.field .month .zeros, .literal '/', .field .day .zeros, .literal '/',
        .field .yearOfCentury .zeros]
    | 'F' =>
      some [.year .zeros, .literal '-', .field .month .zeros, .literal '-', .field .day .zeros]
    | 'v' =>
      some [.field .day .blanks, .literal '-', .shortWord .month, .literal '-', .year .zeros]
    | 't' => some [.literal '\t']
    | 'n' => some [.literal '\n']
    | '%' => some [.literal '%']
    | 'P' | 'p' | 'R' | 'T' | 'X' | 'r' | 'Z' | 'z' | 'c' | '+' => some [.clock]
    | _ => none

/-- The items of the field after a percent sign, and how many characters it has. -/
def directive? : List Char → Option (List Item × Nat)
  | [] => none
  | '-' :: c :: _ => (numeral? c .none).map fun item => ([item], 2)
  | '_' :: c :: _ => (numeral? c .blanks).map fun item => ([item], 2)
  | '0' :: c :: _ => (numeral? c .zeros).map fun item => ([item], 2)
  | '#' :: 'z' :: _ => some ([.clock], 2)
  | ':' :: 'z' :: _ => some ([.clock], 2)
  | ':' :: ':' :: 'z' :: _ => some ([.clock], 3)
  | ':' :: ':' :: ':' :: 'z' :: _ => some ([.clock], 4)
  | '.' :: 'f' :: _ => some ([.clock], 2)
  | '.' :: c :: 'f' :: _ => if c ∈ ['3', '6', '9'] then some ([.clock], 3) else none
  | c :: 'f' :: _ =>
    if c ∈ ['3', '6', '9'] then some ([.clock], 2) else (letter? c).map fun items => (items, 1)
  | c :: _ => (letter? c).map fun items => (items, 1)

/-- The items of a format. -/
def items? : List Char → Option (List Item)
  | [] => some []
  | c :: rest =>
    if c = '%' then
      match directive? rest with
      | none => none
      | some (items, n) => (items? (rest.drop n)).map (items ++ ·)
    else (items? rest).map (.literal c :: ·)
termination_by s => s.length

end OpeningHours.DateFormat

namespace OpeningHours.Date
open DateFormat

/-- The text of a date in a format, unless the text is no format or has a field that a
date does not have. -/
def format? (d : Date) (format : String) : Option String :=
  (items? format.toList).bind fun items => (renderItems? d items).map String.ofList

/-- Year, month and day with hyphens. -/
def isoFormat : String := "%Y-%m-%d"

/-- A date written as year, month and day with hyphens. -/
def toISO (d : Date) : String :=
  String.ofList (renderYear .zeros d.year ++ '-' :: renderField .zeros 2 d.month ++
    '-' :: renderField .zeros 2 d.day)

/-- Year, month and day without separators. -/
def toBasicISO (d : Date) : String :=
  String.ofList (renderYear .zeros d.year ++ renderField .zeros 2 d.month ++
    renderField .zeros 2 d.day)

/-- Month and day, two digits each. -/
def toMonthDay (d : Date) : String :=
  String.ofList (renderField .zeros 2 d.month ++ renderField .zeros 2 d.day)

end OpeningHours.Date
