import OpeningHours.Date.SpecialDay
import OpeningHours.Interval.Basic

/-! Rules.

A rule is a list of clauses, at most one of a kind. The periods clause lists the
minutes that the rule concerns; every other clause is a filter on days. A rule
without a periods clause is inert. -/
namespace OpeningHours

/-- What a filter asks of one feature of a day: a value, or a range with both ends. -/
inductive Constraint (α : Type) where
  | exactly (value : α)
  | between (least greatest : α)
  deriving DecidableEq, Repr

namespace Constraint

def Admits {α : Type} [LE α] : Constraint α → α → Prop
  | exactly value, x => x = value
  | between least greatest, x => least ≤ x ∧ x ≤ greatest

instance {α : Type} [LE α] [DecidableEq α] [∀ a b : α, Decidable (a ≤ b)] (c : Constraint α) (x : α) :
    Decidable (c.Admits x) :=
  match c with
  | exactly _ => inferInstanceAs (Decidable (_ = _))
  | between _ _ => inferInstanceAs (Decidable (_ ∧ _))

end Constraint

inductive Clause where
  /-- Minutes of the day. -/
  | periods (values : List Interval)
  /-- Days as year, month and day without separators. -/
  | days (values : List (Constraint String))
  /-- Days of the week, zero for Sunday. -/
  | weekdays (values : List (Constraint UInt32))
  /-- Days of any year as month and day. -/
  | birthdays (values : List (Constraint String))
  /-- Days of the year, counted from one. -/
  | yeardays (values : List (Constraint UInt32))
  | specialdays (values : List SpecialDay)
  deriving DecidableEq, Repr

namespace Clause

inductive Kind where
  | periods
  | days
  | weekdays
  | birthdays
  | yeardays
  | specialdays
  deriving DecidableEq, Repr

def kind : Clause → Kind
  | periods _ => .periods
  | days _ => .days
  | weekdays _ => .weekdays
  | birthdays _ => .birthdays
  | yeardays _ => .yeardays
  | specialdays _ => .specialdays

def Kind.name : Kind → String
  | periods => "periods"
  | days => "days"
  | weekdays => "weekdays"
  | birthdays => "birthdays"
  | yeardays => "yeardays"
  | specialdays => "specialdays"

def Kind.shortName : Kind → String
  | periods => "p"
  | days => "d"
  | weekdays => "wd"
  | birthdays => "bd"
  | yeardays => "yd"
  | specialdays => "sd"

def Kind.all : List Kind := [periods, days, weekdays, birthdays, yeardays, specialdays]

/-- The kind with this name, short or long. -/
def Kind.ofName? (name : String) : Option Kind :=
  all.find? fun k => k.name = name || k.shortName = name

/-- The values of two clauses of one kind in one clause. -/
def append? : Clause → Clause → Option Clause
  | periods a, periods b => some (periods (a ++ b))
  | days a, days b => some (days (a ++ b))
  | weekdays a, weekdays b => some (weekdays (a ++ b))
  | birthdays a, birthdays b => some (birthdays (a ++ b))
  | yeardays a, yeardays b => some (yeardays (a ++ b))
  | specialdays a, specialdays b => some (specialdays (a ++ b))
  | _, _ => none

/-- Adds a clause: to the clause of its kind, or at the end if there is none. -/
def insert (new : Clause) : List Clause → List Clause
  | [] => [new]
  | c :: rest =>
    match c.append? new with
    | some both => both :: rest
    | none => c :: insert new rest

def insertAll (l new : List Clause) : List Clause := new.foldl (fun acc c => insert c acc) l

def isFilter (c : Clause) : Bool := c.kind ≠ .periods

/-- Clauses of one kind can be joined, and no others. -/
theorem append?_isSome_iff (a b : Clause) : (a.append? b).isSome = true ↔ a.kind = b.kind := by
  cases a <;> cases b <;> simp [append?, kind]

end Clause

structure Rule where
  /-- The text of the rule, without white space around it. -/
  source : String
  clauses : List Clause
  deriving DecidableEq, Repr

namespace Rule

def periods? (r : Rule) : Option (List Interval) :=
  r.clauses.findSome? fun
    | .periods values => some values
    | _ => none

def isInert (r : Rule) : Bool := r.periods?.isNone

def filters (r : Rule) : List Clause := r.clauses.filter Clause.isFilter

end Rule

end OpeningHours
