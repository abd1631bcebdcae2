import OpeningHours.Rule.Parser

/-! Writing rules.

A clause is written with its full name and without white space. Dates are texts, so
they can be written only if they hold no separator and no white space at their ends;
that, and what is asked of periods, is `Clause.WellFormed`. A special day has several
names, and any choice among them (`spelling`) will do. -/
namespace OpeningHours
open Text

/-! ### What can be written -/

/-- A text that stands for itself among values. -/
structure IsBare (s : List Char) : Prop where
  ne_nil : s ≠ []
  trimmed : trim s = s
  noSeparator : ∀ c ∈ s, c ∉ [';', ',', '-']

instance (s : List Char) : Decidable (IsBare s) :=
  -- All characters of the text are looked at, not all characters there are.
  decidable_of_iff (s ≠ [] ∧ trim s = s ∧ s.all (fun c => c ∉ [';', ',', '-']) = true)
    ⟨fun ⟨ne_nil, trimmed, h⟩ =>
      ⟨ne_nil, trimmed, fun c hc => of_decide_eq_true (List.all_eq_true.mp h c hc)⟩,
      fun h => ⟨h.ne_nil, h.trimmed,
        List.all_eq_true.mpr fun c hc => decide_eq_true (h.noSeparator c hc)⟩⟩

namespace Constraint
variable {α : Type}

/-- Every value of a constraint has a property. -/
def All (P : α → Prop) : Constraint α → Prop
  | exactly value => P value
  | between least greatest => P least ∧ P greatest

instance (P : α → Prop) [DecidablePred P] (c : Constraint α) : Decidable (c.All P) :=
  match c with
  | exactly _ => inferInstanceAs (Decidable (P _))
  | between _ _ => inferInstanceAs (Decidable (P _ ∧ P _))

/-- A constraint with its values as they are written. -/
def written (write : α → List Char) : Constraint α → Written
  | exactly value => .single (write value)
  | between least greatest => .range (write least) (write greatest)

end Constraint

namespace Clause

/-- Periods are not empty and do not start below zero; dates are bare texts. Numbers of days are
any machine numbers. -/
def WellFormed : Clause → Prop
  | periods values => ∀ i ∈ values, 0 ≤ i.start ∧ i.start < i.stop
  | days values | birthdays values => ∀ c ∈ values, c.All fun s => IsBare s.toList
  | weekdays _ | yeardays _ | specialdays _ => True

instance (c : Clause) : Decidable c.WellFormed :=
  match c with
  | periods values => inferInstanceAs (Decidable (∀ i ∈ values, 0 ≤ i.start ∧ i.start < i.stop))
  | days values | birthdays values =>
    inferInstanceAs (Decidable (∀ c ∈ values, c.All fun s => IsBare s.toList))
  | weekdays _ | yeardays _ | specialdays _ => inferInstanceAs (Decidable True)

/-- The clauses of a rule: well formed, and of different kinds. -/
structure WellFormedList (l : List Clause) : Prop where
  distinct : (l.map kind).Nodup
  wellFormed : ∀ c ∈ l, c.WellFormed

instance (l : List Clause) : Decidable (WellFormedList l) :=
  decidable_of_iff ((l.map kind).Nodup ∧ ∀ c ∈ l, c.WellFormed)
    ⟨fun ⟨distinct, wellFormed⟩ => ⟨distinct, wellFormed⟩, fun h => ⟨h.distinct, h.wellFormed⟩⟩

end Clause

/-! ### Writing -/

def Written.write : Written → List Char
  | single text => text
  | range least greatest => least ++ '-' :: greatest

def Interval.written (i : Interval) : Written :=
  .range (Decimal.writeInt i.start.toInt) (Decimal.writeInt i.stop.toInt)

/-- The English name of a special day. -/
def SpecialDay.name : SpecialDay → String
  | easter => "easter"
  | easterMonday => "easterMonday"
  | ascension => "ascension"
  | pentecost => "pentecost"

namespace Clause
variable (spelling : SpecialDay → String)

/-- The values of a clause as they are written. -/
def written : Clause → List Written
  | periods values => values.map Interval.written
  | days values | birthdays values => values.map (Constraint.written String.toList)
  | weekdays values | yeardays values =>
    values.map (Constraint.written fun n => Decimal.write n.toNat)
  | specialdays values => values.map fun s => .single (spelling s).toList

def write (c : Clause) : List Char :=
  c.kind.name.toList ++ '=' :: [','].intercalate ((c.written spelling).map Written.write)

/-- The text of a rule with these clauses. -/
def writeAll (l : List Clause) : String :=
  String.ofList ([';'].intercalate (l.map (write spelling)))

end Clause

end OpeningHours
