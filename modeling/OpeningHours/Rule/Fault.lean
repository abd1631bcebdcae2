import OpeningHours.Minute

/-! What can be wrong with the text of a rule.

A fault of form is one that shows without knowing what the clause means; all
others are faults of a parameter. -/
namespace OpeningHours

inductive RuleFault where
  | missingEquals (clause : String)
  | missingName (clause : String)
  | malformedRange (value : String)
  | unknownClause (name : String)
  | expectedRange (name : String)
  | notInteger (name value : String)
  | emptyRange (name : String) (start stop : Minute)
  | unexpectedRange (name least greatest : String)
  | relativeDay (day : String)
  | unknownSpecialDay (day : String)
  deriving DecidableEq, Repr

namespace RuleFault

/-- Whether the text of a clause lacks the form `name=values`. -/
def isFormat : RuleFault → Bool
  | missingEquals _ | missingName _ | malformedRange _ => true
  | _ => false

def detail : RuleFault → String
  | missingEquals clause => "clause '" ++ clause ++ "' is missing '='"
  | missingName clause => "clause '" ++ clause ++ "' has no name"
  | malformedRange value => "malformed range '" ++ value ++ "'"
  | unknownClause name => "(" ++ name ++ ") unknown clause"
  | expectedRange name => "(" ++ name ++ ") expected a min-max range"
  | notInteger name value => "(" ++ name ++ ") '" ++ value ++ "' is not an integer"
  | emptyRange name start stop =>
    "(" ++ name ++ ") range " ++ toString start.toInt ++ "-" ++ toString stop.toInt ++ " is empty"
  | unexpectedRange name least greatest =>
    "(" ++ name ++ ") ranges are not allowed: '" ++ least ++ "-" ++ greatest ++ "'"
  | relativeDay day => "(specialdays) relative day '" ++ day ++ "' is not supported"
  | unknownSpecialDay day => "(specialdays) unknown special day '" ++ day ++ "'"

end RuleFault

end OpeningHours
