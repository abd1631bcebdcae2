import OpeningHours.Json.Token

/-! Documents as they are written.

A tree keeps the numerals, the order of the members of an object, and repeated
keys. It is built from tokens by a machine (`step?`) that holds the arrays and
objects that are still open, so a tree may be nested to any depth. -/
namespace OpeningHours.Json

inductive Tree where
  | null
  | bool (value : Bool)
  | number (value : Numeral)
  | string (text : Option String)
  | array (items : List Tree)
  | object (members : List (Option String × Tree))

namespace Tree

/-- An array or an object that is still open, with what it has, latest first. -/
inductive Frame where
  | array (items : List Tree)
  /-- An object that waits for the value of a key. -/
  | object (members : List (Option String × Tree)) (key : Option String)

/-- What must come next; inner frames come first. -/
inductive State where
  | value (frames : List Frame)
  /-- A value, or the end of an empty array. -/
  | firstItem (frames : List Frame)
  /-- A key, or the end of an empty object. -/
  | firstKey (frames : List Frame)
  | key (members : List (Option String × Tree)) (frames : List Frame)
  | colon (members : List (Option String × Tree)) (key : Option String) (frames : List Frame)
  /-- Nothing but a comma or a bracket, after a complete value. -/
  | after (t : Tree) (frames : List Frame)

/-- Begins a value with its first token. -/
def begin? (frames : List Frame) : Token → Option State
  | .null => some (.after .null frames)
  | .bool b => some (.after (.bool b) frames)
  | .number n => some (.after (.number n) frames)
  | .string text => some (.after (.string text) frames)
  | .openArray => some (.firstItem frames)
  | .openObject => some (.firstKey frames)
  | _ => none

def step? : State → Token → Option State
  | .value frames, token => begin? frames token
  | .firstItem frames, .closeArray => some (.after (.array []) frames)
  | .firstItem frames, token => begin? (.array [] :: frames) token
  | .firstKey frames, .closeObject => some (.after (.object []) frames)
  | .firstKey frames, .string key => some (.colon [] key frames)
  | .key members frames, .string key => some (.colon members key frames)
  | .colon members key frames, .colon => some (.value (.object members key :: frames))
  | .after t (.array items :: frames), .comma => some (.value (.array (t :: items) :: frames))
  | .after t (.array items :: frames), .closeArray =>
    some (.after (.array (t :: items).reverse) frames)
  | .after t (.object members key :: frames), .comma => some (.key ((key, t) :: members) frames)
  | .after t (.object members key :: frames), .closeObject =>
    some (.after (.object ((key, t) :: members).reverse) frames)
  | _, _ => none

/-- The tree that a list of tokens is, all of it. -/
def ofTokens? (tokens : List Token) : Option Tree :=
  match tokens.foldlM step? (.value []) with
  | some (.after t []) => some t
  | _ => none

/-- The tree that a text is. -/
def read? (s : String) : Option Tree := (Token.scan? s.toList).bind ofTokens?

end Tree

end OpeningHours.Json
