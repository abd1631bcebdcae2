import OpeningHours.Entries
import OpeningHours.Json.Tree

/-! Values: what documents mean.

Any document is read as a value if its strings have texts, its numbers are finite
and it is not nested too deeply. A key that an object repeats has its last value,
in the place of the first. Values are written compactly, or with one item to a
line. -/
namespace OpeningHours.Json

inductive Value where
  | null
  | bool (value : Bool)
  | number (value : Numeral)
  | string (text : String)
  | array (items : List Value)
  | object (members : List (String × Value))

namespace Value

/-! ### Reading -/

/-- Arrays and objects may be nested this deeply. -/
def maxDepth : Nat := 127

/-- The value of a tree nested no deeper than `depth`. -/
def ofTree? : Nat → Tree → Option Value
  | _, .null => some .null
  | _, .bool b => some (.bool b)
  | _, .number n => if n.isFinite then some (.number n) else none
  | _, .string text => text.map .string
  | 0, .array _ | 0, .object _ => none
  | depth + 1, .array items => (items.mapM (ofTree? depth)).map .array
  | depth + 1, .object members =>
    let entry? := fun (m : Option String × Tree) =>
      m.1.bind fun key => (ofTree? depth m.2).map (key, ·)
    (members.mapM entry?).map fun entries => .object (Entries.putAll [] entries)

/-- The value that a text is. -/
def read? (s : String) : Option Value := (Tree.read? s).bind (ofTree? maxDepth)

/-! ### Parts -/

def int (n : Int) : Value := .number (.ofInt n)

/-- The value under a key, if this is an object that has it. -/
def get? (v : Value) (key : String) : Option Value :=
  match v with
  | .object members => Entries.get? key members
  | _ => none

def integer? : Value → Option Int
  | .number n => n.integer?
  | _ => none

/-! ### Writing -/

inductive Layout where
  | compact
  | pretty
  deriving DecidableEq, Repr

/-- What stands before an item at a depth. -/
def Layout.lineBreak (layout : Layout) (depth : Nat) : List Char :=
  match layout with
  | .compact => []
  | .pretty => '\n' :: List.replicate (2 * depth) ' '

/-- What stands between a key and its value. -/
def Layout.colon : Layout → List Char
  | .compact => [':']
  | .pretty => [':', ' ']

mutual

/-- The text of a value that is nested in `depth` others. -/
def text (layout : Layout) (depth : Nat) : Value → List Char
  | .null => ['n', 'u', 'l', 'l']
  | .bool true => ['t', 'r', 'u', 'e']
  | .bool false => ['f', 'a', 'l', 's', 'e']
  | .number n => n.write
  | .string s => Quoted.write s.toList
  | .array [] => ['[', ']']
  | .array (item :: rest) =>
    '[' :: layout.lineBreak (depth + 1) ++ text layout (depth + 1) item ++
      itemsText layout (depth + 1) rest ++ layout.lineBreak depth ++ [']']
  | .object [] => ['{', '}']
  | .object ((key, value) :: rest) =>
    '{' :: layout.lineBreak (depth + 1) ++ Quoted.write key.toList ++ layout.colon ++
      text layout (depth + 1) value ++ membersText layout (depth + 1) rest ++
      layout.lineBreak depth ++ ['}']

/-- The items after the first, each after a comma. -/
def itemsText (layout : Layout) (depth : Nat) : List Value → List Char
  | [] => []
  | item :: rest =>
    ',' :: layout.lineBreak depth ++ text layout depth item ++ itemsText layout depth rest

/-- The members after the first, each after a comma. -/
def membersText (layout : Layout) (depth : Nat) : List (String × Value) → List Char
  | [] => []
  | (key, value) :: rest =>
    ',' :: layout.lineBreak depth ++ Quoted.write key.toList ++ layout.colon ++
      text layout depth value ++ membersText layout depth rest

end

def write (layout : Layout) (v : Value) : String := String.ofList (v.text layout 0)

end Value

end OpeningHours.Json
