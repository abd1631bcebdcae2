import OpeningHours.Entries
import OpeningHours.Json.Tree

/-! Structures as documents.

A structure is an object with the names of its fields, in any order and among
other members, or an array of the fields in their order, of which the last may be
missing. A field that is there must be readable; one that is not may have a
default. -/
namespace OpeningHours.Json.Tree

/-! ### Simple fields -/

def integer? : Tree → Option Int
  | .number n => n.integer?
  | _ => none

/-- A natural number of at most `limit`. -/
def natural? (limit : Nat) (t : Tree) : Option Nat := do
  let n ← t.integer?
  if 0 ≤ n ∧ n ≤ limit then some n.toNat else none

def bool? : Tree → Option Bool
  | .bool b => some b
  | _ => none

def text? : Tree → Option String
  | .string text => text
  | _ => none

/-- An array of which every item can be read. -/
def list? {α : Type} (read? : Tree → Option α) : Tree → Option (List α)
  | .array items => items.mapM read?
  | _ => none

/-! ### Structures -/

/-- The members of an object with their keys, if all keys are texts. -/
def keyed? (members : List (Option String × Tree)) : Option (Entries String Tree) :=
  members.mapM fun m => m.1.map (·, m.2)

/-- The fields with these names that a document gives, each at most once. -/
def fields? (names : List String) : Tree → Option (Entries String Tree)
  | .array items => if items.length ≤ names.length then some (names.zip items) else none
  | .object members => do
    let fields := (← keyed? members).filter fun e => e.1 ∈ names
    if (Entries.keys fields).Nodup then some fields else none
  | _ => none

/-- A field that must be there. -/
def required? {α : Type} (fields : Entries String Tree) (name : String)
    (read? : Tree → Option α) : Option α :=
  (Entries.get? name fields).bind read?

/-- A field that may be missing. -/
def optional? {α : Type} (fields : Entries String Tree) (name : String) (default : α)
    (read? : Tree → Option α) : Option α :=
  match Entries.get? name fields with
  | none => some default
  | some t => read? t

end OpeningHours.Json.Tree
