import OpeningHours.Config
import OpeningHours.DayTable
import OpeningHours.Interval.Slots
import OpeningHours.Json.Fields
import OpeningHours.Json.Value

/-! What the library reads from documents and writes to them: intervals, grids,
settings, rule files, and results per day.

A list of periods is read from any document, and what is not a period in it is
passed over; everything else must be right in all its parts. -/
namespace OpeningHours
open Json

/-! ### Intervals -/

/-- An integer that is a minute. -/
def Minute.ofInt? (n : Int) : Option Minute :=
  if Minute.InRange n then some (Int32.ofInt n) else none

namespace Interval

def ofTree? (t : Tree) : Option Interval := do
  let fields ← t.fields? ["begin", "end"]
  let start ← Tree.required? fields "begin" Tree.integer?
  let stop ← Tree.required? fields "end" Tree.integer?
  return ⟨← Minute.ofInt? start, ← Minute.ofInt? stop⟩

/-- The interval that an object gives by its begin and end, whatever else it has. -/
def ofValue? (v : Value) : Option Interval := do
  let start ← v.get? "begin"
  let stop ← v.get? "end"
  return ⟨← Minute.ofInt? (← start.integer?), ← Minute.ofInt? (← stop.integer?)⟩

/-- The intervals among the items of an array. -/
def listOfValue : Value → List Interval
  | .array items => items.filterMap ofValue?
  | _ => []

def toValue (i : Interval) : Value :=
  .object [("begin", .int i.start.toInt), ("end", .int i.stop.toInt)]

def listToValue (l : List Interval) : Value := .array (l.map toValue)

end Interval

namespace Grid

def ofTree? (t : Tree) : Option Grid := do
  let fields ← t.fields? ["granularity", "midnight_alignment"]
  let granularity ← Tree.required? fields "granularity" (Tree.natural? (UInt32.size - 1))
  let aligned ← Tree.required? fields "midnight_alignment" Tree.bool?
  return {granularity := UInt32.ofNat granularity, aligned}

end Grid

/-! ### Settings and rule files -/

namespace Config

def ofTree? (t : Tree) : Option Config := do
  let fields ← t.fields? ["granularity", "midnight_alignment", "cache_size", "date_format"]
  let granularity ←
    Tree.optional? fields "granularity" 30 fun t => (t.natural? (UInt32.size - 1)).map UInt32.ofNat
  let midnightAlignment ← Tree.optional? fields "midnight_alignment" false Tree.bool?
  let cacheSize ←
    Tree.optional? fields "cache_size" 0 fun t => (t.natural? (UInt64.size - 1)).map UInt64.ofNat
  let dateFormat ← Tree.optional? fields "date_format" Date.isoFormat Tree.text?
  return {granularity, midnightAlignment, cacheSize, dateFormat}

def toValue (c : Config) : Value :=
  .object [("granularity", .int c.granularity.toNat),
    ("midnight_alignment", .bool c.midnightAlignment), ("cache_size", .int c.cacheSize.toNat),
    ("date_format", .string c.dateFormat)]

end Config

namespace RuleFile

def ofTree? (t : Tree) : Option RuleFile := do
  let fields ← t.fields? ["config", "open", "close"]
  let config ← Tree.optional? fields "config" {} Config.ofTree?
  let opening ← Tree.optional? fields "open" [] (Tree.list? Tree.text?)
  let closing ← Tree.optional? fields "close" [] (Tree.list? Tree.text?)
  return {config, opening, closing}

def read (s : String) : Except ConfigFault RuleFile :=
  match (Tree.read? s).bind ofTree? with
  | some file => .ok file
  | none => .error .unreadableRuleFile

def toValue (file : RuleFile) : Value :=
  .object [("config", file.config.toValue), ("open", .array (file.opening.map .string)),
    ("close", .array (file.closing.map .string))]

end RuleFile

/-! ### Results per day -/

/-- An object with a member for each entry, in the order of the entries. -/
def DayTable.toValue {α : Type} (write : α → Value) (m : DayTable α) : Value :=
  .object (m.entries.map fun e => (e.1, write e.2))

end OpeningHours
