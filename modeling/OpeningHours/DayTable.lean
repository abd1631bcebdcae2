import OpeningHours.Entries

/-! Results per day, under the day's key, in the order of the days.

A date format may give several days one key. The key then keeps the place of the
first of them and holds the value of the last. -/
namespace OpeningHours

structure DayTable (α : Type) where
  entries : Entries String α
  nodup : (Entries.keys entries).Nodup
  deriving DecidableEq

namespace DayTable
variable {α : Type}

def empty : DayTable α := ⟨[], List.nodup_nil⟩

/-- Puts a value under a key; a key that is there keeps its place. -/
def push (m : DayTable α) (key : String) (value : α) : DayTable α :=
  ⟨Entries.put key value m.entries, Entries.nodup_keys_put m.nodup⟩

def get? (m : DayTable α) (key : String) : Option α := Entries.get? key m.entries

def keys (m : DayTable α) : List String := Entries.keys m.entries

def size (m : DayTable α) : Nat := m.entries.length

def isEmpty (m : DayTable α) : Bool := m.entries.isEmpty

/-- The map with the given entries pushed in order. -/
def ofList (l : List (String × α)) : DayTable α := l.foldl (fun m e => m.push e.1 e.2) empty

theorem get?_push (m : DayTable α) (key k : String) (value : α) :
    (m.push key value).get? k = if key = k then some value else m.get? k :=
  Entries.get?_put key k value m.entries

@[ext] theorem ext {m n : DayTable α} (h : m.entries = n.entries) : m = n := by
  cases m; cases n; cases h; rfl

end DayTable

end OpeningHours
