import OpeningHours.Date.Basic

/-! Instants: a date and a time of day, without a time zone.

Times go down to nanoseconds. A leap second is told as the second before it with
nanoseconds from 1 000 000 000 on, so it comes after every other time of that second
and still belongs to it. Parts of a written time give a leap second at the end of a
minute only (`Clock.ofParts?`); a time as such may have one after any second. -/
namespace OpeningHours

structure Clock where
  /-- Seconds from midnight. -/
  second : Nat
  nano : Nat
  second_lt : second < 86400
  nano_lt : nano < 2000000000
  deriving DecidableEq

namespace Clock

def midnight : Clock := ⟨0, 0, by decide, by decide⟩

/-- The time of day with these parts, if there is one. -/
def ofParts? (hour minute second nano : Nat) : Option Clock :=
  if h : hour < 24 ∧ minute < 60 ∧ second < 60 ∧ nano < 2000000000 ∧
      (1000000000 ≤ nano → second = 59) then
    some ⟨hour * 3600 + minute * 60 + second, nano, by omega, h.2.2.2.1⟩
  else none

/-- The first whole minute not before the second of the time. -/
def minuteNotBefore (c : Clock) : Nat := (c.second + 59) / 60

/-- The minute that holds the time. -/
def minuteNotAfter (c : Clock) : Nat := c.second / 60

instance : LT Clock := ⟨fun a b => a.second < b.second ∨ a.second = b.second ∧ a.nano < b.nano⟩

instance (a b : Clock) : Decidable (a < b) := inferInstanceAs (Decidable (_ ∨ _))

end Clock

structure Instant where
  date : Date
  clock : Clock
  deriving DecidableEq

namespace Instant

def isMidnight (i : Instant) : Bool := i.clock = Clock.midnight

instance : LT Instant := ⟨fun a b => a.date < b.date ∨ a.date = b.date ∧ a.clock < b.clock⟩

instance (a b : Instant) : Decidable (a < b) := inferInstanceAs (Decidable (_ ∨ _))

end Instant

end OpeningHours
