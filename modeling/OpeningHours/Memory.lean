import Std.Data.HashMap

/-! A bounded memory of results, first in and first out.

A memory keeps a queue of its keys, oldest first, beside a table of the values. When
a new key makes it too large the oldest keys leave, whether or not they were read in
between. With capacity zero it remembers nothing and every lookup misses. -/
namespace OpeningHours

structure Memory (κ ν : Type) [BEq κ] [Hashable κ] where
  capacity : Nat
  queue : List κ
  table : Std.HashMap κ ν

namespace Memory
variable {κ ν : Type} [BEq κ] [Hashable κ]

def empty (capacity : Nat) : Memory κ ν := ⟨capacity, [], ∅⟩

def size (m : Memory κ ν) : Nat := m.table.size

def isEmpty (m : Memory κ ν) : Bool := m.table.isEmpty

def get? (m : Memory κ ν) (key : κ) : Option ν :=
  if m.capacity = 0 then none else m.table[key]?

def contains (m : Memory κ ν) (key : κ) : Bool :=
  decide (0 < m.capacity) && m.table.contains key

/-- Takes keys from the front of the queue until the table fits. -/
def evict (capacity : Nat) : List κ → Std.HashMap κ ν → List κ × Std.HashMap κ ν
  | [], table => ([], table)
  | oldest :: queue, table =>
    if table.size ≤ capacity then (oldest :: queue, table)
    else evict capacity queue (table.erase oldest)

def shrink (m : Memory κ ν) : Memory κ ν :=
  let (queue, table) := evict m.capacity m.queue m.table
  {m with queue, table}

/-- Remembers a value. A key that is there keeps its place in the queue. -/
def put (m : Memory κ ν) (key : κ) (value : ν) : Memory κ ν :=
  if m.capacity = 0 then m
  else
    shrink {m with
      queue := if m.table.contains key then m.queue else m.queue ++ [key]
      table := m.table.insert key value}

def resize (m : Memory κ ν) (capacity : Nat) : Memory κ ν := shrink {m with capacity}

def clear (m : Memory κ ν) : Memory κ ν := empty m.capacity

/-- The value of `f`, remembered or computed, and the memory after it. -/
def fetch (m : Memory κ ν) (f : κ → ν) (key : κ) : ν × Memory κ ν :=
  match m.get? key with
  | some value => (value, m)
  | none => (f key, m.put key (f key))

end Memory

end OpeningHours
