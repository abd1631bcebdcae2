import OpeningHours.Entries
import OpeningHours.Memory

/-! A memory, and the plain list it is compared with.

A shelf holds entries in the order in which their keys first came, with room for so
many. What is too much falls off at the front. A memory and a shelf take the same
requests; what a caller observes of each is the answer and how much is held after it. -/
namespace OpeningHours

namespace Memory

inductive Request (κ ν : Type) where
  | put (key : κ) (value : ν)
  | get (key : κ)
  | contains (key : κ)
  | resize (capacity : Nat)
  | clear

inductive Answer (ν : Type) where
  | done
  | value (found : Option ν)
  | contained (there : Bool)
  deriving DecidableEq

/-- The answer to a request, and what is held after it. -/
structure Observation (ν : Type) where
  answer : Answer ν
  size : Nat
  isEmpty : Bool
  capacity : Nat
  deriving DecidableEq

/-- What is observed of all requests in turn, and the state after them. -/
def observeAll {κ ν σ : Type} (observe : σ → Request κ ν → Observation ν × σ) (state : σ) :
    List (Request κ ν) → List (Observation ν) × σ
  | [] => ([], state)
  | request :: rest =>
    let (first, state) := observe state request
    let (others, state) := observeAll observe state rest
    (first :: others, state)

variable {κ ν : Type} [BEq κ] [Hashable κ]

def answer (m : Memory κ ν) : Request κ ν → Answer ν × Memory κ ν
  | .put key value => (.done, m.put key value)
  | .get key => (.value (m.get? key), m)
  | .contains key => (.contained (m.contains key), m)
  | .resize capacity => (.done, m.resize capacity)
  | .clear => (.done, m.clear)

def observe (m : Memory κ ν) (request : Request κ ν) : Observation ν × Memory κ ν :=
  let (answer, m) := m.answer request
  (⟨answer, m.size, m.isEmpty, m.capacity⟩, m)

end Memory

structure Shelf (κ ν : Type) where
  capacity : Nat
  entries : Entries κ ν

namespace Shelf
open Memory (Request Answer Observation)
variable {κ ν : Type}

def empty (capacity : Nat) : Shelf κ ν := ⟨capacity, []⟩

/-- The last entries, as many as there is room for. -/
def fit (capacity : Nat) (l : Entries κ ν) : Entries κ ν := l.drop (l.length - capacity)

def size (s : Shelf κ ν) : Nat := s.entries.length

def isEmpty (s : Shelf κ ν) : Bool := s.entries.isEmpty

def resize (s : Shelf κ ν) (capacity : Nat) : Shelf κ ν := ⟨capacity, fit capacity s.entries⟩

def clear (s : Shelf κ ν) : Shelf κ ν := empty s.capacity

variable [DecidableEq κ]

/-- A key that is there keeps its place and gets the value. A new one comes last, and may make
others fall off. -/
def put (s : Shelf κ ν) (key : κ) (value : ν) : Shelf κ ν :=
  if s.capacity = 0 then s
  else if key ∈ Entries.keys s.entries then {s with entries := Entries.put key value s.entries}
  else {s with entries := fit s.capacity (s.entries ++ [(key, value)])}

def get? (s : Shelf κ ν) (key : κ) : Option ν :=
  if s.capacity = 0 then none else Entries.get? key s.entries

def contains (s : Shelf κ ν) (key : κ) : Bool :=
  decide (0 < s.capacity ∧ key ∈ Entries.keys s.entries)

def answer (s : Shelf κ ν) : Request κ ν → Answer ν × Shelf κ ν
  | .put key value => (.done, s.put key value)
  | .get key => (.value (s.get? key), s)
  | .contains key => (.contained (s.contains key), s)
  | .resize capacity => (.done, s.resize capacity)
  | .clear => (.done, s.clear)

def observe (s : Shelf κ ν) (request : Request κ ν) : Observation ν × Shelf κ ν :=
  let (answer, s) := s.answer request
  (⟨answer, s.size, s.isEmpty, s.capacity⟩, s)

end Shelf

end OpeningHours
