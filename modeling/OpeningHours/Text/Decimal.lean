/-! Decimal numbers as text: reading digits, and writing a number to a least
width. Reading what was written gives the number back (`read?_write`). -/
namespace OpeningHours.Text.Decimal

/-- A number written in ASCII digits and nothing else, at least one. -/
def read? (s : List Char) : Option Nat :=
  if s ≠ [] ∧ s.all Char.isDigit then some (Nat.ofDigitChars 10 s 0) else none

/-- Digits after an optional plus sign. -/
def readPlus? : List Char → Option Nat
  | '+' :: rest => read? rest
  | s => read? s

/-- A number of at most `limit`, with an optional plus sign. -/
def readUpTo? (limit : Nat) (s : List Char) : Option Nat :=
  (readPlus? s).filter (· ≤ limit)

/-- Digits after an optional sign. -/
def readSigned? : List Char → Option Int
  | '-' :: rest => (read? rest).map fun n => -(n : Int)
  | s => (readPlus? s).map Int.ofNat

/-- The digits of a number, without leading zeros. -/
def write (n : Nat) : List Char := Nat.toDigits 10 n

/-- A text with `fill` put in front until it has `width` characters. -/
def padTo (width : Nat) (fill : Char) (s : List Char) : List Char :=
  List.replicate (width - s.length) fill ++ s

/-- The decimal digits of an integer, with a minus sign below zero. -/
def writeInt (n : Int) : List Char :=
  if n < 0 then '-' :: write n.natAbs else write n.natAbs

theorem write_ne_nil (n : Nat) : write n ≠ [] := Nat.toDigits_ne_nil

theorem isDigit_of_mem_write {n : Nat} {c : Char} (h : c ∈ write n) : c.isDigit = true :=
  Nat.isDigit_of_mem_toDigits (by decide) (by decide) h

theorem read?_write (n : Nat) : read? (write n) = some n := by
  have hdigits : (write n).all Char.isDigit = true :=
    List.all_eq_true.mpr fun _ h => isDigit_of_mem_write h
  simp only [read?, write_ne_nil, hdigits, ne_eq, not_false_eq_true, and_self, if_true]
  exact congrArg some Nat.ofDigitChars_ten_toDigits

/-- A text of digits has no plus sign to skip. -/
theorem readPlus?_write (n : Nat) : readPlus? (write n) = some n := by
  unfold readPlus?
  split
  · rename_i rest h
    exact absurd (isDigit_of_mem_write (h ▸ List.mem_cons_self)) (by decide)
  · exact read?_write n

theorem readUpTo?_write {limit n : Nat} (h : n ≤ limit) : readUpTo? limit (write n) = some n := by
  rw [readUpTo?, readPlus?_write, Option.filter_some, if_pos (decide_eq_true h)]

end OpeningHours.Text.Decimal
