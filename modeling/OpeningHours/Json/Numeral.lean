import OpeningHours.Text.Decimal

/-! Numbers of JSON texts.

A numeral is kept as it is written. It is an integer when it has neither fraction
nor exponent, is not minus zero, and fits into 64 bits, signed or unsigned; every
other numeral stands for a binary number of 53 bits, of which only one thing
matters here: whether it is finite. The digits beyond 64 bits are not looked at,
and the power of ten is rounded before it is multiplied. -/
namespace OpeningHours.Json
open Text

structure Numeral where
  negative : Bool := false
  whole : List Char
  fraction : Option (List Char) := none
  /-- Whether the exponent is negative, and its digits. -/
  exponent : Option (Bool × List Char) := none
  deriving DecidableEq, Repr

namespace Numeral

def ofInt (n : Int) : Numeral := {negative := n < 0, whole := Decimal.write n.natAbs}

/-- The integer that a numeral stands for, if it is one. -/
def integer? (n : Numeral) : Option Int :=
  match n.fraction, n.exponent with
  | none, none =>
    let size := Nat.ofDigitChars 10 n.whole 0
    if n.negative then
      if 0 < size ∧ size ≤ UInt64.size / 2 then some (-(size : Int)) else none
    else if size < UInt64.size then some size
    else none
  | _, _ => none

/-! ### Size -/

/-- Takes digits into a number while it fits into 64 bits; what is left comes second. -/
def absorb (n : Nat) : List Char → Nat × List Char
  | [] => (n, [])
  | c :: rest =>
    let longer := Nat.ofDigitChars 10 [c] n
    if longer < UInt64.size then absorb longer rest else (n, c :: rest)

/-- The digits that count, as a number, and the power of ten that belongs to it. -/
def scale (n : Numeral) : Nat × Int :=
  let (size, beyond) := absorb 0 n.whole
  let fraction := n.fraction.getD []
  let (size, unused) := absorb size fraction
  let power : Int := beyond.length - (fraction.length - unused.length : Nat)
  match n.exponent with
  | none => (size, power)
  | some (negative, digits) =>
    let shift := Nat.ofDigitChars 10 digits 0
    (size, if negative then power - shift else power + shift)

/-- The nearest number of 53 binary digits; of two, the one that ends in zero. -/
def round (n : Nat) : Nat :=
  let unit := 1 <<< (n.log2 + 1 - 53)
  let kept := n / unit
  let lost := n % unit
  if unit < 2 * lost ∨ unit = 2 * lost ∧ kept % 2 = 1 then (kept + 1) * unit else kept * unit

/-- From this number on a result is rounded to infinity. -/
def overflow : Nat := (1 <<< 1024) - (1 <<< 970)

def isFinite (n : Numeral) : Bool :=
  let (size, power) := n.scale
  size = 0 ∨ power < 0 ∨ power ≤ 308 ∧ round size * round (Nat.pow 10 power.toNat) < overflow

/-! ### Writing -/

def writeFraction : Option (List Char) → List Char
  | none => []
  | some digits => '.' :: digits

def writeExponent : Option (Bool × List Char) → List Char
  | none => []
  | some (negative, digits) => 'e' :: ((if negative then ['-'] else []) ++ digits)

def write (n : Numeral) : List Char :=
  (if n.negative then ['-'] else []) ++ n.whole ++ writeFraction n.fraction ++
    writeExponent n.exponent

end Numeral

end OpeningHours.Json
