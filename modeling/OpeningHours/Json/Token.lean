import OpeningHours.Json.Numeral
import OpeningHours.Json.Quoted

/-! Tokens of JSON texts.

A JSON text is a list of tokens with blanks between them. A token ends where the
next character cannot belong to it, so no blank is needed; two numbers in a row
are two tokens, which no document has. -/
namespace OpeningHours.Json

inductive Token where
  | openArray
  | closeArray
  | openObject
  | closeObject
  | comma
  | colon
  | null
  | bool (value : Bool)
  | number (value : Numeral)
  /-- A string with its text, if it has one. -/
  | string (text : Option String)
  deriving DecidableEq, Repr

def isBlank (c : Char) : Bool := c = ' ' || c = '\t' || c = '\n' || c = '\r'

namespace Numeral

/-- The digits at the front of a text, at least one, and the rest. -/
def digits? (s : List Char) : Option (List Char × List Char) :=
  let digits := s.takeWhile Char.isDigit
  if digits = [] then none else some (digits, s.drop digits.length)

/-- The digits before the point. A zero stands alone. -/
def whole? : List Char → Option (List Char × List Char)
  | '0' :: rest => some (['0'], rest)
  | s => digits? s

/-- The digits after a point, if there is a point. -/
def fraction? : List Char → Option (Option (List Char) × List Char)
  | '.' :: rest => (digits? rest).map fun (digits, rest) => (some digits, rest)
  | s => some (none, s)

/-- The sign of an exponent, and the rest. -/
def exponentSign : List Char → Bool × List Char
  | '-' :: rest => (true, rest)
  | '+' :: rest => (false, rest)
  | s => (false, s)

/-- The exponent, if there is one. -/
def exponent? (s : List Char) : Option (Option (Bool × List Char) × List Char) :=
  match s with
  | [] => some (none, [])
  | c :: rest =>
    if c = 'e' ∨ c = 'E' then
      let signed := exponentSign rest
      (digits? signed.2).map fun (digits, rest) => (some (signed.1, digits), rest)
    else some (none, s)

/-- The numeral without its sign at the front of a text, and the rest. -/
def unsigned? (negative : Bool) (s : List Char) : Option (Numeral × List Char) := do
  let (whole, s) ← whole? s
  let (fraction, s) ← fraction? s
  let (exponent, s) ← exponent? s
  return ({negative, whole, fraction, exponent}, s)

/-- The numeral at the front of a text, and the rest. -/
def scan? : List Char → Option (Numeral × List Char)
  | '-' :: rest => unsigned? true rest
  | s => unsigned? false s

/-! ### What is read is gone -/

theorem length_of_digits? {s digits rest : List Char} (h : digits? s = some (digits, rest)) :
    rest.length < s.length := by
  simp only [digits?] at h
  split at h
  · cases h
  · rename_i hne
    cases h
    have hle := (List.takeWhile_prefix Char.isDigit (l := s)).length_le
    have hpos := List.length_pos_iff.mpr hne
    rw [List.length_drop]
    omega

theorem length_of_whole? {s digits rest : List Char} (h : whole? s = some (digits, rest)) :
    rest.length < s.length := by
  unfold whole? at h
  split at h
  · cases h; simp
  · exact length_of_digits? h

theorem length_of_fraction? {s rest : List Char} {f : Option (List Char)}
    (h : fraction? s = some (f, rest)) : rest.length ≤ s.length := by
  unfold fraction? at h
  split at h
  · obtain ⟨p, hp, he⟩ := Option.map_eq_some_iff.mp h
    cases he
    have := length_of_digits? hp
    simp only [List.length_cons]
    omega
  · cases h; exact Nat.le_refl _

theorem length_exponentSign (s : List Char) : (exponentSign s).2.length ≤ s.length := by
  unfold exponentSign
  split <;> simp

theorem length_of_exponent? {s rest : List Char} {e : Option (Bool × List Char)}
    (h : exponent? s = some (e, rest)) : rest.length ≤ s.length := by
  unfold exponent? at h
  split at h
  · cases h; exact Nat.le_refl _
  · rename_i c tail
    split at h
    · obtain ⟨p, hp, he⟩ := Option.map_eq_some_iff.mp h
      cases he
      have := length_of_digits? hp
      have := length_exponentSign tail
      simp only [List.length_cons]
      omega
    · cases h; exact Nat.le_refl _

theorem length_of_unsigned? {negative : Bool} {s rest : List Char} {n : Numeral}
    (h : unsigned? negative s = some (n, rest)) : rest.length < s.length := by
  obtain ⟨⟨whole, s₁⟩, hw, h⟩ := Option.bind_eq_some_iff.mp h
  obtain ⟨⟨fraction, s₂⟩, hf, h⟩ := Option.bind_eq_some_iff.mp h
  obtain ⟨⟨exponent, s₃⟩, he, h⟩ := Option.bind_eq_some_iff.mp h
  cases h
  have := length_of_whole? hw
  have := length_of_fraction? hf
  have := length_of_exponent? he
  omega

theorem length_of_scan? {s rest : List Char} {n : Numeral} (h : scan? s = some (n, rest)) :
    rest.length < s.length := by
  unfold scan? at h
  split at h
  · have := length_of_unsigned? h
    simp only [List.length_cons]
    omega
  · exact length_of_unsigned? h

end Numeral

namespace Token

/-- The token at the front of a text that begins with no blank, and the rest. -/
def front? : List Char → Option (Token × List Char)
  | '[' :: rest => some (openArray, rest)
  | ']' :: rest => some (closeArray, rest)
  | '{' :: rest => some (openObject, rest)
  | '}' :: rest => some (closeObject, rest)
  | ',' :: rest => some (comma, rest)
  | ':' :: rest => some (colon, rest)
  | 'n' :: 'u' :: 'l' :: 'l' :: rest => some (null, rest)
  | 't' :: 'r' :: 'u' :: 'e' :: rest => some (bool true, rest)
  | 'f' :: 'a' :: 'l' :: 's' :: 'e' :: rest => some (bool false, rest)
  | '"' :: rest =>
    (Quoted.scan? rest).map fun (pieces, rest) =>
      (string ((Quoted.text? pieces).map String.ofList), rest)
  | s => (Numeral.scan? s).map fun (n, rest) => (number n, rest)

theorem length_of_front? {s rest : List Char} {t : Token} (h : front? s = some (t, rest)) :
    rest.length < s.length := by
  unfold front? at h
  split at h
  case h_10 =>
    obtain ⟨p, hp, he⟩ := Option.map_eq_some_iff.mp h
    cases he
    have := Quoted.length_of_scan? hp
    simp only [List.length_cons]
    omega
  case h_11 =>
    obtain ⟨p, hp, he⟩ := Option.map_eq_some_iff.mp h
    cases he
    exact Numeral.length_of_scan? hp
  all_goals
    cases h
    simp only [List.length_cons]
    omega

/-- The tokens of a text. -/
def scan? (s : List Char) : Option (List Token) :=
  match s with
  | [] => some []
  | c :: rest =>
    if isBlank c then scan? rest
    else
      match _h : front? (c :: rest) with
      | none => none
      | some (t, rest) => (scan? rest).map (t :: ·)
termination_by s.length
decreasing_by
  · simp
  · exact length_of_front? _h

end Token

end OpeningHours.Json
