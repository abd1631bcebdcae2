/-! Strings of JSON texts.

Between quotes a text stands as it is, apart from quotes, backslashes and control
characters, which are escaped. An escape by number names a unit of UTF-16, so a
character may need two; a string in which a surrogate stands alone is well formed
but has no text. -/
namespace OpeningHours.Json

namespace Quoted

/-- What one character or one escape of a string stands for. -/
inductive Piece where
  | char (c : Char)
  | codeUnit (n : Nat)
  deriving DecidableEq, Repr

def hexDigit? (c : Char) : Option Nat :=
  if '0' ≤ c ∧ c ≤ '9' then some (c.toNat - '0'.toNat)
  else if 'a' ≤ c ∧ c ≤ 'f' then some (c.toNat - 'a'.toNat + 10)
  else if 'A' ≤ c ∧ c ≤ 'F' then some (c.toNat - 'A'.toNat + 10)
  else none

def hexNumber? (a b c d : Char) : Option Nat := do
  let a ← hexDigit? a
  let b ← hexDigit? b
  let c ← hexDigit? c
  let d ← hexDigit? d
  return ((a * 16 + b) * 16 + c) * 16 + d

def escaped? : Char → Option Char
  | '"' => some '"'
  | '\\' => some '\\'
  | '/' => some '/'
  | 'b' => some '\x08'
  | 'f' => some '\x0c'
  | 'n' => some '\n'
  | 'r' => some '\r'
  | 't' => some '\t'
  | _ => none

/-- The pieces of a string after its opening quote, and what follows the closing one. -/
def scan? : List Char → Option (List Piece × List Char)
  | [] => none
  | '"' :: rest => some ([], rest)
  | '\\' :: 'u' :: a :: b :: c :: d :: rest =>
    match hexNumber? a b c d with
    | none => none
    | some n => (scan? rest).map fun (pieces, rest) => (.codeUnit n :: pieces, rest)
  | '\\' :: c :: rest =>
    match escaped? c with
    | none => none
    | some e => (scan? rest).map fun (pieces, rest) => (.char e :: pieces, rest)
  | c :: rest =>
    if c.toNat < 0x20 then none
    else (scan? rest).map fun (pieces, rest) => (.char c :: pieces, rest)

def isLeading (n : Nat) : Bool := 0xD800 ≤ n && n < 0xDC00

def isTrailing (n : Nat) : Bool := 0xDC00 ≤ n && n < 0xE000

/-- The text of the pieces, if every surrogate is one of a pair. -/
def text? : List Piece → Option (List Char)
  | [] => some []
  | .char c :: rest => (text? rest).map (c :: ·)
  | .codeUnit n :: .codeUnit m :: rest =>
    if isLeading n && isTrailing m then
      (text? rest).map (Char.ofNat (0x10000 + (n - 0xD800) * 0x400 + (m - 0xDC00)) :: ·)
    else if isLeading n || isTrailing n then none
    else (text? (.codeUnit m :: rest)).map (Char.ofNat n :: ·)
  | .codeUnit n :: rest =>
    if isLeading n || isTrailing n then none else (text? rest).map (Char.ofNat n :: ·)

def hexChar (n : Nat) : Char := Nat.digitChar n

/-- A character of a text as it is written in a string. -/
def escape (c : Char) : List Char :=
  match c with
  | '"' => ['\\', '"']
  | '\\' => ['\\', '\\']
  | '\x08' => ['\\', 'b']
  | '\x0c' => ['\\', 'f']
  | '\n' => ['\\', 'n']
  | '\r' => ['\\', 'r']
  | '\t' => ['\\', 't']
  | c =>
    if c.toNat < 0x20 then
      ['\\', 'u', '0', '0', hexChar (c.toNat / 16), hexChar (c.toNat % 16)]
    else [c]

def write (s : List Char) : List Char := '"' :: s.flatMap escape ++ ['"']

theorem length_of_scan? {s rest : List Char} {pieces : List Piece}
    (h : scan? s = some (pieces, rest)) : rest.length < s.length := by
  fun_induction scan? s generalizing pieces rest with
  | case1 => cases h
  | case2 s => cases h; simp
  | case3 => simp_all
  | case4 a b c d s n hn ih =>
    obtain ⟨p, hp, he⟩ := Option.map_eq_some_iff.mp h
    cases he
    have := ih hp
    simp only [List.length_cons]
    omega
  | case5 => simp_all
  | case6 c s e hu he ih =>
    obtain ⟨p, hp, heq⟩ := Option.map_eq_some_iff.mp h
    cases heq
    have := ih hp
    simp only [List.length_cons]
    omega
  | case7 => simp_all
  | case8 c s h1 h2 h3 hc ih =>
    obtain ⟨p, hp, heq⟩ := Option.map_eq_some_iff.mp h
    cases heq
    have := ih hp
    simp only [List.length_cons]
    omega

end Quoted

end OpeningHours.Json
