import OpeningHours.Json.Tree

/-! The grammar of JSON texts.

Which texts write a document is said here without the functions that read it, from the
parts of a number and the characters of a string to whole documents with blanks around
all their parts. A tree can be written in many ways: blanks are free, a character of a
string may stand for itself or be escaped, and an exponent has several forms. -/
namespace OpeningHours.Json

/-- Nothing but the blanks of JSON texts. -/
def IsSpace (s : List Char) : Prop := ∀ c ∈ s, c ∈ [' ', '\t', '\n', '\r']

theorem isSpace_nil : IsSpace [] := nofun

/-! ### Numbers -/

/-- Digits, at least one. -/
structure IsDigits (s : List Char) : Prop where
  ne_nil : s ≠ []
  digit : ∀ c ∈ s, c.isDigit = true

namespace Numeral

/-- A numeral with digits wherever a part of it needs them, and no zero in front of others. -/
structure WellFormed (n : Numeral) : Prop where
  whole : IsDigits n.whole
  noLeadingZero : n.whole.head? = some '0' → n.whole = ['0']
  fraction : ∀ digits ∈ n.fraction, IsDigits digits
  exponent : ∀ e ∈ n.exponent, IsDigits e.2

/-- The texts of an exponent: the letter may be a capital, and a plus sign may stand or not. -/
inductive WritesExponent : List Char → Option (Bool × List Char) → Prop
  | missing : WritesExponent [] none
  | bare {e : Char} {digits : List Char} : e ∈ ['e', 'E'] →
      WritesExponent (e :: digits) (some (false, digits))
  | plus {e : Char} {digits : List Char} : e ∈ ['e', 'E'] →
      WritesExponent (e :: '+' :: digits) (some (false, digits))
  | minus {e : Char} {digits : List Char} : e ∈ ['e', 'E'] →
      WritesExponent (e :: '-' :: digits) (some (true, digits))

inductive Writes : List Char → Numeral → Prop
  | mk {n : Numeral} {exponent : List Char} : n.WellFormed →
      WritesExponent exponent n.exponent →
      Writes ((if n.negative then ['-'] else []) ++ n.whole ++ writeFraction n.fraction ++ exponent)
        n

end Numeral

/-! ### Strings -/

namespace Quoted

/-- A hexadecimal digit, small or capital. -/
def IsHexDigit (c : Char) (n : Nat) : Prop :=
  n < 16 ∧ (c = n.digitChar ∨ c = n.digitChar.toUpper)

/-- Letters that escape a character after a backslash. -/
def shortEscapes : List (Char × Char) :=
  [('"', '"'), ('\\', '\\'), ('/', '/'), ('b', '\x08'), ('f', '\x0c'), ('n', '\n'), ('r', '\r'),
    ('t', '\t')]

inductive WritesPiece : List Char → Piece → Prop
  | plain {c : Char} : 0x20 ≤ c.toNat → c ≠ '"' → c ≠ '\\' → WritesPiece [c] (.char c)
  | short {letter c : Char} : (letter, c) ∈ shortEscapes → WritesPiece ['\\', letter] (.char c)
  | unit {a b c d : Char} {i j k l : Nat} : IsHexDigit a i → IsHexDigit b j → IsHexDigit c k →
      IsHexDigit d l →
      WritesPiece ['\\', 'u', a, b, c, d] (.codeUnit (((i * 16 + j) * 16 + k) * 16 + l))

/-- The pieces between the quotes of a string. -/
inductive WritesPieces : List Char → List Piece → Prop
  | nil : WritesPieces [] []
  | cons {s rest : List Char} {p : Piece} {pieces : List Piece} : WritesPiece s p →
      WritesPieces rest pieces → WritesPieces (s ++ rest) (p :: pieces)

/-- The text that pieces stand for: characters by themselves and by their units of UTF-16. -/
inductive Denotes : List Piece → List Char → Prop
  | nil : Denotes [] []
  | char {c : Char} {pieces : List Piece} {text : List Char} : Denotes pieces text →
      Denotes (.char c :: pieces) (c :: text)
  | unit {c : Char} {pieces : List Piece} {text : List Char} : Denotes pieces text →
      Denotes (.codeUnit c.toNat :: pieces) (c :: text)
  | pair {c : Char} {m : Nat} {pieces : List Piece} {text : List Char} :
      c.toNat = 0x10000 + m → Denotes pieces text →
      Denotes (.codeUnit (0xD800 + m / 0x400) :: .codeUnit (0xDC00 + m % 0x400) :: pieces)
        (c :: text)

/-- A string with its quotes, and its text. It has none if a unit of a pair stands alone. -/
inductive Writes : List Char → Option String → Prop
  | text {s text : List Char} {pieces : List Piece} : WritesPieces s pieces →
      Denotes pieces text → Writes ('"' :: s ++ ['"']) (some (String.ofList text))
  | unpaired {s : List Char} {pieces : List Piece} : WritesPieces s pieces →
      (∀ text, ¬ Denotes pieces text) → Writes ('"' :: s ++ ['"']) none

end Quoted

/-! ### Documents -/

namespace Tree

/-- A key with blanks around it. -/
inductive WritesKey : List Char → Option String → Prop
  | mk {before s after : List Char} {key : Option String} : IsSpace before →
      Quoted.Writes s key → IsSpace after → WritesKey (before ++ s ++ after) key

mutual

/-- The texts of a tree, without blanks around it. -/
inductive Writes : List Char → Tree → Prop
  | null : Writes ['n', 'u', 'l', 'l'] .null
  | bool_true : Writes ['t', 'r', 'u', 'e'] (.bool true)
  | bool_false : Writes ['f', 'a', 'l', 's', 'e'] (.bool false)
  | number {s : List Char} {n : Numeral} : Numeral.Writes s n → Writes s (.number n)
  | string {s : List Char} {text : Option String} : Quoted.Writes s text →
      Writes s (.string text)
  | emptyArray {s : List Char} : IsSpace s → Writes ('[' :: s ++ [']']) (.array [])
  | array {s : List Char} {items : List Tree} : WritesItems s items →
      Writes ('[' :: s ++ [']']) (.array items)
  | emptyObject {s : List Char} : IsSpace s → Writes ('{' :: s ++ ['}']) (.object [])
  | object {s : List Char} {members : List (Option String × Tree)} : WritesMembers s members →
      Writes ('{' :: s ++ ['}']) (.object members)

/-- A tree with blanks around it. -/
inductive WritesSpaced : List Char → Tree → Prop
  | mk {before s after : List Char} {t : Tree} : IsSpace before → Writes s t → IsSpace after →
      WritesSpaced (before ++ s ++ after) t

/-- Items with commas between them, at least one. -/
inductive WritesItems : List Char → List Tree → Prop
  | last {s : List Char} {t : Tree} : WritesSpaced s t → WritesItems s [t]
  | cons {s rest : List Char} {t : Tree} {items : List Tree} : WritesSpaced s t →
      WritesItems rest items → WritesItems (s ++ ',' :: rest) (t :: items)

/-- Members with commas between them, at least one, each of a key and a value. -/
inductive WritesMembers : List Char → List (Option String × Tree) → Prop
  | last {k s : List Char} {key : Option String} {t : Tree} : WritesKey k key →
      WritesSpaced s t → WritesMembers (k ++ ':' :: s) [(key, t)]
  | cons {k s rest : List Char} {key : Option String} {t : Tree}
      {members : List (Option String × Tree)} : WritesKey k key → WritesSpaced s t →
      WritesMembers rest members →
      WritesMembers (k ++ ':' :: s ++ ',' :: rest) ((key, t) :: members)

end

/-- The text is a document, all of it. -/
def IsDocument (s : String) (t : Tree) : Prop := WritesSpaced s.toList t

end Tree

end OpeningHours.Json
