import OpeningHours.Text.Blank
import OpeningHours.Text.Decimal

/-! Texts of digits.

A numeral is a text of ASCII digits with the value they have, and reading accepts
numerals and nothing else (`read?_eq_some_iff`); with a sign in front there are as many
forms as the reader allows. Zeros put before a number do not change its value, so a
padded number is a numeral too (`isNumeral_padTo`), and can be told from its text
(`padTo_write_inj`). -/
namespace OpeningHours.Text

theorem not_blank_of_isDigit {c : Char} (h : c.isDigit = true) : isBlank c = false := by
  simp only [Char.isDigit, ge_iff_le, Bool.and_eq_true, decide_eq_true_eq] at h
  have hlow : 48 ≤ c.toNat := UInt32.le_iff_toNat_le.mp h.1
  have hhigh : c.toNat ≤ 57 := UInt32.le_iff_toNat_le.mp h.2
  simp only [isBlank, Bool.or_eq_false_iff, Bool.and_eq_false_imp, decide_eq_true_eq,
    decide_eq_false_iff_not, Nat.not_le, beq_eq_false_iff_ne, ne_eq]
  omega

namespace Decimal
variable {s : List Char} {n limit : Nat} {m : Int}

/-! ### Numerals -/

/-- ASCII digits, at least one, with the value they have. -/
structure IsNumeral (s : List Char) (n : Nat) : Prop where
  ne_nil : s ≠ []
  digits : ∀ c ∈ s, c.isDigit = true
  value : Nat.ofDigitChars 10 s 0 = n

/-- A number without a sign, or with a plus sign. -/
inductive IsUnsigned : List Char → Nat → Prop where
  | plain {s : List Char} {n : Nat} : IsNumeral s n → IsUnsigned s n
  | plus {s : List Char} {n : Nat} : IsNumeral s n → IsUnsigned ('+' :: s) n

/-- A number with any sign or without one. -/
inductive IsSigned : List Char → Int → Prop where
  | unsigned {s : List Char} {n : Nat} : IsUnsigned s n → IsSigned s n
  | minus {s : List Char} {n : Nat} : IsNumeral s n → IsSigned ('-' :: s) (-n)

theorem read?_eq_some_iff : read? s = some n ↔ IsNumeral s n := by
  unfold read?
  constructor
  · intro h
    split at h
    · rename_i hdigits
      exact ⟨hdigits.1, List.all_eq_true.mp hdigits.2, Option.some.inj h⟩
    · cases h
  · intro h
    rw [if_pos ⟨h.ne_nil, List.all_eq_true.mpr h.digits⟩, h.value]

theorem IsNumeral.exists_cons (h : IsNumeral s n) :
    ∃ c rest, s = c :: rest ∧ c.isDigit = true := by
  obtain ⟨c, rest, rfl⟩ := List.exists_cons_of_ne_nil h.ne_nil
  exact ⟨c, rest, rfl, h.digits c List.mem_cons_self⟩

/-- There is no white space before a numeral. -/
theorem IsNumeral.trimStart_append (h : IsNumeral s n) (rest : List Char) :
    trimStart (s ++ rest) = s ++ rest := by
  obtain ⟨c, more, rfl, hdigit⟩ := h.exists_cons
  exact List.dropWhile_cons_of_neg (by simp [not_blank_of_isDigit hdigit])

theorem not_isNumeral_plus : ¬ IsNumeral ('+' :: s) n := fun h =>
  absurd (h.digits '+' List.mem_cons_self) (by decide)

theorem readPlus?_eq_some_iff : readPlus? s = some n ↔ IsUnsigned s n := by
  unfold readPlus?
  split
  · rename_i rest
    rw [read?_eq_some_iff]
    refine ⟨.plus, fun h => ?_⟩
    cases h with
    | plain h => exact absurd h not_isNumeral_plus
    | plus h => exact h
  · rename_i hplus
    rw [read?_eq_some_iff]
    refine ⟨.plain, fun h => ?_⟩
    cases h with
    | plain h => exact h
    | plus h => exact absurd rfl (hplus _)

theorem readUpTo?_eq_some_iff : readUpTo? limit s = some n ↔ IsUnsigned s n ∧ n ≤ limit := by
  rw [readUpTo?, Option.filter_eq_some_iff, readPlus?_eq_some_iff, decide_eq_true_iff]

/-- Without a minus sign a number is what it is without a sign. -/
theorem isSigned_iff (h : '-' ∉ s) : IsSigned s m ↔ ∃ n : Nat, m = n ∧ IsUnsigned s n := by
  constructor
  · intro hs
    cases hs with
    | unsigned hn => exact ⟨_, rfl, hn⟩
    | minus => exact absurd List.mem_cons_self h
  · rintro ⟨n, rfl, hn⟩
    exact .unsigned hn

/-! ### Padded numbers -/

theorem isDigit_of_mem_padTo {width n : Nat} {c : Char} (h : c ∈ padTo width '0' (write n)) :
    c.isDigit = true := by
  rcases List.mem_append.mp h with hfill | hwrite
  · rw [List.eq_of_mem_replicate hfill]
    rfl
  · exact isDigit_of_mem_write hwrite

theorem not_blank_of_mem_padTo {width n : Nat} {c : Char} (h : c ∈ padTo width '0' (write n)) :
    isBlank c = false :=
  not_blank_of_isDigit (isDigit_of_mem_padTo h)

theorem ofDigitChars_replicate_zero (k : Nat) (s : List Char) :
    Nat.ofDigitChars 10 (List.replicate k '0' ++ s) 0 = Nat.ofDigitChars 10 s 0 := by
  induction k with
  | zero => rfl
  | succ k ih =>
    rw [List.replicate_succ, List.cons_append, Nat.ofDigitChars_cons]
    exact ih

theorem isNumeral_padTo (width n : Nat) : IsNumeral (padTo width '0' (write n)) n where
  ne_nil := List.append_ne_nil_of_right_ne_nil _ (write_ne_nil n)
  digits _ := isDigit_of_mem_padTo
  value := by
    rw [padTo, ofDigitChars_replicate_zero]
    exact Nat.ofDigitChars_ten_toDigits

theorem padTo_write_inj {width a b : Nat}
    (h : padTo width '0' (write a) = padTo width '0' (write b)) : a = b := by
  rw [← (isNumeral_padTo width a).value, h, (isNumeral_padTo width b).value]

theorem length_padTo {width : Nat} {fill : Char} {s : List Char} (h : s.length ≤ width) :
    (padTo width fill s).length = width := by
  rw [padTo, List.length_append, List.length_replicate]
  omega

theorem length_write_le_two {n : Nat} (h : n < 100) : (write n).length ≤ 2 :=
  (Nat.length_toDigits_le_iff (by decide) (by decide)).mpr h

end Decimal

end OpeningHours.Text
