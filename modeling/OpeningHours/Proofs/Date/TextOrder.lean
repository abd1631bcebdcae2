import Mathlib.Algebra.Group.Nat.Defs
import OpeningHours.Proofs.Date.IsoText

/-! The order of written dates.

Texts are ordered by their characters. Digits of one length are then ordered as the numbers that
they make, so years of four digits, months and days of two are; and a text of parts of fixed
lengths is ordered by its first part, then by the next. The dates of the years 0 to 9999 are
therefore ordered as their texts are (`written_lt_iff`). Outside of these years a text starts with
a sign, which comes before every digit. -/
namespace OpeningHours

namespace Text

/-! ### Texts in parts -/

/-- Texts whose fronts have one length are ordered by the fronts, and only then by the rest. -/
theorem append_lt_append_iff {a b s t : List Char} (h : a.length = b.length) :
    a ++ s < b ++ t ↔ a < b ∨ a = b ∧ s < t := by
  induction a generalizing b with
  | nil =>
    obtain rfl : b = [] := List.length_eq_zero_iff.mp h.symm
    simp
  | cons c a ih =>
    cases b with
    | nil => cases h
    | cons d b =>
      rw [List.cons_append, List.cons_append, List.cons_lt_cons_iff, List.cons_lt_cons_iff,
        ih (Nat.succ.inj h), List.cons.injEq, and_or_left, or_assoc, and_assoc]

/-- A front that both texts have does not count. -/
theorem append_lt_append_left_iff (front : List Char) {s t : List Char} :
    front ++ s < front ++ t ↔ s < t := by
  rw [append_lt_append_iff rfl]
  exact ⟨fun h => (h.resolve_left (List.lt_irrefl _)).2, fun h => .inr ⟨rfl, h⟩⟩

namespace Decimal

/-! ### Digits -/

/-- Numbers in two parts are ordered by the greater part, and only then by the lesser. -/
theorem mul_add_lt_iff {base a b s t : Nat} (hs : s < base) (ht : t < base) :
    base * a + s < base * b + t ↔ a < b ∨ a = b ∧ s < t := by
  rcases Nat.lt_trichotomy a b with hlt | rfl | hgt
  · have hstep : base * (a + 1) ≤ base * b := Nat.mul_le_mul_left base hlt
    rw [Nat.mul_succ] at hstep
    omega
  · omega
  · have hstep : base * (b + 1) ≤ base * a := Nat.mul_le_mul_left base hgt
    rw [Nat.mul_succ] at hstep
    omega

section
variable {c d : Char} (hc : c.isDigit = true) (hd : d.isDigit = true)
include hc

theorem digit_lt : c.toNat - '0'.toNat < 10 := by
  have hdigit := Char.isDigit_iff_toNat.mp hc
  have hzero : '0'.toNat = 48 := rfl
  have hnine : '9'.toNat = 57 := rfl
  omega

include hd

theorem lt_iff_digit_lt : c < d ↔ c.toNat - '0'.toNat < d.toNat - '0'.toNat := by
  have hc' := Char.isDigit_iff_toNat.mp hc
  have hd' := Char.isDigit_iff_toNat.mp hd
  rw [Char.lt_def, UInt32.lt_iff_toNat_lt]
  show c.toNat < d.toNat ↔ _
  omega

theorem eq_iff_digit_eq : c = d ↔ c.toNat - '0'.toNat = d.toNat - '0'.toNat := by
  have hc' := Char.isDigit_iff_toNat.mp hc
  have hd' := Char.isDigit_iff_toNat.mp hd
  rw [← Char.toNat_inj]
  omega

end

theorem ofDigitChars_cons_zero (c : Char) (s : List Char) :
    Nat.ofDigitChars 10 (c :: s) 0 =
      10 ^ s.length * (c.toNat - '0'.toNat) + Nat.ofDigitChars 10 s 0 := by
  rw [Nat.ofDigitChars_cons, Nat.ofDigitChars_eq_ofDigitChars_zero, Nat.mul_zero, Nat.zero_add]

theorem ofDigitChars_lt {s : List Char} (h : ∀ c ∈ s, c.isDigit = true) :
    Nat.ofDigitChars 10 s 0 < 10 ^ s.length := by
  induction s with
  | nil => decide
  | cons c s ih =>
    obtain ⟨hc, hs⟩ := List.forall_mem_cons.mp h
    have hfirst : 10 ^ s.length * (c.toNat - '0'.toNat) ≤ 10 ^ s.length * 9 :=
      Nat.mul_le_mul_left _ (Nat.le_of_lt_succ (digit_lt hc))
    have hrest := ih hs
    rw [ofDigitChars_cons_zero, List.length_cons, Nat.pow_succ]
    omega

/-- Digits of one length are ordered as the numbers that they make. -/
theorem lt_iff_ofDigitChars_lt {s t : List Char} (hlength : s.length = t.length)
    (hs : ∀ c ∈ s, c.isDigit = true) (ht : ∀ c ∈ t, c.isDigit = true) :
    s < t ↔ Nat.ofDigitChars 10 s 0 < Nat.ofDigitChars 10 t 0 := by
  induction s generalizing t with
  | nil =>
    obtain rfl : t = [] := List.length_eq_zero_iff.mp hlength.symm
    exact iff_of_false (List.lt_irrefl _) (Nat.lt_irrefl _)
  | cons c s ih =>
    cases t with
    | nil => cases hlength
    | cons d t =>
      obtain ⟨hc, hs⟩ := List.forall_mem_cons.mp hs
      obtain ⟨hd, ht⟩ := List.forall_mem_cons.mp ht
      have hrest := Nat.succ.inj hlength
      have hsmall : Nat.ofDigitChars 10 s 0 < 10 ^ t.length := hrest ▸ ofDigitChars_lt hs
      rw [List.cons_lt_cons_iff, ih hrest hs ht, lt_iff_digit_lt hc hd, eq_iff_digit_eq hc hd,
        ofDigitChars_cons_zero, ofDigitChars_cons_zero, hrest,
        mul_add_lt_iff hsmall (ofDigitChars_lt ht)]

/-- Numbers filled up to one width are ordered as their texts are. -/
theorem padTo_write_lt_iff {width a b : Nat} (ha : (write a).length ≤ width)
    (hb : (write b).length ≤ width) :
    padTo width '0' (write a) < padTo width '0' (write b) ↔ a < b := by
  have hlength : (padTo width '0' (write a)).length = (padTo width '0' (write b)).length := by
    rw [length_padTo ha, length_padTo hb]
  rw [lt_iff_ofDigitChars_lt hlength (fun _ => isDigit_of_mem_padTo) fun _ => isDigit_of_mem_padTo]
  simp only [padTo, ofDigitChars_replicate_zero, write, Nat.ofDigitChars_ten_toDigits]

theorem length_write_le_four {n : Nat} (h : n < 10000) : (write n).length ≤ 4 :=
  (Nat.length_toDigits_le_iff (by decide) (by decide)).mpr h

end Decimal

end Text

/-! ### Years -/

namespace DateFormat
open Text.Decimal

variable {a b year : Int}

theorem length_renderYear (h : 0 ≤ year ∧ year ≤ 9999) : (renderYear .zeros year).length = 4 := by
  rw [renderYear_plain h, length_padTo (length_write_le_four (by omega))]

theorem renderYear_lt_iff (ha : 0 ≤ a ∧ a ≤ 9999) (hb : 0 ≤ b ∧ b ≤ 9999) :
    renderYear .zeros a < renderYear .zeros b ↔ a < b := by
  rw [renderYear_plain ha, renderYear_plain hb, padTo_write_lt_iff
    (length_write_le_four (by omega)) (length_write_le_four (by omega))]
  omega

theorem renderYear_eq_iff : renderYear .zeros a = renderYear .zeros b ↔ a = b :=
  ⟨renderYear_inj, congrArg _⟩

/-- A sign comes before the digits of a year without one. -/
theorem renderYear_signed_lt (ha : ¬ (0 ≤ a ∧ a ≤ 9999)) (hb : 0 ≤ b ∧ b ≤ 9999)
    (s t : List Char) : renderYear .zeros a ++ s < renderYear .zeros b ++ t := by
  have hlength := length_renderYear hb
  have hdigits : ∀ c ∈ renderYear .zeros b, c.isDigit = true := by
    rw [renderYear_plain hb]
    exact fun c => isDigit_of_mem_padTo
  rw [renderYear_signed ha]
  cases htext : renderYear .zeros b with
  | nil => rw [htext] at hlength; cases hlength
  | cons c rest =>
    have hdigit := Char.isDigit_iff_toNat.mp (hdigits c (htext ▸ List.mem_cons_self))
    have hzero : '0'.toNat = 48 := rfl
    rw [List.cons_append, List.cons_append, List.cons_lt_cons_iff, Char.lt_def,
      UInt32.lt_iff_toNat_lt]
    left
    show (if a < 0 then '-' else '+').toNat < c.toNat
    split
    · have hminus : '-'.toNat = 45 := rfl
      omega
    · have hplus : '+'.toNat = 43 := rfl
      omega

end DateFormat

/-! ### Whole dates -/

namespace Date
open DateFormat Text Text.Decimal

/-- A year from 0 to 9999 is written in four digits, without a sign. -/
def FourDigitYear (d : Date) : Prop := 0 ≤ d.year ∧ d.year ≤ 9999

instance (d : Date) : Decidable d.FourDigitYear := inferInstanceAs (Decidable (_ ∧ _))

/-- Year, month and day with a separator between them. -/
def written (sep : List Char) (d : Date) : List Char :=
  renderYear .zeros d.year ++ (sep ++ (padTo 2 '0' (write d.month) ++
    (sep ++ padTo 2 '0' (write d.day))))

theorem toISO_eq_written (d : Date) : d.toISO = String.ofList (d.written ['-']) := by
  simp [toISO, written, renderField_ofNat]

theorem toBasicISO_eq_written (d : Date) : d.toBasicISO = String.ofList (d.written []) := by
  simp [toBasicISO, written, renderField_ofNat]

variable {a b : Date}

theorem length_month (d : Date) : (padTo 2 '0' (write d.month)).length = 2 :=
  length_padTo (length_write_le_two d.month_lt)

/-- **Dates of years with four digits are ordered as they are written.** -/
theorem written_lt_iff (sep : List Char) (ha : a.FourDigitYear) (hb : b.FourDigitYear) :
    a.written sep < b.written sep ↔ a < b := by
  have hyear : (renderYear .zeros a.year).length = (renderYear .zeros b.year).length := by
    rw [length_renderYear ha, length_renderYear hb]
  have hmonth : (padTo 2 '0' (write a.month)).length = (padTo 2 '0' (write b.month)).length := by
    rw [length_month, length_month]
  have hmonth' : padTo 2 '0' (write a.month) = padTo 2 '0' (write b.month) ↔
      a.month = b.month := ⟨padTo_write_inj, fun h => by rw [h]⟩
  rw [written, written, append_lt_append_iff hyear, append_lt_append_left_iff,
    append_lt_append_iff hmonth, append_lt_append_left_iff, renderYear_lt_iff ha hb,
    renderYear_eq_iff, hmonth',
    padTo_write_lt_iff (length_write_le_two a.month_lt) (length_write_le_two b.month_lt),
    padTo_write_lt_iff (length_write_le_two a.day_lt) (length_write_le_two b.day_lt)]
  rfl

/-- A date of another year is written before all of them. -/
theorem written_signed_lt (sep : List Char) (ha : ¬ a.FourDigitYear) (hb : b.FourDigitYear) :
    a.written sep < b.written sep :=
  renderYear_signed_lt ha hb _ _

theorem toISO_lt_iff (ha : a.FourDigitYear) (hb : b.FourDigitYear) :
    a.toISO < b.toISO ↔ a < b := by
  rw [toISO_eq_written, toISO_eq_written, String.lt_iff, String.toList_ofList,
    String.toList_ofList, written_lt_iff _ ha hb]

end Date

end OpeningHours
