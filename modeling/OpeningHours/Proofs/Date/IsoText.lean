import OpeningHours.Date.Format
import OpeningHours.Proofs.Text.Numeral

/-! Dates written as year, month and day.

A number filled up with zeros still has its value, so it can be told from its text;
a year outside of 0 to 9999 starts with a sign, which no digit is. Month and day
have two characters each, so the parts of the text lie apart at its end
(`toISO_injective`). The ISO format writes this text (`format?_isoFormat`). -/
namespace OpeningHours

namespace DateFormat
open Text.Decimal

theorem renderField_ofNat (width n : Nat) :
    renderField .zeros width n = padTo width '0' (write n) := by
  rw [renderField, if_pos (Int.natCast_nonneg n)]
  rfl

/-! ### Years -/

/-- A year outside of 0 to 9999 starts with its sign. -/
theorem renderYear_signed {year : Int} (h : ¬ (0 ≤ year ∧ year ≤ 9999)) :
    renderYear .zeros year =
      (if year < 0 then '-' else '+') :: padTo 4 '0' (write year.natAbs) := by
  rw [renderYear, if_neg h]
  rfl

theorem renderYear_plain {year : Int} (h : 0 ≤ year ∧ year ≤ 9999) :
    renderYear .zeros year = padTo 4 '0' (write year.natAbs) := by
  rw [renderYear, if_pos h]
  rfl

theorem sign_cons_ne_padTo {year : Int} {s : List Char} {width n : Nat} :
    (if year < 0 then '-' else '+') :: s ≠ padTo width '0' (write n) := by
  intro h
  have hdigit : (if year < 0 then '-' else '+').isDigit = true :=
    isDigit_of_mem_padTo (h ▸ List.mem_cons_self)
  split at hdigit <;> exact absurd hdigit (by decide)

theorem renderYear_inj {a b : Int} (h : renderYear .zeros a = renderYear .zeros b) : a = b := by
  by_cases ha : 0 ≤ a ∧ a ≤ 9999
  · by_cases hb : 0 ≤ b ∧ b ≤ 9999
    · rw [renderYear_plain ha, renderYear_plain hb] at h
      have habs := padTo_write_inj h
      omega
    · rw [renderYear_plain ha, renderYear_signed hb] at h
      exact absurd h.symm sign_cons_ne_padTo
  · by_cases hb : 0 ≤ b ∧ b ≤ 9999
    · rw [renderYear_signed ha, renderYear_plain hb] at h
      exact absurd h sign_cons_ne_padTo
    · rw [renderYear_signed ha, renderYear_signed hb] at h
      obtain ⟨hsign, hdigits⟩ := List.cons.inj h
      have habs := padTo_write_inj hdigits
      have hside : a < 0 ↔ b < 0 := by
        by_cases ha' : a < 0 <;> by_cases hb' : b < 0 <;> simp [ha', hb'] at hsign ⊢
      omega

end DateFormat

namespace Date
open DateFormat Text.Decimal

/-! ### Whole dates -/

theorem format?_isoFormat (d : Date) : d.format? isoFormat = some d.toISO := by
  have hitems : items? isoFormat.toList = some [.year .zeros, .literal '-',
      .field .month .zeros, .literal '-', .field .day .zeros] := by decide +kernel
  rw [format?, hitems]
  simp [renderItems?, Item.render?, Field.width, Field.value, toISO]

theorem month_lt (d : Date) : d.month < 100 := by
  have := d.exist.month_mem
  omega

theorem day_lt (d : Date) : d.day < 100 := by
  have hday := d.exist.day_mem
  have hmonth : daysInMonth d.year d.month ≤ 31 := by
    unfold daysInMonth
    split <;> (try split) <;> decide
  omega

/-- **No two dates are written alike.** -/
theorem toISO_injective {d e : Date} (h : d.toISO = e.toISO) : d = e := by
  have htext := String.ofList_injective h
  simp only [renderField_ofNat] at htext
  have hlength : ∀ f : Date, (padTo 2 '0' (write f.month)).length = 2 ∧
      (padTo 2 '0' (write f.day)).length = 2 := fun f =>
    ⟨length_padTo (length_write_le_two f.month_lt), length_padTo (length_write_le_two f.day_lt)⟩
  -- The parts come off the end, where their lengths are known.
  obtain ⟨hfront, hday⟩ := List.append_inj' htext (by simp [hlength])
  obtain ⟨hyear, hmonth⟩ := List.append_inj' hfront (by simp [hlength])
  exact ext (renderYear_inj hyear) (padTo_write_inj (List.cons.inj hmonth).2)
    (padTo_write_inj (List.cons.inj hday).2)

end Date

end OpeningHours
