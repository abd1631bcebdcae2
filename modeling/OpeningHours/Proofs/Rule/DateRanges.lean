import OpeningHours.Proofs.Date.Order
import OpeningHours.Proofs.Date.TextOrder
import OpeningHours.Proofs.Rule.RoundTrip
import OpeningHours.Rule.Activity

/-! Ranges of dates in rules.

Rules compare dates as texts. A range between two dates in eight digits admits the dates between
them, because dates of four-digit years are ordered as they are written, and a date of another year
has a sign in front: it is written before all eight digits, and lies before or after all of their
years (`toBasicISO_between_iff`). Month and day in four digits are ordered as the days of a year
are, whatever the year. -/
namespace OpeningHours
open Text Text.Decimal

/-! ### Dates in eight digits -/

namespace Date
open DateFormat

variable {a b lo hi d : Date}

/-- Four digits for the year, two for the month and two for the day. -/
def eightDigits (d : Date) : List Char :=
  padTo 4 '0' (write d.year.toNat) ++ padTo 2 '0' (write d.month) ++ padTo 2 '0' (write d.day)

theorem toBasicISO_eq_eightDigits (h : d.FourDigitYear) :
    d.toBasicISO = String.ofList d.eightDigits := by
  have hyear : d.year.natAbs = d.year.toNat := by
    have := h.1
    omega
  rw [toBasicISO, renderYear_plain h, hyear, renderField_ofNat, renderField_ofNat, eightDigits]

theorem toBasicISO_lt_iff (ha : a.FourDigitYear) (hb : b.FourDigitYear) :
    a.toBasicISO < b.toBasicISO ↔ a < b := by
  rw [toBasicISO_eq_written, toBasicISO_eq_written, String.lt_iff, String.toList_ofList,
    String.toList_ofList, written_lt_iff _ ha hb]

theorem toBasicISO_signed_lt (ha : ¬ a.FourDigitYear) (hb : b.FourDigitYear) :
    a.toBasicISO < b.toBasicISO := by
  rw [toBasicISO_eq_written, toBasicISO_eq_written, String.lt_iff, String.toList_ofList,
    String.toList_ofList]
  exact written_signed_lt _ ha hb

/-- A date between two others is written between them, and no other date is. -/
theorem toBasicISO_between_iff (hlo : lo.FourDigitYear) (hhi : hi.FourDigitYear) (d : Date) :
    lo.toBasicISO ≤ d.toBasicISO ∧ d.toBasicISO ≤ hi.toBasicISO ↔ ¬ d < lo ∧ ¬ hi < d := by
  rw [← String.not_lt, ← String.not_lt]
  by_cases hd : d.FourDigitYear
  · rw [toBasicISO_lt_iff hd hlo, toBasicISO_lt_iff hhi hd]
  · refine iff_of_false (fun h => h.1 (toBasicISO_signed_lt hd hlo)) fun h => hd ?_
    obtain ⟨hlow, hhigh⟩ := h
    exact ⟨Int.le_trans hlo.1 (Int.not_lt.mp fun hyear => hlow (.inl hyear)),
      Int.le_trans (Int.not_lt.mp fun hyear => hhigh (.inl hyear)) hhi.2⟩

theorem toBasicISO_eq_iff (ha : a.FourDigitYear) : d.toBasicISO = a.toBasicISO ↔ d = a := by
  refine ⟨fun h => ?_, fun h => by rw [h]⟩
  have hle : a.toBasicISO ≤ d.toBasicISO ∧ d.toBasicISO ≤ a.toBasicISO := by simp [h]
  obtain ⟨hlow, hhigh⟩ := (toBasicISO_between_iff ha ha d).mp hle
  exact ((lt_or_eq_or_gt d a).resolve_left hlow).resolve_right hhigh

end Date

/-! ### Month and day in four digits -/

/-- A month and a day of two digits each, whether or not there is such a day. -/
structure MonthDay where
  month : Nat
  day : Nat
  month_lt : month < 100
  day_lt : day < 100

namespace MonthDay

instance : LE MonthDay := ⟨fun a b => a.month < b.month ∨ a.month = b.month ∧ a.day ≤ b.day⟩

instance (a b : MonthDay) : Decidable (a ≤ b) := inferInstanceAs (Decidable (_ ∨ _))

def fourDigits (m : MonthDay) : List Char :=
  padTo 2 '0' (write m.month) ++ padTo 2 '0' (write m.day)

theorem fourDigits_lt_iff (a b : MonthDay) : a.fourDigits < b.fourDigits ↔ ¬ b ≤ a := by
  have hlength : ∀ m : MonthDay, (padTo 2 '0' (write m.month)).length = 2 := fun m =>
    length_padTo (length_write_le_two m.month_lt)
  have hmonth : padTo 2 '0' (write a.month) = padTo 2 '0' (write b.month) ↔
      a.month = b.month := ⟨padTo_write_inj, fun h => by rw [h]⟩
  rw [fourDigits, fourDigits, append_lt_append_iff ((hlength a).trans (hlength b).symm), hmonth,
    padTo_write_lt_iff (length_write_le_two a.month_lt) (length_write_le_two b.month_lt),
    padTo_write_lt_iff (length_write_le_two a.day_lt) (length_write_le_two b.day_lt)]
  show _ ↔ ¬ (b.month < a.month ∨ b.month = a.month ∧ b.day ≤ a.day)
  omega

end MonthDay

def Date.monthDay (d : Date) : MonthDay := ⟨d.month, d.day, d.month_lt, d.day_lt⟩

theorem Date.toMonthDay_eq (d : Date) : d.toMonthDay = String.ofList d.monthDay.fourDigits := by
  rw [toMonthDay, DateFormat.renderField_ofNat, DateFormat.renderField_ofNat]
  rfl

theorem MonthDay.between_iff (lo hi : MonthDay) (d : Date) :
    String.ofList lo.fourDigits ≤ d.toMonthDay ∧ d.toMonthDay ≤ String.ofList hi.fourDigits ↔
      lo ≤ d.monthDay ∧ d.monthDay ≤ hi := by
  rw [d.toMonthDay_eq, ← String.not_lt, ← String.not_lt, String.lt_iff, String.lt_iff]
  simp only [String.toList_ofList, fourDigits_lt_iff, Classical.not_not]

/-! ### Digits as values -/

theorem Date.isBare_eightDigits (d : Date) : IsBare d.eightDigits := by
  refine isBare_of_isDigit (fun h => ?_) fun c hc => ?_
  · have hlength := congrArg List.length h
    simp [eightDigits, padTo, write] at hlength
  · simp only [eightDigits, List.mem_append] at hc
    rcases hc with (hc | hc) | hc <;> exact isDigit_of_mem_padTo hc

theorem MonthDay.isBare_fourDigits (m : MonthDay) : IsBare m.fourDigits := by
  refine isBare_of_isDigit (fun h => ?_) fun c hc => ?_
  · have hlength := congrArg List.length h
    simp [fourDigits, padTo, write] at hlength
  · rcases List.mem_append.mp hc with hc | hc <;> exact isDigit_of_mem_padTo hc

theorem SpecialDay.read_name (s : SpecialDay) : SpecialDay.read s.name = .ok s := by
  cases s <;> decide

namespace Clause
open Constraint (between exactly)
variable {least greatest value : List Char}

/-- A clause of one text is read from its name, an equals sign and the text. -/
theorem read_text {c : Constraint String} (h : c.All fun s => IsBare s.toList) :
    Clause.read ("days=".toList ++ (c.written String.toList).write) = .ok (.days [c]) ∧
      Clause.read ("birthdays=".toList ++ (c.written String.toList).write) =
        .ok (.birthdays [c]) := by
  have hdays := read_write SpecialDay.read_name (c := .days [c]) (by simpa [WellFormed] using h)
  have hbirthdays := read_write SpecialDay.read_name (c := .birthdays [c])
    (by simpa [WellFormed] using h)
  exact ⟨by simpa [write, written, kind, Kind.name] using hdays,
    by simpa [write, written, kind, Kind.name] using hbirthdays⟩

theorem read_between (hleast : IsBare least) (hgreatest : IsBare greatest) :
    Clause.read ("days=".toList ++ least ++ '-' :: greatest) =
        .ok (.days [between (String.ofList least) (String.ofList greatest)]) ∧
      Clause.read ("birthdays=".toList ++ least ++ '-' :: greatest) =
        .ok (.birthdays [between (String.ofList least) (String.ofList greatest)]) := by
  have hread := read_text (c := between (String.ofList least) (String.ofList greatest))
    (by simp [Constraint.All, hleast, hgreatest])
  simpa [Constraint.written, Written.write] using hread

theorem read_exactly (hvalue : IsBare value) :
    Clause.read ("days=".toList ++ value) = .ok (.days [exactly (String.ofList value)]) := by
  have hread := (read_text (c := exactly (String.ofList value))
    (by simp [Constraint.All, hvalue])).1
  simpa [Constraint.written, Written.write] using hread

theorem admits_days_iff (c : Constraint String) (d : Date) :
    (Clause.days [c]).admits d.facts = true ↔ c.Admits d.toBasicISO := by
  simp only [admits, Constraint.anyAdmits, Date.facts, List.isEmpty_cons, Bool.false_or,
    List.any_cons, List.any_nil, Bool.or_false]
  exact decide_eq_true_iff

theorem admits_birthdays_iff (c : Constraint String) (d : Date) :
    (Clause.birthdays [c]).admits d.facts = true ↔ c.Admits d.toMonthDay := by
  simp only [admits, Constraint.anyAdmits, Date.facts, List.isEmpty_cons, Bool.false_or,
    List.any_cons, List.any_nil, Bool.or_false]
  exact decide_eq_true_iff

/-- **Ranges of dates mean ranges of the calendar.** With dates of four-digit years in eight digits
a clause of days admits the dates from the one to the other, or the one date; with months and days
in four digits a clause of birthdays admits the dates of any year whose month and day are from the
one to the other. -/
theorem ranges_of_dates :
    (∀ lo hi : Date, lo.FourDigitYear → hi.FourDigitYear → ∃ range,
      Clause.read ("days=".toList ++ lo.eightDigits ++ '-' :: hi.eightDigits) = .ok range ∧
        ∀ d : Date, range.admits d.facts = true ↔ ¬ d < lo ∧ ¬ hi < d) ∧
    (∀ day : Date, day.FourDigitYear → ∃ single,
      Clause.read ("days=".toList ++ day.eightDigits) = .ok single ∧
        ∀ d : Date, single.admits d.facts = true ↔ d = day) ∧
    ∀ lo hi : MonthDay, ∃ range,
      Clause.read ("birthdays=".toList ++ lo.fourDigits ++ '-' :: hi.fourDigits) = .ok range ∧
        ∀ d : Date, range.admits d.facts = true ↔ lo ≤ d.monthDay ∧ d.monthDay ≤ hi := by
  refine ⟨fun lo hi hlo hhi => ?_, fun day hday => ?_, fun lo hi => ?_⟩
  · refine ⟨_, (read_between lo.isBare_eightDigits hi.isBare_eightDigits).1, fun d => ?_⟩
    rw [admits_days_iff, ← Date.toBasicISO_eq_eightDigits hlo,
      ← Date.toBasicISO_eq_eightDigits hhi]
    exact Date.toBasicISO_between_iff hlo hhi d
  · refine ⟨_, read_exactly day.isBare_eightDigits, fun d => ?_⟩
    rw [admits_days_iff, ← Date.toBasicISO_eq_eightDigits hday]
    exact Date.toBasicISO_eq_iff hday
  · refine ⟨_, (read_between lo.isBare_fourDigits hi.isBare_fourDigits).2, fun d => ?_⟩
    rw [admits_birthdays_iff]
    exact MonthDay.between_iff lo hi d

/-- Up to the last year of four digits, from a year that is written with a zero: neither the same
year before zero nor the year 10000 is admitted. -/
theorem ranges_of_dates_four_digits :
    let lo : Date := ⟨999, 12, 31, by decide⟩
    let hi : Date := ⟨9999, 12, 31, by decide⟩
    let before : Date := ⟨-999, 12, 31, by decide⟩
    let after : Date := ⟨10000, 1, 1, by decide⟩
    lo.FourDigitYear ∧ hi.FourDigitYear ∧
      (∃ range, Clause.read "days=09991231-99991231".toList = .ok range ∧
        range.admits lo.facts = true ∧ range.admits hi.facts = true ∧
        ¬ range.admits before.facts = true ∧ ¬ range.admits after.facts = true) ∧
      ∃ single, Clause.read "days=09991231".toList = .ok single ∧
        single.admits lo.facts = true ∧ ¬ single.admits before.facts = true := by
  intro lo hi before after
  have hlo : lo.FourDigitYear := by decide
  have hhi : hi.FourDigitYear := by decide
  obtain ⟨hrange, hsingle, -⟩ := ranges_of_dates
  obtain ⟨range, hread, hadmits⟩ := hrange lo hi hlo hhi
  obtain ⟨single, hread', hadmits'⟩ := hsingle lo hlo
  have htext : "days=".toList ++ lo.eightDigits ++ '-' :: hi.eightDigits =
      "days=09991231-99991231".toList := by decide
  have htext' : "days=".toList ++ lo.eightDigits = "days=09991231".toList := by decide
  refine ⟨hlo, hhi, ⟨range, htext ▸ hread, ?_⟩, single, htext' ▸ hread', ?_⟩
  · rw [hadmits, hadmits, hadmits, hadmits]
    decide
  · rw [hadmits', hadmits']
    decide

end Clause

end OpeningHours
