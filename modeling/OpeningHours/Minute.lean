/-! Minutes of a day, counted from midnight.

A minute is a machine number of 32 bits and may lie before midnight or after the
day. Sums and products that leave the range are refused; a minute is rounded up
to a multiple of a width with the Euclidean quotient, so that minutes before
midnight round towards midnight too. -/
namespace OpeningHours

abbrev Minute := Int32

namespace Minute

/-- The minutes of a day are those below it. -/
def perDay : Minute := 1440

/-- The greatest minute. -/
def greatest : Nat := 2147483647

/-- Whether a number is a minute. -/
def InRange (n : Int) : Prop := -2147483648 ≤ n ∧ n ≤ 2147483647

instance (n : Int) : Decidable (InRange n) := inferInstanceAs (Decidable (_ ∧ _))

def add? (a b : Minute) : Option Minute :=
  if InRange (a.toInt + b.toInt) then some (a + b) else none

def mul? (a b : Minute) : Option Minute :=
  if InRange (a.toInt * b.toInt) then some (a * b) else none

/-- The Euclidean quotient. -/
def quotient (a b : Minute) : Minute := Int32.ofInt (a.toInt / b.toInt)

/-- The Euclidean remainder. -/
def remainder (a b : Minute) : Minute := Int32.ofInt (a.toInt % b.toInt)

/-- The least multiple of `width` that is not below `a`, unless it is no minute. -/
def roundUp? (width a : Minute) : Option Minute :=
  if remainder a width = 0 then some a else mul? (quotient a width + 1) width

/-- A minute pulled into the day. -/
def clamp (a : Minute) : Minute :=
  if a < 0 then 0 else if perDay < a then perDay else a

def later (a b : Minute) : Minute := if a < b then b else a

def earlier (a b : Minute) : Minute := if b < a then b else a

theorem inRange_toInt (a : Minute) : InRange a.toInt :=
  ⟨a.le_toInt, Int.le_of_lt_add_one a.toInt_lt⟩

theorem toInt_ofInt {n : Int} (h : InRange n) : (Int32.ofInt n).toInt = n :=
  Int32.toInt_ofInt_of_le h.1 (Int.lt_add_one_of_le h.2)

theorem toInt_of_add? {a b c : Minute} (h : add? a b = some c) :
    c.toInt = a.toInt + b.toInt := by
  unfold add? at h
  split at h
  · rename_i hr
    cases h
    rw [Int32.toInt_add]
    exact Int.bmod_eq_of_le hr.1 (Int.lt_add_one_of_le hr.2)
  · cases h

theorem toInt_of_mul? {a b c : Minute} (h : mul? a b = some c) :
    c.toInt = a.toInt * b.toInt := by
  unfold mul? at h
  split at h
  · rename_i hr
    cases h
    rw [Int32.toInt_mul]
    exact Int.bmod_eq_of_le hr.1 (Int.lt_add_one_of_le hr.2)
  · cases h

@[simp] theorem toInt_clamp (a : Minute) : a.clamp.toInt = max 0 (min a.toInt 1440) := by
  have hday : (1440 : Int32).toInt = 1440 := by decide
  have hzero : (0 : Int32).toInt = 0 := by decide
  unfold clamp perDay
  simp only [Int32.lt_iff_toInt_lt]
  split
  · omega
  · split <;> omega

@[simp] theorem toInt_later (a b : Minute) : (a.later b).toInt = max a.toInt b.toInt := by
  unfold later
  simp only [Int32.lt_iff_toInt_lt]
  split <;> omega

@[simp] theorem toInt_earlier (a b : Minute) : (a.earlier b).toInt = min a.toInt b.toInt := by
  unfold earlier
  simp only [Int32.lt_iff_toInt_lt]
  split <;> omega

end Minute

end OpeningHours
