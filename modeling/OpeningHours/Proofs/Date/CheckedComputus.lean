import OpeningHours.Proofs.Date.Computus

/-! The computus in checked arithmetic.

Here the computus runs in integers and stops as soon as a result on the way is no machine
number. It never stops, whatever the year, and ends with the month and the day of the computus
on machine numbers (`checked?_eq`): no step of that one leaves the machine numbers. -/
namespace OpeningHours
open Minute (InRange)

namespace Computus

/-! ### Checked steps -/

/-- A result, if it is a machine number. -/
def fit? (n : Int) : Option Int := if InRange n then some n else none

def add? (m n : Int) : Option Int := fit? (m + n)

def sub? (m n : Int) : Option Int := fit? (m - n)

def mul? (m n : Int) : Option Int := fit? (m * n)

def div? (m n : Int) : Option Int := fit? (m.tdiv n)

def mod? (m n : Int) : Option Int := fit? (m.tmod n)

def drift? (b : Int) : Option Int := do
  let f ← div? (← add? b 8) 25
  div? (← add? (← sub? b f) 1) 3

def moon? (a b d g : Int) : Option Int := do
  mod? (← add? (← sub? (← sub? (← add? (← mul? 19 a) b) d) g) 15) 30

def untilSunday? (e i h k : Int) : Option Int := do
  mod? (← sub? (← sub? (← add? (← add? 32 (← mul? 2 e)) (← mul? 2 i)) h) k) 7

def weeksBack? (a h l : Int) : Option Int := do
  div? (← add? (← add? a (← mul? 11 h)) (← mul? 22 l)) 451

def position? (h l m : Int) : Option Int := do
  add? (← sub? (← add? h l) (← mul? 7 m)) 114

/-- The month and the day that the computus gives for a year, unless a result on the way is no
machine number. -/
def checked? (year : Int) : Option (Int × Int) := do
  let a ← fit? (year % 19)
  let b ← fit? (year / 100)
  let c ← fit? (year % 100)
  let d ← div? b 4
  let e ← mod? b 4
  let g ← drift? b
  let h ← moon? a b d g
  let i ← div? c 4
  let k ← mod? c 4
  let l ← untilSunday? e i h k
  let m ← weeksBack? a h l
  let n ← position? h l m
  return (← div? n 31, ← add? (← mod? n 31) 1)

/-! ### No step is refused -/

section
variable {k m n : Int}

theorem fit?_eq (hlow : -2147483648 ≤ n) (hhigh : n ≤ 2147483647) : fit? n = some n :=
  if_pos ⟨hlow, hhigh⟩

/-- A quotient is no further from zero than its dividend. -/
theorem tdiv_mem (h : -k ≤ m ∧ m ≤ k) : -k ≤ m.tdiv n ∧ m.tdiv n ≤ k := by
  have habs : (m.tdiv n).natAbs ≤ m.natAbs := by
    rw [Int.natAbs_tdiv]
    exact Nat.div_le_self _ _
  omega

theorem div?_eq (h : -2147483647 ≤ m ∧ m ≤ 2147483647) : div? m n = some (m.tdiv n) := by
  have hmem := tdiv_mem (n := n) h
  exact fit?_eq (by omega) hmem.2

/-- A remainder is nearer to zero than its divisor. -/
theorem tmod_mem (m : Int) (hn : 0 < n) : -n < m.tmod n ∧ m.tmod n < n :=
  ⟨Int.lt_tmod_of_pos m hn, Int.tmod_lt_of_pos m hn⟩

theorem mod?_eq (h : 0 < n ∧ n ≤ 2147483647) : mod? m n = some (m.tmod n) := by
  have hmem := tmod_mem m h.1
  exact fit?_eq (by omega) (by omega)

end

section
variable {a b d e g h i k l m : Int}

theorem drift?_eq (hb : -21474837 ≤ b ∧ b ≤ 21474837) :
    drift? b = some (drift b) ∧ -42949684 ≤ drift b ∧ drift b ≤ 42949684 := by
  have hf := tdiv_mem (m := b + 8) (n := 25) (k := 21474845) (by omega)
  have hg := tdiv_mem (m := b - (b + 8).tdiv 25 + 1) (n := 3) (k := 42949684) (by omega)
  refine ⟨?_, hg⟩
  simp (disch := omega) only [drift?, add?, sub?, div?_eq, fit?_eq, Option.bind_eq_bind,
    Option.bind_some]
  rfl

theorem moon?_eq (ha : 0 ≤ a ∧ a < 19) (hb : -21474837 ≤ b ∧ b ≤ 21474837)
    (hd : -21474837 ≤ d ∧ d ≤ 21474837) (hg : -42949684 ≤ g ∧ g ≤ 42949684) :
    moon? a b d g = some ((19 * a + b - d - g + 15).tmod 30) := by
  simp (disch := omega) only [moon?, add?, sub?, mul?, mod?_eq, fit?_eq, Option.bind_eq_bind,
    Option.bind_some]

theorem untilSunday?_eq (he : -4 < e ∧ e < 4) (hi : -99 ≤ i ∧ i ≤ 99) (hh : -29 ≤ h ∧ h ≤ 29)
    (hk : -4 < k ∧ k < 4) :
    untilSunday? e i h k = some ((32 + 2 * e + 2 * i - h - k).tmod 7) := by
  simp (disch := omega) only [untilSunday?, add?, sub?, mul?, mod?_eq, fit?_eq,
    Option.bind_eq_bind, Option.bind_some]

theorem weeksBack?_eq (ha : 0 ≤ a ∧ a < 19) (hh : -29 ≤ h ∧ h ≤ 29) (hl : -6 ≤ l ∧ l ≤ 6) :
    weeksBack? a h l = some ((a + 11 * h + 22 * l).tdiv 451) ∧
      -500 ≤ (a + 11 * h + 22 * l).tdiv 451 ∧ (a + 11 * h + 22 * l).tdiv 451 ≤ 500 := by
  refine ⟨?_, tdiv_mem (by omega)⟩
  simp (disch := omega) only [weeksBack?, add?, mul?, div?_eq, fit?_eq, Option.bind_eq_bind,
    Option.bind_some]

theorem position?_eq (hh : -29 ≤ h ∧ h ≤ 29) (hl : -6 ≤ l ∧ l ≤ 6) (hm : -500 ≤ m ∧ m ≤ 500) :
    position? h l m = some (h + l - 7 * m + 114) := by
  simp (disch := omega) only [position?, add?, sub?, mul?, fit?_eq, Option.bind_eq_bind,
    Option.bind_some]

end

/-- **No step of the computus leaves the machine numbers**, for any year. -/
theorem checked?_eq (year : Int32) : checked? year.toInt = some (month year, day year) := by
  have hyear := Minute.inRange_toInt year
  obtain ⟨hmonth, hday⟩ := month_day_eq year
  rw [hmonth, hday]
  generalize year.toInt = y at hyear ⊢
  unfold InRange at hyear
  -- The three parts of the year.
  have hcycle : 0 ≤ y % 19 ∧ y % 19 < 19 := by omega
  have hcentury : -21474837 ≤ y / 100 ∧ y / 100 ≤ 21474837 := by omega
  have hyears : -99 ≤ y % 100 ∧ y % 100 ≤ 99 := by omega
  have ha : fit? (y % 19) = some (y % 19) := fit?_eq (by omega) (by omega)
  have hb : fit? (y / 100) = some (y / 100) := fit?_eq (by omega) (by omega)
  have hc : fit? (y % 100) = some (y % 100) := fit?_eq (by omega) (by omega)
  have hd : div? (y / 100) 4 = some ((y / 100).tdiv 4) := div?_eq (by omega)
  have hi : div? (y % 100) 4 = some ((y % 100).tdiv 4) := div?_eq (by omega)
  have hquarter : ∀ n, mod? n 4 = some (n.tmod 4) := fun n => mod?_eq (by decide)
  have hquarter' : ∀ n : Int, -4 < n.tmod 4 ∧ n.tmod 4 < 4 := fun n => tmod_mem n (by decide)
  -- The moon, the Sunday after it, and the week back.
  obtain ⟨hg, hdrift⟩ := drift?_eq hcentury
  have hh : moon? (y % 19) (y / 100) ((y / 100).tdiv 4) (drift (y / 100)) = some (moon y) :=
    moon?_eq hcycle hcentury (tdiv_mem hcentury) hdrift
  have hl : untilSunday? ((y / 100).tmod 4) ((y % 100).tdiv 4) (moon y) ((y % 100).tmod 4) =
      some (untilSunday y) :=
    untilSunday?_eq (hquarter' _) (tdiv_mem hyears) (moon_bounds y) (hquarter' _)
  obtain ⟨hm, hweeks⟩ := weeksBack?_eq hcycle (moon_bounds y) (untilSunday_bounds y)
  rw [← weeksBack] at hm hweeks
  have hn : position? (moon y) (untilSunday y) (weeksBack y) = some (position y) :=
    position?_eq (moon_bounds y) (untilSunday_bounds y) hweeks
  -- The position as month and day.
  have hlow : -29 + 114 ≤ position y := position_ge (moon_bounds y).1 (by decide)
  have hhigh := position_le y
  have hrest := tmod_mem (position y) (n := 31) (by decide)
  have hq : div? (position y) 31 = some ((position y).tdiv 31) := div?_eq (by omega)
  have hr : mod? (position y) 31 = some ((position y).tmod 31) := mod?_eq (by decide)
  have hlast : add? ((position y).tmod 31) 1 = some ((position y).tmod 31 + 1) :=
    fit?_eq (by omega) (by omega)
  simp only [checked?, ha, hb, hc, hd, hquarter, hg, hh, hi, hl, hm, hn, hq, hr, hlast,
    Option.bind_eq_bind, Option.bind_some, Option.pure_def]

end Computus

end OpeningHours
