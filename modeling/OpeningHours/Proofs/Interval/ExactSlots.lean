import OpeningHours.Proofs.Interval.Slots

/-! Slicing without overflow.

Slicing computes with machine numbers, and not every sum and product on its way is
checked. Each of them is the exact one all the same (`Minute.StepExact`): a quotient
is only counted up where a width of two or more left a remainder, and a checked sum
or product is refused only past the greatest minute. So what slicing returns is what
it would return in integers, for periods with any bounds (`Grid.slice_in_integers`). -/
namespace OpeningHours

/-! ### One step -/

namespace Minute

/-- An integer that is at least the least minute, unless it is past the greatest. -/
def upToGreatest (n : Int) : Option Int := if n ≤ greatest then some n else none

/-- A checked result that is exact, and missing only out of range, is missing only past the
greatest minute if it cannot lie before the least. -/
theorem map_toInt_of_checked {result : Option Minute} {n : Int}
    (hsome : ∀ {c}, result = some c → c.toInt = n) (hnone : result = none → ¬ InRange n)
    (hlow : -2147483648 ≤ n) : result.map Int32.toInt = upToGreatest n := by
  unfold upToGreatest
  cases result with
  | none => exact (if_neg fun hle => hnone rfl ⟨hlow, hle⟩).symm
  | some c =>
    have hexact : c.toInt = n := hsome rfl
    rw [Option.map_some, hexact, if_pos (hexact ▸ c.toInt_le_greatest)]

/-- What slicing may compute from a minute, exactly as in integers. A quotient is counted up and
multiplied only where there is a remainder. -/
structure StepExact (width a : Minute) : Prop where
  remainder : (remainder a width).toInt = a.toInt % width.toInt
  quotient : (quotient a width).toInt = a.toInt / width.toInt
  next : Minute.remainder a width ≠ 0 →
    (Minute.quotient a width + 1).toInt = a.toInt / width.toInt + 1
  product : Minute.remainder a width ≠ 0 →
    (mul? (Minute.quotient a width + 1) width).map Int32.toInt =
      upToGreatest ((a.toInt / width.toInt + 1) * width.toInt)
  sum : (add? a width).map Int32.toInt = upToGreatest (a.toInt + width.toInt)

theorem stepExact {width : Minute} (hw : 0 < width.toInt) (a : Minute) : StepExact width a := by
  have hleast := (inRange_toInt a).1
  have hne : remainder a width ≠ 0 → a.toInt % width.toInt ≠ 0 := by
    intro hrem hzero
    rw [← toInt_remainder hw] at hzero
    exact hrem (Int32.toInt_inj.mp hzero)
  have hnext : remainder a width ≠ 0 →
      (quotient a width + 1).toInt = a.toInt / width.toInt + 1 :=
    fun hrem => toInt_quotient_add_one hw (hne hrem)
  refine ⟨toInt_remainder hw, toInt_quotient hw, hnext, fun hrem => ?_,
    map_toInt_of_checked toInt_of_add? add?_eq_none (by omega)⟩
  rw [← hnext hrem]
  refine map_toInt_of_checked toInt_of_mul? mul?_eq_none ?_
  -- The product is the next multiple, which comes after the minute itself.
  rw [hnext hrem, ← firstMultiple_of_emod_ne_zero hw (hne hrem)]
  exact Int.le_trans hleast (isLeast_firstMultiple hw a.toInt).1.2

end Minute

/-! ### All steps -/

namespace Grid
variable {g : Grid} {width : { w : Minute // 0 < w.toInt }}

/-- A period is passed over only if its first slot would end after it. -/
theorem stop_lt_of_origin?_eq_none {period : Interval}
    (h : g.origin? width period.start = none) :
    period.stop.toInt <
      g.firstStart width.val.toInt period.start.toInt + width.val.toInt := by
  have hw := width.property
  have hstop := period.stop.toInt_le_greatest
  unfold origin? at h
  unfold firstStart
  cases haligned : g.aligned with
  | false =>
    rw [haligned] at h
    cases h
  | true =>
    rw [haligned, if_pos rfl] at h
    rw [if_pos rfl]
    rcases Minute.roundUp?_cases (a := period.start) hw with ⟨b, hb, _⟩ | ⟨_, hlarge⟩
    · rw [h] at hb
      cases hb
    · omega

/-- **Slots in integers.** On a grid whose granularity is a positive minute, the slots of a list of
periods are those of each period in turn. In integers the slots of a period stand side by side from
its first start on, and are all those that end in the period. No step of the computation leaves the
machine numbers without being noticed, and a period whose first start is no minute has no slot. -/
theorem slice_in_integers
    (h : 0 < g.granularity.toNat ∧ g.granularity.toNat ≤ Minute.greatest)
    (periods : List Interval) :
    let w : Int := g.granularity.toNat
    ∃ width, g.width? = some width ∧ width.val.toInt = w ∧
      g.slice periods = periods.flatMap (g.slotsOfPeriod width) ∧
      (∀ period : Interval, ∃ (first : Int) (count : Nat),
        g.IsFirstStart period.start.toInt first ∧
          (g.slotsOfPeriod width period).map bounds =
            (List.range count).map (fun i : Nat => (first + i * w, first + (i + 1) * w)) ∧
          (∀ i : Nat, i < count ↔ first + (i + 1) * w ≤ period.stop.toInt) ∧
          (g.origin? width period.start = none → period.stop.toInt < first + w)) ∧
      ∀ a : Minute, Minute.StepExact width a := by
  intro w
  obtain ⟨width, hwidth, hvalue⟩ := width?_eq_some h
  refine ⟨width, hwidth, hvalue, ?_, fun period => ?_, Minute.stepExact width.property⟩
  · simp only [slice, hwidth]
  · let first := g.firstStart w period.start.toInt
    have hslots := bounds_slotsOfPeriod width g period
    have hskipped : g.origin? width period.start = none →
        period.stop.toInt < g.firstStart width.val.toInt period.start.toInt + width.val.toInt :=
      stop_lt_of_origin?_eq_none
    rw [hvalue] at hslots hskipped
    exact ⟨first, ((period.stop.toInt - first) / w).toNat, (isFirstStart_iff h.1).mpr rfl, hslots,
      lt_count_iff (Int.natCast_pos.mpr h.1), hskipped⟩

/-- Slots of ten minutes: a period from before midnight, one that starts at the least minute, and
one so late that the next multiple of ten is past the greatest minute. -/
theorem slice_in_integers_both_ends :
    let g : Grid := ⟨10, true⟩
    let early : Interval := ⟨-2147483648, -2147483625⟩
    let late : Interval := ⟨2147483641, 2147483647⟩
    (0 < g.granularity.toNat ∧ g.granularity.toNat ≤ Minute.greatest) ∧
      (g.slice [⟨-25, 5⟩, early, late]).map bounds =
        [(-20, -10), (-10, 0), (-2147483640, -2147483630)] ∧
      ∃ width first, g.width? = some width ∧ g.origin? width late.start = none ∧
        g.IsFirstStart late.start.toInt first ∧ late.stop.toInt < first + 10 := by
  intro g early late
  have hgrid : 0 < g.granularity.toNat ∧ g.granularity.toNat ≤ Minute.greatest := by decide
  obtain ⟨width, hwidth, hvalue, _, hperiods, _⟩ := slice_in_integers hgrid [late]
  obtain ⟨first, _, hfirst, _, _, hskipped⟩ := hperiods late
  have hten : width = ⟨10, by decide⟩ := Subtype.ext (Int32.toInt_inj.mp hvalue)
  have hslots := bounds_slice hwidth [⟨-25, 5⟩, early, late]
  have hnone : g.origin? width late.start = none := by
    subst hten
    decide
  rw [hvalue] at hslots
  exact ⟨hgrid, hslots.trans (by decide), width, first, hwidth, hnone, hfirst, hskipped hnone⟩

end Grid

end OpeningHours
