import Mathlib.Data.List.Basic
import Mathlib.Order.Bounds.Basic
import OpeningHours.Interval.Slots
import OpeningHours.Proofs.Interval.Cover

/-! Slots in exact integers.

The slots of a period are the pieces of one width, side by side from the first start
on, that end no later than the period (`pieces`). On an aligned grid the first start
is the least multiple of the width that is not before the period
(`isLeast_firstMultiple`). Machine numbers do not show: a sum or a product that they
refuse lies after every minute, so no piece is lost (`bounds_slotsOfPeriod`). Periods
with gaps between them have slots that do not overlap (`pairwise_slice`). -/
namespace OpeningHours

/-! ### Multiples of the width -/

namespace Minute

theorem add?_eq_none {a b : Minute} (h : add? a b = none) : ¬ InRange (a.toInt + b.toInt) := by
  intro hr
  rw [add?, if_pos hr] at h
  cases h

theorem mul?_eq_none {a b : Minute} (h : mul? a b = none) : ¬ InRange (a.toInt * b.toInt) := by
  intro hr
  rw [mul?, if_pos hr] at h
  cases h

theorem toInt_le_greatest (a : Minute) : a.toInt ≤ greatest := (inRange_toInt a).2

/-- The least multiple of a width that is not below an integer. -/
def firstMultiple (width a : Int) : Int := a + -a % width

section
variable {width a : Int}

theorem isLeast_firstMultiple (hw : 0 < width) (a : Int) :
    IsLeast {x | width ∣ x ∧ a ≤ x} (firstMultiple width a) := by
  refine ⟨⟨?_, ?_⟩, ?_⟩
  · apply Int.dvd_of_emod_eq_zero
    rw [firstMultiple, Int.add_emod_emod, Int.add_right_neg, Int.zero_emod]
  · exact Int.le_add_of_nonneg_right (Int.emod_nonneg _ (Int.ne_of_gt hw))
  · rintro x ⟨⟨k, rfl⟩, hle⟩
    -- What is added to `a` is the remainder of a number that leads to `x`.
    have hmod : -a % width = (width * k - a) % width := by
      rw [Int.sub_eq_add_neg, Int.mul_add_emod_self_left]
    have hquotient : 0 ≤ width * ((width * k - a) / width) :=
      Int.mul_nonneg (Int.le_of_lt hw) (Int.ediv_nonneg (by omega) (Int.le_of_lt hw))
    have hsum := Int.mul_ediv_add_emod (width * k - a) width
    rw [firstMultiple, hmod]
    omega

theorem firstMultiple_of_emod_eq_zero (h : a % width = 0) : firstMultiple width a = a := by
  have hdvd : width ∣ -a := Int.dvd_neg.mpr (Int.dvd_of_emod_eq_zero h)
  rw [firstMultiple, Int.emod_eq_zero_of_dvd hdvd, Int.add_zero]

theorem firstMultiple_of_emod_ne_zero (hw : 0 < width) (h : a % width ≠ 0) :
    firstMultiple width a = (a / width + 1) * width := by
  have hdvd : ¬ width ∣ a := fun hd => h (Int.emod_eq_zero_of_dvd hd)
  have hsum := Int.mul_ediv_add_emod a width
  have habs : (width.natAbs : Int) = width := Int.natAbs_of_nonneg (Int.le_of_lt hw)
  rw [firstMultiple, Int.neg_emod, if_neg hdvd, habs, Int.add_mul, Int.mul_comm (a / width)]
  omega

end

/-! ### Rounding up in machine numbers -/

section
variable {width a : Minute} (hw : 0 < width.toInt)
include hw

theorem toInt_remainder : (remainder a width).toInt = a.toInt % width.toInt := by
  have hnonneg := Int.emod_nonneg a.toInt (Int.ne_of_gt hw)
  have hlt := Int.emod_lt_of_pos a.toInt hw
  have hwidth := width.toInt_lt
  exact Int32.toInt_ofInt_of_le (by omega) (by omega)

theorem toInt_quotient : (quotient a width).toInt = a.toInt / width.toInt := by
  obtain ⟨hleast, hgreatest⟩ := inRange_toInt a
  have hlow : -2147483648 ≤ a.toInt / width.toInt :=
    (Int.le_ediv_iff_mul_le hw).mpr (by omega)
  have hhigh : a.toInt / width.toInt < 2147483648 := Int.ediv_lt_of_lt_mul hw (by omega)
  exact Int32.toInt_ofInt_of_le hlow hhigh

/-- A width that leaves a remainder is at least two, so its quotients stay clear of the ends. -/
theorem toInt_quotient_add_one (h : a.toInt % width.toInt ≠ 0) :
    (quotient a width + 1).toInt = a.toInt / width.toInt + 1 := by
  have htwo : 2 ≤ width.toInt := by
    have hne : width.toInt ≠ 1 := fun hone => h (by rw [hone, Int.emod_one])
    omega
  obtain ⟨hleast, hgreatest⟩ := inRange_toInt a
  have hlow : -2147483648 ≤ a.toInt / width.toInt :=
    (Int.le_ediv_iff_mul_le hw).mpr (by omega)
  have hhigh : a.toInt / width.toInt < 1073741824 := Int.ediv_lt_of_lt_mul hw (by omega)
  have hone : (1 : Int32).toInt = 1 := by decide
  rw [Int32.toInt_add, toInt_quotient hw, hone]
  exact Int.bmod_eq_of_le (by omega) (by omega)

/-- The multiple that rounding finds, and that it misses only after the greatest minute. -/
theorem roundUp?_cases :
    (∃ b, roundUp? width a = some b ∧ b.toInt = firstMultiple width.toInt a.toInt) ∨
      roundUp? width a = none ∧ greatest < firstMultiple width.toInt a.toInt := by
  have hzero : remainder a width = 0 ↔ a.toInt % width.toInt = 0 := by
    rw [← toInt_remainder hw, ← Int32.toInt_inj]
    rfl
  unfold roundUp?
  split
  · rename_i hrem
    exact .inl ⟨a, rfl, (firstMultiple_of_emod_eq_zero (hzero.mp hrem)).symm⟩
  · rename_i hrem
    have hne : a.toInt % width.toInt ≠ 0 := fun h => hrem (hzero.mpr h)
    have hfirst := firstMultiple_of_emod_ne_zero hw hne
    rw [← toInt_quotient_add_one hw hne] at hfirst
    cases hmul : mul? (quotient a width + 1) width with
    | some b => exact .inl ⟨b, rfl, (toInt_of_mul? hmul).trans hfirst.symm⟩
    | none =>
      have hout := mul?_eq_none hmul
      have hle : a.toInt ≤ firstMultiple width.toInt a.toInt := (isLeast_firstMultiple hw _).1.2
      have hlow := (inRange_toInt a).1
      refine .inr ⟨rfl, Int.not_le.mp fun hhigh => hout ⟨?_, ?_⟩⟩
      · rw [← hfirst]; exact Int.le_trans hlow hle
      · rw [← hfirst]; exact hhigh

end

end Minute

/-! ### Pieces of one width -/

namespace Grid

/-- The pieces of one width from `start` on, side by side, that end no later than `stop`. -/
def pieces (width start stop : Int) : List (Int × Int) :=
  (List.range ((stop - start) / width).toNat).map fun i : Nat =>
    (start + i * width, start + (i + 1) * width)

section
variable {width start stop : Int} (hw : 0 < width)
include hw

theorem pieces_eq_nil (h : stop < start + width) : pieces width start stop = [] := by
  have hcount : (stop - start) / width < 1 := Int.ediv_lt_of_lt_mul hw (by omega)
  rw [pieces, Int.toNat_of_nonpos (by omega)]
  rfl

theorem pieces_eq_cons (h : start + width ≤ stop) :
    pieces width start stop = (start, start + width) :: pieces width (start + width) stop := by
  have hshift : stop - start = stop - (start + width) + width := by omega
  have hrest : 0 ≤ (stop - (start + width)) / width :=
    Int.ediv_nonneg (by omega) (Int.le_of_lt hw)
  have hcount : ((stop - start) / width).toNat = ((stop - (start + width)) / width).toNat + 1 := by
    rw [hshift, Int.add_ediv_of_dvd_right (Int.dvd_refl width), Int.ediv_self (Int.ne_of_gt hw)]
    omega
  rw [pieces, hcount, List.range_succ_eq_map, List.map_cons, List.map_map, pieces]
  simp only [Function.comp_def, Nat.succ_eq_add_one, Int.natCast_add, Int.natCast_zero,
    Int.natCast_one, Int.add_mul, Int.zero_mul, Int.one_mul, Int.add_zero, Int.zero_add]
  congr 1
  apply List.map_congr_left
  intro i _
  rw [Prod.mk.injEq]
  constructor <;> omega

/-- The number of a piece is below the count exactly if the piece fits. -/
theorem lt_count_iff (i : Nat) :
    i < ((stop - start) / width).toNat ↔ start + (i + 1) * width ≤ stop := by
  have hle := Int.le_ediv_iff_mul_le (a := (i + 1 : Int)) (b := stop - start) hw
  omega

theorem mem_pieces {a b : Int} : (a, b) ∈ pieces width start stop ↔
    ∃ i : Nat, a = start + i * width ∧ b = start + (i + 1) * width ∧ b ≤ stop := by
  rw [pieces, List.mem_map]
  constructor
  · rintro ⟨i, hi, heq⟩
    cases heq
    exact ⟨i, rfl, rfl, (lt_count_iff hw i).mp (List.mem_range.mp hi)⟩
  · rintro ⟨i, rfl, rfl, hb⟩
    exact ⟨i, List.mem_range.mpr ((lt_count_iff hw i).mpr hb), rfl⟩

/-- A piece has the width, and lies between `start` and `stop`. -/
theorem within_of_mem_pieces {x : Int × Int} (h : x ∈ pieces width start stop) :
    start ≤ x.1 ∧ x.2 - x.1 = width ∧ x.2 ≤ stop := by
  obtain ⟨i, hi, hnext, hstop⟩ := (mem_pieces hw).mp h
  have hnonneg : 0 ≤ (i : Int) * width :=
    Int.mul_nonneg (Int.natCast_nonneg i) (Int.le_of_lt hw)
  rw [Int.add_mul, Int.one_mul] at hnext
  omega

theorem pairwise_pieces : (pieces width start stop).Pairwise fun a b => a.2 ≤ b.1 := by
  apply List.pairwise_map.mpr
  apply List.pairwise_lt_range.imp
  intro i j hij
  have hmul : (i + 1 : Int) * width ≤ j * width :=
    Int.mul_le_mul_of_nonneg_right (by omega) (Int.le_of_lt hw)
  show start + (i + 1) * width ≤ start + j * width
  omega

end

/-! ### Slots are pieces -/

/-- The bounds of an interval in integers. -/
def bounds (i : Interval) : Int × Int := (i.start.toInt, i.stop.toInt)

variable (width : { w : Minute // 0 < w.toInt })

theorem bounds_slotsFrom (stop start : Minute) :
    (slotsFrom width stop start).map bounds =
      pieces width.val.toInt start.toInt stop.toInt := by
  have hw := width.property
  fun_induction slotsFrom width stop start with
  | case1 start hnone =>
    have hout := Minute.add?_eq_none hnone
    have hstop := stop.toInt_le_greatest
    have hlow := (Minute.inRange_toInt start).1
    rw [pieces_eq_nil hw]
    · rfl
    · unfold Minute.InRange at hout
      unfold Minute.greatest at hstop
      omega
  | case2 start next hnext hfits ih =>
    have hsum := Minute.toInt_of_add? hnext
    have hle := Int32.le_iff_toInt_le.mp hfits
    rw [pieces_eq_cons hw (hsum ▸ hle), List.map_cons, ih, bounds, hsum]
  | case3 start next hnext hfits =>
    have hsum := Minute.toInt_of_add? hnext
    rw [Int32.le_iff_toInt_le] at hfits
    rw [pieces_eq_nil hw (by omega)]
    rfl

/-- Where the slots of a period begin. -/
def firstStart (g : Grid) (width start : Int) : Int :=
  if g.aligned then Minute.firstMultiple width start else start

/-- **The slots of a period** with any bounds. -/
theorem bounds_slotsOfPeriod (g : Grid) (period : Interval) :
    (g.slotsOfPeriod width period).map bounds =
      pieces width.val.toInt (g.firstStart width.val.toInt period.start.toInt)
        period.stop.toInt := by
  have hw := width.property
  unfold slotsOfPeriod origin? firstStart
  cases g.aligned with
  | false => exact bounds_slotsFrom width period.stop period.start
  | true =>
    simp only [if_true]
    rcases Minute.roundUp?_cases (a := period.start) hw with ⟨b, hb, hfirst⟩ | ⟨hnone, hlarge⟩
    · rw [hb, ← hfirst]
      exact bounds_slotsFrom width period.stop b
    · have hstop := period.stop.toInt_le_greatest
      rw [hnone, pieces_eq_nil hw (by omega)]
      rfl

theorem le_firstStart (g : Grid) {w : Int} (hw : 0 < w) (start : Int) :
    start ≤ g.firstStart w start := by
  unfold firstStart
  split
  · exact (Minute.isLeast_firstMultiple hw start).1.2
  · exact Int.le_refl _

/-- The start of a period, or on an aligned grid the least multiple of the width that is not
before it. -/
def IsFirstStart (g : Grid) (start first : Int) : Prop :=
  if g.aligned then IsLeast {x | (g.granularity.toNat : Int) ∣ x ∧ start ≤ x} first
  else first = start

section
variable {g : Grid} (hpos : 0 < g.granularity.toNat) {start first : Int}
include hpos

theorem isFirstStart_iff :
    g.IsFirstStart start first ↔ g.firstStart g.granularity.toNat start = first := by
  unfold IsFirstStart firstStart
  cases g.aligned with
  | false => exact eq_comm
  | true =>
    have hleast := Minute.isLeast_firstMultiple (Int.natCast_pos.mpr hpos) start
    exact ⟨hleast.unique, fun h => h ▸ hleast⟩

theorem IsFirstStart.le (h : g.IsFirstStart start first) : start ≤ first := by
  rw [← (isFirstStart_iff hpos).mp h]
  exact g.le_firstStart (Int.natCast_pos.mpr hpos) start

end

/-! ### Slots of a list of periods -/

/-- A granularity that is a positive minute is the width. -/
theorem width?_eq_some {g : Grid}
    (h : 0 < g.granularity.toNat ∧ g.granularity.toNat ≤ Minute.greatest) :
    ∃ width, g.width? = some width ∧ width.val.toInt = g.granularity.toNat := by
  rw [width?, dif_pos h]
  exact ⟨_, rfl, Int32.toInt_ofNat_of_lt (Nat.lt_succ_of_le h.2)⟩

variable {width} {g : Grid} (hwidth : g.width? = some width)
include hwidth

theorem bounds_slice (periods : List Interval) :
    (g.slice periods).map bounds = periods.flatMap fun period =>
      pieces width.val.toInt (g.firstStart width.val.toInt period.start.toInt)
        period.stop.toInt := by
  simp only [slice, hwidth, List.map_flatMap, bounds_slotsOfPeriod]

theorem mem_bounds_slice {periods : List Interval} {a b : Int} :
    (a, b) ∈ (g.slice periods).map bounds ↔ ∃ period ∈ periods, ∃ i : Nat,
      a = g.firstStart width.val.toInt period.start.toInt + i * width.val.toInt ∧
      b = g.firstStart width.val.toInt period.start.toInt + (i + 1) * width.val.toInt ∧
      b ≤ period.stop.toInt := by
  simp only [bounds_slice hwidth, List.mem_flatMap, mem_pieces width.property]

/-- Periods with gaps between them have slots that follow one another. -/
theorem pairwise_slice {periods : List Interval} (h : Interval.Normal periods) :
    (g.slice periods).Pairwise fun a b => a.stop.toInt ≤ b.start.toInt := by
  have hpieces : ((g.slice periods).map bounds).Pairwise fun a b => a.2 ≤ b.1 := by
    rw [bounds_slice hwidth]
    refine List.pairwise_flatMap.mpr ⟨fun period _ => pairwise_pieces width.property, ?_⟩
    apply h.apart.imp
    intro a b hgap x hx y hy
    have hstop := (within_of_mem_pieces width.property hx).2.2
    have hstart := (within_of_mem_pieces width.property hy).1
    have hfirst := g.le_firstStart width.property b.start.toInt
    omega
  exact List.pairwise_map.mp hpieces

/-! ### Slots on an aligned grid -/

omit hwidth in
/-- From the first multiple on, the pieces of a width are the multiples from which the width
fits. -/
theorem mem_pieces_firstMultiple {w start stop a b : Int} (hw : 0 < w) :
    (a, b) ∈ pieces w (Minute.firstMultiple w start) stop ↔
      w ∣ a ∧ b = a + w ∧ start ≤ a ∧ b ≤ stop := by
  obtain ⟨⟨hdvd, hle⟩, hleast⟩ := Minute.isLeast_firstMultiple hw start
  rw [mem_pieces hw]
  constructor
  · intro h
    obtain ⟨i, ha, hb, hstop⟩ := h
    have hshift : 0 ≤ (i : Int) * w := Int.mul_nonneg (Int.natCast_nonneg i) (Int.le_of_lt hw)
    rw [Int.add_mul, Int.one_mul] at hb
    refine ⟨?_, by omega, by omega, hstop⟩
    rw [ha]
    exact Int.dvd_add hdvd (Int.dvd_mul_left _ _)
  · intro h
    obtain ⟨hmultiple, hb, hstart, hstop⟩ := h
    -- Both are multiples, so whole widths lie between them.
    obtain ⟨k, hk⟩ := Int.dvd_sub hmultiple hdvd
    have hfirst : Minute.firstMultiple w start ≤ a := hleast ⟨hmultiple, hstart⟩
    have hnonneg : 0 ≤ k := Int.nonneg_of_mul_nonneg_right (by omega) hw
    obtain ⟨i, rfl⟩ := Int.eq_ofNat_of_zero_le hnonneg
    refine ⟨i, ?_, ?_, hstop⟩
    · rw [Int.mul_comm]
      omega
    · rw [Int.add_mul, Int.one_mul, Int.mul_comm]
      omega

/-- **The slots of an aligned grid** are the intervals of one width that start at a multiple of it
and hold covered minutes only. -/
theorem mem_slice_aligned (haligned : g.aligned = true) {periods : List Interval}
    (h : Interval.Normal periods) {slot : Interval} :
    slot ∈ g.slice periods ↔ width.val.toInt ∣ slot.start.toInt ∧
      slot.stop.toInt = slot.start.toInt + width.val.toInt ∧
      ∀ m, slot.start.toInt ≤ m → m < slot.stop.toInt → Interval.CoveredBy periods m := by
  have hw := width.property
  have hbounds : Function.Injective bounds := fun i j hij =>
    Interval.ext_toInt (congrArg Prod.fst hij) (congrArg Prod.snd hij)
  rw [← List.mem_map_of_injective hbounds, bounds_slice hwidth, List.mem_flatMap]
  simp only [firstStart, haligned, if_true, bounds, mem_pieces_firstMultiple hw]
  constructor
  · intro hmem
    obtain ⟨period, hperiod, hdvd, hstop, hwithin⟩ := hmem
    exact ⟨hdvd, hstop, (h.exists_within_iff (by omega)).mp ⟨period, hperiod, hwithin⟩⟩
  · intro hslot
    obtain ⟨hdvd, hstop, hcover⟩ := hslot
    obtain ⟨period, hperiod, hwithin⟩ := (h.exists_within_iff (by omega)).mpr hcover
    exact ⟨period, hperiod, hdvd, hstop, hwithin⟩

/-- Slots that follow one another have ascending starts. -/
theorem pairwise_start_slice (haligned : g.aligned = true) {periods : List Interval}
    (h : Interval.Normal periods) :
    (g.slice periods).Pairwise fun a b => a.start.toInt < b.start.toInt := by
  have hw := width.property
  refine (pairwise_slice hwidth h).imp_of_mem fun {a b} ha _ hab => ?_
  obtain ⟨_, hstop, _⟩ := (mem_slice_aligned hwidth haligned h).mp ha
  omega

end Grid

end OpeningHours
