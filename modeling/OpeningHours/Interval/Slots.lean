import OpeningHours.Interval.Basic

/-! Slots: periods cut into pieces of one width.

A slot is kept only if it fits into its period, so the end of a period that is
shorter than the width has no slot. On an aligned grid slots start at multiples
of the width, counted from midnight. -/
namespace OpeningHours

/-- How periods are cut: the width of a slot in minutes, and whether slots start
at multiples of it. -/
structure Grid where
  granularity : UInt32
  aligned : Bool
  deriving DecidableEq, Repr

namespace Grid

/-- The width as a minute; a granularity of zero, or too large for a minute, has none. -/
def width? (g : Grid) : Option { w : Minute // 0 < w.toInt } :=
  if h : 0 < g.granularity.toNat ∧ g.granularity.toNat ≤ Minute.greatest then
    some ⟨Int32.ofNat g.granularity.toNat, by
      rw [Int32.toInt_ofNat_of_lt (Nat.lt_succ_of_le h.2)]; omega⟩
  else none

/-- The slots of one period from `start` on. -/
def slotsFrom (width : { w : Minute // 0 < w.toInt }) (stop start : Minute) : List Interval :=
  match _h : Minute.add? start width with
  | none => []
  | some next =>
    if _fits : next ≤ stop then ⟨start, next⟩ :: slotsFrom width stop next else []
termination_by (stop.toInt - start.toInt).toNat
decreasing_by
  have := Minute.toInt_of_add? _h
  have := Int32.le_iff_toInt_le.mp _fits
  have := width.property
  omega

/-- Where the slots of a period begin, unless that is no minute. -/
def origin? (g : Grid) (width start : Minute) : Option Minute :=
  if g.aligned then Minute.roundUp? width start else some start

def slotsOfPeriod (g : Grid) (width : { w : Minute // 0 < w.toInt }) (period : Interval) :
    List Interval :=
  match g.origin? width period.start with
  | none => []
  | some start => slotsFrom width period.stop start

/-- The slots of all periods, in the order of the periods. -/
def slice (g : Grid) (periods : List Interval) : List Interval :=
  match g.width? with
  | none => []
  | some width => periods.flatMap (g.slotsOfPeriod width)

end Grid

end OpeningHours
