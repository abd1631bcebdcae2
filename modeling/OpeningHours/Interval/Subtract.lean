import OpeningHours.Interval.Reduce

/-! The difference of two lists of intervals.

Both sides are reduced; then every cut is applied in turn to the pieces that the
cuts before it left. A cut that only touches a piece leaves it as it is. -/
namespace OpeningHours.Interval

/-- What is left of an interval outside a cut: up to a left and a right piece. -/
def remove (cut i : Interval) : List Interval :=
  if cut.start < i.stop ∧ i.start < cut.stop then
    (if i.start < cut.start then [⟨i.start, cut.start⟩] else []) ++
      (if cut.stop < i.stop then [⟨cut.stop, i.stop⟩] else [])
  else [i]

/-- The difference of lists that are already reduced. -/
def subtractReduced (opening closing : List Interval) : List Interval :=
  (closing.foldl (fun pieces cut => pieces.flatMap (remove cut)) opening).mergeSort startsBefore

def subtract (opening closing : List Interval) : List Interval :=
  subtractReduced (reduce opening) (reduce closing)

end OpeningHours.Interval
