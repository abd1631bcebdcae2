import OpeningHours.Interval.Subtract
import OpeningHours.Proofs.Interval.NormalForm

/-! `subtract` computes the difference of two lists, in normal form.

One cut leaves of an interval what the cut does not cover, in at most two pieces
inside the interval. A proper cut keeps a list in normal form, so the pieces stay
in normal form through all cuts (`normal_cuts`), and the last sort has nothing to
do. -/
namespace OpeningHours.Interval

/-! ### One cut of one interval -/

theorem coveredBy_remove (cut i : Interval) (m : Int) :
    CoveredBy (remove cut i) m ↔ i.Covers m ∧ ¬ cut.Covers m := by
  unfold remove
  simp only [Int32.lt_iff_toInt_lt]
  split
  · rw [coveredBy_append]
    split <;> split <;>
      simp only [coveredBy_cons, coveredBy_nil, Covers, or_false, false_or, false_iff] <;> omega
  · simp only [coveredBy_cons, coveredBy_nil, Covers, or_false]
    omega

/-- The pieces lie inside the interval. -/
theorem within_of_mem_remove {cut i j : Interval} (h : j ∈ remove cut i) :
    i.start.toInt ≤ j.start.toInt ∧ j.stop.toInt ≤ i.stop.toInt := by
  unfold remove at h
  simp only [Int32.lt_iff_toInt_lt] at h
  split at h
  · rcases List.mem_append.mp h with h | h
    · split at h
      · rw [List.mem_singleton.mp h]
        exact ⟨Int.le_refl _, by show cut.start.toInt ≤ _; omega⟩
      · cases h
    · split at h
      · rw [List.mem_singleton.mp h]
        exact ⟨by show _ ≤ cut.stop.toInt; omega, Int.le_refl _⟩
      · cases h
  · rw [List.mem_singleton.mp h]
    exact ⟨Int.le_refl _, Int.le_refl _⟩

/-- The pieces are in normal form: the cut is the gap between them. -/
theorem normal_remove {cut i : Interval} (hcut : cut.start.toInt < cut.stop.toInt)
    (hi : i.InDay) : Normal (remove cut i) := by
  obtain ⟨hlow, hproper, hhigh⟩ := hi
  unfold remove
  simp only [Int32.lt_iff_toInt_lt]
  split
  · refine normal_append.mpr ⟨?_, ?_, ?_⟩
    · split
      · exact normal_cons.mpr ⟨⟨hlow, ‹_›, by simp only; omega⟩, by simp, normal_nil⟩
      · exact normal_nil
    · split
      · exact normal_cons.mpr ⟨⟨by simp only; omega, ‹_›, hhigh⟩, by simp, normal_nil⟩
      · exact normal_nil
    · intro a ha b hb
      split at ha <;> split at hb <;> simp_all
  · exact normal_cons.mpr ⟨⟨hlow, hproper, hhigh⟩, by simp, normal_nil⟩

/-! ### Cuts of a list -/

theorem normal_flatMap_remove {cut : Interval} (hcut : cut.start.toInt < cut.stop.toInt)
    {pieces : List Interval} (h : Normal pieces) : Normal (pieces.flatMap (remove cut)) := by
  induction pieces with
  | nil => exact normal_nil
  | cons i rest ih =>
    obtain ⟨hi, hgap, hrest⟩ := normal_cons.mp h
    rw [List.flatMap_cons]
    refine normal_append.mpr ⟨normal_remove hcut hi, ih hrest, fun a ha b hb => ?_⟩
    -- A piece of `i` and a piece of a later interval keep the gap between the two.
    obtain ⟨j, hj, hb⟩ := List.mem_flatMap.mp hb
    have hstop := (within_of_mem_remove ha).2
    have hstart := (within_of_mem_remove hb).1
    have := hgap j hj
    omega

theorem normal_cuts {pieces : List Interval} (h : Normal pieces) (cuts : List Interval)
    (hcuts : ∀ cut ∈ cuts, cut.start.toInt < cut.stop.toInt) :
    Normal (cuts.foldl (fun pieces cut => pieces.flatMap (remove cut)) pieces) := by
  induction cuts generalizing pieces with
  | nil => exact h
  | cons cut rest ih =>
    obtain ⟨hcut, hrest⟩ := List.forall_mem_cons.mp hcuts
    exact ih (normal_flatMap_remove hcut h) hrest

theorem coveredBy_flatMap_remove (cut : Interval) (pieces : List Interval) (m : Int) :
    CoveredBy (pieces.flatMap (remove cut)) m ↔ CoveredBy pieces m ∧ ¬ cut.Covers m := by
  rw [coveredBy_flatMap]
  constructor
  · intro hm
    obtain ⟨i, hi, hm⟩ := hm
    obtain ⟨hcover, hcut⟩ := (coveredBy_remove cut i m).mp hm
    exact ⟨⟨i, hi, hcover⟩, hcut⟩
  · intro hm
    obtain ⟨⟨i, hi, hcover⟩, hcut⟩ := hm
    exact ⟨i, hi, (coveredBy_remove cut i m).mpr ⟨hcover, hcut⟩⟩

theorem coveredBy_cuts (pieces cuts : List Interval) (m : Int) :
    CoveredBy (cuts.foldl (fun pieces cut => pieces.flatMap (remove cut)) pieces) m ↔
      CoveredBy pieces m ∧ ¬ CoveredBy cuts m := by
  induction cuts generalizing pieces with
  | nil => simp
  | cons cut rest ih =>
    rw [List.foldl_cons, ih, coveredBy_flatMap_remove, coveredBy_cons, not_or, and_assoc]

/-! ### The difference -/

/-- A list in normal form is sorted already. -/
theorem Normal.mergeSort_eq {l : List Interval} (h : Normal l) : l.mergeSort startsBefore = l := by
  apply List.mergeSort_of_pairwise
  refine h.apart.imp_of_mem fun {a b} ha _ hab => (startsBefore_iff a b).mpr ?_
  have := (h.inDay a ha).2.1
  omega

/-- Between reduced lists the difference is what the cuts leave, in the order in which they leave
it. -/
theorem subtractReduced_eq {opening closing : List Interval} (ho : Normal opening)
    (hc : Normal closing) :
    subtractReduced opening closing =
      closing.foldl (fun pieces cut => pieces.flatMap (remove cut)) opening :=
  (normal_cuts ho closing fun cut hcut => (hc.inDay cut hcut).2.1).mergeSort_eq

theorem normal_subtract (opening closing : List Interval) : Normal (subtract opening closing) := by
  have hc := normal_reduce closing
  unfold subtract
  rw [subtractReduced_eq (normal_reduce opening) hc]
  exact normal_cuts (normal_reduce opening) _ fun cut hcut => (hc.inDay cut hcut).2.1

/-- The minutes of the day that the one list covers and the other does not. -/
theorem coveredBy_subtract (opening closing : List Interval) (m : Int) :
    CoveredBy (subtract opening closing) m ↔
      0 ≤ m ∧ m < 1440 ∧ CoveredBy opening m ∧ ¬ CoveredBy closing m := by
  unfold subtract
  rw [subtractReduced_eq (normal_reduce opening) (normal_reduce closing), coveredBy_cuts,
    coveredBy_reduce, coveredBy_reduce]
  constructor
  · intro hm
    obtain ⟨⟨hlow, hhigh, hopen⟩, hclosed⟩ := hm
    exact ⟨hlow, hhigh, hopen, fun h => hclosed ⟨hlow, hhigh, h⟩⟩
  · intro hm
    obtain ⟨hlow, hhigh, hopen, hclosed⟩ := hm
    exact ⟨⟨hlow, hhigh, hopen⟩, fun h => hclosed h.2.2⟩

/-- The difference is the one list in normal form that covers these minutes. -/
theorem eq_subtract {l opening closing : List Interval} (hl : Normal l)
    (h : ∀ m, CoveredBy l m ↔
      0 ≤ m ∧ m < 1440 ∧ CoveredBy opening m ∧ ¬ CoveredBy closing m) :
    l = subtract opening closing :=
  hl.eq_of_coveredBy (normal_subtract opening closing) fun m =>
    (h m).trans (coveredBy_subtract opening closing m).symm

/-- **The difference** of any two lists covers the minutes of the day that the one covers and the
other does not. It is in normal form, so taking its normal form changes nothing; and it comes out
of the cuts sorted, so the sort after them changes nothing either. -/
theorem subtract_normal_form (opening closing : List Interval) :
    (∀ m, CoveredBy (subtract opening closing) m ↔
        0 ≤ m ∧ m < 1440 ∧ CoveredBy opening m ∧ ¬ CoveredBy closing m) ∧
      Normal (subtract opening closing) ∧
      reduce (subtract opening closing) = subtract opening closing ∧
      subtract opening closing =
        (reduce closing).foldl (fun pieces cut => pieces.flatMap (remove cut))
          (reduce opening) := by
  have hnormal := normal_subtract opening closing
  refine ⟨coveredBy_subtract opening closing, hnormal, hnormal.reduce_eq, ?_⟩
  exact subtractReduced_eq (normal_reduce opening) (normal_reduce closing)

end OpeningHours.Interval
