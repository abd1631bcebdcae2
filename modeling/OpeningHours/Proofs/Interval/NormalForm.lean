import OpeningHours.Interval.Reduce
import OpeningHours.Proofs.Interval.Cover

/-! `reduce` computes the normal form.

Pulled into the day, a list covers the minutes of the day that it covered before.
`sweep` runs over intervals sorted by start, and the interval in hand starts no
later than any that is left; so it emits a list in normal form that covers what it
was given (`normal_sweep`, `coveredBy_sweep`). Together: `normal_reduce` and
`coveredBy_reduce`, from which the normal form is canonical: lists have the same one
just if they cover the same minutes of the day (`reduce_eq_iff`). -/
namespace OpeningHours.Interval

/-- Ascending by start; nothing is said about ends. -/
def Sorted (l : List Interval) : Prop := l.Pairwise fun a b => a.start.toInt ≤ b.start.toInt

/-! ### Into the day -/

theorem isProper_iff (i : Interval) : i.isProper = true ↔ i.start.toInt < i.stop.toInt := by
  simp only [isProper, decide_eq_true_eq, Int32.lt_iff_toInt_lt]

/-- The minutes of the day survive the clamp, and no others come in. -/
theorem covers_clamp (i : Interval) (m : Int) :
    i.clamp.Covers m ↔ 0 ≤ m ∧ m < 1440 ∧ i.Covers m := by
  simp only [Covers, clamp, Minute.toInt_clamp]
  omega

theorem coveredBy_withinDay (l : List Interval) (m : Int) :
    CoveredBy (withinDay l) m ↔ 0 ≤ m ∧ m < 1440 ∧ CoveredBy l m := by
  constructor
  · intro hm
    obtain ⟨i, hi, hm⟩ := hm
    obtain ⟨hmem, _⟩ := List.mem_filter.mp hi
    obtain ⟨j, hj, rfl⟩ := List.mem_map.mp hmem
    obtain ⟨hlow, hhigh, hcover⟩ := (covers_clamp j m).mp hm
    exact ⟨hlow, hhigh, j, hj, hcover⟩
  · intro hm
    obtain ⟨hlow, hhigh, j, hj, hcover⟩ := hm
    have hm : j.clamp.Covers m := (covers_clamp j m).mpr ⟨hlow, hhigh, hcover⟩
    -- An interval that covers a minute is not one of those dropped as empty.
    have hproper : j.clamp.isProper = true := (isProper_iff _).mpr (Int.lt_of_le_of_lt hm.1 hm.2)
    exact ⟨j.clamp, List.mem_filter.mpr ⟨List.mem_map.mpr ⟨j, hj, rfl⟩, hproper⟩, hm⟩

theorem inDay_of_mem_withinDay {l : List Interval} {i : Interval} (h : i ∈ withinDay l) :
    i.InDay := by
  obtain ⟨hmem, hproper⟩ := List.mem_filter.mp h
  obtain ⟨j, _, rfl⟩ := List.mem_map.mp hmem
  rw [isProper_iff] at hproper
  refine ⟨?_, hproper, ?_⟩ <;> simp only [clamp, Minute.toInt_clamp] <;> omega

/-! ### Sorting by start -/

theorem startsBefore_iff (a b : Interval) :
    startsBefore a b = true ↔ a.start.toInt ≤ b.start.toInt := by
  simp only [startsBefore, decide_eq_true_eq, Int32.le_iff_toInt_le]

theorem sorted_mergeSort (l : List Interval) : Sorted (l.mergeSort startsBefore) := by
  have hsorted : (l.mergeSort startsBefore).Pairwise fun a b => startsBefore a b = true :=
    List.pairwise_mergeSort
      (fun a b c hab hbc => by rw [startsBefore_iff] at hab hbc ⊢; omega)
      (fun a b => by simp only [Bool.or_eq_true, startsBefore_iff]; omega) l
  exact hsorted.imp fun hab => (startsBefore_iff _ _).mp hab

/-! ### The sweep -/

/-- Whatever the sweep then holds starts where it held before, so the rest stays sorted after it. -/
theorem Sorted.skip {held next i : Interval} {rest : List Interval}
    (h : Sorted (held :: next :: rest)) (hi : i.start = held.start) : Sorted (i :: rest) := by
  obtain ⟨hfirst, hrest⟩ := List.pairwise_cons.mp h
  refine List.pairwise_cons.mpr ⟨fun j hj => ?_, (List.pairwise_cons.mp hrest).2⟩
  rw [hi]
  exact hfirst j (List.mem_cons_of_mem next hj)

theorem start_le_of_mem_sweep {held : Interval} {l : List Interval} (hs : Sorted (held :: l)) :
    ∀ i ∈ sweep held l, held.start.toInt ≤ i.start.toInt := by
  induction l generalizing held with
  | nil => simp [sweep]
  | cons next rest ih =>
    obtain ⟨hfirst, hrest⟩ := List.pairwise_cons.mp hs
    have hnext := hfirst next (List.mem_cons_self ..)
    have extended : Sorted ({held with stop := next.stop} :: rest) := hs.skip rfl
    unfold sweep
    split
    · exact ih extended
    · split
      · exact ih (hs.skip rfl)
      · intro i hi
        rcases List.mem_cons.mp hi with rfl | hi
        · exact Int.le_refl _
        · exact Int.le_trans hnext (ih hrest i hi)

/-- What the two tests of the sweep leave: the next interval starts after a gap. -/
theorem gap_of_not_merged {held next : Interval}
    (hstart : held.start.toInt ≤ next.start.toInt)
    (hmerge : ¬ (next.start ≤ held.stop ∧ held.stop < next.stop))
    (hinside : ¬ (held.start ≤ next.start ∧ next.stop ≤ held.stop)) :
    held.stop.toInt < next.start.toInt := by
  simp only [Int32.le_iff_toInt_le, Int32.lt_iff_toInt_lt] at hmerge hinside
  omega

theorem normal_sweep {held : Interval} {l : List Interval} (hs : Sorted (held :: l))
    (hd : ∀ i ∈ held :: l, i.InDay) : Normal (sweep held l) := by
  induction l generalizing held with
  | nil => exact normal_cons.mpr ⟨hd held (List.mem_cons_self ..), by simp, normal_nil⟩
  | cons next rest ih =>
    obtain ⟨hfirst, hrest⟩ := List.pairwise_cons.mp hs
    obtain ⟨hheld, hdrest⟩ := List.forall_mem_cons.mp hd
    obtain ⟨hnext, hdtail⟩ := List.forall_mem_cons.mp hdrest
    unfold sweep
    split
    · rename_i hmerge
      refine ih (hs.skip rfl) (List.forall_mem_cons.mpr ⟨?_, hdtail⟩)
      have hlt := Int32.lt_iff_toInt_lt.mp hmerge.2
      exact ⟨hheld.1, Int.lt_trans hheld.2.1 hlt, hnext.2.2⟩
    · rename_i hmerge
      split
      · exact ih (hs.skip rfl) (List.forall_mem_cons.mpr ⟨hheld, hdtail⟩)
      · rename_i hinside
        have hgap := gap_of_not_merged (hfirst next (List.mem_cons_self ..)) hmerge hinside
        refine normal_cons.mpr ⟨hheld, fun j hj => ?_, ih hrest hdrest⟩
        exact Int.lt_of_lt_of_le hgap (start_le_of_mem_sweep hrest j hj)

theorem coveredBy_sweep {held : Interval} {l : List Interval} (hs : Sorted (held :: l)) (m : Int) :
    CoveredBy (sweep held l) m ↔ CoveredBy (held :: l) m := by
  induction l generalizing held with
  | nil => rfl
  | cons next rest ih =>
    obtain ⟨hfirst, hrest⟩ := List.pairwise_cons.mp hs
    have hstart := hfirst next (List.mem_cons_self ..)
    have extended : Sorted ({held with stop := next.stop} :: rest) := hs.skip rfl
    unfold sweep
    split
    · rename_i hmerge
      rw [ih extended]
      simp only [coveredBy_cons, ← or_assoc, Covers]
      have hle := Int32.le_iff_toInt_le.mp hmerge.1
      have hlt := Int32.lt_iff_toInt_lt.mp hmerge.2
      apply or_congr_left
      omega
    · split
      · rename_i hinside
        rw [ih (hs.skip rfl)]
        simp only [coveredBy_cons, ← or_assoc, Covers]
        have hle := Int32.le_iff_toInt_le.mp hinside.2
        apply or_congr_left
        omega
      · rw [coveredBy_cons, ih hrest, ← coveredBy_cons]

/-! ### The normal form of a list -/

theorem normal_merge {l : List Interval} (hs : Sorted l) (hd : ∀ i ∈ l, i.InDay) :
    Normal (merge l) := by
  cases l with
  | nil => exact normal_nil
  | cons first rest => exact normal_sweep hs hd

theorem coveredBy_merge {l : List Interval} (hs : Sorted l) (m : Int) :
    CoveredBy (merge l) m ↔ CoveredBy l m := by
  cases l with
  | nil => rfl
  | cons first rest => exact coveredBy_sweep hs m

theorem normal_reduce (l : List Interval) : Normal (reduce l) := by
  refine normal_merge (sorted_mergeSort _) fun i hi => ?_
  exact inDay_of_mem_withinDay ((List.mergeSort_perm _ _).mem_iff.mp hi)

/-- The normal form covers the minutes of the day that the list covers. -/
theorem coveredBy_reduce (l : List Interval) (m : Int) :
    CoveredBy (reduce l) m ↔ 0 ≤ m ∧ m < 1440 ∧ CoveredBy l m := by
  unfold reduce
  rw [coveredBy_merge (sorted_mergeSort _), coveredBy_perm (List.mergeSort_perm _ _),
    coveredBy_withinDay]

/-- A list in normal form is its own normal form. -/
theorem Normal.reduce_eq {l : List Interval} (h : Normal l) : reduce l = l := by
  refine (normal_reduce l).eq_of_coveredBy h fun m => ?_
  rw [coveredBy_reduce]
  exact ⟨fun hm => hm.2.2, fun hm => ⟨(h.mem_day hm).1, (h.mem_day hm).2, hm⟩⟩

/-! ### What the normal form depends on -/

/-- Only the minutes of the day tell normal forms apart. -/
theorem reduce_eq_iff {a b : List Interval} :
    reduce a = reduce b ↔ ∀ m, 0 ≤ m → m < 1440 → (CoveredBy a m ↔ CoveredBy b m) := by
  constructor
  · intro heq m hlow hhigh
    have ha := coveredBy_reduce a m
    have hb := coveredBy_reduce b m
    rw [heq] at ha
    simp only [hlow, hhigh, true_and] at ha hb
    exact ha.symm.trans hb
  · intro h
    refine (normal_reduce a).eq_of_coveredBy (normal_reduce b) fun m => ?_
    rw [coveredBy_reduce, coveredBy_reduce, and_congr_right_iff]
    intro hlow
    rw [and_congr_right_iff]
    exact h m hlow

/-- An interval that adds no minute to a list: it is empty, runs backwards, or lies within one that
is there, as a repeated one does. -/
def AddsNothing (i : Interval) (l : List Interval) : Prop :=
  i.stop.toInt ≤ i.start.toInt ∨
    ∃ j ∈ l, j.start.toInt ≤ i.start.toInt ∧ i.stop.toInt ≤ j.stop.toInt

theorem AddsNothing.coveredBy {i : Interval} {l : List Interval} (h : i.AddsNothing l) {m : Int}
    (hm : i.Covers m) : CoveredBy l m := by
  obtain ⟨hlow, hhigh⟩ := hm
  rcases h with hempty | ⟨j, hj, hstart, hstop⟩
  · omega
  · exact ⟨j, hj, Int.le_trans hstart hlow, Int.lt_of_lt_of_le hhigh hstop⟩

/-- **The normal form is canonical.** It covers the minutes of the day that the list covers, and
lists have one normal form just if they cover the same minutes of the day. So taking it twice
changes nothing, nor does another order, or an interval anywhere in the list that adds nothing to
the others. -/
theorem reduce_canonical (a b : List Interval) :
    (∀ m, CoveredBy (reduce a) m ↔ 0 ≤ m ∧ m < 1440 ∧ CoveredBy a m) ∧
      Normal (reduce a) ∧
      (reduce a = reduce b ↔ ∀ m, 0 ≤ m → m < 1440 → (CoveredBy a m ↔ CoveredBy b m)) ∧
      reduce (reduce a) = reduce a ∧
      (a.Perm b → reduce a = reduce b) ∧
      ∀ i : Interval, i.AddsNothing (a ++ b) → reduce (a ++ i :: b) = reduce (a ++ b) := by
  refine ⟨coveredBy_reduce a, normal_reduce a, reduce_eq_iff, (normal_reduce a).reduce_eq,
    fun hperm => ?_, fun i hi => ?_⟩
  · exact reduce_eq_iff.mpr fun m _ _ => coveredBy_perm hperm m
  · refine reduce_eq_iff.mpr fun m _ _ => ?_
    rw [coveredBy_append, coveredBy_cons, or_left_comm, ← coveredBy_append]
    exact or_iff_right_of_imp hi.coveredBy

/-- Overlapping periods out of order, one of them from before midnight, against the same day in
touching pieces; and a period that runs backwards put between the two lists. -/
theorem reduce_canonical_overlapping :
    let a : List Interval := [⟨650, 800⟩, ⟨-30, 20⟩, ⟨600, 700⟩]
    let b : List Interval := [⟨600, 800⟩, ⟨0, 10⟩, ⟨10, 20⟩]
    let backwards : Interval := ⟨700, 650⟩
    reduce a = reduce b ∧ a.Perm [⟨-30, 20⟩, ⟨600, 700⟩, ⟨650, 800⟩] ∧
      reduce a = reduce [⟨-30, 20⟩, ⟨600, 700⟩, ⟨650, 800⟩] ∧
      backwards.AddsNothing (a ++ b) ∧ reduce (a ++ backwards :: b) = reduce (a ++ b) := by
  intro a b backwards
  have hsame : ∀ m, 0 ≤ m → m < 1440 → (CoveredBy a m ↔ CoveredBy b m) := by
    intro m hlow _
    simp only [a, b, coveredBy_cons, coveredBy_nil, Covers, Int32.reduceToInt, or_false]
    omega
  have hperm : a.Perm [⟨-30, 20⟩, ⟨600, 700⟩, ⟨650, 800⟩] := by decide
  have hadds : backwards.AddsNothing (a ++ b) := .inl (by decide)
  obtain ⟨_, _, hequal, _, _, hwithout⟩ := reduce_canonical a b
  obtain ⟨_, _, _, _, horder, _⟩ := reduce_canonical a [⟨-30, 20⟩, ⟨600, 700⟩, ⟨650, 800⟩]
  exact ⟨hequal.mpr hsame, hperm, horder hperm, hadds, hwithout backwards hadds⟩

end OpeningHours.Interval
