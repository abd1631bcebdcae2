import OpeningHours.Interval.Basic

/-! Lists of intervals as the minutes they cover.

What a list covers does not depend on its order, and joins what its intervals
cover. A list in normal form is determined by what it covers
(`Normal.eq_of_coveredBy`): its first interval starts with the least covered
minute and stops at the first minute after that which is not covered. Its intervals
are the longest runs of covered minutes (`Normal.exists_bounds_iff`). -/
namespace OpeningHours.Interval

theorem ext_toInt {i j : Interval} (hstart : i.start.toInt = j.start.toInt)
    (hstop : i.stop.toInt = j.stop.toInt) : i = j := by
  cases i
  cases j
  simp only [Int32.toInt_inj] at hstart hstop
  rw [hstart, hstop]

/-! ### Covered minutes -/

@[simp] theorem coveredBy_nil (m : Int) : ¬ CoveredBy [] m := by simp [CoveredBy]

@[simp] theorem coveredBy_cons (i : Interval) (l : List Interval) (m : Int) :
    CoveredBy (i :: l) m ↔ i.Covers m ∨ CoveredBy l m := by
  simp [CoveredBy]

@[simp] theorem coveredBy_append (a b : List Interval) (m : Int) :
    CoveredBy (a ++ b) m ↔ CoveredBy a m ∨ CoveredBy b m := by
  simp only [CoveredBy, List.mem_append, or_and_right, exists_or]

theorem coveredBy_flatMap {α : Type} (f : α → List Interval) (l : List α) (m : Int) :
    CoveredBy (l.flatMap f) m ↔ ∃ x ∈ l, CoveredBy (f x) m := by
  induction l with
  | nil => simp
  | cons x rest ih => simp [ih]

theorem coveredBy_perm {a b : List Interval} (h : a.Perm b) (m : Int) :
    CoveredBy a m ↔ CoveredBy b m := by
  simp only [CoveredBy, h.mem_iff]

/-- What is covered after a test and a change of each interval, if one interval after them covers
what it covered before and `q` allows. -/
theorem coveredBy_map_filter {keep : Interval → Bool} {f : Interval → Interval} {m : Int}
    {q : Prop} (h : ∀ i, keep i = true ∧ (f i).Covers m ↔ i.Covers m ∧ q) (l : List Interval) :
    CoveredBy ((l.filter keep).map f) m ↔ CoveredBy l m ∧ q := by
  constructor
  · intro hm
    obtain ⟨j, hj, hcover⟩ := hm
    obtain ⟨i, hi, rfl⟩ := List.mem_map.mp hj
    obtain ⟨hmem, hkeep⟩ := List.mem_filter.mp hi
    obtain ⟨hbefore, hq⟩ := (h i).mp ⟨hkeep, hcover⟩
    exact ⟨⟨i, hmem, hbefore⟩, hq⟩
  · intro hm
    obtain ⟨⟨i, hi, hbefore⟩, hq⟩ := hm
    obtain ⟨hkeep, hcover⟩ := (h i).mpr ⟨hbefore, hq⟩
    exact ⟨f i, List.mem_map.mpr ⟨i, List.mem_filter.mpr ⟨hi, hkeep⟩, rfl⟩, hcover⟩

/-! ### Normal form -/

/-- Non-empty and inside the day. -/
def InDay (i : Interval) : Prop :=
  0 ≤ i.start.toInt ∧ i.start.toInt < i.stop.toInt ∧ i.stop.toInt ≤ 1440

theorem normal_nil : Normal [] := ⟨by simp, List.Pairwise.nil⟩

theorem normal_cons {i : Interval} {l : List Interval} :
    Normal (i :: l) ↔ i.InDay ∧ (∀ j ∈ l, i.stop.toInt < j.start.toInt) ∧ Normal l := by
  constructor
  · intro h
    obtain ⟨hgap, hrest⟩ := List.pairwise_cons.mp h.apart
    exact ⟨h.inDay i (List.mem_cons_self ..), hgap,
      fun j hj => h.inDay j (List.mem_cons_of_mem i hj), hrest⟩
  · intro h
    obtain ⟨hi, hgap, hl⟩ := h
    refine ⟨fun j hj => ?_, List.pairwise_cons.mpr ⟨hgap, hl.apart⟩⟩
    rcases List.mem_cons.mp hj with rfl | hj
    · exact hi
    · exact hl.inDay j hj

theorem normal_append {a b : List Interval} :
    Normal (a ++ b) ↔ Normal a ∧ Normal b ∧ ∀ i ∈ a, ∀ j ∈ b, i.stop.toInt < j.start.toInt := by
  induction a with
  | nil => simp [normal_nil]
  | cons i rest ih =>
    simp only [List.cons_append, normal_cons, ih, List.mem_append, List.mem_cons]
    constructor
    · intro h
      obtain ⟨hi, hgap, hrest, hb, hab⟩ := h
      refine ⟨⟨hi, fun j hj => hgap j (.inl hj), hrest⟩, hb, fun k hk j hj => ?_⟩
      rcases hk with rfl | hk
      · exact hgap j (.inr hj)
      · exact hab k hk j hj
    · intro h
      obtain ⟨⟨hi, hgap, hrest⟩, hb, hab⟩ := h
      refine ⟨hi, fun j hj => ?_, hrest, hb, fun k hk => hab k (.inr hk)⟩
      rcases hj with hj | hj
      · exact hgap j hj
      · exact hab i (.inl rfl) j hj

/-- Normal form is kept when intervals are dropped and the others shrink to a proper part. -/
theorem normal_map_filter {keep : Interval → Bool} {f : Interval → Interval} {l : List Interval}
    (hl : Normal l) (h : ∀ i, i.InDay → keep i = true → i.start.toInt ≤ (f i).start.toInt ∧
      (f i).start.toInt < (f i).stop.toInt ∧ (f i).stop.toInt ≤ i.stop.toInt) :
    Normal ((l.filter keep).map f) := by
  have hpart : ∀ i ∈ l.filter keep, i.InDay ∧ i.start.toInt ≤ (f i).start.toInt ∧
      (f i).start.toInt < (f i).stop.toInt ∧ (f i).stop.toInt ≤ i.stop.toInt := by
    intro i hi
    obtain ⟨hmem, hkeep⟩ := List.mem_filter.mp hi
    exact ⟨hl.inDay i hmem, h i (hl.inDay i hmem) hkeep⟩
  constructor
  · intro j hj
    obtain ⟨i, hi, rfl⟩ := List.mem_map.mp hj
    obtain ⟨⟨hlow, _, hhigh⟩, hstart, hproper, hstop⟩ := hpart i hi
    exact ⟨Int.le_trans hlow hstart, hproper, Int.le_trans hstop hhigh⟩
  · apply List.pairwise_map.mpr
    apply (hl.apart.filter keep).imp_of_mem
    intro a b ha hb hgap
    have hstop := (hpart a ha).2.2.2
    have hstart := (hpart b hb).2.1
    omega

/-! ### What the first interval tells -/

theorem Normal.mem_day {l : List Interval} (h : Normal l) {m : Int} (hm : CoveredBy l m) :
    0 ≤ m ∧ m < 1440 := by
  obtain ⟨i, hi, hlow, hhigh⟩ := hm
  have := h.inDay i hi
  omega

/-- Past the first interval only the rest covers, and before its end only the first does. -/
theorem Normal.coveredBy_tail {i : Interval} {l : List Interval} (h : Normal (i :: l)) (m : Int) :
    CoveredBy l m ↔ CoveredBy (i :: l) m ∧ i.stop.toInt < m := by
  obtain ⟨_, hgap, _⟩ := normal_cons.mp h
  rw [coveredBy_cons]
  constructor
  · intro hm
    obtain ⟨j, hj, hlow, _⟩ := id hm
    have := hgap j hj
    exact ⟨.inr hm, by omega⟩
  · intro hm
    rcases hm with ⟨hi | hl, hm⟩
    · exact absurd hi.2 (by omega)
    · exact hl

theorem Normal.start_le {i : Interval} {l : List Interval} (h : Normal (i :: l)) {m : Int}
    (hm : CoveredBy (i :: l) m) : i.start.toInt ≤ m := by
  obtain ⟨hi, _, _⟩ := normal_cons.mp h
  rcases (coveredBy_cons i l m).mp hm with hm | hm
  · exact hm.1
  · have := ((h.coveredBy_tail m).mp hm).2
    have := hi.2.1
    omega

theorem Normal.covers_start {i : Interval} {l : List Interval} (h : Normal (i :: l)) :
    CoveredBy (i :: l) i.start.toInt :=
  (coveredBy_cons ..).mpr (.inl ⟨Int.le_refl _, (normal_cons.mp h).1.2.1⟩)

theorem Normal.not_covers_stop {i : Interval} {l : List Interval} (h : Normal (i :: l)) :
    ¬ CoveredBy (i :: l) i.stop.toInt := by
  intro hm
  rcases (coveredBy_cons ..).mp hm with hm | hm
  · exact absurd hm.2 (Int.lt_irrefl _)
  · exact absurd ((h.coveredBy_tail _).mp hm).2 (Int.lt_irrefl _)

/-- The first intervals of two lists that cover the same stop at the same minute. -/
theorem Normal.stop_le {i j : Interval} {a b : List Interval} (ha : Normal (i :: a))
    (hstart : i.start.toInt = j.start.toInt)
    (h : ∀ m, CoveredBy (i :: a) m ↔ CoveredBy (j :: b) m) : j.stop.toInt ≤ i.stop.toInt := by
  apply Int.not_lt.mp
  intro hlt
  -- The minute at which `i` stops would still be covered by `j`.
  have hi := (normal_cons.mp ha).1.2.1
  exact ha.not_covers_stop ((h _).mpr ((coveredBy_cons ..).mpr (.inl ⟨by omega, hlt⟩)))

/-- **A list in normal form is determined by the minutes it covers.** -/
theorem Normal.eq_of_coveredBy {a b : List Interval} (ha : Normal a) (hb : Normal b)
    (h : ∀ m, CoveredBy a m ↔ CoveredBy b m) : a = b := by
  induction a generalizing b with
  | nil =>
    cases b with
    | nil => rfl
    | cons j b => exact absurd ((h _).mpr hb.covers_start) (coveredBy_nil _)
  | cons i a ih =>
    cases b with
    | nil => exact absurd ((h _).mp ha.covers_start) (coveredBy_nil _)
    | cons j b =>
      have hstart : i.start.toInt = j.start.toInt :=
        Int.le_antisymm (ha.start_le ((h _).mpr hb.covers_start))
          (hb.start_le ((h _).mp ha.covers_start))
      have hstop : i.stop.toInt = j.stop.toInt :=
        Int.le_antisymm (hb.stop_le hstart.symm fun m => (h m).symm) (ha.stop_le hstart h)
      have hrest : a = b := ih (normal_cons.mp ha).2.2 (normal_cons.mp hb).2.2 fun m => by
        rw [ha.coveredBy_tail, hb.coveredBy_tail, h m, hstop]
      rw [ext_toInt hstart hstop, hrest]

/-! ### Maximal runs -/

theorem Normal.apart_of_ne {l : List Interval} (h : Normal l) {i j : Interval} (hi : i ∈ l)
    (hj : j ∈ l) (hne : i ≠ j) : i.stop.toInt < j.start.toInt ∨ j.stop.toInt < i.start.toInt := by
  induction l with
  | nil => cases hi
  | cons first rest ih =>
    obtain ⟨_, hgap, hrest⟩ := normal_cons.mp h
    rcases List.mem_cons.mp hi with rfl | hi'
    · rcases List.mem_cons.mp hj with rfl | hj'
      · exact absurd rfl hne
      · exact .inl (hgap j hj')
    · rcases List.mem_cons.mp hj with rfl | hj'
      · exact .inr (hgap i hi')
      · exact ih hrest hi' hj'

/-- No interval of the list covers the minute just before another one, or the minute at its end. -/
theorem Normal.not_covers_ends {l : List Interval} (h : Normal l) {i : Interval} (hi : i ∈ l) :
    ¬ CoveredBy l (i.start.toInt - 1) ∧ ¬ CoveredBy l i.stop.toInt := by
  have hproper := (h.inDay i hi).2.1
  constructor
  · rintro ⟨j, hj, hlow, hhigh⟩
    have hne : i ≠ j := by rintro rfl; omega
    have := h.apart_of_ne hi hj hne
    omega
  · rintro ⟨j, hj, hlow, hhigh⟩
    have hne : i ≠ j := by rintro rfl; omega
    have := h.apart_of_ne hi hj hne
    omega

/-- Minutes side by side that a list in normal form covers lie in one interval of it. -/
theorem Normal.exists_within_iff {l : List Interval} (h : Normal l) {a b : Int} (hab : a < b) :
    (∃ i ∈ l, i.start.toInt ≤ a ∧ b ≤ i.stop.toInt) ↔ ∀ m, a ≤ m → m < b → CoveredBy l m := by
  constructor
  · intro hi m hlow hhigh
    obtain ⟨i, hi, hstart, hstop⟩ := hi
    exact ⟨i, hi, by omega, by omega⟩
  · intro hcover
    obtain ⟨i, hi, hstart, hstop⟩ := hcover a (Int.le_refl a) hab
    -- Were the interval of the first minute to stop before `b`, that minute would not be covered.
    exact ⟨i, hi, hstart, Int.not_lt.mp fun hlt =>
      (h.not_covers_ends hi).2 (hcover _ (Int.le_of_lt hstop) hlt)⟩

/-- The intervals of a list in normal form are the longest runs of minutes that it covers. -/
theorem Normal.exists_bounds_iff {l : List Interval} (h : Normal l) {a b : Int} :
    (∃ i ∈ l, i.start.toInt = a ∧ i.stop.toInt = b) ↔
      a < b ∧ (∀ m, a ≤ m → m < b → CoveredBy l m) ∧ ¬ CoveredBy l (a - 1) ∧ ¬ CoveredBy l b := by
  constructor
  · rintro ⟨i, hi, rfl, rfl⟩
    exact ⟨(h.inDay i hi).2.1, fun m hlow hhigh => ⟨i, hi, hlow, hhigh⟩, h.not_covers_ends hi⟩
  · rintro ⟨hproper, hcover, hbefore, hafter⟩
    obtain ⟨i, hi, hlow, hhigh⟩ := hcover a (Int.le_refl a) hproper
    -- `i` could not start earlier without covering `a - 1`, nor stop later without covering `b`,
    -- and where it stops nothing is covered.
    have hstart : i.start.toInt = a := Int.le_antisymm hlow <| Int.not_lt.mp fun hlt =>
      hbefore ⟨i, hi, by omega, by omega⟩
    have hstop : i.stop.toInt ≤ b := Int.not_lt.mp fun hlt => hafter ⟨i, hi, by omega, hlt⟩
    have hstop' : b ≤ i.stop.toInt := Int.not_lt.mp fun hlt =>
      (h.not_covers_ends hi).2 (hcover _ (by omega) hlt)
    exact ⟨i, hi, hstart, Int.le_antisymm hstop hstop'⟩

end OpeningHours.Interval
