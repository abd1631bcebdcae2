import OpeningHours.Date.Basic

/-! Dates by their numbers.

The number of a date grows with year, month and day, so dates are ordered as their
numbers are (`lt_iff_number_lt`) and the number tells the date (`number_inj`). The
day after has the next number and the day before the one before it; only the last
date has no day after, and only the first none before. So the days listed from a
date on are the dates with the numbers from there on (`mem_daysFrom`), and counting days on
adds to the number (`addDays?_eq_some_iff`). -/
namespace OpeningHours.Date

/-! ### Numbers within a year -/

theorem daysBeforeMonth_mono (year : Int) {a b : Nat} (h : a ≤ b) :
    daysBeforeMonth year a ≤ daysBeforeMonth year b := by
  induction b with
  | zero => exact Nat.le_zero.mp h ▸ Nat.le_refl _
  | succ b ih =>
    rcases Nat.le_succ_iff.mp h with h | rfl
    · exact Nat.le_trans (ih h) (Nat.le_add_right ..)
    · exact Nat.le_refl _

/-- The days of a month come before the next month. -/
theorem ordinal_le (d : Date) : d.ordinal ≤ daysBeforeMonth d.year (d.month + 1) :=
  Nat.add_le_add_left d.exist.day_mem.2 _

theorem ordinal_pos (d : Date) : 1 ≤ d.ordinal :=
  Nat.le_trans d.exist.day_mem.1 (Nat.le_add_left ..)

theorem ordinal_le_daysInYear (d : Date) : d.ordinal ≤ daysInYear d.year := by
  have hmonth : d.month + 1 ≤ 13 := Nat.succ_le_succ d.exist.month_mem.2
  rw [← daysBeforeMonth_thirteen]
  exact Nat.le_trans d.ordinal_le (daysBeforeMonth_mono d.year hmonth)

theorem daysBeforeYear_mono {a b : Int} (h : a ≤ b) : daysBeforeYear a ≤ daysBeforeYear b := by
  simp only [daysBeforeYear]
  omega

/-! ### The order of dates -/

theorem number_lt_of_lt {a b : Date} (h : a < b) : a.number < b.number := by
  have hle := a.ordinal_le_daysInYear
  have hpos := b.ordinal_pos
  unfold number
  rcases h with hyear | ⟨hyear, hmonth | ⟨hmonth, hday⟩⟩
  · have hnext := daysBeforeYear_succ a.year
    have hmono : daysBeforeYear (a.year + 1) ≤ daysBeforeYear b.year := daysBeforeYear_mono hyear
    omega
  · have hlast := a.ordinal_le
    have hmono : daysBeforeMonth a.year (a.month + 1) ≤ daysBeforeMonth a.year b.month :=
      daysBeforeMonth_mono a.year hmonth
    have hfirst := b.exist.day_mem.1
    rw [← hyear]
    unfold ordinal at hlast ⊢
    rw [← hyear]
    omega
  · unfold ordinal
    rw [hyear, hmonth]
    omega

theorem lt_irrefl (d : Date) : ¬ d < d := fun h => Int.lt_irrefl _ (number_lt_of_lt h)

theorem lt_asymm {a b : Date} (h : a < b) : ¬ b < a := fun hgt =>
  Int.lt_asymm (number_lt_of_lt h) (number_lt_of_lt hgt)

instance : Std.Asymm fun a b : Date => a < b := ⟨fun _ _ => lt_asymm⟩

theorem lt_or_eq_or_gt (a b : Date) : a < b ∨ a = b ∨ b < a := by
  rcases Int.lt_trichotomy a.year b.year with hyear | hyear | hyear
  · exact .inl (.inl hyear)
  · rcases Nat.lt_trichotomy a.month b.month with hmonth | hmonth | hmonth
    · exact .inl (.inr ⟨hyear, .inl hmonth⟩)
    · rcases Nat.lt_trichotomy a.day b.day with hday | hday | hday
      · exact .inl (.inr ⟨hyear, .inr ⟨hmonth, hday⟩⟩)
      · exact .inr (.inl (ext hyear hmonth hday))
      · exact .inr (.inr (.inr ⟨hyear.symm, .inr ⟨hmonth.symm, hday⟩⟩))
    · exact .inr (.inr (.inr ⟨hyear.symm, .inl hmonth⟩))
  · exact .inr (.inr (.inl hyear))

theorem lt_iff_number_lt {a b : Date} : a < b ↔ a.number < b.number := by
  refine ⟨number_lt_of_lt, fun h => ?_⟩
  rcases lt_or_eq_or_gt a b with hlt | rfl | hgt
  · exact hlt
  · exact absurd h (Int.lt_irrefl _)
  · exact absurd (number_lt_of_lt hgt) (Int.lt_asymm h)

theorem number_inj {a b : Date} : a.number = b.number ↔ a = b := by
  refine ⟨fun h => ?_, fun h => h ▸ rfl⟩
  rcases lt_or_eq_or_gt a b with hlt | heq | hgt
  · exact absurd (number_lt_of_lt hlt) (h ▸ Int.lt_irrefl _)
  · exact heq
  · exact absurd (number_lt_of_lt hgt) (h ▸ Int.lt_irrefl _)

theorem number_le_last (d : Date) : d.number ≤ last.number := by
  apply Int.not_lt.mp
  rw [← lt_iff_number_lt]
  have hyear := d.exist.year_mem.2
  have hmonth := d.exist.month_mem.2
  have hday := d.exist.day_mem.2
  intro h
  rcases h with h | ⟨heq, h | ⟨hm, h⟩⟩
  · exact absurd h (Int.not_lt.mpr hyear)
  · exact absurd h (Nat.not_lt.mpr hmonth)
  · have hm' : d.month = 12 := hm.symm
    rw [hm'] at hday
    exact absurd h (Nat.not_lt.mpr hday)

theorem first_number_le (d : Date) : first.number ≤ d.number := by
  apply Int.not_lt.mp
  rw [← lt_iff_number_lt]
  have hyear := d.exist.year_mem.1
  have hmonth := d.exist.month_mem.1
  have hday := d.exist.day_mem.1
  intro h
  rcases h with h | ⟨heq, h | ⟨hm, h⟩⟩
  · exact absurd h (Int.not_lt.mpr hyear)
  · exact absurd h (Nat.not_lt.mpr hmonth)
  · exact absurd h (Nat.not_lt.mpr hday)

/-! ### The day after and the day before -/

theorem exists_of_ofParts? {year : Int} {month day : Nat} {d : Date}
    (h : ofParts? year month day = some d) :
    d.year = year ∧ d.month = month ∧ d.day = day ∧ Exists year month day := by
  obtain ⟨hyear, hmonth, hday⟩ := ofParts?_eq_some_iff.mp h
  exact ⟨hyear, hmonth, hday, hyear ▸ hmonth ▸ hday ▸ d.exist⟩

theorem ofParts?_eq_none_iff {year : Int} {month day : Nat} :
    ofParts? year month day = none ↔ ¬ Exists year month day := by
  by_cases hexists : Exists year month day
  · rw [ofParts?, dif_pos hexists]
    exact ⟨fun h => absurd h (Option.some_ne_none _), fun h => absurd hexists h⟩
  · rw [ofParts?, dif_neg hexists]
    exact ⟨fun _ => hexists, fun _ => rfl⟩

theorem not_exists_of_ofParts? {year : Int} {month day : Nat}
    (h : ofParts? year month day = none) : ¬ Exists year month day :=
  ofParts?_eq_none_iff.mp h

theorem daysInMonth_pos {year : Int} {month : Nat} (h : 1 ≤ month ∧ month ≤ 12) :
    1 ≤ daysInMonth year month := by
  have hmonth : month = 2 ∨ (month = 4 ∨ month = 6 ∨ month = 9 ∨ month = 11) ∨
      month = 1 ∨ month = 3 ∨ month = 5 ∨ month = 7 ∨ month = 8 ∨ month = 10 ∨ month = 12 := by
    omega
  rcases hmonth with rfl | hshort | hlong
  · show 1 ≤ if isLeap year then 29 else 28
    split <;> decide
  · rcases hshort with rfl | rfl | rfl | rfl <;> exact Nat.le_add_left 1 29
  · rcases hlong with rfl | rfl | rfl | rfl | rfl | rfl | rfl <;> exact Nat.le_add_left 1 30

/-! A part of a date that cannot be raised is the last one, and one that cannot be lowered the
first. -/

theorem day_eq_daysInMonth {d : Date} (h : ofParts? d.year d.month (d.day + 1) = none) :
    d.day = daysInMonth d.year d.month := by
  apply Nat.le_antisymm d.exist.day_mem.2
  apply Nat.le_of_not_lt
  intro hlt
  exact not_exists_of_ofParts? h ⟨d.exist.year_mem, d.exist.month_mem, Nat.le_add_left .., hlt⟩

theorem month_eq_twelve {d : Date} (h : ofParts? d.year (d.month + 1) 1 = none) :
    d.month = 12 := by
  apply Nat.le_antisymm d.exist.month_mem.2
  apply Nat.le_of_not_lt
  intro hlt
  have hlater : 1 ≤ d.month + 1 ∧ d.month + 1 ≤ 12 := ⟨Nat.le_add_left .., hlt⟩
  exact not_exists_of_ofParts? h
    ⟨d.exist.year_mem, hlater, Nat.le_refl _, daysInMonth_pos hlater⟩

theorem year_eq_maxYear {d : Date} (h : ofParts? (d.year + 1) 1 1 = none) : d.year = maxYear := by
  have hbounds := d.exist.year_mem
  apply Int.le_antisymm hbounds.2
  apply Int.not_lt.mp
  intro hlt
  have hlater : minYear ≤ d.year + 1 ∧ d.year + 1 ≤ maxYear := by omega
  exact not_exists_of_ofParts? h ⟨hlater, by decide, Nat.le_refl _, daysInMonth_pos (by decide)⟩

theorem day_eq_one {d : Date} (h : ofParts? d.year d.month (d.day - 1) = none) : d.day = 1 := by
  have hbounds := d.exist.day_mem
  apply Nat.le_antisymm _ hbounds.1
  apply Nat.le_of_not_lt
  intro hlt
  exact not_exists_of_ofParts? h ⟨d.exist.year_mem, d.exist.month_mem, by omega, by omega⟩

theorem month_eq_one {d : Date}
    (h : ofParts? d.year (d.month - 1) (daysInMonth d.year (d.month - 1)) = none) :
    d.month = 1 := by
  have hbounds := d.exist.month_mem
  apply Nat.le_antisymm _ hbounds.1
  apply Nat.le_of_not_lt
  intro hlt
  have hearlier : 1 ≤ d.month - 1 ∧ d.month - 1 ≤ 12 := by omega
  exact not_exists_of_ofParts? h
    ⟨d.exist.year_mem, hearlier, daysInMonth_pos hearlier, Nat.le_refl _⟩

theorem year_eq_minYear {d : Date} (h : ofParts? (d.year - 1) 12 31 = none) :
    d.year = minYear := by
  have hbounds := d.exist.year_mem
  apply Int.le_antisymm _ hbounds.1
  apply Int.not_lt.mp
  intro hlt
  have hearlier : minYear ≤ d.year - 1 ∧ d.year - 1 ≤ maxYear := by omega
  exact not_exists_of_ofParts? h ⟨hearlier, by decide, by decide, Nat.le_refl 31⟩

/-- Whether or not the next day is in the month, in the year or in the calendar. -/
theorem next?_cases (d : Date) :
    (∃ e, d.next? = some e ∧ e.number = d.number + 1) ∨ d.next? = none ∧ d = last := by
  unfold next?
  cases hday : ofParts? d.year d.month (d.day + 1) with
  | some e =>
    obtain ⟨hy, hm, hd, _⟩ := exists_of_ofParts? hday
    refine .inl ⟨e, rfl, ?_⟩
    rw [number, number, ordinal, ordinal, hy, hm, hd]
    omega
  | none =>
    have hend := day_eq_daysInMonth hday
    have hordinal : d.ordinal = daysBeforeMonth d.year (d.month + 1) := by
      rw [ordinal, hend]
      rfl
    cases hmonth : ofParts? d.year (d.month + 1) 1 with
    | some e =>
      obtain ⟨hy, hm, hd, _⟩ := exists_of_ofParts? hmonth
      refine .inl ⟨e, rfl, ?_⟩
      rw [number, number, hordinal, ordinal, hy, hm, hd]
      omega
    | none =>
      have htwelve := month_eq_twelve hmonth
      rw [htwelve, daysBeforeMonth_thirteen] at hordinal
      cases hyear : ofParts? (d.year + 1) 1 1 with
      | some e =>
        obtain ⟨hy, hm, hd, _⟩ := exists_of_ofParts? hyear
        have hfirst : e.ordinal = 1 := by
          rw [ordinal, hm, hd]
          rfl
        refine .inl ⟨e, rfl, ?_⟩
        rw [number, number, hordinal, hfirst, hy, daysBeforeYear_succ]
        omega
      | none =>
        refine .inr ⟨rfl, ext (year_eq_maxYear hyear) htwelve ?_⟩
        rw [hend, htwelve]
        rfl

/-- Whether or not the day before is in the month, in the year or in the calendar. -/
theorem previous?_cases (d : Date) :
    (∃ e, d.previous? = some e ∧ e.number + 1 = d.number) ∨ d.previous? = none ∧ d = first := by
  unfold previous?
  cases hday : ofParts? d.year d.month (d.day - 1) with
  | some e =>
    obtain ⟨hy, hm, hd, hexists⟩ := exists_of_ofParts? hday
    have hpos := hexists.day_mem.1
    refine .inl ⟨e, rfl, ?_⟩
    rw [number, number, ordinal, ordinal, hy, hm, hd]
    omega
  | none =>
    have hone := day_eq_one hday
    cases hmonth : ofParts? d.year (d.month - 1) (daysInMonth d.year (d.month - 1)) with
    | some e =>
      obtain ⟨hy, hm, hd, hexists⟩ := exists_of_ofParts? hmonth
      have hsucc : d.month = d.month - 1 + 1 := by
        have := hexists.month_mem.1
        omega
      have hbefore : daysBeforeMonth d.year d.month =
          daysBeforeMonth d.year (d.month - 1) + daysInMonth d.year (d.month - 1) := by
        rw [hsucc]
        rfl
      refine .inl ⟨e, rfl, ?_⟩
      rw [number, number, ordinal, ordinal, hy, hm, hd, hone, hbefore]
      omega
    | none =>
      have hjanuary := month_eq_one hmonth
      have hordinal : d.ordinal = 1 := by
        rw [ordinal, hjanuary, hone]
        rfl
      cases hyear : ofParts? (d.year - 1) 12 31 with
      | some e =>
        obtain ⟨hy, hm, hd, _⟩ := exists_of_ofParts? hyear
        have hlast : e.ordinal = daysInYear (d.year - 1) := by
          rw [← daysBeforeMonth_thirteen, ordinal, hy, hm, hd]
          rfl
        have hsucc := daysBeforeYear_succ (d.year - 1)
        rw [Int.sub_add_cancel] at hsucc
        refine .inl ⟨e, rfl, ?_⟩
        rw [number, number, hordinal, hlast, hy]
        omega
      | none => exact .inr ⟨rfl, ext (year_eq_minYear hyear) hjanuary hone⟩

/-! ### The days from a date on -/

theorem ne_last_of_number {d e : Date} (h : e.number = d.number + 1) : d ≠ last := by
  intro hlast
  have hle := e.number_le_last
  rw [h, hlast] at hle
  omega

theorem mem_daysFrom {d e : Date} {n : Nat} :
    e ∈ d.daysFrom n ↔ d.number ≤ e.number ∧ e.number < d.number + n ∧ e ≠ last := by
  induction n generalizing d with
  | zero =>
    simp only [daysFrom, List.not_mem_nil, false_iff]
    omega
  | succ n ih =>
    unfold daysFrom
    rcases next?_cases d with ⟨f, hf, hnumber⟩ | ⟨hnone, rfl⟩
    · simp only [hf, List.mem_cons, ih, ← number_inj (a := e) (b := d)]
      have hd := ne_last_of_number hnumber
      constructor
      · intro h
        rcases h with heq | ⟨hlow, hhigh, he⟩
        · exact ⟨by omega, by omega, number_inj.mp heq ▸ hd⟩
        · exact ⟨by omega, by omega, he⟩
      · intro h
        obtain ⟨hlow, hhigh, he⟩ := h
        by_cases heq : e.number = d.number
        · exact .inl heq
        · exact .inr ⟨by omega, by omega, he⟩
    · simp only [hnone, List.not_mem_nil, false_iff]
      intro h
      obtain ⟨hlow, _, he⟩ := h
      exact he (number_inj.mp (Int.le_antisymm e.number_le_last hlow))

theorem pairwise_daysFrom (d : Date) (n : Nat) : (d.daysFrom n).Pairwise (· < ·) := by
  induction n generalizing d with
  | zero => exact List.Pairwise.nil
  | succ n ih =>
    unfold daysFrom
    rcases next?_cases d with ⟨f, hf, hnumber⟩ | ⟨hnone, _⟩
    · simp only [hf]
      refine List.pairwise_cons.mpr ⟨fun e he => ?_, ih f⟩
      have := (mem_daysFrom.mp he).1
      exact lt_iff_number_lt.mpr (by omega)
    · simp only [hnone]
      exact List.Pairwise.nil

theorem head?_daysFrom {d e : Date} {n : Nat} (h : (d.daysFrom n).head? = some e) : e = d := by
  cases n with
  | zero => cases h
  | succ n =>
    unfold daysFrom at h
    split at h
    · cases h
    · exact (Option.some.inj h).symm

/-! ### Days counted on -/

theorem number_mem_year (d : Date) :
    daysBeforeYear d.year < d.number ∧ d.number ≤ daysBeforeYear (d.year + 1) := by
  have hpos := d.ordinal_pos
  have hle := d.ordinal_le_daysInYear
  have hnext := daysBeforeYear_succ d.year
  rw [number]
  omega

/-- The number of a date tells its year. -/
theorem year_eq_of_number {d : Date} {year : Int} (hlow : daysBeforeYear year < d.number)
    (hhigh : d.number ≤ daysBeforeYear (year + 1)) : d.year = year := by
  obtain ⟨hlow', hhigh'⟩ := d.number_mem_year
  rcases Int.lt_trichotomy d.year year with hlt | heq | hgt
  · have hmono : daysBeforeYear (d.year + 1) ≤ daysBeforeYear year := daysBeforeYear_mono hlt
    omega
  · exact heq
  · have hmono : daysBeforeYear (year + 1) ≤ daysBeforeYear d.year := daysBeforeYear_mono hgt
    omega

theorem addDays?_eq_some_iff {d e : Date} {n : Nat} :
    d.addDays? n = some e ↔ e.number = d.number + n := by
  induction n generalizing d with
  | zero => rw [addDays?, Option.some.injEq, ← number_inj, eq_comm, Int.natCast_zero, Int.add_zero]
  | succ n ih =>
    rw [addDays?]
    rcases next?_cases d with ⟨f, hf, hnumber⟩ | ⟨hnone, rfl⟩
    · rw [hf, Option.bind_some, ih, hnumber]
      omega
    · have hle := e.number_le_last
      rw [hnone, Option.bind_none]
      exact ⟨nofun, fun h => by omega⟩

/-- Days can be counted on up to the last date. -/
theorem exists_addDays? {d : Date} {n : Nat} (h : d.number + n ≤ last.number) :
    ∃ e, d.addDays? n = some e := by
  induction n generalizing d with
  | zero => exact ⟨d, rfl⟩
  | succ n ih =>
    rcases next?_cases d with ⟨f, hf, hnumber⟩ | ⟨_, rfl⟩
    · obtain ⟨e, he⟩ := ih (d := f) (by omega)
      exact ⟨e, by rw [addDays?, hf, Option.bind_some, he]⟩
    · omega

/-- Days counted on within a year stay in the year. -/
theorem exists_addDays?_within_year {d : Date} {n : Nat} (h : d.ordinal + n ≤ daysInYear d.year) :
    ∃ e, d.addDays? n = some e ∧ e.year = d.year := by
  have hnext := daysBeforeYear_succ d.year
  have hyear : d.number + n ≤ daysBeforeYear (d.year + 1) := by
    rw [number]
    omega
  have hlast : daysBeforeYear (d.year + 1) ≤ last.number :=
    daysBeforeYear_mono (Int.add_le_add_right d.exist.year_mem.2 1)
  obtain ⟨e, he⟩ := exists_addDays? (Int.le_trans hyear hlast)
  have hnumber := addDays?_eq_some_iff.mp he
  have hlow := d.number_mem_year.1
  exact ⟨e, he, year_eq_of_number (by omega) (by omega)⟩

end OpeningHours.Date
