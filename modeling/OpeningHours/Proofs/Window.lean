import OpeningHours.Proofs.Date.Order
import OpeningHours.Proofs.Interval.Cover
import OpeningHours.Window

/-! The days of a window, and what its cuts leave.

A window touches the days from that of its start to that of its end, the day of an
end at midnight left out (`Touches`). Its days are the touched ones in ascending
order, without the last date of the calendar (`mem_days`, `pairwise_days`). A cut
keeps normal form and leaves the minutes on its own side; in seconds, the first
minute kept begins no earlier than the window and the last one ends no later. -/
namespace OpeningHours.Window
open OpeningHours.Interval (CoveredBy Normal)

variable {w : Window} {d e : Date}

/-! ### Touched days -/

structure Touches (w : Window) (d : Date) : Prop where
  proper : w.start < w.stop
  fromStart : ¬ d < w.start.date
  toStop : d < w.stop.date ∨ d = w.stop.date ∧ w.stop.isMidnight = false

/-- The last day that the window touches. -/
def IsLast (w : Window) (d : Date) : Prop := w.Touches d ∧ ∀ e, w.Touches e → ¬ d < e

theorem touches_iff_number :
    w.Touches d ↔ w.start < w.stop ∧ w.start.date.number ≤ d.number ∧
      (d.number < w.stop.date.number ∨
        d.number = w.stop.date.number ∧ w.stop.isMidnight = false) := by
  rw [← Date.lt_iff_number_lt, Date.number_inj]
  constructor
  · intro h
    obtain ⟨hproper, hfrom, hto⟩ := h
    exact ⟨hproper, Int.not_lt.mp fun h => hfrom (Date.lt_iff_number_lt.mpr h), hto⟩
  · intro h
    obtain ⟨hproper, hfrom, hto⟩ := h
    exact ⟨hproper, fun h => Int.not_lt.mpr hfrom (Date.lt_iff_number_lt.mp h), hto⟩

/-- A window that is not empty touches the day of its start. -/
theorem touches_start (hproper : w.start < w.stop) : w.Touches w.start.date := by
  refine ⟨hproper, Date.lt_irrefl _, ?_⟩
  rcases hproper with hdate | ⟨hdate, hclock⟩
  · exact .inl hdate
  · refine .inr ⟨hdate, ?_⟩
    cases hmidnight : w.stop.isMidnight with
    | false => rfl
    | true =>
      -- No time of day is before midnight.
      rw [of_decide_eq_true hmidnight] at hclock
      rcases hclock with hsecond | ⟨_, hnano⟩
      · exact absurd hsecond (Nat.not_lt_zero _)
      · exact absurd hnano (Nat.not_lt_zero _)

theorem mem_daysFrom_last {start stop : Date} :
    d ∈ start.daysFrom (stop.number - start.number + 1).toNat ↔
      (start.number ≤ d.number ∧ d.number ≤ stop.number) ∧ d ≠ Date.last := by
  rw [Date.mem_daysFrom, ← and_assoc]
  exact and_congr (by omega) Iff.rfl

/-- **The days of a window** are those it touches, but the last date of the calendar. -/
theorem mem_days : d ∈ w.days ↔ w.Touches d ∧ d ≠ Date.last := by
  rw [touches_iff_number]
  unfold days lastDay?
  by_cases hproper : w.start < w.stop
  · rw [if_pos hproper]
    cases hmidnight : w.stop.isMidnight with
    | false =>
      simp only [Bool.false_eq_true, if_false, mem_daysFrom_last, hproper, true_and, and_true]
      exact and_congr (by omega) Iff.rfl
    | true =>
      simp only [if_true, hproper, true_and, reduceCtorEq, and_false, or_false]
      rcases w.stop.date.previous?_cases with ⟨p, hp, hnumber⟩ | ⟨hnone, hfirst⟩
      · rw [hp]
        simp only [mem_daysFrom_last]
        exact and_congr (by omega) Iff.rfl
      · -- No day lies before the first date of the calendar.
        have hlow := d.first_number_le
        rw [hnone, hfirst]
        simp only [List.not_mem_nil, false_iff]
        omega
  · simp [hproper]

theorem mem_days_iff_touches (hlast : ¬ w.Touches Date.last) : d ∈ w.days ↔ w.Touches d := by
  rw [mem_days]
  exact ⟨And.left, fun hd => ⟨hd, fun heq => hlast (heq ▸ hd)⟩⟩

theorem pairwise_days (w : Window) : w.days.Pairwise (· < ·) := by
  unfold days
  split
  · exact List.Pairwise.nil
  · exact Date.pairwise_daysFrom _ _

theorem days_eq_nil (h : ¬ w.start < w.stop) : w.days = [] := by
  simp [days, lastDay?, h]

theorem head?_days (h : w.days.head? = some d) : d = w.start.date := by
  unfold days at h
  split at h
  · cases h
  · exact Date.head?_daysFrom h

/-- Among the days of the window, the one listed first is that of its start. -/
theorem head?_days_iff (hd : d ∈ w.days) : w.days.head? = some d ↔ d = w.start.date := by
  refine ⟨head?_days, fun h => ?_⟩
  obtain ⟨f, hf⟩ := Option.isSome_iff_exists.mp (List.isSome_head?.mpr (List.ne_nil_of_mem hd))
  rw [hf, head?_days hf, h]

/-- In an ascending list the last entry is the one that no entry exceeds. -/
theorem getLast?_eq_some_iff {l : List Date} (hl : l.Pairwise (· < ·)) (hd : d ∈ l) :
    l.getLast? = some d ↔ ∀ e ∈ l, ¬ d < e := by
  obtain ⟨front, last, rfl⟩ : ∃ front last, l = front ++ [last] :=
    ⟨_, _, (List.dropLast_concat_getLast (List.ne_nil_of_mem hd)).symm⟩
  obtain ⟨_, _, hfront⟩ := List.pairwise_append.mp hl
  rw [List.getLast?_concat, Option.some.injEq]
  constructor
  · rintro rfl e he hlt
    rcases List.mem_append.mp he with he | he
    · exact absurd hlt (Date.lt_asymm (hfront e he last (by simp)))
    · rw [List.mem_singleton.mp he] at hlt
      exact absurd hlt last.lt_irrefl
  · intro hmax
    rcases List.mem_append.mp hd with hd | hd
    · exact absurd (hfront d hd last (by simp)) (hmax last (by simp))
    · exact (List.mem_singleton.mp hd).symm

/-- The last day listed is the last day touched, if the calendar goes on after it. -/
theorem getLast?_days_iff (hlast : ¬ w.Touches Date.last) (hd : w.Touches d) :
    w.days.getLast? = some d ↔ w.IsLast d := by
  rw [getLast?_eq_some_iff w.pairwise_days ((mem_days_iff_touches hlast).mpr hd)]
  simp only [mem_days_iff_touches hlast]
  exact ⟨fun hmax => ⟨hd, hmax⟩, And.right⟩

/-! ### Cuts -/

theorem coveredBy_trimStart (k : Minute) (l : List Interval) (m : Int) :
    CoveredBy (trimStart k l) m ↔ CoveredBy l m ∧ k.toInt ≤ m := by
  apply Interval.coveredBy_map_filter
  intro i
  simp only [Interval.Covers, decide_eq_true_eq, Int32.lt_iff_toInt_lt, Minute.toInt_later]
  omega

theorem coveredBy_trimStop (k : Minute) (l : List Interval) (m : Int) :
    CoveredBy (trimStop k l) m ↔ CoveredBy l m ∧ m < k.toInt := by
  apply Interval.coveredBy_map_filter
  intro i
  simp only [Interval.Covers, decide_eq_true_eq, Int32.lt_iff_toInt_lt, Minute.toInt_earlier]
  omega

theorem normal_trimStart (k : Minute) {l : List Interval} (h : Normal l) :
    Normal (trimStart k l) := by
  apply Interval.normal_map_filter h
  intro i hday hkept
  have hproper := hday.2.1
  simp only [decide_eq_true_eq, Int32.lt_iff_toInt_lt] at hkept
  simp only [Minute.toInt_later]
  omega

theorem normal_trimStop (k : Minute) {l : List Interval} (h : Normal l) :
    Normal (trimStop k l) := by
  apply Interval.normal_map_filter h
  intro i hday hkept
  have hproper := hday.2.1
  simp only [decide_eq_true_eq, Int32.lt_iff_toInt_lt] at hkept
  simp only [Minute.toInt_earlier]
  omega

/-! ### The minutes of a cut in seconds -/

theorem toInt_startMinute (w : Window) :
    w.startMinute.toInt = ((w.start.clock.second + 59) / 60 : Nat) := by
  have := w.start.clock.second_lt
  exact Int32.toInt_ofNat_of_lt (by simp only [Clock.minuteNotBefore]; omega)

theorem toInt_stopMinute (h : w.stop.isMidnight = false) :
    w.stopMinute.toInt = (w.stop.clock.second / 60 : Nat) := by
  have := w.stop.clock.second_lt
  unfold stopMinute
  rw [h]
  exact Int32.toInt_ofNat_of_lt (by simp only [Clock.minuteNotAfter]; omega)

/-- A minute is kept if it begins no earlier than the window. -/
theorem startMinute_le_iff (w : Window) (m : Int) :
    w.startMinute.toInt ≤ m ↔ (w.start.clock.second : Int) ≤ 60 * m := by
  rw [toInt_startMinute]
  omega

/-- A minute is kept if it ends no later than the window. -/
theorem lt_stopMinute_iff (h : w.stop.isMidnight = false) (m : Int) :
    m < w.stopMinute.toInt ↔ 60 * (m + 1) ≤ (w.stop.clock.second : Int) := by
  rw [toInt_stopMinute h]
  omega

theorem toInt_startMinute_midnight (h : w.start.isMidnight = true) : w.startMinute.toInt = 0 := by
  have hclock : w.start.clock = Clock.midnight := of_decide_eq_true h
  rw [toInt_startMinute, hclock]
  rfl

theorem toInt_stopMinute_midnight (h : w.stop.isMidnight = true) : w.stopMinute.toInt = 1440 := by
  unfold stopMinute
  rw [h]
  rfl

/-! ### Days cut to the window -/

/-- The periods of a day as the window leaves them: with `adjust` the first listed day is cut
where the window starts, and the last one where it stops. -/
def cut (w : Window) (adjust : Bool) (d : Date) (periods : List Interval) : List Interval :=
  let fromStart := if adjust = true ∧ w.days.head? = some d then
    trimStart w.startMinute periods else periods
  if adjust = true ∧ w.days.getLast? = some d then trimStop w.stopMinute fromStart else fromStart

variable {l : List Interval}

theorem normal_cut (adjust : Bool) (d : Date) (h : Normal l) : Normal (w.cut adjust d l) := by
  have hfrom : Normal (if adjust = true ∧ w.days.head? = some d then
      trimStart w.startMinute l else l) := by
    split
    · exact normal_trimStart _ h
    · exact h
  show Normal (if adjust = true ∧ w.days.getLast? = some d then trimStop w.stopMinute _ else _)
  split
  · exact normal_trimStop _ hfrom
  · exact hfrom

section
variable {p : Prop} [Decidable p]

theorem coveredBy_ite_trimStart (k : Minute) (m : Int) :
    CoveredBy (if p then trimStart k l else l) m ↔ CoveredBy l m ∧ (p → k.toInt ≤ m) := by
  by_cases h : p
  · simp [h, coveredBy_trimStart]
  · simp [h]

theorem coveredBy_ite_trimStop (k : Minute) (m : Int) :
    CoveredBy (if p then trimStop k l else l) m ↔ CoveredBy l m ∧ (p → m < k.toInt) := by
  by_cases h : p
  · simp [h, coveredBy_trimStop]
  · simp [h]

end

theorem coveredBy_cut (adjust : Bool) (d : Date) (m : Int) :
    CoveredBy (w.cut adjust d l) m ↔ CoveredBy l m ∧
      (adjust = true ∧ w.days.head? = some d → w.startMinute.toInt ≤ m) ∧
      (adjust = true ∧ w.days.getLast? = some d → m < w.stopMinute.toInt) := by
  rw [cut, coveredBy_ite_trimStop, coveredBy_ite_trimStart, and_assoc]

/-- What a window leaves of the periods of a day, if it is to `adjust` them: on the first listed
day the minutes that begin no earlier than the window, and on the last one those that end no later,
in whole seconds and in normal form. A window that ends at midnight cuts no end. -/
structure IsCut (w : Window) (adjust : Bool) (d : Date) (periods entry : List Interval) : Prop where
  normal : Normal entry
  covered : ∀ m, CoveredBy entry m ↔ CoveredBy periods m ∧
    (adjust = true → w.days.head? = some d → (w.start.clock.second : Int) ≤ 60 * m) ∧
    (adjust = true → w.days.getLast? = some d → w.stop.isMidnight = false →
      60 * (m + 1) ≤ (w.stop.clock.second : Int))

theorem isCut_cut (adjust : Bool) (d : Date) (hl : Normal l) :
    w.IsCut adjust d l (w.cut adjust d l) where
  normal := normal_cut adjust d hl
  covered m := by
    rw [coveredBy_cut, startMinute_le_iff, and_imp, and_imp]
    refine and_congr_right fun hcover => and_congr_right fun _ => ?_
    refine forall₂_congr fun _ _ => ?_
    cases hmidnight : w.stop.isMidnight with
    | false => simp only [lt_stopMinute_iff hmidnight, true_implies]
    | true =>
      -- A list in normal form covers no minute after the day.
      have hday := hl.mem_day hcover
      rw [toInt_stopMinute_midnight hmidnight]
      simp [hday]

/-- There is one such list only. -/
theorem IsCut.eq_cut {adjust : Bool} {entry : List Interval} (h : w.IsCut adjust d l entry)
    (hl : Normal l) : entry = w.cut adjust d l :=
  h.normal.eq_of_coveredBy (normal_cut adjust d hl) fun m =>
    (h.covered m).trans ((isCut_cut adjust d hl).covered m).symm

/-- **Cuts in seconds**: on the first day the minutes kept begin no earlier than the window, on
the last one they end no later, unless the window ends with the day. -/
theorem coveredBy_cut_iff_seconds (hlast : ¬ w.Touches Date.last) (hd : w.Touches d)
    (hl : Normal l) (m : Int) :
    CoveredBy (w.cut true d l) m ↔ CoveredBy l m ∧
      (d = w.start.date → (w.start.clock.second : Int) ≤ 60 * m) ∧
      (w.IsLast d → w.stop.isMidnight = false →
        60 * (m + 1) ≤ (w.stop.clock.second : Int)) := by
  have hmem : d ∈ w.days := (mem_days_iff_touches hlast).mpr hd
  rw [(isCut_cut true d hl).covered, head?_days_iff hmem, getLast?_days_iff hlast hd]
  simp only [true_implies]

theorem cut_eq_self (hlast : ¬ w.Touches Date.last) (hd : w.Touches d)
    (hfirst : d ≠ w.start.date) (hinside : ¬ w.IsLast d) : w.cut true d l = l := by
  have hmem : d ∈ w.days := (mem_days_iff_touches hlast).mpr hd
  simp [cut, head?_days_iff hmem, getLast?_days_iff hlast hd, hfirst, hinside]

end OpeningHours.Window
