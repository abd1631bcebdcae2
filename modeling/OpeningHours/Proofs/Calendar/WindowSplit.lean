import Mathlib.Data.List.Sort
import OpeningHours.Proofs.Calendar.Saved
import OpeningHours.Proofs.Calendar.Windows

/-! Windows in two parts.

A window split at a midnight has the days of its first part followed by those of its
second part (`days_split`): the day of the midnight ends the one and starts the other,
and only the second touches it. The first part cuts its last day at the end of that
day and the second its first day at the beginning, which leaves a list in normal form
as it is (`cut_before`, `cut_after`). So whatever is asked for the days of a window can
be asked for the parts, and the second table pushed after the first, also where days of
both parts have one key. -/
namespace OpeningHours
open OpeningHours.Interval (CoveredBy Normal)

/-! ### The order of instants -/

namespace Clock

theorem ext {a b : Clock} (hsecond : a.second = b.second) (hnano : a.nano = b.nano) : a = b := by
  cases a; cases b; cases hsecond; cases hnano; rfl

theorem lt_iff {a b : Clock} :
    a < b ↔ a.second < b.second ∨ a.second = b.second ∧ a.nano < b.nano := Iff.rfl

end Clock

namespace Instant

theorem lt_iff {a b : Instant} :
    a < b ↔ a.date.number < b.date.number ∨
      a.date.number = b.date.number ∧ a.clock < b.clock := by
  rw [← Date.lt_iff_number_lt, Date.number_inj]
  rfl

theorem lt_trans {a b c : Instant} (hab : a < b) (hbc : b < c) : a < c := by
  simp only [lt_iff, Clock.lt_iff] at *
  omega

theorem ext_number {a b : Instant} (hdate : a.date.number = b.date.number)
    (hsecond : a.clock.second = b.clock.second) (hnano : a.clock.nano = b.clock.nano) : a = b := by
  have hclock : a.clock = b.clock := Clock.ext hsecond hnano
  have hdate : a.date = b.date := Date.number_inj.mp hdate
  cases a; cases b; cases hdate; cases hclock; rfl

/-- An instant that is not after another is before it or is the same. -/
theorem lt_or_eq_of_not_gt {a b : Instant} (h : ¬ b < a) : a < b ∨ a = b := by
  by_cases heq : a.date.number = b.date.number ∧ a.clock.second = b.clock.second ∧
      a.clock.nano = b.clock.nano
  · exact .inr (ext_number heq.1 heq.2.1 heq.2.2)
  · simp only [lt_iff, Clock.lt_iff] at h ⊢
    omega

/-- No time of a day is before its midnight. -/
theorem date_lt_of_lt_midnight {a b : Instant} (hb : b.isMidnight = true) (h : a < b) :
    a.date.number < b.date.number := by
  have hclock : b.clock = Clock.midnight := of_decide_eq_true hb
  rw [lt_iff, hclock, Clock.lt_iff] at h
  simp only [Clock.midnight] at h
  omega

theorem date_le_of_lt {a b : Instant} (h : a < b) : a.date.number ≤ b.date.number := by
  rw [lt_iff] at h
  omega

end Instant

/-! ### The days of the parts -/

namespace Window
variable {w : Window} {mid : Instant} {d : Date}

/-- The part of a window before an instant. -/
def before (w : Window) (mid : Instant) : Window := {w with stop := mid}

/-- The part of a window from an instant on. -/
def after (w : Window) (mid : Instant) : Window := {w with start := mid}

/-- An instant at which a window falls into whole days: a midnight in the window, its start and
its end included. -/
structure SplitsAt (w : Window) (mid : Instant) : Prop where
  midnight : mid.isMidnight = true
  fromStart : ¬ mid < w.start
  toStop : ¬ w.stop < mid

/-- The first part touches the days before the midnight. -/
theorem SplitsAt.touches_before_iff (h : w.SplitsAt mid) :
    (w.before mid).Touches d ↔ w.Touches d ∧ d.number < mid.date.number := by
  rw [touches_iff_number, touches_iff_number]
  simp only [before, h.midnight, Bool.true_eq_false, and_false, or_false]
  constructor
  · intro hd
    obtain ⟨hproper, hfrom, hto⟩ := hd
    rcases Instant.lt_or_eq_of_not_gt h.toStop with hstop | rfl
    · have hdate := Instant.date_le_of_lt hstop
      exact ⟨⟨Instant.lt_trans hproper hstop, hfrom, .inl (by omega)⟩, hto⟩
    · exact ⟨⟨hproper, hfrom, .inl hto⟩, hto⟩
  · intro hd
    obtain ⟨⟨_, hfrom, _⟩, hto⟩ := hd
    exact ⟨Instant.lt_iff.mpr (.inl (by omega)), hfrom, hto⟩

/-- The second part touches the day of the midnight and those after it. -/
theorem SplitsAt.touches_after_iff (h : w.SplitsAt mid) :
    (w.after mid).Touches d ↔ w.Touches d ∧ mid.date.number ≤ d.number := by
  rw [touches_iff_number, touches_iff_number]
  simp only [after]
  constructor
  · intro hd
    obtain ⟨hproper, hfrom, hto⟩ := hd
    rcases Instant.lt_or_eq_of_not_gt h.fromStart with hstart | heq
    · have hdate := Instant.date_le_of_lt hstart
      exact ⟨⟨Instant.lt_trans hstart hproper, by omega, hto⟩, hfrom⟩
    · rw [heq]
      exact ⟨⟨hproper, hfrom, hto⟩, hfrom⟩
  · intro hd
    obtain ⟨⟨hproper, _, hto⟩, hfrom⟩ := hd
    refine ⟨?_, hfrom, hto⟩
    rcases Instant.lt_or_eq_of_not_gt h.toStop with hstop | rfl
    · exact hstop
    · -- A window that ends at the midnight touches no day from there on.
      rcases hto with hto | ⟨_, hto⟩
      · omega
      · rw [h.midnight] at hto
        cases hto

/-- **The days of a window in two parts.** -/
theorem SplitsAt.days_split (h : w.SplitsAt mid) :
    w.days = (w.before mid).days ++ (w.after mid).days := by
  have hordered : ∀ d ∈ (w.before mid).days, ∀ e ∈ (w.after mid).days, d < e := by
    intro d hd e he
    have hbefore := (h.touches_before_iff.mp (mem_days.mp hd).1).2
    have hafter := (h.touches_after_iff.mp (mem_days.mp he).1).2
    exact Date.lt_iff_number_lt.mpr (by omega)
  refine w.pairwise_days.eq_of_mem_iff
    (List.pairwise_append.mpr ⟨pairwise_days _, pairwise_days _, hordered⟩) fun d => ?_
  rw [List.mem_append, mem_days, mem_days, mem_days, h.touches_before_iff, h.touches_after_iff,
    ← or_and_right, ← and_or_left]
  have htotal : d.number < mid.date.number ∨ mid.date.number ≤ d.number := by omega
  simp only [htotal, and_true]

/-! ### The cuts of the parts -/

variable {l : List Interval}

/-- Two windows leave the same of a day if they keep the same of its minutes at both ends. -/
theorem cut_congr {v : Window} (hl : Normal l) (adjust : Bool)
    (hstart : ∀ m, CoveredBy l m → ((w.days.head? = some d → w.startMinute.toInt ≤ m) ↔
      (v.days.head? = some d → v.startMinute.toInt ≤ m)))
    (hstop : ∀ m, CoveredBy l m → ((w.days.getLast? = some d → m < w.stopMinute.toInt) ↔
      (v.days.getLast? = some d → m < v.stopMinute.toInt))) :
    w.cut adjust d l = v.cut adjust d l := by
  apply (normal_cut adjust d hl).eq_of_coveredBy (normal_cut adjust d hl)
  intro m
  rw [coveredBy_cut, coveredBy_cut]
  refine and_congr_right fun hm => ?_
  rw [and_imp, and_imp, and_imp, and_imp, ← imp_and, ← imp_and, hstart m hm, hstop m hm]

/-- The first part ends with a day, and cuts nothing there. -/
theorem SplitsAt.cut_before (h : w.SplitsAt mid) (hlast : ¬ w.Touches Date.last)
    (hd : d ∈ (w.before mid).days) (hl : Normal l) (adjust : Bool) :
    w.cut adjust d l = (w.before mid).cut adjust d l := by
  rcases Instant.lt_or_eq_of_not_gt h.toStop with hstop | rfl
  · obtain ⟨htouches, hbefore⟩ := h.touches_before_iff.mp (mem_days.mp hd).1
    have hwhole : d ∈ w.days := (mem_days_iff_touches hlast).mpr htouches
    -- The day of the midnight is touched after `d`.
    have hmid : w.Touches mid.date := (h.touches_after_iff.mp (touches_start hstop)).1
    have hnotLast : ¬ w.days.getLast? = some d := by
      rw [getLast?_days_iff hlast htouches]
      exact fun hd => hd.2 mid.date hmid (Date.lt_iff_number_lt.mpr hbefore)
    refine cut_congr hl adjust (fun m _ => ?_) fun m hm => ?_
    · rw [head?_days_iff hwhole, head?_days_iff hd]
      rfl
    · have hday := hl.mem_day hm
      have hend : (w.before mid).stopMinute.toInt = 1440 := toInt_stopMinute_midnight h.midnight
      simp [hnotLast, hend, hday]
  · rfl

/-- The second part starts with a day, and cuts nothing there. -/
theorem SplitsAt.cut_after (h : w.SplitsAt mid) (hlast : ¬ w.Touches Date.last)
    (hd : d ∈ (w.after mid).days) (hl : Normal l) (adjust : Bool) :
    w.cut adjust d l = (w.after mid).cut adjust d l := by
  rcases Instant.lt_or_eq_of_not_gt h.fromStart with hstart | heq
  · have hpart := (mem_days.mp hd).1
    obtain ⟨htouches, hafter⟩ := h.touches_after_iff.mp hpart
    have hwhole : d ∈ w.days := (mem_days_iff_touches hlast).mpr htouches
    have hlast' : ¬ (w.after mid).Touches Date.last := fun he =>
      hlast (h.touches_after_iff.mp he).1
    -- The window starts on a day before that of the midnight.
    have hnotFirst : ¬ w.days.head? = some d := by
      have hdate := Instant.date_lt_of_lt_midnight h.midnight hstart
      rw [head?_days_iff hwhole, ← Date.number_inj]
      omega
    have hsame : w.IsLast d ↔ (w.after mid).IsLast d := by
      refine and_congr ⟨fun _ => hpart, fun _ => htouches⟩ (forall_congr' fun e => ?_)
      rw [h.touches_after_iff, Date.lt_iff_number_lt]
      exact ⟨fun hmax he => hmax he.1, fun hmax he hlt => hmax ⟨he, by omega⟩ hlt⟩
    refine cut_congr hl adjust (fun m hm => ?_) fun m _ => ?_
    · have hday := hl.mem_day hm
      have hbegin : (w.after mid).startMinute.toInt = 0 := toInt_startMinute_midnight h.midnight
      simp [hnotFirst, hbegin, hday]
    · rw [getLast?_days_iff hlast htouches, getLast?_days_iff hlast' hpart, hsame]
      rfl
  · rw [after, ← heq]

end Window

/-! ### Tables of the parts -/

namespace Timetable
variable {w : Window} {mid : Instant}

/-- What is asked for each day of a window may be asked for the days of its parts, if it is the
same there. -/
theorem collect_split {α : Type} (t : Timetable) (h : w.SplitsAt mid)
    {value first second : Date → α}
    (hfirst : ∀ d ∈ (w.before mid).days, value d = first d)
    (hsecond : ∀ d ∈ (w.after mid).days, value d = second d) :
    t.collect w.days value =
      (t.collect (w.before mid).days first).pushAll (t.collect (w.after mid).days second) := by
  unfold collect
  rw [h.days_split, List.map_append, DayTable.ofList_append]
  congr 2
  · exact List.map_congr_left fun d hd => by rw [hfirst d hd]
  · exact List.map_congr_left fun d hd => by rw [hsecond d hd]

end Timetable

namespace Calendar
variable {c : Calendar}

/-- **A window in two parts.** Split at a midnight, with or without adjustment, a window that
leaves out the last date of the calendar has the table of its second part pushed after that of
its first part: a key of both keeps its place in the first and holds what the second has. -/
theorem window_in_two_parts (h : Reachable c) {w : Window} {mid : Instant}
    (hmid : w.SplitsAt mid) (hlast : ¬ w.Touches Date.last) (adjust : Bool) :
    (c.openDays w).1 = (c.openDays (w.before mid)).1.pushAll (c.openDays (w.after mid)).1 ∧
    (c.periodsOfDays w adjust).1 =
      (c.periodsOfDays (w.before mid) adjust).1.pushAll
        (c.periodsOfDays (w.after mid) adjust).1 ∧
    (c.slotsOfDays w adjust).1 =
      (c.slotsOfDays (w.before mid) adjust).1.pushAll (c.slotsOfDays (w.after mid) adjust).1 := by
  have hrep := h.represents
  simp only [(hrep.openDays _).value_eq, (hrep.periodsOfDays _ _).value_eq,
    (hrep.slotsOfDays _ _).value_eq]
  have hfirst : ∀ d ∈ (w.before mid).days, c.timetable.periodsInWindow w adjust d =
      c.timetable.periodsInWindow (w.before mid) adjust d := by
    intro d hd
    rw [Timetable.periodsInWindow_eq, Timetable.periodsInWindow_eq]
    exact hmid.cut_before hlast hd (c.timetable.normal_periodsOfDay d) adjust
  have hsecond : ∀ d ∈ (w.after mid).days, c.timetable.periodsInWindow w adjust d =
      c.timetable.periodsInWindow (w.after mid) adjust d := by
    intro d hd
    rw [Timetable.periodsInWindow_eq, Timetable.periodsInWindow_eq]
    exact hmid.cut_after hlast hd (c.timetable.normal_periodsOfDay d) adjust
  refine ⟨?_, ?_, ?_⟩
  · exact c.timetable.collect_split hmid (fun _ _ => rfl) fun _ _ => rfl
  · exact c.timetable.collect_split hmid hfirst hsecond
  · exact c.timetable.collect_split hmid (fun d hd => by rw [hfirst d hd])
      fun d hd => by rw [hsecond d hd]

/-- A window over the end of a month, split at a midnight so that both parts have a day of the
second month, under keys that tell months only. The entry of this month is that of the second
part, which ends at a quarter past ten. -/
theorem window_in_two_parts_shared_month :
    let c := ((empty.answer (.addOpening ["p=540-660"])).2.answer (.setDateFormat "%Y-%m")).2
    let mid : Instant := ⟨⟨2024, 2, 2, by decide⟩, .midnight⟩
    let w : Window := ⟨⟨⟨2024, 1, 31, by decide⟩, ⟨36000, 0, by decide, by decide⟩⟩,
      ⟨⟨2024, 2, 2, by decide⟩, ⟨36900, 0, by decide, by decide⟩⟩⟩
    Reachable c ∧ w.SplitsAt mid ∧ ¬ w.Touches Date.last ∧
      (c.periodsOfDays (w.before mid) true).1.keys = ["2024-01", "2024-02"] ∧
      (c.periodsOfDays (w.after mid) true).1.keys = ["2024-02"] ∧
      (c.periodsOfDays (w.before mid) true).1.get? "2024-02" = some [⟨540, 660⟩] ∧
      (c.periodsOfDays (w.after mid) true).1.get? "2024-02" = some [⟨540, 615⟩] ∧
      (c.periodsOfDays w true).1.get? "2024-02" = some [⟨540, 615⟩] ∧
      (c.periodsOfDays w true).1 =
        (c.periodsOfDays (w.before mid) true).1.pushAll
          (c.periodsOfDays (w.after mid) true).1 := by
  intro c mid w
  have hc : Reachable c := .answer _ (.answer _ .empty)
  have hformat : Date.first.format? "%Y-%m" = some "-262143-01" := by decide +kernel
  have haccepted : Config.checkDateFormat "%Y-%m" = .ok () :=
    Config.checkDateFormat_eq_ok (by decide) hformat
  have htable : c.timetable =
      ⟨{dateFormat := "%Y-%m"}, [⟨"p=540-660", [.periods [⟨540, 660⟩]]⟩], []⟩ := by
    have hadded : (empty.answer (.addOpening ["p=540-660"])).2.timetable =
        ⟨{}, [⟨"p=540-660", [.periods [⟨540, 660⟩]]⟩], []⟩ := rfl
    rw [timetable_setDateFormat _ haccepted, hadded]
  have hkey : c.timetable.dayKey = _ := dayKey_setDateFormat _ haccepted
  have hmid : w.SplitsAt mid := ⟨by decide, by decide, by decide⟩
  have hlast : ¬ w.Touches Date.last := fun h => absurd h.toStop (by decide)
  have hday : ∀ d, (c.periodsOfDay d).1 = [⟨540, 660⟩] := by
    intro d
    rw [(hc.represents.periodsOfDay d).value_eq, htable]
    exact Timetable.periodsOfDay_always _ _ ⟨by decide, by decide⟩ d
  -- The last day of a window has the entry of its month, cut at the end.
  have hget : ∀ v d entry, c.timetable.dayKey d = "2024-02" → v.days.getLast? = some d →
      v.cut true d [⟨540, 660⟩] = entry →
      (c.periodsOfDays v true).1.get? "2024-02" = some entry := by
    rintro v d entry hd hend rfl
    rw [← hd, (hc.represents.holdsLatest_periodsOfDays v true).get?_last hend, hday]
  let eve : Date := ⟨2024, 2, 1, by decide⟩
  have heve : c.timetable.dayKey eve = "2024-02" := by rw [hkey]; subst eve; decide +kernel
  have hsame : c.timetable.dayKey mid.date = "2024-02" := by rw [hkey]; subst mid; decide +kernel
  refine ⟨hc, hmid, hlast, ?_, ?_, hget _ eve _ heve ?_ ?_, hget _ _ _ hsame ?_ ?_,
    hget _ _ _ hsame ?_ ?_, (window_in_two_parts hc hmid hlast true).2.1⟩
  · rw [(hc.represents.holdsLatest_periodsOfDays _ true).keys, hkey]
    subst w mid
    decide +kernel
  · rw [(hc.represents.holdsLatest_periodsOfDays _ true).keys, hkey]
    subst w mid
    decide +kernel
  all_goals
    subst w mid
    rfl

end Calendar

end OpeningHours
