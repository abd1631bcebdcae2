import OpeningHours.Proofs.Calendar.OpenMinutes
import OpeningHours.Proofs.Date.IsoText
import OpeningHours.Proofs.Window

/-! What a calendar answers for the days of a window.

The three queries of a window list the same keys, each where the first of its days
stands, and hold under a key what belongs to the latest day that has it: with
adjustment, the minutes of that day that lie in the window, to the second
(`Window.IsCut`). The slots are made from a table in which days of one key are merged
already; each of them is still cut from the periods of that latest day. -/
namespace OpeningHours
open OpeningHours.Interval (CoveredBy Normal)

/-! ### The latest day of each key -/

namespace Timetable
variable (t : Timetable) (w : Window)

theorem periodsInWindow_eq (adjust : Bool) (d : Date) :
    t.periodsInWindow w adjust d = w.cut adjust d (t.periodsOfDay d) := by
  cases adjust with
  | false => simp [periodsInWindow, Window.cut]
  | true =>
    simp only [periodsInWindow, Window.cut, Window.trim, if_true, true_and, @eq_comm _ (some d)]

/-- Whatever is asked for each day of a window is held for the latest day of each key. -/
theorem holdsLatest_collect {α : Type} (value : Date → α) :
    (t.collect w.days value).HoldsLatest w.days t.dayKey value :=
  DayTable.holdsLatest_ofList w.pairwise_days t.dayKey value

end Timetable

/-- No day of a window comes after its last one, so that one has the entry of its key. -/
theorem DayTable.HoldsLatest.get?_last {α : Type} {m : DayTable α} {w : Window}
    {key : Date → String} {value : Date → α} (h : m.HoldsLatest w.days key value) {d : Date}
    (hd : w.days.getLast? = some d) : m.get? (key d) = some (value d) := by
  have hmem : d ∈ w.days := List.mem_of_getLast? hd
  have hlast := (Window.getLast?_eq_some_iff w.pairwise_days hmem).mp hd
  exact h.get?_eq hmem fun e he hlt => absurd hlt (hlast e he)

namespace Calendar
variable {c : Calendar} {t : Timetable}

theorem Represents.holdsLatest_openDays (h : c.Represents t) (w : Window) :
    (c.openDays w).1.HoldsLatest w.days t.dayKey fun d => !(c.periodsOfDay d).1.isEmpty := by
  rw [(h.openDays w).value_eq]
  simp only [(h.periodsOfDay _).value_eq]
  exact t.holdsLatest_collect w _

theorem Represents.holdsLatest_periodsOfDays (h : c.Represents t) (w : Window) (adjust : Bool) :
    (c.periodsOfDays w adjust).1.HoldsLatest w.days t.dayKey
      fun d => w.cut adjust d (c.periodsOfDay d).1 := by
  rw [(h.periodsOfDays w adjust).value_eq]
  simp only [(h.periodsOfDay _).value_eq, ← t.periodsInWindow_eq w adjust]
  exact t.holdsLatest_collect w _

theorem Represents.holdsLatest_slotsOfDays (h : c.Represents t) (w : Window) (adjust : Bool) :
    (c.slotsOfDays w adjust).1.HoldsLatest w.days t.dayKey
      fun d => t.grid.slice (w.cut adjust d (c.periodsOfDay d).1) := by
  rw [(h.slotsOfDays w adjust).value_eq]
  simp only [(h.periodsOfDay _).value_eq, ← t.periodsInWindow_eq w adjust]
  exact t.holdsLatest_collect w _

theorem Reachable.normal_periodsOfDay (h : Reachable c) (d : Date) :
    Normal (c.periodsOfDay d).1 := by
  rw [(h.represents.periodsOfDay d).value_eq]
  exact c.timetable.normal_periodsOfDay d

/-- A format that is accepted becomes the format of the calendar. -/
theorem timetable_setDateFormat (c : Calendar) {format : String}
    (h : Config.checkDateFormat format = .ok ()) :
    (c.answer (.setDateFormat format)).2.timetable =
      {c.timetable with config.dateFormat := format} := by
  show (c.attempt ((c.timetable.setDateFormat format).map c.renew)).2.timetable = _
  rw [Timetable.setDateFormat, h]
  rfl

/-- Days are told apart by the format from then on. -/
theorem dayKey_setDateFormat (c : Calendar) {format : String}
    (h : Config.checkDateFormat format = .ok ()) :
    (c.answer (.setDateFormat format)).2.timetable.dayKey =
      fun d => (d.format? format).getD d.toISO := by
  funext d
  rw [timetable_setDateFormat c h, Timetable.dayKey]

/-- **Each key of a window holds the latest of its days.** The days of the window are those it
touches but the last date of the calendar, in ascending order. All three queries have the keys of
these days, each at its first occurrence, and under a key what the latest day with that key has:
whether it is open, what the window leaves of its periods, in seconds, and the slots of just
this. -/
theorem windows_hold_latest_days (h : Reachable c) (w : Window) (adjust : Bool) :
    ((∀ d, d ∈ w.days ↔ w.Touches d ∧ d ≠ Date.last) ∧ w.days.Pairwise (· < ·) ∧
      (¬ w.start < w.stop → w.days = [])) ∧
    (c.openDays w).1.HoldsLatest w.days c.timetable.dayKey
      (fun d => !(c.periodsOfDay d).1.isEmpty) ∧
    ∃ value : Date → List Interval,
      (∀ d, w.IsCut adjust d (c.periodsOfDay d).1 (value d)) ∧
      (c.periodsOfDays w adjust).1.HoldsLatest w.days c.timetable.dayKey value ∧
      (c.slotsOfDays w adjust).1.HoldsLatest w.days c.timetable.dayKey
        fun d => c.timetable.grid.slice (value d) := by
  refine ⟨⟨fun _ => Window.mem_days, w.pairwise_days, Window.days_eq_nil⟩,
    h.represents.holdsLatest_openDays w, fun d => w.cut adjust d (c.periodsOfDay d).1,
    fun d => Window.isCut_cut adjust d (h.normal_periodsOfDay d), ?_, ?_⟩
  · exact h.represents.holdsLatest_periodsOfDays w adjust
  · exact h.represents.holdsLatest_slotsOfDays w adjust

/-- The last day of a month and two of the next, under keys that tell months only; the window
starts at ten on the first of them and ends at a quarter past ten on the last. -/
theorem windows_hold_latest_days_two_months :
    let c := ((empty.answer (.addOpening ["p=540-660"])).2.answer (.setDateFormat "%Y-%m")).2
    let first : Date := ⟨2024, 1, 31, by decide⟩
    let last : Date := ⟨2024, 2, 2, by decide⟩
    let w : Window := ⟨⟨first, ⟨36000, 0, by decide, by decide⟩⟩,
      ⟨last, ⟨36900, 0, by decide, by decide⟩⟩⟩
    Reachable c ∧ (c.openDays w).1.keys = ["2024-01", "2024-02"] ∧
      (c.periodsOfDays w true).1.get? "2024-01" = some [⟨600, 660⟩] ∧
      (c.periodsOfDays w true).1.get? "2024-02" = some [⟨540, 615⟩] ∧
      (c.slotsOfDays w true).1.get? "2024-01" = some [⟨600, 630⟩, ⟨630, 660⟩] ∧
      (c.slotsOfDays w true).1.get? "2024-02" = some [⟨540, 570⟩, ⟨570, 600⟩] := by
  intro c first last w
  let middle : Date := ⟨2024, 2, 1, by decide⟩
  have hformat : Date.first.format? "%Y-%m" = some "-262143-01" := by decide +kernel
  have haccepted : Config.checkDateFormat "%Y-%m" = .ok () :=
    Config.checkDateFormat_eq_ok (by decide) hformat
  have htable : c.timetable =
      ⟨{dateFormat := "%Y-%m"}, [⟨"p=540-660", [.periods [⟨540, 660⟩]]⟩], []⟩ := by
    have hadded : (empty.answer (.addOpening ["p=540-660"])).2.timetable =
        ⟨{}, [⟨"p=540-660", [.periods [⟨540, 660⟩]]⟩], []⟩ := rfl
    rw [timetable_setDateFormat _ haccepted, hadded]
  have hc : Reachable c := .answer _ (.answer _ .empty)
  have hkey : c.timetable.dayKey = _ := dayKey_setDateFormat _ haccepted
  have hjanuary : c.timetable.dayKey first = "2024-01" := by rw [hkey]; subst first; decide +kernel
  have hfebruary : c.timetable.dayKey last = "2024-02" := by rw [hkey]; subst last; decide +kernel
  have hmiddle : c.timetable.dayKey middle = "2024-02" := by rw [hkey]; subst middle; decide +kernel
  have hdays : w.days = [first, middle, last] := by subst w first middle last; rfl
  obtain ⟨_, hopen, value, hvalue, hperiods, hslots⟩ := windows_hold_latest_days hc w true
  have hday : ∀ d, (c.periodsOfDay d).1 = [⟨540, 660⟩] := by
    intro d
    rw [(hc.represents.periodsOfDay d).value_eq, htable]
    exact Timetable.periodsOfDay_always _ _ ⟨by decide, by decide⟩ d
  have hcut : ∀ d, value d = w.cut true d [⟨540, 660⟩] := fun d =>
    hday d ▸ (hvalue d).eq_cut (hc.normal_periodsOfDay d)
  have hfirst : value first = [⟨600, 660⟩] := by rw [hcut]; subst w first last; rfl
  have hlast : value last = [⟨540, 615⟩] := by rw [hcut]; subst w first last; rfl
  have hgrid : c.timetable.grid = ⟨30, false⟩ := by rw [htable]; rfl
  have hmem : first ∈ w.days := by simp [hdays]
  -- January has one day only, and February goes to the last day.
  have hlater : ∀ e ∈ w.days, first < e →
      c.timetable.dayKey e ≠ c.timetable.dayKey first := by
    simp [hdays, hjanuary, hmiddle, hfebruary, Date.lt_irrefl]
  have hend : w.days.getLast? = some last := by simp [hdays]
  refine ⟨hc, ?_, ?_, ?_, ?_, ?_⟩
  · simp [hopen.keys, hdays, hjanuary, hmiddle, hfebruary, List.eraseDups_cons]
  · rw [← hjanuary, hperiods.get?_eq hmem hlater, hfirst]
  · rw [← hfebruary, hperiods.get?_last hend, hlast]
  · rw [← hjanuary, hslots.get?_eq hmem hlater, hfirst, hgrid]
    decide +kernel
  · rw [← hfebruary, hslots.get?_last hend, hlast, hgrid]
    decide +kernel

/-! ### Entries of an adjusted window -/

theorem dayKey_isoFormat (hformat : t.config.dateFormat = Date.isoFormat) (d : Date) :
    t.dayKey d = d.toISO := by
  rw [Timetable.dayKey, hformat, Date.format?_isoFormat, Option.getD_some]

/-- The keys of the default format tell the days apart. -/
theorem dayKey_inj (hformat : t.config.dateFormat = Date.isoFormat) {d e : Date}
    (h : t.dayKey d = t.dayKey e) : d = e := by
  rw [dayKey_isoFormat hformat, dayKey_isoFormat hformat] at h
  exact Date.toISO_injective h

theorem get?_collect {α : Type} (hformat : t.config.dateFormat = Date.isoFormat) {w : Window}
    {d : Date} (hd : d ∈ w.days) (value : Date → α) :
    (t.collect w.days value).get? (t.dayKey d) = some (value d) := by
  apply (t.holdsLatest_collect w value).get?_eq hd
  intro e _ hlt hkey
  rw [dayKey_inj hformat hkey] at hlt
  exact d.lt_irrefl hlt

theorem Represents.get?_periodsOfDays (h : c.Represents t)
    (hformat : t.config.dateFormat = Date.isoFormat) {w : Window} {d : Date} (hd : d ∈ w.days)
    (adjust : Bool) :
    (c.periodsOfDays w adjust).1.get? (t.dayKey d) =
      some (w.cut adjust d (c.periodsOfDay d).1) := by
  rw [(h.periodsOfDays w adjust).value_eq, Timetable.periodsOfDays, get?_collect hformat hd,
    t.periodsInWindow_eq, (h.periodsOfDay d).value_eq]

/-- **The adjusted entry of a day**, with the default format and a window that leaves out the last
date of the calendar: it has those minutes of the day's periods that begin no earlier than the
window and end no later, in whole seconds, and it is in normal form. A day inside keeps its
periods. -/
theorem adjusted_entry_in_seconds (h : Reachable c)
    (hformat : c.timetable.config.dateFormat = Date.isoFormat) {w : Window} {d : Date}
    (hlast : ¬ w.Touches Date.last) (hd : w.Touches d) :
    ∃ entry, (c.periodsOfDays w true).1.get? (c.timetable.dayKey d) = some entry ∧
      Normal entry ∧
      (∀ m, CoveredBy entry m ↔ CoveredBy (c.periodsOfDay d).1 m ∧
        (d = w.start.date → (w.start.clock.second : Int) ≤ 60 * m) ∧
        (w.IsLast d → w.stop.isMidnight = false →
          60 * (m + 1) ≤ (w.stop.clock.second : Int))) ∧
      (d ≠ w.start.date → ¬ w.IsLast d → entry = (c.periodsOfDay d).1) := by
  have hmem : d ∈ w.days := (Window.mem_days_iff_touches hlast).mpr hd
  have hnormal := h.normal_periodsOfDay d
  refine ⟨w.cut true d (c.periodsOfDay d).1, h.represents.get?_periodsOfDays hformat hmem true,
    Window.normal_cut true d hnormal, fun m => ?_, fun hfirst hinside => ?_⟩
  · exact Window.coveredBy_cut_iff_seconds hlast hd hnormal m
  · exact Window.cut_eq_self hlast hd hfirst hinside

/-- A window inside one day, from half a minute past nine to a second before eleven. -/
theorem adjusted_entry_in_seconds_one_day :
    let c := (empty.answer (.addOpening ["p=540-660"])).2
    let monday : Date := ⟨2024, 1, 1, by decide⟩
    let w : Window := ⟨⟨monday, ⟨32430, 0, by decide, by decide⟩⟩,
      ⟨monday, ⟨39599, 0, by decide, by decide⟩⟩⟩
    Reachable c ∧ c.timetable.config.dateFormat = Date.isoFormat ∧ ¬ w.Touches Date.last ∧
      w.Touches monday ∧ ∃ entry, (c.periodsOfDays w true).1.get? "2024-01-01" = some entry ∧
        ∀ m, CoveredBy entry m ↔ 541 ≤ m ∧ m < 659 := by
  intro c monday w
  have hvalue : c.timetable.periodsOfDay monday = [⟨540, 660⟩] := by subst monday c; decide +kernel
  have hformat : c.timetable.config.dateFormat = Date.isoFormat := rfl
  have hkey : c.timetable.dayKey monday = "2024-01-01" := by
    rw [Timetable.dayKey, hformat]
    subst monday
    decide +kernel
  have hc : Reachable c := .answer _ .empty
  have hlast : ¬ w.Touches Date.last := fun h => absurd h.toStop (by decide)
  have hd : w.Touches monday := ⟨by decide, by decide, by decide⟩
  have hisLast : w.IsLast monday := by
    refine ⟨hd, fun e he hlt => ?_⟩
    rcases he.toStop with hbefore | ⟨heq, _⟩
    · exact Date.lt_asymm hlt hbefore
    · exact Date.lt_irrefl _ (heq ▸ hlt)
  refine ⟨hc, hformat, hlast, hd, ?_⟩
  obtain ⟨entry, hget, _, hcover, _⟩ := adjusted_entry_in_seconds hc hformat hlast hd
  refine ⟨entry, hkey ▸ hget, fun m => ?_⟩
  rw [hcover, (hc.represents.periodsOfDay monday).value_eq, hvalue]
  have hstart : (540 : Int32).toInt = 540 := by decide
  have hstop : (660 : Int32).toInt = 660 := by decide
  have hmidnight : w.stop.isMidnight = false := by decide
  simp only [Interval.coveredBy_cons, Interval.coveredBy_nil, Interval.Covers, hstart, hstop,
    or_false, hisLast, hmidnight, true_implies]
  show (540 ≤ m ∧ m < 660) ∧ (monday = monday → (32430 : Int) ≤ 60 * m) ∧
    60 * (m + 1) ≤ (39599 : Int) ↔ 541 ≤ m ∧ m < 659
  simp only [true_implies]
  omega

end Calendar

end OpeningHours
