import OpeningHours.Proofs.Calendar.AdjustedSlots
import OpeningHours.Proofs.Calendar.Saved
import OpeningHours.Proofs.Date.Rendering
import OpeningHours.Proofs.Date.TextOrder

/-! The keys of days.

The format of a calendar was accepted by the check, so it renders for every date, and no key is
ever the ISO form that stands in for a format that does not. The keys of the default format tell
the days apart: a table under these keys has one entry for each of its days, in the order of the
days (`HoldsEach`). -/
namespace OpeningHours

/-! ### Formats of calendars -/

namespace Calendar
variable {c : Calendar}

theorem Reachable.renders (h : Reachable c) (d : Date) :
    d.format? c.timetable.config.dateFormat = some (c.timetable.dayKey d) := by
  have haccepted := (Config.check_eq_ok_iff.mp h.sound.settings).2
  have hrendered := (Config.checkDateFormat_eq_ok_iff.mp haccepted).2 d
  obtain ⟨text, htext⟩ := Option.ne_none_iff_exists'.mp hrendered
  rw [Timetable.dayKey, htext, Option.getD_some]

/-- **A format is tried out on one date for all.** What the check accepts renders for every date.
What it refuses, although it is not blank and is well formed, is refused because no date renders.
Every calendar that a session reaches has an accepted format, and the key of a day is what the
format renders. -/
theorem format_tried_once :
    (∀ format, Config.checkDateFormat format = .ok () →
      ∀ d : Date, ∃ text, d.format? format = some text) ∧
    (∀ format, Text.trim format.toList ≠ [] → DateFormat.items? format.toList ≠ none →
      Config.checkDateFormat format ≠ .ok () →
        Config.checkDateFormat format = .error (.unrenderableFormat format) ∧
          ∀ d : Date, d.format? format = none) ∧
    ∀ c, Reachable c → ∀ d : Date,
      d.format? c.timetable.config.dateFormat = some (c.timetable.dayKey d) := by
  refine ⟨fun format haccepted d => ?_, fun format hblank hitems hrefused => ?_,
    fun c hc => hc.renders⟩
  · have hrendered := (Config.checkDateFormat_eq_ok_iff.mp haccepted).2 d
    exact Option.ne_none_iff_exists'.mp hrendered
  · have hcheck := Config.checkDateFormat_of_items hblank hitems
    by_cases hfirst : Date.first.format? format = none
    · rw [if_pos hfirst] at hcheck
      exact ⟨hcheck, fun d => (d.format?_eq_none_congr Date.first).mpr hfirst⟩
    · rw [if_neg hfirst] at hcheck
      exact absurd hcheck hrefused

/-- A format with names, and one that asks for the hour. -/
theorem format_tried_once_names_and_hour :
    let names := "%a %e %b %Y (%j)"
    let hour := "%Y-%m-%d %H"
    let c := (empty.answer (.setDateFormat names)).2
    Config.checkDateFormat names = .ok () ∧ (∃ text, Date.last.format? names = some text) ∧
      (Text.trim hour.toList ≠ [] ∧ DateFormat.items? hour.toList ≠ none ∧
        Config.checkDateFormat hour ≠ .ok ()) ∧ Date.last.format? hour = none ∧
      Reachable c ∧ c.timetable.dayKey Date.last = "Mon 31 Dec +262142 (365)" := by
  intro names hour c
  have hnames : Config.checkDateFormat names = .ok () := by
    have hfirst : Date.first.format? names = some "Thu  1 Jan -262143 (001)" := by
      subst names
      decide +kernel
    exact Config.checkDateFormat_eq_ok (by decide) hfirst
  have hblank : Text.trim hour.toList ≠ [] := by decide
  have hitems : DateFormat.items? hour.toList ≠ none := by
    have hread : DateFormat.items? hour.toList = some [.year .zeros, .literal '-',
        .field .month .zeros, .literal '-', .field .day .zeros, .literal ' ', .clock] := by
      subst hour
      decide +kernel
    exact hread ▸ Option.some_ne_none _
  have hhour : Config.checkDateFormat hour ≠ .ok () := by
    have hfirst : Date.first.format? hour = none := by
      subst hour
      decide +kernel
    rw [Config.checkDateFormat_of_items hblank hitems, if_pos hfirst]
    intro haccepted
    cases haccepted
  have hc : Reachable c := .answer _ .empty
  have hformat : c.timetable.config.dateFormat = names := by
    rw [timetable_setDateFormat _ hnames]
  have hlast : Date.last.format? names = some "Mon 31 Dec +262142 (365)" := by
    subst names
    decide +kernel
  obtain ⟨haccepted, hrefused, hreachable⟩ := format_tried_once
  refine ⟨hnames, haccepted names hnames Date.last, ⟨hblank, hitems, hhour⟩,
    (hrefused hour hblank hitems hhour).2 Date.last, hc, ?_⟩
  have hkey := hreachable c hc Date.last
  rw [hformat, hlast] at hkey
  exact (Option.some.inj hkey).symm

end Calendar

/-! ### Days with keys of their own -/

/-- The table has one entry for each of the days, in their order, and under the key of a day is
the day's own value. -/
structure DayTable.HoldsEach {α : Type} (m : DayTable α) (days : List Date) (key : Date → String)
    (value : Date → α) : Prop where
  entries : m.entries = days.map fun d => (key d, value d)
  own : ∀ d ∈ days, m.get? (key d) = some (value d)

theorem Timetable.holdsEach_collect {t : Timetable} {α : Type}
    (hformat : t.config.dateFormat = Date.isoFormat) (w : Window) (value : Date → α) :
    (t.collect w.days value).HoldsEach w.days t.dayKey value where
  entries := entries_collect hformat w value
  own _ hd := Calendar.get?_collect hformat hd value

namespace Calendar
variable {c : Calendar}

/-- **With the default format no day is lost.** No two dates have one key. So the answers for a
window have one entry for each of its days, in ascending order, and under the key of a day is the
day's own value. The keys of the years 0 to 9999 ascend with the dates. -/
theorem days_keep_their_entries (h : Reachable c)
    (hformat : c.timetable.config.dateFormat = Date.isoFormat) :
    (∀ d e : Date, d ≠ e → c.timetable.dayKey d ≠ c.timetable.dayKey e) ∧
      (∀ (w : Window) (adjust : Bool), w.days.Pairwise (· < ·) ∧
        (c.openDays w).1.HoldsEach w.days c.timetable.dayKey
          (fun d => !(c.periodsOfDay d).1.isEmpty) ∧
        (c.periodsOfDays w adjust).1.HoldsEach w.days c.timetable.dayKey
          (fun d => w.cut adjust d (c.periodsOfDay d).1) ∧
        (c.slotsOfDays w adjust).1.HoldsEach w.days c.timetable.dayKey
          (fun d => c.timetable.grid.slice (w.cut adjust d (c.periodsOfDay d).1))) ∧
      ∀ d e : Date, d.FourDigitYear → e.FourDigitYear →
        (c.timetable.dayKey d < c.timetable.dayKey e ↔ d < e) := by
  have hrep := h.represents
  refine ⟨fun d e hne hkey => hne (dayKey_inj hformat hkey), fun w adjust => ?_,
    fun d e hd he => ?_⟩
  · simp only [(hrep.openDays w).value_eq, (hrep.periodsOfDays w adjust).value_eq,
      (hrep.slotsOfDays w adjust).value_eq, (hrep.periodsOfDay _).value_eq,
      ← Timetable.periodsInWindow_eq]
    exact ⟨w.pairwise_days, Timetable.holdsEach_collect hformat w _,
      Timetable.holdsEach_collect hformat w _, Timetable.holdsEach_collect hformat w _⟩
  · rw [dayKey_isoFormat hformat, dayKey_isoFormat hformat,
      Date.toISO_lt_iff hd he]

/-- From the year 10000 on a key begins with a sign, which stands before all digits. -/
theorem days_keep_their_entries_year_10000 :
    let c := (empty.answer (.addOpening ["p=540-660"])).2
    let eve : Date := ⟨9999, 12, 30, by decide⟩
    let last : Date := ⟨9999, 12, 31, by decide⟩
    let w : Window := ⟨⟨eve, ⟨36000, 0, by decide, by decide⟩⟩,
      ⟨⟨10000, 1, 1, by decide⟩, ⟨36000, 0, by decide, by decide⟩⟩⟩
    Reachable c ∧ c.timetable.config.dateFormat = Date.isoFormat ∧
      (c.periodsOfDays w true).1.entries = [("9999-12-30", [⟨600, 660⟩]),
        ("9999-12-31", [⟨540, 660⟩]), ("+10000-01-01", [⟨540, 600⟩])] ∧
      (c.periodsOfDays w true).1.get? "9999-12-31" = some [⟨540, 660⟩] ∧
      c.timetable.dayKey eve < c.timetable.dayKey last ∧ "+10000-01-01" < "9999-12-31" := by
  intro c eve last w
  have hc : Reachable c := .answer _ .empty
  have htable : c.timetable = ⟨{}, [⟨"p=540-660", [.periods [⟨540, 660⟩]]⟩], []⟩ := rfl
  have hformat : c.timetable.config.dateFormat = Date.isoFormat := by rw [htable]
  have hdays : w.days = [eve, last, ⟨10000, 1, 1, by decide⟩] := by
    subst w eve last
    rfl
  have hvalue : ∀ d, (c.periodsOfDay d).1 = [⟨540, 660⟩] := by
    intro d
    rw [(hc.represents.periodsOfDay d).value_eq, htable]
    exact Timetable.periodsOfDay_always _ _ ⟨by decide, by decide⟩ d
  have hkey : ∀ d, c.timetable.dayKey d = d.toISO := dayKey_isoFormat hformat
  obtain ⟨-, hwindows, hascend⟩ := days_keep_their_entries hc hformat
  have hperiods := (hwindows w true).2.2.1
  have hentries : w.days.map (fun d => (d.toISO, w.cut true d [⟨540, 660⟩])) =
      [("9999-12-30", [⟨600, 660⟩]), ("9999-12-31", [⟨540, 660⟩]),
        ("+10000-01-01", [⟨540, 600⟩])] := by
    rw [hdays]
    subst w eve last
    rfl
  have hlast : last.toISO = "9999-12-31" := by
    subst last
    decide +kernel
  have hwhole : w.cut true last [⟨540, 660⟩] = [⟨540, 660⟩] := by
    subst w eve last
    rfl
  have hown := hperiods.own last (by simp [hdays])
  rw [hkey, hvalue, hlast, hwhole] at hown
  refine ⟨hc, hformat, ?_, hown, (hascend eve last (by decide) (by decide)).mpr (by decide),
    by decide⟩
  rw [hperiods.entries, funext hkey]
  simp only [hvalue]
  exact hentries

end Calendar

end OpeningHours
