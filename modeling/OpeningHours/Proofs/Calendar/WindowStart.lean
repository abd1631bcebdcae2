import OpeningHours.Proofs.Calendar.Windows

/-! Where the periods of an adjusted window start.

The first day is cut at the first whole minute that is not before the second in which
the window starts. So a window loses every period that starts before it, unless it
starts in the course of the very second that begins a minute: what the window has of
nanoseconds there is not counted, and a period that covers this minute is offered from
it on, just before the window. Nanoseconds go up to two seconds, since a leap second is
told within the second before it; a leap second at the end of a minute is no exception,
as the next minute is the first whole one after it. -/
namespace OpeningHours
open OpeningHours.Interval (CoveredBy Normal)

/-! ### Minutes as times of day -/

namespace Clock

/-- The time of day at which a minute begins. -/
def atMinute? (m : Minute) : Option Clock :=
  if 0 ≤ m then ofParts? (m.toInt.toNat / 60) (m.toInt.toNat % 60) 0 0 else none

theorem atMinute?_eq_some {m : Minute} (hlow : 0 ≤ m.toInt) (hhigh : m.toInt < 1440) :
    ∃ k, atMinute? m = some k ∧ (k.second : Int) = 60 * m.toInt ∧ k.nano = 0 := by
  have hminute : 0 ≤ m := Int32.le_iff_toInt_le.mpr (Int.le_trans (by decide) hlow)
  have hparts : m.toInt.toNat / 60 < 24 ∧ m.toInt.toNat % 60 < 60 ∧ 0 < 60 ∧ 0 < 2000000000 ∧
      (1000000000 ≤ 0 → 0 = 59) := by omega
  rw [atMinute?, if_pos hminute, ofParts?, dif_pos hparts]
  refine ⟨_, rfl, ?_, rfl⟩
  show ((m.toInt.toNat / 60 * 3600 + m.toInt.toNat % 60 * 60 + 0 : Nat) : Int) = 60 * m.toInt
  omega

/-- A time that is not a second or more before another is before it only within that second. -/
theorem lt_iff_of_second_le {k c : Clock} (hsecond : c.second ≤ k.second) (hnano : k.nano = 0) :
    k < c ↔ k.second = c.second ∧ 0 < c.nano := by
  show k.second < c.second ∨ k.second = c.second ∧ k.nano < c.nano ↔ _
  omega

end Clock

/-- The first minute of the interval begins before a time of day. -/
def Interval.StartsEarly (i : Interval) (c : Clock) : Prop :=
  ∃ k, Clock.atMinute? i.start = some k ∧ k < c

theorem Interval.startsEarly_iff {i : Interval} {c : Clock} (hi : i.InDay)
    (hstart : (c.second : Int) ≤ 60 * i.start.toInt) :
    i.StartsEarly c ↔ 60 * i.start.toInt = c.second ∧ 0 < c.nano := by
  have hday : i.start.toInt < 1440 := Int.lt_of_lt_of_le hi.2.1 hi.2.2
  obtain ⟨k, hk, hsecond, hnano⟩ := Clock.atMinute?_eq_some hi.1 hday
  have hbefore := Clock.lt_iff_of_second_le (k := k) (c := c) (by omega) hnano
  rw [StartsEarly, hk]
  simp only [Option.some.injEq, exists_eq_left', hbefore]
  omega

/-! ### The cut of the first day -/

namespace Window
variable {w : Window} {d : Date} {l : List Interval}

/-- No period of the first day starts before the second in which the window starts. -/
theorem second_le_of_mem_cut (hfirst : w.days.head? = some d) (hl : Normal l) {i : Interval}
    (hi : i ∈ w.cut true d l) : (w.start.clock.second : Int) ≤ 60 * i.start.toInt := by
  have hproper := (normal_cut (w := w) true d hl).inDay i hi
  have hcover : CoveredBy (w.cut true d l) i.start.toInt := ⟨i, hi, Int.le_refl _, hproper.2.1⟩
  obtain ⟨_, hstart, _⟩ := (coveredBy_cut true d _).mp hcover
  exact (startMinute_le_iff w _).mp (hstart ⟨rfl, hfirst⟩)

/-- Some period of the first day starts early exactly if the window starts in the course of the
first second of a minute, and this minute is left by the cut. -/
theorem exists_startsEarly_iff (hfirst : w.days.head? = some d) (hl : Normal l) :
    (∃ i ∈ w.cut true d l, i.StartsEarly w.start.clock) ↔
      w.start.clock.second % 60 = 0 ∧ 0 < w.start.clock.nano ∧
        CoveredBy (w.cut true d l) (w.start.clock.second / 60 : Nat) := by
  have hday := (normal_cut (w := w) true d hl).inDay
  have hsecond : ∀ i ∈ w.cut true d l, (w.start.clock.second : Int) ≤ 60 * i.start.toInt :=
    fun i hi => second_le_of_mem_cut hfirst hl hi
  constructor
  · rintro ⟨i, hi, hearly⟩
    obtain ⟨heq, hnano⟩ := (Interval.startsEarly_iff (hday i hi) (hsecond i hi)).mp hearly
    have hminute : ((w.start.clock.second / 60 : Nat) : Int) = i.start.toInt := by omega
    exact ⟨by omega, hnano, i, hi, Int.le_of_eq hminute.symm, hminute ▸ (hday i hi).2.1⟩
  · rintro ⟨hwhole, hnano, i, hi, hlow, _⟩
    -- The minute of the start is covered by an interval that starts no earlier: it starts there.
    have := hsecond i hi
    exact ⟨i, hi, (Interval.startsEarly_iff (hday i hi) (hsecond i hi)).mpr ⟨by omega, hnano⟩⟩

/-- A window from the last date of the calendar on has no days. -/
theorem days_eq_nil_of_last (hlast : w.start.date = Date.last) : w.days = [] := by
  apply List.eq_nil_iff_forall_not_mem.mpr
  intro d hd
  obtain ⟨htouches, hne⟩ := mem_days.mp hd
  rcases Date.lt_or_eq_or_gt d Date.last with hlt | heq | hgt
  · exact htouches.fromStart (hlast ▸ hlt)
  · exact hne heq
  · exact absurd (Date.number_lt_of_lt hgt) (Int.not_lt.mpr d.number_le_last)

end Window

namespace Calendar
variable {c : Calendar} {t : Timetable}

/-- The entry of the day on which a window starts, with the keys of the default format. -/
theorem Represents.get?_start (h : c.Represents t)
    (hformat : t.config.dateFormat = Date.isoFormat) {w : Window} (hproper : w.start < w.stop) :
    (c.periodsOfDays w true).1.get? (t.dayKey w.start.date) =
      if w.start.date = Date.last then none
      else some (w.cut true w.start.date (t.periodsOfDay w.start.date)) := by
  split
  · rename_i hlast
    rw [(h.periodsOfDays w true).value_eq, Timetable.periodsOfDays, Timetable.collect,
      Window.days_eq_nil_of_last hlast]
    rfl
  · rename_i hlast
    have hmem := Window.mem_days.mpr ⟨Window.touches_start hproper, hlast⟩
    rw [h.get?_periodsOfDays hformat hmem, (h.periodsOfDay _).value_eq]

/-- **Adjusted periods start no earlier than the second in which the window starts.** With the
default format the day on which a window starts has an entry, unless it is the last date of the
calendar. A period of this entry begins before the window only at the beginning of the very second
in which the window starts; and there is such a period exactly if this second begins a minute, the
window starts some nanoseconds after that, a leap second after it included, and this minute is left
in the entry. -/
theorem adjusted_start_to_the_second (h : Reachable c)
    (hformat : c.timetable.config.dateFormat = Date.isoFormat) {w : Window}
    (hproper : w.start < w.stop) :
    let entry := (c.periodsOfDays w true).1.get? (c.timetable.dayKey w.start.date)
    (entry = none ↔ w.start.date = Date.last) ∧
      ∀ periods, entry = some periods →
        (∀ i ∈ periods, ∃ k, Clock.atMinute? i.start = some k ∧
          (k < w.start.clock ↔ k.second = w.start.clock.second ∧ 0 < w.start.clock.nano)) ∧
        ((∃ i ∈ periods, i.StartsEarly w.start.clock) ↔
          w.start.clock.second % 60 = 0 ∧ 0 < w.start.clock.nano ∧
            CoveredBy periods (w.start.clock.second / 60 : Nat)) := by
  intro entry
  have hentry : entry = _ := h.represents.get?_start hformat hproper
  rw [hentry]
  split
  · rename_i hlast
    exact ⟨by simp [hlast], nofun⟩
  · rename_i hlast
    refine ⟨by simp [hlast], ?_⟩
    rintro periods ⟨⟩
    have hnormal := c.timetable.normal_periodsOfDay w.start.date
    have hmem := Window.mem_days.mpr ⟨Window.touches_start hproper, hlast⟩
    have hfirst := (Window.head?_days_iff hmem).mpr rfl
    refine ⟨fun i hi => ?_, Window.exists_startsEarly_iff hfirst hnormal⟩
    have hday := (Window.normal_cut (w := w) true w.start.date hnormal).inDay i hi
    have hsecond := Window.second_le_of_mem_cut hfirst hnormal hi
    obtain ⟨k, hk, hkstart, hnano⟩ :=
      Clock.atMinute?_eq_some hday.1 (Int.lt_of_lt_of_le hday.2.1 hday.2.2)
    exact ⟨k, hk, Clock.lt_iff_of_second_le (by omega) hnano⟩

/-- Two windows from a leap second: that at the end of the first minute after nine, where the next
minute is the first one offered, and one told a second and a half after nine, where the minute
before it is offered. -/
theorem adjusted_start_to_the_second_leap :
    let c := (empty.answer (.addOpening ["p=540-600"])).2
    let monday : Date := ⟨2024, 1, 1, by decide⟩
    let stop : Instant := ⟨⟨2024, 1, 2, by decide⟩, .midnight⟩
    let w : Window := ⟨⟨monday, ⟨32459, 1500000000, by decide, by decide⟩⟩, stop⟩
    let v : Window := ⟨⟨monday, ⟨32400, 1500000000, by decide, by decide⟩⟩, stop⟩
    Reachable c ∧ c.timetable.config.dateFormat = Date.isoFormat ∧
      (w.start < w.stop ∧
        (c.periodsOfDays w true).1.get? (c.timetable.dayKey monday) = some [⟨541, 600⟩] ∧
        ¬ (Interval.mk 541 600).StartsEarly w.start.clock) ∧
      v.start < v.stop ∧
      (c.periodsOfDays v true).1.get? (c.timetable.dayKey monday) = some [⟨540, 600⟩] ∧
      (Interval.mk 540 600).StartsEarly v.start.clock := by
  intro c monday stop w v
  have hc : Reachable c := .answer _ .empty
  have hformat : c.timetable.config.dateFormat = Date.isoFormat := rfl
  have hw : w.start < w.stop := by decide
  have hv : v.start < v.stop := by decide
  have hcut : w.cut true monday (c.timetable.periodsOfDay monday) = [⟨541, 600⟩] := by
    subst w stop monday c
    decide +kernel
  have hwhole : v.cut true monday (c.timetable.periodsOfDay monday) = [⟨540, 600⟩] := by
    subst v stop monday c
    decide +kernel
  have hentry : (c.periodsOfDays w true).1.get? (c.timetable.dayKey monday) =
      some [⟨541, 600⟩] := by
    rw [hc.represents.get?_start hformat hw, if_neg (by decide), hcut]
  have hentry' : (c.periodsOfDays v true).1.get? (c.timetable.dayKey monday) =
      some [⟨540, 600⟩] := by
    rw [hc.represents.get?_start hformat hv, if_neg (by decide), hwhole]
  obtain ⟨_, hearly⟩ := (adjusted_start_to_the_second hc hformat hw).2 _ hentry
  obtain ⟨_, hearly'⟩ := (adjusted_start_to_the_second hc hformat hv).2 _ hentry'
  simp only [List.mem_singleton, exists_eq_left] at hearly hearly'
  have hbetween : ¬ w.start.clock.second % 60 = 0 := by decide
  have hcovered : CoveredBy [⟨540, 600⟩] (v.start.clock.second / 60 : Nat) :=
    ⟨_, List.mem_singleton_self _, by decide⟩
  exact ⟨hc, hformat, ⟨hw, hentry, fun h => hbetween (hearly.mp h).1⟩, hv, hentry',
    hearly'.mpr ⟨by decide, by decide, hcovered⟩⟩

/-- Half a second after nine the period from nine on is not cut: it starts early. -/
theorem adjusted_start_half_second_early :
    let c := (empty.answer (.addOpening ["p=540-600"])).2
    let monday : Date := ⟨2024, 1, 1, by decide⟩
    let w : Window := ⟨⟨monday, ⟨32400, 500000000, by decide, by decide⟩⟩,
      ⟨⟨2024, 1, 2, by decide⟩, .midnight⟩⟩
    Reachable c ∧ c.timetable.config.dateFormat = Date.isoFormat ∧ w.start < w.stop ∧
      (c.periodsOfDays w true).1.get? (c.timetable.dayKey monday) = some [⟨540, 600⟩] ∧
      (Interval.mk 540 600).StartsEarly w.start.clock := by
  intro c monday w
  have hc : Reachable c := .answer _ .empty
  have hformat : c.timetable.config.dateFormat = Date.isoFormat := rfl
  have hproper : w.start < w.stop := by decide
  have hvalue : w.cut true monday (c.timetable.periodsOfDay monday) = [⟨540, 600⟩] := by
    subst w monday c
    decide +kernel
  have hentry : (c.periodsOfDays w true).1.get? (c.timetable.dayKey monday) =
      some [⟨540, 600⟩] := by
    rw [hc.represents.get?_start hformat hproper, if_neg (by decide), hvalue]
  exact ⟨hc, hformat, hproper, hentry, ⟨32400, 0, by decide, by decide⟩, rfl,
    by decide⟩

end Calendar

end OpeningHours
