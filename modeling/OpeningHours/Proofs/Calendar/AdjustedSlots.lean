import Mathlib.Data.List.Sort
import OpeningHours.Proofs.Calendar.Booking
import OpeningHours.Proofs.Calendar.Windows

/-! Slots of an adjusted window on an aligned grid.

A window may cut a period in the middle of a slot, and the slots of what is left are
made anew. On an aligned grid a slot is any interval of the grid's width that starts at
a multiple of it and holds open minutes only, whatever period it lies in
(`Grid.mem_slice_aligned`). So a cut makes no new slots: of those of the whole day it
leaves the ones that lie on its side (`slice_cut`), for every place of the cut. -/
namespace OpeningHours
open OpeningHours.Interval (CoveredBy Normal)

/-! ### Slots of a cut day -/

namespace Window
variable {w : Window} {d : Date} {l : List Interval}

/-- The slots of a day that lie in the window, to the minutes of its cuts: on the first listed day
they start no earlier than it does, and on the last one they end no later. -/
def keepsSlot (w : Window) (d : Date) (slot : Interval) : Bool :=
  decide ((w.days.head? = some d → w.startMinute ≤ slot.start) ∧
    (w.days.getLast? = some d → slot.stop ≤ w.stopMinute))

theorem keepsSlot_iff {slot : Interval} : w.keepsSlot d slot = true ↔
    (w.days.head? = some d → w.startMinute.toInt ≤ slot.start.toInt) ∧
      (w.days.getLast? = some d → slot.stop.toInt ≤ w.stopMinute.toInt) := by
  rw [keepsSlot, decide_eq_true_eq, Int32.le_iff_toInt_le, Int32.le_iff_toInt_le]

/-- The minutes of a slot are left by the cut if the slot lies in the window. -/
theorem covered_cut_iff {slot : Interval} (hslot : slot.start.toInt < slot.stop.toInt) :
    (∀ m, slot.start.toInt ≤ m → m < slot.stop.toInt → CoveredBy (w.cut true d l) m) ↔
      (∀ m, slot.start.toInt ≤ m → m < slot.stop.toInt → CoveredBy l m) ∧
        w.keepsSlot d slot = true := by
  simp only [coveredBy_cut, keepsSlot_iff, true_and]
  constructor
  · intro h
    obtain ⟨_, hstart, _⟩ := h slot.start.toInt (Int.le_refl _) hslot
    obtain ⟨_, _, hstop⟩ := h (slot.stop.toInt - 1) (by omega) (by omega)
    refine ⟨fun m hlow hhigh => (h m hlow hhigh).1, hstart, fun hlast => ?_⟩
    have := hstop hlast
    omega
  · intro h m hlow hhigh
    obtain ⟨hcover, hstart, hstop⟩ := h
    refine ⟨hcover m hlow hhigh, fun hfirst => ?_, fun hlast => ?_⟩
    · exact Int.le_trans (hstart hfirst) hlow
    · exact Int.lt_of_lt_of_le hhigh (hstop hlast)

instance : Std.Asymm fun a b : Interval => a.start.toInt < b.start.toInt :=
  ⟨fun _ _ => Int.lt_asymm⟩

/-- **Slots of a cut day**: those of the whole day that lie in the window, in their order. -/
theorem slice_cut {g : Grid} {width : { w : Minute // 0 < w.toInt }}
    (hwidth : g.width? = some width) (haligned : g.aligned = true) (hl : Normal l) :
    g.slice (w.cut true d l) = (g.slice l).filter (w.keepsSlot d) := by
  have hcut : Normal (w.cut true d l) := normal_cut true d hl
  refine (Grid.pairwise_start_slice hwidth haligned hcut).eq_of_mem_iff
    ((Grid.pairwise_start_slice hwidth haligned hl).filter _) fun slot => ?_
  rw [List.mem_filter, Grid.mem_slice_aligned hwidth haligned hcut,
    Grid.mem_slice_aligned hwidth haligned hl, and_assoc, and_assoc]
  refine and_congr_right fun _ => and_congr_right fun hstop => ?_
  have hproper := width.property
  exact covered_cut_iff (by omega)

end Window

/-! ### Tables of one entry a day -/

/-- With keys that tell the days apart, each day of a window has its own entry. -/
theorem Timetable.entries_collect {t : Timetable} {α : Type}
    (hformat : t.config.dateFormat = Date.isoFormat) (w : Window) (value : Date → α) :
    (t.collect w.days value).entries = w.days.map fun d => (t.dayKey d, value d) := by
  apply DayTable.entries_ofList
  have hkeys : Entries.keys (w.days.map fun d => (t.dayKey d, value d)) = w.days.map t.dayKey := by
    simp [Entries.keys]
  rw [hkeys]
  exact w.pairwise_days.nodup.map fun _ _ => Calendar.dayKey_inj hformat

namespace Calendar
variable {c : Calendar}

/-- **Adjustment drops slots and makes none.** With the default format and an aligned grid, the
slots of a window have one entry for each of its days: without adjustment the slots of the day,
with adjustment those of them that lie in the window, in the same order. -/
theorem adjusted_slots (h : Reachable c) (haligned : c.timetable.config.midnightAlignment = true)
    (hformat : c.timetable.config.dateFormat = Date.isoFormat) (w : Window) :
    (c.slotsOfDays w false).1.entries =
        (w.days.map fun d => (c.timetable.dayKey d, (c.slotsOfDay d).1)) ∧
      (c.slotsOfDays w true).1.entries =
        w.days.map fun d =>
          (c.timetable.dayKey d, (c.slotsOfDay d).1.filter (w.keepsSlot d)) := by
  have hrep := h.represents
  obtain ⟨width, hwidth, _⟩ := h.sound.exists_width
  simp only [(hrep.slotsOfDays w _).value_eq, (hrep.slotsOfDay _).value_eq, Timetable.slotsOfDays,
    Timetable.entries_collect hformat, Timetable.periodsInWindow_eq, Timetable.slotsOfDay,
    Timetable.slotsOfPeriods]
  refine ⟨?_, ?_⟩
  · simp [Window.cut]
  · simp only [Window.slice_cut hwidth haligned (c.timetable.normal_periodsOfDay _)]

/-- An hourly grid, and a window from twenty past ten, in the middle of a slot, to one. -/
theorem adjusted_slots_hourly :
    let c := (((empty.answer (.addOpening ["p=550-800"])).2.answer (.setGranularity 60)).2.answer
      (.setMidnightAlignment true)).2
    let monday : Date := ⟨2024, 1, 1, by decide⟩
    let w : Window := ⟨⟨monday, ⟨37200, 0, by decide, by decide⟩⟩,
      ⟨monday, ⟨46800, 0, by decide, by decide⟩⟩⟩
    Reachable c ∧ c.timetable.config.midnightAlignment = true ∧
      c.timetable.config.dateFormat = Date.isoFormat ∧
      (c.slotsOfDays w false).1.entries =
        [("2024-01-01", [⟨600, 660⟩, ⟨660, 720⟩, ⟨720, 780⟩])] ∧
      (c.slotsOfDays w true).1.entries = [("2024-01-01", [⟨660, 720⟩, ⟨720, 780⟩])] := by
  intro c monday w
  have hc : Reachable c := .answer _ (.answer _ (.answer _ .empty))
  have haligned : c.timetable.config.midnightAlignment = true := rfl
  have hformat : c.timetable.config.dateFormat = Date.isoFormat := rfl
  have hdays : w.days = [monday] := by subst w monday; rfl
  have hslots : (c.slotsOfDay monday).1 = [⟨600, 660⟩, ⟨660, 720⟩, ⟨720, 780⟩] := by
    rw [(hc.represents.slotsOfDay monday).value_eq]
    subst c monday
    decide +kernel
  have hkey : c.timetable.dayKey monday = "2024-01-01" := by
    rw [Timetable.dayKey, hformat]
    subst monday
    decide +kernel
  have hkept : List.filter (w.keepsSlot monday) [⟨600, 660⟩, ⟨660, 720⟩, ⟨720, 780⟩] =
      [⟨660, 720⟩, ⟨720, 780⟩] := by
    subst w monday
    rfl
  obtain ⟨hwhole, hadjusted⟩ := adjusted_slots hc haligned hformat w
  rw [hdays, List.map_singleton, hslots, hkey] at hwhole hadjusted
  rw [hkept] at hadjusted
  exact ⟨hc, haligned, hformat, hwhole, hadjusted⟩

end Calendar

end OpeningHours
