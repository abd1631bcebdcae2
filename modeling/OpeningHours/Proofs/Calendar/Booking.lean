import OpeningHours.Proofs.Calendar.OpenMinutes
import OpeningHours.Proofs.Calendar.Saved
import OpeningHours.Proofs.Interval.Slots

/-! The slots of a day.

An open period of a day is a longest run of its open minutes (`Timetable.IsOpenPeriod`);
the periods of a day are just these. The slots of a day are the pieces of one width that
fit into an open period, side by side from its first start on (`Timetable.IsPiece`): all
of them, and no others (`Timetable.Sound.mem_slotsOfDay`). So no slot holds a minute that is
closed, and no two slots share a minute. -/
namespace OpeningHours

namespace Timetable
variable {t : Timetable} {d : Date}

/-- A longest run of open minutes. -/
def IsOpenPeriod (t : Timetable) (d : Date) (start stop : Int) : Prop :=
  start < stop ∧ (∀ m, start ≤ m → m < stop → t.IsOpen d m) ∧
    ¬ t.IsOpen d (start - 1) ∧ ¬ t.IsOpen d stop

theorem isOpenPeriod_iff (h : t.Sound) {start stop : Int} : t.IsOpenPeriod d start stop ↔
    ∃ i ∈ t.periodsOfDay d, i.start.toInt = start ∧ i.stop.toInt = stop := by
  rw [(t.normal_periodsOfDay d).exists_bounds_iff]
  simp only [coveredBy_periodsOfDay h]
  rfl

/-- The width of a slot. -/
def width (t : Timetable) : Int := t.config.granularity.toNat

/-- One of the pieces of an open period, side by side from its first start on, that end in it. -/
def IsPiece (t : Timetable) (d : Date) (a b : Int) : Prop :=
  ∃ start stop first, t.IsOpenPeriod d start stop ∧ t.grid.IsFirstStart start first ∧
    ∃ i : Nat, a = first + i * t.width ∧ b = first + (i + 1) * t.width ∧ b ≤ stop

/-! ### Slots and open periods -/

/-- The width of the slots of a sound timetable is one minute to one day. -/
theorem Sound.granularity_bounds (h : t.Sound) :
    1 ≤ t.config.granularity.toNat ∧ t.config.granularity.toNat ≤ 1440 := by
  obtain ⟨hgranularity, _⟩ := Config.check_eq_ok_iff.mp h.settings
  exact Config.checkGranularity_eq_ok_iff.mp hgranularity

theorem Sound.granularity_pos (h : t.Sound) : 0 < t.grid.granularity.toNat :=
  h.granularity_bounds.1

/-- A sound timetable slices by its own width. -/
theorem Sound.exists_width (h : t.Sound) : ∃ width : { w : Minute // 0 < w.toInt },
    t.grid.width? = some width ∧ width.val.toInt = t.width := by
  obtain ⟨hleast, hgreatest⟩ := h.granularity_bounds
  exact Grid.width?_eq_some ⟨hleast, Nat.le_trans hgreatest (by decide)⟩

theorem Sound.mem_slotsOfDay (h : t.Sound) {a b : Int} :
    (a, b) ∈ (t.slotsOfDay d).map Grid.bounds ↔ t.IsPiece d a b := by
  obtain ⟨width, hwidth, hvalue⟩ := h.exists_width
  have hfirst : ∀ {start first}, t.grid.IsFirstStart start first ↔
      t.grid.firstStart t.config.granularity.toNat start = first :=
    Grid.isFirstStart_iff h.granularity_pos
  rw [slotsOfDay, slotsOfPeriods, Grid.mem_bounds_slice hwidth, hvalue, IsPiece]
  simp only [isOpenPeriod_iff h, hfirst]
  constructor
  · rintro ⟨period, hmem, hi⟩
    exact ⟨_, _, _, ⟨period, hmem, rfl, rfl⟩, rfl, hi⟩
  · rintro ⟨_, _, _, ⟨period, hmem, rfl, rfl⟩, rfl, hi⟩
    exact ⟨period, hmem, hi⟩

theorem Sound.pairwise_slotsOfDay (h : t.Sound) (d : Date) :
    (t.slotsOfDay d).Pairwise fun a b => a.stop.toInt ≤ b.start.toInt := by
  obtain ⟨width, hwidth, _⟩ := h.exists_width
  exact Grid.pairwise_slice hwidth (t.normal_periodsOfDay d)

/-- A piece has the width, and all its minutes are open. -/
theorem IsPiece.width_and_open (h : t.Sound) {a b : Int} (hpiece : t.IsPiece d a b) :
    b - a = t.width ∧ ∀ m, a ≤ m → m < b → t.IsOpen d m := by
  obtain ⟨start, stop, first, ⟨_, hopen, _⟩, hfirst, i, ha, hb, hstop⟩ := hpiece
  have hle : start ≤ first := hfirst.le h.granularity_pos
  have hshift : 0 ≤ (i : Int) * t.width :=
    Int.mul_nonneg (Int.natCast_nonneg i) (Int.natCast_nonneg _)
  rw [Int.add_mul, Int.one_mul] at hb
  exact ⟨by omega, fun m hlow hhigh => hopen m (by omega) (by omega)⟩

end Timetable

namespace Calendar
variable {c : Calendar}

/-- **The slots of a day** follow one another; each has the width of the calendar's grid, lies in
the day and holds open minutes only. They are all the pieces of the day's open periods, and no
others. -/
theorem slotsOfDay_bookable (h : Reachable c) (d : Date) :
    (c.slotsOfDay d).1.Pairwise (fun a b => a.stop.toInt ≤ b.start.toInt) ∧
      (∀ slot ∈ (c.slotsOfDay d).1,
        slot.stop.toInt - slot.start.toInt = c.timetable.width ∧
          0 ≤ slot.start.toInt ∧ slot.start.toInt < slot.stop.toInt ∧ slot.stop.toInt ≤ 1440 ∧
          ∀ m, slot.Covers m → c.timetable.IsOpen d m) ∧
      ∀ a b, (∃ slot ∈ (c.slotsOfDay d).1, slot.start.toInt = a ∧ slot.stop.toInt = b) ↔
        c.timetable.IsPiece d a b := by
  have hsound := h.sound
  rw [(h.represents.slotsOfDay d).value_eq]
  refine ⟨hsound.pairwise_slotsOfDay d, fun slot hslot => ?_, fun a b => ?_⟩
  · have hpiece := hsound.mem_slotsOfDay.mp (List.mem_map_of_mem hslot)
    obtain ⟨hwidth, hopen⟩ := hpiece.width_and_open hsound
    have hpositive : (1 : Int) ≤ c.timetable.width :=
      Int.ofNat_le.mpr hsound.granularity_pos
    -- The first and the last minute of the slot are open, so they are minutes of the day.
    obtain ⟨hstart, _⟩ := hopen slot.start.toInt (Int.le_refl _) (by omega)
    obtain ⟨_, hstop, _⟩ := hopen (slot.stop.toInt - 1) (by omega) (by omega)
    exact ⟨hwidth, hstart, by omega, by omega, fun m hm => hopen m hm.1 hm.2⟩
  · rw [← hsound.mem_slotsOfDay, List.mem_map]
    simp only [Grid.bounds, Prod.mk.injEq]

/-- An hourly grid on a Monday: a period from 8:10 to 8:50 that holds no full hour, one from 9:10
to 13:20 that is closed for ten minutes at 11:10, and an afternoon that is open on Tuesdays only. -/
theorem slotsOfDay_bookable_hourly :
    let monday : Date := ⟨2024, 1, 1, by decide⟩
    let tuesday : Date := ⟨2024, 1, 2, by decide⟩
    let c := ((((empty.answer (.addOpening ["p=490-530", "p=550-800", "p=840-960;wd=2"])).2.answer
      (.addClosing ["p=670-680"])).2.answer (.setGranularity 60)).2.answer
      (.setMidnightAlignment true)).2
    Reachable c ∧ (c.slotsOfDay monday).1 = [⟨600, 660⟩, ⟨720, 780⟩] ∧
      (c.slotsOfDay tuesday).1 = [⟨600, 660⟩, ⟨720, 780⟩, ⟨840, 900⟩, ⟨900, 960⟩] ∧
      c.timetable.IsOpen monday 600 ∧ c.timetable.IsPiece monday 600 660 ∧
      ¬ c.timetable.IsPiece monday 660 720 ∧ ¬ c.timetable.IsPiece monday 840 900 ∧
      c.timetable.IsPiece tuesday 840 900 := by
  intro monday tuesday c
  have hc : Reachable c := .answer _ (.answer _ (.answer _ (.answer _ .empty)))
  have hgrid : c.timetable.grid = ⟨60, true⟩ := by subst c; decide +kernel
  have hclosing : ∀ d ∈ [monday, tuesday],
      Timetable.contributions c.timetable.closing d = [⟨670, 680⟩] := by
    subst c monday tuesday
    decide +kernel
  have hperiods : c.timetable.periodsOfDay monday = [⟨490, 530⟩, ⟨550, 670⟩, ⟨680, 800⟩] := by
    have hopening : Timetable.contributions c.timetable.opening monday =
        [⟨490, 530⟩, ⟨550, 800⟩] := by
      subst c monday
      decide +kernel
    rw [Timetable.periodsOfDay, hopening, hclosing _ (by simp)]
    refine (Interval.eq_subtract ⟨by decide, by decide⟩ fun m => ?_).symm
    simp [Interval.Covers]
    omega
  have hperiods' : c.timetable.periodsOfDay tuesday =
      [⟨490, 530⟩, ⟨550, 670⟩, ⟨680, 800⟩, ⟨840, 960⟩] := by
    have hopening : Timetable.contributions c.timetable.opening tuesday =
        [⟨490, 530⟩, ⟨550, 800⟩, ⟨840, 960⟩] := by
      subst c tuesday
      decide +kernel
    rw [Timetable.periodsOfDay, hopening, hclosing _ (by simp)]
    refine (Interval.eq_subtract ⟨by decide, by decide⟩ fun m => ?_).symm
    simp [Interval.Covers]
    omega
  have hmonday : (c.slotsOfDay monday).1 = [⟨600, 660⟩, ⟨720, 780⟩] := by
    rw [(hc.represents.slotsOfDay monday).value_eq, Timetable.slotsOfDay,
      Timetable.slotsOfPeriods, hperiods, hgrid]
    decide +kernel
  have htuesday : (c.slotsOfDay tuesday).1 =
      [⟨600, 660⟩, ⟨720, 780⟩, ⟨840, 900⟩, ⟨900, 960⟩] := by
    rw [(hc.represents.slotsOfDay tuesday).value_eq, Timetable.slotsOfDay,
      Timetable.slotsOfPeriods, hperiods', hgrid]
    decide +kernel
  obtain ⟨_, hslot, hpieces⟩ := slotsOfDay_bookable hc monday
  obtain ⟨_, _, hpieces'⟩ := slotsOfDay_bookable hc tuesday
  rw [hmonday] at hslot hpieces
  rw [htuesday] at hpieces'
  obtain ⟨_, _, _, _, hopen⟩ := hslot ⟨600, 660⟩ List.mem_cons_self
  refine ⟨hc, hmonday, htuesday, hopen 600 (by decide), (hpieces 600 660).mp (by decide), ?_, ?_,
    (hpieces' 840 900).mp (by decide)⟩
  · rw [← hpieces]
    decide
  · rw [← hpieces]
    decide

end Calendar

end OpeningHours
