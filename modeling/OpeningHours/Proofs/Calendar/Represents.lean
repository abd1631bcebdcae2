import OpeningHours.Calendar.Basic
import OpeningHours.Proofs.DayTable
import OpeningHours.Proofs.Recall

/-! A calendar that represents a timetable.

`Represents` is the invariant of the calendar: it has the rules and the settings of
the timetable, its memories are exact for the timetable's operations, and what it
keeps of a day is what the timetable answers for that day. A change renews the
calendar and so represents the changed timetable, whatever was remembered before;
a query answers as the timetable does and represents the same timetable after it
(`Answers`). -/
namespace OpeningHours.Calendar

structure Represents (c : Calendar) (t : Timetable) : Prop where
  timetable : c.timetable = t
  reductions : c.reductions.Exact Interval.reduce
  differences : c.differences.Exact fun lists => Interval.subtract lists.1 lists.2
  slicings : c.slicings.Exact t.grid.slice
  periods : ∀ d value, (c.dayState d).periods = some value → value = t.periodsOfDay d
  slots : ∀ d value, (c.dayState d).slots = some value → value = t.slotsOfDay d

/-- The result of a query: the value, and a calendar for the same timetable. -/
structure Answers {α : Type} (t : Timetable) (value : α) (result : α × Calendar) : Prop where
  value_eq : result.1 = value
  represents : result.2.Represents t

variable {c : Calendar} {t : Timetable}

/-! ### Making and changing -/

theorem represents_ofTimetable (t : Timetable) : (ofTimetable t).Represents t where
  timetable := rfl
  reductions := Memory.exact_empty _ _
  differences := Memory.exact_empty _ _
  slicings := Memory.exact_empty _ _
  periods := by simp [ofTimetable, dayState]
  slots := by simp [ofTimetable, dayState]

/-- Renewed, a calendar represents the new timetable, whatever it remembered. -/
theorem represents_renew (c : Calendar) (t : Timetable) : (c.renew t).Represents t where
  timetable := rfl
  reductions := Memory.Exact.clear _
  differences := Memory.Exact.clear _
  slicings := Memory.Exact.clear _
  periods := by simp [renew, forget, dayState]
  slots := by simp [renew, forget, dayState]

theorem Represents.clearCaches (h : c.Represents t) : c.clearCaches.Represents t where
  timetable := h.timetable
  reductions := Memory.Exact.clear _
  differences := Memory.Exact.clear _
  slicings := Memory.Exact.clear _
  periods := h.periods
  slots := h.slots

/-- What is kept when the memories are resized still holds: no operation reads the cache size. -/
theorem Represents.setCacheSize (h : c.Represents t) (size : UInt64) :
    (c.setCacheSize size).Represents {t with config.cacheSize := size} where
  timetable := by simp only [Calendar.setCacheSize, h.timetable]
  reductions := h.reductions.resize _
  differences := h.differences.resize _
  slicings := h.slicings.resize _
  periods := h.periods
  slots := h.slots

/-! ### Remembered operations -/

theorem Represents.reduce (h : c.Represents t) (l : List Interval) :
    Answers t (Interval.reduce l) (c.reduce l) where
  value_eq := h.reductions.fetch_fst l
  represents := {h with reductions := h.reductions.fetch_snd l}

theorem Represents.subtract (h : c.Represents t) (opening closing : List Interval) :
    Answers t (Interval.subtract opening closing) (c.subtract opening closing) := by
  unfold Calendar.subtract
  split
  · rename_i hget
    exact ⟨h.differences.get? hget, h⟩
  · -- A miss reduces both sides through the memory and keeps the difference.
    have hopening := h.reduce opening
    have hclosing := hopening.represents.reduce closing
    have hvalue : Interval.subtractReduced (c.reduce opening).1
        ((c.reduce opening).2.reduce closing).1 = Interval.subtract opening closing := by
      rw [hopening.value_eq, hclosing.value_eq]
      rfl
    refine ⟨hvalue, {hclosing.represents with differences := ?_}⟩
    show (Memory.put _ _ _).Exact _
    rw [hvalue]
    exact hclosing.represents.differences.put (opening, closing)

theorem Represents.slotsOfPeriods (h : c.Represents t) (periods : List Interval) :
    Answers t (t.slotsOfPeriods periods) (c.slotsOfPeriods periods) := by
  have hgrid : c.timetable.grid.slice = t.grid.slice := by rw [h.timetable]
  unfold Calendar.slotsOfPeriods
  rw [hgrid]
  exact ⟨h.slicings.fetch_fst periods, {h with slicings := h.slicings.fetch_snd periods}⟩

/-! ### Single days -/

theorem dayState_insert (c : Calendar) (d e : Date) (s : DayState) :
    dayState {c with days := c.days.insert d s} e = if d = e then s else c.dayState e := by
  by_cases h : d = e <;> simp [dayState, Std.HashMap.getElem?_insert, h]

/-- A day's state may be replaced by one that holds of the timetable. -/
theorem Represents.insert (h : c.Represents t) {d : Date} {s : DayState}
    (hperiods : ∀ value, s.periods = some value → value = t.periodsOfDay d)
    (hslots : ∀ value, s.slots = some value → value = t.slotsOfDay d) :
    Represents {c with days := c.days.insert d s} t where
  timetable := h.timetable
  reductions := h.reductions
  differences := h.differences
  slicings := h.slicings
  periods e value he := by
    rw [dayState_insert] at he
    split at he
    · rename_i hd
      exact hd ▸ hperiods value he
    · exact h.periods e value he
  slots e value he := by
    rw [dayState_insert] at he
    split at he
    · rename_i hd
      exact hd ▸ hslots value he
    · exact h.slots e value he

theorem Represents.periodsOfDay (h : c.Represents t) (d : Date) :
    Answers t (t.periodsOfDay d) (c.periodsOfDay d) := by
  unfold Calendar.periodsOfDay
  split
  · rename_i hstate
    exact ⟨h.periods d _ hstate, h⟩
  · have hsub := h.subtract (Timetable.contributions c.timetable.opening d)
      (Timetable.contributions c.timetable.closing d)
    have hvalue : (c.subtract (Timetable.contributions c.timetable.opening d)
        (Timetable.contributions c.timetable.closing d)).1 = t.periodsOfDay d := by
      rw [hsub.value_eq, h.timetable]
      rfl
    refine ⟨hvalue, hsub.represents.insert (fun value hs => ?_) fun value hs => ?_⟩
    · rw [← hvalue]
      exact (Option.some.inj hs).symm
    · exact hsub.represents.slots d value hs

theorem Represents.slotsOfDay (h : c.Represents t) (d : Date) :
    Answers t (t.slotsOfDay d) (c.slotsOfDay d) := by
  unfold Calendar.slotsOfDay
  split
  · rename_i hstate
    exact ⟨h.slots d _ hstate, h⟩
  · have hperiods := h.periodsOfDay d
    have hslots := hperiods.represents.slotsOfPeriods (c.periodsOfDay d).1
    have hvalue : ((c.periodsOfDay d).2.slotsOfPeriods (c.periodsOfDay d).1).1 =
        t.slotsOfDay d := by
      rw [hslots.value_eq, hperiods.value_eq]
      rfl
    refine ⟨hvalue, hslots.represents.insert (fun value hs => ?_) fun value hs => ?_⟩
    · exact hslots.represents.periods d value hs
    · rw [← hvalue]
      exact (Option.some.inj hs).symm

/-! ### Windows -/

/-- Asking for each day in turn gives the table of the timetable's values. -/
theorem Represents.collect {α : Type} {ask : Calendar → Date → α × Calendar} {value : Date → α}
    (h : c.Represents t) (days : List Date)
    (hask : ∀ (c : Calendar) (d : Date), c.Represents t → Answers t (value d) (ask c d)) :
    Answers t (t.collect days value) (c.collect days ask) := by
  unfold Calendar.collect Timetable.collect DayTable.ofList
  rw [List.foldl_map]
  -- The tables grow alike from any table, not only from the empty one.
  generalize (DayTable.empty : DayTable α) = answers
  induction days generalizing c answers with
  | nil => exact ⟨rfl, h⟩
  | cons d rest ih =>
    obtain ⟨hvalue, hnext⟩ := hask c d h
    have hkey : (ask c d).2.timetable.dayKey d = t.dayKey d := by rw [hnext.timetable]
    rw [List.foldl_cons, List.foldl_cons, ← hvalue, ← hkey]
    exact ih hnext _

theorem Represents.openDays (h : c.Represents t) (w : Window) :
    Answers t (t.openDays w) (c.openDays w) := by
  refine h.collect w.days fun c d hc => ?_
  have hperiods := hc.periodsOfDay d
  exact ⟨by show (!(c.periodsOfDay d).1.isEmpty) = _; rw [hperiods.value_eq], hperiods.represents⟩

theorem Represents.periodsOfDays (h : c.Represents t) (w : Window) (adjust : Bool) :
    Answers t (t.periodsOfDays w adjust) (c.periodsOfDays w adjust) := by
  unfold Calendar.periodsOfDays Timetable.periodsOfDays
  refine h.collect w.days fun c d hc => ?_
  have hperiods := hc.periodsOfDay d
  refine ⟨?_, hperiods.represents⟩
  show (if adjust then w.trim w.days.head? w.days.getLast? d (c.periodsOfDay d).1
    else (c.periodsOfDay d).1) = t.periodsInWindow w adjust d
  rw [hperiods.value_eq]
  rfl

/-- The slots of the window are those of the table of periods, entry by entry. -/
theorem slotsOfDays_eq (t : Timetable) (w : Window) (adjust : Bool) :
    t.slotsOfDays w adjust = (t.periodsOfDays w adjust).mapValues t.slotsOfPeriods := by
  unfold Timetable.slotsOfDays Timetable.periodsOfDays Timetable.collect
  rw [DayTable.mapValues_ofList, List.map_map]
  rfl

theorem Represents.slotsOfDays (h : c.Represents t) (w : Window) (adjust : Bool) :
    Answers t (t.slotsOfDays w adjust) (c.slotsOfDays w adjust) := by
  obtain ⟨hvalue, hnext⟩ := h.periodsOfDays w adjust
  unfold Calendar.slotsOfDays
  simp only [hvalue]
  rw [slotsOfDays_eq, ← DayTable.ofList_entries ((t.periodsOfDays w adjust).mapValues _)]
  show Answers t (DayTable.ofList ((t.periodsOfDays w adjust).entries.map _)) _
  unfold DayTable.ofList
  rw [List.foldl_map]
  generalize (DayTable.empty : DayTable (List Interval)) = answers
  generalize (c.periodsOfDays w adjust).2 = c' at hnext
  generalize (t.periodsOfDays w adjust).entries = entries
  induction entries generalizing c' answers with
  | nil => exact ⟨rfl, hnext⟩
  | cons e rest ih =>
    obtain ⟨hslots, hnext⟩ := hnext.slotsOfPeriods e.2
    rw [List.foldl_cons, List.foldl_cons, ← hslots]
    exact ih _ _ hnext

end OpeningHours.Calendar
