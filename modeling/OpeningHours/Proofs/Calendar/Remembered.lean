import OpeningHours.Proofs.Calendar.Session
import OpeningHours.Proofs.Eviction

/-! What a calendar remembers, in every state that a session reaches.

That all of it is right for the rules and settings of the moment is `Represents`; what
is added here is how much is remembered (`Keeps`): each memory has the cache size as
its capacity and is within it, and a day that has a state has its periods in it. Only a
change of the cache size moves the limit (`limitAfter`), by resizing the memories as
they are; every other change renews the calendar and keeps their capacity. -/
namespace OpeningHours.Calendar

/-- The memories are within the limit, and every day with a state has periods. -/
structure Keeps (c : Calendar) (limit : Nat) : Prop where
  reductions : c.reductions.Bounded limit
  differences : c.differences.Bounded limit
  slicings : c.slicings.Bounded limit
  periods : ∀ (d : Date) (s : DayState), c.days[d]? = some s → s.periods ≠ none

variable {c : Calendar} {t : Timetable} {limit : Nat}

/-! ### Making and changing -/

theorem keeps_ofTimetable (t : Timetable) : (ofTimetable t).Keeps t.config.cacheSize.toNat where
  reductions := Memory.bounded_empty _
  differences := Memory.bounded_empty _
  slicings := Memory.bounded_empty _
  periods := by simp [ofTimetable]

theorem Keeps.clearCaches (h : c.Keeps limit) : c.clearCaches.Keeps limit where
  reductions := h.reductions.clear
  differences := h.differences.clear
  slicings := h.slicings.clear
  periods := h.periods

theorem Keeps.renew (h : c.Keeps limit) (t : Timetable) : (c.renew t).Keeps limit where
  reductions := h.reductions.clear
  differences := h.differences.clear
  slicings := h.slicings.clear
  periods := by simp [Calendar.renew, forget]

theorem Keeps.setCacheSize (h : c.Keeps limit) (size : UInt64) :
    (c.setCacheSize size).Keeps size.toNat where
  reductions := h.reductions.resize size.toNat
  differences := h.differences.resize size.toNat
  slicings := h.slicings.resize size.toNat
  periods := h.periods

/-! ### Remembered operations -/

theorem Keeps.reduce (h : c.Keeps limit) (l : List Interval) : (c.reduce l).2.Keeps limit :=
  {h with reductions := h.reductions.fetch Interval.reduce l}

theorem Keeps.subtract (h : c.Keeps limit) (opening closing : List Interval) :
    (c.subtract opening closing).2.Keeps limit := by
  unfold Calendar.subtract
  split
  · exact h
  · have hreduced := (h.reduce opening).reduce closing
    exact {hreduced with differences := hreduced.differences.put _ _}

theorem Keeps.slotsOfPeriods (h : c.Keeps limit) (periods : List Interval) :
    (c.slotsOfPeriods periods).2.Keeps limit :=
  {h with slicings := h.slicings.fetch c.timetable.grid.slice periods}

/-! ### Single days -/

theorem Keeps.insert (h : c.Keeps limit) (d : Date) {s : DayState} (hs : s.periods ≠ none) :
    Keeps {c with days := c.days.insert d s} limit where
  reductions := h.reductions
  differences := h.differences
  slicings := h.slicings
  periods e s' he := by
    rw [Std.HashMap.getElem?_insert] at he
    split at he
    · cases he
      exact hs
    · exact h.periods e s' he

theorem Keeps.periodsOfDay (h : c.Keeps limit) (d : Date) :
    (c.periodsOfDay d).2.Keeps limit := by
  unfold Calendar.periodsOfDay
  split
  · exact h
  · exact (h.subtract _ _).insert d (Option.some_ne_none _)

/-- Once asked for, the periods of a day are in its state. -/
theorem periods_dayState_periodsOfDay (c : Calendar) (d : Date) :
    ((c.periodsOfDay d).2.dayState d).periods = some (c.periodsOfDay d).1 := by
  unfold Calendar.periodsOfDay
  split
  · assumption
  · rw [dayState_insert, if_pos rfl]

theorem Keeps.slotsOfDay (h : c.Keeps limit) (d : Date) : (c.slotsOfDay d).2.Keeps limit := by
  unfold Calendar.slotsOfDay
  split
  · exact h
  · -- The state that takes the slots has the periods they were cut from.
    have hperiods : ((c.periodsOfDay d).2.dayState d).periods ≠ none := by
      rw [periods_dayState_periodsOfDay]
      exact Option.some_ne_none _
    exact ((h.periodsOfDay d).slotsOfPeriods _).insert d hperiods

/-- Once asked for, the slots of a day are in its state. -/
theorem slots_dayState_slotsOfDay (c : Calendar) (d : Date) :
    ((c.slotsOfDay d).2.dayState d).slots = some (c.slotsOfDay d).1 := by
  unfold Calendar.slotsOfDay
  split
  · assumption
  · rw [dayState_insert, if_pos rfl]

theorem getElem?_of_dayState_ne {d : Date} (h : c.dayState d ≠ {}) :
    c.days[d]? = some (c.dayState d) := by
  unfold dayState at h ⊢
  cases hd : c.days[d]? with
  | none =>
    rw [hd] at h
    exact absurd rfl h
  | some s => rfl

/-! ### Windows -/

theorem Keeps.collect {α : Type} {ask : Calendar → Date → α × Calendar} (h : c.Keeps limit)
    (days : List Date)
    (hask : ∀ (c : Calendar) (d : Date), c.Keeps limit → (ask c d).2.Keeps limit) :
    (c.collect days ask).2.Keeps limit := by
  unfold Calendar.collect
  generalize (DayTable.empty : DayTable α) = answers
  induction days generalizing c answers with
  | nil => exact h
  | cons d rest ih =>
    rw [List.foldl_cons]
    exact ih (hask c d h) _

theorem Keeps.openDays (h : c.Keeps limit) (w : Window) : (c.openDays w).2.Keeps limit :=
  h.collect w.days fun _ d hc => hc.periodsOfDay d

theorem Keeps.periodsOfDays (h : c.Keeps limit) (w : Window) (adjust : Bool) :
    (c.periodsOfDays w adjust).2.Keeps limit := by
  unfold Calendar.periodsOfDays
  exact h.collect w.days fun _ d hc => hc.periodsOfDay d

theorem Keeps.slotsOfDays (h : c.Keeps limit) (w : Window) (adjust : Bool) :
    (c.slotsOfDays w adjust).2.Keeps limit := by
  have hperiods := h.periodsOfDays w adjust
  unfold Calendar.slotsOfDays
  simp only
  generalize (DayTable.empty : DayTable (List Interval)) = answers
  generalize (c.periodsOfDays w adjust).2 = c' at hperiods
  generalize (c.periodsOfDays w adjust).1.entries = entries
  induction entries generalizing c' answers with
  | nil => exact hperiods
  | cons e rest ih =>
    rw [List.foldl_cons]
    exact ih _ _ (hperiods.slotsOfPeriods e.2)

/-! ### Sessions -/

/-- The room that each memory has after a request. -/
def limitAfter (limit : Nat) : Request → Nat
  | .setCacheSize size => size.toNat
  | _ => limit

theorem Keeps.attempt (h : c.Keeps limit) (change : Except Fault Timetable) :
    (c.attempt (change.map c.renew)).2.Keeps limit := by
  cases change with
  | ok changed => exact h.renew changed
  | error fault => exact h

/-- **One request** keeps what is remembered within the limit that it leaves. -/
theorem Keeps.answer (h : c.Keeps limit) (request : Request) :
    (c.answer request).2.Keeps (limitAfter limit request) := by
  cases request with
  | addOpening texts => exact h.attempt (c.timetable.addOpening texts)
  | addClosing texts => exact h.attempt (c.timetable.addClosing texts)
  | setGranularity minutes => exact h.attempt (c.timetable.setGranularity minutes)
  | setDateFormat format => exact h.attempt (c.timetable.setDateFormat format)
  | clearOpening | clearClosing | clearRules | setMidnightAlignment _ => exact h.renew _
  | setCacheSize size => exact h.setCacheSize size
  | clearCaches => exact h.clearCaches
  | periodsOfDay day => exact h.periodsOfDay day
  | slotsOfDay day => exact h.slotsOfDay day
  | slotsOfPeriods periods => exact h.slotsOfPeriods periods
  | slotsOfPeriod period => exact h.slotsOfPeriods [period]
  | openDays window => exact h.openDays window
  | periodsOfDays window adjust => exact h.periodsOfDays window adjust
  | slotsOfDays window adjust => exact h.slotsOfDays window adjust

theorem cacheSize_attempt {change : Except Fault Timetable}
    (h : ∀ u, change = .ok u → u.config.cacheSize = t.config.cacheSize) :
    (t.attempt change).2.config.cacheSize = t.config.cacheSize := by
  cases hc : change with
  | ok u => exact h u hc
  | error fault => rfl

/-- The cache size is the limit: no other request changes it. -/
theorem cacheSize_answer (t : Timetable) (request : Request) :
    (t.answer request).2.config.cacheSize.toNat =
      limitAfter t.config.cacheSize.toNat request := by
  cases request with
  | addOpening texts | addClosing texts | setGranularity minutes | setDateFormat format =>
    refine congrArg UInt64.toNat (cacheSize_attempt fun u hu => ?_)
    obtain ⟨_, _, hchanged⟩ := bind_eq_ok_iff.mp hu
    cases hchanged
    rfl
  | _ => rfl

/-- Every calendar that a session reaches keeps to its own cache size. -/
theorem Reachable.keeps (h : Reachable c) : c.Keeps c.timetable.config.cacheSize.toNat := by
  induction h with
  | empty => exact keeps_ofTimetable _
  | ofConfig hconfig =>
    obtain ⟨_, rfl⟩ := ofConfig_eq_ok_iff.mp hconfig
    exact keeps_ofTimetable _
  | ofRuleFile hfile =>
    obtain ⟨_, _, _, _, _, rfl⟩ := ofRuleFile_eq_ok_iff.mp hfile
    exact keeps_ofTimetable _
  | answer request hc ih =>
    rw [(hc.represents.answer request).2.timetable, cacheSize_answer]
    exact ih.answer request

/-- **Nothing stale is remembered.** In every calendar that a session reaches, each memory has the
cache size as its capacity and has no more entries, none if the size is zero. Its entries are
values of its operation: normal forms, differences, and slots on the present grid. A day that has
a state has its periods there, as the present rules give them; if the state has slots, they are
those that the present rules and grid give. -/
theorem nothing_stale_remembered (h : Reachable c) :
    let limit := c.timetable.config.cacheSize.toNat
    (c.reductions.Bounded limit ∧ c.differences.Bounded limit ∧ c.slicings.Bounded limit) ∧
      (limit = 0 → c.cacheSizes = (0, 0, 0)) ∧
      (∀ l value, c.reductions.table[l]? = some value → value = Interval.reduce l) ∧
      (∀ opening closing value, c.differences.table[(opening, closing)]? = some value →
        value = Interval.subtract opening closing) ∧
      (∀ l value, c.slicings.table[l]? = some value → value = c.timetable.grid.slice l) ∧
      ∀ (d : Date) (s : DayState), c.days[d]? = some s →
        s.periods = some (c.timetable.periodsOfDay d) ∧
          ∀ value, s.slots = some value → value = c.timetable.slotsOfDay d := by
  intro limit
  have hkeeps : c.Keeps limit := h.keeps
  have hexact := h.represents
  refine ⟨⟨hkeeps.reductions, hkeeps.differences, hkeeps.slicings⟩, fun hzero => ?_,
    hexact.reductions, fun opening closing => hexact.differences (opening, closing),
    hexact.slicings, fun d s hs => ?_⟩
  · have hreductions := hzero ▸ hkeeps.reductions.size_le
    have hdifferences := hzero ▸ hkeeps.differences.size_le
    have hslicings := hzero ▸ hkeeps.slicings.size_le
    rw [cacheSizes, Nat.le_zero.mp hreductions, Nat.le_zero.mp hdifferences,
      Nat.le_zero.mp hslicings]
  · have hstate : c.dayState d = s := by rw [dayState, hs, Option.getD_some]
    obtain ⟨value, hvalue⟩ := Option.ne_none_iff_exists'.mp (hkeeps.periods d s hs)
    have hperiods := hexact.periods d value (hstate ▸ hvalue)
    exact ⟨hperiods ▸ hvalue, fun value hslots => hexact.slots d value (hstate ▸ hslots)⟩

/-- A day asked for on two grids, with room for one result of each operation. -/
theorem nothing_stale_remembered_two_grids :
    let opened := ((empty.answer (.setCacheSize 1)).2.answer (.addOpening ["p=540-600"])).2
    let asked := (opened.answer (.slotsOfDay Date.first)).2
    let changed := (asked.answer (.setGranularity 45)).2
    let c := (changed.answer (.slotsOfDay Date.first)).2
    Reachable c ∧ c.slicings.capacity = 1 ∧ c.slicings.size ≤ 1 ∧
      c.days[Date.first]? = some ⟨some [⟨540, 600⟩], some [⟨540, 585⟩]⟩ := by
  intro opened asked changed c
  let t : Timetable := ⟨{granularity := 45, cacheSize := 1},
    [⟨"p=540-600", [.periods [⟨540, 600⟩]]⟩], []⟩
  have hopened : Reachable opened := .answer _ (.answer _ .empty)
  have hasked : Reachable asked := .answer _ hopened
  have hchanged : Reachable changed := .answer _ hasked
  have hc : Reachable c := .answer _ hchanged
  have htimetable : c.timetable = t := by
    rw [(hchanged.represents.answer (.slotsOfDay Date.first)).2.timetable,
      (hasked.represents.answer (.setGranularity 45)).2.timetable,
      (hopened.represents.answer (.slotsOfDay Date.first)).2.timetable]
    rfl
  have hsize : c.timetable.config.cacheSize.toNat = 1 := by rw [htimetable]; rfl
  obtain ⟨⟨_, _, hslicings⟩, _, _, _, _, hdays⟩ := nothing_stale_remembered hc
  rw [hsize] at hslicings
  refine ⟨hc, hslicings.capacity, hslicings.size_le, ?_⟩
  have hslots : (c.dayState Date.first).slots = some (changed.slotsOfDay Date.first).1 :=
    slots_dayState_slotsOfDay changed Date.first
  have hstate : c.days[Date.first]? = some (c.dayState Date.first) :=
    getElem?_of_dayState_ne fun h => by rw [h] at hslots; cases hslots
  obtain ⟨hperiods, hexact⟩ := hdays _ _ hstate
  have hvalue : t.periodsOfDay Date.first = [⟨540, 600⟩] ∧
      t.slotsOfDay Date.first = [⟨540, 585⟩] := by
    subst t
    exact ⟨by decide +kernel, by decide +kernel⟩
  rw [hstate]
  rw [hexact _ hslots, htimetable, hvalue.2] at hslots
  rw [htimetable, hvalue.1] at hperiods
  cases hday : c.dayState Date.first with
  | mk periods slots =>
    rw [hday] at hperiods hslots
    cases hperiods
    cases hslots
    rfl

end OpeningHours.Calendar
