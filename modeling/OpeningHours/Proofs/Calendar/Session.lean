import OpeningHours.Calendar.Session
import OpeningHours.Proofs.Calendar.Fresh
import OpeningHours.Proofs.Calendar.Represents

/-! Sessions against a reference without memory.

The reference is the timetable with the same requests (`Timetable.answer`): a change
replaces rules or settings, a query computes its answer from them and leaves them.
A calendar that represents a timetable takes every request as the reference does
(`Represents.answer`), and so it goes through whole sessions. The reference never
reads the cache size, so sessions on calendars with other cache sizes and other
pasts answer alike. -/
namespace OpeningHours

namespace Timetable
open Calendar (Request Answer)

/-- The answer to a change that can be refused; a refusal leaves the timetable as it was. -/
def attempt (t : Timetable) : Except Fault Timetable → Answer × Timetable
  | .ok changed => (.done, changed)
  | .error fault => (.refused fault, t)

/-- What a calendar without memory answers, and its rules and settings after that. -/
def answer (t : Timetable) : Request → Answer × Timetable
  | .addOpening texts => t.attempt (t.addOpening texts)
  | .addClosing texts => t.attempt (t.addClosing texts)
  | .clearOpening => (.done, {t with opening := []})
  | .clearClosing => (.done, {t with closing := []})
  | .clearRules => (.done, {t with opening := [], closing := []})
  | .setGranularity minutes => t.attempt (t.setGranularity minutes)
  | .setMidnightAlignment enabled => (.done, {t with config.midnightAlignment := enabled})
  | .setCacheSize size => (.done, {t with config.cacheSize := size})
  | .setDateFormat format => t.attempt (t.setDateFormat format)
  | .clearCaches => (.done, t)
  | .periodsOfDay day => (.intervals (t.periodsOfDay day), t)
  | .slotsOfDay day => (.intervals (t.slotsOfDay day), t)
  | .slotsOfPeriods periods => (.intervals (t.slotsOfPeriods periods), t)
  | .slotsOfPeriod period => (.intervals (t.slotsOfPeriods [period]), t)
  | .openDays window => (.opens (t.openDays window), t)
  | .periodsOfDays window adjust => (.intervalsOfDays (t.periodsOfDays window adjust), t)
  | .slotsOfDays window adjust => (.intervalsOfDays (t.slotsOfDays window adjust), t)

def answerAll (t : Timetable) : List Request → List Answer × Timetable
  | [] => ([], t)
  | request :: rest =>
    let (first, t) := t.answer request
    let (others, t) := t.answerAll rest
    (first :: others, t)

/-! ### The reference and the cache size -/

def withCacheSize (size : UInt64) (t : Timetable) : Timetable :=
  {t with config.cacheSize := size}

/-- Timetables with the same rules and the same settings but for the cache size. -/
def AgreesWith (t u : Timetable) : Prop := ∃ size, u = t.withCacheSize size

variable (t : Timetable) (size : UInt64)

theorem addOpening_withCacheSize (texts : List String) :
    (t.withCacheSize size).addOpening texts = (t.addOpening texts).map (withCacheSize size) := by
  unfold addOpening
  cases readRules texts <;> rfl

theorem addClosing_withCacheSize (texts : List String) :
    (t.withCacheSize size).addClosing texts = (t.addClosing texts).map (withCacheSize size) := by
  unfold addClosing
  cases readRules texts <;> rfl

theorem setGranularity_withCacheSize (minutes : UInt32) :
    (t.withCacheSize size).setGranularity minutes =
      (t.setGranularity minutes).map (withCacheSize size) := by
  unfold setGranularity
  cases Config.checkGranularity minutes <;> rfl

theorem setDateFormat_withCacheSize (format : String) :
    (t.withCacheSize size).setDateFormat format =
      (t.setDateFormat format).map (withCacheSize size) := by
  unfold setDateFormat
  cases Config.checkDateFormat format <;> rfl

/-- What either makes or refuses the other makes or refuses too. -/
theorem attempt_withCacheSize {change change' : Except Fault Timetable}
    (h : change' = change.map (withCacheSize size)) :
    ((t.withCacheSize size).attempt change').1 = (t.attempt change).1 ∧
      (t.attempt change).2.AgreesWith ((t.withCacheSize size).attempt change').2 := by
  subst h
  cases change with
  | ok changed => exact ⟨rfl, size, rfl⟩
  | error fault => exact ⟨rfl, size, rfl⟩

variable {t}

theorem AgreesWith.answer {u : Timetable} (h : t.AgreesWith u) (request : Request) :
    (u.answer request).1 = (t.answer request).1 ∧
      (t.answer request).2.AgreesWith (u.answer request).2 := by
  obtain ⟨size, rfl⟩ := h
  cases request with
  | addOpening texts => exact attempt_withCacheSize t size (addOpening_withCacheSize t size texts)
  | addClosing texts => exact attempt_withCacheSize t size (addClosing_withCacheSize t size texts)
  | setGranularity minutes =>
    exact attempt_withCacheSize t size (setGranularity_withCacheSize t size minutes)
  | setDateFormat format =>
    exact attempt_withCacheSize t size (setDateFormat_withCacheSize t size format)
  | setCacheSize other => exact ⟨rfl, other, rfl⟩
  | _ => exact ⟨rfl, size, rfl⟩

theorem AgreesWith.answerAll {u : Timetable} (h : t.AgreesWith u) (requests : List Request) :
    (u.answerAll requests).1 = (t.answerAll requests).1 := by
  induction requests generalizing t u with
  | nil => rfl
  | cons request rest ih =>
    obtain ⟨hfirst, hnext⟩ := h.answer request
    simp only [Timetable.answerAll, hfirst, ih hnext]

end Timetable

namespace Calendar
variable {c : Calendar} {t : Timetable}

/-! ### One request -/

theorem Represents.attempt (h : c.Represents t) (change : Except Fault Timetable) :
    (c.attempt (change.map c.renew)).1 = (t.attempt change).1 ∧
      (c.attempt (change.map c.renew)).2.Represents (t.attempt change).2 := by
  cases change with
  | ok changed => exact ⟨rfl, represents_renew c changed⟩
  | error fault => exact ⟨rfl, h⟩

/-- A query of intervals, read as a step of the session. -/
theorem Answers.intervals {value : List Interval} {result : List Interval × Calendar}
    (h : Answers t value result) :
    Answer.intervals result.1 = .intervals value ∧ result.2.Represents t :=
  ⟨congrArg _ h.value_eq, h.represents⟩

/-- **One request**: the calendar answers as the reference does, and represents what the
reference becomes. -/
theorem Represents.answer (h : c.Represents t) (request : Request) :
    (c.answer request).1 = (t.answer request).1 ∧
      (c.answer request).2.Represents (t.answer request).2 := by
  cases request with
  | addOpening texts => exact h.timetable ▸ h.attempt (c.timetable.addOpening texts)
  | addClosing texts => exact h.timetable ▸ h.attempt (c.timetable.addClosing texts)
  | setGranularity minutes => exact h.timetable ▸ h.attempt (c.timetable.setGranularity minutes)
  | setDateFormat format => exact h.timetable ▸ h.attempt (c.timetable.setDateFormat format)
  | clearOpening => exact ⟨rfl, h.timetable ▸ represents_renew c _⟩
  | clearClosing => exact ⟨rfl, h.timetable ▸ represents_renew c _⟩
  | clearRules => exact ⟨rfl, h.timetable ▸ represents_renew c _⟩
  | setMidnightAlignment enabled => exact ⟨rfl, h.timetable ▸ represents_renew c _⟩
  | setCacheSize size => exact ⟨rfl, h.setCacheSize size⟩
  | clearCaches => exact ⟨rfl, h.clearCaches⟩
  | periodsOfDay day => exact (h.periodsOfDay day).intervals
  | slotsOfDay day => exact (h.slotsOfDay day).intervals
  | slotsOfPeriods periods => exact (h.slotsOfPeriods periods).intervals
  | slotsOfPeriod period => exact (h.slotsOfPeriods [period]).intervals
  | openDays window =>
    exact ⟨congrArg Answer.opens (h.openDays window).value_eq, (h.openDays window).represents⟩
  | periodsOfDays window adjust =>
    have hday := h.periodsOfDays window adjust
    exact ⟨congrArg Answer.intervalsOfDays hday.value_eq, hday.represents⟩
  | slotsOfDays window adjust =>
    have hday := h.slotsOfDays window adjust
    exact ⟨congrArg Answer.intervalsOfDays hday.value_eq, hday.represents⟩

/-! ### Sessions -/

theorem Represents.answerAll (h : c.Represents t) (requests : List Request) :
    (c.answerAll requests).1 = (t.answerAll requests).1 ∧
      (c.answerAll requests).2.Represents (t.answerAll requests).2 := by
  induction requests generalizing c t with
  | nil => exact ⟨rfl, h⟩
  | cons request rest ih =>
    obtain ⟨hfirst, hnext⟩ := h.answer request
    obtain ⟨hothers, hlast⟩ := ih hnext
    refine ⟨?_, hlast⟩
    simp only [Calendar.answerAll, Timetable.answerAll, hfirst, hothers]

/-- **Every calendar that a session reaches represents its timetable.** -/
theorem Reachable.represents (h : Reachable c) : c.Represents c.timetable := by
  induction h with
  | empty => exact represents_ofTimetable _
  | ofConfig hconfig =>
    obtain ⟨_, rfl⟩ := ofConfig_eq_ok_iff.mp hconfig
    exact represents_ofTimetable _
  | ofRuleFile hfile =>
    obtain ⟨_, _, _, _, _, rfl⟩ := ofRuleFile_eq_ok_iff.mp hfile
    exact represents_ofTimetable _
  | answer request _ ih =>
    have hnext := (ih.answer request).2
    exact hnext.timetable ▸ hnext

/-- **No answer depends on what is remembered.** From any calendar that a session reaches, all
further requests are answered from the rules and the settings alone, and change them as they
change without memory. A calendar with another cache size and another past, but the same rules
and otherwise the same settings, answers alike. -/
theorem answers_without_memory (h : Reachable c) (requests : List Request) :
    (c.answerAll requests).1 = (c.timetable.answerAll requests).1 ∧
      (c.answerAll requests).2.timetable = (c.timetable.answerAll requests).2 ∧
      ∀ c' : Calendar, Reachable c' → c.timetable.AgreesWith c'.timetable →
        (c'.answerAll requests).1 = (c.answerAll requests).1 := by
  obtain ⟨hanswers, hafter⟩ := h.represents.answerAll requests
  refine ⟨hanswers, hafter.timetable, fun c' h' hagree => ?_⟩
  rw [(h'.represents.answerAll requests).1, hagree.answerAll, hanswers]

/-- Slots asked for twice, on two grids, with a refused change in between: those of a whole day and
those of a window that cuts the day at ten past nine, with adjustment and without. With room for
one result and without any the answers are the same. -/
theorem answers_without_memory_two_grids :
    let monday : Date := ⟨2024, 1, 1, by decide⟩
    let w : Window := ⟨⟨monday, ⟨33000, 0, by decide, by decide⟩⟩,
      ⟨⟨2024, 1, 2, by decide⟩, .midnight⟩⟩
    let slots (l : List Interval) : Answer := .intervalsOfDays (DayTable.ofList [("2024-01-01", l)])
    let requests : List Request := [.addOpening ["p=540-600"], .slotsOfDay monday,
      .slotsOfDays w true, .addClosing ["p=600-540"], .setGranularity 45, .slotsOfDays w true,
      .slotsOfDay monday, .slotsOfDays w false]
    let answers : List Answer := [.done, .intervals [⟨540, 570⟩, ⟨570, 600⟩],
      slots [⟨550, 580⟩], .refused (.rule (.emptyRange "p" 600 540)), .done, slots [⟨550, 595⟩],
      .intervals [⟨540, 585⟩], slots [⟨540, 585⟩]]
    let small := (empty.answer (.setCacheSize 1)).2
    Reachable small ∧ (small.answerAll requests).1 = answers ∧
      Reachable empty ∧ small.timetable.AgreesWith empty.timetable ∧
      (empty.answerAll requests).1 = answers := by
  intro monday w slots requests answers small
  have hsmall : Reachable small := .answer _ .empty
  have hagree : small.timetable.AgreesWith empty.timetable := ⟨0, rfl⟩
  obtain ⟨hanswers, _, halike⟩ := answers_without_memory hsmall requests
  have hvalue : (small.timetable.answerAll requests).1 = answers := by
    subst small answers requests slots w monday
    decide +kernel
  refine ⟨hsmall, hanswers.trans hvalue, .empty, hagree, ?_⟩
  rw [halike empty .empty hagree, hanswers, hvalue]

end Calendar

end OpeningHours
