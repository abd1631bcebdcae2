import OpeningHours.Proofs.Calendar.Saved
import OpeningHours.Proofs.Interval.Difference
import OpeningHours.Proofs.Rule.Meaning

/-! The open minutes of a day.

A rule concerns a minute of a day when each of its clauses lets the day pass and one of
them has a period that covers the minute (`Rule.Concerns`). A minute of the day is open
when some opening rule concerns it and no closing rule does (`Timetable.IsOpen`). The
periods of a day are the normal form of its open minutes, so they depend on the rules
through these minutes only. Rules are taken as they were read, with one clause of a
kind (`Timetable.Sound`). -/
namespace OpeningHours
open OpeningHours.Interval (CoveredBy Normal)

/-- Every clause of the rule that is a filter has no value or accepts the day, and the periods of
some clause cover the minute. -/
def Rule.Concerns (r : Rule) (d : Date) (m : Int) : Prop :=
  (∀ c ∈ r.clauses, c.kind = .periods ∨ ¬ c.HasValue ∨ c.Accepts d.facts) ∧
    ∃ c ∈ r.clauses, CoveredBy c.intervals m

/-- What a rule contributes covers the minutes that it concerns. -/
theorem Rule.coveredBy_activeIntervals {r : Rule} (hdistinct : (r.clauses.map Clause.kind).Nodup)
    (d : Date) (m : Int) : CoveredBy (r.activeIntervals d.facts) m ↔ r.Concerns d m := by
  rw [Concerns, ← isActive_iff_clauses, ← Interval.coveredBy_flatMap, activeIntervals]
  by_cases hperiods : ∃ c ∈ r.clauses, c.kind = .periods
  · rw [periods?_eq_some hdistinct hperiods]
    cases r.isActive d.facts <;> simp
  · -- Without a periods clause there are no intervals at all.
    have hnone : r.clauses.flatMap Clause.intervals = [] :=
      Clause.flatMap_intervals_eq_nil (by simpa using hperiods)
    rw [periods?_eq_none hperiods, hnone]
    simp

namespace Timetable
variable {t u : Timetable}

/-- Some opening rule concerns the minute, and no closing rule does. -/
def IsOpen (t : Timetable) (d : Date) (m : Int) : Prop :=
  0 ≤ m ∧ m < 1440 ∧ (∃ r ∈ t.opening, r.Concerns d m) ∧ ¬ ∃ r ∈ t.closing, r.Concerns d m

theorem coveredBy_contributions {rules : List Rule} (h : RulesRead rules) (d : Date) (m : Int) :
    CoveredBy (contributions rules d) m ↔ ∃ r ∈ rules, r.Concerns d m := by
  rw [contributions, Interval.coveredBy_flatMap]
  refine exists_congr fun r => and_congr_right fun hr => ?_
  -- A rule that was read has at most one clause of each kind.
  exact Rule.coveredBy_activeIntervals (Rule.wellFormedList_clauses (h r hr)).distinct d m

theorem normal_periodsOfDay (t : Timetable) (d : Date) : Normal (t.periodsOfDay d) :=
  Interval.normal_subtract _ _

theorem coveredBy_periodsOfDay (h : t.Sound) (d : Date) (m : Int) :
    CoveredBy (t.periodsOfDay d) m ↔ t.IsOpen d m := by
  unfold periodsOfDay IsOpen
  rw [Interval.coveredBy_subtract, coveredBy_contributions h.opening,
    coveredBy_contributions h.closing]

/-- The only list in normal form that covers the open minutes. -/
theorem eq_periodsOfDay (h : t.Sound) {d : Date} {l : List Interval} (hl : Normal l)
    (hcover : ∀ m, CoveredBy l m ↔ t.IsOpen d m) : l = t.periodsOfDay d :=
  Interval.eq_subtract hl fun m => by
    rw [hcover, IsOpen, coveredBy_contributions h.opening, coveredBy_contributions h.closing]

/-- A rule that has periods in normal form and no filter, alone in a timetable, gives every day
these periods. -/
theorem periodsOfDay_always (config : Config) (source : String) {l : List Interval}
    (hl : Normal l) (d : Date) : periodsOfDay ⟨config, [⟨source, [.periods l]⟩], []⟩ d = l := by
  have hopening : contributions [⟨source, [.periods l]⟩] d = l := List.append_nil l
  refine (Interval.eq_subtract hl fun m => ?_).symm
  rw [hopening]
  constructor
  · intro hm
    obtain ⟨hlow, hhigh⟩ := hl.mem_day hm
    exact ⟨hlow, hhigh, hm, Interval.coveredBy_nil m⟩
  · intro hm
    exact hm.2.2.1

theorem periodsOfDay_congr (ht : t.Sound) (hu : u.Sound) {d : Date}
    (hopening : ∀ m, (∃ r ∈ u.opening, r.Concerns d m) ↔ ∃ r ∈ t.opening, r.Concerns d m)
    (hclosing : ∀ m, (∃ r ∈ u.closing, r.Concerns d m) ↔ ∃ r ∈ t.closing, r.Concerns d m) :
    u.periodsOfDay d = t.periodsOfDay d :=
  eq_periodsOfDay ht (u.normal_periodsOfDay d) fun m => by
    rw [coveredBy_periodsOfDay hu, IsOpen, IsOpen, hopening, hclosing]

end Timetable

namespace Calendar

/-- **The periods of a day are the normal form of its open minutes**: they cover exactly these,
they are the only list in normal form that does, and calendars whose rules concern the same
minutes of the day have the same periods, however the rules are ordered, split, joined or
repeated. -/
theorem periodsOfDay_normal_form {c : Calendar} (h : Reachable c) (d : Date) :
    (∀ m, CoveredBy (c.periodsOfDay d).1 m ↔ c.timetable.IsOpen d m) ∧
      Normal (c.periodsOfDay d).1 ∧
      (∀ l, Normal l → (∀ m, CoveredBy l m ↔ c.timetable.IsOpen d m) →
        l = (c.periodsOfDay d).1) ∧
      ∀ c' : Calendar, Reachable c' →
        (∀ m, (∃ r ∈ c'.timetable.opening, r.Concerns d m) ↔
          ∃ r ∈ c.timetable.opening, r.Concerns d m) →
        (∀ m, (∃ r ∈ c'.timetable.closing, r.Concerns d m) ↔
          ∃ r ∈ c.timetable.closing, r.Concerns d m) →
        (c'.periodsOfDay d).1 = (c.periodsOfDay d).1 := by
  have hvalue := (h.represents.periodsOfDay d).value_eq
  rw [hvalue]
  refine ⟨Timetable.coveredBy_periodsOfDay h.sound d, c.timetable.normal_periodsOfDay d,
    fun l hl hcover => Timetable.eq_periodsOfDay h.sound hl hcover,
    fun c' h' hopening hclosing => ?_⟩
  rw [(h'.represents.periodsOfDay d).value_eq]
  exact Timetable.periodsOfDay_congr h.sound h'.sound hopening hclosing

/-- Two opening rules that overlap, the second for Mondays only, and a closing rule for Tuesdays
only; the opening rules are added in one batch, and again the other way round with one of them
twice. On each of the two days a filter refuses the day. -/
theorem periodsOfDay_normal_form_two_days :
    let monday : Date := ⟨2024, 1, 1, by decide⟩
    let tuesday : Date := ⟨2024, 1, 2, by decide⟩
    let c := ((empty.answer (.addOpening ["p=540-600", "p=590-660;wd=1"])).2.answer
      (.addClosing ["p=570-580;wd=2"])).2
    let c' := (((empty.answer (.addOpening ["p=590-660;wd=1"])).2.answer
      (.addOpening ["p=540-600", "p=540-600"])).2.answer (.addClosing ["p=570-580;wd=2"])).2
    Reachable c ∧ Reachable c' ∧
      ((c.periodsOfDay monday).1 = [⟨540, 660⟩] ∧ (c'.periodsOfDay monday).1 = [⟨540, 660⟩] ∧
        ∀ m, c.timetable.IsOpen monday m ↔ 540 ≤ m ∧ m < 660) ∧
      (c.periodsOfDay tuesday).1 = [⟨540, 570⟩, ⟨580, 600⟩] ∧
      (c'.periodsOfDay tuesday).1 = [⟨540, 570⟩, ⟨580, 600⟩] ∧
      ∀ m, c.timetable.IsOpen tuesday m ↔ 540 ≤ m ∧ m < 570 ∨ 580 ≤ m ∧ m < 600 := by
  intro monday tuesday c c'
  have hc : Reachable c := .answer _ (.answer _ .empty)
  have hc' : Reachable c' := .answer _ (.answer _ (.answer _ .empty))
  let always : Rule := ⟨"p=540-600", [.periods [⟨540, 600⟩]]⟩
  let mondays : Rule := ⟨"p=590-660;wd=1", [.periods [⟨590, 660⟩], .weekdays [.exactly 1]]⟩
  let tuesdays : Rule := ⟨"p=570-580;wd=2", [.periods [⟨570, 580⟩], .weekdays [.exactly 2]]⟩
  have hopening : c.timetable.opening = [always, mondays] := by subst c; decide +kernel
  have hopening' : c'.timetable.opening = [mondays, always, always] := by
    subst c'
    decide +kernel
  have hclosing : c.timetable.closing = [tuesdays] := by subst c; decide +kernel
  have hclosing' : c'.timetable.closing = [tuesdays] := by subst c'; decide +kernel
  have halways : ∀ d m, always.Concerns d m ↔ 540 ≤ m ∧ m < 600 := by
    simp [always, Rule.Concerns, Clause.kind, Clause.intervals, Interval.Covers]
  have hmondays : ∀ d m, mondays.Concerns d m ↔ d.facts.weekday = 1 ∧ 590 ≤ m ∧ m < 660 := by
    simp [mondays, Rule.Concerns, Clause.kind, Clause.HasValue, Clause.Accepts,
      Constraint.Admits, Clause.intervals, Interval.Covers]
  have htuesdays : ∀ d m, tuesdays.Concerns d m ↔ d.facts.weekday = 2 ∧ 570 ≤ m ∧ m < 580 := by
    simp [tuesdays, Rule.Concerns, Clause.kind, Clause.HasValue, Clause.Accepts,
      Constraint.Admits, Clause.intervals, Interval.Covers]
  have hmonday : monday.facts.weekday = 1 := by decide
  have htuesday : tuesday.facts.weekday = 2 := by decide
  have hopen : ∀ m, c.timetable.IsOpen monday m ↔ 540 ≤ m ∧ m < 660 := by
    intro m
    simp [Timetable.IsOpen, hopening, hclosing, halways, hmondays, htuesdays, hmonday]
    omega
  have hopen' : ∀ m, c.timetable.IsOpen tuesday m ↔ 540 ≤ m ∧ m < 570 ∨ 580 ≤ m ∧ m < 600 := by
    intro m
    simp [Timetable.IsOpen, hopening, hclosing, halways, hmondays, htuesdays, htuesday]
    omega
  -- The two calendars have the same rules, so they concern the same minutes of any day.
  have halike : ∀ d, (c'.periodsOfDay d).1 = (c.periodsOfDay d).1 := by
    intro d
    obtain ⟨_, _, _, halike⟩ := periodsOfDay_normal_form hc d
    refine halike c' hc' (fun m => ?_) fun m => by rw [hclosing, hclosing']
    simp [hopening, hopening', or_comm]
  have hperiods : (c.periodsOfDay monday).1 = [⟨540, 660⟩] := by
    obtain ⟨_, _, honly, _⟩ := periodsOfDay_normal_form hc monday
    exact (honly _ ⟨by decide, by decide⟩ fun m => by simp [hopen, Interval.Covers]).symm
  have hperiods' : (c.periodsOfDay tuesday).1 = [⟨540, 570⟩, ⟨580, 600⟩] := by
    obtain ⟨_, _, honly, _⟩ := periodsOfDay_normal_form hc tuesday
    exact (honly _ ⟨by decide, by decide⟩ fun m => by simp [hopen', Interval.Covers]).symm
  exact ⟨hc, hc', ⟨hperiods, (halike _).trans hperiods, hopen⟩, hperiods',
    (halike _).trans hperiods', hopen'⟩

end Calendar

end OpeningHours
