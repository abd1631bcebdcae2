import OpeningHours.Proofs.Calendar.Session

/-! Refused changes.

A change that can be refused is three steps on the calendar: it reads or checks what it
is given, writes the outcome to rules or settings, and forgets what was computed with
the old ones. Done in place, a step that refuses would keep what the steps before it
wrote (`InPlace`). The only step that refuses is the first, so a refused change leaves
all of the calendar as it was, memories included (`run_inPlace`), and the session goes
on as if it had not been asked for. A batch of rules is refused for the first of them
that cannot be read. -/
namespace OpeningHours

/-! ### Batches -/

namespace Timetable

/-- The fault is that of the first rule of a batch that cannot be read. -/
def IsFirstFault (texts : List String) (fault : Fault) : Prop :=
  ∃ before text after, texts = before ++ text :: after ∧
    (∀ earlier ∈ before, ∃ r, Rule.read earlier = .ok r) ∧
      ∃ f, Rule.read text = .error f ∧ Fault.rule f = fault

theorem readRules_eq_error_iff {texts : List String} {fault : Fault} :
    readRules texts = .error fault ↔ IsFirstFault texts fault := by
  unfold readRules IsFirstFault
  rw [mapError_eq_error_iff]
  constructor
  · intro h
    obtain ⟨f, hread, hf⟩ := h
    obtain ⟨before, text, after, htexts, hbefore, htext⟩ := mapM_eq_error_iff.mp hread
    exact ⟨before, text, after, htexts, hbefore, f, htext, hf⟩
  · intro h
    obtain ⟨before, text, after, htexts, hbefore, f, htext, hf⟩ := h
    exact ⟨f, mapM_eq_error_iff.mpr ⟨before, text, after, htexts, hbefore, htext⟩, hf⟩

theorem readRules_eq_ok_iff {texts : List String} {rules : List Rule} :
    readRules texts = .ok rules ↔
      List.Forall₂ (fun text r => Rule.read text = .ok r) texts rules := by
  rw [readRules, mapError_eq_ok_iff, mapM_eq_ok_iff]

/-- A batch is refused if any of its rules cannot be read. -/
theorem exists_readRules_eq_error_iff {texts : List String} :
    (∃ fault, readRules texts = .error fault) ↔
      ∃ text ∈ texts, ∃ f, Rule.read text = .error f := by
  constructor
  · intro h
    obtain ⟨fault, hfault⟩ := h
    obtain ⟨before, text, after, rfl, _, f, htext, _⟩ := readRules_eq_error_iff.mp hfault
    exact ⟨text, by simp, f, htext⟩
  · intro h
    obtain ⟨text, hmem, f, htext⟩ := h
    cases hread : readRules texts with
    | error fault => exact ⟨fault, rfl⟩
    | ok rules =>
      -- Were the batch read, so would be the rule with the fault.
      obtain ⟨r, _, hr⟩ := exists_mem_of_mapM (mapError_eq_ok_iff.mp hread) hmem
      rw [htext] at hr
      cases hr

end Timetable

namespace Calendar
variable {c : Calendar}

/-! ### Changes in place -/

/-- The two lists of rules. -/
inductive Side where
  | opening
  | closing

/-- Rules added after those of one list; the other list and the settings stay. -/
def Side.append (t : Timetable) (rules : List Rule) : Side → Timetable
  | opening => {t with opening := t.opening ++ rules}
  | closing => {t with closing := t.closing ++ rules}

/-- The changes that can be refused. -/
inductive Change where
  | add (side : Side) (texts : List String)
  | setGranularity (minutes : UInt32)
  | setDateFormat (format : String)

def Change.request : Change → Request
  | add .opening texts => .addOpening texts
  | add .closing texts => .addClosing texts
  | setGranularity minutes => .setGranularity minutes
  | setDateFormat format => .setDateFormat format

/-- Steps on a calendar in place: a step that refuses keeps what the steps before it wrote. -/
abbrev InPlace := EStateM Fault Calendar

/-- Reads or checks, writes what came out of it, and forgets what was computed before. -/
def steps {α : Type} (check : Except Fault α) (write : Timetable → α → Timetable) :
    InPlace Unit := do
  let value ← MonadExcept.ofExcept check
  modify fun c => {c with timetable := write c.timetable value}
  modify forget

def Change.inPlace : Change → InPlace Unit
  | add side texts => steps (Timetable.readRules texts) fun t rules => side.append t rules
  | setGranularity minutes =>
    steps ((Config.checkGranularity minutes).mapError .config) fun t _ =>
      {t with config.granularity := minutes}
  | setDateFormat format =>
    steps ((Config.checkDateFormat format).mapError .config) fun t _ =>
      {t with config.dateFormat := format}

/-- The answer to a change made in place. -/
def outcome : EStateM.Result Fault Calendar Unit → Answer × Calendar
  | .ok () changed => (.done, changed)
  | .error fault c => (.refused fault, c)

/-- The step that can refuse comes first, when nothing is written yet. -/
theorem run_steps {α : Type} (check : Except Fault α) (write : Timetable → α → Timetable)
    (c : Calendar) : (steps check write).run c = match check with
      | .ok value => .ok () (c.renew (write c.timetable value))
      | .error fault => .error fault c := by
  cases check <;> rfl

/-- Refused or made, a change is attempted as its steps are done. -/
theorem attempt_eq_outcome {α : Type} (c : Calendar) (check : Except Fault α)
    (write : Timetable → α → Timetable) :
    c.attempt ((check >>= fun value => .ok (write c.timetable value)).map c.renew) =
      outcome ((steps check write).run c) := by
  cases check <;> rfl

/-- The calendar answers a change as the steps in place do. -/
theorem answer_change (c : Calendar) (change : Change) :
    c.answer change.request = outcome (change.inPlace.run c) := by
  cases change with
  | add side texts =>
    have hadd := attempt_eq_outcome c (Timetable.readRules texts) fun t rules =>
      side.append t rules
    cases side with
    | opening | closing => exact hadd
  | setGranularity minutes =>
    exact attempt_eq_outcome c ((Config.checkGranularity minutes).mapError .config) fun t _ =>
      {t with config.granularity := minutes}
  | setDateFormat format =>
    exact attempt_eq_outcome c ((Config.checkDateFormat format).mapError .config) fun t _ =>
      {t with config.dateFormat := format}

/-- Nothing but these changes is ever refused. -/
theorem exists_change_of_refused {request : Request} {fault : Fault}
    (h : (c.answer request).1 = .refused fault) : ∃ change : Change, change.request = request := by
  cases request with
  | addOpening texts => exact ⟨.add .opening texts, rfl⟩
  | addClosing texts => exact ⟨.add .closing texts, rfl⟩
  | setGranularity minutes => exact ⟨.setGranularity minutes, rfl⟩
  | setDateFormat format => exact ⟨.setDateFormat format, rfl⟩
  | _ => cases h

theorem run_steps_eq_error {α : Type} {check : Except Fault α}
    {write : Timetable → α → Timetable} {fault : Fault} {after : Calendar}
    (h : (steps check write).run c = .error fault after) : after = c := by
  rw [run_steps] at h
  cases check with
  | ok value => cases h
  | error f =>
    cases h
    rfl

/-- Steps in place that refuse leave the calendar as it was. -/
theorem run_inPlace_eq_error {change : Change} {fault : Fault} {after : Calendar}
    (h : change.inPlace.run c = .error fault after) : after = c := by
  cases change with
  | add _ _ | setGranularity _ | setDateFormat _ =>
    rw [Change.inPlace] at h
    exact run_steps_eq_error h

/-! ### Refused requests -/

theorem run_inPlace_of_refused {change : Change} {fault : Fault}
    (h : (c.answer change.request).1 = .refused fault) : change.inPlace.run c = .error fault c := by
  rw [answer_change] at h
  cases hrun : change.inPlace.run c with
  | ok _ changed =>
    rw [hrun] at h
    cases h
  | error f after =>
    rw [hrun] at h
    cases h
    rw [run_inPlace_eq_error hrun]

theorem answer_add (c : Calendar) (side : Side) (texts : List String) :
    c.answer (Change.add side texts).request = match Timetable.readRules texts with
      | .ok rules => (.done, c.renew (side.append c.timetable rules))
      | .error fault => (.refused fault, c) := by
  rw [answer_change, Change.inPlace, run_steps]
  cases Timetable.readRules texts <;> rfl

theorem answer_add_refused_iff {side : Side} {texts : List String} {fault : Fault} :
    (c.answer (Change.add side texts).request).1 = .refused fault ↔
      Timetable.readRules texts = .error fault := by
  rw [answer_add]
  cases Timetable.readRules texts <;> simp

/-- **A refused request changes nothing.** Requests that can be refused are answered as their
steps in place are. When one is refused, these steps leave all of the calendar as it was, and the
session goes on as if the request had not been made. A batch of rules is refused with the fault
of the first rule that cannot be read, if there is one; otherwise its rules are added, in the
order of the batch, after those of the one list, and nothing else is changed but what was
remembered. -/
theorem refused_changes_nothing (c : Calendar) :
    (∀ change : Change, c.answer change.request = outcome (change.inPlace.run c)) ∧
      (∀ request fault, (c.answer request).1 = .refused fault →
        (∃ change : Change, change.request = request ∧
          change.inPlace.run c = .error fault c) ∧
        (c.answer request).2 = c ∧
        ∀ later, c.answerAll (request :: later) =
          (.refused fault :: (c.answerAll later).1, (c.answerAll later).2)) ∧
      ∀ (side : Side) (texts : List String),
        (∀ fault, (c.answer (Change.add side texts).request).1 = .refused fault ↔
          Timetable.IsFirstFault texts fault) ∧
        ((∃ fault, (c.answer (Change.add side texts).request).1 = .refused fault) ↔
          ∃ text ∈ texts, ∃ f, Rule.read text = .error f) ∧
        ∀ rules, List.Forall₂ (fun text r => Rule.read text = .ok r) texts rules →
          c.answer (Change.add side texts).request =
            (.done, c.renew (side.append c.timetable rules)) := by
  refine ⟨answer_change c, fun request fault hrefused => ?_, fun side texts => ?_⟩
  · obtain ⟨change, rfl⟩ := exists_change_of_refused hrefused
    have hrun := run_inPlace_of_refused hrefused
    have hanswer : c.answer change.request = (.refused fault, c) := by
      rw [answer_change, hrun]
      rfl
    refine ⟨⟨change, rfl, hrun⟩, congrArg Prod.snd hanswer, fun later => ?_⟩
    rw [answerAll, hanswer]
  · simp only [answer_add_refused_iff]
    refine ⟨fun _ => Timetable.readRules_eq_error_iff,
      Timetable.exists_readRules_eq_error_iff, fun rules hrules => ?_⟩
    rw [answer_add, Timetable.readRules_eq_ok_iff.mpr hrules]

/-- A batch with a fault after a good rule and before another fault, on a calendar that remembers
a day and its last two results. -/
theorem refused_changes_nothing_second_rule :
    let opened := ((empty.answer (.setCacheSize 2)).2.answer (.addOpening ["p=540-600"])).2
    let c := (opened.answer (.slotsOfDay Date.first)).2
    let batch : Request := .addOpening ["p=600-660", "p=600-540", "closed"]
    let fault : Fault := .rule (.emptyRange "p" 600 540)
    Reachable c ∧ (c.answer batch).1 = .refused fault ∧ (c.answer batch).2 = c ∧
      (c.answerAll [batch, .slotsOfDay Date.first]).1 =
        [.refused fault, .intervals [⟨540, 570⟩, ⟨570, 600⟩]] := by
  intro opened c batch fault
  have hopened : Reachable opened := .answer _ (.answer _ .empty)
  have hc : Reachable c := .answer _ hopened
  obtain ⟨_, hrefusal, hbatch⟩ := refused_changes_nothing c
  have hrefused : (c.answer batch).1 = .refused fault := by
    refine ((hbatch .opening _).1 fault).mpr
      ⟨["p=600-660"], "p=600-540", ["closed"], rfl, ?_, _, ?_, rfl⟩
    · intro text htext
      rw [List.mem_singleton.mp htext]
      exact ⟨⟨"p=600-660", [.periods [⟨600, 660⟩]]⟩, by rfl⟩
    · rfl
  obtain ⟨_, hsame, hlater⟩ := hrefusal batch fault hrefused
  refine ⟨hc, hrefused, hsame, ?_⟩
  have htimetable : c.timetable = opened.timetable :=
    (hopened.represents.answer (.slotsOfDay Date.first)).2.timetable
  have hslots : opened.timetable.slotsOfDay Date.first = [⟨540, 570⟩, ⟨570, 600⟩] := by
    subst opened
    decide +kernel
  rw [hlater, (hc.represents.answerAll _).1, htimetable, ← hslots]
  rfl

end Calendar

end OpeningHours
