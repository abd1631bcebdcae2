import OpeningHours.Proofs.Calendar.Session
import OpeningHours.Proofs.Date.IsoText
import OpeningHours.Proofs.Date.Rendering
import OpeningHours.Proofs.Refusal
import OpeningHours.Proofs.Rule.Parts

/-! Calendars saved to a document and made again from it.

The settings of a calendar are accepted by their own check, and each of its rules reads
as its own source (`Timetable.Sound`). A calendar starts so, and no request changes it,
refused or not (`Sound.answer`): what is added was read or checked. So the document of
a timetable is accepted and gives the timetable back (`exists_ofRuleFile`). -/
namespace OpeningHours

/-! ### Accepted settings -/

namespace Config

theorem check_eq_ok_iff {c : Config} : c.check = .ok () ↔
    checkGranularity c.granularity = .ok () ∧ checkDateFormat c.dateFormat = .ok () := by
  constructor
  · intro h
    obtain ⟨_, hgranularity, hformat⟩ := bind_eq_ok_iff.mp h
    exact ⟨hgranularity, hformat⟩
  · rintro ⟨hgranularity, hformat⟩
    exact bind_eq_ok_iff.mpr ⟨(), hgranularity, hformat⟩

theorem checkGranularity_eq_ok_iff {minutes : UInt32} :
    checkGranularity minutes = .ok () ↔ 1 ≤ minutes ∧ minutes ≤ 1440 := by
  unfold checkGranularity
  split <;> simp_all

/-- The default settings are accepted. -/
theorem check_default : ({} : Config).check = .ok () :=
  check_eq_ok_iff.mpr ⟨checkGranularity_eq_ok_iff.mpr (by decide),
    checkDateFormat_eq_ok (by decide) Date.first.format?_isoFormat⟩

end Config

/-! ### Sound timetables -/

namespace Timetable
open Calendar (Request)

/-- Every rule reads as its own source. -/
def RulesRead (rules : List Rule) : Prop := ∀ r ∈ rules, Rule.read r.source = .ok r

structure Sound (t : Timetable) : Prop where
  settings : t.config.check = .ok ()
  opening : RulesRead t.opening
  closing : RulesRead t.closing

variable {t u : Timetable}

theorem rulesRead_nil : RulesRead [] := by simp [RulesRead]

theorem RulesRead.append {a b : List Rule} (ha : RulesRead a) (hb : RulesRead b) :
    RulesRead (a ++ b) := by
  intro r hr
  rcases List.mem_append.mp hr with hr | hr
  · exact ha r hr
  · exact hb r hr

theorem rulesRead_of_readRules {texts : List String} {rules : List Rule}
    (h : readRules texts = .ok rules) : RulesRead rules := by
  intro r hr
  obtain ⟨_, _, hread⟩ := exists_of_mem_mapM (mapError_eq_ok_iff.mp h) hr
  exact Rule.read_source hread

theorem readRules_map_source {rules : List Rule} (h : RulesRead rules) :
    readRules (rules.map Rule.source) = .ok rules :=
  mapError_eq_ok_iff.mpr (mapM_map_eq_ok h)

theorem sound_ofConfig {config : Config} (h : config.check = .ok ()) : (ofConfig config).Sound :=
  ⟨h, rulesRead_nil, rulesRead_nil⟩

/-! ### Requests -/

theorem Sound.attempt (h : t.Sound) {change : Except Fault Timetable}
    (hchange : ∀ u, change = .ok u → u.Sound) : (t.attempt change).2.Sound := by
  cases hc : change with
  | ok u => exact hchange u hc
  | error fault => exact h

theorem Sound.addOpening (h : t.Sound) {texts : List String}
    (hadd : t.addOpening texts = .ok u) : u.Sound := by
  obtain ⟨rules, hrules, hu⟩ := bind_eq_ok_iff.mp hadd
  cases hu
  exact {h with opening := h.opening.append (rulesRead_of_readRules hrules)}

theorem Sound.addClosing (h : t.Sound) {texts : List String}
    (hadd : t.addClosing texts = .ok u) : u.Sound := by
  obtain ⟨rules, hrules, hu⟩ := bind_eq_ok_iff.mp hadd
  cases hu
  exact {h with closing := h.closing.append (rulesRead_of_readRules hrules)}

theorem Sound.setGranularity (h : t.Sound) {minutes : UInt32}
    (hset : t.setGranularity minutes = .ok u) : u.Sound := by
  obtain ⟨_, hcheck, hu⟩ := bind_eq_ok_iff.mp hset
  cases hu
  have hformat := (Config.check_eq_ok_iff.mp h.settings).2
  exact {h with settings := Config.check_eq_ok_iff.mpr ⟨mapError_eq_ok_iff.mp hcheck, hformat⟩}

theorem Sound.setDateFormat (h : t.Sound) {format : String}
    (hset : t.setDateFormat format = .ok u) : u.Sound := by
  obtain ⟨_, hcheck, hu⟩ := bind_eq_ok_iff.mp hset
  cases hu
  have hgranularity := (Config.check_eq_ok_iff.mp h.settings).1
  exact {h with
    settings := Config.check_eq_ok_iff.mpr ⟨hgranularity, mapError_eq_ok_iff.mp hcheck⟩}

/-- **One request** leaves a sound timetable sound. -/
theorem Sound.answer (h : t.Sound) (request : Request) : (t.answer request).2.Sound := by
  cases request with
  | addOpening texts => exact h.attempt fun _ => h.addOpening
  | addClosing texts => exact h.attempt fun _ => h.addClosing
  | setGranularity minutes => exact h.attempt fun _ => h.setGranularity
  | setDateFormat format => exact h.attempt fun _ => h.setDateFormat
  | clearOpening => exact {h with opening := rulesRead_nil}
  | clearClosing => exact {h with closing := rulesRead_nil}
  | clearRules => exact ⟨h.settings, rulesRead_nil, rulesRead_nil⟩
  | setMidnightAlignment enabled => exact {h with settings := h.settings}
  | setCacheSize size => exact {h with settings := h.settings}
  | _ => exact h

end Timetable

namespace Calendar
variable {c : Calendar} {t : Timetable}

/-! ### Every calendar that a session reaches -/

theorem sound_of_ofRuleFile {file : RuleFile} (h : ofRuleFile file = .ok c) :
    c.timetable.Sound := by
  obtain ⟨hcheck, opening, closing, hopening, hclosing, rfl⟩ := ofRuleFile_eq_ok_iff.mp h
  exact ⟨hcheck, Timetable.rulesRead_of_readRules hopening,
    Timetable.rulesRead_of_readRules hclosing⟩

/-- The settings of every calendar are accepted, and its rules read as their own sources. -/
theorem Reachable.sound (h : Reachable c) : c.timetable.Sound := by
  induction h with
  | empty => exact Timetable.sound_ofConfig Config.check_default
  | ofConfig hconfig =>
    obtain ⟨hcheck, rfl⟩ := ofConfig_eq_ok_iff.mp hconfig
    exact Timetable.sound_ofConfig hcheck
  | ofRuleFile hfile => exact sound_of_ofRuleFile hfile
  | answer request hc ih =>
    rw [(hc.represents.answer request).2.timetable]
    exact ih.answer request

/-! ### Made again -/

/-- The document of a sound timetable is accepted and gives the timetable back. -/
theorem exists_ofRuleFile (h : t.Sound) :
    ∃ c, ofRuleFile t.toRuleFile = .ok c ∧ c.timetable = t := by
  have hopening := Timetable.readRules_map_source h.opening
  have hclosing := Timetable.readRules_map_source h.closing
  exact ⟨ofTimetable t, ofRuleFile_eq_ok_iff.mpr
    ⟨h.settings, t.opening, t.closing, hopening, hclosing, rfl⟩, rfl⟩

/-- **A calendar can be made again from its document.** The settings of any calendar that a
session reaches are accepted. From its settings and the sources of its rules a calendar is made
with the same settings and the same rules, clauses included, in the same order, and the two answer
all further requests alike. -/
theorem restored_from_document (h : Reachable c) :
    c.timetable.config.check = .ok () ∧
      ∃ c', ofRuleFile c.timetable.toRuleFile = .ok c' ∧ c'.timetable = c.timetable ∧
        ∀ requests, (c'.answerAll requests).1 = (c.answerAll requests).1 := by
  refine ⟨h.sound.settings, ?_⟩
  obtain ⟨c', hfile, htimetable⟩ := exists_ofRuleFile h.sound
  refine ⟨c', hfile, htimetable, fun requests => ?_⟩
  have hc' : c'.Represents c.timetable := htimetable ▸ (Reachable.ofRuleFile hfile).represents
  rw [(hc'.answerAll requests).1, (h.represents.answerAll requests).1]

/-- A rule between wide blanks, with an empty clause and a clause of its own kind twice. -/
theorem restored_from_document_blanks :
    let c := ((empty.answer (.addOpening ["\u3000p=540-600;; wd=1;p = 700-720 ;\u00a0"])).2.answer
      (.setGranularity 45)).2
    let file : RuleFile := ⟨{granularity := 45}, ["p=540-600;; wd=1;p = 700-720 ;"], []⟩
    Reachable c ∧ c.timetable.toRuleFile = file ∧
      ∃ c', ofRuleFile file = .ok c' ∧ c'.timetable = c.timetable := by
  intro c file
  have hc : Reachable c := .answer _ (.answer _ .empty)
  have hfile : c.timetable.toRuleFile = file := rfl
  obtain ⟨_, c', hmade, htimetable, _⟩ := restored_from_document hc
  exact ⟨hc, hfile, c', hfile ▸ hmade, htimetable⟩

end Calendar

end OpeningHours
