import OpeningHours.Calendar.Basic
import OpeningHours.Proofs.Refusal

/-! Calendars that have computed nothing yet.

Such a calendar is made from its timetable alone (`ofTimetable`). A change of its rules
or settings makes the calendar of the changed timetable, and that has computed nothing
either; resized memories without entries are memories of the new size. So a document
that is accepted gives a calendar with nothing but its settings and rules
(`ofRuleFile_eq_ok_iff`). -/
namespace OpeningHours

namespace Timetable

/-- A batch in two parts is read part by part. -/
theorem readRules_append_eq_ok_iff {first second : List String} {rules : List Rule} :
    readRules (first ++ second) = .ok rules ↔ ∃ before after, readRules first = .ok before ∧
      readRules second = .ok after ∧ rules = before ++ after := by
  unfold readRules
  rw [mapError_eq_ok_iff, List.mapM_append, bind_eq_ok_iff]
  simp only [mapError_eq_ok_iff]
  constructor
  · intro h
    obtain ⟨before, hbefore, hrest⟩ := h
    obtain ⟨after, hafter, hrules⟩ := bind_eq_ok_iff.mp hrest
    exact ⟨before, after, hbefore, hafter, (Except.ok.inj hrules).symm⟩
  · intro h
    obtain ⟨before, after, hbefore, hafter, hrules⟩ := h
    exact ⟨before, hbefore, bind_eq_ok_iff.mpr ⟨after, hafter, congrArg Except.ok hrules.symm⟩⟩

end Timetable

namespace Calendar
variable {c : Calendar} {t u : Timetable}

theorem renew_ofTimetable (h : u.config.cacheSize = t.config.cacheSize) :
    (ofTimetable t).renew u = ofTimetable u := by
  unfold ofTimetable
  rw [h]
  rfl

/-- A change that may be refused, and that does not concern the cache size. -/
theorem map_renew_eq_ok_iff {α : Type} {check : Except Fault α} {write : α → Timetable}
    (hsize : ∀ a, (write a).config.cacheSize = t.config.cacheSize) :
    (check >>= fun a => .ok (write a)).map (ofTimetable t).renew = .ok c ↔
      ∃ a, check = .ok a ∧ c = ofTimetable (write a) := by
  rw [map_eq_ok_iff]
  constructor
  · intro h
    obtain ⟨changed, hchange, hc⟩ := h
    obtain ⟨a, ha, hwrite⟩ := bind_eq_ok_iff.mp hchange
    cases hwrite
    exact ⟨a, ha, (renew_ofTimetable (hsize a) ▸ hc).symm⟩
  · intro h
    obtain ⟨a, ha, hc⟩ := h
    exact ⟨write a, bind_eq_ok_iff.mpr ⟨a, ha, rfl⟩, (renew_ofTimetable (hsize a)).trans hc.symm⟩

/-- A setting that is checked before it is taken. -/
theorem map_renew_checked_eq_ok_iff {check : Except ConfigFault Unit}
    (hsize : u.config.cacheSize = t.config.cacheSize) :
    (check.mapError Fault.config >>= fun _ => .ok u).map (ofTimetable t).renew = .ok c ↔
      check = .ok () ∧ c = ofTimetable u := by
  rw [map_renew_eq_ok_iff fun _ => hsize]
  constructor
  · intro h
    obtain ⟨_, hcheck, hc⟩ := h
    exact ⟨mapError_eq_ok_iff.mp hcheck, hc⟩
  · intro h
    obtain ⟨hcheck, hc⟩ := h
    exact ⟨(), mapError_eq_ok_iff.mpr hcheck, hc⟩

theorem setGranularity_ofTimetable {minutes : UInt32} :
    (ofTimetable t).setGranularity minutes = .ok c ↔
      Config.checkGranularity minutes = .ok () ∧
        c = ofTimetable {t with config.granularity := minutes} :=
  map_renew_checked_eq_ok_iff rfl

theorem setDateFormat_ofTimetable {format : String} :
    (ofTimetable t).setDateFormat format = .ok c ↔
      Config.checkDateFormat format = .ok () ∧
        c = ofTimetable {t with config.dateFormat := format} :=
  map_renew_checked_eq_ok_iff rfl

theorem addOpening_ofTimetable {texts : List String} :
    (ofTimetable t).addOpening texts = .ok c ↔ ∃ rules, Timetable.readRules texts = .ok rules ∧
      c = ofTimetable {t with opening := t.opening ++ rules} :=
  map_renew_eq_ok_iff fun _ => rfl

theorem addClosing_ofTimetable {texts : List String} :
    (ofTimetable t).addClosing texts = .ok c ↔ ∃ rules, Timetable.readRules texts = .ok rules ∧
      c = ofTimetable {t with closing := t.closing ++ rules} :=
  map_renew_eq_ok_iff fun _ => rfl

theorem ofConfig_eq_ok_iff {config : Config} :
    ofConfig config = .ok c ↔ config.check = .ok () ∧ c = ofTimetable (.ofConfig config) := by
  unfold ofConfig
  rw [bind_eq_ok_iff]
  constructor
  · intro h
    obtain ⟨_, hcheck, hc⟩ := h
    exact ⟨mapError_eq_ok_iff.mp hcheck, (Except.ok.inj hc).symm⟩
  · intro h
    obtain ⟨hcheck, hc⟩ := h
    exact ⟨(), mapError_eq_ok_iff.mpr hcheck, congrArg Except.ok hc.symm⟩

/-- **What a document gives**: its settings, if they are accepted, its rules, if all of them can
be read, and a calendar that has computed nothing. -/
theorem ofRuleFile_eq_ok_iff {file : RuleFile} :
    ofRuleFile file = .ok c ↔ file.config.check = .ok () ∧
      ∃ opening closing, Timetable.readRules file.opening = .ok opening ∧
        Timetable.readRules file.closing = .ok closing ∧
        c = ofTimetable ⟨file.config, opening, closing⟩ := by
  unfold ofRuleFile
  rw [bind_eq_ok_iff]
  constructor
  · intro h
    obtain ⟨_, hconfig, hrules⟩ := h
    obtain ⟨hcheck, rfl⟩ := ofConfig_eq_ok_iff.mp hconfig
    obtain ⟨_, hopen, hclose⟩ := bind_eq_ok_iff.mp hrules
    obtain ⟨opening, hopening, rfl⟩ := addOpening_ofTimetable.mp hopen
    obtain ⟨closing, hclosing, rfl⟩ := addClosing_ofTimetable.mp hclose
    exact ⟨hcheck, opening, closing, hopening, hclosing, rfl⟩
  · intro h
    obtain ⟨hcheck, opening, closing, hopening, hclosing, hc⟩ := h
    let opened : Timetable := ⟨file.config, opening, []⟩
    refine ⟨_, ofConfig_eq_ok_iff.mpr ⟨hcheck, rfl⟩,
      bind_eq_ok_iff.mpr ⟨ofTimetable opened, ?_, ?_⟩⟩
    · exact addOpening_ofTimetable.mpr ⟨opening, hopening, rfl⟩
    · exact addClosing_ofTimetable.mpr ⟨closing, hclosing, hc⟩

end Calendar

end OpeningHours
