import OpeningHours.CommandLine.Run
import OpeningHours.Proofs.Calendar.Fresh
import OpeningHours.Proofs.Calendar.Refused
import OpeningHours.Proofs.Calendar.Saved

/-! Options against a rule file that says the same.

The options of a command line are applied one after the other to the calendar of a rule
file. Each of them changes a calendar that has computed nothing into another such
calendar, so only the timetable counts in the end: it has the settings of the file with
the options in their place, and the rules of the file before those of the options
(`calendar_eq_ok_iff`). A rule file with these settings and rules is accepted for the
same options, provided that the file itself is: settings of the file that the options
replace are checked all the same. -/
namespace OpeningHours.CommandLine
open Calendar (ofTimetable ofRuleFile)

namespace CalendarOptions
variable {o : CalendarOptions} {file : RuleFile} {c : Calendar} {t : Timetable}

/-- The settings of a rule file, with the options in their place. -/
def mergeConfig (o : CalendarOptions) (config : Config) : Config where
  granularity := o.granularity.getD config.granularity
  midnightAlignment := config.midnightAlignment || o.midnightAlignment
  cacheSize := o.cacheSize.getD config.cacheSize
  dateFormat := o.dateFormat.getD config.dateFormat

/-- A rule file that says all that the options say. -/
def merge (o : CalendarOptions) (file : RuleFile) : RuleFile where
  config := o.mergeConfig file.config
  opening := file.opening ++ o.opening
  closing := file.closing ++ o.closing

/-! ### One option after the other -/

def applyGranularity (o : CalendarOptions) (c : Calendar) : Except Failure Calendar :=
  match o.granularity with
  | none => .ok c
  | some minutes => (c.setGranularity minutes).mapError .granularity

def applyAlignment (o : CalendarOptions) (c : Calendar) : Calendar :=
  if o.midnightAlignment then c.setMidnightAlignment true else c

def applyCacheSize (o : CalendarOptions) (c : Calendar) : Calendar :=
  match o.cacheSize with
  | none => c
  | some size => c.setCacheSize size

def applyDateFormat (o : CalendarOptions) (c : Calendar) : Except Failure Calendar :=
  match o.dateFormat with
  | none => .ok c
  | some format => (c.setDateFormat format).mapError .dateFormat

/-- The calendar of the options, one application after the other. -/
theorem calendar_eq (o : CalendarOptions) (file : RuleFile) :
    o.calendar file = (do
      let c ← (ofRuleFile file).mapError .rulesOfFile
      let c ← o.applyGranularity c
      let c ← o.applyDateFormat (o.applyCacheSize (o.applyAlignment c))
      let c ← (c.addOpening o.opening).mapError .opening
      (c.addClosing o.closing).mapError .closing) := by
  unfold calendar applyGranularity applyAlignment applyCacheSize applyDateFormat
  cases o.granularity <;> cases o.dateFormat <;> rfl

theorem applyGranularity_ofTimetable :
    o.applyGranularity (ofTimetable t) = .ok c ↔
      (∀ minutes ∈ o.granularity, Config.checkGranularity minutes = .ok ()) ∧
        c = ofTimetable
          {t with config.granularity := o.granularity.getD t.config.granularity} := by
  unfold applyGranularity
  cases o.granularity with
  | none => simp [eq_comm]
  | some minutes =>
    simp only [mapError_eq_ok_iff, Option.mem_some_iff, forall_eq', Option.getD_some]
    exact Calendar.setGranularity_ofTimetable

theorem applyDateFormat_ofTimetable :
    o.applyDateFormat (ofTimetable t) = .ok c ↔
      (∀ format ∈ o.dateFormat, Config.checkDateFormat format = .ok ()) ∧
        c = ofTimetable {t with config.dateFormat := o.dateFormat.getD t.config.dateFormat} := by
  unfold applyDateFormat
  cases o.dateFormat with
  | none => simp [eq_comm]
  | some format =>
    simp only [mapError_eq_ok_iff, Option.mem_some_iff, forall_eq', Option.getD_some]
    exact Calendar.setDateFormat_ofTimetable

theorem applyAlignment_ofTimetable (o : CalendarOptions) (t : Timetable) :
    o.applyAlignment (ofTimetable t) = ofTimetable
      {t with config.midnightAlignment := t.config.midnightAlignment || o.midnightAlignment} := by
  unfold applyAlignment
  cases o.midnightAlignment with
  | false => rw [Bool.or_false]; rfl
  | true => rw [Bool.or_true]; rfl

theorem applyCacheSize_ofTimetable (o : CalendarOptions) (t : Timetable) :
    o.applyCacheSize (ofTimetable t) =
      ofTimetable {t with config.cacheSize := o.cacheSize.getD t.config.cacheSize} := by
  unfold applyCacheSize
  cases o.cacheSize <;> rfl

/-- **What options make of a rule file**: the file and the options are accepted, each for itself,
and the calendar has the merged settings and the rules of both. -/
theorem calendar_eq_ok_iff :
    o.calendar file = .ok c ↔ file.config.check = .ok () ∧
      (∀ minutes ∈ o.granularity, Config.checkGranularity minutes = .ok ()) ∧
      (∀ format ∈ o.dateFormat, Config.checkDateFormat format = .ok ()) ∧
      ∃ opening closing added excluded, Timetable.readRules file.opening = .ok opening ∧
        Timetable.readRules file.closing = .ok closing ∧
        Timetable.readRules o.opening = .ok added ∧
        Timetable.readRules o.closing = .ok excluded ∧
        c = ofTimetable ⟨o.mergeConfig file.config, opening ++ added, closing ++ excluded⟩ := by
  rw [calendar_eq, bind_eq_ok_iff]
  constructor
  · intro h
    obtain ⟨_, hfile, h⟩ := h
    obtain ⟨hcheck, opening, closing, hopening, hclosing, rfl⟩ :=
      Calendar.ofRuleFile_eq_ok_iff.mp (mapError_eq_ok_iff.mp hfile)
    obtain ⟨_, hgranularity, h⟩ := bind_eq_ok_iff.mp h
    obtain ⟨hminutes, rfl⟩ := applyGranularity_ofTimetable.mp hgranularity
    rw [applyAlignment_ofTimetable, applyCacheSize_ofTimetable] at h
    obtain ⟨_, hdateFormat, h⟩ := bind_eq_ok_iff.mp h
    obtain ⟨hformat, rfl⟩ := applyDateFormat_ofTimetable.mp hdateFormat
    obtain ⟨_, hopen, hclose⟩ := bind_eq_ok_iff.mp h
    obtain ⟨added, hadded, rfl⟩ :=
      Calendar.addOpening_ofTimetable.mp (mapError_eq_ok_iff.mp hopen)
    obtain ⟨excluded, hexcluded, rfl⟩ :=
      Calendar.addClosing_ofTimetable.mp (mapError_eq_ok_iff.mp hclose)
    exact ⟨hcheck, hminutes, hformat, opening, closing, added, excluded, hopening, hclosing,
      hadded, hexcluded, rfl⟩
  · intro h
    obtain ⟨hcheck, hminutes, hformat, opening, closing, added, excluded, hopening, hclosing,
      hadded, hexcluded, rfl⟩ := h
    have hfile := Calendar.ofRuleFile_eq_ok_iff.mpr
      ⟨hcheck, opening, closing, hopening, hclosing, rfl⟩
    refine ⟨_, mapError_eq_ok_iff.mpr hfile,
      bind_eq_ok_iff.mpr ⟨_, applyGranularity_ofTimetable.mpr ⟨hminutes, rfl⟩, ?_⟩⟩
    rw [applyAlignment_ofTimetable, applyCacheSize_ofTimetable]
    refine bind_eq_ok_iff.mpr ⟨_, applyDateFormat_ofTimetable.mpr ⟨hformat, rfl⟩,
      bind_eq_ok_iff.mpr ⟨ofTimetable ⟨o.mergeConfig file.config, opening ++ added, closing⟩,
        ?_, ?_⟩⟩
    · exact mapError_eq_ok_iff.mpr (Calendar.addOpening_ofTimetable.mpr ⟨added, hadded, rfl⟩)
    · exact mapError_eq_ok_iff.mpr
        (Calendar.addClosing_ofTimetable.mpr ⟨excluded, hexcluded, rfl⟩)

/-! ### The merged rule file -/

/-- Of settings that are accepted, the merged ones are accepted with the options. -/
theorem check_mergeConfig {config : Config} (h : config.check = .ok ()) :
    (o.mergeConfig config).check = .ok () ↔
      (∀ minutes ∈ o.granularity, Config.checkGranularity minutes = .ok ()) ∧
        ∀ format ∈ o.dateFormat, Config.checkDateFormat format = .ok () := by
  obtain ⟨hgranularity, hformat⟩ := Config.check_eq_ok_iff.mp h
  rw [Config.check_eq_ok_iff, mergeConfig]
  refine and_congr ?_ ?_
  · cases o.granularity with
    | none => simp [hgranularity]
    | some minutes => simp
  · cases o.dateFormat with
    | none => simp [hformat]
    | some format => simp

/-- Rules of the file and of the options are read in one go as they are read one after the other. -/
theorem ofRuleFile_merge_eq_ok_iff :
    ofRuleFile (o.merge file) = .ok c ↔ (o.mergeConfig file.config).check = .ok () ∧
      ∃ opening closing added excluded, Timetable.readRules file.opening = .ok opening ∧
        Timetable.readRules file.closing = .ok closing ∧
        Timetable.readRules o.opening = .ok added ∧
        Timetable.readRules o.closing = .ok excluded ∧
        c = ofTimetable ⟨o.mergeConfig file.config, opening ++ added, closing ++ excluded⟩ := by
  rw [Calendar.ofRuleFile_eq_ok_iff, merge]
  refine and_congr Iff.rfl ?_
  constructor
  · intro h
    obtain ⟨_, _, hopen, hclose, hc⟩ := h
    obtain ⟨opening, added, hopening, hadded, rfl⟩ :=
      Timetable.readRules_append_eq_ok_iff.mp hopen
    obtain ⟨closing, excluded, hclosing, hexcluded, rfl⟩ :=
      Timetable.readRules_append_eq_ok_iff.mp hclose
    exact ⟨opening, closing, added, excluded, hopening, hclosing, hadded, hexcluded, hc⟩
  · intro h
    obtain ⟨opening, closing, added, excluded, hopening, hclosing, hadded, hexcluded, hc⟩ := h
    exact ⟨opening ++ added, closing ++ excluded,
      Timetable.readRules_append_eq_ok_iff.mpr ⟨opening, added, hopening, hadded, rfl⟩,
      Timetable.readRules_append_eq_ok_iff.mpr ⟨closing, excluded, hclosing, hexcluded, rfl⟩, hc⟩

theorem ruleFile_eq_ok_iff {sources : Sources} :
    o.ruleFile sources = .ok file ↔
      match o.rules with
      | none => file = {}
      | some name => ∃ text, sources.file name = some text ∧ RuleFile.read text = .ok file := by
  unfold ruleFile
  cases o.rules with
  | none => simp [eq_comm]
  | some name =>
    simp only [bind_eq_ok_iff, mapError_eq_ok_iff, Sources.read]
    cases sources.file name <;> simp

/-- **Options and a rule file are two ways to one calendar.** Options make a calendar from a rule
file exactly if both the file and the file merged with them are accepted, and then it is the
calendar of the merged file. A calendar of a rule file has the settings of the file and its rules
in their order, and it has computed nothing yet. The file is the one that the options name; without
a name it is the empty one, with the default settings. -/
theorem options_as_rule_file (o : CalendarOptions) :
    (∀ file c, o.calendar file = .ok c ↔
      (∃ c₀, ofRuleFile file = .ok c₀) ∧ ofRuleFile (o.merge file) = .ok c) ∧
    (∀ file c, ofRuleFile file = .ok c ↔ file.config.check = .ok () ∧
      ∃ opening closing, List.Forall₂ (fun text r => Rule.read text = .ok r) file.opening opening ∧
        List.Forall₂ (fun text r => Rule.read text = .ok r) file.closing closing ∧
        c = ofTimetable ⟨file.config, opening, closing⟩) ∧
    ∀ sources c, o.ruleFile sources >>= o.calendar = .ok c ↔
      ∃ file, (match o.rules with
        | none => file = {}
        | some name => ∃ text, sources.file name = some text ∧ RuleFile.read text = .ok file) ∧
        (∃ c₀, ofRuleFile file = .ok c₀) ∧ ofRuleFile (o.merge file) = .ok c := by
  have hcalendar : ∀ file c, o.calendar file = .ok c ↔
      (∃ c₀, ofRuleFile file = .ok c₀) ∧ ofRuleFile (o.merge file) = .ok c := by
    intro file c
    rw [calendar_eq_ok_iff, ofRuleFile_merge_eq_ok_iff]
    constructor
    · intro h
      obtain ⟨hcheck, hminutes, hformat, opening, closing, added, excluded, hopening, hclosing,
        hrest⟩ := h
      have hfile := Calendar.ofRuleFile_eq_ok_iff.mpr
        ⟨hcheck, opening, closing, hopening, hclosing, rfl⟩
      exact ⟨⟨_, hfile⟩, (check_mergeConfig hcheck).mpr ⟨hminutes, hformat⟩,
        opening, closing, added, excluded, hopening, hclosing, hrest⟩
    · intro h
      obtain ⟨⟨_, hfile⟩, hmerged, hrules⟩ := h
      obtain ⟨hcheck, _⟩ := Calendar.ofRuleFile_eq_ok_iff.mp hfile
      obtain ⟨hminutes, hformat⟩ := (check_mergeConfig hcheck).mp hmerged
      exact ⟨hcheck, hminutes, hformat, hrules⟩
  refine ⟨hcalendar, fun file c => ?_, fun sources c => ?_⟩
  · simp only [Calendar.ofRuleFile_eq_ok_iff, Timetable.readRules_eq_ok_iff]
  · simp only [bind_eq_ok_iff, ruleFile_eq_ok_iff, hcalendar]

/-- An option does not mend a setting of the file. -/
example : (({granularity := some 15} : CalendarOptions).calendar
    {config := {granularity := 0}}).isOk = false := rfl

end CalendarOptions

end OpeningHours.CommandLine
