import OpeningHours.Proofs.Rule.Joining
import OpeningHours.Rule.Activity

/-! What a rule means, from its text.

A rule may write several clauses of one kind, under either name of the kind. Reading
joins them into one, but the rule means what its clauses mean as they are written: it
is active on a day if it has a periods clause and each kind of filter that it writes
lets the day pass (`ActiveAsWritten`), that is, the clauses of the kind have no value
at all or one of all their values admits the day (`Kind.Passes`). Then it contributes
the periods of all its periods clauses, in the order of the text. What is said of the
clauses of a kind is true of their one clause because it is true of joined values
exactly if it is true of some of them (`exists_mem_insertAll_iff`). -/
namespace OpeningHours
open Text

namespace Clause
variable {k : Kind} {f : DayFacts} {a b both c new : Clause} {l : List Clause}

/-! ### Clauses as they are written -/

/-- The periods of a clause; a filter has none. -/
def intervals : Clause → List Interval
  | periods values => values
  | _ => []

def HasValue : Clause → Prop
  | periods values => values ≠ []
  | days values => values ≠ []
  | weekdays values => values ≠ []
  | birthdays values => values ≠ []
  | yeardays values => values ≠ []
  | specialdays values => values ≠ []

/-- Some value of the filter admits the day. -/
def Accepts (f : DayFacts) : Clause → Prop
  | periods _ => False
  | days values => ∃ value ∈ values, value.Admits f.date
  | weekdays values => ∃ value ∈ values, value.Admits f.weekday
  | birthdays values => ∃ value ∈ values, value.Admits f.monthDay
  | yeardays values => ∃ value ∈ values, value.Admits f.yearDay
  | specialdays values => ∃ value ∈ values, f.isSpecial value = true

/-- The clauses of a kind let a day pass: they have no value at all, or one of all their values
admits the day. -/
def Kind.Passes (k : Kind) (clauses : List Clause) (f : DayFacts) : Prop :=
  (∀ c ∈ clauses, c.kind = k → ¬ c.HasValue) ∨ ∃ c ∈ clauses, c.kind = k ∧ c.Accepts f

/-- Clauses make a rule active on a day. -/
structure ActiveAsWritten (clauses : List Clause) (f : DayFacts) : Prop where
  periods : ∃ c ∈ clauses, c.kind = .periods
  filters : ∀ k, k ≠ .periods → (∃ c ∈ clauses, c.kind = k) → k.Passes clauses f

/-- The text of a clause gives it one of the two names of its kind. -/
def NamedIn (text : List Char) (c : Clause) : Prop :=
  ∃ before after, cut? '=' text = some (before, after) ∧
    (String.ofList (trim before) = c.kind.name ∨ String.ofList (trim before) = c.kind.shortName)

theorem kind_of_ofValues {name : String} {values : List Written}
    (h : ofValues name values = .ok c) : Kind.ofName? name = some c.kind := by
  unfold ofValues at h
  cases hkind : Kind.ofName? name with
  | none => rw [hkind] at h; cases h
  | some k =>
    rw [hkind] at h
    cases k with
    | days | birthdays => cases h; rfl
    | periods | weekdays | yeardays | specialdays =>
      obtain ⟨values, _, rfl⟩ := map_eq_ok_iff.mp h
      rfl

theorem namedIn_of_read {text : List Char} (h : Clause.read text = .ok c) : c.NamedIn text := by
  unfold Clause.read at h
  split at h
  · cases h
  · rename_i before after hcut
    dsimp only at h
    split at h
    · cases h
    · obtain ⟨values, _, hvalues⟩ := bind_eq_ok_iff.mp h
      exact ⟨before, after, hcut, Kind.ofName?_eq_some_iff.mp (kind_of_ofValues hvalues)⟩

/-! ### Clauses joined -/

theorem hasValue_append? (h : a.append? b = some both) :
    both.HasValue ↔ a.HasValue ∨ b.HasValue := by
  cases a <;> cases b <;> cases h <;> simp [HasValue, or_iff_not_imp_left]

theorem accepts_append? (h : a.append? b = some both) :
    both.Accepts f ↔ a.Accepts f ∨ b.Accepts f := by
  cases a <;> cases b <;> cases h <;> simp [Accepts, or_and_right, exists_or]

theorem intervals_append? (h : a.append? b = some both) :
    both.intervals = a.intervals ++ b.intervals := by
  cases a <;> cases b <;> cases h <;> simp [intervals]

section
variable {P : Clause → Prop}
  (hP : ∀ {a b both : Clause}, a.append? b = some both → (P both ↔ P a ∨ P b))
include hP

/-- What is true of joined values if it is true of some of them holds of a clause of a kind after
one was added, if it held of one before or holds of the new one. -/
theorem exists_mem_insert_iff : (∃ c ∈ insert new l, c.kind = k ∧ P c) ↔
    (∃ c ∈ l, c.kind = k ∧ P c) ∨ new.kind = k ∧ P new := by
  induction l with
  | nil => simp [insert]
  | cons c rest ih =>
    cases hboth : c.append? new with
    | some both =>
      have hkind := (append?_isSome_iff c new).mp (Option.isSome_of_mem hboth)
      have hjoined := (kind_append? hboth).1
      simp only [insert, hboth, List.exists_mem_cons_iff, hP hboth, hjoined, ← hkind]
      rw [and_or_left, or_right_comm]
    | none =>
      simp only [insert, hboth, List.exists_mem_cons_iff, ih, or_assoc]

theorem exists_mem_insertAll_iff {clauses : List Clause} :
    (∃ c ∈ insertAll l clauses, c.kind = k ∧ P c) ↔
      (∃ c ∈ l, c.kind = k ∧ P c) ∨ ∃ c ∈ clauses, c.kind = k ∧ P c := by
  induction clauses generalizing l with
  | nil => simp [insertAll]
  | cons new rest ih =>
    show (∃ c ∈ insertAll (insert new l) rest, c.kind = k ∧ P c) ↔ _
    rw [ih, exists_mem_insert_iff hP, List.exists_mem_cons_iff, or_assoc]

theorem exists_mem_joined_iff {clauses : List Clause} :
    (∃ c ∈ insertAll [] clauses, c.kind = k ∧ P c) ↔ ∃ c ∈ clauses, c.kind = k ∧ P c := by
  rw [exists_mem_insertAll_iff hP]
  simp

end

/-- A kind lets a day pass by its joined clause if it does by its clauses one by one. -/
theorem passes_insertAll {clauses : List Clause} :
    k.Passes (insertAll [] clauses) f ↔ k.Passes clauses f := by
  unfold Kind.Passes
  rw [exists_mem_joined_iff accepts_append?]
  refine or_congr ?_ Iff.rfl
  simpa only [not_exists, not_and] using not_congr (exists_mem_joined_iff hasValue_append?)

theorem exists_kind_insertAll {clauses : List Clause} :
    (∃ c ∈ insertAll [] clauses, c.kind = k) ↔ ∃ c ∈ clauses, c.kind = k := by
  have hkinds : (∃ c ∈ insertAll [] clauses, c.kind = k ∧ True) ↔
      ∃ c ∈ clauses, c.kind = k ∧ True := exists_mem_joined_iff fun _ => (or_self True).symm.to_iff
  simpa only [and_true] using hkinds

/-- Which kinds are written and what they let pass decides whether a rule is active. -/
theorem activeAsWritten_congr {clauses others : List Clause}
    (hkinds : ∀ k, (∃ c ∈ clauses, c.kind = k) ↔ ∃ c ∈ others, c.kind = k)
    (hpasses : ∀ k : Kind, k.Passes clauses f ↔ k.Passes others f) :
    ActiveAsWritten clauses f ↔ ActiveAsWritten others f := by
  constructor
  · intro h
    exact ⟨(hkinds _).mp h.periods, fun k hk hwritten =>
      (hpasses k).mp (h.filters k hk ((hkinds k).mpr hwritten))⟩
  · intro h
    exact ⟨(hkinds _).mpr h.periods, fun k hk hwritten =>
      (hpasses k).mpr (h.filters k hk ((hkinds k).mp hwritten))⟩

theorem activeAsWritten_insertAll {clauses : List Clause} :
    ActiveAsWritten (insertAll [] clauses) f ↔ ActiveAsWritten clauses f :=
  activeAsWritten_congr (fun _ => exists_kind_insertAll) fun _ => passes_insertAll

/-! ### The periods of all clauses -/

theorem intervals_eq_nil (h : c.kind ≠ .periods) : c.intervals = [] := by
  cases c <;> first | rfl | exact absurd rfl h

theorem flatMap_intervals_eq_nil (h : .periods ∉ l.map kind) : l.flatMap intervals = [] :=
  flatMap_eq_nil intervals_eq_nil h

theorem flatMap_intervals_insertAll {clauses : List Clause} (hl : (l.map kind).Nodup) :
    (insertAll l clauses).flatMap intervals =
      l.flatMap intervals ++ clauses.flatMap intervals :=
  flatMap_insertAll intervals_append? intervals_eq_nil hl

/-! ### Clauses without values -/

theorem Accepts.hasValue (h : c.Accepts f) : c.HasValue := by
  cases c with
  | periods _ => cases h
  | days _ | weekdays _ | birthdays _ | yeardays _ | specialdays _ =>
    obtain ⟨_, hvalue, _⟩ := h
    exact List.ne_nil_of_mem hvalue

theorem intervals_of_not_hasValue (h : ¬ c.HasValue) : c.intervals = [] := by
  cases c with
  | periods _ => exact Decidable.not_not.mp h
  | days _ | weekdays _ | birthdays _ | yeardays _ | specialdays _ => rfl

theorem passes_cons_of_not_hasValue (h : ¬ c.HasValue) :
    k.Passes (c :: l) f ↔ k.Passes l f := by
  unfold Kind.Passes
  have haccepts : ¬ c.Accepts f := fun haccepts => h haccepts.hasValue
  simp [h, haccepts]

/-- An empty clause beside another one of its kind says nothing. -/
theorem activeAsWritten_drop {before after : List Clause} (hempty : ¬ c.HasValue)
    (hother : ∃ other ∈ before ++ after, other.kind = c.kind) :
    ActiveAsWritten (before ++ c :: after) f ↔ ActiveAsWritten (before ++ after) f := by
  have hmem : ∀ x, x ∈ before ++ c :: after ↔ x ∈ c :: (before ++ after) := fun _ =>
    List.perm_middle.mem_iff
  refine activeAsWritten_congr (fun k => ?_) fun k => ?_
  · simp only [hmem, List.exists_mem_cons_iff]
    refine ⟨fun h => ?_, Or.inr⟩
    rcases h with rfl | h
    · exact hother
    · exact h
  · rw [← passes_cons_of_not_hasValue (l := before ++ after) hempty]
    simp only [Kind.Passes, hmem]

theorem flatMap_intervals_drop {before after : List Clause} (hempty : ¬ c.HasValue) :
    (before ++ c :: after).flatMap intervals = (before ++ after).flatMap intervals := by
  simp [intervals_of_not_hasValue hempty]

/-! ### Clauses of different kinds -/

theorem admits_iff (hkind : c.kind ≠ .periods) :
    c.admits f = true ↔ ¬ c.HasValue ∨ c.Accepts f := by
  cases c with
  | periods _ => exact absurd rfl hkind
  | days _ | weekdays _ | birthdays _ | yeardays _ | specialdays _ =>
    simp [admits, Constraint.anyAdmits, HasValue, Accepts]

/-- The only clause of a kind speaks for it. -/
theorem passes_iff (hdistinct : (l.map kind).Nodup) (hc : c ∈ l) :
    c.kind.Passes l f ↔ ¬ c.HasValue ∨ c.Accepts f := by
  have honly : ∀ other ∈ l, other.kind = c.kind → other = c := fun other hother hkind =>
    List.inj_on_of_nodup_map hdistinct hother hc hkind
  constructor
  · intro h
    rcases h with hvalues | ⟨other, hother, hkind, haccepts⟩
    · exact .inl (hvalues c hc rfl)
    · exact .inr (honly other hother hkind ▸ haccepts)
  · intro h
    rcases h with hvalue | haccepts
    · exact .inl fun other hother hkind => honly other hother hkind ▸ hvalue
    · exact .inr ⟨c, hc, rfl, haccepts⟩

end Clause

/-! ### Rules -/

namespace Rule
variable {r : Rule} {f : DayFacts}
open Clause (intervals kind ActiveAsWritten)

/-- A rule is active if each clause that is a filter has no value or accepts the day. -/
theorem isActive_iff_clauses : r.isActive f = true ↔
    ∀ c ∈ r.clauses, c.kind = .periods ∨ ¬ c.HasValue ∨ c.Accepts f := by
  have hall : r.isActive f = true ↔ ∀ c ∈ r.clauses, c.kind ≠ .periods → c.admits f = true := by
    simp [isActive, filters, Clause.isFilter, or_iff_not_imp_left]
  rw [hall]
  refine forall₂_congr fun c _ => ?_
  rw [or_iff_not_imp_left]
  exact forall_congr' fun hkind => Clause.admits_iff hkind

theorem isActive_iff (hdistinct : (r.clauses.map kind).Nodup) : r.isActive f = true ↔
    ∀ k, k ≠ .periods → (∃ c ∈ r.clauses, c.kind = k) → k.Passes r.clauses f := by
  rw [isActive_iff_clauses]
  constructor
  · intro h k hk hwritten
    obtain ⟨c, hc, rfl⟩ := hwritten
    exact (Clause.passes_iff hdistinct hc).mpr ((h c hc).resolve_left hk)
  · intro h c hc
    exact or_iff_not_imp_left.mpr fun hk =>
      (Clause.passes_iff hdistinct hc).mp (h _ hk ⟨c, hc, rfl⟩)

theorem periods?_eq_some (hdistinct : (r.clauses.map kind).Nodup)
    (h : ∃ c ∈ r.clauses, c.kind = .periods) :
    r.periods? = some (r.clauses.flatMap intervals) := by
  obtain ⟨source, l⟩ := r
  unfold periods?
  induction l with
  | nil => simp at h
  | cons c rest ih =>
    obtain ⟨hc, hrest⟩ := List.nodup_cons.mp hdistinct
    cases c with
    | periods values =>
      have hnone : rest.flatMap intervals = [] := Clause.flatMap_intervals_eq_nil hc
      simp [intervals, hnone]
    | days _ | weekdays _ | birthdays _ | yeardays _ | specialdays _ =>
      simpa [kind, intervals] using ih hrest (by simpa [kind] using h)

theorem periods?_eq_none (h : ¬ ∃ c ∈ r.clauses, c.kind = .periods) : r.periods? = none := by
  unfold periods?
  rw [List.findSome?_eq_none_iff]
  intro c hc
  cases c with
  | periods values => exact absurd ⟨_, hc, rfl⟩ h
  | days _ | weekdays _ | birthdays _ | yeardays _ | specialdays _ => rfl

/-- What a rule contributes by the clauses that it keeps. -/
theorem activeIntervals_of_active (hdistinct : (r.clauses.map kind).Nodup)
    (h : ActiveAsWritten r.clauses f) : r.activeIntervals f = r.clauses.flatMap intervals := by
  have hactive : r.isActive f = true := (isActive_iff hdistinct).mpr h.filters
  rw [activeIntervals, periods?_eq_some hdistinct h.periods]
  simp [hactive]

theorem activeIntervals_of_not_active (hdistinct : (r.clauses.map kind).Nodup)
    (h : ¬ ActiveAsWritten r.clauses f) : r.activeIntervals f = [] := by
  unfold activeIntervals
  by_cases hperiods : ∃ c ∈ r.clauses, c.kind = .periods
  · have hinactive : ¬ r.isActive f = true := fun hactive =>
      h ⟨hperiods, (isActive_iff hdistinct).mp hactive⟩
    rw [periods?_eq_some hdistinct hperiods]
    simp [hinactive]
  · rw [periods?_eq_none hperiods]

/-- What a rule contributes, by the clauses of its text. -/
theorem activeIntervals_of_readAll {text : String} {clauses : List Clause}
    (h : Rule.read text = .ok r) (hclauses : Clause.readAll text.toList = .ok clauses)
    (f : DayFacts) :
    (ActiveAsWritten clauses f → r.activeIntervals f = clauses.flatMap intervals) ∧
      (¬ ActiveAsWritten clauses f → r.activeIntervals f = []) := by
  have hdistinct : (r.clauses.map kind).Nodup := (Rule.wellFormedList_clauses h).distinct
  have hjoined : r.clauses = Clause.insertAll [] clauses := by
    rw [Rule.read, hclauses] at h
    cases h
    rfl
  have hactive : ActiveAsWritten r.clauses f ↔ ActiveAsWritten clauses f :=
    hjoined ▸ Clause.activeAsWritten_insertAll
  have hperiods : r.clauses.flatMap intervals = clauses.flatMap intervals := by
    have hnone : (List.map kind []).Nodup := List.nodup_nil
    rw [hjoined, Clause.flatMap_intervals_insertAll hnone]
    rfl
  rw [← hactive, ← hperiods]
  exact ⟨activeIntervals_of_active hdistinct, activeIntervals_of_not_active hdistinct⟩

/-- **A rule contributes what it writes.** Its text has a clause for each part that is not blank,
under a name of the clause's kind. On a day on which these clauses, not joined yet, make it active
the rule contributes the periods of all of them, in the order of the text, and on other days
nothing. A clause without values beside another one of its kind can be left out. -/
theorem activeIntervals_as_written {text : String} (h : Rule.read text = .ok r) :
    ∃ clauses,
      List.Forall₂ (fun part c => Clause.read part = .ok c ∧ c.NamedIn part)
        (parts ';' text.toList) clauses ∧
      (∀ f, (ActiveAsWritten clauses f → r.activeIntervals f = clauses.flatMap intervals) ∧
        (¬ ActiveAsWritten clauses f → r.activeIntervals f = [])) ∧
      ∀ before c after, clauses = before ++ c :: after → ¬ c.HasValue →
        (∃ other ∈ before ++ after, other.kind = c.kind) →
        ∀ shorter r', Rule.read shorter = .ok r' →
          Clause.readAll shorter.toList = .ok (before ++ after) →
          ∀ f, r'.activeIntervals f = r.activeIntervals f := by
  obtain ⟨clauses, hclauses, _⟩ := bind_eq_ok_iff.mp h
  refine ⟨clauses, ?_, activeIntervals_of_readAll h hclauses, ?_⟩
  · exact (mapM_eq_ok_iff.mp hclauses).imp fun _ _ hread => ⟨hread, Clause.namedIn_of_read hread⟩
  · intro before c after hsplit hempty hother shorter r' h' hclauses' f
    obtain ⟨hactive, hinactive⟩ := activeIntervals_of_readAll h hclauses f
    obtain ⟨hactive', hinactive'⟩ := activeIntervals_of_readAll h' hclauses' f
    have hsame := Clause.activeAsWritten_drop (f := f) hempty hother
    subst hsplit
    by_cases hwritten : ActiveAsWritten (before ++ after) f
    · rw [hactive' hwritten, hactive (hsame.mpr hwritten), Clause.flatMap_intervals_drop hempty]
    · rw [hinactive' hwritten, hinactive fun hlong => hwritten (hsame.mp hlong)]

/-- Two periods clauses around a filter under both of its names, once without values. -/
theorem activeIntervals_as_written_both_names :
    let text := "p=540-600;wd=1;periods=660-720; weekdays=2-3;wd="
    let tuesday := Date.facts ⟨2024, 1, 2, by decide⟩
    let thursday := Date.facts ⟨2024, 1, 4, by decide⟩
    ∃ r, Rule.read text = .ok r ∧ r.activeIntervals tuesday = [⟨540, 600⟩, ⟨660, 720⟩] ∧
      r.activeIntervals thursday = [] := by
  intro text tuesday thursday
  let written : List Clause := [.periods [⟨540, 600⟩], .weekdays [.exactly 1],
    .periods [⟨660, 720⟩], .weekdays [.between 2 3], .weekdays []]
  have hwritten : Clause.readAll text.toList = .ok written := by decide +kernel
  have hread : ∃ r, Rule.read text = .ok r := by
    rw [Rule.read, hwritten]
    exact ⟨_, rfl⟩
  obtain ⟨r, hr⟩ := hread
  refine ⟨r, hr, ?_⟩
  obtain ⟨clauses, hclauses, hmeaning, _⟩ := activeIntervals_as_written hr
  have heq : clauses = written := by
    have hall := mapM_eq_ok_iff.mpr (hclauses.imp fun _ _ hpart => hpart.1)
    exact Except.ok.inj (hall.symm.trans hwritten)
  rw [heq] at hmeaning
  have htuesday : tuesday.weekday = 2 := by decide
  have hthursday : thursday.weekday = 4 := by decide
  have hactive : ActiveAsWritten written tuesday := by
    refine ⟨⟨.periods [⟨540, 600⟩], by simp [written], rfl⟩, fun k hk _ => ?_⟩
    cases k <;>
      simp [Clause.Kind.Passes, written, Clause.HasValue, Clause.Accepts, kind,
        Constraint.Admits, htuesday] at hk ⊢
  have hinactive : ¬ ActiveAsWritten written thursday := by
    intro h
    have hpasses := h.filters .weekdays (by decide) ⟨.weekdays [], by simp [written], rfl⟩
    simp [Clause.Kind.Passes, written, Clause.HasValue, Clause.Accepts, kind,
      Constraint.Admits, hthursday] at hpasses
  exact ⟨(hmeaning tuesday).1 hactive, (hmeaning thursday).2 hinactive⟩

end Rule

end OpeningHours
