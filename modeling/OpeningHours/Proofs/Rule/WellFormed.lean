import Mathlib.Data.List.Nodup
import OpeningHours.Proofs.Refusal
import OpeningHours.Proofs.Rule.Parts
import OpeningHours.Rule.Printer

/-! The clauses that reading gives.

A text between separators is a part for each of them, so what is left as a value, or as
an end of a range, holds no separator at all (`Written.bare_of_read`). A value that is
taken as a number is none below zero, and a period is not empty. Clauses of one kind are
put together as they are read, so a rule never has two (`WellFormedList.insert`). -/
namespace OpeningHours
open Text

/-! ### Values -/

/-- Every text of a value has a property. -/
def Written.All (P : List Char → Prop) : Written → Prop
  | single text => P text
  | range least greatest => P least ∧ P greatest

/-- What is cut off a text without semicolons and commas is bare once it has no hyphen. -/
theorem isBare_trim {s text : List Char} (hsemicolon : ';' ∉ text) (hcomma : ',' ∉ text)
    (hmem : ∀ c ∈ s, c ∈ text) (hne : trim s ≠ []) (hhyphen : '-' ∉ trim s) :
    IsBare (trim s) where
  ne_nil := hne
  trimmed := trim_trim s
  noSeparator c hc hsep := by
    have htext := hmem c (mem_of_mem_trim hc)
    simp only [List.mem_cons, List.not_mem_nil, or_false] at hsep
    rcases hsep with rfl | rfl | rfl
    · exact hsemicolon htext
    · exact hcomma htext
    · exact hhyphen hc

/-- A part of a clause without semicolons is read as bare texts. -/
theorem Written.bare_of_read {text : List Char} {w : Written} (hpart : IsPart ',' text)
    (hsemicolon : ';' ∉ text) (h : Written.read text = .ok w) : w.All IsBare := by
  have hcomma := hpart.not_mem
  unfold Written.read at h
  split at h
  · rename_i hcut
    cases h
    have htrim := hpart.trimmed
    have hbare := isBare_trim hsemicolon hcomma (fun _ hc => hc) (htrim.symm ▸ hpart.ne_nil)
      (htrim.symm ▸ cut?_eq_none_iff.mp hcut)
    rwa [htrim] at hbare
  · rename_i before after hcut
    obtain ⟨htext, hbefore⟩ := cut?_eq_some_iff.mp hcut
    dsimp only at h
    split at h
    · cases h
    · rename_i hrange
      rw [not_or, not_or] at hrange
      obtain ⟨hleast, hgreatest, hhyphen⟩ := hrange
      cases h
      constructor
      · have hmem : ∀ c ∈ before, c ∈ text := fun c hc => htext ▸ List.mem_append_left _ hc
        exact isBare_trim hsemicolon hcomma hmem hleast fun hc => hbefore (mem_of_mem_trim hc)
      · have hmem : ∀ c ∈ after, c ∈ text := fun c hc =>
          htext ▸ List.mem_append_right _ (List.mem_cons_of_mem _ hc)
        exact isBare_trim hsemicolon hcomma hmem hgreatest hhyphen

theorem Written.bare_of_mem_readAll {s : List Char} {ws : List Written} (hsemicolon : ';' ∉ s)
    (h : Written.readAll s = .ok ws) : ∀ w ∈ ws, w.All IsBare := by
  intro w hw
  obtain ⟨text, htext, hread⟩ := exists_of_mem_mapM h hw
  obtain ⟨hpart, hmem⟩ := isPart_of_mem_parts htext
  exact Written.bare_of_read hpart (fun hc => hsemicolon (hmem _ hc)) hread

theorem readMinute_nonneg {name : String} {text : List Char} {m : Minute}
    (h : readMinute name text = .ok m) : 0 ≤ m := by
  obtain ⟨n, hn, rfl⟩ := map_eq_ok_iff.mp h
  have hle : n ≤ Minute.greatest := by
    unfold readNumber at hn
    split at hn
    · rename_i value hvalue
      cases hn
      simpa using (Option.filter_eq_some_iff.mp hvalue).2
    · cases hn
  rw [Int32.le_iff_toInt_le, Int32.toInt_ofNat_of_lt (Nat.lt_succ_of_le hle)]
  exact Int.natCast_nonneg n

theorem Written.period_bounds {name : String} {w : Written} {i : Interval}
    (h : w.period name = .ok i) : 0 ≤ i.start ∧ i.start < i.stop := by
  cases w with
  | single text => cases h
  | range least greatest =>
    obtain ⟨start, hstart, hrest⟩ := bind_eq_ok_iff.mp h
    obtain ⟨stop, _, hperiod⟩ := bind_eq_ok_iff.mp hrest
    split at hperiod
    · rename_i hlt
      cases hperiod
      exact ⟨readMinute_nonneg hstart, hlt⟩
    · cases hperiod

theorem Written.all_text {P : List Char → Prop} (w : Written) :
    (w.text.All fun s => P s.toList) ↔ w.All P := by
  cases w <;> simp only [Written.text, Constraint.All, Written.All, String.toList_ofList]

/-! ### One clause -/

namespace Clause

/-- Each kind has two names, and no two kinds share one. -/
theorem Kind.ofName?_eq_some_iff {name : String} {k : Kind} :
    Kind.ofName? name = some k ↔ name = k.name ∨ name = k.shortName := by
  constructor
  · intro h
    have hnamed := List.find?_some h
    simp only [Bool.or_eq_true, decide_eq_true_eq] at hnamed
    exact hnamed.imp Eq.symm Eq.symm
  · rintro (rfl | rfl) <;> cases k <;> decide

theorem wellFormed_of_ofValues {name : String} {ws : List Written} {c : Clause}
    (hbare : ∀ w ∈ ws, w.All IsBare) (h : ofValues name ws = .ok c) : c.WellFormed := by
  have htexts : ∀ value ∈ ws.map Written.text, value.All fun s => IsBare s.toList :=
    List.forall_mem_map.mpr fun w hw => w.all_text.mpr (hbare w hw)
  unfold ofValues at h
  cases hkind : Kind.ofName? name with
  | none => rw [hkind] at h; cases h
  | some k =>
    rw [hkind] at h
    cases k with
    | periods =>
      obtain ⟨values, hvalues, rfl⟩ := map_eq_ok_iff.mp h
      intro i hi
      obtain ⟨w, _, hperiod⟩ := exists_of_mem_mapM hvalues hi
      exact Written.period_bounds hperiod
    | days | birthdays => cases h; exact htexts
    | weekdays | yeardays | specialdays =>
      obtain ⟨values, _, rfl⟩ := map_eq_ok_iff.mp h
      trivial

theorem wellFormed_of_read {text : List Char} {c : Clause} (hsemicolon : ';' ∉ text)
    (h : Clause.read text = .ok c) : c.WellFormed := by
  unfold Clause.read at h
  split at h
  · cases h
  · rename_i before after hcut
    obtain ⟨rfl, _⟩ := cut?_eq_some_iff.mp hcut
    dsimp only at h
    split at h
    · cases h
    · obtain ⟨ws, hws, hvalues⟩ := bind_eq_ok_iff.mp h
      have hafter : ';' ∉ after := fun hmem =>
        hsemicolon (List.mem_append_right _ (List.mem_cons_of_mem _ hmem))
      exact wellFormed_of_ofValues (Written.bare_of_mem_readAll hafter hws) hvalues

/-! ### Clauses put together -/

/-- Two clauses of one kind make one of that kind, which is well formed if they are. -/
theorem kind_append? {a b both : Clause} (h : a.append? b = some both) :
    both.kind = a.kind ∧ (a.WellFormed → b.WellFormed → both.WellFormed) := by
  have hmem : ∀ {α : Type} {P : α → Prop} {l m : List α}, (∀ x ∈ l, P x) → (∀ x ∈ m, P x) →
      ∀ x ∈ l ++ m, P x := fun hl hm => List.forall_mem_append.mpr ⟨hl, hm⟩
  -- Only clauses of one kind are left: of the others no clause is made.
  cases a with
  | periods _ | days _ | birthdays _ =>
    cases b <;> cases h
    exact ⟨rfl, hmem⟩
  | weekdays _ | yeardays _ | specialdays _ =>
    cases b <;> cases h
    exact ⟨rfl, fun _ _ => trivial⟩

/-- The kinds of the clauses after one was added. -/
theorem kinds_insert (new : Clause) (l : List Clause) : (insert new l).map kind =
    if new.kind ∈ l.map kind then l.map kind else l.map kind ++ [new.kind] := by
  induction l with
  | nil => rfl
  | cons c rest ih =>
    cases hboth : c.append? new with
    | some both =>
      have hkind := (append?_isSome_iff c new).mp (Option.isSome_of_mem hboth)
      simp [insert, hboth, (kind_append? hboth).1, hkind]
    | none =>
      have hkind : c.kind ≠ new.kind := fun heq => by
        simpa [hboth] using (append?_isSome_iff c new).mpr heq
      by_cases hmem : new.kind ∈ rest.map kind <;>
        simp [insert, hboth, Ne.symm hkind, hmem, ih]

theorem nodup_kinds_insert {new : Clause} {l : List Clause} (h : (l.map kind).Nodup) :
    ((insert new l).map kind).Nodup := by
  rw [kinds_insert]
  split
  · exact h
  · rename_i hmem
    rw [← List.concat_eq_append]
    exact List.Nodup.concat hmem h

theorem wellFormed_of_mem_insert {new : Clause} {l : List Clause} (hnew : new.WellFormed)
    (h : ∀ c ∈ l, c.WellFormed) : ∀ c ∈ insert new l, c.WellFormed := by
  induction l with
  | nil => simpa [insert] using hnew
  | cons c rest ih =>
    obtain ⟨hc, hrest⟩ := List.forall_mem_cons.mp h
    unfold insert
    split
    · rename_i both hboth
      exact List.forall_mem_cons.mpr ⟨(kind_append? hboth).2 hc hnew, hrest⟩
    · exact List.forall_mem_cons.mpr ⟨hc, ih hrest⟩

/-- **A clause is added to a list that stays well formed.** -/
theorem WellFormedList.insert {new : Clause} {l : List Clause} (h : WellFormedList l)
    (hnew : new.WellFormed) : WellFormedList (Clause.insert new l) where
  distinct := nodup_kinds_insert h.distinct
  wellFormed := wellFormed_of_mem_insert hnew h.wellFormed

theorem WellFormedList.insertAll {l new : List Clause} (h : WellFormedList l)
    (hnew : ∀ c ∈ new, c.WellFormed) : WellFormedList (Clause.insertAll l new) := by
  induction new generalizing l with
  | nil => exact h
  | cons c rest ih =>
    obtain ⟨hc, hrest⟩ := List.forall_mem_cons.mp hnew
    exact ih (h.insert hc) hrest

theorem wellFormedList_nil : WellFormedList [] := by decide

end Clause

/-- **The clauses of every rule that is read are well formed.** -/
theorem Rule.wellFormedList_clauses {text : String} {r : Rule} (h : Rule.read text = .ok r) :
    Clause.WellFormedList r.clauses := by
  obtain ⟨clauses, hclauses, hr⟩ := bind_eq_ok_iff.mp h
  cases hr
  refine Clause.wellFormedList_nil.insertAll fun c hc => ?_
  obtain ⟨clause, hmem, hread⟩ := exists_of_mem_mapM hclauses hc
  exact Clause.wellFormed_of_read (isPart_of_mem_parts hmem).1.not_mem hread

end OpeningHours
