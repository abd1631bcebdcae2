import OpeningHours.Proofs.Text.Trim
import OpeningHours.Rule.Parser

/-! The parts of a text between separators.

Cut at any of its separators, a text has the parts of the one side followed by those
of the other (`parts_append_cons`), and white space around it does not change them
(`parts_trim`). A part is not empty, is trimmed and holds no separator (`IsPart`); a
list of such texts, written with the separator between any two, is read back
(`parts_intercalate`). Since blank ends and blank parts do not count, a rule reads as
its own source (`Rule.read_trim`). -/
namespace OpeningHours
open Text

/-- What stands between separators, trimmed and not blank. -/
structure IsPart (sep : Char) (s : List Char) : Prop where
  ne_nil : s ≠ []
  trimmed : trim s = s
  not_mem : sep ∉ s

variable {sep : Char} {s : List Char}

/-! ### Parts of a text -/

theorem parts_append_cons (sep : Char) (a b : List Char) :
    parts sep (a ++ sep :: b) = parts sep a ++ parts sep b := by
  simp only [parts, List.splitOn_append_cons_self, List.map_append, List.filter_append]

/-- Without a separator the whole text is the one part, unless it is blank. -/
theorem parts_of_not_mem (h : sep ∉ s) : parts sep s = [trim s].filter (· ≠ []) := by
  rw [parts, List.splitOn_eq_singleton h, List.map_singleton]

theorem parts_nil (sep : Char) : parts sep [] = [] := by
  rw [parts_of_not_mem List.not_mem_nil]
  rfl

theorem parts_of_isPart (h : IsPart sep s) : parts sep s = [s] := by
  rw [parts_of_not_mem h.not_mem, h.trimmed]
  simp [h.ne_nil]

/-- The pieces that a separator leaves do not hold it. -/
theorem not_mem_of_mem_splitOn {p : List Char} (h : p ∈ s.splitOn sep) : sep ∉ p := by
  induction s using cut_induction sep with
  | whole s hs =>
    rw [List.splitOn_eq_singleton hs, List.mem_singleton] at h
    exact h ▸ hs
  | cut before after hbefore ih =>
    rw [List.splitOn_append_cons_self, List.splitOn_eq_singleton hbefore, List.mem_append,
      List.mem_singleton] at h
    exact h.elim (· ▸ hbefore) ih

/-- The parts of a text are its pieces that are not blank, trimmed. -/
theorem mem_parts_iff {p : List Char} :
    p ∈ parts sep s ↔ ∃ piece ∈ s.splitOn sep, ¬ IsBlank piece ∧ trim piece = p := by
  simp only [parts, List.mem_filter, List.mem_map, decide_eq_true_eq]
  constructor
  · rintro ⟨⟨piece, hpiece, rfl⟩, hne⟩
    exact ⟨piece, hpiece, fun hblank => hne (trim_eq_nil_of_blank hblank), rfl⟩
  · rintro ⟨piece, hpiece, hblank, rfl⟩
    exact ⟨⟨piece, hpiece, rfl⟩, fun hnil => hblank (trim_eq_nil_iff.mp hnil)⟩

theorem forall_mem_parts_iff {P : List Char → Prop} :
    (∀ p ∈ parts sep s, P p) ↔ ∀ piece ∈ s.splitOn sep, IsBlank piece ∨ P (trim piece) := by
  simp only [mem_parts_iff, Classical.or_iff_not_imp_left]
  exact ⟨fun h piece hpiece hblank => h _ ⟨piece, hpiece, hblank, rfl⟩,
    fun h p ⟨piece, hpiece, hblank, htrim⟩ => htrim ▸ h piece hpiece hblank⟩

/-- Every part is one of the text, and stands between separators. -/
theorem isPart_of_mem_parts {p : List Char} (h : p ∈ parts sep s) :
    IsPart sep p ∧ ∀ c ∈ p, c ∈ s := by
  induction s using cut_induction sep with
  | whole s hs =>
    rw [parts_of_not_mem hs, List.mem_filter, List.mem_singleton] at h
    obtain ⟨rfl, hne⟩ := h
    exact ⟨⟨by simpa using hne, trim_trim s, fun hmem => hs (mem_of_mem_trim hmem)⟩,
      fun c hc => mem_of_mem_trim hc⟩
  | cut before after hbefore ih =>
    rw [parts_append_cons, List.mem_append, parts_of_not_mem hbefore, List.mem_filter,
      List.mem_singleton] at h
    rcases h with ⟨rfl, hne⟩ | h
    · exact ⟨⟨by simpa using hne, trim_trim before,
        fun hmem => hbefore (mem_of_mem_trim hmem)⟩,
        fun c hc => List.mem_append_left _ (mem_of_mem_trim hc)⟩
    · obtain ⟨hpart, hmem⟩ := ih h
      exact ⟨hpart, fun c hc => List.mem_append_right _ (List.mem_cons_of_mem _ (hmem c hc))⟩

/-! ### White space around a text -/

theorem IsBlank.not_mem {blank : List Char} (h : IsBlank blank) (hsep : isBlank sep = false) :
    sep ∉ blank := by
  intro hmem
  rw [h sep hmem] at hsep
  cases hsep

variable (hsep : isBlank sep = false)
include hsep

theorem parts_blank_append {before : List Char} (h : IsBlank before) (s : List Char) :
    parts sep (before ++ s) = parts sep s := by
  have hbefore := IsBlank.not_mem h hsep
  induction s using cut_induction sep with
  | whole s hs =>
    have hnot : sep ∉ before ++ s := by simp [hbefore, hs]
    rw [parts_of_not_mem hnot, parts_of_not_mem hs, trim_blank_append h]
  | cut first rest hfirst _ =>
    have hnot : sep ∉ before ++ first := by simp [hbefore, hfirst]
    rw [← List.append_assoc, parts_append_cons, parts_append_cons, parts_of_not_mem hnot,
      parts_of_not_mem hfirst, trim_blank_append h]

theorem parts_append_blank {after : List Char} (h : IsBlank after) (s : List Char) :
    parts sep (s ++ after) = parts sep s := by
  have hafter := IsBlank.not_mem h hsep
  induction s using cut_induction sep with
  | whole s hs =>
    have hnot : sep ∉ s ++ after := by simp [hs, hafter]
    rw [parts_of_not_mem hnot, parts_of_not_mem hs, trim_append_blank h]
  | cut first rest _ ih =>
    rw [List.append_assoc, List.cons_append, parts_append_cons, parts_append_cons, ih]

/-- White space around a text makes no difference to its parts. -/
theorem parts_trim (s : List Char) : parts sep (trim s) = parts sep s := by
  obtain ⟨before, after, hbefore, hafter, hs⟩ := exists_blank_around s
  conv => rhs; rw [hs]
  rw [parts_append_blank hsep hafter, parts_blank_append hsep hbefore]

omit hsep

/-! ### Parts written one after the other -/

theorem IsPart.append {a b : List Char} (ha : IsPart sep a) (hb : IsPart sep b) :
    IsPart sep (a ++ b) where
  ne_nil := List.append_ne_nil_of_left_ne_nil ha.ne_nil b
  trimmed := by
    have htrim := trim_append_append ha.ne_nil hb.ne_nil ha.trimmed hb.trimmed []
    rwa [List.append_nil] at htrim
  not_mem := by simp [ha.not_mem, hb.not_mem]

/-- Parts for one separator, written with another one between any two, are one part. -/
theorem isPart_intercalate {join : Char} (hjoin : IsPart sep [join]) {l : List (List Char)}
    (hne : l ≠ []) (h : ∀ p ∈ l, IsPart sep p) : IsPart sep ([join].intercalate l) := by
  induction l with
  | nil => exact absurd rfl hne
  | cons p rest ih =>
    obtain ⟨hp, hrest⟩ := List.forall_mem_cons.mp h
    cases rest with
    | nil =>
      rw [List.intercalate_singleton]
      exact hp
    | cons q rest =>
      rw [List.intercalate_cons_cons]
      exact (hp.append hjoin).append (ih (by simp) hrest)

/-- **Parts written with a separator between any two are read back.** -/
theorem parts_intercalate {l : List (List Char)} (h : ∀ p ∈ l, IsPart sep p) :
    parts sep ([sep].intercalate l) = l := by
  induction l with
  | nil => exact parts_nil sep
  | cons p rest ih =>
    obtain ⟨hp, hrest⟩ := List.forall_mem_cons.mp h
    cases rest with
    | nil =>
      rw [List.intercalate_singleton]
      exact parts_of_isPart hp
    | cons q rest =>
      rw [List.intercalate_cons_cons, List.append_assoc, List.singleton_append,
        parts_append_cons, parts_of_isPart hp, ih hrest]
      rfl

/-! ### A rule and its source -/

/-- White space around the text of a rule makes no difference. -/
theorem Rule.read_trim (text : String) :
    Rule.read (String.ofList (trim text.toList)) = Rule.read text := by
  have hsemicolon : isBlank ';' = false := by decide
  simp only [Rule.read, Clause.readAll, String.toList_ofList, parts_trim hsemicolon, trim_trim]

/-- **A rule reads as its own source.** -/
theorem Rule.read_source {text : String} {r : Rule} (h : Rule.read text = .ok r) :
    Rule.read r.source = .ok r := by
  have hsource : r.source = String.ofList (trim text.toList) := by
    unfold Rule.read at h
    cases hclauses : Clause.readAll text.toList with
    | error fault => rw [hclauses] at h; cases h
    | ok clauses => rw [hclauses] at h; cases h; rfl
  rw [hsource, Rule.read_trim, h]

end OpeningHours
