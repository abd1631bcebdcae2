import OpeningHours.Text.Blank

/-! What trimming keeps.

A text is trimmed when neither its first nor its last character is white space
(`trim_eq_self_iff`). White space put around a text does not change what trimming
leaves (`trim_blank_append`, `trim_append_blank`), and a text is what trimming leaves
with white space around it (`exists_blank_around`). A trimmed text is cut at a separator
where the text itself is (`cut?_trim`). Cut again and again, a text ends with a part that
does not hold the separator (`cut_induction`). -/
namespace OpeningHours.Text
variable {s : List Char}

/-- A text of white space. -/
def IsBlank (s : List Char) : Prop := ∀ c ∈ s, isBlank c = true

instance (s : List Char) : Decidable (IsBlank s) :=
  decidable_of_iff (s.all isBlank = true) List.all_eq_true

/-! ### Trimmed texts -/

theorem trimEnd_eq (s : List Char) : trimEnd s = (trimStart s.reverse).reverse := rfl

theorem trimStart_suffix_self (s : List Char) : trimStart s <:+ s := List.dropWhile_suffix isBlank

theorem trimEnd_prefix_self (s : List Char) : trimEnd s <+: s := by
  rw [trimEnd_eq, ← List.reverse_suffix, List.reverse_reverse]
  exact trimStart_suffix_self s.reverse

theorem not_blank_of_head?_trimStart {c : Char} (h : (trimStart s).head? = some c) :
    isBlank c = false := by
  have hhead := List.head?_dropWhile_not isBlank s
  rw [show s.dropWhile isBlank = trimStart s from rfl, h] at hhead
  exact hhead

theorem not_blank_of_getLast?_trimEnd {c : Char} (h : (trimEnd s).getLast? = some c) :
    isBlank c = false := by
  rw [trimEnd_eq, List.getLast?_reverse] at h
  exact not_blank_of_head?_trimStart h

theorem trimStart_eq_self (h : ∀ c, s.head? = some c → isBlank c = false) : trimStart s = s := by
  cases s with
  | nil => rfl
  | cons c rest => exact List.dropWhile_cons_of_neg (by simp [h c rfl])

theorem trimEnd_eq_self (h : ∀ c, s.getLast? = some c → isBlank c = false) : trimEnd s = s := by
  rw [trimEnd_eq, trimStart_eq_self, List.reverse_reverse]
  rwa [List.head?_reverse]

theorem trim_eq_self_iff : trim s = s ↔ (∀ c, s.head? = some c → isBlank c = false) ∧
    ∀ c, s.getLast? = some c → isBlank c = false := by
  constructor
  · intro h
    -- Nothing was taken off at either end.
    have hstart : trimStart s = s := (trimStart_suffix_self s).eq_of_length_le <| by
      have hle := (trimEnd_prefix_self (trimStart s)).length_le
      rwa [show trimEnd (trimStart s) = s from h] at hle
    have hend : trimEnd s = s := by
      rw [trim, hstart] at h
      exact h
    exact ⟨fun c hc => not_blank_of_head?_trimStart (hstart.symm ▸ hc),
      fun c hc => not_blank_of_getLast?_trimEnd (hend.symm ▸ hc)⟩
  · intro h
    rw [trim, trimStart_eq_self h.1, trimEnd_eq_self h.2]

theorem trim_trim (s : List Char) : trim (trim s) = trim s := by
  refine trim_eq_self_iff.mpr ⟨fun c hc => ?_, fun c hc => not_blank_of_getLast?_trimEnd hc⟩
  obtain ⟨rest, hrest⟩ := trimEnd_prefix_self (trimStart s)
  have hhead : (trimStart s).head? = some c := by
    rw [← hrest, List.head?_append]
    exact congrArg (Option.or · rest.head?) hc
  exact not_blank_of_head?_trimStart hhead

/-- A text without any white space is trimmed. -/
theorem trim_eq_self_of_forall (h : ∀ c ∈ s, isBlank c = false) : trim s = s :=
  trim_eq_self_iff.mpr ⟨fun c hc => h c (List.mem_of_mem_head? hc),
    fun c hc => h c (List.mem_of_getLast? hc)⟩

/-- A text is trimmed if it starts and ends with trimmed texts, whatever is in between. -/
theorem trim_append_append {a b : List Char} (ha : a ≠ []) (hb : b ≠ []) (ha' : trim a = a)
    (hb' : trim b = b) (m : List Char) : trim (a ++ m ++ b) = a ++ m ++ b := by
  refine trim_eq_self_iff.mpr ⟨fun c hc => (trim_eq_self_iff.mp ha').1 c ?_,
    fun c hc => (trim_eq_self_iff.mp hb').2 c ?_⟩
  · rwa [List.append_assoc, List.head?_append, List.head?_eq_some_head ha, Option.some_or,
      ← List.head?_eq_some_head ha] at hc
  · rwa [List.getLast?_append, List.getLast?_eq_some_getLast hb, Option.some_or,
      ← List.getLast?_eq_some_getLast hb] at hc

/-! ### White space around a text -/

theorem exists_blank_before (s : List Char) :
    ∃ before, IsBlank before ∧ s = before ++ trimStart s :=
  ⟨s.takeWhile isBlank, List.all_eq_true.mp List.all_takeWhile,
    List.takeWhile_append_dropWhile.symm⟩

theorem exists_blank_around (s : List Char) :
    ∃ before after, IsBlank before ∧ IsBlank after ∧ s = before ++ trim s ++ after := by
  obtain ⟨before, hbefore, hs⟩ := exists_blank_before s
  obtain ⟨after, hafter, ht⟩ := exists_blank_before (trimStart s).reverse
  have hend : trimStart s = trim s ++ after.reverse := by
    rw [trim, trimEnd_eq, ← List.reverse_append, ← ht, List.reverse_reverse]
  refine ⟨before, after.reverse, hbefore, fun c hc => hafter c (List.mem_reverse.mp hc), ?_⟩
  rw [List.append_assoc, ← hend]
  exact hs

theorem trim_blank_append {before : List Char} (h : IsBlank before) (s : List Char) :
    trim (before ++ s) = trim s := by
  rw [trim, trimStart, List.dropWhile_append_of_pos h]
  rfl

theorem trim_eq_nil_of_blank (h : IsBlank s) : trim s = [] := by
  rw [← List.append_nil s]
  exact trim_blank_append h []

theorem trim_append_blank {after : List Char} (h : IsBlank after) (s : List Char) :
    trim (s ++ after) = trim s := by
  obtain ⟨before, hbefore, hs⟩ := exists_blank_before s
  by_cases hnil : trimStart s = []
  · -- Nothing but white space: there is nothing to leave on either side.
    rw [hnil, List.append_nil] at hs
    subst hs
    rw [trim_blank_append hbefore, trim_eq_nil_of_blank h, trim_eq_nil_of_blank hbefore]
  · have hstart : trimStart (s ++ after) = trimStart s ++ after := by
      rw [trimStart, List.dropWhile_append, if_neg (by simpa [trimStart] using hnil)]
      rfl
    rw [trim, hstart, trimEnd_eq, List.reverse_append, trimStart,
      List.dropWhile_append_of_pos fun c hc => h c (List.mem_reverse.mp hc)]
    rfl

theorem trim_eq_nil_iff : trim s = [] ↔ IsBlank s := by
  refine ⟨fun h => ?_, trim_eq_nil_of_blank⟩
  obtain ⟨before, after, hbefore, hafter, hs⟩ := exists_blank_around s
  rw [h, List.append_nil] at hs
  rw [hs]
  exact fun c hc => (List.mem_append.mp hc).elim (hbefore c) (hafter c)

/-- Trimming takes nothing off but white space. -/
theorem mem_trim_iff {c : Char} (hc : isBlank c = false) : c ∈ trim s ↔ c ∈ s := by
  refine ⟨mem_of_mem_trim, fun h => ?_⟩
  obtain ⟨before, after, hbefore, hafter, hs⟩ := exists_blank_around s
  have hnot : ∀ {blank : List Char}, IsBlank blank → c ∉ blank := fun hblank hmem => by
    simp [hblank c hmem] at hc
  rw [hs, List.mem_append, List.mem_append] at h
  exact (h.resolve_right (hnot hafter)).resolve_left (hnot hbefore)

theorem exists_blank_after (s : List Char) : ∃ after, IsBlank after ∧ s = trimEnd s ++ after := by
  obtain ⟨after, hafter, hs⟩ := exists_blank_before s.reverse
  refine ⟨after.reverse, fun c hc => hafter c (List.mem_reverse.mp hc), ?_⟩
  rw [trimEnd_eq, ← List.reverse_append, ← hs, List.reverse_reverse]

theorem trim_trimStart (s : List Char) : trim (trimStart s) = trim s := by
  obtain ⟨before, hbefore, hs⟩ := exists_blank_before s
  conv => rhs; rw [hs]
  exact (trim_blank_append hbefore _).symm

theorem trim_trimEnd (s : List Char) : trim (trimEnd s) = trim s := by
  obtain ⟨after, hafter, hs⟩ := exists_blank_after s
  conv => rhs; rw [hs]
  exact (trim_append_blank hafter _).symm

/-! ### Cutting at a separator -/

/-- Around a character that is not white space the two sides are trimmed alone. -/
theorem trim_append_cons {c : Char} (hc : isBlank c = false) (a b : List Char) :
    trim (a ++ c :: b) = trimStart a ++ c :: trimEnd b := by
  have hstart : ∀ x y : List Char, trimStart (x ++ c :: y) = trimStart x ++ c :: y := by
    intro x y
    rw [trimStart, List.dropWhile_append]
    split
    · rename_i hempty
      rw [trimStart, List.isEmpty_iff.mp hempty, List.dropWhile_cons_of_neg (by simp [hc])]
      rfl
    · rfl
  rw [trim, hstart, trimEnd_eq, List.reverse_append, List.reverse_cons, List.append_assoc,
    List.singleton_append, hstart, List.reverse_append, List.reverse_cons, List.reverse_reverse,
    List.append_assoc, List.singleton_append, ← trimEnd_eq]

/-- A trimmed text is cut where the text is. -/
theorem cut?_trim {sep : Char} (hsep : isBlank sep = false) (s : List Char) :
    cut? sep (trim s) =
      (cut? sep s).map fun (before, after) => (trimStart before, trimEnd after) := by
  cases hcut : cut? sep s with
  | none =>
    rw [cut?_eq_none_iff] at hcut
    exact cut?_eq_none_iff.mpr fun hmem => hcut (mem_of_mem_trim hmem)
  | some parts =>
    obtain ⟨hs, hbefore⟩ := cut?_eq_some_iff.mp hcut
    refine cut?_eq_some_iff.mpr ⟨hs ▸ trim_append_cons hsep _ _, fun hmem => hbefore ?_⟩
    exact (trimStart_suffix_self _).mem hmem

/-- There is only one first separator. -/
theorem cut_unique {sep : Char} {before after before' after' : List Char} (h : sep ∉ before)
    (h' : sep ∉ before') (heq : before ++ sep :: after = before' ++ sep :: after') :
    before = before' ∧ after = after' := by
  have hcut : some (before, after) = some (before', after') := by
    rw [← cut?_eq_some_iff.mpr ⟨rfl, h⟩, heq]
    exact cut?_eq_some_iff.mpr ⟨rfl, h'⟩
  cases hcut
  exact ⟨rfl, rfl⟩

theorem cut_induction (sep : Char) {motive : List Char → Prop}
    (whole : ∀ s, sep ∉ s → motive s)
    (cut : ∀ before after, sep ∉ before → motive after → motive (before ++ sep :: after))
    (s : List Char) : motive s := by
  induction h : s.length using Nat.strongRecOn generalizing s with
  | ind n ih =>
    cases hcut : cut? sep s with
    | none => exact whole s (cut?_eq_none_iff.mp hcut)
    | some parts =>
      obtain ⟨hs, hbefore⟩ := cut?_eq_some_iff.mp hcut
      subst hs
      exact cut _ _ hbefore (ih parts.2.length (by simp at h; omega) parts.2 rfl)

end OpeningHours.Text
