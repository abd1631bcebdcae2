/-! White space: the characters of the Unicode property White_Space, and what is
left of a text without those at its ends. -/
namespace OpeningHours.Text

/-- The Unicode property White_Space. -/
def isBlank (c : Char) : Bool :=
  let n := c.toNat
  (0x9 ≤ n && n ≤ 0xD) || n == 0x20 || n == 0x85 || n == 0xA0 || n == 0x1680 ||
    (0x2000 ≤ n && n ≤ 0x200A) || n == 0x2028 || n == 0x2029 || n == 0x202F || n == 0x205F ||
    n == 0x3000

def trimStart (s : List Char) : List Char := s.dropWhile isBlank

def trimEnd (s : List Char) : List Char := (s.reverse.dropWhile isBlank).reverse

/-- The text from its first to its last character that is not white space. -/
def trim (s : List Char) : List Char := trimEnd (trimStart s)

/-- The parts before and after the first `sep`, if there is one. -/
def cut? (sep : Char) : List Char → Option (List Char × List Char)
  | [] => none
  | c :: rest =>
    if c = sep then some ([], rest)
    else (cut? sep rest).map fun (before, after) => (c :: before, after)

theorem mem_of_mem_trim {s : List Char} {c : Char} (h : c ∈ trim s) : c ∈ s := by
  have h₁ : c ∈ trimStart s := by
    simpa using (List.dropWhile_suffix isBlank).mem (List.mem_reverse.mp h)
  exact (List.dropWhile_suffix isBlank).mem h₁

theorem cut?_eq_none_iff {sep : Char} {s : List Char} : cut? sep s = none ↔ sep ∉ s := by
  induction s with
  | nil => simp [cut?]
  | cons c rest ih =>
    by_cases h : c = sep
    · simp [cut?, h]
    · simp [cut?, h, ih, Ne.symm h]

/-- The parts and the separator make up the text, and the first part has no separator. -/
theorem cut?_eq_some_iff {sep : Char} {s before after : List Char} :
    cut? sep s = some (before, after) ↔ s = before ++ sep :: after ∧ sep ∉ before := by
  induction s generalizing before with
  | nil => simp [cut?]
  | cons c rest ih =>
    by_cases h : c = sep
    · subst h
      cases before with
      | nil => simp [cut?, eq_comm]
      | cons b bs => simp +contextual [cut?, eq_comm]
    · cases before with
      | nil => simp [cut?, h]
      | cons b bs =>
        simp only [cut?, h, if_false, Option.map_eq_some_iff, Prod.exists, Prod.mk.injEq,
          List.cons.injEq, List.cons_append, List.mem_cons, not_or]
        constructor
        · rintro ⟨b', a', hcut, ⟨rfl, rfl⟩, rfl⟩
          exact ⟨⟨rfl, (ih.mp hcut).1⟩, Ne.symm h, (ih.mp hcut).2⟩
        · rintro ⟨⟨rfl, hrest⟩, _, hbs⟩
          exact ⟨bs, after, ih.mpr ⟨hrest, hbs⟩, ⟨rfl, rfl⟩, rfl⟩

end OpeningHours.Text
