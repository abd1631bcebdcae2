import OpeningHours.Proofs.Json.Grammar

/-! Tokens are read as the grammar writes them.

A number is the only token that could go on into what follows it, so it is read up to
its end if what follows begins with nothing that belongs to a number (`GoesOn`). A string
ends at its quote. Its text is the one that its pieces denote, and without such a text
there is none (`text?_eq_some_iff`). -/
namespace OpeningHours.Json

/-! ### Numbers -/

/-- The text does not begin with a character of this kind. -/
def BeginsWithout (p : Char → Prop) (s : List Char) : Prop := ∀ c ∈ s.head?, ¬ p c

/-- A character that could belong to a number. -/
def GoesOn (c : Char) : Prop := c.isDigit = true ∨ c ∈ ['.', 'e', 'E']

namespace Numeral

theorem digits?_append {digits rest : List Char} (h : IsDigits digits)
    (hrest : BeginsWithout (fun c => c.isDigit = true) rest) :
    digits? (digits ++ rest) = some (digits, rest) := by
  have htake : (digits ++ rest).takeWhile Char.isDigit = digits := by
    rw [List.takeWhile_append_of_pos h.digit]
    cases rest with
    | nil => simp
    | cons c rest => rw [List.takeWhile_cons_of_neg (hrest c rfl), List.append_nil]
  simp only [digits?, htake, h.ne_nil, if_false, List.drop_left]

theorem whole?_append {n : Numeral} (h : n.WellFormed) {rest : List Char}
    (hrest : BeginsWithout (fun c => c.isDigit = true) rest) :
    whole? (n.whole ++ rest) = some (n.whole, rest) := by
  have hdigits := digits?_append h.whole hrest
  unfold whole?
  split
  · rename_i tail hzero
    have hhead : n.whole.head? = some '0' := by
      obtain ⟨c, cs, hwhole⟩ := List.exists_cons_of_ne_nil h.whole.ne_nil
      rw [hwhole] at hzero ⊢
      cases hzero
      rfl
    have hwhole := h.noLeadingZero hhead
    rw [hwhole] at hzero ⊢
    cases hzero
    rfl
  · exact hdigits

theorem fraction?_append {fraction : Option (List Char)}
    (h : ∀ digits ∈ fraction, IsDigits digits) {rest : List Char}
    (hrest : BeginsWithout (fun c => c.isDigit = true ∨ c = '.') rest) :
    fraction? (writeFraction fraction ++ rest) = some (fraction, rest) := by
  cases fraction with
  | none =>
    show fraction? rest = some (none, rest)
    unfold fraction?
    split
    · exact absurd (.inr rfl) (hrest '.' rfl)
    · rfl
  | some digits =>
    show (digits? (digits ++ rest)).map _ = _
    rw [digits?_append (h digits rfl) fun c hc hdigit => hrest c hc (.inl hdigit)]
    rfl

/-- A letter of an exponent, whatever sign comes after it. -/
theorem exponent?_cons {e : Char} (he : e ∈ ['e', 'E']) {s digits rest : List Char}
    {negative : Bool} (hsign : exponentSign s = (negative, digits ++ rest))
    (hdigits : IsDigits digits) (hrest : BeginsWithout GoesOn rest) :
    exponent? (e :: s) = some (some (negative, digits), rest) := by
  have hletter : e = 'e' ∨ e = 'E' := by simpa using he
  have hscan := digits?_append hdigits fun c hc hdigit => hrest c hc (.inl hdigit)
  simp only [exponent?, if_pos hletter, hsign, hscan]
  rfl

/-- Digits are not taken for a sign. -/
theorem exponentSign_append {digits : List Char} (h : IsDigits digits) (rest : List Char) :
    exponentSign (digits ++ rest) = (false, digits ++ rest) := by
  obtain ⟨c, cs, rfl⟩ := List.exists_cons_of_ne_nil h.ne_nil
  have hdigit := h.digit c List.mem_cons_self
  unfold exponentSign
  split
  · rename_i hminus
    cases hminus
    exact absurd hdigit (by decide)
  · rename_i hplus
    cases hplus
    exact absurd hdigit (by decide)
  · rfl

theorem exponent?_append {s : List Char} {exponent : Option (Bool × List Char)}
    (hs : WritesExponent s exponent) (h : ∀ e ∈ exponent, IsDigits e.2) {rest : List Char}
    (hrest : BeginsWithout GoesOn rest) :
    exponent? (s ++ rest) = some (exponent, rest) := by
  cases hs with
  | missing =>
    cases rest with
    | nil => rfl
    | cons c rest =>
      have hletter : ¬ (c = 'e' ∨ c = 'E') := fun hc => hrest c rfl (.inr (by simp [hc]))
      show exponent? (c :: rest) = _
      rw [exponent?, if_neg hletter]
  | bare he =>
    have hdigits := h _ rfl
    exact exponent?_cons he (exponentSign_append hdigits rest) hdigits hrest
  | plus he | minus he => exact exponent?_cons he rfl (h _ rfl) hrest

/-- An exponent, or what follows in its place, goes on with neither digits nor a point. -/
theorem beginsWithout_exponent {s : List Char} {exponent : Option (Bool × List Char)}
    (hs : WritesExponent s exponent) {rest : List Char} (hrest : BeginsWithout GoesOn rest) :
    BeginsWithout (fun c => c.isDigit = true ∨ c = '.') (s ++ rest) := by
  have hletter : ∀ e ∈ ['e', 'E'], ¬ (e.isDigit = true ∨ e = '.') := by simp
  intro c hc hgoes
  cases hs with
  | missing =>
    refine hrest c hc (hgoes.imp_right fun hpoint => ?_)
    rw [hpoint]
    decide
  | bare he | plus he | minus he =>
    cases hc
    exact hletter _ he hgoes

theorem beginsWithout_fraction (fraction : Option (List Char)) {rest : List Char}
    (hrest : BeginsWithout (fun c => c.isDigit = true ∨ c = '.') rest) :
    BeginsWithout (fun c => c.isDigit = true) (writeFraction fraction ++ rest) := by
  intro c hc hdigit
  cases fraction with
  | none => exact hrest c hc (.inl hdigit)
  | some digits =>
    cases hc
    exact absurd hdigit (by decide)

theorem unsigned?_append {n : Numeral} (h : n.WellFormed) {exponent : List Char}
    (hexponent : WritesExponent exponent n.exponent) {rest : List Char}
    (hrest : BeginsWithout GoesOn rest) :
    unsigned? n.negative (n.whole ++ (writeFraction n.fraction ++ (exponent ++ rest))) =
      some (n, rest) := by
  have hpoint := beginsWithout_exponent hexponent hrest
  have hwhole := whole?_append h (beginsWithout_fraction n.fraction hpoint)
  have hfraction := fraction?_append h.fraction hpoint
  have hscan := exponent?_append hexponent h.exponent hrest
  simp only [unsigned?, hwhole, hfraction, hscan, Option.bind_eq_bind, Option.bind_some]
  rfl

/-- A number begins with a minus sign or with a digit. -/
theorem Writes.exists_cons {s : List Char} {n : Numeral} (h : Writes s n) :
    ∃ c tail, s = c :: tail ∧ (c = '-' ∨ c.isDigit = true) := by
  cases h with
  | mk hn _ =>
    obtain ⟨c, cs, hwhole⟩ := List.exists_cons_of_ne_nil hn.whole.ne_nil
    cases n.negative with
    | true => exact ⟨'-', _, rfl, .inl rfl⟩
    | false =>
      have hdigit := hn.whole.digit c (hwhole ▸ List.mem_cons_self)
      rw [hwhole]
      exact ⟨c, _, rfl, .inr hdigit⟩

/-- **A number is read up to its end.** -/
theorem scan?_append {s : List Char} {n : Numeral} (h : Writes s n) {rest : List Char}
    (hrest : BeginsWithout GoesOn rest) : scan? (s ++ rest) = some (n, rest) := by
  cases h with
  | mk hn hexponent =>
    have hunsigned := unsigned?_append hn hexponent hrest
    cases hnegative : n.negative with
    | true =>
      rw [hnegative] at hunsigned
      simp only [if_true, List.append_assoc]
      exact hunsigned
    | false =>
      rw [hnegative] at hunsigned
      simp only [Bool.false_eq_true, if_false, List.nil_append, List.append_assoc]
      obtain ⟨c, cs, hwhole⟩ := List.exists_cons_of_ne_nil hn.whole.ne_nil
      unfold scan?
      split
      · rename_i hminus
        rw [hwhole] at hminus
        cases hminus
        exact absurd (hn.whole.digit '-' (hwhole ▸ List.mem_cons_self)) (by decide)
      · exact hunsigned

end Numeral

/-! ### Strings -/

namespace Quoted

theorem hexDigit?_eq_some {c : Char} {n : Nat} (h : IsHexDigit c n) : hexDigit? c = some n := by
  have hdigits : ∀ n < 16, hexDigit? n.digitChar = some n ∧
      hexDigit? n.digitChar.toUpper = some n := by decide
  obtain ⟨hn, rfl | rfl⟩ := h
  · exact (hdigits n hn).1
  · exact (hdigits n hn).2

theorem hexNumber?_eq_some {a b c d : Char} {i j k l : Nat} (ha : IsHexDigit a i)
    (hb : IsHexDigit b j) (hc : IsHexDigit c k) (hd : IsHexDigit d l) :
    hexNumber? a b c d = some (((i * 16 + j) * 16 + k) * 16 + l) := by
  simp only [hexNumber?, hexDigit?_eq_some ha, hexDigit?_eq_some hb, hexDigit?_eq_some hc,
    hexDigit?_eq_some hd, Option.bind_eq_bind, Option.bind_some, Option.pure_def]

theorem escaped?_of_mem {letter c : Char} (h : (letter, c) ∈ shortEscapes) :
    escaped? letter = some c ∧ letter ≠ 'u' := by
  have hall : ∀ e ∈ shortEscapes, escaped? e.1 = some e.2 ∧ e.1 ≠ 'u' := by decide
  exact hall (letter, c) h

/-- One piece is taken off the front. -/
theorem scan?_piece {s : List Char} {p : Piece} (h : WritesPiece s p) (rest : List Char) :
    scan? (s ++ rest) = (scan? rest).map fun (pieces, rest) => (p :: pieces, rest) := by
  cases h with
  | plain hlow hquote hbackslash =>
    rw [List.singleton_append, scan?, if_neg (Nat.not_lt.mpr hlow)]
    · exact hquote
    · intro _ _ _ _ _ hc
      exact absurd hc hbackslash
    · intro _ _ hc
      exact absurd hc hbackslash
  | short hletter =>
    obtain ⟨hescaped, hu⟩ := escaped?_of_mem hletter
    rw [List.cons_append, List.singleton_append, scan?, hescaped]
    intro _ _ _ _ _ hc
    exact absurd hc hu
  | unit ha hb hc hd =>
    have hnumber := hexNumber?_eq_some ha hb hc hd
    simp only [List.cons_append, List.nil_append, scan?, hnumber]

theorem scan?_append {s : List Char} {pieces : List Piece} (h : WritesPieces s pieces)
    (rest : List Char) : scan? (s ++ '"' :: rest) = some (pieces, rest) := by
  induction h with
  | nil => rfl
  | cons hpiece _ ih => rw [List.append_assoc, scan?_piece hpiece, ih, Option.map_some]

/-- Four hexadecimal digits make a unit of 16 bits. -/
theorem lt_of_writesPieces {s : List Char} {pieces : List Piece} (h : WritesPieces s pieces)
    {n : Nat} (hn : Piece.codeUnit n ∈ pieces) : n < 0x10000 := by
  induction h with
  | nil => cases hn
  | cons hpiece _ ih =>
    cases hn with
    | tail _ hn => exact ih hn
    | head =>
      cases hpiece with
      | unit ha hb hc hd =>
        have := ha.1
        have := hb.1
        have := hc.1
        have := hd.1
        omega

theorem toNat_valid (c : Char) : c.toNat < 0xD800 ∨ 0xDFFF < c.toNat ∧ c.toNat < 0x110000 :=
  c.valid

/-- No character is half of a pair. -/
theorem not_surrogate (c : Char) : isLeading c.toNat = false ∧ isTrailing c.toNat = false := by
  have hvalid := toNat_valid c
  simp only [isLeading, isTrailing, Bool.and_eq_false_iff, decide_eq_false_iff_not]
  omega

theorem toNat_ofNat {n : Nat} (h : n < 0xD800 ∨ 0xDFFF < n ∧ n < 0x110000) :
    (Char.ofNat n).toNat = n := by
  have hvalid : n.isValidChar := h
  rw [Char.ofNat, dif_pos hvalid]
  rfl

/-- A unit that is half of no pair stands for a character, whatever comes after it. -/
theorem text?_unit {n : Nat} (h : isLeading n = false ∧ isTrailing n = false)
    (pieces : List Piece) :
    text? (.codeUnit n :: pieces) = (text? pieces).map (Char.ofNat n :: ·) := by
  cases pieces with
  | nil => simp only [text?, h.1, h.2, Bool.or_false, Bool.false_eq_true, if_false]
  | cons p rest =>
    cases p <;>
      simp only [text?, h.1, h.2, Bool.false_and, Bool.or_false, Bool.false_eq_true, if_false]

theorem text?_of_denotes {pieces : List Piece} {text : List Char} (h : Denotes pieces text) :
    text? pieces = some text := by
  induction h with
  | nil => rfl
  | char _ ih => rw [text?, ih, Option.map_some]
  | @unit c _ _ _ ih =>
    rw [text?_unit (not_surrogate c), ih, Option.map_some, Char.ofNat_toNat]
  | @pair c m pieces text hm _ ih =>
    have hvalid := toNat_valid c
    have hleading : isLeading (0xD800 + m / 0x400) = true := by
      simp only [isLeading, Bool.and_eq_true, decide_eq_true_eq]
      omega
    have htrailing : isTrailing (0xDC00 + m % 0x400) = true := by
      simp only [isTrailing, Bool.and_eq_true, decide_eq_true_eq]
      omega
    have hsum : 0x10000 + (0xD800 + m / 0x400 - 0xD800) * 0x400 + (0xDC00 + m % 0x400 - 0xDC00) =
        c.toNat := by
      omega
    rw [text?, hleading, htrailing, Bool.and_true, if_pos rfl, ih, hsum, Option.map_some,
      Char.ofNat_toNat]

theorem denotes_unit {n : Nat} {pieces : List Piece} {text : List Char} (hn : n < 0x10000)
    (hsingle : ¬ (isLeading n || isTrailing n) = true) (h : Denotes pieces text) :
    Denotes (.codeUnit n :: pieces) (Char.ofNat n :: text) := by
  have hvalid : n < 0xD800 ∨ 0xDFFF < n ∧ n < 0x110000 := by
    simp only [isLeading, isTrailing, Bool.or_eq_true, Bool.and_eq_true, decide_eq_true_eq]
      at hsingle
    omega
  have hunit := Denotes.unit (c := Char.ofNat n) h
  rwa [toNat_ofNat hvalid] at hunit

theorem denotes_pair {n m : Nat} {pieces : List Piece} {text : List Char}
    (hpair : (isLeading n && isTrailing m) = true) (h : Denotes pieces text) :
    Denotes (.codeUnit n :: .codeUnit m :: pieces)
      (Char.ofNat (0x10000 + (n - 0xD800) * 0x400 + (m - 0xDC00)) :: text) := by
  simp only [isLeading, isTrailing, Bool.and_eq_true, decide_eq_true_eq] at hpair
  have hchar := toNat_ofNat (n := 0x10000 + (n - 0xD800) * 0x400 + (m - 0xDC00)) (by omega)
  have hdenotes := Denotes.pair (hchar.trans (Nat.add_assoc ..)) h
  have hn : 0xD800 + ((n - 0xD800) * 0x400 + (m - 0xDC00)) / 0x400 = n := by omega
  have hm : 0xDC00 + ((n - 0xD800) * 0x400 + (m - 0xDC00)) % 0x400 = m := by omega
  rwa [hn, hm] at hdenotes

theorem denotes_of_text? {pieces : List Piece} {text : List Char}
    (hunits : ∀ n, .codeUnit n ∈ pieces → n < 0x10000) (h : text? pieces = some text) :
    Denotes pieces text := by
  fun_induction text? pieces generalizing text with
  | case1 =>
    cases h
    exact .nil
  | case2 c rest ih =>
    obtain ⟨tail, htail, rfl⟩ := Option.map_eq_some_iff.mp h
    exact .char (ih (fun n hn => hunits n (.tail _ hn)) htail)
  | case3 n m rest hpair ih =>
    obtain ⟨tail, htail, rfl⟩ := Option.map_eq_some_iff.mp h
    exact denotes_pair hpair (ih (fun n hn => hunits n (.tail _ (.tail _ hn))) htail)
  | case4 => cases h
  | case5 n m rest _ hsingle ih =>
    obtain ⟨tail, htail, rfl⟩ := Option.map_eq_some_iff.mp h
    exact denotes_unit (hunits n (.head _)) hsingle
      (ih (fun n hn => hunits n (.tail _ hn)) htail)
  | case6 => cases h
  | case7 n rest _ hsingle ih =>
    obtain ⟨tail, htail, rfl⟩ := Option.map_eq_some_iff.mp h
    exact denotes_unit (hunits n (.head _)) hsingle
      (ih (fun n hn => hunits n (.tail _ hn)) htail)

/-- **The text of a string is the one that its pieces denote, if they denote any.** -/
theorem text?_eq_some_iff {s : List Char} {pieces : List Piece} (h : WritesPieces s pieces)
    (text : List Char) : text? pieces = some text ↔ Denotes pieces text :=
  ⟨denotes_of_text? fun _ hn => lt_of_writesPieces h hn, text?_of_denotes⟩

end Quoted

/-! ### Tokens -/

namespace Token

theorem front?_string {s : List Char} {text : Option String} (h : Quoted.Writes s text)
    (rest : List Char) : front? (s ++ rest) = some (.string text, rest) := by
  have hscan : ∀ {s pieces}, Quoted.WritesPieces s pieces →
      front? ('"' :: s ++ ['"'] ++ rest) =
        some (.string ((Quoted.text? pieces).map String.ofList), rest) := by
    intro s pieces hpieces
    have hs := Quoted.scan?_append hpieces rest
    rw [List.append_assoc, List.singleton_append, List.cons_append, front?, hs, Option.map_some]
  cases h with
  | text hpieces hdenotes =>
    rw [hscan hpieces, Quoted.text?_of_denotes hdenotes, Option.map_some]
  | unpaired hpieces hnone =>
    have htext := Option.eq_none_iff_forall_ne_some.mpr fun text htext =>
      hnone text ((Quoted.text?_eq_some_iff hpieces text).mp htext)
    rw [hscan hpieces, htext, Option.map_none]

theorem front?_number {s : List Char} {n : Numeral} (h : Numeral.Writes s n) {rest : List Char}
    (hrest : BeginsWithout GoesOn rest) : front? (s ++ rest) = some (.number n, rest) := by
  have hscan := Numeral.scan?_append h hrest
  obtain ⟨c, tail, rfl, hc⟩ := h.exists_cons
  unfold front?
  split
  case h_11 => rw [hscan, Option.map_some]
  -- No other token begins with a minus sign or a digit.
  all_goals
    rename_i heq
    obtain ⟨rfl, -⟩ := List.cons.inj heq
    exact absurd hc (by decide)

theorem isBlank_of_front? {c : Char} {s rest : List Char} {t : Token}
    (h : front? (c :: s) = some (t, rest)) : isBlank c = false := by
  refine Bool.eq_false_iff.mpr fun hblank => ?_
  have hc : c = ' ' ∨ c = '\t' ∨ c = '\n' ∨ c = '\r' := by
    simpa [isBlank, or_assoc] using hblank
  obtain rfl | rfl | rfl | rfl := hc <;> cases h

theorem scan?_of_front? {s rest : List Char} {t : Token} (h : front? s = some (t, rest)) :
    scan? s = (scan? rest).map (t :: ·) := by
  cases s with
  | nil => cases h
  | cons c s =>
    have hblank := isBlank_of_front? h
    rw [scan?, hblank]
    simp only [Bool.false_eq_true, if_false]
    split
    · rename_i hnone
      cases hnone.symm.trans h
    · rename_i hfront
      cases hfront.symm.trans h
      rfl

theorem scan?_append_of_isSpace {s : List Char} (h : IsSpace s) (rest : List Char) :
    scan? (s ++ rest) = scan? rest := by
  induction s with
  | nil => rfl
  | cons c s ih =>
    have hblank : isBlank c = true := by simpa [isBlank, or_assoc] using h c List.mem_cons_self
    rw [List.cons_append, scan?, hblank]
    simp only [if_true]
    exact ih fun c hc => h c (List.mem_cons_of_mem _ hc)

end Token

end OpeningHours.Json
