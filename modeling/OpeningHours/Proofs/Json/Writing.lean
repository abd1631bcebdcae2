import OpeningHours.Json.Value
import OpeningHours.Proofs.Json.Reading

/-! Values are written as the grammar has them, and are read back.

A value whose objects repeat no key, whose numbers are finite, and which is not nested
too deeply is the value that its text is read as, in either layout (`read?_write`). -/
namespace OpeningHours.Json

/-! ### Integers -/

namespace Numeral

/-- Only zero is written with a zero in front. -/
theorem head?_write_ne {n : Nat} (h : 0 < n) : (Text.Decimal.write n).head? ≠ some '0' := by
  unfold Text.Decimal.write
  induction n using Nat.strongRecOn with
  | ind n ih =>
    by_cases hten : n < 10
    · have hdigits : ∀ n < 10, 0 < n → n.digitChar ≠ '0' := by decide
      rw [Nat.toDigits_of_lt_base hten]
      exact fun hhead => hdigits n hten h (Option.some.inj hhead)
    · have hquotient := ih (n / 10) (by omega) (by omega)
      obtain ⟨c, digits, hdigits⟩ := List.exists_cons_of_ne_nil
        (Nat.toDigits_ne_nil (n := n / 10) (b := 10))
      rw [Nat.toDigits_of_base_le (by decide) (by omega), hdigits]
      rwa [hdigits] at hquotient

theorem wellFormed_ofInt (n : Int) : (ofInt n).WellFormed where
  whole := ⟨Text.Decimal.write_ne_nil _, fun _ => Text.Decimal.isDigit_of_mem_write⟩
  noLeadingZero := by
    intro hhead
    have hzero : n.natAbs = 0 := Nat.eq_zero_of_not_pos fun hpos => head?_write_ne hpos hhead
    show Text.Decimal.write n.natAbs = ['0']
    rw [hzero]
    rfl
  fraction := nofun
  exponent := nofun

/-- The number that the sign and the digits before the point give, whatever else there is. -/
def signed (n : Numeral) : Int :=
  if n.negative then -(Nat.ofDigitChars 10 n.whole 0 : Int) else Nat.ofDigitChars 10 n.whole 0

/-- A numeral is an integer if it has neither fraction nor exponent, is not minus zero, and fits
into 64 bits. -/
theorem integer?_eq_some_iff {n : Numeral} {i : Int} :
    n.integer? = some i ↔ n.fraction = none ∧ n.exponent = none ∧
      (n.negative = true → n.signed ≠ 0) ∧ (-(UInt64.size : Int) ≤ 2 * n.signed ∧ n.signed < UInt64.size) ∧
      n.signed = i := by
  have hsize : UInt64.size = 18446744073709551616 := rfl
  unfold integer? signed
  split
  · rename_i hfraction hexponent
    simp only [hfraction, hexponent, hsize, true_and]
    cases n.negative with
    | true =>
      simp only [if_true, Option.ite_none_right_eq_some, Option.some.injEq, forall_const]
      omega
    | false =>
      simp only [Bool.false_eq_true, if_false, Option.ite_none_right_eq_some, Option.some.injEq,
        false_implies, true_and]
      omega
  · rename_i hparts
    exact ⟨nofun, fun h => (hparts h.1 h.2.1).elim⟩

theorem signed_ofInt (n : Int) : (ofInt n).signed = n := by
  have hdigits : Nat.ofDigitChars 10 (Text.Decimal.write n.natAbs) 0 = n.natAbs :=
    Nat.ofDigitChars_ten_toDigits
  simp only [signed, ofInt, hdigits, decide_eq_true_eq]
  split <;> omega

/-- An integer of 64 bits, signed or unsigned, stands for itself. -/
theorem integer?_ofInt {n : Int} (hlow : -(UInt64.size : Int) ≤ 2 * n)
    (hhigh : n < UInt64.size) :
    (ofInt n).integer? = some n := by
  have hsigned := signed_ofInt n
  refine integer?_eq_some_iff.mpr ⟨rfl, rfl, fun hnegative => ?_, ?_, hsigned⟩
  · have hlt : n < 0 := of_decide_eq_true hnegative
    omega
  · rw [hsigned]
    exact ⟨hlow, hhigh⟩

/-- The letter of an exponent is written small, and no plus sign. -/
theorem writesExponent_write (exponent : Option (Bool × List Char)) :
    WritesExponent (writeExponent exponent) exponent := by
  cases exponent with
  | none => exact .missing
  | some e =>
    obtain ⟨negative, digits⟩ := e
    cases negative with
    | true => exact .minus (by decide)
    | false => exact .bare (by decide)

theorem le_ofDigitChars (s : List Char) (n : Nat) : n ≤ Nat.ofDigitChars 10 s n := by
  induction s generalizing n with
  | nil => exact Nat.le_refl n
  | cons c s ih =>
    rw [Nat.ofDigitChars_cons]
    exact Nat.le_trans (by omega) (ih _)

/-- Digits are all taken in if the number that they make fits into 64 bits. -/
theorem absorb_of_lt {s : List Char} {n : Nat} (h : Nat.ofDigitChars 10 s n < UInt64.size) :
    absorb n s = (Nat.ofDigitChars 10 s n, []) := by
  induction s generalizing n with
  | nil => rfl
  | cons c s ih =>
    have hcons : Nat.ofDigitChars 10 (c :: s) n =
        Nat.ofDigitChars 10 s (Nat.ofDigitChars 10 [c] n) := by
      rw [Nat.ofDigitChars_cons, Nat.ofDigitChars_cons]
      rfl
    rw [hcons] at h ⊢
    simp only [absorb, if_pos (Nat.lt_of_le_of_lt (le_ofDigitChars s _) h), ih h]

/-- Rounding does not even double a number. -/
theorem round_le (n : Nat) : round n ≤ 2 * n := by
  by_cases hzero : n = 0
  · rw [hzero]
    decide
  · have hunit : 1 <<< (n.log2 + 1 - 53) ≤ n := by
      rw [Nat.one_shiftLeft]
      exact Nat.le_trans (Nat.pow_le_pow_right (by decide) (by omega)) (Nat.log2_self_le hzero)
    unfold round
    generalize 1 <<< (n.log2 + 1 - 53) = unit at hunit
    have hkept : n / unit * unit ≤ n := Nat.div_mul_le_self n unit
    simp only
    split
    · rw [Nat.add_mul, Nat.one_mul]
      omega
    · omega

theorem isFinite_ofInt {n : Int} (h : n.natAbs < UInt64.size) : (ofInt n).isFinite = true := by
  have hdigits : Nat.ofDigitChars 10 (Text.Decimal.write n.natAbs) 0 = n.natAbs :=
    Nat.ofDigitChars_ten_toDigits
  have habsorb : absorb 0 (Text.Decimal.write n.natAbs) = (n.natAbs, []) := by
    rw [absorb_of_lt (by rwa [hdigits]), hdigits]
  have hscale : (ofInt n).scale = (n.natAbs, 0) := by
    simp only [scale, ofInt, habsorb]
    rfl
  have hround := round_le n.natAbs
  have hone : round (Nat.pow 10 0) = 1 := by decide
  have hoverflow : 2 * UInt64.size < overflow := by decide
  simp only [isFinite, hscale, Int.toNat_zero, hone, Nat.mul_one, decide_eq_true_eq]
  omega

end Numeral

/-! ### Strings -/

namespace Quoted

/-- A character is written as one piece that denotes it. -/
theorem writesPiece_escape (c : Char) : ∃ p, WritesPiece (escape c) p ∧
    ∀ {pieces text}, Denotes pieces text → Denotes (p :: pieces) (c :: text) := by
  unfold escape
  split
  · exact ⟨.char '"', .short (by decide), .char⟩
  · exact ⟨.char '\\', .short (by decide), .char⟩
  · exact ⟨.char '\x08', .short (by decide), .char⟩
  · exact ⟨.char '\x0c', .short (by decide), .char⟩
  · exact ⟨.char '\n', .short (by decide), .char⟩
  · exact ⟨.char '\r', .short (by decide), .char⟩
  · exact ⟨.char '\t', .short (by decide), .char⟩
  · rename_i hquote hbackslash _ _ _ _ _
    split
    · rename_i hlow
      have hunit : ((0 * 16 + 0) * 16 + c.toNat / 16) * 16 + c.toNat % 16 = c.toNat := by omega
      have hzero : IsHexDigit '0' 0 := ⟨by decide, .inl rfl⟩
      have hpiece := WritesPiece.unit hzero hzero
        (⟨by omega, .inl rfl⟩ : IsHexDigit (hexChar (c.toNat / 16)) (c.toNat / 16))
        (⟨by omega, .inl rfl⟩ : IsHexDigit (hexChar (c.toNat % 16)) (c.toNat % 16))
      rw [hunit] at hpiece
      exact ⟨.codeUnit c.toNat, hpiece, .unit⟩
    · rename_i hlow
      exact ⟨.char c, .plain (Nat.not_lt.mp hlow) hquote hbackslash, .char⟩

theorem writes_write (s : String) : Writes (write s.toList) (some s) := by
  have hpieces : ∀ s : List Char, ∃ pieces, WritesPieces (s.flatMap escape) pieces ∧
      Denotes pieces s := by
    intro s
    induction s with
    | nil => exact ⟨[], .nil, .nil⟩
    | cons c s ih =>
      obtain ⟨p, hp, hdenotes⟩ := writesPiece_escape c
      obtain ⟨pieces, hpieces, htext⟩ := ih
      exact ⟨p :: pieces, .cons hp hpieces, hdenotes htext⟩
  obtain ⟨pieces, hwrites, hdenotes⟩ := hpieces s.toList
  have htext := Writes.text hwrites hdenotes
  rwa [String.ofList_toList] at htext

end Quoted

/-! ### Values -/

namespace Value

mutual

/-- The tree that a value is written as. -/
def toTree : Value → Tree
  | .null => .null
  | .bool b => .bool b
  | .number n => .number n
  | .string s => .string (some s)
  | .array items => .array (itemTrees items)
  | .object members => .object (memberTrees members)

def itemTrees : List Value → List Tree
  | [] => []
  | item :: rest => item.toTree :: itemTrees rest

def memberTrees : List (String × Value) → List (Option String × Tree)
  | [] => []
  | (key, value) :: rest => (some key, value.toTree) :: memberTrees rest

end

/-- A value nested no deeper than this, with finite numbers, that repeats no key. -/
inductive Readable : Nat → Value → Prop
  | null {depth : Nat} : Readable depth .null
  | bool {depth : Nat} (b : Bool) : Readable depth (.bool b)
  | number {depth : Nat} {n : Numeral} : n.WellFormed → n.isFinite = true →
      Readable depth (.number n)
  | string {depth : Nat} (s : String) : Readable depth (.string s)
  | array {depth : Nat} {items : List Value} : (∀ item ∈ items, Readable depth item) →
      Readable (depth + 1) (.array items)
  | object {depth : Nat} {members : List (String × Value)} : (Entries.keys members).Nodup →
      (∀ m ∈ members, Readable depth m.2) → Readable (depth + 1) (.object members)

theorem readable_int {depth : Nat} {n : Int} (h : n.natAbs < UInt64.size) :
    Readable depth (.int n) :=
  .number (Numeral.wellFormed_ofInt n) (Numeral.isFinite_ofInt h)

theorem mapM_itemTrees (read? : Tree → Option Value) {items : List Value}
    (h : ∀ item ∈ items, read? item.toTree = some item) :
    (itemTrees items).mapM read? = some items := by
  induction items with
  | nil => rfl
  | cons item rest ih =>
    obtain ⟨hitem, hrest⟩ := List.forall_mem_cons.mp h
    rw [itemTrees, List.mapM_cons, hitem, ih hrest]
    rfl

theorem mapM_memberTrees (read? : Option String × Tree → Option (String × Value))
    {members : List (String × Value)}
    (h : ∀ m ∈ members, read? (some m.1, m.2.toTree) = some m) :
    (memberTrees members).mapM read? = some members := by
  induction members with
  | nil => rfl
  | cons m rest ih =>
    obtain ⟨hm, hrest⟩ := List.forall_mem_cons.mp h
    rw [memberTrees, List.mapM_cons, hm, ih hrest]
    rfl

/-- The tree of a value means the value. -/
theorem ofTree?_toTree {depth : Nat} {v : Value} (h : Readable depth v) :
    ofTree? depth v.toTree = some v := by
  induction h with
  | null | bool | string => simp only [toTree, ofTree?, Option.map_some]
  | number _ hfinite => simp only [toTree, ofTree?, hfinite, if_true]
  | array _ ih => simp only [toTree, ofTree?, mapM_itemTrees _ ih, Option.map_some]
  | @object depth members hnodup _ ih =>
    have hmembers := mapM_memberTrees
      (fun m => m.1.bind fun key => (ofTree? depth m.2).map (key, ·))
      fun m hm => by rw [Option.bind_some, ih m hm, Option.map_some]
    simp only [toTree, ofTree?, hmembers, Option.map_some,
      Entries.putAll_eq_append (l := []) hnodup, List.nil_append]

/-! ### Texts -/

theorem isSpace_lineBreak (layout : Layout) (depth : Nat) : IsSpace (layout.lineBreak depth) := by
  cases layout with
  | compact => nofun
  | pretty =>
    intro c hc
    cases hc with
    | head => decide
    | tail _ hc =>
      rw [List.eq_of_mem_replicate hc]
      decide

theorem colon_eq (layout : Layout) : ∃ space, IsSpace space ∧ layout.colon = ':' :: space := by
  cases layout with
  | compact => exact ⟨[], nofun, rfl⟩
  | pretty => exact ⟨[' '], by simp [IsSpace], rfl⟩

variable {layout : Layout} {depth limit : Nat}

/-- Items are written with commas between them, each on a line of its own if there are lines. -/
theorem writesItems {s after : List Char} {t : Tree} (hs : Tree.Writes s t) (hafter : IsSpace after)
    {rest : List Value} (hrest : ∀ item ∈ rest, Tree.Writes (text layout depth item) item.toTree) :
    Tree.WritesItems (layout.lineBreak depth ++ s ++ itemsText layout depth rest ++ after)
      (t :: itemTrees rest) := by
  have hspace := isSpace_lineBreak layout depth
  induction rest generalizing s t with
  | nil =>
    rw [itemsText, List.append_nil]
    exact .last (.mk hspace hs hafter)
  | cons item rest ih =>
    obtain ⟨hitem, htail⟩ := List.forall_mem_cons.mp hrest
    have hitems := Tree.WritesItems.cons (.mk hspace hs isSpace_nil) (ih hitem htail)
    simpa only [itemsText, itemTrees, List.append_assoc, List.cons_append, List.nil_append,
      List.append_nil] using hitems

theorem writesMembers (key : String) {s after : List Char} {t : Tree} (hs : Tree.Writes s t)
    (hafter : IsSpace after) {rest : List (String × Value)}
    (hrest : ∀ m ∈ rest, Tree.Writes (text layout depth m.2) m.2.toTree) :
    Tree.WritesMembers (layout.lineBreak depth ++ Quoted.write key.toList ++ layout.colon ++ s ++
      membersText layout depth rest ++ after) ((some key, t) :: memberTrees rest) := by
  have hspace := isSpace_lineBreak layout depth
  obtain ⟨space, hcolon, heq⟩ := colon_eq layout
  have hkey := fun key => Tree.WritesKey.mk hspace (Quoted.writes_write key) isSpace_nil
  induction rest generalizing key s t with
  | nil =>
    have hmember := Tree.WritesMembers.last (hkey key) (.mk hcolon hs hafter)
    simpa only [membersText, memberTrees, heq, List.append_assoc, List.cons_append,
      List.nil_append, List.append_nil] using hmember
  | cons m rest ih =>
    obtain ⟨hm, htail⟩ := List.forall_mem_cons.mp hrest
    have hmembers := Tree.WritesMembers.cons (hkey key) (.mk hcolon hs isSpace_nil)
      (ih m.1 hm htail)
    simpa only [membersText, memberTrees, heq, List.append_assoc, List.cons_append,
      List.nil_append, List.append_nil] using hmembers

theorem writes_text {v : Value} (h : Readable limit v) (depth : Nat) :
    Tree.Writes (text layout depth v) v.toTree := by
  induction h generalizing depth with
  | null => exact .null
  | bool b => cases b <;> constructor
  | number hn _ => exact .number (.mk hn (Numeral.writesExponent_write _))
  | string s => exact .string (Quoted.writes_write s)
  | @array _ items _ ih =>
    cases items with
    | nil => exact .emptyArray isSpace_nil
    | cons item rest =>
      obtain ⟨hitem, hrest⟩ := List.forall_mem_cons.mp ih
      have hitems := writesItems (hitem (depth + 1)) (isSpace_lineBreak layout depth)
        fun item hmem => hrest item hmem (depth + 1)
      simpa only [text, toTree, itemTrees, List.append_assoc, List.cons_append] using
        Tree.Writes.array hitems
  | @object _ members _ _ ih =>
    cases members with
    | nil => exact .emptyObject isSpace_nil
    | cons m rest =>
      obtain ⟨hm, hrest⟩ := List.forall_mem_cons.mp ih
      have hmembers := writesMembers m.1 (hm (depth + 1))
        (isSpace_lineBreak layout depth) fun m hmem => hrest m hmem (depth + 1)
      simpa only [text, toTree, memberTrees, List.append_assoc, List.cons_append] using
        Tree.Writes.object hmembers

/-- What is written is a document, with or without the end of the line. -/
theorem isDocument_write {v : Value} (h : Readable limit v) (layout : Layout) :
    Tree.IsDocument (v.write layout) v.toTree ∧
      Tree.IsDocument (v.write layout ++ "\n") v.toTree := by
  have htext : Tree.Writes (text layout 0 v) v.toTree := writes_text h 0
  have hend : IsSpace ['\n'] := by simp [IsSpace]
  have halone := Tree.WritesSpaced.mk isSpace_nil htext isSpace_nil
  have hline := Tree.WritesSpaced.mk isSpace_nil htext hend
  simp only [List.nil_append, List.append_nil] at halone hline
  simp only [Tree.IsDocument, write, String.toList_append, String.toList_ofList]
  exact ⟨halone, hline⟩

/-- **A value is read back from the line that is printed for it.** -/
theorem read?_write {v : Value} (h : Readable maxDepth v) (layout : Layout) :
    read? (v.write layout ++ "\n") = some v := by
  rw [read?, Tree.read?_of_isDocument (isDocument_write h layout).2, Option.bind_some,
    ofTree?_toTree h]

end Value

end OpeningHours.Json
