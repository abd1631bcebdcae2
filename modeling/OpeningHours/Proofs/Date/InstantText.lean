import OpeningHours.Date.Reading
import OpeningHours.Proofs.Date.TextOrder
import OpeningHours.Proofs.Text.Trim

/-! Written instants.

An instant is written as its date alone, or with the time after a `T` or a blank
(`WrittenAs`). A text is read piece by piece off its front (`Pattern.front?`): a number ends
at its width or before a character that is no digit, so each part of a written instant is
read back where it stands. For the same reason two patterns that begin alike are as far
apart as the pieces they go on with (`Apart.append`). After the date comes a `T`, a digit or
nothing; after the minute a colon or nothing. So no text has the forms of two patterns
(`patterns_apart`), and of patterns that are apart it does not matter which is tried first
(`findSome?_perm`). -/
namespace OpeningHours
open DateFormat Text Text.Decimal

namespace Instant
variable {s rest digits : List Char} {width n : Nat}

/-! ### Numbers at the front of a text -/

theorem takeWhile_take_eq_nil (h : ∀ c, s.head? = some c → c.isDigit = false) (width : Nat) :
    (s.take width).takeWhile Char.isDigit = [] := by
  cases width with
  | zero => rfl
  | succ width =>
    cases s with
    | nil => rfl
    | cons c s => exact List.takeWhile_cons_of_neg (by simp [h c rfl])

theorem number?_eq_none (h : ∀ c, s.head? = some c → c.isDigit = false) :
    number? width s = none := by
  rw [number?, takeWhile_take_eq_nil h]
  rfl

/-- A number ends at its width, or before that at a character that is no digit. -/
theorem number?_append (h : IsNumeral digits n) (hwidth : digits.length ≤ width)
    (hend : digits.length = width ∨ ∀ c, rest.head? = some c → c.isDigit = false) :
    number? width (digits ++ rest) = some (n, rest) := by
  have hrest : (rest.take (width - digits.length)).takeWhile Char.isDigit = [] := by
    rcases hend with hfull | hother
    · rw [hfull, Nat.sub_self, List.take_zero]
      rfl
    · exact takeWhile_take_eq_nil hother _
  have hdigits : ((digits ++ rest).take width).takeWhile Char.isDigit = digits := by
    rw [List.take_append, List.take_of_length_le hwidth,
      List.takeWhile_append_of_pos h.digits, hrest, List.append_nil]
  simp only [number?, hdigits, read?_eq_some_iff.mpr h, Option.map_some, List.drop_left]

/-- A number of any length ends at a character that is no digit. -/
theorem longNumber?_append (h : IsNumeral digits n)
    (hend : ∀ c, rest.head? = some c → c.isDigit = false) :
    longNumber? (digits ++ rest) = some (n, rest) := by
  refine number?_append h ?_ (.inr hend)
  rw [List.length_append]
  exact Nat.le_add_right ..

theorem number?_two (h : n < 100) (rest : List Char) :
    number? 2 (trimStart (padTo 2 '0' (write n) ++ rest)) = some (n, rest) := by
  have hlength : (padTo 2 '0' (write n)).length = 2 := length_padTo (length_write_le_two h)
  rw [(isNumeral_padTo 2 n).trimStart_append]
  exact number?_append (isNumeral_padTo 2 n) (Nat.le_of_eq hlength) (.inl hlength)

/-- A year without a sign has at most four digits. -/
theorem year?_numeral (h : IsNumeral digits n) (rest : List Char) :
    year? (digits ++ rest) =
      (number? 4 (digits ++ rest)).map fun (n, rest) => ((n : Int), rest) := by
  obtain ⟨c, more, rfl, hdigit⟩ := h.exists_cons
  unfold year?
  split
  · rename_i hminus
    rw [(List.cons.inj hminus).1] at hdigit
    exact absurd hdigit (by decide)
  · rename_i hplus
    rw [(List.cons.inj hplus).1] at hdigit
    exact absurd hdigit (by decide)
  · rfl

/-- A written year is read back before a hyphen. -/
theorem year?_renderYear (year : Int) (rest : List Char) :
    year? (trimStart (renderYear .zeros year ++ '-' :: rest)) = some (year, '-' :: rest) := by
  have hnumeral := isNumeral_padTo 4 year.natAbs
  by_cases hplain : 0 ≤ year ∧ year ≤ 9999
  · have hlength := length_renderYear hplain
    rw [renderYear_plain hplain] at hlength ⊢
    rw [hnumeral.trimStart_append, year?_numeral hnumeral,
      number?_append hnumeral (Nat.le_of_eq hlength) (.inl hlength)]
    simp [Int.natAbs_of_nonneg hplain.1]
  · -- After a sign the digits go on to the hyphen, however many they are.
    have hlong : longNumber? (padTo 4 '0' (write year.natAbs) ++ '-' :: rest) =
        some (year.natAbs, '-' :: rest) := longNumber?_append hnumeral (by rintro c ⟨⟩; rfl)
    rw [renderYear_signed hplain]
    by_cases hneg : year < 0
    · rw [if_pos hneg, List.cons_append, trimStart_eq_self (by rintro c ⟨⟩; rfl)]
      simp only [year?, hlong, Option.map_some]
      rw [Int.ofNat_natAbs_of_nonpos (Int.le_of_lt hneg), Int.neg_neg]
    · rw [if_neg hneg, List.cons_append, trimStart_eq_self (by rintro c ⟨⟩; rfl)]
      simp only [year?, hlong, Option.map_some]
      rw [Int.natAbs_of_nonneg (Int.not_lt.mp hneg)]

/-! ### Pieces at the front of a text -/

namespace Pattern
variable {p : Parts} {P Q : Pattern}

/-- What the pieces of a pattern read off the front of a text, and the rest. -/
def front? (p : Parts) (s : List Char) (pattern : Pattern) : Option (Parts × List Char) :=
  pattern.foldlM (fun read piece => piece.read? read.1 read.2) (p, s)

theorem front?_append (p : Parts) (s : List Char) (P Q : Pattern) :
    front? p s (P ++ Q) = (front? p s P).bind fun read => front? read.1 read.2 Q :=
  List.foldlM_append ..

theorem read?_append (p : Parts) (s : List Char) (P Q : Pattern) :
    Pattern.read? p s (P ++ Q) =
      (front? p s P).bind fun read => Pattern.read? read.1 read.2 Q := by
  induction P generalizing p s with
  | nil => rfl
  | cons piece P ih =>
    rw [List.cons_append, Pattern.read?, front?, List.foldlM_cons]
    cases piece.read? p s with
    | none => rfl
    | some read => exact ih read.1 read.2

/-! ### Patterns apart -/

/-- No text has the forms of both patterns. -/
def Apart (P Q : Pattern) : Prop :=
  ∀ (p : Parts) (s : List Char), Pattern.read? p s P = none ∨ Pattern.read? p s Q = none

/-- Pieces that both patterns begin with are read alike. -/
theorem Apart.append (h : Apart P Q) (start : Pattern) : Apart (start ++ P) (start ++ Q) := by
  intro p s
  rw [read?_append, read?_append]
  cases front? p s start with
  | none => exact .inl rfl
  | some read => exact h read.1 read.2

theorem apart_exact_nil (c : Char) (P : Pattern) : Apart (.exact c :: P) [] := by
  intro p s
  cases s with
  | nil => exact .inl rfl
  | cons d rest => exact .inr rfl

theorem read?_blank_hour_eq_none (h : ∀ c, (trimStart s).head? = some c → c.isDigit = false)
    (p : Parts) (P : Pattern) : Pattern.read? p s (.blank :: .hour :: P) = none := by
  have hhead : ∀ c, (trimStart (trimStart s)).head? = some c → c.isDigit = false := by
    rwa [trimStart_eq_self fun c => not_blank_of_head?_trimStart]
  simp [Pattern.read?, Piece.read?, number?_eq_none hhead]

theorem apart_blank_nil (P : Pattern) : Apart (.blank :: .hour :: P) [] := by
  intro p s
  cases s with
  | nil => exact .inl (read?_blank_hour_eq_none (by simp [trimStart]) p P)
  | cons d rest => exact .inr rfl

/-- A character that is neither white space nor a digit cannot begin a time after white space. -/
theorem apart_exact_blank {c : Char} (hblank : isBlank c = false) (hdigit : c.isDigit = false)
    (P Q : Pattern) : Apart (.exact c :: P) (.blank :: .hour :: Q) := by
  intro p s
  cases s with
  | nil => exact .inl rfl
  | cons d rest =>
    by_cases hd : d = c
    · subst hd
      refine .inr (read?_blank_hour_eq_none (fun e he => ?_) p Q)
      rw [trimStart_eq_self (by rintro e ⟨⟩; exact hblank)] at he
      cases he
      exact hdigit
    · exact .inl (by simp [Pattern.read?, Piece.read?, hd])

/-- A time ends after the minute, or goes on with the second. -/
theorem apart_second_minute : Apart secondPattern minutePattern := by
  have h := (apart_exact_nil ':' [.second]).append minutePattern
  rwa [List.append_nil] at h

/-- What may follow the date. -/
def timePatterns : List Pattern :=
  [.exact 'T' :: secondPattern, .exact 'T' :: minutePattern, .blank :: secondPattern,
    .blank :: minutePattern, []]

theorem patterns_eq : patterns = timePatterns.map (datePattern ++ ·) := rfl

/-- **No text has two of the five forms.** -/
theorem patterns_apart : patterns.Pairwise Apart := by
  rw [patterns_eq, List.pairwise_map]
  suffices h : timePatterns.Pairwise Apart from h.imp fun hapart => hapart.append datePattern
  have hletter : ∀ P Q, Apart (.exact 'T' :: P) (.blank :: .hour :: Q) :=
    apart_exact_blank (by decide) (by decide)
  simp only [timePatterns, List.pairwise_cons, List.forall_mem_cons, List.not_mem_nil,
    false_imp_iff, implies_true, and_true, List.Pairwise.nil]
  -- Each of the forms in turn, against those that come after it.
  exact ⟨⟨apart_second_minute.append [.exact 'T'], hletter _ _, hletter _ _,
      apart_exact_nil 'T' _⟩,
    ⟨hletter _ _, hletter _ _, apart_exact_nil 'T' _⟩,
    ⟨apart_second_minute.append [.blank], apart_blank_nil _⟩, apart_blank_nil _⟩

end Pattern

/-! ### The order of trying -/

/-- Where no two members of a list give a result for one text, a result found is that of any
member that gives one. -/
theorem findSome?_eq_some_iff {α β : Type} {f : α → Option β} {l : List α} {b : β}
    (h : l.Pairwise fun a a' => f a = none ∨ f a' = none) :
    l.findSome? f = some b ↔ ∃ a ∈ l, f a = some b := by
  refine ⟨List.exists_of_findSome?_eq_some, ?_⟩
  rintro ⟨a, ha, hfound⟩
  induction h with
  | nil => cases ha
  | @cons first rest hfirst _ ih =>
    rcases List.mem_cons.mp ha with rfl | hrest
    · rw [List.findSome?_cons_of_isSome (by simp [hfound]), hfound]
    · have hnone : f first = none := (hfirst a hrest).resolve_right (by simp [hfound])
      rw [List.findSome?_cons_of_isNone (by simp [hnone])]
      exact ih hrest

theorem findSome?_perm {α β : Type} {f : α → Option β} {l l' : List α}
    (h : l.Pairwise fun a a' => f a = none ∨ f a' = none) (hperm : l'.Perm l) :
    l'.findSome? f = l.findSome? f := by
  have h' : l'.Pairwise fun a a' => f a = none ∨ f a' = none :=
    (hperm.pairwise_iff Or.symm).mpr h
  ext b
  simp only [findSome?_eq_some_iff h, findSome?_eq_some_iff h', hperm.mem_iff]

/-- No text gives an instant in two of the forms. -/
theorem ofPattern?_exclusive :
    patterns.Pairwise fun P Q => ∀ s, ofPattern? s P = none ∨ ofPattern? s Q = none := by
  refine Pattern.patterns_apart.imp fun hapart s => ?_
  rcases hapart {} s with hnone | hnone
  · exact .inl (by rw [ofPattern?, hnone]; rfl)
  · exact .inr (by rw [ofPattern?, hnone]; rfl)

/-! ### Texts of instants -/

/-- The time of day on this second of a minute; second 60 is a leap second. -/
def clockAt (hour : Fin 24) (minute : Fin 60) (second : Fin 61) : Clock where
  second := hour * 3600 + minute * 60 + if second.val = 60 then 59 else second.val
  nano := if second.val = 60 then 1000000000 else 0
  second_lt := by split <;> omega
  nano_lt := by split <;> decide

/-- Hour and minute, two digits each, with a colon between them. -/
def minuteText (hour minute : Nat) : List Char :=
  padTo 2 '0' (write hour) ++ ':' :: padTo 2 '0' (write minute)

/-- The same with the second. -/
def secondText (hour minute second : Nat) : List Char :=
  minuteText hour minute ++ ':' :: padTo 2 '0' (write second)

/-- The texts of an instant: its date alone at midnight, or date and time with a `T` or a blank
between them, where second zero may be left out. The year of the date has four digits, and a sign
outside of 0 to 9999. -/
inductive WrittenAs : Instant → List Char → Prop where
  | date (d : Date) : WrittenAs ⟨d, .midnight⟩ d.toISO.toList
  | minute {sep : Char} (hsep : sep = 'T' ∨ sep = ' ') (d : Date) (hour : Fin 24)
      (minute : Fin 60) :
      WrittenAs ⟨d, clockAt hour minute 0⟩ (d.toISO.toList ++ sep :: minuteText hour minute)
  | second {sep : Char} (hsep : sep = 'T' ∨ sep = ' ') (d : Date) (hour : Fin 24)
      (minute : Fin 60) (second : Fin 61) :
      WrittenAs ⟨d, clockAt hour minute second⟩
        (d.toISO.toList ++ sep :: secondText hour minute second)

namespace Pattern
variable {p : Parts}

theorem front?_date (p : Parts) (d : Date) (rest : List Char) :
    front? p (d.toISO.toList ++ rest) datePattern =
      some ({p with year := d.year, month := d.month, day := d.day}, rest) := by
  rw [d.toISO_eq_written, String.toList_ofList, Date.written]
  -- Month and day end at their width, so nothing is asked of the rest.
  simp only [front?, datePattern, List.foldlM_cons, List.foldlM_nil, List.append_assoc,
    List.cons_append, List.nil_append, Piece.read?, year?_renderYear, number?_two d.month_lt,
    number?_two d.day_lt, Option.map_some, Option.bind_eq_bind, Option.bind_some, if_true]
  rfl

theorem front?_minute (p : Parts) {hour minute : Nat} (hhour : hour < 24) (hminute : minute < 60)
    (rest : List Char) : front? p (minuteText hour minute ++ rest) minutePattern =
      some ({p with hour := hour, minute := minute}, rest) := by
  have hhour' : hour < 100 := by omega
  have hminute' : minute < 100 := by omega
  simp only [front?, minutePattern, minuteText, List.foldlM_cons, List.foldlM_nil,
    List.append_assoc, List.cons_append, Piece.read?, number?_two hhour', number?_two hminute',
    Option.map_some, Option.bind_eq_bind, Option.bind_some, if_true]
  rfl

theorem front?_second (p : Parts) {hour minute second : Nat} (hhour : hour < 24)
    (hminute : minute < 60) (hsecond : second < 61) (rest : List Char) :
    front? p (secondText hour minute second ++ rest) secondPattern =
      some ({p with hour := hour, minute := minute, second := second}, rest) := by
  have hsecond' : second < 100 := by omega
  rw [secondText, secondPattern, List.append_assoc, List.cons_append, front?_append,
    front?_minute p hhour hminute]
  simp only [front?, List.foldlM_cons, List.foldlM_nil, Piece.read?, number?_two hsecond',
    Option.map_some, Option.bind_eq_bind, Option.bind_some, if_true]
  rfl

/-- A text that the pieces read to its end has the form of the pattern. -/
theorem read?_of_front? {q : Parts} {P : Pattern} (h : front? p s P = some (q, [])) :
    Pattern.read? p s P = some q := by
  rw [← List.append_nil P, read?_append, h]
  rfl

/-- Between date and time stands the letter of the pattern, or a blank. -/
theorem front?_sep {sep : Char} (hsep : sep = 'T' ∨ sep = ' ') : ∃ piece : Piece,
    (∀ time ∈ [minutePattern, secondPattern], datePattern ++ piece :: time ∈ patterns) ∧
      ∀ (p : Parts) (s : List Char), trimStart s = s → piece.read? p (sep :: s) = some (p, s) := by
  rcases hsep with rfl | rfl
  · exact ⟨.exact 'T', by decide, fun p s _ => rfl⟩
  · exact ⟨.blank, by decide, fun p s hs => congrArg (fun s => some (p, s)) hs⟩

end Pattern

/-! ### Reading what was written -/

theorem instant?_parts (d : Date) (hour : Fin 24) (minute : Fin 60) (second : Fin 61) :
    ({year := d.year, month := d.month, day := d.day, hour, minute, second : Parts}).instant? =
      some ⟨d, clockAt hour minute second⟩ := by
  have hhour := hour.isLt
  have hminute := minute.isLt
  by_cases hleap : second.val = 60
  · simp [Parts.instant?, Clock.ofParts?, clockAt, hleap]
  · have hsecond : second.val < 60 := by omega
    simp [Parts.instant?, Clock.ofParts?, clockAt, hleap, hsecond]

/-- A text of date and time is read by a pattern of its own, if the time is. -/
theorem exists_pattern_of_time {sep : Char} (hsep : sep = 'T' ∨ sep = ' ') (d : Date)
    {time : Pattern} (htime : time ∈ [minutePattern, secondPattern]) {text : List Char}
    (htext : trimStart text = text) {q : Parts}
    (hread : Pattern.front? {year := d.year, month := d.month, day := d.day} text time =
      some (q, [])) :
    ∃ P ∈ patterns, ofPattern? (d.toISO.toList ++ sep :: text) P = q.instant? := by
  obtain ⟨piece, hmem, hpiece⟩ := Pattern.front?_sep hsep
  refine ⟨_, hmem time htime, ?_⟩
  have hwhole : Pattern.front? {} (d.toISO.toList ++ sep :: text) (datePattern ++ piece :: time) =
      some (q, []) := by
    rw [Pattern.front?_append, Pattern.front?_date, Option.bind_some, Pattern.front?,
      List.foldlM_cons, hpiece _ _ htext]
    exact hread
  rw [ofPattern?, Pattern.read?_of_front? hwhole]
  rfl

theorem trimStart_minuteText (hour minute : Nat) (rest : List Char) :
    trimStart (minuteText hour minute ++ rest) = minuteText hour minute ++ rest := by
  rw [minuteText, List.append_assoc]
  exact (isNumeral_padTo 2 hour).trimStart_append _

/-- **Each text of an instant is read by one of the patterns.** -/
theorem WrittenAs.exists_pattern {i : Instant} (h : i.WrittenAs s) :
    ∃ P ∈ patterns, ofPattern? s P = some i := by
  cases h with
  | date d =>
    refine ⟨datePattern, by decide, ?_⟩
    have hfront := Pattern.front?_date {} d []
    rw [List.append_nil] at hfront
    rw [ofPattern?, Pattern.read?_of_front? hfront]
    exact instant?_parts d 0 0 0
  | minute hsep d hour minute =>
    have htext := trimStart_minuteText hour minute []
    have hread := Pattern.front?_minute {year := d.year, month := d.month, day := d.day}
      hour.isLt minute.isLt []
    rw [List.append_nil] at htext hread
    rw [← instant?_parts]
    exact exists_pattern_of_time hsep d (by decide) htext hread
  | second hsep d hour minute second =>
    have hread := Pattern.front?_second {year := d.year, month := d.month, day := d.day}
      hour.isLt minute.isLt second.isLt []
    rw [List.append_nil] at hread
    rw [← instant?_parts]
    exact exists_pattern_of_time hsep d (by decide) (trimStart_minuteText hour minute _) hread

/-! ### Written instants among white space -/

theorem not_blank_of_mem_renderYear {year : Int} {c : Char} (h : c ∈ renderYear .zeros year) :
    isBlank c = false := by
  by_cases hplain : 0 ≤ year ∧ year ≤ 9999
  · rw [renderYear_plain hplain] at h
    exact not_blank_of_mem_padTo h
  · rw [renderYear_signed hplain] at h
    rcases List.mem_cons.mp h with rfl | hdigits
    · split <;> rfl
    · exact not_blank_of_mem_padTo hdigits

theorem trim_toISO (d : Date) : trim d.toISO.toList = d.toISO.toList := by
  refine trim_eq_self_of_forall fun c hc => ?_
  rw [d.toISO_eq_written, String.toList_ofList, Date.written] at hc
  simp only [List.mem_append, List.mem_singleton] at hc
  rcases hc with hyear | rfl | hmonth | rfl | hday
  · exact not_blank_of_mem_renderYear hyear
  · rfl
  · exact not_blank_of_mem_padTo hmonth
  · rfl
  · exact not_blank_of_mem_padTo hday

theorem not_blank_of_mem_minuteText {hour minute : Nat} {c : Char}
    (h : c ∈ minuteText hour minute) : isBlank c = false := by
  rw [minuteText, List.mem_append, List.mem_cons] at h
  rcases h with hhour | rfl | hminute
  · exact not_blank_of_mem_padTo hhour
  · rfl
  · exact not_blank_of_mem_padTo hminute

theorem trim_secondText (hour minute second : Nat) :
    trim (secondText hour minute second) = secondText hour minute second := by
  refine trim_eq_self_of_forall fun c hc => ?_
  rw [secondText, List.mem_append, List.mem_cons] at hc
  rcases hc with hminute | rfl | hsecond
  · exact not_blank_of_mem_minuteText hminute
  · rfl
  · exact not_blank_of_mem_padTo hsecond

/-- A text of an instant is trimmed. -/
theorem WrittenAs.trim_eq {i : Instant} (h : i.WrittenAs s) : trim s = s := by
  have hne : ∀ d : Date, d.toISO.toList ≠ [] := by
    intro d
    rw [d.toISO_eq_written, String.toList_ofList, Date.written]
    simp
  cases h with
  | date d => exact trim_toISO d
  | @minute sep hsep d hour minute =>
    have htime : trim (minuteText hour minute) = minuteText hour minute :=
      trim_eq_self_of_forall fun _ => not_blank_of_mem_minuteText
    have happend := trim_append_append (hne d) (by simp [minuteText]) (trim_toISO d) htime [sep]
    rwa [List.append_assoc, List.singleton_append] at happend
  | @second sep hsep d hour minute second =>
    have happend := trim_append_append (hne d) (by simp [secondText]) (trim_toISO d)
      (trim_secondText hour minute second) [sep]
    rwa [List.append_assoc, List.singleton_append] at happend

/-- **Instants are read back from their texts, and no text has two readings.** Every text of an
instant gives that instant, with any white space around it. No text is accepted in two of the five
forms, so in whatever order they are tried the answer is the same. -/
theorem texts_read_back_in_any_order :
    (∀ (i : Instant) (s before after : List Char), i.WrittenAs s → IsBlank before →
      IsBlank after → read? (String.ofList (before ++ s ++ after)) = some i) ∧
    (patterns.Pairwise fun P Q => ∀ s, ofPattern? s P = none ∨ ofPattern? s Q = none) ∧
    ∀ tried : List Pattern, tried.Perm patterns →
      ∀ s : String, tried.findSome? (ofPattern? (trim s.toList)) = read? s := by
  have hexclusive : ∀ s : List Char,
      patterns.Pairwise fun P Q => ofPattern? s P = none ∨ ofPattern? s Q = none :=
    fun s => ofPattern?_exclusive.imp fun h => h s
  refine ⟨fun i s before after hwritten hbefore hafter => ?_, ofPattern?_exclusive,
    fun tried htried s => findSome?_perm (hexclusive _) htried⟩
  have htrim : trim (before ++ s ++ after) = s := by
    rw [trim_append_blank hafter, trim_blank_append hbefore, hwritten.trim_eq]
  rw [read?, String.toList_ofList, htrim]
  exact (findSome?_eq_some_iff (hexclusive s)).mpr hwritten.exists_pattern

/-- The leap second at the end of the year 999, with the forms tried from the last to the first. -/
theorem texts_read_back_in_any_order_leap_second :
    let d : Date := ⟨999, 12, 31, by decide⟩
    let i : Instant := ⟨d, ⟨86399, 1000000000, by decide, by decide⟩⟩
    let s := "0999-12-31 23:59:60".toList
    i.WrittenAs s ∧ IsBlank ['\t', '\u3000'] ∧ IsBlank ['\n'] ∧
      read? "\t\u30000999-12-31 23:59:60\n" = some i ∧ patterns.reverse.Perm patterns ∧
      patterns.reverse.findSome? (ofPattern? (trim "\t\u30000999-12-31 23:59:60\n".toList)) =
        some i := by
  intro d i s
  have hwritten : i.WrittenAs s := by
    have htext : d.toISO.toList ++ ' ' :: secondText 23 59 60 = s := by decide
    rw [← htext]
    exact .second (.inr rfl) d 23 59 60
  have hbefore : IsBlank ['\t', '\u3000'] := by decide
  have hafter : IsBlank ['\n'] := by decide
  have hreverse : patterns.reverse.Perm patterns := patterns.reverse_perm
  obtain ⟨hback, -, horder⟩ := texts_read_back_in_any_order
  have hread : read? "\t\u30000999-12-31 23:59:60\n" = some i := by
    have htext : ['\t', '\u3000'] ++ s ++ ['\n'] = "\t\u30000999-12-31 23:59:60\n".toList := by
      decide
    have hsome := hback i s _ _ hwritten hbefore hafter
    rwa [htext, String.ofList_toList] at hsome
  exact ⟨hwritten, hbefore, hafter, hread, hreverse, (horder _ hreverse _).trans hread⟩

end Instant

end OpeningHours
