import OpeningHours.Config
import OpeningHours.Proofs.Rule.WellFormed
import OpeningHours.Proofs.Text.Numeral

/-! The grammar of rules.

A rule is written in pieces with semicolons between them; each is blank or a clause
(`Clause.InGrammar`): one of the names, the first equals sign, and values between commas.
A value has a form before it has a meaning: no hyphen at all, or exactly one with a text
on either side (`Written.HasForm`). A rule is read exactly if its pieces are in the
grammar, and otherwise refused for the leftmost piece that is not. That fault is one of
form if it shows without the meaning of the clause (`Clause.LacksForm`), whatever else is
wrong with the piece. -/
namespace OpeningHours
open Text Text.Decimal

/-! ### Values -/

/-- The names of a special day. -/
def SpecialDay.spellings : SpecialDay → List String
  | easter => ["easter", "paques", "pâques"]
  | easterMonday => ["easterMonday", "lundiPaques", "lundiPâques"]
  | ascension => ["ascension"]
  | pentecost => ["pentecost", "pentecote", "pentecôte"]

namespace Written

/-- A text has the form of a value: it has no hyphen, or exactly one and on both sides of it a text
that is not blank. -/
inductive Form : List Char → Written → Prop where
  | single {text} : '-' ∉ text → Form text (.single (trim text))
  | range {least greatest} : '-' ∉ least → '-' ∉ greatest → ¬ IsBlank least → ¬ IsBlank greatest →
      Form (least ++ '-' :: greatest) (.range (trim least) (trim greatest))

def HasForm (text : List Char) : Prop := ∃ w, Form text w

end Written

/-- What the clauses of a kind take as a value: a period is a range of two minutes with the less
one first, a special day one of its names, a number of a day or a range of them is not below
zero, and any text is a date. -/
def Clause.Kind.Takes : Kind → Written → Prop
  | .periods, .range least greatest => ∃ start stop : Int, IsSigned least start ∧
      IsSigned greatest stop ∧ Minute.InRange start ∧ Minute.InRange stop ∧ start < stop
  | .weekdays, w | .yeardays, w => w.All fun text => ∃ n, IsUnsigned text n ∧ n < UInt32.size
  | .specialdays, .single text => ∃ s : SpecialDay, String.ofList text ∈ s.spellings
  | .days, _ | .birthdays, _ => True
  | .periods, .single _ | .specialdays, .range _ _ => False

namespace Clause

/-- A piece of a rule is a clause: what is before its first equals sign is a name of a kind, and
after it are values of that kind between commas, and blanks. -/
def InGrammar (piece : List Char) : Prop :=
  ∃ (before after : List Char) (k : Kind), piece = before ++ '=' :: after ∧ '=' ∉ before ∧
    (String.ofList (trim before) = k.name ∨ String.ofList (trim before) = k.shortName) ∧
    ∀ value ∈ after.splitOn ',', IsBlank value ∨ ∃ w, Written.Form value w ∧ k.Takes w

/-- A piece has no equals sign, no name, or a value without a form. -/
def LacksForm (piece : List Char) : Prop :=
  '=' ∉ piece ∨ ∃ before after, piece = before ++ '=' :: after ∧ '=' ∉ before ∧
    (IsBlank before ∨ ∃ value ∈ after.splitOn ',', ¬ IsBlank value ∧ ¬ Written.HasForm value)

end Clause

/-! ### Forms -/

namespace Written
variable {text value : List Char} {w : Written}

theorem Form.no_hyphen (h : Form text w) : w.All ('-' ∉ ·) := by
  cases h with
  | single h => exact fun hmem => h (mem_of_mem_trim hmem)
  | range hleast hgreatest =>
    exact ⟨fun hmem => hleast (mem_of_mem_trim hmem), fun hmem => hgreatest (mem_of_mem_trim hmem)⟩

/-- What is read of a value in white space is decided by the text around its first hyphen. -/
theorem read_trim_eq_ok_iff : Written.read (trim value) = .ok w ↔ Form value w := by
  have hhyphen : isBlank '-' = false := by decide
  unfold Written.read
  rw [cut?_trim hhyphen]
  cases hcut : cut? '-' value with
  | none =>
    rw [cut?_eq_none_iff] at hcut
    constructor
    · rintro ⟨⟩
      exact .single hcut
    · intro h
      cases h with
      | single => rfl
      | range => exact absurd (List.mem_append_right _ List.mem_cons_self) hcut
  | some parts =>
    obtain ⟨before, after⟩ := parts
    obtain ⟨rfl, hbefore⟩ := cut?_eq_some_iff.mp hcut
    simp only [Option.map_some, trim_trimStart, trim_trimEnd]
    constructor
    · intro h
      split at h
      · cases h
      · rename_i hform
        rw [not_or, not_or, trim_eq_nil_iff, trim_eq_nil_iff, mem_trim_iff hhyphen] at hform
        obtain ⟨hleast, hgreatest, hafter⟩ := hform
        cases h
        exact .range hbefore hafter hleast hgreatest
    · intro h
      generalize htext : before ++ '-' :: after = text at h
      cases h with
      | single hnone => exact absurd (htext ▸ List.mem_append_right _ List.mem_cons_self) hnone
      | range hleast hgreatest hleast' hgreatest' =>
        obtain ⟨rfl, rfl⟩ := cut_unique hbefore hleast htext
        rw [if_neg]
        rw [not_or, not_or, trim_eq_nil_iff, trim_eq_nil_iff, mem_trim_iff hhyphen]
        exact ⟨hleast', hgreatest', hgreatest⟩

theorem isFormat_of_read_eq_error {fault : RuleFault} (h : Written.read text = .error fault) :
    fault.isFormat = true := by
  unfold Written.read at h
  split at h
  · cases h
  · dsimp only at h
    split at h
    · cases h
      rfl
    · cases h

theorem exists_read_trim_eq_error_iff :
    (∃ fault, Written.read (trim value) = .error fault) ↔ ¬ HasForm value := by
  unfold HasForm
  simp only [← read_trim_eq_ok_iff]
  cases Written.read (trim value) <;> simp

theorem no_hyphen_of_readAll {after : List Char} {ws : List Written}
    (h : Written.readAll after = .ok ws) : ∀ w ∈ ws, w.All ('-' ∉ ·) := by
  intro w hw
  obtain ⟨p, hp, hread⟩ := exists_of_mem_mapM h hw
  obtain ⟨value, _, _, rfl⟩ := mem_parts_iff.mp hp
  exact (read_trim_eq_ok_iff.mp hread).no_hyphen

/-- The values of a text are read, and have a property, if each value that is not blank has a form
with that property. -/
theorem exists_readAll_iff {P : Written → Prop} {after : List Char} :
    (∃ ws, Written.readAll after = .ok ws ∧ ∀ w ∈ ws, P w) ↔
      ∀ value ∈ after.splitOn ',', IsBlank value ∨ ∃ w, Form value w ∧ P w := by
  have hparts : (∀ p ∈ parts ',' after, ∃ w, Written.read p = .ok w ∧ P w) ↔ _ :=
    forall_mem_parts_iff
  simp only [read_trim_eq_ok_iff] at hparts
  rw [← hparts]
  constructor
  · rintro ⟨ws, hws, hP⟩ p hp
    obtain ⟨w, hw, hread⟩ := exists_mem_of_mapM hws hp
    exact ⟨w, hread, hP w hw⟩
  · intro h
    obtain ⟨ws, hws⟩ := exists_mapM_eq_ok_iff.mpr fun p hp => (h p hp).imp fun _ hw => hw.1
    refine ⟨ws, hws, fun w hw => ?_⟩
    obtain ⟨p, hp, hread⟩ := exists_of_mem_mapM hws hw
    obtain ⟨w', hread', hP⟩ := h p hp
    rw [hread] at hread'
    cases hread'
    exact hP

end Written

/-! ### Values of a kind -/

section
variable {name : String} {text : List Char} {fault : RuleFault} {w : Written}

theorem isFormat_of_readNumber_eq_error {limit : Nat}
    (h : readNumber name limit text = .error fault) : fault.isFormat = false := by
  unfold readNumber at h
  split at h <;> cases h
  rfl

theorem isFormat_of_readMinute_eq_error (h : readMinute name text = .error fault) :
    fault.isFormat = false :=
  isFormat_of_readNumber_eq_error (map_eq_error_iff.mp h)

theorem isFormat_of_readUInt32_eq_error (h : readUInt32 name text = .error fault) :
    fault.isFormat = false :=
  isFormat_of_readNumber_eq_error (map_eq_error_iff.mp h)

theorem readNumber_eq_ok_iff {limit n : Nat} :
    readNumber name limit text = .ok n ↔ IsUnsigned text n ∧ n ≤ limit := by
  rw [← readUpTo?_eq_some_iff]
  unfold readNumber
  cases readUpTo? limit text <;> simp

theorem exists_readUInt32_iff (name : String) :
    (∃ n, readUInt32 name text = .ok n) ↔ ∃ n, IsUnsigned text n ∧ n < UInt32.size := by
  have hlimit : ∀ n, n ≤ UInt32.size - 1 ↔ n < UInt32.size := fun n => by
    rw [UInt32.size]
    omega
  simp only [readUInt32, map_eq_ok_iff, readNumber_eq_ok_iff, hlimit]
  exact ⟨fun ⟨_, n, hn, _⟩ => ⟨n, hn⟩, fun ⟨n, hn⟩ => ⟨_, n, hn, rfl⟩⟩

/-- A minute in a range has no minus sign of its own. -/
theorem readMinute_eq_ok_iff (h : '-' ∉ text) {m : Minute} :
    readMinute name text = .ok m ↔ IsSigned text m.toInt := by
  simp only [readMinute, map_eq_ok_iff, readNumber_eq_ok_iff, isSigned_iff h]
  constructor
  · rintro ⟨n, ⟨hn, hle⟩, rfl⟩
    exact ⟨n, Int32.toInt_ofNat_of_lt (Nat.lt_succ_of_le hle), hn⟩
  · rintro ⟨n, hm, hn⟩
    have hle : n ≤ Minute.greatest := by
      have hlt := m.toInt_lt
      rw [Minute.greatest]
      omega
    refine ⟨n, ⟨hn, hle⟩, Int32.toInt_inj.mp ?_⟩
    rw [Int32.toInt_ofNat_of_lt (Nat.lt_succ_of_le hle), hm]

theorem SpecialDay.read_eq_ok_iff {s : SpecialDay} :
    SpecialDay.read name = .ok s ↔ name ∈ s.spellings := by
  constructor
  · intro h
    unfold SpecialDay.read at h
    split at h
    · cases h; assumption
    split at h
    · cases h; assumption
    split at h
    · cases h; exact List.mem_singleton.mpr ‹_›
    split at h
    · cases h; assumption
    split at h <;> cases h
  · intro h
    have hread : ∀ n ∈ s.spellings, SpecialDay.read n = .ok s := by cases s <;> decide
    exact hread name h

theorem SpecialDay.isFormat_of_read_eq_error (h : SpecialDay.read name = .error fault) :
    fault.isFormat = false := by
  unfold SpecialDay.read at h
  repeat' split at h
  all_goals cases h
  all_goals rfl

namespace Written

theorem exists_period_iff (h : w.All ('-' ∉ ·)) :
    (∃ i, w.period name = .ok i) ↔ Clause.Kind.Takes .periods w := by
  cases w with
  | single text => exact ⟨nofun, nofun⟩
  | range least greatest =>
    obtain ⟨hleast, hgreatest⟩ := h
    simp only [period, bind_eq_ok_iff, readMinute_eq_ok_iff hleast, readMinute_eq_ok_iff hgreatest]
    constructor
    · rintro ⟨i, start, hstart, stop, hstop, hperiod⟩
      split at hperiod
      · rename_i hlt
        exact ⟨_, _, hstart, hstop, start.inRange_toInt, stop.inRange_toInt,
          Int32.lt_iff_toInt_lt.mp hlt⟩
      · cases hperiod
    · rintro ⟨start, stop, hstart, hstop, hstart', hstop', hlt⟩
      have hbefore : Int32.ofInt start < Int32.ofInt stop := by
        rwa [Int32.lt_iff_toInt_lt, Minute.toInt_ofInt hstart', Minute.toInt_ofInt hstop']
      refine ⟨⟨Int32.ofInt start, Int32.ofInt stop⟩, Int32.ofInt start, ?_, Int32.ofInt stop,
        ?_, ?_⟩
      · rwa [Minute.toInt_ofInt hstart']
      · rwa [Minute.toInt_ofInt hstop']
      · rw [if_pos hbefore]

theorem exists_number_iff : (∃ c, w.number name = .ok c) ↔
    w.All fun text => ∃ n, IsUnsigned text n ∧ n < UInt32.size := by
  cases w with
  | single text =>
    simp only [number, map_eq_ok_iff, Written.All, ← exists_readUInt32_iff name]
    constructor
    · rintro ⟨_, n, hn, -⟩
      exact ⟨n, hn⟩
    · rintro ⟨n, hn⟩
      exact ⟨_, n, hn, rfl⟩
  | range least greatest =>
    simp only [number, bind_eq_ok_iff, Written.All, ← exists_readUInt32_iff name]
    constructor
    · rintro ⟨_, a, ha, b, hb, -⟩
      exact ⟨⟨a, ha⟩, b, hb⟩
    · rintro ⟨⟨a, ha⟩, b, hb⟩
      exact ⟨_, a, ha, b, hb, rfl⟩

theorem exists_specialDay_iff :
    (∃ s, w.specialDay name = .ok s) ↔ Clause.Kind.Takes .specialdays w := by
  cases w with
  | single text =>
    simp only [specialDay, SpecialDay.read_eq_ok_iff]
    rfl
  | range least greatest => exact ⟨nofun, nofun⟩

theorem isFormat_of_period_eq_error (h : w.period name = .error fault) :
    fault.isFormat = false := by
  cases w with
  | single text => cases h; rfl
  | range least greatest =>
    rcases bind_eq_error_iff.mp h with hstart | ⟨start, _, hrest⟩
    · exact isFormat_of_readMinute_eq_error hstart
    rcases bind_eq_error_iff.mp hrest with hstop | ⟨stop, _, hperiod⟩
    · exact isFormat_of_readMinute_eq_error hstop
    split at hperiod <;> cases hperiod
    rfl

theorem isFormat_of_number_eq_error (h : w.number name = .error fault) :
    fault.isFormat = false := by
  cases w with
  | single text => exact isFormat_of_readUInt32_eq_error (map_eq_error_iff.mp h)
  | range least greatest =>
    rcases bind_eq_error_iff.mp h with hleast | ⟨_, _, hrest⟩
    · exact isFormat_of_readUInt32_eq_error hleast
    rcases bind_eq_error_iff.mp hrest with hgreatest | ⟨_, _, hok⟩
    · exact isFormat_of_readUInt32_eq_error hgreatest
    cases hok

theorem isFormat_of_specialDay_eq_error (h : w.specialDay name = .error fault) :
    fault.isFormat = false := by
  cases w with
  | single text => exact SpecialDay.isFormat_of_read_eq_error h
  | range least greatest => cases h; rfl

end Written

/-! ### Clauses -/

namespace Clause

/-- Values that have a form make a clause if they are of the kind that has the name. -/
theorem exists_ofValues_iff {ws : List Written} (hws : ∀ w ∈ ws, w.All ('-' ∉ ·)) :
    (∃ c, ofValues name ws = .ok c) ↔
      ∃ k : Kind, (name = k.name ∨ name = k.shortName) ∧ ∀ w ∈ ws, k.Takes w := by
  have hmap : ∀ {α β : Type} {x : Except RuleFault α} {f : α → β},
      (∃ b, x.map f = .ok b) ↔ ∃ a, x = .ok a := fun {_ _ x f} => by
    cases x <;> simp [Except.map]
  simp only [← Kind.ofName?_eq_some_iff]
  unfold ofValues
  cases Kind.ofName? name with
  | none => simp
  | some k =>
    simp only [Option.some.injEq, exists_eq_left']
    cases k with
    | periods =>
      rw [hmap, exists_mapM_eq_ok_iff]
      exact forall₂_congr fun w hw => Written.exists_period_iff (hws w hw)
    | weekdays | yeardays =>
      rw [hmap, exists_mapM_eq_ok_iff]
      exact forall₂_congr fun w _ => Written.exists_number_iff
    | specialdays =>
      rw [hmap, exists_mapM_eq_ok_iff]
      exact forall₂_congr fun w _ => Written.exists_specialDay_iff
    | days | birthdays => simp [Kind.Takes]

theorem isFormat_of_ofValues_eq_error {ws : List Written} (h : ofValues name ws = .error fault) :
    fault.isFormat = false := by
  have hmember : ∀ {α : Type} {f : Written → Except RuleFault α}, ws.mapM f = .error fault →
      ∃ w, f w = .error fault := fun h => by
    obtain ⟨_, w, _, _, _, hw⟩ := mapM_eq_error_iff.mp h
    exact ⟨w, hw⟩
  unfold ofValues at h
  cases hk : Kind.ofName? name with
  | none =>
    rw [hk] at h
    cases h
    rfl
  | some k =>
    rw [hk] at h
    cases k with
    | periods =>
      obtain ⟨w, hw⟩ := hmember (map_eq_error_iff.mp h)
      exact Written.isFormat_of_period_eq_error hw
    | weekdays | yeardays =>
      obtain ⟨w, hw⟩ := hmember (map_eq_error_iff.mp h)
      exact Written.isFormat_of_number_eq_error hw
    | specialdays =>
      obtain ⟨w, hw⟩ := hmember (map_eq_error_iff.mp h)
      exact Written.isFormat_of_specialDay_eq_error hw
    | days | birthdays => cases h

variable {piece before after : List Char}

theorem read_trim_of_not_mem (h : '=' ∉ piece) :
    Clause.read (trim piece) = .error (.missingEquals (String.ofList (trim piece))) := by
  have hequals : isBlank '=' = false := by decide
  rw [Clause.read, cut?_trim hequals, cut?_eq_none_iff.mpr h]
  rfl

/-- White space around a clause is white space before its name and after its values. -/
theorem read_trim_of_cut (h : '=' ∉ before) : Clause.read (trim (before ++ '=' :: after)) =
    if trim before = [] then
      .error (.missingName (String.ofList (trim (before ++ '=' :: after))))
    else Written.readAll after >>= ofValues (String.ofList (trim before)) := by
  have hequals : isBlank '=' = false := by decide
  have hcomma : isBlank ',' = false := by decide
  have hafter : Written.readAll (trimEnd after) = Written.readAll after := by
    obtain ⟨blank, hblank, hs⟩ := exists_blank_after after
    conv => rhs; rw [hs]
    rw [Written.readAll, Written.readAll, parts_append_blank hcomma hblank]
  rw [Clause.read, cut?_trim hequals, cut?_eq_some_iff.mpr ⟨rfl, h⟩]
  simp only [Option.map_some, trim_trimStart, hafter]

theorem inGrammar_iff_of_cut (h : '=' ∉ before) : InGrammar (before ++ '=' :: after) ↔
    ∃ k : Kind,
      (String.ofList (trim before) = k.name ∨ String.ofList (trim before) = k.shortName) ∧
      ∀ value ∈ after.splitOn ',', IsBlank value ∨ ∃ w, Written.Form value w ∧ k.Takes w := by
  constructor
  · rintro ⟨before', after', k, heq, h', hk⟩
    obtain ⟨rfl, rfl⟩ := cut_unique h h' heq
    exact ⟨k, hk⟩
  · rintro ⟨k, hk⟩
    exact ⟨before, after, k, rfl, h, hk⟩

theorem lacksForm_iff_of_cut (h : '=' ∉ before) : LacksForm (before ++ '=' :: after) ↔
    IsBlank before ∨ ∃ value ∈ after.splitOn ',', ¬ IsBlank value ∧ ¬ Written.HasForm value := by
  constructor
  · rintro (hnone | ⟨before', after', heq, h', hfault⟩)
    · exact absurd (List.mem_append_right _ List.mem_cons_self) hnone
    · obtain ⟨rfl, rfl⟩ := cut_unique h h' heq
      exact hfault
  · exact fun hfault => .inr ⟨before, after, rfl, h, hfault⟩

/-- **A clause is read** exactly if it is in the grammar. -/
theorem exists_read_trim_iff : (∃ c, Clause.read (trim piece) = .ok c) ↔ InGrammar piece := by
  cases hcut : cut? '=' piece with
  | none =>
    rw [cut?_eq_none_iff] at hcut
    rw [read_trim_of_not_mem hcut]
    refine ⟨nofun, ?_⟩
    rintro ⟨before, after, k, rfl, _⟩
    exact absurd (List.mem_append_right _ List.mem_cons_self) hcut
  | some sides =>
    obtain ⟨rfl, hbefore⟩ := cut?_eq_some_iff.mp hcut
    rw [read_trim_of_cut hbefore, inGrammar_iff_of_cut hbefore]
    split
    · rename_i hblank
      refine ⟨nofun, ?_⟩
      rintro ⟨k, hname, _⟩
      rw [hblank] at hname
      cases k <;> exact absurd hname (by decide)
    · simp only [bind_eq_ok_iff, ← Written.exists_readAll_iff]
      constructor
      · rintro ⟨c, ws, hws, hc⟩
        have hhyphen := Written.no_hyphen_of_readAll hws
        obtain ⟨k, hname, htakes⟩ := (exists_ofValues_iff hhyphen).mp ⟨c, hc⟩
        exact ⟨k, hname, ws, hws, htakes⟩
      · rintro ⟨k, hname, ws, hws, htakes⟩
        have hhyphen := Written.no_hyphen_of_readAll hws
        obtain ⟨c, hc⟩ := (exists_ofValues_iff hhyphen).mpr ⟨k, hname, htakes⟩
        exact ⟨c, ws, hws, hc⟩

/-- **A clause that is refused** has a fault of form if it lacks one. -/
theorem isFormat_iff_of_read_trim_eq_error (h : Clause.read (trim piece) = .error fault) :
    fault.isFormat = true ↔ LacksForm piece := by
  cases hcut : cut? '=' piece with
  | none =>
    rw [cut?_eq_none_iff] at hcut
    rw [read_trim_of_not_mem hcut] at h
    cases h
    exact ⟨fun _ => .inl hcut, fun _ => rfl⟩
  | some sides =>
    obtain ⟨rfl, hbefore⟩ := cut?_eq_some_iff.mp hcut
    rw [read_trim_of_cut hbefore] at h
    rw [lacksForm_iff_of_cut hbefore]
    split at h
    · rename_i hblank
      cases h
      exact ⟨fun _ => .inl (trim_eq_nil_iff.mp hblank), fun _ => rfl⟩
    · rename_i hname
      rcases bind_eq_error_iff.mp h with hvalues | ⟨ws, hws, hof⟩
      · -- A value without a form is found before the name is looked at.
        obtain ⟨_, p, _, hparts, _, hread⟩ := mapM_eq_error_iff.mp hvalues
        have hmem : p ∈ parts ',' sides.2 := hparts ▸ by simp
        obtain ⟨value, hvalue, hblank, rfl⟩ := mem_parts_iff.mp hmem
        exact ⟨fun _ => .inr ⟨value, hvalue, hblank,
          Written.exists_read_trim_eq_error_iff.mp ⟨fault, hread⟩⟩,
          fun _ => Written.isFormat_of_read_eq_error hread⟩
      · have hform := Written.exists_readAll_iff.mp ⟨ws, hws, fun _ _ => trivial⟩
        rw [isFormat_of_ofValues_eq_error hof]
        refine ⟨nofun, ?_⟩
        rintro (hblank | ⟨value, hvalue, hblank, hlacks⟩)
        · exact absurd (trim_eq_nil_of_blank hblank) hname
        · obtain ⟨w, hw, _⟩ := (hform value hvalue).resolve_left hblank
          exact absurd ⟨w, hw⟩ hlacks

end Clause

end

/-! ### Rules -/

namespace Rule
variable {text : String} {fault : RuleFault}

theorem read_eq_error_iff :
    Rule.read text = .error fault ↔ Clause.readAll text.toList = .error fault := by
  constructor
  · intro h
    rcases bind_eq_error_iff.mp h with hclauses | ⟨_, _, hok⟩
    · exact hclauses
    · cases hok
  · exact fun h => bind_eq_error_iff.mpr (.inl h)

theorem exists_read_iff : (∃ r, Rule.read text = .ok r) ↔
    ∀ piece ∈ text.toList.splitOn ';', IsBlank piece ∨ Clause.InGrammar piece := by
  simp only [← Clause.exists_read_trim_iff]
  rw [← forall_mem_parts_iff (P := fun p => ∃ c, Clause.read p = .ok c), ← exists_mapM_eq_ok_iff]
  constructor
  · rintro ⟨_, hr⟩
    obtain ⟨clauses, hclauses, _⟩ := bind_eq_ok_iff.mp hr
    exact ⟨clauses, hclauses⟩
  · rintro ⟨clauses, hclauses⟩
    exact ⟨_, bind_eq_ok_iff.mpr ⟨clauses, hclauses, rfl⟩⟩

/-- **Reading follows the grammar.** A rule is read exactly if each of its pieces is blank or in
the grammar. Otherwise it is refused with the fault that the leftmost of the other pieces has
alone, and that fault is one of form if the piece lacks the form of a clause, and one of a
parameter if it does not. -/
theorem read_follows_grammar (text : String) :
    ((∃ r, Rule.read text = .ok r) ↔
      ∀ piece ∈ text.toList.splitOn ';', IsBlank piece ∨ Clause.InGrammar piece) ∧
    ∀ before piece after, text.toList.splitOn ';' = before ++ piece :: after →
      (∀ earlier ∈ before, IsBlank earlier ∨ Clause.InGrammar earlier) →
      ¬ (IsBlank piece ∨ Clause.InGrammar piece) →
      ∃ fault, Rule.read text = .error fault ∧
        Rule.read (String.ofList piece) = .error fault ∧
        ((Fault.rule fault).kind = .ruleFormat ↔ Clause.LacksForm piece) ∧
        ((Fault.rule fault).kind = .ruleParameter ↔ ¬ Clause.LacksForm piece) := by
  refine ⟨exists_read_iff, fun before piece after hsplit hbefore hpiece => ?_⟩
  rw [not_or, ← Clause.exists_read_trim_iff] at hpiece
  obtain ⟨hblank, hrefused⟩ := hpiece
  have hne : trim piece ≠ [] := fun hnil => hblank (trim_eq_nil_iff.mp hnil)
  cases hread : Clause.read (trim piece) with
  | ok c => exact absurd ⟨c, hread⟩ hrefused
  | error fault =>
    have hform := Clause.isFormat_iff_of_read_trim_eq_error hread
    refine ⟨fault, ?_, ?_, ?_, ?_⟩
    · refine read_eq_error_iff.mpr (mapM_eq_error_iff.mpr
        ⟨(before.map trim).filter (· ≠ []), trim piece, (after.map trim).filter (· ≠ []), ?_, ?_,
          hread⟩)
      · simp [parts, hsplit, hne]
      · intro p hp
        obtain ⟨hmem, hnil⟩ := List.mem_filter.mp hp
        obtain ⟨earlier, hearlier, rfl⟩ := List.mem_map.mp hmem
        have hgrammar := (hbefore earlier hearlier).resolve_left fun h =>
          of_decide_eq_true hnil (trim_eq_nil_of_blank h)
        exact Clause.exists_read_trim_iff.mpr hgrammar
    · have hmem : piece ∈ text.toList.splitOn ';' := hsplit ▸ by simp
      have hsemicolon : ';' ∉ piece := not_mem_of_mem_splitOn hmem
      rw [read_eq_error_iff, String.toList_ofList, Clause.readAll, parts_of_not_mem hsemicolon]
      refine mapM_eq_error_iff.mpr ⟨[], trim piece, [], ?_, ?_, hread⟩
      · simp [hne]
      · simp
    · rw [← hform, Fault.kind]
      cases fault.isFormat <;> decide
    · rw [← hform, Fault.kind]
      cases fault.isFormat <;> decide

/-- A clause under an unknown name, with a value of no use before one without a form, stands after
a clause that is read and a blank piece, and before another fault. -/
theorem read_follows_grammar_several_faults :
    let text := "wd=1; ; hours =6h-7,1-2-3 ;=x"
    ∃ fault, Rule.read text = .error fault ∧ Rule.read " hours =6h-7,1-2-3 " = .error fault ∧
      (Fault.rule fault).kind = .ruleFormat ∧ ¬ ∃ r, Rule.read text = .ok r := by
  intro text
  obtain ⟨hread, hfault⟩ := read_follows_grammar text
  have hsplit : text.toList.splitOn ';' =
      ["wd=1".toList, " ".toList] ++ " hours =6h-7,1-2-3 ".toList :: ["=x".toList] := by decide
  have hearlier : ∀ earlier ∈ ["wd=1".toList, " ".toList],
      IsBlank earlier ∨ Clause.InGrammar earlier := by
    simp only [List.mem_cons, List.not_mem_nil, or_false, forall_eq_or_imp, forall_eq]
    exact ⟨.inr (Clause.exists_read_trim_iff.mp ⟨.weekdays [.exactly 1], by decide⟩),
      .inl (trim_eq_nil_iff.mp (by decide))⟩
  have hrefused : ¬ (IsBlank " hours =6h-7,1-2-3 ".toList ∨
      Clause.InGrammar " hours =6h-7,1-2-3 ".toList) := by
    rw [← trim_eq_nil_iff, ← Clause.exists_read_trim_iff]
    have herror : Clause.read (trim " hours =6h-7,1-2-3 ".toList) =
        .error (.malformedRange "1-2-3") := by decide
    simp only [herror, reduceCtorEq, exists_false, or_false]
    decide
  have hlacks : Clause.LacksForm " hours =6h-7,1-2-3 ".toList := by
    refine .inr ⟨" hours ".toList, "6h-7,1-2-3 ".toList, by decide, by decide,
      .inr ⟨"1-2-3 ".toList, by decide, ?_, ?_⟩⟩
    · rw [← trim_eq_nil_iff]
      decide
    · exact Written.exists_read_trim_eq_error_iff.mp ⟨.malformedRange "1-2-3", by decide⟩
  obtain ⟨fault, hwhole, halone, hkind, _⟩ := hfault _ _ _ hsplit hearlier hrefused
  refine ⟨fault, hwhole, by simpa using halone, hkind.mpr hlacks, fun hr => ?_⟩
  exact hrefused (hread.mp hr _ (hsplit ▸ by simp))

end Rule

end OpeningHours
