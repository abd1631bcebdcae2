import OpeningHours.Proofs.Rule.WellFormed
import OpeningHours.Proofs.Text.Numeral

/-! Rules read as they were written.

Three things are written in digits or in bare texts alone: numbers, dates and the names
of special days. A bare text is a part for every separator, so a value of bare texts
reads as itself (`Written.read_write`), a clause is read up to its own equals sign
(`Clause.read_write`), and a list of clauses of different kinds is read one by one
without any two of them joined (`insertAll_eq_append`). Well-formed lists are therefore
all that reading gives, and writing inverts it from the right. -/
namespace OpeningHours
open Text

/-! ### Bare texts -/

/-- A bare text is a part for each of the separators. -/
theorem IsBare.isPart {s : List Char} (h : IsBare s) {sep : Char} (hsep : sep ∈ [';', ',', '-']) :
    IsPart sep s where
  ne_nil := h.ne_nil
  trimmed := h.trimmed
  not_mem hmem := h.noSeparator sep hmem hsep

theorem isBare_of_isDigit {s : List Char} (hne : s ≠ []) (h : ∀ c ∈ s, c.isDigit = true) :
    IsBare s where
  ne_nil := hne
  trimmed := trim_eq_self_of_forall fun c hc => not_blank_of_isDigit (h c hc)
  noSeparator c hc hsep := by
    have hdigit := h c hc
    simp only [List.mem_cons, List.not_mem_nil, or_false] at hsep
    rcases hsep with rfl | rfl | rfl <;> exact absurd hdigit (by decide)

theorem isBare_write (n : Nat) : IsBare (Decimal.write n) :=
  isBare_of_isDigit (Decimal.write_ne_nil n) fun _ => Decimal.isDigit_of_mem_write

/-- Every name of a special day is bare. -/
theorem SpecialDay.isBare_of_read {name : String} {s : SpecialDay}
    (h : SpecialDay.read name = .ok s) : IsBare name.toList := by
  have hbare : ∀ n ∈ ["easter", "paques", "pâques"] ++
      ["easterMonday", "lundiPaques", "lundiPâques"] ++ ["ascension"] ++
      ["pentecost", "pentecote", "pentecôte"], IsBare n.toList := by decide
  apply hbare name
  simp only [List.mem_append, List.mem_singleton]
  by_contra hnot
  simp only [not_or] at hnot
  obtain ⟨⟨⟨heaster, hmonday⟩, hascension⟩, hpentecost⟩ := hnot
  rw [SpecialDay.read, if_neg heaster, if_neg hmonday, if_neg hascension, if_neg hpentecost] at h
  split at h <;> cases h

/-! ### Values -/

namespace Written

/-- A value of bare texts stands between commas in a clause without semicolons. -/
theorem isPart_write {w : Written} (h : w.All IsBare) {sep : Char} (hsep : sep ∈ [';', ',']) :
    IsPart sep w.write := by
  have hsep' : sep ∈ [';', ',', '-'] := List.mem_append_left ['-'] hsep
  cases w with
  | single text => exact h.isPart hsep'
  | range least greatest =>
    have hne : sep ≠ '-' := by rintro rfl; exact absurd hsep (by decide)
    have hhyphen : IsPart sep ['-'] :=
      ⟨by decide, by decide, fun hmem => hne (List.mem_singleton.mp hmem)⟩
    exact (h.1.isPart hsep').append (hhyphen.append (h.2.isPart hsep'))

theorem read_write {w : Written} (h : w.All IsBare) : Written.read w.write = .ok w := by
  have hmem : '-' ∈ [';', ',', '-'] := by decide
  cases w with
  | single text =>
    have hcut := cut?_eq_none_iff.mpr (h.isPart hmem).not_mem
    rw [write, Written.read, hcut]
  | range least greatest =>
    obtain ⟨hleast, hgreatest⟩ := h
    have hcut : cut? '-' (least ++ '-' :: greatest) = some (least, greatest) :=
      cut?_eq_some_iff.mpr ⟨rfl, (hleast.isPart hmem).not_mem⟩
    have hgood : ¬ (least = [] ∨ greatest = [] ∨ '-' ∈ greatest) := by
      simp [hleast.ne_nil, hgreatest.ne_nil, (hgreatest.isPart hmem).not_mem]
    rw [write, Written.read, hcut]
    simp only [hleast.trimmed, hgreatest.trimmed, if_neg hgood]

theorem readAll_write {ws : List Written} (h : ∀ w ∈ ws, w.All IsBare) :
    Written.readAll ([','].intercalate (ws.map write)) = .ok ws := by
  have hparts : ∀ text ∈ ws.map write, IsPart ',' text :=
    List.forall_mem_map.mpr fun w hw => isPart_write (h w hw) (by decide)
  rw [Written.readAll, parts_intercalate hparts]
  exact mapM_map_eq_ok fun w hw => read_write (h w hw)

end Written

/-! ### Numbers -/

theorem readUInt32_write (name : String) (n : UInt32) :
    readUInt32 name (Decimal.write n.toNat) = .ok n := by
  have hle : n.toNat ≤ UInt32.size - 1 := Nat.le_pred_of_lt n.toNat_lt
  rw [readUInt32, readNumber, Decimal.readUpTo?_write hle]
  exact congrArg Except.ok UInt32.ofNat_toNat

theorem writeInt_toInt {m : Minute} (h : 0 ≤ m) :
    Decimal.writeInt m.toInt = Decimal.write m.toInt.toNat := by
  have hnonneg : 0 ≤ m.toInt := Int32.le_iff_toInt_le.mp h
  rw [Decimal.writeInt, if_neg (Int.not_lt.mpr hnonneg)]
  congr 1
  omega

theorem isBare_writeInt {m : Minute} (h : 0 ≤ m) : IsBare (Decimal.writeInt m.toInt) := by
  rw [writeInt_toInt h]
  exact isBare_write _

theorem readMinute_writeInt (name : String) {m : Minute} (h : 0 ≤ m) :
    readMinute name (Decimal.writeInt m.toInt) = .ok m := by
  have hnonneg : 0 ≤ m.toInt := Int32.le_iff_toInt_le.mp h
  have hle : m.toInt.toNat ≤ Minute.greatest := Int.toNat_le.mpr (Int.le_of_lt_add_one m.toInt_lt)
  rw [writeInt_toInt h, readMinute, readNumber, Decimal.readUpTo?_write hle]
  refine congrArg Except.ok (Int32.toInt_inj.mp ?_)
  rw [Int32.toInt_ofNat_of_lt (Nat.lt_succ_of_le hle), Int.toNat_of_nonneg hnonneg]

/-! ### Constraints and periods -/

namespace Constraint
variable {α : Type} {write : α → List Char}

theorem all_written {P : List Char → Prop} (c : Constraint α) :
    (c.written write).All P ↔ c.All fun value => P (write value) := by
  cases c <;> rfl

theorem all_of_forall {P : α → Prop} (h : ∀ value, P value) (c : Constraint α) : c.All P := by
  cases c with
  | exactly value => exact h value
  | between least greatest => exact ⟨h least, h greatest⟩

theorem map_text_written (l : List (Constraint String)) :
    (l.map (written String.toList)).map Written.text = l := by
  rw [List.map_map]
  apply List.map_id''
  intro c
  cases c <;> simp [written, Written.text, String.ofList_toList]

theorem number_written (name : String) (c : Constraint UInt32) :
    (c.written fun n => Decimal.write n.toNat).number name = .ok c := by
  cases c with
  | exactly value => rw [written, Written.number, readUInt32_write]; rfl
  | between least greatest =>
    rw [written, Written.number, readUInt32_write, readUInt32_write]
    rfl

end Constraint

section
variable {i : Interval} (h : 0 ≤ i.start ∧ i.start < i.stop)
include h

theorem Interval.stop_nonneg : 0 ≤ i.stop := Int32.le_of_lt (Int32.lt_of_le_of_lt h.1 h.2)

theorem Interval.period_written (name : String) : i.written.period name = .ok i :=
  bind_eq_ok_iff.mpr ⟨i.start, readMinute_writeInt name h.1,
    bind_eq_ok_iff.mpr ⟨i.stop, readMinute_writeInt name (stop_nonneg h), if_pos h.2⟩⟩

end

/-! ### Clauses -/

namespace Clause

theorem Kind.isBare_name (k : Kind) : IsBare k.name.toList := by cases k <;> decide

theorem Kind.equals_not_mem_name (k : Kind) : '=' ∉ k.name.toList := by cases k <;> decide

section
variable {spelling : SpecialDay → String}
  (hspelling : ∀ s, SpecialDay.read (spelling s) = .ok s)
include hspelling

theorem bare_written {c : Clause} (h : c.WellFormed) : ∀ w ∈ c.written spelling, w.All IsBare := by
  intro w hw
  cases c with
  | periods values =>
    obtain ⟨i, hi, rfl⟩ := List.mem_map.mp hw
    exact ⟨isBare_writeInt (h i hi).1, isBare_writeInt (Interval.stop_nonneg (h i hi))⟩
  | days values | birthdays values =>
    obtain ⟨c, hc, rfl⟩ := List.mem_map.mp hw
    exact c.all_written.mpr (h c hc)
  | weekdays values | yeardays values =>
    obtain ⟨c, hc, rfl⟩ := List.mem_map.mp hw
    exact c.all_written.mpr (c.all_of_forall fun n => isBare_write n.toNat)
  | specialdays values =>
    obtain ⟨s, hs, rfl⟩ := List.mem_map.mp hw
    exact SpecialDay.isBare_of_read (hspelling s)

/-- The values of a clause, under any name of its kind. -/
theorem ofValues_written {name : String} {c : Clause} (hname : Kind.ofName? name = some c.kind)
    (h : c.WellFormed) : ofValues name (c.written spelling) = .ok c := by
  unfold ofValues
  rw [hname]
  cases c with
  | periods values =>
    have hread := mapM_map_eq_ok fun i hi => Interval.period_written (h i hi) name
    exact map_eq_ok_iff.mpr ⟨values, hread, rfl⟩
  | days values =>
    exact congrArg (fun l => Except.ok (days l)) (Constraint.map_text_written values)
  | birthdays values =>
    exact congrArg (fun l => Except.ok (birthdays l)) (Constraint.map_text_written values)
  | weekdays values | yeardays values =>
    have hread := mapM_map_eq_ok fun c (_ : c ∈ values) => Constraint.number_written name c
    exact map_eq_ok_iff.mpr ⟨values, hread, rfl⟩
  | specialdays values =>
    have hread : (values.map fun s => Written.single (spelling s).toList).mapM
        (Written.specialDay name) = .ok values := mapM_map_eq_ok fun s _ => by
      rw [Written.specialDay, String.ofList_toList]
      exact hspelling s
    exact map_eq_ok_iff.mpr ⟨values, hread, rfl⟩

/-- **A clause is read as it was written.** -/
theorem read_write {c : Clause} (h : c.WellFormed) : Clause.read (c.write spelling) = .ok c := by
  have hname := c.kind.isBare_name
  have hcut : cut? '=' (c.write spelling) = some (c.kind.name.toList, _) :=
    cut?_eq_some_iff.mpr ⟨rfl, c.kind.equals_not_mem_name⟩
  have hvalues := Written.readAll_write (bare_written hspelling h)
  rw [Clause.read, hcut]
  simp only [hname.trimmed, if_neg hname.ne_nil, String.ofList_toList]
  exact bind_eq_ok_iff.mpr ⟨_, hvalues, ofValues_written hspelling
    (Kind.ofName?_eq_some_iff.mpr (.inl rfl)) h⟩

/-- A clause stands between semicolons, also one without values. -/
theorem isPart_write {c : Clause} (h : c.WellFormed) : IsPart ';' (c.write spelling) := by
  have hname : IsPart ';' c.kind.name.toList := c.kind.isBare_name.isPart (by decide)
  have hvalues : ∀ text ∈ (c.written spelling).map Written.write, IsPart ';' text :=
    List.forall_mem_map.mpr fun w hw =>
      Written.isPart_write (bare_written hspelling h w hw) (by decide)
  have hequals : IsPart ';' ['='] := ⟨by decide, by decide, by decide⟩
  have hcomma : IsPart ';' [','] := ⟨by decide, by decide, by decide⟩
  unfold write
  cases htexts : (c.written spelling).map Written.write with
  | nil => exact hname.append hequals
  | cons text rest =>
    have hjoined := isPart_intercalate hcomma (List.cons_ne_nil text rest) (htexts ▸ hvalues)
    exact hname.append (hequals.append hjoined)

end

/-! ### Lists of clauses -/

/-- Clauses of other kinds are added at the end. -/
theorem insert_eq_append {new : Clause} {l : List Clause} (h : new.kind ∉ l.map kind) :
    insert new l = l ++ [new] := by
  induction l with
  | nil => rfl
  | cons c rest ih =>
    rw [List.map_cons, List.mem_cons, not_or] at h
    have hnone : c.append? new = none := by
      rw [← Option.not_isSome_iff_eq_none, append?_isSome_iff]
      exact fun heq => h.1 heq.symm
    rw [insert, hnone]
    exact congrArg (c :: ·) (ih h.2)

theorem insertAll_eq_append {l new : List Clause} (h : ((l ++ new).map kind).Nodup) :
    insertAll l new = l ++ new := by
  induction new generalizing l with
  | nil => exact (List.append_nil l).symm
  | cons c rest ih =>
    have hkind : c.kind ∉ l.map kind := by
      rw [List.map_append] at h
      exact fun hmem => List.disjoint_of_nodup_append h hmem (List.mem_cons_self ..)
    show insertAll (insert c l) rest = l ++ c :: rest
    rw [insert_eq_append hkind, ih, List.append_assoc]
    · rfl
    · rwa [List.append_assoc]

end Clause

/-! ### Rules -/

section
variable {spelling : SpecialDay → String}
  (hspelling : ∀ s, SpecialDay.read (spelling s) = .ok s)
include hspelling

theorem Rule.read_writeAll {l : List Clause} (h : Clause.WellFormedList l) :
    (Rule.read (Clause.writeAll spelling l)).map Rule.clauses = .ok l := by
  have hparts : ∀ text ∈ l.map (Clause.write spelling), IsPart ';' text :=
    List.forall_mem_map.mpr fun c hc => Clause.isPart_write hspelling (h.wellFormed c hc)
  have hclauses : Clause.readAll (Clause.writeAll spelling l).toList = .ok l := by
    rw [Clause.writeAll, String.toList_ofList, Clause.readAll, parts_intercalate hparts]
    exact mapM_map_eq_ok fun c hc => Clause.read_write hspelling (h.wellFormed c hc)
  exact map_eq_ok_iff.mpr ⟨_, bind_eq_ok_iff.mpr ⟨l, hclauses, rfl⟩,
    Clause.insertAll_eq_append (l := []) h.distinct⟩

/-- **Reading gives the well-formed lists of clauses, all of them and no others**, and a
well-formed list that is written is read back, whatever names its special days are given. -/
theorem Rule.read_clauses_iff_wellFormed :
    (∀ l, (∃ text, (Rule.read text).map Rule.clauses = .ok l) ↔ Clause.WellFormedList l) ∧
      ∀ l, Clause.WellFormedList l →
        (Rule.read (Clause.writeAll spelling l)).map Rule.clauses = .ok l := by
  refine ⟨fun l => ⟨?_, fun h => ⟨_, Rule.read_writeAll hspelling h⟩⟩,
    fun l h => Rule.read_writeAll hspelling h⟩
  rintro ⟨text, hread⟩
  obtain ⟨r, hr, rfl⟩ := map_eq_ok_iff.mp hread
  exact Rule.wellFormedList_clauses hr

end

/-- A clause of every kind, with an equals sign and a blank inside dates, the greatest minute, the
greatest number, a range of days that is empty, and a clause without values. -/
theorem Rule.read_clauses_iff_wellFormed_every_kind :
    let l : List Clause := [.days [.exactly "a=b", .between "20240101" "New Year"],
      .periods [⟨0, 2147483647⟩, ⟨540, 600⟩], .weekdays [.exactly 4294967295, .between 6 0],
      .birthdays [], .yeardays [.exactly 366], .specialdays [.easterMonday, .easter]]
    let text := "days=a=b,20240101-New Year;periods=0-2147483647,540-600;" ++
      "weekdays=4294967295,6-0;birthdays=;yeardays=366;specialdays=easterMonday,easter"
    (∀ s, SpecialDay.read (SpecialDay.name s) = .ok s) ∧ Clause.WellFormedList l ∧
      Clause.writeAll SpecialDay.name l = text ∧
      (Rule.read text).map Rule.clauses = .ok l := by
  intro l text
  have hspelling : ∀ s, SpecialDay.read (SpecialDay.name s) = .ok s := by
    intro s
    cases s <;> decide
  have hl : Clause.WellFormedList l := by decide
  have htext : Clause.writeAll SpecialDay.name l = text := by subst l text; decide +kernel
  refine ⟨hspelling, hl, htext, ?_⟩
  rw [← htext]
  exact (Rule.read_clauses_iff_wellFormed hspelling).2 l hl

end OpeningHours
