import OpeningHours.CommandLine.Run
import OpeningHours.Proofs.DayTable
import OpeningHours.Proofs.Json.Writing

/-! What commands print can be read again.

A table of days is printed as an object with its entries for members, in their order,
whatever characters its keys have: the keys of a table do not repeat, so no member is
lost. A list of intervals is printed so that reading it gives the list, and it is the
same list among any items that are no intervals (`AmongMalformed`). -/
namespace OpeningHours
open Json

/-! ### Items that are no intervals -/

namespace Interval

/-- A value that is no bound of an interval. -/
inductive NoMinute : Value → Prop
  | notNumber {v : Value} : (∀ n, v ≠ .number n) → NoMinute v
  | fraction {n : Numeral} : n.fraction ≠ none → NoMinute (.number n)
  | exponent {n : Numeral} : n.exponent ≠ none → NoMinute (.number n)
  | minusZero {n : Numeral} : n.negative = true → n.signed = 0 → NoMinute (.number n)
  | outOfRange {n : Numeral} : ¬ Minute.InRange n.signed → NoMinute (.number n)

/-- An item that is no interval, because of the key if it is an object. -/
inductive Lacks (key : String) : Value → Prop
  | notObject {v : Value} : (∀ members, v ≠ .object members) → Lacks key v
  | missing {members : List (String × Value)} : Entries.get? key members = none →
      Lacks key (.object members)
  | noMinute {members : List (String × Value)} {v : Value} :
      Entries.get? key members = some v → NoMinute v → Lacks key (.object members)

/-- An item that is no interval: it is no object, or its begin or its end is missing or is no
minute. -/
def Malformed (v : Value) : Prop := Lacks "begin" v ∨ Lacks "end" v

/-- The items are the intervals in their order, with any malformed items among them. -/
inductive AmongMalformed : List Interval → List Value → Prop
  | nil : AmongMalformed [] []
  | interval {l : List Interval} {items : List Value} (i : Interval) : AmongMalformed l items →
      AmongMalformed (i :: l) (i.toValue :: items)
  | malformed {l : List Interval} {items : List Value} {v : Value} : Malformed v →
      AmongMalformed l items → AmongMalformed l (v :: items)

/-- The minute that a value is, if it is one. -/
def minute? (v : Value) : Option Minute := v.integer?.bind Minute.ofInt?

/-- A minute fits into 64 bits. -/
theorem fits_of_inRange {n : Int} (h : Minute.InRange n) :
    -(UInt64.size : Int) ≤ 2 * n ∧ n < UInt64.size := by
  have hsize : UInt64.size = 18446744073709551616 := rfl
  unfold Minute.InRange at h
  omega

theorem minute?_eq_none_iff {v : Value} : minute? v = none ↔ NoMinute v := by
  constructor
  · intro hnone
    cases v with
    | number n =>
      refine Classical.byContradiction fun hminute => ?_
      have hfraction : n.fraction = none := Classical.not_not.mp fun h => hminute (.fraction h)
      have hexponent : n.exponent = none := Classical.not_not.mp fun h => hminute (.exponent h)
      have hrange : Minute.InRange n.signed := Classical.not_not.mp fun h =>
        hminute (.outOfRange h)
      have hzero : n.negative = true → n.signed ≠ 0 := fun hminus h =>
        hminute (.minusZero hminus h)
      have hinteger := Numeral.integer?_eq_some_iff.mpr
        ⟨hfraction, hexponent, hzero, fits_of_inRange hrange, rfl⟩
      have hsome : Minute.ofInt? n.signed = none := by
        simpa only [minute?, Value.integer?, hinteger, Option.bind_some] using hnone
      rw [Minute.ofInt?, if_pos hrange] at hsome
      cases hsome
    | _ => exact .notNumber fun _ h => by cases h
  · intro hno
    refine Option.eq_none_iff_forall_ne_some.mpr fun m hm => ?_
    obtain ⟨i, hinteger, hrange⟩ := Option.bind_eq_some_iff.mp hm
    cases v with
    | number n =>
      obtain ⟨hfraction, hexponent, hzero, _, rfl⟩ := Numeral.integer?_eq_some_iff.mp hinteger
      cases hno with
      | notNumber hv => exact hv n rfl
      | fraction h => exact h hfraction
      | exponent h => exact h hexponent
      | minusZero hminus h => exact hzero hminus h
      | outOfRange h =>
        rw [Minute.ofInt?, if_neg h] at hrange
        cases hrange
    | _ => cases hinteger

/-- The minute under a key. -/
def bound? (key : String) (v : Value) : Option Minute := (v.get? key).bind minute?

theorem bound?_eq_none_iff {key : String} {v : Value} : bound? key v = none ↔ Lacks key v := by
  constructor
  · intro hnone
    cases v with
    | object members =>
      cases hget : Entries.get? key members with
      | none => exact .missing hget
      | some b =>
        have hb : minute? b = none := by
          simpa only [bound?, Value.get?, hget, Option.bind_some] using hnone
        exact .noMinute hget (minute?_eq_none_iff.mp hb)
    | _ => exact .notObject fun _ h => by cases h
  · intro hlacks
    cases hlacks with
    | @notObject v hv =>
      cases v with
      | object members => exact absurd rfl (hv members)
      | _ => rfl
    | missing hget => simp only [bound?, Value.get?, hget, Option.bind_none]
    | noMinute hget hb =>
      simp only [bound?, Value.get?, hget, Option.bind_some, minute?_eq_none_iff.mpr hb]

theorem ofValue?_eq_some_iff {v : Value} {i : Interval} :
    ofValue? v = some i ↔ bound? "begin" v = some i.start ∧ bound? "end" v = some i.stop := by
  constructor
  · intro h
    obtain ⟨b, hb, h⟩ := Option.bind_eq_some_iff.mp h
    obtain ⟨e, he, h⟩ := Option.bind_eq_some_iff.mp h
    obtain ⟨m, hm, h⟩ := Option.bind_eq_some_iff.mp h
    obtain ⟨start, hstart, h⟩ := Option.bind_eq_some_iff.mp h
    obtain ⟨n, hn, h⟩ := Option.bind_eq_some_iff.mp h
    obtain ⟨stop, hstop, h⟩ := Option.bind_eq_some_iff.mp h
    cases h
    simp only [bound?, minute?, hb, he, hm, hn, Option.bind_some]
    exact ⟨hstart, hstop⟩
  · intro ⟨hstart, hstop⟩
    obtain ⟨b, hb, hstart⟩ := Option.bind_eq_some_iff.mp hstart
    obtain ⟨e, he, hstop⟩ := Option.bind_eq_some_iff.mp hstop
    obtain ⟨m, hm, hstart⟩ := Option.bind_eq_some_iff.mp hstart
    obtain ⟨n, hn, hstop⟩ := Option.bind_eq_some_iff.mp hstop
    simp only [ofValue?, hb, he, hm, hn, hstart, hstop, Option.bind_eq_bind, Option.bind_some,
      Option.pure_def]

theorem ofValue?_eq_none_iff {v : Value} : ofValue? v = none ↔ Malformed v := by
  rw [Malformed, ← bound?_eq_none_iff, ← bound?_eq_none_iff]
  constructor
  · intro hnone
    cases hstart : bound? "begin" v with
    | none => exact .inl rfl
    | some start =>
      cases hstop : bound? "end" v with
      | none => exact .inr rfl
      | some stop =>
        have hsome := ofValue?_eq_some_iff (i := ⟨start, stop⟩).mpr ⟨hstart, hstop⟩
        cases hsome.symm.trans hnone
  · intro hlacks
    refine Option.eq_none_iff_forall_ne_some.mpr fun i hi => ?_
    obtain ⟨hstart, hstop⟩ := ofValue?_eq_some_iff.mp hi
    cases hlacks with
    | inl hnone => cases hstart.symm.trans hnone
    | inr hnone => cases hstop.symm.trans hnone

/-- A minute is written as a number that is the minute. -/
theorem minute?_int (m : Minute) : minute? (.int m.toInt) = some m := by
  have hrange := Minute.inRange_toInt m
  obtain ⟨hlow, hhigh⟩ := fits_of_inRange hrange
  have hinteger : (Numeral.ofInt m.toInt).integer? = some m.toInt :=
    Numeral.integer?_ofInt hlow hhigh
  rw [minute?, Value.int, Value.integer?, hinteger, Option.bind_some, Minute.ofInt?, if_pos hrange,
    Int32.ofInt_toInt]

theorem ofValue?_toValue (i : Interval) : ofValue? i.toValue = some i := by
  have hstart : bound? "begin" i.toValue = some i.start := minute?_int i.start
  have hstop : bound? "end" i.toValue = some i.stop := minute?_int i.stop
  exact ofValue?_eq_some_iff.mpr ⟨hstart, hstop⟩

/-- Malformed items are passed over, and intervals are read as they are written. -/
theorem AmongMalformed.listOfValue {l : List Interval} {items : List Value}
    (h : AmongMalformed l items) : listOfValue (.array items) = l := by
  induction h with
  | nil => rfl
  | interval i _ ih => exact (List.filterMap_cons_some (ofValue?_toValue i)).trans (congrArg _ ih)
  | malformed hv _ ih => exact (List.filterMap_cons_none (ofValue?_eq_none_iff.mpr hv)).trans ih

theorem amongMalformed_map (l : List Interval) : AmongMalformed l (l.map toValue) := by
  induction l with
  | nil => exact .nil
  | cons i l ih => exact .interval i ih

/-! ### Texts -/

theorem readable_toValue (i : Interval) (depth : Nat) : i.toValue.Readable (depth + 1) := by
  have hminute : ∀ m : Minute, (Value.int m.toInt).Readable depth := by
    intro m
    obtain ⟨hlow, hhigh⟩ := fits_of_inRange (Minute.inRange_toInt m)
    exact Value.readable_int (by omega)
  refine .object (by simp [Entries.keys]) ?_
  simp only [List.forall_mem_cons]
  exact ⟨hminute i.start, hminute i.stop, List.forall_mem_nil _⟩

theorem readable_listToValue (l : List Interval) (depth : Nat) :
    (listToValue l).Readable (depth + 2) := by
  refine .array fun item hitem => ?_
  obtain ⟨i, _, rfl⟩ := List.mem_map.mp hitem
  exact readable_toValue i depth

end Interval

/-- A table is read back with all its entries in their order: no key repeats. -/
theorem DayTable.read?_write_toValue {α : Type} {write : α → Value}
    (hwrite : ∀ a, (write a).Readable (Value.maxDepth - 1)) (m : DayTable α)
    (layout : Value.Layout) :
    Value.read? ((m.toValue write).write layout ++ "\n") =
        some (.object (m.entries.map fun e => (e.1, write e.2))) ∧
      (Entries.keys (m.entries.map fun e => (e.1, write e.2))).Nodup := by
  have hkeys : (Entries.keys (m.entries.map fun e => (e.1, write e.2))).Nodup :=
    (Entries.keys_mapValues write m.entries).symm ▸ m.nodup
  refine ⟨Value.read?_write (.object hkeys fun e he => ?_) layout, hkeys⟩
  obtain ⟨e, _, rfl⟩ := List.mem_map.mp he
  exact hwrite e.2

namespace CommandLine
open OpeningHours.Interval

/-- The entries of the table that answers a query, with documents for their values. -/
def Command.answerEntries (topic : Topic) (c : Calendar) (w : Window) (adjust : Bool) :
    List (String × Value) :=
  match topic with
  | .periods => (c.periodsOfDays w adjust).1.entries.map fun e => (e.1, listToValue e.2)
  | .slots => (c.slotsOfDays w adjust).1.entries.map fun e => (e.1, listToValue e.2)
  | .days => (c.openDays w).1.entries.map fun e => (e.1, .bool e.2)

/-- **What is printed can be read again**, in either layout. The document of a query has the
entries of its table for members, in their order, and repeats no key. The document of a list of
intervals gives the list, and so does any array that has them among malformed items. -/
theorem printed_documents_read_back (layout : Value.Layout) :
    (∀ (topic : Topic) (c : Calendar) (w : Window) (adjust : Bool),
      Value.read? ((Command.answer topic c w adjust).write layout ++ "\n") =
          some (.object (Command.answerEntries topic c w adjust)) ∧
        (Entries.keys (Command.answerEntries topic c w adjust)).Nodup) ∧
    (∀ l : List Interval,
      Value.read? ((listToValue l).write layout ++ "\n") = some (listToValue l) ∧
        listOfValue (listToValue l) = l) ∧
    (∀ (l : List Interval) (items : List Value), AmongMalformed l items →
      listOfValue (.array items) = l ∧
        ((∀ item ∈ items, item.Readable (Value.maxDepth - 1)) →
          Value.read? ((Value.array items).write layout ++ "\n") = some (.array items))) := by
  refine ⟨fun topic c w adjust => ?_, fun l => ⟨?_, ?_⟩, fun l items hitems => ⟨?_, ?_⟩⟩
  · have hlist := fun l => readable_listToValue l (Value.maxDepth - 3)
    cases topic with
    | periods => exact DayTable.read?_write_toValue hlist _ layout
    | slots => exact DayTable.read?_write_toValue hlist _ layout
    | days => exact DayTable.read?_write_toValue .bool _ layout
  · exact Value.read?_write (readable_listToValue l _) layout
  · exact (amongMalformed_map l).listOfValue
  · exact hitems.listOfValue
  · exact fun hreadable => Value.read?_write (.array hreadable) layout

/-- The widest interval there is, among items that fall short of one in each way. -/
theorem printed_documents_read_back_widest :
    (Value.read? ((Value.array [.null, .object [("begin", .int 540)],
      .object [("begin", .int 540), ("end", .string "600")],
      Interval.toValue ⟨-2147483648, 2147483647⟩,
      .object [("begin", .number {whole := ['1'], fraction := some ['5']}), ("end", .int 2)],
      .object [("begin", .int 0), ("end", .int 2147483648)]]).write .pretty ++ "\n")).map
        listOfValue = some [⟨-2147483648, 2147483647⟩] := by
  have hread : ∀ l items, AmongMalformed l items →
      (∀ item ∈ items, item.Readable (Value.maxDepth - 1)) →
      (Value.read? ((Value.array items).write .pretty ++ "\n")).map listOfValue = some l := by
    intro l items hitems hreadable
    obtain ⟨hlist, hread⟩ := (printed_documents_read_back .pretty).2.2 l items hitems
    rw [hread hreadable, Option.map_some, hlist]
  refine hread _ _ ?_ ?_
  · refine .malformed (.inl (.notObject nofun)) ?_
    refine .malformed (.inr (.missing (by decide))) ?_
    refine .malformed (.inr (.noMinute rfl (.notNumber nofun))) ?_
    refine .interval _ ?_
    refine .malformed (.inl (.noMinute rfl (.fraction nofun))) ?_
    exact .malformed (.inr (.noMinute rfl (.outOfRange (by decide)))) .nil
  · have hint : ∀ n : Int, n.natAbs < UInt64.size → ∀ depth, (Value.int n).Readable depth :=
      fun _ h _ => Value.readable_int h
    have hhalf : Numeral.WellFormed {whole := ['1'], fraction := some ['5']} :=
      ⟨⟨nofun, by simp⟩, nofun, fun _ h => by cases h; exact ⟨nofun, by simp⟩, nofun⟩
    simp only [List.forall_mem_cons]
    refine ⟨.null, .object (by decide) ?_, .object (by decide) ?_, readable_toValue _ _,
      .object (by decide) ?_, .object (by decide) ?_, List.forall_mem_nil _⟩
    all_goals simp only [List.forall_mem_cons]
    · exact ⟨hint 540 (by decide) _, List.forall_mem_nil _⟩
    · exact ⟨hint 540 (by decide) _, .string "600", List.forall_mem_nil _⟩
    · exact ⟨.number hhalf (by decide), hint 2 (by decide) _, List.forall_mem_nil _⟩
    · exact ⟨hint 0 (by decide) _, hint 2147483648 (by decide) _, List.forall_mem_nil _⟩

end CommandLine

end OpeningHours
