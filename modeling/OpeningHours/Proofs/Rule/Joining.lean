import OpeningHours.Proofs.Rule.WellFormed

/-! Texts of rules joined by a semicolon.

Reading adds the clauses of a text one by one, and a clause goes to the one of its kind.
Values joined in two steps are the same however the steps are grouped
(`append?_append?`), and clauses of different kinds may be added in either order once
the list has the kind of one of them (`insert_comm`). So adding clauses that were joined
first comes to the same as adding them one by one (`insertAll_insertAll`), and the rule
of two texts is the first rule with the clauses of the second added to it. A clause is
only ever joined to one of its own kind (`readOnto_eq`). -/
namespace OpeningHours
open Text

namespace Clause
variable {k : Kind} {a b both c new : Clause} {l m : List Clause}

/-! ### Values -/

/-- A value of a clause, of whatever kind. -/
inductive Value where
  | period (value : Interval)
  | date (value : Constraint String)
  | number (value : Constraint UInt32)
  | special (value : SpecialDay)
  deriving DecidableEq, Repr

def values : Clause → List Value
  | periods values => values.map .period
  | days values | birthdays values => values.map .date
  | weekdays values | yeardays values => values.map .number
  | specialdays values => values.map .special

/-- The values of a clause if it is of a kind. -/
def valuesOf (k : Kind) (c : Clause) : List Value := if c.kind = k then c.values else []

theorem values_append? (h : a.append? b = some both) : both.values = a.values ++ b.values := by
  cases a <;> cases b <;> cases h <;> exact List.map_append

theorem valuesOf_append? (h : a.append? b = some both) :
    both.valuesOf k = a.valuesOf k ++ b.valuesOf k := by
  have hkind : a.kind = b.kind := (append?_isSome_iff a b).mp (Option.isSome_of_mem h)
  unfold valuesOf
  rw [(kind_append? h).1, ← hkind, values_append? h]
  split <;> rfl

theorem valuesOf_eq_nil (h : c.kind ≠ k) : c.valuesOf k = [] := if_neg h

/-! ### What one kind of clauses holds

A list got from each clause of one kind, and nothing got from the others: joined clauses give
what the two give one after the other. -/

section
variable {β : Type} {g : Clause → List β}

theorem flatMap_eq_nil (hother : ∀ {c : Clause}, c.kind ≠ k → g c = []) (h : k ∉ l.map kind) :
    l.flatMap g = [] := by
  rw [List.flatMap_eq_nil_iff]
  exact fun c hc => hother fun hkind => h (hkind ▸ List.mem_map_of_mem hc)

variable (hjoin : ∀ {a b both : Clause}, a.append? b = some both → g both = g a ++ g b)
  (hother : ∀ {c : Clause}, c.kind ≠ k → g c = [])
include hjoin hother

/-- An added clause brings what it has after what is there. -/
theorem flatMap_insert (hdistinct : (l.map kind).Nodup) :
    (insert new l).flatMap g = l.flatMap g ++ g new := by
  induction l with
  | nil => simp [insert]
  | cons c rest ih =>
    obtain ⟨hc, hrest⟩ := List.nodup_cons.mp hdistinct
    cases hboth : c.append? new with
    | some both =>
      have hkind := (append?_isSome_iff c new).mp (Option.isSome_of_mem hboth)
      -- Only one clause of the list is of the kind.
      have hlast : g new = [] ∨ rest.flatMap g = [] := by
        by_cases hnew : new.kind = k
        · exact .inr (flatMap_eq_nil hother (hnew ▸ hkind ▸ hc))
        · exact .inl (hother hnew)
      simp only [insert, hboth, List.flatMap_cons, hjoin hboth]
      rcases hlast with hlast | hlast <;> simp [hlast]
    | none =>
      simp only [insert, hboth, List.flatMap_cons, ih hrest, List.append_assoc]

theorem flatMap_insertAll (hdistinct : (l.map kind).Nodup) :
    (insertAll l m).flatMap g = l.flatMap g ++ m.flatMap g := by
  induction m generalizing l with
  | nil => simp [insertAll]
  | cons new rest ih =>
    show (insertAll (insert new l) rest).flatMap g = _
    rw [ih (nodup_kinds_insert hdistinct), flatMap_insert hjoin hother hdistinct,
      List.flatMap_cons, List.append_assoc]

end

/-- Kinds that are new follow those that are there. -/
theorem kinds_insertAll (hm : (m.map kind).Nodup) : (insertAll l m).map kind =
    l.map kind ++ (m.map kind).filter (· ∉ l.map kind) := by
  induction m generalizing l with
  | nil => simp [insertAll]
  | cons c rest ih =>
    obtain ⟨hc, hrest⟩ := List.nodup_cons.mp hm
    show (insertAll (insert c l) rest).map kind = _
    rw [ih hrest, kinds_insert]
    by_cases hmem : c.kind ∈ l.map kind
    · rw [if_pos hmem, List.map_cons, List.filter_cons_of_neg (by simpa using hmem)]
    · -- No later clause is of the kind that was new.
      have hsame : (rest.map kind).filter (· ∉ l.map kind ++ [c.kind]) =
          (rest.map kind).filter (· ∉ l.map kind) := by
        refine List.filter_congr fun k hk => ?_
        have hne : k ≠ c.kind := fun heq => hc (heq ▸ hk)
        simp [hne]
      rw [if_neg hmem, hsame, List.map_cons, List.filter_cons_of_pos (by simpa using hmem),
        List.append_assoc, List.singleton_append]

/-! ### Joining in any grouping -/

theorem append?_eq_none (h : a.kind ≠ b.kind) : a.append? b = none := by
  rw [← Option.not_isSome_iff_eq_none, append?_isSome_iff]
  exact h

/-- Values joined before they are added, or added one after the other. -/
theorem append?_append? (h : a.append? b = some both) :
    c.append? both = (c.append? a).bind fun ca => ca.append? b := by
  cases a <;> cases b <;> cases h <;> cases c <;> simp [append?]

theorem insert_append? (h : a.append? b = some both) : insert both l = insert b (insert a l) := by
  have hkind : a.kind = b.kind := (append?_isSome_iff a b).mp (Option.isSome_of_mem h)
  induction l with
  | nil => simp [insert, h]
  | cons c rest ih =>
    cases hca : c.append? a with
    | none =>
      have hne : c.kind ≠ b.kind := fun heq => by
        simpa [hca] using (append?_isSome_iff c a).mpr (heq.trans hkind.symm)
      simp only [insert, append?_append? h, hca, Option.bind_none, append?_eq_none hne, ih]
    | some ca =>
      have hsame : ca.kind = b.kind := by
        rw [(kind_append? hca).1, ← hkind]
        exact (append?_isSome_iff c a).mp (Option.isSome_of_mem hca)
      obtain ⟨joined, hjoined⟩ := Option.isSome_iff_exists.mp ((append?_isSome_iff ca b).mpr hsame)
      simp only [insert, append?_append? h, hca, Option.bind_some, hjoined]

/-- Clauses of different kinds are added in either order if one finds its kind there: it makes no
new place in the list. -/
theorem insert_comm (hkind : a.kind ≠ b.kind) (hmem : b.kind ∈ l.map kind) :
    insert a (insert b l) = insert b (insert a l) := by
  induction l with
  | nil => cases hmem
  | cons c rest ih =>
    by_cases hb : c.kind = b.kind
    · obtain ⟨cb, hcb⟩ := Option.isSome_iff_exists.mp ((append?_isSome_iff c b).mpr hb)
      have hca : c.append? a = none := append?_eq_none fun heq => hkind (heq.symm.trans hb)
      have hcba : cb.append? a = none := append?_eq_none fun heq =>
        hkind (heq.symm.trans ((kind_append? hcb).1.trans hb))
      simp only [insert, hcb, hca, hcba]
    · have hrest : b.kind ∈ rest.map kind := (List.mem_cons.mp hmem).resolve_left (Ne.symm hb)
      cases hca : c.append? a with
      | none => simp only [insert, append?_eq_none hb, hca, ih hrest]
      | some ca =>
        have hcab : ca.append? b = none := append?_eq_none ((kind_append? hca).1 ▸ hb)
        simp only [insert, append?_eq_none hb, hca, hcab]

/-- A clause may be added before others of other kinds if its kind is there already. -/
theorem insertAll_insert_of_mem (hnew : new.kind ∉ m.map kind) (hmem : new.kind ∈ l.map kind) :
    insertAll (insert new l) m = insert new (insertAll l m) := by
  induction m generalizing l with
  | nil => rfl
  | cons c rest ih =>
    rw [List.map_cons, List.mem_cons, not_or] at hnew
    obtain ⟨hc, hrest⟩ := hnew
    have hlater : new.kind ∈ (insert c l).map kind := by
      rw [kinds_insert]
      split
      · exact hmem
      · exact List.mem_append_left _ hmem
    show insertAll (insert c (insert new l)) rest = insert new (insertAll (insert c l) rest)
    rw [insert_comm (Ne.symm hc) hmem, ih hrest hlater]

/-- Adding a clause to those that are still to be added, or after them. -/
theorem insertAll_insert (hm : (m.map kind).Nodup) :
    insertAll l (insert new m) = insert new (insertAll l m) := by
  induction m generalizing l with
  | nil => rfl
  | cons c rest ih =>
    obtain ⟨hc, hrest⟩ := List.nodup_cons.mp hm
    cases hboth : c.append? new with
    | none =>
      simp only [insert, hboth]
      exact ih hrest
    | some both =>
      have hkind : c.kind = new.kind := (append?_isSome_iff c new).mp (Option.isSome_of_mem hboth)
      have hmem : new.kind ∈ (insert c l).map kind := by
        rw [kinds_insert, ← hkind]
        split
        · assumption
        · exact List.mem_append_right _ List.mem_cons_self
      simp only [insert, hboth]
      show insertAll (insert both l) rest = insert new (insertAll (insert c l) rest)
      rw [insert_append? hboth, insertAll_insert_of_mem (hkind ▸ hc) hmem]

/-- **Clauses joined first or added one by one** come to the same. -/
theorem insertAll_insertAll (hm : (m.map kind).Nodup) (clauses : List Clause) :
    insertAll l (insertAll m clauses) = insertAll (insertAll l m) clauses := by
  induction clauses generalizing m with
  | nil => rfl
  | cons c rest ih =>
    show insertAll l (insertAll (insert c m) rest) = insertAll (insert c (insertAll l m)) rest
    rw [ih (nodup_kinds_insert hm), insertAll_insert hm]

/-! ### Reading and adding in turn -/

/-- Why reading ends early: for a fault of the text, or because a clause was to be joined to one of
another kind. -/
inductive Stop where
  | fault (fault : RuleFault)
  | mismatch
  deriving DecidableEq, Repr

/-- Finds the clause of the same kind first, and joins the two then. -/
def insertFound (new : Clause) : List Clause → Except Stop (List Clause)
  | [] => .ok [new]
  | c :: rest =>
    if c.kind = new.kind then
      match c.append? new with
      | some both => .ok (both :: rest)
      | none => .error .mismatch
    else (insertFound new rest).map (c :: ·)

/-- Reads clauses and adds each one before the next is read. -/
def readOnto (l : List Clause) : List (List Char) → Except Stop (List Clause)
  | [] => .ok l
  | text :: rest => do
    let c ← (Clause.read text).mapError .fault
    let l ← insertFound c l
    readOnto l rest

theorem insertFound_eq (new : Clause) (l : List Clause) :
    insertFound new l = .ok (insert new l) := by
  induction l with
  | nil => rfl
  | cons c rest ih =>
    by_cases hkind : c.kind = new.kind
    · obtain ⟨both, hboth⟩ := Option.isSome_iff_exists.mp ((append?_isSome_iff c new).mpr hkind)
      simp only [insertFound, insert, if_pos hkind, hboth]
    · simp only [insertFound, insert, if_neg hkind, append?_eq_none hkind, ih, Except.map]

/-- Adding in turn never meets clauses of different kinds, and a text is refused for the same
fault. -/
theorem readOnto_eq (l : List Clause) (texts : List (List Char)) :
    readOnto l texts = ((texts.mapM Clause.read).map (insertAll l)).mapError .fault := by
  induction texts generalizing l with
  | nil => rfl
  | cons text rest ih =>
    rw [readOnto, List.mapM_cons]
    cases Clause.read text with
    | error fault => rfl
    | ok c =>
      show insertFound c l >>= (readOnto · rest) = _
      rw [insertFound_eq]
      show readOnto (insert c l) rest = _
      rw [ih]
      cases rest.mapM Clause.read <;> rfl

end Clause

/-! ### Rules -/

namespace Rule
open Clause (insertAll kind valuesOf)

theorem readAll_append (a b : List Char) : Clause.readAll (a ++ ';' :: b) = do
    let first ← Clause.readAll a
    let second ← Clause.readAll b
    return first ++ second := by
  rw [Clause.readAll, parts_append_cons, List.mapM_append]
  rfl

/-- **Reading is compositional.** Two texts with a semicolon between them are refused with the
fault of the first if it has one, or else with that of the second; otherwise their rule has the
clauses of the second rule added one by one to those of the first. So it has the kinds of the
first rule and then those that are new in the second, and for each kind the values of the first
and then those of the second. In no text is a clause joined to one of another kind while the
clauses are read and added in turn, and no rule has a kind twice. -/
theorem read_joined_texts (a b : String) :
    Rule.read (a ++ ";" ++ b) = (do
      let first ← Rule.read a
      let second ← Rule.read b
      return ⟨String.ofList (trim (a ++ ";" ++ b).toList),
        insertAll first.clauses second.clauses⟩) ∧
    (∀ first second, Rule.read a = .ok first → Rule.read b = .ok second →
      (insertAll first.clauses second.clauses).map kind = first.clauses.map kind ++
          (second.clauses.map kind).filter (· ∉ first.clauses.map kind) ∧
        ∀ k, (insertAll first.clauses second.clauses).flatMap (valuesOf k) =
          first.clauses.flatMap (valuesOf k) ++ second.clauses.flatMap (valuesOf k)) ∧
    ∀ text, Clause.readOnto [] (parts ';' text.toList) =
        ((Rule.read text).map Rule.clauses).mapError .fault ∧
      ∀ r, Rule.read text = .ok r → (r.clauses.map kind).Nodup := by
  refine ⟨?_, fun first second hfirst hsecond => ?_, fun text => ⟨?_, fun r hr => ?_⟩⟩
  · have htext : (a ++ ";" ++ b).toList = a.toList ++ ';' :: b.toList := by
      simp only [String.toList_append, List.append_assoc]
      rfl
    simp only [Rule.read, htext, readAll_append]
    cases Clause.readAll a.toList with
    | error fault => rfl
    | ok first =>
      cases Clause.readAll b.toList with
      | error fault => rfl
      | ok second =>
        -- The clauses of the second text are added one by one, or joined first.
        have hjoined : insertAll [] (first ++ second) =
            insertAll (insertAll [] first) (insertAll [] second) := by
          have hnone : (List.map kind []).Nodup := List.nodup_nil
          rw [Clause.insertAll_insertAll hnone]
          exact List.foldl_append
        exact congrArg (fun l => Except.ok (Rule.mk _ l)) hjoined
  · have hdistinct := (Rule.wellFormedList_clauses hfirst).distinct
    exact ⟨Clause.kinds_insertAll (Rule.wellFormedList_clauses hsecond).distinct, fun k =>
      Clause.flatMap_insertAll Clause.valuesOf_append? Clause.valuesOf_eq_nil hdistinct⟩
  · rw [Clause.readOnto_eq, Rule.read, ← Clause.readAll]
    cases Clause.readAll text.toList <;> rfl
  · exact (Rule.wellFormedList_clauses hr).distinct

/-- Both texts write a kind twice, one of these kinds under two names, and the second brings a kind
that is new. -/
theorem read_joined_texts_repeated_kinds :
    let a := "wd=1;p=600-700;weekdays=3"
    let b := " yd=5;;p=720-780 ; wd=0-2; yd=9"
    ∃ first second r, Rule.read a = .ok first ∧ Rule.read b = .ok second ∧
      Rule.read (a ++ ";" ++ b) = .ok r ∧ r.clauses.map kind = [.weekdays, .periods, .yeardays] ∧
      r.clauses.flatMap (valuesOf .weekdays) =
        [.number (.exactly 1), .number (.exactly 3), .number (.between 0 2)] := by
  intro a b
  have hfirst : Clause.readAll a.toList = .ok [.weekdays [.exactly 1], .periods [⟨600, 700⟩],
      .weekdays [.exactly 3]] := by decide +kernel
  have hsecond : Clause.readAll b.toList = .ok [.yeardays [.exactly 5], .periods [⟨720, 780⟩],
      .weekdays [.between 0 2], .yeardays [.exactly 9]] := by decide +kernel
  obtain ⟨hread, hvalues, _⟩ := read_joined_texts a b
  have hfirst' : ∃ first, Rule.read a = .ok first ∧
      first.clauses = [.weekdays [.exactly 1, .exactly 3], .periods [⟨600, 700⟩]] :=
    ⟨_, bind_eq_ok_iff.mpr ⟨_, hfirst, rfl⟩, rfl⟩
  have hsecond' : ∃ second, Rule.read b = .ok second ∧ second.clauses =
      [.yeardays [.exactly 5, .exactly 9], .periods [⟨720, 780⟩], .weekdays [.between 0 2]] :=
    ⟨_, bind_eq_ok_iff.mpr ⟨_, hsecond, rfl⟩, rfl⟩
  obtain ⟨first, hfirst, hclauses⟩ := hfirst'
  obtain ⟨second, hsecond, hclauses'⟩ := hsecond'
  obtain ⟨hkinds, hweekdays⟩ := hvalues first second hfirst hsecond
  rw [hfirst, hsecond] at hread
  refine ⟨first, second, _, hfirst, hsecond, hread, hkinds.trans ?_,
    (hweekdays .weekdays).trans ?_⟩
  · rw [hclauses, hclauses']
    decide
  · rw [hclauses, hclauses']
    decide

end Rule

end OpeningHours
