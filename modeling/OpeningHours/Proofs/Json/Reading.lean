import OpeningHours.Proofs.Json.Scanning

/-! Documents are read as the grammar writes them.

A text takes the machine over frames from one state to another (`consume`). A value that
begins in a state leaves it complete within the same frames, whatever text comes after
it; for items and members the frame on top grows by all of them. A whole document is so
read as the tree that it writes, however deep it is (`read?_of_isDocument`). -/
namespace OpeningHours.Json.Tree

/-- The state that a text leads to. -/
def consume (st : State) (s : List Char) : Option State :=
  (Token.scan? s).bind (·.foldlM step? st)

theorem consume_nil (st : State) : consume st [] = some st := by
  rw [consume, Token.scan?]
  rfl

theorem consume_space {s : List Char} (h : IsSpace s) (st : State) (rest : List Char) :
    consume st (s ++ rest) = consume st rest := by
  rw [consume, Token.scan?_append_of_isSpace h]
  rfl

theorem consume_token {s rest : List Char} {token : Token} {st st' : State}
    (hfront : Token.front? s = some (token, rest)) (hstep : step? st token = some st') :
    consume st s = consume st' rest := by
  rw [consume, Token.scan?_of_front? hfront, Option.bind_map, consume]
  congr 1
  funext tokens
  rw [Function.comp_apply, List.foldlM_cons, hstep, Option.bind_eq_bind, Option.bind_some]

/-! ### Where values and keys may come -/

/-- A value may come next, within these frames. -/
def AwaitsValue (st : State) (frames : List Frame) : Prop :=
  ∀ token, token ≠ .closeArray → step? st token = begin? frames token

theorem awaitsValue_value (frames : List Frame) : AwaitsValue (.value frames) frames :=
  fun _ _ => rfl

theorem awaitsValue_firstItem (frames : List Frame) :
    AwaitsValue (.firstItem frames) (.array [] :: frames) := by
  intro token hclose
  cases token with
  | closeArray => exact absurd rfl hclose
  | _ => rfl

/-- A key may come next, after these members. -/
def AwaitsKey (st : State) (members : List (Option String × Tree)) (frames : List Frame) : Prop :=
  ∀ key, step? st (.string key) = some (.colon members key frames)

theorem awaitsKey_firstKey (frames : List Frame) : AwaitsKey (.firstKey frames) [] frames :=
  fun _ => rfl

theorem awaitsKey_key (members : List (Option String × Tree)) (frames : List Frame) :
    AwaitsKey (.key members frames) members frames :=
  fun _ => rfl

/-- What may stand after a value ends a number. -/
theorem beginsWithout_cons {c : Char} (hc : c ∈ [' ', '\t', '\n', '\r', ',', ']', '}'])
    (rest : List Char) : BeginsWithout GoesOn (c :: rest) := by
  have hall : ∀ c ∈ [' ', '\t', '\n', '\r', ',', ']', '}'],
      c.isDigit = false ∧ c ∉ ['.', 'e', 'E'] := by simp
  intro d hd hgoes
  cases hd
  obtain ⟨hdigit, hmem⟩ := hall c hc
  exact hgoes.elim (fun h => Bool.false_ne_true (hdigit.symm.trans h)) hmem

theorem beginsWithout_space {s rest : List Char} (h : IsSpace s)
    (hrest : BeginsWithout GoesOn rest) : BeginsWithout GoesOn (s ++ rest) := by
  cases s with
  | nil => exact hrest
  | cons c s =>
    refine beginsWithout_cons ?_ _
    have hc := h c List.mem_cons_self
    exact List.mem_append_left [',', ']', '}'] hc

/-- A key is taken with its colon. -/
theorem consume_key {k : List Char} {key : Option String} (h : WritesKey k key) {st : State}
    {members : List (Option String × Tree)} {frames : List Frame}
    (hst : AwaitsKey st members frames) (rest : List Char) :
    consume st (k ++ ':' :: rest) = consume (.value (.object members key :: frames)) rest := by
  cases h with
  | mk hbefore hkey hafter =>
    rw [List.append_assoc, List.append_assoc, consume_space hbefore,
      consume_token (Token.front?_string hkey _) (hst _), consume_space hafter]
    exact consume_token rfl rfl

/-! ### Values, items and members -/

mutual

theorem consume_writes {s : List Char} {t : Tree} (h : Writes s t) {st : State}
    {frames : List Frame} (hst : AwaitsValue st frames) {rest : List Char}
    (hrest : BeginsWithout GoesOn rest) :
    consume st (s ++ rest) = consume (.after t frames) rest := by
  match h with
  | .null | .bool_true | .bool_false => exact consume_token rfl (hst _ (by decide))
  | .number hn => exact consume_token (Token.front?_number hn hrest) (hst _ nofun)
  | .string htext => exact consume_token (Token.front?_string htext rest) (hst _ nofun)
  | .emptyArray hs =>
    rw [List.append_assoc, List.cons_append]
    rw [consume_token rfl (hst .openArray nofun), consume_space hs]
    exact consume_token rfl rfl
  | .array hitems =>
    rw [List.append_assoc, List.cons_append]
    rw [consume_token rfl (hst .openArray nofun)]
    exact consume_items hitems (awaitsValue_firstItem frames) rest
  | .emptyObject hs =>
    rw [List.append_assoc, List.cons_append]
    rw [consume_token rfl (hst .openObject nofun), consume_space hs]
    exact consume_token rfl rfl
  | .object hmembers =>
    rw [List.append_assoc, List.cons_append]
    rw [consume_token rfl (hst .openObject nofun)]
    exact consume_members hmembers (awaitsKey_firstKey frames) rest

theorem consume_writesSpaced {s : List Char} {t : Tree} (h : WritesSpaced s t) {st : State}
    {frames : List Frame} (hst : AwaitsValue st frames) {rest : List Char}
    (hrest : BeginsWithout GoesOn rest) :
    consume st (s ++ rest) = consume (.after t frames) rest := by
  match h with
  | .mk hbefore ht hafter =>
    rw [List.append_assoc, List.append_assoc, consume_space hbefore,
      consume_writes ht hst (beginsWithout_space hafter hrest), consume_space hafter]

theorem consume_items {s : List Char} {items : List Tree} (h : WritesItems s items) {st : State}
    {earlier : List Tree} {frames : List Frame} (hst : AwaitsValue st (.array earlier :: frames))
    (rest : List Char) :
    consume st (s ++ ']' :: rest) =
      consume (.after (.array (earlier.reverse ++ items)) frames) rest := by
  match h with
  | .last ht =>
    rw [consume_writesSpaced ht hst (beginsWithout_cons (by decide) rest),
      consume_token rfl rfl, List.reverse_cons]
  | .cons ht hitems =>
    rw [List.append_assoc, List.cons_append,
      consume_writesSpaced ht hst (beginsWithout_cons (by decide) _), consume_token rfl rfl,
      consume_items hitems (awaitsValue_value _) rest, List.reverse_cons, List.append_assoc]
    rfl

theorem consume_members {s : List Char} {members : List (Option String × Tree)}
    (h : WritesMembers s members) {st : State} {earlier : List (Option String × Tree)}
    {frames : List Frame} (hst : AwaitsKey st earlier frames) (rest : List Char) :
    consume st (s ++ '}' :: rest) =
      consume (.after (.object (earlier.reverse ++ members)) frames) rest := by
  match h with
  | .last hkey ht =>
    rw [List.append_assoc, List.cons_append, consume_key hkey hst,
      consume_writesSpaced ht (awaitsValue_value _) (beginsWithout_cons (by decide) rest),
      consume_token rfl rfl, List.reverse_cons]
  | .cons hkey ht hmembers =>
    rw [List.append_assoc, List.append_assoc, List.cons_append, List.cons_append,
      consume_key hkey hst,
      consume_writesSpaced ht (awaitsValue_value _) (beginsWithout_cons (by decide) _),
      consume_token rfl rfl, consume_members hmembers (awaitsKey_key _ frames) rest,
      List.reverse_cons, List.append_assoc]
    rfl

end

/-- **A document is read as the tree that it writes.** -/
theorem read?_of_isDocument {s : String} {t : Tree} (h : IsDocument s t) : read? s = some t := by
  have hend : BeginsWithout GoesOn [] := nofun
  have hconsume := consume_writesSpaced h (awaitsValue_value []) hend
  rw [List.append_nil, consume_nil] at hconsume
  obtain ⟨tokens, htokens, hfold⟩ := Option.bind_eq_some_iff.mp hconsume
  rw [read?, htokens, Option.bind_some, ofTokens?, hfold]

end OpeningHours.Json.Tree
