import OpeningHours.Document
import OpeningHours.Proofs.Json.Writing

/-! Rule files as documents.

An object lists the fields of a structure if it gives each at most once and leaves out
none but those that have their defaults (`ListsFields`); nothing is asked of the order,
of blanks and escapes, or of other members. Every such document of a rule file is read
as the rule file, whether its settings and rules are valid or not. The document that is
written for a rule file is one of them. -/
namespace OpeningHours
open Json

/-! ### Structures as objects -/

namespace Json.Tree

/-- A field of a structure that has a value. -/
structure Field where
  name : String
  /-- The document gives the value. -/
  Gives : Tree → Prop
  /-- The value is the default, so the field may be left out. -/
  IsDefault : Prop

/-- A field that one tree gives, however that is written. -/
def Field.of {α : Type} (name : String) (t : Tree) (value default : α) : Field :=
  ⟨name, (· = t), value = default⟩

/-- An object with these members, the keys of which are texts. -/
def ofMembers (members : Entries String Tree) : Tree :=
  .object (members.map fun m => (some m.1, m.2))

/-- The members list the fields, in any order, among others that are no fields. -/
structure ListsFields (fields : List Field) (members : Entries String Tree) : Prop where
  once : ((Entries.keys members).filter (· ∈ fields.map Field.name)).Nodup
  given : ∀ f ∈ fields, ∀ t, (f.name, t) ∈ members → f.Gives t
  missing : ∀ f ∈ fields, (∀ t, (f.name, t) ∉ members) → f.IsDefault

variable {fields : List Field} {members : Entries String Tree}

theorem keyed?_map (members : Entries String Tree) :
    keyed? (members.map fun m => (some m.1, m.2)) = some members := by
  unfold keyed?
  induction members with
  | nil => rfl
  | cons m rest ih =>
    rw [List.map_cons, List.mapM_cons, ih]
    rfl

/-- Only the members that are fields are kept. -/
theorem ListsFields.fields?_eq (h : ListsFields fields members) :
    fields? (fields.map Field.name) (ofMembers members) =
      some (members.filter fun e => e.1 ∈ fields.map Field.name) := by
  have hnodup : (Entries.keys (members.filter fun e => e.1 ∈ fields.map Field.name)).Nodup := by
    have honce := h.once
    rw [Entries.keys, List.filter_map] at honce
    exact honce
  rw [ofMembers, fields?, keyed?_map]
  exact if_pos hnodup

/-- A field is read as its value, whether it is given or left out. -/
theorem ListsFields.optional?_eq (h : ListsFields fields members) {f : Field} (hf : f ∈ fields)
    {α : Type} {default value : α} (read? : Tree → Option α)
    (hread : ∀ t, f.Gives t → read? t = some value) (hdefault : f.IsDefault → value = default) :
    optional? (members.filter fun e => e.1 ∈ fields.map Field.name) f.name default read? =
      some value := by
  have hname : f.name ∈ fields.map Field.name := List.mem_map_of_mem hf
  unfold optional?
  split
  · rename_i hnone
    refine congrArg some (hdefault (h.missing f hf fun t ht => ?_)).symm
    exact Entries.not_mem_of_get? hnone t (List.mem_filter.mpr ⟨ht, decide_eq_true hname⟩)
  · rename_i t hsome
    exact hread t (h.given f hf t (List.mem_filter.mp (Entries.mem_of_get? hsome)).1)

theorem ListsFields.optional?_of (h : ListsFields fields members) {name : String} {t : Tree}
    {α : Type} {value default : α} (hf : Field.of name t value default ∈ fields)
    (read? : Tree → Option α) (hread : read? t = some value) :
    optional? (members.filter fun e => e.1 ∈ fields.map Field.name) name default read? =
      some value :=
  h.optional?_eq hf read? (fun _ ht => ht ▸ hread) id

/-! ### The documents of values -/

theorem natural?_ofInt {n limit : Nat} (h : n ≤ limit) (hlimit : limit < UInt64.size) :
    natural? limit (.number (.ofInt n)) = some n := by
  have hinteger : (Numeral.ofInt n).integer? = some (n : Int) :=
    Numeral.integer?_ofInt (by omega) (by omega)
  have hbounds : (0 : Int) ≤ n ∧ (n : Int) ≤ limit := by omega
  rw [natural?, integer?, hinteger]
  exact if_pos hbounds

theorem list?_text? (texts : List String) :
    list? text? (.array (texts.map fun text => .string (some text))) = some texts := by
  show (texts.map fun text => Tree.string (some text)).mapM text? = some texts
  induction texts with
  | nil => rfl
  | cons text rest ih =>
    rw [List.map_cons, List.mapM_cons, ih]
    rfl

end Json.Tree

/-! ### Settings and rule files -/

/-- The fields of settings. -/
def Config.fields (c : Config) : List Tree.Field :=
  let default : Config := {}
  [.of "granularity" (.number (.ofInt c.granularity.toNat)) c.granularity default.granularity,
    .of "midnight_alignment" (.bool c.midnightAlignment) c.midnightAlignment
      default.midnightAlignment,
    .of "cache_size" (.number (.ofInt c.cacheSize.toNat)) c.cacheSize default.cacheSize,
    .of "date_format" (.string (some c.dateFormat)) c.dateFormat default.dateFormat]

/-- The fields of a rule file, of which the settings are an object with fields of their own. -/
def RuleFile.fields (file : RuleFile) : List Tree.Field :=
  let default : RuleFile := {}
  [⟨"config",
      fun t => ∃ members, t = .ofMembers members ∧ Tree.ListsFields file.config.fields members,
      file.config = default.config⟩,
    .of "open" (.array (file.opening.map fun text => .string (some text))) file.opening
      default.opening,
    .of "close" (.array (file.closing.map fun text => .string (some text))) file.closing
      default.closing]

theorem Config.ofTree?_of_listsFields {c : Config} {members : Entries String Tree}
    (h : Tree.ListsFields c.fields members) : ofTree? (.ofMembers members) = some c := by
  have hgranularity : ((Tree.number (.ofInt c.granularity.toNat)).natural? (UInt32.size - 1)).map
      UInt32.ofNat = some c.granularity := by
    rw [Tree.natural?_ofInt (Nat.le_sub_one_of_lt c.granularity.toNat_lt) (by decide),
      Option.map_some, UInt32.ofNat_toNat]
  have hcacheSize : ((Tree.number (.ofInt c.cacheSize.toNat)).natural? (UInt64.size - 1)).map
      UInt64.ofNat = some c.cacheSize := by
    rw [Tree.natural?_ofInt (Nat.le_sub_one_of_lt c.cacheSize.toNat_lt) (by decide),
      Option.map_some, UInt64.ofNat_toNat]
  have hfields : Tree.fields? ["granularity", "midnight_alignment", "cache_size", "date_format"]
      (.ofMembers members) = _ := h.fields?_eq
  have h₁ := h.optional?_of (.head _)
    (fun t => (t.natural? (UInt32.size - 1)).map UInt32.ofNat) hgranularity
  have h₂ := h.optional?_of (.tail _ (.head _)) Tree.bool? rfl
  have h₃ := h.optional?_of (.tail _ (.tail _ (.head _)))
    (fun t => (t.natural? (UInt64.size - 1)).map UInt64.ofNat) hcacheSize
  have h₄ := h.optional?_of (.tail _ (.tail _ (.tail _ (.head _)))) Tree.text? rfl
  unfold ofTree?
  rw [hfields]
  simp only [Option.bind_eq_bind, Option.bind_some]
  rw [h₁, h₂, h₃, h₄]
  rfl

theorem RuleFile.ofTree?_of_listsFields {file : RuleFile} {members : Entries String Tree}
    (h : Tree.ListsFields file.fields members) : ofTree? (.ofMembers members) = some file := by
  have hfields : Tree.fields? ["config", "open", "close"] (.ofMembers members) = _ := h.fields?_eq
  have h₁ := h.optional?_eq (.head _) Config.ofTree?
    (fun t ⟨settings, ht, hsettings⟩ => ht ▸ Config.ofTree?_of_listsFields hsettings) id
  have h₂ := h.optional?_of (.tail _ (.head _)) _ (Tree.list?_text? file.opening)
  have h₃ := h.optional?_of (.tail _ (.tail _ (.head _))) _ (Tree.list?_text? file.closing)
  unfold ofTree?
  rw [hfields]
  simp only [Option.bind_eq_bind, Option.bind_some]
  rw [h₁, h₂, h₃]
  rfl

/-! ### The document of a rule file -/

theorem Json.Value.itemTrees_map_string (texts : List String) :
    Value.itemTrees (texts.map .string) = texts.map fun text => .string (some text) := by
  induction texts with
  | nil => rfl
  | cons text rest ih => rw [List.map_cons, Value.itemTrees, ih, List.map_cons, Value.toTree]

/-- Settings are written with all their fields. -/
theorem Config.toTree_toValue (c : Config) : ∃ members,
    c.toValue.toTree = .ofMembers members ∧ Tree.ListsFields c.fields members := by
  refine ⟨[("granularity", .number (.ofInt c.granularity.toNat)),
    ("midnight_alignment", .bool c.midnightAlignment),
    ("cache_size", .number (.ofInt c.cacheSize.toNat)),
    ("date_format", .string (some c.dateFormat))], rfl, ?_, ?_, ?_⟩
  · simp [Config.fields, Tree.Field.of, Entries.keys]
  · simp [Config.fields, Tree.Field.of]
  · simp [Config.fields, Tree.Field.of]

theorem RuleFile.toTree_toValue (file : RuleFile) : ∃ members,
    file.toValue.toTree = .ofMembers members ∧ Tree.ListsFields file.fields members := by
  obtain ⟨settings, htree, hsettings⟩ := file.config.toTree_toValue
  refine ⟨[("config", .ofMembers settings),
    ("open", .array (file.opening.map fun text => .string (some text))),
    ("close", .array (file.closing.map fun text => .string (some text)))], ?_, ?_, ?_, ?_⟩
  · simp only [toValue, Value.toTree, Value.memberTrees, htree, Value.itemTrees_map_string]
    rfl
  · simp [RuleFile.fields, Tree.Field.of, Entries.keys]
  · simp only [RuleFile.fields, Tree.Field.of, List.forall_mem_cons]
    refine ⟨fun t ht => ?_, ?_, ?_, List.forall_mem_nil _⟩
    · have ht : t = .ofMembers settings := by simpa using ht
      exact ⟨settings, ht, hsettings⟩
    · simp
    · simp
  · simp [RuleFile.fields, Tree.Field.of]

theorem RuleFile.readable_toValue (file : RuleFile) (depth : Nat) :
    file.toValue.Readable (depth + 2) := by
  have hlist : ∀ texts : List String, (Value.array (texts.map .string)).Readable (depth + 1) := by
    intro texts
    refine .array fun item hitem => ?_
    obtain ⟨text, _, rfl⟩ := List.mem_map.mp hitem
    exact .string text
  have hgranularity : (Value.int file.config.granularity.toNat).Readable depth :=
    Value.readable_int (Nat.lt_trans file.config.granularity.toNat_lt (by decide))
  have hcacheSize : (Value.int file.config.cacheSize.toNat).Readable depth :=
    Value.readable_int file.config.cacheSize.toNat_lt
  refine .object (by simp [Entries.keys]) ?_
  simp only [List.forall_mem_cons]
  refine ⟨.object (by simp [Entries.keys]) ?_, hlist file.opening, hlist file.closing,
    List.forall_mem_nil _⟩
  simp only [List.forall_mem_cons]
  exact ⟨hgranularity, .bool _, hcacheSize, .string _, List.forall_mem_nil _⟩

theorem RuleFile.read_eq_ok {s : String} {t : Tree} {file : RuleFile} (hs : Tree.IsDocument s t)
    (ht : ofTree? t = some file) : read s = .ok file := by
  rw [read, Tree.read?_of_isDocument hs, Option.bind_some, ht]

/-- **A rule file is read from every document that lists its fields**, in any order, with
whatever else is in it, and without any fields that have their defaults. The document that is
written for the rule file is one. -/
theorem RuleFile.read_listed_fields (file : RuleFile) :
    (∀ (s : String) (members : Entries String Tree), Tree.IsDocument s (.ofMembers members) →
      Tree.ListsFields file.fields members → read s = .ok file) ∧
    ∀ layout, read (file.toValue.write layout) = .ok file := by
  constructor
  · exact fun s members hs hfields => read_eq_ok hs (ofTree?_of_listsFields hfields)
  · intro layout
    obtain ⟨members, htree, hfields⟩ := file.toTree_toValue
    have hs := (Value.isDocument_write (file.readable_toValue 0) layout).1
    rw [htree] at hs
    exact read_eq_ok hs (ofTree?_of_listsFields hfields)

/-- Fields out of order, a member that is no field, and the greatest cache size. -/
theorem RuleFile.read_listed_fields_unordered :
    read ((Value.object [("close", .array []), ("note", .object [("open", .null)]),
      ("open", .array [.string "p=540-600"]),
      ("config", .object [("cache_size", .int 18446744073709551615)])]).write .pretty) =
      .ok {config := {cacheSize := 18446744073709551615}, opening := ["p=540-600"]} := by
  refine (read_listed_fields _).1 _ [("close", .array []),
    ("note", .ofMembers [("open", .null)]), ("open", .array [.string (some "p=540-600")]),
    ("config", .ofMembers [("cache_size", .number (.ofInt 18446744073709551615))])] ?_ ⟨?_, ?_, ?_⟩
  · have hnote : (Value.object [("open", .null)]).Readable 1 := by
      refine .object (by decide) ?_
      simp only [List.forall_mem_cons]
      exact ⟨.null, List.forall_mem_nil _⟩
    have hconfig : (Value.object [("cache_size", .int 18446744073709551615)]).Readable 1 := by
      refine .object (by decide) ?_
      simp only [List.forall_mem_cons]
      exact ⟨Value.readable_int (by decide), List.forall_mem_nil _⟩
    refine (@Value.isDocument_write 2 _ (.object (by decide) ?_) .pretty).1
    simp only [List.forall_mem_cons]
    refine ⟨.array (List.forall_mem_nil _), hnote, .array ?_, hconfig, List.forall_mem_nil _⟩
    simp only [List.forall_mem_cons]
    exact ⟨.string _, List.forall_mem_nil _⟩
  · decide
  · simp only [RuleFile.fields, Tree.Field.of, List.forall_mem_cons]
    refine ⟨fun t ht => ⟨[("cache_size", .number (.ofInt 18446744073709551615))], ?_, ?_, ?_, ?_⟩,
      by simp, by simp, List.forall_mem_nil _⟩
    · simpa using ht
    · decide
    · simp [Config.fields, Tree.Field.of]
    · simp [Config.fields, Tree.Field.of]
  · simp [RuleFile.fields, Tree.Field.of]

end OpeningHours
