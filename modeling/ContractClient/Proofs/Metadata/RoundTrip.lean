/-
Documents that spell a model out.

A model has a document in the layout of version 4, `Metadata.json`: every part
of the model stands under its key, and what the model leaves open is left out of
the document. Such a document loads to the model it was written from, whether
the layout is checked or not, provided that the model is well formed.

Both are shown together, part by part: a value spells a part of a model,
`Spells`, if it satisfies the schema of such parts and reading it gives the
part, wherever it stands. The parts of an object are looked up among the members
that were written, `find?_present_cons`; lists are spelled item by item.
-/
import ContractClient.Proofs.Metadata.Violations
import ContractClient.Metadata.Load
import ContractClient.Proofs.Outcome

set_option autoImplicit false

namespace ContractClient

open Json

/-! ## Spelling a model out -/

/-- The members of an object that are there. -/
def present (members : List (String × Option Json)) : Load.Members :=
  members.filterMap fun m => m.2.map fun v => (m.1, v)

/-- Lines of text. -/
def linesJson (lines : List String) : Json :=
  .arr (lines.map .str)

/-- A byte string in hexadecimal. -/
def hexJson (bs : Bytes) : Json :=
  .str (Bytes.toHex0x bs)

/-- A reference to a type in a signature. -/
def typeRefJson (id : TypeId) : Json :=
  .obj (present [("type", some (.int id)), ("displayName", some (linesJson []))])

/-- A field of a composite or of an arm. Its name and the name of its type are
left out where the model has none; the lines of documentation always stand
there, also where there are none. -/
def Field.json (f : Field) : Json :=
  .obj (present
    [("name", f.name.map .str), ("type", some (.int f.typeId)), ("typeName", f.typeName.map .str),
      ("docs", some (linesJson f.docs))])

/-- An arm of a variant, with the index that its values start with. -/
def Arm.json (a : Arm) : Json :=
  .obj (present
    [("name", some (.str a.name)), ("index", some (.int a.index)), ("fields", some (.arr (a.fields.map Field.json))),
      ("docs", some (linesJson a.docs))])

/-- A definition: an object with one member, whose key is the kind. -/
def TypeDef.json : TypeDef → Json
  | .primitive kind => .obj [("primitive", .str kind.name)]
  | .composite fields => .obj [("composite", .obj (present [("fields", some (.arr (fields.map Field.json)))]))]
  | .variant arms => .obj [("variant", .obj (present [("variants", some (.arr (arms.map Arm.json)))]))]
  | .sequence item => .obj [("sequence", .obj (present [("type", some (.int item))]))]
  | .array item length => .obj [("array", .obj (present [("len", some (.int length)), ("type", some (.int item))]))]
  | .tuple items => .obj [("tuple", .arr (items.map fun (id : TypeId) => .int id))]
  | .compact inner => .obj [("compact", .obj (present [("type", some (.int inner))]))]

/-- A parameter; one without a type has null for it. -/
def TypeParameter.json (p : TypeParameter) : Json :=
  .obj (present [("name", some (.str p.name)), ("type", some ((p.typeId.map .int).getD .null))])

/-- What stands under the number of a type. -/
def Entry.members (e : Entry) : Load.Members :=
  present
    [("def", some e.definition.json), ("path", some (linesJson e.path)),
      ("params", some (.arr (e.parameters.map TypeParameter.json))), ("docs", some (linesJson e.docs))]

/-- An entry of the table of types. The schema wants the number beside
everything else, so what stands under `type` has a definition of its own. -/
def Entry.json (e : Entry) : Json :=
  .obj (present [("id", some (.int e.id)), ("type", some (.obj e.members))])

/-- The members of an argument; only fields of events say whether they are
indexed. -/
def Argument.members (ofEvent : Bool) (a : Argument) : Load.Members :=
  present
    [("label", some (.str a.label)), ("type", some (typeRefJson a.typeId)),
      ("indexed", if ofEvent then some (.bool a.indexed) else none), ("docs", some (linesJson a.docs))]

/-- An argument of a method, or a field of an event. -/
def Argument.json (ofEvent : Bool) (a : Argument) : Json :=
  .obj (a.members ofEvent)

/-- The members of a constructor or a message; only messages say whether they
change the state. -/
def Method.members (isConstructor : Bool) (m : Method) : Load.Members :=
  present
    [("label", some (.str m.label)), ("selector", m.selector.map hexJson), ("selectorName", m.selectorName.map .str),
      ("args", some (.arr (m.args.map (Argument.json false)))),
      ("returnType", some ((m.returnType.map typeRefJson).getD .null)),
      ("mutates", if isConstructor then none else some (.bool m.mutates)), ("payable", some (.bool m.payable)),
      ("docs", some (linesJson m.docs))]

/-- A constructor or a message. -/
def Method.json (isConstructor : Bool) (m : Method) : Json :=
  .obj (m.members isConstructor)

/-- An event, the arguments of which say whether they are indexed. -/
def Event.json (e : Event) : Json :=
  .obj (present
    [("label", some (.str e.label)), ("args", some (.arr (e.args.map (Argument.json true)))),
      ("docs", some (linesJson e.docs))])

/-- The members under `source`. -/
def Metadata.sourceMembers (m : Metadata) : Load.Members :=
  present [("hash", m.sourceHash.map hexJson), ("wasm", m.wasm.map hexJson)]

/-- The members under `contract`. -/
def Metadata.contractMembers (m : Metadata) : Load.Members :=
  present [("name", some (.str m.contractName)), ("version", some (.str m.contractVersion))]

/-- The members under `spec`. -/
def Metadata.specMembers (m : Metadata) : Load.Members :=
  present
    [("constructors", some (.arr (m.constructors.map (Method.json true)))),
      ("messages", some (.arr (m.messages.map (Method.json false)))),
      ("events", some (.arr (m.events.map Event.json)))]

/-- The members of the document of a model. -/
def Metadata.members (m : Metadata) : Load.Members :=
  present
    [("version", some (.str "4")), ("source", some (.obj m.sourceMembers)), ("contract", some (.obj m.contractMembers)),
      ("types", some (.arr (m.types.map Entry.json))), ("spec", some (.obj m.specMembers))]

/-- The document of a model. -/
def Metadata.json (m : Metadata) : Json :=
  .obj m.members

/-! ## What can be spelled out -/

/-- An arm with a name, and with an index that fits in a byte. The loader by
itself takes any natural number for an index; the bound is the schema's. -/
structure Arm.WellFormed (a : Arm) : Prop where
  name : a.name ≠ ""
  index : a.index ≤ 255

/-- The arms of a variant; other definitions are well formed as they are. -/
def TypeDef.WellFormed : TypeDef → Prop
  | .variant arms => ∀ a ∈ arms, a.WellFormed
  | _ => True

/-- A parameter with a name, whose type is not numbered below zero where it has
one. -/
structure TypeParameter.WellFormed (p : TypeParameter) : Prop where
  name : p.name ≠ ""
  typeId : ∀ id, p.typeId = some id → 0 ≤ id

/-- An entry is well formed if its definition and its parameters are. That
numbers are not used twice is a matter of the whole table. -/
structure Entry.WellFormed (e : Entry) : Prop where
  definition : e.definition.WellFormed
  parameters : ∀ p ∈ e.parameters, p.WellFormed

/-- An argument with a label, which is not indexed outside of events. -/
structure Argument.WellFormed (ofEvent : Bool) (a : Argument) : Prop where
  label : a.label ≠ ""
  indexed : ofEvent = false → a.indexed = false

/-- A method as the layout can express it. -/
structure Method.Expressible (isConstructor : Bool) (m : Method) : Prop where
  label : m.label ≠ ""
  args : ∀ a ∈ m.args, a.WellFormed false
  mutates : isConstructor = true → m.mutates = true
  selector : ∀ bs, m.selector = some bs → bs.length = 4
  selectorName : m.selectorName ≠ some ""

/-- An event with a label, all fields of which have one too. -/
structure Event.WellFormed (e : Event) : Prop where
  label : e.label ≠ ""
  args : ∀ a ∈ e.args, a.WellFormed true

/-- A model that a document can spell out. -/
structure Metadata.WellFormed (hash : HashFunction) (m : Metadata) : Prop where
  contractName : m.contractName ≠ ""
  numbers : (m.types.map (·.id)).Nodup
  types : ∀ e ∈ m.types, e.WellFormed
  constructors : ∀ c ∈ m.constructors, c.Expressible true
  messages : ∀ c ∈ m.messages, c.Expressible false
  events : ∀ e ∈ m.events, e.WellFormed
  sourceHash : ∀ declared, m.sourceHash = some declared → declared.length = 32
  sourceAgrees : ∀ declared code, m.sourceHash = some declared → m.wasm = some code → hash code = declared

/-! ## Members that were written -/

@[simp] theorem find?_present_nil (key : String) : find? (present []) key = none :=
  rfl

@[simp] theorem find?_present_cons (k key : String) (v : Option Json) (rest : List (String × Option Json)) :
    find? (present ((k, v) :: rest)) key =
      if k = key then v.or (find? (present rest) key) else find? (present rest) key := by
  cases v with
  | none => simp [present]
  | some v =>
    by_cases h : k = key
    · simp [present, find?, h]
    · simp [present, find?, h]

/-! ## Parts -/

section

variable {α : Type} {schema : Schema} {read : Path → Json → Except LoadError α}

/-- Whether a value spells a part of a model: it satisfies the schema, and
reading it gives the part, wherever it stands. -/
structure Spells (schema : Schema) (read : Path → Json → Except LoadError α) (v : Json) (a : α) : Prop where
  valid : schema.Accepts v
  reads : ∀ place, read place v = .ok a

/-- Lists are read item by item. The place of an item is the place of the list
and its position, but a part that is read at any place does not depend on it, so
one hypothesis about the items is enough for all positions. -/
theorem each_ok {write : α → Json} {as : List α} (h : ∀ a ∈ as, ∀ place, read place (write a) = .ok a) (place : Path) :
    Load.each place read (as.map write) = .ok as := by
  have hfrom : ∀ i, List.Forall₂ (fun p a => read (Load.itemOf place p.2) p.1 = .ok a)
      ((as.map write).zipIdx i) as := by
    induction as with
    | nil => exact fun _ => .nil
    | cons a as ih =>
      obtain ⟨hhead, htail⟩ := List.forall_mem_cons.1 h
      intro i
      rw [List.map_cons, List.zipIdx_cons]
      exact .cons (hhead _) (ih htail (i + 1))
  exact mapM_ok_iff.2 (hfrom 0)

/-- A list satisfies the schema of its items. -/
theorem arrayOf_accepts {write : α → Json} {as : List α} (h : ∀ a ∈ as, schema.Accepts (write a)) :
    (Layout.arrayOf schema).Accepts (.arr (as.map write)) := by
  rw [Schema.Accepts, Layout.only_arrayOf_iff]
  intro p hp
  obtain ⟨a, ha, heq⟩ := List.mem_map.1 (List.fst_mem_of_mem_zipIdx hp)
  exact heq ▸ h a ha

/-- A list is spelled item by item. -/
theorem spells_list {write : α → Json} {as : List α} (h : ∀ a ∈ as, Spells schema read (write a) a) :
    (Layout.arrayOf schema).Accepts (.arr (as.map write)) ∧
      ∀ place, Load.each place read (as.map write) = .ok as :=
  ⟨arrayOf_accepts fun a ha => (h a ha).valid, each_ok fun a ha => (h a ha).reads⟩

/-- Lines of text are read back as they were written, the empty line too. -/
theorem strings_linesJson (lines : List String) (place : Path) :
    Load.strings place (linesJson lines) = .ok lines := by
  have hline : ∀ s ∈ lines, ∀ place, Load.asString place (.str s) = .ok s := fun _ _ _ => rfl
  exact each_ok hline place

/-- Lines of text are a list of texts, which is how paths and documentation are
described. -/
theorem linesJson_accepts (lines : List String) : (Layout.arrayOf Layout.text).Accepts (linesJson lines) :=
  arrayOf_accepts fun s _ => Layout.text_accepts s

end

/-! ## Byte strings -/

/-- Bytes are read back from their digits. Reading is more liberal than writing,
so only one direction holds. -/
theorem hex_hexJson (bs : Bytes) (place : Path) : Load.hex place (hexJson bs) = .ok bs := by
  rw [hexJson, Load.hex, Bytes.after0x?_toHex0x]
  dsimp only
  rw [Bytes.ofHex?_toHex]

/-- Bytes of the right number are read back by a reader that insists on this
number. -/
theorem hexOfLength_hexJson {length : Nat} {bs : Bytes} (h : bs.length = length) (place : Path) :
    Load.hexOfLength length place (hexJson bs) = .ok bs := by
  refine bind_ok_iff.2 ⟨bs, hex_hexJson bs place, ?_⟩
  rw [if_pos h]
  rfl

/-- What the pattern of the schema says of digits that were written: there are
two for each byte, and nothing is asked but that their number is right. -/
theorem isHex_toHex0x (count : Nat → Bool) (bs : Bytes) :
    Layout.isHex count (Bytes.toHex0x bs).toList = count (2 * bs.length) := by
  have hcs : (Bytes.toHex0x bs).toList = '0' :: 'x' :: (Bytes.toHex bs).toList := by simp [Bytes.toHex0x]
  rw [hcs, Layout.isHex_of_hexDigits (.inl rfl) (Bytes.hexDigits_toHex bs), Bytes.length_toHex]

/-- Digits that were written match the pattern for byte strings, since their
number is even. -/
theorem hex_accepts (bs : Bytes) : Layout.hex.Accepts (hexJson bs) := by
  rw [Schema.Accepts, Layout.hex, Layout.only_ofKind_iff, List.forall_mem_singleton, hexJson, only_pattern_iff]
  refine ⟨.inl rfl, .inl ?_⟩
  exact (isHex_toHex0x (fun n => n % 2 == 0) bs).trans (by simp)

/-- Digits of four bytes match the pattern for selectors. -/
theorem selector_accepts {bs : Bytes} (h : bs.length = 4) : Layout.selector.Accepts (hexJson bs) := by
  rw [Schema.Accepts, Layout.selector, Layout.only_ofKind_iff, List.forall_mem_singleton, hexJson, only_pattern_iff]
  refine ⟨.inl rfl, .inl ?_⟩
  exact (isHex_toHex0x (fun n => n == 8) bs).trans (by simp [h])

/-! ## Members that are read -/

section

variable {members : Load.Members} {key : String}

/-- A natural number under the key is read. This and the lemmas that follow turn
a lookup among the members that were written into a step of a reader; the lookup
itself is closed by `simp`. -/
theorem naturalMember_ok {n : Nat} (h : find? members key = some (.int n)) (place : Path) :
    Load.naturalMember place members key = .ok n := by
  rw [Load.naturalMember, Load.get, h]
  simp

/-- A text under the key is read if it is not empty: for the loader an empty
text is no better than none. -/
theorem stringMember_ok {s : String} (h : find? members key = some (.str s)) (hs : s ≠ "") (place : Path) :
    Load.stringMember place members key = .ok s := by
  rw [Load.stringMember, Load.get, h]
  simp [hs]

/-- A text that may be left out is read back, whether it is there or not. -/
theorem optionalStringMember_ok {s : Option String} (h : find? members key = s.map .str) (place : Path) :
    Load.optionalStringMember place members key = .ok s := by
  rw [Load.optionalStringMember, Load.get, h]
  cases s <;> rfl

/-- A flag under the key is read. Readers of flags take a missing one for false,
which does not matter for what was written. -/
theorem flagMember_ok {b : Bool} (h : find? members key = some (.bool b)) (place : Path) :
    Load.flagMember place members key = .ok b := by
  rw [Load.flagMember, Load.get, h]
  rfl

/-- A flag that has to be there is read. -/
theorem booleanMember_ok {b : Bool} (h : find? members key = some (.bool b)) (place : Path) :
    Load.booleanMember place members key = .ok b := by
  rw [Load.booleanMember, Load.get, h]
  rfl

/-- Lines of text under the key are read. -/
theorem stringsMember_ok {lines : List String} (h : find? members key = some (linesJson lines)) (place : Path) :
    Load.stringsMember place members key = .ok lines := by
  rw [Load.stringsMember, Load.get, h]
  exact strings_linesJson lines _

/-- What is left out is not read, and what is there is read as it was
written. -/
theorem optional_ok {α : Type} {read : Path → Json → Except LoadError α} (write : α → Json) {a : Option α}
    (hnull : ∀ b, write b ≠ .null) (hread : ∀ b, a = some b → ∀ place, read place (write b) = .ok b) (place : Path) :
    Load.optional read place ((a.map write).getD .null) = .ok a := by
  cases a with
  | none => rfl
  | some b =>
    have hsome : Load.optional read place (write b) = some <$> read place (write b) := by
      unfold Load.optional
      split
      next heq => exact absurd heq (hnull b)
      · rfl
    rw [Option.map_some, Option.getD_some, hsome, hread b rfl]
    rfl

/-- A list under the key is read, its items as they are. -/
theorem arrayMember_ok {items : List Json} (h : find? members key = some (.arr items)) (place : Path) :
    Load.arrayMember place members key = .ok items := by
  rw [Load.arrayMember, h]
  rfl

/-- An object under the key is read, its members as they are. -/
theorem objectMember_ok {ms : Load.Members} (h : find? members key = some (.obj ms)) (place : Path) :
    Load.objectMember place members key = .ok ms := by
  rw [Load.objectMember, h]
  rfl

/-- A list under the key is read where null would do as well. -/
theorem asArray_ok {items : List Json} (h : find? members key = some (.arr items)) (place : Path) :
    Load.asArray place (Load.get members key) = .ok items := by
  rw [Load.get, h]
  rfl

end

/-! ## Objects that are valid -/

section

variable {keys : List String} {schemas : List (String × Schema)} {members : Load.Members}

/-- An object is valid if it has the keys that are required and each member that
the schema speaks of is valid. Members that the schema does not speak of do no
harm. -/
theorem object_accepts (hkeys : ∀ key ∈ keys, find? members key ≠ none)
    (hmembers : ∀ p ∈ schemas, ∀ v, find? members p.1 = some v → p.2.Accepts v) :
    (Layout.ofKind .object [.required keys, .properties schemas]).Accepts (.obj members) :=
  Layout.only_object_iff.2 ⟨hkeys, hmembers⟩

/-- The same where no key is required. -/
theorem members_accept (hmembers : ∀ p ∈ schemas, ∀ v, find? members p.1 = some v → p.2.Accepts v) :
    (Layout.ofKind .object [.properties schemas]).Accepts (.obj members) :=
  Layout.only_members_iff.2 hmembers

end

/-- A reference to a schema accepts what the schema accepts. The layout refers
to most of its parts by name, as schemas do that are shared. -/
theorem ref_accepts {schema : Schema} {v : Json} : (Layout.ref schema).Accepts v ↔ schema.Accepts v :=
  Layout.only_ref_iff

/-- A text is one of the two things that an optional text may be; the other is
null, which is never written. -/
theorem optionalText_accepts (s : String) : Layout.optionalText.Accepts (.str s) := by
  rw [Schema.Accepts, Layout.optionalText, only_ofKeywords_iff, List.forall_mem_singleton, only_kinds_iff]
  exact .inl rfl

/-- Documentation is valid in whatever lines it is written. -/
theorem docs_accepts (lines : List String) : Layout.docs.Accepts (linesJson lines) :=
  ref_accepts.2 (linesJson_accepts lines)

/-! ## Types -/

/-- A field is spelled by its document. It has no condition: whatever is in a
field can be written. -/
theorem Field.spelled (f : Field) : Spells Layout.field Load.field f.json f where
  valid := by
    refine object_accepts ?_ ?_
    · simp
    · simp [optionalText_accepts, docs_accepts, Layout.typeId_accepts]
  reads place := by
    refine bind_ok_iff.2 ⟨_, rfl, bind_ok_iff.2 ⟨f.typeId, naturalMember_ok (by simp) place, ?_⟩⟩
    refine bind_ok_iff.2 ⟨f.name, optionalStringMember_ok (by simp) place, ?_⟩
    refine bind_ok_iff.2 ⟨f.typeName, optionalStringMember_ok (by simp) place, ?_⟩
    exact bind_ok_iff.2 ⟨f.docs, stringsMember_ok (by simp) place, rfl⟩

/-- What spells a part under a schema spells it under a reference to the
schema. -/
theorem Spells.ref {α : Type} {schema : Schema} {read : Path → Json → Except LoadError α} {v : Json} {a : α}
    (h : Spells schema read v a) : Spells (Layout.ref schema) read v a :=
  ⟨ref_accepts.2 h.valid, h.reads⟩

/-- The fields of a composite or of an arm satisfy their schema. -/
theorem fields_accept (fields : List Field) : Layout.fields.Accepts (.arr (fields.map Field.json)) :=
  ref_accepts.2 (spells_list fun f _ => f.spelled.ref).1

/-- Fields under their key are read back, one after the other. -/
theorem fieldsMember_ok {members : Load.Members} {fields : List Field}
    (h : find? members "fields" = some (.arr (fields.map Field.json))) (place : Path) :
    Load.fieldsMember place members = .ok fields :=
  bind_ok_iff.2 ⟨_, asArray_ok h _, (spells_list fun f _ => f.spelled).2 _⟩

/-- **An arm is spelled by its document.** The name is asked for by the schema
and by the reader, the bound on the index by the schema alone. -/
theorem Arm.spelled {a : Arm} (h : a.WellFormed) : Spells Layout.arm Load.arm a.json a where
  valid := by
    have hindex : (Layout.ofKind .integer [.minimum 0, .maximum 255]).Accepts (.int a.index) := by
      rw [Schema.Accepts, Layout.only_ofKind_iff, List.forall_mem_cons, List.forall_mem_singleton, only_minimum_iff,
        only_maximum_iff]
      have := h.index
      exact ⟨.inl rfl, by omega, by omega⟩
    refine object_accepts ?_ ?_
    · simp
    · simp [ref_accepts, Layout.label_accepts h.name, hindex, fields_accept, docs_accepts]
  reads place := by
    refine bind_ok_iff.2 ⟨_, rfl, bind_ok_iff.2 ⟨a.name, stringMember_ok (by simp) h.name place, ?_⟩⟩
    refine bind_ok_iff.2 ⟨a.index, naturalMember_ok (by simp) place, ?_⟩
    refine bind_ok_iff.2 ⟨a.fields, fieldsMember_ok (by simp) place, ?_⟩
    exact bind_ok_iff.2 ⟨a.docs, stringsMember_ok (by simp) place, rfl⟩

/-- A parameter is spelled by its document, with null for a type that it does
not have. Both the schema and the reader treat null apart from numbers, so the
two cases are shown on their own. -/
theorem TypeParameter.spelled {p : TypeParameter} (h : p.WellFormed) :
    Spells Layout.parameter Load.parameter p.json p where
  valid := by
    have hnull : (Schema.ofKeywords [.kinds [.integer, .null], .minimum 0]).Accepts .null := by
      rw [Schema.Accepts, only_ofKeywords_iff, List.forall_mem_cons, List.forall_mem_singleton, only_kinds_iff]
      exact ⟨.inl rfl, fun _ hx => absurd hx List.not_mem_nil⟩
    have hint : ∀ id, 0 ≤ id → (Schema.ofKeywords [.kinds [.integer, .null], .minimum 0]).Accepts (.int id) := by
      intro id hid
      rw [Schema.Accepts, only_ofKeywords_iff, List.forall_mem_cons, List.forall_mem_singleton, only_kinds_iff,
        only_minimum_iff]
      exact ⟨.inl rfl, fun hneg => absurd hneg (Int.not_lt.2 hid)⟩
    refine object_accepts ?_ ?_
    · simp
    · cases htype : p.typeId with
      | none => simp [Layout.text_accepts, hnull]
      | some id => simp [Layout.text_accepts, hint id (h.typeId id htype)]
  reads place := by
    obtain ⟨name, typeId⟩ := p
    have hname : ∀ v, Load.stringMember place (present [("name", some (.str name)), ("type", some v)]) "name" =
        .ok name := fun v => stringMember_ok (by simp) h.name place
    have htype : ∀ v, Load.get (present [("name", some (.str name)), ("type", some v)]) "type" = v := fun v => by
      simp [Load.get]
    refine bind_ok_iff.2 ⟨_, rfl, ?_⟩
    dsimp only
    rw [htype]
    cases typeId with
    | none => exact bind_ok_iff.2 ⟨none, rfl, bind_ok_iff.2 ⟨name, hname _, rfl⟩⟩
    | some id => exact bind_ok_iff.2 ⟨some id, rfl, bind_ok_iff.2 ⟨name, hname _, rfl⟩⟩

/-! ## Definitions -/

/-- The list of primitives that the schema names is complete. -/
theorem Primitive.mem_all (p : Primitive) : p ∈ Primitive.all := by
  rcases p with _ | _ | _ | w | w
  · decide
  · decide
  · decide
  · cases w <;> decide
  · cases w <;> decide

/-- The name of a primitive is read back to it; no two primitives have one
name. -/
theorem Primitive.ofName?_name (p : Primitive) : Primitive.ofName? p.name = some p := by
  have hall : ∀ q ∈ Primitive.all, Primitive.ofName? q.name = some q := by decide +kernel
  exact hall p p.mem_all

/-- An object with one member satisfies the layout of definitions if the member
is of a known kind and its body satisfies the schema of the kind. -/
theorem oneMember_accepts {schemas : List (String × Schema)} {kinds : List String} {kind : String} {body : Json}
    (hkind : kind ∈ kinds) (hbody : ∀ p ∈ schemas, kind = p.1 → p.2.Accepts body) :
    (Layout.ofKind .object [.nonEmptyObject, .maxProperties 1, .properties schemas, .onlyKeys kinds]).Accepts
      (.obj [(kind, body)]) :=
  Layout.only_oneMember hkind hbody

/-- An object that refers to one type, as sequences and compact integers do. -/
theorem reference_accepts (id : TypeId) :
    (Layout.ofKind .object [.required ["type"], .properties [("type", Layout.typeId)]]).Accepts
      (.obj (present [("type", some (.int id))])) := by
  refine object_accepts ?_ ?_
  · simp
  · simp [Layout.typeId_accepts]

/-- An object that refers to a type and gives a length, as arrays do. -/
theorem array_accepts (item : TypeId) (length : Nat) :
    (Layout.ofKind .object [.required ["len", "type"],
      .properties [("len", Layout.natural), ("type", Layout.typeId)]]).Accepts
      (.obj (present [("len", some (.int length)), ("type", some (.int item))])) := by
  refine object_accepts ?_ ?_
  · simp
  · simp [Layout.typeId_accepts, Layout.natural_accepts]

/-- The name of a primitive is one of the words of the schema. -/
theorem primitive_accepts (kind : Primitive) :
    (Schema.ofKeywords [.oneOfWords (Primitive.all.map Primitive.name)]).Accepts (.str kind.name) := by
  rw [Schema.Accepts, only_ofKeywords_iff, List.forall_mem_singleton, only_oneOfWords_iff]
  exact .inl (List.contains_iff_mem.2 (List.mem_map_of_mem kind.mem_all))

/-- **A definition is spelled by its document**, which has the body under its
kind. The kind is the only key of the document, so the reader finds one kind and
no second one, and the schema one of the seven alternatives. Only variants have
a condition. -/
theorem TypeDef.spelled {d : TypeDef} (h : d.WellFormed) : Spells Layout.typeDef Load.definition d.json d := by
  cases d with
  | primitive kind =>
    refine ⟨oneMember_accepts (by simp) (by simp [primitive_accepts]), fun place => ?_⟩
    simp [json, Load.definition, kind.ofName?_name]
  | composite fields =>
    refine ⟨oneMember_accepts (by simp) ?_, fun place => ?_⟩
    · simp [members_accept, fields_accept]
    · exact bind_ok_iff.2 ⟨_, rfl, bind_ok_iff.2 ⟨fields, fieldsMember_ok (by simp) _, rfl⟩⟩
  | variant arms =>
    have harms := spells_list fun a ha => Arm.spelled (h a ha)
    refine ⟨oneMember_accepts (by simp) ?_, fun place => ?_⟩
    · simp [members_accept, harms.1]
    · refine bind_ok_iff.2 ⟨_, rfl, bind_ok_iff.2 ⟨_, asArray_ok (by simp; rfl) _, ?_⟩⟩
      exact bind_ok_iff.2 ⟨arms, harms.2 _, rfl⟩
  | sequence item =>
    refine ⟨oneMember_accepts (by simp) (by simp [reference_accepts]), fun place => ?_⟩
    exact bind_ok_iff.2 ⟨_, rfl, bind_ok_iff.2 ⟨item, naturalMember_ok (by simp) _, rfl⟩⟩
  | array item length =>
    refine ⟨oneMember_accepts (by simp) (by simp [array_accepts]), fun place => ?_⟩
    refine bind_ok_iff.2 ⟨_, rfl, bind_ok_iff.2 ⟨item, naturalMember_ok (by simp) _, ?_⟩⟩
    exact bind_ok_iff.2 ⟨length, naturalMember_ok (by simp) _, rfl⟩
  | tuple items =>
    have hitems : ∀ id ∈ items, Spells Layout.typeId Load.typeNumber (.int (id : TypeId)) id := by
      refine fun id _ => ⟨Layout.typeId_accepts (by simp), fun place => ?_⟩
      simp [Load.typeNumber]
    refine ⟨oneMember_accepts (by simp) (by simp [(spells_list hitems).1]), fun place => ?_⟩
    exact bind_ok_iff.2 ⟨_, rfl, bind_ok_iff.2 ⟨items, (spells_list hitems).2 _, rfl⟩⟩
  | compact inner =>
    refine ⟨oneMember_accepts (by simp) (by simp [reference_accepts]), fun place => ?_⟩
    exact bind_ok_iff.2 ⟨_, rfl, bind_ok_iff.2 ⟨inner, naturalMember_ok (by simp) _, rfl⟩⟩

/-! ## Entries -/

/-- An entry is spelled where its number is not taken. The layout says nothing
of other entries, and the reader refuses a number that it has seen, so the
hypothesis is needed for reading alone. -/
theorem Entry.spelled {e : Entry} (h : e.WellFormed) {taken : List TypeId} (hnew : e.id ∉ taken) :
    Spells Layout.typeEntry (Load.entry taken) e.json e := by
  have hdefinition := TypeDef.spelled h.definition
  have hparameters := spells_list fun p hp => TypeParameter.spelled (h.parameters p hp)
  -- What is under the number is an object of its own, with the definition in it.
  have hmembers : (Layout.ofKind .object
      [.required ["def"],
        .properties
          [("def", Layout.ref Layout.typeDef), ("path", Layout.arrayOf Layout.text),
            ("params", Layout.arrayOf Layout.parameter), ("docs", Layout.docs)]]).Accepts (.obj e.members) := by
    refine object_accepts ?_ ?_
    · simp [members]
    · simp [members, hdefinition.ref.valid, linesJson_accepts, hparameters.1, docs_accepts]
  constructor
  · refine object_accepts ?_ ?_
    · simp
    · simp [Layout.typeId_accepts, hmembers]
  · intro place
    have hfree : ¬ taken.contains e.id = true := by simpa using hnew
    have hdef : Load.get e.members "def" = e.definition.json := by simp [Load.get, members]
    refine bind_ok_iff.2 ⟨_, rfl, bind_ok_iff.2 ⟨e.id, naturalMember_ok (by simp) place, ?_⟩⟩
    rw [if_neg hfree]
    refine bind_ok_iff.2 ⟨e.members, objectMember_ok (by simp) place, ?_⟩
    refine bind_ok_iff.2 ⟨e.definition, hdef ▸ hdefinition.reads _, ?_⟩
    refine bind_ok_iff.2 ⟨e.parameters, bind_ok_iff.2 ⟨_, asArray_ok (by simp [members]) _, hparameters.2 _⟩, ?_⟩
    refine bind_ok_iff.2 ⟨e.path, stringsMember_ok (by simp [members]) _, ?_⟩
    exact bind_ok_iff.2 ⟨e.docs, stringsMember_ok (by simp [members]) _, rfl⟩

/-- Entries with different numbers are read one after the other. The induction
is on the entries, with the numbers that are taken: each entry adds its own. -/
theorem entriesFrom_ok {es : List Entry} {taken : List TypeId} (h : ∀ e ∈ es, e.WellFormed)
    (hnodup : (es.map (·.id)).Nodup) (hnew : ∀ e ∈ es, e.id ∉ taken) (place : Path) (i : Nat) :
    Load.entriesFrom place taken i (es.map Entry.json) = .ok es := by
  induction es generalizing taken i with
  | nil => rfl
  | cons e es ih =>
    obtain ⟨he, hes⟩ := List.forall_mem_cons.1 h
    obtain ⟨hfree, hlater⟩ := List.forall_mem_cons.1 hnew
    rw [List.map_cons, List.nodup_cons] at hnodup
    refine bind_ok_iff.2 ⟨e, (Entry.spelled he hfree).reads _, bind_ok_iff.2 ⟨es, ih hes hnodup.2 ?_ _, rfl⟩⟩
    intro e' he' hmem
    rcases List.mem_cons.1 hmem with heq | hmem
    · exact hnodup.1 (heq ▸ List.mem_map_of_mem he')
    · exact hlater e' he' hmem

/-! ## Signatures -/

/-- A reference to a type in a signature is spelled by its document. The path
that is displayed stands there for the schema; the reader does not look at
it. -/
theorem typeRef_spelled (id : TypeId) : Spells Layout.typeRef Load.typeRef (typeRefJson id) id where
  valid := by
    refine object_accepts ?_ ?_
    · simp
    · simp [Layout.typeId_accepts, linesJson_accepts]
  reads place := bind_ok_iff.2 ⟨_, rfl, naturalMember_ok (by simp) place⟩

/-- An argument is spelled by its document. Readers of events ask for one member
more than readers of methods, and for methods the model must say what the reader
puts in its place. -/
theorem Argument.spelled {ofEvent : Bool} {a : Argument} (h : a.WellFormed ofEvent) :
    Spells Layout.argument (Load.argument ofEvent) (a.json ofEvent) a where
  valid := by
    refine object_accepts ?_ ?_
    · simp [members]
    · simp [members, ref_accepts, Layout.label_accepts h.label, (typeRef_spelled a.typeId).valid, Layout.flag_accepts,
        docs_accepts]
  reads place := by
    have htype : Load.get (a.members ofEvent) "type" = typeRefJson a.typeId := by simp [Load.get, members]
    have hreference : ∀ p, Load.typeRef p (Load.get (a.members ofEvent) "type") = .ok a.typeId :=
      fun p => htype ▸ (typeRef_spelled a.typeId).reads p
    cases ofEvent
    case' false =>
      refine bind_ok_iff.2 ⟨_, rfl, bind_ok_iff.2 ⟨a.indexed, congrArg Except.ok (h.indexed rfl).symm, ?_⟩⟩
    case' true =>
      refine bind_ok_iff.2 ⟨_, rfl, bind_ok_iff.2 ⟨a.indexed, flagMember_ok (by simp [members]) place, ?_⟩⟩
    all_goals
      refine bind_ok_iff.2 ⟨a.label, stringMember_ok (by simp [members]) h.label place, ?_⟩
      refine bind_ok_iff.2 ⟨a.typeId, hreference _, ?_⟩
      exact bind_ok_iff.2 ⟨a.docs, stringsMember_ok (by simp [members]) place, rfl⟩

section

variable {isConstructor ofEvent : Bool} {args : List Argument}

/-- Arguments satisfy their schema. -/
theorem args_accept (h : ∀ a ∈ args, a.WellFormed ofEvent) :
    (Layout.arrayOf (Layout.ref Layout.argument)).Accepts (.arr (args.map (Argument.json ofEvent))) :=
  (spells_list fun a ha => (Argument.spelled (h a ha)).ref).1

/-- Arguments under their key are read back, one after the other. -/
theorem argumentsMember_ok {members : Load.Members} (h : ∀ a ∈ args, a.WellFormed ofEvent)
    (hargs : find? members "args" = some (.arr (args.map (Argument.json ofEvent)))) (place : Path) :
    Load.argumentsMember ofEvent place members = .ok args :=
  bind_ok_iff.2 ⟨_, asArray_ok hargs _, (spells_list fun a ha => Argument.spelled (h a ha)).2 _⟩

end

/-- A return type is null or a reference to a type. -/
theorem returnType_accepts (id : Option TypeId) :
    (Schema.ofKeywords [.oneOf [Layout.ofKind .null [], Layout.ref Layout.typeRef]]).Accepts
      ((id.map typeRefJson).getD .null) := by
  rw [Schema.Accepts, only_ofKeywords_iff, List.forall_mem_singleton, only_oneOf_iff]
  cases id with
  | none => exact .inl ⟨_, List.mem_cons_self, Layout.only_ofKind_iff.2 ⟨.inl rfl, List.forall_mem_nil _⟩⟩
  | some id => exact .inl ⟨_, List.mem_cons_of_mem _ List.mem_cons_self, (typeRef_spelled id).ref.valid⟩

/-- **A method is spelled by its document.** Constructors and messages have one
layout, and the readers differ in one member: whether the state changes is asked
of messages only. Selectors and return types are optional for both. -/
theorem Method.spelled {isConstructor : Bool} {m : Method} (h : m.Expressible isConstructor) :
    Spells Layout.method (Load.method isConstructor) (m.json isConstructor) m where
  valid := by
    have hselector : ∀ bs, m.selector = some bs → Layout.selector.Accepts (hexJson bs) :=
      fun bs hbs => selector_accepts (h.selector bs hbs)
    have hname : ∀ s, m.selectorName = some s → Layout.label.Accepts (.str s) :=
      fun s hs => Layout.label_accepts fun hempty => h.selectorName (hempty ▸ hs)
    refine object_accepts ?_ ?_
    · simp [members]
    · simpa [members, ref_accepts, Layout.label_accepts h.label, args_accept h.args, returnType_accepts,
        Layout.flag_accepts, docs_accepts] using ⟨hselector, hname⟩
  reads place := by
    have hreturn : Load.get (m.members isConstructor) "returnType" = (m.returnType.map typeRefJson).getD .null := by
      simp [Load.get, members]
    have hselector : Load.get (m.members isConstructor) "selector" = (m.selector.map hexJson).getD .null := by
      simp [Load.get, members]
    have hreturnType : ∀ p, Load.optional Load.typeRef p (Load.get (m.members isConstructor) "returnType") =
        .ok m.returnType := by
      intro p
      rw [hreturn]
      exact optional_ok typeRefJson (fun _ => nofun) (fun id _ => (typeRef_spelled id).reads) p
    have hselectorBytes : ∀ p, Load.optional (Load.hexOfLength 4) p (Load.get (m.members isConstructor) "selector") =
        .ok m.selector := by
      intro p
      rw [hselector]
      exact optional_ok hexJson (fun _ => nofun) (fun bs hbs => hexOfLength_hexJson (h.selector bs hbs)) p
    -- Constructors are not asked whether they change the state; they are taken to.
    cases isConstructor
    case' true =>
      refine bind_ok_iff.2 ⟨_, rfl, bind_ok_iff.2 ⟨m.mutates, congrArg Except.ok (h.mutates rfl).symm, ?_⟩⟩
    case' false =>
      refine bind_ok_iff.2 ⟨_, rfl, bind_ok_iff.2 ⟨m.mutates, booleanMember_ok (by simp [members]) place, ?_⟩⟩
    all_goals
      refine bind_ok_iff.2 ⟨m.label, stringMember_ok (by simp [members]) h.label place, ?_⟩
      refine bind_ok_iff.2 ⟨m.args, argumentsMember_ok h.args (by simp [members]) place, ?_⟩
      refine bind_ok_iff.2 ⟨m.returnType, hreturnType _, ?_⟩
      refine bind_ok_iff.2 ⟨m.payable, flagMember_ok (by simp [members]) place, ?_⟩
      refine bind_ok_iff.2 ⟨m.selector, hselectorBytes _, ?_⟩
      refine bind_ok_iff.2 ⟨m.selectorName, optionalStringMember_ok (by simp [members]) place, ?_⟩
      exact bind_ok_iff.2 ⟨m.docs, stringsMember_ok (by simp [members]) place, rfl⟩

/-- Messages satisfy the schema of methods and say whether they change the
state. -/
theorem message_accepts {m : Method} (h : m.Expressible false) : Layout.message.Accepts (m.json false) := by
  rw [Schema.Accepts, Layout.message, only_ofKeywords_iff, List.forall_mem_singleton, only_allOf_iff,
    List.forall_mem_cons, List.forall_mem_singleton, only_ofKeywords_iff, List.forall_mem_singleton]
  refine ⟨(Method.spelled h).ref.valid, only_required_iff.2 ?_⟩
  simp [Method.members]

/-- An event is spelled by its document. -/
theorem Event.spelled {e : Event} (h : e.WellFormed) : Spells Layout.event Load.event e.json e where
  valid := by
    refine object_accepts ?_ ?_
    · simp
    · simp [ref_accepts, Layout.label_accepts h.label, args_accept h.args, docs_accepts]
  reads place := by
    refine bind_ok_iff.2 ⟨_, rfl, bind_ok_iff.2 ⟨e.label, stringMember_ok (by simp) h.label place, ?_⟩⟩
    refine bind_ok_iff.2 ⟨e.args, argumentsMember_ok h.args (by simp) place, ?_⟩
    exact bind_ok_iff.2 ⟨e.docs, stringsMember_ok (by simp) place, rfl⟩

/-! ## Documents -/

section

variable {hash : HashFunction} {m : Metadata}

/-- What stands under `source` satisfies the schema, with the hash and the code
in digits or left out. -/
theorem source_accepts (m : Metadata) : (Layout.ofKind .object
    [.properties [("hash", Layout.ref Layout.hex), ("wasm", Layout.ref Layout.hex), ("language", Layout.text),
      ("compiler", Layout.text)]]).Accepts (.obj m.sourceMembers) := by
  refine members_accept ?_
  simp [Metadata.sourceMembers, ref_accepts, hex_accepts]

/-- What stands under `contract` satisfies the schema. -/
theorem contract_accepts (h : m.WellFormed hash) : (Layout.ofKind .object
    [.required ["name"],
      .properties [("name", Layout.label), ("version", Layout.text), ("authors", Layout.arrayOf Layout.text)]]).Accepts
    (.obj m.contractMembers) := by
  refine object_accepts ?_ ?_
  · simp [Metadata.contractMembers]
  · simp [Metadata.contractMembers, Layout.label_accepts h.contractName, Layout.text_accepts]

/-- What stands under `spec` satisfies the schema. Messages are held to one key
more than constructors. -/
theorem spec_accepts (h : m.WellFormed hash) : (Layout.ofKind .object
    [.required ["constructors", "messages"],
      .properties
        [("constructors", Layout.arrayOf (Layout.ref Layout.method)), ("messages", Layout.arrayOf Layout.message),
          ("events", Layout.arrayOf (Layout.ref Layout.event)), ("docs", Layout.docs)]]).Accepts
    (.obj m.specMembers) := by
  have hconstructors := arrayOf_accepts fun c hc => (Method.spelled (h.constructors c hc)).ref.valid
  have hmessages := arrayOf_accepts fun c hc => message_accepts (h.messages c hc)
  have hevents := arrayOf_accepts fun e he => (Event.spelled (h.events e he)).ref.valid
  refine object_accepts ?_ ?_
  · simp [Metadata.specMembers]
  · simp [Metadata.specMembers, hconstructors, hmessages, hevents]

/-- **The document of a model has the layout.** -/
theorem document_accepts (h : m.WellFormed hash) : Layout.document.Accepts m.json := by
  have hversion : (Schema.ofKeywords [.oneOf [Layout.text, Layout.ofKind .integer []]]).Accepts (.str "4") := by
    rw [Schema.Accepts, only_ofKeywords_iff, List.forall_mem_singleton, only_oneOf_iff]
    exact .inl ⟨_, List.mem_cons_self, Layout.text_accepts "4"⟩
  have htypes := arrayOf_accepts fun e he => (Entry.spelled (h.types e he) List.not_mem_nil).ref.valid
  refine object_accepts ?_ ?_
  · simp [Metadata.members]
  · simp [Metadata.members, hversion, source_accepts, contract_accepts h, spec_accepts h, htypes]

/-- The hash and the code under `source` are read back, and agree. A well-formed
model has the hash of its code, so the comparison of the two succeeds. -/
theorem source_ok (h : m.WellFormed hash) (place : Path) :
    Load.source hash place (.obj m.sourceMembers) = .ok (m.sourceHash, m.wasm) := by
  have hhash : Load.get m.sourceMembers "hash" = (m.sourceHash.map hexJson).getD .null := by
    simp [Load.get, Metadata.sourceMembers]
  have hwasm : Load.get m.sourceMembers "wasm" = (m.wasm.map hexJson).getD .null := by
    simp [Load.get, Metadata.sourceMembers]
  have hdeclared : ∀ p, Load.optional (Load.hexOfLength 32) p (Load.get m.sourceMembers "hash") = .ok m.sourceHash := by
    intro p
    rw [hhash]
    exact optional_ok hexJson (fun _ => nofun) (fun bs hbs => hexOfLength_hexJson (h.sourceHash bs hbs)) p
  have hcode : ∀ p, Load.optional Load.hex p (Load.get m.sourceMembers "wasm") = .ok m.wasm := by
    intro p
    rw [hwasm]
    exact optional_ok hexJson (fun _ => nofun) (fun bs _ => hex_hexJson bs) p
  refine bind_ok_iff.2 ⟨_, rfl, bind_ok_iff.2 ⟨_, hdeclared _, bind_ok_iff.2 ⟨_, hcode _, ?_⟩⟩⟩
  cases hsource : m.sourceHash with
  | none => cases m.wasm <;> rfl
  | some declared =>
    cases hembedded : m.wasm with
    | none => rfl
    | some code => exact if_pos (h.sourceAgrees declared code hsource hembedded)

/-- **The document of a model loads to the model,** with the layout checked or
not. The members are read in the order in which loading reads them; each was
written by a lemma of its own above, which says that it is read back from any
document. -/
theorem members_ok (h : m.WellFormed hash) (strict : Bool) : Load.members hash strict m.members = .ok m := by
  have hversion : Load.checkVersion m.members = .ok () := by
    simp [Load.checkVersion, Load.get, Metadata.members]
  have hlayout : Load.checkLayout m.json = .ok () := by
    rw [Load.checkLayout, Schema.reported, accepts_iff.1 (document_accepts h)]
    rfl
  have hconstructors := spells_list fun c hc => Method.spelled (h.constructors c hc)
  have hmessages := spells_list fun c hc => Method.spelled (h.messages c hc)
  have hevents := spells_list fun e he => Event.spelled (h.events e he)
  have hsource : Load.get m.members "source" = .obj m.sourceMembers := by simp [Load.get, Metadata.members]
  refine bind_ok_iff.2 ⟨(), hversion, ?_⟩
  -- The layout is one more step in front; what follows is the same with and without it.
  cases strict
  case' true => refine bind_ok_iff.2 ⟨(), hlayout, ?_⟩
  all_goals
    refine bind_ok_iff.2 ⟨_, arrayMember_ok (by simp [Metadata.members]; rfl) _, ?_⟩
    refine bind_ok_iff.2 ⟨m.types, entriesFrom_ok h.types h.numbers (fun _ _ => List.not_mem_nil) _ _, ?_⟩
    refine bind_ok_iff.2 ⟨m.specMembers, objectMember_ok (by simp [Metadata.members]) _, ?_⟩
    refine bind_ok_iff.2 ⟨_, arrayMember_ok (by simp [Metadata.specMembers]; rfl) _, ?_⟩
    refine bind_ok_iff.2 ⟨m.constructors, hconstructors.2 _, ?_⟩
    refine bind_ok_iff.2 ⟨_, arrayMember_ok (by simp [Metadata.specMembers]; rfl) _, ?_⟩
    refine bind_ok_iff.2 ⟨m.messages, hmessages.2 _, ?_⟩
    refine bind_ok_iff.2 ⟨_, asArray_ok (by simp [Metadata.specMembers]; rfl) _, ?_⟩
    refine bind_ok_iff.2 ⟨m.events, hevents.2 _, ?_⟩
    refine bind_ok_iff.2 ⟨m.contractMembers, objectMember_ok (by simp [Metadata.members]) _, ?_⟩
    refine bind_ok_iff.2 ⟨m.contractName, stringMember_ok (by simp [Metadata.contractMembers]) h.contractName _, ?_⟩
    refine bind_ok_iff.2 ⟨some m.contractVersion, optionalStringMember_ok (by simp [Metadata.contractMembers]) _, ?_⟩
    exact bind_ok_iff.2 ⟨(m.sourceHash, m.wasm), hsource ▸ source_ok h _, rfl⟩

/-- **Loading undoes spelling out.** The document of a well-formed model has the
layout, and it loads to the model whether the layout is checked or not. -/
theorem load_spelled (h : m.WellFormed hash) :
    Layout.document.violations m.json = [] ∧ ∀ strict, (Document.value m.json).load hash strict = .ok m :=
  ⟨accepts_iff.1 (document_accepts h), fun strict => bind_ok_iff.2 ⟨m.members, rfl, members_ok h strict⟩⟩

/-- A model with a definition of every kind, parameters with a type and without
one, arms up to the last index, and all that is optional once there and once
left out. -/
def tokenModel : Metadata where
  contractName := "token"
  contractVersion := ""
  types :=
    [{ id := 3, definition := .primitive (.unsigned .w8) },
      { id := 0,
        definition := .composite [{ typeId := 3, name := some "owner", typeName := some "Key" }, { typeId := 9 }],
        path := ["token", "Pair"], parameters := [{ name := "T", typeId := some 3 }, { name := "U" }],
        docs := ["A pair.", ""] },
      { id := 1, definition := .variant [{ name := "None", index := 0 },
          { name := "Some", index := 255, fields := [{ typeId := 3 }], docs := ["One."] }], path := ["Option"] },
      { id := 2, definition := .sequence 3 }, { id := 4, definition := .array 3 32 },
      { id := 5, definition := .tuple [3, 2] }, { id := 6, definition := .compact 3 }]
  constructors :=
    [{ label := "new", args := [{ label := "supply", typeId := 6, docs := ["How many."] }], returnType := some 1,
       payable := true, selector := some [0x9b, 0xae, 0x9d, 0x5e], selectorName := some "new" }]
  messages := [{ label := "PSP22::transfer", args := [{ label := "to", typeId := 0 }], docs := ["Moves tokens."] },
    { label := "total", mutates := false, returnType := some 3 }]
  events := [{ label := "Transfer", args := [{ label := "to", typeId := 0, indexed := true },
    { label := "value", typeId := 3 }] }]
  sourceHash := some (List.replicate 32 7)
  wasm := some [0x00, 0x61, 0x73, 0x6d]

/-- It comes back from its document. The model has a composite, a variant, a
constructor, messages and an event, so each of the conditions of `WellFormed` is
met by something. -/
theorem load_spelled_token : tokenModel.WellFormed (fun _ => List.replicate 32 7) ∧
    Layout.document.violations tokenModel.json = [] ∧
    ∀ strict, (Document.value tokenModel.json).load (fun _ => List.replicate 32 7) strict = .ok tokenModel := by
  have hargument : ∀ ofEvent, ∀ a : Argument, a.label ≠ "" → (ofEvent = false → a.indexed = false) →
      a.WellFormed ofEvent := fun _ _ hlabel hindexed => ⟨hlabel, hindexed⟩
  have hwell : tokenModel.WellFormed (fun _ => List.replicate 32 7) := by
    refine ⟨by decide, by decide, ?_, ?_, ?_, ?_, ?_, ?_⟩
    · simp only [tokenModel, List.forall_mem_cons]
      refine ⟨⟨trivial, nofun⟩, ⟨trivial, ?_⟩, ⟨?_, nofun⟩, ⟨trivial, nofun⟩, ⟨trivial, nofun⟩, ⟨trivial, nofun⟩,
        ⟨trivial, nofun⟩, nofun⟩
      · simp only [List.forall_mem_cons]
        exact ⟨⟨by decide, by simp⟩, ⟨by decide, nofun⟩, nofun⟩
      · simp only [TypeDef.WellFormed, List.forall_mem_cons]
        exact ⟨⟨by decide, by decide⟩, ⟨by decide, by decide⟩, nofun⟩
    · simp only [tokenModel, List.forall_mem_singleton]
      exact ⟨by decide, by simp [hargument], fun _ => rfl, by simp, by decide⟩
    · simp only [tokenModel, List.forall_mem_cons]
      exact ⟨⟨by decide, by simp [hargument], nofun, nofun, by decide⟩,
        ⟨by decide, nofun, nofun, nofun, by decide⟩, nofun⟩
    · simp only [tokenModel, List.forall_mem_singleton]
      exact ⟨by decide, by simp [hargument]⟩
    · simp [tokenModel]
    · simp [tokenModel]
  exact ⟨hwell, load_spelled hwell⟩

end

end ContractClient
