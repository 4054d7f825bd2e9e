/-
What loading lets through without the schema.

The schema and the loader judge a document apart from each other, and the schema
asks for more: the loader passes over members that it has no use for, takes null
for a member that may be left out, and leaves the bound of an arm's index to a
later step. All of this is listed in `Violation.LetPass`. Four further
differences, in which the loader falls short of what its readers do elsewhere,
are listed in `Violation.Overlooked`. Nothing else gets through: in a document
that loads every violation of the schema is on one of the two lists.

This is shown reader by reader: where reading a value succeeds, the schema for
values of this form is violated in listed ways only. What is listed depends on
the place in the document, so the place is carried along, `Listed`.
-/
import ContractClient.Proofs.Metadata.Violations
import ContractClient.Proofs.Keys
import ContractClient.Proofs.Metadata.Inversion

set_option autoImplicit false

namespace ContractClient

open Json

namespace Json

/-- The keys on a path. -/
def Path.keys (p : Path) : List String :=
  p.filterMap fun
    | .key k => some k
    | .index _ => none

/-- The violations of the branches of a failed choice, with paths from the
chosen value. -/
def Violation.branches : Violation → List Violation
  | .of _ _ _ branches => branches

/-- The members that loading does not read, by the keys that lead to them. -/
def unreadPlaces : List (List String) :=
  [["source", "language"], ["source", "compiler"], ["contract", "authors"], ["spec", "docs"], ["displayName"],
    ["default"], ["constructors", "mutates"], ["constructors", "args", "indexed"], ["messages", "args", "indexed"]]

/-- The members for which null counts as if they were left out. The second line
has the lists among them: the schema asks for none of them either. -/
def nullablePlaces : List (List String) :=
  [["source"], ["source", "hash"], ["source", "wasm"], ["contract", "version"], ["selector"], ["selectorName"],
    ["payable"], ["indexed"],
    ["docs"], ["path"], ["params"], ["fields"], ["variants"], ["events"]]

/-- The lists that the schema asks for. -/
def neededLists : List (List String) :=
  [["types"], ["constructors"], ["messages"], ["args"], ["tuple"]]

/-- A violation that loading lets pass. Each of these is a rule of the loader:
which members it reads, what null and an empty selector name stand for, and
which bounds are checked when the types are resolved. -/
inductive Violation.LetPass (x : Violation) : Prop
  /-- In a member that is not read. -/
  | unread {place : List String} (hplace : place ∈ unreadPlaces) (h : place <:+: x.path.keys)
  /-- Null for a member that may be left out. -/
  | nullMember {kinds : List Kind} {place : List String} (hplace : place ∈ nullablePlaces)
      (h : x.complaint = .notOfKinds .null kinds) (hpath : place <:+ x.path.keys)
  /-- An empty selector name, which counts as none. -/
  | emptySelectorName (h : x.complaint = .empty (.str "")) (hpath : ["selectorName"] <:+ x.path.keys)
  /-- An index of an arm above the last one that can be encoded. -/
  | highIndex {v : Json} (h : x.complaint = .aboveMaximum v 255) (hpath : ["variants", "index"] <:+ x.path.keys)
  /-- A return type with nothing wrong but its display name: it is neither null
  nor a reference to a type. -/
  | displayName {v : Json} (h : x.complaint = .noBranch v) (hpath : ["returnType"] <:+ x.path.keys)
      (hbranches : ∀ y ∈ x.branches, y.complaint = .notOfKinds v [.null] ∨ ["displayName"] <:+: y.path.keys)

/-- A violation that loading misses. Nothing is claimed of these beyond that
they are the only ones: the loader rejects null for every other member that has
to be there, a negative number wherever else it reads the number of a type, and
a list that is missing elsewhere. -/
inductive Violation.Overlooked (x : Violation) : Prop
  /-- The arguments of a method or an event are missing. -/
  | noArguments (h : x.complaint = .missingKey "args")
  /-- Null for a list that has to be there, which is read as an empty one. -/
  | nullList {place : List String} (hplace : place ∈ neededLists) (h : x.complaint = .notOfKinds .null [.array])
      (hpath : place <:+ x.path.keys)
  /-- A negative number for the type of a parameter, which names no type. -/
  | negativeParameter {v : Json} (h : x.complaint = .belowMinimum v 0) (hpath : ["params", "type"] <:+ x.path.keys)
  /-- There are blanks between the bytes of a text in hexadecimal, which is read
  all the same. -/
  | blanks {s digits expression : String} {bs : Bytes} (h : x.complaint = .noMatch (.str s) expression)
      (hdigits : Bytes.after0x? s = some digits) (hbytes : Bytes.ofHex? digits = some bs)
      (hblank : ∃ c ∈ digits.toList, Bytes.isHexBlank c = true)

/-- Whether a violation, seen from further out, is on one of the lists. -/
def Listed (outer : Path) (x : Violation) : Prop :=
  (x.within outer).LetPass ∨ (x.within outer).Overlooked

section

variable {outer : Path} {place : List String}

/-- The keys on a path that goes on are those of its front and those of its
back. -/
@[simp] theorem keys_append (p q : Path) : Path.keys (p ++ q) = p.keys ++ q.keys :=
  List.filterMap_append

@[simp] theorem keys_key (k : String) : Path.keys [.key k] = [k] :=
  rfl

@[simp] theorem keys_index (i : Nat) : Path.keys [.index i] = [] :=
  rfl

@[simp] theorem keys_nil : Path.keys [] = [] :=
  rfl

/-- Seen from further out, a violation stands on the longer path. -/
theorem path_within (x : Violation) (outer : Path) : (x.within outer).path = outer ++ x.path := by
  cases x
  rfl

/-- Whether a violation is listed does not depend on where it is seen from, as
long as the whole way to it is counted. This is what lets a schema be taken
apart: what holds of a member from inside holds of it from outside. -/
theorem listed_within {inner : Path} {x : Violation} :
    Listed outer (x.within inner) ↔ Listed (outer ++ inner) x := by
  cases x
  simp only [Listed, Violation.within, List.append_assoc]

/-- A member that ends a path of keys ends the longer one as well. -/
theorem suffix_key (h : place <:+ outer.keys) (k : String) : place ++ [k] <:+ Path.keys (outer ++ [.key k]) := by
  obtain ⟨front, hfront⟩ := h
  exact ⟨front, by rw [keys_append, keys_key, ← List.append_assoc, hfront]⟩

/-- Positions are no keys, so the items of a list are at the place of the
list. -/
theorem suffix_index (h : place <:+ outer.keys) (i : Nat) : place <:+ Path.keys (outer ++ [.index i]) := by
  rwa [keys_append, keys_index, List.append_nil]

/-! ## What is listed -/

/-- Inside a member that is not read everything is listed. -/
theorem listed_unread (hplace : place ∈ unreadPlaces) (h : place <:+ outer.keys) (x : Violation) : Listed outer x := by
  refine .inl (.unread hplace ?_)
  rw [path_within, keys_append]
  exact h.isInfix.trans (List.prefix_append _ _).isInfix

/-- Null for a member that may be left out is passed over. The schema lets such
a member be missing, but not be null. -/
theorem listed_nullMember {kinds : List Kind} {fits : Bool} (hplace : place ∈ nullablePlaces)
    (h : place <:+ outer.keys) : Listed outer (.of [] (.notOfKinds .null kinds) fits []) := by
  refine .inl (.nullMember hplace rfl ?_)
  rwa [path_within, keys_append, Violation.path, keys_nil, List.append_nil]

/-- Null where a schema asks for a list: by rule if the list may be left out,
and overlooked if it may not. -/
theorem listed_null_array {schema : Schema} (hplace : place ∈ nullablePlaces ∨ place ∈ neededLists)
    (h : place <:+ outer.keys) : (Layout.arrayOf schema).Only (Listed outer) .null := by
  rw [Layout.arrayOf, Layout.only_ofKind_iff, List.forall_mem_singleton]
  refine ⟨.inr ?_, fun _ hx => absurd hx List.not_mem_nil⟩
  rcases hplace with hnullable | hneeded
  · exact listed_nullMember hnullable h
  · refine .inr (.nullList hneeded rfl ?_)
    rwa [path_within, keys_append, Violation.path, keys_nil, List.append_nil]

end

end Json

namespace Load

/-! ## Lists and objects -/

section

variable {place outer : Path} {listPlace : List String} {v : Json}

/-- The violations in a member are listed from outside as they are from
inside. -/
theorem only_within_key {schema : Schema} {k : String} (h : schema.Only (Listed (outer ++ [.key k])) v) :
    schema.Only (fun x => Listed outer (x.within [.key k])) v :=
  h.imp fun _ => listed_within.2

/-- An array that was read, or null in its place. -/
theorem arrayOf_listed {schema : Schema} {items : List Json} (h : asArray place v = .ok items)
    (hat : listPlace ∈ nullablePlaces ∨ listPlace ∈ neededLists) (houter : listPlace <:+ outer.keys)
    (hitems : ∀ item ∈ items, ∀ i, schema.Only (Listed (outer ++ [.index i])) item) :
    (Layout.arrayOf schema).Only (Listed outer) v := by
  rcases asArray_eq_ok h with rfl | rfl
  · exact listed_null_array hat houter
  · refine Layout.only_arrayOf_iff.2 fun p hp => ?_
    exact (hitems p.1 (List.fst_mem_of_mem_zipIdx hp) p.2).imp fun _ => listed_within.2

/-- A list that was read item by item. -/
theorem list_listed {α : Type} {read : Path → Json → Except LoadError α} {schema : Schema} {items : List Json}
    {as : List α} (hitems : asArray place v = .ok items) (has : each place read items = .ok as)
    (hat : listPlace ∈ nullablePlaces ∨ listPlace ∈ neededLists) (houter : listPlace <:+ outer.keys)
    (hread : ∀ item a place i, read place item = .ok a → schema.Only (Listed (outer ++ [.index i])) item) :
    (Layout.arrayOf schema).Only (Listed outer) v := by
  refine arrayOf_listed hitems hat houter fun item hitem i => ?_
  obtain ⟨_, a, ha⟩ := each_eq_ok has item hitem
  exact hread item a _ i ha

/-- An object violates its schema in listed ways if its members do and if it is
listed when a required key is missing. For most objects the reader has found all
required keys; only `args` is not asked for. -/
theorem object_listed {keys : List String} {schemas : List (String × Schema)} {members : Members}
    (hkeys : ∀ key ∈ keys, find? members key = none → Listed outer (.of [] (.missingKey key) true []))
    (hmembers : ∀ p ∈ schemas, ∀ v, find? members p.1 = some v → p.2.Only (Listed (outer ++ [.key p.1])) v) :
    (Layout.ofKind .object [.required keys, .properties schemas]).Only (Listed outer) (.obj members) :=
  Layout.only_object_iff.2 ⟨hkeys, fun p hp v hv => only_within_key (hmembers p hp v hv)⟩

/-- The same for objects of which no key is required. -/
theorem members_listed {schemas : List (String × Schema)} {members : Members}
    (hmembers : ∀ p ∈ schemas, ∀ v, find? members p.1 = some v → p.2.Only (Listed (outer ++ [.key p.1])) v) :
    (Layout.ofKind .object [.properties schemas]).Only (Listed outer) (.obj members) :=
  Layout.only_members_iff.2 fun p hp v hv => only_within_key (hmembers p hp v hv)

/-- A list of texts that may be left out. -/
theorem strings_listed {lines : List String} (h : strings place v = .ok lines) (hplace : listPlace ∈ nullablePlaces)
    (houter : listPlace <:+ outer.keys) : (Layout.arrayOf Layout.text).Only (Listed outer) v := by
  obtain ⟨items, hitems, hlines⟩ := bind_ok_iff.1 h
  refine list_listed hitems hlines (.inl hplace) houter fun item s _ i hs => ?_
  rw [asString_eq_ok hs]
  exact (Layout.text_accepts s).only _

/-- Documentation, wherever it stands: a list of texts that every declaration
may leave out. -/
theorem docs_listed {members : Members} {lines : List String} (h : stringsMember place members "docs" = .ok lines)
    (hv : find? members "docs" = some v) : Layout.docs.Only (Listed (outer ++ [.key "docs"])) v := by
  rw [stringsMember, get_eq_of_find? hv] at h
  exact Layout.only_ref_iff.2 (strings_listed h (by simp [nullablePlaces]) (suffix_key List.nil_suffix "docs"))

/-- A natural number that was read violates nothing, whatever the place is. -/
theorem typeId_listed {members : Members} {key : String} {n : Nat} (h : naturalMember place members key = .ok n)
    (hv : find? members key = some v) : Layout.typeId.Only (Listed outer) v := by
  cases (find?_of_naturalMember h).symm.trans hv
  exact (Layout.typeId_accepts (by simp)).only _

/-- A text that may be left out may be null for the schema as well. It is the
only form of the layout that allows it by name. -/
theorem optionalText_listed {members : Members} {key : String} {s : Option String}
    (h : optionalStringMember place members key = .ok s) (hv : find? members key = some v) :
    Layout.optionalText.Only (Listed outer) v := by
  rw [Layout.optionalText, only_ofKeywords_iff, List.forall_mem_singleton, only_kinds_iff]
  rcases optionalStringMember_eq_ok h hv with rfl | ⟨text, -, rfl⟩
  · exact .inl rfl
  · exact .inl rfl

/-- A label that was read is not empty, and that is all that the schema asks of
it. -/
theorem label_listed {members : Members} {key s : String} (h : stringMember place members key = .ok s)
    (hv : find? members key = some v) : Layout.label.Only (Listed outer) v := by
  obtain ⟨hfound, hne⟩ := find?_of_stringMember h
  cases hfound.symm.trans hv
  exact (Layout.label_accepts hne).only _

/-! ## Types -/

/-- What is wrong with a field that was read is listed. It can only be null for
its documentation. -/
theorem field_listed {f : Field} (h : field place v = .ok f) : Layout.field.Only (Listed outer) v := by
  obtain ⟨members, hmembers, h⟩ := bind_ok_iff.1 h
  obtain ⟨typeId, htype, h⟩ := bind_ok_iff.1 h
  obtain ⟨name, hname, h⟩ := bind_ok_iff.1 h
  obtain ⟨typeName, htypeName, h⟩ := bind_ok_iff.1 h
  obtain ⟨docs, hdocs, -⟩ := bind_ok_iff.1 h
  cases asObject_eq_ok hmembers
  refine object_listed ?_ ?_
  · simp [find?_of_naturalMember htype]
  · simp only [List.forall_mem_cons]
    exact ⟨fun _ => optionalText_listed hname, fun _ => typeId_listed htype, fun _ => optionalText_listed htypeName,
      fun _ => docs_listed hdocs, List.forall_mem_nil _⟩

/-- The fields of a composite or of an arm, which either may leave out. -/
theorem fields_listed {members : Members} {fields : List Field} (h : fieldsMember place members = .ok fields)
    (hv : find? members "fields" = some v) : Layout.fields.Only (Listed (outer ++ [.key "fields"])) v := by
  obtain ⟨items, hitems, hfields⟩ := bind_ok_iff.1 h
  rw [get_eq_of_find? hv] at hitems
  have hplace : ["fields"] ∈ nullablePlaces := by simp [nullablePlaces]
  refine Layout.only_ref_iff.2 (list_listed hitems hfields (.inl hplace) (suffix_key List.nil_suffix "fields")
    fun item f _ i hf => Layout.only_ref_iff.2 ?_)
  exact field_listed hf

/-- What is wrong with an arm that was read is listed: its index may be too
high, and its lists may be null. -/
theorem arm_listed {a : Arm} (houter : ["variants"] <:+ outer.keys) (h : arm place v = .ok a) :
    Layout.arm.Only (Listed outer) v := by
  obtain ⟨members, hmembers, h⟩ := bind_ok_iff.1 h
  obtain ⟨name, hname, h⟩ := bind_ok_iff.1 h
  obtain ⟨index, hindex, h⟩ := bind_ok_iff.1 h
  obtain ⟨fields, hfields, h⟩ := bind_ok_iff.1 h
  obtain ⟨docs, hdocs, -⟩ := bind_ok_iff.1 h
  cases asObject_eq_ok hmembers
  refine object_listed ?_ ?_
  · simp [(find?_of_stringMember hname).1, find?_of_naturalMember hindex]
  · simp only [List.forall_mem_cons]
    refine ⟨fun _ hv => Layout.only_ref_iff.2 (label_listed hname hv), fun w hv => ?_, fun _ => fields_listed hfields,
      fun _ => docs_listed hdocs, List.forall_mem_nil _⟩
    cases (find?_of_naturalMember hindex).symm.trans hv
    rw [Layout.only_ofKind_iff, List.forall_mem_cons, List.forall_mem_singleton, only_minimum_iff, only_maximum_iff]
    refine ⟨.inl rfl, fun hneg => by omega, fun _ => .inl (.highIndex rfl ?_)⟩
    rw [path_within, Violation.path, List.append_nil]
    exact suffix_key houter "index"

/-- What is wrong with a parameter that was read is listed: its type may be a
negative number. The reader does not look at the sign here, as it does
everywhere else. -/
theorem parameter_listed {p : TypeParameter} (houter : ["params"] <:+ outer.keys) (h : parameter place v = .ok p) :
    Layout.parameter.Only (Listed outer) v := by
  obtain ⟨members, rfl, ⟨s, hname⟩, htype⟩ := parameter_eq_ok h
  refine object_listed ?_ ?_
  · simp [hname]
  · simp only [List.forall_mem_cons]
    refine ⟨fun w hw => ?_, fun w hw => ?_, List.forall_mem_nil _⟩
    · cases hname.symm.trans hw
      exact (Layout.text_accepts s).only _
    · rw [only_ofKeywords_iff, List.forall_mem_cons, List.forall_mem_singleton, only_kinds_iff]
      rcases htype w hw with rfl | ⟨n, rfl⟩
      · exact ⟨.inl rfl, fun _ hx => absurd hx List.not_mem_nil⟩
      · refine ⟨.inl rfl, only_minimum_iff.2 fun _ => .inr (.negativeParameter rfl ?_)⟩
        rw [path_within, Violation.path, List.append_nil]
        exact suffix_key houter "type"

/-- The list of arms of a variant. -/
theorem arms_listed {members : Members} {items : List Json} {arms : List Arm}
    (hitems : asArray place (get members "variants") = .ok items) (harms : each place arm items = .ok arms)
    (hv : find? members "variants" = some v) (houter : ["variants"] <:+ outer.keys) :
    (Layout.arrayOf Layout.arm).Only (Listed outer) v := by
  rw [get_eq_of_find? hv] at hitems
  have hplace : ["variants"] ∈ nullablePlaces := by simp [nullablePlaces]
  exact list_listed hitems harms (.inl hplace) houter fun _ _ _ i ha => arm_listed (suffix_index houter i) ha

/-- A primitive that was read is one of the words of the schema. -/
theorem primitive_listed {s : String} {p : Primitive} (h : Primitive.ofName? s = some p) :
    (Schema.ofKeywords [.oneOfWords (Primitive.all.map Primitive.name)]).Only (Listed outer) (.str s) := by
  rw [only_ofKeywords_iff, List.forall_mem_singleton, only_oneOfWords_iff]
  refine .inl (List.contains_iff_mem.2 (List.mem_map.2 ⟨p, List.mem_of_find?_eq_some h, ?_⟩))
  simpa using List.find?_some h

/-- The number of a type, in a list of such numbers. -/
theorem typeNumber_listed {id : TypeId} (h : typeNumber place v = .ok id) : Layout.typeId.Only (Listed outer) v := by
  unfold typeNumber at h
  split at h
  next n =>
    split at h
    next hn => exact (Layout.typeId_accepts hn).only _
    · cases h
  · cases h

/-- The body of a sequence or of a compact integer, which refers to one type. -/
theorem reference_listed {members : Members} {n : Nat} (h : naturalMember place members "type" = .ok n) :
    (Layout.ofKind .object [.required ["type"], .properties [("type", Layout.typeId)]]).Only (Listed outer)
      (.obj members) := by
  refine object_listed ?_ ?_
  · simp [find?_of_naturalMember h]
  · simp only [List.forall_mem_singleton]
    exact fun _ => typeId_listed h

/-- The body of an array: what its items are, and how many. -/
theorem array_listed {members : Members} {item length : Nat} (hitem : naturalMember place members "type" = .ok item)
    (hlength : naturalMember place members "len" = .ok length) :
    (Layout.ofKind .object
        [.required ["len", "type"], .properties [("len", Layout.natural), ("type", Layout.typeId)]]).Only
      (Listed outer) (.obj members) := by
  refine object_listed ?_ ?_
  · simp [find?_of_naturalMember hitem, find?_of_naturalMember hlength]
  · simp only [List.forall_mem_cons]
    refine ⟨fun w hw => ?_, fun _ => typeId_listed hitem, List.forall_mem_nil _⟩
    exact Layout.only_ref_iff.1 (typeId_listed hlength hw)

/-- An object with one member has the form of its kind if the body has it. -/
theorem oneMember_listed {schemas : List (String × Schema)} {kinds : List String} {kind : String} {schema : Schema}
    {body : Json} (hkind : kind ∈ kinds) (hschema : schemas.find? (·.1 == kind) = some (kind, schema))
    (hnodup : (schemas.map (·.1)).Nodup) (hbody : schema.Only (Listed (outer ++ [.key kind])) body) :
    (Layout.ofKind .object [.nonEmptyObject, .maxProperties 1, .properties schemas, .onlyKeys kinds]).Only
      (Listed outer) (.obj [(kind, body)]) := by
  refine Layout.only_oneMember hkind fun q hq heq => ?_
  cases List.inj_on_of_nodup_map hnodup (List.mem_of_find?_eq_some hschema) hq heq
  exact only_within_key hbody

/-- **What was read as a definition** is of a known kind, and what is wrong with
its body is listed. The reader tells the kinds apart one after the other, and
the layout has one branch for each; `oneMember_listed` picks the branch of the
kind that was read. -/
theorem definition_listed {d : TypeDef} (h : definition place v = .ok d) :
    Layout.typeDef.Only (Listed outer) v := by
  unfold definition at h
  split at h
  next kind body =>
    dsimp only at h
    -- The cases are the kinds in the order in which they are told apart. The last two are
    -- refused.
    split_ifs at h with hprimitive hcomposite hvariant hsequence harray htuple hcompact hbits
    · cases eq_of_beq hprimitive
      refine oneMember_listed (by simp) rfl (by decide) ?_
      split at h
      next s =>
        split at h
        next p hp => exact primitive_listed hp
        · cases h
      · cases h
    · cases eq_of_beq hcomposite
      obtain ⟨members, hmembers, h⟩ := bind_ok_iff.1 h
      obtain ⟨fields, hfields, -⟩ := bind_ok_iff.1 h
      cases asObject_eq_ok hmembers
      refine oneMember_listed (by simp) rfl (by decide) (members_listed ?_)
      rw [List.forall_mem_singleton]
      exact fun _ => fields_listed hfields
    · cases eq_of_beq hvariant
      obtain ⟨members, hmembers, h⟩ := bind_ok_iff.1 h
      obtain ⟨items, hitems, h⟩ := bind_ok_iff.1 h
      obtain ⟨arms, harms, -⟩ := bind_ok_iff.1 h
      cases asObject_eq_ok hmembers
      refine oneMember_listed (by simp) rfl (by decide) (members_listed ?_)
      rw [List.forall_mem_singleton]
      exact fun _ hw => arms_listed hitems harms hw (suffix_key List.nil_suffix "variants")
    · cases eq_of_beq hsequence
      obtain ⟨members, hmembers, h⟩ := bind_ok_iff.1 h
      obtain ⟨item, hitem, -⟩ := bind_ok_iff.1 h
      cases asObject_eq_ok hmembers
      exact oneMember_listed (by simp) rfl (by decide) (reference_listed hitem)
    · cases eq_of_beq harray
      obtain ⟨members, hmembers, h⟩ := bind_ok_iff.1 h
      obtain ⟨item, hitem, h⟩ := bind_ok_iff.1 h
      obtain ⟨length, hlength, -⟩ := bind_ok_iff.1 h
      cases asObject_eq_ok hmembers
      exact oneMember_listed (by simp) rfl (by decide) (array_listed hitem hlength)
    · cases eq_of_beq htuple
      obtain ⟨items, hitems, h⟩ := bind_ok_iff.1 h
      obtain ⟨ids, hids, -⟩ := bind_ok_iff.1 h
      have hplace : ["tuple"] ∈ neededLists := by simp [neededLists]
      exact oneMember_listed (by simp) rfl (by decide)
        (list_listed hitems hids (.inr hplace) (suffix_key List.nil_suffix "tuple") fun _ _ _ _ => typeNumber_listed)
    · cases eq_of_beq hcompact
      obtain ⟨members, hmembers, h⟩ := bind_ok_iff.1 h
      obtain ⟨item, hitem, -⟩ := bind_ok_iff.1 h
      cases asObject_eq_ok hmembers
      exact oneMember_listed (by simp) rfl (by decide) (reference_listed hitem)
    · cases h
    · cases h
  · cases h

/-- The list of parameters of an entry, which may be left out or be null. -/
theorem parameters_listed {members : Members} {parameters : List TypeParameter}
    (h : parametersMember place members = .ok parameters) (hv : find? members "params" = some v)
    (houter : ["params"] <:+ outer.keys) : (Layout.arrayOf Layout.parameter).Only (Listed outer) v := by
  obtain ⟨items, hitems, hparameters⟩ := bind_ok_iff.1 h
  rw [get_eq_of_find? hv] at hitems
  have hplace : ["params"] ∈ nullablePlaces := by simp [nullablePlaces]
  exact list_listed hitems hparameters (.inl hplace) houter fun _ _ _ i hp =>
    parameter_listed (suffix_index houter i) hp

/-- The path of a type, which an entry may leave out. -/
theorem path_listed {members : Members} {lines : List String} (h : stringsMember place members "path" = .ok lines)
    (hv : find? members "path" = some v) : (Layout.arrayOf Layout.text).Only (Listed (outer ++ [.key "path"])) v := by
  rw [stringsMember, get_eq_of_find? hv] at h
  exact strings_listed h (by simp [nullablePlaces]) (suffix_key List.nil_suffix "path")

/-- **What is wrong with an entry that was read is listed.** That its number is
not taken is checked by the reader alone; the schema does not compare
entries. -/
theorem entry_listed {taken : List TypeId} {e : Entry} (h : entry taken place v = .ok e) :
    Layout.typeEntry.Only (Listed outer) v := by
  obtain ⟨members, hmembers, h⟩ := bind_ok_iff.1 h
  obtain ⟨id, hid, h⟩ := bind_ok_iff.1 h
  split at h
  · cases h
  obtain ⟨inner, hinner, h⟩ := bind_ok_iff.1 h
  obtain ⟨d, hdefinition, h⟩ := bind_ok_iff.1 h
  obtain ⟨parameters, hparameters, h⟩ := bind_ok_iff.1 h
  obtain ⟨path, hpath, h⟩ := bind_ok_iff.1 h
  obtain ⟨docs, hdocs, -⟩ := bind_ok_iff.1 h
  have hfound := find?_of_definition hdefinition
  cases asObject_eq_ok hmembers
  refine object_listed ?_ ?_
  · simp [find?_of_naturalMember hid, find?_of_objectMember hinner]
  · simp only [List.forall_mem_cons]
    refine ⟨fun _ => typeId_listed hid, fun w hw => ?_, List.forall_mem_nil _⟩
    cases (find?_of_objectMember hinner).symm.trans hw
    refine object_listed ?_ ?_
    · simp [hfound]
    · simp only [List.forall_mem_cons]
      refine ⟨fun w hw => Layout.only_ref_iff.2 ?_, fun _ => path_listed hpath, fun w hw => ?_,
        fun _ => docs_listed hdocs, List.forall_mem_nil _⟩
      · cases hfound.symm.trans hw
        exact definition_listed hdefinition
      · exact parameters_listed hparameters hw (suffix_key List.nil_suffix "params")

/-! ## Signatures -/

/-- Nothing is wrong with a reference to a type but its display name. -/
theorem typeRef_only {P : Violation → Prop} {id : TypeId} (h : typeRef place v = .ok id)
    (hname : ∀ x : Violation, P (x.within [.key "displayName"])) : Layout.typeRef.Only P v := by
  obtain ⟨members, hmembers, htype⟩ := bind_ok_iff.1 h
  cases asObject_eq_ok hmembers
  refine Layout.only_object_iff.2 ⟨?_, ?_⟩
  · simp [find?_of_naturalMember htype]
  · simp only [List.forall_mem_cons]
    refine ⟨fun w hw => ?_, fun _ _ x _ => hname x, List.forall_mem_nil _⟩
    cases (find?_of_naturalMember htype).symm.trans hw
    exact (Layout.typeId_accepts (by simp)).only _

/-- Whatever is wrong with a display name is passed over, since nothing reads
it. -/
theorem listed_displayName (x : Violation) : Listed outer (x.within [.key "displayName"]) :=
  have hplace : ["displayName"] ∈ unreadPlaces := by simp [unreadPlaces]
  listed_within.2 (listed_unread hplace (suffix_key List.nil_suffix _) x)

/-- A flag that was read is one, or null where the schema asks for true or
false. -/
theorem flag_listed {members : Members} {key : String} {b : Bool} {keys : List String}
    (h : flagMember place members key = .ok b) (hv : find? members key = some v) (hkeys : keys ∈ nullablePlaces)
    (houter : keys <:+ outer.keys) : Layout.flag.Only (Listed outer) v := by
  rcases flagMember_eq_ok h hv with rfl | rfl
  · rw [Layout.flag, Layout.only_ofKind_iff]
    exact ⟨.inr (listed_nullMember hkeys houter), List.forall_mem_nil _⟩
  · exact (Layout.flag_accepts b).only _

/-- An argument, in the list of a constructor, a message or an event. Whether it
is indexed is asked of events only, so in a method the member is unread, and the
lists in which it may stand are part of the hypotheses. -/
theorem argument_listed {ofEvent : Bool} {a : Argument} (h : argument ofEvent place v = .ok a)
    (houter : ofEvent = false → ["constructors", "args"] <:+ outer.keys ∨ ["messages", "args"] <:+ outer.keys) :
    Layout.argument.Only (Listed outer) v := by
  obtain ⟨members, rfl, hread⟩ := argument_eq_ok h
  obtain ⟨s, hlabel⟩ := hread.label
  obtain ⟨id, htype⟩ := hread.typeRef
  obtain ⟨lines, hdocs⟩ := hread.docs
  have hfound : find? members "type" = some (get members "type") := by
    refine find?_eq_some_of_get rfl fun hnull => ?_
    rw [hnull] at htype
    cases htype
  -- The one member of which the layout says the same for all arguments, and the reader
  -- does not.
  have hindexed : ∀ w, find? members "indexed" = some w → Layout.flag.Only (Listed (outer ++ [.key "indexed"])) w := by
    intro w hw
    cases ofEvent with
    | true =>
      obtain ⟨b, hb⟩ := hread.indexed rfl
      exact flag_listed hb hw (by simp [nullablePlaces]) (suffix_key List.nil_suffix "indexed")
    | false =>
      -- Arguments of methods are not asked whether they are indexed.
      rcases houter rfl with hconstructors | hmessages
      · exact fun x _ => listed_unread (by simp [unreadPlaces]) (suffix_key hconstructors "indexed") x
      · exact fun x _ => listed_unread (by simp [unreadPlaces]) (suffix_key hmessages "indexed") x
  refine object_listed ?_ ?_
  · simp [(find?_of_stringMember hlabel).1, hfound]
  · simp only [List.forall_mem_cons]
    refine ⟨fun _ hw => Layout.only_ref_iff.2 (label_listed hlabel hw), fun w hw => Layout.only_ref_iff.2 ?_, hindexed,
      fun _ => docs_listed hdocs, List.forall_mem_nil _⟩
    cases hfound.symm.trans hw
    exact typeRef_only htype fun _ => listed_displayName _

/-- The arguments of a constructor, a message or an event. All three have to
have them. -/
theorem arguments_listed {ofEvent : Bool} {members : Members} {args : List Argument}
    (h : argumentsMember ofEvent place members = .ok args) (hv : find? members "args" = some v)
    (houter : ofEvent = false → ["constructors"] <:+ outer.keys ∨ ["messages"] <:+ outer.keys) :
    (Layout.arrayOf (Layout.ref Layout.argument)).Only (Listed (outer ++ [.key "args"])) v := by
  obtain ⟨items, hitems, hargs⟩ := bind_ok_iff.1 h
  rw [get_eq_of_find? hv] at hitems
  have hplace : ["args"] ∈ neededLists := by simp [neededLists]
  refine list_listed hitems hargs (.inr hplace) (suffix_key List.nil_suffix "args")
    fun item a _ i ha => Layout.only_ref_iff.2 ?_
  refine argument_listed ha fun hmethod => ?_
  exact (houter hmethod).imp (fun h => suffix_index (suffix_key h "args") i) fun h =>
    suffix_index (suffix_key h "args") i

/-- A return type is null or a reference, of which no more than the display name
is wrong. The layout offers both as branches and complains that neither fits;
what is listed is this complaint, together with where the branches found
theirs. -/
theorem returnType_listed {members : Members} {id : Option TypeId}
    (h : optional typeRef place (get members "returnType") = .ok id) (hv : find? members "returnType" = some v)
    (houter : ["returnType"] <:+ outer.keys) :
    (Schema.ofKeywords [.oneOf [Layout.ofKind .null [], Layout.ref Layout.typeRef]]).Only (Listed outer) v := by
  rw [get_eq_of_find? hv] at h
  rw [only_ofKeywords_iff, List.forall_mem_singleton, only_oneOf_iff]
  -- Null is the first branch of the layout, a reference the second.
  rcases optional_eq_ok h with rfl | ⟨id, -, hid⟩
  · exact .inl ⟨_, List.mem_cons_self, Layout.only_ofKind_iff.2 ⟨.inl rfl, List.forall_mem_nil _⟩⟩
  · refine .inr (.inl (.displayName rfl ?_ fun y hy => ?_))
    · rwa [path_within, Violation.path, List.append_nil]
    · obtain ⟨branch, hbranch, hy⟩ := List.mem_flatten.1 hy
      obtain ⟨schema, hschema, rfl⟩ := branchViolations_mem.1 hbranch
      simp only [List.mem_cons, List.not_mem_nil, or_false] at hschema
      rcases hschema with rfl | rfl
      · have hnull : (Layout.ofKind .null []).Only (fun y => y.complaint = .notOfKinds v [.null]) v :=
          Layout.only_ofKind_iff.2 ⟨.inr rfl, List.forall_mem_nil _⟩
        exact .inl (hnull y hy)
      · have hreference : (Layout.ref Layout.typeRef).Only (fun y => ["displayName"] <:+: y.path.keys) v := by
          refine Layout.only_ref_iff.2 (typeRef_only hid fun x => ?_)
          rw [path_within, keys_append]
          exact (List.prefix_append _ _).isInfix
        exact .inr (hreference y hy)

/-! ### Byte strings -/

/-- A text that was read as bytes satisfies a pattern of so many digits, unless
there are blanks in it. Blanks are what the reader of digits skips and the
pattern does not know of. -/
theorem hex_listed {count : Nat → Bool} {expression : String} {bs : Bytes} (h : hex place v = .ok bs)
    (hcount : count (2 * bs.length) = true) :
    (Layout.ofKind .string [.pattern ⟨expression, Layout.isHex count⟩]).Only (Listed outer) v := by
  unfold hex at h
  split at h
  next s =>
    split at h
    next digits hdigits =>
      split at h
      next bytes hbytes =>
        cases h
        obtain ⟨x, hx, hcs⟩ := Bytes.toList_of_after0x? hdigits
        rw [Layout.only_ofKind_iff, List.forall_mem_singleton, only_pattern_iff]
        refine ⟨.inl rfl, ?_⟩
        -- Without blanks the digits that were read are all of the text.
        by_cases hblank : ∃ c ∈ digits.toList, Bytes.isHexBlank c = true
        · exact .inr (.inr (.blanks rfl hdigits hbytes hblank))
        · have hnone : ∀ c ∈ digits.toList, Bytes.isHexBlank c = false := by
            intro c hc
            exact Bool.eq_false_iff.2 fun hc' => hblank ⟨c, hc, hc'⟩
          obtain ⟨hhex, hlength⟩ := Bytes.hexDigits_of_ofHexDigits? hbytes hnone
          refine .inl ?_
          change Layout.isHex count s.toList = true
          rw [hcs, Layout.isHex_of_hexDigits hx hhex, hlength, hcount]
      · cases h
    · cases h
  · cases h

/-- Null for bytes that may be left out. -/
theorem nullBytes_listed {p : Pattern} {keys : List String} (hkeys : keys ∈ nullablePlaces)
    (houter : keys <:+ outer.keys) : (Layout.ofKind .string [.pattern p]).Only (Listed outer) .null := by
  rw [Layout.only_ofKind_iff, List.forall_mem_singleton]
  exact ⟨.inr (listed_nullMember hkeys houter), fun _ hx => absurd hx List.not_mem_nil⟩

/-- A selector that was read has four bytes, so its digits match the pattern of
the schema, unless there are blanks among them. -/
theorem selector_listed {members : Members} {bs : Option Bytes}
    (h : optional (hexOfLength 4) place (get members "selector") = .ok bs) (hv : find? members "selector" = some v)
    (houter : ["selector"] <:+ outer.keys) : Layout.selector.Only (Listed outer) v := by
  rw [get_eq_of_find? hv] at h
  rcases optional_eq_ok h with rfl | ⟨bs, -, hbs⟩
  · exact nullBytes_listed (by simp [nullablePlaces]) houter
  · obtain ⟨hhex, hlength⟩ := hexOfLength_eq_ok hbs
    exact hex_listed hhex (by rw [hlength]; rfl)

/-- The same for byte strings of any length. -/
theorem bytes_listed {bs : Bytes} (h : hex place v = .ok bs) : Layout.hex.Only (Listed outer) v :=
  hex_listed h (by simp)

/-- A selector name may be null or empty, and then counts as none. -/
theorem selectorName_listed {members : Members} {s : Option String}
    (h : optionalStringMember place members "selectorName" = .ok s) (hv : find? members "selectorName" = some v)
    (houter : ["selectorName"] <:+ outer.keys) : Layout.label.Only (Listed outer) v := by
  rw [Layout.label, Layout.only_ofKind_iff, List.forall_mem_singleton]
  rcases optionalStringMember_eq_ok h hv with rfl | ⟨text, -, rfl⟩
  · exact ⟨.inr (listed_nullMember (by simp [nullablePlaces]) houter), fun _ hx => absurd hx List.not_mem_nil⟩
  · refine ⟨.inl rfl, only_nonEmptyString_iff.2 fun hempty => .inl (.emptySelectorName ?_ ?_)⟩
    · have htext : text = "" := by simpa using hempty
      rw [htext]
      rfl
    · rwa [path_within, Violation.path, List.append_nil]

/-! ### Methods and events -/

/-- A method and an event must have a label, and are listed if they have no
arguments. -/
theorem missing_listed {members : Members} {s : String} (h : stringMember place members "label" = .ok s) :
    ∀ key ∈ ["label", "args"], find? members key = none → Listed outer (.of [] (.missingKey key) true []) := by
  intro key hkey hnone
  simp only [List.mem_cons, List.not_mem_nil, or_false] at hkey
  rcases hkey with rfl | rfl
  · rw [(find?_of_stringMember h).1] at hnone
    cases hnone
  · exact .inr (.noArguments rfl)

/-- The key of the list that a method is in. -/
def methodsKey (isConstructor : Bool) : String :=
  if isConstructor then "constructors" else "messages"

/-- A constructor or a message, in its list. The members of a method are gone
through one by one, each with the lemma for its own layout; of a constructor it
is not asked whether it changes the state. -/
theorem method_listed {isConstructor : Bool} {m : Method} (h : method isConstructor place v = .ok m)
    (houter : [methodsKey isConstructor] <:+ outer.keys) : Layout.method.Only (Listed outer) v := by
  obtain ⟨members, rfl, hread⟩ := method_eq_ok h
  obtain ⟨s, hlabel⟩ := hread.label
  obtain ⟨args, hargs⟩ := hread.args
  obtain ⟨id, hreturn⟩ := hread.returnType
  obtain ⟨payable, hpayable⟩ := hread.payable
  obtain ⟨bs, hselector⟩ := hread.selector
  obtain ⟨name, hname⟩ := hread.selectorName
  obtain ⟨lines, hdocs⟩ := hread.docs
  have hkind : ["constructors"] <:+ outer.keys ∨ ["messages"] <:+ outer.keys := by
    cases isConstructor with
    | true => exact .inl houter
    | false => exact .inr houter
  -- The reader asks a message for a flag, so this flag is right.
  have hmutates : ∀ w, find? members "mutates" = some w → Layout.flag.Only (Listed (outer ++ [.key "mutates"])) w := by
    intro w hw
    cases isConstructor with
    | true =>
      -- A constructor is not asked whether it changes the state.
      have hplace : ["constructors", "mutates"] ∈ unreadPlaces := by simp [unreadPlaces]
      exact fun x _ => listed_unread hplace (suffix_key houter "mutates") x
    | false =>
      obtain ⟨b, hb⟩ := hread.mutates rfl
      cases hb.symm.trans hw
      exact (Layout.flag_accepts b).only _
  have hdefault : ["default"] ∈ unreadPlaces := by simp [unreadPlaces]
  refine object_listed (missing_listed hlabel) ?_
  simp only [List.forall_mem_cons]
  exact ⟨fun _ hw => Layout.only_ref_iff.2 (label_listed hlabel hw),
    fun _ hw => Layout.only_ref_iff.2 (selector_listed hselector hw (suffix_key List.nil_suffix _)),
    fun _ hw => selectorName_listed hname hw (suffix_key List.nil_suffix _),
    fun _ hw => arguments_listed hargs hw fun _ => hkind,
    fun _ hw => returnType_listed hreturn hw (suffix_key List.nil_suffix _), hmutates,
    fun _ hw => flag_listed hpayable hw (by simp [nullablePlaces]) (suffix_key List.nil_suffix _),
    fun _ _ x _ => listed_unread hdefault (suffix_key List.nil_suffix _) x, fun _ => docs_listed hdocs,
    List.forall_mem_nil _⟩

/-- Messages have to say whether they change the state. -/
theorem message_listed {m : Method} (h : method false place v = .ok m) (houter : ["messages"] <:+ outer.keys) :
    Layout.message.Only (Listed outer) v := by
  obtain ⟨members, rfl, hread⟩ := method_eq_ok h
  obtain ⟨b, hb⟩ := hread.mutates rfl
  rw [Layout.message, only_ofKeywords_iff, List.forall_mem_singleton, only_allOf_iff, List.forall_mem_cons,
    List.forall_mem_singleton, only_ofKeywords_iff, List.forall_mem_singleton]
  exact ⟨Layout.only_ref_iff.2 (method_listed h houter), only_required_iff.2 (by simp [hb])⟩

/-- What is wrong with an event that was read is listed. It may lack its
arguments altogether. -/
theorem event_listed {e : Event} (h : event place v = .ok e) : Layout.event.Only (Listed outer) v := by
  obtain ⟨members, hmembers, h⟩ := bind_ok_iff.1 h
  obtain ⟨s, hlabel, h⟩ := bind_ok_iff.1 h
  obtain ⟨args, hargs, h⟩ := bind_ok_iff.1 h
  obtain ⟨lines, hdocs, -⟩ := bind_ok_iff.1 h
  cases asObject_eq_ok hmembers
  refine object_listed (missing_listed hlabel) ?_
  simp only [List.forall_mem_cons]
  exact ⟨fun _ hw => Layout.only_ref_iff.2 (label_listed hlabel hw), fun _ hw => arguments_listed hargs hw nofun,
    fun _ => docs_listed hdocs, List.forall_mem_nil _⟩

/-! ## Documents -/

/-- What is wrong under `source` is listed. The language and the compiler may be
anything, since neither is read. -/
theorem source_listed {hash : HashFunction} {r : Option Bytes × Option Bytes} (h : source hash place v = .ok r)
    (houter : ["source"] <:+ outer.keys) : (Layout.ofKind .object
      [.properties [("hash", Layout.ref Layout.hex), ("wasm", Layout.ref Layout.hex), ("language", Layout.text),
        ("compiler", Layout.text)]]).Only (Listed outer) v := by
  unfold source at h
  split at h
  · rw [Layout.only_ofKind_iff, List.forall_mem_singleton]
    exact ⟨.inr (listed_nullMember (by simp [nullablePlaces]) houter), fun _ hx => absurd hx List.not_mem_nil⟩
  · obtain ⟨members, hmembers, h⟩ := bind_ok_iff.1 h
    obtain ⟨declared, hdeclared, h⟩ := bind_ok_iff.1 h
    obtain ⟨wasm, hwasm, -⟩ := bind_ok_iff.1 h
    cases asObject_eq_ok hmembers
    refine members_listed ?_
    simp only [List.forall_mem_cons]
    refine ⟨fun w hw => Layout.only_ref_iff.2 ?_, fun w hw => Layout.only_ref_iff.2 ?_,
      fun _ _ x _ => listed_unread (by simp [unreadPlaces]) (suffix_key houter "language") x,
      fun _ _ x _ => listed_unread (by simp [unreadPlaces]) (suffix_key houter "compiler") x, List.forall_mem_nil _⟩
    · rw [get_eq_of_find? hw] at hdeclared
      rcases optional_eq_ok hdeclared with rfl | ⟨bs, -, hbs⟩
      · exact nullBytes_listed (by simp [nullablePlaces]) (suffix_key houter "hash")
      · exact bytes_listed (hexOfLength_eq_ok hbs).1
    · rw [get_eq_of_find? hw] at hwasm
      rcases optional_eq_ok hwasm with rfl | ⟨bs, -, hbs⟩
      · exact nullBytes_listed (by simp [nullablePlaces]) (suffix_key houter "wasm")
      · exact bytes_listed hbs

/-- A version that is supported is a text or an integer, as the schema asks
for. -/
theorem version_listed {doc : Members} (h : checkVersion doc = .ok ()) (hv : find? doc "version" = some v) :
    (Schema.ofKeywords [.oneOf [Layout.text, Layout.ofKind .integer []]]).Only (Listed outer) v := by
  rw [only_ofKeywords_iff, List.forall_mem_singleton, only_oneOf_iff]
  unfold checkVersion at h
  rw [get_eq_of_find? hv] at h
  cases v with
  | int n =>
    exact .inl ⟨_, List.mem_cons_of_mem _ List.mem_cons_self,
      Layout.only_ofKind_iff.2 ⟨.inl rfl, List.forall_mem_nil _⟩⟩
  | str s => exact .inl ⟨_, List.mem_cons_self, Layout.text_accepts s⟩
  | _ => cases h

/-- The constructors, in a list that may be null though the schema requires one.
They may say whether they change the state, in any form: nobody asks them. -/
theorem constructors_listed {spec : Members} {items : List Json} {constructors : List Method}
    (hitems : arrayMember place spec "constructors" = .ok items)
    (hconstructors : each (memberOf place "constructors") (method true) items = .ok constructors)
    (hv : find? spec "constructors" = some v) (houter : ["constructors"] <:+ outer.keys) :
    (Layout.arrayOf (Layout.ref Layout.method)).Only (Listed outer) v := by
  obtain ⟨_, hfound, hitems⟩ := find?_of_arrayMember hitems
  cases hfound.symm.trans hv
  have hplace : ["constructors"] ∈ neededLists := by simp [neededLists]
  refine list_listed hitems hconstructors (.inr hplace) houter fun item m _ i hm => Layout.only_ref_iff.2 ?_
  exact method_listed hm (suffix_index houter i)

/-- The messages, of which the schema asks in addition that they say whether
they change the state. The reader asks for it too. -/
theorem messages_listed {spec : Members} {items : List Json} {messages : List Method}
    (hitems : arrayMember place spec "messages" = .ok items)
    (hmessages : each (memberOf place "messages") (method false) items = .ok messages)
    (hv : find? spec "messages" = some v) (houter : ["messages"] <:+ outer.keys) :
    (Layout.arrayOf Layout.message).Only (Listed outer) v := by
  obtain ⟨_, hfound, hitems⟩ := find?_of_arrayMember hitems
  cases hfound.symm.trans hv
  have hplace : ["messages"] ∈ neededLists := by simp [neededLists]
  exact list_listed hitems hmessages (.inr hplace) houter fun item m _ i hm => message_listed hm (suffix_index houter i)

/-- The events, which a document may leave out. -/
theorem events_listed {spec : Members} {items : List Json} {events : List Event}
    (hitems : asArray place (get spec "events") = .ok items) (hevents : each place event items = .ok events)
    (hv : find? spec "events" = some v) :
    (Layout.arrayOf (Layout.ref Layout.event)).Only (Listed (outer ++ [.key "events"])) v := by
  rw [get_eq_of_find? hv] at hitems
  have hplace : ["events"] ∈ nullablePlaces := by simp [nullablePlaces]
  exact list_listed hitems hevents (.inl hplace) (suffix_key List.nil_suffix "events")
    fun item e _ i he => Layout.only_ref_iff.2 (event_listed he)

/-- The entries of the table of types, in a list that may be null though the
schema requires one. -/
theorem types_listed {doc : Members} {items : List Json} {types : List Entry}
    (hitems : arrayMember place doc "types" = .ok items)
    (htypes : entriesFrom (memberOf place "types") [] 0 items = .ok types) (hv : find? doc "types" = some v) :
    (Layout.arrayOf (Layout.ref Layout.typeEntry)).Only (Listed (outer ++ [.key "types"])) v := by
  obtain ⟨_, hfound, hitems⟩ := find?_of_arrayMember hitems
  cases hfound.symm.trans hv
  have hplace : ["types"] ∈ neededLists := by simp [neededLists]
  refine arrayOf_listed hitems (.inr hplace) (suffix_key List.nil_suffix "types") fun item hitem i =>
    Layout.only_ref_iff.2 ?_
  obtain ⟨_, _, e, he⟩ := entriesFrom_eq_ok htypes item hitem
  exact entry_listed he

/-- The description of the contract: its authors are not read, and its version
may be null. -/
theorem contract_listed {contract : Members} {name : String} {version : Option String}
    (hname : stringMember place contract "name" = .ok name)
    (hversion : optionalStringMember place contract "version" = .ok version) (houter : ["contract"] <:+ outer.keys) :
    (Layout.ofKind .object
      [.required ["name"],
        .properties [("name", Layout.label), ("version", Layout.text), ("authors", Layout.arrayOf Layout.text)]]).Only
      (Listed outer) (.obj contract) := by
  refine object_listed ?_ ?_
  · simp [(find?_of_stringMember hname).1]
  · simp only [List.forall_mem_cons]
    refine ⟨fun _ => label_listed hname, fun w hw => ?_, fun _ _ x _ => ?_, List.forall_mem_nil _⟩
    · rcases optionalStringMember_eq_ok hversion hw with rfl | ⟨text, -, rfl⟩
      · rw [Layout.text, Layout.only_ofKind_iff]
        exact ⟨.inr (listed_nullMember (by simp [nullablePlaces]) (suffix_key houter "version")),
          List.forall_mem_nil _⟩
      · exact (Layout.text_accepts text).only _
    · exact listed_unread (by simp [unreadPlaces]) (suffix_key houter "authors") x

/-- **What is wrong with a document that loads is listed.** Loading is taken
apart into the values that were read; the layout is then gone through member by
member, and each complaint is about a member that was read as something, or
about one that was not read. -/
theorem members_eq_ok {hash : HashFunction} {doc : Members} {m : Metadata} (h : members hash false doc = .ok m) :
    ∀ x ∈ Layout.document.violations (.obj doc), x.LetPass ∨ x.Overlooked := by
  obtain ⟨⟨⟩, hversion, h⟩ := bind_ok_iff.1 h
  obtain ⟨typeItems, htypeItems, h⟩ := bind_ok_iff.1 h
  obtain ⟨types, htypes, h⟩ := bind_ok_iff.1 h
  obtain ⟨spec, hspec, h⟩ := bind_ok_iff.1 h
  obtain ⟨constructorItems, hconstructorItems, h⟩ := bind_ok_iff.1 h
  obtain ⟨constructors, hconstructors, h⟩ := bind_ok_iff.1 h
  obtain ⟨messageItems, hmessageItems, h⟩ := bind_ok_iff.1 h
  obtain ⟨messages, hmessages, h⟩ := bind_ok_iff.1 h
  obtain ⟨eventItems, heventItems, h⟩ := bind_ok_iff.1 h
  obtain ⟨events, hevents, h⟩ := bind_ok_iff.1 h
  obtain ⟨contract, hcontract, h⟩ := bind_ok_iff.1 h
  obtain ⟨name, hname, h⟩ := bind_ok_iff.1 h
  obtain ⟨version, hcontractVersion, h⟩ := bind_ok_iff.1 h
  obtain ⟨declared, hsource, -⟩ := bind_ok_iff.1 h
  -- First the specification, which has the lists of methods and events; then the document
  -- around it.
  have hspecListed : (Layout.ofKind .object
      [.required ["constructors", "messages"],
        .properties
          [("constructors", Layout.arrayOf (Layout.ref Layout.method)), ("messages", Layout.arrayOf Layout.message),
            ("events", Layout.arrayOf (Layout.ref Layout.event)), ("docs", Layout.docs)]]).Only
      (Listed [.key "spec"]) (.obj spec) := by
    obtain ⟨_, hconstructorsFound, -⟩ := find?_of_arrayMember hconstructorItems
    obtain ⟨_, hmessagesFound, -⟩ := find?_of_arrayMember hmessageItems
    refine object_listed ?_ ?_
    · simp [hconstructorsFound, hmessagesFound]
    · simp only [List.forall_mem_cons]
      exact ⟨fun _ hw => constructors_listed hconstructorItems hconstructors hw (suffix_key List.nil_suffix _),
        fun _ hw => messages_listed hmessageItems hmessages hw (suffix_key List.nil_suffix _),
        fun _ => events_listed heventItems hevents,
        fun _ _ x _ => listed_unread (by simp [unreadPlaces]) (suffix_key (List.suffix_refl ["spec"]) "docs") x,
        List.forall_mem_nil _⟩
  have hdocument : Layout.document.Only (Listed []) (.obj doc) := by
    obtain ⟨_, htypesFound, -⟩ := find?_of_arrayMember htypeItems
    refine object_listed ?_ ?_
    · simp [htypesFound, find?_of_objectMember hspec]
    · simp only [List.forall_mem_cons]
      refine ⟨fun _ => version_listed hversion, fun w hw => ?_, fun w hw => ?_,
        fun _ => types_listed htypeItems htypes, fun w hw => ?_, List.forall_mem_nil _⟩
      · rw [get_eq_of_find? hw] at hsource
        exact source_listed hsource (List.suffix_refl ["source"])
      · cases (find?_of_objectMember hcontract).symm.trans hw
        exact contract_listed hname hcontractVersion (List.suffix_refl ["contract"])
      · cases (find?_of_objectMember hspec).symm.trans hw
        exact hspecListed
  intro x hx
  have hlisted := hdocument x hx
  cases x
  exact hlisted

end

end Load

/-- Every error of loading is a schema error. Its text begins with the name of
the error, and goes on with the place and the fault. -/
theorem LoadError.message_schemaError (e : LoadError) : ∃ rest, e.message = "SchemaError" ++ rest := by
  have hmessage : ∀ message place, ∃ rest, schemaErrorMessage message place = "SchemaError" ++ rest := by
    intro message place
    cases place with
    | none =>
      have hopening : "SchemaError: " = "SchemaError" ++ ": " := by decide
      refine ⟨": " ++ message, ?_⟩
      change "SchemaError: " ++ message = _
      rw [hopening, String.append_assoc]
    | some p =>
      have hopening : "SchemaError [" = "SchemaError" ++ " [" := by decide
      refine ⟨" [" ++ p ++ "]: " ++ message, ?_⟩
      change "SchemaError [" ++ p ++ "]: " ++ message = _
      rw [hopening]
      simp only [String.append_assoc]
  exact hmessage _ _

/-- **Without the schema a document is still rejected**, unless it is an object
and all that the schema finds wrong with it is on one of the lists. -/
theorem lenient_rejects {hash : HashFunction} {document : Document}
    (h : ∀ doc, Load.object document = .ok doc →
      ∃ x ∈ Layout.document.violations (.obj doc), ¬ x.LetPass ∧ ¬ x.Overlooked) :
    ∃ e, document.load hash false = .error e ∧ ∃ rest, e.message = "SchemaError" ++ rest := by
  cases hload : document.load hash false with
  | error e => exact ⟨e, rfl, e.message_schemaError⟩
  | ok m =>
    -- What loads is an object, and what is wrong with it is listed.
    obtain ⟨doc, hdoc, hm⟩ := bind_ok_iff.1 hload
    obtain ⟨x, hx, hpass, hmissed⟩ := h doc hdoc
    exact ((Load.members_eq_ok hm x hx).elim hpass hmissed).elim

/-- A document without types whose one message has a number for its label. -/
def unlabelledDocument : Load.Members :=
  [("version", .str "4"), ("contract", .obj [("name", .str "light")]), ("types", .arr []),
    ("spec", .obj [("constructors", .arr []),
      ("messages", .arr [.obj [("label", .int 7), ("args", .arr []), ("mutates", .bool true)]])])]

/-- The label is found by both. That the complaint is in neither list is seen by
going through the lists: none of their places is that of the label. -/
theorem lenient_rejects_unlabelled : ∃ e, (Document.value (.obj unlabelledDocument)).load id false = .error e ∧
    ∃ rest, e.message = "SchemaError" ++ rest := by
  have hviolations : Layout.document.violations (.obj unlabelledDocument) =
      [.of [.key "spec", .key "messages", .index 0, .key "label"] (.notOfKinds (.int 7) [.string]) false []] := by
    rfl
  refine lenient_rejects fun doc hdoc => ?_
  cases hdoc
  refine ⟨_, hviolations ▸ List.mem_singleton_self _, ?_, ?_⟩
  · intro h
    cases h with
    | unread hplace h =>
      have hnone : ∀ place ∈ unreadPlaces, ¬ place <:+: ["spec", "messages", "label"] := by decide
      exact hnone _ hplace h
    | nullMember hplace h hpath => cases h
    | emptySelectorName h hpath => cases h
    | highIndex h hpath => cases h
    | displayName h hpath hbranches => cases h
  · intro h
    cases h with
    | noArguments h => cases h
    | nullList hplace h hpath => cases h
    | negativeParameter h hpath => cases h
    | blanks h => cases h

/-- A document in which something is wrong in each way that loading lets pass:
null for a source and for documentation, authors that are no list, an arm with
the index 256, an empty selector name, and a display name that is no list. -/
def looseDocument : Load.Members :=
  [("version", .str "4"), ("source", .null), ("contract", .obj [("name", .str "light"), ("authors", .str "me")]),
    ("types", .arr [.obj [("id", .int 0), ("type", .obj [
      ("def", .obj [("variant", .obj [("variants", .arr [.obj [("name", .str "Off"), ("index", .int 256)]])])]),
      ("docs", .null)])]]),
    ("spec", .obj [("constructors", .arr []),
      ("messages", .arr [.obj [("label", .str "get"), ("selectorName", .str ""), ("args", .arr []),
        ("returnType", .obj [("type", .int 0), ("displayName", .str "State")]), ("mutates", .bool true)]])])]

/-- The schema complains of this document in six places, and it loads without
the schema. So it is not so that all that the schema rejects is rejected without
it, and the listed places are needed. -/
theorem lenient_accepts_loose :
    Layout.document.violations (.obj looseDocument) =
      [.of [.key "source"] (.notOfKinds .null [.object]) false [],
        .of [.key "contract", .key "authors"] (.notOfKinds (.str "me") [.array]) false [],
        .of [.key "types", .index 0, .key "type", .key "def", .key "variant", .key "variants", .index 0, .key "index"]
          (.aboveMaximum (.int 256) 255) true [],
        .of [.key "types", .index 0, .key "type", .key "docs"] (.notOfKinds .null [.array]) false [],
        .of [.key "spec", .key "messages", .index 0, .key "selectorName"] (.empty (.str "")) true [],
        .of [.key "spec", .key "messages", .index 0, .key "returnType"]
          (.noBranch (.obj [("type", .int 0), ("displayName", .str "State")])) false
          [.of [] (.notOfKinds (.obj [("type", .int 0), ("displayName", .str "State")]) [.null]) false [],
            .of [.key "displayName"] (.notOfKinds (.str "State") [.array]) false []]] ∧
    ¬ ∀ (hash : HashFunction) (document : Document),
      (∀ doc, Load.object document = .ok doc → Layout.document.violations (.obj doc) ≠ []) →
        ∃ e, document.load hash false = .error e := by
  refine (and_iff_left_of_imp fun hviolations h => ?_).2 (by with_unfolding_all rfl)
  obtain ⟨e, he⟩ := h id (.value (.obj looseDocument)) fun doc hdoc => by
    cases hdoc
    exact hviolations ▸ List.cons_ne_nil _ _
  -- What it loads as: the loose members are missing from it, or as they stood.
  have hload : (Document.value (.obj looseDocument)).load id false =
      .ok { contractName := "light", contractVersion := "",
            types := [{ id := 0, definition := .variant [{ name := "Off", index := 256 }] }],
            messages := [{ label := "get", selectorName := some "", returnType := some 0 }] } := by
    rfl
  cases hload.symm.trans he

end ContractClient
