/-
Fields as classes have them, and as codecs ask for them.

A module writes the fields of a record down twice: in the body of the class, and
in its codec, where they are the attributes that are read from instances and the
keywords that instances are made with. Both are the same list of names in the
same order. But in the body of a class a private name stands for a longer one,
and in a text it does not. So a codec asks for what its class has exactly if no
name is private in the class, and a name by name comparison says the same:
a class has the attribute of a field exactly if the name of the field is
not private.

The names of indexed fields are a third writing of the same list, and the texts
in it follow the codec and not the class.
-/
import ContractClient.Proofs.Client.Events

set_option autoImplicit false

namespace ContractClient

/-! ## Private names -/

/-- Whether a name in a class stands for another one: it opens with two
underscores and does not end in two, and the name of the class is not all
underscores. -/
def Mangled (cls name : String) : Prop :=
  isPrivate name = true ∧ ∃ c ∈ cls.toList, c ≠ '_'

/-- A class name that is not all underscores has something left when those in
front are dropped. A class whose name has nothing left keeps private names as
they are. -/
theorem dropWhile_underscore_ne_nil {cls : String} :
    cls.toList.dropWhile (· == '_') ≠ [] ↔ ∃ c ∈ cls.toList, c ≠ '_' := by
  rw [ne_eq, List.dropWhile_eq_nil_iff]
  simp only [beq_iff_eq, not_forall, exists_prop, ne_eq]

/-- **Only mangled names stand for other names.** A mangled name gets longer by
the name of the class, so it is never the name that it was. -/
theorem nameIn_eq_iff {cls name : String} : nameIn cls name = name ↔ ¬ Mangled cls name := by
  have hempty : (String.ofList (cls.toList.dropWhile (· == '_'))).isEmpty = true ↔
      cls.toList.dropWhile (· == '_') = [] := by
    rw [String.isEmpty_iff, ← String.toList_eq_nil_iff, String.toList_ofList]
  rw [Mangled, ← dropWhile_underscore_ne_nil, ne_eq, ← hempty]
  unfold nameIn
  dsimp only
  split
  · next h =>
    obtain ⟨hprivate, hstem⟩ := Bool.and_eq_true_iff.1 h
    have hmangled : isPrivate name = true ∧ ¬ (String.ofList (cls.toList.dropWhile (· == '_'))).isEmpty = true :=
      ⟨hprivate, by simpa using hstem⟩
    refine ⟨fun heq => ?_, fun hnot => absurd hmangled hnot⟩
    -- The longer name is longer.
    have hlength := congrArg (fun s => s.toList.length) heq
    simp only [String.toList_append, List.length_append] at hlength
    have hone : "_".toList.length = 1 := rfl
    omega
  · next h =>
    refine ⟨fun _ hmangled => h (Bool.and_eq_true_iff.2 ⟨hmangled.1, by simpa using hmangled.2⟩), fun _ => rfl⟩

namespace RecordClass

variable {record : RecordClass}

/-- A record is bound under its name with its attributes. -/
theorem bound_eq {name : String} {attributes : List String} (hname : record.name = name)
    (hattributes : record.bound.attributes = attributes) : record.bound = ⟨name, true, attributes⟩ := by
  subst hname hattributes
  rfl

/-- A class has the attribute of a field under its name exactly if this is not
mangled. -/
theorem name_mem_attributes {f : ClientField} (hf : f ∈ record.fields) :
    f.name ∈ record.shape.attributes ↔ ¬ Mangled record.name f.name := by
  rw [← nameIn_eq_iff, RecordClass.shape, mem_distinct]
  constructor
  · intro hmem
    obtain ⟨g, -, heq⟩ := List.mem_map.1 hmem
    rw [← heq]
    exact nameIn_nameIn record.name g.name
  · intro hname
    exact List.mem_map.2 ⟨f, hf, hname⟩

/-- **A class has the fields that are asked for, in their order, exactly if no
name is mangled.** -/
theorem attributes_eq_iff (hnodup : (record.fields.map (·.name)).Nodup) :
    record.shape.attributes = record.fields.map (·.name) ↔ ∀ f ∈ record.fields, ¬ Mangled record.name f.name := by
  constructor
  · intro heq f hf
    rw [← name_mem_attributes hf, heq]
    exact List.mem_map.2 ⟨f, hf, rfl⟩
  · intro hplain
    have hsame : (record.fields.map fun f => nameIn record.name f.name) = record.fields.map (·.name) :=
      List.map_congr_left fun f hf => nameIn_eq_iff.2 (hplain f hf)
    rw [RecordClass.shape, hsame, distinct_of_nodup hnodup]

end RecordClass

/-! ## The two writings -/

namespace Statement

/-- The class of records that a statement makes. -/
def record? : Statement → Option RecordClass
  | .recordClass record _ _ _ => some record
  | _ => none

/-- The classes that a statement makes codecs for, each with the names that the
codec asks for. -/
def codecFields : Statement → List (String × List String)
  | .wireStruct name fields => [(name, fields.map (·.1))]
  | .wireEnum _ arms => arms.map fun arm => (arm.2.1, arm.2.2.map (·.1))
  | _ => []

end Statement

/-- A class with the names of its fields, as they are written. -/
def RecordClass.written (record : RecordClass) : String × List String :=
  (record.name, record.fields.map (·.name))

theorem fieldCodecs_names (fields : List ClientField) : (fieldCodecs fields).map (·.1) = fields.map (·.name) := by
  rw [fieldCodecs, List.map_map]
  rfl

/-- The wiring line of a declaration names the fields of all its records as they
are written. -/
theorem Declaration.codecFields_wire (d : Declaration) : d.wire.codecFields = d.records.map RecordClass.written := by
  cases d with
  | composite record =>
    rw [wire, Statement.codecFields, fieldCodecs_names]
    rfl
  | variant name docs arms =>
    rw [wire, Statement.codecFields, records, List.map_map, List.map_map]
    refine List.map_congr_left fun arm _ => ?_
    show (arm.record.name, (fieldCodecs arm.record.fields).map (·.1)) = arm.record.written
    rw [fieldCodecs_names]
    rfl

/-- The classes below an enum's base are its arms' records. -/
theorem records_classesBelow (base parent : String) (docs : List String) (arms : List ArmClass) :
    (classesBelow base parent docs arms).filterMap Statement.record? = arms.map (·.record) := by
  have hdeclare : (arms.map (ArmClass.declare base)).filterMap Statement.record? = arms.map (·.record) := by
    rw [List.filterMap_map, ← List.filterMap_eq_map]
    rfl
  have hoffer : (arms.map (ArmClass.offer base)).filterMap Statement.record? = [] := by
    rw [List.filterMap_map, List.filterMap_eq_nil_iff]
    exact fun _ _ => rfl
  rw [classesBelow, List.filterMap_cons_none rfl, List.filterMap_append, hdeclare, hoffer, List.append_nil]

/-- The statements of the classes give no codec fields; those are in the line
that wires the declaration. -/
theorem codecFields_classesBelow (base parent : String) (docs : List String) (arms : List ArmClass) :
    (classesBelow base parent docs arms).flatMap Statement.codecFields = [] := by
  rw [List.flatMap_eq_nil_iff]
  intro s hs
  simp only [classesBelow, List.mem_cons, List.mem_append, List.mem_map] at hs
  obtain rfl | ⟨arm, -, rfl⟩ | ⟨arm, -, rfl⟩ := hs <;> rfl

theorem Declaration.records_classes (d : Declaration) :
    d.classes.flatten.filterMap Statement.record? = d.records := by
  cases d with
  | composite record => rfl
  | variant name docs arms =>
    rw [flatten_classes_variant, records_classesBelow]
    rfl

theorem Declaration.codecFields_classes (d : Declaration) : d.classes.flatten.flatMap Statement.codecFields = [] := by
  cases d with
  | composite record => rfl
  | variant name docs arms =>
    rw [flatten_classes_variant]
    exact codecFields_classesBelow _ _ _ _

namespace ClientModule

variable (m : ClientModule)

/-- Behind the codecs there are only classes with methods, and the function that
stores the code. -/
theorem calling_cases : ∀ s ∈ m.calling, s.record? = none ∧ s.codecFields = [] := by
  intro s hs
  simp only [calling, List.mem_flatten, List.mem_append, List.mem_map, List.mem_singleton] at hs
  obtain ⟨block, (⟨i, -, rfl⟩ | rfl) | hblock, hs⟩ := hs
  · rw [List.mem_singleton.1 hs]
    exact ⟨rfl, rfl⟩
  · rw [List.mem_singleton.1 hs]
    exact ⟨rfl, rfl⟩
  · split at hblock
    · rw [List.mem_singleton.1 hblock] at hs
      rw [List.mem_singleton.1 hs]
      exact ⟨rfl, rfl⟩
    · cases hblock

/-- **The classes of a module**, each once and in order. First those of the
declarations, and then those of the events; the statements that offer and wire
make no class of records. -/
theorem records_statements : m.statements.filterMap Statement.record? = m.records := by
  have hclasses : (m.declarations.flatMap fun d => d.classes.flatten).filterMap Statement.record? =
      m.declarations.flatMap Declaration.records := by
    rw [List.filterMap_flatMap]
    exact List.flatMap_congr fun d _ => d.records_classes
  have hwire : ∀ d : Declaration, d.wire.record? = none := by
    intro d
    cases d <;> rfl
  have hwiring : (m.declarations.map Declaration.wire).filterMap Statement.record? = [] := by
    rw [List.filterMap_map, List.filterMap_eq_nil_iff]
    exact fun d _ => hwire d
  have hcalling : m.calling.filterMap Statement.record? = [] :=
    List.filterMap_eq_nil_iff.2 fun s hs => (m.calling_cases s hs).1
  rw [m.statements_split, m.declaring_eq, List.filterMap_append, List.filterMap_append, List.filterMap_append,
    List.filterMap_append, hclasses, hwiring, records_classesBelow, List.filterMap_cons_none (hwire _), hcalling,
    List.nil_append, List.filterMap_nil, List.append_nil, List.append_nil]
  rfl

/-- **The codecs of a module** ask each class for the names of its fields as
they are written. -/
theorem codecFields_statements : m.statements.flatMap Statement.codecFields = m.records.map RecordClass.written := by
  have hclasses : (m.declarations.flatMap fun d => d.classes.flatten).flatMap Statement.codecFields = [] := by
    rw [List.flatMap_assoc, List.flatMap_eq_nil_iff]
    exact fun d _ => d.codecFields_classes
  have hwiring : (m.declarations.map Declaration.wire).flatMap Statement.codecFields =
      (m.declarations.flatMap Declaration.records).map RecordClass.written := by
    rw [List.flatMap_map, List.map_flatMap]
    exact List.flatMap_congr fun d _ => d.codecFields_wire
  have hcalling : m.calling.flatMap Statement.codecFields = [] :=
    List.flatMap_eq_nil_iff.2 fun s hs => (m.calling_cases s hs).2
  rw [m.statements_split, m.declaring_eq, List.flatMap_append, List.flatMap_append, List.flatMap_append,
    List.flatMap_append, hclasses, hwiring, codecFields_classesBelow, List.flatMap_singleton, hcalling,
    Declaration.codecFields_wire, records, List.map_append, List.nil_append, List.nil_append, List.append_nil]
  rfl

variable {m}

/-- The name of a record is among the names that its module declares. -/
theorem name_mem_declaredNames {record : RecordClass} (h : record ∈ m.records) : record.name ∈ m.declaredNames := by
  rcases List.mem_append.1 h with hdeclared | hevent
  · obtain ⟨d, hd, hrecord⟩ := List.mem_flatMap.1 hdeclared
    have hbound : record.name ∈ d.bound.map (·.name) :=
      List.mem_map.2 ⟨record.bound, Declaration.bound_of_record hrecord, rfl⟩
    rw [d.bound_names] at hbound
    refine List.mem_append_left _ ?_
    rcases List.mem_cons.1 hbound with hname | hname
    · exact List.mem_append_left _ (List.mem_map.2 ⟨d, hd, hname.symm⟩)
    · exact List.mem_append_right _ (List.mem_flatMap.2 ⟨d, hd, hname⟩)
  · obtain ⟨cls, hcls, rfl⟩ := List.mem_map.1 hevent
    exact List.mem_append_right _ (List.mem_map.2 ⟨cls, hcls, rfl⟩)

/-- The classes with methods are those of the interfaces and the handle. The
statement behind the handle, which may let it store code, binds nothing. -/
theorem binds_calling {cls : BoundClass} (h : cls ∈ m.calling.filterMap Statement.binds) :
    cls.name ∈ m.interfaces.map (·.name) ∨ cls.name = m.handle := by
  obtain ⟨s, hs, hbinds⟩ := List.mem_filterMap.1 h
  simp only [calling, List.mem_flatten, List.mem_append, List.mem_map, List.mem_singleton] at hs
  obtain ⟨block, (⟨i, hi, rfl⟩ | rfl) | hblock, hs⟩ := hs
  · rw [List.mem_singleton.1 hs] at hbinds
    cases hbinds
    exact .inl (List.mem_map.2 ⟨i, hi, rfl⟩)
  · rw [List.mem_singleton.1 hs] at hbinds
    cases hbinds
    exact .inr rfl
  · split at hblock
    · rw [List.mem_singleton.1 hblock] at hs
      rw [List.mem_singleton.1 hs] at hbinds
      cases hbinds
    · cases hblock

/-- **After an import each class of records is bound**, with the attributes that
its body makes of its fields, if the handle is not bound over it. -/
theorem class?_of_run {r : Registry} {names : ModuleNames} {b : Bindings} (hwell : m.WellDeclared r names)
    (hnames : m.classNames.Nodup) (happart : m.HandleApart) (hrun : m.run = .ok b) {record : RecordClass}
    (hrecord : record ∈ m.records) : b.class? record.name = some record.bound := by
  have hclasses : b.classes = (m.statements.filterMap Statement.binds).reverse := by
    rw [(runStatements_spec (runStatements_of_run hrun)).classes]
    exact List.append_nil _
  rw [m.statements_split, List.filterMap_append, m.binds_declaring] at hclasses
  have hmem : record.bound ∈ (m.declarations ++ [m.eventDeclaration]).flatMap Declaration.bound := by
    rw [List.flatMap_append, List.flatMap_singleton, List.mem_append]
    rcases List.mem_append.1 hrecord with hdeclared | hevent
    · obtain ⟨d, hd, hmem⟩ := List.mem_flatMap.1 hdeclared
      exact .inl (List.mem_flatMap.2 ⟨d, hd, Declaration.bound_of_record hmem⟩)
    · exact .inr (Declaration.bound_of_record (d := m.eventDeclaration) hevent)
  -- The name may be bound once only: below the records, interfaces and the handle bind
  -- classes as well.
  have hname := name_mem_declaredNames hrecord
  have hnodup : (m.declaredNames ++ m.interfaces.map (·.name)).Nodup := hnames
  refine find?_key BoundClass.name (a := record.bound) ?_ fun cls hcls heq => ?_
  · rw [hclasses, List.mem_reverse]
    exact List.mem_append_left _ hmem
  · rw [hclasses, List.mem_reverse, List.mem_append] at hcls
    rcases hcls with hcls | hcls
    · exact List.inj_on_of_nodup_map hwell.apart hcls hmem heq
    · -- No class with methods has the name of a record.
      exfalso
      have heq : cls.name = record.name := heq
      rcases binds_calling hcls with hinterface | hhandle
      · exact List.disjoint_of_nodup_append hnodup hname (heq ▸ hinterface)
      · exact happart.2 (hhandle ▸ heq.symm ▸ List.mem_append_left _ hname)

end ClientModule

/-! ## Indexed fields -/

/-- Those of given names that stand for the indexed fields of an event. -/
def EventDescriptor.indexedOf (e : EventDescriptor) (names : List String) : List String :=
  ((names.zip e.fields).filter (·.2.indexed)).map (·.1)

/-- Renaming the fields of an event renames the indexed ones, as these are
chosen by their places and not by their names. -/
theorem EventDescriptor.indexedOf_map (e : EventDescriptor) (names : List String) (f : String → String) :
    e.indexedOf (names.map f) = (e.indexedOf names).map f := by
  rw [indexedOf, indexedOf, List.zip_map_left, List.filter_map, List.map_map, List.map_map]
  rfl

/-- A list is its own image under a function that fixes each of its items, and
under no other. -/
theorem map_eq_self_iff {α : Type} {f : α → α} {xs : List α} : xs = xs.map f ↔ ∀ x ∈ xs, f x = x := by
  induction xs with
  | nil => simp
  | cons x xs ih => rw [List.map_cons, List.cons.injEq, ih, List.forall_mem_cons, eq_comm]

/-- The names that are indexed are names of attributes exactly if none of them
is mangled. -/
theorem EventDescriptor.indexedOf_eq_iff (e : EventDescriptor) (cls : String) (names : List String) :
    e.indexedOf names = e.indexedOf (names.map (nameIn cls)) ↔ ∀ name ∈ e.indexedOf names, ¬ Mangled cls name := by
  rw [e.indexedOf_map, map_eq_self_iff]
  exact forall₂_congr fun name _ => nameIn_eq_iff

section

variable {metadata : Metadata} {u : CompilationUnit} {runtimeModule handle : String} {m : ClientModule}

/-- A generated event class lists as indexed the fields that the document marks,
under the names they are written with. -/
theorem indexed_of_eventClass {r : Registry} {names : ModuleNames} {e : EventDescriptor} {name offeredAs : String}
    {cls : ArmClass} (h : eventClass r names e name offeredAs = .ok cls) :
    cls.index = e.discriminant ∧ cls.indexed = e.indexedOf cls.record.written.2 := by
  obtain ⟨fields, -, heq⟩ := bind_ok_iff.1 h
  cases heq
  refine ⟨rfl, ?_⟩
  have hfilter : ∀ pairs : List (ClientField × EventField), (pairs.filterMap fun p =>
      if p.2.indexed then some p.1.name else none) = (pairs.filter (·.2.indexed)).map (·.1.name) := by
    intro pairs
    induction pairs with
    | nil => rfl
    | cons p pairs ih => cases hp : p.2.indexed <;> simp [hp, ih]
  calc (fields.zip e.fields).filterMap (fun p => if p.2.indexed then some p.1.name else none)
      = ((fields.zip e.fields).filter (·.2.indexed)).map (·.1.name) := hfilter _
    _ = e.indexedOf (fields.map (·.name)) := by
      rw [EventDescriptor.indexedOf, List.zip_map_left, List.filter_map, List.map_map]
      rfl

/-- The classes of events list the names of the indexed fields. -/
theorem events_indexed (h : u.client runtimeModule handle = .ok m) : List.Forall₂ (fun e cls =>
    cls.index = e.discriminant ∧ cls.indexed = e.indexedOf cls.record.written.2) u.events m.events := by
  have hattributes : (armAttributes (u.events.map (·.name))).length = u.events.length := by
    rw [length_armAttributes, List.length_map]
  obtain ⟨hgiven, -, -⟩ := unzip_zip_zip (length_events u handle) hattributes
  nth_rewrite 1 [← hgiven]
  rw [List.forall₂_map_left_iff]
  exact (mapM_ok_iff.1 (client_assembled h).events).imp fun p cls hcls => indexed_of_eventClass hcls

theorem ClientModule.event_statement {cls : ArmClass} (h : cls ∈ m.events) : cls.declare "Event" ∈ m.statements := by
  rw [m.statements_split, m.declaring_eq]
  refine List.mem_append_left _ (List.mem_append_right _ (List.mem_append_right _ (List.mem_append_left _ ?_)))
  exact List.mem_cons_of_mem _ (List.mem_append_left _ (List.mem_map.2 ⟨cls, h, rfl⟩))

end

/-- **What codecs ask for, and what classes have.** In a module that is
generated from a document, with a class for each composite, each arm and each
event, each class is made once, and has one codec or one arm of a codec that
asks for the names of its fields in their order. After an import the codecs are
wired, and the classes are bound with the attributes that Python makes of these
names, if the handle stands for a name of its own. The attributes are the names
that are asked for exactly if none of them is mangled, and the attribute of a
field is asked for exactly if its name is not. The class of an event lists the
names of its indexed fields, and these are names of attributes under the same
condition. -/
theorem fields_as_asked {hash : HashFunction} {settings : Settings} {wasm : Option Bytes} {document : Document}
    {u : CompilationUnit} (hcompile : document.compile hash settings wasm = .ok u) {runtimeModule handle : String}
    {m : ClientModule} (hclient : u.client runtimeModule handle = .ok m) :
    m.Covers u ∧
    m.statements.filterMap Statement.record? = m.records ∧
    m.statements.flatMap Statement.codecFields = m.records.map RecordClass.written ∧
    (∀ b, m.run = .ok b → (m.HandleApart → ∀ record ∈ m.records, b.class? record.name = some record.bound) ∧
      ∀ d ∈ m.declarations ++ [m.eventDeclaration], b.environment.codec? d.name = some d.codec) ∧
    (∀ record ∈ m.records,
      record.bound.attributes = distinct (record.written.2.map (nameIn record.name)) ∧
      (record.bound.attributes = record.written.2 ↔ ∀ f ∈ record.fields, ¬ Mangled record.name f.name) ∧
      ∀ f ∈ record.fields, f.name ∈ record.bound.attributes ↔ ¬ Mangled record.name f.name) ∧
    List.Forall₂ (fun e cls =>
      .recordClass cls.record "Event" (some e.discriminant) (e.indexedOf cls.record.written.2) ∈ m.statements ∧
      (e.indexedOf cls.record.written.2 = e.indexedOf (cls.record.written.2.map (nameIn cls.record.name)) ↔
        ∀ name ∈ e.indexedOf cls.record.written.2, ¬ Mangled cls.record.name name)) u.events m.events := by
  obtain ⟨metadata, hresolve⟩ := compile_resolve hcompile
  have hhandle := (client_renders hclient).1
  subst hhandle
  have hcovers := client_covers hresolve hclient
  have hwell := client_wellDeclared hresolve (compile_events hcompile) hclient
  have hscopes := client_scopesApart hresolve hclient
  refine ⟨hcovers, m.records_statements, m.codecFields_statements, fun b hrun => ?_, fun record hrecord => ?_, ?_⟩
  · have hnames := (List.nodup_append'.1 hscopes.classes).2.1
    exact ⟨fun happart record hrecord => ClientModule.class?_of_run hwell hnames happart hrun hrecord,
      fun d hd => hwell.codec?_of_run hrun hd⟩
  · have hattributes : record.bound.attributes = distinct (record.written.2.map (nameIn record.name)) := by
      rw [RecordClass.written, List.map_map]
      rfl
    exact ⟨hattributes, RecordClass.attributes_eq_iff (hscopes.fields record hrecord).nodup,
      fun f hf => RecordClass.name_mem_attributes hf⟩
  · refine forall₂_imp_of_mem (events_indexed hclient).flip (fun cls hcls e h => ?_) |>.flip
    obtain ⟨hindex, hindexed⟩ := h
    refine ⟨?_, e.indexedOf_eq_iff cls.record.name cls.record.written.2⟩
    rw [← hindex, ← hindexed]
    exact ClientModule.event_statement hcls

/-! ## A keyword and a private name -/

/-- The fields of the classes of a client as they are written, and as the
classes have them. -/
def fieldsOfClient (p : ClientModule × Bindings) : List (String × List String) × List (List String) :=
  (p.1.records.map RecordClass.written, p.1.records.map (·.bound.attributes))

/-- A document with an event of which a field is indexed that has a keyword for
a label. -/
def movedDocument : Document :=
  .value (.obj [("version", .int 4), ("contract", .obj [("name", .str "c"), ("version", .str "1")]),
    ("types", .arr [.obj [("id", .int 0), ("type", .obj [("def", .obj [("primitive", .str "u8")])])]]),
    ("spec", .obj [
      ("constructors", .arr []), ("messages", .arr []),
      ("events", .arr [.obj [("label", .str "Moved"), ("args", .arr [
        .obj [("label", .str "from"), ("type", .obj [("type", .int 0)]), ("indexed", .bool true)],
        .obj [("label", .str "to"), ("type", .obj [("type", .int 0)])]])]])])])

/-- The unit of the document. -/
def movedUnit : CompilationUnit :=
  { contractName := "c", contractVersion := "1"
    registry := ⟨[{ id := 0, definition := .primitive (.unsigned .w8) }], []⟩
    constructors := [], messages := []
    events := [{ name := "Moved", discriminant := 0, fields := [⟨"from", 0, true⟩, ⟨"to", 0, false⟩], docs := [] }]
    codeHash := none, bytecode := none }

/-- Its class has the fields that are asked for. The keyword `from` gets an
underscore in the class, in the codec that is wired for it, and among the
indexed fields, and everywhere the same one. -/
theorem fields_as_asked_moved : ∃ m b record, movedDocument.compile id transferSettings none = .ok movedUnit ∧
    movedUnit.client "inkgen.runtime" "Instance" = .ok m ∧ m.run = .ok b ∧
      m.statements.filterMap Statement.record? = [record] ∧
      m.statements.flatMap Statement.codecFields = [("Event_Moved", ["from_", "to"])] ∧
      b.class? "Event_Moved" = some ⟨"Event_Moved", true, ["from_", "to"]⟩ ∧
      .recordClass record "Event" (some 0) ["from_"] ∈ m.statements := by
  have hcompile : movedDocument.compile id transferSettings none = .ok movedUnit := by cbv
  -- The one evaluation of the example; everything below is the general theorem read at it.
  have hfields : (movedUnit.imported "inkgen.runtime" "Instance").toOption.map fieldsOfClient =
      some ([("Event_Moved", ["from_", "to"])], [["from_", "to"]]) := by decide +kernel
  obtain ⟨m, b, hclient, ⟨hrun, happart⟩, hfields⟩ := exists_imported hfields
  obtain ⟨hwritten, hattributes⟩ := Prod.mk.inj hfields
  obtain ⟨record, hrecords, hrecord⟩ := List.map_eq_singleton_iff.1 hwritten
  obtain ⟨-, hclasses, hcodecs, himported, -, hevents⟩ := fields_as_asked hcompile hclient
  rw [hrecords] at hclasses hcodecs hattributes
  have hname : record.name = "Event_Moved" := congrArg Prod.fst hrecord
  have hbound : b.class? record.name = some record.bound :=
    (himported b hrun).1 happart record (hrecords ▸ List.mem_singleton_self _)
  have hshape := RecordClass.bound_eq hname (List.cons.inj hattributes).1
  refine ⟨m, b, record, hcompile, hclient, hrun, hclasses, ?_, ?_, ?_⟩
  · rw [hcodecs, List.map_singleton, hrecord]
  · rw [← hshape, ← hname]
    exact hbound
  · obtain ⟨cls, rest, ⟨hstatement, -⟩, hnone, hclss⟩ := List.forall₂_cons_left_iff.1 hevents
    obtain rfl := List.forall₂_nil_left_iff.1 hnone
    have hsame : cls.record = record := by
      have hmem := ClientModule.event_mem_records (m := m) (hclss ▸ List.mem_singleton_self cls)
      rwa [hrecords, List.mem_singleton] at hmem
    rw [hsame, hrecord] at hstatement
    exact hstatement

/-- **The class of an event with a private name has a field that is not asked
for**, and is asked for one that it does not have. -/
theorem field_not_asked : ∃ m b record, privateDocument.compile id transferSettings none = .ok privateUnit ∧
    privateUnit.client "inkgen.runtime" "Instance" = .ok m ∧ m.run = .ok b ∧
      m.statements.filterMap Statement.record? = [record] ∧
      m.statements.flatMap Statement.codecFields = [("Event_E", ["__x"])] ∧
      record.bound = ⟨"Event_E", true, ["_Event_E__x"]⟩ := by
  have hfields : (privateUnit.imported "inkgen.runtime" "Instance").toOption.map fieldsOfClient =
      some ([("Event_E", ["__x"])], [["_Event_E__x"]]) := by decide +kernel
  obtain ⟨m, b, hclient, ⟨hrun, -⟩, hfields⟩ := exists_imported hfields
  obtain ⟨hwritten, hattributes⟩ := Prod.mk.inj hfields
  obtain ⟨record, hrecords, hrecord⟩ := List.map_eq_singleton_iff.1 hwritten
  rw [hrecords] at hattributes
  have hshape := RecordClass.bound_eq (congrArg Prod.fst hrecord) (List.cons.inj hattributes).1
  exact ⟨m, b, record, private_compile, hclient, hrun, hrecords ▸ m.records_statements,
    m.codecFields_statements.trans hwritten, hshape⟩

end ContractClient
