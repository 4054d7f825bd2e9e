/-
The part of a module that declares types.

A module opens with the classes of the declared types; then their codecs are
wired, when every class has a name already; then come the events. All of this
executes before any class with methods is made, and nothing behind it makes a
codec: `declaring` and `calling`.

What matters about the declarations is said in `WellDeclared`, and it says
nothing about their order. From it follows that every statement finds what it
needs, `WellDeclared.ready`. So only names with a meaning of their own can stop
the execution, and when it is not stopped every name of a type finds the codec
of its declaration. This holds with the declarations in any order and for any
references between them: a class is looked up when its codec is used and not
when it is wired.
-/
import ContractClient.Proofs.Client.Execution
import ContractClient.Proofs.Client.Namespaces

set_option autoImplicit false

namespace ContractClient

/-! ## Declaring and calling -/

namespace ClientModule

/-- The statements that make the types of a module, and their codecs. -/
def declaring (m : ClientModule) : List Statement :=
  (m.declarations.flatMap Declaration.classes ++ m.wiring ++ m.eventBlocks).flatten

/-- The statements behind them, that make the classes with methods. -/
def calling (m : ClientModule) : List Statement :=
  (m.interfaces.map (fun i => [interfaceStatement i]) ++ [[m.handleStatement]] ++
    (if m.codeLength.isSome then [[Statement.upload]] else [])).flatten

/-- The statements of a module are the part that declares and the part that
calls. -/
theorem statements_split (m : ClientModule) : m.statements = m.declaring ++ m.calling := by
  simp only [statements, blocks, declaring, calling, List.flatten_append, List.append_assoc]

/-- Classes with methods wire nothing. So an import ends with the codecs that
the declaring part has left. -/
theorem wires_calling (m : ClientModule) : m.calling.filterMap Statement.wires = [] := by
  rw [List.filterMap_eq_nil_iff]
  intro s hs
  simp only [calling, List.mem_flatten, List.mem_append, List.mem_map, List.mem_singleton] at hs
  obtain ⟨block, (⟨i, -, rfl⟩ | rfl) | hblock, hs⟩ := hs
  · rw [List.mem_singleton.1 hs]
    rfl
  · rw [List.mem_singleton.1 hs]
    rfl
  · split at hblock
    · rw [List.mem_singleton.1 hblock] at hs
      rw [List.mem_singleton.1 hs]
      rfl
    · cases hblock

/-- The event class with its arms, as a declared type. -/
def eventDeclaration (m : ClientModule) : Declaration :=
  .variant "Event" ["Events emitted by the contract, keyed by discriminant."] m.events

end ClientModule

/-- A class without fields and the classes of arms below it. -/
def classesBelow (base parent : String) (docs : List String) (arms : List ArmClass) : List Statement :=
  .baseClass base parent docs :: (arms.map (ArmClass.declare base) ++ arms.map (ArmClass.offer base))

/-- The classes of a variant are the class of the variant and, below it, those
of its arms. -/
theorem Declaration.flatten_classes_variant (name : String) (docs : List String) (arms : List ArmClass) :
    (Declaration.variant name docs arms).classes.flatten = classesBelow name "Variant" docs arms := by
  have harms : (arms.map fun arm => [arm.declare name]).flatten = arms.map (ArmClass.declare name) :=
    List.map_eq_flatMap.symm
  simp only [classes, classesBelow, List.flatten_append, List.flatten_cons, List.flatten_nil, List.append_nil, harms,
    List.cons_append, List.nil_append]

/-- The part that declares, statement by statement: the classes of the
declarations, the codecs of these, the classes of the events and the codec of
these. -/
theorem ClientModule.declaring_eq (m : ClientModule) : m.declaring =
    m.declarations.flatMap (fun d => d.classes.flatten) ++ (m.declarations.map Declaration.wire ++
      (classesBelow "Event" "EventEnum" ["Events emitted by the contract, keyed by discriminant."] m.events ++
        [m.eventDeclaration.wire])) := by
  have hclasses : (m.declarations.flatMap Declaration.classes).flatten =
      m.declarations.flatMap fun d => d.classes.flatten := by
    rw [List.flatMap_def, List.flatten_flatten, List.map_map, ← List.flatMap_def]
    rfl
  have hwiring : m.wiring.flatten = m.declarations.map Declaration.wire := by
    unfold ClientModule.wiring
    cases m.declarations with
    | nil => rfl
    | cons d ds => exact List.append_nil _
  have hevents : (m.events.map fun e => [e.declare "Event"]).flatten = m.events.map (ArmClass.declare "Event") :=
    List.map_eq_flatMap.symm
  simp only [declaring, eventBlocks, classesBelow, eventDeclaration, Declaration.wire, List.flatten_append,
    List.flatten_cons, List.flatten_nil, List.append_nil, hclasses, hwiring, hevents, List.append_assoc,
    List.cons_append, List.nil_append]

/-- No class with methods is among them. The bodies of such classes evaluate
names, and nothing in the declaring part does. -/
theorem ClientModule.methodClass_notMem_declaring (m : ClientModule) {name : String} {opening : List String}
    {body : List BodyStatement} : Statement.methodClass name opening body ∉ m.declaring := by
  have hbelow : ∀ {base parent : String} {docs : List String} {arms : List ArmClass},
      Statement.methodClass name opening body ∉ classesBelow base parent docs arms := by
    intro base parent docs arms hs
    simp only [classesBelow, List.mem_cons, List.mem_append, List.mem_map, reduceCtorEq, ArmClass.declare,
      ArmClass.offer, and_false, exists_false, or_self] at hs
  rw [m.declaring_eq, List.mem_append, List.mem_append, List.mem_append]
  rintro (hs | hs | hs | hs)
  · obtain ⟨d, -, hs⟩ := List.mem_flatMap.1 hs
    cases d with
    | composite record => cases List.mem_singleton.1 hs
    | variant base docs arms => exact hbelow (Declaration.flatten_classes_variant base docs arms ▸ hs)
  · obtain ⟨d, -, heq⟩ := List.mem_map.1 hs
    cases d <;> cases heq
  · exact hbelow hs
  · cases List.mem_singleton.1 hs

/-! ## What the statements bind and need -/

/-- The names that statements bind are those of the classes that they bind. -/
theorem flatMap_boundNames (ss : List Statement) :
    ss.flatMap Statement.boundNames = (ss.filterMap Statement.binds).map (·.name) := by
  induction ss with
  | nil => rfl
  | cons s rest ih =>
    rw [List.flatMap_cons, ih, List.filterMap_cons, Statement.boundNames]
    cases s.binds <;> rfl

/-- A class with arms below it binds what a declaration with these arms does.
The class of the events is one more such class. -/
theorem binds_classesBelow (base parent : String) (docs : List String) (arms : List ArmClass) :
    (classesBelow base parent docs arms).filterMap Statement.binds = (Declaration.variant base docs arms).bound := by
  have hdeclare : (arms.map (ArmClass.declare base)).filterMap Statement.binds = arms.map (·.record.bound) := by
    rw [List.filterMap_map, ← List.filterMap_eq_map]
    rfl
  have hoffer : (arms.map (ArmClass.offer base)).filterMap Statement.binds = [] := by
    rw [List.filterMap_map, List.filterMap_eq_nil_iff]
    exact fun _ _ => rfl
  simp only [classesBelow, List.filterMap_cons, List.filterMap_append, hdeclare, hoffer, List.append_nil]
  rfl

/-- Making classes wires nothing. -/
theorem wires_classesBelow (base parent : String) (docs : List String) (arms : List ArmClass) :
    (classesBelow base parent docs arms).filterMap Statement.wires = [] := by
  rw [List.filterMap_eq_nil_iff]
  intro s hs
  simp only [classesBelow, List.mem_cons, List.mem_append, List.mem_map] at hs
  obtain rfl | ⟨arm, -, rfl⟩ | ⟨arm, -, rfl⟩ := hs <;> rfl

/-- The classes of arms spoil the class above them as a declaration with these
arms does. -/
theorem spoils_classesBelow {base name parent : String} {docs : List String} {arms : List ArmClass} :
    name ∈ (classesBelow base parent docs arms).filterMap Statement.spoils ↔
      name = base ∧ (Declaration.variant base docs arms).spoiled = true := by
  have hsame : (classesBelow base parent docs arms).filterMap Statement.spoils =
      (Declaration.variant base docs arms).classes.flatten.filterMap Statement.spoils := by
    rw [Declaration.flatten_classes_variant]
    rfl
  rw [hsame, Declaration.mem_spoils_classes]
  rfl

/-- Wiring spoils nothing. -/
theorem spoils_wiring (ds : List Declaration) : (ds.map Declaration.wire).filterMap Statement.spoils = [] := by
  rw [List.filterMap_map, List.filterMap_eq_nil_iff]
  intro d _
  cases d <;> rfl

/-- The classes of several declarations. -/
theorem binds_declarations (ds : List Declaration) :
    (ds.flatMap fun d => d.classes.flatten).filterMap Statement.binds = ds.flatMap Declaration.bound := by
  rw [List.filterMap_flatMap]
  exact List.flatMap_congr fun d _ => d.binds_classes

/-- Making the classes of several declarations wires nothing either. -/
theorem wires_declarations (ds : List Declaration) :
    (ds.flatMap fun d => d.classes.flatten).filterMap Statement.wires = [] := by
  rw [List.filterMap_flatMap, List.flatMap_eq_nil_iff]
  exact fun d _ => d.wires_classes

/-- The classes of arms find the class that they stand below, and each other.
The base is bound first, then the records, and then they are offered under the
base; so it is enough that the parent of the base is imported. -/
theorem ready_classesBelow {bound : List String} {base parent : String} {docs : List String} {arms : List ArmClass}
    (hparent : parent ∈ importedNames) : Throughout Statement.Ready bound (classesBelow base parent docs arms) := by
  have hbase : Statement.boundNames (.baseClass base parent docs) = [base] := rfl
  have hnames : (arms.map (ArmClass.declare base)).flatMap Statement.boundNames = arms.map (·.record.name) := by
    rw [List.flatMap_map, List.map_eq_flatMap]
    rfl
  refine ⟨?_, Throughout.append_iff.2 ⟨?_, ?_⟩⟩
  · exact ⟨fun name hname => .inl (List.mem_singleton.1 hname ▸ hparent), nofun, rfl,
      by simp [Statement.indices], nofun⟩
  · refine .of_forall fun bound' _ hlarge s hs => .mono ?_ hlarge
    obtain ⟨arm, -, rfl⟩ := List.mem_map.1 hs
    refine ⟨fun name hname => .inr ?_, nofun, rfl, by simp [Statement.indices, ArmClass.declare], nofun⟩
    rw [List.mem_singleton.1 hname, hbase]
    exact List.mem_append_right _ (List.mem_singleton.2 rfl)
  · refine .of_forall fun bound' _ hlarge s hs => .mono ?_ hlarge
    obtain ⟨arm, harm, rfl⟩ := List.mem_map.1 hs
    refine ⟨fun name hname => .inr ?_, nofun, rfl, by simp [Statement.indices, ArmClass.offer], nofun⟩
    rw [hnames, hbase]
    rcases List.mem_cons.1 hname with rfl | hname
    · exact List.mem_append_left _ (List.mem_append_right _ (List.mem_singleton.2 rfl))
    · rw [List.mem_singleton.1 hname]
      exact List.mem_append_right _ (List.mem_map.2 ⟨arm, harm, rfl⟩)

/-- The classes of a declaration find what they need wherever they are made: the
classes that they stand below are imported, or made just before them. -/
theorem Declaration.ready_classes (d : Declaration) {bound : List String} :
    Throughout Statement.Ready bound d.classes.flatten := by
  cases d with
  | composite record =>
    refine ⟨⟨fun name hname => .inl ?_, nofun, rfl, by simp [Statement.indices], nofun⟩, trivial⟩
    rw [List.mem_singleton.1 hname]
    decide
  | variant name docs arms =>
    rw [flatten_classes_variant]
    exact ready_classesBelow (by decide)

/-- The codecs of fields name the classes in the types of the fields. -/
theorem mentions_fieldCodecs (fields : List ClientField) :
    ((fieldCodecs fields).flatMap fun f => f.2.mentions) = fields.flatMap fun f => f.type.classes := by
  rw [fieldCodecs, List.flatMap_map]
  exact List.flatMap_congr fun f _ => TypeExpr.mentions_codecExpr true f.type

/-- The codecs of fields read no other codec, since they look classes up late.
This is why declarations may refer to each other in any way. -/
theorem reads_fieldCodecs (fields : List ClientField) : ((fieldCodecs fields).flatMap fun f => f.2.reads) = [] := by
  rw [fieldCodecs, List.flatMap_map, List.flatMap_eq_nil_iff]
  exact fun f _ => TypeExpr.reads_late f.type

namespace Declaration

variable {d : Declaration}

/-- Wiring reads no codec. -/
theorem reads_wire (d : Declaration) : d.wire.reads = [] := by
  cases d with
  | composite record => exact reads_fieldCodecs record.fields
  | variant name docs arms =>
    rw [wire, Statement.reads, List.flatMap_map, List.flatMap_eq_nil_iff]
    exact fun arm _ => reads_fieldCodecs arm.record.fields

/-- Wiring names the classes of the declaration and those in the types of its
fields. -/
theorem mem_mentions_wire {name : String} (h : name ∈ d.wire.mentions) :
    name ∈ d.bound.map (·.name) ∨ ∃ record ∈ d.records, ∃ f ∈ record.fields, name ∈ f.type.classes := by
  cases d with
  | composite record =>
    rcases List.mem_cons.1 h with rfl | h
    · exact .inl (List.mem_singleton.2 rfl)
    · rw [mentions_fieldCodecs, List.mem_flatMap] at h
      exact .inr ⟨record, List.mem_singleton.2 rfl, h⟩
  | variant base docs arms =>
    rcases List.mem_cons.1 h with rfl | h
    · exact .inl List.mem_cons_self
    rw [List.flatMap_map] at h
    obtain ⟨arm, harm, h⟩ := List.mem_flatMap.1 h
    rcases List.mem_cons.1 h with rfl | h
    · exact .inl (List.mem_cons_of_mem _ (List.mem_map.2 ⟨arm.record.bound, List.mem_map.2 ⟨arm, harm, rfl⟩, rfl⟩))
    · rw [ArmClass.wire, mentions_fieldCodecs, List.mem_flatMap] at h
      exact .inr ⟨arm.record, List.mem_map.2 ⟨arm, harm, rfl⟩, h⟩

/-- Wiring a declaration makes an enum of its arms, by their indices. -/
theorem indices_wire (d : Declaration) : d.wire.indices = d.arms.map (·.index) := by
  cases d with
  | composite record => rfl
  | variant name docs arms =>
    rw [wire, Statement.indices, List.map_map]
    rfl

/-- Wiring a declaration wires its own class. -/
theorem wires_wire (d : Declaration) : d.wire.wires = some d.name := by
  cases d <;> rfl

end Declaration

/-! ## Modules that are declared well -/

/-- Whether the declarations of a module, in whatever order, are those of the
declared types, and its events have fields of these types: no two of their
classes have one name, and the indices of arms are bytes and different. -/
structure ClientModule.WellDeclared (r : Registry) (names : ModuleNames) (m : ClientModule) : Prop where
  described : ∀ d ∈ m.declarations, ∃ id, Describes r names id d
  complete : ∀ id name, names.types.find? id = some name → ∃ d ∈ m.declarations, Describes r names id d
  spelled : ∀ cls ∈ m.events, ∀ f ∈ cls.record.fields, ∃ id, r.Spells names.types id f.type
  apart : (((m.declarations ++ [m.eventDeclaration]).flatMap Declaration.bound).map (·.name)).Nodup
  indexed : ∀ d ∈ m.declarations ++ [m.eventDeclaration],
    (d.arms.map (·.index)).Nodup ∧ ∀ index ∈ d.arms.map (·.index), index ≤ 255

namespace ClientModule.WellDeclared

variable {r : Registry} {names : ModuleNames} {m m' : ClientModule}

/-- The order of the declarations does not matter. Being declared well speaks of
each declaration and of names, and says nothing of which one comes first. -/
theorem rearranged (h : m.WellDeclared r names) (hperm : m'.declarations.Perm m.declarations)
    (hevents : m'.events = m.events) : m'.WellDeclared r names := by
  have hall : (m'.declarations ++ [m'.eventDeclaration]).Perm (m.declarations ++ [m.eventDeclaration]) := by
    rw [eventDeclaration, hevents]
    exact hperm.append_right _
  constructor
  case described => exact fun d hd => h.described d (hperm.subset hd)
  case complete =>
    intro id name hname
    obtain ⟨d, hd, hdescribes⟩ := h.complete id name hname
    exact ⟨d, hperm.symm.subset hd, hdescribes⟩
  case spelled => exact hevents ▸ h.spelled
  case apart => exact ((hall.flatMap_right _).map _).nodup_iff.2 h.apart
  case indexed => exact fun d hd => h.indexed d (hall.subset hd)

/-- The types of all fields are spelled out. -/
theorem spelled_all (h : m.WellDeclared r names) : ∀ d ∈ m.declarations ++ [m.eventDeclaration],
    ∀ record ∈ d.records, ∀ f ∈ record.fields, ∃ id, r.Spells names.types id f.type := by
  intro d hd
  rcases List.mem_append.1 hd with hd | hd
  · obtain ⟨id, hdescribes⟩ := h.described d hd
    exact hdescribes.spelled
  · intro record hrecord
    rw [List.mem_singleton.1 hd] at hrecord
    obtain ⟨cls, hcls, rfl⟩ := List.mem_map.1 hrecord
    exact h.spelled cls hcls

/-- All that a wiring statement names is a class of its declaration, or a
declared type. -/
theorem mentions_wire (h : m.WellDeclared r names) {d : Declaration} (hd : d ∈ m.declarations ++ [m.eventDeclaration])
    {name : String} (hname : name ∈ d.wire.mentions) :
    name ∈ d.bound.map (·.name) ∨ ∃ d' ∈ m.declarations, name ∈ d'.bound.map (·.name) := by
  refine (Declaration.mem_mentions_wire hname).imp_right ?_
  rintro ⟨record, hrecord, f, hf, hmem⟩
  obtain ⟨id, hspelled⟩ := h.spelled_all d hd record hrecord f hf
  obtain ⟨id', hid'⟩ := hspelled.classes name hmem
  obtain ⟨d', hd', hdescribes⟩ := h.complete id' name hid'
  obtain ⟨cls, hcls, hsame⟩ := d'.exists_bound_name
  have hfound : d'.name = name := Option.some.inj (hdescribes.name.symm.trans hid')
  exact ⟨d', hd', List.mem_map.2 ⟨cls, hcls, hsame.trans hfound⟩⟩

/-- A wiring statement is ready when the classes of its declaration and of all
declared types are bound. -/
theorem ready_wire (h : m.WellDeclared r names) {d : Declaration} (hd : d ∈ m.declarations ++ [m.eventDeclaration])
    {bound : List String} (hown : ∀ cls ∈ d.bound, cls.name ∈ bound)
    (hdeclared : ∀ d' ∈ m.declarations, ∀ cls ∈ d'.bound, cls.name ∈ bound) : d.wire.Ready bound := by
  have hmentions : ∀ name ∈ d.wire.mentions, name ∈ bound := by
    intro name hname
    rcases h.mentions_wire hd hname with hmem | ⟨d', hd', hmem⟩
    · obtain ⟨cls, hcls, rfl⟩ := List.mem_map.1 hmem
      exact hown cls hcls
    · obtain ⟨cls, hcls, rfl⟩ := List.mem_map.1 hmem
      exact hdeclared d' hd' cls hcls
  constructor
  case known => exact fun name hname => .inr (hmentions name hname)
  case declared => exact fun _ => hmentions
  case unread => exact d.reads_wire
  case indexed => exact d.indices_wire ▸ h.indexed d hd
  case methodless =>
    intro name opening body
    cases d <;> nofun

/-- **Every statement finds what it needs.** The statements fall into the four
parts of `declaring_eq`, and what each needs is bound by the parts before: the
wiring of a declaration needs the classes of all declarations, as their codecs
may name each other, and that of the events needs the classes of the events
besides. -/
theorem ready (h : m.WellDeclared r names) : Throughout Statement.Ready [] m.declaring := by
  -- The classes need none of the others, so their order among each other does not matter.
  have hclasses : ∀ {bound : List String} (ds : List Declaration),
      Throughout Statement.Ready bound (ds.flatMap fun d => d.classes.flatten) := by
    intro bound ds
    induction ds generalizing bound with
    | nil => exact trivial
    | cons d ds ih => exact Throughout.append_iff.2 ⟨d.ready_classes, ih⟩
  have hevent : m.eventDeclaration ∈ m.declarations ++ [m.eventDeclaration] :=
    List.mem_append_right _ (List.mem_singleton.2 rfl)
  have hbound : ∀ d ∈ m.declarations, ∀ cls ∈ d.bound, cls.name ∈
      (m.declarations.flatMap fun d => d.classes.flatten).flatMap Statement.boundNames := by
    intro d hd cls hcls
    rw [flatMap_boundNames, binds_declarations]
    exact List.mem_map.2 ⟨cls, List.mem_flatMap.2 ⟨d, hd, hcls⟩, rfl⟩
  rw [m.declaring_eq]
  refine Throughout.append_iff.2 ⟨hclasses _, Throughout.append_iff.2 ⟨?_, Throughout.append_iff.2
    ⟨ready_classesBelow (by decide), ?_, trivial⟩⟩⟩
  · refine .of_forall fun bound' _ hlarge s hs => .mono ?_ hlarge
    obtain ⟨d, hd, rfl⟩ := List.mem_map.1 hs
    exact h.ready_wire (List.mem_append_left _ hd) (hbound d hd) hbound
  · -- The event codec comes last, when the classes of the events are bound too.
    refine h.ready_wire hevent (fun cls hcls => List.mem_append_right _ ?_)
      fun d hd cls hcls => List.mem_append_left _ (List.mem_append_left _ (hbound d hd cls hcls))
    rw [flatMap_boundNames, binds_classesBelow]
    exact List.mem_map.2 ⟨cls, hcls, rfl⟩

/-- The names under which codecs are wired are different. -/
theorem names_nodup (h : m.WellDeclared r names) :
    ((m.declarations ++ [m.eventDeclaration]).map (·.name)).Nodup := by
  refine List.Nodup.sublist ?_ h.apart
  induction m.declarations ++ [m.eventDeclaration] with
  | nil => exact .refl _
  | cons d ds ih =>
    have hfirst : ∃ rest, d.bound.map (·.name) = d.name :: rest := by
      cases d <;> exact ⟨_, rfl⟩
    obtain ⟨rest, hrest⟩ := hfirst
    rw [List.map_cons, List.flatMap_cons, List.map_append, hrest, List.cons_append]
    exact (ih.trans (List.sublist_append_right _ _)).cons_cons _

/-- **The codecs that are wired** are those of the declarations in their order,
and then that of the events. The run is followed through its four parts, keeping
two things in view: which classes are bound, since the codecs are made for them,
and which classes are spoiled, since no instances are made below those. -/
theorem codecs (h : m.WellDeclared r names) {b : Bindings} (hrun : runStatements {} m.declaring = .ok b) :
    b.codecs = (m.declarations ++ [m.eventDeclaration]).map fun d => (d.name, d.codec) := by
  have hnodup := h.apart
  rw [List.flatMap_append, List.flatMap_singleton] at hnodup
  rw [m.declaring_eq] at hrun
  obtain ⟨b₁, hclasses, hrun⟩ := runStatements_append.1 hrun
  obtain ⟨b₂, hwiring, hrun⟩ := runStatements_append.1 hrun
  obtain ⟨b₃, hevents, hrun⟩ := runStatements_append.1 hrun
  obtain ⟨b₄, hevent, heq⟩ := bind_ok_iff.1 hrun
  cases heq
  -- First the classes of the declarations, and no codec.
  have hbound₁ : b₁.classes = (m.declarations.flatMap Declaration.bound).reverse := by
    rw [(runStatements_spec hclasses).classes, binds_declarations]
    exact List.append_nil _
  have hcodecs₁ : b₁.codecs = [] := by
    obtain ⟨wired, hwired, hnames⟩ := (runStatements_spec hclasses).codecs
    rw [wires_declarations, List.map_eq_nil_iff] at hnames
    rw [hwired, hnames]
    rfl
  have hfound₁ : ∀ d ∈ m.declarations, ∀ record ∈ d.records, b₁.class? record.name = some record.bound := by
    intro d hd record hrecord
    have hmem : record.bound ∈ b₁.classes := by
      rw [hbound₁, List.mem_reverse]
      exact List.mem_flatMap.2 ⟨d, hd, Declaration.bound_of_record hrecord⟩
    refine find?_of_nodup BoundClass.name ?_ hmem
    rw [hbound₁, List.map_reverse, List.nodup_reverse]
    exact (List.map_append ▸ hnodup).of_append_left
  -- A name belongs to one declaration, so each class is spoiled by its own arms or by none.
  have hsole : ∀ d ∈ m.declarations ++ [m.eventDeclaration], ∀ d' ∈ m.declarations ++ [m.eventDeclaration],
      d.name = d'.name → d = d' := fun d hd d' hd' hname => List.inj_on_of_nodup_map h.names_nodup hd hd' hname
  have hspoiled₁ : ∀ d ∈ m.declarations, b₁.spoiled.contains d.name = d.spoiled :=
    contains_spoiled (fun d hd d' hd' => hsole d (List.mem_append_left _ hd) d' (List.mem_append_left _ hd'))
      (List.flatMap_def ▸ hclasses)
  -- Then their codecs, and no class.
  obtain ⟨hbound₂, hcodecs₂⟩ := runStatements_wiring h.described hfound₁ hspoiled₁ hwiring
  -- Then the classes of the events, and the codec of the event class.
  have hspec₃ := runStatements_spec hevents
  rw [binds_classesBelow] at hspec₃
  have hcodecs₃ : b₃.codecs = b₂.codecs := by
    obtain ⟨wired, hwired, hnames⟩ := hspec₃.codecs
    rw [wires_classesBelow, List.map_eq_nil_iff] at hnames
    rw [hwired, hnames, List.append_nil]
  have hfound₃ : ∀ record ∈ m.eventDeclaration.records, b₃.class? record.name = some record.bound := by
    intro record hrecord
    have hmem : record.bound ∈ b₃.classes := by
      rw [hspec₃.classes]
      exact List.mem_append_left _ (List.mem_reverse.2 (Declaration.bound_of_record hrecord))
    refine find?_of_nodup BoundClass.name ?_ hmem
    rw [hspec₃.classes, hbound₂, hbound₁, ← List.reverse_append, List.map_reverse, List.nodup_reverse]
    exact hnodup
  have hmem : m.eventDeclaration ∈ m.declarations ++ [m.eventDeclaration] :=
    List.mem_append_right _ (List.mem_singleton.2 rfl)
  have hspoiled₃ : b₃.spoiled.contains m.eventDeclaration.name = m.eventDeclaration.spoiled := by
    rw [Bool.eq_iff_iff, List.contains_iff_mem, mem_spoiled_runStatements hevents, mem_spoiled_runStatements hwiring,
      mem_spoiled_declarations (List.flatMap_def ▸ hclasses), spoils_wiring, spoils_classesBelow]
    constructor
    · rintro ((⟨d, hd, hname, hmarked⟩ | hnone) | ⟨-, hmarked⟩)
      · rwa [hsole _ hmem d (List.mem_append_left _ hd) hname]
      · cases hnone
      · exact hmarked
    · exact fun hmarked => .inr ⟨rfl, hmarked⟩
  have hwired := wire_run (h.spelled_all m.eventDeclaration hmem) hfound₃ hspoiled₃ hevent
  subst hwired
  calc b₃.codecs ++ [(m.eventDeclaration.name, m.eventDeclaration.codec)]
    _ = m.declarations.map (fun d => (d.name, d.codec)) ++ [(m.eventDeclaration.name, m.eventDeclaration.codec)] := by
      rw [hcodecs₃, hcodecs₂, hcodecs₁, List.nil_append]
    _ = (m.declarations ++ [m.eventDeclaration]).map fun d => (d.name, d.codec) := by
      rw [List.map_append]
      rfl

/-- The part that declares wires one codec for each declaration, and one for the
events. -/
theorem wires (m : ClientModule) :
    m.declaring.filterMap Statement.wires = (m.declarations ++ [m.eventDeclaration]).map (·.name) := by
  have hwiring : (m.declarations.map Declaration.wire).filterMap Statement.wires = m.declarations.map (·.name) := by
    rw [List.filterMap_map, ← List.filterMap_eq_map]
    exact congrArg (List.filterMap · m.declarations) (funext Declaration.wires_wire)
  rw [m.declaring_eq, List.filterMap_append, List.filterMap_append, List.filterMap_append,
    wires_declarations, hwiring, wires_classesBelow, List.map_append]
  rfl

end ClientModule.WellDeclared

/-! ## The module of a document -/

section

variable {metadata : Metadata} {u : CompilationUnit} {runtimeModule handle : String} {m : ClientModule}

/-- The indices of the arms of a declared type are those of the document, where
they are bytes and different. -/
theorem Describes.indexed (hresolve : metadata.resolve = .ok u.registry) {names : ModuleNames} {id : TypeId}
    {d : Declaration} (h : Describes u.registry names id d) :
    (d.arms.map (·.index)).Nodup ∧ ∀ index ∈ d.arms.map (·.index), index ≤ 255 := by
  cases h with
  | composite he hdef hname hfields => exact ⟨List.nodup_nil, nofun⟩
  | @variant e arms name docs classes he hdef hname hclasses harms =>
    have hentry := entry?_of_resolve hresolve he
    have hreached : metadata.Reachable id := by
      refine ((Metadata.resolvesTo_of_resolve hresolve).reached id).1 (List.mem_map.2 ⟨e, ?_, ?_⟩)
      · exact List.mem_of_find?_eq_some he
      · exact Metadata.id_of_entry hentry
    have hdefinition : metadata.definition? id = some (.variant arms) :=
      hdef ▸ Metadata.definition?_of_entry hentry
    obtain ⟨hnodup, hbytes⟩ := ((Metadata.resolvable_of_resolve hresolve).sound id hreached).arms arms hdefinition
    have hindices : classes.map (·.index) = arms.map (·.index) :=
      map_eq_of_forall₂ harms fun arm cls h => h.1
    rw [Declaration.arms, hindices]
    exact ⟨hnodup, by simpa using hbytes⟩

/-- The names of the classes that are bound for a declaration: its own and those
of its arms. -/
theorem Declaration.bound_names (d : Declaration) :
    d.bound.map (·.name) = d.name :: d.arms.map (·.record.name) := by
  cases d with
  | composite record => rfl
  | variant name docs arms =>
    rw [Declaration.bound, List.map_cons, List.map_map]
    rfl

/-- **The module of a document is declared well.** What `WellDeclared` asks is
about names, spelled types and indices. The names come from the scopes in which
they were handed out, the types from spelling them, and the indices from
resolving, which has checked those of variants, and from compiling, which has
numbered the events. -/
theorem client_wellDeclared (hresolve : metadata.resolve = .ok u.registry)
    (hevents : u.events.map (·.discriminant) = List.range u.events.length ∧ u.events.length ≤ 256)
    (hclient : u.client runtimeModule handle = .ok m) :
    m.WellDeclared u.registry (u.moduleNames handle) := by
  obtain ⟨rfl, -⟩ := client_renders hclient
  have hcovers := client_covers hresolve hclient
  obtain ⟨-, -, hfields⟩ := events_of_client hclient
  have hdescribed : ∀ d ∈ m.declarations, ∃ id, Describes u.registry (u.moduleNames m.writtenHandle) id d := by
    intro d hd
    obtain ⟨id, -, hdescribes⟩ := exists_of_forall₂ hcovers.types hd
    exact ⟨id, hdescribes⟩
  constructor
  case described => exact hdescribed
  case complete =>
    intro id name hname
    obtain ⟨d, hdeclares, -⟩ := exists_declares hresolve hclient hname
    exact ⟨d, (mem_declarations (client_assembled hclient).declarations).2 ⟨id, hdeclares⟩,
      describes_of_declares hdeclares⟩
  case spelled =>
    intro cls hcls f hf
    obtain ⟨e, -, -, hof⟩ := exists_of_forall₂ hfields hcls
    obtain ⟨id, -, hspelled⟩ := exists_of_forall₂ hof.spelled hf
    exact ⟨id, hspelled⟩
  case apart =>
    -- The classes of a module are kept apart, and off the name of the event class.
    have hkept := classNames_apart hresolve hclient
    have hall : ("Event" :: m.classNames).Nodup :=
      List.nodup_cons.2 ⟨fun hmem => hkept.avoids _ hmem (by simp [moduleReserved]), hkept.nodup⟩
    have hdeclared : ((m.declarations.flatMap Declaration.bound).map (·.name)).Perm
        (m.declarations.map (·.name) ++ m.declarations.flatMap fun d => d.arms.map (·.record.name)) := by
      rw [List.map_flatMap, List.flatMap_congr fun d _ => d.bound_names]
      exact (List.map_append_flatMap_perm _ _ _).symm
    rw [List.flatMap_append, List.flatMap_singleton, List.map_append, Declaration.bound_names]
    have hfirst : ((m.declarations.flatMap Declaration.bound).map (·.name) ++
        m.eventDeclaration.name :: m.eventDeclaration.arms.map (·.record.name)).Perm
          ("Event" :: (m.declarations.map (·.name) ++ m.declarations.flatMap (fun d => d.arms.map (·.record.name)) ++
            m.events.map (·.record.name))) :=
      (hdeclared.append_right _).trans List.perm_middle
    refine hfirst.nodup_iff.2 (hall.sublist ?_)
    rw [ClientModule.classNames]
    exact (List.sublist_append_left _ _).cons_cons _
  -- Variants were checked when the registry was resolved, events are numbered from zero on.
  case indexed =>
    intro d hd
    rcases List.mem_append.1 hd with hd | hd
    · obtain ⟨id, hdescribes⟩ := hdescribed d hd
      exact hdescribes.indexed hresolve
    · have hindices : m.events.map (·.index) = List.range u.events.length := by
        rw [← hevents.1]
        exact map_eq_of_forall₂ hfields fun e cls h => h.1
      rw [List.mem_singleton.1 hd, ClientModule.eventDeclaration, Declaration.arms, hindices]
      refine ⟨List.nodup_range, fun index hindex => ?_⟩
      have := List.mem_range.1 hindex
      omega

end

/-! ## Names without a meaning of their own -/

/-- The classes of arms in a module, those of events too. -/
def ClientModule.arms (m : ClientModule) : List ArmClass :=
  m.declarations.flatMap Declaration.arms ++ m.events

/-- Whether no name of a module has a meaning in Python that stands in the way:
no field is called like an attribute of every class, or like an instance while
it is made; no arm is offered as an attribute that cannot be assigned; and
no class has the name of the module. -/
structure ClientModule.Ordinary (m : ClientModule) : Prop where
  fields : ∀ record ∈ m.records, ∀ f ∈ record.fields,
    nameIn record.name f.name ∉ inheritedAttributes ∧ nameIn record.name f.name ≠ instanceName
  offers : ∀ arm ∈ m.arms, arm.offeredAs ∉ unassignableAttributes
  classes : "__name__" ∉ m.classNames

/-- Attributes with ordinary names are in order. -/
theorem orderly_of_ordinary {attributes : List String}
    (h : ∀ name ∈ attributes, name ∉ inheritedAttributes ∧ name ≠ instanceName) : Orderly attributes where
  unchanging name hname hchange := (h name hname).1 (by
    have hinherited : ∀ name ∈ changeableAttributes.map (·.1), name ∈ inheritedAttributes := by decide +kernel
    exact hinherited name hchange)
  defaultsLast := List.pairwise_of_forall_mem_list fun earlier hearlier _ _ hmem =>
    absurd hmem (h earlier hearlier).1
  unmistakable _ hname := (h instanceName hname).2 rfl

/-- A class of records or an arm that is offered comes from the declarations or
the events. All other statements before the handle are admissible wherever they
stand, so these two kinds are the only ones that can stop an import there. -/
theorem ClientModule.mem_declaring {m : ClientModule} {s : Statement} (h : s ∈ m.declaring) :
    (∃ record parent index indexed, record ∈ m.records ∧ s = .recordClass record parent index indexed) ∨
      (∃ base cls, ∃ arm ∈ m.arms, s = .offer base arm.offeredAs cls) ∨ ∀ bound, s.Admissible bound := by
  -- Declarations and events offer their arms in the same way, below one class.
  have hbelow : ∀ {base parent : String} {docs : List String} {arms : List ArmClass},
      (∀ arm ∈ arms, arm ∈ m.arms ∧ arm.record ∈ m.records) → s ∈ classesBelow base parent docs arms →
      (∃ record parent index indexed, record ∈ m.records ∧ s = .recordClass record parent index indexed) ∨
        (∃ base cls, ∃ arm ∈ m.arms, s = .offer base arm.offeredAs cls) ∨ ∀ bound, s.Admissible bound := by
    intro base parent docs arms harms hs
    simp only [classesBelow, List.mem_cons, List.mem_append, List.mem_map] at hs
    obtain rfl | ⟨arm, harm, rfl⟩ | ⟨arm, harm, rfl⟩ := hs
    · exact .inr (.inr fun _ => trivial)
    · exact .inl ⟨_, _, _, _, (harms arm harm).2, rfl⟩
    · exact .inr (.inl ⟨_, _, arm, (harms arm harm).1, rfl⟩)
  have hwire : ∀ {d : Declaration}, s = d.wire → ∀ bound, s.Admissible bound := by
    rintro d rfl bound
    cases d <;> exact trivial
  rw [m.declaring_eq, List.mem_append, List.mem_append, List.mem_append] at h
  rcases h with h | h | h | h
  · obtain ⟨d, hd, hs⟩ := List.mem_flatMap.1 h
    cases d with
    | composite record =>
      have hrecord : record ∈ m.records :=
        List.mem_append_left _ (List.mem_flatMap.2 ⟨_, hd, List.mem_singleton.2 rfl⟩)
      exact .inl ⟨record, _, _, _, hrecord, List.mem_singleton.1 hs⟩
    | variant name docs arms =>
      rw [Declaration.flatten_classes_variant] at hs
      refine hbelow (fun arm harm => ⟨?_, ?_⟩) hs
      · exact List.mem_append_left _ (List.mem_flatMap.2 ⟨_, hd, harm⟩)
      · exact List.mem_append_left _ (List.mem_flatMap.2 ⟨_, hd, List.mem_map.2 ⟨arm, harm, rfl⟩⟩)
  · obtain ⟨d, -, hs⟩ := List.mem_map.1 h
    exact .inr (.inr (hwire hs.symm))
  · refine hbelow (fun arm harm => ⟨List.mem_append_right _ harm, ?_⟩) h
    exact List.mem_append_right _ (List.mem_map.2 ⟨arm, harm, rfl⟩)
  · exact .inr (.inr (hwire (List.mem_singleton.1 h)))

/-- The classes that are bound: those of the declarations and of the events. -/
theorem ClientModule.binds_declaring (m : ClientModule) : m.declaring.filterMap Statement.binds =
    (m.declarations ++ [m.eventDeclaration]).flatMap Declaration.bound := by
  have hwire : ∀ d : Declaration, d.wire.binds = none := by
    intro d
    cases d <;> rfl
  have hwiring : (m.declarations.map Declaration.wire).filterMap Statement.binds = [] := by
    rw [List.filterMap_map, List.filterMap_eq_nil_iff]
    exact fun d _ => hwire d
  rw [m.declaring_eq, List.filterMap_append, List.filterMap_append, List.filterMap_append,
    binds_declarations, hwiring, binds_classesBelow, List.filterMap_cons, hwire, List.filterMap_nil,
    List.append_nil, List.nil_append, List.flatMap_append, List.flatMap_singleton]
  rfl

/-- The names of the declared types, their arms and the events. -/
def ClientModule.declaredNames (m : ClientModule) : List String :=
  m.declarations.map (·.name) ++ m.declarations.flatMap (fun d => d.arms.map (·.record.name)) ++
    m.events.map (·.record.name)

/-- The part that declares binds `Event` and the names of the declarations, of
their arms and of the events. -/
theorem ClientModule.mem_boundNames_declaring {m : ClientModule} {name : String} :
    name ∈ m.declaring.flatMap Statement.boundNames ↔ name = "Event" ∨ name ∈ m.declaredNames := by
  have hdeclared : name ∈ (m.declarations.flatMap Declaration.bound).map (·.name) ↔
      name ∈ m.declarations.map (·.name) ∨ name ∈ m.declarations.flatMap fun d => d.arms.map (·.record.name) := by
    rw [List.map_flatMap, List.flatMap_congr fun d _ => d.bound_names, ← List.mem_append]
    exact (List.map_append_flatMap_perm _ _ _).symm.mem_iff
  rw [flatMap_boundNames, m.binds_declaring, List.flatMap_append, List.flatMap_singleton, List.map_append,
    List.mem_append, hdeclared, Declaration.bound_names, declaredNames, List.mem_append, List.mem_append, List.mem_cons]
  tauto

/-- With ordinary names all statements are admissible. Only classes of records
and offers can be refused: for the names of fields, for an offered name, and for
a class called `__name__` above them. -/
theorem admissible_of_ordinary {m : ClientModule} (h : m.Ordinary) :
    Throughout Statement.Admissible [] m.declaring := by
  refine .of_forall fun bound hsmall _ s hs => ?_
  have hname : "__name__" ∉ bound := by
    intro hmem
    have hbound := (hsmall _ hmem).resolve_left List.not_mem_nil
    rcases ClientModule.mem_boundNames_declaring.1 hbound with heq | hdeclared
    · exact absurd heq (by decide)
    · exact h.classes (List.mem_append_left _ hdeclared)
  rcases m.mem_declaring hs with ⟨record, parent, index, indexed, hrecord, rfl⟩ | ⟨base, cls, arm, harm, rfl⟩ | hany
  · refine ⟨orderly_of_ordinary fun name hmem => ?_, fun hmem => absurd hmem hname⟩
    rw [RecordClass.shape, mem_distinct] at hmem
    obtain ⟨f, hf, rfl⟩ := List.mem_map.1 hmem
    exact h.fields record hrecord f hf
  · exact h.offers arm harm
  · exact hany bound

/-! ## Executing -/

/-- What is true of the declaring part of a module whose declarations are those
of a unit. Each codec is wired once. A wiring statement names only classes that
are bound by an earlier one, and reads no codec. An enum is made of different
indices that are bytes. The whole is executed exactly if no statement meets a
name with a meaning of its own, which is the case if all names are ordinary.
Then the codecs are those of the declarations, and under the name of a type
stands the codec of its declaration. -/
structure ClientModule.WiredInOrder (u : CompilationUnit) (handle : String) (m : ClientModule) : Prop where
  once : m.declaring.filterMap Statement.wires = m.declarations.map (·.name) ++ ["Event"] ∧
    (m.declarations.map (·.name) ++ ["Event"]).Nodup
  known : ∀ before s after, m.declaring = before ++ s :: after → s.wires.isSome →
    ∀ name ∈ s.mentions, name ∈ before.flatMap Statement.boundNames
  unread : ∀ s ∈ m.declaring, s.reads = []
  indexed : ∀ s ∈ m.declaring, s.indices.Nodup ∧ ∀ index ∈ s.indices, index ≤ 255
  executes : (∃ b, runStatements {} m.declaring = .ok b) ↔ Throughout Statement.Admissible [] m.declaring
  ordinary : m.Ordinary → ∃ b, runStatements {} m.declaring = .ok b
  codecs : ∀ b, runStatements {} m.declaring = .ok b →
    b.codecs = (m.declarations ++ [m.eventDeclaration]).map fun d => (d.name, d.codec)
  resolved : ∀ b, runStatements {} m.declaring = .ok b → ∀ id name,
    (u.moduleNames handle).types.find? id = some name →
      ∃ d ∈ m.declarations, Describes u.registry (u.moduleNames handle) id d ∧
        b.environment.codec? name = some d.codec

/-- Modules that are declared well are wired in order. All but the last field
follow from what is ready and from the codecs that come of a run; the last one
finds the declaration of a type by its name, which no other declaration has. -/
theorem ClientModule.WellDeclared.wiredInOrder {u : CompilationUnit} {handle : String} {m : ClientModule}
    (h : m.WellDeclared u.registry (u.moduleNames handle)) : m.WiredInOrder u handle := by
  have hready := h.ready
  -- What a statement is on its own does not depend on where it stands.
  have hsplit : ∀ s ∈ m.declaring, ∃ bound, s.Ready bound := by
    intro s hs
    obtain ⟨before, after, heq⟩ := List.append_of_mem hs
    rw [heq] at hready
    exact ⟨_, hready.at_split⟩
  have hexecutes : (∃ b, runStatements {} m.declaring = .ok b) ↔
      Throughout Statement.Admissible [] m.declaring := runStatements_isOk_iff hready
  have hnames : (m.declarations ++ [m.eventDeclaration]).map (·.name) = m.declarations.map (·.name) ++ ["Event"] := by
    rw [List.map_append]
    rfl
  constructor
  case once => exact ⟨hnames ▸ wires m, hnames ▸ h.names_nodup⟩
  case known =>
    intro before s after heq hwires
    rw [heq] at hready
    simpa using hready.at_split.declared hwires
  case unread =>
    intro s hs
    obtain ⟨bound, hs⟩ := hsplit s hs
    exact hs.unread
  case indexed =>
    intro s hs
    obtain ⟨bound, hs⟩ := hsplit s hs
    exact hs.indexed
  case executes => exact hexecutes
  case ordinary => exact fun hordinary => hexecutes.2 (admissible_of_ordinary hordinary)
  case codecs => exact fun b hrun => h.codecs hrun
  -- The class of a type has its name from the type, and its codec under that name.
  case resolved =>
    intro b hrun id name hname
    obtain ⟨d, hd, hdescribes⟩ := h.complete id name hname
    refine ⟨d, hd, hdescribes, ?_⟩
    have hmem : (d.name, d.codec) ∈ b.codecs := by
      rw [h.codecs hrun]
      exact List.mem_map.2 ⟨d, List.mem_append_left _ hd, rfl⟩
    have hnodup : (b.codecs.map Prod.fst).Nodup := by
      rw [h.codecs hrun, List.map_map]
      exact h.names_nodup
    obtain rfl : d.name = name := Option.some.inj (hdescribes.name.symm.trans hname)
    rw [Environment.codec?, Bindings.environment, find?_of_nodup Prod.fst hnodup hmem]
    rfl

/-- The events of a compiled document are numbered from zero on, and there are
no more than a byte has values. -/
theorem compile_events {hash : HashFunction} {settings : Settings} {wasm : Option Bytes} {document : Document}
    {u : CompilationUnit} (h : document.compile hash settings wasm = .ok u) :
    u.events.map (·.discriminant) = List.range u.events.length ∧ u.events.length ≤ 256 := by
  obtain ⟨metadata, hfrom⟩ := exists_compiledFrom h
  exact describeEvents_discriminants hfrom.events

/-- **Declared types are wired in order.** A module that is generated from a
document declares its types and events first, one declaration for each declared
type. In this order of the declarations and in any other, the part that declares
is wired in order. What comes behind it wires nothing, so an import ends with
the codecs that this part has left. -/
theorem declarations_wired {hash : HashFunction} {settings : Settings} {wasm : Option Bytes} {document : Document}
    {u : CompilationUnit} (hcompile : document.compile hash settings wasm = .ok u) {runtimeModule handle : String}
    {m : ClientModule} (hclient : u.client runtimeModule handle = .ok m) :
    m.statements = m.declaring ++ m.calling ∧
      List.Forall₂ (Describes u.registry (u.moduleNames handle)) u.registry.declared m.declarations ∧
      (∀ m' : ClientModule, m'.declarations.Perm m.declarations → m'.events = m.events → m'.WiredInOrder u handle) ∧
      ∀ b, m.run = .ok b → ∃ b₀, runStatements {} m.declaring = .ok b₀ ∧ b.codecs = b₀.codecs := by
  obtain ⟨metadata, hresolve⟩ := compile_resolve hcompile
  have hdeclared := client_wellDeclared hresolve (compile_events hcompile) hclient
  refine ⟨m.statements_split, ?_, ?_, ?_⟩
  · obtain ⟨rfl, -⟩ := client_renders hclient
    exact (client_covers hresolve hclient).types
  · intro m' hperm hevents
    exact (hdeclared.rearranged hperm hevents).wiredInOrder
  · intro b hrun
    have hstatements := runStatements_of_run hrun
    rw [m.statements_split] at hstatements
    obtain ⟨b₀, hdeclaring, hcalling⟩ := runStatements_append.1 hstatements
    refine ⟨b₀, hdeclaring, ?_⟩
    obtain ⟨wired, hwired, hnames⟩ := (runStatements_spec hcalling).codecs
    rw [m.wires_calling, List.map_eq_nil_iff] at hnames
    rw [hwired, hnames, List.append_nil]

/-! ## A type that holds itself -/

/-- A document with a variant that holds itself by way of a sequence, and an
event that holds it. -/
def branchingDocument : Document :=
  .value (.obj [("version", .int 4), ("contract", .obj [("name", .str "c"), ("version", .str "1")]),
    ("types", .arr [
      .obj [("id", .int 0), ("type", .obj [("path", .arr [.str "Tree"]), ("def", .obj [
        ("variant", .obj [("variants", .arr [
          .obj [("name", .str "Leaf"), ("index", .int 3)],
          .obj [("name", .str "Branch"), ("index", .int 1),
            ("fields", .arr [.obj [("name", .str "below"), ("type", .int 1)]])]])])])])],
      .obj [("id", .int 1), ("type", .obj [("def", .obj [("sequence", .obj [("type", .int 0)])])])]]),
    ("spec", .obj [
      ("constructors", .arr []), ("messages", .arr []),
      ("events", .arr [.obj [("label", .str "Grown"), ("args", .arr [
        .obj [("label", .str "tree"), ("type", .obj [("type", .int 0)])]])]])])])

/-- The unit of the document. -/
def branchingUnit : CompilationUnit :=
  { contractName := "c", contractVersion := "1"
    registry := ⟨[{ id := 0, path := ["Tree"],
                    definition := .variant [{ name := "Leaf", index := 3 },
                      { name := "Branch", index := 1, fields := [{ name := some "below", typeId := 1 }] }] },
        { id := 1, definition := .sequence 0 }], [0]⟩
    constructors := [], messages := []
    events := [{ name := "Grown", discriminant := 0, fields := [⟨"tree", 0, false⟩], docs := [] }]
    codeHash := none, bytecode := none }

/-- The document compiles. -/
theorem branching_compile : branchingDocument.compile id transferSettings none = .ok branchingUnit := by
  cbv

/-- The names under which the declaring part of a module wires codecs, or why it
fails. -/
def wiredNames (u : CompilationUnit) : Except String (List String) := do
  let m ← (u.client "inkgen.runtime" "Instance").mapError SpellError.message
  let b ← (runStatements {} m.declaring).mapError ImportError.kind
  return b.codecs.map (·.1)

/-- The type and the events are wired, and the name of the type finds its
declaration. -/
theorem declarations_wired_branching :
    ∃ m b, branchingDocument.compile id transferSettings none = .ok branchingUnit ∧
      branchingUnit.client "inkgen.runtime" "Instance" = .ok m ∧ m.WiredInOrder branchingUnit "Instance" ∧
      runStatements {} m.declaring = .ok b ∧ b.codecs.map (·.1) = ["Tree", "Event"] ∧
      ∃ d ∈ m.declarations, Describes branchingUnit.registry (branchingUnit.moduleNames "Instance") 0 d ∧
        b.environment.codec? "Tree" = some d.codec := by
  have hnames : wiredNames branchingUnit = .ok ["Tree", "Event"] := by decide +kernel
  obtain ⟨m, hm, hnames⟩ := bind_ok_iff.1 hnames
  obtain ⟨b, hb, heq⟩ := bind_ok_iff.1 hnames
  have hclient := mapError_ok_iff.1 hm
  have hrun := mapError_ok_iff.1 hb
  have hwired := (declarations_wired branching_compile hclient).2.2.1 m (.refl _) rfl
  have hfound := hwired.resolved b hrun 0 "Tree" (by decide +kernel)
  exact ⟨m, b, branching_compile, hclient, hwired, hrun, Except.ok.inj heq, hfound⟩

/-! ## A name that is in the way -/

/-- A document with a record whose first field is called like an attribute of
every class. -/
def inheritedDocument : Document :=
  .value (.obj [("version", .int 4), ("contract", .obj [("name", .str "c"), ("version", .str "1")]),
    ("types", .arr [
      .obj [("id", .int 0), ("type", .obj [("def", .obj [("primitive", .str "u8")])])],
      .obj [("id", .int 1), ("type", .obj [("path", .arr [.str "P"]), ("def", .obj [
        ("composite", .obj [("fields", .arr [
          .obj [("name", .str "mro"), ("type", .int 0)], .obj [("name", .str "x"), ("type", .int 0)]])])])])]]),
    ("spec", .obj [
      ("constructors", .arr []),
      ("messages", .arr [
        .obj [("label", .str "send"), ("args", .arr [.obj [("label", .str "p"), ("type", .obj [("type", .int 1)])]]),
          ("mutates", .bool true), ("selector", .str "0x00000001")]]),
      ("events", .arr [])])])

/-- The unit of the document. -/
def inheritedUnit : CompilationUnit :=
  { contractName := "c", contractVersion := "1"
    registry := ⟨[{ id := 1, path := ["P"],
                    definition := .composite [{ name := some "mro", typeId := 0 }, { name := some "x", typeId := 0 }] },
        { id := 0, definition := .primitive (.unsigned .w8) }], [1]⟩
    constructors := []
    messages := [{ kind := .message, label := "send", name := .ungrouped "send", selector := [0, 0, 0, 1],
                   args := [("p", 1)], returnType := none, mutates := true, payable := false, docs := [] }]
    events := [], codeHash := none, bytecode := none }

/-- The document is accepted and its module cannot be imported: `mro` takes what
its class inherits for a default, and `x` has none. -/
theorem declaring_refused :
    inheritedDocument.compile id transferSettings none = .ok inheritedUnit ∧
      ∃ m, inheritedUnit.client "inkgen.runtime" "Instance" = .ok m ∧
        (∀ b, runStatements {} m.declaring ≠ .ok b) ∧ ∀ b, m.run ≠ .ok b := by
  have hrefused : wiredNames inheritedUnit = .error (ImportError.defaultOrder "x").kind := by decide +kernel
  have hmade : ((inheritedUnit.client "inkgen.runtime" "Instance").mapError SpellError.message).isOk = true := by
    decide +kernel
  obtain ⟨m, hm⟩ := exists_ok hmade
  have hdeclaring : ∀ b, runStatements {} m.declaring ≠ .ok b := by
    intro b hb
    rw [wiredNames, hm] at hrefused
    simp [bind, Except.bind, hb, Except.mapError, pure, Except.pure] at hrefused
  refine ⟨by cbv, m, mapError_ok_iff.1 hm, hdeclaring, fun b hb => ?_⟩
  have hstatements := runStatements_of_run hb
  rw [m.statements_split] at hstatements
  obtain ⟨b₀, hb₀, -⟩ := runStatements_append.1 hstatements
  exact hdeclaring b₀ hb₀

end ContractClient