/-
The names of a generated module, scope by scope.

A module has one scope at its top level, and one for each class: the fields of
a class of records, the arms that a variant or the event class offers, the
methods of an interface, the members of the handle. Each scope is one run of an
allocator, and what one run hands out is different and avoids what it was told
to, `HandsOut.apart`. At the top level the run goes through four phases, and a
later one goes on where the earlier one stopped; so all four are one run,
`moduleNames_handsOut`, and the handle, which the settings keep off the reserved
names, is kept off all of them.

The names are handed out in the order of the type numbers and used in the order
of the declarations. They are found by the number of the type in between, so
what is used is a rearrangement of what was handed out, and nothing of it is
left over: `classNames_perm`.
-/
import ContractClient.Proofs.Client.Calls
import ContractClient.Proofs.Registry.Resolution
import ContractClient.Settings

set_option autoImplicit false

namespace ContractClient

open NameAllocator (HandsOut reserving allocateAll_handsOut allocateGroups_handsOut length_allocateAll)

/-! ## One scope -/

/-- Whether the names of a scope are different and none of them is reserved. -/
structure KeptApart (reserved names : List String) : Prop where
  nodup : names.Nodup
  avoids : ∀ name ∈ names, name ∉ reserved

namespace KeptApart

variable {reserved names : List String}

/-- No names are kept apart. -/
theorem nil (reserved : List String) : KeptApart reserved [] :=
  ⟨List.nodup_nil, by simp⟩

/-- What is handed out in one run is kept apart. -/
theorem of_handsOut {a : NameAllocator} (h : HandsOut (reserving reserved) names a) : KeptApart reserved names :=
  ⟨h.nodup, h.notTaken⟩

/-- Names handed out one after the other are kept apart, whatever was asked
for. -/
theorem distinctNames (reserved requests : List String) : KeptApart reserved (distinctNames reserved requests) :=
  of_handsOut (allocateAll_handsOut _ requests)

/-- The order of the names does not matter. -/
theorem perm {names' : List String} (h : KeptApart reserved names) (hperm : names'.Perm names) :
    KeptApart reserved names' :=
  ⟨hperm.nodup_iff.2 h.nodup, fun name hname => h.avoids name (hperm.subset hname)⟩

/-- Together with reserved names that are different themselves, all are
different. -/
theorem nodup_append (h : KeptApart reserved names) (hreserved : reserved.Nodup) : (reserved ++ names).Nodup :=
  List.Nodup.append hreserved h.nodup fun name hmem hname => h.avoids name hname hmem

end KeptApart

/-! ## The top level -/

/-- The names of all classes, in the order in which they are handed out. -/
def ModuleNames.classes (names : ModuleNames) : List String :=
  names.types.map (·.2) ++ (names.arms.map (·.2)).flatten ++ names.events ++ names.interfaces.map (·.2)

section

variable (u : CompilationUnit) (handle : String)

/-- What the names of events are handed out by, and what is left of it. -/
abbrev eventAllocation : List String × NameAllocator :=
  (armAllocation u handle).2.allocateAll (u.events.map fun e => "Event_" ++ Identifier.ofClass e.name)

/-- What the names of interfaces are handed out by, and what is left of it. -/
abbrev interfaceAllocation : List String × NameAllocator :=
  (eventAllocation u handle).2.allocateAll (u.interfaces.map Identifier.ofClass)

/-- The names of all classes are what the four phases hand out. They are stored
by types and arms, and this says that nothing is lost or added by storing them
so. -/
theorem classes_eq : (u.moduleNames handle).classes = (typeAllocation u handle).1 ++
    (armAllocation u handle).1.flatten ++ (eventAllocation u handle).1 ++ (interfaceAllocation u handle).1 := by
  have htypes : (u.moduleNames handle).types.map (·.2) = (typeAllocation u handle).1 := by
    rw [moduleNames_types]
    exact List.map_snd_zip (Nat.le_of_eq (length_typeAllocation u handle))
  have harms : (u.moduleNames handle).arms.map (·.2) = (armAllocation u handle).1 := by
    rw [moduleNames_arms]
    exact List.map_snd_zip (Nat.le_of_eq (length_armAllocation u handle))
  have hinterfaces : (u.moduleNames handle).interfaces.map (·.2) = (interfaceAllocation u handle).1 := by
    refine List.map_snd_zip (Nat.le_of_eq ?_)
    rw [length_allocateAll, List.length_map]
  rw [ModuleNames.classes, htypes, harms, hinterfaces]
  rfl

/-- **The four phases are one run**, off the reserved names and the handle. -/
theorem moduleNames_handsOut : HandsOut (reserving (moduleReserved ++ [handle])) (u.moduleNames handle).classes
    (interfaceAllocation u handle).2 := by
  have first : HandsOut (reserving (moduleReserved ++ [handle])) (typeAllocation u handle).1
      (typeAllocation u handle).2 := allocateAll_handsOut _ _
  have second : HandsOut (typeAllocation u handle).2 (armAllocation u handle).1.flatten
      (armAllocation u handle).2 := allocateGroups_handsOut _ _
  have third : HandsOut (armAllocation u handle).2 (eventAllocation u handle).1 (eventAllocation u handle).2 :=
    allocateAll_handsOut _ _
  have fourth : HandsOut (eventAllocation u handle).2 (interfaceAllocation u handle).1
      (interfaceAllocation u handle).2 := allocateAll_handsOut _ _
  rw [classes_eq]
  exact ((first.append second).append third).append fourth

/-- Each event of a unit has a name. -/
theorem length_events : (u.moduleNames handle).events.length = u.events.length := by
  unfold CompilationUnit.moduleNames
  dsimp only
  rw [length_allocateAll, List.length_map]

variable {u handle}

/-- What is found under numbers that are different is what was put there. -/
theorem eq_map_of_zip {α : Type} {ids : List TypeId} {xs : List α} (found : TypeId → α) (hnodup : ids.Nodup)
    (hlen : xs.length = ids.length)
    (hfound : ∀ id p, (ids.zip xs).find? (·.1 == id) = some p → found id = p.2) : xs = ids.map found := by
  have hids : (ids.zip xs).map Prod.fst = ids := List.map_fst_zip (Nat.le_of_eq hlen.symm)
  calc xs = (ids.zip xs).map Prod.snd := (List.map_snd_zip (Nat.le_of_eq hlen)).symm
    _ = (ids.zip xs).map (found ∘ Prod.fst) := List.map_congr_left fun p hp =>
        (hfound p.1 p (find?_of_nodup Prod.fst (hids.symm ▸ hnodup) hp)).symm
    _ = ids.map found := by rw [← List.map_map, hids]

/-- The name of a type, for a type that has one. -/
def ModuleNames.typeName (names : ModuleNames) (id : TypeId) : String :=
  (names.types.find? id).getD ""

/-- The names of types in the order of declarations. -/
theorem types_perm (hnodup : u.registry.declared.Nodup) :
    (u.registry.declared.map (u.moduleNames handle).typeName).Perm ((u.moduleNames handle).types.map (·.2)) := by
  have hsorted : u.registry.declared.mergeSort.Nodup := (List.mergeSort_perm _ _).nodup_iff.2 hnodup
  have hnames := eq_map_of_zip (u.moduleNames handle).typeName hsorted (length_typeAllocation u handle)
    fun id p hp => by
      unfold ModuleNames.typeName TypeNames.find?
      rw [moduleNames_types, hp]
      rfl
  rw [moduleNames_types, List.map_snd_zip (Nat.le_of_eq (length_typeAllocation u handle)), hnames]
  exact ((List.mergeSort_perm _ _).map _).symm

/-- The names of arms in the order of declarations. -/
theorem arms_perm (hnodup : u.registry.declared.Nodup) :
    (u.registry.declared.flatMap (u.moduleNames handle).armsOf).Perm
      ((u.moduleNames handle).arms.map (·.2)).flatten := by
  have hsorted : u.registry.declared.mergeSort.Nodup := (List.mergeSort_perm _ _).nodup_iff.2 hnodup
  have hnames := eq_map_of_zip (u.moduleNames handle).armsOf hsorted (length_armAllocation u handle)
    fun id p hp => by
      unfold ModuleNames.armsOf
      rw [moduleNames_arms, hp]
      rfl
  rw [moduleNames_arms, List.map_snd_zip (Nat.le_of_eq (length_armAllocation u handle)), hnames, ← List.flatMap_def]
  exact ((List.mergeSort_perm _ _).flatMap_right _).symm

end

/-! ## What a module names -/

namespace ClientModule

/-- The classes of records in a module. -/
def records (m : ClientModule) : List RecordClass :=
  m.declarations.flatMap Declaration.records ++ m.events.map (·.record)

/-- The members of the handle: constructors, messages, and the interfaces as
properties. -/
def handleNames (m : ClientModule) : List String :=
  m.constructors.map (·.name) ++ m.messages.map (·.name) ++ m.interfaces.map (·.accessor)

/-- Whether a module declares what a unit asks for, each once and under the
names that are handed out. -/
structure Covers (m : ClientModule) (u : CompilationUnit) : Prop where
  types : List.Forall₂ (Describes u.registry (u.moduleNames m.writtenHandle)) u.registry.declared m.declarations
  events : List.Forall₂ (fun e cls => cls.index = e.discriminant ∧ FieldsOf u.registry (u.moduleNames m.writtenHandle)
    (e.fields.map fun f => (some f.name, f.typeId)) cls.record.fields) u.events m.events
  methods : RendersAll u m

/-- Whether no two names clash that are handed out for a module, in any of its
scopes. The handle at the top level is not handed out but given. -/
structure ScopesApart (m : ClientModule) : Prop where
  classes : (moduleReserved ++ m.classNames).Nodup
  fields : ∀ record ∈ m.records, KeptApart memberReserved (record.fields.map (·.name))
  arms : ∀ d ∈ m.declarations, KeptApart memberReserved (d.arms.map (·.offeredAs))
  events : KeptApart memberReserved (m.events.map (·.offeredAs))
  interfaces : ∀ i ∈ m.interfaces, KeptApart CompilationUnit.interfaceReserved (i.methods.map (·.name))
  handle : KeptApart CompilationUnit.handleReserved m.handleNames

/-- Whether no two names of a module clash in any of its scopes, the handle
under the name that it stands for. -/
structure NamedApart (m : ClientModule) : Prop where
  topLevel : (moduleReserved ++ [m.handle] ++ m.classNames).Nodup
  scopes : m.ScopesApart

/-- Where the other names are different, the name that the handle stands for is
all that can clash. -/
theorem topLevel_nodup_iff {m : ClientModule} (h : (moduleReserved ++ m.classNames).Nodup) :
    (moduleReserved ++ [m.handle] ++ m.classNames).Nodup ↔ m.HandleApart := by
  have hmiddle : (moduleReserved ++ [m.handle] ++ m.classNames).Perm
      (m.handle :: (moduleReserved ++ m.classNames)) := by
    rw [List.append_assoc, List.singleton_append]
    exact List.perm_middle
  rw [hmiddle.nodup_iff, List.nodup_cons, List.mem_append, not_or]
  exact and_iff_left h

end ClientModule

/-! ## Declarations -/

section

variable {r : Registry} {names : ModuleNames} {id : TypeId} {d : Declaration}

/-- The arms of a variant are offered under names of one run. -/
theorem Describes.arms_apart (h : Describes r names id d) : KeptApart memberReserved (d.arms.map (·.offeredAs)) := by
  cases h with
  | composite => exact .nil _
  | variant he hdef hname hclasses harms hoffered => exact hoffered.symm ▸ KeptApart.distinctNames _ _

/-- The fields of a class are named in one run. -/
theorem FieldsOf.apart {given : List (Option String × TypeId)} {fields : List ClientField}
    (h : FieldsOf r names given fields) : KeptApart memberReserved (fields.map (·.name)) :=
  h.named.symm ▸ KeptApart.distinctNames _ _

/-- The fields of each class of a declaration are kept apart from each other and
from what a class has of its own. -/
theorem Describes.fields_apart (h : Describes r names id d) :
    ∀ record ∈ d.records, KeptApart memberReserved (record.fields.map (·.name)) := by
  intro record hrecord
  cases h with
  | composite he hdef hname hfields =>
    rw [List.mem_singleton.1 hrecord]
    exact hfields.apart
  | variant he hdef hname hclasses harms =>
    obtain ⟨cls, hcls, rfl⟩ := List.mem_map.1 hrecord
    obtain ⟨arm, -, -, hfields⟩ := exists_of_forall₂ harms hcls
    exact hfields.apart

/-- No field of a class is called like what is missing from the arms below a
spoiled class. -/
theorem RecordClass.fields_free {record : RecordClass}
    (h : KeptApart memberReserved (record.fields.map (·.name))) (vs : List Value) :
    missingAttribute ∉ (((record.fields.map ClientField.codec).map (·.1)).zip vs).map (·.1) := by
  intro hmem
  obtain ⟨p, hp, hname⟩ := List.mem_map.1 hmem
  have hfield := (List.of_mem_zip hp).1
  rw [List.map_map] at hfield
  exact h.avoids _ (hname ▸ hfield) (by decide)

/-- The classes of arms have the names that are handed out for the type: none if
it is no variant. -/
theorem Describes.arms_named (h : Describes r names id d)
    (hlen : (names.armsOf id).length = (r.armRequests id "").length) :
    d.arms.map (·.record.name) = names.armsOf id := by
  cases h with
  | composite he hdef hname hfields =>
    rw [Registry.armRequests, Registry.definition?_of_entry he hdef] at hlen
    exact (List.length_eq_zero_iff.1 hlen).symm
  | variant he hdef hname hclasses harms => exact hclasses

end

/-- Where each step makes something, keeping what was made loses nothing. -/
theorem forall₂_filterMap_id {α β : Type} {R : α → β → Prop} {as : List α} {made : List (Option β)}
    (h : List.Forall₂ (fun a o => ∃ b, o = some b ∧ R a b) as made) :
    List.Forall₂ R as (made.filterMap fun o => o) := by
  induction h with
  | nil => exact .nil
  | cons hhead _ ih =>
    obtain ⟨b, rfl, hb⟩ := hhead
    exact .cons hb ih

/-! ## A generated module -/

section

variable {metadata : Metadata} {u : CompilationUnit} {runtimeModule handle : String} {m : ClientModule}

/-- Each declared type has one declaration, in the order of declarations. -/
theorem declarations_declare (hresolve : metadata.resolve = .ok u.registry)
    (hclient : u.client runtimeModule handle = .ok m) :
    List.Forall₂ (Declares u.registry (u.moduleNames handle)) u.registry.declared m.declarations := by
  obtain ⟨found, hfound, heq⟩ := bind_ok_iff.1 (client_assembled hclient).declarations
  rw [← Except.ok.inj heq]
  refine forall₂_filterMap_id (forall₂_imp_of_mem (mapM_ok_iff.1 hfound) fun id hid made hmade => ?_)
  obtain ⟨name, hname⟩ := exists_name handle hid
  obtain ⟨d, ⟨name', hname', hd⟩, -⟩ := exists_declares hresolve hclient hname
  rw [hname'] at hmade
  exact ⟨d, Except.ok.inj (hmade.symm.trans hd), name', hname', hd⟩

/-- The classes of events, each with its name, what it is offered as, and the
fields of the event. Events, names and offers are zipped when the classes are
made; they have one length, so no event is left out. -/
theorem events_of_client (hclient : u.client runtimeModule handle = .ok m) :
    m.events.map (·.record.name) = (u.moduleNames handle).events ∧
      m.events.map (·.offeredAs) = armAttributes (u.events.map (·.name)) ∧
      List.Forall₂ (fun e cls => cls.index = e.discriminant ∧ FieldsOf u.registry (u.moduleNames handle)
        (e.fields.map fun f => (some f.name, f.typeId)) cls.record.fields) u.events m.events := by
  have hattributes : (armAttributes (u.events.map (·.name))).length = u.events.length := by
    rw [length_armAttributes, List.length_map]
  obtain ⟨hgiven, hnames, hoffered⟩ := unzip_zip_zip (length_events u handle) hattributes
  have hsteps := mapM_ok_iff.1 (client_assembled hclient).events
  -- One class at a time; the three statements below read the three parts off the whole list.
  have hstep : ∀ (p : EventDescriptor × String × String) cls,
      eventClass u.registry (u.moduleNames handle) p.1 p.2.1 p.2.2 = .ok cls →
        cls.record.name = p.2.1 ∧ cls.offeredAs = p.2.2 ∧ cls.index = p.1.discriminant ∧
          FieldsOf u.registry (u.moduleNames handle) (p.1.fields.map fun f => (some f.name, f.typeId))
            cls.record.fields := by
    intro p cls hcls
    obtain ⟨fields, hfields, heq⟩ := bind_ok_iff.1 hcls
    cases heq
    exact ⟨rfl, rfl, rfl, fieldsOf_clientFields hfields⟩
  refine ⟨?_, ?_, ?_⟩
  · rw [map_eq_of_forall₂ (f := fun p => p.2.1) hsteps fun p cls hcls => (hstep p cls hcls).1, hnames]
  · rw [map_eq_of_forall₂ (f := fun p => p.2.2) hsteps fun p cls hcls => (hstep p cls hcls).2.1, hoffered]
  · nth_rewrite 1 [← hgiven]
    rw [List.forall₂_map_left_iff]
    exact hsteps.imp fun p cls hcls => (hstep p cls hcls).2.2

/-- The members of a handle are handed out in one scope: constructors first,
then messages, then interfaces. A name that a constructor takes is not there for
a message. -/
theorem handleMembers_handsOut (u : CompilationUnit) : ∃ a, HandsOut (reserving CompilationUnit.handleReserved)
    (u.handleMembers.1 ++ u.handleMembers.2.1 ++ u.handleMembers.2.2) a :=
  ⟨_, ((allocateAll_handsOut _ _).append (allocateAll_handsOut _ _)).append (allocateAll_handsOut _ _)⟩

/-- The classes of interfaces have methods of one run. -/
theorem interfaces_apart (hclient : u.client runtimeModule handle = .ok m) :
    ∀ i ∈ m.interfaces, KeptApart CompilationUnit.interfaceReserved (i.methods.map (·.name)) := by
  intro i hi
  rw [clientMethods_names (length_methodNamesOf i.interface) ((client_assembled hclient).interface hi)]
  exact .distinctNames _ _

/-- The members of the handle are those that are handed out for it. -/
theorem handleNames_of_client (hclient : u.client runtimeModule handle = .ok m) :
    m.handleNames = u.handleMembers.1 ++ u.handleMembers.2.1 ++ u.handleMembers.2.2 := by
  have hmade := client_assembled hclient
  obtain ⟨hconstructors, hmessages, -⟩ := length_handleMembers u handle
  simp only [ClientModule.handleNames, hmade.interface_names.2.2, clientMethods_names hconstructors hmade.constructors,
    clientMethods_names hmessages hmade.messages]

/-- **The classes of a module are what is handed out at its top level**, in
another order. -/
theorem classNames_perm (hresolve : metadata.resolve = .ok u.registry)
    (hclient : u.client runtimeModule handle = .ok m) :
    m.classNames.Perm (u.moduleNames handle).classes := by
  have hdeclares := declarations_declare hresolve hclient
  have hnodup : u.registry.declared.Nodup :=
    ((Metadata.resolvesTo_of_resolve hresolve).declaredOnce).filter _
  have htypes : m.declarations.map (·.name) = u.registry.declared.map (u.moduleNames handle).typeName := by
    refine map_eq_of_forall₂ hdeclares fun id d hd => ?_
    rw [ModuleNames.typeName, (describes_of_declares hd).name]
    rfl
  have harms : m.declarations.flatMap (fun d => d.arms.map (·.record.name)) =
      u.registry.declared.flatMap (u.moduleNames handle).armsOf := by
    rw [List.flatMap_def, List.flatMap_def]
    refine congrArg List.flatten (map_eq_of_forall₂ hdeclares fun id d hd => ?_)
    have hdeclared := declared_of_name (describes_of_declares hd).name
    exact (describes_of_declares hd).arms_named (length_armsOf_requests hdeclared)
  rw [ClientModule.classNames, ModuleNames.classes, htypes, harms, (events_of_client hclient).1,
    (client_assembled hclient).interface_names.2.1]
  exact (((types_perm hnodup).append (arms_perm hnodup)).append_right _).append_right _

/-- A module declares what its unit asks for. -/
theorem client_covers (hresolve : metadata.resolve = .ok u.registry)
    (hclient : u.client runtimeModule handle = .ok m) : m.Covers u := by
  obtain ⟨rfl, hrenders⟩ := client_renders hclient
  exact ⟨(declarations_declare hresolve hclient).imp fun _ _ => describes_of_declares,
    (events_of_client hclient).2.2, hrenders⟩

/-- The classes of a module are kept off what every module binds and off the
handle as it is written. -/
theorem classNames_apart (hresolve : metadata.resolve = .ok u.registry)
    (hclient : u.client runtimeModule handle = .ok m) :
    KeptApart (moduleReserved ++ [m.writtenHandle]) m.classNames := by
  rw [(client_renders hclient).1]
  exact (KeptApart.of_handsOut (moduleNames_handsOut u handle)).perm (classNames_perm hresolve hclient)

/-- No names clash that are handed out for a module. Each field of `ScopesApart`
is one scope, and the names of a scope come from one run of an allocator; the
lemmas above say so scope by scope. -/
theorem client_scopesApart (hresolve : metadata.resolve = .ok u.registry)
    (hclient : u.client runtimeModule handle = .ok m) : m.ScopesApart := by
  obtain ⟨a, hmembers⟩ := handleMembers_handsOut u
  obtain ⟨-, hoffered, hevents⟩ := events_of_client hclient
  -- Each scope takes its names from one run of an allocator.
  constructor
  case classes =>
    have hkept := classNames_apart hresolve hclient
    exact KeptApart.nodup_append ⟨hkept.nodup, fun name hname hmem =>
      hkept.avoids name hname (List.mem_append_left _ hmem)⟩ (by decide +kernel)
  case fields =>
    intro record hrecord
    rcases List.mem_append.1 hrecord with hdeclared | hevent
    · obtain ⟨d, hd, hrecord⟩ := List.mem_flatMap.1 hdeclared
      obtain ⟨id, -, hdeclares⟩ := exists_of_forall₂ (declarations_declare hresolve hclient) hd
      exact (describes_of_declares hdeclares).fields_apart record hrecord
    · obtain ⟨cls, hcls, rfl⟩ := List.mem_map.1 hevent
      obtain ⟨e, -, -, hfields⟩ := exists_of_forall₂ hevents hcls
      exact hfields.apart
  case arms =>
    intro d hd
    obtain ⟨id, -, hdeclares⟩ := exists_of_forall₂ (declarations_declare hresolve hclient) hd
    exact (describes_of_declares hdeclares).arms_apart
  case events => exact hoffered.symm ▸ KeptApart.distinctNames _ _
  case interfaces => exact interfaces_apart hclient
  case handle => exact handleNames_of_client hclient ▸ KeptApart.of_handsOut hmembers

end

/-! ## The name of the handle -/

namespace Text

/-- A name in ASCII stands for itself. -/
theorem normalForm_eq_self {s : String} (h : ∀ c ∈ s.toList, c.toNat < 0x80) : normalForm s = s := by
  have hforms : s.toList.flatMap asciiForm = s.toList.flatMap fun c => [c] :=
    List.flatMap_congr fun c hc => if_pos (h c hc)
  rw [normalForm, hforms, List.flatMap_singleton', String.ofList_toList]

end Text

/-- Settings that pass the check write the handle like nothing that every module
binds. -/
theorem notMem_reserved_of_check {draft : Settings.Draft} {settings : Settings} (h : draft.check = .ok settings) :
    settings.handleName ∉ moduleReserved := by
  unfold Settings.Draft.check at h
  split at h
  · cases h
  split at h
  · cases h
  split at h
  · cases h
  rename_i hreserved
  split at h
  · cases h
  cases h
  simpa using hreserved

/-- A handle in ASCII stands for the name that it is written with, and that name
is kept apart. -/
theorem handleApart_of_ascii {metadata : Metadata} {u : CompilationUnit} {runtimeModule : String} {m : ClientModule}
    {draft : Settings.Draft} {settings : Settings} (hresolve : metadata.resolve = .ok u.registry)
    (hcheck : draft.check = .ok settings) (hclient : u.client runtimeModule settings.handleName = .ok m)
    (hascii : ∀ c ∈ settings.handleName.toList, c.toNat < 0x80) : m.HandleApart := by
  have hwritten : m.writtenHandle = settings.handleName := (client_renders hclient).1
  have hhandle : m.handle = settings.handleName := by
    rw [(client_assembled hclient).handle, hwritten, Text.normalForm_eq_self hascii]
  refine ⟨hhandle ▸ notMem_reserved_of_check hcheck, fun hmem => ?_⟩
  refine (classNames_apart hresolve hclient).avoids _ hmem (List.mem_append_right _ ?_)
  rw [hhandle, hwritten]
  exact List.mem_singleton_self _

/-- **Which names clash.** Let a document compile and a draft of settings pass
the check. The reserved names, the handle as it is written and the names that
are handed out for classes are all different. A module that is generated for the
handle declares all types, arms, events, interfaces and methods of the unit,
under names that are different within each of its scopes and avoid what is
reserved there, apart from the handle. The handle is bound under its
compatibility form: no two names of the module clash exactly if this form is no
reserved name and no name of a class. That is so for every handle in ASCII; the
check looks only at what is written, and lets other handles pass whose form is
taken. -/
theorem names_kept_apart {hash : HashFunction} {given : Settings} {wasm : Option Bytes} {document : Document}
    {u : CompilationUnit} (hcompile : document.compile hash given wasm = .ok u) {draft : Settings.Draft}
    {settings : Settings} (hcheck : draft.check = .ok settings) :
    (moduleReserved ++ [settings.handleName] ++ (u.moduleNames settings.handleName).classes).Nodup ∧
      ∀ runtimeModule m, u.client runtimeModule settings.handleName = .ok m →
        m.writtenHandle = settings.handleName ∧ m.handle = Text.normalForm settings.handleName ∧
          m.Covers u ∧ m.ScopesApart ∧ (m.NamedApart ↔ m.HandleApart) ∧
            ((∀ c ∈ settings.handleName.toList, c.toNat < 0x80) → m.HandleApart) := by
  obtain ⟨metadata, hresolve⟩ := compile_resolve hcompile
  have hreserved : (moduleReserved ++ [settings.handleName]).Nodup :=
    List.Nodup.append (by decide +kernel) (List.nodup_singleton _) (by simpa using notMem_reserved_of_check hcheck)
  have hrun := moduleNames_handsOut u settings.handleName
  refine ⟨(KeptApart.of_handsOut hrun).nodup_append hreserved, fun runtimeModule m hclient => ?_⟩
  have hwritten : m.writtenHandle = settings.handleName := (client_renders hclient).1
  have hscopes := client_scopesApart hresolve hclient
  refine ⟨hwritten, hwritten ▸ (client_assembled hclient).handle, client_covers hresolve hclient, hscopes, ?_,
    handleApart_of_ascii hresolve hcheck hclient⟩
  rw [← ClientModule.topLevel_nodup_iff hscopes.classes]
  exact ⟨fun h => h.topLevel, fun h => ⟨h, hscopes⟩⟩

/-! ## Names that meet -/

/-- A document in which a type, its arms, an interface and a message ask for
names that are reserved or given away. -/
def crowdedDocument : Document :=
  .value (.obj [("version", .int 4), ("contract", .obj [("name", .str "c"), ("version", .str "1")]),
    ("types", .arr [
      .obj [("id", .int 0), ("type", .obj [("path", .arr [.str "Hash"]), ("def", .obj [
        ("variant", .obj [("variants", .arr [
          .obj [("name", .str "x y"), ("index", .int 0)], .obj [("name", .str "x_y"), ("index", .int 1)]])])])])]]),
    ("spec", .obj [
      ("constructors", .arr []),
      ("messages", .arr [
        .obj [("label", .str "Hash::get"), ("args", .arr []), ("mutates", .bool false),
          ("returnType", .obj [("type", .int 0)]), ("selector", .str "0x00000001")],
        .obj [("label", .str "hash"), ("args", .arr []), ("mutates", .bool false),
          ("selector", .str "0x00000002")]]),
      ("events", .arr [.obj [("label", .str "Sent"), ("args", .arr [])]])])])

/-- The unit of the document. -/
def crowdedUnit : CompilationUnit :=
  { contractName := "c", contractVersion := "1"
    registry := ⟨[{ id := 0, path := ["Hash"],
                    definition := .variant [{ name := "x y", index := 0 }, { name := "x_y", index := 1 }] }], [0]⟩
    constructors := []
    messages := [{ kind := .message, label := "Hash::get", name := .grouped "Hash" "get", selector := [0, 0, 0, 1],
                   args := [], returnType := some 0, mutates := false, payable := false, docs := [] },
      { kind := .message, label := "hash", name := .ungrouped "hash", selector := [0, 0, 0, 2],
        args := [], returnType := none, mutates := false, payable := false, docs := [] }]
    events := [{ name := "Sent", discriminant := 0, fields := [], docs := [] }], codeHash := none, bytecode := none }

theorem crowded_compile : crowdedDocument.compile id transferSettings none = .ok crowdedUnit := by
  cbv

/-- In its module the names have numbers where they met, and none of them
clash. -/
theorem names_kept_apart_crowded :
    ∃ m, Settings.Draft.check {} = .ok transferSettings ∧
      crowdedDocument.compile id transferSettings none = .ok crowdedUnit ∧
      crowdedUnit.client "inkgen.runtime" "Instance" = .ok m ∧
      m.classNames = ["Hash2", "Hash2_x_y", "Hash2_x_y2", "Event_Sent", "Hash3"] ∧
      m.handleNames = ["hash", "hash2"] ∧ m.NamedApart := by
  have hcheck : Settings.Draft.check {} = .ok transferSettings := by decide +kernel
  have hnames : (crowdedUnit.client "inkgen.runtime" "Instance").toOption.map
      (fun m => (m.classNames, m.handleNames)) =
        some (["Hash2", "Hash2_x_y", "Hash2_x_y2", "Event_Sent", "Hash3"], ["hash", "hash2"]) := by decide +kernel
  obtain ⟨m, hm, heq⟩ := Option.map_eq_some_iff.1 hnames
  obtain ⟨hclasses, hmembers⟩ := Prod.mk.inj heq
  have hclient : crowdedUnit.client "inkgen.runtime" "Instance" = .ok m := toOption_eq_some_iff.1 hm
  obtain ⟨-, -, -, -, hapart, hascii⟩ := (names_kept_apart crowded_compile hcheck).2 _ m hclient
  exact ⟨m, hcheck, crowded_compile, hclient, hclasses, hmembers, hapart.2 (hascii (by simp [transferSettings]))⟩

/-- Settings whose handle opens with a long s, which stands for the name of the
runtime's codecs. -/
def longSettings : Settings :=
  { transferSettings with handleName := "ſcale" }

/-- The check accepts them, and the module that they make binds the handle over
the codecs. -/
theorem handle_over_codecs :
    ∃ m, Settings.Draft.check { handleName := "ſcale" } = .ok longSettings ∧
      crowdedDocument.compile id longSettings none = .ok crowdedUnit ∧
      crowdedUnit.client "inkgen.runtime" "ſcale" = .ok m ∧ m.handle = "scale" ∧ "scale" ∈ moduleReserved ∧
      ¬ m.NamedApart := by
  have hcheck : Settings.Draft.check { handleName := "ſcale" } = .ok longSettings := by decide +kernel
  have hcompile : crowdedDocument.compile id longSettings none = .ok crowdedUnit := by cbv
  have hnames : (crowdedUnit.client "inkgen.runtime" "ſcale").toOption.map (·.handle) = some "scale" := by
    decide +kernel
  obtain ⟨m, hm, hhandle⟩ := Option.map_eq_some_iff.1 hnames
  have hreserved : "scale" ∈ moduleReserved := by decide
  refine ⟨m, hcheck, hcompile, toOption_eq_some_iff.1 hm, hhandle, hreserved, fun hapart => ?_⟩
  have hnodup := (List.nodup_append'.1 hapart.topLevel).1
  exact List.disjoint_of_nodup_append hnodup hreserved (List.mem_singleton.2 hhandle.symm)

end ContractClient
