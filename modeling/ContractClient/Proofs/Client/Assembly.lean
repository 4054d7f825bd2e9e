/-
How a client is put together.

The client of a unit is made in steps of which each can fail, and whatever is
said of a client that was made is said of what one of its steps gave.
`client_assembled` opens these steps once: each part of the module is what its
own step gives, made from the same unit and the same names. A method keeps the
label of what it describes and the name that it is given, so lists of methods
keep both in their order.
-/
import ContractClient.Client.Module
import ContractClient.Proofs.Client.Allocation
import ContractClient.Proofs.Outcome

set_option autoImplicit false

namespace ContractClient

/-! ## Methods -/

section

variable {r : Registry} {names : ModuleNames} {handle name : String} {d : MethodDescriptor} {f : ClientMethod}
  {ds : List MethodDescriptor} {methodNames : List String} {fs : List ClientMethod}

/-- A method has the name that was handed out for it and the label of its
descriptor. -/
theorem clientMethod_named (h : clientMethod r names handle d name = .ok f) : f.name = name ∧ f.label = d.label := by
  obtain ⟨parameters, -, h⟩ := bind_ok_iff.1 h
  obtain ⟨action, -, heq⟩ := bind_ok_iff.1 h
  cases heq
  exact ⟨rfl, rfl⟩

/-- Methods have the names that they are given. -/
theorem clientMethods_names (hlen : methodNames.length = ds.length)
    (h : clientMethods r names handle ds methodNames = .ok fs) : fs.map (·.name) = methodNames := by
  rw [map_eq_of_forall₂ (f := Prod.snd) (mapM_ok_iff.1 h) fun _ _ hf => (clientMethod_named hf).1]
  exact List.map_snd_zip (Nat.le_of_eq hlen)

/-- Methods have the labels of their descriptors, in the same order. -/
theorem clientMethods_labels (hlen : methodNames.length = ds.length)
    (h : clientMethods r names handle ds methodNames = .ok fs) : fs.map (·.label) = ds.map (·.label) := by
  rw [map_eq_of_forall₂ (f := fun p => p.1.label) (mapM_ok_iff.1 h) fun _ _ hf => (clientMethod_named hf).2,
    ← Function.comp_def MethodDescriptor.label Prod.fst, ← List.map_map, List.map_fst_zip (Nat.le_of_eq hlen.symm)]

/-- Each method was made from one of the descriptors. -/
theorem exists_of_clientMethods (h : clientMethods r names handle ds methodNames = .ok fs) :
    ∀ f ∈ fs, ∃ d ∈ ds, ∃ name, clientMethod r names handle d name = .ok f := by
  intro f hf
  obtain ⟨⟨d, name⟩, hd, hstep⟩ := exists_of_forall₂ (mapM_ok_iff.1 h) hf
  exact ⟨d, (List.of_mem_zip hd).1, name, hstep⟩

end

/-! ## Interfaces -/

section

variable {u : CompilationUnit} {handle : String}

/-- The interfaces are named in the order in which they first appear in the
unit. -/
theorem moduleNames_interfaces : (u.moduleNames handle).interfaces.map (·.1) = u.interfaces := by
  unfold CompilationUnit.moduleNames
  dsimp only
  exact List.map_fst_zip (Nat.le_of_eq (by rw [NameAllocator.length_allocateAll, List.length_map]))

/-- The members of the handle have a name for each constructor, each own message
and each interface. -/
theorem length_handleMembers (u : CompilationUnit) (handle : String) :
    u.handleMembers.1.length = u.constructors.length ∧
    u.handleMembers.2.1.length = u.ownMessages.length ∧
    u.handleMembers.2.2.length = (u.moduleNames handle).interfaces.length := by
  have hinterfaces : (u.moduleNames handle).interfaces.length = u.interfaces.length := by
    rw [← moduleNames_interfaces, List.length_map]
  rw [hinterfaces]
  simp only [CompilationUnit.handleMembers, NameAllocator.length_allocateAll, List.length_map, and_self]

/-- The names of the methods of an interface. -/
def methodNamesOf (u : CompilationUnit) (interface : String) : List String :=
  distinctNames CompilationUnit.interfaceReserved
    ((u.messagesOf interface).map fun d => Identifier.ofLabel d.name.base)

/-- A name is handed out for each message of an interface. -/
theorem length_methodNamesOf (interface : String) :
    (methodNamesOf u interface).length = (u.messagesOf interface).length := by
  rw [methodNamesOf, length_distinctNames, List.length_map]

/-- An interface is made of its names and of the methods of its messages. -/
structure InterfaceMade (u : CompilationUnit) (handle : String) (given : (String × String) × String)
    (i : InterfaceClass) : Prop where
  interface : i.interface = given.1.1
  name : i.name = given.1.2
  accessor : i.accessor = given.2
  methods : clientMethods u.registry (u.moduleNames handle) handle (u.messagesOf i.interface)
    (methodNamesOf u i.interface) = .ok i.methods

/-- A class that was made for an interface is made as `InterfaceMade` says. -/
theorem interfaceClass_made {given : (String × String) × String} {i : InterfaceClass}
    (h : u.interfaceClass (u.moduleNames handle) handle given.1.1 given.1.2 given.2 = .ok i) :
    InterfaceMade u handle given i := by
  obtain ⟨methods, hmethods, heq⟩ := bind_ok_iff.1 h
  cases heq
  exact ⟨rfl, rfl, rfl, hmethods⟩

end

/-! ## The whole client -/

/-- Whether each part of a module is what is made of a unit for it. -/
structure Assembled (u : CompilationUnit) (handle : String) (m : ClientModule) : Prop where
  codeHash : m.codeHash = u.codeHash
  codeLength : m.codeLength = u.bytecode.map (·.length)
  selectors : m.selectors = (u.constructors ++ u.messages).map fun d => (d.label, d.selector)
  declarations : declarations u.registry (u.moduleNames handle) = .ok m.declarations
  events : eventClasses u.registry (u.moduleNames handle) u.events = .ok m.events
  interfaces : List.Forall₂ (InterfaceMade u handle)
    ((u.moduleNames handle).interfaces.zip u.handleMembers.2.2) m.interfaces
  constructors : clientMethods u.registry (u.moduleNames handle) handle u.constructors u.handleMembers.1 =
    .ok m.constructors
  messages : clientMethods u.registry (u.moduleNames handle) handle u.ownMessages u.handleMembers.2.1 =
    .ok m.messages
  written : m.writtenHandle = handle
  handle : m.handle = Text.normalForm m.writtenHandle

section

variable {u : CompilationUnit} {runtimeModule handle : String} {m : ClientModule}

/-- **A client is put together from its parts.** -/
theorem client_assembled (h : u.client runtimeModule handle = .ok m) : Assembled u handle m := by
  unfold CompilationUnit.client at h
  obtain ⟨declarations, hdeclarations, h⟩ := bind_ok_iff.1 h
  obtain ⟨events, hevents, h⟩ := bind_ok_iff.1 h
  obtain ⟨interfaces, hinterfaces, h⟩ := bind_ok_iff.1 h
  obtain ⟨constructors, hconstructors, h⟩ := bind_ok_iff.1 h
  obtain ⟨messages, hmessages, heq⟩ := bind_ok_iff.1 h
  cases heq
  exact ⟨rfl, rfl, rfl, hdeclarations, hevents,
    (mapM_ok_iff.1 hinterfaces).imp fun _ _ => interfaceClass_made, hconstructors, hmessages, rfl, rfl⟩

/-- The methods of an interface are made for its messages. -/
theorem Assembled.interface (h : Assembled u handle m) {i : InterfaceClass} (hi : i ∈ m.interfaces) :
    clientMethods u.registry (u.moduleNames handle) handle (u.messagesOf i.interface) (methodNamesOf u i.interface) =
      .ok i.methods := by
  obtain ⟨given, -, hmade⟩ := exists_of_forall₂ h.interfaces hi
  exact hmade.methods

/-- The interfaces of an assembled client, their class names and their accessors
are those handed out for the unit. -/
theorem Assembled.interface_names (h : Assembled u handle m) :
    m.interfaces.map (·.interface) = u.interfaces ∧
      m.interfaces.map (·.name) = (u.moduleNames handle).interfaces.map (·.2) ∧
      m.interfaces.map (·.accessor) = u.handleMembers.2.2 := by
  have hlen := (length_handleMembers u handle).2.2
  refine ⟨?_, ?_, ?_⟩
  · rw [map_eq_of_forall₂ (f := fun p => p.1.1) h.interfaces fun _ _ hi => hi.interface,
      ← Function.comp_def Prod.fst Prod.fst, ← List.map_map, List.map_fst_zip (Nat.le_of_eq hlen.symm)]
    exact moduleNames_interfaces
  · rw [map_eq_of_forall₂ (f := fun p => p.1.2) h.interfaces fun _ _ hi => hi.name,
      ← Function.comp_def Prod.snd Prod.fst, ← List.map_map, List.map_fst_zip (Nat.le_of_eq hlen.symm)]
  · rw [map_eq_of_forall₂ (f := Prod.snd) h.interfaces fun _ _ hi => hi.accessor]
    exact List.map_snd_zip (Nat.le_of_eq hlen)

end

end ContractClient
