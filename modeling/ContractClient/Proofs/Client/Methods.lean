/-
What generated methods are made from, and what they find.

A generated method comes from a described constructor or message. Its parameters
are those of the description in their order, with the types spelled out that the
description has numbers for, and under names that no type has; the rest of it is
what the description says. `Renders` is this relation, and the methods of a
module are related to the descriptions of the unit in their order and with none
left out.

So a method that sees the classes of its types finds the codecs that the
document declares.
-/
import ContractClient.Proofs.Client.Grounded
import ContractClient.Proofs.Client.Lookup

set_option autoImplicit false

namespace ContractClient

open Codec

/-! ## Descriptions and methods -/

/-- Whether a method is generated from a description. -/
structure Renders (u : CompilationUnit) (handle : String) (d : MethodDescriptor) (f : ClientMethod) : Prop where
  label : f.label = d.label
  payable : f.payable = d.payable
  types : List.Forall₂ (fun a p => u.registry.spell (u.moduleNames handle).types a.2 = .ok p.type) d.args
    f.parameters
  names : ∀ p ∈ f.parameters, ∀ id name, (u.moduleNames handle).types.find? id = some name → p.name ≠ name
  action : clientAction u.registry (u.moduleNames handle) d = .ok f.action

section

variable {u : CompilationUnit} {handle : String}

/-- Each argument has a parameter. -/
theorem length_parameterNames (reserved : List String) (d : MethodDescriptor) :
    (distinctNames reserved (d.args.map fun a => Identifier.ofArgument a.1)).length = d.args.length := by
  rw [length_distinctNames, List.length_map]

/-- **Parameters have the types of the arguments, and names that no type has.**
Names are handed out in a scope in which those of all types are taken, so a
parameter that keeps its name hides no class. What a private name is changed to
in a class is not looked at there. -/
theorem clientMethod_renders {d : MethodDescriptor} {name : String} {f : ClientMethod}
    (h : clientMethod u.registry (u.moduleNames handle) handle d name = .ok f) : Renders u handle d f := by
  obtain ⟨ps, hps, h⟩ := bind_ok_iff.1 h
  obtain ⟨action, haction, heq⟩ := bind_ok_iff.1 h
  cases heq
  have hsteps := mapM_ok_iff.1 hps
  have hlen := length_parameterNames (parameterReserved (u.moduleNames handle) handle) d
  refine ⟨rfl, rfl, ?_, ?_, haction⟩
  -- There are as many names as arguments, so the zip loses none of them.
  · have hzip := List.map_snd_zip (Nat.le_of_eq ((List.length_map Prod.snd).trans hlen.symm))
    have htypes : List.Forall₂ (fun id p => u.registry.spell (u.moduleNames handle).types id = .ok p.type)
        (d.args.map Prod.snd) ps := by
      rw [← hzip, List.forall₂_map_left_iff]
      refine hsteps.imp ?_
      rintro ⟨name, id⟩ p hp
      obtain ⟨t, ht, heq⟩ := bind_ok_iff.1 hp
      cases heq
      exact ht
    exact List.forall₂_map_left_iff.1 htypes
  · intro p hp id name hname heq
    obtain ⟨⟨given, id'⟩, hgiven, hstep⟩ := exists_of_forall₂ hsteps hp
    obtain ⟨t, -, hmade⟩ := bind_ok_iff.1 hstep
    cases hmade
    -- The names of types are among those that parameters are kept off.
    refine (NameAllocator.allocateAll_handsOut _ _).notTaken _ (List.of_mem_zip hgiven).1 ?_
    refine List.mem_append_left _ (List.mem_append_right _ (List.mem_map.2 ⟨(id, name), ?_, heq.symm⟩))
    exact ModuleNames.mem_types hname

/-- Methods made from descriptors render them, one by one. -/
theorem clientMethods_render {ds : List MethodDescriptor} {methodNames : List String}
    (hlen : methodNames.length = ds.length) {fs : List ClientMethod}
    (h : clientMethods u.registry (u.moduleNames handle) handle ds methodNames = .ok fs) :
    List.Forall₂ (Renders u handle) ds fs := by
  nth_rewrite 1 [← List.map_fst_zip (Nat.le_of_eq hlen.symm)]
  rw [List.forall₂_map_left_iff]
  exact (mapM_ok_iff.1 h).imp fun p f hf => clientMethod_renders hf

/-- Whether the methods of a module are generated from the descriptions of a
unit, in their order. -/
structure RendersAll (u : CompilationUnit) (m : ClientModule) : Prop where
  constructors : List.Forall₂ (Renders u m.writtenHandle) u.constructors m.constructors
  messages : List.Forall₂ (Renders u m.writtenHandle) u.ownMessages m.messages
  interfaces : ∀ i ∈ m.interfaces, List.Forall₂ (Renders u m.writtenHandle) (u.messagesOf i.interface) i.methods
  complete : m.interfaces.map (·.interface) = u.interfaces

/-- All methods of a client render descriptors of its unit: constructors,
messages of the handle, and messages of interfaces. -/
theorem client_renders {runtimeModule : String} {m : ClientModule} (h : u.client runtimeModule handle = .ok m) :
    m.writtenHandle = handle ∧ RendersAll u m := by
  have hmade := client_assembled h
  obtain rfl := hmade.written
  obtain ⟨hconstructors, hmessages, -⟩ := length_handleMembers u m.writtenHandle
  exact ⟨rfl, clientMethods_render hconstructors hmade.constructors, clientMethods_render hmessages hmade.messages,
    fun i hi => clientMethods_render (length_methodNamesOf i.interface) (hmade.interface hi),
    hmade.interface_names.1⟩

end

/-! ## The codecs that a method finds -/

/-- The classes of several expressions are those of each. -/
theorem TypeExpr.classesOf_eq_flatMap (ts : List TypeExpr) : classesOf ts = ts.flatMap classes := by
  induction ts with
  | nil => simp only [classesOf, List.flatMap_nil]
  | cons t rest ih => simp only [classesOf, List.flatMap_cons, ih]

/-- The classes in an expression are those of types. An expression names a class
only where a type has a name, by induction on how it was spelled. -/
theorem Registry.Spells.classes {r : Registry} {names : TypeNames} {id : TypeId} {t : TypeExpr}
    (h : r.Spells names id t) : ∀ name ∈ t.classes, ∃ id, names.find? id = some name := by
  induction h with
  | named hname =>
    intro name hmem
    simp only [TypeExpr.classes, List.mem_singleton] at hmem
    exact ⟨_, hmem ▸ hname⟩
  | newtype | primitive | compact | bytes | fixedBytes =>
    intro name hmem
    simp only [TypeExpr.classes, List.not_mem_nil] at hmem
  | seq _ _ _ _ ih | array _ _ _ _ ih | option _ _ _ _ ih =>
    simpa only [TypeExpr.classes] using ih
  | result _ _ _ _ _ _ ihx ihy =>
    intro name hmem
    simp only [TypeExpr.classes, List.mem_append] at hmem
    exact hmem.elim (ihx name) (ihy name)
  | @tuple _ items e xs _ _ hlen _ ih =>
    intro name hmem
    simp only [TypeExpr.classes, TypeExpr.classesOf_eq_flatMap, List.mem_flatMap] at hmem
    obtain ⟨x, hx, hmem⟩ := hmem
    rw [← List.map_snd_zip (Nat.le_of_eq hlen.symm)] at hx
    obtain ⟨p, hp, rfl⟩ := List.mem_map.1 hx
    exact ih p hp name hmem

namespace ClientMethod

/-- Whether a method finds all classes in the types of its parameters. -/
def SeesArguments (f : ClientMethod) (cls : String) : Prop :=
  ∀ p ∈ f.parameters, ∀ name ∈ p.type.classes, f.Sees cls name

end ClientMethod

section

variable {u : CompilationUnit} {handle cls : String} {d : MethodDescriptor} {f : ClientMethod} {b : Bindings}
  {args : List Value} {ε : Type}

/-- A class that a method sees is hidden by no variable. -/
theorem Renders.notMem_locals (h : Renders u handle d f) (hlen : args.length = f.parameters.length) (sent : Bool)
    {id : TypeId} {name : String} (hname : (u.moduleNames handle).types.find? id = some name)
    (hsees : f.Sees cls name) : name ∉ (f.locals cls args sent).map (·.1) := by
  rw [ClientMethod.mem_locals hlen]
  rintro (hown | ⟨p, hp, hparameter⟩)
  · exact hsees.own hown
  · -- A parameter that is not private goes by its own name, which no type has.
    by_cases hprivate : nameIn cls p.name = p.name
    · exact h.names p hp id name hname (hprivate.symm.trans hparameter)
    · exact hsees.parameters p hp hprivate hparameter

/-- **What is seen is found**, before a call and after it. -/
theorem Renders.codec_of_sees (h : Renders u handle d f) (hlen : args.length = f.parameters.length) (sent : Bool)
    {id : TypeId} {t : TypeExpr} {c : Codec} (ht : u.registry.spell (u.moduleNames handle).types id = .ok t)
    (hc : u.HasCodec handle b id c) (hsees : ∀ name ∈ t.classes, f.Sees cls name) :
    (f.scope b cls args sent).codec (ε := ε) t = .ok c := by
  obtain ⟨t', ht', hc⟩ := hc
  cases ht.symm.trans ht'
  refine Scope.codec_of_sees hc fun name hname => ⟨(hsees name hname).shared, ?_⟩
  obtain ⟨id', hid'⟩ := (Registry.spells_of_spell ht).classes name hname
  exact h.notMem_locals hlen sent hid' (hsees name hname)

/-- The codecs of the arguments are those of the declared types. -/
theorem Renders.codecs_of_sees (h : Renders u handle d f) (hlen : args.length = f.parameters.length)
    {codecs : List Codec} (hcodecs : List.Forall₂ (fun a c => u.HasCodec handle b a.2 c) d.args codecs)
    (hsees : f.SeesArguments cls) : f.codecs (ε := ε) (f.scope b cls args false) = .ok codecs := by
  obtain ⟨hparameters, htypes⟩ := List.forall₂_iff_get.1 h.types
  obtain ⟨hnumber, hall⟩ := List.forall₂_iff_get.1 hcodecs
  unfold ClientMethod.codecs
  refine mapM_ok_iff.2 (List.forall₂_iff_get.2 ⟨hparameters.symm.trans hnumber, fun i hi hi' => ?_⟩)
  have hi'' : i < d.args.length := hparameters ▸ hi
  exact h.codec_of_sees hlen false (htypes i hi'' hi) (hall i hi'' hi') (hsees _ (List.get_mem _ _))

end

end ContractClient
