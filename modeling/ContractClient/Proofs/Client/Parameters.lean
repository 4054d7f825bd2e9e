/-
What the names in the body of a method refer to.

A body looks a name up among the variables of the method first, which are the
parameters of the document and a few that all methods have, and in the module
after them: `referent`. The parameters are kept off everything else that is
named there. They avoid the other variables since a base among them gets an
underscore and no number behind a base makes one, and they avoid the types, the
handle and what every module binds since the allocator does. So the constants of
the module are found under their names, and, in a module that can be imported,
each parameter is.

The classes of types are kept off the parameters and off the constants, but not
off the other variables. A class that has the name of one of them, or a name
that is private in the class of the method, is not found; `Sees` says when it
is.
-/
import ContractClient.Proofs.Client.Calls
import ContractClient.Proofs.Client.Identifier
import ContractClient.Proofs.Client.Namespaces
import ContractClient.Proofs.Client.Scoping
import ContractClient.Proofs.Surface.Description

set_option autoImplicit false

namespace ContractClient

/-! ## Parameters and other variables -/

/-- **No parameter has the name of another variable.** -/
theorem argumentReserved_apart (reserved : List String) (args : List (String × TypeId)) :
    KeptApart argumentReserved (distinctNames reserved (args.map fun a => Identifier.ofArgument a.1)) := by
  refine ⟨distinctNames_nodup _ _, fun name hname => ?_⟩
  obtain ⟨base, hbase, hcases⟩ := NameAllocator.allocateAll_cases name hname
  obtain ⟨a, -, heq⟩ := List.mem_map.1 hbase
  rcases hcases with rfl | ⟨n, rfl⟩
  · rw [← heq]
    exact argumentReserved_endInLetters.avoid_notMem _
  · exact argumentReserved_endInLetters.numbered_notMem base n

/-! ## The parameters of a method -/

section

variable {u : CompilationUnit} {runtimeModule handle : String} {m : ClientModule}

/-- The names of parameters are handed out for the labels of the arguments, in
their order, in a scope in which the names of the module are taken. -/
theorem clientMethod_parameters {r : Registry} {names : ModuleNames} {d : MethodDescriptor} {name : String}
    {f : ClientMethod} (h : clientMethod r names handle d name = .ok f) : f.parameters.map (·.name) =
      distinctNames (parameterReserved names handle) (d.args.map fun a => Identifier.ofArgument a.1) := by
  obtain ⟨ps, hps, h⟩ := bind_ok_iff.1 h
  obtain ⟨action, -, heq⟩ := bind_ok_iff.1 h
  cases heq
  have hsteps := mapM_ok_iff.1 hps
  have hlen := length_parameterNames (parameterReserved names handle) d
  rw [← List.map_fst_zip (Nat.le_of_eq (hlen.trans (List.length_map Prod.snd).symm))]
  refine map_eq_of_forall₂ hsteps ?_
  rintro ⟨given, id⟩ p hp
  obtain ⟨t, -, heq⟩ := bind_ok_iff.1 hp
  cases heq
  rfl

/-- **Every method of a module is generated** from the description of a
constructor or a message. -/
theorem exists_of_methods (hclient : u.client runtimeModule handle = .ok m) : ∀ p ∈ m.methods,
    ∃ d ∈ u.constructors ++ u.messages, ∃ name,
      clientMethod u.registry (u.moduleNames handle) handle d name = .ok p.2 := by
  have hmade := client_assembled hclient
  rintro ⟨cls, f⟩ hp
  rcases List.mem_append.1 hp with hp | hp
  · obtain ⟨i, hi, hp⟩ := List.mem_flatMap.1 hp
    obtain ⟨f', hf, heq⟩ := List.mem_map.1 hp
    cases heq
    obtain ⟨d, hd, hstep⟩ := exists_of_clientMethods (hmade.interface hi) f hf
    exact ⟨d, List.mem_append_right _ (List.mem_filter.1 hd).1, hstep⟩
  · obtain ⟨f', hf, heq⟩ := List.mem_map.1 hp
    cases heq
    rcases List.mem_append.1 hf with hf | hf
    · obtain ⟨d, hd, hstep⟩ := exists_of_clientMethods hmade.constructors f hf
      exact ⟨d, List.mem_append_left _ hd, hstep⟩
    · obtain ⟨d, hd, hstep⟩ := exists_of_clientMethods hmade.messages f hf
      exact ⟨d, List.mem_append_right _ (List.mem_filter.1 hd).1, hstep⟩

end

/-! ## Looking names up -/

/-- What a name in the body of a method refers to. -/
inductive Referent
  /-- A variable that the method has beside its parameters. -/
  | own
  /-- A parameter, by its position. -/
  | parameter (i : Nat)
  /-- What the module means by a name. -/
  | shared (name : String)
  deriving DecidableEq, Repr

namespace ClientMethod

/-- What a name in the body of a method of the class `cls` refers to. -/
def referent (f : ClientMethod) (cls name : String) : Referent :=
  if (f.ownVariables cls).contains (nameIn cls name) then .own
  else match f.parameters.findIdx? fun p => nameIn cls p.name == nameIn cls name with
    | some i => .parameter i
    | none => .shared (nameIn cls name)

/-- The classes that the body of a method names: those of its parameters, and of
the reply that it decodes. -/
def classes (f : ClientMethod) : List String :=
  f.parameters.flatMap (·.type.classes) ++
    match f.action with
    | .read (some type) => type.classes
    | _ => []

variable {f : ClientMethod} {cls name : String}

/-- A name of a method's body means what it means in the module if it is
not private in the class, no variable of the body has it, and no parameter has
it in the class. -/
theorem referent_eq_shared_iff : f.referent cls name = .shared name ↔
    nameIn cls name = name ∧ name ∉ f.ownVariables cls ∧ ∀ p ∈ f.parameters, nameIn cls p.name ≠ name := by
  unfold referent
  by_cases hown : nameIn cls name ∈ f.ownVariables cls
  · rw [if_pos (List.contains_iff_mem.2 hown)]
    exact ⟨fun h => Referent.noConfusion h, fun h => absurd (h.1 ▸ hown) h.2.1⟩
  · rw [if_neg fun h => hown (List.contains_iff_mem.1 h)]
    cases hfind : f.parameters.findIdx? fun p => nameIn cls p.name == nameIn cls name with
    | some i =>
      obtain ⟨hi, hmatch, -⟩ := List.findIdx?_eq_some_iff_getElem.1 hfind
      refine ⟨fun h => Referent.noConfusion h, fun h => ?_⟩
      exact absurd ((beq_iff_eq.1 hmatch).trans h.1) (h.2.2 _ (List.getElem_mem hi))
    | none =>
      have hnone := List.findIdx?_eq_none_iff.1 hfind
      constructor
      · intro h
        have hname := Referent.shared.inj h
        refine ⟨hname, hname ▸ hown, fun p hp heq => ?_⟩
        exact Bool.false_ne_true ((hnone p hp).symm.trans (beq_iff_eq.2 (heq.trans hname.symm)))
      · exact fun h => congrArg Referent.shared h.1

/-- Whether a call looks the codec of a class up by what its name refers to:
what is shared has the codec of the module, and variables have none. -/
def LooksUp (f : ClientMethod) (cls name : String) (b : Bindings) : Prop :=
  ∀ (ε : Type) (args : List Value) (sent : Bool), args.length = f.parameters.length →
    match f.referent cls name with
      | .shared name' => (f.scope b cls args sent).codecOf (ε := ε) name = (b.codecOf name').mapError .lookup
      | _ => ∀ c, (f.scope b cls args sent).codecOf (ε := ε) name ≠ .ok c

/-- **Codecs are looked up by what names refer to**, whatever the arguments are.
A variable of the body hides a class of its name from every argument alike;
which variables there are depends on the method, and not on the values it is
called with. -/
theorem looksUp (f : ClientMethod) (cls name : String) (b : Bindings) : f.LooksUp cls name b := by
  intro ε args sent hlen
  have hlocals : nameIn cls name ∈ (f.locals cls args sent).map (·.1) ↔ _ := mem_locals hlen sent
  unfold referent
  by_cases hown : nameIn cls name ∈ f.ownVariables cls
  · rw [if_pos (List.contains_iff_mem.2 hown)]
    exact Scope.codecOf_of_mem (hlocals.2 (.inl hown))
  · rw [if_neg fun h => hown (List.contains_iff_mem.1 h)]
    cases hfind : f.parameters.findIdx? fun p => nameIn cls p.name == nameIn cls name with
    | some i =>
      obtain ⟨hi, hmatch, -⟩ := List.findIdx?_eq_some_iff_getElem.1 hfind
      exact Scope.codecOf_of_mem (hlocals.2 (.inr ⟨_, List.getElem_mem hi, beq_iff_eq.1 hmatch⟩))
    | none =>
      have hfree : nameIn cls name ∉ (f.locals cls args sent).map (·.1) := by
        rw [hlocals]
        rintro (hmem | ⟨p, hp, heq⟩)
        · exact hown hmem
        · exact Bool.false_ne_true ((List.findIdx?_eq_none_iff.1 hfind p hp).symm.trans (beq_iff_eq.2 heq))
      have hnone := (find?_eq_none_iff Prod.fst).2 hfree
      show Scope.codecOf (f.scope b cls args sent) name = _
      unfold Scope.codecOf scope
      dsimp only
      rw [hnone]

/-- Where no two parameters stand for one name, each is found under its own. The
search goes from the first parameter on, so the hypothesis is needed for the
ones before. -/
theorem referent_parameter (hapart : ∀ p ∈ f.parameters, nameIn cls p.name ∉ f.ownVariables cls)
    (hnodup : (f.parameters.map fun p => nameIn cls p.name).Nodup) {i : Nat} (hi : i < f.parameters.length) :
    f.referent cls f.parameters[i].name = .parameter i := by
  have hown : (f.ownVariables cls).contains (nameIn cls f.parameters[i].name) = false :=
    Bool.eq_false_iff.2 fun h => hapart _ (List.getElem_mem hi) (List.contains_iff_mem.1 h)
  have hfind : (f.parameters.findIdx? fun p => nameIn cls p.name == nameIn cls f.parameters[i].name) = some i := by
    refine List.findIdx?_eq_some_iff_getElem.2 ⟨hi, beq_self_eq_true _, fun j hj heq => ?_⟩
    -- An earlier parameter with the name would be the same.
    have hsame := (List.pairwise_iff_getElem.1 hnodup) j i (by rw [List.length_map]; omega)
      (by rwa [List.length_map]) hj
    rw [List.getElem_map, List.getElem_map] at hsame
    exact hsame (beq_iff_eq.1 heq)
  unfold referent
  rw [hown, hfind]
  rfl

end ClientMethod

/-! ## Private names -/

/-- What a name stands for in a class is the name, or else it has two
underscores in a row. -/
theorem nameIn_cases (cls given : String) :
    nameIn cls given = given ∨ ['_', '_'] <:+: (nameIn cls given).toList := by
  unfold nameIn
  dsimp only
  split
  · next h =>
    right
    have hprivate := (Bool.and_eq_true_iff.1 h).1
    have hprefix := String.startsWith_string_iff.1 (Bool.and_eq_true_iff.1 hprivate).1
    rw [String.toList_append]
    exact hprefix.isInfix.trans (List.suffix_append _ _).isInfix
  · exact .inl rfl

/-- Only itself stands for a name that a method or a module has of its own. -/
theorem eq_of_nameIn_reserved {cls given name : String} (hname : name ∈ argumentReserved ++ moduleReserved)
    (h : nameIn cls given = name) : given = name := by
  have hsingle : ∀ name ∈ argumentReserved ++ moduleReserved, ¬ ['_', '_'] <:+: name.toList := by decide +kernel
  rcases nameIn_cases cls given with hsame | hdouble
  · exact hsame.symm.trans h
  · exact absurd (h ▸ hdouble) (hsingle name hname)

/-! ## What is found -/

/-- What the names in the body of a method of the class `cls` come to. -/
structure NamesFound (m : ClientModule) (cls : String) (f : ClientMethod) : Prop where
  /-- No two parameters have one name, and none has that of another variable or
  of something that the module has. The handle counts as it is written. -/
  parameters : KeptApart (argumentReserved ++ moduleReserved ++ m.writtenHandle :: m.declarations.map (·.name))
    (f.parameters.map (·.name))
  /-- What every module binds is found under its name. -/
  constants : ∀ name ∈ moduleReserved, f.referent cls name = .shared name
  /-- In a module that can be imported the name of a parameter refers to this
  parameter. -/
  arguments : ∀ b, m.run = .ok b → ∀ i (hi : i < f.parameters.length),
    f.referent cls f.parameters[i].name = .parameter i
  /-- The classes that are named are declared, and they are found exactly if
  they are seen. -/
  classes : ∀ name ∈ f.classes, name ∈ m.declarations.map (·.name) ∧
    (f.referent cls name = .shared name ↔ f.Sees cls name)
  /-- It is enough that nothing is private and that no class has the name of
  a variable. -/
  plain : (∀ p ∈ f.parameters, isPrivate p.name = false) → ∀ name ∈ f.classes, isPrivate name = false →
    name ∉ argumentReserved → f.referent cls name = .shared name
  /-- A call looks up codecs by what names refer to. -/
  looksUp : ∀ b name, f.LooksUp cls name b

section

variable {metadata : Metadata} {u : CompilationUnit} {runtimeModule handle cls : String} {m : ClientModule}
  {d : MethodDescriptor} {f : ClientMethod} {name : String}

/-- The type of a reply that is decoded has a number. An action that decodes
nothing has no type, and has nothing to look up either. -/
theorem exists_spell_of_read {r : Registry} {names : ModuleNames} {t : TypeExpr}
    (h : clientAction r names d = .ok (.read (some t))) : ∃ id, r.spell names.types id = .ok t := by
  unfold clientAction at h
  split at h
  · cases h
  split_ifs at h
  · cases h
  split at h
  · cases h
  · next id _ =>
    obtain ⟨t', ht, heq⟩ := bind_ok_iff.1 h
    cases heq
    exact ⟨id, ht⟩

/-- A class in the body of a method is that of a type. -/
theorem Renders.classes (h : Renders u handle d f) (hname : name ∈ f.classes) :
    ∃ id, (u.moduleNames handle).types.find? id = some name := by
  rcases List.mem_append.1 hname with hname | hname
  · obtain ⟨p, hp, hmem⟩ := List.mem_flatMap.1 hname
    obtain ⟨a, -, ha⟩ := exists_of_forall₂ h.types hp
    exact (Registry.spells_of_spell ha).classes name hmem
  · split at hname
    · next t haction =>
      obtain ⟨id, ht⟩ := exists_spell_of_read (h.action.trans (congrArg Except.ok haction))
      exact (Registry.spells_of_spell ht).classes name hname
    · cases hname

/-- A declaration has the name of a type, and a named type has a declaration. -/
theorem mem_declarations_iff (hresolve : metadata.resolve = .ok u.registry)
    (hclient : u.client runtimeModule handle = .ok m) :
    name ∈ m.declarations.map (·.name) ↔ ∃ id, (u.moduleNames handle).types.find? id = some name := by
  have hdeclares := declarations_declare hresolve hclient
  constructor
  · intro hname
    obtain ⟨decl, hdecl, rfl⟩ := List.mem_map.1 hname
    obtain ⟨id, -, hid⟩ := exists_of_forall₂ hdeclares hdecl
    exact ⟨id, (describes_of_declares hid).name⟩
  · rintro ⟨id, hid⟩
    obtain ⟨decl, hdecl, hdeclared⟩ := exists_of_forall₂ hdeclares.flip (declared_of_name hid)
    refine List.mem_map.2 ⟨decl, hdecl, ?_⟩
    exact Option.some.inj ((describes_of_declares hdeclared).name.symm.trans hid)

/-- In a module that can be imported no two parameters of a method stand for one
name. -/
theorem nodup_nameIn_of_run {b : Bindings} (hrun : m.run = .ok b) (hf : (cls, f) ∈ m.methods) :
    (f.parameters.map fun p => nameIn cls p.name).Nodup := by
  have hnone : m.duplicateParameter? = none := by
    cases hduplicate : m.duplicateParameter? with
    | none => rfl
    | some name =>
      unfold ClientModule.run ClientModule.refusal? at hrun
      rw [hduplicate] at hrun
      split_ifs at hrun
  exact (firstRepeated_eq_none_iff.1 (List.findSome?_eq_none_iff.1 hnone (cls, f) hf)).1

/-- **What a generated method finds**, in any class. Two allocations are behind
this: parameters are kept off the names that the body uses, and off the names of
the module. Only the class's treatment of private names can undo that, as it
happens after both. -/
theorem namesFound_of_clientMethod (hresolve : metadata.resolve = .ok u.registry)
    (hclient : u.client runtimeModule handle = .ok m) (hf : (cls, f) ∈ m.methods)
    (hrenders : Renders u m.writtenHandle d f)
    (hnames : f.parameters.map (·.name) =
      distinctNames (parameterReserved (u.moduleNames m.writtenHandle) m.writtenHandle)
        (d.args.map fun a => Identifier.ofArgument a.1)) :
    NamesFound m cls f := by
  have hhandle := (client_renders hclient).1
  subst hhandle
  have hown := argumentReserved_apart (parameterReserved (u.moduleNames m.writtenHandle) m.writtenHandle) d.args
  have hmodule := KeptApart.distinctNames (parameterReserved (u.moduleNames m.writtenHandle) m.writtenHandle)
    (d.args.map fun a => Identifier.ofArgument a.1)
  rw [← hnames] at hown hmodule
  have hvariable : ∀ p ∈ f.parameters, p.name ∉ argumentReserved := fun p hp =>
    hown.avoids _ (List.mem_map.2 ⟨p, hp, rfl⟩)
  have hconstant : ∀ p ∈ f.parameters, p.name ∉ moduleReserved := fun p hp hmem =>
    hmodule.avoids _ (List.mem_map.2 ⟨p, hp, rfl⟩) (List.mem_append_left _ (List.mem_append_left _ hmem))
  -- A parameter that is not mangled has no name of a class; one that is may hide it.
  have hsees : ∀ name ∈ f.classes, f.referent cls name = .shared name ↔ f.Sees cls name := by
    intro name hname
    obtain ⟨id, hid⟩ := hrenders.classes hname
    rw [ClientMethod.referent_eq_shared_iff]
    refine ⟨fun ⟨hshared, hfree, hnone⟩ => ⟨hshared, hfree, fun p hp _ => hnone p hp⟩, fun hsees => ?_⟩
    refine ⟨hsees.shared, hsees.own, fun p hp heq => ?_⟩
    by_cases hplain : nameIn cls p.name = p.name
    · exact hrenders.names p hp id name hid (hplain.symm.trans heq)
    · exact hsees.parameters p hp hplain heq
  constructor
  case parameters =>
    refine ⟨hown.nodup, fun name hname => ?_⟩
    simp only [List.mem_append, List.mem_cons, not_or]
    have hnot := hmodule.avoids name hname
    simp only [parameterReserved, List.mem_append, List.mem_singleton, not_or] at hnot
    refine ⟨⟨hown.avoids name hname, hnot.1.1⟩, hnot.2, fun hmem => ?_⟩
    obtain ⟨id, hid⟩ := (mem_declarations_iff hresolve hclient).1 hmem
    exact hnot.1.2 (List.mem_map.2 ⟨(id, name), ModuleNames.mem_types hid, rfl⟩)
  case constants =>
    intro name hname
    have hprivate : ∀ name ∈ moduleReserved, isPrivate name = false := by decide +kernel
    have happart : ∀ name ∈ moduleReserved, name ∉ argumentReserved := by decide +kernel
    refine ClientMethod.referent_eq_shared_iff.2 ⟨nameIn_of_plain (hprivate name hname), fun hmem => ?_,
      fun p hp heq => ?_⟩
    · exact happart name hname (ClientMethod.reserved_of_ownVariables hmem)
    · exact hconstant p hp (eq_of_nameIn_reserved (List.mem_append_right _ hname) heq ▸ hname)
  case arguments =>
    intro b hrun i hi
    refine ClientMethod.referent_parameter (fun p hp hmem => ?_) (nodup_nameIn_of_run hrun hf) hi
    have hreserved := ClientMethod.reserved_of_ownVariables hmem
    exact hvariable p hp (eq_of_nameIn_reserved (List.mem_append_left _ hreserved) rfl ▸ hreserved)
  case classes =>
    exact fun name hname => ⟨(mem_declarations_iff hresolve hclient).2 (hrenders.classes hname), hsees name hname⟩
  case plain =>
    intro hparameters name hname hplain hreserved
    exact (hsees name hname).2 (ClientMethod.sees_of_plain hplain hreserved hparameters)
  case looksUp => exact fun b name => f.looksUp cls name b

end

/-- **What the bodies of methods find.** Let a document compile, a draft of
settings pass the check, and a module be generated for its handle. Then what
every module binds, the handle and the classes of the module all have different
names, so that each of them means one thing, exactly if the handle stands for a
name of its own, as every handle in ASCII does. Every method is generated from
the description of a constructor or a message, and the names in its body are
found as they are meant, but for the classes that are not seen. -/
theorem method_names_found {hash : HashFunction} {given : Settings} {wasm : Option Bytes} {document : Document}
    {u : CompilationUnit} (hcompile : document.compile hash given wasm = .ok u) {draft : Settings.Draft}
    {settings : Settings} (hcheck : draft.check = .ok settings) {runtimeModule : String} {m : ClientModule}
    (hclient : u.client runtimeModule settings.handleName = .ok m) :
    ((moduleReserved ++ [m.handle] ++ m.classNames).Nodup ↔ m.HandleApart) ∧
      ((∀ c ∈ settings.handleName.toList, c.toNat < 0x80) → m.handle = settings.handleName ∧ m.HandleApart) ∧
      ∀ cls f, (cls, f) ∈ m.methods →
        (∃ d ∈ u.constructors ++ u.messages, Renders u m.writtenHandle d f) ∧ NamesFound m cls f := by
  obtain ⟨metadata, hresolve⟩ := compile_resolve hcompile
  have hhandle := (client_renders hclient).1
  refine ⟨ClientModule.topLevel_nodup_iff (client_scopesApart hresolve hclient).classes,
    fun hascii => ⟨?_, handleApart_of_ascii hresolve hcheck hclient hascii⟩, fun cls f hf => ?_⟩
  · rw [(client_assembled hclient).handle, hhandle, Text.normalForm_eq_self hascii]
  obtain ⟨d, hd, name, hmade⟩ := exists_of_methods hclient (cls, f) hf
  rw [← hhandle] at hmade
  have hrenders : Renders u m.writtenHandle d f := clientMethod_renders hmade
  exact ⟨⟨d, hd, hrenders⟩, namesFound_of_clientMethod hresolve hclient hf hrenders (clientMethod_parameters hmade)⟩

/-! ## A class with the name of the amount -/

/-- The message of the document names the class of the type, and it is the one
method. -/
theorem transfer_classes {name : String} {m : ClientModule}
    (hname : ((transferUnit name).moduleNames "Instance").types.find? 1 = some name)
    (hclient : (transferUnit name).client "inkgen.runtime" "Instance" = .ok m) :
    ∃ f, (m.handle, f) ∈ m.methods ∧ m.messages = [f] ∧ f.classes = [name] ∧ f.payable = true := by
  obtain ⟨f, hmessages, hrenders, p, hparameters, hclasses⟩ := transfer_method hname hclient
  have haction : ClientAction.exec = f.action := Except.ok.inj hrenders.action
  refine ⟨f, ?_, hmessages, ?_, hrenders.payable⟩
  · exact List.mem_append_right _ (List.mem_map.2 ⟨f, List.mem_append_right _ (hmessages ▸ List.mem_cons_self), rfl⟩)
  · rw [ClientMethod.classes, hparameters, ← haction, List.flatMap_singleton, hclasses]
    rfl

/-- In the document with `P` the message finds the class, the table of selectors
and its parameter. -/
theorem method_names_found_transfer :
    ∃ m f, (transferDocument "P").compile id transferSettings none = .ok (transferUnit "P") ∧
      Settings.Draft.check {} = .ok transferSettings ∧
      (transferUnit "P").client "inkgen.runtime" transferSettings.handleName = .ok m ∧ m.messages = [f] ∧
      f.referent m.handle "P" = .shared "P" ∧ f.referent m.handle "SELECTORS" = .shared "SELECTORS" ∧
      ∀ i (hi : i < f.parameters.length), f.referent m.handle f.parameters[i].name = .parameter i := by
  obtain ⟨m, b, hclient, himports, hcheck⟩ := exists_transferImport "P" (by decide +kernel)
  obtain ⟨-, hplain⟩ := transferCheck_iff.1 hcheck
  have hsettings : Settings.Draft.check {} = .ok transferSettings := by decide +kernel
  obtain ⟨f, hf, hmessages, hclasses, -⟩ := transfer_classes (by decide +kernel) hclient
  have hfound := ((method_names_found (transfer_compile "P") hsettings hclient).2.2 _ f hf).2
  rw [hmessages] at hplain
  have hclass : f.referent m.handle "P" = .shared "P" :=
    hfound.plain (hplain f List.mem_cons_self) "P" (hclasses ▸ List.mem_cons_self) (by decide +kernel) (by decide)
  exact ⟨m, f, transfer_compile "P", hsettings, hclient, hmessages, hclass, hfound.constants _ (by decide),
    hfound.arguments b himports.run⟩

/-- In that with `value` its class is named, and the name refers to the
amount. -/
theorem class_hidden_by_amount :
    ∃ m f, (transferDocument "value").compile id transferSettings none = .ok (transferUnit "value") ∧
      Settings.Draft.check {} = .ok transferSettings ∧
      (transferUnit "value").client "inkgen.runtime" transferSettings.handleName = .ok m ∧ (∃ b, m.run = .ok b) ∧
      (m.handle, f) ∈ m.methods ∧ "value" ∈ f.classes ∧ f.referent m.handle "value" = .own := by
  obtain ⟨m, b, hclient, himports, -⟩ := exists_transferImport "value" (by decide +kernel)
  obtain ⟨f, hf, -, hclasses, hpayable⟩ := transfer_classes (by decide +kernel) hclient
  have hown : nameIn m.handle "value" ∈ f.ownVariables m.handle := by
    rw [nameIn_of_plain (by decide +kernel)]
    exact ClientMethod.amount_ownVariables hpayable m.handle
  refine ⟨m, f, transfer_compile "value", by decide +kernel, hclient, ⟨b, himports.run⟩, hf,
    hclasses ▸ List.mem_cons_self, ?_⟩
  exact if_pos (List.contains_iff_mem.2 hown)

end ContractClient
