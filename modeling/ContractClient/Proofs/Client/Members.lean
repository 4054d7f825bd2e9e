/-
What the members of a class come out as.

The body of a class is executed from top to bottom, and of several lines that
bind one name the lowest counts. So the members of the handle come out in three
layers: its properties lie above its messages and these above its constructors,
and within each layer the later line lies above the earlier one,
`handle_layers`. What a decorated line binds is what the decorator is there to
make, unless a class of the document has the name of the decorator.

Nothing that an import executes afterwards touches the members of a class, so
an import leaves each class with what its own body bound, `members_of_run`.
-/
import ContractClient.Proofs.Client.Scoping

set_option autoImplicit false

namespace ContractClient

/-! ## One body -/

/-- What a line makes under a decorator: what the decorator is there to make, or
a record of the class that has the name of the decorator. -/
def Decorated (b : Bindings) (decorator : String) (made bound : Member) : Prop :=
  (b.class? decorator = none ∧ bound = made) ∨ ∃ c, b.class? decorator = some c ∧ bound = .record c.name

/-- A decorator that the body has bound itself makes nothing. So a line that
succeeds has its decorator from the module, where it is a class of records that
can be called with one argument, or from the language. -/
theorem decorated_of_decorate {b : Bindings} {members : Members} {decorator : String} {made bound : Member}
    (h : decorate made (meaningOf b members decorator) = .ok bound) : Decorated b decorator made bound := by
  unfold meaningOf at h
  cases hmember : members.find? (·.1 == decorator) with
  | some p =>
    obtain ⟨name, k⟩ := p
    rw [hmember] at h
    cases k <;> cases h
  | none =>
    rw [hmember] at h
    cases hclass : b.class? decorator with
    | some c =>
      rw [hclass] at h
      refine .inr ⟨c, hclass, ?_⟩
      -- Of the classes that can be called with one argument only those of records give
      -- something.
      simp only [decorate, BoundClass.callWithOne] at h
      split at h
      · cases h
      · cases h
      · split at h
        · exact (Except.ok.inj h).symm
        · cases h
    | none =>
      rw [hclass] at h
      refine .inl ⟨hclass, ?_⟩
      dsimp only at h
      split at h
      · exact (Except.ok.inj h).symm
      · cases h

/-- The members of a class pass the check if none has a name that is taken. -/
theorem checkMembers_ok_iff {cls : String} {taken : List String} {members : Members} :
    checkMembers cls taken members = .ok () ↔ ∀ name ∈ taken, name ∉ members.map (·.1) := by
  have hnone : (taken.findSome? fun name => members.find? (·.1 == name)) = none ↔
      ∀ name ∈ taken, name ∉ members.map (·.1) := by
    simp only [List.findSome?_eq_none_iff, find?_eq_none_iff]
  rw [← hnone, checkMembers]
  cases taken.findSome? fun name => members.find? (·.1 == name) <;> simp

/-! ## Searching a layer -/

section

variable {layer : Members} {name : String} (rest : Members)

/-- A name of a layer is found in it, whatever stands behind. -/
theorem find?_layer_of_mem (h : name ∈ layer.map (·.1)) :
    ∃ k, (name, k) ∈ layer ∧ (layer ++ rest).find? (·.1 == name) = some (name, k) := by
  rw [List.find?_append]
  cases hfind : layer.find? (·.1 == name) with
  | none => exact absurd h ((find?_eq_none_iff Prod.fst).1 hfind)
  | some p =>
    obtain ⟨name', k⟩ := p
    have hname : name' = name := by simpa using List.find?_some hfind
    subst hname
    exact ⟨k, List.mem_of_find?_eq_some hfind, rfl⟩

/-- A name that a layer does not have is searched for in the rest. -/
theorem find?_layer_of_notMem (h : name ∉ layer.map (·.1)) :
    (layer ++ rest).find? (·.1 == name) = rest.find? (·.1 == name) := by
  rw [List.find?_append, (find?_eq_none_iff Prod.fst).2 h, Option.none_or]

end

/-! ## The body of the handle -/

namespace ClientModule

variable {m : ClientModule} {b : Bindings} {members : Members}

/-- Whether the members of the handle are layers of properties, messages and
constructors, the latest first, on top of what every handle has. -/
structure Layers (m : ClientModule) (b : Bindings) (properties messages constructors : Members) (maker : Member) :
    Prop where
  propertyNames : properties.map (·.1) = (m.interfaces.map fun i => nameIn m.handle i.accessor).reverse
  messageNames : messages.map (·.1) = (m.messages.map fun f => nameIn m.handle f.name).reverse
  constructorNames : constructors.map (·.1) = (m.constructors.map fun f => nameIn m.handle f.name).reverse
  property : ∀ p ∈ properties, Decorated b "property" .property p.2
  message : ∀ p ∈ messages, p.2 = .method
  constructor : ∀ p ∈ constructors, Decorated b "classmethod" .classMethod p.2
  maker : Decorated b "classmethod" .classMethod maker

/-- **The body of the handle makes three layers.** The lines run in the order
constructors, messages, properties, and a later line stands in front of an
earlier one when a member is searched for. In front of all, nothing but the
constant and the maker of handles is bound. -/
theorem handle_layers (h : runBody b m.handle [] m.handleBody = .ok members) :
    ∃ properties messages constructors maker, m.Layers b properties messages constructors maker ∧ members =
      properties ++ (messages ++ (constructors ++ [("from_address", maker), ("EVENT_TYPE", .constant)])) := by
  unfold handleBody at h
  rw [runBody_append] at h
  obtain ⟨uptoMessages, h, hproperties⟩ := h
  rw [runBody_append] at h
  obtain ⟨uptoConstructors, h, hmessages⟩ := h
  rw [runBody_append] at h
  obtain ⟨front, hfront, hconstructors⟩ := h
  -- The first lines bind the event class and the maker of handles.
  obtain ⟨maker, hmaker, rfl⟩ : ∃ maker, Decorated b "classmethod" .classMethod maker ∧
      front = [("from_address", maker), ("EVENT_TYPE", .constant)] := by
    obtain ⟨o, hbound, hfront⟩ := bind_ok_iff.1 hfront
    cases hbound
    obtain ⟨o, hbound, hfront⟩ := bind_ok_iff.1 hfront
    cases hbound
    obtain ⟨o, hbound, hfront⟩ := bind_ok_iff.1 hfront
    obtain ⟨maker, hmaker, heq⟩ := bind_ok_iff.1 hbound
    cases heq
    cases hfront
    exact ⟨maker, decorated_of_decorate hmaker, rfl⟩
  obtain ⟨constructors, rfl, hconstructorNames, hconstructor⟩ := runBody_layer
    (P := Decorated b "classmethod" .classMethod) hconstructors (by
      intro s hs above p hp
      obtain ⟨f, -, rfl⟩ := List.mem_map.1 hs
      obtain ⟨made, hmade, heq⟩ := bind_ok_iff.1 hp
      cases heq
      exact decorated_of_decorate hmade)
  obtain ⟨messages, rfl, hmessageNames, hmessage⟩ := runBody_layer
    (P := fun k => k = .method) hmessages (by
      intro s hs above p hp
      obtain ⟨f, -, rfl⟩ := List.mem_map.1 hs
      cases hp
      rfl)
  obtain ⟨properties, rfl, hpropertyNames, hproperty⟩ := runBody_layer
    (P := Decorated b "property" .property) hproperties (by
      intro s hs above p hp
      obtain ⟨i, -, rfl⟩ := List.mem_map.1 hs
      obtain ⟨made, hmade, heq⟩ := bind_ok_iff.1 hp
      cases heq
      exact decorated_of_decorate hmade)
  -- Each line of a layer binds one member, under the name that the class makes of it.
  have hbinds : ∀ {α : Type} (xs : List α) (line : α → BodyStatement) (name : α → String),
      (∀ x, (line x).binds m.handle = some (name x)) →
        (xs.map line).filterMap (BodyStatement.binds m.handle) = xs.map name := by
    intro α xs line name hline
    rw [List.filterMap_map, ← List.filterMap_eq_map]
    exact List.filterMap_congr fun x _ => hline x
  rw [hbinds _ _ (fun f => nameIn m.handle f.name) fun f => rfl] at hconstructorNames hmessageNames
  rw [hbinds _ _ (fun i => nameIn m.handle i.accessor) fun i => rfl] at hpropertyNames
  exact ⟨properties, messages, constructors, maker,
    ⟨hpropertyNames, hmessageNames, hconstructorNames, hproperty, hmessage, hconstructor, hmaker⟩, rfl⟩

end ClientModule

/-! ## A whole import -/

/-- The class whose methods a statement binds. -/
def Statement.methodsOf : Statement → Option String
  | .methodClass name _ _ => some name
  | _ => none

/-- A statement binds no members but those of its own class. So the members of
a class can be followed through an import by looking at one statement. -/
theorem membersOf_run {s : Statement} {b b' : Bindings} (h : s.run b = .ok b') {cls : String}
    (hother : s.methodsOf ≠ some cls) : b'.membersOf cls = b.membersOf cls := by
  -- Only the body of a class gives members, and it gives them to its own class.
  obtain ⟨base, offeredAs, arm, rfl, rfl⟩ | ⟨-, rfl⟩ | ⟨c, -, -, rfl⟩ | ⟨name, c, -, -, rfl⟩ |
    ⟨name, opening, body, c, members, rfl, -, -, rfl⟩ := run_cases h
  · rw [Bindings.membersOf, b.offer_bodies]
    rfl
  · rfl
  · rfl
  · rfl
  · have hname : (name == cls) = false := by
      rw [beq_eq_false_iff_ne]
      exact fun heq => hother (congrArg some heq)
    simp only [Bindings.membersOf, List.find?_cons, hname]

/-- The members of a class change only with its own body. -/
theorem membersOf_runStatements {ss : List Statement} {b b' : Bindings} (h : runStatements b ss = .ok b') {cls : String}
    (hother : ∀ s ∈ ss, s.methodsOf ≠ some cls) : b'.membersOf cls = b.membersOf cls := by
  induction ss generalizing b with
  | nil =>
    cases h
    rfl
  | cons s rest ih =>
    obtain ⟨hfirst, hrest⟩ := List.forall_mem_cons.1 hother
    obtain ⟨b₁, hrun, h⟩ := bind_ok_iff.1 h
    rw [ih h hrest, membersOf_run hrun hfirst]

/-- **An import leaves a class with what its body bound**, if no later class has
its name. -/
theorem members_of_run {m : ClientModule} {b : Bindings} (hrun : m.run = .ok b) {before after : List Statement}
    {cls : String} {opening : List String} {body : List BodyStatement}
    (hstatements : m.statements = before ++ .methodClass cls opening body :: after)
    (hlast : ∀ s ∈ after, s.methodsOf ≠ some cls) :
    ∃ b₀, runStatements {} before = .ok b₀ ∧ runBody b₀ cls [] body = .ok (b.membersOf cls) := by
  have h := runStatements_of_run hrun
  rw [hstatements, runStatements_append] at h
  obtain ⟨b₀, hbefore, h⟩ := h
  obtain ⟨b₁, hclass, hafter⟩ := bind_ok_iff.1 h
  obtain ⟨members, hbody, hclass⟩ := bind_ok_iff.1 hclass
  obtain ⟨-, -, hclass⟩ := bind_ok_iff.1 hclass
  obtain ⟨-, -, hclass⟩ := bind_ok_iff.1 hclass
  obtain ⟨-, -, heq⟩ := bind_ok_iff.1 hclass
  cases heq
  refine ⟨b₀, hbefore, ?_⟩
  rw [membersOf_runStatements hafter hlast, hbody]
  simp only [Bindings.membersOf, List.find?_cons, beq_self_eq_true, Option.map_some, Option.getD_some]

section

variable {m : ClientModule} {b : Bindings} (hrun : m.run = .ok b)

include hrun

/-- The members of the handle are what its body makes of nothing, with the
bindings of all that stands before it. -/
theorem members_of_handle : ∃ b₀, runStatements {} m.beforeHandle = .ok b₀ ∧
    runBody b₀ m.handle [] m.handleBody = .ok (b.membersOf m.handle) := by
  obtain ⟨rest, hstatements, hrest⟩ := m.statements_handle
  refine members_of_run hrun hstatements fun s hs => ?_
  rw [hrest s hs]
  simp [Statement.methodsOf]

/-- The same for the class of an interface. Its name must be its own: a class of
the same name further down would replace it. -/
theorem members_of_interface {i : InterfaceClass} (hi : i ∈ m.interfaces) (hnames : (m.interfaces.map (·.name)).Nodup)
    (hhandle : m.handle ∉ m.interfaces.map (·.name)) :
    ∃ b₀, runBody b₀ i.name [] (ClientModule.interfaceBody i) = .ok (b.membersOf i.name) := by
  obtain ⟨rest, hstatements, hrest⟩ := m.statements_handle
  obtain ⟨above, below, hsplit⟩ := List.append_of_mem hi
  rw [hsplit, List.map_append, List.map_cons] at hnames
  have hlater : i.name ∉ below.map (·.name) := (List.nodup_cons.1 (List.nodup_append.1 hnames).2.1).1
  have hplaced : m.statements = (m.declaring ++ above.map ClientModule.interfaceStatement) ++
      ClientModule.interfaceStatement i ::
        (below.map ClientModule.interfaceStatement ++ m.handleStatement :: rest) := by
    rw [hstatements, ClientModule.beforeHandle, hsplit]
    simp only [List.map_append, List.map_cons, List.append_assoc, List.cons_append]
  have hlast : ∀ s ∈ below.map ClientModule.interfaceStatement ++ m.handleStatement :: rest,
      s.methodsOf ≠ some i.name := by
    intro s hs
    rcases List.mem_append.1 hs with hs | hs
    · obtain ⟨j, hj, rfl⟩ := List.mem_map.1 hs
      exact fun heq => hlater (List.mem_map.2 ⟨j, hj, Option.some.inj heq⟩)
    · rcases List.mem_cons.1 hs with rfl | hs
      · exact fun heq => hhandle (List.mem_map.2 ⟨i, hi, (Option.some.inj heq).symm⟩)
      · rw [hrest s hs]
        simp [Statement.methodsOf]
  obtain ⟨b₀, -, hbody⟩ := members_of_run hrun hplaced hlast
  exact ⟨b₀, hbody⟩

end

end ContractClient
