/-
What the bodies of classes find under the names that they evaluate.

The body of a class is executed line by line, and a name in it means what the
body bound before, or else what the module bound, or else the builtin. The
bodies of interfaces evaluate nothing. The body of the handle evaluates `Event`
once, `classmethod` for each constructor and `property` for each interface, and
the constant of the code where a constructor has one by default; and all the
time it binds names that come from the document.

So a name is found as it is meant exactly if no line above binds it and no class
of the document has it, `Unshadowed`. For `Event` this is always so. For the
others the document decides: the names that every module binds are kept off
classes but not off the members of the handle, and the two builtins off neither.
-/
import ContractClient.Client.Session
import ContractClient.Proofs.Client.Declaring

set_option autoImplicit false

namespace ContractClient

/-! ## What a body binds -/

/-- No private name stands for a name without underscores in front. -/
theorem eq_of_nameIn_eq {cls given name : String} (hplain : name.toList.head? ≠ some '_')
    (h : nameIn cls given = name) : given = name := by
  unfold nameIn at h
  dsimp only at h
  split at h
  · refine absurd ?_ hplain
    rw [← h, String.toList_append, String.toList_append]
    rfl
  · exact h

/-- The name that a statement of a class body binds, if it binds one. -/
def BodyStatement.binds (cls : String) : BodyStatement → Option String
  | .account => none
  | .eventType => some "EVENT_TYPE"
  | .fromAddress _ => some "from_address"
  | .constructor _ _ m => some (nameIn cls m.name)
  | .message m => some (nameIn cls m.name)
  | .accessor name _ => some (nameIn cls name)

/-- What a statement of a body is found to bind is the name that it says it
binds. -/
theorem BodyStatement.binds_of_bound {cls : String} {meaning : String → Meaning} {s : BodyStatement}
    {o : Option (String × Member)} (h : s.bound cls meaning = .ok o) : o.map (·.1) = s.binds cls := by
  cases s with
  | account | eventType | message =>
    cases h
    rfl
  | fromAddress | constructor | accessor =>
    obtain ⟨made, -, heq⟩ := bind_ok_iff.1 h
    cases heq
    rfl

/-- **What a body adds.** It lays its members on top of those in front, under
the names of its lines, and each of them is as the lines of this body make
them. -/
theorem runBody_layer {b : Bindings} {cls : String} {ss : List BodyStatement} {members members' : Members}
    {P : Member → Prop} (h : runBody b cls members ss = .ok members')
    (hmade : ∀ s ∈ ss, ∀ above p, s.bound cls (meaningOf b above) = .ok (some p) → P p.2) :
    ∃ layer, members' = layer ++ members ∧ layer.map (·.1) = (ss.filterMap (BodyStatement.binds cls)).reverse ∧
      ∀ p ∈ layer, P p.2 := by
  induction ss generalizing members with
  | nil =>
    cases h
    exact ⟨[], rfl, rfl, by simp⟩
  | cons s rest ih =>
    obtain ⟨hfirst, hrest⟩ := List.forall_mem_cons.1 hmade
    obtain ⟨o, hbound, h⟩ := bind_ok_iff.1 h
    have hbinds := BodyStatement.binds_of_bound hbound
    cases o with
    | none =>
      rw [List.filterMap_cons_none hbinds.symm]
      exact ih h hrest
    | some p =>
      obtain ⟨layer, rfl, hnames, hall⟩ := ih h hrest
      refine ⟨layer ++ [p], (List.append_cons _ _ _), ?_, fun q hq => ?_⟩
      · rw [List.filterMap_cons_some hbinds.symm, List.reverse_cons, List.map_append, hnames]
        rfl
      · rcases List.mem_append.1 hq with hq | hq
        · exact hall q hq
        · exact List.mem_singleton.1 hq ▸ hfirst members p hbound

/-- **A body binds the names of its statements**, the latest first. -/
theorem runBody_names {b : Bindings} {cls : String} {ss : List BodyStatement} {members members' : Members}
    (h : runBody b cls members ss = .ok members') :
    members'.map (·.1) = (ss.filterMap (BodyStatement.binds cls)).reverse ++ members.map (·.1) := by
  obtain ⟨layer, rfl, hnames, -⟩ := runBody_layer (P := fun _ => True) h fun _ _ _ _ _ => trivial
  rw [List.map_append, hnames]

/-- Bodies run one part after the other. -/
theorem runBody_append {b : Bindings} {cls : String} {ss ss' : List BodyStatement} {members members'' : Members} :
    runBody b cls members (ss ++ ss') = .ok members'' ↔
      ∃ members', runBody b cls members ss = .ok members' ∧ runBody b cls members' ss' = .ok members'' := by
  induction ss generalizing members with
  | nil =>
    constructor
    · intro h
      exact ⟨members, rfl, h⟩
    · rintro ⟨members', heq, h⟩
      cases heq
      exact h
  | cons s rest ih =>
    rw [List.cons_append, runBody, runBody]
    cases hbound : s.bound cls (meaningOf b members) with
    | error e => simp [bind, Except.bind]
    | ok o => cases o <;> exact ih

/-! ## What a name means -/

/-- Only bound names have a class. -/
theorem Bindings.class?_eq_none_iff {b : Bindings} {name : String} :
    b.class? name = none ↔ name ∉ b.boundNames := by
  rw [← class?_isSome_iff, Bool.not_eq_true, Option.isSome_eq_false_iff, Option.isNone_iff_eq_none]

/-- A name has its intended meaning if neither the body nor the module binds it,
and if it is found at all. -/
theorem meaningOf_eq_intended_iff {b : Bindings} {members : Members} {name : String} :
    meaningOf b members name = .intended ↔ name ∉ members.map (·.1) ∧ name ∉ b.boundNames ∧
      (name ∈ moduleReserved ∨ "__builtins__" ∉ b.boundNames) := by
  rw [← find?_eq_none_iff Prod.fst, ← Bindings.class?_eq_none_iff, ← Bindings.class?_eq_none_iff]
  unfold meaningOf
  cases hmember : members.find? (·.1 == name) with
  | some m => simp
  | none =>
    cases hclass : b.class? name with
    | some c => simp
    | none => by_cases hfound : name ∈ moduleReserved ∨ b.class? "__builtins__" = none <;> simp [hfound]

/-- A name means a class if the module binds it and the body does not. -/
theorem meaningOf_eq_cls_iff {b : Bindings} {members : Members} {name : String} {c : BoundClass} :
    meaningOf b members name = .cls c ↔ name ∉ members.map (·.1) ∧ b.class? name = some c := by
  rw [← find?_eq_none_iff Prod.fst]
  unfold meaningOf
  cases hmember : members.find? (·.1 == name) with
  | some m => simp
  | none =>
    cases hclass : b.class? name with
    | some c => simp
    | none => by_cases hfound : name ∈ moduleReserved ∨ b.class? "__builtins__" = none <;> simp [hfound]

/-! ## The bodies of a module -/

namespace ClientModule

/-- The body of the class of an interface. -/
def interfaceBody (i : InterfaceClass) : List BodyStatement :=
  .account :: i.methods.map .message

/-- The body of the handle. -/
def handleBody (m : ClientModule) : List BodyStatement :=
  [.account, .eventType, .fromAddress m.writtenHandle] ++
    m.constructors.map (.constructor m.writtenHandle m.codeHash.isSome) ++
    m.messages.map .message ++
    m.interfaces.map fun i => .accessor i.accessor i.name

/-- The statements above the handle. -/
def beforeHandle (m : ClientModule) : List Statement :=
  m.declaring ++ m.interfaces.map interfaceStatement

/-- After the class of the handle a module has at most the statement that lets
it upload code. -/
theorem statements_handle (m : ClientModule) : ∃ rest, m.statements = m.beforeHandle ++ m.handleStatement :: rest ∧
    ∀ s ∈ rest, s = .upload := by
  have hinterfaces : (m.interfaces.map fun i => [interfaceStatement i]).flatten = m.interfaces.map interfaceStatement :=
    List.map_eq_flatMap.symm
  refine ⟨(if m.codeLength.isSome then [[Statement.upload]] else []).flatten, ?_, ?_⟩
  · rw [m.statements_split, calling, List.flatten_append, List.flatten_append, hinterfaces, beforeHandle]
    simp only [List.append_assoc, List.flatten_cons, List.flatten_nil, List.append_nil, List.singleton_append]
  · intro s hs
    by_cases hcode : m.codeLength.isSome
    · rw [if_pos hcode] at hs
      exact List.mem_singleton.1 hs
    · rw [if_neg hcode] at hs
      cases hs

/-- Before the handle there are the events' class and the classes that the
module declares. -/
theorem mem_boundNames_beforeHandle {m : ClientModule} {name : String} :
    name ∈ m.beforeHandle.flatMap Statement.boundNames ↔ name = "Event" ∨ name ∈ m.classNames := by
  have hinterfaces : (m.interfaces.map interfaceStatement).flatMap Statement.boundNames =
      m.interfaces.map (·.name) := by
    rw [List.flatMap_map, List.map_eq_flatMap]
    rfl
  rw [beforeHandle, List.flatMap_append, List.mem_append, mem_boundNames_declaring, hinterfaces, or_assoc,
    ← List.mem_append]
  rfl

/-- The bodies of interfaces evaluate nothing. -/
theorem evaluates_interfaceBody (i : InterfaceClass) : ∀ s ∈ interfaceBody i, s.evaluates = [] := by
  intro s hs
  rcases List.mem_cons.1 hs with rfl | hs
  · rfl
  · obtain ⟨f, -, rfl⟩ := List.mem_map.1 hs
    rfl

/-- A class whose body evaluates a name is the handle. -/
theorem eq_handle_of_evaluates {m : ClientModule} {before after : List Statement} {cls : String} {opening : List String}
    {body : List BodyStatement} (h : m.statements = before ++ .methodClass cls opening body :: after)
    (hbody : ∃ s ∈ body, s.evaluates ≠ []) :
    before = m.beforeHandle ∧ cls = m.handle ∧ body = m.handleBody := by
  obtain ⟨rest, hsplit, hrest⟩ := m.statements_handle
  obtain ⟨s, hs, hevaluates⟩ := hbody
  have hnotBefore : Statement.methodClass cls opening body ∉ m.beforeHandle := by
    intro hmem
    rcases List.mem_append.1 hmem with hdeclaring | hinterface
    · exact absurd hdeclaring m.methodClass_notMem_declaring
    · obtain ⟨i, -, heq⟩ := List.mem_map.1 hinterface
      cases heq
      exact hevaluates (evaluates_interfaceBody i s hs)
  have hnotRest : Statement.methodClass cls opening body ∉ rest := by
    intro hmem
    cases hrest _ hmem
  obtain ⟨hbefore, heq, -⟩ := (List.append_cons_inj_of_notMem hnotBefore hnotRest).1 (hsplit.symm.trans h)
  cases heq
  exact ⟨hbefore.symm, rfl, rfl⟩

end ClientModule

/-! ## What is found -/

/-- What a name in the body of a class is there to mean: the event class, or
else what every module means by it. -/
def meant (name : String) : Meaning :=
  if name = "Event" then .cls ⟨"Event", false, []⟩ else .intended

/-- A statement whose names mean what they are meant to mean is executed. -/
theorem BodyStatement.bound_isOk {cls : String} {meaning : String → Meaning} {s : BodyStatement}
    (h : ∀ name ∈ s.evaluates, meaning name = meant name) : ∃ o, s.bound cls meaning = .ok o := by
  cases s with
  | account | eventType | message => exact ⟨_, rfl⟩
  | fromAddress | constructor | accessor =>
    have hdecorator := h _ List.mem_cons_self
    rw [meant, if_neg (by decide)] at hdecorator
    rw [bound, hdecorator]
    exact ⟨_, rfl⟩

/-- The names that bodies evaluate. -/
theorem BodyStatement.evaluates_subset (s : BodyStatement) :
    ∀ name ∈ s.evaluates, name ∈ ["Event", "classmethod", "property", "CODE_HASH"] := by
  cases s with
  | account | eventType | fromAddress | message | accessor => simp [evaluates]
  | constructor handle defaultCode m => cases defaultCode <;> simp [evaluates]

namespace ClientModule

variable {m : ClientModule}

/-- Whether an import comes, with `b` bound, to the statement `s` in the body of
the class `cls`, below the statements `above`, which have bound `members`. -/
structure Reaches (m : ClientModule) (cls : String) (above : List BodyStatement) (s : BodyStatement) (b : Bindings)
    (members : Members) : Prop where
  placed : ∃ before doc below after, m.statements = before ++ .methodClass cls doc (above ++ s :: below) :: after ∧
    runStatements {} before = .ok b
  bound : runBody b cls [] above = .ok members

/-- Whether nothing stands between a name in the body of a class and what it is
meant to mean: no statement above binds it, no class of the document has it, and
no class hides the builtins, if it is one of them. -/
structure Unshadowed (m : ClientModule) (cls : String) (above : List BodyStatement) (name : String) : Prop where
  members : name ∉ above.filterMap (BodyStatement.binds cls)
  classes : name ∉ m.classNames
  builtin : name ∈ moduleReserved ∨ "__builtins__" ∉ m.classNames

/-- An import reaches a statement in the body of the handle if all before it in
the body went well. Here the members are those that the statements above it have
made. -/
theorem reaches_handle {above below : List BodyStatement} {s : BodyStatement} {b : Bindings} {members : Members}
    (hbody : m.handleBody = above ++ s :: below) (hrun : runStatements {} m.beforeHandle = .ok b)
    (hmembers : runBody b m.handle [] above = .ok members) : m.Reaches m.handle above s b members := by
  obtain ⟨rest, hstatements, -⟩ := m.statements_handle
  have hdoc : m.handleStatement = .methodClass m.handle
      (classLine m.writtenHandle :: Docstring.lines "    " ["Handle to a deployed " ++ m.title ++ " contract."])
      m.handleBody := rfl
  rw [hdoc, hbody] at hstatements
  exact ⟨⟨_, _, _, _, hstatements, hrun⟩, hmembers⟩

/-- Above the handle the event class is found under its name. No class of the
document may have that name, or the later one of the two would be found. -/
theorem class?_event {b : Bindings} (hevent : "Event" ∉ m.classNames) (hrun : runStatements {} m.beforeHandle = .ok b) :
    b.class? "Event" = some ⟨"Event", false, []⟩ := by
  have hclasses : b.classes = (m.beforeHandle.filterMap Statement.binds).reverse := by
    rw [(runStatements_spec hrun).classes]
    exact List.append_nil _
  have hinterfaces : (m.interfaces.map interfaceStatement).filterMap Statement.binds =
      m.interfaces.map fun i => ⟨i.name, true, ["account_id"]⟩ := by
    rw [List.filterMap_map, ← List.filterMap_eq_map]
    rfl
  rw [beforeHandle, List.filterMap_append, binds_declaring, hinterfaces] at hclasses
  -- Every other class has the name of a class of the document.
  have hother : ∀ cls ∈ b.classes, cls.name = "Event" → cls = ⟨"Event", false, []⟩ := by
    intro cls hcls hname
    rw [hclasses, List.mem_reverse, List.mem_append] at hcls
    rcases hcls with hcls | hcls
    · rw [List.flatMap_append, List.flatMap_singleton, List.mem_append] at hcls
      have hdeclared : ∀ name ∈ m.declaredNames, name ≠ "Event" := fun name hmem heq =>
        hevent (List.mem_append_left _ (heq ▸ hmem))
      rcases hcls with hcls | hcls
      · obtain ⟨d, hd, hmem⟩ := List.mem_flatMap.1 hcls
        have hbound : cls.name ∈ d.bound.map (·.name) := List.mem_map.2 ⟨cls, hmem, rfl⟩
        rw [d.bound_names] at hbound
        refine absurd hname (hdeclared cls.name (List.mem_append_left _ ?_))
        rcases List.mem_cons.1 hbound with heq | harm
        · exact List.mem_append_left _ (List.mem_map.2 ⟨d, hd, heq.symm⟩)
        · exact List.mem_append_right _ (List.mem_flatMap.2 ⟨d, hd, harm⟩)
      · rcases List.mem_cons.1 hcls with rfl | hcls
        · rfl
        · obtain ⟨arm, harm, rfl⟩ := List.mem_map.1 hcls
          exact absurd hname (hdeclared _ (List.mem_append_right _ (List.mem_map.2 ⟨arm, harm, rfl⟩)))
    · obtain ⟨i, hi, rfl⟩ := List.mem_map.1 hcls
      exact absurd (List.mem_append_right _ (List.mem_map.2 ⟨i, hi, hname⟩)) hevent
  refine find?_key BoundClass.name (a := ⟨"Event", false, []⟩) ?_ fun cls hcls hname => hother cls hcls hname
  rw [hclasses, List.mem_reverse, List.flatMap_append, List.flatMap_singleton]
  exact List.mem_append_left _ (List.mem_append_right _ List.mem_cons_self)

/-- **A name is found as it is meant exactly if it is unshadowed.** A body looks
in its own members first, then in the module, then at what the language has;
each of the three parts of `Unshadowed` is about one of these places. -/
theorem Reaches.found_iff {cls : String} {above : List BodyStatement} {s : BodyStatement} {b : Bindings}
    {members : Members} (h : m.Reaches cls above s b members) (hevent : "Event" ∉ m.classNames) {name : String}
    (hname : name ∈ s.evaluates) : meaningOf b members name = meant name ↔ m.Unshadowed cls above name := by
  -- Only the body of the handle evaluates names, so all classes of the module are bound by now.
  obtain ⟨before, doc, below, after, hstatements, hrun⟩ := h.placed
  obtain ⟨rfl, rfl, -⟩ := eq_handle_of_evaluates hstatements
    ⟨s, List.mem_append_right _ List.mem_cons_self, List.ne_nil_of_mem hname⟩
  have hmembers : name ∈ members.map (·.1) ↔ name ∈ above.filterMap (BodyStatement.binds m.handle) := by
    rw [runBody_names h.bound, List.map_nil, List.append_nil, List.mem_reverse]
  have hbound : ∀ cls, cls ∈ b.boundNames ↔ cls = "Event" ∨ cls ∈ m.classNames := fun cls => by
    rw [boundNames_runStatements hrun]
    exact mem_boundNames_beforeHandle
  by_cases heq : name = "Event"
  · subst heq
    rw [meant, if_pos rfl, meaningOf_eq_cls_iff, hmembers]
    constructor
    · rintro ⟨hfree, -⟩
      exact ⟨hfree, hevent, .inl (by decide)⟩
    · intro hfree
      exact ⟨hfree.members, class?_event hevent hrun⟩
  · rw [meant, if_neg heq, meaningOf_eq_intended_iff, hmembers, hbound, hbound]
    simp only [heq, false_or, String.reduceEq]
    constructor
    · rintro ⟨hfree, hclasses, hbuiltin⟩
      exact ⟨hfree, hclasses, hbuiltin⟩
    · intro hfree
      exact ⟨hfree.members, hfree.classes, hfree.builtin⟩

/-- `Event` is evaluated where nothing is bound yet: its statement is the second
of the handle's body, and the first one only declares a field. -/
theorem Reaches.unshadowed_event {cls : String} {above : List BodyStatement} {s : BodyStatement} {b : Bindings}
    {members : Members} (h : m.Reaches cls above s b members) (hevent : "Event" ∉ m.classNames)
    (hname : "Event" ∈ s.evaluates) : m.Unshadowed cls above "Event" := by
  obtain ⟨before, doc, below, after, hstatements, -⟩ := h.placed
  obtain ⟨-, -, hbody⟩ := eq_handle_of_evaluates hstatements
    ⟨s, List.mem_append_right _ List.mem_cons_self, List.ne_nil_of_mem hname⟩
  have hs : s = .eventType := by
    cases s with
    | eventType => rfl
    | account | fromAddress | message | accessor => simp [BodyStatement.evaluates] at hname
    | constructor handle defaultCode f => cases defaultCode <;> simp [BodyStatement.evaluates] at hname
  subst hs
  refine ⟨?_, hevent, .inl (by decide)⟩
  match above with
  | [] => cases hbody
  | [a] =>
    cases hbody
    simp [BodyStatement.binds]
  | a :: a' :: above =>
    -- The statement is the second one, and there is no other of its kind.
    have hrest : above ++ .eventType :: below = m.handleBody.tail.tail :=
      congrArg (fun body : List BodyStatement => body.tail.tail) hbody
    have hmem : BodyStatement.eventType ∈ above ++ .eventType :: below :=
      List.mem_append_right _ List.mem_cons_self
    rw [hrest] at hmem
    simp [handleBody] at hmem

/-- Whether the names of a document leave alone what the body of the handle
evaluates. -/
structure Spares (m : ClientModule) : Prop where
  members : ∀ name ∈ ["classmethod", "property", "CODE_HASH"], name ∉ m.handleNames
  classes : ∀ name ∈ ["classmethod", "property", "__builtins__"], name ∉ m.classNames

/-- What a body binds as a name without underscores in front is a member of this
name. -/
theorem binds_handleBody {name : String} (hplain : name.toList.head? ≠ some '_')
    (h : name ∈ m.handleBody.filterMap (BodyStatement.binds m.handle)) :
    name ∈ "EVENT_TYPE" :: "from_address" :: m.handleNames := by
  obtain ⟨s, hs, hbinds⟩ := List.mem_filterMap.1 h
  simp only [handleBody, List.mem_append, List.mem_map, List.mem_cons, List.not_mem_nil, or_false] at hs
  simp only [handleNames, List.mem_cons, List.mem_append, List.mem_map]
  obtain (((rfl | rfl | rfl) | ⟨f, hf, rfl⟩) | ⟨f, hf, rfl⟩) | ⟨i, hi, rfl⟩ := hs
  · cases hbinds
  · exact .inl (Option.some.inj hbinds).symm
  · exact .inr (.inl (Option.some.inj hbinds).symm)
  · exact .inr (.inr (.inl (.inl ⟨f, hf, eq_of_nameIn_eq hplain (Option.some.inj hbinds)⟩)))
  · exact .inr (.inr (.inl (.inr ⟨f, hf, eq_of_nameIn_eq hplain (Option.some.inj hbinds)⟩)))
  · exact .inr (.inr (.inr ⟨i, hi, eq_of_nameIn_eq hplain (Option.some.inj hbinds)⟩))

/-- In a document that spares them, all names are unshadowed. The names in
question are no private names, so what a class binds under one of them was
written so in the document, and the hypothesis excludes it. -/
theorem Spares.unshadowed (hspares : m.Spares) (hreserved : ∀ name ∈ moduleReserved, name ∉ m.classNames)
    {cls : String} {above : List BodyStatement} {s : BodyStatement} {b : Bindings} {members : Members}
    (h : m.Reaches cls above s b members) {name : String} (hname : name ∈ s.evaluates) :
    m.Unshadowed cls above name := by
  have hevent := hreserved "Event" (by decide)
  by_cases heq : name = "Event"
  · subst heq
    exact h.unshadowed_event hevent hname
  obtain ⟨before, doc, below, after, hstatements, -⟩ := h.placed
  obtain ⟨-, rfl, hbody⟩ := eq_handle_of_evaluates hstatements
    ⟨s, List.mem_append_right _ List.mem_cons_self, List.ne_nil_of_mem hname⟩
  have hnames := (List.mem_cons.1 (s.evaluates_subset name hname)).resolve_left heq
  have hbuiltins : "__builtins__" ∉ m.classNames := hspares.classes _ (by decide)
  refine ⟨fun hmem => ?_, ?_, .inr hbuiltins⟩
  · -- No mangled name is one of the three, so what is bound above under one of them is written so.
    have hplain : ∀ name ∈ ["classmethod", "property", "CODE_HASH"],
        name.toList.head? ≠ some '_' ∧ name ≠ "EVENT_TYPE" ∧ name ≠ "from_address" := by decide
    obtain ⟨hunderscore, htype, haddress⟩ := hplain name hnames
    have hwhole : name ∈ m.handleBody.filterMap (BodyStatement.binds m.handle) := by
      rw [← hbody, List.filterMap_append]
      exact List.mem_append_left _ hmem
    have hmember := binds_handleBody hunderscore hwhole
    rw [List.mem_cons, List.mem_cons] at hmember
    exact hspares.members name hnames ((hmember.resolve_left htype).resolve_left haddress)
  · simp only [List.mem_cons, List.not_mem_nil, or_false] at hnames
    rcases hnames with rfl | rfl | rfl
    · exact hspares.classes _ (by decide)
    · exact hspares.classes _ (by decide)
    · exact hreserved _ (by decide)

/-- In a document that spares its names, the body of the handle is executed. -/
theorem Spares.runBody_isOk (hspares : m.Spares) (hreserved : ∀ name ∈ moduleReserved, name ∉ m.classNames)
    {b : Bindings} (hrun : runStatements {} m.beforeHandle = .ok b) :
    ∃ members, runBody b m.handle [] m.handleBody = .ok members := by
  -- The induction is on the part that is executed already.
  have hpart : ∀ above below, m.handleBody = above ++ below → ∃ members, runBody b m.handle [] above = .ok members := by
    intro above
    induction above using List.reverseRecOn with
    | nil => exact fun _ _ => ⟨[], rfl⟩
    | append_singleton above s ih =>
      intro below hbody
      rw [List.append_assoc, List.singleton_append] at hbody
      obtain ⟨members, hmembers⟩ := ih _ hbody
      have hreaches := reaches_handle hbody hrun hmembers
      obtain ⟨o, hbound⟩ : ∃ o, s.bound m.handle (meaningOf b members) = .ok o := by
        refine BodyStatement.bound_isOk fun name hname => ?_
        exact (hreaches.found_iff (hreserved "Event" (by decide)) hname).2 (hspares.unshadowed hreserved hreaches hname)
      cases o with
      | none => exact ⟨members, runBody_append.2 ⟨members, hmembers, bind_ok_iff.2 ⟨none, hbound, rfl⟩⟩⟩
      | some member =>
        exact ⟨member :: members, runBody_append.2 ⟨members, hmembers, bind_ok_iff.2 ⟨some member, hbound, rfl⟩⟩⟩
  exact hpart m.handleBody [] (List.append_nil _).symm

end ClientModule

/-! ## The module of a document -/

/-- No class of a document has a name that every module binds. -/
theorem reserved_notMem_classNames {metadata : Metadata} {u : CompilationUnit} {runtimeModule handle : String}
    {m : ClientModule} (hresolve : metadata.resolve = .ok u.registry)
    (hclient : u.client runtimeModule handle = .ok m) : ∀ name ∈ moduleReserved, name ∉ m.classNames := by
  exact fun name hname hmem => (classNames_apart hresolve hclient).avoids name hmem (List.mem_append_left _ hname)

/-- **What the bodies of classes find.** Wherever an import of a generated
module comes in the body of a class, a name that is evaluated there means what
it is meant to mean exactly if it is unshadowed. `Event` always is, and no class
has the name of a constant of the module. The bodies of interfaces evaluate
nothing. In a document that spares the names in the body of the handle all of
them are found as they are meant, and the body is executed. -/
theorem evaluated_names_found {hash : HashFunction} {settings : Settings} {wasm : Option Bytes} {document : Document}
    {u : CompilationUnit} (hcompile : document.compile hash settings wasm = .ok u) {runtimeModule handle : String}
    {m : ClientModule} (hclient : u.client runtimeModule handle = .ok m) :
    (∀ cls above s b members, m.Reaches cls above s b members → ∀ name ∈ s.evaluates,
      (meaningOf b members name = meant name ↔ m.Unshadowed cls above name) ∧
        (name = "Event" → m.Unshadowed cls above name)) ∧
      (∀ name ∈ moduleReserved, name ∉ m.classNames) ∧
      (∀ i ∈ m.interfaces, ∀ s ∈ ClientModule.interfaceBody i, s.evaluates = []) ∧
      (m.Spares →
        (∀ cls above s b members, m.Reaches cls above s b members → ∀ name ∈ s.evaluates,
          meaningOf b members name = meant name) ∧
        ∀ b, runStatements {} m.beforeHandle = .ok b →
          ∃ members, runBody b m.handle [] m.handleBody = .ok members) := by
  obtain ⟨metadata, hresolve⟩ := compile_resolve hcompile
  have hreserved := reserved_notMem_classNames hresolve hclient
  have hevent := hreserved "Event" (by decide)
  refine ⟨fun cls above s b members h name hname => ⟨h.found_iff hevent hname, ?_⟩, hreserved,
    fun i _ => ClientModule.evaluates_interfaceBody i, fun hspares => ⟨?_, fun b hrun => ?_⟩⟩
  · rintro rfl
    exact h.unshadowed_event hevent hname
  · intro cls above s b members h name hname
    exact (h.found_iff hevent hname).2 (hspares.unshadowed hreserved h hname)
  · exact hspares.runBody_isOk hreserved hrun

/-! ## A constructor with the name of the decorator -/

/-- A document with two constructors, of which the first has the given label,
and an interface. -/
def constructedDocument (label : String) : Document :=
  .value (.obj [("version", .int 4), ("contract", .obj [("name", .str "c"), ("version", .str "1")]),
    ("source", .obj [("hash", .str "0x3333333333333333333333333333333333333333333333333333333333333333")]),
    ("types", .arr []),
    ("spec", .obj [
      ("constructors", .arr [
        .obj [("label", .str label), ("args", .arr []), ("selector", .str "0x00000001")],
        .obj [("label", .str "new"), ("args", .arr []), ("selector", .str "0x00000002")]]),
      ("messages", .arr [
        .obj [("label", .str "Token::get"), ("args", .arr []), ("mutates", .bool false),
          ("selector", .str "0x00000003")]]),
      ("events", .arr [])])])

/-- A constructor of the document. -/
def constructedMethod (label : String) (selector : Bytes) : MethodDescriptor :=
  { kind := .constructor, label := label, name := .ungrouped label, selector := selector, args := [],
    returnType := none, mutates := true, payable := false, docs := [] }

/-- The unit of the document. -/
def constructedUnit (label : String) : CompilationUnit :=
  { contractName := "c", contractVersion := "1", registry := ⟨[], []⟩
    constructors := [constructedMethod label [0, 0, 0, 1], constructedMethod "new" [0, 0, 0, 2]]
    messages := [{ kind := .message, label := "Token::get", name := .grouped "Token" "get", selector := [0, 0, 0, 3],
                   args := [], returnType := none, mutates := false, payable := false, docs := [] }]
    events := [], codeHash := some (List.replicate 32 0x33), bytecode := none }

/-- What the module of the document names, what its statement `i` in the body of
the handle evaluates, and what each of these names means there, or why
the import does not come so far. -/
def meaningsAt (label : String) (i : Nat) :
    Except String ((List String × List String) × List String × List Meaning) := do
  let m ← ((constructedUnit label).client "inkgen.runtime" "Instance").mapError SpellError.message
  let b ← (runStatements {} m.beforeHandle).mapError ImportError.kind
  let members ← (runBody b m.handle [] (m.handleBody.take i)).mapError ImportError.kind
  let names := (m.handleBody.drop i).head?.elim [] BodyStatement.evaluates
  return ((m.handleNames, m.classNames), names, names.map (meaningOf b members))

/-- The import of the module reaches the statement. -/
theorem reaches_of_meaningsAt {label : String} {i : Nat} {given : List String × List String} {names : List String}
    {meanings : List Meaning} (h : meaningsAt label i = .ok (given, names, meanings)) (hsome : names ≠ []) :
    ∃ m, (constructedUnit label).client "inkgen.runtime" "Instance" = .ok m ∧ given = (m.handleNames, m.classNames) ∧
      ∃ above s b members, m.Reaches m.handle above s b members ∧ names = s.evaluates ∧
        meanings = s.evaluates.map (meaningOf b members) := by
  obtain ⟨m, hm, h⟩ := bind_ok_iff.1 h
  obtain ⟨b, hb, h⟩ := bind_ok_iff.1 h
  obtain ⟨members, hmembers, heq⟩ := bind_ok_iff.1 h
  cases heq
  cases hdrop : m.handleBody.drop i with
  | nil =>
    rw [hdrop] at hsome
    exact absurd rfl hsome
  | cons s below =>
    have hbody : m.handleBody = m.handleBody.take i ++ s :: below := by
      rw [← hdrop, List.take_append_drop]
    exact ⟨m, mapError_ok_iff.1 hm, rfl, _, s, b, members,
      ClientModule.reaches_handle hbody (mapError_ok_iff.1 hb) (mapError_ok_iff.1 hmembers), rfl, rfl⟩

/-- With another label all is found as it is meant: here what the second
constructor evaluates. -/
theorem evaluated_names_found_made :
    (constructedDocument "make").compile id transferSettings none = .ok (constructedUnit "make") ∧
      ∃ m above s b members, (constructedUnit "make").client "inkgen.runtime" "Instance" = .ok m ∧
        m.Reaches m.handle above s b members ∧ s.evaluates = ["classmethod", "CODE_HASH"] ∧
        meaningOf b members "classmethod" = .intended ∧ meaningOf b members "CODE_HASH" = .intended ∧
        m.Unshadowed m.handle above "CODE_HASH" := by
  have hcompile : (constructedDocument "make").compile id transferSettings none = .ok (constructedUnit "make") := by
    cbv
  have hmeanings : meaningsAt "make" 4 = .ok ((["make", "new", "token"], ["Token"]), ["classmethod", "CODE_HASH"],
      [.intended, .intended]) := by decide +kernel
  obtain ⟨m, hclient, hgiven, above, s, b, members, hreaches, hnames, -⟩ := reaches_of_meaningsAt hmeanings (by simp)
  obtain ⟨hmembers, hclasses⟩ := Prod.mk.inj hgiven
  have hspares : m.Spares := ⟨hmembers ▸ by decide, hclasses ▸ by decide⟩
  obtain ⟨hfound, -, -, hspared⟩ := evaluated_names_found hcompile hclient
  have hmeant := (hspared hspares).1 _ _ _ _ _ hreaches
  rw [← hnames] at hmeant
  have hcode : "CODE_HASH" ∈ s.evaluates := hnames ▸ by decide
  exact ⟨hcompile, m, above, s, b, members, hclient, hreaches, hnames.symm, hmeant "classmethod" (by decide),
    hmeant "CODE_HASH" (by decide), ((hfound _ _ _ _ _ hreaches _ hcode).1.1 (hmeant "CODE_HASH" (by decide)))⟩

/-- A constructor called like its decorator takes the name from the next
constructor. -/
theorem decorator_taken :
    (constructedDocument "classmethod").compile id transferSettings none = .ok (constructedUnit "classmethod") ∧
      ∃ m above s b members, (constructedUnit "classmethod").client "inkgen.runtime" "Instance" = .ok m ∧
        m.Reaches m.handle above s b members ∧ "classmethod" ∈ s.evaluates ∧
        meaningOf b members "classmethod" = .member .classMethod := by
  have hmeanings : meaningsAt "classmethod" 4 = .ok ((["classmethod", "new", "token"], ["Token"]),
      ["classmethod", "CODE_HASH"], [.member .classMethod, .intended]) := by decide +kernel
  obtain ⟨m, hclient, -, above, s, b, members, hreaches, hnames, hmeant⟩ := reaches_of_meaningsAt hmeanings (by simp)
  rw [← hnames] at hmeant
  have hmember := (List.cons.inj hmeant).1
  exact ⟨by cbv, m, above, s, b, members, hclient, hreaches, hnames ▸ by decide, hmember.symm⟩

end ContractClient
