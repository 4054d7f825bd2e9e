/-
Where the methods of a unit are found.

The messages of a unit fall apart into those of the contract itself and those of
each interface, and a module has one method for each of them in its place: every
constructor and every own message on the handle, and every other message in the
one class of its interface, in the order of the document. The names are
different within each class. So far nothing is lost and nothing is met twice.

Under its name a method need not be found, though. A name that opens with two
underscores is private to its class and stands for a longer one, which another
member may have; then the later line counts. And some names a class takes for
itself. `Stays` says that neither happens to a line, and it is exactly then that
the handle has what the line binds. A property looks up the class of its
interface under a name as well, and finds it exactly if this name is
not private.
-/
import ContractClient.Proofs.Client.Members

set_option autoImplicit false

namespace ContractClient

/-! ## The places of messages -/

/-- What passes one of two tests that nothing passes both of: the items that
pass the first and those that pass the second, in another order. The induction
is on the list. -/
theorem filter_append_filter_perm {α : Type} {p q : α → Bool} {l : List α}
    (hapart : ∀ a ∈ l, p a = true → q a = false) :
    (l.filter p ++ l.filter q).Perm (l.filter fun a => p a || q a) := by
  induction l with
  | nil => exact .nil
  | cons a l ih =>
    obtain ⟨hfirst, hrest⟩ := List.forall_mem_cons.1 hapart
    have ih := ih hrest
    cases hp : p a with
    | true =>
      simp only [List.filter_cons, hp, hfirst hp, Bool.true_or, if_true, List.cons_append, Bool.false_eq_true, if_false]
      exact ih.cons a
    | false =>
      cases hq : q a with
      | true =>
        simp only [List.filter_cons, hp, hq, Bool.false_or, if_true, Bool.false_eq_true, if_false]
        exact List.perm_middle.trans (ih.cons a)
      | false =>
        simp only [List.filter_cons, hp, hq, Bool.false_or, Bool.false_eq_true, if_false]
        exact ih

/-- Groups by different keys are apart. Taken together they are the items whose
key is one of the keys, each of them once, in another order. -/
theorem flatMap_filter_perm {α κ : Type} [BEq κ] [LawfulBEq κ] (key : α → Option κ) {keys : List κ} (h : keys.Nodup)
    (l : List α) : (keys.flatMap fun k => l.filter fun a => key a == some k).Perm
      (l.filter fun a => keys.any fun k => key a == some k) := by
  induction keys with
  | nil => simp
  | cons k keys ih =>
    obtain ⟨hnew, hkeys⟩ := List.nodup_cons.1 h
    rw [List.flatMap_cons]
    refine ((ih hkeys).append_left _).trans (filter_append_filter_perm fun a _ ha => ?_)
    rw [List.any_eq_false]
    intro k' hk' heq
    rw [beq_iff_eq] at ha heq
    exact hnew (Option.some.inj (ha.symm.trans heq) ▸ hk')

/-- What is collected without repetitions has none. -/
theorem nodup_foldl_distinct {α : Type} [BEq α] [LawfulBEq α] {xs seen : List α} (h : seen.Nodup) :
    (xs.foldl (fun seen x => if seen.contains x then seen else seen ++ [x]) seen).Nodup := by
  induction xs generalizing seen with
  | nil => exact h
  | cons x xs ih =>
    rw [List.foldl_cons]
    by_cases hx : seen.contains x = true
    · rw [if_pos hx]
      exact ih h
    · rw [if_neg hx]
      refine ih (h.append (List.nodup_singleton x) fun y hy hyx => hx ?_)
      exact List.contains_iff_mem.2 (List.mem_singleton.1 hyx ▸ hy)

namespace CompilationUnit

/-- Whether each message of a unit has one place: with the contract itself or in
one of its interfaces, which are the different ones that messages name. -/
structure Grouped (u : CompilationUnit) : Prop where
  once : (u.ownMessages ++ u.interfaces.flatMap u.messagesOf).Perm u.messages
  interfaces : u.interfaces.Nodup
  named : ∀ i, i ∈ u.interfaces ↔ ∃ d ∈ u.messages, d.name.interface? = some i
  ordered : u.ownMessages.Sublist u.messages ∧ ∀ i, (u.messagesOf i).Sublist u.messages

/-- **Every message has one place.** A message has an interface or none; those
without one are the contract's own, and those with the same one make a group, in
the order in which the interfaces appear. -/
theorem grouped (u : CompilationUnit) : u.Grouped := by
  have hnodup : u.interfaces.Nodup := nodup_foldl_distinct List.nodup_nil
  have hnamed : ∀ i, i ∈ u.interfaces ↔ ∃ d ∈ u.messages, d.name.interface? = some i := fun i => by
    rw [interfaces, mem_distinct, List.mem_filterMap]
  refine ⟨?_, hnodup, hnamed, List.filter_sublist, fun _ => List.filter_sublist⟩
  have hgroups := flatMap_filter_perm (fun d : MethodDescriptor => d.name.interface?) hnodup u.messages
  refine (hgroups.append_left _).trans ((filter_append_filter_perm fun d _ hd => ?_).trans ?_)
  · rw [List.any_eq_false]
    intro i _ heq
    rw [Option.isNone_iff_eq_none.1 hd] at heq
    simp at heq
  · refine .of_eq (List.filter_eq_self.2 fun d hd => ?_)
    cases hi : d.name.interface? with
    | none => rfl
    | some i =>
      rw [Option.isNone_some, Bool.false_or, List.any_eq_true]
      exact ⟨i, (hnamed i).2 ⟨d, hd, hi⟩, beq_self_eq_true _⟩

end CompilationUnit

namespace ClientModule

/-- Whether a module has the methods of a unit in their places, under names that
are different within each class. -/
structure Houses (m : ClientModule) (u : CompilationUnit) : Prop where
  rendered : RendersAll u m
  members : KeptApart CompilationUnit.handleReserved m.handleNames
  classes : (m.interfaces.map (·.name)).Nodup
  interfaces : ∀ i ∈ m.interfaces, KeptApart CompilationUnit.interfaceReserved (i.methods.map (·.name))

/-- A generated client has a place for each message: in the handle, or in
the class of its interface. -/
theorem client_houses {u : CompilationUnit} {runtimeModule handle : String} {m : ClientModule}
    (hclient : u.client runtimeModule handle = .ok m) : m.Houses u := by
  obtain ⟨a, hmembers⟩ := handleMembers_handsOut u
  have hnames := (client_assembled hclient).interface_names.2.1
  have hkept := KeptApart.of_handsOut (moduleNames_handsOut u handle)
  have hclasses : ((u.moduleNames handle).interfaces.map (·.2)).Sublist (u.moduleNames handle).classes :=
    List.sublist_append_right _ _
  refine ⟨(client_renders hclient).2, handleNames_of_client hclient ▸ KeptApart.of_handsOut hmembers, ?_,
    interfaces_apart hclient⟩
  rw [hnames]
  exact hclasses.nodup hkept.nodup

end ClientModule

/-! ## Names that stay -/

/-- Whether a line of a class stays what its name is found as: no later line
binds what the name stands for, and the class has not taken it. -/
structure Stays (cls : String) (taken : List String) (name : String) (later : List String) : Prop where
  last : nameIn cls name ∉ later.map (nameIn cls)
  free : nameIn cls name ∉ taken

/-- A name stays through two parts of a body if it stays through the first and
no name of the second is the same in the class. -/
theorem stays_append_iff {cls : String} {taken : List String} {name : String} {later later' : List String} :
    Stays cls taken name (later ++ later') ↔
      Stays cls taken name later ∧ nameIn cls name ∉ later'.map (nameIn cls) := by
  constructor
  · intro h
    have hlast := h.last
    rw [List.map_append, List.mem_append, not_or] at hlast
    exact ⟨⟨hlast.1, h.free⟩, hlast.2⟩
  · rintro ⟨h, hlast⟩
    refine ⟨?_, h.free⟩
    rw [List.map_append, List.mem_append, not_or]
    exact ⟨h.last, hlast⟩

/-- A method is found exactly if its line stays. -/
theorem findMethod?_iff (cls : String) (taken : List String) (above : List ClientMethod) {below : List ClientMethod}
    {f : ClientMethod} (hnot : f ∉ below) : findMethod? cls taken (above ++ f :: below) (nameIn cls f.name) = some f ↔
      Stays cls taken f.name (below.map (·.name)) := by
  have hsearch := find?_reverse_split_iff (fun g : ClientMethod => nameIn cls g.name) above hnot
  rw [findMethod?, Option.ite_none_left_eq_some, hsearch, List.contains_iff_mem]
  constructor
  · rintro ⟨hfree, hlast⟩
    exact ⟨by rwa [List.map_map], hfree⟩
  · intro h
    have hlast := h.last
    rw [List.map_map] at hlast
    exact ⟨h.free, hlast⟩

/-- What stands behind a line with a name of its own is another line. -/
theorem notMem_of_names {α : Type} {name : α → String} {above below : List α} {a : α}
    (h : ((above ++ a :: below).map name).Nodup) : a ∉ below := by
  intro hmem
  rw [List.map_append, List.map_cons] at h
  exact (List.nodup_cons.1 (List.nodup_append.1 h).2.1).1 (List.mem_map_of_mem hmem)

/-! ## What an open session has -/

namespace Session

/-- Whether the handle of a session has the members that its module lays out:
properties, and below them messages, and below these constructors. A class with
the name of their decorator makes all properties records. -/
structure Laid (s : Session) : Prop where
  property : ∀ name ∈ s.module.interfaces.map (fun i => nameIn s.module.handle i.accessor),
    (s.member? name = some .property ∧ "property" ∉ s.module.classNames) ∨
      ("property" ∈ s.module.classNames ∧ ∃ cls, s.member? name = some (.record cls))
  message : ∀ name ∈ s.module.messages.map (fun f => nameIn s.module.handle f.name),
    name ∉ s.module.interfaces.map (fun i => nameIn s.module.handle i.accessor) →
      s.member? name = some .method
  constructor : ∀ name ∈ s.module.constructors.map (fun f => nameIn s.module.handle f.name),
    name ∉ s.module.interfaces.map (fun i => nameIn s.module.handle i.accessor) →
      name ∉ s.module.messages.map (fun f => nameIn s.module.handle f.name) → s.member? name = some .classMethod

/-- What a session is opened from. -/
theorem opened {m : ClientModule} {address : Except NewtypeError Bytes} {s : Session}
    (h : m.openSession address = .ok s) : s.module = m ∧ m.run = .ok s.bindings ∧
      ∀ p cls, (s.bindings.membersOf m.handle).find? (·.1 == "from_address") = some p → p.2 ≠ .record cls := by
  obtain ⟨b, hrun, h⟩ := bind_ok_iff.1 h
  dsimp only at h
  split at h
  · cases h
  · rename_i hmaker
    obtain ⟨account, -, h⟩ := bind_ok_iff.1 h
    obtain ⟨-, -, heq⟩ := bind_ok_iff.1 h
    cases heq
    exact ⟨rfl, mapError_ok_iff.1 hrun, fun p cls hp hrecord => hmaker p.1 cls (hrecord ▸ hp)⟩

/-- **The members of an open session.** A class with the name of the decorator
of constructors would have taken the maker of handles as well, so in an open
session there is none. -/
theorem laid_of_open {u : CompilationUnit} {m : ClientModule} (hhouses : m.Houses u)
    {address : Except NewtypeError Bytes} {s : Session} (h : m.openSession address = .ok s) : s.Laid := by
  obtain ⟨rfl, hrun, hmaker⟩ := opened h
  obtain ⟨b, hbefore, hbody⟩ := members_of_handle hrun
  obtain ⟨properties, messages, constructors, maker, hlayers, hmembers⟩ := ClientModule.handle_layers hbody
  -- No line of the document takes the place of the maker.
  have hfree : ∀ {α : Type} {xs : List α} {given : α → String} {layer : Members},
      xs.map given ⊆ s.module.handleNames →
        layer.map (·.1) = (xs.map fun x => nameIn s.module.handle (given x)).reverse →
          "from_address" ∉ layer.map (·.1) := by
    intro α xs given layer hsubset hnames hmem
    rw [hnames, List.mem_reverse] at hmem
    obtain ⟨x, hx, heq⟩ := List.mem_map.1 hmem
    have hname : given x = "from_address" := eq_of_nameIn_eq (by decide) heq
    exact hhouses.members.avoids _ (hsubset (List.mem_map_of_mem hx)) (hname ▸ by decide)
  have hfound : (s.bindings.membersOf s.module.handle).find? (·.1 == "from_address") =
      some ("from_address", maker) := by
    rw [hmembers, find?_layer_of_notMem _ (hfree (List.subset_append_right _ _) hlayers.propertyNames),
      find?_layer_of_notMem _ (hfree ?_ hlayers.messageNames),
      find?_layer_of_notMem _ (hfree ?_ hlayers.constructorNames)]
    · rfl
    · exact fun name hname => List.mem_append_left _ (List.mem_append_left _ hname)
    · exact fun name hname => List.mem_append_left _ (List.mem_append_right _ hname)
  have hclass : b.class? "classmethod" = none := by
    rcases hlayers.maker with ⟨hnone, -⟩ | ⟨c, -, hc⟩
    · exact hnone
    · exact absurd hc (hmaker _ c.name hfound)
  have hdeclared : "property" ∈ s.module.classNames ↔ b.class? "property" ≠ none := by
    have hbound : "property" ∈ b.boundNames ↔ "property" = "Event" ∨ "property" ∈ s.module.classNames := by
      rw [boundNames_runStatements hbefore]
      exact ClientModule.mem_boundNames_beforeHandle
    rw [ne_eq, Bindings.class?_eq_none_iff, not_not, hbound, or_iff_right (by decide)]
  constructor
  case property =>
    intro name hname
    rw [← List.mem_reverse, ← hlayers.propertyNames] at hname
    obtain ⟨k, hk, hfind⟩ := find?_layer_of_mem (messages ++ (constructors ++ _)) hname
    have hmember : s.member? name = some k := by
      rw [member?, hmembers, hfind]
      rfl
    rcases hlayers.property _ hk with ⟨hnone, hkind⟩ | ⟨c, hsome, hkind⟩
    · exact .inl ⟨hkind ▸ hmember, fun hmem => hdeclared.1 hmem hnone⟩
    · exact .inr ⟨hdeclared.2 (hsome ▸ Option.some_ne_none c), c.name, hkind ▸ hmember⟩
  case message =>
    intro name hname hproperty
    rw [← List.mem_reverse, ← hlayers.messageNames] at hname
    rw [← List.mem_reverse, ← hlayers.propertyNames] at hproperty
    obtain ⟨k, hk, hfind⟩ := find?_layer_of_mem (constructors ++ _) hname
    have hkind : k = .method := hlayers.message _ hk
    rw [member?, hmembers, find?_layer_of_notMem _ hproperty, hfind, Option.map_some, hkind]
  case constructor =>
    intro name hname hproperty hmessage
    rw [← List.mem_reverse, ← hlayers.constructorNames] at hname
    rw [← List.mem_reverse, ← hlayers.propertyNames] at hproperty
    rw [← List.mem_reverse, ← hlayers.messageNames] at hmessage
    obtain ⟨k, hk, hfind⟩ := find?_layer_of_mem _ hname
    have hkind : k = .classMethod := by
      rcases hlayers.constructor _ hk with ⟨-, hkind⟩ | ⟨c, hsome, -⟩
      · exact hkind
      · exact absurd (hclass.symm.trans hsome) (Option.some_ne_none c).symm
    rw [member?, hmembers, find?_layer_of_notMem _ hproperty, find?_layer_of_notMem _ hmessage, hfind,
      Option.map_some, hkind]

/-! ## What is found under a name -/

section

variable {s : Session} {ε : Type}

/-- **A constructor is found exactly if its line stays** below all later lines.
The body of the handle has the constructors first, so messages and interfaces
can both replace one. The three layers of the handle are searched from the last
to the first, and only in the case in which no later one has the name does the
search in the constructors decide. -/
theorem constructor?_iff (hlaid : s.Laid) (hnames : s.module.handleNames.Nodup) {above below : List ClientMethod}
    {f : ClientMethod} (hsplit : s.module.constructors = above ++ f :: below) :
    s.constructor? (ε := ε) (nameIn s.module.handle f.name) = .ok f ↔
      Stays s.module.handle (replacedNames ++ unassignableAttributes) f.name
        (below.map (·.name) ++ (s.module.messages.map (·.name) ++ s.module.interfaces.map (·.accessor))) := by
  have hconstructors : (s.module.constructors.map (·.name)).Nodup :=
    (List.nodup_append.1 (List.nodup_append.1 hnames).1).1
  rw [hsplit] at hconstructors
  have hsearch := findMethod?_iff s.module.handle (replacedNames ++ unassignableAttributes) above
    (notMem_of_names hconstructors)
  rw [← hsplit] at hsearch
  rw [stays_append_iff, ← hsearch, List.map_append, List.mem_append, not_or, List.map_map, List.map_map]
  -- From the last layer to the first: properties, messages, constructors.
  by_cases hproperty : nameIn s.module.handle f.name ∈
      s.module.interfaces.map fun i => nameIn s.module.handle i.accessor
  · refine iff_of_false ?_ fun h => h.2.2 hproperty
    rcases hlaid.property _ hproperty with ⟨hmember, -⟩ | ⟨-, cls, hmember⟩ <;> simp [constructor?, hmember]
  by_cases hmessage : nameIn s.module.handle f.name ∈ s.module.messages.map fun f => nameIn s.module.handle f.name
  · refine iff_of_false ?_ fun h => h.2.1 hmessage
    have hmember := hlaid.message _ hmessage hproperty
    simp [constructor?, hmember]
  · have hmem : nameIn s.module.handle f.name ∈ s.module.constructors.map fun f => nameIn s.module.handle f.name := by
      rw [hsplit]
      simp
    rw [constructor?, hlaid.constructor _ hmem hproperty hmessage]
    refine Iff.trans ?_ (iff_self_and.2 fun _ => ⟨hmessage, hproperty⟩)
    cases findMethod? s.module.handle (replacedNames ++ unassignableAttributes) s.module.constructors
      (nameIn s.module.handle f.name) <;> simp

/-- **A message is found exactly if its line stays** below all later lines. Only
later messages and the interfaces can replace it: the constructors stand above.
A property of the same name hides it even if the property fails. -/
theorem message?_iff (hlaid : s.Laid) (hnames : s.module.handleNames.Nodup) {above below : List ClientMethod}
    {f : ClientMethod} (hsplit : s.module.messages = above ++ f :: below) :
    s.message? (ε := ε) (nameIn s.module.handle f.name) = .ok ⟨s.module.handle, f, s.account⟩ ↔
      Stays s.module.handle (replacedNames ++ classLevelNames) f.name
        (below.map (·.name) ++ s.module.interfaces.map (·.accessor)) := by
  have hmessages : (s.module.messages.map (·.name)).Nodup :=
    (List.nodup_append.1 (List.nodup_append.1 hnames).1).2.1
  rw [hsplit] at hmessages
  have hsearch := findMethod?_iff s.module.handle (replacedNames ++ classLevelNames) above
    (notMem_of_names hmessages)
  rw [← hsplit] at hsearch
  rw [stays_append_iff, ← hsearch, List.map_map]
  -- A property that has the name answers, whether or not it gives a view.
  by_cases hproperty : nameIn s.module.handle f.name ∈
      s.module.interfaces.map fun i => nameIn s.module.handle i.accessor
  · refine iff_of_false ?_ fun h => h.2 hproperty
    rcases hlaid.property _ hproperty with ⟨hmember, -⟩ | ⟨-, cls, hmember⟩
    · rw [message?, hmember]
      intro h
      obtain ⟨view, -, h⟩ := bind_ok_iff.1 h
      cases h
    · simp [message?, hmember]
  · have hmem : nameIn s.module.handle f.name ∈ s.module.messages.map fun f => nameIn s.module.handle f.name := by
      rw [hsplit]
      simp
    have hmember := hlaid.message _ hmem hproperty
    rw [message?, hmember]
    refine Iff.trans ?_ (iff_self_and.2 fun _ => hproperty)
    cases findMethod? s.module.handle (replacedNames ++ classLevelNames) s.module.messages
      (nameIn s.module.handle f.name) <;> simp

/-- The members of an interface are checked by what its methods stand for.
Its class has no other members, and its own name is no other class's. -/
theorem checkMembers_interface_iff (hrun : s.module.run = .ok s.bindings)
    (hclasses : KeptApart [s.module.handle] (s.module.interfaces.map (·.name)))
    {i : InterfaceClass} (hi : i ∈ s.module.interfaces) (taken : List String) :
    checkMembers i.name taken (s.bindings.membersOf i.name) = .ok () ↔
      ∀ f ∈ i.methods, nameIn i.name f.name ∉ taken := by
  obtain ⟨b, hbody⟩ := members_of_interface hrun hi hclasses.nodup fun hmem =>
    hclasses.avoids _ hmem List.mem_cons_self
  have hbinds : (ClientModule.interfaceBody i).filterMap (BodyStatement.binds i.name) =
      i.methods.map fun f => nameIn i.name f.name := by
    rw [ClientModule.interfaceBody, List.filterMap_cons_none rfl, List.filterMap_map, ← List.filterMap_eq_map]
    rfl
  rw [checkMembers_ok_iff, runBody_names hbody, hbinds, List.map_nil, List.append_nil]
  simp only [List.mem_reverse, List.mem_map, not_exists, not_and]
  exact ⟨fun h f hf hmem => h _ hmem f hf rfl, fun h taken htaken f hf heq => h f hf (heq ▸ htaken)⟩

/-- A property makes an instance of the class of its interface exactly if
this class is found under its name and has no method that takes part in making
instances. -/
theorem view?_iff (hrun : s.module.run = .ok s.bindings)
    (hclasses : KeptApart [s.module.handle] (s.module.interfaces.map (·.name)))
    {i : InterfaceClass} (hi : i ∈ s.module.interfaces) {name : String} :
    s.view? (ε := ε) name = .ok ⟨i, s.account⟩ ↔
      name = i.name ∧ ∀ f ∈ i.methods, nameIn i.name f.name ∉ instanceNames := by
  -- What is found under the name is an interface, which is made if its members allow it,
  -- or something else.
  have hview : ∀ {j : InterfaceClass},
      ((checkMembers j.name instanceNames (s.bindings.membersOf j.name)).mapError CallError.lookup >>= fun _ =>
        (Except.ok ⟨j, s.account⟩ : Except (CallError ε) InterfaceView)) = .ok ⟨i, s.account⟩ ↔
        j = i ∧ checkMembers j.name instanceNames (s.bindings.membersOf j.name) = .ok () := by
    intro j
    rw [bind_ok_iff]
    constructor
    · rintro ⟨⟨⟩, hcheck, heq⟩
      cases heq
      exact ⟨rfl, mapError_ok_iff.1 hcheck⟩
    · rintro ⟨rfl, hcheck⟩
      exact ⟨(), mapError_ok_iff.2 hcheck, rfl⟩
  rw [← checkMembers_interface_iff hrun hclasses hi, view?]
  by_cases hname : name = i.name
  · subst hname
    rw [find?_of_nodup InterfaceClass.name hclasses.nodup hi]
    exact hview.trans (by simp)
  · refine iff_of_false ?_ fun h => hname h.1
    cases hfind : s.module.interfaces.find? (·.name == name) with
    | some j =>
      have hj : j.name = name := by simpa using List.find?_some hfind
      exact fun h => hname ((hview.1 h).1 ▸ hj.symm)
    | none =>
      cases hclass : s.bindings.class? name with
      | some c =>
        intro h
        obtain ⟨made, -, h⟩ := bind_ok_iff.1 h
        cases h
      | none => simp

/-- **What the last property of a name gives.** It is the interface of its line,
on the account of the handle, exactly if the class of the interface is found
from inside the handle and the name is left to it. -/
theorem interface?_iff (hlaid : s.Laid) (hnames : s.module.handleNames.Nodup) (hrun : s.module.run = .ok s.bindings)
    (hclasses : KeptApart [s.module.handle] (s.module.interfaces.map (·.name))) {above below : List InterfaceClass}
    {i : InterfaceClass} (hsplit : s.module.interfaces = above ++ i :: below)
    (hlast : nameIn s.module.handle i.accessor ∉ below.map fun j => nameIn s.module.handle j.accessor) :
    s.interface? (ε := ε) (nameIn s.module.handle i.accessor) = .ok ⟨i, s.account⟩ ↔
      nameIn s.module.handle i.accessor ∉ replacedNames ∧ "property" ∉ s.module.classNames ∧
        nameIn s.module.handle i.name = i.name ∧ ∀ f ∈ i.methods, nameIn i.name f.name ∉ instanceNames := by
  have haccessors : (s.module.interfaces.map (·.accessor)).Nodup := (List.nodup_append.1 hnames).2.1
  have hi : i ∈ s.module.interfaces := hsplit ▸ List.mem_append_right _ List.mem_cons_self
  rw [hsplit] at haccessors
  have hsearch := (find?_reverse_split_iff (fun i : InterfaceClass => nameIn s.module.handle i.accessor) above
    (notMem_of_names haccessors)).2 hlast
  rw [← hsplit] at hsearch
  rw [← view?_iff (ε := ε) hrun hclasses hi, interface?]
  by_cases htaken : nameIn s.module.handle i.accessor ∈ replacedNames
  · rw [if_pos (List.contains_iff_mem.2 htaken)]
    exact iff_of_false nofun fun h => h.1 htaken
  · rw [if_neg (fun h => htaken (List.contains_iff_mem.1 h)), hsearch]
    rcases hlaid.property _ (List.mem_map_of_mem hi) with ⟨hmember, hclass⟩ | ⟨hclass, cls, hmember⟩
    · rw [hmember]
      exact ⟨fun h => ⟨htaken, hclass, h⟩, fun h => h.2.2⟩
    · rw [hmember]
      exact iff_of_false nofun fun h => h.2.1 hclass

/-- Whatever a property gives is an interface of the module, on the account of
the handle. This holds of properties that were replaced, too: what they give
comes from the search in the module's own list. -/
theorem mem_of_interface {accessor : String} {v : InterfaceView} (h : s.interface? (ε := ε) accessor = .ok v) :
    v.interface ∈ s.module.interfaces ∧ v.account = s.account := by
  -- A view comes from the list of interfaces, or it is no view.
  have hview : ∀ {name : String}, s.view? (ε := ε) name = .ok v →
      v.interface ∈ s.module.interfaces ∧ v.account = s.account := by
    intro name h
    unfold view? at h
    split at h
    · rename_i i hfind
      obtain ⟨-, -, heq⟩ := bind_ok_iff.1 h
      cases heq
      exact ⟨List.mem_of_find?_eq_some hfind, rfl⟩
    · split at h
      · obtain ⟨made, -, h⟩ := bind_ok_iff.1 h
        cases h
      · cases h
  unfold interface? at h
  dsimp only at h
  split at h
  · cases h
  · split at h
    · exact hview h
    · cases h

/-- **A message of an interface is found exactly if its line stays.** -/
theorem interfaceMessage?_iff {accessor : String} {v : InterfaceView} (hview : s.interface? (ε := ε) accessor = .ok v)
    (hnames : (v.interface.methods.map (·.name)).Nodup) {above below : List ClientMethod} {f : ClientMethod}
    (hsplit : v.interface.methods = above ++ f :: below) :
    s.interfaceMessage? (ε := ε) accessor (nameIn v.interface.name f.name) = .ok ⟨v.interface.name, f, v.account⟩ ↔
      Stays v.interface.name (replacedNames ++ classLevelNames) f.name (below.map (·.name)) := by
  rw [hsplit] at hnames
  have hsearch := findMethod?_iff v.interface.name (replacedNames ++ classLevelNames) above
    (notMem_of_names hnames)
  rw [← hsplit] at hsearch
  rw [← hsearch, interfaceMessage?, hview]
  cases hfind : findMethod? v.interface.name (replacedNames ++ classLevelNames) v.interface.methods
      (nameIn v.interface.name f.name) <;> simp [bind, Except.bind, hfind, pure, Except.pure]

/-- What is found as a message of the handle is one of its messages, by the name
that this stands for. -/
theorem name_of_message {name : String} {found : FoundMethod} (h : s.message? (ε := ε) name = .ok found) :
    found.method ∈ s.module.messages ∧ nameIn s.module.handle found.method.name = name := by
  unfold message? at h
  dsimp only at h
  split at h
  · rename_i hfind
    cases h
    rw [findMethod?, Option.ite_none_left_eq_some] at hfind
    exact ⟨List.mem_reverse.1 (List.mem_of_find?_eq_some hfind.2), by simpa using List.find?_some hfind.2⟩
  · obtain ⟨view, -, h⟩ := bind_ok_iff.1 h
    cases h
  · cases h

/-- **What a session finds.** Under the name of a constructor or message the
handle has the method of a line exactly if the line stays. Under the name of a
property it has the interface of the last line, on its own account, exactly if
the class of this interface is found there; and what a property gives has the
messages whose lines stay. -/
structure Exposes (s : Session) (ε : Type) : Prop where
  constructors : ∀ above f below, s.module.constructors = above ++ f :: below →
    (s.constructor? (ε := ε) (nameIn s.module.handle f.name) = .ok f ↔
      Stays s.module.handle (replacedNames ++ unassignableAttributes) f.name
        (below.map (·.name) ++ (s.module.messages.map (·.name) ++ s.module.interfaces.map (·.accessor))))
  messages : ∀ above f below, s.module.messages = above ++ f :: below →
    (s.message? (ε := ε) (nameIn s.module.handle f.name) = .ok ⟨s.module.handle, f, s.account⟩ ↔
      Stays s.module.handle (replacedNames ++ classLevelNames) f.name
        (below.map (·.name) ++ s.module.interfaces.map (·.accessor)))
  properties : ∀ above i below, s.module.interfaces = above ++ i :: below →
    nameIn s.module.handle i.accessor ∉ below.map (fun j => nameIn s.module.handle j.accessor) →
      (s.interface? (ε := ε) (nameIn s.module.handle i.accessor) = .ok ⟨i, s.account⟩ ↔
        nameIn s.module.handle i.accessor ∉ replacedNames ∧ "property" ∉ s.module.classNames ∧
          nameIn s.module.handle i.name = i.name ∧ ∀ f ∈ i.methods, nameIn i.name f.name ∉ instanceNames)
  interfaceMessages : ∀ accessor v, s.interface? (ε := ε) accessor = .ok v →
    v.interface ∈ s.module.interfaces ∧ v.account = s.account ∧
      ∀ above f below, v.interface.methods = above ++ f :: below →
        (s.interfaceMessage? (ε := ε) accessor (nameIn v.interface.name f.name) =
            .ok ⟨v.interface.name, f, v.account⟩ ↔
          Stays v.interface.name (replacedNames ++ classLevelNames) f.name (below.map (·.name)))

/-- Whether a session finds every method and every interface of its module,
under the names that they have there. -/
structure ExposesAll (s : Session) (ε : Type) : Prop where
  constructors : ∀ f ∈ s.module.constructors, s.constructor? (ε := ε) f.name = .ok f
  messages : ∀ f ∈ s.module.messages, s.message? (ε := ε) f.name = .ok ⟨s.module.handle, f, s.account⟩
  interfaces : ∀ i ∈ s.module.interfaces, s.interface? (ε := ε) i.accessor = .ok ⟨i, s.account⟩ ∧
    ∀ f ∈ i.methods, s.interfaceMessage? (ε := ε) i.accessor f.name = .ok ⟨i.name, f, s.account⟩

/-- **An open session exposes each message** under the name that it was housed
under. Opening a session is what makes the handle, so nothing is asked but that
it was opened. -/
theorem exposes_of_open {u : CompilationUnit} {m : ClientModule} (hhouses : m.Houses u) (happart : m.HandleApart)
    {address : Except NewtypeError Bytes} (h : m.openSession address = .ok s) : s.Exposes ε := by
  have hlaid := laid_of_open hhouses h
  obtain ⟨rfl, hrun, -⟩ := opened h
  have hnames := hhouses.members.nodup
  have hclasses : KeptApart [s.module.handle] (s.module.interfaces.map (·.name)) := by
    refine ⟨hhouses.classes, fun name hname hmem => happart.2 ?_⟩
    rw [← List.mem_singleton.1 hmem]
    exact List.mem_append_right _ hname
  refine ⟨fun _ _ _ hsplit => constructor?_iff hlaid hnames hsplit,
    fun _ _ _ hsplit => message?_iff hlaid hnames hsplit,
    fun _ _ _ hsplit hlast => interface?_iff hlaid hnames hrun hclasses hsplit hlast, fun accessor v hview => ?_⟩
  obtain ⟨hmem, haccount⟩ := mem_of_interface hview
  exact ⟨hmem, haccount, fun _ _ _ hsplit =>
    interfaceMessage?_iff hview (hhouses.interfaces v.interface hmem).nodup hsplit⟩

end

end Session

/-! ## Names without two underscores in front -/

/-- Whether no name that a document brings into the handle or an interface opens
with two underscores, and no class is called like the decorator of
properties. -/
structure ClientModule.Plain (m : ClientModule) : Prop where
  members : ∀ name ∈ m.handleNames, name.startsWith "__" = false
  interfaces : ∀ i ∈ m.interfaces, i.name.startsWith "__" = false ∧ ∀ f ∈ i.methods, f.name.startsWith "__" = false
  property : "property" ∉ m.classNames

/-- Only names with two underscores in front are changed within a class. -/
theorem nameIn_of_startsWith {cls name : String} (h : name.startsWith "__" = false) : nameIn cls name = name := by
  refine nameIn_of_plain ?_
  rw [isPrivate, h, Bool.false_and]

/-- A plain name is none of those that classes take for themselves. -/
theorem plain_notMem {name : String} {taken : List String} (hname : name.startsWith "__" = false)
    (htaken : ∀ name ∈ taken, name.startsWith "__" = true) : name ∉ taken := by
  intro hmem
  rw [htaken name hmem] at hname
  cases hname

/-- Among different plain names every one stays. -/
theorem stays_of_plain (cls : String) {taken : List String}
    (htaken : ∀ name ∈ taken, name.startsWith "__" = true) {names : List String}
    (hnodup : names.Nodup) (hplain : ∀ name ∈ names, name.startsWith "__" = false) {name : String}
    (front later : List String) (hsplit : names = front ++ name :: later) : Stays cls taken name later := by
  subst hsplit
  obtain ⟨hname, hlater⟩ := List.forall_mem_cons.1 fun name hmem => hplain name (List.mem_append_right _ hmem)
  have hnot := (List.nodup_cons.1 (List.nodup_append.1 hnodup).2.1).1
  have hsame : later.map (nameIn cls) = later :=
    (List.map_congr_left fun name hmem => nameIn_of_startsWith (hlater name hmem)).trans (List.map_id' later)
  refine ⟨?_, fun hmem => ?_⟩
  · rwa [hsame, nameIn_of_startsWith hname]
  · exact plain_notMem hname htaken (nameIn_of_startsWith hname ▸ hmem)

/-- **Plain names are all found.** Without underscores in front no name is
changed by its class, and none is one that an instance has already, so every
line of every body stays. Members, their order and their classes do not matter
any more. -/
theorem Session.Exposes.all {s : Session} {ε : Type} (h : s.Exposes ε) {u : CompilationUnit}
    (hhouses : s.module.Houses u) (hplain : s.module.Plain) : s.ExposesAll ε := by
  have hnodup := hhouses.members.nodup
  have hmembers := hplain.members
  -- Plain names stand for themselves and none is taken, so every line stays;
  -- `stays_of_plain` says so, and each case only splits the names of its class at the
  -- line in question.
  constructor
  case constructors =>
    intro f hf
    obtain ⟨above, below, hsplit⟩ := List.append_of_mem hf
    have hfound := (h.constructors above f below hsplit).2
      (stays_of_plain _ (by decide +kernel) hnodup hmembers (above.map (·.name)) _
        (by simp [ClientModule.handleNames, hsplit]))
    rwa [nameIn_of_startsWith (hmembers f.name (by simp [ClientModule.handleNames, hsplit]))] at hfound
  case messages =>
    intro f hf
    obtain ⟨above, below, hsplit⟩ := List.append_of_mem hf
    have hfound := (h.messages above f below hsplit).2 (stays_of_plain _ (by decide +kernel) hnodup hmembers
      (s.module.constructors.map (·.name) ++ above.map (·.name)) _ (by simp [ClientModule.handleNames, hsplit]))
    rwa [nameIn_of_startsWith (hmembers f.name (by simp [ClientModule.handleNames, hsplit]))] at hfound
  case interfaces =>
    intro i hi
    obtain ⟨above, below, hsplit⟩ := List.append_of_mem hi
    obtain ⟨hinterface, hmethods⟩ := hplain.interfaces i hi
    have hstays : Stays s.module.handle replacedNames i.accessor (below.map (·.accessor)) :=
      stays_of_plain _ (by decide +kernel) hnodup hmembers
        (s.module.constructors.map (·.name) ++ (s.module.messages.map (·.name) ++ above.map (·.accessor))) _
        (by simp [ClientModule.handleNames, hsplit])
    have hlast := hstays.last
    rw [List.map_map] at hlast
    have hmaking : ∀ f ∈ i.methods, nameIn i.name f.name ∉ instanceNames := by
      intro f hf
      rw [nameIn_of_startsWith (hmethods f hf)]
      exact plain_notMem (hmethods f hf) (by decide +kernel)
    have hfound := (h.properties above i below hsplit hlast).2
      ⟨hstays.free, hplain.property, nameIn_of_startsWith hinterface, hmaking⟩
    rw [nameIn_of_startsWith (hmembers i.accessor (by simp [ClientModule.handleNames, hsplit]))] at hfound
    refine ⟨hfound, fun f hf => ?_⟩
    obtain ⟨-, -, hmessages⟩ := h.interfaceMessages i.accessor _ hfound
    obtain ⟨above, below, hsplit⟩ := List.append_of_mem hf
    have hmessage := (hmessages above f below hsplit).2
      (stays_of_plain _ (by decide +kernel) (hhouses.interfaces i hi).nodup (by simpa using hmethods)
        (above.map (·.name)) _ (by simp [hsplit]))
    rwa [nameIn_of_startsWith (hmethods f hf)] at hmessage

/-- **Where the methods of a unit are found.** Every message of a unit belongs
to the contract itself or to one of the different interfaces that messages name.
The module has a method for every constructor and every own message on its
handle, and one for every other message in the one class of its interface, in
the order of the document and under names that are different within the class;
and it has one property for each interface. In an open session, if the handle
stands for a name of its own, it has the method or interface of a line exactly
if the line stays what its name is found as, and, for a property, if the class
of the interface is found there. So if no name opens with two underscores all of
them are found under their names. -/
theorem methods_exposed {u : CompilationUnit} {runtimeModule handle : String} {m : ClientModule}
    (hclient : u.client runtimeModule handle = .ok m) :
    u.Grouped ∧ m.Houses u ∧ ∀ (ε : Type) (address : Except NewtypeError Bytes) (s : Session),
      m.openSession address = .ok s → s.module = m ∧
        (m.HandleApart → s.Exposes ε ∧ (m.Plain → s.ExposesAll ε)) := by
  have hhouses := ClientModule.client_houses hclient
  refine ⟨u.grouped, hhouses, fun ε address s hopen => ⟨(Session.opened hopen).1, fun happart => ?_⟩⟩
  have hexposes : s.Exposes ε := Session.exposes_of_open hhouses happart hopen
  obtain ⟨rfl, -, -⟩ := Session.opened hopen
  exact ⟨hexposes, fun hplain => hexposes.all hhouses hplain⟩

/-! ## Private names -/

/-- A document with two messages of the contract itself that have the given
labels, and one of an interface. -/
def exposedDocument (first second interface : String) : Document :=
  .value (.obj [("version", .int 4), ("contract", .obj [("name", .str "c"), ("version", .str "1")]),
    ("types", .arr []),
    ("spec", .obj [
      ("constructors", .arr [.obj [("label", .str "new"), ("args", .arr []), ("selector", .str "0x00000001")]]),
      ("messages", .arr [
        .obj [("label", .str first), ("args", .arr []), ("mutates", .bool true), ("selector", .str "0x0a0a0a0a")],
        .obj [("label", .str second), ("args", .arr []), ("mutates", .bool true), ("selector", .str "0x0b0b0b0b")],
        .obj [("label", .str (interface ++ "::get")), ("args", .arr []), ("mutates", .bool true),
          ("selector", .str "0x0c0c0c0c")]]),
      ("events", .arr [])])])

/-- A message of the document. -/
def exposedMessage (label : String) (name : MethodName) (selector : Bytes) : MethodDescriptor :=
  { kind := .message, label, name, selector, args := [], returnType := none, mutates := true, payable := false,
    docs := [] }

/-- The unit of the document. -/
def exposedUnit (first second interface : String) : CompilationUnit :=
  { contractName := "c", contractVersion := "1", registry := ⟨[], []⟩
    constructors := [{ exposedMessage "new" (.ungrouped "new") [0, 0, 0, 1] with kind := .constructor }]
    messages := [exposedMessage first (.ungrouped first) [10, 10, 10, 10],
      exposedMessage second (.ungrouped second) [11, 11, 11, 11],
      exposedMessage (interface ++ "::get") (.grouped interface "get") [12, 12, 12, 12]]
    events := [], codeHash := none, bytecode := none }

/-- The module of the document and a session for the contract at an address of
zeros. -/
def exposedSession (first second interface : String) : Except String (ClientModule × Session) := do
  let m ← ((exposedUnit first second interface).client "inkgen.runtime" "Instance").mapError SpellError.message
  let s ← (m.openSession (.ok (List.replicate 32 0))).mapError SessionError.kind
  return (m, s)

/-- What the names in the module are: of the members of the handle, of classes,
and of the methods of each interface. -/
def givenNames (m : ClientModule) : List String × List String × List (String × List String) :=
  (m.handleNames, m.classNames, m.interfaces.map fun i => (i.name, i.methods.map (·.name)))

/-- The labels and names of own messages. -/
def givenLabels (m : ClientModule) : List (String × String) :=
  m.messages.map fun f => (f.label, f.name)

/-- The session of the example, and what the examples read in it, follow from
one evaluation. -/
theorem exists_exposedSession {first second interface : String} {α : Type} {read : ClientModule × Session → α} {a : α}
    (h : (exposedSession first second interface).toOption.map read = some a) :
    ∃ m s, (exposedUnit first second interface).client "inkgen.runtime" "Instance" = .ok m ∧
      m.openSession (.ok (List.replicate 32 0)) = .ok s ∧ read (m, s) = a := by
  obtain ⟨p, hp, hread⟩ := Option.map_eq_some_iff.1 h
  obtain ⟨m, hm, hp⟩ := bind_ok_iff.1 (toOption_eq_some_iff.1 hp)
  obtain ⟨s, hs, heq⟩ := bind_ok_iff.1 hp
  cases heq
  exact ⟨m, s, mapError_ok_iff.1 hm, mapError_ok_iff.1 hs, hread⟩

/-- Under plain labels all is found. The document has a method of each kind: a
constructor, two messages and an interface with a message of its own. -/
theorem methods_exposed_plain :
    (exposedDocument "f" "g" "Token").compile id transferSettings none = .ok (exposedUnit "f" "g" "Token") ∧
      ∃ m s, (exposedUnit "f" "g" "Token").client "inkgen.runtime" "Instance" = .ok m ∧
        m.openSession (.ok (List.replicate 32 0)) = .ok s ∧ m.handleNames = ["new", "f", "g", "token"] ∧
        m.Plain ∧ s.ExposesAll Unit := by
  have hcompile : (exposedDocument "f" "g" "Token").compile id transferSettings none =
      .ok (exposedUnit "f" "g" "Token") := by cbv
  have hread : (exposedSession "f" "g" "Token").toOption.map (fun p => (p.1.handle, givenNames p.1)) =
      some ("Instance", ["new", "f", "g", "token"], ["Token"], [("Token", ["get"])]) := by
    decide +kernel
  obtain ⟨m, s, hclient, hopen, hread⟩ := exists_exposedSession hread
  obtain ⟨hhandle, hread⟩ := Prod.mk.inj hread
  obtain ⟨hmembers, hread⟩ := Prod.mk.inj hread
  obtain ⟨hclasses, hinterfaces⟩ := Prod.mk.inj hread
  have happart : m.HandleApart := ⟨hhandle ▸ by decide, hhandle ▸ hclasses ▸ by decide⟩
  have hplain : m.Plain := by
    refine ⟨?_, fun i hi => ?_, ?_⟩
    · rw [hmembers]
      decide +kernel
    · have hmem : (i.name, i.methods.map (·.name)) ∈ [("Token", ["get"])] := by
        rw [← hinterfaces]
        exact List.mem_map_of_mem hi
      obtain ⟨hname, hmethods⟩ := Prod.mk.inj (List.mem_singleton.1 hmem)
      refine ⟨hname ▸ by decide +kernel, fun f hf => ?_⟩
      have hf := List.mem_map_of_mem (f := (·.name)) hf
      rw [hmethods, List.mem_singleton] at hf
      rw [hf]
      decide +kernel
    · rw [hclasses]
      decide
  obtain ⟨-, -, hsessions⟩ := methods_exposed hclient
  exact ⟨hcompile, m, s, hclient, hopen, hmembers, hplain, ((hsessions Unit _ s hopen).2 happart).2 hplain⟩

/-- A message with the name that another one stands for is lost, no name of the
handle gives it; and so is an interface whose class has a private name. -/
theorem private_names_lost :
    (exposedDocument "_Instance__f" "__f" "--I").compile id transferSettings none =
        .ok (exposedUnit "_Instance__f" "__f" "--I") ∧
      ∃ m s, (exposedUnit "_Instance__f" "__f" "--I").client "inkgen.runtime" "Instance" = .ok m ∧
        m.openSession (.ok (List.replicate 32 0)) = .ok s ∧
        (∃ f ∈ m.messages, f.label = "_Instance__f" ∧
          ∀ name found, s.message? (ε := Unit) name = .ok found → found.method ≠ f) ∧
        m.interfaces.map (fun i => (i.interface, i.name, i.accessor)) = [("--I", "__I", "i")] ∧
        ∀ v, s.interface? (ε := Unit) "i" ≠ .ok v := by
  have hcompile : (exposedDocument "_Instance__f" "__f" "--I").compile id transferSettings none =
      .ok (exposedUnit "_Instance__f" "__f" "--I") := by
    cbv
  have hread : (exposedSession "_Instance__f" "__f" "--I").toOption.map (fun p => ((givenLabels p.1,
      p.1.interfaces.map (fun i => (i.interface, i.name, i.accessor))), p.1.handle,
      (p.2.message? (ε := Unit) "_Instance__f").toOption.map (·.method.label),
      (p.2.interface? (ε := Unit) "i").toOption.isSome)) =
        some (([("_Instance__f", "_Instance__f"), ("__f", "__f")], [("--I", "__I", "i")]), "Instance", some "__f",
          false) := by
    decide +kernel
  obtain ⟨m, s, hclient, hopen, hread⟩ := exists_exposedSession hread
  obtain ⟨hnames, hread⟩ := Prod.mk.inj hread
  obtain ⟨hlabels, hinterfaces⟩ := Prod.mk.inj hnames
  obtain ⟨hhandle, hread⟩ := Prod.mk.inj hread
  obtain ⟨hfound, hnone⟩ := Prod.mk.inj hread
  obtain ⟨f, hf, hnames⟩ : ∃ f ∈ m.messages, (f.label, f.name) = ("_Instance__f", "_Instance__f") := by
    refine List.mem_map.1 (?_ : _ ∈ givenLabels m)
    rw [hlabels]
    exact List.mem_cons_self
  obtain ⟨hlabel, hname⟩ := Prod.mk.inj hnames
  refine ⟨hcompile, m, s, hclient, hopen, ⟨f, hf, hlabel, ?_⟩, hinterfaces, fun v hview => ?_⟩
  · rintro name found hmessage rfl
    -- The name that gives the message could only be its own, which gives the other one.
    obtain ⟨-, hstands⟩ := Session.name_of_message hmessage
    rw [(Session.opened hopen).1, hname, hhandle] at hstands
    have hown : name = "_Instance__f" := hstands.symm.trans (by decide +kernel)
    rw [hown] at hmessage
    rw [hmessage] at hfound
    have hother : found.method.label = "__f" := Option.some.inj hfound
    rw [hlabel] at hother
    exact absurd hother (by decide)
  · rw [hview] at hnone
    cases hnone

end ContractClient
