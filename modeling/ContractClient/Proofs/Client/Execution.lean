/-
Which statements execute.

A statement of a module can fail for two kinds of reasons. It may name something
that is not there, or read a codec too early, or make an enum of bad arms: none
of this happens where a module is put together right, and `Ready` says so. Or it
may meet a name that Python has taken for itself: a field without a default
behind one whose name is an attribute of every class, an arm offered as
an attribute that cannot be assigned, a class under the name of the module.
These names come from the document, and `Admissible` says that there are none.

A statement that is ready executes exactly if it is admissible, `run_isOk_iff`.
What was bound before is all that either of the two depends on, and a statement
binds the same names wherever it executes. So both can be asked of a list of
statements from its front to its end, `Throughout`, and the list executes
exactly if all of it is admissible.
-/
import ContractClient.Proofs.Client.Wiring
import ContractClient.Proofs.Client.Methods

set_option autoImplicit false

namespace ContractClient

/-! ## The attributes of a class of records -/

/-- Whether the attributes of a class of records are in order: none has a
default that can change, those with a default come last, and none is called like
the instance. -/
structure Orderly (attributes : List String) : Prop where
  unchanging : ∀ name ∈ attributes, name ∉ changeableAttributes.map (·.1)
  defaultsLast : attributes.Pairwise fun earlier later =>
    earlier ∈ inheritedAttributes → later ∈ inheritedAttributes
  unmistakable : "self" ∈ attributes → instanceName ∉ attributes

/-- Behind an attribute with a default every attribute must have one. -/
theorem misplacedField?_true_iff {names : List String} :
    misplacedField? true names = none ↔ ∀ name ∈ names, name ∈ inheritedAttributes := by
  induction names with
  | nil => simp [misplacedField?]
  | cons name rest ih =>
    rw [misplacedField?, List.forall_mem_cons]
    by_cases hname : name ∈ inheritedAttributes
    · simp [hname, ih]
    · simp [hname]

/-- **Attributes are in order if none without a default stands behind one with a
default.** A default is what the name means for every class, so this is a
condition on names. -/
theorem misplacedField?_eq_none_iff {names : List String} :
    misplacedField? false names = none ↔
      names.Pairwise fun earlier later => earlier ∈ inheritedAttributes → later ∈ inheritedAttributes := by
  induction names with
  | nil => simp [misplacedField?]
  | cons name rest ih =>
    rw [misplacedField?, List.pairwise_cons]
    by_cases hname : name ∈ inheritedAttributes
    · -- From here on all are inherited, and then they are in order among themselves.
      simp only [List.contains_eq_mem, hname, decide_true, if_true, misplacedField?_true_iff, forall_const]
      constructor
      · intro hall
        exact ⟨hall, List.pairwise_of_forall_mem_list fun _ _ later hlater _ => hall later hlater⟩
      · exact And.left
    · simp [hname, ih]

/-- **The check of attributes passes if they are in order.** The checks are made
one after the other, as a class body meets them, and each is the negation of one
field of `Orderly`. -/
theorem checkAttributes_ok_iff {attributes : List String} :
    checkAttributes attributes = .ok () ↔ Orderly attributes := by
  -- The first check searches the fields in their order, which comes to all of them.
  have hchange : (attributes.findSome? fun name => changeableAttributes.find? (·.1 == name)) = none ↔
      ∀ name ∈ attributes, name ∉ changeableAttributes.map (·.1) := by
    simp only [List.findSome?_eq_none_iff, List.find?_eq_none, beq_iff_eq, List.mem_map, not_exists, not_and]
  unfold checkAttributes
  constructor
  · intro h
    split at h
    · cases h
    next hnone =>
    split at h
    · cases h
    next hplaced =>
    split at h
    · cases h
    next hself =>
    refine ⟨hchange.1 hnone, misplacedField?_eq_none_iff.1 hplaced, fun hmem hname => hself ?_⟩
    simp [hmem, hname]
  · intro h
    rw [hchange.2 h.unchanging, misplacedField?_eq_none_iff.2 h.defaultsLast]
    dsimp only
    rw [if_neg]
    simp only [List.contains_eq_mem, Bool.and_eq_true, decide_eq_true_eq, not_and]
    exact h.unmistakable

/-! ## What expressions name and read -/

namespace CodecExpr

mutual

/-- The classes that an expression names. -/
def mentions : CodecExpr → List String
  | .ofClass name => [name]
  | .lateOfClass name => [name]
  | .seq item => mentions item
  | .array item _ => mentions item
  | .tuple items => mentionsOf items
  | .option inner => mentions inner
  | .result ok err => mentions ok ++ mentions err
  | _ => []

/-- The classes that several expressions name. -/
def mentionsOf : List CodecExpr → List String
  | [] => []
  | e :: rest => mentions e ++ mentionsOf rest

end

mutual

/-- The classes whose codecs an expression reads when it is evaluated. -/
def reads : CodecExpr → List String
  | .ofClass name => [name]
  | .seq item => reads item
  | .array item _ => reads item
  | .tuple items => readsOf items
  | .option inner => reads inner
  | .result ok err => reads ok ++ reads err
  | _ => []

/-- The classes whose codecs several expressions read. -/
def readsOf : List CodecExpr → List String
  | [] => []
  | e :: rest => reads e ++ readsOf rest

end

mutual

/-- **An expression that reads no codec has one in itself**, whatever codecs
there are. The induction is on the expression: classes are only mentioned late,
so nothing has to be wired yet. -/
theorem exists_eval_of_unread : ∀ e : CodecExpr, e.reads = [] →
    ∃ c, ∀ {ε : Type} (ofClass : String → Except ε Codec), e.eval ofClass = .ok c
  | .primitive kind, _ => ⟨_, fun _ => by rw [eval]⟩
  | .compact width, _ => ⟨_, fun _ => by rw [eval]⟩
  | .newtype kind, _ => ⟨_, fun _ => by rw [eval]⟩
  | .bytes, _ => ⟨_, fun _ => by rw [eval]⟩
  | .fixedBytes length, _ => ⟨_, fun _ => by rw [eval]⟩
  | .lateOfClass name, _ => ⟨_, fun _ => by rw [eval]⟩
  | .ofClass name, h => by simp [reads] at h
  | .seq item, h => by
    obtain ⟨c, hc⟩ := exists_eval_of_unread item (by simpa only [reads] using h)
    exact ⟨.seq c, fun ofClass => by rw [eval, hc]; rfl⟩
  | .array item length, h => by
    obtain ⟨c, hc⟩ := exists_eval_of_unread item (by simpa only [reads] using h)
    exact ⟨.array c length, fun ofClass => by rw [eval, hc]; rfl⟩
  | .tuple items, h => by
    obtain ⟨cs, hcs⟩ := exists_evalAll_of_unread items (by simpa only [reads] using h)
    exact ⟨.tuple cs, fun ofClass => by rw [eval, hcs]; rfl⟩
  | .option inner, h => by
    obtain ⟨c, hc⟩ := exists_eval_of_unread inner (by simpa only [reads] using h)
    exact ⟨.option c, fun ofClass => by rw [eval, hc]; rfl⟩
  | .result ok err, h => by
    simp only [reads, List.append_eq_nil_iff] at h
    obtain ⟨x, hx⟩ := exists_eval_of_unread ok h.1
    obtain ⟨y, hy⟩ := exists_eval_of_unread err h.2
    exact ⟨.result x y, fun ofClass => by rw [eval, hx, hy]; rfl⟩

/-- Several expressions that read no class have their codecs. -/
theorem exists_evalAll_of_unread : ∀ es : List CodecExpr, readsOf es = [] →
    ∃ cs, ∀ {ε : Type} (ofClass : String → Except ε Codec), evalAll ofClass es = .ok cs
  | [], _ => ⟨[], fun _ => by rw [evalAll]⟩
  | e :: rest, h => by
    simp only [readsOf, List.append_eq_nil_iff] at h
    obtain ⟨c, hc⟩ := exists_eval_of_unread e h.1
    obtain ⟨cs, hcs⟩ := exists_evalAll_of_unread rest h.2
    exact ⟨c :: cs, fun ofClass => by rw [evalAll, hc, hcs]; rfl⟩

end

end CodecExpr

namespace TypeExpr

mutual

/-- An expression names the classes of its type, looked up late or early. -/
theorem mentions_codecExpr (lazy : Bool) : ∀ t : TypeExpr, (t.codecExpr lazy).mentions = t.classes
  | .named name => by cases lazy <;> simp [codecExpr, CodecExpr.mentions, classes]
  | .seq item => by simp only [codecExpr, CodecExpr.mentions, classes, mentions_codecExpr lazy item]
  | .array item _ => by simp only [codecExpr, CodecExpr.mentions, classes, mentions_codecExpr lazy item]
  | .tuple items => by simp only [codecExpr, CodecExpr.mentions, classes, mentionsOf_codecExprs lazy items]
  | .option inner => by simp only [codecExpr, CodecExpr.mentions, classes, mentions_codecExpr lazy inner]
  | .result ok err => by
    simp only [codecExpr, CodecExpr.mentions, classes, mentions_codecExpr lazy ok, mentions_codecExpr lazy err]
  | .primitive _ | .compact _ | .newtype _ | .bytes | .fixedBytes _ => by
    simp only [codecExpr, CodecExpr.mentions, classes]

/-- So do several. -/
theorem mentionsOf_codecExprs (lazy : Bool) : ∀ ts : List TypeExpr,
    CodecExpr.mentionsOf (codecExprs lazy ts) = classesOf ts
  | [] => by simp only [codecExprs, CodecExpr.mentionsOf, classesOf]
  | t :: rest => by
    simp only [codecExprs, CodecExpr.mentionsOf, classesOf, mentions_codecExpr lazy t, mentionsOf_codecExprs lazy rest]

end

mutual

/-- Looked up late, no class is read. -/
theorem reads_late : ∀ t : TypeExpr, (t.codecExpr true).reads = []
  | .named name => by simp [codecExpr, CodecExpr.reads]
  | .seq item => by simp only [codecExpr, CodecExpr.reads, reads_late item]
  | .array item _ => by simp only [codecExpr, CodecExpr.reads, reads_late item]
  | .tuple items => by simp only [codecExpr, CodecExpr.reads, readsOf_late items]
  | .option inner => by simp only [codecExpr, CodecExpr.reads, reads_late inner]
  | .result ok err => by simp only [codecExpr, CodecExpr.reads, reads_late ok, reads_late err, List.append_nil]
  | .primitive _ | .compact _ | .newtype _ | .bytes | .fixedBytes _ => by simp only [codecExpr, CodecExpr.reads]

/-- Several expressions that look classes up late read none. -/
theorem readsOf_late : ∀ ts : List TypeExpr, CodecExpr.readsOf (codecExprs true ts) = []
  | [] => by simp only [codecExprs, CodecExpr.readsOf]
  | t :: rest => by simp only [codecExprs, CodecExpr.readsOf, reads_late t, readsOf_late rest, List.append_nil]

end

end TypeExpr

/-! ## What statements name, read and bind -/

namespace Statement

/-- The names of classes that a statement uses, apart from the one that it
binds. -/
def mentions : Statement → List String
  | .baseClass _ parent _ => [parent]
  | .recordClass _ parent _ _ => [parent]
  | .offer base _ cls => [base, cls]
  | .wireStruct name fields => name :: fields.flatMap fun f => f.2.mentions
  | .wireEnum name arms => name :: arms.flatMap fun arm => arm.2.1 :: arm.2.2.flatMap fun f => f.2.mentions
  | .methodClass _ _ _ => []
  | .upload => []

/-- The classes whose codecs a statement reads while it is executed. -/
def reads : Statement → List String
  | .wireStruct _ fields => fields.flatMap fun f => f.2.reads
  | .wireEnum _ arms => arms.flatMap fun arm => arm.2.2.flatMap fun f => f.2.reads
  | _ => []

/-- The name that a statement binds, if it binds one. -/
def boundNames (s : Statement) : List String :=
  s.binds.toList.map (·.name)

/-- The indices of the arms that a statement makes an enum of. -/
def indices : Statement → List Nat
  | .wireEnum _ arms => arms.map (·.1)
  | _ => []

/-- Whether a statement without methods finds what it needs where the names in
`bound` are bound: other classes, which for a codec have to be those of the
module, no codec at all, and for an enum indices that are bytes and
different. -/
structure Ready (bound : List String) (s : Statement) : Prop where
  known : ∀ name ∈ s.mentions, name ∈ importedNames ∨ name ∈ bound
  declared : s.wires.isSome → ∀ name ∈ s.mentions, name ∈ bound
  unread : s.reads = []
  indexed : s.indices.Nodup ∧ ∀ index ∈ s.indices, index ≤ 255
  methodless : ∀ name opening body, s ≠ .methodClass name opening body

/-- A statement that is ready stays so when more names are bound. -/
theorem Ready.mono {bound bound' : List String} {s : Statement} (h : s.Ready bound)
    (hlarge : ∀ name ∈ bound, name ∈ bound') : s.Ready bound' where
  known name hname := (h.known name hname).imp_right (hlarge name)
  declared hwires name hname := hlarge name (h.declared hwires name hname)
  unread := h.unread
  indexed := h.indexed
  methodless := h.methodless

/-- Whether a statement meets no name with a meaning of its own, where the names
in `bound` are bound. -/
def Admissible (bound : List String) : Statement → Prop
  | .recordClass record _ _ _ =>
    Orderly record.shape.attributes ∧ ("__name__" ∈ bound → record.fields = [])
  | .offer _ offeredAs _ => offeredAs ∉ unassignableAttributes
  | _ => True

end Statement

namespace Bindings

/-- The names of the classes that are bound, in the order in which they were. -/
def boundNames (b : Bindings) : List String :=
  b.classes.reverse.map (·.name)

/-- A class is found exactly if its name is bound. -/
theorem class?_isSome_iff {b : Bindings} {name : String} : (b.class? name).isSome = true ↔ name ∈ b.boundNames := by
  rw [class?, List.find?_isSome, boundNames, List.mem_map]
  simp only [beq_iff_eq, List.mem_reverse]

/-- A name can be used exactly if it is imported or bound. -/
theorem require_ok_iff {b : Bindings} {name : String} :
    b.require name = .ok () ↔ name ∈ importedNames ∨ name ∈ b.boundNames := by
  rw [require, ← class?_isSome_iff]
  by_cases h : importedNames.contains name || (b.class? name).isSome
  · rw [if_pos h]
    simpa using h
  · rw [if_neg h]
    simpa using h

/-- A class of records with attributes asks for the name of the module, which
a class of this name hides. -/
theorem requireModule_ok_iff {b : Bindings} {attributes : List String} :
    b.requireModule attributes = .ok () ↔ ("__name__" ∈ b.boundNames → attributes = []) := by
  rw [requireModule, ← class?_isSome_iff]
  by_cases hhidden : (b.class? "__name__").isSome
  · cases attributes with
    | nil => simp
    | cons => simp [hhidden]
  · simp [hhidden]

/-- Fields whose expressions read no codec have their codecs, whatever is
bound. -/
theorem exists_fields_of_unread {fields : List (String × CodecExpr)} (h : ∀ f ∈ fields, f.2.reads = []) :
    ∃ made, ∀ b : Bindings, b.fields fields = .ok made := by
  induction fields with
  | nil => exact ⟨[], fun b => rfl⟩
  | cons f rest ih =>
    obtain ⟨hf, hrest⟩ := List.forall_mem_cons.1 h
    obtain ⟨c, hc⟩ := f.2.exists_eval_of_unread hf
    obtain ⟨made, hmade⟩ := ih hrest
    refine ⟨(f.1, c) :: made, fun b => ?_⟩
    have hfield := hc b.codecOf
    have hfields := hmade b
    unfold Bindings.fields at hfields ⊢
    rw [List.mapM_cons, hfields]
    simp only [hfield]
    rfl

/-- A class that is bound has instances of a shape. -/
theorem exists_shape_of_bound {b : Bindings} {name : String} (h : name ∈ b.boundNames) :
    ∃ shape, b.shape name = .ok shape := by
  obtain ⟨c, hc⟩ := Option.isSome_iff_exists.1 (class?_isSome_iff.2 h)
  exact ⟨_, by rw [shape, hc]⟩

end Bindings

/-- Arms with indices that are bytes and different make an enum. The induction
carries the indices that were seen, from which the remaining ones have to
differ. -/
theorem Codec.exists_arms {base : String} {seen : List Nat} {given : List (Int × Shape × List (String × Codec))}
    {indices : List Nat} (hindices : given.map (·.1) = indices.map Int.ofNat)
    (hok : indices.Nodup ∧ ∀ index ∈ indices, index ≤ 255) (hfresh : ∀ index ∈ indices, index ∉ seen) :
    ∃ made, Codec.arms base seen given = .ok made := by
  induction given generalizing indices seen with
  | nil => exact ⟨[], rfl⟩
  | cons arm rest ih =>
    obtain ⟨index, shape, fields⟩ := arm
    cases indices with
    | nil => simp at hindices
    | cons n indices =>
      obtain ⟨rfl, hrest⟩ : index = (n : Int) ∧ rest.map (·.1) = indices.map Int.ofNat := by simpa using hindices
      obtain ⟨hn, hnodup⟩ := List.nodup_cons.1 hok.1
      obtain ⟨hbyte, hbytes⟩ := List.forall_mem_cons.1 hok.2
      obtain ⟨hnew, hnews⟩ := List.forall_mem_cons.1 hfresh
      have hlater : ∀ index ∈ indices, index ∉ n :: seen := by
        intro index hindex hmem
        rcases List.mem_cons.1 hmem with rfl | hmem
        · exact hn hindex
        · exact hnews index hindex hmem
      obtain ⟨made, hmade⟩ := ih hrest ⟨hnodup, hbytes⟩ hlater
      refine ⟨(n, shape, fields) :: made, ?_⟩
      rw [Codec.arms, if_neg (by omega), Int.toNat_natCast, if_neg (by simpa using hnew), hmade]
      rfl

/-! ## One statement -/

/-- A statement binds the names that it says it does, behind those that were
bound before. -/
theorem boundNames_run {s : Statement} {b b' : Bindings} (h : s.run b = .ok b') :
    b'.boundNames = b.boundNames ++ s.boundNames := by
  rw [Bindings.boundNames, (run_spec h).classes, List.reverse_append, List.reverse_reverse, List.map_append]
  rfl

/-- So do several. -/
theorem boundNames_runStatements {ss : List Statement} {b b' : Bindings} (h : runStatements b ss = .ok b') :
    b'.boundNames = b.boundNames ++ ss.flatMap Statement.boundNames := by
  induction ss generalizing b with
  | nil =>
    cases h
    exact (List.append_nil _).symm
  | cons s rest ih =>
    obtain ⟨b₁, hfirst, hrest⟩ := bind_ok_iff.1 h
    rw [ih hrest, boundNames_run hfirst, List.append_assoc, List.flatMap_cons]

/-- An arm can be offered exactly if its name can be assigned to. -/
theorem checkOffer_ok_iff {base offeredAs : String} :
    checkOffer base offeredAs = .ok () ↔ offeredAs ∉ unassignableAttributes := by
  rw [checkOffer]
  by_cases hmem : offeredAs ∈ unassignableAttributes <;> simp [hmem]

/-- A class has attributes exactly if it has fields. Fields that are mangled to
one name count once, but not for nothing. -/
theorem RecordClass.attributes_eq_nil_iff (record : RecordClass) :
    record.shape.attributes = [] ↔ record.fields = [] := by
  cases hrecord : record.fields with
  | nil => simp [RecordClass.shape, hrecord, distinct]
  | cons f rest =>
    have hmem : nameIn record.name f.name ∈ record.shape.attributes := by
      rw [RecordClass.shape, mem_distinct, hrecord]
      exact List.mem_cons_self
    simp [List.ne_nil_of_mem hmem]

/-- Every arm of an enum that is ready has its class, and fields that read no
codec. With this the wiring of an enum can only fail by its indices. -/
theorem exists_arms_of_ready {b : Bindings} {name : String} {arms : List (Nat × String × List (String × CodecExpr))}
    (h : (Statement.wireEnum name arms).Ready b.boundNames) :
    ∃ given : List (Int × Shape × List (String × Codec)), given.map (·.1) = (arms.map (·.1)).map Int.ofNat ∧
      (arms.mapM fun arm => do
        let shape ← b.armShape name arm.2.1
        let fields ← b.fields arm.2.2
        return ((arm.1 : Int), shape, fields)) = .ok given := by
  have hsteps : ∀ arm ∈ arms, ∃ given : Int × Shape × List (String × Codec), given.1 = arm.1 ∧
      b.armShape name arm.2.1 = .ok given.2.1 ∧ b.fields arm.2.2 = .ok given.2.2 := by
    intro arm harm
    have hcls : arm.2.1 ∈ (Statement.wireEnum name arms).mentions :=
      List.mem_cons_of_mem _ (List.mem_flatMap.2 ⟨arm, harm, List.mem_cons_self⟩)
    obtain ⟨shape, hshape⟩ := Bindings.exists_shape_of_bound (h.declared rfl _ hcls)
    obtain ⟨made, hmade⟩ := Bindings.exists_fields_of_unread
      (List.flatMap_eq_nil_iff.1 (List.flatMap_eq_nil_iff.1 h.unread arm harm))
    exact ⟨(arm.1, _, made), rfl, map_ok_iff.2 ⟨shape, hshape, rfl⟩, hmade b⟩
  obtain ⟨given, hgiven⟩ := exists_forall₂ hsteps
  refine ⟨given, ?_, mapM_ok_iff.2 (hgiven.imp fun arm made hmade => ?_)⟩
  · rw [List.map_map]
    exact map_eq_of_forall₂ hgiven fun arm made hmade => hmade.1
  · obtain ⟨hindex, hshape, hfields⟩ := hmade
    simp only [hshape, hfields, ← hindex]
    rfl

/-- **A statement that is ready executes exactly if it is admissible.**
Readiness is about the names that a statement mentions and admissibility about
the names that it makes, so the two together decide; each kind of statement is
executed once here, and never again. -/
theorem run_isOk_iff {s : Statement} {b : Bindings} (h : s.Ready b.boundNames) :
    (∃ b', s.run b = .ok b') ↔ s.Admissible b.boundNames := by
  -- What is ready finds all classes that it mentions, so what is left to decide is what
  -- admissibility asks.
  cases s with
  | baseClass name parent docs =>
    have hparent := Bindings.require_ok_iff.2 (h.known parent List.mem_cons_self)
    exact ⟨fun _ => trivial, fun _ => ⟨_, bind_ok_iff.2 ⟨_, hparent, rfl⟩⟩⟩
  | recordClass record parent index indexed =>
    have hparent := Bindings.require_ok_iff.2 (h.known parent List.mem_cons_self)
    rw [Statement.Admissible, ← record.attributes_eq_nil_iff, ← Bindings.requireModule_ok_iff, ← checkAttributes_ok_iff]
    constructor
    · rintro ⟨b', hrun⟩
      obtain ⟨_, -, hrun⟩ := bind_ok_iff.1 hrun
      obtain ⟨_, hmodule, hrun⟩ := bind_ok_iff.1 hrun
      obtain ⟨_, hcheck, -⟩ := bind_ok_iff.1 hrun
      exact ⟨hcheck, hmodule⟩
    · rintro ⟨hcheck, hmodule⟩
      exact ⟨_, bind_ok_iff.2 ⟨_, hparent, bind_ok_iff.2 ⟨_, hmodule, bind_ok_iff.2 ⟨_, hcheck, rfl⟩⟩⟩⟩
  | offer base offeredAs cls =>
    have hbase := Bindings.require_ok_iff.2 (h.known base List.mem_cons_self)
    have hcls := Bindings.require_ok_iff.2 (h.known cls (List.mem_cons_of_mem _ List.mem_cons_self))
    rw [Statement.Admissible, ← checkOffer_ok_iff]
    constructor
    · rintro ⟨b', hrun⟩
      obtain ⟨_, -, hrun⟩ := bind_ok_iff.1 hrun
      obtain ⟨_, -, hrun⟩ := bind_ok_iff.1 hrun
      obtain ⟨_, hoffer, -⟩ := bind_ok_iff.1 hrun
      exact hoffer
    · intro hoffer
      exact ⟨_, bind_ok_iff.2 ⟨_, hcls, bind_ok_iff.2 ⟨_, hbase, bind_ok_iff.2 ⟨_, hoffer, rfl⟩⟩⟩⟩
  | wireStruct name fields =>
    obtain ⟨shape, hshape⟩ := Bindings.exists_shape_of_bound (h.declared rfl name List.mem_cons_self)
    obtain ⟨made, hmade⟩ := Bindings.exists_fields_of_unread (List.flatMap_eq_nil_iff.1 h.unread)
    exact ⟨fun _ => trivial, fun _ => ⟨_, bind_ok_iff.2 ⟨_, hshape, bind_ok_iff.2 ⟨_, hmade b, rfl⟩⟩⟩⟩
  | wireEnum name arms =>
    have hname := Bindings.require_ok_iff.2 (h.known name List.mem_cons_self)
    obtain ⟨given, hindices, hmapM⟩ := exists_arms_of_ready h
    obtain ⟨made, hmade⟩ : ∃ made, Codec.arms name [] given = .ok made :=
      Codec.exists_arms hindices h.indexed (by simp)
    have hcodec : (Codec.enum? name given).mapError ImportError.badArms = .ok (.enum name made) := by
      rw [Codec.enum?, hmade]
      rfl
    exact ⟨fun _ => trivial, fun _ => ⟨_, bind_ok_iff.2 ⟨_, hname, bind_ok_iff.2 ⟨_, hmapM,
      bind_ok_iff.2 ⟨_, hcodec, rfl⟩⟩⟩⟩⟩
  | methodClass name opening body => exact absurd rfl (h.methodless name opening body)
  | upload => exact ⟨fun _ => trivial, fun _ => ⟨_, rfl⟩⟩

/-! ## Statements in their order -/

/-- Whether a property holds of statements one after the other, each with the
names that are bound before it. -/
def Throughout (P : List String → Statement → Prop) : List String → List Statement → Prop
  | _, [] => True
  | bound, s :: rest => P bound s ∧ Throughout P (bound ++ s.boundNames) rest

namespace Throughout

variable {P : List String → Statement → Prop} {bound : List String} {ss ss' : List Statement}

/-- A property of statements in their order holds of two parts, the second one
with the names that the first one binds. -/
theorem append_iff : Throughout P bound (ss ++ ss') ↔
    Throughout P bound ss ∧ Throughout P (bound ++ ss.flatMap Statement.boundNames) ss' := by
  induction ss generalizing bound with
  | nil => simp [Throughout]
  | cons s rest ih =>
    rw [List.cons_append, Throughout, Throughout, ih, and_assoc, List.flatMap_cons, List.append_assoc]

/-- What holds throughout holds at each place. -/
theorem at_split {before after : List Statement} {s : Statement}
    (h : Throughout P bound (before ++ s :: after)) : P (bound ++ before.flatMap Statement.boundNames) s :=
  (append_iff.1 h).2.1

/-- A property holds throughout if it holds of each statement, whatever part of
the names is bound by then. -/
theorem of_forall (h : ∀ bound', (∀ name ∈ bound', name ∈ bound ∨ name ∈ ss.flatMap Statement.boundNames) →
    (∀ name ∈ bound, name ∈ bound') → ∀ s ∈ ss, P bound' s) : Throughout P bound ss := by
  induction ss generalizing bound with
  | nil => exact trivial
  | cons s rest ih =>
    refine ⟨h bound (fun name hname => .inl hname) (fun name hname => hname) s List.mem_cons_self, ih ?_⟩
    intro bound' hsmall hlarge s' hs'
    refine h bound' (fun name hname => ?_) (fun name hname => hlarge name (List.mem_append_left _ hname)) s'
      (List.mem_cons_of_mem _ hs')
    rw [List.flatMap_cons, List.mem_append, ← or_assoc, ← List.mem_append]
    exact hsmall name hname

end Throughout

/-- **Statements that are ready execute exactly if they are admissible.** The
induction is on the statements; what one of them binds is what the next ones are
asked about. -/
theorem runStatements_isOk_iff {ss : List Statement} {b : Bindings} (h : Throughout Statement.Ready b.boundNames ss) :
    (∃ b', runStatements b ss = .ok b') ↔ Throughout Statement.Admissible b.boundNames ss := by
  induction ss generalizing b with
  | nil => exact ⟨fun _ => trivial, fun _ => ⟨b, rfl⟩⟩
  | cons s rest ih =>
    obtain ⟨hs, hrest⟩ := h
    constructor
    · rintro ⟨b', hrun⟩
      obtain ⟨b₁, hfirst, hlater⟩ := bind_ok_iff.1 hrun
      rw [← boundNames_run hfirst] at hrest
      refine ⟨(run_isOk_iff hs).1 ⟨b₁, hfirst⟩, ?_⟩
      rw [← boundNames_run hfirst]
      exact (ih hrest).1 ⟨b', hlater⟩
    · rintro ⟨hadmissible, hlater⟩
      obtain ⟨b₁, hfirst⟩ := (run_isOk_iff hs).2 hadmissible
      rw [← boundNames_run hfirst] at hrest hlater
      obtain ⟨b', hrun⟩ := (ih hrest).2 hlater
      exact ⟨b', bind_ok_iff.2 ⟨b₁, hfirst, hrun⟩⟩

end ContractClient
