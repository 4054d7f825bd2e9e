/-
What an import leaves behind.

A statement binds at most one class and wires at most one codec, and takes
nothing back: `run_spec` says so once for all statements, and what a whole
module binds and wires is read off its statements. Declared types stand first.
Their classes are all bound before the first codec is wired, so wiring finds
the class of every record; and because the names of a module are distinct,
the class that it finds is the one that was declared for the record. Whatever
comes behind, events, interfaces and the handle, adds to this and changes
nothing.

So every name of a declared type finds the codec that its declaration describes:
`codec?_of_declares`.
-/
import ContractClient.Client.Import
import ContractClient.Proofs.Client.Assembly
import ContractClient.Proofs.Client.Instances
import ContractClient.Proofs.Client.Spelling
import ContractClient.Proofs.Scale.Parts

set_option autoImplicit false

namespace ContractClient

/-! ## One statement, and several -/

/-- The class that a statement binds. -/
def Statement.binds : Statement → Option BoundClass
  | .baseClass name _ _ => some ⟨name, false, []⟩
  | .recordClass record _ _ _ => some ⟨record.name, true, record.shape.attributes⟩
  | .methodClass name _ _ => some ⟨name, true, ["account_id"]⟩
  | _ => none

/-- The class whose codec a statement wires. -/
def Statement.wires : Statement → Option String
  | .wireStruct name _ => some name
  | .wireEnum name _ => some name
  | _ => none

/-- Whether an import that has come to `b` comes to `b'` when it binds `classes`
and wires the codecs of `names`. -/
structure Bindings.Extends (b b' : Bindings) (classes : List BoundClass) (names : List String) : Prop where
  classes : b'.classes = classes.reverse ++ b.classes
  codecs : ∃ wired, b'.codecs = b.codecs ++ wired ∧ wired.map (·.1) = names

namespace Bindings.Extends

/-- An import that executes nothing has bound and wired nothing. -/
theorem refl (b : Bindings) : b.Extends b [] [] :=
  ⟨rfl, [], (List.append_nil _).symm, rfl⟩

/-- What two parts of an import bind and wire adds up, the later classes in
front of the earlier ones and the later codecs behind. -/
theorem trans {b b' b'' : Bindings} {cs cs' : List BoundClass} {ns ns' : List String}
    (h : b.Extends b' cs ns) (h' : b'.Extends b'' cs' ns') : b.Extends b'' (cs ++ cs') (ns ++ ns') := by
  obtain ⟨wired, hwired, hnames⟩ := h.codecs
  obtain ⟨wired', hwired', hnames'⟩ := h'.codecs
  refine ⟨?_, wired ++ wired', ?_, ?_⟩
  · rw [h'.classes, h.classes, List.reverse_append, List.append_assoc]
  · rw [hwired', hwired, List.append_assoc]
  · rw [List.map_append, hnames, hnames']

/-- What was wired stays wired. -/
theorem codec? {b b' : Bindings} {cs : List BoundClass} {ns : List String} (h : b.Extends b' cs ns)
    {name : String} {c : Codec} (hc : b.environment.codec? name = some c) :
    b'.environment.codec? name = some c := by
  obtain ⟨wired, hwired, -⟩ := h.codecs
  unfold Environment.codec? Bindings.environment at hc ⊢
  obtain ⟨p, hp, rfl⟩ := Option.map_eq_some_iff.1 hc
  rw [hwired, List.find?_append, hp]
  rfl

/-- What was bound stays bound. -/
theorem class?_isSome {b b' : Bindings} {cs : List BoundClass} {ns : List String} (h : b.Extends b' cs ns)
    {name : String} (hc : (b.class? name).isSome) : (b'.class? name).isSome := by
  unfold Bindings.class? at hc ⊢
  rw [List.find?_isSome] at hc ⊢
  obtain ⟨c, hmem, hname⟩ := hc
  exact ⟨c, h.classes ▸ List.mem_append_right _ hmem, hname⟩

end Bindings.Extends

/-! The offer of an arm leaves all but the list of spoiled classes as it is. -/

section

variable (b : Bindings) (base offeredAs : String)

@[simp] theorem Bindings.offer_classes : (b.offer base offeredAs).classes = b.classes := by
  unfold offer
  split <;> rfl

@[simp] theorem Bindings.offer_bodies : (b.offer base offeredAs).bodies = b.bodies := by
  unfold offer
  split <;> rfl

@[simp] theorem Bindings.offer_codecs : (b.offer base offeredAs).codecs = b.codecs := by
  unfold offer
  split <;> rfl

@[simp] theorem Bindings.offer_storesCode : (b.offer base offeredAs).storesCode = b.storesCode := by
  unfold offer
  split <;> rfl

end

/-- **What a statement does** that executes: it offers an arm, binds the
function that stores code, binds a class, wires a codec, or binds a class and
gives it its members. -/
theorem run_cases {s : Statement} {b b' : Bindings} (h : s.run b = .ok b') :
    (∃ base offeredAs cls, s = .offer base offeredAs cls ∧ b' = b.offer base offeredAs) ∨
      (s = .upload ∧ b' = { b with storesCode := true }) ∨
      (∃ c, s.binds = some c ∧ s.wires = none ∧ b' = b.bind c) ∨
      (∃ name c, s.binds = none ∧ s.wires = some name ∧ b' = b.wire name c) ∨
      ∃ name opening body c members, s = .methodClass name opening body ∧ s.binds = some c ∧ s.wires = none ∧
        b' = { b.bind c with bodies := (name, members) :: b.bodies } := by
  cases s with
  | baseClass name parent docs =>
    obtain ⟨-, -, heq⟩ := bind_ok_iff.1 h
    cases heq
    exact .inr (.inr (.inl ⟨_, rfl, rfl, rfl⟩))
  | recordClass record parent index indexed =>
    obtain ⟨-, -, h⟩ := bind_ok_iff.1 h
    obtain ⟨-, -, h⟩ := bind_ok_iff.1 h
    obtain ⟨-, -, heq⟩ := bind_ok_iff.1 h
    cases heq
    exact .inr (.inr (.inl ⟨_, rfl, rfl, rfl⟩))
  | offer base offeredAs cls =>
    obtain ⟨-, -, h⟩ := bind_ok_iff.1 h
    obtain ⟨-, -, h⟩ := bind_ok_iff.1 h
    obtain ⟨-, -, heq⟩ := bind_ok_iff.1 h
    cases heq
    exact .inl ⟨_, _, _, rfl, rfl⟩
  | wireStruct name fields =>
    obtain ⟨shape, -, h⟩ := bind_ok_iff.1 h
    obtain ⟨codecs, -, heq⟩ := bind_ok_iff.1 h
    cases heq
    exact .inr (.inr (.inr (.inl ⟨_, _, rfl, rfl, rfl⟩)))
  | wireEnum name arms =>
    obtain ⟨-, -, h⟩ := bind_ok_iff.1 h
    obtain ⟨given, -, h⟩ := bind_ok_iff.1 h
    obtain ⟨c, -, heq⟩ := bind_ok_iff.1 h
    cases heq
    exact .inr (.inr (.inr (.inl ⟨_, _, rfl, rfl, rfl⟩)))
  | methodClass name opening body =>
    obtain ⟨members, -, h⟩ := bind_ok_iff.1 h
    obtain ⟨-, -, h⟩ := bind_ok_iff.1 h
    obtain ⟨-, -, h⟩ := bind_ok_iff.1 h
    obtain ⟨-, -, heq⟩ := bind_ok_iff.1 h
    cases heq
    exact .inr (.inr (.inr (.inr ⟨name, opening, body, _, members, rfl, rfl, rfl, rfl⟩)))
  | upload =>
    cases h
    exact .inr (.inl ⟨rfl, rfl⟩)

/-- **A statement binds its class and wires its codec.** -/
theorem run_spec {s : Statement} {b b' : Bindings} (h : s.run b = .ok b') :
    b.Extends b' s.binds.toList s.wires.toList := by
  obtain ⟨base, offeredAs, cls, rfl, rfl⟩ | ⟨rfl, rfl⟩ | ⟨c, hbinds, hwires, rfl⟩ | ⟨name, c, hbinds, hwires, rfl⟩ |
    ⟨name, opening, body, c, members, -, hbinds, hwires, rfl⟩ := run_cases h
  · exact ⟨b.offer_classes base offeredAs, [], by rw [b.offer_codecs, List.append_nil], rfl⟩
  · exact ⟨rfl, [], (List.append_nil _).symm, rfl⟩
  all_goals rw [hbinds, hwires]
  · exact ⟨rfl, [], (List.append_nil _).symm, rfl⟩
  · exact ⟨rfl, _, rfl, rfl⟩
  · exact ⟨rfl, [], (List.append_nil _).symm, rfl⟩

/-- Several statements bind and wire what each of them does, in their order. -/
theorem runStatements_spec {ss : List Statement} {b b' : Bindings} (h : runStatements b ss = .ok b') :
    b.Extends b' (ss.filterMap Statement.binds) (ss.filterMap Statement.wires) := by
  induction ss generalizing b with
  | nil =>
    cases h
    exact .refl _
  | cons s rest ih =>
    obtain ⟨b₁, hfirst, hrest⟩ := bind_ok_iff.1 h
    have hall := (run_spec hfirst).trans (ih hrest)
    rw [List.filterMap_cons, List.filterMap_cons]
    -- `filterMap` asks whether the statement binds and wires, and so do the lists of
    -- `run_spec`.
    cases hbinds : s.binds <;> cases hwires : s.wires <;> simpa [hbinds, hwires] using hall

/-- Statements execute one part after the other, and the first failure ends
them. -/
theorem runStatements_append {ss ss' : List Statement} {b b'' : Bindings} :
    runStatements b (ss ++ ss') = .ok b'' ↔
      ∃ b', runStatements b ss = .ok b' ∧ runStatements b' ss' = .ok b'' := by
  induction ss generalizing b with
  | nil =>
    constructor
    · intro h
      exact ⟨b, rfl, h⟩
    · rintro ⟨b', heq, h⟩
      cases heq
      exact h
  | cons s rest ih =>
    rw [List.cons_append, runStatements, bind_ok_iff, runStatements]
    constructor
    · rintro ⟨b₁, hfirst, h⟩
      obtain ⟨b', hrest, h'⟩ := ih.1 h
      exact ⟨b', bind_ok_iff.2 ⟨b₁, hfirst, hrest⟩, h'⟩
    · rintro ⟨b', h, h'⟩
      obtain ⟨b₁, hfirst, hrest⟩ := bind_ok_iff.1 h
      exact ⟨b₁, hfirst, ih.2 ⟨b', hrest, h'⟩⟩

/-! ## Classes that are spoiled -/

/-- The class that a statement spoils, if it offers an arm under a name for
instances. -/
def Statement.spoils : Statement → Option String
  | .offer base offeredAs _ => if spoilingNames.contains offeredAs then some base else none
  | _ => none

/-- A statement spoils its class and no other. -/
theorem mem_spoiled_run {s : Statement} {b b' : Bindings} (h : s.run b = .ok b') {base : String} :
    base ∈ b'.spoiled ↔ base ∈ b.spoiled ∨ s.spoils = some base := by
  have hsame : s.spoils = none → b'.spoiled = b.spoiled →
      (base ∈ b'.spoiled ↔ base ∈ b.spoiled ∨ s.spoils = some base) := by
    intro hnone hspoiled
    rw [hnone, hspoiled]
    simp
  obtain ⟨base', offeredAs, cls, rfl, rfl⟩ | ⟨rfl, rfl⟩ | ⟨c, hbinds, -, rfl⟩ | ⟨name, c, -, hwires, rfl⟩ |
    ⟨name, opening, body, c, members, rfl, -, -, rfl⟩ := run_cases h
  · by_cases hname : offeredAs ∈ spoilingNames
    · simp [Bindings.offer, Statement.spoils, hname, or_comm, eq_comm]
    · simp [Bindings.offer, Statement.spoils, hname]
  · exact hsame rfl rfl
  · refine hsame ?_ rfl
    cases s <;> first | rfl | cases hbinds
  · refine hsame ?_ rfl
    cases s <;> first | rfl | cases hwires
  · exact hsame rfl rfl

/-- So do several statements. -/
theorem mem_spoiled_runStatements {ss : List Statement} {b b' : Bindings} (h : runStatements b ss = .ok b')
    {base : String} : base ∈ b'.spoiled ↔ base ∈ b.spoiled ∨ base ∈ ss.filterMap Statement.spoils := by
  induction ss generalizing b with
  | nil =>
    cases h
    simp
  | cons s rest ih =>
    obtain ⟨b₁, hfirst, hrest⟩ := bind_ok_iff.1 h
    simp only [ih hrest, mem_spoiled_run hfirst, or_assoc, List.mem_filterMap, List.mem_cons, exists_eq_or_imp]

/-! ## Declarations and the definitions they come from -/

/-- The three components of what three lists of one length are zipped into. -/
theorem unzip_zip_zip {α β γ : Type} {as : List α} {bs : List β} {cs : List γ} (hb : bs.length = as.length)
    (hc : cs.length = as.length) : (as.zip (bs.zip cs)).map (·.1) = as ∧
      (as.zip (bs.zip cs)).map (·.2.1) = bs ∧ (as.zip (bs.zip cs)).map (·.2.2) = cs := by
  have hlen : (bs.zip cs).length = as.length := by rw [List.length_zip, hb, hc, Nat.min_self]
  have hsnd : (as.zip (bs.zip cs)).map Prod.snd = bs.zip cs := List.map_snd_zip (Nat.le_of_eq hlen)
  refine ⟨List.map_fst_zip (Nat.le_of_eq hlen.symm), ?_, ?_⟩
  · rw [← Function.comp_def Prod.fst Prod.snd, ← List.map_map, hsnd]
    exact List.map_fst_zip (Nat.le_of_eq (hb.trans hc.symm))
  · rw [← Function.comp_def Prod.snd Prod.snd, ← List.map_map, hsnd]
    exact List.map_snd_zip (Nat.le_of_eq (hc.trans hb.symm))

/-- There is one attribute for each arm. -/
theorem length_armAttributes (labels : List String) : (armAttributes labels).length = labels.length := by
  rw [armAttributes, length_distinctNames, List.length_map]

section

variable (r : Registry) (names : ModuleNames)

/-- Whether a declaration is the one of a type. -/
def Declares (id : TypeId) (d : Declaration) : Prop :=
  ∃ name, names.types.find? id = some name ∧ declaration? r names id name = .ok (some d)

/-- Whether the fields of a class are made from given ones: with the names that
are handed out for these, and each with its type spelled out. -/
structure FieldsOf (given : List (Option String × TypeId)) (fields : List ClientField) : Prop where
  named : fields.map (·.name) = fieldNames (given.map (·.1))
  spelled : List.Forall₂ (fun id f => r.Spells names.types id f.type) (given.map (·.2)) fields

/-- What a declaration says of its type. -/
inductive Describes (id : TypeId) : Declaration → Prop
  | composite {e : Entry} {fields : List Field} {record : RecordClass} (he : r.entry? id = some e)
      (hdef : e.definition = .composite fields) (hname : names.types.find? id = some record.name)
      (hfields : FieldsOf r names (fields.map Field.request) record.fields) : Describes id (.composite record)
  | variant {e : Entry} {arms : List Arm} {name : String} {docs : List String} {classes : List ArmClass}
      (he : r.entry? id = some e) (hdef : e.definition = .variant arms)
      (hname : names.types.find? id = some name) (hclasses : classes.map (·.record.name) = names.armsOf id)
      (harms : List.Forall₂ (fun arm cls => cls.index = arm.index ∧
        FieldsOf r names (arm.fields.map Field.request) cls.record.fields) arms classes)
      (hoffered : classes.map (·.offeredAs) = armAttributes (arms.map (·.name))) :
      Describes id (.variant name docs classes)

variable {r names}

/-- A type has one declaration. -/
theorem Declares.unique {id : TypeId} {d d' : Declaration} (h : Declares r names id d)
    (h' : Declares r names id d') : d = d' := by
  obtain ⟨name, hname, hd⟩ := h
  obtain ⟨name', hname', hd'⟩ := h'
  cases hname.symm.trans hname'
  cases hd.symm.trans hd'
  rfl

/-- The fields of a class that were made are those that were asked for: each
with a name of its own, and with its type spelled out. -/
theorem fieldsOf_clientFields {given : List (Option String × TypeId)} {fields : List ClientField}
    (h : clientFields r names given = .ok fields) : FieldsOf r names given fields := by
  have hsteps := mapM_ok_iff.1 h
  have hlen : (fieldNames (given.map (·.1))).length = (given.map (·.2)).length := by
    rw [length_fieldNames, List.length_map, List.length_map]
  constructor
  · rw [map_eq_of_forall₂ (f := Prod.fst) hsteps, List.map_fst_zip (Nat.le_of_eq hlen)]
    rintro ⟨name, id⟩ f hf
    obtain ⟨t, -, heq⟩ := bind_ok_iff.1 hf
    cases heq
    rfl
  · rw [← List.map_snd_zip (Nat.le_of_eq hlen.symm), List.forall₂_map_left_iff]
    refine hsteps.imp ?_
    rintro ⟨name, id⟩ f hf
    obtain ⟨t, ht, heq⟩ := bind_ok_iff.1 hf
    cases heq
    exact Registry.spells_of_spell ht

/-- **A declaration describes its type.** What `declaration?` computes is put
into the words of `Describes`, which speaks of fields and arms one by one; that
there are as many names of arms as arms (`hlen`) is what keeps the zips from
cutting anything off. -/
theorem Declares.describes {id : TypeId} {d : Declaration} (h : Declares r names id d)
    (hlen : ∀ arms, r.definition? id = some (.variant arms) → (names.armsOf id).length = arms.length) :
    Describes r names id d := by
  obtain ⟨name, hname, hd⟩ := h
  unfold declaration? at hd
  cases he : r.entry? id with
  | none =>
    rw [he] at hd
    cases hd
  | some e =>
    rw [he] at hd
    dsimp only at hd
    cases hdef : e.definition with
    | composite fields =>
      rw [hdef] at hd
      obtain ⟨given, hgiven, heq⟩ := bind_ok_iff.1 hd
      cases heq
      exact .composite he hdef hname (fieldsOf_clientFields hgiven)
    | variant arms =>
      rw [hdef] at hd
      obtain ⟨classes, hclasses, heq⟩ := bind_ok_iff.1 hd
      cases heq
      have hsteps := mapM_ok_iff.1 hclasses
      -- The three lists that are zipped have one length, so nothing is cut off.
      obtain ⟨hfst, hcls, hattributes⟩ := unzip_zip_zip (hlen arms (Registry.definition?_of_entry he hdef))
        ((length_armAttributes _).trans (List.length_map _))
      have hstep : ∀ (p : Arm × String × String) cls, armClass r names p.1 p.2.1 p.2.2 = .ok cls →
          cls.record.name = p.2.1 ∧ cls.offeredAs = p.2.2 ∧ cls.index = p.1.index ∧
            FieldsOf r names (p.1.fields.map Field.request) cls.record.fields := by
        intro p cls hcls
        obtain ⟨fields, hfields, heq⟩ := bind_ok_iff.1 hcls
        cases heq
        exact ⟨rfl, rfl, rfl, fieldsOf_clientFields hfields⟩
      refine .variant he hdef hname ?_ ?_ ?_
      · rw [map_eq_of_forall₂ (f := fun p => p.2.1) hsteps fun p cls hcls => (hstep p cls hcls).1, hcls]
      · nth_rewrite 1 [← hfst]
        rw [List.forall₂_map_left_iff]
        exact hsteps.imp fun p cls hcls => (hstep p cls hcls).2.2
      · rw [map_eq_of_forall₂ (f := fun p => p.2.2) hsteps fun p cls hcls => (hstep p cls hcls).2.1, hattributes]
    | _ =>
      rw [hdef] at hd
      cases hd

end

/-! ## The classes of declarations -/

/-- A class of records as it is bound. -/
def RecordClass.bound (record : RecordClass) : BoundClass :=
  ⟨record.name, true, record.shape.attributes⟩

namespace Declaration

/-- The classes of records of a declaration. -/
def records : Declaration → List RecordClass
  | .composite record => [record]
  | .variant _ _ classes => classes.map (·.record)

/-- The classes that a declaration binds. -/
def bound : Declaration → List BoundClass
  | .composite record => [record.bound]
  | .variant name _ classes => ⟨name, false, []⟩ :: classes.map (·.record.bound)

/-- The class of each record of a declaration is bound. -/
theorem bound_of_record {d : Declaration} {record : RecordClass} (h : record ∈ d.records) :
    record.bound ∈ d.bound := by
  cases d with
  | composite record' =>
    rw [List.mem_singleton.1 h]
    exact List.mem_singleton.2 rfl
  | variant name docs classes =>
    obtain ⟨cls, hcls, rfl⟩ := List.mem_map.1 h
    exact List.mem_cons_of_mem _ (List.mem_map.2 ⟨cls, hcls, rfl⟩)

/-- A declaration binds a class under its own name. -/
theorem exists_bound_name (d : Declaration) : ∃ cls ∈ d.bound, cls.name = d.name := by
  cases d with
  | composite record => exact ⟨_, List.mem_singleton.2 rfl, rfl⟩
  | variant name docs classes => exact ⟨_, List.mem_cons_self, rfl⟩

/-- The statements of a declaration bind its classes. -/
theorem binds_classes (d : Declaration) : d.classes.flatten.filterMap Statement.binds = d.bound := by
  cases d with
  | composite record => rfl
  | variant name docs classes =>
    have hdeclare : (classes.map fun cls => [cls.declare name]).flatten = classes.map (·.declare name) :=
      List.map_eq_flatMap.symm
    have hclasses : (classes.map (·.declare name)).filterMap Statement.binds = classes.map (·.record.bound) := by
      rw [List.filterMap_map, ← List.filterMap_eq_map]
      rfl
    have hoffers : (classes.map (ArmClass.offer name)).filterMap Statement.binds = [] := by
      rw [List.filterMap_map, List.filterMap_eq_nil_iff]
      exact fun _ _ => rfl
    simp only [Declaration.classes, List.flatten_append, List.flatten_cons, List.flatten_nil, List.append_nil,
      List.filterMap_append, hdeclare, hclasses, hoffers]
    rfl

/-- They wire nothing yet. -/
theorem wires_classes (d : Declaration) : d.classes.flatten.filterMap Statement.wires = [] := by
  rw [List.filterMap_eq_nil_iff]
  intro s hs
  cases d with
  | composite record =>
    rw [List.mem_singleton.1 hs]
    rfl
  | variant name docs classes =>
    simp only [Declaration.classes, List.mem_flatten, List.mem_append, List.mem_cons, List.not_mem_nil,
      or_false, List.mem_map] at hs
    obtain ⟨block, (rfl | ⟨cls, -, rfl⟩) | rfl, hs⟩ := hs
    · rw [List.mem_singleton.1 hs]
      rfl
    · rw [List.mem_singleton.1 hs]
      rfl
    · obtain ⟨cls, -, rfl⟩ := List.mem_map.1 hs
      rfl

end Declaration

section

variable {r : Registry} {names : ModuleNames}

/-- A declared class has the name of its type or of one of its arms. -/
theorem Describes.name_of_bound {id : TypeId} {d : Declaration} (h : Describes r names id d) {cls : BoundClass}
    (hcls : cls ∈ d.bound) : names.types.find? id = some cls.name ∨ cls.name ∈ names.armsOf id := by
  cases h with
  | composite he hdef hname hfields =>
    rw [List.mem_singleton.1 hcls]
    exact .inl hname
  | variant he hdef hname hclasses harms =>
    rcases List.mem_cons.1 hcls with rfl | hcls
    · exact .inl hname
    · obtain ⟨arm, harm, rfl⟩ := List.mem_map.1 hcls
      rw [← hclasses]
      exact .inr (List.mem_map.2 ⟨arm, harm, rfl⟩)

/-- The classes of a declaration have different names. -/
theorem Describes.bound_nodup {id : TypeId} {d : Declaration} (h : Describes r names id d)
    (hdistinct : names.Distinct) : (d.bound.map (·.name)).Nodup := by
  cases h with
  | composite => exact List.nodup_singleton _
  | @variant e arms name docs classes he hdef hname hclasses harms =>
    have hnames : (classes.map (·.record.bound)).map (·.name) = names.armsOf id := by
      rw [List.map_map, ← hclasses]
      rfl
    rw [Declaration.bound, List.map_cons, List.nodup_cons, hnames]
    exact ⟨hdistinct.type_ne_arm hname, hdistinct.arms_nodup id⟩

/-- A declaration has the name of its type. -/
theorem Describes.name {id : TypeId} {d : Declaration} (h : Describes r names id d) :
    names.types.find? id = some d.name := by
  cases h with
  | composite he hdef hname hfields => exact hname
  | variant he hdef hname hclasses harms => exact hname

/-- **The name of a class belongs to one class only.** -/
theorem bound_unique (hdistinct : names.Distinct) {id id' : TypeId} {d d' : Declaration}
    (hd : Declares r names id d) (hd' : Declares r names id' d') (h : Describes r names id d)
    (h' : Describes r names id' d') {cls cls' : BoundClass} (hcls : cls ∈ d.bound) (hcls' : cls' ∈ d'.bound)
    (hname : cls.name = cls'.name) : cls = cls' := by
  have hid : id = id' := by
    rcases h.name_of_bound hcls with htype | harm <;> rcases h'.name_of_bound hcls' with htype' | harm'
    · exact hdistinct.type_unique htype (hname ▸ htype')
    · exact absurd (hname ▸ harm') (hdistinct.type_ne_arm htype)
    · exact absurd harm (hname ▸ hdistinct.type_ne_arm htype')
    · exact hdistinct.arm_unique harm (hname ▸ harm')
  subst hid
  cases hd.unique hd'
  exact List.inj_on_of_nodup_map (h.bound_nodup hdistinct) hcls hcls' hname

end

/-! ## The codecs of declarations -/

/-- A field of a codec. -/
def ClientField.codec (f : ClientField) : String × Codec :=
  (f.name, f.type.codec .ref)

/-- The class of records as instances are made of it. -/
def RecordClass.instances (record : RecordClass) : Shape :=
  ⟨record.name, record.shape.attributes.filter fun name => !fixedAttributes.contains name⟩

/-- The arm of a codec. Below a class that is spoiled there are no instances of
it. -/
def ArmClass.codecBelow (spoiled : Bool) (cls : ArmClass) : Codec.Arm :=
  (cls.index, if spoiled then cls.record.instances.withoutInstances else cls.record.instances,
    cls.record.fields.map ClientField.codec)

/-- The arm of a codec below any other class. -/
def ArmClass.codec (cls : ArmClass) : Codec.Arm :=
  (cls.index, cls.record.instances, cls.record.fields.map ClientField.codec)

/-- Below a class that is spoiled no instance is made, whatever it is given;
below any other class an arm makes the instances of its record. -/
theorem ArmClass.instanceOf_codecBelow {cls : ArmClass} {spoiled : Bool} {attributes : List (String × Value)}
    {v : Value} (hfree : missingAttribute ∉ attributes.map (·.1)) :
    Codec.instanceOf (cls.codecBelow spoiled).2.1 attributes = .ok v ↔
      spoiled = false ∧ Codec.instanceOf cls.record.instances attributes = .ok v := by
  cases spoiled with
  | false => exact (and_iff_right rfl).symm
  | true =>
    refine ⟨fun h => absurd h (instanceOf_withoutInstances hfree), ?_⟩
    rintro ⟨hspoiled, -⟩
    cases hspoiled

/-- Whether a declaration offers an arm under a name that Python looks up for
its instances. -/
def Declaration.spoiled : Declaration → Bool
  | .composite _ => false
  | .variant _ _ classes => classes.any fun cls => spoilingNames.contains cls.offeredAs

/-- The codec that is wired for a declaration. -/
def Declaration.codec : Declaration → Codec
  | .composite record => .struct record.instances (record.fields.map ClientField.codec)
  | .variant name docs classes => .enum name (classes.map (ArmClass.codecBelow (variant name docs classes).spoiled))

/-- Where no arm is offered under a name for instances, the codec is the enum of
the arms as they are. -/
theorem Declaration.codec_of_not_spoiled {name : String} {docs : List String} {classes : List ArmClass}
    (h : (variant name docs classes).spoiled = false) :
    (variant name docs classes).codec = .enum name (classes.map ArmClass.codec) := by
  rw [codec, h]
  rfl

section

variable {r : Registry} {names : ModuleNames}

/-- What a declaration offers its arms as comes from the definition. -/
theorem Describes.spoiled_eq {id : TypeId} {d : Declaration} {e : Entry} (h : Describes r names id d)
    (he : r.entry? id = some e) : d.spoiled = e.definition.spoiled := by
  cases h with
  | composite he' hdef =>
    cases he.symm.trans he'
    rw [hdef]
    rfl
  | variant he' hdef hname hclasses harms hoffered =>
    cases he.symm.trans he'
    rw [hdef, TypeDef.spoiled, ← hoffered, List.any_map]
    rfl

/-- **Fields with spelled types have codecs that look their classes up late.**
Nothing has to be wired yet when they are made, so their order does not
matter. -/
theorem fields_of_spelled {b : Bindings} {fields : List ClientField}
    (h : ∀ f ∈ fields, ∃ id, r.Spells names.types id f.type) :
    b.fields (fieldCodecs fields) = .ok (fields.map ClientField.codec) := by
  unfold Bindings.fields fieldCodecs
  rw [mapM_ok_iff, List.forall₂_map_left_iff, List.forall₂_map_right_iff, List.forall₂_same]
  intro f hf
  obtain ⟨id, hspelled⟩ := h f hf
  dsimp only
  rw [eval_of_spells .ref (fun _ _ _ => by simp [TypeExpr.codecExpr, CodecExpr.eval]) hspelled]
  rfl

/-- A class of records that is bound makes the instances of its record. -/
theorem shape_of_bound {b : Bindings} {record : RecordClass} (h : b.class? record.name = some record.bound) :
    b.shape record.name = .ok record.instances := by
  unfold Bindings.shape
  rw [h]
  rfl

/-- The types of all fields of a declaration are spelled out. -/
theorem Describes.spelled {id : TypeId} {d : Declaration} (h : Describes r names id d) :
    ∀ record ∈ d.records, ∀ f ∈ record.fields, ∃ id, r.Spells names.types id f.type := by
  have hfields : ∀ {given : List (Option String × TypeId)} {record : RecordClass},
      FieldsOf r names given record.fields → ∀ f ∈ record.fields, ∃ id, r.Spells names.types id f.type := by
    intro given record hof f hf
    obtain ⟨id, -, hspelled⟩ := exists_of_forall₂ hof.spelled hf
    exact ⟨id, hspelled⟩
  intro record hrecord
  cases h with
  | composite he hdef hname hof =>
    rw [List.mem_singleton.1 hrecord]
    exact hfields hof
  | variant he hdef hname hclasses harms =>
    obtain ⟨cls, hcls, rfl⟩ := List.mem_map.1 hrecord
    obtain ⟨arm, -, -, hof⟩ := exists_of_forall₂ harms hcls
    exact hfields hof

/-- **Wiring a declaration** gives its codec, if its classes are bound. Nothing
has to be wired before, since fields look their classes up late. An enum asks
besides whether its class is spoiled, since then its arms have no instances. -/
theorem wire_run {d : Declaration}
    (hspelled : ∀ record ∈ d.records, ∀ f ∈ record.fields, ∃ id, r.Spells names.types id f.type) {b b' : Bindings}
    (hbound : ∀ record ∈ d.records, b.class? record.name = some record.bound)
    (hspoiled : b.spoiled.contains d.name = d.spoiled) (hrun : d.wire.run b = .ok b') :
    b' = b.wire d.name d.codec := by
  cases d with
  | composite record =>
    have hrecord : record ∈ (Declaration.composite record).records := List.mem_singleton.2 rfl
    simp only [Declaration.wire, Statement.run, shape_of_bound (hbound record hrecord),
      fields_of_spelled (hspelled record hrecord)] at hrun
    cases hrun
    rfl
  | variant name docs classes =>
    obtain ⟨-, -, hrun⟩ := bind_ok_iff.1 hrun
    obtain ⟨given, hgiven, hrun⟩ := bind_ok_iff.1 hrun
    obtain ⟨c, hc, heq⟩ := bind_ok_iff.1 hrun
    have hgiven : given = classes.map fun cls =>
        ((cls.index : Int), (cls.codecBelow (Declaration.variant name docs classes).spoiled).2) := by
      refine (Except.ok.inj ((mapM_ok_iff.2 ?_).symm.trans hgiven)).symm
      rw [List.forall₂_map_left_iff, List.forall₂_map_right_iff, List.forall₂_same]
      intro cls hcls
      have hrecord : cls.record ∈ (Declaration.variant name docs classes).records :=
        List.mem_map.2 ⟨cls, hcls, rfl⟩
      have hname : b.spoiled.contains name = (Declaration.variant name docs classes).spoiled := hspoiled
      simp only [ArmClass.wire, Bindings.armShape, shape_of_bound (hbound _ hrecord),
        fields_of_spelled (hspelled _ hrecord), hname]
      rfl
    -- An enum that was made keeps its arms, since their indices were natural numbers before.
    have hmade : c = (Declaration.variant name docs classes).codec := by
      obtain ⟨made, hmade, rfl⟩ := map_ok_iff.1 (mapError_ok_iff.1 hc)
      rw [(Codec.arms_ok hmade).1, hgiven, List.map_map]
      rfl
    cases heq
    rw [hmade]
    rfl

/-- Wiring declarations one after the other adds their codecs, in their order,
and binds no class. The induction is on the declarations; what is wired already
does not matter to the next one. -/
theorem runStatements_wiring {ds : List Declaration} {b b' : Bindings}
    (hdescribes : ∀ d ∈ ds, ∃ id, Describes r names id d)
    (hbound : ∀ d ∈ ds, ∀ record ∈ d.records, b.class? record.name = some record.bound)
    (hspoiled : ∀ d ∈ ds, b.spoiled.contains d.name = d.spoiled)
    (hrun : runStatements b (ds.map Declaration.wire) = .ok b') :
    b'.classes = b.classes ∧ b'.codecs = b.codecs ++ ds.map fun d => (d.name, d.codec) := by
  induction ds generalizing b with
  | nil =>
    cases hrun
    exact ⟨rfl, (List.append_nil _).symm⟩
  | cons d rest ih =>
    obtain ⟨b₁, hfirst, hrest⟩ := bind_ok_iff.1 hrun
    obtain ⟨id, hd⟩ := hdescribes d List.mem_cons_self
    have hwired := wire_run hd.spelled (hbound d List.mem_cons_self) (hspoiled d List.mem_cons_self) hfirst
    subst hwired
    -- Wiring binds no class, so the classes of the other declarations are still found.
    obtain ⟨hclasses, hcodecs⟩ := ih (b := b.wire d.name d.codec)
      (fun d' hd' => hdescribes d' (List.mem_cons_of_mem _ hd'))
      (fun d' hd' => hbound d' (List.mem_cons_of_mem _ hd'))
      (fun d' hd' => hspoiled d' (List.mem_cons_of_mem _ hd')) hrest
    refine ⟨hclasses, ?_⟩
    rw [hcodecs, List.map_cons]
    exact List.append_assoc _ _ _

end

/-! ## The whole import -/

section

variable {u : CompilationUnit} {handle : String}

/-- The declarations of a module are those of the declared types. -/
theorem mem_declarations {ds : List Declaration}
    (h : declarations u.registry (u.moduleNames handle) = .ok ds) {d : Declaration} :
    d ∈ ds ↔ ∃ id, Declares u.registry (u.moduleNames handle) id d := by
  obtain ⟨found, hfound, heq⟩ := bind_ok_iff.1 h
  cases heq
  have hsteps := mapM_ok_iff.1 hfound
  constructor
  · intro hd
    obtain ⟨made, hmade, hsome⟩ := List.mem_filterMap.1 hd
    obtain ⟨id, hid, hstep⟩ := exists_of_forall₂ hsteps hmade
    obtain ⟨name, hname⟩ := exists_name handle hid
    rw [hname, hsome] at hstep
    exact ⟨id, name, hname, hstep⟩
  · rintro ⟨id, name, hname, hd⟩
    obtain ⟨made, hmade, hstep⟩ := exists_of_forall₂ hsteps.flip (declared_of_name hname)
    rw [hname] at hstep
    cases hd.symm.trans hstep
    exact List.mem_filterMap.2 ⟨some d, hmade, rfl⟩

/-- The declaration of a type describes it. The number of its arms is that of
the names that were handed out for them. -/
theorem describes_of_declares {id : TypeId} {d : Declaration}
    (h : Declares u.registry (u.moduleNames handle) id d) :
    Describes u.registry (u.moduleNames handle) id d := by
  have hname := h.choose_spec.1
  exact h.describes fun arms hdef => length_armsOf (declared_of_name hname) hdef

/-- An import that succeeds has executed all statements; before that it has been
checked that nothing in the text stops it. -/
theorem runStatements_of_run {cm : ClientModule} {b : Bindings} (h : cm.run = .ok b) :
    runStatements {} cm.statements = .ok b := by
  unfold ClientModule.run at h
  cases hrefusal : cm.refusal? with
  | some error => simp [hrefusal] at h
  | none => rwa [hrefusal] at h

/-- The statements of a module: the classes of the declarations, then their
codecs, then all else. -/
theorem statements_eq (cm : ClientModule) : ∃ rest, cm.statements =
    (cm.declarations.map fun d => d.classes.flatten).flatten ++ (cm.declarations.map Declaration.wire ++ rest) := by
  have hwiring : cm.wiring.flatten = cm.declarations.map Declaration.wire := by
    unfold ClientModule.wiring
    cases cm.declarations with
    | nil => rfl
    | cons d ds => exact List.append_nil _
  have hclasses : (cm.declarations.flatMap Declaration.classes).flatten =
      (cm.declarations.map fun d => d.classes.flatten).flatten := by
    rw [List.flatMap_def, List.flatten_flatten, List.map_map]
    rfl
  unfold ClientModule.statements ClientModule.blocks
  simp only [List.flatten_append, hwiring, hclasses, List.append_assoc]
  exact ⟨_, rfl⟩

/-- When the classes of all declarations are bound, each of them is found by its
name. -/
theorem class?_of_bound {ds : List Declaration}
    (hdeclares : ∀ d ∈ ds, ∃ id, Declares u.registry (u.moduleNames handle) id d) {b : Bindings}
    (hrun : runStatements {} (ds.map fun d => d.classes.flatten).flatten = .ok b) :
    ∀ d ∈ ds, ∀ cls ∈ d.bound, b.class? cls.name = some cls := by
  have hclasses : b.classes = (ds.flatMap Declaration.bound).reverse := by
    rw [(runStatements_spec hrun).classes, List.filterMap_flatten, List.map_map, List.flatMap_def]
    exact (List.append_nil _).trans
      (congrArg (fun l => List.reverse (List.flatten l)) (List.map_congr_left fun d _ => d.binds_classes))
  intro d hd cls hcls
  unfold Bindings.class?
  rw [hclasses]
  refine find?_key BoundClass.name (List.mem_reverse.2 (List.mem_flatMap.2 ⟨d, hd, hcls⟩)) ?_
  intro cls' hmem hname
  obtain ⟨d', hd', hcls'⟩ := List.mem_flatMap.1 (List.mem_reverse.1 hmem)
  obtain ⟨id, h⟩ := hdeclares d hd
  obtain ⟨id', h'⟩ := hdeclares d' hd'
  exact bound_unique (moduleNames_distinct u handle) h' h (describes_of_declares h') (describes_of_declares h)
    hcls' hcls hname

/-- The arms of a declaration spoil its class exactly if one of them is offered
under a name for instances. -/
theorem mem_spoils_offers {base name : String} {classes : List ArmClass} :
    base ∈ (classes.map (ArmClass.offer name)).filterMap Statement.spoils ↔
      base = name ∧ ∃ cls ∈ classes, cls.offeredAs ∈ spoilingNames := by
  simp only [List.filterMap_map, List.mem_filterMap, Function.comp_apply, ArmClass.offer, Statement.spoils,
    List.contains_iff_mem, Option.ite_none_right_eq_some, Option.some_inj]
  constructor
  · rintro ⟨cls, hcls, hname, rfl⟩
    exact ⟨rfl, cls, hcls, hname⟩
  · rintro ⟨rfl, cls, hcls, hname⟩
    exact ⟨cls, hcls, hname, rfl⟩

/-- The statements of a declaration spoil its own class and no other, and only
if it offers an arm under a name for instances. -/
theorem Declaration.mem_spoils_classes {base : String} (d : Declaration) :
    base ∈ d.classes.flatten.filterMap Statement.spoils ↔ base = d.name ∧ d.spoiled = true := by
  cases d with
  | composite record =>
    rw [spoiled]
    simp [classes, Statement.spoils]
  | variant name docs classes =>
    have hdeclare : (classes.map fun cls => [cls.declare name]).flatten = classes.map (·.declare name) :=
      List.map_eq_flatMap.symm
    have hnone : (classes.map (·.declare name)).filterMap Statement.spoils = [] := by
      rw [List.filterMap_map, List.filterMap_eq_nil_iff]
      exact fun _ _ => rfl
    have hbase : Statement.spoils (.baseClass name "Variant" docs) = none := rfl
    simp only [Declaration.classes, List.flatten_append, List.flatten_cons, List.flatten_nil, List.append_nil,
      List.filterMap_append, List.filterMap_cons, List.filterMap_nil, hdeclare, hnone, hbase, List.nil_append,
      mem_spoils_offers, Declaration.name, spoiled, List.any_eq_true, List.contains_iff_mem]

/-- When the classes of declarations are bound, those are spoiled that spoil
themselves. -/
theorem mem_spoiled_declarations {ds : List Declaration} {b : Bindings}
    (hrun : runStatements {} (ds.map fun d => d.classes.flatten).flatten = .ok b) {base : String} :
    base ∈ b.spoiled ↔ ∃ d ∈ ds, base = d.name ∧ d.spoiled = true := by
  rw [mem_spoiled_runStatements hrun, List.filterMap_flatten, List.map_map, List.mem_flatten]
  simp only [List.mem_map, Function.comp_apply, exists_exists_and_eq_and, Declaration.mem_spoils_classes,
    List.not_mem_nil, false_or]

/-- Where their names are different, a name that is spoiled tells the
declaration. -/
theorem contains_spoiled {ds : List Declaration} (hunique : ∀ d ∈ ds, ∀ d' ∈ ds, d.name = d'.name → d = d')
    {b : Bindings} (hrun : runStatements {} (ds.map fun d => d.classes.flatten).flatten = .ok b) :
    ∀ d ∈ ds, b.spoiled.contains d.name = d.spoiled := by
  intro d hd
  rw [Bool.eq_iff_iff, List.contains_iff_mem, mem_spoiled_declarations hrun]
  constructor
  · rintro ⟨d', hd', hname, hmarked⟩
    rwa [hunique d hd d' hd' hname]
  · exact fun hmarked => ⟨d, hd, rfl, hmarked⟩

/-- **Every declared type finds its codec.** The run is followed through the
classes and the wiring; the rest of the module can add codecs behind these and
takes none away. A name belongs to one declaration, so the first codec under it
is the right one. -/
theorem codec?_of_declares {runtimeModule : String} {cm : ClientModule} {b : Bindings}
    (hclient : u.client runtimeModule handle = .ok cm) (hrun : cm.run = .ok b) {id : TypeId} {d : Declaration}
    (hd : Declares u.registry (u.moduleNames handle) id d) :
    b.environment.codec? d.name = some d.codec ∧ (b.class? d.name).isSome := by
  have hmem := fun d' => mem_declarations (client_assembled hclient).declarations (d := d')
  obtain ⟨rest, hstatements⟩ := statements_eq cm
  have hrun := runStatements_of_run hrun
  rw [hstatements] at hrun
  obtain ⟨b₁, hclasses, hrun⟩ := runStatements_append.1 hrun
  obtain ⟨b₂, hwiring, hrest⟩ := runStatements_append.1 hrun
  have hbound := class?_of_bound (fun d' hd' => (hmem d').1 hd') hclasses
  -- The name of a declaration belongs to it alone.
  have hsole : ∀ d' d'', d' ∈ cm.declarations → d'' ∈ cm.declarations → d'.name = d''.name → d' = d'' := by
    intro d' d'' hd' hd'' hname
    obtain ⟨id', h'⟩ := (hmem d').1 hd'
    obtain ⟨id'', h''⟩ := (hmem d'').1 hd''
    have hname' := (describes_of_declares h').name
    rw [hname] at hname'
    have hid := (moduleNames_distinct u handle).type_unique hname' (describes_of_declares h'').name
    rw [h'.unique (hid ▸ h'')]
  obtain ⟨hsame, hcodecs⟩ := runStatements_wiring
    (fun d' hd' => ((hmem d').1 hd').imp fun id h => describes_of_declares h)
    (fun d' hd' record hrecord => hbound d' hd' record.bound (Declaration.bound_of_record hrecord))
    (contains_spoiled (fun d' hd' d'' hd'' hname => hsole d' d'' hd' hd'' hname) hclasses) hwiring
  have hd' := (hmem d).2 ⟨id, hd⟩
  -- The classes come first and wire nothing, so the codecs are those of the declarations,
  -- in their order.
  have hnone : b₁.codecs = [] := by
    obtain ⟨wired, hwired, hnames⟩ := (runStatements_spec hclasses).codecs
    have hnothing : (cm.declarations.map fun d => d.classes.flatten).flatten.filterMap Statement.wires = [] := by
      rw [List.filterMap_flatten, List.map_map, List.flatten_eq_nil_iff]
      intro names hnames
      obtain ⟨d', -, rfl⟩ := List.mem_map.1 hnames
      exact d'.wires_classes
    rw [hnothing, List.map_eq_nil_iff] at hnames
    rw [hwired, hnames]
    rfl
  rw [hnone, List.nil_append] at hcodecs
  constructor
  · refine (runStatements_spec hrest).codec? ?_
    unfold Environment.codec? Bindings.environment
    rw [hcodecs, find?_key Prod.fst (a := (d.name, d.codec)) (List.mem_map.2 ⟨d, hd', rfl⟩)]
    · rfl
    · intro p hp hname
      obtain ⟨d'', hd'', rfl⟩ := List.mem_map.1 hp
      rw [hsole d'' d hd'' hd' hname]
  · obtain ⟨cls, hcls, hname⟩ := d.exists_bound_name
    refine (runStatements_spec hrest).class?_isSome ?_
    unfold Bindings.class?
    rw [hsame, ← hname]
    exact Option.isSome_iff_exists.2 ⟨cls, hbound d hd' cls hcls⟩

end

/-! ## Names that are found after an import -/

/-- The classes of the arms that a declaration offers. -/
def Declaration.arms : Declaration → List ArmClass
  | .composite _ => []
  | .variant _ _ arms => arms

namespace ClientModule

variable {m : ClientModule} {b : Bindings}

/-- The classes that a module binds: one for each declaration and each arm, each
event and each interface. -/
def classNames (m : ClientModule) : List String :=
  m.declarations.map (·.name) ++ m.declarations.flatMap (fun d => d.arms.map (·.record.name)) ++
    m.events.map (·.record.name) ++ m.interfaces.map (·.name)

/-- Whether the handle stands for a name of its own: for none that every module
binds and for none of a class. -/
def HandleApart (m : ClientModule) : Prop :=
  m.handle ∉ moduleReserved ∧ m.handle ∉ m.classNames

instance : Decidable m.HandleApart :=
  inferInstanceAs (Decidable (_ ∧ _))

/-- Whether the import of a module ends with `b`, and all that it has bound is
found under its name: the handle, which is bound last, takes the name of nothing
else. -/
structure Imports (m : ClientModule) (b : Bindings) : Prop where
  run : m.run = .ok b
  apart : m.HandleApart

end ClientModule

/-- The import of the client of a unit, with what fails in writing. A handle
that takes the name of something else fails as well. -/
def CompilationUnit.imported (u : CompilationUnit) (runtimeModule handle : String) :
    Except String (ClientModule × Bindings) := do
  let m ← (u.client runtimeModule handle).mapError SpellError.message
  let b ← m.run.mapError ImportError.kind
  if m.HandleApart then return (m, b) else .error m.handle

/-- What is read off the import of a client is read off a module that
imports. -/
theorem exists_imported {u : CompilationUnit} {runtimeModule handle : String} {α : Type}
    {read : ClientModule × Bindings → α} {a : α} (h : (u.imported runtimeModule handle).toOption.map read = some a) :
    ∃ m b, u.client runtimeModule handle = .ok m ∧ m.Imports b ∧ read (m, b) = a := by
  obtain ⟨p, hp, hread⟩ := Option.map_eq_some_iff.1 h
  obtain ⟨m, hm, hp⟩ := bind_ok_iff.1 (toOption_eq_some_iff.1 hp)
  obtain ⟨b, hb, hp⟩ := bind_ok_iff.1 hp
  split_ifs at hp with happart
  · cases hp
    exact ⟨m, b, mapError_ok_iff.1 hm, ⟨mapError_ok_iff.1 hb, happart⟩, hread⟩

end ContractClient
