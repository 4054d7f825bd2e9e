/-
Which instances a client can make.

The class of a record has the attributes that the names of its fields stand for
in the class. For most names that is the name itself. A name that is private to
the class stands for a longer one, which no field of the codec goes by, and then
no instance can be made; nor can one be made with an attribute that is fixed.
Everything else works, and then the instance holds the values in the order of
the fields.
-/
import ContractClient.Proofs.Client.Allocation
import ContractClient.Proofs.Client.Plain
import ContractClient.Proofs.Scale.Parts

set_option autoImplicit false

namespace ContractClient

open Codec

/-! ## Values that can be made -/

namespace Value

variable {spoiled : String → Bool}

/-- Items can be made together if each can. -/
theorem allConstructible_iff {items : List Value} :
    allConstructible spoiled items = true ↔ ∀ v ∈ items, v.constructible spoiled = true := by
  induction items with
  | nil => simp [allConstructible]
  | cons v rest ih => rw [allConstructible, Bool.and_eq_true, ih, List.forall_mem_cons]

/-- The attributes of a record can be given if the class takes each name and
each value can be made. The lists have one length, so no name goes without a
value. -/
theorem attributesConstructible_zip {cls : String} {names : List String} {items : List Value}
    (hlen : items.length = names.length) :
    attributesConstructible spoiled cls (names.zip items) = true ↔
      (∀ name ∈ names, takesAttribute cls name = true) ∧ ∀ v ∈ items, v.constructible spoiled = true := by
  induction names generalizing items with
  | nil =>
    rw [List.eq_nil_of_length_eq_zero hlen]
    simp [attributesConstructible]
  | cons name names ih =>
    cases items with
    | nil => simp at hlen
    | cons v items =>
      rw [List.zip_cons_cons, attributesConstructible, Bool.and_eq_true, Bool.and_eq_true,
        ih (by simpa using hlen), List.forall_mem_cons, List.forall_mem_cons]
      tauto

end Value

/-! ## Private names -/

/-- What a private name stands for opens with one underscore only, so it is
not private. -/
theorem isPrivate_mangled {cls name : String} (hstem : cls.toList.dropWhile (· == '_') ≠ []) :
    isPrivate ("_" ++ String.ofList (cls.toList.dropWhile (· == '_')) ++ name) = false := by
  have hstarts : ("_" ++ String.ofList (cls.toList.dropWhile (· == '_')) ++ name).startsWith "__" = false := by
    rw [Bool.eq_false_iff, ne_eq, String.startsWith_string_iff]
    simp only [String.toList_append, String.toList_ofList]
    cases hchars : cls.toList.dropWhile (· == '_') with
    | nil => exact absurd hchars hstem
    | cons c rest =>
      have hc : (c == '_') = false := by
        have hhead := List.head?_dropWhile_not (· == '_') cls.toList
        rw [hchars] at hhead
        simpa using hhead
      intro hprefix
      have hsecond := (List.cons_prefix_cons.1 (List.cons_prefix_cons.1 hprefix).2).1
      rw [← hsecond] at hc
      cases hc
  rw [isPrivate, hstarts, Bool.false_and]

/-- A name that another one stands for in a class stands for itself. -/
theorem nameIn_nameIn (cls name : String) : nameIn cls (nameIn cls name) = nameIn cls name := by
  by_cases hprivate : (isPrivate name && !(String.ofList (cls.toList.dropWhile (· == '_'))).isEmpty) = true
  · have hstem : cls.toList.dropWhile (· == '_') ≠ [] := by
      intro hnil
      simp [hnil] at hprivate
    have hname : nameIn cls name = "_" ++ String.ofList (cls.toList.dropWhile (· == '_')) ++ name := if_pos hprivate
    rw [hname]
    unfold nameIn
    rw [isPrivate_mangled hstem]
    rfl
  · have hname : nameIn cls name = name := if_neg hprivate
    rw [hname, hname]

/-! ## Lists without repetitions -/

section

variable {α : Type} [BEq α] [LawfulBEq α] {xs : List α}

/-- What is collected was there before or is in the list. The induction is on
the list, for whatever was there before. -/
theorem mem_foldl_distinct {seen : List α} {x : α} :
    x ∈ xs.foldl (fun seen x => if seen.contains x then seen else seen ++ [x]) seen ↔ x ∈ seen ∨ x ∈ xs := by
  induction xs generalizing seen with
  | nil => simp
  | cons y xs ih =>
    rw [List.foldl_cons, ih, List.mem_cons]
    by_cases hy : seen.contains y = true
    · rw [if_pos hy]
      have hy := List.contains_iff_mem.1 hy
      constructor
      · tauto
      · rintro (h | rfl | h)
        · exact .inl h
        · exact .inl hy
        · exact .inr h
    · rw [if_neg hy, List.mem_append, List.mem_singleton]
      tauto

/-- Leaving out repetitions loses no member. -/
theorem mem_distinct {x : α} : x ∈ distinct xs ↔ x ∈ xs := by
  rw [distinct, mem_foldl_distinct]
  simp

/-- Leaving out repetitions changes nothing where there are none. -/
theorem foldl_distinct_of_nodup {seen : List α} (h : (seen ++ xs).Nodup) :
    xs.foldl (fun seen x => if seen.contains x then seen else seen ++ [x]) seen = seen ++ xs := by
  induction xs generalizing seen with
  | nil => simp
  | cons x xs ih =>
    have hx : ¬seen.contains x = true := by
      intro hmem
      exact List.disjoint_of_nodup_append h (List.contains_iff_mem.1 hmem) List.mem_cons_self
    rw [List.foldl_cons, if_neg hx, ih (by simpa using h), List.append_assoc]
    rfl

/-- The form in which it is used: the names of fields have no repetitions. -/
theorem distinct_of_nodup (h : xs.Nodup) : distinct xs = xs :=
  foldl_distinct_of_nodup (by simpa using h)

end

/-! ## Instances of records -/

/-- The class whose instances a client makes with fields of the given names. -/
def instancesOf (cls : String) (ns : List String) : Shape :=
  ⟨cls, (distinct (ns.map (nameIn cls))).filter fun name => !fixedAttributes.contains name⟩

/-- The attributes of such a class that fields can have. -/
theorem mem_instancesOf {cls name : String} {ns : List String} (hname : name ∈ ns) :
    name ∈ (instancesOf cls ns).attributes ↔ takesAttribute cls name = true := by
  rw [instancesOf, List.mem_filter, mem_distinct, takesAttribute, Bool.and_eq_true, beq_iff_eq]
  refine and_congr_left fun _ => ?_
  constructor
  · intro hmem
    obtain ⟨other, -, rfl⟩ := List.mem_map.1 hmem
    exact nameIn_nameIn cls other
  · intro hself
    exact List.mem_map.2 ⟨name, hname, hself⟩

/-- A class that takes all its fields has them as attributes, in their order. -/
theorem instancesOf_attributes {cls : String} {ns : List String} (hnodup : ns.Nodup)
    (htakes : ∀ name ∈ ns, takesAttribute cls name = true) : (instancesOf cls ns).attributes = ns := by
  have hself : ns.map (nameIn cls) = ns := by
    refine (List.map_congr_left fun name hname => ?_).trans (List.map_id ns)
    have htake := htakes name hname
    rw [takesAttribute, Bool.and_eq_true, beq_iff_eq] at htake
    exact htake.1
  rw [instancesOf, hself, distinct_of_nodup hnodup, List.filter_eq_self]
  intro name hname
  have htake := htakes name hname
  rw [takesAttribute, Bool.and_eq_true] at htake
  exact htake.2

/-- Values in the order of the attributes stay in this order. An instance has
its attributes in the order of its class, and each is looked up by its name, of
which there is one. -/
theorem instanceOf_same {cls : String} {ns : List String} (hnodup : ns.Nodup) {vs : List Value}
    (hlen : vs.length = ns.length) : instanceOf ⟨cls, ns⟩ (ns.zip vs) = .ok (.instance cls (ns.zip vs)) := by
  have hnames : (ns.zip vs).map (·.1) = ns := List.map_fst_zip (Nat.le_of_eq hlen.symm)
  have hnone : ((ns.zip vs).map (·.1) ++ ns).find? (fun name =>
      !ns.contains name || !((ns.zip vs).map (·.1)).contains name) = none := by
    rw [hnames, List.find?_eq_none]
    intro name hname
    have hmem : name ∈ ns := by simpa using hname
    simp [hmem]
  have harranged : ns.filterMap (fun name => (ns.zip vs).reverse.find? (·.1 == name)) = ns.zip vs := by
    calc ns.filterMap (fun name => (ns.zip vs).reverse.find? (·.1 == name))
        = ((ns.zip vs).map (·.1)).filterMap fun name => (ns.zip vs).reverse.find? (·.1 == name) := by rw [hnames]
      _ = ns.zip vs := ?_
    rw [List.filterMap_map]
    refine (List.filterMap_congr fun p hp => ?_).trans List.filterMap_some
    exact find?_reverse_of_nodup Prod.fst (hnames.symm ▸ hnodup) hp
  unfold instanceOf
  rw [hnone]
  dsimp only
  rw [harranged]

/-- An instance that was made has an attribute for everything that it was
given. -/
theorem mem_of_instanceOf {shape : Shape} {attributes : List (String × Value)} {v : Value}
    (h : instanceOf shape attributes = .ok v) {name : String} (hname : name ∈ attributes.map (·.1)) :
    name ∈ shape.attributes := by
  unfold instanceOf at h
  split at h
  · cases h
  · next hnone =>
    have hnot := List.find?_eq_none.1 hnone name (List.mem_append_left _ hname)
    rw [Bool.or_eq_true, not_or, Bool.not_eq_true', Bool.not_eq_false] at hnot
    exact List.contains_iff_mem.1 hnot.1

/-- An instance that was made was given everything that it has an attribute
for. -/
theorem given_of_instanceOf {shape : Shape} {attributes : List (String × Value)} {v : Value}
    (h : instanceOf shape attributes = .ok v) {name : String} (hname : name ∈ shape.attributes) :
    name ∈ attributes.map (·.1) := by
  unfold instanceOf at h
  split at h
  · cases h
  · next hnone =>
    have hnot := List.find?_eq_none.1 hnone name (List.mem_append_right _ hname)
    rw [Bool.or_eq_true, not_or, Bool.not_eq_true', Bool.not_eq_false, Bool.not_eq_true', Bool.not_eq_false] at hnot
    exact List.contains_iff_mem.1 hnot.2

/-- **When a client can make an instance**: when its class takes all the
names. -/
theorem instanceOf_instances_ok_iff {cls : String} {ns : List String} (hnodup : ns.Nodup) {vs : List Value}
    (hlen : vs.length = ns.length) {v : Value} :
    instanceOf (instancesOf cls ns) (ns.zip vs) = .ok v ↔
      (∀ name ∈ ns, takesAttribute cls name = true) ∧ v = .instance cls (ns.zip vs) := by
  have hmade : (∀ name ∈ ns, takesAttribute cls name = true) →
      instanceOf (instancesOf cls ns) (ns.zip vs) = .ok (.instance cls (ns.zip vs)) := by
    intro htakes
    have hshape : instancesOf cls ns = ⟨cls, ns⟩ :=
      congrArg (Shape.mk cls) (instancesOf_attributes hnodup htakes)
    rw [hshape]
    exact instanceOf_same hnodup hlen
  constructor
  · intro h
    have htakes : ∀ name ∈ ns, takesAttribute cls name = true := by
      intro name hname
      have hgiven : (ns.zip vs).map (·.1) = ns := List.map_fst_zip (Nat.le_of_eq hlen.symm)
      exact (mem_instancesOf hname).1 (mem_of_instanceOf h (hgiven.symm ▸ hname))
    exact ⟨htakes, Except.ok.inj (h.symm.trans (hmade htakes))⟩
  · rintro ⟨htakes, rfl⟩
    exact hmade htakes

/-! ## Below a class that is spoiled -/

/-- **Of a class without instances none is made**, unless what is missing of it
is given. -/
theorem instanceOf_withoutInstances {shape : Shape} {attributes : List (String × Value)} {v : Value}
    (hfree : missingAttribute ∉ attributes.map (·.1)) : instanceOf shape.withoutInstances attributes ≠ .ok v :=
  fun h => hfree (given_of_instanceOf h List.mem_cons_self)

/-- The class whose instances a client makes, if its variant has not spoiled
it. -/
def instancesBelow (spoiled : Bool) (cls : String) (ns : List String) : Shape :=
  if spoiled then (instancesOf cls ns).withoutInstances else instancesOf cls ns

/-- Below a class that is spoiled no instance is made of fields, and elsewhere
what the class takes. -/
theorem instanceOf_below_ok_iff {spoiled : Bool} {cls : String} {ns : List String} (hnodup : ns.Nodup)
    (hfree : missingAttribute ∉ ns) {vs : List Value} (hlen : vs.length = ns.length) {v : Value} :
    instanceOf (instancesBelow spoiled cls ns) (ns.zip vs) = .ok v ↔
      spoiled = false ∧ (∀ name ∈ ns, takesAttribute cls name = true) ∧ v = .instance cls (ns.zip vs) := by
  cases spoiled with
  | false =>
    rw [instancesBelow, if_neg Bool.false_ne_true, instanceOf_instances_ok_iff hnodup hlen]
    exact (and_iff_right rfl).symm
  | true =>
    have hgiven : (ns.zip vs).map (·.1) = ns := List.map_fst_zip (Nat.le_of_eq hlen.symm)
    refine ⟨fun h => absurd h (instanceOf_withoutInstances (hgiven.symm ▸ hfree)), ?_⟩
    rintro ⟨hspoiled, -⟩
    cases hspoiled

namespace Registry

variable {r : Registry} {names : ModuleNames} {id : TypeId} {cls : String}

/-- No type spoils the class of a record. -/
theorem spoils_type (hd : names.Distinct) (h : names.types.find? id = some cls) : r.spoils names cls = false := by
  rw [spoils, List.any_eq_false]
  intro p _
  have hnot : (names.armsOf p.1).contains cls = false := by
    rw [Bool.eq_false_iff, ne_eq, List.contains_iff_mem]
    exact hd.type_ne_arm h
  rw [hnot, Bool.false_and]
  exact Bool.false_ne_true

/-- The class of an arm is spoiled exactly by its own type. Names of arms are
those of one type and one arm, so no other definition can spoil the class. -/
theorem spoils_arm (hd : names.Distinct) {d : TypeDef} (hdef : r.definition? id = some d)
    (h : cls ∈ names.armsOf id) : r.spoils names cls = d.spoiled := by
  rw [Bool.eq_iff_iff, spoils, List.any_eq_true]
  constructor
  · rintro ⟨p, -, hp⟩
    rw [Bool.and_eq_true, List.contains_iff_mem] at hp
    rw [hd.arm_unique hp.1 h, hdef] at hp
    exact hp.2
  · intro hspoiled
    obtain ⟨group, hgroup, -⟩ := ModuleNames.mem_arms h
    refine ⟨(id, group), hgroup, ?_⟩
    rw [Bool.and_eq_true, List.contains_iff_mem, hdef]
    exact ⟨h, hspoiled⟩

end Registry

end ContractClient
