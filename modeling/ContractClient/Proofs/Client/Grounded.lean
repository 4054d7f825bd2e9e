/-
The codecs of an imported client.

Every type of a document that can be spelled has a codec in the imported module,
and only one. All codecs that this codec is built from are of two sorts: codecs
of expressions, and codecs that were wired for declared types. Going from a
codec to a part of it is going from a type to one that it refers to, or from the
name of a declared type to its declaration, `Made.part`; and what is demanded at
one offset is demanded along inline references.

A reference occurs for a declared type only, and what it leads to was wired for
a class; so codecs of clients are grounded, and it is known what encoding and
decoding by them fail with.
-/
import ContractClient.Proofs.Client.Faithful
import ContractClient.Proofs.Registry.Unfolding
import ContractClient.Proofs.Scale.Termination

set_option autoImplicit false

namespace ContractClient

open Codec

/-- Whether a codec is the one that a type has in an imported module. -/
def CompilationUnit.HasCodec (u : CompilationUnit) (handle : String) (b : Bindings) (id : TypeId) (c : Codec) :
    Prop :=
  ∃ t, u.registry.spell (u.moduleNames handle).types id = .ok t ∧ (t.codecExpr false).eval b.codecOf = .ok c

/-- A type has one codec in a client: the class that spells it is found once,
and an expression has one value. -/
theorem CompilationUnit.HasCodec.unique {u : CompilationUnit} {handle : String} {b : Bindings} {id : TypeId}
    {c d : Codec} (hc : u.HasCodec handle b id c) (hd : u.HasCodec handle b id d) : c = d := by
  obtain ⟨t, ht, hc⟩ := hc
  obtain ⟨t', ht', hd⟩ := hd
  cases ht.symm.trans ht'
  exact Except.ok.inj (hc.symm.trans hd)

/-- The codec that is declared under a name, looked up at once. -/
def Environment.early (env : Environment) (name : String) : Codec :=
  (env.codec? name).getD default

/-- A codec that is wired is the one that is looked up early. -/
theorem Environment.early_eq {env : Environment} {name : String} {c : Codec} (hc : env.codec? name = some c) :
    env.early name = c := by
  rw [early, hc]
  rfl

/-- Whether a codec is, for a type, that of an expression that spells it, with
classes looked up at once or late, or that of its declaration. -/
inductive Made (r : Registry) (names : ModuleNames) (env : Environment) (id : TypeId) : Codec → Prop
  | early {t : TypeExpr} (h : r.Spells names.types id t) : Made r names env id (t.codec env.early)
  | late {t : TypeExpr} (h : r.Spells names.types id t) : Made r names env id (t.codec .ref)
  | declared {d : Declaration} (h : Describes r names id d) : Made r names env id d.codec

/-- Whether every name of a type has the codec of its declaration. -/
def DeclaresAll (r : Registry) (names : ModuleNames) (env : Environment) : Prop :=
  ∀ id name, names.types.find? id = some name → ∃ d, Describes r names id d ∧ env.codec? name = some d.codec

/-! ## Types that are referred to -/

/-- Whether a type of a registry refers to another one. -/
def Registry.RefersTo (r : Registry) (id child : TypeId) : Prop :=
  ∃ d, r.definition? id = some d ∧ child ∈ d.references

/-- Whether it holds the other one inline. -/
def Registry.HoldsInline (r : Registry) (id child : TypeId) : Prop :=
  ∃ d, r.definition? id = some d ∧ child ∈ d.inlineReferences

/-- What a type holds inline it refers to. -/
theorem Registry.HoldsInline.refersTo {r : Registry} {id child : TypeId} (h : r.HoldsInline id child) :
    r.RefersTo id child := by
  obtain ⟨d, hd, hchild⟩ := h
  exact ⟨d, hd, TypeDef.mem_references_of_inline hchild⟩

/-- The payload of an arm is held inline. -/
theorem TypeDef.mem_inline_of_armType {d : TypeDef} {name : String} {inner : TypeId}
    (h : d.armType? name = some inner) : inner ∈ d.inlineReferences := by
  cases d with
  | variant arms =>
    obtain ⟨arm, harm, h⟩ := Option.bind_eq_some_iff.1 h
    obtain ⟨f, hf, heq⟩ := Option.bind_eq_some_iff.1 h
    cases heq
    exact List.mem_flatMap.2 ⟨arm, List.mem_of_find?_eq_some harm, List.mem_map_of_mem (List.mem_of_head? hf)⟩
  | _ => cases h

section

variable {r : Registry} {names : ModuleNames} {env : Environment} {id : TypeId} {c d : Codec}

/-- **The parts of the codec of an expression** are codecs of expressions, for
types that the spelled type refers to, and holds inline if the parts are
demanded; only names are opened by what they stand for. -/
theorem Registry.Spells.part {named : String → Codec} {t : TypeExpr} (h : r.Spells names.types id t)
    (hd : d ∈ Codec.parts env (t.codec named)) :
    (∃ name, t = .named name ∧ names.types.find? id = some name) ∨
      ∃ child x, r.Spells names.types child x ∧ d = x.codec named ∧ r.RefersTo id child ∧
        (Demands env (t.codec named) d → r.HoldsInline id child) := by
  have hinline : ∀ child x, r.HoldsInline id child → r.Spells names.types child x → d = x.codec named →
      ∃ child x, r.Spells names.types child x ∧ d = x.codec named ∧ r.RefersTo id child ∧
        (Demands env (t.codec named) d → r.HoldsInline id child) :=
    fun child x hholds hx hd => ⟨child, x, hx, hd, hholds.refersTo, fun _ => hholds⟩
  cases h with
  | named hname => exact .inl ⟨_, rfl, hname⟩
  | @primitive _ _ kind => cases kind <;> simp only [TypeExpr.codec, Primitive.codec, Codec.parts,
    List.not_mem_nil] at hd
  | newtype | compact | bytes | fixedBytes => simp only [TypeExpr.codec, Codec.parts, List.not_mem_nil] at hd
  | @seq _ item e x he hdef _ hx =>
    simp only [TypeExpr.codec, Codec.parts, List.mem_singleton] at hd
    refine .inr ⟨item, x, hx, hd, ⟨_, Registry.definition?_of_entry he hdef, List.mem_singleton.2 rfl⟩, ?_⟩
    rw [TypeExpr.codec]
    -- The item of a sequence is not demanded.
    rintro ⟨⟨⟩⟩
  | @array _ item length e x he hdef _ hx =>
    simp only [TypeExpr.codec, Codec.parts, List.mem_singleton] at hd
    have hdefinition := Registry.definition?_of_entry he hdef
    refine .inr ⟨item, x, hx, hd, ⟨_, hdefinition, List.mem_singleton.2 rfl⟩, ?_⟩
    rw [TypeExpr.codec]
    cases length with
    | zero => rintro ⟨⟨⟩⟩
    | succ n => exact fun _ => ⟨_, hdefinition, List.mem_singleton.2 rfl⟩
  | option he hknown hinner hx =>
    simp only [TypeExpr.codec, Codec.parts, List.mem_singleton] at hd
    have hholds := TypeDef.mem_inline_of_armType hinner
    exact .inr (hinline _ _ ⟨_, Registry.definition?_of_entry he rfl, hholds⟩ hx hd)
  | result he hknown hok herr hx hy =>
    simp only [TypeExpr.codec, Codec.parts, List.mem_cons, List.not_mem_nil, or_false] at hd
    have hdefinition := Registry.definition?_of_entry he rfl
    rcases hd with hd | hd
    · exact .inr (hinline _ _ ⟨_, hdefinition, TypeDef.mem_inline_of_armType hok⟩ hx hd)
    · exact .inr (hinline _ _ ⟨_, hdefinition, TypeDef.mem_inline_of_armType herr⟩ hy hd)
  | @tuple _ items e xs he hdef hlen hxs =>
    simp only [TypeExpr.codec, TypeExpr.codecs_eq_map, Codec.parts, List.mem_map] at hd
    obtain ⟨x, hx, heq⟩ := hd
    rw [← List.map_snd_zip (Nat.le_of_eq hlen.symm)] at hx
    obtain ⟨p, hp, rfl⟩ := List.mem_map.1 hx
    have hholds : r.HoldsInline id p.1 := ⟨_, Registry.definition?_of_entry he hdef, (List.of_mem_zip hp).1⟩
    exact .inr (hinline _ _ hholds (hxs p hp) heq.symm)

/-- **The parts of a declared codec** are codecs of expressions, for types that
the declared type holds inline. A well-founded induction on what is held inline
can so be carried from the registry to codecs. -/
theorem Describes.part {decl : Declaration} (h : Describes r names id decl) (hd : d ∈ Codec.parts env decl.codec) :
    ∃ child x, r.Spells names.types child x ∧ d = x.codec .ref ∧ r.HoldsInline id child := by
  -- A field of the class is a field of the type, under its new name.
  have hfield : ∀ {given : List Field} {fields : List ClientField} {f : String × Codec},
      FieldsOf r names (given.map Field.request) fields → f ∈ fields.map ClientField.codec →
      ∃ child ∈ given.map (·.typeId), ∃ x, r.Spells names.types child x ∧ f.2 = x.codec .ref := by
    intro given fields f hof hf
    obtain ⟨field, hfield, rfl⟩ := List.mem_map.1 hf
    obtain ⟨child, hchild, hspelled⟩ := exists_of_forall₂ hof.spelled hfield
    rw [List.map_map] at hchild
    exact ⟨child, hchild, field.type, hspelled, rfl⟩
  cases h with
  | composite he hdef hname hof =>
    obtain ⟨f, hf, rfl⟩ := List.mem_map.1 hd
    obtain ⟨child, hchild, x, hx, heq⟩ := hfield hof hf
    exact ⟨child, x, hx, heq, _, Registry.definition?_of_entry he hdef, hchild⟩
  | variant he hdef hname hclasses harms =>
    obtain ⟨arm, harm, hd⟩ := List.mem_flatMap.1 hd
    obtain ⟨cls, hcls, rfl⟩ := List.mem_map.1 harm
    obtain ⟨f, hf, rfl⟩ := List.mem_map.1 hd
    obtain ⟨arm, harm, -, hof⟩ := exists_of_forall₂ harms hcls
    obtain ⟨child, hchild, x, hx, heq⟩ := hfield hof hf
    exact ⟨child, x, hx, heq, _, Registry.definition?_of_entry he hdef, List.mem_flatMap.2 ⟨arm, harm, hchild⟩⟩

/-- **What is made has parts that are made**, for types that are referred to, or
for a declared type from its name. -/
theorem Made.part (hdeclared : DeclaresAll r names env) (h : Made r names env id c) (hd : d ∈ Codec.parts env c) :
    (∃ child, Made r names env child d ∧ r.RefersTo id child ∧ (Demands env c d → r.HoldsInline id child)) ∨
      ∃ decl, Describes r names id decl ∧ d = decl.codec := by
  cases h with
  | early h =>
    obtain ⟨name, rfl, hname⟩ | ⟨child, x, hx, rfl, hrefers⟩ := h.part hd
    · obtain ⟨decl, hdecl, hc⟩ := hdeclared id name hname
      rw [TypeExpr.codec, Environment.early_eq hc] at hd
      obtain ⟨child, x, hx, rfl, hholds⟩ := hdecl.part hd
      exact .inl ⟨child, .late hx, hholds.refersTo, fun _ => hholds⟩
    · exact .inl ⟨child, .early hx, hrefers⟩
  | late h =>
    obtain ⟨name, rfl, hname⟩ | ⟨child, x, hx, rfl, hrefers⟩ := h.part hd
    · obtain ⟨decl, hdecl, hc⟩ := hdeclared id name hname
      simp only [TypeExpr.codec, Codec.parts, hc, Option.toList_some, List.mem_singleton] at hd
      exact .inr ⟨decl, hdecl, hd⟩
    · exact .inl ⟨child, .late hx, hrefers⟩
  | declared h =>
    obtain ⟨child, x, hx, rfl, hholds⟩ := h.part hd
    exact .inl ⟨child, .late hx, hholds.refersTo, fun _ => hholds⟩

/-- The codec of a declaration is that of a class. -/
theorem Declaration.isClass_codec (d : Declaration) : d.codec.isClass = true := by
  cases d <;> rfl

end

/-! ## The codecs of a unit's client -/

section

variable {m : Metadata} {u : CompilationUnit} {runtimeModule handle : String} {cm : ClientModule} {b : Bindings}

/-- The import of a unit's client wires every class, so nothing that the unit
names is missing. -/
theorem declaresAll_of_run (hresolve : m.resolve = .ok u.registry)
    (hclient : u.client runtimeModule handle = .ok cm) (hrun : cm.run = .ok b) :
    DeclaresAll u.registry (u.moduleNames handle) b.environment := by
  intro id name hname
  obtain ⟨d, hd, rfl⟩ := exists_declares hresolve hclient hname
  exact ⟨d, describes_of_declares hd, (codec?_of_declares hclient hrun hd).1⟩

/-- The codec of an expression, with the classes looked up. -/
theorem eval_early (hresolve : m.resolve = .ok u.registry) (hclient : u.client runtimeModule handle = .ok cm)
    (hrun : cm.run = .ok b) {id : TypeId} {t : TypeExpr}
    (h : u.registry.Spells (u.moduleNames handle).types id t) :
    (t.codecExpr false).eval b.codecOf = .ok (t.codec b.environment.early) := by
  refine eval_of_spells _ (fun i name hname => ?_) h
  obtain ⟨c, hc, hlookup⟩ := codecOf_of_run hresolve hclient hrun hname
  simp only [TypeExpr.codecExpr, Bool.false_eq_true, if_false, CodecExpr.eval]
  rw [hlookup, Environment.early_eq hc]

/-- **Every type that can be spelled has a codec.** -/
theorem exists_hasCodec (hresolve : m.resolve = .ok u.registry)
    (hclient : u.client runtimeModule handle = .ok cm) (hrun : cm.run = .ok b) {id : TypeId} {t : TypeExpr}
    (h : u.registry.spell (u.moduleNames handle).types id = .ok t) : ∃ c, u.HasCodec handle b id c :=
  ⟨_, t, h, eval_early hresolve hclient hrun (Registry.spells_of_spell h)⟩

/-- **All that a client's codec is built from** was made for types that can be
reached. -/
theorem everywhere_of_hasCodec (hresolve : m.resolve = .ok u.registry)
    (hclient : u.client runtimeModule handle = .ok cm) (hrun : cm.run = .ok b) {id : TypeId} {c : Codec}
    (h : u.HasCodec handle b id c) {P : Codec → Prop}
    (hP : ∀ x a, Relation.ReflTransGen u.registry.RefersTo id x →
      Made u.registry (u.moduleNames handle) b.environment x a → P a) : Everywhere b.environment P c := by
  obtain ⟨t, ht, hc⟩ := h
  have hspells := Registry.spells_of_spell ht
  have hdeclared := declaresAll_of_run hresolve hclient hrun
  rw [eval_early hresolve hclient hrun hspells] at hc
  cases hc
  refine Everywhere.of_closed
    (S := fun a => ∃ x, Relation.ReflTransGen u.registry.RefersTo id x ∧ Made u.registry _ b.environment x a)
    ⟨id, .refl, .early hspells⟩ ?_ ?_
  · rintro a ⟨x, hx, ha⟩ d hd
    obtain ⟨child, hmade, hrefers, -⟩ | ⟨decl, hdecl, rfl⟩ := ha.part hdeclared hd
    · exact ⟨child, hx.tail hrefers, hmade⟩
    · exact ⟨x, hx, .declared hdecl⟩
  · rintro a ⟨x, hx, ha⟩
    exact hP x a hx ha

end

end ContractClient
