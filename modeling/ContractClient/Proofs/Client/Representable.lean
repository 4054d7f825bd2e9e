/-
Which data a client can hold.

Two things can be wrong with a datum, and everything else is seen to when names
are handed out. An option of options has one absence for two, so an absence that
is the payload of an option is lost. And there may be no instance of a class,
because it has no attribute of the name of a field, where the name is private to
the class or the attribute is fixed, or because the class stands below one that
offers an arm under a name for instances. Both are about the datum and not about
its type: a type of which some data cannot be held may have others that can.
-/
import ContractClient.Proofs.Client.Grounded
import ContractClient.Proofs.Registry.Data
import ContractClient.Proofs.Scale.Canonical

set_option autoImplicit false

namespace ContractClient

open Codec Relation

/-! ## What is asked of data -/

/-- The class of the instance that a client makes of a datum, with the names of
its fields. -/
def ModuleNames.classFor? (names : ModuleNames) (id : TypeId) : TypeDef → Datum → Option (String × List String)
  | .composite fields, .group _ => (names.types.find? id).map fun cls => (cls, fieldNames (fields.map (·.name)))
  | .variant arms, .arm index _ =>
    (((names.armsOf id).zip arms).find? fun p => p.2.index == index).map
      fun p => (p.1, fieldNames (p.2.fields.map (·.name)))
  | _, _ => none

namespace Registry

/-- Whether there are instances of the class of a datum, if it has one:
the class has all fields as attributes, and no arm of the type is offered under
a name that Python looks up for instances. -/
def HasInstances (r : Registry) (names : ModuleNames) (id : TypeId) (x : Datum) : Prop :=
  ∀ d cls ns, r.definition? id = some d → names.classFor? id d x = some (cls, ns) →
    d.spoiled = false ∧ ∀ name ∈ ns, takesAttribute cls name = true

/-- Whether a type is an option of options. -/
def NestsOption (r : Registry) (id : TypeId) : Prop :=
  ∃ e inner e', r.entry? id = some e ∧ r.wellKnown? e = some .option ∧
    e.definition.armType? "Some" = some inner ∧ r.entry? inner = some e' ∧ r.wellKnown? e' = some .option

/-- Whether a datum of a type is an absence that is present in an option. -/
def HidesAbsence (r : Registry) (id : TypeId) (x : Datum) : Prop :=
  r.NestsOption id ∧ x = .arm 1 [.arm 0 []]

/-- Whether nothing is wrong with a datum of a type, nor with anything inside of
it. -/
def Representable (r : Registry) (names : ModuleNames) (id : TypeId) (x : Datum) : Prop :=
  ∀ p, ReflTransGen r.HasPart (id, x) p → ¬ r.HidesAbsence p.1 p.2 ∧ r.HasInstances names p.1 p.2

variable {r : Registry} {names : ModuleNames} {id : TypeId} {x : Datum}

/-- Data that is representable hides no absence itself, and its class has
instances. -/
theorem Representable.self (h : r.Representable names id x) : ¬ r.HidesAbsence id x ∧ r.HasInstances names id x :=
  h (id, x) .refl

/-- The parts of data that is representable are representable. With this
the lemma before is all that an induction needs. -/
theorem Representable.part (h : r.Representable names id x) {q : TypeId × Datum} (hq : r.HasPart (id, x) q) :
    r.Representable names q.1 q.2 :=
  fun p hp => h p (.head hq hp)

end Registry

/-- The classes that a client has for a type, each with the names of its
fields. -/
def ModuleNames.classFields (names : ModuleNames) (id : TypeId) : TypeDef → List (String × List String)
  | .composite fields => (names.types.find? id).toList.map fun cls => (cls, fieldNames (fields.map (·.name)))
  | .variant arms => ((names.armsOf id).zip arms).map fun p => (p.1, fieldNames (p.2.fields.map (·.name)))
  | _ => []

/-- The class for a datum is one of the classes of its type. -/
theorem ModuleNames.classFor?_mem {names : ModuleNames} {id : TypeId} {d : TypeDef} {x : Datum}
    {p : String × List String} (h : names.classFor? id d x = some p) : p ∈ names.classFields id d := by
  unfold classFor? at h
  split at h
  · exact List.mem_map.2 ((Option.map_eq_some_iff.1 h).imp fun _ hcls => hcls.imp_left Option.mem_toList.2)
  · exact List.mem_map.2 ((Option.map_eq_some_iff.1 h).imp fun _ hp => hp.imp_left List.mem_of_find?_eq_some)
  · cases h

/-- **Where nothing is wrong with the types**, nothing is wrong with any
datum. -/
theorem Registry.representable_of_types {r : Registry} {names : ModuleNames} (hnests : ∀ id, ¬ r.NestsOption id)
    (hspoiled : ∀ e ∈ r.entries, e.definition.spoiled = false)
    (htakes : ∀ e ∈ r.entries, ∀ p ∈ names.classFields e.id e.definition, ∀ name ∈ p.2,
      takesAttribute p.1 name = true) (id : TypeId) (x : Datum) : r.Representable names id x := by
  rintro ⟨child, y⟩ -
  refine ⟨fun hhides => hnests child hhides.1, ?_⟩
  intro d cls ns hd hclass
  obtain ⟨e, he, rfl⟩ := Option.map_eq_some_iff.1 hd
  have hid : e.id = child := by simpa using List.find?_some he
  subst hid
  have hmem := List.mem_of_find?_eq_some he
  exact ⟨hspoiled e hmem, htakes e hmem (cls, ns) (ModuleNames.classFor?_mem hclass)⟩

/-! ## Names in expressions -/

/-- Whether the names of classes stand for their codecs, looked up at once or on
first use. -/
def Denotes (r : Registry) (names : ModuleNames) (env : Environment) (named : String → Codec) : Prop :=
  ∀ id name, names.types.find? id = some name → ∃ d, Describes r names id d ∧
    (named name = d.codec ∨ named name = .ref name ∧ env.codec? name = some d.codec)

section

variable {r : Registry} {names : ModuleNames} {env : Environment} {named : String → Codec} {id : TypeId}

/-- Names denote their codecs where they are looked up late. -/
theorem denotes_late (hdeclared : DeclaresAll r names env) : Denotes r names env .ref := by
  intro id name hname
  obtain ⟨d, hd, hc⟩ := hdeclared id name hname
  exact ⟨d, hd, .inr ⟨rfl, hc⟩⟩

/-- Names denote their codecs where they are looked up early too, once all are
wired. -/
theorem denotes_early (hdeclared : DeclaresAll r names env) : Denotes r names env env.early := by
  intro id name hname
  obtain ⟨d, hd, hc⟩ := hdeclared id name hname
  exact ⟨d, hd, .inl (Environment.early_eq hc)⟩

/-- A class is no option, so nothing below it hides an absence. -/
theorem not_optionBehind_of_isClass {c : Codec} (h : c.isClass = true) : ¬ OptionBehind env c := by
  rintro ⟨⟩ <;> cases h

/-- A name stands for no option. -/
theorem Denotes.not_optionBehind (h : Denotes r names env named) {name : String}
    (hname : names.types.find? id = some name) : ¬ OptionBehind env (named name) := by
  obtain ⟨d, -, hd | ⟨hd, hc⟩⟩ := h id name hname
  · rw [hd]
    exact not_optionBehind_of_isClass d.isClass_codec
  · rw [hd]
    rintro (_ | ⟨hc', hoption⟩)
    cases hc.symm.trans hc'
    exact not_optionBehind_of_isClass d.isClass_codec hoption

/-- The codec of an expression is an option only if the type is known as one. -/
theorem Registry.Spells.option_known (hnamed : Denotes r names env named) {t : TypeExpr}
    (h : r.Spells names.types id t) (hoption : OptionBehind env (t.codec named)) :
    ∃ e inner, r.entry? id = some e ∧ r.wellKnown? e = some .option ∧ t.codec named = .option inner := by
  cases h with
  | named hname =>
    rw [TypeExpr.codec] at hoption
    exact absurd hoption (hnamed.not_optionBehind hname)
  | option he hknown _ _ => exact ⟨_, _, he, hknown, by rw [TypeExpr.codec]⟩
  | @primitive _ _ kind =>
    rw [TypeExpr.codec] at hoption
    cases kind <;> cases hoption
  | _ =>
    rw [TypeExpr.codec] at hoption
    cases hoption

end

/-! ## Records -/

section

variable {r : Registry} {names : ModuleNames}

/-- A class that takes its fields fits them. -/
theorem fieldsFit_of_takes {given : List Field} {record : RecordClass}
    (h : FieldsOf r names (given.map Field.request) record.fields)
    (htakes : ∀ name ∈ fieldNames (given.map (·.name)), takesAttribute record.name name = true) :
    FieldsFit record.instances (record.fields.map ClientField.codec) := by
  have hnames : (record.fields.map ClientField.codec).map (·.1) = fieldNames (given.map (·.name)) := by
    have hnamed := h.named
    rw [List.map_map] at hnamed ⊢
    exact hnamed
  have hnodup : (fieldNames (given.map (·.name))).Nodup := distinctNames_nodup _ _
  constructor
  · rw [hnames]
    exact hnodup
  · rw [hnames, (fields_sameForm h).1, instancesOf_attributes hnodup htakes]

/-- The arm with an index and the class for it are at the same place, and codecs
find this class. -/
theorem find?_armClass {arms : List Arm} {classes : List ArmClass}
    (harms : List.Forall₂ (fun arm cls => cls.index = arm.index ∧
      FieldsOf r names (arm.fields.map Field.request) cls.record.fields) arms classes) {n : Nat} {arm : Arm}
    (h : arms.find? (fun arm => arm.index == n) = some arm) :
    ∃ cls ∈ classes, ((classes.map (·.record.name)).zip arms).find? (fun p => p.2.index == n) =
        some (cls.record.name, arm) ∧ ((classes.map ArmClass.codec).find? fun a => a.1 == n) = some cls.codec ∧
      FieldsOf r names (arm.fields.map Field.request) cls.record.fields := by
  induction harms with
  | nil => cases h
  | @cons first cls arms classes hhead _ ih =>
    rw [List.map_cons, List.map_cons, List.zip_cons_cons]
    by_cases hfirst : first.index = n
    · rw [List.find?_cons_of_pos (by simpa using hfirst)] at h
      cases h
      refine ⟨cls, List.mem_cons_self, List.find?_cons_of_pos (by simpa using hfirst), ?_, hhead.2⟩
      exact List.find?_cons_of_pos (by simpa [ArmClass.codec, hhead.1] using hfirst)
    · rw [List.find?_cons_of_neg (by simpa using hfirst)] at h
      obtain ⟨cls', hcls', hzip, hfind, hfields⟩ := ih h
      refine ⟨cls', List.mem_cons_of_mem _ hcls', ?_, ?_, hfields⟩
      · rwa [List.find?_cons_of_neg (by simpa using hfirst)]
      · rwa [List.find?_cons_of_neg (by simpa [ArmClass.codec, hhead.1] using hfirst)]

end

/-! ## Absences -/

namespace Registry

variable {r : Registry} {id : TypeId} {e : Entry} {x : Datum}

/-- The byte of absence stands for absence alone. -/
theorem absence_of_scale (he : r.entry? id = some e) (hknown : r.wellKnown? e = some .option)
    (hx : r.scale? id x = some [0]) : x = .arm 0 [] := by
  obtain ⟨arms, hdef, harms⟩ := wellKnown?_option hknown
  obtain ⟨none, hnone, -, -, hnothing⟩ := known_arm harms "None" 0 0 (by simp) (by simp) (by simp)
  obtain ⟨some, hsome, -, -, -⟩ := known_arm harms "Some" 1 1 (by simp) (by simp) (by simp)
  obtain ⟨xs, body, ⟨rfl, hxs, -⟩ | ⟨-, -, hbs⟩⟩ :=
    scale?_two (index_of_hasArms harms) hnone hsome (definition?_of_entry he hdef) hx
  · rw [List.eq_nil_of_length_eq_zero hnothing] at hxs
    rw [(scaleEach?_nil_iff.1 hxs).1]
  · cases hbs

end Registry

end ContractClient
