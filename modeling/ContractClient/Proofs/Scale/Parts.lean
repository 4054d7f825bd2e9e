/-
The parts of codecs and of values.

What is asked of codecs, that records have the fields of their classes, that
thirty-two bytes types are asked for thirty-two bytes, is asked of one
constructor at a time. `Everywhere` says it of a codec and of all that it is
built from, references included, so that codecs that contain themselves need no
treatment of their own. In the same way `PartOf` leads from a value that is
encoded by a codec to the values inside of it and the codecs that encode these.

The second half is about records. A class keeps its attributes in the order of
its own and a codec lists its fields in another one; that nothing gets lost
between the two is a matter of distinct names.
-/
import ContractClient.Proofs.Keys
import ContractClient.Proofs.Scale.References
import Mathlib.Logic.Relation

set_option autoImplicit false

namespace ContractClient.Codec

/-! ## Parts of codecs -/

/-- The codecs that a codec is built from; for a reference, what is declared
under its name. -/
def parts (env : Environment) : Codec → List Codec
  | .seq item | .array item _ | .option item => [item]
  | .tuple codecs => codecs
  | .result ok err => [ok, err]
  | .struct _ fields => fields.map (·.2)
  | .enum _ arms => arms.flatMap fun arm => arm.2.2.map (·.2)
  | .ref name => (env.codec? name).toList
  | _ => []

/-- Whether a condition on single constructors holds of a codec and of all that
it is built from. -/
def Everywhere (env : Environment) (P : Codec → Prop) (c : Codec) : Prop :=
  ∀ d, Relation.ReflTransGen (fun a b => b ∈ parts env a) c d → P d

namespace Everywhere

variable {env : Environment} {P : Codec → Prop} {c d : Codec}

/-- What holds everywhere in a codec holds of the codec. -/
theorem self (h : Everywhere env P c) : P c :=
  h c .refl

/-- What holds everywhere in a codec holds everywhere in each part of it. -/
theorem part (h : Everywhere env P c) (hd : d ∈ parts env c) : Everywhere env P d :=
  fun b hb => h b (.head hd hb)

/-- What holds everywhere in a record holds everywhere in its fields. This lemma
and the next two name the parts, as proofs that follow the form of a codec meet
them. -/
theorem field {shape : Shape} {fields : List (String × Codec)} (h : Everywhere env P (.struct shape fields))
    {f : String × Codec} (hf : f ∈ fields) : Everywhere env P f.2 :=
  h.part (List.mem_map.2 ⟨f, hf, rfl⟩)

/-- What holds everywhere in an enum holds everywhere in the fields of its
arms. -/
theorem armField {base : String} {arms : List Arm} (h : Everywhere env P (.enum base arms)) {arm : Arm}
    (harm : arm ∈ arms) {f : String × Codec} (hf : f ∈ arm.2.2) : Everywhere env P f.2 :=
  h.part (List.mem_flatMap.2 ⟨arm, harm, List.mem_map.2 ⟨f, hf, rfl⟩⟩)

/-- What holds everywhere in a reference holds everywhere in the codec it leads
to. -/
theorem target {name : String} (h : Everywhere env P (.ref name)) (hc : env.codec? name = some c) :
    Everywhere env P c :=
  h.part (by rw [parts, hc]; exact List.mem_singleton.2 rfl)

/-- A condition holds everywhere in a codec if it holds of codecs that contain
the codec and their own parts. -/
theorem of_closed {S : Codec → Prop} (hc : S c) (hclosed : ∀ a, S a → ∀ b ∈ parts env a, S b)
    (hP : ∀ a, S a → P a) : Everywhere env P c := by
  intro d hd
  refine hP d ?_
  induction hd with
  | refl => exact hc
  | tail _ hpart ih => exact hclosed _ ih _ hpart

end Everywhere

/-! ## Parts of values -/

/-- A codec with a value that it encodes, and a part of the codec with the part
of the value that it encodes. -/
inductive PartOf (env : Environment) : Codec × Value → Codec × Value → Prop
  | item {item : Codec} {v x : Value} {items : List Value} (hv : v.items? = some items) (hx : x ∈ items) :
      PartOf env (.seq item, v) (item, x)
  | entry {item : Codec} {length : Nat} {v x : Value} {items : List Value} (hv : v.items? = some items)
      (hx : x ∈ items) : PartOf env (.array item length, v) (item, x)
  | component {codecs : List Codec} {v : Value} {items : List Value} {p : Codec × Value}
      (hv : v.items? = some items) (hp : p ∈ codecs.zip items) : PartOf env (.tuple codecs, v) p
  | payload {inner : Codec} {v : Value} (hv : v ≠ .none) : PartOf env (.option inner, v) (inner, v)
  | ok {ok err : Codec} {x : Value} : PartOf env (.result ok err, .ok x) (ok, x)
  | err {ok err : Codec} {x : Value} : PartOf env (.result ok err, .err x) (err, x)
  | field {shape : Shape} {fields : List (String × Codec)} {cls : String}
      {attributes : List (String × Value)} {f : String × Codec} {x : Value} (hf : f ∈ fields)
      (hx : attributeOf cls attributes f.1 = .ok x) :
      PartOf env (.struct shape fields, .instance cls attributes) (f.2, x)
  | armField {base : String} {arms : List Arm} {arm : Arm} {cls : String}
      {attributes : List (String × Value)} {f : String × Codec} {x : Value} (harm : armOf? arms cls = some arm)
      (hf : f ∈ arm.2.2) (hx : attributeOf cls attributes f.1 = .ok x) :
      PartOf env (.enum base arms, .instance cls attributes) (f.2, x)
  | target {name : String} {c : Codec} {v : Value} (hc : env.codec? name = some c) :
      PartOf env (.ref name, v) (c, v)

/-- Whether all sequences inside of a value whose items take no bytes are short
enough to be read. -/
def Modest (env : Environment) (c : Codec) (v : Value) : Prop :=
  ∀ item x items, Relation.ReflTransGen (PartOf env) (c, v) (.seq item, x) → x.items? = some items →
    (∀ y ∈ items, encode env item y = .ok []) → items.length ≤ maxZeroSized

/-- What is modest as a whole is modest in every part. -/
theorem Modest.part {env : Environment} {c d : Codec} {v x : Value} (h : Modest env c v)
    (hpart : PartOf env (c, v) (d, x)) : Modest env d x :=
  fun item y items hy => h item y items (.head hpart hy)

/-- Whether no `char` inside of a value is given a surrogate on its own. -/
def Unbroken (env : Environment) (c : Codec) (v : Value) : Prop :=
  ∀ d x, Relation.ReflTransGen (PartOf env) (c, v) (d, x) → isLoneChar d x = false

/-- A value is unbroken if it is no surrogate itself and its parts are
unbroken. -/
theorem unbroken_iff {env : Environment} {c : Codec} {v : Value} :
    Unbroken env c v ↔ isLoneChar c v = false ∧ ∀ q, PartOf env (c, v) q → Unbroken env q.1 q.2 := by
  constructor
  · intro h
    exact ⟨h c v .refl, fun q hq d x hinside => h d x (.head hq hinside)⟩
  · rintro ⟨hself, hparts⟩ d x hinside
    obtain heq | ⟨q, hq, hrest⟩ := hinside.cases_head
    · cases heq
      exact hself
    · exact hparts q hq d x hrest

section

variable {env : Environment} {v : Value} {items : List Value}

/-- A sequence is unbroken if its items are. This and the lemmas that follow say
of each form of codec which parts there are to look at; each of them reads off
the only ways in which `PartOf` applies to the form. -/
theorem unbroken_seq_iff {item : Codec} (hv : v.items? = some items) :
    Unbroken env (.seq item) v ↔ ∀ x ∈ items, Unbroken env item x := by
  rw [unbroken_iff]
  constructor
  · exact fun h x hx => h.2 _ (.item hv hx)
  · refine fun h => ⟨rfl, fun q hq => ?_⟩
    cases hq with
    | item hv' hx =>
      cases hv.symm.trans hv'
      exact h _ hx

/-- An array is unbroken if its items are, whatever their number. -/
theorem unbroken_array_iff {item : Codec} {length : Nat} (hv : v.items? = some items) :
    Unbroken env (.array item length) v ↔ ∀ x ∈ items, Unbroken env item x := by
  rw [unbroken_iff]
  constructor
  · exact fun h x hx => h.2 _ (.entry hv hx)
  · refine fun h => ⟨rfl, fun q hq => ?_⟩
    cases hq with
    | entry hv' hx =>
      cases hv.symm.trans hv'
      exact h _ hx

/-- A tuple is unbroken if each item is, for the codec at its place. -/
theorem unbroken_tuple_iff {codecs : List Codec} (hv : v.items? = some items) :
    Unbroken env (.tuple codecs) v ↔ ∀ p ∈ codecs.zip items, Unbroken env p.1 p.2 := by
  rw [unbroken_iff]
  constructor
  · exact fun h p hp => h.2 p (.component hv hp)
  · refine fun h => ⟨rfl, fun q hq => ?_⟩
    cases hq with
    | component hv' hp =>
      cases hv.symm.trans hv'
      exact h _ hp

/-- Absence is no text. -/
theorem unbroken_absent {inner : Codec} : Unbroken env (.option inner) .none := by
  refine unbroken_iff.2 ⟨rfl, fun q hq => ?_⟩
  cases hq with
  | payload hv => exact absurd rfl hv

/-- What is present is unbroken if it is what the option holds. An absent value
is not a part of anything, so nothing is asked of it. -/
theorem unbroken_option_iff {inner : Codec} (hv : v ≠ .none) :
    Unbroken env (.option inner) v ↔ Unbroken env inner v := by
  rw [unbroken_iff]
  constructor
  · exact fun h => h.2 _ (.payload hv)
  · refine fun h => ⟨rfl, fun q hq => ?_⟩
    cases hq with
    | payload => exact h

/-- A success is unbroken if its value is. -/
theorem unbroken_ok_iff {ok err : Codec} : Unbroken env (.result ok err) (.ok v) ↔ Unbroken env ok v := by
  rw [unbroken_iff]
  constructor
  · exact fun h => h.2 _ .ok
  · refine fun h => ⟨rfl, fun q hq => ?_⟩
    cases hq with
    | ok => exact h

/-- A failure is unbroken if its value is, for the codec of failures. -/
theorem unbroken_err_iff {ok err : Codec} : Unbroken env (.result ok err) (.err v) ↔ Unbroken env err v := by
  rw [unbroken_iff]
  constructor
  · exact fun h => h.2 _ .err
  · refine fun h => ⟨rfl, fun q hq => ?_⟩
    cases hq with
    | err => exact h

variable {cls : String} {attributes : List (String × Value)}

/-- An instance of a record is unbroken if the attributes are that the fields
ask for. It may have others. -/
theorem unbroken_struct_iff {shape : Shape} {fields : List (String × Codec)} :
    Unbroken env (.struct shape fields) (.instance cls attributes) ↔
      ∀ f ∈ fields, ∀ x, attributeOf cls attributes f.1 = .ok x → Unbroken env f.2 x := by
  rw [unbroken_iff]
  constructor
  · exact fun h f hf x hx => h.2 _ (.field hf hx)
  · refine fun h => ⟨rfl, fun q hq => ?_⟩
    cases hq with
    | field hf hx => exact h _ hf _ hx

/-- An instance of an arm is unbroken if the attributes are that the fields of
this arm ask for. -/
theorem unbroken_enum_iff {base : String} {arms : List Arm} {arm : Arm} (harm : armOf? arms cls = some arm) :
    Unbroken env (.enum base arms) (.instance cls attributes) ↔
      ∀ f ∈ arm.2.2, ∀ x, attributeOf cls attributes f.1 = .ok x → Unbroken env f.2 x := by
  rw [unbroken_iff]
  constructor
  · exact fun h f hf x hx => h.2 _ (.armField harm hf hx)
  · refine fun h => ⟨rfl, fun q hq => ?_⟩
    cases hq with
    | armField harm' hf hx =>
      cases harm.symm.trans harm'
      exact h _ hf _ hx

/-- A reference asks what the codec asks that it leads to. -/
theorem unbroken_ref_iff {name : String} {c : Codec} (hc : env.codec? name = some c) :
    Unbroken env (.ref name) v ↔ Unbroken env c v := by
  rw [unbroken_iff]
  constructor
  · exact fun h => h.2 _ (.target hc)
  · refine fun h => ⟨rfl, fun q hq => ?_⟩
    cases hq with
    | target hc' =>
      cases hc.symm.trans hc'
      exact h

/-- A leaf has no parts. -/
theorem unbroken_leaf_iff {c : Codec} (hleaf : c.isLeaf = true) : Unbroken env c v ↔ isLoneChar c v = false := by
  rw [unbroken_iff]
  constructor
  · exact And.left
  · refine fun h => ⟨h, fun q hq => ?_⟩
    cases hq <;> cases hleaf

end

/-! ### Conditions on all values inside of a value -/

mutual

/-- Whether a condition holds of a value and of all values inside of it. -/
def throughout (p : Value → Bool) : Value → Bool
  | .list items => p (.list items) && throughoutItems p items
  | .tuple items => p (.tuple items) && throughoutItems p items
  | .ok v => p (.ok v) && throughout p v
  | .err v => p (.err v) && throughout p v
  | .instance cls attributes => p (.instance cls attributes) && throughoutAttributes p attributes
  | v => p v

/-- Whether this holds of all items. -/
def throughoutItems (p : Value → Bool) : List Value → Bool
  | [] => true
  | v :: items => throughout p v && throughoutItems p items

/-- Whether this holds of all attributes. -/
def throughoutAttributes (p : Value → Bool) : List (String × Value) → Bool
  | [] => true
  | (_, v) :: attributes => throughout p v && throughoutAttributes p attributes

end

section

variable {p : Value → Bool} {v x : Value}

/-- What holds throughout a value holds of the value. -/
theorem self_of_throughout (h : throughout p v = true) : p v = true := by
  cases v <;> simp only [throughout, Bool.and_eq_true] at h <;> first | exact h | exact h.1

/-- What holds throughout a value holds throughout its items. It follows the two
functions that define `throughout` by recursion on each other, first for the
list. -/
theorem throughout_of_item {items : List Value} (hv : v.items? = some items) (hx : x ∈ items)
    (h : throughout p v = true) : throughout p x = true := by
  have hmem : throughoutItems p items = true → throughout p x = true := by
    clear hv h
    induction items with
    | nil => cases hx
    | cons y items ih =>
      intro h
      rw [throughoutItems, Bool.and_eq_true] at h
      rcases List.mem_cons.1 hx with rfl | hx
      · exact h.1
      · exact ih hx h.2
  cases v with
  | list items' =>
    cases hv
    rw [throughout, Bool.and_eq_true] at h
    exact hmem h.2
  | tuple items' =>
    cases hv
    rw [throughout, Bool.and_eq_true] at h
    exact hmem h.2
  | _ => cases hv

/-- What holds throughout an instance holds throughout its attributes.
An attribute is looked up by name, and what is found is one of those in the
list. -/
theorem throughout_of_attribute {cls name : String} {attributes : List (String × Value)}
    (hx : attributeOf cls attributes name = .ok x) (h : throughout p (.instance cls attributes) = true) :
    throughout p x = true := by
  rw [throughout, Bool.and_eq_true] at h
  have hattributes := h.2
  clear h
  unfold attributeOf at hx
  induction attributes with
  | nil => simp at hx
  | cons a attributes ih =>
    obtain ⟨key, y⟩ := a
    rw [throughoutAttributes, Bool.and_eq_true] at hattributes
    by_cases hkey : key = name
    · rw [List.find?_cons_of_pos (by simpa using hkey)] at hx
      cases hx
      exact hattributes.1
    · rw [List.find?_cons_of_neg (by simpa using hkey)] at hx
      exact ih hx hattributes.2

/-- What holds throughout a value holds of all that is encoded on the way into
it. -/
theorem throughout_of_inside {env : Environment} {a b : Codec × Value}
    (hinside : Relation.ReflTransGen (PartOf env) a b) (h : throughout p a.2 = true) :
    throughout p b.2 = true := by
  induction hinside with
  | refl => exact h
  | tail _ hpart ih =>
    cases hpart with
    | item hv hx => exact throughout_of_item hv hx ih
    | entry hv hx => exact throughout_of_item hv hx ih
    | component hv hp => exact throughout_of_item hv (List.of_mem_zip hp).2 ih
    | payload => exact ih
    | ok =>
      rw [throughout, Bool.and_eq_true] at ih
      exact ih.2
    | err =>
      rw [throughout, Bool.and_eq_true] at ih
      exact ih.2
    | field _ hx => exact throughout_of_attribute hx ih
    | armField _ _ hx => exact throughout_of_attribute hx ih
    | target => exact ih

end

/-- Whether all lists and tuples inside of a value are short enough to be read
without bytes. -/
def narrow : Value → Bool :=
  throughout fun v => (v.items?.getD []).length ≤ maxZeroSized

/-- Whether no text inside of a value holds a surrogate. -/
def legible : Value → Bool :=
  throughout fun v => match v with
    | .brokenStr _ => false
    | _ => true

/-- Values with short lists are modest, whatever encodes them. -/
theorem modest_of_narrow {env : Environment} {c : Codec} {v : Value} (h : narrow v = true) :
    Modest env c v := by
  intro item x items hinside hitems _
  have hnarrow := self_of_throughout (throughout_of_inside hinside h)
  rw [decide_eq_true_iff, hitems, Option.getD_some] at hnarrow
  exact hnarrow

/-- Values with legible texts are unbroken, whatever encodes them. -/
theorem unbroken_of_legible {env : Environment} {c : Codec} {v : Value} (h : legible v = true) :
    Unbroken env c v := by
  intro d x hinside
  have hlegible := self_of_throughout (throughout_of_inside hinside h)
  cases x <;> simp only [Bool.false_eq_true] at hlegible <;> cases d <;> rfl

/-! ## Records -/

/-- Whether the names of fields are distinct and those of a class. -/
structure FieldsFit (shape : Shape) (fields : List (String × Codec)) : Prop where
  nodup : (fields.map (·.1)).Nodup
  same : (fields.map (·.1)).Perm shape.attributes

/-- The instance of a class with the attributes that are given in any order. -/
def arranged (shape : Shape) (attributes : List (String × Value)) : Value :=
  .instance shape.name (shape.attributes.filterMap fun name => attributes.reverse.find? (·.1 == name))

/-- If an instance is made at all, it has the attributes of its class, in the
order of the class. -/
theorem instanceOf_ok {shape : Shape} {attributes : List (String × Value)} {v : Value}
    (h : instanceOf shape attributes = .ok v) : v = arranged shape attributes := by
  unfold instanceOf at h
  split at h
  · cases h
  · cases h
    rfl

/-- The names of fields with values are the names of the fields. -/
theorem namesOf_zip {fields : List (String × Codec)} {vs : List Value} (hlen : vs.length = fields.length) :
    ((fields.map (·.1)).zip vs).map (·.1) = fields.map (·.1) :=
  List.map_fst_zip (by rw [List.length_map]; exact Nat.le_of_eq hlen.symm)

/-- **Fields that fit their class make an instance of it.** No attribute is
given that the class does not have, and none is missing. -/
theorem instanceOf_fit {shape : Shape} {fields : List (String × Codec)} (hfit : FieldsFit shape fields)
    {vs : List Value} (hlen : vs.length = fields.length) :
    instanceOf shape ((fields.map (·.1)).zip vs) = .ok (arranged shape ((fields.map (·.1)).zip vs)) := by
  have hnames := namesOf_zip hlen
  have hnone : (((fields.map (·.1)).zip vs).map (·.1) ++ shape.attributes).find? (fun name =>
      !shape.attributes.contains name || !(((fields.map (·.1)).zip vs).map (·.1)).contains name) = none := by
    rw [hnames, List.find?_eq_none]
    intro name hname
    have hboth : name ∈ shape.attributes ∧ name ∈ fields.map (·.1) := by
      rcases List.mem_append.1 hname with hfield | hattribute
      · exact ⟨hfit.same.mem_iff.1 hfield, hfield⟩
      · exact ⟨hattribute, hfit.same.mem_iff.2 hattribute⟩
    simp only [List.contains_iff_mem.2 hboth.1, List.contains_iff_mem.2 hboth.2, Bool.not_true, Bool.or_self,
      Bool.false_eq_true, not_false_eq_true]
  unfold instanceOf
  rw [hnone]
  rfl

/-- Attributes are asked for one by one, in the order of the fields and not of
the class. So a class may have its fields in another order than the codec, and a
value the same encoding nevertheless. -/
theorem attributesOf_ok_iff {cls : String} {attributes : List (String × Value)} {names : List String}
    {vs : List Value} :
    attributesOf cls attributes names = .ok vs ↔
      vs.length = names.length ∧ ∀ p ∈ names.zip vs, attributeOf cls attributes p.1 = .ok p.2 := by
  induction names generalizing vs with
  | nil =>
    cases vs with
    | nil => simp [attributesOf, pure, Except.pure]
    | cons v vs => simp [attributesOf, pure, Except.pure]
  | cons name names ih =>
    unfold attributesOf at ih ⊢
    rw [List.mapM_cons, bind_ok_iff]
    constructor
    · rintro ⟨v, hv, h⟩
      obtain ⟨ws, hws, heq⟩ := bind_ok_iff.1 h
      cases heq
      obtain ⟨hlen, hall⟩ := ih.1 hws
      exact ⟨by simp [hlen], List.forall_mem_cons.2 ⟨hv, hall⟩⟩
    · rintro ⟨hlen, hall⟩
      cases vs with
      | nil => simp at hlen
      | cons v ws =>
        obtain ⟨hv, hrest⟩ := List.forall_mem_cons.1 hall
        exact ⟨v, hv, bind_ok_iff.2 ⟨ws, ih.2 ⟨by simpa using hlen, hrest⟩, rfl⟩⟩

/-- What is asked of the attributes that fields name is asked of each with the
codec of its field. -/
theorem forall_attributes_iff {P : Codec → Value → Prop} {cls : String} {fields : List (String × Codec)}
    {attributes : List (String × Value)} {vs : List Value}
    (h : attributesOf cls attributes (fields.map (·.1)) = .ok vs) :
    (∀ p ∈ (fields.map (·.2)).zip vs, P p.1 p.2) ↔
      ∀ f ∈ fields, ∀ x, attributeOf cls attributes f.1 = .ok x → P f.2 x := by
  obtain ⟨hlen, hread⟩ := attributesOf_ok_iff.1 h
  rw [List.length_map] at hlen
  have hat : ∀ p ∈ fields.zip vs, attributeOf cls attributes p.1.1 = .ok p.2 := fun p hp =>
    hread (p.1.1, p.2) (by rw [List.zip_map_left]; exact List.mem_map.2 ⟨p, hp, rfl⟩)
  rw [List.zip_map_left]
  constructor
  · intro hall f hf x hx
    rw [← List.map_fst_zip (Nat.le_of_eq hlen.symm)] at hf
    obtain ⟨p, hp, rfl⟩ := List.mem_map.1 hf
    obtain rfl : p.2 = x := Except.ok.inj ((hat p hp).symm.trans hx)
    exact hall _ (List.mem_map.2 ⟨p, hp, rfl⟩)
  · intro hall q hq
    obtain ⟨p, hp, rfl⟩ := List.mem_map.1 hq
    exact hall p.1 (List.of_mem_zip hp).1 p.2 (hat p hp)

/-- **Nothing gets lost in an instance.** The attributes that were arranged are
read off again in the order of the fields. -/
theorem attributesOf_arranged {shape : Shape} {fields : List (String × Codec)} (hfit : FieldsFit shape fields)
    {vs : List Value} (hlen : vs.length = fields.length) {attributes : List (String × Value)} {cls : String}
    (h : arranged shape ((fields.map (·.1)).zip vs) = .instance cls attributes) :
    attributesOf cls attributes (fields.map (·.1)) = .ok vs := by
  cases h
  rw [attributesOf_ok_iff, List.length_map]
  refine ⟨hlen, ?_⟩
  rintro ⟨name, x⟩ hp
  have hkeys : (((fields.map (·.1)).zip vs).map (·.1)).Nodup := by
    rw [namesOf_zip hlen]
    exact hfit.nodup
  have hsearch : ((fields.map (·.1)).zip vs).reverse.find? (·.1 == name) = some (name, x) :=
    find?_reverse_of_nodup Prod.fst hkeys hp
  have hattribute : name ∈ shape.attributes := hfit.same.mem_iff.1 (List.of_mem_zip hp).1
  unfold attributeOf
  rw [find?_key Prod.fst (a := (name, x)) (List.mem_filterMap.2 ⟨name, hattribute, hsearch⟩)]
  intro q hq hkey
  obtain ⟨key, -, hfound⟩ := List.mem_filterMap.1 hq
  exact List.inj_on_of_nodup_map hkeys (List.mem_reverse.1 (List.mem_of_find?_eq_some hfound)) hp hkey

/-! ## Enums -/

/-- An enum that was made has the arms it was given; their indices are bytes and
distinct. The check carries the indices it has seen, and so does the
induction. -/
theorem arms_ok {base : String} {seen : List Nat} {given : List (Int × Shape × List (String × Codec))}
    {made : List Arm} (h : arms base seen given = .ok made) :
    made = given.map (fun arm => (arm.1.toNat, arm.2)) ∧ (made.map (·.1)).Nodup ∧
      ∀ arm ∈ made, arm.1 ≤ 255 ∧ arm.1 ∉ seen := by
  induction given generalizing seen made with
  | nil =>
    cases h
    simp
  | cons first given ih =>
    obtain ⟨index, shape, fields⟩ := first
    rw [arms] at h
    by_cases hrange : index < 0 ∨ 255 < index
    · rw [if_pos hrange] at h
      cases h
    rw [if_neg hrange] at h
    by_cases hseen : seen.contains index.toNat = true
    · rw [if_pos hseen] at h
      cases h
    rw [if_neg hseen] at h
    obtain ⟨rest, hrest, heq⟩ := bind_ok_iff.1 h
    cases heq
    obtain ⟨hgiven, hnodup, hall⟩ := ih hrest
    -- The rest was made with this index among those that are seen.
    have hfresh : index.toNat ∉ rest.map (·.1) := by
      intro hmem
      obtain ⟨arm, harm, heq⟩ := List.mem_map.1 hmem
      exact (hall arm harm).2 (by rw [heq]; exact List.mem_cons_self)
    refine ⟨by rw [hgiven]; rfl, List.nodup_cons.2 ⟨hfresh, hnodup⟩, ?_⟩
    refine List.forall_mem_cons.2 ⟨⟨?_, ?_⟩, fun arm harm => ?_⟩
    · show index.toNat ≤ 255
      omega
    · exact fun hmem => hseen (List.contains_iff_mem.2 hmem)
    · exact ⟨(hall arm harm).1, fun hmem => (hall arm harm).2 (List.mem_cons_of_mem _ hmem)⟩

end ContractClient.Codec
