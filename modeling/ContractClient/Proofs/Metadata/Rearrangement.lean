/-
Documents with their keys in another order.

The order of keys in an object is kept, because messages show it, but nothing
that is loaded depends on it. Two values are rearrangements of each other if
they differ in this order only, at any depth. It is put as weakly as loading
allows it: objects have as many members, and under each key they have the same,
up to rearrangement.

Every reader takes an object apart by looking up its keys, so what it gives does
not depend on their order, `OrderFree`, nor on the place at which it reads. This
is shown reader by reader. Of the types of a document all that counts is the
item that has the number asked for, wherever it stands: `members_concur`.
-/
import ContractClient.Proofs.Keys
import ContractClient.Proofs.Metadata.Inversion
import ContractClient.Proofs.Registry.Locality

set_option autoImplicit false

namespace ContractClient

namespace Json

/-! ## Rearrangements -/

/-- Two values that differ in the order of keys only. -/
inductive Rearranged : Json → Json → Prop
  | null : Rearranged .null .null
  | bool (b : Bool) : Rearranged (.bool b) (.bool b)
  | int (n : Int) : Rearranged (.int n) (.int n)
  | float (x : Binary64) : Rearranged (.float x) (.float x)
  | str (s : String) : Rearranged (.str s) (.str s)
  | arr {vs ws : List Json} (hitems : List.Forall₂ Rearranged vs ws) : Rearranged (.arr vs) (.arr ws)
  /-- Members are rearranged in their places first, to `os`, and these stand in
  any order. -/
  | obj {ms ns os : List (String × Json)} (hkeys : ms.map (·.1) = os.map (·.1))
      (hvalues : List.Forall₂ Rearranged (ms.map (·.2)) (os.map (·.2))) (hlength : os.length = ns.length)
      (hlookup : ∀ key, find? os key = find? ns key) : Rearranged (.obj ms) (.obj ns)

mutual

/-- A value is a rearrangement of itself: each object keeps the order that it
has. -/
theorem Rearranged.refl : ∀ v, Rearranged v v
  | .null => .null
  | .bool b => .bool b
  | .int n => .int n
  | .float x => .float x
  | .str s => .str s
  | .arr vs => .arr (Rearranged.items_refl vs)
  | .obj ms => .obj rfl (Rearranged.values_refl ms) rfl fun _ => rfl

/-- Items are rearrangements of themselves. -/
theorem Rearranged.items_refl : ∀ vs, List.Forall₂ Rearranged vs vs
  | [] => .nil
  | v :: vs => .cons (Rearranged.refl v) (Rearranged.items_refl vs)

/-- The values of an object, without their keys, are rearrangements of
themselves. -/
theorem Rearranged.values_refl : ∀ ms : List (String × Json), List.Forall₂ Rearranged (ms.map (·.2)) (ms.map (·.2))
  | [] => .nil
  | (_, v) :: ms => .cons (Rearranged.refl v) (Rearranged.values_refl ms)

end

section

variable {ms ns os : List (String × Json)}

/-- The members of an object in any other order, if no two of them have the same
key. Where two do, the later one is hidden by the earlier one, and exchanging
them is not a rearrangement. -/
theorem Rearranged.of_perm (hnodup : (ms.map (·.1)).Nodup) (hperm : ms.Perm ns) :
    Rearranged (.obj ms) (.obj ns) := by
  refine .obj rfl (Rearranged.values_refl ms) hperm.length_eq fun key => ?_
  have hnodup' : (ns.map (·.1)).Nodup := (hperm.map _).nodup_iff.1 hnodup
  unfold find?
  congr 1
  cases hfind : ms.find? fun m => m.1 == key with
  | none =>
    have hkey : key ∉ ns.map (·.1) := fun hmem =>
      (find?_eq_none_iff Prod.fst).1 hfind ((hperm.map _).mem_iff.2 hmem)
    exact ((find?_eq_none_iff Prod.fst).2 hkey).symm
  | some m =>
    have hkey : m.1 = key := by simpa using List.find?_some hfind
    have hmem : m ∈ ns := hperm.subset (List.mem_of_find?_eq_some hfind)
    rw [← hkey]
    exact (find?_of_nodup Prod.fst hnodup' hmem).symm

/-- Keys are looked up from the front. -/
theorem find?_cons (key k : String) (v : Json) :
    find? ((k, v) :: ms) key = if k = key then some v else find? ms key := by
  by_cases h : k = key <;> simp [find?, h]

/-- Members that are rearranged in their places have the same under each key.
The induction walks along both lists at once, since their keys agree place by
place. -/
theorem rel_find?_of_values (hkeys : ms.map (·.1) = os.map (·.1))
    (hvalues : List.Forall₂ Rearranged (ms.map (·.2)) (os.map (·.2))) (key : String) :
    Option.Rel Rearranged (find? ms key) (find? os key) := by
  induction ms generalizing os with
  | nil =>
    cases os with
    | nil => exact .none
    | cons o os => cases hkeys
  | cons m ms ih =>
    cases os with
    | nil => cases hkeys
    | cons o os =>
      obtain ⟨k, v⟩ := m
      obtain ⟨k', w⟩ := o
      obtain ⟨rfl, hrest⟩ : k = k' ∧ ms.map (·.1) = os.map (·.1) := List.cons.inj hkeys
      obtain ⟨hv, hvalues⟩ := List.forall₂_cons.1 hvalues
      rw [find?_cons, find?_cons]
      by_cases hkey : k = key
      · rw [if_pos hkey, if_pos hkey]
        exact .some hv
      · rw [if_neg hkey, if_neg hkey]
        exact ih hrest hvalues

/-- Rearranged objects have the same under each key. -/
theorem Rearranged.find? (h : Rearranged (.obj ms) (.obj ns)) (key : String) :
    Option.Rel Rearranged (find? ms key) (find? ns key) := by
  cases h with
  | obj hkeys hvalues _ hlookup =>
    rw [← hlookup]
    exact rel_find?_of_values hkeys hvalues key

/-- An object with one member has no other order. This is what definitions are:
their one key is their kind. -/
theorem Rearranged.singleton {key : String} {v w : Json} (h : Rearranged (.obj [(key, v)]) w) :
    ∃ v', w = .obj [(key, v')] ∧ Rearranged v v' := by
  cases h with
  | @obj _ ns os hkeys hvalues hlength hlookup =>
    obtain ⟨⟨key', v'⟩, rfl⟩ := List.length_eq_one_iff.1 (by simpa using (congrArg List.length hkeys).symm)
    obtain ⟨⟨k, w⟩, rfl⟩ := List.length_eq_one_iff.1 hlength.symm
    obtain rfl : key = key' := (List.cons.inj hkeys).1
    have hw := hlookup key
    rw [find?_cons, if_pos rfl, find?_cons] at hw
    by_cases hk : k = key
    · rw [if_pos hk, Option.some.injEq] at hw
      exact ⟨v', by rw [hk, hw], (List.forall₂_cons.1 hvalues).1⟩
    · rw [if_neg hk] at hw
      cases hw

end

end Json

namespace Load

open Json (Path Rearranged find?)

/-! ## Readers -/

/-- What a reader gives depends neither on places nor on the order of keys. Only
readings that succeed are compared: which defect is found first may well depend
on the order. -/
def OrderFree {α β : Type} (R : β → β → Prop) (read : Path → β → Except LoadError α) : Prop :=
  ∀ {p p' b b'}, R b b' → Concur Eq (read p b) (read p' b')

/-- Members that are rearranged. -/
abbrev SameMembers (ms ns : Members) : Prop :=
  Rearranged (.obj ms) (.obj ns)

section

variable {α : Type} {place place' : Path} {v w : Json} {ms ns : Members}

/-- What is found under a key on both sides: nothing twice, or two values that
are rearranged. -/
theorem rel_cases {x y : Option Json} (h : Option.Rel Rearranged x y) :
    x = none ∧ y = none ∨ ∃ v w, x = some v ∧ y = some w ∧ Rearranged v w := by
  cases h with
  | none => exact .inl ⟨rfl, rfl⟩
  | some hvw => exact .inr ⟨_, _, rfl, rfl, hvw⟩

/-- A missing member is read as null on both sides. -/
theorem get_of_rel {key : String} (h : Option.Rel Rearranged (find? ms key) (find? ns key)) :
    Rearranged (get ms key) (get ns key) := by
  unfold get
  rcases rel_cases h with ⟨hms, hns⟩ | ⟨v, w, hms, hns, hvw⟩
  · rw [hms, hns]
    exact .null
  · rw [hms, hns]
    exact hvw

/-- What readers see under a key of rearranged members is rearranged. -/
theorem get_rearranged (h : SameMembers ms ns) (key : String) : Rearranged (get ms key) (get ns key) :=
  get_of_rel (h.find? key)

/-! ### Values of one kind -/

/-- Objects that are rearranged are taken apart into members that are. -/
theorem asObject_concur (h : Rearranged v w) : Concur SameMembers (asObject place v) (asObject place' w) := by
  cases h with
  | obj hkeys hvalues hlength hlookup => exact .ok (.obj hkeys hvalues hlength hlookup)
  | _ => exact .error_left

/-- Lists that are rearranged have items that are, in the same order: the order
of lists is never lost. -/
theorem asArray_concur (h : Rearranged v w) :
    Concur (List.Forall₂ Rearranged) (asArray place v) (asArray place' w) := by
  cases h with
  | null => exact .ok .nil
  | arr hitems => exact .ok hitems
  | _ => exact .error_left

/-- If the reader of the items depends on no order, the reader of the list does
not either. It reads the items at other positions and places than it might on
the other side, which makes no difference to it. -/
theorem each_concur {read : Path → Json → Except LoadError α} (hread : OrderFree Rearranged read) {vs ws : List Json}
    (h : List.Forall₂ Rearranged vs ws) : Concur Eq (each place read vs) (each place' read ws) := by
  unfold each
  -- The induction is on the items, at any position.
  generalize 0 = i
  induction h generalizing i with
  | nil => exact .ok rfl
  | cons hvw _ ih =>
    rw [List.zipIdx_cons, List.zipIdx_cons, List.mapM_cons, List.mapM_cons]
    refine (hread hvw).bind fun a _ ha => (ih (i + 1)).bind fun as _ has => ?_
    exact .ok (by rw [ha, has])

/-- Texts have no order of keys. Where both sides read, the text is the same. -/
theorem asString_free : OrderFree Rearranged asString := by
  intro p p' v w h
  cases h with
  | str s => exact .ok rfl
  | _ => exact .error_left

/-- Lines of text do not depend on the order of keys. -/
theorem strings_free : OrderFree Rearranged strings :=
  fun h => (asArray_concur h).bind fun _ _ hitems => each_concur asString_free hitems

/-- Nor do byte strings. A byte string is read from a text, and texts have no
members to rearrange. -/
theorem hex_free : OrderFree Rearranged hex := by
  intro p p' v w h
  cases h with
  | str s =>
    unfold hex
    dsimp only
    cases Bytes.after0x? s with
    | none => exact .error_left
    | some digits =>
      dsimp only
      cases Bytes.ofHex? digits with
      | none => exact .error_left
      | some bytes => exact .ok rfl
  | _ => exact .error_left

/-- The length that is asked for is compared with the same bytes on both
sides. -/
theorem hexOfLength_free (length : Nat) : OrderFree Rearranged (hexOfLength length) := by
  intro p p' v w h
  refine (hex_free h).bind fun bytes _ heq => ?_
  subst heq
  exact .ite (.ok rfl) .error_left

/-- What may be null is null on both sides or on none, and is then read by a
reader that depends on no order. -/
theorem optional_free {read : Path → Json → Except LoadError α} (hread : OrderFree Rearranged read) :
    OrderFree Rearranged (optional read) := by
  have hsome : ∀ {p p' v w}, Rearranged v w → Concur Eq (some <$> read p v) (some <$> read p' w) := fun h => by
    rw [map_eq_pure_bind, map_eq_pure_bind]
    exact (hread h).bind fun a _ ha => .ok (by rw [ha])
  intro p p' v w h
  cases h with
  | null => exact .ok rfl
  | bool b => exact hsome (.bool b)
  | int n => exact hsome (.int n)
  | float x => exact hsome (.float x)
  | str s => exact hsome (.str s)
  | arr hitems => exact hsome (.arr hitems)
  | obj hkeys hvalues hlength hlookup => exact hsome (.obj hkeys hvalues hlength hlookup)

/-- The number of a type, as an item of a tuple, is the same on both sides. -/
theorem typeNumber_free : OrderFree Rearranged typeNumber := by
  intro p p' v w h
  cases h with
  | int n =>
    exact .ite (.ok rfl) .error_left
  | _ => exact .error_left

/-! ### Members of an object -/

/-- A member that has to be an object is missing on both sides, or gives members
that are rearranged. This and the next lemma ask about one key only, so that
they serve documents that agree on some keys. -/
theorem objectMember_concur {key : String} (h : Option.Rel Rearranged (find? ms key) (find? ns key)) :
    Concur SameMembers (objectMember place ms key) (objectMember place' ns key) := by
  unfold objectMember
  rcases rel_cases h with ⟨hms, hns⟩ | ⟨v, w, hms, hns, hvw⟩
  · rw [hms]
    exact .error_left
  · rw [hms, hns]
    exact asObject_concur hvw

/-- A member that has to be a list gives items that are rearranged. -/
theorem arrayMember_concur {key : String} (h : Option.Rel Rearranged (find? ms key) (find? ns key)) :
    Concur (List.Forall₂ Rearranged) (arrayMember place ms key) (arrayMember place' ns key) := by
  unfold arrayMember
  rcases rel_cases h with ⟨hms, hns⟩ | ⟨v, w, hms, hns, hvw⟩
  · rw [hms]
    exact .error_left
  · rw [hms, hns]
    exact asArray_concur hvw

/-- Members with simple values are looked up and then read alike, whatever
stands before them in the object. One lemma for each kind of them follows; they
differ in the values that are refused. -/
theorem stringMember_free (key : String) : OrderFree SameMembers (stringMember · · key) := by
  intro p p' ms ns h
  have hvalue := get_rearranged h key
  show Concur Eq (stringMember p ms key) (stringMember p' ns key)
  unfold stringMember
  generalize get ms key = v, get ns key = w at hvalue ⊢
  cases hvalue with
  | str s => exact .ite .error_left (.ok rfl)
  | _ => exact .error_left

/-- A text that may be left out is left out on both sides or on none. -/
theorem optionalStringMember_free (key : String) : OrderFree SameMembers (optionalStringMember · · key) :=
  fun h => optional_free asString_free (get_rearranged h key)

/-- Natural numbers under a key are the same on both sides. -/
theorem naturalMember_free (key : String) : OrderFree SameMembers (naturalMember · · key) := by
  intro p p' ms ns h
  have hvalue := get_rearranged h key
  show Concur Eq (naturalMember p ms key) (naturalMember p' ns key)
  unfold naturalMember
  generalize get ms key = v, get ns key = w at hvalue ⊢
  cases hvalue with
  | int n => exact .ite (.ok rfl) .error_left
  | _ => exact .error_left

/-- Flags that have to be there are read alike from objects that are
rearranged. -/
theorem booleanMember_free (key : String) : OrderFree SameMembers (booleanMember · · key) := by
  intro p p' ms ns h
  have hvalue := get_rearranged h key
  show Concur Eq (booleanMember p ms key) (booleanMember p' ns key)
  unfold booleanMember
  generalize get ms key = v, get ns key = w at hvalue ⊢
  cases hvalue with
  | bool b => exact .ok rfl
  | _ => exact .error_left

/-- Flags that are false where they are missing are read alike from objects that
are rearranged. -/
theorem flagMember_free (key : String) : OrderFree SameMembers (flagMember · · key) := by
  intro p p' ms ns h
  have hvalue := get_rearranged h key
  show Concur Eq (flagMember p ms key) (flagMember p' ns key)
  unfold flagMember
  generalize get ms key = v, get ns key = w at hvalue ⊢
  cases hvalue with
  | null => exact .ok rfl
  | bool b => exact .ok rfl
  | _ => exact .error_left

/-- Lines of text under a key are the same on both sides. -/
theorem stringsMember_free (key : String) : OrderFree SameMembers (stringsMember · · key) :=
  fun h => strings_free (get_rearranged h key)

/-! ### Types -/

/-- A field does not depend on the order of its keys. Here and below the proof
goes through the steps of the reader, and what each one gives is the same on
both sides. -/
theorem field_free : OrderFree Rearranged field := fun h => by
  refine (asObject_concur h).bind fun f g hfg => ?_
  refine (naturalMember_free "type" hfg).bind fun typeId _ htype => ?_
  refine (optionalStringMember_free "name" hfg).bind fun name _ hname => ?_
  refine (optionalStringMember_free "typeName" hfg).bind fun typeName _ htypeName => ?_
  refine (stringsMember_free "docs" hfg).bind fun docs _ hdocs => ?_
  subst htype hname htypeName hdocs
  exact .ok rfl

/-- The fields of a composite or of an arm do not depend on the order of
keys. -/
theorem fieldsMember_free : OrderFree SameMembers fieldsMember :=
  fun h => (asArray_concur (get_rearranged h "fields")).bind fun _ _ hitems => each_concur field_free hitems

/-- An arm does not depend on the order of keys. -/
theorem arm_free : OrderFree Rearranged arm := fun h => by
  refine (asObject_concur h).bind fun a b hab => ?_
  refine (stringMember_free "name" hab).bind fun name _ hname => ?_
  refine (naturalMember_free "index" hab).bind fun index _ hindex => ?_
  refine (fieldsMember_free hab).bind fun fields _ hfields => ?_
  refine (stringsMember_free "docs" hab).bind fun docs _ hdocs => ?_
  subst hname hindex hfields hdocs
  exact .ok rfl

/-- A parameter does not depend on the order of keys. Its type is looked at
before its name. -/
theorem parameter_free : OrderFree Rearranged parameter := fun h => by
  refine (asObject_concur h).bind fun a b hab => ?_
  have htype := get_rearranged hab "type"
  have hname : ∀ {place place'}, Concur Eq (stringMember place a "name") (stringMember place' b "name") :=
    stringMember_free "name" hab
  generalize get a "type" = v, get b "type" = w at htype ⊢
  cases htype with
  | null => exact hname.bind fun _ _ heq => .ok (by rw [heq])
  | int n => exact hname.bind fun _ _ heq => .ok (by rw [heq])
  | _ => exact .error_left

/-- The parameters of an entry do not depend on the order of keys. -/
theorem parametersMember_free : OrderFree SameMembers parametersMember :=
  fun h => (asArray_concur (get_rearranged h "params")).bind fun _ _ hitems => each_concur parameter_free hitems

/-- What is no object with one member is no definition. -/
theorem definition_form (place : Path) (v : Json) :
    (∃ kind body, v = .obj [(kind, body)]) ∨ definition place v = fail place .definitionForm :=
  match v with
  | .obj [(kind, body)] => .inl ⟨kind, body, rfl⟩
  | .obj [] | .obj (_ :: _ :: _) | .null | .bool _ | .int _ | .float _ | .str _ | .arr _ => .inr rfl

/-- **A definition does not depend on the order of keys.** It has no more than
one key itself, so both sides are of one kind; below the kind it is read like
everything else. -/
theorem definition_free : OrderFree Rearranged definition := by
  intro p p' v w h
  rcases definition_form p v with ⟨kind, body, rfl⟩ | hfail
  · obtain ⟨body', rfl, hbody⟩ := h.singleton
    unfold definition
    dsimp only
    -- The kind is the same on both sides, so both are told apart alike; it is the bodies
    -- that are rearranged.
    refine .ite ?primitive <| .ite ?composite <| .ite ?variant <| .ite ?sequence <| .ite ?array <| .ite ?tuple <|
      .ite ?compact <| .ite ?bits ?unknown
    case primitive =>
      cases hbody with
      | str s =>
        dsimp only
        cases Primitive.ofName? s with
        | none => exact .error_left
        | some kind => exact .ok rfl
      | _ => exact .error_left
    case composite =>
      refine (asObject_concur hbody).bind fun d e hde => ?_
      exact (fieldsMember_free hde).bind fun _ _ heq => .ok (by rw [heq])
    case variant =>
      refine (asObject_concur hbody).bind fun d e hde => ?_
      refine (asArray_concur (get_rearranged hde "variants")).bind fun _ _ hitems => ?_
      exact (each_concur arm_free hitems).bind fun _ _ heq => .ok (by rw [heq])
    case sequence =>
      refine (asObject_concur hbody).bind fun d e hde => ?_
      exact (naturalMember_free "type" hde).bind fun _ _ heq => .ok (by rw [heq])
    case array =>
      refine (asObject_concur hbody).bind fun d e hde => ?_
      refine (naturalMember_free "type" hde).bind fun _ _ hitem => ?_
      exact (naturalMember_free "len" hde).bind fun _ _ hlength => .ok (by rw [hitem, hlength])
    case tuple =>
      refine (asArray_concur hbody).bind fun _ _ hitems => ?_
      exact (each_concur typeNumber_free hitems).bind fun _ _ heq => .ok (by rw [heq])
    case compact =>
      refine (asObject_concur hbody).bind fun d e hde => ?_
      exact (naturalMember_free "type" hde).bind fun _ _ heq => .ok (by rw [heq])
    case bits => exact .error_left
    case unknown => exact .error_left
  · rw [hfail]
    exact .error_left

/-- An entry does not depend on those before it either. Those before it decide
whether it is refused, and `Concur` compares what is read where both are
read. -/
theorem entry_concur {taken taken' : List TypeId} (h : Rearranged v w) :
    Concur Eq (entry taken place v) (entry taken' place' w) := by
  refine (asObject_concur h).bind fun item item' hitem => ?_
  refine (naturalMember_free "id" hitem).bind fun id _ hid => ?_
  subst hid
  by_cases htaken : taken.contains id = true
  · rw [if_pos htaken]
    exact .error_left
  by_cases htaken' : taken'.contains id = true
  · rw [if_pos htaken']
    exact .error_right
  rw [if_neg htaken, if_neg htaken']
  refine (objectMember_concur (hitem.find? "type")).bind fun ty ty' hty => ?_
  refine (definition_free (get_rearranged hty "def")).bind fun definition _ hdefinition => ?_
  refine (parametersMember_free hty).bind fun parameters _ hparameters => ?_
  refine (stringsMember_free "path" hty).bind fun path _ hpath => ?_
  refine (stringsMember_free "docs" hty).bind fun docs _ hdocs => ?_
  subst hdefinition hparameters hpath hdocs
  exact .ok rfl

/-! ### Signatures -/

/-- A reference to a type does not depend on the order of keys: the path that is
displayed may stand before the number or after it. -/
theorem typeRef_free : OrderFree Rearranged typeRef :=
  fun h => (asObject_concur h).bind fun _ _ href => naturalMember_free "type" href

/-- Nor does an argument, whether or not it is asked if it is indexed. -/
theorem argument_free (ofEvent : Bool) : OrderFree Rearranged (argument ofEvent) := fun h => by
  refine (asObject_concur h).bind fun a b hab => ?_
  refine .ite ?indexed ?plain
  case' indexed =>
    refine (flagMember_free "indexed" hab).bind fun indexed _ hindexed => ?_
    subst hindexed
  all_goals
    refine (stringMember_free "label" hab).bind fun label _ hlabel => ?_
    refine (typeRef_free (get_rearranged hab "type")).bind fun typeId _ htype => ?_
    refine (stringsMember_free "docs" hab).bind fun docs _ hdocs => ?_
    subst hlabel htype hdocs
    exact .ok rfl

/-- Nor do the arguments of a method or of an event. -/
theorem argumentsMember_free (ofEvent : Bool) : OrderFree SameMembers (argumentsMember ofEvent) :=
  fun h => (asArray_concur (get_rearranged h "args")).bind fun _ _ hitems => each_concur (argument_free ofEvent) hitems

/-- **A method does not depend on the order of keys.** Constructors and messages
are read by the same steps but one, which is why both are shown at once. -/
theorem method_free (isConstructor : Bool) : OrderFree Rearranged (method isConstructor) := fun h => by
  refine (asObject_concur h).bind fun a b hab => ?_
  refine .ite ?constructor ?message
  case' message =>
    refine (booleanMember_free "mutates" hab).bind fun mutates _ hmutates => ?_
    subst hmutates
  all_goals
    refine (stringMember_free "label" hab).bind fun label _ hlabel => ?_
    refine (argumentsMember_free false hab).bind fun args _ hargs => ?_
    refine (optional_free typeRef_free (get_rearranged hab "returnType")).bind fun returnType _ hreturn => ?_
    refine (flagMember_free "payable" hab).bind fun payable _ hpayable => ?_
    refine (optional_free (hexOfLength_free 4) (get_rearranged hab "selector")).bind fun selector _ hselector => ?_
    refine (optionalStringMember_free "selectorName" hab).bind fun selectorName _ hname => ?_
    refine (stringsMember_free "docs" hab).bind fun docs _ hdocs => ?_
    subst hlabel hargs hreturn hpayable hselector hname hdocs
    exact .ok rfl

/-- An event does not depend on the order of keys. -/
theorem event_free : OrderFree Rearranged event := fun h => by
  refine (asObject_concur h).bind fun a b hab => ?_
  refine (stringMember_free "label" hab).bind fun label _ hlabel => ?_
  refine (argumentsMember_free true hab).bind fun args _ hargs => ?_
  refine (stringsMember_free "docs" hab).bind fun docs _ hdocs => ?_
  subst hlabel hargs hdocs
  exact .ok rfl

/-- What stands under `source` does not depend on the order of keys, and the
hash is compared with the same code on both sides. -/
theorem source_free (hash : HashFunction) : OrderFree Rearranged (source hash) := by
  intro p p' v w h
  cases h with
  | null => exact .ok rfl
  | obj hkeys hvalues hlength hlookup =>
    refine (asObject_concur (.obj hkeys hvalues hlength hlookup)).bind fun s t hst => ?_
    refine (optional_free (hexOfLength_free 32) (get_rearranged hst "hash")).bind fun declared _ hdeclared => ?_
    refine (optional_free hex_free (get_rearranged hst "wasm")).bind fun wasm _ hwasm => ?_
    subst hdeclared hwasm
    cases declared with
    | none => exact .ok rfl
    | some declared =>
      cases wasm with
      | none => exact .ok rfl
      | some wasm => exact .ite (.ok rfl) .error_left
  | _ => exact .error_left

end

/-! ## Entries -/

/-- Whether an item of `types` has a number. -/
def hasNumber (id : TypeId) : Json → Bool
  | .obj item =>
    match find? item "id" with
    | some (.int n) => n == id
    | _ => false
  | _ => false

/-- An entry has the number of its item. -/
theorem hasNumber_of_entry {taken : List TypeId} {place : Path} {v : Json} {e : Entry}
    (h : entry taken place v = .ok e) (id : TypeId) : hasNumber id v = (e.id == id) := by
  obtain ⟨item, rfl, hnumber⟩ := entry_eq_ok h
  rw [hasNumber, hnumber, Bool.eq_iff_iff, beq_iff_eq, beq_iff_eq, Int.natCast_inj]

/-- **An entry comes from the item with its number.** The first entry with a
number was read from the first item that has it; if no item has it, no entry
does. So entries can be compared by number, wherever their items stand. -/
theorem find?_of_entriesFrom {place : Path} {taken : List TypeId} {i : Nat} {vs : List Json} {es : List Entry}
    (h : entriesFrom place taken i vs = .ok es) (id : TypeId) :
    Option.Rel (fun v e => ∃ taken place, entry taken place v = .ok e) (vs.find? (hasNumber id))
      (es.find? fun e => e.id == id) := by
  induction vs generalizing taken i es with
  | nil =>
    cases h
    exact .none
  | cons v vs ih =>
    obtain ⟨e, he, h⟩ := bind_ok_iff.1 h
    obtain ⟨es, hes, heq⟩ := bind_ok_iff.1 h
    cases heq
    rw [List.find?_cons, List.find?_cons, hasNumber_of_entry he id]
    cases e.id == id with
    | true => exact .some ⟨_, _, he⟩
    | false => exact ih hes

/-- Entries with one number are the same if their items are. The two lists may
hold their items in different orders, and other items beside them; only what is
found under a number is compared, and only for the numbers that matter. -/
theorem entriesFrom_concur {P : TypeId → Prop} {place place' : Path} {taken taken' : List TypeId} {i i' : Nat}
    {vs ws : List Json}
    (h : ∀ id, P id → Option.Rel Rearranged (vs.find? (hasNumber id)) (ws.find? (hasNumber id))) :
    Concur (fun es fs => ∀ id, P id → es.find? (fun e => e.id == id) = fs.find? fun e => e.id == id)
      (entriesFrom place taken i vs) (entriesFrom place' taken' i' ws) := by
  intro es fs hes hfs id hid
  -- Each entry was read from the item with its number, so two items are read that are
  -- rearranged, or none.
  have hv := find?_of_entriesFrom hes id
  have hw := find?_of_entriesFrom hfs id
  have hvw := h id hid
  generalize vs.find? (hasNumber id) = v, ws.find? (hasNumber id) = w, es.find? (fun e => e.id == id) = e,
    fs.find? (fun e => e.id == id) = f at hv hw hvw ⊢
  cases hvw with
  | none =>
    cases hv
    cases hw
    rfl
  | some hvw =>
    cases hv with
    | some hv =>
      cases hw with
      | some hw =>
        obtain ⟨taken, place, he⟩ := hv
        obtain ⟨taken', place', hf⟩ := hw
        exact congrArg some (entry_concur hvw _ _ he hf)

/-! ## Documents -/

/-- The items of `types`. -/
def typeItems (doc : Members) : List Json :=
  match find? doc "types" with
  | some (.arr items) => items
  | _ => []

/-- The item of `types` with a number. -/
def typeItem? (doc : Members) (id : TypeId) : Option Json :=
  (typeItems doc).find? (hasNumber id)

/-- Two documents that agree up to the order of keys, except that of `types`
they need to have the same items for some numbers only, in any order. -/
structure Alike (doc doc' : Members) (P : TypeId → Prop) : Prop where
  members : ∀ key ∈ ["version", "contract", "source", "spec"],
    Option.Rel Rearranged (find? doc key) (find? doc' key)
  types : ∀ id, P id → Option.Rel Rearranged (typeItem? doc id) (typeItem? doc' id)

/-- The items that are read are those under `types`, or none where it is
null. -/
theorem arrayMember_types {place : Path} {doc : Members} {items : List Json}
    (h : arrayMember place doc "types" = .ok items) : items = typeItems doc := by
  unfold arrayMember at h
  unfold typeItems
  cases hfind : find? doc "types" with
  | none =>
    rw [hfind] at h
    cases h
  | some v =>
    rw [hfind] at h
    cases v with
    | null =>
      cases h
      rfl
    | arr items' =>
      cases h
      rfl
    | _ => cases h

/-- **What is loaded of two documents that are alike** differs in no more than
the entries that they may have of their own. -/
theorem members_concur {hash : HashFunction} {strict : Bool} {doc doc' : Members} {P : TypeId → Prop}
    (h : Alike doc doc' P) :
    Concur (fun m m' => m.AgreesOn m' P) (members hash strict doc) (members hash strict doc') := by
  have htypes : Concur (fun vs ws => ∀ id, P id →
      Option.Rel Rearranged (vs.find? (hasNumber id)) (ws.find? (hasNumber id)))
        (arrayMember [] doc "types") (arrayMember [] doc' "types") := by
    intro vs ws hvs hws id hid
    rw [arrayMember_types hvs, arrayMember_types hws]
    exact h.types id hid
  -- That the version and the layout pass says nothing about the result, so nothing is
  -- asked of these steps.
  have hspec := h.members "spec" (by simp)
  have hcontract := h.members "contract" (by simp)
  have hsource := get_of_rel (h.members "source" (by simp))
  unfold members
  refine Concur.bind (R := fun _ _ => True) (fun _ _ _ _ => trivial) fun _ _ _ => ?_
  refine .ite ?strict ?lax
  case' strict => refine Concur.bind (R := fun _ _ => True) (fun _ _ _ _ => trivial) fun _ _ _ => ?_
  all_goals
    refine htypes.bind fun vs ws hvw => ?_
    refine (entriesFrom_concur hvw).bind fun types types' hentries => ?_
    refine (objectMember_concur hspec).bind fun spec spec' hspec => ?_
    refine (arrayMember_concur (hspec.find? "constructors")).bind fun _ _ hitems => ?_
    refine (each_concur (method_free true) hitems).bind fun constructors _ hconstructors => ?_
    refine (arrayMember_concur (hspec.find? "messages")).bind fun _ _ hitems => ?_
    refine (each_concur (method_free false) hitems).bind fun messages _ hmessages => ?_
    refine (asArray_concur (get_rearranged hspec "events")).bind fun _ _ hitems => ?_
    refine (each_concur event_free hitems).bind fun events _ hevents => ?_
    refine (objectMember_concur hcontract).bind fun contract contract' hcontract => ?_
    refine (stringMember_free "name" hcontract).bind fun name _ hname => ?_
    refine (optionalStringMember_free "version" hcontract).bind fun version _ hversion => ?_
    refine (source_free hash hsource).bind fun source _ hsource => ?_
    subst hconstructors hmessages hevents hname hversion hsource
    exact .ok ⟨rfl, hentries⟩

end Load

end ContractClient
