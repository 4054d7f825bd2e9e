/-
What a value was that could be read.

Each reader of the loader succeeds on values of one form only, and the members
that it asks for are there. These facts are stated one reader at a time; the
readers of arguments and of methods take two ways, and what both have in common
is kept in a structure.
-/
import ContractClient.Metadata.Load
import ContractClient.Proofs.Outcome

set_option autoImplicit false

namespace ContractClient

open Json

/-- The bytes that a value denotes in hexadecimal after `0x`. -/
def Json.hexBytes? : Json → Option Bytes
  | .str s => (Bytes.after0x? s).bind Bytes.ofHex?
  | _ => none

namespace Load

variable {place : Path} {v : Json} {members : Members} {key : String}

/-! ## Members and items -/

/-- What is read as something else than null is there. Readers take a missing
member for null, and most of them refuse both. -/
theorem find?_eq_some_of_get (h : get members key = v) (hv : v ≠ .null) : find? members key = some v := by
  unfold get at h
  cases hfound : find? members key with
  | none =>
    rw [hfound] at h
    exact absurd h.symm hv
  | some w =>
    rw [hfound] at h
    exact congrArg some h

/-- What is there is what is read. -/
theorem get_eq_of_find? (h : find? members key = some v) : get members key = v := by
  rw [get, h]
  rfl

/-- What was read as an object is one. -/
theorem asObject_eq_ok (h : asObject place v = .ok members) : v = .obj members := by
  cases v <;> cases h
  rfl

/-- A natural number that was read stands under its key as an integer. Numbers
with a point are refused, whatever stands behind it. -/
theorem find?_of_naturalMember {n : Nat}
    (h : naturalMember place members key = .ok n) : find? members key = some (.int n) := by
  unfold naturalMember get at h
  cases hfind : find? members key with
  | none =>
    rw [hfind] at h
    cases h
  | some v =>
    rw [hfind] at h
    cases v with
    | int k =>
      dsimp only [Option.getD_some] at h
      split_ifs at h with hk
      · cases h
        rw [Int.toNat_of_nonneg hk]
      · cases h
    | _ => cases h

/-- A text that was read stands under its key, and is not empty. -/
theorem find?_of_stringMember {s : String} (h : stringMember place members key = .ok s) :
    find? members key = some (.str s) ∧ s ≠ "" := by
  unfold stringMember at h
  split at h
  · cases h
  next s' hs' =>
    split at h
    · cases h
    next hne =>
      cases h
      exact ⟨find?_eq_some_of_get hs' nofun, by simpa using hne⟩
  · cases h

/-- A flag that has to be there stands under its key. -/
theorem find?_of_booleanMember {b : Bool} (h : booleanMember place members key = .ok b) :
    find? members key = some (.bool b) := by
  unfold booleanMember at h
  split at h
  · cases h
  next hb =>
    cases h
    exact find?_eq_some_of_get hb nofun
  · cases h

/-- A flag that may be left out is null or a truth value, where something stands
under the key. -/
theorem flagMember_eq_ok {b : Bool} (h : flagMember place members key = .ok b)
    (hv : find? members key = some v) : v = .null ∨ v = .bool b := by
  rw [flagMember, get_eq_of_find? hv] at h
  cases v <;> cases h
  · exact .inl rfl
  · exact .inr rfl

/-- What may be null was null, or was read. -/
theorem optional_eq_ok {α : Type} {read : Path → Json → Except LoadError α} {a : Option α} {v : Json}
    (h : optional read place v = .ok a) : v = .null ∨ ∃ b, a = some b ∧ read place v = .ok b := by
  unfold optional at h
  split at h
  · exact .inl rfl
  · obtain ⟨b, hb, hab⟩ := map_ok_iff.1 h
    exact .inr ⟨b, hab.symm, hb⟩

/-- What was read as a text is one. -/
theorem asString_eq_ok {s : String} (h : asString place v = .ok s) : v = .str s := by
  cases v <;> cases h
  rfl

/-- A text that may be left out is null or a text, where something stands under
the key. -/
theorem optionalStringMember_eq_ok {s : Option String} (h : optionalStringMember place members key = .ok s)
    (hv : find? members key = some v) : v = .null ∨ ∃ text, s = some text ∧ v = .str text := by
  rw [optionalStringMember, get_eq_of_find? hv] at h
  rcases optional_eq_ok h with rfl | ⟨text, rfl, htext⟩
  · exact .inl rfl
  · exact .inr ⟨text, rfl, asString_eq_ok htext⟩

/-- What was read as a list is one, or null. -/
theorem asArray_eq_ok {items : List Json} (h : asArray place v = .ok items) :
    v = .null ∨ v = .arr items := by
  cases v <;> cases h
  · exact .inl rfl
  · exact .inr rfl

/-- Where a list was read, each item of it was, at some place. -/
theorem each_eq_ok {α : Type} {read : Path → Json → Except LoadError α} {items : List Json} {as : List α}
    (h : each place read items = .ok as) : ∀ item ∈ items, ∃ place a, read place item = .ok a := by
  intro item hitem
  obtain ⟨i, hi, rfl⟩ := List.mem_iff_getElem.1 hitem
  have hmem : (items[i], i) ∈ items.zipIdx := List.mk_mem_zipIdx_iff_getElem?.2 (by simp [hi])
  have hread : List.Forall₂ (fun a p => read (itemOf place p.2) p.1 = .ok a) as items.zipIdx :=
    List.Forall₂.flip (mapM_ok_iff.1 h)
  obtain ⟨a, -, ha⟩ := exists_of_forall₂ hread hmem
  exact ⟨_, a, ha⟩

/-- A member that was read as an object is there as one; null is not enough
here. -/
theorem find?_of_objectMember {inner : Members}
    (h : objectMember place members key = .ok inner) : find? members key = some (.obj inner) := by
  unfold objectMember at h
  split at h
  next w hw => exact hw.trans (congrArg some (asObject_eq_ok h))
  · cases h

/-- A member that was read as a list is there, but may be null. -/
theorem find?_of_arrayMember {items : List Json}
    (h : arrayMember place members key = .ok items) :
    ∃ v, find? members key = some v ∧ asArray (memberOf place key) v = .ok items := by
  unfold arrayMember at h
  split at h
  next w hw => exact ⟨w, hw, h⟩
  · cases h

/-! ## Types -/

/-- What was read as a parameter has null or a number for its type. The number
may be below zero: nothing is asked of it but that it is an integer. -/
theorem parameter_eq_ok {p : TypeParameter} (h : parameter place v = .ok p) : ∃ members, v = .obj members ∧
    (∃ s, find? members "name" = some (.str s)) ∧
      ∀ w, find? members "type" = some w → w = .null ∨ ∃ n, w = .int n := by
  obtain ⟨members, hmembers, h⟩ := bind_ok_iff.1 h
  refine ⟨members, asObject_eq_ok hmembers, ?_⟩
  dsimp only at h
  split at h
  next hnull =>
    obtain ⟨_, -, h⟩ := bind_ok_iff.1 h
    obtain ⟨s, hname, -⟩ := bind_ok_iff.1 h
    exact ⟨⟨s, (find?_of_stringMember hname).1⟩, fun w hw => .inl ((get_eq_of_find? hw).symm.trans hnull)⟩
  next n hn =>
    obtain ⟨_, -, h⟩ := bind_ok_iff.1 h
    obtain ⟨s, hname, -⟩ := bind_ok_iff.1 h
    exact ⟨⟨s, (find?_of_stringMember hname).1⟩, fun w hw => .inr ⟨n, (get_eq_of_find? hw).symm.trans hn⟩⟩
  · cases h

/-- A definition is there, since null is none. -/
theorem find?_of_definition {d : TypeDef} (h : definition place (get members "def") = .ok d) :
    find? members "def" = some (get members "def") := by
  refine find?_eq_some_of_get rfl fun hnull => ?_
  rw [hnull] at h
  cases h

/-- An entry was read from an object that has its number. Nothing else of the
object is said here, as this is what later entries are compared by. -/
theorem entry_eq_ok {taken : List TypeId} {e : Entry} (h : entry taken place v = .ok e) :
    ∃ item, v = .obj item ∧ find? item "id" = some (.int e.id) := by
  obtain ⟨item, hitem, h⟩ := bind_ok_iff.1 h
  obtain ⟨number, hnumber, h⟩ := bind_ok_iff.1 h
  by_cases htaken : taken.contains number = true
  · rw [if_pos htaken] at h
    cases h
  rw [if_neg htaken] at h
  obtain ⟨ty, -, h⟩ := bind_ok_iff.1 h
  obtain ⟨definition, -, h⟩ := bind_ok_iff.1 h
  obtain ⟨parameters, -, h⟩ := bind_ok_iff.1 h
  obtain ⟨path, -, h⟩ := bind_ok_iff.1 h
  obtain ⟨docs, -, heq⟩ := bind_ok_iff.1 h
  cases heq
  exact ⟨item, asObject_eq_ok hitem, find?_of_naturalMember hnumber⟩

/-- Where a table was read, each item of it was, at some place and after some
others. -/
theorem entriesFrom_eq_ok {taken : List TypeId} {i : Nat} {items : List Json} {es : List Entry}
    (h : entriesFrom place taken i items = .ok es) :
    ∀ item ∈ items, ∃ taken place e, entry taken place item = .ok e := by
  induction items generalizing taken i es with
  | nil => exact nofun
  | cons v rest ih =>
    obtain ⟨e, he, h⟩ := bind_ok_iff.1 h
    obtain ⟨later, hlater, -⟩ := bind_ok_iff.1 h
    exact List.forall_mem_cons.2 ⟨⟨taken, _, e, he⟩, ih hlater⟩

/-! ## Signatures -/

/-- Bytes that were read are those of the text, by the reading of digits that
the schema is compared with. -/
theorem hexBytes?_of_hex {bs : Bytes} (h : hex place v = .ok bs) : v.hexBytes? = some bs := by
  unfold hex at h
  split at h
  · split at h
    next digits hdigits =>
      split at h
      next bytes hbytes =>
        cases h
        rw [Json.hexBytes?, hdigits, Option.bind_some, hbytes]
      · cases h
    · cases h
  · cases h

/-- What may be null denotes bytes exactly if some were read. -/
theorem hexBytes?_of_optional {read : Path → Json → Except LoadError Bytes} {a : Option Bytes}
    (hread : ∀ bs, read place v = .ok bs → hex place v = .ok bs) (h : optional read place v = .ok a) :
    v.hexBytes? = a := by
  unfold optional at h
  split at h
  · cases h
    rfl
  · obtain ⟨bs, hbs, rfl⟩ := map_ok_iff.1 h
    exact hexBytes?_of_hex (hread bs hbs)

/-- Bytes of one length are bytes, and they have this length. -/
theorem hexOfLength_eq_ok {length : Nat} {bs : Bytes} (h : hexOfLength length place v = .ok bs) :
    hex place v = .ok bs ∧ bs.length = length := by
  obtain ⟨bytes, hbytes, h⟩ := bind_ok_iff.1 h
  split at h
  next hlength =>
    cases h
    exact ⟨hbytes, hlength⟩
  · cases h

/-- What reading an argument finds out about its members. -/
structure ArgumentRead (ofEvent : Bool) (place : Path) (members : Members) : Prop where
  label : ∃ s, stringMember place members "label" = .ok s
  typeRef : ∃ id, typeRef (memberOf place "type") (get members "type") = .ok id
  docs : ∃ lines, stringsMember place members "docs" = .ok lines
  indexed : ofEvent = true → ∃ b, flagMember place members "indexed" = .ok b

/-- What was read as an argument is an object, and the readers of its members
have succeeded. -/
theorem argument_eq_ok {ofEvent : Bool} {a : Argument} (h : argument ofEvent place v = .ok a) :
    ∃ members, v = .obj members ∧ ArgumentRead ofEvent place members := by
  obtain ⟨members, hmembers, h⟩ := bind_ok_iff.1 h
  refine ⟨members, asObject_eq_ok hmembers, ?_⟩
  cases ofEvent
  case' true =>
    obtain ⟨b, hb, h⟩ := bind_ok_iff.1 h
    have hindexed : true = true → ∃ b, flagMember place members "indexed" = .ok b := fun _ => ⟨b, hb⟩
  case' false =>
    obtain ⟨_, -, h⟩ := bind_ok_iff.1 h
    have hindexed : false = true → ∃ b, flagMember place members "indexed" = .ok b := nofun
  all_goals
    obtain ⟨s, hlabel, h⟩ := bind_ok_iff.1 h
    obtain ⟨id, htype, h⟩ := bind_ok_iff.1 h
    obtain ⟨lines, hdocs, -⟩ := bind_ok_iff.1 h
    exact ⟨⟨s, hlabel⟩, ⟨id, htype⟩, ⟨lines, hdocs⟩, hindexed⟩

/-- What reading a constructor or a message finds out about its members. -/
structure MethodRead (isConstructor : Bool) (place : Path) (members : Members) : Prop where
  label : ∃ s, stringMember place members "label" = .ok s
  args : ∃ args, argumentsMember false place members = .ok args
  returnType : ∃ id, optional typeRef (memberOf place "returnType") (get members "returnType") = .ok id
  payable : ∃ b, flagMember place members "payable" = .ok b
  selector : ∃ bs, optional (hexOfLength 4) (memberOf place "selector") (get members "selector") = .ok bs
  selectorName : ∃ s, optionalStringMember place members "selectorName" = .ok s
  docs : ∃ lines, stringsMember place members "docs" = .ok lines
  mutates : isConstructor = false → ∃ b, find? members "mutates" = some (.bool b)

/-- What was read as a method is an object, and the readers of its members have
succeeded. The arguments need not be there, as for their reader a list that is
missing is an empty one. -/
theorem method_eq_ok {isConstructor : Bool} {m : Method} (h : method isConstructor place v = .ok m) :
    ∃ members, v = .obj members ∧ MethodRead isConstructor place members := by
  obtain ⟨members, hmembers, h⟩ := bind_ok_iff.1 h
  refine ⟨members, asObject_eq_ok hmembers, ?_⟩
  cases isConstructor
  case' true =>
    obtain ⟨_, -, h⟩ := bind_ok_iff.1 h
    have hmutates : true = false → ∃ b, find? members "mutates" = some (.bool b) := nofun
  case' false =>
    obtain ⟨b, hb, h⟩ := bind_ok_iff.1 h
    have hmutates : false = false → ∃ b, find? members "mutates" = some (.bool b) :=
      fun _ => ⟨b, find?_of_booleanMember hb⟩
  all_goals
    obtain ⟨s, hlabel, h⟩ := bind_ok_iff.1 h
    obtain ⟨args, hargs, h⟩ := bind_ok_iff.1 h
    obtain ⟨id, hreturn, h⟩ := bind_ok_iff.1 h
    obtain ⟨payable, hpayable, h⟩ := bind_ok_iff.1 h
    obtain ⟨bs, hselector, h⟩ := bind_ok_iff.1 h
    obtain ⟨name, hname, h⟩ := bind_ok_iff.1 h
    obtain ⟨lines, hdocs, -⟩ := bind_ok_iff.1 h
    exact ⟨⟨s, hlabel⟩, ⟨args, hargs⟩, ⟨id, hreturn⟩, ⟨payable, hpayable⟩, ⟨bs, hselector⟩, ⟨name, hname⟩,
      ⟨lines, hdocs⟩, hmutates⟩

end Load

end ContractClient
