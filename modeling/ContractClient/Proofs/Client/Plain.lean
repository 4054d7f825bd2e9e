/-
The plain codec of a type, and what a client makes of its values.

The plain codec follows the definition of a type and knows no shapes of its own:
a byte string is a sequence or an array of bytes, an option or a result is a
variant with two arms, and an account id or a hash is a record with one field.
Types refer to each other by their numbers, and the classes of records are known
by numbers, too, so nothing of the plain codec depends on what a client calls
things.

`translate` says what becomes of a plain value in a client. It is directed by
the type, since a sequence of bytes and one of other numbers are both lists of
integers. It covers every value and need not be asked whether a value fits. What
can go wrong is only that Python cannot make an instance with the attributes
that the translation gives it, or none at all of a class that its variant has
spoiled: `constructible`.
-/
import ContractClient.Client.CodecExpr
import ContractClient.Client.Import

set_option autoImplicit false

namespace ContractClient

/-- The name that stands for a number. -/
def label (n : Nat) : String :=
  toString n

namespace Registry

/-! ## Plain codecs -/

/-- Fields under the names that they have in classes. -/
def plainFields (fields : List Field) : List (String × Codec) :=
  (fieldNames (fields.map (·.name))).zip (fields.map fun f => .ref (label f.typeId))

/-- The class of a record that is known by a number. -/
def plainClass (n : Nat) (fields : List Field) : Shape :=
  ⟨label n, fieldNames (fields.map (·.name))⟩

/-- An arm, its class known by its index. -/
def plainArm (arm : Arm) : Codec.Arm :=
  (arm.index, plainClass arm.index arm.fields, plainFields arm.fields)

/-- The number of bits that a compact has at most. -/
def compactBits (r : Registry) (inner : TypeId) : Option Nat :=
  match r.definition? inner with
  | some (.primitive (.unsigned width)) => some width.bits
  | _ => none

/-- **The plain codec of a type**, by its definition. -/
def plainCodec (r : Registry) (id : TypeId) : TypeDef → Codec
  | .primitive kind => kind.codec
  | .compact inner => .compact (r.compactBits inner)
  | .sequence item => .seq (.ref (label item))
  | .array item length => .array (.ref (label item)) length
  | .tuple items => .tuple (items.map fun item => .ref (label item))
  | .composite fields => .struct (plainClass id fields) (plainFields fields)
  | .variant arms => .enum (label id) (arms.map plainArm)

/-- The plain codecs of all types, each declared under its number. -/
def plain (r : Registry) : Environment :=
  ⟨r.entries.map fun e => (label e.id, r.plainCodec e.id e.definition)⟩

end Registry

/-! ## Translating values -/

/-- The byte of an integer. -/
def Value.toByte : Value → UInt8
  | .int n => UInt8.ofNat n.toNat
  | _ => 0

/-- The arm of which a plain value is an instance. -/
def TypeDef.armOf? (cls : String) : TypeDef → Option Arm
  | .variant arms => arms.find? fun arm => label arm.index == cls
  | _ => none

/-- The types of the attributes of a plain instance. -/
def TypeDef.attributeTypes (cls : String) : TypeDef → List TypeId
  | .composite fields => fields.map (·.typeId)
  | d => ((d.armOf? cls).map fun arm => arm.fields.map (·.typeId)).getD []

/-- The class that a client has for the instances of a plain class. -/
def ModuleNames.classOf (names : ModuleNames) (id : TypeId) (cls : String) : TypeDef → String
  | .composite _ => (names.types.find? id).getD ""
  | .variant arms =>
    ((((arms.map fun arm => label arm.index).zip (names.armsOf id)).find? (·.1 == cls)).map (·.2)).getD ""
  | _ => ""

namespace Registry

/-- What a client makes of an instance whose attributes are translated already.
Known shapes have no class: the one attribute, if there is one, is taken out. -/
def present (r : Registry) (names : ModuleNames) (e : Entry) (cls : String) (attributes : List (String × Value)) :
    Value :=
  let values : List Value := attributes.map (·.2)
  match r.wellKnown? e, values with
  | some .accountId, [.bytes b] => .newtype .accountId b
  | some .hash, [.bytes b] => .newtype .hash b
  | some .option, [] => .none
  | some .option, [v] => v
  | some .result, [v] => if cls = label 0 then .ok v else .err v
  | _, _ => .instance (names.classOf e.id cls e.definition) attributes

mutual

/-- **What becomes of a plain value in a client.** -/
def translate (r : Registry) (names : ModuleNames) (id : TypeId) : Value → Value
  | .list items =>
    match r.definition? id with
    | some (.sequence item) =>
      if r.isByte item then .bytes (items.map Value.toByte)
      else .list (translateEach r names (List.replicate items.length item) items)
    | _ => .list items
  | .tuple items =>
    match r.definition? id with
    | some (.array item _) =>
      if r.isByte item then .bytes (items.map Value.toByte)
      else .tuple (translateEach r names (List.replicate items.length item) items)
    | some (.tuple ids) => .tuple (translateEach r names ids items)
    | _ => .tuple items
  | .instance cls attributes =>
    match r.entry? id with
    | some e => r.present names e cls (translateAttributes r names (e.definition.attributeTypes cls) attributes)
    | none => .instance cls attributes
  | v => v

/-- Values of the given types. -/
def translateEach (r : Registry) (names : ModuleNames) : List TypeId → List Value → List Value
  | id :: ids, v :: rest => translate r names id v :: translateEach r names ids rest
  | _, _ => []

/-- Attributes of the given types. -/
def translateAttributes (r : Registry) (names : ModuleNames) :
    List TypeId → List (String × Value) → List (String × Value)
  | id :: ids, (name, v) :: rest => (name, translate r names id v) :: translateAttributes r names ids rest
  | _, _ => []

end

end Registry

/-! ## Values that can be made -/

/-- Whether the class of a type offers one of its arms under a name that Python
looks up for instances. -/
def TypeDef.spoiled : TypeDef → Bool
  | .variant arms => (armAttributes (arms.map (·.name))).any fun name => spoilingNames.contains name
  | _ => false

/-- Whether a class is that of an arm whose type spoils it. -/
def Registry.spoils (r : Registry) (names : ModuleNames) (cls : String) : Bool :=
  names.arms.any fun p => (names.armsOf p.1).contains cls && (r.definition? p.1).any TypeDef.spoiled

/-- Whether instances of a class can be made with an attribute of a name: the
name is not private to the class and the attribute can be assigned. -/
def takesAttribute (cls name : String) : Bool :=
  nameIn cls name == name && !fixedAttributes.contains name

namespace Value

mutual

/-- **Whether all instances inside of a value can be made**, where some classes
are spoiled. -/
def constructible (spoiled : String → Bool) : Value → Bool
  | .list items => allConstructible spoiled items
  | .tuple items => allConstructible spoiled items
  | .ok v => constructible spoiled v
  | .err v => constructible spoiled v
  | .instance cls attributes => !spoiled cls && attributesConstructible spoiled cls attributes
  | _ => true

/-- Whether this holds of all items. -/
def allConstructible (spoiled : String → Bool) : List Value → Bool
  | [] => true
  | v :: rest => constructible spoiled v && allConstructible spoiled rest

/-- Whether instances can be made with the attributes. -/
def attributesConstructible (spoiled : String → Bool) (cls : String) : List (String × Value) → Bool
  | [] => true
  | (name, v) :: rest =>
    takesAttribute cls name && constructible spoiled v && attributesConstructible spoiled cls rest

end

end Value

end ContractClient
