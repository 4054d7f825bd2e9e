/-
The model of a contract's metadata.

A document declares types, each under a number, and the constructors, messages
and events whose signatures name those numbers. Loading checks the form of a
document and nothing between its parts, so a number may still name no type at
all; that is for the registry to find out.
-/
import ContractClient.Bytes.Basic

set_option autoImplicit false

namespace ContractClient

/-- The number of a type in a document. -/
abbrev TypeId := Nat

/-- The widths of the integer types. -/
inductive Width
  | w8 | w16 | w32 | w64 | w128 | w256
  deriving DecidableEq, Repr

/-- The width in bytes. -/
def Width.bytes : Width → Nat
  | .w8 => 1
  | .w16 => 2
  | .w32 => 4
  | .w64 => 8
  | .w128 => 16
  | .w256 => 32

/-- The width in bits. -/
def Width.bits (w : Width) : Nat :=
  8 * w.bytes

/-- The types that are not built from others. -/
inductive Primitive
  | bool
  | char
  | str
  | unsigned (width : Width)
  | signed (width : Width)
  deriving DecidableEq, Repr

namespace Primitive

/-- All primitive types, in the order in which they are listed. -/
def all : List Primitive :=
  let widths : List Width := [.w8, .w16, .w32, .w64, .w128, .w256]
  [.bool, .char, .str] ++ widths.map .unsigned ++ widths.map .signed

/-- The name of a primitive type. -/
def name : Primitive → String
  | .bool => "bool"
  | .char => "char"
  | .str => "str"
  | .unsigned w => "u" ++ toString w.bits
  | .signed w => "i" ++ toString w.bits

/-- The primitive type of a name. -/
def ofName? (s : String) : Option Primitive :=
  all.find? fun p => p.name == s

/-- Whether the type is an unsigned integer. -/
def isUnsigned : Primitive → Bool
  | .unsigned _ => true
  | _ => false

end Primitive

/-- A field of a composite or of an arm. Fields without a name are known by
their position. -/
structure Field where
  typeId : TypeId
  name : Option String := none
  typeName : Option String := none
  docs : List String := []
  deriving DecidableEq, Repr

/-- An arm of a variant, with the index that stands for it in encodings. -/
structure Arm where
  name : String
  index : Nat
  fields : List Field := []
  docs : List String := []
  deriving DecidableEq, Repr

/-- The definition of a type. -/
inductive TypeDef
  | primitive (kind : Primitive)
  | composite (fields : List Field)
  | variant (arms : List Arm)
  | sequence (item : TypeId)
  | array (item : TypeId) (length : Nat)
  | tuple (items : List TypeId)
  | compact (inner : TypeId)
  deriving DecidableEq, Repr

namespace TypeDef

/-- The types that a definition refers to, in the order in which it names
them. -/
def references : TypeDef → List TypeId
  | .primitive _ => []
  | .composite fields => fields.map (·.typeId)
  | .variant arms => arms.flatMap fun arm => arm.fields.map (·.typeId)
  | .sequence item => [item]
  | .array item _ => [item]
  | .tuple items => items
  | .compact inner => [inner]

/-- Whether a type of this definition is declared under a name of its own. -/
def isDeclaration : TypeDef → Bool
  | .composite _ => true
  | .variant _ => true
  | _ => false

/-- Whether values of this definition hold their items behind a length:
sequences and arrays. -/
def isIndirect : TypeDef → Bool
  | .sequence _ => true
  | .array _ _ => true
  | _ => false

end TypeDef

/-- A parameter of a generic type. -/
structure TypeParameter where
  name : String
  typeId : Option Int := none
  deriving DecidableEq, Repr

/-- A type of a document. -/
structure Entry where
  id : TypeId
  definition : TypeDef
  path : List String := []
  parameters : List TypeParameter := []
  docs : List String := []
  deriving DecidableEq, Repr

/-- The path of a type in one text. -/
def Entry.displayPath (e : Entry) : String :=
  "::".intercalate e.path

/-- An argument of a constructor or message, or a field of an event. Its texts
are of any kind that is asked for. -/
structure Argument (τ : Type := String) where
  label : τ
  typeId : TypeId
  indexed : Bool := false
  docs : List τ := []
  deriving DecidableEq, Repr

/-- A constructor or a message, with texts of any kind. -/
structure Method (τ : Type := String) where
  label : τ
  args : List (Argument τ) := []
  returnType : Option TypeId := none
  mutates : Bool := true
  payable : Bool := false
  selector : Option Bytes := none
  selectorName : Option τ := none
  docs : List τ := []
  deriving DecidableEq, Repr

/-- An event. -/
structure Event where
  label : String
  args : List Argument := []
  docs : List String := []
  deriving DecidableEq, Repr

/-- A loaded document. The entries of `types` have distinct numbers. -/
structure Metadata where
  contractName : String
  contractVersion : String
  types : List Entry
  constructors : List Method := []
  messages : List Method := []
  events : List Event := []
  sourceHash : Option Bytes := none
  wasm : Option Bytes := none
  deriving DecidableEq, Repr

/-- The entry of a type. -/
def Metadata.entry? (m : Metadata) (id : TypeId) : Option Entry :=
  m.types.find? fun e => e.id == id

end ContractClient
