/-
Codecs as data.

A codec says how the values of one type are laid out in bytes. It is a tree, so
that encoding, decoding and display are functions on it and everything that can
be said of codecs is said by induction. Structs and enums carry the shape of the
classes whose instances they take. References name a declared codec and are
followed in an environment; they are the only way in which a codec can contain
itself.
-/
import ContractClient.Scale.Value

set_option autoImplicit false

namespace ContractClient

/-- The number of bytes of a fixed-width integer, of which there is at least
one. -/
structure IntSize where
  bytes : Nat
  pos : 0 < bytes
  deriving DecidableEq, Repr

namespace IntSize

/-- The number of bits. -/
def bits (s : IntSize) : Nat := 8 * s.bytes

/-- The size with so many bits, which have to be a positive multiple of
eight. -/
def ofBits? (bits : Int) : Option IntSize :=
  if h : bits % 8 = 0 ∧ 0 < bits then some ⟨(bits / 8).toNat, by omega⟩ else none

/-- What is said of other numbers of bits. -/
def refusal (bits : Int) : String :=
  s!"integer width must be a positive multiple of 8, got {bits}"

end IntSize

/-- A class of records: its name and the names of its attributes. -/
structure Shape where
  name : String
  attributes : List String
  deriving DecidableEq, Repr

/-- A codec. -/
inductive Codec
  | bool
  | int (size : IntSize) (signed : Bool)
  /-- A natural number in as few bytes as its size asks for, with at most
  `bound` bits. -/
  | compact (bound : Option Nat)
  | str
  | char
  | bytes
  | fixedBytes (length : Nat) (newtype : Option Newtype)
  | seq (item : Codec)
  | array (item : Codec) (length : Nat)
  | tuple (items : List Codec)
  | option (inner : Codec)
  | result (ok err : Codec)
  | struct (shape : Shape) (fields : List (String × Codec))
  | enum (base : String) (arms : List (Nat × Shape × List (String × Codec)))
  | ref (name : String)
  deriving Inhabited

namespace Codec

/-- The codec of unit. -/
def unit : Codec := .tuple []

/-- The codec of account ids. -/
def accountId : Codec := .fixedBytes 32 (some .accountId)

/-- The codec of hashes. -/
def hash : Codec := .fixedBytes 32 (some .hash)

/-- The unsigned integers of a size. -/
def unsigned (size : IntSize) : Codec := .int size false

/-- An arm of an enum: its index, its class and its fields. -/
abbrev Arm := Nat × Shape × List (String × Codec)

/-- Why a list of arms makes no enum. -/
inductive EnumError
  | indexRange (base : String) (index : Int)
  | indexReused (base : String) (index : Int)
  deriving DecidableEq, Repr

/-- The error in words. -/
def EnumError.message : EnumError → String
  | .indexRange base index => s!"{base}: variant index {index} does not fit in u8"
  | .indexReused base index => s!"{base}: duplicate variant index {index}"

/-- Arms with indices that are bytes and different from each other and from
those in `seen`. -/
def arms (base : String) (seen : List Nat) :
    List (Int × Shape × List (String × Codec)) → Except EnumError (List Arm)
  | [] => .ok []
  | (index, shape, fields) :: rest =>
    if index < 0 ∨ 255 < index then .error (.indexRange base index)
    else if seen.contains index.toNat then .error (.indexReused base index)
    else do
      let rest ← arms base (index.toNat :: seen) rest
      return (index.toNat, shape, fields) :: rest

/-- The enum with the given arms. -/
def enum? (base : String) (given : List (Int × Shape × List (String × Codec))) : Except EnumError Codec :=
  (arms base [] given).map (Codec.enum base)

/-- The indices of arms, in ascending order. -/
def indices (arms : List Arm) : List Nat :=
  (arms.map (·.1)).mergeSort

end Codec

/-- The declared codecs, by name. -/
structure Environment where
  declarations : List (String × Codec) := []

namespace Environment

/-- The codec declared under a name. -/
def codec? (env : Environment) (name : String) : Option Codec :=
  (env.declarations.find? (·.1 == name)).map (·.2)

/-- Whether a codec is an enum with an arm of a class. -/
def hasArm (cls : String) : Codec → Bool
  | .enum _ arms => arms.any fun arm => arm.2.1.name == cls
  | _ => false

/-- The codec of a class: the one declared under its name, or the enum of which
it is an arm. -/
def codecOfClass? (env : Environment) (cls : String) : Option Codec :=
  match env.codec? cls with
  | some c => some c
  | none => (env.declarations.find? fun d => hasArm cls d.2).map (·.2)

end Environment

end ContractClient
