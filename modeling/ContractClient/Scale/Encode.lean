/-
Encoding.

`encodeWith` encodes by recursion on the codec and leaves references to a
function that is passed to it; `encode` then follows references in an
environment, as often as its fuel says. A reference that is met a second time
before the value was taken apart is met for ever, so a chain of references that
ends visits every value under every declared name at most once. The number of
declarations times the depth of the value, and one more for a name that is not
declared, therefore bounds the chain. The fuel runs out only where following
references has no end.
-/
import ContractClient.Scale.Codec

set_option autoImplicit false

namespace ContractClient

-- Powers of numbers are those of the core library, where another instance is at hand too.
attribute [local instance (1100)] instPowNat

/-- Why a value cannot be encoded. -/
inductive EncodeError
  /-- The value is of another type. -/
  | expected (what got : String)
  /-- The integer does not fit. -/
  | intRange (v : Int) (size : IntSize) (signed : Bool)
  /-- The natural number has more bits than the bound allows. -/
  | compactRange (v : Int) (bound : Nat)
  | compactNegative
  | compactTooLarge
  | notOneCharacter
  | byteCount (expected got : Nat)
  | itemCount (expected got : Nat)
  | tupleSize (expected got : Nat)
  /-- The text holds a surrogate, for which UTF-8 has no bytes. -/
  | surrogate (text : BrokenText)
  /-- The value is no instance of an arm. -/
  | notVariant (got base : String)
  /-- An instance has no attribute of this name. -/
  | noAttribute (cls name : String)
  /-- A reference names nothing. -/
  | undeclared (name : String)
  /-- References among so many declared codecs were followed without end. -/
  | endless (declared : Nat)
  deriving DecidableEq, Repr

/-- The name of a fixed-width integer codec. -/
def intName (size : IntSize) (signed : Bool) : String :=
  (if signed then "I" else "U") ++ toString size.bits

/-- The name of a compact codec. -/
def compactName : Option Nat → String
  | some bound => s!"Compact({bound})"
  | none => "COMPACT"

/-- What the value should have been, for the errors that the codecs raise
themselves. -/
def EncodeError.complaint? : EncodeError → Option String
  | .expected what got => some s!"expected {what}, got {got}"
  | .intRange v size signed => some s!"{v} out of range for {intName size signed}"
  | .compactRange v bound => some s!"{v} out of range for {compactName (some bound)}"
  | .compactNegative => some "compact cannot encode negative values"
  | .compactTooLarge => some "compact value exceeds 536 bits"
  | .notOneCharacter => some "expected a single-character str"
  | .byteCount needed got => some s!"expected exactly {needed} bytes, got {got}"
  | .itemCount needed got => some s!"expected {needed} items, got {got}"
  | .tupleSize needed got => some s!"expected a {needed}-tuple, got {got} items"
  | .notVariant got base => some s!"{got} is not a variant of {base}"
  | .surrogate _ => none
  | .noAttribute _ _ => none
  | .undeclared _ => none
  | .endless _ => none

/-- The class of the error. -/
def EncodeError.kind : EncodeError → String
  | .surrogate _ => "UnicodeEncodeError"
  | .noAttribute _ _ => "AttributeError"
  | .undeclared _ => "NameError"
  | .endless _ => "RecursionError"
  | _ => "EncodeError"

/-- The error in words, where the words are part of the answer. -/
def EncodeError.message? : EncodeError → Option String
  | .surrogate text => (SurrogateRun.first? text.points).map SurrogateRun.message
  | e => e.complaint?.map ("EncodeError: " ++ ·)

namespace Codec

/-! ## Leaves -/

/-- The least and the greatest integer of a format. -/
def intBounds (size : IntSize) (signed : Bool) : Int × Int :=
  if signed then (-(2 ^ (size.bits - 1) : Nat), (2 ^ (size.bits - 1) : Nat) - 1)
  else (0, (2 ^ size.bits : Nat) - 1)

/-- A fixed-width integer, little-endian and in two's complement. -/
def encodeInt (size : IntSize) (signed : Bool) : Value → Except EncodeError Bytes
  | .int v =>
    if (intBounds size signed).1 ≤ v ∧ v ≤ (intBounds size signed).2 then .ok (Bytes.ofInt size.bytes v)
    else .error (.intRange v size signed)
  | v => .error (.expected "int" v.typeName)

/-- The number of value bytes that a natural number takes behind a length of its
own. -/
def compactSize (n : Nat) : Nat :=
  max 4 ((Bytes.bitLength n + 7) / 8)

/-- A natural number in the shortest of the four modes, which the two low bits
of the first byte tell apart. It has to be below `2 ^ 536`. -/
def compactBytes (n : Nat) : Bytes :=
  if n < 2 ^ (6 : Nat) then Bytes.ofNat 1 (4 * n)
  else if n < 2 ^ (14 : Nat) then Bytes.ofNat 2 (4 * n + 1)
  else if n < 2 ^ (30 : Nat) then Bytes.ofNat 4 (4 * n + 2)
  else Bytes.ofNat 1 (4 * (compactSize n - 4) + 3) ++ Bytes.ofNat (compactSize n) n

/-- A natural number below `2 ^ 536`: the form that the counts in front of
texts, byte strings and sequences have. -/
def encodeCount (n : Nat) : Except EncodeError Bytes :=
  if 67 < compactSize n then .error .compactTooLarge else .ok (compactBytes n)

/-- A natural number, within the bound and below `2 ^ 536`. -/
def encodeCompact (bound : Option Nat) : Value → Except EncodeError Bytes
  | .int v =>
    if v < 0 then .error .compactNegative
    else
      let n := v.toNat
      match bound.filter fun b => b < Bytes.bitLength n with
      | some b => .error (.compactRange v b)
      | none => encodeCount n
  | v => .error (.expected "int" v.typeName)

/-- Bytes behind their number. -/
def encodeCounted (b : Bytes) : Except EncodeError Bytes :=
  (encodeCount b.length).map fun head => head ++ b

/-- A byte string of any kind. -/
def expectBytes (v : Value) : Except EncodeError Bytes :=
  match v.bytes? with
  | some b => .ok b
  | none => .error (.expected "bytes" v.typeName)

/-- A list or tuple. -/
def expectItems (v : Value) : Except EncodeError (List Value) :=
  match v.items? with
  | some items => .ok items
  | none => .error (.expected "list or tuple" v.typeName)

/-- A text behind the number of its bytes. -/
def encodeStr : Value → Except EncodeError Bytes
  | .str s => encodeCounted (Utf8.encode s)
  | .brokenStr t => .error (.surrogate t)
  | v => .error (.expected "str" v.typeName)

/-- A code point in four bytes, a surrogate like any other. -/
def encodeChar : Value → Except EncodeError Bytes
  | .str s =>
    match s.toList with
    | [c] => .ok (Bytes.ofNat 4 c.toNat)
    | _ => .error .notOneCharacter
  | .brokenStr t =>
    match t.points with
    | [n] => .ok (Bytes.ofNat 4 n)
    | _ => .error .notOneCharacter
  | _ => .error .notOneCharacter

/-- An attribute of an instance. -/
def attributeOf (cls : String) (attributes : List (String × Value)) (name : String) : Except EncodeError Value :=
  match attributes.find? (·.1 == name) with
  | some (_, v) => .ok v
  | none => .error (.noAttribute cls name)

/-- Values encoded one after the other. -/
def encodeEach (encode : Value → Except EncodeError Bytes) : List Value → Except EncodeError Bytes
  | [] => .ok []
  | v :: rest => do
    let head ← encode v
    let tail ← encodeEach encode rest
    return head ++ tail

/-! ## Trees -/

/-- How values are encoded by declared codecs. -/
abbrev EncodeDeref := String → Value → Except EncodeError Bytes

mutual

/-- The encoding of a value, where `deref` encodes by a declared codec. -/
def encodeWith (deref : EncodeDeref) : Codec → Value → Except EncodeError Bytes
  | .bool, v =>
    match v with
    | .bool b => .ok [if b then 1 else 0]
    | v => .error (.expected "bool" v.typeName)
  | .int size signed, v => encodeInt size signed v
  | .compact bound, v => encodeCompact bound v
  | .str, v => encodeStr v
  | .char, v => encodeChar v
  | .bytes, v => expectBytes v >>= encodeCounted
  | .fixedBytes length _, v => do
    let b ← expectBytes v
    if b.length = length then return b else .error (.byteCount length b.length)
  | .seq item, v => do
    let items ← expectItems v
    let head ← encodeCount items.length
    let body ← encodeEach (encodeWith deref item) items
    return head ++ body
  | .array item length, v => do
    let items ← expectItems v
    if items.length = length then encodeEach (encodeWith deref item) items
    else .error (.itemCount length items.length)
  | .tuple codecs, v => do
    let items ← expectItems v
    if items.length = codecs.length then encodeTuple deref codecs items
    else .error (.tupleSize codecs.length items.length)
  | .option inner, v =>
    match v with
    | .none => .ok [0]
    | v => (encodeWith deref inner v).map fun b => 1 :: b
  | .result ok err, v =>
    match v with
    | .ok v => (encodeWith deref ok v).map fun b => 0 :: b
    | .err v => (encodeWith deref err v).map fun b => 1 :: b
    | v => .error (.expected "Ok or Err" v.typeName)
  | .struct shape fields, v =>
    match v with
    | .instance cls attributes =>
      if cls = shape.name then encodeFields deref fields cls attributes
      else .error (.expected shape.name cls)
    | v => .error (.expected shape.name v.typeName)
  | .enum base arms, v =>
    match v with
    | .instance cls attributes => (encodeArms deref arms cls attributes).getD (.error (.notVariant cls base))
    | v => .error (.notVariant v.typeName base)
  | .ref name, v => deref name v

/-- The encodings of as many values as there are codecs. -/
def encodeTuple (deref : EncodeDeref) :
    List Codec → List Value → Except EncodeError Bytes
  | c :: codecs, v :: items => do
    let head ← encodeWith deref c v
    let tail ← encodeTuple deref codecs items
    return head ++ tail
  | _, _ => .ok []

/-- The encodings of the attributes that the fields name. -/
def encodeFields (deref : EncodeDeref) :
    List (String × Codec) → String → List (String × Value) → Except EncodeError Bytes
  | [], _, _ => .ok []
  | (name, c) :: fields, cls, attributes => do
    let v ← attributeOf cls attributes name
    let head ← encodeWith deref c v
    let tail ← encodeFields deref fields cls attributes
    return head ++ tail

/-- The index and the fields of the last arm of a class, if there is one. -/
def encodeArms (deref : EncodeDeref) :
    List (Nat × Shape × List (String × Codec)) → String → List (String × Value) →
      Option (Except EncodeError Bytes)
  | [], _, _ => none
  | (index, shape, fields) :: arms, cls, attributes =>
    match encodeArms deref arms cls attributes with
    | some encoded => some encoded
    | none =>
      if shape.name = cls then
        some ((encodeFields deref fields cls attributes).map fun b => UInt8.ofNat index :: b)
      else none

end

/-! ## Following references -/

/-- How references are followed as often as the fuel says. -/
def encodeFuel (env : Environment) : (fuel : Nat) → EncodeDeref
  | 0, _, _ => .error (.endless env.declarations.length)
  | fuel + 1, name, v =>
    match env.codec? name with
    | some c => encodeWith (encodeFuel env fuel) c v
    | none => .error (.undeclared name)

/-- The number of references that encoding a value can follow inside each
other. -/
def encodeFuelFor (env : Environment) (v : Value) : Nat :=
  env.declarations.length * v.depth + 1

/-- **Encoding.** The bytes of a value. -/
def encode (env : Environment) (c : Codec) (v : Value) : Except EncodeError Bytes :=
  encodeWith (encodeFuel env (encodeFuelFor env v)) c v

/-- The encodings of the arguments of a call, one after the other. -/
def encodeArgs (env : Environment) : List (Codec × Value) → Except EncodeError Bytes
  | [] => .ok []
  | (c, v) :: rest => do
    let head ← c.encode env v
    let tail ← encodeArgs env rest
    return head ++ tail

end Codec

end ContractClient
