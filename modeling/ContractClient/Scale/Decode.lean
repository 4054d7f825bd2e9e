/-
Decoding.

Decoding is strict: a byte string is accepted only if it is what encoding would
have written. It reads at an offset and gives the value together with the offset
behind it. All reading goes through `readExact`, so that what decoding knows of
a buffer is what lies between two offsets, and its size.

A sequence begins with a count. A count that exceeds the bytes that are left can
only be right if the items take no bytes at all, which one item tells.

As in encoding, references are left to a function and followed by fuel. A
reference that is met a second time at one offset is met for ever, so a chain of
references that ends visits every offset under every declared name at most once.
The number of declarations times the number of offsets that are left, and one
more for a name that is not declared, bounds the chain. Environments in which a
codec contains itself outright are the only ones for which the fuel can run out.
-/
import ContractClient.Scale.Codec

set_option autoImplicit false

namespace ContractClient

-- Powers of numbers are those of the core library, where another instance is at hand too.
attribute [local instance (1100)] instPowNat

/-- The modes of a compact number that have a canonical range. -/
inductive CompactMode
  | twoBytes
  | fourBytes
  | bigInteger
  deriving DecidableEq, Repr

/-- The mode in words. -/
def CompactMode.words : CompactMode → String
  | .twoBytes => "2-byte mode"
  | .fourBytes => "4-byte mode"
  | .bigInteger => "big-integer mode"

/-- What is wrong with the bytes at an offset. -/
inductive DecodeFault
  | truncated (needed : Nat) (available : Int)
  | boolByte (b : UInt8)
  | nonCanonical (mode : CompactMode)
  | compactRange (v bound : Nat)
  | utf8 (fault : Utf8.Fault)
  | codePoint (n : Nat)
  | sequenceLength (n : Nat)
  | optionTag (b : UInt8)
  | resultTag (b : UInt8)
  | noVariant (base : String) (index : Nat)
  /-- Bytes are left behind the value of what is named. -/
  | trailing (count : Nat) (after : String)
  | emptyEvent
  deriving DecidableEq, Repr

/-- Why bytes cannot be decoded. -/
inductive DecodeError
  | malformed (fault : DecodeFault) (offset : Nat)
  /-- An event is introduced by a number that stands for none. -/
  | unknownEvent (discriminant : Int) (known : List Nat)
  /-- A thirty-two bytes type is asked for another number of bytes. -/
  | newtype (error : NewtypeError)
  /-- The fields of a codec are not the attributes of its class. -/
  | shapeMismatch (cls name : String)
  /-- A reference names nothing. -/
  | undeclared (name : String)
  /-- References among so many declared codecs were followed without end. -/
  | endless (declared : Nat)
  deriving DecidableEq, Repr

/-- Two hexadecimal digits. -/
def hexByte (b : UInt8) : String :=
  String.ofList (Bytes.hexPair b)

/-- The fault in words. -/
def DecodeFault.message : DecodeFault → String
  | .truncated needed available => s!"truncated payload: need {needed} bytes, have {available}"
  | .boolByte b => s!"invalid bool byte 0x{hexByte b}"
  | .nonCanonical mode => s!"non-canonical compact ({mode.words})"
  | .compactRange v bound => s!"{v} out of range for Compact({bound})"
  | .utf8 fault => s!"invalid UTF-8 string: {fault.message}"
  | .codePoint n => s!"invalid char code point 0x{String.ofList (Nat.toDigits 16 n)}"
  | .sequenceLength n => s!"sequence length {n} exceeds remaining input"
  | .optionTag b => s!"invalid Option tag 0x{hexByte b}"
  | .resultTag b => s!"invalid Result tag 0x{hexByte b}"
  | .noVariant base index => s!"{base} has no variant {index}"
  | .trailing count after => s!"{count} trailing bytes after {after}"
  | .emptyEvent => "empty event payload"

/-- The class of the error. -/
def DecodeError.kind : DecodeError → String
  | .malformed _ _ => "DecodeError"
  | .unknownEvent _ _ => "UnknownEventDiscriminant"
  | .newtype _ => "ValueError"
  | .shapeMismatch _ name => if name == "__weakref__" then "AttributeError" else "TypeError"
  | .undeclared _ => "NameError"
  | .endless _ => "RecursionError"

/-- The error in words, where the words are part of the answer. -/
def DecodeError.message? : DecodeError → Option String
  | .malformed fault offset => some s!"DecodeError at offset {offset}: {fault.message}"
  | .unknownEvent discriminant known =>
    let declared := if known.isEmpty then "none" else ", ".intercalate (known.map toString)
    some s!"UnknownEventDiscriminant: {discriminant} (declared: {declared})"
  | .newtype error => some error.message
  | .shapeMismatch _ _ => none
  | .undeclared _ => none
  | .endless _ => none

namespace Codec

/-- A fault at an offset. -/
def fault {α : Type} (f : DecodeFault) (offset : Nat) : Except DecodeError α :=
  .error (.malformed f offset)

/-! ## Leaves -/

/-- The next `n` bytes. -/
def readExact (buf : Bytes) (offset n : Nat) : Except DecodeError (Bytes × Nat) :=
  if offset + n ≤ buf.length then .ok ((buf.drop offset).take n, offset + n)
  else fault (.truncated n ((buf.length : Int) - offset)) offset

/-- The next byte. -/
def readByte (buf : Bytes) (offset : Nat) : Except DecodeError (UInt8 × Nat) := do
  let (b, i) ← readExact buf offset 1
  return (b.headD 0, i)

/-- A compact number without a bound, in the mode that its first byte
announces. -/
def decodeCompactMode (buf : Bytes) (offset : Nat) : Except DecodeError (Nat × Nat) := do
  let (head, i) ← readByte buf offset
  let mode := head.toNat % 4
  if mode = 0 then return (head.toNat / 4, i)
  else if mode = 1 then
    let (raw, i) ← readExact buf offset 2
    let v := Bytes.toNat raw / 4
    if v < 2 ^ (6 : Nat) then fault (.nonCanonical .twoBytes) offset else return (v, i)
  else if mode = 2 then
    let (raw, i) ← readExact buf offset 4
    let v := Bytes.toNat raw / 4
    if v < 2 ^ (14 : Nat) then fault (.nonCanonical .fourBytes) offset else return (v, i)
  else
    let size := head.toNat / 4 + 4
    let (raw, i) ← readExact buf (offset + 1) size
    let v := Bytes.toNat raw
    if v < 2 ^ (30 : Nat) ∨ 4 < size ∧ raw.getLast? = some 0 then fault (.nonCanonical .bigInteger) offset
    else return (v, i)

/-- A compact number within a bound. -/
def decodeCompact (bound : Option Nat) (buf : Bytes) (offset : Nat) : Except DecodeError (Nat × Nat) := do
  let (v, i) ← decodeCompactMode buf offset
  match bound.filter fun b => b < Bytes.bitLength v with
  | some b => fault (.compactRange v b) offset
  | none => return (v, i)

/-- A text behind the number of its bytes. -/
def decodeStr (buf : Bytes) (offset : Nat) : Except DecodeError (Value × Nat) := do
  let (n, i) ← decodeCompact none buf offset
  let (raw, j) ← readExact buf i n
  match Utf8.decode raw with
  | .ok s => return (.str s, j)
  | .error f => fault (.utf8 f) i

/-- A code point in four bytes. -/
def decodeChar (buf : Bytes) (offset : Nat) : Except DecodeError (Value × Nat) := do
  let (raw, i) ← readExact buf offset 4
  let n := Bytes.toNat raw
  if n.isValidChar then return (.str (String.singleton (Char.ofNat n)), i)
  else fault (.codePoint n) offset

/-- Byte strings of a length, as a thirty-two bytes type if one is named. -/
def decodeFixedBytes (length : Nat) (newtype : Option Newtype) (buf : Bytes) (offset : Nat) :
    Except DecodeError (Value × Nat) := do
  let (raw, i) ← readExact buf offset length
  match newtype with
  | none => return (.bytes raw, i)
  | some kind =>
    match kind.ofBytes raw with
    | .ok b => return (.newtype kind b, i)
    | .error e => .error (.newtype e)

/-- The instance of a class whose attributes were decoded; each attribute has to
be there and no other. Of several fields of one name the last one counts. -/
def instanceOf (shape : Shape) (attributes : List (String × Value)) : Except DecodeError Value :=
  match (attributes.map (·.1) ++ shape.attributes).find? fun name =>
      !shape.attributes.contains name || !(attributes.map (·.1)).contains name with
  | some name => .error (.shapeMismatch shape.name name)
  | none =>
    .ok (.instance shape.name (shape.attributes.filterMap fun name =>
      attributes.reverse.find? (·.1 == name)))

/-- `n` items decoded one after the other. -/
def decodeItems (item : Nat → Except DecodeError (Value × Nat)) : (n offset : Nat) →
    Except DecodeError (List Value × Nat)
  | 0, i => .ok ([], i)
  | n + 1, i => do
    let (v, i) ← item i
    let (vs, i) ← decodeItems item n i
    return (v :: vs, i)

/-- The greatest number of items without bytes that a sequence may announce
beyond the bytes left. -/
def maxZeroSized : Nat := 2 ^ (20 : Nat)

/-- A sequence of items. -/
def decodeSeq (item : Nat → Except DecodeError (Value × Nat)) (buf : Bytes) (offset : Nat) :
    Except DecodeError (List Value × Nat) := do
  let (n, i) ← decodeCompact none buf offset
  if buf.length < n + i then
    let (probe, j) ← item i
    if j ≠ i ∨ maxZeroSized < n then fault (.sequenceLength n) offset
    else return (List.replicate n probe, i)
  else decodeItems item n i

/-! ## Trees -/

/-- How declared codecs are decoded. -/
abbrev Deref := String → Bytes → Nat → Except DecodeError (Value × Nat)

mutual

/-- The value at an offset, where `deref` decodes by a declared codec. -/
def decodeWith (deref : Deref) : Codec → Bytes → Nat → Except DecodeError (Value × Nat)
  | .bool, buf, offset => do
    let (b, i) ← readByte buf offset
    if b ≤ 1 then return (.bool (b == 1), i) else fault (.boolByte b) offset
  | .int size signed, buf, offset => do
    let (raw, i) ← readExact buf offset size.bytes
    return (.int (if signed then Bytes.toInt raw else Bytes.toNat raw), i)
  | .compact bound, buf, offset => do
    let (v, i) ← decodeCompact bound buf offset
    return (.int v, i)
  | .str, buf, offset => decodeStr buf offset
  | .char, buf, offset => decodeChar buf offset
  | .bytes, buf, offset => do
    let (n, i) ← decodeCompact none buf offset
    let (raw, j) ← readExact buf i n
    return (.bytes raw, j)
  | .fixedBytes length newtype, buf, offset => decodeFixedBytes length newtype buf offset
  | .seq item, buf, offset => do
    let (vs, i) ← decodeSeq (decodeWith deref item buf) buf offset
    return (.list vs, i)
  | .array item length, buf, offset => do
    let (vs, i) ← decodeItems (decodeWith deref item buf) length offset
    return (.tuple vs, i)
  | .tuple codecs, buf, offset => do
    let (vs, i) ← decodeTuple deref codecs buf offset
    return (.tuple vs, i)
  | .option inner, buf, offset => do
    let (tag, i) ← readByte buf offset
    if tag = 0 then return (.none, i)
    else if tag = 1 then decodeWith deref inner buf i
    else fault (.optionTag tag) offset
  | .result ok err, buf, offset => do
    let (tag, i) ← readByte buf offset
    if tag = 0 then
      let (v, i) ← decodeWith deref ok buf i
      return (.ok v, i)
    else if tag = 1 then
      let (v, i) ← decodeWith deref err buf i
      return (.err v, i)
    else fault (.resultTag tag) offset
  | .struct shape fields, buf, offset => do
    let (attributes, i) ← decodeFields deref fields buf offset
    return (← instanceOf shape attributes, i)
  | .enum base arms, buf, offset => do
    let (tag, i) ← readByte buf offset
    match decodeArm deref arms tag.toNat buf i with
    | some decoded => decoded
    | none => fault (.noVariant base tag.toNat) offset
  | .ref name, buf, offset => deref name buf offset

/-- The values of several codecs, one after the other. -/
def decodeTuple (deref : Deref) : List Codec → Bytes → Nat → Except DecodeError (List Value × Nat)
  | [], _, i => .ok ([], i)
  | c :: codecs, buf, i => do
    let (v, i) ← decodeWith deref c buf i
    let (vs, i) ← decodeTuple deref codecs buf i
    return (v :: vs, i)

/-- The values of several fields, one after the other. -/
def decodeFields (deref : Deref) : List (String × Codec) → Bytes → Nat →
    Except DecodeError (List (String × Value) × Nat)
  | [], _, i => .ok ([], i)
  | (name, c) :: fields, buf, i => do
    let (v, i) ← decodeWith deref c buf i
    let (vs, i) ← decodeFields deref fields buf i
    return ((name, v) :: vs, i)

/-- The instance of the arm with an index, if there is such an arm. -/
def decodeArm (deref : Deref) :
    List (Nat × Shape × List (String × Codec)) → Nat → Bytes → Nat → Option (Except DecodeError (Value × Nat))
  | [], _, _, _ => none
  | (index, shape, fields) :: arms, tag, buf, offset =>
    if index = tag then
      some do
        let (attributes, i) ← decodeFields deref fields buf offset
        return (← instanceOf shape attributes, i)
    else decodeArm deref arms tag buf offset

end

/-! ## Following references -/

/-- How references are followed as often as the fuel says. -/
def derefFuel (env : Environment) : (fuel : Nat) → Deref
  | 0, _, _, _ => .error (.endless env.declarations.length)
  | fuel + 1, name, buf, offset =>
    match env.codec? name with
    | some c => decodeWith (derefFuel env fuel) c buf offset
    | none => .error (.undeclared name)

/-- The number of references that decoding at an offset can follow inside each
other. -/
def fuelFor (env : Environment) (buf : Bytes) (offset : Nat) : Nat :=
  env.declarations.length * (buf.length - offset + 1) + 1

/-- **Decoding.** The value at an offset and the offset behind it. -/
def decodeFrom (env : Environment) (c : Codec) (buf : Bytes) (offset : Nat) : Except DecodeError (Value × Nat) :=
  decodeWith (derefFuel env (fuelFor env buf offset)) c buf offset

/-- A value that has to end where the buffer ends; `shown` names what was
decoded. -/
def closing (buf : Bytes) (shown : String) : Value × Nat → Except DecodeError Value
  | (v, i) => if i = buf.length then .ok v else fault (.trailing (buf.length - i) shown) i

/-- The instance of the arm with an index, from its fields alone. -/
def decodeVariant (env : Environment) (base : String) (arms : List Arm) (index : Nat) (payload : Bytes)
    (strict : Bool) : Except DecodeError Value := do
  match decodeArm (derefFuel env (fuelFor env payload 0)) arms index payload 0 with
  | none => fault (.noVariant base index) 0
  | some decoded =>
    let (v, i) ← decoded
    if strict then closing payload s!"{base} variant {index}" (v, i) else return v

end Codec

end ContractClient
