/-
Byte strings as hexadecimal text.

Two digits make a byte. On reading, ASCII blanks may stand between two bytes,
before the first and after the last, but never inside a pair; digits of either
case are read and small ones are written.
-/
import ContractClient.Bytes.Basic

set_option autoImplicit false

namespace ContractClient.Bytes

/-- The digit of a value below sixteen. -/
def hexDigit (n : Nat) : Char :=
  if n < 10 then Char.ofNat ('0'.toNat + n) else Char.ofNat ('a'.toNat + (n - 10))

/-- The value of a hexadecimal digit of either case. -/
def hexValue? (c : Char) : Option Nat :=
  if '0' ≤ c ∧ c ≤ '9' then some (c.toNat - '0'.toNat)
  else if 'a' ≤ c ∧ c ≤ 'f' then some (c.toNat - 'a'.toNat + 10)
  else if 'A' ≤ c ∧ c ≤ 'F' then some (c.toNat - 'A'.toNat + 10)
  else none

/-- The two digits of a byte. -/
def hexPair (b : UInt8) : List Char :=
  [hexDigit (b.toNat / 16), hexDigit (b.toNat % 16)]

/-- The digits of a byte string. -/
def toHex (bs : Bytes) : String :=
  String.ofList (bs.flatMap hexPair)

/-- The digits of a byte string after `0x`. -/
def toHex0x (bs : Bytes) : String :=
  "0x" ++ toHex bs

/-- The ASCII blanks: the space and the controls from tab to carriage return. -/
def isHexBlank (c : Char) : Bool :=
  c == ' ' || (0x09 ≤ c.toNat && c.toNat ≤ 0x0d)

/-- The bytes of a list of digit pairs. -/
def ofHexDigits? : List Char → Option Bytes
  | [] => some []
  | [c] => if isHexBlank c then some [] else none
  | c :: d :: rest =>
    if isHexBlank c then ofHexDigits? (d :: rest)
    else do
      let high ← hexValue? c
      let low ← hexValue? d
      let bytes ← ofHexDigits? rest
      return UInt8.ofNat (16 * high + low) :: bytes

/-- The byte string that a text of digit pairs denotes. -/
def ofHex? (s : String) : Option Bytes :=
  ofHexDigits? s.toList

/-- What follows `0x` or `0X`, if the text begins so. -/
def after0x? (s : String) : Option String :=
  match s.toList with
  | '0' :: 'x' :: digits => some (String.ofList digits)
  | '0' :: 'X' :: digits => some (String.ofList digits)
  | _ => none

end ContractClient.Bytes
