/-
UTF-8 between texts and byte strings.

Which byte strings are UTF-8, and of which text, is core's definition. This
module adds what core leaves out: where and why reading fails. A fault is
located at the first byte that opens no character, and it spans that byte
together with the continuation bytes after it that were still acceptable.
-/
import ContractClient.Bytes.Basic

set_option autoImplicit false

namespace ContractClient.Utf8

/-- Why a byte string is not UTF-8. -/
inductive Reason
  /-- A byte that opens no character. -/
  | start
  /-- A character is interrupted by a byte that may not continue it. -/
  | continuation
  /-- The input ends inside a character. -/
  | ending
  deriving DecidableEq, Repr

/-- A place where reading fails: the position of the opening byte, that byte,
the number of bytes that the fault spans, and the reason. -/
structure Fault where
  position : Nat
  byte : UInt8
  span : Nat
  reason : Reason
  deriving DecidableEq, Repr

/-- The intervals in which the bytes after an opening byte have to lie, or
nothing for a byte that opens no character. The second byte is restricted after
`e0` and `f0` (no overlong forms), after `ed` (no surrogates) and after `f4`
(nothing beyond the last code point). -/
def continuations (b : UInt8) : Option (List (UInt8 × UInt8)) :=
  let any : UInt8 × UInt8 := (0x80, 0xbf)
  if b < 0x80 then some []
  else if b < 0xc2 then none
  else if b < 0xe0 then some [any]
  else if b == 0xe0 then some [(0xa0, 0xbf), any]
  else if b == 0xed then some [(0x80, 0x9f), any]
  else if b < 0xf0 then some [any, any]
  else if b == 0xf0 then some [(0x90, 0xbf), any, any]
  else if b < 0xf4 then some [any, any, any]
  else if b == 0xf4 then some [(0x80, 0x8f), any, any]
  else none

/-- The number of bytes that lie in their intervals one after the other, and
what stops the count: nothing when all intervals are served. -/
def serve : List (UInt8 × UInt8) → Bytes → Nat × Option Reason
  | [], _ => (0, none)
  | _ :: _, [] => (0, some .ending)
  | (low, high) :: intervals, b :: bs =>
    if low ≤ b && b ≤ high then
      let (n, stop) := serve intervals bs
      (n + 1, stop)
    else (0, some .continuation)

/-- The first fault of a byte string that begins at `position`. -/
def firstFault (position : Nat) (bs : Bytes) : Option Fault :=
  match bs with
  | [] => none
  | b :: rest =>
    match continuations b with
    | none => some ⟨position, b, 1, .start⟩
    | some intervals =>
      match serve intervals rest with
      | (n, some reason) => some ⟨position, b, n + 1, reason⟩
      | (n, none) => firstFault (position + n + 1) (rest.drop n)
termination_by bs.length
decreasing_by
  simp only [List.length_drop, List.length_cons]
  omega

/-- The bytes of a text. -/
def encode (s : String) : Bytes :=
  s.toUTF8.data.toList

/-- The text of a byte string. A byte string that is not UTF-8 has a first
fault; the fault given when the search finds none is never used. -/
def decode (bs : Bytes) : Except Fault String :=
  match String.fromUTF8? ⟨bs.toArray⟩ with
  | some s => .ok s
  | none => .error ((firstFault 0 bs).getD ⟨0, 0, 1, .start⟩)

/-- The reason in words. -/
def Reason.message : Reason → String
  | .start => "invalid start byte"
  | .continuation => "invalid continuation byte"
  | .ending => "unexpected end of data"

/-- The fault in words: one byte is shown, several are named by their
positions. -/
def Fault.message (f : Fault) : String :=
  let place :=
    if f.span ≤ 1 then s!"byte 0x{String.ofList (Nat.toDigits 16 f.byte.toNat)} in position {f.position}"
    else s!"bytes in position {f.position}-{f.position + f.span - 1}"
  s!"'utf-8' codec can't decode {place}: {f.reason.message}"

end ContractClient.Utf8
