/-
Reading JSON text.

The reader walks the text once and keeps, beside what is left of it, the number
of characters that lie behind, so that a fault can be located. Nesting and
counting are bounded by the length of the text, and twice that is the fuel of
the walk: of any two steps that follow each other one consumes a character, so
the fuel is never what ends it.

A number ends before the first character that does not continue it, whatever
that character is; the fault, if any, is then found by whoever reads on.
-/
import ContractClient.Json.Value

set_option autoImplicit false

namespace ContractClient.Json

/-- What is wrong with a JSON text at a position. -/
inductive Fault
  | expectingValue
  | expectingKey
  | expectingColon
  | expectingComma
  | unterminatedString
  | controlCharacter
  | invalidEscape
  | invalidUnicodeEscape
  | extraData
  | byteOrderMark
  deriving DecidableEq, Repr

/-- A fault and the number of characters before it. -/
structure ReadError where
  fault : Fault
  position : Nat
  deriving DecidableEq, Repr

/-- What is left of a text, and the number of characters behind. -/
structure Cursor where
  position : Nat
  rest : List Char

/-- The cursor behind `n` more characters. -/
def Cursor.skip (c : Cursor) (n : Nat) : Cursor :=
  ⟨c.position + n, c.rest.drop n⟩

/-- A fault at the cursor. -/
def Cursor.fail {α : Type} (c : Cursor) (fault : Fault) : Except ReadError α :=
  .error ⟨fault, c.position⟩

/-- The blanks of JSON. -/
def isSpace (c : Char) : Bool :=
  c == ' ' || c == '\t' || c == '\n' || c == '\r'

/-- The cursor behind the blanks. -/
def Cursor.skipSpace (c : Cursor) : Cursor :=
  c.skip (c.rest.takeWhile isSpace).length

/-- The value of four hexadecimal digits. -/
def fourDigits? : List Char → Option Nat
  | [a, b, c, d] => do
    let a ← Bytes.hexValue? a
    let b ← Bytes.hexValue? b
    let c ← Bytes.hexValue? c
    let d ← Bytes.hexValue? d
    return ((a * 16 + b) * 16 + c) * 16 + d
  | _ => none

/-- The character that a one-letter escape stands for. -/
def simpleEscape? : Char → Option Char
  | '"' => some '"'
  | '\\' => some '\\'
  | '/' => some '/'
  | 'b' => some '\x08'
  | 'f' => some '\x0c'
  | 'n' => some '\n'
  | 'r' => some '\r'
  | 't' => some '\t'
  | _ => none

/-- The unit of a Unicode escape whose digits begin `cs`. One more character has
to follow the digits: a text that ends right behind them ends inside the
escape. -/
def unicodeUnit? (cs : List Char) : Option Nat :=
  if (cs.drop 4).isEmpty then none else fourDigits? (cs.take 4)

/-- The low unit of a surrogate pair, if `cs` begins with its escape. -/
def lowSurrogate? (cs : List Char) : Option Nat :=
  match cs with
  | '\\' :: 'u' :: digits =>
    match unicodeUnit? digits with
    | some unit => if 0xdc00 ≤ unit ∧ unit ≤ 0xdfff then some unit else none
    | none => none
  | _ => none

/-- The characters of a string up to its closing quote. `opening` is the
position of the opening one; `fuel` is at least the number of characters
left. -/
def readString (opening : Nat) : (fuel : Nat) → Cursor → List Char → Except ReadError (String × Cursor)
  | 0, _, _ => .error ⟨.unterminatedString, opening⟩
  | fuel + 1, c, acc =>
    match c.rest with
    | [] => .error ⟨.unterminatedString, opening⟩
    | '"' :: _ => .ok (String.ofList acc.reverse, c.skip 1)
    | ['\\'] => .error ⟨.unterminatedString, opening⟩
    | '\\' :: 'u' :: digits =>
      match unicodeUnit? digits with
      | none => (c.skip 1).fail .invalidUnicodeEscape
      | some unit =>
        if 0xd800 ≤ unit ∧ unit ≤ 0xdbff then
          match lowSurrogate? (digits.drop 4) with
          | some low =>
            let code := 0x10000 + (unit - 0xd800) * 0x400 + (low - 0xdc00)
            readString opening fuel (c.skip 12) (Char.ofNat code :: acc)
          | none => readString opening fuel (c.skip 6) ('\ufffd' :: acc)
        else if 0xdc00 ≤ unit ∧ unit ≤ 0xdfff then
          readString opening fuel (c.skip 6) ('\ufffd' :: acc)
        else readString opening fuel (c.skip 6) (Char.ofNat unit :: acc)
    | '\\' :: e :: _ =>
      match simpleEscape? e with
      | some x => readString opening fuel (c.skip 2) (x :: acc)
      | none => c.fail .invalidEscape
    | x :: _ =>
      if x.toNat < 0x20 then c.fail .controlCharacter
      else readString opening fuel (c.skip 1) (x :: acc)

/-- The natural number with the given decimal digits. -/
def natOfDigits (ds : List Char) : Nat :=
  ds.foldl (fun n d => 10 * n + (d.toNat - '0'.toNat)) 0

/-- A number token: the digits before the point, those behind it, the exponent,
and its length. The fraction and the exponent are absent unless the token has
them. -/
structure NumberToken where
  negative : Bool
  whole : List Char
  fraction : Option (List Char)
  exponent : Option Int
  length : Nat

/-- The exponent part that begins `cs`, and its length. -/
def exponentPart? (cs : List Char) : Option (Int × Nat) :=
  match cs with
  | e :: rest =>
    if e == 'e' || e == 'E' then
      let (sign, digits) : Option Bool × List Char := match rest with
        | '-' :: r => (some true, r)
        | '+' :: r => (some false, r)
        | r => (none, r)
      let ds := digits.takeWhile Char.isDigit
      if ds.isEmpty then none
      else
        let n : Int := natOfDigits ds
        some (if sign == some true then -n else n, 1 + (if sign.isSome then 1 else 0) + ds.length)
    else none
  | [] => none

/-- The number token that begins `cs`. -/
def numberToken? (cs : List Char) : Option NumberToken :=
  let (negative, body) : Bool × List Char := match cs with
    | '-' :: rest => (true, rest)
    | rest => (false, rest)
  let whole : List Char := match body with
    | '0' :: _ => ['0']
    | rest => rest.takeWhile Char.isDigit
  if whole.isEmpty then none
  else
    let behind := body.drop whole.length
    let fraction : Option (List Char) := match behind with
      | '.' :: rest =>
        let ds := rest.takeWhile Char.isDigit
        if ds.isEmpty then none else some ds
      | _ => none
    let fractionLength := match fraction with
      | some ds => ds.length + 1
      | none => 0
    let exponent := exponentPart? (behind.drop fractionLength)
    some
      { negative, whole, fraction
        exponent := exponent.map (·.1)
        length := (if negative then 1 else 0) + whole.length + fractionLength + (exponent.map (·.2)).getD 0 }

/-- The value of a number token. -/
def NumberToken.value (t : NumberToken) : Json :=
  match t.fraction, t.exponent with
  | none, none =>
    let n : Int := natOfDigits t.whole
    .int (if t.negative then -n else n)
  | fraction, exponent =>
    let ds := fraction.getD []
    .float (Binary64.ofDecimal t.negative (natOfDigits (t.whole ++ ds)) (exponent.getD 0 - ds.length))

/-- The literal words and what they stand for. -/
def words : List (String × Json) :=
  [("null", .null), ("true", .bool true), ("false", .bool false), ("NaN", .float .nan),
    ("Infinity", .float (.infinite false)), ("-Infinity", .float (.infinite true))]

/-- The value of the word or number that begins at the cursor. -/
def readScalar (c : Cursor) : Except ReadError (Json × Cursor) :=
  match words.find? (fun w => w.1.toList.isPrefixOf c.rest) with
  | some (word, v) => .ok (v, c.skip word.length)
  | none =>
    match numberToken? c.rest with
    | some t => .ok (t.value, c.skip t.length)
    | none => c.fail .expectingValue

mutual

/-- The value that begins at the cursor. -/
def readValue : (fuel : Nat) → Cursor → Except ReadError (Json × Cursor)
  | 0, c => c.fail .expectingValue
  | fuel + 1, c =>
    match c.rest with
    | '"' :: _ => do
      let (s, c) ← readString c.position (c.rest.length + 1) (c.skip 1) []
      return (.str s, c)
    | '[' :: _ =>
      let c := (c.skip 1).skipSpace
      match c.rest with
      | ']' :: _ => .ok (.arr [], c.skip 1)
      | _ => do
        let (items, c) ← readItems fuel c
        return (.arr items, c)
    | '\x7b' :: _ =>
      let c := (c.skip 1).skipSpace
      match c.rest with
      | '\x7d' :: _ => .ok (.obj [], c.skip 1)
      | _ => do
        let (members, c) ← readMembers fuel c
        return (.obj (ofMembers members), c)
    | _ => readScalar c

/-- The items of an array from the cursor on, and the cursor behind its closing
bracket. -/
def readItems : (fuel : Nat) → Cursor → Except ReadError (List Json × Cursor)
  | 0, c => c.fail .expectingValue
  | fuel + 1, c => do
    let (v, c) ← readValue fuel c
    let c := c.skipSpace
    match c.rest with
    | ']' :: _ => return ([v], c.skip 1)
    | ',' :: _ =>
      let (vs, c) ← readItems fuel (c.skip 1).skipSpace
      return (v :: vs, c)
    | _ => c.fail .expectingComma

/-- The members of an object from the cursor on, and the cursor behind its
closing brace. -/
def readMembers : (fuel : Nat) → Cursor → Except ReadError (List (String × Json) × Cursor)
  | 0, c => c.fail .expectingValue
  | fuel + 1, c =>
    match c.rest with
    | '"' :: _ => do
      let (k, c) ← readString c.position (c.rest.length + 1) (c.skip 1) []
      let c := c.skipSpace
      match c.rest with
      | ':' :: _ =>
        let (v, c) ← readValue fuel (c.skip 1).skipSpace
        let c := c.skipSpace
        match c.rest with
        | '\x7d' :: _ => return ([(k, v)], c.skip 1)
        | ',' :: _ =>
          let (ms, c) ← readMembers fuel (c.skip 1).skipSpace
          return ((k, v) :: ms, c)
        | _ => c.fail .expectingComma
      | _ => c.fail .expectingColon
    | _ => c.fail .expectingKey

end

/-- The value of a JSON text. -/
def parse (text : String) : Except ReadError Json :=
  let cs := text.toList
  match cs with
  | '\ufeff' :: _ => .error ⟨.byteOrderMark, 0⟩
  | _ => do
    let (v, c) ← readValue (2 * cs.length + 2) (Cursor.mk 0 cs).skipSpace
    let c := c.skipSpace
    if c.rest.isEmpty then return v else c.fail .extraData

/-- The fault in words. -/
def Fault.message : Fault → String
  | .expectingValue => "Expecting value"
  | .expectingKey => "Expecting property name enclosed in double quotes"
  | .expectingColon => "Expecting ':' delimiter"
  | .expectingComma => "Expecting ',' delimiter"
  | .unterminatedString => "Unterminated string starting at"
  | .controlCharacter => "Invalid control character at"
  | .invalidEscape => "Invalid \\escape"
  | .invalidUnicodeEscape => "Invalid \\uXXXX escape"
  | .extraData => "Extra data"
  | .byteOrderMark => "Unexpected UTF-8 BOM (decode using utf-8-sig)"

/-- The error in words, with its place in `text` by line and column. -/
def ReadError.message (e : ReadError) (text : String) : String :=
  let before := text.toList.take e.position
  let line := before.count '\n' + 1
  let column := (before.reverse.takeWhile (· != '\n')).length + 1
  s!"{e.fault.message}: line {line} column {column} (char {e.position})"

end ContractClient.Json
