/-
The values that are encoded and decoded.

Values are dynamic: whether one fits a codec is decided when it is encoded, so
the type has a place for everything that a caller may hand in, also for what no
codec takes. An instance of a declared class is its class name and its
attributes. A text is a `str`, or a `brokenStr` if it holds a surrogate.
-/
import ContractClient.Bytes.Utf8
import ContractClient.Decimal.Shortest
import ContractClient.Text.Surrogates

set_option autoImplicit false

namespace ContractClient

/-- The two types of thirty-two bytes that have a name of their own. -/
inductive Newtype
  | accountId
  | hash
  deriving DecidableEq, Repr

/-- The name of the type. -/
def Newtype.name : Newtype → String
  | .accountId => "AccountId"
  | .hash => "Hash"

/-- A value. -/
inductive Value
  | none
  | bool (b : Bool)
  | int (n : Int)
  | float (x : Binary64)
  | str (s : String)
  | brokenStr (t : BrokenText)
  | bytes (b : Bytes)
  | byteArray (b : Bytes)
  | memoryView (b : Bytes)
  | newtype (kind : Newtype) (b : Bytes)
  | list (items : List Value)
  | tuple (items : List Value)
  | ok (v : Value)
  | err (v : Value)
  | noValue
  | dict
  | instance (cls : String) (attributes : List (String × Value))
  deriving Inhabited

namespace Value

/-- The name of a value's type. -/
def typeName : Value → String
  | .none => "NoneType"
  | .bool _ => "bool"
  | .int _ => "int"
  | .float _ => "float"
  | .str _ => "str"
  | .brokenStr _ => "str"
  | .bytes _ => "bytes"
  | .byteArray _ => "bytearray"
  | .memoryView _ => "memoryview"
  | .newtype kind _ => kind.name
  | .list _ => "list"
  | .tuple _ => "tuple"
  | .ok _ => "Ok"
  | .err _ => "Err"
  | .noValue => "NoValue"
  | .dict => "dict"
  | .instance cls _ => cls

/-- The bytes of a byte string of any kind. -/
def bytes? : Value → Option Bytes
  | .bytes b => some b
  | .byteArray b => some b
  | .memoryView b => some b
  | .newtype _ b => some b
  | _ => Option.none

/-- The items of a list or tuple. -/
def items? : Value → Option (List Value)
  | .list items => some items
  | .tuple items => some items
  | _ => Option.none

mutual

/-- The number of values that lie inside each other. -/
def depth : Value → Nat
  | .list items => 1 + depthOfItems items
  | .tuple items => 1 + depthOfItems items
  | .ok v => 1 + depth v
  | .err v => 1 + depth v
  | .instance _ attributes => 1 + depthOfAttributes attributes
  | _ => 1

/-- The greatest depth of some values. -/
def depthOfItems : List Value → Nat
  | [] => 0
  | v :: rest => max (depth v) (depthOfItems rest)

/-- The greatest depth of some attributes. -/
def depthOfAttributes : List (String × Value) → Nat
  | [] => 0
  | (_, v) :: rest => max (depth v) (depthOfAttributes rest)

end

mutual

/-- The value as messages show it. A view of memory is shown by its address,
which is left out. -/
def literal : Value → String
  | .none => "None"
  | .bool b => if b then "True" else "False"
  | .int n => toString n
  | .float x => x.text
  | .str s => Text.literal s
  | .brokenStr t => t.literal
  | .bytes b => Text.bytesLiteral b
  | .byteArray b => s!"bytearray({Text.bytesLiteral b})"
  | .memoryView _ => "<memory>"
  | .newtype kind b => s!"{kind.name}({Bytes.toHex0x b})"
  | .list items => "[" ++ ", ".intercalate (itemLiterals items) ++ "]"
  | .tuple [v] => "(" ++ literal v ++ ",)"
  | .tuple items => "(" ++ ", ".intercalate (itemLiterals items) ++ ")"
  | .ok v => "Ok(value=" ++ literal v ++ ")"
  | .err v => "Err(error=" ++ literal v ++ ")"
  | .noValue => "NO_VALUE"
  | .dict => "\x7b\x7d"
  | .instance cls attributes => cls ++ "(" ++ ", ".intercalate (attributeLiterals attributes) ++ ")"

/-- Values as messages show them. -/
def itemLiterals : List Value → List String
  | [] => []
  | v :: rest => literal v :: itemLiterals rest

/-- Attributes as messages show them. -/
def attributeLiterals : List (String × Value) → List String
  | [] => []
  | (name, v) :: rest => (name ++ "=" ++ literal v) :: attributeLiterals rest

end

end Value

/-! ## The thirty-two bytes types -/

/-- Why a text or a byte string is no value of a thirty-two bytes type. -/
inductive NewtypeError
  | invalidHex (kind : Newtype) (text : String)
  | wrongLength (kind : Newtype) (length : Nat)
  deriving DecidableEq, Repr

/-- The error in words. -/
def NewtypeError.message : NewtypeError → String
  | .invalidHex kind text => s!"{kind.name}: invalid hex {Text.literal text}"
  | .wrongLength kind length => s!"{kind.name} must be 32 bytes, got {length}"

namespace Newtype

/-- Thirty-two bytes; any other number of them is refused. -/
def ofBytes (kind : Newtype) (b : Bytes) : Except NewtypeError Bytes :=
  if b.length = 32 then .ok b else .error (.wrongLength kind b.length)

/-- Thirty-two bytes in hexadecimal, with or without `0x`. -/
def ofText (kind : Newtype) (text : String) : Except NewtypeError Bytes :=
  match Bytes.ofHex? ((Bytes.after0x? text).getD text) with
  | some b => kind.ofBytes b
  | none => .error (.invalidHex kind text)

end Newtype

/-! ## Outcomes -/

/-- What unwrapping an outcome gives: the value of a success, or the text of the
complaint about a failure. Nothing for values that are no outcomes. -/
def Value.unwrap? : Value → Option (Except String Value)
  | .ok v => some (.ok v)
  | .err v => some (.error s!"called unwrap() on {(Value.err v).literal}")
  | _ => Option.none

end ContractClient
