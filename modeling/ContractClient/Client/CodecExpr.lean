/-
Codec expressions: how a generated client names the codecs it uses, and which
codecs those are.

A declared type is named through its class. Where the codec of a class is wired
before all classes have theirs, the expression goes through a reference that is
followed on first use; the two forms denote the same codec, because a module
that was wired gives every reference its target.
-/
import ContractClient.Client.TypeExpr
import ContractClient.Scale.Codec

set_option autoImplicit false

namespace ContractClient

/-- A codec expression. -/
inductive CodecExpr
  | primitive (kind : Primitive)
  | compact (width : Width)
  | newtype (kind : Newtype)
  | bytes
  | fixedBytes (length : Nat)
  | seq (item : CodecExpr)
  | array (item : CodecExpr) (length : Nat)
  | tuple (items : List CodecExpr)
  | option (inner : CodecExpr)
  | result (ok err : CodecExpr)
  /-- The codec of a class, looked up at once. -/
  | ofClass (name : String)
  /-- The codec of a class, looked up on first use. -/
  | lateOfClass (name : String)
  deriving Repr

namespace TypeExpr

mutual

/-- The codec expression of a type; if `lazy`, classes are looked up on first
use. -/
def codecExpr (lazy : Bool) : TypeExpr → CodecExpr
  | .named name => if lazy then .lateOfClass name else .ofClass name
  | .primitive kind => .primitive kind
  | .compact width => .compact width
  | .newtype kind => .newtype kind
  | .bytes => .bytes
  | .fixedBytes length => .fixedBytes length
  | .seq item => .seq (codecExpr lazy item)
  | .array item length => .array (codecExpr lazy item) length
  | .tuple items => .tuple (codecExprs lazy items)
  | .option inner => .option (codecExpr lazy inner)
  | .result ok err => .result (codecExpr lazy ok) (codecExpr lazy err)

/-- The codec expressions of several types. -/
def codecExprs (lazy : Bool) : List TypeExpr → List CodecExpr
  | [] => []
  | e :: rest => codecExpr lazy e :: codecExprs lazy rest

end

end TypeExpr

/-- The name of the codec of a primitive type. -/
def Primitive.codecName : Primitive → String
  | .bool => "scale.BOOL"
  | .char => "scale.CHAR"
  | .str => "scale.STR"
  | .unsigned w => "scale.U" ++ toString w.bits
  | .signed w => "scale.I" ++ toString w.bits

/-- The name of the codec of a thirty-two bytes type. -/
def Newtype.codecName : Newtype → String
  | .accountId => "scale.ACCOUNT_ID"
  | .hash => "scale.HASH"

/-- The integer size of a width. -/
def Width.size (w : Width) : IntSize :=
  ⟨w.bytes, by cases w <;> decide⟩

/-- The codec of a primitive type. -/
def Primitive.codec : Primitive → Codec
  | .bool => .bool
  | .char => .char
  | .str => .str
  | .unsigned w => .int w.size false
  | .signed w => .int w.size true

namespace CodecExpr

mutual

/-- The expression in writing. -/
def text : CodecExpr → String
  | .primitive kind => kind.codecName
  | .compact width => s!"scale.Compact({width.bits})"
  | .newtype kind => kind.codecName
  | .bytes => "scale.BYTES"
  | .fixedBytes length => s!"scale.FixedBytes({length})"
  | .seq item => "scale.Seq(" ++ text item ++ ")"
  | .array item length => "scale.Array(" ++ text item ++ s!", {length})"
  | .tuple [] => "scale.UNIT"
  | .tuple items => "scale.Tuple((" ++ ", ".intercalate (texts items) ++ ",))"
  | .option inner => "scale.Option(" ++ text inner ++ ")"
  | .result ok err => "scale.Result(" ++ text ok ++ ", " ++ text err ++ ")"
  | .ofClass name => name ++ ".CODEC"
  | .lateOfClass name => "scale.Ref(lambda: " ++ name ++ ".CODEC)"

/-- Several expressions in writing. -/
def texts : List CodecExpr → List String
  | [] => []
  | e :: rest => text e :: texts rest

end

mutual

/-- The codec of an expression, where `ofClass` gives the codec of a class that
is looked up at once. The first class without one is the error. -/
def eval {ε : Type} (ofClass : String → Except ε Codec) : CodecExpr → Except ε Codec
  | .primitive kind => .ok kind.codec
  | .compact width => .ok (.compact (some width.bits))
  | .newtype kind => .ok (.fixedBytes 32 (some kind))
  | .bytes => .ok .bytes
  | .fixedBytes length => .ok (.fixedBytes length none)
  | .seq item => (eval ofClass item).map .seq
  | .array item length => (eval ofClass item).map fun c => .array c length
  | .tuple items => (evalAll ofClass items).map .tuple
  | .option inner => (eval ofClass inner).map .option
  | .result ok err => do
    let ok ← eval ofClass ok
    let err ← eval ofClass err
    return .result ok err
  | .ofClass name => ofClass name
  | .lateOfClass name => .ok (.ref name)

/-- The codecs of several expressions. -/
def evalAll {ε : Type} (ofClass : String → Except ε Codec) : List CodecExpr → Except ε (List Codec)
  | [] => .ok []
  | e :: rest => do
    let c ← eval ofClass e
    let cs ← evalAll ofClass rest
    return c :: cs

end

end CodecExpr

end ContractClient
