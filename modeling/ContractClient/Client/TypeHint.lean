/-
Type hints: what a generated client says about values.
-/
import ContractClient.Client.TypeExpr

set_option autoImplicit false

namespace ContractClient

/-- A type hint. -/
inductive TypeHint
  | int
  | bool
  | str
  | bytes
  | newtype (kind : Newtype)
  | named (name : String)
  | list (item : TypeHint)
  /-- Tuples of any length with items of one type. -/
  | tupleOf (item : TypeHint)
  /-- Tuples with one item for each hint. -/
  | tuple (items : List TypeHint)
  | optional (inner : TypeHint)
  /-- Successes of one type or failures of another. -/
  | outcome (ok err : TypeHint)
  deriving Repr

/-- The hint of a primitive type: integers of all widths are integers, and
characters are texts. -/
def Primitive.hint : Primitive → TypeHint
  | .bool => .bool
  | .char => .str
  | .str => .str
  | .unsigned _ => .int
  | .signed _ => .int

namespace TypeExpr

mutual

/-- The hint of a type. -/
def hint : TypeExpr → TypeHint
  | .named name => .named name
  | .primitive kind => kind.hint
  | .compact _ => .int
  | .newtype kind => .newtype kind
  | .bytes => .bytes
  | .fixedBytes _ => .bytes
  | .seq item => .list (hint item)
  | .array item _ => .tupleOf (hint item)
  | .tuple items => .tuple (hints items)
  | .option inner => .optional (hint inner)
  | .result ok err => .outcome (hint ok) (hint err)

/-- The hints of several types. -/
def hints : List TypeExpr → List TypeHint
  | [] => []
  | e :: rest => hint e :: hints rest

end

end TypeExpr

namespace TypeHint

mutual

/-- The hint in writing. -/
def text : TypeHint → String
  | .int => "int"
  | .bool => "bool"
  | .str => "str"
  | .bytes => "bytes"
  | .newtype kind => kind.name
  | .named name => name
  | .list item => "List[" ++ text item ++ "]"
  | .tupleOf item => "Tuple[" ++ text item ++ ", ...]"
  | .tuple [] => "Tuple[()]"
  | .tuple items => "Tuple[" ++ ", ".intercalate (texts items) ++ "]"
  | .optional inner => "Optional[" ++ text inner ++ "]"
  | .outcome ok err => "Union[Ok[" ++ text ok ++ "], Err[" ++ text err ++ "]]"

/-- Several hints in writing. -/
def texts : List TypeHint → List String
  | [] => []
  | a :: rest => text a :: texts rest

end

end TypeHint

end ContractClient
