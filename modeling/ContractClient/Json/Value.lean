/-
JSON values.

Objects keep the order of their keys, because messages show them. Integers and
binary64 numbers are kept apart: a number is an integer when its token has
neither a point nor an exponent.
-/
import ContractClient.Decimal.Shortest
import ContractClient.Text.Quoted

set_option autoImplicit false

namespace ContractClient

/-- A JSON value. -/
inductive Json
  | null
  | bool (b : Bool)
  | int (n : Int)
  | float (x : Binary64)
  | str (s : String)
  | arr (items : List Json)
  | obj (members : List (String × Json))
  deriving Inhabited

namespace Json

/-- The member under `key`. -/
def find? (members : List (String × Json)) (key : String) : Option Json :=
  (members.find? (·.1 == key)).map (·.2)

/-- The members with `key` bound to `v`: in place if the key is there, at
the end otherwise. -/
def insert (members : List (String × Json)) (key : String) (v : Json) : List (String × Json) :=
  if members.any (·.1 == key) then members.map fun m => if m.1 == key then (key, v) else m
  else members ++ [(key, v)]

/-- Members read one after the other: of several with one key the last value
stands, at the place of the first. -/
def ofMembers (members : List (String × Json)) : List (String × Json) :=
  members.foldl (fun acc m => insert acc m.1 m.2) []

/-- A boolean as a word. -/
def boolWord (b : Bool) : String :=
  if b then "True" else "False"

mutual

/-- The value as messages show it. -/
def literal : Json → String
  | .null => "None"
  | .bool b => boolWord b
  | .int n => toString n
  | .float x => x.text
  | .str s => Text.literal s
  | .arr items => "[" ++ ", ".intercalate (itemLiterals items) ++ "]"
  | .obj members => "\x7b" ++ ", ".intercalate (memberLiterals members) ++ "\x7d"

/-- The values of an array as messages show them. -/
def itemLiterals : List Json → List String
  | [] => []
  | v :: rest => literal v :: itemLiterals rest

/-- The members of an object as messages show them. -/
def memberLiterals : List (String × Json) → List String
  | [] => []
  | (k, v) :: rest => (Text.literal k ++ ": " ++ literal v) :: memberLiterals rest

end

end Json

end ContractClient
