/-
Writing JSON text in ASCII.

There are two layouts: on one line, with a blank after each comma and colon, and
indented by two blanks per level, with each item on a line of its own. An empty
array or object is two brackets in both.
-/
import ContractClient.Json.Value

set_option autoImplicit false

namespace ContractClient.Json

/-- A binary64 number as a token. -/
def numberText : Binary64 → String
  | .nan => "NaN"
  | .infinite negative => if negative then "-Infinity" else "Infinity"
  | x => x.text

mutual

/-- The value on one line. -/
def compact : Json → String
  | .null => "null"
  | .bool b => if b then "true" else "false"
  | .int n => toString n
  | .float x => numberText x
  | .str s => Text.jsonLiteral s
  | .arr items => "[" ++ ", ".intercalate (compactItems items) ++ "]"
  | .obj members => "\x7b" ++ ", ".intercalate (compactMembers members) ++ "\x7d"

/-- The items of an array, each on one line. -/
def compactItems : List Json → List String
  | [] => []
  | v :: rest => compact v :: compactItems rest

/-- The members of an object, each on one line. -/
def compactMembers : List (String × Json) → List String
  | [] => []
  | (k, v) :: rest => (Text.jsonLiteral k ++ ": " ++ compact v) :: compactMembers rest

end

/-- `parts` between brackets, one a line, inside a value that stands at `indent`
blanks. -/
def block (opening closing : String) (indent : Nat) (parts : List String) : String :=
  if parts.isEmpty then opening ++ closing
  else
    let inner := "\n" ++ String.ofList (List.replicate (indent + 2) ' ')
    let outer := "\n" ++ String.ofList (List.replicate indent ' ')
    opening ++ inner ++ ("," ++ inner).intercalate parts ++ outer ++ closing

mutual

/-- The value with one item a line, as it stands at `indent` blanks. -/
def indented (indent : Nat) : Json → String
  | .arr items => block "[" "]" indent (indentedItems (indent + 2) items)
  | .obj members => block "\x7b" "\x7d" indent (indentedMembers (indent + 2) members)
  | .null => "null"
  | .bool b => if b then "true" else "false"
  | .int n => toString n
  | .float x => numberText x
  | .str s => Text.jsonLiteral s

/-- The items of an array at `indent` blanks. -/
def indentedItems (indent : Nat) : List Json → List String
  | [] => []
  | v :: rest => indented indent v :: indentedItems indent rest

/-- The members of an object at `indent` blanks. -/
def indentedMembers (indent : Nat) : List (String × Json) → List String
  | [] => []
  | (k, v) :: rest => (Text.jsonLiteral k ++ ": " ++ indented indent v) :: indentedMembers indent rest

end

end ContractClient.Json
