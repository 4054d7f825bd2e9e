/-
Docstrings.

The documentation of a contract is written into the client as string literals in
triple quotes. What would end such a literal early is escaped: a backslash, and
three quotes in a row. A quote at the very end would merge with the closing
ones, so a blank follows it. Line breaks of every kind become lines of the
client, and all but the first of those are indented.
-/
import ContractClient.Text.CharClass

set_option autoImplicit false

namespace ContractClient

namespace Docstring

/-- The text of documentation: its pieces without surrounding blanks, one below
the other. -/
def text (docs : List String) : String :=
  Text.strip ("\n".intercalate (docs.map Text.strip))

/-- A text between triple quotes: backslashes and runs of three quotes are
escaped. -/
def escape : List Char → List Char
  | [] => []
  | '\\' :: rest => '\\' :: '\\' :: escape rest
  | '"' :: '"' :: '"' :: rest => '\\' :: '"' :: '\\' :: '"' :: '\\' :: '"' :: escape rest
  | c :: rest => c :: escape rest

/-- A blank behind a text that ends in a quote. -/
def guardEnd (cs : List Char) : List Char :=
  if cs.getLast? == some '"' then cs ++ [' '] else cs

/-- The lines between the quotes. -/
def body (docs : List String) : List String :=
  (Text.linesOf (guardEnd (escape (text docs).toList))).map String.ofList

/-- A line behind an indent; an empty line has none. -/
def indented (indent line : String) : String :=
  if line.isEmpty then "" else indent ++ line

/-- **The docstring.** No lines if there is no documentation, one line if it
fits on one, and otherwise the lines with the closing quotes on a line of their
own. -/
def lines (indent : String) (docs : List String) : List String :=
  match body docs with
  | [] => []
  | [line] => [indent ++ "\"\"\"" ++ line ++ "\"\"\""]
  | first :: rest => (indent ++ "\"\"\"" ++ first) :: rest.map (indented indent) ++ [indent ++ "\"\"\""]

end Docstring

end ContractClient
