/-
Identifiers of a generated client, made from the labels of a document.

A label is any text; an identifier of the generated module is a non-empty word
of ASCII letters, digits and underscores that does not open with a digit and is
no keyword. Every function here ends in `identifier`, which repairs what is
wrong in a fixed order: other characters become underscores, an empty word
becomes `x`, a keyword gets an underscore behind it and a leading digit one in
front. The later repairs cannot undo the earlier ones, because a keyword has no
digit in front and no word that opens or ends with an added underscore is a
keyword.
-/
import ContractClient.Text.CharClass

set_option autoImplicit false

namespace ContractClient

/-- The words that Python keeps for itself. -/
def keywords : List String :=
  ["False", "None", "True", "and", "as", "assert", "async", "await", "break", "class", "continue", "def",
    "del", "elif", "else", "except", "finally", "for", "from", "global", "if", "import", "in", "is",
    "lambda", "nonlocal", "not", "or", "pass", "raise", "return", "try", "while", "with", "yield"]

/-- Whether `s` is a keyword. -/
def isKeyword (s : String) : Bool :=
  keywords.contains s

/-- The names that a generated module binds at its top level, by imports and
constants, and the builtins it uses. -/
def moduleReserved : List String :=
  ["annotations", "dataclass", "Any", "ClassVar", "List", "Optional", "Tuple", "Union", "scale", "AccountId",
    "Hash", "Ok", "Err", "NoValue", "NO_VALUE", "ScaleType", "Variant", "EventEnum", "Connection",
    "SignedConnection", "upload_code", "upload", "CODE_HASH", "CODE_LEN", "SELECTORS", "Event", "int", "bool",
    "str", "bytes", "type"]

/-- The attributes that every generated declaration inherits. -/
def memberReserved : List String :=
  ["encode", "decode", "decode_event", "CODEC", "INDEX", "INDEXED"]

/-- The parameter and variable names of the generated signatures and bodies. -/
def argumentReserved : List String :=
  ["conn", "salt", "value", "code_hash", "self", "cls", "_data", "_raw", "_account_id"]

namespace Identifier

/-- Characters outside the ASCII word characters become underscores. -/
def wordChar (c : Char) : Char :=
  if Text.isAsciiWord c then c else '_'

/-- An underscore behind `s` if `s` is one of `words`. -/
def avoid (words : List String) (s : String) : String :=
  if words.contains s then s ++ "_" else s

/-- An underscore in front of a word that opens with a digit. -/
def guardDigit (s : String) : String :=
  match s.toList with
  | c :: _ => if c.isDigit then "_" ++ s else s
  | [] => s

/-- The identifier of a label. -/
def ofLabel (s : String) : String :=
  let word := String.ofList ((Text.strip s).toList.map wordChar)
  guardDigit (avoid keywords (if word.isEmpty then "x" else word))

/-- Runs of underscores become one. -/
def collapse : List Char → List Char
  | '_' :: '_' :: rest => collapse ('_' :: rest)
  | c :: rest => c :: collapse rest
  | [] => []

/-- The characters of a label in snake case: small letters, an underscore where
a capital follows a small letter, and underscores for what is neither letter nor
number. -/
def snakeChars (afterLower : Bool) : List Char → List Char
  | [] => []
  | c :: rest =>
    if Text.isAlphanumeric c then
      (if Text.isUppercase c && afterLower then ['_'] else []) ++ Text.lowerChar c ++
        snakeChars (Text.isLowercase c) rest
    else '_' :: snakeChars false rest

/-- A list without the underscores at both ends. -/
def trimUnderscores (cs : List Char) : List Char :=
  ((cs.dropWhile (· == '_')).reverse.dropWhile (· == '_')).reverse

/-- The snake-case identifier of a label. -/
def snake (s : String) : String :=
  let word := trimUnderscores (collapse (snakeChars false s.toList))
  ofLabel (if word.isEmpty then "x" else String.ofList word)

/-- Double colons become underscores. -/
def joinPath : List Char → List Char
  | ':' :: ':' :: rest => '_' :: joinPath rest
  | c :: rest => c :: joinPath rest
  | [] => []

/-- The identifier of a class, from a path segment or an interface name. -/
def ofClass (s : String) : String :=
  ofLabel (String.ofList (collapse (joinPath s.toList)))

/-- The identifier of a field or an arm; none of the inherited attributes. -/
def ofMember (s : String) : String :=
  avoid memberReserved (ofLabel s)

/-- The identifier of a parameter; none of the names that the generated bodies
use. -/
def ofArgument (s : String) : String :=
  avoid argumentReserved (ofLabel s)

end Identifier

end ContractClient
