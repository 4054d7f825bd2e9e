/-
The character classes that the library's formats speak of.

Each class is an ASCII rule and, above ASCII, a table. The rule comes first so
that statements about ASCII text never open a table. Two case maps stand here as
well. They are only ever used to compare with ASCII words or to build ASCII
identifiers, so they are the maps into ASCII: a character whose lower or upper
form has no ASCII letter stays as it is.
-/
import ContractClient.Text.CharTable

set_option autoImplicit false

namespace ContractClient.Text

/-- A class given by `ascii` below `0x80` and by a table of change points from
there on. -/
def inClass (ascii : Char → Bool) (points : List Nat) (c : Char) : Bool :=
  if c.toNat < 0x80 then ascii c else CharTable.holdsAt points c.toNat

/-- Characters shown as they are inside a quoted literal. -/
def isPrintable : Char → Bool :=
  inClass (fun c => 0x20 ≤ c.toNat && c.toNat < 0x7f) CharTable.printable

/-- Letters and numbers. -/
def isAlphanumeric : Char → Bool :=
  inClass Char.isAlphanum CharTable.alphanumeric

/-- Upper-case letters. -/
def isUppercase : Char → Bool :=
  inClass Char.isUpper CharTable.uppercase

/-- Lower-case letters. -/
def isLowercase : Char → Bool :=
  inClass Char.isLower CharTable.lowercase

/-- Characters that may open an identifier. -/
def isIdentifierStart : Char → Bool :=
  inClass (fun c => c.isAlpha || c == '_') CharTable.identifierStart

/-- Characters that may stand inside an identifier. -/
def isIdentifierContinue : Char → Bool :=
  inClass (fun c => c.isAlphanum || c == '_') CharTable.identifierContinue

/-- Letters, digits and the underscore, in ASCII. -/
def isAsciiWord (c : Char) : Bool :=
  c.isAlphanum || c == '_'

/-- The blanks that `strip` removes: the ASCII controls that separate, and the
space separators. -/
def isBlank (c : Char) : Bool :=
  let n := c.toNat
  (0x09 ≤ n && n ≤ 0x0d) || (0x1c ≤ n && n ≤ 0x20) || n == 0x85 || n == 0xa0 || n == 0x1680 ||
    (0x2000 ≤ n && n ≤ 0x200a) || n == 0x2028 || n == 0x2029 || n == 0x202f || n == 0x205f || n == 0x3000

/-- The characters that end a line. A carriage return and the line feed after
it end one line together. -/
def isLineBreak (c : Char) : Bool :=
  let n := c.toNat
  (0x0a ≤ n && n ≤ 0x0d) || (0x1c ≤ n && n ≤ 0x1e) || n == 0x85 || n == 0x2028 || n == 0x2029

/-- Lower case, as far as it leads into ASCII. Beyond ASCII these are the Kelvin
sign and the dotted capital I, whose lower form is an `i` followed by a
combining dot. -/
def lowerChar (c : Char) : List Char :=
  if c == '\u212a' then ['k']
  else if c == '\u0130' then ['i', '\u0307']
  else [c.toLower]

/-- Upper case, as far as it leads to one ASCII letter. Beyond ASCII these are
the dotless i and the long s. -/
def upperChar (c : Char) : Char :=
  if c == '\u0131' then 'I'
  else if c == '\u017f' then 'S'
  else c.toUpper

/-- Whether `s` is an identifier: an opening character and then continuing
ones. -/
def isIdentifier (s : String) : Bool :=
  match s.toList with
  | [] => false
  | c :: cs => isIdentifierStart c && cs.all isIdentifierContinue

/-- `s` without the blanks at both ends. -/
def strip (s : String) : String :=
  String.ofList ((s.toList.dropWhile isBlank).reverse.dropWhile isBlank).reverse

/-- `s` in lower case, character by character. -/
def lower (s : String) : String :=
  String.ofList (s.toList.flatMap lowerChar)

/-- `s` in upper case, character by character. -/
def upper (s : String) : String :=
  String.ofList (s.toList.map upperChar)

/-- The lines of a text: what stands between the line breaks, where a break at
the very end opens no further line. -/
def linesOf : List Char → List (List Char)
  | [] => []
  | '\r' :: '\n' :: rest => [] :: linesOf rest
  | c :: rest =>
    if isLineBreak c then [] :: linesOf rest
    else match linesOf rest with
      | [] => [[c]]
      | line :: lines => (c :: line) :: lines

/-- The parts of a text between the occurrences of `separator`; there is always
one more part than there are separators. -/
def splitAt (separator : Char) : List Char → List (List Char)
  | [] => [[]]
  | c :: rest =>
    match splitAt separator rest with
    | [] => [[c]]
    | part :: parts => if c == separator then [] :: part :: parts else (c :: part) :: parts

end ContractClient.Text
