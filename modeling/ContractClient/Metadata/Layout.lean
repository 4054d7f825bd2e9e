/-
The layout of a version-4 metadata document, as a schema.

The schema says which members an object must have and of which kind they are. It
is weaker than loading, which asks for the same things again in terms of the
model; its purpose is to name the most telling fault of a document that has
several.
-/
import ContractClient.Json.Schema
import ContractClient.Metadata.Basic

set_option autoImplicit false

namespace ContractClient.Layout

open Json

/-- A text without one final line feed. -/
def withoutFinalNewline (cs : List Char) : List Char :=
  match cs.reverse with
  | '\n' :: rest => rest.reverse
  | _ => cs

/-- Whether a text is `0x` and hexadecimal digits whose number satisfies
`count`. -/
def isHex (count : Nat → Bool) (cs : List Char) : Bool :=
  match withoutFinalNewline cs with
  | '0' :: x :: digits =>
    (x == 'x' || x == 'X') && digits.all (fun c => (Bytes.hexValue? c).isSome) && count digits.length
  | _ => false

/-- Byte strings in hexadecimal. -/
def hexPattern : Pattern :=
  ⟨"^0[xX]([0-9a-fA-F]\x7b2\x7d)*$", isHex fun n => n % 2 == 0⟩

/-- Four bytes in hexadecimal. -/
def selectorPattern : Pattern :=
  ⟨"^0[xX][0-9a-fA-F]\x7b8\x7d$", isHex fun n => n == 8⟩

/-- Values of one kind, subject to further keywords. -/
def ofKind (kind : Kind) (keywords : List Keyword) : Schema :=
  .ofKeywords (.kinds [kind] :: keywords)

/-- Strings. -/
def text : Schema := ofKind .string []

/-- Booleans. -/
def flag : Schema := ofKind .boolean []

/-- Strings that are not empty. -/
def label : Schema := ofKind .string [.nonEmptyString]

/-- Byte strings. -/
def hex : Schema := ofKind .string [.pattern hexPattern]

/-- Selectors. -/
def selector : Schema := ofKind .string [.pattern selectorPattern]

/-- Integers that are not negative. -/
def natural : Schema := ofKind .integer [.minimum 0]

/-- Arrays of one form. -/
def arrayOf (item : Schema) : Schema := ofKind .array [.items item]

/-- A schema that stands for another one. -/
def ref (schema : Schema) : Schema := .ofKeywords [.allOf [schema]]

/-- Type numbers. -/
def typeId : Schema := ref natural

/-- Documentation lines. -/
def docs : Schema := ref (arrayOf text)

/-- Strings or nothing. -/
def optionalText : Schema := .ofKeywords [.kinds [.string, .null]]

/-- References to types in signatures. -/
def typeRef : Schema :=
  ofKind .object [.required ["type"], .properties [("type", typeId), ("displayName", arrayOf text)]]

/-- Fields of composites and arms. -/
def field : Schema :=
  ofKind .object
    [.required ["type"],
      .properties [("name", optionalText), ("type", typeId), ("typeName", optionalText), ("docs", docs)]]

/-- Lists of fields. -/
def fields : Schema := ref (arrayOf (ref field))

/-- Arms of variants. -/
def arm : Schema :=
  ofKind .object
    [.required ["name", "index"],
      .properties
        [("name", ref label), ("index", ofKind .integer [.minimum 0, .maximum 255]), ("fields", fields),
          ("docs", docs)]]

/-- Definitions of types: objects with one member, whose key is the kind of the
definition. -/
def typeDef : Schema :=
  ofKind .object
    [.nonEmptyObject, .maxProperties 1,
      .properties
        [("primitive", .ofKeywords [.oneOfWords (Primitive.all.map Primitive.name)]),
          ("composite", ofKind .object [.properties [("fields", fields)]]),
          ("variant", ofKind .object [.properties [("variants", arrayOf arm)]]),
          ("sequence", ofKind .object [.required ["type"], .properties [("type", typeId)]]),
          ("array",
            ofKind .object [.required ["len", "type"], .properties [("len", natural), ("type", typeId)]]),
          ("tuple", arrayOf typeId),
          ("compact", ofKind .object [.required ["type"], .properties [("type", typeId)]])],
      .onlyKeys ["primitive", "composite", "variant", "sequence", "array", "tuple", "compact"]]

/-- Parameters of generic types. -/
def parameter : Schema :=
  ofKind .object
    [.required ["name"],
      .properties [("name", text), ("type", .ofKeywords [.kinds [.integer, .null], .minimum 0])]]

/-- Entries of the type registry. -/
def typeEntry : Schema :=
  ofKind .object
    [.required ["id", "type"],
      .properties
        [("id", typeId),
          ("type",
            ofKind .object
              [.required ["def"],
                .properties
                  [("def", ref typeDef), ("path", arrayOf text), ("params", arrayOf parameter),
                    ("docs", docs)]])]]

/-- Arguments of methods and fields of events. -/
def argument : Schema :=
  ofKind .object
    [.required ["label", "type"],
      .properties [("label", ref label), ("type", ref typeRef), ("indexed", flag), ("docs", docs)]]

/-- Constructors and messages. -/
def method : Schema :=
  ofKind .object
    [.required ["label", "args"],
      .properties
        [("label", ref label), ("selector", ref selector), ("selectorName", label),
          ("args", arrayOf (ref argument)),
          ("returnType", .ofKeywords [.oneOf [ofKind .null [], ref typeRef]]),
          ("mutates", flag), ("payable", flag), ("default", flag), ("docs", docs)]]

/-- Messages say whether they change the state. -/
def message : Schema :=
  .ofKeywords [.allOf [ref method, .ofKeywords [.required ["mutates"]]]]

/-- Events. -/
def event : Schema :=
  ofKind .object
    [.required ["label", "args"],
      .properties [("label", ref label), ("args", arrayOf (ref argument)), ("docs", docs)]]

/-- Documents. -/
def document : Schema :=
  ofKind .object
    [.required ["types", "spec"],
      .properties
        [("version", .ofKeywords [.oneOf [text, ofKind .integer []]]),
          ("source",
            ofKind .object
              [.properties [("hash", ref hex), ("wasm", ref hex), ("language", text), ("compiler", text)]]),
          ("contract",
            ofKind .object
              [.required ["name"],
                .properties [("name", label), ("version", text), ("authors", arrayOf text)]]),
          ("types", arrayOf (ref typeEntry)),
          ("spec",
            ofKind .object
              [.required ["constructors", "messages"],
                .properties
                  [("constructors", arrayOf (ref method)), ("messages", arrayOf message),
                    ("events", arrayOf (ref event)), ("docs", docs)]])]]

end ContractClient.Layout
