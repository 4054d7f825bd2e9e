/-
What can be wrong with a metadata document.

A fault of the text itself has no place in the document. Every other fault has
one: the path of the value that is wrong, or of the member that is missing.
-/
import ContractClient.Bytes.Utf8
import ContractClient.Json.Reader
import ContractClient.Json.Schema
import ContractClient.Metadata.Basic

set_option autoImplicit false

namespace ContractClient

/-- What loading expects at a place. -/
inductive Expected
  | object
  | array
  | string
  | nonEmptyString
  | boolean
  | natural
  | typeId
  | optionalTypeId
  | hex
  deriving DecidableEq, Repr

/-- The expected value in words. -/
def Expected.words : Expected → String
  | .object => "object"
  | .array => "array"
  | .string => "string"
  | .nonEmptyString => "non-empty string"
  | .boolean => "boolean"
  | .natural => "non-negative integer"
  | .typeId => "type id"
  | .optionalTypeId => "type id or null"
  | .hex => "0x-prefixed hex string"

/-- What is wrong with a document. -/
inductive Defect
  /-- The bytes are no text. -/
  | notUtf8 (fault : Utf8.Fault)
  /-- The text is no JSON. -/
  | notJson (text : String) (error : Json.ReadError)
  /-- The text is JSON but no object. -/
  | notAnObject
  /-- The document is neither a text nor an object. -/
  | unsupportedInput (typeName : String)
  /-- The version is not the supported one. -/
  | unsupportedVersion (version : Json)
  /-- The document does not have the layout. -/
  | layout (complaint : Json.Complaint)
  /-- A value is of another kind. -/
  | expected (what : Expected)
  /-- A required member is missing. -/
  | missing (what : Expected)
  /-- Two entries have one number. -/
  | duplicateTypeId (id : TypeId)
  /-- A type definition is not an object with one member. -/
  | definitionForm
  /-- A type definition names no primitive type. -/
  | unknownPrimitive (body : Json)
  /-- A type definition is of the one kind that is known but not supported. -/
  | bitSequence
  /-- A type definition is of no known kind. -/
  | unknownKind (kind : String)
  /-- A text after `0x` is not made of digit pairs. -/
  | malformedHex (text : String)
  /-- A byte string has the wrong length. -/
  | wrongLength (needed given : Nat)
  /-- The declared hash is not the hash of the embedded code. -/
  | hashMismatch (declared computed : Bytes)

/-- A defect and, if it has one, its place. -/
structure LoadError where
  defect : Defect
  place : Option Json.Path := none

/-- The defect in words. -/
def Defect.message : Defect → String
  | .notUtf8 fault => "metadata is not UTF-8: " ++ fault.message
  | .notJson text error => "metadata JSON parse error: " ++ error.message text
  | .notAnObject => "metadata top-level must be an object"
  | .unsupportedInput typeName => "unsupported metadata input type: " ++ typeName
  | .unsupportedVersion version => s!"unsupported metadata version {version.literal}; supported: 4"
  | .layout complaint => "schema validation failed: " ++ complaint.message
  | .expected what => "expected " ++ what.words
  | .missing what => "missing required " ++ what.words
  | .duplicateTypeId id => s!"duplicate type id {id}"
  | .definitionForm => "type definition must be an object with exactly one kind"
  | .unknownPrimitive body => "unknown primitive " ++ body.literal
  | .bitSequence => "bit sequences are not supported"
  | .unknownKind kind => "unknown type definition kind " ++ Text.literal kind
  | .malformedHex text => "malformed hex " ++ Text.literal text
  | .wrongLength needed given => s!"expected {needed} bytes, got {given}"
  | .hashMismatch declared computed =>
    s!"source.hash {Bytes.toHex0x declared} does not match the hash of source.wasm {Bytes.toHex0x computed}"

/-- A message about a document, after the place that it is about. -/
def schemaErrorMessage (message : String) (place : Option String) : String :=
  match place with
  | some p => s!"SchemaError [{p}]: {message}"
  | none => s!"SchemaError: {message}"

/-- The error in words. A place at the root is not mentioned. -/
def LoadError.message (e : LoadError) : String :=
  let place := match e.place with
    | some (s :: rest) => some (Json.Path.text (s :: rest))
    | _ => none
  schemaErrorMessage e.defect.message place

end ContractClient
