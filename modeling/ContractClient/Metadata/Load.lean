/-
Loading a metadata document.

Loading goes through a document in a fixed order and stops at the first defect:
first the version, then the layout if that is asked for, then the types, the
constructors, messages and events, the contract and at last the source. Each
step is told the place it works at, and a helper that takes a member out of an
object is told the object's place, so that a place is extended where, and only
where, the document is descended.
-/
import ContractClient.Metadata.Layout
import ContractClient.Metadata.LoadError

set_option autoImplicit false

namespace ContractClient

/-- A document as it is handed in: a JSON value, a text or a byte string. -/
inductive Document
  | value (v : Json)
  | text (s : String)
  | bytes (b : Bytes)

namespace Load

open Json (Path)

/-- The members of an object. -/
abbrev Members := List (String × Json)

/-- A defect at a place. -/
def fail {α : Type} (place : Path) (defect : Defect) : Except LoadError α :=
  .error ⟨defect, some place⟩

/-- The place of a member. -/
def memberOf (place : Path) (key : String) : Path :=
  place ++ [.key key]

/-- The place of an item. -/
def itemOf (place : Path) (i : Nat) : Path :=
  place ++ [.index i]

/-- The member under a key, where an absent member counts as null. -/
def get (members : Members) (key : String) : Json :=
  (Json.find? members key).getD .null

/-! ## Values of one kind -/

/-- An object. -/
def asObject (place : Path) : Json → Except LoadError Members
  | .obj members => .ok members
  | _ => fail place (.expected .object)

/-- An array, where null counts as the empty one. -/
def asArray (place : Path) : Json → Except LoadError (List Json)
  | .null => .ok []
  | .arr items => .ok items
  | _ => fail place (.expected .array)

/-- Items read one after the other, each at its place. -/
def each {α : Type} (place : Path) (read : Path → Json → Except LoadError α) (items : List Json) :
    Except LoadError (List α) :=
  items.zipIdx.mapM fun (item, i) => read (itemOf place i) item

/-- A string. -/
def asString (place : Path) : Json → Except LoadError String
  | .str s => .ok s
  | _ => fail place (.expected .string)

/-- A list of strings. -/
def strings (place : Path) (v : Json) : Except LoadError (List String) := do
  each place asString (← asArray place v)

/-- The bytes of a text in hexadecimal after `0x`. -/
def hex (place : Path) (v : Json) : Except LoadError Bytes :=
  match v with
  | .str s =>
    match Bytes.after0x? s with
    | some digits =>
      match Bytes.ofHex? digits with
      | some bytes => .ok bytes
      | none => fail place (.malformedHex s)
    | none => fail place (.expected .hex)
  | _ => fail place (.expected .hex)

/-- So many bytes of a text in hexadecimal. -/
def hexOfLength (length : Nat) (place : Path) (v : Json) : Except LoadError Bytes := do
  let bytes ← hex place v
  if bytes.length = length then return bytes
  else fail place (.wrongLength length bytes.length)

/-- A value that may be null. -/
def optional {α : Type} (read : Path → Json → Except LoadError α) (place : Path) (v : Json) :
    Except LoadError (Option α) :=
  match v with
  | .null => .ok none
  | v => some <$> read place v

/-! ## Members of an object -/

/-- A required member that is an object. -/
def objectMember (place : Path) (members : Members) (key : String) : Except LoadError Members :=
  match Json.find? members key with
  | some v => asObject (memberOf place key) v
  | none => fail (memberOf place key) (.missing .object)

/-- A required member that is an array. -/
def arrayMember (place : Path) (members : Members) (key : String) : Except LoadError (List Json) :=
  match Json.find? members key with
  | some v => asArray (memberOf place key) v
  | none => fail (memberOf place key) (.missing .array)

/-- A required member that is a string and not empty. -/
def stringMember (place : Path) (members : Members) (key : String) : Except LoadError String :=
  match get members key with
  | .null => fail (memberOf place key) (.missing .string)
  | .str s => if s.isEmpty then fail (memberOf place key) (.expected .nonEmptyString) else .ok s
  | _ => fail (memberOf place key) (.expected .nonEmptyString)

/-- A member that is a string, if it is there. -/
def optionalStringMember (place : Path) (members : Members) (key : String) :
    Except LoadError (Option String) :=
  optional asString (memberOf place key) (get members key)

/-- A required member that is a natural number. -/
def naturalMember (place : Path) (members : Members) (key : String) : Except LoadError Nat :=
  match get members key with
  | .int n => if 0 ≤ n then .ok n.toNat else fail (memberOf place key) (.expected .natural)
  | _ => fail (memberOf place key) (.expected .natural)

/-- A required member that is a boolean. -/
def booleanMember (place : Path) (members : Members) (key : String) : Except LoadError Bool :=
  match get members key with
  | .null => fail (memberOf place key) (.missing .boolean)
  | .bool b => .ok b
  | _ => fail (memberOf place key) (.expected .boolean)

/-- A member that is a boolean, false if it is not there. -/
def flagMember (place : Path) (members : Members) (key : String) : Except LoadError Bool :=
  match get members key with
  | .null => .ok false
  | .bool b => .ok b
  | _ => fail (memberOf place key) (.expected .boolean)

/-- A member that is a list of strings. -/
def stringsMember (place : Path) (members : Members) (key : String) : Except LoadError (List String) :=
  strings (memberOf place key) (get members key)

/-! ## Types -/

/-- A field of a composite or an arm. -/
def field (place : Path) (v : Json) : Except LoadError Field := do
  let f ← asObject place v
  let typeId ← naturalMember place f "type"
  let name ← optionalStringMember place f "name"
  let typeName ← optionalStringMember place f "typeName"
  let docs ← stringsMember place f "docs"
  return { typeId, name, typeName, docs }

/-- The fields under `fields`. -/
def fieldsMember (place : Path) (members : Members) : Except LoadError (List Field) := do
  let place := memberOf place "fields"
  each place field (← asArray place (get members "fields"))

/-- An arm of a variant. -/
def arm (place : Path) (v : Json) : Except LoadError Arm := do
  let a ← asObject place v
  let name ← stringMember place a "name"
  let index ← naturalMember place a "index"
  let fields ← fieldsMember place a
  let docs ← stringsMember place a "docs"
  return { name, index, fields, docs }

/-- A type number. -/
def typeNumber (place : Path) (v : Json) : Except LoadError TypeId :=
  match v with
  | .int n => if 0 ≤ n then .ok n.toNat else fail place (.expected .typeId)
  | _ => fail place (.expected .typeId)

/-- The definition of a type: the kind is the key of its only member. -/
def definition (place : Path) (v : Json) : Except LoadError TypeDef :=
  match v with
  | .obj [(kind, body)] =>
    let inside := memberOf place kind
    if kind == "primitive" then
      match body with
      | .str s =>
        match Primitive.ofName? s with
        | some p => .ok (.primitive p)
        | none => fail inside (.unknownPrimitive body)
      | _ => fail inside (.unknownPrimitive body)
    else if kind == "composite" then do
      let d ← asObject inside body
      return .composite (← fieldsMember inside d)
    else if kind == "variant" then do
      let d ← asObject inside body
      let place := memberOf inside "variants"
      return .variant (← each place arm (← asArray place (get d "variants")))
    else if kind == "sequence" then do
      let d ← asObject inside body
      return .sequence (← naturalMember inside d "type")
    else if kind == "array" then do
      let d ← asObject inside body
      let item ← naturalMember inside d "type"
      let length ← naturalMember inside d "len"
      return .array item length
    else if kind == "tuple" then do
      return .tuple (← each inside typeNumber (← asArray inside body))
    else if kind == "compact" then do
      let d ← asObject inside body
      return .compact (← naturalMember inside d "type")
    else if kind == "bitSequence" then fail inside .bitSequence
    else fail place (.unknownKind kind)
  | _ => fail place .definitionForm

/-- A parameter of a generic type. -/
def parameter (place : Path) (v : Json) : Except LoadError TypeParameter := do
  let p ← asObject place v
  let typeId ← match get p "type" with
    | .null => pure none
    | .int n => pure (some n)
    | _ => fail (memberOf place "type") (.expected .optionalTypeId)
  let name ← stringMember place p "name"
  return { name, typeId }

/-- The parameters under `params`; a member that is not there is an empty
list. -/
def parametersMember (place : Path) (members : Members) : Except LoadError (List TypeParameter) := do
  let place := memberOf place "params"
  each place parameter (← asArray place (get members "params"))

/-- An entry of the registry, after entries with the numbers in `taken`. -/
def entry (taken : List TypeId) (place : Path) (v : Json) : Except LoadError Entry := do
  let item ← asObject place v
  let id ← naturalMember place item "id"
  if taken.contains id then fail (memberOf place "id") (.duplicateTypeId id)
  else
    let ty ← objectMember place item "type"
    let place := memberOf place "type"
    let definition ← definition (memberOf place "def") (get ty "def")
    let parameters ← parametersMember place ty
    let path ← stringsMember place ty "path"
    let docs ← stringsMember place ty "docs"
    return { id, definition, path, parameters, docs }

/-- The entries from the item at `i` on, after entries with the numbers in
`taken`. -/
def entriesFrom (place : Path) (taken : List TypeId) : Nat → List Json → Except LoadError (List Entry)
  | _, [] => .ok []
  | i, v :: rest => do
    let e ← entry taken (itemOf place i) v
    return e :: (← entriesFrom place (e.id :: taken) (i + 1) rest)

/-! ## Signatures -/

/-- A reference to a type in a signature. -/
def typeRef (place : Path) (v : Json) : Except LoadError TypeId := do
  let ref ← asObject place v
  naturalMember place ref "type"

/-- An argument; only fields of events can be indexed. -/
def argument (ofEvent : Bool) (place : Path) (v : Json) : Except LoadError Argument := do
  let a ← asObject place v
  let indexed ← if ofEvent then flagMember place a "indexed" else pure false
  let label ← stringMember place a "label"
  let typeId ← typeRef (memberOf place "type") (get a "type")
  let docs ← stringsMember place a "docs"
  return { label, typeId, indexed, docs }

/-- The arguments under `args`. -/
def argumentsMember (ofEvent : Bool) (place : Path) (members : Members) :
    Except LoadError (List Argument) := do
  let place := memberOf place "args"
  each place (argument ofEvent) (← asArray place (get members "args"))

/-- A constructor or a message; constructors always change the state. -/
def method (isConstructor : Bool) (place : Path) (v : Json) : Except LoadError Method := do
  let m ← asObject place v
  let mutates ← if isConstructor then pure true else booleanMember place m "mutates"
  let label ← stringMember place m "label"
  let args ← argumentsMember false place m
  let returnType ← optional typeRef (memberOf place "returnType") (get m "returnType")
  let payable ← flagMember place m "payable"
  let selector ← optional (hexOfLength 4) (memberOf place "selector") (get m "selector")
  let selectorName ← optionalStringMember place m "selectorName"
  let docs ← stringsMember place m "docs"
  return { label, args, returnType, mutates, payable, selector, selectorName, docs }

/-- An event. -/
def event (place : Path) (v : Json) : Except LoadError Event := do
  let e ← asObject place v
  let label ← stringMember place e "label"
  let args ← argumentsMember true place e
  let docs ← stringsMember place e "docs"
  return { label, args, docs }

/-! ## Documents -/

/-- The hash and the code under `source`, which have to agree. -/
def source (hash : HashFunction) (place : Path) (v : Json) :
    Except LoadError (Option Bytes × Option Bytes) :=
  match v with
  | .null => .ok (none, none)
  | v => do
    let s ← asObject place v
    let declared ← optional (hexOfLength 32) (memberOf place "hash") (get s "hash")
    let wasm ← optional hex (memberOf place "wasm") (get s "wasm")
    match declared, wasm with
    | some declared, some wasm =>
      if hash wasm = declared then return (some declared, some wasm)
      else fail (memberOf place "hash") (.hashMismatch declared (hash wasm))
    | declared, wasm => return (declared, wasm)

/-- The version has to be 4, as a number or as a text. -/
def checkVersion (members : Members) : Except LoadError Unit :=
  let supported := match get members "version" with
    | .int n => n == 4
    | .str s => s == "4"
    | _ => false
  if supported then .ok () else fail [.key "version"] (.unsupportedVersion (get members "version"))

/-- The layout is the one of the schema. -/
def checkLayout (v : Json) : Except LoadError Unit :=
  match Layout.document.reported v with
  | none => .ok ()
  | some violation => fail violation.path (.layout violation.complaint)

/-- The model of a document that is an object. -/
def members (hash : HashFunction) (strict : Bool) (doc : Members) : Except LoadError Metadata := do
  checkVersion doc
  if strict then checkLayout (.obj doc)
  let types ← entriesFrom [.key "types"] [] 0 (← arrayMember [] doc "types")
  let spec ← objectMember [] doc "spec"
  let here : Path := [.key "spec"]
  let constructors ← each (memberOf here "constructors") (method true) (← arrayMember here spec "constructors")
  let messages ← each (memberOf here "messages") (method false) (← arrayMember here spec "messages")
  let events ← each (memberOf here "events") event (← asArray (memberOf here "events") (get spec "events"))
  let contract ← objectMember [] doc "contract"
  let contractName ← stringMember [.key "contract"] contract "name"
  let contractVersion ← optionalStringMember [.key "contract"] contract "version"
  let (sourceHash, wasm) ← source hash [.key "source"] (get doc "source")
  return { contractName, contractVersion := contractVersion.getD "", types, constructors, messages, events,
           sourceHash, wasm }

/-- The object that a text holds. -/
def ofText (s : String) : Except LoadError Members :=
  match Json.parse s with
  | .error e => .error ⟨.notJson s e, none⟩
  | .ok (.obj doc) => .ok doc
  | .ok _ => .error ⟨.notAnObject, none⟩

/-- The name of the type of a value that is no document. -/
def typeName : Json → String
  | .null => "NoneType"
  | .bool _ => "bool"
  | .int _ => "int"
  | .float _ => "float"
  | .str _ => "str"
  | .arr _ => "list"
  | .obj _ => "dict"

/-- The object that a document is. -/
def object : Document → Except LoadError Members
  | .value (.obj doc) => .ok doc
  | .value (.str s) => ofText s
  | .value v => .error ⟨.unsupportedInput (typeName v), none⟩
  | .text s => ofText s
  | .bytes b =>
    match Utf8.decode b with
    | .error fault => .error ⟨.notUtf8 fault, none⟩
    | .ok s => ofText s

end Load

/-- **Loading.** The model of a document, checked against the layout first if
`strict`. The given function is the one by which `source.hash` names
`source.wasm`. -/
def Document.load (hash : HashFunction) (strict : Bool) (document : Document) : Except LoadError Metadata := do
  Load.members hash strict (← Load.object document)

end ContractClient
