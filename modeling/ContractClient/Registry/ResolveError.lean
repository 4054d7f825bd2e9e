/-
What can be wrong with the types that a contract's signatures reach.

Every error names the type it is about. A reference to a type that is not there
is reported with the place that made it: a signature, in words that tell
constructors, messages and events apart, or another type.
-/
import ContractClient.Metadata.Basic
import ContractClient.Text.Quoted

set_option autoImplicit false

namespace ContractClient

/-- Whether a method creates contracts or is sent to them. -/
inductive MethodKind
  | constructor
  | message
  deriving DecidableEq, Repr

/-- The kind in a word. -/
def MethodKind.word : MethodKind → String
  | .constructor => "constructor"
  | .message => "message"

/-- A place that names a type. -/
inductive Referrer
  | argument (kind : MethodKind) (method label : String)
  | returnType (kind : MethodKind) (method : String)
  | eventField (event field : String)
  | type (id : TypeId)
  deriving DecidableEq, Repr

/-- The place in words. -/
def Referrer.words : Referrer → String
  | .argument kind method label => s!"{kind.word} {method} arg {label}"
  | .returnType kind method => s!"{kind.word} {method} return type"
  | .eventField event field => s!"event {event} field {field}"
  | .type id => s!"type {id}"

/-- What is wrong with the reachable types. -/
inductive ResolveError
  /-- A place names a type that is not there. -/
  | unresolved (id : TypeId) (referrer : Referrer)
  /-- A compact type wraps something else than an unsigned integer. -/
  | compactInner (id inner : TypeId)
  /-- An arm has an index that is no byte. -/
  | indexRange (id : TypeId) (arm : String) (index : Nat)
  /-- Two arms have one index. -/
  | indexReused (id : TypeId) (arm : String) (index : Nat) (first : String)
  /-- A type contains itself other than through a sequence or an array. The
  cycle begins and ends with it. -/
  | recursive (id : TypeId) (cycle : List TypeId)
  deriving DecidableEq, Repr

/-- What is reported of a type that contains itself. -/
def recursionMessage (id : TypeId) (cycle : List TypeId) : String :=
  let loop := " -> ".intercalate (cycle.map toString)
  s!"UnsupportedRecursiveType: type {id} is directly recursive ({loop})"

/-- The error in words. -/
def ResolveError.message : ResolveError → String
  | .unresolved id referrer =>
    s!"UnresolvedTypeReference: type id {id} referenced by {referrer.words} is not in the registry"
  | .compactInner id inner =>
    s!"SchemaError [types[id={id}]]: compact type {id} must wrap an unsigned integer, not type {inner}"
  | .indexRange id arm index =>
    s!"SchemaError [types[id={id}]]: variant type {id}: {Text.literal arm} has index {index}, outside 0..255"
  | .indexReused id arm index first =>
    s!"SchemaError [types[id={id}]]: variant type {id}: {Text.literal arm} reuses index {index} of {Text.literal first}"
  | .recursive id cycle => recursionMessage id cycle

end ContractClient
