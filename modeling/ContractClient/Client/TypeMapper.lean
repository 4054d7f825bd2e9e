/-
The mapper of types, as it runs.

A mapper answers two questions about a type: what the hint for its values is,
and what expression its codec has. To answer, it goes down the definition of the
type and asks itself about the types that it meets, until it comes to a name or
a leaf. It keeps one stack of the types that it is inside of, for both
questions: a type is put on the stack before it is looked at and taken off it
afterwards, whether there is an answer by then or an error. A type that is on
the stack already is refused.

That is the only thing that stops a mapper. Whether it comes to an end is
nothing that its definition says, so the depth to which questions may be nested
is an argument, and where it does not do there is no answer.
-/
import ContractClient.Client.CodecExpr
import ContractClient.Client.TypeHint

set_option autoImplicit false

namespace ContractClient

/-- Why a mapper has no answer. -/
inductive MapError
  /-- The type is not in the registry. -/
  | missing (id : TypeId)
  /-- The type has to be declared and has no name. -/
  | undeclared (id : TypeId)
  /-- The type is not of the kind that it was taken for. -/
  | unexpected (id : TypeId)
  /-- The type is met again inside of itself. -/
  | recursive (id : TypeId) (cycle : List TypeId)
  deriving DecidableEq, Repr

/-! ## Looking types up -/

namespace Registry

variable (r : Registry)

/-- A type that has to be there. -/
def get (id : TypeId) : Except MapError Entry :=
  match r.entry? id with
  | some e => .ok e
  | none => .error (.missing id)

/-- Whether a type that has to be there is the byte. -/
def getIsByte (id : TypeId) : Except MapError Bool := do
  return (← r.get id).definition == .primitive (.unsigned .w8)

/-- Whether fields, whose types have to be there, are thirty-two bytes and
nothing else. -/
def getIsBytes32 (fields : List Field) : Except MapError Bool :=
  match fields with
  | [f] => do
    match (← r.get f.typeId).definition with
    | .array item 32 => r.getIsByte item
    | _ => return false
  | _ => return false

/-- The shape of a type that has to be there. -/
def getWellKnown (id : TypeId) : Except MapError (Option WellKnown) := do
  let e ← r.get id
  match e.definition with
  | .variant arms =>
    if e.path == ["Option"] && hasArms arms [("None", 0, 0), ("Some", 1, 1)] then return some .option
    else if e.path == ["Result"] && hasArms arms [("Ok", 0, 1), ("Err", 1, 1)] then return some .result
    else return none
  | .composite fields =>
    if 2 ≤ e.path.length && knownCrates.contains (e.path.headD "") then
      if e.path.getLast? = some "AccountId" then return if ← r.getIsBytes32 fields then some .accountId else none
      else if e.path.getLast? = some "Hash" then return if ← r.getIsBytes32 fields then some .hash else none
      else return none
    else return none
  | _ => return none

/-- The type in the arm with a name. -/
def getArm (id : TypeId) (name : String) : Except MapError TypeId := do
  match (← r.get id).definition.armType? name with
  | some inner => return inner
  | none => throw (.unexpected id)

end Registry

/-! ## What answers are made of -/

/-- The pieces of the answers to one question. -/
structure Fragments where
  named : String → String
  newtype : Newtype → String
  primitive : Primitive → String
  /-- The answer for a compact type, given the type that it wraps. -/
  compact : Registry → TypeId → Except MapError String
  bytes : String
  fixedBytes : Nat → String
  seq : String → String
  array : String → Nat → String
  tuple : List String → String
  option : String → String
  result : String → String → String

namespace Fragments

/-- Hints. A compact type is an integer whatever it wraps. -/
def hints : Fragments where
  named name := name
  newtype kind := kind.name
  primitive kind := kind.hint.text
  compact _ _ := .ok "int"
  bytes := "bytes"
  fixedBytes _ := "bytes"
  seq item := "List[" ++ item ++ "]"
  array item _ := "Tuple[" ++ item ++ ", ...]"
  tuple
    | [] => "Tuple[()]"
    | items => "Tuple[" ++ ", ".intercalate items ++ "]"
  option inner := "Optional[" ++ inner ++ "]"
  result ok err := "Union[Ok[" ++ ok ++ "], Err[" ++ err ++ "]]"

/-- The width of a primitive type in words. Types that are no integers have
none. -/
def widthText : Primitive → String
  | .unsigned w => toString w.bits
  | .signed w => toString w.bits
  | _ => "None"

/-- Codecs; if `lazy`, classes are looked up on first use. A compact type has to
wrap a primitive one. -/
def codecs (lazy : Bool) : Fragments where
  named name := if lazy then "scale.Ref(lambda: " ++ name ++ ".CODEC)" else name ++ ".CODEC"
  newtype kind := kind.codecName
  primitive kind := kind.codecName
  compact r inner := do
    match (← r.get inner).definition with
    | .primitive kind => return s!"scale.Compact({widthText kind})"
    | _ => throw (.unexpected inner)
  bytes := "scale.BYTES"
  fixedBytes length := s!"scale.FixedBytes({length})"
  seq item := "scale.Seq(" ++ item ++ ")"
  array item length := "scale.Array(" ++ item ++ s!", {length})"
  tuple
    | [] => "scale.UNIT"
    | items => "scale.Tuple((" ++ ", ".intercalate items ++ ",))"
  option inner := "scale.Option(" ++ inner ++ ")"
  result ok err := "scale.Result(" ++ ok ++ ", " ++ err ++ ")"

end Fragments

/-! ## Running -/

/-- What a mapper does: with the stack as it is, it comes to an answer or an
error, and to the stack as it is then; or questions are nested too deep. The
stack starts with the outermost type. -/
abbrev Mapping := ExceptT MapError (StateT (List TypeId) Option)

/-- Runs with a type on top of the stack, which is taken off again whatever
comes of it. -/
def guarded (id : TypeId) (run : Mapping String) : Mapping String := ExceptT.mk do
  let active ← get
  if active.contains id then return .error (.recursive id (active.dropWhile (· != id) ++ [id]))
  set (active ++ [id])
  let answer ← ExceptT.run run
  modify List.dropLast
  return answer

namespace Registry

variable (r : Registry) (names : TypeNames) (F : Fragments)

section

variable (ask : TypeId → Mapping String) (id : TypeId)

/-- The answer for a type without a name or a known shape, given its definition.
Other types are asked about. -/
def mapDefinition : TypeDef → Mapping String
  | .primitive kind => return F.primitive kind
  | .compact inner => F.compact r inner
  | .sequence item => do
    if ← r.getIsByte item then return F.bytes
    else return F.seq (← ask item)
  | .array item length => do
    if ← r.getIsByte item then return F.fixedBytes length
    else return F.array (← ask item) length
  | .tuple items => do return F.tuple (← items.mapM ask)
  | .composite _ => throw (.undeclared id)
  | .variant _ => throw (.undeclared id)

/-- The answer for a type without a name, given its shape. -/
def mapShape : Option WellKnown → Mapping String
  | some .option => do return F.option (← ask (← r.getArm id "Some"))
  | some .result => do
    let ok ← ask (← r.getArm id "Ok")
    let err ← ask (← r.getArm id "Err")
    return F.result ok err
  | some .accountId => return F.newtype .accountId
  | some .hash => return F.newtype .hash
  | none => do r.mapDefinition F ask id (← r.get id).definition

end

/-- **Mapping.** The answer for a type, if questions may be nested to the given
depth. -/
def mapType : (depth : Nat) → TypeId → Mapping String
  | 0, _ => liftM (none : Option String)
  | depth + 1, id => guarded id do
    match names.find? id with
    | some name => return F.named name
    | none => r.mapShape F (mapType depth) id (← r.getWellKnown id)

/-- The hint of a type. -/
def hint (depth : Nat) (id : TypeId) : Mapping String :=
  r.mapType names .hints depth id

/-- The codec expression of a type. -/
def codec (depth : Nat) (lazy : Bool) (id : TypeId) : Mapping String :=
  r.mapType names (.codecs lazy) depth id

end Registry

/-- A question to a mapper. -/
inductive MapRequest
  | hint (id : TypeId)
  | codec (lazy : Bool) (id : TypeId)

/-- The type that is asked about. -/
def MapRequest.id : MapRequest → TypeId
  | .hint id => id
  | .codec _ id => id

/-- What a mapper does about a question. -/
def MapRequest.run (r : Registry) (names : TypeNames) (depth : Nat) : MapRequest → Mapping String
  | .hint id => r.hint names depth id
  | .codec lazy id => r.codec names depth lazy id

/-- One mapper that is asked one question after another. Errors are kept, and
the next question is asked all the same. -/
def Registry.mapAll (r : Registry) (names : TypeNames) (depth : Nat) (requests : List MapRequest) :
    StateT (List TypeId) Option (List (Except MapError String)) :=
  requests.mapM fun request => ExceptT.run (request.run r names depth)

end ContractClient
