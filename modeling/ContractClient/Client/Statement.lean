/-
The statements of a client module.

A module is a list of blocks, and a block a list of statements. Classes come
first, each on its own; then the codecs of all declared types are wired, when
every class has a name already; then come the events, the interfaces and the
handle. Classes with methods have a body, which is a list of statements of its
own.
-/
import ContractClient.Client.CodecExpr
import ContractClient.Client.Docstring
import ContractClient.Client.Module

set_option autoImplicit false

namespace ContractClient

/-- A statement in the body of a class with methods. -/
inductive BodyStatement
  /-- The account of the contract, the one field of the class. -/
  | account
  /-- The event class, as a constant. -/
  | eventType
  /-- The method that makes a handle from an address. -/
  | fromAddress (handle : String)
  /-- A constructor; `defaultCode` says whether the code of the module stands in
  for a code that is not given. -/
  | constructor (handle : String) (defaultCode : Bool) (method : ClientMethod)
  | message (method : ClientMethod)
  /-- The property that makes an interface from the handle. -/
  | accessor (name cls : String)

/-- A statement at the top level of a module. -/
inductive Statement
  /-- A class without fields, for others to stand below. -/
  | baseClass (name parent : String) (docs : List String)
  /-- A class of records; those of arms have an index. -/
  | recordClass (record : RecordClass) (parent : String) (index : Option Nat) (indexed : List String)
  /-- An arm as an attribute of its variant. -/
  | offer (base offeredAs cls : String)
  /-- The codec of a class of records. -/
  | wireStruct (name : String) (fields : List (String × CodecExpr))
  /-- The codec of a variant. -/
  | wireEnum (name : String) (arms : List (Nat × String × List (String × CodecExpr)))
  /-- A class with methods, with the lines above its body: how its name is
  written, and its docstring. -/
  | methodClass (name : String) (opening : List String) (body : List BodyStatement)
  /-- The function that stores the code. -/
  | upload

/-- What every module imports from the runtime. -/
def importedNames : List String :=
  ["NO_VALUE", "AccountId", "Connection", "Err", "EventEnum", "Hash", "NoValue", "Ok", "ScaleType",
    "SignedConnection", "Variant", "scale"]

/-! ## Declared types and events -/

/-- The fields of a class with their codecs. Other classes are looked up on
first use. -/
def fieldCodecs (fields : List ClientField) : List (String × CodecExpr) :=
  fields.map fun f => (f.name, f.type.codecExpr true)

namespace ArmClass

/-- The class of an arm below its variant. -/
def declare (base : String) (arm : ArmClass) : Statement :=
  .recordClass arm.record base (some arm.index) arm.indexed

/-- The offer of an arm. -/
def offer (base : String) (arm : ArmClass) : Statement :=
  .offer base arm.offeredAs arm.record.name

/-- An arm in the codec of its variant. -/
def wire (arm : ArmClass) : Nat × String × List (String × CodecExpr) :=
  (arm.index, arm.record.name, fieldCodecs arm.record.fields)

end ArmClass

namespace Declaration

/-- The classes of a declared type. -/
def classes : Declaration → List (List Statement)
  | .composite record => [[.recordClass record "ScaleType" none []]]
  | .variant name docs arms =>
    [.baseClass name "Variant" docs] :: arms.map (fun arm => [arm.declare name]) ++
      [arms.map (ArmClass.offer name)]

/-- The codec of a declared type. -/
def wire : Declaration → Statement
  | .composite record => .wireStruct record.name (fieldCodecs record.fields)
  | .variant name _ arms => .wireEnum name (arms.map ArmClass.wire)

end Declaration

namespace ClientModule

/-- The name and version of the contract. -/
def title (m : ClientModule) : String :=
  if m.contractVersion.isEmpty then m.contractName else m.contractName ++ " " ++ m.contractVersion

/-- The codecs of all declared types, in one block. -/
def wiring (m : ClientModule) : List (List Statement) :=
  if m.declarations.isEmpty then [] else [m.declarations.map Declaration.wire]

/-- The event class with its arms. Without events it stands alone, and no value
is an event. -/
def eventBlocks (m : ClientModule) : List (List Statement) :=
  [.baseClass "Event" "EventEnum" ["Events emitted by the contract, keyed by discriminant."]] ::
    m.events.map (fun e => [e.declare "Event"]) ++
    [m.events.map (ArmClass.offer "Event") ++ [.wireEnum "Event" (m.events.map ArmClass.wire)]]

/-! ## Interfaces and the handle -/

/-- The line that opens a class with methods. -/
def classLine (written : String) : String :=
  "class " ++ written ++ ":"

/-- The class of an interface. -/
def interfaceStatement (i : InterfaceClass) : Statement :=
  .methodClass i.name [classLine i.name, "    \"\"\"Messages of the " ++ i.interface ++ " interface.\"\"\""]
    (.account :: i.methods.map .message)

/-- The class of the handle. -/
def handleStatement (m : ClientModule) : Statement :=
  .methodClass m.handle
    (classLine m.writtenHandle :: Docstring.lines "    " ["Handle to a deployed " ++ m.title ++ " contract."])
    ([.account, .eventType, .fromAddress m.writtenHandle] ++
      m.constructors.map (.constructor m.writtenHandle m.codeHash.isSome) ++
      m.messages.map .message ++
      m.interfaces.map fun i => .accessor i.accessor i.name)

/-- **The blocks of a module**, below its imports and constants. -/
def blocks (m : ClientModule) : List (List Statement) :=
  m.declarations.flatMap Declaration.classes ++ m.wiring ++ m.eventBlocks ++
    m.interfaces.map (fun i => [interfaceStatement i]) ++ [[m.handleStatement]] ++
    (if m.codeLength.isSome then [[.upload]] else [])

/-- The statements of a module in their order. -/
def statements (m : ClientModule) : List Statement :=
  m.blocks.flatten

end ClientModule

end ContractClient
