/-
A client module: what is generated from a compiled contract.

The module is described by what it declares. Every type in it is spelled out and
every name is settled, so that printing the module and running it are two
readings of one description.
-/
import ContractClient.Client.Names
import ContractClient.Text.NormalForm

set_option autoImplicit false

namespace ContractClient

/-- A field of a generated class. -/
structure ClientField where
  name : String
  type : TypeExpr

/-- A generated class of records. -/
structure RecordClass where
  name : String
  docs : List String
  fields : List ClientField

/-- The class of an arm, and the name under which its variant offers it. Arms of
the event class also say which of their fields are indexed. -/
structure ArmClass where
  record : RecordClass
  offeredAs : String
  index : Nat
  indexed : List String := []

/-- A declared type. -/
inductive Declaration
  | composite (record : RecordClass)
  | variant (name : String) (docs : List String) (arms : List ArmClass)

/-- The class under whose name a type is declared. -/
def Declaration.name : Declaration → String
  | .composite record => record.name
  | .variant name _ _ => name

/-- A parameter of a generated method. -/
structure Parameter where
  name : String
  type : TypeExpr

/-- What a method asks of the connection. -/
inductive ClientAction
  /-- Creates a contract and gives its handle. -/
  | instantiate
  /-- Submits a message and gives what the connection answers. -/
  | exec
  /-- Reads, and gives the reply as a value of the type, or nothing if there is
  none. -/
  | read (returns : Option TypeExpr)

/-- A generated method. -/
structure ClientMethod where
  name : String
  label : String
  docs : List String
  parameters : List Parameter
  action : ClientAction
  payable : Bool

/-- The class of the messages of one interface. The handle offers it as a
property. -/
structure InterfaceClass where
  name : String
  interface : String
  accessor : String
  methods : List ClientMethod

/-- A client module. The name of the handle is the one that the settings give,
and need not be an ASCII word: `handle` is the name that this stands for. -/
structure ClientModule where
  contractName : String
  contractVersion : String
  runtimeModule : String
  writtenHandle : String
  handle : String
  codeHash : Option Bytes
  codeLength : Option Nat
  selectors : List (String × Bytes)
  declarations : List Declaration
  events : List ArmClass
  interfaces : List InterfaceClass
  constructors : List ClientMethod
  messages : List ClientMethod

/-! ## Building the module -/

section

variable (r : Registry) (names : ModuleNames)

/-- The fields of a class. -/
def clientFields (fields : List (Option String × TypeId)) : Except SpellError (List ClientField) :=
  ((fieldNames (fields.map (·.1))).zip (fields.map (·.2))).mapM fun (name, id) => do
    return { name, type := ← r.spell names.types id }

/-- The fields of a composite or an arm, as requests. -/
def Field.request (f : Field) : Option String × TypeId :=
  (f.name, f.typeId)

/-- The class of an arm of a variant. -/
def armClass (arm : Arm) (cls offeredAs : String) : Except SpellError ArmClass := do
  let fields ← clientFields r names (arm.fields.map Field.request)
  return { record := { name := cls, docs := arm.docs, fields }, offeredAs, index := arm.index }

/-- The declaration of a type, if it is a composite or a variant. -/
def declaration? (id : TypeId) (name : String) : Except SpellError (Option Declaration) :=
  match r.entry? id with
  | none => .ok none
  | some e =>
    match e.definition with
    | .composite fields => do
      let fields ← clientFields r names (fields.map Field.request)
      return some (.composite { name, docs := e.docs, fields })
    | .variant arms => do
      let attributes := armAttributes (arms.map (·.name))
      let classes ← (arms.zip ((names.armsOf id).zip attributes)).mapM fun (arm, cls, offeredAs) =>
        armClass r names arm cls offeredAs
      return some (.variant name e.docs classes)
    | _ => .ok none

/-- The declarations of a client, in the order of the registry. -/
def declarations : Except SpellError (List Declaration) := do
  let found ← r.declared.mapM fun id =>
    match names.types.find? id with
    | some name => declaration? r names id name
    | none => .ok none
  return found.filterMap fun d => d

/-- The class of an event. -/
def eventClass (e : EventDescriptor) (cls offeredAs : String) : Except SpellError ArmClass := do
  let fields ← clientFields r names (e.fields.map fun f => (some f.name, f.typeId))
  let indexed := (fields.zip e.fields).filterMap fun (field, f) => if f.indexed then some field.name else none
  return { record := { name := cls, docs := e.docs, fields }, offeredAs, index := e.discriminant, indexed }

/-- The classes of events. -/
def eventClasses (events : List EventDescriptor) : Except SpellError (List ArmClass) :=
  let attributes := armAttributes (events.map (·.name))
  (events.zip (names.events.zip attributes)).mapM fun (e, cls, offeredAs) => eventClass r names e cls offeredAs

/-- The names that no parameter takes: what the module binds for all methods to
use. -/
def parameterReserved (handle : String) : List String :=
  moduleReserved ++ names.types.map (·.2) ++ [handle]

/-- The parameters of a method. -/
def parameters (handle : String) (m : MethodDescriptor) : Except SpellError (List Parameter) :=
  let requests := m.args.map fun (label, _) => Identifier.ofArgument label
  ((distinctNames (parameterReserved names handle) requests).zip (m.args.map (·.2))).mapM fun (name, id) => do
    return { name, type := ← r.spell names.types id }

/-- What a method asks of the connection. The type of a reply is spelled out
only where one is decoded. -/
def clientAction (m : MethodDescriptor) : Except SpellError ClientAction :=
  match m.kind with
  | .constructor => .ok .instantiate
  | .message =>
    if m.mutates then .ok .exec
    else match m.returnType with
      | none => .ok (.read none)
      | some id => do return .read (some (← r.spell names.types id))

/-- The method of a constructor or message. -/
def clientMethod (handle : String) (m : MethodDescriptor) (name : String) : Except SpellError ClientMethod := do
  let parameters ← parameters r names handle m
  let action ← clientAction r names m
  return { name, label := m.label, docs := m.docs, parameters, action, payable := m.payable }

/-- The methods of several constructors or messages. -/
def clientMethods (handle : String) (ms : List MethodDescriptor) (methodNames : List String) :
    Except SpellError (List ClientMethod) :=
  (ms.zip methodNames).mapM fun (m, name) => clientMethod r names handle m name

end

namespace CompilationUnit

/-- The messages of an interface. -/
def messagesOf (u : CompilationUnit) (interface : String) : List MethodDescriptor :=
  u.messages.filter fun m => m.name.interface? == some interface

/-- The messages of the contract itself. -/
def ownMessages (u : CompilationUnit) : List MethodDescriptor :=
  u.messages.filter fun m => m.name.interface?.isNone

/-- The names that the handle has for itself. -/
def handleReserved : List String :=
  ["account_id", "from_address", "EVENT_TYPE"]

/-- The names that an interface has for itself. -/
def interfaceReserved : List String :=
  ["account_id"]

/-- The names of the handle's members: constructors, own messages and
interfaces. -/
def handleMembers (u : CompilationUnit) : List String × List String × List String :=
  let a := NameAllocator.reserving handleReserved
  let (constructors, a) := a.allocateAll (u.constructors.map fun m => Identifier.ofLabel m.name.base)
  let (messages, a) := a.allocateAll (u.ownMessages.map fun m => Identifier.ofLabel m.name.base)
  let (accessors, _) := a.allocateAll (u.interfaces.map Identifier.snake)
  (constructors, messages, accessors)

/-- The class of an interface. -/
def interfaceClass (u : CompilationUnit) (names : ModuleNames) (handle interface cls accessor : String) :
    Except SpellError InterfaceClass := do
  let ms := u.messagesOf interface
  let methodNames := distinctNames interfaceReserved (ms.map fun m => Identifier.ofLabel m.name.base)
  let methods ← clientMethods u.registry names handle ms methodNames
  return { name := cls, interface, accessor, methods }

/-- **The client of a unit.** Types are spelled out in the order in which the
module mentions them first, so of several types that cannot be spelled the first
one is reported. -/
def client (u : CompilationUnit) (runtimeModule handle : String) : Except SpellError ClientModule := do
  let names := u.moduleNames handle
  let (constructorNames, messageNames, accessors) := u.handleMembers
  let declarations ← declarations u.registry names
  let events ← eventClasses u.registry names u.events
  let interfaces ← (names.interfaces.zip accessors).mapM fun ((interface, cls), accessor) =>
    u.interfaceClass names handle interface cls accessor
  let constructors ← clientMethods u.registry names handle u.constructors constructorNames
  let messages ← clientMethods u.registry names handle u.ownMessages messageNames
  return {
    contractName := u.contractName
    contractVersion := u.contractVersion
    runtimeModule
    writtenHandle := handle
    handle := Text.normalForm handle
    codeHash := u.codeHash
    codeLength := u.bytecode.map (·.length)
    selectors := (u.constructors ++ u.messages).map fun m => (m.label, m.selector)
    declarations, events, interfaces, constructors, messages }

end CompilationUnit

end ContractClient
