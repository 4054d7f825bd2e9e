/-
Sessions: a module that was imported, and a handle of one contract.

Members are found by the names that they have on the handle, private ones by the
longer names that they stand for; what a class has a use of its own for is not
found. The messages of an interface are found through the property that the
handle has for it, which makes an instance of a class on the account of the
handle.
-/
import ContractClient.Client.Call

set_option autoImplicit false

namespace ContractClient

/-- A module that was imported, and the contract that its handle is bound to. -/
structure Session where
  module : ClientModule
  bindings : Bindings
  account : Bytes

/-- Why there is no session. -/
inductive SessionError
  | importing (error : ImportError)
  | address (error : NewtypeError)
  /-- The method that makes handles is not what the module meant it to be. -/
  | notCallable (type : String)

/-- The class of the error. -/
def SessionError.kind : SessionError → String
  | .importing error => error.kind
  | .address _ => "ValueError"
  | .notCallable _ => "TypeError"

/-- The error in words, where the words are part of the answer. -/
def SessionError.message? : SessionError → Option String
  | .importing error => error.message?
  | .address error => some error.message
  | .notCallable _ => none

/-- A method, the class it stands in, and the contract it is called on. -/
structure FoundMethod where
  cls : String
  method : ClientMethod
  account : Bytes

/-- An instance of the class of an interface. -/
structure InterfaceView where
  interface : InterfaceClass
  account : Bytes

/-- The method that a class has under a name, unless the class has taken the
name; of several the last counts. -/
def findMethod? (cls : String) (taken : List String) (methods : List ClientMethod) (name : String) :
    Option ClientMethod :=
  if taken.contains name then none else methods.reverse.find? fun f => nameIn cls f.name == name

namespace ClientModule

/-- **Opening a session** for the contract at an address. -/
def openSession (m : ClientModule) (address : Except NewtypeError Bytes) : Except SessionError Session := do
  let b ← m.run.mapError .importing
  let members := b.membersOf m.handle
  match members.find? (·.1 == "from_address") with
  | some (_, .record cls) => .error (.notCallable cls)
  | _ =>
    let account ← address.mapError .address
    (checkMembers m.handle instanceNames members).mapError .importing
    return { module := m, bindings := b, account }

end ClientModule

namespace Session

/-- A member of the handle. -/
def member? (s : Session) (name : String) : Option Member :=
  ((s.bindings.membersOf s.module.handle).find? (·.1 == name)).map (·.2)

/-- A constructor of the handle. It is looked up on the class, which has
attributes of its own. -/
def constructor? {ε : Type} (s : Session) (name : String) : Except (CallError ε) ClientMethod :=
  let handle := s.module.handle
  match s.member? name, findMethod? handle (replacedNames ++ unassignableAttributes) s.module.constructors name with
  | some .classMethod, some f => .ok f
  | some (.record cls), _ => .error (.notCallable cls)
  | _, _ => .error (.noMember name)

/-- What a property makes of the class under a name, which it looks up when it
is used. -/
def view? {ε : Type} (s : Session) (name : String) : Except (CallError ε) InterfaceView :=
  match s.module.interfaces.find? (·.name == name) with
  | some i => do
    (checkMembers i.name instanceNames (s.bindings.membersOf i.name)).mapError .lookup
    return ⟨i, s.account⟩
  | none =>
    match s.bindings.class? name with
    | some c => do
      let _ ← c.callWithOne.mapError .lookup
      .error (.noMember name)
    | none => .error (.lookup (.undefinedName name))

/-- The interface that the handle has under a name; of several the last
counts. -/
def interface? {ε : Type} (s : Session) (accessor : String) : Except (CallError ε) InterfaceView :=
  let handle := s.module.handle
  if replacedNames.contains accessor then .error (.noMember accessor)
  else
    match s.member? accessor, s.module.interfaces.reverse.find? fun i => nameIn handle i.accessor == accessor with
    | some .property, some i => s.view? (nameIn handle i.name)
    | _, _ => .error (.noMember accessor)

/-- A message of the handle. -/
def message? {ε : Type} (s : Session) (name : String) : Except (CallError ε) FoundMethod :=
  let handle := s.module.handle
  match s.member? name, findMethod? handle (replacedNames ++ classLevelNames) s.module.messages name with
  | some .method, some f => .ok ⟨handle, f, s.account⟩
  | some .property, _ => do
    let view ← s.interface? name
    .error (.notCallable view.interface.name)
  | _, _ => .error (.noMember name)

/-- A message of an interface. -/
def interfaceMessage? {ε : Type} (s : Session) (accessor name : String) :
    Except (CallError ε) FoundMethod := do
  let view ← s.interface? accessor
  let i := view.interface
  match findMethod? i.name (replacedNames ++ classLevelNames) i.methods name with
  | some f => return ⟨i.name, f, view.account⟩
  | none => .error (.noMember name)

/-- The code that a constructor uses if none is given: the code of the module,
unless a constructor before it took the name of that constant. -/
def defaultCode? (s : Session) (f : ClientMethod) : Option Bytes :=
  let before := s.module.constructors.takeWhile fun g => g.name != f.name
  if before.any fun g => nameIn s.module.handle g.name == "CODE_HASH" then none else s.module.codeHash

/-- The codec of events. -/
def eventCodec (s : Session) : Codec :=
  (s.bindings.environment.codec? "Event").getD (.enum "Event" [])

/-- The events of the contract among those of a transaction, each decoded or
refused. -/
def events (s : Session) (emitted : List ContractEvent) : Except DecodeError (List (Except DecodeError Value)) :=
  s.eventCodec.eventsOf s.bindings.environment s.account emitted

end Session

end ContractClient
