/-
Calling a client.

A method encodes its arguments, makes one call of the connection, and gives what
comes of it. Nothing is sent unless all arguments encode. What is sent is the
selector of the method's label, which is looked up in the table of the module,
and the encodings of the arguments in their order.

Codecs are looked up by the names of classes at the time of the call, among the
variables of the method first and in the module after them.
-/
import ContractClient.Client.Import
import ContractClient.Client.Transport
import ContractClient.Scale.Event

set_option autoImplicit false

namespace ContractClient

/-! ## Errors -/

/-- What a variable of a method holds. -/
inductive Held
  /-- Nothing yet. -/
  | nothing
  /-- An object of a type. -/
  | object (type : String)
  /-- A class. -/
  | cls (name : String)
  deriving DecidableEq, Repr

/-- Why a call has no result. -/
inductive CallError (ε : Type)
  /-- The module has no such member. -/
  | noMember (name : String)
  /-- The member is not what the module meant it to be. -/
  | notCallable (type : String)
  /-- A variable of the method stands for what was meant to be a class. -/
  | shadowed (name : String) (held : Held)
  /-- A class has no codec, or is not there. -/
  | lookup (error : ImportError)
  | encode (error : EncodeError)
  | decode (error : DecodeError)
  | newtype (error : NewtypeError)
  /-- The code is not the code of the module. -/
  | codeMismatch (expected : Bytes) (expectedLength : Nat) (got : Bytes) (gotLength : Nat)
  | transport (error : ε)

/-- The class of the error, given that of the errors of the connection. -/
def CallError.kind {ε : Type} (ofTransport : ε → String) : CallError ε → String
  | .noMember _ => "AttributeError"
  | .notCallable _ => "TypeError"
  | .shadowed _ .nothing => "UnboundLocalError"
  | .shadowed _ _ => "AttributeError"
  | .lookup error => error.kind
  | .encode error => error.kind
  | .decode error => error.kind
  | .newtype _ => "ValueError"
  | .codeMismatch _ _ _ _ => "CodeMismatch"
  | .transport error => ofTransport error

/-- The error in words, where the words are part of the answer, given those of
the connection. A name that means something else is an error of the language and
not of the client, and has no words of the client's. -/
def CallError.message? {ε : Type} (words : ε → String) : CallError ε → Option String
  | .noMember _ => none
  | .notCallable _ => none
  | .shadowed _ _ => none
  | .lookup error => error.message?
  | .encode error => error.message?
  | .decode error => error.message?
  | .newtype error => some error.message
  | .codeMismatch expected expectedLength got gotLength =>
    some (s!"CodeMismatch: expected {expectedLength} bytes hash={Bytes.toHex0x expected} " ++
      s!"got {gotLength} bytes hash={Bytes.toHex0x got}")
  | .transport error => some (words error)

/-! ## Scopes -/

/-- The variables of a method, by name. -/
abbrev Variables := List (String × Held)

/-- Where a method looks names up. -/
structure Scope where
  bindings : Bindings
  cls : String
  locals : Variables

/-- The codec of a class, as a method finds it. -/
def Scope.codecOf {ε : Type} (scope : Scope) (name : String) : Except (CallError ε) Codec :=
  let name := nameIn scope.cls name
  match scope.locals.find? (·.1 == name) with
  | some (_, held) => .error (.shadowed name held)
  | none => (scope.bindings.codecOf name).mapError .lookup

/-- The codec of a type, as a method finds it. -/
def Scope.codec {ε : Type} (scope : Scope) (type : TypeExpr) : Except (CallError ε) Codec :=
  (type.codecExpr false).eval scope.codecOf

namespace ClientMethod

/-- The variables that hold the arguments. -/
def argumentVariables (m : ClientMethod) (cls : String) (args : List Value) : Variables :=
  (m.parameters.zip args).map fun (p, v) => (nameIn cls p.name, .object v.typeName)

/-- The variables of a method when the data is made (`sent = false`) and after
it was sent. -/
def locals (m : ClientMethod) (cls : String) (args : List Value) (sent : Bool) : Variables :=
  let made : Held := if sent then .object "bytes" else .nothing
  let amount : Variables := if m.payable then [("value", .object "int")] else []
  match m.action with
  | .instantiate =>
    [("cls", .cls cls), ("conn", .object "SignedConnection"), ("salt", .object "bytes")] ++
      m.argumentVariables cls args ++ [("code_hash", .object "Hash")] ++ amount ++
      [("_data", made), ("_account_id", .nothing)]
  | .exec =>
    [("self", .object cls), ("conn", .object "SignedConnection")] ++ m.argumentVariables cls args ++ amount ++
      [("_data", made)]
  | .read none =>
    [("self", .object cls), ("conn", .object "Connection")] ++ m.argumentVariables cls args ++ amount ++
      [("_data", made)]
  | .read (some _) =>
    [("self", .object cls), ("conn", .object "Connection")] ++ m.argumentVariables cls args ++ amount ++
      [("_data", made), ("_raw", made)]

/-- The scope of a method. -/
def scope (m : ClientMethod) (b : Bindings) (cls : String) (args : List Value) (sent : Bool) : Scope :=
  ⟨b, cls, m.locals cls args sent⟩

end ClientMethod

/-! ## Calls -/

/-- The selector that the table of a module has for a label. Of several entries
the last counts. -/
def ClientModule.selector? (m : ClientModule) (label : String) : Option Bytes :=
  (m.selectors.reverse.find? (·.1 == label)).map (·.2)

/-- The codecs of the arguments of a method. -/
def ClientMethod.codecs {ε : Type} (f : ClientMethod) (scope : Scope) : Except (CallError ε) (List Codec) :=
  f.parameters.mapM fun p => scope.codec p.type

/-- **The data of a call**: the selector, and behind it the arguments in their
order. -/
def ClientModule.data {ε : Type} (m : ClientModule) (b : Bindings) (cls : String) (f : ClientMethod)
    (args : List Value) : Except (CallError ε) Bytes := do
  let codecs ← f.codecs (f.scope b cls args false)
  let encoded ← (Codec.encodeArgs b.environment (codecs.zip args)).mapError CallError.encode
  return (m.selector? f.label).getD [] ++ encoded

/-- What comes of a call. -/
inductive Outcome (τ : Type)
  | value (v : Value)
  | receipt (r : τ)
  /-- The handle of a contract. -/
  | handle (account : Bytes)

/-- What comes of a reply, as a method that reads finds it. -/
def Scope.outcome {τ ε : Type} (scope : Scope) (returns : Option TypeExpr) (reply : Bytes) :
    Except (CallError ε) (Outcome τ) :=
  match returns with
  | none => .ok (.value .noValue)
  | some type => do
    let c ← scope.codec type
    let v ← (c.decode scope.bindings.environment [] reply).mapError CallError.decode
    return .value v

section

variable {σ τ ε : Type} (T : Transport σ τ ε) (hash : HashFunction) (m : ClientModule) (b : Bindings)

/-- The amount that a method passes on. -/
def ClientMethod.passed (f : ClientMethod) (amount : Int) : Option Int :=
  if f.payable then some amount else none

/-- **Sending a message** to a contract. -/
def ClientModule.send (cls : String) (f : ClientMethod) (account : Bytes) (args : List Value) (amount : Int)
    (s : σ) : Except (CallError ε) (Outcome τ) × σ :=
  match m.data b cls f args with
  | .error e => (.error e, s)
  | .ok data =>
    match f.action with
    | .read returns =>
      let (answer, s) := T.read account data s
      match answer with
      | .error e => (.error (.transport e), s)
      | .ok reply => ((f.scope b cls args true).outcome returns reply, s)
    | _ =>
      let (answer, s) := T.exec account data (f.passed amount) s
      (answer.mapError .transport |>.map .receipt, s)

/-- **Creating a contract** with a constructor. -/
def ClientModule.create (f : ClientMethod) (codeHash salt : Bytes) (args : List Value) (amount : Int) (s : σ) :
    Except (CallError ε) (Outcome τ) × σ :=
  match m.data b m.handle f args with
  | .error e => (.error e, s)
  | .ok data =>
    let (answer, s) := T.instantiate codeHash salt data (f.passed amount) s
    match answer with
    | .error e => (.error (.transport e), s)
    | .ok account => ((Newtype.accountId.ofBytes account).mapError .newtype |>.map .handle, s)

/-- **Storing code**, which has to be the code that the module was generated
for. Code that is stored already counts as stored. -/
def ClientModule.uploadCode (codeHash : Bytes) (length : Nat) (code : Bytes) (s : σ) :
    Except (CallError ε) (Outcome τ) × σ :=
  if code.length ≠ length ∨ hash code ≠ codeHash then
    (.error (.codeMismatch codeHash length (hash code) code.length), s)
  else
    let (answer, s) := T.upload code codeHash s
    match answer with
    | .ok receipt => (.ok (.receipt receipt), s)
    | .error (.alreadyStored receipt) => (.ok (.receipt receipt), s)
    | .error (.failed e) => (.error (.transport e), s)

/-- The function that stores the code, if it is there once the module is
imported. -/
def ClientModule.upload? : Option (Bytes → σ → Except (CallError ε) (Outcome τ) × σ) :=
  match b.storesCode, m.codeHash, m.codeLength with
  | true, some codeHash, some length => some (uploadCode T hash codeHash length)
  | _, _, _ => none

end

end ContractClient
