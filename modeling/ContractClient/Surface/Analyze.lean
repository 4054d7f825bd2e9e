/-
The callable surface of a contract: its constructors, messages and events, each
looked at once.

Selectors are unique over constructors and messages together; names are unique
within each kind, so there is no overloading; arguments of one method and fields
of one event have different labels. The position of an event in the document is
its discriminant, which has to fit a byte.
-/
import ContractClient.Bytes.Utf8
import ContractClient.Registry.ResolveError
import ContractClient.Settings
import ContractClient.Surface.MethodName

set_option autoImplicit false

namespace ContractClient

/-- A constructor or message as it is called, with texts of any kind. -/
structure MethodDescriptor (τ : Type := String) where
  kind : MethodKind
  label : τ
  name : MethodName τ
  selector : Bytes
  args : List (τ × TypeId)
  returnType : Option TypeId
  mutates : Bool
  payable : Bool
  docs : List τ
  deriving DecidableEq, Repr

/-- A field of an event as it is decoded. -/
structure EventField where
  name : String
  typeId : TypeId
  indexed : Bool
  deriving DecidableEq, Repr

/-- An event as it is decoded. -/
structure EventDescriptor where
  name : String
  discriminant : Nat
  fields : List EventField
  docs : List String
  deriving DecidableEq, Repr

/-- Why constructors, messages or events cannot be told apart. -/
inductive SurfaceError (τ : Type := String)
  | badLabel (refusal : MethodName.Refusal τ)
  | declaredTwice (kind : MethodKind) (label : τ)
  /-- The text that is hashed for a selector holds surrogates, for which UTF-8
  has no bytes. -/
  | unencodable (run : SurrogateRun)
  | selectorCollision (selector : Bytes) (first second : τ)
  | duplicateArgument (kind : MethodKind) (method label : τ)
  | tooManyEvents (count : Nat)
  | eventTwice (position : Nat) (label : τ)
  | duplicateField (position : Nat) (event label : τ)
  deriving DecidableEq, Repr

/-- The class of the error. -/
def SurfaceError.kind {τ : Type} : SurfaceError τ → String
  | .unencodable _ => "UnicodeEncodeError"
  | .selectorCollision _ _ _ => "SelectorCollision"
  | _ => "SchemaError"

/-- The error in words. -/
def SurfaceError.message : SurfaceError → String
  | .badLabel refusal => refusal.message
  | .unencodable run => run.message
  | .declaredTwice kind label =>
    s!"SchemaError: {kind.word} {Text.literal label} is declared twice; overloading is not supported"
  | .selectorCollision selector first second =>
    s!"SelectorCollision: {Bytes.toHex0x selector} is shared by {Text.literal first} and {Text.literal second}"
  | .duplicateArgument kind method label =>
    s!"SchemaError: {kind.word} {method}: duplicate argument {Text.literal label}"
  | .tooManyEvents count =>
    s!"SchemaError: {count} events declared; at most 256 fit a u8 discriminant"
  | .eventTwice position label =>
    s!"SchemaError [spec/events/{position}/label]: event {Text.literal label} is declared twice"
  | .duplicateField position event label =>
    s!"SchemaError [spec/events/{position}/args]: event {event}: duplicate field {Text.literal label}"

/-! ## Selectors -/

section

variable {τ γ : Type} [DecidableEq τ] [DecidableEq γ] [Wording τ γ]

/-- The selector of a name: the first four bytes of the hash of its bytes. -/
def selectorOf (hash : HashFunction) (name : τ) : Except SurrogateRun Bytes :=
  (Wording.utf8 name).map fun bs => (hash bs).take 4

/-- The name that is hashed for the selector of a method, which is its label
unless it says otherwise. -/
def Method.hashedName (m : Method τ) : τ :=
  match m.selectorName with
  | none => m.label
  | some name =>
    match Wording.characters name with
    | [] => m.label
    | _ :: _ => name

/-- The selector that the name of a method gives. -/
def Method.computedSelector (hash : HashFunction) (m : Method τ) : Except SurrogateRun Bytes :=
  selectorOf hash m.hashedName

/-- The selector by which a method is called. The name is hashed in any case,
also for a selector that is declared. -/
def Method.effectiveSelector (hash : HashFunction) (policy : SelectorPolicy) (m : Method τ) :
    Except SurrogateRun Bytes := do
  let computed ← m.computedSelector hash
  match policy, m.selector with
  | .declared, some selector => return selector
  | _, _ => return computed

/-! ## Constructors and messages -/

/-- The first element that occurs among those before it. -/
def firstRepeated {α : Type} [BEq α] : List α → List α → Option α
  | _, [] => none
  | seen, x :: rest => if seen.contains x then some x else firstRepeated (x :: seen) rest

/-- Arguments with different labels. -/
def Method.arguments (kind : MethodKind) (m : Method τ) : Except (SurfaceError τ) (List (τ × TypeId)) :=
  match firstRepeated [] (m.args.map (·.label)) with
  | some label => .error (.duplicateArgument kind m.label label)
  | none => .ok (m.args.map fun a => (a.label, a.typeId))

/-- What was seen so far: the names of the kind at hand, and the selectors of
both kinds with their labels. -/
structure Seen (τ : Type := String) where
  names : List (MethodName τ) := []
  selectors : List (Bytes × τ) := []

/-- The descriptor of a method after those that were seen. -/
def Method.describe (hash : HashFunction) (policy : SelectorPolicy) (kind : MethodKind) (seen : Seen τ)
    (m : Method τ) : Except (SurfaceError τ) (MethodDescriptor τ) := do
  let name ← (MethodName.ofLabel m.label).mapError SurfaceError.badLabel
  if seen.names.contains name then .error (.declaredTwice kind m.label)
  else
    let selector ← (m.effectiveSelector hash policy).mapError SurfaceError.unencodable
    match seen.selectors.find? (·.1 == selector) with
    | some (_, first) => .error (.selectorCollision selector first m.label)
    | none =>
      let args ← m.arguments kind
      let mutates := match kind with
        | .constructor => true
        | .message => m.mutates
      return { kind, label := m.label, name, selector, args, returnType := m.returnType, mutates,
               payable := m.payable, docs := m.docs }

/-- What was seen after one more method. -/
def Seen.add (seen : Seen τ) (d : MethodDescriptor τ) : Seen τ :=
  { names := d.name :: seen.names, selectors := (d.selector, d.label) :: seen.selectors }

/-- The descriptors of the methods of one kind, and what was seen after them. -/
def describeAll (hash : HashFunction) (policy : SelectorPolicy) (kind : MethodKind) (seen : Seen τ) :
    List (Method τ) → Except (SurfaceError τ) (List (MethodDescriptor τ) × Seen τ)
  | [] => .ok ([], seen)
  | m :: rest => do
    let d ← m.describe hash policy kind seen
    let (ds, seen) ← describeAll hash policy kind (seen.add d) rest
    return (d :: ds, seen)

/-- The constructors and messages of a document, with texts of any kind. -/
structure Surface (τ : Type := String) where
  constructors : List (Method τ) := []
  messages : List (Method τ) := []
  deriving DecidableEq, Repr

/-- The descriptors of all constructors and messages. Names start afresh with
the messages; selectors do not. -/
def Surface.describe (hash : HashFunction) (policy : SelectorPolicy) (s : Surface τ) :
    Except (SurfaceError τ) (List (MethodDescriptor τ) × List (MethodDescriptor τ)) := do
  let (constructors, seen) ← describeAll hash policy .constructor {} s.constructors
  let (messages, _) ← describeAll hash policy .message { seen with names := [] } s.messages
  return (constructors, messages)

end

/-- The constructors and messages of a loaded document. -/
def Metadata.surface (m : Metadata) : Surface :=
  ⟨m.constructors, m.messages⟩

/-- The descriptors of the constructors and messages of a loaded document. -/
def Metadata.describeMethods (hash : HashFunction) (policy : SelectorPolicy) (m : Metadata) :
    Except SurfaceError (List MethodDescriptor × List MethodDescriptor) :=
  m.surface.describe hash policy

/-! ## Events -/

/-- The descriptor of the event at a position. -/
def Event.describe (position : Nat) (e : Event) : Except SurfaceError EventDescriptor :=
  match firstRepeated [] (e.args.map (·.label)) with
  | some label => .error (.duplicateField position e.label label)
  | none =>
    .ok
      { name := e.label, discriminant := position,
        fields := e.args.map fun a => ⟨a.label, a.typeId, a.indexed⟩, docs := e.docs }

/-- The descriptors of events from a position on, after events with the labels
in `seen`. -/
def describeEventsFrom (seen : List String) : Nat → List Event → Except SurfaceError (List EventDescriptor)
  | _, [] => .ok []
  | position, e :: rest =>
    if seen.contains e.label then .error (.eventTwice position e.label)
    else do
      let d ← e.describe position
      return d :: (← describeEventsFrom (e.label :: seen) (position + 1) rest)

/-- The descriptors of all events. -/
def Metadata.describeEvents (m : Metadata) : Except SurfaceError (List EventDescriptor) :=
  if 256 < m.events.length then .error (.tooManyEvents m.events.length)
  else describeEventsFrom [] 0 m.events

end ContractClient
