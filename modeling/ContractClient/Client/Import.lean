/-
Importing a client module.

Importing executes the statements of a module in their order. Classes get bound,
variants offer their arms, codecs are wired, and the bodies of the classes with
methods run. Some of this depends on the names that a document brings along, and
the rules of Python decide what they then mean:

- a name in a class that opens with two underscores and does not end in two is private to the class and
  stands for a longer one;
- a field takes an attribute that its class has already for its default, and no field without a default
  may follow;
- a name in a class body means what the body bound before, then what the module bound, then the builtin;
- some names have a meaning for the module itself: a class that takes the name of the module or of the
  builtins hides them, and some attributes of a class cannot be set;
- some names have a meaning for the class itself, whatever its body binds to them.

What is left after an import is the environment of the wired codecs, and the
members of the handle as they came out.
-/
import ContractClient.Client.Statement
import ContractClient.Text.Quoted

set_option autoImplicit false

namespace ContractClient

/-! ## Private names -/

/-- Whether a name in a class is private to the class. -/
def isPrivate (name : String) : Bool :=
  name.startsWith "__" && !name.endsWith "__"

/-- What a name in a class stands for. A class whose name is all underscores has
no private names. -/
def nameIn (cls name : String) : String :=
  let stem := String.ofList (cls.toList.dropWhile (· == '_'))
  if isPrivate name && !stem.isEmpty then "_" ++ stem ++ name else name

/-! ## Classes -/

/-- The attributes that every class has. A field with one of these names has a
default. -/
def inheritedAttributes : List String :=
  ["mro", "__annotations__", "__base__", "__bases__", "__basicsize__", "__call__", "__class__",
    "__dataclass_params__", "__delattr__", "__dict__", "__dictoffset__", "__dir__", "__doc__", "__eq__",
    "__flags__", "__format__", "__ge__", "__getattribute__", "__getstate__", "__gt__", "__hash__", "__init__",
    "__init_subclass__", "__instancecheck__", "__itemsize__", "__le__", "__lt__", "__module__", "__mro__",
    "__name__", "__ne__", "__new__", "__or__", "__prepare__", "__qualname__", "__reduce__", "__reduce_ex__",
    "__repr__", "__ror__", "__setattr__", "__sizeof__", "__str__", "__subclasscheck__", "__subclasses__",
    "__subclasshook__", "__text_signature__", "__weakref__", "__weakrefoffset__"]

/-- Those among them that are no default, because they can change, with their
types. -/
def changeableAttributes : List (String × String) :=
  [("__annotations__", "dict"), ("__dict__", "mappingproxy")]

/-- The attributes that no instance is made with: two that every instance has
already and that cannot be assigned, and the name under which the method that
makes instances finds what it assigns with, which a parameter of the same name
hides. -/
def fixedAttributes : List String :=
  ["__class__", "__dataclass_builtins_object__", "__weakref__"]

/-- The attributes of a class that no class can be assigned to. -/
def unassignableAttributes : List String :=
  ["__base__", "__bases__", "__basicsize__", "__class__", "__dict__", "__dictoffset__", "__flags__",
    "__itemsize__", "__mro__", "__name__", "__qualname__", "__text_signature__", "__weakrefoffset__"]

/-- The names under which Python looks for what makes an instance, reads its
attributes and drops it. Where a class offers one of the classes below it under
such a name, that class is called in place of this, and no instance of any class
below it can be used. -/
def spoilingNames : List String :=
  ["__del__", "__getattribute__", "__new__"]

/-- A class that a module bound. Classes without a record of their own take no
arguments. -/
structure BoundClass where
  name : String
  isRecord : Bool
  attributes : List String
  deriving DecidableEq, Repr

/-- An attribute that no field gives: fields keep off the names that every class
has already. -/
def missingAttribute : String := "CODEC"

/-- A class of which no instance can be made. -/
def Shape.withoutInstances (s : Shape) : Shape :=
  { s with attributes := missingAttribute :: s.attributes }

/-- The class of records as others see it. -/
def RecordClass.shape (record : RecordClass) : Shape :=
  ⟨record.name, distinct (record.fields.map fun f => nameIn record.name f.name)⟩

/-! ## Errors -/

/-- Why a module cannot be imported. -/
inductive ImportError
  /-- The text has a null character. -/
  | nullCharacter
  /-- Two parameters of a method stand for one name. -/
  | duplicateParameter (name : String)
  /-- The name is `__debug__`, which nothing can be bound to. -/
  | debugName
  /-- A name is not bound. -/
  | undefinedName (name : String)
  /-- A class has no codec yet. -/
  | unwired (cls : String)
  /-- The arms of a variant make no codec. -/
  | badArms (error : Codec.EnumError)
  /-- A field has a default that can change. -/
  | changeableDefault (field type : String)
  /-- A field without a default follows one with a default. -/
  | defaultOrder (field : String)
  /-- A variant offers an arm as an attribute that cannot be assigned. -/
  | unassignable (cls name : String)
  /-- A class took the name of the module, so the fields of a class do not find
  the module. -/
  | moduleHidden
  /-- A class took the name of the builtins, so no builtin is found. -/
  | builtinsHidden
  /-- What stands for a decorator cannot be called. -/
  | notCallable (type : String)
  /-- What stands for a decorator is a class or a function that is not called
  with one argument. -/
  | wrongArguments (callable : String)
  /-- A class has a use of its own for the name of a member, and none for an
  object of this type. -/
  | badMember (cls name type : String)
  deriving DecidableEq, Repr

/-- The class of the error. A text that cannot be parsed is no program at all;
otherwise the class is that of the operation of the language that fails. -/
def ImportError.kind : ImportError → String
  | .nullCharacter => "SyntaxError"
  | .duplicateParameter _ => "SyntaxError"
  | .debugName => "SyntaxError"
  | .undefinedName _ => "NameError"
  | .unwired _ => "AttributeError"
  | .badArms _ => "ValueError"
  | .changeableDefault _ _ => "ValueError"
  | .unassignable _ name =>
    if ["__bases__", "__class__", "__name__", "__qualname__"].contains name then "TypeError" else "AttributeError"
  | .moduleHidden => "AttributeError"
  | .badMember _ name _ => if ["__annotations__", "__module__"].contains name then "AttributeError" else "TypeError"
  | _ => "TypeError"

/-- The error in words, where the words are part of the answer. Those that the
language has for a misuse of a class are not. -/
def ImportError.message? : ImportError → Option String
  | .badArms error => some error.message
  | .changeableDefault field type =>
    some s!"mutable default <class '{type}'> for field {field} is not allowed: use default_factory"
  | _ => none

/-! ## The state of an import -/

/-- What a class body bound to a name. -/
inductive Member
  /-- The event class. -/
  | constant
  /-- A constructor of the class. -/
  | classMethod
  /-- A method. It takes a connection besides the instance. -/
  | method
  /-- A property. -/
  | property
  /-- A record of a class of the module, made by mistake. -/
  | record (cls : String)
  deriving DecidableEq, Repr

/-- The type of the object. -/
def Member.typeName : Member → String
  | .constant => "type"
  | .classMethod => "classmethod"
  | .method => "function"
  | .property => "property"
  | .record cls => cls

/-- The members of a class, the latest first. -/
abbrev Members := List (String × Member)

/-- What an import has bound so far: classes, the members of those with methods,
the codecs that are wired, the classes below which no instance can be used, and
whether the function that stores the code is there. -/
structure Bindings where
  classes : List BoundClass := []
  bodies : List (String × Members) := []
  codecs : List (String × Codec) := []
  spoiled : List String := []
  storesCode : Bool := false

namespace Bindings

/-- The class of a name. -/
def class? (b : Bindings) (name : String) : Option BoundClass :=
  b.classes.find? (·.name == name)

/-- Refuses names that neither the runtime nor the module has bound. -/
def require (b : Bindings) (name : String) : Except ImportError Unit :=
  if importedNames.contains name || (b.class? name).isSome then .ok () else .error (.undefinedName name)

/-- Refuses a class with attributes when a class took the name of the module. -/
def requireModule (b : Bindings) (attributes : List String) : Except ImportError Unit :=
  if !attributes.isEmpty && (b.class? "__name__").isSome then .error .moduleHidden else .ok ()

/-- Binds a class. -/
def bind (b : Bindings) (cls : BoundClass) : Bindings :=
  { b with classes := cls :: b.classes }

/-- Wires the codec of a class. -/
def wire (b : Bindings) (name : String) (c : Codec) : Bindings :=
  { b with codecs := b.codecs ++ [(name, c)] }

/-- Offers a class as an attribute of the one above it. -/
def offer (b : Bindings) (base offeredAs : String) : Bindings :=
  if spoilingNames.contains offeredAs then { b with spoiled := base :: b.spoiled } else b

/-- The members of a class with methods. -/
def membersOf (b : Bindings) (cls : String) : Members :=
  ((b.bodies.find? (·.1 == cls)).map (·.2)).getD []

/-- The wired codecs. -/
def environment (b : Bindings) : Environment :=
  ⟨b.codecs⟩

/-- The codec of a class that has one already. -/
def codecOf (b : Bindings) (cls : String) : Except ImportError Codec := do
  b.require cls
  match b.environment.codec? cls with
  | some c => return c
  | none => .error (.unwired cls)

/-- The fields of a codec. -/
def fields (b : Bindings) (fields : List (String × CodecExpr)) : Except ImportError (List (String × Codec)) :=
  fields.mapM fun (name, e) => do return (name, ← e.eval b.codecOf)

/-- The shape of a class. No instance is made with a fixed attribute. -/
def shape (b : Bindings) (cls : String) : Except ImportError Shape :=
  match b.class? cls with
  | some c => .ok ⟨c.name, c.attributes.filter fun name => !fixedAttributes.contains name⟩
  | none => .error (.undefinedName cls)

/-- The shape of a class below another one. -/
def armShape (b : Bindings) (base cls : String) : Except ImportError Shape :=
  (b.shape cls).map fun shape => if b.spoiled.contains base then shape.withoutInstances else shape

end Bindings

/-! ## Classes of records -/

/-- The first field without a default behind one that has a default. -/
def misplacedField? (afterDefault : Bool) : List String → Option String
  | [] => none
  | name :: rest =>
    if inheritedAttributes.contains name then misplacedField? true rest
    else if afterDefault then some name
    else misplacedField? afterDefault rest

/-- What an instance is called while it is made, when a field has the name
`self`. -/
def instanceName : String := "__dataclass_self__"

/-- Accepts the attributes of a class of records. -/
def checkAttributes (attributes : List String) : Except ImportError Unit :=
  match attributes.findSome? fun name => changeableAttributes.find? (·.1 == name) with
  | some (name, type) => .error (.changeableDefault name type)
  | none =>
    match misplacedField? false attributes with
    | some name => .error (.defaultOrder name)
    | none =>
      if attributes.contains "self" && attributes.contains instanceName then
        .error (.duplicateParameter instanceName)
      else .ok ()

/-- Accepts the attribute under which a class offers another one. -/
def checkOffer (base offeredAs : String) : Except ImportError Unit :=
  if unassignableAttributes.contains offeredAs then .error (.unassignable base offeredAs) else .ok ()

/-! ## Members of classes -/

/-- The names that a class takes for its own making, in the order in which it
looks for them. -/
def creationNames : List String :=
  ["__slots__", "__qualname__", "__classcell__", "__annotations__", "__module__"]

/-- The names that a class whose instances do not change defines itself, and
that nothing else may define. -/
def frozenNames : List String :=
  ["__setattr__", "__delattr__"]

/-- The names that a class takes for making its instances and finding their
members. -/
def instanceNames : List String :=
  ["__new__", "__init__", "__post_init__", "__getattribute__"]

/-- The names that a class binds to something else once its body has been
executed. -/
def replacedNames : List String :=
  ["__abstractmethods__", "__dataclass_fields__", "__dataclass_params__"]

/-- The names under which a method belongs to the class and not to its
instances. -/
def classLevelNames : List String :=
  ["__class_getitem__", "__init_subclass__"]

/-- Refuses members under names that a class has a use of its own for. -/
def checkMembers (cls : String) (taken : List String) (members : Members) : Except ImportError Unit :=
  match taken.findSome? fun name => members.find? (·.1 == name) with
  | some (name, m) => .error (.badMember cls name m.typeName)
  | none => .ok ()

/-! ## Class bodies -/

/-- What a name means in a class body. -/
inductive Meaning
  /-- The builtin or the constant of the module that every module means by
  it. -/
  | intended
  /-- What the body bound before. -/
  | member (m : Member)
  /-- A class of the document. -/
  | cls (c : BoundClass)
  /-- Nothing, because the builtins are hidden. -/
  | hidden
  deriving DecidableEq, Repr

/-- The meaning of a name in a class body. -/
def meaningOf (b : Bindings) (members : Members) (name : String) : Meaning :=
  match members.find? (·.1 == name) with
  | some (_, m) => .member m
  | none =>
    match b.class? name with
    | some c => .cls c
    | none =>
      if moduleReserved.contains name || (b.class? "__builtins__").isNone then .intended else .hidden

/-- A class called with one argument. -/
def BoundClass.callWithOne (c : BoundClass) : Except ImportError Member :=
  match c.isRecord, c.attributes with
  | false, _ => .error (.wrongArguments c.name)
  | true, [] => .error (.wrongArguments c.name)
  | true, _ :: rest =>
    if rest.all (inheritedAttributes.contains ·) && !c.attributes.any (fixedAttributes.contains ·) then
      .ok (.record c.name)
    else
      .error (.wrongArguments c.name)

/-- What a decorator makes of a method, by what its name means: as intended, it
makes `made`. -/
def decorate (made : Member) : Meaning → Except ImportError Member
  | .intended => .ok made
  | .cls c => c.callWithOne
  | .hidden => .error .builtinsHidden
  | .member .constant => .error (.wrongArguments "Event")
  | .member .classMethod => .error (.notCallable "classmethod")
  | .member .property => .error (.notCallable "property")
  | .member (.record cls) => .error (.notCallable cls)
  | .member .method => .error (.wrongArguments "function")

/-- The names that a statement of a class body evaluates when it is executed. -/
def BodyStatement.evaluates : BodyStatement → List String
  | .account => []
  | .eventType => ["Event"]
  | .fromAddress _ => ["classmethod"]
  | .constructor _ defaultCode _ => "classmethod" :: if defaultCode then ["CODE_HASH"] else []
  | .message _ => []
  | .accessor _ _ => ["property"]

/-- The member that a statement binds in the body of a class, given what a name
means there. -/
def BodyStatement.bound (cls : String) (meaning : String → Meaning) :
    BodyStatement → Except ImportError (Option (String × Member))
  | .account => .ok none
  | .eventType => .ok (some ("EVENT_TYPE", .constant))
  | .fromAddress _ => do return some ("from_address", ← decorate .classMethod (meaning "classmethod"))
  | .constructor _ _ m => do return some (nameIn cls m.name, ← decorate .classMethod (meaning "classmethod"))
  | .message m => .ok (some (nameIn cls m.name, .method))
  | .accessor name _ => do return some (nameIn cls name, ← decorate .property (meaning "property"))

/-- Executes the body of a class. -/
def runBody (b : Bindings) (cls : String) : Members → List BodyStatement → Except ImportError Members
  | members, [] => .ok members
  | members, s :: rest => do
    match ← s.bound cls (meaningOf b members) with
    | some m => runBody b cls (m :: members) rest
    | none => runBody b cls members rest

/-! ## Statements -/

/-- Executes a statement. -/
def Statement.run (b : Bindings) : Statement → Except ImportError Bindings
  | .baseClass name parent _ => do
    b.require parent
    return b.bind ⟨name, false, []⟩
  | .recordClass record parent _ _ => do
    b.require parent
    b.requireModule record.shape.attributes
    checkAttributes record.shape.attributes
    return b.bind ⟨record.name, true, record.shape.attributes⟩
  | .offer base offeredAs cls => do
    b.require cls
    b.require base
    checkOffer base offeredAs
    return b.offer base offeredAs
  | .wireStruct name fields => do
    let shape ← b.shape name
    let fields ← b.fields fields
    return b.wire name (.struct shape fields)
  | .wireEnum name arms => do
    b.require name
    let arms ← arms.mapM fun (index, cls, fields) => do
      let shape ← b.armShape name cls
      let fields ← b.fields fields
      return ((index : Int), shape, fields)
    let c ← (Codec.enum? name arms).mapError .badArms
    return b.wire name c
  | .methodClass name _ body => do
    let members ← runBody b name [] body
    checkMembers name creationNames members
    b.requireModule ["account_id"]
    checkMembers name frozenNames members
    return { b.bind ⟨name, true, ["account_id"]⟩ with bodies := (name, members) :: b.bodies }
  | .upload => .ok { b with storesCode := true }

/-- Executes statements in their order. -/
def runStatements : Bindings → List Statement → Except ImportError Bindings
  | b, [] => .ok b
  | b, s :: rest => do runStatements (← s.run b) rest

namespace ClientModule

/-- The methods of a module with the classes they stand in. -/
def methods (m : ClientModule) : List (String × ClientMethod) :=
  m.interfaces.flatMap (fun i => i.methods.map fun f => (i.name, f)) ++
    (m.constructors ++ m.messages).map fun f => (m.handle, f)

/-- The first name that two parameters of a method stand for. -/
def duplicateParameter? (m : ClientModule) : Option String :=
  m.methods.findSome? fun (cls, f) => firstRepeated [] (f.parameters.map fun p => nameIn cls p.name)

/-- The names that the text of a module binds or assigns to. -/
def assignedNames (m : ClientModule) : List String :=
  let ofArm := fun (a : ArmClass) => a.record.name :: a.offeredAs :: a.record.fields.map (·.name)
  m.handle ::
    m.declarations.flatMap (fun
      | .composite record => record.name :: record.fields.map (·.name)
      | .variant name _ arms => name :: arms.flatMap ofArm) ++
    m.events.flatMap ofArm ++ m.interfaces.flatMap (fun i => [i.name, i.accessor]) ++
    m.methods.flatMap fun (_, f) => f.name :: f.parameters.map (·.name)

/-- The texts of the document that stand in the docstrings of a module. -/
def documentation (m : ClientModule) : List String :=
  let ofArm := fun (a : ArmClass) => a.record.docs
  [m.contractName, m.contractVersion] ++
    m.declarations.flatMap (fun
      | .composite record => record.docs
      | .variant _ docs arms => docs ++ arms.flatMap ofArm) ++
    m.events.flatMap ofArm ++ m.interfaces.map (·.interface) ++ m.methods.flatMap fun (_, f) => f.docs

/-- Why the text of a module is refused before any of it is executed. -/
def refusal? (m : ClientModule) : Option ImportError :=
  if m.documentation.any fun text => text.toList.contains '\x00' then some .nullCharacter
  else match m.duplicateParameter? with
    | some name => some (.duplicateParameter name)
    | none => if m.assignedNames.contains "__debug__" then some .debugName else none

/-- **Importing.** What a module has bound when all its statements have been
executed. -/
def run (m : ClientModule) : Except ImportError Bindings :=
  match m.refusal? with
  | some error => .error error
  | none => runStatements {} m.statements

end ClientModule

end ContractClient
