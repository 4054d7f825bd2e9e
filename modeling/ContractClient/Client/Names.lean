/-
The names of a generated module.

One allocator hands out all names at the top level, so they are different from
each other, from what every module binds, and from the handle: first the
declared types in the order of their numbers, then the arms of the variants
among them, then the events, then the interfaces. Names within a class are
handed out per class.
-/
import ContractClient.Client.Identifier
import ContractClient.Client.NameAllocator
import ContractClient.Client.TypeExpr
import ContractClient.Compile

set_option autoImplicit false

namespace ContractClient

/-- Serves groups of requests one after the other. -/
def NameAllocator.allocateGroups (a : NameAllocator) : List (List String) → List (List String) × NameAllocator
  | [] => ([], a)
  | group :: rest =>
    let (names, a) := a.allocateAll group
    let (groups, a) := a.allocateGroups rest
    (names :: groups, a)

/-- Different names that avoid the reserved ones, for as many requests. -/
def distinctNames (reserved requests : List String) : List String :=
  ((NameAllocator.reserving reserved).allocateAll requests).1

/-- What the name of a field is made from; a field without one is known by its
position. -/
def fieldRequest (position : Nat) (name : Option String) : String :=
  match name with
  | some name => if name.isEmpty then s!"f{position}" else Identifier.ofMember name
  | none => s!"f{position}"

/-- The names of the fields of a class. -/
def fieldNames (names : List (Option String)) : List String :=
  distinctNames memberReserved (names.mapIdx fieldRequest)

/-- The names under which a variant offers its arms. -/
def armAttributes (labels : List String) : List String :=
  distinctNames memberReserved (labels.map Identifier.ofMember)

/-- The names at the top level of a module. Those of arms are in the order of
the types, with none for a type that is no variant. -/
structure ModuleNames where
  types : TypeNames
  arms : List (TypeId × List String)
  events : List String
  interfaces : List (String × String)

/-- The class names of the arms of a type. -/
def ModuleNames.armsOf (names : ModuleNames) (id : TypeId) : List String :=
  ((names.arms.find? (·.1 == id)).map (·.2)).getD []

namespace Registry

/-- The types that a client declares: all that have a name of their own, apart
from the known shapes. -/
def declared (r : Registry) : List TypeId :=
  r.declarationOrder.filter fun id =>
    match r.entry? id with
    | some e => (r.wellKnown? e).isNone
    | none => false

/-- What the name of a declared type is made from: the end of its path, or its
number. -/
def typeRequest (r : Registry) (id : TypeId) : String :=
  match (r.entry? id).bind fun e => e.path.getLast? with
  | some segment => Identifier.ofClass segment
  | none => s!"Type{id}"

/-- What the names of the arms of a type are made from. -/
def armRequests (r : Registry) (id : TypeId) (name : String) : List String :=
  match r.definition? id with
  | some (.variant arms) => arms.map fun arm => name ++ "_" ++ Identifier.ofClass arm.name
  | _ => []

end Registry

/-- **The names of a unit's client**, whose handle has the given name. -/
def CompilationUnit.moduleNames (u : CompilationUnit) (handle : String) : ModuleNames :=
  let ids := u.registry.declared.mergeSort
  let a := NameAllocator.reserving (moduleReserved ++ [handle])
  let (typeNames, a) := a.allocateAll (ids.map u.registry.typeRequest)
  let types := ids.zip typeNames
  let (armNames, a) := a.allocateGroups (types.map fun (id, name) => u.registry.armRequests id name)
  let (eventNames, a) := a.allocateAll (u.events.map fun e => "Event_" ++ Identifier.ofClass e.name)
  let (classNames, _) := a.allocateAll (u.interfaces.map Identifier.ofClass)
  { types, arms := ids.zip armNames, events := eventNames, interfaces := u.interfaces.zip classNames }

end ContractClient
