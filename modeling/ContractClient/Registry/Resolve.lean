/-
The resolved registry: the types that a contract's signatures reach.

Its entries stand in the order in which the walk entered them, and its
declarations, the composites and variants, in the order in which the walk
finished them. A type is finished after the types it refers to, unless one of
those was already on the path, so declarations follow what they depend on,
cycles aside.
-/
import ContractClient.Registry.Cycle

set_option autoImplicit false

namespace ContractClient

/-- The reachable types of a contract. -/
structure Registry where
  entries : List Entry
  declarationOrder : List TypeId
  deriving DecidableEq, Repr

/-- The entry of a type. -/
def Registry.entry? (r : Registry) (id : TypeId) : Option Entry :=
  r.entries.find? fun e => e.id == id

/-- The definition of a type. -/
def Registry.definition? (r : Registry) (id : TypeId) : Option TypeDef :=
  (r.entry? id).map (·.definition)

/-- Whether a type is declared under a name of its own. -/
def Metadata.isDeclaration (m : Metadata) (id : TypeId) : Bool :=
  match m.entry? id with
  | some e => e.definition.isDeclaration
  | none => false

/-- **Resolving.** The types that the signatures reach, unless one of them is
missing or malformed or contains itself. -/
def Metadata.resolve (m : Metadata) : Except ResolveError Registry := do
  let walk ← Walk.run m { roots := m.signatureRoots }
  let visited := walk.entered.reverse
  match m.directCycle? visited with
  | some (id, cycle) => .error (.recursive id cycle)
  | none =>
    .ok
      { entries := visited.filterMap m.entry?
        declarationOrder := walk.finished.reverse.filter m.isDeclaration }

end ContractClient
