/-
Unique names within one namespace.

The first request for a name gets it; a later one gets the name followed by the
least number, from two on, that makes it free. Free is what was neither reserved
nor handed out. Among as many numbers as there are taken names, and one more,
one is free, so the search is over a finite list and always succeeds.
-/

set_option autoImplicit false

namespace ContractClient

/-- The names that are no longer free, in the order in which they were taken. -/
structure NameAllocator where
  taken : List String

namespace NameAllocator

/-- An allocator that hands out none of `reserved`. -/
def reserving (reserved : List String) : NameAllocator :=
  ⟨reserved⟩

/-- `base` followed by a number. -/
def numbered (base : String) (n : Nat) : String :=
  base ++ toString n

/-- Whether a name is free. -/
def isFree (a : NameAllocator) (name : String) : Bool :=
  !a.taken.contains name

/-- The name that a request for `base` gets. -/
def choose (a : NameAllocator) (base : String) : String :=
  if a.isFree base then base
  else
    let numbers := (List.range (a.taken.length + 1)).map (· + 2)
    numbered base ((numbers.find? fun n => a.isFree (numbered base n)).getD (a.taken.length + 2))

/-- Serves one request. -/
def allocate (a : NameAllocator) (base : String) : String × NameAllocator :=
  let name := a.choose base
  (name, ⟨name :: a.taken⟩)

/-- Serves requests one after the other. -/
def allocateAll (a : NameAllocator) : List String → List String × NameAllocator
  | [] => ([], a)
  | base :: rest =>
    let (name, a) := a.allocate base
    let (names, a) := a.allocateAll rest
    (name :: names, a)

end NameAllocator

end ContractClient
