/-
The search for types that contain themselves.

Sequences and arrays hold their items behind a length, so a cycle through one of
them does no harm. The search therefore runs over the other types only, the
direct ones, and looks for any cycle among them. It is depth first like the
walk, and it is over as soon as a reference leads back onto the path: the cycle
is then the path from that type on, and the type again.
-/
import ContractClient.Registry.Walk

set_option autoImplicit false

namespace ContractClient

/-- The references of a type; none if there is no such type. -/
def Metadata.references (m : Metadata) (id : TypeId) : List TypeId :=
  match m.entry? id with
  | some e => e.definition.references
  | none => []

/-- Whether a type is there and holds its parts directly. -/
def Metadata.isDirect (m : Metadata) (id : TypeId) : Bool :=
  match m.entry? id with
  | some e => !e.definition.isIndirect
  | none => false

/-- A search under way: where to start next, the path with its end first, and
the types entered so far. -/
structure CycleSearch where
  starts : List TypeId
  stack : List Frame := []
  entered : List TypeId := []

/-- How a step of the search comes out. -/
inductive CycleStep
  | over
  | more (next : CycleSearch)
  | found (id : TypeId) (cycle : List TypeId)

namespace CycleSearch

/-- The types on the path, from its start to its end. -/
def path (s : CycleSearch) : List TypeId :=
  (s.stack.map (·.id)).reverse

/-- The search after a type among `nodes` is entered. -/
def enter (m : Metadata) (s : CycleSearch) (id : TypeId) (stack : List Frame) : CycleSearch :=
  { s with stack := ⟨id, m.references id⟩ :: stack, entered := id :: s.entered }

/-- One step of the search over the types in `nodes`. -/
def step (m : Metadata) (nodes : List TypeId) (s : CycleSearch) : CycleStep :=
  match s.stack with
  | [] =>
    match s.starts with
    | [] => .over
    | id :: starts =>
      if !nodes.contains id || s.entered.contains id then .more { s with starts }
      else .more (enter m { s with starts } id [])
  | ⟨_, []⟩ :: stack => .more { s with stack }
  | ⟨id, child :: pending⟩ :: stack =>
    let rest := ⟨id, pending⟩ :: stack
    if !nodes.contains child then .more { s with stack := rest }
    else if s.path.contains child then .found child (s.path.dropWhile (· != child) ++ [child])
    else if s.entered.contains child then .more { s with stack := rest }
    else .more (enter m s child rest)

/-! ## Why the search ends -/

/-- The number of nodes that were not entered. -/
def unentered (nodes : List TypeId) (s : CycleSearch) : Nat :=
  nodes.countP fun id => !s.entered.contains id

/-- What is left to do with the nodes entered so far. -/
def work (s : CycleSearch) : Nat :=
  s.starts.length + s.stack.foldr (fun f rest => f.pending.length + 1 + rest) 0

/-- Entering a node leaves fewer nodes to enter. -/
theorem unentered_enter_lt {m : Metadata} {nodes : List TypeId} {s : CycleSearch} {id : TypeId}
    {stack : List Frame} (hmem : nodes.contains id = true) (hn : s.entered.contains id = false) :
    unentered nodes (enter m s id stack) < unentered nodes s := by
  refine Walk.countP_lt_of_mem (a := id) (fun x hx => ?_) (by simpa using hmem) ?_ ?_
  · simp only [enter, List.contains_cons, Bool.not_or, Bool.and_eq_true] at hx
    exact hx.2
  · rw [hn]
    rfl
  · simp [enter]

/-- **Every step makes progress.** -/
theorem progress {m : Metadata} {nodes : List TypeId} {s s' : CycleSearch}
    (h : s.step m nodes = .more s') :
    unentered nodes s' < unentered nodes s ∨ unentered nodes s' = unentered nodes s ∧ s'.work < s.work := by
  unfold step at h
  split at h
  · next hstack =>
    split at h
    · simp at h
    · next id starts hstarts =>
      split at h
      · simp only [CycleStep.more.injEq] at h
        subst h
        simp [work, unentered, hstarts]
      · next hn =>
        simp only [CycleStep.more.injEq] at h
        subst h
        simp only [Bool.or_eq_true, Bool.not_eq_true', not_or, Bool.not_eq_true, Bool.not_eq_false] at hn
        exact Or.inl (unentered_enter_lt hn.1 hn.2)
  · next id stack hstack =>
    simp only [CycleStep.more.injEq] at h
    subst h
    simp [work, unentered, hstack]
  · next id child pending stack hstack =>
    simp only at h
    split at h
    · simp only [CycleStep.more.injEq] at h
      subst h
      simp [work, unentered, hstack]
    · next hmem =>
      split at h
      · simp at h
      · split at h
        · simp only [CycleStep.more.injEq] at h
          subst h
          simp [work, unentered, hstack]
        · next hn =>
          simp only [CycleStep.more.injEq] at h
          subst h
          exact Or.inl (unentered_enter_lt (by simpa using hmem) (by simpa using hn))

/-- The search to its end: the first cycle, if there is one. -/
def run (m : Metadata) (nodes : List TypeId) (s : CycleSearch) : Option (TypeId × List TypeId) :=
  match _h : s.step m nodes with
  | .over => none
  | .found id cycle => some (id, cycle)
  | .more s' => s'.run m nodes
termination_by (unentered nodes s, s.work)
decreasing_by
  rcases progress _h with hlt | ⟨heq, hlt⟩
  · exact Prod.Lex.left _ _ hlt
  · rw [heq]
    exact Prod.Lex.right _ hlt

end CycleSearch

/-- The first cycle among the direct types of `ids`, searched from each of them
in turn. -/
def Metadata.directCycle? (m : Metadata) (ids : List TypeId) : Option (TypeId × List TypeId) :=
  let nodes := ids.filter m.isDirect
  (CycleSearch.mk nodes [] []).run m nodes

end ContractClient
