/-
What the search for cycles finds.

The search follows references between the types it is given, the nodes, and
drops all others. A reference that leads back onto the path closes a cycle,
which is read off the path. A type that left the path without that is one from
which every way along references between nodes ends, `Ends`: each of its
references was followed to such a type. So a search that is over has found that
no node lies on a cycle.

As for the walk, the steps are listed first and the invariant is shown step by
step.
-/
import ContractClient.Proofs.Registry.Graph
import Mathlib.Data.List.Nodup

set_option autoImplicit false

namespace ContractClient.CycleSearch

open Relation

variable {m : Metadata} {nodes : List TypeId} {s s' : CycleSearch} {id : TypeId}

/-! ## Ways that end -/

/-- A reference to a node, read from its end. -/
def Follows (m : Metadata) (nodes : List TypeId) (child id : TypeId) : Prop :=
  child ∈ nodes ∧ m.RefersTo id child

/-- Every way from a type along references to nodes ends. -/
def Ends (m : Metadata) (nodes : List TypeId) (id : TypeId) : Prop :=
  Acc (Follows m nodes) id

/-- A type from which every way ends lies on no cycle. -/
theorem Ends.not_cycle (h : Ends m nodes id) : ¬ TransGen (Follows m nodes) id id := by
  have hacc : Acc (TransGen (Follows m nodes)) id := Acc.transGen h
  clear h
  induction hacc with
  | intro id' _ ih => exact fun hcycle => ih id' hcycle hcycle

/-! ## Steps -/

/-- What a step does while no cycle is found. -/
inductive Step (m : Metadata) (nodes : List TypeId) : CycleSearch → CycleSearch → Prop
  | passStart {id : TypeId} {starts entered : List TypeId} (hdone : id ∈ nodes → id ∈ entered) :
      Step m nodes ⟨id :: starts, [], entered⟩ ⟨starts, [], entered⟩
  | enterStart {id : TypeId} {starts entered : List TypeId} (hnode : id ∈ nodes) (hnew : id ∉ entered) :
      Step m nodes ⟨id :: starts, [], entered⟩ ⟨starts, [⟨id, m.references id⟩], id :: entered⟩
  | leave {id : TypeId} {starts entered : List TypeId} {stack : List Frame} :
      Step m nodes ⟨starts, ⟨id, []⟩ :: stack, entered⟩ ⟨starts, stack, entered⟩
  | pass {id child : TypeId} {starts entered pending : List TypeId} {stack : List Frame}
      (hdone : child ∈ nodes → child ∈ entered ∧ child ∉ (id :: stack.map (·.id))) :
      Step m nodes ⟨starts, ⟨id, child :: pending⟩ :: stack, entered⟩ ⟨starts, ⟨id, pending⟩ :: stack, entered⟩
  | enter {id child : TypeId} {starts entered pending : List TypeId} {stack : List Frame}
      (hnode : child ∈ nodes) (hnew : child ∉ entered) :
      Step m nodes ⟨starts, ⟨id, child :: pending⟩ :: stack, entered⟩
        ⟨starts, ⟨child, m.references child⟩ :: ⟨id, pending⟩ :: stack, child :: entered⟩

/-- **What one step of the search does.** It drops a start that was done, enters
one that was not, leaves a type without references, drops a reference that needs
nothing, or enters what is referred to; in each case it says what had been
checked before. -/
theorem step_more (h : s.step m nodes = .more s') : Step m nodes s s' := by
  obtain ⟨starts, stack, entered⟩ := s
  unfold step at h
  split at h
  · next hstack =>
    obtain rfl : stack = [] := hstack
    split at h
    · cases h
    · next id starts' hstarts =>
      obtain rfl : starts = id :: starts' := hstarts
      split_ifs at h with hdone
      · cases h
        refine .passStart fun hnode => ?_
        simpa [hnode] using hdone
      · cases h
        simp only [Bool.or_eq_true, Bool.not_eq_true', not_or, Bool.not_eq_true, Bool.not_eq_false] at hdone
        exact .enterStart (by simpa using hdone.1) (by simpa using hdone.2)
  · next id stack' hstack =>
    obtain rfl : stack = ⟨id, []⟩ :: stack' := hstack
    cases h
    exact .leave
  · next id child pending stack' hstack =>
    obtain rfl : stack = ⟨id, child :: pending⟩ :: stack' := hstack
    simp only at h
    split_ifs at h with hnode hpath hentered
    · cases h
      exact .pass fun hmem => by simp [hmem] at hnode
    · cases h
      refine .pass fun _ => ⟨by simpa using hentered, ?_⟩
      simpa [path, and_comm] using hpath
    · cases h
      exact .enter (by simpa using hnode) (by simpa using hentered)

/-- The search is over when no start is left and the path is empty. -/
theorem step_over (h : s.step m nodes = .over) : s.starts = [] ∧ s.stack = [] := by
  unfold step at h
  split at h
  · next hstack =>
    split at h
    · next hstarts => exact ⟨hstarts, hstack⟩
    · split_ifs at h
  · cases h
  · simp only at h
    split_ifs at h

/-- A cycle is found where the next reference of the end of the path leads back
onto it. -/
theorem step_found {cycle : List TypeId} (h : s.step m nodes = .found id cycle) :
    ∃ last pending stack, s.stack = ⟨last, id :: pending⟩ :: stack ∧ id ∈ s.path ∧
      cycle = s.path.dropWhile (· != id) ++ [id] := by
  unfold step at h
  split at h
  · split at h
    · cases h
    · split_ifs at h
  · cases h
  · next last child pending stack hstack =>
    simp only at h
    split_ifs at h with hnode hpath
    cases h
    exact ⟨last, pending, stack, hstack, by simpa using hpath, rfl⟩

/-! ## The invariant -/

/-- Along the path, every reference to a node is pending or was followed: to a
type from which every way ends, or to the next type on the path, `above`. -/
def Followed (m : Metadata) (nodes : List TypeId) : Option TypeId → List Frame → Prop
  | _, [] => True
  | above, f :: below =>
    (∀ child ∈ nodes, m.RefersTo f.id child → child ∈ f.pending ∨ Ends m nodes child ∨ above = some child) ∧
      Followed m nodes (some f.id) below

/-- Where the types stand in the middle of a search. -/
structure Explores (m : Metadata) (nodes : List TypeId) (s : CycleSearch) : Prop where
  covers : ∀ id ∈ nodes, id ∈ s.starts ∨ id ∈ s.entered
  onPath : ∀ id ∈ s.stack.map (·.id), id ∈ nodes ∧ id ∈ s.entered
  distinct : (s.stack.map (·.id)).Nodup
  isPath : IsPath m s.stack
  followed : Followed m nodes none s.stack
  /-- A type that left the path is one from which every way ends. -/
  settled : ∀ id ∈ s.entered, id ∈ s.stack.map (·.id) ∨ Ends m nodes id

/-- Once the type above is one from which every way ends, it need not be told
apart. -/
theorem Followed.settle {stack : List Frame} (h : Followed m nodes (some id) stack) (hends : Ends m nodes id) :
    Followed m nodes none stack := by
  cases stack with
  | nil => trivial
  | cons f below =>
    refine ⟨fun child hnode hrefers => ?_, h.2⟩
    rcases h.1 child hnode hrefers with hpending | hchild | habove
    · exact Or.inl hpending
    · exact Or.inr (Or.inl hchild)
    · cases habove
      exact Or.inr (Or.inl hends)

namespace Explores

/-- The search starts with all types ahead of it. -/
theorem init : Explores m nodes (CycleSearch.mk nodes [] []) where
  covers := fun _ hid => Or.inl hid
  onPath := by simp
  distinct := List.nodup_nil
  isPath := .nil
  followed := trivial
  settled := by simp

/-- Every way from the end of the path ends once nothing is pending there. -/
theorem ends_of_leave {starts entered : List TypeId} {stack : List Frame}
    (h : Explores m nodes ⟨starts, ⟨id, []⟩ :: stack, entered⟩) : Ends m nodes id := by
  refine Acc.intro id fun child ⟨hnode, hrefers⟩ => ?_
  rcases h.followed.1 child hnode hrefers with hpending | hends | habove
  · cases hpending
  · exact hends
  · cases habove

/-- **Every step explores.** One case for each kind of step. Entering a type
puts it on the path with all its references pending; leaving one is where it is
found to end, since each of its references was passed, and what was passed has
ended. -/
theorem step (hstep : Step m nodes s s') (h : Explores m nodes s) : Explores m nodes s' := by
  cases hstep with
  | @passStart id starts entered hdone =>
    refine { h with covers := fun id' hid' => ?_ }
    rcases h.covers id' hid' with hstart | hentered
    · rcases List.mem_cons.1 hstart with rfl | hstart
      · exact Or.inr (hdone hid')
      · exact Or.inl hstart
    · exact Or.inr hentered
  | @enterStart id starts entered hnode hnew =>
    constructor
    case covers => grind [h.covers]
    case onPath => simp [hnode]
    case distinct => simp
    case isPath => exact h.isPath.push (by simp)
    case followed => exact ⟨fun _ _ hrefers => Or.inl hrefers, trivial⟩
    case settled => grind [h.settled]
  | @leave id starts entered stack =>
    -- All references of the type have been passed, so it ends here.
    have hends := h.ends_of_leave
    constructor
    case covers => exact h.covers
    case onPath => exact fun id' hid' => h.onPath id' (List.mem_cons_of_mem _ hid')
    case distinct => exact h.distinct.of_cons
    case isPath => exact h.isPath.pop
    case followed => exact h.followed.2.settle hends
    case settled =>
      intro id' hid'
      rcases h.settled id' hid' with hpath | hends'
      · rcases List.mem_cons.1 hpath with rfl | hpath
        · exact Or.inr hends
        · exact Or.inl hpath
      · exact Or.inr hends'
  | @pass id child starts entered pending stack hdone =>
    refine { h with isPath := h.isPath.pass [], followed := ⟨fun c hnode hrefers => ?_, h.followed.2⟩ }
    rcases h.followed.1 c hnode hrefers with hpending | hends | habove
    · rcases List.mem_cons.1 hpending with rfl | hpending
      · -- the reference that is passed leads to a type that left the path
        obtain ⟨hentered, hoff⟩ := hdone hnode
        exact Or.inr (Or.inl ((h.settled c hentered).resolve_left hoff))
      · exact Or.inl hpending
    · exact Or.inr (Or.inl hends)
    · cases habove
  | @enter id child starts entered pending stack hnode hnew =>
    have hrefers : m.RefersTo id child := h.isPath.pending _ List.mem_cons_self child List.mem_cons_self
    have hoff : child ∉ (id :: stack.map (·.id)) := fun hmem => hnew (h.onPath child hmem).2
    constructor
    case covers => grind [h.covers]
    case onPath => grind [h.onPath]
    case distinct => exact List.nodup_cons.2 ⟨hoff, h.distinct⟩
    case isPath => exact (h.isPath.pass []).push (by simpa using hrefers)
    case followed =>
      -- The reference was pending and is now the step of the path to the type above.
      refine ⟨fun _ _ hrefers => Or.inl hrefers, fun c hc hrefers => ?_, h.followed.2⟩
      rcases h.followed.1 c hc hrefers with hpending | hends | habove
      · rcases List.mem_cons.1 hpending with rfl | hpending
        · exact Or.inr (Or.inr rfl)
        · exact Or.inl hpending
      · exact Or.inr (Or.inl hends)
      · cases habove
    case settled => grind [h.settled]

/-! ## Whole searches -/

/-- A search that comes to its end has found that every way from a node ends. -/
theorem run_none (h : Explores m nodes s) (hrun : s.run m nodes = none) : ∀ id ∈ nodes, Ends m nodes id := by
  fun_induction CycleSearch.run m nodes s with
  | case1 s hover =>
    obtain ⟨hstarts, hstack⟩ := step_over hover
    intro id hid
    have hentered : id ∈ s.entered := by simpa [hstarts] using h.covers id hid
    simpa [hstack] using h.settled id hentered
  | case2 s id cycle hfound => cases hrun
  | case3 s next hmore ih => exact ih (h.step (step_more hmore)) hrun

/-- A cycle that is found is found in a step. -/
theorem run_some {cycle : List TypeId} (h : Explores m nodes s) (hrun : s.run m nodes = some (id, cycle)) :
    ∃ s', Explores m nodes s' ∧ s'.step m nodes = .found id cycle := by
  fun_induction CycleSearch.run m nodes s with
  | case1 s hover => cases hrun
  | case2 s id' cycle' hfound =>
    cases hrun
    exact ⟨s, h, hfound⟩
  | case3 s next hmore ih => exact ih (h.step (step_more hmore)) hrun

/-- What is found is the end of the path, from the type on that the next
reference leads back to. Read this way it is a cycle: each type refers to the
next, the last one to the first, and no type stands in it twice. -/
theorem cycle_of_found {cycle : List TypeId} (h : Explores m nodes s) (hfound : s.step m nodes = .found id cycle) :
    ∃ rest, cycle = id :: rest ++ [id] ∧ (id :: rest).Nodup ∧ cycle.IsChain m.RefersTo ∧
      ∀ id' ∈ cycle, id' ∈ nodes := by
  obtain ⟨last, pending, stack, hstack, hmem, rfl⟩ := step_found hfound
  have hdistinct : s.path.Nodup := List.nodup_reverse.2 h.distinct
  have hlinked : s.path.IsChain m.RefersTo := List.isChain_reverse.2 h.isPath.linked
  have hnodes : ∀ id' ∈ s.path, id' ∈ nodes := fun id' hid' => (h.onPath id' (List.mem_reverse.1 hid')).1
  have hlast : s.path.getLast? = some last := by simp [path, hstack]
  have hback : m.RefersTo last id :=
    h.isPath.pending ⟨last, id :: pending⟩ (by simp [hstack]) id List.mem_cons_self
  obtain ⟨before, rest, hpath, hbefore⟩ := List.eq_append_cons_of_mem hmem
  -- The path is split at the type that is met again; before it the type does not stand.
  have hdrop : s.path.dropWhile (· != id) = id :: rest := by
    rw [hpath, List.dropWhile_append_of_pos (by grind), List.dropWhile_cons_of_neg (by simp)]
  have hsuffix : id :: rest <:+ s.path := ⟨before, hpath.symm⟩
  rw [hdrop]
  refine ⟨rest, rfl, hdistinct.sublist hsuffix.sublist, ?_, ?_⟩
  · refine (hlinked.suffix hsuffix).append (.singleton id) ?_
    have hend : (id :: rest).getLast? = some last := by
      rw [← hlast, hpath, List.getLast?_append_of_ne_nil _ (List.cons_ne_nil _ _)]
    simpa [hend] using hback
  · intro id' hid'
    refine hnodes id' ?_
    rcases List.mem_append.1 hid' with hid' | hid'
    · exact hsuffix.subset hid'
    · rwa [List.mem_singleton.1 hid']

end Explores

end ContractClient.CycleSearch
