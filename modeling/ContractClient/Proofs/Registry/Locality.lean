/-
What resolving looks at.

A document may declare types that no signature reaches, and it declares its
types in some order. Resolving is told of neither: it asks for the entry of one
type at a time, and only ever for types that are reached. So it comes out alike
for two documents that agree on these entries, `resolve_congr`, errors included.

Both the walk and the search are followed step by step. That a step asks for a
reached type only is what the invariant of the walk says; the search stays among
the types that it is given.
-/
import ContractClient.Proofs.Registry.Resolution

set_option autoImplicit false

namespace ContractClient

variable {m m' : Metadata} {id : TypeId}

namespace Metadata

/-- Two documents that have the same entries for some types and differ in no
more than their other entries. -/
structure AgreesOn (m m' : Metadata) (P : TypeId → Prop) : Prop where
  rest : m' = { m with types := m'.types }
  entries : ∀ id, P id → m.entry? id = m'.entry? id

namespace AgreesOn

/-- They have the same signatures, so the same types are named by them. -/
theorem signatureRoots {P : TypeId → Prop} (h : m.AgreesOn m' P) : m'.signatureRoots = m.signatureRoots := by
  rw [h.rest]
  rfl

/-- What a type refers to depends on its own entry alone. -/
theorem references {P : TypeId → Prop} (h : m.AgreesOn m' P) (hid : P id) : m.references id = m'.references id := by
  rw [Metadata.references, Metadata.references, h.entries id hid]

/-- Whether references to a type count as direct depends on its own entry
alone. -/
theorem isDirect {P : TypeId → Prop} (h : m.AgreesOn m' P) (hid : P id) : m.isDirect id = m'.isDirect id := by
  rw [Metadata.isDirect, Metadata.isDirect, h.entries id hid]

/-- Whether a class is declared for a type depends on its own entry alone. -/
theorem isDeclaration {P : TypeId → Prop} (h : m.AgreesOn m' P) (hid : P id) :
    m.isDeclaration id = m'.isDeclaration id := by
  rw [Metadata.isDeclaration, Metadata.isDeclaration, h.entries id hid]

end AgreesOn

/-- Entering a reached type asks for it and, if it is compact, for the type it
wraps. -/
theorem enter_congr (h : m.AgreesOn m' m.Reachable) (hid : m.Reachable id) (referrer : Referrer) :
    m.enter id referrer = m'.enter id referrer := by
  unfold enter
  rw [← h.entries id hid]
  cases he : m.entry? id with
  | none => rfl
  | some e =>
    have hcheck : m.checkEntry e = m'.checkEntry e := by
      unfold checkEntry
      cases hdef : e.definition with
      | compact inner =>
        -- The wrapped type is a reference of this one, so it is reached as well.
        have hrefers : m.RefersTo id inner := by
          simp [RefersTo, references_of_entry he, hdef, TypeDef.references]
        dsimp only
        rw [h.entries inner (hid.child hrefers)]
      | _ => rfl
    dsimp only
    rw [hcheck]

end Metadata

/-! ## The walk -/

namespace Walk

variable {w : Walk}

/-- The next step of a walk is the same in both documents. It enters a type that
is reached, as the walk keeps track of, and reached types are what the documents
agree on. -/
theorem step_congr (h : m.AgreesOn m' m.Reachable) (htracks : Tracks m w) : w.step m = w.step m' := by
  obtain ⟨roots, stack, entered, finished⟩ := w
  cases stack with
  | nil =>
    cases roots with
    | nil => rfl
    | cons root roots =>
      obtain ⟨id, referrer⟩ := root
      have hid : m.Reachable id := .root (htracks.root_mem rfl)
      simp only [step, Metadata.enter_congr h hid]
  | cons f stack =>
    obtain ⟨id, pending⟩ := f
    cases pending with
    | nil => rfl
    | cons child pending =>
      obtain ⟨hid, hrefers⟩ := htracks.next
      simp only [step, Metadata.enter_congr h (hid.child hrefers)]

/-- So is the whole walk: every step keeps to reached types, for which the
documents agree. -/
theorem run_congr (h : m.AgreesOn m' m.Reachable) (htracks : Tracks m w) : w.run m = w.run m' := by
  fun_induction Walk.run m w with
  | case1 w e hstep => rw [run.eq_def, ← step_congr h htracks, hstep]
  | case2 w hstep => rw [run.eq_def, ← step_congr h htracks, hstep]
  | case3 w next hstep ih =>
    rw [run.eq_def m', ← step_congr h htracks, hstep]
    exact ih (htracks.step (step_ok hstep))

end Walk

/-! ## The search -/

namespace CycleSearch

variable {nodes : List TypeId} {s : CycleSearch}

/-- A step of the search looks at the references of one type, and at nothing
else of the document. That is the type on top of the path, or the one that is
entered next; either is among the nodes. -/
theorem step_congr (h : ∀ id ∈ nodes, m.references id = m'.references id) : s.step m nodes = s.step m' nodes := by
  obtain ⟨starts, stack, entered⟩ := s
  have henter : ∀ (s : CycleSearch) (stack : List Frame), ∀ id ∈ nodes, enter m s id stack = enter m' s id stack := by
    intro s stack id hid
    rw [enter, enter, h id hid]
  cases stack with
  | nil =>
    cases starts with
    | nil => rfl
    | cons id starts =>
      -- A type that is no node is dropped before it is asked for.
      by_cases hid : id ∈ nodes
      · simp only [step, henter _ _ id hid]
      · simp [step, hid]
  | cons f stack =>
    obtain ⟨id, pending⟩ := f
    cases pending with
    | nil => rfl
    | cons child pending =>
      by_cases hchild : child ∈ nodes
      · simp only [step, henter _ _ child hchild]
      · simp [step, hchild]

/-- So is the whole search. -/
theorem run_congr (h : ∀ id ∈ nodes, m.references id = m'.references id) : s.run m nodes = s.run m' nodes := by
  fun_induction CycleSearch.run m nodes s with
  | case1 s hstep => rw [run.eq_def, ← step_congr h, hstep]
  | case2 s id cycle hstep => rw [run.eq_def, ← step_congr h, hstep]
  | case3 s next hstep ih =>
    rw [run.eq_def m', ← step_congr h, hstep]
    exact ih

end CycleSearch

/-! ## Resolving -/

namespace Metadata

/-- So the search finds the same cycle in documents that agree on the types that
it goes through. -/
theorem directCycle?_congr {P : TypeId → Prop} (h : m.AgreesOn m' P) {ids : List TypeId} (hids : ∀ id ∈ ids, P id) :
    m.directCycle? ids = m'.directCycle? ids := by
  have hnodes : ids.filter m.isDirect = ids.filter m'.isDirect :=
    List.filter_congr fun id hid => h.isDirect (hids id hid)
  rw [directCycle?, directCycle?, ← hnodes]
  exact CycleSearch.run_congr fun id hid => h.references (hids id (List.mem_filter.1 hid).1)

/-- **Resolving looks at reached types only.** The walk makes the same steps in
both documents, and so does the search for cycles after it, as its nodes were
entered by the walk. -/
theorem resolve_congr (h : m.AgreesOn m' m.Reachable) : m.resolve = m'.resolve := by
  have hrun : Walk.run m { roots := m.signatureRoots } = Walk.run m' { roots := m'.signatureRoots } := by
    rw [h.signatureRoots]
    exact Walk.run_congr h .init
  rw [resolve, resolve, ← hrun]
  cases hw : Walk.run m { roots := m.signatureRoots } with
  | error e => rfl
  | ok w =>
    have hreached : ∀ id ∈ w.entered.reverse, m.Reachable id := fun id hid =>
      (Walk.entered_iff hw).1 (List.mem_reverse.1 hid)
    -- What comes after the walk asks for the types that the walk entered.
    have hentries : w.entered.reverse.filterMap m.entry? = w.entered.reverse.filterMap m'.entry? :=
      List.filterMap_congr fun id hid => h.entries id (hreached id hid)
    have hdeclared : w.finished.reverse.filter m.isDeclaration = w.finished.reverse.filter m'.isDeclaration := by
      refine List.filter_congr fun id hid => h.isDeclaration (hreached id ?_)
      exact List.mem_reverse.2 ((Walk.finished_perm hw).subset (List.mem_reverse.1 hid))
    simp only [bind, Except.bind, directCycle?_congr h hreached, hentries, hdeclared]

end Metadata

end ContractClient
