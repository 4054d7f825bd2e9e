/-
How far types unfold.

A type holds another one inline if each value of it may have to contain a value
of the other one: whatever its definition refers to, apart from the item of a
sequence and from that of an array without items, of which there may be none. A
type that holds itself inline has no finite unfolding, and whatever holds it
inline has none either.

Resolving takes sequences and arrays out of the graph before it looks for
cycles, and the arrays that it takes out may have items. So an array that holds
itself inline gets through, a knot, and nothing else does: apart from knots
every type ranks above what it holds inline, `exists_rank_inline`. The rank of a
type is the number of types that come after it. Where there are no knots,
following inline references comes to an end, `acc_of_no_knots`.
-/
import ContractClient.Proofs.Registry.Resolution

set_option autoImplicit false

namespace ContractClient

open Relation

/-! ## Inline references -/

/-- The types that a definition refers to, apart from items of which there may
be none. -/
def TypeDef.inlineReferences : TypeDef → List TypeId
  | .sequence _ => []
  | .array _ 0 => []
  | d => d.references

/-- What is held inline is referred to. -/
theorem TypeDef.mem_references_of_inline {d : TypeDef} {child : TypeId} (h : child ∈ d.inlineReferences) :
    child ∈ d.references := by
  unfold inlineReferences at h
  split at h
  · cases h
  · cases h
  · exact h

/-- What refers to others inline is no sequence, and it is an array only if it
has items. -/
theorem TypeDef.direct_or_array {d : TypeDef} {child : TypeId} (h : child ∈ d.inlineReferences) :
    d.isIndirect = false ∨ ∃ item n, d = .array item (n + 1) := by
  cases d with
  | sequence item => cases h
  | array item length =>
    cases length with
    | zero => cases h
    | succ n => exact .inr ⟨item, n, rfl⟩
  | _ => exact .inl rfl

namespace Metadata

variable {m : Metadata} {id next : TypeId} {r : Registry}

/-- Whether one type holds another one inline. -/
def HoldsInline (m : Metadata) (id child : TypeId) : Prop :=
  ∃ d, m.definition? id = some d ∧ child ∈ d.inlineReferences

/-- Whether a type is an array with items that holds itself inline. -/
def IsKnot (m : Metadata) (id : TypeId) : Prop :=
  (∃ item n, m.definition? id = some (.array item (n + 1))) ∧ TransGen m.HoldsInline id id

/-- The same for the types of a document. -/
theorem HoldsInline.refersTo (h : m.HoldsInline id next) : m.RefersTo id next := by
  obtain ⟨d, hd, hchild⟩ := h
  obtain ⟨e, he, rfl⟩ := Option.map_eq_some_iff.1 hd
  rw [RefersTo, references_of_entry he]
  exact TypeDef.mem_references_of_inline hchild

/-- What holds others inline is direct, or an array with items. -/
theorem HoldsInline.direct_or_array (h : m.HoldsInline id next) :
    m.isDirect id = true ∨ ∃ item n, m.definition? id = some (.array item (n + 1)) := by
  obtain ⟨d, hd, hchild⟩ := h
  obtain ⟨e, he, rfl⟩ := Option.map_eq_some_iff.1 hd
  rcases TypeDef.direct_or_array hchild with hdirect | ⟨item, n, harray⟩
  · rw [isDirect_of_entry he, hdirect]
    exact .inl rfl
  · exact .inr ⟨item, n, harray ▸ hd⟩

/-! ## Ranks -/

/-- **A finite graph without cycles has ranks**: what is listed is ranked by how
much of it comes after. -/
theorem exists_rank {R : TypeId → TypeId → Prop} (listed : TypeId → Prop) {ids : List TypeId}
    (hids : ∀ a, listed a → a ∈ ids) (hclosed : ∀ a b, listed a → R a b → listed b)
    (hacyclic : ∀ a, listed a → ¬ TransGen R a a) :
    ∃ rank : TypeId → Nat, ∀ a b, listed a → R a b → rank b < rank a := by
  classical
  refine ⟨fun a => ids.countP fun x => decide (TransGen R a x), fun a b ha hab => ?_⟩
  have hb := hclosed a b ha hab
  -- What comes after `b` comes after `a`, and so does `b`, which does not come after itself.
  apply Walk.countP_lt_of_mem _ (hids b hb)
  · simpa using TransGen.single hab
  · simpa using hacyclic b hb
  · intro x hx
    simp only [decide_eq_true_eq] at hx ⊢
    exact .head hab hx

/-- A cycle of inline references that starts from direct types only is one of
direct references. -/
theorem direct_of_transGen (h : TransGen (fun a b => m.isDirect a = true ∧ m.HoldsInline a b) id next)
    (hnext : m.isDirect next = true) : TransGen m.RefersDirectly id next := by
  induction h with
  | single hstep => exact .single ⟨hstep.2.refersTo, hstep.1, hnext⟩
  | tail _ hstep ih => exact (ih hstep.1).tail ⟨hstep.2.refersTo, hstep.1, hnext⟩

/-- A cycle of inline references without knots would start from direct types
only. -/
theorem direct_of_cycle (hcycle : TransGen (fun a b => m.HoldsInline a b ∧ ¬ m.IsKnot a) id id) :
    TransGen (fun a b => m.isDirect a = true ∧ m.HoldsInline a b) id id := by
  have hinline : ∀ {a b}, TransGen (fun a b => m.HoldsInline a b ∧ ¬ m.IsKnot a) a b → TransGen m.HoldsInline a b :=
    fun h => TransGen.mono (fun _ _ hstep => hstep.1) _ _ h
  -- Whatever is on the cycle holds itself inline, so it would be a knot if it were an array.
  have hlift : ∀ {b}, TransGen (fun a b => m.HoldsInline a b ∧ ¬ m.IsKnot a) id b →
      ReflTransGen m.HoldsInline b id → TransGen (fun a b => m.isDirect a = true ∧ m.HoldsInline a b) id b := by
    have hdirect : ∀ {a b}, m.HoldsInline a b → ¬ m.IsKnot a → TransGen m.HoldsInline a a →
        m.isDirect a = true :=
      fun hholds hknot hself => hholds.direct_or_array.resolve_right fun harray => hknot ⟨harray, hself⟩
    intro b hto hback
    induction hto with
    | single hstep => exact .single ⟨hdirect hstep.1 hstep.2 (hinline hcycle), hstep.1⟩
    | @tail b c hb hstep ih =>
      have hstart : TransGen m.HoldsInline b id := .head' hstep.1 hback
      have hself : TransGen m.HoldsInline b b := hstart.trans (hinline hb)
      exact (ih hstart.to_reflTransGen).tail ⟨hdirect hstep.1 hstep.2 hself, hstep.1⟩
  exact hlift hcycle .refl

/-- What is reached has an entry in the registry. -/
theorem reachable_ids (h : m.resolve = .ok r) : ∀ id, m.Reachable id → id ∈ r.entries.map (·.id) :=
  fun id hid => ((resolvesTo_of_resolve h).reached id).2 hid

/-- **Apart from knots, every type ranks above what it holds inline.** A cycle
of inline references that avoids knots would be one of direct references, and
resolving has found none of these; so the types, being finitely many, can be
ranked. -/
theorem exists_rank_inline (h : m.resolve = .ok r) : ∃ rank : TypeId → Nat,
    ∀ id child, m.Reachable id → m.HoldsInline id child → rank child < rank id ∨ m.IsKnot id := by
  have hacyclic : ∀ a, m.Reachable a → ¬ TransGen (fun a b => m.HoldsInline a b ∧ ¬ m.IsKnot a) a a := by
    intro a ha hcycle
    have hdirect := direct_of_cycle hcycle
    obtain ⟨b, hstep, -⟩ := TransGen.head'_iff.1 hdirect
    exact (resolvable_of_resolve h).acyclic a ha (direct_of_transGen hdirect hstep.1)
  obtain ⟨rank, hrank⟩ :=
    exists_rank m.Reachable (reachable_ids h) (fun a b ha hab => ha.child hab.1.refersTo) hacyclic
  refine ⟨rank, fun id child hid hchild => ?_⟩
  by_cases hknot : m.IsKnot id
  · exact .inr hknot
  · exact .inl (hrank id child hid ⟨hchild, hknot⟩)

/-- **What holds no knot unfolds**: following inline references from it comes to
an end. -/
theorem acc_of_no_knots (h : m.resolve = .ok r) (hid : m.Reachable id)
    (hknots : ∀ x, ReflTransGen m.HoldsInline id x → ¬ m.IsKnot x) :
    Acc (fun child id => m.HoldsInline id child) id := by
  obtain ⟨rank, hrank⟩ := exists_rank_inline h
  induction hn : rank id using Nat.strongRecOn generalizing id with
  | _ n ih =>
    subst hn
    refine Acc.intro id fun child hchild => ?_
    have hless := (hrank id child hid hchild).resolve_right (hknots id .refl)
    exact ih _ hless (hid.child hchild.refersTo) (fun x hx => hknots x (.head hchild hx)) rfl

/-- **A type that holds itself inline holds a knot.** -/
theorem exists_knot_of_cycle (h : m.resolve = .ok r) (hid : m.Reachable id) (hcycle : TransGen m.HoldsInline id id) :
    ∃ x, ReflTransGen m.HoldsInline id x ∧ m.IsKnot x := by
  by_contra hnone
  have hacc := acc_of_no_knots h hid fun x hx hknot => hnone ⟨x, hx, hknot⟩
  clear hid hnone
  induction hacc with
  | intro a _ ih =>
    -- The cycle goes through what comes next, too.
    obtain ⟨b, hstep, hback⟩ := TransGen.head'_iff.1 hcycle
    exact ih b hstep (.tail' hback hstep)

end Metadata

end ContractClient
