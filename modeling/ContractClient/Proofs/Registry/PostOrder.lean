/-
The order of declarations.

The walk finishes a type after the types that it refers to, except for those
that are still on the path; but what is on the path reaches the type. So at the
moment a type is finished, every reference of it and of the types finished
before leads to one finished before, or else to a type that reaches it,
`Ordered`. A dependency that is reached only through types that do not lead back
is therefore always declared earlier, whatever other cycles the types may have,
and without cycles the order is topological.
-/
import ContractClient.Proofs.Registry.Resolution

set_option autoImplicit false

namespace ContractClient

open Relation

variable {m : Metadata} {r : Registry}

/-! ## What was finished before -/

namespace Walk

variable {w w' : Walk}

/-- When a type is finished, a reference of it or of a type finished before
leads to a type finished before, or to one that reaches it. -/
structure Ordered (m : Metadata) (w : Walk) : Prop extends Tracks m w where
  before : ∀ later id earlier, w.finished = later ++ id :: earlier →
    ∀ id' ∈ id :: earlier, ∀ child, m.RefersTo id' child →
      child ∈ earlier ∨ ReflTransGen m.RefersTo child id

namespace Ordered

/-- Before the walk nothing is finished, so nothing is in the wrong order. -/
theorem init : Ordered m { roots := m.signatureRoots } where
  toTracks := .init
  before := by simp

/-- The type that is finished next: what it or a finished type refers to is
finished or on the path. -/
theorem finish {roots : List Root} {stack : List Frame} {entered finished : List TypeId} {id id' child : TypeId}
    (h : Tracks m ⟨roots, ⟨id, []⟩ :: stack, entered, finished⟩) (hid' : id' ∈ id :: finished)
    (hrefers : m.RefersTo id' child) : child ∈ finished ∨ ReflTransGen m.RefersTo child id := by
  have hentered : id' ∈ entered := by
    refine h.split.subset ?_
    rcases List.mem_cons.1 hid' with rfl | hid'
    · exact List.mem_cons_self
    · exact List.mem_append_right _ hid'
  rcases h.followed id' hentered child hrefers with hchild | ⟨f, hf, rfl, hpending⟩
  · rcases List.mem_append.1 (h.split.symm.subset hchild) with hpath | hfinished
    · obtain ⟨f, hf, rfl⟩ := List.mem_map.1 hpath
      exact Or.inr (h.isPath.reaches hf)
    · exact Or.inl hfinished
  · -- nothing is pending at the end of the path, and a type below it is not finished
    rcases List.mem_cons.1 hf with rfl | hf
    · cases hpending
    · have hdistinct : (id :: (stack.map (·.id) ++ finished)).Nodup := h.nodup_split
      have hbelow : f.id ∈ stack.map (·.id) := List.mem_map_of_mem hf
      rcases List.mem_cons.1 hid' with heq | hfinished
      · exact absurd (List.mem_append_left _ (heq ▸ hbelow)) (List.nodup_cons.1 hdistinct).1
      · exact absurd hfinished (List.disjoint_of_nodup_append hdistinct.of_cons hbelow)

/-- **Every step keeps the order.** Only the step that finishes a type adds to
it, and then all references of the type have been passed: what they lead to was
finished, or is on the path still. -/
theorem step (hstep : Step m w w') (h : Ordered m w) : Ordered m w' := by
  refine ⟨h.toTracks.step hstep, ?_⟩
  cases hstep with
  | passRoot => exact h.before
  | enterRoot => exact h.before
  | pass => exact h.before
  | enter => exact h.before
  | finish =>
    intro later id earlier heq id' hid' child hrefers
    rcases List.cons_eq_append_iff.1 heq with ⟨-, hnow⟩ | ⟨later', -, hbefore⟩
    · cases hnow
      exact finish h.toTracks hid' hrefers
    · exact h.before later' id earlier hbefore id' hid' child hrefers

end Ordered

end Walk

/-! ## Dependencies -/

namespace Metadata

/-- A type depends on another one along a chain of references none of whose
types, the first one apart, reaches back to the first one. -/
def DependsOn (m : Metadata) (u v : TypeId) : Prop :=
  ∃ chain, (u :: chain).IsChain m.RefersTo ∧ chain.getLast? = some v ∧
    ∀ x ∈ chain, x ≠ u → ¬ ReflTransGen m.RefersTo x u

/-- Along such a chain everything was finished before the first type was. The
induction is on the chain: what the type before refers to was finished earlier
or leads back to the first one, and the latter is ruled out by `hback`. -/
theorem earlier_of_chain {u x : TypeId} {earlier chain : List TypeId} (hself : ¬ m.RefersTo u u)
    (hbefore : ∀ id' ∈ u :: earlier, ∀ child, m.RefersTo id' child →
      child ∈ earlier ∨ ReflTransGen m.RefersTo child u)
    (hx : x ∈ u :: earlier) (hxback : x ≠ u → ¬ ReflTransGen m.RefersTo x u)
    (hchain : (x :: chain).IsChain m.RefersTo) (hback : ∀ y ∈ chain, y ≠ u → ¬ ReflTransGen m.RefersTo y u) :
    ∀ y ∈ chain, y ∈ earlier := by
  induction chain generalizing x with
  | nil => simp
  | cons y rest ih =>
    have hrefers : m.RefersTo x y := hchain.rel_head? rfl
    obtain ⟨hyback, hrest⟩ := List.forall_mem_cons.1 hback
    -- the chain does not come back to the first type, so what is known of the others is
    -- known of `y`
    have hy : y ≠ u := by
      rintro rfl
      by_cases hxy : x = y
      · exact hself (hxy ▸ hrefers)
      · exact hxback hxy (.single hrefers)
    have hearlier : y ∈ earlier := (hbefore x hx y hrefers).resolve_right (hyback hy)
    exact List.forall_mem_cons.2
      ⟨hearlier, ih (List.mem_cons_of_mem _ hearlier) (fun _ => hyback hy) hchain.tail hrest⟩

/-- Where no type reaches itself, a type depends on every type that it
reaches. -/
theorem dependsOn_of_acyclic {u v : TypeId} (hacyclic : ¬ TransGen m.RefersTo u u)
    (h : TransGen m.RefersTo u v) : m.DependsOn u v := by
  obtain ⟨next, hnext, hpath⟩ := TransGen.head'_iff.1 h
  obtain ⟨rest, hrest, hlast⟩ := List.exists_isChain_cons_of_relationReflTransGen hpath
  have hreached : ∀ x ∈ next :: rest, ReflTransGen m.RefersTo next x :=
    List.forall_mem_cons.2 ⟨.refl, hrest.cons_induction (ReflTransGen m.RefersTo next) rest
      (fun _ _ hstep hx => hx.tail hstep) .refl⟩
  refine ⟨next :: rest, hrest.cons (by simpa using hnext), ?_, fun x hx _ hback => ?_⟩
  · rw [List.getLast?_eq_some_getLast (List.cons_ne_nil _ _), hlast]
  · exact hacyclic (.head' hnext ((hreached x hx).trans hback))

end Metadata

/-! ## The order of declarations -/

/-- One type is declared before another. -/
def Registry.DeclaresBefore (r : Registry) (v u : TypeId) : Prop :=
  v ∈ r.declarationOrder ∧ r.declarationOrder.idxOf v < r.declarationOrder.idxOf u

/-- In the order of what is kept of a list read backwards, what stands after
comes first. -/
theorem declaresBefore_of_finished {later earlier : List TypeId} {u v : TypeId} {keep : TypeId → Bool}
    (horder : r.declarationOrder = (later ++ u :: earlier).reverse.filter keep)
    (hdistinct : (later ++ u :: earlier).Nodup) (hu : keep u = true) (hv : keep v = true) (hmem : v ∈ earlier) :
    r.DeclaresBefore v u := by
  have hsplit : r.declarationOrder = earlier.reverse.filter keep ++ u :: later.reverse.filter keep := by
    simp [horder, hu]
  have hfirst : v ∈ earlier.reverse.filter keep := by simp [hmem, hv]
  have hnot : u ∉ earlier.reverse.filter keep := by
    have := (List.nodup_append.1 hdistinct).2.1
    simp only [List.nodup_cons] at this
    simp [this.1]
  refine ⟨hsplit ▸ List.mem_append_left _ hfirst, ?_⟩
  rw [hsplit, List.idxOf_append_of_mem hfirst, List.idxOf_append_of_notMem hnot, List.idxOf_cons_self,
    Nat.add_zero]
  exact List.idxOf_lt_length_of_mem hfirst

/-- A declared type depends on what is declared before it. The chain of the
dependency is followed with the order in which the walk finished its types. -/
theorem declaresBefore_of_dependsOn (h : m.resolve = .ok r) {u v : TypeId} (hu : u ∈ r.declarationOrder)
    (hv : m.isDeclaration v = true) (hdepends : m.DependsOn u v) : r.DeclaresBefore v u := by
  obtain ⟨w, hrun, -, rfl⟩ := Metadata.resolve_ok_iff.1 h
  have hordered : Walk.Ordered m w := (Walk.run_ok Walk.Ordered.step Walk.Ordered.init hrun).1
  obtain ⟨hfinished, hdeclared⟩ := List.mem_filter.1 hu
  obtain ⟨later, earlier, heq⟩ := List.append_of_mem (List.mem_reverse.1 hfinished)
  -- a declared type does not refer to itself, for then it would contain itself
  have hself : ¬ m.RefersTo u u := by
    intro hrefers
    have hdirect := Metadata.isDirect_of_isDeclaration hdeclared
    have hreachable := ((Metadata.resolvesTo_of_resolve h).declared u).1 hu
    exact (Metadata.resolvable_of_resolve h).acyclic u hreachable.1 (.single ⟨hrefers, hdirect, hdirect⟩)
  obtain ⟨chain, hchain, hlast, hback⟩ := hdepends
  have hearlier : v ∈ earlier :=
    Metadata.earlier_of_chain hself (hordered.before later u earlier heq) List.mem_cons_self (absurd rfl) hchain hback
      v (List.mem_of_getLast? hlast)
  have hdistinct : w.finished.Nodup := (Walk.finished_perm hrun).nodup_iff.2 (Walk.nodup_entered hrun)
  exact declaresBefore_of_finished (by rw [heq]) (heq ▸ hdistinct) hdeclared hv hearlier

/-- The order lists every declared type that is reached once, after all that it
reaches. -/
structure Registry.IsTopological (r : Registry) (m : Metadata) : Prop where
  all : ∀ id, id ∈ r.declarationOrder ↔ m.Reachable id ∧ m.isDeclaration id = true
  once : r.declarationOrder.Nodup
  sorted : ∀ u ∈ r.declarationOrder, ∀ v ∈ r.declarationOrder, TransGen m.RefersTo u v → r.DeclaresBefore v u

/-- **Dependencies are declared first.** A declared type stands after every
declared type that it depends on along types that do not reach back to it. Where
no type reaches itself, the order is topological. -/
theorem dependencies_declared_first (h : m.resolve = .ok r) :
    (∀ u ∈ r.declarationOrder, ∀ v, m.isDeclaration v = true → m.DependsOn u v → r.DeclaresBefore v u) ∧
      ((∀ id, m.Reachable id → ¬ TransGen m.RefersTo id id) → r.IsTopological m) := by
  have hto := Metadata.resolvesTo_of_resolve h
  refine ⟨fun u hu v hv => declaresBefore_of_dependsOn h hu hv, fun hacyclic => ?_⟩
  refine ⟨hto.declared, hto.declaredOnce, fun u hu v hv hreaches => ?_⟩
  have hdepends := Metadata.dependsOn_of_acyclic (hacyclic u ((hto.declared u).1 hu).1) hreaches
  exact declaresBefore_of_dependsOn h hu ((hto.declared v).1 hv).2 hdepends

/-- A folder holds a sequence of folders, and an owner in a pair. -/
def folderDocument : Metadata where
  contractName := "folders"
  contractVersion := "1.0"
  types :=
    [⟨0, .composite [{ typeId := 1, name := some "folders" }, { typeId := 2, name := some "owner" }], ["Folder"],
        [], []⟩,
      ⟨1, .sequence 0, [], [], []⟩, ⟨2, .tuple [3, 3], [], [], []⟩,
      ⟨3, .variant [{ name := "Nobody", index := 0 }], ["Owner"], [], []⟩]
  messages := [{ label := "root", returnType := some 0 }]

/-- What the folders resolve to. -/
def folderRegistry : Registry where
  entries := folderDocument.types
  declarationOrder := [3, 0]

/-- The pair and the owners in it do not refer back to folders. So the chain
that goes from a folder through them is one along which the dependency
counts. -/
theorem folderDocument_dependsOn : folderDocument.DependsOn 0 3 := by
  have hfolder : folderDocument.references 0 = [1, 2] := by decide
  have hpair : folderDocument.references 2 = [3, 3] := by decide
  have howner : folderDocument.references 3 = [] := by decide
  have hstay : ∀ x y, x = 2 ∨ x = 3 → ReflTransGen folderDocument.RefersTo x y → y = 2 ∨ y = 3 := by
    intro x y hx hpath
    induction hpath with
    | refl => exact hx
    | tail _ hrefers ih =>
      rcases ih with rfl | rfl
      · simp only [Metadata.RefersTo, hpair, List.mem_cons, List.not_mem_nil, or_false, or_self] at hrefers
        exact Or.inr hrefers
      · simp [Metadata.RefersTo, howner] at hrefers
  refine ⟨[2, 3], ?_, rfl, fun x hx _ hback => ?_⟩
  · have hfirst : folderDocument.RefersTo 0 2 := by simp [Metadata.RefersTo, hfolder]
    have hnext : folderDocument.RefersTo 2 3 := by simp [Metadata.RefersTo, hpair]
    exact .cons_cons hfirst (.cons_cons hnext (.singleton 3))
  · exact absurd (hstay x 0 (by simpa using hx) hback) (by decide)

/-- In the document of folders a type is declared behind one that it depends
on. -/
theorem dependencies_declared_first_folder :
    folderDocument.resolve = .ok folderRegistry ∧ folderDocument.DependsOn 0 3 ∧ folderRegistry.DeclaresBefore 3 0 := by
  have hresolve : folderDocument.resolve = .ok folderRegistry := by cbv
  exact ⟨hresolve, folderDocument_dependsOn,
    (dependencies_declared_first hresolve).1 0 (by decide) 3 (by decide) folderDocument_dependsOn⟩

end ContractClient
