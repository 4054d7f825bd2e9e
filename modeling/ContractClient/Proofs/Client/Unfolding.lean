/-
What comes to an end in a client.

A codec demands a part at the offset where it is read itself only if its type
holds the type of this part inline. So demands of a client end where inline
references end, `Made.founded`: by induction on the latter, for the codec of a
declaration before those of the expressions that name it. Where no knot can be
reached they all end, and decoding gives a value or an error that is about the
bytes.

A knot is the one thing that resolving lets through and that never unfolds,
`loop_unranked`.
-/
import ContractClient.Proofs.Client.Grounded

set_option autoImplicit false

namespace ContractClient

open Codec Relation

/-! ## From a registry to its document -/

section

variable {m : Metadata} {r : Registry} {id child : TypeId}

/-- A resolved registry has the definitions of its document. Those that are not
reached are missing, so this is no equivalence. -/
theorem definition?_of_resolve (hresolve : m.resolve = .ok r) {d : TypeDef} (h : r.definition? id = some d) :
    m.definition? id = some d := by
  obtain ⟨e, he, rfl⟩ := Option.map_eq_some_iff.1 h
  rw [Metadata.definition?, entry?_of_resolve hresolve he]
  rfl

/-- What a type holds inline in the registry it holds in the document. The
promise is about documents, and the client is made from registries. -/
theorem Registry.HoldsInline.of_resolve (hresolve : m.resolve = .ok r) (h : r.HoldsInline id child) :
    m.HoldsInline id child := by
  obtain ⟨d, hd, hchild⟩ := h
  exact ⟨d, definition?_of_resolve hresolve hd, hchild⟩

/-- What a type refers to in the registry it refers to in the document. -/
theorem Registry.RefersTo.of_resolve (hresolve : m.resolve = .ok r) (h : r.RefersTo id child) :
    m.RefersTo id child := by
  obtain ⟨d, hd, hchild⟩ := h
  obtain ⟨e, he, rfl⟩ := Option.map_eq_some_iff.1 (definition?_of_resolve hresolve hd)
  rw [Metadata.RefersTo, Metadata.references_of_entry he]
  exact hchild

end

/-! ## Demands of a client -/

/-- **Demands end where inline references end.** -/
theorem Made.founded {r : Registry} {names : ModuleNames} {env : Environment} (hdeclared : DeclaresAll r names env)
    {id : TypeId} (hacc : Acc (fun child id => r.HoldsInline id child) id) :
    ∀ {c : Codec}, Made r names env id c → Founded env c := by
  induction hacc with
  | intro id _ ih =>
    have hdeclaration : ∀ d, Describes r names id d → Founded env d.codec := by
      refine fun d hd => Acc.intro _ fun a ha => ?_
      obtain ⟨child, x, hx, rfl, hholds⟩ := hd.part ha.mem_parts
      exact ih child hholds (.late hx)
    refine fun {c} h => Acc.intro c fun a ha => ?_
    obtain ⟨child, hmade, -, hholds⟩ | ⟨d, hd, rfl⟩ := h.part hdeclared ha.mem_parts
    · exact ih child (hholds ha) hmade
    · exact hdeclaration d hd

section

variable {m : Metadata} {u : CompilationUnit} {runtimeModule handle : String} {cm : ClientModule} {b : Bindings}

/-- **All demands end** in the codec of a type from which no knot can be
reached. -/
theorem founded_of_hasCodec (hresolve : m.resolve = .ok u.registry)
    (hclient : u.client runtimeModule handle = .ok cm) (hrun : cm.run = .ok b) {id : TypeId}
    (hid : m.Reachable id) (hknots : ∀ x, ReflTransGen m.RefersTo id x → ¬ m.IsKnot x) {c : Codec}
    (h : u.HasCodec handle b id c) : Everywhere b.environment (Founded b.environment) c := by
  refine everywhere_of_hasCodec hresolve hclient hrun h fun x a hx hmade => ?_
  have hreached : ReflTransGen m.RefersTo id x :=
    ReflTransGen.mono (fun _ _ hstep => hstep.of_resolve hresolve) _ _ hx
  have hacc : Acc (fun child id => m.HoldsInline id child) x := by
    refine Metadata.acc_of_no_knots hresolve (hid.trans hreached) fun y hy => hknots y (hreached.trans ?_)
    exact ReflTransGen.mono (fun _ _ hstep => hstep.refersTo) _ _ hy
  exact hmade.founded (declaresAll_of_run hresolve hclient hrun)
    (Subrelation.accessible (fun hchild => hchild.of_resolve hresolve) hacc)

end

/-! ## The promise -/

/-- **What resolves unfolds, knots aside.** The reachable types have ranks such
that every type ranks above each one that it refers to, apart from the item of a
sequence, the item of an array without items, and the item of an array that
holds itself inline. So a type that needs a copy of itself inside itself holds
such an array; and the codec of a type from which none can be reached, in any
imported module for the registry, demands only what comes to an end at each
offset, and gives a value or an error within every buffer. -/
theorem resolved_unfolds {m : Metadata} {r : Registry} (hresolve : m.resolve = .ok r) :
    (∃ rank : TypeId → Nat, ∀ id child, m.Reachable id → m.HoldsInline id child →
      rank child < rank id ∨ m.IsKnot id) ∧
    (∀ id, m.Reachable id → TransGen m.HoldsInline id id → ∃ x, ReflTransGen m.HoldsInline id x ∧ m.IsKnot x) ∧
    ∀ (u : CompilationUnit) runtimeModule handle cm b, u.registry = r → u.client runtimeModule handle = .ok cm →
      cm.run = .ok b → ∀ id c, m.Reachable id → (∀ x, ReflTransGen m.RefersTo id x → ¬ m.IsKnot x) →
        u.HasCodec handle b id c → Everywhere b.environment (Founded b.environment) c ∧
          ∀ buf o, o ≤ buf.length →
            (∃ v e, decodeFrom b.environment c buf o = .ok (v, e) ∧ o ≤ e ∧ e ≤ buf.length) ∨
              ∃ err, decodeFrom b.environment c buf o = .error err ∧ ∀ n, err ≠ .endless n := by
  refine ⟨Metadata.exists_rank_inline hresolve, fun id => Metadata.exists_knot_of_cycle hresolve, ?_⟩
  rintro u runtimeModule handle cm b rfl hclient hrun id c hid hknots hc
  have hfounded := founded_of_hasCodec hresolve hclient hrun hid hknots hc
  refine ⟨hfounded, fun buf o ho => ?_⟩
  cases hdecode : decodeFrom b.environment c buf o with
  | ok r => exact .inl ⟨r.1, r.2, rfl, ends_of_decodeFrom ho hdecode⟩
  | error err => exact .inr ⟨err, rfl, (decodeFrom_explained hfounded ho err hdecode).ne_endless⟩

/-- The unit of the tree document. -/
def treeUnit : CompilationUnit :=
  { contractName := "forest", contractVersion := "1.0", registry := Metadata.treeRegistry
    constructors := []
    messages := [{ kind := .message, label := "root", name := .ungrouped "root", selector := [1, 2, 3, 4], args := []
                   returnType := some 0, mutates := false, payable := false, docs := [] }]
    events := [], codeHash := none, bytecode := none }

theorem exists_treeImport : ∃ cm b, treeUnit.client "r" "H" = .ok cm ∧ cm.Imports b := by
  have himported : (treeUnit.imported "r" "H").toOption.map (fun _ => ()) = some () := by decide +kernel
  obtain ⟨cm, b, hclient, himports, -⟩ := exists_imported himported
  exact ⟨cm, b, hclient, himports⟩

theorem treeUnit_spell : treeUnit.registry.spell (treeUnit.moduleNames "H").types 0 = .ok (.named "Node") := by
  have hname : (treeUnit.moduleNames "H").types.find? 0 = some "Node" := by decide +kernel
  rw [Registry.spell, Registry.spellBelow, hname]
  rfl

theorem treeDocument_no_knots (id : TypeId) : ¬ Metadata.treeDocument.IsKnot id := by
  rintro ⟨⟨item, n, harray⟩, -⟩
  obtain ⟨e, he, hdef⟩ := Option.map_eq_some_iff.1 harray
  have hnone : ∀ e ∈ Metadata.treeDocument.types, ∀ item length, e.definition ≠ .array item length := by
    simp [Metadata.treeDocument]
  exact hnone e (List.mem_of_find?_eq_some he) _ _ hdef

/-- Trees hold their children in a sequence, so whatever bytes are read as a
tree, reading ends. -/
theorem resolved_unfolds_tree : Metadata.treeDocument.resolve = .ok treeUnit.registry ∧
    ∃ cm b c, treeUnit.client "r" "H" = .ok cm ∧ cm.run = .ok b ∧ treeUnit.HasCodec "H" b 0 c ∧
      ∀ buf, (∃ v e, decodeFrom b.environment c buf 0 = .ok (v, e) ∧ e ≤ buf.length) ∨
        ∃ err, decodeFrom b.environment c buf 0 = .error err ∧ ∀ n, err ≠ .endless n := by
  have hresolve : Metadata.treeDocument.resolve = .ok treeUnit.registry := Metadata.treeDocument_resolve
  obtain ⟨cm, b, hclient, hrun, -⟩ := exists_treeImport
  obtain ⟨c, hc⟩ := exists_hasCodec hresolve hclient hrun treeUnit_spell
  have hreached : Metadata.treeDocument.Reachable 0 := ⟨(0, .returnType .message "root"), by decide, .refl⟩
  refine ⟨hresolve, cm, b, c, hclient, hrun, hc, fun buf => ?_⟩
  have hends := ((resolved_unfolds hresolve).2.2 treeUnit "r" "H" cm b rfl hclient hrun 0 c hreached
    (fun x _ => treeDocument_no_knots x) hc).2 buf 0 (Nat.zero_le _)
  obtain ⟨v, e, hdecode, -, he⟩ | herr := hends
  · exact .inl ⟨v, e, hdecode, he⟩
  · exact .inr herr

namespace Metadata

/-- A loop: a record that holds an array of one loop. -/
def loopDocument : Metadata where
  contractName := "loop"
  contractVersion := "1.0"
  types := [⟨0, .composite [{ typeId := 1, name := some "next" }], ["Loop"], [], []⟩, ⟨1, .array 0 1, [], [], []⟩]
  messages := [{ label := "get", returnType := some 0 }]

/-- What a loop resolves to. -/
def loopRegistry : Registry where
  entries := loopDocument.types
  declarationOrder := [0]

/-- **A knot resolves and has no rank.** -/
theorem loop_unranked : loopDocument.resolve = .ok loopRegistry ∧
    ¬ ∃ rank : TypeId → Nat, ∀ id child, loopDocument.Reachable id → loopDocument.HoldsInline id child →
      rank child < rank id := by
  refine ⟨by cbv, ?_⟩
  rintro ⟨rank, hrank⟩
  have hreached : loopDocument.Reachable 0 := ⟨(0, .returnType .message "get"), by decide, .refl⟩
  have hrecord : loopDocument.HoldsInline 0 1 := ⟨_, rfl, List.mem_singleton.2 rfl⟩
  have harray : loopDocument.HoldsInline 1 0 := ⟨_, rfl, List.mem_singleton.2 rfl⟩
  have hdown := hrank 0 1 hreached hrecord
  have hup := hrank 1 0 (hreached.child hrecord.refersTo) harray
  omega

end Metadata

end ContractClient
