/-
What resolving promises.

The walk enters the types that the signatures reach, and the search looks for
cycles among them. So a document resolves exactly if each reached type is sound
and no reached type contains itself, `resolve_spec`, and the registry then holds
the reached types. An error, on the other hand, always points at something that
is there to be seen in the document, `resolve_error`: a reference to a missing
type and the place that makes it, a type with a defect, or a cycle. Both rest on
the invariants of the walk and of the search, the one at their end and the other
where they stop.
-/
import ContractClient.Proofs.Registry.Traversal
import ContractClient.Proofs.Registry.DirectCycles

set_option autoImplicit false

namespace ContractClient

open Relation

variable {m : Metadata} {id : TypeId} {r : Registry}

/-! ## The end of the walk -/

namespace Walk

variable {w : Walk}

/-- At the end of the walk a type was entered if it is reached. -/
theorem entered_iff (h : Walk.run m { roots := m.signatureRoots } = .ok w) :
    id ∈ w.entered ↔ m.Reachable id := by
  obtain ⟨htracks, hroots, hstack⟩ := run_ok Tracks.step Tracks.init h
  refine ⟨htracks.reachable id, ?_⟩
  rintro ⟨root, hroot, hpath⟩
  induction hpath with
  | refl =>
    obtain ⟨past, heq, hpast⟩ := htracks.taken
    rw [heq, hroots, List.append_nil] at hroot
    exact hpast root hroot
  | tail _ hrefers ih => simpa [hstack] using htracks.followed _ ih _ hrefers

/-- At the end of the walk every type that was entered is finished. -/
theorem finished_perm (h : Walk.run m { roots := m.signatureRoots } = .ok w) : w.finished.Perm w.entered := by
  obtain ⟨htracks, -, hstack⟩ := run_ok Tracks.step Tracks.init h
  simpa [path, hstack] using htracks.split

/-- At the end of the walk no type was entered twice. -/
theorem nodup_entered (h : Walk.run m { roots := m.signatureRoots } = .ok w) : w.entered.Nodup :=
  (run_ok Tracks.step Tracks.init h).1.distinct

/-- At the end of the walk every reached type was checked and is sound. -/
theorem sound_of_run (h : Walk.run m { roots := m.signatureRoots } = .ok w) (hid : m.Reachable id) : m.Sound id :=
  (run_ok Tracks.step Tracks.init h).1.sound id ((entered_iff h).2 hid)

end Walk

/-! ## The end of the search -/

namespace Metadata

variable {ids : List TypeId}

/-- Where every reached type is searched and no cycle found, no reached type
contains itself directly. -/
theorem not_cycle_of_directCycle? (hids : ∀ id, m.Reachable id → id ∈ ids) (h : m.directCycle? ids = none)
    (hid : m.Reachable id) : ¬ TransGen m.RefersDirectly id id := by
  intro hcycle
  have hends := CycleSearch.Explores.run_none .init h
  -- the search follows every direct reference between reached types
  have hfollows : ∀ a b, m.Reachable a → m.RefersDirectly a b →
      CycleSearch.Follows m (ids.filter m.isDirect) b a := by
    rintro a b ha ⟨hrefers, -, hdirect⟩
    exact ⟨List.mem_filter.2 ⟨hids b (ha.child hrefers), hdirect⟩, hrefers⟩
  have hlift : ∀ b, TransGen m.RefersDirectly id b →
      m.Reachable b ∧ TransGen (CycleSearch.Follows m (ids.filter m.isDirect)) b id := by
    intro b hb
    induction hb with
    | single hstep => exact ⟨hid.child hstep.1, .single (hfollows _ _ hid hstep)⟩
    | tail _ hstep ih => exact ⟨ih.1.child hstep.1, ih.2.head (hfollows _ _ ih.1 hstep)⟩
  obtain ⟨c, -, -, -, hdirect⟩ := TransGen.tail'_iff.1 hcycle
  have hnode : id ∈ ids.filter m.isDirect := List.mem_filter.2 ⟨hids id hid, hdirect⟩
  exact (hends id hnode).not_cycle (hlift id hcycle).2

/-- A cycle that is found among reached types is one. -/
theorem directCycle_of_directCycle? {cycle : List TypeId} (hids : ∀ id ∈ ids, m.Reachable id)
    (h : m.directCycle? ids = some (id, cycle)) : m.DirectCycle id cycle := by
  obtain ⟨s, hexplores, hfound⟩ := CycleSearch.Explores.run_some .init h
  obtain ⟨rest, rfl, hdistinct, hlinked, hnodes⟩ := hexplores.cycle_of_found hfound
  exact
    { starts := rfl
      ends := List.getLast?_concat
      length := by simp
      once := List.nodup_append_comm.1 (List.nodup_cons.2 (List.nodup_cons.1 hdistinct))
      linked := hlinked
      direct := fun id' hid' => (List.mem_filter.1 (hnodes id' hid')).2
      reachable := fun id' hid' => hids id' (List.mem_filter.1 (hnodes id' hid')).1 }

/-- A chain of steps that comes back to its start leads from there to there. -/
theorem transGen_of_isChain {α : Type} {R : α → α → Prop} {a : α} {chain : List α} (hstarts : chain.head? = some a)
    (hends : chain.getLast? = some a) (hlength : 2 ≤ chain.length) (hchain : chain.IsChain R) : TransGen R a a := by
  match chain, hstarts with
  | [_], _ => simp at hlength
  | first :: next :: rest, hstarts =>
    obtain rfl : first = a := Option.some.inj hstarts
    refine .head' (hchain.rel_head? rfl) ?_
    refine List.relationReflTransGen_of_exists_isChain_cons _ hchain.tail ?_
    rw [List.getLast?_eq_some_getLast (by simp)] at hends
    simpa using Option.some.inj hends

/-- The first type of a direct cycle contains itself. -/
theorem DirectCycle.transGen {cycle : List TypeId} (h : m.DirectCycle id cycle) :
    m.Reachable id ∧ TransGen m.RefersDirectly id id := by
  have hchain : cycle.IsChain m.RefersDirectly :=
    h.linked.imp_of_mem_imp fun a b ha hb hrefers => ⟨hrefers, h.direct a ha, h.direct b hb⟩
  exact ⟨h.reachable id (List.mem_of_head? h.starts), transGen_of_isChain h.starts h.ends h.length hchain⟩

end Metadata

/-! ## Resolving -/

namespace Metadata

/-- Every reached type is sound, and none contains itself other than through a
sequence or an array. -/
structure Resolvable (m : Metadata) : Prop where
  sound : ∀ id, m.Reachable id → m.Sound id
  acyclic : ∀ id, m.Reachable id → ¬ TransGen m.RefersDirectly id id

/-- A registry holds the reached types: each once and as the document has it,
and the declared ones among them, each once, in the order of declarations. -/
structure ResolvesTo (m : Metadata) (r : Registry) : Prop where
  reached : ∀ id, id ∈ r.entries.map (·.id) ↔ m.Reachable id
  once : (r.entries.map (·.id)).Nodup
  own : ∀ e ∈ r.entries, m.entry? e.id = some e
  closed : ∀ e ∈ r.entries, ∀ child ∈ e.definition.references, child ∈ r.entries.map (·.id)
  declared : ∀ id, id ∈ r.declarationOrder ↔ m.Reachable id ∧ m.isDeclaration id = true
  declaredOnce : r.declarationOrder.Nodup

/-- Resolving succeeds with what the walk gives if it comes to its end and no
cycle is found. -/
theorem resolve_ok_iff : m.resolve = .ok r ↔
    ∃ w, Walk.run m { roots := m.signatureRoots } = .ok w ∧ m.directCycle? w.entered.reverse = none ∧
      r = ⟨w.entered.reverse.filterMap m.entry?, w.finished.reverse.filter m.isDeclaration⟩ := by
  rw [resolve, bind_ok_iff]
  refine exists_congr fun w => and_congr_right fun _ => ?_
  cases hcycle : m.directCycle? w.entered.reverse with
  | none => simp [hcycle, eq_comm]
  | some found => simp [hcycle]

/-- Resolving fails where the walk is refused a type, or else with a cycle that
is found. -/
theorem resolve_error_cases {err : ResolveError} (h : m.resolve = .error err) :
    Walk.run m { roots := m.signatureRoots } = .error err ∨
      ∃ w id cycle, Walk.run m { roots := m.signatureRoots } = .ok w ∧
        m.directCycle? w.entered.reverse = some (id, cycle) ∧ err = .recursive id cycle := by
  cases hrun : Walk.run m { roots := m.signatureRoots } with
  | error err' =>
    rw [resolve, hrun] at h
    cases h
    exact Or.inl rfl
  | ok w =>
    cases hcycle : m.directCycle? w.entered.reverse with
    | none =>
      rw [resolve_ok_iff.2 ⟨w, hrun, hcycle, rfl⟩] at h
      cases h
    | some found =>
      refine Or.inr ⟨w, found.1, found.2, rfl, hcycle, ?_⟩
      simpa [resolve, hrun, hcycle, bind, Except.bind, eq_comm] using h

/-- The entries of types that are there stand under the types. -/
theorem map_id_filterMap_entry {ids : List TypeId} (h : ∀ id ∈ ids, ∃ e, m.entry? id = some e) :
    (ids.filterMap m.entry?).map (·.id) = ids := by
  induction ids with
  | nil => rfl
  | cons id ids ih =>
    obtain ⟨⟨e, he⟩, hrest⟩ := List.forall_mem_cons.1 h
    rw [List.filterMap_cons_some he, List.map_cons, ih hrest, id_of_entry he]

/-- What resolving gives holds the reached types. Each field of `ResolvesTo` is
read off the walk: what it entered is what is reached, and it entered nothing
twice; what it finished is in the order in which a type comes after those it
refers to. -/
theorem resolvesTo_of_resolve (h : m.resolve = .ok r) : m.ResolvesTo r := by
  -- The registry lists what the walk entered, in the order in which it did, and what it
  -- finished.
  obtain ⟨w, hrun, -, rfl⟩ := resolve_ok_iff.1 h
  have hentered : ∀ id, id ∈ w.entered.reverse ↔ m.Reachable id := fun id =>
    List.mem_reverse.trans (Walk.entered_iff hrun)
  have hids : (w.entered.reverse.filterMap m.entry?).map (·.id) = w.entered.reverse :=
    map_id_filterMap_entry fun id hid => (Walk.sound_of_run hrun ((hentered id).1 hid)).present
  -- Each entry stands in the document under its own number.
  have hown : ∀ e ∈ w.entered.reverse.filterMap m.entry?, m.entry? e.id = some e := by
    intro e he
    obtain ⟨id, -, hid⟩ := List.mem_filterMap.1 he
    rw [id_of_entry hid, hid]
  constructor
  case reached => exact fun id => by rw [hids, hentered]
  case once =>
    rw [hids]
    exact List.nodup_reverse.2 (Walk.nodup_entered hrun)
  case own => exact hown
  case closed =>
    intro e he child hchild
    have hreachable : m.Reachable e.id := (hentered e.id).1 (hids ▸ List.mem_map_of_mem he)
    rw [hids, hentered]
    exact hreachable.child (by rwa [RefersTo, references_of_entry (hown e he)])
  case declared =>
    intro id
    rw [List.mem_filter, List.mem_reverse, (Walk.finished_perm hrun).mem_iff, Walk.entered_iff hrun]
  case declaredOnce =>
    have hfinished : w.finished.Nodup := (Walk.finished_perm hrun).nodup_iff.2 (Walk.nodup_entered hrun)
    exact (List.nodup_reverse.2 hfinished).filter _

/-- A document of which resolving gives a registry is resolvable. -/
theorem resolvable_of_resolve (h : m.resolve = .ok r) : m.Resolvable := by
  obtain ⟨w, hrun, hcycle, -⟩ := resolve_ok_iff.1 h
  exact ⟨fun id hid => Walk.sound_of_run hrun hid, fun id hid =>
    not_cycle_of_directCycle? (fun id' hid' => List.mem_reverse.2 ((Walk.entered_iff hrun).2 hid')) hcycle hid⟩

/-! ## Errors -/

/-- The place that names a type first: the first of the signatures that name it,
or a type that is reached. -/
def NamedBy (m : Metadata) (id : TypeId) (referrer : Referrer) : Prop :=
  m.signatureRoots.find? (fun root => root.1 == id) = some (id, referrer) ∨
    ∃ id', m.Reachable id' ∧ m.RefersTo id' id ∧ referrer = .type id'

/-- What a referrer names is reached: a signature names it, or a reached type
does. -/
theorem NamedBy.reachable {referrer : Referrer} (h : m.NamedBy id referrer) : m.Reachable id := by
  rcases h with hfind | ⟨id', hid', hrefers, -⟩
  · exact .root (List.mem_of_find?_eq_some hfind)
  · exact hid'.child hrefers

end Metadata

/-- What an error says is to be seen in the document. -/
def ResolveError.Witnessed (m : Metadata) : ResolveError → Prop
  | .unresolved id referrer => m.entry? id = none ∧ m.NamedBy id referrer
  | .compactInner id inner => m.Reachable id ∧ m.WrapsOther id inner
  | .indexRange id arm index => m.Reachable id ∧ m.HasWideIndex id arm index
  | .indexReused id arm index first => m.Reachable id ∧ m.ReusesIndex id arm index first
  | .recursive id cycle => m.DirectCycle id cycle ∧ ∀ id', m.Reachable id' → m.Sound id'

namespace ResolveError

variable {err : ResolveError}

/-- Where something can be witnessed the document is not resolvable. -/
theorem Witnessed.not_resolvable (h : err.Witnessed m) : ¬ m.Resolvable := by
  intro hresolvable
  cases err with
  | unresolved id referrer =>
    obtain ⟨e, he⟩ := (hresolvable.sound id h.2.reachable).present
    cases h.1.symm.trans he
  | compactInner id inner => exact h.2.not_sound (hresolvable.sound id h.1)
  | indexRange id arm index => exact h.2.not_sound (hresolvable.sound id h.1)
  | indexReused id arm index first => exact h.2.not_sound (hresolvable.sound id h.1)
  | recursive id cycle =>
    obtain ⟨hreachable, hcycle⟩ := h.1.transGen
    exact hresolvable.acyclic id hreachable hcycle

/-- A type that is refused where it is named witnesses what is said of it. It is
missing, or its definition is unsound, and each way of being so has its own
error. -/
theorem witnessed_of_refuses {referrer : Referrer} (hnamed : m.NamedBy id referrer)
    (h : m.Refuses id referrer err) : err.Witnessed m := by
  have hreachable := hnamed.reachable
  cases err with
  | unresolved id' referrer' =>
    obtain ⟨hnone, ⟨rfl, rfl⟩ | ⟨hrefers, rfl⟩⟩ := h
    · exact ⟨hnone, hnamed⟩
    · exact ⟨hnone, Or.inr ⟨id, hreachable, hrefers, rfl⟩⟩
  | compactInner id' inner =>
    obtain ⟨rfl, hwraps⟩ := h
    exact ⟨hreachable, hwraps⟩
  | indexRange id' arm index =>
    obtain ⟨rfl, hwide⟩ := h
    exact ⟨hreachable, hwide⟩
  | indexReused id' arm index first =>
    obtain ⟨rfl, hreuses⟩ := h
    exact ⟨hreachable, hreuses⟩
  | recursive => exact h.elim

/-- A walk stops at a type where it is first named. What it has entered by then
was sound, so the error is about the type that was to be entered next. -/
theorem witnessed_of_run (h : Walk.run m { roots := m.signatureRoots } = .error err) : err.Witnessed m := by
  obtain ⟨w, htracks, hstep⟩ := Walk.run_error Walk.Tracks.step Walk.Tracks.init h
  rcases Walk.step_error hstep with
    ⟨id, referrer, roots, hroots, hnew, hrefuses⟩ | ⟨id, child, pending, stack, hstack, hrefuses⟩
  · obtain ⟨past, heq, hpast⟩ := htracks.taken
    refine witnessed_of_refuses (Or.inl ?_) hrefuses
    rw [heq, hroots, List.find?_append, List.find?_eq_none.2]
    · simp
    · intro root hroot hid
      have hid : root.1 = id := by simpa using hid
      exact hnew (hid ▸ hpast root hroot)
  · obtain ⟨walkRoots, walkStack, entered, finished⟩ := w
    obtain rfl : walkStack = ⟨id, child :: pending⟩ :: stack := hstack
    obtain ⟨hreachable, hrefers⟩ := htracks.next
    exact witnessed_of_refuses (Or.inr ⟨id, hreachable, hrefers, rfl⟩) hrefuses

/-- Each error of the three stages is witnessed: those of the walk, that of the
search, and the one for a name that is used twice. -/
theorem witnessed_of_resolve (h : m.resolve = .error err) : err.Witnessed m := by
  rcases Metadata.resolve_error_cases h with hrun | ⟨w, id, cycle, hrun, hcycle, rfl⟩
  · exact witnessed_of_run hrun
  · refine ⟨Metadata.directCycle_of_directCycle? (fun id' hid' => ?_) hcycle, fun id' => Walk.sound_of_run hrun⟩
    exact (Walk.entered_iff hrun).1 (List.mem_reverse.1 hid')

/-- The type whose definition an error is about, if the error stands for a
defect of the document's form. -/
def malformed? : ResolveError → Option TypeId
  | .unresolved _ _ => none
  | .compactInner id _ => some id
  | .indexRange id _ _ => some id
  | .indexReused id _ _ _ => some id
  | .recursive _ _ => none

/-- A text that is put together from two, before a third. -/
theorem append_of_split {whole first second : String} (h : whole = first ++ second) (rest : String) :
    whole ++ rest = first ++ (second ++ rest) := by
  rw [h, String.append_assoc]

/-- Such an error names the type by its place in the document. Only the errors
that are about the type's own definition do; the others name the type that
refers to it, or the cycle. -/
theorem message_of_malformed (h : err.malformed? = some id) :
    ∃ text, err.message = s!"SchemaError [types[id={id}]]: " ++ text := by
  -- The text of the message is one literal, which has to be split behind the place.
  have hcompact := append_of_split (show "]]: compact type " = "]]: " ++ "compact type " by decide)
  have hvariant := append_of_split (show "]]: variant type " = "]]: " ++ "variant type " by decide)
  cases err with
  | unresolved id' referrer => cases h
  | compactInner id' inner =>
    cases h
    refine ⟨s!"compact type {id} must wrap an unsigned integer, not type {inner}", ?_⟩
    unfold message
    simp only [toString, String.append_assoc]
    rw [hcompact]
  | indexRange id' arm index =>
    cases h
    refine ⟨s!"variant type {id}: {Text.literal arm} has index {index}, outside 0..255", ?_⟩
    unfold message
    simp only [toString, String.append_assoc]
    rw [hvariant]
  | indexReused id' arm index first =>
    cases h
    refine ⟨s!"variant type {id}: {Text.literal arm} reuses index {index} of {Text.literal first}", ?_⟩
    unfold message
    simp only [toString, String.append_assoc]
    rw [hvariant]
  | recursive id' cycle => cases h

end ResolveError

/-! ## The two promises -/

namespace Metadata

/-- **When a document resolves, and to what.** -/
theorem resolve_spec (m : Metadata) :
    ((∃ r, m.resolve = .ok r) ↔ m.Resolvable) ∧ ∀ r, m.resolve = .ok r → m.ResolvesTo r := by
  refine ⟨⟨fun ⟨r, h⟩ => resolvable_of_resolve h, fun hresolvable => ?_⟩, fun r h => resolvesTo_of_resolve h⟩
  cases h : m.resolve with
  | ok r => exact ⟨r, rfl⟩
  | error err => exact absurd hresolvable (ResolveError.witnessed_of_resolve h).not_resolvable

/-- A tree: a node holds a sequence of nodes and a number. -/
def treeDocument : Metadata where
  contractName := "forest"
  contractVersion := "1.0"
  types :=
    [⟨0, .composite [{ typeId := 1, name := some "children" }, { typeId := 2, name := some "weight" }], ["Node"],
        [], []⟩,
      ⟨1, .sequence 0, [], [], []⟩, ⟨2, .primitive (.unsigned .w8), [], [], []⟩]
  messages := [{ label := "root", returnType := some 0 }]

/-- What a tree resolves to. -/
def treeRegistry : Registry where
  entries := treeDocument.types
  declarationOrder := [0]

/-- The document of trees resolves. -/
theorem treeDocument_resolve : treeDocument.resolve = .ok treeRegistry := by
  cbv

/-- It does so to what the specification says. -/
theorem resolve_spec_tree : treeDocument.resolve = .ok treeRegistry ∧ treeDocument.ResolvesTo treeRegistry :=
  ⟨treeDocument_resolve, (resolve_spec treeDocument).2 treeRegistry treeDocument_resolve⟩

/-- **What an error of resolving says is there to be seen.** -/
theorem resolve_error_witnessed {err : ResolveError} (h : m.resolve = .error err) :
    err.Witnessed m ∧
      ∀ id, err.malformed? = some id → ∃ text, err.message = s!"SchemaError [types[id={id}]]: " ++ text :=
  ⟨ResolveError.witnessed_of_resolve h, fun _ hid => ResolveError.message_of_malformed hid⟩

/-- Two types that hold each other, met through a sequence first. -/
def tangledDocument : Metadata where
  contractName := "tangle"
  contractVersion := "1.0"
  types :=
    [⟨0, .composite [{ typeId := 2, name := some "many" }, { typeId := 1, name := some "one" }], ["X"], [], []⟩,
      ⟨1, .composite [{ typeId := 0, name := some "back" }], ["Y"], [], []⟩, ⟨2, .sequence 1, [], [], []⟩]
  messages := [{ label := "get", returnType := some 0 }]

/-- The document of a knot of two records does not resolve, and the cycle that
is reported goes through both. -/
theorem tangledDocument_resolve : tangledDocument.resolve = .error (.recursive 0 [0, 1, 0]) := by
  cbv

/-- What is reported is a cycle of direct references. -/
theorem resolve_error_witnessed_tangled :
    tangledDocument.resolve = .error (.recursive 0 [0, 1, 0]) ∧ tangledDocument.DirectCycle 0 [0, 1, 0] :=
  ⟨tangledDocument_resolve, (resolve_error_witnessed tangledDocument_resolve).1.1⟩

end Metadata

end ContractClient
