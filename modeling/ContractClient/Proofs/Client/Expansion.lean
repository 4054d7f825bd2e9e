/-
Expanding types.

A type that is spelled out stands for the types in it, unless spelling stops
there: at a name or at a leaf. So there is a graph of types that expand to
others, and a type can be spelled exactly if no cycle of this graph can be
reached from it. The graph may well have cycles, since references through
sequences and arrays may lead back.

One direction is what a refusal says: the path, in order, is a way through the
graph, and the part of it from the refused type on is a cycle. The other one is
an induction on the expression of a type: what is spelled expands to what was
spelled on the way, so expansion ends below it.
-/
import ContractClient.Proofs.Client.Faithful
import ContractClient.Proofs.Client.Grounded
import ContractClient.Proofs.Registry.Resolution
import Mathlib.Data.List.TakeWhile

set_option autoImplicit false

namespace ContractClient

open Relation

namespace Registry

/-! ## The graph of types -/

/-- Whether spelling stops at an entry without a name: at an account id or a
hash, at a primitive or a compact type, or at bytes. -/
def IsLeaf (r : Registry) (e : Entry) : Prop :=
  (∃ kind : Newtype, r.wellKnown? e = some kind.wellKnown) ∨
    match e.definition with
    | .primitive _ => True
    | .compact _ => True
    | .sequence item => r.isByte item = true
    | .array item _ => r.isByte item = true
    | _ => False

/-- Whether spelling stops at a type. -/
def StopsAt (r : Registry) (names : TypeNames) (id : TypeId) : Prop :=
  (∃ name, names.find? id = some name) ∨ ∃ e, r.entry? id = some e ∧ r.IsLeaf e

/-- Whether a type stands for another one, among others, when it is spelled
out. -/
def ExpandsTo (r : Registry) (names : TypeNames) (id child : TypeId) : Prop :=
  ¬ r.StopsAt names id ∧ r.RefersTo id child

/-- Whether expanding a type comes back to a type that is on the way. -/
def Loops (r : Registry) (names : TypeNames) (id : TypeId) : Prop :=
  ∃ x, ReflTransGen (r.ExpandsTo names) id x ∧ TransGen (r.ExpandsTo names) x x

/-- A cycle of expansions, from a type back to it. -/
structure ExpansionCycle (r : Registry) (names : TypeNames) (id : TypeId) (cycle : List TypeId) : Prop where
  starts : cycle.head? = some id
  ends : cycle.getLast? = some id
  length : 2 ≤ cycle.length
  linked : cycle.IsChain (r.ExpandsTo names)

/-- Whether every composite and every variant has a name or is a known shape. -/
def Covers (r : Registry) (names : TypeNames) : Prop :=
  ∀ id e, r.entry? id = some e → e.definition.isDeclaration = true →
    (∃ name, names.find? id = some name) ∨ r.wellKnown? e ≠ none

/-- What is there in a registry that was resolved: the types that are referred
to, unsigned integers in compact types, and arms with different indices. -/
structure Closed (r : Registry) : Prop where
  present : ∀ id child, r.RefersTo id child → ∃ e, r.entry? child = some e
  compact : ∀ id inner, r.definition? id = some (.compact inner) →
    ∃ width, r.definition? inner = some (.primitive (.unsigned width))
  arms : ∀ id arms, r.definition? id = some (.variant arms) → (arms.map (·.index)).Nodup

end Registry

section

variable {m : Metadata} {r : Registry}

/-- A resolved registry has exactly the types that are reached. -/
theorem entry?_of_reachable (hresolve : m.resolve = .ok r) {id : TypeId} (hid : m.Reachable id) :
    ∃ e, r.entry? id = some e := by
  obtain ⟨e, he, heq⟩ := List.mem_map.1 (((Metadata.resolvesTo_of_resolve hresolve).reached id).2 hid)
  rw [← Option.isSome_iff_exists, Registry.entry?, List.find?_isSome]
  exact ⟨e, he, beq_iff_eq.2 heq⟩

/-- What has an entry in a resolved registry is reached. -/
theorem reachable_of_entry (hresolve : m.resolve = .ok r) {id : TypeId} {e : Entry} (he : r.entry? id = some e) :
    m.Reachable id := by
  have hid : e.id = id := by simpa using List.find?_some he
  exact ((Metadata.resolvesTo_of_resolve hresolve).reached id).1
    (hid ▸ List.mem_map_of_mem (List.mem_of_find?_eq_some he))

/-- **A registry that was resolved is closed.** Whatever a definition in it
refers to has an entry, the payload of a compact type is an unsigned integer,
and arms have their own indices. The checks were made on the document's types;
here they are carried over to the entries. -/
theorem closed_of_resolve (hresolve : m.resolve = .ok r) : r.Closed := by
  have hsound := (Metadata.resolvable_of_resolve hresolve).sound
  have hdefinition : ∀ {id d}, r.definition? id = some d → m.Reachable id ∧ m.definition? id = some d := by
    intro id d hd
    obtain ⟨e, he, rfl⟩ := Option.map_eq_some_iff.1 hd
    exact ⟨reachable_of_entry hresolve he, Metadata.definition?_of_entry (entry?_of_resolve hresolve he)⟩
  -- Resolving has followed every reference and checked every definition that it came to.
  constructor
  case present =>
    rintro id child ⟨d, hd, hchild⟩
    obtain ⟨e, he, rfl⟩ := Option.map_eq_some_iff.1 hd
    refine entry?_of_reachable hresolve ((reachable_of_entry hresolve he).child ?_)
    rw [Metadata.RefersTo, Metadata.references_of_entry (entry?_of_resolve hresolve he)]
    exact hchild
  case compact =>
    intro id inner hd
    obtain ⟨hreached, hdef⟩ := hdefinition hd
    -- The payload was checked to be an integer, and being referred to it was reached too.
    obtain ⟨width, hwidth⟩ := (hsound id hreached).compact inner hdef
    have hinner : m.Reachable inner := by
      obtain ⟨e, he, hdef⟩ := Option.map_eq_some_iff.1 hdef
      refine hreached.child ?_
      rw [Metadata.RefersTo, Metadata.references_of_entry he, hdef]
      exact List.mem_singleton.2 rfl
    obtain ⟨e, he⟩ := entry?_of_reachable hresolve hinner
    rw [Metadata.definition?_of_entry (entry?_of_resolve hresolve he)] at hwidth
    exact ⟨width, Registry.definition?_of_entry he (Option.some.inj hwidth)⟩
  case arms =>
    intro id arms hd
    obtain ⟨hreached, hdef⟩ := hdefinition hd
    exact ((hsound id hreached).arms arms hdef).1

end

namespace Registry

variable {r : Registry} {names : TypeNames} {id : TypeId} {e : Entry}

/-! ## Where spelling goes on -/

/-- What a type refers to is in its definition. -/
theorem refersTo_of_entry (he : r.entry? id = some e) {child : TypeId} :
    r.RefersTo id child ↔ child ∈ e.definition.references := by
  rw [RefersTo, definition?_of_entry he rfl]
  simp

/-- What is in a type is there. -/
theorem Closed.present_of_entry (hclosed : r.Closed) (he : r.entry? id = some e) {child : TypeId}
    (hchild : child ∈ e.definition.references) : ∃ e, r.entry? child = some e :=
  hclosed.present id child ((refersTo_of_entry he).2 hchild)

/-- What is in a type that spelling does not stop at, it expands to. -/
theorem expandsTo_of_entry (hname : names.find? id = none) (he : r.entry? id = some e) (hleaf : ¬ r.IsLeaf e)
    {child : TypeId} (hchild : child ∈ e.definition.references) : r.ExpandsTo names id child := by
  refine ⟨?_, (refersTo_of_entry he).2 hchild⟩
  rintro (⟨name, hsome⟩ | ⟨e', he', hleaf'⟩)
  · cases hname.symm.trans hsome
  · cases he.symm.trans he'
    exact hleaf hleaf'

/-- The payload of a known arm is referred to. -/
theorem mem_references_of_armType {d : TypeDef} {name : String} {inner : TypeId} (h : d.armType? name = some inner) :
    inner ∈ d.references :=
  TypeDef.mem_references_of_inline (TypeDef.mem_inline_of_armType h)

/-- Without the shape of an account id or a hash, a leaf is one by its
definition. -/
theorem isLeaf_iff (hknown : ∀ kind : Newtype, r.wellKnown? e ≠ some kind.wellKnown) : r.IsLeaf e ↔
    match e.definition with
    | .primitive _ => True
    | .compact _ => True
    | .sequence item => r.isByte item = true
    | .array item _ => r.isByte item = true
    | _ => False :=
  or_iff_right fun ⟨kind, hkind⟩ => hknown kind hkind

/-- What is no known shape is no account id or hash. This lemma and the next two
are what `isLeaf_iff` asks for, for each way in which spelling goes on. -/
theorem ne_newtype_of_none (h : r.wellKnown? e = none) (kind : Newtype) : r.wellKnown? e ≠ some kind.wellKnown := by
  rw [h]
  exact nofun

/-- An option is no account id or hash. -/
theorem ne_newtype_of_option (h : r.wellKnown? e = some .option) (kind : Newtype) :
    r.wellKnown? e ≠ some kind.wellKnown := by
  rw [h]
  cases kind <;> decide

/-- A result is no account id or hash. -/
theorem ne_newtype_of_result (h : r.wellKnown? e = some .result) (kind : Newtype) :
    r.wellKnown? e ≠ some kind.wellKnown := by
  rw [h]
  cases kind <;> decide

/-- Spelling goes on at an option, with its payload. -/
theorem not_isLeaf_option (h : r.wellKnown? e = some .option) : ¬ r.IsLeaf e := by
  obtain ⟨arms, hdef, -⟩ := wellKnown?_option h
  rw [isLeaf_iff (ne_newtype_of_option h), hdef]
  exact id

/-- Spelling goes on at a result, with both payloads. -/
theorem not_isLeaf_result (h : r.wellKnown? e = some .result) : ¬ r.IsLeaf e := by
  obtain ⟨arms, hdef, -⟩ := wellKnown?_result h
  rw [isLeaf_iff (ne_newtype_of_result h), hdef]
  exact id

/-- Spelling goes on at a sequence, unless its items are bytes. -/
theorem not_isLeaf_sequence (h : r.wellKnown? e = none) {item : TypeId} (hdef : e.definition = .sequence item)
    (hbyte : ¬ r.isByte item = true) : ¬ r.IsLeaf e := by
  rw [isLeaf_iff (ne_newtype_of_none h), hdef]
  exact hbyte

/-- Spelling goes on at an array, unless its items are bytes. -/
theorem not_isLeaf_array (h : r.wellKnown? e = none) {item : TypeId} {length : Nat}
    (hdef : e.definition = .array item length) (hbyte : ¬ r.isByte item = true) : ¬ r.IsLeaf e := by
  rw [isLeaf_iff (ne_newtype_of_none h), hdef]
  exact hbyte

/-- Spelling goes on at a tuple, with each of its parts. -/
theorem not_isLeaf_tuple (h : r.wellKnown? e = none) {items : List TypeId} (hdef : e.definition = .tuple items) :
    ¬ r.IsLeaf e := by
  rw [isLeaf_iff (ne_newtype_of_none h), hdef]
  exact id

/-- A known arm has a payload. -/
theorem exists_armType {arms : List Arm} {expected : List (String × Nat × Nat)} (harms : hasArms arms expected = true)
    (name : String) (index : Nat) (hkey : (name, index, 1) ∈ expected)
    (hname : ∀ key ∈ expected, key.1 = name → key = (name, index, 1))
    (hindex : ∀ key ∈ expected, key.2.1 = index → key = (name, index, 1)) :
    ∃ inner, (TypeDef.variant arms).armType? name = some inner := by
  obtain ⟨arm, -, hfind, -, hcount⟩ := known_arm harms name index 1 hkey hname hindex
  obtain ⟨f, hf⟩ := List.length_eq_one_iff.1 hcount
  exact ⟨f.typeId, by rw [TypeDef.armType?, hfind]; simp [hf]⟩

/-- An option has a payload. -/
theorem exists_armType_option (h : r.wellKnown? e = some .option) :
    ∃ inner, e.definition.armType? "Some" = some inner := by
  obtain ⟨arms, hdef, harms⟩ := wellKnown?_option h
  rw [hdef]
  exact exists_armType harms "Some" 1 (by simp) (by simp) (by simp)

/-- A result has two. -/
theorem exists_armTypes_result (h : r.wellKnown? e = some .result) :
    ∃ ok err, e.definition.armType? "Ok" = some ok ∧ e.definition.armType? "Err" = some err := by
  obtain ⟨arms, hdef, harms⟩ := wellKnown?_result h
  rw [hdef]
  obtain ⟨ok, hok⟩ := exists_armType harms "Ok" 0 (by simp) (by simp) (by simp)
  obtain ⟨err, herr⟩ := exists_armType harms "Err" 1 (by simp) (by simp) (by simp)
  exact ⟨ok, err, hok, herr⟩

/-- What has to be declared has a name or is a known shape. -/
theorem Covers.known (hcovers : r.Covers names) (hname : names.find? id = none) (he : r.entry? id = some e)
    (hdeclaration : e.definition.isDeclaration = true) : r.wellKnown? e ≠ none := by
  rcases hcovers id e he hdeclaration with ⟨name, hsome⟩ | hknown
  · cases hname.symm.trans hsome
  · exact hknown

/-! ## What a refusal says -/

/-- Whether a path leads from a root to a type. Its end comes first. -/
structure LeadsFrom (r : Registry) (names : TypeNames) (root : TypeId) (path : List TypeId) (id : TypeId) : Prop where
  starts : (path.reverse ++ [id]).head? = some root
  linked : (path.reverse ++ [id]).IsChain (r.ExpandsTo names)

namespace LeadsFrom

variable {root child : TypeId} {path : List TypeId}

/-- No path leads from a type to itself. -/
theorem refl (id : TypeId) : r.LeadsFrom names id [] id :=
  ⟨rfl, .singleton id⟩

/-- A path is one type longer after an expansion. -/
theorem step (h : r.LeadsFrom names root path id) (hchild : r.ExpandsTo names id child) :
    r.LeadsFrom names root (id :: path) child := by
  constructor
  · rw [List.reverse_cons, List.head?_append, h.starts]
    rfl
  · rw [List.reverse_cons, List.isChain_append]
    refine ⟨h.linked, .singleton child, ?_⟩
    simp [hchild]

/-- The end of a path is reached from its start. -/
theorem reached (h : r.LeadsFrom names root path id) : ReflTransGen (r.ExpandsTo names) root id := by
  obtain ⟨chain, hchain⟩ := List.head?_eq_some_iff.1 h.starts
  have hlast : (path.reverse ++ [id]).getLast? = some id := List.getLast?_concat
  have hlinked := h.linked
  rw [hchain] at hlinked hlast
  refine List.relationReflTransGen_of_exists_isChain_cons chain hlinked ?_
  rw [List.getLast?_eq_some_getLast (by simp)] at hlast
  exact Option.some.inj hlast

/-- **A type that is on the path to it closes a cycle**, which starts where the
type is on the path. -/
theorem cycle (h : r.LeadsFrom names root path id) (hid : id ∈ path) :
    r.ExpansionCycle names id (path.reverse.dropWhile (· != id) ++ [id]) := by
  cases hrest : path.reverse.dropWhile (· != id) with
  | nil =>
    have hall := List.dropWhile_eq_nil_iff.1 hrest id (List.mem_reverse.2 hid)
    simp at hall
  | cons first rest =>
    have hfirst := List.head?_dropWhile_not (· != id) path.reverse
    rw [hrest] at hfirst
    obtain rfl : first = id := by simpa using hfirst
    refine ⟨rfl, List.getLast?_concat, by simp, ?_⟩
    -- It is the end of the path.
    rw [← hrest]
    obtain ⟨before, hbefore⟩ := List.dropWhile_suffix (· != first) (l := path.reverse)
    exact h.linked.suffix ⟨before, by rw [← List.append_assoc, hbefore]⟩

end LeadsFrom

/-- **Spelling is only refused for a type that is on the path already.** What
holds of the path and goes on holding along expansions can be used to say more
of the refusal. -/
theorem spellBelow_failsAs (hclosed : r.Closed) (hcovers : r.Covers names) {P : List TypeId → TypeId → Prop}
    {Q : SpellError → Prop}
    (hstep : ∀ path id child, P path id → r.ExpandsTo names id child → P (id :: path) child)
    (hrefused : ∀ path id, P path id → id ∈ path → Q (.recursive id (path.reverse.dropWhile (· != id) ++ [id])))
    {path : List TypeId} (hpath : P path id) (hpresent : ∃ e, r.entry? id = some e) :
    FailsAs Q (r.spellBelow names path id) := by
  -- The ways out that refuse for another reason do not occur in a registry that is closed
  -- and covered.
  fun_induction Registry.spellBelow r names path id with
  | case1 path id hn => exact .error (hrefused path id hpath (by simpa using hn))
  | case3 path id hn hname hnone =>
    obtain ⟨e, he⟩ := hpresent
    cases hnone.symm.trans he
  | case6 path id hn hname e he hknown inner hinner ih =>
    have hchild := expandsTo_of_entry hname he (not_isLeaf_option hknown) (mem_references_of_armType hinner)
    exact (ih (hstep _ _ _ hpath hchild) (hclosed.present id inner hchild.2)).bind fun _ _ => .ok _
  | case7 path id hn hname e he hknown hnone =>
    obtain ⟨inner, hinner⟩ := exists_armType_option hknown
    cases hnone.symm.trans hinner
  | case8 path id hn hname e he hknown ok err herr hok ihok iherr =>
    have hgood := expandsTo_of_entry hname he (not_isLeaf_result hknown) (mem_references_of_armType hok)
    have hbad := expandsTo_of_entry hname he (not_isLeaf_result hknown) (mem_references_of_armType herr)
    refine (ihok (hstep _ _ _ hpath hgood) (hclosed.present id ok hgood.2)).bind fun _ _ => ?_
    exact (iherr (hstep _ _ _ hpath hbad) (hclosed.present id err hbad.2)).bind fun _ _ => .ok _
  | case9 path id hn hname e he hknown hnone =>
    obtain ⟨ok, err, hok, herr⟩ := exists_armTypes_result hknown
    exact (hnone ok err hok herr).elim
  | case12 path id hn hname e he hknown inner hdef hwidth =>
    obtain ⟨width, hinner⟩ := hclosed.compact id inner (definition?_of_entry he hdef)
    exact (hwidth width hinner).elim
  | case14 path id hn hname e he hknown item hdef hbyte ih =>
    have hmem : item ∈ e.definition.references := by simp [hdef, TypeDef.references]
    have hchild := expandsTo_of_entry hname he (not_isLeaf_sequence hknown hdef hbyte) hmem
    exact (ih (hstep _ _ _ hpath hchild) (hclosed.present id item hchild.2)).bind fun _ _ => .ok _
  | case16 path id hn hname e he hknown item length hdef hbyte ih =>
    have hmem : item ∈ e.definition.references := by simp [hdef, TypeDef.references]
    have hchild := expandsTo_of_entry hname he (not_isLeaf_array hknown hdef hbyte) hmem
    exact (ih (hstep _ _ _ hpath hchild) (hclosed.present id item hchild.2)).bind fun _ _ => .ok _
  | case17 path id hn hname e he hknown items hdef ih =>
    refine (FailsAs.mapM fun item hitem => ?_).bind fun _ _ => .ok _
    have hmem : item ∈ e.definition.references := by simp [hdef, TypeDef.references, hitem]
    have hchild := expandsTo_of_entry hname he (not_isLeaf_tuple hknown hdef) hmem
    exact ih item (hstep _ _ _ hpath hchild) (hclosed.present id item hchild.2)
  | case18 path id hn hname e he hknown fields hdef =>
    exact (hcovers.known hname he (by rw [hdef]; rfl) hknown).elim
  | case19 path id hn hname e he hknown arms hdef =>
    exact (hcovers.known hname he (by rw [hdef]; rfl) hknown).elim
  | _ => exact .ok _

/-- Whether an error says that a cycle of expansions is reached from a type. -/
def ReportsCycle (r : Registry) (names : TypeNames) (root : TypeId) (err : SpellError) : Prop :=
  ∃ id cycle, err = .recursive id cycle ∧ r.ExpansionCycle names id cycle ∧ ReflTransGen (r.ExpandsTo names) root id

/-- From its beginning, spelling fails only on a cycle. -/
theorem spell_failsAs (hclosed : r.Closed) (hcovers : r.Covers names) (hpresent : ∃ e, r.entry? id = some e) :
    FailsAs (r.ReportsCycle names id) (r.spell names id) := by
  refine spellBelow_failsAs hclosed hcovers (P := r.LeadsFrom names id) ?_ ?_ (.refl id) hpresent
  · exact fun path id child hpath hchild => hpath.step hchild
  · exact fun path x hpath hx => ⟨x, _, rfl, hpath.cycle hx, hpath.reached⟩

/-! ## What an expression says -/

/-- The arms of a variant are told apart by their indices. -/
theorem arm_eq_of_index {arms : List Arm} (hnodup : (arms.map (·.index)).Nodup) {arm other : Arm} (harm : arm ∈ arms)
    (hother : other ∈ arms) (hindex : arm.index = other.index) : arm = other :=
  List.inj_on_of_nodup_map hnodup harm hother hindex

/-- A type in an arm with a payload is the one by which the arm is known. -/
theorem eq_of_payload {arms : List Arm} (hnodup : (arms.map (·.index)).Nodup) {expected : List (String × Nat × Nat)}
    (harms : hasArms arms expected = true) {name : String} {index : Nat} (hkey : (name, index, 1) ∈ expected)
    (hname : ∀ key ∈ expected, key.1 = name → key = (name, index, 1))
    (hindex : ∀ key ∈ expected, key.2.1 = index → key = (name, index, 1)) {inner : TypeId}
    (hinner : (TypeDef.variant arms).armType? name = some inner) {arm : Arm} (harm : arm ∈ arms)
    (harmIndex : arm.index = index) {f : Field} (hf : f ∈ arm.fields) : f.typeId = inner := by
  obtain ⟨known, hfound, hfind, hknown, hcount⟩ := known_arm harms name index 1 hkey hname hindex
  obtain ⟨g, hg, rfl⟩ := payload_of_armType hinner hfind hcount
  obtain rfl := arm_eq_of_index hnodup harm (List.mem_of_find?_eq_some hfound) (harmIndex.trans hknown.symm)
  rw [hg, List.mem_singleton] at hf
  rw [hf]

/-- An option refers to its payload and nothing else. That the indices of its
arms differ is what makes sure that there is no second arm with another
payload. -/
theorem references_option (hclosed : r.Closed) (he : r.entry? id = some e) (h : r.wellKnown? e = some .option)
    {inner : TypeId} (hinner : e.definition.armType? "Some" = some inner) {child : TypeId}
    (hchild : child ∈ e.definition.references) : child = inner := by
  obtain ⟨arms, hdef, harms⟩ := wellKnown?_option h
  rw [hdef] at hinner hchild
  obtain ⟨arm, harm, hchild⟩ := List.mem_flatMap.1 hchild
  obtain ⟨f, hf, rfl⟩ := List.mem_map.1 hchild
  have hkey := (hasArms_iff.1 harms).1 arm harm
  simp only [List.mem_cons, List.not_mem_nil, or_false, Prod.mk.injEq] at hkey
  rcases hkey with ⟨-, -, hnone⟩ | ⟨-, hindex, -⟩
  · rw [List.eq_nil_of_length_eq_zero hnone] at hf
    cases hf
  · exact eq_of_payload (hclosed.arms id arms (definition?_of_entry he hdef)) harms (by simp) (by simp) (by simp) hinner
      harm hindex hf

/-- A result refers to its two payloads and nothing else. -/
theorem references_result (hclosed : r.Closed) (he : r.entry? id = some e) (h : r.wellKnown? e = some .result)
    {ok err : TypeId} (hok : e.definition.armType? "Ok" = some ok) (herr : e.definition.armType? "Err" = some err)
    {child : TypeId} (hchild : child ∈ e.definition.references) : child = ok ∨ child = err := by
  obtain ⟨arms, hdef, harms⟩ := wellKnown?_result h
  rw [hdef] at hok herr hchild
  have hnodup := hclosed.arms id arms (definition?_of_entry he hdef)
  obtain ⟨arm, harm, hchild⟩ := List.mem_flatMap.1 hchild
  obtain ⟨f, hf, rfl⟩ := List.mem_map.1 hchild
  rcases index_of_hasArms harms arm harm with hindex | hindex
  · exact .inl (eq_of_payload hnodup harms (by simp) (by simp) (by simp) hok harm hindex hf)
  · exact .inr (eq_of_payload hnodup harms (by simp) (by simp) (by simp) herr harm hindex hf)

/-- Whether expanding a type ends, whichever way is taken. -/
def Ends (r : Registry) (names : TypeNames) (id : TypeId) : Prop :=
  Acc (fun child id => r.ExpandsTo names id child) id

/-- Where spelling stops, expanding ends. -/
theorem ends_of_stopsAt (h : r.StopsAt names id) : r.Ends names id :=
  Acc.intro id fun _ hchild => absurd h hchild.1

/-- Expanding a type ends if it does for all that the type refers to. -/
theorem ends_of_references (he : r.entry? id = some e)
    (h : ∀ child ∈ e.definition.references, r.Ends names child) : r.Ends names id :=
  Acc.intro id fun child hchild => h child ((refersTo_of_entry he).1 hchild.2)

/-- **What is spelled ends.** The induction is on the expression that was
spelled. Together with `closed_of_resolve` this turns an expression into a bound
on following references, which is what keeps a mapper from running into a
loop. -/
theorem Spells.ends (hclosed : r.Closed) {t : TypeExpr} (h : r.Spells names id t) : r.Ends names id := by
  -- An expression stops at its leaves; elsewhere it has an expression for each reference.
  induction h with
  | named hname => exact ends_of_stopsAt (.inl ⟨_, hname⟩)
  | newtype he hknown => exact ends_of_stopsAt (.inr ⟨_, he, .inl ⟨_, hknown⟩⟩)
  | primitive he hdef => exact ends_of_stopsAt (.inr ⟨_, he, .inr (by simp only [hdef])⟩)
  | compact he hdef => exact ends_of_stopsAt (.inr ⟨_, he, .inr (by simp only [hdef])⟩)
  | bytes he hdef hbyte => exact ends_of_stopsAt (.inr ⟨_, he, .inr (by simp only [hdef, hbyte])⟩)
  | fixedBytes he hdef hbyte => exact ends_of_stopsAt (.inr ⟨_, he, .inr (by simp only [hdef, hbyte])⟩)
  | option he hknown hinner _ ih =>
    refine ends_of_references he fun child hchild => ?_
    exact references_option hclosed he hknown hinner hchild ▸ ih
  | result he hknown hok herr _ _ ihok iherr =>
    refine ends_of_references he fun child hchild => ?_
    rcases references_result hclosed he hknown hok herr hchild with rfl | rfl
    · exact ihok
    · exact iherr
  | seq he hdef _ _ ih =>
    refine ends_of_references he fun child hchild => ?_
    rw [hdef] at hchild
    exact List.mem_singleton.1 hchild ▸ ih
  | array he hdef _ _ ih =>
    refine ends_of_references he fun child hchild => ?_
    rw [hdef] at hchild
    exact List.mem_singleton.1 hchild ▸ ih
  | @tuple id items e xs he hdef hlen _ ih =>
    refine ends_of_references he fun child hchild => ?_
    rw [hdef] at hchild
    have hchild : child ∈ items := hchild
    rw [← List.map_fst_zip (Nat.le_of_eq hlen)] at hchild
    obtain ⟨p, hp, rfl⟩ := List.mem_map.1 hchild
    exact ih p hp

/-- What ends does not come back to itself. -/
theorem Ends.irrefl (h : r.Ends names id) : ¬ TransGen (r.ExpandsTo names) id id := by
  induction h with
  | intro id _ ih =>
    intro hcycle
    obtain ⟨child, hchild, hback⟩ := TransGen.head'_iff.1 hcycle
    exact ih child hchild (TransGen.tail' hback hchild)

/-- Where expanding ends, it ends for all that is come to. -/
theorem Ends.trans (h : r.Ends names id) {x : TypeId} (hreach : ReflTransGen (r.ExpandsTo names) id x) :
    r.Ends names x := by
  induction hreach with
  | refl => exact h
  | tail _ hstep ih => exact ih.inv hstep

/-- Where expanding ends it does not come back to anything. -/
theorem Ends.not_loops (h : r.Ends names id) : ¬ r.Loops names id := by
  rintro ⟨x, hreach, hcycle⟩
  exact (h.trans hreach).irrefl hcycle

/-- A cycle leads from its type back to it. -/
theorem ExpansionCycle.transGen {cycle : List TypeId} (h : r.ExpansionCycle names id cycle) :
    TransGen (r.ExpandsTo names) id id :=
  Metadata.transGen_of_isChain h.starts h.ends h.length h.linked

/-- **A type is spelled, or it loops.** If it loops, the refusal reports a cycle
that expanding it comes to. -/
theorem spell_cases (hclosed : r.Closed) (hcovers : r.Covers names) (hpresent : ∃ e, r.entry? id = some e) :
    (¬ r.Loops names id ∧ ∃ t, r.spell names id = .ok t) ∨
      r.Loops names id ∧ ∃ err, r.spell names id = .error err ∧ r.ReportsCycle names id err := by
  cases hspell : r.spell names id with
  | ok t => exact .inl ⟨((spells_of_spell hspell).ends hclosed).not_loops, t, rfl⟩
  | error err =>
    obtain ⟨x, cycle, rfl, hcycle, hreach⟩ := spell_failsAs hclosed hcovers hpresent err hspell
    exact .inr ⟨⟨x, hreach, hcycle.transGen⟩, _, rfl, x, cycle, rfl, hcycle, hreach⟩

end Registry

end ContractClient
