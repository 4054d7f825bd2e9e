/-
The types of a document as a graph.

A type refers to the types that its definition names, and the signatures name
the types that everything starts from. What resolving promises is stated over
this graph and not over the walk: which types are reached, what a type has to be
like to be used, and what a cycle is that no value could have.

The checks of a single type are settled here as well. Each check is given twice:
when it passes, as an equivalence, and what it says when it does not.
-/
import ContractClient.Registry.Resolve
import ContractClient.Proofs.Outcome
import Mathlib.Logic.Relation
import Mathlib.Data.List.Chain

set_option autoImplicit false

namespace ContractClient

open Relation

variable {m : Metadata} {id : TypeId} {e : Entry}

/-! ## References -/

namespace Metadata

/-- The definition of a type. -/
def definition? (m : Metadata) (id : TypeId) : Option TypeDef :=
  (m.entry? id).map (·.definition)

/-- One type refers to another. -/
def RefersTo (m : Metadata) (id child : TypeId) : Prop :=
  child ∈ m.references id

/-- A type is named by a signature, or by a type that is reached. -/
def Reachable (m : Metadata) (id : TypeId) : Prop :=
  ∃ root ∈ m.signatureRoots, ReflTransGen m.RefersTo root.1 id

/-- A reference between types neither of which is a sequence or an array. -/
def RefersDirectly (m : Metadata) (id child : TypeId) : Prop :=
  m.RefersTo id child ∧ m.isDirect id = true ∧ m.isDirect child = true

/-- What a signature names is reached. -/
theorem Reachable.root {root : Root} (h : root ∈ m.signatureRoots) : m.Reachable root.1 :=
  ⟨root, h, .refl⟩

/-- What is reached from a reached type is reached. -/
theorem Reachable.trans {id' : TypeId} (h : m.Reachable id) (hpath : ReflTransGen m.RefersTo id id') :
    m.Reachable id' := by
  obtain ⟨root, hroot, hto⟩ := h
  exact ⟨root, hroot, hto.trans hpath⟩

/-- What a reached type refers to is reached. This is how the walk goes on from
each type that it enters. -/
theorem Reachable.child {child : TypeId} (h : m.Reachable id) (hchild : m.RefersTo id child) :
    m.Reachable child :=
  h.trans (.single hchild)

/-- The entry that is found has the number that was looked for. -/
theorem id_of_entry (h : m.entry? id = some e) : e.id = id := by
  simpa using List.find?_some h

/-- This and the next three lemmas say what is known of a type whose entry was
found. Here it is the definition. -/
theorem definition?_of_entry (h : m.entry? id = some e) : m.definition? id = some e.definition := by
  rw [definition?, h, Option.map_some]

/-- The references of a type are those of its entry. -/
theorem references_of_entry (h : m.entry? id = some e) : m.references id = e.definition.references := by
  rw [references, h]

/-- Whether references to a type count as direct is read off its entry. -/
theorem isDirect_of_entry (h : m.entry? id = some e) : m.isDirect id = !e.definition.isIndirect := by
  rw [isDirect, h]

/-- Whether a class is declared for a type is read off its entry. -/
theorem isDeclaration_of_entry (h : m.entry? id = some e) :
    m.isDeclaration id = e.definition.isDeclaration := by
  rw [isDeclaration, h]

/-- A declared type holds its parts directly. -/
theorem isDirect_of_isDeclaration (h : m.isDeclaration id = true) : m.isDirect id = true := by
  cases he : m.entry? id with
  | none => simp [isDeclaration, he] at h
  | some e =>
    rw [isDeclaration_of_entry he] at h
    rw [isDirect_of_entry he]
    cases hdef : e.definition with
    | sequence item => simp [hdef, TypeDef.isDeclaration] at h
    | array item length => simp [hdef, TypeDef.isDeclaration] at h
    | _ => rfl

/-! ## What a type has to be like -/

/-- The type is there. If it is compact it wraps an unsigned integer, and if it
has arms then their indices are distinct and are bytes. -/
structure Sound (m : Metadata) (id : TypeId) : Prop where
  present : ∃ e, m.entry? id = some e
  compact : ∀ inner, m.definition? id = some (.compact inner) →
    ∃ width, m.definition? inner = some (.primitive (.unsigned width))
  arms : ∀ arms, m.definition? id = some (.variant arms) →
    (arms.map (·.index)).Nodup ∧ ∀ arm ∈ arms, arm.index ≤ 255

/-- A cycle of references that goes through no sequence and no array, from a
type back to it. It passes no type twice and all of it is reached. -/
structure DirectCycle (m : Metadata) (id : TypeId) (cycle : List TypeId) : Prop where
  starts : cycle.head? = some id
  ends : cycle.getLast? = some id
  length : 2 ≤ cycle.length
  once : cycle.tail.Nodup
  linked : cycle.IsChain m.RefersTo
  direct : ∀ id' ∈ cycle, m.isDirect id' = true
  reachable : ∀ id' ∈ cycle, m.Reachable id'

end Metadata

/-! ## The check of arms -/

/-- A definition is an unsigned integer if it is the primitive type of some
width. -/
theorem TypeDef.isUnsigned_iff {d : TypeDef} : d.isUnsigned = true ↔ ∃ width, d = .primitive (.unsigned width) := by
  cases d with
  | primitive kind => cases kind <;> simp [TypeDef.isUnsigned, Primitive.isUnsigned]
  | _ => simp [TypeDef.isUnsigned]

/-- Arms pass if their indices are bytes, differ from one another and from the
ones seen before. The check carries the arms it has seen, so the induction is
for any of them; at the start there are none. -/
theorem checkArms_ok_iff {seen arms : List Arm} :
    checkArms id seen arms = .ok () ↔
      ((arms.map (·.index)).Nodup ∧ ∀ arm ∈ arms, arm.index ≤ 255) ∧
        ∀ arm ∈ arms, ∀ first ∈ seen, first.index ≠ arm.index := by
  induction arms generalizing seen with
  | nil => simp [checkArms]
  | cons arm rest ih =>
    rw [checkArms]
    split_ifs with hrange
    · simp only [false_iff]
      rintro ⟨⟨-, hbytes⟩, -⟩
      have := hbytes arm List.mem_cons_self
      omega
    · cases hfind : seen.find? fun a => a.index == arm.index with
      | some first =>
        simp only [reduceCtorEq, false_iff]
        rintro ⟨-, hseen⟩
        have hindex : first.index = arm.index := by simpa using List.find?_some hfind
        exact hseen arm List.mem_cons_self first (List.mem_of_find?_eq_some hfind) hindex
      | none =>
        -- An index that was not seen is added to those that are.
        have hfresh : ∀ first ∈ seen, first.index ≠ arm.index := by
          simpa using List.find?_eq_none.1 hfind
        simp only [ih, List.map_cons, List.nodup_cons, List.mem_map, List.forall_mem_cons]
        grind

/-- What is said of arms: an index that is no byte, or the index of an arm
before. The arm at fault is the first one, since the check stops there; what was
seen before is on its left. -/
theorem checkArms_error {seen arms : List Arm} {err : ResolveError} (h : checkArms id seen arms = .error err) :
    (∃ arm ∈ arms, 255 < arm.index ∧ err = .indexRange id arm.name arm.index) ∨
      ∃ before arm after, arms = before ++ arm :: after ∧
        ∃ first, (first ∈ seen ∨ first ∈ before) ∧ first.index = arm.index ∧
          err = .indexReused id arm.name arm.index first.name := by
  induction arms generalizing seen with
  | nil => cases h
  | cons arm rest ih =>
    rw [checkArms] at h
    split_ifs at h with hrange
    · cases h
      exact Or.inl ⟨arm, List.mem_cons_self, hrange, rfl⟩
    · cases hfind : seen.find? fun a => a.index == arm.index with
      | some first =>
        simp only [hfind, Except.error.injEq] at h
        have hindex : first.index = arm.index := by simpa using List.find?_some hfind
        exact Or.inr ⟨[], arm, rest, rfl, first, Or.inl (List.mem_of_find?_eq_some hfind), hindex, h.symm⟩
      | none =>
        simp only [hfind] at h
        rcases ih h with ⟨other, hmem, hother⟩ | ⟨before, other, after, rfl, first, hfirst, hother⟩
        · exact Or.inl ⟨other, List.mem_cons_of_mem _ hmem, hother⟩
        · refine Or.inr ⟨arm :: before, other, after, rfl, first, ?_, hother⟩
          grind

/-! ## The check of a type -/

namespace Metadata

/-- A type that is there passes its check if it is sound. Compact types and
variants are the two that can fail; every other definition is sound as it
stands. -/
theorem checkEntry_ok_iff (he : m.entry? id = some e) : m.checkEntry e = .ok () ↔ m.Sound id := by
  have hdef := definition?_of_entry he
  unfold checkEntry
  cases hd : e.definition with
  | compact inner =>
    rw [hd] at hdef
    have hsound : m.Sound id ↔ ∃ width, m.definition? inner = some (.primitive (.unsigned width)) :=
      ⟨fun h => h.compact inner hdef, fun h => ⟨⟨e, he⟩, by simpa [hdef] using h, by simp [hdef]⟩⟩
    rw [hsound]
    cases hinner : m.entry? inner with
    | none => simp [definition?, hinner]
    | some i => simp [definition?, hinner, ← TypeDef.isUnsigned_iff]
  | variant arms =>
    rw [hd] at hdef
    have hsound : m.Sound id ↔ (arms.map (·.index)).Nodup ∧ ∀ arm ∈ arms, arm.index ≤ 255 :=
      ⟨fun h => h.arms arms hdef, fun h => ⟨⟨e, he⟩, by simp [hdef], by simpa [hdef] using h⟩⟩
    rw [hsound, checkArms_ok_iff]
    simp
  | _ =>
    rw [hd] at hdef
    exact ⟨fun _ => ⟨⟨e, he⟩, by simp [hdef], by simp [hdef]⟩, fun _ => rfl⟩

/-- A type is entered if it is there and sound. The referrer is only named in
the error, so it does not occur on the other side. -/
theorem enter_ok_iff {referrer : Referrer} :
    m.enter id referrer = .ok e ↔ m.entry? id = some e ∧ m.Sound id := by
  unfold enter
  split
  · next hnone =>
    simp [hnone]
  · next e' he =>
    rw [map_ok_iff, he, Option.some.injEq]
    constructor
    · rintro ⟨_, hok, rfl⟩
      exact ⟨rfl, (checkEntry_ok_iff he).1 hok⟩
    · rintro ⟨rfl, hsound⟩
      exact ⟨(), (checkEntry_ok_iff he).2 hsound, rfl⟩

/-- A compact type wraps a type that is there and is no unsigned integer. -/
def WrapsOther (m : Metadata) (id inner : TypeId) : Prop :=
  m.definition? id = some (.compact inner) ∧
    ∃ d, m.definition? inner = some d ∧ ∀ width, d ≠ .primitive (.unsigned width)

/-- An arm of a type has an index that is no byte. -/
def HasWideIndex (m : Metadata) (id : TypeId) (name : String) (index : Nat) : Prop :=
  ∃ arms, m.definition? id = some (.variant arms) ∧
    ∃ arm ∈ arms, arm.name = name ∧ arm.index = index ∧ 255 < index

/-- An arm of a type has the index of an arm before it, the one called
`first`. -/
def ReusesIndex (m : Metadata) (id : TypeId) (name : String) (index : Nat) (first : String) : Prop :=
  ∃ before arm after, m.definition? id = some (.variant (before ++ arm :: after)) ∧
    arm.name = name ∧ arm.index = index ∧ ∃ other ∈ before, other.name = first ∧ other.index = index

/-- A compact type that wraps anything but an unsigned integer is not sound. -/
theorem WrapsOther.not_sound {inner : TypeId} (h : m.WrapsOther id inner) : ¬ m.Sound id := by
  intro hsound
  obtain ⟨hdef, d, hd, hother⟩ := h
  obtain ⟨width, hinner⟩ := hsound.compact inner hdef
  exact hother width (Option.some.inj (hd.symm.trans hinner))

/-- A variant with an index that does not fit in a byte is not sound. -/
theorem HasWideIndex.not_sound {name : String} {index : Nat} (h : m.HasWideIndex id name index) :
    ¬ m.Sound id := by
  intro hsound
  obtain ⟨arms, hdef, arm, hmem, -, rfl, hwide⟩ := h
  have hbyte := (hsound.arms arms hdef).2 arm hmem
  omega

/-- A variant in which two arms share an index is not sound. -/
theorem ReusesIndex.not_sound {name first : String} {index : Nat} (h : m.ReusesIndex id name index first) :
    ¬ m.Sound id := by
  intro hsound
  obtain ⟨before, arm, after, hdef, -, rfl, other, hother, -, hindex⟩ := h
  have hnodup := (hsound.arms _ hdef).1
  rw [List.map_append, List.map_cons, List.nodup_append] at hnodup
  exact hnodup.2.2 other.index (List.mem_map_of_mem hother) arm.index List.mem_cons_self hindex

/-- What is said of a type that is not entered. It is missing, or it is a
compact type of which the wrapped type is missing or wrong, or it has an arm
with a wrong index. -/
def Refuses (m : Metadata) (id : TypeId) (referrer : Referrer) : ResolveError → Prop
  | .unresolved id' referrer' =>
    m.entry? id' = none ∧ (id' = id ∧ referrer' = referrer ∨ m.RefersTo id id' ∧ referrer' = .type id)
  | .compactInner id' inner => id' = id ∧ m.WrapsOther id inner
  | .indexRange id' name index => id' = id ∧ m.HasWideIndex id name index
  | .indexReused id' name index first => id' = id ∧ m.ReusesIndex id name index first
  | .recursive _ _ => False

/-- **The check of an entry fails over what is wrong with it.** Each error comes
with its witness: the type that is wrapped, or the arms. -/
theorem checkEntry_error {referrer : Referrer} {err : ResolveError} (he : m.entry? id = some e)
    (h : m.checkEntry e = .error err) : m.Refuses id referrer err := by
  have hid := id_of_entry he
  have hdef := definition?_of_entry he
  unfold checkEntry at h
  cases hd : e.definition with
  | compact inner =>
    rw [hd] at hdef
    rw [hd, hid] at h
    have hrefers : m.RefersTo id inner := by
      simp [RefersTo, references_of_entry he, hd, TypeDef.references]
    cases hinner : m.entry? inner with
    | none =>
      simp only [hinner, Except.error.injEq] at h
      rw [← h]
      exact ⟨hinner, Or.inr ⟨hrefers, rfl⟩⟩
    | some i =>
      simp only [hinner] at h
      split_ifs at h with hunsigned
      cases h
      refine ⟨rfl, hdef, i.definition, definition?_of_entry hinner, fun width hwidth => ?_⟩
      exact hunsigned (TypeDef.isUnsigned_iff.2 ⟨width, hwidth⟩)
  | variant arms =>
    rw [hd] at hdef
    rw [hd, hid] at h
    rcases checkArms_error h with
      ⟨arm, hmem, hrange, rfl⟩ | ⟨before, arm, after, rfl, first, hfirst, hindex, rfl⟩
    · exact ⟨rfl, arms, hdef, arm, hmem, rfl, rfl, hrange⟩
    · refine ⟨rfl, before, arm, after, hdef, rfl, rfl, first, ?_, rfl, hindex⟩
      simpa using hfirst
  | _ => simp [hd] at h

/-- Entering a type fails because it is not there, or over what is wrong with
its entry. -/
theorem enter_error {referrer : Referrer} {err : ResolveError} (h : m.enter id referrer = .error err) :
    m.Refuses id referrer err := by
  unfold enter at h
  split at h
  · next hnone =>
    cases h
    exact ⟨hnone, Or.inl ⟨rfl, rfl⟩⟩
  · next e he =>
    cases hcheck : m.checkEntry e with
    | ok u => simp [hcheck, Except.map] at h
    | error x =>
      simp only [hcheck, Except.map, Except.error.injEq] at h
      rw [← h]
      exact checkEntry_error he hcheck

end Metadata

/-! ## Paths -/

/-- The frames of a path, its end first: each type is referred to by the one
before it on the path, and what is pending in a frame are references of its
type. -/
structure IsPath (m : Metadata) (stack : List Frame) : Prop where
  linked : (stack.map (·.id)).IsChain fun id parent => m.RefersTo parent id
  pending : ∀ f ∈ stack, ∀ child ∈ f.pending, m.RefersTo f.id child

namespace IsPath

/-- There is a path without types, before the first one is entered. -/
theorem nil : IsPath m [] :=
  ⟨.nil, by simp⟩

/-- A path goes on with a type that its end refers to. -/
theorem push {stack : List Frame} (h : IsPath m stack) (hparent : ∀ f ∈ stack.head?, m.RefersTo f.id id) :
    IsPath m (⟨id, m.references id⟩ :: stack) where
  linked := by
    refine h.linked.cons fun parent hhead => ?_
    rw [List.head?_map, Option.mem_def, Option.map_eq_some_iff] at hhead
    obtain ⟨f, hf, rfl⟩ := hhead
    exact hparent f hf
  pending := List.forall_mem_cons.2 ⟨fun _ hchild => hchild, h.pending⟩

/-- A path without its end is one. -/
theorem pop {f : Frame} {stack : List Frame} (h : IsPath m (f :: stack)) : IsPath m stack :=
  ⟨h.linked.tail, (List.forall_mem_cons.1 h.pending).2⟩

/-- A reference is dropped from a frame, anywhere on the path. -/
theorem pass {below : List Frame} {child : TypeId} {pending : List TypeId} (above : List Frame)
    (h : IsPath m (above ++ ⟨id, child :: pending⟩ :: below)) : IsPath m (above ++ ⟨id, pending⟩ :: below) where
  linked := by simpa using h.linked
  pending := by
    intro f hf c hc
    rcases List.mem_append.1 hf with hf | hf
    · exact h.pending f (List.mem_append_left _ hf) c hc
    rcases List.mem_cons.1 hf with rfl | hf
    · exact h.pending ⟨id, child :: pending⟩ (by simp) c (List.mem_cons_of_mem _ hc)
    · exact h.pending f (by simp [hf]) c hc

/-- The types of a path reach its end. -/
theorem reaches {top f : Frame} {stack : List Frame} (h : IsPath m (top :: stack)) (hf : f ∈ top :: stack) :
    ReflTransGen m.RefersTo f.id top.id := by
  induction stack generalizing top with
  | nil =>
    rw [List.mem_singleton.1 hf]
  | cons next rest ih =>
    rcases List.mem_cons.1 hf with rfl | hf
    · exact .refl
    · have hlink : m.RefersTo next.id top.id := h.linked.rel_head? rfl
      exact (ih h.pop hf).tail hlink

end IsPath

end ContractClient
