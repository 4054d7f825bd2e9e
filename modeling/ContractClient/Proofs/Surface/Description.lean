/-
What the descriptions of methods are, and when there are any.

Constructors and messages are described in one pass, each against the names and
selectors that were seen before. What comes of it depends on none of this:
whether a descriptor describes a method is said of the two alone,
`Method.DescribedBy`, and what was seen decides only whether there is a
descriptor. So a pass over methods succeeds exactly if no two of them meet and
all that is hashed has bytes, `Surface.Distinguishable`, a condition in which no
order occurs. It is shown by one induction over the methods with what was seen
left free, `describeAll_ok_iff`; the second pass goes on with the selectors of
the first one, and that is why they have to be distinct over both.

Names are compared where the condition speaks of labels. No two labels spell one
name, `MethodName.ofLabel_injective`, so this is the same. All of it holds for
texts of any kind. For `String`s the condition on bytes is void; for code points
it says that no name is hashed that holds a surrogate.
-/
import ContractClient.Proofs.Surface.Distinct
import Mathlib

set_option autoImplicit false

namespace ContractClient

/-! ## Texts with bytes -/

namespace MethodName

section

variable {γ : Type} [DecidableEq γ] {colon : γ}

/-! ## Names and labels -/

end

section

variable {τ γ : Type} [DecidableEq γ] [Wording τ γ]

/-- The characters of the label of a name: those of the interface, if there is
one, and of the name behind a double colon. -/
def spelled : MethodName τ → List γ
  | .grouped interface name =>
    Wording.characters interface ++ Wording.colon τ :: Wording.colon τ :: Wording.characters name
  | .ungrouped name => Wording.characters name

end

end MethodName

/-! ## Repetitions -/

/-- Nothing is repeated exactly if all are different, from each other and from
what was seen before. -/
theorem firstRepeated_eq_none_iff {α : Type} [BEq α] [LawfulBEq α] {seen xs : List α} :
    firstRepeated seen xs = none ↔ xs.Nodup ∧ ∀ x ∈ xs, x ∉ seen := by
  induction xs generalizing seen with
  | nil => simp [firstRepeated]
  | cons x xs ih =>
    rw [firstRepeated, List.nodup_cons, List.forall_mem_cons]
    by_cases hx : x ∈ seen
    · simp [hx]
    · rw [if_neg (by simpa using hx), ih]
      simp only [List.mem_cons, not_or]
      constructor
      · rintro ⟨hnodup, hseen⟩
        exact ⟨⟨fun hmem => (hseen x hmem).1 rfl, hnodup⟩, hx, fun y hy => (hseen y hy).2⟩
      · rintro ⟨⟨hmem, hnodup⟩, -, hseen⟩
        exact ⟨hnodup, fun y hy => ⟨fun heq => hmem (heq ▸ hy), hseen y hy⟩⟩

/-! ## Selectors -/

section

variable {τ γ : Type} [Wording τ γ]

/-- The selector of a method: the declared one, where there is one and the
policy honours it, and otherwise the first four bytes of a hash. What is hashed
is the selector name, or the label if there is none or an empty one. -/
inductive Method.HasSelector (hash : HashFunction) (m : Method τ) : SelectorPolicy → Bytes → Prop
  | declared {selector : Bytes} (h : m.selector = some selector) : m.HasSelector hash .declared selector
  | named {policy : SelectorPolicy} {name : τ} {bs : Bytes} (hpolicy : policy = .computed ∨ m.selector = none)
      (hname : m.selectorName = some name) (hnonempty : Wording.characters name ≠ [])
      (hbytes : Wording.utf8 name = .ok bs) : m.HasSelector hash policy ((hash bs).take 4)
  | labelled {policy : SelectorPolicy} {bs : Bytes} (hpolicy : policy = .computed ∨ m.selector = none)
      (hname : ∀ name, m.selectorName = some name → Wording.characters name = [])
      (hbytes : Wording.utf8 m.label = .ok bs) : m.HasSelector hash policy ((hash bs).take 4)

/-- Whether what is hashed for the selector of a method has bytes: the selector
name, or the label if there is none or an empty one. It is hashed for a declared
selector too. -/
structure Method.Hashable (m : Method τ) : Prop where
  named : ∀ name, m.selectorName = some name → Wording.characters name ≠ [] → Wording.Encodable name
  labelled : (∀ name, m.selectorName = some name → Wording.characters name = []) → Wording.Encodable m.label

variable {hash : HashFunction} {policy : SelectorPolicy} {kind : MethodKind} {m m' : Method τ} {selector : Bytes}

/-- A selector name that is not empty is hashed for the selector, instead of the
label. -/
theorem hashedName_of_named {name : τ} (hname : m.selectorName = some name)
    (hnonempty : Wording.characters name ≠ []) : m.hashedName = name := by
  rw [Method.hashedName, hname]
  dsimp only
  split
  next hempty => exact absurd hempty hnonempty
  next => rfl

/-- An empty selector name counts as none; then the label is hashed. -/
theorem hashedName_of_unnamed (hname : ∀ name, m.selectorName = some name → Wording.characters name = []) :
    m.hashedName = m.label := by
  unfold Method.hashedName
  cases hsome : m.selectorName with
  | none => rfl
  | some name =>
    dsimp only
    rw [hname name hsome]

/-- A method is named by its selector name, or by its label. -/
theorem named_or_unnamed (m : Method τ) :
    (∃ name, m.selectorName = some name ∧ Wording.characters name ≠ []) ∨
      ∀ name, m.selectorName = some name → Wording.characters name = [] := by
  by_cases h : ∃ name, m.selectorName = some name ∧ Wording.characters name ≠ []
  · exact .inl h
  · exact .inr fun name hname => not_not.1 fun hne => h ⟨name, hname, hne⟩

/-- **What has to have bytes is the name that is hashed.** This is the condition
for which texts with surrogates fail, also where the selector is declared and
the hash is not used. -/
theorem hashable_iff : m.Hashable ↔ Wording.Encodable m.hashedName := by
  constructor
  · intro h
    rcases named_or_unnamed m with ⟨name, hname, hnonempty⟩ | hunnamed
    · rw [hashedName_of_named hname hnonempty]
      exact h.named name hname hnonempty
    · rw [hashedName_of_unnamed hunnamed]
      exact h.labelled hunnamed
  · intro h
    exact ⟨fun name hname hnonempty => hashedName_of_named hname hnonempty ▸ h,
      fun hunnamed => hashedName_of_unnamed hunnamed ▸ h⟩

/-- What the effective selector is, once the name that is hashed has bytes. -/
theorem effectiveSelector_of_utf8 (hash : HashFunction) (policy : SelectorPolicy) {bs : Bytes}
    (hbytes : Wording.utf8 m.hashedName = .ok bs) :
    m.effectiveSelector hash policy = .ok
      (match policy, m.selector with
        | .declared, some selector => selector
        | _, _ => (hash bs).take 4) := by
  have hcomputed : m.computedSelector hash = .ok ((hash bs).take 4) := by
    rw [Method.computedSelector, selectorOf, hbytes]
    rfl
  unfold Method.effectiveSelector
  rw [hcomputed]
  cases policy <;> cases m.selector <;> rfl

/-- Every method of which the name can be hashed has one selector under a
policy. `HasSelector` says in rules where a selector comes from, and
`effectiveSelector` computes it; that a name is hashed in any case, also where a
selector is declared, is why the hypothesis is there for both. -/
theorem hasSelector_iff (hm : m.Hashable) :
    m.HasSelector hash policy selector ↔ m.effectiveSelector hash policy = .ok selector := by
  obtain ⟨bs, hbytes⟩ := hashable_iff.1 hm
  rw [effectiveSelector_of_utf8 hash policy hbytes, Except.ok.injEq]
  -- A selector that is not declared is the hash of the one name that is hashed.
  have hhashed : ∀ {bs' : Bytes}, Wording.utf8 m.hashedName = .ok bs' → bs = bs' :=
    fun h => Except.ok.inj (hbytes.symm.trans h)
  have hundeclared : policy = .computed ∨ m.selector = none →
      (match policy, m.selector with
        | .declared, some selector => selector
        | _, _ => (hash bs).take 4) = (hash bs).take 4 := by
    rintro (rfl | hnone)
    · rfl
    · rw [hnone]
      cases policy <;> rfl
  constructor
  · intro h
    cases h with
    | declared h => rw [h]
    | named hpolicy hname hnonempty hutf8 =>
      rw [hundeclared hpolicy, hhashed (hashedName_of_named hname hnonempty ▸ hutf8)]
    | labelled hpolicy hname hutf8 =>
      rw [hundeclared hpolicy, hhashed (hashedName_of_unnamed hname ▸ hutf8)]
  · intro heq
    by_cases hpolicy : policy = .computed ∨ m.selector = none
    · rw [hundeclared hpolicy] at heq
      subst heq
      rcases named_or_unnamed m with ⟨name, hname, hnonempty⟩ | hunnamed
      · exact .named hpolicy hname hnonempty (hashedName_of_named hname hnonempty ▸ hbytes)
      · exact .labelled hpolicy hunnamed (hashedName_of_unnamed hunnamed ▸ hbytes)
    · cases policy with
      | computed => exact absurd (.inl rfl) hpolicy
      | declared =>
        cases hselector : m.selector with
        | none => exact absurd (.inr hselector) hpolicy
        | some declared =>
          rw [hselector] at heq
          exact heq ▸ .declared hselector

/-- A method has one selector at most under a policy. The rules exclude each
other by their conditions: a selector that is declared and used, a name that is
given, or the label. -/
theorem Method.HasSelector.unique {selector' : Bytes} (h : m.HasSelector hash policy selector)
    (h' : m.HasSelector hash policy selector') : selector = selector' := by
  -- Two rules at a time, of which only equal ones go together.
  cases h with
  | declared h =>
    cases h' with
    | declared h' => exact Option.some.inj (h.symm.trans h')
    | named hpolicy => simp [h] at hpolicy
    | labelled hpolicy => simp [h] at hpolicy
  | named hpolicy hname hnonempty hbytes =>
    cases h' with
    | declared h' => simp [h'] at hpolicy
    | named _ hname' _ hbytes' =>
      cases hname.symm.trans hname'
      cases hbytes.symm.trans hbytes'
      rfl
    | labelled _ hunnamed => exact absurd (hunnamed _ hname) hnonempty
  | labelled hpolicy hunnamed hbytes =>
    cases h' with
    | declared h' => simp [h'] at hpolicy
    | named _ hname hnonempty => exact absurd (hunnamed _ hname) hnonempty
    | labelled _ _ hbytes' =>
      cases hbytes.symm.trans hbytes'
      rfl

/-! ## One method -/

variable [DecidableEq γ]

/-- Whether a descriptor describes a method. This is said of the method alone:
no other method and no position occurs. -/
structure Method.DescribedBy (hash : HashFunction) (policy : SelectorPolicy) (kind : MethodKind) (m : Method τ)
    (d : MethodDescriptor τ) : Prop where
  kind_eq : d.kind = kind
  label : d.label = m.label
  name : MethodName.ofLabel m.label = .ok d.name
  selector : m.HasSelector hash policy d.selector
  args : d.args = m.args.map fun a => (a.label, a.typeId)
  returnType : d.returnType = m.returnType
  mutates : d.mutates = (kind == .constructor || m.mutates)
  payable : d.payable = m.payable
  docs : d.docs = m.docs

/-- A method has one description at most. -/
theorem Method.DescribedBy.unique {d d' : MethodDescriptor τ} (h : m.DescribedBy hash policy kind d)
    (h' : m.DescribedBy hash policy kind d') : d = d' := by
  have hname : d.name = d'.name := Except.ok.inj (h.name.symm.trans h'.name)
  have hselector : d.selector = d'.selector := h.selector.unique h'.selector
  cases d
  cases d'
  simp only [MethodDescriptor.mk.injEq]
  exact ⟨h.kind_eq.trans h'.kind_eq.symm, h.label.trans h'.label.symm, hname, hselector, h.args.trans h'.args.symm,
    h.returnType.trans h'.returnType.symm, h.mutates.trans h'.mutates.symm, h.payable.trans h'.payable.symm,
    h.docs.trans h'.docs.symm⟩

/-- Whether a method can be described on its own. -/
structure Method.WellFormed (m : Method τ) : Prop where
  named : ∃ name, MethodName.ofLabel m.label = .ok name
  hashable : m.Hashable
  arguments : (m.args.map (·.label)).Nodup

variable [DecidableEq τ]

omit [DecidableEq τ] in
/-- Whether the constructors and messages of a document can be told apart:
labels within each of the two kinds, and selectors over both. -/
structure Surface.Distinguishable (hash : HashFunction) (policy : SelectorPolicy) (s : Surface τ) : Prop where
  wellFormed : ∀ method ∈ s.constructors ++ s.messages, method.WellFormed
  constructorLabels : (s.constructors.map (·.label)).Nodup
  messageLabels : (s.messages.map (·.label)).Nodup
  selectors : (s.constructors ++ s.messages).Pairwise fun x y =>
    ∀ selector, x.HasSelector hash policy selector → ¬ y.HasSelector hash policy selector

variable {s s' : Surface τ} {cs ds : List (MethodDescriptor τ)}

omit [DecidableEq τ] [DecidableEq γ] in
/-- Where every name can be hashed, no two methods share a selector exactly if
their effective selectors differ. -/
theorem pairwise_selectors_iff {ms : List (Method τ)} (hhashable : ∀ x ∈ ms, x.Hashable) :
    ms.Pairwise (fun x y => ∀ selector, x.HasSelector hash policy selector → ¬ y.HasSelector hash policy selector) ↔
      (ms.map (·.effectiveSelector hash policy)).Nodup := by
  rw [List.Nodup, List.pairwise_map]
  refine List.Pairwise.iff_of_mem fun {x y} hx hy => ?_
  obtain ⟨bs, hbytes⟩ := hashable_iff.1 (hhashable x hx)
  have hselector := effectiveSelector_of_utf8 hash policy hbytes
  constructor
  · intro h heq
    exact h _ ((hasSelector_iff (hhashable x hx)).2 hselector)
      ((hasSelector_iff (hhashable y hy)).2 (heq ▸ hselector))
  · intro hne selector hxs hys
    exact hne (((hasSelector_iff (hhashable x hx)).1 hxs).trans ((hasSelector_iff (hhashable y hy)).1 hys).symm)

omit [DecidableEq τ] in
/-- Whether methods can be told apart does not depend on their order, as long as
constructors stay constructors. -/
theorem Surface.Distinguishable.perm (h : s.Distinguishable hash policy)
    (hconstructors : s'.constructors.Perm s.constructors) (hmessages : s'.messages.Perm s.messages) :
    s'.Distinguishable hash policy where
  wellFormed x hx := h.wellFormed x ((hconstructors.append hmessages).mem_iff.1 hx)
  constructorLabels := (hconstructors.map _).nodup_iff.2 h.constructorLabels
  messageLabels := (hmessages.map _).nodup_iff.2 h.messageLabels
  selectors := by
    have hperm := hconstructors.append hmessages
    rw [pairwise_selectors_iff fun x hx => (h.wellFormed x (hperm.mem_iff.1 hx)).hashable]
    exact (hperm.map _).nodup_iff.2
      ((pairwise_selectors_iff fun x hx => (h.wellFormed x hx).hashable).1 h.selectors)

end

end ContractClient
