/-
What is asked of outcomes.

Whether reading and writing succeed is decided step by step, and each step of a
proof about them asks one of four things. That a composed step succeeded: then
each of its parts did, `bind_ok_iff` and `map_ok_iff`. In which ways it fails:
in those of its parts, `FailsAs`. How the outcome depends on references that
were not followed far enough: a step then either does not tell the difference or
ends with the one error that says so, `Agree`. Or how two steps compare that
both succeed: their results are related, `Concur`.
-/
import Mathlib.Data.List.Forall2

set_option autoImplicit false

namespace ContractClient

variable {ε α β : Type}

/-! ## Success -/

/-- A second step succeeds exactly if the first one did and gave it what it
needs. Proofs about readers and writers take their steps apart with this lemma
and never unfold them otherwise. -/
theorem bind_ok_iff {x : Except ε α} {f : α → Except ε β} {b : β} :
    (x >>= f) = .ok b ↔ ∃ a, x = .ok a ∧ f a = .ok b := by
  cases x with
  | error e => simp [bind, Except.bind]
  | ok a => simp [bind, Except.bind]

/-- What is made of a result is there exactly if the result is. -/
theorem map_ok_iff {x : Except ε α} {f : α → β} {b : β} :
    x.map f = .ok b ↔ ∃ a, x = .ok a ∧ f a = b := by
  cases x with
  | error e => simp [Except.map]
  | ok a => simp [Except.map]

/-- Changing errors changes no result. -/
theorem mapError_ok_iff {ε' : Type} {x : Except ε α} {f : ε → ε'} {a : α} : x.mapError f = .ok a ↔ x = .ok a := by
  cases x with
  | error e => simp [Except.mapError]
  | ok a => simp [Except.mapError]

/-- Forgetting errors forgets no result. -/
theorem toOption_eq_some_iff {x : Except ε α} {a : α} : x.toOption = some a ↔ x = .ok a := by
  cases x with
  | error e => simp [Except.toOption]
  | ok a => simp [Except.toOption]

/-- Several steps succeed if each of them does. In this form, as a relation
between two lists, what was made of a list can be taken apart by induction
without opening the loop again. -/
theorem mapM_ok_iff {f : α → Except ε β} {as : List α} {bs : List β} :
    as.mapM f = .ok bs ↔ List.Forall₂ (fun a b => f a = .ok b) as bs := by
  induction as generalizing bs with
  | nil =>
    rw [List.mapM_nil, List.forall₂_nil_left_iff]
    constructor
    · rintro ⟨⟩
      rfl
    · rintro rfl
      rfl
  | cons a as ih =>
    rw [List.mapM_cons, bind_ok_iff, List.forall₂_cons_left_iff]
    constructor
    · rintro ⟨b, hb, h⟩
      obtain ⟨bs', hbs, heq⟩ := bind_ok_iff.1 h
      cases heq
      exact ⟨b, bs', hb, ih.1 hbs, rfl⟩
    · rintro ⟨b, bs', hb, hbs, rfl⟩
      exact ⟨b, hb, bind_ok_iff.2 ⟨bs', ih.2 hbs, rfl⟩⟩

/-- What every step keeps, all steps keep. -/
theorem map_eq_of_forall₂ {γ : Type} {R : α → β → Prop} {f : α → γ} {g : β → γ} {as : List α} {bs : List β}
    (h : List.Forall₂ R as bs) (hkeep : ∀ a b, R a b → g b = f a) : bs.map g = as.map f := by
  induction h with
  | nil => rfl
  | cons hab _ ih => rw [List.map_cons, List.map_cons, hkeep _ _ hab, ih]

/-- What is shown of each step is shown of all of them. -/
theorem forall₂_imp_of_mem {R S : α → β → Prop} {as : List α} {bs : List β} (h : List.Forall₂ R as bs)
    (himp : ∀ a ∈ as, ∀ b, R a b → S a b) : List.Forall₂ S as bs := by
  induction h with
  | nil => exact .nil
  | cons hab _ ih =>
    obtain ⟨hhead, htail⟩ := List.forall_mem_cons.1 himp
    exact .cons (hhead _ hab) (ih htail)

/-- If there is something for each, there is a list of such things. -/
theorem exists_forall₂ {R : α → β → Prop} {as : List α} (h : ∀ a ∈ as, ∃ b, R a b) :
    ∃ bs, List.Forall₂ R as bs := by
  induction as with
  | nil => exact ⟨[], .nil⟩
  | cons a as ih =>
    obtain ⟨⟨b, hb⟩, hrest⟩ := List.forall_mem_cons.1 h
    obtain ⟨bs, hbs⟩ := ih hrest
    exact ⟨b :: bs, .cons hb hbs⟩

/-- What came of several steps came of one of them. -/
theorem exists_of_forall₂ {R : α → β → Prop} {as : List α} {bs : List β} (h : List.Forall₂ R as bs) {b : β}
    (hb : b ∈ bs) : ∃ a ∈ as, R a b := by
  induction h with
  | nil => cases hb
  | cons hab _ ih =>
    rcases List.mem_cons.1 hb with rfl | hb
    · exact ⟨_, List.mem_cons_self, hab⟩
    · obtain ⟨a, ha, hR⟩ := ih hb
      exact ⟨a, List.mem_cons_of_mem _ ha, hR⟩

/-! ## Failure -/

/-- Whether an outcome is a success or an error of a kind. -/
def FailsAs (P : ε → Prop) (r : Except ε α) : Prop :=
  ∀ e, r = .error e → P e

namespace FailsAs

variable {P Q : ε → Prop}

/-- A success is no failure, so it fails in every way that one likes. -/
theorem ok (a : α) : FailsAs P (.ok a) := by
  rintro e ⟨⟩

/-- An error of the kind is what a failure may be. -/
theorem error {e : ε} (h : P e) : FailsAs (α := α) P (.error e) := by
  rintro e' ⟨⟩
  exact h

/-- Steps fail in a way if the first one does, and the other one wherever the
first one succeeds. -/
theorem bind {r : Except ε α} {f : α → Except ε β} (h : FailsAs P r) (hf : ∀ a, r = .ok a → FailsAs P (f a)) :
    FailsAs P (r >>= f) := by
  cases r with
  | error e => exact error (h e rfl)
  | ok a => exact hf a rfl

theorem map {r : Except ε α} (f : α → β) (h : FailsAs P r) : FailsAs P (r.map f) := by
  cases r with
  | error e => exact error (h e rfl)
  | ok a => exact ok _

theorem mapM {f : α → Except ε β} {as : List α} (h : ∀ a ∈ as, FailsAs P (f a)) : FailsAs P (as.mapM f) := by
  induction as with
  | nil => exact ok _
  | cons a as ih =>
    obtain ⟨hhead, htail⟩ := List.forall_mem_cons.1 h
    rw [List.mapM_cons]
    exact hhead.bind fun _ _ => (ih htail).bind fun _ _ => ok _

theorem imp {r : Except ε α} (hPQ : ∀ e, P e → Q e) (h : FailsAs P r) : FailsAs Q r :=
  fun e he => hPQ e (h e he)

theorem ite {c : Prop} [Decidable c] {r s : Except ε α} (hthen : c → FailsAs P r) (helse : ¬ c → FailsAs P s) :
    FailsAs P (if c then r else s) := by
  by_cases hc : c
  · rw [if_pos hc]
    exact hthen hc
  · rw [if_neg hc]
    exact helse hc

end FailsAs

/-! ## Outcomes that were cut short -/

/-- Two outcomes agree if they are equal, or if the first one was cut short by
`bottom` where that is excused. With nothing excused this is equality; otherwise
it says that the first outcome approximates the second one. -/
def Agree (excused : Prop) (bottom : ε) (r r' : Except ε α) : Prop :=
  r = r' ∨ excused ∧ r = .error bottom

namespace Agree

variable {excused : Prop} {bottom : ε}

theorem refl (r : Except ε α) : Agree excused bottom r r :=
  Or.inl rfl

/-- Steps agree if they agree wherever the first part succeeds. -/
theorem bind {r r' : Except ε α} {f f' : α → Except ε β} (h : Agree excused bottom r r')
    (hf : ∀ a, r = .ok a → Agree excused bottom (f a) (f' a)) :
    Agree excused bottom (r >>= f) (r' >>= f') := by
  rcases h with rfl | ⟨hexcused, rfl⟩
  · cases r with
    | error e => exact refl _
    | ok a => exact hf a rfl
  · exact Or.inr ⟨hexcused, rfl⟩

theorem map {r r' : Except ε α} (f : α → β) (h : Agree excused bottom r r') :
    Agree excused bottom (r.map f) (r'.map f) := by
  rcases h with rfl | ⟨hexcused, rfl⟩
  · exact refl _
  · exact Or.inr ⟨hexcused, rfl⟩

end Agree

/-! ## Outcomes that are compared where both succeed -/

/-- Two outcomes concur if their results are related, provided that there are
two. -/
def Concur {α α' : Type} (R : α → α' → Prop) (r : Except ε α) (r' : Except ε α') : Prop :=
  ∀ a a', r = .ok a → r' = .ok a' → R a a'

namespace Concur

variable {α α' β β' : Type} {R : α → α' → Prop} {S : β → β' → Prop}

/-- Two results concur if they are related. -/
theorem ok {a : α} {a' : α'} (h : R a a') : Concur R (.ok a : Except ε α) (.ok a') := by
  rintro _ _ ⟨⟩ ⟨⟩
  exact h

/-- A failure on the left concurs with everything. -/
theorem error_left {e : ε} {r' : Except ε α'} : Concur R (.error e) r' :=
  fun _ _ h _ => nomatch h

/-- A failure on the right concurs with everything. -/
theorem error_right {e : ε} {r : Except ε α} : Concur R r (.error e) :=
  fun _ _ _ h => nomatch h

theorem refl {R : α → α → Prop} (hR : ∀ a, R a a) (r : Except ε α) : Concur R r r := by
  rintro a _ h h'
  cases h.symm.trans h'
  exact hR a

/-- Choices by one condition concur if both branches do. -/
theorem ite {c : Prop} [Decidable c] {r s : Except ε α} {r' s' : Except ε α'} (hthen : Concur R r r')
    (helse : Concur R s s') : Concur R (if c then r else s) (if c then r' else s') := by
  by_cases hc : c
  · rwa [if_pos hc, if_pos hc]
  · rwa [if_neg hc, if_neg hc]

/-- Steps concur if they concur wherever the first parts have related
results. -/
theorem bind {r : Except ε α} {r' : Except ε α'} {f : α → Except ε β} {f' : α' → Except ε β'} (h : Concur R r r')
    (hf : ∀ a a', R a a' → Concur S (f a) (f' a')) : Concur S (r >>= f) (r' >>= f') := by
  intro b b' hb hb'
  obtain ⟨a, ha, hb⟩ := bind_ok_iff.1 hb
  obtain ⟨a', ha', hb'⟩ := bind_ok_iff.1 hb'
  exact hf a a' (h a a' ha ha') b b' hb hb'

end Concur

end ContractClient
