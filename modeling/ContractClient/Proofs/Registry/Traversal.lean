/-
What the walk over the types keeps.

The walk does one of five things in a step, `Walk.Step`: it passes a root or a
reference whose type was entered before, it enters the type of a root or of a
reference, or it finishes the type at the end of the path. Everything that is
proved of a whole walk is proved of these five steps first, and `run_ok` and
`run_error` carry it to the end, whether the walk comes to its end or is refused
a type.

The invariant, `Walk.Tracks`, says where every entered type stands: it is either
on the path or finished, and each of its references was followed unless it is
still pending in the type's own frame. Once the path is empty nothing is
pending, so the entered types are closed under references.
-/
import ContractClient.Proofs.Registry.Graph

set_option autoImplicit false

namespace ContractClient.Walk

open Relation

variable {m : Metadata} {w w' : Walk}

/-! ## Steps -/

/-- The types on the path, its end first. -/
def path (w : Walk) : List TypeId :=
  w.stack.map (·.id)

/-- What a step does. -/
inductive Step (m : Metadata) : Walk → Walk → Prop
  | passRoot {id : TypeId} {referrer : Referrer} {roots : List Root} {entered finished : List TypeId}
      (hentered : id ∈ entered) :
      Step m ⟨(id, referrer) :: roots, [], entered, finished⟩ ⟨roots, [], entered, finished⟩
  | enterRoot {id : TypeId} {referrer : Referrer} {roots : List Root} {entered finished : List TypeId}
      (hnew : id ∉ entered) (hsound : m.Sound id) :
      Step m ⟨(id, referrer) :: roots, [], entered, finished⟩
        ⟨roots, [⟨id, m.references id⟩], id :: entered, finished⟩
  | finish {id : TypeId} {roots : List Root} {stack : List Frame} {entered finished : List TypeId} :
      Step m ⟨roots, ⟨id, []⟩ :: stack, entered, finished⟩ ⟨roots, stack, entered, id :: finished⟩
  | pass {id child : TypeId} {pending : List TypeId} {roots : List Root} {stack : List Frame}
      {entered finished : List TypeId} (hentered : child ∈ entered) :
      Step m ⟨roots, ⟨id, child :: pending⟩ :: stack, entered, finished⟩
        ⟨roots, ⟨id, pending⟩ :: stack, entered, finished⟩
  | enter {id child : TypeId} {pending : List TypeId} {roots : List Root} {stack : List Frame}
      {entered finished : List TypeId} (hnew : child ∉ entered) (hsound : m.Sound child) :
      Step m ⟨roots, ⟨id, child :: pending⟩ :: stack, entered, finished⟩
        ⟨roots, ⟨child, m.references child⟩ :: ⟨id, pending⟩ :: stack, child :: entered, finished⟩

/-- The frame of a type that is entered holds all its references. -/
theorem frameOf_of_enter {id : TypeId} {referrer : Referrer} {e : Entry} (h : m.enter id referrer = .ok e) :
    frameOf e = ⟨id, m.references id⟩ := by
  have he := (Metadata.enter_ok_iff.1 h).1
  rw [frameOf, Metadata.id_of_entry he, Metadata.references_of_entry he]

/-- **What one step of the walk does.** It drops a root or a reference that was
entered before, enters one that was not and is sound, or finishes a type of
which nothing is pending. -/
theorem step_ok (h : w.step m = .ok (some w')) : Step m w w' := by
  obtain ⟨roots, stack, entered, finished⟩ := w
  unfold step at h
  split at h
  · next hstack =>
    obtain rfl : stack = [] := hstack
    split at h
    · cases h
    · next id referrer roots' hroots =>
      obtain rfl : roots = (id, referrer) :: roots' := hroots
      split_ifs at h with hentered
      · cases h
        exact .passRoot (by simpa using hentered)
      · obtain ⟨e, he, hw⟩ := map_ok_iff.1 h
        cases hw
        rw [frameOf_of_enter he]
        exact .enterRoot (by simpa using hentered) (Metadata.enter_ok_iff.1 he).2
  · next id stack' hstack =>
    obtain rfl : stack = ⟨id, []⟩ :: stack' := hstack
    cases h
    exact .finish
  · next id child pending stack' hstack =>
    obtain rfl : stack = ⟨id, child :: pending⟩ :: stack' := hstack
    split_ifs at h with hentered
    · cases h
      exact .pass (by simpa using hentered)
    · obtain ⟨e, he, hw⟩ := map_ok_iff.1 h
      cases hw
      rw [frameOf_of_enter he]
      exact .enter (by simpa using hentered) (Metadata.enter_ok_iff.1 he).2

/-- The walk is over when no root is left and the path is empty. In all other
states there is a step, or an error. -/
theorem step_over (h : w.step m = .ok none) : w.roots = [] ∧ w.stack = [] := by
  unfold step at h
  split at h
  · next hstack =>
    split at h
    · next hroots => exact ⟨hroots, hstack⟩
    · split_ifs at h
      · cases h
      · obtain ⟨e, -, hw⟩ := map_ok_iff.1 h
        cases hw
  · cases h
  · split_ifs at h
    · cases h
    · obtain ⟨e, -, hw⟩ := map_ok_iff.1 h
      cases hw

/-- A step is refused where a type that was not entered is missing or not sound:
the type of the next root, or of the next reference of the type at the end of
the path. -/
theorem step_error {err : ResolveError} (h : w.step m = .error err) :
    (∃ id referrer roots, w.roots = (id, referrer) :: roots ∧ id ∉ w.entered ∧ m.Refuses id referrer err) ∨
      ∃ id child pending stack, w.stack = ⟨id, child :: pending⟩ :: stack ∧ m.Refuses child (.type id) err := by
  unfold step at h
  split at h
  · next hstack =>
    split at h
    · cases h
    · next id referrer roots hroots =>
      split_ifs at h with hentered
      cases he : m.enter id referrer with
      | ok e => simp [he, Except.map] at h
      | error err' =>
        simp only [he, Except.map, Except.error.injEq] at h
        rw [← h]
        exact Or.inl ⟨id, referrer, roots, hroots, by simpa using hentered, Metadata.enter_error he⟩
  · cases h
  · next id child pending stack hstack =>
    split_ifs at h
    cases he : m.enter child (.type id) with
    | ok e => simp [he, Except.map] at h
    | error err' =>
      simp only [he, Except.map, Except.error.injEq] at h
      rw [← h]
      exact Or.inr ⟨id, child, pending, stack, hstack, Metadata.enter_error he⟩

/-! ## Whole walks -/

variable {P : Walk → Prop}

/-- What every step keeps holds at the end of a walk. -/
theorem run_ok (hkeep : ∀ {w w'}, Step m w w' → P w → P w') (hP : P w) (h : w.run m = .ok w') :
    P w' ∧ w'.roots = [] ∧ w'.stack = [] := by
  fun_induction Walk.run m w with
  | case1 w e hstep => cases h
  | case2 w hstep =>
    cases h
    exact ⟨hP, step_over hstep⟩
  | case3 w next hstep ih => exact ih (hkeep (step_ok hstep) hP) h

/-- A walk that is refused a type is refused it in a step, and what every step
keeps holds up to there. -/
theorem run_error {err : ResolveError} (hkeep : ∀ {w w'}, Step m w w' → P w → P w') (hP : P w)
    (h : w.run m = .error err) : ∃ w', P w' ∧ w'.step m = .error err := by
  fun_induction Walk.run m w with
  | case1 w e hstep =>
    cases h
    exact ⟨w, hP, hstep⟩
  | case2 w hstep => cases h
  | case3 w next hstep ih => exact ih (hkeep (step_ok hstep) hP) h

/-! ## The invariant -/

/-- Where the types stand in the middle of a walk. -/
structure Tracks (m : Metadata) (w : Walk) : Prop where
  /-- The types of the roots that are not to come any more were entered. -/
  taken : ∃ past, m.signatureRoots = past ++ w.roots ∧ ∀ root ∈ past, root.1 ∈ w.entered
  reachable : ∀ id ∈ w.entered, m.Reachable id
  sound : ∀ id ∈ w.entered, m.Sound id
  distinct : w.entered.Nodup
  /-- A type that was entered is on the path or finished. -/
  split : (w.path ++ w.finished).Perm w.entered
  isPath : IsPath m w.stack
  /-- A reference was followed unless it is pending. -/
  followed : ∀ id ∈ w.entered, ∀ child, m.RefersTo id child →
    child ∈ w.entered ∨ ∃ f ∈ w.stack, f.id = id ∧ child ∈ f.pending

namespace Tracks

/-- A type on the path was entered. -/
theorem entered_of_path (h : Tracks m w) {id : TypeId} (hid : id ∈ w.path) : id ∈ w.entered :=
  h.split.subset (List.mem_append_left _ hid)

/-- A type on the path is not finished, and none is there twice. -/
theorem nodup_split (h : Tracks m w) : (w.path ++ w.finished).Nodup :=
  h.split.nodup_iff.2 h.distinct

/-- The walk starts with all roots ahead of it. -/
theorem init : Tracks m { roots := m.signatureRoots } where
  taken := ⟨[], rfl, by simp⟩
  reachable := by simp
  sound := by simp
  distinct := List.nodup_nil
  split := .refl _
  isPath := .nil
  followed := by simp

/-- Entering a type: it is put on the path with all its references pending. This
is the one place at which the invariant is made, for roots and for references
alike. -/
theorem enter {roots roots' : List Root} {stack : List Frame} {entered finished : List TypeId} {id : TypeId}
    (h : Tracks m ⟨roots, stack, entered, finished⟩) (hnew : id ∉ entered) (hsound : m.Sound id)
    (hreachable : m.Reachable id) (hparent : ∀ f ∈ stack.head?, m.RefersTo f.id id)
    (htaken : ∃ past, m.signatureRoots = past ++ roots' ∧ ∀ root ∈ past, root.1 ∈ id :: entered) :
    Tracks m ⟨roots', ⟨id, m.references id⟩ :: stack, id :: entered, finished⟩ where
  taken := htaken
  reachable := List.forall_mem_cons.2 ⟨hreachable, h.reachable⟩
  sound := List.forall_mem_cons.2 ⟨hsound, h.sound⟩
  distinct := List.nodup_cons.2 ⟨hnew, h.distinct⟩
  split := by simpa [path] using h.split
  isPath := h.isPath.push hparent
  followed := by
    intro id' hid' child hrefers
    rcases List.mem_cons.1 hid' with rfl | hid'
    · exact Or.inr ⟨_, List.mem_cons_self, rfl, hrefers⟩
    · rcases h.followed id' hid' child hrefers with hchild | ⟨f, hf, hfid, hpending⟩
      · exact Or.inl (List.mem_cons_of_mem _ hchild)
      · exact Or.inr ⟨f, List.mem_cons_of_mem _ hf, hfid, hpending⟩

/-- Passing a reference, anywhere on the path: its type was entered, so it need
not be pending any more. -/
theorem pass {roots : List Root} {below : List Frame} {entered finished pending : List TypeId}
    {id child : TypeId} (above : List Frame)
    (h : Tracks m ⟨roots, above ++ ⟨id, child :: pending⟩ :: below, entered, finished⟩)
    (hentered : child ∈ entered) :
    Tracks m ⟨roots, above ++ ⟨id, pending⟩ :: below, entered, finished⟩ where
  taken := h.taken
  reachable := h.reachable
  sound := h.sound
  distinct := h.distinct
  split := by simpa [path] using h.split
  isPath := h.isPath.pass above
  followed := by
    intro id' hid' c hrefers
    rcases h.followed id' hid' c hrefers with hc | ⟨f, hf, hfid, hc⟩
    · exact Or.inl hc
    rcases List.mem_append.1 hf with hf | hf
    · exact Or.inr ⟨f, List.mem_append_left _ hf, hfid, hc⟩
    rcases List.mem_cons.1 hf with rfl | hf
    · rcases List.mem_cons.1 hc with rfl | hc
      · exact Or.inl hentered
      · exact Or.inr ⟨⟨id, pending⟩, by simp, hfid, hc⟩
    · exact Or.inr ⟨f, by simp [hf], hfid, hc⟩

/-- The reference that comes next leads from an entered type to a reached
one. -/
theorem next {roots : List Root} {stack : List Frame} {entered finished pending : List TypeId} {id child : TypeId}
    (h : Tracks m ⟨roots, ⟨id, child :: pending⟩ :: stack, entered, finished⟩) :
    m.Reachable id ∧ m.RefersTo id child := by
  have hid : id ∈ entered := h.entered_of_path (by simp [path])
  exact ⟨h.reachable id hid, h.isPath.pending _ List.mem_cons_self child List.mem_cons_self⟩

/-- The next root is taken once its type is entered. -/
theorem take {root : Root} {roots : List Root} {entered : List TypeId} (h : Tracks m w)
    (hroots : w.roots = root :: roots) (hkept : w.entered ⊆ entered) (hroot : root.1 ∈ entered) :
    ∃ past, m.signatureRoots = past ++ roots ∧ ∀ root ∈ past, root.1 ∈ entered := by
  obtain ⟨past, heq, hpast⟩ := h.taken
  refine ⟨past ++ [root], by rw [heq, hroots, List.append_assoc]; rfl, fun r hr => ?_⟩
  rcases List.mem_append.1 hr with hr | hr
  · exact hkept (hpast r hr)
  · rwa [List.mem_singleton.1 hr]

/-- The root that comes next is among the roots. -/
theorem root_mem {root : Root} {roots : List Root} (h : Tracks m w) (hroots : w.roots = root :: roots) :
    root ∈ m.signatureRoots := by
  obtain ⟨past, heq, -⟩ := h.taken
  rw [heq, hroots]
  simp

/-- **Every step keeps track.** One case for each kind of step; entering is
one lemma for roots and for references, as what is entered is reached either
way. -/
theorem step (hstep : Step m w w') (h : Tracks m w) : Tracks m w' := by
  cases hstep with
  | passRoot hentered => exact { h with taken := h.take rfl (List.Subset.refl _) hentered }
  | enterRoot hnew hsound =>
    exact h.enter hnew hsound (.root (h.root_mem rfl)) (by simp)
      (h.take rfl (List.subset_cons_self _ _) List.mem_cons_self)
  | @finish id roots stack entered finished =>
    exact { h with
      split := List.perm_middle.trans h.split
      isPath := h.isPath.pop
      followed := fun id' hid' child hrefers =>
        (h.followed id' hid' child hrefers).imp_right fun ⟨f, hf, hfid, hchild⟩ => by
          rcases List.mem_cons.1 hf with rfl | hf
          · cases hchild
          · exact ⟨f, hf, hfid, hchild⟩ }
  | pass hentered => exact h.pass [] hentered
  | @enter id child pending roots stack entered finished hnew hsound =>
    obtain ⟨hreachable, hrefers⟩ := h.next
    obtain ⟨past, heq, hpast⟩ := h.taken
    have htaken : ∃ past, m.signatureRoots = past ++ roots ∧ ∀ root ∈ past, root.1 ∈ child :: entered :=
      ⟨past, heq, fun root hroot => List.mem_cons_of_mem _ (hpast root hroot)⟩
    have henter := h.enter hnew hsound (hreachable.child hrefers) (by simpa using hrefers) htaken
    -- the reference is passed after its type is entered, in the frame that is now second
    exact henter.pass [_] List.mem_cons_self

end Tracks

end ContractClient.Walk
