/-
How often resolving looks at a type.

Resolving runs two loops, the walk over the types and the search for cycles
among them. Both go depth first, and a state of either can be seen as a
`Traversal`: some starts are still to come, there is a path with references that
are still to be examined, and some types were entered. The steps of both loops
are `Moves` of traversals, so what is counted here is counted for moves, over
all the states that a loop passes from its start on.

A type is entered when it was not entered before, and a reference is known by
its type and its position. It is examined once, because the type stands on the
path once and the position only grows. Each move takes away a start, a pending
reference or a frame, or enters a type and puts its references on the path; so a
loop makes no more moves than there are starts, types and references of them,
and comes to its end whatever the document looks like: there may be types that
contain themselves, cycles, and references to types that are not there.
-/
import ContractClient.Proofs.Registry.Traversal
import ContractClient.Proofs.Registry.DirectCycles
import Mathlib.Algebra.Order.BigOperators.Group.List
import Mathlib.Algebra.GroupWithZero.Nat
import Mathlib.Algebra.Order.Group.Nat

set_option autoImplicit false

namespace ContractClient

/-! ## Loops -/

section

variable {σ β : Type} {step : σ → σ → Prop} {P : σ → Prop} {look : σ → Option β} {seen : σ → β → Prop} {s : σ}
  {states : List σ}

/-- Where every step lowers the cost, there are no more steps than the first
state costs. -/
theorem length_le_of_isChain (cost : σ → Nat) (h : (s :: states).IsChain step)
    (hcost : ∀ s t, step s t → cost t < cost s) : states.length ≤ cost s := by
  induction states generalizing s with
  | nil => exact Nat.zero_le _
  | cons t rest ih =>
    obtain ⟨hstep, hrest⟩ := List.isChain_cons_cons.1 h
    exact Nat.lt_of_le_of_lt (ih hrest) (hcost s t hstep)

/-- A loop looks at things, and what it looked at it has seen from then on and
does not look at again. -/
structure LooksOnce (step : σ → σ → Prop) (P : σ → Prop) (look : σ → Option β) (seen : σ → β → Prop) : Prop where
  keeps : ∀ s t, step s t → P s → P t
  fresh : ∀ s b, P s → look s = some b → ¬ seen s b
  sees : ∀ s t b, P s → step s t → look s = some b → seen t b
  stays : ∀ s t b, P s → step s t → seen s b → seen t b

namespace LooksOnce

/-- What was seen in the first state is looked at in none. The induction is on
the states: what a step looks at was not seen before, and from then on it is
seen. -/
theorem notMem (hlooks : LooksOnce step P look seen) (h : (s :: states).IsChain step) (hs : P s) {b : β}
    (hb : seen s b) : b ∉ (s :: states).filterMap look := by
  have hhead : look s ≠ some b := fun hlook => hlooks.fresh s b hs hlook hb
  induction states generalizing s with
  | nil => simpa using hhead
  | cons t rest ih =>
    obtain ⟨hstep, hrest⟩ := List.isChain_cons_cons.1 h
    have ht := hlooks.keeps s t hstep hs
    have hseen := hlooks.stays s t b hs hstep hb
    intro hmem
    obtain ⟨x, hx, hlook⟩ := List.mem_filterMap.1 hmem
    rcases List.mem_cons.1 hx with rfl | hx
    · exact hhead hlook
    · exact ih hrest ht hseen (fun hlook => hlooks.fresh t b ht hlook hseen) (List.mem_filterMap.2 ⟨x, hx, hlook⟩)

/-- **Nothing is looked at twice.** A look is seen in the state behind it, so by
the lemma before it is in none of the later ones. -/
theorem nodup (hlooks : LooksOnce step P look seen) (h : (s :: states).IsChain step) (hs : P s) :
    ((s :: states).filterMap look).Nodup := by
  induction states generalizing s with
  | nil => cases hlook : look s <;> simp [hlook]
  | cons t rest ih =>
    obtain ⟨hstep, hrest⟩ := List.isChain_cons_cons.1 h
    have ht := hlooks.keeps s t hstep hs
    cases hlook : look s with
    | none =>
      rw [List.filterMap_cons_none hlook]
      exact ih hrest ht
    | some b =>
      rw [List.filterMap_cons_some hlook]
      exact List.nodup_cons.2 ⟨hlooks.notMem hrest ht (hlooks.sees s t b hs hstep hlook), ih hrest ht⟩

end LooksOnce

end

/-! ## Traversals -/

/-- What a walk and a search have in common: the starts still to come, the path
with its end first, and the types entered so far. -/
structure Traversal where
  starts : List TypeId
  stack : List Frame
  entered : List TypeId

namespace Traversal

variable {m : Metadata} {admits : TypeId → Bool} {nodes : List TypeId} {t t' : Traversal}

/-- The type that comes next: a start where the path is empty, or what the end
of the path refers to. -/
def next? (t : Traversal) : Option TypeId :=
  match t.stack with
  | [] => t.starts.head?
  | f :: _ => f.pending.head?

/-- The type that is entered next, if only types that are admitted are
entered. -/
def entering (admits : TypeId → Bool) (t : Traversal) : Option TypeId :=
  t.next?.filter fun id => admits id && !t.entered.contains id

/-- The reference that is examined next: its type, and its position there. -/
def examining (m : Metadata) (t : Traversal) : Option (TypeId × Nat) :=
  match t.stack with
  | ⟨id, _ :: pending⟩ :: _ => some (id, (m.references id).length - (pending.length + 1))
  | _ => none

/-- What a step of either loop does. Types that are entered are among
`nodes`. -/
inductive Moves (m : Metadata) (admits : TypeId → Bool) (nodes : List TypeId) : Traversal → Traversal → Prop
  | passStart {id : TypeId} {starts entered : List TypeId} (hdone : admits id = true → id ∈ entered) :
      Moves m admits nodes ⟨id :: starts, [], entered⟩ ⟨starts, [], entered⟩
  | enterStart {id : TypeId} {starts entered : List TypeId} (hadmits : admits id = true) (hnode : id ∈ nodes)
      (hnew : id ∉ entered) :
      Moves m admits nodes ⟨id :: starts, [], entered⟩ ⟨starts, [⟨id, m.references id⟩], id :: entered⟩
  | leave {id : TypeId} {starts entered : List TypeId} {stack : List Frame} :
      Moves m admits nodes ⟨starts, ⟨id, []⟩ :: stack, entered⟩ ⟨starts, stack, entered⟩
  | pass {id child : TypeId} {starts entered pending : List TypeId} {stack : List Frame}
      (hdone : admits child = true → child ∈ entered) :
      Moves m admits nodes ⟨starts, ⟨id, child :: pending⟩ :: stack, entered⟩
        ⟨starts, ⟨id, pending⟩ :: stack, entered⟩
  | enter {id child : TypeId} {starts entered pending : List TypeId} {stack : List Frame}
      (hadmits : admits child = true) (hnode : child ∈ nodes) (hnew : child ∉ entered) :
      Moves m admits nodes ⟨starts, ⟨id, child :: pending⟩ :: stack, entered⟩
        ⟨starts, ⟨child, m.references child⟩ :: ⟨id, pending⟩ :: stack, child :: entered⟩

/-! ### Entering -/

/-- When a type is entered: it is next, it is admitted, and it was not entered
before. -/
theorem entering_eq_some_iff {id : TypeId} :
    t.entering admits = some id ↔ t.next? = some id ∧ admits id = true ∧ id ∉ t.entered := by
  simp [entering, Option.filter_eq_some_iff]

/-- Where the next type was entered before, or is not admitted, none is
entered. -/
theorem entering_of_done {id : TypeId} (hnext : t.next? = some id) (hdone : admits id = true → id ∈ t.entered) :
    t.entering admits = none := by
  simpa [entering, hnext, Option.filter] using hdone

/-- **A move enters the type that is entered next**, and no other. Whether it is
entered depends on what was entered before and on whether it is admitted. -/
theorem Moves.entered_eq (h : Moves m admits nodes t t') : t'.entered = (t.entering admits).toList ++ t.entered := by
  cases h with
  | passStart hdone =>
    rw [entering_of_done (t := ⟨_ :: _, [], _⟩) rfl hdone]
    rfl
  | enterStart hadmits hnode hnew =>
    rw [entering_eq_some_iff (t := ⟨_ :: _, [], _⟩) |>.2 ⟨rfl, hadmits, hnew⟩]
    rfl
  | leave => rfl
  | @pass id child starts entered pending stack hdone =>
    rw [entering_of_done (t := ⟨starts, ⟨id, child :: pending⟩ :: stack, entered⟩) rfl hdone]
    rfl
  | @enter id child starts entered pending stack hadmits hnode hnew =>
    rw [entering_eq_some_iff (t := ⟨starts, ⟨id, child :: pending⟩ :: stack, entered⟩) |>.2 ⟨rfl, hadmits, hnew⟩]
    rfl

/-- **No type is entered twice**, since what is entered stays entered and is not
entered again. -/
theorem entersOnce : LooksOnce (Moves m admits nodes) (fun _ => True) (entering admits) fun t id => id ∈ t.entered where
  keeps _ _ _ _ := trivial
  fresh _ _ _ hlook := (entering_eq_some_iff.1 hlook).2.2
  sees t t' id _ hmove hlook := by
    rw [hmove.entered_eq, hlook]
    exact List.mem_cons_self
  stays t t' id _ hmove hid := by
    rw [hmove.entered_eq]
    exact List.mem_append_right _ hid

/-! ### Examining -/

/-- The types on the path were entered and are different, and what is pending at
a type are its last references. -/
structure Placed (m : Metadata) (t : Traversal) : Prop where
  onPath : ∀ f ∈ t.stack, f.id ∈ t.entered
  distinct : (t.stack.map (·.id)).Nodup
  pending : ∀ f ∈ t.stack, f.pending <:+ m.references f.id

/-- A reference was examined: its type was entered, and if the type is on the
path still then the reference is before the ones that are pending there. -/
def Examined (m : Metadata) (t : Traversal) (p : TypeId × Nat) : Prop :=
  p.1 ∈ t.entered ∧ ∀ f ∈ t.stack, f.id = p.1 → p.2 + f.pending.length < (m.references p.1).length

/-- At the start nothing is on the path. -/
theorem Placed.init {starts : List TypeId} : Placed m ⟨starts, [], []⟩ where
  onPath := by simp
  distinct := List.nodup_nil
  pending := by simp

/-- A type is put on the path with all its references. -/
theorem Placed.push {starts starts' entered : List TypeId} {stack : List Frame} {id : TypeId}
    (h : Placed m ⟨starts, stack, entered⟩) (hnew : id ∉ entered) :
    Placed m ⟨starts', ⟨id, m.references id⟩ :: stack, id :: entered⟩ where
  onPath := List.forall_mem_cons.2 ⟨List.mem_cons_self, fun f hf => List.mem_cons_of_mem _ (h.onPath f hf)⟩
  distinct := by
    refine List.nodup_cons.2 ⟨fun hmem => ?_, h.distinct⟩
    obtain ⟨f, hf, rfl⟩ := List.mem_map.1 hmem
    exact hnew (h.onPath f hf)
  pending := List.forall_mem_cons.2 ⟨List.suffix_refl _, h.pending⟩

/-- A reference at the end of the path is dropped. -/
theorem Placed.drop {starts entered pending : List TypeId} {stack : List Frame} {id child : TypeId}
    (h : Placed m ⟨starts, ⟨id, child :: pending⟩ :: stack, entered⟩) :
    Placed m ⟨starts, ⟨id, pending⟩ :: stack, entered⟩ where
  onPath := List.forall_mem_cons.2 (List.forall_mem_cons.1 h.onPath)
  distinct := h.distinct
  pending := by
    obtain ⟨hlast, hrest⟩ := List.forall_mem_cons.1 h.pending
    exact List.forall_mem_cons.2 ⟨(List.suffix_cons child pending).trans hlast, hrest⟩

/-- Every move keeps the path in place. Only entering puts a type there, with
all of its references and only if it was not there before. -/
theorem Placed.move (h : Moves m admits nodes t t') (hp : Placed m t) : Placed m t' := by
  cases h with
  | passStart => exact { hp with }
  | enterStart _ _ hnew => exact hp.push hnew
  | leave =>
    exact ⟨(List.forall_mem_cons.1 hp.onPath).2, hp.distinct.of_cons, (List.forall_mem_cons.1 hp.pending).2⟩
  | pass => exact hp.drop
  | enter _ _ hnew => exact hp.drop.push hnew

/-- The reference that is examined is the one at its position, and the next one
that is pending. -/
theorem Placed.of_examining (h : Placed m t) {p : TypeId × Nat} (hlook : t.examining m = some p) :
    ∃ child pending stack, t.stack = ⟨p.1, child :: pending⟩ :: stack ∧
      p.2 + (pending.length + 1) = (m.references p.1).length ∧ (m.references p.1)[p.2]? = some child := by
  unfold examining at hlook
  split at hlook
  · next id child pending stack hstack =>
    cases hlook
    obtain ⟨before, hrefs⟩ := h.pending ⟨id, child :: pending⟩ (by simp [hstack])
    have hlen : before.length + (pending.length + 1) = (m.references id).length := by
      rw [← hrefs, List.length_append, List.length_cons]
    have hposition : (m.references id).length - (pending.length + 1) = before.length := by omega
    refine ⟨child, pending, stack, hstack, ?_, ?_⟩
    · simp only [hposition, hlen]
    · simp only [hposition]
      rw [← hrefs, List.getElem?_append_right (Nat.le_refl _), Nat.sub_self, List.getElem?_cons_zero]
  · cases hlook

section

variable {starts starts' entered pending : List TypeId} {stack : List Frame} {id child : TypeId} {p : TypeId × Nat}

/-- A type that is put on the path was not there when the reference was
examined. -/
theorem Examined.push (h : Examined m ⟨starts, stack, entered⟩ p) (hnew : id ∉ entered) :
    Examined m ⟨starts', ⟨id, m.references id⟩ :: stack, id :: entered⟩ p := by
  refine ⟨List.mem_cons_of_mem _ h.1, List.forall_mem_cons.2 ⟨fun (hid : id = p.1) => ?_, h.2⟩⟩
  exact absurd (hid ▸ h.1) hnew

/-- A reference that was examined stays so when a later one is dropped from the
same type. -/
theorem Examined.drop (h : Examined m ⟨starts, ⟨id, child :: pending⟩ :: stack, entered⟩ p) :
    Examined m ⟨starts, ⟨id, pending⟩ :: stack, entered⟩ p := by
  obtain ⟨hlast, hrest⟩ := List.forall_mem_cons.1 h.2
  refine ⟨h.1, List.forall_mem_cons.2 ⟨fun hid => ?_, hrest⟩⟩
  have hlt : p.2 + (pending.length + 1) < (m.references p.1).length := hlast hid
  show p.2 + pending.length < (m.references p.1).length
  omega

/-- A reference was examined once it is dropped. -/
theorem Placed.examined (h : Placed m ⟨starts, ⟨id, child :: pending⟩ :: stack, entered⟩)
    (hlook : examining m ⟨starts, ⟨id, child :: pending⟩ :: stack, entered⟩ = some p) :
    Examined m ⟨starts, ⟨id, pending⟩ :: stack, entered⟩ p := by
  obtain ⟨child', pending', stack', hstack, hlen, -⟩ := h.of_examining hlook
  cases hstack
  refine ⟨h.onPath _ List.mem_cons_self, List.forall_mem_cons.2 ⟨fun _ => ?_, fun f hf hid => ?_⟩⟩
  · show p.2 + pending.length < (m.references p.1).length
    omega
  -- the type is not on the path a second time
  · exact absurd (List.mem_map.2 ⟨f, hf, hid⟩) (List.nodup_cons.1 h.distinct).1

end

/-- **No reference is examined twice.** It is examined where it is the next one
that is pending, and then it is pending no more. -/
theorem examinesOnce : LooksOnce (Moves m admits nodes) (Placed m) (examining m) (Examined m) where
  keeps _ _ := Placed.move
  fresh t p hplaced hlook hseen := by
    obtain ⟨child, pending, stack, hstack, hlen, -⟩ := hplaced.of_examining hlook
    have hlt := hseen.2 ⟨p.1, child :: pending⟩ (by simp [hstack]) rfl
    rw [List.length_cons] at hlt
    omega
  sees t t' p hplaced hmove hlook := by
    cases hmove with
    | passStart => cases hlook
    | enterStart => cases hlook
    | leave => cases hlook
    | pass => exact hplaced.examined hlook
    | enter _ _ hnew => exact (hplaced.examined hlook).push hnew
  stays t t' p _ hmove hseen := by
    cases hmove with
    | passStart => exact hseen
    | enterStart _ _ hnew => exact hseen.push hnew
    | leave => exact ⟨hseen.1, (List.forall_mem_cons.1 hseen.2).2⟩
    | pass => exact hseen.drop
    | enter _ _ hnew => exact hseen.drop.push hnew

/-! ### Moves to come -/

/-- What there is to do with types: each is left once, and each of its
references examined. -/
def effort (m : Metadata) (nodes : List TypeId) : Nat :=
  (nodes.map fun id => (m.references id).length + 1).sum

/-- What there is to do with the types that were not entered. -/
def ahead (m : Metadata) (nodes entered : List TypeId) : Nat :=
  (nodes.map fun id => if id ∈ entered then 0 else (m.references id).length + 1).sum

/-- The moves that may be to come. -/
def cost (m : Metadata) (nodes : List TypeId) (t : Traversal) : Nat :=
  t.starts.length + (t.stack.map fun f => f.pending.length + 1).sum + ahead m nodes t.entered

/-- At the start all types are ahead. -/
theorem ahead_nil : ahead m nodes [] = effort m nodes := by
  simp [ahead, effort]

/-- So the moves to come are bounded by the starts and by what there is to do
with all types. -/
theorem cost_init {starts : List TypeId} : cost m nodes ⟨starts, [], []⟩ = starts.length + effort m nodes := by
  rw [cost, ahead_nil, List.map_nil, List.sum_nil, Nat.add_zero]

/-- What there is to do with a type is not ahead any more once the type is
entered. -/
theorem ahead_enter {id : TypeId} {entered : List TypeId} (hnode : id ∈ nodes) (hnew : id ∉ entered) :
    ahead m nodes (id :: entered) + ((m.references id).length + 1) ≤ ahead m nodes entered := by
  have hrest : ((nodes.erase id).map fun x => if x ∈ id :: entered then 0 else (m.references x).length + 1).sum ≤
      ((nodes.erase id).map fun x => if x ∈ entered then 0 else (m.references x).length + 1).sum := by
    refine List.sum_le_sum fun x _ => ?_
    by_cases hx : x ∈ entered
    · simp [hx]
    · rw [if_neg hx]
      split <;> omega
  have hbefore := List.sum_map_erase (fun x => if x ∈ entered then 0 else (m.references x).length + 1) hnode
  have hafter := List.sum_map_erase (fun x => if x ∈ id :: entered then 0 else (m.references x).length + 1) hnode
  rw [if_neg hnew] at hbefore
  rw [if_pos List.mem_cons_self] at hafter
  unfold ahead
  omega

/-- **Every move takes something away** from what is to come. Passing a
reference takes one. Entering a type adds its references to the path, and for
these, and one more, it was counted while it was ahead. -/
theorem Moves.cost_lt (h : Moves m admits nodes t t') : cost m nodes t' < cost m nodes t := by
  cases h with
  | passStart => simp [cost]
  | enterStart _ hnode hnew =>
    have hle := ahead_enter (m := m) hnode hnew
    simp only [cost, List.length_cons, List.map_cons, List.map_nil, List.sum_cons, List.sum_nil]
    omega
  | leave =>
    simp only [cost, List.map_cons, List.sum_cons, List.length_nil]
    omega
  | pass =>
    simp only [cost, List.map_cons, List.sum_cons, List.length_cons]
    omega
  | enter _ hnode hnew =>
    have hle := ahead_enter (m := m) hnode hnew
    simp only [cost, List.map_cons, List.sum_cons, List.length_cons]
    omega

/-! ### Whole traversals -/

/-- What is promised of the states that a loop passes. -/
structure VisitsOnce (m : Metadata) (admits : TypeId → Bool) (passed : List Traversal) : Prop where
  /-- No type is entered twice. -/
  entered : (passed.filterMap (entering admits)).Nodup
  /-- What is entered is what the state after that has entered in addition. -/
  recorded : passed.IsChain fun t t' => t'.entered = (t.entering admits).toList ++ t.entered
  /-- No reference is examined twice. -/
  examined : (passed.filterMap (examining m)).Nodup
  /-- What is examined is the reference to the type that comes next, of a type
  that was entered. -/
  references : ∀ t ∈ passed, ∀ p, t.examining m = some p → p.1 ∈ t.entered ∧ (m.references p.1)[p.2]? = t.next?

/-- **A traversal visits everything once**, in as many moves as there are
starts, types and references of them. -/
theorem visitsOnce_of_isChain {starts : List TypeId} {passed : List Traversal}
    (h : (⟨starts, [], []⟩ :: passed).IsChain (Moves m admits nodes)) :
    VisitsOnce m admits (⟨starts, [], []⟩ :: passed) ∧ passed.length ≤ starts.length + effort m nodes := by
  have hplaced : ∀ t ∈ (⟨starts, [], []⟩ :: passed : List Traversal), Placed m t :=
    h.induction _ _ (fun _ _ => Placed.move) fun _ => .init
  have hlength := length_le_of_isChain (cost m nodes) h fun _ _ => Moves.cost_lt
  refine ⟨⟨entersOnce.nodup h trivial, h.imp fun _ _ => Moves.entered_eq, examinesOnce.nodup h .init, ?_⟩, ?_⟩
  · intro t ht p hlook
    obtain ⟨child, pending, stack, hstack, -, hchild⟩ := (hplaced t ht).of_examining hlook
    refine ⟨(hplaced t ht).onPath ⟨p.1, child :: pending⟩ (by simp [hstack]), ?_⟩
    rw [hchild, next?, hstack]
    rfl
  · rwa [cost_init] at hlength

end Traversal

/-! ## The two loops -/

open Relation (ReflTransGen)

variable {m : Metadata}

namespace Walk

/-- A walk as a traversal. -/
def traversal (w : Walk) : Traversal :=
  ⟨w.roots.map (·.1), w.stack, w.entered⟩

/-- A walk goes on. -/
def Goes (m : Metadata) (w w' : Walk) : Prop :=
  w.step m = .ok (some w')

/-- A walk is over, with an outcome: it has come to its end, or was refused a
type. -/
def StopsWith (m : Metadata) (outcome : Except ResolveError Walk) (w : Walk) : Prop :=
  w.step m = .ok none ∧ outcome = .ok w ∨ ∃ err, w.step m = .error err ∧ outcome = .error err

/-- A sound type has an entry. -/
theorem mem_ids_of_sound {id : TypeId} (h : m.Sound id) : id ∈ m.types.map (·.id) := by
  obtain ⟨e, he⟩ := h.present
  exact List.mem_map.2 ⟨e, List.mem_of_find?_eq_some he, Metadata.id_of_entry he⟩

/-- **A walk is a traversal** of the types of the document, and it tries to
enter whatever it meets. -/
theorem Goes.moves {w w' : Walk} (h : Goes m w w') :
    Traversal.Moves m (fun _ => true) (m.types.map (·.id)) w.traversal w'.traversal := by
  cases step_ok h with
  | passRoot hentered => exact .passStart fun _ => hentered
  | enterRoot hnew hsound => exact .enterStart rfl (mem_ids_of_sound hsound) hnew
  | finish => exact .leave
  | pass hentered => exact .pass fun _ => hentered
  | enter hnew hsound => exact .enter rfl (mem_ids_of_sound hsound) hnew

/-- A walk goes on until it is over, with the outcome of the whole walk. -/
theorem exists_last (m : Metadata) (w : Walk) : ∃ last, ReflTransGen (Goes m) w last ∧ StopsWith m (w.run m) last := by
  fun_induction Walk.run m w with
  | case1 w err hstep => exact ⟨w, .refl, .inr ⟨err, hstep, rfl⟩⟩
  | case2 w hstep => exact ⟨w, .refl, .inl ⟨hstep, rfl⟩⟩
  | case3 w next hstep ih =>
    obtain ⟨last, hgoes, hstops⟩ := ih
    exact ⟨last, .head hstep hgoes, hstops⟩

end Walk

namespace CycleSearch

variable {nodes : List TypeId}

/-- A search as a traversal. -/
def traversal (s : CycleSearch) : Traversal :=
  ⟨s.starts, s.stack, s.entered⟩

/-- A search goes on. -/
def Goes (m : Metadata) (nodes : List TypeId) (s s' : CycleSearch) : Prop :=
  s.step m nodes = .more s'

/-- A search is over, with an outcome: it has come to its end, or has found a
cycle. -/
def StopsWith (m : Metadata) (nodes : List TypeId) (outcome : Option (TypeId × List TypeId)) (s : CycleSearch) : Prop :=
  s.step m nodes = .over ∧ outcome = none ∨
    ∃ id cycle, s.step m nodes = .found id cycle ∧ outcome = some (id, cycle)

/-- **A search is a traversal** that enters nothing but its nodes. -/
theorem Goes.moves {s s' : CycleSearch} (h : Goes m nodes s s') :
    Traversal.Moves m nodes.contains nodes s.traversal s'.traversal := by
  cases step_more h with
  | passStart hdone => exact .passStart fun hnode => hdone (List.contains_iff_mem.1 hnode)
  | enterStart hnode hnew => exact .enterStart (List.contains_iff_mem.2 hnode) hnode hnew
  | leave => exact .leave
  | pass hdone => exact .pass fun hnode => (hdone (List.contains_iff_mem.1 hnode)).1
  | enter hnode hnew => exact .enter (List.contains_iff_mem.2 hnode) hnode hnew

/-- A search goes on until it is over, with the outcome of the whole search. -/
theorem exists_last (m : Metadata) (nodes : List TypeId) (s : CycleSearch) :
    ∃ last, ReflTransGen (Goes m nodes) s last ∧ StopsWith m nodes (s.run m nodes) last := by
  fun_induction CycleSearch.run m nodes s with
  | case1 s hstep => exact ⟨s, .refl, .inl ⟨hstep, rfl⟩⟩
  | case2 s id cycle hstep => exact ⟨s, .refl, .inr ⟨id, cycle, hstep, rfl⟩⟩
  | case3 s next hstep ih =>
    obtain ⟨last, hgoes, hstops⟩ := ih
    exact ⟨last, .head hstep hgoes, hstops⟩

end CycleSearch

/-- **Both loops of resolving come to their ends**, for every document, and
visit everything once: the walk over the types, from all roots, and the search
for cycles among some of them, from all starts. -/
theorem loops_visit_once (m : Metadata) :
    (∀ walks, ({ roots := m.signatureRoots } :: walks).IsChain (Walk.Goes m) →
      Traversal.VisitsOnce m (fun _ => true) (({ roots := m.signatureRoots } :: walks).map Walk.traversal) ∧
        walks.length ≤ m.signatureRoots.length + Traversal.effort m (m.types.map (·.id))) ∧
    (∃ last, ReflTransGen (Walk.Goes m) { roots := m.signatureRoots } last ∧
      Walk.StopsWith m (Walk.run m { roots := m.signatureRoots }) last) ∧
    ∀ ids nodes, ids.filter m.isDirect = nodes →
      (∀ searches, (⟨nodes, [], []⟩ :: searches).IsChain (CycleSearch.Goes m nodes) →
        Traversal.VisitsOnce m nodes.contains ((⟨nodes, [], []⟩ :: searches).map CycleSearch.traversal) ∧
          searches.length ≤ nodes.length + Traversal.effort m nodes) ∧
      ∃ last, ReflTransGen (CycleSearch.Goes m nodes) ⟨nodes, [], []⟩ last ∧
        CycleSearch.StopsWith m nodes (m.directCycle? ids) last := by
  refine ⟨fun walks h => ?_, Walk.exists_last m _, fun ids nodes hnodes => ⟨fun searches h => ?_, ?_⟩⟩
  · have hmoves := List.isChain_map_of_isChain Walk.traversal (fun _ _ => Walk.Goes.moves) h
    rw [List.map_cons] at hmoves ⊢
    have hvisits := Traversal.visitsOnce_of_isChain hmoves
    rwa [List.length_map, List.length_map] at hvisits
  · have hmoves := List.isChain_map_of_isChain CycleSearch.traversal (fun _ _ => CycleSearch.Goes.moves) h
    rw [List.map_cons] at hmoves ⊢
    have hvisits := Traversal.visitsOnce_of_isChain hmoves
    rwa [List.length_map] at hvisits
  · subst hnodes
    exact CycleSearch.exists_last m _ _

/-- A type that contains itself twice, the second time in a sequence, and a type
that is not there. -/
def knottedDocument : Metadata where
  contractName := "knot"
  contractVersion := "1.0"
  types :=
    [⟨0, .composite [{ typeId := 0, name := some "self" }, { typeId := 1, name := some "many" },
        { typeId := 9, name := some "missing" }], ["Knot"], [], []⟩,
      ⟨1, .sequence 0, [], [], []⟩]
  messages := [{ label := "get", returnType := some 0 }]

/-- The walk over them after its start, up to the type that is not there. -/
def knottedWalk : List Walk :=
  [⟨[], [⟨0, [0, 1, 9]⟩], [0], []⟩, ⟨[], [⟨0, [1, 9]⟩], [0], []⟩, ⟨[], [⟨1, [0]⟩, ⟨0, [9]⟩], [1, 0], []⟩,
    ⟨[], [⟨1, []⟩, ⟨0, [9]⟩], [1, 0], []⟩, ⟨[], [⟨0, [9]⟩], [1, 0], [1]⟩]

/-- Both loops over the document of a knot, with what they enter and examine. -/
theorem loops_visit_once_knotted :
    ((({ roots := knottedDocument.signatureRoots } : Walk) :: knottedWalk).map Walk.traversal).filterMap
        (Traversal.entering fun _ => true) = [0, 1, 9] ∧
      ((({ roots := knottedDocument.signatureRoots } : Walk) :: knottedWalk).map Walk.traversal).filterMap
        (Traversal.examining knottedDocument) = [(0, 0), (0, 1), (1, 0), (0, 2)] ∧
      Traversal.VisitsOnce knottedDocument (fun _ => true)
        (({ roots := knottedDocument.signatureRoots } :: knottedWalk).map Walk.traversal) ∧
      Traversal.VisitsOnce knottedDocument ([0] : List TypeId).contains
        ([⟨[0], [], []⟩, ⟨[], [⟨0, [0, 1, 9]⟩], [0]⟩].map CycleSearch.traversal) := by
  have hwalk : (({ roots := knottedDocument.signatureRoots } : Walk) :: knottedWalk).IsChain
      (Walk.Goes knottedDocument) :=
    .cons_cons rfl (.cons_cons rfl (.cons_cons rfl (.cons_cons rfl (.cons_cons rfl (.singleton _)))))
  have hsearch : [⟨[0], [], []⟩, ⟨[], [⟨0, [0, 1, 9]⟩], [0]⟩].IsChain (CycleSearch.Goes knottedDocument [0]) :=
    .cons_cons rfl (.singleton _)
  obtain ⟨hwalks, -, hsearches⟩ := loops_visit_once knottedDocument
  exact ⟨by decide, by decide, (hwalks _ hwalk).1, ((hsearches [0, 1] [0] (by decide)).1 _ hsearch).1⟩

end ContractClient
