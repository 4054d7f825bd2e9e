/-
The walk over the types that the signatures of a contract reach.

The walk is depth first, with its path kept as a stack of frames: a type and the
references of it that were not followed yet. A type is entered when it is met
for the first time, and finished when all its references were followed. Entering
checks the type's own definition.

One step either enters a type, and then there is one type less to enter, or it
drops a reference, a frame or a root, and then there is less left to do. This
pair is the measure by which the walk ends, whatever the graph looks like.
-/
import ContractClient.Registry.ResolveError

set_option autoImplicit false

namespace ContractClient

/-- A type that a signature names, and where. -/
abbrev Root := TypeId × Referrer

/-- The types that a method names: its arguments and then what it returns. -/
def Method.roots (kind : MethodKind) (m : Method) : List Root :=
  m.args.map (fun a => (a.typeId, .argument kind m.label a.label)) ++
    m.returnType.toList.map fun id => (id, .returnType kind m.label)

/-- The types that an event names. -/
def Event.roots (e : Event) : List Root :=
  e.args.map fun a => (a.typeId, .eventField e.label a.label)

/-- The types that the signatures name, in the order of the document. -/
def Metadata.signatureRoots (m : Metadata) : List Root :=
  m.constructors.flatMap (·.roots .constructor) ++ m.messages.flatMap (·.roots .message) ++
    m.events.flatMap Event.roots

/-- Arms have indices that are bytes, and different ones; `seen` are the arms
before. -/
def checkArms (id : TypeId) (seen : List Arm) : List Arm → Except ResolveError Unit
  | [] => .ok ()
  | arm :: rest =>
    if 255 < arm.index then .error (.indexRange id arm.name arm.index)
    else match seen.find? fun a => a.index == arm.index with
      | some first => .error (.indexReused id arm.name arm.index first.name)
      | none => checkArms id (arm :: seen) rest

/-- Whether a definition is an unsigned integer. -/
def TypeDef.isUnsigned : TypeDef → Bool
  | .primitive kind => kind.isUnsigned
  | _ => false

/-- The check of a type that is entered: compacts wrap unsigned integers, and
arms have indices of their own. -/
def Metadata.checkEntry (m : Metadata) (e : Entry) : Except ResolveError Unit :=
  match e.definition with
  | .compact inner =>
    match m.entry? inner with
    | none => .error (.unresolved inner (.type e.id))
    | some i => if i.definition.isUnsigned then .ok () else .error (.compactInner e.id inner)
  | .variant arms => checkArms e.id [] arms
  | _ => .ok ()

/-- The entry of a type that is met for the first time. -/
def Metadata.enter (m : Metadata) (id : TypeId) (referrer : Referrer) : Except ResolveError Entry :=
  match m.entry? id with
  | none => .error (.unresolved id referrer)
  | some e => (m.checkEntry e).map fun _ => e

/-- A type on the path and the references of it that are still to be
followed. -/
structure Frame where
  id : TypeId
  pending : List TypeId
  deriving DecidableEq, Repr

/-- A walk under way: the roots still to come, the path with its end first, and
the types entered and finished so far, the latest first. -/
structure Walk where
  roots : List Root
  stack : List Frame := []
  entered : List TypeId := []
  finished : List TypeId := []

namespace Walk

/-- The frame of a type that was just entered. -/
def frameOf (e : Entry) : Frame :=
  ⟨e.id, e.definition.references⟩

/-- One step of the walk; none when it is over. -/
def step (m : Metadata) (w : Walk) : Except ResolveError (Option Walk) :=
  match w.stack with
  | [] =>
    match w.roots with
    | [] => .ok none
    | (id, referrer) :: roots =>
      if w.entered.contains id then .ok (some { w with roots })
      else (m.enter id referrer).map fun e =>
        some { w with roots, stack := [frameOf e], entered := id :: w.entered }
  | ⟨id, []⟩ :: stack => .ok (some { w with stack, finished := id :: w.finished })
  | ⟨id, child :: pending⟩ :: stack =>
    if w.entered.contains child then .ok (some { w with stack := ⟨id, pending⟩ :: stack })
    else (m.enter child (.type id)).map fun e =>
      some { w with stack := frameOf e :: ⟨id, pending⟩ :: stack, entered := child :: w.entered }

/-! ## Why the walk ends -/

/-- The number of types that were not entered. -/
def unentered (m : Metadata) (entered : List TypeId) : Nat :=
  m.types.countP fun e => !entered.contains e.id

/-- What is left to do with the types entered so far. -/
def work (w : Walk) : Nat :=
  w.roots.length + w.stack.foldr (fun f rest => f.pending.length + 1 + rest) 0

/-- A condition that is stronger, and strictly so at a member, holds of fewer
members. -/
theorem countP_lt_of_mem {α : Type} {p q : α → Bool} {l : List α} {a : α}
    (hpq : ∀ x, p x = true → q x = true) (ha : a ∈ l) (hq : q a = true) (hp : p a = false) :
    l.countP p < l.countP q := by
  induction l with
  | nil => simp at ha
  | cons x rest ih =>
    have hle : rest.countP p ≤ rest.countP q := List.countP_mono_left fun y _ hy => hpq y hy
    rcases List.mem_cons.1 ha with rfl | hrest
    · rw [List.countP_cons_of_neg (by simp [hp]), List.countP_cons_of_pos hq]
      omega
    · have hlt := ih hrest
      cases hx : p x with
      | true => rw [List.countP_cons_of_pos hx, List.countP_cons_of_pos (hpq x hx)]; omega
      | false =>
        rw [List.countP_cons_of_neg (by simp [hx]), List.countP_cons]
        omega

/-- Entering a type that is there leaves fewer types to enter. -/
theorem unentered_lt {m : Metadata} {id : TypeId} {e : Entry} {entered : List TypeId}
    (he : m.entry? id = some e) (hn : entered.contains id = false) :
    unentered m (id :: entered) < unentered m entered := by
  have hid : e.id = id := by simpa using List.find?_some he
  refine countP_lt_of_mem (fun x hx => ?_) (List.mem_of_find?_eq_some he) ?_ ?_
  · simp only [List.contains_cons, Bool.not_or, Bool.and_eq_true] at hx
    exact hx.2
  · rw [hid, hn]
    rfl
  · simp [hid]

/-- What is entered is there. -/
theorem entry?_of_enter {m : Metadata} {id : TypeId} {r : Referrer} {e : Entry}
    (h : m.enter id r = .ok e) : m.entry? id = some e := by
  unfold Metadata.enter at h
  split at h
  · simp at h
  · next e' he =>
    cases hc : m.checkEntry e' with
    | error x => simp [hc, Except.map] at h
    | ok u =>
      simp only [hc, Except.map, Except.ok.injEq] at h
      rw [he, h]

/-- **Every step makes progress.** -/
theorem progress {m : Metadata} {w w' : Walk} (h : w.step m = .ok (some w')) :
    unentered m w'.entered < unentered m w.entered ∨
      unentered m w'.entered = unentered m w.entered ∧ w'.work < w.work := by
  unfold step at h
  split at h
  · next hstack =>
    split at h
    · simp at h
    · next id r roots hroots =>
      split at h
      · simp only [Except.ok.injEq, Option.some.injEq] at h
        subst h
        simp [work, hroots]
      · next hn =>
        cases he : m.enter id r with
        | error x => simp [he, Except.map] at h
        | ok e =>
          simp only [he, Except.map, Except.ok.injEq, Option.some.injEq] at h
          subst h
          exact Or.inl (unentered_lt (entry?_of_enter he) (by simpa using hn))
  · next id stack hstack =>
    simp only [Except.ok.injEq, Option.some.injEq] at h
    subst h
    simp [work, hstack]
  · next id child pending stack hstack =>
    split at h
    · simp only [Except.ok.injEq, Option.some.injEq] at h
      subst h
      simp [work, hstack]
    · next hn =>
      cases he : m.enter child (.type id) with
      | error x => simp [he, Except.map] at h
      | ok e =>
        simp only [he, Except.map, Except.ok.injEq, Option.some.injEq] at h
        subst h
        exact Or.inl (unentered_lt (entry?_of_enter he) (by simpa using hn))

/-- The walk to its end. -/
def run (m : Metadata) (w : Walk) : Except ResolveError Walk :=
  match _h : w.step m with
  | .error e => .error e
  | .ok none => .ok w
  | .ok (some w') => w'.run m
termination_by (unentered m w.entered, w.work)
decreasing_by
  rcases progress _h with hlt | ⟨heq, hlt⟩
  · exact Prod.Lex.left _ _ hlt
  · rw [heq]
    exact Prod.Lex.right _ hlt

end Walk

end ContractClient
