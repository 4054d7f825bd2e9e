/-
What a method finds under the name of a class.

A method looks a class up by its name, among its own variables first and in the
module after them. It finds the class that the module means by the name if the
name is not private to the class of the method, and if no variable has it. The
variables are the parameters and a few that all methods have. Parameters are
given names that no type has; but a private one stands for a longer name, and
nothing keeps types from the names of the other variables. So what a method
finds is a condition on names, `Sees`, and a codec expression denotes in a
method what it denotes in the module if the method sees its classes:
`codec_of_sees`. Where a method finds no codec it has none for the whole
expression, `codec_of_misses`.
-/
import ContractClient.Client.Call
import ContractClient.Proofs.Client.Allocation
import ContractClient.Proofs.Client.Spelling

set_option autoImplicit false

namespace ContractClient

/-! ## The classes of an expression -/

namespace TypeExpr

mutual

/-- The names of the classes in an expression. -/
def classes : TypeExpr → List String
  | .named name => [name]
  | .seq item => classes item
  | .array item _ => classes item
  | .tuple items => classesOf items
  | .option inner => classes inner
  | .result ok err => classes ok ++ classes err
  | _ => []

/-- The names of the classes in several expressions. -/
def classesOf : List TypeExpr → List String
  | [] => []
  | t :: rest => classes t ++ classesOf rest

end

variable {ε : Type} {f : String → Except ε Codec} {named : String → Codec}

mutual

/-- **Evaluation looks up the classes of an expression**: it gives a codec
exactly if all of them have one, and then the one that the expression
denotes. -/
theorem eval_ok_iff : ∀ (t : TypeExpr) {c : Codec}, (∀ name ∈ t.classes, ∀ d, f name = .ok d → named name = d) →
    ((t.codecExpr false).eval f = .ok c ↔ (∀ name ∈ t.classes, f name = .ok (named name)) ∧ t.codec named = c)
  | .named name, c, h => by
    simp only [classes, List.mem_singleton, forall_eq] at h
    simp only [codecExpr, Bool.false_eq_true, if_false, CodecExpr.eval, classes, List.mem_singleton, forall_eq,
      codec]
    constructor
    · intro hc
      obtain rfl := h c hc
      exact ⟨hc, rfl⟩
    · rintro ⟨hc, rfl⟩
      exact hc
  | .seq item, c, h => by
    simp only [classes] at h
    simp only [codecExpr, CodecExpr.eval, classes, codec, map_ok_iff, eval_ok_iff item h, and_assoc,
      exists_and_left, exists_eq_left']
  | .array item length, c, h => by
    simp only [classes] at h
    simp only [codecExpr, CodecExpr.eval, classes, codec, map_ok_iff, eval_ok_iff item h, and_assoc,
      exists_and_left, exists_eq_left']
  | .tuple items, c, h => by
    simp only [classes] at h
    simp only [codecExpr, CodecExpr.eval, classes, codec, map_ok_iff, evalAll_ok_iff items h, and_assoc,
      exists_and_left, exists_eq_left']
  | .option inner, c, h => by
    simp only [classes] at h
    simp only [codecExpr, CodecExpr.eval, classes, codec, map_ok_iff, eval_ok_iff inner h, and_assoc,
      exists_and_left, exists_eq_left']
  | .result ok err, c, h => by
    simp only [classes, List.forall_mem_append] at h
    simp only [codecExpr, CodecExpr.eval, classes, codec, bind_ok_iff, eval_ok_iff ok h.1, eval_ok_iff err h.2,
      List.forall_mem_append, and_assoc, exists_and_left, exists_eq_left', pure, Except.pure, Except.ok.injEq]
  | .primitive _, _, _ | .compact _, _, _ | .newtype _, _, _ | .bytes, _, _ | .fixedBytes _, _, _ => by
    simp only [codecExpr, CodecExpr.eval, classes, codec, List.not_mem_nil, false_imp_iff, implies_true,
      true_and, Except.ok.injEq]

/-- Expressions evaluate to given codecs if each class that they name is found
with the codec that stands for it. That is an equivalence, not only an
implication: a method that finds one class too few finds no codec at all. -/
theorem evalAll_ok_iff : ∀ (ts : List TypeExpr) {cs : List Codec},
    (∀ name ∈ classesOf ts, ∀ d, f name = .ok d → named name = d) →
    (CodecExpr.evalAll f (codecExprs false ts) = .ok cs ↔
      (∀ name ∈ classesOf ts, f name = .ok (named name)) ∧ codecs named ts = cs)
  | [], cs, _ => by
    simp only [codecExprs, CodecExpr.evalAll, classesOf, codecs, List.not_mem_nil, false_imp_iff, implies_true,
      true_and, Except.ok.injEq]
  | t :: rest, cs, h => by
    simp only [classesOf, List.forall_mem_append] at h
    simp only [codecExprs, CodecExpr.evalAll, classesOf, codecs, bind_ok_iff, eval_ok_iff t h.1,
      evalAll_ok_iff rest h.2, List.forall_mem_append, and_assoc, exists_and_left, exists_eq_left', pure,
      Except.pure, Except.ok.injEq]

end

/-- What is found under a name, if anything is. -/
def found (f : String → Except ε Codec) (name : String) : Codec :=
  (f name).toOption.getD default

/-- A codec that is found is the one that `found` gives for the name. -/
theorem found_eq {name : String} {c : Codec} (h : f name = .ok c) : found f name = c := by
  rw [found, h]
  rfl

end TypeExpr

namespace CodecExpr

variable {ε : Type} {f : String → Except ε Codec} {P : ε → Prop}

mutual

/-- What evaluation fails with, looking a class up fails with. The induction is
on the expression; no constructor has a failure of its own. -/
theorem eval_failsAs (h : ∀ name, FailsAs P (f name)) : ∀ e : CodecExpr, FailsAs P (e.eval f)
  | .seq item => by
    simp only [eval]
    exact (eval_failsAs h item).map _
  | .array item length => by
    simp only [eval]
    exact (eval_failsAs h item).map _
  | .tuple items => by
    simp only [eval]
    exact (evalAll_failsAs h items).map _
  | .option inner => by
    simp only [eval]
    exact (eval_failsAs h inner).map _
  | .result ok err => by
    simp only [eval]
    exact (eval_failsAs h ok).bind fun _ _ => (eval_failsAs h err).bind fun _ _ => .ok _
  | .ofClass name => by
    simp only [eval]
    exact h name
  | .primitive _ | .compact _ | .newtype _ | .bytes | .fixedBytes _ | .lateOfClass _ => by
    simp only [eval]
    exact .ok _

/-- The only failures are those of the lookup, for several expressions as for
one. -/
theorem evalAll_failsAs (h : ∀ name, FailsAs P (f name)) : ∀ es : List CodecExpr, FailsAs P (evalAll f es)
  | [] => by
    simp only [evalAll]
    exact .ok _
  | e :: rest => by
    simp only [evalAll]
    exact (eval_failsAs h e).bind fun _ _ => (evalAll_failsAs h rest).bind fun _ _ => .ok _

end

end CodecExpr

/-! ## The variables of a method -/

/-- A name that is not private stands for itself. -/
theorem nameIn_of_plain {cls name : String} (h : isPrivate name = false) : nameIn cls name = name := by
  unfold nameIn
  rw [h]
  rfl

namespace ClientMethod

/-- The names of the variables that a method has beside its parameters. -/
def ownVariables (f : ClientMethod) (cls : String) : List String :=
  (f.locals cls [] false).map (·.1)

/-- The variables of a call are named as its parameters are, with private names
as the class body changes them. -/
theorem argumentVariables_names (f : ClientMethod) (cls : String) {args : List Value}
    (hlen : args.length = f.parameters.length) :
    (f.argumentVariables cls args).map (·.1) = f.parameters.map fun p => nameIn cls p.name := by
  have hzip : (f.parameters.zip args).map (·.1) = f.parameters := List.map_fst_zip (Nat.le_of_eq hlen.symm)
  calc (f.argumentVariables cls args).map (·.1)
      = (f.parameters.zip args).map ((fun p => nameIn cls p.name) ∘ Prod.fst) := List.map_map
    _ = ((f.parameters.zip args).map (·.1)).map fun p => nameIn cls p.name := List.map_map.symm
    _ = f.parameters.map fun p => nameIn cls p.name := by rw [hzip]

/-- A name is that of a variable exactly if the method has this variable anyway
or a parameter stands for it. -/
theorem mem_locals {f : ClientMethod} {cls : String} {args : List Value}
    (hlen : args.length = f.parameters.length) (sent : Bool) {name : String} :
    name ∈ (f.locals cls args sent).map (·.1) ↔
      name ∈ f.ownVariables cls ∨ ∃ p ∈ f.parameters, nameIn cls p.name = name := by
  have hnames := f.argumentVariables_names cls hlen
  have hparameters : (∃ p ∈ f.parameters, nameIn cls p.name = name) ↔
      name ∈ (f.argumentVariables cls args).map (·.1) := by
    rw [hnames, List.mem_map]
  have hnone : f.argumentVariables cls [] = [] := by
    rw [argumentVariables, List.zip_nil_right, List.map_nil]
  rw [hparameters]
  unfold ownVariables locals
  rw [hnone]
  -- The arguments stand among the other variables at four places, one for each way to call.
  rcases f.action with _ | _ | (_ | _)
  all_goals
    simp only [List.map_append, List.mem_append, List.map_cons, List.map_nil, List.append_nil]
    tauto

/-- Whether a method finds under a name the class that the module means by it:
the name is not private to the class of the method, and neither a variable of
the method nor a private parameter has it. -/
structure Sees (f : ClientMethod) (cls name : String) : Prop where
  shared : nameIn cls name = name
  own : name ∉ f.ownVariables cls
  parameters : ∀ p ∈ f.parameters, nameIn cls p.name ≠ p.name → nameIn cls p.name ≠ name

/-- A payable method has a variable for the amount. -/
theorem amount_ownVariables {f : ClientMethod} (h : f.payable = true) (cls : String) :
    "value" ∈ f.ownVariables cls := by
  unfold ownVariables locals
  rw [h]
  rcases f.action with _ | _ | (_ | _) <;> simp

/-- The variables that a method has anyway are names that no parameter is
given. -/
theorem reserved_of_ownVariables {f : ClientMethod} {cls name : String} (h : name ∈ f.ownVariables cls) :
    name ∈ argumentReserved := by
  have hall : ∀ name ∈ f.ownVariables cls, argumentReserved.contains name = true := by
    rw [← List.all_eq_true]
    unfold ownVariables locals argumentVariables
    rw [List.zip_nil_right]
    cases f.payable <;> rcases f.action with _ | _ | (_ | _) <;> rfl
  exact List.contains_iff_mem.1 (hall name h)

/-- A name that is not private and that parameters are kept off is seen, if no
parameter is private. -/
theorem sees_of_plain {f : ClientMethod} {cls name : String} (hname : isPrivate name = false)
    (hreserved : name ∉ argumentReserved) (hparameters : ∀ p ∈ f.parameters, isPrivate p.name = false) :
    f.Sees cls name := by
  refine ⟨nameIn_of_plain hname, fun hown => hreserved (reserved_of_ownVariables hown), fun p hp hprivate => ?_⟩
  exact absurd (nameIn_of_plain (hparameters p hp)) hprivate

/-- Whether a method finds no codec under a name: what the name stands for is
a variable of the method, or no class of the module with a codec. -/
def Misses (f : ClientMethod) (b : Bindings) (cls name : String) : Prop :=
  nameIn cls name ∈ f.ownVariables cls ∨ (∃ p ∈ f.parameters, nameIn cls p.name = nameIn cls name) ∨
    b.environment.codec? (nameIn cls name) = none

end ClientMethod

/-! ## Looking up -/

namespace Scope

variable {ε : Type} {scope : Scope}

/-- A name that no variable of the body has is looked up in the module. -/
theorem codecOf_of_notMem {name : String} (hshared : nameIn scope.cls name = name)
    (hlocal : name ∉ scope.locals.map (·.1)) :
    scope.codecOf (ε := ε) name = (scope.bindings.codecOf name).mapError .lookup := by
  have hfind : scope.locals.find? (·.1 == name) = none :=
    find?_eq_none_of_key Prod.fst fun x hx heq => hlocal (heq ▸ List.mem_map.2 ⟨x, hx, rfl⟩)
  unfold codecOf
  rw [hshared]
  dsimp only
  rw [hfind]

/-- A name that a variable of the body has is not a class, and has no codec. -/
theorem codecOf_of_mem {name : String} (hlocal : nameIn scope.cls name ∈ scope.locals.map (·.1)) (c : Codec) :
    scope.codecOf (ε := ε) name ≠ .ok c := by
  obtain ⟨x, hx, hname⟩ := List.mem_map.1 hlocal
  have hsome : (scope.locals.find? (·.1 == nameIn scope.cls name)).isSome :=
    List.find?_isSome.2 ⟨x, hx, by simpa using hname⟩
  obtain ⟨y, hy⟩ := Option.isSome_iff_exists.1 hsome
  unfold codecOf
  dsimp only
  rw [hy]
  rintro ⟨⟩

/-- **What is seen is found**: an expression denotes in a method what it denotes
in the module. -/
theorem codec_of_sees {t : TypeExpr} {c : Codec} (hc : (t.codecExpr false).eval scope.bindings.codecOf = .ok c)
    (hsees : ∀ name ∈ t.classes, nameIn scope.cls name = name ∧ name ∉ scope.locals.map (·.1)) :
    scope.codec (ε := ε) t = .ok c := by
  obtain ⟨hfound, hdenotes⟩ := (t.eval_ok_iff fun _ _ _ => TypeExpr.found_eq).1 hc
  have hsame : ∀ name ∈ t.classes,
      scope.codecOf (ε := ε) name = .ok (TypeExpr.found scope.bindings.codecOf name) := by
    intro name hname
    obtain ⟨hshared, hlocal⟩ := hsees name hname
    rw [codecOf_of_notMem hshared hlocal, hfound name hname]
    rfl
  refine (t.eval_ok_iff fun name hname d hd => ?_).2 ⟨hsame, hdenotes⟩
  rw [hsame name hname] at hd
  exact Except.ok.inj hd

end Scope

end ContractClient
