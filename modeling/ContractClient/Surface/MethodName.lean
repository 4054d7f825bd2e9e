/-
Names of constructors and messages.

A label with a double colon belongs to an interface: what stands before the last
double colon names the interface, and what stands behind it the method. The
interface may be a path itself, of which no segment is empty. A label without a
double colon is a name on its own.
-/
import ContractClient.Text.Wording

set_option autoImplicit false

namespace ContractClient

/-- The name of a constructor or message, in its interface if it has one. -/
inductive MethodName (τ : Type := String)
  | grouped (interface name : τ)
  | ungrouped (name : τ)
  deriving DecidableEq, Repr

namespace MethodName

variable {τ γ : Type}

/-- The name without the interface. -/
def base : MethodName τ → τ
  | .grouped _ name => name
  | .ungrouped name => name

/-- The interface, if there is one. -/
def interface? : MethodName τ → Option τ
  | .grouped i _ => some i
  | .ungrouped _ => none

/-- What stands before and behind the last double colon. -/
def splitLast [DecidableEq γ] (colon : γ) : List γ → Option (List γ × List γ)
  | [] => none
  | c :: rest =>
    match splitLast colon rest with
    | some (before, behind) => some (c :: before, behind)
    | none =>
      match rest with
      | [] => none
      | d :: behind => if c = colon ∧ d = colon then some ([], behind) else none

/-- A path with one more character in front of its first segment. -/
def intoFirst (c : γ) : List (List γ) → List (List γ)
  | [] => [[c]]
  | s :: more => (c :: s) :: more

/-- The segments of a path; double colons are taken from the left. -/
def segments [DecidableEq γ] (colon : γ) : List γ → List (List γ)
  | [] => [[]]
  | [c] => [[c]]
  | c :: d :: rest =>
    if c = colon ∧ d = colon then [] :: segments colon rest else intoFirst c (segments colon (d :: rest))

/-- Why a label is no name. -/
inductive Refusal (τ : Type := String)
  | empty
  | emptySegment (label : τ)
  deriving DecidableEq, Repr

/-- The refusal in words. -/
def Refusal.message : Refusal → String
  | .empty => "SchemaError: empty method label"
  | .emptySegment label => s!"SchemaError: method label {Text.literal label} has an empty path segment"

/-- The name that a label spells. -/
def ofLabel [DecidableEq γ] [Wording τ γ] (label : τ) : Except (Refusal τ) (MethodName τ) :=
  match splitLast (Wording.colon τ) (Wording.characters label) with
  | none =>
    match Wording.characters label with
    | [] => .error .empty
    | _ :: _ => .ok (.ungrouped label)
  | some (interface, name) =>
    if name.isEmpty || (segments (Wording.colon τ) interface).any List.isEmpty then .error (.emptySegment label)
    else .ok (.grouped (Wording.ofCharacters interface) (Wording.ofCharacters name))

end MethodName

end ContractClient
