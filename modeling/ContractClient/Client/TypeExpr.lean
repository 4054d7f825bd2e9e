/-
Types spelled out.

A client refers to types by expressions: declared types by their names, and all
others by what they are made of. Spelling out a type goes down its definition
and stops at names, at leaves, and at the shapes that have a type of their own
at run time: options, results, account ids, hashes and byte strings.

Types that are neither named nor declared nest finitely unless they lie on a
cycle of their own, so the path from the type that was asked for is kept, and a
type that is met again on it is refused. The path holds different types of the
registry, which bounds the recursion.
-/
import ContractClient.Registry.Resolve
import ContractClient.Scale.Value

set_option autoImplicit false

namespace ContractClient

/-- The shapes that have a type of their own at run time. -/
inductive WellKnown
  | option
  | result
  | accountId
  | hash
  deriving DecidableEq, Repr

/-- The name of a shape. -/
def WellKnown.name : WellKnown → String
  | .option => "option"
  | .result => "result"
  | .accountId => "account_id"
  | .hash => "hash"

namespace Registry

/-- Whether a type is the byte. -/
def isByte (r : Registry) (id : TypeId) : Bool :=
  r.definition? id == some (.primitive (.unsigned .w8))

/-- Whether fields are thirty-two bytes and nothing else. -/
def isBytes32 (r : Registry) (fields : List Field) : Bool :=
  match fields with
  | [f] =>
    match r.definition? f.typeId with
    | some (.array item 32) => r.isByte item
    | _ => false
  | _ => false

/-- Whether a variant consists of the two given arms: names, indices and numbers
of fields. -/
def hasArms (arms : List Arm) (expected : List (String × Nat × Nat)) : Bool :=
  let found := arms.map fun a => (a.name, a.index, a.fields.length)
  found.all expected.contains && expected.all found.contains

/-- The crates whose account ids and hashes are recognized. -/
def knownCrates : List String := ["ink_primitives", "ink_env", "ink"]

/-- The shape of a type, which its path and its definition have to agree on. -/
def wellKnown? (r : Registry) (e : Entry) : Option WellKnown :=
  match e.definition with
  | .variant arms =>
    if e.path == ["Option"] && hasArms arms [("None", 0, 0), ("Some", 1, 1)] then some .option
    else if e.path == ["Result"] && hasArms arms [("Ok", 0, 1), ("Err", 1, 1)] then some .result
    else none
  | .composite fields =>
    if 2 ≤ e.path.length && knownCrates.contains (e.path.headD "") && r.isBytes32 fields then
      match e.path.getLast? with
      | some "AccountId" => some .accountId
      | some "Hash" => some .hash
      | _ => none
    else none
  | _ => none

end Registry

/-- The type of the first field of the arm with a name. -/
def TypeDef.armType? (name : String) : TypeDef → Option TypeId
  | .variant arms => do
    let arm ← arms.find? fun a => a.name == name
    let field ← arm.fields.head?
    return field.typeId
  | _ => none

/-- A type spelled out. -/
inductive TypeExpr
  | named (name : String)
  | primitive (kind : Primitive)
  | compact (width : Width)
  | newtype (kind : Newtype)
  | bytes
  | fixedBytes (length : Nat)
  | seq (item : TypeExpr)
  | array (item : TypeExpr) (length : Nat)
  | tuple (items : List TypeExpr)
  | option (inner : TypeExpr)
  | result (ok err : TypeExpr)
  deriving Repr

/-- Why a type cannot be spelled out. -/
inductive SpellError
  /-- The type is not in the registry. -/
  | unknown (id : TypeId)
  /-- The type has to be declared and has no name. -/
  | undeclared (id : TypeId)
  /-- The type is met again on the way down from itself. -/
  | recursive (id : TypeId) (cycle : List TypeId)
  deriving DecidableEq, Repr

/-- The error in words. -/
def SpellError.message : SpellError → String
  | .unknown id => toString id
  | .undeclared id => Text.literal s!"type {id} is neither declared nor well-known"
  | .recursive id cycle => recursionMessage id cycle

/-- The names of declared types. -/
abbrev TypeNames := List (TypeId × String)

/-- The name of a type, if it has one. -/
def TypeNames.find? (names : TypeNames) (id : TypeId) : Option String :=
  (List.find? (·.1 == id) names).map (·.2)

namespace Registry

/-- The number of types that are not on a path. -/
def offPath (r : Registry) (path : List TypeId) : Nat :=
  r.entries.countP fun e => !path.contains e.id

/-- A path that goes on to a type of the registry leaves fewer types off. -/
theorem offPath_lt {r : Registry} {id : TypeId} {e : Entry} {path : List TypeId}
    (he : r.entry? id = some e) (hn : ¬path.contains id = true) :
    r.offPath (id :: path) < r.offPath path := by
  have hid : e.id = id := by simpa using List.find?_some he
  refine Walk.countP_lt_of_mem (fun x hx => ?_) (List.mem_of_find?_eq_some he) ?_ ?_
  · simp only [List.contains_cons, Bool.not_or, Bool.and_eq_true] at hx
    exact hx.2
  · rw [hid]
    simpa using hn
  · simp [hid]

/-- The type spelled out, below the types on `path`, whose end comes first. -/
def spellBelow (r : Registry) (names : TypeNames) (path : List TypeId) (id : TypeId) :
    Except SpellError TypeExpr :=
  if _hn : path.contains id then .error (.recursive id (path.reverse.dropWhile (· != id) ++ [id]))
  else
    match names.find? id with
    | some name => .ok (.named name)
    | none =>
      match _he : r.entry? id with
      | none => .error (.unknown id)
      | some e =>
        match r.wellKnown? e with
        | some .accountId => .ok (.newtype .accountId)
        | some .hash => .ok (.newtype .hash)
        | some .option =>
          match e.definition.armType? "Some" with
          | some inner => do return .option (← r.spellBelow names (id :: path) inner)
          | none => .error (.undeclared id)
        | some .result =>
          match e.definition.armType? "Ok", e.definition.armType? "Err" with
          | some ok, some err => do
            let ok ← r.spellBelow names (id :: path) ok
            let err ← r.spellBelow names (id :: path) err
            return .result ok err
          | _, _ => .error (.undeclared id)
        | none =>
          match e.definition with
          | .primitive kind => .ok (.primitive kind)
          | .compact inner =>
            match r.definition? inner with
            | some (.primitive (.unsigned width)) => .ok (.compact width)
            | _ => .error (.unknown inner)
          | .sequence item =>
            if r.isByte item then .ok .bytes
            else do return .seq (← r.spellBelow names (id :: path) item)
          | .array item length =>
            if r.isByte item then .ok (.fixedBytes length)
            else do return .array (← r.spellBelow names (id :: path) item) length
          | .tuple items => do
            return .tuple (← items.mapM fun item => r.spellBelow names (id :: path) item)
          | .composite _ => .error (.undeclared id)
          | .variant _ => .error (.undeclared id)
termination_by r.offPath path
decreasing_by all_goals exact offPath_lt _he _hn

/-- **Spelling out.** The expression of a type, with the names of the declared
ones. -/
def spell (r : Registry) (names : TypeNames) (id : TypeId) : Except SpellError TypeExpr :=
  r.spellBelow names [] id

end Registry

end ContractClient
