/-
Schemas of JSON values, what violates them, and which violation is reported.

A schema is a list of keywords, and every keyword is judged on its own: a value
of the wrong kind violates `kinds` and is ignored by the keywords that speak of
other kinds. Validation lists all violations, in the order of keywords,
properties and items, each with its path from the root of the judged value.

Of many violations the reported one is the most relevant: the one nearest to the
root, then the one with the greatest path, then one that is no failed choice,
then one whose schema asks for another kind of value. A failed choice holds the
violations of its branches, and while one is at hand the search goes on inside
it, now for the least relevant, unless two are equally so.
-/
import ContractClient.Json.Value

set_option autoImplicit false

namespace ContractClient.Json

/-- One step into a document: the member under a key or the item at an index. -/
inductive Segment
  | key (name : String)
  | index (position : Nat)
  deriving DecidableEq, Repr

/-- A place in a document. -/
abbrev Path := List Segment

/-- The step as it is written in a path. -/
def Segment.text : Segment → String
  | .key name => name
  | .index position => toString position

/-- A place in writing: its steps, separated by slashes. -/
def Path.text (p : Path) : String :=
  "/".intercalate (p.map Segment.text)

/-- The kinds of values that a schema can ask for. A binary64 number with an
integral value is an integer. -/
inductive Kind
  | null
  | boolean
  | integer
  | string
  | array
  | object
  deriving DecidableEq, Repr

/-- The name of a kind. -/
def Kind.name : Kind → String
  | .null => "null"
  | .boolean => "boolean"
  | .integer => "integer"
  | .string => "string"
  | .array => "array"
  | .object => "object"

/-- Whether a value is of a kind. -/
def Kind.holds : Kind → Json → Bool
  | .null, .null => true
  | .boolean, .bool _ => true
  | .integer, .int _ => true
  | .integer, .float x => x.isIntegral
  | .string, .str _ => true
  | .array, .arr _ => true
  | .object, .obj _ => true
  | _, _ => false

/-- A condition on texts, with the expression that states it. -/
structure Pattern where
  expression : String
  holds : List Char → Bool

mutual

/-- A schema: the keywords that a value has to satisfy. -/
inductive Schema
  | ofKeywords (keywords : List Keyword)

/-- A keyword of a schema. -/
inductive Keyword
  /-- The value is of one of the kinds. -/
  | kinds (allowed : List Kind)
  /-- An object has these keys. -/
  | required (keys : List String)
  /-- The members of an object under these keys satisfy these schemas. -/
  | properties (schemas : List (String × Schema))
  /-- The items of an array satisfy the schema. -/
  | items (schema : Schema)
  /-- A string is not empty. -/
  | nonEmptyString
  /-- A string satisfies the pattern. -/
  | pattern (p : Pattern)
  /-- A number is not below the bound. -/
  | minimum (bound : Int)
  /-- A number is not above the bound. -/
  | maximum (bound : Int)
  /-- An object is not empty. -/
  | nonEmptyObject
  /-- An object has at most so many members. -/
  | maxProperties (bound : Nat)
  /-- The value is one of these strings. -/
  | oneOfWords (words : List String)
  /-- An object has no keys but these. -/
  | onlyKeys (keys : List String)
  /-- The value satisfies all these schemas. -/
  | allOf (schemas : List Schema)
  /-- The value satisfies one of these schemas. -/
  | oneOf (schemas : List Schema)

end

/-- What a keyword finds wrong with a value. -/
inductive Complaint
  | notOfKinds (v : Json) (allowed : List Kind)
  | missingKey (key : String)
  | belowMinimum (v : Json) (bound : Int)
  | aboveMaximum (v : Json) (bound : Int)
  | empty (v : Json)
  | tooManyProperties (v : Json)
  | noMatch (v : Json) (expression : String)
  | notAWord (v : Json) (words : List String)
  | extraKeys (keys : List String)
  | noBranch (v : Json)

/-- The complaint in words. -/
def Complaint.message : Complaint → String
  | .notOfKinds v allowed =>
    s!"{v.literal} is not of type " ++ ", ".intercalate (allowed.map fun k => Text.literal k.name)
  | .missingKey key => s!"{Text.literal key} is a required property"
  | .belowMinimum v bound => s!"{v.literal} is less than the minimum of {bound}"
  | .aboveMaximum v bound => s!"{v.literal} is greater than the maximum of {bound}"
  | .empty v => s!"{v.literal} should be non-empty"
  | .tooManyProperties v => s!"{v.literal} has too many properties"
  | .noMatch v expression => s!"{v.literal} does not match {Text.literal expression}"
  | .notAWord v words => s!"{v.literal} is not one of {(Json.arr (words.map .str)).literal}"
  | .extraKeys keys =>
    let verb := if keys.length = 1 then "was" else "were"
    let names := ", ".intercalate (keys.map Text.literal)
    s!"Additional properties are not allowed ({names} {verb} unexpected)"
  | .noBranch v => s!"{v.literal} is not valid under any of the given schemas"

/-- A violation: where it is, what it is, whether the schema that holds the
keyword asks for a kind that the value has, and, for a failed choice, the
violations of all branches, with paths from the chosen value. -/
inductive Violation
  | of (path : Path) (complaint : Complaint) (kindFits : Bool) (branches : List Violation)

namespace Violation

/-- Where the violation is. -/
def path : Violation → Path
  | .of path _ _ _ => path

/-- What the violation is. -/
def complaint : Violation → Complaint
  | .of _ complaint _ _ => complaint

/-- The violation seen from further out. -/
def within (outer : Path) : Violation → Violation
  | .of path complaint kindFits branches => .of (outer ++ path) complaint kindFits branches

/-- Whether the violation is a failed choice. -/
def isChoice : Violation → Bool
  | .of _ (.noBranch _) _ _ => true
  | _ => false

/-- Whether the schema that holds the keyword asks for a kind that the value
has. -/
def kindFits : Violation → Bool
  | .of _ _ kindFits _ => kindFits

end Violation

/-- A complaint about the value itself. -/
def complain (kindFits : Bool) (complaint : Complaint) : List Violation :=
  [.of [] complaint kindFits []]

/-- The kinds that a schema asks for, if it does. -/
def askedKinds : List Keyword → List Kind
  | [] => []
  | .kinds allowed :: _ => allowed
  | _ :: rest => askedKinds rest

/-- The keys of `members` outside `keys`, in ascending order. -/
def unexpectedKeys (keys : List String) (members : List (String × Json)) : List String :=
  ((members.map (·.1)).filter fun k => !keys.contains k).mergeSort fun a b => a ≤ b

mutual

/-- All violations of a schema by a value. -/
def Schema.violations : Schema → Json → List Violation
  | .ofKeywords keywords, v =>
    keywordViolations ((askedKinds keywords).any fun k => k.holds v) keywords v

/-- The violations of the keywords of one schema. -/
def keywordViolations (kindFits : Bool) : List Keyword → Json → List Violation
  | [], _ => []
  | k :: rest, v => Keyword.violations kindFits k v ++ keywordViolations kindFits rest v

/-- The violations of one keyword. -/
def Keyword.violations (kindFits : Bool) : Keyword → Json → List Violation
  | .kinds allowed, v =>
    if allowed.any fun k => k.holds v then [] else complain kindFits (.notOfKinds v allowed)
  | .required keys, .obj members =>
    (keys.filter fun k => (find? members k).isNone).flatMap fun k => complain kindFits (.missingKey k)
  | .properties schemas, .obj members => propertyViolations schemas members
  | .items schema, .arr items =>
    items.zipIdx.flatMap fun (item, i) => (schema.violations item).map (·.within [.index i])
  | .nonEmptyString, .str s => if s.isEmpty then complain kindFits (.empty (.str s)) else []
  | .pattern p, .str s =>
    if p.holds s.toList then [] else complain kindFits (.noMatch (.str s) p.expression)
  | .minimum bound, .int n => if n < bound then complain kindFits (.belowMinimum (.int n) bound) else []
  | .minimum bound, .float x =>
    if x.ltInt bound then complain kindFits (.belowMinimum (.float x) bound) else []
  | .maximum bound, .int n => if bound < n then complain kindFits (.aboveMaximum (.int n) bound) else []
  | .maximum bound, .float x =>
    if x.gtInt bound then complain kindFits (.aboveMaximum (.float x) bound) else []
  | .nonEmptyObject, .obj members => if members.isEmpty then complain kindFits (.empty (.obj members)) else []
  | .maxProperties bound, .obj members =>
    if bound < members.length then complain kindFits (.tooManyProperties (.obj members)) else []
  | .oneOfWords words, v =>
    let known := match v with
      | .str s => words.contains s
      | _ => false
    if known then [] else complain kindFits (.notAWord v words)
  | .onlyKeys keys, .obj members =>
    match unexpectedKeys keys members with
    | [] => []
    | extra => complain kindFits (.extraKeys extra)
  | .allOf schemas, v => (branchViolations schemas v).flatten
  | .oneOf schemas, v =>
    let branches := branchViolations schemas v
    if branches.any List.isEmpty then [] else [.of [] (.noBranch v) kindFits branches.flatten]
  | _, _ => []

/-- The violations of several schemas by one value, schema by schema. -/
def branchViolations : List Schema → Json → List (List Violation)
  | [], _ => []
  | schema :: rest, v => schema.violations v :: branchViolations rest v

/-- The violations of the schemas of the members that are there. -/
def propertyViolations : List (String × Schema) → List (String × Json) → List Violation
  | [], _ => []
  | (key, schema) :: rest, members =>
    let here := match find? members key with
      | some v => (schema.violations v).map (·.within [.key key])
      | none => []
    here ++ propertyViolations rest members

end

/-! ## The reported violation -/

/-- The order of steps: keys by their characters, indices by size. -/
def Segment.compare : Segment → Segment → Ordering
  | .key a, .key b => Ord.compare a b
  | .index a, .index b => Ord.compare a b
  | .key _, .index _ => .gt
  | .index _, .key _ => .lt

/-- The order of paths: by the first step in which they differ. -/
def comparePaths : Path → Path → Ordering
  | [], [] => .eq
  | [], _ :: _ => .lt
  | _ :: _, [] => .gt
  | a :: as, b :: bs => (a.compare b).then (comparePaths as bs)

/-- The order of violations by relevance. -/
def Violation.compare (a b : Violation) : Ordering :=
  (Ord.compare b.path.length a.path.length).then <|
    (comparePaths a.path b.path).then <|
      (Ord.compare (!a.isChoice) (!b.isChoice)).then <|
        Ord.compare (!a.kindFits) (!b.kindFits)

/-- The first of the most relevant violations. -/
def mostRelevant : List Violation → Option Violation
  | [] => none
  | v :: rest => some (rest.foldl (fun best v => if v.compare best == .gt then v else best) v)

/-- The first of the least relevant of labelled violations. -/
def leastRelevant {α : Type} : List (Violation × α) → Option (Violation × α)
  | [] => none
  | v :: rest => some (rest.foldl (fun best v => if v.1.compare best.1 == .lt then v else best) v)

/-- Whether a single violation is the least relevant one. -/
def isAlone {α : Type} (least : Violation) (all : List (Violation × α)) : Bool :=
  (all.filter fun v => v.1.compare least == .eq).length == 1

mutual

/-- The violation that is reported for `v`: while there is a single least
relevant branch violation, that one. -/
def Violation.innermost : Violation → Violation
  | .of path complaint kindFits branches =>
    let resolved := innermostAll branches
    match leastRelevant resolved with
    | some (least, inner) =>
      if isAlone least resolved then inner.within path else .of path complaint kindFits branches
    | none => .of path complaint kindFits branches

/-- Each violation with the one that is reported for it. -/
def innermostAll : List Violation → List (Violation × Violation)
  | [] => []
  | v :: rest => (v, v.innermost) :: innermostAll rest

end

/-- The reported violation of a schema by a value, if there is one. -/
def Schema.reported (schema : Schema) (v : Json) : Option Violation :=
  (mostRelevant (schema.violations v)).map Violation.innermost

end ContractClient.Json
