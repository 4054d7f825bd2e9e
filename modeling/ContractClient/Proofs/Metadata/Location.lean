/-
Where a document is wrong, and what is wrong there.

An error of loading names its place by a text, keys and indices with slashes
between them. Whoever reads it goes down the document step by step,
`Json.follow`: every step leads from an object to a member or from an array to
an item, and only the last one may be a key that an object does not have. What
is found at the end is to be what the error says is wrong, `Defect.ShownBy`.

The readers of the loader are told the place of the value that they read, and
they pass on the places of its members and items. So one thing is shown of each
of them: given a value together with its place in a document, `Stands`, it fails
with nothing but errors that hold of the document, `Located`. An entry of the
registry is read after others, and a number that was taken by then stands in one
of these.
-/
import ContractClient.Proofs.Metadata.Inversion
import ContractClient.Proofs.Metadata.RoundTrip
import Std.Data.String.ToNat

set_option autoImplicit false

namespace ContractClient

open Json

namespace Json

/-! ## Following a path -/

/-- The part of a value that a step leads to: a member by its key, an item by
its index. -/
def child? : Json → String → Option Json
  | .obj members, key => find? members key
  | .arr items, index => (items.zipIdx.find? fun p => toString p.2 == index).map (·.1)
  | _, _ => none

/-- What a step leads to that leads to no part of a value, with other steps
after it: nothing, if it is the last one and a key. -/
def absence : Json → List String → Option (Option Json)
  | .obj _, [] => some none
  | _, _ => none

/-- What the steps of a path lead to: a value, or nothing, if the last step is a
key that an object does not have. Steps that lead nowhere have no answer. -/
def follow : Json → List String → Option (Option Json)
  | v, [] => some (some v)
  | v, step :: rest =>
    match v.child? step with
    | some w => w.follow rest
    | none => v.absence rest

/-- The steps of a path in writing. -/
def stepsOf (text : String) : List String :=
  (text.toList.splitOn '/').map String.ofList

section

variable {v w : Json} {found : Option Json} {step : String} {steps front back : List String}
  {members : List (String × Json)} {items : List Json}

/-- A step that leads to a part of the value is taken, and the rest of the path
is followed from there. -/
theorem follow_child (h : v.child? step = some w) (rest : List String) : v.follow (step :: rest) = w.follow rest := by
  rw [follow, h]

/-- A first step leads to a part of the value, unless it is the only step and a
key that is not there. -/
theorem follow_cons_cases {rest : List String} (h : v.follow (step :: rest) = some found) :
    (∃ w, v.child? step = some w ∧ w.follow rest = some found) ∨
      ∃ members, v = .obj members ∧ find? members step = none ∧ rest = [] ∧ found = none := by
  rw [follow] at h
  cases hchild : v.child? step with
  | some w =>
    rw [hchild] at h
    exact .inl ⟨w, rfl, h⟩
  | none =>
    rw [hchild] at h
    dsimp only at h
    unfold absence at h
    split at h
    next members =>
      cases h
      exact .inr ⟨members, rfl, hchild, rfl, rfl⟩
    · cases h

/-- Paths are followed piece by piece: what the front leads to is where the back
sets out from. The front must lead to a value, since nothing can be followed
from a key that is missing. -/
theorem follow_append (h : v.follow front = some (some w)) : v.follow (front ++ back) = w.follow back := by
  induction front generalizing v with
  | nil =>
    cases h
    rfl
  | cons step front ih =>
    rcases follow_cons_cases h with ⟨u, hu, h⟩ | ⟨_, _, _, _, hfound⟩
    · rw [List.cons_append, follow_child hu]
      exact ih h
    · cases hfound

/-- All steps but the last one lead to values. -/
theorem exists_of_follow_append (h : v.follow (front ++ back) = some found) (hback : back ≠ []) :
    ∃ w, v.follow front = some (some w) := by
  induction front generalizing v with
  | nil => exact ⟨v, rfl⟩
  | cons step front ih =>
    rcases follow_cons_cases h with ⟨u, hu, h⟩ | ⟨_, _, _, hrest, _⟩
    · rw [follow_child hu]
      exact ih h
    · exact absurd (List.append_eq_nil_iff.1 hrest).2 hback

/-- A path to nothing ends with a key that an object does not have. -/
theorem absent_of_follow (h : v.follow steps = some none) : ∃ front key members, steps = front ++ [key] ∧
    v.follow front = some (some (.obj members)) ∧ find? members key = none := by
  induction steps generalizing v with
  | nil => cases h
  | cons step rest ih =>
    rcases follow_cons_cases h with ⟨u, hu, h⟩ | ⟨members, rfl, hnone, rfl, -⟩
    · obtain ⟨front, key, members, rfl, hfront, hnone⟩ := ih h
      exact ⟨step :: front, key, members, rfl, (follow_child hu _).trans hfront, hnone⟩
    · exact ⟨[], step, members, rfl, rfl, hnone⟩

/-- From an object one key leads to the member under it, or to nothing where
there is none. -/
theorem follow_key (members : List (String × Json)) (key : String) :
    (Json.obj members).follow [key] = some (find? members key) := by
  rw [follow]
  change (match find? members key with
    | some w => w.follow []
    | none => some none) = _
  cases find? members key with
  | some w => rfl
  | none => rfl

/-- From a list one position, written in decimal, leads to the item there.
Positions are compared in writing, so it matters that different numbers are
written differently. -/
theorem follow_index {i : Nat} (h : items[i]? = some v) : (Json.arr items).follow [toString i] = some (some v) := by
  obtain ⟨hi, hv⟩ := List.getElem?_eq_some_iff.1 h
  have hfind : items.zipIdx.find? (fun p => toString p.2 == toString i) = some (v, i) := by
    rw [List.find?_eq_some_iff_getElem]
    refine ⟨beq_self_eq_true _, i, by simpa using hi, by simp [hv], fun j hj => ?_⟩
    -- Indices before this one are written differently.
    have hne : toString j ≠ toString i := fun heq => absurd (Nat.repr_inj.1 heq) (by omega)
    simpa using hne
  have hchild : (Json.arr items).child? (toString i) = some v := congrArg (Option.map Prod.fst) hfind
  rw [follow_child hchild]
  rfl

end

/-! ## Places -/

/-- What stands at a place of a document. The steps of the place have no
slashes, so that they can be told apart in writing. -/
structure Stands (doc : Json) (place : Path) (found : Option Json) : Prop where
  nonempty : place ≠ []
  slashless : ∀ s ∈ place, '/' ∉ s.text.toList
  followed : doc.follow (place.map Segment.text) = some found

namespace Stands

variable {doc v : Json} {place : Path} {found : Option Json} {members : List (String × Json)} {items : List Json}

/-- A place is extended by one step without a slash. All places that the loader
names come about in this way, from the keys of the document on. -/
theorem extend {s : Segment} (h : Stands doc place (some v)) (hs : '/' ∉ s.text.toList)
    (hv : v.follow [s.text] = some found) : Stands doc (place ++ [s]) found := by
  constructor
  case nonempty => exact List.append_ne_nil_of_right_ne_nil _ (List.cons_ne_nil _ _)
  case slashless => exact List.forall_mem_append.2 ⟨h.slashless, List.forall_mem_singleton.2 hs⟩
  case followed =>
    rw [List.map_append, follow_append h.followed]
    exact hv

/-- A member of the document itself. -/
theorem top (members : List (String × Json)) {key : String} (hkey : '/' ∉ key.toList) :
    Stands (.obj members) [.key key] (find? members key) :=
  ⟨List.cons_ne_nil _ _, List.forall_mem_singleton.2 hkey, follow_key members key⟩

/-- The place of a member, which stands also where the member is missing: then
nothing is found there. -/
theorem member {key : String} (h : Stands doc place (some (.obj members))) (hkey : '/' ∉ key.toList) :
    Stands doc (Load.memberOf place key) (find? members key) :=
  h.extend (s := .key key) hkey (follow_key members key)

/-- The place of an item. Positions are written in digits, among which there is
no slash. -/
theorem item {i : Nat} (h : Stands doc place (some (.arr items))) (hi : items[i]? = some v) :
    Stands doc (Load.itemOf place i) (some v) := by
  refine h.extend (s := .index i) ?_ (follow_index hi)
  intro hslash
  have hdigits : (toString i).toList = Nat.toDigits 10 i := Nat.toList_repr
  have hdigit := Nat.isDigit_of_mem_toDigits (by decide) (by decide) (hdigits ▸ hslash)
  exact absurd hdigit (by decide)

/-- The steps of a place can be read back from its writing. -/
theorem stepsOf_text (h : Stands doc place found) : stepsOf place.text = place.map Segment.text := by
  have htext : place.text.toList = ['/'].intercalate (place.map fun s => s.text.toList) := by
    rw [Path.text, String.toList_intercalate, List.map_map]
    rfl
  have hsplit : place.text.toList.splitOn '/' = place.map fun s => s.text.toList := by
    rw [htext]
    refine List.splitOn_intercalate '/' ?_ (by simpa using h.nonempty)
    simpa using h.slashless
  rw [stepsOf, hsplit, List.map_map]
  refine List.map_congr_left fun s _ => ?_
  exact String.ofList_toList

end Stands

end Json

/-! ## What errors say -/

/-- Whether a value is of another kind than the expected one. Null is no object,
no number and no line of text; where it stands for what is left out, it is
either fine or another defect. -/
def Expected.Misses : Expected → Json → Prop
  | .object, v => ∀ members, v ≠ .obj members
  | .array, v => v ≠ .null ∧ ∀ items, v ≠ .arr items
  | .string, v => ∀ s, v ≠ .str s
  | .nonEmptyString, v => v ≠ .null ∧ ∀ s, s ≠ "" → v ≠ .str s
  | .boolean, v => v ≠ .null ∧ ∀ b, v ≠ .bool b
  | .natural, v => ∀ n : Nat, v ≠ .int n
  | .typeId, v => ∀ n : Nat, v ≠ .int n
  | .optionalTypeId, v => v ≠ .null ∧ ∀ n, v ≠ .int n
  | .hex, v => v ≠ .null ∧ ∀ s digits, Bytes.after0x? s = some digits → v ≠ .str s

/-- The kinds of type definitions that are known. -/
def TypeDef.knownKinds : List String :=
  ["primitive", "composite", "variant", "sequence", "array", "tuple", "compact", "bitSequence"]

/-- Where the number of an entry stands. -/
def Load.idPlace (i : Nat) : Path :=
  [.key "types", .index i, .key "id"]

/-- How many bytes a place asks for. -/
def Load.LengthAt (place : Path) (length : Nat) : Prop :=
  (∃ outer, place = memberOf outer "selector" ∧ length = 4) ∨ place = [.key "source", .key "hash"] ∧ length = 32

/-- What a defect says about the thing that is found at its place. An object or
a number that is not there is expected as well; whatever else has to be there is
missing. Defects of the text and of the layout are not found by following a
place. -/
def Defect.ShownBy (hash : HashFunction) (doc : Json) (place : Path) (found : Option Json) : Defect → Prop
  | .unsupportedVersion version =>
    place = [.key "version"] ∧ version = found.getD .null ∧ version ≠ .int 4 ∧ version ≠ .str "4"
  | .expected what => (∃ v, found = some v ∧ what.Misses v) ∨ found = none ∧ (what = .object ∨ what = .natural)
  | .missing what => found = none ∨ found = some .null ∧ (what = .string ∨ what = .boolean)
  | .duplicateTypeId id => found = some (.int id) ∧
      ∃ i j, j < i ∧ place = Load.idPlace i ∧ Stands doc (Load.idPlace j) (some (.int id))
  | .definitionForm => ∀ kind body, found ≠ some (.obj [(kind, body)])
  | .unknownPrimitive body => found = some body ∧ ∀ p : Primitive, body ≠ .str p.name
  | .bitSequence => ∃ outer body, place = Load.memberOf outer "bitSequence" ∧
      Stands doc outer (some (.obj [("bitSequence", body)])) ∧ found = some body
  | .unknownKind kind => kind ∉ TypeDef.knownKinds ∧ ∃ body, found = some (.obj [(kind, body)])
  | .malformedHex text => found = some (.str text) ∧
      ∃ digits, Bytes.after0x? text = some digits ∧ Bytes.ofHex? digits = none
  | .wrongLength needed given => given ≠ needed ∧ Load.LengthAt place needed ∧
      ∃ v bytes, found = some v ∧ v.hexBytes? = some bytes ∧ bytes.length = given
  | .hashMismatch declared computed => computed ≠ declared ∧ place = [.key "source", .key "hash"] ∧
      (∃ v, found = some v ∧ v.hexBytes? = some declared) ∧ ∃ w code, Stands doc [.key "source", .key "wasm"] (some w) ∧
        w.hexBytes? = some code ∧ computed = hash code
  | .notUtf8 _ | .notJson _ _ | .notAnObject | .unsupportedInput _ | .layout _ => False

/-- Whether an error holds of a document: at its place is found what it says. -/
def Load.Located (hash : HashFunction) (doc : Json) (e : LoadError) : Prop :=
  ∃ place found, e.place = some place ∧ Stands doc place found ∧ e.defect.ShownBy hash doc place found

namespace Load

section

variable {hash : HashFunction} {doc v : Json} {place : Path} {found : Option Json} {members : Members} {key : String}
  {α : Type}

/-- What is not null is there. -/
theorem found_eq_some (hv : found.getD .null = v) (hne : v ≠ .null) : found = some v :=
  (Option.getD_eq_iff.1 hv).resolve_right fun h => hne h.2.symm

/-- Digits stand in a value: where nothing is found there are no digits
either. -/
theorem exists_of_hexBytes? {bytes : Bytes} (h : (found.getD .null).hexBytes? = some bytes) :
    ∃ v, found = some v ∧ v.hexBytes? = some bytes := by
  cases found with
  | none => cases h
  | some v => exact ⟨v, rfl, h⟩

/-- Failing at a place that stands in the document is failing where the message
says, if the defect can be seen there. All lemmas about readers come down to
this one. -/
theorem located_fail (defect : Defect) (h : Stands doc place found) (hshown : defect.ShownBy hash doc place found) :
    FailsAs (α := α) (Located hash doc) (fail place defect) :=
  .error ⟨place, found, rfl, h, hshown⟩

/-- The same for a value of the wrong kind other than null. Null and nothing at
all are reported in more than one way, and have lemmas of their own below. -/
theorem located_expected (what : Expected) (h : Stands doc place found) (hv : found.getD .null = v) (hne : v ≠ .null)
    (hmisses : what.Misses v) : FailsAs (α := α) (Located hash doc) (fail place (.expected what)) :=
  located_fail (.expected what) h (.inl ⟨v, found_eq_some hv hne, hmisses⟩)

/-- Null and nothing are no object and no number. -/
theorem located_expected_null (what : Expected) (h : Stands doc place found) (hv : found.getD .null = .null)
    (hwhat : what = .object ∨ what = .natural) :
    FailsAs (α := α) (Located hash doc) (fail place (.expected what)) := by
  cases found with
  | none => exact located_fail (.expected what) h (.inr ⟨rfl, hwhat⟩)
  | some w =>
    obtain rfl : w = .null := hv
    have hmisses : what.Misses .null := by
      rcases hwhat with rfl | rfl
      · exact nofun
      · exact nofun
    exact located_fail (.expected what) h (.inl ⟨.null, rfl, hmisses⟩)

/-- A negative number is not a natural one, though it is an integer. -/
theorem misses_of_neg {n : Int} (hn : ¬ 0 ≤ n) : Expected.natural.Misses (.int n) := by
  rintro k ⟨⟩
  exact hn (Int.natCast_nonneg k)

/-- Null is as good as nothing where a string or a boolean is required. -/
theorem located_missing (what : Expected) (h : Stands doc place found) (hv : found.getD .null = .null)
    (hwhat : what = .string ∨ what = .boolean) :
    FailsAs (α := α) (Located hash doc) (fail place (.missing what)) := by
  refine located_fail (.missing what) h ?_
  cases found with
  | none => exact .inl rfl
  | some w => exact .inr ⟨congrArg some hv, hwhat⟩

/-! ## Values of one kind -/

/-- Readers of objects refuse what is not an object, and report it where it
stands. -/
theorem located_asObject (h : Stands doc place found) :
    FailsAs (Located hash doc) (asObject place (found.getD .null)) := by
  cases hv : found.getD .null with
  | obj members => exact .ok members
  | null => exact located_expected_null .object h hv (.inl rfl)
  | _ => exact located_expected .object h hv nofun nofun

/-- What goes on with the members of an object finds the object at its place. -/
theorem located_object {next : Members → Except LoadError α} (h : Stands doc place found)
    (hnext : ∀ members, Stands doc place (some (.obj members)) → FailsAs (Located hash doc) (next members)) :
    FailsAs (Located hash doc) (asObject place (found.getD .null) >>= next) := by
  refine (located_asObject h).bind fun members hmembers => hnext members ?_
  rwa [found_eq_some (asObject_eq_ok hmembers) nofun] at h

/-- Readers of lists refuse what is neither a list nor null. A list that is
missing is an empty one for them, so they never report that something is
missing. -/
theorem located_asArray (h : Stands doc place found) :
    FailsAs (Located hash doc) (asArray place (found.getD .null)) := by
  cases hv : found.getD .null with
  | null => exact .ok []
  | arr items => exact .ok items
  | _ => exact located_expected .array h hv nofun ⟨nofun, nofun⟩

/-- Readers of texts refuse what is not a text. Null is refused as a value of
the wrong kind here, since these readers are used for items, which are there. -/
theorem located_asString (h : Stands doc place (some v)) : FailsAs (Located hash doc) (asString place v) := by
  cases v with
  | str s => exact .ok s
  | _ => exact located_fail (.expected .string) h (.inl ⟨_, rfl, nofun⟩)

/-- An array that was read is there, unless it is empty. -/
theorem stands_of_asArray {items : List Json} (h : Stands doc place found)
    (hitems : asArray place (found.getD .null) = .ok items) : items = [] ∨ Stands doc place (some (.arr items)) := by
  rcases asArray_eq_ok hitems with hnull | harr
  · rw [hnull] at hitems
    cases hitems
    exact .inl rfl
  · exact .inr (found_eq_some harr nofun ▸ h)

/-- The items of an array are read at their places. -/
theorem located_each {read : Path → Json → Except LoadError α} {items : List Json} (h : Stands doc place found)
    (hitems : asArray place (found.getD .null) = .ok items)
    (hread : ∀ place v, Stands doc place (some v) → FailsAs (Located hash doc) (read place v)) :
    FailsAs (Located hash doc) (each place read items) := by
  rcases stands_of_asArray h hitems with rfl | h
  · -- Null, or nothing at all, has no items to be read.
    exact .ok []
  · refine .mapM fun p hp => ?_
    exact hread _ _ (h.item (List.mk_mem_zipIdx_iff_getElem?.1 hp))

/-- What may be null is read only where it is not, so whatever its reader
reports is about something that is there. -/
theorem located_optional {read : Path → Json → Except LoadError α}
    (h : v ≠ .null → FailsAs (Located hash doc) (read place v)) :
    FailsAs (Located hash doc) (optional read place v) := by
  unfold optional
  split
  · exact .ok none
  next hne => exact (h hne).map some

/-- Readers of byte strings report a value that is no text, or a text without a
prefix, as something else than hexadecimal. A text with the prefix whose digits
are not those of bytes is reported as malformed, and shown as it was found. -/
theorem located_hex (h : Stands doc place found) (hne : found.getD .null ≠ .null) :
    FailsAs (Located hash doc) (hex place (found.getD .null)) := by
  unfold hex
  cases hv : found.getD .null with
  | null => exact absurd hv hne
  | str s =>
    dsimp only
    cases hdigits : Bytes.after0x? s with
    | none =>
      refine located_expected .hex h hv nofun ⟨nofun, ?_⟩
      rintro _ digits hsome ⟨⟩
      cases hdigits.symm.trans hsome
    | some digits =>
      dsimp only
      cases hbytes : Bytes.ofHex? digits with
      | some bytes => exact .ok bytes
      | none =>
        exact located_fail (.malformedHex s) h ⟨found_eq_some hv nofun, digits, hdigits, hbytes⟩
  | _ => exact located_expected .hex h hv nofun ⟨nofun, nofun⟩

/-- A byte string of the wrong length is reported where it stands, beside the
defects of its digits. -/
theorem located_hexOfLength {length : Nat} (h : Stands doc place found) (hlength : LengthAt place length)
    (hne : found.getD .null ≠ .null) :
    FailsAs (Located hash doc) (hexOfLength length place (found.getD .null)) := by
  refine (located_hex h hne).bind fun bytes hbytes => ?_
  refine .ite (fun _ => .ok bytes) fun hgiven => ?_
  obtain ⟨v, hfound, hv⟩ := exists_of_hexBytes? (hexBytes?_of_hex hbytes)
  exact located_fail (.wrongLength length bytes.length) h ⟨hgiven, hlength, v, bytes, hfound, hv, rfl⟩

/-! ## Members -/

/-- A member that has to be an object fails at its own place, not at that of the
object around it: as missing where it is not there, and as something else where
it is no object. -/
theorem located_objectMember (h : Stands doc (memberOf place key) (find? members key)) :
    FailsAs (Located hash doc) (objectMember place members key) := by
  unfold objectMember
  split
  next v hv =>
    rw [hv] at h
    exact located_asObject h
  next hnone => exact located_fail (.missing .object) h (.inl hnone)

/-- A member that has to be a list fails at its own place in the same two
ways. -/
theorem located_arrayMember (h : Stands doc (memberOf place key) (find? members key)) :
    FailsAs (Located hash doc) (arrayMember place members key) := by
  unfold arrayMember
  split
  next v hv =>
    rw [hv] at h
    exact located_asArray h
  next hnone => exact located_fail (.missing .array) h (.inl hnone)

/-- **The items of a member fail at their own places**, if their reader fails at
the place it is given wherever that is. The place of an item goes through the
place of the member. -/
theorem located_eachMember {read : Path → Json → Except LoadError α} {items : List Json}
    (h : Stands doc (memberOf place key) (find? members key)) (hitems : arrayMember place members key = .ok items)
    (hread : ∀ place v, Stands doc place (some v) → FailsAs (Located hash doc) (read place v)) :
    FailsAs (Located hash doc) (each (memberOf place key) read items) := by
  obtain ⟨v, hfound, hv⟩ := find?_of_arrayMember hitems
  rw [hfound] at h
  exact located_each h hv hread

/-- A member that has to be a text fails at its own place, also if the text is
empty. -/
theorem located_stringMember (h : Stands doc (memberOf place key) (find? members key)) :
    FailsAs (Located hash doc) (stringMember place members key) := by
  unfold stringMember
  cases hv : get members key with
  | null => exact located_missing .string h hv (.inl rfl)
  | str s =>
    refine .ite (fun hempty => ?_) fun _ => .ok s
    refine located_expected .nonEmptyString h hv nofun ⟨nofun, ?_⟩
    rintro _ hne ⟨⟩
    exact hne (String.isEmpty_iff.1 hempty)
  | _ => exact located_expected .nonEmptyString h hv nofun ⟨nofun, nofun⟩

/-- A member that may be a text fails where it is something else, but not where
it is missing. -/
theorem located_optionalStringMember (h : Stands doc (memberOf place key) (find? members key)) :
    FailsAs (Located hash doc) (optionalStringMember place members key) := by
  unfold optionalStringMember
  cases hv : get members key with
  | null => exact .ok none
  | str s => exact .ok (some s)
  | _ => exact (located_expected .string h hv nofun nofun).map some

/-- A member that has to be a natural number fails at its own place, whether it
is missing, no integer or below zero. -/
theorem located_naturalMember (h : Stands doc (memberOf place key) (find? members key)) :
    FailsAs (Located hash doc) (naturalMember place members key) := by
  unfold naturalMember
  cases hv : get members key with
  | int n =>
    refine .ite (fun _ => .ok n.toNat) fun hn => ?_
    exact located_expected .natural h hv nofun (misses_of_neg hn)
  | null => exact located_expected_null .natural h hv (.inr rfl)
  | _ => exact located_expected .natural h hv nofun nofun

/-- A member that has to be true or false fails at its own place. It has no
default: a message has to say whether it changes the state. -/
theorem located_booleanMember (h : Stands doc (memberOf place key) (find? members key)) :
    FailsAs (Located hash doc) (booleanMember place members key) := by
  unfold booleanMember
  cases hv : get members key with
  | null => exact located_missing .boolean h hv (.inr rfl)
  | bool b => exact .ok b
  | _ => exact located_expected .boolean h hv nofun ⟨nofun, nofun⟩

/-- A member that may be true or false fails where it is something else; where
it is missing it is false. -/
theorem located_flagMember (h : Stands doc (memberOf place key) (find? members key)) :
    FailsAs (Located hash doc) (flagMember place members key) := by
  unfold flagMember
  cases hv : get members key with
  | null => exact .ok false
  | bool b => exact .ok b
  | _ => exact located_expected .boolean h hv nofun ⟨nofun, nofun⟩

/-- A member that is a list of texts fails at its own place, or at that of an
item. -/
theorem located_stringsMember (h : Stands doc (memberOf place key) (find? members key)) :
    FailsAs (Located hash doc) (stringsMember place members key) := by
  refine (located_asArray h).bind fun items hitems => ?_
  exact located_each h hitems fun _ _ => located_asString

/-! ## Types -/

/-- A field fails at the place of the member that is wrong in it. From here on
the lemmas follow the readers of the parts of a document; each one puts together
what its steps report. -/
theorem located_field (h : Stands doc place (some v)) : FailsAs (Located hash doc) (field place v) := by
  refine located_object h fun f hf => ?_
  refine (located_naturalMember (hf.member (by decide))).bind fun _ _ => ?_
  refine (located_optionalStringMember (hf.member (by decide))).bind fun _ _ => ?_
  refine (located_optionalStringMember (hf.member (by decide))).bind fun _ _ => ?_
  exact (located_stringsMember (hf.member (by decide))).bind fun _ _ => .ok _

/-- Fields fail at their own places under the key `fields`. -/
theorem located_fieldsMember (h : Stands doc place (some (.obj members))) :
    FailsAs (Located hash doc) (fieldsMember place members) := by
  have hfields : Stands doc (memberOf place "fields") (find? members "fields") := h.member (by decide)
  refine (located_asArray hfields).bind fun items hitems => ?_
  exact located_each hfields hitems fun _ _ => located_field

/-- An arm fails at the place of the member that is wrong in it, or inside of
its fields. -/
theorem located_arm (h : Stands doc place (some v)) : FailsAs (Located hash doc) (arm place v) := by
  refine located_object h fun a ha => ?_
  refine (located_stringMember (ha.member (by decide))).bind fun _ _ => ?_
  refine (located_naturalMember (ha.member (by decide))).bind fun _ _ => ?_
  refine (located_fieldsMember ha).bind fun _ _ => ?_
  exact (located_stringsMember (ha.member (by decide))).bind fun _ _ => .ok _

/-- The number of a type, as an item of a tuple, fails at its own place. -/
theorem located_typeNumber (h : Stands doc place (some v)) : FailsAs (Located hash doc) (typeNumber place v) := by
  unfold typeNumber
  cases v with
  | int n =>
    refine .ite (fun _ => .ok n.toNat) fun hn => ?_
    exact located_fail (.expected .typeId) h (.inl ⟨_, rfl, misses_of_neg hn⟩)
  | _ => exact located_fail (.expected .typeId) h (.inl ⟨_, rfl, nofun⟩)

/-- No kind of a definition has a slash in it, so kinds can be steps of
places. -/
theorem slashless_of_knownKinds : ∀ kind ∈ TypeDef.knownKinds, '/' ∉ kind.toList := by
  decide

/-- A primitive that is not known is reported where it stands, whether it is a
text that is no name or no text at all. -/
theorem located_unknownPrimitive (h : Stands doc place (some v))
    (hunknown : ∀ s, v = .str s → Primitive.ofName? s = none) :
    FailsAs (α := α) (Located hash doc) (fail place (.unknownPrimitive v)) := by
  refine located_fail (.unknownPrimitive v) h ⟨rfl, fun p hname => ?_⟩
  cases (hunknown p.name hname).symm.trans p.ofName?_name

/-- A definition is at fault itself unless it has one member of a known kind;
then the fault is in the member. The kinds are tried in an order, and each case
below starts where the ones before it have failed, so in the end no known kind
is left. -/
theorem located_definition (h : Stands doc place found) :
    FailsAs (Located hash doc) (definition place (found.getD .null)) := by
  -- Only the known kinds are sure to have no slashes, and only their members are gone into.
  have hbody : ∀ kind body, found.getD .null = .obj [(kind, body)] → kind ∈ TypeDef.knownKinds →
      Stands doc (memberOf place kind) (some body) := by
    intro kind body hv hkind
    rw [found_eq_some hv nofun] at h
    have hfind : find? [(kind, body)] kind = some body := by simp [find?]
    exact hfind ▸ h.member (slashless_of_knownKinds kind hkind)
  unfold definition
  split
  next kind body hv =>
    have hin := hbody kind body hv
    -- Each kind in the order in which they are tried; what is left is none of them.
    refine .ite (fun hkind => ?_) fun hprimitive => ?_
    · obtain rfl := eq_of_beq hkind
      have hin := hin (by decide)
      split
      next s =>
        split
        next p hname => exact .ok (TypeDef.primitive p)
        next hname => exact located_unknownPrimitive hin fun s' heq => Json.str.inj heq ▸ hname
      next hother => exact located_unknownPrimitive hin fun s heq => (hother s heq).elim
    refine .ite (fun hkind => ?_) fun hcomposite => ?_
    · obtain rfl := eq_of_beq hkind
      have hin := hin (by decide)
      exact located_object hin fun d hd => (located_fieldsMember hd).bind fun _ _ => .ok _
    refine .ite (fun hkind => ?_) fun hvariant => ?_
    · obtain rfl := eq_of_beq hkind
      have hin := hin (by decide)
      refine located_object hin fun d hd => ?_
      have harms : Stands doc (memberOf (memberOf place "variant") "variants") (find? d "variants") :=
        hd.member (by decide)
      refine (located_asArray harms).bind fun items hitems => ?_
      exact (located_each harms hitems fun _ _ => located_arm).bind fun _ _ => .ok _
    refine .ite (fun hkind => ?_) fun hsequence => ?_
    · obtain rfl := eq_of_beq hkind
      have hin := hin (by decide)
      exact located_object hin fun d hd => (located_naturalMember (hd.member (by decide))).bind fun _ _ => .ok _
    refine .ite (fun hkind => ?_) fun harray => ?_
    · obtain rfl := eq_of_beq hkind
      have hin := hin (by decide)
      refine located_object hin fun d hd => ?_
      refine (located_naturalMember (hd.member (by decide))).bind fun _ _ => ?_
      exact (located_naturalMember (hd.member (by decide))).bind fun _ _ => .ok _
    refine .ite (fun hkind => ?_) fun htuple => ?_
    · obtain rfl := eq_of_beq hkind
      have hin := hin (by decide)
      refine (located_asArray hin).bind fun items hitems => ?_
      exact (located_each hin hitems fun _ _ => located_typeNumber).bind fun _ _ => .ok _
    refine .ite (fun hkind => ?_) fun hcompact => ?_
    · obtain rfl := eq_of_beq hkind
      have hin := hin (by decide)
      exact located_object hin fun d hd => (located_naturalMember (hd.member (by decide))).bind fun _ _ => .ok _
    have hfound := found_eq_some hv nofun
    refine .ite (fun hkind => ?_) fun hbits => ?_
    · obtain rfl := eq_of_beq hkind
      exact located_fail .bitSequence (hin (by decide)) ⟨place, body, rfl, hfound ▸ h, rfl⟩
    · refine located_fail (.unknownKind kind) h ⟨?_, body, hfound⟩
      simp only [beq_iff_eq] at hprimitive hcomposite hvariant hsequence harray htuple hcompact hbits
      simp [TypeDef.knownKinds, *]
  next hform =>
    refine located_fail .definitionForm h fun kind body hfound => ?_
    rw [hfound] at hform
    exact hform kind body rfl

/-- A parameter fails at the place of the member that is wrong in it. -/
theorem located_parameter (h : Stands doc place (some v)) : FailsAs (Located hash doc) (parameter place v) := by
  refine located_object h fun p hp => ?_
  have hname : FailsAs (Located hash doc) (stringMember place p "name") := located_stringMember (hp.member (by decide))
  have htype : Stands doc (memberOf place "type") (find? p "type") := hp.member (by decide)
  cases hv : get p "type" with
  | null => exact hname.bind fun _ _ => .ok _
  | int n => exact hname.bind fun _ _ => .ok _
  | _ => exact located_expected .optionalTypeId htype hv nofun ⟨nofun, nofun⟩

/-- Parameters fail at their own places under the key `params`. -/
theorem located_parametersMember (h : Stands doc place (some (.obj members))) :
    FailsAs (Located hash doc) (parametersMember place members) := by
  have hparams : Stands doc (memberOf place "params") (find? members "params") := h.member (by decide)
  refine (located_asArray hparams).bind fun items hitems => ?_
  exact located_each hparams hitems fun _ _ => located_parameter

/-- An entry fails for what stands in it, or because its number stands in an
earlier one. -/
theorem located_entry {taken : List TypeId} {i : Nat} (h : Stands doc [.key "types", .index i] (some v))
    (htaken : ∀ id ∈ taken, ∃ j < i, Stands doc (idPlace j) (some (.int id))) :
    FailsAs (Located hash doc) (entry taken [.key "types", .index i] v) := by
  refine located_object h fun item hitem => ?_
  have hnumber : Stands doc (idPlace i) (find? item "id") := hitem.member (by decide)
  refine (located_naturalMember hnumber).bind fun id hid => ?_
  by_cases hrepeated : taken.contains id = true
  · rw [if_pos hrepeated]
    obtain ⟨j, hj, hearlier⟩ := htaken id (List.contains_iff_mem.1 hrepeated)
    rw [find?_of_naturalMember hid] at hnumber
    exact located_fail (.duplicateTypeId id) hnumber ⟨rfl, i, j, hj, rfl, hearlier⟩
  rw [if_neg hrepeated]
  -- The number is new, so what is wrong is in the type.
  have htype : Stands doc (memberOf [.key "types", .index i] "type") (find? item "type") := hitem.member (by decide)
  refine (located_objectMember htype).bind fun ty hty => ?_
  rw [find?_of_objectMember hty] at htype
  refine (located_definition (htype.member (by decide))).bind fun _ _ => ?_
  refine (located_parametersMember htype).bind fun _ _ => ?_
  refine (located_stringsMember (htype.member (by decide))).bind fun _ _ => ?_
  exact (located_stringsMember (htype.member (by decide))).bind fun _ _ => .ok _

/-- The induction is on the items that are left, and what was taken stands in
the items before them. A number that is used twice is reported at the second
entry, with the first one before it in the document. -/
theorem located_entriesFrom {taken : List TypeId} {i : Nat} {items rest : List Json}
    (h : Stands doc [.key "types"] (some (.arr items))) (hrest : items.drop i = rest)
    (htaken : ∀ id ∈ taken, ∃ j < i, Stands doc (idPlace j) (some (.int id))) :
    FailsAs (Located hash doc) (entriesFrom [.key "types"] taken i rest) := by
  induction rest generalizing taken i with
  | nil => exact .ok []
  | cons v rest ih =>
    have hv : items[i]? = some v := by
      rw [← Nat.add_zero i, ← List.getElem?_drop, hrest]
      rfl
    have hitem : Stands doc [.key "types", .index i] (some v) := h.item hv
    refine (located_entry hitem htaken).bind fun e he => ?_
    refine .bind (ih ?_ ?_) fun _ _ => .ok _
    · rw [← List.tail_drop, hrest]
      rfl
    · -- The number of this entry is taken from now on.
      intro id hid
      rcases List.mem_cons.1 hid with rfl | hid
      · obtain ⟨item, rfl, hnumber⟩ := entry_eq_ok he
        exact ⟨i, Nat.lt_succ_self i, hnumber ▸ hitem.member (by decide)⟩
      · obtain ⟨j, hj, hearlier⟩ := htaken id hid
        exact ⟨j, Nat.lt_succ_of_lt hj, hearlier⟩

/-! ## Signatures -/

/-- A reference to a type in a signature fails at the place of the reference or
at that of the number in it. -/
theorem located_typeRef (h : Stands doc place found) :
    FailsAs (Located hash doc) (typeRef place (found.getD .null)) := by
  exact located_object h fun ref href => located_naturalMember (href.member (by decide))

/-- An argument fails at the place of the member that is wrong in it. Only
readers of events look at whether it is indexed. -/
theorem located_argument {ofEvent : Bool} (h : Stands doc place (some v)) :
    FailsAs (Located hash doc) (argument ofEvent place v) := by
  refine located_object h fun a ha => ?_
  cases ofEvent
  case' true => refine (located_flagMember (ha.member (by decide))).bind fun _ _ => ?_
  case' false => refine .bind (.ok false) fun _ _ => ?_
  all_goals
    refine (located_stringMember (ha.member (by decide))).bind fun _ _ => ?_
    refine (located_typeRef (ha.member (by decide))).bind fun _ _ => ?_
    exact (located_stringsMember (ha.member (by decide))).bind fun _ _ => .ok _

/-- Arguments fail at their own places under the key `args`. -/
theorem located_argumentsMember {ofEvent : Bool} (h : Stands doc place (some (.obj members))) :
    FailsAs (Located hash doc) (argumentsMember ofEvent place members) := by
  have hargs : Stands doc (memberOf place "args") (find? members "args") := h.member (by decide)
  refine (located_asArray hargs).bind fun items hitems => ?_
  exact located_each hargs hitems fun _ _ => located_argument

/-- A method fails at the place of the member that is wrong in it. Constructors
and messages are read by the same steps but one. -/
theorem located_method {isConstructor : Bool} (h : Stands doc place (some v)) :
    FailsAs (Located hash doc) (method isConstructor place v) := by
  refine located_object h fun m hm => ?_
  have hreturn : Stands doc (memberOf place "returnType") (find? m "returnType") := hm.member (by decide)
  have hselector : Stands doc (memberOf place "selector") (find? m "selector") := hm.member (by decide)
  -- Constructors and messages are read alike but for the member that says whether the
  -- state changes.
  cases isConstructor
  case' true => refine .bind (.ok true) fun _ _ => ?_
  case' false => refine (located_booleanMember (hm.member (by decide))).bind fun _ _ => ?_
  all_goals
    refine (located_stringMember (hm.member (by decide))).bind fun _ _ => ?_
    refine (located_argumentsMember hm).bind fun _ _ => ?_
    refine (located_optional fun _ => located_typeRef hreturn).bind fun _ _ => ?_
    refine (located_flagMember (hm.member (by decide))).bind fun _ _ => ?_
    refine (located_optional (located_hexOfLength hselector (.inl ⟨place, rfl, rfl⟩))).bind fun _ _ => ?_
    refine (located_optionalStringMember (hm.member (by decide))).bind fun _ _ => ?_
    exact (located_stringsMember (hm.member (by decide))).bind fun _ _ => .ok _

/-- An event fails at the place of the member that is wrong in it. -/
theorem located_event (h : Stands doc place (some v)) : FailsAs (Located hash doc) (event place v) := by
  refine located_object h fun e he => ?_
  refine (located_stringMember (he.member (by decide))).bind fun _ _ => ?_
  refine (located_argumentsMember he).bind fun _ _ => ?_
  exact (located_stringsMember (he.member (by decide))).bind fun _ _ => .ok _

/-! ## Documents -/

/-- The source of a document. Hash and code are read one by one, and if both are
there they are compared; a hash that does not match is shown where it stands. -/
theorem located_source (h : Stands doc [.key "source"] found) :
    FailsAs (Located hash doc) (source hash [.key "source"] (found.getD .null)) := by
  unfold source
  split
  · exact .ok (none, none)
  refine located_object h fun s hs => ?_
  have hhash : Stands doc [.key "source", .key "hash"] (find? s "hash") := hs.member (by decide)
  have hwasm : Stands doc [.key "source", .key "wasm"] (find? s "wasm") := hs.member (by decide)
  refine (located_optional (located_hexOfLength hhash (.inr ⟨rfl, rfl⟩))).bind fun declared hdeclared => ?_
  refine (located_optional (located_hex hwasm)).bind fun wasm hcode => ?_
  split
  next declared code =>
    refine .ite (fun _ => .ok _) fun hne => ?_
    obtain ⟨w, hw, hbytes⟩ := exists_of_hexBytes? (hexBytes?_of_optional (fun _ hread => hread) hcode)
    rw [hw] at hwasm
    refine located_fail (.hashMismatch declared (hash code)) hhash ⟨hne, rfl, ?_, w, code, hwasm, hbytes, rfl⟩
    exact exists_of_hexBytes? (hexBytes?_of_optional (fun _ hread => (hexOfLength_eq_ok hread).1) hdeclared)
  · exact .ok _

/-- A version that is not supported is reported under its key, and shown as it
was found. -/
theorem located_checkVersion : FailsAs (Located hash (.obj members)) (checkVersion members) := by
  refine .ite (fun _ => .ok ()) fun hunsupported => ?_
  refine located_fail (.unsupportedVersion (get members "version")) (Stands.top members (by decide))
    ⟨rfl, rfl, ?_, ?_⟩
  · intro hv
    rw [hv] at hunsupported
    exact hunsupported rfl
  · intro hv
    rw [hv] at hunsupported
    exact hunsupported rfl

/-- **Whatever is found wrong with an object is there.** One lemma for each
member, in the order in which they are read: `FailsAs.bind` says that the first
failure is the one that is reported, and that the later members are read only
where the earlier ones were right. -/
theorem located_members (hash : HashFunction) (doc : Members) :
    FailsAs (Located hash (.obj doc)) (Load.members hash false doc) := by
  have htop : ∀ key : String, '/' ∉ key.toList → Stands (.obj doc) (memberOf [] key) (find? doc key) :=
    fun _ => .top doc
  have htypes := htop "types" (by decide)
  have hspec := htop "spec" (by decide)
  have hcontract := htop "contract" (by decide)
  -- In the order in which the members are read, as the first thing that is wrong is reported.
  refine located_checkVersion.bind fun _ _ => ?_
  refine (located_arrayMember htypes).bind fun items hitems => ?_
  have hentries : FailsAs (Located hash (.obj doc)) (entriesFrom [.key "types"] [] 0 items) := by
    obtain ⟨v, hfound, hv⟩ := find?_of_arrayMember hitems
    rw [hfound] at htypes
    rcases stands_of_asArray htypes hv with rfl | hitems
    · exact .ok []
    · exact located_entriesFrom hitems rfl nofun
  refine hentries.bind fun _ _ => ?_
  refine (located_objectMember hspec).bind fun spec hread => ?_
  rw [find?_of_objectMember hread] at hspec
  refine (located_arrayMember (hspec.member (by decide))).bind fun items hitems => ?_
  refine (located_eachMember (hspec.member (by decide)) hitems fun _ _ => located_method).bind fun _ _ => ?_
  refine (located_arrayMember (hspec.member (by decide))).bind fun items hitems => ?_
  refine (located_eachMember (hspec.member (by decide)) hitems fun _ _ => located_method).bind fun _ _ => ?_
  have hevents : Stands (.obj doc) [.key "spec", .key "events"] (find? spec "events") := hspec.member (by decide)
  refine (located_asArray hevents).bind fun items hitems => ?_
  refine (located_each hevents hitems fun _ _ => located_event).bind fun _ _ => ?_
  refine (located_objectMember hcontract).bind fun contract hread => ?_
  rw [find?_of_objectMember hread] at hcontract
  refine (located_stringMember (hcontract.member (by decide))).bind fun _ _ => ?_
  refine (located_optionalStringMember (hcontract.member (by decide))).bind fun _ _ => ?_
  exact (located_source (htop "source" (by decide))).bind fun _ _ => .ok _

end

end Load

/-- **Errors are located.** The message of an object that is rejected names a
path. Read step by step from the object, it leads to a value before its last
step, and with it to a value or to a key that the object at hand does not have;
and what is found there is what the message says is wrong. -/
theorem rejection_located {hash : HashFunction} {document : Document} {doc : Load.Members} {e : LoadError}
    (hdoc : Load.object document = .ok doc) (h : document.load hash false = .error e) :
    ∃ place found, e.place = some place ∧
      e.message = schemaErrorMessage e.defect.message (some place.text) ∧
      (∀ front back, stepsOf place.text = front ++ back → back ≠ [] →
        ∃ v, (Json.obj doc).follow front = some (some v)) ∧
      (Json.obj doc).follow (stepsOf place.text) = some found ∧
      (found = none → ∃ front key owner, stepsOf place.text = front ++ [key] ∧
        (Json.obj doc).follow front = some (some (.obj owner)) ∧ find? owner key = none) ∧
      e.defect.ShownBy hash (.obj doc) place found := by
  have hmembers : Load.members hash false doc = .error e := by
    rw [Document.load, hdoc] at h
    exact h
  obtain ⟨place, found, hplace, hstands, hshown⟩ := Load.located_members hash doc e hmembers
  have hsteps := hstands.stepsOf_text
  have hfollowed := hstands.followed
  rw [← hsteps] at hfollowed
  refine ⟨place, found, hplace, ?_, ?_, hfollowed, ?_, hshown⟩
  · cases place with
    | nil => exact absurd rfl hstands.nonempty
    | cons s rest => rw [LoadError.message, hplace]
  · intro front back hsplit hback
    rw [hsplit] at hfollowed
    exact exists_of_follow_append hfollowed hback
  · rintro rfl
    exact absent_of_follow hfollowed

/-- A document with two types of one number. -/
def repeatedDocument : Load.Members :=
  [("version", .int 4),
    ("types", .arr [.obj [("id", .int 0), ("type", .obj [("def", .obj [("primitive", .str "u8")])])],
      .obj [("id", .int 0), ("type", .null)]])]

/-- The place leads to the second number. -/
theorem rejection_located_repeated : ∃ e, (Document.value (.obj repeatedDocument)).load id false = .error e ∧
    e.message = "SchemaError [types/1/id]: duplicate type id 0" ∧
    (Json.obj repeatedDocument).follow ["types", "1", "id"] = some (some (.int 0)) ∧
    e.defect.ShownBy id (.obj repeatedDocument) [.key "types", .index 1, .key "id"] (some (.int 0)) := by
  have hload : (Document.value (.obj repeatedDocument)).load id false =
      .error ⟨.duplicateTypeId 0, some [.key "types", .index 1, .key "id"]⟩ := by
    rfl
  obtain ⟨place, found, hplace, hmessage, -, hfollow, -, hshown⟩ := rejection_located rfl hload
  cases hplace
  have hsteps : stepsOf (Path.text [.key "types", .index 1, .key "id"]) = ["types", "1", "id"] := by
    decide
  have htwo : (Json.obj repeatedDocument).follow ["types", "1", "id"] = some (some (.int 0)) := by
    rfl
  rw [hsteps, htwo] at hfollow
  cases hfollow
  exact ⟨_, hload, hmessage, htwo, hshown⟩

end ContractClient
