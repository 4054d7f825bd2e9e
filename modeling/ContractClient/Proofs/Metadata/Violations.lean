/-
What a schema finds wrong, keyword by keyword.

Two things are asked of the violations of the layout: that there are none, for a
document that was written from a model, and of which sort they are, for a
document that loads nevertheless. Both say that all violations are of a sort,
`Schema.Only`, of none at all in the first case. What this means is given here
once for each keyword and for the forms of which the layout is made: objects
with members, arrays of one form, and schemas that stand for others. A member's
violations are those of its own schema seen from further out.
-/
import ContractClient.Metadata.Layout
import ContractClient.Proofs.Bytes.Hex

set_option autoImplicit false

namespace ContractClient

namespace Json

/-- Whether all violations of a schema by a value are of a sort. -/
def Schema.Only (P : Violation → Prop) (schema : Schema) (v : Json) : Prop :=
  ∀ x ∈ schema.violations v, P x

/-- Whether all violations of a keyword by a value are of a sort. -/
def Keyword.Only (P : Violation → Prop) (fits : Bool) (keyword : Keyword) (v : Json) : Prop :=
  ∀ x ∈ keyword.violations fits v, P x

/-- Whether a value satisfies a schema. -/
def Schema.Accepts (schema : Schema) (v : Json) : Prop :=
  schema.Only (fun _ => False) v

/-- A value satisfies a schema if no violation is found, which is how validity
is decided. -/
theorem accepts_iff {schema : Schema} {v : Json} : schema.Accepts v ↔ schema.violations v = [] :=
  List.eq_nil_iff_forall_not_mem.symm

/-- What is satisfied violates nothing, whatever else is asked of violations. -/
theorem Schema.Accepts.only {schema : Schema} {v : Json} (h : schema.Accepts v) (P : Violation → Prop) :
    schema.Only P v :=
  fun x hx => (h x hx).elim

/-- Violations of a sort are of every wider sort. -/
theorem Schema.Only.imp {P Q : Violation → Prop} {schema : Schema} {v : Json} (h : schema.Only P v)
    (himp : ∀ x, P x → Q x) : schema.Only Q v :=
  fun x hx => himp x (h x hx)

section

variable {P : Violation → Prop} {fits : Bool} {v : Json}

/-- Keywords are independent of each other: what is found wrong is what each of
them finds. -/
theorem keywordViolations_mem {keywords : List Keyword} {x : Violation} :
    x ∈ keywordViolations fits keywords v ↔ ∃ k ∈ keywords, x ∈ k.violations fits v := by
  induction keywords with
  | nil => simp [keywordViolations]
  | cons k rest ih => simp only [keywordViolations, List.mem_append, ih, List.mem_cons, exists_eq_or_imp]

/-- **A schema is taken apart into its keywords.** Whether the value has one of
the kinds that the schema asks for is noted in each violation, for choosing
which one to report; it is the same for all keywords of the schema. -/
theorem only_ofKeywords_iff {keywords : List Keyword} : (Schema.ofKeywords keywords).Only P v ↔
    ∀ k ∈ keywords, k.Only P ((askedKinds keywords).any fun k => k.holds v) v := by
  have hall : (Schema.ofKeywords keywords).violations v =
      keywordViolations ((askedKinds keywords).any fun k => k.holds v) keywords v := rfl
  unfold Schema.Only Keyword.Only
  simp only [hall, keywordViolations_mem]
  exact ⟨fun h k hk x hx => h x ⟨k, hk, hx⟩, fun h x ⟨k, hk, hx⟩ => h k hk x hx⟩

/-! ## Keywords -/

/-- A keyword that complains of a value under a condition. -/
theorem only_complain_iff {k : Keyword} {c : Prop} [Decidable c] {complaint : Complaint}
    (h : k.violations fits v = if c then [] else complain fits complaint) :
    k.Only P fits v ↔ c ∨ P (.of [] complaint fits []) := by
  unfold Keyword.Only
  rw [h]
  by_cases hc : c
  · simp [hc]
  · simp [hc, complain]

/-- A keyword that complains of a value unless a condition holds. -/
theorem only_complain_iff_not {k : Keyword} {c : Prop} [Decidable c] {complaint : Complaint}
    (h : k.violations fits v = if c then complain fits complaint else []) :
    k.Only P fits v ↔ (c → P (.of [] complaint fits [])) := by
  unfold Keyword.Only
  rw [h]
  by_cases hc : c
  · simp [hc, complain]
  · simp [hc]

/-- A keyword about kinds complains unless the value is of one of them. -/
theorem only_kinds_iff {allowed : List Kind} : (Keyword.kinds allowed).Only P fits v ↔
    allowed.any (fun k => k.holds v) = true ∨ P (.of [] (.notOfKinds v allowed) fits []) :=
  only_complain_iff rfl

/-- A text is complained of if it is empty. -/
theorem only_nonEmptyString_iff {s : String} : Keyword.nonEmptyString.Only P fits (.str s) ↔
    (s.isEmpty = true → P (.of [] (.empty (.str s)) fits [])) :=
  only_complain_iff_not rfl

/-- A text is complained of unless it matches. -/
theorem only_pattern_iff {p : Pattern} {s : String} : (Keyword.pattern p).Only P fits (.str s) ↔
    p.holds s.toList = true ∨ P (.of [] (.noMatch (.str s) p.expression) fits []) :=
  only_complain_iff rfl

/-- An integer is complained of if it is below the bound; the bound itself is
allowed. -/
theorem only_minimum_iff {bound n : Int} : (Keyword.minimum bound).Only P fits (.int n) ↔
    (n < bound → P (.of [] (.belowMinimum (.int n) bound) fits [])) :=
  only_complain_iff_not rfl

/-- An integer is complained of if it is above the bound; the bound itself is
allowed. -/
theorem only_maximum_iff {bound n : Int} : (Keyword.maximum bound).Only P fits (.int n) ↔
    (bound < n → P (.of [] (.aboveMaximum (.int n) bound) fits [])) :=
  only_complain_iff_not rfl

/-- An object is complained of if it has no members. -/
theorem only_nonEmptyObject_iff {members : List (String × Json)} :
    Keyword.nonEmptyObject.Only P fits (.obj members) ↔
      (members.isEmpty = true → P (.of [] (.empty (.obj members)) fits [])) :=
  only_complain_iff_not rfl

/-- An object is complained of if it has more members than it may have. -/
theorem only_maxProperties_iff {bound : Nat} {members : List (String × Json)} :
    (Keyword.maxProperties bound).Only P fits (.obj members) ↔
      (bound < members.length → P (.of [] (.tooManyProperties (.obj members)) fits [])) :=
  only_complain_iff_not rfl

/-- A text is complained of unless it is one of the words. -/
theorem only_oneOfWords_iff {words : List String} {s : String} : (Keyword.oneOfWords words).Only P fits (.str s) ↔
    words.contains s = true ∨ P (.of [] (.notAWord (.str s) words) fits []) :=
  only_complain_iff rfl

/-- Known keys are no extra keys. -/
theorem only_onlyKeys {keys : List String} {members : List (String × Json)} (h : ∀ p ∈ members, p.1 ∈ keys) :
    (Keyword.onlyKeys keys).Only P fits (.obj members) := by
  have hextra : unexpectedKeys keys members = [] := by
    rw [unexpectedKeys, List.filter_eq_nil_iff.2, List.mergeSort_nil]
    intro k hk
    obtain ⟨p, hp, rfl⟩ := List.mem_map.1 hk
    simpa using h p hp
  have hnone : (Keyword.onlyKeys keys).violations fits (.obj members) = [] := by
    simp only [Keyword.violations, hextra]
  intro x hx
  rw [hnone] at hx
  cases hx

/-- Each required key that is missing is a violation of its own. -/
theorem only_required_iff {keys : List String} {members : List (String × Json)} :
    (Keyword.required keys).Only P fits (.obj members) ↔
      ∀ key ∈ keys, find? members key = none → P (.of [] (.missingKey key) fits []) := by
  have hall : (Keyword.required keys).violations fits (.obj members) =
      (keys.filter fun k => (find? members k).isNone).flatMap fun k => complain fits (.missingKey k) := rfl
  unfold Keyword.Only
  simp only [hall, List.mem_flatMap, List.mem_filter, Option.isNone_iff_eq_none, complain, List.mem_singleton]
  constructor
  · intro h key hkey hnone
    exact h _ ⟨key, ⟨hkey, hnone⟩, rfl⟩
  · rintro h _ ⟨key, ⟨hkey, hnone⟩, rfl⟩
    exact h key hkey hnone

/-- What is asked of violations that are moved outwards can be asked of them
where they are. -/
theorem only_map_within_iff {schema : Schema} {outer : Path} :
    (∀ x ∈ (schema.violations v).map (·.within outer), P x) ↔ schema.Only (fun x => P (x.within outer)) v :=
  List.forall_mem_map

/-- The members that have a schema are judged by it, each under its own key. A
member that is missing violates nothing; that is for `required` to say. -/
theorem only_properties_iff {schemas : List (String × Schema)} {members : List (String × Json)} :
    (Keyword.properties schemas).Only P fits (.obj members) ↔
      ∀ p ∈ schemas, ∀ v, find? members p.1 = some v → p.2.Only (fun x => P (x.within [.key p.1])) v := by
  have hall : (Keyword.properties schemas).violations fits (.obj members) = propertyViolations schemas members := rfl
  unfold Keyword.Only
  rw [hall]
  clear hall
  induction schemas with
  | nil => simp [propertyViolations]
  | cons p rest ih =>
    obtain ⟨key, schema⟩ := p
    rw [propertyViolations, List.forall_mem_append, List.forall_mem_cons]
    refine and_congr ?_ ih
    cases hfound : find? members key with
    | none => simp
    | some v => simp only [Option.some.injEq, forall_eq', only_map_within_iff]

/-- The items of a list are judged by one schema, each at its own position. -/
theorem only_items_iff {schema : Schema} {items : List Json} : (Keyword.items schema).Only P fits (.arr items) ↔
    ∀ p ∈ items.zipIdx, schema.Only (fun x => P (x.within [.index p.2])) p.1 := by
  have hall : (Keyword.items schema).violations fits (.arr items) =
      items.zipIdx.flatMap fun p => (schema.violations p.1).map (·.within [.index p.2]) := rfl
  unfold Keyword.Only
  rw [hall, List.forall_mem_flatMap]
  exact forall₂_congr fun p _ => only_map_within_iff

/-- The branches of a choice are the schemas of it, each with what it finds
wrong. -/
theorem branchViolations_mem {schemas : List Schema} {branch : List Violation} :
    branch ∈ branchViolations schemas v ↔ ∃ schema ∈ schemas, schema.violations v = branch := by
  induction schemas with
  | nil => simp [branchViolations]
  | cons schema rest ih =>
    simp only [branchViolations, List.mem_cons, ih, exists_eq_or_imp]
    exact or_congr_left eq_comm

/-- Several schemas at once find wrong what each of them does. -/
theorem only_allOf_iff {schemas : List Schema} : (Keyword.allOf schemas).Only P fits v ↔
    ∀ schema ∈ schemas, schema.Only P v := by
  have hall : (Keyword.allOf schemas).violations fits v = (branchViolations schemas v).flatten := rfl
  unfold Keyword.Only Schema.Only
  simp only [hall, List.mem_flatten, branchViolations_mem]
  constructor
  · intro h schema hschema x hx
    exact h x ⟨_, ⟨schema, hschema, rfl⟩, hx⟩
  · rintro h x ⟨_, ⟨schema, hschema, rfl⟩, hx⟩
    exact h schema hschema x hx

/-- A choice is violated if all its branches are, and holds what they find
wrong. -/
theorem only_oneOf_iff {schemas : List Schema} : (Keyword.oneOf schemas).Only P fits v ↔
    (∃ schema ∈ schemas, schema.Accepts v) ∨
      P (.of [] (.noBranch v) fits (branchViolations schemas v).flatten) := by
  have hall : (Keyword.oneOf schemas).violations fits v = if (branchViolations schemas v).any List.isEmpty then []
      else [.of [] (.noBranch v) fits (branchViolations schemas v).flatten] := rfl
  have hbranch : (branchViolations schemas v).any List.isEmpty = true ↔ ∃ schema ∈ schemas, schema.Accepts v := by
    simp only [List.any_eq_true, List.isEmpty_iff, branchViolations_mem, accepts_iff]
    constructor
    · rintro ⟨_, ⟨schema, hschema, rfl⟩, hnil⟩
      exact ⟨schema, hschema, hnil⟩
    · rintro ⟨schema, hschema, hnil⟩
      exact ⟨_, ⟨schema, hschema, rfl⟩, hnil⟩
  unfold Keyword.Only
  rw [hall, ← hbranch]
  by_cases h : (branchViolations schemas v).any List.isEmpty = true
  · simp [h]
  · simp [h]

end

end Json

namespace Layout

open Json

variable {P : Violation → Prop} {v : Json}

/-! ## The forms of the layout -/

/-- A schema for values of one kind: the kind is asked for first, and whether
the value has it goes into what the other keywords report. -/
theorem only_ofKind_iff {kind : Kind} {keywords : List Keyword} : (ofKind kind keywords).Only P v ↔
    (kind.holds v = true ∨ P (.of [] (.notOfKinds v [kind]) (kind.holds v) [])) ∧
      ∀ k ∈ keywords, k.Only P (kind.holds v) v := by
  have hfits : ([kind].any fun k => k.holds v) = kind.holds v := by simp
  rw [ofKind, only_ofKeywords_iff, askedKinds, hfits, List.forall_mem_cons, only_kinds_iff, hfits]

/-- A reference finds wrong what the schema does that it refers to. -/
theorem only_ref_iff {schema : Schema} : (ref schema).Only P v ↔ schema.Only P v := by
  rw [ref, only_ofKeywords_iff, List.forall_mem_singleton, only_allOf_iff, List.forall_mem_singleton]

/-- An object with required members. -/
theorem only_object_iff {keys : List String} {schemas : List (String × Schema)} {members : List (String × Json)} :
    (ofKind .object [.required keys, .properties schemas]).Only P (.obj members) ↔
      (∀ key ∈ keys, find? members key = none → P (.of [] (.missingKey key) true [])) ∧
      ∀ p ∈ schemas, ∀ v, find? members p.1 = some v → p.2.Only (fun x => P (x.within [.key p.1])) v := by
  rw [only_ofKind_iff, List.forall_mem_cons, List.forall_mem_singleton]
  simp only [Kind.holds, true_or, true_and, only_required_iff, only_properties_iff]

/-- An object of which no member is required. -/
theorem only_members_iff {schemas : List (String × Schema)} {members : List (String × Json)} :
    (ofKind .object [.properties schemas]).Only P (.obj members) ↔
      ∀ p ∈ schemas, ∀ v, find? members p.1 = some v → p.2.Only (fun x => P (x.within [.key p.1])) v := by
  rw [only_ofKind_iff, List.forall_mem_singleton]
  simp only [Kind.holds, true_or, true_and, only_properties_iff]

/-- An object with one member, which is of a known kind and has the form of that
kind. -/
theorem only_oneMember {schemas : List (String × Schema)} {kinds : List String} {kind : String} {body : Json}
    (hkind : kind ∈ kinds) (hbody : ∀ p ∈ schemas, kind = p.1 → p.2.Only (fun x => P (x.within [.key p.1])) body) :
    (ofKind .object [.nonEmptyObject, .maxProperties 1, .properties schemas, .onlyKeys kinds]).Only P
      (.obj [(kind, body)]) := by
  rw [only_ofKind_iff]
  simp only [List.forall_mem_cons, only_nonEmptyObject_iff, only_maxProperties_iff, only_properties_iff]
  refine ⟨.inl rfl, nofun, by simp, fun p hp v hv => ?_, only_onlyKeys (by simpa using hkind), List.forall_mem_nil _⟩
  by_cases h : kind = p.1
  · have heq : body = v := by simpa [find?, h] using hv
    exact heq ▸ hbody p hp h
  · simp [find?, h] at hv

/-- A list satisfies a schema for lists item by item. -/
theorem only_arrayOf_iff {item : Schema} {items : List Json} : (arrayOf item).Only P (.arr items) ↔
    ∀ p ∈ items.zipIdx, item.Only (fun x => P (x.within [.index p.2])) p.1 := by
  rw [arrayOf, only_ofKind_iff, List.forall_mem_singleton]
  simp only [Kind.holds, true_or, true_and, only_items_iff]

/-- Every text is a text. -/
theorem text_accepts (s : String) : text.Accepts (.str s) := by
  rw [Schema.Accepts, text, only_ofKind_iff]
  exact ⟨.inl rfl, fun _ hk => absurd hk List.not_mem_nil⟩

/-- Both truth values are. -/
theorem flag_accepts (b : Bool) : flag.Accepts (.bool b) := by
  rw [Schema.Accepts, flag, only_ofKind_iff]
  exact ⟨.inl rfl, fun _ hk => absurd hk List.not_mem_nil⟩

/-- A text that is not empty can be a label. -/
theorem label_accepts {s : String} (h : s ≠ "") : label.Accepts (.str s) := by
  rw [Schema.Accepts, label, only_ofKind_iff, List.forall_mem_singleton, only_nonEmptyString_iff]
  exact ⟨.inl rfl, fun hempty => h (by simpa using hempty)⟩

/-- An integer from zero on is a natural number. -/
theorem natural_accepts {n : Int} (h : 0 ≤ n) : natural.Accepts (.int n) := by
  rw [Schema.Accepts, natural, only_ofKind_iff, List.forall_mem_singleton, only_minimum_iff]
  exact ⟨.inl rfl, fun hneg => absurd hneg (Int.not_lt.2 h)⟩

/-- A pattern matches up to a line break at the end, in which the text may have
one more character than the pattern allows. Where there is no line break nothing
is lost. -/
theorem withoutFinalNewline_eq {cs : List Char} (h : '\n' ∉ cs) : withoutFinalNewline cs = cs := by
  unfold withoutFinalNewline
  split
  next rest hreverse => exact absurd (List.mem_reverse.1 (hreverse ▸ List.mem_cons_self)) h
  · rfl

/-- Digits behind `0x` satisfy a pattern if their number does. The pattern takes
a small or a large `x`, as the reader does. -/
theorem isHex_of_hexDigits {count : Nat → Bool} {x : Char} {digits : List Char} (hx : x = 'x' ∨ x = 'X')
    (hdigits : Bytes.HexDigits digits) : isHex count ('0' :: x :: digits) = count digits.length := by
  have hnewline : '\n' ∉ '0' :: x :: digits := by
    rw [List.mem_cons, List.mem_cons]
    rintro (h | h | h)
    · exact absurd h (by decide)
    · rcases hx with rfl | rfl <;> exact absurd h (by decide)
    · exact absurd (hdigits _ h) (by decide)
  have hletter : (x == 'x' || x == 'X') = true := by
    rcases hx with rfl | rfl <;> rfl
  rw [isHex, withoutFinalNewline_eq hnewline]
  change ((x == 'x' || x == 'X') && digits.all (fun c => (Bytes.hexValue? c).isSome) && count digits.length) = _
  rw [hletter, List.all_eq_true.2 hdigits, Bool.true_and, Bool.true_and]

/-- The numbers of types are natural numbers. -/
theorem typeId_accepts {n : Int} (h : 0 ≤ n) : typeId.Accepts (.int n) :=
  only_ref_iff.2 (natural_accepts h)

end Layout

end ContractClient
