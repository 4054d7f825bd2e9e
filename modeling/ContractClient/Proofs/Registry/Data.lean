/-
Data, and the bytes that stand for them.

A registry says what the values of a type are and how they are laid out,
whatever a client makes of them. The values are trees: numbers and texts at the
leaves, sequences, arrays, groups and arms above. `scale?` lays a tree out by a
type, front to back and without padding, and gives nothing if the tree is no
value of the type. It treats all variants alike, so absence and a present
absence are two values; and it knows no byte strings apart from sequences and
arrays of bytes.

The layout is a prefix code: however two encodings for one type go on, if they
agree as bytes then they are encodings of one value, `scale?_readOnce`. What is
behind numbers and texts is that they can be read; what is above them follows
from their parts, since a count, an index or the type says how many parts there
are.
-/
import ContractClient.Client.CodecExpr
import ContractClient.Proofs.Scale.Leaves

set_option autoImplicit false

namespace ContractClient

-- Powers of numbers are those of the core library, where another instance is at hand too.
attribute [local instance (1100)] instPowNat

open Codec

/-! ## Data -/

/-- The values of types. -/
inductive Datum
  | bool (b : Bool)
  | number (n : Int)
  | char (c : Char)
  | text (s : String)
  | sequence (items : List Datum)
  | array (items : List Datum)
  /-- The components of a tuple or the fields of a record. -/
  | group (fields : List Datum)
  /-- The fields of the arm with an index. -/
  | arm (index : Nat) (fields : List Datum)

namespace Datum

/-- The data that a datum is built from. -/
def parts : Datum → List Datum
  | .sequence xs => xs
  | .array xs => xs
  | .group xs => xs
  | .arm _ xs => xs
  | _ => []

/-- **Induction over data**, along their parts. -/
theorem parts_induction {P : Datum → Prop} (h : ∀ x, (∀ y ∈ x.parts, P y) → P x) (x : Datum) : P x := by
  refine Datum.rec (motive_1 := P) (motive_2 := fun xs => ∀ y ∈ xs, P y) ?_ ?_ ?_ ?_ ?_ ?_ ?_ ?_ ?_ ?_ x
  · exact fun _ => h _ fun y hy => absurd hy List.not_mem_nil
  · exact fun _ => h _ fun y hy => absurd hy List.not_mem_nil
  · exact fun _ => h _ fun y hy => absurd hy List.not_mem_nil
  · exact fun _ => h _ fun y hy => absurd hy List.not_mem_nil
  · exact fun _ hparts => h _ hparts
  · exact fun _ hparts => h _ hparts
  · exact fun _ hparts => h _ hparts
  · exact fun _ _ hparts => h _ hparts
  · exact fun y hy => absurd hy List.not_mem_nil
  · exact fun x xs hx hxs => List.forall_mem_cons.2 ⟨hx, hxs⟩

end Datum

/-! ## Their bytes -/

/-- The number of the things that come behind, which has 67 bytes at most. -/
def countScale? (n : Nat) : Option Bytes :=
  if n < 256 ^ (67 : Nat) then some (compactBytes n) else none

/-- The bytes of a value of a primitive type. -/
def Primitive.scale? : Primitive → Datum → Option Bytes
  | .bool, .bool b => some [if b then 1 else 0]
  | .char, .char c => some (Bytes.ofNat 4 c.toNat)
  | .str, .text s => (countScale? (Utf8.encode s).length).map (· ++ Utf8.encode s)
  | .unsigned width, .number n =>
    if 0 ≤ n ∧ n < (2 ^ width.bits : Nat) then some (Bytes.ofInt width.bytes n) else none
  | .signed width, .number n =>
    if -(2 ^ (width.bits - 1) : Nat) ≤ n ∧ n < (2 ^ (width.bits - 1) : Nat) then some (Bytes.ofInt width.bytes n)
    else none
  | _, _ => none

/-- The bytes of a compact number of a width. -/
def Width.compactScale? (width : Width) : Datum → Option Bytes
  | .number n => if 0 ≤ n ∧ n < (2 ^ width.bits : Nat) then some (compactBytes n.toNat) else none
  | _ => none

namespace Registry

/-- The bytes of a value that has no parts. -/
def scalarScale? (r : Registry) (id : TypeId) (x : Datum) : Option Bytes :=
  match r.definition? id with
  | some (.primitive kind) => kind.scale? x
  | some (.compact inner) =>
    match r.definition? inner with
    | some (.primitive (.unsigned width)) => width.compactScale? x
    | _ => none
  | _ => none

mutual

/-- **The bytes of a value of a type**, if it is one. -/
def scale? (r : Registry) (id : TypeId) : Datum → Option Bytes
  | .bool b => r.scalarScale? id (.bool b)
  | .number n => r.scalarScale? id (.number n)
  | .char c => r.scalarScale? id (.char c)
  | .text s => r.scalarScale? id (.text s)
  | .sequence xs =>
    match r.definition? id with
    | some (.sequence item) => do
      let head ← countScale? xs.length
      let body ← scaleEach? r (List.replicate xs.length item) xs
      return head ++ body
    | _ => none
  | .array xs =>
    match r.definition? id with
    | some (.array item length) => scaleEach? r (List.replicate length item) xs
    | _ => none
  | .group xs =>
    match r.definition? id with
    | some (.tuple ids) => scaleEach? r ids xs
    | some (.composite fields) => scaleEach? r (fields.map (·.typeId)) xs
    | _ => none
  | .arm index xs =>
    match r.definition? id with
    | some (.variant arms) =>
      if index < 256 then do
        let arm ← arms.find? fun arm => arm.index == index
        let body ← scaleEach? r (arm.fields.map (·.typeId)) xs
        return UInt8.ofNat index :: body
      else none
    | _ => none

/-- The bytes of as many values as there are types. -/
def scaleEach? (r : Registry) : List TypeId → List Datum → Option Bytes
  | [], [] => some []
  | id :: ids, x :: xs => do
    let head ← scale? r id x
    let tail ← scaleEach? r ids xs
    return head ++ tail
  | _, _ => none

end

/-! ## What has bytes at a type -/

section

variable {r : Registry} {id item : TypeId} {x : Datum} {bs : Bytes}

-- Made here once, the equations of the serialization are at hand wherever it is unfolded.
attribute [local simp] scale? in
/-- What has bytes at a type has a type that is defined. -/
theorem exists_definition_of_scale (h : r.scale? id x = some bs) : ∃ d, r.definition? id = some d := by
  cases hdef : r.definition? id with
  | some d => exact ⟨d, rfl⟩
  | none => cases x <;> simp [scale?, scalarScale?, hdef] at h

/-- A compact type that has data wraps an unsigned integer, of which the width
is known. -/
theorem exists_width_of_scale (hdef : r.definition? id = some (.compact item)) (h : r.scale? id x = some bs) :
    ∃ width, r.definition? item = some (.primitive (.unsigned width)) := by
  by_contra hnone
  have hscalar : ∀ y, r.scalarScale? id y = none := by
    intro y
    rw [scalarScale?, hdef]
    dsimp only
    split
    · exact absurd ⟨_, ‹_›⟩ hnone
    · rfl
  cases x <;> simp [scale?, hscalar, hdef] at h

/-- The bytes of a primitive are those of its kind. This and the lemmas that
follow read the bytes of a datum off the definition of its type, one lemma for
each form of definition; nothing later unfolds the recursion. -/
theorem scale?_primitive {kind : Primitive} (hdef : r.definition? id = some (.primitive kind)) (x : Datum) :
    r.scale? id x = kind.scale? x := by
  cases x with
  | bool | number | char | text => simp only [scale?, scalarScale?, hdef]
  | _ => simp only [scale?, hdef, Primitive.scale?]

/-- The bytes of a compact integer depend on the width that it wraps. -/
theorem scale?_compact {width : Width} (hdef : r.definition? id = some (.compact item))
    (hitem : r.definition? item = some (.primitive (.unsigned width))) (x : Datum) :
    r.scale? id x = width.compactScale? x := by
  cases x with
  | bool | number | char | text => simp only [scale?, scalarScale?, hdef, hitem]
  | _ => simp only [scale?, hdef, Width.compactScale?]

/-- A sequence has the bytes of its length and then those of its items, all at
one type. -/
theorem scale?_sequence (hdef : r.definition? id = some (.sequence item)) : r.scale? id x = some bs ↔
    ∃ xs head body, x = .sequence xs ∧ countScale? xs.length = some head ∧
      r.scaleEach? (List.replicate xs.length item) xs = some body ∧ bs = head ++ body := by
  cases x with
  | bool | number | char | text => simp [scale?, scalarScale?, hdef]
  | sequence xs => simp [scale?, hdef, Option.bind_eq_some_iff, eq_comm (a := bs)]
  | _ => simp [scale?, hdef]

/-- An array has the bytes of its items, if there are as many as its type
says. -/
theorem scale?_array {length : Nat} (hdef : r.definition? id = some (.array item length)) :
    r.scale? id x = some bs ↔ ∃ xs, x = .array xs ∧ r.scaleEach? (List.replicate length item) xs = some bs := by
  cases x with
  | bool | number | char | text => simp [scale?, scalarScale?, hdef]
  | _ => simp [scale?, hdef]

/-- A tuple has the bytes of its parts, each at its own type. -/
theorem scale?_tuple {ids : List TypeId} (hdef : r.definition? id = some (.tuple ids)) :
    r.scale? id x = some bs ↔ ∃ xs, x = .group xs ∧ r.scaleEach? ids xs = some bs := by
  cases x with
  | bool | number | char | text => simp [scale?, scalarScale?, hdef]
  | _ => simp [scale?, hdef]

/-- A composite has the bytes of its fields, as a tuple has: names do not
count. -/
theorem scale?_composite {fields : List Field} (hdef : r.definition? id = some (.composite fields)) :
    r.scale? id x = some bs ↔ ∃ xs, x = .group xs ∧ r.scaleEach? (fields.map (·.typeId)) xs = some bs := by
  cases x with
  | bool | number | char | text => simp [scale?, scalarScale?, hdef]
  | _ => simp [scale?, hdef]

/-- A variant has the index of an arm and the bytes of the fields of this arm.
If several arms share an index, the first one counts. -/
theorem scale?_variant {arms : List Arm} (hdef : r.definition? id = some (.variant arms)) :
    r.scale? id x = some bs ↔ ∃ (tag : UInt8) (xs : List Datum) (arm : Arm) (body : Bytes),
      x = .arm tag.toNat xs ∧ arms.find? (fun arm => arm.index == tag.toNat) = some arm ∧
        r.scaleEach? (arm.fields.map (·.typeId)) xs = some body ∧ bs = tag :: body := by
  cases x with
  | bool | number | char | text => simp [scale?, scalarScale?, hdef]
  | arm index xs =>
    have hbody : ∀ {tag : UInt8}, index = tag.toNat → (r.scale? id (.arm index xs) = some bs ↔
        ∃ arm body, arms.find? (fun arm => arm.index == tag.toNat) = some arm ∧
          r.scaleEach? (arm.fields.map (·.typeId)) xs = some body ∧ bs = tag :: body) := by
      rintro tag rfl
      simp [scale?, hdef, tag.toNat_lt, Option.bind_eq_some_iff, eq_comm (a := bs)]
    constructor
    · intro h
      by_cases hindex : index < 256
      · have htag : index = (UInt8.ofNat index).toNat := by rw [UInt8.toNat_ofNat', Nat.mod_eq_of_lt hindex]
        obtain ⟨arm, body, hfind, hxs, hbs⟩ := (hbody htag).1 h
        exact ⟨_, xs, arm, body, by rw [← htag], hfind, hxs, hbs⟩
      · simp [scale?, hdef, hindex] at h
    · rintro ⟨tag, ys, arm, body, hx, hfind, hxs, hbs⟩
      cases hx
      exact (hbody rfl).2 ⟨arm, body, hfind, hxs, hbs⟩
  | _ => simp [scale?, hdef]

/-- No parts have no bytes. -/
theorem scaleEach?_nil_iff {xs : List Datum} : r.scaleEach? [] xs = some bs ↔ xs = [] ∧ bs = [] := by
  cases xs with
  | nil => simp [scaleEach?, eq_comm]
  | cons x xs => simp [scaleEach?]

/-- Several parts have the bytes of the first one and those of the others behind
them. -/
theorem scaleEach?_cons_iff {ids : List TypeId} {xs : List Datum} : r.scaleEach? (id :: ids) xs = some bs ↔
    ∃ x rest head tail, xs = x :: rest ∧ r.scale? id x = some head ∧ r.scaleEach? ids rest = some tail ∧
      bs = head ++ tail := by
  cases xs with
  | nil => simp [scaleEach?]
  | cons x xs => simp [scaleEach?, Option.bind_eq_some_iff, eq_comm (a := bs), and_assoc]

/-- One part has its own bytes. -/
theorem scaleEach?_one_iff {xs : List Datum} :
    r.scaleEach? [id] xs = some bs ↔ ∃ x, xs = [x] ∧ r.scale? id x = some bs := by
  rw [scaleEach?_cons_iff]
  constructor
  · rintro ⟨x, rest, head, tail, rfl, hhead, htail, rfl⟩
    obtain ⟨rfl, rfl⟩ := scaleEach?_nil_iff.1 htail
    exact ⟨x, rfl, by rwa [List.append_nil]⟩
  · rintro ⟨x, rfl, hx⟩
    exact ⟨x, [], bs, [], rfl, hx, scaleEach?_nil_iff.2 ⟨rfl, rfl⟩, (List.append_nil bs).symm⟩

/-- The byte in front of the fields of one of two arms is its index. It is used
for options and results, whose arms have the indices 0 and 1. -/
theorem scale?_two {arms : List Arm} {first second : Arm} (hall : ∀ arm ∈ arms, arm.index = 0 ∨ arm.index = 1)
    (hfirst : arms.find? (fun arm => arm.index == 0) = some first)
    (hsecond : arms.find? (fun arm => arm.index == 1) = some second)
    (hdef : r.definition? id = some (.variant arms)) (h : r.scale? id x = some bs) :
    ∃ xs body, (x = .arm 0 xs ∧ r.scaleEach? (first.fields.map (·.typeId)) xs = some body ∧ bs = 0 :: body) ∨
      (x = .arm 1 xs ∧ r.scaleEach? (second.fields.map (·.typeId)) xs = some body ∧ bs = 1 :: body) := by
  obtain ⟨tag, xs, arm, body, rfl, hfind, hxs, rfl⟩ := (scale?_variant hdef).1 h
  have htag : arm.index = tag.toNat := by simpa using List.find?_some hfind
  refine ⟨xs, body, ?_⟩
  rcases hall arm (List.mem_of_find?_eq_some hfind) with hindex | hindex
  · have hzero : tag = 0 := UInt8.toNat_inj.1 (htag.symm.trans hindex)
    subst hzero
    cases hfirst.symm.trans hfind
    exact .inl ⟨rfl, hxs, rfl⟩
  · have hone : tag = 1 := UInt8.toNat_inj.1 (htag.symm.trans hindex)
    subst hone
    cases hsecond.symm.trans hfind
    exact .inr ⟨rfl, hxs, rfl⟩

end

/-! ## Parts and their types -/

section

variable {r : Registry} {id item : TypeId}

/-- The types of the parts of a datum of a type. -/
def partTypes (r : Registry) (id : TypeId) (x : Datum) : List TypeId :=
  match r.definition? id, x with
  | some (.sequence item), .sequence xs => List.replicate xs.length item
  | some (.array item length), .array _ => List.replicate length item
  | some (.tuple ids), .group _ => ids
  | some (.composite fields), .group _ => fields.map (·.typeId)
  | some (.variant arms), .arm index _ =>
    (arms.find? fun arm => arm.index == index).elim [] fun arm => arm.fields.map (·.typeId)
  | _, _ => []

-- And so are those of the types of the parts.
attribute [local simp] partTypes in
/-- The types of the parts, as they follow from the form of the definition. They
are what the types of items and fields have in common, for proofs that do not
care about the form. -/
theorem partTypes_sequence (hdef : r.definition? id = some (.sequence item)) (xs : List Datum) :
    r.partTypes id (.sequence xs) = List.replicate xs.length item := by
  simp only [partTypes, hdef]

/-- The items of an array are all of its item type. -/
theorem partTypes_array {length : Nat} (hdef : r.definition? id = some (.array item length)) (xs : List Datum) :
    r.partTypes id (.array xs) = List.replicate length item := by
  simp only [partTypes, hdef]

/-- The items of a tuple are of the types that it lists. -/
theorem partTypes_tuple {ids : List TypeId} (hdef : r.definition? id = some (.tuple ids)) (xs : List Datum) :
    r.partTypes id (.group xs) = ids := by
  simp only [partTypes, hdef]

/-- The fields of a composite are of their own types. -/
theorem partTypes_composite {fields : List Field} (hdef : r.definition? id = some (.composite fields))
    (xs : List Datum) : r.partTypes id (.group xs) = fields.map (·.typeId) := by
  simp only [partTypes, hdef]

/-- The fields of a variant are of the types of the arm that the index finds. -/
theorem partTypes_variant {arms : List Arm} {arm : Arm} {index : Nat}
    (hdef : r.definition? id = some (.variant arms))
    (hfind : arms.find? (fun arm => arm.index == index) = some arm) (xs : List Datum) :
    r.partTypes id (.arm index xs) = arm.fields.map (·.typeId) := by
  simp only [partTypes, hdef, hfind, Option.elim_some]

/-- Whether a datum of a type has a datum of a type as a part. -/
def HasPart (r : Registry) (p q : TypeId × Datum) : Prop :=
  q ∈ (r.partTypes p.1 p.2).zip p.2.parts

/-- A part at a type is a part of the datum. -/
theorem HasPart.mem_parts {p q : TypeId × Datum} (h : r.HasPart p q) : q.2 ∈ p.2.parts :=
  (List.of_mem_zip h).2

end

end Registry

/-! ## Reading scalars -/

/-- What decoding makes of a datum that has no parts. -/
def Datum.scalar : Datum → Value
  | .bool b => .bool b
  | .number n => .int n
  | .char c => .str (String.singleton c)
  | .text s => .str s
  | _ => .none

section

variable {bs buf : Bytes} {o e : Nat} {x y : Datum}

/-- A count has the bytes that codecs write for it. The specification bounds the
number and the codec the number of its bytes, which comes to the same. -/
theorem countScale?_iff {n : Nat} : countScale? n = some bs ↔ encodeCount n = .ok bs := by
  have hsize : compactSize n ≤ 67 ↔ n < 256 ^ (67 : Nat) := by
    rw [compactSize_le_iff]
    exact and_iff_right (by decide)
  rw [encodeCount_ok_iff, hsize, countScale?, Option.ite_none_right_eq_some, Option.some.injEq, eq_comm (a := bs)]

/-- **What a primitive has as bytes, its codec writes**: the two are compared
kind by kind. `scale?` is written down from the format's description, and the
codec from the runtime; for integers both ask for the same bounds, in two
forms. -/
theorem encodeLeaf_of_scale {kind : Primitive} (h : kind.scale? x = some bs) :
    encodeLeaf kind.codec x.scalar = .ok bs := by
  unfold Primitive.scale? at h
  split at h
  · cases h
    rfl
  · cases h
    simp [Primitive.codec, Datum.scalar, encodeLeaf, encodeWith, encodeChar]
  · obtain ⟨head, hhead, rfl⟩ := Option.map_eq_some_iff.1 h
    simp only [Primitive.codec, Datum.scalar, encodeLeaf, encodeWith, encodeStr, encodeCounted, countScale?_iff.1 hhead]
    rfl
  · rw [Option.ite_none_right_eq_some] at h
    -- Integers: the upper bound is given as the first number that does not fit.
    obtain ⟨⟨hlow, hhigh⟩, hbs⟩ := h
    cases hbs
    simp only [Primitive.codec, Datum.scalar, encodeLeaf, encodeWith, encodeInt]
    rw [if_pos]
    · rfl
    · exact ⟨hlow, Int.le_sub_one_of_lt hhigh⟩
  · rw [Option.ite_none_right_eq_some] at h
    obtain ⟨⟨hlow, hhigh⟩, hbs⟩ := h
    cases hbs
    simp only [Primitive.codec, Datum.scalar, encodeLeaf, encodeWith, encodeInt]
    rw [if_pos]
    · rfl
    · exact ⟨hlow, Int.le_sub_one_of_lt hhigh⟩
  · cases h

/-- The same for compact integers. The bound of the codec is the width of the
wrapped type, so it is the bound of the datum too. -/
theorem encodeLeaf_of_compactScale {width : Width} (h : width.compactScale? x = some bs) :
    encodeLeaf (.compact (some width.bits)) x.scalar = .ok bs := by
  unfold Width.compactScale? at h
  split at h
  · rename_i n
    rw [Option.ite_none_right_eq_some] at h
    obtain ⟨⟨hlow, hhigh⟩, hbs⟩ := h
    obtain ⟨n, rfl⟩ := Int.eq_ofNat_of_zero_le hlow
    have hless : n < 2 ^ width.bits := by exact_mod_cast hhigh
    have hsmall : 2 ^ width.bits ≤ 256 ^ (67 : Nat) := by cases width <;> decide
    have hcount : countScale? n = some bs := by
      rw [countScale?, if_pos (Nat.lt_of_lt_of_le hless hsmall)]
      exact hbs
    rw [encodeLeaf, encodeWith, Datum.scalar]
    refine encodeCompact_ok_iff.2 ⟨n, rfl, ?_, countScale?_iff.1 hcount⟩
    have hbits := (Bytes.bitLength_le_iff n width.bits).2 hless
    simpa using hbits
  · cases h

/-- A datum has no texts but those that a `String` holds. -/
theorem isLoneChar_scalar (c : Codec) : isLoneChar c x.scalar = false := by
  cases c <;> cases x <;> rfl

/-- **Primitive values are read where they were written.** -/
theorem decodeLeaf_of_scale {kind : Primitive} (h : kind.scale? x = some bs) (hbetween : Between buf o e bs) :
    decodeLeaf kind.codec buf o = .ok (x.scalar, e) := by
  have hleaf : kind.codec.isLeaf = true := by cases kind <;> rfl
  have hcanon : canonLeaf kind.codec x.scalar = x.scalar := by cases kind <;> rfl
  rw [← hcanon]
  refine decodeLeaf_of_encodeLeaf hleaf ?_ (isLoneChar_scalar _) (encodeLeaf_of_scale h) hbetween
  rintro length newtype hkind
  cases kind <;> cases hkind

/-- Codecs read back the bytes of compact integers, since they read back what
they write. -/
theorem decodeLeaf_of_compactScale {width : Width} (h : width.compactScale? x = some bs)
    (hbetween : Between buf o e bs) : decodeLeaf (.compact (some width.bits)) buf o = .ok (x.scalar, e) :=
  decodeLeaf_of_encodeLeaf rfl (fun _ _ heq => Codec.noConfusion heq) (isLoneChar_scalar _)
    (encodeLeaf_of_compactScale h) hbetween

/-! ## Unique readability -/

/-- Whether the bytes of a thing tell it from all others, whatever comes
behind. -/
def ReadOnce {α : Type} (f : α → Option Bytes) (x : α) : Prop :=
  ∀ y a b s t, f x = some a → f y = some b → a ++ s = b ++ t → x = y ∧ s = t

/-- What can be read is read once. If there is a reader for the encodings, then
two data with one encoding in front of something are read alike, and end at the
same place. -/
theorem readOnce_of_reader {α β : Type} {f : α → Option Bytes} {g : α → β}
    {read : Bytes → Nat → Except DecodeError (β × Nat)}
    (hread : ∀ x bs buf o e, f x = some bs → Between buf o e bs → read buf o = .ok (g x, e))
    (hinj : ∀ x y a b, f x = some a → f y = some b → g x = g y → x = y) (x : α) : ReadOnce f x := by
  intro y a b s t hx hy h
  have hfront : ∀ p q : Bytes, Between (p ++ q) 0 p.length p := by
    intro p q
    have hmiddle := Between.middle [] p q
    rwa [List.nil_append, List.length_nil, Nat.zero_add] at hmiddle
  have hfirst := hread x a (a ++ s) 0 a.length hx (hfront a s)
  rw [h] at hfirst
  have hsame := hfirst.symm.trans (hread y b (b ++ t) 0 b.length hy (hfront b t))
  obtain ⟨hvalue, hlen⟩ := Prod.mk.inj (Except.ok.inj hsame)
  exact ⟨hinj x y a b hx hy hvalue, (List.append_inj h hlen).2⟩

/-- Counts are read once: what begins with the bytes of a count does not begin
with those of another one. -/
theorem countScale?_readOnce (n : Nat) : ReadOnce countScale? n := by
  have hread : ∀ n bs buf o e, countScale? n = some bs → Between buf o e bs →
      decodeCompact none buf o = .ok (id n, e) :=
    fun n bs buf o e h hbetween => decodeCount_ok_iff.2 ⟨bs, countScale?_iff.1 h, hbetween⟩
  exact readOnce_of_reader hread (fun _ _ _ _ _ _ h => h) n

/-- Two data of one primitive that are read as the same value are the same. -/
theorem scalar_inj {kind : Primitive} {a b : Bytes} (hx : kind.scale? x = some a) (hy : kind.scale? y = some b)
    (h : x.scalar = y.scalar) : x = y := by
  cases kind <;> cases x <;> simp [Primitive.scale?] at hx <;> cases y <;> simp [Primitive.scale?] at hy <;>
    simpa [Datum.scalar] using h

/-- Primitives are read once, as their codec reads them. -/
theorem primitive_readOnce (kind : Primitive) (x : Datum) : ReadOnce kind.scale? x :=
  readOnce_of_reader (fun _ _ _ _ _ h hbetween => decodeLeaf_of_scale h hbetween)
    (fun _ _ _ _ hx hy h => scalar_inj hx hy h) x

/-- So are compact integers. -/
theorem compact_readOnce (width : Width) (x : Datum) : ReadOnce width.compactScale? x := by
  refine readOnce_of_reader (fun _ _ _ _ _ h hbetween => decodeLeaf_of_compactScale h hbetween) ?_ x
  intro x y a b hx hy h
  cases x <;> simp [Width.compactScale?] at hx
  cases y <;> simp [Width.compactScale?] at hy
  simpa [Datum.scalar] using h

end

namespace Registry

variable {r : Registry}

/-- **Parts that are read once are read once together.** Where the first part
ends is settled before the others begin. -/
theorem scaleEach?_readOnce {xs : List Datum} (h : ∀ x ∈ xs, ∀ id, ReadOnce (r.scale? id) x) (ids : List TypeId) :
    ReadOnce (r.scaleEach? ids) xs := by
  intro ys a b s t hx hy heq
  -- Along the types: what is behind the first part begins where the first part ends, on
  -- both sides.
  induction ids generalizing xs ys a b with
  | nil =>
    obtain ⟨rfl, rfl⟩ := scaleEach?_nil_iff.1 hx
    obtain ⟨rfl, rfl⟩ := scaleEach?_nil_iff.1 hy
    exact ⟨rfl, heq⟩
  | cons id ids ih =>
    obtain ⟨x, xs, head, tail, rfl, hhead, htail, rfl⟩ := scaleEach?_cons_iff.1 hx
    obtain ⟨y, ys, head', tail', rfl, hhead', htail', rfl⟩ := scaleEach?_cons_iff.1 hy
    obtain ⟨hfirst, hrest⟩ := List.forall_mem_cons.1 h
    rw [List.append_assoc, List.append_assoc] at heq
    obtain ⟨rfl, hbehind⟩ := hfirst id y head head' _ _ hhead hhead' heq
    obtain ⟨rfl, hend⟩ := ih hrest ys tail tail' htail htail' hbehind
    exact ⟨rfl, hend⟩

/-- **Encodings are uniquely readable.** Two data of one type are the same if
one's bytes, with anything behind, are the other's, with anything behind. The
induction is on the data for all types at once; in a sequence the count comes
first, in a variant the tag, and from there on the parts are those of the same
form. -/
theorem scale?_readOnce (id : TypeId) (x : Datum) : ReadOnce (r.scale? id) x := by
  -- Along the data, for all types, as the parts have types of their own. The other side
  -- is opened by the same definition, so it has the same form.
  induction x using Datum.parts_induction generalizing id with
  | h x ih =>
    intro y a b s t hx hy heq
    obtain ⟨d, hdef⟩ := exists_definition_of_scale hx
    cases d with
    | primitive kind =>
      rw [scale?_primitive hdef] at hx hy
      exact primitive_readOnce kind x y a b s t hx hy heq
    | compact item =>
      obtain ⟨width, hitem⟩ := exists_width_of_scale hdef hx
      rw [scale?_compact hdef hitem] at hx hy
      exact compact_readOnce width x y a b s t hx hy heq
    | sequence item =>
      obtain ⟨xs, head, body, rfl, hhead, hbody, rfl⟩ := (scale?_sequence hdef).1 hx
      obtain ⟨ys, head', body', rfl, hhead', hbody', rfl⟩ := (scale?_sequence hdef).1 hy
      rw [List.append_assoc, List.append_assoc] at heq
      obtain ⟨hlen, hbehind⟩ := countScale?_readOnce _ _ head head' _ _ hhead hhead' heq
      rw [← hlen] at hbody'
      obtain ⟨rfl, hend⟩ := scaleEach?_readOnce (fun x hx id => ih x hx id) _ _ _ _ _ _ hbody hbody' hbehind
      exact ⟨rfl, hend⟩
    | array item length =>
      obtain ⟨xs, rfl, hxs⟩ := (scale?_array hdef).1 hx
      obtain ⟨ys, rfl, hys⟩ := (scale?_array hdef).1 hy
      obtain ⟨rfl, hend⟩ := scaleEach?_readOnce (fun x hx id => ih x hx id) _ _ _ _ _ _ hxs hys heq
      exact ⟨rfl, hend⟩
    | tuple ids =>
      obtain ⟨xs, rfl, hxs⟩ := (scale?_tuple hdef).1 hx
      obtain ⟨ys, rfl, hys⟩ := (scale?_tuple hdef).1 hy
      obtain ⟨rfl, hend⟩ := scaleEach?_readOnce (fun x hx id => ih x hx id) _ _ _ _ _ _ hxs hys heq
      exact ⟨rfl, hend⟩
    | composite fields =>
      obtain ⟨xs, rfl, hxs⟩ := (scale?_composite hdef).1 hx
      obtain ⟨ys, rfl, hys⟩ := (scale?_composite hdef).1 hy
      obtain ⟨rfl, hend⟩ := scaleEach?_readOnce (fun x hx id => ih x hx id) _ _ _ _ _ _ hxs hys heq
      exact ⟨rfl, hend⟩
    | variant arms =>
      obtain ⟨tag, xs, arm, body, rfl, hfind, hxs, rfl⟩ := (scale?_variant hdef).1 hx
      obtain ⟨tag', ys, arm', body', rfl, hfind', hys, rfl⟩ := (scale?_variant hdef).1 hy
      -- The tag is the first byte on both sides, and it finds one arm.
      obtain ⟨rfl, hbehind⟩ := List.cons.inj heq
      cases hfind.symm.trans hfind'
      obtain ⟨rfl, hend⟩ := scaleEach?_readOnce (fun x hx id => ih x hx id) _ _ _ _ _ _ hxs hys hbehind
      exact ⟨rfl, hend⟩

end Registry

/-! ## Data without bytes -/

namespace Datum

mutual

/-- Whether a datum has no bytes, whatever its type. -/
def weightless : Datum → Bool
  | .array xs => allWeightless xs
  | .group xs => allWeightless xs
  | _ => false

/-- Whether this holds of all parts. -/
def allWeightless : List Datum → Bool
  | [] => true
  | x :: xs => weightless x && allWeightless xs

end

mutual

/-- The greatest number of items of a sequence inside of a datum whose items all
have no bytes. -/
def crowd : Datum → Nat
  | .sequence xs => max (if allWeightless xs then xs.length else 0) (greatestCrowd xs)
  | .array xs => greatestCrowd xs
  | .group xs => greatestCrowd xs
  | .arm _ xs => greatestCrowd xs
  | _ => 0

/-- The greatest one of all parts. -/
def greatestCrowd : List Datum → Nat
  | [] => 0
  | x :: xs => max (crowd x) (greatestCrowd xs)

end

/-- Parts are weightless together if each of them is. -/
theorem allWeightless_iff {xs : List Datum} : allWeightless xs = true ↔ ∀ x ∈ xs, x.weightless = true := by
  induction xs with
  | nil => simp [allWeightless]
  | cons x xs ih => rw [allWeightless, Bool.and_eq_true, ih, List.forall_mem_cons]

/-- The crowd of a part is among those of all parts. -/
theorem crowd_le_greatest {xs : List Datum} {x : Datum} (hx : x ∈ xs) : x.crowd ≤ greatestCrowd xs := by
  induction xs with
  | nil => cases hx
  | cons y xs ih =>
    rw [greatestCrowd]
    rcases List.mem_cons.1 hx with rfl | hx
    · exact Nat.le_max_left _ _
    · exact Nat.le_trans (ih hx) (Nat.le_max_right _ _)

/-- No part is more crowded than the whole. -/
theorem crowd_part {x y : Datum} (hy : y ∈ x.parts) : y.crowd ≤ x.crowd := by
  have hgreatest := crowd_le_greatest hy
  cases x with
  | sequence xs =>
    rw [crowd]
    exact Nat.le_trans hgreatest (Nat.le_max_right _ _)
  | array | group | arm =>
    rw [crowd]
    exact hgreatest
  | _ => cases hy

/-- Weightless items of a sequence are a crowd themselves. -/
theorem length_le_crowd {xs : List Datum} (h : ∀ x ∈ xs, x.weightless = true) :
    xs.length ≤ (Datum.sequence xs).crowd := by
  rw [crowd, if_pos (allWeightless_iff.2 h)]
  exact Nat.le_max_left _ _

end Datum

namespace Registry

variable {r : Registry} {id item : TypeId} {ids : List TypeId} {xs : List Datum} {bs : Bytes}

/-- What has bytes together has bytes one by one, and not more of them. -/
theorem exists_scale_of_mem (h : r.scaleEach? ids xs = some bs) {x : Datum} (hx : x ∈ xs) :
    ∃ id ∈ ids, ∃ a, r.scale? id x = some a ∧ a.length ≤ bs.length := by
  induction ids generalizing xs bs with
  | nil => exact absurd ((scaleEach?_nil_iff.1 h).1 ▸ hx) List.not_mem_nil
  | cons id ids ih =>
    obtain ⟨y, rest, head, tail, rfl, hhead, htail, rfl⟩ := scaleEach?_cons_iff.1 h
    rw [List.length_append]
    rcases List.mem_cons.1 hx with rfl | hx
    · exact ⟨id, List.mem_cons_self, head, hhead, Nat.le_add_right _ _⟩
    · obtain ⟨i, hi, a, ha, hlen⟩ := ih htail hx
      exact ⟨i, List.mem_cons_of_mem _ hi, a, ha, Nat.le_trans hlen (Nat.le_add_left _ _)⟩

/-- Either there is a byte for each part, or one of the parts has none. The
induction is on the parts, with as many types beside them. -/
theorem exists_nil_or_length_le (h : r.scaleEach? ids xs = some bs) :
    (∃ x ∈ xs, ∃ id ∈ ids, r.scale? id x = some []) ∨ xs.length ≤ bs.length := by
  induction ids generalizing xs bs with
  | nil =>
    rw [(scaleEach?_nil_iff.1 h).1]
    exact .inr (Nat.zero_le _)
  | cons id ids ih =>
    obtain ⟨x, rest, head, tail, rfl, hhead, htail, rfl⟩ := scaleEach?_cons_iff.1 h
    cases head with
    | nil => exact .inl ⟨x, List.mem_cons_self, id, List.mem_cons_self, hhead⟩
    | cons b head =>
      rcases ih htail with ⟨y, hy, i, hi, hnil⟩ | hlen
      · exact .inl ⟨y, List.mem_cons_of_mem _ hy, i, List.mem_cons_of_mem _ hi, hnil⟩
      · right
        rw [List.length_append, List.length_cons, List.length_cons]
        omega

/-- **Items have bytes all or none.** If one of them has none then they all are
this one. -/
theorem all_nil_or_length_le (h : r.scaleEach? (List.replicate xs.length item) xs = some bs) :
    (∀ x ∈ xs, r.scale? item x = some []) ∨ xs.length ≤ bs.length := by
  refine (exists_nil_or_length_le h).imp_left ?_
  rintro ⟨x, -, id, hid, hnil⟩ y hy
  obtain ⟨id', hid', a, ha, -⟩ := exists_scale_of_mem h hy
  rw [List.eq_of_mem_replicate hid] at hnil
  rw [List.eq_of_mem_replicate hid'] at ha
  obtain ⟨rfl, -⟩ := scale?_readOnce item x y [] a a [] hnil ha (List.append_nil a).symm
  exact hnil

/-- Items without bytes have none together. -/
theorem scaleEach?_copies_nil (h : ∀ x ∈ xs, r.scale? item x = some []) :
    r.scaleEach? (List.replicate xs.length item) xs = some [] := by
  induction xs with
  | nil => exact scaleEach?_nil_iff.2 ⟨rfl, rfl⟩
  | cons x xs ih =>
    obtain ⟨hx, hxs⟩ := List.forall_mem_cons.1 h
    exact scaleEach?_cons_iff.2 ⟨x, xs, [], [], rfl, hx, ih hxs, rfl⟩

/-- Parts that have no bytes together have none each, so they are weightless if
this follows for each. -/
theorem weightless_of_scaleEach (h : r.scaleEach? ids xs = some [])
    (hparts : ∀ x ∈ xs, ∀ id, r.scale? id x = some [] → x.weightless = true) : Datum.allWeightless xs = true := by
  rw [Datum.allWeightless_iff]
  intro x hx
  obtain ⟨id, -, a, ha, hlen⟩ := exists_scale_of_mem h hx
  rw [List.eq_nil_of_length_eq_zero (Nat.le_zero.1 hlen)] at ha
  exact hparts x hx id ha

/-- What has no bytes is weightless. Only groups of weightless parts have no
bytes: a primitive and a compact integer need some, a sequence has its count,
and an arm its tag. -/
theorem weightless_of_scale {x : Datum} (h : r.scale? id x = some []) : x.weightless = true := by
  induction x using Datum.parts_induction generalizing id with
  | h x ih =>
    have hempty : Between [] 0 0 ([] : Bytes) := Between.nil_iff.2 ⟨rfl, Nat.le_refl 0⟩
    obtain ⟨d, hdef⟩ := exists_definition_of_scale h
    cases d with
    | primitive kind =>
      rw [scale?_primitive hdef] at h
      -- A primitive value would be read where there are no bytes.
      have hread := decodeLeaf_of_scale h hempty
      cases kind with
      | unsigned width => cases width <;> cases hread
      | signed width => cases width <;> cases hread
      | _ => cases hread
    | compact inner =>
      obtain ⟨width, hinner⟩ := exists_width_of_scale hdef h
      rw [scale?_compact hdef hinner] at h
      cases decodeLeaf_of_compactScale h hempty
    | sequence item =>
      obtain ⟨xs, head, body, -, hhead, -, hnil⟩ := (scale?_sequence hdef).1 h
      rw [(List.append_eq_nil_iff.1 hnil.symm).1] at hhead
      exact absurd (countScale?_iff.1 hhead) encodeCount_ne_nil
    | array item length =>
      obtain ⟨xs, rfl, hxs⟩ := (scale?_array hdef).1 h
      rw [Datum.weightless]
      exact weightless_of_scaleEach hxs fun x hx id => ih x hx
    | tuple ids =>
      obtain ⟨xs, rfl, hxs⟩ := (scale?_tuple hdef).1 h
      rw [Datum.weightless]
      exact weightless_of_scaleEach hxs fun x hx id => ih x hx
    | composite fields =>
      obtain ⟨xs, rfl, hxs⟩ := (scale?_composite hdef).1 h
      rw [Datum.weightless]
      exact weightless_of_scaleEach hxs fun x hx id => ih x hx
    | variant arms =>
      obtain ⟨tag, xs, arm, body, -, -, -, hnil⟩ := (scale?_variant hdef).1 h
      cases hnil

/-! ## Bytes as data -/

/-- Each byte has one byte, so as many bytes have as many. This is what makes a
sequence of bytes a byte string with its length in front. -/
theorem length_scaleEach_bytes (hbyte : r.isByte item = true) {n : Nat}
    (h : r.scaleEach? (List.replicate n item) xs = some bs) : bs.length = n := by
  have hdef : r.definition? item = some (.primitive (.unsigned .w8)) := by simpa [isByte] using hbyte
  induction n generalizing xs bs with
  | zero =>
    rw [List.replicate_zero] at h
    rw [(scaleEach?_nil_iff.1 h).2]
    rfl
  | succ n ih =>
    rw [List.replicate_succ] at h
    obtain ⟨x, rest, head, tail, rfl, hhead, htail, rfl⟩ := scaleEach?_cons_iff.1 h
    rw [scale?_primitive hdef] at hhead
    have hlen := (intOf_encodeInt (encodeLeaf_of_scale hhead)).1
    rw [List.length_append, hlen, ih htail]
    exact Nat.add_comm 1 n

end Registry

end ContractClient
