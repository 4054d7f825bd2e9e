/-
Where a client reads a leaf.

Integers, texts and compacts are leaves on both sides and mean the same. Byte
strings are leaves for a client only: the plain codec follows the reference to
the byte once for each of them, and what comes out is a list of small integers.
Both read the same bytes, because a byte takes one byte; this is also why the
bound on items that take none is never in play, and why a number of bytes that
exceeds the rest of the buffer is refused on both sides. Account ids and hashes
are records around thirty-two such bytes.

`ShownByLeaf` puts this in the form that the comparison of codecs takes up.
-/
import ContractClient.Proofs.Client.Arms

set_option autoImplicit false

namespace ContractClient.Registry

open Codec

variable {r : Registry} {names : ModuleNames}

/-! ## Following plain references -/

/-- The plain codec of a type is found under the label of its number. Labels of
different numbers differ, so the first entry with the label is the first one
with the number. -/
theorem codec?_plain {id : TypeId} {e : Entry} (he : r.entry? id = some e) :
    r.plain.codec? (label id) = some (r.plainCodec id e.definition) := by
  have hid : e.id = id := by simpa using List.find?_some he
  have hsame : (r.entries.find? fun e => label e.id == label id) = some e := by
    rw [← he, entry?]
    refine List.find?_congr fun e _ => ?_
    rw [Bool.eq_iff_iff, beq_iff_eq, beq_iff_eq, label_inj]
  unfold Environment.codec? plain
  rw [List.find?_map, Option.map_map]
  refine (congrArg (Option.map _) hsame).trans ?_
  rw [Option.map_some, ← hid]
  rfl

/-- **A plain reference is decoded by the definition of its type.** -/
theorem follow_plain {id : TypeId} {e : Entry} (he : r.entry? id = some e) (buf : Bytes) (o : Nat) :
    follow r.plain (label id) buf o = decodeWith (follow r.plain) (r.plainCodec id e.definition) buf o := by
  rw [follow, codec?_plain he]
  exact decodeFrom_eq _ _ _ _

/-! ## Leaves on both sides -/

section

variable (r names)

/-- Whether a leaf reads what a client shows of a type. -/
def ShownByLeaf (id : TypeId) (c : Codec) : Prop :=
  c.isLeaf = true ∧ ∀ buf o w e, o ≤ buf.length →
    (decodeLeaf c buf o = .ok (w, e) ↔ r.shownAt names id (follow r.plain (label id)) buf o = .ok (w, e))

end

/-- Booleans, numbers and texts, which a client shows as they are. -/
inductive Scalar : Value → Prop
  | bool (b : Bool) : Scalar (.bool b)
  | int (n : Int) : Scalar (.int n)
  | str (s : String) : Scalar (.str s)

/-- A client shows a scalar as it is, and can make it: there is no class in
it. -/
theorem Scalar.shown {v : Value} (h : Scalar v) (id : TypeId) :
    r.translate names id v = v ∧ v.constructible (r.spoils names) = true := by
  cases h <;> exact ⟨by simp [translate], rfl⟩

/-- Where the plain codec is the same leaf and reads scalars, nothing is to be
translated. -/
theorem shownByLeaf_of_scalar {id : TypeId} {e : Entry} {c : Codec} (he : r.entry? id = some e)
    (hplain : r.plainCodec id e.definition = c) (hleaf : c.isLeaf = true)
    (hscalar : ∀ buf o v i, decodeLeaf c buf o = .ok (v, i) → Scalar v) : r.ShownByLeaf names id c := by
  refine ⟨hleaf, fun buf o w i _ => ?_⟩
  rw [shownAt_ok_iff, follow_plain he, hplain, decodeWith_leaf hleaf]
  constructor
  · intro h
    obtain ⟨hsame, hmade⟩ := (hscalar buf o w i h).shown (r := r) id
    exact ⟨w, h, hsame, hmade⟩
  · rintro ⟨v, h, rfl, -⟩
    obtain ⟨hsame, -⟩ := (hscalar buf o v i h).shown (r := r) id
    rwa [hsame]

/-- Primitives are leaves. -/
theorem isLeaf_primitive (kind : Primitive) : kind.codec.isLeaf = true := by
  cases kind <;> rfl

/-- What is read of a primitive is a scalar. Scalars are shown as they are: they
have no part that could be translated, and no class that could fail to be
made. -/
theorem scalar_of_primitive {kind : Primitive} {buf : Bytes} {o e : Nat} {v : Value}
    (h : decodeLeaf kind.codec buf o = .ok (v, e)) : Scalar v := by
  cases kind with
  | bool =>
    obtain ⟨⟨b, i⟩, -, h⟩ := bind_ok_iff.1 h
    dsimp only at h
    split at h
    · cases h
      exact .bool _
    · cases h
  | char =>
    obtain ⟨⟨raw, i⟩, -, h⟩ := bind_ok_iff.1 h
    dsimp only at h
    split at h
    · cases h
      exact .str _
    · cases h
  | str =>
    obtain ⟨⟨n, i⟩, -, h⟩ := bind_ok_iff.1 h
    obtain ⟨⟨raw, j⟩, -, h⟩ := bind_ok_iff.1 h
    dsimp only at h
    split at h
    · cases h
      exact .str _
    · cases h
  | unsigned width =>
    obtain ⟨⟨raw, i⟩, -, h⟩ := bind_ok_iff.1 h
    cases h
    exact .int _
  | signed width =>
    obtain ⟨⟨raw, i⟩, -, h⟩ := bind_ok_iff.1 h
    cases h
    exact .int _

/-- A primitive is one leaf on both sides. -/
theorem shownByLeaf_primitive {id : TypeId} {e : Entry} {kind : Primitive} (he : r.entry? id = some e)
    (hdef : e.definition = .primitive kind) : r.ShownByLeaf names id kind.codec :=
  shownByLeaf_of_scalar he (by rw [hdef, plainCodec]) (isLeaf_primitive kind) fun _ _ _ _ => scalar_of_primitive

/-- A compact integer is one leaf on both sides. -/
theorem shownByLeaf_compact {id inner : TypeId} {e : Entry} {width : Width} (he : r.entry? id = some e)
    (hdef : e.definition = .compact inner) (hinner : r.definition? inner = some (.primitive (.unsigned width))) :
    r.ShownByLeaf names id (.compact (some width.bits)) := by
  refine shownByLeaf_of_scalar he ?_ rfl fun buf o v i h => ?_
  · rw [hdef, plainCodec, compactBits, hinner]
  · obtain ⟨⟨n, j⟩, -, h⟩ := bind_ok_iff.1 h
    cases h
    exact .int _

/-! ## Bytes -/

/-- A byte as the integers codec reads it. -/
def byteValue (b : UInt8) : Value :=
  .int b.toNat

/-- A byte that is shown as a number is the byte. -/
theorem toByte_byteValue (b : UInt8) : (byteValue b).toByte = b := by
  simp [byteValue, Value.toByte]

/-- The plain codec reads a byte by following a reference to it. It takes one
byte and gives a small number. -/
theorem follow_byte {item : TypeId} (hbyte : r.isByte item = true) {buf : Bytes} {o e : Nat} {v : Value} :
    follow r.plain (label item) buf o = .ok (v, e) ↔ ∃ b, Between buf o e [b] ∧ v = byteValue b := by
  have hdef : r.definition? item = some (.primitive (.unsigned .w8)) := by simpa [isByte] using hbyte
  obtain ⟨entry, hentry, hprimitive⟩ := Option.map_eq_some_iff.1 hdef
  rw [follow_plain hentry, hprimitive, plainCodec, Primitive.codec, decodeWith, bind_ok_iff]
  constructor
  · rintro ⟨⟨raw, i⟩, hread, h⟩
    obtain ⟨hbetween, hi⟩ := readExact_ok_iff.1 hread
    have hlen := hbetween.length_eq
    have hone : raw.length = 1 := Nat.add_left_cancel (hlen.symm.trans hi)
    obtain ⟨b, rfl⟩ := List.length_eq_one_iff.1 hone
    cases h
    exact ⟨b, hbetween, by simp [byteValue, Bytes.toNat]⟩
  · rintro ⟨b, hbetween, rfl⟩
    exact ⟨([b], e), readExact_ok_iff.2 ⟨hbetween, hbetween.length_eq⟩, by simp [byteValue, Bytes.toNat]; rfl⟩

/-- **Bytes one by one** are the bytes between two offsets. The plain codec has
a list of bytes where the client has a byte string, and this lemma is where the
two are compared. -/
theorem decodeTuple_bytes {item : TypeId} (hbyte : r.isByte item = true) {n : Nat} {buf : Bytes} {o e : Nat}
    {vs : List Value} (ho : o ≤ buf.length) :
    decodeTuple (follow r.plain) (List.replicate n (.ref (label item))) buf o = .ok (vs, e) ↔
      ∃ raw, Between buf o e raw ∧ raw.length = n ∧ vs = raw.map byteValue := by
  -- Each byte moves the offset by one, and what is left is read by induction.
  induction n generalizing o vs with
  | zero =>
    rw [List.replicate_zero, decodeTuple_nil]
    constructor
    · intro h
      cases h
      exact ⟨[], Between.nil_iff.2 ⟨rfl, ho⟩, rfl, rfl⟩
    · rintro ⟨raw, hbetween, hlen, rfl⟩
      rw [List.eq_nil_of_length_eq_zero hlen] at hbetween ⊢
      rw [(Between.nil_iff.1 hbetween).1]
      rfl
  | succ n ih =>
    rw [List.replicate_succ, decodeTuple_cons_ok_iff]
    simp only [decodeWith_ref, follow_byte hbyte]
    constructor
    · rintro ⟨v, i, rest, ⟨b, hb, rfl⟩, hrest, rfl⟩
      obtain ⟨raw, hraw, hlen, rfl⟩ := (ih hb.2.1).1 hrest
      exact ⟨b :: raw, Between.cons_iff.2 ⟨i, hb, hraw⟩, by rw [List.length_cons, hlen], rfl⟩
    · rintro ⟨raw, hraw, hlen, rfl⟩
      obtain ⟨b, raw, rfl⟩ := List.exists_cons_of_length_eq_add_one hlen
      obtain ⟨i, hb, hraw⟩ := Between.cons_iff.1 hraw
      exact ⟨_, i, _, ⟨b, hb, rfl⟩, (ih hb.2.1).2 ⟨raw, hraw, by simpa using hlen, rfl⟩, rfl⟩

/-- Bytes that are shown as numbers are the bytes. -/
theorem map_toByte (raw : Bytes) : (raw.map byteValue).map Value.toByte = raw := by
  rw [List.map_map]
  exact (List.map_congr_left fun b _ => toByte_byteValue b).trans (List.map_id raw)

/-- When a client reads a byte string: its length, and as many bytes. The plain
codec reads the same length as the count of a sequence. -/
theorem decodeBytes_ok_iff {buf : Bytes} {o e : Nat} {v : Value} :
    decodeLeaf .bytes buf o = .ok (v, e) ↔
      ∃ n i raw, decodeCompact none buf o = .ok (n, i) ∧ Between buf i e raw ∧ raw.length = n ∧ v = .bytes raw := by
  rw [decodeLeaf, decodeWith, bind_ok_iff]
  constructor
  · rintro ⟨⟨n, i⟩, hcount, h⟩
    obtain ⟨⟨raw, j⟩, hread, h⟩ := bind_ok_iff.1 h
    obtain ⟨hraw, hj⟩ := readExact_ok_iff.1 hread
    cases h
    exact ⟨n, i, raw, hcount, hraw, Nat.add_left_cancel (hraw.length_eq.symm.trans hj), rfl⟩
  · rintro ⟨n, i, raw, hcount, hraw, hlen, rfl⟩
    refine ⟨(n, i), hcount, bind_ok_iff.2 ⟨(raw, e), readExact_ok_iff.2 ⟨hraw, ?_⟩, rfl⟩⟩
    rw [hraw.length_eq, hlen]

/-- **A sequence of bytes is a byte string.** Both sides read the count and as
many bytes. Where more bytes are announced than there are, the plain codec
refuses as well: a byte takes a byte, so it is none of the items that may be
copied. -/
theorem shownByLeaf_bytes {id item : TypeId} {e : Entry} (he : r.entry? id = some e)
    (hdef : e.definition = .sequence item) (hbyte : r.isByte item = true) : r.ShownByLeaf names id .bytes := by
  have htranslate : ∀ raw, r.translate names id (.list (raw.map byteValue)) = .bytes raw := by
    intro raw
    rw [translate, definition?_of_entry he hdef]
    dsimp only
    rw [hbyte, if_pos rfl, map_toByte]
  refine ⟨rfl, fun buf o w i _ => ?_⟩
  rw [shownAt_ok_iff, follow_plain he, hdef, plainCodec]
  simp only [decodeBytes_ok_iff, decodeWith_seq_ok_iff]
  constructor
  · rintro ⟨n, j, raw, hcount, hraw, hlen, rfl⟩
    -- The bytes are there, so there are at least as many left as are announced.
    have hsmall : n + j ≤ buf.length := by
      have hend := hraw.length_eq
      have hbound := hraw.2.1
      omega
    refine ⟨_, ⟨n, j, hcount, .inr ⟨hsmall, _, ?_, rfl⟩⟩, htranslate raw, rfl⟩
    exact (decodeTuple_bytes hbyte hraw.offset_le).2 ⟨raw, hraw, hlen, rfl⟩
  · rintro ⟨_, ⟨n, j, hcount, ⟨-, -, rfl, x, hprobe, -⟩ | ⟨hsmall, vs, hvs, rfl⟩⟩, rfl, -⟩
    · -- A byte that was read has moved the offset.
      rw [decodeWith_ref, follow_byte hbyte] at hprobe
      obtain ⟨b, hb, -⟩ := hprobe
      have hmoved := hb.length_eq
      simp at hmoved
    · obtain ⟨raw, hraw, hlen, rfl⟩ := (decodeTuple_bytes hbyte (by omega)).1 hvs
      exact ⟨n, j, raw, hcount, hraw, hlen, htranslate raw⟩

/-- An array of bytes is read as so many bytes. -/
theorem follow_bytes {id item : TypeId} {length : Nat} (hdef : r.definition? id = some (.array item length))
    (hbyte : r.isByte item = true) {buf : Bytes} {o e : Nat} {v : Value} (ho : o ≤ buf.length) :
    follow r.plain (label id) buf o = .ok (v, e) ↔
      ∃ raw, Between buf o e raw ∧ raw.length = length ∧ v = .tuple (raw.map byteValue) := by
  obtain ⟨entry, hentry, harray⟩ := Option.map_eq_some_iff.1 hdef
  rw [follow_plain hentry, harray, plainCodec, decodeWith_array_ok_iff]
  simp only [decodeTuple_bytes hbyte ho]
  constructor
  · rintro ⟨_, ⟨raw, hraw, hlen, rfl⟩, rfl⟩
    exact ⟨raw, hraw, hlen, rfl⟩
  · rintro ⟨raw, hraw, hlen, rfl⟩
    exact ⟨_, ⟨raw, hraw, hlen, rfl⟩, rfl⟩

/-- An array of bytes is shown as a byte string. -/
theorem translate_bytes {id item : TypeId} {length : Nat} (hdef : r.definition? id = some (.array item length))
    (hbyte : r.isByte item = true) (raw : Bytes) :
    r.translate names id (.tuple (raw.map byteValue)) = .bytes raw := by
  rw [translate, hdef]
  dsimp only
  rw [hbyte, if_pos rfl, map_toByte]

/-- An array of bytes is a byte string of this length. -/
theorem shownByLeaf_fixedBytes {id item : TypeId} {length : Nat} {e : Entry} (he : r.entry? id = some e)
    (hdef : e.definition = .array item length) (hbyte : r.isByte item = true) :
    r.ShownByLeaf names id (.fixedBytes length none) := by
  have hdef := definition?_of_entry he hdef
  refine ⟨rfl, fun buf o w i ho => ?_⟩
  rw [shownAt_ok_iff, decodeLeaf, decodeWith, decodeFixedBytes_ok_iff]
  simp only [follow_bytes hdef hbyte ho]
  constructor
  · rintro ⟨raw, hraw, hlen, -, rfl⟩
    exact ⟨_, ⟨raw, hraw, hlen, rfl⟩, translate_bytes hdef hbyte raw, rfl⟩
  · rintro ⟨_, ⟨raw, hraw, hlen, rfl⟩, rfl, -⟩
    exact ⟨raw, hraw, hlen, fun h => absurd rfl h, translate_bytes hdef hbyte raw⟩

/-! ## Account ids and hashes -/

/-- What is known as an account id or a hash is a composite of thirty-two
bytes. -/
theorem wellKnown?_newtype {e : Entry} {kind : Newtype} (h : r.wellKnown? e = some kind.wellKnown) :
    ∃ fields, e.definition = .composite fields ∧ r.isBytes32 fields = true := by
  unfold wellKnown? at h
  split at h
  · split at h
    · cases kind <;> cases h
    · split at h
      · cases kind <;> cases h
      · cases h
  · next fields hdef =>
    by_cases hshape : (2 ≤ e.path.length && knownCrates.contains (e.path.headD "") && r.isBytes32 fields) = true
    · exact ⟨fields, hdef, (Bool.and_eq_true_iff.1 hshape).2⟩
    · rw [if_neg hshape] at h
      cases h
  · cases h

/-- When fields are thirty-two bytes: there is one, an array of thirty-two
bytes. -/
theorem isBytes32_iff {fields : List Field} : r.isBytes32 fields = true ↔
    ∃ f item, fields = [f] ∧ r.definition? f.typeId = some (.array item 32) ∧ r.isByte item = true := by
  unfold isBytes32
  constructor
  · intro h
    split at h
    · split at h
      · exact ⟨_, _, rfl, ‹_›, h⟩
      · cases h
    · cases h
  · rintro ⟨f, item, rfl, hdef, hbyte⟩
    dsimp only
    rw [hdef]
    exact hbyte

/-- Account ids and hashes are thirty-two bytes that a client makes a value of
their own of. On the plain side such a type is a record with one field, an array
of thirty-two bytes, and `translate` looks through both. -/
theorem shownByLeaf_newtype {id : TypeId} {e : Entry} {kind : Newtype} (he : r.entry? id = some e)
    (hknown : r.wellKnown? e = some kind.wellKnown) : r.ShownByLeaf names id (.fixedBytes 32 (some kind)) := by
  obtain ⟨fields, hdef, hbytes⟩ := wellKnown?_newtype hknown
  obtain ⟨f, item, rfl, harray, hbyte⟩ := isBytes32_iff.1 hbytes
  obtain ⟨name, hone⟩ := decodeRecord_one f
  -- Translating goes through the record and its array at once, as the shape is recognized
  -- by the record.
  have htranslate : ∀ raw, r.translate names id (.instance (label id) [(name, .tuple (raw.map byteValue))]) =
      .newtype kind raw := by
    intro raw
    rw [translate, he]
    dsimp only
    rw [hdef, TypeDef.attributeTypes, List.map_singleton, translateAttributes, translateAttributes,
      translate_bytes harray hbyte, present, hknown]
    · cases kind <;> rfl
    · simp
  refine ⟨rfl, fun buf o w i ho => ?_⟩
  rw [shownAt_ok_iff, decodeLeaf, decodeWith, decodeFixedBytes_ok_iff, follow_plain he, hdef, plainCodec]
  simp only [decodeWith_struct, hone, follow_bytes harray hbyte ho]
  constructor
  · rintro ⟨raw, hraw, hlen, -, rfl⟩
    exact ⟨_, ⟨_, ⟨raw, hraw, hlen, rfl⟩, rfl⟩, htranslate raw, rfl⟩
  · rintro ⟨_, ⟨_, ⟨raw, hraw, hlen, rfl⟩, rfl⟩, rfl, -⟩
    exact ⟨raw, hraw, hlen, fun _ => trivial, htranslate raw⟩

end ContractClient.Registry
