/-
The leaves of codecs, in both directions.

A leaf is read where it was written and written as it was read. For integers
this is two's complement, for texts the inverse pair that core provides between
strings and their UTF-8 bytes, for code points the range that `Char` stands for;
counts and compact numbers are `decodeCompactMode_ok_iff`. The two results are
`decodeLeaf_of_encodeLeaf` and `encodeLeaf_of_decodeLeaf`, and the rest of the
development sees no leaf but through them.

What a byte string is read back as depends on the codec, not on the object that
was written. `canonLeaf` says as what; on other values it is the identity.
-/
import ContractClient.Proofs.Scale.Compact
import ContractClient.Proofs.Scale.Success

set_option autoImplicit false

namespace ContractClient

-- Powers of numbers are those of the core library, where another instance is at hand too.
attribute [local instance (1100)] instPowNat

/-! ## Two's complement -/

namespace Bytes

/-- Bytes that are read without a sign are written back. -/
theorem ofInt_toNat (raw : Bytes) : ofInt raw.length (toNat raw : Int) = raw := by
  have hlt := toNat_lt raw
  rw [ofInt, Int.emod_eq_of_lt (by omega) (by omega), Int.toNat_natCast, ofNat_toNat]

/-- Bytes that are read with a sign are written back. -/
theorem ofInt_toInt (raw : Bytes) : ofInt raw.length (toInt raw) = raw := by
  by_cases hsmall : 2 * toNat raw < 256 ^ raw.length
  · rw [toInt, if_pos hsmall, ofInt_toNat]
  · rw [toInt, if_neg hsmall, ofInt, Int.sub_emod_right]
    exact ofInt_toNat raw

/-- An integer without a sign that fits is read back. -/
theorem toNat_ofInt {size : Nat} {v : Int} (hlow : 0 ≤ v) (hhigh : v < (256 ^ size : Nat)) :
    (toNat (ofInt size v) : Int) = v := by
  have hlt : v.toNat < 256 ^ size := by omega
  rw [ofInt, Int.emod_eq_of_lt hlow hhigh, toNat_ofNat, Nat.mod_eq_of_lt hlt]
  omega

/-- An integer with a sign that fits is read back. Half of all values are not
negative, which is where the bounds come from. -/
theorem toInt_ofInt {size half : Nat} {v : Int} (hhalf : 256 ^ size = 2 * half) (hlow : -(half : Int) ≤ v)
    (hhigh : v < half) : toInt (ofInt size v) = v := by
  have hlen : (ofInt size v).length = size := length_ofNat _ _
  by_cases hneg : 0 ≤ v
  · have hvalue : (toNat (ofInt size v) : Int) = v := toNat_ofInt hneg (by omega)
    rw [toInt, hlen, if_pos (by omega), hvalue]
  · -- a negative number is written as its sum with the modulus
    have hshift : ofInt size v = ofInt size (v + (256 ^ size : Nat)) := by
      rw [ofInt, ofInt, Int.add_emod_right]
    have hvalue : (toNat (ofInt size v) : Int) = v + (256 ^ size : Nat) := by
      rw [hshift]
      exact toNat_ofInt (by omega) (by omega)
    rw [toInt, hlen, if_neg (by omega), hvalue]
    omega

end Bytes

/-! ## Texts -/

/-- **UTF-8 is read exactly where it was written.** Bytes that are read are
valid, and the text that is read has these bytes and no others; so no second
byte string is read as the same text. -/
theorem Utf8.decode_ok_iff {bs : Bytes} {s : String} : Utf8.decode bs = .ok s ↔ bs = Utf8.encode s := by
  unfold Utf8.decode Utf8.encode String.fromUTF8?
  by_cases hvalid : ByteArray.IsValidUTF8 ⟨bs.toArray⟩
  · rw [dif_pos hvalid]
    constructor
    · rintro ⟨⟩
      rfl
    · rintro rfl
      rfl
  · rw [dif_neg hvalid]
    constructor
    · rintro ⟨⟩
    · rintro rfl
      exact absurd s.isValidUTF8 hvalid

namespace Codec

/-! ## From the bytes -/

section

variable {buf : Bytes} {o e : Nat} {v : Value}

/-- A number within its bound is read and written alike. The bound is checked on
the number that was read, so nothing is said of spellings here: there is one for
each number. -/
theorem decodeCompact_ok_iff {bound : Option Nat} {n : Nat} :
    decodeCompact bound buf o = .ok (n, e) ↔
      (bound.filter fun b => b < Bytes.bitLength n) = none ∧ compactSize n ≤ 67 ∧
        Between buf o e (compactBytes n) := by
  rw [decodeCompact, bind_ok_iff, ← decodeCompactMode_ok_iff]
  constructor
  · rintro ⟨⟨m, i⟩, hmode, h⟩
    dsimp only at h
    cases hbound : bound.filter fun b => b < Bytes.bitLength m with
    | some b => simp [hbound, fault] at h
    | none =>
      rw [hbound] at h
      cases h
      exact ⟨hbound, hmode⟩
  · rintro ⟨hbound, hmode⟩
    refine ⟨(n, e), hmode, ?_⟩
    dsimp only
    rw [hbound]
    rfl

/-- When a count is written: it has a shortest form of at most 67 bytes. Counts
of sequences and lengths of byte strings have no other bound. -/
theorem encodeCount_ok_iff {n : Nat} {bs : Bytes} :
    encodeCount n = .ok bs ↔ compactSize n ≤ 67 ∧ bs = compactBytes n := by
  unfold encodeCount
  by_cases hlarge : 67 < compactSize n
  · rw [if_pos hlarge]
    constructor
    · rintro ⟨⟩
    · intro h
      omega
  · rw [if_neg hlarge]
    constructor
    · rintro ⟨⟩
      exact ⟨by omega, rfl⟩
    · rintro ⟨-, rfl⟩
      rfl

/-- **Counts are read exactly where they are written.** -/
theorem decodeCount_ok_iff {n : Nat} :
    decodeCompact none buf o = .ok (n, e) ↔ ∃ bs, encodeCount n = .ok bs ∧ Between buf o e bs := by
  rw [decodeCompact_ok_iff]
  constructor
  · rintro ⟨-, hsize, hbetween⟩
    exact ⟨_, encodeCount_ok_iff.2 ⟨hsize, rfl⟩, hbetween⟩
  · rintro ⟨bs, hcount, hbetween⟩
    obtain ⟨hsize, rfl⟩ := encodeCount_ok_iff.1 hcount
    exact ⟨rfl, hsize, hbetween⟩

/-- When a compact integer is written: it is a natural number, has no more bits
than its bound allows, and can be written as a count. -/
theorem encodeCompact_ok_iff {bound : Option Nat} {bs : Bytes} :
    encodeCompact bound v = .ok bs ↔
      ∃ n : Nat, v = .int n ∧ (bound.filter fun b => b < Bytes.bitLength n) = none ∧
        encodeCount n = .ok bs := by
  constructor
  · intro h
    cases v with
    | int n =>
      rw [encodeCompact] at h
      by_cases hneg : n < 0
      · rw [if_pos hneg] at h
        cases h
      rw [if_neg hneg] at h
      dsimp only at h
      cases hbound : bound.filter fun b => b < Bytes.bitLength n.toNat with
      | some b => simp [hbound] at h
      | none =>
        rw [hbound] at h
        exact ⟨n.toNat, by rw [Int.toNat_of_nonneg (by omega)], hbound, h⟩
    | _ => cases h
  · rintro ⟨n, rfl, hbound, hcount⟩
    rw [encodeCompact, if_neg (by omega), Int.toNat_natCast]
    dsimp only
    rw [hbound]
    exact hcount

/-- Bytes behind their number are read exactly where they are written. Texts and
byte strings are both written so, and this is shared between them. -/
theorem readCounted_ok_iff {raw : Bytes} :
    (decodeCompact none buf o >>= fun r => readExact buf r.2 r.1) = .ok (raw, e) ↔
      ∃ bs, encodeCounted raw = .ok bs ∧ Between buf o e bs := by
  rw [bind_ok_iff]
  constructor
  · rintro ⟨⟨n, i⟩, hcount, hread⟩
    obtain ⟨head, hhead, hbetween⟩ := decodeCount_ok_iff.1 hcount
    obtain ⟨hraw, he⟩ := readExact_ok_iff.1 hread
    have hlen : n = raw.length := by have := hraw.length_eq; omega
    subst hlen
    exact ⟨head ++ raw, by rw [encodeCounted, hhead]; rfl, hbetween.append hraw⟩
  · rintro ⟨bs, hcounted, hbetween⟩
    rw [encodeCounted, map_ok_iff] at hcounted
    obtain ⟨head, hhead, rfl⟩ := hcounted
    obtain ⟨i, hfront, hraw⟩ := Between.append_iff.1 hbetween
    exact ⟨(raw.length, i), decodeCount_ok_iff.2 ⟨head, hhead, hfront⟩,
      readExact_ok_iff.2 ⟨hraw, hraw.length_eq⟩⟩

/-! ## Leaf by leaf -/

/-- The bounds of an integer of a size, by half the number of its values. -/
theorem intBounds_half (size : IntSize) : ∃ half : Nat, 256 ^ size.bytes = 2 * half ∧
    intBounds size true = (-(half : Int), (half : Int) - 1) ∧
    intBounds size false = (0, ((256 ^ size.bytes : Nat) : Int) - 1) := by
  have hbits : 8 * size.bytes = 8 * size.bytes - 1 + 1 := by
    have := size.pos
    omega
  have hpow : 256 ^ size.bytes = 2 ^ (8 * size.bytes) := by rw [Nat.pow_mul]
  refine ⟨2 ^ (size.bits - 1), ?_, rfl, ?_⟩
  · rw [hpow, IntSize.bits, hbits, Nat.pow_succ, Nat.mul_comm, Nat.add_sub_cancel]
  · rw [hpow]
    rfl

/-- The number that the bytes of a format denote. -/
def intOf (signed : Bool) (raw : Bytes) : Int :=
  if signed then Bytes.toInt raw else Bytes.toNat raw

/-- What bytes denote is within the bounds of their format and written as these
bytes. -/
theorem encodeInt_intOf {size : IntSize} {signed : Bool} {raw : Bytes} (hlen : raw.length = size.bytes) :
    encodeInt size signed (.int (intOf signed raw)) = .ok raw := by
  obtain ⟨half, hhalf, hsigned, hunsigned⟩ := intBounds_half size
  have hlt := Bytes.toNat_lt raw
  rw [hlen] at hlt
  cases signed with
  | true =>
    have hform := Bytes.ofInt_toInt raw
    rw [hlen] at hform
    have hbounds : -(half : Int) ≤ Bytes.toInt raw ∧ Bytes.toInt raw ≤ (half : Int) - 1 := by
      unfold Bytes.toInt
      rw [hlen]
      split <;> omega
    simp only [encodeInt, intOf, hsigned, if_pos hbounds, if_true, hform]
  | false =>
    have hform := Bytes.ofInt_toNat raw
    rw [hlen] at hform
    have hbounds : (0 : Int) ≤ Bytes.toNat raw ∧
        (Bytes.toNat raw : Int) ≤ (256 ^ size.bytes : Nat) - 1 := by omega
    simp only [encodeInt, intOf, hunsigned, if_pos hbounds, Bool.false_eq_true, if_false, hform]

/-- A number that is written is denoted by the bytes that were written. Writing
checks the bounds, and within them the bytes of the two signs are read as the
number that they came from. -/
theorem intOf_encodeInt {size : IntSize} {signed : Bool} {v : Value} {bs : Bytes}
    (h : encodeInt size signed v = .ok bs) : bs.length = size.bytes ∧ v = .int (intOf signed bs) := by
  cases v with
  | int n =>
    obtain ⟨half, hhalf, hsigned, hunsigned⟩ := intBounds_half size
    unfold encodeInt at h
    dsimp only at h
    -- Only a number within the bounds is written.
    by_cases hbounds : (intBounds size signed).1 ≤ n ∧ n ≤ (intBounds size signed).2
    · rw [if_pos hbounds] at h
      cases h
      refine ⟨Bytes.length_ofNat _ _, ?_⟩
      cases signed with
      | true =>
        rw [hsigned] at hbounds
        dsimp only at hbounds
        have hvalue := Bytes.toInt_ofInt hhalf hbounds.1 (by omega)
        rw [intOf, if_pos rfl, hvalue]
      | false =>
        rw [hunsigned] at hbounds
        dsimp only at hbounds
        have hvalue : (Bytes.toNat (Bytes.ofInt size.bytes n) : Int) = n :=
          Bytes.toNat_ofInt hbounds.1 (by omega)
        rw [intOf, if_neg Bool.false_ne_true, hvalue]
    · rw [if_neg hbounds] at h
      cases h
  | _ => cases h

/-- What is written for the character of a code point is the code point in four
bytes. -/
theorem encodeChar_singleton {raw : Bytes} (hlen : raw.length = 4) (hvalid : (Bytes.toNat raw).isValidChar) :
    encodeChar (.str (String.singleton (Char.ofNat (Bytes.toNat raw)))) = .ok raw := by
  have hvalue : (Char.ofNat (Bytes.toNat raw)).toNat = Bytes.toNat raw := by
    rw [Char.ofNat, dif_pos hvalid]
    rfl
  rw [encodeChar, String.toList_singleton]
  dsimp only
  rw [hvalue, ← hlen, Bytes.ofNat_toNat]

/-- A code point in four bytes is that of a character, or it is a surrogate on
its own. No other text that holds a surrogate is written, because it is longer
than one code point. -/
theorem encodeChar_ok {raw : Bytes} (h : encodeChar v = .ok raw) : raw.length = 4 ∧
    ((Bytes.toNat raw).isValidChar ∧ v = .str (String.singleton (Char.ofNat (Bytes.toNat raw))) ∨
      isSurrogate (Bytes.toNat raw) = true ∧ ∃ t, v = .brokenStr t) := by
  -- A code point fits in four bytes, so writing it loses nothing.
  have hwritten : ∀ n, n ≤ 0x10ffff → Bytes.toNat (Bytes.ofNat 4 n) = n := fun n hn => by
    rw [Bytes.toNat_ofNat, Nat.mod_eq_of_lt (by omega)]
  cases v with
  | str s =>
    unfold encodeChar at h
    cases hchars : s.toList with
    | nil => simp [hchars] at h
    | cons c rest =>
      cases rest with
      | nil =>
        simp only [hchars, Except.ok.injEq] at h
        subst h
        have hvalid : c.toNat.isValidChar := c.valid
        have hvalue := hwritten c.toNat (by simp only [Nat.isValidChar] at hvalid; omega)
        refine ⟨Bytes.length_ofNat _ _, .inl ?_⟩
        rw [hvalue, Char.ofNat_toNat]
        refine ⟨hvalid, ?_⟩
        rw [← String.toList_inj.1 (hchars.trans (String.toList_singleton c).symm)]
      | cons c' rest => simp [hchars] at h
  | brokenStr t =>
    unfold encodeChar at h
    dsimp only at h
    split at h
    next n hpoints =>
      cases h
      have hbound : n ≤ 0x10ffff := t.bounded n (hpoints ▸ List.mem_singleton.2 rfl)
      have hsurrogate := t.broken
      rw [hpoints, List.any_cons, List.any_nil, Bool.or_false] at hsurrogate
      refine ⟨Bytes.length_ofNat _ _, .inr ⟨?_, t, rfl⟩⟩
      rwa [hwritten n hbound]
    next => cases h
  | _ => cases h

/-- A surrogate is no character. -/
theorem not_isValidChar_of_isSurrogate {n : Nat} (h : isSurrogate n = true) : ¬ n.isValidChar := by
  simp only [isSurrogate, Bool.and_eq_true, decide_eq_true_iff] at h
  simp only [Nat.isValidChar]
  omega

/-! ## All leaves -/

/-- What a byte string of a codec is read back as. -/
def canonBytes (newtype : Option Newtype) (b : Bytes) : Value :=
  match newtype with
  | none => .bytes b
  | some kind => .newtype kind b

/-- The value that a leaf reads where it wrote a value. -/
def canonLeaf : Codec → Value → Value
  | .bytes, v => v.bytes?.elim v (canonBytes none)
  | .fixedBytes _ newtype, v => v.bytes?.elim v (canonBytes newtype)
  | _, v => v

/-- Whether a `char` is given a text that it writes and does not read: a
surrogate on its own. -/
def isLoneChar : Codec → Value → Bool
  | .char, .brokenStr _ => true
  | _, _ => false

/-- What bytes are read as is taken for the same bytes. -/
theorem bytes?_canonBytes (newtype : Option Newtype) (b : Bytes) :
    (canonBytes newtype b).bytes? = some b := by
  cases newtype <;> rfl

/-- When a value is taken for bytes. -/
theorem expectBytes_ok_iff {b : Bytes} : expectBytes v = .ok b ↔ v.bytes? = some b := by
  unfold expectBytes
  cases v.bytes? <;> simp

/-- When bytes of a fixed length are written: the value has bytes, whether as a
byte string or as a thirty-two bytes value, and as many as are asked for. -/
theorem encodeFixedBytes_ok_iff {length : Nat} {bs : Bytes} :
    (do
      let b ← expectBytes v
      if b.length = length then return b else .error (.byteCount length b.length)) = .ok bs ↔
      v.bytes? = some bs ∧ bs.length = length := by
  rw [bind_ok_iff]
  constructor
  · rintro ⟨b, hb, h⟩
    by_cases hlen : b.length = length
    · rw [if_pos hlen] at h
      cases h
      exact ⟨expectBytes_ok_iff.1 hb, hlen⟩
    · rw [if_neg hlen] at h
      cases h
  · rintro ⟨hb, hlen⟩
    exact ⟨bs, expectBytes_ok_iff.2 hb, if_pos hlen⟩

/-- When bytes of a fixed length are read. A type of thirty-two bytes makes its
own values, and only of thirty-two bytes. -/
theorem decodeFixedBytes_ok_iff {length : Nat} {newtype : Option Newtype} :
    decodeFixedBytes length newtype buf o = .ok (v, e) ↔
      ∃ raw, Between buf o e raw ∧ raw.length = length ∧ (newtype ≠ none → length = 32) ∧
        v = canonBytes newtype raw := by
  rw [decodeFixedBytes, bind_ok_iff]
  constructor
  · rintro ⟨⟨raw, i⟩, hread, h⟩
    obtain ⟨hraw, rfl⟩ := readExact_ok_iff.1 hread
    have hlen : raw.length = length := by have := hraw.length_eq; omega
    -- The class of a newtype looks at the length again, and takes thirty-two bytes only.
    cases newtype with
    | none =>
      cases h
      exact ⟨raw, hraw, hlen, fun h => absurd rfl h, rfl⟩
    | some kind =>
      simp only [Newtype.ofBytes] at h
      by_cases h32 : raw.length = 32
      · rw [if_pos h32] at h
        cases h
        exact ⟨raw, hraw, hlen, fun _ => by omega, rfl⟩
      · rw [if_neg h32] at h
        cases h
  · rintro ⟨raw, hraw, hlen, hnewtype, rfl⟩
    refine ⟨(raw, e), readExact_ok_iff.2 ⟨hraw, by rw [hraw.length_eq, hlen]⟩, ?_⟩
    cases newtype with
    | none => rfl
    | some kind =>
      have h32 : raw.length = 32 := by rw [hlen, hnewtype (by simp)]
      simp only [Newtype.ofBytes, if_pos h32]
      rfl

end

/-- **Reading a leaf, then writing it.** What a leaf has read it writes as the
bytes that it read, and it would read it back as it is. -/
theorem encodeLeaf_of_decodeLeaf {c : Codec} (hleaf : c.isLeaf = true) {buf : Bytes} {o e : Nat} {v : Value}
    (h : decodeLeaf c buf o = .ok (v, e)) : ∃ bs, Between buf o e bs ∧ encodeLeaf c v = .ok bs := by
  cases c <;> simp only [isLeaf, Bool.false_eq_true] at hleaf <;>
    simp only [decodeLeaf, decodeWith, encodeLeaf, encodeWith] at h ⊢
  case bool =>
    obtain ⟨⟨b, i⟩, hread, h⟩ := bind_ok_iff.1 h
    have hbyte := readByte_ok_iff.1 hread
    dsimp only at h
    by_cases hle : b ≤ 1
    · rw [if_pos hle] at h
      cases h
      refine ⟨[b], hbyte, ?_⟩
      -- Only two bytes pass, and each is written as it was read.
      have hb : b = 0 ∨ b = 1 := by
        rw [UInt8.le_iff_toNat_le] at hle
        rw [← UInt8.toNat_inj, ← UInt8.toNat_inj]
        have : (1 : UInt8).toNat = 1 := rfl
        have : (0 : UInt8).toNat = 0 := rfl
        omega
      rcases hb with rfl | rfl <;> rfl
    · rw [if_neg hle] at h
      cases h
  case int size signed =>
    obtain ⟨⟨raw, i⟩, hread, h⟩ := bind_ok_iff.1 h
    obtain ⟨hraw, rfl⟩ := readExact_ok_iff.1 hread
    cases h
    have hlen : raw.length = size.bytes := by have := hraw.length_eq; omega
    exact ⟨raw, hraw, encodeInt_intOf hlen⟩
  case compact bound =>
    obtain ⟨⟨n, i⟩, hread, h⟩ := bind_ok_iff.1 h
    cases h
    obtain ⟨hbound, hsize, hbetween⟩ := decodeCompact_ok_iff.1 hread
    exact ⟨_, hbetween, encodeCompact_ok_iff.2 ⟨n, rfl, hbound, encodeCount_ok_iff.2 ⟨hsize, rfl⟩⟩⟩
  case str =>
    obtain ⟨⟨n, i⟩, hcount, h⟩ := bind_ok_iff.1 h
    obtain ⟨⟨raw, j⟩, hread, h⟩ := bind_ok_iff.1 h
    obtain ⟨bs, hcounted, hbetween⟩ := readCounted_ok_iff.1 (bind_ok_iff.2 ⟨_, hcount, hread⟩)
    dsimp only at h
    cases htext : Utf8.decode raw with
    | error f => simp [htext, fault] at h
    | ok s =>
      rw [htext] at h
      cases h
      -- The text that was read is written as the very bytes, by the inverse pair.
      rw [Utf8.decode_ok_iff.1 htext] at hcounted
      exact ⟨bs, hbetween, hcounted⟩
  case char =>
    obtain ⟨⟨raw, i⟩, hread, h⟩ := bind_ok_iff.1 h
    obtain ⟨hraw, rfl⟩ := readExact_ok_iff.1 hread
    dsimp only at h
    by_cases hvalid : (Bytes.toNat raw).isValidChar
    · rw [if_pos hvalid] at h
      cases h
      have hlen : raw.length = 4 := by have := hraw.length_eq; omega
      exact ⟨raw, hraw, encodeChar_singleton hlen hvalid⟩
    · rw [if_neg hvalid] at h
      cases h
  case bytes =>
    obtain ⟨⟨n, i⟩, hcount, h⟩ := bind_ok_iff.1 h
    obtain ⟨⟨raw, j⟩, hread, h⟩ := bind_ok_iff.1 h
    obtain ⟨bs, hcounted, hbetween⟩ := readCounted_ok_iff.1 (bind_ok_iff.2 ⟨_, hcount, hread⟩)
    cases h
    exact ⟨bs, hbetween, hcounted⟩
  case fixedBytes length newtype =>
    obtain ⟨raw, hraw, hlen, -, rfl⟩ := decodeFixedBytes_ok_iff.1 h
    exact ⟨raw, hraw, encodeFixedBytes_ok_iff.2 ⟨bytes?_canonBytes newtype raw, hlen⟩⟩

/-- Writing a leaf, then reading it. A thirty-two bytes type reads nothing at
another length, and a character reads no surrogate. -/
theorem decodeLeaf_of_encodeLeaf {c : Codec} (hleaf : c.isLeaf = true)
    (hlength : ∀ length kind, c = .fixedBytes length (some kind) → length = 32) {v : Value}
    (hlone : isLoneChar c v = false) {bs : Bytes} (h : encodeLeaf c v = .ok bs) {buf : Bytes} {o e : Nat}
    (hbetween : Between buf o e bs) : decodeLeaf c buf o = .ok (canonLeaf c v, e) := by
  cases c <;> simp only [isLeaf, Bool.false_eq_true] at hleaf <;>
    simp only [decodeLeaf, decodeWith, encodeLeaf, encodeWith, canonLeaf] at h ⊢
  case bool =>
    cases v with
    | bool b =>
      cases h
      refine bind_ok_iff.2 ⟨_, readByte_ok_iff.2 hbetween, ?_⟩
      cases b <;> rfl
    | _ => cases h
  case int size signed =>
    obtain ⟨hlen, rfl⟩ := intOf_encodeInt h
    have he : e = o + size.bytes := by rw [hbetween.length_eq, hlen]
    exact bind_ok_iff.2 ⟨_, readExact_ok_iff.2 ⟨hbetween, he⟩, rfl⟩
  case compact bound =>
    obtain ⟨n, rfl, hbound, hcount⟩ := encodeCompact_ok_iff.1 h
    obtain ⟨hsize, rfl⟩ := encodeCount_ok_iff.1 hcount
    exact bind_ok_iff.2 ⟨_, decodeCompact_ok_iff.2 ⟨hbound, hsize, hbetween⟩, rfl⟩
  case str =>
    cases v with
    | str s =>
      obtain ⟨⟨n, i⟩, hcount, hread⟩ := bind_ok_iff.1 (readCounted_ok_iff.2 ⟨bs, h, hbetween⟩)
      refine bind_ok_iff.2 ⟨_, hcount, bind_ok_iff.2 ⟨_, hread, ?_⟩⟩
      dsimp only
      rw [Utf8.decode_ok_iff.2 rfl]
      rfl
    | _ => cases h
  case char =>
    obtain ⟨hlen, ⟨hvalid, rfl⟩ | ⟨-, t, rfl⟩⟩ := encodeChar_ok h
    · have he : e = o + 4 := by rw [hbetween.length_eq, hlen]
      refine bind_ok_iff.2 ⟨_, readExact_ok_iff.2 ⟨hbetween, he⟩, ?_⟩
      exact if_pos hvalid
    · cases hlone
  case bytes =>
    obtain ⟨raw, hraw, h⟩ := bind_ok_iff.1 h
    obtain ⟨⟨n, i⟩, hcount, hread⟩ := bind_ok_iff.1 (readCounted_ok_iff.2 ⟨bs, h, hbetween⟩)
    refine bind_ok_iff.2 ⟨_, hcount, bind_ok_iff.2 ⟨_, hread, ?_⟩⟩
    rw [expectBytes_ok_iff.1 hraw]
    rfl
  case fixedBytes length newtype =>
    obtain ⟨hbytes, hlen⟩ := encodeFixedBytes_ok_iff.1 h
    rw [hbytes]
    refine decodeFixedBytes_ok_iff.2 ⟨bs, hbetween, hlen, ?_, rfl⟩
    -- Without a thirty-two bytes type there is no length to check.
    intro hsome
    obtain ⟨kind, rfl⟩ := Option.ne_none_iff_exists'.1 hsome
    exact hlength _ _ rfl

/-- **A surrogate is written and not read.** It is written as its number in four
bytes, as every character is, and a number between the surrogates is refused by
the reader. -/
theorem decodeLeaf_of_loneChar {c : Codec} {v : Value} (hlone : isLoneChar c v = true) {bs : Bytes}
    (h : encodeLeaf c v = .ok bs) {buf : Bytes} {o e : Nat} (hbetween : Between buf o e bs) :
    decodeLeaf c buf o = fault (.codePoint (Bytes.toNat bs)) o := by
  unfold isLoneChar at hlone
  split at hlone
  next t =>
    simp only [encodeLeaf, encodeWith] at h
    obtain ⟨hlen, ⟨-, heq⟩ | ⟨hsurrogate, -⟩⟩ := encodeChar_ok h
    · cases heq
    · have he : e = o + 4 := by rw [hbetween.length_eq, hlen]
      simp only [decodeLeaf, decodeWith, decodeChar, readExact_ok_iff.2 ⟨hbetween, he⟩]
      exact if_neg (not_isValidChar_of_isSurrogate hsurrogate)
  next => cases hlone

/-- What a leaf has read is no surrogate. -/
theorem isLoneChar_of_decodeLeaf {c : Codec} (hleaf : c.isLeaf = true) {buf : Bytes} {o e : Nat} {v : Value}
    (h : decodeLeaf c buf o = .ok (v, e)) : isLoneChar c v = false := by
  by_contra hlone
  rw [Bool.not_eq_false] at hlone
  obtain ⟨bs, hbetween, hencode⟩ := encodeLeaf_of_decodeLeaf hleaf h
  rw [decodeLeaf_of_loneChar hlone hencode hbetween] at h
  cases h

/-! ## Leaves without bytes -/

/-- A compact integer takes at least one byte. -/
theorem compactBytes_ne_nil (n : Nat) : compactBytes n ≠ [] := by
  unfold compactBytes
  split
  · simp [Bytes.ofNat]
  split
  · simp [Bytes.ofNat]
  split
  · simp [Bytes.ofNat]
  · simp [Bytes.ofNat]

/-- A count takes at least one byte. -/
theorem encodeCount_ne_nil {n : Nat} : encodeCount n ≠ .ok [] := by
  intro h
  exact compactBytes_ne_nil n (encodeCount_ok_iff.1 h).2.symm

/-- Bytes with their length in front take at least one byte, that of the
length. -/
theorem encodeCounted_ne_nil {raw : Bytes} : encodeCounted raw ≠ .ok [] := by
  intro h
  obtain ⟨head, hhead, hnil⟩ := map_ok_iff.1 h
  rw [(List.append_eq_nil_iff.1 hnil).1] at hhead
  exact encodeCount_ne_nil hhead

/-- The byte strings of length zero are the only leaf that writes nothing, and
it never writes anything. Whether a codec writes something does so not depend on
the value, which is what decides for sequences how their items are read. -/
theorem encodeLeaf_nil {c : Codec} (hleaf : c.isLeaf = true) {v w : Value} {bs : Bytes}
    (h : encodeLeaf c v = .ok []) (hw : encodeLeaf c w = .ok bs) : bs = [] := by
  cases c <;> simp only [isLeaf, Bool.false_eq_true] at hleaf <;>
    simp only [encodeLeaf, encodeWith] at h hw
  case bool => cases v <;> cases h
  case int size signed =>
    have hlen := (intOf_encodeInt h).1
    have hpos := size.pos
    rw [List.length_nil] at hlen
    omega
  case compact bound =>
    obtain ⟨n, -, -, hcount⟩ := encodeCompact_ok_iff.1 h
    exact absurd hcount encodeCount_ne_nil
  case str =>
    cases v with
    | str s => exact absurd h encodeCounted_ne_nil
    | _ => cases h
  case char => exact absurd (encodeChar_ok h).1 (by simp)
  case bytes =>
    obtain ⟨raw, -, h⟩ := bind_ok_iff.1 h
    exact absurd h encodeCounted_ne_nil
  case fixedBytes length newtype =>
    have hzero := (encodeFixedBytes_ok_iff.1 h).2
    have hlen := (encodeFixedBytes_ok_iff.1 hw).2
    exact List.eq_nil_of_length_eq_zero (hlen.trans hzero.symm)

end Codec

end ContractClient
