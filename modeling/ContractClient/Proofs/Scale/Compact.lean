/-
The compact form of a number.

A number is written in the shortest of four modes, and which mode it is can be
read off the two low bits of the first byte. A mode can spell more numbers than
it is used for: the two-byte mode could spell `1`, and the mode of any size
could spell every number with zeros behind it. Strictness is the refusal of
these spellings. What has to be shown for it is that the least size is the size
there is unless the last byte is zero, `compactSize_toNat`; the other modes are
arithmetic.

The result is one equivalence, `decodeCompactMode_ok_iff`. It carries both
directions, so that no reader accepts a second spelling and no spelling is
refused, and it holds in the middle of any buffer.
-/
import ContractClient.Proofs.Outcome
import ContractClient.Proofs.Scale.Reading

set_option autoImplicit false

namespace ContractClient

-- Powers of numbers are those of the core library, where another instance is at hand too.
attribute [local instance (1100)] instPowNat

/-! ## Numbers and their last bytes -/

namespace Bytes

/-- How many bits a number has, by powers of two. -/
theorem bitLength_le_iff (n k : Nat) : bitLength n ≤ k ↔ n < 2 ^ k := by
  unfold bitLength
  by_cases hn : n = 0
  · subst hn
    rw [if_pos rfl]
    exact iff_of_true (Nat.zero_le k) (Nat.two_pow_pos k)
  · rw [if_neg hn, Nat.succ_le_iff, Nat.log2_lt hn]

/-- The first byte is the number modulo 256, so its low bits are those of the
number. -/
theorem toNat_mod_four (b : UInt8) (bs : Bytes) : toNat (b :: bs) % 4 = b.toNat % 4 := by
  rw [toNat]
  omega

/-- A number whose last byte is not zero needs all its bytes. The last byte is
the highest one, as numbers are written from the lowest byte on. -/
theorem le_toNat_of_getLast {bs : Bytes} {last : UInt8} (h : bs.getLast? = some last) (hlast : last ≠ 0) :
    256 ^ (bs.length - 1) ≤ toNat bs := by
  induction bs with
  | nil => simp at h
  | cons b bs ih =>
    rw [toNat, List.length_cons, Nat.add_sub_cancel]
    cases bs with
    | nil =>
      have hb : b = last := by simpa using h
      have hpos : b.toNat ≠ 0 := fun h0 => hlast (hb ▸ UInt8.toNat_inj.1 h0)
      simp only [List.length_nil, Nat.pow_zero]
      omega
    | cons b' bs =>
      have htail := ih (by simpa using h)
      simp only [List.length_cons, Nat.add_sub_cancel] at htail ⊢
      rw [Nat.pow_succ]
      omega

/-- A number whose last byte is zero needs one byte less. This is what the
reader of the long mode looks for when it refuses a spelling. -/
theorem toNat_lt_of_getLast_zero {bs : Bytes} (h : bs.getLast? = some 0) :
    toNat bs < 256 ^ (bs.length - 1) := by
  induction bs with
  | nil => simp at h
  | cons b bs ih =>
    rw [toNat, List.length_cons, Nat.add_sub_cancel]
    cases bs with
    | nil =>
      have hb : b = 0 := by simpa using h
      subst hb
      simp [toNat]
    | cons b' bs =>
      have htail := ih (by simpa using h)
      have hb : b.toNat < 256 := b.toNat_lt
      simp only [List.length_cons, Nat.add_sub_cancel] at htail ⊢
      rw [Nat.pow_succ]
      omega

/-- One byte is the number that it is. -/
theorem ofNat_one (b : UInt8) : ofNat 1 b.toNat = [b] := by
  simpa [toNat] using ofNat_toNat [b]

end Bytes

namespace Codec

/-- How many bytes a number takes in the longest mode, which are never less than
four. -/
theorem compactSize_le_iff (n s : Nat) : compactSize n ≤ s ↔ 4 ≤ s ∧ n < 256 ^ s := by
  have hbits : (Bytes.bitLength n + 7) / 8 ≤ s ↔ Bytes.bitLength n ≤ 8 * s := by omega
  have hpow : (256 : Nat) ^ s = 2 ^ (8 * s) := by rw [Nat.pow_mul]
  rw [compactSize, Nat.max_le, hbits, Bytes.bitLength_le_iff, hpow]

/-- The first of several bytes is read, and the others lie behind it. -/
theorem readByte_of_between {buf : Bytes} {o e : Nat} {b : UInt8} {bs : Bytes}
    (h : Between buf o e (b :: bs)) : readByte buf o = .ok (b, o + 1) ∧ Between buf (o + 1) e bs := by
  obtain ⟨j, hb, hbs⟩ := Between.cons_iff.1 h
  have hj : j = o + 1 := hb.length_eq
  subst hj
  exact ⟨readByte_ok_iff.2 hb, hbs⟩

/-- The least number of bytes is the number of bytes there are, unless one of
them is superfluous. -/
theorem compactSize_toNat {raw : Bytes} (hlen : 4 ≤ raw.length)
    (hlast : 4 < raw.length → raw.getLast? ≠ some 0) : compactSize (Bytes.toNat raw) = raw.length := by
  refine Nat.le_antisymm ((compactSize_le_iff _ _).2 ⟨hlen, Bytes.toNat_lt raw⟩) ?_
  by_cases hfour : raw.length = 4
  · rw [hfour]
    exact Nat.le_max_left _ _
  · refine Nat.le_of_not_lt fun hless => ?_
    have hsmall := ((compactSize_le_iff (Bytes.toNat raw) (raw.length - 1)).1 (by omega)).2
    obtain ⟨last, hsome⟩ : ∃ last, raw.getLast? = some last :=
      ⟨_, List.getLast?_eq_some_getLast (by rintro rfl; simp at hlen)⟩
    have hne : last ≠ 0 := fun h0 => hlast (by omega) (h0 ▸ hsome)
    have hlarge := Bytes.le_toNat_of_getLast hsome hne
    omega

/-- The bytes of the modes that take the number together with the mode. -/
theorem ofNat_mode {raw : Bytes} {b : UInt8} {rest : Bytes} {m : Nat} (hraw : raw = b :: rest)
    (hmode : b.toNat % 4 = m) : Bytes.ofNat raw.length (4 * (Bytes.toNat raw / 4) + m) = raw := by
  have hlow : Bytes.toNat raw % 4 = m := by rw [hraw, Bytes.toNat_mod_four, hmode]
  have hnumber : 4 * (Bytes.toNat raw / 4) + m = Bytes.toNat raw := by omega
  rw [hnumber, Bytes.ofNat_toNat]

/-! ## Modes -/

/-- Bytes that are read as a number, unless they spell a number that they must
not spell. -/
theorem readNumber_ok_iff (value : Bytes → Nat) (refused : Bytes → Prop) [DecidablePred refused]
    {buf : Bytes} {o size n e position : Nat} {f : DecodeFault} :
    (readExact buf o size >>= fun r =>
      if refused r.1 then fault f position else pure (value r.1, r.2)) = .ok (n, e) ↔
      ∃ raw, Between buf o e raw ∧ raw.length = size ∧ ¬ refused raw ∧ value raw = n := by
  rw [bind_ok_iff]
  constructor
  · rintro ⟨⟨raw, j⟩, hread, h⟩
    obtain ⟨hraw, rfl⟩ := readExact_ok_iff.1 hread
    by_cases hrefused : refused raw
    · simp [fault, hrefused] at h
    · obtain ⟨rfl, rfl⟩ : value raw = n ∧ o + size = e := by simpa [pure, Except.pure, hrefused] using h
      have hlen := hraw.length_eq
      exact ⟨raw, hraw, by omega, hrefused, rfl⟩
  · rintro ⟨raw, hraw, rfl, hrefused, rfl⟩
    refine ⟨(raw, e), readExact_ok_iff.2 ⟨hraw, hraw.length_eq⟩, ?_⟩
    simp [pure, Except.pure, hrefused]

/-- No second spelling is accepted. In each of the four modes the reader refuses
numbers that would have fitted into fewer bytes, so the mode is the one that the
writer would choose; and the bytes of a mode determine the number. -/
theorem decodeCompactMode_ok {buf : Bytes} {o n e : Nat} (h : decodeCompactMode buf o = .ok (n, e)) :
    compactSize n ≤ 67 ∧ Between buf o e (compactBytes n) := by
  rw [decodeCompactMode, bind_ok_iff] at h
  obtain ⟨⟨b, i⟩, hread, h⟩ := h
  have hhead := readByte_ok_iff.1 hread
  have hi : i = o + 1 := hhead.length_eq
  subst hi
  have hb : b.toNat < 256 := b.toNat_lt
  dsimp only at h
  -- in the modes of two and four bytes the number lies behind the mode in the same bytes
  have hshort : ∀ {raw : Bytes}, 0 < raw.length → Between buf o e raw →
      Bytes.ofNat raw.length (4 * (Bytes.toNat raw / 4) + b.toNat % 4) = raw := by
    intro raw hpos hraw
    obtain ⟨b', rest, rfl⟩ := List.exists_cons_of_length_pos hpos
    have hfirst := (readByte_of_between hraw).1
    rw [hread] at hfirst
    obtain ⟨rfl, -⟩ : b = b' ∧ o + 1 = o + 1 := by simpa using hfirst
    exact ofNat_mode rfl rfl
  -- The low two bits of the first byte are the mode; in mode zero this byte is all.
  by_cases h0 : b.toNat % 4 = 0
  · rw [if_pos h0] at h
    obtain ⟨rfl, rfl⟩ : b.toNat / 4 = n ∧ o + 1 = e := by simpa [pure, Except.pure] using h
    have hmode : 4 * (b.toNat / 4) = b.toNat := by omega
    refine ⟨(compactSize_le_iff _ _).2 ⟨by omega, by omega⟩, ?_⟩
    rw [compactBytes, if_pos (by omega), hmode, Bytes.ofNat_one]
    exact hhead
  rw [if_neg h0] at h
  by_cases h1 : b.toNat % 4 = 1
  · rw [if_pos h1] at h
    obtain ⟨raw, hraw, hlen, hmin, rfl⟩ := (readNumber_ok_iff (fun raw => Bytes.toNat raw / 4)
      (fun raw => Bytes.toNat raw / 4 < 2 ^ (6 : Nat))).1 h
    have hform := hshort (by omega) hraw
    have hlt := Bytes.toNat_lt raw
    rw [hlen] at hlt
    rw [hlen, h1] at hform
    refine ⟨(compactSize_le_iff _ _).2 ⟨by omega, by omega⟩, ?_⟩
    rw [compactBytes, if_neg hmin, if_pos (by omega), hform]
    exact hraw
  rw [if_neg h1] at h
  by_cases h2 : b.toNat % 4 = 2
  · rw [if_pos h2] at h
    obtain ⟨raw, hraw, hlen, hmin, rfl⟩ := (readNumber_ok_iff (fun raw => Bytes.toNat raw / 4)
      (fun raw => Bytes.toNat raw / 4 < 2 ^ (14 : Nat))).1 h
    have hform := hshort (by omega) hraw
    have hlt := Bytes.toNat_lt raw
    rw [hlen] at hlt
    rw [hlen, h2] at hform
    refine ⟨(compactSize_le_iff _ _).2 ⟨by omega, by omega⟩, ?_⟩
    rw [compactBytes, if_neg (by omega), if_neg hmin, if_pos (by omega), hform]
    exact hraw
  rw [if_neg h2] at h
  obtain ⟨raw, hraw, hlen, hmin, rfl⟩ := (readNumber_ok_iff Bytes.toNat (fun raw =>
    Bytes.toNat raw < 2 ^ (30 : Nat) ∨ 4 < b.toNat / 4 + 4 ∧ raw.getLast? = some 0)).1 h
  -- The last mode counts its bytes in the first one. The reader has refused a zero in the
  -- end, so the number needs all of them.
  have hsize : compactSize (Bytes.toNat raw) = raw.length :=
    compactSize_toNat (by omega) fun hfour hzero => hmin (.inr ⟨by omega, hzero⟩)
  have hmode : 4 * (raw.length - 4) + 3 = b.toNat := by omega
  refine ⟨by omega, ?_⟩
  rw [compactBytes, if_neg (by omega), if_neg (by omega), if_neg (by omega), hsize, hmode,
    Bytes.ofNat_toNat, Bytes.ofNat_one]
  exact hhead.append hraw

/-- No spelling is refused. In the three short modes this is arithmetic of the
two low bits. In the long one a last byte that is zero would be refused, and it
cannot be, as the size of the number counts the bytes that are needed. -/
theorem decodeCompactMode_of_between {buf : Bytes} {o n e : Nat} (hsize : compactSize n ≤ 67)
    (h : Between buf o e (compactBytes n)) : decodeCompactMode buf o = .ok (n, e) := by
  rw [decodeCompactMode, bind_ok_iff]
  have hbyte : ∀ m, (UInt8.ofNat (m % 256)).toNat = m % 256 := by
    intro m
    rw [UInt8.toNat_ofNat']
    omega
  unfold compactBytes at h
  -- The writer picks the mode by size. In each case the reader finds this mode in the
  -- first byte, and the number above it.
  by_cases h6 : n < 2 ^ (6 : Nat)
  · rw [if_pos h6] at h
    have hread := readByte_of_between h
    refine ⟨_, hread.1, ?_⟩
    dsimp only
    rw [hbyte, if_pos (by omega), (Between.nil_iff.1 hread.2).1]
    have hvalue : 4 * n % 256 / 4 = n := by omega
    rw [hvalue]
    rfl
  rw [if_neg h6] at h
  by_cases h14 : n < 2 ^ (14 : Nat)
  · rw [if_pos h14] at h
    refine ⟨_, (readByte_of_between h).1, ?_⟩
    dsimp only
    have hnumber : Bytes.toNat (Bytes.ofNat 2 (4 * n + 1)) / 4 = n := by
      rw [Bytes.toNat_ofNat, Nat.mod_eq_of_lt (by omega)]
      omega
    rw [hbyte, if_neg (by omega), if_pos (by omega)]
    exact (readNumber_ok_iff (fun raw => Bytes.toNat raw / 4) (fun raw => Bytes.toNat raw / 4 < 2 ^ (6 : Nat))).2
      ⟨_, h, Bytes.length_ofNat 2 _, by rwa [hnumber], hnumber⟩
  rw [if_neg h14] at h
  by_cases h30 : n < 2 ^ (30 : Nat)
  · rw [if_pos h30] at h
    refine ⟨_, (readByte_of_between h).1, ?_⟩
    dsimp only
    have hnumber : Bytes.toNat (Bytes.ofNat 4 (4 * n + 2)) / 4 = n := by
      rw [Bytes.toNat_ofNat, Nat.mod_eq_of_lt (by omega)]
      omega
    rw [hbyte, if_neg (by omega), if_neg (by omega), if_pos (by omega)]
    exact (readNumber_ok_iff (fun raw => Bytes.toNat raw / 4) (fun raw => Bytes.toNat raw / 4 < 2 ^ (14 : Nat))).2
      ⟨_, h, Bytes.length_ofNat 4 _, by rwa [hnumber], hnumber⟩
  rw [if_neg h30] at h
  have hread : readByte buf o = .ok (UInt8.ofNat ((4 * (compactSize n - 4) + 3) % 256), o + 1) ∧
      Between buf (o + 1) e (Bytes.ofNat (compactSize n) n) := readByte_of_between h
  obtain ⟨hfour, hlt⟩ := (compactSize_le_iff n _).1 (Nat.le_refl (compactSize n))
  refine ⟨_, hread.1, ?_⟩
  dsimp only
  have hnumber : Bytes.toNat (Bytes.ofNat (compactSize n) n) = n := by
    rw [Bytes.toNat_ofNat, Nat.mod_eq_of_lt hlt]
  have hlen : (4 * (compactSize n - 4) + 3) % 256 / 4 + 4 = compactSize n := by omega
  rw [hbyte, if_neg (by omega), if_neg (by omega), if_neg (by omega), hlen]
  refine (readNumber_ok_iff Bytes.toNat (fun raw =>
    Bytes.toNat raw < 2 ^ (30 : Nat) ∨ 4 < compactSize n ∧ raw.getLast? = some 0)).2
      ⟨_, hread.2, Bytes.length_ofNat _ _, ?_, hnumber⟩
  rintro (hsmall | ⟨hlarge, hzero⟩)
  · omega
  · -- a last byte that is zero would make the number fit into one byte less
    have hless := Bytes.toNat_lt_of_getLast_zero hzero
    rw [hnumber, Bytes.length_ofNat] at hless
    have hsmaller := (compactSize_le_iff n (compactSize n - 1)).2 ⟨by omega, hless⟩
    omega

/-- **The compact form is read exactly where it is written.** -/
theorem decodeCompactMode_ok_iff {buf : Bytes} {o n e : Nat} :
    decodeCompactMode buf o = .ok (n, e) ↔ compactSize n ≤ 67 ∧ Between buf o e (compactBytes n) :=
  ⟨decodeCompactMode_ok, fun h => decodeCompactMode_of_between h.1 h.2⟩

end Codec

end ContractClient
