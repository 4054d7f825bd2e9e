/-
Hexadecimal text and the bytes in it.

What is written reads back. What is read may be written in several ways: digits
have two cases, and blanks may stand between the bytes. Without blanks it is
digits only, two for each byte.
-/
import ContractClient.Bytes.Hex

set_option autoImplicit false

namespace ContractClient.Bytes

/-! ## Digits -/

/-- A digit that was written is read back. -/
theorem hexValue?_hexDigit {n : Nat} (h : n < 16) : hexValue? (hexDigit n) = some n := by
  have hall : ∀ i : Fin 16, hexValue? (hexDigit i) = some i.val := by decide
  exact hall ⟨n, h⟩

/-- No blank is a digit, so what the reader skips it could not have read. A
blank is a space or a control character, and these come before all digits. -/
theorem isHexBlank_of_hexValue? {c : Char} (h : (hexValue? c).isSome) : isHexBlank c = false := by
  -- Every digit comes after the blanks.
  have hrange : '0'.toNat ≤ c.toNat := by
    unfold hexValue? at h
    split at h
    next hc => exact UInt32.le_iff_toNat_le.1 (Char.le_def.1 hc.1)
    split at h
    next hc => exact Nat.le_trans (by decide) (UInt32.le_iff_toNat_le.1 (Char.le_def.1 hc.1))
    split at h
    next hc => exact Nat.le_trans (by decide) (UInt32.le_iff_toNat_le.1 (Char.le_def.1 hc.1))
    cases h
  have hzero : '0'.toNat = 0x30 := rfl
  have hspace : (c == ' ') = false := by
    rw [beq_eq_false_iff_ne]
    rintro rfl
    exact absurd hrange (by decide)
  rw [isHexBlank, hspace, Bool.false_or, Bool.and_eq_false_iff, decide_eq_false_iff_not, decide_eq_false_iff_not]
  exact .inr (by omega)

/-- Whether a list consists of hexadecimal digits. -/
def HexDigits (cs : List Char) : Prop :=
  ∀ c ∈ cs, (hexValue? c).isSome

/-- The two digits of a byte are digits. -/
theorem hexDigits_hexPair (b : UInt8) : HexDigits (hexPair b) := by
  have hb := b.toNat_lt
  have hhigh := hexValue?_hexDigit (n := b.toNat / 16) (by omega)
  have hlow := hexValue?_hexDigit (n := b.toNat % 16) (by omega)
  simp [HexDigits, hexPair, hhigh, hlow]

/-! ## Writing and reading -/

/-- Bytes are written as two digits each. -/
theorem toList_toHex (bs : Bytes) : (toHex bs).toList = bs.flatMap hexPair :=
  String.toList_ofList

/-- What is written in hexadecimal are digits only. -/
theorem hexDigits_toHex (bs : Bytes) : HexDigits (toHex bs).toList := by
  rw [HexDigits, toList_toHex, List.forall_mem_flatMap]
  exact fun b _ => hexDigits_hexPair b

/-- There are twice as many digits as bytes. -/
theorem length_toHex (bs : Bytes) : (toHex bs).toList.length = 2 * bs.length := by
  rw [toList_toHex]
  induction bs with
  | nil => rfl
  | cons b bs ih =>
    rw [List.flatMap_cons, List.length_append, ih, List.length_cons, hexPair, List.length_cons, List.length_singleton]
    omega

/-- Behind the prefix the digits are found again. -/
theorem after0x?_toHex0x (bs : Bytes) : after0x? (toHex0x bs) = some (toHex bs) := by
  have hcs : (toHex0x bs).toList = '0' :: 'x' :: (toHex bs).toList := by simp [toHex0x]
  rw [after0x?, hcs]
  exact congrArg some String.ofList_toList

/-- What is read after the marker is all of the text but the marker. -/
theorem toList_of_after0x? {s digits : String} (h : after0x? s = some digits) :
    ∃ x, (x = 'x' ∨ x = 'X') ∧ s.toList = '0' :: x :: digits.toList := by
  unfold after0x? at h
  split at h
  next cs hs =>
    cases h
    exact ⟨'x', .inl rfl, by rw [hs, String.toList_ofList]⟩
  next cs hs =>
    cases h
    exact ⟨'X', .inr rfl, by rw [hs, String.toList_ofList]⟩
  · cases h

/-- **What is written reads back.** Each byte was written as two digits, which
are read as this byte, and no blank was written. -/
theorem ofHex?_toHex (bs : Bytes) : ofHex? (toHex bs) = some bs := by
  rw [ofHex?, toList_toHex]
  induction bs with
  | nil => rfl
  | cons b bs ih =>
    have hb := b.toNat_lt
    have hhigh := hexValue?_hexDigit (n := b.toNat / 16) (by omega)
    have hlow := hexValue?_hexDigit (n := b.toNat % 16) (by omega)
    have hblank := isHexBlank_of_hexValue? (Option.isSome_iff_exists.2 ⟨_, hhigh⟩)
    have hbyte : UInt8.ofNat (16 * (b.toNat / 16) + b.toNat % 16) = b := by
      rw [Nat.div_add_mod, UInt8.ofNat_toNat]
    rw [List.flatMap_cons, hexPair, List.cons_append, List.cons_append, List.nil_append, ofHexDigits?, hblank, hhigh,
      hlow, ih]
    exact congrArg (fun x => some (x :: bs)) hbyte

/-- **What is read without blanks** are digits, two for each byte. The reader
takes two characters at a time, so the induction is along the reader. -/
theorem hexDigits_of_ofHexDigits? {cs : List Char} {bs : Bytes} (h : ofHexDigits? cs = some bs)
    (hblank : ∀ c ∈ cs, isHexBlank c = false) : HexDigits cs ∧ cs.length = 2 * bs.length := by
  fun_induction ofHexDigits? cs generalizing bs with
  | case1 =>
    cases h
    exact ⟨fun _ hc => absurd hc List.not_mem_nil, rfl⟩
  | case2 c hc => exact absurd hc (by simp [hblank c List.mem_cons_self])
  | case3 c hc => cases h
  | case4 c d rest hc ih => exact absurd hc (by simp [hblank c List.mem_cons_self])
  | case5 c d rest hc ih =>
    simp only [Option.bind_eq_bind, Option.bind_eq_some_iff, Option.pure_def, Option.some.injEq] at h
    obtain ⟨high, hhigh, low, hlow, bytes, hbytes, rfl⟩ := h
    obtain ⟨hdigits, hlength⟩ :=
      ih hbytes fun c hc => hblank c (List.mem_cons_of_mem _ (List.mem_cons_of_mem _ hc))
    refine ⟨List.forall_mem_cons.2 ⟨by simp [hhigh], List.forall_mem_cons.2 ⟨by simp [hlow], hdigits⟩⟩, ?_⟩
    simp only [List.length_cons, hlength]
    omega

end ContractClient.Bytes
