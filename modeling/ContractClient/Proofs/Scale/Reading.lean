/-
What lies between two offsets.

Encoding writes byte strings and decoding reads a buffer at an offset, so every
statement that ties the two together has to say where in the buffer the bytes
lie. `Between buf o e bs` says it: the bytes of `buf` from offset `o` to offset
`e` are `bs`, and both offsets are within the buffer. It splits along `++`,
which is how every sequence of parts is read, and `readExact` and `readByte`,
through which all reading goes, succeed exactly where it holds.
-/
import ContractClient.Scale.Decode
import ContractClient.Scale.Encode

set_option autoImplicit false

namespace ContractClient

/-! ## Segments of a buffer -/

/-- The bytes of a buffer from one offset to another. -/
def Between (buf : Bytes) (o e : Nat) (bs : Bytes) : Prop :=
  o ≤ e ∧ e ≤ buf.length ∧ (buf.drop o).take (e - o) = bs

namespace Between

variable {buf : Bytes} {o e j : Nat} {bs bs₁ bs₂ : Bytes}

/-- Bytes between two offsets are as many as the offsets are apart. -/
theorem length_eq (h : Between buf o e bs) : e = o + bs.length := by
  obtain ⟨hoe, he, rfl⟩ := h
  rw [List.length_take, List.length_drop]
  omega

/-- The offset in front of bytes that stand in a buffer is within the buffer. -/
theorem offset_le (h : Between buf o e bs) : o ≤ buf.length :=
  Nat.le_trans h.1 h.2.1

/-- Where no byte lies between two offsets they are equal. -/
theorem nil_iff : Between buf o e [] ↔ o = e ∧ o ≤ buf.length := by
  constructor
  · intro h
    have heq := h.length_eq
    rw [List.length_nil] at heq
    exact ⟨by omega, h.offset_le⟩
  · rintro ⟨rfl, ho⟩
    exact ⟨Nat.le_refl _, ho, by simp⟩

/-- The bytes between two offsets are determined. -/
theorem unique (h₁ : Between buf o e bs₁) (h₂ : Between buf o e bs₂) : bs₁ = bs₂ :=
  h₁.2.2.symm.trans h₂.2.2

/-- A prefix of what lies behind an offset, in the form in which the reader
takes it. -/
theorem drop_eq (h : Between buf o e bs) : buf.drop o = bs ++ buf.drop e := by
  obtain ⟨hoe, he, rfl⟩ := h
  have hdrop : buf.drop e = (buf.drop o).drop (e - o) := by
    rw [List.drop_drop]
    congr 1
    omega
  rw [hdrop, List.take_append_drop]

/-- What a buffer goes on with stands in it. -/
theorem of_drop_eq (ho : o ≤ buf.length) (h : buf.drop o = bs ++ buf.drop e) (he : e = o + bs.length) :
    Between buf o e bs := by
  have hlen := congrArg List.length h
  rw [List.length_drop, List.length_append, List.length_drop] at hlen
  refine ⟨by omega, by omega, ?_⟩
  rw [h, List.take_append_of_le_length (by omega), List.take_of_length_le (by omega)]

/-- **Splitting.** Two byte strings lie behind each other exactly if an offset
separates them. -/
theorem append_iff : Between buf o e (bs₁ ++ bs₂) ↔ ∃ j, Between buf o j bs₁ ∧ Between buf j e bs₂ := by
  constructor
  · intro h
    have hdrop := h.drop_eq
    have he := h.length_eq
    have hbound := h.2.1
    rw [List.length_append] at he
    rw [List.append_assoc] at hdrop
    have htail : buf.drop (o + bs₁.length) = bs₂ ++ buf.drop e := by
      rw [← List.drop_drop, hdrop, List.drop_left]
    refine ⟨o + bs₁.length, of_drop_eq h.offset_le ?_ rfl, of_drop_eq (by omega) htail (by omega)⟩
    rw [hdrop, htail]
  · rintro ⟨j, h₁, h₂⟩
    refine of_drop_eq h₁.offset_le ?_ ?_
    · rw [h₁.drop_eq, h₂.drop_eq, List.append_assoc]
    · rw [h₂.length_eq, h₁.length_eq, List.length_append, Nat.add_assoc]

/-- The first of several bytes lies before the others. -/
theorem cons_iff {b : UInt8} : Between buf o e (b :: bs) ↔ ∃ j, Between buf o j [b] ∧ Between buf j e bs := by
  rw [← List.singleton_append, append_iff]

/-- Bytes stand together if the one stand behind the other. -/
theorem append (h₁ : Between buf o j bs₁) (h₂ : Between buf j e bs₂) : Between buf o e (bs₁ ++ bs₂) :=
  append_iff.2 ⟨j, h₁, h₂⟩

/-- What is written between a prefix and a suffix lies between their offsets. -/
theorem middle (p bs s : Bytes) : Between (p ++ bs ++ s) p.length (p.length + bs.length) bs := by
  refine ⟨by omega, ?_, ?_⟩
  · simp only [List.length_append]
    omega
  · rw [List.append_assoc, List.drop_left, Nat.add_sub_cancel_left, List.take_left]

/-- From the start to the end lies the buffer. -/
theorem whole_iff : Between buf 0 buf.length bs ↔ buf = bs := by
  rw [Between, List.drop_zero, Nat.sub_zero, List.take_length]
  simp

/-- Bytes that are put behind a buffer move nothing in it. -/
theorem append_right (h : Between buf o e bs) (s : Bytes) : Between (buf ++ s) o e bs := by
  obtain ⟨hoe, he, rfl⟩ := h
  refine ⟨hoe, ?_, ?_⟩
  · rw [List.length_append]
    omega
  · have hroom : e - o ≤ (buf.drop o).length := by
      rw [List.length_drop]
      omega
    rw [List.drop_append_of_le_length (by omega), List.take_append_of_le_length hroom]

end Between

namespace Codec

/-- Reading succeeds exactly where there are bytes to read. All other readers
are made of this one, and what they say of offsets comes from here. -/
theorem readExact_ok_iff {buf : Bytes} {o n e : Nat} {bs : Bytes} :
    readExact buf o n = .ok (bs, e) ↔ Between buf o e bs ∧ e = o + n := by
  unfold readExact
  by_cases h : o + n ≤ buf.length
  · rw [if_pos h]
    constructor
    · rintro ⟨⟩
      exact ⟨⟨by omega, h, by rw [Nat.add_sub_cancel_left]⟩, rfl⟩
    · rintro ⟨hbetween, rfl⟩
      have hbs := hbetween.2.2
      rw [Nat.add_sub_cancel_left] at hbs
      rw [hbs]
  · rw [if_neg h]
    constructor
    · rintro ⟨⟩
    · rintro ⟨hbetween, rfl⟩
      exact absurd hbetween.2.1 h

/-- A byte is read exactly if it stands there. A byte is read as a string of one
byte, of which the first is taken; that there is a first one follows from its
length. -/
theorem readByte_ok_iff {buf : Bytes} {o e : Nat} {b : UInt8} :
    readByte buf o = .ok (b, e) ↔ Between buf o e [b] := by
  -- The byte is the first of a string of length one.
  have hunfold : readByte buf o = (readExact buf o 1).map fun r => (r.1.headD 0, r.2) := by
    unfold readByte
    cases readExact buf o 1 <;> rfl
  rw [hunfold]
  constructor
  · intro h
    cases hread : readExact buf o 1 with
    | error x => simp [hread, Except.map] at h
    | ok r =>
      obtain ⟨bs, i⟩ := r
      simp only [hread, Except.map, Except.ok.injEq, Prod.mk.injEq] at h
      obtain ⟨rfl, rfl⟩ := h
      obtain ⟨hbetween, hi⟩ := readExact_ok_iff.1 hread
      have hlen := hbetween.length_eq
      obtain ⟨b, rfl⟩ : ∃ b, bs = [b] := List.length_eq_one_iff.1 (by omega)
      exact hbetween
  · intro h
    have he : e = o + 1 := h.length_eq
    rw [readExact_ok_iff.2 ⟨h, he⟩]
    rfl

end Codec

end ContractClient
