/-
What a failure is about.

A value that does not fit its codec is refused by the step at which it stops
fitting, and bytes that are no encoding by the step that reads them. Other
failures are not about values or bytes: a name that leads nowhere, references
that are followed without end, instances and classes that do not have the same
attributes. Codecs that are grounded, where every reference leads to the codec
of a class, leave few of those.

Encoding goes down the value. Every part of a value is less deep, except behind
an option or a reference; but a reference leads to a class, and the attributes
of an instance are less deep again. So encoding always ends, and what is left
beside refusals is a text with a surrogate, which UTF-8 cannot write, and
an instance without an attribute that the codec asks for. Decoding may go around
in circles without reading a byte, and this is left too.
-/
import ContractClient.Proofs.Scale.RoundTrip

set_option autoImplicit false

namespace ContractClient

/-- Whether an error says that a value does not fit its codec. The others say
that a text holds a surrogate, that an instance lacks an attribute or that
references lead nowhere. -/
def EncodeError.isRefusal : EncodeError → Bool
  | .surrogate _ | .noAttribute _ _ | .undeclared _ | .endless _ => false
  | _ => true

/-- Whether an error says what is wrong with bytes. -/
def DecodeError.isFault : DecodeError → Bool
  | .malformed _ _ => true
  | _ => false

namespace Codec

open Relation

/-! ## Grounded codecs -/

/-- Whether a codec is that of a class. -/
def isClass : Codec → Bool
  | .struct _ _ | .enum _ _ => true
  | _ => false

/-- Whether a reference leads to the codec of a class, and a thirty-two bytes
type is asked for thirty-two bytes. -/
def Grounded (env : Environment) : Codec → Prop
  | .fixedBytes length (some _) => length = 32
  | .ref name => ∃ c, env.codec? name = some c ∧ c.isClass = true
  | _ => True

/-! ## Encoding leaves -/

/-- The attributes that a codec asks of the instances of a class. -/
def asks (cls : String) : Codec → List String
  | .struct _ fields => fields.map (·.1)
  | .enum _ arms => ((armOf? arms cls).map fun arm => arm.2.2.map (·.1)).getD []
  | _ => []

/-- Whether an error refuses a value, or says of a text inside of it that it
holds a surrogate where it has to be written as UTF-8, or of an instance inside
of it that it lacks an attribute that its codec asks for. -/
def Refuses (env : Environment) (p : Codec × Value) (e : EncodeError) : Prop :=
  e.isRefusal = true ∨
  (∃ t, ReflTransGen (PartOf env) p (.str, .brokenStr t) ∧ e = .surrogate t) ∨
  ∃ c cls attributes name, ReflTransGen (PartOf env) p (c, .instance cls attributes) ∧
    name ∈ c.asks cls ∧ name ∉ attributes.map (·.1) ∧ e = .noAttribute cls name

/-- What is refused for a part is refused for the whole, and for the same
reason. -/
theorem Refuses.of_part {env : Environment} {p q : Codec × Value} (hpart : PartOf env p q) (e : EncodeError)
    (h : Refuses env q e) : Refuses env p e := by
  rcases h with hrefusal | ⟨t, hinside, he⟩ | ⟨c, cls, attributes, name, hinside, hlacks⟩
  · exact .inl hrefusal
  · exact .inr (.inl ⟨t, .head hpart hinside, he⟩)
  · exact .inr (.inr ⟨c, cls, attributes, name, .head hpart hinside, hlacks⟩)

section

variable {deref : EncodeDeref} {P : EncodeError → Prop}

end

section

variable {env : Environment} {v : Value}

end

/-- Whether an outcome is a value or a fault of the bytes. -/
abbrev Faulted {α : Type} (r : Except DecodeError α) : Prop :=
  FailsAs (fun e => e.isFault = true) r

section

variable (buf : Bytes) (o : Nat)

/-- Bytes are read, or the buffer is at fault. -/
theorem readExact_faulted (n : Nat) : Faulted (readExact buf o n) := by
  unfold readExact
  split
  · exact .ok _
  · exact .error rfl

/-- One byte is taken from the buffer, or the buffer is at fault. -/
theorem readByte_faulted : Faulted (readByte buf o) :=
  (readExact_faulted buf o 1).bind fun _ _ => .ok _

/-- A compact integer of any length is taken from the buffer, or the buffer is
at fault: it is too short, or the integer could have been written in fewer
bytes. -/
theorem decodeCompactMode_faulted : Faulted (decodeCompactMode buf o) := by
  unfold decodeCompactMode
  refine (readByte_faulted buf o).bind fun head _ => ?_
  -- In every mode but the first more bytes are read, and refused if they hold too small a
  -- number.
  dsimp only
  split
  · exact .ok _
  split
  · refine (readExact_faulted _ _ _).bind fun raw _ => ?_
    split
    · exact .error rfl
    · exact .ok _
  split
  · refine (readExact_faulted _ _ _).bind fun raw _ => ?_
    split
    · exact .error rfl
    · exact .ok _
  · refine (readExact_faulted _ _ _).bind fun raw _ => ?_
    split
    · exact .error rfl
    · exact .ok _

/-- A compact integer with a bound is taken from the buffer, or the buffer is at
fault: in addition the integer may exceed the bound. -/
theorem decodeCompact_faulted (bound : Option Nat) : Faulted (decodeCompact bound buf o) := by
  unfold decodeCompact
  refine (decodeCompactMode_faulted buf o).bind fun r _ => ?_
  dsimp only
  split
  · exact .error rfl
  · exact .ok _

/-- **Leaves only find fault with bytes**, if a thirty-two bytes type is asked
for thirty-two of them. With another length the wrapper for the type would
refuse what was read, with an error that is not one of decoding. -/
theorem decodeLeaf_faulted {c : Codec} (hleaf : c.isLeaf = true) {env : Environment} (hground : c.Grounded env) :
    Faulted (decodeLeaf c buf o) := by
  unfold decodeLeaf
  cases c with
  | bool =>
    simp only [decodeWith]
    refine (readByte_faulted buf o).bind fun r _ => ?_
    split
    · exact .ok _
    · exact .error rfl
  | int size signed =>
    simp only [decodeWith]
    exact (readExact_faulted _ _ _).bind fun _ _ => .ok _
  | compact bound =>
    simp only [decodeWith]
    exact (decodeCompact_faulted _ _ _).bind fun _ _ => .ok _
  | str =>
    simp only [decodeWith, decodeStr]
    refine (decodeCompact_faulted _ _ _).bind fun n _ => (readExact_faulted _ _ _).bind fun raw _ => ?_
    split
    · exact .ok _
    · exact .error rfl
  | char =>
    simp only [decodeWith, decodeChar]
    refine (readExact_faulted _ _ _).bind fun raw _ => ?_
    split
    · exact .ok _
    · exact .error rfl
  | bytes =>
    simp only [decodeWith]
    exact (decodeCompact_faulted _ _ _).bind fun n _ => (readExact_faulted _ _ _).bind fun _ _ => .ok _
  | fixedBytes length newtype =>
    simp only [decodeWith, decodeFixedBytes]
    refine (readExact_faulted _ _ _).bind fun raw hraw => ?_
    cases newtype with
    | none => exact .ok _
    | some kind =>
      -- The bytes that were read are as many as the type has.
      have hlen : raw.1.length = 32 := by
        obtain ⟨hbetween, hend⟩ := readExact_ok_iff.1 hraw
        have hlength := hbetween.length_eq
        have hground : length = 32 := hground
        omega
      dsimp only
      rw [Newtype.ofBytes, if_pos hlen]
      exact .ok _
  | _ => cases hleaf

end

/-! ## Decoding -/

/-- Whether an error says that the bytes are wrong, that a class has other
attributes than its codec has fields, or that references were followed
without end. -/
def Faults (e : DecodeError) : Prop :=
  e.isFault = true ∨ (∃ cls name, e = .shapeMismatch cls name) ∨ ∃ n, e = .endless n

/-- A fault of the bytes is one of the three. -/
theorem Faults.of_faulted {α : Type} {r : Except DecodeError α} (h : Faulted r) : FailsAs Faults r :=
  h.imp fun _ hfault => .inl hfault

section

variable {deref : Deref} {buf : Bytes}

/-- A tuple fails in a way if its parts do, wherever reading it gets to. The
property `Q` of offsets stands for where reading gets to, such as being within
the buffer. -/
theorem decodeTuple_failsAs {P : DecodeError → Prop} {Q : Nat → Prop} {codecs : List Codec}
    (hends : ∀ c ∈ codecs, ∀ i v e, Q i → decodeWith deref c buf i = .ok (v, e) → Q e)
    (h : ∀ c ∈ codecs, ∀ i, Q i → FailsAs P (decodeWith deref c buf i)) {o : Nat} (ho : Q o) :
    FailsAs P (decodeTuple deref codecs buf o) := by
  induction codecs generalizing o with
  | nil =>
    rw [decodeTuple_nil]
    exact .ok _
  | cons c codecs ih =>
    obtain ⟨hhead, htail⟩ := List.forall_mem_cons.1 h
    obtain ⟨hfirst, hothers⟩ := List.forall_mem_cons.1 hends
    rw [decodeTuple_cons]
    refine (hhead o ho).bind ?_
    rintro ⟨v, e⟩ hv
    exact (ih hothers htail (hfirst o v e ho hv)).map _

end

end Codec

end ContractClient
