/-
Codecs of one form.

Two codecs are of one form if they are made by the same constructor, with the
same classes, names, lengths and indices, and differ in their parts only. What
relates the parts then relates the codecs. The relation that is of use here is
that of success: whatever the first way of decoding accepts, the second one
accepts as well, with the same value and the same end. It is an order and says
nothing about failures, so it holds between ways of decoding that follow
references to different extents or under different names.

Offsets behind the buffer are left out. Nothing of any length is read there, and
whether nothing at all is, depends on who asks.
-/
import ContractClient.Proofs.Scale.Leaves

set_option autoImplicit false

namespace ContractClient.Codec

/-- A way of decoding. -/
abbrev Decoder := Bytes → Nat → Except DecodeError (Value × Nat)

/-- Whether what `f` decodes within a buffer ends there and is what `g`
decodes. -/
def Below (f g : Decoder) : Prop :=
  ∀ buf o v e, o ≤ buf.length → f buf o = .ok (v, e) → e ≤ buf.length ∧ g buf o = .ok (v, e)

/-! ## Forms -/

/-- Whether fields have the same names and related codecs. -/
def SameFields (R : Codec → Codec → Prop) (fields fields' : List (String × Codec)) : Prop :=
  fields.map (·.1) = fields'.map (·.1) ∧ List.Forall₂ R (fields.map (·.2)) (fields'.map (·.2))

/-- Whether codecs are made in the same way from related parts. The name of an
enum only serves messages. -/
inductive SameForm (R : Codec → Codec → Prop) : Codec → Codec → Prop
  | leaf {c : Codec} (hleaf : c.isLeaf = true) : SameForm R c c
  | seq {c d : Codec} (h : R c d) : SameForm R (.seq c) (.seq d)
  | array {c d : Codec} {length : Nat} (h : R c d) : SameForm R (.array c length) (.array d length)
  | tuple {cs ds : List Codec} (h : List.Forall₂ R cs ds) : SameForm R (.tuple cs) (.tuple ds)
  | option {c d : Codec} (h : R c d) : SameForm R (.option c) (.option d)
  | result {c d c' d' : Codec} (hok : R c d) (herr : R c' d') : SameForm R (.result c c') (.result d d')
  | struct {shape : Shape} {fields fields' : List (String × Codec)} (h : SameFields R fields fields') :
      SameForm R (.struct shape fields) (.struct shape fields')
  | enum {base base' : String} {arms arms' : List Arm}
      (h : List.Forall₂ (fun a b => a.1 = b.1 ∧ a.2.1 = b.2.1 ∧ SameFields R a.2.2 b.2.2) arms arms') :
      SameForm R (.enum base arms) (.enum base' arms')

namespace SameFields

variable {R S : Codec → Codec → Prop} {fields fields' : List (String × Codec)}

theorem imp (h : SameFields R fields fields') (hRS : ∀ c d, R c d → S c d) : SameFields S fields fields' :=
  ⟨h.1, h.2.imp hRS⟩

theorem flip (h : SameFields R fields fields') : SameFields (fun c d => R d c) fields' fields :=
  ⟨h.1.symm, h.2.flip⟩

end SameFields

namespace SameForm

variable {R S : Codec → Codec → Prop} {c d : Codec}

theorem imp (h : SameForm R c d) (hRS : ∀ c d, R c d → S c d) : SameForm S c d := by
  cases h with
  | leaf hleaf => exact .leaf hleaf
  | seq h => exact .seq (hRS _ _ h)
  | array h => exact .array (hRS _ _ h)
  | tuple h => exact .tuple (h.imp hRS)
  | option h => exact .option (hRS _ _ h)
  | result hok herr => exact .result (hRS _ _ hok) (hRS _ _ herr)
  | struct h => exact .struct (h.imp hRS)
  | enum h => exact .enum (h.imp fun _ _ harm => ⟨harm.1, harm.2.1, harm.2.2.imp hRS⟩)

theorem flip (h : SameForm R c d) : SameForm (fun c d => R d c) d c := by
  cases h with
  | leaf hleaf => exact .leaf hleaf
  | seq h => exact .seq h
  | array h => exact .array h
  | tuple h => exact .tuple h.flip
  | option h => exact .option h
  | result hok herr => exact .result hok herr
  | struct h => exact .struct h.flip
  | enum h => exact .enum (h.flip.imp fun _ _ harm => ⟨harm.1.symm, harm.2.1.symm, harm.2.2.flip⟩)

end SameForm

/-! ## What the parts accept, the codecs accept -/

section

variable {deref deref' : Deref}

/-- What is read of one tuple within a buffer is read of the other, and ends
within it. That it does is what the next part needs. -/
theorem decodeTuple_below {cs ds : List Codec}
    (h : List.Forall₂ (fun c d => Below (decodeWith deref c) (decodeWith deref' d)) cs ds) {buf : Bytes}
    {o e : Nat} {vs : List Value} (ho : o ≤ buf.length) (hdecode : decodeTuple deref cs buf o = .ok (vs, e)) :
    e ≤ buf.length ∧ decodeTuple deref' ds buf o = .ok (vs, e) := by
  induction h generalizing o vs with
  | nil =>
    rw [decodeTuple_nil] at hdecode ⊢
    cases hdecode
    exact ⟨ho, rfl⟩
  | cons hhead _ ih =>
    obtain ⟨v, i, rest, hv, hrest, rfl⟩ := decodeTuple_cons_ok_iff.1 hdecode
    obtain ⟨hi, hv'⟩ := hhead buf o v i ho hv
    obtain ⟨he, hrest'⟩ := ih hi hrest
    exact ⟨he, decodeTuple_cons_ok_iff.2 ⟨v, i, rest, hv', hrest', rfl⟩⟩

/-- The same for copies of one part. -/
theorem decodeCopies_below {c d : Codec} (h : Below (decodeWith deref c) (decodeWith deref' d)) {n : Nat}
    {buf : Bytes} {o e : Nat} {vs : List Value} (ho : o ≤ buf.length)
    (hdecode : decodeTuple deref (List.replicate n c) buf o = .ok (vs, e)) :
    e ≤ buf.length ∧ decodeTuple deref' (List.replicate n d) buf o = .ok (vs, e) := by
  refine decodeTuple_below ?_ ho hdecode
  rw [List.forall₂_iff_get]
  simpa using fun _ _ => h

/-- Records with the same class and related fields: the instances are made of
the same attributes. -/
theorem decodeRecord_below {shape : Shape} {fields fields' : List (String × Codec)}
    (h : SameFields (fun c d => Below (decodeWith deref c) (decodeWith deref' d)) fields fields') {buf : Bytes}
    {o e : Nat} {v : Value} (ho : o ≤ buf.length)
    (hdecode : decodeRecord deref buf shape fields o = .ok (v, e)) :
    e ≤ buf.length ∧ decodeRecord deref' buf shape fields' o = .ok (v, e) := by
  obtain ⟨vs, hvs, hinstance⟩ := decodeRecord_ok_iff.1 hdecode
  obtain ⟨he, hvs'⟩ := decodeTuple_below h.2 ho hvs
  exact ⟨he, decodeRecord_ok_iff.2 ⟨vs, hvs', h.1 ▸ hinstance⟩⟩

/-- The first arm of an index is at the same place in both enums. Related arms
have one index, so a search by the index stops at related arms. -/
theorem find?_arm_of_forall₂ {P : Arm → Arm → Prop} {arms arms' : List Arm} (h : List.Forall₂ P arms arms')
    (hindex : ∀ a b, P a b → a.1 = b.1) {tag : Nat} {arm : Arm}
    (hfind : (arms.find? fun arm => arm.1 == tag) = some arm) :
    ∃ arm', (arms'.find? fun arm => arm.1 == tag) = some arm' ∧ P arm arm' := by
  induction h with
  | nil => cases hfind
  | @cons a b _ _ hab _ ih =>
    by_cases htag : a.1 = tag
    · rw [List.find?_cons_of_pos (by simpa using htag)] at hfind
      cases hfind
      exact ⟨b, List.find?_cons_of_pos (by simpa [← hindex _ _ hab] using htag), hab⟩
    · rw [List.find?_cons_of_neg (by simpa using htag)] at hfind
      obtain ⟨arm', hfind', hP⟩ := ih hfind
      exact ⟨arm', by rw [List.find?_cons_of_neg (by simpa [← hindex _ _ hab] using htag)]; exact hfind', hP⟩

/-- **What the parts accept, codecs of one form accept.** Nothing but the parts
may differ, so each case reads on one side and puts together on the other; the
bounds on offsets are needed for the sequence, which compares its count with
what is left. -/
theorem below_of_sameForm {c d : Codec}
    (h : SameForm (fun c d => Below (decodeWith deref c) (decodeWith deref' d)) c d) :
    Below (decodeWith deref c) (decodeWith deref' d) := by
  intro buf o v e ho hdecode
  cases h with
  | leaf hleaf =>
    rw [decodeWith_leaf hleaf] at hdecode ⊢
    obtain ⟨bs, hbetween, -⟩ := encodeLeaf_of_decodeLeaf hleaf hdecode
    exact ⟨hbetween.2.1, hdecode⟩
  | seq hpart =>
    obtain ⟨n, i, hcount, hcases⟩ := decodeWith_seq_ok_iff.1 hdecode
    obtain ⟨-, -, -, hi, -⟩ := decodeCount_ok_iff.1 hcount
    obtain ⟨hlarge, hn, rfl, w, hprobe, rfl⟩ | ⟨hsmall, vs, hvs, rfl⟩ := hcases
    -- The probe is related like any item, and it ends at the same offset.
    · obtain ⟨he, hprobe'⟩ := hpart buf i w i hi hprobe
      exact ⟨he, decodeWith_seq_ok_iff.2 ⟨n, i, hcount, .inl ⟨hlarge, hn, rfl, w, hprobe', rfl⟩⟩⟩
    · obtain ⟨he, hvs'⟩ := decodeCopies_below hpart hi hvs
      exact ⟨he, decodeWith_seq_ok_iff.2 ⟨n, i, hcount, .inr ⟨hsmall, vs, hvs', rfl⟩⟩⟩
  | array hpart =>
    obtain ⟨vs, hvs, rfl⟩ := decodeWith_array_ok_iff.1 hdecode
    obtain ⟨he, hvs'⟩ := decodeCopies_below hpart ho hvs
    exact ⟨he, decodeWith_array_ok_iff.2 ⟨vs, hvs', rfl⟩⟩
  | tuple hparts =>
    obtain ⟨vs, hvs, rfl⟩ := decodeWith_tuple_ok_iff.1 hdecode
    obtain ⟨he, hvs'⟩ := decodeTuple_below hparts ho hvs
    exact ⟨he, decodeWith_tuple_ok_iff.2 ⟨vs, hvs', rfl⟩⟩
  | option hpart =>
    obtain ⟨htag, rfl⟩ | ⟨i, htag, hinner⟩ := decodeWith_option_ok_iff.1 hdecode
    · exact ⟨htag.2.1, decodeWith_option_ok_iff.2 (.inl ⟨htag, rfl⟩)⟩
    · obtain ⟨he, hinner'⟩ := hpart buf i v e htag.2.1 hinner
      exact ⟨he, decodeWith_option_ok_iff.2 (.inr ⟨i, htag, hinner'⟩)⟩
  | result hok herr =>
    obtain ⟨i, w, htag, hw, rfl⟩ | ⟨i, w, htag, hw, rfl⟩ := decodeWith_result_ok_iff.1 hdecode
    · obtain ⟨he, hw'⟩ := hok buf i w e htag.2.1 hw
      exact ⟨he, decodeWith_result_ok_iff.2 (.inl ⟨i, w, htag, hw', rfl⟩)⟩
    · obtain ⟨he, hw'⟩ := herr buf i w e htag.2.1 hw
      exact ⟨he, decodeWith_result_ok_iff.2 (.inr ⟨i, w, htag, hw', rfl⟩)⟩
  | struct hfields =>
    rw [decodeWith_struct] at hdecode ⊢
    exact decodeRecord_below hfields ho hdecode
  | enum harms =>
    obtain ⟨tag, i, arm, htag, hfind, hrecord⟩ := decodeWith_enum_ok_iff.1 hdecode
    obtain ⟨arm', hfind', -, hshape, hfields⟩ := find?_arm_of_forall₂ harms (fun _ _ harm => harm.1) hfind
    rw [hshape] at hrecord
    obtain ⟨he, hrecord'⟩ := decodeRecord_below hfields htag.2.1 hrecord
    exact ⟨he, decodeWith_enum_ok_iff.2 ⟨tag, i, arm', htag, hfind', hrecord'⟩⟩

end

end ContractClient.Codec
