/-
What is decoded is encoded.

Decoding is strict if it accepts nothing but encodings. Here that is shown in
the form in which it is used: what was decoded between two offsets is encoded as
the bytes between them. Each leaf refuses the other spellings of its values;
what is left are the places where a codec could forget how a value was spelled.
An option inside of an option would, since absence is one value at every depth;
two arms of one class would, since encoding tells arms by their class; and a
record would if its fields were not its attributes.

The sequences whose items have no bytes need no bound here: a list that was
decoded is never too long.
-/
import ContractClient.Proofs.Scale.RoundTrip

set_option autoImplicit false

namespace ContractClient.Codec

/-! ## What is asked of codecs -/

/-- Whether a codec is an option, directly or through references. -/
inductive OptionBehind (env : Environment) : Codec → Prop
  | here (inner : Codec) : OptionBehind env (.option inner)
  | there {name : String} {c : Codec} (hc : env.codec? name = some c) (h : OptionBehind env c) :
      OptionBehind env (.ref name)

/-- Whether a codec tells apart what it can spell: no option is directly inside
of another one, arms are of distinct classes, and fields are those of
the class. -/
def Unambiguous (env : Environment) : Codec → Prop
  | .option inner => ¬ OptionBehind env inner
  | .struct shape fields => FieldsFit shape fields
  | .enum _ arms =>
    (arms.map fun arm => arm.2.1.name).Nodup ∧ ∀ arm ∈ arms, FieldsFit arm.2.1 arm.2.2
  | _ => True

/-! ## Absence -/

/-- A codec that can be read as absence has an option behind it: an option is
the only codec that gives absence, and only references can hide it. -/
theorem optionBehind_of_none_of_refs {env : Environment} {n : Nat} {c : Codec} {buf : Bytes} {o e : Nat}
    (hrefs : ∀ name, derefFuel env n name buf o = .ok (.none, e) → OptionBehind env (.ref name))
    (h : decodeWith (derefFuel env n) c buf o = .ok (.none, e)) : OptionBehind env c := by
  -- No leaf encodes absence, hence none has read it.
  have hleaf : c.isLeaf = true → OptionBehind env c := by
    intro hleaf
    rw [decodeWith_leaf hleaf] at h
    obtain ⟨bs, -, hencode⟩ := encodeLeaf_of_decodeLeaf hleaf h
    cases c <;> simp [isLeaf] at hleaf <;>
      simp [encodeLeaf, encodeWith, encodeInt, encodeCompact, encodeStr, encodeChar, expectBytes, Value.bytes?, bind,
        Except.bind] at hencode
  cases c with
  | option inner => exact .here inner
  | ref name =>
    rw [decodeWith_ref] at h
    exact hrefs name h
  | seq item =>
    obtain ⟨m, i, -, ⟨-, -, -, w, -, hv⟩ | ⟨-, vs, -, hv⟩⟩ := decodeWith_seq_ok_iff.1 h
    · cases hv
    · cases hv
  | array item length =>
    obtain ⟨vs, -, hv⟩ := decodeWith_array_ok_iff.1 h
    cases hv
  | tuple codecs =>
    obtain ⟨vs, -, hv⟩ := decodeWith_tuple_ok_iff.1 h
    cases hv
  | result ok err =>
    obtain ⟨i, w, -, -, hv⟩ | ⟨i, w, -, -, hv⟩ := decodeWith_result_ok_iff.1 h
    · cases hv
    · cases hv
  | struct shape fields =>
    rw [decodeWith_struct] at h
    obtain ⟨vs, -, hv⟩ := decodeRecord_ok_iff.1 h
    cases instanceOf_ok hv
  | enum base arms =>
    obtain ⟨tag, i, arm, -, -, hrecord⟩ := decodeWith_enum_ok_iff.1 h
    obtain ⟨vs, -, hv⟩ := decodeRecord_ok_iff.1 hrecord
    cases instanceOf_ok hv
  | _ => exact hleaf rfl

/-- **Absence is decoded by options only.** The induction is on the fuel, since
an option may stand behind names; no codec but an option gives absence
itself. -/
theorem optionBehind_of_none {env : Environment} {n : Nat} {c : Codec} {buf : Bytes} {o e : Nat}
    (h : decodeWith (derefFuel env n) c buf o = .ok (.none, e)) : OptionBehind env c := by
  induction n generalizing c with
  | zero =>
    refine optionBehind_of_none_of_refs (fun name hname => ?_) h
    cases hname
  | succ n ih =>
    refine optionBehind_of_none_of_refs (fun name hname => ?_) h
    simp only [derefFuel] at hname
    cases hcodec : env.codec? name with
    | none => simp [hcodec] at hname
    | some d =>
      rw [hcodec] at hname
      exact .there hcodec (ih hname)

/-! ## Writing back -/

/-- Whether a codec writes back what it reads, with references followed `n`
deep. -/
def WritesBack (env : Environment) (n : Nat) (c : Codec) : Prop :=
  ∀ buf o v e, o ≤ buf.length → decodeWith (derefFuel env n) c buf o = .ok (v, e) →
    ∃ bs, Between buf o e bs ∧ encodeWith (encodeFuel env n) c v = .ok bs

section

variable {env : Environment} {n : Nat}

/-- Parts that are written back one by one are written back together, behind
each other as they stand. -/
theorem encodeTuple_writesBack {codecs : List Codec} (h : ∀ c ∈ codecs, WritesBack env n c) {buf : Bytes}
    {o e : Nat} {vs : List Value} (ho : o ≤ buf.length)
    (hdecode : decodeTuple (derefFuel env n) codecs buf o = .ok (vs, e)) :
    vs.length = codecs.length ∧
      ∃ bs, Between buf o e bs ∧ encodeTuple (encodeFuel env n) codecs vs = .ok bs := by
  induction codecs generalizing o vs with
  | nil =>
    rw [decodeTuple_nil] at hdecode
    cases hdecode
    exact ⟨rfl, [], Between.nil_iff.2 ⟨rfl, ho⟩, by simp only [encodeTuple]⟩
  | cons c codecs ih =>
    obtain ⟨w, i, ws, hhead, htail, rfl⟩ := decodeTuple_cons_ok_iff.1 hdecode
    obtain ⟨head, hfront, hw⟩ := h c List.mem_cons_self buf o w i ho hhead
    obtain ⟨hlen, tail, hback, hws⟩ :=
      ih (fun c' hc' => h c' (List.mem_cons_of_mem _ hc')) hfront.2.1 htail
    refine ⟨by rw [List.length_cons, List.length_cons, hlen], head ++ tail, hfront.append hback, ?_⟩
    exact encodeTuple_cons_ok_iff.2 ⟨head, tail, hw, hws, rfl⟩

/-- The same for copies of one part. -/
theorem encodeCopies_writesBack {item : Codec} (h : WritesBack env n item) {count : Nat} {buf : Bytes}
    {o e : Nat} {vs : List Value} (ho : o ≤ buf.length)
    (hdecode : decodeTuple (derefFuel env n) (List.replicate count item) buf o = .ok (vs, e)) :
    vs.length = count ∧
      ∃ bs, Between buf o e bs ∧ encodeTuple (encodeFuel env n) (List.replicate count item) vs = .ok bs := by
  have hback := encodeTuple_writesBack (fun c hc => (List.eq_of_mem_replicate hc).symm ▸ h) ho hdecode
  rwa [List.length_replicate] at hback

/-- A record is written back as the instance that it was read as. Reading has
arranged the attributes as the class has them, and writing asks for them by
name. -/
theorem encodeRecord_writesBack {shape : Shape} {fields : List (String × Codec)}
    (hfit : FieldsFit shape fields) (h : ∀ f ∈ fields, WritesBack env n f.2) {buf : Bytes} {o e : Nat}
    {v : Value} (ho : o ≤ buf.length)
    (hdecode : decodeRecord (derefFuel env n) buf shape fields o = .ok (v, e)) :
    ∃ attributes bs, v = .instance shape.name attributes ∧ Between buf o e bs ∧
      encodeFields (encodeFuel env n) fields shape.name attributes = .ok bs := by
  obtain ⟨vs, htuple, hinstance⟩ := decodeRecord_ok_iff.1 hdecode
  have hfields : ∀ c ∈ fields.map (·.2), WritesBack env n c := by
    intro c hc
    obtain ⟨f, hf, rfl⟩ := List.mem_map.1 hc
    exact h f hf
  obtain ⟨hlen, bs, hbetween, hencode⟩ := encodeTuple_writesBack hfields ho htuple
  rw [List.length_map] at hlen
  refine ⟨_, bs, instanceOf_ok hinstance, hbetween, ?_⟩
  exact encodeFields_ok_iff.2 ⟨vs, attributesOf_arranged hfit hlen rfl, hencode⟩

/-- **A sequence writes back** if its items do. Where items take no bytes the
copies of the one that was read take none either. -/
theorem encodeSeq_writesBack {item : Codec} (h : WritesBack env n item) : WritesBack env n (.seq item) := by
  intro buf o v e ho hdecode
  obtain ⟨count, i, hcount, hitems⟩ := decodeWith_seq_ok_iff.1 hdecode
  obtain ⟨head, hhead, hfront⟩ := decodeCount_ok_iff.1 hcount
  rcases hitems with ⟨-, -, rfl, w, hprobe, rfl⟩ | ⟨-, vs, htuple, rfl⟩
  · -- the probe ends where it begins, so each copy of it is written without bytes
    obtain ⟨bs, hbetween, hw⟩ := h buf i w i hfront.2.1 hprobe
    have hnil : bs = [] := by
      have hlen := hbetween.length_eq
      exact List.eq_nil_of_length_eq_zero (by omega)
    subst hnil
    have hall : ∀ x ∈ List.replicate count w, encodeWith (encodeFuel env n) item x = .ok [] :=
      fun x hx => (List.eq_of_mem_replicate hx).symm ▸ hw
    have hcopies := encodeCopies_nil hall
    refine ⟨head, hfront, encodeWith_seq_ok_iff.2 ⟨_, head, [], rfl, ?_, hcopies, List.append_nil _⟩⟩
    rwa [List.length_replicate]
  · obtain ⟨hlen, body, hback, hbody⟩ := encodeCopies_writesBack h hfront.2.1 htuple
    subst hlen
    exact ⟨head ++ body, hfront.append hback, encodeWith_seq_ok_iff.2 ⟨vs, head, body, rfl, hhead, hbody, rfl⟩⟩

/-- **Codecs write back what they read** if the names that they mention do. The
induction is on the codec as a tree, with names as leaves. Two codecs can lose
something: an option, by an absence inside of it, and an enum, by a class that
two arms share; `Unambiguous` is what rules these out. -/
theorem writesBack_of_refs
    (hrefs : ∀ name, Everywhere env (Unambiguous env) (.ref name) → WritesBack env n (.ref name))
    (c : Codec) : Everywhere env (Unambiguous env) c → WritesBack env n c := by
  induction c using tree_induction with
  | leaf c hleaf =>
    intro _ buf o v e _ hdecode
    rw [decodeWith_leaf hleaf] at hdecode
    rw [encodeWith_leaf hleaf]
    exact encodeLeaf_of_decodeLeaf hleaf hdecode
  | seq item ih =>
    intro h
    exact encodeSeq_writesBack (ih (h.part List.mem_cons_self))
  | array item length ih =>
    intro h buf o v e ho hdecode
    obtain ⟨vs, htuple, rfl⟩ := decodeWith_array_ok_iff.1 hdecode
    obtain ⟨hlen, bs, hbetween, hencode⟩ :=
      encodeCopies_writesBack (ih (h.part List.mem_cons_self)) ho htuple
    exact ⟨bs, hbetween, encodeWith_array_ok_iff.2 ⟨vs, rfl, hlen, hencode⟩⟩
  | tuple codecs ih =>
    intro h buf o v e ho hdecode
    obtain ⟨vs, htuple, rfl⟩ := decodeWith_tuple_ok_iff.1 hdecode
    obtain ⟨hlen, bs, hbetween, hencode⟩ :=
      encodeTuple_writesBack (fun c hc => ih c hc (h.part hc)) ho htuple
    exact ⟨bs, hbetween, encodeWith_tuple_ok_iff.2 ⟨vs, rfl, hlen, hencode⟩⟩
  | option inner ih =>
    intro h buf o v e ho hdecode
    obtain ⟨htag, rfl⟩ | ⟨i, htag, hinner⟩ := decodeWith_option_ok_iff.1 hdecode
    · exact ⟨[0], htag, encodeWith_option_ok_iff.2 (.inl ⟨rfl, rfl⟩)⟩
    · obtain ⟨body, hback, hbody⟩ := ih (h.part List.mem_cons_self) buf i v e htag.2.1 hinner
      -- Were the payload absence, an option would stand behind this one, which is ruled out.
      have hpresent : v ≠ .none := by
        rintro rfl
        exact h.self (optionBehind_of_none hinner)
      exact ⟨1 :: body, htag.append hback, encodeWith_option_ok_iff.2 (.inr ⟨hpresent, body, hbody, rfl⟩)⟩
  | result ok err ihok iherr =>
    intro h buf o v e ho hdecode
    obtain ⟨i, w, htag, hw, rfl⟩ | ⟨i, w, htag, hw, rfl⟩ := decodeWith_result_ok_iff.1 hdecode
    · obtain ⟨body, hback, hbody⟩ := ihok (h.part List.mem_cons_self) buf i w e htag.2.1 hw
      exact ⟨0 :: body, htag.append hback, encodeWith_result_ok_iff.2 (.inl ⟨w, body, rfl, hbody, rfl⟩)⟩
    · obtain ⟨body, hback, hbody⟩ :=
        iherr (h.part (List.mem_cons_of_mem _ List.mem_cons_self)) buf i w e htag.2.1 hw
      exact ⟨1 :: body, htag.append hback, encodeWith_result_ok_iff.2 (.inr ⟨w, body, rfl, hbody, rfl⟩)⟩
  | struct shape fields ih =>
    intro h buf o v e ho hdecode
    rw [decodeWith_struct] at hdecode
    obtain ⟨attributes, bs, rfl, hbetween, hencode⟩ :=
      encodeRecord_writesBack h.self (fun f hf => ih f hf (h.field hf)) ho hdecode
    exact ⟨bs, hbetween, encodeWith_struct_ok_iff.2 ⟨attributes, rfl, hencode⟩⟩
  | enum base arms ih =>
    intro h buf o v e ho hdecode
    obtain ⟨tag, i, arm, htag, hfind, hrecord⟩ := decodeWith_enum_ok_iff.1 hdecode
    have hmem := List.mem_of_find?_eq_some hfind
    obtain ⟨hnodup, hfit⟩ : Unambiguous env (.enum base arms) := h.self
    obtain ⟨attributes, body, rfl, hback, hbody⟩ := encodeRecord_writesBack (hfit arm hmem)
      (fun f hf => ih arm hmem f hf (h.armField hmem hf)) htag.2.1 hrecord
    -- the class tells the arm, and the index of the arm is the byte that was read
    have harm : armOf? arms arm.2.1.name = some arm :=
      find?_reverse_of_nodup (fun a : Arm => a.2.1.name) hnodup hmem
    have hindex : UInt8.ofNat arm.1 = tag := by
      have hfound : arm.1 = tag.toNat := by simpa using List.find?_some hfind
      rw [hfound, UInt8.ofNat_toNat]
    refine ⟨tag :: body, htag.append hback, encodeWith_enum_ok_iff.2 ?_⟩
    exact ⟨_, attributes, arm, body, rfl, harm, hbody, by rw [hindex]⟩
  | ref name => exact hrefs name

end

/-- **Writing back, whatever the fuel.** Without fuel no name is followed, and
each further level follows names to codecs for which the level below has been
shown. -/
theorem writesBack (env : Environment) (n : Nat) (c : Codec)
    (h : Everywhere env (Unambiguous env) c) : WritesBack env n c := by
  induction n generalizing c with
  | zero =>
    refine writesBack_of_refs (fun name _ => ?_) c h
    intro buf o v e _ hdecode
    simp [decodeWith, derefFuel] at hdecode
  | succ n ih =>
    refine writesBack_of_refs (fun name hname => ?_) c h
    intro buf o v e ho hdecode
    simp only [decodeWith, derefFuel] at hdecode
    simp only [encodeWith, encodeFuel]
    cases hcodec : env.codec? name with
    | none => simp [hcodec] at hdecode
    | some d =>
      rw [hcodec] at hdecode
      exact ih d (hname.target hcodec) buf o v e ho hdecode

/-- **What is decoded is encoded.** For codecs that are unambiguous everywhere:
what was decoded between two offsets is encoded as the bytes between them. So a
byte string that is decoded strictly is the encoding of its value, and no other
byte string is decoded to that value. -/
theorem encode_decode (env : Environment) (c : Codec) (h : Everywhere env (Unambiguous env) c) :
    (∀ buf o v e, o ≤ buf.length → decodeFrom env c buf o = .ok (v, e) →
      o ≤ e ∧ e ≤ buf.length ∧ encode env c v = .ok ((buf.drop o).take (e - o))) ∧
    (∀ flags b v, c.decode env flags b = .ok v → encode env c v = .ok b) ∧
    (∀ flags₁ flags₂ b₁ b₂ v, c.decode env flags₁ b₁ = .ok v → c.decode env flags₂ b₂ = .ok v → b₁ = b₂) := by
  have hsegment : ∀ buf o v e, o ≤ buf.length → decodeFrom env c buf o = .ok (v, e) →
      o ≤ e ∧ e ≤ buf.length ∧ encode env c v = .ok ((buf.drop o).take (e - o)) := by
    intro buf o v e ho hdecode
    obtain ⟨bs, ⟨hoe, he, hbs⟩, hencode⟩ := writesBack env _ c h buf o v e ho hdecode
    rw [hbs]
    exact ⟨hoe, he, encode_of_fuel env hencode⟩
  have hstrict : ∀ flags b v, c.decode env flags b = .ok v → encode env c v = .ok b := by
    intro flags b v hdecode
    -- Strict decoding begins at the start and ends at the end, so the segment is the
    -- whole string.
    have hencode := (hsegment b 0 v b.length (Nat.zero_le _) (decode_ok_iff.1 hdecode)).2.2
    rwa [List.drop_zero, Nat.sub_zero, List.take_length] at hencode
  refine ⟨hsegment, hstrict, ?_⟩
  intro flags₁ flags₂ b₁ b₂ v h₁ h₂
  have hsame := (hstrict flags₁ b₁ v h₁).symm.trans (hstrict flags₂ b₂ v h₂)
  exact Except.ok.inj hsame

/-- Boxes that may carry a number and contain boxes and dots. -/
def boxArms : List Arm :=
  [(0, ⟨"Dot", []⟩, []),
    (5, ⟨"Box", ["mark", "parts"]⟩, [("mark", .option (.int ⟨1, by decide⟩ false)), ("parts", .seq (.ref "Shape"))])]

/-- The environment of boxes. -/
def boxEnvironment : Environment :=
  ⟨[("Shape", .enum "Shape" boxArms)]⟩

/-- Nothing in the codec of boxes is ambiguous. A shape refers to itself, so the
codecs that can be reached are listed and seen to be closed. -/
theorem box_unambiguous : Everywhere boxEnvironment (Unambiguous boxEnvironment) (.ref "Shape") := by
  -- Five codecs contain all that can be reached from a shape.
  refine .of_closed (S := fun a => a = .ref "Shape" ∨ a = .enum "Shape" boxArms ∨
    a = .option (.int ⟨1, by decide⟩ false) ∨ a = .int ⟨1, by decide⟩ false ∨ a = .seq (.ref "Shape"))
    (.inl rfl) ?_ ?_
  -- Each one's parts are among the five.
  · rintro a (rfl | rfl | rfl | rfl | rfl) b hb
    · simp [parts, boxEnvironment, Environment.codec?] at hb
      exact .inr (.inl hb)
    · simp [parts, boxArms] at hb
      exact hb.elim (fun h => .inr (.inr (.inl h))) fun h => .inr (.inr (.inr (.inr h)))
    · simp [parts] at hb
      exact .inr (.inr (.inr (.inl hb)))
    · simp [parts] at hb
    · simp [parts] at hb
      exact .inl hb
  · rintro a (rfl | rfl | rfl | rfl | rfl)
    · trivial
    · refine ⟨by decide, ?_⟩
      intro arm harm
      simp [boxArms] at harm
      rcases harm with rfl | rfl
      · exact ⟨by decide, .refl _⟩
      · exact ⟨by decide, .refl _⟩
    · rintro ⟨⟩
    · trivial
    · trivial

/-- A marked box with a dot and an empty box in it, between other bytes. -/
theorem encode_decode_box :
    encode boxEnvironment (.ref "Shape") (.instance "Box" [("mark", .int 7), ("parts", .list [
      .instance "Dot" [], .instance "Box" [("mark", .none), ("parts", .list [])]])]) =
        .ok [5, 1, 7, 8, 0, 5, 0, 0] :=
  ((encode_decode boxEnvironment (.ref "Shape") box_unambiguous).1
    [9, 5, 1, 7, 8, 0, 5, 0, 0, 9] 1 _ 9 (by decide) (by rfl)).2.2

end ContractClient.Codec
