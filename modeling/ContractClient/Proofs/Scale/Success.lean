/-
When decoding and encoding succeed.

A codec decodes at an offset exactly if its parts decode behind each other, and
encodes a value exactly if its parts encode the parts of the value. For each
constructor this is an equivalence without a word about errors, and what holds
between codecs, or between the two directions, is shown by going through one of
them and building the other.
-/
import ContractClient.Proofs.Outcome
import ContractClient.Proofs.Scale.Reading
import ContractClient.Proofs.Scale.Tree

set_option autoImplicit false

namespace ContractClient.Codec

/-! ## When decoding succeeds -/

section

variable {deref : Deref} {buf : Bytes} {o e : Nat} {v : Value}

/-- Several parts are read exactly if the first is read and the others are read
behind it. -/
theorem decodeTuple_cons_ok_iff {c : Codec} {codecs : List Codec} {vs : List Value} :
    decodeTuple deref (c :: codecs) buf o = .ok (vs, e) ↔
      ∃ w i ws, decodeWith deref c buf o = .ok (w, i) ∧ decodeTuple deref codecs buf i = .ok (ws, e) ∧
        vs = w :: ws := by
  rw [decodeTuple_cons, bind_ok_iff]
  constructor
  · rintro ⟨⟨w, i⟩, hhead, h⟩
    obtain ⟨⟨ws, j⟩, htail, heq⟩ := map_ok_iff.1 h
    obtain ⟨rfl, rfl⟩ := Prod.mk.inj heq
    exact ⟨w, i, ws, hhead, htail, rfl⟩
  · rintro ⟨w, i, ws, hhead, htail, rfl⟩
    exact ⟨(w, i), hhead, map_ok_iff.2 ⟨(ws, e), htail, rfl⟩⟩

/-- As many values are read as there are parts. -/
theorem length_decodeTuple {codecs : List Codec} {vs : List Value}
    (h : decodeTuple deref codecs buf o = .ok (vs, e)) : vs.length = codecs.length := by
  induction codecs generalizing o vs with
  | nil =>
    rw [decodeTuple_nil] at h
    cases h
    rfl
  | cons c codecs ih =>
    obtain ⟨w, i, ws, -, htail, rfl⟩ := decodeTuple_cons_ok_iff.1 h
    rw [List.length_cons, List.length_cons, ih htail]

/-- A record is read exactly if its fields are and the values make an instance
of its class. -/
theorem decodeRecord_ok_iff {shape : Shape} {fields : List (String × Codec)} :
    decodeRecord deref buf shape fields o = .ok (v, e) ↔
      ∃ vs, decodeTuple deref (fields.map (·.2)) buf o = .ok (vs, e) ∧
        instanceOf shape ((fields.map (·.1)).zip vs) = .ok v := by
  rw [decodeRecord, bind_ok_iff]
  constructor
  · rintro ⟨⟨vs, i⟩, htuple, h⟩
    obtain ⟨w, hinstance, heq⟩ := map_ok_iff.1 h
    obtain ⟨rfl, rfl⟩ := Prod.mk.inj heq
    exact ⟨vs, htuple, hinstance⟩
  · rintro ⟨vs, htuple, hinstance⟩
    exact ⟨(vs, e), htuple, map_ok_iff.2 ⟨v, hinstance, rfl⟩⟩

/-- **When a sequence is read.** Either more items are announced than bytes are
left, and the items are copies of one that takes no bytes; or there is a byte
for each item, and the items are read one by one. The two cases exclude each
other. -/
theorem decodeWith_seq_ok_iff {item : Codec} :
    decodeWith deref (.seq item) buf o = .ok (v, e) ↔
      ∃ n i, decodeCompact none buf o = .ok (n, i) ∧
        (buf.length < n + i ∧ n ≤ maxZeroSized ∧ i = e ∧
            (∃ w, decodeWith deref item buf i = .ok (w, i) ∧ v = .list (List.replicate n w)) ∨
          n + i ≤ buf.length ∧
            ∃ vs, decodeTuple deref (List.replicate n item) buf i = .ok (vs, e) ∧ v = .list vs) := by
  rw [decodeWith_seq, bind_ok_iff]
  constructor
  · rintro ⟨⟨n, i⟩, hcount, h⟩
    refine ⟨n, i, hcount, ?_⟩
    dsimp only at h
    -- The count decides between the probe and the items.
    by_cases hlarge : buf.length < n + i
    · rw [if_pos hlarge] at h
      obtain ⟨⟨w, j⟩, hprobe, h⟩ := bind_ok_iff.1 h
      dsimp only at h
      by_cases hbad : j ≠ i ∨ maxZeroSized < n
      · rw [if_pos hbad] at h
        cases h
      · rw [if_neg hbad] at h
        obtain ⟨hj, hn⟩ := not_or.1 hbad
        have hji : j = i := Decidable.not_not.1 hj
        subst hji
        cases h
        exact .inl ⟨hlarge, Nat.le_of_not_lt hn, rfl, w, hprobe, rfl⟩
    · rw [if_neg hlarge] at h
      obtain ⟨⟨vs, j⟩, htuple, heq⟩ := map_ok_iff.1 h
      obtain ⟨rfl, rfl⟩ := Prod.mk.inj heq
      exact .inr ⟨Nat.le_of_not_lt hlarge, vs, htuple, rfl⟩
  · rintro ⟨n, i, hcount, ⟨hlarge, hn, rfl, w, hprobe, rfl⟩ | ⟨hsmall, vs, htuple, rfl⟩⟩
    · refine ⟨(n, i), hcount, ?_⟩
      dsimp only
      rw [if_pos hlarge, hprobe]
      exact if_neg (not_or.2 ⟨Decidable.not_not.2 rfl, Nat.not_lt.2 hn⟩)
    · refine ⟨(n, i), hcount, ?_⟩
      dsimp only
      rw [if_neg (Nat.not_lt.2 hsmall), htuple]
      rfl

/-- When an array is read. -/
theorem decodeWith_array_ok_iff {item : Codec} {length : Nat} :
    decodeWith deref (.array item length) buf o = .ok (v, e) ↔
      ∃ vs, decodeTuple deref (List.replicate length item) buf o = .ok (vs, e) ∧ v = .tuple vs := by
  rw [decodeWith_array, map_ok_iff]
  constructor
  · rintro ⟨⟨vs, i⟩, htuple, heq⟩
    obtain ⟨rfl, rfl⟩ := Prod.mk.inj heq
    exact ⟨vs, htuple, rfl⟩
  · rintro ⟨vs, htuple, rfl⟩
    exact ⟨(vs, e), htuple, rfl⟩

/-- When a tuple is read. -/
theorem decodeWith_tuple_ok_iff {codecs : List Codec} :
    decodeWith deref (.tuple codecs) buf o = .ok (v, e) ↔
      ∃ vs, decodeTuple deref codecs buf o = .ok (vs, e) ∧ v = .tuple vs := by
  rw [decodeWith_tuple, map_ok_iff]
  constructor
  · rintro ⟨⟨vs, i⟩, htuple, heq⟩
    obtain ⟨rfl, rfl⟩ := Prod.mk.inj heq
    exact ⟨vs, htuple, rfl⟩
  · rintro ⟨vs, htuple, rfl⟩
    exact ⟨(vs, e), htuple, rfl⟩

/-- When an option is read: at a zero, or at a one with a value behind it. No
other byte is allowed. -/
theorem decodeWith_option_ok_iff {inner : Codec} :
    decodeWith deref (.option inner) buf o = .ok (v, e) ↔
      Between buf o e [0] ∧ v = .none ∨
        ∃ i, Between buf o i [1] ∧ decodeWith deref inner buf i = .ok (v, e) := by
  rw [decodeWith_option, bind_ok_iff]
  constructor
  · rintro ⟨⟨tag, i⟩, hread, h⟩
    have htag := readByte_ok_iff.1 hread
    dsimp only at h
    by_cases hnone : tag = 0
    · rw [if_pos hnone] at h
      cases h
      exact .inl ⟨hnone ▸ htag, rfl⟩
    rw [if_neg hnone] at h
    by_cases hsome : tag = 1
    · rw [if_pos hsome] at h
      exact .inr ⟨i, hsome ▸ htag, h⟩
    · rw [if_neg hsome] at h
      cases h
  · rintro (⟨htag, rfl⟩ | ⟨i, htag, h⟩)
    · exact ⟨(0, e), readByte_ok_iff.2 htag, rfl⟩
    · exact ⟨(1, i), readByte_ok_iff.2 htag, h⟩

/-- When a result is read: at a zero with a success behind it, or at a one with
a failure. -/
theorem decodeWith_result_ok_iff {ok err : Codec} :
    decodeWith deref (.result ok err) buf o = .ok (v, e) ↔
      (∃ i w, Between buf o i [0] ∧ decodeWith deref ok buf i = .ok (w, e) ∧ v = .ok w) ∨
        ∃ i w, Between buf o i [1] ∧ decodeWith deref err buf i = .ok (w, e) ∧ v = .err w := by
  rw [decodeWith_result, bind_ok_iff]
  constructor
  · rintro ⟨⟨tag, i⟩, hread, h⟩
    have htag := readByte_ok_iff.1 hread
    dsimp only at h
    by_cases hok : tag = 0
    · rw [if_pos hok] at h
      obtain ⟨⟨w, j⟩, hdecode, heq⟩ := map_ok_iff.1 h
      obtain ⟨rfl, rfl⟩ := Prod.mk.inj heq
      exact .inl ⟨i, w, hok ▸ htag, hdecode, rfl⟩
    rw [if_neg hok] at h
    by_cases herr : tag = 1
    · rw [if_pos herr] at h
      obtain ⟨⟨w, j⟩, hdecode, heq⟩ := map_ok_iff.1 h
      obtain ⟨rfl, rfl⟩ := Prod.mk.inj heq
      exact .inr ⟨i, w, herr ▸ htag, hdecode, rfl⟩
    · rw [if_neg herr] at h
      cases h
  · rintro (⟨i, w, htag, hdecode, rfl⟩ | ⟨i, w, htag, hdecode, rfl⟩)
    · exact ⟨(0, i), readByte_ok_iff.2 htag, map_ok_iff.2 ⟨(w, e), hdecode, rfl⟩⟩
    · exact ⟨(1, i), readByte_ok_iff.2 htag, map_ok_iff.2 ⟨(w, e), hdecode, rfl⟩⟩

/-- When an enum is read: at a byte that is the index of an arm, with the fields
of the first such arm behind it. -/
theorem decodeWith_enum_ok_iff {base : String} {arms : List Arm} :
    decodeWith deref (.enum base arms) buf o = .ok (v, e) ↔
      ∃ tag i arm, Between buf o i [tag] ∧ (arms.find? fun arm => arm.1 == tag.toNat) = some arm ∧
        decodeRecord deref buf arm.2.1 arm.2.2 i = .ok (v, e) := by
  rw [decodeWith_enum, bind_ok_iff]
  constructor
  · rintro ⟨⟨tag, i⟩, hread, h⟩
    have htag := readByte_ok_iff.1 hread
    dsimp only at h
    cases hfind : arms.find? fun arm => arm.1 == tag.toNat with
    | none => simp [hfind, fault] at h
    | some arm =>
      rw [hfind] at h
      exact ⟨tag, i, arm, htag, hfind, h⟩
  · rintro ⟨tag, i, arm, htag, hfind, h⟩
    refine ⟨(tag, i), readByte_ok_iff.2 htag, ?_⟩
    dsimp only
    rw [hfind]
    exact h

end

/-! ## When encoding succeeds -/

section

variable {deref : EncodeDeref} {v : Value} {bs : Bytes}

/-- Lists and tuples have items, and nothing else does. -/
theorem expectItems_ok_iff {items : List Value} : expectItems v = .ok items ↔ v.items? = some items := by
  unfold expectItems
  cases v.items? <;> simp

/-- Several parts are written exactly if the first and the others are. -/
theorem encodeTuple_cons_ok_iff {c : Codec} {codecs : List Codec} {items : List Value} :
    encodeTuple deref (c :: codecs) (v :: items) = .ok bs ↔
      ∃ head tail, encodeWith deref c v = .ok head ∧ encodeTuple deref codecs items = .ok tail ∧
        head ++ tail = bs := by
  rw [encodeTuple_cons, bind_ok_iff]
  constructor
  · rintro ⟨head, hhead, h⟩
    obtain ⟨tail, htail, heq⟩ := map_ok_iff.1 h
    exact ⟨head, tail, hhead, htail, heq⟩
  · rintro ⟨head, tail, hhead, htail, heq⟩
    exact ⟨head, hhead, map_ok_iff.2 ⟨tail, htail, heq⟩⟩

/-- Fields are the tuple of the attributes that they name. The program asks for
an attribute and writes it before it asks for the next; success is the same as
if all were asked for first, and errors are not compared here. -/
theorem encodeFields_ok_iff {fields : List (String × Codec)} {cls : String}
    {attributes : List (String × Value)} :
    encodeFields deref fields cls attributes = .ok bs ↔
      ∃ vs, attributesOf cls attributes (fields.map (·.1)) = .ok vs ∧
        encodeTuple deref (fields.map (·.2)) vs = .ok bs := by
  induction fields generalizing bs with
  | nil =>
    constructor
    · intro h
      exact ⟨[], rfl, by simpa only [encodeFields, List.map_nil, encodeTuple] using h⟩
    · rintro ⟨vs, -, h⟩
      simpa only [encodeFields, List.map_nil, encodeTuple] using h
  | cons f fields ih =>
    obtain ⟨name, c⟩ := f
    rw [encodeFields_cons, bind_ok_iff]
    simp only [List.map_cons, attributesOf, List.mapM_cons]
    constructor
    · rintro ⟨v, hv, h⟩
      obtain ⟨head, hhead, h⟩ := bind_ok_iff.1 h
      obtain ⟨tail, htail, heq⟩ := map_ok_iff.1 h
      obtain ⟨vs, hvs, htuple⟩ := ih.1 htail
      exact ⟨v :: vs, bind_ok_iff.2 ⟨v, hv, bind_ok_iff.2 ⟨vs, hvs, rfl⟩⟩,
        encodeTuple_cons_ok_iff.2 ⟨head, tail, hhead, htuple, heq⟩⟩
    · rintro ⟨ws, hws, htuple⟩
      obtain ⟨v, hv, h⟩ := bind_ok_iff.1 hws
      obtain ⟨vs, hvs, heq⟩ := bind_ok_iff.1 h
      cases heq
      obtain ⟨head, tail, hhead, htail, heq⟩ := encodeTuple_cons_ok_iff.1 htuple
      exact ⟨v, hv, bind_ok_iff.2 ⟨head, hhead, map_ok_iff.2 ⟨tail, ih.2 ⟨vs, hvs, htail⟩, heq⟩⟩⟩

/-- When a sequence is written: its length must be one that can be. -/
theorem encodeWith_seq_ok_iff {item : Codec} :
    encodeWith deref (.seq item) v = .ok bs ↔
      ∃ items head body, v.items? = some items ∧ encodeCount items.length = .ok head ∧
        encodeTuple deref (List.replicate items.length item) items = .ok body ∧ head ++ body = bs := by
  rw [encodeWith_seq, bind_ok_iff]
  constructor
  · rintro ⟨items, hitems, h⟩
    obtain ⟨head, hhead, h⟩ := bind_ok_iff.1 h
    obtain ⟨body, hbody, heq⟩ := map_ok_iff.1 h
    exact ⟨items, head, body, expectItems_ok_iff.1 hitems, hhead, hbody, heq⟩
  · rintro ⟨items, head, body, hitems, hhead, hbody, heq⟩
    exact ⟨items, expectItems_ok_iff.2 hitems, bind_ok_iff.2 ⟨head, hhead, map_ok_iff.2 ⟨body, hbody, heq⟩⟩⟩

/-- When an array is written: it has its length, and no count is written in
front. A list is taken as well as a tuple. -/
theorem encodeWith_array_ok_iff {item : Codec} {length : Nat} :
    encodeWith deref (.array item length) v = .ok bs ↔
      ∃ items, v.items? = some items ∧ items.length = length ∧
        encodeTuple deref (List.replicate length item) items = .ok bs := by
  rw [encodeWith_array, bind_ok_iff]
  constructor
  · rintro ⟨items, hitems, h⟩
    by_cases hlen : items.length = length
    · rw [if_pos hlen] at h
      exact ⟨items, expectItems_ok_iff.1 hitems, hlen, h⟩
    · rw [if_neg hlen] at h
      cases h
  · rintro ⟨items, hitems, hlen, h⟩
    exact ⟨items, expectItems_ok_iff.2 hitems, (if_pos hlen).trans h⟩

/-- When a tuple is written: it has as many items as parts, each written by its
own codec. A list is taken as well as a tuple. -/
theorem encodeWith_tuple_ok_iff {codecs : List Codec} :
    encodeWith deref (.tuple codecs) v = .ok bs ↔
      ∃ items, v.items? = some items ∧ items.length = codecs.length ∧
        encodeTuple deref codecs items = .ok bs := by
  simp only [encodeWith]
  rw [bind_ok_iff]
  constructor
  · rintro ⟨items, hitems, h⟩
    by_cases hlen : items.length = codecs.length
    · rw [if_pos hlen] at h
      exact ⟨items, expectItems_ok_iff.1 hitems, hlen, h⟩
    · rw [if_neg hlen] at h
      cases h
  · rintro ⟨items, hitems, hlen, h⟩
    exact ⟨items, expectItems_ok_iff.2 hitems, (if_pos hlen).trans h⟩

/-- What is not absent is written behind a one, whatever it is. -/
theorem encodeWith_option_some {inner : Codec} (hv : v ≠ .none) :
    encodeWith deref (.option inner) v = (encodeWith deref inner v).map fun b => 1 :: b := by
  cases v <;> first | exact absurd rfl hv | simp only [encodeWith]

/-- When an option is written: absence as a zero, and anything else behind a
one. An absent payload cannot be written behind a one. -/
theorem encodeWith_option_ok_iff {inner : Codec} :
    encodeWith deref (.option inner) v = .ok bs ↔
      v = .none ∧ bs = [0] ∨ v ≠ .none ∧ ∃ body, encodeWith deref inner v = .ok body ∧ 1 :: body = bs := by
  by_cases hv : v = .none
  · subst hv
    simp only [encodeWith, Except.ok.injEq, ne_eq, not_true_eq_false, false_and, or_false, true_and]
    exact eq_comm
  · rw [encodeWith_option_some hv, map_ok_iff]
    constructor
    · intro h
      exact .inr ⟨hv, h⟩
    · rintro (⟨hnone, -⟩ | ⟨-, h⟩)
      · exact absurd hnone hv
      · exact h

/-- When a result is written: it has to say which of the two it is. The payload
alone is refused, even if only one of the codecs would take it. -/
theorem encodeWith_result_ok_iff {ok err : Codec} :
    encodeWith deref (.result ok err) v = .ok bs ↔
      (∃ w body, v = .ok w ∧ encodeWith deref ok w = .ok body ∧ 0 :: body = bs) ∨
        ∃ w body, v = .err w ∧ encodeWith deref err w = .ok body ∧ 1 :: body = bs := by
  constructor
  · intro h
    cases v with
    | ok w =>
      simp only [encodeWith] at h
      obtain ⟨body, hbody, heq⟩ := map_ok_iff.1 h
      exact .inl ⟨w, body, rfl, hbody, heq⟩
    | err w =>
      simp only [encodeWith] at h
      obtain ⟨body, hbody, heq⟩ := map_ok_iff.1 h
      exact .inr ⟨w, body, rfl, hbody, heq⟩
    | _ => simp [encodeWith] at h
  · rintro (⟨w, body, rfl, hbody, heq⟩ | ⟨w, body, rfl, hbody, heq⟩)
    · simp only [encodeWith]
      exact map_ok_iff.2 ⟨body, hbody, heq⟩
    · simp only [encodeWith]
      exact map_ok_iff.2 ⟨body, hbody, heq⟩

/-- When a record is written: it is an instance of the class, by its name, with
the attributes that are asked for. -/
theorem encodeWith_struct_ok_iff {shape : Shape} {fields : List (String × Codec)} :
    encodeWith deref (.struct shape fields) v = .ok bs ↔
      ∃ attributes, v = .instance shape.name attributes ∧
        encodeFields deref fields shape.name attributes = .ok bs := by
  constructor
  · intro h
    cases v with
    | «instance» cls attributes =>
      simp only [encodeWith] at h
      by_cases hcls : cls = shape.name
      · subst hcls
        rw [if_pos rfl] at h
        exact ⟨attributes, rfl, h⟩
      · rw [if_neg hcls] at h
        cases h
    | _ => simp [encodeWith] at h
  · rintro ⟨attributes, rfl, h⟩
    simp only [encodeWith]
    exact h

/-- When an enum is written: it is an instance of the class of an arm. Of
several arms with the class it is the last one, and its index is written as a
byte. -/
theorem encodeWith_enum_ok_iff {base : String} {arms : List Arm} :
    encodeWith deref (.enum base arms) v = .ok bs ↔
      ∃ cls attributes arm body, v = .instance cls attributes ∧ armOf? arms cls = some arm ∧
        encodeFields deref arm.2.2 cls attributes = .ok body ∧ UInt8.ofNat arm.1 :: body = bs := by
  constructor
  · intro h
    cases v with
    | «instance» cls attributes =>
      rw [encodeWith_enum] at h
      cases harm : armOf? arms cls with
      | none => simp [harm] at h
      | some arm =>
        rw [harm] at h
        obtain ⟨body, hbody, heq⟩ := map_ok_iff.1 h
        exact ⟨cls, attributes, arm, body, rfl, harm, hbody, heq⟩
    | _ => simp [encodeWith] at h
  · rintro ⟨cls, attributes, arm, body, rfl, harm, hbody, heq⟩
    rw [encodeWith_enum, harm]
    exact map_ok_iff.2 ⟨body, hbody, heq⟩

end

end ContractClient.Codec
