/-
Which values codecs carry, and as which bytes.

A codec carries a value as a byte string if it writes the value as these bytes
and reads it from them wherever they stand. Both halves are about one value and
one byte string, not about all that a codec can write or read, so they hold also
of codecs that are ambiguous at other values. There is one rule for each
constructor, from what the parts carry to what the codec carries; an option asks
besides that its payload is not absence.

The rest of the buffer counts for one thing. A sequence of items without bytes
is read only if there are as many bytes left as items, or not more items than
the bound for such sequences. So what is carried is carried with room for a
number of items without bytes.
-/
import ContractClient.Proofs.Scale.Place
import ContractClient.Proofs.Scale.RoundTrip

set_option autoImplicit false

namespace ContractClient.Codec

/-- Whether a codec carries a value as a byte string, if there is room for `n`
items without bytes. -/
structure Carries (env : Environment) (c : Codec) (n : Nat) (bs : Bytes) (w : Value) : Prop where
  written : encodeWith (followEncode env) c w = .ok bs
  read : ∀ buf o e, Between buf o e bs → n ≤ max maxZeroSized (buf.length - e) →
    decodeWith (follow env) c buf o = .ok (w, e)

/-- Whether codecs carry as many values, one behind the other. -/
structure CarriesEach (env : Environment) (codecs : List Codec) (n : Nat) (bs : Bytes) (ws : List Value) :
    Prop where
  length : ws.length = codecs.length
  written : encodeTuple (followEncode env) codecs ws = .ok bs
  read : ∀ buf o e, Between buf o e bs → n ≤ max maxZeroSized (buf.length - e) →
    decodeTuple (follow env) codecs buf o = .ok (ws, e)

variable {env : Environment} {c : Codec} {codecs : List Codec} {n : Nat} {bs : Bytes} {w : Value} {ws : List Value}

/-! ## Lists of codecs -/

/-- No codecs carry no values, as no bytes. -/
theorem CarriesEach.nil : CarriesEach env [] n [] [] where
  length := rfl
  written := by simp only [encodeTuple]
  read := by
    intro buf o e hbetween _
    rw [decodeTuple_nil, (Between.nil_iff.1 hbetween).1]

/-- A codec and others carry a value and others, the bytes one behind the
other. -/
theorem CarriesEach.cons {head tail : Bytes} (hw : Carries env c n head w)
    (hws : CarriesEach env codecs n tail ws) : CarriesEach env (c :: codecs) n (head ++ tail) (w :: ws) where
  length := by rw [List.length_cons, List.length_cons, hws.length]
  written := encodeTuple_cons_ok_iff.2 ⟨head, tail, hw.written, hws.written, rfl⟩
  read := by
    intro buf o e hbetween hroom
    obtain ⟨i, hfront, hback⟩ := Between.append_iff.1 hbetween
    -- Behind the first value there is what is behind all of them, and more.
    have hmore : n ≤ max maxZeroSized (buf.length - i) := by
      have hend := hback.1
      omega
    exact decodeTuple_cons_ok_iff.2
      ⟨w, i, ws, hw.read buf o i hfront hmore, hws.read buf i e hback hroom, rfl⟩

/-! ## One rule for each constructor -/

namespace Carries

/-- With more room behind the bytes, what is carried is carried. -/
theorem mono {m : Nat} (h : Carries env c n bs w) (hm : n ≤ m) : Carries env c m bs w where
  written := h.written
  read buf o e hbetween hroom := h.read buf o e hbetween (Nat.le_trans hm hroom)

/-- A leaf carries what it writes, in the form in which it reads it. -/
theorem leaf (hleaf : c.isLeaf = true) (hlength : ∀ length kind, c = .fixedBytes length (some kind) → length = 32)
    (hlone : isLoneChar c w = false) (hwritten : encodeLeaf c w = .ok bs) (hcanon : canonLeaf c w = w) :
    Carries env c n bs w where
  written := by rwa [encodeWith_leaf hleaf]
  read := by
    intro buf o e hbetween _
    rw [decodeWith_leaf hleaf, decodeLeaf_of_encodeLeaf hleaf hlength hlone hwritten hbetween, hcanon]

/-- An array carries as many items as it has, in a tuple. This and the lemmas
that follow are one rule for each constructor; for sequences the count is in
front and the room behind the bytes matters. -/
theorem array {length : Nat} (h : CarriesEach env (List.replicate length c) n bs ws) :
    Carries env (.array c length) n bs (.tuple ws) where
  written := encodeWith_array_ok_iff.2 ⟨ws, rfl, by rw [h.length, List.length_replicate], h.written⟩
  read buf o e hbetween hroom := decodeWith_array_ok_iff.2 ⟨ws, h.read buf o e hbetween hroom, rfl⟩

/-- A tuple carries its items. -/
theorem tuple (h : CarriesEach env codecs n bs ws) : Carries env (.tuple codecs) n bs (.tuple ws) where
  written := encodeWith_tuple_ok_iff.2 ⟨ws, rfl, h.length, h.written⟩
  read buf o e hbetween hroom := decodeWith_tuple_ok_iff.2 ⟨ws, h.read buf o e hbetween hroom, rfl⟩

/-- **A sequence** is carried if there is a byte for each item, or if none of
them has a byte and there is room for all of them. -/
theorem seq {head body : Bytes} (hhead : encodeCount ws.length = .ok head)
    (hbody : CarriesEach env (List.replicate ws.length c) n body ws)
    (hroom : ws.length ≤ body.length ∨ ws.length ≤ n ∧ body = [] ∧ ∃ w, Carries env c n [] w) :
    Carries env (.seq c) n (head ++ body) (.list ws) where
  written := encodeWith_seq_ok_iff.2 ⟨ws, head, body, rfl, hhead, hbody.written, rfl⟩
  read := by
    intro buf o e hbetween hspace
    obtain ⟨i, hfront, hback⟩ := Between.append_iff.1 hbetween
    have hcount := decodeCount_ok_iff.2 ⟨head, hhead, hfront⟩
    have hitems := hbody.read buf i e hback hspace
    have hlen := hback.length_eq
    have hbound := hback.2.1
    refine decodeWith_seq_ok_iff.2 ⟨ws.length, i, hcount, ?_⟩
    by_cases hlarge : buf.length < ws.length + i
    · obtain hfew | ⟨hmany, rfl, w, hw⟩ := hroom
      · omega
      obtain ⟨rfl, -⟩ := Between.nil_iff.1 hback
      have hprobe := hw.read buf i i hback hspace
      -- One by one the items would be read as the probe, which does without bytes.
      have hsame := hitems.symm.trans (decodeCopies_still hprobe ws.length)
      have hws := (Prod.mk.inj (Except.ok.inj hsame)).1
      exact .inl ⟨hlarge, by omega, rfl, w, hprobe, congrArg Value.list hws⟩
    · exact .inr ⟨Nat.le_of_not_lt hlarge, ws, hitems, rfl⟩

/-- An option carries absence, as a zero. -/
theorem absent : Carries env (.option c) n [0] .none where
  written := encodeWith_option_ok_iff.2 (.inl ⟨rfl, rfl⟩)
  read _ _ _ hbetween _ := decodeWith_option_ok_iff.2 (.inl ⟨hbetween, rfl⟩)

/-- An option carries its payload as it is, unless this is absence. -/
theorem present (h : Carries env c n bs w) (hw : w ≠ .none) : Carries env (.option c) n (1 :: bs) w where
  written := encodeWith_option_ok_iff.2 (.inr ⟨hw, bs, h.written, rfl⟩)
  read := by
    intro buf o e hbetween hroom
    obtain ⟨i, htag, hback⟩ := Between.cons_iff.1 hbetween
    exact decodeWith_option_ok_iff.2 (.inr ⟨i, htag, h.read buf i e hback hroom⟩)

/-- A result carries a success, behind a zero. -/
theorem ok {err : Codec} (h : Carries env c n bs w) : Carries env (.result c err) n (0 :: bs) (.ok w) where
  written := encodeWith_result_ok_iff.2 (.inl ⟨w, bs, rfl, h.written, rfl⟩)
  read := by
    intro buf o e hbetween hroom
    obtain ⟨i, htag, hback⟩ := Between.cons_iff.1 hbetween
    exact decodeWith_result_ok_iff.2 (.inl ⟨i, w, htag, h.read buf i e hback hroom, rfl⟩)

/-- A result carries a failure, behind a one. -/
theorem err {ok : Codec} (h : Carries env c n bs w) : Carries env (.result ok c) n (1 :: bs) (.err w) where
  written := encodeWith_result_ok_iff.2 (.inr ⟨w, bs, rfl, h.written, rfl⟩)
  read := by
    intro buf o e hbetween hroom
    obtain ⟨i, htag, hback⟩ := Between.cons_iff.1 hbetween
    exact decodeWith_result_ok_iff.2 (.inr ⟨i, w, htag, h.read buf i e hback hroom, rfl⟩)

section

variable {shape : Shape} {fields : List (String × Codec)}

/-- Fields that fit their class are read as an instance of it. This half is
shared by records and by the arms of enums, which read their fields alike. -/
theorem decodeRecord (hfit : FieldsFit shape fields) (h : CarriesEach env (fields.map (·.2)) n bs ws) {buf : Bytes}
    {o e : Nat} (hbetween : Between buf o e bs) (hroom : n ≤ max maxZeroSized (buf.length - e)) :
    Codec.decodeRecord (follow env) buf shape fields o = .ok (arranged shape ((fields.map (·.1)).zip ws), e) := by
  have hlen := h.length
  rw [List.length_map] at hlen
  exact decodeRecord_ok_iff.2 ⟨ws, h.read buf o e hbetween hroom, instanceOf_fit hfit hlen⟩

/-- The fields of an instance are read off it in order. -/
theorem encodeFields (hfit : FieldsFit shape fields) (h : CarriesEach env (fields.map (·.2)) n bs ws) :
    ∃ attributes, arranged shape ((fields.map (·.1)).zip ws) = .instance shape.name attributes ∧
      Codec.encodeFields (followEncode env) fields shape.name attributes = .ok bs := by
  have hlen := h.length
  rw [List.length_map] at hlen
  exact ⟨_, rfl, encodeFields_ok_iff.2 ⟨ws, attributesOf_arranged hfit hlen rfl, h.written⟩⟩

/-- A record carries the instance of its class that its fields make. -/
theorem struct (hfit : FieldsFit shape fields) (h : CarriesEach env (fields.map (·.2)) n bs ws) :
    Carries env (.struct shape fields) n bs (arranged shape ((fields.map (·.1)).zip ws)) where
  written := encodeWith_struct_ok_iff.2 (encodeFields hfit h)
  read := by
    intro buf o e hbetween hroom
    rw [decodeWith_struct]
    exact decodeRecord hfit h hbetween hroom

end

/-- **An enum** carries an instance of an arm behind the index, if its arms are
of distinct classes. -/
theorem «enum» {base : String} {arms : List Arm} {arm : Arm} {tag : UInt8}
    (hnodup : (arms.map fun arm => arm.2.1.name).Nodup)
    (hfind : (arms.find? fun arm => arm.1 == tag.toNat) = some arm) (hfit : FieldsFit arm.2.1 arm.2.2)
    (h : CarriesEach env (arm.2.2.map (·.2)) n bs ws) :
    Carries env (.enum base arms) n (tag :: bs) (arranged arm.2.1 ((arm.2.2.map (·.1)).zip ws)) where
  written := by
    obtain ⟨attributes, hinstance, hbody⟩ := encodeFields hfit h
    -- The class tells the arm, and the index of the arm is the byte.
    have harm : armOf? arms arm.2.1.name = some arm :=
      find?_reverse_of_nodup (fun a : Arm => a.2.1.name) hnodup (List.mem_of_find?_eq_some hfind)
    have hindex : arm.1 = tag.toNat := by simpa using List.find?_some hfind
    refine encodeWith_enum_ok_iff.2 ⟨_, attributes, arm, bs, hinstance, harm, hbody, ?_⟩
    rw [hindex, UInt8.ofNat_toNat]
  read := by
    intro buf o e hbetween hroom
    obtain ⟨i, htag, hback⟩ := Between.cons_iff.1 hbetween
    exact decodeWith_enum_ok_iff.2 ⟨tag, i, arm, htag, hfind, decodeRecord hfit h hback hroom⟩

/-- A reference carries what its target carries. Encoding and decoding follow it
with the fuel that is enough for all values and offsets, so the step costs
nothing. -/
theorem ref {name : String} (hc : env.codec? name = some c) (h : Carries env c n bs w) :
    Carries env (.ref name) n bs w where
  written := by
    have hwritten := h.written
    rw [← encode_eq] at hwritten
    simp only [encodeWith, followEncode, hc]
    exact hwritten
  read := by
    intro buf o e hbetween hroom
    have hread := h.read buf o e hbetween hroom
    rw [← decodeFrom_eq] at hread
    rw [decodeWith_ref, follow, hc]
    exact hread

/-! ## Whole byte strings -/

/-- What is carried is written as the bytes. -/
theorem encode_eq_ok (h : Carries env c n bs w) : encode env c w = .ok bs := by
  rw [encode_eq]
  exact h.written

/-- What is carried is decoded in front of enough other bytes. -/
theorem decodeFrom_append (h : Carries env c n bs w) {s : Bytes} (hroom : n ≤ max maxZeroSized s.length) :
    decodeFrom env c (bs ++ s) 0 = .ok (w, bs.length) := by
  have hmiddle := Between.middle [] bs s
  rw [List.nil_append, List.length_nil, Nat.zero_add] at hmiddle
  rw [decodeFrom_eq]
  refine h.read (bs ++ s) 0 bs.length hmiddle ?_
  rwa [List.length_append, Nat.add_sub_cancel_left]

/-- What is carried is read from the bytes, if they are the whole buffer and the
items without bytes in it are not too many. -/
theorem decode_eq (h : Carries env c n bs w) (hroom : n ≤ maxZeroSized) (flags : List Bool) :
    c.decode env flags bs = .ok w := by
  have hread := h.decodeFrom_append (s := []) (Nat.le_trans hroom (Nat.le_max_left _ _))
  rw [List.append_nil] at hread
  exact decode_ok_iff.2 hread

/-- **What is carried is all that is decoded.** Whatever is decoded from the
bytes, with room or without, is the value that they carry. -/
theorem eq_of_decode (h : Carries env c n bs w) {flags : List Bool} {v : Value}
    (hdecode : c.decode env flags bs = .ok v) : v = w := by
  have hall : Between bs 0 bs.length bs := by
    have hmiddle := Between.middle [] bs []
    rwa [List.nil_append, List.append_nil, List.length_nil, Nat.zero_add] at hmiddle
  obtain ⟨bs', hbetween, hmoved⟩ :=
    decodeFrom_movable env c bs 0 v bs.length (Nat.zero_le _) (decode_ok_iff.1 hdecode)
  obtain rfl := hall.unique hbetween
  -- Both are decoded in front of so many other bytes.
  have hmiddle := Between.middle [] bs (List.replicate n 0)
  rw [List.nil_append, List.length_nil, Nat.zero_add] at hmiddle
  have hthere := hmoved _ 0 bs.length hmiddle (by rw [Nat.sub_self]; exact Nat.zero_le _)
  have hcarried := h.decodeFrom_append (s := List.replicate n 0)
    (by rw [List.length_replicate]; exact Nat.le_max_right _ _)
  exact (Prod.mk.inj (Except.ok.inj (hthere.symm.trans hcarried))).1

end Carries

end ContractClient.Codec
