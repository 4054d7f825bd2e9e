/-
Reading is the same everywhere.

A decoder is given a whole buffer and an offset in it, and nothing keeps it from
looking around. It does not: bytes that it reads as a value are read as this
value wherever they stand. The one thing that it asks of the rest of the buffer
is its length, since a sequence is not read item by item if it has more items
than there are bytes left. So the bytes are read alike wherever at least as many
bytes stand behind them; the two ways to read a sequence agree where both of
them read it. In particular a buffer may go on behind what was read of it.
-/
import ContractClient.Proofs.Scale.Form
import ContractClient.Proofs.Scale.References

set_option autoImplicit false

namespace ContractClient.Codec

/-- Whether bytes that are decoded within a buffer are decoded alike wherever
they stand, with as many bytes behind them. -/
def Movable (f : Decoder) : Prop :=
  ∀ buf o v e, o ≤ buf.length → f buf o = .ok (v, e) → ∃ bs, Between buf o e bs ∧
    ∀ buf' o' e', Between buf' o' e' bs → buf.length - e ≤ buf'.length - e' → f buf' o' = .ok (v, e')

/-- What is read of a leaf depends on its bytes alone. A leaf does not look at
what is left behind it, so the room behind does not matter here. -/
theorem decodeLeaf_movable {c : Codec} (hleaf : c.isLeaf = true) : Movable (decodeLeaf c) := by
  intro buf o v e _ h
  obtain ⟨bs, hbetween, hencode⟩ := encodeLeaf_of_decodeLeaf hleaf h
  refine ⟨bs, hbetween, fun buf' o' e' hbetween' _ => ?_⟩
  by_cases hnewtype : ∀ length kind, c = .fixedBytes length (some kind) → length = 32
  · -- The bytes are read at both places as the same value, which has been read at the first one.
    have hlone := isLoneChar_of_decodeLeaf hleaf h
    have hhere := decodeLeaf_of_encodeLeaf hleaf hnewtype hlone hencode hbetween
    have hthere := decodeLeaf_of_encodeLeaf hleaf hnewtype hlone hencode hbetween'
    have hsame := (Prod.mk.inj (Except.ok.inj (h.symm.trans hhere))).1
    rwa [← hsame] at hthere
  · push Not at hnewtype
    obtain ⟨length, kind, rfl, hlength⟩ := hnewtype
    rw [decodeLeaf, decodeWith] at h
    obtain ⟨-, -, -, h32, -⟩ := decodeFixedBytes_ok_iff.1 h
    exact absurd (h32 (by simp)) hlength

section

variable {deref : Deref} {buf : Bytes} {o e : Nat}

/-- The parts of a tuple stand behind each other at both places, so behind each
there is as much as before. What is left behind a part is asked for, and not
only that the part itself stands there, because a sequence compares its count
with what is left. -/
theorem decodeTuple_movable {codecs : List Codec} (h : ∀ c ∈ codecs, Movable (decodeWith deref c))
    {vs : List Value} (ho : o ≤ buf.length) (hdecode : decodeTuple deref codecs buf o = .ok (vs, e)) :
    ∃ bs, Between buf o e bs ∧ ∀ buf' o' e', Between buf' o' e' bs → buf.length - e ≤ buf'.length - e' →
      decodeTuple deref codecs buf' o' = .ok (vs, e') := by
  induction codecs generalizing o vs with
  | nil =>
    rw [decodeTuple_nil] at hdecode
    cases hdecode
    refine ⟨[], Between.nil_iff.2 ⟨rfl, ho⟩, fun buf' o' e' hbetween _ => ?_⟩
    rw [decodeTuple_nil, (Between.nil_iff.1 hbetween).1]
  | cons c codecs ih =>
    obtain ⟨hc, hcodecs⟩ := List.forall_mem_cons.1 h
    obtain ⟨w, i, ws, hhead, htail, rfl⟩ := decodeTuple_cons_ok_iff.1 hdecode
    obtain ⟨head, hfront, hw⟩ := hc buf o w i ho hhead
    obtain ⟨tail, hback, hws⟩ := ih hcodecs hfront.2.1 htail
    refine ⟨head ++ tail, hfront.append hback, fun buf' o' e' hbetween hroom => ?_⟩
    obtain ⟨i', hfront', hback'⟩ := Between.append_iff.1 hbetween
    -- What is left behind the head is the tail and what is left behind the tail.
    have hrest : buf.length - i ≤ buf'.length - i' := by
      have := hback.length_eq
      have := hback'.length_eq
      have := hback.2.1
      have := hback'.2.1
      omega
    exact decodeTuple_cons_ok_iff.2 ⟨w, i', ws, hw buf' o' i' hfront' hrest, hws buf' i' e' hback' hroom, rfl⟩

/-- Copies of a part are moved as parts are. -/
theorem decodeCopies_movable {item : Codec} (h : Movable (decodeWith deref item)) {n : Nat} {vs : List Value}
    (ho : o ≤ buf.length) (hdecode : decodeTuple deref (List.replicate n item) buf o = .ok (vs, e)) :
    ∃ bs, Between buf o e bs ∧ ∀ buf' o' e', Between buf' o' e' bs → buf.length - e ≤ buf'.length - e' →
      decodeTuple deref (List.replicate n item) buf' o' = .ok (vs, e') :=
  decodeTuple_movable (fun _ hc => (List.eq_of_mem_replicate hc).symm ▸ h) ho hdecode

/-- What is read without bytes is read any number of times. -/
theorem decodeCopies_still {item : Codec} {w : Value} (h : decodeWith deref item buf o = .ok (w, o)) (n : Nat) :
    decodeTuple deref (List.replicate n item) buf o = .ok (List.replicate n w, o) := by
  induction n with
  | zero => exact decodeTuple_nil deref buf o
  | succ n ih => exact decodeTuple_cons_ok_iff.2 ⟨w, o, _, h, ih, rfl⟩

/-- **Both ways to read a sequence** read the same where both of them read it. A
sequence whose items take no bytes is read by a probe where the count exceeds
what is left, and item by item where it does not; as each item reads as the
probe did, both give the same list. -/
theorem decodeSeq_movable {item : Codec} (h : Movable (decodeWith deref item)) :
    Movable (decodeWith deref (.seq item)) := by
  intro buf o v e ho hdecode
  obtain ⟨n, i, hcount, hitems⟩ := decodeWith_seq_ok_iff.1 hdecode
  obtain ⟨head, hhead, hfront⟩ := decodeCount_ok_iff.1 hcount
  rcases hitems with ⟨hlarge, hn, rfl, w, hprobe, rfl⟩ | ⟨hsmall, vs, hvs, rfl⟩
  · refine ⟨head, hfront, fun buf' o' i' hfront' hroom => ?_⟩
    have hcount' := decodeCount_ok_iff.2 ⟨head, hhead, hfront'⟩
    obtain ⟨bs, hback, hw⟩ := h buf i w i hfront.2.1 hprobe
    have hnil : bs = [] := by
      have hlen := hback.length_eq
      exact List.eq_nil_of_length_eq_zero (by omega)
    subst hnil
    have hprobe' := hw buf' i' i' (Between.nil_iff.2 ⟨rfl, hfront'.2.1⟩) hroom
    -- With more bytes behind them the items may be read one by one, each of them as the probe.
    by_cases hlarge' : buf'.length < n + i'
    · exact decodeWith_seq_ok_iff.2 ⟨n, i', hcount', .inl ⟨hlarge', hn, rfl, w, hprobe', rfl⟩⟩
    · exact decodeWith_seq_ok_iff.2
        ⟨n, i', hcount', .inr ⟨Nat.le_of_not_lt hlarge', _, decodeCopies_still hprobe' n, rfl⟩⟩
  · obtain ⟨body, hback, hmoved⟩ := decodeCopies_movable h hfront.2.1 hvs
    refine ⟨head ++ body, hfront.append hback, fun buf' o' e' hbetween hroom => ?_⟩
    obtain ⟨i', hfront', hback'⟩ := Between.append_iff.1 hbetween
    have hcount' := decodeCount_ok_iff.2 ⟨head, hhead, hfront'⟩
    have hsmall' : n + i' ≤ buf'.length := by
      have := hback.length_eq
      have := hback'.length_eq
      have := hback.2.1
      have := hback'.2.1
      omega
    exact decodeWith_seq_ok_iff.2 ⟨n, i', hcount', .inr ⟨hsmall', vs, hmoved buf' i' e' hback' hroom, rfl⟩⟩

/-- A record is moved as its fields are, since making the instance does not look
at the buffer. -/
theorem decodeRecord_movable {shape : Shape} {fields : List (String × Codec)}
    (h : ∀ f ∈ fields, Movable (decodeWith deref f.2)) {v : Value} (ho : o ≤ buf.length)
    (hdecode : decodeRecord deref buf shape fields o = .ok (v, e)) :
    ∃ bs, Between buf o e bs ∧ ∀ buf' o' e', Between buf' o' e' bs → buf.length - e ≤ buf'.length - e' →
      decodeRecord deref buf' shape fields o' = .ok (v, e') := by
  obtain ⟨vs, hvs, hinstance⟩ := decodeRecord_ok_iff.1 hdecode
  have hfields : ∀ c ∈ fields.map (·.2), Movable (decodeWith deref c) := by
    intro c hc
    obtain ⟨f, hf, rfl⟩ := List.mem_map.1 hc
    exact h f hf
  obtain ⟨bs, hbetween, hmoved⟩ := decodeTuple_movable hfields ho hvs
  exact ⟨bs, hbetween, fun buf' o' e' hbetween' hroom =>
    decodeRecord_ok_iff.2 ⟨vs, hmoved buf' o' e' hbetween' hroom, hinstance⟩⟩

/-- **Codecs read alike everywhere** if references do. What was read took a
certain piece of the bytes, and wherever this piece stands with no less behind
it, the same is read. The offset moves along, and so does the end. -/
theorem decodeWith_movable (hderef : ∀ name, Movable (deref name)) (c : Codec) : Movable (decodeWith deref c) := by
  -- Along the codec: each part took bytes of its own, which stand one behind the other
  -- wherever they are moved.
  induction c using tree_induction with
  | leaf c hleaf =>
    intro buf o v e ho hdecode
    rw [decodeWith_leaf hleaf] at hdecode
    obtain ⟨bs, hbetween, hmoved⟩ := decodeLeaf_movable hleaf buf o v e ho hdecode
    refine ⟨bs, hbetween, fun buf' o' e' hbetween' hroom => ?_⟩
    rw [decodeWith_leaf hleaf]
    exact hmoved buf' o' e' hbetween' hroom
  | seq item ih => exact decodeSeq_movable ih
  | array item length ih =>
    intro buf o v e ho hdecode
    obtain ⟨vs, hvs, rfl⟩ := decodeWith_array_ok_iff.1 hdecode
    obtain ⟨bs, hbetween, hmoved⟩ := decodeCopies_movable ih ho hvs
    exact ⟨bs, hbetween, fun buf' o' e' hbetween' hroom =>
      decodeWith_array_ok_iff.2 ⟨vs, hmoved buf' o' e' hbetween' hroom, rfl⟩⟩
  | tuple codecs ih =>
    intro buf o v e ho hdecode
    obtain ⟨vs, hvs, rfl⟩ := decodeWith_tuple_ok_iff.1 hdecode
    obtain ⟨bs, hbetween, hmoved⟩ := decodeTuple_movable ih ho hvs
    exact ⟨bs, hbetween, fun buf' o' e' hbetween' hroom =>
      decodeWith_tuple_ok_iff.2 ⟨vs, hmoved buf' o' e' hbetween' hroom, rfl⟩⟩
  | option inner ih =>
    intro buf o v e ho hdecode
    obtain ⟨htag, rfl⟩ | ⟨i, htag, hinner⟩ := decodeWith_option_ok_iff.1 hdecode
    · exact ⟨[0], htag, fun buf' o' e' htag' _ => decodeWith_option_ok_iff.2 (.inl ⟨htag', rfl⟩)⟩
    · obtain ⟨body, hback, hmoved⟩ := ih buf i v e htag.2.1 hinner
      refine ⟨1 :: body, htag.append hback, fun buf' o' e' hbetween hroom => ?_⟩
      obtain ⟨i', htag', hback'⟩ := Between.cons_iff.1 hbetween
      exact decodeWith_option_ok_iff.2 (.inr ⟨i', htag', hmoved buf' i' e' hback' hroom⟩)
  | result ok err ihok iherr =>
    intro buf o v e ho hdecode
    obtain ⟨i, w, htag, hw, rfl⟩ | ⟨i, w, htag, hw, rfl⟩ := decodeWith_result_ok_iff.1 hdecode
    · obtain ⟨body, hback, hmoved⟩ := ihok buf i w e htag.2.1 hw
      refine ⟨0 :: body, htag.append hback, fun buf' o' e' hbetween hroom => ?_⟩
      obtain ⟨i', htag', hback'⟩ := Between.cons_iff.1 hbetween
      exact decodeWith_result_ok_iff.2 (.inl ⟨i', w, htag', hmoved buf' i' e' hback' hroom, rfl⟩)
    · obtain ⟨body, hback, hmoved⟩ := iherr buf i w e htag.2.1 hw
      refine ⟨1 :: body, htag.append hback, fun buf' o' e' hbetween hroom => ?_⟩
      obtain ⟨i', htag', hback'⟩ := Between.cons_iff.1 hbetween
      exact decodeWith_result_ok_iff.2 (.inr ⟨i', w, htag', hmoved buf' i' e' hback' hroom, rfl⟩)
  | struct shape fields ih =>
    intro buf o v e ho hdecode
    rw [decodeWith_struct] at hdecode
    obtain ⟨bs, hbetween, hmoved⟩ := decodeRecord_movable ih ho hdecode
    refine ⟨bs, hbetween, fun buf' o' e' hbetween' hroom => ?_⟩
    rw [decodeWith_struct]
    exact hmoved buf' o' e' hbetween' hroom
  | enum base arms ih =>
    intro buf o v e ho hdecode
    obtain ⟨tag, i, arm, htag, hfind, hrecord⟩ := decodeWith_enum_ok_iff.1 hdecode
    obtain ⟨body, hback, hmoved⟩ :=
      decodeRecord_movable (ih arm (List.mem_of_find?_eq_some hfind)) htag.2.1 hrecord
    refine ⟨tag :: body, htag.append hback, fun buf' o' e' hbetween hroom => ?_⟩
    obtain ⟨i', htag', hback'⟩ := Between.cons_iff.1 hbetween
    exact decodeWith_enum_ok_iff.2 ⟨tag, i', arm, htag', hfind, hmoved buf' i' e' hback' hroom⟩
  | ref name =>
    intro buf o v e ho hdecode
    rw [decodeWith_ref] at hdecode
    obtain ⟨bs, hbetween, hmoved⟩ := hderef name buf o v e ho hdecode
    refine ⟨bs, hbetween, fun buf' o' e' hbetween' hroom => ?_⟩
    rw [decodeWith_ref]
    exact hmoved buf' o' e' hbetween' hroom

end

/-- Following a name can be moved, with any amount of fuel. The induction is on
the fuel, and each level is `decodeWith_movable` for the level below. -/
theorem derefFuel_movable (env : Environment) (n : Nat) (name : String) : Movable (derefFuel env n name) := by
  induction n generalizing name with
  | zero =>
    intro buf o v e _ hdecode
    cases hdecode
  | succ n ih =>
    intro buf o v e ho hdecode
    simp only [derefFuel] at hdecode ⊢
    cases hcodec : env.codec? name with
    | none => simp [hcodec] at hdecode
    | some d =>
      rw [hcodec] at hdecode
      exact decodeWith_movable ih d buf o v e ho hdecode

/-- **Bytes are decoded alike wherever they stand**, with at least as many bytes
behind them. -/
theorem decodeFrom_movable (env : Environment) (c : Codec) : Movable (decodeFrom env c) := by
  intro buf o v e ho hdecode
  obtain ⟨bs, hbetween, hmoved⟩ := decodeWith_movable (derefFuel_movable env _) c buf o v e ho hdecode
  -- What is enough fuel at one place is some fuel at the other one.
  exact ⟨bs, hbetween, fun buf' o' e' hbetween' hroom =>
    decodeFrom_of_fuel env buf' (hmoved buf' o' e' hbetween' hroom)⟩

/-- Bytes behind a buffer are not read, and make no difference to what is. -/
theorem decodeFrom_append {env : Environment} {c : Codec} {buf : Bytes} {o e : Nat} {v : Value}
    (ho : o ≤ buf.length) (h : decodeFrom env c buf o = .ok (v, e)) (s : Bytes) :
    decodeFrom env c (buf ++ s) o = .ok (v, e) := by
  obtain ⟨bs, hbetween, hmoved⟩ := decodeFrom_movable env c buf o v e ho h
  refine hmoved (buf ++ s) o e (hbetween.append_right s) ?_
  rw [List.length_append]
  omega

/-- **A successful decode is stable.** It ends within the buffer and not before
it begins, and gives the same with more bytes behind the buffer. -/
theorem decodeFrom_stable (env : Environment) (c : Codec) {buf : Bytes} {o e : Nat} {v : Value}
    (ho : o ≤ buf.length) (h : decodeFrom env c buf o = .ok (v, e)) :
    o ≤ e ∧ e ≤ buf.length ∧ ∀ s, decodeFrom env c (buf ++ s) o = .ok (v, e) := by
  obtain ⟨bs, hbetween, -⟩ := decodeFrom_movable env c buf o v e ho h
  exact ⟨hbetween.1, hbetween.2.1, decodeFrom_append ho h⟩

/-- Three units are more than the one byte behind their count, so only the first
one is read. With two bytes more they are read one by one. -/
theorem decodeFrom_stable_units :
    decodeFrom ⟨[]⟩ (.tuple [.seq (.tuple []), .bool]) ([12, 1] ++ [7, 7]) 0 =
      .ok (.tuple [.list [.tuple [], .tuple [], .tuple []], .bool true], 2) :=
  (decodeFrom_stable ⟨[]⟩ (.tuple [.seq (.tuple []), .bool]) (Nat.zero_le 2) (by rfl)).2.2 [7, 7]

end ContractClient.Codec
