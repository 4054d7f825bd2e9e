/-
What is encoded is decoded.

Encoding takes more values than decoding gives: lists and tuples alike, byte
strings of every kind. `canon` is the value among those with one encoding that
decoding gives: a list for a sequence, a tuple for an array or a tuple, bytes
for byte strings or the thirty-two bytes type, and instances with the attributes
of their class.

The one obstacle is the sequence. Its decoder counts the bytes that are left in
the whole buffer, so the same encoding takes one way in front of a long suffix
and another in front of a short one. The short way decodes a single item and
copies it, which is right because items without bytes are all one value: if one
value of a codec is encoded to nothing then all are, `uniform_of_regular`. It is
also the reason why sequences of such items have to be `Modest`.

The proof is by induction on the fuel and, for each amount of it, on the codec;
the same fuel is used to encode, to decode and to normalise, and
`decodeFrom_of_fuel` removes it at the end.
-/
import ContractClient.Proofs.Scale.Parts
import ContractClient.Scale.Display

set_option autoImplicit false

namespace ContractClient.Codec

/-! ## Canonical values -/

mutual

/-- The value that decoding gives for one that was encoded, where `deref` does
so for declared codecs. -/
def canonWith (deref : String → Value → Value) : Codec → Value → Value
  | .seq item, v => v.items?.elim v fun items => .list (items.map (canonWith deref item))
  | .array item _, v => v.items?.elim v fun items => .tuple (items.map (canonWith deref item))
  | .tuple codecs, v => v.items?.elim v fun items => .tuple (canonTuple deref codecs items)
  | .option inner, v =>
    match v with
    | .none => .none
    | v => canonWith deref inner v
  | .result ok err, v =>
    match v with
    | .ok v => .ok (canonWith deref ok v)
    | .err v => .err (canonWith deref err v)
    | v => v
  | .struct shape fields, v =>
    match v with
    | .instance _ attributes => arranged shape (canonFields deref fields attributes)
    | v => v
  | .enum _ arms, v =>
    match v with
    | .instance cls attributes => (canonArms deref arms cls attributes).getD v
    | v => v
  | .ref name, v => deref name v
  | .bool, v => v
  | .int _ _, v => v
  | .compact _, v => v
  | .str, v => v
  | .char, v => v
  | .bytes, v => canonLeaf .bytes v
  | .fixedBytes length newtype, v => canonLeaf (.fixedBytes length newtype) v

/-- The canonical values of as many values as there are codecs. -/
def canonTuple (deref : String → Value → Value) : List Codec → List Value → List Value
  | c :: codecs, v :: items => canonWith deref c v :: canonTuple deref codecs items
  | _, _ => []

/-- The canonical values of the attributes that the fields name. -/
def canonFields (deref : String → Value → Value) :
    List (String × Codec) → List (String × Value) → List (String × Value)
  | [], _ => []
  | (name, c) :: fields, attributes =>
    match attributes.find? (·.1 == name) with
    | some (_, v) => (name, canonWith deref c v) :: canonFields deref fields attributes
    | none => canonFields deref fields attributes

/-- The canonical instance of the last arm of a class, if there is one. -/
def canonArms (deref : String → Value → Value) :
    List (Nat × Shape × List (String × Codec)) → String → List (String × Value) → Option Value
  | [], _, _ => none
  | (_, shape, fields) :: arms, cls, attributes =>
    match canonArms deref arms cls attributes with
    | some v => some v
    | none => if shape.name = cls then some (arranged shape (canonFields deref fields attributes)) else none

end

/-- How references are followed as often as the fuel says. -/
def canonFuel (env : Environment) : (fuel : Nat) → String → Value → Value
  | 0, _, v => v
  | fuel + 1, name, v =>
    match env.codec? name with
    | some c => canonWith (canonFuel env fuel) c v
    | none => v

/-- **The canonical value.** The value that decoding gives where a value was
encoded. -/
def canon (env : Environment) (c : Codec) (v : Value) : Value :=
  canonWith (canonFuel env (encodeFuelFor env v)) c v

section

variable (deref : String → Value → Value)

/-- At a leaf no reference is followed. -/
theorem canonWith_leaf {c : Codec} (h : c.isLeaf = true) (v : Value) :
    canonWith deref c v = canonLeaf c v := by
  cases c <;> simp only [isLeaf, Bool.false_eq_true] at h <;> simp only [canonWith, canonLeaf]

/-- The canonical items of a sequence are those of its items. -/
theorem canonTuple_copies (item : Codec) (items : List Value) :
    canonTuple deref (List.replicate items.length item) items = items.map (canonWith deref item) := by
  induction items with
  | nil => simp only [List.length_nil, List.replicate_zero, canonTuple, List.map_nil]
  | cons v items ih =>
    simp only [List.length_cons, List.replicate_succ, canonTuple, ih, List.map_cons]

/-- There are as many canonical items as items. -/
theorem length_canonTuple {codecs : List Codec} {items : List Value} (h : items.length = codecs.length) :
    (canonTuple deref codecs items).length = codecs.length := by
  induction codecs generalizing items with
  | nil => simp only [canonTuple, List.length_nil]
  | cons c codecs ih =>
    cases items with
    | nil => simp at h
    | cons v items =>
      simp only [canonTuple, List.length_cons, ih (by simpa using h)]

/-- Fields are the tuple of the attributes that they name. That all attributes
are there is the hypothesis, as it is when the fields are encoded. -/
theorem canonFields_eq {cls : String} {fields : List (String × Codec)} {attributes : List (String × Value)}
    {vs : List Value} (h : attributesOf cls attributes (fields.map (·.1)) = .ok vs) :
    canonFields deref fields attributes =
      (fields.map (·.1)).zip (canonTuple deref (fields.map (·.2)) vs) := by
  induction fields generalizing vs with
  | nil => simp only [canonFields, List.map_nil, List.zip_nil_left]
  | cons f fields ih =>
    obtain ⟨name, c⟩ := f
    simp only [List.map_cons, attributesOf, List.mapM_cons] at h
    obtain ⟨v, hv, h⟩ := bind_ok_iff.1 h
    obtain ⟨ws, hws, heq⟩ := bind_ok_iff.1 h
    cases heq
    unfold attributeOf at hv
    cases hfind : attributes.find? (·.1 == name) with
    | none => simp [hfind] at hv
    | some found =>
      rw [hfind] at hv
      cases hv
      simp only [canonFields, hfind, List.map_cons, canonTuple, List.zip_cons_cons, ih hws]

/-- The arm of a class is looked up as encoding looks it up: where several arms
have one class, the last one counts. -/
theorem canonArms_eq (arms : List Arm) (cls : String) (attributes : List (String × Value)) :
    canonArms deref arms cls attributes =
      (armOf? arms cls).map fun arm => arranged arm.2.1 (canonFields deref arm.2.2 attributes) := by
  induction arms with
  | nil => rfl
  | cons arm arms ih =>
    obtain ⟨index, shape, fields⟩ := arm
    simp only [canonArms, ih, armOf?, List.reverse_cons, List.find?_append]
    cases hfound : arms.reverse.find? fun arm => arm.2.1.name == cls with
    | some found => simp
    | none =>
      by_cases h : shape.name = cls
      · simp [h]
      · simp [h]

end

/-! ## What is asked of codecs -/

/-- Whether a codec is one that its constructor makes and whose records are
those of their classes: a thirty-two bytes type is asked for thirty-two bytes,
fields are those of the class, and the indices of arms are bytes and
distinct. -/
def Regular : Codec → Prop
  | .fixedBytes length (some _) => length = 32
  | .struct shape fields => FieldsFit shape fields
  | .enum _ arms =>
    (arms.map (·.1)).Nodup ∧ ∀ arm ∈ arms, arm.1 ≤ 255 ∧ FieldsFit arm.2.1 arm.2.2
  | _ => True

/-! ## Encodings without bytes -/

/-- Whether a way of encoding gives nothing for all values if it does for
one. -/
def Uniform (encode : Value → Except EncodeError Bytes) : Prop :=
  ∀ v w bs, encode v = .ok [] → encode w = .ok bs → bs = []

section

variable {deref : EncodeDeref}

/-- If each part can be encoded without bytes only if it always is, so can all
of them together. What is written is the concatenation of the parts, so it is
empty only if each of them is. -/
theorem encodeTuple_uniform {codecs : List Codec} (h : ∀ c ∈ codecs, Uniform (encodeWith deref c))
    {items others : List Value} {bs : Bytes} (hlen : items.length = codecs.length)
    (hnil : encodeTuple deref codecs items = .ok []) (hbs : encodeTuple deref codecs others = .ok bs) :
    bs = [] := by
  induction codecs generalizing items others bs with
  | nil =>
    simp only [encodeTuple, Except.ok.injEq] at hbs
    exact hbs.symm
  | cons c codecs ih =>
    cases items with
    | nil => simp at hlen
    | cons v items =>
      cases others with
      | nil =>
        simp only [encodeTuple, Except.ok.injEq] at hbs
        exact hbs.symm
      | cons w others =>
        obtain ⟨head, tail, hhead, htail, heq⟩ := encodeTuple_cons_ok_iff.1 hnil
        obtain ⟨rfl, rfl⟩ := List.append_eq_nil_iff.1 heq
        obtain ⟨head, tail, hhead', htail', rfl⟩ := encodeTuple_cons_ok_iff.1 hbs
        have hfirst := h c List.mem_cons_self v w head hhead hhead'
        have hrest := ih (fun c' hc' => h c' (List.mem_cons_of_mem _ hc')) (by simpa using hlen) htail htail'
        rw [hfirst, hrest, List.append_nil]

/-- **A codec that encodes one value as no bytes encodes every value as no
bytes.** No codec chooses between no bytes and some; where there is a choice, as
in an option, a result or an enum, the choice itself takes a byte. -/
theorem encodeWith_uniform (hderef : ∀ name, Uniform (deref name)) (c : Codec) :
    Uniform (encodeWith deref c) := by
  induction c using tree_induction with
  | leaf c hleaf =>
    intro v w bs hv hw
    rw [encodeWith_leaf hleaf] at hv hw
    exact encodeLeaf_nil hleaf hv hw
  | seq item =>
    intro v w bs hv hw
    obtain ⟨items, head, body, -, hhead, -, heq⟩ := encodeWith_seq_ok_iff.1 hv
    rw [(List.append_eq_nil_iff.1 heq).1] at hhead
    -- A sequence writes its count, so it never writes nothing.
    exact absurd hhead encodeCount_ne_nil
  | array item length ih =>
    intro v w bs hv hw
    obtain ⟨items, -, hlen, hitems⟩ := encodeWith_array_ok_iff.1 hv
    obtain ⟨others, -, -, hothers⟩ := encodeWith_array_ok_iff.1 hw
    refine encodeTuple_uniform ?_ (by rw [hlen, List.length_replicate]) hitems hothers
    intro c hc
    rw [List.eq_of_mem_replicate hc]
    exact ih
  | tuple codecs ih =>
    intro v w bs hv hw
    obtain ⟨items, -, hlen, hitems⟩ := encodeWith_tuple_ok_iff.1 hv
    obtain ⟨others, -, -, hothers⟩ := encodeWith_tuple_ok_iff.1 hw
    exact encodeTuple_uniform ih hlen hitems hothers
  | option inner =>
    intro v w bs hv hw
    obtain ⟨-, hnil⟩ | ⟨-, body, -, hnil⟩ := encodeWith_option_ok_iff.1 hv
    -- An option writes its tag, and so does a result below.
    · cases hnil
    · cases hnil
  | result ok err =>
    intro v w bs hv hw
    obtain ⟨x, body, -, -, hnil⟩ | ⟨x, body, -, -, hnil⟩ := encodeWith_result_ok_iff.1 hv
    · cases hnil
    · cases hnil
  | struct shape fields ih =>
    intro v w bs hv hw
    obtain ⟨attributes, -, hfields⟩ := encodeWith_struct_ok_iff.1 hv
    obtain ⟨others, -, hothers⟩ := encodeWith_struct_ok_iff.1 hw
    obtain ⟨vs, hvs, htuple⟩ := encodeFields_ok_iff.1 hfields
    obtain ⟨ws, -, htuple'⟩ := encodeFields_ok_iff.1 hothers
    have hlen := (attributesOf_ok_iff.1 hvs).1
    rw [List.length_map] at hlen
    refine encodeTuple_uniform ?_ (by rw [hlen, List.length_map]) htuple htuple'
    intro c hc
    obtain ⟨f, hf, rfl⟩ := List.mem_map.1 hc
    exact ih f hf
  | enum base arms =>
    intro v w bs hv hw
    obtain ⟨cls, attributes, arm, body, -, -, -, hnil⟩ := encodeWith_enum_ok_iff.1 hv
    cases hnil
  | ref name =>
    intro v w bs hv hw
    simp only [encodeWith] at hv hw
    exact hderef name v w bs hv hw

end

/-- **All or nothing.** A codec that encodes one value without bytes encodes all
values without bytes. -/
theorem encodeFuel_uniform (env : Environment) (n : Nat) (name : String) : Uniform (encodeFuel env n name) := by
  induction n generalizing name with
  | zero =>
    intro v w bs hv
    cases hv
  | succ n ih =>
    intro v w bs hv hw
    simp only [encodeFuel] at hv hw
    cases hcodec : env.codec? name with
    | none => simp [hcodec] at hv
    | some c =>
      rw [hcodec] at hv hw
      exact encodeWith_uniform ih c v w bs hv hw

/-- Either there is a byte for each item, or one of the items has none. In the
second case none of the items has, by uniformity, and there the two ways of
reading a sequence part. -/
theorem exists_nil_or_length_le {deref : EncodeDeref} {item : Codec} {items : List Value} {body : Bytes}
    (h : encodeTuple deref (List.replicate items.length item) items = .ok body) :
    (∃ x ∈ items, encodeWith deref item x = .ok []) ∨ items.length ≤ body.length := by
  induction items generalizing body with
  | nil => exact .inr (Nat.zero_le _)
  | cons x items ih =>
    rw [List.length_cons, List.replicate_succ] at h
    obtain ⟨head, tail, hhead, htail, rfl⟩ := encodeTuple_cons_ok_iff.1 h
    cases head with
    | nil => exact .inl ⟨x, List.mem_cons_self, hhead⟩
    | cons b head =>
      rcases ih htail with ⟨y, hy, hnil⟩ | hle
      · exact .inl ⟨y, List.mem_cons_of_mem _ hy, hnil⟩
      · right
        simp only [List.length_cons, List.length_append]
        omega

/-- Items without bytes have no bytes together. -/
theorem encodeCopies_nil {deref : EncodeDeref} {item : Codec} {items : List Value}
    (h : ∀ x ∈ items, encodeWith deref item x = .ok []) :
    encodeTuple deref (List.replicate items.length item) items = .ok [] := by
  induction items with
  | nil => simp only [List.length_nil, List.replicate_zero, encodeTuple]
  | cons x items ih =>
    obtain ⟨hx, hitems⟩ := List.forall_mem_cons.1 h
    rw [List.length_cons, List.replicate_succ, encodeTuple_cons_ok_iff]
    exact ⟨[], [], hx, ih hitems, rfl⟩

/-- All items are encoded if they are encoded in turn. -/
theorem exists_encoding {deref : EncodeDeref} {item : Codec} {items : List Value} {body : Bytes}
    (h : encodeTuple deref (List.replicate items.length item) items = .ok body) {x : Value} (hx : x ∈ items) :
    ∃ bs, encodeWith deref item x = .ok bs := by
  induction items generalizing body with
  | nil => cases hx
  | cons y items ih =>
    rw [List.length_cons, List.replicate_succ] at h
    obtain ⟨head, tail, hhead, htail, rfl⟩ := encodeTuple_cons_ok_iff.1 h
    rcases List.mem_cons.1 hx with rfl | hx
    · exact ⟨head, hhead⟩
    · exact ih htail hx

/-! ## Reading back -/

/-- Whether a codec reads back what it writes, with references followed `n`
deep: unbroken values as their canonical ones, and others not at all. -/
def ReadsBack (env : Environment) (n : Nat) (c : Codec) : Prop :=
  ∀ v bs, encodeWith (encodeFuel env n) c v = .ok bs → Modest env c v →
    ∀ buf o e, Between buf o e bs → ∀ w i, decodeWith (derefFuel env n) c buf o = .ok (w, i) ↔
      Unbroken env c v ∧ w = canonWith (canonFuel env n) c v ∧ i = e

section

variable {env : Environment} {n : Nat}

/-- A tuple is read back part by part. A part that is not read back stops the
reading, so that nothing is asked of the parts behind it. -/
theorem decodeTuple_readsBack {codecs : List Codec} (h : ∀ c ∈ codecs, ReadsBack env n c)
    {items : List Value} {bs : Bytes} (hlen : items.length = codecs.length)
    (hencode : encodeTuple (encodeFuel env n) codecs items = .ok bs)
    (hmodest : ∀ p ∈ codecs.zip items, Modest env p.1 p.2) {buf : Bytes} {o e : Nat}
    (hbetween : Between buf o e bs) (ws : List Value) (i : Nat) :
    decodeTuple (derefFuel env n) codecs buf o = .ok (ws, i) ↔
      (∀ p ∈ codecs.zip items, Unbroken env p.1 p.2) ∧ ws = canonTuple (canonFuel env n) codecs items ∧
        i = e := by
  induction codecs generalizing items bs o ws with
  | nil =>
    simp only [encodeTuple, Except.ok.injEq] at hencode
    subst hencode
    obtain ⟨rfl, -⟩ := Between.nil_iff.1 hbetween
    simp [decodeTuple_nil, canonTuple, eq_comm]
  | cons c codecs ih =>
    cases items with
    | nil => simp at hlen
    | cons v items =>
      obtain ⟨head, tail, hhead, htail, rfl⟩ := encodeTuple_cons_ok_iff.1 hencode
      -- The offset between the first part and the others.
      obtain ⟨j, hfront, hback⟩ := Between.append_iff.1 hbetween
      obtain ⟨hv, hitems⟩ := List.forall_mem_cons.1 hmodest
      have hfirst := h c List.mem_cons_self v head hhead hv buf o j hfront
      have hrest := fun ws => ih (fun c' hc' => h c' (List.mem_cons_of_mem _ hc')) (by simpa using hlen) htail hitems
        hback ws
      rw [decodeTuple_cons_ok_iff, List.zip_cons_cons, List.forall_mem_cons, canonTuple]
      constructor
      · rintro ⟨w, k, ws, hw, hws, rfl⟩
        obtain ⟨hunbroken, rfl, rfl⟩ := (hfirst w k).1 hw
        obtain ⟨hall, rfl, rfl⟩ := (hrest ws).1 hws
        exact ⟨⟨hunbroken, hall⟩, rfl, rfl⟩
      · rintro ⟨⟨hunbroken, hall⟩, rfl, rfl⟩
        exact ⟨_, j, _, (hfirst _ _).2 ⟨hunbroken, rfl, rfl⟩, (hrest _).2 ⟨hall, rfl, rfl⟩, rfl⟩

/-- Items that are read back one by one are read back together, each at the end
of the one before. -/
theorem decodeCopies_readsBack {item : Codec} (h : ReadsBack env n item) {items : List Value} {bs : Bytes}
    (hencode : encodeTuple (encodeFuel env n) (List.replicate items.length item) items = .ok bs)
    (hmodest : ∀ x ∈ items, Modest env item x) {buf : Bytes} {o e : Nat} (hbetween : Between buf o e bs)
    (ws : List Value) (i : Nat) :
    decodeTuple (derefFuel env n) (List.replicate items.length item) buf o = .ok (ws, i) ↔
      (∀ x ∈ items, Unbroken env item x) ∧ ws = items.map (canonWith (canonFuel env n) item) ∧ i = e := by
  have hcopies : ∀ {P : Codec → Value → Prop},
      (∀ p ∈ (List.replicate items.length item).zip items, P p.1 p.2) ↔ ∀ x ∈ items, P item x := by
    intro P
    rw [← List.map_const', List.zip_map_left, List.zip_eq_zipWith, List.zipWith_self]
    simp
  rw [← canonTuple_copies, ← hcopies]
  refine decodeTuple_readsBack ?_ (by rw [List.length_replicate]) hencode (hcopies.2 hmodest) hbetween ws i
  intro c hc
  rw [List.eq_of_mem_replicate hc]
  exact h

/-- A record is the tuple of its attributes in the order of the fields, and
arranging them loses none. `FieldsFit` says that the class takes the fields
under these names, so arranging succeeds; what is read back has the attributes
in the order of the class. -/
theorem decodeRecord_readsBack {shape : Shape} {fields : List (String × Codec)}
    (hfit : FieldsFit shape fields) (h : ∀ f ∈ fields, ReadsBack env n f.2) {cls : String}
    {attributes : List (String × Value)} {bs : Bytes}
    (hencode : encodeFields (encodeFuel env n) fields cls attributes = .ok bs)
    (hmodest : ∀ f ∈ fields, ∀ x, attributeOf cls attributes f.1 = .ok x → Modest env f.2 x) {buf : Bytes}
    {o e : Nat} (hbetween : Between buf o e bs) (w : Value) (i : Nat) :
    decodeRecord (derefFuel env n) buf shape fields o = .ok (w, i) ↔
      (∀ f ∈ fields, ∀ x, attributeOf cls attributes f.1 = .ok x → Unbroken env f.2 x) ∧
        w = arranged shape (canonFields (canonFuel env n) fields attributes) ∧ i = e := by
  obtain ⟨vs, hvs, htuple⟩ := encodeFields_ok_iff.1 hencode
  have hlen := (attributesOf_ok_iff.1 hvs).1
  rw [List.length_map] at hlen
  have hcount : (canonTuple (canonFuel env n) (fields.map (·.2)) vs).length = fields.length := by
    rw [length_canonTuple _ (by rw [hlen, List.length_map]), List.length_map]
  have hcodecs : ∀ c ∈ fields.map (·.2), ReadsBack env n c := by
    intro c hc
    obtain ⟨f, hf, rfl⟩ := List.mem_map.1 hc
    exact h f hf
  -- The attributes are read back as a tuple; what is left is arranging them.
  have hreads := fun ws => decodeTuple_readsBack hcodecs (by rw [hlen, List.length_map]) htuple
    ((forall_attributes_iff hvs).2 hmodest) hbetween ws i
  have hinstance := instanceOf_fit hfit hcount
  rw [decodeRecord_ok_iff, canonFields_eq (canonFuel env n) hvs, ← forall_attributes_iff hvs]
  constructor
  · rintro ⟨ws, hws, hw⟩
    obtain ⟨hall, rfl, rfl⟩ := (hreads ws).1 hws
    exact ⟨hall, (Except.ok.inj (hinstance.symm.trans hw)).symm, rfl⟩
  · rintro ⟨hall, rfl, rfl⟩
    exact ⟨_, (hreads _).2 ⟨hall, rfl, rfl⟩, hinstance⟩

/-- **A sequence reads back** if its items do. If its items take no bytes there
must not be too many of them, which is what `Modest` says; otherwise there are
as many bytes left as items, since each takes one at least. -/
theorem decodeSeq_readsBack {item : Codec} (h : ReadsBack env n item) : ReadsBack env n (.seq item) := by
  intro v bs hencode hmodest buf o e hbetween w i
  obtain ⟨items, head, body, hitems, hhead, hbody, rfl⟩ := encodeWith_seq_ok_iff.1 hencode
  obtain ⟨j, hfront, hback⟩ := Between.append_iff.1 hbetween
  have hcount := decodeCount_ok_iff.2 ⟨head, hhead, hfront⟩
  have hparts : ∀ x ∈ items, Modest env item x := fun x hx => hmodest.part (.item hitems hx)
  have hcopies := decodeCopies_readsBack h hbody hparts hback
  simp only [canonWith, hitems, Option.elim_some]
  -- The count is what was written, so one of the two ways of reading remains.
  have hways : decodeWith (derefFuel env n) (.seq item) buf o = .ok (w, i) ↔
      (buf.length < items.length + j ∧ items.length ≤ maxZeroSized ∧ j = i ∧
        (∃ x, decodeWith (derefFuel env n) item buf j = .ok (x, j) ∧ w = .list (List.replicate items.length x)) ∨
      items.length + j ≤ buf.length ∧ ∃ ws,
        decodeTuple (derefFuel env n) (List.replicate items.length item) buf j = .ok (ws, i) ∧ w = .list ws) := by
    rw [decodeWith_seq_ok_iff]
    constructor
    · rintro ⟨m, k, hm, hway⟩
      cases hcount.symm.trans hm
      exact hway
    · exact fun hway => ⟨items.length, j, hcount, hway⟩
  rw [hways, unbroken_seq_iff hitems]
  by_cases hlarge : buf.length < items.length + j
  · -- fewer bytes are left than there are items, so some item and then every item has no bytes
    have hfew : body.length < items.length := by
      have := hback.length_eq
      have := hback.2.1
      omega
    obtain ⟨x, hx, hnil⟩ := (exists_nil_or_length_le hbody).resolve_right (Nat.not_le.2 hfew)
    have hall : ∀ y ∈ items, encodeWith (encodeFuel env n) item y = .ok [] := by
      intro y hy
      obtain ⟨bs, hbs⟩ := exists_encoding hbody hy
      rw [hbs, encodeWith_uniform (encodeFuel_uniform env n) item x y bs hnil hbs]
    have hempty : body = [] := by
      rw [encodeCopies_nil hall] at hbody
      cases hbody
      rfl
    subst hempty
    obtain ⟨rfl, hj⟩ := Between.nil_iff.1 hback
    have hprobe : ∀ y ∈ items, ∀ w i, decodeWith (derefFuel env n) item buf j = .ok (w, i) ↔
        Unbroken env item y ∧ w = canonWith (canonFuel env n) item y ∧ i = j := fun y hy =>
      h y [] (hall y hy) (hparts y hy) buf j j (Between.nil_iff.2 ⟨rfl, hj⟩)
    have hfits : items.length ≤ maxZeroSized :=
      hmodest item v items .refl hitems fun y hy => encode_of_fuel env (hall y hy)
    constructor
    · rintro (⟨-, -, rfl, y, hy, rfl⟩ | ⟨hsmall, -⟩)
      · -- All items are read at one offset, so all of them are the probe.
        refine ⟨fun z hz => ((hprobe z hz _ _).1 hy).1, congrArg Value.list ?_, rfl⟩
        refine (List.eq_replicate_iff.2 ⟨List.length_map _, fun u hu => ?_⟩).symm
        obtain ⟨z, hz, rfl⟩ := List.mem_map.1 hu
        exact ((hprobe z hz _ _).1 hy).2.1.symm
      · omega
    · rintro ⟨hunbroken, rfl, rfl⟩
      have hdecode := fun y hy => (hprobe y hy _ _).2 ⟨hunbroken y hy, rfl, rfl⟩
      refine .inl ⟨hlarge, hfits, rfl, canonWith (canonFuel env n) item x, hdecode x hx, ?_⟩
      rw [List.eq_replicate_iff.2 ⟨List.length_map _, fun u hu => ?_⟩]
      obtain ⟨y, hy, rfl⟩ := List.mem_map.1 hu
      have hsame := (hdecode y hy).symm.trans (hdecode x hx)
      exact (Prod.mk.inj (Except.ok.inj hsame)).1
  · constructor
    · rintro (⟨hless, -⟩ | ⟨-, ws, hws, rfl⟩)
      · exact absurd hless hlarge
      · obtain ⟨hunbroken, rfl, rfl⟩ := (hcopies _ _).1 hws
        exact ⟨hunbroken, rfl, rfl⟩
    · rintro ⟨hunbroken, rfl, rfl⟩
      exact .inr ⟨Nat.le_of_not_lt hlarge, _, (hcopies _ _).2 ⟨hunbroken, rfl, rfl⟩, rfl⟩

/-- The index is a byte, and decoding finds the arm that encoding took. Encoding
goes from the class to the arm, from behind, and decoding from the index; only
the second needs the indices to differ. -/
theorem decodeEnum_readsBack {base : String} {arms : List (Nat × Shape × List (String × Codec))}
    (hregular : Regular (.enum base arms)) (h : ∀ arm ∈ arms, ∀ f ∈ arm.2.2, ReadsBack env n f.2) :
    ReadsBack env n (.enum base arms) := by
  intro v bs hencode hmodest buf o e hbetween w i
  obtain ⟨cls, attributes, arm, body, rfl, harm, hfields, rfl⟩ := encodeWith_enum_ok_iff.1 hencode
  obtain ⟨j, htag, hback⟩ := Between.cons_iff.1 hbetween
  have hmem : arm ∈ arms := List.mem_reverse.1 (List.mem_of_find?_eq_some harm)
  obtain ⟨hnodup, harms⟩ := hregular
  obtain ⟨hindex, hfit⟩ := harms arm hmem
  have htoNat : (UInt8.ofNat arm.1).toNat = arm.1 := by
    rw [UInt8.toNat_ofNat']
    omega
  have hfind : (arms.find? fun a => a.1 == (UInt8.ofNat arm.1).toNat) = some arm := by
    rw [htoNat]
    exact find?_of_nodup Prod.fst hnodup hmem
  -- With the tag fixed, reading the enum is reading the record of its arm.
  have hrecord : decodeWith (derefFuel env n) (.enum base arms) buf o = .ok (w, i) ↔
      decodeRecord (derefFuel env n) buf arm.2.1 arm.2.2 j = .ok (w, i) := by
    rw [decodeWith_enum_ok_iff]
    constructor
    · rintro ⟨tag, k, arm', htag', hfind', hdecode⟩
      obtain ⟨heq, rfl⟩ := Prod.mk.inj
        (Except.ok.inj ((readByte_ok_iff.2 htag').symm.trans (readByte_ok_iff.2 htag)))
      rw [heq, hfind] at hfind'
      cases hfind'
      exact hdecode
    · exact fun hdecode => ⟨_, j, arm, htag, hfind, hdecode⟩
  simp only [canonWith, canonArms_eq, harm, Option.map_some, Option.getD_some]
  rw [hrecord, unbroken_enum_iff harm]
  exact decodeRecord_readsBack hfit (h arm hmem) hfields (fun f hf x hx => hmodest.part (.armField harm hf hx)) hback
    w i

/-- Behind a tag a part is read back where it was written. -/
theorem tagged_readsBack {c : Codec} (h : ReadsBack env n c) {v : Value} {tag : UInt8} {body : Bytes}
    (hbody : encodeWith (encodeFuel env n) c v = .ok body) (hmodest : Modest env c v) {buf : Bytes} {o e : Nat}
    (hbetween : Between buf o e (tag :: body)) :
    ∃ j, Between buf o j [tag] ∧ ∀ w i, decodeWith (derefFuel env n) c buf j = .ok (w, i) ↔
      Unbroken env c v ∧ w = canonWith (canonFuel env n) c v ∧ i = e := by
  obtain ⟨j, htag, hback⟩ := Between.cons_iff.1 hbetween
  exact ⟨j, htag, h v body hbody hmodest buf j e hback⟩

/-- One byte is read at an offset. -/
theorem tag_unique {buf : Bytes} {o j k : Nat} {tag tag' : UInt8} (h : Between buf o j [tag])
    (h' : Between buf o k [tag']) : tag = tag' ∧ j = k :=
  Prod.mk.inj (Except.ok.inj ((readByte_ok_iff.2 h).symm.trans (readByte_ok_iff.2 h')))

/-- **Codecs read back what they write** if the names that they mention do. The
induction is on the codec as a tree, and each case compares the value with its
canonical form. It is an equivalence, since a value is not read back where a
part of it is a character that UTF-8 writes and never reads: `Unbroken` says
that there is no such part, and reading back is the same as that. -/
theorem readsBack_of_refs
    (hrefs : ∀ name, Everywhere env Regular (.ref name) → ReadsBack env n (.ref name)) (c : Codec) :
    Everywhere env Regular c → ReadsBack env n c := by
  induction c using tree_induction with
  | leaf c hleaf =>
    intro hregular v bs hencode _ buf o e hbetween w i
    rw [encodeWith_leaf hleaf] at hencode
    rw [decodeWith_leaf hleaf, canonWith_leaf _ hleaf, unbroken_leaf_iff hleaf]
    have hlength : ∀ length kind, c = .fixedBytes length (some kind) → length = 32 := by
      rintro length kind rfl
      exact hregular.self
    -- The one leaf that is written and not read is a character that is none.
    cases hlone : isLoneChar c v with
    | false =>
      rw [decodeLeaf_of_encodeLeaf hleaf hlength hlone hencode hbetween]
      simp [eq_comm]
    | true =>
      rw [decodeLeaf_of_loneChar hlone hencode hbetween]
      simp [fault]
  | seq item ih =>
    intro hregular
    exact decodeSeq_readsBack (ih (hregular.part List.mem_cons_self))
  | array item length ih =>
    intro hregular v bs hencode hmodest buf o e hbetween w i
    obtain ⟨items, hitems, rfl, hbody⟩ := encodeWith_array_ok_iff.1 hencode
    have hparts : ∀ x ∈ items, Modest env item x := fun x hx => hmodest.part (.entry hitems hx)
    have hback := decodeCopies_readsBack (ih (hregular.part List.mem_cons_self)) hbody hparts hbetween
    simp only [canonWith, hitems, Option.elim_some]
    rw [decodeWith_array_ok_iff, unbroken_array_iff hitems]
    simp only [hback]
    constructor
    · rintro ⟨ws, ⟨hunbroken, rfl, rfl⟩, rfl⟩
      exact ⟨hunbroken, rfl, rfl⟩
    · rintro ⟨hunbroken, rfl, rfl⟩
      exact ⟨_, ⟨hunbroken, rfl, rfl⟩, rfl⟩
  | tuple codecs ih =>
    intro hregular v bs hencode hmodest buf o e hbetween w i
    obtain ⟨items, hitems, hlen, hbody⟩ := encodeWith_tuple_ok_iff.1 hencode
    have hparts : ∀ p ∈ codecs.zip items, Modest env p.1 p.2 :=
      fun p hp => hmodest.part (.component hitems hp)
    have hback := decodeTuple_readsBack (fun c hc => ih c hc (hregular.part hc)) hlen hbody hparts hbetween
    simp only [canonWith, hitems, Option.elim_some]
    rw [decodeWith_tuple_ok_iff, unbroken_tuple_iff hitems]
    simp only [hback]
    constructor
    · rintro ⟨ws, ⟨hunbroken, rfl, rfl⟩, rfl⟩
      exact ⟨hunbroken, rfl, rfl⟩
    · rintro ⟨hunbroken, rfl, rfl⟩
      exact ⟨_, ⟨hunbroken, rfl, rfl⟩, rfl⟩
  | option inner ih =>
    intro hregular v bs hencode hmodest buf o e hbetween w i
    rw [decodeWith_option_ok_iff]
    obtain ⟨rfl, rfl⟩ | ⟨hsome, body, hbody, rfl⟩ := encodeWith_option_ok_iff.1 hencode
    · simp only [canonWith]
      constructor
      · rintro (⟨htag, rfl⟩ | ⟨j, htag, -⟩)
        · exact ⟨unbroken_absent, rfl, (tag_unique htag hbetween).2⟩
        · exact absurd (tag_unique htag hbetween).1 (by decide)
      · rintro ⟨-, rfl, rfl⟩
        exact .inl ⟨hbetween, rfl⟩
    · -- The equations of `canonWith` ask for the constructor of `v`; no other than absence matters.
      have hcanon : canonWith (canonFuel env n) (.option inner) v = canonWith (canonFuel env n) inner v := by
        cases v <;> first | exact absurd rfl hsome | simp only [canonWith]
      obtain ⟨j, htag, hinner⟩ := tagged_readsBack (ih (hregular.part List.mem_cons_self)) hbody
        (hmodest.part (.payload hsome)) hbetween
      rw [hcanon, unbroken_option_iff hsome, ← hinner]
      constructor
      · rintro (⟨htag', -⟩ | ⟨k, htag', hdecode⟩)
        · exact absurd (tag_unique htag' htag).1 (by decide)
        · rwa [(tag_unique htag' htag).2] at hdecode
      · exact fun hdecode => .inr ⟨j, htag, hdecode⟩
  | result ok err ihok iherr =>
    intro hregular v bs hencode hmodest buf o e hbetween w i
    rw [decodeWith_result_ok_iff]
    obtain ⟨x, body, rfl, hbody, rfl⟩ | ⟨x, body, rfl, hbody, rfl⟩ := encodeWith_result_ok_iff.1 hencode
    · obtain ⟨j, htag, hinner⟩ := tagged_readsBack (ihok (hregular.part List.mem_cons_self)) hbody
        (hmodest.part .ok) hbetween
      simp only [canonWith]
      rw [unbroken_ok_iff]
      constructor
      · rintro (⟨k, y, htag', hdecode, rfl⟩ | ⟨k, y, htag', -⟩)
        · rw [(tag_unique htag' htag).2] at hdecode
          obtain ⟨hunbroken, rfl, rfl⟩ := (hinner _ _).1 hdecode
          exact ⟨hunbroken, rfl, rfl⟩
        · exact absurd (tag_unique htag' htag).1 (by decide)
      · rintro ⟨hunbroken, rfl, rfl⟩
        exact .inl ⟨j, _, htag, (hinner _ _).2 ⟨hunbroken, rfl, rfl⟩, rfl⟩
    · obtain ⟨j, htag, hinner⟩ := tagged_readsBack
        (iherr (hregular.part (List.mem_cons_of_mem _ List.mem_cons_self))) hbody (hmodest.part .err) hbetween
      simp only [canonWith]
      rw [unbroken_err_iff]
      constructor
      · rintro (⟨k, y, htag', -⟩ | ⟨k, y, htag', hdecode, rfl⟩)
        · exact absurd (tag_unique htag' htag).1 (by decide)
        · rw [(tag_unique htag' htag).2] at hdecode
          obtain ⟨hunbroken, rfl, rfl⟩ := (hinner _ _).1 hdecode
          exact ⟨hunbroken, rfl, rfl⟩
      · rintro ⟨hunbroken, rfl, rfl⟩
        exact .inr ⟨j, _, htag, (hinner _ _).2 ⟨hunbroken, rfl, rfl⟩, rfl⟩
  | struct shape fields ih =>
    intro hregular v bs hencode hmodest buf o e hbetween w i
    obtain ⟨attributes, rfl, hfields⟩ := encodeWith_struct_ok_iff.1 hencode
    simp only [canonWith]
    rw [decodeWith_struct, unbroken_struct_iff]
    exact decodeRecord_readsBack hregular.self (fun f hf => ih f hf (hregular.field hf)) hfields
      (fun f hf x hx => hmodest.part (.field hf hx)) hbetween w i
  | enum base arms ih =>
    intro hregular
    exact decodeEnum_readsBack hregular.self fun arm hmem f hf => ih arm hmem f hf (hregular.armField hmem hf)
  | ref name => exact hrefs name

end

/-- **Reading back, whatever the fuel.** The induction is on the fuel, and in
each level on the codec, by `readsBack_of_refs`; without fuel no name is
written. -/
theorem readsBack (env : Environment) (n : Nat) (c : Codec) (hregular : Everywhere env Regular c) :
    ReadsBack env n c := by
  induction n generalizing c with
  | zero =>
    refine readsBack_of_refs (fun name _ => ?_) c hregular
    intro v bs hencode
    simp [encodeWith, encodeFuel] at hencode
  | succ n ih =>
    refine readsBack_of_refs (fun name hname => ?_) c hregular
    intro v bs hencode hmodest buf o e hbetween w i
    simp only [encodeWith, encodeFuel] at hencode
    simp only [decodeWith, derefFuel, canonWith, canonFuel]
    cases hcodec : env.codec? name with
    | none => simp [hcodec] at hencode
    | some d =>
      rw [hcodec] at hencode
      rw [unbroken_ref_iff hcodec]
      exact ih d (hname.target hcodec) v bs hencode (hmodest.part (.target hcodec)) buf o e hbetween w i

/-! ## Without fuel -/

section

variable {env : Environment}

/-- Reading back in the middle of a buffer. Encoding took a certain fuel; with
this and with more the encoding is read back, and so it is with all the fuel
that `decodeFrom` has. -/
theorem decodeFrom_of_encode {c : Codec} (hregular : Everywhere env Regular c) {v : Value}
    (hmodest : Modest env c v) {bs : Bytes} (hencode : encode env c v = .ok bs) (p s : Bytes) (w : Value) (e : Nat) :
    decodeFrom env c (p ++ bs ++ s) p.length = .ok (w, e) ↔
      Unbroken env c v ∧ w = canon env c v ∧ e = p.length + bs.length := by
  have hbetween := Between.middle p bs s
  have hreads : Unbroken env c v →
      decodeFrom env c (p ++ bs ++ s) p.length = .ok (canon env c v, p.length + bs.length) := fun hunbroken =>
    decodeFrom_of_fuel env _
      ((readsBack env _ c hregular v bs hencode hmodest _ _ _ hbetween _ _).2 ⟨hunbroken, rfl, rfl⟩)
  constructor
  · intro hdecode
    -- What is decoded and what is encoded have fuel of their own; both come to the same
    -- with more of it.
    have hboth := readsBack env (encodeFuelFor env v + fuelFor env (p ++ bs ++ s) p.length) c hregular v bs
      ((encodeWith_fuel env (Nat.le_add_right _ _) c).trans hencode) hmodest _ _ _ hbetween w e
    have hunbroken := (hboth.1 ((decodeWith_fuel env _ (Nat.le_add_left _ _) c).trans hdecode)).1
    have hsame := (hreads hunbroken).symm.trans hdecode
    cases hsame
    exact ⟨hunbroken, rfl, rfl⟩
  · rintro ⟨hunbroken, rfl, rfl⟩
    exact hreads hunbroken

/-- Strict decoding gives a value exactly if the whole buffer is decoded to
it. -/
theorem decode_ok_iff {c : Codec} {flags : List Bool} {buf : Bytes} {v : Value} :
    c.decode env flags buf = .ok v ↔ decodeFrom env c buf 0 = .ok (v, buf.length) := by
  unfold decode
  dsimp only
  rw [bind_ok_iff]
  constructor
  · rintro ⟨⟨w, e⟩, hdecode, h⟩
    unfold closing at h
    dsimp only at h
    by_cases he : e = buf.length
    · rw [if_pos he] at h
      cases h
      rw [hdecode, he]
    · rw [if_neg he] at h
      cases h
  · intro h
    exact ⟨_, h, if_pos rfl⟩

/-- The values of several codecs, each decoded where the one before ends. -/
def decodeInTurn (env : Environment) : List Codec → Bytes → Nat → Except DecodeError (List Value × Nat)
  | [], _, o => .ok ([], o)
  | c :: codecs, buf, o => do
    let (v, i) ← decodeFrom env c buf o
    let (vs, e) ← decodeInTurn env codecs buf i
    return (v :: vs, e)

/-- Arguments that are written one behind the other are read back in turn, each
by its own codec. The induction is on the arguments, with the bytes in front of
the first one as its parameter: for the second one they are longer by the
first. -/
theorem decodeInTurn_of_encodeArgs {args : List (Codec × Value)} {bs : Bytes}
    (hargs : ∀ a ∈ args, Everywhere env Regular a.1 ∧ Modest env a.1 a.2)
    (hencode : encodeArgs env args = .ok bs) (p s : Bytes) (ws : List Value) (e : Nat) :
    decodeInTurn env (args.map (·.1)) (p ++ bs ++ s) p.length = .ok (ws, e) ↔
      (∀ a ∈ args, Unbroken env a.1 a.2) ∧ ws = (args.map fun a => canon env a.1 a.2) ∧
        e = p.length + bs.length := by
  induction args generalizing bs p ws e with
  | nil =>
    cases hencode
    simp [decodeInTurn, eq_comm]
  | cons a args ih =>
    obtain ⟨c, v⟩ := a
    obtain ⟨⟨hregular, hmodest⟩, hrest⟩ := List.forall_mem_cons.1 hargs
    rw [encodeArgs] at hencode
    obtain ⟨head, hhead, h⟩ := bind_ok_iff.1 hencode
    obtain ⟨tail, htail, heq⟩ := bind_ok_iff.1 h
    cases heq
    -- what is decoded first is followed by the encodings of the other arguments
    have hfirst := decodeFrom_of_encode hregular hmodest hhead p (tail ++ s)
    have hothers := ih hrest htail (p ++ head)
    have hbuf : p ++ head ++ (tail ++ s) = p ++ (head ++ tail) ++ s := by simp only [List.append_assoc]
    have hbuf' : p ++ head ++ tail ++ s = p ++ (head ++ tail) ++ s := by simp only [List.append_assoc]
    simp only [hbuf] at hfirst
    simp only [hbuf', List.length_append, Nat.add_assoc] at hothers
    rw [List.map_cons, decodeInTurn, bind_ok_iff, List.forall_mem_cons, List.length_append]
    constructor
    · rintro ⟨⟨w, i⟩, hw, h⟩
      obtain ⟨hunbroken, rfl, rfl⟩ := (hfirst w i).1 hw
      obtain ⟨⟨vs, j⟩, hvs, heq⟩ := bind_ok_iff.1 h
      obtain ⟨hall, rfl, rfl⟩ := (hothers vs j).1 hvs
      cases heq
      exact ⟨⟨hunbroken, hall⟩, rfl, rfl⟩
    · rintro ⟨⟨hunbroken, hall⟩, rfl, rfl⟩
      refine ⟨_, (hfirst _ _).2 ⟨hunbroken, rfl, rfl⟩, ?_⟩
      exact bind_ok_iff.2 ⟨_, (hothers _ _).2 ⟨hall, rfl, rfl⟩, rfl⟩

/-- **What is encoded is decoded**, but for surrogates. For codecs that are
regular everywhere and values that are encoded and modest: the encoding is read
back, to the canonical value, in the middle of any buffer and, strictly, on its
own, exactly if no `char` inside of the value is a surrogate; no encoding of
such a value is another one with something behind it; and the arguments of a
call are read back from their encodings in a row exactly if this holds of all of
them. Codecs may contain themselves. -/
theorem decode_encode (env : Environment) :
    (∀ c v bs, Everywhere env Regular c → Modest env c v → encode env c v = .ok bs →
      (∀ p s w e, decodeFrom env c (p ++ bs ++ s) p.length = .ok (w, e) ↔
          Unbroken env c v ∧ w = canon env c v ∧ e = p.length + bs.length) ∧
        ∀ flags w, c.decode env flags bs = .ok w ↔ Unbroken env c v ∧ w = canon env c v) ∧
    (∀ c v w b₁ b₂ s₁ s₂, Everywhere env Regular c → Modest env c v → Modest env c w →
      Unbroken env c v → Unbroken env c w →
      encode env c v = .ok b₁ → encode env c w = .ok b₂ → b₁ ++ s₁ = b₂ ++ s₂ →
        b₁ = b₂ ∧ s₁ = s₂ ∧ canon env c v = canon env c w) ∧
    (∀ args bs, (∀ a ∈ args, Everywhere env Regular a.1 ∧ Modest env a.1 a.2) →
      encodeArgs env args = .ok bs → ∀ p s ws e,
        decodeInTurn env (args.map (·.1)) (p ++ bs ++ s) p.length = .ok (ws, e) ↔
          (∀ a ∈ args, Unbroken env a.1 a.2) ∧ ws = (args.map fun a => canon env a.1 a.2) ∧
            e = p.length + bs.length) := by
  refine ⟨?_, ?_, ?_⟩
  · intro c v bs hregular hmodest hencode
    have hmiddle := decodeFrom_of_encode hregular hmodest hencode
    refine ⟨hmiddle, fun flags w => ?_⟩
    rw [decode_ok_iff]
    simpa using hmiddle [] [] w bs.length
  · intro c v w b₁ b₂ s₁ s₂ hregular hv hw hunbroken hunbroken' hb₁ hb₂ hsame
    have h₁ := (decodeFrom_of_encode hregular hv hb₁ [] s₁ _ _).2 ⟨hunbroken, rfl, rfl⟩
    have h₂ := (decodeFrom_of_encode hregular hw hb₂ [] s₂ _ _).2 ⟨hunbroken', rfl, rfl⟩
    rw [List.nil_append, hsame] at h₁
    rw [List.nil_append, h₁] at h₂
    obtain ⟨hcanon, hlen⟩ := Prod.mk.inj (Except.ok.inj h₂)
    obtain ⟨hb, hs⟩ := List.append_inj hsame (Nat.add_left_cancel hlen)
    exact ⟨hb, hs, hcanon⟩
  · intro args bs hargs hencode p s ws e
    exact decodeInTurn_of_encodeArgs hargs hencode p s ws e

/-- The first of the surrogates, given to a `char`: it is written as four bytes,
and these are refused. -/
theorem surrogate_unread :
    encode ⟨[]⟩ .char (.brokenStr (.single 0xd800 rfl)) = .ok [0, 0xd8, 0, 0] ∧
      Everywhere ⟨[]⟩ Regular .char ∧ Modest ⟨[]⟩ .char (.brokenStr (.single 0xd800 rfl)) ∧
      Codec.char.decode ⟨[]⟩ [] [0, 0xd8, 0, 0] = fault (.codePoint 0xd800) 0 := by
  refine ⟨rfl, ?_, modest_of_narrow rfl, rfl⟩
  refine .of_closed (S := fun a => a = .char) rfl ?_ ?_
  · rintro a rfl b hb
    cases hb
  · rintro a rfl
    trivial

/-- Trees with a number at each node, as the codec that contains itself. -/
def treeEnvironment : Environment :=
  ⟨[("Tree", .struct ⟨"Tree", ["children", "value"]⟩
    [("value", .compact none), ("children", .seq (.ref "Tree"))])]⟩

/-- The codec of trees is as its constructors make it, and so are the codecs
that it refers to. -/
theorem tree_regular : Everywhere treeEnvironment Regular (.ref "Tree") := by
  have hfit : FieldsFit ⟨"Tree", ["children", "value"]⟩
      [("value", .compact none), ("children", .seq (.ref "Tree"))] :=
    ⟨by decide, List.Perm.swap _ _ _⟩
  refine .of_closed (S := fun a => a = .ref "Tree" ∨ a = .struct ⟨"Tree", ["children", "value"]⟩
    [("value", .compact none), ("children", .seq (.ref "Tree"))] ∨ a = .compact none ∨
      a = .seq (.ref "Tree")) (.inl rfl) ?_ ?_
  · rintro a (rfl | rfl | rfl | rfl) b hb
    · simp [parts, treeEnvironment, Environment.codec?] at hb
      exact .inr (.inl hb)
    · simp [parts] at hb
      exact hb.elim (fun h => .inr (.inr (.inl h))) fun h => .inr (.inr (.inr h))
    · simp [parts] at hb
    · simp [parts] at hb
      exact .inl hb
  · rintro a (rfl | rfl | rfl | rfl)
    · trivial
    · exact hfit
    · trivial
    · trivial

/-- A tree of two nodes whose children are given as a tuple, and what is read
back of it. -/
theorem decode_encode_tree :
    decodeFrom treeEnvironment (.ref "Tree") ([7] ++ [161, 15, 4, 8, 0] ++ [9, 9]) 1 =
      .ok (.instance "Tree" [
        ("children", .list [.instance "Tree" [("children", .list []), ("value", .int 2)]]),
        ("value", .int 1000)], 6) :=
  (((decode_encode treeEnvironment).1 (.ref "Tree")
    (.instance "Tree" [("value", .int 1000),
      ("children", .tuple [.instance "Tree" [("value", .int 2), ("children", .list [])]])])
    [161, 15, 4, 8, 0] tree_regular (modest_of_narrow (by decide)) (by rfl)).1 [7] [9, 9] _ _).2
      ⟨unbroken_of_legible (by decide), rfl, rfl⟩

end

end ContractClient.Codec
