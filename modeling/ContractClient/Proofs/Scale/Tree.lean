/-
Codecs as trees: one induction for all of them, and one walk for all sequences
of parts.

Encoding and decoding have a case for every constructor and a function of their
own for every kind of list that a codec holds: items, tuples, fields, arms. What
is said of them is said nine times less often if three things are settled first.

A **leaf** is a codec that is built from no other; nothing about it depends on
references. All other codecs reach their parts through `decodeTuple` and
`encodeTuple`: the items of an array are a tuple of copies, a record is a tuple
whose values get names, and an arm is a record behind its index. The equations
below say so, and no later proof opens `decodeFields`, `decodeItems` or
`decodeArm` again.
-/
import ContractClient.Scale.Decode
import ContractClient.Scale.Encode

set_option autoImplicit false

namespace ContractClient.Codec

/-! ## Leaves and the induction -/

/-- Whether a codec is built from no other. -/
def isLeaf : Codec → Bool
  | .bool | .int _ _ | .compact _ | .str | .char | .bytes | .fixedBytes _ _ => true
  | _ => false

-- Made here once, the equations of reading and writing are at hand wherever one of the
-- two is unfolded.
attribute [local simp] decodeWith encodeWith in
/-- **Induction over codecs.** The parts of a tuple, a record or an enum are
reached by membership, so a case for a list of parts is a case about its
members. -/
@[elab_as_elim]
theorem tree_induction {P : Codec → Prop}
    (leaf : ∀ c, c.isLeaf = true → P c)
    (seq : ∀ item, P item → P (.seq item))
    (array : ∀ item length, P item → P (.array item length))
    (tuple : ∀ codecs, (∀ c ∈ codecs, P c) → P (.tuple codecs))
    (option : ∀ inner, P inner → P (.option inner))
    (result : ∀ ok err, P ok → P err → P (.result ok err))
    (struct : ∀ shape fields, (∀ f ∈ fields, P f.2) → P (.struct shape fields))
    (enum : ∀ base arms, (∀ arm ∈ arms, ∀ f ∈ arm.2.2, P f.2) → P (.enum base arms))
    (ref : ∀ name, P (.ref name)) (c : Codec) : P c := by
  refine Codec.rec (motive_1 := P) (motive_2 := fun codecs => ∀ c ∈ codecs, P c)
    (motive_3 := fun fields => ∀ f ∈ fields, P f.2)
    (motive_4 := fun arms => ∀ arm ∈ arms, ∀ f ∈ arm.2.2, P f.2)
    (motive_5 := fun f => P f.2) (motive_6 := fun arm => ∀ f ∈ arm.2.2, P f.2)
    (motive_7 := fun arm => ∀ f ∈ arm.2, P f.2)
    (leaf _ rfl) (fun _ _ => leaf _ rfl) (fun _ => leaf _ rfl) (leaf _ rfl) (leaf _ rfl) (leaf _ rfl)
    (fun _ _ => leaf _ rfl) seq array tuple option result struct enum ref
    ?_ ?_ ?_ ?_ ?_ ?_ ?_ ?_ ?_ c
  · simp
  · exact fun c codecs hc hcodecs => List.forall_mem_cons.2 ⟨hc, hcodecs⟩
  · simp
  · exact fun f fields hf hfields => List.forall_mem_cons.2 ⟨hf, hfields⟩
  · simp
  · exact fun arm arms harm harms => List.forall_mem_cons.2 ⟨harm, harms⟩
  · exact fun _ _ h => h
  · exact fun _ _ h => h
  · exact fun _ _ h => h

/-- Decoding by a leaf, which follows no reference. -/
def decodeLeaf (c : Codec) (buf : Bytes) (offset : Nat) : Except DecodeError (Value × Nat) :=
  decodeWith (fun name _ _ => .error (.undeclared name)) c buf offset

/-- Encoding by a leaf. -/
def encodeLeaf (c : Codec) (v : Value) : Except EncodeError Bytes :=
  encodeWith (fun name _ => .error (.undeclared name)) c v

/-- A leaf is decoded alike whatever references lead to. -/
theorem decodeWith_leaf {c : Codec} (h : c.isLeaf = true) (deref : Deref) (buf : Bytes) (offset : Nat) :
    decodeWith deref c buf offset = decodeLeaf c buf offset := by
  cases c <;> simp only [isLeaf, Bool.false_eq_true] at h <;> simp only [decodeLeaf, decodeWith]

/-- A leaf is encoded alike whatever references lead to. -/
theorem encodeWith_leaf {c : Codec} (h : c.isLeaf = true) (deref : EncodeDeref) (v : Value) :
    encodeWith deref c v = encodeLeaf c v := by
  cases c <;> simp only [isLeaf, Bool.false_eq_true] at h <;> simp only [encodeLeaf, encodeWith]

/-! ## Decoding parts -/

section

variable (deref : Deref) (buf : Bytes)

/-- Items are a tuple of copies. -/
theorem decodeItems_eq (item : Codec) (n offset : Nat) :
    decodeItems (decodeWith deref item buf) n offset =
      decodeTuple deref (List.replicate n item) buf offset := by
  induction n generalizing offset with
  | zero => simp only [decodeItems, List.replicate_zero, decodeTuple]
  | succ n ih => simp only [decodeItems, List.replicate_succ, decodeTuple, ih]

/-- Fields are a tuple whose values get names. With this the lemmas about tuples
serve for records, and the names only matter for the class. -/
theorem decodeFields_eq (fields : List (String × Codec)) (offset : Nat) :
    decodeFields deref fields buf offset =
      (decodeTuple deref (fields.map (·.2)) buf offset).map
        fun r => ((fields.map (·.1)).zip r.1, r.2) := by
  induction fields generalizing offset with
  | nil => rfl
  | cons f fields ih =>
    obtain ⟨name, c⟩ := f
    simp only [decodeFields, List.map_cons, decodeTuple]
    cases decodeWith deref c buf offset with
    | error e => rfl
    | ok r =>
      simp only [bind, Except.bind, ih]
      cases decodeTuple deref (fields.map (·.2)) buf r.2 <;> rfl

/-- The instance that the values of fields make. -/
def recordOf (shape : Shape) (fields : List (String × Codec)) (r : List Value × Nat) :
    Except DecodeError (Value × Nat) :=
  (instanceOf shape ((fields.map (·.1)).zip r.1)).map fun v => (v, r.2)

/-- Decoding a record: a tuple that becomes an instance. -/
def decodeRecord (shape : Shape) (fields : List (String × Codec)) (offset : Nat) :
    Except DecodeError (Value × Nat) :=
  decodeTuple deref (fields.map (·.2)) buf offset >>= recordOf shape fields

/-- Decoding fields and making an instance of them is decoding a record. The
functions of the model go through fields with their names; this brings them to
the form in which values and names are separate. -/
theorem decodeFields_record (shape : Shape) (fields : List (String × Codec)) (offset : Nat) :
    (do
      let (attributes, i) ← decodeFields deref fields buf offset
      return (← instanceOf shape attributes, i)) = decodeRecord deref buf shape fields offset := by
  rw [decodeFields_eq, decodeRecord]
  cases decodeTuple deref (fields.map (·.2)) buf offset with
  | error e => rfl
  | ok r =>
    simp only [Except.map, bind, Except.bind, recordOf]
    cases instanceOf shape ((fields.map (·.1)).zip r.1) <;> rfl

/-- The arm that decoding takes is the first one with the index. The recursion
is along the arms; written as a search, the library's lemmas apply. -/
theorem decodeArm_eq (arms : List Arm) (tag offset : Nat) :
    decodeArm deref arms tag buf offset =
      (arms.find? fun arm => arm.1 == tag).map
        fun arm => decodeRecord deref buf arm.2.1 arm.2.2 offset := by
  induction arms with
  | nil => rfl
  | cons arm arms ih =>
    obtain ⟨index, shape, fields⟩ := arm
    simp only [decodeArm, decodeFields_record]
    by_cases h : index = tag
    · rw [if_pos h, List.find?_cons_of_pos (by simp [h])]
      rfl
    · rw [if_neg h, ih, List.find?_cons_of_neg (by simp [h])]

/-- A sequence is its length and its items. If there are fewer bytes left than
items, only one item is read, and it must take no bytes; and then there must not
be too many of them. -/
theorem decodeWith_seq (item : Codec) (offset : Nat) :
    decodeWith deref (.seq item) buf offset =
      decodeCompact none buf offset >>= fun r =>
        if buf.length < r.1 + r.2 then
          decodeWith deref item buf r.2 >>= fun probe =>
            if probe.2 ≠ r.2 ∨ maxZeroSized < r.1 then fault (.sequenceLength r.1) offset
            else .ok (.list (List.replicate r.1 probe.1), r.2)
        else (decodeTuple deref (List.replicate r.1 item) buf r.2).map fun t => (.list t.1, t.2) := by
  simp only [decodeWith, decodeSeq, decodeItems_eq]
  cases decodeCompact none buf offset with
  | error e => rfl
  | ok r =>
    simp only [bind, Except.bind]
    by_cases hcount : buf.length < r.1 + r.2
    · rw [if_pos hcount, if_pos hcount]
      cases decodeWith deref item buf r.2 with
      | error e => rfl
      | ok probe =>
        by_cases hprobe : probe.2 ≠ r.2 ∨ maxZeroSized < r.1
        · simp only [if_pos hprobe, fault]
        · simp only [if_neg hprobe, pure, Except.pure]
    · rw [if_neg hcount, if_neg hcount]
      cases decodeTuple deref (List.replicate r.1 item) buf r.2 <;> rfl

/-- An array is its items, of which there are as many as its type says. -/
theorem decodeWith_array (item : Codec) (length offset : Nat) :
    decodeWith deref (.array item length) buf offset =
      (decodeTuple deref (List.replicate length item) buf offset).map fun t => (.tuple t.1, t.2) := by
  simp only [decodeWith, decodeItems_eq]
  cases decodeTuple deref (List.replicate length item) buf offset <;> rfl

/-- A tuple is its parts. -/
theorem decodeWith_tuple (codecs : List Codec) (offset : Nat) :
    decodeWith deref (.tuple codecs) buf offset =
      (decodeTuple deref codecs buf offset).map fun t => (.tuple t.1, t.2) := by
  simp only [decodeWith]
  cases decodeTuple deref codecs buf offset <;> rfl

/-- An option is a byte, and what is behind it if there is something. -/
theorem decodeWith_option (inner : Codec) (offset : Nat) :
    decodeWith deref (.option inner) buf offset =
      readByte buf offset >>= fun r =>
        if r.1 = 0 then .ok (.none, r.2)
        else if r.1 = 1 then decodeWith deref inner buf r.2
        else fault (.optionTag r.1) offset := by
  simp only [decodeWith]
  rfl

/-- A result is a byte and the value of a success or of a failure. -/
theorem decodeWith_result (ok err : Codec) (offset : Nat) :
    decodeWith deref (.result ok err) buf offset =
      readByte buf offset >>= fun r =>
        if r.1 = 0 then (decodeWith deref ok buf r.2).map fun t => (.ok t.1, t.2)
        else if r.1 = 1 then (decodeWith deref err buf r.2).map fun t => (.err t.1, t.2)
        else fault (.resultTag r.1) offset := by
  simp only [decodeWith]
  cases readByte buf offset with
  | error e => rfl
  | ok r =>
    simp only [bind, Except.bind]
    by_cases hok : r.1 = 0
    · rw [if_pos hok, if_pos hok]
      cases decodeWith deref ok buf r.2 <;> rfl
    · rw [if_neg hok, if_neg hok]
      by_cases herr : r.1 = 1
      · rw [if_pos herr, if_pos herr]
        cases decodeWith deref err buf r.2 <;> rfl
      · rw [if_neg herr, if_neg herr]

/-- A record is its fields. -/
theorem decodeWith_struct (shape : Shape) (fields : List (String × Codec)) (offset : Nat) :
    decodeWith deref (.struct shape fields) buf offset = decodeRecord deref buf shape fields offset := by
  simp only [decodeWith, ← decodeFields_record]

/-- An enum is the index of an arm and the fields of that arm. -/
theorem decodeWith_enum (base : String) (arms : List Arm) (offset : Nat) :
    decodeWith deref (.enum base arms) buf offset =
      readByte buf offset >>= fun r =>
        match arms.find? fun arm => arm.1 == r.1.toNat with
        | some arm => decodeRecord deref buf arm.2.1 arm.2.2 r.2
        | none => fault (.noVariant base r.1.toNat) offset := by
  simp only [decodeWith, decodeArm_eq]
  cases readByte buf offset with
  | error e => rfl
  | ok r =>
    simp only [bind, Except.bind]
    cases arms.find? fun arm => arm.1 == r.1.toNat <;> rfl

/-- A reference is followed. -/
theorem decodeWith_ref (name : String) (offset : Nat) :
    decodeWith deref (.ref name) buf offset = deref name buf offset := by
  simp only [decodeWith]

/-- No parts are read from no bytes. -/
theorem decodeTuple_nil (offset : Nat) : decodeTuple deref [] buf offset = .ok ([], offset) := by
  simp only [decodeTuple]

/-- The first part is read, and the others where it ends. -/
theorem decodeTuple_cons (c : Codec) (codecs : List Codec) (offset : Nat) :
    decodeTuple deref (c :: codecs) buf offset =
      decodeWith deref c buf offset >>= fun r =>
        (decodeTuple deref codecs buf r.2).map fun t => (r.1 :: t.1, t.2) := by
  simp only [decodeTuple]
  cases decodeWith deref c buf offset with
  | error e => rfl
  | ok r =>
    simp only [bind, Except.bind]
    cases decodeTuple deref codecs buf r.2 <;> rfl

end

/-! ## Encoding parts -/

section

variable (deref : EncodeDeref)

/-- Items are a tuple of copies. -/
theorem encodeEach_eq (item : Codec) (items : List Value) :
    encodeEach (encodeWith deref item) items =
      encodeTuple deref (List.replicate items.length item) items := by
  induction items with
  | nil => simp only [encodeEach, List.length_nil, List.replicate_zero, encodeTuple]
  | cons v items ih => simp only [encodeEach, List.length_cons, List.replicate_succ, encodeTuple, ih]

/-- The attributes of an instance that fields name, in the order of the
fields. -/
def attributesOf (cls : String) (attributes : List (String × Value)) (names : List String) :
    Except EncodeError (List Value) :=
  names.mapM (attributeOf cls attributes)

/-- The arm that encoding takes: the last one of a class. -/
def armOf? (arms : List Arm) (cls : String) : Option Arm :=
  arms.reverse.find? fun arm => arm.2.1.name == cls

/-- Arms are looked up by the class of the instance, and the index of the arm
that is found is put in front of its fields. -/
theorem encodeArms_eq (arms : List Arm) (cls : String) (attributes : List (String × Value)) :
    encodeArms deref arms cls attributes =
      (armOf? arms cls).map fun arm =>
        (encodeFields deref arm.2.2 cls attributes).map fun b => UInt8.ofNat arm.1 :: b := by
  induction arms with
  | nil => rfl
  | cons arm arms ih =>
    obtain ⟨index, shape, fields⟩ := arm
    simp only [encodeArms, ih, armOf?, List.reverse_cons, List.find?_append]
    cases hfound : arms.reverse.find? fun arm => arm.2.1.name == cls with
    | some found => simp
    | none =>
      by_cases h : shape.name = cls
      · simp [h]
      · simp [h]

/-- The first part is written in front of the others. -/
theorem encodeTuple_cons (c : Codec) (codecs : List Codec) (v : Value) (items : List Value) :
    encodeTuple deref (c :: codecs) (v :: items) =
      encodeWith deref c v >>= fun head => (encodeTuple deref codecs items).map fun tail => head ++ tail := by
  simp only [encodeTuple]
  cases encodeWith deref c v with
  | error e => rfl
  | ok head =>
    simp only [bind, Except.bind]
    cases encodeTuple deref codecs items <;> rfl

/-- The first field is written in front of the others, if the instance has
an attribute for it. -/
theorem encodeFields_cons (name : String) (c : Codec) (fields : List (String × Codec)) (cls : String)
    (attributes : List (String × Value)) :
    encodeFields deref ((name, c) :: fields) cls attributes =
      attributeOf cls attributes name >>= fun v => encodeWith deref c v >>= fun head =>
        (encodeFields deref fields cls attributes).map fun tail => head ++ tail := by
  simp only [encodeFields]
  cases attributeOf cls attributes name with
  | error e => rfl
  | ok v =>
    simp only [bind, Except.bind]
    cases encodeWith deref c v with
    | error e => rfl
    | ok head => cases encodeFields deref fields cls attributes <;> rfl

/-- A sequence is written as its length and its items. -/
theorem encodeWith_seq (item : Codec) (v : Value) :
    encodeWith deref (.seq item) v =
      expectItems v >>= fun items => encodeCount items.length >>= fun head =>
        (encodeTuple deref (List.replicate items.length item) items).map fun body => head ++ body := by
  simp only [encodeWith, encodeEach_eq]
  cases expectItems v with
  | error e => rfl
  | ok items =>
    simp only [bind, Except.bind]
    cases encodeCount items.length with
    | error e => rfl
    | ok head => cases encodeTuple deref (List.replicate items.length item) items <;> rfl

/-- An array is written as its items, if there are as many of them as its type
says. -/
theorem encodeWith_array (item : Codec) (length : Nat) (v : Value) :
    encodeWith deref (.array item length) v =
      expectItems v >>= fun items =>
        if items.length = length then encodeTuple deref (List.replicate length item) items
        else .error (.itemCount length items.length) := by
  simp only [encodeWith, encodeEach_eq]
  cases expectItems v with
  | error e => rfl
  | ok items =>
    simp only [bind, Except.bind]
    by_cases h : items.length = length
    · rw [if_pos h, if_pos h, h]
    · rw [if_neg h, if_neg h]

/-- An instance is written as the arm of which it is one. -/
theorem encodeWith_enum (base : String) (arms : List Arm) (cls : String)
    (attributes : List (String × Value)) :
    encodeWith deref (.enum base arms) (.instance cls attributes) =
      match armOf? arms cls with
      | some arm => (encodeFields deref arm.2.2 cls attributes).map fun b => UInt8.ofNat arm.1 :: b
      | none => .error (.notVariant cls base) := by
  simp only [encodeWith, encodeArms_eq]
  cases armOf? arms cls <;> rfl

end

end ContractClient.Codec
