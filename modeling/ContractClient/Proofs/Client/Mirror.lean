/-
One step of a client's codec, and the same step of the plain one.

A client's codec and the plain codec of one type read the same bytes and make
different values of them. Here they are compared at one constructor, with the
parts given by references: if the parts of the client's codec show what the
parts of the plain codec read, then so do the codecs. To show is to translate,
provided that the translation can be made.

The parts may be read in any way whatever. That is what lets the comparison
serve in both directions later, where one of the two sides follows references
only so far.
-/
import ContractClient.Proofs.Client.Instances
import ContractClient.Proofs.Scale.Form
import ContractClient.Proofs.Scale.Parts

set_option autoImplicit false

namespace ContractClient

open Codec

theorem label_inj {n k : Nat} : label n = label k ↔ n = k :=
  Nat.repr_inj

namespace Registry

variable {r : Registry} {names : ModuleNames}

/-! ## Showing -/

section

variable (r names)

/-- What a client shows of what is decoded at a type: the translation, if it can
be made. -/
def shownAt (id : TypeId) (f : Decoder) : Decoder := fun buf o => do
  let (v, e) ← f buf o
  let w := r.translate names id v
  if w.constructible (r.spoils names) then .ok (w, e) else .error (.shapeMismatch "" "")

/-- What a client shows of what references give. -/
def shown (deref : Deref) : Deref := fun name =>
  r.shownAt names (name.toNat?.getD 0) (deref name)

end

/-- What is shown is what was decoded, in the client's words, and only if the
client can make it. The offset is the decoder's own. -/
theorem shownAt_ok_iff {id : TypeId} {f : Decoder} {buf : Bytes} {o e : Nat} {w : Value} :
    r.shownAt names id f buf o = .ok (w, e) ↔
      ∃ v, f buf o = .ok (v, e) ∧ r.translate names id v = w ∧ w.constructible (r.spoils names) = true := by
  unfold shownAt
  rw [bind_ok_iff]
  constructor
  · rintro ⟨⟨v, i⟩, hv, h⟩
    dsimp only at h
    by_cases hmade : (r.translate names id v).constructible (r.spoils names) = true
    · rw [if_pos hmade] at h
      cases h
      exact ⟨v, hv, rfl, hmade⟩
    · rw [if_neg hmade] at h
      cases h
  · rintro ⟨v, hv, rfl, hmade⟩
    exact ⟨(v, e), hv, if_pos hmade⟩

/-- Under a label the shown decoder is the decoder behind that label, shown at
its type. -/
theorem shown_label (deref : Deref) (id : TypeId) :
    r.shown names deref (label id) = r.shownAt names id (deref (label id)) := by
  unfold shown label
  rw [show (toString id).toNat? = some id from Nat.toNat?_repr id]
  rfl

/-- References to types. -/
abbrev refs (ids : List TypeId) : List Codec :=
  ids.map fun id => .ref (label id)

-- Made here once, the equations of the translation are at hand wherever it is unfolded.
attribute [local simp] translate translateEach translateAttributes in
/-- Translating parts keeps their number. -/
theorem length_translateEach {ids : List TypeId} {vs : List Value} (hlen : vs.length = ids.length) :
    (r.translateEach names ids vs).length = ids.length := by
  induction ids generalizing vs with
  | nil =>
    rw [translateEach]
    · rfl
    · simp
  | cons id ids ih =>
    cases vs with
    | nil => simp at hlen
    | cons v vs =>
      rw [translateEach, List.length_cons, List.length_cons, ih (by simpa using hlen)]

/-- **Parts one after the other** are shown one by one. The induction is on the
parts, with the offset left free: the tail is read where the head ends. -/
theorem decodeTuple_shown {deref : Deref} {ids : List TypeId} {buf : Bytes} {o e : Nat} {ws : List Value} :
    decodeTuple (r.shown names deref) (refs ids) buf o = .ok (ws, e) ↔
      ∃ vs, decodeTuple deref (refs ids) buf o = .ok (vs, e) ∧ r.translateEach names ids vs = ws ∧
        ∀ w ∈ ws, w.constructible (r.spoils names) = true := by
  -- The head is shown by its reference, the tail by induction, at the offset where the
  -- head ends.
  induction ids generalizing o ws with
  | nil =>
    simp only [refs, List.map_nil, decodeTuple_nil]
    constructor
    · intro h
      cases h
      exact ⟨[], rfl, by rw [translateEach]; simp, by simp⟩
    · rintro ⟨vs, h, rfl, -⟩
      cases h
      rw [translateEach]
      simp
  | cons id ids ih =>
    simp only [refs, List.map_cons] at ih ⊢
    simp only [decodeTuple_cons_ok_iff, decodeWith_ref, shown_label, shownAt_ok_iff, ih]
    constructor
    · rintro ⟨w, i, ws, ⟨v, hv, rfl, hw⟩, ⟨vs, hvs, rfl, hws⟩, rfl⟩
      exact ⟨v :: vs, ⟨v, i, vs, hv, hvs, rfl⟩, by rw [translateEach], List.forall_mem_cons.2 ⟨hw, hws⟩⟩
    · rintro ⟨_, ⟨v, i, vs, hv, hvs, rfl⟩, rfl, hall⟩
      rw [translateEach] at hall ⊢
      obtain ⟨hw, hws⟩ := List.forall_mem_cons.1 hall
      exact ⟨_, i, _, ⟨v, hv, rfl, hw⟩, ⟨vs, hvs, rfl, hws⟩, rfl⟩

/-- Copies translate to copies, which is what the items of a sequence need: all
have the same type. -/
theorem translateEach_copies (item : TypeId) (v : Value) (n : Nat) :
    r.translateEach names (List.replicate n item) (List.replicate n v) =
      List.replicate n (r.translate names item v) := by
  induction n with
  | zero =>
    rw [List.replicate_zero, translateEach]
    · rfl
    · simp
  | succ n ih => rw [List.replicate_succ, List.replicate_succ, translateEach, ih, List.replicate_succ]

theorem refs_copies (item : TypeId) (n : Nat) :
    refs (List.replicate n item) = List.replicate n (.ref (label item)) :=
  List.map_replicate

/-! ## Constructor by constructor -/

section

variable (r names)

/-- Whether a codec shows what a plain codec reads at a type, if its parts show
what references read. -/
def Mirrors (id : TypeId) (c plain : Codec) : Prop :=
  ∀ deref buf o w e, decodeWith (r.shown names deref) c buf o = .ok (w, e) ↔
    r.shownAt names id (decodeWith deref plain) buf o = .ok (w, e)

end

/-- A list translates item by item unless its items are bytes. A list of bytes
is a byte string in a client, and has its own case. -/
theorem translate_seq {id item : TypeId} (hdef : r.definition? id = some (.sequence item))
    (hbyte : r.isByte item = false) (items : List Value) :
    r.translate names id (.list items) =
      .list (r.translateEach names (List.replicate items.length item) items) := by
  rw [translate, hdef]
  dsimp only
  rw [hbyte]
  rfl

/-- **Sequences mirror.** A decoder reads the items one after the other while
the bytes last for them, and otherwise reads one item and copies it. Both ways
are the same on both sides, since a count that exceeds the bytes is not zero:
the one item that is read stands in the list. -/
theorem mirrors_seq {id item : TypeId} (hdef : r.definition? id = some (.sequence item))
    (hbyte : r.isByte item = false) :
    r.Mirrors names id (.seq (.ref (label item))) (.seq (.ref (label item))) := by
  intro deref buf o w e
  rw [shownAt_ok_iff]
  constructor
  · intro h
    obtain ⟨n, i, hcount, hcases⟩ := decodeWith_seq_ok_iff.1 h
    obtain ⟨hlarge, hn, rfl, w, hprobe, rfl⟩ | ⟨hsmall, ws, hws, rfl⟩ := hcases
    · rw [decodeWith_ref, shown_label, shownAt_ok_iff] at hprobe
      obtain ⟨v, hv, rfl, hmade⟩ := hprobe
      refine ⟨.list (List.replicate n v), decodeWith_seq_ok_iff.2 ⟨n, i, hcount, .inl
        ⟨hlarge, hn, rfl, v, by rw [decodeWith_ref]; exact hv, rfl⟩⟩, ?_, ?_⟩
      · rw [translate_seq hdef hbyte, List.length_replicate, translateEach_copies]
      · rw [Value.constructible, Value.allConstructible_iff]
        exact fun x hx => List.eq_of_mem_replicate hx ▸ hmade
    · rw [← refs_copies, decodeTuple_shown] at hws
      obtain ⟨vs, hvs, rfl, hmade⟩ := hws
      have hlen := length_decodeTuple hvs
      rw [List.length_map, List.length_replicate] at hlen
      refine ⟨.list vs, decodeWith_seq_ok_iff.2 ⟨n, i, hcount, .inr
        ⟨hsmall, vs, by rw [← refs_copies]; exact hvs, rfl⟩⟩, ?_, ?_⟩
      · rw [translate_seq hdef hbyte, hlen]
      · rw [Value.constructible, Value.allConstructible_iff]
        exact hmade
  · rintro ⟨v, hv, rfl, hmade⟩
    obtain ⟨n, i, hcount, hcases⟩ := decodeWith_seq_ok_iff.1 hv
    refine decodeWith_seq_ok_iff.2 ⟨n, i, hcount, ?_⟩
    obtain ⟨-, -, -, hi, -⟩ := decodeCount_ok_iff.1 hcount
    obtain ⟨hlarge, hn, rfl, x, hprobe, rfl⟩ | ⟨hsmall, vs, hvs, rfl⟩ := hcases
    · rw [translate_seq hdef hbyte, List.length_replicate, translateEach_copies] at hmade ⊢
      rw [Value.constructible, Value.allConstructible_iff] at hmade
      rw [decodeWith_ref] at hprobe
      -- A count that exceeds the bytes that are left is not zero, so the probe is one of
      -- the items.
      have hmade := hmade _ (List.mem_replicate.2 ⟨by omega, rfl⟩)
      refine .inl ⟨hlarge, hn, rfl, r.translate names item x, ?_, rfl⟩
      rw [decodeWith_ref, shown_label, shownAt_ok_iff]
      exact ⟨x, hprobe, rfl, hmade⟩
    · rw [← refs_copies] at hvs
      have hlen := length_decodeTuple hvs
      rw [List.length_map, List.length_replicate] at hlen
      rw [translate_seq hdef hbyte, hlen] at hmade ⊢
      rw [Value.constructible, Value.allConstructible_iff] at hmade
      refine .inr ⟨hsmall, _, ?_, rfl⟩
      rw [← refs_copies, decodeTuple_shown]
      exact ⟨vs, hvs, rfl, hmade⟩

/-- Parts of given types make a tuple on both sides. It is used for tuples and
arrays, which translate alike; that they do is the hypothesis. -/
theorem shown_tuple {id : TypeId} {ids : List TypeId}
    (htranslate : ∀ vs : List Value, vs.length = ids.length →
      r.translate names id (.tuple vs) = .tuple (r.translateEach names ids vs))
    {deref : Deref} {buf : Bytes} {o e : Nat} {w : Value} :
    (∃ ws, decodeTuple (r.shown names deref) (refs ids) buf o = .ok (ws, e) ∧ w = .tuple ws) ↔
      ∃ v, (∃ vs, decodeTuple deref (refs ids) buf o = .ok (vs, e) ∧ v = .tuple vs) ∧
        r.translate names id v = w ∧ w.constructible (r.spoils names) = true := by
  have hlen : ∀ {vs}, decodeTuple deref (refs ids) buf o = .ok (vs, e) → vs.length = ids.length := by
    intro vs hvs
    rw [length_decodeTuple hvs, List.length_map]
  constructor
  · rintro ⟨ws, hws, rfl⟩
    obtain ⟨vs, hvs, rfl, hmade⟩ := decodeTuple_shown.1 hws
    refine ⟨.tuple vs, ⟨vs, hvs, rfl⟩, htranslate vs (hlen hvs), ?_⟩
    rw [Value.constructible, Value.allConstructible_iff]
    exact hmade
  · rintro ⟨_, ⟨vs, hvs, rfl⟩, rfl, hmade⟩
    rw [htranslate vs (hlen hvs), Value.constructible, Value.allConstructible_iff] at hmade
    exact ⟨_, decodeTuple_shown.2 ⟨vs, hvs, rfl, hmade⟩, htranslate vs (hlen hvs)⟩

/-- Tuples mirror, part by part. -/
theorem mirrors_tuple {id : TypeId} {ids : List TypeId} (hdef : r.definition? id = some (.tuple ids)) :
    r.Mirrors names id (.tuple (refs ids)) (.tuple (refs ids)) := by
  intro deref buf o w e
  rw [shownAt_ok_iff]
  simp only [decodeWith_tuple_ok_iff]
  refine shown_tuple fun vs _ => ?_
  rw [translate, hdef]

/-- Arrays mirror, as tuples of copies of their item do. -/
theorem mirrors_array {id item : TypeId} {length : Nat}
    (hdef : r.definition? id = some (.array item length)) (hbyte : r.isByte item = false) :
    r.Mirrors names id (.array (.ref (label item)) length) (.array (.ref (label item)) length) := by
  intro deref buf o w e
  rw [shownAt_ok_iff]
  simp only [decodeWith_array_ok_iff, ← refs_copies]
  refine shown_tuple fun vs hlen => ?_
  rw [List.length_replicate] at hlen
  rw [translate, hdef, ← hlen]
  dsimp only
  rw [hbyte]
  rfl

/-! ## Records -/

/-- The attributes of a record translate with their values; the names stay. The
three lists may be of different lengths, and both sides stop with the shortest
one. -/
theorem translateAttributes_zip (ids : List TypeId) (ns : List String) (vs : List Value) :
    r.translateAttributes names ids (ns.zip vs) = ns.zip (r.translateEach names ids vs) := by
  induction ids generalizing ns vs with
  | nil =>
    rw [translateAttributes, translateEach]
    · rw [List.zip_nil_right]
    · simp
    · simp
  | cons id ids ih =>
    cases vs with
    | nil =>
      rw [List.zip_nil_right, translateAttributes, translateEach, List.zip_nil_right]
      · simp
      · simp
    | cons v vs =>
      cases ns with
      | nil =>
        rw [List.zip_nil_left, List.zip_nil_left, translateAttributes]
        simp
      | cons name ns => rw [List.zip_cons_cons, translateAttributes, ih, translateEach, List.zip_cons_cons]

/-- An instance of a type that is declared becomes an instance of its class. -/
theorem translate_instance {id : TypeId} {e : Entry} (he : r.entry? id = some e)
    (hknown : r.wellKnown? e = none) (cls : String) (ns : List String) (vs : List Value) :
    r.translate names id (.instance cls (ns.zip vs)) =
      .instance (names.classOf e.id cls e.definition)
        (ns.zip (r.translateEach names (e.definition.attributeTypes cls) vs)) := by
  rw [translate, he]
  dsimp only
  rw [present, hknown, translateAttributes_zip]

/-- When a record of given types is decoded: its parts are, one after the other,
and the class makes an instance of them. -/
theorem decodeRecord_refs_ok_iff {ids : List TypeId} {ns : List String} (hlen : ns.length = ids.length)
    {deref : Deref} {shape : Shape} {buf : Bytes} {o e : Nat} {v : Value} :
    decodeRecord deref buf shape (ns.zip (refs ids)) o = .ok (v, e) ↔
      ∃ vs, decodeTuple deref (refs ids) buf o = .ok (vs, e) ∧ vs.length = ids.length ∧
        instanceOf shape (ns.zip vs) = .ok v := by
  have hnames : (ns.zip (refs ids)).map (·.1) = ns :=
    List.map_fst_zip (by rw [List.length_map]; exact Nat.le_of_eq hlen)
  have hparts : (ns.zip (refs ids)).map (·.2) = refs ids :=
    List.map_snd_zip (by rw [List.length_map]; exact Nat.le_of_eq hlen.symm)
  rw [decodeRecord_ok_iff, hnames, hparts]
  refine exists_congr fun vs => and_congr_right fun hvs => ?_
  rw [length_decodeTuple hvs, List.length_map]
  exact (and_iff_right rfl).symm

/-- Fields of given types make a record on both sides. The plain class takes
whatever it is given, so only the client's class decides whether there is
an instance; that it does so by its name and by its fields is what
`instanceOf_below_ok_iff` says. -/
theorem shown_record {id : TypeId} {ids : List TypeId} {cls plainCls : String} {ns : List String}
    (hnodup : ns.Nodup) (hfree : missingAttribute ∉ ns) (hlen : ns.length = ids.length)
    (htranslate : ∀ vs, r.translate names id (.instance plainCls (ns.zip vs)) =
      .instance cls (ns.zip (r.translateEach names ids vs)))
    {deref : Deref} {buf : Bytes} {o e : Nat} {w : Value} :
    decodeRecord (r.shown names deref) buf (instancesBelow (r.spoils names cls) cls ns) (ns.zip (refs ids)) o =
        .ok (w, e) ↔
      ∃ v, decodeRecord deref buf ⟨plainCls, ns⟩ (ns.zip (refs ids)) o = .ok (v, e) ∧
        r.translate names id v = w ∧ w.constructible (r.spoils names) = true := by
  simp only [decodeRecord_refs_ok_iff hlen]
  constructor
  · rintro ⟨ws, hws, hlength, hinstance⟩
    obtain ⟨vs, hvs, rfl, hmade⟩ := decodeTuple_shown.1 hws
    have hcount : vs.length = ids.length := by rw [length_decodeTuple hvs, List.length_map]
    have hlength := hlength.trans hlen.symm
    obtain ⟨hspoiled, htakes, rfl⟩ := (instanceOf_below_ok_iff hnodup hfree hlength).1 hinstance
    refine ⟨_, ⟨vs, hvs, hcount, instanceOf_same hnodup (hcount.trans hlen.symm)⟩, htranslate vs, ?_⟩
    rw [Value.constructible, hspoiled, Bool.not_false, Bool.true_and, Value.attributesConstructible_zip hlength]
    exact ⟨htakes, hmade⟩
  · rintro ⟨v, ⟨vs, hvs, hcount, hinstance⟩, rfl, hmade⟩
    -- The plain class takes every name, so it is only the client's that can refuse.
    rw [instanceOf_same hnodup (hcount.trans hlen.symm)] at hinstance
    cases hinstance
    have hlength : (r.translateEach names ids vs).length = ids.length := length_translateEach hcount
    rw [htranslate, Value.constructible, Bool.and_eq_true, Bool.not_eq_true',
      Value.attributesConstructible_zip (hlength.trans hlen.symm)] at hmade
    obtain ⟨hspoiled, htakes, hmade⟩ := hmade
    refine ⟨_, decodeTuple_shown.2 ⟨vs, hvs, rfl, hmade⟩, hlength, ?_⟩
    exact (instanceOf_below_ok_iff hnodup hfree (hlength.trans hlen.symm)).2 ⟨hspoiled, htakes, htranslate vs⟩

theorem plainFields_eq (fields : List Field) :
    plainFields fields = (fieldNames (fields.map (·.name))).zip (refs (fields.map (·.typeId))) := by
  rw [plainFields, refs, List.map_map]
  rfl

theorem length_names_types (fields : List Field) :
    (fieldNames (fields.map (·.name))).length = (fields.map (·.typeId)).length := by
  rw [length_fieldNames, List.length_map, List.length_map]

/-- No field is called like what is missing from classes without instances. -/
theorem missing_notMem_fieldNames (fields : List (Option String)) : missingAttribute ∉ fieldNames fields :=
  notMem_distinctNames (by decide)

/-- **Records mirror.** Both codecs read the fields under the same names. What a
client makes of them is an instance if its class takes them as attributes; on
the other side this is asked of the translated value. -/
theorem mirrors_struct {id : TypeId} {e : Entry} {fields : List Field} {name : String} (hd : names.Distinct)
    (he : r.entry? id = some e) (hdef : e.definition = .composite fields) (hknown : r.wellKnown? e = none)
    (hname : names.types.find? id = some name) :
    r.Mirrors names id (.struct (instancesOf name (fieldNames (fields.map (·.name)))) (plainFields fields))
      (.struct (plainClass id fields) (plainFields fields)) := by
  intro deref buf o w i
  have hid : e.id = id := by simpa using List.find?_some he
  rw [shownAt_ok_iff, decodeWith_struct, plainFields_eq]
  simp only [decodeWith_struct]
  have hshape : instancesOf name (fieldNames (fields.map (·.name))) =
      instancesBelow (r.spoils names name) name (fieldNames (fields.map (·.name))) := by
    rw [spoils_type hd hname]
    rfl
  rw [hshape]
  refine shown_record (distinctNames_nodup _ _) (missing_notMem_fieldNames _) (length_names_types fields) fun vs => ?_
  rw [translate_instance he hknown, hdef, hid, ModuleNames.classOf, hname]
  rfl

end Registry

end ContractClient
