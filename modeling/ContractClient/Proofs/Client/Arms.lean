/-
Variants, options and results, in a client and plain.

A variant is decoded arm by arm on both sides, and the byte in front picks the
arm by its index. A client has a class for each arm, in the order of the arms,
so the class that belongs to an arm is found by the place of the arm. Options
and results are variants whose two arms are known by their names, their indices
and the number of their fields: what the registry recognizes is just enough to
tell the arm that the byte picks.
-/
import ContractClient.Proofs.Client.Mirror
import ContractClient.Proofs.Client.Spelling
import Mathlib.Data.List.Find

set_option autoImplicit false

namespace ContractClient.Registry

open Codec

variable {r : Registry} {names : ModuleNames}

/-! ## Plain variants -/

/-- An arm with an index is found among the plain arms where it is found in the
document. -/
theorem find?_plainArm (arms : List ContractClient.Arm) (n : Nat) :
    (arms.map plainArm).find? (fun arm => arm.1 == n) = (arms.find? fun arm => arm.index == n).map plainArm :=
  List.find?_map

/-- When a variant is decoded. -/
theorem decodeWith_variant_ok_iff {deref : Deref} {base : String} {arms : List ContractClient.Arm} {buf : Bytes}
    {o e : Nat} {v : Value} :
    decodeWith deref (.enum base (arms.map plainArm)) buf o = .ok (v, e) ↔
      ∃ tag i arm, Between buf o i [tag] ∧ (arms.find? fun arm => arm.index == tag.toNat) = some arm ∧
        decodeRecord deref buf (plainClass arm.index arm.fields) (plainFields arm.fields) i = .ok (v, e) := by
  rw [decodeWith_enum_ok_iff]
  simp only [find?_plainArm, Option.map_eq_some_iff]
  constructor
  · rintro ⟨tag, i, _, htag, ⟨arm, harm, rfl⟩, hrecord⟩
    exact ⟨tag, i, arm, htag, harm, hrecord⟩
  · rintro ⟨tag, i, arm, htag, harm, hrecord⟩
    exact ⟨tag, i, _, htag, ⟨arm, harm, rfl⟩, hrecord⟩

/-! ## Variants -/

/-- An arm as a client decodes it, with the name of its class, below a class
that is spoiled or is not. -/
def clientArm (spoiled : Bool) (arm : ContractClient.Arm) (cls : String) : Codec.Arm :=
  (arm.index, instancesBelow spoiled cls (fieldNames (arm.fields.map (·.name))), plainFields arm.fields)

/-- Labels find the same arm as the indices they were made from. -/
theorem find?_label (arms : List ContractClient.Arm) (n : Nat) :
    (arms.find? fun arm => label arm.index == label n) = arms.find? fun arm => arm.index == n := by
  refine List.find?_congr fun arm _ => ?_
  rw [Bool.eq_iff_iff, beq_iff_eq, beq_iff_eq, label_inj]

/-- An instance of the class that has the number of an arm becomes one of
the class of the arm. On the plain side an arm goes by its index, as a label, so
`hfind` asks that the search by this index stops at the arm and at the class
that was named for it. -/
theorem translate_arm {id : TypeId} {e : Entry} {arms : List ContractClient.Arm} (he : r.entry? id = some e)
    (hdef : e.definition = .variant arms) (hknown : r.wellKnown? e = none)
    (hlen : (names.armsOf id).length = arms.length) {arm : ContractClient.Arm} {cls : String}
    (hfind : ((arms.zip (names.armsOf id)).find? fun p => p.1.index == arm.index) = some (arm, cls))
    (ns : List String) (vs : List Value) :
    r.translate names id (.instance (label arm.index) (ns.zip vs)) =
      .instance cls (ns.zip (r.translateEach names (arm.fields.map (·.typeId)) vs)) := by
  have hid : e.id = id := by simpa using List.find?_some he
  have harm : e.definition.armOf? (label arm.index) = some arm := by
    rw [hdef, TypeDef.armOf?, find?_label, find?_zip hlen.symm, hfind]
    rfl
  -- Classes are searched by labels and arms by indices, which is one search as labels are
  -- injective.
  have hcls : names.classOf e.id (label arm.index) e.definition = cls := by
    have hzip : ((arms.map fun arm => label arm.index).zip (names.armsOf id)).find? (·.1 == label arm.index) =
        some (label arm.index, cls) := by
      have hsame : ((arms.zip (names.armsOf id)).find? fun p => label p.1.index == label arm.index) =
          some (arm, cls) := by
        rw [← hfind]
        refine List.find?_congr fun p _ => ?_
        rw [Bool.eq_iff_iff, beq_iff_eq, beq_iff_eq, label_inj]
      rw [List.zip_map_left, List.find?_map]
      exact congrArg (Option.map _) hsame
    rw [hdef, hid, ModuleNames.classOf, hzip]
    rfl
  rw [translate_instance he hknown, hcls]
  have htypes : e.definition.attributeTypes (label arm.index) = arm.fields.map (·.typeId) := by
    rw [TypeDef.attributeTypes, harm]
    · rfl
    · simp [hdef]
  rw [htypes]

/-- **Enums mirror.** Both sides find an arm by its index, and then read a
record. An arm that is offered under a name for instances spoils the class; then
the client makes no value of any arm, and `constructible` says so on the other
side. -/
theorem mirrors_enum {id : TypeId} {e : Entry} {arms : List ContractClient.Arm} (base : String) (hd : names.Distinct)
    (he : r.entry? id = some e) (hdef : e.definition = .variant arms) (hknown : r.wellKnown? e = none)
    (hlen : (names.armsOf id).length = arms.length) :
    r.Mirrors names id (.enum base ((arms.zip (names.armsOf id)).map fun p => clientArm e.definition.spoiled p.1 p.2))
      (.enum (label id) (arms.map plainArm)) := by
  intro deref buf o w i
  rw [shownAt_ok_iff, decodeWith_enum_ok_iff]
  simp only [decodeWith_variant_ok_iff, List.find?_map, Option.map_eq_some_iff]
  -- Whichever arm the byte picks, it picks it on both sides, and the records of the arm match.
  have hrecord : ∀ {tag : Nat} {arm : ContractClient.Arm} {cls : String} {j : Nat},
      ((arms.zip (names.armsOf id)).find? fun p => p.1.index == tag) = some (arm, cls) →
      (decodeRecord (r.shown names deref) buf (clientArm e.definition.spoiled arm cls).2.1
          (clientArm e.definition.spoiled arm cls).2.2 j = .ok (w, i) ↔
        ∃ v, decodeRecord deref buf (plainClass arm.index arm.fields) (plainFields arm.fields) j = .ok (v, i) ∧
          r.translate names id v = w ∧ w.constructible (r.spoils names) = true) := by
    intro tag arm cls j hfind
    have htag : arm.index = tag := by simpa using List.find?_some hfind
    rw [← htag] at hfind
    have hcls : cls ∈ names.armsOf id := (List.of_mem_zip (List.mem_of_find?_eq_some hfind)).2
    rw [clientArm, plainClass, plainFields_eq, ← spoils_arm hd (definition?_of_entry he rfl) hcls]
    exact shown_record (distinctNames_nodup _ _) (missing_notMem_fieldNames _) (length_names_types arm.fields)
      (translate_arm he hdef hknown hlen hfind _)
  constructor
  · rintro ⟨tag, j, _, htag, ⟨⟨arm, cls⟩, hfind, rfl⟩, hclient⟩
    obtain ⟨v, hv, htranslate, hmade⟩ := (hrecord hfind).1 hclient
    have harm : arms.find? (fun arm => arm.index == tag.toNat) = some arm := by
      rw [find?_zip hlen.symm]
      exact congrArg (Option.map _) hfind
    exact ⟨v, ⟨tag, j, arm, htag, harm, hv⟩, htranslate, hmade⟩
  · rintro ⟨v, ⟨tag, j, arm, htag, harm, hv⟩, htranslate, hmade⟩
    rw [find?_zip hlen.symm] at harm
    obtain ⟨⟨_, cls⟩, hfind, rfl⟩ := Option.map_eq_some_iff.1 harm
    exact ⟨tag, j, _, htag, ⟨_, hfind, rfl⟩, (hrecord hfind).2 ⟨v, hv, htranslate, hmade⟩⟩

/-! ## Two known arms -/

/-- What a variant with known arms has, and nothing else. -/
theorem hasArms_iff {arms : List ContractClient.Arm} {expected : List (String × Nat × Nat)} :
    hasArms arms expected = true ↔
      (∀ arm ∈ arms, (arm.name, arm.index, arm.fields.length) ∈ expected) ∧
        ∀ key ∈ expected, ∃ arm ∈ arms, (arm.name, arm.index, arm.fields.length) = key := by
  unfold hasArms
  rw [Bool.and_eq_true, List.all_eq_true, List.all_eq_true, List.forall_mem_map]
  simp only [List.contains_iff_mem, List.mem_map]

/-- **Known arms are found by their index** as they are by their name. The
recognized shapes are given by name, and the byte in front of a value is an
index; that the expected arms determine one another (`hname`, `hindex`) makes
both searches stop at the same arm. -/
theorem known_arm {arms : List ContractClient.Arm} {expected : List (String × Nat × Nat)}
    (harms : hasArms arms expected = true) (name : String) (index count : Nat)
    (hkey : (name, index, count) ∈ expected)
    (hname : ∀ key ∈ expected, key.1 = name → key = (name, index, count))
    (hindex : ∀ key ∈ expected, key.2.1 = index → key = (name, index, count)) :
    ∃ arm, (arms.find? fun arm => arm.index == index) = some arm ∧
      (arms.find? fun arm => arm.name == name) = some arm ∧ arm.index = index ∧ arm.fields.length = count := by
  obtain ⟨hall, hexists⟩ := hasArms_iff.1 harms
  -- On the arms that are there, index and name say the same, so both searches stop at one arm.
  have hsame : (arms.find? fun arm => arm.index == index) = arms.find? fun arm => arm.name == name := by
    refine List.find?_congr fun arm harm => ?_
    rw [Bool.eq_iff_iff, beq_iff_eq, beq_iff_eq]
    constructor
    · intro h
      exact congrArg (·.1) (hindex _ (hall arm harm) h)
    · intro h
      exact congrArg (·.2.1) (hname _ (hall arm harm) h)
  obtain ⟨other, hother, hkey⟩ := hexists _ hkey
  cases hfind : arms.find? fun arm => arm.index == index with
  | none =>
    have hnot := List.find?_eq_none.1 hfind other hother
    exact absurd (by simpa using congrArg (·.2.1) hkey) hnot
  | some arm =>
    have hi : arm.index = index := by simpa using List.find?_some hfind
    have hcount := hindex _ (hall arm (List.mem_of_find?_eq_some hfind)) hi
    exact ⟨arm, rfl, hsame ▸ hfind, hi, congrArg (·.2.2) hcount⟩

/-- Two known arms have the indices 0 and 1 and no others. -/
theorem index_of_hasArms {arms : List ContractClient.Arm} {first second : String} {n m : Nat}
    (harms : hasArms arms [(first, 0, n), (second, 1, m)] = true) :
    ∀ arm ∈ arms, arm.index = 0 ∨ arm.index = 1 := by
  intro arm harm
  have hkey := (hasArms_iff.1 harms).1 arm harm
  simp only [List.mem_cons, List.not_mem_nil, or_false, Prod.mk.injEq] at hkey
  rcases hkey with ⟨-, hi, -⟩ | ⟨-, hi, -⟩
  · exact .inl hi
  · exact .inr hi

/-- The type of the payload of a known arm. -/
theorem payload_of_armType {arms : List ContractClient.Arm} {name : String} {inner : TypeId}
    (htype : (TypeDef.variant arms).armType? name = some inner) {arm : ContractClient.Arm}
    (hfind : (arms.find? fun arm => arm.name == name) = some arm) (hcount : arm.fields.length = 1) :
    ∃ f, arm.fields = [f] ∧ f.typeId = inner := by
  obtain ⟨f, hf⟩ := List.length_eq_one_iff.1 hcount
  refine ⟨f, hf, ?_⟩
  rw [TypeDef.armType?, hfind] at htype
  simpa [hf] using htype

/-- **The byte in front of one of two arms** is its index. Of an enum that is
known to have the arms 0 and 1 only, two ways to be read are left, which are the
two ways to read an option or a result. -/
theorem decodeWith_two_ok_iff {arms : List ContractClient.Arm} {first second : ContractClient.Arm}
    (hall : ∀ arm ∈ arms, arm.index = 0 ∨ arm.index = 1)
    (hfirst : (arms.find? fun arm => arm.index == 0) = some first)
    (hsecond : (arms.find? fun arm => arm.index == 1) = some second) {deref : Deref} {base : String} {buf : Bytes}
    {o e : Nat} {v : Value} :
    decodeWith deref (.enum base (arms.map plainArm)) buf o = .ok (v, e) ↔
      (∃ i, Between buf o i [0] ∧
        decodeRecord deref buf (plainClass 0 first.fields) (plainFields first.fields) i = .ok (v, e)) ∨
      ∃ i, Between buf o i [1] ∧
        decodeRecord deref buf (plainClass 1 second.fields) (plainFields second.fields) i = .ok (v, e) := by
  have hindex : ∀ {n arm}, (arms.find? fun arm => arm.index == n) = some arm → arm.index = n := by
    intro n arm hfind
    simpa using List.find?_some hfind
  rw [decodeWith_variant_ok_iff]
  constructor
  · rintro ⟨tag, i, arm, htag, hfind, hrecord⟩
    have harm := hindex hfind
    rcases hall arm (List.mem_of_find?_eq_some hfind) with hi | hi
    -- The tag is a byte and the index a number; they are equal as numbers.
    · have hzero : tag = 0 := UInt8.toNat_inj.1 (harm.symm.trans hi)
      subst hzero
      cases hfirst.symm.trans hfind
      exact .inl ⟨i, htag, hi ▸ hrecord⟩
    · have hone : tag = 1 := UInt8.toNat_inj.1 (harm.symm.trans hi)
      subst hone
      cases hsecond.symm.trans hfind
      exact .inr ⟨i, htag, hi ▸ hrecord⟩
  · rintro (⟨i, htag, hrecord⟩ | ⟨i, htag, hrecord⟩)
    · exact ⟨0, i, first, htag, hfirst, (hindex hfirst).symm ▸ hrecord⟩
    · exact ⟨1, i, second, htag, hsecond, (hindex hsecond).symm ▸ hrecord⟩

/-- Without fields there is nothing to decode. -/
theorem decodeRecord_none {deref : Deref} {n : Nat} {buf : Bytes} {o e : Nat} {v : Value} :
    decodeRecord deref buf (plainClass n []) (plainFields []) o = .ok (v, e) ↔
      o = e ∧ v = .instance (label n) [] := by
  rw [plainFields_eq, decodeRecord_refs_ok_iff (length_names_types [])]
  constructor
  · rintro ⟨vs, hvs, -, hinstance⟩
    rw [List.map_nil, refs, List.map_nil, decodeTuple_nil] at hvs
    cases hvs
    cases hinstance
    exact ⟨rfl, rfl⟩
  · rintro ⟨rfl, rfl⟩
    exact ⟨[], decodeTuple_nil _ _ o, rfl, rfl⟩

/-- With one field there is one part to decode. The name of the field is
whatever the class makes of it; it is the same for all bytes, and so stands
outside. -/
theorem decodeRecord_one (f : Field) : ∃ name, ∀ {deref : Deref} {n : Nat} {buf : Bytes} {o e : Nat} {v : Value},
    decodeRecord deref buf (plainClass n [f]) (plainFields [f]) o = .ok (v, e) ↔
      ∃ x, deref (label f.typeId) buf o = .ok (x, e) ∧ v = .instance (label n) [(name, x)] := by
  have hnodup : (fieldNames ([f].map (·.name))).Nodup := distinctNames_nodup _ _
  obtain ⟨name, hname⟩ := List.length_eq_one_iff.1 (length_fieldNames ([f].map (·.name)))
  refine ⟨name, ?_⟩
  intro deref n buf o e v
  -- A class with one field takes any value for it.
  have hinstance : ∀ x, instanceOf (plainClass n [f]) ([name].zip [x]) = .ok (.instance (label n) [(name, x)]) := by
    intro x
    rw [plainClass, hname]
    exact instanceOf_same (List.nodup_singleton name) rfl
  rw [plainFields_eq, decodeRecord_refs_ok_iff (length_names_types [f]), hname]
  constructor
  · rintro ⟨vs, hvs, -, hv⟩
    obtain ⟨x, i, rest, hx, hrest, rfl⟩ := decodeTuple_cons_ok_iff.1 hvs
    rw [List.map_nil, List.map_nil, decodeTuple_nil] at hrest
    cases hrest
    rw [hinstance] at hv
    cases hv
    rw [decodeWith_ref] at hx
    exact ⟨x, hx, rfl⟩
  · rintro ⟨x, hx, rfl⟩
    refine ⟨[x], decodeTuple_cons_ok_iff.2 ⟨x, e, [], ?_, decodeTuple_nil _ _ e, rfl⟩, rfl, hinstance x⟩
    rw [decodeWith_ref]
    exact hx

/-! ## Options and results -/

/-- The known shape of an option has the two arms of one, with their numbers of
fields. -/
theorem wellKnown?_option {e : Entry} (h : r.wellKnown? e = some .option) :
    ∃ arms, e.definition = .variant arms ∧ hasArms arms [("None", 0, 0), ("Some", 1, 1)] = true := by
  unfold wellKnown? at h
  split at h
  · next arms hdef =>
    refine ⟨arms, hdef, ?_⟩
    by_cases hoption : (e.path == ["Option"] && hasArms arms [("None", 0, 0), ("Some", 1, 1)]) = true
    · exact (Bool.and_eq_true_iff.1 hoption).2
    · rw [if_neg hoption] at h
      split at h <;> cases h
  · split at h
    · split at h <;> cases h
    · cases h
  · cases h

/-- The known shape of a result has the two arms of a result, with their numbers
of fields. -/
theorem wellKnown?_result {e : Entry} (h : r.wellKnown? e = some .result) :
    ∃ arms, e.definition = .variant arms ∧ hasArms arms [("Ok", 0, 1), ("Err", 1, 1)] = true := by
  unfold wellKnown? at h
  split at h
  · next arms hdef =>
    refine ⟨arms, hdef, ?_⟩
    split at h
    · cases h
    · by_cases hresult : (e.path == ["Result"] && hasArms arms [("Ok", 0, 1), ("Err", 1, 1)]) = true
      · exact (Bool.and_eq_true_iff.1 hresult).2
      · rw [if_neg hresult] at h
        cases h
  · split at h
    · split at h <;> cases h
    · cases h
  · cases h

/-- The payload of an arm is translated, and then it is shown without the
arm. -/
theorem translate_payload {id : TypeId} {e : Entry} {arms : List ContractClient.Arm} (he : r.entry? id = some e)
    (hdef : e.definition = .variant arms) {n : Nat} {arm : ContractClient.Arm} {f : Field}
    (hfind : (arms.find? fun arm => arm.index == n) = some arm) (hfields : arm.fields = [f]) (name : String)
    (x : Value) :
    r.translate names id (.instance (label n) [(name, x)]) =
      r.present names e (label n) [(name, r.translate names f.typeId x)] := by
  have htypes : e.definition.attributeTypes (label n) = [f.typeId] := by
    rw [hdef, TypeDef.attributeTypes, TypeDef.armOf?, find?_label, hfind, Option.map_some, hfields]
    · rfl
    · simp
  rw [translate, he]
  dsimp only
  rw [htypes, translateAttributes, translateAttributes]
  simp

/-- **Options mirror.** The plain codec reads an enum with the arms `None` and
`Some`; the client reads the same bytes as nothing or the payload. The byte in
front decides on both sides. -/
theorem mirrors_option {id inner : TypeId} {e : Entry} (he : r.entry? id = some e)
    (hknown : r.wellKnown? e = some .option) (hinner : e.definition.armType? "Some" = some inner) :
    r.Mirrors names id (.option (.ref (label inner))) (r.plainCodec id e.definition) := by
  obtain ⟨arms, hdef, harms⟩ := wellKnown?_option hknown
  obtain ⟨none, hnone, -, -, hnothing⟩ := known_arm harms "None" 0 0 (by simp) (by simp) (by simp)
  obtain ⟨some, hsome, hname, -, hcount⟩ := known_arm harms "Some" 1 1 (by simp) (by simp) (by simp)
  rw [hdef] at hinner
  obtain ⟨f, hf, rfl⟩ := payload_of_armType hinner hname hcount
  obtain ⟨name, hone⟩ := decodeRecord_one f
  have htranslate_none : r.translate names id (.instance (label 0) []) = .none := by
    rw [translate, he]
    dsimp only
    rw [translateAttributes, present, hknown]
    · rfl
    · simp
  have htranslate_some : ∀ x, r.translate names id (.instance (label 1) [(name, x)]) =
      r.translate names f.typeId x := by
    intro x
    rw [translate_payload he hdef hsome hf, present, hknown]
    rfl
  -- What is left is to compare two lists of cases, tag by tag.
  intro deref buf o w i
  rw [shownAt_ok_iff, decodeWith_option_ok_iff, hdef, plainCodec]
  simp only [decodeWith_two_ok_iff (index_of_hasArms harms) hnone hsome,
    List.eq_nil_of_length_eq_zero hnothing, hf, decodeRecord_none, hone, decodeWith_ref, shown_label,
    shownAt_ok_iff]
  constructor
  · rintro (⟨htag, rfl⟩ | ⟨j, htag, x, hx, rfl, hmade⟩)
    · exact ⟨_, .inl ⟨i, htag, rfl, rfl⟩, htranslate_none, rfl⟩
    · exact ⟨_, .inr ⟨j, htag, x, hx, rfl⟩, htranslate_some x, hmade⟩
  · rintro ⟨_, ⟨j, htag, rfl, rfl⟩ | ⟨j, htag, x, hx, rfl⟩, rfl, hmade⟩
    · exact .inl ⟨htag, htranslate_none⟩
    · exact .inr ⟨j, htag, x, hx, (htranslate_some x).symm, hmade⟩

/-- **Results mirror**, with the arms `Ok` and `Err` for the byte in front. The
plain instance of either arm is translated into the wrapper for that side around
the translated payload, so both directions go through the payload's own
mirror. -/
theorem mirrors_result {id ok err : TypeId} {e : Entry} (he : r.entry? id = some e)
    (hknown : r.wellKnown? e = some .result) (hok : e.definition.armType? "Ok" = some ok)
    (herr : e.definition.armType? "Err" = some err) :
    r.Mirrors names id (.result (.ref (label ok)) (.ref (label err))) (r.plainCodec id e.definition) := by
  obtain ⟨arms, hdef, harms⟩ := wellKnown?_result hknown
  obtain ⟨first, hfirst, hname, -, hcount⟩ := known_arm harms "Ok" 0 1 (by simp) (by simp) (by simp)
  obtain ⟨second, hsecond, hname', -, hcount'⟩ := known_arm harms "Err" 1 1 (by simp) (by simp) (by simp)
  rw [hdef] at hok herr
  obtain ⟨f, hf, rfl⟩ := payload_of_armType hok hname hcount
  obtain ⟨g, hg, rfl⟩ := payload_of_armType herr hname' hcount'
  obtain ⟨name, hone⟩ := decodeRecord_one f
  obtain ⟨name', hone'⟩ := decodeRecord_one g
  have htranslate_ok : ∀ x, r.translate names id (.instance (label 0) [(name, x)]) =
      .ok (r.translate names f.typeId x) := by
    intro x
    rw [translate_payload he hdef hfirst hf, present, hknown]
    exact if_pos rfl
  have htranslate_err : ∀ x, r.translate names id (.instance (label 1) [(name', x)]) =
      .err (r.translate names g.typeId x) := by
    intro x
    rw [translate_payload he hdef hsecond hg, present, hknown]
    -- The class of the second arm has another number than that of the first.
    exact if_neg fun h => absurd (label_inj.1 h) (by decide)
  intro deref buf o w i
  rw [shownAt_ok_iff, decodeWith_result_ok_iff, hdef, plainCodec]
  simp only [decodeWith_two_ok_iff (index_of_hasArms harms) hfirst hsecond, hf, hg, hone, hone', decodeWith_ref,
    shown_label, shownAt_ok_iff]
  constructor
  · rintro (⟨j, _, htag, ⟨x, hx, rfl, hmade⟩, rfl⟩ | ⟨j, _, htag, ⟨x, hx, rfl, hmade⟩, rfl⟩)
    · exact ⟨_, .inl ⟨j, htag, x, hx, rfl⟩, htranslate_ok x, by rwa [Value.constructible]⟩
    · exact ⟨_, .inr ⟨j, htag, x, hx, rfl⟩, htranslate_err x, by rwa [Value.constructible]⟩
  · rintro ⟨_, ⟨j, htag, x, hx, rfl⟩ | ⟨j, htag, x, hx, rfl⟩, rfl, hmade⟩
    · rw [htranslate_ok, Value.constructible] at hmade
      exact .inl ⟨j, _, htag, ⟨x, hx, rfl, hmade⟩, htranslate_ok x⟩
    · rw [htranslate_err, Value.constructible] at hmade
      exact .inr ⟨j, _, htag, ⟨x, hx, rfl, hmade⟩, htranslate_err x⟩

end ContractClient.Registry
