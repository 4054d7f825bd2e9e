/-
Every datum has a value in a client.

The codec of a type carries each datum that a client can hold: there is a value
that it writes as the bytes of the datum, and reads from these bytes wherever
they stand. The induction is on the datum. One step is one shape of a type: the
codecs of the types that it refers to carry the parts of the datum, by one rule
for each constructor of a codec. Room is needed for one thing, sequences of
items without bytes, and `crowd` is the number of such items.

So the value is encoded to exactly the bytes of the datum, and these bytes are
decoded to it unless there is a crowd. No other datum is decoded to it, since
what is decoded from the bytes of a datum is the value that was written as them,
and no two data of a type have the same bytes: `data_represented`.
-/
import ContractClient.Proofs.Client.Representable
import ContractClient.Proofs.Client.Unfolding
import ContractClient.Proofs.Scale.Carrying
import Mathlib.Data.List.Permutation

set_option autoImplicit false

namespace ContractClient

-- Powers of numbers are those of the core library, where another instance is at hand too.
attribute [local instance (1100)] instPowNat

open Codec Relation

/-! ## Parts -/

/-- Whether the codecs of the types of its parts carry the parts of a datum,
with room for the crowd of the datum. -/
def CarriesParts (r : Registry) (names : ModuleNames) (env : Environment) (named : String → Codec) (id : TypeId)
    (x : Datum) : Prop :=
  ∀ q, r.HasPart (id, x) q → ∀ t, r.Spells names.types q.1 t → ∀ bs, r.scale? q.1 q.2 = some bs →
    ∃ w, Carries env (t.codec named) x.crowd bs w

section

variable {r : Registry} {names : ModuleNames} {env : Environment} {named : String → Codec} {id item : TypeId}
  {x : Datum} {bs : Bytes}

/-- **Parts are carried one behind the other.** -/
theorem CarriesParts.each (hparts : CarriesParts r names env named id x) {ids : List TypeId} {ts : List TypeExpr}
    (hspells : List.Forall₂ (fun i t => r.Spells names.types i t) ids ts) (hids : r.partTypes id x = ids)
    (h : r.scaleEach? ids x.parts = some bs) :
    ∃ ws, CarriesEach env (ts.map (TypeExpr.codec named)) x.crowd bs ws := by
  have hall : ∀ q ∈ ids.zip x.parts, r.HasPart (id, x) q := fun q hq => by rwa [Registry.HasPart, hids]
  clear hids
  generalize x.parts = xs at h hall
  induction hspells generalizing xs bs with
  | nil =>
    obtain ⟨-, rfl⟩ := Registry.scaleEach?_nil_iff.1 h
    exact ⟨[], .nil⟩
  | @cons i t ids ts ht _ ih =>
    obtain ⟨y, ys, head, tail, rfl, hhead, htail, rfl⟩ := Registry.scaleEach?_cons_iff.1 h
    rw [List.zip_cons_cons, List.forall_mem_cons] at hall
    obtain ⟨w, hw⟩ := hparts (i, y) hall.1 t ht head hhead
    obtain ⟨ws, hws⟩ := ih ys htail hall.2
    exact ⟨w :: ws, .cons hw hws⟩

/-- Copies of an item are spelled by copies of its expression. -/
theorem spells_copies {t : TypeExpr} (h : r.Spells names.types item t) (n : Nat) :
    List.Forall₂ (fun i t => r.Spells names.types i t) (List.replicate n item) (List.replicate n t) := by
  induction n with
  | zero => exact .nil
  | succ n ih => exact .cons h ih

/-- A sequence and an array carry their items if each item is carried; the items
have one type and one expression. -/
theorem CarriesParts.copies (hparts : CarriesParts r names env named id x) {n : Nat} {t : TypeExpr}
    (ht : r.Spells names.types item t) (hids : r.partTypes id x = List.replicate n item)
    (h : r.scaleEach? (List.replicate n item) x.parts = some bs) :
    ∃ ws, CarriesEach env (List.replicate n (t.codec named)) x.crowd bs ws := by
  obtain ⟨ws, hws⟩ := hparts.each (spells_copies ht n) hids h
  rw [List.map_replicate] at hws
  exact ⟨ws, hws⟩

/-- The payload of an arm with one field is carried as it is. -/
theorem CarriesParts.payload {arms : List Arm} {arm : Arm} {f : Field} {index : Nat} {xs : List Datum}
    (hparts : CarriesParts r names env named id (.arm index xs)) (hdef : r.definition? id = some (.variant arms))
    (hfind : arms.find? (fun arm => arm.index == index) = some arm) (hf : arm.fields = [f]) {t : TypeExpr}
    (ht : r.Spells names.types f.typeId t) (h : r.scaleEach? (arm.fields.map (·.typeId)) xs = some bs) :
    ∃ y w, xs = [y] ∧ r.scale? f.typeId y = some bs ∧
      Carries env (t.codec named) (Datum.arm index xs).crowd bs w := by
  rw [hf, List.map_singleton] at h
  obtain ⟨y, rfl, hscale⟩ := Registry.scaleEach?_one_iff.1 h
  have hpart : r.HasPart (id, .arm index [y]) (f.typeId, y) := by
    rw [Registry.HasPart, Registry.partTypes_variant hdef hfind, hf]
    exact List.mem_singleton.2 rfl
  obtain ⟨w, hw⟩ := hparts (f.typeId, y) hpart t ht bs hscale
  exact ⟨y, w, rfl, hscale, hw⟩

/-- The fields of a class are carried by their codecs. -/
theorem CarriesParts.fields (hparts : CarriesParts r names env .ref id x) {given : List Field}
    {record : RecordClass} (hfields : FieldsOf r names (given.map Field.request) record.fields)
    (hids : r.partTypes id x = given.map (·.typeId)) (h : r.scaleEach? (given.map (·.typeId)) x.parts = some bs) :
    ∃ ws, CarriesEach env ((record.fields.map ClientField.codec).map (·.2)) x.crowd bs ws := by
  have hspells : List.Forall₂ (fun i t => r.Spells names.types i t) (given.map (·.typeId))
      (record.fields.map (·.type)) := by
    have hspelled := hfields.spelled
    rw [List.map_map] at hspelled
    exact List.forall₂_map_right_iff.2 hspelled
  obtain ⟨ws, hws⟩ := hparts.each hspells hids h
  have hcodecs : (record.fields.map ClientField.codec).map (·.2) =
      (record.fields.map (·.type)).map (TypeExpr.codec .ref) := by
    rw [List.map_map, List.map_map]
    rfl
  rw [hcodecs]
  exact ⟨ws, hws⟩

/-! ## One step -/

/-- **What is declared carries its data** if their parts are carried. A record
needs a class that takes its fields. An arm needs besides that its class is not
spoiled, and that no other arm has its class: an instance is written by the
first arm of which it is an instance. -/
theorem carries_of_describes (hdistinct : names.Distinct) (hparts : CarriesParts r names env .ref id x)
    (hmakes : r.HasInstances names id x) {d : Declaration} (h : Describes r names id d)
    (hx : r.scale? id x = some bs) : ∃ w, Carries env d.codec x.crowd bs w := by
  cases h with
  | @composite entry fields record he hdef hname hfields =>
    have hdefinition := Registry.definition?_of_entry he hdef
    obtain ⟨xs, rfl, hxs⟩ := (Registry.scale?_composite hdefinition).1 hx
    have hfit : FieldsFit record.instances (record.fields.map ClientField.codec) := by
      refine fieldsFit_of_takes hfields (hmakes _ _ _ hdefinition ?_).2
      rw [ModuleNames.classFor?, hname]
      rfl
    obtain ⟨ws, hws⟩ := hparts.fields hfields (Registry.partTypes_composite hdefinition xs) hxs
    exact ⟨_, .struct hfit hws⟩
  | @variant entry arms name docs classes he hdef hname hclasses harms hoffered =>
    have hdefinition := Registry.definition?_of_entry he hdef
    obtain ⟨tag, xs, arm, body, rfl, hfind, hxs, rfl⟩ := (Registry.scale?_variant hdefinition).1 hx
    obtain ⟨cls, hcls, hzip, hcodec, hfields⟩ := find?_armClass harms hfind
    have hclass : names.classFor? id (.variant arms) (.arm tag.toNat xs) =
        some (cls.record.name, fieldNames (arm.fields.map (·.name))) := by
      rw [ModuleNames.classFor?, ← hclasses, hzip]
      rfl
    obtain ⟨hspoiled, htakes⟩ := hmakes _ _ _ hdefinition hclass
    have hfit := fieldsFit_of_takes hfields htakes
    have hdescribes : Describes r names id (.variant name docs classes) :=
      .variant he hdef hname hclasses harms hoffered
    rw [← hdef, ← hdescribes.spoiled_eq he] at hspoiled
    -- Each arm has its own class, so the arm of an instance is the one it was read by.
    have hnodup : ((classes.map ArmClass.codec).map fun arm => arm.2.1.name).Nodup := by
      have hnames := hdistinct.arms_nodup id
      rw [← hclasses] at hnames
      rwa [List.map_map]
    obtain ⟨ws, hws⟩ := hparts.fields hfields (Registry.partTypes_variant hdefinition hfind xs) hxs
    rw [Declaration.codec_of_not_spoiled hspoiled]
    exact ⟨_, .enum hnodup hcodec hfit hws⟩

/-- **A sequence carries its data**, the items of which have bytes all or none.
If they have none, all are alike for the decoder and their number has to be
within its bound, for which `crowd` stands; if they have some, there are no more
items than bytes. -/
theorem carries_sequence {xs : List Datum} {head body : Bytes} {t : TypeExpr}
    (hparts : CarriesParts r names env named id (.sequence xs)) (hdef : r.definition? id = some (.sequence item))
    (ht : r.Spells names.types item t) (hhead : countScale? xs.length = some head)
    (hbody : r.scaleEach? (List.replicate xs.length item) xs = some body) :
    ∃ w, Carries env (.seq (t.codec named)) (Datum.sequence xs).crowd (head ++ body) w := by
  have hids := Registry.partTypes_sequence hdef xs
  obtain ⟨ws, hws⟩ := hparts.copies ht hids hbody
  have hlen : ws.length = xs.length := by rw [hws.length, List.length_replicate]
  rw [← hlen] at hhead hws
  refine ⟨.list ws, .seq (countScale?_iff.1 hhead) hws ?_⟩
  rw [hlen]
  -- Items of one type have all no bytes, or there are as many bytes as items at least.
  rcases Registry.all_nil_or_length_le hbody with hnil | hmany
  · cases xs with
    | nil => exact .inl (Nat.zero_le _)
    | cons y ys =>
      have hempty : body = [] := Option.some.inj (hbody.symm.trans (Registry.scaleEach?_copies_nil hnil))
      have hcrowd := Datum.length_le_crowd fun z hz => Registry.weightless_of_scale (hnil z hz)
      have hpart : r.HasPart (id, .sequence (y :: ys)) (item, y) := by
        rw [Registry.HasPart, hids]
        exact List.mem_cons_self
      exact .inr ⟨hcrowd, hempty, hparts (item, y) hpart t ht [] (hnil y List.mem_cons_self)⟩
  · exact .inl hmany

/-- Absence is carried for an absence alone, so where it is a payload it is
hidden. -/
theorem hidesAbsence_of_carries (hnamed : Denotes r names env named) {e : Entry} {inner : TypeId} {t : TypeExpr}
    {y : Datum} {n : Nat} (he : r.entry? id = some e) (hknown : r.wellKnown? e = some .option)
    (hinner : e.definition.armType? "Some" = some inner) (ht : r.Spells names.types inner t)
    (hy : r.scale? inner y = some bs) (hw : Carries env (t.codec named) n bs .none) :
    r.HidesAbsence id (.arm 1 [y]) := by
  have hread := hw.decodeFrom_append (s := List.replicate n 0)
    (by rw [List.length_replicate]; exact Nat.le_max_right _ _)
  obtain ⟨e', c, he', hknown', hc⟩ := ht.option_known hnamed (optionBehind_of_none hread)
  have hwritten := hw.written
  rw [hc, encodeWith_option_ok_iff] at hwritten
  obtain ⟨-, rfl⟩ | ⟨hsome, -⟩ := hwritten
  · exact ⟨⟨e, inner, e', he, hknown, hinner, he', hknown'⟩, by rw [Registry.absence_of_scale he' hknown' hy]⟩
  · exact absurd rfl hsome

/-- **An option carries its data** if no absence is hidden in it. -/
theorem carries_option {e : Entry} {inner : TypeId} {t : TypeExpr} (hnamed : Denotes r names env named)
    (hparts : CarriesParts r names env named id x) (hshows : ¬ r.HidesAbsence id x) (he : r.entry? id = some e)
    (hknown : r.wellKnown? e = some .option) (hinner : e.definition.armType? "Some" = some inner)
    (ht : r.Spells names.types inner t) (hx : r.scale? id x = some bs) :
    ∃ w, Carries env (.option (t.codec named)) x.crowd bs w := by
  obtain ⟨arms, hdef, harms⟩ := Registry.wellKnown?_option hknown
  have hdefinition := Registry.definition?_of_entry he hdef
  obtain ⟨none, hnone, -, -, hnothing⟩ := Registry.known_arm harms "None" 0 0 (by simp) (by simp) (by simp)
  obtain ⟨some, hsome, hname, -, hcount⟩ := Registry.known_arm harms "Some" 1 1 (by simp) (by simp) (by simp)
  obtain ⟨xs, body, ⟨rfl, hxs, rfl⟩ | ⟨rfl, hxs, rfl⟩⟩ :=
    Registry.scale?_two (Registry.index_of_hasArms harms) hnone hsome hdefinition hx
  · rw [List.eq_nil_of_length_eq_zero hnothing] at hxs
    rw [(Registry.scaleEach?_nil_iff.1 hxs).2]
    exact ⟨_, .absent⟩
  · obtain ⟨f, hf, rfl⟩ := Registry.payload_of_armType (hdef ▸ hinner) hname hcount
    obtain ⟨y, w, hy, hscale, hw⟩ := hparts.payload hdefinition hsome hf ht hxs
    subst hy
    refine ⟨w, .present hw ?_⟩
    rintro rfl
    exact hshows (hidesAbsence_of_carries hnamed he hknown hinner ht hscale hw)

/-- A result is carried by the value for its side, in the wrapper for it. The
two payloads need their expressions both, as the codec has them both. -/
theorem carries_result {e : Entry} {ok err : TypeId} {t t' : TypeExpr} (hparts : CarriesParts r names env named id x)
    (he : r.entry? id = some e) (hknown : r.wellKnown? e = some .result)
    (hok : e.definition.armType? "Ok" = some ok) (herr : e.definition.armType? "Err" = some err)
    (ht : r.Spells names.types ok t) (ht' : r.Spells names.types err t') (hx : r.scale? id x = some bs) :
    ∃ w, Carries env (.result (t.codec named) (t'.codec named)) x.crowd bs w := by
  obtain ⟨arms, hdef, harms⟩ := Registry.wellKnown?_result hknown
  have hdefinition := Registry.definition?_of_entry he hdef
  obtain ⟨first, hfirst, hname, -, hcount⟩ := Registry.known_arm harms "Ok" 0 1 (by simp) (by simp) (by simp)
  obtain ⟨second, hsecond, hname', -, hcount'⟩ := Registry.known_arm harms "Err" 1 1 (by simp) (by simp) (by simp)
  obtain ⟨xs, body, ⟨rfl, hxs, rfl⟩ | ⟨rfl, hxs, rfl⟩⟩ :=
    Registry.scale?_two (Registry.index_of_hasArms harms) hfirst hsecond hdefinition hx
  · obtain ⟨f, hf, rfl⟩ := Registry.payload_of_armType (hdef ▸ hok) hname hcount
    obtain ⟨-, w, -, -, hw⟩ := hparts.payload hdefinition hfirst hf ht hxs
    exact ⟨_, .ok hw⟩
  · obtain ⟨f, hf, rfl⟩ := Registry.payload_of_armType (hdef ▸ herr) hname' hcount'
    obtain ⟨-, w, -, -, hw⟩ := hparts.payload hdefinition hsecond hf ht' hxs
    exact ⟨_, .err hw⟩

/-- A class with a field of thirty-two bytes carries them without a length in
front. -/
theorem carries_newtype {e : Entry} {kind : Newtype} (he : r.entry? id = some e)
    (hknown : r.wellKnown? e = some kind.wellKnown) (hx : r.scale? id x = some bs) :
    ∃ w, Carries env (.fixedBytes 32 (some kind)) x.crowd bs w := by
  obtain ⟨fields, hdef, hbytes⟩ := Registry.wellKnown?_newtype hknown
  obtain ⟨f, item, rfl, harray, hbyte⟩ := Registry.isBytes32_iff.1 hbytes
  obtain ⟨xs, rfl, hxs⟩ := (Registry.scale?_composite (Registry.definition?_of_entry he hdef)).1 hx
  obtain ⟨y, -, hy⟩ := Registry.scaleEach?_one_iff.1 hxs
  obtain ⟨ys, -, hys⟩ := (Registry.scale?_array harray).1 hy
  have hlen := Registry.length_scaleEach_bytes hbyte hys
  refine ⟨canonBytes (some kind) bs, .leaf rfl (fun _ _ heq => by cases heq; rfl) rfl ?_ rfl⟩
  rw [encodeLeaf, encodeWith]
  exact encodeFixedBytes_ok_iff.2 ⟨bytes?_canonBytes _ bs, hlen⟩

/-- **What is spelled out carries its data** if their parts are carried and no
absence is hidden. One case for each form of expression; the lemmas before this
one are the cases with an argument of their own. -/
theorem carries_of_spells (hnamed : Denotes r names env named) (hparts : CarriesParts r names env named id x)
    (hshows : ¬ r.HidesAbsence id x) {t : TypeExpr} (h : r.Spells names.types id t)
    (hspelled : ∀ name, t ≠ .named name) (hx : r.scale? id x = some bs) :
    ∃ w, Carries env (t.codec named) x.crowd bs w := by
  -- By the form of the expression. Leaves are their own case each; what has parts is
  -- carried as they are.
  cases h with
  | named hname => exact absurd rfl (hspelled _)
  | newtype he hknown =>
    rw [TypeExpr.codec]
    exact carries_newtype he hknown hx
  | @primitive _ entry kind he hdef =>
    rw [Registry.scale?_primitive (Registry.definition?_of_entry he hdef)] at hx
    rw [TypeExpr.codec]
    refine ⟨x.scalar, .leaf (Registry.isLeaf_primitive kind) ?_ (isLoneChar_scalar _) (encodeLeaf_of_scale hx) ?_⟩
    · rintro length newtype hkind
      cases kind <;> cases hkind
    · cases kind <;> rfl
  | compact he hdef hinner =>
    rw [Registry.scale?_compact (Registry.definition?_of_entry he hdef) hinner] at hx
    rw [TypeExpr.codec]
    exact ⟨x.scalar, .leaf rfl (fun _ _ heq => Codec.noConfusion heq) (isLoneChar_scalar _)
      (encodeLeaf_of_compactScale hx) rfl⟩
  | bytes he hdef hbyte =>
    obtain ⟨xs, head, body, -, hhead, hbody, rfl⟩ :=
      (Registry.scale?_sequence (Registry.definition?_of_entry he hdef)).1 hx
    have hlen := Registry.length_scaleEach_bytes hbyte hbody
    rw [← hlen] at hhead
    rw [TypeExpr.codec]
    refine ⟨.bytes body, .leaf rfl (fun _ _ heq => Codec.noConfusion heq) rfl ?_ rfl⟩
    rw [encodeLeaf, encodeWith]
    exact bind_ok_iff.2 ⟨body, rfl, bind_ok_iff.2 ⟨head, countScale?_iff.1 hhead, rfl⟩⟩
  | seq he hdef hbyte ht =>
    have hdefinition := Registry.definition?_of_entry he hdef
    obtain ⟨xs, head, body, rfl, hhead, hbody, rfl⟩ := (Registry.scale?_sequence hdefinition).1 hx
    rw [TypeExpr.codec]
    exact carries_sequence hparts hdefinition ht hhead hbody
  | fixedBytes he hdef hbyte =>
    obtain ⟨xs, -, hxs⟩ := (Registry.scale?_array (Registry.definition?_of_entry he hdef)).1 hx
    have hlen := Registry.length_scaleEach_bytes hbyte hxs
    rw [TypeExpr.codec]
    refine ⟨.bytes bs, .leaf rfl (fun _ _ heq => by cases heq) rfl ?_ rfl⟩
    rw [encodeLeaf, encodeWith]
    exact encodeFixedBytes_ok_iff.2 ⟨rfl, hlen⟩
  | array he hdef hbyte ht =>
    have hdefinition := Registry.definition?_of_entry he hdef
    obtain ⟨xs, rfl, hxs⟩ := (Registry.scale?_array hdefinition).1 hx
    obtain ⟨ws, hws⟩ := hparts.copies ht (Registry.partTypes_array hdefinition xs) hxs
    rw [TypeExpr.codec]
    exact ⟨_, .array hws⟩
  | tuple he hdef hlen hts =>
    have hdefinition := Registry.definition?_of_entry he hdef
    obtain ⟨xs, rfl, hxs⟩ := (Registry.scale?_tuple hdefinition).1 hx
    obtain ⟨ws, hws⟩ := hparts.each (List.forall₂_iff_zip.2 ⟨hlen, fun hp => hts _ hp⟩)
      (Registry.partTypes_tuple hdefinition xs) hxs
    rw [TypeExpr.codec, TypeExpr.codecs_eq_map]
    exact ⟨_, .tuple hws⟩
  | option he hknown hinner ht =>
    rw [TypeExpr.codec]
    exact carries_option hnamed hparts hshows he hknown hinner ht hx
  | result he hknown hok herr ht ht' =>
    rw [TypeExpr.codec]
    exact carries_result hparts he hknown hok herr ht ht' hx

/-! ## Whole data -/

/-- **The codec of an expression carries all data of the type** that can be
held. The induction is on the data, for all types and expressions at once: below
a name stands the codec of a declaration, whose fields are looked up late, so
the statement has to be for both ways of looking up. -/
theorem carries_of_scale (hdeclared : DeclaresAll r names env) (hdistinct : names.Distinct)
    (hnamed : Denotes r names env named) {t : TypeExpr} (h : r.Spells names.types id t)
    (hholds : r.Representable names id x) (hx : r.scale? id x = some bs) :
    ∃ w, Carries env (t.codec named) x.crowd bs w := by
  induction x using Datum.parts_induction generalizing id t bs named with
  | h x ih =>
    have hparts : ∀ {named}, Denotes r names env named → CarriesParts r names env named id x := by
      intro named hnamed q hq t ht bs hbs
      obtain ⟨w, hw⟩ := ih q.2 hq.mem_parts hnamed ht (hholds.part hq) hbs
      exact ⟨w, hw.mono (Datum.crowd_part hq.mem_parts)⟩
    obtain ⟨hshows, hmakes⟩ := hholds.self
    by_cases hname : ∃ name, t = .named name
    · obtain ⟨name, rfl⟩ := hname
      cases h with
      | named hfind =>
        -- Whatever the name stands for, the fields behind it are looked up on first use.
        obtain ⟨d, hd, hc⟩ := hnamed id name hfind
        obtain ⟨w, hw⟩ := carries_of_describes hdistinct (hparts (denotes_late hdeclared)) hmakes hd hx
        rw [TypeExpr.codec]
        rcases hc with hc | ⟨hc, htarget⟩
        · rw [hc]
          exact ⟨w, hw⟩
        · rw [hc]
          exact ⟨w, .ref htarget hw⟩
    · exact carries_of_spells hnamed (hparts hnamed) hshows h (fun name heq => hname ⟨name, heq⟩) hx

end

/-! ## A unit's client -/

section

variable {m : Metadata} {u : CompilationUnit} {runtimeModule handle : String} {cm : ClientModule} {b : Bindings}

/-- **The codec of a type carries all data of the type** that the client can
hold. -/
theorem carries_of_hasCodec (hresolve : m.resolve = .ok u.registry)
    (hclient : u.client runtimeModule handle = .ok cm) (hrun : cm.run = .ok b) {id : TypeId} {c : Codec}
    (hc : u.HasCodec handle b id c) {x : Datum} {bs : Bytes} (hx : u.registry.scale? id x = some bs)
    (hholds : u.registry.Representable (u.moduleNames handle) id x) : ∃ w, Carries b.environment c x.crowd bs w := by
  obtain ⟨t, ht, hc⟩ := hc
  have hspells := Registry.spells_of_spell ht
  have hdeclared := declaresAll_of_run hresolve hclient hrun
  rw [eval_early hresolve hclient hrun hspells] at hc
  cases hc
  exact carries_of_scale hdeclared (moduleNames_distinct u handle) (denotes_early hdeclared) hspells hholds hx

/-- **Every datum has a value of its own.** For each datum of a type that the
client can hold there is a value that the codec of the type encodes to exactly
the bytes of the datum. These bytes are decoded to this value, unless there is a
sequence in the datum of more than 2²⁰ items all without bytes; and the bytes of
no other such datum are decoded to it. -/
theorem data_represented (hresolve : m.resolve = .ok u.registry)
    (hclient : u.client runtimeModule handle = .ok cm) (himports : cm.Imports b) {id : TypeId} {c : Codec}
    (hc : u.HasCodec handle b id c) {x : Datum} {bs : Bytes} (hx : u.registry.scale? id x = some bs)
    (hholds : u.registry.Representable (u.moduleNames handle) id x) :
    ∃ w, encode b.environment c w = .ok bs ∧
      (x.crowd ≤ maxZeroSized → ∀ flags, c.decode b.environment flags bs = .ok w) ∧
      ∀ y bs' flags, u.registry.scale? id y = some bs' → u.registry.Representable (u.moduleNames handle) id y →
        c.decode b.environment flags bs' = .ok w → y = x := by
  obtain ⟨w, hw⟩ := carries_of_hasCodec hresolve hclient himports.run hc hx hholds
  refine ⟨w, hw.encode_eq_ok, hw.decode_eq, ?_⟩
  intro y bs' flags hy hholds' hdecode
  obtain ⟨w', hw'⟩ := carries_of_hasCodec hresolve hclient himports.run hc hy hholds'
  -- What is decoded is what was written, so both data have the same bytes.
  obtain rfl := hw'.eq_of_decode hdecode
  have hsame : bs' = bs := Except.ok.inj (hw'.encode_eq_ok.symm.trans hw.encode_eq_ok)
  subst hsame
  exact (Registry.scale?_readOnce id y x bs' bs' [] [] hy hx rfl).1

end

/-! ## A tree -/

/-- All data of the example can be represented: no class of it has a private
field or an offer that spoils it. -/
theorem treeUnit_representable (id : TypeId) (x : Datum) :
    treeUnit.registry.Representable (treeUnit.moduleNames "H") id x := by
  refine Registry.representable_of_types ?_ (by decide +kernel) (by decide +kernel) id x
  rintro id ⟨e, -, -, he, hknown, -⟩
  have hnone : ∀ e ∈ treeUnit.registry.entries, treeUnit.registry.wellKnown? e ≠ some .option := by decide
  exact hnone e (List.mem_of_find?_eq_some he) hknown

/-- A node with a leaf. -/
theorem data_represented_tree : ∃ cm b c w, treeUnit.client "r" "H" = .ok cm ∧ cm.Imports b ∧
    treeUnit.HasCodec "H" b 0 c ∧ encode b.environment c w = .ok [4, 0, 7, 9] ∧
    ∀ flags, c.decode b.environment flags [4, 0, 7, 9] = .ok w := by
  have hresolve : Metadata.treeDocument.resolve = .ok treeUnit.registry := Metadata.treeDocument_resolve
  obtain ⟨cm, b, hclient, himports⟩ := exists_treeImport
  obtain ⟨c, hc⟩ := exists_hasCodec hresolve hclient himports.run treeUnit_spell
  have hx : treeUnit.registry.scale? 0
      (.group [.sequence [.group [.sequence [], .number 7]], .number 9]) = some [4, 0, 7, 9] := by decide +kernel
  obtain ⟨w, hencode, hdecode, -⟩ :=
    data_represented hresolve hclient himports hc hx (treeUnit_representable 0 _)
  exact ⟨cm, b, c, w, hclient, himports, hc, hencode, hdecode (by decide +kernel)⟩

/-! ## Data without a value -/

/-- An option of a type under two numbers. -/
def optionOf (inner : TypeId) : TypeDef :=
  .variant [{ name := "None", index := 0 }, { name := "Some", index := 1, fields := [{ typeId := inner }] }]

/-- A document with a sequence of units, an option of options and a record with
a private field. -/
def awkwardDocument : Metadata where
  contractName := "awkward"
  contractVersion := "1.0"
  types :=
    [⟨0, .sequence 1, [], [], []⟩, ⟨1, .tuple [], [], [], []⟩, ⟨2, optionOf 3, ["Option"], [], []⟩,
      ⟨3, optionOf 4, ["Option"], [], []⟩, ⟨4, .primitive (.unsigned .w8), [], [], []⟩,
      ⟨5, .composite [{ typeId := 4, name := "__x" }], ["P"], [], []⟩]
  messages :=
    [{ label := "gather", returnType := some 0 }, { label := "find", returnType := some 2 },
      { label := "take", returnType := some 5 }]

/-- The unit of the document. -/
def awkwardUnit : CompilationUnit :=
  { contractName := "awkward", contractVersion := "1.0", registry := ⟨awkwardDocument.types, [3, 2, 5]⟩
    constructors := []
    messages :=
      [{ kind := .message, label := "gather", name := .ungrouped "gather", selector := [1, 2, 3, 4], args := []
         returnType := some 0, mutates := false, payable := false, docs := [] },
        { kind := .message, label := "find", name := .ungrouped "find", selector := [5, 6, 7, 8], args := []
          returnType := some 2, mutates := false, payable := false, docs := [] },
        { kind := .message, label := "take", name := .ungrouped "take", selector := [9, 10, 11, 12], args := []
          returnType := some 5, mutates := false, payable := false, docs := [] }]
    events := [], codeHash := none, bytecode := none }

theorem awkwardDocument_resolve : awkwardDocument.resolve = .ok awkwardUnit.registry := by
  cbv

theorem awkwardUnit_spell :
    awkwardUnit.registry.spell (awkwardUnit.moduleNames "H").types 0 = .ok (.seq (.tuple [])) ∧
    awkwardUnit.registry.spell (awkwardUnit.moduleNames "H").types 2 =
      .ok (.option (.option (.primitive (.unsigned .w8)))) ∧
    awkwardUnit.registry.spell (awkwardUnit.moduleNames "H").types 5 = .ok (.named "P") := by
  have hnames : (awkwardUnit.moduleNames "H").types = [(5, "P")] := by decide +kernel
  rw [hnames]
  refine ⟨?_, ?_, ?_⟩
  · cbv
  · cbv
  · cbv

/-- More than 2²⁰ units are not read where nothing stands behind them. -/
theorem units_unread (env : Environment) (flags : List Bool) (v : Value) :
    (Codec.seq (.tuple [])).decode env flags [6, 0, 64, 0] ≠ .ok v := by
  intro h
  obtain ⟨n, i, hcount, hcases⟩ := decodeWith_seq_ok_iff.1 (decode_ok_iff.1 h)
  have hread : decodeCompact none [6, 0, 64, 0] 0 = .ok (2 ^ (20 : Nat) + 1, 4) := by rfl
  cases hread.symm.trans hcount
  obtain ⟨-, hsmall, -⟩ | ⟨hroom, -⟩ := hcases
  · exact absurd hsmall (by decide)
  · exact absurd hroom (by decide)

/-- An absence that is present is not written by an option of options. -/
theorem absence_unwritten (env : Environment) (c : Codec) (v : Value) :
    encode env (.option (.option c)) v ≠ .ok [1, 0] := by
  intro h
  -- The tag of the outer option is left behind by something that is present, and nothing
  -- that is present leaves the tag of absence.
  obtain ⟨-, hnone⟩ | ⟨hsome, body, hbody, heq⟩ := encodeWith_option_ok_iff.1 h
  · cases hnone
  · cases heq
    obtain ⟨habsent, -⟩ | ⟨-, rest, -, heq⟩ := encodeWith_option_ok_iff.1 hbody
    · exact hsome habsent
    · cases heq

/-- An instance of a class that has no attribute of the name of a field is not
made. It is enough to read the bytes on the plain side, where they give a record
with the field `__x`, and to see that the client's class does not take it. -/
theorem private_unread {cm : ClientModule} {b : Bindings} (hclient : awkwardUnit.client "r" "H" = .ok cm)
    (hrun : cm.run = .ok b) {c : Codec} (hc : awkwardUnit.HasCodec "H" b 5 c) (flags : List Bool) (v : Value) :
    c.decode b.environment flags [7] ≠ .ok v := by
  intro h
  obtain ⟨t, ht, hc⟩ := hc
  cases ht.symm.trans awkwardUnit_spell.2.2
  have hspells := Registry.spells_of_spell awkwardUnit_spell.2.2
  rw [eval_early awkwardDocument_resolve hclient hrun hspells] at hc
  cases hc
  have hnamed : ∀ i name, (awkwardUnit.moduleNames "H").types.find? i = some name →
      b.environment.codec? name = some (b.environment.early name) := by
    intro i name hname
    obtain ⟨d, -, hd⟩ := declaresAll_of_run awkwardDocument_resolve hclient hrun i name hname
    rw [Environment.early_eq hd, hd]
  have hread := decode_ok_iff.1 h
  rw [decodeFrom_eq, ← decodeWith_early hnamed hspells, ← decodeFrom_eq] at hread
  have hwired := wired_of_run awkwardDocument_resolve hclient hrun
  have hshown := (decodeFrom_shown_iff hwired hspells (Nat.zero_le _)).1 hread
  obtain ⟨w, hw, rfl, hmade⟩ := Registry.shownAt_ok_iff.1 hshown
  -- On the plain side there is a value, and it is this one.
  have hplain : w = .instance "5" [("__x", .int 7)] := by
    cases hw
    rfl
  rw [hplain] at hmade
  exact absurd hmade (by decide +kernel)

/-- **A crowd is not read, an absence in an option is not written, and a private
field is not read.** Each of the three conditions of `Representable` is left out
here for one type, and each time data with an encoding are lost. -/
theorem awkward_unrepresented : awkwardDocument.resolve = .ok awkwardUnit.registry ∧
    ∃ cm b c d p, awkwardUnit.client "r" "H" = .ok cm ∧ cm.Imports b ∧ awkwardUnit.HasCodec "H" b 0 c ∧
      awkwardUnit.HasCodec "H" b 2 d ∧ awkwardUnit.HasCodec "H" b 5 p ∧
      awkwardUnit.registry.scale? 0 (.sequence (List.replicate (2 ^ (20 : Nat) + 1) (.group []))) = some [6, 0, 64, 0] ∧
      (∀ flags v, c.decode b.environment flags [6, 0, 64, 0] ≠ .ok v) ∧
      awkwardUnit.registry.scale? 2 (.arm 1 [.arm 0 []]) = some [1, 0] ∧
      (∀ v, encode b.environment d v ≠ .ok [1, 0]) ∧
      awkwardUnit.registry.scale? 5 (.group [.number 7]) = some [7] ∧
      ∀ flags v, p.decode b.environment flags [7] ≠ .ok v := by
  have himported : (awkwardUnit.imported "r" "H").toOption.map (fun _ => ()) = some () := by decide +kernel
  obtain ⟨cm, b, hclient, himports, -⟩ := exists_imported himported
  obtain ⟨hunits, hoptions, hrecord⟩ := awkwardUnit_spell
  obtain ⟨p, hp⟩ := exists_hasCodec awkwardDocument_resolve hclient himports.run hrecord
  refine ⟨awkwardDocument_resolve, cm, b, .seq (.tuple []), .option (.option (.int ⟨1, by decide⟩ false)), p, hclient,
    himports, ⟨_, hunits, rfl⟩, ⟨_, hoptions, rfl⟩, hp, ?_, units_unread _, by decide +kernel, absence_unwritten _ _,
    by decide +kernel, private_unread hclient himports.run hp⟩
  -- All items of the crowd are empty groups, without bytes.
  have hunit : ∀ x ∈ List.replicate (2 ^ (20 : Nat) + 1) (Datum.group []),
      awkwardUnit.registry.scale? 1 x = some [] := by
    intro x hx
    rw [List.eq_of_mem_replicate hx]
    rfl
  have hbody := Registry.scaleEach?_copies_nil hunit
  have hhead : countScale? (List.replicate (2 ^ (20 : Nat) + 1) (Datum.group [])).length = some [6, 0, 64, 0] := by
    rw [List.length_replicate]
    decide +kernel
  exact (Registry.scale?_sequence rfl).2 ⟨_, _, [], rfl, hhead, hbody, rfl⟩

end ContractClient
