/-
Decoded values are what the type hints say.

A hint and a codec expression are written for one spelled type, so both follow
its shape; what a codec decodes is compared with the hint shape by shape.
`Inhabits` says which values a hint stands for, all the way down: the values of
a record have the hints of its fields, and what is hinted at by the name of
a class is an instance of this class or of one that the module declares below
it.

Only names lead out of an expression. A name is followed to the codec that is
wired for it, which costs fuel, and so the induction is on the fuel: below the
codec of a declaration all values are what the hints of its fields say,
`yields_of_describes`, and above it this is known of the name.
-/
import ContractClient.Client.TypeHint
import ContractClient.Proofs.Client.Namespaces
import ContractClient.Proofs.Client.Unfolding

set_option autoImplicit false

namespace ContractClient

open Codec

/-! ## The values of hints -/

/-- The class that a statement declares, and the class that it puts it below. -/
def Statement.derives : Statement → Option (String × String)
  | .baseClass name parent _ => some (name, parent)
  | .recordClass record parent _ _ => some (record.name, parent)
  | _ => none

/-- Whether statements make a class the same as another one or put it below, at
any distance. -/
def IsSubclass (ss : List Statement) : String → String → Prop :=
  Relation.ReflTransGen fun cls base => ∃ s ∈ ss, s.derives = some (cls, base)

/-- Whether a value is one of those that a hint stands for, with the classes
that statements declare. -/
inductive Inhabits (ss : List Statement) : TypeHint → Value → Prop
  | int (n : Int) : Inhabits ss .int (.int n)
  | bool (x : Bool) : Inhabits ss .bool (.bool x)
  | str (s : String) : Inhabits ss .str (.str s)
  | bytes (b : Bytes) : Inhabits ss .bytes (.bytes b)
  | newtype (kind : Newtype) {b : Bytes} (hlen : b.length = 32) : Inhabits ss (.newtype kind) (.newtype kind b)
  | list {item : TypeHint} {vs : List Value} (h : ∀ v ∈ vs, Inhabits ss item v) :
      Inhabits ss (.list item) (.list vs)
  | tupleOf {item : TypeHint} {vs : List Value} (h : ∀ v ∈ vs, Inhabits ss item v) :
      Inhabits ss (.tupleOf item) (.tuple vs)
  | tuple {items : List TypeHint} {vs : List Value} (hlen : items.length = vs.length)
      (h : ∀ p ∈ items.zip vs, Inhabits ss p.1 p.2) : Inhabits ss (.tuple items) (.tuple vs)
  | absent (inner : TypeHint) : Inhabits ss (.optional inner) .none
  | present {inner : TypeHint} {v : Value} (h : Inhabits ss inner v) : Inhabits ss (.optional inner) v
  | ok {good : TypeHint} (bad : TypeHint) {v : Value} (h : Inhabits ss good v) :
      Inhabits ss (.outcome good bad) (.ok v)
  | err (good : TypeHint) {bad : TypeHint} {v : Value} (h : Inhabits ss bad v) :
      Inhabits ss (.outcome good bad) (.err v)
  | record {record : RecordClass} {parent name : String} {index : Option Nat} {indexed : List String}
      {vs : List Value} (hdeclared : Statement.recordClass record parent index indexed ∈ ss)
      (hbelow : IsSubclass ss record.name name) (hlen : record.fields.length = vs.length)
      (h : ∀ p ∈ record.fields.zip vs, Inhabits ss p.1.type.hint p.2) :
      Inhabits ss (.named name) (.instance record.name ((record.fields.map (·.name)).zip vs))

/-! ## What decoding yields -/

/-- Whether a codec decodes nothing but values with a property. -/
def Yields (deref : Deref) (c : Codec) (P : Value → Prop) : Prop :=
  ∀ buf o v e, decodeWith deref c buf o = .ok (v, e) → P v

section

variable {deref : Deref} {ss : List Statement}

/-- What codecs decode one after the other are values of their hints. -/
theorem inhabits_of_decodeTuple {cs : List Codec} {hints : List TypeHint}
    (h : List.Forall₂ (fun c hint => Yields deref c (Inhabits ss hint)) cs hints) {buf : Bytes} {o e : Nat}
    {vs : List Value} (hdecode : decodeTuple deref cs buf o = .ok (vs, e)) :
    List.Forall₂ (Inhabits ss) hints vs := by
  induction h generalizing o vs with
  | nil =>
    rw [decodeTuple_nil] at hdecode
    cases hdecode
    exact .nil
  | cons hhead _ ih =>
    obtain ⟨v, i, ws, hv, hws, rfl⟩ := decodeTuple_cons_ok_iff.1 hdecode
    exact .cons (hhead buf o v i hv) (ih hws)

/-- Copies of a codec decode values of its hint. -/
theorem Yields.copies {c : Codec} {hint : TypeHint} (h : Yields deref c (Inhabits ss hint)) {n : Nat} {buf : Bytes}
    {o e : Nat} {vs : List Value} (hdecode : decodeTuple deref (List.replicate n c) buf o = .ok (vs, e)) :
    ∀ v ∈ vs, Inhabits ss hint v := by
  have hcopies : List.Forall₂ (fun c hint => Yields deref c (Inhabits ss hint)) (List.replicate n c)
      (List.replicate n hint) := by
    clear hdecode
    induction n with
    | zero => exact .nil
    | succ n ih => exact .cons h ih
  intro v hv
  obtain ⟨hint', hhint, hinhabits⟩ := exists_of_forall₂ (inhabits_of_decodeTuple hcopies hdecode) hv
  rwa [List.eq_of_mem_replicate hhint] at hinhabits

/-- A decoded primitive has the primitive's hint: an integer, a boolean, a
character or a text. Bounds on the integer are not in the hint. -/
theorem yields_primitive (kind : Primitive) : Yields deref kind.codec (Inhabits ss kind.hint) := by
  intro buf o v e h
  cases kind <;> simp only [Primitive.codec, decodeWith, decodeStr, decodeChar] at h
  case bool =>
    obtain ⟨⟨x, i⟩, -, h⟩ := bind_ok_iff.1 h
    dsimp only at h
    split at h
    · cases h
      exact .bool _
    · cases h
  case char =>
    obtain ⟨⟨raw, i⟩, -, h⟩ := bind_ok_iff.1 h
    dsimp only at h
    split at h
    · cases h
      exact .str _
    · cases h
  case str =>
    obtain ⟨⟨n, i⟩, -, h⟩ := bind_ok_iff.1 h
    obtain ⟨⟨raw, j⟩, -, h⟩ := bind_ok_iff.1 h
    dsimp only at h
    split at h
    · cases h
      exact .str _
    · cases h
  case unsigned | signed =>
    obtain ⟨⟨raw, i⟩, -, h⟩ := bind_ok_iff.1 h
    cases h
    exact .int _

/-- A compact integer is an integer, whatever its bound. -/
theorem yields_compact (bound : Option Nat) : Yields deref (.compact bound) (Inhabits ss .int) := by
  intro buf o v e h
  rw [decodeWith] at h
  obtain ⟨⟨n, i⟩, -, h⟩ := bind_ok_iff.1 h
  cases h
  exact .int n

/-- A decoded byte string is a byte string. -/
theorem yields_bytes : Yields deref .bytes (Inhabits ss .bytes) := by
  intro buf o v e h
  rw [decodeWith] at h
  obtain ⟨⟨n, i⟩, -, h⟩ := bind_ok_iff.1 h
  obtain ⟨⟨raw, j⟩, -, h⟩ := bind_ok_iff.1 h
  cases h
  exact .bytes raw

/-- A decoded byte string of a fixed length is a byte string. -/
theorem yields_fixedBytes (length : Nat) : Yields deref (.fixedBytes length none) (Inhabits ss .bytes) := by
  intro buf o v e h
  rw [decodeWith] at h
  obtain ⟨raw, -, -, -, rfl⟩ := decodeFixedBytes_ok_iff.1 h
  exact .bytes raw

/-- Thirty-two decoded bytes of a known newtype are an instance of that
newtype. -/
theorem yields_newtype (kind : Newtype) :
    Yields deref (.fixedBytes 32 (some kind)) (Inhabits ss (.newtype kind)) := by
  intro buf o v e h
  rw [decodeWith] at h
  obtain ⟨raw, -, hlen, -, rfl⟩ := decodeFixedBytes_ok_iff.1 h
  exact .newtype kind hlen

/-- A sequence yields a list of what its items yield. The items are read by the
same decoder, so one hypothesis covers all of them. -/
theorem yields_seq {item : Codec} {hint : TypeHint} (h : Yields deref item (Inhabits ss hint)) :
    Yields deref (.seq item) (Inhabits ss (.list hint)) := by
  intro buf o v e hdecode
  obtain ⟨n, i, -, ⟨-, -, -, w, hw, rfl⟩ | ⟨-, vs, hvs, rfl⟩⟩ := decodeWith_seq_ok_iff.1 hdecode
  · -- All items are the one that was probed.
    refine .list fun v hv => ?_
    rw [List.eq_of_mem_replicate hv]
    exact h buf i w i hw
  · exact .list (h.copies hvs)

/-- An array yields a tuple of any length: its hint does not say how many items
there are. -/
theorem yields_array {item : Codec} {hint : TypeHint} (h : Yields deref item (Inhabits ss hint)) (length : Nat) :
    Yields deref (.array item length) (Inhabits ss (.tupleOf hint)) := by
  intro buf o v e hdecode
  obtain ⟨vs, hvs, rfl⟩ := decodeWith_array_ok_iff.1 hdecode
  exact .tupleOf (h.copies hvs)

/-- A tuple yields a value for each of its parts, each with the hint of that
part. -/
theorem yields_tuple {cs : List Codec} {hints : List TypeHint}
    (h : List.Forall₂ (fun c hint => Yields deref c (Inhabits ss hint)) cs hints) :
    Yields deref (.tuple cs) (Inhabits ss (.tuple hints)) := by
  intro buf o v e hdecode
  obtain ⟨vs, hvs, rfl⟩ := decodeWith_tuple_ok_iff.1 hdecode
  obtain ⟨hlen, hzip⟩ := List.forall₂_iff_zip.1 (inhabits_of_decodeTuple h hvs)
  exact .tuple hlen fun p hp => hzip hp

/-- An option yields nothing or what its payload yields. -/
theorem yields_option {inner : Codec} {hint : TypeHint} (h : Yields deref inner (Inhabits ss hint)) :
    Yields deref (.option inner) (Inhabits ss (.optional hint)) := by
  intro buf o v e hdecode
  obtain ⟨-, rfl⟩ | ⟨i, -, hinner⟩ := decodeWith_option_ok_iff.1 hdecode
  · exact .absent hint
  · exact .present (h buf i v e hinner)

/-- A result yields what one of its two payloads yields, in the wrapper for that
side. -/
theorem yields_result {ok err : Codec} {good bad : TypeHint} (hok : Yields deref ok (Inhabits ss good))
    (herr : Yields deref err (Inhabits ss bad)) :
    Yields deref (.result ok err) (Inhabits ss (.outcome good bad)) := by
  intro buf o v e hdecode
  obtain ⟨i, w, -, hw, rfl⟩ | ⟨i, w, -, hw, rfl⟩ := decodeWith_result_ok_iff.1 hdecode
  · exact .ok bad (hok buf i w e hw)
  · exact .err good (herr buf i w e hw)

end

/-! ## Spelled types and declared types -/

section

variable {r : Registry} {names : ModuleNames} {deref : Deref} {ss : List Statement} {ε : Type}
  {ofClass : String → Except ε Codec} {lazy : Bool}

/-- Expressions evaluate together if each does. The hints of the parts are
zipped with their codecs by this. -/
theorem evalAll_ok_iff {ts : List TypeExpr} {cs : List Codec} :
    CodecExpr.evalAll ofClass (TypeExpr.codecExprs lazy ts) = .ok cs ↔
      List.Forall₂ (fun t c => (TypeExpr.codecExpr lazy t).eval ofClass = .ok c) ts cs := by
  induction ts generalizing cs with
  | nil =>
    rw [TypeExpr.codecExprs, CodecExpr.evalAll, List.forall₂_nil_left_iff]
    constructor
    · rintro ⟨⟩
      rfl
    · rintro rfl
      rfl
  | cons t rest ih =>
    rw [TypeExpr.codecExprs, CodecExpr.evalAll, bind_ok_iff, List.forall₂_cons_left_iff]
    constructor
    · rintro ⟨c, hc, h⟩
      obtain ⟨cs', hcs', heq⟩ := bind_ok_iff.1 h
      cases heq
      exact ⟨c, cs', hc, ih.1 hcs', rfl⟩
    · rintro ⟨c, cs', hc, hcs', rfl⟩
      exact ⟨c, hc, bind_ok_iff.2 ⟨cs', ih.2 hcs', rfl⟩⟩

/-- **The codec of a spelled type yields what its hint says**, if those of the
names do. One lemma above for each form, put together by induction on how the
type was spelled. The environment in which classes are looked up is left open,
as fields look them up late and annotations early. -/
theorem yields_of_spells
    (hnamed : ∀ id name c, names.types.find? id = some name →
      ((TypeExpr.named name).codecExpr lazy).eval ofClass = .ok c → Yields deref c (Inhabits ss (.named name)))
    {id : TypeId} {t : TypeExpr} (h : r.Spells names.types id t) {c : Codec}
    (hc : (t.codecExpr lazy).eval ofClass = .ok c) : Yields deref c (Inhabits ss t.hint) := by
  induction h generalizing c with
  | named hname => exact hnamed _ _ _ hname hc
  | newtype =>
    cases hc
    exact yields_newtype _
  | primitive =>
    cases hc
    exact yields_primitive _
  | compact =>
    cases hc
    exact yields_compact _
  | bytes =>
    cases hc
    exact yields_bytes
  | fixedBytes =>
    cases hc
    exact yields_fixedBytes _
  | option _ _ _ _ ih =>
    obtain ⟨inner, hinner, rfl⟩ := map_ok_iff.1 hc
    exact yields_option (ih hinner)
  | result _ _ _ _ _ _ ihx ihy =>
    obtain ⟨ok, hok, hc⟩ := bind_ok_iff.1 hc
    obtain ⟨err, herr, heq⟩ := bind_ok_iff.1 hc
    cases heq
    exact yields_result (ihx hok) (ihy herr)
  | seq _ _ _ _ ih =>
    obtain ⟨item, hitem, rfl⟩ := map_ok_iff.1 hc
    exact yields_seq (ih hitem)
  | array _ _ _ _ ih =>
    obtain ⟨item, hitem, rfl⟩ := map_ok_iff.1 hc
    exact yields_array (ih hitem) _
  | @tuple _ items _ xs _ _ hlen _ ih =>
    obtain ⟨cs, hcs, rfl⟩ := map_ok_iff.1 hc
    rw [TypeExpr.hint, TypeExpr.hints_eq_map]
    refine yields_tuple (List.forall₂_map_right_iff.2 ?_)
    refine (forall₂_imp_of_mem (evalAll_ok_iff.1 hcs) fun x hx c hxc => ?_).flip
    -- An expression of the tuple spells one of its types.
    rw [← List.map_snd_zip (Nat.le_of_eq hlen.symm)] at hx
    obtain ⟨p, hp, rfl⟩ := List.mem_map.1 hx
    exact ih p hp hxc

/-- A record that is decoded is an instance of its class, and so one of what
the class stands below. The values of its attributes were decoded one after the
other, each by the codec of its field, and inhabit the hints that are written
there. -/
theorem inhabits_of_decodeRecord {record : RecordClass} {parent name : String} {index : Option Nat}
    {indexed : List String} (hdeclared : Statement.recordClass record parent index indexed ∈ ss)
    (hbelow : IsSubclass ss record.name name) (hnodup : (record.fields.map (·.name)).Nodup)
    (hfields : ∀ f ∈ record.fields, Yields deref (f.type.codec .ref) (Inhabits ss f.type.hint)) {buf : Bytes}
    {o e : Nat} {v : Value}
    (h : decodeRecord deref buf record.instances (record.fields.map ClientField.codec) o = .ok (v, e)) :
    Inhabits ss (.named name) v := by
  obtain ⟨vs, htuple, hmade⟩ := decodeRecord_ok_iff.1 h
  have hcodecs : List.Forall₂ (fun c hint => Yields deref c (Inhabits ss hint))
      ((record.fields.map ClientField.codec).map (·.2)) (record.fields.map (·.type.hint)) := by
    rw [List.map_map, List.forall₂_map_left_iff, List.forall₂_map_right_iff, List.forall₂_same]
    exact hfields
  have hvalues := inhabits_of_decodeTuple hcodecs htuple
  rw [List.forall₂_map_left_iff] at hvalues
  obtain ⟨hlen, hzip⟩ := List.forall₂_iff_zip.1 hvalues
  -- The class makes its instances under the names that its codec reads.
  have hshape : record.instances = instancesOf record.name (record.fields.map (·.name)) := by
    rw [instancesOf, List.map_map]
    rfl
  have hnames : (record.fields.map ClientField.codec).map (·.1) = record.fields.map (·.name) := by
    rw [List.map_map]
    rfl
  rw [hshape, hnames] at hmade
  obtain ⟨-, rfl⟩ := (instanceOf_instances_ok_iff hnodup (by rw [List.length_map, hlen])).1 hmade
  exact .record hdeclared hbelow hlen fun p hp => hzip hp

/-- **The codec of a declared type yields instances of its class**, if those of
the fields yield what their hints say. -/
theorem yields_of_describes {id : TypeId} {d : Declaration} (h : Describes r names id d)
    (hdeclared : ∀ s ∈ d.classes.flatten, s ∈ ss)
    (hfields : ∀ child x, r.Spells names.types child x → Yields deref (x.codec .ref) (Inhabits ss x.hint)) :
    Yields deref d.codec (Inhabits ss (.named d.name)) := by
  have hnodup := fun record hrecord => (h.fields_apart record hrecord).nodup
  have hspelled : ∀ record ∈ d.records, ∀ f ∈ record.fields,
      Yields deref (f.type.codec .ref) (Inhabits ss f.type.hint) := by
    intro record hrecord f hf
    obtain ⟨child, hx⟩ := h.spelled record hrecord f hf
    exact hfields child f.type hx
  intro buf o v e hdecode
  cases d with
  | composite record =>
    have hrecord : record ∈ (Declaration.composite record).records := List.mem_singleton.2 rfl
    rw [Declaration.codec, decodeWith_struct] at hdecode
    exact inhabits_of_decodeRecord (hdeclared _ List.mem_cons_self) .refl (hnodup record hrecord)
      (hspelled record hrecord) hdecode
  | variant name docs classes =>
    rw [Declaration.codec] at hdecode
    obtain ⟨tag, i, arm, -, hfind, hdecode⟩ := decodeWith_enum_ok_iff.1 hdecode
    obtain ⟨cls, hcls, rfl⟩ := List.mem_map.1 (List.mem_of_find?_eq_some hfind)
    have hrecord : cls.record ∈ (Declaration.variant name docs classes).records := List.mem_map.2 ⟨cls, hcls, rfl⟩
    -- The class of an arm is declared below the class of the type.
    have hclass : cls.declare name ∈ ss := by
      refine hdeclared _ (List.mem_flatten.2 ⟨[cls.declare name], ?_, List.mem_singleton.2 rfl⟩)
      exact List.mem_append_left _ (List.mem_cons_of_mem _ (List.mem_map.2 ⟨cls, hcls, rfl⟩))
    -- No instance is made below a spoiled class, so what was decoded is an instance of the arm.
    obtain ⟨vs, htuple, hmade⟩ := decodeRecord_ok_iff.1 hdecode
    have hmade := ((ArmClass.instanceOf_codecBelow (cls.record.fields_free (h.fields_apart _ hrecord) vs)).1 hmade).2
    have hdecode := decodeRecord_ok_iff.2 ⟨vs, htuple, hmade⟩
    exact inhabits_of_decodeRecord hclass (.single ⟨_, hclass, rfl⟩) (hnodup _ hrecord) (hspelled _ hrecord) hdecode

end

/-! ## Modules -/

/-- Whether what is wired for the names of types are the codecs of their
declarations, the classes of which are declared by statements. -/
def WiredBy (r : Registry) (names : ModuleNames) (ss : List Statement) (env : Environment) : Prop :=
  ∀ id name c, names.types.find? id = some name → env.codec? name = some c →
    ∃ d, Describes r names id d ∧ c = d.codec ∧ ∀ s ∈ d.classes.flatten, s ∈ ss

section

variable {r : Registry} {names : ModuleNames} {ss : List Statement} {env : Environment}

/-- **Names yield instances of their classes**, with whatever fuel they are
followed. The induction is on the fuel: the fields of a class may refer to
the class itself, so there is no induction on the types. -/
theorem WiredBy.yields_named (hwired : WiredBy r names ss env) (n : Nat) {id : TypeId} {name : String}
    (hname : names.types.find? id = some name) :
    Yields (derefFuel env n) (.ref name) (Inhabits ss (.named name)) := by
  induction n generalizing id name with
  | zero =>
    intro buf o v e h
    rw [decodeWith_ref] at h
    cases h
  | succ n ih =>
    intro buf o v e h
    rw [decodeWith_ref, derefFuel] at h
    cases hc : env.codec? name with
    | none =>
      rw [hc] at h
      cases h
    | some c =>
      rw [hc] at h
      -- What is wired under the name is the codec of a declaration of this type.
      obtain ⟨d, hd, rfl, hdeclared⟩ := hwired id name c hname hc
      cases hd.name.symm.trans hname
      refine yields_of_describes hd hdeclared (fun child x hx => ?_) buf o v e h
      -- Fields look up classes on first use, and following a name there has one less fuel.
      have hlate : (x.codecExpr true).eval (fun name => (.error name : Except String Codec)) = .ok (x.codec .ref) :=
        eval_of_spells .ref (fun _ _ _ => by simp only [TypeExpr.codecExpr, if_true, CodecExpr.eval]) hx
      refine yields_of_spells (fun i name c hname hc => ?_) hx hlate
      cases hc
      exact ih hname

/-- What a codec with the classes looked up at once or late yields. -/
theorem WiredBy.yields (hwired : WiredBy r names ss env) {ε : Type} {ofClass : String → Except ε Codec}
    (hfound : ∀ name c, ofClass name = .ok c → env.codec? name = some c) {id : TypeId} {t : TypeExpr}
    (hspells : r.Spells names.types id t) {lazy : Bool} {c : Codec}
    (hc : (t.codecExpr lazy).eval ofClass = .ok c) (n : Nat) :
    Yields (derefFuel env n) c (Inhabits ss t.hint) := by
  refine yields_of_spells (fun i name c hname hc => ?_) hspells hc
  cases lazy with
  | true =>
    cases hc
    exact hwired.yields_named n hname
  | false =>
    -- The codec that is looked up is the one that a reference leads to, with one more fuel.
    have hcodec := hfound name c hc
    intro buf o v e h
    refine hwired.yields_named (n + 1) hname buf o v e ?_
    rw [decodeWith_ref, derefFuel, hcodec]
    exact h

end

/-- A codec that is found under a name was wired for that name. -/
theorem Bindings.codec?_of_codecOf {b : Bindings} {name : String} {c : Codec} (h : b.codecOf name = .ok c) :
    b.environment.codec? name = some c := by
  obtain ⟨-, -, h⟩ := bind_ok_iff.1 h
  cases hc : b.environment.codec? name with
  | none => simp [hc] at h
  | some c' =>
    rw [hc] at h
    cases h
    rfl

section

variable {m : Metadata} {u : CompilationUnit} {handle : String}

/-- The names of types are wired as declared when a client has been imported. -/
theorem wiredBy_of_run {runtimeModule : String} {cm : ClientModule} {b : Bindings}
    (hresolve : m.resolve = .ok u.registry) (hclient : u.client runtimeModule handle = .ok cm)
    (hrun : cm.run = .ok b) : WiredBy u.registry (u.moduleNames handle) cm.statements b.environment := by
  intro id name c hname hc
  obtain ⟨d, hd, rfl⟩ := exists_declares hresolve hclient hname
  have hdeclares := (codec?_of_declares hclient hrun hd).1
  refine ⟨d, describes_of_declares hd, Option.some.inj (hc.symm.trans hdeclares), fun s hs => ?_⟩
  obtain ⟨rest, hstatements⟩ := statements_eq cm
  rw [hstatements]
  refine List.mem_append_left _ (List.mem_flatten.2 ⟨_, List.mem_map.2 ⟨d, ?_, rfl⟩, hs⟩)
  exact (mem_declarations (client_assembled hclient).declarations).2 ⟨id, hd⟩

/-- **Decoded values are what the type hints say.** What the codec of a spelled
type decodes from any bytes, with the classes looked up early or late, is one of
the values that the hint of the type stands for, wherever the names of types are
wired as they are declared. In an imported client they are, and there the codec
of every spelled type can be looked up. -/
theorem decoded_inhabit_hints (hresolve : m.resolve = .ok u.registry) {id : TypeId} {t : TypeExpr}
    (hspell : u.registry.spell (u.moduleNames handle).types id = .ok t) :
    (∀ (ss : List Statement) (b : Bindings), WiredBy u.registry (u.moduleNames handle) ss b.environment → ∀ lazy c,
        (t.codecExpr lazy).eval b.codecOf = .ok c → ∀ buf o v e, decodeFrom b.environment c buf o = .ok (v, e) →
          Inhabits ss t.hint v) ∧
      ∀ (runtimeModule : String) (cm : ClientModule) (b : Bindings), u.client runtimeModule handle = .ok cm →
        cm.run = .ok b →
        WiredBy u.registry (u.moduleNames handle) cm.statements b.environment ∧
          ∀ lazy, ∃ c, (t.codecExpr lazy).eval b.codecOf = .ok c := by
  have hspells := Registry.spells_of_spell hspell
  constructor
  · intro ss b hwired lazy c hc buf o v e hdecode
    have hyields := hwired.yields (fun _ _ => Bindings.codec?_of_codecOf) hspells hc (fuelFor b.environment buf o)
    exact hyields buf o v e hdecode
  · intro runtimeModule cm b hclient hrun
    refine ⟨wiredBy_of_run hresolve hclient hrun, fun lazy => ?_⟩
    cases lazy with
    | false => exact ⟨_, eval_early hresolve hclient hrun hspells⟩
    | true =>
      refine ⟨_, eval_of_spells .ref (fun _ _ _ => ?_) hspells⟩
      simp only [TypeExpr.codecExpr, if_true, CodecExpr.eval]

end

/-- Where reading a list of trees ends, with the client that is generated for
trees. -/
def treesRead (buf : Bytes) : Except String Nat := do
  let cm ← (treeUnit.client "r" "H").mapError SpellError.message
  let b ← cm.run.mapError ImportError.kind
  let c ← (((TypeExpr.seq (.named "Node")).codecExpr false).eval b.codecOf).mapError ImportError.kind
  let (_, e) ← (decodeFrom b.environment c buf 0).mapError DecodeError.kind
  return e

theorem treeUnit_spell_children :
    treeUnit.registry.spell (treeUnit.moduleNames "H").types 1 = .ok (.seq (.named "Node")) := by
  have hnames : (treeUnit.moduleNames "H").types = [(0, "Node")] := by decide +kernel
  rw [hnames]
  cbv

/-- A list of one leaf is a list of instances of the class of trees. -/
theorem decoded_inhabit_hints_tree : Metadata.treeDocument.resolve = .ok treeUnit.registry ∧
    ∃ cm b c v, treeUnit.client "r" "H" = .ok cm ∧ cm.run = .ok b ∧
      ((TypeExpr.seq (.named "Node")).codecExpr false).eval b.codecOf = .ok c ∧
      decodeFrom b.environment c [4, 0, 7] 0 = .ok (v, 3) ∧ Inhabits cm.statements (.list (.named "Node")) v := by
  have hresolve : Metadata.treeDocument.resolve = .ok treeUnit.registry := Metadata.treeDocument_resolve
  have hread : treesRead [4, 0, 7] = .ok 3 := by decide +kernel
  obtain ⟨cm, hclient, h⟩ := bind_ok_iff.1 hread
  obtain ⟨b, hrun, h⟩ := bind_ok_iff.1 h
  obtain ⟨c, hc, h⟩ := bind_ok_iff.1 h
  obtain ⟨⟨v, e⟩, hdecode, heq⟩ := bind_ok_iff.1 h
  cases heq
  rw [mapError_ok_iff] at hclient hrun hc hdecode
  obtain ⟨hall, himported⟩ := decoded_inhabit_hints hresolve treeUnit_spell_children
  have hwired := (himported "r" cm b hclient hrun).1
  exact ⟨hresolve, cm, b, c, v, hclient, hrun, hc, hdecode, hall _ b hwired false c hc _ 0 v 3 hdecode⟩

end ContractClient
