/-
What a client makes of events.

The codec of events is the one of a declaration like those of types, with an arm
for each event. What it is built from are the codecs of expressions that look up
classes on first use, and those of declared types; `Occurs` lists them, and
whatever holds of them holds everywhere in the codec of events.

So it is known what can be blamed when an event is neither decoded nor refused:
only a class of which no instance can be made, `misfit_of_blames`. No other
codec of a client contradicts itself. Where instances of all classes can be made
every event gets an answer, and the payloads that are decoded are those that
encoding gives.
-/
import ContractClient.Client.Session
import ContractClient.Proofs.Client.Declaring
import ContractClient.Proofs.Client.Representable
import ContractClient.Proofs.Client.Unfolding
import ContractClient.Proofs.Scale.Canonical
import ContractClient.Proofs.Scale.Events

set_option autoImplicit false

namespace ContractClient

open Codec

/-! ## What the codec of events is built from -/

/-- Whether a codec occurs in a module: that of an expression, with classes
looked up on first use, or that of a declared type or of the events. -/
inductive Occurs (r : Registry) (names : ModuleNames) (m : ClientModule) : Codec → Prop
  | spelled {id : TypeId} {t : TypeExpr} (h : r.Spells names.types id t) : Occurs r names m (t.codec .ref)
  | declared {d : Declaration} (h : d ∈ m.declarations ++ [m.eventDeclaration]) : Occurs r names m d.codec

/-- The parts of the codec of a declaration are the codecs of fields. Whether
the class is spoiled changes the shape of an arm, and none of its parts. -/
theorem Declaration.exists_field_of_part {env : Environment} {d : Declaration} {c : Codec}
    (h : c ∈ parts env d.codec) : ∃ record ∈ d.records, ∃ f ∈ record.fields, c = f.type.codec .ref := by
  cases d with
  | composite record =>
    obtain ⟨p, hp, rfl⟩ := List.mem_map.1 h
    obtain ⟨f, hf, rfl⟩ := List.mem_map.1 hp
    exact ⟨record, List.mem_singleton.2 rfl, f, hf, rfl⟩
  | variant name docs classes =>
    obtain ⟨arm, harm, h⟩ := List.mem_flatMap.1 h
    obtain ⟨cls, hcls, rfl⟩ := List.mem_map.1 harm
    obtain ⟨p, hp, rfl⟩ := List.mem_map.1 h
    obtain ⟨f, hf, rfl⟩ := List.mem_map.1 hp
    exact ⟨cls.record, List.mem_map.2 ⟨cls, hcls, rfl⟩, f, hf, rfl⟩

section

variable {r : Registry} {names : ModuleNames} {m : ClientModule} {env : Environment}

/-- Whether every name of a type finds the codec of one of a module's
declarations. -/
def ClientModule.Wires (m : ClientModule) (r : Registry) (names : ModuleNames) (env : Environment) : Prop :=
  ∀ id name, names.types.find? id = some name →
    ∃ d ∈ m.declarations, Describes r names id d ∧ env.codec? name = some d.codec

/-- Where all types are wired, each is declared: this is the form in which the
later lemmas about decoding ask for it. -/
theorem ClientModule.Wires.declaresAll (h : m.Wires r names env) : DeclaresAll r names env := by
  intro id name hname
  obtain ⟨d, -, hdescribes, hc⟩ := h id name hname
  exact ⟨d, hdescribes, hc⟩

/-- **What occurs has parts that occur.** The parts of an expression are
expressions, those of a declaration are codecs of its fields, and a name leads
to a declaration. -/
theorem Occurs.part (hwell : m.WellDeclared r names) (hwires : m.Wires r names env) {c d : Codec}
    (h : Occurs r names m c) (hd : d ∈ parts env c) : Occurs r names m d := by
  cases h with
  | spelled h =>
    obtain ⟨name, rfl, hname⟩ | ⟨child, x, hx, rfl, -⟩ := h.part hd
    · obtain ⟨decl, hdecl, -, hc⟩ := hwires _ name hname
      simp only [TypeExpr.codec, parts, hc, Option.toList_some, List.mem_singleton] at hd
      exact hd ▸ .declared (List.mem_append_left _ hdecl)
    · exact .spelled hx
  | declared h =>
    obtain ⟨record, hrecord, f, hf, rfl⟩ := Declaration.exists_field_of_part hd
    obtain ⟨id, hspells⟩ := hwell.spelled_all _ h record hrecord f hf
    exact .spelled hspells

/-- What holds of all that occurs holds everywhere. -/
theorem Occurs.everywhere (hwell : m.WellDeclared r names) (hwires : m.Wires r names env) {P : Codec → Prop}
    (hP : ∀ c, Occurs r names m c → P c) {c : Codec} (h : Occurs r names m c) : Everywhere env P c :=
  .of_closed h (fun _ ha _ hb => ha.part hwell hwires hb) hP

/-! ## Classes that take their fields -/

/-- Whether the class of a record takes all of its fields. -/
def RecordClass.TakesFields (record : RecordClass) : Prop :=
  ∀ f ∈ record.fields, takesAttribute record.name f.name = true

/-- Whether instances can be made of a class of a declaration: it takes its
fields, and the declaration offers no arm under a name that Python looks up for
instances. -/
def Declaration.MakesInstances (d : Declaration) (record : RecordClass) : Prop :=
  record.TakesFields ∧ d.spoiled = false

/-- Whether instances can be made of all classes of a module. -/
def ClientModule.MakesInstances (m : ClientModule) : Prop :=
  ∀ d ∈ m.declarations ++ [m.eventDeclaration], ∀ record ∈ d.records, d.MakesInstances record

/-- The instances of a record are those of a class with its name and its
fields. -/
theorem RecordClass.instances_eq (record : RecordClass) :
    record.instances = instancesOf record.name (record.fields.map (·.name)) := by
  rw [instancesOf, List.map_map]
  rfl

/-- Below a spoiled class an arm keeps the name of its record; only what can be
made of it changes. -/
theorem ArmClass.codecBelow_name (cls : ArmClass) (spoiled : Bool) :
    (cls.codecBelow spoiled).2.1.name = cls.record.name := by
  cases spoiled <;> rfl

/-- The codec of a record has the record's fields, in their order. -/
theorem RecordClass.codec_names (record : RecordClass) :
    (record.fields.map ClientField.codec).map (·.1) = record.fields.map (·.name) := by
  rw [List.map_map]
  rfl

/-- **The shape of a class takes its fields** if instances of it can be made. -/
theorem RecordClass.fieldsFit {record : RecordClass} (hnodup : (record.fields.map (·.name)).Nodup)
    (htakes : record.TakesFields) : FieldsFit record.instances (record.fields.map ClientField.codec) := by
  have hnames : ∀ name ∈ record.fields.map (·.name), takesAttribute record.name name = true := by
    intro name hname
    obtain ⟨f, hf, rfl⟩ := List.mem_map.1 hname
    exact htakes f hf
  constructor
  · rw [record.codec_names]
    exact hnodup
  · rw [record.codec_names, record.instances_eq, instancesOf_attributes hnodup hnames]

/-- The shape of an arm takes its fields if instances of it can be made. -/
theorem Declaration.armFits {name : String} {docs : List String} {classes : List ArmClass} {cls : ArmClass}
    (hnodup : (cls.record.fields.map (·.name)).Nodup)
    (hmakes : (Declaration.variant name docs classes).MakesInstances cls.record) :
    FieldsFit (cls.codecBelow (Declaration.variant name docs classes).spoiled).2.1
      (cls.codecBelow (Declaration.variant name docs classes).spoiled).2.2 := by
  rw [hmakes.2]
  exact RecordClass.fieldsFit hnodup hmakes.1

theorem ClientModule.mem_records {d : Declaration} (hd : d ∈ m.declarations ++ [m.eventDeclaration])
    {record : RecordClass} (hrecord : record ∈ d.records) : record ∈ m.records := by
  rcases List.mem_append.1 hd with hd | hd
  · exact List.mem_append_left _ (List.mem_flatMap.2 ⟨d, hd, hrecord⟩)
  · rw [List.mem_singleton.1 hd] at hrecord
    exact List.mem_append_right _ hrecord

/-- Whether an error says that no instance can be made of a class of a
module. -/
def ClientModule.Misfits (m : ClientModule) (err : DecodeError) : Prop :=
  ∃ d ∈ m.declarations ++ [m.eventDeclaration], ∃ record ∈ d.records, ∃ name,
    err = .shapeMismatch record.name name ∧ ¬ d.MakesInstances record

/-- **Only a class that makes no instances can be blamed.** What blames a codec
was looked at one codec at a time; here it is seen that nothing that occurs in a
client can be blamed but the codec of a class whose instances cannot be made:
names lead to declarations, and thirty-two bytes are read where thirty-two are
asked for. -/
theorem Occurs.misfit_of_blames (hwires : m.Wires r names env)
    (hkept : ∀ record ∈ m.records, KeptApart memberReserved (record.fields.map (·.name))) {c : Codec}
    (h : Occurs r names m c) {err : DecodeError} (hblames : c.Blames env err) : m.Misfits err := by
  cases h with
  | spelled h =>
    -- Codecs of expressions ask thirty-two bytes types for thirty-two bytes, and names
    -- lead to declarations.
    exfalso
    cases h with
    | named hname =>
      obtain ⟨d, -, -, hc⟩ := hwires _ _ hname
      cases err with
      | undeclared name =>
        obtain ⟨-, hnone⟩ := hblames
        cases hc.symm.trans hnone
      | _ => cases hblames
    | newtype =>
      cases err with
      | newtype e => exact hblames rfl
      | _ => cases hblames
    | @primitive _ _ kind => cases kind <;> cases err <;> cases hblames
    | _ => cases err <;> simp only [TypeExpr.codec, Blames] at hblames
  | @declared d h =>
    cases err with
    | shapeMismatch cls name =>
      cases d with
      | composite record =>
        obtain ⟨rfl, hfit⟩ := hblames
        have hrecord : record ∈ (Declaration.composite record).records := List.mem_singleton.2 rfl
        exact ⟨_, h, record, hrecord, name, rfl, fun hmakes =>
          hfit (RecordClass.fieldsFit (hkept record (ClientModule.mem_records h hrecord)).nodup hmakes.1)⟩
      | variant base docs classes =>
        obtain ⟨arm, harm, rfl, hfit⟩ := hblames
        obtain ⟨cls, hcls, rfl⟩ := List.mem_map.1 harm
        have hrecord : cls.record ∈ (Declaration.variant base docs classes).records := List.mem_map.2 ⟨cls, hcls, rfl⟩
        refine ⟨_, h, cls.record, hrecord, name, ?_, fun hmakes =>
          hfit (Declaration.armFits (hkept _ (ClientModule.mem_records h hrecord)).nodup hmakes)⟩
        exact congrArg (DecodeError.shapeMismatch · name) (cls.codecBelow_name _)
    | _ => cases d <;> cases hblames

/-- Where all classes make instances, what occurs is regular. An expression is
regular by its form; a declared codec is so if its fields fit its class and its
indices are different bytes. -/
theorem Occurs.regular (hwell : m.WellDeclared r names)
    (hkept : ∀ record ∈ m.records, KeptApart memberReserved (record.fields.map (·.name)))
    (hmakes : m.MakesInstances) {c : Codec} (h : Occurs r names m c) : Regular c := by
  cases h with
  | spelled h =>
    cases h with
    | newtype =>
      rw [TypeExpr.codec]
      rfl
    | @primitive _ _ kind =>
      rw [TypeExpr.codec]
      cases kind <;> trivial
    | _ =>
      rw [TypeExpr.codec]
      trivial
  | @declared d h =>
    have hnodup := fun record hrecord => (hkept record (ClientModule.mem_records h hrecord)).nodup
    -- Only enums ask for more than fields that fit: their indices have to be different bytes.
    cases d with
    | composite record =>
      have hrecord : record ∈ (Declaration.composite record).records := List.mem_singleton.2 rfl
      exact RecordClass.fieldsFit (hnodup record hrecord) (hmakes _ h record hrecord).1
    | variant name docs classes =>
      obtain ⟨hindices, hbytes⟩ := hwell.indexed _ h
      refine ⟨by rwa [List.map_map], fun arm harm => ?_⟩
      obtain ⟨cls, hcls, rfl⟩ := List.mem_map.1 harm
      have hrecord : cls.record ∈ (Declaration.variant name docs classes).records := List.mem_map.2 ⟨cls, hcls, rfl⟩
      exact ⟨hbytes _ (List.mem_map.2 ⟨cls, hcls, rfl⟩),
        Declaration.armFits (hnodup _ hrecord) (hmakes _ h _ hrecord)⟩

/-- Where, besides, no type is an option of options, what occurs is unambiguous.
An option stands directly below an option only if a type spells it so, as names
lead to classes and never to an option. -/
theorem Occurs.unambiguous (hwell : m.WellDeclared r names) (hwires : m.Wires r names env)
    (hkept : ∀ record ∈ m.records, KeptApart memberReserved (record.fields.map (·.name))) (hmakes : m.MakesInstances)
    (hnests : ∀ id, ¬ r.NestsOption id) {c : Codec} (h : Occurs r names m c) : Unambiguous env c := by
  have hregular := h.regular hwell hkept hmakes
  -- Of the spelled codecs only options can be ambiguous, and of the declared ones only enums.
  cases h with
  | spelled h =>
    cases h with
    | @option id inner e x he hknown hinner hx =>
      rw [TypeExpr.codec]
      intro hoption
      obtain ⟨e', inner', he', hknown', -⟩ := hx.option_known (denotes_late hwires.declaresAll) hoption
      exact hnests _ ⟨e, inner, e', he, hknown, hinner, he', hknown'⟩
    | @primitive _ _ kind =>
      rw [TypeExpr.codec]
      cases kind <;> trivial
    | _ =>
      rw [TypeExpr.codec]
      trivial
  | @declared d h =>
    cases d with
    | composite record => exact hregular
    | variant name docs classes =>
      have hapart : ((Declaration.variant name docs classes).bound.map (·.name)).Nodup := by
        have hall := hwell.apart
        rw [List.map_flatMap] at hall
        exact (List.nodup_flatMap.1 hall).1 _ h
      rw [Declaration.bound_names, List.nodup_cons] at hapart
      refine ⟨?_, fun arm harm => (hregular.2 arm harm).2⟩
      rw [List.map_map, List.map_congr_left fun cls _ => cls.codecBelow_name _]
      exact hapart.2

end

/-! ## One event -/

/-- The codecs of the fields of an event. -/
def ArmClass.codecs (cls : ArmClass) : List Codec :=
  cls.record.fields.map fun f => f.type.codec .ref

/-- The codecs of an arm's fields do not depend on whether its instances can be
made. -/
theorem ArmClass.codecBelow_codecs (cls : ArmClass) (spoiled : Bool) :
    (cls.codecBelow spoiled).2.2.map (·.2) = cls.codecs :=
  List.map_map

/-- Whether a payload is the fields of an event, one behind the other and
nothing else, and reads as given values. -/
def ArmClass.Reads (env : Environment) (cls : ArmClass) (payload : Bytes) (vs : List Value) : Prop :=
  decodeInTurn env cls.codecs payload 0 = .ok (vs, payload.length)

/-- Whether an answer is what is to be said of an event, where the classes of
events are given. -/
inductive EventItem (env : Environment) (classes : List ArmClass) (e : ContractEvent) :
    Except DecodeError Value → Prop
  | decoded {cls : ArmClass} {vs : List Value} (hcls : cls ∈ classes) (hindex : (cls.index : Int) = e.discriminant)
      (hreads : cls.Reads env e.data vs) :
      EventItem env classes e (.ok (.instance cls.record.name ((cls.record.fields.map (·.name)).zip vs)))
  | malformed {cls : ArmClass} {fault : DecodeFault} {offset : Nat} (hcls : cls ∈ classes)
      (hindex : (cls.index : Int) = e.discriminant) (hreads : ∀ vs, ¬ cls.Reads env e.data vs) :
      EventItem env classes e (.error (.malformed fault offset))
  | unknown {known : List Nat} (hnone : ∀ cls ∈ classes, (cls.index : Int) ≠ e.discriminant)
      (hknown : known.Perm (classes.map (·.index))) (hsorted : known.Pairwise (· < ·)) :
      EventItem env classes e (.error (.unknownEvent e.discriminant known))

section

variable {r : Registry} {names : ModuleNames} {m : ClientModule} {env : Environment}

theorem ClientModule.eventDeclaration_mem (m : ClientModule) :
    m.eventDeclaration ∈ m.declarations ++ [m.eventDeclaration] :=
  List.mem_append_right _ (List.mem_singleton.2 rfl)

theorem ClientModule.event_mem_records {cls : ArmClass} (h : cls ∈ m.events) : cls.record ∈ m.records :=
  List.mem_append_right _ (List.mem_map.2 ⟨cls, h, rfl⟩)

/-- **What comes of one event**: the answer that is to be given, or a class of
which no instance can be made. First it is asked whether the discriminant
belongs to an event class. If so, the fields are read in turn, and the three
ways in which that can end are told apart: all are read, the bytes are at fault,
or a codec is to blame. -/
theorem decodeEvent_spec (hwell : m.WellDeclared r names) (hwires : m.Wires r names env)
    (hkept : ∀ record ∈ m.records, KeptApart memberReserved (record.fields.map (·.name)))
    (hfounded : Everywhere env (Founded env) m.eventDeclaration.codec) (e : ContractEvent) :
    EventItem env m.events e (m.eventDeclaration.codec.decodeEvent env e.discriminant e.data) ∨
      ∃ err, m.eventDeclaration.codec.decodeEvent env e.discriminant e.data = .error err ∧ m.Misfits err ∧
        ∃ cls ∈ m.events, (cls.index : Int) = e.discriminant := by
  let arm := ArmClass.codecBelow m.eventDeclaration.spoiled
  have hindices : ((m.events.map arm).map (·.1)).Nodup := by
    rw [List.map_map]
    exact (hwell.indexed _ m.eventDeclaration_mem).1
  have hcodec : m.eventDeclaration.codec = .enum "Event" (m.events.map arm) := rfl
  by_cases hdeclared : ∃ cls ∈ m.events, (cls.index : Int) = e.discriminant
  · obtain ⟨cls, hcls, hindex⟩ := hdeclared
    have harm : arm cls ∈ m.events.map arm := List.mem_map.2 ⟨cls, hcls, rfl⟩
    obtain ⟨hfind, heq⟩ : _ ∧ (Codec.enum "Event" (m.events.map arm)).decodeEvent env e.discriminant
        e.data = decodeVariant env "Event" (m.events.map arm) (arm cls).1 e.data true :=
      decodeEvent_of_mem hindices harm hindex
    rw [hcodec, heq]
    cases hdecode : decodeVariant env "Event" (m.events.map arm) (arm cls).1 e.data true with
    | ok v =>
      obtain ⟨vs, hreads, hmade⟩ := (decodeVariant_ok_iff hfind).1 hdecode
      rw [cls.codecBelow_codecs] at hreads
      have htuple : decodeTuple (follow env) cls.codecs e.data 0 = .ok (vs, e.data.length) := by
        rw [← decodeInTurn_eq]
        exact hreads
      have hlen : vs.length = cls.record.fields.length := (length_decodeTuple htuple).trans (List.length_map _)
      have hfields := hkept cls.record (ClientModule.event_mem_records hcls)
      have hmade := ((ArmClass.instanceOf_codecBelow (cls.record.fields_free hfields vs)).1 hmade).2
      rw [cls.record.instances_eq, cls.record.codec_names] at hmade
      obtain ⟨-, rfl⟩ := (instanceOf_instances_ok_iff hfields.nodup (by rw [List.length_map, hlen])).1 hmade
      exact .inl (.decoded hcls hindex hreads)
    | error err =>
      rcases decodeVariant_failsAs hfind hfounded err hdecode with hfault | ⟨c, hc, hblames⟩
      · left
        cases err with
        | malformed f offset =>
          refine .malformed hcls hindex fun vs hreads => ?_
          -- Fields that were read leave nothing to complain about in the bytes.
          rw [ArmClass.Reads, ← cls.codecBelow_codecs m.eventDeclaration.spoiled] at hreads
          rw [decodeVariant_of_inTurn hfind hreads] at hdecode
          obtain ⟨name, heq⟩ := instanceOf_failsAs _ _ _ hdecode
          cases heq
        | _ => cases hfault
      · right
        have hoccurs := Occurs.everywhere hwell hwires (P := fun c => c.Blames env err → m.Misfits err)
          (fun c hc => hc.misfit_of_blames hwires hkept) (.declared m.eventDeclaration_mem)
        exact ⟨err, rfl, hoccurs c hc hblames, cls, hcls, hindex⟩
  · left
    have hnone : ∀ cls ∈ m.events, (cls.index : Int) ≠ e.discriminant :=
      fun cls hcls hindex => hdeclared ⟨cls, hcls, hindex⟩
    rw [hcodec, decodeEvent_of_notMem]
    · refine .unknown hnone ?_ (indices_sorted hindices)
      have hperm := indices_perm (m.events.map arm)
      rwa [List.map_map] at hperm
    · intro arm harm
      obtain ⟨cls, hcls, rfl⟩ := List.mem_map.1 harm
      exact hnone cls hcls

/-- Events that are answered get the answers that are to be given. -/
theorem eventsOf_answered (hwell : m.WellDeclared r names) (hwires : m.Wires r names env)
    (hkept : ∀ record ∈ m.records, KeptApart memberReserved (record.fields.map (·.name)))
    (hfounded : Everywhere env (Founded env) m.eventDeclaration.codec) {account : Bytes} {emitted : List ContractEvent}
    {items : List (Except DecodeError Value)} (h : m.eventDeclaration.codec.eventsOf env account emitted = .ok items) :
    List.Forall₂ (EventItem env m.events) (emitted.filter (·.account = account)) items := by
  refine (eventsOf_ok_iff.1 h).imp fun e item hitem => ?_
  obtain ⟨rfl, hfails⟩ := hitem
  rcases decodeEvent_spec hwell hwires hkept hfounded e with hitem | ⟨err, herr, ⟨-, -, record, -, name, rfl, -⟩, -⟩
  · exact hitem
  · cases hfails _ herr

/-- If events are not answered, that is due to a class, and to an event of the
account. -/
theorem eventsOf_misfits (hwell : m.WellDeclared r names) (hwires : m.Wires r names env)
    (hkept : ∀ record ∈ m.records, KeptApart memberReserved (record.fields.map (·.name)))
    (hfounded : Everywhere env (Founded env) m.eventDeclaration.codec) {account : Bytes} {emitted : List ContractEvent}
    {err : DecodeError} (h : m.eventDeclaration.codec.eventsOf env account emitted = .error err) :
    m.Misfits err ∧ ∃ e ∈ emitted, e.account = account ∧ ∃ cls ∈ m.events, (cls.index : Int) = e.discriminant := by
  obtain ⟨e, he, haccount, hdecode, hbytes⟩ := exists_of_eventsOf_error h
  rcases decodeEvent_spec hwell hwires hkept hfounded e with hitem | ⟨err', herr', hmisfits, hcls⟩
  · rw [hdecode] at hitem
    cases hitem <;> cases hbytes
  · cases herr'.symm.trans hdecode
    exact ⟨hmisfits, e, he, haccount, hcls⟩

/-- The codecs of the fields of an event occur. -/
theorem ClientModule.WellDeclared.occurs (hwell : m.WellDeclared r names) {cls : ArmClass} (hcls : cls ∈ m.events)
    {c : Codec} (hc : c ∈ cls.codecs) : Occurs r names m c := by
  obtain ⟨f, hf, rfl⟩ := List.mem_map.1 hc
  obtain ⟨id, hspells⟩ := hwell.spelled cls hcls f hf
  exact .spelled hspells

/-- Fields that are encoded in turn are read, exactly if no `char` inside of
them is a surrogate. -/
theorem ArmClass.exists_reads_iff (hwell : m.WellDeclared r names) (hwires : m.Wires r names env)
    (hkept : ∀ record ∈ m.records, KeptApart memberReserved (record.fields.map (·.name)))
    (hmakes : m.MakesInstances) {cls : ArmClass} (hcls : cls ∈ m.events)
    {ws : List Value} (hlen : ws.length = cls.codecs.length)
    (hmodest : ∀ p ∈ cls.codecs.zip ws, Modest env p.1 p.2) {payload : Bytes}
    (hencode : encodeArgs env (cls.codecs.zip ws) = .ok payload) :
    (∃ vs, cls.Reads env payload vs) ↔ ∀ p ∈ cls.codecs.zip ws, Unbroken env p.1 p.2 := by
  have hregular : ∀ p ∈ cls.codecs.zip ws, Everywhere env Regular p.1 ∧ Modest env p.1 p.2 := by
    intro p hp
    have hoccurs := hwell.occurs hcls (List.of_mem_zip hp).1
    exact ⟨hoccurs.everywhere hwell hwires fun c hc => hc.regular hwell hkept hmakes, hmodest p hp⟩
  have hback := fun vs => decodeInTurn_of_encodeArgs hregular hencode [] [] vs payload.length
  simp only [List.map_fst_zip (Nat.le_of_eq hlen.symm), List.nil_append, List.append_nil, List.length_nil,
    Nat.zero_add] at hback
  constructor
  · rintro ⟨vs, hreads⟩
    exact ((hback vs).1 hreads).1
  · exact fun hall => ⟨_, (hback _).2 ⟨hall, rfl, trivial⟩⟩

/-- Fields that are read are encoded as the payload. -/
theorem ArmClass.encodeArgs_of_reads (hwell : m.WellDeclared r names) (hwires : m.Wires r names env)
    (hkept : ∀ record ∈ m.records, KeptApart memberReserved (record.fields.map (·.name))) (hmakes : m.MakesInstances)
    (hnests : ∀ id, ¬ r.NestsOption id) {cls : ArmClass} (hcls : cls ∈ m.events) {payload : Bytes} {vs : List Value}
    (hreads : cls.Reads env payload vs) : encodeArgs env (cls.codecs.zip vs) = .ok payload := by
  have hunambiguous : ∀ c ∈ cls.codecs, Everywhere env (Unambiguous env) c := fun c hc =>
    (hwell.occurs hcls hc).everywhere hwell hwires fun c hc => hc.unambiguous hwell hwires hkept hmakes hnests
  obtain ⟨bs, hbetween, hencode⟩ := encodeArgs_of_decodeInTurn hunambiguous (Nat.zero_le _) hreads
  -- What lies between the two ends of the payload is the payload.
  rw [hencode, hbetween.unique ⟨Nat.zero_le _, Nat.le_refl _, List.take_length⟩]

/-- Where nothing holds itself inline, what occurs is founded. -/
theorem Occurs.founded (hwell : m.WellDeclared r names) (hwires : m.Wires r names env)
    (hacc : ∀ id, Acc (fun child id => r.HoldsInline id child) id) {c : Codec} (h : Occurs r names m c) :
    Founded env c := by
  have hspelled : ∀ {id : TypeId} {t : TypeExpr}, r.Spells names.types id t → Founded env (t.codec .ref) :=
    fun {id _} ht => Made.founded hwires.declaresAll (hacc id) (.late ht)
  cases h with
  | spelled h => exact hspelled h
  | declared h =>
    refine Acc.intro _ fun d hd => ?_
    obtain ⟨record, hrecord, f, hf, rfl⟩ := Declaration.exists_field_of_part hd.mem_parts
    obtain ⟨id, ht⟩ := hwell.spelled_all _ h record hrecord f hf
    exact hspelled ht

end

/-! ## The events of a transaction -/

section

variable {u : CompilationUnit} {handle : String} {m : ClientModule} {b : Bindings} {r : Registry} {names : ModuleNames}

/-- An import ends with the codecs of the declarations and that of the
events. -/
theorem ClientModule.WellDeclared.codecs_of_run (h : m.WellDeclared r names) (hrun : m.run = .ok b) :
    b.codecs = (m.declarations ++ [m.eventDeclaration]).map fun d => (d.name, d.codec) := by
  have hstatements := runStatements_of_run hrun
  rw [m.statements_split] at hstatements
  obtain ⟨b₀, hdeclaring, hcalling⟩ := runStatements_append.1 hstatements
  obtain ⟨wired, hwired, hnames⟩ := (runStatements_spec hcalling).codecs
  rw [m.wires_calling, List.map_eq_nil_iff] at hnames
  rw [hwired, hnames, List.append_nil]
  exact h.codecs hdeclaring

/-- After an import every declared class has its codec. -/
theorem ClientModule.WellDeclared.codec?_of_run (h : m.WellDeclared r names) (hrun : m.run = .ok b) {d : Declaration}
    (hd : d ∈ m.declarations ++ [m.eventDeclaration]) : b.environment.codec? d.name = some d.codec := by
  have hcodecs := h.codecs_of_run hrun
  have hnodup : (b.codecs.map Prod.fst).Nodup := by
    rw [hcodecs, List.map_map]
    exact h.names_nodup
  have hmem : (d.name, d.codec) ∈ b.codecs := by
    rw [hcodecs]
    exact List.mem_map.2 ⟨d, hd, rfl⟩
  rw [Environment.codec?, Bindings.environment, find?_of_nodup Prod.fst hnodup hmem]
  rfl

/-- After an import the types of the registry are wired to the classes that were
named for them. -/
theorem ClientModule.WellDeclared.wires_of_run (h : m.WellDeclared r names) (hrun : m.run = .ok b) :
    m.Wires r names b.environment := by
  intro id name hname
  obtain ⟨d, hd, hdescribes⟩ := h.complete id name hname
  obtain rfl : d.name = name := Option.some.inj (hdescribes.name.symm.trans hname)
  exact ⟨d, hd, hdescribes, h.codec?_of_run hrun (List.mem_append_left _ hd)⟩

/-- The codec with which a session decodes events is that of the event
declaration: no later declaration has its name. -/
theorem ClientModule.WellDeclared.eventCodec_of_run {s : Session} (h : s.module.WellDeclared r names)
    (hrun : s.module.run = .ok s.bindings) : s.eventCodec = s.module.eventDeclaration.codec := by
  have hc : s.bindings.environment.codec? "Event" = some s.module.eventDeclaration.codec :=
    h.codec?_of_run hrun s.module.eventDeclaration_mem
  rw [Session.eventCodec, hc]
  rfl

end

/-- **Every event is answered.** A client answers the events of its contract in
their order, and passes over those of other contracts. What it says is
an instance of the class of the event where the discriminant is that of a class
and the payload is exactly its fields, a fault in the bytes where the payload is
not, and the discriminants that are known where there is no such class; and each
answer depends on its own event. There may be no answers at all, and the reason
is then a class of which no instance can be made: it does not take one of its
own fields, or a class that it stands below is spoiled. Where there is no
such class, all is answered: fields that are encoded in turn are a payload that
is read, if no sequence of items without bytes is too long, exactly if no `char`
inside of them is a surrogate, and what is read is encoded as the payload again,
if no type is an option of options. Records of a transaction become events
unless one of them is empty. -/
theorem events_answered {hash : HashFunction} {settings : Settings} {wasm : Option Bytes} {document : Document}
    {u : CompilationUnit} (hcompile : document.compile hash settings wasm = .ok u) {runtimeModule handle : String}
    {s : Session} (hclient : u.client runtimeModule handle = .ok s.module) (himports : s.module.Imports s.bindings)
    (hfounded : Everywhere s.bindings.environment (Founded s.bindings.environment) s.eventCodec) :
    (∀ emitted items, s.events emitted = .ok items →
      List.Forall₂ (EventItem s.bindings.environment s.module.events)
        (emitted.filter (·.account = s.account)) items) ∧
    (∀ emitted err, s.events emitted = .error err → s.module.Misfits err ∧
      ∃ e ∈ emitted, e.account = s.account ∧ ∃ cls ∈ s.module.events, (cls.index : Int) = e.discriminant) ∧
    (s.module.MakesInstances → ∀ emitted, ∃ items, s.events emitted = .ok items) ∧
    (∀ emitted emitted', s.events (emitted ++ emitted') =
      s.events emitted >>= fun items => (s.events emitted').map (items ++ ·)) ∧
    (s.module.MakesInstances → ∀ cls ∈ s.module.events, ∀ payload,
      (∀ ws, ws.length = cls.codecs.length → (∀ p ∈ cls.codecs.zip ws, Modest s.bindings.environment p.1 p.2) →
        encodeArgs s.bindings.environment (cls.codecs.zip ws) = .ok payload →
          ((∃ vs, cls.Reads s.bindings.environment payload vs) ↔
            ∀ p ∈ cls.codecs.zip ws, Unbroken s.bindings.environment p.1 p.2)) ∧
      ((∀ id, ¬ u.registry.NestsOption id) → ∀ vs, cls.Reads s.bindings.environment payload vs →
        encodeArgs s.bindings.environment (cls.codecs.zip vs) = .ok payload)) ∧
    ∀ records, (∀ record ∈ records, ∃ account, accountOf record.1 = .ok account) →
      (∀ err, ContractEvent.ofRecords records = .error err ↔
        (∃ record ∈ records, record.2 = []) ∧ err = .malformed .emptyEvent 0) ∧
      ∀ events, ContractEvent.ofRecords records = .ok events ↔ List.Forall₂ SplitsInto records events := by
  obtain ⟨metadata, hresolve⟩ := compile_resolve hcompile
  have hwell := client_wellDeclared hresolve (compile_events hcompile) hclient
  have hwires := hwell.wires_of_run himports.run
  have hcodec := hwell.eventCodec_of_run himports.run
  have hkept := (client_scopesApart hresolve hclient).fields
  rw [hcodec] at hfounded
  have hevents : ∀ emitted, s.events emitted =
      s.module.eventDeclaration.codec.eventsOf s.bindings.environment s.account emitted := by
    intro emitted
    rw [Session.events, hcodec]
  have herror : ∀ emitted err, s.events emitted = .error err → s.module.Misfits err ∧
      ∃ e ∈ emitted, e.account = s.account ∧ ∃ cls ∈ s.module.events, (cls.index : Int) = e.discriminant :=
    fun emitted err h => eventsOf_misfits hwell hwires hkept hfounded (hevents emitted ▸ h)
  refine ⟨?_, herror, ?_, eventsOf_append, ?_, fun records haccounts => ofRecords_spec haccounts⟩
  · exact fun emitted items h => eventsOf_answered hwell hwires hkept hfounded (hevents emitted ▸ h)
  · intro hmakes emitted
    cases h : s.events emitted with
    | ok items => exact ⟨items, rfl⟩
    | error err =>
      obtain ⟨⟨d, hd, record, hrecord, -, -, hmisfit⟩, -⟩ := herror emitted err h
      exact absurd (hmakes d hd record hrecord) hmisfit
  · intro hmakes cls hcls payload
    constructor
    · intro ws hlen hmodest hencode
      exact cls.exists_reads_iff hwell hwires hkept hmakes hcls hlen hmodest hencode
    · exact fun hnests vs hreads => cls.encodeArgs_of_reads hwell hwires hkept hmakes hnests hcls hreads

/-! ## Trees that have grown -/

/-- Which of some events a generated client decodes, and where the payload of
the first one ends as the fields of each class of events. -/
def eventAnswers (account : Bytes) (emitted : List ContractEvent) (p : ClientModule × Bindings) :
    Except DecodeError (List Bool) × List (Except DecodeError Nat) :=
  (((⟨p.1, p.2, account⟩ : Session).events emitted).map (List.map Except.isOk),
    p.1.events.map fun cls =>
      (decodeInTurn p.2.environment cls.codecs (emitted.head?.elim [] ContractEvent.data) 0).map (·.2))

/-- Some events: a leaf that has grown, an event of another contract, one that
is not known, and a leaf with something behind it. -/
def grownEvents : List ContractEvent :=
  [⟨[1], 0, [3]⟩, ⟨[2], 0, [3]⟩, ⟨[1], -4, [3]⟩, ⟨[1], 0, [3, 3]⟩]

/-- Trees hold their branches in a sequence and nothing inline but this
sequence. -/
theorem branchingUnit_inline (id : TypeId) : Acc (fun child id => branchingUnit.registry.HoldsInline id child) id := by
  have hitem : ∀ child, ¬ branchingUnit.registry.HoldsInline 1 child := by
    rintro child ⟨d, hd, hchild⟩
    cases hd
    cases hchild
  refine Acc.intro id fun child hchild => ?_
  have hone : child = 1 := by
    obtain ⟨d, hd, hmem⟩ := hchild
    obtain ⟨e, he, rfl⟩ := Option.map_eq_some_iff.1 hd
    have hentry := List.mem_of_find?_eq_some he
    simp only [branchingUnit, List.mem_cons, List.not_mem_nil, or_false] at hentry
    rcases hentry with rfl | rfl
    · simpa [TypeDef.inlineReferences, TypeDef.references] using hmem
    · simp [TypeDef.inlineReferences] at hmem
  rw [hone]
  exact Acc.intro 1 fun x hx => absurd hx (hitem x)

/-- The client of trees answers three of the events, one with an instance and
two with what is wrong with them; the fourth is of another contract. -/
theorem events_answered_branching : ∃ m b items,
    branchingDocument.compile id transferSettings none = .ok branchingUnit ∧
      branchingUnit.client "inkgen.runtime" "Instance" = .ok m ∧ m.Imports b ∧
      (⟨m, b, [1]⟩ : Session).events grownEvents = .ok items ∧ items.map Except.isOk = [true, false, false] ∧
      List.Forall₂ (EventItem b.environment m.events) [⟨[1], 0, [3]⟩, ⟨[1], -4, [3]⟩, ⟨[1], 0, [3, 3]⟩] items := by
  have hanswered : (branchingUnit.imported "inkgen.runtime" "Instance").toOption.map (eventAnswers [1] grownEvents) =
      some (.ok [true, false, false], [.ok 1]) := by decide +kernel
  obtain ⟨m, b, hclient, himports, hanswered⟩ := exists_imported hanswered
  obtain ⟨hflags, -⟩ := Prod.mk.inj hanswered
  have hrun := himports.run
  obtain ⟨items, hitems, hflags⟩ := map_ok_iff.1 hflags
  obtain ⟨metadata, hresolve⟩ := compile_resolve branching_compile
  have hwell := client_wellDeclared hresolve (compile_events branching_compile) hclient
  have hwires := hwell.wires_of_run hrun
  have hcodec : (⟨m, b, [1]⟩ : Session).eventCodec = m.eventDeclaration.codec := hwell.eventCodec_of_run hrun
  have hfounded : Everywhere b.environment (Founded b.environment) m.eventDeclaration.codec :=
    Occurs.everywhere hwell hwires (fun c hc => hc.founded hwell hwires branchingUnit_inline)
      (.declared m.eventDeclaration_mem)
  have hall := (events_answered branching_compile (s := ⟨m, b, [1]⟩) hclient himports (hcodec ▸ hfounded)).1 _ _ hitems
  exact ⟨m, b, items, branching_compile, hclient, himports, hitems, hflags, hall⟩

/-! ## An event that is not answered -/

/-- A document with an event that has a private name for a field. -/
def privateDocument : Document :=
  .value (.obj [("version", .int 4), ("contract", .obj [("name", .str "c"), ("version", .str "1")]),
    ("types", .arr [.obj [("id", .int 0), ("type", .obj [("def", .obj [("primitive", .str "u8")])])]]),
    ("spec", .obj [
      ("constructors", .arr []), ("messages", .arr []),
      ("events", .arr [.obj [("label", .str "E"), ("args", .arr [
        .obj [("label", .str "__x"), ("type", .obj [("type", .int 0)])]])]])])])

/-- The unit of the document. -/
def privateUnit : CompilationUnit :=
  { contractName := "c", contractVersion := "1"
    registry := ⟨[{ id := 0, definition := .primitive (.unsigned .w8) }], []⟩
    constructors := [], messages := []
    events := [{ name := "E", discriminant := 0, fields := [⟨"__x", 0, false⟩], docs := [] }]
    codeHash := none, bytecode := none }

theorem private_compile : privateDocument.compile id transferSettings none = .ok privateUnit := by
  cbv

/-- **An event of which the payload is its one field is not answered**:
the class does not take the field. All that is asked of the payload holds, so
the failure is none of the two answers for an event, and it leaves the generator
of events. -/
theorem event_unanswered : ∃ m b, privateDocument.compile id transferSettings none = .ok privateUnit ∧
    privateUnit.client "inkgen.runtime" "Instance" = .ok m ∧ m.Imports b ∧
      Everywhere b.environment (Founded b.environment) (⟨m, b, [1]⟩ : Session).eventCodec ∧
      (∃ cls vs, m.events = [cls] ∧ cls.index = 0 ∧ cls.Reads b.environment [7] vs) ∧
      (⟨m, b, [1]⟩ : Session).events [⟨[1], 0, [7]⟩] = .error (.shapeMismatch "Event_E" "__x") := by
  have hanswered : (privateUnit.imported "inkgen.runtime" "Instance").toOption.map
      (eventAnswers [1] [⟨[1], 0, [7]⟩]) = some (.error (.shapeMismatch "Event_E" "__x"), [.ok 1]) := by decide +kernel
  obtain ⟨m, b, hclient, himports, hanswered⟩ := exists_imported hanswered
  obtain ⟨hflags, hends⟩ := Prod.mk.inj hanswered
  have hrun := himports.run
  obtain ⟨metadata, hresolve⟩ := compile_resolve private_compile
  have hwell := client_wellDeclared hresolve (compile_events private_compile) hclient
  have hwires := hwell.wires_of_run hrun
  -- The one type is a byte, which holds nothing inline.
  have hinline : ∀ id, Acc (fun child id => privateUnit.registry.HoldsInline id child) id := by
    refine fun id => Acc.intro id fun child hchild => ?_
    obtain ⟨d, hd, hmem⟩ := hchild
    obtain ⟨e, he, rfl⟩ := Option.map_eq_some_iff.1 hd
    rw [List.mem_singleton.1 (List.mem_of_find?_eq_some he)] at hmem
    cases hmem
  have hcodec : (⟨m, b, [1]⟩ : Session).eventCodec = m.eventDeclaration.codec := hwell.eventCodec_of_run hrun
  have hfounded : Everywhere b.environment (Founded b.environment) m.eventDeclaration.codec :=
    Occurs.everywhere hwell hwires (fun c hc => hc.founded hwell hwires hinline) (.declared m.eventDeclaration_mem)
  refine ⟨m, b, private_compile, hclient, himports, hcodec ▸ hfounded, ?_, map_error_iff.1 hflags⟩
  obtain ⟨cls, hevents, hread⟩ := List.map_eq_singleton_iff.1 hends
  obtain ⟨⟨vs, e⟩, hread, rfl⟩ := map_ok_iff.1 hread
  have hindices := (client_covers hresolve hclient).events
  rw [hevents] at hindices
  cases hindices with
  | cons hhead _ => exact ⟨cls, vs, hevents, hhead.1, hread⟩

end ContractClient
