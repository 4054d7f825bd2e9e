/-
A client reads what the plain codecs read.

The codec of an expression and the plain codec of its type are compared along
two ways of following references. References are followed as often as there is
fuel. Where a client has read a value with some fuel, the plain codec reads it,
by induction on this fuel; and where the plain codec has read one with some
fuel, the client reads it, by induction on that fuel. Neither side knows how
much fuel the other one needs, so the other one is always given enough: `follow`
is decoding with no end of fuel. One step of either induction is one constructor
of a codec, whose parts are spelled types on the one side and references to
these types on the other; that is what `Steps` says, once for types that are
spelled out and once for types that are declared.

Cycles of references need no condition. A type that contains itself without a
byte in between cannot be decoded on either side.
-/
import ContractClient.Proofs.Client.Leaves
import ContractClient.Proofs.Client.Wiring

set_option autoImplicit false

namespace ContractClient

open Codec

/-! ## One step -/

section

variable (r : Registry) (names : ModuleNames)

/-- Whether a codec is that of an expression of a kind and the other one the
plain reference to its type. -/
def SpelledRef (kind : TypeExpr → Prop) (c plain : Codec) : Prop :=
  ∃ id t, kind t ∧ r.Spells names.types id t ∧ c = t.codec .ref ∧ plain = .ref (label id)

/-- Whether a codec is a leaf that reads what is shown of a type, or is made
from parts of a kind like a codec that shows this. -/
def Steps (kind : TypeExpr → Prop) (id : TypeId) (c : Codec) : Prop :=
  r.ShownByLeaf names id c ∨ ∃ e c', r.entry? id = some e ∧ SameForm (SpelledRef r names kind) c c' ∧
    r.Mirrors names id c' (r.plainCodec id e.definition)

variable {r names}

/-- **What is spelled out makes a step** to smaller expressions. This is the
step of the induction in `decodeFrom_shown_iff`: a leaf shows its type at once,
and any other expression mirrors a definition of which the parts are expressions
again. Names are left out here; they lead to declarations, which are no
smaller. -/
theorem steps_of_spells {id : TypeId} {t : TypeExpr} (h : r.Spells names.types id t)
    (hnamed : ∀ name, t ≠ .named name) : Steps r names (fun x => sizeOf x < sizeOf t) id (t.codec .ref) := by
  -- A type is either shown by a leaf or has a definition that its expression mirrors part
  -- by part.
  cases h with
  | named hname => exact absurd rfl (hnamed _)
  | newtype he hknown =>
    simp only [TypeExpr.codec]
    exact .inl (Registry.shownByLeaf_newtype he hknown)
  | option he hknown hinner hx =>
    simp only [TypeExpr.codec]
    exact .inr ⟨_, _, he, .option ⟨_, _, by simp, hx, rfl, rfl⟩, Registry.mirrors_option he hknown hinner⟩
  | result he hknown hok herr hx hy =>
    simp only [TypeExpr.codec]
    refine .inr ⟨_, _, he, .result ⟨_, _, ?_, hx, rfl, rfl⟩ ⟨_, _, ?_, hy, rfl, rfl⟩,
      Registry.mirrors_result he hknown hok herr⟩
    · rw [TypeExpr.result.sizeOf_spec]
      omega
    · rw [TypeExpr.result.sizeOf_spec]
      omega
  | primitive he hdef =>
    simp only [TypeExpr.codec]
    exact .inl (Registry.shownByLeaf_primitive he hdef)
  | compact he hdef hinner =>
    simp only [TypeExpr.codec]
    exact .inl (Registry.shownByLeaf_compact he hdef hinner)
  | bytes he hdef hbyte =>
    simp only [TypeExpr.codec]
    exact .inl (Registry.shownByLeaf_bytes he hdef hbyte)
  | seq he hdef hbyte hx =>
    simp only [TypeExpr.codec]
    refine .inr ⟨_, _, he, .seq ⟨_, _, by simp, hx, rfl, rfl⟩, ?_⟩
    rw [hdef]
    exact Registry.mirrors_seq (Registry.definition?_of_entry he hdef) hbyte
  | fixedBytes he hdef hbyte =>
    simp only [TypeExpr.codec]
    exact .inl (Registry.shownByLeaf_fixedBytes he hdef hbyte)
  | array he hdef hbyte hx =>
    simp only [TypeExpr.codec]
    refine .inr ⟨_, _, he, .array ⟨_, _, ?_, hx, rfl, rfl⟩, ?_⟩
    · rw [TypeExpr.array.sizeOf_spec]
      omega
    rw [hdef]
    exact Registry.mirrors_array (Registry.definition?_of_entry he hdef) hbyte
  | @tuple _ items e xs he hdef hlen hxs =>
    simp only [TypeExpr.codec, TypeExpr.codecs_eq_map]
    refine .inr ⟨_, .tuple (Registry.refs items), he, .tuple ?_, ?_⟩
    · rw [List.forall₂_map_left_iff, List.forall₂_map_right_iff]
      refine List.Forall₂.flip (List.forall₂_iff_zip.2 ⟨hlen, fun {i x} hp => ?_⟩)
      have hsmall : sizeOf x < sizeOf (TypeExpr.tuple xs) := by
        have hmem := List.sizeOf_lt_of_mem (List.of_mem_zip hp).2
        rw [TypeExpr.tuple.sizeOf_spec]
        omega
      exact ⟨i, x, hsmall, hxs _ hp, rfl, rfl⟩
    · rw [hdef]
      exact Registry.mirrors_tuple (Registry.definition?_of_entry he hdef)

/-- The fields of a class, made from those of a definition. They have the same
names, which are handed out for the names in the document, and each has an
expression for the type of its field. -/
theorem fields_sameForm {fields : List Field} {record : RecordClass}
    (h : FieldsOf r names (fields.map Field.request) record.fields) :
    record.instances = instancesOf record.name (fieldNames (fields.map (·.name))) ∧
      SameFields (SpelledRef r names fun _ => True) (record.fields.map ClientField.codec)
        (Registry.plainFields fields) := by
  have hnames : record.fields.map (·.name) = fieldNames (fields.map (·.name)) := by
    rw [h.named, List.map_map]
    rfl
  have hlen := Registry.length_names_types fields
  refine ⟨?_, ?_, ?_⟩
  · rw [← hnames, instancesOf, List.map_map]
    rfl
  · rw [Registry.plainFields_eq, List.map_fst_zip (by rw [List.length_map]; exact Nat.le_of_eq hlen), ← hnames,
      List.map_map]
    rfl
  · rw [Registry.plainFields_eq, List.map_snd_zip (by rw [List.length_map]; exact Nat.le_of_eq hlen.symm),
      List.map_map, List.forall₂_map_left_iff, List.forall₂_map_right_iff]
    have hspelled := h.spelled
    rw [List.map_map, List.forall₂_map_left_iff] at hspelled
    rw [List.forall₂_map_right_iff]
    exact hspelled.flip.imp fun f field hf => ⟨field.typeId, f.type, trivial, hf, rfl, rfl⟩

/-- The arms of a codec, made from those of a definition. -/
theorem arms_sameForm (spoiled : Bool) {arms : List Arm} {classes : List ArmClass}
    (h : List.Forall₂ (fun arm cls => cls.index = arm.index ∧
      FieldsOf r names (arm.fields.map Field.request) cls.record.fields) arms classes) :
    List.Forall₂ (fun a b => a.1 = b.1 ∧ a.2.1 = b.2.1 ∧
        SameFields (SpelledRef r names fun _ => True) a.2.2 b.2.2) (classes.map (ArmClass.codecBelow spoiled))
      ((arms.zip (classes.map (·.record.name))).map fun p => Registry.clientArm spoiled p.1 p.2) := by
  induction h with
  | nil => exact .nil
  | cons hhead _ ih =>
    obtain ⟨hshape, hfields⟩ := fields_sameForm hhead.2
    exact .cons ⟨hhead.1, congrArg (fun s : Shape => if spoiled then s.withoutInstances else s) hshape, hfields⟩ ih

/-- **What is declared makes a step** to expressions. A declaration has a codec
of the form of its definition, with expressions in the places of the types that
are referred to. -/
theorem steps_of_describes {id : TypeId} {d : Declaration} (h : Describes r names id d) (hd : names.Distinct)
    (hknown : ∀ e, r.entry? id = some e → r.wellKnown? e = none) :
    Steps r names (fun _ => True) id d.codec := by
  cases h with
  | @composite e fields record he hdef hname hfields =>
    obtain ⟨hshape, hsame⟩ := fields_sameForm hfields
    refine .inr ⟨e, _, he, .struct hsame, ?_⟩
    rw [hshape, hdef]
    exact Registry.mirrors_struct hd he hdef (hknown e he) hname
  | @variant e arms name docs classes he hdef hname hclasses harms hoffered =>
    have hdescribes : Describes r names id (.variant name docs classes) :=
      .variant he hdef hname hclasses harms hoffered
    rw [Declaration.codec, hdescribes.spoiled_eq he]
    refine .inr ⟨e, .enum name _, he, .enum (arms_sameForm _ harms), ?_⟩
    have hlen : (names.armsOf id).length = arms.length := by
      rw [← hclasses, List.length_map, harms.length_eq]
    rw [hclasses, show r.plainCodec id e.definition = .enum (label id) (arms.map Registry.plainArm) by rw [hdef]; rfl]
    exact Registry.mirrors_enum name hd he hdef (hknown e he) hlen

/-! ## From one side to the other, step by step -/

variable {kind : TypeExpr → Prop} {id : TypeId} {c : Codec}

/-- **Towards the plain codec**: if it reads what the parts of a client's codec
read, it reads what the codec reads. -/
theorem Steps.below (h : Steps r names kind id c) {deref : Deref}
    (hparts : ∀ i t, kind t → r.Spells names.types i t →
      Below (decodeWith deref (t.codec .ref)) (r.shownAt names i (follow r.plain (label i)))) :
    Below (decodeWith deref c) (r.shownAt names id (follow r.plain (label id))) := by
  intro buf o w i ho hdecode
  rcases h with ⟨hleaf, hsame⟩ | ⟨e, c', he, hform, hmirrors⟩
  · rw [decodeWith_leaf hleaf] at hdecode
    obtain ⟨bs, hbetween, -⟩ := encodeLeaf_of_decodeLeaf hleaf hdecode
    exact ⟨hbetween.2.1, (hsame buf o w i ho).1 hdecode⟩
  · have hbelow : SameForm (fun a b => Below (decodeWith deref a)
        (decodeWith (r.shown names (follow r.plain)) b)) c c' := by
      refine hform.imp ?_
      rintro _ _ ⟨j, t, hkind, hspells, rfl, rfl⟩
      intro buf o w i ho hpart
      rw [decodeWith_ref, Registry.shown_label]
      exact hparts j t hkind hspells buf o w i ho hpart
    obtain ⟨hi, hshown⟩ := below_of_sameForm hbelow buf o w i ho hdecode
    refine ⟨hi, ?_⟩
    -- A reference to the type and its definition read the same, which is where the fuel
    -- is forgotten.
    rw [show follow r.plain (label id) = decodeWith (follow r.plain) (r.plainCodec id e.definition) from
      funext fun buf => funext (Registry.follow_plain he buf)]
    exact (hmirrors _ _ _ _ _).1 hshown

/-- What is read with some fuel is read. The fuel that is used for following is
enough for every offset, so more or less of it gives no other value. -/
theorem follow_of_fuel {env : Environment} {n : Nat} {name : String} {buf : Bytes} {o : Nat} {x : Value × Nat}
    (h : derefFuel env n name buf o = .ok x) : follow env name buf o = .ok x := by
  cases n with
  | zero => cases h
  | succ n =>
    unfold follow
    rw [derefFuel] at h
    cases hc : env.codec? name with
    | none =>
      rw [hc] at h
      cases h
    | some c =>
      rw [hc] at h
      exact decodeFrom_of_fuel env buf h

/-- **Towards the client**: if the parts of its codec read what the plain codec
reads with some fuel, the codec reads what it reads with more fuel. -/
theorem Steps.above (h : Steps r names kind id c) {deref : Deref} {n : Nat}
    (hparts : ∀ i t, kind t → r.Spells names.types i t →
      Below (r.shownAt names i (derefFuel r.plain n (label i))) (decodeWith deref (t.codec .ref))) :
    Below (r.shownAt names id (derefFuel r.plain (n + 1) (label id))) (decodeWith deref c) := by
  intro buf o w i ho hshown
  rcases h with ⟨hleaf, hsame⟩ | ⟨e, c', he, hform, hmirrors⟩
  · obtain ⟨v, hv, htranslate, hmade⟩ := Registry.shownAt_ok_iff.1 hshown
    have hdecode := (hsame buf o w i ho).2 (Registry.shownAt_ok_iff.2 ⟨v, follow_of_fuel hv, htranslate, hmade⟩)
    obtain ⟨bs, hbetween, -⟩ := encodeLeaf_of_decodeLeaf hleaf hdecode
    rw [decodeWith_leaf hleaf]
    exact ⟨hbetween.2.1, hdecode⟩
  · have hbelow : SameForm (fun a b => Below (decodeWith (r.shown names (derefFuel r.plain n)) a)
        (decodeWith deref b)) c' c := by
      refine hform.flip.imp ?_
      rintro _ _ ⟨j, t, hkind, hspells, rfl, rfl⟩
      intro buf o w i ho hpart
      rw [decodeWith_ref, Registry.shown_label] at hpart
      exact hparts j t hkind hspells buf o w i ho hpart
    refine below_of_sameForm hbelow buf o w i ho ((hmirrors _ _ _ _ _).2 ?_)
    -- Here the definition is read with one reference less, which is what the parts are
    -- read with.
    rw [show derefFuel r.plain (n + 1) (label id) =
      decodeWith (derefFuel r.plain n) (r.plainCodec id e.definition) from by
        funext buf o
        rw [derefFuel, Registry.codec?_plain he]] at hshown
    exact hshown

/-! ## Whole codecs -/

/-- Whether every name of a type has a codec that makes a step. -/
def Wired (r : Registry) (names : ModuleNames) (env : Environment) : Prop :=
  ∀ id name, names.types.find? id = some name →
    ∃ c, env.codec? name = some c ∧ Steps r names (fun _ => True) id c

/-- Down an expression, where names are taken care of: its steps lead to smaller
expressions until only names are left, and for those `hnamed` stands in. -/
theorem below_of_named {deref : Deref} (hnamed : ∀ id name, names.types.find? id = some name →
      Below (deref name) (r.shownAt names id (follow r.plain (label id))))
    {id : TypeId} {t : TypeExpr} (h : r.Spells names.types id t) :
    Below (decodeWith deref (t.codec .ref)) (r.shownAt names id (follow r.plain (label id))) := by
  -- The induction is on the size of the expression: the parts of a step are smaller.
  induction hsize : sizeOf t using Nat.strong_induction_on generalizing id t with
  | _ size ih =>
    by_cases hname : ∃ name, t = .named name
    · obtain ⟨name, rfl⟩ := hname
      cases h with
      | named hfind =>
        intro buf o w i ho hdecode
        rw [TypeExpr.codec, decodeWith_ref] at hdecode
        exact hnamed id name hfind buf o w i ho hdecode
    · refine (steps_of_spells h fun name heq => hname ⟨name, heq⟩).below fun j x hx hspells => ?_
      exact ih (sizeOf x) (hsize ▸ hx) hspells rfl

/-- **What a client reads with some fuel, the plain codec reads.** Only names
cost a client fuel, and the induction is on this fuel. The plain codec follows a
reference at each constructor, so it is given all the fuel that there is. -/
theorem below_plain {env : Environment} (hwired : Wired r names env) (n : Nat) {id : TypeId} {t : TypeExpr}
    (h : r.Spells names.types id t) :
    Below (decodeWith (derefFuel env n) (t.codec .ref)) (r.shownAt names id (follow r.plain (label id))) := by
  induction n generalizing id t with
  | zero =>
    refine below_of_named (fun j name _ => ?_) h
    intro buf o w i _ hdecode
    cases hdecode
  | succ n ih =>
    refine below_of_named (fun j name hfind => ?_) h
    -- Only a name costs fuel, so the induction goes on below the codec of the name.
    obtain ⟨c, hc, hsteps⟩ := hwired j name hfind
    intro buf o w i ho hdecode
    rw [derefFuel, hc] at hdecode
    exact hsteps.below (fun _ _ _ hspells => ih hspells) buf o w i ho hdecode

/-- **What the plain codec reads with some fuel, a client reads.** Here the
induction is on the fuel of the plain codec. Together with the lemma before,
neither side has to say how much fuel the other one takes. -/
theorem below_client {env : Environment} (hwired : Wired r names env) (n : Nat) {id : TypeId} {t : TypeExpr}
    (h : r.Spells names.types id t) :
    Below (r.shownAt names id (derefFuel r.plain n (label id))) (decodeWith (follow env) (t.codec .ref)) := by
  induction n generalizing id t with
  | zero =>
    intro buf o w i _ hshown
    obtain ⟨v, hv, -⟩ := Registry.shownAt_ok_iff.1 hshown
    cases hv
  | succ n ih =>
    by_cases hname : ∃ name, t = .named name
    · obtain ⟨name, rfl⟩ := hname
      cases h with
      | named hfind =>
        obtain ⟨c, hc, hsteps⟩ := hwired id name hfind
        intro buf o w i ho hshown
        rw [TypeExpr.codec, decodeWith_ref, follow, hc]
        dsimp only
        rw [decodeFrom_eq]
        exact hsteps.above (fun _ _ _ hspells => ih hspells) buf o w i ho hshown
    · exact (steps_of_spells h fun name heq => hname ⟨name, heq⟩).above fun _ _ _ hspells => ih hspells

/-- There is fuel enough for whatever is read. -/
theorem exists_fuel_of_follow {env : Environment} {name : String} {buf : Bytes} {o : Nat} {x : Value × Nat}
    (h : follow env name buf o = .ok x) : ∃ n, derefFuel env n name buf o = .ok x := by
  refine ⟨fuelFor env buf o + 1, ?_⟩
  unfold follow at h
  rw [derefFuel]
  exact h

/-- **A codec shows what the plain codec reads**, and reads nothing else. Either
direction is one of the two lemmas before, at the fuel that reading takes. -/
theorem decodeFrom_shown_iff {env : Environment} (hwired : Wired r names env) {id : TypeId} {t : TypeExpr}
    (h : r.Spells names.types id t) {buf : Bytes} {o e : Nat} (ho : o ≤ buf.length) {w : Value} :
    decodeFrom env (t.codec .ref) buf o = .ok (w, e) ↔
      r.shownAt names id (decodeFrom r.plain (.ref (label id))) buf o = .ok (w, e) := by
  have hplain : ∀ {buf o}, decodeFrom r.plain (.ref (label id)) buf o = follow r.plain (label id) buf o := by
    intro buf o
    rw [decodeFrom_eq, decodeWith_ref]
  rw [Registry.shownAt_ok_iff, hplain]
  constructor
  · intro hdecode
    have hshown := (below_plain hwired (fuelFor env buf o) h buf o w e ho hdecode).2
    exact Registry.shownAt_ok_iff.1 hshown
  · rintro ⟨v, hv, htranslate, hmade⟩
    obtain ⟨n, hn⟩ := exists_fuel_of_follow hv
    rw [decodeFrom_eq]
    exact (below_client hwired n h buf o w e ho (Registry.shownAt_ok_iff.2 ⟨v, hn, htranslate, hmade⟩)).2

/-! ## Looking up early or late -/

/-- Tuples whose parts decode alike decode alike. -/
theorem decodeTuple_congr {deref : Deref} {cs ds : List Codec}
    (h : List.Forall₂ (fun c d => decodeWith deref c = decodeWith deref d) cs ds) :
    decodeTuple deref cs = decodeTuple deref ds := by
  induction h with
  | nil => rfl
  | cons hhead _ ih =>
    funext buf o
    rw [decodeTuple_cons, decodeTuple_cons, hhead, ih]

/-- **It makes no difference when a class is looked up.** A reference is
followed to the codec that is wired, which is the codec that was found early, so
decoding through the one is decoding through the other. The induction is on how
the expression was spelled. -/
theorem decodeWith_early {env : Environment} {named : String → Codec}
    (hnamed : ∀ id name, names.types.find? id = some name → env.codec? name = some (named name)) {id : TypeId}
    {t : TypeExpr} (h : r.Spells names.types id t) :
    decodeWith (follow env) (t.codec .ref) = decodeWith (follow env) (t.codec named) := by
  induction h with
  | named hname =>
    funext buf o
    -- A reference that is followed and the codec that it leads to are one way of decoding.
    rw [TypeExpr.codec, TypeExpr.codec, decodeWith_ref, follow, hnamed _ _ hname]
    exact decodeFrom_eq _ _ _ _
  | newtype | primitive | compact | bytes | fixedBytes => simp only [TypeExpr.codec]
  | seq _ _ _ _ ih | array _ _ _ _ ih | option _ _ _ _ ih =>
    funext buf o
    simp only [TypeExpr.codec, decodeWith, ih]
  | result _ _ _ _ _ _ ihx ihy =>
    funext buf o
    simp only [TypeExpr.codec, decodeWith, ihx, ihy]
  | @tuple _ items _ xs _ _ hlen _ ih =>
    have hall : List.Forall₂ (fun c d => decodeWith (follow env) c = decodeWith (follow env) d)
        (xs.map (TypeExpr.codec .ref)) (xs.map (TypeExpr.codec named)) := by
      rw [List.forall₂_map_left_iff, List.forall₂_map_right_iff, List.forall₂_same]
      intro x hx
      rw [← List.map_snd_zip (Nat.le_of_eq hlen.symm)] at hx
      obtain ⟨p, hp, rfl⟩ := List.mem_map.1 hx
      exact ih p hp
    funext buf o
    rw [TypeExpr.codec, TypeExpr.codec, TypeExpr.codecs_eq_map, TypeExpr.codecs_eq_map, decodeWith_tuple,
      decodeWith_tuple, decodeTuple_congr hall]

end

/-! ## The client of a unit -/

section

variable {m : Metadata} {u : CompilationUnit} {runtimeModule handle : String} {cm : ClientModule} {b : Bindings}

/-- A type of a resolved registry is one of the document. -/
theorem entry?_of_resolve {r : Registry} (hresolve : m.resolve = .ok r) {id : TypeId} {e : Entry}
    (he : r.entry? id = some e) : m.entry? id = some e := by
  obtain ⟨walk, -, h⟩ := bind_ok_iff.1 hresolve
  dsimp only at h
  split at h
  · cases h
  · cases h
    obtain ⟨i, -, hi⟩ := List.mem_filterMap.1 (List.mem_of_find?_eq_some he)
    have hid : e.id = id := by simpa using List.find?_some he
    have hid' : e.id = i := by simpa using List.find?_some hi
    rw [← hid, hid']
    exact hi

/-- The types that a registry declares are declarations in its document too. -/
theorem isDeclaration_of_resolve {r : Registry} (hresolve : m.resolve = .ok r) {id : TypeId}
    (h : id ∈ r.declarationOrder) : m.isDeclaration id = true := by
  obtain ⟨walk, -, hresolve⟩ := bind_ok_iff.1 hresolve
  dsimp only at hresolve
  split at hresolve
  · cases hresolve
  · cases hresolve
    exact (List.mem_filter.1 h).2

/-- A declared type is a record or a variant, and no known shape. -/
theorem entry_of_declared {r : Registry} (hresolve : m.resolve = .ok r) {id : TypeId} (h : id ∈ r.declared) :
    ∃ e, r.entry? id = some e ∧ r.wellKnown? e = none ∧ e.definition.isDeclaration = true := by
  obtain ⟨horder, hknown⟩ := List.mem_filter.1 h
  have hdeclaration := isDeclaration_of_resolve hresolve horder
  cases he : r.entry? id with
  | none => simp [he] at hknown
  | some e =>
    rw [he] at hknown
    rw [Metadata.isDeclaration, entry?_of_resolve hresolve he] at hdeclaration
    exact ⟨e, rfl, Option.isNone_iff_eq_none.1 hknown, hdeclaration⟩

/-- Every name of a type is that of a declaration. Names are handed out for the
types in the order of declarations, each of which resolving has found to be a
composite or a variant. -/
theorem exists_declares (hresolve : m.resolve = .ok u.registry)
    (hclient : u.client runtimeModule handle = .ok cm) {id : TypeId} {name : String}
    (hname : (u.moduleNames handle).types.find? id = some name) :
    ∃ d, Declares u.registry (u.moduleNames handle) id d ∧ d.name = name := by
  have hdeclared := declared_of_name hname
  obtain ⟨e, he, -, hdeclaration⟩ := entry_of_declared hresolve hdeclared
  obtain ⟨found, hfound, -⟩ := bind_ok_iff.1 (client_assembled hclient).declarations
  obtain ⟨made, -, hmade⟩ := exists_of_forall₂ (mapM_ok_iff.1 hfound).flip hdeclared
  rw [hname] at hmade
  -- Only composites and variants are in the order of declarations, and both have a declaration.
  have hsome : ∃ d, made = some d := by
    unfold declaration? at hmade
    rw [he] at hmade
    dsimp only at hmade
    cases hdef : e.definition with
    | composite fields =>
      rw [hdef] at hmade
      obtain ⟨_, _, heq⟩ := bind_ok_iff.1 hmade
      cases heq
      exact ⟨_, rfl⟩
    | variant arms =>
      rw [hdef] at hmade
      obtain ⟨_, _, heq⟩ := bind_ok_iff.1 hmade
      cases heq
      exact ⟨_, rfl⟩
    | _ =>
      rw [hdef] at hdeclaration
      cases hdeclaration
  obtain ⟨d, rfl⟩ := hsome
  have hd : Declares u.registry (u.moduleNames handle) id d := ⟨name, hname, hmade⟩
  exact ⟨d, hd, Option.some.inj ((describes_of_declares hd).name.symm.trans hname)⟩

/-- After an import every name of a type has its codec. A name belongs to a
declaration, the declaration is wired under it, and it describes the type. -/
theorem wired_of_run (hresolve : m.resolve = .ok u.registry) (hclient : u.client runtimeModule handle = .ok cm)
    (hrun : cm.run = .ok b) :
    Wired u.registry (u.moduleNames handle) b.environment := by
  intro id name hname
  obtain ⟨d, hd, rfl⟩ := exists_declares hresolve hclient hname
  obtain ⟨e, he, hknown, -⟩ := entry_of_declared hresolve (declared_of_name hname)
  have hdescribes := describes_of_declares hd
  refine ⟨d.codec, (codec?_of_declares hclient hrun hd).1, steps_of_describes hdescribes
    (moduleNames_distinct u handle) ?_⟩
  intro e' he'
  rw [he] at he'
  cases he'
  exact hknown

/-- After an import the codec of every name can be looked up. -/
theorem codecOf_of_run (hresolve : m.resolve = .ok u.registry)
    (hclient : u.client runtimeModule handle = .ok cm) (hrun : cm.run = .ok b) {id : TypeId} {name : String}
    (hname : (u.moduleNames handle).types.find? id = some name) :
    ∃ c, b.environment.codec? name = some c ∧ b.codecOf name = .ok c := by
  obtain ⟨d, hd, rfl⟩ := exists_declares hresolve hclient hname
  obtain ⟨hc, hbound⟩ := codec?_of_declares hclient hrun hd
  refine ⟨d.codec, hc, bind_ok_iff.2 ⟨(), ?_, ?_⟩⟩
  · rw [Bindings.require, hbound, Bool.or_true, if_pos rfl]
  · rw [hc]
    rfl

/-- **A client reads what the plain codecs read.** The codec of a type that can
be spelled, looked up early or late, succeeds within a buffer exactly where the
plain codec succeeds and what a client makes of the value can be made. It then
gives this, and ends where the plain codec ends. A value can be made if
every class of which it has an instance takes the attributes of the instance,
and no class of it is spoiled by its variant. -/
theorem client_faithful (hresolve : m.resolve = .ok u.registry)
    (hclient : u.client runtimeModule handle = .ok cm) (himports : cm.Imports b) {id : TypeId} {t : TypeExpr}
    (hspell : u.registry.spell (u.moduleNames handle).types id = .ok t) :
    ∃ late early, (t.codecExpr true).eval b.codecOf = .ok late ∧ (t.codecExpr false).eval b.codecOf = .ok early ∧
      ∀ buf o, decodeFrom b.environment late buf o = decodeFrom b.environment early buf o ∧
        (o ≤ buf.length → ∀ w e, decodeFrom b.environment early buf o = .ok (w, e) ↔
          ∃ v, decodeFrom u.registry.plain (.ref (label id)) buf o = .ok (v, e) ∧
            u.registry.translate (u.moduleNames handle) id v = w ∧
              w.constructible (u.registry.spoils (u.moduleNames handle)) = true) := by
  have hspells := Registry.spells_of_spell hspell
  have hrun := himports.run
  have hwired := wired_of_run hresolve hclient hrun
  have hcodec : ∀ id name, (u.moduleNames handle).types.find? id = some name →
      b.environment.codec? name = some ((b.environment.codec? name).getD default) ∧
        b.codecOf name = .ok ((b.environment.codec? name).getD default) := by
    intro id name hname
    obtain ⟨c, hc, hlookup⟩ := codecOf_of_run hresolve hclient hrun hname
    rw [hc]
    exact ⟨rfl, hlookup⟩
  have hlate : (t.codecExpr true).eval b.codecOf = .ok (t.codec .ref) :=
    eval_of_spells .ref (fun _ _ _ => by simp [TypeExpr.codecExpr, CodecExpr.eval]) hspells
  have hearly : (t.codecExpr false).eval b.codecOf =
      .ok (t.codec fun name => (b.environment.codec? name).getD default) := by
    refine eval_of_spells _ (fun i name hname => ?_) hspells
    simp only [TypeExpr.codecExpr, Bool.false_eq_true, if_false, CodecExpr.eval]
    exact (hcodec i name hname).2
  have hsame : ∀ buf o, decodeFrom b.environment (t.codec .ref) buf o =
      decodeFrom b.environment (t.codec fun name => (b.environment.codec? name).getD default) buf o := by
    intro buf o
    rw [decodeFrom_eq, decodeFrom_eq, decodeWith_early (fun i name hname => (hcodec i name hname).1) hspells]
  refine ⟨_, _, hlate, hearly, fun buf o => ⟨hsame buf o, fun ho w e => ?_⟩⟩
  rw [← hsame, decodeFrom_shown_iff hwired hspells ho, Registry.shownAt_ok_iff]

end

/-! ## A record whose client cannot be given its values -/

/-- A record of two bytes, the first one under a name of choice. -/
def recordType (name : String) : Entry :=
  { id := 1, definition := .composite [{ typeId := 0, name }, { typeId := 0, name := "y" }], path := ["a", "P"] }

/-- A document with the record. -/
def recordDocument (name : String) : Metadata :=
  { contractName := "c", contractVersion := "1"
    types := [{ id := 0, definition := .primitive (.unsigned .w8) }, recordType name]
    messages := [{ label := "send", args := [{ label := "p", typeId := 1 }] }] }

/-- The unit of the document. -/
def recordUnit (name : String) : CompilationUnit :=
  { contractName := "c", contractVersion := "1"
    registry := ⟨[recordType name, { id := 0, definition := .primitive (.unsigned .w8) }], [1]⟩
    constructors := []
    messages := [{ kind := .message, label := "send", name := .ungrouped "send", selector := [1, 2, 3, 4],
                   args := [("p", 1)], returnType := none, mutates := true, payable := false, docs := [] }]
    events := [], codeHash := none, bytecode := none }

theorem recordDocument_resolve (name : String) : (recordDocument name).resolve = .ok (recordUnit name).registry := by
  cbv

theorem exists_ok {ε α : Type} {x : Except ε α} (h : x.isOk = true) : ∃ a, x = .ok a := by
  cases x with
  | error e => cases h
  | ok a => exact ⟨a, rfl⟩

theorem recordUnit_spell (name : String)
    (hname : ((recordUnit name).moduleNames "H").types.find? 1 = some "P") :
    (recordUnit name).registry.spell ((recordUnit name).moduleNames "H").types 1 = .ok (.named "P") := by
  rw [Registry.spell, Registry.spellBelow, hname]
  rfl

/-- In the client of the document with `x` the record is read. -/
theorem client_faithful_record :
    ∃ cm b c, (recordUnit "x").client "r" "H" = .ok cm ∧ cm.Imports b ∧
      ((TypeExpr.named "P").codecExpr false).eval b.codecOf = .ok c ∧
      decodeFrom b.environment c [1, 2] 0 = .ok (.instance "P" [("x", .int 1), ("y", .int 2)], 2) := by
  have himported : ((recordUnit "x").imported "r" "H").toOption.map (fun _ => ()) = some () := by decide +kernel
  obtain ⟨cm, b, hclient, himports, -⟩ := exists_imported himported
  have hspell := recordUnit_spell "x" (by decide +kernel)
  obtain ⟨late, c, -, hc, hreads⟩ := client_faithful (recordDocument_resolve "x") hclient himports hspell
  have hcls : ((recordUnit "x").moduleNames "H").classOf 1 "1" (recordType "x").definition = "P" := by decide +kernel
  have hshown : (recordUnit "x").registry.translate ((recordUnit "x").moduleNames "H") 1
      (.instance "1" (["x", "y"].zip [.int 1, .int 2])) = .instance "P" [("x", .int 1), ("y", .int 2)] := by
    rw [Registry.translate_instance (e := recordType "x") rfl (by decide +kernel)]
    refine (congrArg (fun cls => Value.instance cls _) hcls).trans ?_
    simp [recordType, TypeDef.attributeTypes, Registry.translateEach, Registry.translate]
  refine ⟨cm, b, c, hclient, himports, hc, ?_⟩
  exact ((hreads [1, 2] 0).2 (Nat.zero_le _) _ _).2 ⟨_, rfl, hshown, by decide +kernel⟩

/-- In the client of the document with `__x` it is not, though the plain codec
reads it. -/
theorem record_unread :
    ∃ cm b, (recordUnit "__x").client "r" "H" = .ok cm ∧ cm.Imports b ∧
      (recordUnit "__x").registry.spell ((recordUnit "__x").moduleNames "H").types 1 = .ok (.named "P") ∧
      decodeFrom (recordUnit "__x").registry.plain (.ref (label 1)) [1, 2] 0 =
        .ok (.instance "1" [("__x", .int 1), ("y", .int 2)], 2) ∧
      ∀ w e, decodeFrom b.environment (.ref "P") [1, 2] 0 ≠ .ok (w, e) := by
  have himported : ((recordUnit "__x").imported "r" "H").toOption.map (fun _ => ()) = some () := by decide +kernel
  obtain ⟨cm, b, hclient, himports, -⟩ := exists_imported himported
  have hspell := recordUnit_spell "__x" (by decide +kernel)
  refine ⟨cm, b, hclient, himports, hspell, rfl, ?_⟩
  intro w e hw
  have hwired := wired_of_run (recordDocument_resolve "__x") hclient himports.run
  have hshown := (decodeFrom_shown_iff (t := .named "P") hwired (Registry.spells_of_spell hspell)
    (Nat.zero_le _)).1 hw
  obtain ⟨v, hv, rfl, hmade⟩ := Registry.shownAt_ok_iff.1 hshown
  have hplain : v = .instance "1" [("__x", .int 1), ("y", .int 2)] := by
    cases hv
    rfl
  rw [hplain] at hmade
  exact absurd hmade (by decide +kernel)

end ContractClient
